import Stencil.Markers

/-!
# Segments

A source is a sequence of segments, plain text and tags in turn as they come.  A tag runs from a
begin marker to the first end marker behind it; a begin marker without an end marker behind it
swallows the rest of the source.

## Main Definitions

* `Position`, `Span` — places in a source
* `Segment.scan` — the segments of a source, each with the place it takes
-/

namespace Stencil

/-- A place in a source.  Its numbers have thirty-two bits and start over at zero when there are too
few of them. -/
structure Position where
  /-- The line, from one. -/
  line : UInt32
  /-- The characters before the place in its line. -/
  column : UInt32
  /-- The bytes before the place in the source. -/
  offset : UInt32
deriving DecidableEq, Repr

namespace Position

/-- The start of a source. -/
def start : Position := ⟨1, 0, 0⟩

/-- The place behind one more character. -/
def next (p : Position) (c : Char) : Position :=
  let offset := p.offset + .ofNat c.utf8Size
  if c = '\n' then ⟨p.line + 1, 0, offset⟩ else ⟨p.line, p.column + 1, offset⟩

/-- The place behind a text. -/
def after (p : Position) (t : Text) : Position := t.foldl next p

@[simp] theorem after_append (p : Position) (s t : Text) :
    p.after (s ++ t) = (p.after s).after t := List.foldl_append

end Position

/-- A stretch of a source. -/
structure Span where
  start : Position
  stop : Position
deriving DecidableEq, Repr

/-- The span of what stands nowhere in the source. -/
def Span.nowhere : Span := ⟨⟨0, 0, 0⟩, ⟨0, 0, 0⟩⟩

/-- A piece of a source: plain text, or a tag by what stands between its markers. -/
inductive Segment
  | text (content : Text)
  | tag (body : Text)
deriving DecidableEq, Repr

namespace Segment

/-- Behind a tag less of the source is left than before it. -/
theorem length_after_tag {markers : Markers} {t before after body rest : Text}
    (h : Text.splitAt? markers.opening t = some (before, after))
    (h' : Text.splitAt? markers.closing after = some (body, rest)) : rest.length < t.length := by
  have ho := List.length_pos_iff.2 markers.opening_ne_nil
  rw [Text.eq_of_splitAt? h, Text.eq_of_splitAt? h']
  simp only [List.length_append]; omega

/-- The segments of the rest of a source, which starts at the given place and not in a tag. -/
def scanFrom (markers : Markers) (place : Position) (t : Text) : List (Segment × Span) :=
  match h : Text.splitAt? markers.opening t with
  | none => if t = [] then [] else [(text t, ⟨place, place.after t⟩)]
  | some (before, after) =>
    let opened := place.after before
    let lead := if before = [] then [] else [(text before, Span.mk place opened)]
    match h' : Text.splitAt? markers.closing after with
    | none => lead
    | some (body, rest) =>
      have : rest.length < t.length := length_after_tag h h'
      let closed := opened.after (markers.opening ++ body ++ markers.closing)
      lead ++ (tag body, ⟨opened, closed⟩) :: scanFrom markers closed rest
termination_by t.length

/-- The segments of a source. -/
def scan (markers : Markers) (source : Text) : List (Segment × Span) :=
  scanFrom markers .start source

end Segment

end Stencil
