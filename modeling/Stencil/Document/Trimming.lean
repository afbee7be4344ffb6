import Stencil.Document.Basic
import Stencil.Text.Blank

/-!
# Trimming

A tag that stands alone on its line, and is no value, leaves no trace of the line: the white space
before it and the white space behind it with the end of the line are taken away.

## Main Definitions

* `Text.splitLastLine`, `Text.splitFirstLine` — a text at its last and behind its first line end
* `trimFrom` — the tags of a list of nodes, one after another
* `Document.trim` — the trimmed document

## Design Notes

Tags are handled in reading order, and each decides on the texts as the tags before it have left
them.  A tag sees the node in front of it and the one behind it; where there is no text, nothing
stands in its way.
-/

namespace Stencil

namespace Text

/-- Whether a character ends a line. -/
def endsLine (c : Char) : Bool := c == '\n' || c == '\r'

/-- A text up to its last line end, and what comes after it. -/
def splitLastLine (t : Text) : Text × Text :=
  ((t.reverse.dropWhile (!endsLine ·)).reverse, (t.reverse.takeWhile (!endsLine ·)).reverse)

/-- The first line of a text with the line end after it, and the rest.  A carriage return and a
line feed together are one line end. -/
def splitFirstLine : Text → Text × Text
  | [] => ([], [])
  | c :: t =>
    if c = '\n' then ([c], t)
    else if c = '\r' then
      match t with
      | '\n' :: t => ([c, '\n'], t)
      | t => ([c], t)
    else (c :: (splitFirstLine t).1, (splitFirstLine t).2)

end Text

namespace Node

/-- Whether a node lets the line start behind it: it is no text, or its last line is blank. -/
def endsBlank (n : Node) : Bool := !n.isText || Text.allBlank (Text.splitLastLine n.content).2

/-- Whether a node lets the line end in front of it: it is no text, or its first line is blank. -/
def startsBlank (n : Node) : Bool := !n.isText || Text.allBlank (Text.splitFirstLine n.content).1

/-- Takes the last line from a text. -/
def dropLastLine (n : Node) : Node :=
  if n.isText then { n with content := (Text.splitLastLine n.content).1 } else n

/-- Takes the first line from a text. -/
def dropFirstLine (n : Node) : Node :=
  if n.isText then { n with content := (Text.splitFirstLine n.content).2 } else n

end Node

/-- Trims the tags of a list of nodes, after the node in front of them.  If the tag in front of the
list has been trimmed, the first line of the list is still to be taken away. -/
def trimFrom (before : Option Node) (cut : Bool) : List Node → List Node
  | [] => before.toList
  | n :: rest =>
    let n := if cut then n.dropFirstLine else n
    -- The node in front is as the tags before left it, the one behind has not been touched yet.
    if n.kind.isTrimmable && before.all Node.endsBlank && rest.head?.all Node.startsBlank then
      (before.map Node.dropLastLine).toList ++ trimFrom (some n) true rest
    else before.toList ++ trimFrom (some n) false rest

/-- The nodes of a document in reading order, trimmed. -/
def trimNodes (nodes : List Node) : List Node := trimFrom none false nodes

/-- Trimming keeps every node in its place. -/
theorem length_trimFrom (before : Option Node) (cut : Bool) (nodes : List Node) :
    (trimFrom before cut nodes).length = before.toList.length + nodes.length := by
  induction nodes generalizing before cut with
  | nil => simp [trimFrom]
  | cons n rest ih =>
    rw [trimFrom]
    generalize (if cut = true then n.dropFirstLine else n) = m
    split
    · cases before <;> simp [ih] <;> omega
    · cases before <;> simp [ih] <;> omega

/-- The document without the white space around the tags that stand alone.  Trimming it once more
changes nothing. -/
def Document.trim (d : Document) : Document :=
  if d.trimmed then d else ⟨(d.forest.refill (trimNodes d.forest.nodes)).1, true⟩

end Stencil
