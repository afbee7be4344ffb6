import Mathlib.Data.List.DropRight
import Mathlib.Data.List.Induction
import Stencil.Proofs.Segment.Cuts

/-!
# Where segments stand

The scanner counts lines, characters and bytes as it goes, by different amounts for plain text and
for tags.  What it has counted at any place is what stands in the source in front of the place and
nothing else (`Position.start_after`), so the spans of segments are known from the segments alone
(`Segment.scanFrom_eq_spread`): each one starts where the one before it stops, and the first one at
the start of the source.

The counters have thirty-two bits.  For a source of fewer than `2 ^ 32` bytes they are exact, except
for one: behind `2 ^ 32 - 1` line feeds and nothing else, the line is one more than there are bytes
and starts over at zero (`Position.line_behind_eq_zero_iff`).

## Main Definitions

* `Position.behind` — the place behind a start of a source, without a count along the way
* `Position.Measures` — the numbers of a place are those of the start of the source in front of it
* `Segment.spread` — segments with the spans that they take one behind another
* `Segment.Tiles` — segments with their spans cover a source from its start, without gaps
-/

namespace Stencil

open Text

/-! ## Places -/

namespace Position

/-- The place behind a start of a source. -/
def behind (before : Text) : Position where
  line := .ofNat (1 + before.count '\n')
  column := .ofNat (before.rtakeWhile (· ≠ '\n')).length
  offset := .ofNat (byteSize before)

theorem behind_concat (before : Text) (c : Char) :
    behind (before ++ [c]) = (behind before).next c := by
  have hoffset : UInt32.ofNat (byteSize (before ++ [c])) =
      .ofNat (byteSize before) + .ofNat c.utf8Size := by
    rw [byteSize_append]
    exact UInt32.ofNat_add _ _
  by_cases hc : c = '\n'
  · subst hc
    have hline : UInt32.ofNat (1 + (before ++ ['\n']).count '\n') =
        .ofNat (1 + before.count '\n') + 1 := by
      rw [List.count_append, ← Nat.add_assoc]
      exact UInt32.ofNat_add _ _
    rw [behind, next, if_pos rfl, hline, hoffset]
    simp [behind]
  · have hline : (before ++ [c]).count '\n' = before.count '\n' := by
      rw [List.count_append, List.count_singleton, if_neg (by simpa using hc), Nat.add_zero]
    have hcolumn : UInt32.ofNat ((before ++ [c]).rtakeWhile (· ≠ '\n')).length =
        .ofNat (before.rtakeWhile (· ≠ '\n')).length + 1 := by
      rw [List.rtakeWhile_concat_pos _ _ _ (by simpa using hc), List.length_append]
      exact UInt32.ofNat_add _ _
    rw [behind, next, if_neg hc, hline, hcolumn, hoffset]
    rfl

/-- **What is counted on the way to a place is what stands in front of it.** -/
theorem start_after (before : Text) : start.after before = behind before := by
  induction before using List.reverseRecOn with
  | nil => rfl
  | append_singleton before c ih =>
    rw [after_append, ih, behind_concat]
    rfl

theorem behind_append (before t : Text) : behind (before ++ t) = (behind before).after t := by
  rw [← start_after, after_append, start_after]

/-- The numbers of a place are those of the start of the source in front of it. -/
structure Measures (p : Position) (before : Text) : Prop where
  /-- The line, from one, goes by the line feeds; `2 ^ 32` is no number of thirty-two bits. -/
  line : p.line.toNat = (1 + before.count '\n') % Nat.pow 2 32
  /-- The column is the number of characters behind the last line feed. -/
  column : p.column.toNat = (before.rtakeWhile (· ≠ '\n')).length
  offset : p.offset.toNat = byteSize before

theorem toNat_line_behind (before : Text) :
    (behind before).line.toNat = (1 + before.count '\n') % Nat.pow 2 32 := UInt32.toNat_ofNat'

/-- Thirty-two bits are enough for the column and the offset behind fewer than `2 ^ 32` bytes. -/
theorem measures_behind {before : Text} (h : byteSize before < Nat.pow 2 32) :
    (behind before).Measures before where
  line := toNat_line_behind before
  column := by
    have hle : (before.rtakeWhile (· ≠ '\n')).length ≤ byteSize before :=
      Nat.le_trans (List.rtakeWhile_suffix _ before).length_le (length_le_byteSize before)
    exact UInt32.toNat_ofNat_of_lt' (Nat.lt_of_le_of_lt hle h)
  offset := UInt32.toNat_ofNat_of_lt' h

/-- Behind fewer than `2 ^ 32` bytes the number of the line is exact, unless all of them are line
feeds and there is no room for one more. -/
theorem line_behind_eq_zero_iff {before : Text} (h : byteSize before < Nat.pow 2 32) :
    (behind before).line = 0 ↔ before = List.replicate (Nat.pow 2 32 - 1) '\n' := by
  have hcount : before.count '\n' ≤ before.length := List.count_le_length
  have hlength := length_le_byteSize before
  rw [← UInt32.toNat_inj, toNat_line_behind, UInt32.toNat_zero, ← Nat.dvd_iff_mod_eq_zero]
  constructor
  · intro hdvd
    have hle : Nat.pow 2 32 ≤ 1 + before.count '\n' :=
      Nat.le_of_dvd (Nat.add_pos_left Nat.one_pos _) hdvd
    refine List.eq_replicate_iff.2 ⟨by omega, fun c hc => ?_⟩
    exact (List.count_eq_length.1 (by omega) c hc).symm
  · rintro rfl
    refine ⟨1, ?_⟩
    rw [List.count_replicate_self]

end Position

namespace Segment

open Position (behind)

variable {markers : Markers}

/-! ## Segments one behind another -/

/-- Segments with the spans that they take one behind another, the first one behind a given start of
the source. -/
def spread (markers : Markers) (before : Text) : List Segment → List (Segment × Span)
  | [] => []
  | segment :: rest =>
    (segment, ⟨behind before, behind (before ++ write markers segment)⟩) ::
      spread markers (before ++ write markers segment) rest

/-- **The scanner spreads its segments over the source.** -/
theorem scanFrom_eq_spread (before t : Text) :
    scanFrom markers (behind before) t =
      spread markers before ((scanFrom markers (behind before) t).map Prod.fst) := by
  induction hlength : t.length using Nat.strongRecOn generalizing before t with
  | _ n ih =>
    subst hlength
    rcases start_cases markers t with rfl | ⟨hne, hnone⟩ | ⟨content, after, hne, rfl, hfirst⟩ |
      ⟨after, rfl, hnone⟩ | ⟨body, after, rfl, hfirst⟩
    · rw [scanFrom_nil]
      rfl
    · rw [scanFrom_plain hne hnone, ← Position.behind_append]
      rfl
    · have hshorter := List.length_pos_iff.2 hne
      have hrest := ih (markers.opening ++ after).length
        (by simp only [List.length_append]; omega) (before ++ content) _ rfl
      rw [scanFrom_text hne hfirst, ← Position.behind_append, List.map_cons, spread, write, ← hrest]
    · rw [scanFrom_dangling hnone]
      rfl
    · have hshorter := List.length_pos_iff.2 markers.opening_ne_nil
      have hrest := ih after.length (by simp only [List.length_append]; omega)
        (before ++ (markers.opening ++ body ++ markers.closing)) _ rfl
      rw [scanFrom_tag hfirst, ← Position.behind_append, List.map_cons, spread, write, ← hrest]

/-- The span of a segment goes by what is written in front of it. -/
theorem span_of_spread {before : Text} {segments : List Segment} {front : List (Segment × Span)}
    {segment : Segment} {span : Span} {back : List (Segment × Span)}
    (h : spread markers before segments = front ++ (segment, span) :: back) :
    span = ⟨behind (before ++ writeAll markers (front.map Prod.fst)),
      behind (before ++ writeAll markers (front.map Prod.fst) ++ write markers segment)⟩ := by
  induction front generalizing before segments with
  | nil =>
    cases segments with
    | nil => cases h
    | cons first rest =>
      obtain ⟨hfirst, -⟩ := List.cons.inj h
      obtain ⟨rfl, rfl⟩ := Prod.mk.inj hfirst
      rw [List.map_nil, writeAll_nil, List.append_nil]
  | cons token front ih =>
    cases segments with
    | nil => cases h
    | cons first rest =>
      obtain ⟨rfl, hrest⟩ := List.cons.inj h
      rw [ih hrest, List.map_cons, writeAll_cons, ← List.append_assoc before]

/-- Each segment starts where the one in front of it stops. -/
theorem isChain_spread (before : Text) (segments : List Segment) :
    (spread markers before segments).IsChain
      fun segment following => segment.2.stop = following.2.start := by
  induction segments generalizing before with
  | nil => exact .nil
  | cons segment segments ih =>
    cases segments with
    | nil => exact .singleton _
    | cons following segments => exact .cons_cons rfl (ih (before ++ write markers segment))

/-! ## The spans of a source -/

/-- Segments with their spans tile a source. -/
structure Tiles (markers : Markers) (source : Text) (segments : List (Segment × Span)) : Prop where
  /-- The first segment starts where the source does. -/
  first : ∀ segment ∈ segments.head?, segment.2.start = .start
  /-- Each segment starts where the one in front of it stops. -/
  next : segments.IsChain fun segment following => segment.2.stop = following.2.start
  /-- The segments cover the source, up to a begin marker without an end marker behind it. -/
  written : ∃ rest, writeAll markers (segments.map Prod.fst) ++ rest = source ∧
    (rest = [] ∨ ∃ t, rest = markers.opening ++ t ∧ ¬ markers.closing <:+: t)
  /-- A segment stands behind those in front of it, and takes up what it is written with. -/
  placed : ∀ front segment span back, segments = front ++ (segment, span) :: back →
    span.start.Measures (writeAll markers (front.map Prod.fst)) ∧
      span.stop.Measures (writeAll markers (front.map Prod.fst) ++ write markers segment)
  /-- A search for the bytes of the markers finds the same segments between the same offsets. -/
  cuts : scanBytes markers (bytes source) = segments.map cut

variable {source : Text}

theorem scan_eq_spread (markers : Markers) (source : Text) :
    scan markers source = spread markers [] ((scan markers source).map Prod.fst) :=
  scanFrom_eq_spread [] source

theorem start_of_scan : ∀ segment ∈ (scan markers source).head?, segment.2.start = .start := by
  rw [scan_eq_spread]
  cases (scan markers source).map Prod.fst with
  | nil => nofun
  | cons segment segments =>
    rintro _ ⟨⟩
    rfl

section Split

variable {front back : List (Segment × Span)} {segment : Segment} {span : Span}
  (h : scan markers source = front ++ (segment, span) :: back)
include h

theorem span_of_scan :
    span = ⟨behind (writeAll markers (front.map Prod.fst)),
      behind (writeAll markers (front.map Prod.fst) ++ write markers segment)⟩ := by
  rw [scan_eq_spread] at h
  have hspan := span_of_spread h
  rwa [List.nil_append] at hspan

/-- What stands in front of a segment is a start of the source, and so it is with the segment. -/
theorem isPrefix_writeAll_front :
    writeAll markers (front.map Prod.fst) ++ write markers segment <+: source := by
  obtain ⟨rest, hlayout⟩ := exists_layout_scanFrom markers source .start
  refine List.IsPrefix.trans ⟨writeAll markers (back.map Prod.fst), ?_⟩ ⟨rest, hlayout.written⟩
  rw [← scan, h]
  simp [writeAll]

/-- The numbers of a span are those of the source in front of its two ends. -/
theorem measures_span (hsource : byteSize source < Nat.pow 2 32) :
    span.start.Measures (writeAll markers (front.map Prod.fst)) ∧
      span.stop.Measures (writeAll markers (front.map Prod.fst) ++ write markers segment) := by
  obtain ⟨rest, hrest⟩ := isPrefix_writeAll_front h
  rw [← hrest, byteSize_append] at hsource
  have hstop : byteSize (writeAll markers (front.map Prod.fst) ++ write markers segment) <
      Nat.pow 2 32 := Nat.lt_of_le_of_lt (Nat.le_add_right _ _) hsource
  rw [span_of_scan h]
  refine ⟨Position.measures_behind (Nat.lt_of_le_of_lt ?_ hstop), Position.measures_behind hstop⟩
  rw [byteSize_append]
  exact Nat.le_add_right _ _

end Split

/-- **The segments of a source tile it**, up to a begin marker without an end marker behind it.  The
first one starts where the source does, each other one where the one in front of it stops, and the
line, the column and the offset of every place are those of the start of the source up to the place,
the line as a number of thirty-two bits.  The same cuts are found in the bytes of the source, so all
of them fall between two characters. -/
theorem tiles_scan (markers : Markers) (source : Text) (h : byteSize source < Nat.pow 2 32) :
    Tiles markers source (scan markers source) where
  first := start_of_scan
  next := by
    rw [scan_eq_spread]
    exact isChain_spread [] _
  written := by
    obtain ⟨rest, hlayout⟩ := exists_layout_scanFrom markers source .start
    exact ⟨rest, hlayout.written, hlayout.dangling⟩
  placed front segment span back hscan := measures_span hscan h
  cuts := scanBytes_bytes markers h

/-- A source of two lines, with a character of two bytes in front of its tag. -/
theorem tiles_scan_lines :
    byteSize "a\né{% x %}\n".toList < Nat.pow 2 32 ∧
      Tiles .standard "a\né{% x %}\n".toList (scan .standard "a\né{% x %}\n".toList) :=
  ⟨by decide, tiles_scan .standard _ (by decide)⟩

example : (scan .standard "a\né{% x %}\n".toList).map Prod.snd =
    [⟨⟨1, 0, 0⟩, ⟨2, 1, 4⟩⟩, ⟨⟨2, 1, 4⟩, ⟨2, 8, 11⟩⟩, ⟨⟨2, 8, 11⟩, ⟨3, 0, 12⟩⟩] := by
  decide +kernel

/-! ## Where a line has no number -/

/-- Characters that no begin marker holds are plain text. -/
theorem not_opening_isInfix_replicate {c : Char} (hc : c ∉ markers.opening) (n : Nat) :
    ¬ markers.opening <:+: List.replicate n c := by
  intro hoccurs
  obtain ⟨d, opening, hopening⟩ := List.exists_cons_of_ne_nil markers.opening_ne_nil
  have hd : d ∈ markers.opening := hopening ▸ List.mem_cons_self
  exact hc (List.eq_of_mem_replicate (hoccurs.subset hd) ▸ hd)

/-- Line feeds are one segment. -/
theorem scan_lineFeeds {n : Nat} (hn : 0 < n) (hopening : '\n' ∉ markers.opening) :
    scan markers (List.replicate n '\n') =
      [(text (List.replicate n '\n'), ⟨.start, behind (List.replicate n '\n')⟩)] := by
  have hne : List.replicate n '\n' ≠ [] := mt (List.replicate_eq_nil_iff _).1 (Nat.ne_of_gt hn)
  rw [scan, scanFrom_plain hne (not_opening_isInfix_replicate hopening n), Position.start_after]

theorem byteSize_lineFeeds (n : Nat) : byteSize (List.replicate n '\n') = n := by
  induction n with
  | zero => rfl
  | succ n ih =>
    rw [List.replicate_succ, byteSize_cons, ih, Nat.add_comm]
    rfl

/-- `2 ^ 32 - 1` line feeds are fewer than `2 ^ 32` bytes, but behind them the line would have the
number `2 ^ 32`, and has the number zero.  And a begin marker without an end marker behind it is in
no span at all. -/
theorem exists_scan_not_measured :
    (∃ source, source = List.replicate (Nat.pow 2 32 - 1) '\n' ∧
      byteSize source < Nat.pow 2 32 ∧ 1 + source.count '\n' = Nat.pow 2 32 ∧
      ∃ stop, scan .standard source = [(text source, ⟨.start, stop⟩)] ∧ stop.line.toNat = 0) ∧
    (scan .standard "a\x7b% b".toList).map Prod.snd = [⟨.start, ⟨1, 1, 1⟩⟩] ∧
      byteSize "a\x7b% b".toList = 5 := by
  refine ⟨⟨_, rfl, ?_, ?_, _, scan_lineFeeds (by decide) (by decide), ?_⟩, by decide +kernel, rfl⟩
  · rw [byteSize_lineFeeds]
    decide
  · rw [List.count_replicate_self]
  · rw [Position.toNat_line_behind, List.count_replicate_self]

end Segment

end Stencil
