import Mathlib.Data.List.Basic
import Stencil.Proofs.Segment.Spans
import Stencil.Proofs.Template.Limit
import Stencil.Proofs.Text.FullLines
import Stencil.Proofs.Text.Trim

/-!
# Reports about templates

A template without a document is reported with an excerpt of its source around the line that the
error names.  An excerpt is found by arithmetic on the index of a line, with subtractions that stop
at zero and an index that is cut down to the last line.  What it comes to is a cut of the numbered
lines into five pieces, of which the three in the middle are shown (`Error.Window`).

The line of the error is counted up by the scanner from segment to segment.  It is one more than the
line feeds in front of the tag (`Position.behind`), so the begin marker of the tag stands in the
line of the source with this number (`Text.exists_fullLines_at`), and the index is never too large.
The number has thirty-two bits: behind `2 ^ 32 - 1` line feeds there is none left for the line.  And
the excerpt is not all of a report, for the message in front of it quotes the tag as it stands, over
several lines if need be.

## Main Definitions

* `Error.Window` — the lines of a source around one of them, each with its number
* `Error.Window.rows` — an excerpt row by row
* `Error.Marks` — a report shows a window around a line and marks the line
* `Template.ClosesFirst` — a tag is the first that closes a branch where none is open
-/

namespace Stencil

namespace Error

/-! ## Rows -/

theorem isDigit_toDigits (number : Nat) : ∀ c ∈ Nat.toDigits 10 number, c.isDigit = true :=
  fun _ hc => Nat.isDigit_of_mem_toDigits (by decide) (by decide) hc

/-- Behind its blanks a row starts with a digit. -/
theorem head?_toDigits_append {d : Char} (hd : d.isDigit = false) (number : Nat) (t : Text) :
    ∀ c ∈ (Nat.toDigits 10 number ++ t).head?, (c == d) = false := by
  obtain ⟨first, rest, h⟩ :=
    List.exists_cons_of_ne_nil (Nat.toDigits_ne_nil (n := number) (b := 10))
  have hfirst : first.isDigit = true := isDigit_toDigits number first (h ▸ List.mem_cons_self)
  rw [h]
  rintro _ ⟨⟩
  refine beq_eq_false_iff_ne.2 fun hsame => ?_
  rw [hsame, hd] at hfirst
  cases hfirst

/-- The number of a row can be read off, and so can what marks it and its line. -/
theorem numbered_inj {separator separator' : Char} {number number' : Nat} {line line' : Text}
    (h : numbered separator number line = numbered separator' number' line') :
    separator = separator' ∧ number = number' ∧ line = line' := by
  have hblanks : ∀ n, ∀ c ∈ List.replicate n ' ', (c == ' ') = true := fun n c hc =>
    beq_iff_eq.2 (List.eq_of_mem_replicate hc)
  have hstop : ∀ t : Text, ∀ c ∈ (' ' :: t).head?, c.isDigit = false := by
    rintro t _ ⟨⟩
    rfl
  simp only [numbered, List.append_assoc] at h
  obtain ⟨-, hrest⟩ := Text.append_inj_of_run (hblanks _) (hblanks _)
    (head?_toDigits_append rfl _ _) (head?_toDigits_append rfl _ _) h
  obtain ⟨hdigits, hrest⟩ := Text.append_inj_of_run (isDigit_toDigits _) (isDigit_toDigits _)
    (hstop _) (hstop _) hrest
  have hvalue : ∀ n, Nat.ofDigitChars 10 (Nat.toDigits 10 n) 0 = n := fun n =>
    Nat.ofDigitChars_toDigits (by decide) (by decide)
  obtain ⟨hseparator, hline⟩ := List.cons.inj (List.cons.inj hrest).2
  exact ⟨hseparator, by rw [← hvalue number, hdigits, hvalue], (List.cons.inj hline).2⟩

/-- A row does not start with a dash. -/
theorem numbered_ne_cons_dash (separator : Char) (number : Nat) (line t : Text) :
    numbered separator number line ≠ '-' :: t := by
  intro h
  simp only [numbered, List.append_assoc] at h
  cases hblanks : 4 - (Nat.toDigits 10 number).length with
  | zero =>
    have hhead := head?_toDigits_append (d := '-') rfl number ([' ', separator, ' '] ++ line)
    rw [hblanks, List.replicate_zero, List.nil_append] at h
    rw [h] at hhead
    cases hhead '-' rfl
  | succ n =>
    rw [hblanks] at h
    cases (List.cons.inj h).1

theorem lineFeed_not_mem_numbered {separator : Char} (hseparator : separator ≠ '\n') (number : Nat)
    {line : Text} (hline : '\n' ∉ line) : '\n' ∉ numbered separator number line := by
  have hdigits : '\n' ∉ Nat.toDigits 10 number := fun hmem =>
    absurd (isDigit_toDigits number _ hmem) (by decide)
  simp [numbered, hdigits, hline, hseparator.symm]

/-- A row about a line that is not marked. -/
def plainRow (line : Text × Nat) : Text := numbered '|' line.2 line.1

theorem numberedFrom_eq (number : Nat) (lines : List Text) :
    numberedFrom number lines = (lines.zipIdx number).map plainRow := by
  induction lines generalizing number with
  | nil => rfl
  | cons line lines ih => rw [numberedFrom, ih, List.zipIdx_cons, List.map_cons, plainRow]

/-- The lines of an excerpt, which starts at the first line or else behind the `earlier` ones. -/
theorem excerptLines_eq {earlier above below later : List Text} (line : Text)
    (habove : above.length = min 3 (earlier.length + above.length))
    (hbelow : below.length = min 3 (below.length + later.length)) :
    excerptLines (earlier ++ above ++ line :: (below ++ later)) (earlier.length + above.length) =
      numberedFrom (earlier.length + 1) above ++
        [numbered '>' (earlier.length + above.length + 1) line] ++
        numberedFrom (earlier.length + above.length + 2) below := by
  have hfirst : earlier.length + above.length - window = earlier.length := by
    rw [window]
    omega
  have hlength : (earlier ++ above).length = earlier.length + above.length := List.length_append
  have hbehind : (earlier ++ above ++ line :: (below ++ later)).drop
      (earlier.length + above.length + 1) = below ++ later := by
    rw [← hlength, List.drop_append]
    simp
  have htake : (below ++ later).take window = below := by
    cases later with
    | nil =>
      rw [List.append_nil, List.take_of_length_le]
      rw [hbelow]
      exact Nat.min_le_left _ _
    | cons first later =>
      rw [List.length_cons] at hbelow
      exact List.take_left' (by rw [window]; omega)
  have hline : (earlier ++ above ++ line :: (below ++ later))[earlier.length + above.length]? =
      some line := by
    rw [← hlength, List.getElem?_append_right (Nat.le_refl _), Nat.sub_self]
    rfl
  have hshown : ((earlier ++ above ++ line :: (below ++ later)).drop earlier.length).take
      above.length = above := by
    rw [List.append_assoc, List.drop_left, List.take_left]
  rw [excerptLines, hfirst, Nat.add_sub_cancel_left, hshown, hline, Option.getD_some, hbehind,
    htake]

/-! ## Windows -/

/-- The lines of a source around the one with a given number, each with its own. -/
structure Window (source : Text) (number : Nat) where
  /-- The lines before those that are shown. -/
  earlier : List (Text × Nat)
  /-- The lines shown before the marked one. -/
  above : List (Text × Nat)
  /-- The marked line. -/
  line : Text
  /-- The lines shown behind the marked one. -/
  below : List (Text × Nat)
  /-- The lines behind those that are shown. -/
  later : List (Text × Nat)
  /-- All of these are the lines of the source, numbered from one on. -/
  lines_eq : (Text.lines source).zipIdx 1 = earlier ++ above ++ (line, number) :: (below ++ later)
  length_above : above.length = min 3 (number - 1)
  length_below : below.length = min 3 ((Text.lines source).length - number)

namespace Window

variable {source : Text} {number : Nat}

/-- The window around a line. -/
def around (hpos : 0 < number) (hle : number ≤ (Text.lines source).length) :
    Window source number where
  earlier := (((Text.lines source).zipIdx 1).take (number - 1)).take (number - 1 - 3)
  above := (((Text.lines source).zipIdx 1).take (number - 1)).drop (number - 1 - 3)
  line := (Text.lines source)[number - 1]
  below := (((Text.lines source).zipIdx 1).drop number).take 3
  later := (((Text.lines source).zipIdx 1).drop number).drop 3
  lines_eq := by
    have hlt : number - 1 < ((Text.lines source).zipIdx 1).length := by
      rw [List.length_zipIdx]
      omega
    have hline : ((Text.lines source).zipIdx 1)[number - 1] =
        ((Text.lines source)[number - 1], number) := by
      rw [List.getElem_zipIdx, Nat.add_sub_cancel' hpos]
    rw [List.take_append_drop, List.take_append_drop, ← hline]
    conv_rhs => enter [2, 2]; rw [← Nat.sub_add_cancel hpos]
    rw [List.getElem_cons_drop, List.take_append_drop]
  length_above := by
    simp only [List.length_drop, List.length_take, List.length_zipIdx]
    omega
  length_below := by
    simp only [List.length_drop, List.length_take, List.length_zipIdx]

/-- The rows of an excerpt: the lines of the window between two rules. -/
def rows (w : Window source number) : List Text :=
  [List.replicate 28 '-' ++ " Template Source ".toList ++ List.replicate 29 '-'] ++
    (w.above.map plainRow ++ [numbered '>' number w.line] ++ w.below.map plainRow) ++
    [List.replicate 74 '-']

/-- **An excerpt shows the window around its line.** -/
theorem excerpt_eq (w : Window source number) :
    excerpt source number = w.rows.flatMap ('\n' :: ·) := by
  -- The pieces of the numbered lines are pieces of the lines, numbered from where they start.
  obtain ⟨before, rest, hlines, hbefore, hrest⟩ := List.zipIdx_eq_append_iff.1 w.lines_eq
  obtain ⟨earlier, above, rfl, -, habove⟩ := List.zipIdx_eq_append_iff.1 hbefore.symm
  obtain ⟨line, rest, rfl, hline, hrest⟩ := List.zipIdx_eq_cons_iff.1 hrest.symm
  obtain ⟨below, later, rfl, hbelow, -⟩ := List.zipIdx_eq_append_iff.1 hrest.symm
  obtain ⟨hline, hnumber⟩ := Prod.mk.inj hline
  rw [List.length_append] at hnumber
  rw [List.length_append, ← hnumber] at hbelow
  have hlength : (Text.lines source).length = number + (below.length + later.length) := by
    rw [hlines]
    simp only [List.length_append, List.length_cons]
    omega
  have habove' : above.length = min 3 (earlier.length + above.length) := by
    have h := w.length_above
    rw [habove, List.length_zipIdx] at h
    omega
  have hbelow' : below.length = min 3 (below.length + later.length) := by
    have h := w.length_below
    rw [hlength, hbelow, List.length_zipIdx] at h
    omega
  have hindex : min (number - 1) ((Text.lines source).length - 1) =
      earlier.length + above.length := by omega
  have hne : Text.lines source ≠ [] := by
    rw [hlines]
    simp
  have hnumber' : number = earlier.length + above.length + 1 := by omega
  rw [excerpt]
  dsimp only
  rw [if_neg hne, hindex, hlines, excerptLines_eq _ habove' hbelow', rows, habove, hbelow, hline,
    numberedFrom_eq, numberedFrom_eq, hnumber', Nat.add_comm 1]
  rfl

/-- The rows of an excerpt are the rules, the marked one and those that are not marked. -/
theorem mem_rows {w : Window source number} {row : Text} (h : row ∈ w.rows) :
    row = numbered '>' number w.line ∨ (∃ line, row = plainRow line) ∨ ∃ t, row = '-' :: t := by
  rw [rows, List.mem_append, List.mem_append, List.mem_append, List.mem_append] at h
  rcases h with (hrule | (habove | hmarked) | hbelow) | hrule
  · exact .inr (.inr ⟨_, List.mem_singleton.1 hrule⟩)
  · obtain ⟨line, -, rfl⟩ := List.mem_map.1 habove
    exact .inr (.inl ⟨line, rfl⟩)
  · exact .inl (List.mem_singleton.1 hmarked)
  · obtain ⟨line, -, rfl⟩ := List.mem_map.1 hbelow
    exact .inr (.inl ⟨line, rfl⟩)
  · exact .inr (.inr ⟨_, List.mem_singleton.1 hrule⟩)

/-- The row of a line is marked in no other place. -/
theorem eq_of_marked {w : Window source number} {n : Nat} {line : Text}
    (h : numbered '>' n line ∈ w.rows) : n = number ∧ line = w.line := by
  obtain hmarked | ⟨other, hplain⟩ | ⟨t, hrule⟩ := mem_rows h
  · exact (numbered_inj hmarked).2
  · exact absurd (numbered_inj hplain).1 (by decide)
  · exact absurd hrule (numbered_ne_cons_dash _ _ _ _)

/-- Each row is a line of its own. -/
theorem lineFeed_not_mem_rows (w : Window source number) : ∀ row ∈ w.rows, '\n' ∉ row := by
  have hlines : ∀ p ∈ w.earlier ++ w.above ++ (w.line, number) :: (w.below ++ w.later),
      '\n' ∉ p.1 := by
    rw [← w.lines_eq]
    exact fun p hp => Text.lineFeed_not_mem_lines source _ (List.fst_mem_of_mem_zipIdx hp)
  simp only [List.forall_mem_append, List.forall_mem_cons] at hlines
  obtain ⟨⟨-, habove⟩, hline, hbelow, -⟩ := hlines
  have hplain : ∀ lines : List (Text × Nat), (∀ p ∈ lines, '\n' ∉ p.1) →
      ∀ row ∈ lines.map plainRow, '\n' ∉ row := fun lines h row hrow => by
    obtain ⟨p, hp, rfl⟩ := List.mem_map.1 hrow
    exact lineFeed_not_mem_numbered (by decide) _ (h p hp)
  simp only [rows, List.forall_mem_append, List.forall_mem_singleton]
  refine ⟨⟨by decide, ⟨hplain _ habove, ?_⟩, hplain _ hbelow⟩, by decide⟩
  exact lineFeed_not_mem_numbered (by decide) _ hline

/-- One row is marked, which is the one in the middle. -/
theorem count_rows (w : Window source number) :
    w.rows.count (numbered '>' number w.line) = 1 := by
  have hplain : ∀ lines : List (Text × Nat),
      (lines.map plainRow).count (numbered '>' number w.line) = 0 := by
    intro lines
    refine List.count_eq_zero.2 fun hmem => ?_
    obtain ⟨line, -, hline⟩ := List.mem_map.1 hmem
    exact absurd (numbered_inj hline).1 (by decide)
  have hrule : ∀ rule : Text, rule.head? = some '-' →
      [rule].count (numbered '>' number w.line) = 0 := by
    intro rule hdash
    refine List.count_eq_zero.2 fun hmem => ?_
    obtain ⟨t, rfl⟩ := List.head?_eq_some_iff.1 hdash
    exact numbered_ne_cons_dash _ _ _ _ (List.mem_singleton.1 hmem)
  rw [rows, List.count_append, List.count_append, List.count_append, List.count_append, hplain,
    hplain, List.count_singleton_self, hrule _ rfl, hrule _ rfl]

end Window

/-- An error without a line is reported by its message alone. -/
theorem report_of_line_eq_none {e : Error} (h : e.line = none) : e.report = e.message := by
  rw [report, h]

theorem line_eq_some_iff {e : Error} {number : Nat} :
    e.line = some number ↔ 0 < number ∧ e.lineNumber = number := by
  rw [line]
  split <;> simp <;> omega

/-- Behind its message, the report of an error shows the window around a line of the source, and
marks the line. -/
structure Marks (e : Error) (source : Text) (number : Nat) (line : Text) : Prop where
  pos : 0 < number
  /-- There is a line of this number, so none has to be taken in its place. -/
  le_length : number ≤ (Text.lines source).length
  shown : ∃ w : Window source number, w.line = line ∧
    e.report = e.message ++ w.rows.flatMap ('\n' :: ·) ∧ (∀ row ∈ w.rows, '\n' ∉ row) ∧
    w.rows.count (numbered '>' number line) = 1 ∧
    ∀ n other, numbered '>' n other ∈ w.rows → n = number ∧ other = line

/-- An error with a number marks the line of this number, if there is one. -/
theorem marks_of_le_length {e : Error} {source : Text} {number : Nat} (hline : e.line = some number)
    (hsource : e.source = some source) (hle : number ≤ (Text.lines source).length) :
    e.Marks source number ((Text.lines source)[number - 1]?.getD []) where
  pos := (line_eq_some_iff.1 hline).1
  le_length := hle
  shown := by
    have hpos := (line_eq_some_iff.1 hline).1
    let w : Window source number := .around hpos hle
    have hw : w.line = (Text.lines source)[number - 1]?.getD [] := by
      rw [List.getElem?_eq_getElem (by omega)]
      rfl
    rw [← hw]
    refine ⟨w, rfl, ?_, w.lineFeed_not_mem_rows, w.count_rows, fun n line => w.eq_of_marked⟩
    rw [← w.excerpt_eq, report, hline, hsource]

end Error

namespace Template

/-- A tag is the first one of a template that closes a branch where none is open, and its begin
marker starts on the given line, behind those in front of it. -/
structure ClosesFirst (t : Template) (body : Text) (front : List Text) (line : Text) : Prop where
  /-- The line and those in front of it are lines of the source, with what ends them. -/
  lines : ∃ back, Text.fullLines t.source = front ++ line :: back
  unmatched : ∃ before span after,
    Segment.scan t.markers t.source = before ++ (.tag body, span) :: after ∧
    Segment.branches? before = some 0 ∧ (Segment.tag body).kind.closes = true ∧
    ∃ column rest, column < line.length ∧
      Segment.writeAll t.markers (before.map Prod.fst) = front.flatten ++ line.take column ∧
      t.source = front.flatten ++ line.take column ++
        (t.markers.opening ++ body ++ t.markers.closing ++ rest)

/-- An error about the document of a template is about a tag, and its number is that of the line of
the tag. -/
theorem exists_closesFirst {t : Template} {e : Error} (h : t.build.result = .error e) :
    ∃ body front line, t.ClosesFirst body front line ∧ e.cause = .unmatchedClose (Text.trim body) ∧
      e.source = some t.source ∧ e.lineNumber = (front.length + 1) % Nat.pow 2 32 := by
  obtain ⟨body, span, ⟨before, after, hscan, hbefore, hcloses⟩, rfl⟩ := exists_of_build_error h
  obtain ⟨rest, hrest⟩ := Segment.isPrefix_writeAll_front hscan
  have hsource : t.source = Segment.writeAll t.markers (before.map Prod.fst) ++
      (t.markers.opening ++ body ++ t.markers.closing ++ rest) := by
    rw [← hrest, Segment.write, List.append_assoc]
  -- The begin marker has a first character, which stands in some line.
  obtain ⟨c, opening, hopening⟩ := List.exists_cons_of_ne_nil t.markers.opening_ne_nil
  obtain ⟨front, line, back, column, hfull, hfront, hcolumn, hlead⟩ :=
    Text.exists_fullLines_at (Segment.writeAll t.markers (before.map Prod.fst)) c
      (opening ++ body ++ t.markers.closing ++ rest)
  have hlines : Text.fullLines t.source = front ++ line :: back := by
    rw [hsource, hopening, ← hfull]
    rfl
  refine ⟨body, front, line, ⟨⟨back, hlines⟩, before, span, after, hscan, hbefore, hcloses, column,
    rest, hcolumn, hlead, ?_⟩, rfl, rfl, ?_⟩
  · rw [← hlead]
    exact hsource
  · show span.start.line.toNat = _
    rw [Segment.span_of_scan hscan, hfront, Nat.add_comm]
    exact Position.toNat_line_behind _

/-- **The report about a template without a document shows the line of the error.**  The error is
about the first tag that closes a branch where none is open, and its number is that of the line on
which the begin marker of this tag starts, as a number of thirty-two bits.  An error whose number is
zero has no line, and its report is its message.  Otherwise the number is that of a line of the
source, and behind the message the report shows the line with its number, marked and nowhere else
marked, between the lines directly before and behind it, at most three each, all of them in their
order and with their own numbers.  It is the line of the tag if thirty-two bits are enough. -/
theorem report_of_build_error {t : Template} {e : Error} (h : t.build.result = .error e) :
    ∃ body front line, t.ClosesFirst body front line ∧ e.cause = .unmatchedClose (Text.trim body) ∧
      e.lineNumber = (front.length + 1) % Nat.pow 2 32 ∧ (e.line = none → e.report = e.message) ∧
      ∀ number, e.line = some number → ∃ marked, e.Marks t.source number marked ∧
        (front.length + 1 < Nat.pow 2 32 → number = front.length + 1 ∧
          marked = Text.chomp line) := by
  obtain ⟨body, front, line, hfirst, hcause, hsource, hnumber⟩ := exists_closesFirst h
  refine ⟨body, front, line, hfirst, hcause, hnumber, Error.report_of_line_eq_none, ?_⟩
  intro number hline
  obtain ⟨back, hlines⟩ := hfirst.lines
  have hlines : Text.lines t.source =
      front.map Text.chomp ++ Text.chomp line :: back.map Text.chomp := by
    rw [Text.lines_eq, hlines, List.map_append, List.map_cons]
  obtain ⟨-, rfl⟩ := Error.line_eq_some_iff.1 hline
  have hle : e.lineNumber ≤ (Text.lines t.source).length := by
    have hmod := Nat.mod_le (front.length + 1) (Nat.pow 2 32)
    rw [hlines, hnumber]
    simp only [List.length_append, List.length_map, List.length_cons]
    omega
  refine ⟨_, Error.marks_of_le_length hline hsource hle, fun hsmall => ?_⟩
  rw [Nat.mod_eq_of_lt hsmall] at hnumber
  refine ⟨hnumber, ?_⟩
  rw [hnumber, hlines, Nat.add_sub_cancel, ← List.length_map (f := Text.chomp),
    List.getElem?_append_right (Nat.le_refl _), Nat.sub_self]
  rfl

/-- What is found out about the error of a template is known of the error. -/
theorem exists_build_error {t : Template} {p : Error → Bool}
    (h : (match t.build.result with | .ok _ => false | .error e => p e) = true) :
    ∃ e, t.build.result = .error e ∧ p e = true := by
  cases hbuild : t.build.result with
  | ok d =>
    rw [hbuild] at h
    cases h
  | error e =>
    rw [hbuild] at h
    exact ⟨e, rfl, h⟩

/-- A tag over two lines closes a branch too many.  It starts on the fifth of seven lines, the first
of which ends with a carriage return and the last one without a line feed. -/
theorem report_of_build_error_over_lines :
    ∃ e, (ofSource "a\r\nb\n\n{% if(x) %}\n{% end %}\x7b%\nend %\x7dc\nd".toList).build.result =
        .error e ∧ e.line = some 5 ∧ e.report = e.message ++
      [List.replicate 28 '-' ++ " Template Source ".toList ++ List.replicate 29 '-',
        "   2 | b".toList,
        "   3 | ".toList,
        "   4 | {% if(x) %}".toList,
        "   5 > {% end %}\x7b%".toList,
        "   6 | end %\x7dc".toList,
        "   7 | d".toList,
        List.replicate 74 '-'].flatMap ('\n' :: ·) := by
  obtain ⟨e, he, hfive⟩ := exists_build_error (p := fun e => e.line == some 5)
    (t := ofSource "a\r\nb\n\n{% if(x) %}\n{% end %}\x7b%\nend %\x7dc\nd".toList)
    (by decide +kernel)
  rw [beq_iff_eq] at hfive
  obtain ⟨_, _, _, -, -, -, -, hshown⟩ := report_of_build_error he
  obtain ⟨-, ⟨-, -, w, -, hreport, -⟩, -⟩ := hshown 5 hfive
  refine ⟨e, he, hfive, ?_⟩
  rw [hreport, ← w.excerpt_eq]
  exact congrArg (e.message ++ ·) (by decide +kernel)

/-! ## Reports that show something else -/

/-- A closing tag that no branch is open for leaves a template without a document. -/
theorem build_of_unmatched {t : Template} {body : Text} {span : Span}
    (h : Segment.Unmatched (Segment.scan t.markers t.source) body span) :
    t.build.result =
      .error { Builder.unmatched body span with name := t.name, source := some t.source } := by
  have hrun := Builder.run_start_eq_error_iff.2 ⟨body, span, h, rfl⟩
  have hread :
      (Document.read t.markers t.source).result = .error (Builder.unmatched body span) := by
    rw [Document.read, Traced.map, hrun]
    rfl
  rw [build]
  simp only [Traced.result_bind, hread]
  rfl

/-- Line feeds and a tag behind them. -/
theorem scan_lineFeeds_tag {n : Nat} (hn : 0 < n) :
    ∃ stop, Segment.scan .standard (List.replicate n '\n' ++ "{% end %}".toList) =
      [(.text (List.replicate n '\n'), ⟨.start, .behind (List.replicate n '\n')⟩),
        (.tag " end ".toList, ⟨.behind (List.replicate n '\n'), stop⟩)] := by
  have hne : List.replicate n '\n' ≠ [] := mt (List.replicate_eq_nil_iff _).1 (Nat.ne_of_gt hn)
  have hplain : ¬ Markers.standard.opening <:+: List.replicate n '\n' :=
    Segment.not_opening_isInfix_replicate (by decide) n
  have hstart : Text.FirstAt Markers.standard.opening (List.replicate n '\n' ++
      (Markers.standard.opening ++ (" end ".toList ++ Markers.standard.closing ++ [])))
      (List.replicate n '\n') := Text.firstAt_pair (by decide) hplain _
  have hend : Text.FirstAt Markers.standard.closing
      (" end ".toList ++ Markers.standard.closing ++ []) " end ".toList := by
    rw [List.append_assoc]
    exact Text.firstAt_pair (by decide) (by decide) []
  have htag : "{% end %}".toList =
      Markers.standard.opening ++ (" end ".toList ++ Markers.standard.closing ++ []) := by decide
  rw [htag, Segment.scan, Segment.scanFrom_text hne hstart, Segment.scanFrom_tag hend,
    Segment.scanFrom_nil, Position.start_after]
  exact ⟨_, rfl⟩

/-- The error about a closing tag behind line feeds. -/
theorem exists_build_error_lineFeeds {n : Nat} (hn : 0 < n) :
    ∃ e, (ofSource (List.replicate n '\n' ++ "{% end %}".toList)).build.result = .error e ∧
      e.lineNumber = (1 + n) % Nat.pow 2 32 := by
  obtain ⟨stop, hscan⟩ := scan_lineFeeds_tag hn
  have hunmatched : Segment.Unmatched (Segment.scan .standard
      (List.replicate n '\n' ++ "{% end %}".toList)) " end ".toList
      ⟨.behind (List.replicate n '\n'), stop⟩ :=
    ⟨[_], [], hscan, rfl, by decide⟩
  refine ⟨_, build_of_unmatched hunmatched, ?_⟩
  show (Position.behind _).line.toNat = _
  rw [Position.toNat_line_behind, List.count_replicate_self]

/-- A tag of three lines, the second of which looks like the marked row about the first: the message
quotes the tag, so the report shows the row twice.  And behind `2 ^ 32 - 1` line feeds an error has
no line and no excerpt, behind one line feed more it has the first line. -/
theorem exists_report_not_marking :
    (∃ e, (ofSource "\x7b% end\n   1 > \x7b% end\nx %\x7d".toList).build.result = .error e ∧
      e.line = some 1 ∧
      (Text.lines e.report).count (Error.numbered '>' 1 "\x7b% end".toList) = 2) ∧
    (∃ e, (ofSource (List.replicate (Nat.pow 2 32 - 1) '\n' ++ "{% end %}".toList)).build.result =
        .error e ∧ e.line = none ∧ e.report = e.message) ∧
    ∃ e, (ofSource (List.replicate (Nat.pow 2 32) '\n' ++ "{% end %}".toList)).build.result =
      .error e ∧ e.line = some 1 := by
  refine ⟨?_, ?_, ?_⟩
  · obtain ⟨e, he, htwice⟩ := exists_build_error
      (p := fun e => e.line == some 1 &&
        (Text.lines e.report).count (Error.numbered '>' 1 "\x7b% end".toList) == 2)
      (t := ofSource "\x7b% end\n   1 > \x7b% end\nx %\x7d".toList) (by decide +kernel)
    rw [Bool.and_eq_true, beq_iff_eq, beq_iff_eq] at htwice
    exact ⟨e, he, htwice⟩
  · obtain ⟨e, he, hnumber⟩ := exists_build_error_lineFeeds (n := Nat.pow 2 32 - 1) (by decide)
    have hline : e.line = none := by
      rw [Error.line, hnumber]
      rfl
    exact ⟨e, he, hline, Error.report_of_line_eq_none hline⟩
  · obtain ⟨e, he, hnumber⟩ := exists_build_error_lineFeeds (n := Nat.pow 2 32) (by decide)
    exact ⟨e, he, Error.line_eq_some_iff.2 ⟨by decide, hnumber⟩⟩

end Template

end Stencil
