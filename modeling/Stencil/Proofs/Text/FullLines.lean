import Mathlib.Data.List.Basic
import Stencil.Text.Basic

/-!
# Lines with their ends

The lines of a text do not hold what separates them, so they say nothing of places in the text: a
line feed is no part of the line that it ends.  With their ends left on them lines tile the text
(`flatten_fullLines`), and every place of the text lies in one of them, which is known by the line
feeds in front of the place (`exists_fullLines_at`).

A text that is put together from lines without line feeds has these lines
(`lines_flatMap_lineFeed`).

## Main Definitions

* `Text.fullLines` — the lines of a text, each with the line feed that ends it
* `Text.chomp` — a line without its end
-/

namespace Stencil.Text

/-- The lines of a text, each with the line feed that ends it; the last one may end without. -/
def fullLines : Text → List Text
  | [] => []
  | c :: t =>
    if c = '\n' then [c] :: fullLines t
    else
      match fullLines t with
      | [] => [[c]]
      | line :: rest => (c :: line) :: rest

/-- A line without the line feed at its end, and without a carriage return in front of it. -/
def chomp (line : Text) : Text :=
  match line.reverse with
  | '\n' :: '\r' :: front => front.reverse
  | '\n' :: front => front.reverse
  | _ => line

theorem flatten_fullLines (t : Text) : (fullLines t).flatten = t := by
  induction t with
  | nil => rfl
  | cons c t ih =>
    rw [fullLines]
    split
    · rw [List.flatten_cons, ih, List.singleton_append]
    · split
      · next h =>
        rw [h] at ih
        rw [← ih]
        rfl
      · next line rest h =>
        rw [h] at ih
        rw [← ih]
        rfl

/-- A line ends with its line feed. -/
theorem fullLines_append_lineFeed {line : Text} (h : '\n' ∉ line) (t : Text) :
    fullLines (line ++ '\n' :: t) = (line ++ ['\n']) :: fullLines t := by
  induction line with
  | nil => rfl
  | cons c line ih =>
    rw [List.mem_cons, not_or] at h
    rw [List.cons_append, fullLines, if_neg (Ne.symm h.1), ih h.2, List.cons_append]

/-- A text without a line feed is one line. -/
theorem fullLines_of_not_mem {line : Text} (h : '\n' ∉ line) (hne : line ≠ []) :
    fullLines line = [line] := by
  induction line with
  | nil => exact absurd rfl hne
  | cons c line ih =>
    rw [List.mem_cons, not_or] at h
    rw [fullLines, if_neg (Ne.symm h.1)]
    cases line with
    | nil => rfl
    | cons d line => rw [ih h.2 (List.cons_ne_nil _ _)]

theorem chomp_append_lineFeed (line : Text) :
    chomp (line ++ ['\n']) = linesFrom.endLine line.reverse := by
  rw [chomp, List.reverse_append]
  rcases List.eq_nil_or_concat' line with rfl | ⟨front, c, rfl⟩
  · rfl
  · by_cases hc : c = '\r'
    · subst hc
      simp [linesFrom.endLine]
    · simp [linesFrom.endLine, hc]

theorem chomp_of_not_mem {line : Text} (h : '\n' ∉ line) : chomp line = line := by
  rcases List.eq_nil_or_concat' line with rfl | ⟨front, c, rfl⟩
  · rfl
  · have hc : c ≠ '\n' := fun hc => h (by simp [hc])
    simp [chomp, hc]

/-- The lines behind a line that has been read up to some place. -/
theorem linesFrom_eq {line : Text} (h : '\n' ∉ line) (t : Text) :
    linesFrom line t = (fullLines (line.reverse ++ t)).map chomp := by
  have hreverse : '\n' ∉ line.reverse := by simpa using h
  induction t generalizing line with
  | nil =>
    rw [linesFrom, List.append_nil]
    split
    · next hline => rw [hline]; rfl
    · next hline =>
      rw [fullLines_of_not_mem hreverse (by simpa using hline), List.map_singleton,
        chomp_of_not_mem hreverse]
  | cons c t ih =>
    by_cases hc : c = '\n'
    · subst hc
      rw [fullLines_append_lineFeed hreverse, List.map_cons, chomp_append_lineFeed,
        List.reverse_reverse, linesFrom, ih List.not_mem_nil List.not_mem_nil]
      rfl
    · have hline : '\n' ∉ c :: line := by
        rw [List.mem_cons, not_or]
        exact ⟨Ne.symm hc, h⟩
      rw [linesFrom, ih hline (by rwa [List.mem_reverse]), List.reverse_cons, List.append_assoc,
        List.singleton_append]
      exact hc

/-- **The lines of a text are its lines with their ends, without the ends.** -/
theorem lines_eq (t : Text) : lines t = (fullLines t).map chomp := linesFrom_eq List.not_mem_nil t

theorem lineFeed_not_mem_endLine {line : Text} (h : '\n' ∉ line) :
    '\n' ∉ linesFrom.endLine line := by
  fun_cases linesFrom.endLine line with
  | case1 line => simpa using h
  | case2 line _ => simpa using h

theorem lineFeed_not_mem_linesFrom {line : Text} (h : '\n' ∉ line) (t : Text) :
    ∀ l ∈ linesFrom line t, '\n' ∉ l := by
  fun_induction linesFrom line t with
  | case1 => nofun
  | case2 line _ => simpa using h
  | case3 line t ih =>
    exact List.forall_mem_cons.2 ⟨lineFeed_not_mem_endLine h, ih List.not_mem_nil⟩
  | case4 line c t hc ih =>
    refine ih ?_
    rw [List.mem_cons, not_or]
    exact ⟨fun hfeed => hc hfeed.symm, h⟩

/-- A line does not hold a line feed. -/
theorem lineFeed_not_mem_lines (t : Text) : ∀ line ∈ lines t, '\n' ∉ line :=
  lineFeed_not_mem_linesFrom List.not_mem_nil t

/-- **A place of a text lies in the line that the line feeds in front of it count up to.** -/
theorem exists_fullLines_at (before : Text) (c : Char) (after : Text) :
    ∃ front line back column, fullLines (before ++ c :: after) = front ++ line :: back ∧
      front.length = before.count '\n' ∧ column < line.length ∧
      before = front.flatten ++ line.take column := by
  induction before with
  | nil =>
    rw [List.nil_append, fullLines]
    split
    · exact ⟨[], [c], _, 0, rfl, rfl, Nat.one_pos, rfl⟩
    · split
      · exact ⟨[], [c], _, 0, rfl, rfl, Nat.one_pos, rfl⟩
      · next line rest _ => exact ⟨[], c :: line, rest, 0, rfl, rfl, Nat.succ_pos _, rfl⟩
  | cons b before ih =>
    obtain ⟨front, line, back, column, hlines, hfront, hcolumn, hbefore⟩ := ih
    rw [List.cons_append, fullLines, hlines]
    by_cases hb : b = '\n'
    · refine ⟨[b] :: front, line, back, column, if_pos hb, ?_, hcolumn, ?_⟩
      · rw [List.length_cons, hfront, hb, List.count_cons_self]
      · rw [List.flatten_cons, List.append_assoc, ← hbefore, List.singleton_append]
    · -- The character joins the first of the lines behind it, which may be the line of the place.
      rw [if_neg hb]
      cases front with
      | nil =>
        refine ⟨[], b :: line, back, column + 1, rfl, ?_, Nat.succ_lt_succ hcolumn, ?_⟩
        · rw [List.count_cons_of_ne hb, ← hfront]
        · rw [List.flatten_nil, List.nil_append, List.take_succ_cons]
          exact congrArg (b :: ·) hbefore
      | cons first front =>
        refine ⟨(b :: first) :: front, line, back, column, rfl, ?_, hcolumn, ?_⟩
        · rw [List.count_cons_of_ne hb, ← hfront]
          rfl
        · rw [List.flatten_cons, List.cons_append, List.cons_append]
          exact congrArg (b :: ·) hbefore

/-- Lines with a line feed behind each of them are the lines of the text. -/
theorem lines_flatMap_lineFeed {ls : List Text} (hfeed : ∀ line ∈ ls, '\n' ∉ line)
    (hreturn : ∀ line ∈ ls, line.getLast? ≠ some '\r') :
    lines (ls.flatMap (· ++ ['\n'])) = ls := by
  induction ls with
  | nil => rfl
  | cons line ls ih =>
    rw [List.forall_mem_cons] at hfeed hreturn
    have hline : linesFrom.endLine line.reverse = line := by
      rw [List.getLast?_eq_head?_reverse] at hreturn
      rw [linesFrom.endLine.eq_2 _ (fun front h => hreturn.1 (by rw [h]; rfl)),
        List.reverse_reverse]
    rw [lines_eq] at ih ⊢
    rw [List.flatMap_cons, List.append_assoc, List.singleton_append,
      fullLines_append_lineFeed hfeed.1, List.map_cons, chomp_append_lineFeed, hline,
      ih hfeed.2 hreturn.2]

end Stencil.Text
