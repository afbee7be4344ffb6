import Mathlib.Data.List.Basic
import Mathlib.Data.List.TakeWhile
import Stencil.Document.Trimming

/-!
# First and last lines

Trimming takes the first line of a text away, or the last one, or both.  A text without a line end
is its own first and last line, and either cut leaves nothing of it; in every other text the first
line ends before the last one starts (`splitLines_cases`).  So the two cuts can be made in any
order, and as long as they only take white space, neither changes whether the other line is white
space.

## Main Definitions

* `Text.withoutLines` — a text with both cuts made at once
-/

namespace Stencil.Text

theorem splitLastLine_append (t : Text) : (splitLastLine t).1 ++ (splitLastLine t).2 = t := by
  rw [splitLastLine, ← List.reverse_append, List.takeWhile_append_dropWhile, List.reverse_reverse]

theorem splitFirstLine_append (t : Text) : (splitFirstLine t).1 ++ (splitFirstLine t).2 = t := by
  fun_induction splitFirstLine t with
  | case1 => rfl
  | case2 => rfl
  | case3 => rfl
  | case4 => rfl
  | case5 c t _ _ ih => exact congrArg (c :: ·) ih

/-! ## Where the lines are -/

/-- The last line is what comes after the last line end. -/
theorem splitLastLine_append_of {init last : Text} (hlast : ∀ c ∈ last, endsLine c = false)
    (hinit : ∀ c ∈ init.getLast?, endsLine c = true) :
    splitLastLine (init ++ last) = (init, last) := by
  have htake : ∀ c ∈ last.reverse, (!endsLine c) = true := fun c hc => by
    rw [hlast c (List.mem_reverse.1 hc), Bool.not_false]
  rw [splitLastLine, List.reverse_append, List.dropWhile_append_of_pos htake,
    List.takeWhile_append_of_pos htake]
  rcases List.eq_nil_or_concat' init with rfl | ⟨init, c, rfl⟩
  · simp
  · have hc : endsLine c = true := hinit c (by simp)
    simp [hc]

theorem endsLine_of_mem_lastLine {t : Text} {c : Char} (h : c ∈ (splitLastLine t).2) :
    endsLine c = false := by
  have hc := List.mem_takeWhile_imp (List.mem_reverse.1 h)
  rwa [Bool.not_eq_true'] at hc

theorem endsLine_getLast {t : Text} {c : Char} (h : c ∈ (splitLastLine t).1.getLast?) :
    endsLine c = true := by
  rw [splitLastLine, List.getLast?_reverse] at h
  have hc := List.head?_dropWhile_not (!endsLine ·) t.reverse
  rw [h] at hc
  simpa using hc

theorem splitFirstLine_cons_of {c : Char} (h : endsLine c = false) (t : Text) :
    splitFirstLine (c :: t) = (c :: (splitFirstLine t).1, (splitFirstLine t).2) := by
  rw [endsLine, Bool.or_eq_false_iff, beq_eq_false_iff_ne, beq_eq_false_iff_ne] at h
  exact (if_neg h.1).trans (if_neg h.2)

theorem splitFirstLine_carriageReturn {t : Text} (h : t.head? ≠ some '\n') :
    splitFirstLine ('\r' :: t) = (['\r'], t) := by
  cases t with
  | nil => rfl
  | cons c t =>
    have hc : c ≠ '\n' := fun hc => h (congrArg some hc)
    simp [splitFirstLine, hc]

/-- A text without a line end is its own first line. -/
theorem splitFirstLine_eq_self {t : Text} (h : ∀ c ∈ t, endsLine c = false) :
    splitFirstLine t = (t, []) := by
  induction t with
  | nil => rfl
  | cons c t ih =>
    obtain ⟨hc, ht⟩ := List.forall_mem_cons.1 h
    rw [splitFirstLine_cons_of hc, ih ht]

/-- The first line of a text that ends with a line end is a first line whatever comes behind it, a
line feed behind a carriage return apart. -/
theorem splitFirstLine_append_of {t u : Text} (hne : t ≠ [])
    (ht : ∀ c ∈ t.getLast?, endsLine c = true) (hu : u.head? ≠ some '\n') :
    splitFirstLine (t ++ u) = ((splitFirstLine t).1, (splitFirstLine t).2 ++ u) := by
  fun_induction splitFirstLine t with
  | case1 => exact absurd rfl hne
  | case2 => rfl
  | case3 => rfl
  | case4 t hfeed _ =>
    refine splitFirstLine_carriageReturn ?_
    cases t with
    | nil => exact hu
    | cons c t => exact fun hc => hfeed t (by rw [Option.some.inj hc])
  | case5 c t hfeed hreturn ih =>
    have hc : endsLine c = false := by simp [endsLine, hfeed, hreturn]
    have htail : t ≠ [] := by
      rintro rfl
      exact absurd (hc.symm.trans (ht c rfl)) Bool.false_ne_true
    have hlast : ∀ d ∈ t.getLast?, endsLine d = true := by
      intro d hd
      refine ht d ?_
      rw [List.getLast?_cons, Option.mem_def.1 hd]
      rfl
    rw [List.cons_append, splitFirstLine_cons_of hc, ih htail hlast]

/-- **The lines at the two ends of a text.**  Without a line end, the text is its first and its last
line; otherwise the last line starts behind the first one, and each stays what it is when the other
is taken away. -/
theorem splitLines_cases (t : Text) :
    splitFirstLine t = (t, []) ∧ splitLastLine t = ([], t) ∨
      ∃ first middle last, t = first ++ (middle ++ last) ∧
        splitFirstLine t = (first, middle ++ last) ∧
        splitLastLine t = (first ++ middle, last) ∧
        splitFirstLine (first ++ middle) = (first, middle) ∧
        splitLastLine (middle ++ last) = (middle, last) := by
  have hsplit := splitLastLine_append t
  have hinit : ∀ c ∈ (splitLastLine t).1.getLast?, endsLine c = true := fun c => endsLine_getLast
  have hlast : ∀ c ∈ (splitLastLine t).2, endsLine c = false := fun c => endsLine_of_mem_lastLine
  by_cases hne : (splitLastLine t).1 = []
  · rw [hne, List.nil_append] at hsplit
    rw [hsplit] at hlast
    exact .inl ⟨splitFirstLine_eq_self hlast, Prod.ext hne hsplit⟩
  · generalize splitLastLine t = p at hsplit hinit hlast hne
    obtain ⟨init, last⟩ := p
    obtain rfl := hsplit
    have hhead : last.head? ≠ some '\n' := fun h =>
      absurd (hlast _ (List.mem_of_mem_head? h)) (by decide)
    have hfirst := splitFirstLine_append init
    refine .inr ⟨(splitFirstLine init).1, (splitFirstLine init).2, last, ?_, ?_, ?_, ?_, ?_⟩
    · rw [← List.append_assoc, hfirst]
    · exact splitFirstLine_append_of hne hinit hhead
    · rw [hfirst]
    · rw [hfirst]
    · refine splitLastLine_append_of hlast fun c hc => hinit c ?_
      rw [← hfirst, List.getLast?_append, Option.mem_def.1 hc]
      rfl

/-! ## Both cuts -/

/-- A text without its first line, without its last line, or without both. -/
def withoutLines (first last : Bool) (t : Text) : Text :=
  (t.take (if last then (splitLastLine t).1.length else t.length)).drop
    (if first then (splitFirstLine t).1.length else 0)

@[simp] theorem withoutLines_false_false (t : Text) : withoutLines false false t = t := by
  simp [withoutLines]

theorem withoutLines_true_false (t : Text) : withoutLines true false t = (splitFirstLine t).2 := by
  have h : (splitFirstLine t).2 = ((splitFirstLine t).1 ++ (splitFirstLine t).2).drop
    (splitFirstLine t).1.length := List.drop_left.symm
  rw [h, splitFirstLine_append]
  simp [withoutLines]

theorem withoutLines_false_true (t : Text) : withoutLines false true t = (splitLastLine t).1 := by
  have h : (splitLastLine t).1 = ((splitLastLine t).1 ++ (splitLastLine t).2).take
    (splitLastLine t).1.length := List.take_left.symm
  rw [h, splitLastLine_append]
  simp [withoutLines]

/-- The last line can be cut when the first one is cut already. -/
theorem lastLine_withoutLines (first : Bool) (t : Text) :
    (splitLastLine (withoutLines first false t)).1 = withoutLines first true t := by
  cases first with
  | false => rw [withoutLines_false_false, withoutLines_false_true]
  | true =>
    rw [withoutLines_true_false]
    rcases splitLines_cases t with ⟨hfirst, hlast⟩ | ⟨a, b, c, rfl, hfirst, hlast, -, hlast'⟩
    · rw [withoutLines, hfirst, hlast]
      simp [splitLastLine]
    · rw [withoutLines, hfirst, hlast, hlast']
      simp [← List.append_assoc]

/-- The first line can be cut when the last one is cut already. -/
theorem firstLine_withoutLines (last : Bool) (t : Text) :
    (splitFirstLine (withoutLines false last t)).2 = withoutLines true last t := by
  cases last with
  | false => rw [withoutLines_false_false, withoutLines_true_false]
  | true =>
    rw [withoutLines_false_true]
    rcases splitLines_cases t with ⟨hfirst, hlast⟩ | ⟨a, b, c, rfl, hfirst, hlast, hfirst', -⟩
    · rw [withoutLines, hfirst, hlast]
      simp [splitFirstLine]
    · rw [withoutLines, hfirst, hlast, hfirst']
      simp [← List.append_assoc]

/-- Whether the last line is white space is not changed by a cut that takes white space in front of
it. -/
theorem allBlank_lastLine_withoutLines {first : Bool} {t : Text}
    (h : first = true → allBlank (splitFirstLine t).1 = true) :
    allBlank (splitLastLine (withoutLines first false t)).2 = allBlank (splitLastLine t).2 := by
  cases first with
  | false => rw [withoutLines_false_false]
  | true =>
    rw [withoutLines_true_false]
    rcases splitLines_cases t with ⟨hfirst, hlast⟩ | ⟨a, b, c, rfl, hfirst, hlast, -, hlast'⟩
    · have hblank := h rfl
      rw [hfirst] at hblank
      rw [hfirst, hlast, hblank]
      rfl
    · rw [hfirst, hlast, hlast']

/-- Whether the first line is white space is not changed by a cut that takes white space behind
it. -/
theorem allBlank_firstLine_withoutLines {last : Bool} {t : Text}
    (h : last = true → allBlank (splitLastLine t).2 = true) :
    allBlank (splitFirstLine (withoutLines false last t)).1 = allBlank (splitFirstLine t).1 := by
  cases last with
  | false => rw [withoutLines_false_false]
  | true =>
    rw [withoutLines_false_true]
    rcases splitLines_cases t with ⟨hfirst, hlast⟩ | ⟨a, b, c, rfl, hfirst, hlast, hfirst', -⟩
    · have hblank := h rfl
      rw [hlast] at hblank
      rw [hfirst, hlast, hblank]
      rfl
    · rw [hfirst, hlast, hfirst']

end Stencil.Text
