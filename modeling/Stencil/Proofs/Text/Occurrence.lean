import Mathlib.Tactic.Common
import Stencil.Text.Basic

/-!
# Occurrences of a pattern

`Text.splitAt?` walks over a text from the left and stops where it finds the pattern.  Said without
the walk: it returns what stands around the leftmost occurrence (`splitAt?_eq_some_iff`), and
nothing exactly if there is no occurrence at all (`splitAt?_eq_none_iff`).

## Main Definitions

* `Text.FirstAt` — a pattern occurs for the first time behind a given start of a text
-/

namespace Stencil.Text

/-- A pattern occurs in a text right behind the start `before`, and nowhere further to the left. -/
structure FirstAt (pattern t before : Text) : Prop where
  occurs : before ++ pattern <+: t
  leftmost : ∀ b, b ++ pattern <+: t → before.length ≤ b.length

variable {pattern t before after : Text}

theorem dropStart?_eq_none_iff {start : Text} : dropStart? start t = none ↔ ¬ start <+: t := by
  rw [Option.eq_none_iff_forall_ne_some]
  constructor
  · rintro h ⟨rest, rfl⟩
    exact h rest (dropStart?_eq_some_iff.2 rfl)
  · intro h rest hrest
    exact h ⟨rest, (dropStart?_eq_some_iff.1 hrest).symm⟩

/-- A pattern at the start of a text occurs for the first time there. -/
theorem firstAt_nil (h : pattern <+: t) : FirstAt pattern t [] where
  occurs := h
  leftmost := by
    intro b _
    exact Nat.zero_le _

/-- A pattern that is not at the start of a text has its first occurrence behind the first
character. -/
theorem firstAt_cons {c : Char} (hstart : ¬ pattern <+: c :: t) (h : FirstAt pattern t before) :
    FirstAt pattern (c :: t) (c :: before) where
  occurs := List.cons_prefix_cons.2 ⟨rfl, h.occurs⟩
  leftmost := by
    intro b hb
    cases b with
    | nil => exact absurd hb hstart
    | cons d b =>
      have hle := h.leftmost b (List.cons_prefix_cons.1 hb).2
      simpa using hle

/-- There is only one leftmost occurrence. -/
theorem FirstAt.unique {before' : Text} (h : FirstAt pattern t before)
    (h' : FirstAt pattern t before') : before = before' := by
  have hlength := Nat.le_antisymm (h.leftmost _ h'.occurs) (h'.leftmost _ h.occurs)
  have hstarts : before <+: before' := List.prefix_of_prefix_length_le
    ((List.prefix_append _ _).trans h.occurs) ((List.prefix_append _ _).trans h'.occurs)
    (Nat.le_of_eq hlength)
  exact hstarts.eq_of_length hlength

/-- Whatever comes behind a text, the leftmost occurrence in it stays the leftmost one. -/
theorem FirstAt.append (h : FirstAt pattern t before) (more : Text) :
    FirstAt pattern (t ++ more) before where
  occurs := h.occurs.trans (List.prefix_append _ _)
  leftmost := by
    intro b hb
    by_contra hlt
    have hlength : (b ++ pattern).length ≤ t.length := by
      have hle := h.occurs.length_le
      rw [List.length_append] at hle ⊢
      omega
    exact hlt (h.leftmost b (List.prefix_of_prefix_length_le hb (List.prefix_append _ _) hlength))

/-- Two different characters behind a text in which they do not stand next to each other: that is
where they occur for the first time, since the first of them cannot be the second as well. -/
theorem firstAt_pair {a b : Char} (hne : a ≠ b) (h : ¬ [a, b] <:+: t) (more : Text) :
    FirstAt [a, b] (t ++ ([a, b] ++ more)) t := by
  induction t with
  | nil => exact firstAt_nil (List.prefix_append _ _)
  | cons c t ih =>
    rw [List.infix_cons_iff, not_or] at h
    refine firstAt_cons ?_ (ih h.2)
    intro hstart
    obtain ⟨rfl, hnext⟩ := List.cons_prefix_cons.1 hstart
    cases t with
    | nil => exact hne (List.cons_prefix_cons.1 hnext).1.symm
    | cons d t =>
      obtain ⟨rfl, -⟩ := List.cons_prefix_cons.1 hnext
      exact h.1 (List.cons_prefix_cons.2 ⟨rfl, List.cons_prefix_cons.2 ⟨rfl, List.nil_prefix⟩⟩)

/-- What is split off is the start up to the leftmost occurrence. -/
theorem firstAt_of_splitAt? (h : splitAt? pattern t = some (before, after)) :
    FirstAt pattern t before := by
  induction t generalizing before with
  | nil =>
    have heq := eq_of_splitAt? h
    obtain rfl : before = [] := by
      cases before with
      | nil => rfl
      | cons c before => cases heq
    exact firstAt_nil ⟨after, heq.symm⟩
  | cons c t ih =>
    unfold splitAt? at h
    split at h
    · next rest hdrop =>
      obtain ⟨rfl, rfl⟩ := Prod.mk.inj (Option.some.inj h)
      exact firstAt_nil ⟨rest, (dropStart?_eq_some_iff.1 hdrop).symm⟩
    · next hdrop =>
      obtain ⟨⟨b, a⟩, hsplit, he⟩ := Option.map_eq_some_iff.1 h
      obtain ⟨rfl, rfl⟩ := Prod.mk.inj he
      exact firstAt_cons (dropStart?_eq_none_iff.1 hdrop) (ih hsplit)

/-- **A text does not split exactly if the pattern does not occur.** -/
theorem splitAt?_eq_none_iff : splitAt? pattern t = none ↔ ¬ pattern <:+: t := by
  induction t with
  | nil =>
    rw [splitAt?]
    cases pattern with
    | nil => simp [dropStart?]
    | cons c pattern => simp [dropStart?]
  | cons c t ih =>
    rw [List.infix_cons_iff, not_or]
    unfold splitAt?
    split
    · next rest hdrop =>
      have hstarts : pattern <+: c :: t := ⟨rest, (dropStart?_eq_some_iff.1 hdrop).symm⟩
      simp [hstarts]
    · next hdrop => rw [Option.map_eq_none_iff, ih, and_iff_right (dropStart?_eq_none_iff.1 hdrop)]

/-- **A text splits at an occurrence of the pattern exactly if it is the leftmost one.** -/
theorem splitAt?_eq_some_iff :
    splitAt? pattern t = some (before, after) ↔
      t = before ++ pattern ++ after ∧ FirstAt pattern t before := by
  constructor
  · intro h
    exact ⟨eq_of_splitAt? h, firstAt_of_splitAt? h⟩
  · rintro ⟨ht, hfirst⟩
    cases hsplit : splitAt? pattern t with
    | none => exact absurd ⟨before, after, ht.symm⟩ (splitAt?_eq_none_iff.1 hsplit)
    | some parts =>
      obtain ⟨before', after'⟩ := parts
      obtain rfl := (firstAt_of_splitAt? hsplit).unique hfirst
      rw [List.append_cancel_left ((eq_of_splitAt? hsplit).symm.trans ht)]

end Stencil.Text
