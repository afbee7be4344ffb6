import Mathlib.Data.List.Basic
import Stencil.Proofs.Text.CodeUnit
import Stencil.Proofs.Text.Trim
import Stencil.Text.Quoted

/-!
# Quoted texts can be read back

A quoted text stands on one line, whatever it holds, and no other text has the same quoted form.
What is written for one character is never the start of what is written for another one, so that a
quoted text falls apart in one way only (`Text.eq_of_quotedChar_append`): a backslash stands in
front of everything that is not written as itself, and a code point ends with a brace, which is no
digit.

## Main Definitions

* `Text.QuotedBy` — the three ways of writing a character between quotes
-/

namespace Stencil.Text

/-! ## Code points -/

/-- The digits of a number stand for it. -/
theorem hexValue?_toDigits (n : Nat) : hexValue? (Nat.toDigits 16 n) = some n := by
  have hdigit : ∀ k < 16, hexDigit? (Nat.digitChar k) = some k := fun k hk =>
    hexDigit?_eq_some_iff.2 ⟨hk, .inl rfl⟩
  induction n using Nat.strongRecOn with
  | _ n ih =>
    by_cases h : n < 16
    · rw [Nat.toDigits_of_lt_base h, hexValue?, List.foldlM_cons, hdigit n h]
      simp
    · have hdiv : n / 16 < n := by omega
      have hmod : n % 16 < 16 := Nat.mod_lt _ (by decide)
      have hfront := ih (n / 16) hdiv
      rw [hexValue?] at hfront
      rw [Nat.toDigits_of_base_le (by decide) (Nat.not_lt.1 h), hexValue?, List.foldlM_append,
        hfront, Option.bind_eq_bind, Option.bind_some, List.foldlM_cons, hdigit _ hmod]
      simp [Nat.div_add_mod]

/-- A number has no characters but digits. -/
theorem not_mem_toDigits {c : Char} (h : hexDigit? c = none) (n : Nat) :
    c ∉ Nat.toDigits 16 n := by
  intro hmem
  obtain ⟨value, hvalue⟩ :=
    (hexValue?_eq_some_iff.1 (hexValue?_toDigits n)).exists_digit c hmem
  rw [hexDigit?_eq_some_iff.2 hvalue] at h
  cases h

/-! ## Characters -/

/-- The characters that are written by a letter behind a backslash, each behind its letter. -/
def quoteLetters : List (Char × Char) :=
  [('0', '\x00'), ('t', '\t'), ('n', '\n'), ('r', '\r'), ('"', '"'), ('\\', '\\')]

/-- What may be written for a character between quotes. -/
inductive QuotedBy (c : Char) : Text → Prop
  /-- A letter behind a backslash. -/
  | letter (x : Char) (h : (x, c) ∈ quoteLetters) : QuotedBy c ['\\', x]
  /-- The code point behind a backslash. -/
  | code : QuotedBy c (['\\', 'u', '\x7b'] ++ Nat.toDigits 16 c.toNat ++ ['\x7d'])
  /-- The character itself, which ends neither the quoted text nor the line. -/
  | plain (hslash : c ≠ '\\') (hquote : c ≠ '"') (hfeed : c ≠ '\n') (hreturn : c ≠ '\r') :
    QuotedBy c [c]

theorem quotedBy_quotedChar (c : Char) : QuotedBy c (quotedChar c) := by
  fun_cases quotedChar c with
  | case1 h => exact .letter '0' (by rw [h]; decide)
  | case2 _ h => exact .letter 't' (by rw [h]; decide)
  | case3 _ _ h => exact .letter 'n' (by rw [h]; decide)
  | case4 _ _ _ h => exact .letter 'r' (by rw [h]; decide)
  | case5 _ _ _ _ h => exact .letter '"' (by rw [h]; decide)
  | case6 _ _ _ _ _ h => exact .letter '\\' (by rw [h]; decide)
  | case7 => exact .code
  | case8 _ _ hfeed hreturn hquote hslash => exact .plain hslash hquote hfeed hreturn

/-- What is written for a character holds no line end. -/
theorem QuotedBy.not_mem {c : Char} {q : Text} (h : QuotedBy c q) : '\n' ∉ q ∧ '\r' ∉ q := by
  cases h with
  | letter x h =>
    have hall : ∀ p ∈ quoteLetters, '\n' ∉ ['\\', p.1] ∧ '\r' ∉ ['\\', p.1] := by decide
    exact hall _ h
  | code =>
    have hfeed : '\n' ∉ Nat.toDigits 16 c.toNat := not_mem_toDigits (by decide) _
    have hreturn : '\r' ∉ Nat.toDigits 16 c.toNat := not_mem_toDigits (by decide) _
    simp [hfeed, hreturn]
  | plain _ _ hfeed hreturn => simp [hfeed.symm, hreturn.symm]

/-- What is written for a character does not start with a quote. -/
theorem QuotedBy.ne_quote {c : Char} {q : Text} (h : QuotedBy c q) (s t : Text) :
    q ++ s ≠ '"' :: t := by
  cases h with
  | letter x h => simp
  | code => simp
  | plain _ hquote _ _ => simp [hquote]

/-- The code point of a character ends at its brace. -/
theorem eq_of_toDigits_append {m n : Nat} {s t : Text}
    (h : Nat.toDigits 16 m ++ '\x7d' :: s = Nat.toDigits 16 n ++ '\x7d' :: t) : m = n ∧ s = t := by
  have hdigits : ∀ k, ∀ c ∈ Nat.toDigits 16 k, (c != '\x7d') = true := fun k c hc =>
    bne_iff_ne.2 fun hbrace => not_mem_toDigits (by decide) k (hbrace ▸ hc)
  have hbrace : ∀ t : Text, ∀ c ∈ ('\x7d' :: t).head?, (c != '\x7d') = false := by
    rintro t _ ⟨⟩
    rfl
  obtain ⟨hsame, hrest⟩ :=
    append_inj_of_run (hdigits m) (hdigits n) (hbrace s) (hbrace t) h
  have hvalue := hexValue?_toDigits m
  rw [hsame, hexValue?_toDigits] at hvalue
  exact ⟨(Option.some.inj hvalue).symm, (List.cons.inj hrest).2⟩

/-- **A quoted text falls apart in one way only.** -/
theorem eq_of_quotedChar_append {c d : Char} {s t : Text}
    (h : quotedChar c ++ s = quotedChar d ++ t) : c = d ∧ s = t := by
  have hc := quotedBy_quotedChar c
  have hd := quotedBy_quotedChar d
  generalize quotedChar c = q at h hc
  generalize quotedChar d = r at h hd
  have hletters : ∀ p ∈ quoteLetters, p.1 ≠ 'u' ∧
      ∀ p' ∈ quoteLetters, p.1 = p'.1 → p.2 = p'.2 := by decide
  cases hc with
  | letter x hx =>
    cases hd with
    | letter y hy =>
      simp only [List.cons_append, List.nil_append, List.cons.injEq, true_and] at h
      exact ⟨(hletters _ hx).2 _ hy h.1, h.2⟩
    | code =>
      simp only [List.cons_append, List.nil_append, List.cons.injEq, true_and] at h
      exact absurd h.1 (hletters _ hx).1
    | plain hslash _ _ _ => exact absurd (List.cons.inj h).1.symm hslash
  | code =>
    cases hd with
    | letter y hy =>
      simp only [List.cons_append, List.nil_append, List.cons.injEq, true_and] at h
      exact absurd h.1.symm (hletters _ hy).1
    | code =>
      simp only [List.cons_append, List.nil_append, List.append_assoc, List.cons.injEq,
        true_and] at h
      obtain ⟨hnumber, hrest⟩ := eq_of_toDigits_append h
      exact ⟨Char.toNat_inj.1 hnumber, hrest⟩
    | plain hslash _ _ _ => exact absurd (List.cons.inj h).1.symm hslash
  | plain hslash _ _ _ =>
    cases hd with
    | letter y hy => exact absurd (List.cons.inj h).1 hslash
    | code => exact absurd (List.cons.inj h).1 hslash
    | plain _ _ _ _ => exact List.cons.inj h

/-! ## Texts -/

/-- **A quoted text stands on one line.** -/
theorem not_mem_quoted (t : Text) : '\n' ∉ quoted t ∧ '\r' ∉ quoted t := by
  have hchars : '\n' ∉ t.flatMap quotedChar ∧ '\r' ∉ t.flatMap quotedChar := by
    constructor
    all_goals
      intro hmem
      obtain ⟨c, -, hc⟩ := List.mem_flatMap.1 hmem
    · exact (quotedBy_quotedChar c).not_mem.1 hc
    · exact (quotedBy_quotedChar c).not_mem.2 hc
  simp [quoted, hchars]

/-- **Two texts with the same quoted form are the same text.** -/
theorem quoted_inj {s t : Text} : quoted s = quoted t ↔ s = t := by
  refine ⟨fun h => ?_, congrArg quoted⟩
  replace h : s.flatMap quotedChar ++ ['"'] = t.flatMap quotedChar ++ ['"'] := (List.cons.inj h).2
  induction s generalizing t with
  | nil =>
    cases t with
    | nil => rfl
    | cons d t =>
      rw [List.flatMap_cons, List.append_assoc] at h
      exact absurd h.symm ((quotedBy_quotedChar d).ne_quote _ _)
  | cons c s ih =>
    cases t with
    | nil =>
      rw [List.flatMap_cons, List.append_assoc] at h
      exact absurd h ((quotedBy_quotedChar c).ne_quote _ _)
    | cons d t =>
      rw [List.flatMap_cons, List.flatMap_cons, List.append_assoc, List.append_assoc] at h
      obtain ⟨rfl, hrest⟩ := eq_of_quotedChar_append h
      exact congrArg (c :: ·) (ih hrest)

end Stencil.Text
