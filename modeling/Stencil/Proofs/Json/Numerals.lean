import Mathlib.Data.List.TakeWhile
import Mathlib.Tactic.Common
import Stencil.Expr.Lexer
import Stencil.Proofs.Json.Grammar
import Stencil.Proofs.Text.Trim

/-!
# JSON numerals and numerals of expressions

A JSON numeral is a minus sign or none, digits, perhaps a fraction and perhaps an exponent.  Behind
the sign it is a numeral of an expression, too, which takes all its characters whatever follows
(`NumeralBy.exists_split`).  Which number each language makes of them is another matter.

## Main Definitions

* `Json.StopsNumeral` — what can stand behind a numeral
-/

namespace Stencil.Json

/-- What can stand behind a numeral: nothing that would make it longer. -/
def StopsNumeral (t : Text) : Prop :=
  ∀ c ∈ t.head?, c.isDigit = false ∧ c ≠ '.' ∧ c ≠ 'e' ∧ c ≠ 'E'

variable {t d whole fraction digits : Text} {exponent : Option Int}

/-! ## The parts in front of what follows -/

theorem splitFraction_append (h : fraction.all Char.isDigit = true)
    (ht : ∀ c ∈ t.head?, c.isDigit = false ∧ c ≠ '.') :
    Numeral.splitFraction (fractionText fraction ++ t) = (fraction, t) := by
  cases fraction with
  | nil =>
    rw [fractionText, List.nil_append, Numeral.splitFraction]
    rintro u rfl
    exact (ht '.' rfl).2 rfl
  | cons c digits =>
    obtain ⟨htake, hdrop⟩ := Text.splitDigits_append h fun c hc => (ht c hc).1
    rw [fractionText, List.cons_append, Numeral.splitFraction, htake, hdrop]

theorem splitExponent_of_stops (ht : StopsNumeral t) : Numeral.splitExponent t = (none, t) := by
  cases t with
  | nil => rfl
  | cons c t =>
    obtain ⟨-, -, he, hE⟩ := ht c rfl
    rw [Numeral.splitExponent.eq_def]
    exact if_neg (by simp [he, hE])

/-- The exponent of a token does not depend on what follows. -/
theorem exists_splitExponent (h : ExponentBy exponent digits) :
    ∃ parts, (∀ negative signed, parts ≠ some (negative, signed, [])) ∧
      ∀ {t}, StopsNumeral t → Numeral.splitExponent (digits ++ t) = (parts, t) := by
  cases h with
  | absent => exact ⟨none, nofun, splitExponent_of_stops⟩
  | @present letter sign digits hletter hsign hdigits hne =>
    simp only [List.mem_cons, List.not_mem_nil, or_false] at hsign
    refine ⟨some (sign = ['-'], sign ≠ [], digits), by simp [hne], fun {t} ht => ?_⟩
    obtain ⟨htake, hdrop⟩ := Text.splitDigits_append hdigits fun c hc => (ht c hc).1
    rw [List.cons_append, List.append_assoc, Numeral.splitExponent.eq_def]
    refine (if_pos hletter).trans ?_
    rcases hsign with rfl | rfl | rfl
    · obtain ⟨d, ds, rfl⟩ := List.exists_cons_of_ne_nil hne
      have hd : d.isDigit = true := List.all_eq_true.1 hdigits d List.mem_cons_self
      have hsign : ¬(d = '-' ∨ d = '+') := by rintro (rfl | rfl) <;> cases hd
      rw [List.nil_append, htake, hdrop]
      exact (if_neg hsign).trans (if_pos hd)
    · rw [List.singleton_append]
      refine (if_pos (.inr rfl)).trans ?_
      rw [htake, hdrop]
      rfl
    · rw [List.singleton_append]
      refine (if_pos (.inl rfl)).trans ?_
      rw [htake, hdrop]
      rfl

/-! ## Whole numerals -/

theorem ExponentBy.head (h : ExponentBy exponent digits) (ht : StopsNumeral t) :
    ∀ c ∈ (digits ++ t).head?, c.isDigit = false ∧ c ≠ '.' := by
  cases h with
  | absent => exact fun c hc => ⟨(ht c hc).1, (ht c hc).2.1⟩
  | present hletter _ _ _ =>
    rintro c ⟨⟩
    rcases hletter with rfl | rfl <;> decide

theorem head_fractionText (ht : ∀ c ∈ t.head?, c.isDigit = false ∧ c ≠ '.') :
    ∀ c ∈ (fractionText fraction ++ t).head?, c.isDigit = false := by
  cases fraction with
  | nil => exact fun c hc => (ht c hc).1
  | cons d digits =>
    rintro c ⟨⟩
    rfl

theorem NumeralBy.exists_digit (h : NumeralBy whole fraction exponent d) :
    ∃ c w, d = c :: w ∧ c.isDigit = true := by
  obtain ⟨⟨hdigits, hne, -⟩, -, _, -, rfl⟩ := h
  obtain ⟨c, w, rfl⟩ := List.exists_cons_of_ne_nil hne
  exact ⟨c, _, rfl, List.all_eq_true.1 hdigits c List.mem_cons_self⟩

theorem isBlank_of_isDigit {c : Char} (h : c.isDigit = true) : Text.isBlank c = false :=
  Text.isBlank_of_isWordChar (by simp [Text.isWordChar, Char.isAlphanum, h])

/-- A numeral holds no white space. -/
theorem NumeralBy.isBlank (h : NumeralBy whole fraction exponent d) :
    ∀ c ∈ d, Text.isBlank c = false := by
  have hdigits : ∀ {w : Text}, w.all Char.isDigit = true → ∀ c ∈ w, Text.isBlank c = false :=
    fun hw c hc => isBlank_of_isDigit (List.all_eq_true.1 hw c hc)
  obtain ⟨⟨hwhole, -, -⟩, hfraction, digits, hexponent, rfl⟩ := h
  intro c hc
  rcases List.mem_append.1 hc with hc | hc
  · exact hdigits hwhole c hc
  rcases List.mem_append.1 hc with hc | hc
  · cases fraction with
    | nil => cases hc
    | cons e fraction =>
      rcases List.mem_cons.1 hc with rfl | hc
      · decide
      · exact hdigits hfraction c hc
  · cases hexponent with
    | absent => cases hc
    | present hletter hsign hexponent _ =>
      rcases List.mem_cons.1 hc with rfl | hc
      · rcases hletter with rfl | rfl <;> decide
      rcases List.mem_append.1 hc with hc | hc
      · simp only [List.mem_cons, List.not_mem_nil, or_false] at hsign
        rcases hsign with rfl | rfl | rfl
        · cases hc
        · rw [List.mem_singleton.1 hc]
          decide
        · rw [List.mem_singleton.1 hc]
          decide
      · exact hdigits hexponent c hc

/-- A JSON numeral is a numeral of an expression, whatever follows it. -/
theorem NumeralBy.exists_split (h : NumeralBy whole fraction exponent d) :
    ∃ n x, Numeral.number? n = some x ∧
      ∀ {t}, StopsNumeral t → Numeral.split false (d ++ t) = (n, t) := by
  obtain ⟨hwhole, hfraction, digits, hexponent, rfl⟩ := h
  obtain ⟨parts, hparts, hsplit⟩ := exists_splitExponent hexponent
  have hnumber : ∃ x, Numeral.number? ⟨whole, fraction, parts⟩ = some x := by
    rw [Numeral.number?]
    split
    · exact ⟨_, rfl⟩
    · next negative signed heq => exact absurd heq (hparts negative signed)
    · exact ⟨_, rfl⟩
  obtain ⟨x, hx⟩ := hnumber
  refine ⟨_, x, hx, fun {t} ht => ?_⟩
  have hhead := hexponent.head ht
  have hfront : ∀ c ∈ (fractionText fraction ++ (digits ++ t)).head?, c.isDigit = false :=
    head_fractionText hhead
  obtain ⟨htake, hdrop⟩ := Text.splitDigits_append hwhole.1 hfront
  rw [Numeral.split, List.append_assoc, List.append_assoc, htake, hdrop,
    splitFraction_append hfraction hhead]
  dsimp only
  rw [hsplit ht]
  rfl

end Stencil.Json
