import Mathlib.Tactic.Common
import Stencil.Text.CodeUnit

/-!
# Hexadecimal digits

What hexadecimal digits are and what they stand for, said without a reader: sixteen characters, the
letters among them in either case, the first digit of a text the highest one.  The lemmas say that
the reader goes by it.

## Main Definitions

* `Text.IsHexDigit` — a character is the digit of a value
* `Text.IsHex` — a text of digits stands for a number
-/

namespace Stencil.Text

/-- A character is the hexadecimal digit of a value, in either case. -/
def IsHexDigit (value : Nat) (c : Char) : Prop :=
  value < 16 ∧ (c = Nat.digitChar value ∨ c = (Nat.digitChar value).toUpper)

instance (value : Nat) (c : Char) : Decidable (IsHexDigit value c) :=
  inferInstanceAs (Decidable (_ ∧ _))

/-- A text of hexadecimal digits, the highest one first, stands for a number. -/
def IsHex (t : Text) (n : Nat) : Prop :=
  ∃ values, List.Forall₂ IsHexDigit values t ∧
    values.foldl (fun n value => 16 * n + value) 0 = n

/-- Only characters up to the letter `f` are digits. -/
theorem toNat_lt_of_hexDigit? {c : Char} {value : Nat} (h : hexDigit? c = some value) :
    c.toNat < 103 := by
  rw [hexDigit?] at h
  split at h
  · next hdigit =>
    have hle : c.toNat ≤ 57 := UInt32.le_iff_toNat_le.1 (of_decide_eq_true
      (Bool.and_eq_true_iff.1 hdigit).2)
    omega
  · split at h
    · next hlower =>
      have hle : c.toNat ≤ 102 := UInt32.le_iff_toNat_le.1 hlower.2
      omega
    · split at h
      · next hupper =>
        have hle : c.toNat ≤ 70 := UInt32.le_iff_toNat_le.1 hupper.2
        omega
      · cases h

theorem hexDigit?_eq_some_iff {c : Char} {value : Nat} :
    hexDigit? c = some value ↔ IsHexDigit value c := by
  constructor
  · intro h
    have hall : ∀ n < 103, ∀ value ∈ hexDigit? (Char.ofNat n), IsHexDigit value (Char.ofNat n) := by
      decide
    have hvalue := hall c.toNat (toNat_lt_of_hexDigit? h) value
    rw [Char.ofNat_toNat] at hvalue
    exact hvalue h
  · have hall : ∀ value < 16, hexDigit? (Nat.digitChar value) = some value ∧
        hexDigit? (Nat.digitChar value).toUpper = some value := by
      decide
    rintro ⟨hlt, rfl | rfl⟩
    · exact (hall value hlt).1
    · exact (hall value hlt).2

/-- The reader of digits, from what it has read before. -/
theorem foldlM_hexDigit?_eq_some_iff {t : Text} {n m : Nat} :
    t.foldlM (fun n c => (hexDigit? c).map fun value => 16 * n + value) n = some m ↔
      ∃ values, List.Forall₂ IsHexDigit values t ∧
        values.foldl (fun n value => 16 * n + value) n = m := by
  induction t generalizing n with
  | nil =>
    constructor
    · intro h
      exact ⟨[], .nil, Option.some.inj h⟩
    · rintro ⟨_, ⟨⟩, rfl⟩
      rfl
  | cons c t ih =>
    rw [List.foldlM_cons]
    constructor
    · intro h
      obtain ⟨k, hk, h⟩ := Option.bind_eq_some_iff.1 h
      obtain ⟨value, hvalue, rfl⟩ := Option.map_eq_some_iff.1 hk
      obtain ⟨values, hvalues, hm⟩ := ih.1 h
      exact ⟨value :: values, .cons (hexDigit?_eq_some_iff.1 hvalue) hvalues, hm⟩
    · rintro ⟨_, _ | ⟨hvalue, hvalues⟩, hm⟩
      rw [hexDigit?_eq_some_iff.2 hvalue]
      exact ih.2 ⟨_, hvalues, hm⟩

theorem hexValue?_eq_some_iff {t : Text} {n : Nat} : hexValue? t = some n ↔ IsHex t n :=
  foldlM_hexDigit?_eq_some_iff

/-- Every digit makes room for sixteen times as many numbers. -/
theorem foldl_lt_of_isHexDigit {values : List Nat} {t : Text}
    (h : List.Forall₂ IsHexDigit values t) (n : Nat) :
    values.foldl (fun n value => 16 * n + value) n < (n + 1) * Nat.pow 16 t.length := by
  induction h generalizing n with
  | nil => exact Nat.lt_of_lt_of_eq (Nat.lt_succ_self n) (Nat.mul_one _).symm
  | @cons value c values t hvalue _ ih =>
    calc
      _ < (16 * n + value + 1) * Nat.pow 16 t.length := ih (16 * n + value)
      _ ≤ ((n + 1) * 16) * Nat.pow 16 t.length := by
        have hlt := hvalue.1
        exact Nat.mul_le_mul_right _ (by omega)
      _ = (n + 1) * Nat.pow 16 (t.length + 1) := by
        rw [Nat.mul_assoc, Nat.mul_comm 16]
        rfl

theorem IsHex.lt {t : Text} {n : Nat} (h : IsHex t n) : n < Nat.pow 16 t.length := by
  obtain ⟨values, hvalues, rfl⟩ := h
  exact Nat.lt_of_lt_of_eq (foldl_lt_of_isHexDigit hvalues 0) (Nat.one_mul _)

/-- No digit is taken for anything else that a string literal holds. -/
theorem IsHexDigit.ne {value : Nat} {c : Char} (h : IsHexDigit value c) :
    c ≠ '\\' ∧ c ≠ '\'' ∧ c ≠ '"' ∧ c ≠ '+' := by
  have hne : ∀ d, hexDigit? d = none → c ≠ d := by
    rintro d hd rfl
    rw [hexDigit?_eq_some_iff.2 h] at hd
    cases hd
  exact ⟨hne _ (by decide), hne _ (by decide), hne _ (by decide), hne _ (by decide)⟩

theorem IsHex.exists_digit {t : Text} {n : Nat} (h : IsHex t n) :
    ∀ c ∈ t, ∃ value, IsHexDigit value c := by
  obtain ⟨values, hvalues, -⟩ := h
  clear n
  induction hvalues with
  | nil => nofun
  | cons hvalue _ ih => exact List.forall_mem_cons.2 ⟨⟨_, hvalue⟩, ih⟩

theorem IsHex.ne {t : Text} {n : Nat} (h : IsHex t n) :
    ∀ c ∈ t, c ≠ '\\' ∧ c ≠ '\'' ∧ c ≠ '"' ∧ c ≠ '+' := by
  intro c hc
  obtain ⟨value, hvalue⟩ := h.exists_digit c hc
  exact hvalue.ne

end Stencil.Text
