import Mathlib.Data.List.Forall2
import Stencil.Expr.StringLiteral
import Stencil.Proofs.Text.CodeUnit

/-!
# Escapes

What a string literal may hold and what it stands for, without a reader: character by character, and
each of them in one of several ways.  A character stands for itself unless it is the backslash,
seven have an escape of one letter, and every character has escapes by its code unit or, beyond the
first plane, by a pair of surrogates.

The reader keeps a high surrogate until its other half comes; `Remains` says what is still to be
read then, and is what it keeps at every step.  It is exact but for the sign that its reader of
numbers takes in place of a digit: `\u+041` stands for what `\u0041` stands for
(`unescape?_plus`).

## Main Definitions

* `StringLiteral.namedEscapes` — the escapes of one letter
* `StringLiteral.UnitBy` — four characters that name a code unit
* `StringLiteral.SpelledBy` — a way of writing a character
* `StringLiteral.Spells` — a way of writing a text
-/

namespace Stencil.StringLiteral

open Stencil.Text

/-! ## Ways of writing a character -/

/-- The escapes of one letter, each with the character that it names. -/
def namedEscapes : List (Char × Char) :=
  [('"', '"'), ('\\', '\\'), ('/', '/'), ('\'', '\''), ('n', '\n'), ('r', '\r'), ('t', '\t')]

/-- Four characters name a code unit: hexadecimal digits in any case, or, if signs are allowed, a
plus sign and three of them. -/
def UnitBy (signs : Bool) (digits : Text) (unit : Nat) : Prop :=
  digits.length = 4 ∧
    (IsHex digits unit ∨ signs = true ∧ ∃ rest, digits = '+' :: rest ∧ IsHex rest unit)

/-- A way of writing a character in a string literal. -/
inductive SpelledBy (signs : Bool) : Char → Text → Prop
  /-- Every character but the backslash as it is. -/
  | plain {c : Char} (h : c ≠ '\\') : SpelledBy signs c [c]
  /-- By a letter. -/
  | named {c letter : Char} (h : (letter, c) ∈ namedEscapes) : SpelledBy signs c ['\\', letter]
  /-- By its code unit. -/
  | unit {c : Char} {digits : Text} (h : UnitBy signs digits c.toNat) :
    SpelledBy signs c ('\\' :: 'u' :: digits)
  /-- By the two halves of a pair. -/
  | pair {c : Char} {digits digits' : Text} {high low : Nat} (hhigh : UnitBy signs digits high)
    (hlow : UnitBy signs digits' low) (hpair : isHighSurrogate high ∧ isLowSurrogate low)
    (hc : c.toNat = 0x10000 + (high - 0xD800) * 0x400 + (low - 0xDC00)) :
    SpelledBy signs c ('\\' :: 'u' :: (digits ++ '\\' :: 'u' :: digits'))

/-- A way of writing a text, character by character. -/
def Spells (signs : Bool) (raw content : Text) : Prop :=
  ∃ pieces : List Text, List.Forall₂ (SpelledBy signs) content pieces ∧ raw = pieces.flatten

variable {signs : Bool} {c : Char} {piece raw content : Text}

theorem spells_nil : Spells signs [] [] := ⟨[], .nil, rfl⟩

theorem Spells.cons (h : SpelledBy signs c piece) (hraw : Spells signs raw content) :
    Spells signs (piece ++ raw) (c :: content) := by
  obtain ⟨pieces, hpieces, rfl⟩ := hraw
  exact ⟨piece :: pieces, .cons h hpieces, rfl⟩

/-! ## The reader of one escape -/

theorem namedEscape?_eq_some_iff {letter : Char} :
    namedEscape? letter = some c ↔ (letter, c) ∈ namedEscapes := by
  simp only [namedEscape?, namedEscapes, List.mem_cons, Prod.mk.injEq, List.not_mem_nil, or_false]
  constructor
  · intro h
    split_ifs at h with hself hn hr ht
    · obtain rfl := Option.some.inj h
      rcases hself with rfl | rfl | rfl | rfl <;> decide
    · exact .inr (.inr (.inr (.inr (.inl ⟨hn, (Option.some.inj h).symm⟩))))
    · exact .inr (.inr (.inr (.inr (.inr (.inl ⟨hr, (Option.some.inj h).symm⟩)))))
    · exact .inr (.inr (.inr (.inr (.inr (.inr ⟨ht, (Option.some.inj h).symm⟩)))))
  · rintro (⟨rfl, rfl⟩ | ⟨rfl, rfl⟩ | ⟨rfl, rfl⟩ | ⟨rfl, rfl⟩ | ⟨rfl, rfl⟩ | ⟨rfl, rfl⟩ |
      ⟨rfl, rfl⟩) <;> decide

theorem unit?_eq_some_iff {a b c d : Char} {unit : Nat} :
    unit? a b c d = some unit ↔ UnitBy true [a, b, c, d] unit := by
  rw [unit?, UnitBy]
  split
  · next hplus =>
    subst hplus
    rw [hexValue?_eq_some_iff]
    constructor
    · exact fun h => ⟨rfl, .inr ⟨rfl, _, rfl, h⟩⟩
    · rintro ⟨-, h | ⟨-, _, ⟨⟩, h⟩⟩
      · exact absurd rfl (h.ne '+' List.mem_cons_self).2.2.2
      · exact h
  · next hplus =>
    rw [hexValue?_eq_some_iff]
    constructor
    · exact fun h => ⟨rfl, .inl h⟩
    · rintro ⟨-, h | ⟨-, _, ⟨⟩, -⟩⟩
      · exact h
      · exact absurd rfl hplus

/-- Every way of naming a code unit is one in which signs are allowed. -/
theorem UnitBy.exists {digits : Text} {unit : Nat} (h : UnitBy signs digits unit) :
    ∃ a b c d, digits = [a, b, c, d] ∧ unit? a b c d = some unit := by
  obtain ⟨hlength, h⟩ := h
  match digits, hlength with
  | [a, b, c, d], _ =>
    refine ⟨a, b, c, d, rfl, unit?_eq_some_iff.2 ⟨rfl, h.imp_right ?_⟩⟩
    exact fun ⟨_, hrest⟩ => ⟨rfl, hrest⟩

/-- The code of a character is that of no surrogate. -/
theorem isSurrogate_toNat (c : Char) : isSurrogate c.toNat = false := by
  have hvalid : c.toNat < 0xD800 ∨ 0xDFFF < c.toNat ∧ c.toNat < 0x110000 := c.valid
  rw [← Bool.not_eq_true, isSurrogate]
  simp only [Bool.and_eq_true, decide_eq_true_eq]
  omega

theorem isSurrogate_of_high {unit : Nat} (h : isHighSurrogate unit = true) :
    isSurrogate unit = true := by
  simp only [isHighSurrogate, isSurrogate, Bool.and_eq_true, decide_eq_true_eq] at *
  omega

theorem isSurrogate_of_low {unit : Nat} (h : isLowSurrogate unit = true) :
    isSurrogate unit = true := by
  simp only [isLowSurrogate, isSurrogate, Bool.and_eq_true, decide_eq_true_eq] at *
  omega

theorem toNat_ofNat {n : Nat} (h : n.isValidChar) : (Char.ofNat n).toNat = n := by
  rw [Char.ofNat, dif_pos h]
  rfl

/-! ## Reading what is written -/

section Reading

variable {pending : Option Nat} {digits : Text} {unit high : Nat}

theorem unescapeAfter?_plain (h : c ≠ '\\') :
    unescapeAfter? none (c :: raw) = (unescapeAfter? none raw).map (c :: ·) := by
  rw [unescapeAfter?]
  · exact if_pos ⟨rfl, h⟩
  · rintro _ _ _ _ _ rfl
    exact absurd rfl h
  · rintro _ _ rfl
    exact absurd rfl h

theorem unescapeAfter?_named {letter : Char} (h : (letter, c) ∈ namedEscapes) :
    unescapeAfter? none ('\\' :: letter :: raw) = (unescapeAfter? none raw).map (c :: ·) := by
  have hnamed := namedEscape?_eq_some_iff.2 h
  refine unescapeAfter?.eq_3 letter raw c ?_ hnamed
  rintro _ _ _ _ _ rfl
  cases hnamed

/-- A code unit that is a character is read as it. -/
theorem unescapeAfter?_unit (h : UnitBy signs digits unit) (hunit : isSurrogate unit = false) :
    unescapeAfter? none ('\\' :: 'u' :: (digits ++ raw)) =
      (unescapeAfter? none raw).map (Char.ofNat unit :: ·) := by
  obtain ⟨a, b, c, d, rfl, hread⟩ := h.exists
  simp only [List.cons_append, List.nil_append, unescapeAfter?, hread, hunit]

/-- One half of a pair waits for the other. -/
theorem unescapeAfter?_surrogate (h : UnitBy signs digits unit)
    (hunit : isSurrogate unit = true) :
    unescapeAfter? none ('\\' :: 'u' :: (digits ++ raw)) = unescapeAfter? (some unit) raw := by
  obtain ⟨a, b, c, d, rfl, hread⟩ := h.exists
  simp only [List.cons_append, List.nil_append, unescapeAfter?, hread, hunit]

/-- The other half of a pair makes it a character. -/
theorem unescapeAfter?_pair (h : UnitBy signs digits unit) (hhigh : isHighSurrogate high = true)
    (hlow : isLowSurrogate unit = true) :
    unescapeAfter? (some high) ('\\' :: 'u' :: (digits ++ raw)) =
      (unescapeAfter? none raw).map (ofSurrogates high unit :: ·) := by
  obtain ⟨a, b, c, d, rfl, hread⟩ := h.exists
  simp only [List.cons_append, List.nil_append, unescapeAfter?, hread, isSurrogate_of_low hlow,
    hhigh, hlow, Bool.and_self, if_true]

/-- Every way of writing a character is read as it. -/
theorem unescapeAfter?_append (h : SpelledBy signs c piece) :
    unescapeAfter? none (piece ++ raw) = (unescapeAfter? none raw).map (c :: ·) := by
  cases h with
  | plain h => exact unescapeAfter?_plain h
  | named h => exact unescapeAfter?_named h
  | unit h =>
    rw [List.cons_append, List.cons_append, unescapeAfter?_unit h (isSurrogate_toNat c),
      Char.ofNat_toNat]
  | pair hhigh hlow hpair hc =>
    rw [List.cons_append, List.cons_append, List.append_assoc,
      unescapeAfter?_surrogate hhigh (isSurrogate_of_high hpair.1), List.cons_append,
      List.cons_append, unescapeAfter?_pair hlow hpair.1 hpair.2, ofSurrogates, ← hc,
      Char.ofNat_toNat]

/-- Every way of writing a text is read as it. -/
theorem unescape?_of_spells (h : Spells signs raw content) : unescape? raw = some content := by
  obtain ⟨pieces, hpieces, rfl⟩ := h
  rw [unescape?]
  induction hpieces with
  | nil => rfl
  | cons h _ ih => rw [List.flatten_cons, unescapeAfter?_append h, ih]; rfl

/-! ## What is read was written -/

/-- What is still to be read: a text, or the other half of a pair with a text behind it. -/
def Remains (pending : Option Nat) (raw content : Text) : Prop :=
  match pending with
  | none => Spells true raw content
  | some high => isHighSurrogate high = true ∧ ∃ digits low c rest tail,
      UnitBy true digits low ∧ isLowSurrogate low = true ∧
      c.toNat = 0x10000 + (high - 0xD800) * 0x400 + (low - 0xDC00) ∧
      raw = '\\' :: 'u' :: (digits ++ rest) ∧ content = c :: tail ∧ Spells true rest tail

theorem toNat_ofSurrogates {low : Nat} (hhigh : isHighSurrogate high = true)
    (hlow : isLowSurrogate low = true) : (ofSurrogates high low).toNat =
      0x10000 + (high - 0xD800) * 0x400 + (low - 0xDC00) := by
  simp only [isHighSurrogate, isLowSurrogate, Bool.and_eq_true, decide_eq_true_eq] at hhigh hlow
  refine toNat_ofNat (.inr ⟨?_, ?_⟩) <;> omega

theorem toNat_ofNat_of_unitBy (h : UnitBy signs digits unit) (hunit : isSurrogate unit = false) :
    (Char.ofNat unit).toNat = unit := by
  have hlt : unit < 0x10000 := by
    obtain ⟨hlength, hhex | ⟨-, rest, rfl, hhex⟩⟩ := h
    · have hlt := hhex.lt
      rwa [hlength] at hlt
    · have hlt := hhex.lt
      rw [Nat.succ.inj hlength] at hlt
      exact Nat.lt_trans hlt (by decide)
  rw [← Bool.not_eq_true, isSurrogate, Bool.and_eq_true, decide_eq_true_eq,
    decide_eq_true_eq] at hunit
  refine toNat_ofNat ?_
  show unit < 0xD800 ∨ 0xDFFF < unit ∧ unit < 0x110000
  omega

/-- What is read was written, up to what waits for its other half. -/
theorem remains_of_unescapeAfter? (h : unescapeAfter? pending raw = some content) :
    Remains pending raw content := by
  fun_induction unescapeAfter? pending raw generalizing content with
  | case1 =>
    obtain rfl := Option.some.inj h
    exact spells_nil
  | case4 a b c d t unit hread hunit ih =>
    obtain ⟨tail, ht, rfl⟩ := Option.map_eq_some_iff.1 h
    have hby := unit?_eq_some_iff.1 hread
    rw [← toNat_ofNat_of_unitBy hby hunit] at hby
    exact Spells.cons (.unit hby) (ih ht)
  | case6 a b c d t unit hread hunit ih =>
    obtain ⟨hhigh, digits, low, c', rest, tail, hlow, hpair, hc, rfl, rfl, hrest⟩ := ih h
    exact Spells.cons (.pair (unit?_eq_some_iff.1 hread) hlow ⟨hhigh, hpair⟩ hc) hrest
  | case7 a b c d t unit hread high hunit hpair ih =>
    obtain ⟨hhigh, hlow⟩ := Bool.and_eq_true_iff.1 hpair
    obtain ⟨tail, ht, rfl⟩ := Option.map_eq_some_iff.1 h
    exact ⟨hhigh, [a, b, c, d], unit, _, t, tail, unit?_eq_some_iff.1 hread, hlow,
      toNat_ofSurrogates hhigh hlow, rfl, rfl, ih ht⟩
  | case9 letter t _ d hnamed ih =>
    obtain ⟨tail, ht, rfl⟩ := Option.map_eq_some_iff.1 h
    exact Spells.cons (.named (namedEscape?_eq_some_iff.1 hnamed)) (ih ht)
  | case11 pending c t _ _ hplain ih =>
    obtain ⟨rfl, hc⟩ := hplain
    obtain ⟨tail, ht, rfl⟩ := Option.map_eq_some_iff.1 h
    exact Spells.cons (.plain hc) (ih ht)
  | _ => cases h

/-- **What a raw content stands for.**  It is read as a text exactly if it is a way of writing that
text, character by character, where a plus sign may stand for the first digit of a code unit. -/
theorem unescape?_eq_some_iff (raw content : Text) :
    unescape? raw = some content ↔ Spells true raw content :=
  ⟨remains_of_unescapeAfter?, unescape?_of_spells⟩

/-- A text with a plus sign in place of the first digit of a code unit is no way of writing
anything with digits only. -/
theorem not_spells_plus {rest : Text} : ¬Spells false ('\\' :: 'u' :: '+' :: rest) content := by
  rintro ⟨_, _ | ⟨h, hpieces⟩, heq⟩
  · cases heq
  · have hdigits : ∀ {digits tail : Text} {unit : Nat}, UnitBy false digits unit →
        '+' :: rest ≠ digits ++ tail := by
      rintro (_ | ⟨d, digits⟩) tail unit ⟨hlength, hhex | ⟨⟨⟩, -⟩⟩ heq
      · cases hlength
      · exact (hhex.ne d List.mem_cons_self).2.2.2 (List.cons.inj heq).1.symm
    cases h with
    | plain h => exact h (List.cons.inj heq).1.symm
    | named h =>
      obtain rfl := (List.cons.inj (List.cons.inj heq).2).1
      exact absurd h (by simp [namedEscapes])
    | unit h => exact hdigits h (List.cons.inj (List.cons.inj heq).2).2
    | pair h =>
      exact hdigits h ((List.cons.inj (List.cons.inj heq).2).2.trans (List.append_assoc _ _ _))

/-- **The sign is taken for a digit**: the text `\u+041` is read as the letter that `\u0041`
names, although it is no way of writing any text with four hexadecimal digits. -/
theorem unescape?_plus : unescape? "\\u+041".toList = some "A".toList ∧
    ∀ content, ¬Spells false "\\u+041".toList content :=
  ⟨by decide, fun _ => not_spells_plus⟩

end Reading

end Stencil.StringLiteral
