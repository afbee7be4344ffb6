import Stencil.Json.Strict
import Stencil.Proofs.Json.Numerals

/-!
# How the strict reader takes numerals

The reader takes exactly the numerals of the grammar, and all of a numeral whatever follows
(`readUnsigned?_append`, `exists_of_readUnsigned?`), so what it makes of one depends on the parts
alone (`numeralOf?`).  A minus sign makes no difference to the digits that it keeps, and a number
and its opposite are rounded alike (`exists_of_numeralOf?_true`).

## Main Definitions

* `Json.readUnsigned?`, `Json.numeralOf?` — the reader behind the sign, and the value of the parts
-/

namespace Stencil

namespace Json

/-- The value of a numeral by its sign and its parts, unless it is beyond the greatest number. -/
def numeralOf? (negative : Bool) (whole fraction : Text) (exponent : Option Int) : Option Json :=
  let start := absorb 0 whole
  if start.2 = 0 ∧ fraction = [] ∧ exponent = none then some (integerOf negative start.1)
  else
    let last := absorb start.1 fraction
    floatOf? negative last.1 (start.2 - (fraction.length - last.2 : Nat) + exponent.getD 0)

/-- The numeral at the start of a text behind its sign. -/
def readUnsigned? (negative : Bool) (t : Text) : Option (Json × Text) := do
  let (whole, t) ← integerDigits? t
  let (fraction, t) ← fractionDigits? t
  let (exponent, t) ← exponent? t
  let j ← numeralOf? negative whole fraction exponent
  return (j, t)

theorem numeralOf?_bind (negative : Bool) (whole fraction : Text) (exponent : Option Int)
    (t : Text) : (do
      let j ← numeralOf? negative whole fraction exponent
      return (j, t)) = (do
      let (significand, dropped) := absorb 0 whole
      if dropped = 0 ∧ fraction = [] ∧ exponent = none then
        return (integerOf negative significand, t)
      else
        let (significand, unread) := absorb significand fraction
        let shift : Int := dropped - (fraction.length - unread : Nat) + exponent.getD 0
        let j ← floatOf? negative significand shift
        return (j, t)) := by
  rw [numeralOf?]
  dsimp only
  split <;> rfl

theorem readNumeral?_minus (t : Text) : readNumeral? ('-' :: t) = readUnsigned? true t := by
  simp only [readUnsigned?, numeralOf?_bind]
  rfl

theorem readNumeral?_unsigned {t : Text} (h : t.head? ≠ some '-') :
    readNumeral? t = readUnsigned? false t := by
  simp only [readUnsigned?, numeralOf?_bind]
  refine readNumeral?.eq_2 t ?_
  rintro u rfl
  exact h rfl

variable {negative : Bool} {t rest d whole fraction digits : Text} {exponent : Option Int}
  {j : Json}

/-! ## The parts in front of what follows -/

theorem integerDigits?_append (h : IsWhole whole) (ht : ∀ c ∈ t.head?, c.isDigit = false) :
    integerDigits? (whole ++ t) = some (whole, t) := by
  obtain ⟨hdigits, hne, hzero⟩ := h
  by_cases hhead : whole.head? = some '0'
  · rw [hzero hhead]
    cases t with
    | nil => rfl
    | cons c t =>
      show (if c.isDigit then none else some (['0'], c :: t)) = _
      rw [ht c rfl]
      rfl
  · obtain ⟨c, w, rfl⟩ := List.exists_cons_of_ne_nil hne
    obtain ⟨htake, hdrop⟩ := Text.splitDigits_append hdigits ht
    rw [integerDigits?, htake, hdrop]
    rintro u heq
    exact hhead (congrArg some (List.cons.inj heq).1)

theorem fractionDigits?_append (h : fraction.all Char.isDigit = true)
    (ht : ∀ c ∈ t.head?, c.isDigit = false ∧ c ≠ '.') :
    fractionDigits? (fractionText fraction ++ t) = some (fraction, t) := by
  cases fraction with
  | nil =>
    rw [fractionText, List.nil_append, fractionDigits?]
    rintro u rfl
    exact (ht '.' rfl).2 rfl
  | cons c digits =>
    obtain ⟨htake, hdrop⟩ := Text.splitDigits_append h fun c hc => (ht c hc).1
    rw [fractionText, List.cons_append, fractionDigits?, htake, hdrop]

/-- A letter that is none of an exponent starts none. -/
theorem exponent?_of_stops (ht : StopsNumeral t) : exponent? t = some (none, t) := by
  cases t with
  | nil => rfl
  | cons c t =>
    obtain ⟨-, -, he, hE⟩ := ht c rfl
    rw [exponent?.eq_def]
    exact if_neg (by simp [he, hE])

/-- The digits of an exponent behind its sign. -/
def exponentDigits? (negative : Bool) (t : Text) : Option (Option Int × Text) :=
  match t.takeWhile Char.isDigit with
  | [] => none
  | digits =>
    let n : Int := Nat.ofDigitChars 10 digits 0
    some (some (if negative then -n else n), t.dropWhile Char.isDigit)

theorem exponentDigits?_append {negative : Bool} (hdigits : digits.all Char.isDigit = true)
    (hne : digits ≠ []) (ht : ∀ c ∈ t.head?, c.isDigit = false) :
    exponentDigits? negative (digits ++ t) =
      some (some (if negative then -(Nat.ofDigitChars 10 digits 0 : Int)
        else Nat.ofDigitChars 10 digits 0), t) := by
  obtain ⟨htake, hdrop⟩ := Text.splitDigits_append hdigits ht
  obtain ⟨d, ds, rfl⟩ := List.exists_cons_of_ne_nil hne
  rw [exponentDigits?, htake, hdrop]

theorem exists_of_exponentDigits? {negative : Bool}
    (h : exponentDigits? negative t = some (exponent, rest)) :
    ∃ digits, digits.all Char.isDigit = true ∧ digits ≠ [] ∧
      exponent = some (if negative then -(Nat.ofDigitChars 10 digits 0 : Int)
        else Nat.ofDigitChars 10 digits 0) ∧ t = digits ++ rest := by
  rw [exponentDigits?] at h
  split at h
  · cases h
  · next hne =>
    obtain ⟨rfl, rfl⟩ := Prod.mk.inj (Option.some.inj h)
    exact ⟨_, List.all_takeWhile, hne, rfl, List.takeWhile_append_dropWhile.symm⟩

section Letter

variable {letter : Char} (hletter : letter = 'e' ∨ letter = 'E')
include hletter

theorem exponent?_minus : exponent? (letter :: '-' :: t) = exponentDigits? true t := by
  rw [exponent?, if_pos hletter]
  rfl

theorem exponent?_plus : exponent? (letter :: '+' :: t) = exponentDigits? false t := by
  rw [exponent?, if_pos hletter]
  rfl

theorem exponent?_digits (ht : ∀ c ∈ t.head?, c ≠ '-' ∧ c ≠ '+') :
    exponent? (letter :: t) = exponentDigits? false t := by
  rw [exponent?, if_pos hletter]
  · rfl
  · rintro u rfl
    exact (ht '-' rfl).1 rfl
  · rintro u rfl
    exact (ht '+' rfl).2 rfl

end Letter

theorem exponent?_append (h : ExponentBy exponent digits) (ht : StopsNumeral t) :
    exponent? (digits ++ t) = some (exponent, t) := by
  have hdigit : ∀ c ∈ t.head?, c.isDigit = false := fun c hc => (ht c hc).1
  cases h with
  | absent => exact exponent?_of_stops ht
  | @present letter sign digits hletter hsign hdigits hne =>
    rw [List.cons_append, List.append_assoc]
    simp only [List.mem_cons, List.not_mem_nil, or_false] at hsign
    rcases hsign with rfl | rfl | rfl
    · obtain ⟨d, ds, rfl⟩ := List.exists_cons_of_ne_nil hne
      have hd : d.isDigit = true := List.all_eq_true.1 hdigits d List.mem_cons_self
      rw [List.nil_append, exponent?_digits hletter, exponentDigits?_append hdigits hne hdigit]
      · rfl
      · rintro c ⟨⟩
        constructor <;> rintro rfl <;> cases hd
    · exact (exponent?_plus hletter).trans (exponentDigits?_append hdigits hne hdigit)
    · exact (exponent?_minus hletter).trans (exponentDigits?_append hdigits hne hdigit)

/-! ## What is read was written -/

theorem exists_of_integerDigits? (h : integerDigits? t = some (whole, rest)) :
    IsWhole whole ∧ t = whole ++ rest := by
  unfold integerDigits? at h
  split at h
  · have hzero : IsWhole ['0'] := ⟨rfl, List.cons_ne_nil _ _, fun _ => rfl⟩
    split at h
    · split_ifs at h
      obtain ⟨rfl, rfl⟩ := Prod.mk.inj (Option.some.inj h)
      exact ⟨hzero, rfl⟩
    · obtain ⟨rfl, rfl⟩ := Prod.mk.inj (Option.some.inj h)
      exact ⟨hzero, rfl⟩
  · next hstart =>
    split at h
    · cases h
    · next hne =>
      obtain ⟨rfl, rfl⟩ := Prod.mk.inj (Option.some.inj h)
      refine ⟨⟨List.all_takeWhile, hne, fun hhead => ?_⟩, List.takeWhile_append_dropWhile.symm⟩
      obtain ⟨ds, hds⟩ := List.head?_eq_some_iff.1 hhead
      have ht : '0' :: (ds ++ t.dropWhile Char.isDigit) = t := by
        rw [← List.cons_append, ← hds, List.takeWhile_append_dropWhile]
      exact absurd ht.symm (hstart _)

theorem exists_of_fractionDigits? (h : fractionDigits? t = some (fraction, rest)) :
    fraction.all Char.isDigit = true ∧ t = fractionText fraction ++ rest := by
  unfold fractionDigits? at h
  split at h
  · split at h
    · cases h
    · next hne =>
      obtain ⟨rfl, rfl⟩ := Prod.mk.inj (Option.some.inj h)
      refine ⟨List.all_takeWhile, ?_⟩
      obtain ⟨d, ds, hds⟩ := List.exists_cons_of_ne_nil hne
      rw [hds, fractionText, List.cons_append, ← hds, List.takeWhile_append_dropWhile]
  · obtain ⟨rfl, rfl⟩ := Prod.mk.inj (Option.some.inj h)
    exact ⟨rfl, rfl⟩

theorem exists_of_exponent? (h : exponent? t = some (exponent, rest)) :
    ∃ digits, ExponentBy exponent digits ∧ t = digits ++ rest := by
  cases t with
  | nil =>
    obtain ⟨rfl, rfl⟩ := Prod.mk.inj (Option.some.inj h)
    exact ⟨[], .absent, rfl⟩
  | cons letter t =>
    by_cases hletter : letter = 'e' ∨ letter = 'E'
    · by_cases hminus : ∃ u, t = '-' :: u
      · obtain ⟨u, rfl⟩ := hminus
        rw [exponent?_minus hletter] at h
        obtain ⟨digits, hdigits, hne, rfl, rfl⟩ := exists_of_exponentDigits? h
        exact ⟨_, .present hletter (by simp : ['-'] ∈ _) hdigits hne, rfl⟩
      by_cases hplus : ∃ u, t = '+' :: u
      · obtain ⟨u, rfl⟩ := hplus
        rw [exponent?_plus hletter] at h
        obtain ⟨digits, hdigits, hne, rfl, rfl⟩ := exists_of_exponentDigits? h
        exact ⟨_, .present hletter (by simp : ['+'] ∈ _) hdigits hne, rfl⟩
      rw [exponent?_digits hletter] at h
      · obtain ⟨digits, hdigits, hne, rfl, rfl⟩ := exists_of_exponentDigits? h
        exact ⟨_, .present hletter (by simp : [] ∈ _) hdigits hne, rfl⟩
      · intro c hc
        obtain ⟨u, rfl⟩ := List.head?_eq_some_iff.1 hc
        constructor <;> rintro rfl
        · exact hminus ⟨u, rfl⟩
        · exact hplus ⟨u, rfl⟩
    · rw [exponent?.eq_def] at h
      obtain ⟨rfl, rfl⟩ := Prod.mk.inj (Option.some.inj ((if_neg hletter).symm.trans h))
      exact ⟨[], .absent, rfl⟩

/-! ## Numerals in front of what follows -/

theorem readUnsigned?_append (h : NumeralBy whole fraction exponent d) (ht : StopsNumeral t) :
    readUnsigned? negative (d ++ t) =
      (numeralOf? negative whole fraction exponent).map (·, t) := by
  obtain ⟨hwhole, hfraction, digits, hexponent, rfl⟩ := h
  have hhead := hexponent.head ht
  rw [readUnsigned?, List.append_assoc, List.append_assoc,
    integerDigits?_append hwhole (head_fractionText hhead)]
  simp only [Option.bind_eq_bind, Option.bind_some]
  rw [fractionDigits?_append hfraction hhead, Option.bind_some, exponent?_append hexponent ht,
    Option.bind_some]
  cases numeralOf? negative whole fraction exponent <;> rfl

theorem exists_of_readUnsigned? (h : readUnsigned? negative t = some (j, rest)) :
    ∃ whole fraction exponent d, NumeralBy whole fraction exponent d ∧
      numeralOf? negative whole fraction exponent = some j ∧ t = d ++ rest := by
  simp only [readUnsigned?, Option.bind_eq_bind, Option.bind_eq_some_iff, Prod.exists] at h
  obtain ⟨whole, t₁, hwhole, fraction, t₂, hfraction, exponent, t₃, hexponent, j', hj, heq⟩ := h
  obtain ⟨rfl, rfl⟩ := Prod.mk.inj (Option.some.inj heq)
  obtain ⟨hisWhole, rfl⟩ := exists_of_integerDigits? hwhole
  obtain ⟨hdigits, rfl⟩ := exists_of_fractionDigits? hfraction
  obtain ⟨digits, hby, rfl⟩ := exists_of_exponent? hexponent
  refine ⟨whole, fraction, exponent, _, ⟨hisWhole, hdigits, digits, hby, rfl⟩, hj, ?_⟩
  rw [List.append_assoc, List.append_assoc]

end Json

/-! ## Signs -/

namespace Number

theorem neg_real {q : Rat} (grid : OnGrid q) (h : q ≠ 0) :
    (real q grid).neg = real (-q) grid.neg :=
  if_neg (mt Rat.num_eq_zero.1 h)

theorem scaled_ne_zero {m : Int} (h : m ≠ 0) (e : Int) : scaled m e ≠ 0 := by
  have hpow : ∀ n : Nat, Nat.pow 2 n ≠ 0 := fun n => Nat.ne_of_gt (Nat.pow_pos (by decide))
  rw [scaled, Ne, Rat.mkRat_eq_zero (hpow _)]
  exact Int.mul_ne_zero h (Int.ofNat_ne_zero.2 (hpow _))

/-- As many units of the other sign are the number of the other sign. -/
theorem ofUnits_true {m : Nat} {unit : Int} (grid : OnGrid (scaled (signed true m) unit))
    (grid' : OnGrid (scaled (signed false m) unit)) :
    ofUnits true m unit grid = (ofUnits false m unit grid').neg := by
  rw [ofUnits, ofUnits]
  split_ifs with hzero
  · rfl
  · have hne : scaled (signed false m) unit ≠ 0 := scaled_ne_zero (Int.ofNat_ne_zero.2 hzero) _
    rw [neg_real _ hne, real.injEq, neg_scaled]
    rfl

/-- A quotient and its opposite are rounded alike. -/
theorem roundQuotient_true {num den : Nat} (hden : 0 < den) :
    roundQuotient true num den hden = (roundQuotient false num den hden).neg := by
  rw [roundQuotient, roundQuotient]
  split_ifs
  · rfl
  · exact ofUnits_true _ _

/-- A positive number and its opposite are rounded alike. -/
theorem round_neg {q : Rat} (h : 0 < q.num) : round (-q) = (round q).neg := by
  have hq : q ≠ 0 := mt Rat.num_eq_zero.2 (Int.ne_of_gt h)
  have hsame : (-q).den = 1 ∧ (-q).num.natAbs ≤ Nat.pow 2 53 ↔
      q.den = 1 ∧ q.num.natAbs ≤ Nat.pow 2 53 := by
    rw [Rat.neg_den, Rat.neg_num, Int.natAbs_neg]
  rw [round, round]
  by_cases hsmall : q.den = 1 ∧ q.num.natAbs ≤ Nat.pow 2 53
  · rw [dif_pos hsmall, dif_pos (hsame.2 hsmall)]
    exact (neg_real _ hq).symm
  · rw [dif_neg hsmall, dif_neg (mt hsame.1 hsmall), decide_eq_false (by omega : ¬q.num < 0)]
    simp only [Rat.neg_den, Rat.neg_num, Int.natAbs_neg, decide_eq_true (by omega : -q.num < 0)]
    exact roundQuotient_true q.den_pos

end Number

namespace Json

open Strict

variable {whole fraction : Text} {exponent : Option Int} {j : Json}

theorem integerOf_true (n : Nat) {x : Number} (h : (integerOf false n).toValue = .number x) :
    (integerOf true n).toValue = .number x.neg := by
  have hx : x = .ofNat n := by
    have hvalue : Value.number (.round ((n : Int) : Rat)) = .number x := h
    rw [Rat.intCast_natCast] at hvalue
    exact (Value.number.inj hvalue).symm
  rw [hx, integerOf]
  split_ifs with hfalse hfloat
  · exact absurd hfalse (by decide)
  · rfl
  · have hpos : 0 < ((n : Rat)).num := by
      rw [Rat.num_natCast]
      omega
    show Value.number (.round ((-(n : Int) : Int) : Rat)) = _
    rw [Rat.intCast_neg, Rat.intCast_natCast, Number.round_neg hpos]
    rfl

/-- A numeral with a minus sign is the number of the other sign. -/
theorem exists_of_numeralOf?_true (h : numeralOf? true whole fraction exponent = some j) :
    ∃ j', numeralOf? false whole fraction exponent = some j' ∧
      ∀ x, j'.toValue = .number x → j.toValue = .number x.neg := by
  rw [numeralOf?] at h ⊢
  split_ifs at h ⊢ with hinteger
  · obtain rfl := Option.some.inj h
    exact ⟨_, rfl, fun x => integerOf_true _⟩
  · obtain ⟨x, hx, rfl⟩ := Option.map_eq_some_iff.1 h
    refine ⟨.number (.float x), ?_, fun y hy => ?_⟩
    · rw [floatOf?, hx]
      rfl
    · obtain rfl := Value.number.inj hy
      rfl

end Json

end Stencil
