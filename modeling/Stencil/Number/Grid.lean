/-!
# The grid of the format

The finite numbers of the binary64 format of IEEE 754 are integers of at most fifty-three bits times
a power of two.  A rational is put on this grid in units of such a power: the unit goes by the size
of the rational, so that no more than `2 ^ 53` units come near it (`Number.nearest_le_of_log2`).
That many units are on the grid again, half as many of twice the size.

## Main Definitions

* `Number.nearest`, `Number.log2Quotient` — the nearest natural of a quotient, and its size
* `Number.unitExponent`, `Number.units` — the unit of a quotient, and the quotient counted in it
* `Number.scaled` — an integer times a power of two
* `Number.OnGrid` — the rationals of the format
-/

namespace Stencil.Number

/-- The quotient of two naturals, rounded to the nearest natural, a tie to the even one. -/
def nearest (num den : Nat) : Nat :=
  let quotient := num / den
  let twice := 2 * (num % den)
  if twice < den then quotient
  else if den < twice then quotient + 1
  else quotient + quotient % 2

/-- The exponent of the greatest power of two that is not above `num / den`. -/
def log2Quotient (num den : Nat) : Int :=
  let e : Int := (num.log2 : Int) - (den.log2 : Int)
  if den * Nat.pow 2 e.toNat ≤ num * Nat.pow 2 (-e).toNat then e else e - 1

/-- The exponent of the last of fifty-three bits of `num / den`, never below that of the least
positive number of the format. -/
def unitExponent (num den : Nat) : Int := max (log2Quotient num den - 52) (-1074)

/-- The natural nearest to `num / den` counted in its unit. -/
def units (num den : Nat) : Nat :=
  let unit := unitExponent num den
  nearest (num * Nat.pow 2 (-unit).toNat) (den * Nat.pow 2 unit.toNat)

/-- A natural with a sign. -/
def signed (negative : Bool) (m : Nat) : Int := if negative then -(m : Int) else m

@[simp] theorem natAbs_signed (negative : Bool) (m : Nat) : (signed negative m).natAbs = m := by
  cases negative with
  | true => exact Int.natAbs_neg m
  | false => rfl

theorem signed_natAbs (n : Int) : signed (n < 0) n.natAbs = n := by
  rw [signed]
  split
  · next hneg =>
    have hneg : n < 0 := of_decide_eq_true hneg
    omega
  · next hnot =>
    have hnot : ¬n < 0 := of_decide_eq_false (Bool.eq_false_iff.2 hnot)
    omega

/-- The rational `m * 2 ^ e`. -/
def scaled (m : Int) (e : Int) : Rat :=
  mkRat (m * (Nat.pow 2 e.toNat : Nat)) (Nat.pow 2 (-e).toNat)

/-- A rational of the format: an integer of at most fifty-three bits times a power of two, which is
neither too small nor too large for the format. -/
def OnGrid (q : Rat) : Prop :=
  ∃ m e : Int, m.natAbs < Nat.pow 2 53 ∧ -1074 ≤ e ∧ e ≤ 971 ∧ q = scaled m e

/-! ## Rationals of the format -/

theorem pow_two_pos (k : Nat) : 0 < Nat.pow 2 k := Nat.pow_pos (Nat.zero_lt_succ 1)

theorem pow_two_add (i j : Nat) : Nat.pow 2 (i + j) = Nat.pow 2 i * Nat.pow 2 j :=
  Nat.pow_add 2 i j

theorem neg_scaled (m e : Int) : -scaled m e = scaled (-m) e := by
  rw [scaled, scaled, Rat.neg_mkRat, Int.neg_mul]

theorem scaled_zero (m : Int) : scaled m 0 = m := by
  have hpow : Nat.pow 2 (-(0 : Int)).toNat = 1 := rfl
  have hunit : m * (Nat.pow 2 (0 : Int).toNat : Nat) = m := Int.mul_one m
  rw [scaled, hpow, hunit, Rat.mkRat_one]

/-- Twice as many units are as much as as many of twice the size. -/
theorem scaled_double (m e : Int) : scaled (2 * m) e = scaled m (e + 1) := by
  have hpow : ∀ k, Nat.pow 2 k ≠ 0 := fun k => Nat.ne_of_gt (pow_two_pos k)
  have htwo : Nat.pow 2 1 = 2 := rfl
  rw [scaled, scaled, Rat.mkRat_eq_iff (hpow _) (hpow _)]
  by_cases he : 0 ≤ e
  · have hup : (e + 1).toNat = 1 + e.toNat := by omega
    have hdown : (-(e + 1)).toNat = (-e).toNat := by omega
    rw [hup, hdown, pow_two_add, htwo, Int.natCast_mul, Int.mul_assoc 2, Int.mul_left_comm 2]
    rfl
  · have hup : (e + 1).toNat = e.toNat := by omega
    have hdown : (-e).toNat = 1 + (-(e + 1)).toNat := by omega
    rw [hup, hdown, pow_two_add, htwo, Int.natCast_mul, Int.mul_assoc 2, Int.mul_comm 2,
      Int.mul_assoc, Int.mul_assoc, Int.mul_assoc]
    rfl

theorem OnGrid.neg {q : Rat} (h : OnGrid q) : OnGrid (-q) := by
  obtain ⟨m, e, hm, hlow, hhigh, rfl⟩ := h
  exact ⟨-m, e, by rwa [Int.natAbs_neg], hlow, hhigh, neg_scaled m e⟩

/-- As many units as fifty-three bits can count, and one more, make a rational of the format, unless
it is too large. -/
theorem onGrid_scaled {m e : Int} (hm : m.natAbs ≤ Nat.pow 2 53) (hlow : -1074 ≤ e)
    (hhigh : e ≤ 971) (hover : ¬(e = 971 ∧ m.natAbs = Nat.pow 2 53)) : OnGrid (scaled m e) := by
  rcases Nat.lt_or_eq_of_le hm with hlt | hcarry
  · exact ⟨m, e, hlt, hlow, hhigh, rfl⟩
  · have he : e ≠ 971 := fun he => hover ⟨he, hcarry⟩
    have hdouble : Nat.pow 2 53 = 2 * Nat.pow 2 52 := rfl
    have hpos : 0 < Nat.pow 2 52 := pow_two_pos 52
    -- A carry into the fifty-fourth bit leaves that bit alone behind.
    obtain ⟨k, rfl, hk⟩ : ∃ k : Int, m = 2 * k ∧ k.natAbs = Nat.pow 2 52 := by
      rcases Int.natAbs_eq m with hpos | hneg
      · exact ⟨(Nat.pow 2 52 : Nat), by omega, by omega⟩
      · exact ⟨-(Nat.pow 2 52 : Nat), by omega, by omega⟩
    exact ⟨k, e + 1, by omega, by omega, by omega, scaled_double k e⟩

theorem onGrid_signed (negative : Bool) {m : Nat} {e : Int} (hm : m < Nat.pow 2 53)
    (hlow : -1074 ≤ e) (hhigh : e ≤ 971) : OnGrid (scaled (signed negative m) e) :=
  ⟨signed negative m, e, (natAbs_signed negative m).symm ▸ hm, hlow, hhigh, rfl⟩

/-- An integer of at most fifty-three bits is a rational of the format. -/
theorem onGrid_intCast {n : Int} (h : n.natAbs ≤ Nat.pow 2 53) : OnGrid n := by
  rw [← scaled_zero]
  exact onGrid_scaled h (by decide) (by decide) fun h => absurd h.1 (by decide)

theorem onGrid_of_whole {q : Rat} (h : q.den = 1 ∧ q.num.natAbs ≤ Nat.pow 2 53) : OnGrid q := by
  have hq : q = (q.num : Rat) := Rat.ext rfl h.1
  rw [hq]
  exact onGrid_intCast h.2

theorem onGrid_natCast {n : Nat} (h : n ≤ Nat.pow 2 53) : OnGrid n :=
  onGrid_intCast (n := n) h

theorem onGrid_zero : OnGrid 0 := onGrid_natCast (n := 0) (Nat.zero_le _)

/-! ## The unit of a rational -/

/-- The comparison of a quotient with a power of two may be written with any two exponents that
differ by that of the power. -/
theorem mul_pow_lt_iff {num den i j : Nat} {e : Int} (h : e = (i : Int) - j) :
    num * Nat.pow 2 (-e).toNat < den * Nat.pow 2 e.toNat ↔
      num * Nat.pow 2 j < den * Nat.pow 2 i := by
  obtain ⟨k, rfl, rfl⟩ : ∃ k, i = e.toNat + k ∧ j = (-e).toNat + k :=
    ⟨min i j, by omega, by omega⟩
  rw [pow_two_add, pow_two_add, ← Nat.mul_assoc, ← Nat.mul_assoc]
  exact (Nat.mul_lt_mul_right (pow_two_pos k)).symm

/-- A quotient is below the power of two that comes behind its size. -/
theorem mul_pow_lt_log2 {num den : Nat} (hden : 0 < den) :
    num * Nat.pow 2 (-(log2Quotient num den + 1)).toNat <
      den * Nat.pow 2 (log2Quotient num den + 1).toNat := by
  rw [log2Quotient]
  split
  · have hnum : num < Nat.pow 2 (num.log2 + 1) := Nat.lt_log2_self
    have hlow : Nat.pow 2 den.log2 ≤ den := Nat.log2_self_le (Nat.ne_of_gt hden)
    have hsize : (num.log2 : Int) - den.log2 + 1 = (num.log2 + 1 : Nat) - (den.log2 : Nat) := by
      omega
    rw [mul_pow_lt_iff hsize]
    calc num * Nat.pow 2 den.log2
        ≤ num * den := Nat.mul_le_mul_left _ hlow
      _ < Nat.pow 2 (num.log2 + 1) * den := Nat.mul_lt_mul_of_pos_right hnum hden
      _ = den * Nat.pow 2 (num.log2 + 1) := Nat.mul_comm _ _
  · next habove =>
    rw [Int.sub_add_cancel]
    exact Nat.not_le.1 habove

theorem nearest_le {num den bound : Nat} (h : num < den * bound) : nearest num den ≤ bound := by
  have hquotient : num / den < bound := Nat.div_lt_of_lt_mul h
  rw [nearest]
  split
  · exact Nat.le_of_lt hquotient
  · split
    · exact hquotient
    · omega

/-- **A quotient comes near no more than `2 ^ 53` units**, if the unit is the last of fifty-three
bits or larger. -/
theorem nearest_le_of_log2 {num den : Nat} (hden : 0 < den) {unit : Int}
    (hunit : log2Quotient num den - 52 ≤ unit) :
    nearest (num * Nat.pow 2 (-unit).toNat) (den * Nat.pow 2 unit.toNat) ≤ Nat.pow 2 53 := by
  apply nearest_le
  -- The unit is as much above the size of the quotient as `k` says, less fifty-three bits.
  obtain ⟨k, hk⟩ : ∃ k : Nat, log2Quotient num den + 1 + k = unit + 53 :=
    ⟨(unit + 52 - log2Quotient num den).toNat, by omega⟩
  have hbelow := @mul_pow_lt_log2 num den hden
  rw [Nat.mul_assoc, ← pow_two_add]
  generalize log2Quotient num den + 1 = size at hbelow hk
  have hshort : size = (unit.toNat + 53 : Nat) - ((-unit).toNat + k : Nat) := by omega
  rw [mul_pow_lt_iff hshort, pow_two_add (-unit).toNat, ← Nat.mul_assoc] at hbelow
  exact Nat.lt_of_le_of_lt (Nat.le_mul_of_pos_right _ (pow_two_pos k)) hbelow

/-- What is nearest to a quotient is a rational of the format, unless it is too large. -/
theorem onGrid_units (negative : Bool) {num den : Nat} (hden : 0 < den)
    (h : ¬(971 < unitExponent num den ∨
      unitExponent num den = 971 ∧ units num den = Nat.pow 2 53)) :
    OnGrid (scaled (signed negative (units num den)) (unitExponent num den)) := by
  have hle : units num den ≤ Nat.pow 2 53 := nearest_le_of_log2 hden (Int.le_max_left _ _)
  have hlow : -1074 ≤ unitExponent num den := Int.le_max_right _ _
  rw [not_or] at h
  refine onGrid_scaled ?_ hlow (Int.not_lt.1 h.1) ?_
  · rwa [natAbs_signed]
  · rw [natAbs_signed]
    exact h.2

end Stencil.Number
