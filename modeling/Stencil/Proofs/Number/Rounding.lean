import Mathlib.Tactic.Common
import Stencil.Number.Arithmetic

/-!
# Integers of the format

An integer that is a number of the format stays the same when it is rounded
(`Number.round_of_onGrid`).  That goes beyond `2 ^ 53` too, where most integers are not of the
format: the unit that is chosen for rounding goes by the length of the integer, and so it divides
the power of two that the integer is a multiple of.
-/

namespace Stencil.Number

theorem log2Quotient_one {n : Nat} (h : n ≠ 0) : log2Quotient n 1 = n.log2 := by
  have hle : Nat.pow 2 n.log2 ≤ n := Nat.log2_self_le h
  have hone : (Nat.log2 1 : Int) = 0 := by decide
  rw [log2Quotient, hone, Int.sub_zero, Int.toNat_natCast, Int.toNat_neg_natCast, Nat.one_mul]
  exact if_pos (Nat.le_trans hle (Nat.le_of_eq (Nat.mul_one n).symm))

theorem nearest_mul {den : Nat} (h : 0 < den) (k : Nat) : nearest (den * k) den = k := by
  rw [nearest, Nat.mul_mod_right, Nat.mul_div_cancel_left k h]
  exact if_pos h

theorem scaled_natCast (m : Int) (k : Nat) : scaled m k = (m * (Nat.pow 2 k : Nat) : Int) := by
  rw [scaled, Int.toNat_natCast, Int.toNat_neg_natCast]
  exact Rat.mkRat_one _

theorem signed_mul (negative : Bool) (m n : Nat) :
    signed negative (m * n) = signed negative m * n := by
  cases negative with
  | true => exact (congrArg Neg.neg (Int.natCast_mul m n)).trans (Int.neg_mul _ _).symm
  | false => exact Int.natCast_mul m n

/-- An integer on the grid of more than fifty-three bits is a multiple of its unit, and no carry
comes out of it. -/
theorem exists_unit_of_onGrid {n k e : Nat} (hk : k < Nat.pow 2 53) (he : e ≤ 971)
    (hn : n = k * Nat.pow 2 e) (hlarge : Nat.pow 2 53 < n) :
    ∃ u j : Nat, unitExponent n 1 = u ∧ u ≤ 971 ∧ units n 1 = j ∧ j < Nat.pow 2 53 ∧ j ≠ 0 ∧
      j * Nat.pow 2 u = n := by
  have hne : n ≠ 0 := by omega
  have hlow : 2 ^ n.log2 ≤ n := Nat.log2_self_le hne
  have hhigh : n < 2 ^ (n.log2 + 1) := Nat.lt_log2_self
  -- The integer has more than fifty-two bits, and its unit is one of the powers of two in it.
  obtain ⟨u, hu⟩ : ∃ u, n.log2 = 52 + u := by
    have hle : 52 ≤ n.log2 := (Nat.le_log2 hne).2 (Nat.le_of_lt (Nat.lt_trans (by decide) hlarge))
    exact ⟨n.log2 - 52, (Nat.add_sub_cancel' hle).symm⟩
  have hue : u ≤ e := by
    have hbelow : n < 2 ^ (53 + e) := by
      rw [hn, Nat.pow_add]
      exact Nat.mul_lt_mul_of_pos_right hk (Nat.pow_pos (by decide))
    have hpow := (Nat.pow_lt_pow_iff_right (by decide)).1 (Nat.lt_of_le_of_lt hlow hbelow)
    omega
  obtain ⟨j, rfl⟩ : ∃ j, n = 2 ^ u * j := by
    refine ⟨k * 2 ^ (e - u), ?_⟩
    rw [hn, Nat.mul_left_comm, ← Nat.pow_add, Nat.add_sub_cancel' hue]
    rfl
  have hj : j < 2 ^ 53 := by
    have hsplit : 2 ^ ((2 ^ u * j).log2 + 1) = 2 ^ u * 2 ^ 53 := by
      rw [hu, ← Nat.pow_add]
      congr 1
      omega
    rw [hsplit] at hhigh
    exact Nat.lt_of_mul_lt_mul_left hhigh
  have hunit : unitExponent (2 ^ u * j) 1 = (u : Int) := by
    rw [unitExponent, log2Quotient_one hne, hu]
    omega
  have hunits : units (2 ^ u * j) 1 = j := by
    rw [units, hunit, Int.toNat_neg_natCast, Int.toNat_natCast, Nat.one_mul]
    exact (congrArg₂ nearest (Nat.mul_one _) rfl).trans (nearest_mul (Nat.pow_pos (by decide)) j)
  have hzero : j ≠ 0 := by
    rintro rfl
    exact hne (Nat.mul_zero _)
  exact ⟨u, j, hunit, Nat.le_trans hue he, hunits, hj, hzero, Nat.mul_comm _ _⟩

/-- An integer of the format of more than fifty-three bits is rounded to itself. -/
theorem roundQuotient_one {n : Int} {k e : Nat} (hk : k < Nat.pow 2 53) (he : e ≤ 971)
    (hn : n.natAbs = k * Nat.pow 2 e) (hlarge : Nat.pow 2 53 < n.natAbs) (grid : OnGrid n) :
    roundQuotient (n < 0) n.natAbs 1 Nat.one_pos = real n grid := by
  obtain ⟨u, j, hunit, hu, hunits, hj, hzero, hvalue⟩ := exists_unit_of_onGrid hk he hn hlarge
  have hfinite : ¬(971 < unitExponent n.natAbs 1 ∨
      unitExponent n.natAbs 1 = 971 ∧ units n.natAbs 1 = Nat.pow 2 53) := by
    rw [hunit, hunits]
    rintro (hover | ⟨-, rfl⟩)
    · omega
    · exact Nat.lt_irrefl _ hj
  have hscaled : scaled (signed (n < 0) j) u = n := by
    rw [scaled_natCast, ← signed_mul, hvalue, signed_natAbs]
  rw [roundQuotient, dif_neg hfinite, ofUnits, if_neg (hunits ▸ hzero), real.injEq, hunit, hunits,
    hscaled]

/-- **An integer of the format stays the same when it is rounded.** -/
theorem round_of_onGrid {n : Int} (grid : OnGrid n) : round n = real n grid := by
  have hgrid := grid
  obtain ⟨m, e, hm, -, he, hscaled⟩ := hgrid
  by_cases hsmall : n.natAbs ≤ Nat.pow 2 53
  · exact dif_pos ⟨Rat.den_intCast n, by rwa [Rat.num_intCast]⟩
  · have hpow : ∀ k, Nat.pow 2 k ≠ 0 := fun k => Nat.ne_of_gt (pow_two_pos k)
    rw [← Rat.mkRat_one, scaled, Rat.mkRat_eq_iff Nat.one_ne_zero (hpow _)] at hscaled
    have habs := congrArg Int.natAbs hscaled
    simp only [Int.natAbs_mul, Int.natAbs_natCast, Nat.mul_one] at habs
    -- An integer of more than fifty-three bits has a power of two that is an integer.
    obtain ⟨k, rfl⟩ : ∃ k : Nat, e = k := by
      refine Int.eq_ofNat_of_zero_le (Int.not_lt.1 fun hneg => hsmall ?_)
      rw [Int.toNat_eq_zero.2 (Int.le_of_lt hneg)] at habs
      have hle : n.natAbs ≤ n.natAbs * Nat.pow 2 (-e).toNat :=
        Nat.le_mul_of_pos_right _ (pow_two_pos _)
      rw [habs] at hle
      exact Nat.le_of_lt (Nat.lt_of_le_of_lt hle ((Nat.mul_one _).symm ▸ hm))
    rw [Int.toNat_natCast, Int.toNat_neg_natCast] at habs
    have hnatAbs : n.natAbs = m.natAbs * Nat.pow 2 k := (Nat.mul_one _).symm.trans habs
    have hlarge : Nat.pow 2 53 < n.natAbs := Nat.not_le.1 hsmall
    have hround : ¬((n : Rat).den = 1 ∧ (n : Rat).num.natAbs ≤ Nat.pow 2 53) :=
      fun h => hsmall (Rat.num_intCast n ▸ h.2)
    rw [round, dif_neg hround]
    simp only [Rat.num_intCast, Rat.den_intCast]
    exact roundQuotient_one hm (Int.ofNat_le.1 he) hnatAbs hlarge grid

end Stencil.Number
