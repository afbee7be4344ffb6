import Stencil.Number.Grid

/-!
# Numbers

The numbers of the template language are those of the binary64 format of IEEE 754, held exactly: a
finite number is a rational on the grid of the format, and every operation computes with rationals
first and rounds once.

## Main Definitions

* `Number` — not a number, the infinities, the negative zero, and the rationals of the grid
* `Number.round` — the nearest number of a rational, a tie going to the even neighbour
* `Number.ofNat` — the number of a count
* `Number.compare?` — the order of two numbers, if they have one

## Design Notes

A finite number carries the proof that it is of the format, so there are no others.  Zero is the
only finite value with two numbers: that of `real` is the positive zero.  The comparison identifies
the two; equality of terms does not.
-/

namespace Stencil

/-- A number in the binary64 format. -/
inductive Number
  /-- The result of an operation without a meaning. -/
  | nan
  /-- An infinity with its sign. -/
  | infinite (negative : Bool)
  /-- The zero below zero. -/
  | negativeZero
  /-- A finite number. -/
  | real (value : Rat) (grid : Number.OnGrid value)
deriving DecidableEq, Inhabited

namespace Number

/-- The zero of the given sign. -/
def zero (negative : Bool) : Number := if negative then negativeZero else real 0 onGrid_zero

/-- The number of some units, with the sign given. -/
def ofUnits (negative : Bool) (m : Nat) (unit : Int)
    (grid : OnGrid (scaled (signed negative m) unit)) : Number :=
  if m = 0 then zero negative else real (scaled (signed negative m) unit) grid

/-- The number nearest to `num / den`, with the sign given: the unit of the last of fifty-three
bits is chosen first, never below `2 ^ (-1074)`.  A carry into the fifty-fourth bit needs no
second step, since `2 ^ 53` units are on the grid again. -/
def roundQuotient (negative : Bool) (num den : Nat) (hden : 0 < den) : Number :=
  let unit := unitExponent num den
  let m := units num den
  if h : 971 < unit ∨ unit = 971 ∧ m = Nat.pow 2 53 then infinite negative
  else ofUnits negative m unit (onGrid_units negative hden h)

/-- The number nearest to a rational, a tie going to the even neighbour: fifty-three significant
bits, no bit below `2 ^ (-1074)`, and infinity from `2 ^ 1024` on.  A rational that rounds to zero
keeps its sign.  Integers of at most fifty-three bits are their own numbers. -/
def round (q : Rat) : Number :=
  if h : q.den = 1 ∧ q.num.natAbs ≤ Nat.pow 2 53 then real q (onGrid_of_whole h)
  else roundQuotient (q.num < 0) q.num.natAbs q.den q.den_pos

/-- The number of a count, rounded if it has more than fifty-three bits. -/
def ofNat (n : Nat) : Number := round n

/-- Counts up to `2 ^ 53` are numbers without rounding. -/
theorem ofNat_of_le {n : Nat} (h : n ≤ Nat.pow 2 53) : ofNat n = real n (onGrid_natCast h) := by
  have hn : (n : Rat).den = 1 ∧ (n : Rat).num.natAbs ≤ Nat.pow 2 53 := ⟨by simp, by simpa using h⟩
  rw [ofNat, round, dif_pos hn]

/-- Whether a number is below zero; the negative zero counts, not a number does not. -/
def isNegative : Number → Bool
  | nan => false
  | infinite negative => negative
  | negativeZero => true
  | real q _ => q.num < 0

/-- Whether a number is one of the two zeros. -/
def isZero : Number → Bool
  | negativeZero => true
  | real q _ => q.num == 0
  | _ => false

/-- Whether a number is neither an infinity nor not a number. -/
def isFinite : Number → Bool
  | nan | infinite _ => false
  | negativeZero | real _ _ => true

/-- The integer that a number is, if it is one. -/
def whole? : Number → Option Int
  | negativeZero => some 0
  | real q _ => if q.den = 1 then some q.num else none
  | _ => none

/-- The order of two rationals. -/
def compareRat (p q : Rat) : Ordering := if p < q then .lt else if p = q then .eq else .gt

/-- The rational of a finite number, zero for the others. -/
def value : Number → Rat
  | real q _ => q
  | _ => 0

/-- The order of two numbers.  Not a number has no order, not even to itself, and the two zeros
are equal. -/
def compare? (x y : Number) : Option Ordering :=
  match x, y with
  | nan, _ | _, nan => none
  | infinite a, infinite b => some (if a = b then .eq else if a then .lt else .gt)
  | infinite a, _ => some (if a then .lt else .gt)
  | _, infinite b => some (if b then .gt else .lt)
  | x, y => some (compareRat x.value y.value)

/-- Whether two numbers are equal in the sense of their order. -/
def same (x y : Number) : Bool := compare? x y == some .eq

end Number

end Stencil
