import Stencil.Number.Basic

/-!
# Arithmetic

The four operations round the exact rational result once; what infinities, zeros and not a number
do is the table of IEEE 754.  Powers come from the platform's `pow`, reached through the bits of
the format.
-/

namespace Stencil.Number

/-- The number of the other sign. -/
def neg : Number → Number
  | nan => nan
  | infinite negative => infinite (!negative)
  | negativeZero => zero false
  | real q grid => if q.num = 0 then negativeZero else real (-q) grid.neg

/-- The sum of two numbers.  Two numbers that cancel give the positive zero. -/
def add : Number → Number → Number
  | nan, _ | _, nan => nan
  | infinite a, infinite b => if a = b then infinite a else nan
  | infinite a, _ | _, infinite a => infinite a
  | negativeZero, y => y
  | x, negativeZero => x
  | real p _, real q _ => round (p + q)

/-- The difference of two numbers. -/
def sub (x y : Number) : Number := add x (neg y)

/-- The product of two numbers. -/
def mul : Number → Number → Number
  | nan, _ | _, nan => nan
  | infinite a, y => if y.isZero then nan else infinite (a != y.isNegative)
  | x, infinite b => if x.isZero then nan else infinite (x.isNegative != b)
  | real p _, real q _ =>
    if p.num = 0 ∨ q.num = 0 then zero (decide (p.num < 0) != decide (q.num < 0)) else round (p * q)
  | x, y => zero (x.isNegative != y.isNegative)

/-- The quotient of two numbers. -/
def div : Number → Number → Number
  | nan, _ | _, nan => nan
  | infinite _, infinite _ => nan
  | infinite a, y => infinite (a != y.isNegative)
  | x, infinite b => zero (x.isNegative != b)
  | x, y =>
    let negative := x.isNegative != y.isNegative
    if y.isZero then if x.isZero then nan else infinite negative
    else
      match x, y with
      | real p _, real q _ => if p.num = 0 then zero negative else round (p / q)
      | _, _ => zero negative

/-- The number as the platform's binary64 value. -/
def toFloat : Number → Float
  | nan => 0.0 / 0.0
  | infinite negative => if negative then -1.0 / 0.0 else 1.0 / 0.0
  | negativeZero => -0.0
  | real q _ => Float.scaleB (Float.ofInt q.num) (-(q.den.log2 : Int))

/-- Fifty-two bits stand for a rational of the format, in the least unit. -/
theorem onGrid_subnormal (negative : Bool) (n : Nat) :
    OnGrid (scaled (signed negative (n % Nat.pow 2 52)) (-1074)) := by
  have hfraction : n % Nat.pow 2 52 < Nat.pow 2 52 := Nat.mod_lt _ (pow_two_pos 52)
  exact onGrid_signed negative (Nat.lt_trans hfraction (by decide)) (by decide) (by decide)

/-- Fifty-two bits with a leading one stand for a rational of the format, in the unit of the
exponent. -/
theorem onGrid_normal (negative : Bool) (n : Nat) {exponent : Nat} (hzero : exponent ≠ 0)
    (hhigh : exponent < 2047) :
    OnGrid (scaled (signed negative (n % Nat.pow 2 52 + Nat.pow 2 52)) (exponent - 1075)) := by
  have hfraction : n % Nat.pow 2 52 < Nat.pow 2 52 := Nat.mod_lt _ (pow_two_pos 52)
  have hdouble : Nat.pow 2 53 = Nat.pow 2 52 + Nat.pow 2 52 := rfl
  exact onGrid_signed negative (by omega) (by omega) (by omega)

/-- The number that a pattern of sixty-four bits stands for: a sign, eleven bits of exponent and
fifty-two bits of fraction. -/
def ofBits (bits : UInt64) : Number :=
  let n := bits.toNat
  let negative := decide (Nat.pow 2 63 ≤ n)
  let exponent : Nat := n / Nat.pow 2 52 % Nat.pow 2 11
  let fraction : Nat := n % Nat.pow 2 52
  if hzero : exponent = 0 then ofUnits negative fraction (-1074) (onGrid_subnormal negative n)
  else if hhigh : exponent < 2047 then
    ofUnits negative (fraction + Nat.pow 2 52) (exponent - 1075)
      (onGrid_normal negative n hzero hhigh)
  else if fraction = 0 then infinite negative else nan

/-- The first number to the power of the second. -/
def pow (x y : Number) : Number := ofBits (Float.pow x.toFloat y.toFloat).toBits

end Stencil.Number
