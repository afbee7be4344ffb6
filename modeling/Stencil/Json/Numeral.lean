import Stencil.Number.Arithmetic
import Stencil.Number.Decimal
import Stencil.Json.Basic

/-!
# JSON numerals

A JSON numeral without a fraction and an exponent is an integer as long as it fits sixty-four
bits.  Every other numeral is read in two roundings: its digits, as far as they fit sixty-four bits,
become a number, which is then multiplied or divided by a power of ten.  A numeral beyond the
greatest number is refused.

## Main Definitions

* `Json.absorb` — collects digits into sixty-four bits
* `Json.shiftTens?` — a number times a power of ten
* `Json.readNumeral?` — the numeral at the start of a text
-/

namespace Stencil.Json

/-- Appends decimal digits to a significand as long as it fits sixty-four bits, and counts the
digits left over from the first that does not fit. -/
def absorb (significand : Nat) : Text → Nat × Nat
  | [] => (significand, 0)
  | c :: rest =>
    let next := 10 * significand + (c.toNat - '0'.toNat)
    if next < Nat.pow 2 64 then absorb next rest else (significand, rest.length + 1)

/-- The number `x * 10 ^ e` in steps of at most 308 decimal places, refused beyond the greatest
number. -/
def shiftTens? (x : Number) (e : Int) : Option Number :=
  if x.isZero then some x
  else if e < -308 then shiftTens? (x.div (.ofDecimal 1 308)) (e + 308)
  else if e < 0 then some (x.div (.ofDecimal 1 (-e)))
  else if e ≤ 308 then
    match x.mul (.ofDecimal 1 e) with
    | .infinite _ => none
    | y => some y
  else none
termination_by (-e).toNat
decreasing_by omega

/-- The float of a sign, a significand and a decimal exponent. -/
def floatOf? (negative : Bool) (significand : Nat) (e : Int) : Option Json :=
  (shiftTens? (.ofNat significand) e).map fun x => .number (.float (if negative then x.neg else x))

/-- The integer of a sign and a significand; the negative zero and what does not fit are floats. -/
def integerOf (negative : Bool) (significand : Nat) : Json :=
  if !negative then .number (.integer significand)
  else if significand = 0 ∨ Nat.pow 2 63 < significand then
    .number (.float (Number.ofNat significand).neg)
  else .number (.integer (-significand))

/-- The integer part of a numeral: a zero alone, or digits that start with another one. -/
def integerDigits? : Text → Option (Text × Text)
  | '0' :: rest =>
    match rest with
    | c :: _ => if c.isDigit then none else some (['0'], rest)
    | [] => some (['0'], [])
  | t =>
    match t.takeWhile Char.isDigit with
    | [] => none
    | digits => some (digits, t.dropWhile Char.isDigit)

/-- The fraction of a numeral, if it has one: a point and at least one digit. -/
def fractionDigits? : Text → Option (Text × Text)
  | '.' :: t =>
    match t.takeWhile Char.isDigit with
    | [] => none
    | digits => some (digits, t.dropWhile Char.isDigit)
  | t => some ([], t)

/-- The exponent of a numeral, if it has one: a letter, perhaps a sign, and at least one digit. -/
def exponent? : Text → Option (Option Int × Text)
  | c :: t =>
    if c = 'e' ∨ c = 'E' then
      let (negative, t) := match t with
        | '-' :: t => (true, t)
        | '+' :: t => (false, t)
        | t => (false, t)
      match t.takeWhile Char.isDigit with
      | [] => none
      | digits =>
        let n : Int := Nat.ofDigitChars 10 digits 0
        some (some (if negative then -n else n), t.dropWhile Char.isDigit)
    else some (none, c :: t)
  | [] => some (none, [])

/-- The numeral at the start of a text, and what follows it. -/
def readNumeral? (t : Text) : Option (Json × Text) := do
  let (negative, t) := match t with
    | '-' :: t => (true, t)
    | t => (false, t)
  let (whole, t) ← integerDigits? t
  let (fraction, t) ← fractionDigits? t
  let (exponent, t) ← exponent? t
  let (significand, dropped) := absorb 0 whole
  if dropped = 0 ∧ fraction = [] ∧ exponent = none then
    return (integerOf negative significand, t)
  else
    -- Digits that were dropped before the point do not keep those after it from being read.
    let (significand, unread) := absorb significand fraction
    let shift : Int := dropped - (fraction.length - unread : Nat) + exponent.getD 0
    let j ← floatOf? negative significand shift
    return (j, t)

end Stencil.Json
