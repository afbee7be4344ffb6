import Stencil.Text.Basic
import Stencil.Number.Decimal

/-!
# Number texts

Two layouts show the shortest digits of a number; they differ in the digits only if the number is in
the middle between two shortest decimals.  In the output of a template a number is never
written with an exponent; in compact JSON very large and very small numbers are.
-/

namespace Stencil.Number

/-- The decimal digits of an integer, after a minus sign if it is negative. -/
def integerText (n : Int) : Text :=
  if n < 0 then '-' :: Nat.toDigits 10 n.natAbs else Nat.toDigits 10 n.natAbs

/-- The digits of `d * 10 ^ e` with the point at its place; an integer has no point. -/
def positional (d : Nat) (e : Int) : Text :=
  let digits := Nat.toDigits 10 d
  if 0 ≤ e then digits ++ List.replicate e.toNat '0'
  else
    let places := (-e).toNat
    if places < digits.length then
      digits.take (digits.length - places) ++ ['.'] ++ digits.drop (digits.length - places)
    else ['0', '.'] ++ List.replicate (places - digits.length) '0' ++ digits

/-- The integer that a number is, if it is one of less than eighteen digits. -/
def shortInteger? (x : Number) : Option Int :=
  match x.whole? with
  | some n => if n.natAbs < Nat.pow 10 17 then some n else none
  | none => none

/-- The text of a number in the output: an integer below `10 ^ 17` by its digits, without a sign
for either zero, and any other finite number by its shortest digits, never with an exponent.  In the
middle between two decimals the greater one in size is written. -/
def text (x : Number) : Text :=
  match x.shortInteger? with
  | some n => integerText n
  | none =>
    match x with
    | nan => "NaN".toList
    | infinite negative => (if negative then ['-'] else []) ++ "inf".toList
    | negativeZero => ['0']
    | real q _ =>
      let (d, e) := shortest .up (if q.num < 0 then -q else q)
      (if q.num < 0 then ['-'] else []) ++ positional d e

/-- The digits of `d * 10 ^ e` in scientific notation: one digit before the point, and the
exponent with its sign. -/
def scientific (d : Nat) (e : Int) : Text :=
  let digits := Nat.toDigits 10 d
  let exponent := e + (digits.length : Int) - 1
  let fraction := digits.tail
  digits.take 1 ++ (if fraction.isEmpty then [] else '.' :: fraction) ++ ['e'] ++
    (if exponent < 0 then ['-'] else ['+']) ++ Nat.toDigits 10 exponent.natAbs

/-- The text of a finite number in compact JSON: by position if the first digit is at most sixteen
places before and at most five places after the point, with `.0` after an integer, and in
scientific notation otherwise.  In the middle between two decimals the one with an even last digit
is written.  There is no text for the numbers JSON cannot write. -/
def jsonText? : Number → Option Text
  | nan => none
  | infinite _ => none
  | negativeZero => some "-0.0".toList
  | real q _ =>
    if q.num = 0 then some "0.0".toList
    else
      let (d, e) := shortest .even (if q.num < 0 then -q else q)
      let point := e + ((Nat.toDigits 10 d).length : Int)
      let body :=
        if -5 < point ∧ point ≤ 16 then
          positional d e ++ (if 0 ≤ e then ['.', '0'] else [])
        else scientific d e
      some ((if q.num < 0 then ['-'] else []) ++ body)

end Stencil.Number
