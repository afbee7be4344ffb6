import Stencil.Number.Basic

/-!
# Decimal numbers

Between decimal digits and numbers there are two directions.  A numeral stands for the number
nearest to it, and a number is written with the fewest digits that read back, those nearest to it
if there is a choice.  Two decimals may be equally near; which of them is written is left to the
layout.

## Main Definitions

* `Number.ofDecimal` — the number of a decimal
* `Number.Tie` — what to do in the middle between two decimals
* `Number.shortest` — the shortest decimal of a number
-/

namespace Stencil.Number

/-- The rational `10 ^ e`. -/
def tenPower (e : Int) : Rat := mkRat (Nat.pow 10 e.toNat : Nat) (Nat.pow 10 (-e).toNat)

/-- The number nearest to `m * 10 ^ e`.  From `10 ^ 310` on it is infinity and below
`10 ^ (-330)` it is zero, so that no power of ten far outside the range is ever computed. -/
def ofDecimal (m : Nat) (e : Int) : Number :=
  if m = 0 ∨ (m.log2 : Int) + 1 + e ≤ -330 then zero false
  else if 310 ≤ e then infinite false
  else if e = 0 then ofNat m
  else round ((m : Rat) * tenPower e)

/-- A numeral without an exponent stands for a count. -/
theorem ofDecimal_zero (m : Nat) : ofDecimal m 0 = ofNat m := by
  by_cases hm : m = 0
  · subst hm
    rfl
  · have hsmall : ¬(m = 0 ∨ (m.log2 : Int) + 1 + 0 ≤ -330) := by omega
    have hlarge : ¬((310 : Int) ≤ 0) := by decide
    rw [ofDecimal, if_neg hsmall, if_neg hlarge, if_pos rfl]

/-- The exponent of the greatest power of ten that is not above a positive rational. -/
def log10 (q : Rat) : Int :=
  let estimate := log2Quotient q.num.natAbs q.den * 30103 / 100000
  if tenPower (estimate + 1) ≤ q then estimate + 1
  else if tenPower estimate ≤ q then estimate
  else estimate - 1

/-- Which of two decimals is taken if the number is in the middle between them. -/
inductive Tie
  /-- The one farther from zero. -/
  | up
  /-- The one whose last digit is even. -/
  | even
deriving DecidableEq, Repr

/-- The decimal that is taken in the middle between `below` and its successor. -/
def Tie.choose : Tie → Nat → Nat
  | up, below => below + 1
  | even, below => below + below % 2

/-- The nearer of the two multiples of `10 ^ e` around a positive rational that round to it, if
one of them does. -/
def onGrid? (tie : Tie) (q : Rat) (e : Int) : Option Nat :=
  let unit := tenPower e
  let below := (q / unit).floor.toNat
  let readsBack (d : Nat) : Bool := (round ((d : Rat) * unit)).value = q
  match readsBack below, readsBack (below + 1) with
  | true, true =>
    let toBelow := q - (below : Rat) * unit
    let toAbove := (below + 1 : Rat) * unit - q
    if toBelow < toAbove then some below
    else if toAbove < toBelow then some (below + 1)
    else some (tie.choose below)
  | true, false => some below
  | false, true => some (below + 1)
  | false, false => none

/-- The digits and the exponent of the shortest decimal that reads back as a positive finite
number: the first of the grids from coarse to fine that holds such a decimal.  The coarsest one has
a single point near the number, the power of ten above it. -/
def shortest (tie : Tie) (q : Rat) : Nat × Int := search 18 (log10 q + 1)
where
  /-- Tries the grids from `10 ^ e` downwards, at most `grids` of them. -/
  search : Nat → Int → Nat × Int
    | 0, e => ((q / tenPower e).floor.toNat, e)
    | grids + 1, e =>
      match onGrid? tie q e with
      | some d => (d, e)
      | none => search grids (e - 1)

end Stencil.Number
