import Stencil.Number.Arithmetic
import Stencil.Value.Display

/-!
# Operators on values

Every operator of the expression language that depends on its operands' values only.  An operator
without a meaning for its operands is a fault; the evaluation logs it and goes on without a value.
-/

namespace Stencil.Value

/-- Why an operation has no result. -/
inductive Fault
  /-- An operator without a meaning for the kinds of its operands. -/
  | unsupported (operator : Text) (left right : Kind)
  /-- A division by one of the zeros. -/
  | zeroDivisor
  /-- The negation of something other than a number. -/
  | notNegatable (kind : Kind)
  /-- The search in something that holds nothing. -/
  | notContainer (kind : Kind)
deriving DecidableEq

/-- The explanation of a fault. -/
def Fault.message : Fault → Text
  | unsupported operator left right =>
    "tried to use ".toList ++ operator ++ " operator on unsupported types ".toList ++ left.name ++
      " and ".toList ++ right.name
  | zeroDivisor => "tried to divide by zero".toList
  | notNegatable kind => "cannot negate value of type ".toList ++ kind.name
  | notContainer kind => "cannot perform a containment check on value of type ".toList ++ kind.name

/-- An operation on two numbers; other operands are not supported. -/
def arithmetic (operator : String) (f : Number → Number → Number) (x y : Value) :
    Except Fault Value :=
  match x, y with
  | number a, number b => .ok (number (f a b))
  | _, _ => .error (.unsupported operator.toList x.kind y.kind)

/-- The sum of two values: the joined display texts if one of them is a string, the joined items of
two sequences, or the sum of two numbers. -/
def add (x y : Value) : Except Fault Value :=
  match x, y with
  | string _, _ | _, string _ => .ok (string (x.text ++ y.text))
  | sequence xs, sequence ys => .ok (sequence (xs ++ ys))
  | _, _ => arithmetic "+" Number.add x y

/-- The difference of two numbers. -/
def sub : Value → Value → Except Fault Value := arithmetic "-" Number.sub

/-- The product of two numbers. -/
def mul : Value → Value → Except Fault Value := arithmetic "*" Number.mul

/-- The quotient of two numbers, of which the second is not zero. -/
def div (x y : Value) : Except Fault Value :=
  match x, y with
  | number _, number b => if b.isZero then .error .zeroDivisor else arithmetic "/" Number.div x y
  | _, _ => arithmetic "/" Number.div x y

/-- The power of two numbers. -/
def pow : Value → Value → Except Fault Value := arithmetic "**" Number.pow

/-- The number of the other sign. -/
def neg : Value → Except Fault Value
  | number x => .ok (number x.neg)
  | v => .error (.notNegatable v.kind)

/-- The order of two strings by code points. -/
def compareTexts (s t : Text) : Ordering := if s < t then .lt else if s = t then .eq else .gt

/-- The order of two numbers or of two strings; there is none between other values. -/
def compare? : Value → Value → Option Ordering
  | number x, number y => x.compare? y
  | string s, string t => some (compareTexts s t)
  | _, _ => none

/-- Whether the first value holds the second: a string holds a display text, a sequence an equal
item, a map a key, for which a number stands by its text. -/
def contains (container v : Value) : Except Fault Bool :=
  match container with
  | string s => .ok (Text.includes s v.text)
  | sequence items => .ok (items.any fun item => item.same v)
  | map entries =>
    match v with
    | string key => .ok (entries.binds key)
    | number x => .ok (entries.binds x.text)
    | _ => .ok false
  | _ => .error (.notContainer container.kind)

/-- A test of a string against the display text of another value. -/
def stringTest (operator : String) (test : Text → Text → Bool) (x y : Value) : Except Fault Bool :=
  match x with
  | string s => .ok (test s y.text)
  | _ => .error (.unsupported operator.toList x.kind y.kind)

/-- Whether a string begins with the display text of a value. -/
def beginsWith : Value → Value → Except Fault Bool := stringTest "beginswith" Text.startsWith

/-- Whether a string ends with the display text of a value. -/
def endsWith : Value → Value → Except Fault Bool := stringTest "endswith" Text.endsWith

end Stencil.Value
