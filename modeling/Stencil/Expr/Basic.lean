import Stencil.Value.Basic

/-!
# Expressions

The expression language as trees: constants, key paths, the parts of a value, the operators, and
list literals.
-/

namespace Stencil

/-- The operators between two operands. -/
inductive BinaryOp
  | eq
  | ne
  | lt
  | le
  | gt
  | ge
  | and
  | or
  | add
  | sub
  | mul
  | div
  | pow
  | isIn
  | contains
  | beginsWith
  | endsWith
deriving DecidableEq, Repr

/-- The usual spelling of an operator. -/
def BinaryOp.spelling : BinaryOp → Text
  | eq => "==".toList
  | ne => "!=".toList
  | lt => "<".toList
  | le => "<=".toList
  | gt => ">".toList
  | ge => ">=".toList
  | and => "and".toList
  | or => "or".toList
  | add => "+".toList
  | sub => "-".toList
  | mul => "*".toList
  | div => "/".toList
  | pow => "**".toList
  | isIn => "in".toList
  | contains => "contains".toList
  | beginsWith => "beginswith".toList
  | endsWith => "endswith".toList

/-- An expression. -/
inductive Expr
  /-- A literal. -/
  | const (v : Value)
  /-- A key path, looked up in the scope. -/
  | path (p : Text)
  /-- The part of a value that a piece of a key path leads to. -/
  | attr (object : Expr) (name : Text)
  /-- The part of a value that a subscript leads to. -/
  | item (object key : Expr)
  /-- The opposite truth. -/
  | not (operand : Expr)
  /-- The number of the other sign. -/
  | neg (operand : Expr)
  /-- An operator between two operands. -/
  | binary (op : BinaryOp) (left right : Expr)
  /-- A list of expressions. -/
  | list (items : List Expr)
deriving Inhabited

namespace Expr

mutual

/-- The height of an expression as a tree. -/
def height : Expr → Nat
  | const _ | path _ => 1
  | attr object _ => height object + 1
  | item object key => max (height object) (height key) + 1
  | not operand | neg operand => height operand + 1
  | binary _ left right => max (height left) (height right) + 1
  | list items => heightItems items + 1

/-- The greatest height of an item of a list. -/
def heightItems : List Expr → Nat
  | [] => 0
  | e :: rest => max (height e) (heightItems rest)

end

end Expr

end Stencil
