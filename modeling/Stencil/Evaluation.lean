import Stencil.Expr.Parser
import Stencil.Scope

/-!
# Evaluation

Evaluating an expression in a scope gives a value or nothing.  Nothing is what a lookup without an
answer, an operation without a result and a text that is no expression give; it never is an error,
only a note in the log.

## Main Definitions

* `Expr.eval` — the value of an expression
* `Switches`, `evaluate` — the value of a text, read as JSON, as an expression or as a key path
* `holds` — the truth of a text as a condition
-/

namespace Stencil

/-- The truth of what an evaluation gave; nothing is false. -/
def isTrue (v : Option Value) : Bool := v.any Value.isTrue

/-- The result of an operation, or nothing and a note about what went wrong. -/
def settle {α : Type} : Except Value.Fault α → Traced (Option α)
  | .ok a => pure (some a)
  | .error fault => ⟨none, [.noted (.operationFailed { cause := .operation fault })]⟩

/-- The truth of a test, false if the test has no meaning. -/
def settleTest (r : Except Value.Fault Bool) : Traced (Option Value) :=
  (settle r).map fun b => some (.bool (b.getD false))

/-- The result of a comparison, false if there is no order. -/
def ordered (test : Ordering → Bool) (x y : Value) : Traced (Option Value) :=
  pure (some (.bool ((x.compare? y).any test)))

/-- The result of an operator that needs the values of both operands. -/
def applyBinary (op : BinaryOp) (x y : Value) : Traced (Option Value) :=
  match op with
  | .eq => pure (some (.bool (x.same y)))
  | .ne => pure (some (.bool (!x.same y)))
  | .lt => ordered (·.isLT) x y
  | .le => ordered (·.isLE) x y
  | .gt => ordered (·.isGT) x y
  | .ge => ordered (·.isGE) x y
  | .isIn => settleTest (y.contains x)
  | .contains => settleTest (x.contains y)
  | .beginsWith => settleTest (x.beginsWith y)
  | .endsWith => settleTest (x.endsWith y)
  | .add => settle (x.add y)
  | .sub => settle (x.sub y)
  | .mul => settle (x.mul y)
  | .div => settle (x.div y)
  | .pow => settle (x.pow y)
  | .and => pure (some (.bool (x.isTrue && y.isTrue)))
  | .or => pure (some (.bool (x.isTrue || y.isTrue)))

namespace Expr

mutual

/-- The value of an expression in a scope.  `and` and `or` look at their right operand only if the
left one does not decide, and like `not` and lists they make do with nothing; every other form
needs the values of all its parts. -/
def eval (s : Scope) : Expr → Traced (Option Value)
  | const v => pure (some v)
  | path p => s.load p
  | attr object name => do
    match ← eval s object with
    | some v => pure (v.attr? name)
    | none => pure none
  | item object key => do
    match ← eval s object with
    | some v =>
      match ← eval s key with
      | some k => pure (v.item? k)
      | none => pure none
    | none => pure none
  | not operand => do
    let v ← eval s operand
    pure (some (.bool (!isTrue v)))
  | neg operand => do
    match ← eval s operand with
    | some v => settle v.neg
    | none => pure none
  | binary .and left right => do
    if isTrue (← eval s left) then
      let v ← eval s right
      pure (some (.bool (isTrue v)))
    else pure (some (.bool false))
  | binary .or left right => do
    if isTrue (← eval s left) then pure (some (.bool true))
    else
      let v ← eval s right
      pure (some (.bool (isTrue v)))
  | binary op left right => do
    match ← eval s left with
    | some x =>
      match ← eval s right with
      | some y => applyBinary op x y
      | none => pure none
    | none => pure none
  | list items => do
    let values ← evalItems s items
    pure (some (.sequence values))

/-- The values of the items of a list; where there is none, null stands. -/
def evalItems (s : Scope) : List Expr → Traced (List Value)
  | [] => pure []
  | e :: rest => do
    let v ← eval s e
    let values ← evalItems s rest
    pure (v.getD .null :: values)

end

end Expr

/-- How a text may be read. -/
structure Switches where
  /-- A text that starts like a JSON array or object may be one. -/
  allowJson : Bool
  /-- A text may be an expression; otherwise it is a key path. -/
  allowExpressions : Bool
deriving DecidableEq, Repr

namespace Switches

/-- Everything is allowed. -/
def all : Switches := ⟨true, true⟩

/-- Whether a character shows that a text is more than a key path. -/
def marksExpression (c : Char) : Bool := "*-+()[]=/".toList.contains c || c.isDigit

/-- How the body of a value tag is read: never as JSON, and as an expression only if some character
shows that it is one. -/
def ofValueTag (body : Text) : Switches := ⟨false, body.any marksExpression⟩

end Switches

/-- The value of a text that is an expression. -/
def evaluateExpr (s : Scope) (source : Text) : Traced (Option Value) :=
  match Expr.ofText source with
  | .ok e => e.eval s
  | .error error => ⟨none, [.noted (.notEvaluated source { cause := .malformed error })]⟩

/-- The value of a text that is an expression or a key path. -/
def evaluateText (s : Scope) (source : Text) (switches : Switches) : Traced (Option Value) :=
  if switches.allowExpressions then evaluateExpr s source else s.load source

/-- Whether a text starts like a JSON array or object. -/
def looksLikeJson (t : Text) : Bool := t.head? == some '[' || t.head? == some '\x7b'

/-- The value of a text, without the white space around it.  What starts like a JSON array or
object and is none may still be an expression. -/
def evaluate [Json.Library] (s : Scope) (source : Text) (switches : Switches) :
    Traced (Option Value) :=
  let source := Text.trim source
  if switches.allowJson && looksLikeJson source then
    match Json.Library.read? source with
    | some j => pure (some j.toValue)
    | none => do
      Traced.emit (.noted (.notJson source))
      if switches.allowExpressions then evaluateText s source switches else pure none
  else evaluateText s source switches

/-- The truth of a text that is an expression, as a condition. -/
def holds (s : Scope) (source : Text) : Traced Bool := (evaluateExpr s source).map isTrue

end Stencil
