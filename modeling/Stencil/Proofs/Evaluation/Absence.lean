import Stencil.Evaluation

/-!
# Absent operands

Most forms of an expression need the values of all their parts, so where one part has no value the
whole has none, however deep the part stands (`Expr.Needs.result_eq_none`).  The exceptions make do
with nothing and always have a value: `not`, lists, and the two operators that may not even look at
their right operand.  For these, what they give and what they let the outside see is one equation
each, and all that is said about absence comes from the equations of `eval` and these four.

## Main Definitions

* `BinaryOp.isLazy`, `BinaryOp.isDecidedBy` — the operators that may pass over their right operand,
  and when they do
* `Expr.Needs` — the parts without whose values an expression has none
-/

namespace Stencil

/-! ## Operators that may be decided early -/

/-- Whether an operator looks at its right operand only if the left one leaves the result open. -/
def BinaryOp.isLazy : BinaryOp → Bool
  | and | or => true
  | _ => false

/-- Whether the left operand decides the result of an operator, whatever the right one is. -/
def BinaryOp.isDecidedBy (op : BinaryOp) (left : Option Value) : Bool :=
  match op with
  | and => !isTrue left
  | or => isTrue left
  | _ => false

namespace Expr

/-- The parts without whose values an expression has none: the operands of the operators that look
at both of them, of the minus sign, and what attributes and subscripts are made of, from the
expression itself down. -/
inductive Needs : Expr → Expr → Prop
  | refl (e : Expr) : Needs e e
  | attr {object part : Expr} (name : Text) (h : Needs object part) : Needs (attr object name) part
  | object {object part : Expr} (key : Expr) (h : Needs object part) : Needs (item object key) part
  | key {key part : Expr} (object : Expr) (h : Needs key part) : Needs (item object key) part
  | neg {operand part : Expr} (h : Needs operand part) : Needs (neg operand) part
  | left {op : BinaryOp} {left part : Expr} (right : Expr) (hop : op.isLazy = false)
      (h : Needs left part) : Needs (binary op left right) part
  | right {op : BinaryOp} {right part : Expr} (left : Expr) (hop : op.isLazy = false)
      (h : Needs right part) : Needs (binary op left right) part

variable {s : Scope}

/-! ## Forms that need their parts -/

/-- An attribute has no value if the object has none. -/
theorem result_eval_attr (object : Expr) (name : Text) :
    ((attr object name).eval s).result = (object.eval s).result.bind (·.attr? name) := by
  refine (Traced.result_bind (object.eval s) _).trans ?_
  cases (object.eval s).result <;> rfl

/-- A subscript has no value if the object or the key has none. -/
theorem result_eval_item (object key : Expr) :
    ((item object key).eval s).result =
      (object.eval s).result.bind fun v => (key.eval s).result.bind v.item? := by
  refine (Traced.result_bind (object.eval s) _).trans ?_
  cases (object.eval s).result with
  | none => rfl
  | some v =>
    refine (Traced.result_bind (key.eval s) _).trans ?_
    cases (key.eval s).result <;> rfl

/-- A minus sign leaves an absent operand absent. -/
theorem result_eval_neg (operand : Expr) :
    ((neg operand).eval s).result =
      (operand.eval s).result.bind fun v => (settle v.neg).result := by
  refine (Traced.result_bind (operand.eval s) _).trans ?_
  cases (operand.eval s).result <;> rfl

/-- An operator that looks at both operands has no value if one of them has none. -/
theorem result_eval_binary {op : BinaryOp} (hop : op.isLazy = false) (left right : Expr) :
    ((binary op left right).eval s).result =
      (left.eval s).result.bind fun x =>
        (right.eval s).result.bind fun y => (applyBinary op x y).result := by
  cases op with
  | and | or => cases hop
  | _ =>
    refine (Traced.result_bind (left.eval s) _).trans ?_
    cases (left.eval s).result with
    | none => rfl
    | some x =>
      refine (Traced.result_bind (right.eval s) _).trans ?_
      cases (right.eval s).result <;> rfl

/-- **Absence is strict**: an expression has no value if one of the parts that it needs has none. -/
theorem Needs.result_eq_none {e part : Expr} (h : e.Needs part)
    (hpart : (part.eval s).result = none) : (e.eval s).result = none := by
  induction h with
  | refl => exact hpart
  | attr name _ ih => rw [result_eval_attr, ih hpart]; rfl
  | object key _ ih => rw [result_eval_item, ih hpart]; rfl
  | key object _ ih => rw [result_eval_item, ih hpart]; exact Option.bind_fun_none _
  | neg _ ih => rw [result_eval_neg, ih hpart]; rfl
  | left right hop _ ih => rw [result_eval_binary hop, ih hpart]; rfl
  | right left hop _ ih => rw [result_eval_binary hop, ih hpart]; exact Option.bind_fun_none _

/-! ## Forms that make do with nothing -/

/-- The opposite of nothing is true. -/
theorem eval_not (operand : Expr) :
    (not operand).eval s =
      ⟨some (.bool (!isTrue (operand.eval s).result)), (operand.eval s).events⟩ := by
  refine (Traced.bind_of_result (x := operand.eval s) rfl _).trans ?_
  simp

/-- An operator that the left operand decides gives a truth without a look at the right one. -/
theorem eval_lazy_of_decided {op : BinaryOp} (hop : op.isLazy) {left : Expr}
    (h : op.isDecidedBy (left.eval s).result) (right : Expr) :
    (binary op left right).eval s =
      ⟨some (.bool (isTrue (left.eval s).result)), (left.eval s).events⟩ := by
  cases op with
  | and =>
    have hleft : isTrue (left.eval s).result = false := by simpa [BinaryOp.isDecidedBy] using h
    refine (Traced.bind_of_result (x := left.eval s) rfl _).trans ?_
    simp [hleft]
  | or =>
    have hleft : isTrue (left.eval s).result = true := h
    refine (Traced.bind_of_result (x := left.eval s) rfl _).trans ?_
    simp [hleft]
  | _ => cases hop

/-- An operator that the left operand leaves open gives the truth of the right one. -/
theorem eval_lazy_of_open {op : BinaryOp} (hop : op.isLazy) {left : Expr}
    (h : ¬op.isDecidedBy (left.eval s).result) (right : Expr) :
    (binary op left right).eval s =
      ⟨some (.bool (isTrue (right.eval s).result)),
        (left.eval s).events ++ (right.eval s).events⟩ := by
  cases op with
  | and =>
    have hleft : isTrue (left.eval s).result = true := by simpa [BinaryOp.isDecidedBy] using h
    refine (Traced.bind_of_result (x := left.eval s) rfl _).trans ?_
    simp [hleft]
  | or =>
    have hleft : isTrue (left.eval s).result = false := by simpa [BinaryOp.isDecidedBy] using h
    refine (Traced.bind_of_result (x := left.eval s) rfl _).trans ?_
    simp [hleft]
  | _ => cases hop

theorem evalItems_eq (items : List Expr) :
    evalItems s items =
      ⟨items.map fun e => (e.eval s).result.getD .null,
        items.flatMap fun e => (e.eval s).events⟩ := by
  induction items with
  | nil => rfl
  | cons e items ih =>
    refine (Traced.bind_of_result (x := e.eval s) rfl _).trans ?_
    rw [ih, Traced.bind_of_result rfl]
    simp

/-- A list has an item for each of its expressions, and null stands where there is no value. -/
theorem eval_list (items : List Expr) :
    (list items).eval s =
      ⟨some (.sequence (items.map fun e => (e.eval s).result.getD .null)),
        items.flatMap fun e => (e.eval s).events⟩ := by
  refine (Traced.bind_of_result (x := evalItems s items) rfl _).trans ?_
  rw [evalItems_eq]
  simp

/-- The left operand decides the result exactly if all right operands lead to the same. -/
theorem isDecidedBy_iff {op : BinaryOp} (hop : op.isLazy) (left : Expr) :
    op.isDecidedBy (left.eval s).result ↔
      ∀ right right' : Expr,
        ((binary op left right).eval s).result = ((binary op left right').eval s).result := by
  constructor
  · intro h right right'
    rw [eval_lazy_of_decided hop h, eval_lazy_of_decided hop h]
  · intro h
    refine Decidable.byContradiction fun hopen => ?_
    have hconst := h (const (.bool true)) (const (.bool false))
    rw [eval_lazy_of_open hop hopen, eval_lazy_of_open hop hopen] at hconst
    cases hconst

/-- **What becomes of absent operands.**  An expression has no value if a part that it needs has
none.  The opposite of an operand and a list always have a value, in which nothing counts as false
and as null.  So have `and` and `or`: if the left operand decides, they give its truth and nothing
is seen of the right one; otherwise they give the truth of the right one, which is evaluated after
the left one. -/
theorem eval_absence (s : Scope) :
    (∀ e part : Expr, e.Needs part → (part.eval s).result = none → (e.eval s).result = none) ∧
    (∀ operand : Expr, (not operand).eval s =
      ⟨some (.bool (!isTrue (operand.eval s).result)), (operand.eval s).events⟩) ∧
    (∀ items : List Expr, (list items).eval s =
      ⟨some (.sequence (items.map fun e => (e.eval s).result.getD .null)),
        items.flatMap fun e => (e.eval s).events⟩) ∧
    (∀ (op : BinaryOp) (left right : Expr), op.isLazy →
      (binary op left right).eval s =
        if op.isDecidedBy (left.eval s).result then
          ⟨some (.bool (isTrue (left.eval s).result)), (left.eval s).events⟩
        else
          ⟨some (.bool (isTrue (right.eval s).result)),
            (left.eval s).events ++ (right.eval s).events⟩) := by
  refine ⟨fun e part h hpart => h.result_eq_none hpart, eval_not, eval_list, ?_⟩
  intro op left right hop
  split
  · next h => exact eval_lazy_of_decided hop h right
  · next h => exact eval_lazy_of_open hop h right

/-- Where a model knows nothing, `-(m + 1)` has no value, and `m and n` is false without a question
about `n`. -/
theorem eval_absence_of_empty :
    ((neg (binary .add (path "m".toList) (const (.bool true)))).eval
        (.ofModel ⟨fun _ => none⟩)).result = none ∧
      (binary .and (path "m".toList) (path "n".toList)).eval (.ofModel ⟨fun _ => none⟩) =
        ⟨some (.bool false), [.asked "m".toList]⟩ := by
  have h := eval_absence (.ofModel ⟨fun _ => none⟩)
  refine ⟨h.1 _ (path "m".toList) (.neg (.left _ rfl (.refl _))) rfl, ?_⟩
  rw [h.2.2.2 .and _ _ rfl]
  rfl

end Expr

end Stencil
