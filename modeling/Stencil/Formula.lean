import Stencil.Evaluation

/-!
# Formulas

A formula is an expression on its own, read once and evaluated over any number of models.
-/

namespace Stencil

/-- An expression with its source. -/
structure Formula where
  source : Text
  expr : Expr

namespace Formula

/-- The formula of a source.  An error tells the source. -/
def ofSource (source : Text) : Except Error Formula :=
  match Expr.ofText source with
  | .ok expr => .ok ⟨source, expr⟩
  | .error error => .error { cause := .malformed error, source := some source }

/-- The value of a formula over a model. -/
def eval (f : Formula) (model : Model) : Traced (Option Value) := f.expr.eval (.ofModel model)

end Formula

end Stencil
