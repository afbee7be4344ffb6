import Stencil.Document.Basic
import Stencil.Evaluation

/-!
# Rendering

Rendering walks a document in reading order with a scope.  Each open branch has a frame of its own,
each pass of a loop has one more, and what a branch leaves open is closed where the branch ends.

## Main Definitions

* `Rendering` — the events of a rendering, and the scope after it
* `renderForest`, `renderBody`, `renderItems` — siblings, what a node holds, and a loop
* `Document.render` — a whole document over a model

## Design Notes

An `if` opens a frame and its `end` closes it; the branches between them replace the frame by a new
one.  Whether a branch of the chain was taken already is passed on from sibling to sibling.
-/

namespace Stencil

/-- The events of a rendering, and the scope after it. -/
abbrev Rendering := Traced (Except Scope.Fault Scope)

namespace Rendering

/-- Nothing is rendered. -/
def done (s : Scope) : Rendering := pure (.ok s)

/-- One rendering after another, the second in the scope that the first leaves. -/
def andThen (r : Rendering) (next : Scope → Rendering) : Rendering :=
  r.bind fun
    | .ok s => next s
    | .error fault => pure (.error fault)

/-- A step that concerns the scope only. -/
def ofScope (r : Except Scope.Fault Scope) : Rendering := pure r

end Rendering

/-- Closes the innermost frame of a scope. -/
def closeFrame (s : Scope) : Except Scope.Fault Scope := Scope.onward s.pop

/-- Closes the innermost frame of a scope and opens a new one. -/
def replaceFrame (s : Scope) : Except Scope.Fault Scope := (closeFrame s).map Scope.push

variable [Json.Library]

/-- Writes the value of the body of a value tag, if it has one. -/
def writeValue (s : Scope) (expr : Text) : Traced Unit := do
  match ← evaluate s expr (.ofValueTag expr) with
  | some v => Traced.emit (.wrote v.text)
  | none => pure ()

/-- Shows the value of the expression of a debug tag, if it has one. -/
def showValue (s : Scope) (expr : Text) : Traced Unit := do
  match ← evaluate s expr .all with
  | some v => Traced.emit (.showed v)
  | none => pure ()

/-- Binds a name to the value of an expression, or to null if it has none. -/
def assign (s : Scope) (name expr : Text) : Rendering := do
  let v ← evaluate s expr .all
  return Scope.onward (s.store name (v.getD .null))

/-- The items of the source of a loop.  A source without a value or without items gives none. -/
def loopItems (s : Scope) (source : Text) : Traced (List Value) := do
  match ← evaluate s source .all with
  | none => return []
  | some v =>
    match v.items? with
    | some items => return items
    | none =>
      Traced.emit (.noted (.notIterable v.kind))
      return []

/-- The name that the number of a pass is bound to. -/
def indexName (item : Text) : Text := item ++ "Index".toList

/-- Binds the item and the number of a pass in a frame of its own. -/
def bindItem (s : Scope) (item : Text) (index : Nat) (v : Value) : Except Scope.Fault Scope := do
  let s ← Scope.onward (s.push.store item v)
  Scope.onward (s.store (indexName item) (.number (.ofNat index)))

/-- The passes of a loop, from the given number on. -/
def renderItems (item : Text) (body : Scope → Rendering) (index : Nat) :
    List Value → Scope → Rendering
  | [], s => .done s
  | v :: rest, s =>
    (Rendering.ofScope (bindItem s item index v)).andThen fun s =>
      (body s).andThen fun s =>
        (Rendering.ofScope (closeFrame s)).andThen fun s =>
          renderItems item body (index + 1) rest s

/-- Renders siblings in a scope, given whether a branch of the chain was taken already.  What a node
holds is rendered with a chain of its own, and the frames that are still open behind it are
closed. -/
def renderForest : Forest → Bool → Scope → Rendering
  | .nil, _, s => .done s
  | .node n body rest, taken, s =>
    let inside (s : Scope) : Rendering :=
      (renderForest body false s).andThen fun after => .done (after.truncate s.depth)
    match n.statement with
    | .text => (Traced.emit (.wrote n.content)).bind fun _ => renderForest rest taken s
    | .value expr => (writeValue s expr).bind fun _ => renderForest rest taken s
    | .assign name expr _ => (assign s name expr).andThen fun s => renderForest rest taken s
    | .debug expr => (showValue s expr).bind fun _ => renderForest rest taken s
    | .ifTrue predicate =>
      let s := s.push
      (holds s predicate).bind fun truth =>
        (if truth then inside s else .done s).andThen fun s => renderForest rest truth s
    | .elseIf predicate =>
      -- A branch that is skipped replaces the frame all the same.
      (Rendering.ofScope (replaceFrame s)).andThen fun s =>
        if taken then renderForest rest true s
        else
          (holds s predicate).bind fun truth =>
            (if truth then inside s else .done s).andThen fun s => renderForest rest truth s
    | .otherwise =>
      (Rendering.ofScope (replaceFrame s)).andThen fun s =>
        (if taken then .done s else inside s).andThen fun s => renderForest rest true s
    | .close => (Rendering.ofScope (closeFrame s)).andThen fun s => renderForest rest false s
    | .forEach item source =>
      -- This frame stays open until the loop is closed; every pass adds one of its own.
      let s := s.push
      (loopItems s source).bind fun items =>
        (renderItems item inside 0 items s).andThen fun s => renderForest rest taken s

/-- Renders what a node holds, and closes the frames that are still open behind it. -/
def renderBody (body : Forest) (s : Scope) : Rendering :=
  (renderForest body false s).andThen fun after => .done (after.truncate s.depth)

/-- Renders a document over a model: one frame for the whole document. -/
def Document.render (d : Document) (model : Model) : Rendering :=
  (renderBody d.forest (Scope.ofModel model).push).andThen fun s => .ofScope (closeFrame s)

end Stencil
