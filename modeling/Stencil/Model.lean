import Stencil.Json.Value

/-!
# Models

A model is the data outside a template.  All a template can do with it is to ask for a key path.

## Main Definitions

* `Model` — the answers to key paths
* `Model.empty`, `Model.ofValue`, `Model.ofJson`, `Model.ofBindings`, `Model.optional` — the models
  of no data, a value, JSON data, values by name, and of a model that may be missing
-/

namespace Stencil

/-- Data that answers key paths. -/
structure Model where
  /-- The value at the end of a key path, if there is one. -/
  resolve : Text → Option Value

namespace Model

/-- The model of no data. -/
def empty : Model := ⟨fun _ => none⟩

/-- The model of a value. -/
def ofValue (v : Value) : Model := ⟨v.walk?⟩

/-- The model of JSON data. -/
def ofJson [Json.Library] (j : Json) : Model := ⟨j.resolve?⟩

/-- The model of values by name: the first piece of a path is a name, the others lead on from its
value.  Bindings may stand in any order, of which the first of a name counts. -/
def ofBindings (bindings : List (Text × Value)) : Model where
  resolve path :=
    match Text.splitDot path with
    | (name, none) => bindings.lookup name
    | (name, some rest) => (bindings.lookup name).bind fun v => v.walk? rest

/-- The model of a model that may be missing. -/
def optional : Option Model → Model
  | some model => model
  | none => empty

end Model

end Stencil
