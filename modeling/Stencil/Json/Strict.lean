import Stencil.Json.Reader
import Stencil.Json.Writer

/-!
# A strict JSON library

The library that programs are run with.  It reads JSON text strictly, keeps integers and finite
numbers as they are, has null for every other number, and has members with names only: data whose
keys are not strings is an object if every key has a text of its own.

## Main Definitions

* `Json.ofNumber` — a number as JSON data
* `Serial.toJson` — the JSON data of what data consists of
* `Json.Strict.library` — the library
-/

namespace Stencil

/-- A number as JSON data, which is null for a number that is not finite. -/
def Json.ofNumber : Number → Json
  | .nan | .infinite _ => .null
  | x => .number (.float x)

namespace Serial

/-- What a key is called as a member: a string is its own name, booleans and finite numbers have
their text, and nothing else can be a name. -/
def asName : Serial → Except Text Text
  | string s => .ok s
  | bool b => .ok (Json.bool b).text
  | integer n => .ok (Number.integerText n)
  | float x =>
    match x.jsonText? with
    | some name => .ok name
    | none => .error "float key must be finite".toList
  | _ => .error "key must be a string".toList

mutual

/-- The JSON data of what data consists of.  A later entry of a key replaces an earlier one. -/
def toJson : Serial → Except Text Json
  | null => .ok .null
  | bool b => .ok (.bool b)
  | integer n => .ok (.number (.integer n))
  | float x => .ok (.ofNumber x)
  | string s => .ok (.string s)
  | sequence items => do return .array (← itemsJson items)
  | map entries => do return .object (Dict.ofList (← membersJson entries))

/-- The JSON data of the items of a sequence. -/
def itemsJson : List Serial → Except Text (List Json)
  | [] => .ok []
  | s :: rest => do
    let j ← toJson s
    return j :: (← itemsJson rest)

/-- The JSON data of the entries of a map, each with its name. -/
def membersJson : List (Serial × Serial) → Except Text (List (Text × Json))
  | [] => .ok []
  | (key, s) :: rest => do
    let name ← key.asName
    let j ← toJson s
    return (name, j) :: (← membersJson rest)

end

end Serial

/-- The number nearest to a number of JSON data. -/
def Json.Num.nearest : Num → Number
  | integer n => .round n
  | float x => x

namespace Json.Strict

/-- The strict library, for those who open its namespace. -/
scoped instance library : Library where
  read? := ofText?
  store := Serial.toJson
  number? n := some n.nearest

end Json.Strict

end Stencil
