import Stencil.Json.Basic
import Stencil.Value.Path

/-!
# JSON data as values

JSON data differs from values in its numbers only, which the library of the data turns into numbers
of the binary64 format.

## Main Definitions

* `Json.toValue` — the value of JSON data
* `Json.resolve?` — the part of JSON data that a key path leads to
-/

namespace Stencil.Json

variable [Library]

mutual

/-- The value of JSON data.  A number that the library has no number for is null. -/
def toValue : Json → Value
  | null => .null
  | bool b => .bool b
  | number n =>
    match Library.number? n with
    | some x => .number x
    | none => .null
  | string s => .string s
  | array items => .sequence (itemValues items)
  | object members => .map (memberValues members)

/-- The values of the items of an array. -/
def itemValues : List Json → List Value
  | [] => []
  | j :: rest => toValue j :: itemValues rest

/-- The values of the members of an object. -/
def memberValues {low : Option Text} : Dict Json low → Dict Value low
  | .nil => .nil
  | .cons k j behind rest => .cons k (toValue j) behind (memberValues rest)

end

/-- One step of a key path: the member of that name or the item of that index. -/
def step? (j : Json) (name : Text) : Option Json :=
  match j with
  | object members => members.get? name
  | array items => (Text.index? name).bind fun i => items[i]?
  | _ => none

/-- The value at the end of a key path.  `@count` stands for the number of parts if it is the last
piece and no part has that name. -/
def resolvePieces? (j : Json) : List Text → Option Value
  | [] => some j.toValue
  | piece :: rest =>
    match j.step? piece with
    | some part => resolvePieces? part rest
    | none => if piece = Value.countKey ∧ rest = [] then j.toValue.countValue? else none

/-- The value at the end of a key path in JSON data. -/
def resolve? (j : Json) (path : Text) : Option Value := j.resolvePieces? (Text.segments path)

end Stencil.Json
