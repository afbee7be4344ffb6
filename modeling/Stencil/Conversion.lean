import Stencil.Event
import Stencil.Json.Value
import Stencil.Number.Layout

/-!
# Conversions

Data of any type is made a value through JSON data: it says what it consists of, the JSON library
stores that, and what is stored becomes a value.  Values themselves can go the same way.

## Main Definitions

* `Value.serial` — what a value consists of
* `Value.ofSerial`, `Value.ofSerialOrNull` — the value of data, and null if it has none
-/

namespace Stencil.Value

mutual

/-- What a value consists of.  A number is an integer if it is one below `10 ^ 17`. -/
def serial : Value → Serial
  | null => .null
  | bool b => .bool b
  | number x =>
    match x.shortInteger? with
    | some n => .integer n
    | none => .float x
  | string s => .string s
  | sequence items => .sequence (itemSerials items)
  | map entries => .map (entrySerials entries)

/-- What the items of a sequence consist of. -/
def itemSerials : List Value → List Serial
  | [] => []
  | v :: rest => serial v :: itemSerials rest

/-- What the entries of a map consist of. -/
def entrySerials {low : Option Text} : Dict Value low → List (Serial × Serial)
  | .nil => []
  | .cons k v _ rest => (.string k, serial v) :: entrySerials rest

end

variable [Json.Library]

/-- The value of data. -/
def ofSerial (s : Serial) : Except Error Value :=
  match Json.Library.store s with
  | .ok j => .ok j.toValue
  | .error message => .error { cause := .unstorable message }

/-- The value of data, or null if it has none. -/
def ofSerialOrNull (s : Serial) : Traced Value :=
  match ofSerial s with
  | .ok v => pure v
  | .error e => ⟨null, [.noted (.notConverted e)]⟩

end Stencil.Value
