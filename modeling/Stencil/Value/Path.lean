import Stencil.Value.Display

/-!
# Key paths

A key path is a text of pieces between dots.  Each piece leads from a value to a part of it: a key
of a map, the index of an item, or `@count`, the number of parts.

## Main Definitions

* `Value.attr?` — the part that one piece leads to
* `Value.walk?` — the part that a whole path leads to
* `Value.item?` — the part that a subscript leads to
-/

namespace Stencil.Value

/-- The piece of a key path that stands for the number of parts. -/
def countKey : Text := "@count".toList

/-- The number of parts of a value, as a value. -/
def countValue? (v : Value) : Option Value := v.count?.map fun n => number (.ofNat n)

/-- The part of a value that one piece of a key path leads to.  A key of a map counts before
`@count`, and a numeral always is the index of an item. -/
def attr? (v : Value) (name : Text) : Option Value :=
  let counted := if name = countKey then v.countValue? else none
  match v with
  | map entries => (entries.get? name).or counted
  | sequence items =>
    match Text.index? name with
    | some i => items[i]?
    | none => counted
  | _ => counted

/-- Follows the pieces of a key path one by one. -/
def follow? (v : Value) (pieces : List Text) : Option Value := pieces.foldlM attr? v

/-- The part of a value that a key path leads to. -/
def walk? (v : Value) (path : Text) : Option Value := v.follow? (Text.segments path)

/-- The part of a value that a subscript leads to: an item by its index, counted from the end if
negative, an entry by its key or the text of a number, a character by its index. -/
def item? : Value → Value → Option Value
  | sequence items, number x =>
    match x.whole? with
    | some (.ofNat i) => items[i]?
    | some (.negSucc i) => if i < items.length then items[items.length - (i + 1)]? else none
    | none => none
  | map entries, string key => entries.get? key
  | map entries, number x => entries.get? x.text
  | string s, number x =>
    match x.whole? with
    | some (.ofNat i) => s[i]?.map fun c => string [c]
    | _ => none
  | _, _ => none

/-- The items of a sequence, or the values of a map in increasing order of its keys. -/
def items? : Value → Option (List Value)
  | sequence items => some items
  | map entries => some entries.values
  | _ => none

end Stencil.Value
