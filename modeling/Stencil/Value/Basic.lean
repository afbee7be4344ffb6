import Stencil.Dict
import Stencil.Number.Basic

/-!
# Values

What flows through a template is dynamic data: null, booleans, numbers, strings, sequences and
maps.  Absence is not a value; a lookup that fails gives no value at all, whereas null can be
stored and passed on.

## Main Definitions

* `Value`, `Value.kind` — the data and its six kinds
* `Value.isTrue` — the truth of a value as a condition
* `Value.same` — equality, in which numbers are compared as numbers
* `Value.count?` — the number of characters, items or entries
-/

namespace Stencil

/-- Dynamic data.  The entries of a map are in increasing order of their keys, as in every
dictionary. -/
inductive Value
  | null
  | bool (b : Bool)
  | number (x : Number)
  | string (s : Text)
  | sequence (items : List Value)
  | map (entries : Dict Value none)
deriving Inhabited

namespace Value

/-- What holds of a sequence if it holds of all its items, and of a map if it holds of all its
values, holds of every value. -/
@[elab_as_elim]
theorem induct {motive : Value → Prop} (null : motive null) (bool : ∀ b, motive (bool b))
    (number : ∀ x, motive (number x)) (string : ∀ s, motive (string s))
    (sequence : ∀ items, (∀ v ∈ items, motive v) → motive (sequence items))
    (map : ∀ entries, (∀ p ∈ entries.toList, motive p.2) → motive (map entries)) (v : Value) :
    motive v :=
  @Value.rec motive (fun items => ∀ v ∈ items, motive v)
    (fun _ entries => ∀ p ∈ entries.toList, motive p.2) null bool number string sequence map
    (List.forall_mem_nil _) (fun _ _ hv hrest => List.forall_mem_cons.2 ⟨hv, hrest⟩)
    (List.forall_mem_nil _) (fun _ _ _ _ hv hrest => List.forall_mem_cons.2 ⟨hv, hrest⟩) v

/-- The kind of a value. -/
inductive Kind
  | null
  | bool
  | number
  | string
  | sequence
  | map
deriving DecidableEq, Repr

/-- The word for a kind. -/
def Kind.name : Kind → Text
  | null => "none".toList
  | bool => "bool".toList
  | number => "number".toList
  | string => "string".toList
  | sequence => "sequence".toList
  | map => "map".toList

/-- The kind of a value. -/
def kind : Value → Kind
  | null => .null
  | bool _ => .bool
  | number _ => .number
  | string _ => .string
  | sequence _ => .sequence
  | map _ => .map

/-- The truth of a value: null, false, the zeros, not a number and everything empty are false. -/
def isTrue : Value → Bool
  | null => false
  | bool b => b
  | number x => !x.isZero && x != .nan
  | string s => !s.isEmpty
  | sequence items => !items.isEmpty
  | map entries => !entries.isEmpty

/-- How many characters, items or entries a value holds; null, booleans and numbers hold none. -/
def count? : Value → Option Nat
  | string s => some s.length
  | sequence items => some items.length
  | map entries => some entries.size
  | _ => none

mutual

/-- Equality of values: of one kind, and equal part by part.  Numbers are equal in their own sense,
so the two zeros are the same and not a number differs from itself. -/
def same : Value → Value → Bool
  | null, null => true
  | bool a, bool b => a == b
  | number x, number y => x.same y
  | string s, string t => s == t
  | sequence xs, sequence ys => sameItems xs ys
  | map xs, map ys => sameEntries xs ys
  | _, _ => false

/-- Equality of two lists of values. -/
def sameItems : List Value → List Value → Bool
  | [], [] => true
  | x :: xs, y :: ys => same x y && sameItems xs ys
  | _, _ => false

/-- Equality of the entries of two maps. -/
def sameEntries {low low' : Option Text} : Dict Value low → Dict Value low' → Bool
  | .nil, .nil => true
  | .cons k x _ xs, .cons l y _ ys => k == l && same x y && sameEntries xs ys
  | _, _ => false

end

end Value

end Stencil
