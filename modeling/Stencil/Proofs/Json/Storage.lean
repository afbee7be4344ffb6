import Mathlib.Data.List.Forall2
import Stencil.Json.Strict
import Stencil.Proofs.Number.Rounding

/-!
# Storing data as JSON

`Json.Library.Stores` is all that is assumed of a library that stores data and gives numbers back:
integers of sixty-four bits come back exactly if they are of the binary64 format and finite floats
always, what is not finite becomes null, and everything else is stored as it is.  Nothing is said
about how numbers look in between, about integers that are rounded when they come back, and about
maps whose keys are not strings.

The strict library is one that does so (`Json.Library.stores_strict`).
-/

namespace Stencil

open List (Forall₂)

namespace Json

/-- What a library does that stores data as it is. -/
structure Library.Stores [Library] : Prop where
  null : Library.store .null = .ok null
  bool (b : Bool) : Library.store (.bool b) = .ok (bool b)
  string (s : Text) : Library.store (.string s) = .ok (string s)
  /-- An integer comes back exactly if it is of the format. -/
  integer {n : Int} (hfits : -(Nat.pow 2 63 : Int) ≤ n ∧ n < (Nat.pow 2 63 : Int))
    (grid : Number.OnGrid n) :
    ∃ m, Library.store (.integer n) = .ok (number m) ∧ Library.number? m = some (.real n grid)
  /-- A finite float comes back exactly. -/
  float {x : Number} (h : x.isFinite = true) :
    ∃ m, Library.store (.float x) = .ok (number m) ∧ Library.number? m = some x
  /-- Not a number and the infinities are lost. -/
  infinite {x : Number} (h : x.isFinite = false) : Library.store (.float x) = .ok Json.null
  sequence {items : List Serial} {js : List Json}
    (h : Forall₂ (fun s j => Library.store s = .ok j) items js) :
    Library.store (.sequence items) = .ok (array js)
  /-- The members of an object are the entries of the map, of which the last of each name counts. -/
  map {entries : List (Serial × Serial)} {members : List (Text × Json)}
    (h : Forall₂ (fun entry member => entry.1 = .string member.1 ∧
      Library.store entry.2 = .ok member.2) entries members) :
    Library.store (.map entries) = .ok (object (Dict.ofList members))

open Strict

theorem itemsJson_eq_ok {items : List Serial} {js : List Json}
    (h : Forall₂ (fun s j => Serial.toJson s = .ok j) items js) :
    Serial.itemsJson items = .ok js := by
  induction h with
  | nil => rfl
  | cons hj _ ih =>
    rw [Serial.itemsJson, hj, ih]
    rfl

theorem membersJson_eq_ok {entries : List (Serial × Serial)} {members : List (Text × Json)}
    (h : Forall₂ (fun entry member => entry.1 = .string member.1 ∧
      Serial.toJson entry.2 = .ok member.2) entries members) :
    Serial.membersJson entries = .ok members := by
  induction h with
  | nil => rfl
  | @cons entry member _ _ hentry _ ih =>
    obtain ⟨key, s⟩ := entry
    obtain ⟨rfl, hj⟩ := hentry
    rw [Serial.membersJson, Serial.asName, hj, ih]
    rfl

/-- The strict library stores data as it is. -/
theorem Library.stores_strict : Library.Stores where
  null := rfl
  bool _ := rfl
  string _ := rfl
  integer {n} _ grid := ⟨.integer n, rfl, congrArg some (Number.round_of_onGrid grid)⟩
  float {x} h := by
    refine ⟨.float x, ?_, rfl⟩
    cases x with
    | nan | infinite => cases h
    | negativeZero | real => rfl
  infinite {x} h := by
    cases x with
    | nan | infinite => rfl
    | negativeZero | real => cases h
  sequence {items js} h := by
    show Serial.toJson (.sequence items) = _
    rw [Serial.toJson, itemsJson_eq_ok h]
    rfl
  map {entries members} h := by
    show Serial.toJson (.map entries) = _
    rw [Serial.toJson, membersJson_eq_ok h]
    rfl

end Json

end Stencil
