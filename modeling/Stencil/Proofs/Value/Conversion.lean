import Mathlib.Data.Rat.Defs
import Stencil.Conversion
import Stencil.Proofs.Json.Storage

/-!
# Values come back from their parts

A value says what it consists of, a JSON library stores that, and what is stored becomes a value
again.  On the way a number is an integer if it is a short one and a float otherwise, and both ways
lead back to it, because the library keeps integers of sixty-four bits and floats alike
(`Json.Library.Stores`).  Only a number that is not finite is lost, and the sign of a zero.

The entries of a map are stored one after another in the order of their keys, and the dictionary of
such a list has the same order again (`Dict.ofList_toList`).

## Main Definitions

* `Value.mapNumbers` — a value with something else in place of its numbers
* `Value.finite`, `Value.plain` — a value with null for each number that is not finite, and without
  negative zeros
-/

namespace Stencil

namespace Dict

variable {α : Type} {low : Option Text}

theorem toList_insertBehind {name : Text} {d : Dict α low} (h : Behind low name)
    (hd : ∀ x ∈ d.toList, x.1 < name) (value : α) :
    (insertBehind name h value d).toList = d.toList ++ [(name, value)] := by
  induction d with
  | nil => rfl
  | cons k v hk rest ih =>
    obtain ⟨hlt, hrest⟩ := List.forall_mem_cons.1 hd
    have hne : k ≠ name := fun he => List.lt_irrefl name (he ▸ hlt)
    rw [insertBehind, dif_neg hne, dif_neg (List.lt_asymm hlt), toList_cons, ih _ hrest]
    rfl

/-- A dictionary is the dictionary of its bindings. -/
theorem ofList_toList (d : Dict α none) : ofList d.toList = d := by
  suffices hbehind : ∀ (bindings : List (Text × α)) (front : Dict α none),
      (front.toList ++ bindings).Pairwise (fun x y => x.1 < y.1) →
        (bindings.foldl (fun d x => insert x.1 x.2 d) front).toList = front.toList ++ bindings from
    toList_inj (hbehind d.toList nil d.pairwise_toList)
  intro bindings
  induction bindings with
  | nil => exact fun front _ => (List.append_nil _).symm
  | cons x rest ih =>
    intro front hfront
    have hlt : ∀ y ∈ front.toList, y.1 < x.1 := fun y hy =>
      (List.pairwise_append.1 hfront).2.2 y hy _ List.mem_cons_self
    have hinsert : (insert x.1 x.2 front).toList = front.toList ++ [x] :=
      toList_insertBehind (behind_none x.1) hlt x.2
    have happend : front.toList ++ x :: rest = (insert x.1 x.2 front).toList ++ rest := by
      rw [hinsert, List.append_assoc, List.singleton_append]
    rw [happend] at hfront ⊢
    exact ih _ hfront

end Dict

namespace Value

open List (Forall₂)

/-! ## Numbers within values -/

mutual

/-- A value with something else in place of its numbers. -/
def mapNumbers (f : Number → Value) : Value → Value
  | number x => f x
  | sequence items => sequence (mapItems f items)
  | map entries => map (mapEntries f entries)
  | v => v

/-- The items of a sequence with something else in place of their numbers. -/
def mapItems (f : Number → Value) : List Value → List Value
  | [] => []
  | v :: rest => mapNumbers f v :: mapItems f rest

/-- The entries of a map with something else in place of their numbers. -/
def mapEntries {low : Option Text} (f : Number → Value) : Dict Value low → Dict Value low
  | .nil => .nil
  | .cons k v behind rest => .cons k (mapNumbers f v) behind (mapEntries f rest)

end

/-- A number, and null if it is not finite. -/
def finiteOrNull (x : Number) : Value := if x.isFinite then number x else null

/-- A number without the sign of a zero, and null if it is not finite. -/
def plainOrNull : Number → Value
  | .negativeZero => number (.zero false)
  | x => finiteOrNull x

/-- A value with null in place of every number that is not finite. -/
def finite (v : Value) : Value := v.mapNumbers finiteOrNull

/-- The same without the sign of a zero. -/
def plain (v : Value) : Value := v.mapNumbers plainOrNull

section MapNumbers

variable {f g : Number → Value} {low : Option Text}

theorem mapItems_eq (items : List Value) : mapItems f items = items.map (mapNumbers f) := by
  induction items with
  | nil => rfl
  | cons v rest ih => rw [mapItems, ih, List.map_cons]

theorem mapEntries_eq (entries : Dict Value low) :
    mapEntries f entries = entries.map (mapNumbers f) := by
  induction entries with
  | nil => rfl
  | cons k v behind rest ih => rw [mapEntries, ih, Dict.map]

/-- What is done to numbers once need not be done twice. -/
theorem mapNumbers_mapNumbers (hf : ∀ x, (f x).mapNumbers f = f x) (v : Value) :
    (v.mapNumbers f).mapNumbers f = v.mapNumbers f := by
  induction v using induct with
  | null | bool | string => rfl
  | number x => exact hf x
  | sequence items ih =>
    simp only [mapNumbers, mapItems_eq, List.map_map]
    exact congrArg sequence (List.map_congr_left ih)
  | map entries ih =>
    simp only [mapNumbers, mapEntries_eq, Dict.map_map]
    exact congrArg map (Dict.map_congr ih)

theorem sameItems_mapItems {items : List Value}
    (h : ∀ v ∈ items, (v.mapNumbers f).same (v.mapNumbers g) = true) :
    sameItems (mapItems f items) (mapItems g items) = true := by
  induction items with
  | nil => rfl
  | cons v rest ih =>
    obtain ⟨hv, hrest⟩ := List.forall_mem_cons.1 h
    rw [mapItems, mapItems, sameItems, hv, ih hrest]
    rfl

theorem sameEntries_mapEntries {entries : Dict Value low}
    (h : ∀ p ∈ entries.toList, (p.2.mapNumbers f).same (p.2.mapNumbers g) = true) :
    sameEntries (mapEntries f entries) (mapEntries g entries) = true := by
  induction entries with
  | nil => rfl
  | cons k v behind rest ih =>
    obtain ⟨hv, hrest⟩ := List.forall_mem_cons.1 h
    rw [mapEntries, mapEntries, sameEntries, beq_self_eq_true, hv, ih hrest]
    rfl

/-- Values are equal if equal ones are in place of their numbers. -/
theorem same_mapNumbers (hfg : ∀ x, (f x).same (g x) = true) (v : Value) :
    (v.mapNumbers f).same (v.mapNumbers g) = true := by
  induction v using induct with
  | null => rfl
  | bool b => exact beq_self_eq_true b
  | number x => exact hfg x
  | string s => exact beq_self_eq_true s
  | sequence items ih => exact sameItems_mapItems ih
  | map entries ih => exact sameEntries_mapEntries ih

end MapNumbers

theorem same_number_real {q : Rat} (grid : Number.OnGrid q) :
    (number (.real q grid)).same (number (.real q grid)) = true := by
  have hrat : Number.compareRat q q = .eq := by
    rw [Number.compareRat, if_neg Rat.lt_irrefl, if_pos rfl]
  have hcompare : Number.compare? (.real q grid) (.real q grid) = some .eq := congrArg some hrat
  rw [same, Number.same, hcompare]
  rfl

theorem same_plainOrNull (x : Number) : (plainOrNull x).same (finiteOrNull x) = true := by
  cases x with
  | nan | infinite => rfl
  | negativeZero => decide
  | real q grid => exact same_number_real grid

theorem mapNumbers_plainOrNull (x : Number) :
    (plainOrNull x).mapNumbers plainOrNull = plainOrNull x := by
  cases x <;> rfl

/-! ## There and back -/

theorem shortInteger?_cases {q : Rat} {grid : Number.OnGrid q} {n : Int}
    (h : (Number.real q grid).shortInteger? = some n) :
    (n : Rat) = q ∧ n.natAbs < Nat.pow 10 17 := by
  rw [Number.shortInteger?] at h
  split at h
  · next k hwhole =>
    split at h
    · next hshort =>
      obtain rfl := Option.some.inj h
      rw [Number.whole?] at hwhole
      split at hwhole
      · next hden =>
        obtain rfl := Option.some.inj hwhole
        exact ⟨(Rat.den_eq_one_iff q).1 hden, hshort⟩
      · cases hwhole
    · cases h
  · cases h

section Library

variable [Json.Library] (hlibrary : Json.Library.Stores)
include hlibrary

/-- An integer that a value has as a number comes back. -/
theorem exists_store_integer {n : Int} (hshort : n.natAbs < Nat.pow 10 17)
    (grid : Number.OnGrid n) :
    ∃ j, Json.Library.store (.integer n) = .ok j ∧ j.toValue = number (.real n grid) := by
  have hle : Nat.pow 10 17 ≤ Nat.pow 2 63 := by decide
  obtain ⟨m, hstore, hm⟩ := hlibrary.integer (by omega) grid
  exact ⟨.number m, hstore, by simp only [Json.toValue, hm]⟩

/-- A number comes back as it was, without the sign of a zero, and as null if it is not finite. -/
theorem exists_store_number (x : Number) :
    ∃ j, Json.Library.store (number x).serial = .ok j ∧ j.toValue = plainOrNull x := by
  cases x with
  | nan | infinite => exact ⟨.null, hlibrary.infinite rfl, rfl⟩
  | negativeZero => exact exists_store_integer hlibrary (by decide) Number.onGrid_zero
  | real q grid =>
    rw [serial]
    cases hshort : (Number.real q grid).shortInteger? with
    | none =>
      obtain ⟨m, hstore, hm⟩ := hlibrary.float (x := .real q grid) rfl
      exact ⟨.number m, hstore, by simp only [Json.toValue, hm]; rfl⟩
    | some n =>
      obtain ⟨rfl, hlt⟩ := shortInteger?_cases hshort
      exact exists_store_integer hlibrary hlt grid

omit hlibrary in
theorem exists_stored_items {items : List Value}
    (h : ∀ v ∈ items, ∃ j, Json.Library.store v.serial = .ok j ∧ j.toValue = v.plain) :
    ∃ js, Forall₂ (fun s j => Json.Library.store s = .ok j) (itemSerials items) js ∧
      Json.itemValues js = mapItems plainOrNull items := by
  induction items with
  | nil => exact ⟨[], .nil, rfl⟩
  | cons v rest ih =>
    obtain ⟨⟨j, hj, hvalue⟩, hrest⟩ := List.forall_mem_cons.1 h
    obtain ⟨js, hjs, hvalues⟩ := ih hrest
    refine ⟨j :: js, .cons hj hjs, ?_⟩
    rw [Json.itemValues, hvalue, hvalues]
    rfl

omit hlibrary in
theorem exists_stored_entries {low : Option Text} {entries : Dict Value low}
    (h : ∀ p ∈ entries.toList, ∃ j, Json.Library.store p.2.serial = .ok j ∧
      j.toValue = p.2.plain) :
    ∃ ms : Dict Json low, Forall₂ (fun entry member => entry.1 = .string member.1 ∧
        Json.Library.store entry.2 = .ok member.2) (entrySerials entries) ms.toList ∧
      Json.memberValues ms = mapEntries plainOrNull entries := by
  induction entries with
  | nil => exact ⟨.nil, .nil, rfl⟩
  | cons k v behind rest ih =>
    obtain ⟨⟨j, hj, hvalue⟩, hrest⟩ := List.forall_mem_cons.1 h
    obtain ⟨ms, hms, hvalues⟩ := ih hrest
    refine ⟨.cons k j behind ms, .cons ⟨rfl, hj⟩ hms, ?_⟩
    rw [Json.memberValues, hvalue, hvalues]
    rfl

theorem exists_store (v : Value) :
    ∃ j, Json.Library.store v.serial = .ok j ∧ j.toValue = v.plain := by
  induction v using induct with
  | null => exact ⟨.null, hlibrary.null, rfl⟩
  | bool b => exact ⟨.bool b, hlibrary.bool b, rfl⟩
  | number x => exact exists_store_number hlibrary x
  | string s => exact ⟨.string s, hlibrary.string s, rfl⟩
  | sequence items ih =>
    obtain ⟨js, hjs, hvalues⟩ := exists_stored_items ih
    refine ⟨.array js, hlibrary.sequence hjs, ?_⟩
    rw [Json.toValue, hvalues]
    rfl
  | map entries ih =>
    obtain ⟨ms, hms, hvalues⟩ := exists_stored_entries ih
    have hmap := hlibrary.map hms
    rw [Dict.ofList_toList] at hmap
    refine ⟨.object ms, hmap, ?_⟩
    rw [Json.toValue, hvalues]
    rfl

/-- **Converting a value through its parts loses nothing but the numbers that are not finite.**
Every value has a conversion, and it equals the value with null in place of each such number; all
sequences, keys and strings stay as they are.  Equality takes the two zeros for the same, of which
the positive one comes back.  Converting what has come back changes nothing at all.  This holds with
every library that stores data as it is. -/
theorem ofSerial_serial (v : Value) :
    ∃ w, ofSerial v.serial = .ok w ∧ w.same v.finite = true ∧ w = v.plain ∧
      ofSerial w.serial = .ok w := by
  have hback : ∀ v : Value, ofSerial v.serial = .ok v.plain := by
    intro v
    obtain ⟨j, hj, hvalue⟩ := exists_store hlibrary v
    rw [ofSerial, hj]
    exact congrArg Except.ok hvalue
  refine ⟨v.plain, hback v, same_mapNumbers same_plainOrNull v, rfl, ?_⟩
  rw [hback v.plain]
  exact congrArg Except.ok (mapNumbers_mapNumbers mapNumbers_plainOrNull v)

end Library

open Json.Strict

/-- Not a number, the negative zero, the integer behind `2 ^ 53 + 1`, and `10 ^ 17`, the first
integer that is taken for a float. -/
theorem ofSerial_serial_mixed :
    let v := sequence [number (.ofBits 0x7FF8000000000000), map (.ofList
      [("a".toList, number (.ofBits 0x8000000000000000)),
        ("b".toList, number (.ofBits 0x4340000000000001))]),
      number (.ofBits 0x4376345785D8A000)]
    Json.Library.Stores ∧ ofSerial v.serial = .ok (sequence [null, map (.ofList
      [("a".toList, number (.ofNat 0)), ("b".toList, number (.round 9007199254740994))]),
      number (.round 100000000000000000)]) := by
  intro v
  obtain ⟨w, hw, -, rfl, -⟩ := ofSerial_serial Json.Library.stores_strict v
  refine ⟨Json.Library.stores_strict, hw.trans (congrArg Except.ok ?_)⟩
  have hnan : Number.ofBits 0x7FF8000000000000 = .nan := by decide +kernel
  have hzero : Number.ofBits 0x8000000000000000 = .negativeZero := by decide +kernel
  have hlong : Number.ofBits 0x4340000000000001 = .round 9007199254740994 := by decide +kernel
  have hfloat : Number.ofBits 0x4376345785D8A000 = .round 100000000000000000 := by decide +kernel
  simp only [v, hnan, hzero, hlong, hfloat]
  rfl

end Value

end Stencil
