import Mathlib.Tactic.Common
import Stencil.Json.Strict
import Stencil.Template

/-!
# JSON data as a model

JSON data answers a key path by walking over its own objects and arrays and makes a value of what
stands at the end.  Making a value of all of it first and walking over the value comes to the same:
one step of a key path commutes with the conversion (`attr?_toValue`), and `@count`, which the two
walks treat at different places, leads to a number, from which no piece leads on
(`follow?_number_cons`).
-/

namespace Stencil

namespace Json

/-! ## Counts -/

/-- `@count` is no numeral, so no item of an array stands in its way. -/
theorem index?_countKey : Text.index? Value.countKey = none := by decide

/-- No piece of a key path leads on from a number. -/
theorem follow?_number_cons (x : Number) (piece : Text) (pieces : List Text) :
    (Value.number x).follow? (piece :: pieces) = none := by
  have hattr : (Value.number x).attr? piece = none := ite_self none
  rw [Value.follow?, List.foldlM_cons, hattr]
  rfl

/-- Behind `@count` nothing is found. -/
theorem countValue?_bind_follow? (v : Value) (piece : Text) (pieces : List Text) :
    (v.countValue?.bind fun n => n.follow? (piece :: pieces)) = none := by
  rw [Value.countValue?]
  cases v.count? with
  | none => rfl
  | some n => exact follow?_number_cons _ piece pieces

section Library

variable [Library]

/-! ## The parts of converted data -/

@[simp] theorem itemValues_eq_map (items : List Json) : itemValues items = items.map toValue := by
  induction items with
  | nil => rfl
  | cons j rest ih => rw [itemValues, ih, List.map_cons]

theorem memberValues_eq_map {low : Option Text} (members : Dict Json low) :
    memberValues members = members.map toValue := by
  induction members with
  | nil => rfl
  | cons k j behind rest ih => rw [memberValues, ih, Dict.map]

/-- A name of an object is bound to the value of its member. -/
theorem get?_memberValues (name : Text) (members : Dict Json none) :
    (memberValues members).get? name = (members.get? name).map toValue := by
  rw [memberValues_eq_map, Dict.get?_map]

/-! ## One step -/

/-- **A step commutes with the conversion**; where there is no step, `@count` stands for the number
of parts. -/
theorem attr?_toValue (j : Json) (name : Text) :
    j.toValue.attr? name =
      ((j.step? name).map toValue).or
        (if name = Value.countKey then j.toValue.countValue? else none) := by
  cases j with
  | null | bool | string => rfl
  | number n =>
    rw [toValue]
    cases Library.number? n <;> rfl
  | object members =>
    rw [toValue, Value.attr?, step?, get?_memberValues]
  | array items =>
    rw [toValue, step?, itemValues_eq_map]
    simp only [Value.attr?]
    cases hindex : Text.index? name with
    | none => rfl
    | some i =>
      have hname : name ≠ Value.countKey := by
        rintro rfl
        rw [index?_countKey] at hindex
        cases hindex
      rw [if_neg hname, Option.or_none]
      exact List.getElem?_map

/-! ## Whole paths -/

/-- The pieces of a key path lead to the same value before and after the conversion. -/
theorem resolvePieces?_eq_follow? (j : Json) (pieces : List Text) :
    j.resolvePieces? pieces = j.toValue.follow? pieces := by
  induction pieces generalizing j with
  | nil => rfl
  | cons piece pieces ih =>
    have hfollow : j.toValue.follow? (piece :: pieces) =
        (j.toValue.attr? piece).bind fun v => v.follow? pieces := List.foldlM_cons ..
    rw [hfollow, resolvePieces?, attr?_toValue]
    cases j.step? piece with
    | some part => exact ih part
    | none =>
      rw [Option.map_none, Option.none_or]
      by_cases hpiece : piece = Value.countKey
      · cases pieces with
        | nil => simp [hpiece, Value.follow?]
        | cons next pieces => simp [hpiece, countValue?_bind_follow?]
      · simp [hpiece]

/-- JSON data and its value are the same model. -/
theorem ofJson_eq_ofValue (j : Json) : Model.ofJson j = Model.ofValue j.toValue := by
  refine congrArg Model.mk (funext fun path => ?_)
  exact resolvePieces?_eq_follow? j (Text.segments path)

/-- **A model of JSON data answers like the value of the data.**  Every key path leads to the same
value in both, whatever its pieces are, and so every template renders the same over both: with the
same output, the same debug values and the same error. -/
theorem resolve?_eq_walk? (j : Json) :
    (∀ path, j.resolve? path = j.toValue.walk? path) ∧
      ∀ t : Template, t.render (.ofJson j) = t.render (.ofValue j.toValue) ∧
        ∀ limit, t.renderTo (.ofJson j) limit = t.renderTo (.ofValue j.toValue) limit := by
  have hmodel : Model.ofJson j = Model.ofValue j.toValue := ofJson_eq_ofValue j
  refine ⟨fun path => resolvePieces?_eq_follow? j (Text.segments path), fun t => ⟨?_, ?_⟩⟩
  · rw [hmodel]
  · intro limit
    rw [hmodel]

end Library

open Strict

/-- A key that is `@count` itself, a count, and a count with a piece behind it. -/
example :
    let j : Json := .object (.ofList [("@count".toList, .array [.null, .null])])
    (j.resolve? "@count.@count".toList).map Value.text = some "2".toList ∧
      (j.resolve? "@count.@count.@count".toList).isNone := by
  decide +kernel

end Json

end Stencil
