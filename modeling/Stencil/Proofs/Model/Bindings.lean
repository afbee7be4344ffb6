import Stencil.Proofs.Model.Json
import Stencil.Proofs.Rendering.Answers

/-!
# Values by name and the map of them

A map can be a model as a value, and its entries can be one by themselves: values by name.  The
first step of a key path is then another one.  A value looks for a key and falls back on `@count`,
the number of its parts; the bindings are only looked through for the name.  Behind the first step
both walk over the same value, so the whole difference is the path `@count` where nothing is bound
to this name (`Model.resolve_ofBindings`).

In which order the bindings stand does not matter, as no name has two of them
(`Dict.lookup_of_perm`).
-/

namespace Stencil

namespace Dict

variable {α : Type} {low : Option Text} {name : Text} {v : α} {d : Dict α low}
  {bindings : List (Text × α)}

theorem lookup_toList (name : Text) (d : Dict α low) : d.toList.lookup name = d.get? name := by
  induction d with
  | nil => rfl
  | cons k v hk rest ih =>
    rw [toList, List.lookup_cons, ih, get?]
    by_cases hname : k = name
    · rw [if_pos hname, beq_iff_eq.2 hname.symm]
    · rw [if_neg hname, beq_eq_false_iff_ne.2 (Ne.symm hname)]

/-- The names of a dictionary are different from each other. -/
theorem pairwise_ne (d : Dict α low) : d.toList.Pairwise fun x y => x.1 ≠ y.1 := by
  refine d.pairwise_toList.imp ?_
  intro x y hlt heq
  rw [heq] at hlt
  exact List.lt_irrefl _ hlt

theorem lookup_eq_some_iff_mem (h : bindings.Pairwise fun x y => x.1 ≠ y.1) :
    bindings.lookup name = some v ↔ (name, v) ∈ bindings := by
  rw [List.lookup_eq_some_iff]
  constructor
  · rintro ⟨front, back, rfl, -⟩
    exact List.mem_append_right _ List.mem_cons_self
  · intro hmem
    obtain ⟨front, back, rfl⟩ := List.append_of_mem hmem
    refine ⟨front, back, rfl, fun x hx => bne_iff_ne.2 ?_⟩
    exact ((List.pairwise_append.1 h).2.2 x hx _ List.mem_cons_self).symm

/-- The order of bindings is of no account if no name has two of them. -/
theorem lookup_of_perm (h : bindings.Perm d.toList) (name : Text) :
    bindings.lookup name = d.get? name := by
  have hbindings : bindings.Pairwise fun x y => x.1 ≠ y.1 :=
    h.symm.pairwise d.pairwise_ne fun hne => hne.symm
  refine Option.ext fun v => ?_
  rw [← lookup_toList, lookup_eq_some_iff_mem hbindings, lookup_eq_some_iff_mem d.pairwise_ne,
    h.mem_iff]

end Dict

/-! ## The first step -/

namespace Value

/-- Behind the first piece both walks are the same; `@count` leads nowhere if it is not bound. -/
theorem walk?_map (entries : Dict Value none) (path : Text) :
    (map entries).walk? path =
      ((Model.ofBindings entries.toList).resolve path).or
        (if path = countKey then some (number (.ofNat entries.size)) else none) := by
  have hcounted : (map entries).countValue? = some (number (.ofNat entries.size)) := rfl
  rw [walk?, Text.segments_eq, Model.ofBindings]
  simp only [Dict.lookup_toList]
  cases hsplit : Text.splitDot path with
  | mk name rest =>
    cases rest with
    | none =>
      obtain rfl := Text.eq_of_splitDot hsplit
      rw [follow?, List.foldlM_cons, ← hcounted]
      exact Option.bind_fun_some _
    | some rest =>
      have hpath : path ≠ countKey := by
        rintro rfl
        cases hsplit
      rw [if_neg hpath, Option.or_none]
      show (((entries.get? name).or
        (if name = countKey then (map entries).countValue? else none)).bind
          fun v => v.follow? (Text.segments rest)) =
        (entries.get? name).bind fun v => v.walk? rest
      cases entries.get? name with
      | some v => rfl
      | none =>
        obtain ⟨piece, pieces, hpieces⟩ :=
          List.exists_cons_of_ne_nil (Text.segments_ne_nil rest)
        rw [hpieces, Option.none_or]
        split
        · exact Json.countValue?_bind_follow? _ piece pieces
        · rfl

end Value

/-! ## Models -/

namespace Model

/-- Values by name answer like the map of them, but for `@count` where nothing has this name. -/
theorem resolve_ofBindings (entries : Dict Value none) (path : Text) :
    (ofBindings entries.toList).resolve path =
      if path = Value.countKey ∧ ¬ entries.binds Value.countKey then none
      else (ofValue (.map entries)).resolve path := by
  show _ = if _ then none else (Value.map entries).walk? path
  rw [Value.walk?_map]
  by_cases hpath : path = Value.countKey
  · subst hpath
    have hresolve : (ofBindings entries.toList).resolve Value.countKey =
        entries.get? Value.countKey := Dict.lookup_toList _ _
    rw [hresolve, Dict.binds]
    cases entries.get? Value.countKey <;> rfl
  · rw [if_neg fun h => hpath h.1, if_neg hpath, Option.or_none]

theorem ofBindings_of_perm {entries : Dict Value none} {bindings : List (Text × Value)}
    (hperm : bindings.Perm entries.toList) : ofBindings bindings = ofBindings entries.toList := by
  simp only [ofBindings, Dict.lookup_of_perm hperm, Dict.lookup_toList]

/-- **Values by name against the map of them.**  In whatever order the entries of a map stand, as
values by name they are one model.  It answers every key path as the map does, with one exception:
if no entry has the name `@count`, the path `@count` has no value, whereas for the map it has the
number of its entries.  So the two models are the same exactly if there is such an entry, and every
template that does not ask for this path renders the same over both. -/
theorem bindings_against_map [Json.Library] {entries : Dict Value none}
    {bindings : List (Text × Value)} (hperm : bindings.Perm entries.toList) :
    ofBindings bindings = ofBindings entries.toList ∧
      (∀ path, (ofBindings bindings).resolve path =
        if path = Value.countKey ∧ ¬ entries.binds Value.countKey then none
        else (ofValue (.map entries)).resolve path) ∧
      (¬ entries.binds Value.countKey →
        (ofValue (.map entries)).resolve Value.countKey =
          some (.number (.ofNat entries.size))) ∧
      (ofBindings bindings = ofValue (.map entries) ↔ entries.binds Value.countKey) ∧
      ∀ t : Template,
        entries.binds Value.countKey ∨
            Value.countKey ∉ Event.queries (t.render (ofBindings bindings)).events →
          t.render (ofValue (.map entries)) = t.render (ofBindings bindings) ∧
            ∀ limit, t.renderTo (ofValue (.map entries)) limit =
              t.renderTo (ofBindings bindings) limit := by
  have hperm := ofBindings_of_perm hperm
  rw [hperm]
  have hcount : ¬ entries.binds Value.countKey → (ofValue (.map entries)).resolve Value.countKey =
      some (.number (.ofNat entries.size)) := by
    intro hunbound
    have hresolve := resolve_ofBindings entries Value.countKey
    rw [if_pos ⟨rfl, hunbound⟩] at hresolve
    show (Value.map entries).walk? Value.countKey = _
    rw [Value.walk?_map, hresolve, if_pos rfl, Option.none_or]
  refine ⟨rfl, resolve_ofBindings entries, hcount, ⟨fun heq => ?_, fun hbound => ?_⟩, ?_⟩
  · by_contra hunbound
    have hresolve := resolve_ofBindings entries Value.countKey
    rw [if_pos ⟨rfl, hunbound⟩, heq, hcount hunbound] at hresolve
    cases hresolve
  · refine congrArg Model.mk (funext fun path => ?_)
    exact (resolve_ofBindings entries path).trans (if_neg fun h => h.2 hbound)
  · intro t ht
    have hanswers : AnswersAlike (ofBindings entries.toList) (ofValue (.map entries))
        (t.render (ofBindings entries.toList)).events := by
      intro path hpath
      rw [resolve_ofBindings, if_neg]
      rintro ⟨rfl, hunbound⟩
      exact ht.elim hunbound fun hnot => hnot hpath
    have hrender := Template.render_eq_of_answersAlike hanswers
    refine ⟨hrender, fun limit => ?_⟩
    rw [Template.renderTo, Template.renderTo, hrender]

/-- The bindings of two letters. -/
def letters : Dict Value none := .ofList [("a".toList, .string "x".toList), ("b".toList, .null)]

open Json.Strict

/-- Two bindings in the other order, and a template that asks for one of them. -/
theorem bindings_against_map_letters :
    ofBindings letters.toList.reverse = ofBindings letters.toList ∧
      (Template.ofSource "{% a %}".toList).render (ofValue (.map letters)) =
        (Template.ofSource "{% a %}".toList).render (ofBindings letters.toList.reverse) := by
  have hasked : Value.countKey ∉ Event.queries ((Template.ofSource "{% a %}".toList).render
      (ofBindings letters.toList.reverse)).events := by
    decide +kernel
  obtain ⟨hsame, -, -, -, hrender⟩ :=
    bindings_against_map (List.reverse_perm letters.toList)
  exact ⟨hsame, (hrender (.ofSource "{% a %}".toList) (.inr hasked)).1⟩

/-- **The number of entries is missing**: the path `@count` has a value in the map and none in the
bindings, and a template that asks for it writes nothing over them. -/
theorem bindings_without_count :
    (ofValue (.map letters)).resolve Value.countKey = some (.number (.ofNat 2)) ∧
      (ofBindings letters.toList).resolve Value.countKey = none ∧
      Event.output ((Template.ofSource "{% @count %}".toList).render
        (ofValue (.map letters))).events = "2".toList ∧
      Event.output ((Template.ofSource "{% @count %}".toList).render
        (ofBindings letters.toList)).events = [] :=
  ⟨rfl, rfl, by decide +kernel, by decide +kernel⟩

end Model

end Stencil
