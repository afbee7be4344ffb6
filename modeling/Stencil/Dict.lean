import Stencil.Text.Basic

/-!
# Dictionaries

A dictionary binds texts.  Its bindings are in increasing order of the names, by code points, and
each of them carries the proof that its name comes behind the one in front of it.  So there is no
dictionary out of order, and two dictionaries with the same bindings are the same.

## Main Definitions

* `Dict` — bindings in increasing order of their names
* `Dict.get?`, `Dict.insert`, `Dict.erase` — the operations
* `Dict.toList`, `Dict.ofList` — the bindings as a list, and the dictionary of a list of bindings,
  of which the last of each name counts
-/

namespace Stencil

/-- Whether a name comes behind another one, if there is one. -/
def Dict.Behind : Option Text → Text → Prop
  | none, _ => True
  | some low, name => low < name

/-- Bindings in increasing order of their names, all of them behind `low` if that is a name. -/
inductive Dict (α : Type) : Option Text → Type
  | nil {low : Option Text} : Dict α low
  | cons {low : Option Text} (name : Text) (value : α) (behind : Dict.Behind low name)
      (rest : Dict α (some name)) : Dict α low

namespace Dict

variable {α β : Type} {low : Option Text}

instance : Inhabited (Dict α low) := ⟨nil⟩

theorem behind_none (name : Text) : Behind none name := trivial

theorem behind_some {name other : Text} (h : name < other) : Behind (some name) other := h

/-- What comes behind a name comes behind all that the name comes behind. -/
theorem Behind.trans {name other : Text} (h : Behind low name) (hother : Behind (some name) other) :
    Behind low other := by
  cases low with
  | none => exact behind_none other
  | some low => exact behind_some (List.lt_trans (show low < name from h) hother)

/-- Of two names one comes behind the other. -/
theorem behind_of_not_lt {name other : Text} (hne : name ≠ other) (h : ¬other < name) :
    Behind (some name) other :=
  behind_some ((Text.lt_or_gt_of_ne hne).resolve_right h)

/-- What a name is bound to. -/
def get? {low : Option Text} (name : Text) : Dict α low → Option α
  | nil => none
  | cons k v _ rest => if k = name then some v else get? name rest

/-- Whether a name is bound. -/
def binds (name : Text) (d : Dict α low) : Bool := (get? name d).isSome

/-- The bindings, in increasing order of the names. -/
def toList {low : Option Text} : Dict α low → List (Text × α)
  | nil => []
  | cons k v _ rest => (k, v) :: toList rest

/-- The values, in increasing order of the names. -/
def values (d : Dict α low) : List α := d.toList.map (·.2)

/-- The number of bindings. -/
def size (d : Dict α low) : Nat := d.toList.length

/-- Whether nothing is bound. -/
def isEmpty : Dict α low → Bool
  | nil => true
  | cons _ _ _ _ => false

/-- The same names with other values. -/
def map {low : Option Text} (f : α → β) : Dict α low → Dict β low
  | nil => nil
  | cons k v behind rest => cons k (f v) behind (map f rest)

/-- Binds a name that comes behind `low`, in place of what it was bound to before. -/
def insertBehind {low : Option Text} (name : Text) (h : Behind low name) (value : α) :
    Dict α low → Dict α low
  | nil => cons name value h nil
  | cons k v hk rest =>
    if hsame : k = name then cons k value hk rest
    else if hlt : name < k then cons name value h (cons k v (behind_some hlt) rest)
    else cons k v hk (insertBehind name (behind_of_not_lt hsame hlt) value rest)

/-- Binds a name, in place of what it was bound to before. -/
def insert (name : Text) (value : α) (d : Dict α none) : Dict α none :=
  insertBehind name (behind_none name) value d

/-- Bindings behind a name, as bindings behind what the name comes behind. -/
def lower {name : Text} (h : Behind low name) : Dict α (some name) → Dict α low
  | nil => nil
  | cons k v hk rest => cons k v (h.trans hk) rest

/-- Drops the binding of a name. -/
def erase {low : Option Text} (name : Text) : Dict α low → Dict α low
  | nil => nil
  | cons k v hk rest => if k = name then lower hk rest else cons k v hk (erase name rest)

/-- The dictionary of a list of bindings; a later binding of a name replaces an earlier one. -/
def ofList (bindings : List (Text × α)) : Dict α none :=
  bindings.foldl (fun d (name, value) => insert name value d) nil

/-! ## Bindings -/

@[simp] theorem toList_nil : (nil : Dict α low).toList = [] := rfl

@[simp] theorem toList_cons (name : Text) (value : α) (h : Behind low name)
    (rest : Dict α (some name)) : (cons name value h rest).toList = (name, value) :: rest.toList :=
  rfl

theorem behind_of_mem {d : Dict α low} {x : Text × α} (h : x ∈ d.toList) : Behind low x.1 := by
  induction d with
  | nil => cases h
  | cons name value hname rest ih =>
    rcases List.mem_cons.1 h with rfl | hrest
    · exact hname
    · exact hname.trans (ih hrest)

/-- The names increase from each binding to the next. -/
theorem pairwise_toList (d : Dict α low) : d.toList.Pairwise fun x y => x.1 < y.1 := by
  induction d with
  | nil => exact .nil
  | cons name value h rest ih => exact .cons (fun _ hx => behind_of_mem hx) ih

/-- A dictionary is no more than its bindings. -/
theorem toList_inj {d d' : Dict α low} (h : d.toList = d'.toList) : d = d' := by
  induction d with
  | nil =>
    cases d' with
    | nil => rfl
    | cons => cases h
  | cons name value hname rest ih =>
    cases d' with
    | nil => cases h
    | cons name' value' hname' rest' =>
      obtain ⟨hhead, htail⟩ := List.cons.inj h
      obtain ⟨rfl, rfl⟩ := Prod.mk.inj hhead
      rw [ih htail]

@[simp] theorem get?_map (f : α → β) (name : Text) (d : Dict α low) :
    get? name (d.map f) = (get? name d).map f := by
  induction d with
  | nil => rfl
  | cons k v hk rest ih =>
    rw [map, get?, get?, ih]
    split <;> rfl

@[simp] theorem toList_map (f : α → β) (d : Dict α low) :
    (d.map f).toList = d.toList.map fun x => (x.1, f x.2) := by
  induction d with
  | nil => rfl
  | cons k v hk rest ih => rw [map, toList_cons, toList_cons, List.map_cons, ih]

theorem map_congr {f g : α → β} {d : Dict α low} (h : ∀ x ∈ d.toList, f x.2 = g x.2) :
    d.map f = d.map g := by
  induction d with
  | nil => rfl
  | cons k v hk rest ih =>
    obtain ⟨hv, hrest⟩ := List.forall_mem_cons.1 h
    rw [map, map, ih hrest]
    exact congrArg (cons k · hk _) hv

theorem map_map {γ : Type} (f : α → β) (g : β → γ) (d : Dict α low) :
    (d.map f).map g = d.map fun v => g (f v) := by
  induction d with
  | nil => rfl
  | cons k v hk rest ih => rw [map, map, map, ih]

theorem get?_eq_none {name : Text} {d : Dict α low} (h : ∀ x ∈ d.toList, x.1 ≠ name) :
    get? name d = none := by
  induction d with
  | nil => rfl
  | cons k v hk rest ih =>
    obtain ⟨hne, hrest⟩ := List.forall_mem_cons.1 h
    rw [get?, if_neg hne, ih hrest]

/-- A name is not bound behind itself. -/
theorem get?_self_eq_none {name : Text} (d : Dict α (some name)) : get? name d = none := by
  apply get?_eq_none
  intro x hx heq
  exact List.lt_irrefl name (heq ▸ behind_of_mem hx)

/-! ## Binding and dropping names -/

theorem get?_insertBehind (name other : Text) (h : Behind low name) (value : α) (d : Dict α low) :
    get? other (insertBehind name h value d) =
      if other = name then some value else get? other d := by
  induction d with
  | nil => simp only [insertBehind, get?, eq_comm]
  | cons k v hk rest ih =>
    rw [insertBehind]
    split
    · next hsame =>
      subst hsame
      rw [get?, get?]
      by_cases hother : other = k
      · rw [if_pos hother.symm, if_pos hother]
      · rw [if_neg (Ne.symm hother), if_neg hother, if_neg (Ne.symm hother)]
    · next hne =>
      split
      · rw [get?, get?, get?]
        simp only [eq_comm]
      · rw [get?, get?, ih]
        by_cases hother : k = other
        · subst hother
          rw [if_pos rfl, if_neg hne, if_pos rfl]
        · rw [if_neg hother, if_neg hother]

theorem get?_insert (name other : Text) (value : α) (d : Dict α none) :
    get? other (insert name value d) = if other = name then some value else get? other d :=
  get?_insertBehind name other (behind_none name) value d

theorem binds_insert (name other : Text) (value : α) (d : Dict α none) :
    binds other (insert name value d) = (decide (other = name) || binds other d) := by
  rw [binds, binds, get?_insert]
  by_cases h : other = name
  · simp [h]
  · simp [h]

@[simp] theorem get?_lower (name : Text) {k : Text} (h : Behind low k) (d : Dict α (some k)) :
    get? name (lower h d) = get? name d := by
  cases d <;> rfl

/-- A name that is dropped is not bound any more. -/
theorem get?_erase (name other : Text) (d : Dict α low) :
    get? other (erase name d) = if other = name then none else get? other d := by
  induction d with
  | nil =>
    rw [erase, get?]
    split <;> rfl
  | cons k v hk rest ih =>
    rw [erase]
    by_cases hname : k = name
    · subst hname
      rw [if_pos rfl, get?_lower]
      by_cases hother : other = k
      · rw [if_pos hother, hother, get?_self_eq_none]
      · rw [if_neg hother, get?, if_neg (Ne.symm hother)]
    · rw [if_neg hname, get?, get?, ih]
      by_cases hother : k = other
      · subst hother
        rw [if_pos rfl, if_neg hname, if_pos rfl]
      · rw [if_neg hother, if_neg hother]

theorem binds_of_erase {name other : Text} {d : Dict α low} (h : binds other (erase name d)) :
    binds other d := by
  rw [binds, get?_erase] at h
  split at h
  · cases h
  · exact h

end Dict

end Stencil
