import Mathlib.Data.List.Forall2
import Stencil.Rendering

/-!
# What a run may do to frames

A run that opens and closes its own frames leaves the names of the frames below alone.  Values may
change there, since binding a name replaces its value in the frame that binds it already; only the
innermost frame can get names that it did not have.  `Scope.Keeps` says exactly that of two stacks
of frames, with the names that the run may have added, and everything that a run is made of keeps
it: nothing at all (`Keeps.refl`), one run after another (`Keeps.trans`), the binding of a name
(`grows_of_store`), and a run in a frame of its own that is closed behind it (`Local.of_grows`).

## Main Definitions

* `Frame.SameNames` — two frames bind the same names
* `Scope.Bound` — some frame binds a name
* `Scope.Keeps`, `Scope.Grows` — what may become of a stack of frames, and of a scope
* `Scope.Local` — what is left of a run in a frame of its own
-/

namespace Stencil

/-- Two frames bind the same names, whatever the values. -/
def Frame.SameNames (f g : Frame) : Prop := ∀ name, f.binds name = g.binds name

namespace Frame.SameNames

theorem refl (f : Frame) : SameNames f f := fun _ => rfl

theorem trans {f g h : Frame} (hfg : SameNames f g) (hgh : SameNames g h) : SameNames f h :=
  fun name => (hfg name).trans (hgh name)

/-- A new value for a name that a frame binds already. -/
theorem insert {f : Frame} {name : Text} (h : f.binds name) (v : Value) :
    SameNames f (Dict.insert name v f) := by
  intro other
  rw [Dict.binds_insert]
  by_cases he : other = name
  · subst he
    simpa using h
  · simp [he]

theorem forall₂_refl (fs : List Frame) : List.Forall₂ SameNames fs fs :=
  List.forall₂_same.2 fun f _ => refl f

theorem forall₂_trans {fs gs hs : List Frame} (hfg : List.Forall₂ SameNames fs gs)
    (hgh : List.Forall₂ SameNames gs hs) : List.Forall₂ SameNames fs hs := by
  induction hfg generalizing hs with
  | nil => exact hgh
  | cons hf _ ih =>
    cases hgh with
    | cons hg hgs => exact .cons (hf.trans hg) (ih hgs)

end Frame.SameNames

namespace Scope

/-- Some frame binds a name. -/
def Bound (name : Text) (frames : List Frame) : Prop := ∃ frame ∈ frames, frame.binds name

theorem bound_cons {name : Text} {frame : Frame} {frames : List Frame} :
    Bound name (frame :: frames) ↔ frame.binds name ∨ Bound name frames :=
  List.exists_mem_cons_iff _ _ _

/-- A frame that does not bind a name makes no difference to it. -/
theorem lookup?_cons_of_not_binds {name : Text} {frame : Frame} (h : ¬ frame.binds name)
    (frames : List Frame) : lookup? name (frame :: frames) = lookup? name frames := by
  rw [Dict.binds, Option.not_isSome_iff_eq_none] at h
  rw [lookup?, h, Option.none_or]

theorem bound_iff_of_sameNames {name : Text} {fs gs : List Frame}
    (h : List.Forall₂ Frame.SameNames fs gs) : Bound name fs ↔ Bound name gs := by
  induction h with
  | nil => rfl
  | cons hfg _ ih => rw [bound_cons, bound_cons, hfg name, ih]

/-! ## Stacks of frames before and after a run -/

/-- What a run that may add the given names does to a stack of frames: all frames but the innermost
bind the names they bound before, and the innermost binds its own and those of the given names that
no other frame binds. -/
inductive Keeps (names : List Text) : List Frame → List Frame → Prop
  | nil : Keeps names [] []
  | cons {inner inner' : Frame} {outer outer' : List Frame}
      (outer_same : List.Forall₂ Frame.SameNames outer outer')
      (inner_names : ∀ name,
        inner'.binds name ↔ inner.binds name ∨ name ∈ names ∧ ¬ Bound name outer) :
      Keeps names (inner :: outer) (inner' :: outer')

namespace Keeps

variable {names : List Text} {fs gs hs : List Frame}

/-- A run that adds no name keeps the names of every frame. -/
theorem nil_iff : Keeps [] fs gs ↔ List.Forall₂ Frame.SameNames fs gs := by
  constructor
  · rintro (_ | ⟨hsame, hnames⟩)
    · exact .nil
    · refine .cons ?_ hsame
      intro name
      rw [Bool.eq_iff_iff, hnames name]
      simp
  · rintro (_ | ⟨hf, hsame⟩)
    · exact .nil
    · refine .cons hsame ?_
      intro name
      rw [hf name]
      simp

theorem refl (fs : List Frame) : Keeps [] fs fs := nil_iff.2 (Frame.SameNames.forall₂_refl fs)

theorem length_eq (h : Keeps names fs gs) : fs.length = gs.length := by
  cases h with
  | nil => rfl
  | cons hsame _ => rw [List.length_cons, List.length_cons, hsame.length_eq]

/-- The frames below the innermost one keep their names. -/
theorem tail (h : Keeps names fs gs) : List.Forall₂ Frame.SameNames fs.tail gs.tail := by
  cases h with
  | nil => exact .nil
  | cons hsame _ => exact hsame

/-- One run after another may add the names of both. -/
theorem trans {names' : List Text} (h : Keeps names fs gs) (h' : Keeps names' gs hs) :
    Keeps (names ++ names') fs hs := by
  cases h with
  | nil =>
    cases h'
    exact .nil
  | cons hsame hnames =>
    cases h' with
    | cons hsame' hnames' =>
      refine .cons (Frame.SameNames.forall₂_trans hsame hsame') ?_
      -- What the second run may add is judged by the frames it finds, which bind the same names.
      intro name
      rw [hnames', hnames, ← bound_iff_of_sameNames hsame, List.mem_append, or_and_right, or_assoc]

end Keeps

/-- What a run that may add the given names does to a scope. -/
structure Grows (names : List Text) (s s' : Scope) : Prop where
  frames : Keeps names s.frames s'.frames
  model : s'.model = s.model

namespace Grows

variable {names names' : List Text} {s s' s'' : Scope}

theorem refl (s : Scope) : Grows [] s s := ⟨Keeps.refl s.frames, rfl⟩

theorem trans (h : Grows names s s') (h' : Grows names' s' s'') : Grows (names ++ names') s s'' :=
  ⟨h.frames.trans h'.frames, h'.model.trans h.model⟩

theorem depth_eq (h : Grows names s s') : s'.depth = s.depth := h.frames.length_eq.symm

theorem frames_eq_nil_iff (h : Grows names s s') : s'.frames = [] ↔ s.frames = [] := by
  rw [← List.length_eq_zero_iff, ← List.length_eq_zero_iff, h.frames.length_eq]

end Grows

/-! ## Binding a name -/

/-- A new value for a name that some frame binds already leaves the names of every frame alone. -/
theorem sameNames_of_replace? {name : Text} {v : Value} {fs gs : List Frame}
    (h : replace? name v fs = some gs) : List.Forall₂ Frame.SameNames fs gs := by
  induction fs generalizing gs with
  | nil => cases h
  | cons f fs ih =>
    rw [replace?] at h
    split at h
    · next hbinds =>
      obtain rfl := Option.some.inj h
      exact .cons (Frame.SameNames.insert hbinds v) (Frame.SameNames.forall₂_refl fs)
    · obtain ⟨gs, hgs, rfl⟩ := Option.map_eq_some_iff.1 h
      exact .cons (Frame.SameNames.refl f) (ih hgs)

theorem replace?_eq_none_iff {name : Text} {v : Value} {fs : List Frame} :
    replace? name v fs = none ↔ ¬ Bound name fs := by
  induction fs with
  | nil => simp [replace?, Bound]
  | cons f fs ih =>
    rw [replace?, bound_cons, not_or, ← ih]
    split
    · next hbinds => simp [hbinds]
    · next hbinds => simp [hbinds]

/-- Binding a name adds at most that name, to the innermost frame. -/
theorem grows_of_store {s s' : Scope} {name : Text} {v : Value}
    (h : s.store name v = (.ok (), s')) : Grows [name] s s' := by
  rw [store] at h
  split at h
  · next frames hreplace =>
    obtain rfl := (Prod.mk.inj h).2
    refine ⟨?_, rfl⟩
    have hbound : Bound name s.frames := by
      by_contra hnot
      rw [replace?_eq_none_iff.2 hnot] at hreplace
      cases hreplace
    have hsame : List.Forall₂ Frame.SameNames s.frames frames := sameNames_of_replace? hreplace
    generalize s.frames = fs at hbound hsame
    cases hsame with
    | nil => exact .nil
    | @cons f g fs gs hf hrest =>
      refine .cons hrest ?_
      intro other
      rw [← hf other, List.mem_singleton]
      refine ⟨.inl, ?_⟩
      rintro (hother | ⟨rfl, hnot⟩)
      · exact hother
      · exact (bound_cons.1 hbound).resolve_right hnot
  · next hreplace =>
    split at h
    · cases h
    · next f fs hframes =>
      obtain rfl := (Prod.mk.inj h).2
      refine ⟨?_, rfl⟩
      rw [replace?_eq_none_iff, hframes, bound_cons, not_or] at hreplace
      rw [hframes]
      refine .cons (Frame.SameNames.forall₂_refl fs) ?_
      intro other
      rw [Dict.binds_insert, Bool.or_eq_true, decide_eq_true_eq, List.mem_singleton]
      constructor
      · rintro (rfl | hother)
        · exact .inr ⟨rfl, hreplace.2⟩
        · exact .inl hother
      · rintro (hother | ⟨rfl, -⟩)
        · exact .inr hother
        · exact .inl rfl

/-- A name can be bound as soon as there is a frame. -/
theorem exists_store {s : Scope} (h : s.frames ≠ []) (name : Text) (v : Value) :
    ∃ s', s.store name v = (.ok (), s') := by
  rw [store]
  split
  · exact ⟨_, rfl⟩
  · split
    · next hnil => exact absurd hnil h
    · exact ⟨_, rfl⟩

/-- A name that is bound in the innermost frame has the value it was bound to. -/
theorem lookup?_insert_cons (name other : Text) (v : Value) (f : Frame) (fs : List Frame) :
    lookup? other (Dict.insert name v f :: fs) =
      if other = name then some v else lookup? other (f :: fs) := by
  rw [lookup?, lookup?, Dict.get?_insert]
  by_cases h : other = name
  · rw [if_pos h, if_pos h, Option.some_or]
  · rw [if_neg h, if_neg h]

/-- A name that is bound anew where it was bound has the value it was bound to. -/
theorem lookup?_of_replace? {name : Text} {v : Value} {fs gs : List Frame}
    (h : replace? name v fs = some gs) (other : Text) :
    lookup? other gs = if other = name then some v else lookup? other fs := by
  induction fs generalizing gs with
  | nil => cases h
  | cons f fs ih =>
    rw [replace?] at h
    split at h
    · obtain rfl := Option.some.inj h
      exact lookup?_insert_cons name other v f fs
    · next hbinds =>
      obtain ⟨gs, hgs, rfl⟩ := Option.map_eq_some_iff.1 h
      by_cases he : other = name
      · subst he
        rw [lookup?_cons_of_not_binds hbinds, ih hgs, if_pos rfl, if_pos rfl]
      · rw [lookup?, lookup?, ih hgs, if_neg he, if_neg he]

/-- Binding a name gives it the value and leaves the values of all other names alone. -/
theorem lookup?_of_store {s s' : Scope} {name : Text} {v : Value}
    (h : s.store name v = (.ok (), s')) (other : Text) :
    lookup? other s'.frames = if other = name then some v else lookup? other s.frames := by
  rw [store] at h
  split at h
  · next frames hreplace =>
    obtain rfl := (Prod.mk.inj h).2
    exact lookup?_of_replace? hreplace other
  · next hreplace =>
    split at h
    · cases h
    · next f fs hframes =>
      obtain rfl := (Prod.mk.inj h).2
      rw [hframes]
      exact lookup?_insert_cons name other v f fs

/-- The value of a name that some frame binds. -/
theorem load_of_lookup? {s : Scope} {name : Text} {v : Value}
    (hname : Text.splitDot name = (name, none)) (hv : lookup? name s.frames = some v) :
    s.load name = pure (some v) := by
  rw [load, hname]
  dsimp only
  rw [hv]

/-! ## Frames of their own -/

/-- What is left of a run from a scope `s`, in a frame of its own, that ends in the scope `inner`:
behind the frame the names are those of `s`, and each of them has the value that the run gave it
last. -/
structure Local (s inner left : Scope) : Prop where
  closed : closeFrame inner = .ok left
  model : left.model = s.model
  same : List.Forall₂ Frame.SameNames s.frames left.frames
  kept : ∀ name, Bound name s.frames → lookup? name left.frames = lookup? name inner.frames

/-- Whatever names a run adds, in a frame of its own it leaves nothing but values behind. -/
theorem Local.of_grows {names : List Text} {s inner : Scope} (h : Grows names s.push inner) :
    ∃ left, Local s inner left := by
  obtain ⟨frames, model⟩ := inner
  obtain rfl : model = s.model := h.model
  rcases h.frames with _ | @⟨_, inner, _, outer, hsame, hnames⟩
  refine ⟨⟨outer, s.model⟩, rfl, rfl, hsame, ?_⟩
  -- The frame that is closed binds no name of the others, so nothing is hidden behind it.
  intro name hbound
  have hnot : ¬ inner.binds name := by
    rw [hnames name]
    rintro (hempty | ⟨-, hnot⟩)
    · cases hempty
    · exact hnot hbound
  exact (lookup?_cons_of_not_binds hnot outer).symm

theorem Local.depth_eq {s inner left : Scope} (h : Local s inner left) : left.depth = s.depth :=
  h.same.length_eq.symm

end Scope

end Stencil
