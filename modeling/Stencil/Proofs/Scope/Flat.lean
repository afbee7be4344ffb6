import Stencil.Proofs.Scope.Frames

/-!
# Scopes are flat

A scope searches its frames from the innermost outwards, replaces a value where it finds it and
forgets a frame with all that is in it.  A reader of a template need not know any of this: for him
there is one table of names, in which each bound name has a level and a value.  The two views agree
because no name is ever bound in two frames at once (`Scope.Apart`).  Nothing in a scope checks
that; it holds since every frame is opened empty and a name that is bound already is never bound
anew further inside.  What an action does to the frames is then what it does to the table
(`flat_act`), with the same answer, and a history is one action after another.

## Main Definitions

* `Environment` — names with levels and values, above a model
* `Scope.Action`, `Scope.Answer` — what can be done to a scope, and what comes back
* `Scope.act`, `Environment.act` — an action on a stack of frames and on the table
* `Scope.Apart` — no name is bound in two frames
* `Scope.flat` — the table of a scope
-/

namespace Stencil

/-- Names with levels and values, above a model that answers for all other names. -/
structure Environment where
  /-- The number of levels. -/
  depth : Nat
  /-- The level of a bound name, counted from zero for the outermost one, and its value. -/
  binding : Text → Option (Nat × Value)
  model : Model

/-! ## Actions -/

namespace Scope

/-- What can be done to a scope. -/
inductive Action
  | push
  | pop
  | truncate (depth : Nat)
  | store (name : Text) (v : Value)
  | remove (name : Text)
  | load (path : Text)

/-- What comes back. -/
inductive Answer
  | done
  | failed (fault : Fault)
  /-- What a frame that was closed had bound. -/
  | closed (values : Text → Option Value)
  /-- The value of a name that was dropped. -/
  | removed (v : Option Value)
  /-- The value of a key path, and whether the model was asked for it. -/
  | loaded (answer : Traced (Option Value))

/-- Does something to a scope. -/
def act (s : Scope) : Action → Answer × Scope
  | .push => (.done, s.push)
  | .pop =>
    match s.pop with
    | (.ok frame, s) => (.closed fun name => frame.get? name, s)
    | (.error fault, s) => (.failed fault, s)
  | .truncate depth => (.done, s.truncate depth)
  | .store name v =>
    match s.store name v with
    | (.ok (), s) => (.done, s)
    | (.error fault, s) => (.failed fault, s)
  | .remove name => (.removed (s.remove name).1, (s.remove name).2)
  | .load path => (.loaded (s.load path), s)

/-- One action after another, with all that comes back. -/
def runActions {σ : Type} (act : σ → Action → Answer × σ) (s : σ) : List Action → List Answer × σ
  | [] => ([], s)
  | a :: rest => ((act s a).1 :: (runActions act (act s a).2 rest).1,
      (runActions act (act s a).2 rest).2)

end Scope

namespace Environment

/-- No names above a model. -/
def ofModel (model : Model) : Environment := ⟨0, fun _ => none, model⟩

/-- The value of a name. -/
def value? (e : Environment) (name : Text) : Option Value := (e.binding name).map (·.2)

/-- The names on a level. -/
def onLevel (e : Environment) (level : Nat) (name : Text) : Option Value :=
  ((e.binding name).filter (·.1 = level)).map (·.2)

/-- Gives a name a level and a value. -/
def bind (e : Environment) (name : Text) (level : Nat) (v : Value) : Environment :=
  { e with binding := fun other => if other = name then some (level, v) else e.binding other }

/-- Drops a name. -/
def drop (e : Environment) (name : Text) : Environment :=
  { e with binding := fun other => if other = name then none else e.binding other }

/-- Drops the levels from the given one on, with all names that are bound there. -/
def truncate (e : Environment) (depth : Nat) : Environment :=
  { e with
    depth := min depth e.depth
    binding := fun name => (e.binding name).filter (·.1 < depth) }

/-- The value of a key path: its first piece decides whether the others lead on from a value or the
model is asked for the whole. -/
def load (e : Environment) (path : Text) : Traced (Option Value) :=
  match e.value? (Text.splitDot path).1 with
  | some v => pure ((Text.splitDot path).2.elim (some v) v.walk?)
  | none => ⟨e.model.resolve path, [.asked path]⟩

/-- Does something to an environment.  A name that is bound keeps its level; a new one goes to the
innermost level, if there is one. -/
def act (e : Environment) : Scope.Action → Scope.Answer × Environment
  | .push => (.done, { e with depth := e.depth + 1 })
  | .pop =>
    if e.depth = 0 then (.failed .popEmpty, e)
    else (.closed (e.onLevel (e.depth - 1)), e.truncate (e.depth - 1))
  | .truncate depth => (.done, e.truncate depth)
  | .store name v =>
    match e.binding name with
    | some (level, _) => (.done, e.bind name level v)
    | none =>
      if e.depth = 0 then (.failed .storeEmpty, e) else (.done, e.bind name (e.depth - 1) v)
  | .remove name => (.removed (e.value? name), e.drop name)
  | .load path => (.loaded (e.load path), e)

end Environment

/-! ## The table of a stack of frames -/

namespace Scope

/-- The level and the value of a name in the innermost frame that binds it. -/
def locate? (name : Text) : List Frame → Option (Nat × Value)
  | [] => none
  | frame :: rest => ((frame.get? name).map (rest.length, ·)).or (locate? name rest)

/-- The table of a scope. -/
def flat (s : Scope) : Environment := ⟨s.depth, fun name => locate? name s.frames, s.model⟩

section Locate

variable {name other : Text} {v : Value} {frame : Frame} {frames : List Frame}

theorem locate?_cons_of_some (h : frame.get? name = some v) :
    locate? name (frame :: frames) = some (frames.length, v) := by
  rw [locate?, h, Option.map_some, Option.some_or]

theorem locate?_cons_of_none (h : frame.get? name = none) :
    locate? name (frame :: frames) = locate? name frames := by
  rw [locate?, h, Option.map_none, Option.none_or]

/-- A name has the value that a search of the frames finds. -/
theorem map_locate? (name : Text) (frames : List Frame) :
    (locate? name frames).map (·.2) = lookup? name frames := by
  induction frames with
  | nil => rfl
  | cons frame rest ih =>
    cases hget : frame.get? name with
    | some v => rw [locate?_cons_of_some hget, lookup?, hget, Option.some_or, Option.map_some]
    | none => rw [locate?_cons_of_none hget, lookup?, hget, Option.none_or, ih]

theorem locate?_eq_none_iff : locate? name frames = none ↔ ¬ Bound name frames := by
  induction frames with
  | nil => simp [locate?, Bound]
  | cons frame rest ih =>
    rw [bound_cons, not_or, ← ih, Dict.binds]
    cases hget : frame.get? name with
    | some v => simp [locate?_cons_of_some hget]
    | none => simp [locate?_cons_of_none hget]

theorem level_lt {level : Nat} (h : locate? name frames = some (level, v)) :
    level < frames.length := by
  induction frames with
  | nil => cases h
  | cons frame rest ih =>
    cases hget : frame.get? name with
    | some w =>
      rw [locate?_cons_of_some hget] at h
      obtain ⟨rfl, -⟩ := Prod.mk.inj (Option.some.inj h)
      exact Nat.lt_succ_self _
    | none =>
      rw [locate?_cons_of_none hget] at h
      exact Nat.lt_succ_of_lt (ih h)

end Locate

/-! ## Frames apart -/

/-- No name is bound in two frames. -/
def Apart (frames : List Frame) : Prop :=
  frames.Pairwise fun f g => ∀ name, ¬ (f.binds name ∧ g.binds name)

namespace Apart

variable {name : Text} {v : Value} {frame frame' : Frame} {frames : List Frame}

theorem cons_iff : Apart (frame :: frames) ↔
    (∀ name, frame.binds name → ¬ Bound name frames) ∧ Apart frames := by
  constructor
  · intro h
    obtain ⟨hhead, htail⟩ := List.pairwise_cons.1 h
    refine ⟨?_, htail⟩
    rintro name hname ⟨other, hmem, hother⟩
    exact hhead other hmem name ⟨hname, hother⟩
  · rintro ⟨hhead, htail⟩
    refine List.pairwise_cons.2 ⟨?_, htail⟩
    intro other hmem name hname
    exact hhead name hname.1 ⟨other, hmem, hname.2⟩

theorem nil : Apart [] := List.Pairwise.nil

theorem push (h : Apart frames) : Apart (.nil :: frames) := cons_iff.2 ⟨nofun, h⟩

theorem tail (h : Apart (frame :: frames)) : Apart frames := (cons_iff.1 h).2

theorem drop (h : Apart frames) (n : Nat) : Apart (frames.drop n) :=
  List.Pairwise.sublist (List.drop_sublist n frames) h

/-- A name of the innermost frame is bound in no other one. -/
theorem locate?_tail_eq_none (h : Apart (frame :: frames)) (hget : frame.get? name = some v) :
    locate? name frames = none :=
  locate?_eq_none_iff.2 ((cons_iff.1 h).1 name (by rw [Dict.binds, hget]; rfl))

/-- A name that no outer frame binds can be bound in the innermost one. -/
theorem insert (h : Apart (frame :: frames)) (hname : ¬ Bound name frames) (v : Value) :
    Apart (Dict.insert name v frame :: frames) := by
  obtain ⟨hhead, hframes⟩ := cons_iff.1 h
  refine cons_iff.2 ⟨?_, hframes⟩
  intro other hother
  rw [Dict.binds_insert, Bool.or_eq_true, decide_eq_true_eq] at hother
  rcases hother with rfl | hother
  · exact hname
  · exact hhead other hother

/-- A new value for a name that is bound keeps the frames apart. -/
theorem replace? {gs : List Frame} (h : Apart frames)
    (hreplace : Scope.replace? name v frames = some gs) : Apart gs := by
  induction frames generalizing gs with
  | nil => cases hreplace
  | cons frame rest ih =>
    obtain ⟨hhead, hrest⟩ := cons_iff.1 h
    rw [Scope.replace?] at hreplace
    split at hreplace
    · next hbinds =>
      obtain rfl := Option.some.inj hreplace
      exact h.insert (hhead name hbinds) v
    · obtain ⟨gs, hgs, rfl⟩ := Option.map_eq_some_iff.1 hreplace
      refine cons_iff.2 ⟨?_, ih hrest hgs⟩
      intro other hother
      rw [← bound_iff_of_sameNames (sameNames_of_replace? hgs)]
      exact hhead other hother

/-- Dropping a name binds no other one. -/
theorem bound_of_erase {other : Text} (hbound : Bound other (Scope.erase name frames)) :
    Bound other frames := by
  induction frames with
  | nil => exact hbound
  | cons frame rest ih =>
    rw [Scope.erase] at hbound
    split at hbound
    · rw [bound_cons] at hbound ⊢
      exact hbound.imp_left Dict.binds_of_erase
    · rw [bound_cons] at hbound ⊢
      exact hbound.imp_right ih

theorem erase (h : Apart frames) (name : Text) : Apart (Scope.erase name frames) := by
  induction frames with
  | nil => exact nil
  | cons frame rest ih =>
    obtain ⟨hhead, hrest⟩ := cons_iff.1 h
    rw [Scope.erase]
    split
    · exact cons_iff.2 ⟨fun other hother => hhead other (Dict.binds_of_erase hother), hrest⟩
    · refine cons_iff.2 ⟨?_, ih hrest⟩
      intro other hother hbound
      exact hhead other hother (bound_of_erase hbound)

end Apart

/-! ## What the operations do to the table -/

section Table

variable {name : Text} {v : Value} {frames gs : List Frame}

/-- Closing frames drops exactly the names whose level is gone: an outer binding cannot come to
light, for there is none. -/
theorem locate?_drop (h : Apart frames) (n : Nat) (name : Text) :
    locate? name (frames.drop n) =
      (locate? name frames).filter (·.1 < frames.length - n) := by
  induction frames generalizing n with
  | nil => simp [locate?]
  | cons frame rest ih =>
    cases n with
    | zero =>
      rw [List.drop_zero, Nat.sub_zero]
      cases hlocate : locate? name (frame :: rest) with
      | none => rfl
      | some b =>
        have hlevel : b.1 < (frame :: rest).length := level_lt hlocate
        simp only [Option.filter_some, hlevel, decide_true, if_true]
    | succ n =>
      rw [List.drop_succ_cons, ih h.tail n, List.length_cons, Nat.add_sub_add_right]
      cases hget : frame.get? name with
      | some v =>
        have hgone : ¬ rest.length < rest.length - n := Nat.not_lt.2 (Nat.sub_le _ _)
        rw [locate?_cons_of_some hget, h.locate?_tail_eq_none hget]
        simp only [Option.filter_none, Option.filter_some, hgone, decide_false, Bool.false_eq_true,
          if_false]
      | none => rw [locate?_cons_of_none hget]

/-- The innermost frame holds exactly the names of the innermost level. -/
theorem get?_eq_onLevel {frame : Frame} (model : Model) :
    (fun name => frame.get? name) =
      (flat ⟨frame :: frames, model⟩).onLevel frames.length := by
  funext name
  simp only [Environment.onLevel, flat]
  cases hget : frame.get? name with
  | some v =>
    rw [locate?_cons_of_some hget]
    simp only [Option.filter_some, decide_true, if_true, Option.map_some]
  | none =>
    rw [locate?_cons_of_none hget]
    refine (Option.map_eq_none_iff.2 (Option.filter_eq_none_iff.2 ?_)).symm
    intro b hb
    simpa using Nat.ne_of_lt (level_lt hb)

/-- A name that the innermost frame binds has its level. -/
theorem locate?_insert {frame : Frame} (other : Text) :
    locate? other (Dict.insert name v frame :: frames) =
      if other = name then some (frames.length, v) else locate? other (frame :: frames) := by
  rw [locate?, locate?, Dict.get?_insert]
  by_cases hother : other = name
  · rw [if_pos hother, if_pos hother, Option.map_some, Option.some_or]
  · rw [if_neg hother, if_neg hother]

/-- A new value for a name that is bound leaves its level alone. -/
theorem locate?_of_replace? (h : replace? name v frames = some gs) :
    ∃ level old, locate? name frames = some (level, old) ∧
      ∀ other, locate? other gs =
        if other = name then some (level, v) else locate? other frames := by
  induction frames generalizing gs with
  | nil => cases h
  | cons frame rest ih =>
    rw [replace?] at h
    split at h
    · next hbinds =>
      obtain rfl := Option.some.inj h
      obtain ⟨old, hold⟩ := Option.isSome_iff_exists.1 hbinds
      refine ⟨rest.length, old, locate?_cons_of_some hold, ?_⟩
      intro other
      exact locate?_insert other
    · next hbinds =>
      have hnone : frame.get? name = none := by
        rwa [Dict.binds, Option.not_isSome_iff_eq_none] at hbinds
      obtain ⟨gs, hgs, rfl⟩ := Option.map_eq_some_iff.1 h
      obtain ⟨level, old, hlocate, hothers⟩ := ih hgs
      refine ⟨level, old, (locate?_cons_of_none hnone).trans hlocate, ?_⟩
      have hlength : gs.length = rest.length := (sameNames_of_replace? hgs).length_eq.symm
      intro other
      rw [locate?, locate?, hothers, hlength]
      by_cases hother : other = name
      · rw [if_pos hother, if_pos hother, hother, hnone, Option.map_none, Option.none_or]
      · rw [if_neg hother, if_neg hother]

theorem length_erase (name : Text) (frames : List Frame) :
    (erase name frames).length = frames.length := by
  induction frames with
  | nil => rfl
  | cons frame rest ih =>
    rw [erase]
    split
    · rfl
    · rw [List.length_cons, List.length_cons, ih]

/-- A name that is dropped is bound nowhere, for it was bound only once. -/
theorem locate?_erase (h : Apart frames) (other : Text) :
    locate? other (erase name frames) =
      if other = name then none else locate? other frames := by
  induction frames with
  | nil => simp [erase, locate?]
  | cons frame rest ih =>
    obtain ⟨hhead, hrest⟩ := Apart.cons_iff.1 h
    rw [erase]
    by_cases hbinds : frame.binds name
    · rw [if_pos hbinds, locate?, locate?, Dict.get?_erase]
      by_cases hother : other = name
      · rw [if_pos hother, if_pos hother, hother, Option.map_none, Option.none_or]
        exact locate?_eq_none_iff.2 (hhead name hbinds)
      · rw [if_neg hother, if_neg hother]
    · have hnone : frame.get? name = none := by
        rwa [Dict.binds, Option.not_isSome_iff_eq_none] at hbinds
      rw [if_neg hbinds, locate?, locate?, ih hrest, length_erase]
      by_cases hother : other = name
      · rw [if_pos hother, if_pos hother, hother, hnone, Option.map_none, Option.none_or]
      · rw [if_neg hother, if_neg hother]

end Table

theorem flat_push (s : Scope) : s.push.flat = { s.flat with depth := s.flat.depth + 1 } := by
  simp only [flat, push, depth, List.length_cons]
  congr 1

theorem flat_truncate {s : Scope} (h : Apart s.frames) (depth : Nat) :
    (s.truncate depth).flat = s.flat.truncate depth := by
  have hbinding : (fun name => locate? name (s.frames.drop (s.depth - depth))) =
      fun name => (locate? name s.frames).filter (·.1 < depth) := by
    funext name
    rw [locate?_drop h, ← Scope.depth]
    cases hlocate : locate? name s.frames with
    | none => rfl
    | some b =>
      have hlevel : b.1 < s.depth := level_lt hlocate
      have hiff : b.1 < s.depth - (s.depth - depth) ↔ b.1 < depth := by omega
      simp only [Option.filter_some, hiff]
  simp only [flat, Environment.truncate, depth_truncate]
  rw [truncate, hbinding]

theorem flat_remove {s : Scope} (h : Apart s.frames) (name : Text) :
    (s.remove name).2.flat = s.flat.drop name := by
  have hbinding : (fun other => locate? other (erase name s.frames)) =
      fun other => if other = name then none else locate? other s.frames :=
    funext fun other => locate?_erase h other
  simp only [flat, Environment.drop, remove, depth, length_erase, hbinding]

/-- Binding a name: where it is bound already, or else in the innermost frame, if there is one. -/
theorem flat_act_store {s : Scope} (h : Apart s.frames) (name : Text) (v : Value) :
    (s.act (.store name v)).1 = (s.flat.act (.store name v)).1 ∧
      (s.act (.store name v)).2.flat = (s.flat.act (.store name v)).2 ∧
      Apart (s.act (.store name v)).2.frames := by
  obtain ⟨frames, model⟩ := s
  cases hreplace : replace? name v frames with
  | some gs =>
    obtain ⟨level, old, hlocate, hothers⟩ := locate?_of_replace? hreplace
    have hlength : gs.length = frames.length := (sameNames_of_replace? hreplace).length_eq.symm
    have hact : act ⟨frames, model⟩ (.store name v) = (.done, ⟨gs, model⟩) := by
      simp only [act, store, hreplace]
    have hflat : (flat ⟨frames, model⟩).act (.store name v) =
        (.done, (flat ⟨frames, model⟩).bind name level v) := by
      simp only [Environment.act, flat, hlocate]
    rw [hact, hflat]
    refine ⟨rfl, ?_, h.replace? hreplace⟩
    simp only [flat, Environment.bind, depth, hlength, funext hothers]
  | none =>
    have hunbound : ¬ Bound name frames := replace?_eq_none_iff.1 hreplace
    have hlocate : locate? name frames = none := locate?_eq_none_iff.2 hunbound
    cases frames with
    | nil => exact ⟨rfl, rfl, h⟩
    | cons frame rest =>
      have hact : act ⟨frame :: rest, model⟩ (.store name v) =
          (.done, ⟨Dict.insert name v frame :: rest, model⟩) := by
        simp only [act, store, hreplace]
      have hflat : (flat ⟨frame :: rest, model⟩).act (.store name v) =
          (.done, (flat ⟨frame :: rest, model⟩).bind name rest.length v) := by
        simp [Environment.act, flat, hlocate, depth]
      rw [hact, hflat]
      refine ⟨rfl, ?_, h.insert (fun hrest => hunbound (bound_cons.2 (.inr hrest))) v⟩
      simp only [flat, Environment.bind, depth, List.length_cons, funext locate?_insert]

/-- A key path leads to the same value in both views. -/
theorem load_eq_flat (s : Scope) (path : Text) : s.load path = s.flat.load path := by
  have hvalue : s.flat.value? (Text.splitDot path).1 =
      lookup? (Text.splitDot path).1 s.frames := map_locate? _ _
  rw [load, Environment.load, hvalue]
  rcases Text.splitDot path with ⟨name, rest⟩
  dsimp only
  cases lookup? name s.frames with
  | none => rfl
  | some v =>
    cases rest with
    | none => rfl
    | some rest => rfl

/-! ## Histories -/

/-- **An action does to the frames what it does to the table**, with the same answer, and it keeps
the frames apart. -/
theorem flat_act {s : Scope} (h : Apart s.frames) (a : Action) :
    (s.act a).1 = (s.flat.act a).1 ∧ (s.act a).2.flat = (s.flat.act a).2 ∧
      Apart (s.act a).2.frames := by
  cases a with
  | push => exact ⟨rfl, flat_push s, h.push⟩
  | pop =>
    obtain ⟨_ | ⟨frame, rest⟩, model⟩ := s
    · exact ⟨rfl, rfl, h⟩
    · have hclosed : truncate ⟨frame :: rest, model⟩ rest.length = ⟨rest, model⟩ := by
        simp [truncate, depth]
      have hflat := flat_truncate (s := ⟨frame :: rest, model⟩) h rest.length
      rw [hclosed] at hflat
      exact ⟨congrArg Answer.closed (get?_eq_onLevel model), hflat, h.tail⟩
  | truncate depth => exact ⟨rfl, flat_truncate h depth, h.drop _⟩
  | store name v => exact flat_act_store h name v
  | remove name =>
    exact ⟨congrArg Answer.removed (map_locate? name s.frames).symm, flat_remove h name,
      h.erase name⟩
  | load path => exact ⟨congrArg Answer.loaded (load_eq_flat s path), rfl, h⟩

theorem flat_ofModel (model : Model) : (ofModel model).flat = Environment.ofModel model := rfl

/-- One action after another does to the frames what it does to the table. -/
theorem flat_runActions {s : Scope} (h : Apart s.frames) (actions : List Action) :
    (runActions act s actions).1 = (runActions Environment.act s.flat actions).1 ∧
      (runActions act s actions).2.flat = (runActions Environment.act s.flat actions).2 ∧
      Apart (runActions act s actions).2.frames := by
  induction actions generalizing s with
  | nil => exact ⟨rfl, rfl, h⟩
  | cons a rest ih =>
    obtain ⟨hanswer, hflat, hapart⟩ := flat_act h a
    obtain ⟨hanswers, hlast, hlastApart⟩ := ih hapart
    rw [hflat] at hanswers hlast
    refine ⟨?_, hlast, hlastApart⟩
    rw [runActions, runActions, hanswer, hanswers]

/-- **A scope is a flat table of names.**  Let a new scope above any model go through any actions.
Then no name is bound in two frames, the answers are those of a table that gives each bound name a
level and a value, and that table is what the frames amount to.  An action that needs a frame fails
if there is none, and changes nothing. -/
theorem flat_of_history (model : Model) (actions : List Action) :
    let (answers, s) := runActions act (ofModel model) actions
    (s.frames.Pairwise fun f g => ∀ name, ¬ (f.binds name ∧ g.binds name)) ∧
      (answers, s.flat) = runActions Environment.act (Environment.ofModel model) actions ∧
      (s.frames = [] → s.act .pop = (.failed .popEmpty, s) ∧
        ∀ name v, s.act (.store name v) = (.failed .storeEmpty, s)) := by
  have hapart : Apart (ofModel model).frames := Apart.nil
  obtain ⟨hanswers, hflat, hlast⟩ := flat_runActions hapart actions
  rw [flat_ofModel] at hanswers hflat
  refine ⟨hlast, Prod.ext hanswers hflat, ?_⟩
  generalize (runActions act (ofModel model) actions).2 = s
  obtain ⟨frames, model⟩ := s
  rintro rfl
  exact ⟨rfl, fun name v => rfl⟩

end Scope

end Stencil
