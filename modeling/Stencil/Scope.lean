import Stencil.Event
import Stencil.Model

/-!
# Scopes

A scope holds the names that a template has bound, in frames that open and close with its branches,
above the model that answers for all other names.

## Main Definitions

* `Scope` — a stack of frames above a model
* `Scope.push`, `Scope.pop`, `Scope.truncate` — opening and closing frames
* `Scope.load`, `Scope.store`, `Scope.remove` — reading, binding and dropping names

## Design Notes

Frames are searched from the innermost outwards.  Binding a name that some frame binds already
replaces its value there, so a frame never hides a name of another.
-/

namespace Stencil

/-- The names that one branch has bound. -/
abbrev Frame := Dict Value none

/-- A stack of frames above a model. -/
structure Scope where
  /-- The frames, the innermost first. -/
  frames : List Frame
  /-- What answers for the names that no frame binds. -/
  model : Model

namespace Scope

/-- What cannot be done to a scope without frames. -/
inductive Fault
  | popEmpty
  | storeEmpty
deriving DecidableEq, Repr

/-- The explanation of a fault. -/
def Fault.message : Fault → Text
  | popEmpty => "pop from empty context stack".toList
  | storeEmpty => "cannot store on empty stack".toList

/-- The scope without frames above a model. -/
def ofModel (model : Model) : Scope := ⟨[], model⟩

/-- The number of frames. -/
def depth (s : Scope) : Nat := s.frames.length

/-- Opens an empty frame. -/
def push (s : Scope) : Scope := { s with frames := .nil :: s.frames }

/-- The scope after a step, for those who go on only if it did not fail. -/
def onward {α : Type} (step : Except Fault α × Scope) : Except Fault Scope :=
  step.1.map fun _ => step.2

theorem onward_eq_ok {step : Except Fault Unit × Scope} {s : Scope} :
    onward step = .ok s ↔ step = (.ok (), s) := by
  obtain ⟨_ | _, s'⟩ := step <;> simp [onward, Except.map]

/-- Closes the innermost frame.  Without one, the scope stays as it is. -/
def pop (s : Scope) : Except Fault Frame × Scope :=
  match s.frames with
  | [] => (.error .popEmpty, s)
  | frame :: rest => (.ok frame, { s with frames := rest })

/-- Closes all frames above the given number of them. -/
def truncate (s : Scope) (depth : Nat) : Scope :=
  { s with frames := s.frames.drop (s.depth - depth) }

@[simp] theorem depth_push (s : Scope) : s.push.depth = s.depth + 1 := rfl

/-- Closing a frame takes back what opening it did. -/
@[simp] theorem pop_push (s : Scope) : s.push.pop = (.ok .nil, s) := rfl

theorem depth_truncate (s : Scope) (depth : Nat) :
    (s.truncate depth).depth = min depth s.depth := by
  simp only [truncate, Scope.depth, List.length_drop]
  omega

@[simp] theorem truncate_depth (s : Scope) : s.truncate s.depth = s := by
  simp [truncate]

/-- The value of a name in the innermost frame that binds it. -/
def lookup? (name : Text) : List Frame → Option Value
  | [] => none
  | frame :: rest => (frame.get? name).or (lookup? name rest)

/-- The value of a key path.  If a frame binds its first piece, the others lead on from the value
there; otherwise the model is asked for the whole path. -/
def load (s : Scope) (path : Text) : Traced (Option Value) :=
  let (name, rest) := Text.splitDot path
  match lookup? name s.frames with
  | some v =>
    match rest with
    | some rest => pure (v.walk? rest)
    | none => pure (some v)
  | none => ⟨s.model.resolve path, [.asked path]⟩

/-- Replaces the value of a name in the innermost frame that binds it, if one does. -/
def replace? (name : Text) (v : Value) : List Frame → Option (List Frame)
  | [] => none
  | frame :: rest =>
    if frame.binds name then some (frame.insert name v :: rest)
    else (replace? name v rest).map (frame :: ·)

/-- Binds a name: in the frame that binds it already, or else in the innermost one.  Without a
frame, the scope stays as it is. -/
def store (s : Scope) (name : Text) (v : Value) : Except Fault Unit × Scope :=
  match replace? name v s.frames with
  | some frames => (.ok (), { s with frames })
  | none =>
    match s.frames with
    | [] => (.error .storeEmpty, s)
    | frame :: rest => (.ok (), { s with frames := frame.insert name v :: rest })

/-- Drops a name from the innermost frame that binds it. -/
def erase (name : Text) : List Frame → List Frame
  | [] => []
  | frame :: rest =>
    if frame.binds name then frame.erase name :: rest else frame :: erase name rest

/-- Drops a name, and returns the value it had. -/
def remove (s : Scope) (name : Text) : Option Value × Scope :=
  (lookup? name s.frames, { s with frames := erase name s.frames })

end Scope

end Stencil
