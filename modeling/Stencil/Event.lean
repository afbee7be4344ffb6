import Stencil.Error
import Stencil.Statement.Basic

/-!
# Events

Everything that a computation of this library lets the outside see, besides its result: what it
writes, the values it shows, the key paths it asks the model for, and the notes it takes for a
log.  A computation that does such things returns them in their order.

## Main Definitions

* `Note`, `Event` — entries of the log, and all that can be seen
* `Traced` — a result with the events on the way to it
* `Event.output`, `Event.shown`, `Event.queries`, `Event.notes` — the views of a list of events
-/

namespace Stencil

/-- An entry of the log. -/
inductive Note
  /-- A source is read and made into a document. -/
  | building (trimming : Bool) (name : Option Text)
  /-- The document of a template is dropped, since it no longer fits. -/
  | discarded (name : Option Text)
  /-- A tag has found its place in the document. -/
  | attached (kind : NodeKind) (line : UInt32)
  /-- A text that should be evaluated is not an expression. -/
  | notEvaluated (source : Text) (error : Error)
  /-- A text that looks like JSON is not. -/
  | notJson (source : Text)
  /-- An operation has no result. -/
  | operationFailed (error : Error)
  /-- A loop has a source without items. -/
  | notIterable (kind : Value.Kind)
  /-- A value is shown. -/
  | debug (v : Value)
  /-- Data has no value. -/
  | notConverted (error : Error)

/-- How important a note is. -/
inductive Note.Level
  | trace
  | debug
  | info
deriving DecidableEq, Repr

namespace Note

/-- How important a note is. -/
def level : Note → Level
  | attached _ _ => .trace
  | debug _ => .info
  | _ => .debug

/-- What a note says. -/
def message : Note → Text
  | building _ _ => "building syntax tree".toList
  | discarded _ => "discarded cached syntax tree".toList
  | attached _ _ => "attached node".toList
  | notEvaluated _ _ => "could not evaluate expression".toList
  | notJson _ => "body is not valid json".toList
  | operationFailed _ => "operation failed".toList
  | notIterable _ => "cannot iterate over value".toList
  | debug _ => "debug".toList
  | notConverted _ => "could not convert value, using null".toList

end Note

/-- Something that can be seen from outside. -/
inductive Event
  /-- A text is added to the output. -/
  | wrote (piece : Text)
  /-- A debug tag shows a value. -/
  | showed (v : Value)
  /-- The model is asked for a key path. -/
  | asked (path : Text)
  /-- A note is taken. -/
  | noted (note : Note)

namespace Event

/-- All that is written. -/
def output (events : List Event) : Text :=
  events.flatMap fun
    | wrote piece => piece
    | _ => []

/-- The values that debug tags show. -/
def shown (events : List Event) : List Value :=
  events.filterMap fun
    | showed v => some v
    | _ => none

/-- The key paths that the model is asked for. -/
def queries (events : List Event) : List Text :=
  events.filterMap fun
    | asked path => some path
    | _ => none

/-- The log.  If nothing else takes the values of debug tags, they are notes. -/
def notes (hooked : Bool) (events : List Event) : List Note :=
  events.filterMap fun
    | noted note => some note
    | showed v => if hooked then none else some (.debug v)
    | _ => none

@[simp] theorem output_append (xs ys : List Event) :
    output (xs ++ ys) = output xs ++ output ys := by simp [output]

@[simp] theorem shown_append (xs ys : List Event) : shown (xs ++ ys) = shown xs ++ shown ys := by
  simp [shown]

@[simp] theorem queries_append (xs ys : List Event) :
    queries (xs ++ ys) = queries xs ++ queries ys := by simp [queries]

@[simp] theorem notes_append (hooked : Bool) (xs ys : List Event) :
    notes hooked (xs ++ ys) = notes hooked xs ++ notes hooked ys := by simp [notes]

end Event

/-- A result with the events on the way to it. -/
structure Traced (α : Type) where
  result : α
  events : List Event

namespace Traced

variable {α β : Type}

/-- A result that nothing is seen of. -/
def pure (a : α) : Traced α := ⟨a, []⟩

/-- One computation after another, the second with the result of the first. -/
def bind (x : Traced α) (f : α → Traced β) : Traced β :=
  ⟨(f x.result).result, x.events ++ (f x.result).events⟩

/-- A function of a result. -/
def map (f : α → β) (x : Traced α) : Traced β := ⟨f x.result, x.events⟩

/-- A single event. -/
def emit (event : Event) : Traced Unit := ⟨(), [event]⟩

instance : Monad Traced where
  pure := Traced.pure
  bind := Traced.bind
  map := Traced.map

@[simp] theorem result_pure (a : α) : (Pure.pure a : Traced α).result = a := rfl

@[simp] theorem events_pure (a : α) : (Pure.pure a : Traced α).events = [] := rfl

@[simp] theorem result_bind (x : Traced α) (f : α → Traced β) :
    (x >>= f).result = (f x.result).result := rfl

@[simp] theorem events_bind (x : Traced α) (f : α → Traced β) :
    (x >>= f).events = x.events ++ (f x.result).events := rfl

/-- One computation after another, if the result of the first is known. -/
theorem bind_of_result {x : Traced α} {a : α} (h : x.result = a) (f : α → Traced β) :
    x >>= f = ⟨(f a).result, x.events ++ (f a).events⟩ := by
  subst h
  rfl

end Traced

end Stencil
