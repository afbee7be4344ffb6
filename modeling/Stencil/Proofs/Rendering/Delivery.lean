import Mathlib.Tactic.Common
import Stencil.Template
import Stencil.Proofs.Rendering.Siblings
import Stencil.Proofs.Sink.Room

/-!
# Rendering piece by piece into a sink

`Template.renderTo` renders a document as a whole and lets a sink follow the events.  Whoever writes
into a real sink cannot do that: every piece is handed over as soon as it is there, the sink is
asked each time whether it took all of it, and if it did not, the failure has to make its way out of
all the branches and loops that are being rendered.  A `Delivery` is such a computation, and
`deliverForest` renders siblings in this way, with the pieces of every display text one by one.

Both ways come to the same (`agrees_deliverForest`, `Document.agrees_deliver`).  What carries the
proof is that a sink follows one computation after another as they would write into it one after
another (`Agrees.andThen`); the rest goes along the rules of rendering, one by one.

## Main Definitions

* `Value.pieces` — the pieces of a display text in the order in which they are written
* `Delivery` — a computation that writes into a sink
* `deliverNode`, `deliverForest`, `Document.deliver` — rendering into a sink
* `Event.beside` — what is seen besides the output
* `Attempt.into` — what a sink makes of a computation that it follows
* `Delivery.Agrees` — a computation that writes into a sink is what the sink makes of another one
-/

namespace Stencil

/-! ## The pieces of a display text -/

namespace Value

mutual

/-- The pieces of the text of a value, on the top level or inside a container. -/
def pieces (inside : Bool) : Value → List Text
  | null => if inside then ["null".toList] else []
  | bool b => [if b then "true".toList else "false".toList]
  | number x => [x.text]
  | string s => [if inside then Text.quoted s else s]
  | sequence items => ['['] :: (itemPieces true items ++ [[']']])
  | map entries => ['\x7b'] :: (entryPieces true entries ++ [['\x7d']])

/-- The pieces of the items of a sequence; a comma comes before all but the first. -/
def itemPieces (first : Bool) : List Value → List Text
  | [] => []
  | v :: rest => (if first then [] else [[',', ' ']]) ++ (pieces true v ++ itemPieces false rest)

/-- The pieces of the entries of a map; a comma comes before all but the first. -/
def entryPieces {low : Option Text} (first : Bool) : Dict Value low → List Text
  | .nil => []
  | .cons k v _ rest =>
    (if first then [] else [[',', ' ']]) ++
      (Text.quoted k :: [':', ' '] :: (pieces true v ++ entryPieces false rest))

end

/-- Texts one after another, with a comma before all but the first. -/
def commaed (first : Bool) : List Text → Text
  | [] => []
  | t :: rest => (if first then [] else [',', ' ']) ++ (t ++ commaed false rest)

theorem commaed_true (texts : List Text) :
    commaed true texts = List.intercalate [',', ' '] texts := by
  induction texts with
  | nil => rfl
  | cons t rest ih =>
    cases rest with
    | nil => simp [commaed]
    | cons u rest =>
      rw [List.intercalate_cons_cons, ← ih]
      simp [commaed]

mutual

/-- **The pieces of a display text are the text**, in their order. -/
theorem flatten_pieces (inside : Bool) : (v : Value) → (v.pieces inside).flatten = v.textIn inside
  | null => by cases inside <;> rfl
  | bool _ | number _ | string _ => by simp only [pieces, textIn, List.flatten_singleton]
  | sequence items => by
    simp only [pieces, textIn, List.flatten_cons, List.flatten_append, List.flatten_nil,
      flatten_itemPieces true items, commaed_true, List.append_assoc, List.append_nil]
  | map entries => by
    simp only [pieces, textIn, List.flatten_cons, List.flatten_append, List.flatten_nil,
      flatten_entryPieces true entries, commaed_true, List.append_assoc, List.append_nil]

theorem flatten_itemPieces (first : Bool) :
    (items : List Value) → (itemPieces first items).flatten = commaed first (itemTexts items)
  | [] => rfl
  | v :: rest => by
    rw [itemPieces, itemTexts, commaed, List.flatten_append, List.flatten_append,
      flatten_pieces true v, flatten_itemPieces false rest]
    cases first <;> rfl

theorem flatten_entryPieces {low : Option Text} (first : Bool) : (entries : Dict Value low) →
    (entryPieces first entries).flatten = commaed first (entryTexts entries)
  | .nil => rfl
  | .cons k v _ rest => by
    rw [entryPieces, entryTexts, commaed, List.flatten_append, List.flatten_cons,
      List.flatten_cons, List.flatten_append, flatten_pieces true v,
      flatten_entryPieces false rest]
    cases first <;> simp

end

end Value

/-! ## Computations that write into a sink -/

/-- A computation that writes into a sink.  It may end before it has come to its end, and what it
lets the outside see, besides what it writes, are its events. -/
abbrev Delivery (α : Type) := Sink → Traced (Except Failure α × Sink)

namespace Delivery

variable {α β : Type}

/-- A computation that does nothing. -/
def done (a : α) : Delivery α := fun k => Traced.pure (.ok a, k)

/-- One computation after another, unless the first is ended. -/
def andThen (x : Delivery α) (next : α → Delivery β) : Delivery β := fun k =>
  Traced.bind (x k) fun
    | (.ok a, k) => next a k
    | (.error failure, k) => Traced.pure (.error failure, k)

/-- Writes one piece.  If the sink does not take all of it, the computation is ended. -/
def write (piece : Text) : Delivery Unit := fun k =>
  let k := k.write (Text.bytes piece)
  Traced.pure (if k.failed then .error (.error { cause := .unwritten }) else .ok (), k)

/-- Writes pieces one by one. -/
def writeAll : List Text → Delivery Unit
  | [] => done ()
  | piece :: rest => (write piece).andThen fun _ => writeAll rest

/-- A computation that has nothing to do with the sink. -/
def run (x : Traced α) : Delivery α := fun k => x.map fun a => (.ok a, k)

/-- A step that concerns the scope only. -/
def ofScope (r : Except Scope.Fault α) : Delivery α := fun k =>
  Traced.pure (r.mapError Failure.fault, k)

end Delivery

/-! ## What a sink makes of a computation that it follows -/

/-- What is seen besides the output. -/
def Event.beside (events : List Event) : List Event := events.filter fun event => !event.isOutput

@[simp] theorem Event.beside_append (xs ys : List Event) :
    beside (xs ++ ys) = beside xs ++ beside ys := List.filter_append _ _

theorem Event.beside_of_not_output {events : List Event}
    (h : ∀ event ∈ events, event.isOutput = false) : beside events = events := by
  rw [beside, List.filter_eq_self]
  intro event hevent
  rw [h event hevent]
  rfl

theorem Attempt.andThen_done_eq_map {α β : Type} (x : Attempt α) (f : α → β) :
    (x.andThen fun a => .done (f a)) = x.map (Except.map f) := by
  cases h : x.result with
  | ok a => simp [andThen_of_ok h, done, Traced.pure, Traced.map, h, Except.map]
  | error fault => simp [andThen_of_error h, Traced.map, h, Except.map]

/-- What a sink makes of a computation that it follows. -/
def Attempt.into {α : Type} (x : Attempt α) : Delivery α := fun k =>
  ⟨(if (k.follow x.events).2.failed then .error (.error { cause := .unwritten })
      else x.result.mapError Failure.fault, (k.follow x.events).2),
    Event.beside (k.follow x.events).1⟩

namespace Delivery

variable {α β : Type} {d : Delivery α} {x : Attempt α} {f : α → Delivery β} {g : α → Attempt β}

/-- A computation that writes into a sink does what a sink that is open makes of another one. -/
def Agrees (d : Delivery α) (x : Attempt α) : Prop := ∀ k : Sink, k.failed = false → d k = x.into k

/-- A computation without output does not touch the sink. -/
theorem into_of_not_output (h : ∀ event ∈ x.events, event.isOutput = false) {k : Sink}
    (hk : k.failed = false) : x.into k = ⟨(x.result.mapError Failure.fault, k), x.events⟩ := by
  rw [Attempt.into, Sink.follow_of_not_output h, Event.beside_of_not_output h]
  simp [hk]

/-- A computation that does nothing but write hands its output over. -/
theorem into_of_output (h : ∀ event ∈ x.events, event.isOutput = true) {k : Sink}
    (hk : k.failed = false) :
    x.into k = Traced.pure
      (if (k.write (Text.bytes (Event.output x.events))).failed
        then .error (.error { cause := .unwritten }) else x.result.mapError Failure.fault,
        k.write (Text.bytes (Event.output x.events))) := by
  have hseen : Event.beside (k.follow x.events).1 = [] := by
    rw [Event.beside, List.filter_eq_nil_iff]
    intro event hevent
    rw [h event ((k.follow_isPrefix x.events).subset hevent)]
    exact Bool.false_ne_true
  rw [Attempt.into, hseen, Sink.follow_eq_write hk]
  rfl

theorem agrees_done (a : α) : Agrees (done a) (Attempt.done a) := by
  intro k hk
  exact (into_of_not_output (x := Attempt.done a) (fun _ h => nomatch h) hk).symm

theorem agrees_ofScope (r : Except Scope.Fault α) : Agrees (ofScope r) ⟨r, []⟩ := by
  intro k hk
  exact (into_of_not_output (x := ⟨r, []⟩) (fun _ h => nomatch h) hk).symm

/-- A piece is taken as a whole, or ends the computation. -/
theorem agrees_write (piece : Text) : Agrees (write piece) ⟨.ok (), [.wrote piece]⟩ := by
  intro k hk
  rw [into_of_output (by simp [Event.isOutput]) hk]
  simp [write, Event.output, Except.mapError]

/-- **A sink follows one computation after another** as they would write into it. -/
theorem Agrees.andThen (h : Agrees d x) (hnext : ∀ a, Agrees (f a) (g a)) :
    Agrees (d.andThen f) (x.andThen g) := by
  intro k hk
  rw [Delivery.andThen, h k hk, Attempt.into]
  cases hopen : (k.follow x.events).2.failed with
  | true =>
    -- Whatever comes behind the write that failed, nothing of it happens.
    have hfollow : k.follow (x.andThen g).events = k.follow x.events :=
      Sink.follow_append_of_failed hk hopen _
    rw [Attempt.into, hfollow, hopen]
    simp [Traced.bind, Traced.pure]
  | false =>
    have hfollow : ∀ events, k.follow (x.events ++ events) = _ := Sink.follow_append_of_open hopen
    cases hx : x.result with
    | error fault =>
      rw [Attempt.andThen_of_error hx, Attempt.into]
      simp [hopen, Traced.bind, Traced.pure, Except.mapError]
    | ok a =>
      rw [Attempt.andThen_of_ok hx, Attempt.into]
      dsimp only
      rw [hfollow]
      simp [Traced.bind, Except.mapError, hnext a _ hopen, Attempt.into]

/-- What comes first and writes nothing does not touch the sink. -/
theorem agrees_run_andThen {y : Traced α} (h : ∀ event ∈ y.events, event.isOutput = false)
    (hnext : ∀ a, Agrees (f a) (g a)) : Agrees ((run y).andThen f) (Traced.bind y g) := by
  have hrun : Agrees (run y) (y.map .ok) := by
    intro k hk
    exact (into_of_not_output (x := y.map .ok) h hk).symm
  exact hrun.andThen hnext

/-- **Pieces that are written one by one** come to the same as their text as a whole. -/
theorem agrees_writeAll (pieces : List Text) :
    Agrees (writeAll pieces) ⟨.ok (), [.wrote pieces.flatten]⟩ := by
  have hpieces : Agrees (writeAll pieces) ⟨.ok (), pieces.map .wrote⟩ := by
    induction pieces with
    | nil => exact agrees_done ()
    | cons piece rest ih => exact (agrees_write piece).andThen fun _ => ih
  have houtput : Event.output (pieces.map .wrote) = pieces.flatten := by
    simp [Event.output, List.flatMap_map]
  intro k hk
  rw [hpieces k hk, into_of_output (by simp [Event.isOutput]) hk,
    into_of_output (by simp [Event.isOutput]) hk, houtput]
  simp [Event.output]

end Delivery

theorem Traced.Silent.isOutput_eq_false {α : Type} {x : Traced α} (h : x.Silent) :
    ∀ event ∈ x.events, event.isOutput = false := by
  intro event hevent
  have hsilent := h event hevent
  cases event with
  | wrote | showed => cases hsilent
  | asked | noted => rfl

variable [Json.Library]

/-! ## Rendering into a sink -/

open Delivery (andThen done write writeAll run ofScope)

/-- Renders the passes of a loop into a sink, from the given number on. -/
def deliverItems (item : Text) (body : Scope → Delivery Scope) (index : Nat) :
    List Value → Scope → Delivery Scope
  | [], s => done s
  | v :: rest, s =>
    (ofScope (bindItem s item index v)).andThen fun s =>
      (body s).andThen fun s =>
        (ofScope (closeFrame s)).andThen fun s => deliverItems item body (index + 1) rest s

/-- Renders what a clause of a chain holds into a sink, if the clause is taken. -/
def deliverIf (test : Traced Bool) (body : Scope → Delivery Scope) (s : Scope) :
    Delivery (Scope × Bool) :=
  (run test).andThen fun truth =>
    (if truth then body s else done s).andThen fun s => done (s, truth)

/-- Renders one node into a sink, given how what it holds is rendered.  It takes and returns,
besides the scope, whether a branch of the chain at hand was taken. -/
def deliverNode (n : Node) (body : Scope → Delivery Scope) (taken : Bool) (s : Scope) :
    Delivery (Scope × Bool) :=
  match n.statement with
  | .text => (write n.content).andThen fun _ => done (s, taken)
  | .value expr =>
    (run (evaluate s expr (.ofValueTag expr))).andThen fun
      | some v => (writeAll (v.pieces false)).andThen fun _ => done (s, taken)
      | none => done (s, taken)
  | .assign name expr _ =>
    (run (evaluate s expr .all)).andThen fun v =>
      (ofScope (Scope.onward (s.store name (v.getD .null)))).andThen fun s => done (s, taken)
  | .debug expr => (run (showValue s expr)).andThen fun _ => done (s, taken)
  | .ifTrue predicate => deliverIf (holds s.push predicate) body s.push
  | .elseIf predicate =>
    (ofScope (replaceFrame s)).andThen fun s =>
      if taken then done (s, true) else deliverIf (holds s predicate) body s
  | .otherwise =>
    (ofScope (replaceFrame s)).andThen fun s =>
      if taken then done (s, true) else deliverIf (pure true) body s
  | .close => (ofScope (closeFrame s)).andThen fun s => done (s, false)
  | .forEach item source =>
    (run (loopItems s.push source)).andThen fun items =>
      (deliverItems item body 0 items s.push).andThen fun s => done (s, taken)

/-- Renders what a node holds into a sink, given how siblings are rendered, and closes the frames
that are still open behind it. -/
def deliverBody (siblings : Bool → Scope → Delivery Scope) (s : Scope) : Delivery Scope :=
  (siblings false s).andThen fun after => done (after.truncate s.depth)

/-- Renders siblings into a sink, given whether a branch of the chain was taken already. -/
def deliverForest : Forest → Bool → Scope → Delivery Scope
  | .nil, _, s => done s
  | .node n body rest, taken, s =>
    (deliverNode n (deliverBody (deliverForest body)) taken s).andThen fun r =>
      deliverForest rest r.2 r.1

/-- Renders a document over a model into a sink. -/
def Document.deliver (d : Document) (model : Model) : Delivery Unit :=
  (deliverBody (deliverForest d.forest) (Scope.ofModel model).push).andThen fun s =>
    (ofScope (closeFrame s)).andThen fun _ => done ()

/-! ## Both ways come to the same -/

open Delivery (Agrees agrees_done agrees_ofScope agrees_run_andThen agrees_write agrees_writeAll)

theorem silent_loopItems (s : Scope) (source : Text) : (loopItems s source).Silent := by
  apply (silent_evaluate s source .all).bind
  intro v
  cases v with
  | none => exact .pure _
  | some v =>
    dsimp only
    cases v.items? with
    | some items => exact .pure _
    | none => exact .note _ _

theorem isOutput_showValue (s : Scope) (expr : Text) :
    ∀ event ∈ (showValue s expr).events, event.isOutput = false := by
  intro event hevent
  rw [showValue, Traced.events_bind, List.mem_append] at hevent
  rcases hevent with hevent | hevent
  · exact (silent_evaluate s expr .all).isOutput_eq_false event hevent
  · split at hevent
    · obtain rfl := List.mem_singleton.1 hevent
      rfl
    · cases hevent

variable {inside : Scope → Delivery Scope} {body : Forest}

theorem agrees_deliverItems (hbody : ∀ s, Agrees (inside s) (renderBody body s)) (item : Text)
    (index : Nat) (items : List Value) (s : Scope) :
    Agrees (deliverItems item inside index items s)
      (renderItems item (renderBody body) index items s) := by
  induction items generalizing index s with
  | nil => exact agrees_done s
  | cons v rest ih =>
    simp only [deliverItems, renderItems, Rendering.andThen_eq]
    exact (agrees_ofScope _).andThen fun s => (hbody s).andThen fun s =>
      (agrees_ofScope _).andThen fun s => ih (index + 1) s

theorem agrees_deliverIf (hbody : ∀ s, Agrees (inside s) (renderBody body s)) {test : Traced Bool}
    (htest : test.Silent) (s : Scope) :
    Agrees (deliverIf test inside s) (renderIf test body s) := by
  apply agrees_run_andThen htest.isOutput_eq_false
  intro truth
  refine Agrees.andThen ?_ fun s => agrees_done (s, truth)
  cases truth with
  | true => exact hbody s
  | false => exact agrees_done s

theorem agrees_deliverNode (hbody : ∀ s, Agrees (inside s) (renderBody body s)) (n : Node)
    (taken : Bool) (s : Scope) :
    Agrees (deliverNode n inside taken s) (renderNode n body taken s) := by
  unfold deliverNode renderNode
  cases n.statement with
  | text => exact (agrees_write n.content).andThen fun _ => agrees_done (s, taken)
  | value expr =>
    have hnode : (⟨.ok (s, taken), (writeValue s expr).events⟩ : Attempt (Scope × Bool)) =
        Traced.bind (evaluate s expr (.ofValueTag expr)) fun v =>
          ⟨.ok (s, taken), v.toList.map fun v => .wrote v.text⟩ := by
      rw [writeValue, Traced.events_bind, Traced.bind]
      cases (evaluate s expr (.ofValueTag expr)).result <;> rfl
    dsimp only
    rw [hnode]
    apply agrees_run_andThen (silent_evaluate s expr _).isOutput_eq_false
    intro v
    cases v with
    | none => exact agrees_done (s, taken)
    | some v =>
      have hpieces := (agrees_writeAll (v.pieces false)).andThen fun _ => agrees_done (s, taken)
      rw [Value.flatten_pieces] at hpieces
      exact hpieces
  | assign name expr declared =>
    have hassign : assign s name expr =
        Traced.bind (evaluate s expr .all) fun v =>
          ⟨Scope.onward (s.store name (v.getD .null)), []⟩ := rfl
    dsimp only
    rw [hassign, Attempt.bind_andThen]
    apply agrees_run_andThen (silent_evaluate s expr .all).isOutput_eq_false
    intro v
    exact (agrees_ofScope _).andThen fun s => agrees_done (s, taken)
  | debug expr =>
    have hnode : (⟨.ok (s, taken), (showValue s expr).events⟩ : Attempt (Scope × Bool)) =
        Traced.bind (showValue s expr) fun _ => Attempt.done (s, taken) := by
      rw [Traced.bind, Attempt.done, Traced.pure, List.append_nil]
    dsimp only
    rw [hnode]
    exact agrees_run_andThen (isOutput_showValue s expr) fun _ => agrees_done (s, taken)
  | ifTrue predicate =>
    dsimp only
    rw [holds_push]
    exact agrees_deliverIf hbody (silent_holds s predicate) s.push
  | elseIf predicate =>
    refine (agrees_ofScope _).andThen fun s => ?_
    cases taken with
    | true => exact agrees_done (s, true)
    | false => exact agrees_deliverIf hbody (silent_holds s predicate) s
  | otherwise =>
    refine (agrees_ofScope _).andThen fun s => ?_
    cases taken with
    | true => exact agrees_done (s, true)
    | false => exact agrees_deliverIf hbody (.pure true) s
  | close => exact (agrees_ofScope _).andThen fun s => agrees_done (s, false)
  | forEach item source =>
    apply agrees_run_andThen (silent_loopItems s.push source).isOutput_eq_false
    intro items
    exact (agrees_deliverItems hbody item 0 items s.push).andThen fun s => agrees_done (s, taken)

theorem agrees_deliverBody {siblings : Bool → Scope → Delivery Scope}
    (h : ∀ taken s, Agrees (siblings taken s) (renderForest body taken s)) (s : Scope) :
    Agrees (deliverBody siblings s) (renderBody body s) := by
  rw [renderBody_eq]
  exact (h false s).andThen fun after => agrees_done (after.truncate s.depth)

/-- **Siblings are rendered into a sink** as the sink follows their rendering. -/
theorem agrees_deliverForest (f : Forest) (taken : Bool) (s : Scope) :
    Agrees (deliverForest f taken s) (renderForest f taken s) := by
  induction f generalizing taken s with
  | nil => exact agrees_done s
  | node n body rest ihb ihr =>
    rw [renderForest_node, deliverForest]
    exact (agrees_deliverNode (agrees_deliverBody ihb) n taken s).andThen fun r => ihr r.2 r.1

/-- A document is rendered into a sink as the sink follows its rendering. -/
theorem Document.agrees_deliver (d : Document) (model : Model) :
    Agrees (d.deliver model) ((d.render model).map (Except.map fun _ => ())) := by
  rw [Document.render, Rendering.andThen_eq, ← Attempt.andThen_done_eq_map, Attempt.andThen_assoc]
  exact (agrees_deliverBody (agrees_deliverForest d.forest) _).andThen fun s =>
    (agrees_ofScope _).andThen fun _ => agrees_done ()

end Stencil
