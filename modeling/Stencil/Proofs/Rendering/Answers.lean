import Stencil.Proofs.Rendering.Siblings
import Stencil.Template

/-!
# Renderings and the answers they get

A rendering depends on the model through the answers to its own questions only.  Two models that
answer alike what one rendering asks are the same to it, whatever they answer to other key paths:
the rendering over the one model is, event by event, the rendering over the other
(`Template.render_eq_of_answersAlike`).

The two renderings are run side by side, in scopes with the same frames.  A part of a run asks no
more than the whole of it, so every step is compared under the assumption that its own questions are
answered alike, and `Traced.Follows.bind` splits the questions of a run among its steps.

## Main Definitions

* `AnswersAlike` — a model answers the questions of a run as another one does
* `Traced.Follows` — two runs that are the same if the questions of the first are answered alike
* `Scope.Twin` — scopes with the same frames over two models
-/

namespace Stencil

/-! ## Runs over two models -/

/-- A model answers the questions among some events as another one does. -/
def AnswersAlike (m m' : Model) (events : List Event) : Prop :=
  ∀ path ∈ Event.queries events, m'.resolve path = m.resolve path

theorem answersAlike_append {m m' : Model} {xs ys : List Event} :
    AnswersAlike m m' (xs ++ ys) ↔ AnswersAlike m m' xs ∧ AnswersAlike m m' ys := by
  rw [AnswersAlike, Event.queries_append, List.forall_mem_append]
  rfl

/-- A run over one model and a run over another one: if the questions of the first are answered
alike, what is seen of both is the same, and their results are related. -/
def Traced.Follows {α β : Type} (m m' : Model) (R : α → β → Prop) (x : Traced α) (y : Traced β) :
    Prop :=
  AnswersAlike m m' x.events → y.events = x.events ∧ R x.result y.result

/-- Two attempts that come to an end with related results, or are ended by the same fault. -/
inductive Attempt.Same {α β : Type} (R : α → β → Prop) :
    Except Scope.Fault α → Except Scope.Fault β → Prop
  | ok {a : α} {b : β} (h : R a b) : Same R (.ok a) (.ok b)
  | error (fault : Scope.Fault) : Same R (.error fault) (.error fault)

/-- Two scopes with the same frames, each over its own model. -/
inductive Scope.Twin (m m' : Model) : Scope → Scope → Prop
  | intro (frames : List Frame) : Twin m m' ⟨frames, m⟩ ⟨frames, m'⟩

section Follows

variable {α β γ δ : Type} {m m' : Model} {R : α → β → Prop} {Q : γ → δ → Prop}

namespace Traced.Follows

theorem pure {a : α} {b : β} (h : R a b) :
    Follows m m' R (Pure.pure a : Traced α) (Pure.pure b : Traced β) :=
  fun _ => ⟨rfl, h⟩

/-- A run that does not look at the model. -/
theorem refl (x : Traced α) : Follows m m' Eq x x := fun _ => ⟨rfl, rfl⟩

theorem map {x : Traced α} {y : Traced β} {f : α → γ} {g : β → δ} (h : Follows m m' R x y)
    (hR : ∀ {a b}, R a b → Q (f a) (g b)) : Follows m m' Q (x.map f) (y.map g) :=
  fun hanswers => (h hanswers).imp_right hR

/-- **The questions of a run are those of its steps.** -/
theorem bind {x : Traced α} {y : Traced β} {f : α → Traced γ} {g : β → Traced δ}
    (h : Follows m m' R x y) (hnext : ∀ {a b}, R a b → Follows m m' Q (f a) (g b)) :
    Follows m m' Q (x.bind f) (y.bind g) := by
  intro hanswers
  obtain ⟨hfirst, hsecond⟩ := answersAlike_append.1 hanswers
  obtain ⟨hevents, hresult⟩ := h hfirst
  obtain ⟨hevents', hresult'⟩ := hnext hresult hsecond
  refine ⟨?_, hresult'⟩
  show y.events ++ (g y.result).events = x.events ++ (f x.result).events
  rw [hevents, hevents']

/-- What comes behind a value is the same for both runs. -/
theorem bind_eq {x y : Traced α} {f : α → Traced γ} {g : α → Traced δ}
    (h : Follows m m' Eq x y) (hnext : ∀ a, Follows m m' Q (f a) (g a)) :
    Follows m m' Q (x.bind f) (y.bind g) := by
  refine h.bind ?_
  rintro a _ rfl
  exact hnext a

end Traced.Follows

theorem Attempt.follows_andThen {x : Attempt α} {y : Attempt β} {f : α → Attempt γ}
    {g : β → Attempt δ} (h : Traced.Follows m m' (Same R) x y)
    (hnext : ∀ {a b}, R a b → Traced.Follows m m' (Same Q) (f a) (g b)) :
    Traced.Follows m m' (Same Q) (x.andThen f) (y.andThen g) := by
  refine Traced.Follows.bind h ?_
  rintro _ _ (hab | fault)
  · exact hnext hab
  · exact Traced.Follows.pure (.error fault)

theorem Attempt.follows_done {a : α} {b : β} (h : R a b) :
    Traced.Follows m m' (Same R) (done a) (done b) :=
  Traced.Follows.pure (.ok h)

end Follows

open Traced (Follows)
open Attempt (Same follows_andThen follows_done)

variable {m m' : Model} {s s' : Scope}

/-! ## Evaluation -/

/-- A key path is the only question that looking it up can ask. -/
theorem Scope.Twin.follows_load (h : Twin m m' s s') (path : Text) :
    Follows m m' Eq (s.load path) (s'.load path) := by
  obtain ⟨frames⟩ := h
  rw [load, load]
  rcases Text.splitDot path with ⟨name, rest⟩
  dsimp only
  cases lookup? name frames with
  | some v => exact .refl _
  | none =>
    intro hanswers
    exact ⟨rfl, (hanswers path (List.mem_singleton_self path)).symm⟩

namespace Expr

/-- If a value is needed and there is none, both runs end. -/
theorem follows_ofSome {x y : Traced (Option Value)} {f g : Value → Traced (Option Value)}
    (h : Follows m m' Eq x y) (hnext : ∀ v, Follows m m' Eq (f v) (g v)) :
    Follows m m' Eq
      (x.bind fun
        | some v => f v
        | none => pure none)
      (y.bind fun
        | some v => g v
        | none => pure none) := by
  refine h.bind_eq fun v => ?_
  cases v with
  | none => exact .refl _
  | some v => exact hnext v

mutual

/-- An expression asks what its parts ask. -/
theorem follows_eval (h : Scope.Twin m m' s s') :
    ∀ e : Expr, Follows m m' Eq (e.eval s) (e.eval s')
  | const v => by rw [eval, eval]; exact .refl _
  | path p => by rw [eval, eval]; exact h.follows_load p
  | attr object name => by
    rw [eval, eval]
    exact follows_ofSome (follows_eval h object) fun _ => .refl _
  | item object key => by
    rw [eval, eval]
    exact follows_ofSome (follows_eval h object) fun _ =>
      follows_ofSome (follows_eval h key) fun _ => .refl _
  | not operand => by
    rw [eval, eval]
    exact (follows_eval h operand).bind_eq fun _ => .refl _
  | neg operand => by
    rw [eval, eval]
    exact follows_ofSome (follows_eval h operand) fun _ => .refl _
  | binary op left right => by
    cases op with
    | and =>
      rw [eval, eval]
      refine (follows_eval h left).bind_eq fun v => ?_
      split
      · exact (follows_eval h right).bind_eq fun _ => .refl _
      · exact .refl _
    | or =>
      rw [eval, eval]
      refine (follows_eval h left).bind_eq fun v => ?_
      split
      · exact .refl _
      · exact (follows_eval h right).bind_eq fun _ => .refl _
    | _ =>
      simp only [eval]
      exact follows_ofSome (follows_eval h left) fun _ =>
        follows_ofSome (follows_eval h right) fun _ => .refl _
  | list items => by
    rw [eval, eval]
    exact (follows_evalItems h items).bind_eq fun _ => .refl _

theorem follows_evalItems (h : Scope.Twin m m' s s') :
    ∀ es : List Expr, Follows m m' Eq (evalItems s es) (evalItems s' es)
  | [] => by rw [evalItems, evalItems]; exact .refl _
  | e :: rest => by
    rw [evalItems, evalItems]
    exact (follows_eval h e).bind_eq fun _ => (follows_evalItems h rest).bind_eq fun _ => .refl _

end

end Expr

namespace Scope.Twin

theorem follows_evaluateExpr (h : Twin m m' s s') (source : Text) :
    Follows m m' Eq (evaluateExpr s source) (evaluateExpr s' source) := by
  rw [evaluateExpr, evaluateExpr]
  cases Expr.ofText source with
  | ok e => exact e.follows_eval h
  | error _ => exact .refl _

theorem follows_evaluateText (h : Twin m m' s s') (source : Text) (switches : Switches) :
    Follows m m' Eq (evaluateText s source switches) (evaluateText s' source switches) := by
  rw [evaluateText, evaluateText]
  split
  · exact h.follows_evaluateExpr source
  · exact h.follows_load source

theorem follows_holds (h : Twin m m' s s') (source : Text) :
    Follows m m' Eq (holds s source) (holds s' source) := by
  refine (h.follows_evaluateExpr source).map ?_
  rintro v _ rfl
  rfl

/-! ## Frames -/

theorem push (h : Twin m m' s s') : Twin m m' s.push s'.push := by
  obtain ⟨frames⟩ := h
  exact .intro _

theorem truncate (h : Twin m m' s s') {t t' : Scope} (ht : Twin m m' t t') :
    Twin m m' (t.truncate s.depth) (t'.truncate s'.depth) := by
  obtain ⟨frames⟩ := h
  obtain ⟨frames'⟩ := ht
  exact .intro _

theorem same_store (h : Twin m m' s s') (name : Text) (v : Value) :
    Same (Twin m m') (onward (s.store name v)) (onward (s'.store name v)) := by
  obtain ⟨frames⟩ := h
  rw [store, store]
  dsimp only
  split
  · exact .ok (.intro _)
  · split
    · exact .error _
    · exact .ok (.intro _)

theorem same_closeFrame (h : Twin m m' s s') :
    Same (Twin m m') (closeFrame s) (closeFrame s') := by
  rcases h with ⟨_ | ⟨frame, rest⟩⟩
  · exact .error _
  · exact .ok (.intro rest)

theorem same_replaceFrame (h : Twin m m' s s') :
    Same (Twin m m') (replaceFrame s) (replaceFrame s') := by
  rcases h with ⟨_ | ⟨frame, rest⟩⟩
  · exact .error _
  · exact .ok (.intro _)

theorem same_bindItem (h : Twin m m' s s') (item : Text) (index : Nat) (v : Value) :
    Same (Twin m m') (bindItem s item index v) (bindItem s' item index v) := by
  have hstore := h.push.same_store item v
  rw [bindItem, bindItem]
  generalize onward (s.push.store item v) = r, onward (s'.push.store item v) = r' at hstore
  cases hstore with
  | ok hnamed => exact hnamed.same_store _ _
  | error fault => exact .error fault

end Scope.Twin

theorem follows_ofScope {r r' : Except Scope.Fault Scope} (h : Same (Scope.Twin m m') r r') :
    Follows m m' (Same (Scope.Twin m m')) (Rendering.ofScope r) (Rendering.ofScope r') :=
  Follows.pure h

/-! ## Nodes and forests -/

/-- A scope and what is known about the chain at hand, over two models. -/
def Sibling.Twin (m m' : Model) (r r' : Scope × Bool) : Prop :=
  Scope.Twin m m' r.1 r'.1 ∧ r'.2 = r.2

theorem follows_renderItems {item : Text} {body : Scope → Rendering}
    (hbody : ∀ {s s'}, Scope.Twin m m' s s' →
      Follows m m' (Same (Scope.Twin m m')) (body s) (body s'))
    (index : Nat) (items : List Value) (h : Scope.Twin m m' s s') :
    Follows m m' (Same (Scope.Twin m m')) (renderItems item body index items s)
      (renderItems item body index items s') := by
  induction items generalizing index s s' with
  | nil => exact follows_done h
  | cons v rest ih =>
    simp only [renderItems, Rendering.andThen_eq]
    refine follows_andThen (follows_ofScope (h.same_bindItem item index v)) fun hstart => ?_
    refine follows_andThen (hbody hstart) fun hinner => ?_
    exact follows_andThen (follows_ofScope hinner.same_closeFrame) fun hleft => ih (index + 1) hleft

variable [Json.Library]

theorem Scope.Twin.follows_evaluate (h : Scope.Twin m m' s s') (source : Text)
    (switches : Switches) :
    Follows m m' Eq (evaluate s source switches) (evaluate s' source switches) := by
  rw [evaluate, evaluate]
  split
  · split
    · exact .refl _
    · refine Follows.bind_eq (.refl _) fun _ => ?_
      split
      · exact h.follows_evaluateText _ switches
      · exact .refl _
  · exact h.follows_evaluateText _ switches

theorem follows_renderIf {body : Forest}
    (hbody : ∀ {s s'}, Scope.Twin m m' s s' →
      Follows m m' (Same (Scope.Twin m m')) (renderBody body s) (renderBody body s'))
    {test test' : Traced Bool} (htest : Follows m m' Eq test test') (h : Scope.Twin m m' s s') :
    Follows m m' (Same (Sibling.Twin m m')) (renderIf test body s) (renderIf test' body s') := by
  refine htest.bind_eq fun truth => ?_
  have hinside : Follows m m' (Same (Scope.Twin m m'))
      (if truth then renderBody body s else Attempt.done s)
      (if truth then renderBody body s' else Attempt.done s') := by
    cases truth with
    | true => exact hbody h
    | false => exact follows_done h
  exact follows_andThen hinside fun hafter => follows_done ⟨hafter, rfl⟩

/-- **A node asks what its tag asks**, and what it holds asks if it is rendered. -/
theorem follows_renderNode (n : Node) {body : Forest}
    (hbody : ∀ {s s'}, Scope.Twin m m' s s' →
      Follows m m' (Same (Scope.Twin m m')) (renderBody body s) (renderBody body s'))
    (taken : Bool) (h : Scope.Twin m m' s s') :
    Follows m m' (Same (Sibling.Twin m m')) (renderNode n body taken s)
      (renderNode n body taken s') := by
  unfold renderNode
  cases n.statement with
  | text => exact fun _ => ⟨rfl, .ok ⟨h, rfl⟩⟩
  | value expr =>
    have hwrite : Follows m m' Eq (writeValue s expr) (writeValue s' expr) :=
      (h.follows_evaluate expr _).bind_eq fun _ => .refl _
    exact fun hanswers => ⟨(hwrite hanswers).1, .ok ⟨h, rfl⟩⟩
  | debug expr =>
    have hshow : Follows m m' Eq (showValue s expr) (showValue s' expr) :=
      (h.follows_evaluate expr _).bind_eq fun _ => .refl _
    exact fun hanswers => ⟨(hshow hanswers).1, .ok ⟨h, rfl⟩⟩
  | assign name expr declared =>
    have hassign : Follows m m' (Same (Scope.Twin m m')) (assign s name expr)
        (assign s' name expr) :=
      (h.follows_evaluate expr _).bind_eq fun v => follows_ofScope (h.same_store name _)
    exact follows_andThen hassign fun hafter => follows_done ⟨hafter, rfl⟩
  | ifTrue predicate => exact follows_renderIf hbody (h.follows_holds predicate) h.push
  | elseIf predicate =>
    refine follows_andThen (follows_ofScope h.same_replaceFrame) fun hframe => ?_
    cases taken with
    | true => exact follows_done ⟨hframe, rfl⟩
    | false => exact follows_renderIf hbody (hframe.follows_holds predicate) hframe
  | otherwise =>
    refine follows_andThen (follows_ofScope h.same_replaceFrame) fun hframe => ?_
    cases taken with
    | true => exact follows_done ⟨hframe, rfl⟩
    | false => exact follows_renderIf hbody (.refl _) hframe
  | close =>
    exact follows_andThen (follows_ofScope h.same_closeFrame) fun hafter =>
      follows_done ⟨hafter, rfl⟩
  | forEach item source =>
    have hitems : Follows m m' Eq (loopItems s.push source) (loopItems s'.push source) :=
      (h.push.follows_evaluate source _).bind_eq fun _ => .refl _
    refine hitems.bind_eq fun items => ?_
    exact follows_andThen (follows_renderItems hbody 0 items h.push) fun hafter =>
      follows_done ⟨hafter, rfl⟩

theorem follows_renderBody_of_renderForest {body : Forest}
    (hbody : ∀ {s s'}, Scope.Twin m m' s s' →
      Follows m m' (Same (Scope.Twin m m')) (renderForest body false s)
        (renderForest body false s'))
    (h : Scope.Twin m m' s s') :
    Follows m m' (Same (Scope.Twin m m')) (renderBody body s) (renderBody body s') := by
  rw [renderBody_eq]
  exact follows_andThen (hbody h) fun hafter => follows_done (h.truncate hafter)

theorem follows_renderForest (f : Forest) (taken : Bool) (h : Scope.Twin m m' s s') :
    Follows m m' (Same (Scope.Twin m m')) (renderForest f taken s) (renderForest f taken s') := by
  induction f generalizing taken s s' with
  | nil => exact follows_done h
  | node n body rest ihb ihr =>
    rw [renderForest_node, renderForest_node]
    have hnode := follows_renderNode n (follows_renderBody_of_renderForest (ihb false)) taken h
    refine follows_andThen hnode ?_
    rintro ⟨t, _⟩ ⟨t', known⟩ ⟨htwin, rfl⟩
    exact ihr known htwin

/-! ## Documents and templates -/

/-- **A rendering depends on the answers to its own questions only.** -/
theorem Document.follows_render (d : Document) (m m' : Model) :
    Follows m m' (Same (Scope.Twin m m')) (d.render m) (d.render m') := by
  rw [render, render, Rendering.andThen_eq, Rendering.andThen_eq]
  have hstart : Scope.Twin m m' (Scope.ofModel m) (Scope.ofModel m') := .intro []
  have hbody := follows_renderBody_of_renderForest
    (fun h => follows_renderForest d.forest false h) hstart.push
  exact follows_andThen hbody fun hafter => follows_ofScope hafter.same_closeFrame

/-- **Models that answer alike are the same to a template.**  If another model answers what the
template asks as the first one does, the template renders the same over both: with the same outcome,
the same events, and the same document kept. -/
theorem Template.render_eq_of_answersAlike {t : Template} {m m' : Model}
    (h : AnswersAlike m m' (t.render m).events) : t.render m' = t.render m := by
  have hfollows : Follows m m' Eq (t.render m) (t.render m') := by
    refine Follows.bind_eq (.refl t.document) ?_
    rintro ⟨_ | d, t⟩
    · exact .refl _
    · refine Follows.bind (d.follows_render m m') ?_
      rintro _ _ (htwin | fault)
      · exact .refl _
      · exact .refl _
  obtain ⟨hevents, hresult⟩ := hfollows h
  generalize t.render m = x, t.render m' = y at hevents hresult
  obtain ⟨result, events⟩ := x
  obtain rfl := hevents
  obtain rfl := hresult
  rfl

end Stencil
