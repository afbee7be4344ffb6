import Mathlib.Tactic.Common
import Stencil.Rendering
import Stencil.Proofs.Document.Nesting
import Stencil.Proofs.Evaluation.Silence

/-!
# Rendering one sibling at a time

`renderForest` walks over siblings with a scope and with the knowledge whether a branch of the chain
at hand was taken.  Both come out of every single node: `renderNode` is what one node does to them,
and a list of siblings is one node after another (`renderForest_node`, `renderForest_ofTrees`).
What holds of whole lists is proved from what holds of a node, so nothing behind this module takes
`renderForest` apart again.

`renderSiblings` keeps the knowledge about the chain that `renderForest` drops at the end, and so
can be cut anywhere (`renderSiblings_append`).  Of siblings that fit together it says that no branch
of a chain counts as taken where no branch is open (`not_taken_of_renderSiblings`): that is why
chains on one level know nothing of each other.

## Main Definitions

* `Attempt` — a computation that a missing frame may end
* `renderNode`, `renderSiblings` — one sibling, and siblings one after another
-/

namespace Stencil

/-- A computation with events that a missing frame may end. -/
abbrev Attempt (α : Type) := Traced (Except Scope.Fault α)

namespace Attempt

variable {α β γ : Type}

/-- A computation that does nothing. -/
def done (a : α) : Attempt α := Traced.pure (.ok a)

/-- One computation after another, unless the first is ended. -/
def andThen (x : Attempt α) (next : α → Attempt β) : Attempt β :=
  Traced.bind x fun
    | .ok a => next a
    | .error fault => Traced.pure (.error fault)

theorem andThen_of_ok {x : Attempt α} {a : α} (h : x.result = .ok a) (next : α → Attempt β) :
    x.andThen next = ⟨(next a).result, x.events ++ (next a).events⟩ := by
  rw [andThen, Traced.bind, h]

theorem andThen_of_error {x : Attempt α} {fault : Scope.Fault} (h : x.result = .error fault)
    (next : α → Attempt β) : x.andThen next = ⟨.error fault, x.events⟩ := by
  rw [andThen, Traced.bind, h]
  simp [Traced.pure]

/-- A computation comes to its end exactly if both of its parts do. -/
theorem result_andThen_eq_ok {x : Attempt α} {next : α → Attempt β} {b : β} :
    (x.andThen next).result = .ok b ↔ ∃ a, x.result = .ok a ∧ (next a).result = .ok b := by
  cases h : x.result with
  | ok a => simp [andThen_of_ok h]
  | error fault => simp [andThen_of_error h]

@[simp] theorem done_andThen (a : α) (next : α → Attempt β) : (done a).andThen next = next a := by
  rw [andThen_of_ok rfl]
  rfl

theorem andThen_assoc (x : Attempt α) (f : α → Attempt β) (g : β → Attempt γ) :
    (x.andThen f).andThen g = x.andThen fun a => (f a).andThen g := by
  cases h : x.result with
  | error fault => rw [andThen_of_error h, andThen_of_error h, andThen_of_error rfl]
  | ok a =>
    rw [andThen_of_ok h, andThen_of_ok h]
    cases hf : (f a).result with
    | error fault => rw [andThen_of_error hf, andThen_of_error rfl]
    | ok b => rw [andThen_of_ok hf, andThen_of_ok rfl, List.append_assoc]

theorem andThen_congr {x : Attempt α} {f g : α → Attempt β}
    (h : ∀ a, x.result = .ok a → f a = g a) : x.andThen f = x.andThen g := by
  cases hx : x.result with
  | error fault => rw [andThen_of_error hx, andThen_of_error hx]
  | ok a => rw [andThen_of_ok hx, andThen_of_ok hx, h a hx]

@[simp] theorem andThen_done (x : Attempt α) : x.andThen done = x := by
  obtain ⟨result, events⟩ := x
  cases result with
  | error fault => exact andThen_of_error rfl done
  | ok a =>
    rw [andThen_of_ok rfl]
    simp [done, Traced.pure]

theorem bind_andThen (x : Traced α) (f : α → Attempt β) (g : β → Attempt γ) :
    andThen (Traced.bind x f) g = Traced.bind x fun a => (f a).andThen g := by
  simp only [andThen, Traced.bind, List.append_assoc]

end Attempt

open Attempt (andThen_of_ok andThen_of_error andThen_assoc andThen_congr)

/-- Renderings follow each other like all other attempts. -/
theorem Rendering.andThen_eq (r : Rendering) (next : Scope → Rendering) :
    Rendering.andThen r next = Attempt.andThen r next := by
  unfold Rendering.andThen Attempt.andThen
  congr 1
  funext outcome
  cases outcome <;> rfl

theorem Rendering.ofScope_ok (s : Scope) : Rendering.ofScope (.ok s) = Attempt.done s := rfl

variable [Json.Library]

/-! ## One node -/

/-- Renders what a clause of a chain holds, in the frame that stands for it, if the clause is
taken. -/
def renderIf (test : Traced Bool) (body : Forest) (s : Scope) : Attempt (Scope × Bool) :=
  Traced.bind test fun truth =>
    Attempt.andThen (if truth then renderBody body s else .done s) fun s => .done (s, truth)

/-- Renders one node with what it holds.  It takes and returns, besides the scope, whether a branch
of the chain at hand was taken. -/
def renderNode (n : Node) (body : Forest) (taken : Bool) (s : Scope) : Attempt (Scope × Bool) :=
  match n.statement with
  | .text => ⟨.ok (s, taken), [.wrote n.content]⟩
  | .value expr => ⟨.ok (s, taken), (writeValue s expr).events⟩
  | .assign name expr _ => Attempt.andThen (assign s name expr) fun s => .done (s, taken)
  | .debug expr => ⟨.ok (s, taken), (showValue s expr).events⟩
  | .ifTrue predicate => renderIf (holds s predicate) body s.push
  | .elseIf predicate =>
    Attempt.andThen (Rendering.ofScope (replaceFrame s)) fun s =>
      if taken then .done (s, true) else renderIf (holds s predicate) body s
  | .otherwise =>
    Attempt.andThen (Rendering.ofScope (replaceFrame s)) fun s =>
      if taken then .done (s, true) else renderIf (pure true) body s
  | .close => Attempt.andThen (Rendering.ofScope (closeFrame s)) fun s => .done (s, false)
  | .forEach item source =>
    Traced.bind (loopItems s.push source) fun items =>
      Attempt.andThen (renderItems item (renderBody body) 0 items s.push) fun s => .done (s, taken)

/-- The frames that what a node holds leaves open are closed behind it. -/
theorem renderBody_eq (body : Forest) :
    renderBody body = fun s =>
      Attempt.andThen (renderForest body false s) fun after => .done (after.truncate s.depth) := by
  funext s
  rw [renderBody, Rendering.andThen_eq]
  rfl

theorem renderIf_andThen {α : Type} (test : Traced Bool) (body : Forest) (s : Scope)
    (next : Scope × Bool → Attempt α) :
    (renderIf test body s).andThen next =
      Traced.bind test fun truth =>
        Attempt.andThen (if truth then renderBody body s else .done s) fun s =>
          next (s, truth) := by
  simp only [renderIf, Attempt.bind_andThen, andThen_assoc, Attempt.done_andThen]

/-- **Siblings are rendered one after another.** -/
theorem renderForest_node (n : Node) (body rest : Forest) (taken : Bool) (s : Scope) :
    renderForest (.node n body rest) taken s =
      (renderNode n body taken s).andThen fun r => renderForest rest r.2 r.1 := by
  have hbody : renderBody body = fun s => Attempt.andThen (renderForest body false s) fun after =>
      Rendering.done (after.truncate s.depth) := renderBody_eq body
  rw [renderForest, renderNode]
  simp only [Rendering.andThen_eq, ← hbody]
  cases n.statement with
  | text | value | debug => rfl
  | assign | close => simp only [andThen_assoc, Attempt.done_andThen]
  | forEach => simp only [Attempt.bind_andThen, andThen_assoc, Attempt.done_andThen]
  | ifTrue predicate =>
    dsimp only
    rw [renderIf_andThen, hbody, holds_push]
    rfl
  | elseIf predicate =>
    dsimp only
    rw [andThen_assoc]
    apply andThen_congr
    intro s _
    cases taken with
    | true => rfl
    | false =>
      simp only [Bool.false_eq_true, if_false]
      rw [renderIf_andThen, hbody]
      rfl
  | otherwise =>
    dsimp only
    rw [andThen_assoc]
    apply andThen_congr
    intro s _
    cases taken with
    | true => rfl
    | false =>
      simp only [Bool.false_eq_true, if_false]
      rw [renderIf_andThen, hbody]
      rfl

/-! ## Siblings one after another -/

/-- Renders siblings one after another.  Besides the scope it takes and returns whether a branch of
the chain at hand was taken. -/
def renderSiblings : List (Node × Forest) → Bool → Scope → Attempt (Scope × Bool)
  | [], taken, s => .done (s, taken)
  | (n, body) :: rest, taken, s =>
    (renderNode n body taken s).andThen fun r => renderSiblings rest r.2 r.1

/-- A forest is rendered as its siblings are, and what is known about the last chain is dropped. -/
theorem renderForest_ofTrees (ts : List (Node × Forest)) (taken : Bool) (s : Scope) :
    renderForest (.ofTrees ts) taken s =
      (renderSiblings ts taken s).andThen fun r => .done r.1 := by
  induction ts generalizing taken s with
  | nil =>
    rw [Forest.ofTrees_nil, renderForest, renderSiblings, Attempt.done_andThen]
    rfl
  | cons t ts ih =>
    rw [Forest.ofTrees_cons, renderForest_node, renderSiblings, andThen_assoc]
    exact andThen_congr fun r _ => ih r.2 r.1

theorem renderSiblings_append (ts us : List (Node × Forest)) (taken : Bool) (s : Scope) :
    renderSiblings (ts ++ us) taken s =
      (renderSiblings ts taken s).andThen fun r => renderSiblings us r.2 r.1 := by
  induction ts generalizing taken s with
  | nil => rw [List.nil_append, renderSiblings, Attempt.done_andThen]
  | cons t ts ih =>
    rw [List.cons_append, renderSiblings, renderSiblings, andThen_assoc]
    exact andThen_congr fun r _ => ih r.2 r.1

/-! ## Chains on one level know nothing of each other -/

/-- A node that opens no branch ends the chain at hand: it closes the branch, or there is none. -/
theorem not_taken_of_renderNode {n : Node} {body : Forest} {taken : Bool} {s : Scope}
    {r : Scope × Bool} (h : (renderNode n body taken s).result = .ok r)
    (hopens : n.kind.opens = false) (htaken : n.kind.closes = false → taken = false) :
    r.2 = false := by
  rw [renderNode] at h
  unfold Node.kind at hopens htaken
  cases hst : n.statement with
  | text | value | debug =>
    rw [hst] at h htaken
    obtain rfl := Except.ok.inj h
    exact htaken rfl
  | assign =>
    rw [hst] at h htaken
    obtain ⟨s', -, hr⟩ := Attempt.result_andThen_eq_ok.1 h
    obtain rfl := Except.ok.inj hr
    exact htaken rfl
  | close =>
    rw [hst] at h
    obtain ⟨s', -, hr⟩ := Attempt.result_andThen_eq_ok.1 h
    obtain rfl := Except.ok.inj hr
    rfl
  | ifTrue | elseIf | otherwise | forEach =>
    rw [hst] at hopens
    cases hopens

/-- **Where no branch is open, no branch of a chain counts as taken.** -/
theorem not_taken_of_renderSiblings {opened taken : Bool} {ts : List (Node × Forest)} {s : Scope}
    {r : Scope × Bool} (h : (renderSiblings ts taken s).result = .ok r)
    (hfits : Forest.Fits opened (.ofTrees ts)) (htaken : opened = false → taken = false)
    (hbehind : Forest.openBehind opened ts = false) : r.2 = false := by
  induction ts generalizing opened taken s with
  | nil =>
    obtain rfl := Except.ok.inj h
    exact htaken hbehind
  | cons t ts ih =>
    obtain ⟨n, body⟩ := t
    obtain ⟨hcloses, -, hrest⟩ := hfits
    obtain ⟨r', hnode, hr⟩ := Attempt.result_andThen_eq_ok.1 h
    -- Whether a branch is open behind the node says whether the next sibling closes one.
    have htaken' : n.kind.opens = false → r'.2 = false := by
      intro hopens
      apply not_taken_of_renderNode hnode hopens
      intro hn
      exact htaken (hcloses.symm.trans hn)
    exact ih hr hrest htaken' hbehind

/-- **Siblings behind which no branch is open are rendered for themselves**, and so are those that
come after them. -/
theorem renderForest_append {ts us : List (Node × Forest)} (hfits : Forest.Fits false (.ofTrees ts))
    (hbehind : Forest.openBehind false ts = false) (s : Scope) :
    renderForest (.ofTrees (ts ++ us)) false s =
      Attempt.andThen (renderForest (.ofTrees ts) false s) fun s' =>
        renderForest (.ofTrees us) false s' := by
  rw [renderForest_ofTrees, renderForest_ofTrees, renderSiblings_append, andThen_assoc,
    andThen_assoc]
  apply andThen_congr
  intro r hr
  rw [Attempt.done_andThen, renderForest_ofTrees,
    not_taken_of_renderSiblings hr hfits (fun _ => rfl) hbehind]

end Stencil
