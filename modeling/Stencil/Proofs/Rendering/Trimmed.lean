import Mathlib.Tactic.Common
import Stencil.Proofs.Document.Trimmed
import Stencil.Proofs.Rendering.Siblings

/-!
# Rendering a trimmed document

A trimmed document and the document that it was made from are rendered side by side.  The text of a
node goes nowhere but into the output, so both renderings go through the same scopes, take the same
branches and make the same passes, and what is seen of them is the same, event by event, apart from
the white space of what they write (`alike_renderForest`).  Nothing is written where nothing was
written before: a text of which nothing is left is still written, as an empty piece.

## Main Definitions

* `Event.Alike` — events that differ at most in the white space of what is written
* `Traced.Alike` — computations with the same result and such events
-/

namespace Stencil

/-! ## Events -/

/-- Two events that differ at most in the white space of what is written. -/
inductive Event.Alike : Event → Event → Prop
  | wrote {piece piece' : Text} (h : Text.ink piece = Text.ink piece') :
      Alike (.wrote piece) (.wrote piece')
  | refl (event : Event) : Alike event event

namespace Event

/-- A view of events that is the same for every two events that are alike, is the same for lists of
them. -/
theorem view_eq_of_alike {α : Type} {view : List Event → List α}
    (happend : ∀ xs ys, view (xs ++ ys) = view xs ++ view ys)
    (halike : ∀ piece piece', Text.ink piece = Text.ink piece' →
      view [wrote piece] = view [wrote piece'])
    {xs ys : List Event} (h : List.Forall₂ Alike xs ys) : view xs = view ys := by
  induction h with
  | nil => rfl
  | @cons x y xs ys hhead htail ih =>
    have hview : view [x] = view [y] := by
      cases hhead with
      | wrote hink => exact halike _ _ hink
      | refl => rfl
    rw [← List.singleton_append, happend, hview, ih, ← happend, List.singleton_append]

theorem shown_eq_of_alike {xs ys : List Event} (h : List.Forall₂ Alike xs ys) :
    shown xs = shown ys :=
  view_eq_of_alike shown_append (fun _ _ _ => rfl) h

theorem queries_eq_of_alike {xs ys : List Event} (h : List.Forall₂ Alike xs ys) :
    queries xs = queries ys :=
  view_eq_of_alike queries_append (fun _ _ _ => rfl) h

theorem notes_eq_of_alike {xs ys : List Event} (h : List.Forall₂ Alike xs ys) (hooked : Bool) :
    notes hooked xs = notes hooked ys :=
  view_eq_of_alike (notes_append hooked) (fun _ _ _ => rfl) h

theorem ink_output_eq_of_alike {xs ys : List Event} (h : List.Forall₂ Alike xs ys) :
    Text.ink (output xs) = Text.ink (output ys) := by
  induction h with
  | nil => rfl
  | @cons x y xs ys hhead _ ih =>
    have hpiece : Text.ink (output [x]) = Text.ink (output [y]) := by
      cases hhead with
      | wrote hink => simpa [output] using hink
      | refl => rfl
    show Text.ink (output ([x] ++ xs)) = Text.ink (output ([y] ++ ys))
    rw [output_append, output_append, Text.ink_append, Text.ink_append, hpiece, ih]

end Event

/-! ## Computations -/

/-- Two computations with the same result, seen of which is the same apart from the white space of
what they write. -/
structure Traced.Alike {α : Type} (x y : Traced α) : Prop where
  result : x.result = y.result
  events : List.Forall₂ Event.Alike x.events y.events

section Alike

variable {α β : Type}

theorem Traced.Alike.refl (x : Traced α) : x.Alike x :=
  ⟨rfl, List.forall₂_same.2 fun event _ => .refl event⟩

theorem Traced.Alike.bind {x y : Traced α} {f g : α → Traced β} (h : x.Alike y)
    (hnext : ∀ a, (f a).Alike (g a)) : (x.bind f).Alike (y.bind g) := by
  have hresult := hnext x.result
  rw [Traced.bind, Traced.bind, ← h.result]
  exact ⟨hresult.result, List.rel_append h.events hresult.events⟩

theorem Attempt.alike_andThen {x y : Attempt α} {f g : α → Attempt β} (h : Traced.Alike x y)
    (hnext : ∀ a, Traced.Alike (f a) (g a)) : Traced.Alike (x.andThen f) (y.andThen g) := by
  apply Traced.Alike.bind h
  intro outcome
  cases outcome with
  | ok a => exact hnext a
  | error fault => exact .refl _

end Alike

open Attempt (alike_andThen)

/-! ## Nodes and forests -/

variable {body body' : Forest}

variable [Json.Library]

theorem alike_renderItems (hbody : ∀ s, Traced.Alike (renderBody body s) (renderBody body' s))
    (item : Text) (index : Nat) (items : List Value) (s : Scope) :
    Traced.Alike (renderItems item (renderBody body) index items s)
      (renderItems item (renderBody body') index items s) := by
  induction items generalizing index s with
  | nil => exact .refl _
  | cons v rest ih =>
    simp only [renderItems, Rendering.andThen_eq]
    refine alike_andThen (.refl _) fun start => alike_andThen (hbody start) fun inner => ?_
    exact alike_andThen (.refl _) fun left => ih (index + 1) left

theorem alike_renderIf (hbody : ∀ s, Traced.Alike (renderBody body s) (renderBody body' s))
    (test : Traced Bool) (s : Scope) :
    Traced.Alike (renderIf test body s) (renderIf test body' s) := by
  apply Traced.Alike.bind (.refl test)
  intro truth
  refine alike_andThen ?_ fun _ => .refl _
  cases truth with
  | true => exact hbody s
  | false => exact .refl _

/-- **Nodes that are alike are rendered alike**, if what they hold is. -/
theorem alike_renderNode {m n : Node} (h : m.Alike n)
    (hbody : ∀ s, Traced.Alike (renderBody body s) (renderBody body' s)) (taken : Bool)
    (s : Scope) : Traced.Alike (renderNode m body taken s) (renderNode n body' taken s) := by
  unfold renderNode
  rw [h.statement]
  cases n.statement with
  | text => exact ⟨rfl, .cons (.wrote h.ink) .nil⟩
  | value | assign | debug | close => exact .refl _
  | ifTrue predicate => exact alike_renderIf hbody (holds s predicate) s.push
  | elseIf predicate =>
    refine alike_andThen (.refl _) fun s => ?_
    cases taken with
    | true => exact .refl _
    | false => exact alike_renderIf hbody (holds s predicate) s
  | otherwise =>
    refine alike_andThen (.refl _) fun s => ?_
    cases taken with
    | true => exact .refl _
    | false => exact alike_renderIf hbody (pure true) s
  | forEach item source =>
    refine Traced.Alike.bind (.refl _) fun items => ?_
    exact alike_andThen (alike_renderItems hbody item 0 items s.push) fun _ => .refl _

theorem alike_renderBody_of_renderForest
    (h : ∀ s, Traced.Alike (renderForest body false s) (renderForest body' false s)) (s : Scope) :
    Traced.Alike (renderBody body s) (renderBody body' s) := by
  rw [renderBody_eq, renderBody_eq]
  exact alike_andThen (h s) fun _ => .refl _

/-- **Forests that are alike are rendered alike.** -/
theorem alike_renderForest {f g : Forest} (h : f.Alike g) (taken : Bool) (s : Scope) :
    Traced.Alike (renderForest f taken s) (renderForest g taken s) := by
  induction h generalizing taken s with
  | nil => exact .refl _
  | node first inside behind ihb ihr =>
    rw [renderForest_node, renderForest_node]
    have hbody := alike_renderBody_of_renderForest (ihb false)
    exact alike_andThen (alike_renderNode first hbody taken s) fun r => ihr r.2 r.1

/-! ## Documents -/

theorem Document.alike_render_trim (d : Document) (model : Model) :
    Traced.Alike (d.trim.render model) (d.render model) := by
  rw [render, render, Rendering.andThen_eq, Rendering.andThen_eq]
  have hbody := alike_renderBody_of_renderForest (alike_renderForest d.alike_trim false)
  exact alike_andThen (hbody _) fun _ => .refl _

/-- **Trimming only takes white space from the output.**  A document and the document without the
white space around its tags are rendered over a model with the same outcome.  They show the same
values, ask the model the same questions and take the same notes, each in the same order, and what
they write is the same text once all white space is deleted from it. -/
theorem Document.render_trim (d : Document) (model : Model) :
    (d.trim.render model).result = (d.render model).result ∧
      Event.shown (d.trim.render model).events = Event.shown (d.render model).events ∧
      Event.queries (d.trim.render model).events = Event.queries (d.render model).events ∧
      (∀ hooked, Event.notes hooked (d.trim.render model).events =
        Event.notes hooked (d.render model).events) ∧
      (Event.output (d.trim.render model).events).filter (fun c => !Text.isBlank c) =
        (Event.output (d.render model).events).filter fun c => !Text.isBlank c := by
  have halike := d.alike_render_trim model
  exact ⟨halike.result, Event.shown_eq_of_alike halike.events,
    Event.queries_eq_of_alike halike.events, Event.notes_eq_of_alike halike.events,
    Event.ink_output_eq_of_alike halike.events⟩

end Stencil
