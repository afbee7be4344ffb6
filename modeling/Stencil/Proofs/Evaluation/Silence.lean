import Mathlib.Tactic.Common
import Stencil.Evaluation

/-!
# What evaluation sees and shows

Evaluation looks at a scope through the values of its key paths only, so a frame that binds nothing
makes no difference to it (`evaluate_push`, `holds_push`).  What it lets the outside see are
questions to the model and notes: it never writes and never shows a value (`silent_evaluate`,
`silent_holds`).

## Main Definitions

* `Traced.Silent` — a computation that neither writes nor shows anything
-/

namespace Stencil

/-! ## Silent computations -/

/-- Whether an event is a question to the model or a note. -/
def Event.isSilent : Event → Bool
  | asked _ | noted _ => true
  | wrote _ | showed _ => false

namespace Traced

variable {α β : Type}

/-- A computation that neither writes nor shows anything. -/
def Silent (x : Traced α) : Prop := ∀ event ∈ x.events, event.isSilent

theorem Silent.pure (a : α) : Silent (Pure.pure a : Traced α) := by
  intro event hevent
  cases hevent

theorem Silent.bind {x : Traced α} {f : α → Traced β} (hx : Silent x) (hf : ∀ a, Silent (f a)) :
    Silent (x >>= f) := by
  intro event hevent
  rw [events_bind, List.mem_append] at hevent
  rcases hevent with hevent | hevent
  · exact hx event hevent
  · exact hf x.result event hevent

theorem Silent.map {x : Traced α} (hx : Silent x) (f : α → β) : Silent (x.map f) := hx

theorem Silent.note (note : Note) (a : α) : Silent ⟨a, [.noted note]⟩ := by
  intro event hevent
  rw [List.mem_singleton.1 hevent]
  rfl

theorem Silent.output_eq_nil {x : Traced α} (hx : Silent x) : Event.output x.events = [] := by
  rw [Event.output, List.flatMap_eq_nil_iff]
  intro event hevent
  have hsilent : event.isSilent := hx event hevent
  cases event with
  | wrote | showed => cases hsilent
  | asked | noted => rfl

theorem Silent.shown_eq_nil {x : Traced α} (hx : Silent x) : Event.shown x.events = [] := by
  rw [Event.shown, List.filterMap_eq_nil_iff]
  intro event hevent
  have hsilent : event.isSilent := hx event hevent
  cases event with
  | wrote | showed => cases hsilent
  | asked | noted => rfl

end Traced

open Traced (Silent)

theorem Scope.silent_load (s : Scope) (path : Text) : Silent (s.load path) := by
  rw [load]
  obtain ⟨name, rest⟩ := Text.splitDot path
  dsimp only
  cases lookup? name s.frames with
  | none =>
    intro event hevent
    rw [List.mem_singleton.1 hevent]
    rfl
  | some v => cases rest <;> exact Silent.pure _

theorem silent_settle {α : Type} (r : Except Value.Fault α) : Silent (settle r) := by
  cases r with
  | ok a => exact Silent.pure _
  | error fault => exact Silent.note _ _

theorem silent_applyBinary (op : BinaryOp) (x y : Value) : Silent (applyBinary op x y) := by
  cases op with
  | isIn | contains | beginsWith | endsWith => exact (silent_settle _).map _
  | add | sub | mul | div | pow => exact silent_settle _
  | _ => exact Silent.pure _

namespace Expr

/-! ## Expressions -/

mutual

/-- The value of an expression depends on the scope through the values of key paths only. -/
theorem eval_congr {s s' : Scope} (h : ∀ path, s.load path = s'.load path) :
    ∀ e : Expr, e.eval s = e.eval s'
  | const v => by simp only [eval]
  | path p => by simp only [eval, h]
  | attr object name => by simp only [eval, eval_congr h object]
  | item object key => by simp only [eval, eval_congr h object, eval_congr h key]
  | not operand => by simp only [eval, eval_congr h operand]
  | neg operand => by simp only [eval, eval_congr h operand]
  | binary op left right => by cases op <;> simp only [eval, eval_congr h left, eval_congr h right]
  | list items => by simp only [eval, evalItems_congr h items]

theorem evalItems_congr {s s' : Scope} (h : ∀ path, s.load path = s'.load path) :
    ∀ es : List Expr, evalItems s es = evalItems s' es
  | [] => by simp only [evalItems]
  | e :: rest => by simp only [evalItems, eval_congr h e, evalItems_congr h rest]

end

/-- If a value is needed and there is none, nothing happens. -/
theorem silent_ofSome {v : Option Value} {f : Value → Traced (Option Value)}
    (hf : ∀ v, Silent (f v)) :
    Silent (match v with
      | some v => f v
      | none => Pure.pure none) := by
  cases v with
  | none => exact Silent.pure _
  | some v => exact hf v

mutual

/-- Evaluating an expression asks the model and takes notes, and does nothing else. -/
theorem silent_eval (s : Scope) : ∀ e : Expr, Silent (e.eval s)
  | const v => by rw [eval]; exact Silent.pure _
  | path p => by rw [eval]; exact s.silent_load p
  | attr object name => by
    rw [eval]
    exact (silent_eval s object).bind fun _ => silent_ofSome fun _ => Silent.pure _
  | item object key => by
    rw [eval]
    exact (silent_eval s object).bind fun _ => silent_ofSome fun _ =>
      (silent_eval s key).bind fun _ => silent_ofSome fun _ => Silent.pure _
  | not operand => by
    rw [eval]
    exact (silent_eval s operand).bind fun _ => Silent.pure _
  | neg operand => by
    rw [eval]
    exact (silent_eval s operand).bind fun _ => silent_ofSome fun _ => silent_settle _
  | binary op left right => by
    cases op with
    | and =>
      rw [eval]
      apply (silent_eval s left).bind
      intro v
      split
      · exact (silent_eval s right).bind fun _ => Silent.pure _
      · exact Silent.pure _
    | or =>
      rw [eval]
      apply (silent_eval s left).bind
      intro v
      split
      · exact Silent.pure _
      · exact (silent_eval s right).bind fun _ => Silent.pure _
    | _ =>
      simp only [eval]
      exact (silent_eval s left).bind fun _ => silent_ofSome fun _ =>
        (silent_eval s right).bind fun _ => silent_ofSome fun _ => silent_applyBinary _ _ _
  | list items => by
    rw [eval]
    exact (silent_evalItems s items).bind fun _ => Silent.pure _

theorem silent_evalItems (s : Scope) : ∀ es : List Expr, Silent (evalItems s es)
  | [] => by rw [evalItems]; exact Silent.pure _
  | e :: rest => by
    rw [evalItems]
    exact (silent_eval s e).bind fun _ => (silent_evalItems s rest).bind fun _ => Silent.pure _

end

end Expr

/-! ## Tag bodies -/

theorem silent_evaluateExpr (s : Scope) (source : Text) : Silent (evaluateExpr s source) := by
  rw [evaluateExpr]
  split
  · exact Expr.silent_eval s _
  · exact Silent.note _ _

theorem silent_evaluateText (s : Scope) (source : Text) (switches : Switches) :
    Silent (evaluateText s source switches) := by
  rw [evaluateText]
  split
  · exact silent_evaluateExpr s source
  · exact s.silent_load source

/-- Testing a condition neither writes nor shows anything. -/
theorem silent_holds (s : Scope) (source : Text) : Silent (holds s source) :=
  (silent_evaluateExpr s source).map _

/-! ## Scopes that answer alike -/

theorem evaluateExpr_congr {s s' : Scope} (h : ∀ path, s.load path = s'.load path)
    (source : Text) : evaluateExpr s source = evaluateExpr s' source := by
  rw [evaluateExpr, evaluateExpr]
  cases Expr.ofText source with
  | ok e => exact e.eval_congr h
  | error _ => rfl

/-- A new frame binds nothing, so every key path keeps its value. -/
theorem Scope.load_push (s : Scope) (path : Text) : s.push.load path = s.load path := rfl

/-- Conditions are as true in a new frame as they were before. -/
@[simp] theorem holds_push (s : Scope) (source : Text) : holds s.push source = holds s source := by
  rw [holds, holds, evaluateExpr_congr s.load_push]

/-! ## Texts that may be JSON -/

variable [Json.Library]

/-- Evaluating a text neither writes nor shows anything. -/
theorem silent_evaluate (s : Scope) (source : Text) (switches : Switches) :
    Silent (evaluate s source switches) := by
  rw [evaluate]
  split
  · split
    · exact Silent.pure _
    · apply (Silent.note _ ()).bind
      intro _
      split
      · exact silent_evaluateText s _ switches
      · exact Silent.pure _
  · exact silent_evaluateText s _ switches

theorem evaluate_congr {s s' : Scope} (h : ∀ path, s.load path = s'.load path) (source : Text)
    (switches : Switches) : evaluate s source switches = evaluate s' source switches := by
  have htext : ∀ source, evaluateText s source switches = evaluateText s' source switches := by
    intro source
    rw [evaluateText, evaluateText, evaluateExpr_congr h, h]
  simp only [evaluate, htext]

/-- Texts have the same value in a new frame. -/
@[simp] theorem evaluate_push (s : Scope) (source : Text) (switches : Switches) :
    evaluate s.push source switches = evaluate s source switches :=
  evaluate_congr s.load_push source switches

end Stencil
