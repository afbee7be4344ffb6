import Mathlib.Tactic.Common
import Stencil.Proofs.Document.Brackets
import Stencil.Proofs.Rendering.Balance
import Stencil.Proofs.Rendering.Delivery
import Stencil.Proofs.Rendering.Trimmed
import Stencil.Proofs.Template.Cache

/-!
# Templates in a limited sink

A template is rendered into a sink that takes a number of bytes and then fails.  Rendering itself
has only one way to fail, that the source has no document (`exists_of_build_error`); a source that
has one is rendered to its end, whether its document has been trimmed or not
(`exists_render_of_build`).  So the sink is all that can go wrong behind the document, and the sink
depends on the output as a whole only (`Sink.follow_eq_write`).

`Template.deliver` renders piece by piece, as the output is handed over in reality, and comes to the
same (`Template.deliver_eq`).

## Main Definitions

* `Template.deliver` — rendering piece by piece into a sink with a limit
-/

namespace Stencil

namespace Template

/-! ## Documents of templates -/

/-- A template without a document has a source in which a closing tag is reached with no branch
open. -/
theorem exists_of_build_error {t : Template} {e : Error} (h : t.build.result = .error e) :
    ∃ body span, Segment.Unmatched (Segment.scan t.markers t.source) body span ∧
      e = { Builder.unmatched body span with name := t.name, source := some t.source } := by
  cases hrun : (Builder.start.run (Segment.scan t.markers t.source)).result with
  | ok b =>
    have hread : (Document.read t.markers t.source).result = .ok ⟨b.finish, false⟩ := by
      rw [Document.read, Traced.map, hrun]
      rfl
    rw [build] at h
    simp [hread] at h
  | error e' =>
    have hread : (Document.read t.markers t.source).result = .error e' := by
      rw [Document.read, Traced.map, hrun]
      rfl
    obtain ⟨body, span, hunmatched, rfl⟩ := Builder.run_start_eq_error_iff.1 hrun
    refine ⟨body, span, hunmatched, ?_⟩
    rw [build] at h
    simp only [Traced.result_bind, hread] at h
    exact (Except.error.inj h).symm

section Library

variable [Json.Library]

/-- Renders a template piece by piece into a sink that takes `limit` bytes in all, and returns the
bytes that the sink has taken. -/
def deliver (t : Template) (model : Model) (limit : Nat) :
    Traced (Except Failure Unit × List UInt8 × Template) := do
  let (r, t) ← t.document
  let (outcome, sink) ← match r with
    | .error e => pure (.error (.error e), Sink.ofLimit limit)
    | .ok d => d.deliver model (Sink.ofLimit limit)
  return (outcome.mapError (Failure.explainBy sink), sink.taken, t)

/-- The document of a template is rendered to its end. -/
theorem exists_render_of_build {t : Template} {d : Document} (h : t.build.result = .ok d)
    (model : Model) : ∃ s, (d.render model).result = .ok s := by
  obtain ⟨untouched, hread, rfl⟩ := result_build_eq_ok.1 h
  have hrender := Document.exists_render (Document.fits_of_read hread (.head _)) model
  cases t.trimming with
  | false => exact hrender
  | true =>
    simp only [if_true]
    rwa [(untouched.alike_render_trim model).result]

/-! ## Rendering -/

theorem result_rendering {t : Template} {d : Document} (h : t.build.result = .ok d)
    (model : Model) : (rendering model (.ok d)).result = .ok () := by
  obtain ⟨s, hs⟩ := exists_render_of_build h model
  rw [rendering, Traced.map, hs]

/-- What becomes of a rendering that comes to its end depends on how long its output is. -/
theorem result_renderingTo {model : Model} {r : Except Error Document}
    (h : (rendering model r).result = .ok ()) (limit : Nat) :
    (renderingTo model limit r).result =
      (if limit < Text.byteSize (Event.output (rendering model r).events)
        then .error (.error { cause := .sinkFull }) else .ok (),
        (Text.bytes (Event.output (rendering model r).events)).take limit) := by
  have hsink : ((Sink.ofLimit limit).follow (rendering model r).events).2 =
      (Sink.ofLimit limit).write (Text.bytes (Event.output (rendering model r).events)) :=
    Sink.follow_eq_write rfl _
  have hfailed : ((Sink.ofLimit limit).write
      (Text.bytes (Event.output (rendering model r).events))).failed =
        decide (limit < Text.byteSize (Event.output (rendering model r).events)) := by
    rw [Sink.failed_write rfl, Text.length_bytes]
    rfl
  rw [renderingTo]
  dsimp only
  rw [hsink, hfailed, h]
  by_cases hlimit : limit < Text.byteSize (Event.output (rendering model r).events)
  · simp [hlimit, Sink.write, Sink.ofLimit, Except.mapError, Failure.explainBy, Sink.explain]
  · simp [hlimit, Sink.write, Sink.ofLimit, Except.mapError]

/-- What is seen of a rendering into a sink is the first part of what is seen of the rendering. -/
theorem events_renderingTo_isPrefix (model : Model) (limit : Nat) (r : Except Error Document) :
    (renderingTo model limit r).events <+: (rendering model r).events :=
  Sink.follow_isPrefix _ _

theorem rendering_ok (model : Model) (d : Document) :
    rendering model (.ok d) =
      ((d.render model).map (Except.map fun _ => ())).map (Except.mapError Failure.fault) := by
  rw [rendering]
  simp only [Traced.map]
  cases (d.render model).result <;> rfl

/-- **Rendering piece by piece into a sink** comes to the same as letting the sink follow the
rendering of the whole template. -/
theorem deliver_eq (t : Template) (model : Model) (limit : Nat) :
    t.deliver model limit =
      ⟨(t.renderTo model limit).result, Event.beside (t.renderTo model limit).events⟩ := by
  rw [renderTo_eq, deliver, Event.beside_append,
    Event.beside_of_not_output (Event.isOutput_of_isUpkeep t.isUpkeep_document)]
  rcases hdocument : t.document.result with ⟨r, t'⟩
  rw [Traced.bind_of_result hdocument]
  cases r with
  | error e => rfl
  | ok d =>
    dsimp only
    rw [d.agrees_deliver model (Sink.ofLimit limit) rfl, renderingTo, rendering_ok]
    simp only [Attempt.into, Traced.map, Traced.result_bind, Traced.events_bind,
      Traced.result_pure, Traced.events_pure, List.append_nil]
    rfl

/-! ## Templates -/

/-- Asking for the document writes nothing. -/
theorem output_render (t : Template) (model : Model) :
    Event.output (t.render model).events =
      Event.output (rendering model t.document.result.1).events := by
  have hdocument : Event.output t.document.events = [] := by
    rw [← Event.output_visible, Event.visible_eq_nil t.isUpkeep_document]
    rfl
  rw [render_eq, Event.output_append, hdocument, List.nil_append]

/-- **What is seen of a rendering that ends early** is the first part of what there was to see. -/
theorem events_renderTo_isPrefix (t : Template) (model : Model) (limit : Nat) :
    (t.renderTo model limit).events <+: (t.render model).events := by
  rw [renderTo_eq, render_eq]
  exact (List.prefix_append_right_inj _).2 (events_renderingTo_isPrefix model limit _)

/-- **A sink that is too small takes the first bytes of the output.**  Let a template have any
history of changes, questions and copies, and let it be rendered into a sink that takes a number of
bytes.  If its source has a document, rendering it has an outcome, and the sink takes the bytes of
the output up to its limit.  If that is all of them, nothing goes wrong; otherwise the error says
that a write has failed and goes back to the sink.  What debug tags show is the first part of what
they show without a limit.  If the source has no document, both report the same error about a tag
that closes a branch, and nothing is written.  Handing the output over piece by piece comes to the
same. -/
theorem renderTo_of_history {sts : List Settings} {steps : List Step} {t : Template}
    (h : t ∈ runTemplates (sts.map Settings.fresh) steps) (model : Model) (limit : Nat) :
    (∀ d, t.build.result = .ok d →
      (t.render model).result.1 = .ok () ∧
      (t.renderTo model limit).result.2.1 =
        (Text.bytes (Event.output (t.render model).events)).take limit ∧
      (Text.byteSize (Event.output (t.render model).events) ≤ limit →
        (t.renderTo model limit).result.1 = .ok ()) ∧
      (limit < Text.byteSize (Event.output (t.render model).events) →
        ∃ e, (t.renderTo model limit).result.1 = .error (.error e) ∧
          e.cause.kind = .writeFailure ∧ e.cause.isForeign = true ∧ e.cause = .sinkFull) ∧
      Event.shown (t.renderTo model limit).events <+: Event.shown (t.render model).events) ∧
    (∀ e, t.build.result = .error e →
      (∃ body, e.cause = .unmatchedClose body) ∧
      (t.render model).result.1 = .error (.error e) ∧
      Event.output (t.render model).events = [] ∧
      (t.renderTo model limit).result.1 = .error (.error e) ∧
      (t.renderTo model limit).result.2.1 = []) ∧
    t.deliver model limit =
      ⟨(t.renderTo model limit).result, Event.beside (t.renderTo model limit).events⟩ := by
  have hdocument : t.document.result.1 = t.build.result := (coherent_of_history h).result_document
  refine ⟨?_, ?_, t.deliver_eq model limit⟩
  · intro d hbuild
    have hrendering : (rendering model t.document.result.1).result = .ok () := by
      rw [hdocument, hbuild]
      exact result_rendering hbuild model
    have hpart := result_renderingTo hrendering limit
    rw [← output_render] at hpart
    refine ⟨?_, ?_, ?_, ?_, (t.events_renderTo_isPrefix model limit).filterMap _⟩
    · rw [render_eq]
      exact hrendering
    · rw [renderTo_eq]
      exact congrArg Prod.snd hpart
    · intro hlimit
      rw [renderTo_eq, hpart]
      exact if_neg (Nat.not_lt.2 hlimit)
    · intro hlimit
      rw [renderTo_eq, hpart]
      exact ⟨_, if_pos hlimit, rfl, rfl, rfl⟩
  · intro e hbuild
    obtain ⟨body, span, -, rfl⟩ := exists_of_build_error hbuild
    rw [output_render, render_eq, renderTo_eq, hdocument, hbuild]
    exact ⟨⟨_, rfl⟩, rfl, rfl, rfl, rfl⟩

end Library

open Json.Strict

/-- A sink with two bytes is full in the middle of a character. -/
theorem renderTo_of_history_within_character :
    ((ofSource "a\u00E9".toList).render .empty).result.1 = .ok () ∧
      ((ofSource "a\u00E9".toList).renderTo .empty 2).result.2.1 = [0x61, 0xC3] ∧
      ∃ e, ((ofSource "a\u00E9".toList).renderTo .empty 2).result.1 = .error (.error e) ∧
        e.cause.kind = .writeFailure ∧ e.cause.isForeign = true ∧ e.cause = .sinkFull := by
  have hhistory : ofSource "a\u00E9".toList ∈
      runTemplates ([(ofSource "a\u00E9".toList).settings].map Settings.fresh) [] :=
    List.mem_singleton_self _
  obtain ⟨d, hd, -⟩ := Document.exists_read .standard "a\u00E9".toList
    (P := fun d => d.forest.size = 1) (by decide +kernel)
  obtain ⟨hdocument, -⟩ := renderTo_of_history hhistory .empty 2
  obtain ⟨hrender, htaken, -, hfull, -⟩ := hdocument d.trim (result_build_eq_ok.2 ⟨d, hd, rfl⟩)
  have hbytes : (Text.bytes (Event.output ((ofSource "a\u00E9".toList).render .empty).events)) =
      [0x61, 0xC3, 0xA9] := by decide +kernel
  refine ⟨hrender, ?_, hfull ?_⟩
  · rw [htaken, hbytes]
    rfl
  · rw [← Text.length_bytes, hbytes]
    decide

end Template

end Stencil
