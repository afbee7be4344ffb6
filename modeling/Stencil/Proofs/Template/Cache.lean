import Mathlib.Tactic.Common
import Stencil.Template
import Stencil.Proofs.Sink.Room

/-!
# The document that a template keeps

A template makes its document when it is first asked for it, and from then on gives the same one.
Nobody who asks a template should be able to tell: whatever has been done to it, it answers as a
template with the same settings would that has never been asked before.  What carries this is
`Template.Coherent`, which says that a document that is kept is the one that the settings give.
Each change of a setting keeps it, since it drops the document or does not touch what the document
depends on; each question keeps it, since what it adds comes from the settings; and a copy is as
good as the original.

Only the log tells when a document is made and when it is dropped.  `Event.visible` is everything
else.

## Main Definitions

* `Event.visible` — what can be seen besides the upkeep of documents
* `Settings` — what a template is told, as opposed to what it keeps
* `Template.Change`, `Template.Access` — what can be done to a template
* `Template.Coherent` — the document that is kept is that of the settings
* `Step`, `runTemplates`, `runSettings` — histories of several templates, some of them copies of
  others
-/

namespace Stencil

/-! ## The upkeep of documents in the log -/

namespace Event

/-- Whether an event is a note about making or dropping a document. -/
def isUpkeep : Event → Bool
  | noted (.building _ _) | noted (.discarded _) | noted (.attached _ _) => true
  | _ => false

/-- What can be seen besides the upkeep of documents. -/
def visible (events : List Event) : List Event := events.filter fun event => !event.isUpkeep

@[simp] theorem visible_append (xs ys : List Event) :
    visible (xs ++ ys) = visible xs ++ visible ys := List.filter_append _ _

theorem visible_eq_nil {events : List Event} (h : ∀ event ∈ events, event.isUpkeep) :
    visible events = [] := by
  rw [visible, List.filter_eq_nil_iff]
  intro event hevent
  simp [h event hevent]

/-- Upkeep is no output. -/
theorem isOutput_of_isUpkeep {events : List Event} (h : ∀ event ∈ events, event.isUpkeep) :
    ∀ event ∈ events, event.isOutput = false := by
  intro event hevent
  have hupkeep := h event hevent
  cases event with
  | wrote | showed | asked => cases hupkeep
  | noted note => rfl

/-- A view of events in which upkeep does not appear is a view of what can be seen. -/
theorem view_visible {α : Type} {view : List Event → List α} (hnil : view [] = [])
    (happend : ∀ xs ys, view (xs ++ ys) = view xs ++ view ys)
    (hupkeep : ∀ event, event.isUpkeep → view [event] = []) (events : List Event) :
    view (visible events) = view events := by
  induction events with
  | nil => rw [visible, List.filter_nil]
  | cons event rest ih =>
    have hhead : view (visible [event]) = view [event] := by
      cases hevent : event.isUpkeep with
      | true =>
        have hnone : visible [event] = [] := by simp [visible, hevent]
        rw [hnone, hnil, hupkeep event hevent]
      | false =>
        have hself : visible [event] = [event] := by simp [visible, hevent]
        rw [hself]
    rw [← List.singleton_append, visible_append, happend, happend, hhead, ih]

/-- The output is among what can be seen. -/
theorem output_visible (events : List Event) : output (visible events) = output events := by
  apply view_visible rfl output_append
  intro event hevent
  cases event with
  | wrote | showed | asked => cases hevent
  | noted note => rfl

/-- The values that debug tags show are among what can be seen. -/
theorem shown_visible (events : List Event) : shown (visible events) = shown events := by
  apply view_visible rfl shown_append
  intro event hevent
  cases event with
  | wrote | showed | asked => cases hevent
  | noted note => rfl

/-- The questions to the model are among what can be seen. -/
theorem queries_visible (events : List Event) : queries (visible events) = queries events := by
  apply view_visible rfl queries_append
  intro event hevent
  cases event with
  | wrote | showed | asked => cases hevent
  | noted note => rfl

end Event

/-- The notes about a source that is read concern the upkeep of its document. -/
theorem Builder.isUpkeep_run (b : Builder) (segments : List (Segment × Span)) :
    ∀ event ∈ (b.run segments).events, event.isUpkeep := by
  induction segments generalizing b with
  | nil =>
    intro event hevent
    cases hevent
  | cons head rest ih =>
    obtain ⟨segment, span⟩ := head
    rw [run]
    intro event hevent
    split at hevent
    · cases hevent
    · rcases List.mem_append.1 hevent with hevent | hevent
      · cases segment with
        | text => cases hevent
        | tag body =>
          obtain rfl := List.mem_singleton.1 hevent
          rfl
      · exact ih _ event hevent

/-! ## Settings -/

/-- What a template is told, as opposed to what it keeps. -/
structure Settings where
  name : Option Text
  source : Text
  markers : Markers
  trimming : Bool
  hooked : Bool
  receiver : Nat

/-- A template that has never been asked anything. -/
def Settings.fresh (st : Settings) : Template where
  name := st.name
  source := st.source
  markers := st.markers
  trimming := st.trimming
  hooked := st.hooked
  receiver := st.receiver

namespace Template

/-- What a template has been told. -/
def settings (t : Template) : Settings where
  name := t.name
  source := t.source
  markers := t.markers
  trimming := t.trimming
  hooked := t.hooked
  receiver := t.receiver

@[simp] theorem settings_fresh (st : Settings) : st.fresh.settings = st := rfl

@[simp] theorem build_fresh (t : Template) : t.settings.fresh.build = t.build := rfl

/-- A document that is kept is the one that the settings give. -/
def Coherent (t : Template) : Prop := ∀ d, t.kept = some d → t.build.result = .ok d

theorem coherent_of_kept_eq_none {t : Template} (h : t.kept = none) : t.Coherent := by
  intro d hd
  rw [h] at hd
  cases hd

theorem coherent_fresh (st : Settings) : st.fresh.Coherent := coherent_of_kept_eq_none rfl

/-! ## Making a document -/

/-- Making a document is a note and what is seen of reading the source. -/
theorem events_build (t : Template) :
    t.build.events =
      .noted (.building t.trimming t.name) :: (Document.read t.markers t.source).events := by
  rw [build]
  cases hread : (Document.read t.markers t.source).result <;>
    simp [Traced.bind_of_result hread, Traced.emit]

/-- Making a document is upkeep. -/
theorem isUpkeep_build (t : Template) : ∀ event ∈ t.build.events, event.isUpkeep := by
  intro event hevent
  rw [events_build] at hevent
  rcases List.mem_cons.1 hevent with rfl | hevent
  · rfl
  · exact Builder.isUpkeep_run _ _ event hevent

/-- Asking for the document is upkeep. -/
theorem isUpkeep_document (t : Template) : ∀ event ∈ t.document.events, event.isUpkeep := by
  intro event hevent
  rw [document] at hevent
  split at hevent
  · cases hevent
  · refine t.isUpkeep_build event ?_
    cases hbuild : t.build.result <;> simpa [Traced.bind_of_result hbuild] using hevent

/-- All that asking for the document can do: it gives what the settings give, and keeps a document
that it gives. -/
theorem Coherent.document_cases {t : Template} (h : t.Coherent) :
    (∃ d, t.build.result = .ok d ∧ t.document.result = (.ok d, { t with kept := some d })) ∨
      ∃ e, t.build.result = .error e ∧ t.kept = none ∧ t.document.result = (.error e, t) := by
  cases hkept : t.kept with
  | some d =>
    have hdocument : t.document = pure (.ok d, t) := by rw [document, hkept]
    have hself : { t with kept := some d } = t := by rw [← hkept]
    refine .inl ⟨d, h d hkept, ?_⟩
    rw [hdocument, hself]
    rfl
  | none =>
    rw [document, hkept]
    dsimp only
    cases hbuild : t.build.result with
    | ok d =>
      rw [Traced.bind_of_result hbuild]
      exact .inl ⟨d, rfl, rfl⟩
    | error e =>
      rw [Traced.bind_of_result hbuild]
      exact .inr ⟨e, rfl, rfl, rfl⟩

theorem Coherent.result_document {t : Template} (h : t.Coherent) :
    t.document.result.1 = t.build.result := by
  obtain ⟨d, hbuild, hdocument⟩ | ⟨e, hbuild, -, hdocument⟩ := h.document_cases
  · rw [hbuild, hdocument]
  · rw [hbuild, hdocument]

theorem Coherent.settings_document {t : Template} (h : t.Coherent) :
    t.document.result.2.settings = t.settings := by
  obtain ⟨d, -, hdocument⟩ | ⟨e, -, -, hdocument⟩ := h.document_cases
  · rw [hdocument]
    rfl
  · rw [hdocument]

theorem Coherent.document {t : Template} (h : t.Coherent) : t.document.result.2.Coherent := by
  obtain ⟨d, hbuild, hdocument⟩ | ⟨e, -, -, hdocument⟩ := h.document_cases
  · rw [hdocument]
    intro d' hd'
    obtain rfl := Option.some.inj hd'
    exact hbuild
  · rw [hdocument]
    exact h

/-! ## Changing settings -/

/-- A change of the settings of a template. -/
inductive Change
  | source (source : Text)
  | trimming (trimming : Bool)
  | markers (opening closing : Text)
  | name (name : Text)
  | receiver (receiver : Nat)

/-- Changes a setting; an error is why the change is refused. -/
def change (t : Template) : Change → Traced (Except Error Unit × Template)
  | .source source => (t.setSource source).map (.ok (), ·)
  | .trimming trimming => (t.setTrimming trimming).map (.ok (), ·)
  | .markers opening closing => t.setMarkers opening closing
  | .name name => pure (.ok (), t.setName name)
  | .receiver receiver => pure (.ok (), t.hook receiver)

end Template

/-- The settings after a change; texts that are no markers change nothing. -/
def Settings.change (st : Settings) : Template.Change → Settings
  | .source source => { st with source }
  | .trimming trimming => { st with trimming }
  | .markers opening closing =>
    match Markers.ofTexts opening closing with
    | .ok markers => { st with markers }
    | .error _ => st
  | .name name => { st with name := some name }
  | .receiver receiver => { st with hooked := true, receiver }

namespace Template

@[simp] theorem result_discard (t : Template) : t.discard.result = { t with kept := none } := by
  rw [discard]
  split
  · rfl
  · next hkept =>
    have hself : { t with kept := none } = t := by rw [← hkept]
    rw [hself]
    rfl

theorem coherent_discard (t : Template) : t.discard.result.Coherent :=
  coherent_of_kept_eq_none (congrArg kept t.result_discard)

/-- The document that is made depends on the source, the markers and trimming only. -/
theorem result_build_eq_ok {t : Template} {d : Document} :
    t.build.result = .ok d ↔
      ∃ untouched, (Document.read t.markers t.source).result = .ok untouched ∧
        (if t.trimming then untouched.trim else untouched) = d := by
  rw [build]
  cases hread : (Document.read t.markers t.source).result with
  | ok untouched => simp [hread]
  | error e => simp [hread]

/-- A new name does not touch what the document depends on. -/
theorem Coherent.setName {t : Template} (h : t.Coherent) (name : Text) :
    (t.setName name).Coherent := by
  intro d hd
  obtain ⟨untouched, hread, htrim⟩ := result_build_eq_ok.1 (h d hd)
  exact result_build_eq_ok.2 ⟨untouched, hread, htrim⟩

/-- A new receiver does not touch what the document depends on. -/
theorem Coherent.hook {t : Template} (h : t.Coherent) (receiver : Nat) :
    (t.hook receiver).Coherent := h

/-- **A change keeps a template coherent.** -/
theorem Coherent.change {t : Template} (h : t.Coherent) (c : Change) :
    (t.change c).result.2.Coherent := by
  cases c with
  | source source => exact coherent_discard { t with source }
  | trimming trimming =>
    simp only [Template.change, setTrimming]
    -- What is no change keeps the document, which then still fits.
    split
    · exact h
    · exact coherent_discard { t with trimming }
  | markers opening closing =>
    simp only [Template.change, setMarkers]
    cases Markers.ofTexts opening closing with
    | ok markers => exact coherent_discard { t with markers }
    | error fault => exact h
  | name name => exact h.setName name
  | receiver receiver => exact h.hook receiver

/-- What a template has been told after a change depends on what it had been told before. -/
theorem settings_change (t : Template) (c : Change) :
    (t.change c).result.2.settings = t.settings.change c := by
  cases c with
  | source source =>
    show (discard { t with source }).result.settings = _
    rw [result_discard]
    rfl
  | trimming trimming =>
    simp only [change, setTrimming]
    split
    · next hsame =>
      subst hsame
      rfl
    · show (discard { t with trimming }).result.settings = _
      rw [result_discard]
      rfl
  | markers opening closing =>
    simp only [change, setMarkers, Settings.change]
    cases Markers.ofTexts opening closing with
    | ok markers =>
      show (discard { t with markers }).result.settings = _
      rw [result_discard]
      rfl
    | error fault => rfl
  | name name => rfl
  | receiver receiver => rfl

/-- A change that is refused leaves the template as it is, with the document that it keeps. -/
theorem change_markers_of_error {opening closing : Text} {fault : Markers.Fault}
    (h : Markers.ofTexts opening closing = .error fault) (t : Template) :
    t.change (.markers opening closing) = pure (.error { cause := .badMarkers fault }, t) := by
  rw [change, setMarkers, h]

/-! ## Asking -/

/-- A question to a template. -/
inductive Access
  | document
  | dump (contents : Bool)
  | render (model : Model)
  | renderTo (model : Model) (limit : Nat)

/-- What a template answers.  What a rendering writes and shows is among its events, and the bytes
that a sink has taken are part of the answer. -/
inductive Answer
  | document (r : Except Error Document)
  | dump (r : Except Error Text)
  | rendering (r : Except Failure Unit)
  | delivery (r : Except Failure Unit) (taken : List UInt8)

/-- A template whose source has no document keeps none. -/
theorem Coherent.kept_eq_none {t : Template} (h : t.Coherent) {e : Error}
    (hbuild : t.build.result = .error e) : t.kept = none := by
  cases hkept : t.kept with
  | none => rfl
  | some d =>
    have hok : t.build.result = .ok d := h d hkept
    rw [hbuild] at hok
    cases hok

variable [Json.Library]

/-- Asks a template. -/
def access (t : Template) : Access → Traced (Answer × Template)
  | .document => t.document.map fun (r, t) => (.document r, t)
  | .dump contents => (t.dump contents).map fun (r, t) => (.dump r, t)
  | .render model => (t.render model).map fun (r, t) => (.rendering r, t)
  | .renderTo model limit =>
    (t.renderTo model limit).map fun (r, taken, t) => (.delivery r taken, t)

/-- What is rendered of a document, if there is one. -/
def rendering (model : Model) : Except Error Document → Traced (Except Failure Unit)
  | .error e => pure (.error (.error e))
  | .ok d => (d.render model).map fun
    | .ok _ => .ok ()
    | .error fault => .error (.fault fault)

/-- What becomes of it when it goes into a sink with a limit, and the bytes that the sink has
taken. -/
def renderingTo (model : Model) (limit : Nat) (r : Except Error Document) :
    Traced (Except Failure Unit × List UInt8) :=
  let (seen, sink) := (Sink.ofLimit limit).follow (rendering model r).events
  let outcome :=
    if sink.failed then .error (.error { cause := .unwritten }) else (rendering model r).result
  ⟨(outcome.mapError (Failure.explainBy sink), sink.taken), seen⟩

/-- What is answered once the document is there, or is known not to be. -/
def Access.reply : Access → Except Error Document → Traced Answer
  | document, r => pure (.document r)
  | dump contents, r => pure (.dump (r.map (Document.dump contents)))
  | render model, r => (rendering model r).map .rendering
  | renderTo model limit, r => (renderingTo model limit r).map fun (r, taken) => .delivery r taken

theorem render_eq (t : Template) (model : Model) :
    t.render model = ⟨((rendering model t.document.result.1).result, t.document.result.2),
      t.document.events ++ (rendering model t.document.result.1).events⟩ := by
  rw [render]
  rcases hdocument : t.document.result with ⟨r, t'⟩
  rw [Traced.bind_of_result hdocument]
  cases r with
  | error e => rfl
  | ok d =>
    dsimp only [rendering, Traced.map]
    cases hrender : (d.render model).result with
    | ok s => simp [Traced.bind_of_result hrender]
    | error fault => simp [Traced.bind_of_result hrender]

theorem renderTo_eq (t : Template) (model : Model) (limit : Nat) :
    t.renderTo model limit =
      ⟨((renderingTo model limit t.document.result.1).result.1,
          (renderingTo model limit t.document.result.1).result.2, t.document.result.2),
        t.document.events ++ (renderingTo model limit t.document.result.1).events⟩ := by
  have hupkeep : (Sink.ofLimit limit).follow t.document.events =
      (t.document.events, Sink.ofLimit limit) :=
    Sink.follow_of_not_output (Event.isOutput_of_isUpkeep t.isUpkeep_document) _
  have hopen : ((Sink.ofLimit limit).follow t.document.events).2.failed = false := by
    rw [hupkeep]
    rfl
  rw [renderTo, render_eq, renderingTo]
  dsimp only
  rw [Sink.follow_append_of_open hopen, hupkeep]

/-- **An answer depends on the document alone**, and the upkeep that comes before it is all that the
document costs. -/
theorem access_eq (t : Template) (a : Access) :
    t.access a = ⟨((a.reply t.document.result.1).result, t.document.result.2),
      t.document.events ++ (a.reply t.document.result.1).events⟩ := by
  cases a with
  | document => simp [access, Access.reply, Traced.map]
  | dump contents => simp [access, Access.reply, Traced.map, dump]
  | render model =>
    rw [access, render_eq]
    rfl
  | renderTo model limit =>
    rw [access, renderTo_eq]
    rfl

/-- **A coherent template answers like a new one.** -/
theorem Coherent.access_eq_fresh {t : Template} (h : t.Coherent) (a : Access) :
    (t.access a).result.1 = (t.settings.fresh.access a).result.1 ∧
      Event.visible (t.access a).events = Event.visible (t.settings.fresh.access a).events := by
  -- One of the two may have kept its document and the other not, but both have the same one.
  have hfresh : t.settings.fresh.document.result.1 = t.document.result.1 := by
    rw [(coherent_fresh t.settings).result_document, build_fresh, h.result_document]
  rw [access_eq, access_eq, hfresh]
  refine ⟨rfl, ?_⟩
  rw [Event.visible_append, Event.visible_append, Event.visible_eq_nil t.isUpkeep_document,
    Event.visible_eq_nil t.settings.fresh.isUpkeep_document]

theorem Coherent.settings_access {t : Template} (h : t.Coherent) (a : Access) :
    (t.access a).result.2.settings = t.settings := by
  rw [access_eq]
  exact h.settings_document

theorem Coherent.access {t : Template} (h : t.Coherent) (a : Access) :
    (t.access a).result.2.Coherent := by
  rw [access_eq]
  exact h.document

/-- A template whose source has no document stays as it is, whatever it is asked. -/
theorem Coherent.access_of_build_error {t : Template} (h : t.Coherent) {e : Error}
    (hbuild : t.build.result = .error e) (a : Access) : (t.access a).result.2 = t := by
  rw [access_eq]
  obtain ⟨d, hok, -⟩ | ⟨e', -, -, hdocument⟩ := h.document_cases
  · rw [hbuild] at hok
    cases hok
  · exact congrArg Prod.snd hdocument

end Template

/-! ## Histories -/

/-- One thing that is done to the template with the given place among several ones: it is changed,
asked or copied.  Copies come behind all others. -/
inductive Step
  | change (i : Nat) (c : Template.Change)
  | access (i : Nat) (a : Template.Access)
  | clone (i : Nat)

section Modify

variable {α β : Type}

/-- What holds of all items, and of an item when it is changed, holds when one of them is. -/
theorem forall_mem_modify {P : α → Prop} {f : α → α} {xs : List α} (h : ∀ x ∈ xs, P x)
    (hf : ∀ x, P x → P (f x)) (i : Nat) : ∀ x ∈ xs.modify i f, P x := by
  induction xs generalizing i with
  | nil =>
    rw [List.modify_nil]
    exact h
  | cons y ys ih =>
    obtain ⟨hy, hys⟩ := List.forall_mem_cons.1 h
    cases i with
    | zero => exact List.forall_mem_cons.2 ⟨hf y hy, hys⟩
    | succ i => exact List.forall_mem_cons.2 ⟨hy, ih hys i⟩

/-- A change of an item is a change of what is looked at if it can be told there. -/
theorem map_modify {f : α → α} {g : β → β} {look : α → β} {xs : List α}
    (h : ∀ x ∈ xs, look (f x) = g (look x)) (i : Nat) :
    (xs.modify i f).map look = (xs.map look).modify i g := by
  induction xs generalizing i with
  | nil => rw [List.modify_nil, List.map_nil, List.modify_nil]
  | cons y ys ih =>
    obtain ⟨hy, hys⟩ := List.forall_mem_cons.1 h
    cases i with
    | zero => rw [List.modify_zero_cons, List.map_cons, List.map_cons, List.modify_zero_cons, hy]
    | succ i =>
      rw [List.modify_succ_cons, List.map_cons, List.map_cons, List.modify_succ_cons, ih hys]

end Modify

variable [Json.Library]

/-- Several templates after a step. -/
def stepTemplates (ts : List Template) : Step → List Template
  | .change i c => ts.modify i fun t => (t.change c).result.2
  | .access i a => ts.modify i fun t => (t.access a).result.2
  | .clone i => ts ++ ts[i]?.toList

/-- Several templates after a history. -/
def runTemplates (ts : List Template) (steps : List Step) : List Template :=
  steps.foldl stepTemplates ts

/-- What several templates have been told after a step. -/
def stepSettings (sts : List Settings) : Step → List Settings
  | .change i c => sts.modify i (·.change c)
  | .access _ _ => sts
  | .clone i => sts ++ sts[i]?.toList

/-- What several templates have been told after a history. -/
def runSettings (sts : List Settings) (steps : List Step) : List Settings :=
  steps.foldl stepSettings sts

/-- A step keeps all templates coherent. -/
theorem coherent_stepTemplates {ts : List Template} (h : ∀ t ∈ ts, t.Coherent) (step : Step) :
    ∀ t ∈ stepTemplates ts step, t.Coherent := by
  cases step with
  | change i c => exact forall_mem_modify h (fun t ht => ht.change c) i
  | access i a => exact forall_mem_modify h (fun t ht => ht.access a) i
  | clone i =>
    intro t ht
    rcases List.mem_append.1 ht with ht | ht
    · exact h t ht
    · exact h t (List.mem_of_getElem? (Option.mem_toList.1 ht))

/-- What coherent templates have been told after a step depends on what they had been told
before. -/
theorem settings_stepTemplates {ts : List Template} (h : ∀ t ∈ ts, t.Coherent) (step : Step) :
    (stepTemplates ts step).map Template.settings =
      stepSettings (ts.map Template.settings) step := by
  cases step with
  | change i c => exact map_modify (fun t _ => t.settings_change c) i
  | access i a =>
    have hself : ∀ t ∈ ts, (t.access a).result.2.settings = id t.settings := by
      intro t ht
      exact (h t ht).settings_access a
    rw [stepTemplates, map_modify hself, List.modify_id, stepSettings]
  | clone i =>
    rw [stepTemplates, stepSettings, List.map_append, List.getElem?_map]
    cases ts[i]? <;> rfl

/-- **A history keeps all templates coherent.** -/
theorem coherent_runTemplates {ts : List Template} (h : ∀ t ∈ ts, t.Coherent)
    (steps : List Step) : ∀ t ∈ runTemplates ts steps, t.Coherent := by
  induction steps generalizing ts with
  | nil => exact h
  | cons step steps ih => exact ih (coherent_stepTemplates h step)

/-- A template with a history of changes, questions and copies is coherent. -/
theorem Template.coherent_of_history {sts : List Settings} {steps : List Step} {t : Template}
    (h : t ∈ runTemplates (sts.map Settings.fresh) steps) : t.Coherent := by
  apply coherent_runTemplates ?_ steps t h
  intro t' ht'
  obtain ⟨st, -, rfl⟩ := List.mem_map.1 ht'
  exact coherent_fresh st

theorem settings_runTemplates {ts : List Template} (h : ∀ t ∈ ts, t.Coherent)
    (steps : List Step) :
    (runTemplates ts steps).map Template.settings =
      runSettings (ts.map Template.settings) steps := by
  induction steps generalizing ts with
  | nil => rfl
  | cons step steps ih =>
    rw [runTemplates, List.foldl_cons, runSettings, List.foldl_cons, ← settings_stepTemplates h]
    exact ih (coherent_stepTemplates h step)

/-- **Nobody can tell what a template keeps.**  Let new templates be changed, asked and copied in
any order.  Then what each of them has been told follows from the changes alone, and each answers
every question as a new template that has been told the same: with the same document, text or error,
the same output and debug values, the same questions to the model, and for the same receiver.  Only
the notes about the upkeep of documents differ.  A refused change leaves the template as it is, with
the document that it keeps, and a template whose source has no document keeps none. -/
theorem Template.access_of_history (sts : List Settings) (steps : List Step) :
    (runTemplates (sts.map Settings.fresh) steps).map Template.settings =
        runSettings sts steps ∧
      ∀ t ∈ runTemplates (sts.map Settings.fresh) steps,
        (∀ a, (t.access a).result.1 = (t.settings.fresh.access a).result.1 ∧
          Event.output (t.access a).events = Event.output (t.settings.fresh.access a).events ∧
          Event.shown (t.access a).events = Event.shown (t.settings.fresh.access a).events ∧
          Event.visible (t.access a).events = Event.visible (t.settings.fresh.access a).events ∧
          t.audience = t.settings.fresh.audience) ∧
        (∀ opening closing fault, Markers.ofTexts opening closing = .error fault →
          t.change (.markers opening closing) =
            pure (.error { cause := .badMarkers fault }, t)) ∧
        ∀ e, t.build.result = .error e → t.kept = none ∧ ∀ a, (t.access a).result.2 = t := by
  have hfresh : ∀ t ∈ sts.map Settings.fresh, t.Coherent := by
    intro t ht
    obtain ⟨st, -, rfl⟩ := List.mem_map.1 ht
    exact coherent_fresh st
  have hsettings := settings_runTemplates hfresh steps
  have hself : Template.settings ∘ Settings.fresh = id := rfl
  rw [List.map_map, hself, List.map_id] at hsettings
  refine ⟨hsettings, ?_⟩
  intro t ht
  have hcoherent : t.Coherent := coherent_runTemplates hfresh steps t ht
  refine ⟨?_, ?_, ?_⟩
  · intro a
    obtain ⟨hanswer, hvisible⟩ := hcoherent.access_eq_fresh a
    refine ⟨hanswer, ?_, ?_, hvisible, rfl⟩
    · rw [← Event.output_visible, hvisible, Event.output_visible]
    · rw [← Event.shown_visible, hvisible, Event.shown_visible]
  · intro opening closing fault hmarkers
    exact change_markers_of_error hmarkers t
  · intro e hbuild
    exact ⟨hcoherent.kept_eq_none hbuild, hcoherent.access_of_build_error hbuild⟩

end Stencil
