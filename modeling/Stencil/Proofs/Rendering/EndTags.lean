import Mathlib.Tactic.Common
import Stencil.Json.Strict
import Stencil.Proofs.Document.Brackets
import Stencil.Proofs.Rendering.Chain
import Stencil.Proofs.Segment.Append
import Stencil.Proofs.Template.Cache

/-!
# Branches that a source leaves open

A branch that is open at the end of a source ends there.  Writing the tags that end such branches
behind the source makes another document, in which the tags are siblings of the openers and close
their frames; without them the frames are cut off where the list of siblings ends.  It comes to the
same: `Template.render_endTags`.

The two documents differ on every level that is open at the end of the source, and the innermost of
these levels stands in the last node of the next one, which may be a loop.  So what is compared is
whatever such a node may hold, in every scope that it may be rendered in (`Forest.RendersAs`): what
holds of one level then holds of all levels around it (`Builder.rendersAs_closeAll`), and each tag
that is added ends one branch more (`Builder.exists_step_end`).

## Main Definitions

* `Forest.RendersAs` — siblings that are rendered alike by whatever holds them
-/

namespace Stencil

open Attempt (andThen_of_ok andThen_assoc andThen_congr done_andThen)

theorem frames_ne_nil_of_replaceFrame {s s' : Scope} (h : replaceFrame s = .ok s') :
    s'.frames ≠ [] := by
  cases hclose : closeFrame s with
  | error fault =>
    rw [replaceFrame_of_error hclose] at h
    cases h
  | ok left =>
    rw [replaceFrame_of_ok hclose] at h
    obtain rfl := Except.ok.inj h
    exact List.cons_ne_nil _ _

section Library

variable [Json.Library]

/-- What a node holds is always rendered where there is a frame; in all these scopes one list of
siblings does there what the other does. -/
def Forest.RendersAs (f g : Forest) : Prop :=
  ∀ s : Scope, s.frames ≠ [] → renderBody f s = renderBody g s

/-! ## What is held by one node -/

section Node

variable {f g : Forest}

theorem renderIf_eq_of_rendersAs (h : f.RendersAs g) (test : Traced Bool) {s : Scope}
    (hs : s.frames ≠ []) : renderIf test f s = renderIf test g s := by
  rw [renderIf, renderIf, h s hs]

theorem renderItems_eq_of_rendersAs (h : f.RendersAs g) (item : Text) (index : Nat)
    (items : List Value) (s : Scope) :
    renderItems item (renderBody f) index items s =
      renderItems item (renderBody g) index items s := by
  induction items generalizing index s with
  | nil => rfl
  | cons v rest ih =>
    obtain ⟨start, hstart, hgrows⟩ := exists_bindItem s item index v
    have hframes : start.frames ≠ [] := mt hgrows.frames_eq_nil_iff.1 (List.cons_ne_nil _ _)
    simp only [renderItems, Rendering.andThen_eq, hstart, Rendering.ofScope_ok, done_andThen,
      h start hframes, ih]

/-- **A node does the same with whatever is rendered alike.** -/
theorem renderNode_eq_of_rendersAs (h : f.RendersAs g) (n : Node) (taken : Bool) (s : Scope) :
    renderNode n f taken s = renderNode n g taken s := by
  unfold renderNode
  cases n.statement with
  | text | value | debug | assign | close => rfl
  | ifTrue predicate => exact renderIf_eq_of_rendersAs h _ (List.cons_ne_nil _ _)
  | elseIf predicate =>
    refine andThen_congr fun s' hs' => ?_
    rw [renderIf_eq_of_rendersAs h _ (frames_ne_nil_of_replaceFrame hs')]
  | otherwise =>
    refine andThen_congr fun s' hs' => ?_
    rw [renderIf_eq_of_rendersAs h _ (frames_ne_nil_of_replaceFrame hs')]
  | forEach item source => simp only [renderItems_eq_of_rendersAs h]

end Node

namespace Forest.RendersAs

theorem refl (f : Forest) : RendersAs f f := fun _ _ => rfl

theorem trans {f g h : Forest} (hfg : RendersAs f g) (hgh : RendersAs g h) : RendersAs f h :=
  fun s hs => (hfg s hs).trans (hgh s hs)

/-- What the last of some siblings holds. -/
theorem concat {f g : Forest} (h : RendersAs f g) (ts : List (Node × Forest)) (n : Node) :
    RendersAs (ofTrees (ts ++ [(n, f)])) (ofTrees (ts ++ [(n, g)])) := by
  intro s _
  simp only [renderBody_eq, renderForest_ofTrees, renderSiblings_append, renderSiblings,
    renderNode_eq_of_rendersAs h]

end Forest.RendersAs

/-! ## Closing the last branch of a level -/

/-- A tag that ends a branch closes the innermost frame. -/
theorem renderForest_concat_close (ts : List (Node × Forest)) {n : Node}
    (hclose : n.statement = .close) (s : Scope) :
    renderForest (.ofTrees (ts ++ [(n, .nil)])) false s =
      Attempt.andThen (renderForest (.ofTrees ts) false s) fun after =>
        Rendering.ofScope (closeFrame after) := by
  rw [renderForest_ofTrees, renderForest_ofTrees, renderSiblings_append, andThen_assoc,
    andThen_assoc]
  refine andThen_congr fun r _ => ?_
  rw [renderSiblings, renderNode_of_close (congrArg Statement.kind hclose)]
  simp only [andThen_assoc, renderSiblings, done_andThen]
  exact Attempt.andThen_done _

/-- **A branch that is open behind the last sibling may just as well be closed**: its frame is the
only one that is still open there. -/
theorem Forest.rendersAs_concat_close {ts : List (Node × Forest)} (hfits : Fits false (ofTrees ts))
    (hbehind : openBehind false ts = true) {n : Node} (hclose : n.statement = .close) :
    RendersAs (ofTrees (ts ++ [(n, nil)])) (ofTrees ts) := by
  intro s hs
  have hyields := yields_renderForest hfits false s
  rw [trees_ofTrees, hbehind] at hyields
  obtain ⟨after, hafter, hgrows⟩ := hyields.exists_ok hs
  have hdepth : (after.below true).depth = s.depth := hgrows.depth_eq
  have hframe : closeFrame after = .ok (after.below true) := by
    cases hleft : closeFrame after with
    | ok left => rw [Scope.below_of_closeFrame hleft]
    | error fault =>
      have hnone : (after.below true).frames = [] := Scope.frames_eq_nil_of_closeFrame hleft
      exact absurd (hgrows.frames_eq_nil_iff.1 hnone) hs
  rw [renderBody_eq, renderBody_eq]
  dsimp only
  rw [renderForest_concat_close ts hclose, andThen_assoc, andThen_of_ok hafter,
    andThen_of_ok hafter, hframe, Rendering.ofScope_ok, done_andThen, ← hdepth,
    Scope.truncate_depth, Scope.truncate_depth_below]

/-! ## Closing all branches of a builder -/

namespace Builder

open Forest (RendersAs)

/-- What is rendered alike on the level at hand is rendered alike in the whole document. -/
theorem rendersAs_closeAll {before before' : List (Node × Forest)}
    (h : (toForest before).RendersAs (toForest before'))
    (opened : List (Node × List (Node × Forest))) :
    (closeAll before opened).RendersAs (closeAll before' opened) := by
  induction opened generalizing before before' with
  | nil => exact h
  | cons o opened ih =>
    obtain ⟨n, outer⟩ := o
    have hlevel : (toForest ((n, toForest before) :: outer)).RendersAs
        (toForest ((n, toForest before') :: outer)) := by
      rw [toForest_cons, toForest_cons]
      exact h.concat outer.reverse n
    exact ih hlevel

/-- **A tag that ends a branch is one branch less**, and for the rest it changes nothing. -/
theorem exists_step_end {b : Builder} (hb : b.Fitting false) (hopened : b.opened ≠ [])
    (span : Span) :
    ∃ b', b.step (.tag " end ".toList) span = .ok b' ∧ b'.Fitting false ∧
      b.opened.length = b'.opened.length + 1 ∧ b'.finish.RendersAs b.finish := by
  obtain ⟨count, before, _ | ⟨⟨n, outer⟩, opened⟩⟩ := b
  · exact absurd rfl hopened
  · have hleave : leave? ⟨count, before, (n, outer) :: opened⟩ =
        some ⟨count, (n, toForest before) :: outer, opened⟩ := rfl
    obtain ⟨hlevel, hbehind, -⟩ := hb.leave hleave
    have hstep : step ⟨count, before, (n, outer) :: opened⟩ (.tag " end ".toList) span =
        .ok (leaf ⟨count, (n, toForest before) :: outer, opened⟩
          ⟨count, .close, "end".toList, span⟩) := rfl
    refine ⟨_, hstep, hb.step hstep, rfl, ?_⟩
    have hend : (toForest ((⟨count, .close, "end".toList, span⟩, .nil) ::
        (n, toForest before) :: outer)).RendersAs (toForest ((n, toForest before) :: outer)) := by
      rw [toForest_cons]
      exact Forest.rendersAs_concat_close hlevel hbehind rfl
    exact rendersAs_closeAll hend opened

/-- As many tags that end a branch as there are open ones end all of them. -/
theorem exists_run_ends {b : Builder} (hb : b.Fitting false) {ends : List (Segment × Span)}
    (hends : ends.map Prod.fst = List.replicate b.opened.length (.tag " end ".toList)) :
    ∃ b', (b.run ends).result = .ok b' ∧ b'.finish.RendersAs b.finish := by
  induction ends generalizing b with
  | nil => exact ⟨b, rfl, .refl _⟩
  | cons head rest ih =>
    obtain ⟨segment, span⟩ := head
    have hopened : b.opened ≠ [] := by
      intro hnone
      rw [hnone] at hends
      cases hends
    obtain ⟨b', hstep, hb', hone, hfinish⟩ := exists_step_end hb hopened span
    rw [hone, List.replicate_succ, List.map_cons] at hends
    obtain ⟨rfl, hrest⟩ := List.cons.inj hends
    obtain ⟨b'', hrun, hfinish'⟩ := ih hb' hrest
    refine ⟨b'', ?_, hfinish'.trans hfinish⟩
    rw [run, hstep]
    exact hrun

end Builder

/-! ## Documents and templates -/

/-- A document that its tags end is rendered like one that the end of its source ends. -/
theorem Document.exists_read_endTags {source : Text} {d : Document}
    (hread : (Document.read .standard source).result = .ok d)
    (hclosed : Segment.Closed .standard source) {k : Nat}
    (hopen : Segment.branches? (Segment.scan .standard source) = some k) :
    ∃ d', (Document.read .standard (source ++ Segment.endTags k)).result = .ok d' ∧
      ∀ model, d'.render model = d.render model := by
  obtain ⟨b, hrun, rfl⟩ := Document.exists_builder_of_read hread
  have hb : b.Fitting false :=
    Builder.run_induction Builder.Fitting.step hrun Builder.fitting_start
  obtain ⟨ends, hends, hscan⟩ := Segment.exists_scan_endTags hclosed k
  have hk : k = b.opened.length :=
    Option.some.inj (hopen.symm.trans (Builder.follows_of_run hrun).branches)
  rw [hk] at hends
  obtain ⟨b', hrun', hfinish⟩ := Builder.exists_run_ends hb hends
  refine ⟨⟨b'.finish, false⟩, ?_, ?_⟩
  · rw [Document.read, hscan, Traced.map, Builder.result_run_append hrun, hrun']
    rfl
  · intro model
    rw [render, render, hfinish _ (List.cons_ne_nil _ _)]

namespace Template

omit [Json.Library] in
/-- Without trimming, a new template renders the document that is read. -/
theorem result_document_fresh {st : Settings} (htrimming : st.trimming = false) {d : Document}
    (hread : (Document.read st.markers st.source).result = .ok d) :
    st.fresh.document.result.1 = .ok d := by
  rw [(coherent_fresh st).result_document, result_build_eq_ok]
  exact ⟨d, hread, if_neg (Bool.eq_false_iff.1 htrimming)⟩

/-- But for the upkeep of its document, all that is seen of a template that is rendered is the
rendering of the document. -/
theorem render_of_document {t : Template} {d : Document} (h : t.document.result.1 = .ok d)
    (model : Model) :
    (t.render model).result.1 = (rendering model (.ok d)).result ∧
      Event.visible (t.render model).events = Event.visible (rendering model (.ok d)).events := by
  rw [render_eq, h]
  refine ⟨rfl, ?_⟩
  rw [Event.visible_append, Event.visible_eq_nil t.isUpkeep_document, List.nil_append]

/-- **The end of a source ends the branches that it leaves open**, just as if the tags that end them
stood there.  Let a source have a document and the usual markers, let every begin marker be closed,
and let as many branches be open at its end as there are tags written behind it.  Then, without
trimming, it is rendered with them as without: over every model, both renderings come to their end,
with the same output, the same debug values and the same questions to the model. -/
theorem render_endTags {st : Settings} (htrimming : st.trimming = false)
    (hmarkers : st.markers = .standard) {d : Document}
    (hread : (Document.read .standard st.source).result = .ok d)
    (hclosed : Segment.Closed .standard st.source) {k : Nat}
    (hopen : Segment.branches? (Segment.scan .standard st.source) = some k) (model : Model) :
    let ended : Settings := { st with source := st.source ++ Segment.endTags k }
    (st.fresh.render model).result.1 = .ok () ∧ (ended.fresh.render model).result.1 = .ok () ∧
      Event.output (ended.fresh.render model).events =
        Event.output (st.fresh.render model).events ∧
      Event.shown (ended.fresh.render model).events =
        Event.shown (st.fresh.render model).events ∧
      Event.queries (ended.fresh.render model).events =
        Event.queries (st.fresh.render model).events := by
  intro ended
  obtain ⟨d', hread', hrender⟩ := Document.exists_read_endTags hread hclosed hopen
  have hsame : rendering model (.ok d') = rendering model (.ok d) := by
    rw [rendering, rendering, hrender]
  have hcomes : (rendering model (.ok d)).result = .ok () := by
    obtain ⟨s, hs⟩ := Document.exists_render (Document.fits_of_read hread (.head _)) model
    rw [rendering, Traced.map, hs]
  rw [← hmarkers] at hread hread'
  obtain ⟨hresult, hseen⟩ := render_of_document (result_document_fresh htrimming hread) model
  obtain ⟨hresult', hseen'⟩ :=
    render_of_document (@result_document_fresh ended htrimming d' hread') model
  rw [hsame] at hresult' hseen'
  have hvisible := hseen'.trans hseen.symm
  refine ⟨hresult.trans hcomes, hresult'.trans hcomes, ?_, ?_, ?_⟩
  · rw [← Event.output_visible, hvisible, Event.output_visible]
  · rw [← Event.shown_visible, hvisible, Event.shown_visible]
  · rw [← Event.queries_visible, hvisible, Event.queries_visible]

end Template

end Library

open Json.Strict

/-- A loop over two items, and a branch in it, that the source leaves open. -/
theorem Template.render_endTags_loop :
    let source := "{% foreach(x in xs) %}{% if(x) %}{% x %}".toList
    let ended := "{% foreach(x in xs) %}{% if(x) %}{% x %}{% end %}{% end %}".toList
    let m := Model.ofBindings [("xs".toList, .sequence [.bool true, .null])]
    Segment.Closed .standard source ∧
      Segment.branches? (Segment.scan .standard source) = some 2 ∧
      Event.output (({ ofSource ended with trimming := false }).render m).events =
        Event.output (({ ofSource source with trimming := false }).render m).events := by
  intro source ended m
  obtain ⟨d, hread, -⟩ := Document.exists_read .standard source (P := fun _ => True)
    (by decide +kernel)
  have hclosed : Segment.Closed .standard source := by decide +kernel
  have hopen : Segment.branches? (Segment.scan .standard source) = some 2 := by decide +kernel
  obtain ⟨-, -, houtput, -, -⟩ := @render_endTags _ ⟨none, source, .standard, false, false, 0⟩ rfl
    rfl d hread hclosed 2 hopen m
  exact ⟨hclosed, hopen, houtput⟩

end Stencil
