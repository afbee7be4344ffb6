import Mathlib
import Stencil.Json.Strict
import Stencil.Proofs.Rendering.Balance

/-!
# Chains of branches

An `if` and the `else if` and `else` tags behind it are siblings, and which of them is rendered is
decided on the way: a flag says whether one was taken, and every clause but the first closes the
frame of the one before it.  `renderChain` says what comes of it: the clauses are tested one after
another in the scope in front of the chain, and the first one whose test is true is rendered in a
frame of its own.

`renderSiblings_clauses` is the simulation between the two.  Its invariant is that closing the
innermost frame gives the scope that `renderChain` goes on from, and that a clause was taken exactly
if `renderChain` has come to its end.

## Main Definitions

* `NodeKind.continues`, `Forest.IsChain`, `Forest.EndsChain` — the clauses of a chain, and what may
  come after them
* `Node.test` — what decides whether a clause is taken
* `renderBranch`, `renderChain` — a clause that is taken, and the choice among clauses
-/

namespace Stencil

open Attempt (andThen_of_ok andThen_assoc andThen_congr done_andThen)

/-! ## The clauses of a chain -/

namespace NodeKind

/-- Whether nodes of a kind go on with the chain of the node in front of them. -/
def continues : NodeKind → Bool
  | elseIf | otherwise => true
  | _ => false

theorem opens_of_continues {k : NodeKind} (h : k.continues) : k.opens = true := by
  revert h
  cases k <;> decide

theorem eq_close_of_closes {k : NodeKind} (hcloses : k.closes = true)
    (hends : k.continues = false) : k = .close := by
  revert hcloses hends
  cases k <;> decide

end NodeKind

namespace Statement

theorem exists_of_kind_ifTrue {st : Statement} (h : st.kind = .ifTrue) :
    ∃ predicate, st = .ifTrue predicate := by
  cases st with
  | ifTrue predicate => exact ⟨predicate, rfl⟩
  | _ => cases h

theorem of_kind_continues {st : Statement} (h : st.kind.continues) :
    (∃ predicate, st = .elseIf predicate) ∨ st = .otherwise := by
  cases st with
  | elseIf predicate => exact .inl ⟨predicate, rfl⟩
  | otherwise => exact .inr rfl
  | _ => cases h

theorem of_kind_close {st : Statement} (h : st.kind = .close) : st = .close := by
  cases st with
  | close => rfl
  | _ => cases h

end Statement

namespace Forest

/-- Siblings that are an `if` and clauses that go on with its chain. -/
def IsChain : List (Node × Forest) → Prop
  | [] => False
  | first :: more => first.1.kind = .ifTrue ∧ ∀ clause ∈ more, clause.1.kind.continues

/-- Siblings that do not go on with the chain in front of them. -/
def EndsChain (after : List (Node × Forest)) : Prop :=
  ∀ next ∈ after.head?, next.1.kind.continues = false

instance (clauses : List (Node × Forest)) : Decidable (IsChain clauses) :=
  match clauses with
  | [] => inferInstanceAs (Decidable False)
  | first :: more =>
    inferInstanceAs (Decidable (first.1.kind = .ifTrue ∧ ∀ clause ∈ more, clause.1.kind.continues))

instance (after : List (Node × Forest)) : Decidable (EndsChain after) :=
  inferInstanceAs (Decidable (∀ next ∈ after.head?, next.1.kind.continues = false))

/-- All clauses of a chain open a branch. -/
theorem openBehind_of_isChain {clauses : List (Node × Forest)} (h : IsChain clauses)
    (opened : Bool) : openBehind opened clauses = true := by
  obtain _ | ⟨first, more⟩ := clauses
  · exact h.elim
  · obtain ⟨hfirst, hmore⟩ := h
    rw [openBehind_cons, hfirst]
    -- The first clause does not matter any more: each of the others leaves a branch open.
    clear hfirst
    induction more with
    | nil => rfl
    | cons clause more ih =>
      obtain ⟨hcontinues, hmore⟩ := List.forall_mem_cons.1 hmore
      have hopens : clause.1.kind.opens = true := NodeKind.opens_of_continues hcontinues
      rw [openBehind_cons, hopens]
      exact ih hmore

/-- No branch is open in front of a chain. -/
theorem not_open_of_isChain {clauses after : List (Node × Forest)} (h : IsChain clauses)
    {opened : Bool} (hfits : Fits opened (ofTrees (clauses ++ after))) : opened = false := by
  obtain _ | ⟨first, more⟩ := clauses
  · exact h.elim
  · have hcloses : first.1.kind.closes = opened := hfits.1
    rw [← hcloses, h.1]
    rfl

/-- What ends a chain where a branch is open is the end of that branch, or that of the siblings. -/
theorem eq_nil_or_close_of_endsChain {after : List (Node × Forest)} (h : EndsChain after)
    (hfits : Fits true (ofTrees after)) :
    after = [] ∨ ∃ n body rest, after = (n, body) :: rest ∧ n.kind = .close := by
  obtain _ | ⟨⟨n, body⟩, rest⟩ := after
  · exact .inl rfl
  · have hends : n.kind.continues = false := h (n, body) rfl
    have hcloses : n.kind.closes = true := hfits.1
    exact .inr ⟨n, body, rest, rfl, NodeKind.eq_close_of_closes hcloses hends⟩

end Forest

/-- What decides whether a clause is taken: its condition, if it has one. -/
def Node.test (n : Node) (s : Scope) : Traced Bool :=
  match n.statement with
  | .ifTrue predicate | .elseIf predicate => holds s predicate
  | _ => pure true

theorem silent_test (n : Node) (s : Scope) : (n.test s).Silent := by
  unfold Node.test
  split
  · exact silent_holds s _
  · exact silent_holds s _
  · exact Traced.Silent.pure true

/-- The events of all tests of some clauses, in order. -/
def testEvents (clauses : List (Node × Forest)) (s : Scope) : List Event :=
  clauses.flatMap fun clause => (clause.1.test s).events

theorem silent_testEvents (clauses : List (Node × Forest)) (s : Scope) :
    Traced.Silent ⟨(), testEvents clauses s⟩ := by
  intro event hevent
  obtain ⟨clause, -, hmem⟩ := List.mem_flatMap.1 hevent
  exact silent_test clause.1 s event hmem

/-- Closing the innermost frame is the same as closing what is above the others. -/
theorem truncate_of_closeFrame {s left : Scope} (h : closeFrame s = .ok left) :
    s.truncate left.depth = left := by
  rw [← Scope.below_of_closeFrame h, Scope.truncate_depth_below]

section Library

variable [Json.Library]

/-- Renders what a clause holds in a frame of its own. -/
def renderBranch (body : Forest) (s : Scope) : Rendering :=
  Attempt.andThen (renderBody body s.push) fun inner =>
    Rendering.ofScope (closeFrame inner)

/-- Renders the first clause whose test is true, or nothing if there is none. -/
def renderChain : List (Node × Forest) → Scope → Rendering
  | [], s => .done s
  | (n, body) :: rest, s =>
    Traced.bind (n.test s) fun truth => if truth then renderBranch body s else renderChain rest s

/-! ## What the choice comes to -/

/-- Clauses whose test is false are tested, and nothing else. -/
theorem renderChain_append {skipped : List (Node × Forest)} (later : List (Node × Forest))
    {s : Scope} (hskipped : ∀ clause ∈ skipped, (clause.1.test s).result = false) :
    renderChain (skipped ++ later) s =
      ⟨(renderChain later s).result, testEvents skipped s ++ (renderChain later s).events⟩ := by
  induction skipped with
  | nil => rfl
  | cons clause skipped ih =>
    obtain ⟨n, body⟩ := clause
    obtain ⟨hfalse, hskipped⟩ := List.forall_mem_cons.1 hskipped
    have hrest := ih hskipped
    rw [List.cons_append, renderChain, Traced.bind, hfalse, testEvents, List.flatMap_cons,
      List.append_assoc]
    simp only [Bool.false_eq_true, if_false]
    rw [hrest]
    rfl

/-- The clause that is taken is rendered once its test is true, and no clause behind it is looked
at. -/
theorem renderChain_cons_of_true {n : Node} {body : Forest} {later : List (Node × Forest)}
    {s : Scope} (htrue : (n.test s).result = true) :
    renderChain ((n, body) :: later) s =
      ⟨(renderBranch body s).result, (n.test s).events ++ (renderBranch body s).events⟩ := by
  rw [renderChain, Traced.bind, htrue]
  rfl

/-! ## Siblings make the same choice -/

/-- A clause that goes on with a chain puts its frame in the place of the one before, and is left
out if another clause was taken. -/
theorem renderNode_of_continues {n : Node} (hn : n.kind.continues) (body : Forest) (taken : Bool)
    {s left : Scope} (hleft : closeFrame s = .ok left) :
    renderNode n body taken s =
      if taken then .done (left.push, true) else renderIf (n.test left) body left.push := by
  rw [renderNode, Node.test]
  obtain ⟨predicate, hstatement⟩ | hstatement := Statement.of_kind_continues hn
  · rw [hstatement]
    dsimp only
    rw [replaceFrame_of_ok hleft, Rendering.ofScope_ok, done_andThen, holds_push]
  · rw [hstatement]
    dsimp only
    rw [replaceFrame_of_ok hleft, Rendering.ofScope_ok, done_andThen]

theorem renderNode_of_ifTrue {n : Node} (hn : n.kind = .ifTrue) (body : Forest) (taken : Bool)
    (s : Scope) : renderNode n body taken s = renderIf (n.test s) body s.push := by
  obtain ⟨predicate, hstatement⟩ := Statement.exists_of_kind_ifTrue hn
  rw [renderNode, Node.test, hstatement]

section Choice

variable {α : Type} {depth : Nat} {next next' : Scope → Attempt α}

/-- A clause is tested and taken as in a chain, if the clauses behind it go on as they should. -/
theorem renderIf_andThen_clauses {n : Node} {body : Forest} {rest : List (Node × Forest)}
    {left : Scope} (hbody : body.Fits false) (hdepth : left.depth = depth)
    (hrest : ∀ taken s left, closeFrame s = .ok left → left.depth = depth →
      (renderSiblings rest taken s).andThen (fun r => next r.1) =
        Attempt.andThen (if taken then .done left else renderChain rest left) next') :
    ((renderIf (n.test left) body left.push).andThen fun r => renderSiblings rest r.2 r.1).andThen
        (fun r => next r.1) =
      Attempt.andThen (renderChain ((n, body) :: rest) left) next' := by
  obtain ⟨inner, left', hinner, hlocal⟩ := exists_local_renderBody hbody left
  rw [renderIf_andThen, Attempt.bind_andThen, renderChain, Attempt.bind_andThen]
  congr 1
  funext truth
  cases truth with
  | false =>
    simp only [Bool.false_eq_true, if_false]
    rw [done_andThen]
    exact hrest false left.push left rfl hdepth
  | true =>
    -- What the clause holds may leave other values behind, so the others go on from `left'`.
    have hgo := hrest true inner left' hlocal.closed (hlocal.depth_eq.trans hdepth)
    rw [if_pos rfl, done_andThen] at hgo
    simp only [if_true]
    rw [andThen_assoc, renderBranch, andThen_assoc, andThen_of_ok hinner, andThen_of_ok hinner, hgo,
      hlocal.closed, Rendering.ofScope_ok, done_andThen]

/-- **Clauses behind the first** make the choice that is left to make, whatever comes after them. -/
theorem renderSiblings_clauses {rest : List (Node × Forest)}
    (hcontinues : ∀ clause ∈ rest, clause.1.kind.continues)
    (hbodies : ∀ clause ∈ rest, clause.2.Fits false)
    (hnext : ∀ s left, closeFrame s = .ok left → left.depth = depth → next s = next' left)
    (taken : Bool) (s left : Scope) (hleft : closeFrame s = .ok left)
    (hdepth : left.depth = depth) :
    (renderSiblings rest taken s).andThen (fun r => next r.1) =
      Attempt.andThen (if taken then .done left else renderChain rest left) next' := by
  induction rest generalizing taken s left with
  | nil =>
    rw [renderSiblings, done_andThen, hnext s left hleft hdepth]
    cases taken <;> exact (done_andThen left next').symm
  | cons clause rest ih =>
    obtain ⟨n, body⟩ := clause
    obtain ⟨hn, hcontinues⟩ := List.forall_mem_cons.1 hcontinues
    obtain ⟨hbody, hbodies⟩ := List.forall_mem_cons.1 hbodies
    have hrest := ih hcontinues hbodies
    rw [renderSiblings, renderNode_of_continues hn body taken hleft]
    cases taken with
    | true =>
      simp only [if_true]
      rw [done_andThen, hrest true left.push left rfl hdepth]
      rfl
    | false =>
      simp only [Bool.false_eq_true, if_false]
      exact renderIf_andThen_clauses hbody hdepth hrest

/-- **The siblings of a chain** render the clause that the chain chooses, and leave its scope once
their last frame is closed. -/
theorem renderSiblings_chain {clauses : List (Node × Forest)} (hchain : Forest.IsChain clauses)
    (hbodies : ∀ clause ∈ clauses, clause.2.Fits false)
    (hnext : ∀ s left, closeFrame s = .ok left → left.depth = depth → next s = next' left)
    (taken : Bool) (s : Scope) (hdepth : s.depth = depth) :
    (renderSiblings clauses taken s).andThen (fun r => next r.1) =
      Attempt.andThen (renderChain clauses s) next' := by
  obtain _ | ⟨⟨n, body⟩, rest⟩ := clauses
  · exact hchain.elim
  · obtain ⟨hif, hcontinues⟩ := hchain
    obtain ⟨hbody, hbodies⟩ := List.forall_mem_cons.1 hbodies
    rw [renderSiblings, renderNode_of_ifTrue hif]
    apply renderIf_andThen_clauses hbody hdepth
    exact renderSiblings_clauses hcontinues hbodies hnext

end Choice

/-! ## Chains of a document -/

theorem renderBody_nil (s : Scope) : renderBody .nil s = Attempt.done s := by
  have htruncate : s.truncate s.depth = s := s.truncate_depth
  rw [renderBody_eq]
  dsimp only
  rw [← Forest.ofTrees_nil, renderForest_ofTrees, renderSiblings, done_andThen, done_andThen,
    htruncate]

/-- Siblings behind which no branch is open leave as many frames as there were. -/
theorem depth_of_renderForest {ts : List (Node × Forest)}
    (hfits : Forest.Fits false (.ofTrees ts)) (hbehind : Forest.openBehind false ts = false)
    {s after : Scope} (hafter : (renderForest (.ofTrees ts) false s).result = .ok after) :
    after.depth = s.depth := by
  have hgrows := (yields_renderForest hfits false s).grows after hafter
  rw [Forest.trees_ofTrees, hbehind] at hgrows
  exact hgrows.depth_eq

/-- Siblings behind which no branch is open have nothing to close. -/
theorem renderBody_ofTrees {ts : List (Node × Forest)} (hfits : Forest.Fits false (.ofTrees ts))
    (hbehind : Forest.openBehind false ts = false) (s : Scope) :
    renderBody (.ofTrees ts) s = renderForest (.ofTrees ts) false s := by
  have hsame : ∀ after, (renderForest (.ofTrees ts) false s).result = .ok after →
      Attempt.done (after.truncate s.depth) = Attempt.done after := by
    intro after hafter
    rw [← depth_of_renderForest hfits hbehind hafter, Scope.truncate_depth]
  rw [renderBody_eq]
  dsimp only
  rw [andThen_congr hsame, Attempt.andThen_done]

/-- The tag that closes a branch ends its chain. -/
theorem renderNode_of_close {n : Node} (hn : n.kind = .close) (body : Forest) (taken : Bool)
    (s : Scope) :
    renderNode n body taken s =
      Attempt.andThen (Rendering.ofScope (closeFrame s)) fun s => .done (s, false) := by
  rw [renderNode, Statement.of_kind_close hn]

/-- Siblings with a chain among them are rendered as those before it, the clause that it chooses,
and those behind the tag that closes it, each for themselves. -/
theorem renderBody_chain {before clauses after : List (Node × Forest)}
    (hfits : Forest.Fits false (.ofTrees (before ++ (clauses ++ after))))
    (hchain : Forest.IsChain clauses) (hends : Forest.EndsChain after) (s : Scope) :
    renderBody (.ofTrees (before ++ (clauses ++ after))) s =
      Attempt.andThen (renderBody (.ofTrees before) s) fun s₁ =>
        Attempt.andThen (renderChain clauses s₁) fun s₂ => renderBody (.ofTrees after.tail) s₂ := by
  obtain ⟨hbefore, hrest⟩ := Forest.fits_ofTrees_append.1 hfits
  have hbehind : Forest.openBehind false before = false := Forest.not_open_of_isChain hchain hrest
  rw [hbehind] at hrest
  obtain ⟨hclauses, hafter⟩ := Forest.fits_ofTrees_append.1 hrest
  rw [Forest.openBehind_of_isChain hchain] at hafter
  have hbodies : ∀ clause ∈ clauses, clause.2.Fits false := by
    intro clause hclause
    exact hclauses.of_mem_ofTrees hclause
  rw [renderBody_ofTrees hbefore hbehind, renderBody_eq]
  dsimp only
  rw [renderForest_append hbefore hbehind, andThen_assoc]
  apply andThen_congr
  intro s₁ hs₁
  have hdepth : s₁.depth = s.depth := depth_of_renderForest hbefore hbehind hs₁
  rw [renderForest_ofTrees, renderSiblings_append, andThen_assoc, andThen_assoc]
  -- Either the siblings end with the chain, and its last frame is cut off with whatever they leave
  -- open, or the tag behind the chain closes it.  For the clauses both are the same.
  obtain rfl | ⟨n, body, rest, rfl, hclose⟩ := Forest.eq_nil_or_close_of_endsChain hends hafter
  · have hnext : ∀ s' left, closeFrame s' = .ok left → left.depth = s.depth →
        Attempt.done (s'.truncate s.depth) = renderBody (.ofTrees []) left := by
      intro s' left hleft hdepth'
      rw [← hdepth', truncate_of_closeFrame hleft, Forest.ofTrees_nil, renderBody_nil]
    have hchoice := renderSiblings_chain hchain hbodies hnext false s₁ hdepth
    simp only [renderSiblings, done_andThen]
    exact hchoice
  · have hnext : ∀ s' left, closeFrame s' = .ok left → left.depth = s.depth →
        (Attempt.andThen (Rendering.ofScope (closeFrame s')) fun s' =>
          (renderSiblings rest false s').andThen fun r => .done (r.1.truncate s.depth)) =
            renderBody (.ofTrees rest) left := by
      intro s' left hleft hdepth'
      rw [hleft, Rendering.ofScope_ok, done_andThen, ← hdepth', renderBody_eq]
      dsimp only
      rw [renderForest_ofTrees, andThen_assoc]
      simp only [done_andThen]
    have hchoice := renderSiblings_chain hchain hbodies hnext false s₁ hdepth
    simp only [renderSiblings, renderNode_of_close hclose, andThen_assoc, done_andThen]
    exact hchoice

/-- The clause that a chain chooses is all that is written and shown of it, once the conditions in
front of it and its own have been tested, and its frame is closed behind it. -/
theorem renderChain_of_first {skipped : List (Node × Forest)} (later : List (Node × Forest))
    {n : Node} {body : Forest} (hbody : body.Fits false) {s : Scope}
    (hskipped : ∀ clause ∈ skipped, (clause.1.test s).result = false)
    (htrue : (n.test s).result = true) :
    ∃ inner left, (renderBody body s.push).result = .ok inner ∧ s.Local inner left ∧
      renderChain (skipped ++ (n, body) :: later) s = ⟨.ok left,
        testEvents skipped s ++ (n.test s).events ++ (renderBody body s.push).events⟩ := by
  obtain ⟨inner, left, hinner, hlocal⟩ := exists_local_renderBody hbody s
  refine ⟨inner, left, hinner, hlocal, ?_⟩
  have hbranch : renderBranch body s = ⟨.ok left, (renderBody body s.push).events⟩ := by
    rw [renderBranch, andThen_of_ok hinner, hlocal.closed, Rendering.ofScope_ok]
    simp [Attempt.done, Traced.pure]
  rw [renderChain_append _ hskipped, renderChain_cons_of_true htrue, hbranch, List.append_assoc]

/-- A chain without a clause to choose tests all conditions and does nothing else. -/
theorem renderChain_of_none {clauses : List (Node × Forest)} {s : Scope}
    (hskipped : ∀ clause ∈ clauses, (clause.1.test s).result = false) :
    renderChain clauses s = ⟨.ok s, testEvents clauses s⟩ := by
  have happend := renderChain_append [] hskipped
  rw [List.append_nil] at happend
  rw [happend, renderChain]
  simp [Rendering.done, Pure.pure, Traced.pure]

/-- **Of a chain the first clause whose test is true is rendered, and no other.**  Among the
siblings of a document, on any level and in any scope, a chain ends at a closing tag or with the
siblings.  It is rendered by itself: those before it come first, then what the chain chooses in the
scope that they leave, then those behind it, without a trace of the choice.  What the chain chooses
is tested and rendered as `renderChain` says: the conditions up to the first true one are tested
once each and in order, in the scope in front of the chain, what this clause holds is rendered in a
frame of its own, and the clauses behind it are not even tested.  Tests write and show nothing. -/
theorem Document.chain_of_read {markers : Markers} {source : Text} {d : Document}
    (h : (Document.read markers source).result = .ok d) {siblings : Forest}
    (hmem : siblings ∈ d.levels) {before clauses after : List (Node × Forest)}
    (hsiblings : siblings.trees = before ++ (clauses ++ after)) (hchain : Forest.IsChain clauses)
    (hends : Forest.EndsChain after) :
    (after = [] ∨ ∃ n body rest, after = (n, body) :: rest ∧ n.kind = .close) ∧
    (∀ s, renderBody siblings s =
      Attempt.andThen (renderBody (.ofTrees before) s) fun s₁ =>
        Attempt.andThen (renderChain clauses s₁) fun s₂ =>
          renderBody (.ofTrees after.tail) s₂) ∧
    (∀ s skipped n body later, clauses = skipped ++ (n, body) :: later →
      (∀ clause ∈ skipped, (clause.1.test s).result = false) → (n.test s).result = true →
      (∃ inner left, (renderBody body s.push).result = .ok inner ∧ s.Local inner left ∧
        renderChain clauses s = ⟨.ok left,
          testEvents skipped s ++ (n.test s).events ++ (renderBody body s.push).events⟩) ∧
      Event.output (renderChain clauses s).events =
        Event.output (renderBody body s.push).events ∧
      Event.shown (renderChain clauses s).events = Event.shown (renderBody body s.push).events) ∧
    ∀ s, (∀ clause ∈ clauses, (clause.1.test s).result = false) →
      renderChain clauses s = ⟨.ok s, testEvents clauses s⟩ ∧
      Event.output (renderChain clauses s).events = [] ∧
      Event.shown (renderChain clauses s).events = [] := by
  have hfits : Forest.Fits false (.ofTrees (before ++ (clauses ++ after))) := by
    rw [← hsiblings, Forest.ofTrees_trees]
    exact Document.fits_of_read h hmem
  obtain ⟨-, hrest⟩ := Forest.fits_ofTrees_append.1 hfits
  obtain ⟨hclauses, hafter⟩ := Forest.fits_ofTrees_append.1 hrest
  rw [Forest.openBehind_of_isChain hchain] at hafter
  refine ⟨Forest.eq_nil_or_close_of_endsChain hends hafter, ?_, ?_, ?_⟩
  · intro s
    rw [← Forest.ofTrees_trees siblings, hsiblings]
    exact renderBody_chain hfits hchain hends s
  · rintro s skipped n body later rfl hskipped htrue
    have hbody : body.Fits false := hclauses.of_mem_ofTrees (List.mem_append_right _ (.head _))
    obtain ⟨inner, left, hinner, hlocal, hrender⟩ :=
      renderChain_of_first later hbody hskipped htrue
    have hskip := silent_testEvents skipped s
    have htest := silent_test n s
    refine ⟨⟨inner, left, hinner, hlocal, hrender⟩, ?_, ?_⟩
    · rw [hrender, Event.output_append, Event.output_append, hskip.output_eq_nil,
        htest.output_eq_nil]
      rfl
    · rw [hrender, Event.shown_append, Event.shown_append, hskip.shown_eq_nil,
        htest.shown_eq_nil]
      rfl
  · intro s hskipped
    have hrender := renderChain_of_none hskipped
    have hskip := silent_testEvents clauses s
    rw [hrender]
    exact ⟨rfl, hskip.output_eq_nil, hskip.shown_eq_nil⟩

end Library

open Json.Strict

/-- A chain with a condition that does not hold, and an `else`. -/
theorem Document.chain_of_read_else :
    ∃ d n body n' body' after,
      (Document.read .standard "{%if(0)%}x{%else%}y{%end%}".toList).result = .ok d ∧
      d.forest.trees = (n, body) :: (n', body') :: after ∧
      Event.output (renderChain [(n, body), (n', body')] (Scope.ofModel .empty)).events =
        Event.output (renderBody body' (Scope.ofModel .empty).push).events := by
  have hread := Document.exists_read .standard "{%if(0)%}x{%else%}y{%end%}".toList
    (P := fun d => d.forest.trees.map (fun t => t.1.statement) =
      [.ifTrue "0".toList, .otherwise, .close])
    (by decide +kernel)
  obtain ⟨d, hd, hstatements⟩ := hread
  simp only [List.map_eq_cons_iff, List.map_eq_nil_iff] at hstatements
  obtain ⟨⟨n, body⟩, _, htrees, hn, ⟨n', body'⟩, _, rfl, hn', ⟨n'', body''⟩, _, rfl, hn'', rfl⟩ :=
    hstatements
  dsimp only at hn hn' hn''
  have hchain : Forest.IsChain [(n, body), (n', body')] := by
    simp [Forest.IsChain, Node.kind, hn, hn', Statement.kind, NodeKind.continues]
  have hends : Forest.EndsChain [(n'', body'')] := by
    simp [Forest.EndsChain, Node.kind, hn'', Statement.kind, NodeKind.continues]
  have hfalse : (n.test (Scope.ofModel .empty)).result = false := by
    rw [Node.test, hn]
    cbv
  have htrue : (n'.test (Scope.ofModel .empty)).result = true := by
    rw [Node.test, hn']
    rfl
  have hsplit : d.forest.trees = [] ++ ([(n, body), (n', body')] ++ [(n'', body'')]) := htrees
  have hchosen := (Document.chain_of_read hd (.head _) hsplit hchain hends).2.2.1
    (Scope.ofModel .empty) [(n, body)] n' body' [] rfl (by simp [hfalse]) htrue
  exact ⟨d, n, body, n', body', _, hd, htrees, hchosen.2.1⟩

end Stencil
