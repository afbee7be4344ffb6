import Mathlib.Data.List.Forall2
import Stencil.Document.Outline
import Stencil.Proofs.Document.Nesting

/-!
# Documents as bracket structures

The tags of a source are brackets: `if` and `foreach` open a branch, `end` closes one, and `else if`
and `else` do both at once.  A builder never counts them; it only goes down into the node of an
opening tag and up again before a closing one.  `Document.brackets_of_read` says that this comes to
the same thing as counting: a source has no document exactly if a closing tag is reached while the
count is zero, and otherwise every node stands as deep as the count says.

The invariant is `Builder.Follows`: the openers that a builder keeps are as many as the count of
open branches, and every node so far stands where the count put it.

## Main Definitions

* `NodeKind.branchesBehind?`, `Segment.branches?` — the count of open branches
* `NodeKind.branchesAround` — the branches around a node, a closing tag having closed its own
* `Segment.Unmatched` — the first closing tag that is reached with no branch open
-/

namespace Stencil

/-! ## Counting open branches -/

namespace NodeKind

/-- The number of branches that are open behind a node of a kind, given the number in front of it.
A tag that closes a branch needs one that is open. -/
def branchesBehind? (opened : Nat) : NodeKind → Option Nat
  | ifTrue | forEach => some (opened + 1)
  | elseIf | otherwise => if opened = 0 then none else some opened
  | close => if opened = 0 then none else some (opened - 1)
  | root | text | value | assignment | debug => some opened

/-- The number of branches around a node of a kind, given the number of those that are open in front
of it: a closing tag has closed its own. -/
def branchesAround (opened : Nat) : NodeKind → Nat
  | elseIf | otherwise | close => opened - 1
  | root | text | value | assignment | debug | ifTrue | forEach => opened

theorem branchesBehind?_of_closes {k : NodeKind} (h : k.closes = true) (opened : Nat) :
    k.branchesBehind? opened =
      if opened = 0 then none else some (opened - 1 + if k.opens then 1 else 0) := by
  cases k with
  | elseIf | otherwise | close => cases opened <;> rfl
  | _ => cases h

theorem branchesBehind?_of_not_closes {k : NodeKind} (h : k.closes = false) (opened : Nat) :
    k.branchesBehind? opened = some (opened + if k.opens then 1 else 0) := by
  cases k with
  | elseIf | otherwise | close => cases h
  | _ => rfl

theorem branchesAround_of_closes {k : NodeKind} (h : k.closes = true) (opened : Nat) :
    k.branchesAround opened = opened - 1 := by
  cases k with
  | elseIf | otherwise | close => rfl
  | _ => cases h

theorem branchesAround_of_not_closes {k : NodeKind} (h : k.closes = false) (opened : Nat) :
    k.branchesAround opened = opened := by
  cases k with
  | elseIf | otherwise | close => cases h
  | _ => rfl

end NodeKind

namespace Segment

/-- The kind of the node that a segment becomes. -/
def kind (segment : Segment) : NodeKind := segment.statement.kind

/-- The number of branches that are open behind segments, the first of which has none open in front
of it.  There is none if a closing tag is reached with no branch open. -/
def branches? (segments : List (Segment × Span)) : Option Nat :=
  segments.foldlM (fun opened s => s.1.kind.branchesBehind? opened) 0

theorem branches?_append (segments more : List (Segment × Span)) :
    branches? (segments ++ more) =
      (branches? segments).bind fun opened =>
        more.foldlM (fun opened s => s.1.kind.branchesBehind? opened) opened :=
  List.foldlM_append

theorem branches?_concat (segments : List (Segment × Span)) (s : Segment × Span) :
    branches? (segments ++ [s]) =
      (branches? segments).bind fun opened => s.1.kind.branchesBehind? opened := by
  rw [branches?_append]
  simp

/-- Among segments, a tag with the given body closes a branch where none is open, and every closing
tag before it has one to close. -/
def Unmatched (segments : List (Segment × Span)) (body : Text) (span : Span) : Prop :=
  ∃ before after, segments = before ++ (tag body, span) :: after ∧ branches? before = some 0 ∧
    (tag body).kind.closes = true

/-- Behind a closing tag that no branch is open for the count has ended. -/
theorem branches?_of_unmatched {before after : List (Segment × Span)} {s : Segment × Span}
    (hbefore : branches? before = some 0) (hcloses : s.1.kind.closes = true) :
    branches? (before ++ s :: after) = none := by
  rw [branches?_append, hbefore, Option.bind_some, List.foldlM_cons,
    NodeKind.branchesBehind?_of_closes hcloses, if_pos rfl]
  rfl

end Segment

/-! ## The entries of an outline -/

/-- An entry of an outline shows a node at a depth. -/
structure Outline.Entry.Shows (e : Outline.Entry) (n : Node) (depth : Nat) : Prop where
  id : e.id = n.id
  statement : e.statement = some n.statement
  content : e.content = n.content
  span : e.span = n.span
  depth : e.depth = depth

/-- The entries of a forest show its nodes in their order. -/
theorem Forest.forall₂_entries (parent depth : Nat) (f : Forest) :
    List.Forall₂ (fun e place => Outline.Entry.Shows e place.1 place.2)
      (f.entries parent depth) (f.placed depth) := by
  induction f generalizing parent depth with
  | nil => exact .nil
  | node n body rest ihb ihr =>
    exact .cons ⟨rfl, rfl, rfl, rfl, rfl⟩
      (List.rel_append (ihb n.id (depth + 1)) (ihr parent depth))

theorem Forest.exists_entry (parent : Nat) {depth i : Nat} {f : Forest} {place : Node × Nat}
    (h : (f.placed depth)[i]? = some place) :
    ∃ e, (f.entries parent depth)[i]? = some e ∧ e.Shows place.1 place.2 := by
  have hshows := f.forall₂_entries parent depth
  obtain ⟨hi, hplace⟩ := List.getElem?_eq_some_iff.1 h
  have hi' : i < (f.entries parent depth).length := by rwa [hshows.length_eq]
  refine ⟨_, List.getElem?_eq_getElem hi', ?_⟩
  have hget := hshows.get hi' hi
  rwa [List.get_eq_getElem, List.get_eq_getElem, hplace] at hget

/-! ## A builder counts -/

namespace Builder

/-- A step counts the branches that are open, and puts the node of its segment as deep as the count
says. -/
theorem placed_step {b b' : Builder} {segment : Segment} {span : Span}
    (h : b.step segment span = .ok b') :
    segment.kind.branchesBehind? b.opened.length = some b'.opened.length ∧
      b'.count = b.count + 1 ∧
      b'.placed = b.placed ++ [(⟨b.count, segment.statement, segment.content, span⟩,
        segment.kind.branchesAround b.opened.length + 1)] := by
  obtain ⟨start, rfl, ⟨hcloses, rfl⟩ | ⟨hcloses, hleave⟩⟩ := step_cases h
  · obtain ⟨hplaced, hcount, hopened⟩ :=
      placed_add start segment.statement segment.content span
    rw [Segment.kind, NodeKind.branchesBehind?_of_not_closes hcloses,
      NodeKind.branchesAround_of_not_closes hcloses]
    exact ⟨congrArg some hopened.symm, hcount, hplaced⟩
  · obtain ⟨hplaced, hcount, hopened⟩ :=
      placed_add start segment.statement segment.content span
    obtain ⟨hsame, hcount', hone⟩ := placed_leave hleave
    rw [Segment.kind, NodeKind.branchesBehind?_of_closes hcloses,
      NodeKind.branchesAround_of_closes hcloses, hone, if_neg (Nat.succ_ne_zero _),
      Nat.add_sub_cancel, ← hsame, ← hcount']
    exact ⟨congrArg some hopened.symm, hcount, hplaced⟩

/-- The error about a closing tag where no branch is open. -/
def unmatched (body : Text) (span : Span) : Error :=
  { cause := .unmatchedClose (Text.trim body), lineNumber := span.start.line.toNat }

/-- A step fails exactly at a closing tag where no branch is open. -/
theorem step_eq_error_iff {b : Builder} {segment : Segment} {span : Span} {e : Error} :
    b.step segment span = .error e ↔ ∃ body, segment = .tag body ∧
      segment.kind.closes = true ∧ b.opened = [] ∧ e = unmatched body span := by
  cases segment with
  | text content => simp [step]
  | tag body =>
    simp only [step, Segment.kind, Segment.statement, leave?, Segment.tag.injEq, exists_eq_left',
      unmatched]
    cases hcloses : (Statement.ofBody (Text.trim body)).kind.closes <;>
      cases hopened : b.opened <;> simp [eq_comm]

/-! ## Runs -/

/-- A run over some segments and more goes on where it has come to. -/
theorem result_run_append {b b' : Builder} {segments : List (Segment × Span)}
    (h : (b.run segments).result = .ok b') (more : List (Segment × Span)) :
    (b.run (segments ++ more)).result = (b'.run more).result := by
  induction segments generalizing b with
  | nil =>
    obtain rfl := Except.ok.inj h
    rfl
  | cons head rest ih =>
    obtain ⟨segment, span⟩ := head
    rw [run] at h
    rw [List.cons_append, run]
    split at h
    · cases h
    · exact ih h

/-- A run that fails has come to a segment where a step fails. -/
theorem exists_of_run_error {b : Builder} {segments : List (Segment × Span)} {e : Error}
    (h : (b.run segments).result = .error e) :
    ∃ before segment span after b', segments = before ++ (segment, span) :: after ∧
      (b.run before).result = .ok b' ∧ b'.step segment span = .error e := by
  induction segments generalizing b with
  | nil => cases h
  | cons head rest ih =>
    obtain ⟨segment, span⟩ := head
    cases hstep : b.step segment span with
    | error e' =>
      rw [run, hstep] at h
      obtain rfl := Except.error.inj h
      exact ⟨[], segment, span, rest, b, rfl, rfl, hstep⟩
    | ok b₁ =>
      rw [run, hstep] at h
      obtain ⟨before, segment', span', after, b', rfl, hrun, herror⟩ := ih h
      refine ⟨(segment, span) :: before, segment', span', after, b', rfl, ?_, herror⟩
      rw [run, hstep]
      exact hrun

/-- A builder has followed segments: the branches that are open are counted, and every segment has
become a node that stands in as many branches as the count says. -/
structure Follows (b : Builder) (segments : List (Segment × Span)) : Prop where
  branches : Segment.branches? segments = some b.opened.length
  count : b.count = segments.length + 1
  length : b.placed.length = segments.length
  placed : ∀ before segment span after, segments = before ++ (segment, span) :: after →
    ∃ opened, Segment.branches? before = some opened ∧ b.placed[before.length]? =
      some (⟨before.length + 1, segment.statement, segment.content, span⟩,
        segment.kind.branchesAround opened + 1)

theorem follows_start : start.Follows [] where
  branches := rfl
  count := rfl
  length := rfl
  placed := by
    intro before segment span after h
    simp at h

theorem Follows.step {b b' : Builder} {segments : List (Segment × Span)} {segment : Segment}
    {span : Span} (h : b.Follows segments) (hstep : b.step segment span = .ok b') :
    b'.Follows (segments ++ [(segment, span)]) := by
  obtain ⟨hopened, hcount, hplaced⟩ := placed_step hstep
  refine ⟨?_, ?_, ?_, ?_⟩
  · rw [Segment.branches?_concat, h.branches]
    exact hopened
  · rw [hcount, h.count, List.length_append, List.length_singleton]
  · rw [hplaced, List.length_append, List.length_append, h.length, List.length_singleton,
      List.length_singleton]
  · intro before segment' span' after hsplit
    rw [hplaced]
    -- The segment in question is the new one or one of those before it.
    rcases List.eq_nil_or_concat' after with rfl | ⟨init, last, rfl⟩
    · obtain ⟨rfl, hlast⟩ := List.append_inj' hsplit rfl
      obtain ⟨rfl, rfl⟩ := Prod.mk.inj (List.cons.inj hlast).1
      refine ⟨b.opened.length, h.branches, ?_⟩
      rw [List.getElem?_append_right (Nat.le_of_eq h.length), h.length, Nat.sub_self, h.count]
      rfl
    · rw [← List.cons_append, ← List.append_assoc] at hsplit
      obtain ⟨hinit, -⟩ := List.append_inj' hsplit rfl
      obtain ⟨opened, hbefore, hget⟩ := h.placed before segment' span' init hinit
      refine ⟨opened, hbefore, ?_⟩
      rw [List.getElem?_append_left, hget]
      rw [h.length, hinit, List.length_append, List.length_cons]
      omega

theorem Follows.run {b b' : Builder} {past segments : List (Segment × Span)}
    (h : b.Follows past) (hrun : (b.run segments).result = .ok b') :
    b'.Follows (past ++ segments) := by
  induction segments generalizing b past with
  | nil =>
    obtain rfl := Except.ok.inj hrun
    rwa [List.append_nil]
  | cons head rest ih =>
    obtain ⟨segment, span⟩ := head
    rw [Builder.run] at hrun
    split at hrun
    · cases hrun
    · next b₁ hstep =>
      have hrest := ih (h.step hstep) hrun
      rwa [List.append_assoc] at hrest

theorem follows_of_run {b : Builder} {segments : List (Segment × Span)}
    (h : (start.run segments).result = .ok b) : b.Follows segments := by
  simpa using follows_start.run h

/-- A run from the start fails exactly at the first closing tag that no branch is open for. -/
theorem run_start_eq_error_iff {segments : List (Segment × Span)} {e : Error} :
    (start.run segments).result = .error e ↔
      ∃ body span, Segment.Unmatched segments body span ∧ e = unmatched body span := by
  constructor
  · intro h
    obtain ⟨before, segment, span, after, b, rfl, hrun, herror⟩ := exists_of_run_error h
    obtain ⟨body, rfl, hcloses, hopened, rfl⟩ := step_eq_error_iff.1 herror
    have hbranches := (follows_of_run hrun).branches
    rw [hopened] at hbranches
    exact ⟨body, span, ⟨before, after, rfl, hbranches, hcloses⟩, rfl⟩
  · rintro ⟨body, span, ⟨before, after, rfl, hbefore, hcloses⟩, rfl⟩
    cases hrun : (start.run before).result with
    | error e' =>
      -- An earlier failure would have ended the count.
      obtain ⟨before', segment, span', after', b, rfl, hrun', herror⟩ := exists_of_run_error hrun
      obtain ⟨body', rfl, hcloses', hopened', rfl⟩ := step_eq_error_iff.1 herror
      have hbranches := (follows_of_run hrun').branches
      rw [hopened'] at hbranches
      rw [Segment.branches?_of_unmatched hbranches hcloses'] at hbefore
      cases hbefore
    | ok b =>
      have hbranches := (follows_of_run hrun).branches
      rw [hbefore] at hbranches
      have hopened : b.opened = [] :=
        List.eq_nil_of_length_eq_zero (Option.some.inj hbranches).symm
      have hstep : b.step (.tag body) span = .error (unmatched body span) :=
        step_eq_error_iff.2 ⟨body, rfl, hcloses, hopened, rfl⟩
      rw [result_run_append hrun, run, hstep]
      rfl

end Builder

/-! ## Neighbours -/

/-- Behind siblings a branch is open only if the last of them opens one. -/
theorem Forest.exists_of_openBehind {ts : List (Node × Forest)}
    (h : openBehind false ts = true) : ∃ init last, ts = init ++ [last] ∧ last.1.kind.opens := by
  rcases List.eq_nil_or_concat' ts with rfl | ⟨init, last, rfl⟩
  · cases h
  · rw [openBehind_append] at h
    exact ⟨init, last, rfl, h⟩

/-- Among siblings that fit, an opener comes last or in front of a closing tag, and a closing tag
comes behind an opener. -/
theorem Forest.Fits.neighbours {siblings : Forest} (h : siblings.Fits false)
    {before after : List (Node × Forest)} {t : Node × Forest}
    (hsplit : siblings.trees = before ++ t :: after) :
    (t.1.kind.opens = true →
      after = [] ∨ ∃ next rest, after = next :: rest ∧ next.1.kind.closes = true) ∧
    (t.1.kind.closes = true → ∃ init last, before = init ++ [last] ∧ last.1.kind.opens = true) := by
  rw [← ofTrees_trees siblings, hsplit, fits_ofTrees_append] at h
  obtain ⟨-, hcloses, -, hafter⟩ := h
  constructor
  · intro hopens
    rw [hopens] at hafter
    cases after with
    | nil => exact .inl rfl
    | cons next rest => exact .inr ⟨next, rest, rfl, hafter.1⟩
  · intro hcloses'
    exact exists_of_openBehind (hcloses.symm.trans hcloses')

/-- **A document is the bracket structure of its tags.**  A source has no document exactly if some
closing tag is reached with no branch open, and the error is about the first such tag: it gives its
body without the white space around it and the line it starts on.  Otherwise every segment has
become the node of its place in reading order, one deeper than the number of branches around it; and
among the siblings of every level an opener is the last or comes right before a closing tag, and a
closing tag comes right behind an opener. -/
theorem Document.brackets_of_read (markers : Markers) (source : Text) :
    (∀ e, (Document.read markers source).result = .error e ↔
      ∃ body span, Segment.Unmatched (Segment.scan markers source) body span ∧
        e = { cause := .unmatchedClose (Text.trim body), lineNumber := span.start.line.toNat }) ∧
    ∀ d, (Document.read markers source).result = .ok d →
      d.outline.length = (Segment.scan markers source).length + 1 ∧
      (∀ before segment span after,
        Segment.scan markers source = before ++ (segment, span) :: after →
        ∃ opened entry, Segment.branches? before = some opened ∧
          d.outline[before.length + 1]? = some entry ∧
          entry.Shows ⟨before.length + 1, segment.statement, segment.content, span⟩
            (segment.kind.branchesAround opened + 1)) ∧
      ∀ siblings ∈ d.levels, ∀ before t after, siblings.trees = before ++ t :: after →
        (t.1.kind.opens = true →
          after = [] ∨ ∃ next rest, after = next :: rest ∧ next.1.kind.closes = true) ∧
        (t.1.kind.closes = true →
          ∃ init last, before = init ++ [last] ∧ last.1.kind.opens = true) := by
  constructor
  · intro e
    refine Iff.trans ?_ Builder.run_start_eq_error_iff
    simp only [Document.read, Traced.map]
    cases (Builder.start.run (Segment.scan markers source)).result <;> simp [Except.map]
  · intro d hread
    obtain ⟨b, hrun, rfl⟩ := Document.exists_builder_of_read hread
    have hfollows := Builder.follows_of_run hrun
    have hplaced : b.finish.placed 1 = b.placed := Builder.placed_closeAll b.before b.opened
    refine ⟨?_, ?_, ?_⟩
    · rw [Document.outline, List.length_cons, (b.finish.forall₂_entries 0 1).length_eq, hplaced,
        hfollows.length]
    · intro before segment span after hsplit
      obtain ⟨opened, hopened, hget⟩ := hfollows.placed before segment span after hsplit
      rw [← hplaced] at hget
      obtain ⟨entry, hentry, hshows⟩ := Forest.exists_entry 0 hget
      exact ⟨opened, entry, hopened, hentry, hshows⟩
    · intro siblings hmem before t after hsplit
      exact (Document.fits_of_read hread hmem).neighbours hsplit

end Stencil
