import Mathlib.Tactic.Common
import Stencil.Document.Builder

/-!
# How the nodes of a document stand together

The branches of a source end up as siblings, each holding its own part: `if`, `else if`, `else` and
the `end` that closes them are neighbours on one level.  Whoever walks over a list of siblings
relies on two facts about them, and `Forest.Fits` states both: a tag that opens a branch is the last
of its siblings or comes right before a tag that closes the branch, and every tag that closes a
branch comes right after one that opens it.

`Document.read` never builds anything else (`fits_of_read`).  The invariant that carries the proof,
`Builder.Fitting`, has a clause for the level at hand, where no branch is open behind the last
sibling, and one for every level above it, where the next sibling is the opener that waits for its
branch to end.

## Main Definitions

* `Forest.trees`, `Forest.bodies`, `Document.levels` — the siblings of a forest as a list, what its
  nodes hold, and all lists of siblings of a document
* `Forest.within`, `Builder.withinOf` — the nodes of a forest or of a builder, each with what is
  handed down to it from above
* `Forest.placed`, `Builder.placed` — the same with their depths
* `Forest.openBehind` — whether a branch is open behind a list of siblings
* `Forest.Fits` — the shape of a list of siblings and of all lists below it
* `Builder.nodes` — all nodes that a builder has put into place, in reading order
-/

namespace Stencil

namespace Forest

/-! ## Siblings as a list -/

/-- The siblings of a forest, each with what it holds. -/
def trees : Forest → List (Node × Forest)
  | nil => []
  | node n body rest => (n, body) :: trees rest

/-- What the nodes of a forest hold, in reading order. -/
def bodies : Forest → List Forest
  | nil => []
  | node _ body rest => body :: (bodies body ++ bodies rest)

@[simp] theorem ofTrees_nil : ofTrees [] = nil := rfl

@[simp] theorem ofTrees_cons (tree : Node × Forest) (trees : List (Node × Forest)) :
    ofTrees (tree :: trees) = node tree.1 tree.2 (ofTrees trees) := rfl

@[simp] theorem ofTrees_trees (f : Forest) : ofTrees f.trees = f := by
  induction f with
  | nil => rfl
  | node n body rest _ ih => rw [trees, ofTrees_cons, ih]

@[simp] theorem trees_ofTrees (ts : List (Node × Forest)) : (ofTrees ts).trees = ts := by
  induction ts with
  | nil => rfl
  | cons t ts ih => rw [ofTrees_cons, trees, ih]

theorem nodes_ofTrees (ts : List (Node × Forest)) :
    (ofTrees ts).nodes = ts.flatMap fun t => t.1 :: t.2.nodes := by
  induction ts with
  | nil => rfl
  | cons t ts ih => rw [ofTrees_cons, nodes, ih, List.flatMap_cons, List.cons_append]

theorem mem_nodes_of_mem_trees {f : Forest} {t : Node × Forest} (h : t ∈ f.trees) :
    t.1 ∈ f.nodes := by
  rw [← ofTrees_trees f, nodes_ofTrees]
  exact List.mem_flatMap.2 ⟨t, h, .head _⟩

theorem nodes_subset_of_mem_bodies {f siblings : Forest} (h : siblings ∈ f.bodies) :
    siblings.nodes ⊆ f.nodes := by
  induction f with
  | nil => cases h
  | node n body rest ihb ihr =>
    rw [bodies, List.mem_cons, List.mem_append] at h
    intro m hm
    rw [nodes, List.mem_cons, List.mem_append]
    rcases h with rfl | h | h
    · exact .inr (.inl hm)
    · exact .inr (.inl (ihb h hm))
    · exact .inr (.inr (ihr h hm))

/-! ## Nodes with what is handed down to them -/

section Within

variable {α : Type} (pass : α → Node → α)

/-- The nodes of a forest in reading order, each with what is handed down to it: siblings get the
same, and what a node holds gets what `pass` makes of the node and of what it got itself. -/
def within (given : α) : Forest → List (Node × α)
  | nil => []
  | node n body rest => (n, given) :: (within (pass given n) body ++ within given rest)

theorem within_ofTrees (given : α) (ts : List (Node × Forest)) :
    (ofTrees ts).within pass given =
      ts.flatMap fun t => (t.1, given) :: t.2.within pass (pass given t.1) := by
  induction ts with
  | nil => rfl
  | cons t ts ih => rw [ofTrees_cons, within, ih, List.flatMap_cons, List.cons_append]

theorem map_fst_within (given : α) (f : Forest) :
    (f.within pass given).map Prod.fst = f.nodes := by
  induction f generalizing given with
  | nil => rfl
  | node n body rest ihb ihr => rw [within, List.map_cons, List.map_append, ihb, ihr, nodes]

end Within

/-- The nodes of a forest in reading order, each with its depth. -/
def placed (depth : Nat) : Forest → List (Node × Nat)
  | nil => []
  | node n body rest => (n, depth) :: (placed (depth + 1) body ++ placed depth rest)

/-- What is handed down is one more on every level. -/
theorem placed_eq_within (depth : Nat) (f : Forest) :
    f.placed depth = f.within (fun depth _ => depth + 1) depth := by
  induction f generalizing depth with
  | nil => rfl
  | node n body rest ihb ihr => rw [placed, within, ihb, ihr]

theorem map_fst_placed (depth : Nat) (f : Forest) : (f.placed depth).map Prod.fst = f.nodes := by
  rw [placed_eq_within, map_fst_within]

/-! ## The shape of siblings -/

/-- Whether a branch is open behind siblings, given whether one is open in front of them. -/
def openBehind (opened : Bool) (ts : List (Node × Forest)) : Bool :=
  ts.foldl (fun _ t => t.1.kind.opens) opened

@[simp] theorem openBehind_nil (opened : Bool) : openBehind opened [] = opened := rfl

@[simp] theorem openBehind_cons (opened : Bool) (t : Node × Forest) (ts : List (Node × Forest)) :
    openBehind opened (t :: ts) = openBehind t.1.kind.opens ts := rfl

@[simp] theorem openBehind_append (opened : Bool) (ts us : List (Node × Forest)) :
    openBehind opened (ts ++ us) = openBehind (openBehind opened ts) us := List.foldl_append

/-- Siblings fit behind a place where a branch is open or not: a tag closes a branch exactly if one
is open in front of it.  What a node holds starts with no branch open. -/
def Fits (opened : Bool) : Forest → Prop
  | nil => True
  | node n body rest => n.kind.closes = opened ∧ Fits false body ∧ Fits n.kind.opens rest

@[simp] theorem fits_nil (opened : Bool) : Fits opened nil := trivial

theorem fits_ofTrees_append {opened : Bool} {ts us : List (Node × Forest)} :
    Fits opened (ofTrees (ts ++ us)) ↔
      Fits opened (ofTrees ts) ∧ Fits (openBehind opened ts) (ofTrees us) := by
  induction ts generalizing opened with
  | nil => simp
  | cons t ts ih =>
    rw [List.cons_append, ofTrees_cons, ofTrees_cons, openBehind_cons, Fits, Fits, ih]
    simp only [and_assoc]

/-- Whatever a node of a forest holds has the shape of a list of siblings, too. -/
theorem Fits.of_mem_bodies {opened : Bool} {f siblings : Forest} (h : Fits opened f)
    (hmem : siblings ∈ f.bodies) : Fits false siblings := by
  induction f generalizing opened with
  | nil => cases hmem
  | node n body rest ihb ihr =>
    obtain ⟨-, hbody, hrest⟩ := h
    rw [bodies, List.mem_cons, List.mem_append] at hmem
    rcases hmem with rfl | hmem | hmem
    · exact hbody
    · exact ihb hbody hmem
    · exact ihr hrest hmem

theorem Fits.of_mem_ofTrees {opened : Bool} {ts : List (Node × Forest)}
    (h : Fits opened (ofTrees ts)) {t : Node × Forest} (ht : t ∈ ts) : Fits false t.2 := by
  induction ts generalizing opened with
  | nil => cases ht
  | cons u ts ih =>
    obtain ⟨-, hbody, hrest⟩ := h
    rcases List.mem_cons.1 ht with rfl | ht
    · exact hbody
    · exact ih hrest ht

theorem Fits.of_mem_trees {opened : Bool} {f : Forest} (h : Fits opened f) {t : Node × Forest}
    (ht : t ∈ f.trees) : Fits false t.2 := by
  rw [← ofTrees_trees f] at h
  exact h.of_mem_ofTrees ht

end Forest

/-- All lists of siblings of a document: the one below the root, and those that its nodes hold. -/
def Document.levels (d : Document) : List Forest := d.forest :: d.forest.bodies

theorem Document.mem_nodes_of_mem_levels {d : Document} {siblings : Forest}
    (h : siblings ∈ d.levels) {t : Node × Forest} (ht : t ∈ siblings.trees) :
    t.1 ∈ d.forest.nodes := by
  have hnode : t.1 ∈ siblings.nodes := Forest.mem_nodes_of_mem_trees ht
  rcases List.mem_cons.1 h with rfl | h
  · exact hnode
  · exact Forest.nodes_subset_of_mem_bodies h hnode

namespace Builder

/-! ## What a builder has put into place -/

/-- The nodes of siblings that are held nearest first, in reading order. -/
def levelNodes (before : List (Node × Forest)) : List Node := (toForest before).nodes

/-- All nodes so far, in reading order: those of the outer levels, each with the opener that waits
for its branch to end, then those of the level at hand. -/
def nodesOf (before : List (Node × Forest)) : List (Node × List (Node × Forest)) → List Node
  | [] => levelNodes before
  | (n, outer) :: opened => nodesOf outer opened ++ n :: levelNodes before

/-- All nodes that a builder has put into place, in reading order. -/
def nodes (b : Builder) : List Node := nodesOf b.before b.opened

theorem toForest_cons (t : Node × Forest) (before : List (Node × Forest)) :
    toForest (t :: before) = Forest.ofTrees (before.reverse ++ [t]) := by
  rw [toForest, List.reverse_cons]

section Within

variable {α : Type} (pass : α → Node → α) (start : α)

/-- What is handed down to the level at hand through the openers of the branches around it. -/
def given : List (Node × List (Node × Forest)) → α
  | [] => start
  | (n, _) :: opened => pass (given opened) n

/-- The nodes that a builder has put into place in reading order, each with what is handed down to
it. -/
def withinOf (before : List (Node × Forest)) :
    List (Node × List (Node × Forest)) → List (Node × α)
  | [] => (toForest before).within pass start
  | (n, outer) :: opened =>
    withinOf outer opened ++
      (n, given pass start opened) ::
        (toForest before).within pass (pass (given pass start opened) n)

theorem within_toForest_cons (given : α) (t : Node × Forest) (before : List (Node × Forest)) :
    (toForest (t :: before)).within pass given =
      (toForest before).within pass given ++ (t.1, given) :: t.2.within pass (pass given t.1) := by
  rw [toForest_cons, Forest.within_ofTrees, List.flatMap_append, ← Forest.within_ofTrees]
  simp [toForest]

/-- One more sibling comes after all nodes so far. -/
theorem withinOf_cons (t : Node × Forest) (before : List (Node × Forest))
    (opened : List (Node × List (Node × Forest))) :
    withinOf pass start (t :: before) opened =
      withinOf pass start before opened ++
        (t.1, given pass start opened) :: t.2.within pass (pass (given pass start opened) t.1) := by
  cases opened with
  | nil => exact within_toForest_cons pass start t before
  | cons o opened =>
    obtain ⟨n, outer⟩ := o
    simp only [withinOf, given, within_toForest_cons, List.append_assoc, List.cons_append]

/-- The end of a branch hands the same to all nodes so far. -/
theorem withinOf_leave {b b' : Builder} (h : b.leave? = some b') :
    withinOf pass start b'.before b'.opened = withinOf pass start b.before b.opened := by
  unfold leave? at h
  split at h
  · cases h
  · next n before opened hop =>
    obtain rfl := Option.some.inj h
    rw [hop, withinOf_cons]
    rfl

/-- A node that is added gets what is handed down to the level at hand. -/
theorem withinOf_add (b : Builder) (statement : Statement) (content : Text) (span : Span) :
    withinOf pass start (b.add statement content span).before
        (b.add statement content span).opened =
      withinOf pass start b.before b.opened ++
        [(⟨b.count, statement, content, span⟩, given pass start b.opened)] := by
  rw [add]
  split
  · rfl
  · exact withinOf_cons pass start (_, .nil) b.before b.opened

/-- The end of all branches hands the same to all nodes. -/
theorem within_closeAll (before : List (Node × Forest))
    (opened : List (Node × List (Node × Forest))) :
    (closeAll before opened).within pass start = withinOf pass start before opened := by
  induction opened generalizing before with
  | nil => rfl
  | cons o opened ih =>
    obtain ⟨n, outer⟩ := o
    rw [closeAll, ih, withinOf_cons]
    rfl

end Within

/-- The nodes that a builder has put into place in reading order, each with its depth: one more than
the number of openers that wait for their branch to end. -/
def placedOf (before : List (Node × Forest)) :
    List (Node × List (Node × Forest)) → List (Node × Nat)
  | [] => (toForest before).placed 1
  | (n, outer) :: opened =>
    placedOf outer opened ++ (n, opened.length + 1) :: (toForest before).placed (opened.length + 2)

/-- The nodes that a builder has put into place in reading order, each with its depth. -/
def placed (b : Builder) : List (Node × Nat) := placedOf b.before b.opened

/-- What is handed down is the number of openers on the way, from one on. -/
theorem given_depth (opened : List (Node × List (Node × Forest))) :
    given (fun depth _ => depth + 1) 1 opened = opened.length + 1 := by
  induction opened with
  | nil => rfl
  | cons o opened ih => rw [given, ih, List.length_cons]

theorem placedOf_eq_withinOf (before : List (Node × Forest))
    (opened : List (Node × List (Node × Forest))) :
    placedOf before opened = withinOf (fun depth _ => depth + 1) 1 before opened := by
  induction opened generalizing before with
  | nil => exact Forest.placed_eq_within 1 (toForest before)
  | cons o opened ih =>
    obtain ⟨n, outer⟩ := o
    rw [placedOf, withinOf, ih, given_depth, Forest.placed_eq_within]

/-- The end of a branch moves no node, and one branch less is open. -/
theorem placed_leave {b b' : Builder} (h : b.leave? = some b') :
    b'.placed = b.placed ∧ b'.count = b.count ∧ b.opened.length = b'.opened.length + 1 := by
  refine ⟨?_, ?_⟩
  · rw [placed, placed, placedOf_eq_withinOf, placedOf_eq_withinOf, withinOf_leave _ _ h]
  · unfold leave? at h
    split at h
    · cases h
    · next n before opened hop =>
      obtain rfl := Option.some.inj h
      exact ⟨rfl, by rw [hop, List.length_cons]⟩

/-- A node that is added stands in the open branches, and opens one if its kind does. -/
theorem placed_add (b : Builder) (statement : Statement) (content : Text) (span : Span) :
    (b.add statement content span).placed =
        b.placed ++ [(⟨b.count, statement, content, span⟩, b.opened.length + 1)] ∧
      (b.add statement content span).count = b.count + 1 ∧
      (b.add statement content span).opened.length =
        b.opened.length + if statement.kind.opens then 1 else 0 := by
  refine ⟨?_, ?_⟩
  · rw [placed, placed, placedOf_eq_withinOf, placedOf_eq_withinOf, withinOf_add, given_depth]
  · rw [add]
    split
    · exact ⟨rfl, List.length_cons⟩
    · exact ⟨rfl, rfl⟩

/-- The end of all branches moves no node. -/
theorem placed_closeAll (before : List (Node × Forest))
    (opened : List (Node × List (Node × Forest))) :
    (closeAll before opened).placed 1 = placedOf before opened := by
  rw [Forest.placed_eq_within, within_closeAll, placedOf_eq_withinOf]

theorem map_fst_withinOf {α : Type} (pass : α → Node → α) (start : α)
    (before : List (Node × Forest)) (opened : List (Node × List (Node × Forest))) :
    (withinOf pass start before opened).map Prod.fst = nodesOf before opened := by
  induction opened generalizing before with
  | nil => exact Forest.map_fst_within pass start (toForest before)
  | cons o opened ih =>
    obtain ⟨n, outer⟩ := o
    rw [withinOf, List.map_append, List.map_cons, ih, Forest.map_fst_within]
    rfl

theorem map_fst_placedOf (before : List (Node × Forest))
    (opened : List (Node × List (Node × Forest))) :
    (placedOf before opened).map Prod.fst = nodesOf before opened := by
  rw [placedOf_eq_withinOf, map_fst_withinOf]

/-- The end of a branch moves no node. -/
theorem nodes_leave {b b' : Builder} (h : b.leave? = some b') : b'.nodes = b.nodes := by
  have hplaced : b'.placed = b.placed := (placed_leave h).1
  rw [nodes, nodes, ← map_fst_placedOf, ← map_fst_placedOf]
  exact congrArg (List.map Prod.fst) hplaced

theorem nodes_add (b : Builder) (statement : Statement) (content : Text) (span : Span) :
    (b.add statement content span).nodes = b.nodes ++ [⟨b.count, statement, content, span⟩] := by
  have hplaced := congrArg (List.map Prod.fst) (placed_add b statement content span).1
  rwa [List.map_append, placed, placed, map_fst_placedOf, map_fst_placedOf] at hplaced

/-- The end of all branches moves no node. -/
theorem nodes_closeAll (before : List (Node × Forest))
    (opened : List (Node × List (Node × Forest))) :
    (closeAll before opened).nodes = nodesOf before opened := by
  rw [← Forest.map_fst_placed 1, placed_closeAll, map_fst_placedOf]

/-! ## One step of a builder -/

end Builder

/-- The statement that a segment becomes. -/
def Segment.statement : Segment → Statement
  | text _ => .text
  | tag body => Statement.ofBody (Text.trim body)

/-- The content of the node that a segment becomes. -/
def Segment.content : Segment → Text
  | text content => content
  | tag body => Text.trim body

namespace Builder

/-- All that a step can do: a tag that closes a branch first ends the one that is open, and then the
node of the segment is added. -/
theorem step_cases {b b' : Builder} {segment : Segment} {span : Span}
    (h : b.step segment span = .ok b') :
    ∃ start : Builder, b' = start.add segment.statement segment.content span ∧
      (segment.statement.kind.closes = false ∧ start = b ∨
        segment.statement.kind.closes = true ∧ b.leave? = some start) := by
  cases segment with
  | text content =>
    obtain rfl := Except.ok.inj h
    exact ⟨b, rfl, .inl ⟨rfl, rfl⟩⟩
  | tag body =>
    simp only [step] at h
    split at h
    · next hcloses =>
      split at h
      · next start hleave =>
        obtain rfl := Except.ok.inj h
        exact ⟨start, rfl, .inr ⟨hcloses, hleave⟩⟩
      · cases h
    · next hcloses =>
      obtain rfl := Except.ok.inj h
      exact ⟨b, rfl, .inl ⟨Bool.eq_false_iff.2 hcloses, rfl⟩⟩

/-- A step adds one node behind all others. -/
theorem nodes_step {b b' : Builder} {segment : Segment} {span : Span}
    (h : b.step segment span = .ok b') :
    ∃ id, b'.nodes = b.nodes ++ [⟨id, segment.statement, segment.content, span⟩] := by
  obtain ⟨start, rfl, ⟨-, rfl⟩ | ⟨-, hleave⟩⟩ := step_cases h
  · exact ⟨start.count, nodes_add start _ _ _⟩
  · refine ⟨start.count, ?_⟩
    rw [nodes_add, nodes_leave hleave]

/-- What holds of every step holds of a run. -/
theorem run_induction {motive : Builder → Prop}
    (hstep : ∀ {b b' : Builder} {segment : Segment} {span : Span},
      b.step segment span = .ok b' → motive b → motive b')
    {b b' : Builder} {segments : List (Segment × Span)}
    (h : (b.run segments).result = .ok b') (hb : motive b) : motive b' := by
  induction segments generalizing b with
  | nil =>
    obtain rfl := Except.ok.inj h
    exact hb
  | cons head rest ih =>
    obtain ⟨segment, span⟩ := head
    rw [run] at h
    split at h
    · cases h
    · next next hnext => exact ih h (hstep hnext hb)

/-! ## The shape of what a builder makes -/

/-- Everything that a builder has put into place fits, and a branch is open behind the last sibling
of the level at hand only if `behind` says so.  On the levels above, the opener that waits for its
branch to end fits behind the siblings before it. -/
structure Fitting (behind : Bool) (b : Builder) : Prop where
  level : Forest.Fits false (toForest b.before)
  openBehind : Forest.openBehind false b.before.reverse = behind
  above : ∀ o ∈ b.opened, o.1.kind.opens = true ∧
    o.1.kind.closes = Forest.openBehind false o.2.reverse ∧ Forest.Fits false (toForest o.2)

theorem fitting_start : Fitting false start where
  level := trivial
  openBehind := rfl
  above := by
    intro o ho
    cases ho

/-- One more sibling fits if it closes a branch exactly when one is open in front of it. -/
theorem fits_toForest_cons {n : Node} {body : Forest} {before : List (Node × Forest)}
    (hbefore : Forest.Fits false (toForest before)) (hbody : Forest.Fits false body)
    (hcloses : n.kind.closes = Forest.openBehind false before.reverse) :
    Forest.Fits false (toForest ((n, body) :: before)) := by
  rw [toForest_cons, Forest.fits_ofTrees_append]
  exact ⟨hbefore, hcloses, hbody, trivial⟩

/-- The end of a branch leaves its opener as the last sibling. -/
theorem Fitting.leave {b b' : Builder} (h : Fitting false b) (hleave : b.leave? = some b') :
    Fitting true b' := by
  unfold leave? at hleave
  split at hleave
  · cases hleave
  · next n before opened hop =>
    obtain rfl := Option.some.inj hleave
    obtain ⟨hopens, hcloses, hbefore⟩ := h.above (n, before) (by rw [hop]; exact .head _)
    refine ⟨fits_toForest_cons hbefore h.level hcloses, ?_, ?_⟩
    · rw [List.reverse_cons, Forest.openBehind_append]
      exact hopens
    · intro o ho
      apply h.above
      rw [hop]
      exact .tail _ ho

/-- A node that closes a branch exactly when one is open in front of it fits, and behind it no
branch is open on the level at hand: an opener starts a level of its own. -/
theorem Fitting.add {behind : Bool} {b : Builder} (h : Fitting behind b) {statement : Statement}
    (hcloses : statement.kind.closes = behind) (content : Text) (span : Span) :
    Fitting false (b.add statement content span) := by
  rw [Builder.add]
  split
  · next hopens =>
    refine ⟨trivial, rfl, ?_⟩
    -- The level at hand is empty now, and what was the level at hand waits above it.
    intro o ho
    rcases List.mem_cons.1 ho with rfl | ho
    · exact ⟨hopens, hcloses.trans h.openBehind.symm, h.level⟩
    · exact h.above o ho
  · next hopens =>
    refine ⟨fits_toForest_cons h.level trivial (hcloses.trans h.openBehind.symm), ?_, h.above⟩
    rw [leaf, List.reverse_cons, Forest.openBehind_append]
    exact Bool.eq_false_iff.2 hopens

theorem Fitting.step {b b' : Builder} {segment : Segment} {span : Span}
    (hstep : b.step segment span = .ok b') (h : Fitting false b) : Fitting false b' := by
  obtain ⟨start, rfl, ⟨hcloses, rfl⟩ | ⟨hcloses, hleave⟩⟩ := step_cases hstep
  · exact h.add hcloses _ _
  · exact (h.leave hleave).add hcloses _ _

/-- Ending all branches keeps the shape; it does not matter whether a branch is open behind the last
sibling of the level at hand, since nothing comes after it. -/
theorem fits_closeAll {before : List (Node × Forest)} {opened : List (Node × List (Node × Forest))}
    (hbefore : Forest.Fits false (toForest before))
    (habove : ∀ o ∈ opened, o.1.kind.closes = Forest.openBehind false o.2.reverse ∧
      Forest.Fits false (toForest o.2)) :
    Forest.Fits false (closeAll before opened) := by
  induction opened generalizing before with
  | nil => exact hbefore
  | cons o opened ih =>
    obtain ⟨⟨hcloses, houter⟩, habove⟩ := List.forall_mem_cons.1 habove
    rw [closeAll]
    exact ih (fits_toForest_cons houter hbefore hcloses) habove

end Builder

/-! ## The shape of documents -/

/-- What is found out by computing a result is known of the result. -/
theorem exists_ok_of_toOption {ε α : Type} {P : α → Prop} {r : Except ε α}
    (h : ∃ a ∈ r.toOption, P a) : ∃ a, r = .ok a ∧ P a := by
  obtain ⟨a, ha, hP⟩ := h
  cases r with
  | ok b =>
    obtain rfl := Option.some.inj ha
    exact ⟨b, rfl, hP⟩
  | error e => cases ha

/-- What is found out about the document of a source is known of the document. -/
theorem Document.exists_read {P : Document → Prop} (markers : Markers) (source : Text)
    (h : ∃ d ∈ (Document.read markers source).result.toOption, P d) :
    ∃ d, (Document.read markers source).result = .ok d ∧ P d :=
  exists_ok_of_toOption h

/-- A document that is read is what its builder has made at the end of the source. -/
theorem Document.exists_builder_of_read {markers : Markers} {source : Text} {d : Document}
    (h : (Document.read markers source).result = .ok d) :
    ∃ b : Builder, (Builder.start.run (Segment.scan markers source)).result = .ok b ∧
      d = ⟨b.finish, false⟩ := by
  simp only [Document.read, Traced.map] at h
  cases hrun : (Builder.start.run (Segment.scan markers source)).result with
  | error e =>
    rw [hrun] at h
    cases h
  | ok b =>
    rw [hrun] at h
    exact ⟨b, rfl, (Except.ok.inj h).symm⟩

/-- **The siblings of a document fit together, on every level.** -/
theorem Document.fits_of_read {markers : Markers} {source : Text} {d : Document}
    (h : (Document.read markers source).result = .ok d) {siblings : Forest}
    (hmem : siblings ∈ d.levels) : siblings.Fits false := by
  obtain ⟨b, hrun, rfl⟩ := Document.exists_builder_of_read h
  have hb : b.Fitting false :=
    Builder.run_induction Builder.Fitting.step hrun Builder.fitting_start
  have hforest : b.finish.Fits false := by
    apply Builder.fits_closeAll hb.level
    intro o ho
    exact (hb.above o ho).2
  rcases List.mem_cons.1 hmem with rfl | hmem
  · exact hforest
  · exact hforest.of_mem_bodies hmem

/-- Every node that a builder has put into place stands for a segment. -/
def Builder.FromSegments (b : Builder) : Prop :=
  ∀ n ∈ b.nodes,
    ∃ segment : Segment, n.statement = segment.statement ∧ n.content = segment.content

theorem Builder.FromSegments.step {b b' : Builder} {segment : Segment} {span : Span}
    (hstep : b.step segment span = .ok b') (h : b.FromSegments) : b'.FromSegments := by
  intro n hn
  obtain ⟨id, hnodes⟩ := Builder.nodes_step hstep
  rw [hnodes, List.mem_append, List.mem_singleton] at hn
  rcases hn with hn | rfl
  · exact h n hn
  · exact ⟨segment, rfl, rfl⟩

/-- Every node of a document stands for a segment of its source. -/
theorem Document.exists_segment_of_read {markers : Markers} {source : Text} {d : Document}
    (h : (Document.read markers source).result = .ok d) {n : Node} (hn : n ∈ d.forest.nodes) :
    ∃ segment : Segment, n.statement = segment.statement ∧ n.content = segment.content := by
  obtain ⟨b, hrun, rfl⟩ := Document.exists_builder_of_read h
  have hb : b.FromSegments := by
    refine Builder.run_induction Builder.FromSegments.step hrun ?_
    intro n hn
    exact absurd hn List.not_mem_nil
  refine hb n ?_
  rwa [Builder.finish, Builder.nodes_closeAll] at hn

end Stencil
