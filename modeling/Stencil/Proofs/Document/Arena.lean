import Stencil.Document.Arena
import Stencil.Proofs.Document.Lines

/-!
# Arenas are documents

A document keeps what a node holds below the node; an arena keeps numbers.  Both are built from the
same segments, and the arena of a source is its document with all links written out
(`Arena.read_eq`), before trimming and after it (`Arena.trim?_ofDocument`).

The two builders have little in common: one finishes a level and then puts it away, the other writes
new numbers into rows that it has left behind.  What is common to them is the list of all nodes so
far, each with the node that holds it, in the order of creation.  An arena can be read off that list
alone (`Arena.rows`): what a node holds are the nodes of the list that name it.  One more node at
the end of the list changes as much of that as one more row does (`Arena.append_rows`).

## Main Definitions

* `Arena.ofDocument` — a document with its links written out
* `Arena.Places`, `Arena.rows` — nodes with their holders, and the rows that they make
* `Builder.Numbered` — nodes are numbered in order, and a holder comes before what it holds
-/

namespace Stencil

namespace Arena

/-- The row of an entry among the given number of nodes. -/
def Cell.ofEntry (count : Nat) (e : Outline.Entry) : Cell :=
  ⟨e.statement, e.content, e.span, e.parent, e.children, e.prev?, e.next? count⟩

/-- A document with its links written out. -/
def ofDocument (d : Document) : Arena := ⟨d.outline.map (Cell.ofEntry d.size), d.trimmed⟩

/-! ## Rows from nodes with their holders -/

/-- Nodes in the order of creation, each with the number of the node that holds it. -/
abbrev Places := List (Node × Nat)

/-- Nodes in the order of creation are numbered from one on, and held by nodes before them. -/
structure Places.Numbered (ps : Places) : Prop where
  at_place : ∀ {i place}, ps[i]? = some place → place.1.id = i + 1 ∧ place.2 ≤ i

/-- The numbers of the nodes that a node holds. -/
def heldBy (ps : Places) (id : Nat) : List Nat := (ps.filter (·.2 == id)).map (·.1.id)

/-- The row of a node with a number among others. -/
def row (ps : Places) (id : Nat) (statement : Option Statement) (content : Text) (span : Span)
    (parent : Option Nat) : Cell where
  statement := statement
  content := content
  span := span
  parent := parent
  children := heldBy ps id
  prev := if id = 0 then none else some (id - 1)
  next := if id < ps.length then some (id + 1) else none

/-- The row of a node with its holder among others. -/
def rowOf (ps : Places) (place : Node × Nat) : Cell :=
  row ps place.1.id (some place.1.statement) place.1.content place.1.span (some place.2)

/-- The rows of the root and of all nodes. -/
def rows (ps : Places) : List Cell := row ps 0 none [] .nowhere none :: ps.map (rowOf ps)

theorem length_rows (ps : Places) : (rows ps).length = ps.length + 1 := by
  rw [rows, List.length_cons, List.length_map]

theorem heldBy_append (ps qs : Places) (id : Nat) :
    heldBy (ps ++ qs) id = heldBy ps id ++ heldBy qs id := by
  rw [heldBy, List.filter_append, List.map_append, heldBy, heldBy]

theorem heldBy_cons_self (n : Node) (holder : Nat) (ps : Places) :
    heldBy ((n, holder) :: ps) holder = n.id :: heldBy ps holder := by
  simp [heldBy]

theorem heldBy_cons_of_ne {n : Node} {holder id : Nat} (h : id ≠ holder) (ps : Places) :
    heldBy ((n, holder) :: ps) id = heldBy ps id := by
  simp [heldBy, h.symm]

/-- A node that is no holder holds nothing. -/
theorem heldBy_eq_nil {ps : Places} {id : Nat} (h : ∀ p ∈ ps, p.2 ≠ id) : heldBy ps id = [] := by
  rw [heldBy, List.map_eq_nil_iff, List.filter_eq_nil_iff]
  intro p hp
  simpa using h p hp

namespace Places.Numbered

variable {ps : Places} {n : Node} {holder : Nat}

theorem init {place : Node × Nat} (h : Numbered (ps ++ [place])) : ps.Numbered := by
  refine ⟨fun {i p} hp => h.at_place (i := i) ?_⟩
  rw [List.getElem?_append_left (List.getElem?_eq_some_iff.1 hp).1, hp]

theorem last {place : Node × Nat} (h : Numbered (ps ++ [place])) :
    place.1.id = ps.length + 1 ∧ place.2 ≤ ps.length :=
  h.at_place (by rw [List.getElem?_append_right (Nat.le_refl _), Nat.sub_self]; rfl)

/-- One more node has the next number, and some node before it as its holder. -/
theorem concat (h : ps.Numbered) {place : Node × Nat} (hid : place.1.id = ps.length + 1)
    (hholder : place.2 ≤ ps.length) : Numbered (ps ++ [place]) := by
  refine ⟨fun {i p} hp => ?_⟩
  rcases Nat.lt_or_ge i ps.length with hi | hi
  · rw [List.getElem?_append_left hi] at hp
    exact h.at_place hp
  · obtain ⟨hlt, -⟩ := List.getElem?_eq_some_iff.1 hp
    rw [List.length_append, List.length_singleton] at hlt
    obtain rfl : i = ps.length := by omega
    rw [List.getElem?_append_right (Nat.le_refl _), Nat.sub_self] at hp
    obtain rfl := Option.some.inj hp
    exact ⟨hid, hholder⟩

theorem of_mem (h : ps.Numbered) {place : Node × Nat} (hp : place ∈ ps) :
    place.2 < place.1.id ∧ place.1.id ≤ ps.length := by
  obtain ⟨i, hi⟩ := List.mem_iff_getElem?.1 hp
  obtain ⟨hlt, -⟩ := List.getElem?_eq_some_iff.1 hi
  obtain ⟨hid, hholder⟩ := h.at_place hi
  omega

theorem map_id (h : ps.Numbered) : ps.map (·.1.id) = List.range' 1 ps.length := by
  refine List.ext_getElem? fun i => ?_
  rw [List.getElem?_map]
  rcases Nat.lt_or_ge i ps.length with hi | hi
  · rw [List.getElem?_eq_getElem hi, List.getElem?_range' hi, Option.map_some,
      (h.at_place (List.getElem?_eq_getElem hi)).1, Nat.one_mul, Nat.add_comm]
  · rw [List.getElem?_eq_none hi, List.getElem?_eq_none (by rwa [List.length_range'])]
    rfl

/-- The row of a node stands at its number. -/
theorem getElem?_rows (h : ps.Numbered) {place : Node × Nat} (hp : place ∈ ps) :
    (rows ps)[place.1.id]? = some (rowOf ps place) := by
  obtain ⟨i, hi⟩ := List.mem_iff_getElem?.1 hp
  rw [(h.at_place hi).1, rows, List.getElem?_cons_succ, List.getElem?_map, hi]
  rfl

end Places.Numbered

/-- The row of an older node, when there is one node more: it is changed if the node is the holder
of the new one, and if it comes right before it. -/
theorem row_concat {ps : Places} {place : Node × Nat} (hid : place.1.id = ps.length + 1) {id : Nat}
    (hle : id ≤ ps.length) (statement : Option Statement) (content : Text) (span : Span)
    (parent : Option Nat) :
    row (ps ++ [place]) id statement content span parent =
      (fun c : Cell => if ps.length = id then { c with next := some (ps.length + 1) } else c)
        ((fun c : Cell =>
            if place.2 = id then { c with children := c.children ++ [ps.length + 1] } else c)
          (row ps id statement content span parent)) := by
  have hheld : heldBy [place] id = if place.2 = id then [ps.length + 1] else [] := by
    by_cases h : place.2 = id <;> simp [heldBy, h, hid]
  have hlength : (ps ++ [place]).length = ps.length + 1 := List.length_append
  simp only [row, heldBy_append, hheld, hlength, if_pos (Nat.lt_succ_of_le hle)]
  by_cases hholder : place.2 = id <;> by_cases hlast : ps.length = id
  all_goals simp [hholder, hlast]
  all_goals omega

/-- The rows of the older nodes, when there is one node more. -/
theorem getElem?_rows_concat {ps : Places} {place : Node × Nat}
    (h : Places.Numbered (ps ++ [place])) {i : Nat} (hi : i ≤ ps.length) :
    (rows (ps ++ [place]))[i]? = ((rows ps)[i]?.map fun c =>
      if place.2 = i then { c with children := c.children ++ [ps.length + 1] } else c).map fun c =>
        if ps.length = i then { c with next := some (ps.length + 1) } else c := by
  obtain ⟨hid, -⟩ := h.last
  cases i with
  | zero =>
    rw [rows, rows, List.getElem?_cons_zero, List.getElem?_cons_zero,
      row_concat hid (Nat.zero_le _)]
    rfl
  | succ i =>
    have hplace := (h.init.at_place (List.getElem?_eq_getElem hi)).1
    rw [rows, rows, List.getElem?_cons_succ, List.getElem?_cons_succ, List.map_append,
      List.getElem?_append_left (by rwa [List.length_map]), List.getElem?_map, List.getElem?_map,
      List.getElem?_eq_getElem hi, Option.map_some, Option.map_some, rowOf, rowOf,
      row_concat hid (hplace ▸ hi), hplace]
    rfl

/-- The row of the node that was created last: it holds nothing, and nothing comes behind it. -/
theorem getElem?_rows_last {ps : Places} {place : Node × Nat}
    (h : Places.Numbered (ps ++ [place])) :
    (rows (ps ++ [place]))[ps.length + 1]? = some ⟨some place.1.statement, place.1.content,
      place.1.span, some place.2, [], some ps.length, none⟩ := by
  obtain ⟨hid, -⟩ := h.last
  have hheld : heldBy (ps ++ [place]) (ps.length + 1) = [] := by
    refine heldBy_eq_nil fun p hp => ?_
    have hlt := h.of_mem hp
    rw [List.length_append, List.length_singleton] at hlt
    omega
  have hrow := h.getElem?_rows (List.mem_append_right ps (.head _))
  rw [hid] at hrow
  rw [hrow]
  simp [rowOf, row, hid, hheld]

/-- **One more node changes its own row, that of its holder and that of the node before it.** -/
theorem append_rows {ps : Places} {n : Node} {holder : Nat}
    (h : Places.Numbered (ps ++ [(n, holder)])) (trimmed : Bool) :
    append ⟨rows ps, trimmed⟩ holder ps.length n.statement n.content n.span =
      ⟨rows (ps ++ [(n, holder)]), trimmed⟩ := by
  have hholder : holder ≤ ps.length := h.last.2
  have hsize : size ⟨rows ps, trimmed⟩ = ps.length + 1 := length_rows ps
  rw [append, hsize]
  congr 1
  refine List.ext_getElem? fun i => ?_
  rw [List.getElem?_modify, List.getElem?_modify]
  rcases Nat.lt_trichotomy i (ps.length + 1) with hi | rfl | hi
  · rw [List.getElem?_append_left (by rwa [length_rows]),
      getElem?_rows_concat h (Nat.le_of_lt_succ hi)]
    rfl
  · rw [List.getElem?_append_right (by rw [length_rows]), length_rows, Nat.sub_self,
      List.getElem?_cons_zero, getElem?_rows_last h]
    simp only [Option.map_eq_map, Option.map_some]
    rw [if_neg (by omega), if_neg (by omega)]
  · rw [List.getElem?_eq_none, List.getElem?_eq_none]
    · rfl
    · rw [length_rows, List.length_append, List.length_singleton]
      omega
    · rw [List.length_append, length_rows, List.length_singleton]
      omega

end Arena

/-! ## The rows of a document -/

namespace Forest

open Arena (heldBy Places)

/-- The nodes of a forest in reading order, each with the number of the node that holds it. -/
def held (holder : Nat) (f : Forest) : Places := f.within (fun _ n => n.id) holder

theorem held_node (holder : Nat) (n : Node) (body rest : Forest) :
    (node n body rest).held holder = (n, holder) :: (body.held n.id ++ rest.held holder) := rfl

theorem map_id_held (holder : Nat) (f : Forest) :
    (f.held holder).map (·.1.id) = f.nodes.map (·.id) := by
  rw [← map_fst_within (fun _ n => n.id) holder f, List.map_map]
  rfl

@[simp] theorem length_held (holder : Nat) (f : Forest) : (f.held holder).length = f.size := by
  rw [← length_nodes, ← map_fst_within (fun _ n => n.id) holder f, List.length_map]
  rfl

/-- What stands in a forest is held by its holder or by nodes of the forest. -/
theorem eq_or_mem_of_mem_held {holder : Nat} {f : Forest} {p : Node × Nat}
    (h : p ∈ f.held holder) : p.2 = holder ∨ p.2 ∈ f.nodes.map (·.id) := by
  induction f generalizing holder with
  | nil => cases h
  | node n body rest ihb ihr =>
    rw [held_node, List.mem_cons, List.mem_append] at h
    rw [nodes, List.map_cons, List.map_append, List.mem_cons, List.mem_append]
    rcases h with rfl | h | h
    · exact .inl rfl
    · rcases ihb h with heq | hmem
      · exact .inr (.inl heq)
      · exact .inr (.inr (.inl hmem))
    · exact (ihr h).imp_right fun hmem => .inr (.inr hmem)

/-- Nodes from elsewhere hold nothing of a forest. -/
theorem heldBy_held_of_not_mem {holder id : Nat} {f : Forest} (hne : id ≠ holder)
    (hid : id ∉ f.nodes.map (·.id)) : heldBy (f.held holder) id = [] := by
  refine Arena.heldBy_eq_nil fun p hp heq => ?_
  rcases eq_or_mem_of_mem_held hp with h | h
  · exact hne (heq.symm.trans h)
  · exact hid (heq ▸ h)

/-- The holder of a forest holds its siblings, and nothing further below. -/
theorem heldBy_held_self {holder : Nat} {f : Forest} (h : holder ∉ f.nodes.map (·.id)) :
    heldBy (f.held holder) holder = f.siblings.map (·.id) := by
  induction f with
  | nil => rfl
  | node n body rest ihb ihr =>
    rw [nodes, List.map_cons, List.map_append, List.mem_cons, List.mem_append, not_or, not_or] at h
    obtain ⟨hn, hbody, hrest⟩ := h
    rw [held_node, Arena.heldBy_cons_self, Arena.heldBy_append, heldBy_held_of_not_mem hn hbody,
      ihr hrest, List.nil_append, siblings, List.map_cons]

/-- The nodes of a forest are numbered from one on. -/
theorem map_id_nodes {holder : Nat} {f : Forest} (h : (f.held holder).Numbered) :
    f.nodes.map (·.id) = List.range' 1 f.size := by
  rw [← map_id_held holder, h.map_id, length_held]

theorem map_id_entries (parent depth : Nat) (f : Forest) :
    (f.entries parent depth).map (·.id) = f.nodes.map (·.id) := by
  induction f generalizing parent depth with
  | nil => rfl
  | node n body rest ihb ihr =>
    rw [entries, nodes, List.map_cons, List.map_cons, List.map_append, List.map_append, ihb, ihr]

/-- **What an entry of a forest lists as its children are the nodes that name it as their holder.**
All numbers of the forest and of what is around it must differ. -/
theorem children_entries {holder depth : Nat} {f : Forest}
    (h : (holder :: f.nodes.map (·.id)).Nodup) :
    ∀ e ∈ f.entries holder depth, e.children = heldBy (f.held holder) e.id := by
  induction f generalizing holder depth with
  | nil => nofun
  | node n body rest ihb ihr =>
    rw [nodes, List.map_cons, List.map_append] at h
    obtain ⟨hholder, hnodes⟩ := List.nodup_cons.1 h
    obtain ⟨hn, hparts⟩ := List.nodup_cons.1 hnodes
    rw [List.mem_cons, List.mem_append, not_or, not_or] at hholder
    rw [List.mem_append, not_or] at hn
    obtain ⟨hbody, hrest, hapart⟩ := List.nodup_append.1 hparts
    have hid : ∀ {g : Forest} {parent depth' : Nat} {e : Outline.Entry},
        e ∈ g.entries parent depth' → e.id ∈ g.nodes.map (·.id) := by
      intro g parent depth' e he
      rw [← map_id_entries parent depth']
      exact List.mem_map_of_mem he
    intro e he
    rw [entries, List.mem_cons, List.mem_append] at he
    rw [held_node]
    rcases he with rfl | he | he
    · rw [Arena.heldBy_cons_of_ne (Ne.symm hholder.1), Arena.heldBy_append, heldBy_held_self hn.1,
        heldBy_held_of_not_mem (Ne.symm hholder.1) hn.2, List.append_nil]
    · have hne : e.id ≠ holder := fun heq => hholder.2.1 (heq ▸ hid he)
      have hnot : e.id ∉ rest.nodes.map (·.id) := fun hmem => hapart _ (hid he) _ hmem rfl
      rw [Arena.heldBy_cons_of_ne hne, Arena.heldBy_append, heldBy_held_of_not_mem hne hnot,
        List.append_nil]
      exact ihb (List.nodup_cons.2 ⟨hn.1, hbody⟩) e he
    · have hne : e.id ≠ holder := fun heq => hholder.2.2 (heq ▸ hid he)
      have hne' : e.id ≠ n.id := fun heq => hn.2 (heq ▸ hid he)
      have hnot : e.id ∉ body.nodes.map (·.id) := fun hmem => hapart _ hmem _ (hid he) rfl
      rw [Arena.heldBy_cons_of_ne hne, Arena.heldBy_append, heldBy_held_of_not_mem hne' hnot,
        List.nil_append]
      exact ihr (List.nodup_cons.2 ⟨hholder.2.2, hrest⟩) e he

/-- The entries of a forest as rows are the rows of its nodes, if both tell the same children. -/
theorem map_ofEntry_entries {ps : Places} {holder depth : Nat} {f : Forest}
    (hchildren : ∀ e ∈ f.entries holder depth, e.children = heldBy ps e.id) :
    (f.entries holder depth).map (Arena.Cell.ofEntry (ps.length + 1)) =
      (f.held holder).map (Arena.rowOf ps) := by
  induction f generalizing holder depth with
  | nil => rfl
  | node n body rest ihb ihr =>
    rw [entries, List.forall_mem_cons, List.forall_mem_append] at hchildren
    obtain ⟨hn, hbody, hrest⟩ := hchildren
    rw [entries, held_node, List.map_cons, List.map_append, List.map_cons, List.map_append,
      ihb hbody, ihr hrest]
    congr 1
    rw [Arena.Cell.ofEntry, hn, Outline.Entry.next?]
    simp only [Nat.add_lt_add_iff_right]
    rfl

end Forest

/-- **The rows of a document are those of its nodes with their holders.** -/
theorem Arena.ofDocument_eq {d : Document} (h : (d.forest.held 0).Numbered) :
    ofDocument d = ⟨rows (d.forest.held 0), d.trimmed⟩ := by
  have hnodup : (0 :: d.forest.nodes.map (·.id)).Nodup := by
    rw [Forest.map_id_nodes h, List.nodup_cons]
    exact ⟨by simp, List.nodup_range'⟩
  have hroot : heldBy (d.forest.held 0) 0 = d.forest.siblings.map (·.id) :=
    Forest.heldBy_held_self (List.nodup_cons.1 hnodup).1
  have hchildren : ∀ e ∈ d.forest.entries 0 1, e.children = heldBy (d.forest.held 0) e.id :=
    Forest.children_entries hnodup
  have hentries := Forest.map_ofEntry_entries hchildren
  rw [Forest.length_held] at hentries
  rw [ofDocument, Document.outline, List.map_cons, Document.size, hentries, rows, row, hroot,
    Forest.length_held, Cell.ofEntry, Outline.Entry.next?]
  simp only [Nat.add_lt_add_iff_right]
  rfl

/-! ## Building -/

namespace Builder

open Arena (Site)

/-- The number of the node that holds the next one. -/
def holder (b : Builder) : Nat := given (fun _ n => n.id) 0 b.opened

/-- The nodes so far, each with its holder. -/
def held (b : Builder) : Arena.Places := withinOf (fun _ n => n.id) 0 b.before b.opened

/-- The nodes so far are numbered in their order, and so are those that come next. -/
structure Numbered (b : Builder) : Prop where
  count_eq : b.count = b.held.length + 1
  places : b.held.Numbered
  holder_le : b.holder ≤ b.held.length

/-- A builder with its rows. -/
def toSite (b : Builder) : Site := ⟨⟨Arena.rows b.held, false⟩, b.holder, b.count - 1⟩

theorem numbered_start : Numbered start := ⟨rfl, ⟨nofun⟩, Nat.le_refl 0⟩

/-- Going up from the holder is ending its branch: its row tells the node around it. -/
theorem Numbered.leave? {b : Builder} (h : b.Numbered) :
    b.toSite.leave? = b.leave?.map toSite ∧ ∀ b', b.leave? = some b' → b'.Numbered := by
  rw [Builder.leave?]
  split
  · next hop =>
    refine ⟨?_, by rintro _ ⟨⟩⟩
    rw [toSite, Builder.holder, hop]
    rfl
  · next n outer opened hop =>
    have hleave : b.leave? = some ⟨b.count, (n, toForest b.before) :: outer, opened⟩ := by
      rw [Builder.leave?, hop]
    have hheld : Builder.held ⟨b.count, (n, toForest b.before) :: outer, opened⟩ = b.held :=
      withinOf_leave _ _ hleave
    have hmem : (n, given (fun _ n => n.id) 0 opened) ∈ b.held := by
      rw [Builder.held, hop]
      exact List.mem_append_right _ (.head _)
    have hholder : b.holder = n.id := by rw [Builder.holder, hop, given]
    obtain ⟨hlt, hle⟩ := h.places.of_mem hmem
    constructor
    · simp only [Site.leave?, toSite, hholder, hheld, h.places.getElem?_rows hmem, Option.map_some]
      rfl
    · rintro _ ⟨⟩
      exact ⟨by rw [hheld]; exact h.count_eq, by rw [hheld]; exact h.places,
        by rw [hheld]; exact Nat.le_of_lt (Nat.lt_of_lt_of_le hlt hle)⟩

/-- A node is added to the rows as it is to the siblings. -/
theorem Numbered.add {b : Builder} (h : b.Numbered) (statement : Statement) (content : Text)
    (span : Span) :
    b.toSite.add statement content span = (b.add statement content span).toSite ∧
      (b.add statement content span).Numbered := by
  have hheld : (b.add statement content span).held =
      b.held ++ [(⟨b.count, statement, content, span⟩, b.holder)] :=
    withinOf_add _ _ b statement content span
  have hnumbered : (b.add statement content span).held.Numbered := by
    rw [hheld]
    exact h.places.concat h.count_eq h.holder_le
  have hcount : (b.add statement content span).count = b.count + 1 :=
    (placed_add b statement content span).2.1
  have hholder : (b.add statement content span).holder =
      if statement.kind.opens then b.count else b.holder := by
    rw [Builder.add]
    split <;> rfl
  have hlength : (b.add statement content span).held.length = b.held.length + 1 := by
    rw [hheld, List.length_append, List.length_singleton]
  constructor
  · have hsize : Arena.size ⟨Arena.rows b.held, false⟩ = b.count := by
      rw [h.count_eq]
      exact Arena.length_rows b.held
    have hlast : b.count - 1 = b.held.length := by rw [h.count_eq, Nat.add_sub_cancel]
    have happend := Arena.append_rows (hheld ▸ hnumbered) false
    simp only [Site.add, toSite, hsize, hlast, happend, hheld, hholder, hcount, Nat.add_sub_cancel]
  · refine ⟨by rw [hcount, hlength, h.count_eq], hnumbered, ?_⟩
    have hcount_eq := h.count_eq
    have hholder_le := h.holder_le
    rw [hholder, hlength]
    split <;> omega

/-- **A segment comes into the rows as it comes into the siblings.** -/
theorem Numbered.step {b : Builder} (h : b.Numbered) (segment : Segment) (span : Span) :
    b.toSite.step segment span = (b.step segment span).map toSite ∧
      ∀ b', b.step segment span = .ok b' → b'.Numbered := by
  cases segment with
  | text content =>
    obtain ⟨hadd, hnumbered⟩ := h.add .text content span
    refine ⟨?_, ?_⟩
    · rw [Site.step, hadd]
      rfl
    · rintro _ ⟨⟩
      exact hnumbered
  | tag body =>
    simp only [Site.step, Builder.step]
    split
    · obtain ⟨hleave, hleft⟩ := h.leave?
      rw [hleave]
      cases hb : b.leave? with
      | none => exact ⟨rfl, by rintro _ ⟨⟩⟩
      | some start =>
        obtain ⟨hadd, hnumbered⟩ := (hleft start hb).add (Statement.ofBody (Text.trim body))
          (Text.trim body) span
        refine ⟨congrArg Except.ok hadd, ?_⟩
        rintro _ ⟨⟩
        exact hnumbered
    · obtain ⟨hadd, hnumbered⟩ := h.add (Statement.ofBody (Text.trim body)) (Text.trim body) span
      refine ⟨congrArg Except.ok hadd, ?_⟩
      rintro _ ⟨⟩
      exact hnumbered

theorem Numbered.run {b : Builder} (h : b.Numbered) (segments : List (Segment × Span)) :
    b.toSite.run segments = (b.run segments).map (·.map toSite) ∧
      ∀ b', (b.run segments).result = .ok b' → b'.Numbered := by
  induction segments generalizing b with
  | nil =>
    refine ⟨rfl, ?_⟩
    rintro _ ⟨⟩
    exact h
  | cons head rest ih =>
    obtain ⟨segment, span⟩ := head
    obtain ⟨hstep, hnumbered⟩ := h.step segment span
    rw [Site.run, Builder.run, hstep]
    cases hb : b.step segment span with
    | error e => exact ⟨rfl, by rintro _ ⟨⟩⟩
    | ok b' =>
      obtain ⟨hrest, hrun⟩ := ih (hnumbered b' hb)
      refine ⟨?_, hrun⟩
      simp only [Except.map, hrest]
      rfl

end Builder

/-- What a builder has made at the end has the rows of the builder. -/
theorem Builder.Numbered.ofDocument_finish {b : Builder} (h : b.Numbered) :
    Arena.ofDocument ⟨b.finish, false⟩ = b.toSite.arena := by
  have hheld : b.finish.held 0 = b.held := Builder.within_closeAll _ 0 b.before b.opened
  have hplaces : (b.finish.held 0).Numbered := by
    rw [hheld]
    exact h.places
  rw [Arena.ofDocument_eq hplaces, hheld]
  rfl

/-- **The arena of a source is its document with the links written out.** -/
theorem Arena.read_eq (markers : Markers) (source : Text) :
    Arena.read markers source = (Document.read markers source).map (·.map ofDocument) := by
  obtain ⟨hrun, hnumbered⟩ := Builder.numbered_start.run (Segment.scan markers source)
  have hstart : Site.start = Builder.start.toSite := rfl
  rw [Arena.read, Document.read, hstart, hrun]
  simp only [Traced.map]
  congr 1
  cases hb : (Builder.start.run (Segment.scan markers source)).result with
  | error e => rfl
  | ok b => exact congrArg Except.ok (hnumbered b hb).ofDocument_finish.symm

/-! ## Numbered documents -/

/-- The nodes of a document are numbered in reading order, and held by nodes before them. -/
def Document.Numbered (d : Document) : Prop := (d.forest.held 0).Numbered

theorem Document.numbered_of_read {markers : Markers} {source : Text} {d : Document}
    (h : (Document.read markers source).result = .ok d) : d.Numbered := by
  obtain ⟨b, hrun, rfl⟩ := Document.exists_builder_of_read h
  have hheld : b.finish.held 0 = b.held := Builder.within_closeAll _ 0 b.before b.opened
  rw [Numbered, hheld]
  exact ((Builder.numbered_start.run _).2 b hrun).places

/-- Forests that are alike have their nodes in the same places. -/
theorem Forest.Alike.map_held {f g : Forest} (h : f.Alike g) (holder : Nat) :
    (f.held holder).map (fun p => (p.1.id, p.2)) =
      (g.held holder).map (fun p => (p.1.id, p.2)) := by
  induction h generalizing holder with
  | nil => rfl
  | node first _ _ ihb ihr =>
    rw [held_node, held_node, List.map_cons, List.map_cons, List.map_append, List.map_append,
      first.id, ihb, ihr]

theorem Document.Numbered.trim {d : Document} (h : d.Numbered) : d.trim.Numbered := by
  have hplaces := d.alike_trim.map_held 0
  refine ⟨fun {i place} hplace => ?_⟩
  have hmap := congrArg (·[i]?) hplaces
  simp only [List.getElem?_map, hplace, Option.map_some] at hmap
  obtain ⟨place', hplace', heq⟩ := Option.map_eq_some_iff.1 hmap.symm
  obtain ⟨hid, hholder⟩ := Prod.mk.inj heq
  rw [← hid, ← hholder]
  exact h.at_place hplace'

end Stencil
