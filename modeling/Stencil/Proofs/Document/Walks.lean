import Mathlib.Data.List.Nodup
import Mathlib.Data.List.Perm.Subperm
import Stencil.Proofs.Document.Arena

/-!
# Walks along the links

The chain of an arena and the walk over what nodes hold are two different things: the one follows a
link that was set when the next node came, the other keeps a stack of nodes that it has still to
visit.  In a document whose nodes are numbered as they come both meet every node once, in the order
of creation (`Arena.threaded_ofDocument`).

The chain and the way up to the root follow one kind of links each.  Where such links have an end,
no node comes twice, and so the bound on the steps of a walk changes nothing (`Arena.follow_size`).
On the walk over what nodes hold, the stack is at any time a list of siblings in front of what was
there before (`Arena.preorderFrom_siblings`), so that the induction is the one over the forest.

## Main Definitions

* `Arena.Threaded` — the links of an arena fit together, and all walks along them end
-/

namespace Stencil

namespace Arena

/-! ## One step of a walk -/

section Step

variable {a : Arena} {link : Cell → Option Nat} {id steps : Nat} {c : Cell}

@[simp] theorem follow_none : a.follow link steps none = some [] := by cases steps <;> rfl

theorem follow_some (h : a.cells[id]? = some c) :
    a.follow link (steps + 1) (some id) = (a.follow link steps (link c)).map (id :: ·) := by
  rw [follow, h, Option.bind_eq_bind, Option.bind_some]
  cases a.follow link steps (link c) <;> rfl

theorem depth?_of_follow (h : a.cells[id]? = some c) {around : List Nat}
    (hparent : a.follow Cell.parent a.size c.parent = some around) :
    a.depth? id = some around.length := by
  rw [depth?, h, Option.bind_eq_bind, Option.bind_some, hparent]
  rfl

@[simp] theorem preorderFrom_nil : a.preorderFrom steps [] = some [] := by cases steps <;> rfl

theorem preorderFrom_cons (h : a.cells[id]? = some c) (stack : List Nat) :
    a.preorderFrom (steps + 1) (id :: stack) =
      (a.preorderFrom steps (c.children ++ stack)).map (id :: ·) := by
  rw [preorderFrom, h, Option.bind_eq_bind, Option.bind_some]
  cases a.preorderFrom steps (c.children ++ stack) <;> rfl

theorem dumpNode_succ (h : a.cells[id]? = some c) {contents : Bool} {depth : Nat}
    {inside : List Text}
    (hinside : c.children.mapM (a.dumpNode contents steps (depth + 1)) = some inside) :
    a.dumpNode contents (steps + 1) depth id =
      some (Document.dumpLine contents depth c.kind c.content ++ inside.flatten) := by
  rw [dumpNode, h, Option.bind_eq_bind, Option.bind_some, hinside]
  rfl

end Step

/-! ## Links that are followed to their end -/

section Follow

variable {a : Arena} {link : Cell → Option Nat} {steps : Nat} {start : Option Nat} {ids : List Nat}

/-- What comes first where links are followed to their end. -/
theorem follow_cases (h : a.follow link steps start = some ids) :
    start = none ∧ ids = [] ∨
      ∃ id c left rest, start = some id ∧ a.cells[id]? = some c ∧ ids = id :: rest ∧
        a.follow link left (link c) = some rest := by
  cases start with
  | none => exact .inl ⟨rfl, (Option.some.inj (follow_none.symm.trans h)).symm⟩
  | some id =>
    cases steps with
    | zero => cases h
    | succ left =>
      rw [follow] at h
      obtain ⟨c, hc, h⟩ := Option.bind_eq_some_iff.1 h
      obtain ⟨rest, hrest, h⟩ := Option.bind_eq_some_iff.1 h
      exact .inr ⟨id, c, left, rest, rfl, hc, (Option.some.inj h).symm, hrest⟩

/-- The end is found in as many steps as there are nodes on the way. -/
theorem follow_of_length_le (h : a.follow link steps start = some ids) {more : Nat}
    (hmore : ids.length ≤ more) : a.follow link more start = some ids := by
  induction ids generalizing start steps more with
  | nil =>
    obtain ⟨rfl, -⟩ | ⟨_, _, _, _, -, -, hids, -⟩ := follow_cases h
    · exact follow_none
    · cases hids
  | cons id rest ih =>
    obtain ⟨-, hids⟩ | ⟨_, c, left, _, rfl, hc, ⟨⟩, hrest⟩ := follow_cases h
    · cases hids
    · rw [List.length_cons] at hmore
      obtain ⟨more, rfl⟩ := Nat.exists_eq_add_of_le' (Nat.le_trans (Nat.le_add_left 1 _) hmore)
      rw [follow_some hc, ih hrest (Nat.le_of_succ_le_succ hmore)]
      rfl

/-- The end does not depend on the steps that may be taken. -/
theorem follow_unique {ids' : List Nat} {steps' : Nat} (h : a.follow link steps start = some ids)
    (h' : a.follow link steps' start = some ids') : ids = ids' := by
  have hids := follow_of_length_le h (Nat.le_max_left ids.length ids'.length)
  have hids' := follow_of_length_le h' (Nat.le_max_right ids.length ids'.length)
  exact Option.some.inj (hids.symm.trans hids')

/-- From a node on the way, what is left of the way leads to the end. -/
theorem exists_follow_of_append {front back : List Nat} {id : Nat}
    (h : a.follow link steps start = some (front ++ id :: back)) :
    ∃ left, a.follow link left (some id) = some (id :: back) := by
  induction front generalizing start steps with
  | nil =>
    obtain ⟨-, hids⟩ | ⟨_, _, _, _, rfl, -, ⟨⟩, -⟩ := follow_cases h
    · cases hids
    · exact ⟨steps, h⟩
  | cons first front ih =>
    obtain ⟨-, hids⟩ | ⟨_, _, _, _, -, -, ⟨⟩, hrest⟩ := follow_cases h
    · cases hids
    · exact ih hrest

/-- Links that have an end meet nodes only, and none of them twice: it would come again and
again. -/
theorem nodup_of_follow (h : a.follow link steps start = some ids) :
    ids.Nodup ∧ ∀ id ∈ ids, id < a.size := by
  induction ids generalizing start steps with
  | nil => exact ⟨List.nodup_nil, by simp⟩
  | cons id rest ih =>
    obtain ⟨-, hids⟩ | ⟨_, c, left, _, rfl, hc, ⟨⟩, hrest⟩ := follow_cases h
    · cases hids
    · obtain ⟨hnodup, hlt⟩ := ih hrest
      refine ⟨List.nodup_cons.2 ⟨fun hmem => ?_, hnodup⟩, List.forall_mem_cons.2 ⟨?_, hlt⟩⟩
      · obtain ⟨front, back, rfl⟩ := List.append_of_mem hmem
        obtain ⟨_, hagain⟩ := exists_follow_of_append hrest
        have hlength := congrArg List.length (follow_unique h hagain)
        rw [List.length_cons, List.length_cons, List.length_append, List.length_cons] at hlength
        omega
      · exact (List.getElem?_eq_some_iff.1 hc).1

/-- **Links that have an end have it in as many steps as there are nodes.** -/
theorem follow_size (h : a.follow link steps start = some ids) :
    a.follow link a.size start = some ids := by
  obtain ⟨hnodup, hlt⟩ := nodup_of_follow h
  refine follow_of_length_le h ?_
  have hsubset : ids ⊆ List.range a.size := fun id hid => List.mem_range.2 (hlt id hid)
  have hlength := (hnodup.subperm hsubset).length_le
  rwa [List.length_range] at hlength

end Follow

/-! ## Walks over a forest -/

/-- The entries have their rows in an arena. -/
def Shows (a : Arena) (count : Nat) (es : List Outline.Entry) : Prop :=
  ∀ e ∈ es, a.cells[e.id]? = some (Cell.ofEntry count e)

section Forest

variable {a : Arena} {count : Nat} {f : Forest} {parent depth : Nat}

theorem Shows.node {n : Node} {body rest : Forest}
    (h : a.Shows count ((Forest.node n body rest).entries parent depth)) :
    a.cells[n.id]? = some (Cell.ofEntry count ⟨n.id, some n.statement, n.content, n.span,
        some parent, body.siblings.map (·.id), depth⟩) ∧
      a.Shows count (body.entries n.id (depth + 1)) ∧
      a.Shows count (rest.entries parent depth) := by
  rw [Shows, Forest.entries, List.forall_mem_cons, List.forall_mem_append] at h
  exact h

/-- **With siblings on top of the stack, all that they hold is visited before what is below
them.** -/
theorem preorderFrom_siblings (h : a.Shows count (f.entries parent depth)) (steps : Nat)
    (stack : List Nat) :
    a.preorderFrom (steps + f.size) (f.siblings.map (·.id) ++ stack) =
      (a.preorderFrom steps stack).map (f.nodes.map (·.id) ++ ·) := by
  induction f generalizing parent depth steps stack with
  | nil => exact Option.map_id'.symm
  | node n body rest ihb ihr =>
    obtain ⟨hn, hbody, hrest⟩ := h.node
    have hsteps : steps + (Forest.node n body rest).size = steps + rest.size + body.size + 1 := by
      rw [Forest.size]
      omega
    rw [hsteps, Forest.siblings, List.map_cons, List.cons_append, preorderFrom_cons hn,
      Cell.ofEntry, ihb hbody, ihr hrest, Option.map_map, Option.map_map, Forest.nodes]
    congr 1
    funext ids
    simp

/-- The nodes of a forest are one deeper than what holds them, and so on below. -/
theorem depth?_of_mem_entries (h : a.Shows count (f.entries parent depth)) {steps : Nat}
    {around : List Nat} (hparent : a.follow Cell.parent steps (some parent) = some around)
    (hdepth : around.length = depth) :
    ∀ e ∈ f.entries parent depth, a.depth? e.id = some e.depth := by
  induction f generalizing parent depth steps around with
  | nil => nofun
  | node n body rest ihb ihr =>
    obtain ⟨hn, hbody, hrest⟩ := h.node
    have hbelow : a.follow Cell.parent (steps + 1) (some n.id) = some (n.id :: around) := by
      rw [follow_some hn, Cell.ofEntry, hparent]
      rfl
    rw [Forest.entries, List.forall_mem_cons, List.forall_mem_append]
    refine ⟨?_, ihb hbody hbelow (congrArg (· + 1) hdepth), ihr hrest hparent hdepth⟩
    rw [depth?_of_follow hn (follow_size hparent), hdepth]

/-- The dumps of siblings along the links make up that of the forest. -/
theorem exists_dumpNode_siblings (h : a.Shows count (f.entries parent depth)) (contents : Bool)
    {steps : Nat} (hsteps : f.size ≤ steps) :
    ∃ texts, (f.siblings.map (·.id)).mapM (a.dumpNode contents steps depth) = some texts ∧
      texts.flatten = Document.dumpForest contents depth f := by
  induction f generalizing parent depth steps with
  | nil => exact ⟨[], rfl, rfl⟩
  | node n body rest ihb ihr =>
    obtain ⟨hn, hbody, hrest⟩ := h.node
    rw [Forest.size] at hsteps
    obtain ⟨left, rfl⟩ : ∃ left, steps = left + 1 := ⟨steps - 1, by omega⟩
    obtain ⟨inside, hinside, hflat⟩ := ihb hbody (show body.size ≤ left by omega)
    obtain ⟨texts, htexts, hflat'⟩ := ihr hrest (show rest.size ≤ left + 1 by omega)
    refine ⟨(Document.dumpLine contents depth n.kind n.content ++ inside.flatten) :: texts, ?_, ?_⟩
    · rw [Forest.siblings, List.map_cons, List.mapM_cons, dumpNode_succ hn hinside, htexts]
      rfl
    · rw [List.flatten_cons, hflat, hflat']
      rfl

end Forest

end Arena

/-! ## Walks over a document -/

namespace Document.Numbered

open Arena (ofDocument)

variable {d : Document} (h : d.Numbered)
include h

/-- The entries of an outline are numbered from the root on. -/
theorem map_id_outline : d.outline.map (·.id) = List.range d.size := by
  rw [outline, List.map_cons, Forest.map_id_entries, Forest.map_id_nodes h, size,
    List.range_eq_range', List.range'_succ]

/-- Every entry of a document has its row. -/
theorem shows_outline : (ofDocument d).Shows d.size d.outline := by
  intro e he
  obtain ⟨i, hi⟩ := List.mem_iff_getElem?.1 he
  have hid : (d.outline.map (·.id))[i]? = some e.id := by rw [List.getElem?_map, hi]; rfl
  rw [h.map_id_outline] at hid
  obtain ⟨hlt, heq⟩ := List.getElem?_eq_some_iff.1 hid
  rw [List.getElem_range] at heq
  subst heq
  rw [ofDocument, List.getElem?_map, hi]
  rfl

theorem shows_entries : (ofDocument d).Shows d.size (d.forest.entries 0 1) :=
  fun e he => h.shows_outline e (List.mem_cons_of_mem _ he)

theorem size_ofDocument : (ofDocument d).size = d.size := by
  have hlength := congrArg List.length h.map_id_outline
  rw [List.length_map, List.length_range] at hlength
  rw [Arena.size, ofDocument, List.length_map, hlength]

theorem preorder?_ofDocument : (ofDocument d).preorder? = some (List.range d.size) := by
  have hroot := h.shows_outline _ (.head _)
  have hsteps : (ofDocument d).size = 0 + d.forest.size + 1 := by
    rw [h.size_ofDocument, Nat.zero_add, size]
  rw [Arena.preorder?, hsteps, Arena.preorderFrom_cons hroot, Arena.Cell.ofEntry,
    Arena.preorderFrom_siblings h.shows_entries, Arena.preorderFrom_nil, ← h.map_id_outline,
    outline, List.map_cons, Forest.map_id_entries, Option.map_some, Option.map_some,
    List.append_nil]

theorem depth?_ofDocument : ∀ e ∈ d.outline, (ofDocument d).depth? e.id = some e.depth := by
  have hroot := h.shows_outline _ (.head _)
  have haround : (ofDocument d).follow Arena.Cell.parent 1 (some 0) = some [0] := by
    rw [Arena.follow_some hroot, Arena.Cell.ofEntry, Arena.follow_none]
    rfl
  rw [outline, List.forall_mem_cons]
  exact ⟨Arena.depth?_of_follow hroot Arena.follow_none,
    Arena.depth?_of_mem_entries h.shows_entries haround rfl⟩

/-- The dump along the links is the dump of the document. -/
theorem dump?_ofDocument (contents : Bool) :
    (ofDocument d).dump? contents = some (d.dump contents) := by
  have hroot := h.shows_outline _ (.head _)
  obtain ⟨inside, hinside, hflat⟩ :=
    Arena.exists_dumpNode_siblings h.shows_entries contents (Nat.le_refl _)
  rw [Arena.dump?, h.size_ofDocument, size, Arena.dumpNode_succ hroot hinside, hflat]
  rfl

/-- The row at a number below the size is that of an entry with the number. -/
theorem exists_entry {id : Nat} (hid : id < d.size) :
    ∃ e ∈ d.outline, e.id = id ∧ (ofDocument d).cells[id]? = some (.ofEntry d.size e) := by
  have hmem : id ∈ d.outline.map (·.id) := by
    rw [h.map_id_outline]
    exact List.mem_range.2 hid
  obtain ⟨e, he, rfl⟩ := List.mem_map.1 hmem
  exact ⟨e, he, rfl, h.shows_outline e he⟩

theorem chain?_ofDocument : (ofDocument d).chain? = some (List.range d.size) := by
  -- From any number on the chain goes through all numbers that are left.
  have hfrom : ∀ left id, id + left + 1 = d.size →
      (ofDocument d).follow Arena.Cell.next (left + 1) (some id) =
        some (List.range' id (left + 1)) := by
    intro left
    induction left with
    | zero =>
      intro id hid
      obtain ⟨e, -, rfl, hcell⟩ := h.exists_entry (show id < d.size by omega)
      have hnext : e.next? d.size = none := if_neg (by omega)
      rw [Arena.follow_some hcell, Arena.Cell.ofEntry, hnext, Arena.follow_none]
      rfl
    | succ left ih =>
      intro id hid
      obtain ⟨e, -, rfl, hcell⟩ := h.exists_entry (show id < d.size by omega)
      have hnext : e.next? d.size = some (e.id + 1) := if_pos (by omega)
      rw [Arena.follow_some hcell, Arena.Cell.ofEntry, hnext, ih (e.id + 1) (by omega)]
      rfl
  rw [Arena.chain?, h.size_ofDocument, size, hfrom d.forest.size 0 (by rw [size]; omega),
    List.range_eq_range']

end Document.Numbered

/-! ## Links -/

namespace Arena

/-- The links of an arena fit together: the chain and the walk over what nodes hold go through all
nodes in the order of creation. -/
structure Threaded (a : Arena) : Prop where
  /-- The chain visits every node once, in the order of creation. -/
  chain : a.chain? = some (List.range a.size)
  /-- A walk that visits nodes before what they hold does the same. -/
  preorder : a.preorder? = some (List.range a.size)
  /-- A node comes behind another one exactly if the other comes in front of it. -/
  prev_eq_iff : ∀ i j,
    a.cells[j]?.bind Cell.prev = some i ↔ a.cells[i]?.bind Cell.next = some j
  /-- The root has no holder, and every other node has one that was created before it. -/
  parent : ∀ {id : Nat} {c : Cell}, a.cells[id]? = some c →
    id = 0 ∧ c.parent = none ∨ ∃ holder < id, c.parent = some holder
  /-- A node is listed once by its holder, and nowhere else. -/
  count_children : ∀ {holder id : Nat} {c q : Cell}, a.cells[id]? = some c →
    a.cells[holder]? = some q → q.children.count id = if c.parent = some holder then 1 else 0
  /-- What is listed is a node. -/
  children : ∀ {holder : Nat} {q : Cell}, a.cells[holder]? = some q → ∀ id ∈ q.children, id < a.size
  /-- The way up from a node ends. -/
  depth : ∀ id < a.size, ∃ depth, a.depth? id = some depth

/-- All that a row among numbered nodes says about its node. -/
theorem Places.Numbered.row_cases {ps : Places} (h : ps.Numbered) {id : Nat} {c : Cell}
    (hc : (rows ps)[id]? = some c) :
    id ≤ ps.length ∧ c.prev = (if id = 0 then none else some (id - 1)) ∧
      c.next = (if id < ps.length then some (id + 1) else none) ∧ c.children = heldBy ps id ∧
      (id = 0 ∧ c.parent = none ∨
        ∃ place ∈ ps, place.1.id = id ∧ place.2 < id ∧ c.parent = some place.2) := by
  cases id with
  | zero =>
    obtain rfl := Option.some.inj hc
    exact ⟨Nat.zero_le _, rfl, rfl, rfl, .inl ⟨rfl, rfl⟩⟩
  | succ i =>
    rw [rows, List.getElem?_cons_succ, List.getElem?_map] at hc
    obtain ⟨place, hplace, rfl⟩ := Option.map_eq_some_iff.1 hc
    obtain ⟨hlt, -⟩ := List.getElem?_eq_some_iff.1 hplace
    obtain ⟨hid, hholder⟩ := h.at_place hplace
    refine ⟨hlt, ?_, ?_, ?_, .inr ⟨place, List.mem_of_getElem? hplace, hid, ?_, rfl⟩⟩
    · rw [rowOf, hid, row]
    · rw [rowOf, hid, row]
    · rw [rowOf, hid, row]
    · omega

theorem Places.Numbered.bind_prev {ps : Places} (h : ps.Numbered) (id : Nat) :
    (rows ps)[id]?.bind Cell.prev = if 0 < id ∧ id ≤ ps.length then some (id - 1) else none := by
  cases hc : (rows ps)[id]? with
  | none =>
    rw [List.getElem?_eq_none_iff, length_rows] at hc
    rw [Option.bind_none, if_neg (by omega)]
  | some c =>
    obtain ⟨hle, hprev, -⟩ := h.row_cases hc
    rw [Option.bind_some, hprev]
    rcases Nat.eq_zero_or_pos id with rfl | hpos
    · rw [if_pos rfl, if_neg (by omega)]
    · rw [if_neg (Nat.ne_of_gt hpos), if_pos ⟨hpos, hle⟩]

theorem Places.Numbered.bind_next {ps : Places} (h : ps.Numbered) (id : Nat) :
    (rows ps)[id]?.bind Cell.next = if id < ps.length then some (id + 1) else none := by
  cases hc : (rows ps)[id]? with
  | none =>
    rw [List.getElem?_eq_none_iff, length_rows] at hc
    rw [Option.bind_none, if_neg (by omega)]
  | some c =>
    obtain ⟨-, -, hnext, -⟩ := h.row_cases hc
    rw [Option.bind_some, hnext]

/-- A number is listed once by the holder of its node. -/
theorem Places.Numbered.count_heldBy {ps : Places} (h : ps.Numbered) {place : Node × Nat}
    (hplace : place ∈ ps) (holder : Nat) :
    (heldBy ps holder).count place.1.id = if place.2 = holder then 1 else 0 := by
  have hids : (ps.map (·.1.id)).Nodup := by
    rw [h.map_id]
    exact List.nodup_range'
  split
  · next hholder =>
    refine List.count_eq_one_of_mem ?_ ?_
    · exact hids.sublist (List.filter_sublist.map _)
    · exact List.mem_map_of_mem (List.mem_filter.2 ⟨hplace, beq_iff_eq.2 hholder⟩)
  · next hholder =>
    refine List.count_eq_zero.2 fun hmem => ?_
    obtain ⟨other, hother, heq⟩ := List.mem_map.1 hmem
    obtain ⟨hin, hheld⟩ := List.mem_filter.1 hother
    have hsame : other = place := List.inj_on_of_nodup_map hids hin hplace heq
    exact hholder (hsame ▸ beq_iff_eq.1 hheld)

theorem exists_place_of_mem_heldBy {ps : Places} {holder id : Nat} (h : id ∈ heldBy ps holder) :
    ∃ place ∈ ps, place.1.id = id := by
  obtain ⟨place, hplace, hid⟩ := List.mem_map.1 h
  exact ⟨place, (List.mem_filter.1 hplace).1, hid⟩

/-- **The links of a numbered document fit together.** -/
theorem threaded_ofDocument {d : Document} (h : d.Numbered) : (ofDocument d).Threaded := by
  have hplaces : (d.forest.held 0).Numbered := h
  have hcells : (ofDocument d).cells = rows (d.forest.held 0) :=
    congrArg Arena.cells (ofDocument_eq hplaces)
  have hsize : (ofDocument d).size = (d.forest.held 0).length + 1 := by
    rw [size, hcells, length_rows]
  refine
    { chain := by rw [h.chain?_ofDocument, h.size_ofDocument]
      preorder := by rw [h.preorder?_ofDocument, h.size_ofDocument]
      prev_eq_iff := fun i j => ?prev
      parent := fun {id c} hc => ?parent
      count_children := fun {holder id c q} hc hq => ?count
      children := fun {holder q} hq id hmem => ?children
      depth := fun id hlt => ?depth }
  case prev =>
    rw [hcells, hplaces.bind_prev, hplaces.bind_next]
    split <;> split <;> simp <;> omega
  case parent =>
    rw [hcells] at hc
    obtain ⟨-, -, -, -, hroot | ⟨place, -, -, hlt, hparent⟩⟩ := hplaces.row_cases hc
    · exact .inl hroot
    · exact .inr ⟨place.2, hlt, hparent⟩
  case count =>
    rw [hcells] at hc hq
    obtain ⟨-, -, -, hchildren, -⟩ := hplaces.row_cases hq
    rw [hchildren]
    obtain ⟨-, -, -, -, ⟨rfl, hparent⟩ | ⟨place, hplace, rfl, -, hparent⟩⟩ := hplaces.row_cases hc
    · rw [hparent, if_neg nofun]
      refine List.count_eq_zero.2 fun hmem => ?_
      obtain ⟨place, hplace, hzero⟩ := exists_place_of_mem_heldBy hmem
      have hpos := (hplaces.of_mem hplace).1
      omega
    · simp only [hparent, hplaces.count_heldBy hplace, Option.some_inj]
  case children =>
    rw [hcells] at hq
    obtain ⟨-, -, -, hchildren, -⟩ := hplaces.row_cases hq
    rw [hchildren] at hmem
    obtain ⟨place, hplace, rfl⟩ := exists_place_of_mem_heldBy hmem
    rw [hsize]
    exact Nat.lt_succ_of_le (hplaces.of_mem hplace).2
  case depth =>
    rw [h.size_ofDocument] at hlt
    obtain ⟨e, he, rfl, -⟩ := h.exists_entry hlt
    exact ⟨e.depth, h.depth?_ofDocument e he⟩

end Arena

end Stencil
