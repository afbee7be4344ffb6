import Mathlib.Data.List.Forall2
import Stencil.Proofs.Document.Threads
import Stencil.Proofs.Text.FullLines
import Stencil.Proofs.Text.Quoted

/-!
# Dumps can be read back

A dump shows a node on a line and says by tabs alone where the node belongs.  Nothing of the tree is
lost that way.  A line falls apart into its tabs, the word for the kind of the node and its quoted
content (`Document.lineText_inj`), and no content holds a line end once it is quoted, so the lines
of a dump are the nodes in reading order (`Document.lines_dump`).  The node that holds another one
is the last of those before it that are indented less (`Forest.holdersFrom_entries`).

In an arena the depth of a node is the number of links from it up to the root.  The dump counts its
tabs on the way down instead, and both come to the same for the arena of a source.

## Main Definitions

* `Document.lineText` — a line of a dump without its end
* `Outline.holder?`, `Outline.holdersFrom` — which line of a dump a line stands below
* `Arena.Parsed` — the arenas of sources, trimmed or not
* `Arena.Dumped` — a text shows the nodes of an arena line by line
* `Arena.SameShape` — two arenas have the same kinds of nodes and the same nesting
-/

namespace Stencil

namespace NodeKind

theorem isAlpha_name (k : NodeKind) : ∀ c ∈ k.name, c.isAlpha = true := by
  have hall : k.name.all Char.isAlpha = true := by cases k <;> decide
  exact List.all_eq_true.1 hall

theorem name_inj {k k' : NodeKind} : k.name = k'.name ↔ k = k' := by
  refine ⟨fun h => ?_, congrArg name⟩
  have hall : ∀ k k' : NodeKind, k.name = k'.name → k = k' := by
    intro k k'
    cases k <;> cases k' <;> decide
  exact hall k k' h

end NodeKind

/-! ## Lines -/

namespace Document

/-- What stands behind the kind of a node in a dump. -/
def lineTail (contents : Bool) (content : Text) : Text :=
  if contents then [':', ' '] ++ Text.quoted content else []

/-- The line of a node in a dump without its end. -/
def lineText (contents : Bool) (depth : Nat) (kind : NodeKind) (content : Text) : Text :=
  List.replicate depth '\t' ++ kind.name ++ lineTail contents content

/-- A line of a dump holds no line end. -/
theorem not_mem_lineText (contents : Bool) (depth : Nat) (kind : NodeKind) (content : Text) :
    '\n' ∉ lineText contents depth kind content ∧
      '\r' ∉ lineText contents depth kind content := by
  have htabs : ∀ c ≠ '\t', c ∉ List.replicate depth '\t' := fun c hc h =>
    hc (List.eq_of_mem_replicate h)
  have hname : ∀ c : Char, c.isAlpha = false → c ∉ kind.name := fun c hc h => by
    rw [kind.isAlpha_name c h] at hc
    cases hc
  have htail : '\n' ∉ lineTail contents content ∧ '\r' ∉ lineTail contents content := by
    cases contents with
    | false => exact ⟨List.not_mem_nil, List.not_mem_nil⟩
    | true => simp [lineTail, Text.not_mem_quoted]
  simp [lineText, htabs, hname, htail]

/-- **A line of a dump falls apart in one way only.** -/
theorem lineText_inj {contents : Bool} {depth depth' : Nat} {kind kind' : NodeKind}
    {content content' : Text} :
    lineText contents depth kind content = lineText contents depth' kind' content' ↔
      depth = depth' ∧ kind = kind' ∧ (contents = true → content = content') := by
  constructor
  · intro h
    have htabs : ∀ n, ∀ c ∈ List.replicate n '\t', (c == '\t') = true := fun n c hc =>
      beq_iff_eq.2 (List.eq_of_mem_replicate hc)
    have hname : ∀ (k : NodeKind) (t : Text), ∀ c ∈ (k.name ++ t).head?, (c == '\t') = false := by
      intro k t
      cases k <;> rintro _ ⟨⟩ <;> rfl
    have htail : ∀ content, ∀ c ∈ (lineTail contents content).head?, c.isAlpha = false := by
      intro content
      cases contents with
      | false => nofun
      | true =>
        rintro _ ⟨⟩
        rfl
    simp only [lineText, List.append_assoc] at h
    obtain ⟨hdepth, hrest⟩ := Text.append_inj_of_run (htabs _) (htabs _) (hname _ _) (hname _ _) h
    obtain ⟨hkind, hrest⟩ := Text.append_inj_of_run kind.isAlpha_name kind'.isAlpha_name
      (htail _) (htail _) hrest
    refine ⟨?_, NodeKind.name_inj.1 hkind, ?_⟩
    · have hlength := congrArg List.length hdepth
      rwa [List.length_replicate, List.length_replicate] at hlength
    · rintro rfl
      exact Text.quoted_inj.1 (List.append_cancel_left hrest)
  · rintro ⟨rfl, rfl, hcontent⟩
    cases contents with
    | false => rfl
    | true => rw [hcontent rfl]

/-- The line of an entry in a dump. -/
def entryLine (contents : Bool) (e : Outline.Entry) : Text :=
  lineText contents e.depth e.kind e.content

theorem dumpForest_eq (contents : Bool) (parent depth : Nat) (f : Forest) :
    dumpForest contents depth f =
      ((f.entries parent depth).map (entryLine contents)).flatMap (· ++ ['\n']) := by
  induction f generalizing parent depth with
  | nil => rfl
  | node n body rest ihb ihr =>
    rw [dumpForest, ihb n.id, ihr parent, Forest.entries, List.map_cons, List.map_append,
      List.flatMap_cons, List.flatMap_append, List.append_assoc]
    rfl

/-- The dump of a document has a line for every node. -/
theorem dump_eq (contents : Bool) (d : Document) :
    d.dump contents = (d.outline.map (entryLine contents)).flatMap (· ++ ['\n']) := by
  rw [dump, dumpForest_eq contents 0 1, outline, List.map_cons, List.flatMap_cons]
  rfl

/-- **The lines of a dump are those of the nodes**, whatever the nodes hold. -/
theorem lines_dump (contents : Bool) (d : Document) :
    Text.lines (d.dump contents) = d.outline.map (entryLine contents) := by
  rw [dump_eq]
  refine Text.lines_flatMap_lineFeed ?_ ?_
  · intro line hline
    obtain ⟨e, -, rfl⟩ := List.mem_map.1 hline
    exact (not_mem_lineText _ _ _ _).1
  · intro line hline hlast
    obtain ⟨e, -, rfl⟩ := List.mem_map.1 hline
    exact (not_mem_lineText _ _ _ _).2 (List.mem_of_getLast? hlast)

/-- The lines of entries tell their depths, their kinds and what is shown of their contents. -/
theorem map_entryLine_inj {contents : Bool} {es es' : List Outline.Entry} :
    es.map (entryLine contents) = es'.map (entryLine contents) ↔
      es.map (·.depth) = es'.map (·.depth) ∧ es.map (·.kind) = es'.map (·.kind) ∧
        (contents = true → es.map (·.content) = es'.map (·.content)) := by
  induction es generalizing es' with
  | nil => cases es' <;> simp
  | cons e es ih =>
    cases es' with
    | nil => simp
    | cons e' es' =>
      simp only [List.map_cons, List.cons.injEq, entryLine, lineText_inj, ih]
      constructor
      · rintro ⟨⟨hdepth, hkind, hcontent⟩, hdepths, hkinds, hcontents⟩
        exact ⟨⟨hdepth, hdepths⟩, ⟨hkind, hkinds⟩, fun h => ⟨hcontent h, hcontents h⟩⟩
      · rintro ⟨⟨hdepth, hdepths⟩, ⟨hkind, hkinds⟩, hboth⟩
        exact ⟨⟨hdepth, hkind, fun h => (hboth h).1⟩, hdepths, hkinds, fun h => (hboth h).2⟩

theorem dump_inj {contents : Bool} {d d' : Document} :
    d.dump contents = d'.dump contents ↔
      d.outline.map (entryLine contents) = d'.outline.map (entryLine contents) := by
  constructor
  · intro h
    rw [← lines_dump, ← lines_dump, h]
  · intro h
    rw [dump_eq, dump_eq, h]

end Document

/-! ## Nesting by indentation -/

namespace Outline

/-- The number of the last line that is indented less than a given depth, among lines with the given
depths, the last of them first. -/
def holder? (depth : Nat) : List Nat → Option Nat
  | [] => none
  | d :: before => if d < depth then some before.length else holder? depth before

/-- Which line each line stands below, behind lines with the given depths. -/
def holdersFrom (before : List Nat) : List Nat → List (Option Nat)
  | [] => []
  | d :: ds => holder? d before :: holdersFrom (d :: before) ds

/-- What is not indented less holds no line. -/
theorem holder?_append {depth : Nat} {ds : List Nat} (h : ∀ d ∈ ds, depth ≤ d)
    (before : List Nat) : holder? depth (ds ++ before) = holder? depth before := by
  induction ds with
  | nil => rfl
  | cons d ds ih =>
    obtain ⟨hd, hds⟩ := List.forall_mem_cons.1 h
    rw [List.cons_append, holder?, if_neg (Nat.not_lt.2 hd), ih hds]

theorem holdersFrom_append (before ds ds' : List Nat) :
    holdersFrom before (ds ++ ds') =
      holdersFrom before ds ++ holdersFrom (ds.reverse ++ before) ds' := by
  induction ds generalizing before with
  | nil => rfl
  | cons d ds ih =>
    rw [List.cons_append, holdersFrom, ih, holdersFrom, List.cons_append, List.reverse_cons,
      List.append_assoc, List.singleton_append]

end Outline

namespace Forest

theorem le_depth_entries (f : Forest) (parent depth : Nat) :
    ∀ e ∈ f.entries parent depth, depth ≤ e.depth := by
  induction f generalizing parent depth with
  | nil => nofun
  | node n body rest ihb ihr =>
    rw [entries, List.forall_mem_cons, List.forall_mem_append]
    exact ⟨Nat.le_refl _, fun e he => Nat.le_of_succ_le (ihb n.id (depth + 1) e he),
      ihr parent depth⟩

/-- **Indentation alone says which node holds which.**  Nodes are numbered on from those before
them, the last of which with a smaller depth is their holder. -/
theorem holdersFrom_entries {f : Forest} {parent depth : Nat} {before : List Nat}
    (hids : f.nodes.map (·.id) = List.range' before.length f.size)
    (hholder : Outline.holder? depth before = some parent) :
    Outline.holdersFrom before ((f.entries parent depth).map (·.depth)) =
      (f.entries parent depth).map (·.parent) := by
  induction f generalizing parent depth before with
  | nil => rfl
  | node n body rest ihb ihr =>
    -- The numbers of the node, of what it holds and of what comes behind it.
    rw [nodes, List.map_cons, List.map_append, size, List.range'_succ, List.cons.injEq] at hids
    obtain ⟨hid, hids⟩ := hids
    have hsplit : List.range' (before.length + 1) (body.size + rest.size) =
        List.range' (before.length + 1) body.size ++
          List.range' (before.length + 1 + body.size) rest.size := by
      rw [← List.range'_append, Nat.one_mul]
    obtain ⟨hbody, hrest⟩ := List.append_inj (hids.trans hsplit) (by simp)
    have hdepths := body.le_depth_entries n.id (depth + 1)
    have hdeeper : ∀ d ∈ ((body.entries n.id (depth + 1)).map (·.depth)).reverse ++ [depth],
        depth ≤ d := by
      intro d hd
      rw [List.mem_append, List.mem_reverse, List.mem_map, List.mem_singleton] at hd
      rcases hd with ⟨e, he, rfl⟩ | rfl
      · exact Nat.le_of_succ_le (hdepths e he)
      · exact Nat.le_refl _
    have hinside : Outline.holdersFrom (depth :: before)
        ((body.entries n.id (depth + 1)).map (·.depth)) =
          (body.entries n.id (depth + 1)).map (·.parent) := by
      refine ihb hbody ?_
      rw [Outline.holder?, if_pos (Nat.lt_succ_self _), hid]
    have hbehind : Outline.holdersFrom
        (((body.entries n.id (depth + 1)).map (·.depth)).reverse ++ depth :: before)
        ((rest.entries parent depth).map (·.depth)) =
          (rest.entries parent depth).map (·.parent) := by
      refine ihr ?_ ?_
      · simpa [Nat.add_comm, Nat.add_left_comm, length_entries] using hrest
      · rw [← List.singleton_append, ← List.append_assoc, Outline.holder?_append hdeeper, hholder]
    rw [entries, List.map_cons, List.map_append, Outline.holdersFrom, hholder,
      Outline.holdersFrom_append, hinside, hbehind, List.map_cons, List.map_append]

end Forest

namespace Document.Numbered

variable {d d' : Document} (h : d.Numbered) (h' : d'.Numbered)
include h

/-- The tree of a document can be read off the depths of its nodes. -/
theorem map_parent_outline :
    d.outline.map (·.parent) = Outline.holdersFrom [] (d.outline.map (·.depth)) := by
  rw [outline, List.map_cons, List.map_cons, Outline.holdersFrom,
    Forest.holdersFrom_entries (Forest.map_id_nodes h) rfl]
  rfl

end Document.Numbered

/-! ## Shapes -/

namespace Arena

/-- Two arenas have the same kinds of nodes and the same nesting. -/
structure SameShape (a a' : Arena) : Prop where
  kinds : a.cells.map Cell.kind = a'.cells.map Cell.kind
  parents : a.cells.map (·.parent) = a'.cells.map (·.parent)
  children : a.cells.map (·.children) = a'.cells.map (·.children)

/-- What nodes hold goes by what holds them. -/
theorem map_children_rows {ps ps' : Places} (h : ps.Numbered) (h' : ps'.Numbered)
    (hparents : (rows ps).map (·.parent) = (rows ps').map (·.parent)) :
    (rows ps).map (·.children) = (rows ps').map (·.children) := by
  have hrows : ∀ ps : Places, (rows ps).map (·.parent) = none :: (ps.map (·.2)).map some ∧
      (rows ps).map (·.children) = heldBy ps 0 :: (ps.map (·.1.id)).map (heldBy ps) := by
    intro ps
    rw [rows, List.map_cons, List.map_cons, List.map_map, List.map_map, List.map_map, List.map_map]
    exact ⟨rfl, rfl⟩
  rw [(hrows ps).1, (hrows ps').1, List.cons.injEq] at hparents
  have hholders : ps.map (·.2) = ps'.map (·.2) :=
    List.map_injective_iff.2 (fun _ _ => Option.some.inj) hparents.2
  have hids : ps.map (·.1.id) = ps'.map (·.1.id) := by
    have hlength := congrArg List.length hholders
    rw [List.length_map, List.length_map] at hlength
    rw [h.map_id, h'.map_id, hlength]
  have hheld : ∀ (ps : Places) (id : Nat), heldBy ps id =
      (((ps.map (·.1.id)).zip (ps.map (·.2))).filter (·.2 == id)).map (·.1) := by
    intro ps id
    rw [heldBy, List.zip_map', List.filter_map, List.map_map]
    rfl
  have hheld' : heldBy ps = heldBy ps' := by
    funext id
    rw [hheld ps, hheld ps', hids, hholders]
  rw [(hrows ps).2, (hrows ps').2, hids, hheld']

theorem size_eq_of_parents {a a' : Arena}
    (h : a.cells.map (·.parent) = a'.cells.map (·.parent)) : a.size = a'.size := by
  have hlength := congrArg List.length h
  rwa [List.length_map, List.length_map] at hlength

/-- Depths go by what holds nodes. -/
theorem depth?_congr {a a' : Arena}
    (hparents : a.cells.map (·.parent) = a'.cells.map (·.parent)) (id : Nat) :
    a.depth? id = a'.depth? id := by
  -- A row is met in both arenas or in none, and leads up to the same node.
  have hstep : ∀ {β : Type} (id : Nat) (f : Option Nat → Option β),
      (a.cells[id]?.bind fun c => f c.parent) = a'.cells[id]?.bind fun c => f c.parent := by
    intro β id f
    have hsame := congrArg (·[id]?.bind f) hparents
    simp only [List.getElem?_map, Option.bind_map] at hsame
    exact hsame
  have hfollow : ∀ steps start,
      a.follow Cell.parent steps start = a'.follow Cell.parent steps start := by
    intro steps
    induction steps with
    | zero =>
      intro start
      cases start <;> rfl
    | succ steps ih =>
      intro start
      cases start with
      | none => rfl
      | some id =>
        simp only [follow, ih]
        exact hstep id fun parent => do
          let rest ← a'.follow Cell.parent steps parent
          return id :: rest
  simp only [depth?, hfollow, size_eq_of_parents hparents]
  exact hstep id fun parent => do
    let around ← a'.follow Cell.parent a'.size parent
    return around.length

section OfDocument

variable {d d' : Document} (h : d.Numbered) (h' : d'.Numbered)
include h

theorem map_depth_ofDocument :
    (List.range d.size).map (ofDocument d).depth? = (d.outline.map (·.depth)).map some := by
  rw [← h.map_id_outline, List.map_map, List.map_map]
  exact List.map_congr_left h.depth?_ofDocument

include h'

/-- **Documents with the same kinds at the same depths have the same shape.** -/
theorem sameShape_ofDocument_iff :
    (ofDocument d).SameShape (ofDocument d') ↔
      d.outline.map (·.depth) = d'.outline.map (·.depth) ∧
        d.outline.map (·.kind) = d'.outline.map (·.kind) := by
  have hkind : ∀ d : Document, (ofDocument d).cells.map Cell.kind = d.outline.map (·.kind) :=
    fun d => List.map_map
  have hparent : ∀ d : Document, (ofDocument d).cells.map (·.parent) = d.outline.map (·.parent) :=
    fun d => List.map_map
  constructor
  · intro hshape
    refine ⟨?_, by rw [← hkind, ← hkind, hshape.kinds]⟩
    refine List.map_injective_iff.2 (fun _ _ => Option.some.inj) ?_
    rw [← map_depth_ofDocument h, ← map_depth_ofDocument h', ← h'.size_ofDocument,
      ← size_eq_of_parents hshape.parents, ← h.size_ofDocument]
    exact List.map_congr_left fun id _ => depth?_congr hshape.parents id
  · rintro ⟨hdepths, hkinds⟩
    have hparents : (ofDocument d).cells.map (·.parent) = (ofDocument d').cells.map (·.parent) := by
      rw [hparent, hparent, h.map_parent_outline, h'.map_parent_outline, hdepths]
    refine ⟨by rw [hkind, hkind, hkinds], hparents, ?_⟩
    rw [ofDocument_eq h, ofDocument_eq h'] at hparents ⊢
    exact map_children_rows h h' hparents

end OfDocument

/-! ## Dumps of arenas -/

/-- The arenas of sources, and these with the white space around their tags taken away. -/
def Parsed (a : Arena) : Prop :=
  ∃ markers source untouched, (read markers source).result = .ok untouched ∧
    (a = untouched ∨ untouched.trim? = some a)

theorem Parsed.exists_document {a : Arena} (h : a.Parsed) : ∃ d, d.Numbered ∧ a = ofDocument d := by
  obtain ⟨markers, source, untouched, hread, rfl | htrim⟩ := h
  · obtain ⟨d, -, hd, rfl⟩ := exists_document_of_read hread
    exact ⟨d, hd, rfl⟩
  · obtain ⟨d, -, hd, rfl⟩ := exists_document_of_read hread
    rw [trim?_ofDocument hd] at htrim
    exact ⟨d.trim, hd.trim, (Option.some.inj htrim).symm⟩

/-- A text shows the nodes of an arena line by line, with as many tabs in front of each as there are
nodes around it. -/
structure Dumped (a : Arena) (contents : Bool) (text : Text) : Prop where
  /-- The text is the dump. -/
  dump : a.dump? contents = some text
  /-- Every line of it ends with a line feed. -/
  ended : text = (Text.lines text).flatMap (· ++ ['\n'])
  /-- The nodes stand in the order of the source. -/
  order : a.chain? = some (List.range a.size)
  /-- Each of them has its line. -/
  line : List.Forall₂ (fun id line => ∃ c depth, a.cells[id]? = some c ∧ a.depth? id = some depth ∧
    line = List.replicate depth '\t' ++ c.kind.name ++
      (if contents then [':', ' '] ++ Text.quoted c.content else [])) (List.range a.size)
    (Text.lines text)

theorem dumped_ofDocument {d : Document} (h : d.Numbered) (contents : Bool) :
    (ofDocument d).Dumped contents (d.dump contents) where
  dump := h.dump?_ofDocument contents
  ended := by rw [Document.lines_dump, ← Document.dump_eq]
  order := by rw [h.chain?_ofDocument, h.size_ofDocument]
  line := by
    rw [Document.lines_dump, h.size_ofDocument, ← h.map_id_outline, List.forall₂_map_left_iff,
      List.forall₂_map_right_iff, List.forall₂_same]
    exact fun e he => ⟨_, e.depth, h.shows_outline e he, h.depth?_ofDocument e he, rfl⟩

/-- **A dump is faithful.**  It has a line for every node of the arena of a source, in the order of
the source and under as many tabs as there are nodes around it, whatever the nodes hold.  So two
arenas have the same dump exactly if they have the same kinds of nodes and the same nesting, and the
same dump with contents exactly if the contents of the nodes are the same as well. -/
theorem dump_of_parsed {a a' : Arena} (h : a.Parsed) (h' : a'.Parsed) :
    (∀ contents, ∃ text, a.Dumped contents text) ∧
    (a.dump? false = a'.dump? false ↔ a.SameShape a') ∧
    (a.dump? true = a'.dump? true ↔
      a.SameShape a' ∧ a.cells.map (·.content) = a'.cells.map (·.content)) := by
  obtain ⟨d, hd, rfl⟩ := h.exists_document
  obtain ⟨d', hd', rfl⟩ := h'.exists_document
  have hcontent : ∀ d : Document,
      (ofDocument d).cells.map (·.content) = d.outline.map (·.content) := fun d => List.map_map
  refine ⟨fun contents => ⟨_, dumped_ofDocument hd contents⟩, ?_, ?_⟩
  · rw [hd.dump?_ofDocument, hd'.dump?_ofDocument, Option.some_inj, Document.dump_inj,
      Document.map_entryLine_inj, sameShape_ofDocument_iff hd hd']
    simp
  · rw [hd.dump?_ofDocument, hd'.dump?_ofDocument, Option.some_inj, Document.dump_inj,
      Document.map_entryLine_inj, sameShape_ofDocument_iff hd hd', hcontent, hcontent, and_assoc]
    simp

/-- Two sources of the same shape, with line ends, tabs, quotes and backslashes in the one. -/
theorem dump_of_parsed_same_shape :
    ∃ a a', (read .standard "a\tb\n{% if(x) %}\"\\\r\n{% end %}".toList).result = .ok a ∧
      (read .standard "c{% if(y) %}d{% end %}".toList).result = .ok a' ∧
      (∃ text, a.Dumped true text) ∧ a.dump? false = a'.dump? false ∧
      a.dump? true ≠ a'.dump? true := by
  obtain ⟨a, hread, hkinds, hparents, hchildren, hcontents⟩ := exists_ok_of_toOption
    (r := (read .standard "a\tb\n{% if(x) %}\"\\\r\n{% end %}".toList).result)
    (P := fun a => a.cells.map Cell.kind = [.root, .text, .ifTrue, .text, .close] ∧
      a.cells.map (·.parent) = [none, some 0, some 0, some 2, some 0] ∧
      a.cells.map (·.children) = [[1, 2, 4], [], [3], [], []] ∧
      a.cells.map (·.content) = [[], "a\tb\n".toList, "if(x)".toList, "\"\\\r\n".toList,
        "end".toList])
    (by decide +kernel)
  obtain ⟨a', hread', hkinds', hparents', hchildren', hcontents'⟩ := exists_ok_of_toOption
    (r := (read .standard "c{% if(y) %}d{% end %}".toList).result)
    (P := fun a => a.cells.map Cell.kind = [.root, .text, .ifTrue, .text, .close] ∧
      a.cells.map (·.parent) = [none, some 0, some 0, some 2, some 0] ∧
      a.cells.map (·.children) = [[1, 2, 4], [], [3], [], []] ∧
      a.cells.map (·.content) = [[], "c".toList, "if(y)".toList, "d".toList, "end".toList])
    (by decide +kernel)
  obtain ⟨hdumped, hbare, hfull⟩ := dump_of_parsed ⟨_, _, a, hread, .inl rfl⟩
    ⟨_, _, a', hread', .inl rfl⟩
  refine ⟨a, a', hread, hread', hdumped true, hbare.2 ?_, fun hsame => ?_⟩
  · exact ⟨hkinds.trans hkinds'.symm, hparents.trans hparents'.symm,
      hchildren.trans hchildren'.symm⟩
  · have hdiffer := (hfull.1 hsame).2
    rw [hcontents, hcontents'] at hdiffer
    exact absurd hdiffer (by decide)

end Arena

end Stencil
