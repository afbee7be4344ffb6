import Stencil.Proofs.Document.Walks

/-!
# Trimming along the links

A document is trimmed as the list of its nodes, in reading order.  An arena is trimmed tag by tag in
the order of a walk, and every tag looks for the texts next to it along its own links.  The two come
to the same (`Arena.trim?_ofDocument`): while the tags take their lines nothing but contents
changes, so an arena on the way is the rows of the document with other nodes in them
(`Arena.withNodes`), and a tag that takes its lines there takes them in the list of these nodes.

With that, what is known of documents is known of arenas before and after trimming; the main
statement here is that their walks coincide (`Arena.threaded_of_read`).

## Main Definitions

* `Arena.withNodes` — the rows of a document with other nodes in place of its own
-/

namespace Stencil

namespace Node

/-- The content of a node that is a text. -/
def text? (n : Node) : Option Text := if n.isText then some n.content else none

/-- Changes the content of a node that is a text. -/
def mapText (f : Text → Text) (n : Node) : Node :=
  if n.isText then { n with content := f n.content } else n

theorem all_text? (p : Text → Bool) (n : Node) :
    n.text?.all p = (!n.isText || p n.content) := by
  rw [text?]
  cases n.isText <;> simp

end Node

namespace Arena

/-- A row with the statement and the content of a node. -/
def Cell.withNode (c : Cell) (n : Node) : Cell :=
  { c with statement := some n.statement, content := n.content }

/-- The rows of a document with other nodes in place of its own, while it is being trimmed. -/
def withNodes (d : Document) (ns : List Node) : Arena where
  cells := Cell.ofEntry d.size ⟨0, none, [], .nowhere, none, d.forest.siblings.map (·.id), 0⟩ ::
    List.zipWith Cell.withNode ((d.forest.entries 0 1).map (Cell.ofEntry d.size)) ns
  trimmed := true

/-- The rows of a forest are those of one that is alike, with its own nodes. -/
theorem map_ofEntry_of_alike {f g : Forest} (h : f.Alike g) (count parent depth : Nat) :
    (f.entries parent depth).map (Cell.ofEntry count) =
      List.zipWith Cell.withNode ((g.entries parent depth).map (Cell.ofEntry count)) f.nodes := by
  induction h generalizing parent depth with
  | nil => rfl
  | @node m n body body' rest rest' first inside _ ihb ihr =>
    have hlength : ((body'.entries n.id (depth + 1)).map (Cell.ofEntry count)).length =
        body.nodes.length := by
      rw [List.length_map, Forest.length_entries, Forest.length_nodes, inside.size_eq]
    rw [Forest.entries, Forest.entries, Forest.nodes, List.map_cons, List.map_cons, List.map_append,
      List.map_append, List.zipWith_cons_cons, List.zipWith_append hlength, ihb, ihr, first.id,
      inside.map_id_siblings]
    congr 1
    rw [Cell.withNode, Cell.ofEntry, Cell.ofEntry, first.span]
    rfl

/-- A document that is like another one has its rows with its own nodes. -/
theorem ofDocument_of_alike {d d' : Document} (h : d'.forest.Alike d.forest)
    (htrimmed : d'.trimmed = true) : ofDocument d' = withNodes d d'.forest.nodes := by
  have hsize : d'.size = d.size := congrArg (· + 1) h.size_eq
  rw [ofDocument, withNodes, Document.outline, List.map_cons, hsize,
    map_ofEntry_of_alike h d.size 0 1, h.map_id_siblings, htrimmed]

section WithNodes

variable {d : Document} (h : d.Numbered) {ns : List Node} (hlength : ns.length = d.forest.size)
include h hlength

/-- The row of a node has the links of its entry. -/
theorem exists_cell_withNodes {i : Nat} {n : Node} (hn : ns[i]? = some n) :
    ∃ e : Outline.Entry, e.id = i + 1 ∧
      (withNodes d ns).cells[i + 1]? = some ((Cell.ofEntry d.size e).withNode n) := by
  obtain ⟨hlt, -⟩ := List.getElem?_eq_some_iff.1 hn
  have hentries : (d.forest.entries 0 1).length = d.forest.size := Forest.length_entries 0 1 _
  have hid : (d.outline.map (·.id))[i + 1]? = some (i + 1) := by
    rw [h.map_id_outline, List.getElem?_range]
    rw [Document.size]
    omega
  have he := List.getElem?_eq_getElem (l := d.forest.entries 0 1) (i := i) (by omega)
  refine ⟨(d.forest.entries 0 1)[i], ?_, ?_⟩
  · rw [Document.outline, List.map_cons, List.getElem?_cons_succ, List.getElem?_map, he] at hid
    exact Option.some.inj hid
  · rw [withNodes, List.getElem?_cons_succ, List.getElem?_zipWith, List.getElem?_map, he, hn]
    rfl

/-- What a link leads to is a text if the node in its place is one. -/
theorem text?_withNodes (i : Nat) :
    (withNodes d ns).text? (some i) = (nodeBefore none ns i).bind Node.text? := by
  cases i with
  | zero => rfl
  | succ i =>
    rw [nodeBefore_succ, text?]
    cases hn : ns[i]? with
    | none =>
      have hcell : (withNodes d ns).cells[i + 1]? = none := by
        rw [withNodes, List.getElem?_cons_succ, List.getElem?_zipWith, hn]
        cases ((d.forest.entries 0 1).map (Cell.ofEntry d.size))[i]? <;> rfl
      simp [hcell]
    | some n =>
      obtain ⟨e, -, hcell⟩ := exists_cell_withNodes h hlength hn
      by_cases hkind : n.statement.kind = .text <;>
        simp [hcell, Cell.withNode, Cell.kind, Node.text?, Node.isText, Node.kind, hkind]

omit h hlength in
/-- What changes behind a link changes in the node in its place. -/
theorem mapText_withNodes (i : Nat) (f : Text → Text) :
    (withNodes d ns).mapText (some i) f =
      withNodes d (ns.mapIdx fun j n => if j + 1 = i then n.mapText f else n) := by
  simp only [mapText, withNodes]
  congr 1
  refine List.ext_getElem? fun k => ?_
  rw [List.getElem?_modify]
  cases k with
  | zero => by_cases hi : i = 0 <;> simp [hi, Cell.ofEntry, Cell.kind]
  | succ j =>
    rw [List.getElem?_cons_succ, List.getElem?_cons_succ, List.getElem?_zipWith,
      List.getElem?_zipWith, List.getElem?_mapIdx]
    cases ((d.forest.entries 0 1).map (Cell.ofEntry d.size))[j]? with
    | none => rfl
    | some c =>
      cases ns[j]? with
      | none => rfl
      | some n =>
        by_cases hj : j + 1 = i
        · by_cases hkind : n.statement.kind = .text <;>
            simp [Cell.withNode, Cell.kind, Node.mapText, Node.isText, Node.kind, hkind, hj]
        · simp [hj, Ne.symm hj]

/-- **A tag takes its lines along the links as it does in the list of nodes.** -/
theorem trimTag_withNodes {i : Nat} (hi : i < d.forest.size) :
    (withNodes d ns).trimTag (i + 1) = withNodes d (trimAt ns i) := by
  have hn := List.getElem?_eq_getElem (l := ns) (i := i) (by omega)
  generalize ns[i] = n at hn
  obtain ⟨e, hid, hcell⟩ := exists_cell_withNodes h hlength hn
  -- The link to the front leads to the node before, or to the root.
  have hprev : ((Cell.ofEntry d.size e).withNode n).prev = some i := by
    rw [Cell.withNode, Cell.ofEntry, Outline.Entry.prev?, hid]
    rfl
  have hfront : ((withNodes d ns).text? (some i)).all (Text.allBlank ·.splitLastLine.2) =
      (nodeBefore none ns i).all Node.endsBlank := by
    rw [text?_withNodes h hlength, Option.all_bind]
    congr 1
    funext m
    exact Node.all_text? _ m
  -- The link to the back leads to the node behind, or there is none.
  have hnext : ((Cell.ofEntry d.size e).withNode n).next =
      if i + 1 < ns.length then some (i + 2) else none := by
    rw [Cell.withNode, Cell.ofEntry, Outline.Entry.next?, hid, hlength, Document.size]
    simp only [Nat.add_lt_add_iff_right]
  have hbehind : ((withNodes d ns).text? ((Cell.ofEntry d.size e).withNode n).next).all
      (Text.allBlank ·.splitFirstLine.1) = ns[i + 1]?.all Node.startsBlank := by
    rw [hnext]
    split
    · rw [text?_withNodes h hlength, Option.all_bind, nodeBefore_succ]
      congr 1
      funext m
      exact Node.all_text? _ m
    · next hend =>
      rw [List.getElem?_eq_none (Nat.not_lt.1 hend)]
      rfl
  have hkind : ((Cell.ofEntry d.size e).withNode n).kind = n.kind := rfl
  simp only [trimTag, hcell, hprev, hfront, hbehind, hkind]
  rw [trimAt, cleanAt, hn, Option.any_some]
  split
  · have hcut : ∀ ms : List Node, ms.length = ns.length →
        (withNodes d ms).mapText ((Cell.ofEntry d.size e).withNode n).next (·.splitFirstLine.2) =
          withNodes d (ms.mapIdx fun j n => if j = i + 1 then n.dropFirstLine else n) := by
      intro ms hms
      rw [hnext]
      split
      · rw [mapText_withNodes]
        simp only [Nat.add_right_cancel_iff]
        rfl
      · next hend =>
        refine congrArg (withNodes d) (List.ext_getElem? fun j => ?_)
        rw [List.getElem?_mapIdx]
        rcases Nat.lt_or_ge j ms.length with hj | hj
        · have hne : j ≠ i + 1 := by omega
          simp only [if_neg hne, Option.map_id']
        · rw [List.getElem?_eq_none hj]
          rfl
    rw [mapText_withNodes, hcut _ List.length_mapIdx, List.mapIdx_mapIdx]
    congr 2
    funext j m
    by_cases hfront : j + 1 = i
    · have hne : j ≠ i + 1 := by omega
      simp only [if_pos hfront, if_neg hne]
      rfl
    · simp only [if_neg hfront]
      rfl
  · rfl

end WithNodes

theorem length_trimAt (ns : List Node) (i : Nat) : (trimAt ns i).length = ns.length := by
  rw [trimAt]
  split
  · exact List.length_mapIdx
  · rfl

/-- The tags of a document take their lines in the order of their numbers. -/
theorem foldl_trimTag_withNodes {d : Document} (h : d.Numbered) {ns : List Node}
    (hlength : ns.length = d.forest.size) {order : List Nat} (horder : ∀ i ∈ order, i < ns.length) :
    (order.map (· + 1)).foldl trimTag (withNodes d ns) = withNodes d (order.foldl trimAt ns) := by
  induction order generalizing ns with
  | nil => rfl
  | cons i order ih =>
    obtain ⟨hi, horder⟩ := List.forall_mem_cons.1 horder
    have hsame : (trimAt ns i).length = ns.length := length_trimAt ns i
    rw [List.map_cons, List.foldl_cons, List.foldl_cons, trimTag_withNodes h hlength (hlength ▸ hi)]
    exact ih (hsame.trans hlength) fun j hj => by rw [hsame]; exact horder j hj

/-- **Trimming along the links is trimming the document.** -/
theorem trim?_ofDocument {d : Document} (h : d.Numbered) :
    (ofDocument d).trim? = some (ofDocument d.trim) := by
  have hflag : (ofDocument d).trimmed = d.trimmed := rfl
  rw [trim?, hflag]
  cases htrimmed : d.trimmed with
  | true =>
    have hsame : d.trim = d := if_pos htrimmed
    rw [if_pos rfl, hsame]
  | false =>
    have hstart : ({ ofDocument d with trimmed := true } : Arena) = withNodes d d.forest.nodes := by
      change ofDocument { d with trimmed := true } = _
      exact ofDocument_of_alike (.refl d.forest) rfl
    have htrim : ofDocument d.trim = withNodes d d.trim.forest.nodes := by
      refine ofDocument_of_alike d.alike_trim ?_
      rw [Document.trim, htrimmed]
      rfl
    have hlength : d.forest.nodes.length = d.forest.size := Forest.length_nodes _
    -- The walk starts at the root, which is no tag, and goes on through all nodes.
    have horder : List.range d.size = 0 :: (List.range d.forest.nodes.length).map (· + 1) := by
      rw [hlength, Document.size, List.range_succ_eq_map]
    have hroot : (withNodes d d.forest.nodes).trimTag 0 = withNodes d d.forest.nodes := rfl
    rw [if_neg Bool.false_ne_true, h.preorder?_ofDocument, horder, htrim,
      Document.nodes_trim htrimmed, ← foldl_trimAt (List.Perm.refl _),
      ← foldl_trimTag_withNodes h hlength fun i hi => List.mem_range.1 hi]
    simp only [hstart, Option.bind_eq_bind, Option.bind_some, List.foldl_cons, hroot]
    rfl

/-- The arena of a source is its document with the links written out. -/
theorem exists_document_of_read {markers : Markers} {source : Text} {a : Arena}
    (h : (Arena.read markers source).result = .ok a) :
    ∃ d, (Document.read markers source).result = .ok d ∧ d.Numbered ∧ a = ofDocument d := by
  rw [read_eq] at h
  simp only [Traced.map] at h
  cases hread : (Document.read markers source).result with
  | error e =>
    rw [hread] at h
    cases h
  | ok d =>
    rw [hread] at h
    exact ⟨d, rfl, Document.numbered_of_read hread, (Except.ok.inj h).symm⟩

/-- **The two walks of the arena of a source coincide, before trimming and after it.**  The chain
and the walk over what nodes hold visit all nodes once, in the order of creation; links to the front
and to the back are inverse to each other, and every node but the root is listed once, by the one
node that holds it and that was created before it.  All walks end, and so does trimming. -/
theorem threaded_of_read {markers : Markers} {source : Text} {a : Arena}
    (h : (Arena.read markers source).result = .ok a) :
    a.Threaded ∧ ∃ b, a.trim? = some b ∧ b.size = a.size ∧ b.Threaded := by
  obtain ⟨d, -, hd, rfl⟩ := exists_document_of_read h
  have hsize : d.trim.size = d.size := congrArg (· + 1) d.alike_trim.size_eq
  refine ⟨threaded_ofDocument hd, ofDocument d.trim, trim?_ofDocument hd, ?_,
    threaded_ofDocument hd.trim⟩
  rw [hd.size_ofDocument, hd.trim.size_ofDocument, hsize]

/-- A loop in a branch, with text on every level and a branch that is open at the end. -/
theorem threaded_of_read_nested :
    ∃ a, (Arena.read .standard
        "a\n{% if(x) %}b{% foreach(i in y) %}\nc{% end %} {% else %}d".toList).result = .ok a ∧
      a.cells.map (·.parent) =
        [none, some 0, some 0, some 2, some 2, some 4, some 2, some 2, some 0, some 8] ∧
      a.Threaded ∧ ∃ b, a.trim? = some b ∧ b.size = a.size ∧ b.Threaded := by
  obtain ⟨a, hread, hparents⟩ := exists_ok_of_toOption
    (r := (Arena.read .standard
      "a\n{% if(x) %}b{% foreach(i in y) %}\nc{% end %} {% else %}d".toList).result)
    (P := fun a => a.cells.map (·.parent) =
      [none, some 0, some 0, some 2, some 2, some 4, some 2, some 2, some 0, some 8])
    (by decide +kernel)
  exact ⟨a, hread, hparents, threaded_of_read hread⟩

end Arena

end Stencil
