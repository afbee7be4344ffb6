import Stencil.Proofs.Document.Brackets
import Stencil.Proofs.Document.Trimmed

/-!
# Which lines trimming takes

A tag decides about its lines on what the tags before it have left of the texts around it, and a
text between two tags is cut from both ends, one after the other.  The outcome is the one that is
read off the document as it was before: a tag is clean or not there (`Outline.Entry.isClean`), and
every text loses its first line exactly if the tag in front of it is clean and its last line exactly
if the tag behind it is (`Outline.Entry.trimmed`, over lists of nodes `trimFrom_eq`).  Nor does it
matter in which order the tags decide (`foldl_trimAt`).

What carries both is that a cut which has been decided takes only white space: it leaves a blank
line at the other end of the text blank, and one that is not blank untouched.

## Main Definitions

* `Node.withoutLines` — a text without its first or last line, any other node as it is
* `cleanAt` — whether a node of a list is a tag that may take its lines
* `trimAt` — one tag takes its lines
* `Outline.Entry.isClean`, `Outline.Entry.trimmed` — the same for a document with its links
-/

namespace Stencil

/-! ## Nodes -/

namespace Node

/-- A text without its first line, its last line or both; other nodes have no lines to take. -/
def withoutLines (first last : Bool) (n : Node) : Node :=
  if n.isText then { n with content := Text.withoutLines first last n.content } else n

theorem kind_withoutLines (first last : Bool) (n : Node) :
    (n.withoutLines first last).kind = n.kind := by
  rw [withoutLines]
  split <;> rfl

theorem isText_withoutLines (first last : Bool) (n : Node) :
    (n.withoutLines first last).isText = n.isText := by
  rw [isText, kind_withoutLines, isText]

theorem withoutLines_of_text {n : Node} (h : n.isText = true) (first last : Bool) :
    n.withoutLines first last = { n with content := Text.withoutLines first last n.content } :=
  if_pos h

theorem withoutLines_of_tag {n : Node} (h : n.isText = false) (first last : Bool) :
    n.withoutLines first last = n :=
  if_neg (by rw [h]; exact Bool.false_ne_true)

@[simp] theorem withoutLines_false_false (n : Node) : n.withoutLines false false = n := by
  rw [withoutLines, Text.withoutLines_false_false]
  split <;> rfl

/-- The last line can be cut when the first one is cut already. -/
theorem dropLastLine_withoutLines (first : Bool) (n : Node) :
    (n.withoutLines first false).dropLastLine = n.withoutLines first true := by
  rw [dropLastLine, isText_withoutLines]
  cases h : n.isText with
  | false => simp only [withoutLines_of_tag h, Bool.false_eq_true, if_false]
  | true =>
    simp only [withoutLines_of_text h, if_true, Text.lastLine_withoutLines]

/-- The first line can be cut when the last one is cut already. -/
theorem dropFirstLine_withoutLines (last : Bool) (n : Node) :
    (n.withoutLines false last).dropFirstLine = n.withoutLines true last := by
  rw [dropFirstLine, isText_withoutLines]
  cases h : n.isText with
  | false => simp only [withoutLines_of_tag h, Bool.false_eq_true, if_false]
  | true =>
    simp only [withoutLines_of_text h, if_true, Text.firstLine_withoutLines]

/-- A cut that takes white space at the start does not change whether the end is blank. -/
theorem endsBlank_withoutLines {first : Bool} {n : Node}
    (hfirst : first = true → n.startsBlank = true) :
    (n.withoutLines first false).endsBlank = n.endsBlank := by
  rw [endsBlank, endsBlank, isText_withoutLines]
  cases h : n.isText with
  | false => rfl
  | true =>
    simp only [startsBlank, h, Bool.not_true, Bool.false_or] at hfirst ⊢
    rw [withoutLines_of_text h]
    exact Text.allBlank_lastLine_withoutLines hfirst

/-- A cut that takes white space at the end does not change whether the start is blank. -/
theorem startsBlank_withoutLines {last : Bool} {n : Node}
    (hlast : last = true → n.endsBlank = true) :
    (n.withoutLines false last).startsBlank = n.startsBlank := by
  rw [startsBlank, startsBlank, isText_withoutLines]
  cases h : n.isText with
  | false => rfl
  | true =>
    simp only [endsBlank, h, Bool.not_true, Bool.false_or] at hlast ⊢
    rw [withoutLines_of_text h]
    exact Text.allBlank_firstLine_withoutLines hlast

end Node

/-! ## Lists of nodes -/

/-- The node in front of a place of a list, which is itself behind a node or behind none. -/
def nodeBefore (before : Option Node) (nodes : List Node) (i : Nat) : Option Node :=
  if i = 0 then before else nodes[i - 1]?

theorem nodeBefore_succ (before : Option Node) (nodes : List Node) (i : Nat) :
    nodeBefore before nodes (i + 1) = nodes[i]? := rfl

/-- Whether there is a tag at a place of a list of nodes that may take its lines: the text in front
of it ends with a blank line and the text behind it starts with one. -/
def cleanAt (before : Option Node) (nodes : List Node) (i : Nat) : Bool :=
  nodes[i]?.any (·.kind.isTrimmable) && (nodeBefore before nodes i).all Node.endsBlank &&
    nodes[i + 1]?.all Node.startsBlank

/-- What holds in front of a place, given what holds in front of the first one. -/
def previous (start : Bool) (p : Nat → Bool) (i : Nat) : Bool := if i = 0 then start else p (i - 1)

theorem previous_succ (start : Bool) (p : Nat → Bool) (i : Nat) :
    previous start p (i + 1) = p i := rfl

theorem previous_update {p : Nat → Bool} {start value : Bool} {i j : Nat} (h : j ≠ i + 1) :
    previous start (fun k => if k = i then value else p k) j = previous start p j := by
  cases j with
  | zero => rfl
  | succ j => exact if_neg fun heq => h (congrArg (· + 1) heq)

/-- The nodes without the lines that the tags take for which `taken` holds. -/
def cutLines (taken : Nat → Bool) (nodes : List Node) : List Node :=
  nodes.mapIdx fun i n => n.withoutLines (previous false taken i) (taken (i + 1))

theorem cleanAt_eq_true {before : Option Node} {nodes : List Node} {i : Nat}
    (h : cleanAt before nodes i = true) :
    (nodeBefore before nodes i).all Node.endsBlank = true ∧
      nodes[i + 1]?.all Node.startsBlank = true := by
  rw [cleanAt, Bool.and_eq_true, Bool.and_eq_true] at h
  exact ⟨h.1.2, h.2⟩

theorem cleanAt_cons_succ (before : Option Node) (n : Node) (nodes : List Node) (i : Nat) :
    cleanAt before (n :: nodes) (i + 1) = cleanAt (some n) nodes i := by
  cases i <;> rfl

theorem previous_cleanAt_cons_succ (start : Bool) (before : Option Node) (n : Node)
    (nodes : List Node) (i : Nat) :
    previous start (cleanAt before (n :: nodes)) (i + 1) =
      previous (cleanAt before (n :: nodes) 0) (cleanAt (some n) nodes) i := by
  cases i with
  | zero => rfl
  | succ i => exact cleanAt_cons_succ before n nodes i

/-- **Every text loses the lines that the tags around it take**, as the nodes were before.  The node
in front of the list has lost its first line if it should, and the list has still to lose its own if
it should; both were blank. -/
theorem trimFrom_eq (before : Option Node) (first cut : Bool) (nodes : List Node)
    (hfirst : first = true → before.all Node.startsBlank = true)
    (hcut : cut = true → nodes.head?.all Node.startsBlank = true) :
    trimFrom (before.map (·.withoutLines first false)) cut nodes =
      (before.map (·.withoutLines first (cleanAt before nodes 0))).toList ++
        nodes.mapIdx fun i n =>
          n.withoutLines (previous cut (cleanAt before nodes) i)
            (cleanAt before nodes (i + 1)) := by
  induction nodes generalizing before first cut with
  | nil =>
    rw [trimFrom, List.mapIdx_nil, List.append_nil]
    rfl
  | cons n rest ih =>
    have hnode : (if cut then n.dropFirstLine else n) = n.withoutLines cut false := by
      cases cut with
      | false => rw [Node.withoutLines_false_false]; rfl
      | true => rw [← Node.dropFirstLine_withoutLines, Node.withoutLines_false_false]; rfl
    have hbefore : (before.map (·.withoutLines first false)).all Node.endsBlank =
        before.all Node.endsBlank := by
      cases before with
      | none => rfl
      | some b => exact Node.endsBlank_withoutLines hfirst
    have hclean : ((n.withoutLines cut false).kind.isTrimmable &&
        (before.map (·.withoutLines first false)).all Node.endsBlank &&
        rest.head?.all Node.startsBlank) = cleanAt before (n :: rest) 0 := by
      rw [hbefore, Node.kind_withoutLines, cleanAt, List.getElem?_cons_zero,
        List.getElem?_cons_succ, ← List.head?_eq_getElem?]
      rfl
    have hrest : cleanAt before (n :: rest) 0 = true →
        rest.head?.all Node.startsBlank = true := by
      intro h
      rw [← hclean, Bool.and_eq_true] at h
      exact h.2
    have htail := ih (some n) cut (cleanAt before (n :: rest) 0) hcut hrest
    -- Whether the tag takes its lines or not, the texts around it are cut or not by one equation.
    have hstep : trimFrom (before.map (·.withoutLines first false)) cut (n :: rest) =
        (before.map (·.withoutLines first (cleanAt before (n :: rest) 0))).toList ++
          trimFrom (some (n.withoutLines cut false)) (cleanAt before (n :: rest) 0) rest := by
      have hlast : (Node.dropLastLine ∘ fun n : Node => n.withoutLines first false) =
          fun n => n.withoutLines first true := funext (Node.dropLastLine_withoutLines first)
      rw [trimFrom]
      simp only [hnode, hclean]
      cases cleanAt before (n :: rest) 0 with
      | false => rfl
      | true => simp only [if_true, Option.map_map, hlast]
    rw [hstep, ← Option.map_some, htail, List.mapIdx_cons]
    simp only [cleanAt_cons_succ, previous_cleanAt_cons_succ]
    rfl

theorem trimNodes_eq (nodes : List Node) :
    trimNodes nodes = cutLines (cleanAt none nodes) nodes :=
  trimFrom_eq none false false nodes (absurd · Bool.false_ne_true) (absurd · Bool.false_ne_true)

/-! ## Tags in any order -/

/-- The tag at a place takes its lines, if it may as the nodes are. -/
def trimAt (nodes : List Node) (i : Nat) : List Node :=
  if cleanAt none nodes i then
    nodes.mapIdx fun j n =>
      if j + 1 = i then n.dropLastLine else if j = i + 1 then n.dropFirstLine else n
  else nodes

section Order

variable {nodes : List Node} {taken : Nat → Bool}

theorem getElem?_cutLines (i : Nat) :
    (cutLines taken nodes)[i]? =
      nodes[i]?.map (·.withoutLines (previous false taken i) (taken (i + 1))) :=
  List.getElem?_mapIdx

theorem cutLines_false : cutLines (fun _ => false) nodes = nodes := by
  refine List.ext_getElem? fun i => ?_
  have hprevious : previous false (fun _ => false) i = false := by cases i <;> rfl
  rw [getElem?_cutLines, hprevious]
  simp only [Node.withoutLines_false_false, Option.map_id']

variable (htaken : ∀ j, taken j = true → cleanAt none nodes j = true) {i : Nat}
  (hi : taken i = false)
include htaken hi

/-- A tag decides as it would have decided first. -/
theorem cleanAt_cutLines : cleanAt none (cutLines taken nodes) i = cleanAt none nodes i := by
  have hkind : (cutLines taken nodes)[i]?.any (·.kind.isTrimmable) =
      nodes[i]?.any (·.kind.isTrimmable) := by
    rw [getElem?_cutLines, Option.any_map]
    simp only [Node.kind_withoutLines]
  have hfront : (nodeBefore none (cutLines taken nodes) i).all Node.endsBlank =
      (nodeBefore none nodes i).all Node.endsBlank := by
    cases i with
    | zero => rfl
    | succ k =>
      rw [nodeBefore_succ, nodeBefore_succ, getElem?_cutLines, hi]
      cases hn : nodes[k]? with
      | none => rfl
      | some n =>
        refine Node.endsBlank_withoutLines fun hfirst => ?_
        cases k with
        | zero => cases hfirst
        | succ k =>
          have hblank := (cleanAt_eq_true (htaken k hfirst)).2
          rwa [hn] at hblank
  have hbehind : (cutLines taken nodes)[i + 1]?.all Node.startsBlank =
      nodes[i + 1]?.all Node.startsBlank := by
    rw [getElem?_cutLines, previous_succ, hi]
    cases hn : nodes[i + 1]? with
    | none => rfl
    | some n =>
      refine Node.startsBlank_withoutLines fun hlast => ?_
      have hblank := (cleanAt_eq_true (htaken (i + 2) hlast)).1
      rwa [nodeBefore_succ, hn] at hblank
  rw [cleanAt, hkind, hfront, hbehind, ← cleanAt]

/-- One more tag takes its lines. -/
theorem trimAt_cutLines : trimAt (cutLines taken nodes) i =
    cutLines (fun j => if j = i then cleanAt none nodes i else taken j) nodes := by
  rw [trimAt, cleanAt_cutLines htaken hi]
  cases hclean : cleanAt none nodes i with
  | false =>
    have hsame : (fun j => if j = i then false else taken j) = taken := by
      funext j
      split
      · next hj => rw [hj, hi]
      · rfl
    rw [hsame]
    rfl
  | true =>
    rw [if_pos rfl]
    refine List.ext_getElem? fun j => ?_
    rw [List.getElem?_mapIdx, getElem?_cutLines, getElem?_cutLines, Option.map_map]
    congr 1
    funext n
    simp only [Function.comp_def]
    -- The text in front of the tag loses its last line, the one behind it the first.
    by_cases hfront : j + 1 = i
    · rw [if_pos hfront, if_pos hfront, previous_update (by omega), hfront, hi,
        Node.dropLastLine_withoutLines]
    · rw [if_neg hfront, if_neg hfront]
      by_cases hbehind : j = i + 1
      · subst hbehind
        rw [if_pos rfl, previous_succ, previous_succ, if_pos rfl, hi,
          Node.dropFirstLine_withoutLines]
      · rw [if_neg hbehind, previous_update hbehind]

end Order

/-- Tags take their lines one after another, each at most once. -/
theorem foldl_trimAt_cutLines {nodes : List Node} {taken : Nat → Bool} {order : List Nat}
    (htaken : ∀ j, taken j = true → cleanAt none nodes j = true)
    (hnew : ∀ i ∈ order, taken i = false) (hnodup : order.Nodup) :
    order.foldl trimAt (cutLines taken nodes) =
      cutLines (fun j => if j ∈ order then cleanAt none nodes j else taken j) nodes := by
  induction order generalizing taken with
  | nil => simp
  | cons i order ih =>
    obtain ⟨hi, hrest⟩ := List.forall_mem_cons.1 hnew
    obtain ⟨hnotin, hnodup⟩ := List.nodup_cons.1 hnodup
    rw [List.foldl_cons, trimAt_cutLines htaken hi, ih ?_ ?_ hnodup]
    · congr 1
      funext j
      by_cases hj : j = i
      · subst hj
        simp [hnotin]
      · simp [hj]
    · intro j hj
      split at hj
      · next heq => rwa [heq]
      · exact htaken j hj
    · intro j hj
      have hne : j ≠ i := fun heq => hnotin (heq ▸ hj)
      rw [if_neg hne, hrest j hj]

/-- **It does not matter in which order the tags take their lines.** -/
theorem foldl_trimAt {nodes : List Node} {order : List Nat}
    (horder : order.Perm (List.range nodes.length)) :
    order.foldl trimAt nodes = trimNodes nodes := by
  have hfold : order.foldl trimAt (cutLines (fun _ => false) nodes) = _ :=
    foldl_trimAt_cutLines (fun _ h => absurd h Bool.false_ne_true) (fun _ _ => rfl)
      (horder.nodup_iff.2 List.nodup_range)
  rw [cutLines_false] at hfold
  rw [hfold, trimNodes_eq]
  congr 1
  funext i
  split
  · rfl
  · next hi =>
    rw [horder.mem_iff, List.mem_range, Nat.not_lt] at hi
    rw [cleanAt, List.getElem?_eq_none hi]
    rfl

/-! ## Documents with their links -/

namespace Outline

/-- The entry in front of another one in the order of reading, if there is one. -/
def before? (es : List Entry) (e : Entry) : Option Entry := e.prev?.bind fun id => es[id]?

/-- The entry behind another one in the order of reading, if there is one. -/
def behind? (es : List Entry) (e : Entry) : Option Entry :=
  (e.next? es.length).bind fun id => es[id]?

namespace Entry

/-- Whether an entry lets the line start behind it: it is no text, or what comes after its last line
end is white space. -/
def endsBlank (e : Entry) : Bool :=
  e.kind != .text || Text.allBlank (Text.splitLastLine e.content).2

/-- Whether an entry lets the line end in front of it: it is no text, or its first line is white
space. -/
def startsBlank (e : Entry) : Bool :=
  e.kind != .text || Text.allBlank (Text.splitFirstLine e.content).1

/-- Whether an entry is a tag, and no value, that stands alone on its line as far as the texts next
to it go. -/
def isClean (es : List Entry) (e : Entry) : Bool :=
  e.kind.isTrimmable && (before? es e).all endsBlank && (behind? es e).all startsBlank

/-- An entry as it should be in the trimmed document: a text without its first line if the entry in
front of it is clean, and without its last line if the one behind it is. -/
def trimmed (es : List Entry) (e : Entry) : Entry :=
  if e.kind = .text then
    { e with
      content := Text.withoutLines ((before? es e).any (isClean es))
        ((behind? es e).any (isClean es)) e.content }
  else e

/-- An entry with the content of a node. -/
def withContent (e : Entry) (n : Node) : Entry := { e with content := n.content }

end Entry

end Outline

namespace Forest

theorem length_entries (parent depth : Nat) (f : Forest) :
    (f.entries parent depth).length = f.size := by
  rw [(f.forall₂_entries parent depth).length_eq, ← length_nodes, ← map_fst_placed depth,
    List.length_map]

theorem Alike.map_id_siblings {f g : Forest} (h : f.Alike g) :
    f.siblings.map (·.id) = g.siblings.map (·.id) := by
  induction h with
  | nil => rfl
  | node first _ _ _ ih => rw [siblings, siblings, List.map_cons, List.map_cons, first.id, ih]

theorem Alike.size_eq {f g : Forest} (h : f.Alike g) : f.size = g.size := by
  induction h with
  | nil => rfl
  | node _ _ _ ihb ihr => rw [size, size, ihb, ihr]

/-- Forests that are alike have the same entries but for the contents. -/
theorem Alike.entries_eq {f g : Forest} (h : f.Alike g) (parent depth : Nat) :
    f.entries parent depth =
      List.zipWith Outline.Entry.withContent (g.entries parent depth) f.nodes := by
  induction h generalizing parent depth with
  | nil => rfl
  | @node m n body body' rest rest' first inside _ ihb ihr =>
    have hlength : (body'.entries n.id (depth + 1)).length = body.nodes.length := by
      rw [length_entries, length_nodes, inside.size_eq]
    rw [entries, entries, nodes, List.zipWith_cons_cons, List.zipWith_append hlength, ihb, ihr,
      first.id, first.statement, first.span, inside.map_id_siblings]
    rfl

/-- What can be seen of an entry can be seen of its node. -/
theorem all_getElem?_entries {p : Outline.Entry → Bool} {q : Node → Bool}
    (hpq : ∀ {e : Outline.Entry} {n depth}, e.Shows n depth → p e = q n) (f : Forest)
    (parent depth i : Nat) : (f.entries parent depth)[i]?.all p = f.nodes[i]?.all q := by
  have hmap : (f.entries parent depth).map p = f.nodes.map q := by
    rw [← map_fst_placed depth, List.map_map]
    have hshows := f.forall₂_entries parent depth
    refine List.forall₂_eq_eq_eq ▸ List.forall₂_map_left_iff.2 (List.forall₂_map_right_iff.2 ?_)
    exact hshows.imp fun _ _ h => hpq h
  have hget : (f.entries parent depth)[i]?.map p = f.nodes[i]?.map q := by
    rw [← List.getElem?_map, hmap, List.getElem?_map]
  have hall := congrArg (Option.all id) hget
  rwa [Option.all_map, Option.all_map] at hall

/-- The entry of a place shows the node of the place. -/
theorem exists_node_of_entry {f : Forest} {parent depth i : Nat} {e : Outline.Entry}
    (h : (f.entries parent depth)[i]? = some e) :
    ∃ n depth', f.nodes[i]? = some n ∧ e.Shows n depth' := by
  have hshows := f.forall₂_entries parent depth
  obtain ⟨hi, hentry⟩ := List.getElem?_eq_some_iff.1 h
  have hi' : i < (f.placed depth).length := by rwa [← hshows.length_eq]
  have hget := hshows.get hi hi'
  rw [List.get_eq_getElem, List.get_eq_getElem, hentry] at hget
  refine ⟨_, _, ?_, hget⟩
  rw [← map_fst_placed depth, List.getElem?_map, List.getElem?_eq_getElem hi']
  rfl

end Forest

namespace Outline.Entry.Shows

variable {e : Outline.Entry} {n : Node} {depth : Nat}

theorem kind_eq (h : e.Shows n depth) : e.kind = n.kind := by
  rw [Outline.Entry.kind, h.statement]
  rfl

theorem endsBlank_eq (h : e.Shows n depth) : e.endsBlank = n.endsBlank := by
  rw [Outline.Entry.endsBlank, h.kind_eq, h.content]
  rfl

theorem startsBlank_eq (h : e.Shows n depth) : e.startsBlank = n.startsBlank := by
  rw [Outline.Entry.startsBlank, h.kind_eq, h.content]
  rfl

end Outline.Entry.Shows

namespace Document

/-- The nodes of a document are numbered in reading order, from the root on. -/
theorem id_of_read {markers : Markers} {source : Text} {d : Document}
    (h : (Document.read markers source).result = .ok d) {i : Nat} {n : Node}
    (hn : d.forest.nodes[i]? = some n) : n.id = i + 1 := by
  obtain ⟨b, hrun, rfl⟩ := Document.exists_builder_of_read h
  have hfollows := Builder.follows_of_run hrun
  have hplaced : b.finish.placed 1 = b.placed := Builder.placed_closeAll b.before b.opened
  rw [← Forest.map_fst_placed 1, hplaced, List.getElem?_map] at hn
  obtain ⟨place, hplace, rfl⟩ := Option.map_eq_some_iff.1 hn
  have hi : i < (Segment.scan markers source).length := by
    rw [← hfollows.length]
    exact (List.getElem?_eq_some_iff.1 hplace).1
  have hsplit : Segment.scan markers source = (Segment.scan markers source).take i ++
      (Segment.scan markers source)[i] :: (Segment.scan markers source).drop (i + 1) := by
    rw [← List.drop_eq_getElem_cons hi, List.take_append_drop]
  obtain ⟨opened, -, hget⟩ := hfollows.placed _ _ _ _ hsplit
  rw [List.length_take_of_le (Nat.le_of_lt hi), hplace] at hget
  rw [Option.some.inj hget]

/-- The nodes of a document that has been read are those of its forest, each trimmed. -/
theorem nodes_trim {d : Document} (h : d.trimmed = false) :
    d.trim.forest.nodes = trimNodes d.forest.nodes := by
  have hlength : (trimNodes d.forest.nodes).length = d.forest.size := by
    rw [trimNodes, length_trimFrom, Option.toList_none, List.length_nil, Nat.zero_add,
      Forest.length_nodes]
  have hrefill : (d.forest.refill (trimNodes d.forest.nodes ++ [])).1.nodes = _ :=
    (d.forest.refill_append hlength).1
  rw [List.append_nil] at hrefill
  rw [trim, h]
  exact hrefill

section Numbered

variable {d : Document} (hid : ∀ {i n}, d.forest.nodes[i]? = some n → n.id = i + 1)
include hid

theorem id_of_entry {i : Nat} {e : Outline.Entry} (he : (d.forest.entries 0 1)[i]? = some e) :
    e.id = i + 1 := by
  obtain ⟨n, depth, hn, hshows⟩ := Forest.exists_node_of_entry he
  rw [hshows.id, hid hn]

/-- The entry in front of another one stands at the place before. -/
theorem before?_outline {i : Nat} {e : Outline.Entry}
    (he : (d.forest.entries 0 1)[i]? = some e) :
    Outline.before? d.outline e = d.outline[i]? := by
  rw [Outline.before?, Outline.Entry.prev?, id_of_entry hid he, if_neg (Nat.succ_ne_zero i)]
  rfl

/-- The entry behind another one stands at the place after. -/
theorem behind?_outline {i : Nat} {e : Outline.Entry}
    (he : (d.forest.entries 0 1)[i]? = some e) :
    Outline.behind? d.outline e = d.outline[i + 2]? := by
  rw [Outline.behind?, Outline.Entry.next?, id_of_entry hid he]
  split
  · rfl
  · next hend => rw [List.getElem?_eq_none (Nat.not_lt.1 hend)]; rfl

theorem isClean_outline {i : Nat} {e : Outline.Entry}
    (he : (d.forest.entries 0 1)[i]? = some e) :
    Outline.Entry.isClean d.outline e = cleanAt none d.forest.nodes i := by
  obtain ⟨n, depth, hn, hshows⟩ := Forest.exists_node_of_entry he
  have hfront : (d.outline[i]?).all Outline.Entry.endsBlank =
      (nodeBefore none d.forest.nodes i).all Node.endsBlank := by
    cases i with
    | zero => rfl
    | succ i => exact d.forest.all_getElem?_entries (fun h => h.endsBlank_eq) 0 1 i
  have hbehind : (d.outline[i + 2]?).all Outline.Entry.startsBlank =
      d.forest.nodes[i + 1]?.all Node.startsBlank :=
    d.forest.all_getElem?_entries (fun h => h.startsBlank_eq) 0 1 (i + 1)
  rw [Outline.Entry.isClean, before?_outline hid he, behind?_outline hid he, hfront, hbehind,
    cleanAt, hn, Option.any_some, hshows.kind_eq]

/-- The tag at a place of the outline is clean if the node one place before is: the root stands
in front of all nodes and is no tag. -/
theorem any_isClean_outline (i : Nat) :
    (d.outline[i]?).any (Outline.Entry.isClean d.outline) =
      previous false (cleanAt none d.forest.nodes) i := by
  cases i with
  | zero => rfl
  | succ i =>
    rw [outline, List.getElem?_cons_succ, ← outline, previous_succ]
    cases he : (d.forest.entries 0 1)[i]? with
    | some e => exact isClean_outline hid he
    | none =>
      rw [cleanAt, List.getElem?_eq_none]
      · rfl
      · rw [Forest.length_nodes, ← Forest.length_entries 0 1]
        exact List.getElem?_eq_none_iff.1 he

/-- An entry with the content that its node has without the lines next to clean tags. -/
theorem withContent_withoutLines {i : Nat} {e : Outline.Entry} {n : Node} {depth : Nat}
    (he : (d.forest.entries 0 1)[i]? = some e) (hshows : e.Shows n depth) :
    e.withContent (n.withoutLines (previous false (cleanAt none d.forest.nodes) i)
      (cleanAt none d.forest.nodes (i + 1))) = e.trimmed d.outline := by
  have hbehind := any_isClean_outline hid (i + 2)
  rw [Outline.Entry.trimmed, before?_outline hid he, behind?_outline hid he,
    any_isClean_outline hid i, hbehind, hshows.kind_eq, previous_succ, Outline.Entry.withContent]
  split
  · next hkind =>
    have htext : n.isText = true := by
      rw [Node.isText, hkind]
      rfl
    rw [Node.withoutLines_of_text htext, hshows.content]
  · next hkind =>
    have htag : n.isText = false := beq_eq_false_iff_ne.2 hkind
    rw [Node.withoutLines_of_tag htag, ← hshows.content]

end Numbered

/-- **Trimming takes the lines of clean tags and nothing else.**  In the document of a source, a
text loses its first line exactly if the entry in front of it is clean, and its last line exactly
if the entry behind it is, as the texts were before; all other entries, their links and their places
stay as they are.  The outcome is the same in whatever order the tags decide. -/
theorem outline_trim {markers : Markers} {source : Text} {d : Document}
    (h : (Document.read markers source).result = .ok d) :
    d.trim.outline = d.outline.map (Outline.Entry.trimmed d.outline) ∧
      ∀ order : List Nat, order.Perm (List.range d.forest.nodes.length) →
        order.foldl trimAt d.forest.nodes = d.trim.forest.nodes := by
  have htrimmed : d.trimmed = false := by
    obtain ⟨b, -, rfl⟩ := Document.exists_builder_of_read h
    rfl
  have hid : ∀ {i n}, d.forest.nodes[i]? = some n → n.id = i + 1 := Document.id_of_read h
  have hnodes := nodes_trim htrimmed
  refine ⟨?_, fun order horder => ?_⟩
  · have halike := d.alike_trim
    have hentries := halike.entries_eq 0 1
    rw [hnodes, trimNodes_eq] at hentries
    rw [outline, hentries, halike.map_id_siblings]
    refine List.ext_getElem? fun i => ?_
    rw [List.getElem?_map]
    cases i with
    | zero => rfl
    | succ i =>
      rw [outline, List.getElem?_cons_succ, List.getElem?_cons_succ, ← outline,
        List.getElem?_zipWith, getElem?_cutLines]
      cases he : (d.forest.entries 0 1)[i]? with
      | none => rfl
      | some e =>
        obtain ⟨n, depth, hn, hshows⟩ := Forest.exists_node_of_entry he
        rw [hn]
        exact congrArg some (withContent_withoutLines hid he hshows)
  · rw [foldl_trimAt horder, hnodes]

/-- A text that is cut at one end, one that is cut at both, and a tag behind a word that takes
nothing. -/
theorem outline_trim_both_ends :
    ∃ d, (Document.read .standard
        "A\r\n  {% if(a) %} \r\n\n {% b = 1 %}\nB {% end %} \n".toList).result = .ok d ∧
      d.trim.outline.map (·.content) = [[], "A\r\n".toList, "if(a)".toList, "\n".toList,
        "b = 1".toList, "B ".toList, "end".toList, " \n".toList] ∧
      (List.range 7).reverse.foldl trimAt d.forest.nodes = d.trim.forest.nodes := by
  have hread := Document.exists_read .standard
    "A\r\n  {% if(a) %} \r\n\n {% b = 1 %}\nB {% end %} \n".toList
    (P := fun d => d.forest.nodes.length = 7 ∧
      (d.outline.map (Outline.Entry.trimmed d.outline)).map (·.content) =
        [[], "A\r\n".toList, "if(a)".toList, "\n".toList, "b = 1".toList, "B ".toList,
          "end".toList, " \n".toList])
    (by decide +kernel)
  obtain ⟨d, hd, hlength, hcontents⟩ := hread
  obtain ⟨htrim, horder⟩ := Document.outline_trim hd
  refine ⟨d, hd, by rw [htrim, hcontents], horder _ ?_⟩
  rw [hlength]
  exact List.reverse_perm _

end Document

end Stencil
