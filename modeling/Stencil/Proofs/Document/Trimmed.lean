import Mathlib.Data.List.Forall2
import Mathlib.Tactic.Common
import Stencil.Proofs.Text.Lines

/-!
# What trimming changes

Trimming takes white space from the texts of a document and leaves everything else alone.  Several
tags may take their part from one text, each deciding on what the tags before it have left, so this
is not said of a single tag but of the whole walk: node by node, the list that comes out is like the
list that went in (`alike_trimFrom`).  A cut is decided when the tag in front of it is seen and
made when its own node is reached, and what carries the induction is that a cut that is still to be
made only concerns white space.

## Main Definitions

* `Text.ink` — a text without its white space
* `Node.Alike`, `Forest.Alike` — what differs in the white space of texts at most
-/

namespace Stencil

namespace Text

/-- A text without its white space. -/
def ink (t : Text) : Text := t.filter fun c => !isBlank c

@[simp] theorem ink_append (t u : Text) : ink (t ++ u) = ink t ++ ink u := List.filter_append _ _

theorem ink_eq_nil_of_allBlank {t : Text} (h : allBlank t = true) : ink t = [] := by
  rw [ink, List.filter_eq_nil_iff]
  intro c hc
  simp [List.all_eq_true.1 h c hc]

end Text

/-! ## Nodes -/

/-- Two nodes that differ at most in the white space of their texts. -/
structure Node.Alike (m n : Node) : Prop where
  id : m.id = n.id
  statement : m.statement = n.statement
  span : m.span = n.span
  /-- The body of a tag is the same. -/
  body : m.isText = false → m.content = n.content
  /-- A text has the same characters, apart from white space. -/
  ink : Text.ink m.content = Text.ink n.content

namespace Node

theorem Alike.refl (n : Node) : n.Alike n := ⟨rfl, rfl, rfl, fun _ => rfl, rfl⟩

theorem Alike.isText_eq {m n : Node} (h : m.Alike n) : m.isText = n.isText := by
  rw [isText, isText, kind, kind, h.statement]

theorem Alike.trans {l m n : Node} (h : l.Alike m) (h' : m.Alike n) : l.Alike n where
  id := h.id.trans h'.id
  statement := h.statement.trans h'.statement
  span := h.span.trans h'.span
  body hl := (h.body hl).trans (h'.body (h.isText_eq ▸ hl))
  ink := h.ink.trans h'.ink

/-- A text with another content is alike if the white space makes all the difference. -/
theorem alike_of_ink {n : Node} {content : Text} (hn : n.isText = true)
    (h : Text.ink content = Text.ink n.content) : Alike { n with content } n where
  id := rfl
  statement := rfl
  span := rfl
  body htag := absurd (htag.symm.trans hn) Bool.false_ne_true
  ink := h

/-- A node that lets the line start behind it only loses white space with its last line. -/
theorem alike_dropLastLine {n : Node} (h : n.endsBlank = true) : n.dropLastLine.Alike n := by
  rw [dropLastLine]
  cases hn : n.isText with
  | false => exact Alike.refl n
  | true =>
    rw [endsBlank, hn, Bool.not_true, Bool.false_or] at h
    apply alike_of_ink hn
    conv_rhs => rw [← Text.splitLastLine_append n.content]
    rw [Text.ink_append, Text.ink_eq_nil_of_allBlank h, List.append_nil]

/-- A node that lets the line end in front of it only loses white space with its first line. -/
theorem alike_dropFirstLine {n : Node} (h : n.startsBlank = true) : n.dropFirstLine.Alike n := by
  rw [dropFirstLine]
  cases hn : n.isText with
  | false => exact Alike.refl n
  | true =>
    rw [startsBlank, hn, Bool.not_true, Bool.false_or] at h
    apply alike_of_ink hn
    conv_rhs => rw [← Text.splitFirstLine_append n.content]
    rw [Text.ink_append, Text.ink_eq_nil_of_allBlank h, List.nil_append]

end Node

/-! ## Lists of nodes -/

theorem alike_map_toList {f : Node → Node} {before : Option Node}
    (h : ∀ n ∈ before, (f n).Alike n) :
    List.Forall₂ Node.Alike (before.map f).toList before.toList := by
  cases before with
  | none => exact .nil
  | some n => exact .cons (h n rfl) .nil

theorem alike_refl (nodes : List Node) : List.Forall₂ Node.Alike nodes nodes :=
  List.forall₂_same.2 fun n _ => Node.Alike.refl n

/-- **Trimming takes away white space from texts.**  If a cut is still to be made in the first node,
it only concerns white space. -/
theorem alike_trimFrom (before : Option Node) (cut : Bool) (nodes : List Node)
    (hcut : cut = true → nodes.head?.all Node.startsBlank = true) :
    List.Forall₂ Node.Alike (trimFrom before cut nodes) (before.toList ++ nodes) := by
  induction nodes generalizing before cut with
  | nil =>
    rw [trimFrom, List.append_nil]
    exact alike_refl before.toList
  | cons n rest ih =>
    rw [trimFrom]
    have hfirst : (if cut then n.dropFirstLine else n).Alike n := by
      cases cut with
      | false => exact .refl n
      | true => exact Node.alike_dropFirstLine (hcut rfl)
    generalize (if cut = true then n.dropFirstLine else n) = m at hfirst
    have hbehind : ∀ cut', (cut' = true → rest.head?.all Node.startsBlank = true) →
        List.Forall₂ Node.Alike (trimFrom (some m) cut' rest) (n :: rest) := by
      intro cut' hcut'
      obtain ⟨m', rest', hm, hrest, htrim⟩ :=
        List.forall₂_cons_right_iff.1 (ih (some m) cut' hcut')
      rw [htrim]
      exact .cons (hm.trans hfirst) hrest
    split
    · next heligible =>
      simp only [Bool.and_eq_true] at heligible
      obtain ⟨⟨-, hbefore⟩, hrest⟩ := heligible
      refine List.rel_append (alike_map_toList ?_) (hbehind true fun _ => hrest)
      intro m hm
      exact Node.alike_dropLastLine ((Option.all_eq_true _ _).1 hbefore m hm)
    · exact List.rel_append (alike_refl _) (hbehind false fun h => absurd h Bool.false_ne_true)

theorem alike_trimNodes (nodes : List Node) :
    List.Forall₂ Node.Alike (trimNodes nodes) nodes :=
  alike_trimFrom none false nodes fun h => absurd h Bool.false_ne_true

/-! ## Forests -/

/-- Two forests of the same shape, with nodes that are alike. -/
inductive Forest.Alike : Forest → Forest → Prop
  | nil : Alike .nil .nil
  | node {m n : Node} {body body' rest rest' : Forest} (first : m.Alike n)
      (inside : Alike body body') (behind : Alike rest rest') :
      Alike (.node m body rest) (.node n body' rest')

theorem Forest.Alike.refl (f : Forest) : f.Alike f := by
  induction f with
  | nil => exact .nil
  | node n body rest ihb ihr => exact .node (.refl n) ihb ihr

/-- A forest is refilled with nodes in its own shape. -/
theorem Forest.alike_refill {f : Forest} {ns : List Node}
    (h : List.Forall₂ Node.Alike ns f.nodes) (more : List Node) :
    (f.refill (ns ++ more)).1.Alike f := by
  induction f generalizing ns more with
  | nil => exact .nil
  | node n body rest ihb ihr =>
    obtain ⟨m, ns, hfirst, hnodes, rfl⟩ := List.forall₂_cons_right_iff.1 h
    have hinside := List.forall₂_take_append ns body.nodes rest.nodes hnodes
    have hbehind := List.forall₂_drop_append ns body.nodes rest.nodes hnodes
    have hsize : (ns.take body.nodes.length).length = body.size := by
      rw [hinside.length_eq, length_nodes]
    have hleft : (body.refill (ns.take _ ++ (ns.drop body.nodes.length ++ more))).2 = _ :=
      (body.refill_append hsize).2
    have hbody := ihb hinside (ns.drop body.nodes.length ++ more)
    rw [← List.append_assoc, List.take_append_drop] at hleft hbody
    rw [List.cons_append, refill]
    dsimp only
    rw [hleft]
    exact .node hfirst hbody (ihr hbehind more)

/-- **Trimming a document keeps its shape**, and all of its nodes apart from white space in
texts. -/
theorem Document.alike_trim (d : Document) : d.trim.forest.Alike d.forest := by
  rw [trim]
  split
  · exact .refl d.forest
  · have hnodes := Forest.alike_refill (alike_trimNodes d.forest.nodes) []
    rwa [List.append_nil] at hnodes

end Stencil
