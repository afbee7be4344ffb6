import Stencil.Segment
import Stencil.Statement.Basic

/-!
# Documents

A document is a source in which every piece has found its place: branches hold what stands between
their tag and the tag that closes them.  The tags that close and go on are siblings of the one that
opened.

## Main Definitions

* `Node` — a piece of a source with its statement
* `Forest` — siblings with what each of them holds
* `Forest.nodes` — all nodes in reading order
* `Document` — the forest below the root
-/

namespace Stencil

/-- A piece of a source. -/
structure Node where
  /-- The number of the node, counted from the root in the order of creation. -/
  id : Nat
  statement : Statement
  /-- The text itself, or the body of the tag. -/
  content : Text
  span : Span
deriving DecidableEq, Repr

namespace Node

/-- The kind of a node. -/
def kind (n : Node) : NodeKind := n.statement.kind

/-- Whether a node is plain text. -/
def isText (n : Node) : Bool := n.kind == .text

end Node

/-- Siblings: none, or a first one with what it holds, and the others. -/
inductive Forest
  | nil
  | node (first : Node) (body rest : Forest)
deriving DecidableEq, Repr

namespace Forest

/-- All nodes in reading order: a node, then what it holds, then what comes after it. -/
def nodes : Forest → List Node
  | nil => []
  | node first body rest => first :: (nodes body ++ nodes rest)

/-- The siblings on the top level. -/
def siblings : Forest → List Node
  | nil => []
  | node first _ rest => first :: siblings rest

/-- The number of nodes. -/
def size : Forest → Nat
  | nil => 0
  | node _ body rest => size body + size rest + 1

@[simp] theorem length_nodes (f : Forest) : f.nodes.length = f.size := by
  induction f with
  | nil => rfl
  | node first body rest ihb ihr => simp [nodes, size, ihb, ihr]

/-- Puts one sibling in front of others. -/
def cons (tree : Node × Forest) (rest : Forest) : Forest := node tree.1 tree.2 rest

/-- The siblings of a list. -/
def ofTrees (trees : List (Node × Forest)) : Forest := trees.foldr cons nil

/-- Replaces all nodes by those of a list, in reading order, and returns what is left of the list.
Nodes without a replacement stay. -/
def refill : Forest → List Node → Forest × List Node
  | nil, nodes => (nil, nodes)
  | node first body rest, [] => (node first body rest, [])
  | node _ body rest, n :: nodes =>
    let (body, nodes) := refill body nodes
    let (rest, nodes) := refill rest nodes
    (node n body rest, nodes)

/-- Whatever the replacements are, as long as there are enough of them the forest takes them all. -/
theorem refill_append (f : Forest) {ns more : List Node} (h : ns.length = f.size) :
    (f.refill (ns ++ more)).1.nodes = ns ∧ (f.refill (ns ++ more)).2 = more := by
  induction f generalizing ns more with
  | nil =>
    obtain rfl : ns = [] := List.eq_nil_of_length_eq_zero h
    simp [refill, nodes]
  | node first body rest ihb ihr =>
    match ns, h with
    | n :: ns, h =>
      have hlen : ns.length = body.size + rest.size := by simpa [size] using h
      obtain ⟨hb, hb'⟩ := @ihb (ns.take body.size) (ns.drop body.size ++ more) (by simp [hlen])
      obtain ⟨hr, hr'⟩ := @ihr (ns.drop body.size) more (by simp [hlen])
      rw [← List.append_assoc, List.take_append_drop] at hb hb'
      simp [refill, nodes, hb, hb', hr, hr']

end Forest

/-- A source as a forest below its root. -/
structure Document where
  forest : Forest
  /-- Whether the white space around its tags has been taken away. -/
  trimmed : Bool
deriving DecidableEq, Repr

/-- The number of nodes of a document with its root. -/
def Document.size (d : Document) : Nat := d.forest.size + 1

end Stencil
