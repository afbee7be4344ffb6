import Stencil.Document.Basic
import Stencil.Text.Quoted

/-!
# Outlines

Flat views of a document: the list of its nodes with the links between them, and the dump, which
shows one node on a line and how deep it stands by the tabs in front of it.

## Main Definitions

* `Outline.Entry`, `Document.outline` — the nodes with their links
* `Document.dump` — the dump
-/

namespace Stencil

/-- A node of a document, the root included, with its links. -/
structure Outline.Entry where
  id : Nat
  /-- What the node asks for; the root asks for nothing. -/
  statement : Option Statement
  content : Text
  span : Span
  /-- The node that holds it. -/
  parent : Option Nat
  /-- The nodes that it holds. -/
  children : List Nat
  /-- The number of nodes around it. -/
  depth : Nat
deriving DecidableEq, Repr

namespace Outline.Entry

/-- The kind of a node, the root included. -/
def kind (e : Entry) : NodeKind :=
  match e.statement with
  | some statement => statement.kind
  | none => .root

/-- The node created before. -/
def prev? (e : Entry) : Option Nat := if e.id = 0 then none else some (e.id - 1)

/-- The node created next, among the given number of nodes. -/
def next? (count : Nat) (e : Entry) : Option Nat :=
  if e.id + 1 < count then some (e.id + 1) else none

end Outline.Entry

namespace Forest

/-- The entries of the nodes of a forest, in reading order. -/
def entries (parent depth : Nat) : Forest → List Outline.Entry
  | nil => []
  | node n body rest =>
    ⟨n.id, some n.statement, n.content, n.span, some parent, body.siblings.map (·.id), depth⟩ ::
      (entries n.id (depth + 1) body ++ entries parent depth rest)

end Forest

namespace Document

/-- The nodes of a document with their links, from the root on in reading order. -/
def outline (d : Document) : List Outline.Entry :=
  ⟨0, none, [], .nowhere, none, d.forest.siblings.map (·.id), 0⟩ :: d.forest.entries 0 1

/-- The line of a node in a dump. -/
def dumpLine (contents : Bool) (depth : Nat) (kind : NodeKind) (content : Text) : Text :=
  List.replicate depth '\t' ++ kind.name ++
    (if contents then [':', ' '] ++ Text.quoted content else []) ++ ['\n']

/-- The lines of the nodes of a forest in a dump. -/
def dumpForest (contents : Bool) (depth : Nat) : Forest → Text
  | .nil => []
  | .node n body rest =>
    dumpLine contents depth n.kind n.content ++ dumpForest contents (depth + 1) body ++
      dumpForest contents depth rest

/-- The dump of a document: a line for every node in reading order. -/
def dump (contents : Bool) (d : Document) : Text :=
  dumpLine contents 0 .root [] ++ dumpForest contents 1 d.forest

end Document

end Stencil
