import Stencil.Document.Builder
import Stencil.Document.Outline
import Stencil.Document.Trimming

/-!
# Arenas

An arena is a document as a table.  Every node has a row, in the order of creation, and names the
nodes around it by their numbers: the one that holds it, those that it holds, and its neighbours on
the chain that runs through all nodes in the order of the source.  A builder of an arena only knows
the node that holds the next one and the node that was created last.

Nothing in the type keeps the links from running in circles or into the void.  A walk along them has
a result only if it meets nodes all the way and ends, and it may take as many steps as there are
nodes: one that goes on after that meets a node for the second time.

## Main Definitions

* `Arena`, `Arena.Cell` — the table and its rows
* `Arena.append` — one more node with the links to it
* `Arena.follow` — the numbers along one kind of links
* `Arena.chain?`, `Arena.depth?`, `Arena.preorder?` — walks along the links
* `Arena.read` — the arena of a source
* `Arena.trim?`, `Arena.dump?` — trimming and dumping along the links

## Design Notes

A number of a node is stored in 32 bits and is a natural number here.  What is said of arenas is
therefore meant for those with fewer than 2 ^ 32 nodes; beyond that, stored numbers start again
from zero.
-/

namespace Stencil

/-- A row of an arena: a node with its links. -/
structure Arena.Cell where
  /-- What the node asks for; the root asks for nothing. -/
  statement : Option Statement
  content : Text
  span : Span
  /-- The node that holds it. -/
  parent : Option Nat
  /-- The nodes that it holds, in their order. -/
  children : List Nat
  /-- The node in front of it on the chain. -/
  prev : Option Nat
  /-- The node behind it on the chain. -/
  next : Option Nat
deriving DecidableEq, Repr

/-- The kind of the node of a row. -/
def Arena.Cell.kind (c : Cell) : NodeKind :=
  match c.statement with
  | some statement => statement.kind
  | none => .root

/-- A document as a table of its nodes.  The number of a node is that of its row. -/
structure Arena where
  cells : List Arena.Cell
  /-- Whether the white space around its tags has been taken away. -/
  trimmed : Bool
deriving DecidableEq, Repr

namespace Arena

/-- An arena with a root only. -/
def start : Arena := ⟨[⟨none, [], .nowhere, none, [], none, none⟩], false⟩

/-- The number of nodes with the root, which is also the number of the next node. -/
def size (a : Arena) : Nat := a.cells.length

/-- Adds a node as the last one that `parent` holds, and puts it behind `prev` on the chain. -/
def append (a : Arena) (parent prev : Nat) (statement : Statement) (content : Text) (span : Span) :
    Arena :=
  let cell : Cell := ⟨some statement, content, span, some parent, [], some prev, none⟩
  let cells := (a.cells ++ [cell]).modify parent fun c =>
    { c with children := c.children ++ [a.size] }
  { a with cells := cells.modify prev fun c => { c with next := some a.size } }

/-! ## Walks -/

/-- The numbers that a link leads to and the links behind it, in no more steps than given. -/
def follow (a : Arena) (link : Cell → Option Nat) : Nat → Option Nat → Option (List Nat)
  | _, none => some []
  | 0, some _ => none
  | steps + 1, some id => do
    let c ← a.cells[id]?
    let rest ← follow a link steps (link c)
    return id :: rest

/-- The numbers along the chain, from the root on. -/
def chain? (a : Arena) : Option (List Nat) := a.follow Cell.next a.size (some 0)

/-- The number of nodes around a node. -/
def depth? (a : Arena) (id : Nat) : Option Nat := do
  let c ← a.cells[id]?
  let around ← a.follow Cell.parent a.size c.parent
  return around.length

/-- The numbers of some nodes and of all that they hold, a node before what it holds, in no more
steps than given.  The nodes are those on a stack, and what a node holds goes on top of the
others. -/
def preorderFrom (a : Arena) : Nat → List Nat → Option (List Nat)
  | _, [] => some []
  | 0, _ :: _ => none
  | steps + 1, id :: stack => do
    let c ← a.cells[id]?
    let rest ← preorderFrom a steps (c.children ++ stack)
    return id :: rest

/-- The numbers of all nodes below the root and of the root itself, a node before what it holds. -/
def preorder? (a : Arena) : Option (List Nat) := a.preorderFrom a.size [0]

/-- The lines of a node and of all that it holds in a dump, on ways down of no more nodes than
given. -/
def dumpNode (a : Arena) (contents : Bool) : Nat → Nat → Nat → Option Text
  | 0, _, _ => none
  | steps + 1, depth, id => do
    let c ← a.cells[id]?
    let inside ← c.children.mapM (dumpNode a contents steps (depth + 1))
    return Document.dumpLine contents depth c.kind c.content ++ inside.flatten

/-- The dump of an arena: a line for every node. -/
def dump? (a : Arena) (contents : Bool) : Option Text := a.dumpNode contents a.size 0 0

/-! ## Trimming -/

/-- The content of the node that a link leads to, if the node is a text. -/
def text? (a : Arena) (link : Option Nat) : Option Text := do
  let c ← a.cells[← link]?
  if c.kind = .text then some c.content else none

/-- Changes the content of the node that a link leads to, if the node is a text. -/
def mapText (a : Arena) (link : Option Nat) (f : Text → Text) : Arena :=
  match link with
  | none => a
  | some id =>
    { a with
      cells := a.cells.modify id fun c =>
        if c.kind = .text then { c with content := f c.content } else c }

/-- A tag takes its lines from the texts next to it on the chain, if it may. -/
def trimTag (a : Arena) (id : Nat) : Arena :=
  match a.cells[id]? with
  | none => a
  | some c =>
    if c.kind.isTrimmable &&
        (a.text? c.prev).all (Text.allBlank ·.splitLastLine.2) &&
        (a.text? c.next).all (Text.allBlank ·.splitFirstLine.1) then
      (a.mapText c.prev (·.splitLastLine.1)).mapText c.next (·.splitFirstLine.2)
    else a

/-- The arena without the white space around the tags that stand alone.  Trimming it once more
changes nothing. -/
def trim? (a : Arena) : Option Arena :=
  if a.trimmed then some a
  else do
    let order ← a.preorder?
    return order.foldl trimTag { a with trimmed := true }

end Arena

/-! ## Building -/

/-- An arena on the way. -/
structure Arena.Site where
  arena : Arena
  /-- The node that holds the next one. -/
  holder : Nat
  /-- The node that the next one comes behind. -/
  last : Nat
deriving DecidableEq, Repr

namespace Arena.Site

/-- Only the root so far. -/
def start : Site := ⟨.start, 0, 0⟩

/-- Adds a node, which holds what comes after it if its kind opens a branch. -/
def add (s : Site) (statement : Statement) (content : Text) (span : Span) : Site where
  arena := s.arena.append s.holder s.last statement content span
  holder := if statement.kind.opens then s.arena.size else s.holder
  last := s.arena.size

/-- Goes up from the node that holds the next one, if there is a node around it. -/
def leave? (s : Site) : Option Site := do
  let c ← s.arena.cells[s.holder]?
  return { s with holder := ← c.parent }

/-- Adds a segment.  A closing tag without an open branch is an error. -/
def step (s : Site) (segment : Segment) (span : Span) : Except Error Site :=
  match segment with
  | .text content => .ok (s.add .text content span)
  | .tag body =>
    let body := Text.trim body
    let statement := Statement.ofBody body
    if statement.kind.closes then
      match s.leave? with
      | some s => .ok (s.add statement body span)
      | none => .error { cause := .unmatchedClose body, lineNumber := span.start.line.toNat }
    else .ok (s.add statement body span)

/-- Adds segments one by one, up to the first error. -/
def run (s : Site) : List (Segment × Span) → Traced (Except Error Site)
  | [] => pure (.ok s)
  | (segment, span) :: rest =>
    match s.step segment span with
    | .error e => pure (.error e)
    | .ok s => Traced.bind ⟨(), Builder.notes segment span⟩ fun _ => run s rest

end Arena.Site

/-- The arena of a source, untouched. -/
def Arena.read (markers : Markers) (source : Text) : Traced (Except Error Arena) :=
  (Site.start.run (Segment.scan markers source)).map fun r => r.map Site.arena

end Stencil
