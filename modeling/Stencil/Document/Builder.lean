import Stencil.Document.Basic
import Stencil.Event
import Stencil.Statement.Classify

/-!
# Building documents

The segments of a source are put into place one by one.  A tag that closes a branch first ends the
innermost open one; a tag that opens a branch takes the segments after it.  Branches that are open
at the end of the source end there.

## Main Definitions

* `Builder` — a document on the way, with its open branches
* `Builder.step` — the place of one more segment
* `Document.read` — the document of a source

## Design Notes

The builder is a forest seen from the place of the next node: the siblings before it, and for every
open branch its opener with the siblings before that one.  Both kinds of siblings are held nearest
first, so that every step is at the front of a list.
-/

namespace Stencil

/-- A document on the way. -/
structure Builder where
  /-- The number of nodes so far, the root included; the next node has it as its own number. -/
  count : Nat
  /-- The siblings before the next node, the nearest first. -/
  before : List (Node × Forest)
  /-- The openers of the open branches, the innermost first, each with the siblings before it. -/
  opened : List (Node × List (Node × Forest))

namespace Builder

/-- Only the root so far. -/
def start : Builder := ⟨1, [], []⟩

/-- The forest of siblings that are held nearest first. -/
def toForest (before : List (Node × Forest)) : Forest := Forest.ofTrees before.reverse

/-- Adds a node that holds nothing. -/
def leaf (b : Builder) (n : Node) : Builder :=
  { b with count := b.count + 1, before := (n, .nil) :: b.before }

/-- Adds a node that holds what comes after it. -/
def enter (b : Builder) (n : Node) : Builder :=
  ⟨b.count + 1, [], (n, b.before) :: b.opened⟩

/-- Ends the innermost open branch, if there is one. -/
def leave? (b : Builder) : Option Builder :=
  match b.opened with
  | [] => none
  | (n, before) :: opened => some ⟨b.count, (n, toForest b.before) :: before, opened⟩

/-- Adds a node, which takes what comes after it if its kind opens a branch. -/
def add (b : Builder) (statement : Statement) (content : Text) (span : Span) : Builder :=
  let n : Node := ⟨b.count, statement, content, span⟩
  if statement.kind.opens then b.enter n else b.leaf n

/-- Adds a segment.  A closing tag without an open branch is an error. -/
def step (b : Builder) (segment : Segment) (span : Span) : Except Error Builder :=
  match segment with
  | .text content => .ok (b.add .text content span)
  | .tag body =>
    let body := Text.trim body
    let statement := Statement.ofBody body
    if statement.kind.closes then
      match b.leave? with
      | some b => .ok (b.add statement body span)
      | none => .error { cause := .unmatchedClose body, lineNumber := span.start.line.toNat }
    else .ok (b.add statement body span)

/-- The notes about a segment that has found its place. -/
def notes (segment : Segment) (span : Span) : List Event :=
  match segment with
  | .text _ => []
  | .tag body =>
    [.noted (.attached (Statement.ofBody (Text.trim body)).kind span.start.line)]

/-- Adds segments one by one, up to the first error. -/
def run (b : Builder) : List (Segment × Span) → Traced (Except Error Builder)
  | [] => pure (.ok b)
  | (segment, span) :: rest =>
    match b.step segment span with
    | .error e => pure (.error e)
    | .ok b => Traced.bind ⟨(), notes segment span⟩ fun _ => run b rest

/-- Ends all open branches, the innermost first. -/
def closeAll (before : List (Node × Forest)) : List (Node × List (Node × Forest)) → Forest
  | [] => toForest before
  | (n, outer) :: opened => closeAll ((n, toForest before) :: outer) opened

/-- The forest of everything that has been added. -/
def finish (b : Builder) : Forest := closeAll b.before b.opened

end Builder

/-- The document of a source, untouched. -/
def Document.read (markers : Markers) (source : Text) : Traced (Except Error Document) :=
  (Builder.start.run (Segment.scan markers source)).map fun r => r.map fun b => ⟨b.finish, false⟩

end Stencil
