import Stencil.Event

/-!
# Sinks

A sink takes output as bytes, up to a limit, and fails when it is handed more.  Whoever writes into
it stops there: nothing that would come later is written, shown, asked or noted.

## Main Definitions

* `Sink`, `Sink.write` — a sink, and what becomes of it when bytes are handed over
* `Sink.follow` — what is seen of a computation that writes into a sink
* `Sink.explain` — the error that is reported when a sink has failed
-/

namespace Stencil

/-- Something that takes a limited number of bytes. -/
structure Sink where
  /-- The bytes that it has taken. -/
  taken : List UInt8
  /-- The number of bytes that it still takes. -/
  room : Nat
  /-- Whether it has been handed more than it takes. -/
  failed : Bool
deriving DecidableEq, Repr

namespace Sink

/-- A sink that takes `limit` bytes in all. -/
def ofLimit (limit : Nat) : Sink := ⟨[], limit, false⟩

/-- Hands bytes over.  A sink takes as many as it has room for, and fails if some are left. -/
def write (k : Sink) (bytes : List UInt8) : Sink where
  taken := k.taken ++ bytes.take k.room
  room := k.room - bytes.length
  failed := k.failed || decide (k.room < bytes.length)

/-- What is seen of a computation that writes into a sink, and the sink after it.  The computation
stops at the first write that fails. -/
def follow (k : Sink) : List Event → List Event × Sink
  | [] => ([], k)
  | .wrote piece :: rest =>
    let k := k.write (Text.bytes piece)
    if k.failed then ([], k)
    else
      let (seen, k) := follow k rest
      (.wrote piece :: seen, k)
  | event :: rest =>
    let (seen, k) := follow k rest
    (event :: seen, k)

/-- The error to report.  Why the sink has failed says more than that a write did not succeed. -/
def explain (k : Sink) (e : Error) : Error := if k.failed then { cause := .sinkFull } else e

end Sink

end Stencil
