import Mathlib.Tactic.Common
import Stencil.Sink

/-!
# How much a sink takes

A sink that has not failed cannot tell how its input is cut: handing over one piece after another,
up to the first that it refuses a part of, leaves it as handing over everything at once does
(`write_append_of_open`, `write_append_of_failed`).  So what becomes of a sink depends on the whole
output alone (`follow_eq_write`), and whoever writes into it is seen to do the first part of what
there was to do (`follow_isPrefix`).

## Main Definitions

* `Event.isOutput` — whether an event goes into the sink
-/

namespace Stencil

/-- Whether an event is a piece of the output. -/
def Event.isOutput : Event → Bool
  | wrote _ => true
  | showed _ | asked _ | noted _ => false

namespace Sink

variable {k : Sink}

/-! ## One piece after another -/

theorem failed_write (h : k.failed = false) (bytes : List UInt8) :
    (k.write bytes).failed = decide (k.room < bytes.length) := by
  rw [write, h, Bool.false_or]

/-- A sink that is open after a write was open before it, and had room for all of it. -/
theorem of_failed_write_eq_false {bytes : List UInt8} (h : (k.write bytes).failed = false) :
    k.failed = false ∧ bytes.length ≤ k.room := by
  rw [write, Bool.or_eq_false_iff, decide_eq_false_iff_not, Nat.not_lt] at h
  exact h

theorem write_nil (k : Sink) : k.write [] = k := by
  simp [write]

/-- What is accepted as a whole leaves the sink open for more. -/
theorem write_append_of_open {xs : List UInt8} (h : (k.write xs).failed = false)
    (ys : List UInt8) : k.write (xs ++ ys) = (k.write xs).write ys := by
  obtain ⟨hk, hroom⟩ := of_failed_write_eq_false h
  have hlt : k.room < xs.length + ys.length ↔ k.room - xs.length < ys.length := by omega
  simp only [write, hk, Nat.not_lt.2 hroom, hlt, List.take_append, List.length_append,
    List.append_assoc, Nat.sub_add_eq, Bool.false_or, decide_false]

/-- Behind a piece that was not accepted as a whole nothing is taken. -/
theorem write_append_of_failed (hk : k.failed = false) {xs : List UInt8}
    (h : (k.write xs).failed = true) (ys : List UInt8) : k.write (xs ++ ys) = k.write xs := by
  rw [failed_write hk, decide_eq_true_iff] at h
  have hroom : k.room - xs.length = 0 := by omega
  have hroom' : k.room - (xs.length + ys.length) = 0 := by omega
  have hlt : k.room < xs.length + ys.length := by omega
  simp only [write, List.take_append, List.length_append, hroom, hroom', List.take_zero,
    List.append_nil, h, hlt]

/-! ## One event after another -/

theorem follow_wrote_of_open {piece : Text} (h : (k.write (Text.bytes piece)).failed = false)
    (rest : List Event) :
    k.follow (.wrote piece :: rest) =
      (.wrote piece :: ((k.write (Text.bytes piece)).follow rest).1,
        ((k.write (Text.bytes piece)).follow rest).2) := by
  rw [follow]
  exact if_neg (Bool.eq_false_iff.1 h)

theorem follow_wrote_of_failed {piece : Text} (h : (k.write (Text.bytes piece)).failed = true)
    (rest : List Event) :
    k.follow (.wrote piece :: rest) = ([], k.write (Text.bytes piece)) := by
  rw [follow]
  exact if_pos h

theorem follow_cons {event : Event} (h : event.isOutput = false) (rest : List Event) :
    k.follow (event :: rest) = (event :: (k.follow rest).1, (k.follow rest).2) := by
  cases event with
  | wrote => cases h
  | showed | asked | noted =>
    rw [follow]
    exact nofun

/-- Events that are no output leave a sink as it is. -/
theorem follow_of_not_output {events : List Event} (h : ∀ event ∈ events, event.isOutput = false)
    (k : Sink) : k.follow events = (events, k) := by
  induction events with
  | nil => rfl
  | cons event rest ih =>
    obtain ⟨hevent, hrest⟩ := List.forall_mem_cons.1 h
    rw [follow_cons hevent, ih hrest]

/-- Behind a computation that comes to its end the sink follows the next one. -/
theorem follow_append_of_open {xs : List Event} (h : (k.follow xs).2.failed = false)
    (ys : List Event) :
    k.follow (xs ++ ys) =
      ((k.follow xs).1 ++ ((k.follow xs).2.follow ys).1, ((k.follow xs).2.follow ys).2) := by
  induction xs generalizing k with
  | nil => rfl
  | cons event xs ih =>
    rw [List.cons_append]
    cases event with
    | wrote piece =>
      cases hwrite : (k.write (Text.bytes piece)).failed with
      | true =>
        rw [follow_wrote_of_failed hwrite, hwrite] at h
        cases h
      | false =>
        rw [follow_wrote_of_open hwrite] at h ⊢
        rw [follow_wrote_of_open hwrite, ih h, List.cons_append]
    | showed | asked | noted =>
      rw [follow_cons rfl] at h ⊢
      rw [follow_cons rfl, ih h, List.cons_append]

/-- Behind a write that failed nothing happens. -/
theorem follow_append_of_failed (hk : k.failed = false) {xs : List Event}
    (h : (k.follow xs).2.failed = true) (ys : List Event) :
    k.follow (xs ++ ys) = k.follow xs := by
  induction xs generalizing k with
  | nil => exact absurd (hk.symm.trans h) Bool.false_ne_true
  | cons event xs ih =>
    rw [List.cons_append]
    cases event with
    | wrote piece =>
      cases hwrite : (k.write (Text.bytes piece)).failed with
      | true => rw [follow_wrote_of_failed hwrite, follow_wrote_of_failed hwrite]
      | false =>
        rw [follow_wrote_of_open hwrite] at h ⊢
        rw [follow_wrote_of_open hwrite, ih hwrite h]
    | showed | asked | noted =>
      rw [follow_cons rfl] at h ⊢
      rw [follow_cons rfl, ih hk h]

/-- **A sink ends up as if all output had been handed over at once.** -/
theorem follow_eq_write (hk : k.failed = false) (events : List Event) :
    (k.follow events).2 = k.write (Text.bytes (Event.output events)) := by
  induction events generalizing k with
  | nil => exact (write_nil k).symm
  | cons event rest ih =>
    cases event with
    | wrote piece =>
      have houtput : Event.output (.wrote piece :: rest) = piece ++ Event.output rest := rfl
      rw [houtput, Text.bytes_append]
      cases hwrite : (k.write (Text.bytes piece)).failed with
      | true => rw [follow_wrote_of_failed hwrite, write_append_of_failed hk hwrite]
      | false => rw [follow_wrote_of_open hwrite, write_append_of_open hwrite, ih hwrite]
    | showed | asked | noted =>
      rw [follow_cons rfl]
      exact ih hk

/-- **What is seen is the first part of what there was to do.** -/
theorem follow_isPrefix (k : Sink) (events : List Event) : (k.follow events).1 <+: events := by
  induction events generalizing k with
  | nil => exact List.prefix_rfl
  | cons event rest ih =>
    cases event with
    | wrote piece =>
      cases hwrite : (k.write (Text.bytes piece)).failed with
      | true =>
        rw [follow_wrote_of_failed hwrite]
        exact List.nil_prefix
      | false =>
        rw [follow_wrote_of_open hwrite]
        exact List.cons_prefix_cons.2 ⟨rfl, ih _⟩
    | showed | asked | noted =>
      rw [follow_cons rfl]
      exact List.cons_prefix_cons.2 ⟨rfl, ih k⟩

end Sink

end Stencil
