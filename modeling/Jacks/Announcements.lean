import Jacks.EventQueue
import Jacks.ProcessThread

/-!
# Announcing captured blocks

For every port it has written, `_process_cb` enqueues one PROCESS event.  The
callback may give up after any write and at any enqueue, with the earlier ports
of the cycle already written and announced, while the script takes events out of
the queue.

* `Announced` — the accounting: a block written whole is announced, or its
  announcement was refused, or it is about to be announced.
* `InOrder` — the callback visits the ports of a cycle in order, so what it did
  to one port of one cycle it does not do again, and a port whose write failed
  is passed over.
-/

namespace Jacks

open Foundations JackRingbuffer

universe u v

/-- The write of a whole block: one that returned 0. -/
def Obs.wroteBlock {κ : Type v} : Obs κ → Bool
  | .wrote _ _ _ _ rc => rc = 0
  | _ => false

/-- How many blocks were written whole. -/
def blocksWritten {κ : Type v} (history : List (Obs κ)) : ℕ :=
  history.countP Obs.wroteBlock

theorem blocksWritten_append {κ : Type v} (history : List (Obs κ)) (o : Option (Obs κ)) :
    blocksWritten (history ++ o.toList) = blocksWritten history + o.toList.countP Obs.wroteBlock :=
  List.countP_append

/-- Whether the callback is between a successful write and its enqueue, as a
number. -/
def ProcessPc.unannounced : ProcessPc → ℕ
  | .enqueue _ _ => 1
  | _ => 0

/-- Whether the invocation in progress may have dealt with port `i` already. -/
def ProcessPc.Visited : ProcessPc → ℕ → Prop
  | .idle, _ => False
  | .loop _ upTo, i => i < upTo
  | .enqueue _ current, i => i ≤ current
  | .post _ current, i => i ≤ current
  | .done _, _ => True

namespace RunningClient

variable {ρ : Type u} {κ : Type v}

/-! ## The accounting -/

/-- Every block written whole is announced, was refused, or is about to be
announced. -/
def Announced (t : Thread ProcessPc) (history : List (Obs κ)) : Prop :=
  blocksWritten history =
    countOf .process (enqueuedEvents history) + countOf .process (refusedEvents history) +
      t.pc.unannounced

/-- What the other threads enqueue or have refused is not a PROCESS event. -/
theorem counts_of_quiet {o : Option (Obs κ)} (quiet : o.any Obs.ofProcess = false) :
    o.toList.countP Obs.wroteBlock = 0 ∧
      countOf .process (o.bind Obs.enqueued?).toList = 0 ∧
      countOf .process (o.bind Obs.refused?).toList = 0 := by
  rcases o with _ | x
  · exact ⟨rfl, rfl, rfl⟩
  · cases x with
    | wrote => cases quiet
    | enqueued o | refused o =>
        have other : o.event ≠ .process := by simpa [Obs.ofProcess] using quiet
        simp [Obs.wroteBlock, Obs.enqueued?, Obs.refused?, other]
    | _ => exact ⟨rfl, rfl, rfl⟩

theorem Announced.step {n : ℕ} {t t' : Thread ProcessPc} {history : List (Obs κ)}
    {o : Option (Obs κ)} (inv : Announced t history) (moves : ProcessMove n t t' o) :
    Announced t' (history ++ o.toList) := by
  unfold Announced at *
  rw [blocksWritten_append, enqueuedEvents_append, refusedEvents_append, countOf_append,
    countOf_append]
  cases moves with
  | still quiet =>
      obtain ⟨noBlock, noEnqueue, noRefusal⟩ := counts_of_quiet quiet
      omega
  | enqueued | refused =>
      simp only [ProcessPc.unannounced] at inv
      simp [inv, Obs.wroteBlock, Obs.enqueued?, Obs.refused?, Occurrence.event,
        ProcessPc.unannounced]
      omega
  | _ =>
      simp only [ProcessPc.unannounced] at inv
      simp [inv, Obs.wroteBlock, Obs.enqueued?, Obs.refused?, ProcessPc.unannounced]

/-! ## The order of the ports -/

/-- Cycle `cycle` has dealt with port `i`, or may have. -/
def Passed (t : Thread ProcessPc) (cycle i : ℕ) : Prop :=
  cycle < t.serial ∨ cycle = t.serial ∧ t.pc.Visited i

/-- Only ports passed were written and announced; a callback about to announce a
port has not failed to write it; and a port whose write failed is not announced. -/
structure InOrder (t : Thread ProcessPc) (history : List (Obs κ)) : Prop where
  written : ∀ cycle i free data rc, .wrote cycle i free data rc ∈ history → Passed t cycle i
  announced : ∀ cycle i, .enqueued (.process cycle i) ∈ history → Passed t cycle i
  succeeded : ∀ call i, t.pc = .enqueue call i →
    ∀ free data rc, .wrote t.serial i free data rc ∈ history → rc = 0
  skipped : ∀ cycle i free data, .wrote cycle i free data (-1) ∈ history →
    .enqueued (.process cycle i) ∉ history

/-- The callback is about to write port `i`, so it has not done so in this cycle. -/
theorem not_passed_loop {cycle : ℕ} {call : ProcessCall} {i : ℕ} :
    ¬ Passed ⟨cycle, .loop call i⟩ cycle i := by
  simp [Passed, ProcessPc.Visited]

/-- What was passed stays passed. -/
theorem Passed.step {n : ℕ} {t t' : Thread ProcessPc} {o : Option (Obs κ)} {cycle i : ℕ}
    (passed : Passed t cycle i) (moves : ProcessMove n t t' o) : Passed t' cycle i := by
  rcases passed with past | ⟨rfl, visited⟩
  · refine .inl ?_
    cases moves with
    | returned => exact Nat.lt_succ_of_lt past
    | _ => exact past
  · cases moves with
    | still => exact .inr ⟨rfl, visited⟩
    | invoked => exact visited.elim
    | endOfPorts | overran | refused => exact .inr ⟨rfl, trivial⟩
    | wrote => exact .inr ⟨rfl, Nat.le_of_lt visited⟩
    | enqueued => exact .inr ⟨rfl, visited⟩
    | posted => exact .inr ⟨rfl, Nat.lt_succ_of_le visited⟩
    | returned => exact .inl (Nat.lt_succ_self _)

/-- A port just written was passed. -/
theorem passed_of_wrote {n : ℕ} {t t' : Thread ProcessPc} {cycle i free : ℕ}
    {data : List Byte} {rc : ℤ}
    (moves : ProcessMove n t t' (some (.wrote cycle i free data rc : Obs κ))) :
    Passed t' cycle i := by
  cases moves with
  | still quiet => cases quiet
  | wrote => exact .inr ⟨rfl, Nat.le_refl _⟩
  | overran => exact .inr ⟨rfl, trivial⟩

/-- A port just announced was passed. -/
theorem passed_of_enqueued {n : ℕ} {t t' : Thread ProcessPc} {cycle i : ℕ}
    (moves : ProcessMove n t t' (some (.enqueued (.process cycle i) : Obs κ))) :
    Passed t' cycle i := by
  cases moves with
  | still quiet => cases quiet
  | enqueued => exact .inr ⟨rfl, Nat.le_refl _⟩

theorem InOrder.step {n : ℕ} {t t' : Thread ProcessPc} {history : List (Obs κ)} {o : Option (Obs κ)}
    (inv : InOrder t history) (moves : ProcessMove n t t' o) :
    InOrder t' (history ++ o.toList) := by
  constructor
  · intro cycle i free data rc observed
    rcases List.mem_append.mp observed with earlier | now
    · exact (inv.written _ _ _ _ _ earlier).step moves
    · obtain rfl := Option.mem_toList.mp now
      exact passed_of_wrote moves
  · intro cycle i observed
    rcases List.mem_append.mp observed with earlier | now
    · exact (inv.announced _ _ earlier).step moves
    · obtain rfl := Option.mem_toList.mp now
      exact passed_of_enqueued moves
  · intro call i here free data rc observed
    rcases List.mem_append.mp observed with earlier | now
    · cases moves with
      | still quiet => exact inv.succeeded call i here free data rc earlier
      | wrote =>
          -- the port has only just been written: there is no earlier write of it
          obtain ⟨rfl, rfl⟩ := here
          exact absurd (inv.written _ _ _ _ _ earlier) not_passed_loop
      | _ => cases here
    · obtain rfl := Option.mem_toList.mp now
      cases moves with
      | still quiet => cases quiet
      | wrote => rfl
      | overran => cases here
  · intro cycle i free data failed announced
    rcases List.mem_append.mp failed with earlier | now
    · rcases List.mem_append.mp announced with before | after
      · exact inv.skipped _ _ _ _ earlier before
      · obtain rfl := Option.mem_toList.mp after
        cases moves with
        | still quiet => cases quiet
        | enqueued => exact absurd (inv.succeeded _ _ rfl _ _ _ earlier) (by decide)
    · obtain rfl := Option.mem_toList.mp now
      have before : Obs.enqueued (.process cycle i) ∈ history := by simpa using announced
      cases moves with
      | still quiet => cases quiet
      | overran => exact not_passed_loop (inv.announced _ _ before)

/-! ## All runs -/

section Runs

variable [DecidableEq κ] [JackRingbuffer ρ] {rbSize : UInt32} {heap : List Malloced}
variable {s : RunningClient ρ κ} {history : List (Obs κ)}

theorem reaches_announced (run : (clientSystem ρ κ rbSize heap).Reaches s history) :
    Announced s.process history := by
  refine run.induct (I := fun s history => Announced s.process history) ?_ ?_
  · rfl
  · intro s history a s' o _ inv _ moves
    exact inv.step (step_of_next moves).processMove

theorem reaches_inOrder (run : (clientSystem ρ κ rbSize heap).Reaches s history) :
    InOrder s.process history := by
  refine run.induct (I := fun s history => InOrder s.process history) ?_ ?_
  · constructor <;> simp
  · intro s history a s' o _ inv _ moves
    exact inv.step (step_of_next moves).processMove

/-- PROCESS events are delivered only for blocks written. -/
theorem delivered_le_written (run : (clientSystem ρ κ rbSize heap).Reaches s history) :
    countOf .process (deliveredEvents history) ≤ blocksWritten history := by
  have accounted := reaches_announced run
  have conserved := congrArg (countOf .process) (reaches_conserves run)
  rw [countOf_append] at conserved
  unfold Announced at accounted
  omega

/-- **Every captured block is announced exactly once and never early.**  In every
state of every run the blocks written whole are those announced, those whose
announcement was refused, and the one about to be announced; when a PROCESS
event is delivered, at least as many blocks have been written whole as PROCESS
events delivered, this one included; and a port whose write failed is not
announced in that cycle. -/
theorem blocks_announced (run : (clientSystem ρ κ rbSize heap).Reaches s history) :
    (blocksWritten history =
      countOf .process (enqueuedEvents history) + countOf .process (refusedEvents history) +
        s.process.pc.unannounced) ∧
    (∀ earlier later c o, history = earlier ++ .delivered c o :: later → o.event = .process →
      countOf .process (deliveredEvents earlier) + 1 ≤ blocksWritten earlier) ∧
    (∀ cycle i free data, .wrote cycle i free data (-1) ∈ history →
      .enqueued (.process cycle i) ∉ history) := by
  refine ⟨reaches_announced run, ?_, (reaches_inOrder run).skipped⟩
  intro earlier later c o split isProcess
  obtain ⟨t, upToHere⟩ := run.of_isPrefix
    (show earlier ++ (some (.delivered c o : Obs κ)).toList <+: history from
      ⟨later, by rw [split]; simp⟩)
  have := delivered_le_written upToHere
  rw [deliveredEvents_append, blocksWritten_append, countOf_append] at this
  simpa [isProcess, Obs.delivered?, Obs.wroteBlock] using this

end Runs

/-- Two frames are captured, announced and fetched. -/
def announceRun : List (Action Unit) :=
  [.processCb ⟨2, fun _ _ => 1#32⟩, .processStep, .processStep, .getEvent (), .dequeue ()]

theorem blocks_announced_announceRun :
    ∃ s history, (clientSystem (BoundedFifo Byte) Unit 8 [⟨fun _ => 0, 0⟩]).exec
        (clientSystem (BoundedFifo Byte) Unit 8 [⟨fun _ => 0, 0⟩]).init [] announceRun =
          some (s, history) ∧
      deliveredEvents history = [.process 0 0] ∧
      blocksWritten history =
        countOf .process (enqueuedEvents history) + countOf .process (refusedEvents history) +
          s.process.pc.unannounced :=
  ⟨_, _, rfl, by decide,
    (blocks_announced (TraceSystem.reaches_of_exec
      (clientSystem (BoundedFifo Byte) Unit 8 [⟨fun _ => 0, 0⟩]) announceRun rfl)).1⟩

end RunningClient

end Jacks
