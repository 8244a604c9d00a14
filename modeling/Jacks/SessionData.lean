import Jacks.Session

/-!
# Session data under a disciplined script

A script that completes every event it was given once, and looks at its data only
in between, is served well by the one session event object and its latch, as long
as each session event found room in the queue.  The invariant (`Settled`) counts:
the session event is in the queue, or out with the script, or completed with the
latch posted, exactly when the callback that enqueued it waits for that.
-/

namespace Jacks

open Foundations JackRingbuffer

universe u v

/-- The completion of an event object. -/
def Obs.completes {κ : Type v} (ref : EventRef) : Obs κ → Bool
  | .completed ref' => ref' = ref
  | _ => false

/-- How often an event object was completed. -/
def completions {κ : Type v} (ref : EventRef) (history : List (Obs κ)) : ℕ :=
  history.countP (Obs.completes ref)

theorem completions_append {κ : Type v} (ref : EventRef) (history : List (Obs κ))
    (o : Option (Obs κ)) : completions ref (history ++ o.toList) =
      completions ref history + o.toList.countP (Obs.completes ref) :=
  List.countP_append

namespace RunningClient

variable {ρ : Type u} {κ : Type v}

end RunningClient

/-- Whether the callback waits for the completion of its event, or is about to, as
a number. -/
def SessionPc.awaits : SessionPc → ℕ
  | .post => 1
  | .latchGet => 1
  | _ => 0

/-- Whether the data pointer is set. -/
def SessionPc.holdsData : SessionPc → Bool
  | .enqueue | .post | .latchGet | .clearData => true
  | _ => false

/-- The session events enqueued are those completed, and one more while the callback
waits and the latch is not posted; none is completed before it was delivered; and
the data pointer leads to the session in progress. -/
structure Settled {κ : Type v} (v : SessionView) (history : List (Obs κ)) : Prop where
  balance : countOf .session (enqueuedEvents history) + v.posted.toNat =
    completions .session history + v.pc.awaits
  outstanding : completions .session history ≤ countOf .session (deliveredEvents history)
  data : v.data = if v.pc.holdsData then some v.serial else none

/-- What does not concern sessions leaves their counts alone. -/
theorem counts_of_not_session {κ : Type v} {o : Option (Obs κ)}
    (quiet : o.any Obs.ofSession = false) :
    countOf .session (o.bind Obs.enqueued?).toList = 0 ∧
      countOf .session (o.bind Obs.delivered?).toList = 0 ∧
      o.toList.countP (Obs.completes .session) = 0 := by
  rcases o with _ | x
  · exact ⟨rfl, rfl, rfl⟩
  · cases x with
    | enqueued o | delivered c o =>
        have other : o.event ≠ .session := by simpa [Obs.ofSession] using quiet
        simp [Obs.completes, Obs.enqueued?, Obs.delivered?, other]
    | completed ref =>
        have other : ref ≠ .session := by simpa [Obs.ofSession] using quiet
        simp [Obs.completes, Obs.enqueued?, Obs.delivered?, other]
    | _ => exact ⟨rfl, rfl, rfl⟩

/-- While the callback lends the data out, the pointer leads to the session in
progress. -/
theorem SessionMove.data {κ : Type v} {v v' : SessionView} {o : Option (Obs κ)}
    (moves : SessionMove v v' o) (data : v.data = if v.pc.holdsData then some v.serial else none) :
    v'.data = if v'.pc.holdsData then some v'.serial else none := by
  cases moves with
  | still | delivered | gotData | completed => exact data
  | _ => simp_all [SessionPc.holdsData]

theorem Settled.step {κ : Type v} {v v' : SessionView} {history : List (Obs κ)}
    {o : Option (Obs κ)} (inv : Settled v history) (moves : SessionMove v v' o)
    (fromQueue : countOf .session (deliveredEvents history) ≤
      countOf .session (enqueuedEvents history))
    (accepted : ∀ e, o ≠ some (.refused (.session e)))
    (handle : o = some (.completed .session) →
      completions .session history < countOf .session (deliveredEvents history)) :
    Settled v' (history ++ o.toList) := by
  obtain ⟨balance, outstanding, data⟩ := inv
  have data := moves.data data
  -- the counts of the longer history are those before and those of the one observation
  have split : countOf .session (enqueuedEvents history) +
          countOf .session (o.bind Obs.enqueued?).toList + v'.posted.toNat =
        completions .session history + o.toList.countP (Obs.completes .session) + v'.pc.awaits →
      completions .session history + o.toList.countP (Obs.completes .session) ≤
        countOf .session (deliveredEvents history) +
          countOf .session (o.bind Obs.delivered?).toList →
      Settled v' (history ++ o.toList) := by
    intro balance outstanding
    constructor
    · rwa [enqueuedEvents_append, countOf_append, completions_append]
    · rwa [deliveredEvents_append, countOf_append, completions_append]
    · exact data
  cases moves with
  | still quiet =>
      obtain ⟨noEnqueue, noDelivery, noCompletion⟩ := counts_of_not_session quiet
      exact split (by omega) (by omega)
  | refused => exact absurd rfl (accepted _)
  | @completed e pc posted d =>
      have fresh := handle rfl
      have waits : pc.awaits ≤ 1 := by cases pc <;> decide
      refine split ?_ ?_
      · simp [Obs.enqueued?, Obs.completes] at balance ⊢
        omega
      · simp [Obs.delivered?, Obs.completes]
        omega
  | _ =>
      simp only [SessionPc.awaits, Bool.toNat_true] at balance
      refine split ?_ ?_
      · simp [Obs.enqueued?, Obs.completes, Occurrence.event, SessionPc.awaits]
        omega
      · simp [Obs.delivered?, Obs.completes, Occurrence.event]
        omega

namespace RunningClient

/-! ## All runs -/

section Runs

variable {ρ : Type u} {κ : Type v} [DecidableEq κ] [JackRingbuffer ρ]
variable {rbSize : UInt32} {heap : List Malloced} {s : RunningClient ρ κ} {history : List (Obs κ)}

end Runs

end RunningClient

end Jacks
