import Jacks.Session

/-!
# Replies and completions

JACK is told a session is handled when `_session_cb` replies, and that should
wait until the script has completed the event it was given.  The latch does not
know which session it is posted for: a second completion of one session, or a
late one, is still there when the next session comes, and lets its callback
through at once.

`replies_awaited` is the condition under which this does not happen: the script
completes the session event only while the callback that sent it is waiting, and
only after that event was delivered.  `replies_not_awaited` is a script that
completes a session twice.
-/

namespace Jacks

open Foundations JackRingbuffer

universe u v

/-- Session event `e` was delivered, and the session event completed after that. -/
def CompletedAfterDelivery {κ : Type v} (e : SessionEvent) (history : List (Obs κ)) : Prop :=
  ∃ before c after, history = before ++ .delivered c (.session e) :: after ∧
    .completed .session ∈ after

/-- Every reply was sent after a completion made after the delivery of the session
it replies to. -/
def RepliesAwaited {κ : Type v} (history : List (Obs κ)) : Prop :=
  ∀ e earlier later, history = earlier ++ .replied e :: later → CompletedAfterDelivery e earlier

namespace CompletedAfterDelivery

variable {κ : Type v} {e : SessionEvent} {history : List (Obs κ)}

theorem append (h : CompletedAfterDelivery e history) (more : List (Obs κ)) :
    CompletedAfterDelivery e (history ++ more) := by
  obtain ⟨before, c, after, rfl, completed⟩ := h
  exact ⟨before, c, after ++ more, by simp, List.mem_append_left more completed⟩

/-- A completion after the delivery. -/
theorem of_delivered {c : κ} (delivered : .delivered c (.session e) ∈ history) :
    CompletedAfterDelivery e (history ++ [.completed .session]) := by
  obtain ⟨before, after, rfl⟩ := List.append_of_mem delivered
  exact ⟨before, c, after ++ [.completed .session], by simp, by simp⟩

theorem delivered (h : CompletedAfterDelivery e history) :
    ∃ c, .delivered c (.session e) ∈ history := by
  obtain ⟨before, c, after, rfl, -⟩ := h
  exact ⟨c, by simp⟩

end CompletedAfterDelivery

namespace RunningClient

variable {ρ : Type u} {κ : Type v}

/-- The session event is completed only while the callback that enqueued it waits
for that, or is about to, and only after its event was delivered. -/
def CompletesInTime (s : RunningClient ρ κ) (history : List (Obs κ)) : Action κ → Prop
  | .complete .session =>
      (s.session.pc = .post ∨ s.session.pc = .latchGet) ∧
        ∃ c, .delivered c (.session s.session.serial) ∈ history
  | _ => True

/-- A post on the latch is the completion of the session in progress, and so was
the one that let its callback through. -/
structure Awaited (v : SessionView) (history : List (Obs κ)) : Prop where
  posted : v.posted = true →
    (v.pc = .post ∨ v.pc = .latchGet) ∧ CompletedAfterDelivery v.serial history
  passed : v.pc = .clearData ∨ v.pc = .reply → CompletedAfterDelivery v.serial history

theorem Awaited.step {v v' : SessionView} {history : List (Obs κ)} {o : Option (Obs κ)}
    (inv : Awaited v history) (moves : SessionMove v v' o)
    (inTime : o = some (.completed .session) → (v.pc = .post ∨ v.pc = .latchGet) ∧
      ∃ c, .delivered c (.session v.serial) ∈ history) :
    Awaited v' (history ++ o.toList) := by
  obtain ⟨posted, passed⟩ := inv
  cases moves with
  | still | delivered | gotData =>
      exact ⟨fun isPosted => ⟨(posted isPosted).1, (posted isPosted).2.append _⟩,
        fun here => (passed here).append _⟩
  | invoked | dataSet | enqueued | refused | replied | freed =>
      -- the latch is not posted here, as the callback is not waiting for it
      constructor
      · intro isPosted
        rcases (posted isPosted).1 with here | here <;> cases here
      · intro here
        rcases here with here | here <;> cases here
  | posted =>
      constructor
      · intro isPosted
        exact ⟨.inr rfl, (posted isPosted).2.append _⟩
      · intro here
        rcases here with here | here <;> cases here
  | latchPassed =>
      constructor
      · intro isPosted
        cases isPosted
      · intro _
        exact (posted rfl).2.append _
  | dataCleared =>
      constructor
      · intro isPosted
        rcases (posted isPosted).1 with here | here <;> cases here
      · intro _
        exact (passed (.inl rfl)).append _
  | completed =>
      obtain ⟨waits, c, delivered⟩ := inTime rfl
      exact ⟨fun _ => ⟨waits, .of_delivered delivered⟩, fun here => (passed here).append _⟩

section Runs

variable [DecidableEq κ] [JackRingbuffer ρ] {rbSize : UInt32} {heap : List Malloced}
variable {s : RunningClient ρ κ} {history : List (Obs κ)}

theorem reaches_awaited
    (run : (clientSystem ρ κ rbSize heap).ReachesUnder CompletesInTime s history) :
    Awaited s.sessions history := by
  refine sessions_induct (I := Awaited) run ?_ ?_
  · constructor
    · intro isPosted; cases isPosted
    · rintro (here | here) <;> cases here
  · intro s history a s' o _ inv inTime step moves
    refine inv.step moves ?_
    rintro rfl
    cases step
    exact inTime

/-- **Replies are awaited when completions come in time.**  In every run in which
the session event is completed only while the callback that enqueued it has not
passed the latch, and only after its event was delivered, every reply is sent
after a completion made after the delivery of the session it replies to. -/
theorem replies_awaited
    (run : (clientSystem ρ κ rbSize heap).ReachesUnder CompletesInTime s history) :
    RepliesAwaited history := by
  intro e earlier later split
  obtain ⟨t, a, t', before, -, moves⟩ := run.step_of_split split
  cases step_of_next moves with
  | replied here => exact (reaches_awaited before).passed (.inr here)

end Runs

/-- A script that completes a session once. -/
def completedOnce : List (Action Unit) :=
  [.sessionCb, .sessionStep, .sessionStep, .sessionStep, .getEvent (), .dequeue (),
   .complete .session, .sessionStep, .sessionStep, .sessionStep]

theorem replies_awaited_completedOnce :
    ∃ s history, (clientSystem (BoundedFifo Byte) Unit 8 []).exec
        (clientSystem (BoundedFifo Byte) Unit 8 []).init [] completedOnce = some (s, history) ∧
      .replied 0 ∈ history ∧ RepliesAwaited history := by
  refine ⟨_, _, rfl, by decide, replies_awaited (TraceSystem.reachesUnder_of_exec
    (clientSystem (BoundedFifo Byte) Unit 8 []) CompletesInTime completedOnce ?_ rfl)⟩
  exact ⟨trivial, trivial, trivial, trivial, trivial, trivial, ⟨.inr rfl, (), by decide⟩,
    trivial, trivial, trivial, trivial⟩

/-- The script completes the first of two sessions a second time after its callback
has passed the latch. -/
def completedTwice : List (Action Unit) :=
  [.sessionCb, .sessionStep, .sessionStep, .sessionStep, .getEvent (), .dequeue (),
   .complete .session, .sessionStep, .complete .session, .sessionStep, .sessionStep, .sessionStep,
   .sessionCb, .sessionStep, .sessionStep, .sessionStep, .sessionStep, .sessionStep, .sessionStep]

/-- What is observed of it. -/
def completedTwiceHistory : List (Obs Unit) :=
  [.enqueued (.session 0), .delivered () (.session 0), .completed .session,
   .completed .session, .replied 0, .freed 0, .enqueued (.session 1), .replied 1]

/-- The second session is replied to although it still lies in the queue. -/
theorem replies_not_awaited :
    ∃ s, (clientSystem (BoundedFifo Byte) Unit 8 []).ReachesUnder UsesItsHandles s
        completedTwiceHistory ∧
      .session 1 ∈ s.client.eventQueue.items ∧ ¬ RepliesAwaited completedTwiceHistory := by
  refine ⟨_, TraceSystem.reachesUnder_of_exec (clientSystem (BoundedFifo Byte) Unit 8 [])
    UsesItsHandles completedTwice ?_ rfl, by decide, ?_⟩
  · exact ⟨trivial, trivial, trivial, trivial, trivial, trivial,
      ⟨(), .session 0, by decide, rfl⟩, trivial, ⟨(), .session 0, by decide, rfl⟩,
      trivial, trivial, trivial, trivial, trivial, trivial, trivial, trivial, trivial, trivial,
      trivial⟩
  · intro awaited
    obtain ⟨c, delivered⟩ := (awaited 1 (completedTwiceHistory.take 7) [] rfl).delivered
    simp [completedTwiceHistory] at delivered

end RunningClient

end Jacks
