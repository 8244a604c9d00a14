import Jacks.EventQueue

/-!
# Control events on a full queue

`_session_cb`, `_shutdown_cb` and `_sample_rate_change_cb` hand one event over per
invocation, on the queue they share with `_process_cb`.  That callback looks at
the result of `queue_enqueue`; these three do not, and post the semaphore in any
case.  On a full queue their event is gone, and `_session_cb` goes on to wait for
the completion of an event nobody will ever be given.

* `Handover` — what a step is to one of these callbacks: an attempt to hand over
  the event of the invocation in progress, accepted or refused, or nothing.
* `ControlEventsKept` — what is wanted: each invocation's event enqueued once.
  It holds of exactly the runs in which these callbacks find room in the queue.
-/

namespace Jacks

open Foundations JackRingbuffer

universe u v

/-- How many events the session thread has tried to hand over. -/
def Thread.sessionsHandedOver (t : Thread SessionPc) : ℕ :=
  match t.pc with
  | .idle | .setData | .enqueue => t.serial
  | _ => t.serial + 1

/-- How many events a control thread has tried to hand over. -/
def Thread.controlsHandedOver (t : Thread ControlPc) : ℕ :=
  match t.pc with
  | .idle | .enqueue => t.serial
  | .post => t.serial + 1

/-! ## Attempts -/

/-- What a step of the client is to a callback whose invocations hand over
`mk 0, mk 1, …` and which has made so many attempts. -/
inductive Handover {κ : Type v} (mk : ℕ → Occurrence) : ℕ → ℕ → Option (Obs κ) → Prop
  | still {n o}
      (quiet : ∀ m, o.bind Obs.enqueued? ≠ some (mk m) ∧ o.bind Obs.refused? ≠ some (mk m)) :
      Handover mk n n o
  | accepted {n} : Handover mk n (n + 1) (some (.enqueued (mk n)))
  | refused {n} : Handover mk n (n + 1) (some (.refused (mk n)))

/-- Each attempt made so far was accepted once or refused once, and no other was. -/
def EachOnce {κ : Type v} (mk : ℕ → Occurrence) (n : ℕ) (history : List (Obs κ)) : Prop :=
  ∀ m, (enqueuedEvents history).count (mk m) + (refusedEvents history).count (mk m) =
    if m < n then 1 else 0

theorem EachOnce.step {κ : Type v} {mk : ℕ → Occurrence} (distinct : Function.Injective mk)
    {n n' : ℕ} {history : List (Obs κ)} {o : Option (Obs κ)} (inv : EachOnce mk n history)
    (moves : Handover mk n n' o) : EachOnce mk n' (history ++ o.toList) := by
  intro m
  have before := inv m
  rw [enqueuedEvents_append, refusedEvents_append, List.count_append, List.count_append]
  cases moves with
  | still quiet =>
      have noEnqueue : (o.bind Obs.enqueued?).toList.count (mk m) = 0 :=
        List.count_eq_zero.mpr (by simpa using (quiet m).1)
      have noRefusal : (o.bind Obs.refused?).toList.count (mk m) = 0 :=
        List.count_eq_zero.mpr (by simpa using (quiet m).2)
      omega
  | accepted =>
      have same : mk n = mk m ↔ n = m := distinct.eq_iff
      simp only [Option.bind_some, Obs.enqueued?, Obs.refused?, Option.toList_some,
        Option.toList_none, List.count_nil, List.count_singleton, beq_iff_eq, same]
      split_ifs at before ⊢ <;> omega
  | refused =>
      have same : mk n = mk m ↔ n = m := distinct.eq_iff
      simp only [Option.bind_some, Obs.enqueued?, Obs.refused?, Option.toList_some,
        Option.toList_none, List.count_nil, List.count_singleton, beq_iff_eq, same]
      split_ifs at before ⊢ <;> omega

namespace RunningClient

variable {ρ : Type u} {κ : Type v} [DecidableEq κ] [JackRingbuffer ρ]

theorem Step.session_handover {s s' : RunningClient ρ κ} {a : Action κ} {o : Option (Obs κ)}
    (moves : Step s a s' o) :
    Handover .session s.session.sessionsHandedOver s'.session.sessionsHandedOver o := by
  cases moves with
  | sessionEnqueued here room => rw [Thread.eq_of_pc here]; exact .accepted
  | sessionRefused here full => rw [Thread.eq_of_pc here]; exact .refused
  | sessionCb here | dataSet here | sessionPosted here | latchPassed here | dataCleared here
  | replied here | freed here =>
      rw [Thread.eq_of_pc here]
      exact .still (by simp [Obs.enqueued?, Obs.refused?])
  | _ => exact .still (by simp [Obs.enqueued?, Obs.refused?])

theorem Step.control_handover {s s' : RunningClient ρ κ} {a : Action κ} {o : Option (Obs κ)}
    (moves : Step s a s' o) (cb : ControlCb) :
    Handover (.control cb) (s.control cb).controlsHandedOver
      (s'.control cb).controlsHandedOver o := by
  -- a step of the other control thread
  have elsewhere : ∀ {cb' : ControlCb} {t : Thread ControlPc} {o : Option (Obs κ)}, cb ≠ cb' →
      (∀ m, o.bind Obs.enqueued? ≠ some (.control cb m) ∧
        o.bind Obs.refused? ≠ some (.control cb m)) →
      Handover (.control cb) (s.control cb).controlsHandedOver
        (Function.update s.control cb' t cb).controlsHandedOver o := by
    intro cb' t o different quiet
    rw [Function.update_of_ne different]
    exact .still quiet
  cases moves with
  | @controlCb cb' here =>
      rcases eq_or_ne cb cb' with rfl | different
      · rw [Thread.eq_of_pc here, setControl_control, Function.update_self]
        exact .still (by simp)
      · exact elsewhere different (by simp)
  | @controlEnqueued cb' q here room =>
      rcases eq_or_ne cb cb' with rfl | different
      · rw [Thread.eq_of_pc here, setControl_control, Function.update_self]
        exact .accepted
      · exact elsewhere different (by simp [Obs.enqueued?, Obs.refused?, different.symm])
  | @controlRefused cb' here full =>
      rcases eq_or_ne cb cb' with rfl | different
      · rw [Thread.eq_of_pc here, setControl_control, Function.update_self]
        exact .refused
      · exact elsewhere different (by simp [Obs.enqueued?, Obs.refused?, different.symm])
  | @controlPosted cb' here =>
      rcases eq_or_ne cb cb' with rfl | different
      · rw [Thread.eq_of_pc here, setControl_control, Function.update_self]
        exact .still (by simp)
      · exact elsewhere different (by simp)
  | _ => exact .still (by simp [Obs.enqueued?, Obs.refused?])

/-! ## What is wanted -/

/-- The invocation an occurrence belongs to has made its attempt. -/
def HandedOver (s : RunningClient ρ κ) : Occurrence → Prop
  | .process _ _ => False
  | .session e => e < s.session.sessionsHandedOver
  | .control cb n => n < (s.control cb).controlsHandedOver

/-- No control event was dropped: each invocation enqueued its event once, so that
it is delivered or still queued, and a session callback that waits for its event
to be completed has one that is queued or was delivered. -/
structure ControlEventsKept (s : RunningClient ρ κ) (history : List (Obs κ)) : Prop where
  added : ∀ o, HandedOver s o → (enqueuedEvents history).count o = 1
  received : ∀ o, HandedOver s o →
    (deliveredEvents history).count o + s.client.eventQueue.items.count o = 1
  waiting : s.session.pc = .latchGet →
    .session s.session.serial ∈ s.client.eventQueue.items ∨
      .session s.session.serial ∈ deliveredEvents history

/-- `_session_cb`, `_shutdown_cb` and `_sample_rate_change_cb` find the event queue
below its capacity when they enqueue. -/
def ControlsFindRoom (s : RunningClient ρ κ) (_ : List (Obs κ)) : Action κ → Prop
  | .sessionStep =>
      s.session.pc = .enqueue →
        s.client.eventQueue.items.length < s.client.eventQueue.capacity
  | .controlStep cb =>
      (s.control cb).pc = .enqueue →
        s.client.eventQueue.items.length < s.client.eventQueue.capacity
  | _ => True

section Runs

variable {rbSize : UInt32} {heap : List Malloced} {s : RunningClient ρ κ} {history : List (Obs κ)}

theorem reaches_eachOnce (run : (clientSystem ρ κ rbSize heap).Reaches s history) :
    EachOnce .session s.session.sessionsHandedOver history ∧
      ∀ cb, EachOnce (.control cb) (s.control cb).controlsHandedOver history := by
  refine run.induct (I := fun s history =>
    EachOnce .session s.session.sessionsHandedOver history ∧
      ∀ cb, EachOnce (.control cb) (s.control cb).controlsHandedOver history) ?_ ?_
  · constructor
    · intro m; rfl
    · intro cb m; rfl
  · rintro s history a s' o - ⟨session, control⟩ - moves
    have step := step_of_next moves
    constructor
    · exact session.step (fun _ _ same => by simpa using same) step.session_handover
    · intro cb
      exact (control cb).step (fun _ _ same => by simpa using same) (step.control_handover cb)

/-- With room in the queue only PROCESS events are refused. -/
theorem refused_process
    (run : (clientSystem ρ κ rbSize heap).ReachesUnder ControlsFindRoom s history) :
    ∀ o ∈ refusedEvents history, o.event = .process := by
  refine run.induct (I := fun _ history => ∀ o ∈ refusedEvents history, o.event = .process) ?_ ?_
  · simp [refusedEvents]
  · intro s history a s' o _ inv room moves
    rw [refusedEvents_append]
    intro occurrence mem
    rcases List.mem_append.mp mem with earlier | now
    · exact inv _ earlier
    · cases step_of_next moves with
      | processRefused here full =>
          obtain rfl : occurrence = _ := by simpa [Obs.refused?] using now
          rfl
      | sessionRefused here full =>
          have notFull := room here
          rw [BoundedFifo.enqueue_eq_none_iff] at full
          omega
      | controlRefused here full =>
          have notFull := room here
          rw [BoundedFifo.enqueue_eq_none_iff] at full
          omega
      | _ => simp [Obs.refused?] at now

theorem reaches_controlEventsKept
    (run : (clientSystem ρ κ rbSize heap).ReachesUnder ControlsFindRoom s history) :
    ControlEventsKept s history := by
  obtain ⟨session, control⟩ := reaches_eachOnce run.reaches
  have added : ∀ o, HandedOver s o → (enqueuedEvents history).count o = 1 := by
    intro o handedOver
    have notRefused : o.event ≠ .process → (refusedEvents history).count o = 0 := by
      intro other
      exact List.count_eq_zero.mpr fun mem => other (refused_process run o mem)
    cases o with
    | process cycle i => exact handedOver.elim
    | session e =>
        have once := session e
        rw [if_pos (show e < s.session.sessionsHandedOver from handedOver),
          notRefused (by simp [Occurrence.event])] at once
        exact once
    | control cb n =>
        have once := control cb n
        rw [if_pos (show n < (s.control cb).controlsHandedOver from handedOver),
          notRefused (by cases cb <;> simp [Occurrence.event, ControlCb.event])] at once
        exact once
  have received : ∀ o, HandedOver s o →
      (deliveredEvents history).count o + s.client.eventQueue.items.count o = 1 := by
    intro o handedOver
    rw [← added o handedOver, reaches_conserves run.reaches, List.count_append]
  refine ⟨added, received, ?_⟩
  intro here
  have handedOver : HandedOver s (.session s.session.serial) := by
    simp [HandedOver, Thread.sessionsHandedOver, here]
  have once := received _ handedOver
  rcases Nat.eq_zero_or_pos (s.client.eventQueue.items.count (.session s.session.serial)) with
    notQueued | queued
  · exact .inr (List.count_pos_iff.mp (by omega))
  · exact .inl (List.count_pos_iff.mp queued)

/-- A refused control event is never enqueued, although its invocation goes on. -/
theorem handedOver_of_refused (run : (clientSystem ρ κ rbSize heap).Reaches s history)
    {o : Occurrence} (refused : o ∈ refusedEvents history) (control : o.event ≠ .process) :
    HandedOver s o ∧ (enqueuedEvents history).count o = 0 := by
  obtain ⟨sessions, controls⟩ := reaches_eachOnce run
  have counted := List.count_pos_iff.mpr refused
  cases o with
  | process cycle i => exact absurd rfl control
  | session e =>
      have once := sessions e
      split_ifs at once with attempted
      · exact ⟨attempted, by omega⟩
      · omega
  | control cb n =>
      have once := controls cb n
      split_ifs at once with attempted
      · exact ⟨attempted, by omega⟩
      · omega

/-- A full queue refuses. -/
theorem refused_of_full {s' : RunningClient ρ κ} {a : Action κ} {o : Option (Obs κ)}
    (moves : Step s a s' o) (full : ¬ ControlsFindRoom s history a) :
    ∃ x ∈ o, ∃ refused, x = .refused refused ∧ refused.event ≠ .process := by
  cases moves with
  | sessionEnqueued here room | controlEnqueued here room =>
      exact absurd (fun _ => (BoundedFifo.enqueue_eq_some_iff.mp room).1) full
  | sessionRefused here => exact ⟨_, rfl, _, rfl, nofun⟩
  | @controlRefused cb here => exact ⟨_, rfl, _, rfl, by cases cb <;> nofun⟩
  | dataSet here | sessionPosted here | latchPassed here | dataCleared here | replied here
  | freed here | controlPosted here =>
      exact absurd (fun enqueues => by rw [here] at enqueues; cases enqueues) full
  | _ => exact absurd trivial full

/-- **Control events are dropped exactly when the queue is full.**  A run of a client
has enqueued the event of each invocation of `_session_cb`, `_shutdown_cb` and
`_sample_rate_change_cb` exactly once, each of them queued or delivered, with no
`_session_cb` waiting in vain, if and only if these callbacks found the queue below
its capacity every time. -/
theorem control_events_kept_iff (rbSize : UInt32) (heap : List Malloced)
    (actions : List (Action κ))
    (plays : (clientSystem ρ κ rbSize heap).exec (clientSystem ρ κ rbSize heap).init [] actions =
      some (s, history)) :
    ControlEventsKept s history ↔
      (clientSystem ρ κ rbSize heap).Along (fun s history a _ _ => ControlsFindRoom s history a)
        (clientSystem ρ κ rbSize heap).init [] actions := by
  constructor
  · intro kept
    refine TraceSystem.along_of_unmarked (G := ControlsFindRoom)
      (fun s history a s' o moves full => refused_of_full (step_of_next moves) full) plays ?_
    rintro x observed ⟨o, rfl, control⟩
    have refused : o ∈ refusedEvents history := List.mem_filterMap.mpr ⟨_, observed, rfl⟩
    obtain ⟨handedOver, never⟩ :=
      handedOver_of_refused (TraceSystem.reaches_of_exec _ actions plays) refused control
    exact absurd ((kept.added o handedOver).symm.trans never) (by decide)
  · intro room
    exact reaches_controlEventsKept (TraceSystem.reachesUnder_of_exec _ _ actions room plays)

end Runs

/-- A sample-rate change and a session, with nobody else around. -/
def sampleRateThenSession : List (Action Unit) :=
  [.controlCb .sampleRate, .controlStep .sampleRate, .controlStep .sampleRate,
   .sessionCb, .sessionStep, .sessionStep, .sessionStep]

/-- In a queue of two elements both events have room. -/
theorem control_events_kept_iff_sampleRateThenSession :
    ∃ s history, (clientSystem (BoundedFifo Byte) Unit 2 []).exec
        (clientSystem (BoundedFifo Byte) Unit 2 []).init [] sampleRateThenSession =
          some (s, history) ∧
      s.session.pc = .latchGet ∧ ControlEventsKept s history :=
  ⟨_, _, rfl, rfl, (control_events_kept_iff 2 [] sampleRateThenSession rfl).mpr
    ⟨trivial, fun _ => by decide, nofun, trivial, nofun, fun _ => by decide, nofun, trivial⟩⟩

/-- In a queue of one element the sample-rate event leaves no room: the session
event is dropped, and `_session_cb` waits for the completion of an event that is
neither queued nor delivered. -/
theorem control_events_dropped :
    ∃ s history, (clientSystem (BoundedFifo Byte) Unit 1 []).exec
        (clientSystem (BoundedFifo Byte) Unit 1 []).init [] sampleRateThenSession =
          some (s, history) ∧
      HandedOver s (.session 0) ∧ (enqueuedEvents history).count (.session 0) = 0 ∧
      s.session.pc = .latchGet ∧ Occurrence.session s.session.serial ∉ s.client.eventQueue.items ∧
      Occurrence.session s.session.serial ∉ deliveredEvents history ∧
      ¬ ControlEventsKept s history := by
  refine ⟨_, _, rfl, Nat.one_pos, rfl, rfl, by decide, by decide, ?_⟩
  intro kept
  exact absurd (kept.added (.session 0) Nat.one_pos) (by decide)

end RunningClient

end Jacks
