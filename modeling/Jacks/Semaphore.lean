import Jacks.EventQueue

/-!
# The tokens of the semaphore

Every event a callback enqueues puts a token into the semaphore, and so does every
session or control event the full queue refuses.  A token is taken out by a wait, and
`get_event` waits only when it has found the queue empty.  So the tokens are
accounted for by the waits, not by the deliveries (`reaches_tokens`), and a script
that always finds an event leaves the tokens of all of them behind
(`tokens_pile_up`).

Where every delivery and every refusal has a wait of its own before it, the tokens
are at most those of the events in the queue and the first one
(`semaphore_bounded`).  As soon as one of them has not, the callbacks alone can take
the count beyond (`overruns_of_unpaid`).
-/

namespace Jacks

open Foundations JackRingbuffer

universe u v

/-- Whether an invocation has yet to post, as a number. -/
def ProcessPc.owes : ProcessPc → ℕ
  | .post _ _ => 1
  | _ => 0

theorem ProcessPc.exists_of_owes {pc : ProcessPc} (owes : 0 < pc.owes) :
    ∃ call i, pc = .post call i := by
  cases pc with
  | post call i => exact ⟨call, i, rfl⟩
  | _ => cases owes

/-- Whether an invocation has yet to post, as a number. -/
def SessionPc.owes : SessionPc → ℕ
  | .post => 1
  | _ => 0

theorem SessionPc.eq_post_of_owes {pc : SessionPc} (owes : 0 < pc.owes) : pc = .post := by
  cases pc with
  | post => rfl
  | _ => cases owes

/-- Whether an invocation has yet to post, as a number. -/
def ControlPc.owes : ControlPc → ℕ
  | .post => 1
  | _ => 0

theorem ControlPc.eq_post_of_owes {pc : ControlPc} (owes : 0 < pc.owes) : pc = .post := by
  cases pc with
  | post => rfl
  | _ => cases owes

/-- Whether a step is a wait that takes a token. -/
def Action.takesToken {κ : Type v} : Action κ → Bool
  | .wait _ => true
  | _ => false

/-- Whether a step is one of a callback. -/
def Action.ofCallback {κ : Type v} : Action κ → Bool
  | .processCb _ | .processStep | .sessionCb | .sessionStep | .controlCb _ | .controlStep _ => true
  | _ => false

theorem Action.takesToken_of_ofCallback {κ : Type v} {a : Action κ}
    (callback : a.ofCallback = true) : a.takesToken = false := by
  cases a with
  | wait => cases callback
  | _ => rfl

/-- The refused event of a callback that posts all the same. -/
def Obs.postedAnyway? {κ : Type v} : Obs κ → Option Occurrence
  | .refused (.process _ _) => none
  | .refused o => some o
  | _ => none

/-- The waits of a run. -/
def waits {κ : Type v} (log : List (Action κ × Option (Obs κ))) : ℕ :=
  log.countP fun x => x.1.takesToken

/-- The refusals that were followed, or will be, by a post. -/
def refusals {κ : Type v} (history : List (Obs κ)) : ℕ :=
  (history.filterMap Obs.postedAnyway?).length

/-- The events that have left the queue or found no room in it. -/
def outcomes {κ : Type v} (log : List (Action κ × Option (Obs κ))) : ℕ :=
  (deliveredEvents (TraceSystem.observations log)).length +
    refusals (TraceSystem.observations log)

theorem refusals_append {κ : Type v} (history : List (Obs κ)) (o : Option (Obs κ)) :
    refusals (history ++ o.toList) =
      refusals history + (o.bind Obs.postedAnyway?).toList.length := by
  rw [refusals, filterMap_observed, List.length_append, refusals]

theorem waits_concat {κ : Type v} (log : List (Action κ × Option (Obs κ))) (a : Action κ)
    (o : Option (Obs κ)) : waits (log ++ [(a, o)]) = waits log + a.takesToken.toNat := by
  cases seen : a.takesToken <;> simp [waits, seen]

theorem outcomes_concat {κ : Type v} (log : List (Action κ × Option (Obs κ))) (a : Action κ)
    (o : Option (Obs κ)) :
    outcomes (log ++ [(a, o)]) = outcomes log +
      ((o.bind Obs.delivered?).toList.length + (o.bind Obs.postedAnyway?).toList.length) := by
  rw [outcomes, outcomes, TraceSystem.observations_concat, deliveredEvents_append,
    refusals_append, List.length_append]
  omega

namespace RunningClient

variable {ρ : Type u} {κ : Type v}

/-- How many posts the callbacks have yet to make. -/
def owed (s : RunningClient ρ κ) : ℕ :=
  s.process.pc.owes + s.session.pc.owes + (s.control .shutdown).pc.owes +
    (s.control .sampleRate).pc.owes

/-! ## One step -/

@[simp] theorem owed_setQueue (s : RunningClient ρ κ) (q : BoundedFifo Occurrence) :
    (s.setQueue q).owed = s.owed := rfl

@[simp] theorem owed_setMutex (s : RunningClient ρ κ) (tokens : ℕ) :
    (s.setMutex tokens).owed = s.owed := rfl

/-- Moving a control thread changes what it owes. -/
theorem owed_setControl (s : RunningClient ρ κ) (cb : ControlCb) (t : Thread ControlPc) :
    (s.setControl cb t).owed + (s.control cb).pc.owes = s.owed + t.pc.owes := by
  cases cb <;> simp [owed, setControl, Function.update] <;> omega

variable [DecidableEq κ] [JackRingbuffer ρ]

/-- **One step.**  Tokens, and posts yet to be made, come from events that were
enqueued or refused, and go by waits. -/
theorem Step.tokens {s s' : RunningClient ρ κ} {a : Action κ} {o : Option (Obs κ)}
    (moves : Step s a s' o) :
    s'.client.mutex + s'.owed + a.takesToken.toNat =
      s.client.mutex + s.owed + (o.bind Obs.enqueued?).toList.length +
        (o.bind Obs.postedAnyway?).toList.length := by
  have control := owed_setControl s
  cases moves with
  | @controlCb cb here =>
      have := control cb ⟨(s.control cb).serial, .enqueue⟩
      simp only [here, ControlPc.owes] at this
      simpa [Action.takesToken] using this
  | @controlEnqueued cb q here room =>
      have := owed_setControl (s.setQueue q) cb ⟨(s.control cb).serial, .post⟩
      simp only [setQueue_control, owed_setQueue, here, ControlPc.owes] at this
      simp [Action.takesToken, Obs.enqueued?, Obs.postedAnyway?]
      omega
  | @controlRefused cb here full =>
      have := control cb ⟨(s.control cb).serial, .post⟩
      simp only [here, ControlPc.owes] at this
      simp [Action.takesToken, Obs.enqueued?, Obs.postedAnyway?]
      omega
  | @controlPosted cb here =>
      have := owed_setControl (s.setMutex (s.client.mutex + 1)) cb
        ⟨(s.control cb).serial + 1, .idle⟩
      simp only [setMutex_control, owed_setMutex, here, ControlPc.owes] at this
      simp [Action.takesToken]
      omega
  | @waited c tokens here available =>
      simp [owed, available, Action.takesToken]
      omega
  | getEvent | delivered | foundEmpty | interrupted | completed | gotData | gotBuffer => rfl
  | processCb here | endOfPorts here | wrote here | overran here | processRefused here
  | processReturned here =>
      simp [owed, here, ProcessPc.owes, Action.takesToken, Obs.enqueued?, Obs.postedAnyway?]
  | processEnqueued here | processPosted here =>
      simp [owed, here, ProcessPc.owes, Action.takesToken, Obs.enqueued?, Obs.postedAnyway?]
      omega
  | sessionCb here | dataSet here | latchPassed here | dataCleared here | replied here
  | freed here =>
      simp [owed, here, SessionPc.owes, Action.takesToken, Obs.enqueued?, Obs.postedAnyway?]
  | sessionEnqueued here | sessionRefused here | sessionPosted here =>
      simp [owed, here, SessionPc.owes, Action.takesToken, Obs.enqueued?, Obs.postedAnyway?]
      omega

/-- One step delivers at most one event, or has at most one refused. -/
theorem Step.outcomes_le {s s' : RunningClient ρ κ} {a : Action κ} {o : Option (Obs κ)}
    (moves : Step s a s' o) :
    (o.bind Obs.delivered?).toList.length + (o.bind Obs.postedAnyway?).toList.length ≤ 1 := by
  cases o with
  | none => simp
  | some x =>
      cases x with
      | refused event => cases event <;> simp [Obs.delivered?, Obs.postedAnyway?]
      | _ => simp [Obs.delivered?, Obs.postedAnyway?]

/-! ## The account of a run -/

variable {rbSize : UInt32} {heap : List Malloced} {s s' : RunningClient ρ κ}
variable {log log' : List (Action κ × Option (Obs κ))}

/-- **The tokens of a run.**  Every event enqueued and every refusal that is posted
brings a token, every wait takes one, and one was there at the start. -/
theorem reaches_tokens (run : (clientSystem ρ κ rbSize heap).logged.Reaches s log) :
    s.client.mutex + waits log + s.owed =
      1 + (enqueuedEvents (TraceSystem.observations log)).length +
        refusals (TraceSystem.observations log) := by
  refine run.induct (I := fun s log => s.client.mutex + waits log + s.owed =
    1 + (enqueuedEvents (TraceSystem.observations log)).length +
      refusals (TraceSystem.observations log)) ?_ ?_
  · simp [clientSystem, TraceSystem.logged, waits, refusals, enqueuedEvents, owed,
      ProcessPc.owes, SessionPc.owes, ControlPc.owes]
  · intro s log a s' x _ accounted _ moves
    obtain ⟨o, step, rfl⟩ := TraceSystem.logged_next moves
    have one := (step_of_next step).tokens
    rw [Option.toList_some, TraceSystem.observations_concat, waits_concat,
      enqueuedEvents_append, refusals_append, List.length_append]
    omega

/-- What was enqueued has been delivered or is in the queue. -/
theorem reaches_balance (run : (clientSystem ρ κ rbSize heap).logged.Reaches s log) :
    s.client.mutex + waits log + s.owed =
      1 + outcomes log + s.client.eventQueue.items.length := by
  have tokens := reaches_tokens run
  have conserved : enqueuedEvents (TraceSystem.observations log) = _ :=
    reaches_conserves run.unlogged
  rw [conserved, List.length_append] at tokens
  rw [outcomes]
  omega

/-! ## The bound -/

/-- A delivery, or a refusal that will be posted, comes only when there has been a
wait for it. -/
def PaysForTokens (s : RunningClient ρ κ) (log : List (Action κ × Option (Obs κ))) :
    Action κ → Prop
  | .dequeue c =>
      s.script c = .dequeue → s.client.eventQueue.items ≠ [] → outcomes log < waits log
  | .sessionStep =>
      s.session.pc = .enqueue → s.client.eventQueue.items.length = s.client.eventQueue.capacity →
        outcomes log < waits log
  | .controlStep cb =>
      (s.control cb).pc = .enqueue →
        s.client.eventQueue.items.length = s.client.eventQueue.capacity →
          outcomes log < waits log
  | _ => True

instance (s : RunningClient ρ κ) (log : List (Action κ × Option (Obs κ))) :
    DecidablePred (PaysForTokens s log)
  | .dequeue c => inferInstanceAs (Decidable (s.script c = .dequeue →
      s.client.eventQueue.items ≠ [] → outcomes log < waits log))
  | .sessionStep => inferInstanceAs (Decidable (s.session.pc = .enqueue →
      s.client.eventQueue.items.length = s.client.eventQueue.capacity →
        outcomes log < waits log))
  | .controlStep cb => inferInstanceAs (Decidable ((s.control cb).pc = .enqueue →
      s.client.eventQueue.items.length = s.client.eventQueue.capacity →
        outcomes log < waits log))
  | .processCb _ | .processStep | .sessionCb | .controlCb _ | .getEvent _ | .wait _
  | .interrupt _ | .complete _ | .getData _ | .getBuffer _ => isTrue trivial

/-- A paid step leaves no delivery and no refusal unpaid. -/
theorem Step.paid {a : Action κ} {o : Option (Obs κ)} (moves : Step s a s' o)
    (pays : PaysForTokens s log a) (paid : outcomes log ≤ waits log) :
    outcomes (log ++ [(a, o)]) ≤ waits (log ++ [(a, o)]) := by
  have atMostOne := moves.outcomes_le
  rw [outcomes_concat, waits_concat]
  cases moves with
  | delivered here first =>
      have nonempty := (BoundedFifo.dequeue_eq_some_iff.mp first).1
      have := pays here (by simp [nonempty])
      omega
  | sessionRefused here full | controlRefused here full =>
      have := pays here (BoundedFifo.enqueue_eq_none_iff.mp full)
      omega
  | _ => simpa [Obs.delivered?, Obs.postedAnyway?] using Nat.le_add_right_of_le paid

theorem reaches_paid
    (run : (clientSystem ρ κ rbSize heap).logged.ReachesUnder PaysForTokens s log) :
    outcomes log ≤ waits log := by
  refine run.induct (I := fun _ log => outcomes log ≤ waits log) (Nat.le_refl _) ?_
  intro s log a s' x _ paid pays moves
  obtain ⟨o, step, rfl⟩ := TraceSystem.logged_next moves
  exact (step_of_next step).paid pays paid

/-- **The semaphore stays bounded where the script waits for its events.**  Its
count is then at most the event queue's capacity and the first token, no post
overflows a semaphore that can count the events of a queue, and as long as nothing
is enqueued tokens wake the script at most that often for nothing. -/
theorem semaphore_bounded
    (run : (clientSystem ρ κ rbSize heap).logged.ReachesUnder PaysForTokens s log) :
    s.client.mutex ≤ (JacksRbClient.chosenRbSize rbSize).toNat + 1 ∧
    (∀ semValueMax, (JacksRbClient.chosenRbSize rbSize).toNat < semValueMax → 0 < s.owed →
      s.client.mutex < semValueMax) ∧
    ∀ actions s' log',
      (clientSystem ρ κ rbSize heap).logged.exec s log actions = some (s', log') →
      enqueuedEvents (TraceSystem.observations log') =
        enqueuedEvents (TraceSystem.observations log) →
      refusals (TraceSystem.observations log') = refusals (TraceSystem.observations log) →
      waits log' ≤ waits log + ((JacksRbClient.chosenRbSize rbSize).toNat + 1) := by
  have paid := reaches_paid run
  have balance := reaches_balance run.reaches
  have fits := s.client.eventQueue.fits
  rw [(reaches_sizes run.unlogged).2] at fits
  refine ⟨by omega, fun semValueMax small owes => by omega, ?_⟩
  intro actions s' log' plays nothingEnqueued nothingRefused
  have before := reaches_tokens run.reaches
  have after := reaches_tokens (TraceSystem.Reaches.exec run.reaches plays)
  rw [nothingEnqueued, nothingRefused] at after
  omega

/-- The script waits, and waits once more since the first token woke it for nothing;
then an event of the sample rate comes. -/
def waitsForEvent : List (Action Unit) :=
  [.getEvent (), .dequeue (), .wait (), .dequeue (), .controlCb .sampleRate,
   .controlStep .sampleRate, .controlStep .sampleRate, .wait (), .dequeue ()]

theorem semaphore_bounded_waitsForEvent :
    ∃ s log,
      (clientSystem (BoundedFifo Byte) Unit 1 []).logged.exec
        (clientSystem (BoundedFifo Byte) Unit 1 []).logged.init [] waitsForEvent = some (s, log) ∧
      waits log = 2 ∧ s.client.mutex ≤ (JacksRbClient.chosenRbSize 1).toNat + 1 :=
  ⟨_, _, rfl, rfl, (semaphore_bounded (TraceSystem.reachesUnder_of_exec
    (clientSystem (BoundedFifo Byte) Unit 1 []).logged PaysForTokens waitsForEvent
    (by decide) rfl)).1⟩

/-- The script always finds an event: no `get_event` waits. -/
def alwaysInTime : List (Action Unit) :=
  [.controlCb .sampleRate, .controlStep .sampleRate, .controlStep .sampleRate, .getEvent (),
   .dequeue (), .controlCb .sampleRate, .controlStep .sampleRate, .controlStep .sampleRate,
   .getEvent (), .dequeue ()]

/-- Two events that were delivered in time, and a queue of one place: three tokens. -/
theorem tokens_pile_up :
    ¬ ∀ (s : RunningClient (BoundedFifo Byte) Unit) (history : List (Obs Unit)),
      (clientSystem (BoundedFifo Byte) Unit 1 []).Reaches s history →
      s.client.mutex ≤ (JacksRbClient.chosenRbSize 1).toNat + 1 := by
  intro bounded
  have three := bounded _ _ (TraceSystem.reaches_of_exec
    (clientSystem (BoundedFifo Byte) Unit 1 []) alwaysInTime rfl)
  exact absurd three (by decide)

/-! ## Beyond the bound -/

/-- The callbacks alone get from one state to the other, and the queue refuses them
nothing. -/
def CallbacksLead (rbSize : UInt32) (heap : List Malloced)
    (s : RunningClient ρ κ) (log : List (Action κ × Option (Obs κ)))
    (s' : RunningClient ρ κ) (log' : List (Action κ × Option (Obs κ))) : Prop :=
  ∃ actions, (∀ a ∈ actions, a.ofCallback = true) ∧
    (clientSystem ρ κ rbSize heap).logged.exec s log actions = some (s', log') ∧
    outcomes log' = outcomes log ∧ waits log' = waits log

namespace CallbacksLead

theorem refl (s : RunningClient ρ κ) (log : List (Action κ × Option (Obs κ))) :
    CallbacksLead rbSize heap s log s log :=
  ⟨[], by simp, rfl, rfl, rfl⟩

theorem trans {t : RunningClient ρ κ} {middle : List (Action κ × Option (Obs κ))}
    (first : CallbacksLead rbSize heap s log t middle)
    (second : CallbacksLead rbSize heap t middle s' log') :
    CallbacksLead rbSize heap s log s' log' := by
  obtain ⟨actions, callbacks, plays, outcome, wait⟩ := first
  obtain ⟨actions', callbacks', plays', outcome', wait'⟩ := second
  refine ⟨actions ++ actions', ?_, ?_, outcome'.trans outcome, wait'.trans wait⟩
  · intro a mem
    exact (List.mem_append.mp mem).elim (callbacks a) (callbacks' a)
  · rw [TraceSystem.exec_append plays, plays']

theorem step {a : Action κ} {o : Option (Obs κ)} (moves : s.next a = some (s', o))
    (callback : a.ofCallback = true) (accepted : o.bind Obs.postedAnyway? = none)
    (kept : o.bind Obs.delivered? = none) :
    CallbacksLead rbSize heap s log s' (log ++ [(a, o)]) := by
  refine ⟨[a], by simpa using callback, ?_, ?_, ?_⟩
  · have logged : (clientSystem ρ κ rbSize heap).logged.next s a = some (s', some (a, o)) := by
      simp [TraceSystem.logged, clientSystem, moves]
    rw [TraceSystem.exec_single logged, Option.toList_some]
  · rw [outcomes_concat, accepted, kept]
    rfl
  · rw [waits_concat, Action.takesToken_of_ofCallback callback]
    rfl

end CallbacksLead

/-- Some callback that owes a post can make it. -/
theorem post_of_owed (owes : 0 < s.owed) :
    ∃ a s', s.next a = some (s', none) ∧ a.ofCallback = true ∧
      s'.client.mutex = s.client.mutex + 1 ∧ s'.client.eventQueue = s.client.eventQueue := by
  have parts : 0 < s.process.pc.owes ∨ 0 < s.session.pc.owes ∨
      ∃ cb, 0 < (s.control cb).pc.owes := by
    by_contra none
    simp only [not_or, not_exists, Nat.pos_iff_ne_zero, not_not] at none
    rw [owed, none.1, none.2.1, none.2.2, none.2.2] at owes
    exact absurd owes (by decide)
  rcases parts with process | session | ⟨cb, control⟩
  · obtain ⟨call, i, here⟩ := ProcessPc.exists_of_owes process
    refine ⟨.processStep, (s.setMutex (s.client.mutex + 1)).atProcess (.loop call (i + 1)),
      ?_, rfl, rfl, rfl⟩
    simp [next, processStep, here]
  · have here := SessionPc.eq_post_of_owes session
    refine ⟨.sessionStep, (s.setMutex (s.client.mutex + 1)).atSession .latchGet, ?_, rfl, rfl, rfl⟩
    simp [next, sessionStep, here]
  · have here := ControlPc.eq_post_of_owes control
    refine ⟨.controlStep cb, (s.setMutex (s.client.mutex + 1)).setControl cb
      ⟨(s.control cb).serial + 1, .idle⟩, ?_, rfl, rfl, rfl⟩
    cases cb <;> simp [next, shutdownCb, sampleRateChangeCb, controlStep, here]

/-- The thread of the sample-rate callback can get to its enqueue. -/
theorem enters (rbSize : UInt32) (heap : List Malloced) (s : RunningClient ρ κ)
    (log : List (Action κ × Option (Obs κ))) :
    ∃ t middle, CallbacksLead rbSize heap s log t middle ∧
      (t.control .sampleRate).pc = .enqueue ∧ t.client.eventQueue = s.client.eventQueue := by
  have fromIdle : ∀ (s : RunningClient ρ κ) (log : List (Action κ × Option (Obs κ))),
      (s.control .sampleRate).pc = .idle →
      ∃ t middle, CallbacksLead rbSize heap s log t middle ∧
        (t.control .sampleRate).pc = .enqueue ∧ t.client.eventQueue = s.client.eventQueue := by
    intro s log here
    have moves : s.next (.controlCb .sampleRate) = some (s.setControl .sampleRate
        ⟨(s.control .sampleRate).serial, .enqueue⟩, none) := by
      simp [next, here]
    exact ⟨_, _, .step moves rfl rfl rfl, by simp, rfl⟩
  cases here : (s.control .sampleRate).pc with
  | idle => exact fromIdle s log here
  | enqueue => exact ⟨s, log, .refl s log, here, rfl⟩
  | post =>
      have moves : s.next (.controlStep .sampleRate) =
          some ((s.setMutex (s.client.mutex + 1)).setControl .sampleRate
            ⟨(s.control .sampleRate).serial + 1, .idle⟩, none) := by
        simp [next, sampleRateChangeCb, controlStep, here]
      obtain ⟨t, middle, leads, entered, same⟩ := fromIdle
        ((s.setMutex (s.client.mutex + 1)).setControl .sampleRate
          ⟨(s.control .sampleRate).serial + 1, .idle⟩)
        (log ++ [(.controlStep .sampleRate, none)]) (by simp)
      exact ⟨t, middle, .trans (.step moves rfl rfl rfl) leads, entered, same⟩

/-- And there it fills a free place of the queue. -/
theorem enqueue_of_room (rbSize : UInt32) (heap : List Malloced)
    (log : List (Action κ × Option (Obs κ)))
    (room : s.client.eventQueue.items.length < s.client.eventQueue.capacity) :
    ∃ s' log', CallbacksLead rbSize heap s log s' log' ∧
      s'.client.eventQueue.capacity = s.client.eventQueue.capacity ∧
      s'.client.eventQueue.items.length = s.client.eventQueue.items.length + 1 := by
  obtain ⟨t, middle, leads, here, same⟩ := enters rbSize heap s log
  obtain ⟨q, stored⟩ : ∃ q, t.client.eventQueue.enqueue
      (.control .sampleRate (t.control .sampleRate).serial) = some q := by
    refine Option.ne_none_iff_exists'.mp fun full => ?_
    have := BoundedFifo.enqueue_eq_none_iff.mp full
    rw [same] at this
    omega
  obtain ⟨-, capacity, items⟩ := BoundedFifo.enqueue_eq_some_iff.mp stored
  have moves : t.next (.controlStep .sampleRate) =
      some ((t.setQueue q).setControl .sampleRate ⟨(t.control .sampleRate).serial, .post⟩,
        some (.enqueued (.control .sampleRate (t.control .sampleRate).serial))) := by
    simp [next, sampleRateChangeCb, controlStep, here, stored]
  refine ⟨_, _, leads.trans (.step moves rfl rfl rfl), ?_, ?_⟩
  · simp [capacity, same]
  · simp [items, same]

/-- All posts that are owed can be made. -/
theorem settles (rbSize : UInt32) (heap : List Malloced) (s : RunningClient ρ κ)
    (log : List (Action κ × Option (Obs κ))) :
    ∃ s' log', CallbacksLead rbSize heap s log s' log' ∧ s'.owed = 0 ∧
      s'.client.eventQueue = s.client.eventQueue := by
  induction owes : s.owed generalizing s log with
  | zero => exact ⟨s, log, .refl s log, owes, rfl⟩
  | succ n ih =>
      obtain ⟨a, t, moves, callback, posted, same⟩ := post_of_owed (by omega : 0 < s.owed)
      have tokens := (step_of_next moves).tokens
      rw [posted, Action.takesToken_of_ofCallback callback] at tokens
      have fewer : t.owed = n := by
        simp at tokens
        omega
      obtain ⟨s', log', leads, settled, same'⟩ := ih t (log ++ [(a, none)]) fewer
      exact ⟨s', log', .trans (.step moves callback rfl rfl) leads, settled, same'.trans same⟩

/-- The queue can be filled. -/
theorem fills (rbSize : UInt32) (heap : List Malloced) (s : RunningClient ρ κ)
    (log : List (Action κ × Option (Obs κ))) :
    ∃ s' log', CallbacksLead rbSize heap s log s' log' ∧
      s'.client.eventQueue.capacity = s.client.eventQueue.capacity ∧
      s'.client.eventQueue.items.length = s.client.eventQueue.capacity := by
  induction places : s.client.eventQueue.free generalizing s log with
  | zero =>
      have total := s.client.eventQueue.free_add_length
      exact ⟨s, log, .refl s log, rfl, by omega⟩
  | succ n ih =>
      have total := s.client.eventQueue.free_add_length
      obtain ⟨t, middle, leads, capacity, longer⟩ :=
        enqueue_of_room (s := s) rbSize heap log (by omega)
      have total' := t.client.eventQueue.free_add_length
      obtain ⟨s', log', leads', capacity', full⟩ := ih t middle (by omega)
      exact ⟨s', log', leads.trans leads', by rw [capacity', capacity], by rw [full, capacity]⟩

/-- **Nothing else bounds it.**  Once a delivery or a refusal has not been paid for,
the callbacks alone, with nothing refused them, take the count beyond. -/
theorem overruns_of_unpaid (run : (clientSystem ρ κ rbSize heap).logged.Reaches s log)
    (unpaid : waits log < outcomes log) :
    ∃ s' log', CallbacksLead rbSize heap s log s' log' ∧
      (JacksRbClient.chosenRbSize rbSize).toNat + 1 < s'.client.mutex := by
  obtain ⟨t, middle, filling, -, full⟩ := fills rbSize heap s log
  obtain ⟨s', log', settling, settled, same⟩ := settles rbSize heap t middle
  have leads := filling.trans settling
  obtain ⟨actions, -, plays, outcome, wait⟩ := leads
  have balance := reaches_balance (TraceSystem.Reaches.exec run plays)
  rw [(reaches_sizes run.unlogged).2] at full
  rw [settled, same, full, outcome, wait] at balance
  exact ⟨s', log', filling.trans settling, by omega⟩

end RunningClient

end Jacks
