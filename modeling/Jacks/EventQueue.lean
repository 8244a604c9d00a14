import Jacks.Delivery
import Jacks.RunningClient

/-!
# The event queue of a running client

A running client, seen through its event queue and its semaphore alone, is an
instance of event delivery: each callback thread is a producer that hands over
one occurrence after the other, each thread of the script is a consumer, and
everything else a step does is invisible (`view`).  `simulates_delivery` is this
statement, and it carries over what holds of event delivery: the queue loses
and doubles nothing, and no wake-up is lost.
-/

namespace Jacks

open Foundations JackRingbuffer

universe u v

/-- The callback threads. -/
inductive Producer
  | process
  | session
  | control (cb : ControlCb)
  deriving DecidableEq

instance : Fintype Producer where
  elems := {.process, .session, .control .shutdown, .control .sampleRate}
  complete p := by
    cases p with
    | control cb => cases cb <;> decide
    | _ => decide

namespace Obs

variable {κ : Type v}

/-- The occurrence a successful enqueue stored. -/
def enqueued? : Obs κ → Option Occurrence
  | .enqueued o => some o
  | _ => none

/-- The occurrence an enqueue on a full queue was refused. -/
def refused? : Obs κ → Option Occurrence
  | .refused o => some o
  | _ => none

/-- The occurrence a call of `get_event` returned. -/
def delivered? : Obs κ → Option Occurrence
  | .delivered _ o => some o
  | _ => none

/-- An observation as one of event delivery: a `get_event` that returns has
dequeued and returned. -/
def delivery : Obs κ → List (DeliveryObs κ Occurrence)
  | .enqueued o => [.enqueued o]
  | .refused o => [.refused o]
  | .delivered c o => [.dequeued c o, .returned c o]
  | _ => []

end Obs

/-- The occurrences enqueued, in this order. -/
def enqueuedEvents {κ : Type v} (history : List (Obs κ)) : List Occurrence :=
  history.filterMap Obs.enqueued?

/-- The occurrences the queue refused, in this order. -/
def refusedEvents {κ : Type v} (history : List (Obs κ)) : List Occurrence :=
  history.filterMap Obs.refused?

/-- The occurrences delivered, in this order. -/
def deliveredEvents {κ : Type v} (history : List (Obs κ)) : List Occurrence :=
  history.filterMap Obs.delivered?

section Append

variable {κ : Type v} (history : List (Obs κ)) (o : Option (Obs κ))

theorem enqueuedEvents_append :
    enqueuedEvents (history ++ o.toList) =
      enqueuedEvents history ++ (o.bind Obs.enqueued?).toList :=
  filterMap_observed _ history o

theorem refusedEvents_append :
    refusedEvents (history ++ o.toList) =
      refusedEvents history ++ (o.bind Obs.refused?).toList :=
  filterMap_observed _ history o

theorem deliveredEvents_append :
    deliveredEvents (history ++ o.toList) =
      deliveredEvents history ++ (o.bind Obs.delivered?).toList :=
  filterMap_observed _ history o

end Append

/-- How many of some occurrences are of one event object. -/
def countOf (ref : EventRef) (occurrences : List Occurrence) : ℕ :=
  occurrences.countP (·.event = ref)

@[simp] theorem countOf_nil (ref : EventRef) : countOf ref [] = 0 := rfl

@[simp] theorem countOf_append (ref : EventRef) (before after : List Occurrence) :
    countOf ref (before ++ after) = countOf ref before + countOf ref after :=
  List.countP_append

@[simp] theorem countOf_singleton (ref : EventRef) (o : Occurrence) :
    countOf ref [o] = if o.event = ref then 1 else 0 := by
  simp [countOf, List.countP_cons]

theorem enqueued_delivery {κ : Type v} (history : List (Obs κ)) :
    Delivery.enqueued (history.flatMap Obs.delivery) = enqueuedEvents history := by
  induction history with
  | nil => rfl
  | cons x rest ih =>
      cases x <;>
        simp_all [Delivery.enqueued, enqueuedEvents, List.filterMap_cons, Obs.delivery,
          Obs.enqueued?]

theorem dequeued_delivery {κ : Type v} (history : List (Obs κ)) :
    Delivery.dequeued (history.flatMap Obs.delivery) = deliveredEvents history := by
  induction history with
  | nil => rfl
  | cons x rest ih =>
      cases x <;>
        simp_all [Delivery.dequeued, deliveredEvents, List.filterMap_cons, Obs.delivery,
          Obs.delivered?]

namespace RunningClient

variable {ρ : Type u} {κ : Type v}

/-! ## The view -/

/-- The process thread as a producer. -/
def processView (cycle : ℕ) : ProcessPc → ProducerPc Occurrence
  | .enqueue _ i => .enqueue (.process cycle i) .giveUp
  | .post _ _ => .post
  | _ => .idle

/-- The session thread as a producer. -/
def sessionView (e : SessionEvent) : SessionPc → ProducerPc Occurrence
  | .enqueue => .enqueue (.session e) .postAnyway
  | .post => .post
  | _ => .idle

/-- A control thread as a producer. -/
def controlView (cb : ControlCb) (n : ℕ) : ControlPc → ProducerPc Occurrence
  | .idle => .idle
  | .enqueue => .enqueue (.control cb n) .postAnyway
  | .post => .post

/-- A thread of the script as a consumer. -/
def scriptView : ScriptPc → ConsumerPc Occurrence
  | .outside => .outside
  | .dequeue => .dequeue
  | .semWait => .semWait

/-- A running client as a state of event delivery. -/
def view (s : RunningClient ρ κ) : Delivery Producer κ Occurrence where
  eventQueue := s.client.eventQueue
  mutex := s.client.mutex
  producer
    | .process => processView s.process.serial s.process.pc
    | .session => sessionView s.session.serial s.session.pc
    | .control cb => controlView cb (s.control cb).serial (s.control cb).pc
  consumer c := scriptView (s.script c)

section View

variable (s : RunningClient ρ κ)

@[simp] theorem view_setPort (i : ℕ) (p : JacksRbPort ρ) : (s.setPort i p).view = s.view := rfl

@[simp] theorem view_setSessionData (data : Option SessionEvent) :
    (s.setSessionData data).view = s.view := rfl

@[simp] theorem view_setLatch (l : JacksLatch) : (s.setLatch l).view = s.view := rfl

@[simp] theorem view_setQueue (q : BoundedFifo Occurrence) :
    (s.setQueue q).view = { s.view with eventQueue := q } := rfl

@[simp] theorem view_setMutex (tokens : ℕ) :
    (s.setMutex tokens).view = { s.view with mutex := tokens } := rfl

@[simp] theorem view_process (t : Thread ProcessPc) :
    view { s with process := t } = s.view.setProducer .process (processView t.serial t.pc) := by
  simp only [view, Delivery.setProducer, Delivery.mk.injEq, true_and, and_true]
  funext p
  cases p <;> simp

@[simp] theorem view_session (t : Thread SessionPc) :
    view { s with session := t } = s.view.setProducer .session (sessionView t.serial t.pc) := by
  simp only [view, Delivery.setProducer, Delivery.mk.injEq, true_and, and_true]
  funext p
  cases p <;> simp

@[simp] theorem view_setControl (cb : ControlCb) (t : Thread ControlPc) :
    (s.setControl cb t).view =
      s.view.setProducer (.control cb) (controlView cb t.serial t.pc) := by
  simp only [view, Delivery.setProducer, setControl, Delivery.mk.injEq, true_and, and_true]
  funext p
  cases p with
  | control cb' =>
      by_cases same : cb' = cb
      · subst same; simp
      · simp [same]
  | _ => simp

@[simp] theorem view_atProcess (pc : ProcessPc) :
    (s.atProcess pc).view = s.view.setProducer .process (processView s.process.serial pc) :=
  view_process s ⟨s.process.serial, pc⟩

@[simp] theorem view_atSession (pc : SessionPc) :
    (s.atSession pc).view = s.view.setProducer .session (sessionView s.session.serial pc) :=
  view_session s ⟨s.session.serial, pc⟩

@[simp] theorem view_atScript [DecidableEq κ] (c : κ) (pc : ScriptPc) :
    (s.atScript c pc).view = s.view.setConsumer c (scriptView pc) := by
  simp only [view, Delivery.setConsumer, atScript, Delivery.mk.injEq, true_and]
  funext c'
  by_cases same : c' = c
  · subst same; simp
  · simp [same]

end View

/-! ## The simulation -/

section Simulation

variable [DecidableEq κ] {capacity : ℕ}

/-- A step that neither moves a producer or consumer nor touches the queue or the
semaphore. -/
theorem simulates_invisible {s s' : RunningClient ρ κ} {o : Option (Obs κ)}
    (same : s'.view = s.view) (quiet : o.toList.flatMap Obs.delivery = []) :
    ∃ actions, ∀ history, (deliverySystem Producer κ Occurrence capacity).exec s.view history
      actions = some (s'.view, history ++ o.toList.flatMap Obs.delivery) :=
  ⟨[], fun history => by rw [same, quiet, List.append_nil, TraceSystem.exec]⟩

/-- A step that is one step of event delivery. -/
theorem simulates_one {s s' : RunningClient ρ κ} {o : Option (Obs κ)}
    (a : DeliveryAction Producer κ Occurrence) (seen : Option (DeliveryObs κ Occurrence))
    (moves : s.view.next a = some (s'.view, seen))
    (observed : o.toList.flatMap Obs.delivery = seen.toList) :
    ∃ actions, ∀ history, (deliverySystem Producer κ Occurrence capacity).exec s.view history
      actions = some (s'.view, history ++ o.toList.flatMap Obs.delivery) := by
  refine ⟨[a], fun history => ?_⟩
  rw [TraceSystem.exec_single (M := deliverySystem Producer κ Occurrence capacity) moves,
    observed]

variable [JackRingbuffer ρ]

/-- The steps of event delivery a step of the client is: those of the thread that
moved, as far as they concern the queue. -/
theorem simulates_step {s s' : RunningClient ρ κ} {a : Action κ} {o : Option (Obs κ)}
    (moves : Step s a s' o) :
    ∃ actions, ∀ history, (deliverySystem Producer κ Occurrence capacity).exec s.view history
      actions = some (s'.view, history ++ o.toList.flatMap Obs.delivery) := by
  have process : s.view.producer .process = processView s.process.serial s.process.pc := rfl
  have session : s.view.producer .session = sessionView s.session.serial s.session.pc := rfl
  have control : ∀ cb, s.view.producer (.control cb) =
      controlView cb (s.control cb).serial (s.control cb).pc := fun _ => rfl
  have script : ∀ c, s.view.consumer c = scriptView (s.script c) := fun _ => rfl
  have queue : s.view.eventQueue = s.client.eventQueue := rfl
  have mutex : s.view.mutex = s.client.mutex := rfl
  cases moves with
  | processCb here | endOfPorts here last | processReturned here | overran here port failure =>
      refine simulates_invisible ?_ rfl
      simp [Delivery.setProducer_eq_self, process, here, processView]
  | @wrote call i p here port success =>
      refine simulates_one (.callback .process (.process s.process.serial i) .giveUp)
        none ?_ rfl
      simp [Delivery.next, process, here, processView]
  | @processEnqueued call i q here room =>
      refine simulates_one (.enqueue .process)
        (some (.enqueued (.process s.process.serial i))) ?_ rfl
      simp [Delivery.next, Delivery.setProducer, process, queue, here, room, processView]
  | @processRefused call i here full =>
      refine simulates_one (.enqueue .process)
        (some (.refused (.process s.process.serial i))) ?_ rfl
      simp [Delivery.next, process, queue, here, full, processView]
  | processPosted here =>
      refine simulates_one (.post .process) none ?_ rfl
      simp [Delivery.next, Delivery.setProducer, process, mutex, here, processView]
  | sessionCb here | latchPassed here posted | replied here | freed here | dataCleared here =>
      refine simulates_invisible ?_ rfl
      simp [Delivery.setProducer_eq_self, session, here, sessionView]
  | dataSet here =>
      refine simulates_one (.callback .session (.session s.session.serial) .postAnyway)
        none ?_ rfl
      simp [Delivery.next, session, here, sessionView]
  | @sessionEnqueued q here room =>
      refine simulates_one (.enqueue .session)
        (some (.enqueued (.session s.session.serial))) ?_ rfl
      simp [Delivery.next, Delivery.setProducer, session, queue, here, room, sessionView]
  | sessionRefused here full =>
      refine simulates_one (.enqueue .session)
        (some (.refused (.session s.session.serial))) ?_ rfl
      simp [Delivery.next, session, queue, here, full, sessionView]
  | sessionPosted here =>
      refine simulates_one (.post .session) none ?_ rfl
      simp [Delivery.next, Delivery.setProducer, session, mutex, here, sessionView]
  | @controlCb cb here =>
      refine simulates_one (.callback (.control cb) (.control cb (s.control cb).serial) .postAnyway)
        none ?_ rfl
      simp [Delivery.next, control, here, controlView]
  | @controlEnqueued cb q here room =>
      refine simulates_one (.enqueue (.control cb))
        (some (.enqueued (.control cb (s.control cb).serial))) ?_ rfl
      simp [Delivery.next, Delivery.setProducer, control, queue, here, room, controlView]
  | @controlRefused cb here full =>
      refine simulates_one (.enqueue (.control cb))
        (some (.refused (.control cb (s.control cb).serial))) ?_ rfl
      simp [Delivery.next, control, queue, here, full, controlView]
  | @controlPosted cb here =>
      refine simulates_one (.post (.control cb)) none ?_ rfl
      simp [Delivery.next, Delivery.setProducer, control, mutex, here, controlView]
  | @getEvent c here =>
      refine simulates_one (.getEvent c) none ?_ rfl
      simp [Delivery.next, script, here, scriptView]
  | @delivered c o q here first =>
      -- the dequeue and the return of `get_event` are one step of the client
      refine ⟨[.dequeue c, .giveBack c], fun history => ?_⟩
      have first : (deliverySystem Producer κ Occurrence capacity).next s.view (.dequeue c) =
          some ({ s.view.setConsumer c (.returning o) with eventQueue := q },
            some (.dequeued c o)) := by
        simp [deliverySystem, Delivery.next, script, queue, here, first, scriptView]
      have second : (deliverySystem Producer κ Occurrence capacity).next
          { s.view.setConsumer c (.returning o) with eventQueue := q } (.giveBack c) =
          some (((s.setQueue q).atScript c .outside).view, some (.returned c o)) := by
        simp [deliverySystem, Delivery.next, Delivery.setConsumer, scriptView]
      rw [TraceSystem.exec_pair first second]
      rfl
  | @foundEmpty c here empty =>
      refine simulates_one (.dequeue c) none ?_ rfl
      simp [Delivery.next, script, queue, here, empty, scriptView]
  | @waited c tokens here available =>
      refine simulates_one (.wait c) none ?_ rfl
      simp [Delivery.next, Delivery.setConsumer, script, mutex, here, available, scriptView]
  | @interrupted c here =>
      refine simulates_one (.interrupt c) none ?_ rfl
      simp [Delivery.next, script, here, scriptView]
  | completed | gotData => exact simulates_invisible rfl rfl
  | gotBuffer port => exact simulates_invisible (by simp) rfl

/-! ## What carries over -/

variable {rbSize : UInt32} {heap : List Malloced}

/-- **A running client is an instance of event delivery**, with a queue of
`rb_size` elements. -/
theorem simulates_delivery :
    TraceSystem.Simulates (clientSystem ρ κ rbSize heap)
      (deliverySystem Producer κ Occurrence (JacksRbClient.chosenRbSize rbSize).toNat)
      view Obs.delivery where
  init := by
    simp only [clientSystem, deliverySystem, view, Delivery.mk.injEq,
      JacksRbClient.eventQueue_withPorts, JacksRbClient.mutex_withPorts, true_and]
    refine ⟨?_, rfl⟩
    funext p
    cases p <;> rfl
  step moves := simulates_step (step_of_next moves)

variable {s : RunningClient ρ κ} {history : List (Obs κ)}

/-- The event queue of a client loses and doubles nothing. -/
theorem reaches_conserves (run : (clientSystem ρ κ rbSize heap).Reaches s history) :
    BoundedFifo.Conserves (enqueuedEvents history) (deliveredEvents history)
      s.client.eventQueue.items := by
  have accounted := (Delivery.reaches_accounted (simulates_delivery.reaches run)).queue
  rwa [enqueued_delivery, dequeued_delivery] at accounted

/-- No thread of the script sleeps through an event. -/
theorem reaches_not_lostWakeUp [Fintype κ]
    (run : (clientSystem ρ κ rbSize heap).Reaches s history) : ¬ s.view.LostWakeUp :=
  (Delivery.reaches_awake (simulates_delivery.reaches run)).not_lostWakeUp

end Simulation

end RunningClient

end Jacks
