import Jacks.Foundations.TraceSystem
import Jacks.Foundations.BoundedFifo
import Jacks.Foundations.ThreadCount

/-!
# Event delivery

The meeting of the callbacks and `JacksRbClient_get_event` over the event queue
and the semaphore, for any number of threads on either side.

A callback hands over one event in two steps, `queue_enqueue` and then
`sem_post`.  `_process_cb` looks at the result of the first and gives up when
the queue is full; the other callbacks post in any case.  `get_event` tries to
dequeue, and on an empty queue waits on the semaphore and tries again; a wait
may also end early, without a token.

A successful dequeue takes no token, so the count drifts away from the queue
length and only an inequality ties them together: `Awake`, the queue is never
longer than the tokens, the consumers about to dequeue and the producers about
to post, together.  That no event is lost or doubled is the accounting law of
the queue (`BoundedFifo.Conserves`) carried along a run.
-/

namespace Jacks

open Foundations

universe u v w

/-! ## The machine -/

/-- What a callback does when the queue refuses its event. -/
inductive OnFull
  /-- `_process_cb` returns. -/
  | giveUp
  /-- The other callbacks do not look at the result. -/
  | postAnyway
  deriving DecidableEq

/-- Where a callback thread is. -/
inductive ProducerPc (α : Type u)
  | idle
  | enqueue (event : α) (onFull : OnFull)
  | post
  deriving DecidableEq

/-- Where a thread is in `JacksRbClient_get_event`. -/
inductive ConsumerPc (α : Type u)
  | outside
  | dequeue
  | semWait
  | returning (je : α)
  deriving DecidableEq

/-- The event queue, the semaphore and the threads around them. -/
structure Delivery (π : Type v) (κ : Type w) (α : Type u) where
  eventQueue : BoundedFifo α
  mutex : ℕ
  producer : π → ProducerPc α
  consumer : κ → ConsumerPc α

/-- Which thread takes its next step, and where there is a choice, which one. -/
inductive DeliveryAction (π : Type v) (κ : Type w) (α : Type u)
  | callback (p : π) (event : α) (onFull : OnFull)
  | enqueue (p : π)
  | post (p : π)
  | getEvent (c : κ)
  | dequeue (c : κ)
  | wait (c : κ)
  | interrupt (c : κ)
  | giveBack (c : κ)

/-- What is recorded of a run. -/
inductive DeliveryObs (κ : Type w) (α : Type u)
  | enqueued (event : α)
  | refused (event : α)
  | dequeued (c : κ) (event : α)
  | returned (c : κ) (event : α)

namespace Delivery

variable {π : Type v} {κ : Type w} {α : Type u}

section Updates

variable [DecidableEq π] (d : Delivery π κ α) (p : π) (pc : ProducerPc α)

/-- Move one producer. -/
def setProducer : Delivery π κ α :=
  { d with producer := Function.update d.producer p pc }

@[simp] theorem setProducer_eventQueue : (d.setProducer p pc).eventQueue = d.eventQueue := rfl

@[simp] theorem setProducer_mutex : (d.setProducer p pc).mutex = d.mutex := rfl

@[simp] theorem setProducer_consumer : (d.setProducer p pc).consumer = d.consumer := rfl

@[simp] theorem setProducer_producer :
    (d.setProducer p pc).producer = Function.update d.producer p pc := rfl

/-- Moving a producer to where it is. -/
theorem setProducer_eq_self (here : d.producer p = pc) : d.setProducer p pc = d := by
  subst here
  simp [setProducer]

end Updates

section Updates

variable [DecidableEq κ] (d : Delivery π κ α) (c : κ) (pc : ConsumerPc α)

/-- Move one consumer. -/
def setConsumer : Delivery π κ α :=
  { d with consumer := Function.update d.consumer c pc }

@[simp] theorem setConsumer_eventQueue : (d.setConsumer c pc).eventQueue = d.eventQueue := rfl

@[simp] theorem setConsumer_mutex : (d.setConsumer c pc).mutex = d.mutex := rfl

@[simp] theorem setConsumer_producer : (d.setConsumer c pc).producer = d.producer := rfl

@[simp] theorem setConsumer_consumer :
    (d.setConsumer c pc).consumer = Function.update d.consumer c pc := rfl

end Updates

variable [DecidableEq π] [DecidableEq κ]

/-- One atomic step. -/
def next (d : Delivery π κ α) :
    DeliveryAction π κ α → Option (Delivery π κ α × Option (DeliveryObs κ α))
  | .callback p event onFull =>
      match d.producer p with
      | .idle => some (d.setProducer p (.enqueue event onFull), none)
      | _ => none
  | .enqueue p =>
      match d.producer p with
      | .enqueue event onFull =>
          match d.eventQueue.enqueue event, onFull with
          | some q, _ =>
              some ({ d.setProducer p .post with eventQueue := q }, some (.enqueued event))
          | none, .giveUp => some (d.setProducer p .idle, some (.refused event))
          | none, .postAnyway => some (d.setProducer p .post, some (.refused event))
      | _ => none
  | .post p =>
      match d.producer p with
      | .post => some ({ d.setProducer p .idle with mutex := d.mutex + 1 }, none)
      | _ => none
  | .getEvent c =>
      match d.consumer c with
      | .outside => some (d.setConsumer c .dequeue, none)
      | _ => none
  | .dequeue c =>
      match d.consumer c, d.eventQueue.dequeue with
      | .dequeue, some (event, q) =>
          some ({ d.setConsumer c (.returning event) with eventQueue := q },
            some (.dequeued c event))
      | .dequeue, none => some (d.setConsumer c .semWait, none)
      | _, _ => none
  | .wait c =>
      match d.consumer c, d.mutex with
      | .semWait, tokens + 1 => some ({ d.setConsumer c .dequeue with mutex := tokens }, none)
      | _, _ => none
  | .interrupt c =>
      match d.consumer c with
      | .semWait => some (d.setConsumer c .dequeue, none)
      | _ => none
  | .giveBack c =>
      match d.consumer c with
      | .returning je => some (d.setConsumer c .outside, some (.returned c je))
      | _ => none

/-- What a step can do. -/
inductive Step (d : Delivery π κ α) : Delivery π κ α → Option (DeliveryObs κ α) → Prop
  | callback {p event onFull} (here : d.producer p = .idle) :
      Step d (d.setProducer p (.enqueue event onFull)) none
  | enqueued {p event onFull q} (here : d.producer p = .enqueue event onFull)
      (room : d.eventQueue.enqueue event = some q) :
      Step d { d.setProducer p .post with eventQueue := q } (some (.enqueued event))
  | refused {p event onFull pc} (here : d.producer p = .enqueue event onFull)
      (full : d.eventQueue.enqueue event = none) (goesOn : pc = .idle ∨ pc = .post) :
      Step d (d.setProducer p pc) (some (.refused event))
  | post {p} (here : d.producer p = .post) :
      Step d { d.setProducer p .idle with mutex := d.mutex + 1 } none
  | getEvent {c} (here : d.consumer c = .outside) : Step d (d.setConsumer c .dequeue) none
  | dequeued {c event q} (here : d.consumer c = .dequeue)
      (first : d.eventQueue.dequeue = some (event, q)) :
      Step d { d.setConsumer c (.returning event) with eventQueue := q }
        (some (.dequeued c event))
  | foundEmpty {c} (here : d.consumer c = .dequeue) (empty : d.eventQueue.dequeue = none) :
      Step d (d.setConsumer c .semWait) none
  | wait {c tokens} (here : d.consumer c = .semWait) (available : d.mutex = tokens + 1) :
      Step d { d.setConsumer c .dequeue with mutex := tokens } none
  | interrupt {c} (here : d.consumer c = .semWait) : Step d (d.setConsumer c .dequeue) none
  | giveBack {c je} (here : d.consumer c = .returning je) :
      Step d (d.setConsumer c .outside) (some (.returned c je))

/-- `next` does nothing else. -/
theorem step_of_next {d d' : Delivery π κ α} {a : DeliveryAction π κ α}
    {o : Option (DeliveryObs κ α)} (moves : d.next a = some (d', o)) : Step d d' o := by
  cases a with
  | callback p event onFull =>
      simp only [next] at moves
      split at moves
      · next here => cases moves; exact .callback here
      · cases moves
  | enqueue p =>
      simp only [next] at moves
      split at moves
      · next here =>
          split at moves
          · next room => cases moves; exact .enqueued here room
          · next full => cases moves; exact .refused here full (.inl rfl)
          · next full => cases moves; exact .refused here full (.inr rfl)
      · cases moves
  | post p =>
      simp only [next] at moves
      split at moves
      · next here => cases moves; exact .post here
      · cases moves
  | getEvent c =>
      simp only [next] at moves
      split at moves
      · next here => cases moves; exact .getEvent here
      · cases moves
  | dequeue c =>
      simp only [next] at moves
      split at moves
      · next here first => cases moves; exact .dequeued here first
      · next here empty => cases moves; exact .foundEmpty here empty
      · cases moves
  | wait c =>
      simp only [next] at moves
      split at moves
      · next here available => cases moves; exact .wait here available
      · cases moves
  | interrupt c =>
      simp only [next] at moves
      split at moves
      · next here => cases moves; exact .interrupt here
      · cases moves
  | giveBack c =>
      simp only [next] at moves
      split at moves
      · next here => cases moves; exact .giveBack here
      · cases moves

/-! ## What is recorded -/

section Histories

variable (history : List (DeliveryObs κ α))

/-- The events successfully enqueued, in this order. -/
def enqueued : List α :=
  history.filterMap fun
    | .enqueued event => some event
    | _ => none

/-- The events dequeued by any consumer, in this order. -/
def dequeued : List α :=
  history.filterMap fun
    | .dequeued _ event => some event
    | _ => none

/-- The events one consumer dequeued. -/
def dequeuedBy (c : κ) : List α :=
  history.filterMap fun
    | .dequeued c' event => if c' = c then some event else none
    | _ => none

/-- The events the calls of one consumer returned. -/
def returnedBy (c : κ) : List α :=
  history.filterMap fun
    | .returned c' event => if c' = c then some event else none
    | _ => none

end Histories

/-- The event a consumer has dequeued and not yet returned. -/
def inHand : ConsumerPc α → List α
  | .returning je => [je]
  | _ => []

/-! ## No event is lost or doubled -/

/-- The accounting of a run: the queue conserves events, and every consumer
returns what it dequeues. -/
structure Accounted (d : Delivery π κ α) (history : List (DeliveryObs κ α)) : Prop where
  queue : BoundedFifo.Conserves (enqueued history) (dequeued history) d.eventQueue.items
  consumer : ∀ c, dequeuedBy history c = returnedBy history c ++ inHand (d.consumer c)

theorem dequeuedBy_append (history more : List (DeliveryObs κ α)) (c : κ) :
    dequeuedBy (history ++ more) c = dequeuedBy history c ++ dequeuedBy more c := by
  simp [dequeuedBy]

theorem returnedBy_append (history more : List (DeliveryObs κ α)) (c : κ) :
    returnedBy (history ++ more) c = returnedBy history c ++ returnedBy more c := by
  simp [returnedBy]

omit [DecidableEq π] in
/-- A consumer moves: what it had in hand and what it dequeues is what it returns and
what it then has in hand.  The others are not concerned. -/
theorem consumer_moved {d : Delivery π κ α} {history more : List (DeliveryObs κ α)} {c : κ}
    {pc : ConsumerPc α}
    (consumer : ∀ c, dequeuedBy history c = returnedBy history c ++ inHand (d.consumer c))
    (own : inHand (d.consumer c) ++ dequeuedBy more c = returnedBy more c ++ inHand pc)
    (others : ∀ c', c' ≠ c → dequeuedBy more c' = [] ∧ returnedBy more c' = []) (c' : κ) :
    dequeuedBy (history ++ more) c' =
      returnedBy (history ++ more) c' ++ inHand ((d.setConsumer c pc).consumer c') := by
  rw [dequeuedBy_append, returnedBy_append, consumer c', setConsumer_consumer, List.append_assoc]
  by_cases same : c' = c
  · subst same
    rw [Function.update_self, own, List.append_assoc]
  · obtain ⟨noneDequeued, noneReturned⟩ := others c' same
    rw [Function.update_of_ne same, noneDequeued, noneReturned, List.append_nil, List.append_nil]

/-- Each step keeps the accounting. -/
theorem Accounted.step {d d' : Delivery π κ α} {history : List (DeliveryObs κ α)}
    {o : Option (DeliveryObs κ α)} (inv : Accounted d history) (moves : Step d d' o) :
    Accounted d' (history ++ o.toList) := by
  obtain ⟨queue, consumer⟩ := inv
  cases moves with
  | callback here => exact ⟨by simpa using queue, by simpa using consumer⟩
  | enqueued here room =>
      have after := (BoundedFifo.enqueue_eq_some_iff.mp room).2.2
      refine ⟨?_, ?_⟩
      · simpa [enqueued, dequeued, after] using queue.accept [_]
      · simpa [dequeuedBy, returnedBy] using consumer
  | refused here full goesOn =>
      exact ⟨by simpa [enqueued, dequeued] using queue,
        by simpa [dequeuedBy, returnedBy] using consumer⟩
  | post here => exact ⟨by simpa using queue, by simpa using consumer⟩
  | getEvent here =>
      exact ⟨by simpa using queue, consumer_moved consumer (by rw [here]; rfl)
        fun _ _ => ⟨rfl, rfl⟩⟩
  | @dequeued c event q here first =>
      have before := (BoundedFifo.dequeue_eq_some_iff.mp first).1
      refine ⟨?_, consumer_moved consumer ?_ ?_⟩
      · simpa [enqueued, dequeued] using
          queue.hand_out (show d.eventQueue.items = [event] ++ q.items from before)
      · rw [here]
        simp [dequeuedBy, returnedBy, inHand]
      · intro c' other
        exact ⟨by simp [dequeuedBy, Ne.symm other], rfl⟩
  | foundEmpty here empty =>
      exact ⟨by simpa using queue, consumer_moved consumer (by rw [here]; rfl)
        fun _ _ => ⟨rfl, rfl⟩⟩
  | wait here available =>
      exact ⟨by simpa using queue, consumer_moved consumer (by rw [here]; rfl)
        fun _ _ => ⟨rfl, rfl⟩⟩
  | interrupt here =>
      exact ⟨by simpa using queue, consumer_moved consumer (by rw [here]; rfl)
        fun _ _ => ⟨rfl, rfl⟩⟩
  | @giveBack c je here =>
      refine ⟨by simpa [enqueued, dequeued] using queue, consumer_moved consumer ?_ ?_⟩
      · rw [here]
        simp [dequeuedBy, returnedBy, inHand]
      · intro c' other
        exact ⟨rfl, by simp [returnedBy, Ne.symm other]⟩

/-! ## No wake-up is lost -/

section Awake

variable [Fintype π] [Fintype κ]

/-- The consumer is about to look at the queue. -/
def ConsumerPc.looks : ConsumerPc α → Bool
  | .dequeue => true
  | _ => false

/-- The producer is between its enqueue and its post. -/
def ProducerPc.owesPost : ProducerPc α → Bool
  | .post => true
  | _ => false

/-- Every queued event is paid for: by a token, by a consumer about to look at
the queue, or by a producer about to post. -/
def Awake (d : Delivery π κ α) : Prop :=
  d.eventQueue.items.length ≤
    d.mutex + countAt d.consumer ConsumerPc.looks + countAt d.producer ProducerPc.owesPost

omit [DecidableEq κ] [Fintype κ] in
/-- Moving a producer changes how many owe a post by where it was and where it is. -/
theorem owed_update {d : Delivery π κ α} {p : π} {before : ProducerPc α}
    (here : d.producer p = before) (after : ProducerPc α) :
    countAt (Function.update d.producer p after) ProducerPc.owesPost +
        (ProducerPc.owesPost before).toNat =
      countAt d.producer ProducerPc.owesPost + (ProducerPc.owesPost after).toNat := by
  rw [← here]
  exact countAt_update d.producer ProducerPc.owesPost p after

omit [DecidableEq π] [Fintype π] in
/-- Moving a consumer changes how many are about to look by where it was and where
it is. -/
theorem looking_update {d : Delivery π κ α} {c : κ} {before : ConsumerPc α}
    (here : d.consumer c = before) (after : ConsumerPc α) :
    countAt (Function.update d.consumer c after) ConsumerPc.looks +
        (ConsumerPc.looks before).toNat =
      countAt d.consumer ConsumerPc.looks + (ConsumerPc.looks after).toNat := by
  rw [← here]
  exact countAt_update d.consumer ConsumerPc.looks c after

/-- Each step keeps the balance. -/
theorem Awake.step {d d' : Delivery π κ α} {o : Option (DeliveryObs κ α)} (inv : Awake d)
    (moves : Step d d' o) : Awake d' := by
  unfold Awake at *
  cases moves with
  | @callback p event onFull here =>
      have owed := owed_update here (.enqueue event onFull)
      simp only [ProducerPc.owesPost, Bool.toNat_false] at owed
      simp only [setProducer_eventQueue, setProducer_mutex, setProducer_consumer,
        setProducer_producer]
      omega
  | @enqueued p event onFull q here room =>
      -- one more event, and its producer owes the post for it
      have owed := owed_update here .post
      have longer := congrArg List.length (BoundedFifo.enqueue_eq_some_iff.mp room).2.2
      rw [List.length_append, List.length_singleton] at longer
      simp only [ProducerPc.owesPost, Bool.toNat_false, Bool.toNat_true] at owed
      simp only [setProducer_mutex, setProducer_consumer, setProducer_producer]
      omega
  | @refused p event onFull pc here full goesOn =>
      have owed := owed_update here pc
      simp only [ProducerPc.owesPost, Bool.toNat_false] at owed
      simp only [setProducer_eventQueue, setProducer_mutex, setProducer_consumer,
        setProducer_producer]
      omega
  | @post p here =>
      -- the post is paid with a token
      have owed := owed_update here .idle
      simp only [ProducerPc.owesPost, Bool.toNat_false, Bool.toNat_true] at owed
      simp only [setProducer_eventQueue, setProducer_consumer, setProducer_producer]
      omega
  | @getEvent c here =>
      have looking := looking_update here .dequeue
      simp only [ConsumerPc.looks, Bool.toNat_false, Bool.toNat_true] at looking
      simp only [setConsumer_eventQueue, setConsumer_mutex, setConsumer_producer,
        setConsumer_consumer]
      omega
  | @dequeued c event q here first =>
      -- the consumer leaves with the event it was counted for
      have looking := looking_update here (.returning event)
      have shorter := congrArg List.length (BoundedFifo.dequeue_eq_some_iff.mp first).1
      rw [List.length_cons] at shorter
      simp only [ConsumerPc.looks, Bool.toNat_false, Bool.toNat_true] at looking
      simp only [setConsumer_mutex, setConsumer_producer, setConsumer_consumer]
      omega
  | @foundEmpty c here empty =>
      rw [setConsumer_eventQueue, BoundedFifo.dequeue_eq_none_iff.mp empty]
      exact Nat.zero_le _
  | @wait c tokens here available =>
      -- the token pays for the look
      have looking := looking_update here .dequeue
      simp only [ConsumerPc.looks, Bool.toNat_false, Bool.toNat_true] at looking
      simp only [setConsumer_eventQueue, setConsumer_producer, setConsumer_consumer]
      omega
  | @interrupt c here =>
      have looking := looking_update here .dequeue
      simp only [ConsumerPc.looks, Bool.toNat_false, Bool.toNat_true] at looking
      simp only [setConsumer_eventQueue, setConsumer_mutex, setConsumer_producer,
        setConsumer_consumer]
      omega
  | @giveBack c je here =>
      have looking := looking_update here .outside
      simp only [ConsumerPc.looks, Bool.toNat_false] at looking
      simp only [setConsumer_eventQueue, setConsumer_mutex, setConsumer_producer,
        setConsumer_consumer]
      omega

/-- A state nobody would ever leave although an event is waiting: the queue is
not empty, every consumer inside `get_event` is blocked on the semaphore with no
token left, and no producer is about to post. -/
def LostWakeUp (d : Delivery π κ α) : Prop :=
  d.eventQueue.items ≠ [] ∧ d.mutex = 0 ∧
    (∀ c, d.consumer c ≠ .outside → d.consumer c = .semWait) ∧ ∀ p, d.producer p ≠ .post

omit [DecidableEq π] [DecidableEq κ] in
theorem Awake.not_lostWakeUp {d : Delivery π κ α} (inv : Awake d) : ¬ d.LostWakeUp := by
  rintro ⟨waiting, noToken, asleep, noPost⟩
  have noConsumer : countAt d.consumer ConsumerPc.looks = 0 := by
    refine countAt_eq_zero_iff.mpr fun c => ?_
    by_cases inside : d.consumer c = .outside
    · rw [inside]; rfl
    · rw [asleep c inside]; rfl
  have noProducer : countAt d.producer ProducerPc.owesPost = 0 := by
    refine countAt_eq_zero_iff.mpr fun p => ?_
    have := noPost p
    cases here : d.producer p with
    | post => exact absurd here this
    | _ => rfl
  have := List.length_pos_iff.mpr waiting
  unfold Awake at inv
  omega

end Awake

end Delivery

/-! ## All runs -/

variable {π : Type v} {κ : Type w} {α : Type u}
variable [DecidableEq π] [DecidableEq κ]

/-- Event delivery as `JacksRbClient_new` sets it up: an empty queue and a
semaphore initialised to one. -/
def deliverySystem (π : Type v) (κ : Type w) (α : Type u) [DecidableEq π] [DecidableEq κ]
    (capacity : ℕ) : TraceSystem (Delivery π κ α) (DeliveryAction π κ α) (DeliveryObs κ α) where
  init :=
    { eventQueue := BoundedFifo.empty capacity
      mutex := 1
      producer := fun _ => .idle
      consumer := fun _ => .outside }
  next := Delivery.next

namespace Delivery

variable {capacity : ℕ} {d : Delivery π κ α} {history : List (DeliveryObs κ α)}

theorem reaches_accounted (run : (deliverySystem π κ α capacity).Reaches d history) :
    Accounted d history := by
  refine run.induct (I := Accounted) ⟨rfl, fun _ => rfl⟩ ?_
  intro d history a d' o _ inv _ moves
  exact inv.step (step_of_next moves)

theorem reaches_awake [Fintype π] [Fintype κ]
    (run : (deliverySystem π κ α capacity).Reaches d history) : Awake d := by
  refine run.induct (I := fun d _ => Awake d) ?_ ?_
  · simp [Awake, deliverySystem]
  · intro d history a d' o _ inv _ moves
    exact inv.step (step_of_next moves)

/-- **Event delivery loses no wake-up and no event.**  In every state of every
run, for any number of producers and consumers: the events dequeued are a prefix
of the events enqueued, each consumer's calls return exactly what they dequeued,
in order and once, and the state is not one of a lost wake-up. -/
theorem getEvent_delivers [Fintype π] [Fintype κ]
    (run : (deliverySystem π κ α capacity).Reaches d history) :
    (dequeued history <+: enqueued history ∧
      ∀ c, dequeuedBy history c = returnedBy history c ++ inHand (d.consumer c)) ∧
    ¬ d.LostWakeUp :=
  ⟨⟨(reaches_accounted run).queue.returned_isPrefix, (reaches_accounted run).consumer⟩,
    (reaches_awake run).not_lostWakeUp⟩

/-- A consumer comes first and sleeps; the producer's post wakes it. -/
def wakeUpRun : List (DeliveryAction Unit Unit ℕ) :=
  [.getEvent (), .dequeue (), .wait (), .dequeue (), .callback () 7 .giveUp, .enqueue (),
   .post (), .wait (), .dequeue (), .giveBack ()]

theorem getEvent_delivers_wakeUpRun :
    ∃ d history, (deliverySystem Unit Unit ℕ 2).exec (deliverySystem Unit Unit ℕ 2).init []
        wakeUpRun = some (d, history) ∧
      returnedBy history () = [7] ∧
      (dequeued history <+: enqueued history ∧
        ∀ c, dequeuedBy history c = returnedBy history c ++ inHand (d.consumer c)) ∧
      ¬ d.LostWakeUp :=
  ⟨_, _, rfl, rfl, getEvent_delivers (TraceSystem.reaches_of_exec (deliverySystem Unit Unit ℕ 2)
    wakeUpRun rfl)⟩

end Delivery

end Jacks
