import Jacks.Freelist
import Jacks.Foundations.PlacedFifo

/-!
# The lock-free queue

The event queue itself (`lfds/queue_new.c`, `lfds/queue_queue.c`), access by access:
a linked list with a dummy element in front, whose two ends are pointers with counters,
and whose elements come from a free list and go back to it.

Each free list element carries one queue element from its allocation on, so one name
stands for both; `user_data` of the first is not stored, `fe` of the second is.

Following a null pointer leads to `fault`.  What a thread reports is observed where the
calls take effect: the swap that links an element, the swap that moves `dequeue`, the
null pointer on top of the free list.
-/

namespace Jacks

open Foundations

universe u v w

/-- `queue_element`. -/
structure QueueElement (ν : Type u) (α : Type v) where
  next : Pac ν
  fe : ν
  userData : α
  deriving DecidableEq

/-- `queue_state`, with all of its elements. -/
structure QueueState (ν : Type u) (α : Type v) where
  enqueue : Pac ν
  dequeue : Pac ν
  abaCounter : ℕ
  fs : FreelistState ν
  element : ν → QueueElement ν α

/-- The size of a `queue_element`, which is what one more is for a counter that is
declared as a pointer to one. -/
def queueElementSize : ℕ := 32

/-- A counter that is declared as a pointer, plus one. -/
def counterPlusOne (counter : ℕ) : ℕ := (counter + queueElementSize) % atomValues

theorem counterPlusOne_eq {counter : ℕ} (headroom : counter + queueElementSize < atomValues) :
    counterPlusOne counter = counter + queueElementSize :=
  Nat.mod_eq_of_lt headroom

/-! ## Where a thread is -/

/-- In `queue_internal_init_element`. -/
inductive InitPc
  | drawCounter
  | clearNextPointer
  | drawNextCounter
  | writeNextCounter (counter : ℕ)
  | writeFe
  | writeUserData
  deriving DecidableEq

/-- In `queue_internal_queue`, with what was read of `enqueue` and `next`. -/
inductive LinkPc (ν : Type u)
  | readPointer
  | readCounter (enqueuePointer : Option ν)
  | readNextPointer (enqueue : Pac ν)
  | readNextCounter (enqueue : Pac ν) (nextPointer : Option ν)
  | checkPointer (enqueue next : Pac ν)
  | checkCounter (enqueue next : Pac ν)
  | link (enqueue next : Pac ν)
  | help (enqueue next : Pac ν)
  /-- The element is linked; `enqueue` is to be moved behind it. -/
  | swing (enqueue : Pac ν)
  deriving DecidableEq

/-- In `queue_dequeue`, with what was read of `dequeue`, `enqueue` and `next`. -/
inductive DequeuePc (ν : Type u) (α : Type v)
  | readPointer
  | readCounter (dequeuePointer : Option ν)
  | readEnqueuePointer (dequeue : Pac ν)
  | readEnqueueCounter (dequeue : Pac ν) (enqueuePointer : Option ν)
  | readNextPointer (dequeue enqueue : Pac ν)
  | readNextCounter (dequeue enqueue : Pac ν) (nextPointer : Option ν)
  | checkPointer (dequeue enqueue next : Pac ν)
  | checkCounter (dequeue enqueue next : Pac ν)
  /-- `QUEUE_STATE_ENQUEUE_OUT_OF_PLACE`. -/
  | help (enqueue next : Pac ν)
  /-- `QUEUE_STATE_ATTEMPT_DEQUEUE`. -/
  | readUserData (dequeue next : Pac ν)
  | advance (dequeue next : Pac ν) (userData : α)
  /-- `dequeue` is moved; the old dummy is to go back. -/
  | readFe (dequeue : Pac ν) (userData : α)
  deriving DecidableEq

/-- A thread that uses the queue. -/
inductive QueuePc (ν : Type u) (α : Type v)
  | idle
  /-- In `freelist_pop`. -/
  | newElement (userData : α) (pc : PopPc ν)
  | initElement (userData : α) (fe : ν) (pc : InitPc)
  | internalQueue (userData : α) (qe : ν) (pc : LinkPc ν)
  | dequeue (pc : DequeuePc ν α)
  /-- In `freelist_push`. -/
  | giveBack (userData : α) (fe : ν) (pc : PushPc ν)
  | fault
  deriving DecidableEq

/-- A call of `queue_enqueue` or `queue_dequeue`, or the next access. -/
inductive QueueAct (α : Type v)
  | enqueue (userData : α)
  | dequeue
  | go
  deriving DecidableEq

/-- What comes of a step of `queue_internal_queue`. -/
inductive LinkResult (ν : Type u)
  | goesOn (pc : LinkPc ν)
  /-- The swap on `next` is made. -/
  | links (pc : LinkPc ν)
  | returns
  | faults

/-- What comes of a step of `queue_dequeue`. -/
inductive DequeueResult (ν : Type u) (α : Type v)
  | goesOn (pc : DequeuePc ν α)
  | returnsNull
  /-- The swap on `dequeue` is made. -/
  | takes (userData : α) (pc : DequeuePc ν α)
  | givesBack (userData : α) (fe : ν)
  | faults

namespace QueueState

variable {ν : Type u} {α : Type v} [DecidableEq ν]

/-- Write one element. -/
def setElement (qs : QueueState ν α) (n : ν) (e : QueueElement ν α) : QueueState ν α :=
  { qs with element := Function.update qs.element n e }

/-- Write `next` of one element. -/
def setNext (qs : QueueState ν α) (n : ν) (next : Pac ν) : QueueState ν α :=
  qs.setElement n { qs.element n with next := next }

/-- One access of `queue_internal_init_element`; no location is left when it returns. -/
def initStep (qs : QueueState ν α) (userData : α) (fe : ν) :
    InitPc → QueueState ν α × Option InitPc
  | .drawCounter =>
      ({ qs with abaCounter := abstractionIncrement qs.abaCounter }, some .clearNextPointer)
  | .clearNextPointer =>
      (qs.setNext fe ⟨none, (qs.element fe).next.counter⟩, some .drawNextCounter)
  | .drawNextCounter =>
      ({ qs with abaCounter := abstractionIncrement qs.abaCounter },
        some (.writeNextCounter (abstractionIncrement qs.abaCounter)))
  | .writeNextCounter counter =>
      (qs.setNext fe ⟨(qs.element fe).next.pointer, counter⟩, some .writeFe)
  | .writeFe => (qs.setElement fe { qs.element fe with fe := fe }, some .writeUserData)
  | .writeUserData => (qs.setElement fe { qs.element fe with userData := userData }, none)

/-- One access of `queue_internal_queue`. -/
def linkStep (qs : QueueState ν α) (qe : ν) : LinkPc ν → QueueState ν α × LinkResult ν
  | .readPointer => (qs, .goesOn (.readCounter qs.enqueue.pointer))
  | .readCounter enqueuePointer =>
      (qs, .goesOn (.readNextPointer ⟨enqueuePointer, qs.enqueue.counter⟩))
  | .readNextPointer enqueue =>
      match enqueue.pointer with
      | none => (qs, .faults)
      | some x => (qs, .goesOn (.readNextCounter enqueue (qs.element x).next.pointer))
  | .readNextCounter enqueue nextPointer =>
      match enqueue.pointer with
      | none => (qs, .faults)
      | some x =>
          (qs, .goesOn (.checkPointer enqueue ⟨nextPointer, (qs.element x).next.counter⟩))
  | .checkPointer enqueue next =>
      if qs.enqueue.pointer = enqueue.pointer then (qs, .goesOn (.checkCounter enqueue next))
      else (qs, .goesOn .readPointer)
  | .checkCounter enqueue next =>
      if qs.enqueue.counter = enqueue.counter then
        match next.pointer with
        | none => (qs, .goesOn (.link enqueue next))
        | some _ => (qs, .goesOn (.help enqueue next))
      else (qs, .goesOn .readPointer)
  | .link enqueue next =>
      match enqueue.pointer with
      | none => (qs, .faults)
      | some x =>
          match abstractionDcas (qs.element x).next ⟨some qe, counterPlusOne next.counter⟩ next with
          | (linked, _, true) => (qs.setNext x linked, .links (.swing enqueue))
          | (_, _, false) => (qs, .goesOn .readPointer)
  | .help enqueue next =>
      match abstractionDcas qs.enqueue ⟨next.pointer, counterPlusOne enqueue.counter⟩ enqueue with
      | (swung, _, _) => ({ qs with enqueue := swung }, .goesOn .readPointer)
  | .swing enqueue =>
      match abstractionDcas qs.enqueue ⟨some qe, counterPlusOne enqueue.counter⟩ enqueue with
      | (swung, _, _) => ({ qs with enqueue := swung }, .returns)

/-- One access of `queue_dequeue`, up to its `freelist_push`. -/
def dequeueStep (qs : QueueState ν α) : DequeuePc ν α → QueueState ν α × DequeueResult ν α
  | .readPointer => (qs, .goesOn (.readCounter qs.dequeue.pointer))
  | .readCounter dequeuePointer =>
      (qs, .goesOn (.readEnqueuePointer ⟨dequeuePointer, qs.dequeue.counter⟩))
  | .readEnqueuePointer dequeue => (qs, .goesOn (.readEnqueueCounter dequeue qs.enqueue.pointer))
  | .readEnqueueCounter dequeue enqueuePointer =>
      (qs, .goesOn (.readNextPointer dequeue ⟨enqueuePointer, qs.enqueue.counter⟩))
  | .readNextPointer dequeue enqueue =>
      match dequeue.pointer with
      | none => (qs, .faults)
      | some d => (qs, .goesOn (.readNextCounter dequeue enqueue (qs.element d).next.pointer))
  | .readNextCounter dequeue enqueue nextPointer =>
      match dequeue.pointer with
      | none => (qs, .faults)
      | some d =>
          (qs, .goesOn (.checkPointer dequeue enqueue
            ⟨nextPointer, (qs.element d).next.counter⟩))
  | .checkPointer dequeue enqueue next =>
      if dequeue.pointer = qs.dequeue.pointer then
        (qs, .goesOn (.checkCounter dequeue enqueue next))
      else (qs, .goesOn .readPointer)
  | .checkCounter dequeue enqueue next =>
      if dequeue.counter = qs.dequeue.counter then
        if enqueue.pointer = dequeue.pointer then
          match next.pointer with
          | none => (qs, .returnsNull)
          | some _ => (qs, .goesOn (.help enqueue next))
        else (qs, .goesOn (.readUserData dequeue next))
      else (qs, .goesOn .readPointer)
  | .help enqueue next =>
      match abstractionDcas qs.enqueue ⟨next.pointer, counterPlusOne enqueue.counter⟩ enqueue with
      | (swung, _, _) => ({ qs with enqueue := swung }, .goesOn .readPointer)
  | .readUserData dequeue next =>
      match next.pointer with
      | none => (qs, .faults)
      | some n => (qs, .goesOn (.advance dequeue next (qs.element n).userData))
  | .advance dequeue next userData =>
      match abstractionDcas qs.dequeue ⟨next.pointer, counterPlusOne dequeue.counter⟩ dequeue with
      | (advanced, _, true) =>
          ({ qs with dequeue := advanced }, .takes userData (.readFe dequeue userData))
      | (_, _, false) => (qs, .goesOn .readPointer)
  | .readFe dequeue userData =>
      match dequeue.pointer with
      | none => (qs, .faults)
      | some d => (qs, .givesBack userData (qs.element d).fe)

/-- One step of a thread that uses the queue. -/
def advance {ι : Type w} : Advance ι (QueueState ν α) (QueuePc ν α) (QueueAct α) (FifoObs ι α)
  | t, qs, .idle, .enqueue userData =>
      some (qs, .newElement userData .readCounter, some (.enqueues t userData))
  | t, qs, .idle, .dequeue => some (qs, .dequeue .readPointer, some (.dequeues t))
  | t, qs, .newElement userData pc, .go =>
      match qs.fs.popStep pc with
      | (fs, .goesOn pc') => some ({ qs with fs := fs }, .newElement userData pc', none)
      | (fs, .returns none) => some ({ qs with fs := fs }, .idle, some (.refused t userData))
      | (fs, .returns (some fe)) =>
          some ({ qs with fs := fs }, .initElement userData fe .drawCounter, none)
  | _, qs, .initElement userData fe pc, .go =>
      match qs.initStep userData fe pc with
      | (qs', some pc') => some (qs', .initElement userData fe pc', none)
      | (qs', none) => some (qs', .internalQueue userData fe .readPointer, none)
  | t, qs, .internalQueue userData qe pc, .go =>
      match qs.linkStep qe pc with
      | (qs', .goesOn pc') => some (qs', .internalQueue userData qe pc', none)
      | (qs', .links pc') => some (qs', .internalQueue userData qe pc', some (.appended t userData))
      | (qs', .returns) => some (qs', .idle, some (.accepted t userData))
      | (qs', .faults) => some (qs', .fault, none)
  | t, qs, .dequeue pc, .go =>
      match qs.dequeueStep pc with
      | (qs', .goesOn pc') => some (qs', .dequeue pc', none)
      | (qs', .returnsNull) => some (qs', .idle, some (.foundEmpty t))
      | (qs', .takes userData pc') => some (qs', .dequeue pc', some (.taken t userData))
      | (qs', .givesBack userData fe) => some (qs', .giveBack userData fe .increment, none)
      | (qs', .faults) => some (qs', .fault, none)
  | t, qs, .giveBack userData fe pc, .go =>
      match qs.fs.pushStep fe pc with
      | (fs, some pc') => some ({ qs with fs := fs }, .giveBack userData fe pc', none)
      | (fs, none) => some ({ qs with fs := fs }, .idle, some (.returned t userData))
  | _, _, _, _ => none

/-! ## A new queue -/

/-- What `queue_internal_init_element` does with no other thread about. -/
def initElement (qs : QueueState ν α) (userData : α) (fe : ν) : QueueState ν α where
  enqueue := qs.enqueue
  dequeue := qs.dequeue
  abaCounter := abstractionIncrement (abstractionIncrement qs.abaCounter)
  fs := qs.fs
  element := Function.update qs.element fe
    { next := ⟨none, abstractionIncrement (abstractionIncrement qs.abaCounter)⟩
      fe := fe
      userData := userData }

/-- The accesses of a call of `queue_internal_init_element`, as many as it is given. -/
def initRun (qs : QueueState ν α) (userData : α) (fe : ν) :
    ℕ → InitPc → QueueState ν α × Option InitPc
  | 0, pc => (qs, some pc)
  | n + 1, pc =>
      match qs.initStep userData fe pc with
      | (qs', none) => (qs', none)
      | (qs', some pc') => qs'.initRun userData fe n pc'

/-- Its six accesses do that. -/
theorem initRun_eq (qs : QueueState ν α) (userData : α) (fe : ν) :
    qs.initRun userData fe 6 .drawCounter = (qs.initElement userData fe, none) := by
  simp [initRun, initStep, initElement, setNext, setElement]

/-- `queue_internal_new_element_from_freelist` with no other thread about. -/
def newElement (qs : QueueState ν α) (userData : α) : QueueState ν α × Option ν :=
  match qs.fs.pop with
  | (fs, none) => ({ qs with fs := fs }, none)
  | (fs, some fe) => (({ qs with fs := fs }).initElement userData fe, some fe)

end QueueState

/-- `queue_new`: a free list of all elements, one of which becomes the dummy.  What the
allocated memory holds before is arbitrary, and the counters of the two ends keep it. -/
def queueNew {ν : Type u} {α : Type v} [DecidableEq ν] (malloced : QueueState ν α) (null : α)
    (elements : List ν) : QueueState ν α :=
  let (qs, qe) :=
    ({ malloced with fs := freelistNew malloced.fs.next elements }).newElement null
  { qs with
    enqueue := { qs.enqueue with pointer := qe }
    dequeue := { qs.dequeue with pointer := qe }
    abaCounter := 0 }

/-- The queue in use by any number of threads, as `queue_new` leaves it. -/
def lockFreeQueue (ι : Type w) {ν : Type u} {α : Type v} [DecidableEq ι] [DecidableEq ν]
    (malloced : QueueState ν α) (null : α) (elements : List ν) :
    TraceSystem (Threads ι (QueueState ν α) (QueuePc ν α)) (ι × QueueAct α) (FifoObs ι α) :=
  Advance.system QueueState.advance
    { mem := queueNew malloced null elements, pc := fun _ => .idle }

end Jacks
