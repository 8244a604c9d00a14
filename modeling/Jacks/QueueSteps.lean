import Jacks.LockFreeQueue

/-!
# What an access of the lock-free queue does

`QueueState.advance` by its outcomes.  Most accesses read and go on: those of
`queue_internal_queue` are `LinkReads`, those of `queue_dequeue` are `HeadReads`, and where
an attempt comes to nothing they go back to the first one.  The others are the swaps, the
accesses of the free list, the writes to a new element, and the beginnings and ends of
calls (`QueueState.Step`).

There are no others (`QueueState.step_of_advance`), so what is said of all accesses is
proved by going through these.
-/

namespace Jacks

open Foundations

universe u v w

section Reads

variable {ν : Type u} {α : Type v}

/-- An access of `queue_internal_queue` that only reads, and what it leads to. -/
inductive LinkReads (qs : QueueState ν α) : LinkPc ν → LinkPc ν → Prop
  | readPointer : LinkReads qs .readPointer (.readCounter qs.enqueue.pointer)
  | readCounter {pointer} :
      LinkReads qs (.readCounter pointer) (.readNextPointer ⟨pointer, qs.enqueue.counter⟩)
  | readNextPointer {enqueue x} (points : enqueue.pointer = some x) :
      LinkReads qs (.readNextPointer enqueue)
        (.readNextCounter enqueue (qs.element x).next.pointer)
  | readNextCounter {enqueue pointer x} (points : enqueue.pointer = some x) :
      LinkReads qs (.readNextCounter enqueue pointer)
        (.checkPointer enqueue ⟨pointer, (qs.element x).next.counter⟩)
  | checkPointer {enqueue next} (same : qs.enqueue.pointer = enqueue.pointer) :
      LinkReads qs (.checkPointer enqueue next) (.checkCounter enqueue next)
  | pointerMoved {enqueue next} (moved : qs.enqueue.pointer ≠ enqueue.pointer) :
      LinkReads qs (.checkPointer enqueue next) .readPointer
  | last {enqueue next} (same : qs.enqueue.counter = enqueue.counter)
      (isNull : next.pointer = none) :
      LinkReads qs (.checkCounter enqueue next) (.link enqueue next)
  | notLast {enqueue next} (same : qs.enqueue.counter = enqueue.counter)
      (more : next.pointer ≠ none) :
      LinkReads qs (.checkCounter enqueue next) (.help enqueue next)
  | counterMoved {enqueue next} (moved : qs.enqueue.counter ≠ enqueue.counter) :
      LinkReads qs (.checkCounter enqueue next) .readPointer
  /-- The swap on `next` is not made. -/
  | linkFails {enqueue next x} (points : enqueue.pointer = some x)
      (stale : (qs.element x).next ≠ next) : LinkReads qs (.link enqueue next) .readPointer

/-- An access of `queue_dequeue` that only reads, and what it leads to. -/
inductive HeadReads (qs : QueueState ν α) : DequeuePc ν α → DequeuePc ν α → Prop
  | readPointer : HeadReads qs .readPointer (.readCounter qs.dequeue.pointer)
  | readCounter {pointer} :
      HeadReads qs (.readCounter pointer) (.readEnqueuePointer ⟨pointer, qs.dequeue.counter⟩)
  | readEnqueuePointer {dequeue} :
      HeadReads qs (.readEnqueuePointer dequeue) (.readEnqueueCounter dequeue qs.enqueue.pointer)
  | readEnqueueCounter {dequeue pointer} :
      HeadReads qs (.readEnqueueCounter dequeue pointer)
        (.readNextPointer dequeue ⟨pointer, qs.enqueue.counter⟩)
  | readNextPointer {dequeue enqueue d} (points : dequeue.pointer = some d) :
      HeadReads qs (.readNextPointer dequeue enqueue)
        (.readNextCounter dequeue enqueue (qs.element d).next.pointer)
  | readNextCounter {dequeue enqueue pointer d} (points : dequeue.pointer = some d) :
      HeadReads qs (.readNextCounter dequeue enqueue pointer)
        (.checkPointer dequeue enqueue ⟨pointer, (qs.element d).next.counter⟩)
  | checkPointer {dequeue enqueue next} (same : dequeue.pointer = qs.dequeue.pointer) :
      HeadReads qs (.checkPointer dequeue enqueue next) (.checkCounter dequeue enqueue next)
  | pointerMoved {dequeue enqueue next} (moved : dequeue.pointer ≠ qs.dequeue.pointer) :
      HeadReads qs (.checkPointer dequeue enqueue next) .readPointer
  | outOfPlace {dequeue enqueue next} (same : dequeue.counter = qs.dequeue.counter)
      (meets : enqueue.pointer = dequeue.pointer) (more : next.pointer ≠ none) :
      HeadReads qs (.checkCounter dequeue enqueue next) (.help enqueue next)
  | attempt {dequeue enqueue next} (same : dequeue.counter = qs.dequeue.counter)
      (ahead : enqueue.pointer ≠ dequeue.pointer) :
      HeadReads qs (.checkCounter dequeue enqueue next) (.readUserData dequeue next)
  | counterMoved {dequeue enqueue next} (moved : dequeue.counter ≠ qs.dequeue.counter) :
      HeadReads qs (.checkCounter dequeue enqueue next) .readPointer
  | readUserData {dequeue next n} (found : next.pointer = some n) :
      HeadReads qs (.readUserData dequeue next) (.advance dequeue next (qs.element n).userData)
  /-- The swap on `dequeue` is not made. -/
  | advanceFails {dequeue next userData} (stale : qs.dequeue ≠ dequeue) :
      HeadReads qs (.advance dequeue next userData) .readPointer

/-- The next access follows a null pointer. -/
def QueuePc.FollowsNull : QueuePc ν α → Prop
  | .internalQueue _ _ (.readNextPointer enqueue)
  | .internalQueue _ _ (.readNextCounter enqueue _)
  | .internalQueue _ _ (.link enqueue _) => enqueue.pointer = none
  | .dequeue (.readNextPointer head _)
  | .dequeue (.readNextCounter head _ _)
  | .dequeue (.readFe head _) => head.pointer = none
  | .dequeue (.readUserData _ next) => next.pointer = none
  | _ => False

end Reads

namespace QueueState

variable {ι : Type w} {ν : Type u} {α : Type v} [DecidableEq ν]

/-- `enqueue` is to be moved on to an element; the swap may fail. -/
def swing (qs : QueueState ν α) (enqueue : Pac ν) (pointer : Option ν) : QueueState ν α :=
  { qs with
    enqueue :=
      (abstractionDcas qs.enqueue ⟨pointer, counterPlusOne enqueue.counter⟩ enqueue).1 }

theorem swing_of_eq {qs : QueueState ν α} {enqueue : Pac ν} (current : qs.enqueue = enqueue)
    (pointer : Option ν) :
    qs.swing enqueue pointer =
      { qs with enqueue := ⟨pointer, counterPlusOne enqueue.counter⟩ } := by
  rw [swing, current, abstractionDcas_self]

theorem swing_of_ne {qs : QueueState ν α} {enqueue : Pac ν} (moved : qs.enqueue ≠ enqueue)
    (pointer : Option ν) : qs.swing enqueue pointer = qs := by
  rw [swing, abstractionDcas_of_ne moved]

/-- What a step of a thread can do, and what is observed of it. -/
inductive Step (t : ι) (qs : QueueState ν α) :
    QueuePc ν α → QueueAct α → QueueState ν α → QueuePc ν α → Option (FifoObs ι α) → Prop
  | callEnqueue {userData} :
      Step t qs .idle (.enqueue userData) qs (.newElement userData .readCounter)
        (some (.enqueues t userData))
  | callDequeue : Step t qs .idle .dequeue qs (.dequeue .readPointer) (some (.dequeues t))
  | popGoesOn {userData pc fs pc'} (moves : qs.fs.popStep pc = (fs, .goesOn pc')) :
      Step t qs (.newElement userData pc) .go { qs with fs := fs } (.newElement userData pc') none
  | popRefused {userData pc fs} (moves : qs.fs.popStep pc = (fs, .returns none)) :
      Step t qs (.newElement userData pc) .go { qs with fs := fs } .idle
        (some (.refused t userData))
  | popped {userData pc fs fe} (moves : qs.fs.popStep pc = (fs, .returns (some fe))) :
      Step t qs (.newElement userData pc) .go { qs with fs := fs }
        (.initElement userData fe .drawCounter) none
  | initGoesOn {userData fe pc qs' pc'} (moves : qs.initStep userData fe pc = (qs', some pc')) :
      Step t qs (.initElement userData fe pc) .go qs' (.initElement userData fe pc') none
  | initialised {userData fe pc qs'} (moves : qs.initStep userData fe pc = (qs', none)) :
      Step t qs (.initElement userData fe pc) .go qs' (.internalQueue userData fe .readPointer)
        none
  | linkReads {userData qe pc pc'} (reads : LinkReads qs pc pc') :
      Step t qs (.internalQueue userData qe pc) .go qs (.internalQueue userData qe pc') none
  | links {userData qe enqueue next x} (points : enqueue.pointer = some x)
      (same : (qs.element x).next = next) :
      Step t qs (.internalQueue userData qe (.link enqueue next)) .go
        (qs.setNext x ⟨some qe, counterPlusOne next.counter⟩)
        (.internalQueue userData qe (.swing enqueue)) (some (.appended t userData))
  | linkHelps {userData qe enqueue next} :
      Step t qs (.internalQueue userData qe (.help enqueue next)) .go
        (qs.swing enqueue next.pointer) (.internalQueue userData qe .readPointer) none
  | accepts {userData qe enqueue} :
      Step t qs (.internalQueue userData qe (.swing enqueue)) .go (qs.swing enqueue (some qe))
        .idle (some (.accepted t userData))
  | headReads {pc pc'} (reads : HeadReads qs pc pc') :
      Step t qs (.dequeue pc) .go qs (.dequeue pc') none
  | returnsEmpty {dequeue enqueue next} (same : dequeue.counter = qs.dequeue.counter)
      (meets : enqueue.pointer = dequeue.pointer) (isNull : next.pointer = none) :
      Step t qs (.dequeue (.checkCounter dequeue enqueue next)) .go qs .idle
        (some (.foundEmpty t))
  | headHelps {enqueue next} :
      Step t qs (.dequeue (.help enqueue next)) .go (qs.swing enqueue next.pointer)
        (.dequeue .readPointer) none
  | takes {dequeue next userData} (current : qs.dequeue = dequeue) :
      Step t qs (.dequeue (.advance dequeue next userData)) .go
        { qs with dequeue := ⟨next.pointer, counterPlusOne dequeue.counter⟩ }
        (.dequeue (.readFe dequeue userData)) (some (.taken t userData))
  | readFe {dequeue userData d} (points : dequeue.pointer = some d) :
      Step t qs (.dequeue (.readFe dequeue userData)) .go qs
        (.giveBack userData (qs.element d).fe .increment) none
  | pushGoesOn {userData fe pc fs pc'} (moves : qs.fs.pushStep fe pc = (fs, some pc')) :
      Step t qs (.giveBack userData fe pc) .go { qs with fs := fs } (.giveBack userData fe pc')
        none
  | pushed {userData fe pc fs} (moves : qs.fs.pushStep fe pc = (fs, none)) :
      Step t qs (.giveBack userData fe pc) .go { qs with fs := fs } .idle
        (some (.returned t userData))
  | faults {pc} (null : pc.FollowsNull) : Step t qs pc .go qs .fault none

variable {t : ι} {qs qs' : QueueState ν α} {p : QueuePc ν α} {o : Option (FifoObs ι α)}

/-- In `queue_internal_queue`. -/
theorem step_of_linkStep {userData : α} {qe : ν} {pc : LinkPc ν}
    (taken : advance t qs (.internalQueue userData qe pc) .go = some (qs', p, o)) :
    Step t qs (.internalQueue userData qe pc) .go qs' p o := by
  cases pc with
  | readPointer => cases taken; exact .linkReads .readPointer
  | readCounter => cases taken; exact .linkReads .readCounter
  | readNextPointer enqueue =>
      cases points : enqueue.pointer with
      | none => simp only [advance, linkStep, points] at taken; cases taken; exact .faults points
      | some x =>
          simp only [advance, linkStep, points] at taken
          cases taken
          exact .linkReads (.readNextPointer points)
  | readNextCounter enqueue pointer =>
      cases points : enqueue.pointer with
      | none => simp only [advance, linkStep, points] at taken; cases taken; exact .faults points
      | some x =>
          simp only [advance, linkStep, points] at taken
          cases taken
          exact .linkReads (.readNextCounter points)
  | checkPointer enqueue next =>
      simp only [advance, linkStep] at taken
      split_ifs at taken with same
      · cases taken; exact .linkReads (.checkPointer same)
      · cases taken; exact .linkReads (.pointerMoved same)
  | checkCounter enqueue next =>
      simp only [advance, linkStep] at taken
      split_ifs at taken with same
      · cases found : next.pointer with
        | none =>
            simp only [found] at taken
            cases taken
            exact .linkReads (.last same found)
        | some y =>
            simp only [found] at taken
            cases taken
            exact .linkReads (.notLast same (by simp [found]))
      · cases taken; exact .linkReads (.counterMoved same)
  | link enqueue next =>
      cases points : enqueue.pointer with
      | none => simp only [advance, linkStep, points] at taken; cases taken; exact .faults points
      | some x =>
          simp only [advance, linkStep, points] at taken
          by_cases same : (qs.element x).next = next
          · rw [same, abstractionDcas_self] at taken
            cases taken
            exact .links points same
          · rw [abstractionDcas_of_ne same] at taken
            cases taken
            exact .linkReads (.linkFails points same)
  | help => cases taken; exact .linkHelps
  | swing => cases taken; exact .accepts

/-- In `queue_dequeue`, up to its `freelist_push`. -/
theorem step_of_dequeueStep {pc : DequeuePc ν α}
    (taken : advance t qs (.dequeue pc) .go = some (qs', p, o)) :
    Step t qs (.dequeue pc) .go qs' p o := by
  cases pc with
  | readPointer => cases taken; exact .headReads .readPointer
  | readCounter => cases taken; exact .headReads .readCounter
  | readEnqueuePointer => cases taken; exact .headReads .readEnqueuePointer
  | readEnqueueCounter => cases taken; exact .headReads .readEnqueueCounter
  | readNextPointer dequeue enqueue =>
      cases points : dequeue.pointer with
      | none => simp only [advance, dequeueStep, points] at taken; cases taken; exact .faults points
      | some d =>
          simp only [advance, dequeueStep, points] at taken
          cases taken
          exact .headReads (.readNextPointer points)
  | readNextCounter dequeue enqueue pointer =>
      cases points : dequeue.pointer with
      | none => simp only [advance, dequeueStep, points] at taken; cases taken; exact .faults points
      | some d =>
          simp only [advance, dequeueStep, points] at taken
          cases taken
          exact .headReads (.readNextCounter points)
  | checkPointer dequeue enqueue next =>
      simp only [advance, dequeueStep] at taken
      split_ifs at taken with same
      · cases taken; exact .headReads (.checkPointer same)
      · cases taken; exact .headReads (.pointerMoved same)
  | checkCounter dequeue enqueue next =>
      simp only [advance, dequeueStep] at taken
      split_ifs at taken with same meets
      · cases found : next.pointer with
        | none =>
            simp only [found] at taken
            cases taken
            exact .returnsEmpty same meets found
        | some y =>
            simp only [found] at taken
            cases taken
            exact .headReads (.outOfPlace same meets (by simp [found]))
      · cases taken; exact .headReads (.attempt same meets)
      · cases taken; exact .headReads (.counterMoved same)
  | help => cases taken; exact .headHelps
  | readUserData dequeue next =>
      cases found : next.pointer with
      | none => simp only [advance, dequeueStep, found] at taken; cases taken; exact .faults found
      | some n =>
          simp only [advance, dequeueStep, found] at taken
          cases taken
          exact .headReads (.readUserData found)
  | advance dequeue next userData =>
      simp only [advance, dequeueStep] at taken
      by_cases current : qs.dequeue = dequeue
      · rw [current, abstractionDcas_self] at taken
        cases taken
        exact .takes current
      · rw [abstractionDcas_of_ne current] at taken
        cases taken
        exact .headReads (.advanceFails current)
  | readFe dequeue userData =>
      cases points : dequeue.pointer with
      | none => simp only [advance, dequeueStep, points] at taken; cases taken; exact .faults points
      | some d =>
          simp only [advance, dequeueStep, points] at taken
          cases taken
          exact .readFe points

/-- `advance` does nothing else. -/
theorem step_of_advance {pc : QueuePc ν α} {a : QueueAct α}
    (taken : advance t qs pc a = some (qs', p, o)) : Step t qs pc a qs' p o := by
  cases pc with
  | idle =>
      cases a with
      | enqueue => cases taken; exact .callEnqueue
      | dequeue => cases taken; exact .callDequeue
      | go => cases taken
  | newElement userData pc =>
      cases a with
      | go =>
          simp only [advance] at taken
          split at taken
          · next moves => cases taken; exact .popGoesOn moves
          · next moves => cases taken; exact .popRefused moves
          · next moves => cases taken; exact .popped moves
      | _ => cases taken
  | initElement userData fe pc =>
      cases a with
      | go =>
          simp only [advance] at taken
          split at taken
          · next moves => cases taken; exact .initGoesOn moves
          · next moves => cases taken; exact .initialised moves
      | _ => cases taken
  | internalQueue userData qe pc =>
      cases a with
      | go => exact step_of_linkStep taken
      | _ => cases taken
  | dequeue pc =>
      cases a with
      | go => exact step_of_dequeueStep taken
      | _ => cases taken
  | giveBack userData fe pc =>
      cases a with
      | go =>
          simp only [advance] at taken
          split at taken
          · next moves => cases taken; exact .pushGoesOn moves
          · next moves => cases taken; exact .pushed moves
      | _ => cases taken
  | fault => cases taken

end QueueState

end Jacks
