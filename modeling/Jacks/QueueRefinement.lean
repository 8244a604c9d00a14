import Jacks.QueueWrites
import Jacks.QueueSteps

/-!
# The lock-free queue is a bounded queue with places

Every access of a thread keeps what holds of the memory, arrives where the thread may
be, and does to the others what they let it do; so there is a proof outline of the queue
against the bounded queue with places (`queueOutline`), and the histories of the first
are histories of the second (`lockFreeQueue_refines`).

Two conditions on the runs are needed.  The counters must not come round
(`QueueState.Headroom`).  And a swap on `next` must not succeed on an element that
another call has in its hands (`StaleLink`): the counter next to `next` is not enough
to keep that from happening.
-/

namespace Jacks

open Foundations

universe u v w

variable {ι : Type w} {ν : Type u} {α : Type v}

/-- No counter comes round in the next step. -/
structure QueueState.Headroom (qs : QueueState ν α) : Prop where
  list : qs.fs.abaCounter + 1 < atomValues
  enqueue : qs.enqueue.counter + queueElementSize < atomValues
  dequeue : qs.dequeue.counter + queueElementSize < atomValues

/-- The element that a call of `queue_enqueue` has in its hands. -/
def QueuePc.enqueuing : QueuePc ν α → Option ν
  | .initElement _ fe _ => some fe
  | .internalQueue _ _ (.swing _) => none
  | .internalQueue _ qe _ => some qe
  | _ => none

/-- The thread's next step links its element to one that another call of
`queue_enqueue` has in its hands. -/
def StaleLink (s : Threads ι (QueueState ν α) (QueuePc ν α)) (t : ι) : Prop :=
  ∃ userData qe enqueue next x, s.pc t = .internalQueue userData qe (.link enqueue next) ∧
    enqueue.pointer = some x ∧ (s.mem.element x).next = next ∧
      ∃ t', t' ≠ t ∧ (s.pc t').enqueuing = some x

/-- The runs that are considered. -/
def Careful (s : Threads ι (QueueState ν α) (QueuePc ν α)) (_ : List (FifoObs ι α))
    (a : ι × QueueAct α) : Prop :=
  s.mem.Headroom ∧ ¬ StaleLink s a.1

/-- The element whose `next` the thread is about to swap, and what it takes `next` to be. -/
def QueuePc.linking : QueuePc ν α → Option (ν × Pac ν)
  | .internalQueue _ _ (.link ⟨some x, _⟩ next) => some (x, next)
  | _ => none

theorem staleLink_iff_linking {s : Threads ι (QueueState ν α) (QueuePc ν α)} {t : ι} :
    StaleLink s t ↔ ∃ r ∈ (s.pc t).linking, (s.mem.element r.1).next = r.2 ∧
      ∃ t', t' ≠ t ∧ (s.pc t').enqueuing = some r.1 := by
  constructor
  · rintro ⟨userData, qe, ⟨pointer, counter⟩, next, x, at_pc, points, same, other⟩
    obtain rfl : pointer = some x := points
    exact ⟨(x, next), by rw [at_pc]; rfl, same, other⟩
  · rintro ⟨⟨x, next⟩, links, same, other⟩
    generalize at_pc : s.pc t = pc at links
    unfold QueuePc.linking at links
    split at links
    · cases links
      exact ⟨_, _, _, _, x, at_pc, rfl, same, other⟩
    · cases links

instance decidableHeadroom (qs : QueueState ν α) : Decidable qs.Headroom :=
  decidable_of_iff (qs.fs.abaCounter + 1 < atomValues ∧
      qs.enqueue.counter + queueElementSize < atomValues ∧
      qs.dequeue.counter + queueElementSize < atomValues)
    ⟨fun ⟨list, enqueue, dequeue⟩ => ⟨list, enqueue, dequeue⟩,
      fun ⟨list, enqueue, dequeue⟩ => ⟨list, enqueue, dequeue⟩⟩

instance decidableStaleLink [Fintype ι] [DecidableEq ι] [DecidableEq ν]
    (s : Threads ι (QueueState ν α) (QueuePc ν α)) (t : ι) : Decidable (StaleLink s t) :=
  decidable_of_iff _ staleLink_iff_linking.symm

instance decidableCareful [Fintype ι] [DecidableEq ι] [DecidableEq ν]
    (s : Threads ι (QueueState ν α) (QueuePc ν α)) (history : List (FifoObs ι α))
    (a : ι × QueueAct α) : Decidable (Careful s history a) :=
  inferInstanceAs (Decidable (_ ∧ _))

theorem QueuePc.held_of_enqueuing {pc : QueuePc ν α} {n : ν} (holds : pc.enqueuing = some n) :
    pc.held = some n := by
  cases pc with
  | initElement => exact holds
  | internalQueue userData qe pc =>
      cases pc with
      | swing => cases holds
      | _ => exact holds
  | _ => cases holds

/-- An element that a thread has to itself and that has no `next` is in the hands of a call
of `queue_enqueue`. -/
theorem QueueHere.enqueuing {t : ι} {qs : QueueState ν α} {g : QueueGhost ι ν α}
    {pc : QueuePc ν α} {x : ν} (here : QueueHere t qs g pc) (own : g.list.owner x = some t)
    (ends : qs.nextPointer x = none) : pc.enqueuing = some x := by
  have held := (here.owner x).mp own
  have read := here.read
  cases pc with
  | idle | newElement | fault => cases held
  | initElement => exact held
  | internalQueue userData qe pc =>
      cases pc with
      | swing => cases held
      | _ => exact held
  | dequeue pc =>
      cases pc with
      | readFe dequeue userData =>
          obtain ⟨d, points, -, linked⟩ := read
          have same : some d = some x := points.symm.trans held
          exact absurd (Option.some.inj same ▸ ends) linked
      | _ => cases held
  | giveBack userData fe pc =>
      have same : some fe = some x := held
      exact absurd (Option.some.inj same ▸ ends) read.2

/-- **The swap on `next` is a stale one exactly if it finds an element that is not in the
queue.** -/
theorem staleLink_iff {s : Threads ι (QueueState ν α) (QueuePc ν α)} {g : QueueGhost ι ν α}
    {t : ι} {userData : α} {qe x : ν} {enqueue next : Pac ν} (sound : s.mem.Sound g)
    (here : ∀ t, QueueHere t s.mem g (s.pc t))
    (at_pc : s.pc t = .internalQueue userData qe (.link enqueue next))
    (points : enqueue.pointer = some x) (same : (s.mem.element x).next = next) :
    StaleLink s t ↔ x ∉ g.queue := by
  constructor
  · rintro ⟨_, _, enqueue', _, x', at_pc', points', -, t', -, holds⟩ inside
    rw [at_pc] at at_pc'
    cases at_pc'
    obtain rfl : x = x' := Option.some.inj (points.symm.trans points')
    have own := ((here t').owner x).mpr (QueuePc.held_of_enqueuing holds)
    rw [sound.unowned x inside] at own
    cases own
  · intro outside
    have own := here t
    rw [at_pc] at own
    obtain ⟨-, ⟨⟨y, points', seen, other⟩, -⟩, isNull⟩ := own.read
    obtain rfl : x = y := Option.some.inj (points.symm.trans points')
    have ends : s.mem.nextPointer x = none := by rw [QueueState.nextPointer, same, isNull]
    rcases sound.complete x seen with ⟨r, isFree, rfl⟩ | inside | ⟨t', holds⟩
    · exact absurd ends (sound.seenFree r isFree seen)
    · exact absurd inside outside
    · refine ⟨userData, qe, enqueue, next, x, at_pc, points, same, t', ?_,
        (here t').enqueuing holds ends⟩
      rintro rfl
      exact other (Option.some.inj ((own.owner x).mp holds)).symm

variable [DecidableEq ι]

/-- After a step, the memory is sound, the thread is where it may be, the others are let
be, and the specification has made the step. -/
def Kept (capacity : ℕ) (t : ι) (qs : QueueState ν α) (g : QueueGhost ι ν α)
    (qs' : QueueState ν α) (p : QueuePc ν α) (o : Option (FifoObs ι α)) : Prop :=
  ∃ g', qs'.Sound g' ∧ QueueHere t qs' g' p ∧ (∀ t', t' ≠ t → QueueRely t' qs g qs' g') ∧
    (PlacedFifo.system ι α capacity).Answers t g.spec g'.spec o

section Kept

variable {capacity : ℕ} {t : ι} {qs qs' : QueueState ν α} {g : QueueGhost ι ν α}
variable {p : QueuePc ν α} {o : Option (FifoObs ι α)}

/-- A step that only reads. -/
theorem Kept.read (sound : qs.Sound g) (here : QueueHere t qs g p) :
    Kept capacity t qs g qs p none :=
  ⟨g, sound, here, fun t' _ => .refl t' qs g, .idle⟩

/-- A step that the specification makes as a step of the thread alone. -/
theorem Kept.phase {phase : FifoPhase α} (act : FifoAct α) (sound : qs.Sound g)
    (here : QueueHere t qs (g.setPhase t phase) p)
    (moves : g.spec.next t act = some (g.spec.setPhase t phase, o)) :
    Kept capacity t qs g qs p o :=
  ⟨g.setPhase t phase, sound.setPhase t phase, here, fun _ other => .setPhase other qs g phase,
    .step (b := act) moves⟩

/-! ## Calls -/

theorem kept_callEnqueue (sound : qs.Sound g) (here : QueueHere t qs g .idle) (userData : α) :
    Kept capacity t qs g qs (.newElement userData .readCounter)
      (some (.enqueues t userData)) := by
  have phase : g.spec.phase t = .idle := here.phase
  exact .phase (.callEnqueue userData) sound ⟨here.owner, g.setPhase_self _, trivial⟩
    (by simp [PlacedFifo.next, phase])

theorem kept_callDequeue (sound : qs.Sound g) (here : QueueHere t qs g .idle) :
    Kept capacity t qs g qs (.dequeue .readPointer) (some (.dequeues t)) := by
  have phase : g.spec.phase t = .idle := here.phase
  exact .phase .callDequeue sound ⟨here.owner, ⟨false, g.setPhase_self _⟩, trivial⟩
    (by simp [PlacedFifo.next, phase])

variable [DecidableEq ν]

/-! ## A new element -/

section NewElement

variable {userData : α} {pc pc' : PopPc ν} {fs : FreelistState ν}

theorem kept_popGoesOn (sound : qs.Sound g) (here : QueueHere t qs g (.newElement userData pc))
    (moves : qs.fs.popStep pc = (fs, .goesOn pc')) :
    Kept capacity t qs g { qs with fs := fs } (.newElement userData pc') none := by
  obtain ⟨owner, phase, read⟩ := here
  obtain ⟨rfl, _, same, read'⟩ | ⟨-, same, -⟩ | ⟨_, _, _, same, -⟩ := sound.list.pop read moves
  · cases same
    exact .read sound ⟨owner, phase, read'⟩
  · cases same
  · cases same

omit [DecidableEq ι] in
/-- A call is refused where the free list is empty. -/
theorem free_of_popRefused (sound : qs.Sound g)
    (here : QueueHere t qs g (.newElement userData pc))
    (moves : qs.fs.popStep pc = (fs, .returns none)) : fs = qs.fs ∧ g.list.free = [] := by
  obtain ⟨-, _, same, -⟩ | ⟨unchanged, -, empty⟩ | ⟨_, _, _, same, -⟩ :=
    sound.list.pop here.read moves
  · cases same
  · exact ⟨unchanged, empty⟩
  · cases same

theorem kept_popRefused (sound : qs.Sound g) (here : QueueHere t qs g (.newElement userData pc))
    (moves : qs.fs.popStep pc = (fs, .returns none)) :
    Kept capacity t qs g { qs with fs := fs } .idle (some (.refused t userData)) := by
  have phase : g.spec.phase t = .enqueuing userData := here.phase
  obtain ⟨rfl, empty⟩ := free_of_popRefused sound here moves
  -- the free list was empty, so no place was vacant
  have full : g.spec.vacant = 0 := by rw [sound.vacant, empty, List.length_nil]
  exact .phase .refuse sound ⟨here.owner, g.setPhase_self _, trivial⟩
    (by simp [PlacedFifo.next, phase, full])

theorem kept_popped {fe : ν} (sound : qs.Sound g)
    (here : QueueHere t qs g (.newElement userData pc))
    (moves : qs.fs.popStep pc = (fs, .returns (some fe))) :
    Kept capacity t qs g { qs with fs := fs } (.initElement userData fe .drawCounter) none := by
  obtain ⟨owner, phase, read⟩ := here
  have phase : g.spec.phase t = .enqueuing userData := phase
  have nothing : ∀ n, g.list.owner n ≠ some t := fun n own => by cases (owner n).mp own
  obtain ⟨-, _, same, -⟩ | ⟨-, same, -⟩ | ⟨_, counter, rest, same, first, rfl⟩ :=
    sound.list.pop read moves
  · cases same
  · cases same
  · cases same
    have room : g.spec.vacant = rest.length + 1 := by
      rw [sound.vacant, first, List.length_cons]
    have wasFree : (fe, counter) ∈ g.list.free := by rw [first]; exact List.mem_cons_self
    have takeOwner : ∀ n, (g.list.take fe (some t) rest).owner n =
      Function.update g.list.owner fe (some t) n := fun _ => rfl
    refine ⟨{ g with
        list := g.list.take fe (some t) rest
        spec := { g.spec.setPhase t (.placed userData) with vacant := rest.length } },
      sound.setList (sound.list.take first (some t)) ?_ ?_ ?_ rfl rfl,
      ⟨owns_update_some nothing fe, ?_, trivial⟩,
      fun t' other => .setList (sound.list.take_rely first
        (fun same => other (Option.some.inj same).symm) _) ?_,
      .step (b := .place) ?_⟩
    · intro n inside
      have apart : n ≠ fe := fun same => sound.apart n inside _ wasFree same.symm
      rw [takeOwner, Function.update_of_ne apart]
      exact sound.unowned n inside
    · intro r mem
      rw [first]
      exact .inl (List.mem_cons_of_mem _ mem)
    · rintro n (⟨r, mem, rfl⟩ | ⟨t', own⟩)
      · rw [first] at mem
        rcases List.mem_cons.mp mem with rfl | mem
        · exact .inr ⟨t, by rw [takeOwner, Function.update_self]⟩
        · exact .inl ⟨r, mem, rfl⟩
      · refine .inr ⟨t', ?_⟩
        have apart : n ≠ fe := by
          rintro rfl
          exact sound.list.notFree own _ wasFree rfl
        rw [takeOwner, Function.update_of_ne apart, own]
    · show Function.update g.spec.phase t _ t = _
      rw [Function.update_self]
    · exact Function.update_of_ne other _ g.spec.phase
    · show g.spec.next t .place = _
      simp [PlacedFifo.next, phase, room]

end NewElement

/-! ## Initialising it -/

section InitElement

variable {userData : α} {fe : ν} {pc pc' : InitPc}

/-- Writing the own element. -/
theorem kept_writes {e : QueueElement ν α} (sound : qs.Sound g)
    (here : QueueHere t qs g (.initElement userData fe pc))
    (owner : ∀ n, g.list.owner n = some t ↔ p.held = some n)
    (phase : PhaseHere (g.spec.phase t) p) (read : ReadHere t (qs.setElement fe e) g p) :
    Kept capacity t qs g (qs.setElement fe e) p none := by
  have own : g.list.owner fe = some t := (here.owner fe).mpr rfl
  exact ⟨g, sound.setElement own e, ⟨owner, phase, read⟩,
    fun _ other => sound.setElement_rely own other e, .idle⟩

omit [DecidableEq ν] in
/-- Drawing a counter. -/
theorem kept_draws {counter : ℕ} (sound : qs.Sound g)
    (owner : ∀ n, g.list.owner n = some t ↔ p.held = some n)
    (phase : PhaseHere (g.spec.phase t) p)
    (read : ReadHere t { qs with abaCounter := counter } g p) :
    Kept capacity t qs g { qs with abaCounter := counter } p none :=
  ⟨g, { sound with }, ⟨owner, phase, read⟩, fun t' _ => { QueueRely.refl t' qs g with }, .idle⟩

theorem kept_initGoesOn (sound : qs.Sound g)
    (here : QueueHere t qs g (.initElement userData fe pc))
    (moves : qs.initStep userData fe pc = (qs', some pc')) :
    Kept capacity t qs g qs' (.initElement userData fe pc') none := by
  have read := here.read
  cases pc with
  | drawCounter =>
      cases moves
      exact kept_draws sound here.owner here.phase trivial
  | clearNextPointer =>
      cases moves
      exact kept_writes sound here here.owner here.phase (qs.nextPointer_setNext fe _)
  | drawNextCounter =>
      cases moves
      exact kept_draws sound here.owner here.phase read
  | writeNextCounter counter =>
      cases moves
      exact kept_writes sound here here.owner here.phase
        ((qs.nextPointer_setNext fe _).trans read)
  | writeFe =>
      cases moves
      refine kept_writes sound here here.owner here.phase ⟨?_, ?_⟩
      · rw [QueueState.nextPointer, QueueState.setElement_self]
        exact read
      · rw [QueueState.setElement_self]
  | writeUserData => cases moves

theorem kept_initialised (sound : qs.Sound g)
    (here : QueueHere t qs g (.initElement userData fe pc))
    (moves : qs.initStep userData fe pc = (qs', none)) :
    Kept capacity t qs g qs' (.internalQueue userData fe .readPointer) none := by
  have read := here.read
  cases pc with
  | writeUserData =>
      cases moves
      obtain ⟨next, sameFe⟩ := read
      refine kept_writes sound here here.owner here.phase ⟨⟨?_, ?_, ?_⟩, trivial⟩
      · rw [QueueState.nextPointer, QueueState.setElement_self]
        exact next
      · rw [QueueState.setElement_self]
        exact sameFe
      · rw [QueueState.setElement_self]
  | _ => cases moves

end InitElement

/-! ## Linking it -/

section InternalQueue

variable {userData : α} {qe : ν} {enqueue next : Pac ν}

omit [DecidableEq ν] in
theorem kept_linkReads {pc pc' : LinkPc ν} (sound : qs.Sound g)
    (here : QueueHere t qs g (.internalQueue userData qe pc)) (reads : LinkReads qs pc pc') :
    Kept capacity t qs g qs (.internalQueue userData qe pc') none := by
  obtain ⟨owner, phase, read⟩ := here
  cases reads with
  | readPointer =>
      have visited := sound.visited ((owner qe).mpr rfl)
      exact .read sound ⟨owner, phase, read.1, visited⟩
  | readCounter =>
      exact .read sound ⟨owner, phase, read.1, read.2, le_rfl, fun y found => by cases found⟩
  | @readNextPointer enqueue x points =>
      obtain ⟨prepared, visited, tailRead⟩ := read
      exact .read sound ⟨owner, phase, prepared, visited, tailRead.counter,
        fun y found _ => ⟨x, points, found⟩⟩
  | readNextCounter => exact .read sound ⟨owner, phase, read⟩
  | checkPointer => exact .read sound ⟨owner, phase, read⟩
  | last _ isNull => exact .read sound ⟨owner, phase, read.1, read.2, isNull⟩
  | notLast _ more => exact .read sound ⟨owner, phase, read.1, read.2.2, more⟩
  | pointerMoved | counterMoved | linkFails => exact .read sound ⟨owner, phase, read.1, trivial⟩

/-- The swap on `next` is made, on the last element of the queue. -/
theorem kept_links {x : ν} (sound : qs.Sound g)
    (here : QueueHere t qs g (.internalQueue userData qe (.link enqueue next)))
    (points : enqueue.pointer = some x) (same : (qs.element x).next = next)
    (inside : x ∈ g.queue) :
    Kept capacity t qs g (qs.setNext x ⟨some qe, counterPlusOne next.counter⟩)
      (.internalQueue userData qe (.swing enqueue)) (some (.appended t userData)) := by
  obtain ⟨owner, phase, prepared, ⟨-, tailRead⟩, isNull⟩ := here
  have own : g.list.owner qe = some t := (owner qe).mpr rfl
  have ends : qs.nextPointer x = none := by rw [QueueState.nextPointer, same, isNull]
  have only : ∀ n, g.list.owner n = some t → n = qe :=
    fun n holds => (Option.some.inj ((owner n).mp holds)).symm
  refine ⟨g.link t userData qe, sound.link own prepared inside ends,
    ⟨owns_update_none only, ?_, ?_⟩,
    fun _ apart => sound.link_rely own inside ends apart, .step (b := .append) ?_⟩
  · show Function.update g.spec.phase t _ t = _
    rw [Function.update_self]
  · refine ⟨tailRead.counter, fun y found _ => ⟨x, points, ?_⟩⟩
    rw [qs.nextPointer_setNext x _]
    exact found
  · have phase : g.spec.phase t = .placed userData := phase
    show g.spec.next t .append = _
    simp [PlacedFifo.next, phase, QueueGhost.link]

omit [DecidableEq ι] in
/-- Moving `enqueue` on to the next element, if it has not been moved. -/
theorem sound_swing {y : ν} (sound : qs.Sound g) (tailRead : TailRead qs enqueue (some y))
    (headroom : qs.Headroom) :
    (qs.swing enqueue (some y)).Sound g ∧
      ∀ t', QueueRely t' qs g (qs.swing enqueue (some y)) g :=
  sound.dcasEnqueue tailRead (tailRead.later headroom.enqueue)

theorem kept_linkHelps (sound : qs.Sound g)
    (here : QueueHere t qs g (.internalQueue userData qe (.help enqueue next)))
    (headroom : qs.Headroom) :
    Kept capacity t qs g (qs.swing enqueue next.pointer) (.internalQueue userData qe .readPointer)
      none := by
  obtain ⟨owner, phase, prepared, tailRead, notNull⟩ := here
  obtain ⟨y, found⟩ := Option.ne_none_iff_exists'.mp notNull
  rw [found] at tailRead ⊢
  obtain ⟨sound', rely⟩ := sound_swing sound tailRead headroom
  exact ⟨g, sound', ⟨owner, phase, ⟨prepared.next, prepared.fe, prepared.userData⟩, trivial⟩,
    fun t' _ => rely t', .idle⟩

theorem kept_accepts (sound : qs.Sound g)
    (here : QueueHere t qs g (.internalQueue userData qe (.swing enqueue)))
    (headroom : qs.Headroom) :
    Kept capacity t qs g (qs.swing enqueue (some qe)) .idle (some (.accepted t userData)) := by
  have phase : g.spec.phase t = .appended userData := here.phase
  obtain ⟨sound', rely⟩ := sound_swing sound here.read headroom
  refine ⟨g.setPhase t .idle, sound'.setPhase t .idle,
    ⟨here.owner, g.setPhase_self _, trivial⟩,
    fun t' other => { rely t' with phase := ?_ }, .step (b := .accept) ?_⟩
  · simp [QueueGhost.setPhase, other]
  · show g.spec.next t .accept = _
    simp [PlacedFifo.next, phase, QueueGhost.setPhase]

end InternalQueue

/-! ## Taking one out -/

section Dequeue

variable {dequeue enqueue next : Pac ν} {userData : α}

omit [DecidableEq ι] [DecidableEq ν] in
/-- Where the dummy has no `next`, the queue is empty, and both ends point to the dummy. -/
theorem items_of_ends {d : ν} (sound : qs.Sound g) (points : qs.dequeue.pointer = some d)
    (ends : qs.nextPointer d = none) :
    g.spec.items = [] ∧ qs.enqueue.pointer = qs.dequeue.pointer := by
  obtain ⟨rest, split⟩ := sound.head_mem points
  have threaded := sound.threaded
  rw [split] at threaded
  obtain rfl : rest = [] :=
    ((queueLinks ν).entry_eq_nil_iff queueLinks_proper).mp (threaded.1.symm.trans ends)
  obtain ⟨x, inside, atTail⟩ := sound.tail
  rw [split, List.mem_singleton] at inside
  exact ⟨by rw [sound.items, split]; rfl, by rw [atTail, inside, points]⟩

/-- The read of `next` is the look at the queue: no `next` means that it is empty now. -/
theorem kept_readNextPointer {d : ν} (sound : qs.Sound g)
    (here : QueueHere t qs g (.dequeue (.readNextPointer dequeue enqueue)))
    (points : dequeue.pointer = some d) :
    Kept capacity t qs g qs
      (.dequeue (.readNextCounter dequeue enqueue (qs.element d).next.pointer)) none := by
  obtain ⟨owner, ⟨sawEmpty, phase⟩, ⟨notNull, counter⟩, ahead, tailCounter⟩ := here
  by_cases seesEmpty : qs.dequeue = dequeue ∧ qs.nextPointer d = none
  · obtain ⟨current, ends⟩ := seesEmpty
    obtain ⟨empty, meets⟩ := items_of_ends sound (current ▸ points) ends
    have notAhead : enqueue.pointer = dequeue.pointer := by
      by_contra apart
      exact ahead current apart meets
    have sees : g.spec.next t .seeEmpty = some (g.spec.setPhase t (.dequeuing true), none) := by
      simp [PlacedFifo.next, phase, empty]
    refine .phase .seeEmpty sound
      ⟨owner, ⟨true, g.setPhase_self _⟩, ⟨notNull, counter, tailCounter, ahead, ?_, ?_⟩⟩ sees
    · exact fun y found _ => ⟨d, points, found⟩
    · exact fun _ _ => ⟨g.setPhase_self _, notAhead⟩
  · refine .read sound
      ⟨owner, ⟨sawEmpty, phase⟩, ⟨notNull, counter, tailCounter, ahead, ?_, ?_⟩⟩
    · exact fun y found _ => ⟨d, points, found⟩
    · exact fun isNull current => absurd ⟨current, isNull⟩ seesEmpty

theorem kept_headReads {pc pc' : DequeuePc ν α} (sound : qs.Sound g)
    (here : QueueHere t qs g (.dequeue pc)) (reads : HeadReads qs pc pc') :
    Kept capacity t qs g qs (.dequeue pc') none := by
  have ⟨owner, phase, read⟩ := here
  cases reads with
  | readPointer =>
      obtain ⟨d, rest, -, points⟩ := sound.head
      have notNull : qs.dequeue.pointer ≠ none := by rw [points]; simp
      exact .read sound ⟨owner, phase, notNull⟩
  | readCounter => exact .read sound ⟨owner, phase, read, le_rfl⟩
  | readEnqueuePointer =>
      exact .read sound ⟨owner, phase, read, fun current ahead => current ▸ ahead⟩
  | readEnqueueCounter => exact .read sound ⟨owner, phase, read.1, read.2, le_rfl⟩
  | readNextPointer points => exact kept_readNextPointer sound here points
  | readNextCounter => exact .read sound ⟨owner, phase, read⟩
  | checkPointer same =>
      exact .read sound ⟨owner, phase, read, fun counter => Pac.ext same.symm counter⟩
  | @outOfPlace dequeue enqueue next same meets more =>
      obtain ⟨headRead, whole⟩ := read
      refine .read sound ⟨owner, phase, ⟨headRead.tailCounter, fun y found _ => ?_⟩, more⟩
      obtain ⟨d, points, leads⟩ := headRead.leads y found (whole same.symm)
      exact ⟨d, meets.trans points, leads⟩
  | @attempt dequeue enqueue next same ahead =>
      obtain ⟨headRead, whole⟩ := read
      have notNull : next.pointer ≠ none := fun isNull =>
        ahead (headRead.empty isNull (whole same.symm)).2
      obtain ⟨y, found⟩ := Option.ne_none_iff_exists'.mp notNull
      exact .read sound ⟨owner, phase, headRead.counter, y, found, fun again =>
        ⟨headRead.leads y found again, headRead.ahead again ahead⟩⟩
  | @readUserData dequeue next n found =>
      obtain ⟨counter, y, found', current⟩ := read
      obtain rfl : n = y := Option.some.inj (found.symm.trans found')
      exact .read sound ⟨owner, phase, counter, n, found, fun again => ⟨current again, rfl⟩⟩
  | pointerMoved | counterMoved | advanceFails => exact .read sound ⟨owner, phase, trivial⟩

omit [DecidableEq ν] in
theorem kept_returnsEmpty (sound : qs.Sound g)
    (here : QueueHere t qs g (.dequeue (.checkCounter dequeue enqueue next)))
    (same : dequeue.counter = qs.dequeue.counter) (isNull : next.pointer = none) :
    Kept capacity t qs g qs .idle (some (.foundEmpty t)) := by
  obtain ⟨owner, -, headRead, whole⟩ := here
  obtain ⟨sawEmpty, -⟩ := headRead.empty isNull (whole same.symm)
  exact .phase .returnEmpty sound ⟨owner, g.setPhase_self _, trivial⟩
    (by simp [PlacedFifo.next, sawEmpty])

theorem kept_headHelps (sound : qs.Sound g)
    (here : QueueHere t qs g (.dequeue (.help enqueue next))) (headroom : qs.Headroom) :
    Kept capacity t qs g (qs.swing enqueue next.pointer) (.dequeue .readPointer) none := by
  obtain ⟨owner, phase, tailRead, notNull⟩ := here
  obtain ⟨y, found⟩ := Option.ne_none_iff_exists'.mp notNull
  rw [found] at tailRead ⊢
  obtain ⟨sound', rely⟩ := sound_swing sound tailRead headroom
  exact ⟨g, sound', ⟨owner, phase, trivial⟩, fun t' _ => rely t', .idle⟩

/-- The swap on `dequeue` is made, and what was read is what is there. -/
theorem kept_takes (sound : qs.Sound g)
    (here : QueueHere t qs g (.dequeue (.advance qs.dequeue next userData)))
    (headroom : qs.Headroom) :
    Kept capacity t qs g { qs with dequeue := ⟨next.pointer, counterPlusOne qs.dequeue.counter⟩ }
      (.dequeue (.readFe qs.dequeue userData)) (some (.taken t userData)) := by
  obtain ⟨owner, ⟨sawEmpty, phase⟩, -, y, found, current⟩ := here
  obtain ⟨⟨⟨d, points, leads⟩, ahead⟩, rfl⟩ := current rfl
  obtain ⟨rest, headed⟩ := sound.head_mem points
  have threaded := sound.threaded
  rw [headed] at threaded
  obtain ⟨rest', rfl⟩ := (queueLinks ν).exists_cons_of_entry queueLinks_proper
    queueLinks_injective (threaded.1.symm.trans leads)
  have later : qs.dequeue.counter < counterPlusOne qs.dequeue.counter := by
    rw [counterPlusOne_eq headroom.dequeue, queueElementSize]
    omega
  have inside : g.spec.items =
      (qs.element y).userData :: rest'.map fun n => (qs.element n).userData := by
    rw [sound.items, headed]
    rfl
  have nothing : ∀ n, g.list.owner n ≠ some t := fun n own => by cases (owner n).mp own
  rw [found]
  refine ⟨_, sound.advance headed points ahead, ⟨fun n => ?_, ?_, ?_⟩,
    fun _ other => sound.advance_rely headed later other, .step (b := .take) ?_⟩
  · show Function.update g.list.owner d (some t) n = some t ↔ qs.dequeue.pointer = some n
    rw [points]
    exact owns_update_some nothing d n
  · show Function.update g.spec.phase t _ t = _
    rw [Function.update_self]
  · have first : d ∈ g.queue := by rw [headed]; exact List.mem_cons_self
    refine ⟨d, points, sound.fe d first, ?_⟩
    have linked : qs.nextPointer d ≠ none := by rw [leads]; simp
    exact linked
  · show g.spec.next t .take = _
    simp [PlacedFifo.next, phase, inside, QueueGhost.advance]

omit [DecidableEq ν] in
theorem kept_readFe {d : ν} (sound : qs.Sound g)
    (here : QueueHere t qs g (.dequeue (.readFe dequeue userData)))
    (points : dequeue.pointer = some d) :
    Kept capacity t qs g qs (.giveBack userData (qs.element d).fe .increment) none := by
  obtain ⟨owner, phase, d', points', fe, linked⟩ := here
  obtain rfl : d = d' := Option.some.inj (points.symm.trans points')
  rw [fe]
  have own : g.list.owner d = some t := (owner d).mpr points
  refine .read sound ⟨fun n => ?_, phase, own, linked⟩
  rw [owner n]
  show dequeue.pointer = some n ↔ some d = some n
  rw [points]

end Dequeue

/-! ## Giving its element back -/

section GiveBack

variable {userData : α} {fe : ν} {pc pc' : PushPc ν} {fs : FreelistState ν}

theorem kept_pushGoesOn (sound : qs.Sound g)
    (here : QueueHere t qs g (.giveBack userData fe pc)) (headroom : qs.Headroom)
    (moves : qs.fs.pushStep fe pc = (fs, some pc')) :
    Kept capacity t qs g { qs with fs := fs } (.giveBack userData fe pc') none := by
  obtain ⟨owner, phase, push, linked⟩ := here
  obtain ⟨list, list_sound, rely, ⟨_, same, push', free, owners⟩ | ⟨same, -⟩⟩ :=
    sound.list.push push headroom.list moves
  · cases same
    refine ⟨{ g with list := list }, sound.setList list_sound ?_ ?_ ?_ rfl ?_,
      ⟨fun n => by rw [owners]; exact owner n, phase, push', linked⟩,
      fun t' other => .setList (rely t' other) rfl, .idle⟩
    · rw [owners]
      exact sound.unowned
    · rw [free]
      exact fun r mem => .inl mem
    · rw [free, owners]
      exact fun n h => h
    · rw [free]
      exact sound.vacant
  · cases same

theorem kept_pushed (sound : qs.Sound g)
    (here : QueueHere t qs g (.giveBack userData fe pc)) (headroom : qs.Headroom)
    (moves : qs.fs.pushStep fe pc = (fs, none)) :
    Kept capacity t qs g { qs with fs := fs } .idle (some (.returned t userData)) := by
  obtain ⟨owner, phase, push, linked⟩ := here
  have phase : g.spec.phase t = .taken userData := phase
  have own := push.owner
  obtain ⟨list, list_sound, rely, ⟨_, same, -⟩ | ⟨-, counter, rfl⟩⟩ :=
    sound.list.push push headroom.list moves
  · cases same
  · have giveOwner : ∀ n, (g.list.give fe counter).owner n =
      Function.update g.list.owner fe none n := fun _ => rfl
    have outside : fe ∉ g.queue := by
      intro inside
      rw [sound.unowned fe inside] at own
      cases own
    have only : ∀ n, g.list.owner n = some t → n = fe :=
      fun n holds => (Option.some.inj ((owner n).mp holds)).symm
    refine ⟨{ g with
        list := g.list.give fe counter
        spec := { g.spec.setPhase t .idle with vacant := g.spec.vacant + 1 } },
      sound.setList list_sound ?_ ?_ ?_ rfl ?_, ⟨owns_update_none only, ?_, trivial⟩,
      fun t' other => .setList (rely t' other) ?_, .step (b := .giveBack) ?_⟩
    · intro n inside
      have apart : n ≠ fe := fun same => outside (same ▸ inside)
      rw [giveOwner, Function.update_of_ne apart]
      exact sound.unowned n inside
    · intro r mem
      rcases List.mem_cons.mp mem with rfl | before
      · exact .inr ⟨outside, linked⟩
      · exact .inl before
    · rintro n (⟨r, mem, rfl⟩ | ⟨t', holds⟩)
      · exact .inl ⟨r, List.mem_cons_of_mem _ mem, rfl⟩
      · by_cases same : n = fe
        · exact .inl ⟨(fe, counter), List.mem_cons_self, same.symm⟩
        · exact .inr ⟨t', by rw [giveOwner, Function.update_of_ne same, holds]⟩
    · show g.spec.vacant + 1 = ((fe, counter) :: g.list.free).length
      rw [List.length_cons, sound.vacant]
    · show Function.update g.spec.phase t _ t = _
      rw [Function.update_self]
    · exact Function.update_of_ne other _ g.spec.phase
    · show g.spec.next t .giveBack = _
      simp [PlacedFifo.next, phase]

end GiveBack

/-! ## Any step -/

omit [DecidableEq ι] [DecidableEq ν] in
/-- No thread is about to follow a null pointer. -/
theorem QueueHere.not_followsNull (here : QueueHere t qs g p) : ¬ p.FollowsNull := by
  have read := here.read
  intro null
  cases p with
  | internalQueue userData qe pc =>
      cases pc with
      | readNextPointer | readNextCounter =>
          obtain ⟨-, ⟨x, points, -⟩, -⟩ := read
          cases points.symm.trans null
      | link =>
          obtain ⟨-, ⟨⟨x, points, -⟩, -⟩, -⟩ := read
          cases points.symm.trans null
      | _ => exact null
  | dequeue pc =>
      cases pc with
      | readNextPointer => exact read.1.1 null
      | readNextCounter => exact HeadRead.pointer read null
      | readUserData =>
          obtain ⟨-, y, found, -⟩ := read
          cases found.symm.trans null
      | readFe =>
          obtain ⟨d, points, -⟩ := read
          cases points.symm.trans null
      | _ => exact null
  | _ => exact null

/-- **Every step of a thread** keeps the outline. -/
theorem kept_step {pc : QueuePc ν α} {a : QueueAct α} (sound : qs.Sound g)
    (here : QueueHere t qs g pc) (headroom : qs.Headroom)
    (notStale : ∀ userData qe enqueue next x, pc = .internalQueue userData qe (.link enqueue next) →
      enqueue.pointer = some x → (qs.element x).next = next → x ∈ g.queue)
    (step : QueueState.Step t qs pc a qs' p o) : Kept capacity t qs g qs' p o := by
  cases step with
  | callEnqueue => exact kept_callEnqueue sound here _
  | callDequeue => exact kept_callDequeue sound here
  | popGoesOn moves => exact kept_popGoesOn sound here moves
  | popRefused moves => exact kept_popRefused sound here moves
  | popped moves => exact kept_popped sound here moves
  | initGoesOn moves => exact kept_initGoesOn sound here moves
  | initialised moves => exact kept_initialised sound here moves
  | linkReads reads => exact kept_linkReads sound here reads
  | links points same =>
      exact kept_links sound here points same (notStale _ _ _ _ _ rfl points same)
  | linkHelps => exact kept_linkHelps sound here headroom
  | accepts => exact kept_accepts sound here headroom
  | headReads reads => exact kept_headReads sound here reads
  | returnsEmpty same _ isNull => exact kept_returnsEmpty sound here same isNull
  | headHelps => exact kept_headHelps sound here headroom
  | takes current => subst current; exact kept_takes sound here headroom
  | readFe points => exact kept_readFe sound here points
  | pushGoesOn moves => exact kept_pushGoesOn sound here headroom moves
  | pushed moves => exact kept_pushed sound here headroom moves
  | faults null => exact absurd null here.not_followsNull

end Kept

variable [DecidableEq ν]

/-! ## All runs -/

/-- The proof outline of the queue. -/
def queueOutline (capacity : ℕ) : Outline (ι := ι) (QueueState.advance (ν := ν) (α := α))
    Careful (PlacedFifo.system ι α capacity) (QueueGhost ι ν α) where
  spec := QueueGhost.spec
  shared := QueueState.Sound
  here := QueueHere
  rely := QueueRely
  stable sound sound' here rely := here.stable sound sound' rely
  step := by
    intro s history t a m p o g careful sound here taken
    obtain ⟨headroom, notStale⟩ := careful
    refine kept_step sound (here t) headroom ?_ (QueueState.step_of_advance taken)
    rintro userData qe enqueue next x at_pc points same
    by_contra outside
    exact notStale ((staleLink_iff sound here at_pc points same).mpr outside)

variable {malloced : QueueState ν α} {null : α} {elements : List ν} {capacity : ℕ}

omit [DecidableEq ι] in
/-- **A new queue** is sound, with one element as the dummy and the others free. -/
theorem queueNew_sound (distinct : elements.Nodup) (count : elements.length = capacity + 1)
    (few : capacity + 1 < atomValues) (spec : PlacedFifo ι α) (items : spec.items = [])
    (vacant : spec.vacant = capacity) :
    ∃ g : QueueGhost ι ν α, (queueNew malloced null elements).Sound g ∧ g.spec = spec ∧
      ∀ n, g.list.owner n = none := by
  have some_element : elements ≠ [] := by
    rintro rfl
    cases count
  obtain ⟨front, dummy, rfl⟩ : ∃ front dummy, elements = front ++ [dummy] :=
    ⟨_, _, (List.dropLast_append_getLast some_element).symm⟩
  rw [List.length_append, List.length_singleton] at count
  obtain ⟨list, sound, spells, unowned, -⟩ := freelistNew_sound ι malloced.fs.next distinct
    (by rw [List.length_append, List.length_singleton, count]; exact few)
  rw [List.reverse_append, List.reverse_singleton, List.singleton_append] at spells
  obtain ⟨⟨first, stamp⟩, rest, free, same, others⟩ := List.map_eq_cons_iff.mp spells
  have same : first = dummy := same
  subst same
  have threaded := sound.threaded
  have nodup := sound.nodup
  rw [free] at threaded nodup
  have points : (freelistNew malloced.fs.next (front ++ [first])).top.pointer = some first := by
    rw [sound.top, free]
    rfl
  have next : (freelistNew malloced.fs.next (front ++ [first])).next first =
      (freeLinks ν).entry rest := threaded.1
  have away : ∀ r ∈ rest, r.1 ≠ first := by
    intro r mem same
    have listed : r.1 ∈ rest.map Prod.fst := List.mem_map_of_mem mem
    exact (List.nodup_cons.mp nodup).1 (same ▸ listed)
  have owners : ∀ n, (list.take first none rest).owner n = none := by
    intro n
    show Function.update list.owner first none n = none
    by_cases same : n = first
    · rw [same, Function.update_self]
    · rw [Function.update_of_ne same, unowned n]
  have made : queueNew malloced null (front ++ [first]) =
      { enqueue := ⟨some first, malloced.enqueue.counter⟩
        dequeue := ⟨some first, malloced.dequeue.counter⟩
        abaCounter := 0
        fs := { freelistNew malloced.fs.next (front ++ [first]) with
          top := (freeLinks ν).entry rest }
        element := Function.update malloced.element first
          ⟨⟨none, abstractionIncrement (abstractionIncrement malloced.abaCounter)⟩, first,
            null⟩ } := by
    simp [queueNew, QueueState.newElement, FreelistState.pop, points, next,
      QueueState.initElement]
  rw [made]
  refine ⟨{
      list := list.take first none rest
      queue := [first]
      seen := fun n => n = first
      spec := spec }, ?_, rfl, owners⟩
  exact
    { list := sound.take free none
      threaded := ⟨by simp [QueueState.nextPointer, queueLinks], trivial⟩
      nodup := List.nodup_singleton _
      head := ⟨first, [], rfl, rfl⟩
      tail := ⟨first, List.mem_singleton_self _, rfl⟩
      unowned := fun n _ => owners n
      apart := fun n mem r isFree => by
        rw [List.mem_singleton.mp mem]
        exact away r isFree
      complete := fun n seen => .inr (.inl (List.mem_singleton.mpr seen))
      fe := fun n mem => by
        rw [List.mem_singleton.mp mem]
        simp
      items := items
      vacant := by
        have length := congrArg List.length others
        rw [List.length_map, List.length_reverse] at length
        rw [vacant]
        exact (length.trans (by omega)).symm
      seenQueue := fun n mem => List.mem_singleton.mp mem
      seenFree := fun r isFree seen => absurd seen (away r isFree) }

/-- The outline describes a new queue. -/
theorem lockFreeQueue_starts (distinct : elements.Nodup) (count : elements.length = capacity + 1)
    (few : capacity + 1 < atomValues) :
    ∃ g : QueueGhost ι ν α,
      (queueOutline capacity).Describes (lockFreeQueue ι malloced null elements).init g ∧
        g.spec = (PlacedFifo.system ι α capacity).init := by
  obtain ⟨g, sound, spec, unowned⟩ : ∃ g : QueueGhost ι ν α,
      (queueNew malloced null elements).Sound g ∧
        g.spec = (PlacedFifo.system ι α capacity).init ∧ ∀ n, g.list.owner n = none :=
    queueNew_sound distinct count few (PlacedFifo.system ι α capacity).init rfl rfl
  refine ⟨g, ⟨sound, fun t => ⟨fun n => ?_, ?_, trivial⟩⟩, spec⟩
  · rw [unowned n]
    show none = some t ↔ none = some n
    simp
  · rw [spec]
    rfl

variable {s : Threads ι (QueueState ν α) (QueuePc ν α)} {history : List (FifoObs ι α)}

/-- **The lock-free queue is a bounded queue with places.**  Whatever the threads do, and
in whatever order their accesses come: the outline describes the state, and the calls have
taken effect one at a time, as those of a bounded queue with places do. -/
theorem lockFreeQueue_refines (distinct : elements.Nodup)
    (count : elements.length = capacity + 1) (few : capacity + 1 < atomValues)
    (run : (lockFreeQueue ι malloced null elements).ReachesUnder Careful s history) :
    ∃ g, (queueOutline capacity).Describes s g ∧
      (PlacedFifo.system ι α capacity).Reaches g.spec history :=
  (queueOutline capacity).reaches (lockFreeQueue_starts distinct count few) run

end Jacks
