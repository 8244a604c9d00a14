import Jacks.LockFreeQueue

/-!
# What holds in the lock-free queue

The proof outline of the queue: a ghost with the elements in the queue, in order, next to
that of the free list and to the specification (`QueueGhost`); what holds of the memory
(`QueueState.Sound`); what holds of a thread at each access (`QueueHere`); and what the
threads do to each other (`QueueRely`).

Every element is in the free list, in the queue, or in the hands of one thread.  What a
thread has read of one end is worth something only while the counter of that end is the
one it has read, so most of what a thread may count on is conditional on that, and such
conditions fall away by themselves when another thread moves the end.
-/

namespace Jacks

open Foundations

universe u v w

/-- The ghost of the queue. -/
structure QueueGhost (ι : Type w) (ν : Type u) (α : Type v) where
  list : FreelistGhost ι ν
  /-- The elements in the queue, the dummy first. -/
  queue : List ν
  /-- Which elements have been in the queue. -/
  seen : ν → Prop
  spec : PlacedFifo ι α

/-- The links of the queue. -/
def queueLinks (ν : Type u) : Links ν ν (Option ν) where
  addr := id
  nil := none
  ref := some

theorem queueLinks_proper {ν : Type u} (n : ν) : (queueLinks ν).ref n ≠ (queueLinks ν).nil :=
  Option.some_ne_none n

theorem queueLinks_injective {ν : Type u} : Function.Injective (queueLinks ν).ref :=
  Option.some_injective ν

/-- The element a thread has to itself. -/
def QueuePc.held {ν : Type u} {α : Type v} : QueuePc ν α → Option ν
  | .initElement _ fe _ => some fe
  | .internalQueue _ _ (.swing _) => none
  | .internalQueue _ qe _ => some qe
  | .dequeue (.readFe head _) => head.pointer
  | .giveBack _ fe _ => some fe
  | _ => none

section Outline

variable {ι : Type w} {ν : Type u} {α : Type v}

/-- The pointer to the element after one. -/
def QueueState.nextPointer (qs : QueueState ν α) (n : ν) : Option ν := (qs.element n).next.pointer

/-- An end, as it was read, points to an element after which there is `y`. -/
def QueueState.Leads (qs : QueueState ν α) (pac : Pac ν) (y : ν) : Prop :=
  ∃ x, pac.pointer = some x ∧ qs.nextPointer x = some y

/-! ## The memory -/

/-- What holds of the memory between any two steps. -/
structure QueueState.Sound (qs : QueueState ν α) (g : QueueGhost ι ν α) : Prop where
  list : qs.fs.Sound g.list
  threaded : (queueLinks ν).Threaded qs.nextPointer g.queue
  nodup : g.queue.Nodup
  head : ∃ d rest, g.queue = d :: rest ∧ qs.dequeue.pointer = some d
  tail : ∃ x ∈ g.queue, qs.enqueue.pointer = some x
  unowned : ∀ n ∈ g.queue, g.list.owner n = none
  apart : ∀ n ∈ g.queue, ∀ r ∈ g.list.free, r.1 ≠ n
  /-- No element is lost. -/
  complete : ∀ n, g.seen n →
    (∃ r ∈ g.list.free, r.1 = n) ∨ n ∈ g.queue ∨ ∃ t, g.list.owner n = some t
  fe : ∀ n ∈ g.queue, (qs.element n).fe = n
  items : g.spec.items = g.queue.tail.map fun n => (qs.element n).userData
  vacant : g.spec.vacant = g.list.free.length
  seenQueue : ∀ n ∈ g.queue, g.seen n
  /-- An element that comes back from the queue has lost its place there for good. -/
  seenFree : ∀ r ∈ g.list.free, g.seen r.1 → qs.nextPointer r.1 ≠ none

/-! ## A thread -/

/-- In `queue_internal_init_element`, what has been written of the own element. -/
def InitHere (qs : QueueState ν α) (fe : ν) : InitPc → Prop
  | .drawCounter | .clearNextPointer => True
  | .drawNextCounter | .writeNextCounter _ | .writeFe => qs.nextPointer fe = none
  | .writeUserData => qs.nextPointer fe = none ∧ (qs.element fe).fe = fe

/-- The own element, ready to be linked. -/
structure Prepared (qs : QueueState ν α) (userData : α) (qe : ν) : Prop where
  next : qs.nextPointer qe = none
  fe : (qs.element qe).fe = qe
  userData : (qs.element qe).userData = userData

/-- What was read of `enqueue` is an element that has been in the queue, and not the own
one. -/
def QueueGhost.Visited (g : QueueGhost ι ν α) (qe : ν) (pointer : Option ν) : Prop :=
  ∃ x, pointer = some x ∧ g.seen x ∧ x ≠ qe

/-- What was read of `enqueue` is no later than `enqueue` is, and while it is that, it
leads to what was read of `next`. -/
structure TailRead (qs : QueueState ν α) (enqueue : Pac ν) (next : Option ν) : Prop where
  counter : enqueue.counter ≤ qs.enqueue.counter
  leads : ∀ y, next = some y → qs.enqueue = enqueue → qs.Leads enqueue y

/-- In `queue_internal_queue`. -/
def LinkHere (qs : QueueState ν α) (g : QueueGhost ι ν α) (qe : ν) : LinkPc ν → Prop
  | .readPointer => True
  | .readCounter enqueuePointer => g.Visited qe enqueuePointer
  | .readNextPointer enqueue => g.Visited qe enqueue.pointer ∧ TailRead qs enqueue none
  | .readNextCounter enqueue nextPointer =>
      g.Visited qe enqueue.pointer ∧ TailRead qs enqueue nextPointer
  | .checkPointer enqueue next | .checkCounter enqueue next =>
      g.Visited qe enqueue.pointer ∧ TailRead qs enqueue next.pointer
  | .link enqueue next =>
      (g.Visited qe enqueue.pointer ∧ TailRead qs enqueue next.pointer) ∧ next.pointer = none
  | .help enqueue next => TailRead qs enqueue next.pointer ∧ next.pointer ≠ none
  | .swing enqueue => TailRead qs enqueue (some qe)

/-- In `queue_dequeue`, what was read so far: `dequeue` is no later than it was, and
while it is that, what was read after it is as it was, as far as it matters. -/
structure HeadRead (t : ι) (qs : QueueState ν α) (g : QueueGhost ι ν α) (dequeue enqueue : Pac ν)
    (next : Option ν) : Prop where
  pointer : dequeue.pointer ≠ none
  counter : dequeue.counter ≤ qs.dequeue.counter
  tailCounter : enqueue.counter ≤ qs.enqueue.counter
  /-- An end that had moved on stays ahead. -/
  ahead : qs.dequeue = dequeue → enqueue.pointer ≠ dequeue.pointer →
    qs.enqueue.pointer ≠ qs.dequeue.pointer
  leads : ∀ y, next = some y → qs.dequeue = dequeue → qs.Leads dequeue y
  /-- No `next` means that the queue was empty then. -/
  empty : next = none → qs.dequeue = dequeue →
    g.spec.phase t = .dequeuing true ∧ enqueue.pointer = dequeue.pointer

/-- In `queue_dequeue`. -/
def DequeueHere (t : ι) (qs : QueueState ν α) (g : QueueGhost ι ν α) : DequeuePc ν α → Prop
  | .readPointer => True
  | .readCounter dequeuePointer => dequeuePointer ≠ none
  | .readEnqueuePointer dequeue =>
      dequeue.pointer ≠ none ∧ dequeue.counter ≤ qs.dequeue.counter
  | .readEnqueueCounter dequeue enqueuePointer =>
      (dequeue.pointer ≠ none ∧ dequeue.counter ≤ qs.dequeue.counter) ∧
        (qs.dequeue = dequeue → enqueuePointer ≠ dequeue.pointer →
          qs.enqueue.pointer ≠ qs.dequeue.pointer)
  | .readNextPointer dequeue enqueue =>
      (dequeue.pointer ≠ none ∧ dequeue.counter ≤ qs.dequeue.counter) ∧
        (qs.dequeue = dequeue → enqueue.pointer ≠ dequeue.pointer →
          qs.enqueue.pointer ≠ qs.dequeue.pointer) ∧
        enqueue.counter ≤ qs.enqueue.counter
  | .readNextCounter dequeue enqueue nextPointer =>
      HeadRead t qs g dequeue enqueue nextPointer
  | .checkPointer dequeue enqueue next => HeadRead t qs g dequeue enqueue next.pointer
  | .checkCounter dequeue enqueue next =>
      HeadRead t qs g dequeue enqueue next.pointer ∧
        (qs.dequeue.counter = dequeue.counter → qs.dequeue = dequeue)
  | .help enqueue next => TailRead qs enqueue next.pointer ∧ next.pointer ≠ none
  | .readUserData dequeue next =>
      dequeue.counter ≤ qs.dequeue.counter ∧
        ∃ y, next.pointer = some y ∧ (qs.dequeue = dequeue →
          qs.Leads dequeue y ∧ qs.enqueue.pointer ≠ qs.dequeue.pointer)
  | .advance dequeue next userData =>
      dequeue.counter ≤ qs.dequeue.counter ∧
        ∃ y, next.pointer = some y ∧ (qs.dequeue = dequeue →
          (qs.Leads dequeue y ∧ qs.enqueue.pointer ≠ qs.dequeue.pointer) ∧
            (qs.element y).userData = userData)
  | .readFe dequeue _ =>
      ∃ d, dequeue.pointer = some d ∧ (qs.element d).fe = d ∧ qs.nextPointer d ≠ none

/-- What the specification says a thread is doing. -/
def PhaseHere (phase : FifoPhase α) : QueuePc ν α → Prop
  | .idle => phase = .idle
  | .newElement userData _ => phase = .enqueuing userData
  | .initElement userData _ _ => phase = .placed userData
  | .internalQueue userData _ (.swing _) => phase = .appended userData
  | .internalQueue userData _ _ => phase = .placed userData
  | .dequeue (.readFe _ userData) => phase = .taken userData
  | .dequeue _ => ∃ sawEmpty, phase = .dequeuing sawEmpty
  | .giveBack userData _ _ => phase = .taken userData
  | .fault => False

/-- What a thread has read and written. -/
def ReadHere (t : ι) (qs : QueueState ν α) (g : QueueGhost ι ν α) : QueuePc ν α → Prop
  | .idle | .fault => True
  | .newElement _ pc => PopHere qs.fs g.list pc
  | .initElement _ fe pc => InitHere qs fe pc
  | .internalQueue _ qe (.swing enqueue) => LinkHere qs g qe (.swing enqueue)
  | .internalQueue userData qe pc => Prepared qs userData qe ∧ LinkHere qs g qe pc
  | .dequeue pc => DequeueHere t qs g pc
  | .giveBack _ fe pc => PushHere t qs.fs g.list fe pc ∧ qs.nextPointer fe ≠ none

/-- What a thread may count on. -/
structure QueueHere (t : ι) (qs : QueueState ν α) (g : QueueGhost ι ν α) (pc : QueuePc ν α) :
    Prop where
  /-- It has one element to itself at most, the one it is at work on. -/
  owner : ∀ n, g.list.owner n = some t ↔ pc.held = some n
  phase : PhaseHere (g.spec.phase t) pc
  read : ReadHere t qs g pc

/-! ## The others -/

/-- An end stays where it is, or its counter grows. -/
structure EndRely (pac pac' : Pac ν) : Prop where
  counter : pac.counter ≤ pac'.counter
  same : pac'.counter = pac.counter → pac' = pac

/-- What a thread lets the others do in one step. -/
structure QueueRely (t : ι) (qs : QueueState ν α) (g : QueueGhost ι ν α) (qs' : QueueState ν α)
    (g' : QueueGhost ι ν α) : Prop where
  list : FreelistRely t qs.fs g.list qs'.fs g'.list
  ownElement : ∀ n, g.list.owner n = some t → qs'.element n = qs.element n
  enqueue : EndRely qs.enqueue qs'.enqueue
  dequeue : EndRely qs.dequeue qs'.dequeue
  /-- In the queue, elements are kept: only the last gets a `next`. -/
  next : ∀ n ∈ g.queue, n ∈ g'.queue → ∀ y, qs.nextPointer n = some y → qs'.nextPointer n = some y
  userData : ∀ n ∈ g.queue, n ∈ g'.queue → (qs'.element n).userData = (qs.element n).userData
  /-- Elements leave only when `dequeue` moves. -/
  grows : qs'.dequeue = qs.dequeue → ∀ n ∈ g.queue, n ∈ g'.queue
  ahead : qs'.dequeue = qs.dequeue → qs.enqueue.pointer ≠ qs.dequeue.pointer →
    qs'.enqueue.pointer ≠ qs'.dequeue.pointer
  seen : ∀ n, g.seen n → g'.seen n
  phase : g'.spec.phase t = g.spec.phase t

/-! ## What a thread counts on is stable -/

theorem EndRely.refl (pac : Pac ν) : EndRely pac pac := ⟨le_rfl, fun _ => rfl⟩

/-- What was read of an end is that end again only if it has been all along. -/
theorem EndRely.back {pac pac' read : Pac ν} (rely : EndRely pac pac')
    (counter : read.counter ≤ pac.counter) (again : pac' = read) : pac = read ∧ pac' = pac := by
  have upper := rely.counter
  rw [again] at upper
  have same := rely.same (by rw [again]; exact le_antisymm counter upper)
  exact ⟨by rw [← same, again], same⟩

variable {t : ι} {qs qs' : QueueState ν α} {g g' : QueueGhost ι ν α}

theorem QueueState.Sound.tail_mem {x : ν} (sound : qs.Sound g)
    (points : qs.enqueue.pointer = some x) : x ∈ g.queue := by
  obtain ⟨y, mem, same⟩ := sound.tail
  rw [points] at same
  exact Option.some.inj same ▸ mem

theorem QueueState.Sound.head_mem {d : ν} (sound : qs.Sound g)
    (points : qs.dequeue.pointer = some d) : ∃ rest, g.queue = d :: rest := by
  obtain ⟨d', rest, split, same⟩ := sound.head
  rw [points] at same
  exact ⟨rest, Option.some.inj same ▸ split⟩

/-- After an element of the queue that has a `next` comes that `next`. -/
theorem QueueState.Sound.split_of_next {x y : ν} (sound : qs.Sound g) (mem : x ∈ g.queue)
    (next : qs.nextPointer x = some y) : ∃ front rest, g.queue = front ++ x :: y :: rest := by
  obtain ⟨front, rest, split⟩ := List.append_of_mem mem
  have threaded := sound.threaded
  rw [split] at threaded
  obtain ⟨rest', rfl⟩ := (queueLinks ν).exists_cons_of_entry queueLinks_proper
    queueLinks_injective (threaded.link.symm.trans next)
  exact ⟨front, rest', split⟩

/-- What an access of `queue_internal_queue` finds of `enqueue`. -/
theorem QueueState.Sound.visited {qe : ν} (sound : qs.Sound g)
    (own : g.list.owner qe = some t) : g.Visited qe qs.enqueue.pointer := by
  obtain ⟨x, inside, atTail⟩ := sound.tail
  refine ⟨x, atTail, sound.seenQueue x inside, ?_⟩
  rintro rfl
  rw [sound.unowned x inside] at own
  cases own

theorem TailRead.stable {enqueue : Pac ν} {next : Option ν} (read : TailRead qs enqueue next)
    (sound : qs.Sound g) (sound' : qs'.Sound g') (rely : QueueRely t qs g qs' g') :
    TailRead qs' enqueue next where
  counter := read.counter.trans rely.enqueue.counter
  leads y found again := by
    obtain ⟨before, -⟩ := rely.enqueue.back read.counter again
    obtain ⟨x, points, leads⟩ := read.leads y found before
    refine ⟨x, points, rely.next x ?_ ?_ y leads⟩
    · exact sound.tail_mem (before ▸ points)
    · exact sound'.tail_mem (again ▸ points)

/-- The head's `next` stays while the head does. -/
theorem QueueRely.leads {dequeue : Pac ν} {y : ν} (rely : QueueRely t qs g qs' g')
    (sound : qs.Sound g) (sound' : qs'.Sound g') (before : qs.dequeue = dequeue)
    (again : qs'.dequeue = dequeue) (leads : qs.Leads dequeue y) : qs'.Leads dequeue y := by
  obtain ⟨d, points, next⟩ := leads
  obtain ⟨rest, split⟩ := sound.head_mem (before ▸ points)
  obtain ⟨rest', split'⟩ := sound'.head_mem (again ▸ points)
  exact ⟨d, points, rely.next d (split ▸ List.mem_cons_self) (split' ▸ List.mem_cons_self) y next⟩

theorem HeadRead.stable {dequeue enqueue : Pac ν} {next : Option ν}
    (read : HeadRead t qs g dequeue enqueue next) (sound : qs.Sound g) (sound' : qs'.Sound g')
    (rely : QueueRely t qs g qs' g') : HeadRead t qs' g' dequeue enqueue next where
  pointer := read.pointer
  counter := read.counter.trans rely.dequeue.counter
  tailCounter := read.tailCounter.trans rely.enqueue.counter
  ahead again apart := by
    obtain ⟨before, same⟩ := rely.dequeue.back read.counter again
    exact rely.ahead same (read.ahead before apart)
  leads y found again := by
    obtain ⟨before, -⟩ := rely.dequeue.back read.counter again
    exact rely.leads sound sound' before again (read.leads y found before)
  empty isNull again := by
    obtain ⟨before, -⟩ := rely.dequeue.back read.counter again
    rw [rely.phase]
    exact read.empty isNull before

theorem QueueGhost.Visited.stable {qe : ν} {pointer : Option ν} (visited : g.Visited qe pointer)
    (rely : QueueRely t qs g qs' g') : g'.Visited qe pointer := by
  obtain ⟨x, points, seen, other⟩ := visited
  exact ⟨x, points, rely.seen x seen, other⟩

theorem LinkHere.stable {qe : ν} {pc : LinkPc ν} (here : LinkHere qs g qe pc)
    (sound : qs.Sound g) (sound' : qs'.Sound g') (rely : QueueRely t qs g qs' g') :
    LinkHere qs' g' qe pc := by
  cases pc with
  | readPointer => trivial
  | readCounter => exact QueueGhost.Visited.stable here rely
  | readNextPointer | readNextCounter | checkPointer | checkCounter =>
      exact ⟨here.1.stable rely, here.2.stable sound sound' rely⟩
  | link =>
      exact ⟨⟨here.1.1.stable rely, here.1.2.stable sound sound' rely⟩, here.2⟩
  | help => exact ⟨here.1.stable sound sound' rely, here.2⟩
  | swing => exact TailRead.stable here sound sound' rely

theorem DequeueHere.stable {pc : DequeuePc ν α} (here : DequeueHere t qs g pc)
    (mine : ∀ d v, pc = .readFe d v → ∀ n, d.pointer = some n → g.list.owner n = some t)
    (sound : qs.Sound g) (sound' : qs'.Sound g') (rely : QueueRely t qs g qs' g') :
    DequeueHere t qs' g' pc := by
  have later := rely.dequeue.counter
  cases pc with
  | readPointer => trivial
  | readCounter => exact here
  | readEnqueuePointer dequeue => exact ⟨here.1, here.2.trans later⟩
  | readEnqueueCounter dequeue enqueuePointer =>
      obtain ⟨⟨pointer, counter⟩, ahead⟩ := here
      refine ⟨⟨pointer, counter.trans later⟩, fun again apart => ?_⟩
      obtain ⟨before, same⟩ := rely.dequeue.back counter again
      exact rely.ahead same (ahead before apart)
  | readNextPointer dequeue enqueue =>
      obtain ⟨⟨pointer, counter⟩, ahead, tailCounter⟩ := here
      refine ⟨⟨pointer, counter.trans later⟩, fun again apart => ?_,
        tailCounter.trans rely.enqueue.counter⟩
      obtain ⟨before, same⟩ := rely.dequeue.back counter again
      exact rely.ahead same (ahead before apart)
  | readNextCounter | checkPointer => exact HeadRead.stable here sound sound' rely
  | checkCounter dequeue enqueue next =>
      obtain ⟨read, current⟩ := here
      refine ⟨read.stable sound sound' rely, fun again => ?_⟩
      have unmoved : qs'.dequeue.counter = qs.dequeue.counter :=
        le_antisymm (again ▸ read.counter) later
      rw [rely.dequeue.same unmoved]
      exact current (unmoved ▸ again)
  | help => exact ⟨here.1.stable sound sound' rely, here.2⟩
  | readUserData dequeue next =>
      obtain ⟨counter, y, found, current⟩ := here
      refine ⟨counter.trans later, y, found, fun again => ?_⟩
      obtain ⟨before, same⟩ := rely.dequeue.back counter again
      obtain ⟨leads, apart⟩ := current before
      exact ⟨rely.leads sound sound' before again leads, rely.ahead same apart⟩
  | advance dequeue next userData =>
      obtain ⟨counter, y, found, current⟩ := here
      refine ⟨counter.trans later, y, found, fun again => ?_⟩
      obtain ⟨before, same⟩ := rely.dequeue.back counter again
      obtain ⟨⟨leads, apart⟩, holds⟩ := current before
      refine ⟨⟨rely.leads sound sound' before again leads, rely.ahead same apart⟩, ?_⟩
      obtain ⟨d, points, next⟩ := leads
      obtain ⟨rest, split⟩ := sound.head_mem (before ▸ points)
      have mem : y ∈ g.queue := by
        obtain ⟨front, rest', split'⟩ :=
          sound.split_of_next (split ▸ List.mem_cons_self) next
        rw [split']
        simp
      rw [rely.userData y mem (rely.grows same y mem), holds]
  | readFe dequeue userData =>
      obtain ⟨d, points, fe, next⟩ := here
      have unchanged := rely.ownElement d (mine dequeue userData rfl d points)
      exact ⟨d, points, by rw [unchanged]; exact fe, by
        rw [QueueState.nextPointer, unchanged]; exact next⟩

theorem Prepared.stable {userData : α} {qe : ν} (prepared : Prepared qs userData qe)
    (unchanged : qs'.element qe = qs.element qe) : Prepared qs' userData qe := by
  obtain ⟨next, fe, holds⟩ := prepared
  refine ⟨?_, ?_, ?_⟩
  · rw [QueueState.nextPointer, unchanged]
    exact next
  · rw [unchanged, fe]
  · rw [unchanged, holds]

theorem InitHere.stable {fe : ν} {pc : InitPc} (here : InitHere qs fe pc)
    (unchanged : qs'.element fe = qs.element fe) : InitHere qs' fe pc := by
  have same : qs'.nextPointer fe = qs.nextPointer fe := by
    rw [QueueState.nextPointer, unchanged]
    rfl
  cases pc with
  | drawCounter | clearNextPointer => trivial
  | drawNextCounter | writeNextCounter | writeFe => exact same.trans here
  | writeUserData => exact ⟨same.trans here.1, by rw [unchanged]; exact here.2⟩

/-- **What a thread counts on survives what it lets the others do.** -/
theorem QueueHere.stable {pc : QueuePc ν α} (here : QueueHere t qs g pc) (sound : qs.Sound g)
    (sound' : qs'.Sound g') (rely : QueueRely t qs g qs' g') : QueueHere t qs' g' pc := by
  obtain ⟨owner, phase, read⟩ := here
  refine ⟨fun n => (rely.list.owner n).trans (owner n), by rw [rely.phase]; exact phase, ?_⟩
  have own : ∀ n, pc.held = some n → qs'.element n = qs.element n :=
    fun n held => rely.ownElement n ((owner n).mpr held)
  cases pc with
  | idle | fault => trivial
  | newElement => exact PopHere.stable read rely.list
  | initElement _ fe => exact InitHere.stable read (own fe rfl)
  | internalQueue userData qe pc =>
      cases pc with
      | swing enqueue =>
          have here : LinkHere qs g qe (.swing enqueue) := read
          exact here.stable sound sound' rely
      | _ => exact ⟨read.1.stable (own qe rfl), read.2.stable sound sound' rely⟩
  | dequeue pc =>
      refine DequeueHere.stable read ?_ sound sound' rely
      rintro d v rfl n points
      exact (owner n).mpr points
  | giveBack _ fe =>
      refine ⟨read.1.stable rely.list, ?_⟩
      rw [QueueState.nextPointer, own fe rfl]
      exact read.2

end Outline

end Jacks
