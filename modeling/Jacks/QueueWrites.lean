import Jacks.QueueOutline

/-!
# What the writes of the queue do

Few of the accesses change anything.  For each that does: the memory stays sound, with
the ghost moved along, and the other threads are let be.  `QueueState.Sound.link` is the
swap on `next` of the last element, `QueueState.Sound.swing` a swap on `enqueue`,
`QueueState.Sound.advance` one on `dequeue`; steps on the free list
(`QueueState.Sound.setList`) and writes to an own element (`QueueState.Sound.setElement`)
leave the queue as it is.
-/

namespace Jacks

open Foundations

universe u v w

section Updates

variable {ν : Type u} {α : Type v} [DecidableEq ν] (qs : QueueState ν α) (n : ν)

@[simp] theorem QueueState.setElement_fs (e : QueueElement ν α) :
    (qs.setElement n e).fs = qs.fs := rfl

@[simp] theorem QueueState.setElement_enqueue (e : QueueElement ν α) :
    (qs.setElement n e).enqueue = qs.enqueue := rfl

@[simp] theorem QueueState.setElement_dequeue (e : QueueElement ν α) :
    (qs.setElement n e).dequeue = qs.dequeue := rfl

@[simp] theorem QueueState.setElement_self (e : QueueElement ν α) :
    (qs.setElement n e).element n = e := by
  simp [setElement]

theorem QueueState.setElement_of_ne (e : QueueElement ν α) {m : ν} (other : m ≠ n) :
    (qs.setElement n e).element m = qs.element m := by
  simp [setElement, other]

theorem QueueState.nextPointer_setElement_of_ne (e : QueueElement ν α) {m : ν} (other : m ≠ n) :
    (qs.setElement n e).nextPointer m = qs.nextPointer m := by
  rw [nextPointer, setElement_of_ne qs n e other, nextPointer]

@[simp] theorem QueueState.nextPointer_setNext (next : Pac ν) :
    (qs.setNext n next).nextPointer n = next.pointer := by
  rw [nextPointer, setNext, setElement_self]

@[simp] theorem QueueState.userData_setNext (next : Pac ν) (m : ν) :
    ((qs.setNext n next).element m).userData = (qs.element m).userData := by
  by_cases same : m = n
  · subst same
    simp [setNext]
  · rw [setNext, setElement_of_ne qs n _ same]

@[simp] theorem QueueState.fe_setNext (next : Pac ν) (m : ν) :
    ((qs.setNext n next).element m).fe = (qs.element m).fe := by
  by_cases same : m = n
  · subst same
    simp [setNext]
  · rw [setNext, setElement_of_ne qs n _ same]

end Updates

section Kept

variable {ι : Type w} {ν : Type u} {α : Type v}
variable {t t' : ι} {qs qs' : QueueState ν α} {g g' : QueueGhost ι ν α}

theorem QueueRely.refl (t : ι) (qs : QueueState ν α) (g : QueueGhost ι ν α) :
    QueueRely t qs g qs g where
  list := .refl t qs.fs g.list
  ownElement _ _ := rfl
  enqueue := .refl _
  dequeue := .refl _
  next _ _ _ _ h := h
  userData _ _ _ := rfl
  grows _ _ mem := mem
  ahead _ h := h
  seen _ h := h
  phase := rfl

/-! ## The free list -/

/-- Steps on the free list concern the queue only through the owners and the free
elements. -/
theorem QueueState.Sound.setList {fs : FreelistState ν} {list : FreelistGhost ι ν}
    {spec : PlacedFifo ι α} (sound : qs.Sound g) (sound' : fs.Sound list)
    (unowned : ∀ n ∈ g.queue, list.owner n = none)
    (free : ∀ r ∈ list.free, r ∈ g.list.free ∨ r.1 ∉ g.queue ∧ qs.nextPointer r.1 ≠ none)
    (complete : ∀ n, ((∃ r ∈ g.list.free, r.1 = n) ∨ ∃ t, g.list.owner n = some t) →
      (∃ r ∈ list.free, r.1 = n) ∨ ∃ t, list.owner n = some t)
    (items : spec.items = g.spec.items) (vacant : spec.vacant = list.free.length) :
    { qs with fs := fs }.Sound { g with list := list, spec := spec } where
  list := sound'
  threaded := sound.threaded
  nodup := sound.nodup
  head := sound.head
  tail := sound.tail
  unowned := unowned
  apart n mem r isFree := by
    rcases free r isFree with before | ⟨away, -⟩
    · exact sound.apart n mem r before
    · rintro rfl
      exact away mem
  complete n seen := by
    rcases sound.complete n seen with isFree | inside | owned
    · exact (complete n (.inl isFree)).imp_right .inr
    · exact .inr (.inl inside)
    · exact (complete n (.inr owned)).imp_right .inr
  fe := sound.fe
  items := items.trans sound.items
  vacant := vacant
  seenQueue := sound.seenQueue
  seenFree r isFree seen := by
    rcases free r isFree with before | ⟨-, linked⟩
    · exact sound.seenFree r before seen
    · exact linked

theorem QueueRely.setList {fs : FreelistState ν} {list : FreelistGhost ι ν}
    {spec : PlacedFifo ι α} (rely : FreelistRely t' qs.fs g.list fs list)
    (phase : spec.phase t' = g.spec.phase t') :
    QueueRely t' qs g { qs with fs := fs } { g with list := list, spec := spec } :=
  { QueueRely.refl t' qs g with list := rely, phase := phase }

/-- An element of the queue without a `next` is the last. -/
theorem QueueState.Sound.last {x : ν} (sound : qs.Sound g) (mem : x ∈ g.queue)
    (ends : qs.nextPointer x = none) : ∃ front, g.queue = front ++ [x] :=
  sound.threaded.last_of_nil queueLinks_proper mem ends

/-! ## Moving `enqueue` -/

/-- Moving `enqueue` to the next element keeps the queue sound. -/
theorem QueueState.Sound.swing {enqueue : Pac ν} {y : ν} {counter : ℕ} (sound : qs.Sound g)
    (current : qs.enqueue = enqueue) (leads : qs.Leads enqueue y) :
    { qs with enqueue := ⟨some y, counter⟩ }.Sound g := by
  obtain ⟨x, points, next⟩ := leads
  obtain ⟨front, rest, split⟩ := sound.split_of_next (sound.tail_mem (current ▸ points)) next
  exact { sound with tail := ⟨y, by rw [split]; simp, rfl⟩ }

/-- Moving `enqueue` is nothing to the others: its counter grows, and it is ahead of
`dequeue`. -/
theorem QueueState.Sound.swing_rely {enqueue : Pac ν} {y : ν} {counter : ℕ} (sound : qs.Sound g)
    (current : qs.enqueue = enqueue) (leads : qs.Leads enqueue y)
    (later : enqueue.counter < counter) (t' : ι) :
    QueueRely t' qs g { qs with enqueue := ⟨some y, counter⟩ } g := by
  obtain ⟨x, points, next⟩ := leads
  obtain ⟨front, rest, split⟩ := sound.split_of_next (sound.tail_mem (current ▸ points)) next
  obtain ⟨d, rest', headed, atHead⟩ := sound.head
  refine { QueueRely.refl t' qs g with enqueue := ⟨?_, ?_⟩, ahead := ?_ }
  · rw [current]
    exact later.le
  · intro same
    have same : counter = qs.enqueue.counter := same
    rw [current] at same
    omega
  · intro _ _ same
    have same : some y = qs.dequeue.pointer := same
    rw [atHead] at same
    -- the first element would come after another one
    have nodup := sound.nodup
    rw [Option.some.inj same] at split
    rw [headed] at split nodup
    cases front with
    | nil =>
        rw [List.nil_append, List.cons.injEq] at split
        rw [split.2] at nodup
        exact (List.nodup_cons.mp nodup).1 List.mem_cons_self
    | cons c front =>
        rw [List.cons_append, List.cons.injEq] at split
        rw [split.2] at nodup
        exact (List.nodup_cons.mp nodup).1 (by simp)

/-- A thread that found `enqueue` at the counter it has reads a later one after its swap. -/
theorem TailRead.later {enqueue : Pac ν} {next : Option ν} (read : TailRead qs enqueue next)
    (headroom : qs.enqueue.counter + queueElementSize < atomValues) :
    enqueue.counter < counterPlusOne enqueue.counter := by
  have upper := read.counter
  rw [counterPlusOne_eq (by omega), queueElementSize]
  omega

/-- **A swap on `enqueue`** that is to move it to what was read of `next`, whether it is made
or not. -/
theorem QueueState.Sound.dcasEnqueue [DecidableEq ν] {enqueue : Pac ν} {y : ν} {counter : ℕ}
    (sound : qs.Sound g) (read : TailRead qs enqueue (some y))
    (later : enqueue.counter < counter) :
    { qs with enqueue := (abstractionDcas qs.enqueue ⟨some y, counter⟩ enqueue).1 }.Sound g ∧
    ∀ t', QueueRely t' qs g
      { qs with enqueue := (abstractionDcas qs.enqueue ⟨some y, counter⟩ enqueue).1 } g := by
  by_cases current : qs.enqueue = enqueue
  · have leads := read.leads y rfl current
    subst current
    rw [abstractionDcas_self]
    exact ⟨sound.swing rfl leads, sound.swing_rely rfl leads later⟩
  · rw [abstractionDcas_of_ne current]
    exact ⟨sound, fun t' => .refl t' qs g⟩

section SetPhase

variable [DecidableEq ι]

/-! ## Steps of the specification alone -/

/-- The ghost when the specification moves a thread. -/
def QueueGhost.setPhase (g : QueueGhost ι ν α) (t : ι) (p : FifoPhase α) : QueueGhost ι ν α :=
  { g with spec := g.spec.setPhase t p }

@[simp] theorem QueueGhost.setPhase_list (p : FifoPhase α) : (g.setPhase t p).list = g.list := rfl

@[simp] theorem QueueGhost.setPhase_self (p : FifoPhase α) :
    (g.setPhase t p).spec.phase t = p := by
  simp [setPhase]

theorem QueueState.Sound.setPhase (sound : qs.Sound g) (t : ι) (p : FifoPhase α) :
    qs.Sound (g.setPhase t p) :=
  { sound with }

theorem QueueRely.setPhase (other : t' ≠ t) (qs : QueueState ν α) (g : QueueGhost ι ν α)
    (p : FifoPhase α) : QueueRely t' qs g qs (g.setPhase t p) :=
  { QueueRely.refl t' qs g with
    phase := by simp [QueueGhost.setPhase, other] }

end SetPhase

variable [DecidableEq ν]

/-! ## Writing an own element -/

/-- Writing an element that a thread has to itself keeps the queue sound. -/
theorem QueueState.Sound.setElement {fe : ν} (sound : qs.Sound g)
    (own : g.list.owner fe = some t) (e : QueueElement ν α) : (qs.setElement fe e).Sound g := by
  have inside : ∀ n ∈ g.queue, n ≠ fe := by
    rintro n mem rfl
    rw [sound.unowned n mem] at own
    cases own
  exact
    { list := sound.list
      threaded := sound.threaded.congr fun n mem =>
        qs.nextPointer_setElement_of_ne fe e (inside n mem)
      nodup := sound.nodup
      head := sound.head
      tail := sound.tail
      unowned := sound.unowned
      apart := sound.apart
      complete := sound.complete
      fe := fun n mem => by
        rw [qs.setElement_of_ne fe e (inside n mem)]
        exact sound.fe n mem
      items := by
        rw [sound.items]
        refine List.map_congr_left fun n mem => ?_
        rw [qs.setElement_of_ne fe e (inside n (List.mem_of_mem_tail mem))]
      vacant := sound.vacant
      seenQueue := sound.seenQueue
      seenFree := fun r isFree seen => by
        rw [qs.nextPointer_setElement_of_ne fe e (sound.list.notFree own r isFree)]
        exact sound.seenFree r isFree seen }

/-- Writing it is nothing to the others. -/
theorem QueueState.Sound.setElement_rely {fe : ν} (sound : qs.Sound g)
    (own : g.list.owner fe = some t) (other : t' ≠ t) (e : QueueElement ν α) :
    QueueRely t' qs g (qs.setElement fe e) g := by
  have inside : ∀ n ∈ g.queue, n ≠ fe := by
    rintro n mem rfl
    rw [sound.unowned n mem] at own
    cases own
  refine { QueueRely.refl t' qs g with
    list := .refl t' qs.fs g.list, ownElement := ?_, next := ?_, userData := ?_ }
  · intro n own'
    refine qs.setElement_of_ne fe e ?_
    rintro rfl
    exact other (Option.some.inj (own'.symm.trans own))
  · intro n mem _ y found
    rw [qs.nextPointer_setElement_of_ne fe e (inside n mem)]
    exact found
  · intro n mem _
    rw [qs.setElement_of_ne fe e (inside n mem)]

variable [DecidableEq ι]

/-! ## Linking an element -/

/-- The ghost when an element has been linked. -/
def QueueGhost.link (g : QueueGhost ι ν α) (t : ι) (userData : α) (qe : ν) :
    QueueGhost ι ν α where
  list := g.list.setOwner qe none
  queue := g.queue ++ [qe]
  seen n := g.seen n ∨ n = qe
  spec := { g.spec.setPhase t (.appended userData) with items := g.spec.items ++ [userData] }

/-- **Linking a prepared element behind the last one** appends it to the queue. -/
theorem QueueState.Sound.link {userData : α} {x qe : ν} {counter : ℕ} (sound : qs.Sound g)
    (own : g.list.owner qe = some t) (prepared : Prepared qs userData qe) (mem : x ∈ g.queue)
    (ends : qs.nextPointer x = none) :
    (qs.setNext x ⟨some qe, counter⟩).Sound (g.link t userData qe) := by
  have away := sound.list.notFree own
  have outside : qe ∉ g.queue := by
    intro inside
    rw [sound.unowned qe inside] at own
    cases own
  have other : qe ≠ x := fun same => outside (same ▸ mem)
  obtain ⟨front, split⟩ := sound.last mem ends
  have nodup := sound.nodup
  have threaded := sound.threaded
  rw [split] at nodup threaded
  obtain ⟨d, rest, headed, points⟩ := sound.head
  obtain ⟨y, inside, atTail⟩ := sound.tail
  exact
    { list := sound.list.setOwner away none
      threaded := by
        show (queueLinks ν).Threaded _ (g.queue ++ [qe])
        rw [split]
        refine threaded.concat (fun n before => ?_) (qs.nextPointer_setNext x _) ?_
        · have apart : n ≠ x := (List.nodup_append.mp nodup).2.2 n before x
            (List.mem_singleton_self x)
          exact qs.nextPointer_setElement_of_ne x _ apart
        · exact (qs.nextPointer_setElement_of_ne x _ other).trans prepared.next
      nodup := by
        refine List.nodup_append.mpr ⟨sound.nodup, List.nodup_singleton _, ?_⟩
        intro n before m single same
        rw [List.mem_singleton.mp single] at same
        exact outside (same ▸ before)
      head := ⟨d, rest ++ [qe], by rw [QueueGhost.link, headed, List.cons_append], points⟩
      tail := ⟨y, List.mem_append_left _ inside, atTail⟩
      unowned := by
        intro n inside
        show Function.update g.list.owner qe none n = none
        rcases List.mem_append.mp inside with before | single
        · have apart : n ≠ qe := fun same => outside (same ▸ before)
          rw [Function.update_of_ne apart]
          exact sound.unowned n before
        · rw [List.mem_singleton.mp single, Function.update_self]
      apart := by
        intro n inside r isFree
        rcases List.mem_append.mp inside with before | single
        · exact sound.apart n before r isFree
        · rw [List.mem_singleton.mp single]
          exact away r isFree
      complete := by
        intro n seen
        by_cases same : n = qe
        · exact .inr (.inl (List.mem_append_right _ (List.mem_singleton.mpr same)))
        · rcases sound.complete n (seen.resolve_right same) with isFree | before | ⟨t', owned⟩
          · exact .inl isFree
          · exact .inr (.inl (List.mem_append_left _ before))
          · refine .inr (.inr ⟨t', ?_⟩)
            show Function.update g.list.owner qe none n = some t'
            rw [Function.update_of_ne same, owned]
      fe := by
        intro n inside
        rw [qs.fe_setNext]
        rcases List.mem_append.mp inside with before | single
        · exact sound.fe n before
        · rw [List.mem_singleton.mp single]
          exact prepared.fe
      items := by
        show g.spec.items ++ [userData] = (g.queue ++ [qe]).tail.map _
        rw [sound.items, headed]
        simp [prepared.userData]
      vacant := sound.vacant
      seenQueue := by
        intro n inside
        rcases List.mem_append.mp inside with before | single
        · exact .inl (sound.seenQueue n before)
        · exact .inr (List.mem_singleton.mp single)
      seenFree := by
        intro r isFree seen
        have apart : r.1 ≠ x := sound.apart x mem r isFree
        rw [QueueState.setNext, qs.nextPointer_setElement_of_ne x _ apart]
        rcases seen with before | same
        · exact sound.seenFree r isFree before
        · exact absurd same (away r isFree) }

/-- Linking is nothing to the others: it writes to the last element only, and takes none
of theirs. -/
theorem QueueState.Sound.link_rely {userData : α} {x qe : ν} {counter : ℕ} (sound : qs.Sound g)
    (own : g.list.owner qe = some t) (mem : x ∈ g.queue) (ends : qs.nextPointer x = none)
    (other : t' ≠ t) :
    QueueRely t' qs g (qs.setNext x ⟨some qe, counter⟩) (g.link t userData qe) := by
  refine { QueueRely.refl t' qs g with
    list := ?_, ownElement := ?_, next := ?_, userData := ?_, grows := ?_, seen := ?_,
    phase := ?_ }
  · refine FreelistRely.setOwner ?_ (by simp)
    rw [own]
    exact fun same => other (Option.some.inj same).symm
  · intro n own'
    refine qs.setElement_of_ne x _ ?_
    rintro rfl
    rw [sound.unowned n mem] at own'
    cases own'
  · intro n inside _ y found
    have apart : n ≠ x := by
      rintro rfl
      rw [ends] at found
      cases found
    rw [QueueState.setNext, qs.nextPointer_setElement_of_ne x _ apart]
    exact found
  · intro n _ _
    exact qs.userData_setNext x _ n
  · intro _ n inside
    exact List.mem_append_left _ inside
  · exact fun n before => .inl before
  · exact Function.update_of_ne other _ g.spec.phase

/-! ## Moving `dequeue` -/

/-- The ghost when `dequeue` has moved to the next element. -/
def QueueGhost.advance (g : QueueGhost ι ν α) (t : ι) (userData : α) (d y : ν) (rest : List ν)
    (items : List α) : QueueGhost ι ν α where
  list := g.list.setOwner d (some t)
  queue := y :: rest
  seen := g.seen
  spec := { g.spec.setPhase t (.taken userData) with items := items }

/-- **Moving `dequeue` to the next element** takes that element's value out, and leaves
the old dummy to the thread. -/
theorem QueueState.Sound.advance {d y : ν} {rest : List ν} {counter : ℕ} (sound : qs.Sound g)
    (split : g.queue = d :: y :: rest) (atHead : qs.dequeue.pointer = some d)
    (ahead : qs.enqueue.pointer ≠ qs.dequeue.pointer) :
    { qs with dequeue := ⟨some y, counter⟩ }.Sound (g.advance t (qs.element y).userData d y rest
      (rest.map fun n => (qs.element n).userData)) := by
  obtain ⟨x, inside, atTail⟩ := sound.tail
  have nodup := sound.nodup
  have threaded := sound.threaded
  have unowned := sound.unowned
  have apart := sound.apart
  have seen := sound.seenQueue
  have fe := sound.fe
  rw [split] at inside nodup threaded unowned apart seen fe
  have away : ∀ r ∈ g.list.free, r.1 ≠ d := apart d List.mem_cons_self
  have others : ∀ n ∈ y :: rest, n ≠ d := by
    rintro n mem rfl
    exact (List.nodup_cons.mp nodup).1 mem
  exact
    { list := sound.list.setOwner away _
      threaded := threaded.2
      nodup := (List.nodup_cons.mp nodup).2
      head := ⟨y, rest, rfl, rfl⟩
      tail := by
        refine ⟨x, ?_, atTail⟩
        rcases List.mem_cons.mp inside with rfl | mem
        · exact absurd (atTail.trans atHead.symm) ahead
        · exact mem
      unowned := by
        intro n mem
        show Function.update g.list.owner d (some t) n = none
        rw [Function.update_of_ne (others n mem)]
        exact unowned n (List.mem_cons_of_mem _ mem)
      apart := fun n mem => apart n (List.mem_cons_of_mem _ mem)
      complete := by
        intro n before
        have setOwner : ∀ m, (g.list.setOwner d (some t)).owner m =
          Function.update g.list.owner d (some t) m := fun _ => rfl
        by_cases same : n = d
        · exact .inr (.inr ⟨t, by rw [QueueGhost.advance, setOwner, same, Function.update_self]⟩)
        · rcases sound.complete n before with isFree | mem | ⟨t', owned⟩
          · exact .inl isFree
          · rw [split] at mem
            exact .inr (.inl ((List.mem_cons.mp mem).resolve_left same))
          · refine .inr (.inr ⟨t', ?_⟩)
            rw [QueueGhost.advance, setOwner, Function.update_of_ne same, owned]
      fe := fun n mem => fe n (List.mem_cons_of_mem _ mem)
      items := rfl
      vacant := sound.vacant
      seenQueue := fun n mem => seen n (List.mem_cons_of_mem _ mem)
      seenFree := sound.seenFree }

/-- Moving `dequeue` is nothing to the others: its counter grows. -/
theorem QueueState.Sound.advance_rely {userData : α} {d y : ν} {rest : List ν} {items : List α}
    {counter : ℕ} (sound : qs.Sound g) (split : g.queue = d :: y :: rest)
    (later : qs.dequeue.counter < counter) (other : t' ≠ t) :
    QueueRely t' qs g { qs with dequeue := ⟨some y, counter⟩ }
      (g.advance t userData d y rest items) := by
  have unmoved : (⟨some y, counter⟩ : Pac ν) ≠ qs.dequeue := by
    intro same
    rw [← same] at later
    exact lt_irrefl _ later
  refine { QueueRely.refl t' qs g with
    list := ?_, dequeue := ⟨later.le, ?_⟩, next := ?_, userData := ?_, grows := ?_, ahead := ?_,
    phase := ?_ }
  · refine FreelistRely.setOwner ?_ fun same => other (Option.some.inj same).symm
    rw [sound.unowned d (by rw [split]; exact List.mem_cons_self)]
    simp
  · intro same
    have same : counter = qs.dequeue.counter := same
    omega
  · exact fun n _ _ z found => found
  · exact fun n _ _ => rfl
  · exact fun same => absurd same unmoved
  · exact fun same => absurd same unmoved
  · exact Function.update_of_ne other _ g.spec.phase

end Kept

end Jacks
