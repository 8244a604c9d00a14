import Jacks.QueueProgress

/-!
# Some call always returns

The queue is lock-free: whatever the threads do, after so many steps one of their calls
has returned (`lockFreeQueue_lock_free`).

A swap that succeeds spoils the attempts of the other threads, but it also gets a call
closer to its end (`QueuePc.stage`) or `enqueue` closer to the last element; and between
two such swaps every attempt either began after the first, and comes to a swap, or
notices that it is spoilt and begins afresh (`QueuePc.left`).  So a step that is not the
return of a call does one or the other (`Onward`), and a bound on the number of steps goes
down.
-/

namespace Jacks

open Foundations

universe u v w

/-- The observation is that of a call that returns. -/
def Foundations.FifoObs.returns {ι : Type w} {α : Type v} : FifoObs ι α → Bool
  | .accepted _ _ | .refused _ _ | .returned _ _ | .foundEmpty _ => true
  | _ => false

/-! ## What is left of an attempt -/

/-- What the attempts of the threads depend on: the top of the free list, both ends of the
queue, and `next` of the elements they point to. -/
structure QueueView (ν : Type u) where
  top : Pac ν
  enqueue : Pac ν
  dequeue : Pac ν
  tailNext : Option (Pac ν)
  headNext : Option (Pac ν)

section Left

variable {ν : Type u} {α : Type v}

def QueueState.view (qs : QueueState ν α) : QueueView ν where
  top := qs.fs.top
  enqueue := qs.enqueue
  dequeue := qs.dequeue
  tailNext := qs.enqueue.pointer.map fun x => (qs.element x).next
  headNext := qs.dequeue.pointer.map fun d => (qs.element d).next

variable [DecidableEq ν]

omit [DecidableEq ν] in
/-- The accesses up to the swap of an attempt, and if it is spoilt, those of the next one
as well. -/
def toSwap (again rest : ℕ) (fresh : Prop) [Decidable fresh] : ℕ :=
  if fresh then rest else again + rest

/-- In `freelist_pop`. -/
def PopPc.left (top : Pac ν) : PopPc ν → ℕ
  | .readCounter => 5
  | .readPointer counter => toSwap 3 4 (counter = top.counter)
  | .readNextPointer fe counter => toSwap 3 3 (⟨some fe, counter⟩ = top)
  | .readNextCounter fe counter _ => toSwap 3 2 (⟨some fe, counter⟩ = top)
  | .dcas fe counter _ => toSwap 3 1 (⟨some fe, counter⟩ = top)

/-- In `freelist_push`. -/
def PushPc.left (top : Pac ν) : PushPc ν → ℕ
  | .increment => 6
  | .readPointer _ => 5
  | .readCounter _ pointer => toSwap 3 4 (pointer = top.pointer)
  | .writePointer _ original => toSwap 3 3 (original = top)
  | .writeCounter _ original => toSwap 3 2 (original = top)
  | .dcas _ original => toSwap 3 1 (original = top)

/-- In `queue_internal_init_element`, and up to the first swap after it. -/
def InitPc.left : InitPc → ℕ
  | .drawCounter => 13
  | .clearNextPointer => 12
  | .drawNextCounter => 11
  | .writeNextCounter _ => 10
  | .writeFe => 9
  | .writeUserData => 8

/-- In `queue_internal_queue`. -/
def LinkPc.left (view : QueueView ν) : LinkPc ν → ℕ
  | .readPointer => 7
  | .readCounter pointer => toSwap 7 6 (pointer = view.enqueue.pointer)
  | .readNextPointer enqueue => toSwap 7 5 (enqueue = view.enqueue)
  | .readNextCounter enqueue next =>
      toSwap 7 4 (enqueue = view.enqueue ∧ view.tailNext.map Pac.pointer = some next)
  | .checkPointer enqueue next =>
      toSwap 7 3 (enqueue = view.enqueue ∧ view.tailNext = some next)
  | .checkCounter enqueue next =>
      toSwap 7 2 (enqueue = view.enqueue ∧ view.tailNext = some next)
  | .link enqueue next => toSwap 7 1 (enqueue = view.enqueue ∧ view.tailNext = some next)
  | .help enqueue _ => toSwap 7 1 (enqueue = view.enqueue)
  | .swing _ => 0

/-- In `queue_dequeue`. -/
def DequeuePc.left (view : QueueView ν) : DequeuePc ν α → ℕ
  | .readPointer => 10
  | .readCounter pointer => toSwap 10 9 (pointer = view.dequeue.pointer)
  | .readEnqueuePointer dequeue => toSwap 10 8 (dequeue = view.dequeue)
  | .readEnqueueCounter dequeue pointer =>
      toSwap 10 7 (dequeue = view.dequeue ∧ pointer = view.enqueue.pointer)
  | .readNextPointer dequeue enqueue =>
      toSwap 10 6 (dequeue = view.dequeue ∧ enqueue = view.enqueue)
  | .readNextCounter dequeue enqueue next =>
      toSwap 10 5 ((dequeue = view.dequeue ∧ enqueue = view.enqueue) ∧
        view.headNext.map Pac.pointer = some next)
  | .checkPointer dequeue enqueue next =>
      toSwap 10 4 ((dequeue = view.dequeue ∧ enqueue = view.enqueue) ∧
        view.headNext = some next)
  | .checkCounter dequeue enqueue next =>
      toSwap 10 3 ((dequeue = view.dequeue ∧ enqueue = view.enqueue) ∧
        view.headNext = some next)
  | .help enqueue _ => toSwap 10 1 (enqueue = view.enqueue)
  | .readUserData dequeue _ => toSwap 10 2 (dequeue = view.dequeue)
  | .advance dequeue _ _ => toSwap 10 1 (dequeue = view.dequeue)
  | .readFe _ _ => 7

/-- What is left of the attempt that a thread is in, while no swap succeeds. -/
def QueuePc.left (view : QueueView ν) : QueuePc ν α → ℕ
  | .idle | .fault => 0
  | .newElement _ pc => pc.left view.top
  | .initElement _ _ pc => pc.left
  | .internalQueue _ _ pc => pc.left view
  | .dequeue pc => pc.left view
  | .giveBack _ _ pc => pc.left view.top

omit [DecidableEq ν] in
/-- The swaps a thread has yet to make, with its next call if it is in none. -/
def QueuePc.stage : QueuePc ν α → ℕ
  | .idle => 3
  | .newElement _ _ => 2
  | .initElement _ _ _ => 1
  | .internalQueue _ _ (.swing _) => 0
  | .internalQueue _ _ _ => 1
  | .dequeue (.readFe _ _) => 0
  | .dequeue _ => 1
  | .giveBack _ _ _ => 0
  | .fault => 0

omit [DecidableEq ν] in
theorem toSwap_le {again rest n : ℕ} {fresh : Prop} [Decidable fresh] (le : again + rest ≤ n) :
    toSwap again rest fresh ≤ n := by
  unfold toSwap
  split_ifs <;> omega

omit [DecidableEq ν] in
/-- An access that spoils nothing brings the swap nearer. -/
theorem toSwap_lt {again rest rest' : ℕ} {fresh fresh' : Prop} [Decidable fresh]
    [Decidable fresh'] (keeps : fresh → fresh') (less : rest' < rest) :
    toSwap again rest' fresh' < toSwap again rest fresh := by
  unfold toSwap
  by_cases before : fresh
  · rw [if_pos before, if_pos (keeps before)]
    exact less
  · rw [if_neg before]
    split_ifs <;> omega

omit [DecidableEq ν] in
theorem toSwap_mono {again rest : ℕ} {fresh fresh' : Prop} [Decidable fresh]
    [Decidable fresh'] (keeps : fresh → fresh') :
    toSwap again rest fresh' ≤ toSwap again rest fresh := by
  unfold toSwap
  by_cases before : fresh
  · rw [if_pos before, if_pos (keeps before)]
  · rw [if_neg before]
    split_ifs <;> omega

omit [DecidableEq ν] in
theorem toSwap_of_fresh {again rest : ℕ} {fresh : Prop} [Decidable fresh] (holds : fresh) :
    toSwap again rest fresh = rest :=
  if_pos holds

omit [DecidableEq ν] in
theorem lt_toSwap_of_stale {again rest : ℕ} {fresh : Prop} [Decidable fresh] (stale : ¬ fresh)
    (some_rest : 0 < rest) : again < toSwap again rest fresh := by
  rw [toSwap, if_neg stale]
  omega

theorem QueuePc.left_le (view : QueueView ν) (pc : QueuePc ν α) : pc.left view ≤ 19 := by
  cases pc with
  | idle | fault => exact Nat.zero_le _
  | newElement _ pc | giveBack _ _ pc =>
      cases pc <;> first | exact toSwap_le (by decide) | simp [left, PopPc.left, PushPc.left]
  | initElement _ _ pc => cases pc <;> simp [left, InitPc.left]
  | internalQueue _ _ pc =>
      cases pc <;> first | exact toSwap_le (by decide) | simp [left, LinkPc.left]
  | dequeue pc => cases pc <;> first | exact toSwap_le (by decide) | simp [left, DequeuePc.left]

omit [DecidableEq ν] in
theorem QueuePc.stage_le (pc : QueuePc ν α) : pc.stage ≤ 3 := by
  cases pc with
  | internalQueue _ _ pc => cases pc <;> simp [stage]
  | dequeue pc => cases pc <;> simp [stage]
  | _ => simp [stage]

end Left

/-! ## One step -/

section Step

variable {ι : Type w} {ν : Type u} {α : Type v} [DecidableEq ν]
variable {t : ι} {qs qs' : QueueState ν α} {g : QueueGhost ι ν α} {o : Option (FifoObs ι α)}
variable {x : ν} {rest queue : List ν} {pc pc' : QueuePc ν α}

/-- What comes of a step that is not the return of a call. -/
inductive Onward (qs : QueueState ν α) (pc : QueuePc ν α) (rest : List ν) (qs' : QueueState ν α)
    (pc' : QueuePc ν α) : Prop
  /-- A swap succeeds, or a call begins or comes to nothing. -/
  | succeeds {x' rest'} (behind : qs'.Behind x' rest')
      (less : 2 * pc'.stage + rest'.length < 2 * pc.stage + rest.length)
  /-- The others see nothing of it. -/
  | goesOn {x' rest'} (behind : qs'.Behind x' rest') (lag : rest'.length = rest.length)
      (stage : pc'.stage = pc.stage) (view : qs'.view = qs.view)
      (less : pc'.left qs.view < pc.left qs.view)

/-- A step that only reads. -/
theorem Onward.reads (behind : qs.Behind x rest) (stage : pc'.stage = pc.stage)
    (less : pc'.left qs.view < pc.left qs.view) : Onward qs pc rest qs pc' :=
  .goesOn behind rfl stage rfl less

/-- A step in the free list that leaves the top as it is. -/
theorem Onward.list {fs : FreelistState ν} (behind : qs.Behind x rest) (top : fs.top = qs.fs.top)
    (stage : pc'.stage = pc.stage) (less : pc'.left qs.view < pc.left qs.view) :
    Onward qs pc rest { qs with fs := fs } pc' :=
  .goesOn ⟨behind.tail, behind.threaded⟩ rfl stage (by simp only [QueueState.view, top]) less

/-- A step that leaves `next` and `enqueue` as they are, of a thread that has one swap less
to make. -/
theorem Onward.advances (behind : qs.Behind x rest) (enqueue : qs'.enqueue = qs.enqueue)
    (element : qs'.element = qs.element) (less : pc'.stage < pc.stage) :
    Onward qs pc rest qs' pc' := by
  have unmoved : qs'.Behind x rest := by
    refine ⟨by rw [enqueue]; exact behind.tail, behind.threaded.congr fun n _ => ?_⟩
    rw [QueueState.nextPointer, element]
    rfl
  exact .succeeds unmoved (by omega)

/-- A step that moves `enqueue` on to the next element. -/
theorem Onward.helps {next enqueue : Pac ν} (behind : qs.Behind x rest)
    (current : qs.enqueue = enqueue) (read : TailRead qs enqueue next.pointer)
    (more : next.pointer ≠ none) (stage : pc'.stage = pc.stage) (counter : ℕ) :
    Onward qs pc rest { qs with enqueue := ⟨next.pointer, counter⟩ } pc' := by
  obtain ⟨y, found⟩ := Option.ne_none_iff_exists'.mp more
  subst current
  obtain ⟨x', points, leads⟩ := read.leads y found rfl
  obtain rfl : x = x' := Option.some.inj (behind.tail.symm.trans points)
  obtain ⟨rest', rfl⟩ := (queueLinks ν).exists_cons_of_entry queueLinks_proper
    queueLinks_injective (behind.threaded.1.symm.trans leads)
  have moved : ({ qs with enqueue := ⟨next.pointer, counter⟩ } : QueueState ν α).Behind y rest' :=
    ⟨found, behind.threaded.2⟩
  refine .succeeds moved ?_
  rw [stage, List.length_cons]
  omega

/-- A write to an own element is not seen. -/
theorem Onward.writes {fe : ν} {e : QueueElement ν α} (sound : qs.Sound g)
    (own : g.list.owner fe = some t) (behind : qs.Behind x rest)
    (inside : ∀ n ∈ x :: rest, n ∈ g.queue) (stage : pc'.stage = pc.stage)
    (less : pc'.left qs.view < pc.left qs.view) :
    Onward qs pc rest (qs.setElement fe e) pc' := by
  have outside : fe ∉ g.queue := by
    intro mem
    rw [sound.unowned fe mem] at own
    cases own
  refine .goesOn (behind.setElement fun mem => outside (inside fe mem)) rfl stage ?_ less
  have unwritten : ∀ p : Pac ν, (∀ n, p.pointer = some n → n ∈ g.queue) →
      p.pointer.map (fun n => ((qs.setElement fe e).element n).next) =
        p.pointer.map fun n => (qs.element n).next := by
    intro p mem
    cases points : p.pointer with
    | none => rfl
    | some n =>
        have other : n ≠ fe := fun same => outside (same ▸ mem n points)
        rw [Option.map_some, Option.map_some, QueueState.setElement_of_ne _ _ _ other]
  have tail := unwritten qs.enqueue fun n points => sound.tail_mem points
  have head := unwritten qs.dequeue fun n points => by
    obtain ⟨rest, split⟩ := sound.head_mem points
    rw [split]
    exact List.mem_cons_self
  show QueueView.mk _ _ _ _ _ = QueueView.mk _ _ _ _ _
  exact congrArg₂ (QueueView.mk _ _ _) tail head

/-- Moving `enqueue` on to the next element succeeds, or shows that it was moved before. -/
theorem Onward.swings {next enqueue : Pac ν} (behind : qs.Behind x rest)
    (read : TailRead qs enqueue next.pointer) (more : next.pointer ≠ none)
    (stage : pc'.stage = pc.stage)
    (less : ¬ enqueue = qs.enqueue → pc'.left qs.view < pc.left qs.view) :
    Onward qs pc rest (qs.swing enqueue next.pointer) pc' := by
  by_cases current : qs.enqueue = enqueue
  · rw [QueueState.swing_of_eq current]
    exact .helps behind current read more stage (counterPlusOne enqueue.counter)
  · rw [QueueState.swing_of_ne current]
    exact .reads behind stage (less (Ne.symm current))

theorem onward_popGoesOn {userData : α} {pc pc' : PopPc ν} {fs : FreelistState ν}
    (behind : qs.Behind x rest) (moves : qs.fs.popStep pc = (fs, .goesOn pc')) :
    Onward qs (.newElement userData pc) rest { qs with fs := fs } (.newElement userData pc') := by
  -- the head of the loop
  have loop : ∀ feLocal : Pac ν, (qs.fs, FreelistState.popLoop feLocal) = (fs, .goesOn pc') →
      feLocal.pointer = qs.fs.top.pointer →
      toSwap 3 3 (feLocal.counter = qs.fs.top.counter) < pc.left qs.fs.top →
      Onward qs (.newElement userData pc) rest { qs with fs := fs }
        (.newElement userData pc') := by
    intro feLocal reads pointer less
    obtain ⟨rfl, goesOn⟩ := Prod.mk.inj reads
    obtain ⟨fe, points, rfl⟩ := popLoop_goesOn goesOn
    exact .reads behind rfl (lt_of_le_of_lt
      (toSwap_mono fun fresh => Pac.ext (points.symm.trans pointer) fresh) less)
  cases pc with
  | readCounter =>
      cases moves
      exact .reads behind rfl (by simp [QueuePc.left, PopPc.left, toSwap, QueueState.view])
  | readPointer counter => exact loop ⟨_, counter⟩ moves rfl (toSwap_lt id (by decide))
  | readNextPointer | readNextCounter =>
      cases moves
      exact .reads behind rfl (toSwap_lt id (by decide))
  | dcas fe counter next =>
      by_cases fresh : qs.fs.top = ⟨some fe, counter⟩
      · simp only [FreelistState.popStep, fresh, abstractionDcas_self] at moves
        cases moves
      · simp only [FreelistState.popStep, abstractionDcas_of_ne fresh] at moves
        refine loop qs.fs.top moves rfl ?_
        rw [toSwap_of_fresh rfl]
        exact lt_toSwap_of_stale (Ne.symm fresh) (by decide)

theorem onward_initGoesOn {userData : α} {fe : ν} {pc pc' : InitPc} (sound : qs.Sound g)
    (own : g.list.owner fe = some t) (behind : qs.Behind x rest)
    (inside : ∀ n ∈ x :: rest, n ∈ g.queue)
    (moves : qs.initStep userData fe pc = (qs', some pc')) :
    Onward qs (.initElement userData fe pc) rest qs' (.initElement userData fe pc') := by
  cases pc with
  | drawCounter | drawNextCounter =>
      cases moves
      exact .goesOn ⟨behind.tail, behind.threaded⟩ rfl rfl rfl (by simp [QueuePc.left, InitPc.left])
  | clearNextPointer | writeNextCounter | writeFe =>
      cases moves
      exact .writes sound own behind inside rfl (by simp [QueuePc.left, InitPc.left])
  | writeUserData => cases moves

theorem onward_initialised {userData : α} {fe : ν} {pc : InitPc} (sound : qs.Sound g)
    (own : g.list.owner fe = some t) (behind : qs.Behind x rest)
    (inside : ∀ n ∈ x :: rest, n ∈ g.queue)
    (moves : qs.initStep userData fe pc = (qs', none)) :
    Onward qs (.initElement userData fe pc) rest qs' (.internalQueue userData fe .readPointer) := by
  cases pc with
  | writeUserData =>
      cases moves
      exact .writes sound own behind inside rfl
        (by simp [QueuePc.left, InitPc.left, LinkPc.left])
  | _ => cases moves

theorem onward_pushGoesOn {userData : α} {fe : ν} {pc pc' : PushPc ν} {fs : FreelistState ν}
    (behind : qs.Behind x rest) (moves : qs.fs.pushStep fe pc = (fs, some pc')) :
    Onward qs (.giveBack userData fe pc) rest { qs with fs := fs } (.giveBack userData fe pc') := by
  cases pc with
  | increment =>
      cases moves
      exact .list behind rfl rfl (by simp [QueuePc.left, PushPc.left])
  | readPointer counter =>
      cases moves
      exact .list behind rfl rfl (by simp [QueuePc.left, PushPc.left, toSwap, QueueState.view])
  | readCounter counter pointer =>
      cases moves
      exact .list behind rfl rfl (toSwap_lt (fun same => Pac.ext same rfl) (by decide))
  | writePointer counter original | writeCounter counter original =>
      cases moves
      exact .list behind rfl rfl (toSwap_lt id (by decide))
  | dcas counter original =>
      by_cases fresh : qs.fs.top = original
      · simp only [FreelistState.pushStep, fresh, abstractionDcas_self] at moves
        cases moves
      · simp only [FreelistState.pushStep, abstractionDcas_of_ne fresh] at moves
        cases moves
        refine .reads behind rfl ?_
        show toSwap 3 3 (qs.fs.top = qs.fs.top) < toSwap 3 1 (original = qs.fs.top)
        rw [toSwap_of_fresh rfl]
        exact lt_toSwap_of_stale (Ne.symm fresh) (by decide)

theorem onward_linkReads {userData : α} {qe : ν} {pc pc' : LinkPc ν} (behind : qs.Behind x rest)
    (reads : LinkReads qs pc pc') :
    Onward qs (.internalQueue userData qe pc) rest qs (.internalQueue userData qe pc') := by
  have tailNext : qs.view.tailNext = some (qs.element x).next := by
    rw [QueueState.view, behind.tail]
    rfl
  cases reads with
  | readPointer =>
      exact .reads behind rfl (by simp [QueuePc.left, LinkPc.left, toSwap, QueueState.view])
  | readCounter =>
      exact .reads behind rfl (toSwap_lt (fun same => Pac.ext same rfl) (by decide))
  | @readNextPointer enqueue y points =>
      refine .reads behind rfl (toSwap_lt ?_ (by decide))
      rintro rfl
      obtain rfl : x = y := Option.some.inj (behind.tail.symm.trans points)
      exact ⟨rfl, by rw [tailNext]; rfl⟩
  | @readNextCounter enqueue next y points =>
      refine .reads behind rfl (toSwap_lt ?_ (by decide))
      rintro ⟨rfl, same⟩
      obtain rfl : x = y := Option.some.inj (behind.tail.symm.trans points)
      rw [tailNext] at same ⊢
      exact ⟨rfl, congrArg some (Pac.ext (Option.some.inj same) rfl)⟩
  | checkPointer | last => exact .reads behind rfl (toSwap_lt id (by decide))
  | notLast => exact .reads behind rfl (toSwap_lt And.left (by decide))
  | pointerMoved moved | counterMoved moved =>
      refine .reads behind rfl (lt_toSwap_of_stale ?_ (by decide))
      rintro ⟨rfl, -⟩
      exact moved rfl
  | @linkFails enqueue next y points stale =>
      refine .reads behind rfl (lt_toSwap_of_stale ?_ (by decide))
      rintro ⟨rfl, fresh⟩
      obtain rfl : x = y := Option.some.inj (behind.tail.symm.trans points)
      rw [tailNext] at fresh
      exact stale (Option.some.inj fresh)

/-- The element goes behind the last one. -/
theorem onward_links [DecidableEq ι] {userData : α} {qe y : ν} {enqueue next : Pac ν}
    (sound : qs.Sound g)
    (here : QueueHere t qs g (.internalQueue userData qe (.link enqueue next)))
    (behind : qs.Behind x rest) (same : (qs.element y).next = next) (inside : y ∈ g.queue) :
    Onward qs (.internalQueue userData qe (.link enqueue next)) rest
      (qs.setNext y ⟨some qe, counterPlusOne next.counter⟩)
      (.internalQueue userData qe (.swing enqueue)) := by
  obtain ⟨prepared, -, isNull⟩ := here.read
  have own : g.list.owner qe = some t := (here.owner qe).mpr rfl
  have ends : qs.nextPointer y = none := by rw [QueueState.nextPointer, same, isNull]
  obtain ⟨front, split⟩ := sound.split_of_behind behind
  have linked : (qs.setNext y ⟨some qe, counterPlusOne next.counter⟩).Sound
      (g.link t userData qe) := sound.link own prepared inside ends
  have threaded : (queueLinks ν).Threaded _ (g.queue ++ [qe]) := linked.threaded
  rw [split, List.append_assoc] at threaded
  have longer : (qs.setNext y ⟨some qe, counterPlusOne next.counter⟩).Behind x
      (rest ++ [qe]) := ⟨behind.tail, threaded.suffix⟩
  refine .succeeds longer ?_
  rw [List.length_append, List.length_singleton]
  simp only [QueuePc.stage]
  omega

theorem onward_headReads {pc pc' : DequeuePc ν α} (sound : qs.Sound g)
    (behind : qs.Behind x rest) (reads : HeadReads qs pc pc') :
    Onward qs (.dequeue pc) rest qs (.dequeue pc') := by
  obtain ⟨d, front, -, atHead⟩ := sound.head
  have headNext : qs.view.headNext = some (qs.element d).next := by
    rw [QueueState.view, atHead]
    rfl
  cases reads with
  | readPointer =>
      exact .reads behind rfl (by simp [QueuePc.left, DequeuePc.left, toSwap, QueueState.view])
  | readCounter =>
      exact .reads behind rfl (toSwap_lt (fun same => Pac.ext same rfl) (by decide))
  | readEnqueuePointer =>
      exact .reads behind rfl (toSwap_lt (fun same => ⟨same, rfl⟩) (by decide))
  | readEnqueueCounter =>
      exact .reads behind rfl
        (toSwap_lt (fun ⟨same, tail⟩ => ⟨same, Pac.ext tail rfl⟩) (by decide))
  | @readNextPointer dequeue enqueue y points =>
      refine .reads behind rfl (toSwap_lt ?_ (by decide))
      rintro ⟨rfl, tail⟩
      obtain rfl : d = y := Option.some.inj (atHead.symm.trans points)
      exact ⟨⟨rfl, tail⟩, by rw [headNext]; rfl⟩
  | @readNextCounter dequeue enqueue next y points =>
      refine .reads behind rfl (toSwap_lt ?_ (by decide))
      rintro ⟨⟨rfl, tail⟩, same⟩
      obtain rfl : d = y := Option.some.inj (atHead.symm.trans points)
      rw [headNext] at same ⊢
      exact ⟨⟨rfl, tail⟩, congrArg some (Pac.ext (Option.some.inj same) rfl)⟩
  | checkPointer | readUserData => exact .reads behind rfl (toSwap_lt id (by decide))
  | outOfPlace => exact .reads behind rfl (toSwap_lt (fun fresh => fresh.1.2) (by decide))
  | attempt => exact .reads behind rfl (toSwap_lt (fun fresh => fresh.1.1) (by decide))
  | pointerMoved moved | counterMoved moved =>
      refine .reads behind rfl (lt_toSwap_of_stale ?_ (by decide))
      rintro ⟨⟨rfl, -⟩, -⟩
      exact moved rfl
  | advanceFails stale =>
      exact .reads behind rfl (lt_toSwap_of_stale (Ne.symm stale) (by decide))

/-- **A step that is not the return of a call** succeeds with a swap, or brings the next one
nearer. -/
theorem onward [DecidableEq ι] {s : Threads ι (QueueState ν α) (QueuePc ν α)} {a : QueueAct α}
    (sound : s.mem.Sound g) (here : ∀ t, QueueHere t s.mem g (s.pc t))
    (notStale : ¬ StaleLink s t) (behind : s.mem.Behind x rest)
    (taken : QueueState.advance t s.mem (s.pc t) a = some (qs', pc', o))
    (goes : ∀ x ∈ o, x.returns = false) : Onward s.mem (s.pc t) rest qs' pc' := by
  have own := here t
  have inside : ∀ n ∈ x :: rest, n ∈ g.queue := by
    obtain ⟨front, split⟩ := sound.split_of_behind behind
    intro n mem
    rw [split]
    exact List.mem_append_right _ mem
  have step := QueueState.step_of_advance taken
  generalize at_pc : s.pc t = pc at own step
  cases step with
  | callEnqueue | callDequeue | popped | takes =>
      exact .advances behind rfl rfl (by simp [QueuePc.stage])
  | popGoesOn moves => exact onward_popGoesOn behind moves
  | initGoesOn moves =>
      exact onward_initGoesOn sound ((own.owner _).mpr rfl) behind inside moves
  | initialised moves =>
      exact onward_initialised sound ((own.owner _).mpr rfl) behind inside moves
  | linkReads reads => exact onward_linkReads behind reads
  | @links userData qe enqueue next y points same =>
      refine onward_links sound own behind same ?_
      by_contra outside
      exact notStale ((staleLink_iff sound here at_pc points same).mpr outside)
  | linkHelps =>
      exact .swings behind own.read.2.1 own.read.2.2 rfl
        fun stale => lt_toSwap_of_stale stale (by decide)
  | headReads reads => exact onward_headReads sound behind reads
  | headHelps =>
      exact .swings behind own.read.1 own.read.2 rfl
        fun stale => lt_toSwap_of_stale stale (by decide)
  | readFe => exact .reads behind rfl (by simp [QueuePc.left, DequeuePc.left, PushPc.left])
  | pushGoesOn moves => exact onward_pushGoesOn behind moves
  | popRefused | accepts | returnsEmpty | pushed => cases goes _ rfl
  | faults null => exact absurd null own.not_followsNull

end Step

/-! ## All steps -/

section Runs

variable {ι : Type w} {ν : Type u} {α : Type v} [DecidableEq ι] [Fintype ι] [DecidableEq ν]

/-- A bound on the number of steps before a call returns, with `lag` elements behind
`enqueue`. -/
def callBound (s : Threads ι (QueueState ν α) (QueuePc ν α)) (lag : ℕ) : ℕ :=
  (19 * Fintype.card ι + 1) * (2 * totalAt s.pc QueuePc.stage + lag) +
    totalAt s.pc (QueuePc.left s.mem.view)

/-- Such a step takes the bound down. -/
theorem Onward.callBound_lt {s : Threads ι (QueueState ν α) (QueuePc ν α)} {t : ι}
    {rest : List ν} {qs' : QueueState ν α} {pc' : QueuePc ν α}
    (onward : Onward s.mem (s.pc t) rest qs' pc') :
    ∃ x' rest', qs'.Behind x' rest' ∧
      callBound { mem := qs', pc := Function.update s.pc t pc' } rest'.length <
        callBound s rest.length := by
  have stages := totalAt_update s.pc QueuePc.stage t pc'
  cases onward with
  | @succeeds x' rest' behind less =>
      refine ⟨x', rest', behind, ?_⟩
      have left : totalAt (Function.update s.pc t pc') (QueuePc.left qs'.view) ≤
          Fintype.card ι * 19 := totalAt_le (QueuePc.left_le _)
      have fewer : 2 * totalAt (Function.update s.pc t pc') QueuePc.stage + rest'.length + 1 ≤
          2 * totalAt s.pc QueuePc.stage + rest.length := by omega
      have scaled := Nat.mul_le_mul_left (19 * Fintype.card ι + 1) fewer
      unfold callBound
      rw [Nat.mul_add_one] at scaled
      show (19 * Fintype.card ι + 1) *
          (2 * totalAt (Function.update s.pc t pc') QueuePc.stage + rest'.length) +
        totalAt (Function.update s.pc t pc') (QueuePc.left qs'.view) < _
      omega
  | @goesOn x' rest' behind lag stage view less =>
      refine ⟨x', rest', behind, ?_⟩
      have lefts := totalAt_update s.pc (QueuePc.left s.mem.view) t pc'
      have same : totalAt (Function.update s.pc t pc') QueuePc.stage =
          totalAt s.pc QueuePc.stage := by omega
      unfold callBound
      show (_ * (2 * totalAt (Function.update s.pc t pc') _ + _) +
        totalAt (Function.update s.pc t pc') _) < _
      rw [view, same, lag]
      omega

omit [DecidableEq ι] in
theorem callBound_le (s : Threads ι (QueueState ν α) (QueuePc ν α)) {lag capacity : ℕ}
    (le : lag ≤ capacity) : callBound s lag ≤
      (19 * Fintype.card ι + 1) * (6 * Fintype.card ι + capacity) + 19 * Fintype.card ι := by
  have stages : totalAt s.pc QueuePc.stage ≤ Fintype.card ι * 3 := totalAt_le QueuePc.stage_le
  have lefts : totalAt s.pc (QueuePc.left s.mem.view) ≤ Fintype.card ι * 19 :=
    totalAt_le (QueuePc.left_le _)
  have scaled := Nat.mul_le_mul_left (19 * Fintype.card ι + 1)
    (show 2 * totalAt s.pc QueuePc.stage + lag ≤ 6 * Fintype.card ι + capacity by omega)
  unfold callBound
  omega

variable {malloced : QueueState ν α} {null : α} {elements : List ν} {capacity : ℕ}
variable {s s' : Threads ι (QueueState ν α) (QueuePc ν α)}
variable {history observed : List (FifoObs ι α)}

/-- **The queue is lock-free.**  Whatever the threads do, in whatever order, in any
sufficiently long run some call returns; how long depends only on the number of threads and
on the capacity. -/
theorem lockFreeQueue_lock_free (distinct : elements.Nodup)
    (count : elements.length = capacity + 1) (few : capacity + 1 < atomValues)
    (run : (lockFreeQueue ι malloced null elements).ReachesUnder Careful s history)
    {actions : List (ι × QueueAct α)}
    (careful : (lockFreeQueue ι malloced null elements).Along
      (fun s history a _ _ => Careful s history a) s history actions)
    (plays : (lockFreeQueue ι malloced null elements).exec s history actions =
      some (s', history ++ observed))
    (long : (19 * Fintype.card ι + 1) * (6 * Fintype.card ι + capacity) + 19 * Fintype.card ι <
      actions.length) :
    ∃ x ∈ observed, x.returns = true := by
  obtain ⟨g, described, reached⟩ := lockFreeQueue_refines distinct count few run
  obtain ⟨x, mem, tail⟩ := described.shared.tail
  obtain ⟨front, rest, split⟩ := List.append_of_mem mem
  have sound : s.mem.Sound g := described.shared
  have behind : s.mem.Behind x rest :=
    ⟨tail, Links.Threaded.suffix (split ▸ sound.threaded)⟩
  have lag : rest.length ≤ capacity := by
    have places : g.spec.vacant + g.spec.items.length + _ = capacity :=
      PlacedFifo.reaches_places reached
    have length : g.spec.items.length = (front ++ x :: rest).tail.length := by
      rw [sound.items, List.length_map, split]
    rw [List.length_tail, List.length_append, List.length_cons] at length
    omega
  refine TraceSystem.exists_marked_of_long
    (I := fun s _ n => ∃ g x rest, (queueOutline capacity).Describes s g ∧
      s.mem.Behind x rest ∧ callBound s rest.length ≤ n) ?_
    ⟨g, x, rest, described, behind, callBound_le s lag⟩ careful plays long
  rintro s history n ⟨t, a⟩ s' o ⟨g, x, rest, described, behind, bounded⟩ careful moves
  by_cases returns : ∃ x ∈ o, x.returns = true
  · exact .inl returns
  · obtain ⟨m, p, taken, rfl⟩ := Advance.of_next moves
    obtain ⟨g', described', -⟩ := described.step careful moves
    have goes : ∀ x ∈ o, x.returns = false := by
      intro x seen
      by_contra marked
      exact returns ⟨x, seen, by simpa using marked⟩
    obtain ⟨x', rest', behind', less⟩ :=
      (onward described.shared described.here careful.2 behind taken goes).callBound_lt
    exact .inr ⟨_, less.trans_le bounded, g', x', rest', described', behind', le_rfl⟩

/-- Both threads go on from where the second has overtaken the first, and then contend again
and again. -/
def contended : List (Bool × QueueAct ℕ) :=
  overtaking.drop 35 ++ (List.replicate 6 overtaking).flatten

theorem lockFreeQueue_lock_free_contended : ∃ s s' observed,
    twoPlaces.exec twoPlaces.init [] overtaken = some (s, overtakenHistory) ∧
      twoPlaces.exec s overtakenHistory contended = some (s', overtakenHistory ++ observed) ∧
      ∃ x ∈ observed, x.returns = true := by
  have played : (twoPlaces.exec twoPlaces.init [] overtaken).map Prod.snd =
      some overtakenHistory := by
    decide +kernel
  obtain ⟨s, plays, run⟩ :=
    twoPlaces.exists_reachesUnder Careful overtaken (by decide +kernel) played
  have runs : (twoPlaces.exec twoPlaces.init [] (overtaken ++ contended)).isSome = true := by
    decide +kernel
  have careful : twoPlaces.Along (fun s history a _ _ => Careful s history a) twoPlaces.init []
      (overtaken ++ contended) := by
    decide +kernel
  rw [TraceSystem.exec_append plays] at runs
  obtain ⟨⟨s', history⟩, goesOn⟩ := Option.isSome_iff_exists.mp runs
  obtain ⟨observed, rfl⟩ := TraceSystem.isPrefix_of_exec goesOn
  exact ⟨s, s', observed, plays, goesOn, lockFreeQueue_lock_free (by decide) rfl (by decide) run
    ((TraceSystem.along_append plays).mp careful).2 goesOn (by decide +kernel)⟩

end Runs

end Jacks
