import Jacks.QueueAlone
import Jacks.Foundations.LoopCheck

/-!
# Queries

What `freelist_query` and `queue_query` (`lfds/freelist_query.c`, `lfds/queue_query.c`) say
of the memory as it is: how many elements there are, and whether the linked lists of the
queue and of its free list are as they should be.

The check follows the list with two pointers first, so that the count after it comes to
its end; on any memory it says exactly what it claims to say (`queue_validate_exact`).  In
the states that the threads can reach it finds no loop, and counts the values inside and
the vacant places (`lockFreeQueue_validate`).

The bounds for the free list are got from those for the queue by subtraction, which comes
round where the caller allows more elements than there are places; then the free list of a
queue in good order is said to lack elements (`lockFreeQueue_accepted_iff`).
-/

namespace Jacks

open Foundations

universe u v w

/-! ## The source -/

/-- Subtraction of two `atom_t`s. -/
def atomSub (a b : ℕ) : ℕ := (a + atomValues - b) % atomValues

theorem atomSub_lt (a b : ℕ) : atomSub a b < atomValues := Nat.mod_lt _ (by decide)

theorem atomSub_of_le {a b : ℕ} (range : a < atomValues) (le : b ≤ a) : atomSub a b = a - b := by
  rw [atomSub, show a + atomValues - b = a - b + atomValues by omega, Nat.add_mod_right]
  exact Nat.mod_eq_of_lt (by omega)

/-- It comes round. -/
theorem atomSub_of_lt {a b : ℕ} (range : b < atomValues) (less : a < b) :
    atomSub a b = a + atomValues - b :=
  Nat.mod_eq_of_lt (by omega)

/-- `enum data_structure_validity`. -/
inductive DataStructureValidity
  | valid
  | invalidLoop
  | invalidMissingElements
  | invalidAdditionalElements
  | invalidTestData
  deriving DecidableEq

/-- `struct validation_info`, two `atom_t`s. -/
structure ValidationInfo where
  minElements : ℕ
  maxElements : ℕ
  minRange : minElements < atomValues
  maxRange : maxElements < atomValues

namespace ValidationInfo

/-- What is made of a count: of the two tests the second has the last word. -/
def check (vi : ValidationInfo) (elementCount : ℕ) : DataStructureValidity :=
  let validity :=
    if elementCount < vi.minElements then .invalidMissingElements else DataStructureValidity.valid
  if vi.maxElements < elementCount then .invalidAdditionalElements else validity

/-- The bounds for the free list, where the bounds for the queue are given. -/
def freelistVi (totalElements : ℕ) (vi : ValidationInfo) : ValidationInfo where
  minElements := atomSub totalElements vi.maxElements
  maxElements := atomSub totalElements vi.minElements
  minRange := atomSub_lt _ _
  maxRange := atomSub_lt _ _

theorem check_eq_valid_iff {vi : ValidationInfo} {elementCount : ℕ} :
    vi.check elementCount = .valid ↔
      vi.minElements ≤ elementCount ∧ elementCount ≤ vi.maxElements := by
  by_cases more : vi.maxElements < elementCount
  · simp only [check, if_pos more, reduceCtorEq, false_iff]
    omega
  · by_cases few : elementCount < vi.minElements
    · simp only [check, if_neg more, if_pos few, reduceCtorEq, false_iff]
      omega
    · simp only [check, if_neg more, if_neg few, true_iff]
      omega

theorem check_eq_invalidMissingElements_iff {vi : ValidationInfo} {elementCount : ℕ} :
    vi.check elementCount = .invalidMissingElements ↔
      elementCount < vi.minElements ∧ elementCount ≤ vi.maxElements := by
  by_cases more : vi.maxElements < elementCount
  · simp only [check, if_pos more, reduceCtorEq, false_iff]
    omega
  · by_cases few : elementCount < vi.minElements
    · simp only [check, if_neg more, if_pos few, true_iff]
      omega
    · simp only [check, if_neg more, if_neg few, reduceCtorEq, false_iff]
      omega

theorem check_ne_invalidLoop (vi : ValidationInfo) (elementCount : ℕ) :
    vi.check elementCount ≠ .invalidLoop := by
  by_cases more : vi.maxElements < elementCount
  · simp [check, more]
  · by_cases few : elementCount < vi.minElements
    · simp [check, more, few]
    · simp [check, more, few]

end ValidationInfo

/-- What is to be said of a list that ends, with or without bounds for its length. -/
def validityOf (vi : Option ValidationInfo) (elementCount : ℕ) : DataStructureValidity :=
  match vi with
  | none => .valid
  | some vi => vi.check elementCount

theorem validityOf_ne_invalidLoop (vi : Option ValidationInfo) (elementCount : ℕ) :
    validityOf vi elementCount ≠ .invalidLoop := by
  cases vi with
  | none => exact DataStructureValidity.noConfusion
  | some vi => exact vi.check_ne_invalidLoop elementCount

section Source

variable {ν : Type u} {α : Type v} [DecidableEq ν]

omit [DecidableEq ν] in
/-- The loop that counts, up to a number of rounds. -/
def countElements (next : ν → Option ν) : ℕ → Option ν → ℕ → Option ℕ
  | _, none, elementCount => some elementCount
  | 0, some _, _ => none
  | rounds + 1, some fe, elementCount =>
      countElements next rounds (next fe) ((elementCount + 1) % atomValues)

/-- `freelist_internal_validate`, and the same steps in `queue_internal_validate`: the list
from `first` on, of whose elements `hidden` do not count. -/
def internalValidate (next : ν → Option ν) (first : Option ν) (hidden : ℕ) (rounds : ℕ)
    (vi : Option ValidationInfo) : Option DataStructureValidity :=
  let ended :=
    match first with
    | none => some (none, none)
    | some fe => race next rounds fe (some fe)
  match ended with
  | none => none
  | some (slow, fast) =>
      if fast ≠ none ∧ slow ≠ none ∧ fast = slow then some .invalidLoop
      else
        match vi with
        | none => some .valid
        | some vi =>
            match countElements next rounds first 0 with
            | none => none
            | some elementCount => some (vi.check (atomSub elementCount hidden))

omit [DecidableEq ν] in
/-- The pointer to the element of the free list after one. -/
def FreelistState.nextPointer (fs : FreelistState ν) (fe : ν) : Option ν := (fs.next fe).pointer

/-- `freelist_internal_validate`. -/
def FreelistState.internalValidate (fs : FreelistState ν) (rounds : ℕ)
    (vi : Option ValidationInfo) : Option DataStructureValidity :=
  Jacks.internalValidate fs.nextPointer fs.top.pointer 0 rounds vi

/-- `queue_internal_validate`: of the queue, where the dummy does not count, and of its
free list. -/
def QueueState.internalValidate (qs : QueueState ν α) (rounds : ℕ)
    (vi : Option ValidationInfo) : Option (DataStructureValidity × DataStructureValidity) :=
  match Jacks.internalValidate qs.nextPointer qs.dequeue.pointer 1 rounds vi with
  | none => none
  | some queueValidity =>
      let totalElements := atomSub qs.fs.elementCount 1
      match qs.fs.internalValidate rounds (vi.map (·.freelistVi totalElements)) with
      | none => none
      | some freelistValidity => some (queueValidity, freelistValidity)

/-- What `queue_query` is asked. -/
inductive QueueQuery
  | elementCount
  | validate (vi : Option ValidationInfo)

/-- What it puts into `query_output`. -/
inductive QueueAnswer
  | elementCount (count : ℕ)
  | validity (queueValidity freelistValidity : DataStructureValidity)
  deriving DecidableEq

/-- `queue_query`. -/
def QueueState.query (qs : QueueState ν α) (rounds : ℕ) : QueueQuery → Option QueueAnswer
  | .elementCount => some (.elementCount qs.fs.elementCount)
  | .validate vi => (qs.internalValidate rounds vi).map fun r => .validity r.1 r.2

end Source

/-! ## Any memory -/

section Lists

variable {ν : Type u} {next : ν → Option ν} {first : Option ν} {rounds n hidden : ℕ}

/-- The count comes to its end, at the number of elements. -/
theorem countElements_of_endsAfter (endsAfter : EndsAfter next first n) (enough : n ≤ rounds)
    (elementCount : ℕ) :
    countElements next rounds first (elementCount % atomValues) =
      some ((elementCount + n) % atomValues) := by
  induction rounds generalizing first n elementCount with
  | zero =>
      obtain rfl := Nat.le_zero.mp enough
      rw [show first = none from endsAfter.ends]
      rfl
  | succ rounds ih =>
      cases entry : first with
      | none =>
          obtain rfl : n = 0 := by
            by_contra more
            exact endsAfter.goesOn 0 (Nat.pos_of_ne_zero more) entry
          rfl
      | some x =>
          obtain ⟨m, rfl, rest⟩ := endsAfter.tail entry
          rw [countElements, Nat.mod_add_mod, ih rest (by omega)]
          congr 2
          omega

variable [DecidableEq ν]

/-- Of a list that ends the check says what its length says. -/
theorem internalValidate_of_endsAfter (endsAfter : EndsAfter next first n) (enough : n ≤ rounds)
    (hidden : ℕ) (vi : Option ValidationInfo) :
    internalValidate next first hidden rounds vi =
      some (validityOf vi (atomSub (n % atomValues) hidden)) := by
  have counted := countElements_of_endsAfter endsAfter enough 0
  rw [Nat.zero_mod, Nat.zero_add] at counted
  cases entry : first with
  | none =>
      rw [entry] at counted
      cases vi with
      | none => simp [internalValidate, validityOf]
      | some vi => simp [internalValidate, validityOf, counted]
  | some x =>
      subst entry
      obtain ⟨fast, raced⟩ := endsAfter.race enough
      cases vi with
      | none => simp [internalValidate, validityOf, raced]
      | some vi => simp [internalValidate, validityOf, raced, counted]

/-- Of a list that does not end it says so. -/
theorem internalValidate_of_endless [Fintype ν] (endless : Endless next first)
    (enough : Fintype.card ν ≤ rounds) (hidden : ℕ) (vi : Option ValidationInfo) :
    internalValidate next first hidden rounds vi = some .invalidLoop := by
  cases entry : first with
  | none => exact absurd entry (endless 0)
  | some x =>
      subst entry
      obtain ⟨y, raced⟩ := endless.race enough
      simp [internalValidate, raced]

/-- **The check of one list is exact.** -/
theorem internalValidate_exact [Fintype ν] (next : ν → Option ν) (first : Option ν)
    (enough : Fintype.card ν ≤ rounds) (hidden : ℕ) (vi : Option ValidationInfo) :
    ∃ validity, internalValidate next first hidden rounds vi = some validity ∧
      (validity = .invalidLoop ↔ Endless next first) ∧
      ∀ n, EndsAfter next first n → validity = validityOf vi (atomSub (n % atomValues) hidden) := by
  have ofEnd : ∀ n, EndsAfter next first n → internalValidate next first hidden rounds vi =
      some (validityOf vi (atomSub (n % atomValues) hidden)) := fun n endsAfter =>
    internalValidate_of_endsAfter endsAfter (endsAfter.le_card.trans enough) hidden vi
  rcases endsAfter_or_endless next first with ⟨n, endsAfter⟩ | endless
  · refine ⟨_, ofEnd n endsAfter, ?_, fun m endsAfter' => ?_⟩
    · exact iff_of_false (validityOf_ne_invalidLoop vi _) endsAfter.not_endless
    · exact Option.some.inj ((ofEnd n endsAfter).symm.trans (ofEnd m endsAfter'))
  · refine ⟨_, internalValidate_of_endless endless enough hidden vi, iff_of_true rfl endless, ?_⟩
    intro n endsAfter
    exact absurd endless endsAfter.not_endless

end Lists

section Memory

variable {ν : Type u} {α : Type v} [DecidableEq ν]

/-- **What `queue_internal_validate` says is exact**, whatever is in memory: it comes to its
end, reports a loop exactly where a list does not end, and judges the others by their
number of elements. -/
theorem queue_validate_exact [Fintype ν] (qs : QueueState ν α) (vi : Option ValidationInfo)
    {rounds : ℕ} (enough : Fintype.card ν ≤ rounds) :
    ∃ queueValidity freelistValidity,
      qs.query rounds (.validate vi) = some (.validity queueValidity freelistValidity) ∧
      (queueValidity = .invalidLoop ↔ Endless qs.nextPointer qs.dequeue.pointer) ∧
      (freelistValidity = .invalidLoop ↔ Endless qs.fs.nextPointer qs.fs.top.pointer) ∧
      (∀ n, EndsAfter qs.nextPointer qs.dequeue.pointer n →
        queueValidity = validityOf vi (atomSub (n % atomValues) 1)) ∧
      ∀ n, EndsAfter qs.fs.nextPointer qs.fs.top.pointer n →
        freelistValidity =
          validityOf (vi.map (·.freelistVi (atomSub qs.fs.elementCount 1))) (n % atomValues) := by
  obtain ⟨queueValidity, ofQueue, queueLoop, queueCount⟩ :=
    internalValidate_exact qs.nextPointer qs.dequeue.pointer enough 1 vi
  obtain ⟨freelistValidity, ofList, listLoop, listCount⟩ :=
    internalValidate_exact qs.fs.nextPointer qs.fs.top.pointer enough 0
      (vi.map (·.freelistVi (atomSub qs.fs.elementCount 1)))
  refine ⟨queueValidity, freelistValidity, ?_, queueLoop, listLoop, queueCount, fun n ends => ?_⟩
  · simp only [QueueState.query, QueueState.internalValidate, ofQueue,
      FreelistState.internalValidate, ofList, Option.map_some]
  · rw [listCount n ends, atomSub_of_le (Nat.mod_lt _ (by decide)) (Nat.zero_le _), Nat.sub_zero]

/-- A queue whose first element leads back to itself, and an empty free list. -/
def loopedMemory : QueueState Bool ℕ where
  enqueue := ⟨some true, 0⟩
  dequeue := ⟨some true, 0⟩
  abaCounter := 0
  fs := { top := ⟨none, 0⟩, abaCounter := 0, elementCount := 2, next := fun _ => ⟨none, 0⟩ }
  element n := { next := ⟨some n, 0⟩, fe := n, userData := 0 }

theorem queue_validate_exact_looped :
    Endless loopedMemory.nextPointer loopedMemory.dequeue.pointer ∧
      loopedMemory.query 2 (.validate none) = some (.validity .invalidLoop .valid) := by
  have endless : Endless loopedMemory.nextPointer loopedMemory.dequeue.pointer :=
    endless_of_return (i := 0) (p := 1) rfl Nat.one_pos (Option.some_ne_none _)
  obtain ⟨queueValidity, freelistValidity, answers, loop, -, -, list⟩ :=
    queue_validate_exact loopedMemory none (show Fintype.card Bool ≤ 2 by decide)
  refine ⟨endless, ?_⟩
  rw [answers, loop.mpr endless, list 0 .nil]
  rfl

end Memory

/-! ## The states that are reached -/

section Spelt

variable {ν : Type u}

/-- A list that the memory spells ends after its elements. -/
theorem endsAfter_of_threaded {next : ν → Option ν} {cells : List ν}
    (threaded : (queueLinks ν).Threaded next cells) :
    EndsAfter next ((queueLinks ν).entry cells) cells.length := by
  induction cells with
  | nil => exact .nil
  | cons x rest ih =>
      obtain ⟨link, threaded⟩ := threaded
      refine .cons ?_
      rw [show next x = _ from link]
      exact ih threaded

/-- So does the free list, by its pointers. -/
theorem threaded_of_freeLinks {next : ν → Pac ν} {free : List (ν × ℕ)}
    (threaded : (freeLinks ν).Threaded next free) :
    (queueLinks ν).Threaded (fun fe => (next fe).pointer) (free.map Prod.fst) := by
  induction free with
  | nil => trivial
  | cons r rest ih =>
      obtain ⟨link, threaded⟩ := threaded
      refine ⟨?_, ih threaded⟩
      show (next r.1).pointer = _
      rw [show next r.1 = _ from link]
      cases rest <;> rfl

end Spelt

section Runs

variable {ι : Type w} {ν : Type u} {α : Type v} [DecidableEq ν]

theorem elementCount_popStep (fs : FreelistState ν) (pc : PopPc ν) :
    (fs.popStep pc).1.elementCount = fs.elementCount := by
  cases pc with
  | dcas =>
      simp only [FreelistState.popStep]
      split <;> rfl
  | _ => rfl

theorem elementCount_pushStep (fs : FreelistState ν) (fe : ν) (pc : PushPc ν) :
    (fs.pushStep fe pc).1.elementCount = fs.elementCount := by
  cases pc with
  | dcas =>
      simp only [FreelistState.pushStep]
      split <;> rfl
  | _ => rfl

theorem fs_initStep (qs : QueueState ν α) (userData : α) (fe : ν) (pc : InitPc) :
    (qs.initStep userData fe pc).1.fs = qs.fs := by
  cases pc <;> rfl

/-- No access changes the number of elements. -/
theorem elementCount_of_advance {t : ι} {qs qs' : QueueState ν α} {pc p : QueuePc ν α}
    {a : QueueAct α} {o : Option (FifoObs ι α)}
    (taken : QueueState.advance t qs pc a = some (qs', p, o)) :
    qs'.fs.elementCount = qs.fs.elementCount := by
  cases QueueState.step_of_advance taken with
  | @popGoesOn _ pc _ _ moves | @popRefused _ pc _ moves | @popped _ pc _ _ moves =>
      have kept := elementCount_popStep qs.fs pc
      rw [moves] at kept
      exact kept
  | @initGoesOn userData fe pc _ _ moves | @initialised userData fe pc _ moves =>
      have kept := fs_initStep qs userData fe pc
      rw [moves] at kept
      rw [kept]
  | @pushGoesOn _ fe pc _ _ moves | @pushed _ fe pc _ moves =>
      have kept := elementCount_pushStep qs.fs fe pc
      rw [moves] at kept
      exact kept
  | _ => rfl

omit [DecidableEq ν] in
theorem elementCount_pop (fs : FreelistState ν) : fs.pop.1.elementCount = fs.elementCount := by
  unfold FreelistState.pop
  split <;> rfl

theorem elementCount_newElement (qs : QueueState ν α) (userData : α) :
    (qs.newElement userData).1.fs.elementCount = qs.fs.elementCount := by
  have kept := elementCount_pop qs.fs
  unfold QueueState.newElement
  split <;> next step => rw [step] at kept; exact kept

variable [DecidableEq ι] {malloced : QueueState ν α} {null : α} {elements : List ν} {capacity : ℕ}
variable {s : Threads ι (QueueState ν α) (QueuePc ν α)} {history : List (FifoObs ι α)}

/-- All elements are counted, wherever they are. -/
theorem lockFreeQueue_elementCount (distinct : elements.Nodup)
    (few : elements.length < atomValues)
    (run : (lockFreeQueue ι malloced null elements).ReachesUnder Careful s history) :
    s.mem.fs.elementCount = elements.length := by
  refine run.induct (I := fun s _ => s.mem.fs.elementCount = elements.length) ?_ ?_
  · obtain ⟨-, -, -, -, -, counted⟩ := freelistNew_sound ι malloced.fs.next distinct few
    exact (elementCount_newElement _ null).trans counted
  · intro s history a s' o _ counted _ moves
    obtain ⟨m, p, taken, rfl⟩ := Advance.of_next (t := a.1) (a := a.2) moves
    exact (elementCount_of_advance taken).trans counted

omit [DecidableEq ι] in
/-- Of sound memory the check says how many values are inside and how many places are
vacant. -/
theorem QueueState.Sound.validate {qs : QueueState ν α} {g : QueueGhost ι ν α}
    (sound : qs.Sound g) (elementCount : qs.fs.elementCount = capacity + 1)
    (few : capacity + 1 < atomValues)
    (places : g.spec.items.length + g.list.free.length ≤ capacity) {rounds : ℕ}
    (enough : capacity < rounds) (vi : Option ValidationInfo) :
    qs.query rounds (.validate vi) =
      some (.validity (validityOf vi g.spec.items.length)
        (validityOf (vi.map (·.freelistVi capacity)) g.list.free.length)) := by
  obtain ⟨d, rest, split, points⟩ := sound.head
  have length : g.spec.items.length = rest.length := by
    rw [sound.items, split, List.tail_cons, List.length_map]
  have queueEnds : EndsAfter qs.nextPointer qs.dequeue.pointer (rest.length + 1) := by
    have ends := endsAfter_of_threaded sound.threaded
    rw [split] at ends
    rw [points]
    exact ends
  have listEnds : EndsAfter qs.fs.nextPointer qs.fs.top.pointer g.list.free.length := by
    have ends := endsAfter_of_threaded (threaded_of_freeLinks sound.list.threaded)
    rw [List.length_map] at ends
    rw [sound.list.top]
    cases free : g.list.free with
    | nil => rw [free] at ends; exact ends
    | cons r rest => rw [free] at ends; exact ends
  have total : atomSub qs.fs.elementCount 1 = capacity := by
    rw [elementCount, atomSub_of_le few (by omega), Nat.add_sub_cancel]
  have ofQueue := internalValidate_of_endsAfter queueEnds (by omega : _ ≤ rounds) 1 vi
  rw [Nat.mod_eq_of_lt (by omega), atomSub_of_le (by omega) (by omega), Nat.add_sub_cancel,
    ← length] at ofQueue
  have ofList := internalValidate_of_endsAfter listEnds (by omega : _ ≤ rounds) 0
    (vi.map (·.freelistVi capacity))
  rw [Nat.mod_eq_of_lt (by omega), atomSub_of_le (by omega) (by omega), Nat.sub_zero] at ofList
  simp only [QueueState.query, QueueState.internalValidate, ofQueue, total,
    FreelistState.internalValidate, ofList, Option.map_some]

/-- **In every state that is reached the check finds no loop**, and counts the values inside
and the vacant places; with those in the hands of calls under way these are all places. -/
theorem lockFreeQueue_validate [Fintype ι] (distinct : elements.Nodup)
    (count : elements.length = capacity + 1) (few : capacity + 1 < atomValues)
    (run : (lockFreeQueue ι malloced null elements).ReachesUnder Careful s history) :
    ∃ values vacant, s.mem.Holds values ∧
      values.length + vacant + countAt s.pc (fun pc => pc.held.isSome) = capacity ∧
      ∀ rounds > capacity,
        s.mem.query rounds .elementCount = some (.elementCount (capacity + 1)) ∧
        ∀ vi, s.mem.query rounds (.validate vi) =
          some (.validity (validityOf vi values.length)
            (validityOf (vi.map (·.freelistVi capacity)) vacant)) := by
  obtain ⟨g, described, reached⟩ := lockFreeQueue_refines distinct count few run
  have sound : s.mem.Sound g := described.shared
  have places := places_held described reached
  have elementCount : s.mem.fs.elementCount = capacity + 1 :=
    (lockFreeQueue_elementCount distinct (by omega) run).trans count
  refine ⟨g.spec.items, g.list.free.length, ⟨g.queue, sound.spells, sound.items.symm⟩, places, ?_⟩
  intro rounds enough
  refine ⟨?_, fun vi => sound.validate elementCount few (by omega) enough vi⟩
  rw [QueueState.query, elementCount]

/-- One value inside, one element in the hands of a call, and no place vacant. -/
theorem lockFreeQueue_validate_crowded : ∃ s,
    twoPlaces.exec twoPlaces.init [] crowded = some (s, crowdedHistory) ∧
      countAt s.pc (fun pc => pc.held.isSome) = 1 ∧ s.mem.Holds [8] ∧
      ∀ rounds > 2,
        s.mem.query rounds .elementCount = some (.elementCount 3) ∧
        ∀ vi, s.mem.query rounds (.validate vi) =
          some (.validity (validityOf vi 1) (validityOf (vi.map (·.freelistVi 2)) 0)) := by
  obtain ⟨s, plays, run⟩ := crowded_run
  have ends : (twoPlaces.exec twoPlaces.init [] crowded).map (fun r =>
      countAt r.1.pc fun pc => pc.held.isSome) = some 1 := by
    decide +kernel
  rw [plays] at ends
  have held : countAt s.pc (fun pc => pc.held.isSome) = 1 := Option.some.inj ends
  have inside : s.mem.Holds [8] := holds_of_reaches (by decide) rfl (by decide) run rfl
  obtain ⟨values, vacant, holds, (places : _ = 2), answers⟩ :=
    lockFreeQueue_validate (by decide) rfl (by decide) run
  obtain rfl : values = [8] := holds.unique inside
  rw [held, List.length_singleton] at places
  obtain rfl : vacant = 0 := by omega
  exact ⟨s, plays, held, inside, answers⟩

/-- The bounds for the free list are met where those for the queue are, unless the caller
allows more elements than there are places. -/
theorem freelistVi_check_iff {vi : ValidationInfo} {inside vacant : ℕ}
    (few : capacity < atomValues) (places : inside + vacant = capacity) :
    vi.check inside = .valid ∧ (vi.freelistVi capacity).check vacant = .valid ↔
      vi.minElements ≤ inside ∧ inside ≤ vi.maxElements ∧ vi.maxElements ≤ capacity := by
  rw [ValidationInfo.check_eq_valid_iff, ValidationInfo.check_eq_valid_iff]
  show _ ∧ atomSub capacity vi.maxElements ≤ vacant ∧ vacant ≤ atomSub capacity vi.minElements ↔ _
  by_cases fits : vi.maxElements ≤ capacity
  · rw [atomSub_of_le few fits]
    by_cases low : vi.minElements ≤ capacity
    · rw [atomSub_of_le few low]
      omega
    · omega
  · have range := vi.maxRange
    rw [atomSub_of_lt range (Nat.lt_of_not_le fits)]
    omega

/-- Where the queue is long enough, the free list is said to lack elements just when the
caller allows more elements than there are places. -/
theorem freelistVi_check_missing_iff {vi : ValidationInfo} {inside vacant : ℕ}
    (few : capacity < atomValues) (places : inside + vacant = capacity) :
    vi.check inside = .valid ∧ (vi.freelistVi capacity).check vacant = .invalidMissingElements ↔
      vi.minElements ≤ inside ∧ capacity < vi.maxElements := by
  rw [ValidationInfo.check_eq_valid_iff, ValidationInfo.check_eq_invalidMissingElements_iff]
  show _ ∧ vacant < atomSub capacity vi.maxElements ∧ vacant ≤ atomSub capacity vi.minElements ↔ _
  by_cases fits : vi.maxElements ≤ capacity
  · rw [atomSub_of_le few fits]
    omega
  · have range := vi.maxRange
    rw [atomSub_of_lt range (Nat.lt_of_not_le fits)]
    by_cases low : vi.minElements ≤ capacity
    · rw [atomSub_of_le few low]
      omega
    · omega

/-- **Which bounds a queue at rest is accepted with**: those that its length is within, and
that allow no more elements than there are places.  A caller that allows more is told that
the free list lacks elements. -/
theorem lockFreeQueue_accepted_iff [Fintype ι] (distinct : elements.Nodup)
    (count : elements.length = capacity + 1) (few : capacity + 1 < atomValues)
    (run : (lockFreeQueue ι malloced null elements).ReachesUnder Careful s history)
    (quiet : ∀ t, s.pc t = .idle) {values : List α} (inside : s.mem.Holds values)
    (vi : ValidationInfo) {rounds : ℕ} (enough : capacity < rounds) :
    (s.mem.query rounds (.validate (some vi)) = some (.validity .valid .valid) ↔
      vi.minElements ≤ values.length ∧ values.length ≤ vi.maxElements ∧
        vi.maxElements ≤ capacity) ∧
    (s.mem.query rounds (.validate (some vi)) =
        some (.validity .valid .invalidMissingElements) ↔
      vi.minElements ≤ values.length ∧ capacity < vi.maxElements) := by
  obtain ⟨g, described, reached⟩ := lockFreeQueue_refines distinct count few run
  have sound : s.mem.Sound g := described.shared
  have places := places_held described reached
  rw [held_of_quiet quiet, Nat.add_zero] at places
  have items : g.spec.items = values :=
    QueueState.Holds.unique ⟨g.queue, sound.spells, sound.items.symm⟩ inside
  have elementCount : s.mem.fs.elementCount = capacity + 1 :=
    (lockFreeQueue_elementCount distinct (by omega) run).trans count
  rw [sound.validate elementCount few places.le enough (some vi), items]
  rw [items] at places
  rw [← freelistVi_check_iff (by omega) places, ← freelistVi_check_missing_iff (by omega) places,
    Option.some.injEq, QueueAnswer.validity.injEq, Option.some.injEq, QueueAnswer.validity.injEq]
  exact ⟨Iff.rfl, Iff.rfl⟩

/-- Two values are inside: a caller that allows two elements is told that all is well, one
that allows three that the free list lacks elements. -/
theorem lockFreeQueue_accepted_iff_filled : ∃ s,
    twoPlaces.exec twoPlaces.init [] filled = some (s, filledHistory) ∧
      s.mem.query 3 (.validate (some ⟨1, 2, by decide, by decide⟩)) =
        some (.validity .valid .valid) ∧
      s.mem.query 3 (.validate (some ⟨1, 3, by decide, by decide⟩)) =
        some (.validity .valid .invalidMissingElements) := by
  obtain ⟨s, plays, run, quiet, -, inside⟩ := filled_run
  obtain ⟨accepted, -⟩ := lockFreeQueue_accepted_iff (by decide) rfl (by decide) run quiet
    inside ⟨1, 2, by decide, by decide⟩ (show 2 < 3 by decide)
  obtain ⟨-, missing⟩ := lockFreeQueue_accepted_iff (by decide) rfl (by decide) run quiet
    inside ⟨1, 3, by decide, by decide⟩ (show 2 < 3 by decide)
  exact ⟨s, plays, accepted.mpr (by decide), missing.mpr (by decide)⟩

end Runs

end Jacks
