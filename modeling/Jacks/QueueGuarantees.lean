import Jacks.QueueRefinement
import Mathlib.Logic.Relation

/-!
# What users of the lock-free queue get

The refinement, in the terms of the source: the elements that can be reached from
`dequeue`, the calls under way, the values handed over.

* `lockFreeQueue_linearizes` — calls take effect one at a time, as those of a bounded queue
  with places.
* `lockFreeQueue_conserves` — values come out once each, in the order they went in, and
  what is inside is what the memory spells.
* `lockFreeQueue_places` — a call is refused only when every place is occupied.
* `lockFreeQueue_foundEmpty` — a call returns empty-handed only if the queue was empty
  at some moment since it began.
* `lockFreeQueue_never_faults` — no null pointer is followed.
* `lockFreeQueue_links_iff` — every value that is reported to have gone in is in the
  queue, exactly in the runs without a stale swap; with one producer at a time there is
  none (`oneProducer_conserves`).
-/

namespace Jacks

open Foundations

universe u v w

section Memory

variable {ι : Type w} {ν : Type u} {α : Type v}

/-- The elements from `dequeue` on, the dummy first, as the memory spells them. -/
structure QueueState.Spells (qs : QueueState ν α) (queue : List ν) : Prop where
  head : ∃ d rest, queue = d :: rest ∧ qs.dequeue.pointer = some d
  threaded : (queueLinks ν).Threaded qs.nextPointer queue
  nodup : queue.Nodup
  /-- `enqueue` is not behind. -/
  tail : ∃ x ∈ queue, qs.enqueue.pointer = some x

/-- An element can be reached from `dequeue`. -/
def QueueState.Inside (qs : QueueState ν α) (n : ν) : Prop :=
  ∃ d, qs.dequeue.pointer = some d ∧
    Relation.ReflTransGen (fun a b => qs.nextPointer a = some b) d n

theorem QueueState.Sound.spells {qs : QueueState ν α} {g : QueueGhost ι ν α}
    (sound : qs.Sound g) : qs.Spells g.queue :=
  ⟨sound.head, sound.threaded, sound.nodup, sound.tail⟩

/-- What can be reached is what is spelt. -/
theorem QueueState.Spells.inside_iff {qs : QueueState ν α} {queue : List ν}
    (spells : qs.Spells queue) {n : ν} : qs.Inside n ↔ n ∈ queue := by
  obtain ⟨⟨d, rest, rfl, points⟩, threaded, -, -⟩ := spells
  constructor
  · rintro ⟨d', points', path⟩
    obtain rfl : d = d' := Option.some.inj (points.symm.trans points')
    induction path with
    | refl => exact List.mem_cons_self
    | @tail a b _ next ih =>
        obtain ⟨front, rest', split⟩ := List.append_of_mem ih
        rw [split] at threaded
        obtain ⟨rest'', rfl⟩ := (queueLinks ν).exists_cons_of_entry queueLinks_proper
          queueLinks_injective (threaded.link.symm.trans next)
        rw [split]
        simp
  · intro mem
    refine ⟨d, points, ?_⟩
    clear points
    induction rest generalizing d with
    | nil =>
        obtain rfl := List.mem_singleton.mp mem
        exact .refl
    | cons e rest ih =>
        rcases List.mem_cons.mp mem with rfl | mem
        · exact .refl
        · exact .head threaded.1 (ih e threaded.2 mem)

/-- The value a call of `queue_enqueue` has put in and not yet returned from. -/
def QueuePc.unreported : QueuePc ν α → List α
  | .internalQueue userData _ (.swing _) => [userData]
  | _ => []

/-- The value a call of `queue_dequeue` has taken out and not yet returned. -/
def QueuePc.inHand : QueuePc ν α → List α
  | .dequeue (.readFe _ userData) => [userData]
  | .giveBack userData _ _ => [userData]
  | _ => []

theorem PhaseHere.unreported {phase : FifoPhase α} {pc : QueuePc ν α}
    (here : PhaseHere phase pc) : phase.unreported = pc.unreported := by
  cases pc with
  | idle | newElement | initElement | giveBack =>
      rw [show phase = _ from here]
      rfl
  | internalQueue userData qe pc =>
      cases pc with
      | _ => rw [show phase = _ from here]; rfl
  | dequeue pc =>
      cases pc with
      | readFe => rw [show phase = _ from here]; rfl
      | _ => obtain ⟨sawEmpty, rfl⟩ := here; rfl
  | fault => exact absurd here id

theorem PhaseHere.inHand {phase : FifoPhase α} {pc : QueuePc ν α} (here : PhaseHere phase pc) :
    phase.inHand = pc.inHand := by
  cases pc with
  | idle | newElement | initElement | giveBack =>
      rw [show phase = _ from here]
      rfl
  | internalQueue userData qe pc =>
      cases pc with
      | _ => rw [show phase = _ from here]; rfl
  | dequeue pc =>
      cases pc with
      | readFe => rw [show phase = _ from here]; rfl
      | _ => obtain ⟨sawEmpty, rfl⟩ := here; rfl
  | fault => exact absurd here id

/-- The specification has a place for each element that a thread has to itself. -/
theorem QueueHere.holdsPlace {t : ι} {qs : QueueState ν α} {g : QueueGhost ι ν α}
    {pc : QueuePc ν α} (here : QueueHere t qs g pc) :
    (g.spec.phase t).holdsPlace = pc.held.isSome := by
  obtain ⟨-, phase, read⟩ := here
  cases pc with
  | idle | newElement | initElement | giveBack =>
      rw [show g.spec.phase t = _ from phase]
      rfl
  | internalQueue userData qe pc =>
      cases pc with
      | _ => rw [show g.spec.phase t = _ from phase]; rfl
  | dequeue pc =>
      cases pc with
      | readFe dequeue userData =>
          obtain ⟨d, points, -⟩ := read
          rw [show g.spec.phase t = _ from phase]
          show true = dequeue.pointer.isSome
          rw [points]
          rfl
      | _ =>
          obtain ⟨sawEmpty, same⟩ := phase
          rw [same]
          rfl
  | fault => exact absurd phase id

end Memory

section Runs

variable {ι : Type w} {ν : Type u} {α : Type v} [DecidableEq ι] [DecidableEq ν]
variable {malloced : QueueState ν α} {null : α} {elements : List ν} {capacity : ℕ}
variable {s : Threads ι (QueueState ν α) (QueuePc ν α)} {history : List (FifoObs ι α)}

/-- Each thread's calls have returned what they did, but for the value one is about to
return. -/
theorem lockFreeQueue_reports (distinct : elements.Nodup)
    (count : elements.length = capacity + 1) (few : capacity + 1 < atomValues)
    (run : (lockFreeQueue ι malloced null elements).ReachesUnder Careful s history) (t : ι) :
    PlacedFifo.appendedBy history t =
        PlacedFifo.acceptedBy history t ++ (s.pc t).unreported ∧
      PlacedFifo.takenBy history t = PlacedFifo.returnedBy history t ++ (s.pc t).inHand := by
  obtain ⟨g, described, reached⟩ := lockFreeQueue_refines distinct count few run
  obtain ⟨accepted, returned⟩ := PlacedFifo.reaches_reported reached t
  have phase := (described.here t).phase
  exact ⟨phase.unreported ▸ accepted, phase.inHand ▸ returned⟩

/-- The values inside are those that went in and have not come out, in this order, and the
memory spells them. -/
theorem lockFreeQueue_spells (distinct : elements.Nodup)
    (count : elements.length = capacity + 1) (few : capacity + 1 < atomValues)
    (run : (lockFreeQueue ι malloced null elements).ReachesUnder Careful s history) :
    ∃ queue, s.mem.Spells queue ∧ PlacedFifo.appended history = PlacedFifo.taken history ++
      queue.tail.map fun n => (s.mem.element n).userData := by
  obtain ⟨g, described, reached⟩ := lockFreeQueue_refines distinct count few run
  have conserved : PlacedFifo.appended history = _ := PlacedFifo.reaches_conserves reached
  exact ⟨g.queue, described.shared.spells, by rw [conserved, described.shared.items]⟩

/-! ## Runs

Two threads and two places.  In one run both put a value in, and the second overtakes the
first; a third value is refused; both take one out, and the second wins; then the queue is
empty (`overtaking`).  In another the second thread is about to be refused a place while
the first is still in its call (`crowded`). -/

/-- Memory as `malloc` may return it. -/
def blankMemory : QueueState (Fin 3) ℕ where
  enqueue := ⟨none, 0⟩
  dequeue := ⟨none, 0⟩
  abaCounter := 0
  fs := { top := ⟨none, 0⟩, abaCounter := 0, elementCount := 0, next := fun _ => ⟨none, 0⟩ }
  element n := { next := ⟨none, 0⟩, fe := n, userData := 0 }

def twoPlaces : TraceSystem (Threads Bool (QueueState (Fin 3) ℕ) (QueuePc (Fin 3) ℕ))
    (Bool × QueueAct ℕ) (FifoObs Bool ℕ) :=
  lockFreeQueue Bool blankMemory 0 [0, 1, 2]

def overtaking : List (Bool × QueueAct ℕ) :=
  List.flatten [
    (false, .enqueue 7) :: List.replicate 14 (false, .go),
    (true, .enqueue 8) :: List.replicate 19 (true, .go),
    List.replicate 10 (false, .go),
    [(false, .enqueue 9), (false, .go), (false, .go)],
    (false, .dequeue) :: List.replicate 9 (false, .go),
    (true, .dequeue) :: List.replicate 17 (true, .go),
    List.replicate 18 (false, .go),
    (false, .dequeue) :: List.replicate 8 (false, .go)]

/-- What is observed before the queue is found empty. -/
def overtakingHistory : List (FifoObs Bool ℕ) :=
  [.enqueues false 7, .enqueues true 8, .appended true 8, .accepted true 8, .appended false 7,
    .accepted false 7, .enqueues false 9, .refused false 9, .dequeues false, .dequeues true,
    .taken true 8, .returned true 8, .taken false 7, .returned false 7, .dequeues false]

theorem overtaking_run : ∃ s,
    twoPlaces.exec twoPlaces.init [] overtaking =
        some (s, overtakingHistory ++ [.foundEmpty false]) ∧
      twoPlaces.ReachesUnder Careful s (overtakingHistory ++ [.foundEmpty false]) :=
  twoPlaces.exists_reachesUnder _ overtaking (by decide +kernel) (by decide +kernel)

/-- One value is in the hands of the second thread, the other is still inside. -/
def emptying : List (Bool × QueueAct ℕ) := overtaking.take 72

def emptyingHistory : List (FifoObs Bool ℕ) := overtakingHistory.take 11

theorem emptying_run : ∃ s,
    twoPlaces.exec twoPlaces.init [] emptying = some (s, emptyingHistory) ∧
      twoPlaces.ReachesUnder Careful s emptyingHistory :=
  twoPlaces.exists_reachesUnder _ emptying (by decide +kernel) (by decide +kernel)

/-- The second thread has put its value in, the first has an element in its hands. -/
def overtaken : List (Bool × QueueAct ℕ) := overtaking.take 35

def overtakenHistory : List (FifoObs Bool ℕ) :=
  [.enqueues false 7, .enqueues true 8, .appended true 8, .accepted true 8]

/-- There the second thread asks for another place, and has read that there is none. -/
def crowded : List (Bool × QueueAct ℕ) :=
  overtaken ++ [(true, .enqueue 9), (true, .go)]

def crowdedHistory : List (FifoObs Bool ℕ) := overtakenHistory ++ [.enqueues true 9]

theorem crowded_run : ∃ s,
    twoPlaces.exec twoPlaces.init [] crowded = some (s, crowdedHistory) ∧
      twoPlaces.ReachesUnder Careful s crowdedHistory :=
  twoPlaces.exists_reachesUnder _ crowded (by decide +kernel) (by decide +kernel)

/-! ## The guarantees -/

/-- **Calls take effect one at a time.**  The history is one of a bounded queue with places;
the memory spells what is in it, and each thread is as far as it is there. -/
theorem lockFreeQueue_linearizes (distinct : elements.Nodup)
    (count : elements.length = capacity + 1) (few : capacity + 1 < atomValues)
    (run : (lockFreeQueue ι malloced null elements).ReachesUnder Careful s history) :
    ∃ q, (PlacedFifo.system ι α capacity).Reaches q history ∧
      (∃ queue, s.mem.Spells queue ∧
        q.items = queue.tail.map fun n => (s.mem.element n).userData) ∧
      ∀ t, PhaseHere (q.phase t) (s.pc t) := by
  obtain ⟨g, described, reached⟩ := lockFreeQueue_refines distinct count few run
  exact ⟨g.spec, reached, ⟨g.queue, described.shared.spells, described.shared.items⟩,
    fun t => (described.here t).phase⟩

theorem lockFreeQueue_linearizes_overtaking : ∃ s,
    twoPlaces.exec twoPlaces.init [] overtaking =
        some (s, overtakingHistory ++ [.foundEmpty false]) ∧
      ∃ q, (PlacedFifo.system Bool ℕ 2).Reaches q (overtakingHistory ++ [.foundEmpty false]) ∧
        (∃ queue, s.mem.Spells queue ∧
          q.items = queue.tail.map fun n => (s.mem.element n).userData) ∧
        ∀ t, PhaseHere (q.phase t) (s.pc t) := by
  obtain ⟨s, plays, run⟩ := overtaking_run
  exact ⟨s, plays, lockFreeQueue_linearizes (by decide) rfl (by decide) run⟩

/-- **No value is lost, doubled or overtaken.**  In every state the memory spells the
queue; the values that went in are those that came out followed by those inside, in this
order; and each thread's calls have returned what they did, but for the one it is
about to return. -/
theorem lockFreeQueue_conserves (distinct : elements.Nodup)
    (count : elements.length = capacity + 1) (few : capacity + 1 < atomValues)
    (run : (lockFreeQueue ι malloced null elements).ReachesUnder Careful s history) :
    (∃ queue, s.mem.Spells queue ∧
      PlacedFifo.appended history = PlacedFifo.taken history ++
        queue.tail.map fun n => (s.mem.element n).userData) ∧
    ∀ t, PlacedFifo.appendedBy history t =
        PlacedFifo.acceptedBy history t ++ (s.pc t).unreported ∧
      PlacedFifo.takenBy history t = PlacedFifo.returnedBy history t ++ (s.pc t).inHand :=
  ⟨lockFreeQueue_spells distinct count few run, lockFreeQueue_reports distinct count few run⟩

theorem lockFreeQueue_conserves_emptying : ∃ s,
    twoPlaces.exec twoPlaces.init [] emptying = some (s, emptyingHistory) ∧
      (∃ queue, s.mem.Spells queue ∧
        [8, 7] = [8] ++ queue.tail.map fun n => (s.mem.element n).userData) ∧
      ∀ t, PlacedFifo.appendedBy emptyingHistory t =
          PlacedFifo.acceptedBy emptyingHistory t ++ (s.pc t).unreported ∧
        PlacedFifo.takenBy emptyingHistory t =
          PlacedFifo.returnedBy emptyingHistory t ++ (s.pc t).inHand := by
  obtain ⟨s, plays, run⟩ := emptying_run
  exact ⟨s, plays, lockFreeQueue_conserves (by decide) rfl (by decide) run⟩

/-- **No null pointer is followed.** -/
theorem lockFreeQueue_never_faults (distinct : elements.Nodup)
    (count : elements.length = capacity + 1) (few : capacity + 1 < atomValues)
    (run : (lockFreeQueue ι malloced null elements).ReachesUnder Careful s history) (t : ι) :
    s.pc t ≠ .fault := by
  obtain ⟨g, described, -⟩ := lockFreeQueue_refines distinct count few run
  intro fault
  have phase := (described.here t).phase
  rw [fault] at phase
  exact phase

theorem lockFreeQueue_never_faults_emptying : ∃ s,
    twoPlaces.exec twoPlaces.init [] emptying = some (s, emptyingHistory) ∧
      s.pc true ≠ .fault := by
  obtain ⟨s, plays, run⟩ := emptying_run
  exact ⟨s, plays, lockFreeQueue_never_faults (by decide) rfl (by decide) run true⟩

/-- **A call returns empty-handed only if the queue was empty since it began.** -/
theorem lockFreeQueue_foundEmpty (distinct : elements.Nodup)
    (count : elements.length = capacity + 1) (few : capacity + 1 < atomValues)
    (run : (lockFreeQueue ι malloced null elements).ReachesUnder Careful s history)
    {earlier later : List (FifoObs ι α)} {t : ι}
    (split : history = earlier ++ .foundEmpty t :: later) : PlacedFifo.SawEmpty earlier t := by
  obtain ⟨g, -, reached⟩ := lockFreeQueue_refines distinct count few run
  exact PlacedFifo.sawEmpty_of_foundEmpty reached split

theorem lockFreeQueue_foundEmpty_overtaking : PlacedFifo.SawEmpty overtakingHistory false := by
  obtain ⟨s, -, run⟩ := overtaking_run
  exact lockFreeQueue_foundEmpty (by decide) rfl (by decide) run rfl

/-! ## Places -/

omit [DecidableEq ι] in
/-- A refusal is observed where the free list is empty. -/
theorem free_of_refused {t t' : ι} {qs qs' : QueueState ν α} {g : QueueGhost ι ν α}
    {pc p : QueuePc ν α} {a : QueueAct α} {userData : α} (sound : qs.Sound g)
    (here : QueueHere t qs g pc)
    (taken : QueueState.advance t qs pc a = some (qs', p, some (.refused t' userData))) :
    g.list.free = [] := by
  cases QueueState.step_of_advance taken with
  | popRefused moves => exact (free_of_popRefused sound here moves).2

/-- Each place is vacant, or that of a value inside, or that of an element in the hands of a
call. -/
theorem places_held [Fintype ι] {g : QueueGhost ι ν α}
    (described : (queueOutline capacity).Describes s g)
    (reached : (PlacedFifo.system ι α capacity).Reaches g.spec history) :
    g.spec.items.length + g.list.free.length + countAt s.pc (fun pc => pc.held.isSome) =
      capacity := by
  have places : g.spec.vacant + g.spec.items.length +
      countAt g.spec.phase FifoPhase.holdsPlace = capacity := PlacedFifo.reaches_places reached
  have holders : countAt g.spec.phase FifoPhase.holdsPlace =
      countAt s.pc (fun pc => pc.held.isSome) :=
    Finset.sum_congr rfl fun t _ => by rw [(described.here t).holdsPlace]
  have vacant : g.spec.vacant = g.list.free.length := described.shared.vacant
  omega

/-- **Places.**  The values inside and the calls that have an element in their hands are
never more than the places there are; and where a call is refused, they are as many. -/
theorem lockFreeQueue_places [Fintype ι] (distinct : elements.Nodup)
    (count : elements.length = capacity + 1) (few : capacity + 1 < atomValues)
    (run : (lockFreeQueue ι malloced null elements).ReachesUnder Careful s history) :
    (PlacedFifo.appended history).length + countAt s.pc (fun pc => pc.held.isSome) ≤
        (PlacedFifo.taken history).length + capacity ∧
    ∀ a s' t userData, (lockFreeQueue ι malloced null elements).next s a =
        some (s', some (.refused t userData)) →
      (PlacedFifo.appended history).length + countAt s.pc (fun pc => pc.held.isSome) =
        (PlacedFifo.taken history).length + capacity := by
  obtain ⟨g, described, reached⟩ := lockFreeQueue_refines distinct count few run
  have places := places_held described reached
  have conserved := (PlacedFifo.reaches_conserves reached).length
  refine ⟨by omega, fun a s' t userData moves => ?_⟩
  obtain ⟨m, p, taken, -⟩ := Advance.of_next (t := a.1) (a := a.2) moves
  have empty := free_of_refused described.shared (described.here a.1) taken
  have full : g.list.free.length = 0 := by rw [empty, List.length_nil]
  omega

/-- One value is inside, one element in the hands of the first thread. -/
theorem lockFreeQueue_places_crowded : ∃ s s',
    twoPlaces.exec twoPlaces.init [] crowded = some (s, crowdedHistory) ∧
      twoPlaces.next s (true, .go) = some (s', some (.refused true 9)) ∧
      1 + countAt s.pc (fun pc => pc.held.isSome) = 0 + 2 := by
  obtain ⟨s, plays, run⟩ := crowded_run
  have observed : (twoPlaces.exec twoPlaces.init [] crowded).map (fun r =>
      (twoPlaces.next r.1 (true, .go)).map Prod.snd) = some (some (some (.refused true 9))) := by
    decide +kernel
  rw [plays] at observed
  obtain ⟨⟨s', o⟩, refuses, rfl⟩ := Option.map_eq_some_iff.mp (Option.some.inj observed)
  obtain ⟨-, full⟩ := lockFreeQueue_places (by decide) rfl (by decide) run
  exact ⟨s, s', plays, refuses, full _ s' true 9 refuses⟩

/-! ## Stale links -/

omit [DecidableEq ι] in
/-- A value goes in where the swap on `next` is made. -/
theorem link_of_appended {t t' : ι} {qs qs' : QueueState ν α} {pc p : QueuePc ν α}
    {a : QueueAct α} {userData : α}
    (taken : QueueState.advance t qs pc a = some (qs', p, some (.appended t' userData))) :
    ∃ v qe enqueue next x, pc = .internalQueue v qe (.link enqueue next) ∧
      enqueue.pointer = some x ∧ (qs.element x).next = next ∧
      qs' = qs.setNext x ⟨some qe, counterPlusOne next.counter⟩ := by
  cases QueueState.step_of_advance taken with
  | links points same => exact ⟨_, _, _, _, _, rfl, points, same, rfl⟩

omit [DecidableEq ι] in
/-- Where a stale swap is made, a value is reported to have gone in. -/
theorem appended_of_staleLink {s : Threads ι (QueueState ν α) (QueuePc ν α)} {t : ι}
    {qs' : QueueState ν α} {p : QueuePc ν α} {a : QueueAct α} {o : Option (FifoObs ι α)}
    (stale : StaleLink s t) (taken : QueueState.advance t s.mem (s.pc t) a = some (qs', p, o)) :
    ∃ userData, o = some (.appended t userData) := by
  obtain ⟨userData, qe, enqueue, next, x, at_pc, points, same, -⟩ := stale
  rw [at_pc] at taken
  cases a with
  | go =>
      simp only [QueueState.advance, QueueState.linkStep, points, same,
        abstractionDcas_self] at taken
      cases taken
      exact ⟨userData, rfl⟩
  | _ => cases taken

/-- Wherever a run has come without a stale swap, the next swap that is made on `next` puts
the thread's element into the queue if and only if it is no stale one either; otherwise
the element hangs on one that is not in the queue. -/
theorem link_inside_iff (distinct : elements.Nodup)
    (count : elements.length = capacity + 1) (few : capacity + 1 < atomValues)
    (run : (lockFreeQueue ι malloced null elements).ReachesUnder Careful s history) {t t' : ι}
    {a : QueueAct α} {userData : α} {s' : Threads ι (QueueState ν α) (QueuePc ν α)}
    (moves : (lockFreeQueue ι malloced null elements).next s (t, a) =
      some (s', some (.appended t' userData))) :
    (∃ qe, (s.pc t).held = some qe ∧ s'.mem.Inside qe) ↔ ¬ StaleLink s t := by
  obtain ⟨g, described, -⟩ := lockFreeQueue_refines distinct count few run
  obtain ⟨m, p, taken, rfl⟩ := Advance.of_next moves
  obtain ⟨v, qe, enqueue, next, x, at_pc, points, same, rfl⟩ := link_of_appended taken
  have sound : s.mem.Sound g := described.shared
  have here := described.here t
  rw [at_pc] at here
  have own : g.list.owner qe = some t := (here.owner qe).mpr rfl
  rw [staleLink_iff sound described.here at_pc points same, not_not, at_pc]
  constructor
  · rintro ⟨n, held, inside⟩
    obtain rfl : qe = n := Option.some.inj held
    by_contra outside
    -- the memory still spells the old queue
    have unchanged : ∀ n ∈ g.queue, n ≠ x := fun n mem same => outside (same ▸ mem)
    have spells : (s.mem.setNext x ⟨some qe, counterPlusOne next.counter⟩).Spells g.queue :=
      ⟨sound.head, sound.threaded.congr fun n mem =>
        s.mem.nextPointer_setElement_of_ne x _ (unchanged n mem), sound.nodup, sound.tail⟩
    have mem := spells.inside_iff.mp inside
    rw [sound.unowned qe mem] at own
    cases own
  · intro inside
    have ends : s.mem.nextPointer x = none := by
      rw [QueueState.nextPointer, same]
      exact here.read.2.2
    have linked : (s.mem.setNext x ⟨some qe, counterPlusOne next.counter⟩).Sound
        (g.link t v qe) := sound.link own here.read.1 inside ends
    exact ⟨qe, rfl, linked.spells.inside_iff.mpr (List.mem_append_right _ List.mem_cons_self)⟩

/-- A value that is reported to have gone in is in the queue. -/
def LinkedInside (s : Threads ι (QueueState ν α) (QueuePc ν α)) (a : ι × QueueAct α)
    (o : Option (FifoObs ι α)) (s' : Threads ι (QueueState ν α) (QueuePc ν α)) : Prop :=
  ∀ t userData, o = some (.appended t userData) →
    ∃ qe, (s.pc a.1).held = some qe ∧ s'.mem.Inside qe

/-- **When linking works.**  As long as no counter comes round, every value that is reported
to have gone into the queue is in it, in every step of a run, if and only if no swap of
that run is a stale one. -/
theorem lockFreeQueue_links_iff (distinct : elements.Nodup)
    (count : elements.length = capacity + 1) (few : capacity + 1 < atomValues)
    (actions : List (ι × QueueAct α)) :
    (lockFreeQueue ι malloced null elements).Along
        (fun s _ a o s' => s.mem.Headroom ∧ LinkedInside s a o s')
        (lockFreeQueue ι malloced null elements).init [] actions ↔
      (lockFreeQueue ι malloced null elements).Along
        (fun s history a _ _ => Careful s history a)
        (lockFreeQueue ι malloced null elements).init [] actions := by
  have agree : ∀ s history a s' o,
      (lockFreeQueue ι malloced null elements).ReachesUnder Careful s history →
      (lockFreeQueue ι malloced null elements).next s a = some (s', o) →
        (s.mem.Headroom ∧ LinkedInside s a o s' ↔ Careful s history a) := by
    intro s history a s' o run moves
    refine and_congr_right fun _ => ⟨fun linked stale => ?_, fun notStale t userData => ?_⟩
    · obtain ⟨m, p, taken, -⟩ := Advance.of_next (t := a.1) (a := a.2) moves
      obtain ⟨userData, rfl⟩ := appended_of_staleLink stale taken
      exact (link_inside_iff distinct count few run moves).mp (linked a.1 userData rfl) stale
    · rintro rfl
      exact (link_inside_iff distinct count few run moves).mpr notStale
  exact TraceSystem.along_congr agree
    (fun s history a s' o run moves linked =>
      .step run ((agree s history a s' o run moves).mp linked) moves) actions .init

theorem lockFreeQueue_links_iff_overtaking :
    twoPlaces.Along (fun s _ a o s' => s.mem.Headroom ∧ LinkedInside s a o s') twoPlaces.init []
        overtaking ↔
      twoPlaces.Along (fun s history a _ _ => Careful s history a) twoPlaces.init []
        overtaking :=
  lockFreeQueue_links_iff (by decide) rfl (by decide) overtaking

/-- One thread has read `next` of the dummy while another was swapping it; before it makes
its own swap, the dummy has left the queue and is about to be used again. -/
def reused : List (Bool × QueueAct ℕ) :=
  List.flatten [
    (false, .enqueue 7) :: List.replicate 14 (false, .go),
    (true, .enqueue 8) :: List.replicate 18 (true, .go),
    List.replicate 3 (false, .go),
    [(true, .go)],
    (true, .dequeue) :: List.replicate 17 (true, .go),
    (true, .enqueue 9) :: List.replicate 7 (true, .go),
    List.replicate 2 (false, .go),
    (false, .dequeue) :: List.replicate 8 (false, .go)]

/-- The first value is accepted, and then its own thread finds the queue empty. -/
def reusedHistory : List (FifoObs Bool ℕ) :=
  [.enqueues false 7, .enqueues true 8, .appended true 8, .accepted true 8, .dequeues true,
    .taken true 8, .returned true 8, .enqueues true 9, .appended false 7, .accepted false 7,
    .dequeues false, .foundEmpty false]

/-- **The counters alone are not enough**: without a stale swap being excluded, a value may be
neither in the queue nor taken out. -/
theorem headroom_not_enough :
    ¬ ∀ s history, twoPlaces.ReachesUnder (fun s _ _ => s.mem.Headroom) s history →
      ∃ queue, s.mem.Spells queue ∧ PlacedFifo.appended history = PlacedFifo.taken history ++
        queue.tail.map fun n => (s.mem.element n).userData := by
  intro conserves
  have played : (twoPlaces.exec twoPlaces.init [] reused).map Prod.snd = some reusedHistory := by
    decide +kernel
  have ends : (twoPlaces.exec twoPlaces.init [] reused).map (fun r =>
      (r.1.mem.dequeue.pointer, r.1.mem.nextPointer 0)) = some (some 0, none) := by
    decide +kernel
  obtain ⟨s, plays, run⟩ := twoPlaces.exists_reachesUnder
    (fun s _ _ => s.mem.Headroom) reused (by decide +kernel) played
  rw [plays] at ends
  obtain ⟨head, last⟩ := Prod.mk.inj (Option.some.inj ends)
  obtain ⟨queue, ⟨⟨d, rest, rfl, points⟩, threaded, -, -⟩, inside⟩ := conserves s _ run
  obtain rfl : (0 : Fin 3) = d := Option.some.inj (head.symm.trans points)
  cases rest with
  | nil => cases inside
  | cons y rest => exact absurd (last.symm.trans threaded.1) (by simp [Links.entry, queueLinks])

end Runs

/-! ## One producer at a time -/

section OneProducer

variable {ι : Type w} {ν : Type u} {α : Type v}

/-- The thread is in `queue_enqueue`. -/
def QueuePc.inEnqueue : QueuePc ν α → Bool
  | .newElement _ _ | .initElement _ _ _ | .internalQueue _ _ _ => true
  | _ => false

/-- No counter comes round, and no two calls of `queue_enqueue` overlap. -/
def OneProducer (s : Threads ι (QueueState ν α) (QueuePc ν α)) (_ : List (FifoObs ι α))
    (_ : ι × QueueAct α) : Prop :=
  s.mem.Headroom ∧ ∀ t t', (s.pc t).inEnqueue → (s.pc t').inEnqueue → t = t'

instance decidableOneProducer [Fintype ι] [DecidableEq ι]
    (s : Threads ι (QueueState ν α) (QueuePc ν α)) (history : List (FifoObs ι α))
    (a : ι × QueueAct α) : Decidable (OneProducer s history a) :=
  inferInstanceAs (Decidable (_ ∧ _))

theorem QueuePc.inEnqueue_of_enqueuing {pc : QueuePc ν α} {n : ν}
    (holds : pc.enqueuing = some n) : pc.inEnqueue = true := by
  cases pc with
  | newElement | initElement | internalQueue => rfl
  | idle | dequeue | giveBack | fault => cases holds

/-- With one producer at a time no swap is stale. -/
theorem OneProducer.careful {s : Threads ι (QueueState ν α) (QueuePc ν α)}
    {history : List (FifoObs ι α)} {a : ι × QueueAct α} (alone : OneProducer s history a) :
    Careful s history a := by
  refine ⟨alone.1, ?_⟩
  rintro ⟨userData, qe, enqueue, next, x, at_pc, -, -, t', other, holds⟩
  refine other (alone.2 t' a.1 (QueuePc.inEnqueue_of_enqueuing holds) ?_)
  rw [at_pc]
  rfl

variable [DecidableEq ι] [DecidableEq ν]
variable {malloced : QueueState ν α} {null : α} {elements : List ν} {capacity : ℕ}
variable {s : Threads ι (QueueState ν α) (QueuePc ν α)} {history : List (FifoObs ι α)}

/-- **One producer at a time needs no more than counters that do not come round**: the values
that went in are those that came out followed by those inside, whatever the consumers do. -/
theorem oneProducer_conserves (distinct : elements.Nodup)
    (count : elements.length = capacity + 1) (few : capacity + 1 < atomValues)
    (run : (lockFreeQueue ι malloced null elements).ReachesUnder OneProducer s history) :
    ∃ queue, s.mem.Spells queue ∧ PlacedFifo.appended history = PlacedFifo.taken history ++
      queue.tail.map fun n => (s.mem.element n).userData :=
  lockFreeQueue_spells distinct count few (run.mono fun _ _ _ alone => alone.careful)

/-- A value goes in, and two threads are after it. -/
def rivals : List (Bool × QueueAct ℕ) :=
  List.flatten [
    (false, .enqueue 7) :: List.replicate 19 (false, .go),
    (false, .dequeue) :: List.replicate 9 (false, .go),
    (true, .dequeue) :: List.replicate 17 (true, .go),
    List.replicate 9 (false, .go)]

def rivalsHistory : List (FifoObs Bool ℕ) :=
  [.enqueues false 7, .appended false 7, .accepted false 7, .dequeues false, .dequeues true,
    .taken true 7, .returned true 7, .foundEmpty false]

theorem oneProducer_conserves_rivals : ∃ s,
    twoPlaces.exec twoPlaces.init [] rivals = some (s, rivalsHistory) ∧
      ∃ queue, s.mem.Spells queue ∧
        PlacedFifo.appended rivalsHistory = PlacedFifo.taken rivalsHistory ++
          queue.tail.map fun n => (s.mem.element n).userData := by
  have played : (twoPlaces.exec twoPlaces.init [] rivals).map Prod.snd = some rivalsHistory := by
    decide +kernel
  obtain ⟨s, plays, run⟩ :=
    twoPlaces.exists_reachesUnder OneProducer rivals (by decide +kernel) played
  exact ⟨s, plays, oneProducer_conserves (by decide) rfl (by decide) run⟩

end OneProducer

end Jacks
