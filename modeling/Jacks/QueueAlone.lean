import Jacks.QueueProgress
import Jacks.Foundations.LoneCall

/-!
# Calls that no other call overlaps

With no call under way, the lock-free queue is a bounded queue, and a call that is over
before another begins does what the operation of the bounded queue does
(`lockFreeQueue_enqueue_alone`, `lockFreeQueue_dequeue_alone`).  So where the callers take
turns, `BoundedFifo` is the queue; where they do not, a call may be refused though fewer
values are inside than there are places (`lockFreeQueue_places`).
-/

namespace Jacks

open Foundations

universe u v w

/-- The values inside, oldest first. -/
def QueueState.Holds {ν : Type u} {α : Type v} (qs : QueueState ν α) (values : List α) : Prop :=
  ∃ queue, qs.Spells queue ∧ queue.tail.map (fun n => (qs.element n).userData) = values

section Memory

variable {ν : Type u} {α : Type v}

/-- What the memory spells is one queue. -/
theorem QueueState.Spells.unique {qs : QueueState ν α} {queue queue' : List ν}
    (spells : qs.Spells queue) (spells' : qs.Spells queue') : queue = queue' := by
  obtain ⟨⟨d, rest, rfl, points⟩, threaded, -, -⟩ := spells
  obtain ⟨⟨d', rest', rfl, points'⟩, threaded', -, -⟩ := spells'
  obtain rfl : d = d' := Option.some.inj (points.symm.trans points')
  rw [threaded.unique queueLinks_proper queueLinks_injective threaded']

theorem QueueState.Holds.unique {qs : QueueState ν α} {values values' : List α}
    (holds : qs.Holds values) (holds' : qs.Holds values') : values = values' := by
  obtain ⟨queue, spells, rfl⟩ := holds
  obtain ⟨queue', spells', rfl⟩ := holds'
  rw [spells.unique spells']

/-- Only a call begins with the observation that it does. -/
theorem noCall_of_go {ι : Type w} [DecidableEq ν] {t : ι} {qs qs' : QueueState ν α}
    {pc p : QueuePc ν α} {o : Option (FifoObs ι α)}
    (taken : QueueState.advance t qs pc .go = some (qs', p, o)) : PlacedFifo.NoCall o := by
  cases QueueState.step_of_advance taken with
  | _ => exact ⟨by rintro _ _ ⟨⟩, by rintro _ ⟨⟩⟩

end Memory

section Runs

variable {ι : Type w} {ν : Type u} {α : Type v} [DecidableEq ι] [DecidableEq ν]
variable {malloced : QueueState ν α} {null : α} {elements : List ν} {capacity : ℕ}
variable {s s' : Threads ι (QueueState ν α) (QueuePc ν α)} {history : List (FifoObs ι α)}
variable {t : ι}

omit [DecidableEq ι] [DecidableEq ν] in
/-- With the others in no call, no swap of the thread is stale. -/
theorem not_staleLink_of_alone (others : ∀ t', t' ≠ t → s.pc t' = .idle) : ¬ StaleLink s t := by
  rintro ⟨_, _, _, _, _, _, _, _, t', other, holds⟩
  rw [others t' other] at holds
  cases holds

/-- What every step of the specification keeps, with what was observed since, holds after
any number of accesses of one thread. -/
theorem kept_alone {J : PlacedFifo ι α → List (FifoObs ι α) → Prop}
    (step : ∀ {q q' o observed}, J q observed → PlacedFifo.Step q t q' o →
      PlacedFifo.NoCall o → J q' (observed ++ o.toList)) (k : ℕ) :
    ∀ {s : Threads ι (QueueState ν α) (QueuePc ν α)} {history history' : List (FifoObs ι α)}
      {g : QueueGhost ι ν α} {observed : List (FifoObs ι α)},
      (queueOutline capacity).Describes s g → J g.spec observed →
      (∀ t', t' ≠ t → s.pc t' = .idle) →
      (lockFreeQueue ι malloced null elements).Along (fun s _ _ _ _ => s.mem.Headroom) s history
        (List.replicate k (t, .go)) →
      (lockFreeQueue ι malloced null elements).exec s history (List.replicate k (t, .go)) =
        some (s', history') →
      ∃ g' observed', (queueOutline capacity).Describes s' g' ∧
        J g'.spec (observed ++ observed') ∧ history' = history ++ observed' := by
  induction k with
  | zero =>
      intro s history history' g observed described holds _ _ plays
      obtain ⟨rfl, rfl⟩ := TraceSystem.eq_of_exec_nil plays
      exact ⟨g, [], described, by rwa [List.append_nil], by rw [List.append_nil]⟩
  | succ k ih =>
      intro s history history' g observed described holds others roomy plays
      obtain ⟨s₁, o, moves, plays⟩ := TraceSystem.step_of_exec_cons plays
      rw [List.replicate_succ, TraceSystem.along_cons moves] at roomy
      have careful : Careful s history (t, .go) := ⟨roomy.1, not_staleLink_of_alone others⟩
      obtain ⟨g₁, described₁, answers⟩ := described.step careful moves
      obtain ⟨m, p, taken, rfl⟩ := Advance.of_next moves
      have holds₁ : J g₁.spec (observed ++ o.toList) := by
        have noCall := noCall_of_go taken
        have answers : (PlacedFifo.system ι α capacity).Answers t g.spec g₁.spec o := answers
        generalize g₁.spec = q₁ at answers
        cases answers with
        | idle => rwa [Option.toList_none, List.append_nil]
        | step moved => exact step holds (PlacedFifo.step_of_next moved) noCall
      have others₁ : ∀ t', t' ≠ t → Function.update s.pc t p t' = .idle := by
        intro t' other
        rw [Function.update_of_ne other]
        exact others t' other
      obtain ⟨g', observed', described', holds', rfl⟩ :=
        ih described₁ holds₁ others₁ roomy.2 plays
      exact ⟨g', o.toList ++ observed', described', by rwa [← List.append_assoc],
        by rw [List.append_assoc]⟩

/-- The values inside are those that went in and have not come out. -/
theorem holds_of_reaches (distinct : elements.Nodup) (count : elements.length = capacity + 1)
    (few : capacity + 1 < atomValues)
    (run : (lockFreeQueue ι malloced null elements).ReachesUnder Careful s history)
    {values : List α}
    (inside : PlacedFifo.appended history = PlacedFifo.taken history ++ values) :
    s.mem.Holds values := by
  obtain ⟨queue, spells, split⟩ := lockFreeQueue_spells distinct count few run
  exact ⟨queue, spells, List.append_cancel_left (split.symm.trans inside)⟩

variable [Fintype ι] {f : BoundedFifo α}

omit [DecidableEq ι] [DecidableEq ν] in
/-- No call under way, no element in anyone's hands. -/
theorem held_of_quiet (quiet : ∀ t, s.pc t = .idle) :
    countAt s.pc (fun pc => pc.held.isSome) = 0 :=
  countAt_eq_zero_iff.mpr fun t => by rw [quiet t]; rfl

/-- With no call under way the queue is a bounded queue. -/
theorem holds_of_quiet (distinct : elements.Nodup) (count : elements.length = capacity + 1)
    (few : capacity + 1 < atomValues)
    (run : (lockFreeQueue ι malloced null elements).ReachesUnder Careful s history)
    (quiet : ∀ t, s.pc t = .idle) (size : f.capacity = capacity) (inside : s.mem.Holds f.items) :
    ∃ g, (queueOutline capacity).Describes s g ∧
      (PlacedFifo.system ι α capacity).Reaches g.spec history ∧ g.spec.Holds f := by
  obtain ⟨g, described, reached⟩ := lockFreeQueue_refines distinct count few run
  have sound : s.mem.Sound g := described.shared
  have items : g.spec.items = f.items := by
    rw [sound.items]
    exact QueueState.Holds.unique ⟨g.queue, sound.spells, rfl⟩ inside
  have places := places_held described reached
  rw [held_of_quiet quiet] at places
  have vacant : g.spec.vacant = g.list.free.length := sound.vacant
  exact ⟨g, described, reached, items, by rw [size, ← items]; omega⟩

/-- A call that begins with no other under way comes to its end by itself, and if no counter
comes round, what the specification keeps with its steps holds then. -/
theorem call_alone {J : PlacedFifo ι α → List (FifoObs ι α) → Prop} {act : QueueAct α}
    {x : FifoObs ι α} {pc : QueuePc ν α}
    (step : ∀ {q q' o observed}, J q observed → PlacedFifo.Step q t q' o →
      PlacedFifo.NoCall o → J q' (observed ++ o.toList))
    (start : ∀ {q q'}, q.Holds f → PlacedFifo.Step q t q' (some x) → J q' [])
    (begins : ∀ qs : QueueState ν α, QueueState.advance t qs .idle act = some (qs, pc, some x))
    (distinct : elements.Nodup) (count : elements.length = capacity + 1)
    (few : capacity + 1 < atomValues)
    (run : (lockFreeQueue ι malloced null elements).ReachesUnder Careful s history)
    (quiet : ∀ t, s.pc t = .idle) (headroom : s.mem.Headroom) (size : f.capacity = capacity)
    (inside : s.mem.Holds f.items) :
    ∃ k ≤ 7 * capacity + 38, ∃ s' observed,
      (lockFreeQueue ι malloced null elements).exec s history
          ((t, act) :: List.replicate k (t, .go)) = some (s', history ++ x :: observed) ∧
        (∀ t', s'.pc t' = .idle) ∧
        ((lockFreeQueue ι malloced null elements).Along (fun s _ _ _ _ => s.mem.Headroom) s
            history ((t, act) :: List.replicate k (t, .go)) →
          ∃ g, (queueOutline capacity).Describes s' g ∧ J g.spec observed) := by
  obtain ⟨g, described, reached, holds⟩ :=
    holds_of_quiet distinct count few run quiet size inside
  have moves : (lockFreeQueue ι malloced null elements).next s (t, act) =
      some ({ mem := s.mem, pc := Function.update s.pc t pc }, some x) :=
    Advance.next_eq (by rw [quiet t]; exact begins s.mem)
  have careful : Careful s history (t, act) :=
    ⟨headroom, not_staleLink_of_alone fun t' _ => quiet t'⟩
  obtain ⟨g₁, described₁, answers⟩ := described.step careful moves
  have answers : (PlacedFifo.system ι α capacity).Answers t g.spec g₁.spec (some x) := answers
  have reached₁ := answers.reaches reached
  have places : g₁.spec.vacant + g₁.spec.items.length + _ = capacity :=
    PlacedFifo.reaches_places reached₁
  have others : ∀ t', t' ≠ t → Function.update s.pc t pc t' = .idle := by
    intro t' other
    rw [Function.update_of_ne other]
    exact quiet t'
  obtain ⟨k, le, s', observed, plays, done, unmoved⟩ :=
    (finishes_call described₁.shared (described₁.here t)).exec
      (lockFreeQueue ι malloced null elements).init (history ++ [x])
  refine ⟨k, by omega, s', observed, ?_, fun t' => ?_, fun roomy => ?_⟩
  · rw [TraceSystem.exec_cons moves]
    refine plays.trans ?_
    rw [List.append_assoc]
    rfl
  · by_cases same : t' = t
    · rw [same]
      exact done
    · rw [unmoved t' same]
      exact others t' same
  · have begun : J g₁.spec [] := by
      generalize g₁.spec = q₁ at answers
      cases answers with
      | step moved => exact start holds (PlacedFifo.step_of_next moved)
    rw [TraceSystem.along_cons moves] at roomy
    obtain ⟨g', observed', described', holds', split⟩ :=
      kept_alone step k described₁ begun others roomy.2 plays
    obtain rfl : observed = observed' := List.append_cancel_left split
    exact ⟨g', described', holds'⟩

/-- **A call of `queue_enqueue` that no other overlaps** always returns, and does what it does
to a bounded queue. -/
theorem lockFreeQueue_enqueue_alone (distinct : elements.Nodup)
    (count : elements.length = capacity + 1) (few : capacity + 1 < atomValues)
    (run : (lockFreeQueue ι malloced null elements).ReachesUnder Careful s history)
    (quiet : ∀ t, s.pc t = .idle) (headroom : s.mem.Headroom) (size : f.capacity = capacity)
    (inside : s.mem.Holds f.items) (t : ι) (a : α) :
    ∃ k ≤ 7 * capacity + 38, ∃ s' observed,
      (lockFreeQueue ι malloced null elements).exec s history
          ((t, .enqueue a) :: List.replicate k (t, .go)) =
        some (s', history ++ .enqueues t a :: observed) ∧
      (∀ t', s'.pc t' = .idle) ∧
      ((lockFreeQueue ι malloced null elements).Along (fun s _ _ _ _ => s.mem.Headroom) s
          history ((t, .enqueue a) :: List.replicate k (t, .go)) →
        match f.enqueue a with
        | none => observed = [.refused t a] ∧ s'.mem.Holds f.items
        | some f' => observed = [.appended t a, .accepted t a] ∧ s'.mem.Holds f'.items) := by
  obtain ⟨k, le, s', observed, plays, done, alone⟩ :=
    call_alone (J := PlacedFifo.EnqueueAlone f t a) (fun alone moves => alone.step moves)
      (fun holds moves => .of_call holds moves)
      (fun _ => show QueueState.advance t _ .idle (.enqueue a) = _ from rfl)
      distinct count few run quiet headroom size inside
  refine ⟨k, le, s', observed, plays, done, fun roomy => ?_⟩
  obtain ⟨g, described, alone⟩ := alone roomy
  have phase := (described.here t).phase
  rw [done t] at phase
  have holds : ∀ {f' : BoundedFifo α}, g.spec.Holds f' → s'.mem.Holds f'.items :=
    fun holds => ⟨g.queue, described.shared.spells, described.shared.items.symm.trans holds.items⟩
  obtain ⟨full, same, held⟩ | ⟨f', puts, same, held⟩ := alone.result phase
  · rw [full]
    exact ⟨same, holds held⟩
  · rw [puts]
    exact ⟨same, holds held⟩

/-- A new queue is empty. -/
theorem twoPlaces_holds : twoPlaces.init.mem.Holds [] :=
  holds_of_reaches (by decide) rfl (by decide) .init rfl

theorem lockFreeQueue_enqueue_alone_twoPlaces : ∃ k ≤ 7 * 2 + 38, ∃ s' observed,
    twoPlaces.exec twoPlaces.init [] ((false, .enqueue 8) :: List.replicate k (false, .go)) =
        some (s', [] ++ .enqueues false 8 :: observed) ∧
      (∀ t', s'.pc t' = .idle) ∧
      (twoPlaces.Along (fun s _ _ _ _ => s.mem.Headroom) twoPlaces.init []
          ((false, .enqueue 8) :: List.replicate k (false, .go)) →
        observed = [.appended false 8, .accepted false 8] ∧ s'.mem.Holds [8]) :=
  lockFreeQueue_enqueue_alone (f := .empty 2) (by decide) rfl (by decide) .init (fun _ => rfl)
    (by decide +kernel) rfl twoPlaces_holds false 8

/-- **A call of `queue_dequeue` that no other overlaps** always returns, and does what it does
to a bounded queue. -/
theorem lockFreeQueue_dequeue_alone (distinct : elements.Nodup)
    (count : elements.length = capacity + 1) (few : capacity + 1 < atomValues)
    (run : (lockFreeQueue ι malloced null elements).ReachesUnder Careful s history)
    (quiet : ∀ t, s.pc t = .idle) (headroom : s.mem.Headroom) (size : f.capacity = capacity)
    (inside : s.mem.Holds f.items) (t : ι) :
    ∃ k ≤ 7 * capacity + 38, ∃ s' observed,
      (lockFreeQueue ι malloced null elements).exec s history
          ((t, .dequeue) :: List.replicate k (t, .go)) =
        some (s', history ++ .dequeues t :: observed) ∧
      (∀ t', s'.pc t' = .idle) ∧
      ((lockFreeQueue ι malloced null elements).Along (fun s _ _ _ _ => s.mem.Headroom) s
          history ((t, .dequeue) :: List.replicate k (t, .go)) →
        match f.dequeue with
        | none => observed = [.foundEmpty t] ∧ s'.mem.Holds f.items
        | some (a, f') => observed = [.taken t a, .returned t a] ∧ s'.mem.Holds f'.items) := by
  obtain ⟨k, le, s', observed, plays, done, alone⟩ :=
    call_alone (J := PlacedFifo.DequeueAlone f t) (fun alone moves => alone.step moves)
      (fun holds moves => .of_call holds moves)
      (fun _ => show QueueState.advance t _ .idle .dequeue = _ from rfl)
      distinct count few run quiet headroom size inside
  refine ⟨k, le, s', observed, plays, done, fun roomy => ?_⟩
  obtain ⟨g, described, alone⟩ := alone roomy
  have phase := (described.here t).phase
  rw [done t] at phase
  have holds : ∀ {f' : BoundedFifo α}, g.spec.Holds f' → s'.mem.Holds f'.items :=
    fun holds => ⟨g.queue, described.shared.spells, described.shared.items.symm.trans holds.items⟩
  obtain ⟨empty, same, held⟩ | ⟨a, f', takes, same, held⟩ := alone.result phase
  · rw [empty]
    exact ⟨same, holds held⟩
  · rw [takes]
    exact ⟨same, holds held⟩

/-- Each thread has put a value in. -/
def filled : List (Bool × QueueAct ℕ) :=
  List.flatten [
    (false, .enqueue 7) :: List.replicate 19 (false, .go),
    (true, .enqueue 8) :: List.replicate 19 (true, .go)]

def filledHistory : List (FifoObs Bool ℕ) :=
  [.enqueues false 7, .appended false 7, .accepted false 7, .enqueues true 8, .appended true 8,
    .accepted true 8]

theorem filled_run : ∃ s,
    twoPlaces.exec twoPlaces.init [] filled = some (s, filledHistory) ∧
      twoPlaces.ReachesUnder Careful s filledHistory ∧
      (∀ t, s.pc t = .idle) ∧ s.mem.Headroom ∧ s.mem.Holds [7, 8] := by
  have played : (twoPlaces.exec twoPlaces.init [] filled).map Prod.snd = some filledHistory := by
    decide +kernel
  have ends : (twoPlaces.exec twoPlaces.init [] filled).map (fun r =>
      (r.1.pc false, r.1.pc true, decide r.1.mem.Headroom)) = some (.idle, .idle, true) := by
    decide +kernel
  obtain ⟨s, plays, run⟩ :=
    twoPlaces.exists_reachesUnder Careful filled (by decide +kernel) played
  rw [plays] at ends
  obtain ⟨first, second, headroom⟩ : s.pc false = .idle ∧ s.pc true = .idle ∧ s.mem.Headroom := by
    simpa using ends
  have quiet : ∀ t, s.pc t = .idle := by
    intro t
    cases t with
    | false => exact first
    | true => exact second
  exact ⟨s, plays, run, quiet, headroom, holds_of_reaches (by decide) rfl (by decide) run rfl⟩

/-- The value of the first thread comes out, that of the second stays. -/
theorem lockFreeQueue_dequeue_alone_filled : ∃ s,
    twoPlaces.exec twoPlaces.init [] filled = some (s, filledHistory) ∧
      ∃ k ≤ 7 * 2 + 38, ∃ s',
        twoPlaces.exec s filledHistory ((true, .dequeue) :: List.replicate k (true, .go)) =
            some (s', filledHistory ++ [.dequeues true, .taken true 7, .returned true 7]) ∧
          (∀ t', s'.pc t' = .idle) ∧ s'.mem.Holds [8] := by
  obtain ⟨s, plays, run, quiet, headroom, inside⟩ := filled_run
  obtain ⟨k, (le : k ≤ 7 * 2 + 38), s', observed, returns, done, exactly⟩ :=
    lockFreeQueue_dequeue_alone (f := ⟨2, [7, 8], by decide⟩) (by decide) rfl (by decide) run
      quiet headroom rfl inside true
  have roomy : ∀ k < 7 * 2 + 39, twoPlaces.Along (fun s _ _ _ _ => s.mem.Headroom)
      twoPlaces.init [] (filled ++ (true, .dequeue) :: List.replicate k (true, .go)) := by
    decide +kernel
  have along := ((TraceSystem.along_append plays).mp (roomy k (by omega))).2
  obtain ⟨rfl, rest⟩ := exactly along
  exact ⟨s, plays, k, le, s', returns, done, rest⟩

end Runs

end Jacks
