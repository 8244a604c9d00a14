import Jacks.LockFreeDelivery

/-!
# A consumer that is left alone

With an event inside and no callback on its way, `JacksRbClient_get_event` needs no help:
left alone it returns an event, after one wait at most (`lockFree_getEvent_returns`).

A call of `queue_dequeue` that began before the others stopped may still report the queue
empty, but only if the queue was empty since the call began, and then a token is left for
the wait (`Account`).  The call after the wait reads everything afresh and cannot miss the
event.
-/

namespace Jacks

open Foundations

universe u v w

section Fetch

variable {ι : Type w} {ν : Type u} {α : Type v} {qs qs' : QueueState ν α}

/-- A value is inside. -/
def QueueState.More (qs : QueueState ν α) : Prop := ∃ queue, qs.Spells queue ∧ queue.tail ≠ []

/-- The dummy has a successor then. -/
theorem QueueState.More.next (more : qs.More) {d : ν} (points : qs.dequeue.pointer = some d) :
    ∃ y, qs.nextPointer d = some y := by
  obtain ⟨queue, ⟨⟨d', rest, rfl, points'⟩, threaded, -, -⟩, notEmpty⟩ := more
  obtain rfl : d = d' := Option.some.inj (points.symm.trans points')
  cases rest with
  | nil => exact absurd rfl notEmpty
  | cons y rest => exact ⟨y, threaded.1⟩

/-- Moving `enqueue` on takes nothing out. -/
theorem QueueState.More.swing (more : qs.More) {y : ν} (leads : qs.Leads qs.enqueue y)
    (counter : ℕ) : ({ qs with enqueue := ⟨some y, counter⟩ } : QueueState ν α).More := by
  obtain ⟨queue, spells, notEmpty⟩ := more
  obtain ⟨x, tail, next⟩ := leads
  exact ⟨queue, spells.swing tail next counter, notEmpty⟩

/-- What was read of `next` is the element that follows, while `dequeue` is what was read
of it.  In a call that may be in vain it may be nothing, too. -/
def ReadsNext (inVain : Bool) (qs : QueueState ν α) (dequeue : Pac ν) (next : Option ν) : Prop :=
  qs.dequeue = dequeue → (∃ y, next = some y ∧ qs.Leads dequeue y) ∨ (next = none ∧ inVain = true)

/-- In `queue_dequeue`, with a value inside. -/
def FetchHere (inVain : Bool) (qs : QueueState ν α) : DequeuePc ν α → Prop
  | .readNextCounter dequeue _ next => ReadsNext inVain qs dequeue next
  | .checkPointer dequeue _ next => ReadsNext inVain qs dequeue next.pointer
  | .checkCounter dequeue _ next =>
      ReadsNext inVain qs dequeue next.pointer ∧
        (qs.dequeue.counter = dequeue.counter → qs.dequeue = dequeue)
  | .help enqueue next =>
      ∃ y, next.pointer = some y ∧ (qs.enqueue = enqueue → qs.Leads enqueue y)
  | _ => True

/-- A thread that is in `queue_dequeue` alone, and will bring a value unless the call is in
vain. -/
def Fetching (inVain : Bool) (qs : QueueState ν α) : QueuePc ν α → Prop
  | .dequeue (.readFe _ _) | .giveBack _ _ _ | .fault => True
  | .dequeue pc => qs.More ∧ FetchHere inVain qs pc
  | _ => False

/-- A thread in the middle of its call: unless it has seen the queue empty, the call is not
in vain. -/
theorem fetching_of_here {t : ι} {g : QueueGhost ι ν α} {pc : DequeuePc ν α} {inVain : Bool}
    (more : qs.More) (here : DequeueHere t qs g pc)
    (saw : g.spec.phase t = .dequeuing true → inVain = true) :
    Fetching inVain qs (.dequeue pc) := by
  have readsNext : ∀ {dequeue enqueue next}, HeadRead t qs g dequeue enqueue next →
      ReadsNext inVain qs dequeue next := by
    intro dequeue enqueue next read current
    cases found : next with
    | none => exact .inr ⟨rfl, saw (read.empty found current).1⟩
    | some y => exact .inl ⟨y, rfl, read.leads y found current⟩
  cases pc with
  | readPointer | readCounter | readEnqueuePointer | readEnqueueCounter | readNextPointer
  | readUserData | advance => exact ⟨more, trivial⟩
  | readNextCounter | checkPointer => exact ⟨more, readsNext here⟩
  | checkCounter => exact ⟨more, readsNext here.1, here.2⟩
  | help enqueue next =>
      obtain ⟨y, found⟩ := Option.ne_none_iff_exists'.mp here.2
      exact ⟨more, y, found, here.1.leads y found⟩
  | readFe => trivial

variable [DecidableEq ν]

/-- What an access of the call leads to: it goes on, it returns a value, or it returns in
vain, and the value is still inside. -/
inductive Fetched (t : ι) (inVain : Bool) (qs' : QueueState ν α) :
    QueuePc ν α → Option (FifoObs ι α) → Prop
  | goesOn {p o} (fetching : Fetching inVain qs' p)
      (stays : (ClientPc.dequeue : ClientPc α).after o = .dequeue) : Fetched t inVain qs' p o
  | returns {je} : Fetched t inVain qs' .idle (some (.returned t je))
  | inVain (may : inVain = true) (more : qs'.More) :
      Fetched t inVain qs' .idle (some (.foundEmpty t))

omit [DecidableEq ν] in
/-- An access that only reads: where the head has not moved, it finds the value's element. -/
theorem Fetching.headReads {inVain : Bool} {pc pc' : DequeuePc ν α}
    (fetching : Fetching inVain qs (.dequeue pc)) (reads : HeadReads qs pc pc') :
    Fetching inVain qs (.dequeue pc') := by
  cases reads with
  | @readNextPointer dequeue enqueue d points =>
      obtain ⟨more, -⟩ := fetching
      refine ⟨more, fun current => .inl ?_⟩
      obtain ⟨y, found⟩ := more.next (current ▸ points)
      exact ⟨y, found, d, points, found⟩
  | readNextCounter => exact fetching
  | checkPointer same =>
      exact ⟨fetching.1, fetching.2, fun counter => Pac.ext same.symm counter⟩
  | outOfPlace same meets notNull =>
      obtain ⟨more, reads, current⟩ := fetching
      obtain ⟨y, found, x, points, next⟩ | ⟨isNull, -⟩ := reads (current same.symm)
      · exact ⟨more, y, found, fun _ => ⟨x, meets.trans points, next⟩⟩
      · exact absurd isNull notNull
  | _ => exact ⟨fetching.1, trivial⟩

theorem Fetching.step {t : ι} {inVain : Bool} {pc p : QueuePc ν α} {o : Option (FifoObs ι α)}
    (fetching : Fetching inVain qs pc)
    (taken : QueueState.advance t qs pc .go = some (qs', p, o)) : Fetched t inVain qs' p o := by
  cases QueueState.step_of_advance taken with
  | headReads reads => exact .goesOn (fetching.headReads reads) rfl
  | returnsEmpty same _ isNull =>
      obtain ⟨more, reads, current⟩ := fetching
      obtain ⟨y, found, -⟩ | ⟨-, may⟩ := reads (current same.symm)
      · cases found.symm.trans isNull
      · exact .inVain may more
  | @headHelps enqueue next =>
      obtain ⟨more, y, found, leads⟩ := fetching
      by_cases current : qs.enqueue = enqueue
      · rw [QueueState.swing_of_eq current, found]
        have swung := more.swing (current ▸ leads current) (counterPlusOne enqueue.counter)
        exact .goesOn ⟨swung, trivial⟩ rfl
      · rw [QueueState.swing_of_ne current]
        exact .goesOn ⟨more, trivial⟩ rfl
  | takes | readFe | pushGoesOn | faults => exact .goesOn trivial rfl
  | pushed => exact .returns
  | _ => exact absurd fetching id

end Fetch

section Runs

variable {ι : Type w} {ν : Type u} {α : Type v} [DecidableEq ι] [DecidableEq ν]
variable (malloced : QueueState ν α) (null : α) (elements : List ν) {capacity : ℕ}
variable {s : LockFreeDelivery ι ν α} {history : List (FifoObs ι α)} {t : ι}

/-- An access in the call of a consumer. -/
theorem next_access {m : QueueState ν α} {p : QueuePc ν α} {o : Option (FifoObs ι α)}
    (here : s.client t = .dequeue)
    (taken : QueueState.advance t s.queue.mem (s.queue.pc t) .go = some (m, p, o)) :
    ∃ s', (lockFreeDelivery (lockFreeQueue ι malloced null elements)).next s (t, .access) =
        some (s', o) ∧
      s'.queue.mem = m ∧ s'.queue.pc t = p ∧ s'.client t = ClientPc.dequeue.after o ∧
        s'.mutex = s.mutex := by
  have moves : (lockFreeQueue ι malloced null elements).next s.queue (t, .go) =
      some ({ mem := m, pc := Function.update s.queue.pc t p }, o) := Advance.next_eq taken
  refine ⟨{ queue := { mem := m, pc := Function.update s.queue.pc t p }
            mutex := s.mutex
            client := Function.update s.client t (ClientPc.dequeue.after o) }, ?_, rfl, ?_, ?_, rfl⟩
  · simp only [lockFreeDelivery, LockFreeDelivery.next, here, LockFreeDelivery.inQueue, moves]
  · exact Function.update_self t p s.queue.pc
  · exact Function.update_self t _ s.client

/-- A consumer that waits gets its token and looks again. -/
theorem next_wait (here : s.client t = .semWait) (idle : s.queue.pc t = .idle)
    (token : 0 < s.mutex) :
    ∃ s', (lockFreeDelivery (lockFreeQueue ι malloced null elements)).next s (t, .wait) =
        some (s', some (.dequeues t)) ∧
      s'.queue.mem = s.queue.mem ∧ s'.queue.pc t = .dequeue .readPointer ∧
        s'.client t = .dequeue := by
  have moves : (lockFreeQueue ι malloced null elements).next s.queue (t, .dequeue) =
      some ({ mem := s.queue.mem, pc := Function.update s.queue.pc t (.dequeue .readPointer) },
        some (.dequeues t)) :=
    Advance.next_eq (by rw [idle]; rfl)
  obtain ⟨tokens, available⟩ := Nat.exists_eq_add_of_lt token
  rw [Nat.zero_add] at available
  refine ⟨{ queue :=
              { mem := s.queue.mem
                pc := Function.update s.queue.pc t (.dequeue .readPointer) }
            mutex := tokens
            client := Function.update s.client t .dequeue }, ?_, rfl, ?_, ?_⟩
  · simp only [lockFreeDelivery, LockFreeDelivery.next, here, available,
      LockFreeDelivery.inQueue, moves]
  · exact Function.update_self t _ s.queue.pc
  · exact Function.update_self t _ s.client

/-- The machine plays the call of a consumer that is left alone, to its end. -/
theorem exec_fetching {inVain : Bool} {n : ℕ}
    (finishes : Finishes t n s.queue.mem (s.queue.pc t)) (here : s.client t = .dequeue)
    (fetching : Fetching inVain s.queue.mem (s.queue.pc t)) (history : List (FifoObs ι α)) :
    ∃ k ≤ n, ∃ s' observed,
      (lockFreeDelivery (lockFreeQueue ι malloced null elements)).exec s history
          (List.replicate k (t, .access)) = some (s', history ++ observed) ∧
        ((∃ je, s'.client t = .returning je) ∨
          (s'.client t = .semWait ∧ s'.queue.pc t = .idle ∧ s'.queue.mem.More ∧
            inVain = true ∧ s'.mutex = s.mutex)) := by
  generalize at_mem : s.queue.mem = m at finishes fetching
  generalize at_pc : s.queue.pc t = p at finishes fetching
  induction finishes generalizing s history with
  | done => exact absurd fetching id
  | @step n m p m' p' o taken rest ih =>
      subst at_mem at_pc
      obtain ⟨s₁, moves, at_mem, at_pc, client, mutex⟩ :=
        next_access malloced null elements here taken
      have returned : (lockFreeDelivery (lockFreeQueue ι malloced null elements)).exec s history
          (List.replicate 1 (t, .access)) = some (s₁, history ++ o.toList) :=
        TraceSystem.exec_single moves history
      cases fetching.step taken with
      | goesOn fetching' stays =>
          obtain ⟨k, le, s', observed, plays, ends⟩ :=
            ih (client.trans stays) (history ++ o.toList) at_mem at_pc fetching'
          refine ⟨k + 1, Nat.succ_le_succ le, s', o.toList ++ observed, ?_, ?_⟩
          · rw [List.replicate_succ, TraceSystem.exec_cons moves, plays, List.append_assoc]
          · rwa [mutex] at ends
      | @returns je => exact ⟨1, by omega, s₁, _, returned, .inl ⟨je, client⟩⟩
      | inVain may more =>
          exact ⟨1, by omega, s₁, _, returned,
            .inr ⟨client, at_pc, at_mem ▸ more, may, mutex⟩⟩

/-- A consumer that may wait comes back with a value. -/
theorem exec_wait (here : s.client t = .semWait) (idle : s.queue.pc t = .idle)
    (more : s.queue.mem.More) (token : 0 < s.mutex) (history : List (FifoObs ι α)) :
    ∃ k ≤ 29, ∃ s' observed,
      (lockFreeDelivery (lockFreeQueue ι malloced null elements)).exec s history
          ((t, .wait) :: List.replicate k (t, .access)) = some (s', history ++ observed) ∧
        ∃ je, s'.client t = .returning je := by
  obtain ⟨s₁, moves, at_mem, at_pc, client⟩ := next_wait malloced null elements here idle token
  obtain ⟨queue, spells, -⟩ := id more
  have fetching : Fetching false s₁.queue.mem (s₁.queue.pc t) := by
    rw [at_mem, at_pc]
    exact ⟨more, trivial⟩
  have finishes : Finishes t 29 s₁.queue.mem (s₁.queue.pc t) := by
    rw [at_mem, at_pc]
    exact finishes_dequeue_fresh spells
  obtain ⟨k, le, s', observed, plays, ends⟩ :=
    exec_fetching malloced null elements finishes client fetching (history ++ [.dequeues t])
  refine ⟨k, le, s', .dequeues t :: observed, ?_, ?_⟩
  · rw [TraceSystem.exec_cons moves]
    refine plays.trans ?_
    rw [List.append_assoc]
    rfl
  · obtain returns | ⟨-, -, -, inVain, -⟩ := ends
    · exact returns
    · cases inVain

variable {malloced null elements}

omit [DecidableEq ι] in
/-- Where the others are outside or wait, a value is paid for by a token or by the thread
itself. -/
theorem Account.pays_alone [Fintype ι] {q : PlacedFifo ι α} {mutex : ℕ} {client : ι → ClientPc α}
    (account : Account q mutex client)
    (others : ∀ t', t' ≠ t → client t' = .outside ∨ client t' = .semWait) :
    q.items.length ≤ mutex + (Whereabouts.pays (q.phase t, client t)).toNat := by
  have alone : countAt (whereabouts q client) Whereabouts.pays =
      (Whereabouts.pays (q.phase t, client t)).toNat := by
    unfold countAt
    refine Finset.sum_eq_single t (fun t' _ other => ?_) fun away => ?_
    · rw [account.pays_asleep (others t' other)]
      rfl
    · exact absurd (Finset.mem_univ t) away
  have awake := account.awake
  omega

omit [DecidableEq ι] [DecidableEq ν] in
/-- A thread that the specification has outside is in no call. -/
theorem PhaseHere.eq_idle {pc : QueuePc ν α} (here : PhaseHere (.idle : FifoPhase α) pc) :
    pc = .idle := by
  cases pc with
  | idle => rfl
  | newElement | initElement | giveBack => cases here
  | internalQueue userData qe pc => cases pc with | _ => cases here
  | dequeue pc =>
      cases pc with
      | readFe => cases here
      | _ => obtain ⟨sawEmpty, same⟩ := here; cases same
  | fault => exact absurd here id

omit [DecidableEq ι] in
/-- Where a thread in `get_event` has got in its call, with a value inside. -/
theorem Account.fetching [Fintype ι] {g : QueueGhost ι ν α} {mutex : ℕ}
    {client : ι → ClientPc α} {qs : QueueState ν α} {pc : QueuePc ν α}
    (account : Account g.spec mutex client) (sound : qs.Sound g) (at_pc : QueueHere t qs g pc)
    (more : qs.More) (here : client t = .dequeue)
    (paid : 1 ≤ mutex + (Whereabouts.pays (g.spec.phase t, client t)).toNat) :
    ∃ inVain, Fetching inVain qs pc ∧ Finishes t 38 qs pc ∧ (inVain = true → 0 < mutex) := by
  have fits := account.fits t
  rw [whereabouts, here] at fits
  rw [here] at paid
  have phase := at_pc.phase
  have read := at_pc.read
  cases pc with
  | idle =>
      rw [show g.spec.phase t = _ from phase] at fits
      cases fits
  | newElement | initElement =>
      rw [show g.spec.phase t = _ from phase] at fits
      cases fits
  | internalQueue userData qe pc =>
      cases pc with
      | _ => rw [show g.spec.phase t = _ from phase] at fits; cases fits
  | giveBack userData fe pc =>
      exact ⟨false, trivial, (finishes_giveBack pc).mono (by omega), fun inVain => by cases inVain⟩
  | fault => exact absurd phase id
  | dequeue pc =>
      have finishes : Finishes t 38 qs (.dequeue pc) := finishes_dequeue sound.spells read
      by_cases saw : g.spec.phase t = .dequeuing true
      · refine ⟨true, fetching_of_here more read fun _ => rfl, finishes, fun _ => ?_⟩
        rw [saw] at paid
        exact paid
      · exact ⟨false, fetching_of_here more read fun saw' => absurd saw' saw, finishes,
          fun inVain => by cases inVain⟩

/-- **A consumer that is left alone returns an event.**  In every state of every run in
which a value is inside and every other thread is outside or waits, a thread in
`get_event` comes back with an event by its own steps: at most 38 accesses, and if these
were in vain a wait that it need not wait for and at most 29 accesses more. -/
theorem lockFree_getEvent_returns [Fintype ι] (distinct : elements.Nodup)
    (count : elements.length = capacity + 1) (few : capacity + 1 < atomValues)
    (run : (lockFreeDelivery (lockFreeQueue ι malloced null elements)).ReachesUnder
      CarefulDelivery s history)
    (others : ∀ t', t' ≠ t → s.client t' = .outside ∨ s.client t' = .semWait)
    (inGetEvent : s.client t = .dequeue ∨ s.client t = .semWait)
    (inside : (PlacedFifo.taken history).length < (PlacedFifo.appended history).length) :
    ∃ k ≤ 38, ∃ rest,
      (rest = [] ∨ ∃ k' ≤ 29, rest = (t, .wait) :: List.replicate k' (t, .access)) ∧
      ∃ s' observed je,
        (lockFreeDelivery (lockFreeQueue ι malloced null elements)).exec s history
            (List.replicate k (t, .access) ++ rest) = some (s', history ++ observed) ∧
          s'.client t = .returning je := by
  obtain ⟨-, g, described, reached, account⟩ := lockFree_delivers distinct count few run
  have sound : s.queue.mem.Sound g := described.shared
  have conserved := (PlacedFifo.reaches_conserves reached).length
  have more : s.queue.mem.More := by
    refine ⟨g.queue, sound.spells, fun empty => ?_⟩
    have none : g.spec.items.length = 0 := by rw [sound.items, empty, List.map_nil, List.length_nil]
    omega
  have paid := account.pays_alone others
  rcases inGetEvent with here | here
  · obtain ⟨inVain, fetching, finishes, token⟩ :=
      account.fetching sound (described.here t) more here (by omega)
    obtain ⟨k, le, s₁, observed, plays, ends⟩ :=
      exec_fetching malloced null elements finishes here fetching history
    obtain ⟨je, returns⟩ | ⟨waits, idle, more₁, may, mutex⟩ := ends
    · exact ⟨k, le, [], .inl rfl, s₁, observed, je, by rwa [List.append_nil], returns⟩
    · obtain ⟨k', le', s', observed', plays', je, returns⟩ :=
        exec_wait malloced null elements waits idle more₁ (mutex ▸ token may) (history ++ observed)
      refine ⟨k, le, _, .inr ⟨k', le', rfl⟩, s', observed ++ observed', je, ?_, returns⟩
      rw [TraceSystem.exec_append plays, plays', List.append_assoc]
  · have phase : g.spec.phase t = .idle := account.idle here nofun nofun
    have idle : s.queue.pc t = .idle := by
      have at_pc := (described.here t).phase
      rw [phase] at at_pc
      exact PhaseHere.eq_idle at_pc
    have token : 0 < s.mutex := by
      rw [phase, here] at paid
      have unpaid : (Whereabouts.pays ((.idle, .semWait) : Whereabouts α)).toNat = 0 := rfl
      omega
    obtain ⟨k', le', s', observed, plays, je, returns⟩ :=
      exec_wait malloced null elements here idle more token history
    exact ⟨0, Nat.zero_le _, _, .inr ⟨k', le', rfl⟩, s', observed, je, plays, returns⟩

/-- The script has looked twice in vain; then a callback puts an event in and returns. -/
def stillAsleep : List (Bool × ClientAct ℕ) :=
  List.flatten [
    (true, .getEvent) :: List.replicate 8 (true, .access),
    (true, .wait) :: List.replicate 8 (true, .access),
    (false, .callback 7 .giveUp) :: List.replicate 19 (false, .access),
    [(false, .post)]]

theorem lockFree_getEvent_returns_stillAsleep : ∃ s history,
    (lockFreeDelivery twoPlaces).exec (lockFreeDelivery twoPlaces).init [] stillAsleep =
        some (s, history) ∧
      ∃ k ≤ 38, ∃ rest,
        (rest = [] ∨ ∃ k' ≤ 29, rest = (true, .wait) :: List.replicate k' (true, .access)) ∧
        ∃ s' observed je,
          (lockFreeDelivery twoPlaces).exec s history
              (List.replicate k (true, .access) ++ rest) = some (s', history ++ observed) ∧
            s'.client true = .returning je := by
  have played : ((lockFreeDelivery twoPlaces).exec (lockFreeDelivery twoPlaces).init []
      stillAsleep).map (fun r => (r.1.client false, r.1.client true, r.2)) =
        some (.outside, .semWait, [.dequeues true, .foundEmpty true, .dequeues true,
          .foundEmpty true, .enqueues false 7, .appended false 7, .accepted false 7]) := by
    decide +kernel
  obtain ⟨⟨s, history⟩, plays, observed⟩ := Option.map_eq_some_iff.mp played
  obtain ⟨producer, consumer, rfl⟩ : s.client false = .outside ∧ s.client true = .semWait ∧
      history = _ := by simpa using observed
  have run : (lockFreeDelivery twoPlaces).ReachesUnder CarefulDelivery s _ :=
    .exec .init (by decide +kernel) plays
  have others : ∀ t', t' ≠ true → s.client t' = .outside ∨ s.client t' = .semWait := by
    intro t' other
    cases t' with
    | false => exact .inl producer
    | true => exact absurd rfl other
  exact ⟨s, _, plays, lockFree_getEvent_returns (by decide) rfl (by decide) run others
    (.inr consumer) (by decide)⟩

end Runs

end Jacks
