import Jacks.Foundations.PlacedFifo

/-!
# Calls that no other call overlaps

A bounded queue with places in use is more than a bounded queue, since its users hold
places.  With no user in a call it is one (`Holds`), and a call that begins then, and is
over before another begins, does to it what the operation of the bounded queue does:
`EnqueueAlone` and `DequeueAlone` follow the call through the steps of its user.
-/

namespace Jacks.Foundations.PlacedFifo

universe u v

variable {ι : Type u} {α : Type v}

/-- The queue with places holds what the bounded queue does, and the other places are
vacant. -/
structure Holds (q : PlacedFifo ι α) (f : BoundedFifo α) : Prop where
  items : q.items = f.items
  vacant : q.vacant + f.items.length = f.capacity

/-- It does so but for one place. -/
structure HoldsButOne (q : PlacedFifo ι α) (f : BoundedFifo α) : Prop where
  items : q.items = f.items
  vacant : q.vacant + 1 + f.items.length = f.capacity

/-- Of a call of `enqueue` that began with the queue at `f`: where it has got, and what has
been observed of it since. -/
inductive EnqueueAlone (f : BoundedFifo α) (t : ι) (a : α) (q : PlacedFifo ι α) :
    List (FifoObs ι α) → Prop
  | begun (holds : q.Holds f) (here : q.phase t = .enqueuing a) : EnqueueAlone f t a q []
  | placed (holds : q.HoldsButOne f) (here : q.phase t = .placed a) : EnqueueAlone f t a q []
  | appended {f'} (puts : f.enqueue a = some f') (holds : q.Holds f')
      (here : q.phase t = .appended a) : EnqueueAlone f t a q [.appended t a]
  | accepted {f'} (puts : f.enqueue a = some f') (holds : q.Holds f')
      (here : q.phase t = .idle) : EnqueueAlone f t a q [.appended t a, .accepted t a]
  | refused (full : f.enqueue a = none) (holds : q.Holds f) (here : q.phase t = .idle) :
      EnqueueAlone f t a q [.refused t a]

/-- Of a call of `dequeue`. -/
inductive DequeueAlone (f : BoundedFifo α) (t : ι) (q : PlacedFifo ι α) :
    List (FifoObs ι α) → Prop
  | looking {sawEmpty} (holds : q.Holds f) (here : q.phase t = .dequeuing sawEmpty)
      (saw : sawEmpty = true → f.dequeue = none) : DequeueAlone f t q []
  | taken {a f'} (takes : f.dequeue = some (a, f')) (holds : q.HoldsButOne f')
      (here : q.phase t = .taken a) : DequeueAlone f t q [.taken t a]
  | returned {a f'} (takes : f.dequeue = some (a, f')) (holds : q.Holds f')
      (here : q.phase t = .idle) : DequeueAlone f t q [.taken t a, .returned t a]
  | foundEmpty (empty : f.dequeue = none) (holds : q.Holds f) (here : q.phase t = .idle) :
      DequeueAlone f t q [.foundEmpty t]

/-- The observation is not that of a call that begins. -/
def NoCall (o : Option (FifoObs ι α)) : Prop :=
  (∀ t a, o ≠ some (.enqueues t a)) ∧ ∀ t, o ≠ some (.dequeues t)

variable [DecidableEq ι] {f : BoundedFifo α} {t : ι} {a : α} {q q' : PlacedFifo ι α}
variable {o : Option (FifoObs ι α)} {observed : List (FifoObs ι α)}

theorem EnqueueAlone.of_call (holds : q.Holds f)
    (moves : Step q t q' (some (.enqueues t a))) : EnqueueAlone f t a q' [] := by
  cases moves
  exact .begun ⟨holds.items, holds.vacant⟩ (Function.update_self _ _ _)

theorem DequeueAlone.of_call (holds : q.Holds f) (moves : Step q t q' (some (.dequeues t))) :
    DequeueAlone f t q' [] := by
  cases moves
  exact .looking ⟨holds.items, holds.vacant⟩ (Function.update_self _ _ _) (by simp)

/-- Each step of its user leads the call on. -/
theorem EnqueueAlone.step (alone : EnqueueAlone f t a q observed) (moves : Step q t q' o)
    (noCall : NoCall o) : EnqueueAlone f t a q' (observed ++ o.toList) := by
  cases alone with
  | begun holds at_phase =>
      obtain ⟨items, vacant⟩ := holds
      cases moves with
      | @refuse b here full =>
          obtain rfl : a = b := by rw [at_phase] at here; cases here; rfl
          refine .refused ?_ ⟨items, vacant⟩ (Function.update_self _ _ _)
          rw [BoundedFifo.enqueue_eq_none_iff]
          omega
      | @place b vacant' here room =>
          obtain rfl : a = b := by rw [at_phase] at here; cases here; rfl
          exact .placed ⟨items, by rw [← vacant, room]⟩ (Function.update_self _ _ _)
      | callEnqueue | callDequeue | append | accept | seeEmpty | returnEmpty | take | giveBack =>
          simp_all
  | placed holds at_phase =>
      obtain ⟨items, vacant⟩ := holds
      cases moves with
      | @append b here =>
          obtain rfl : a = b := by rw [at_phase] at here; cases here; rfl
          have room : f.items.length < f.capacity := by omega
          have length : q.vacant + (f.items ++ [a]).length = f.capacity := by
            rw [List.length_append, List.length_singleton]
            omega
          have puts : f.enqueue a = some ⟨f.capacity, f.items ++ [a], by omega⟩ :=
            BoundedFifo.enqueue_eq_some_iff.mpr ⟨room, rfl, rfl⟩
          exact .appended puts ⟨by rw [items], length⟩ (Function.update_self _ _ _)
      | callEnqueue | callDequeue | refuse | place | accept | seeEmpty | returnEmpty | take
      | giveBack => simp_all
  | appended puts holds at_phase =>
      obtain ⟨items, vacant⟩ := holds
      cases moves with
      | @accept b here =>
          obtain rfl : a = b := by rw [at_phase] at here; cases here; rfl
          exact .accepted puts ⟨items, vacant⟩ (Function.update_self _ _ _)
      | callEnqueue | callDequeue | refuse | place | append | seeEmpty | returnEmpty | take
      | giveBack => simp_all
  | accepted puts holds at_phase | refused full holds at_phase =>
      cases moves with
      | callEnqueue => exact absurd rfl (noCall.1 _ _)
      | callDequeue => exact absurd rfl (noCall.2 _)
      | refuse | place | append | accept | seeEmpty | returnEmpty | take | giveBack => simp_all

theorem DequeueAlone.step (alone : DequeueAlone f t q observed) (moves : Step q t q' o)
    (noCall : NoCall o) : DequeueAlone f t q' (observed ++ o.toList) := by
  cases alone with
  | @looking sawEmpty holds at_phase saw =>
      obtain ⟨items, vacant⟩ := holds
      cases moves with
      | @seeEmpty b here empty =>
          exact .looking ⟨items, vacant⟩ (Function.update_self _ _ _) fun _ =>
            BoundedFifo.dequeue_eq_none_iff.mpr (items.symm.trans empty)
      | returnEmpty here =>
          have looked : sawEmpty = true := by
            rw [at_phase] at here
            cases here
            rfl
          exact .foundEmpty (saw looked) ⟨items, vacant⟩ (Function.update_self _ _ _)
      | @take b a rest here first =>
          have split : f.items = a :: rest := items.symm.trans first
          have length : q.vacant + 1 + rest.length = f.capacity := by
            rw [split, List.length_cons] at vacant
            omega
          have takes : f.dequeue = some (a, ⟨f.capacity, rest, by omega⟩) :=
            BoundedFifo.dequeue_eq_some_iff.mpr ⟨split, rfl⟩
          exact .taken takes ⟨rfl, length⟩ (Function.update_self _ _ _)
      | callEnqueue | callDequeue | refuse | place | append | accept | giveBack => simp_all
  | @taken a f' takes holds at_phase =>
      obtain ⟨items, vacant⟩ := holds
      cases moves with
      | @giveBack b here =>
          obtain rfl : a = b := by rw [at_phase] at here; cases here; rfl
          exact .returned takes ⟨items, vacant⟩ (Function.update_self _ _ _)
      | callEnqueue | callDequeue | refuse | place | append | accept | seeEmpty | returnEmpty
      | take => simp_all
  | returned takes holds at_phase | foundEmpty empty holds at_phase =>
      cases moves with
      | callEnqueue => exact absurd rfl (noCall.1 _ _)
      | callDequeue => exact absurd rfl (noCall.2 _)
      | refuse | place | append | accept | seeEmpty | returnEmpty | take | giveBack => simp_all

omit [DecidableEq ι] in
/-- **A call of `enqueue` that is over** has done what the operation does. -/
theorem EnqueueAlone.result (alone : EnqueueAlone f t a q observed) (done : q.phase t = .idle) :
    (f.enqueue a = none ∧ observed = [.refused t a] ∧ q.Holds f) ∨
      ∃ f', f.enqueue a = some f' ∧ observed = [.appended t a, .accepted t a] ∧ q.Holds f' := by
  cases alone with
  | begun _ here | placed _ here | appended _ _ here => rw [done] at here; cases here
  | accepted puts holds _ => exact .inr ⟨_, puts, rfl, holds⟩
  | refused full holds _ => exact .inl ⟨full, rfl, holds⟩

omit [DecidableEq ι] in
/-- **A call of `dequeue` that is over** has done what the operation does. -/
theorem DequeueAlone.result (alone : DequeueAlone f t q observed) (done : q.phase t = .idle) :
    (f.dequeue = none ∧ observed = [.foundEmpty t] ∧ q.Holds f) ∨
      ∃ a f', f.dequeue = some (a, f') ∧ observed = [.taken t a, .returned t a] ∧
        q.Holds f' := by
  cases alone with
  | looking _ here _ | taken _ _ here => rw [done] at here; cases here
  | returned takes holds _ => exact .inr ⟨_, _, takes, rfl, holds⟩
  | foundEmpty empty holds _ => exact .inl ⟨empty, rfl, holds⟩

end Jacks.Foundations.PlacedFifo
