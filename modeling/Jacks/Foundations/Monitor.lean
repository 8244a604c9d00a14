import Mathlib.Logic.Function.Basic
import Jacks.Foundations.TraceSystem

/-!
# Monitors

A value that any number of threads share under one mutex, with one condition to
wait on: `pthread_mutex_lock`, `pthread_cond_wait`, `pthread_cond_signal`,
`pthread_mutex_unlock`.  What a thread does while it holds the mutex is a program
(`Procedures`), one instruction a step.  A signal wakes one thread that is asleep,
whichever; a thread may also wake without one.  A thread that has been woken
still has to get the mutex, and others may get it before.

* `Orderly` — the mutex excludes, and who sleeps is inside a wait.
* `Annotated` — assertions at the locations of a program, as the threads keep them
  for each other: the rule for what a thread knows of the value.
* `Relays` — a condition on programs under which no wake-up is lost: as long as
  the value is ready and a thread is asleep, somebody is on the way to it.
-/

namespace Jacks.Foundations

universe u v w

/-- What a thread does next while it holds the mutex. -/
inductive Instr (σ : Type u) (K : Type v)
  | goto (k : K)
  | assign (data : σ) (k : K)
  /-- Give the mutex back and sleep; go on at `k` with the mutex. -/
  | wait (k : K)
  | signal (k : K)
  /-- Give the mutex back and return. -/
  | unlock

/-- The procedures of a monitor: where they start, and what comes next. -/
structure Procedures (σ : Type u) (K : Type v) where
  entry : K → Bool
  instr : K → σ → Instr σ K

/-- Where a thread is. -/
inductive Place (K : Type v)
  | outside
  | locking (k : K)
  | holding (k : K)
  | waiting (k : K)
  deriving DecidableEq

/-- A monitor and its threads.  The sleepers are those of the waiting threads that
have not been woken. -/
structure Monitor (ι : Type w) (σ : Type u) (K : Type v) where
  data : σ
  owner : Option ι
  sleepers : List ι
  place : ι → Place K

/-- A thread calls a procedure, gets the mutex, or executes its instruction; or it
wakes for no reason. -/
inductive MonitorAction (ι : Type w) (K : Type v)
  | call (t : ι) (k : K)
  | lock (t : ι)
  /-- `wakes` is whom a signal wakes. -/
  | run (t : ι) (wakes : Option ι)
  | wake (t : ι)

/-- An assignment, by the value it replaces. -/
inductive MonitorObs (ι : Type w) (σ : Type u) (K : Type v)
  | assigned (t : ι) (k : K) (before : σ)
  deriving DecidableEq

namespace Monitor

variable {ι : Type w} {σ : Type u} {K : Type v} [DecidableEq ι]

/-- Move a thread. -/
def move (m : Monitor ι σ K) (t : ι) (p : Place K) : Monitor ι σ K :=
  { m with place := Function.update m.place t p }

/-- `pthread_cond_signal`: it wakes a sleeper, if there is one. -/
def wakeOne : List ι → Option ι → Option (List ι)
  | [], _ => some []
  | sleepers, some s => if s ∈ sleepers then some (sleepers.erase s) else none
  | _, none => none

/-- One atomic step. -/
def next (P : Procedures σ K) (m : Monitor ι σ K) :
    MonitorAction ι K → Option (Monitor ι σ K × Option (MonitorObs ι σ K))
  | .call t k =>
      match m.place t with
      | .outside => if P.entry k then some (m.move t (.locking k), none) else none
      | _ => none
  | .lock t =>
      match m.owner, m.place t with
      | none, .locking k => some ({ m.move t (.holding k) with owner := some t }, none)
      | none, .waiting k =>
          if t ∈ m.sleepers then none
          else some ({ m.move t (.holding k) with owner := some t }, none)
      | _, _ => none
  | .run t wakes =>
      match m.place t with
      | .holding k =>
          match P.instr k m.data with
          | .goto k' => some (m.move t (.holding k'), none)
          | .assign data k' =>
              some ({ m.move t (.holding k') with data := data }, some (.assigned t k m.data))
          | .wait k' =>
              some ({ m.move t (.waiting k') with
                owner := none, sleepers := t :: m.sleepers }, none)
          | .signal k' =>
              match wakeOne m.sleepers wakes with
              | some sleepers => some ({ m.move t (.holding k') with sleepers := sleepers }, none)
              | none => none
          | .unlock => some ({ m.move t .outside with owner := none }, none)
      | _ => none
  | .wake t =>
      if t ∈ m.sleepers then some ({ m with sleepers := m.sleepers.erase t }, none) else none

/-- What a step can do. -/
inductive Step (P : Procedures σ K) (m : Monitor ι σ K) :
    Monitor ι σ K → Option (MonitorObs ι σ K) → Prop
  | called {t k} (here : m.place t = .outside) (entry : P.entry k = true) :
      Step P m (m.move t (.locking k)) none
  | locked {t k} (here : m.place t = .locking k) (free : m.owner = none) :
      Step P m { m.move t (.holding k) with owner := some t } none
  | resumed {t k} (here : m.place t = .waiting k) (free : m.owner = none)
      (awake : t ∉ m.sleepers) :
      Step P m { m.move t (.holding k) with owner := some t } none
  | went {t k k'} (here : m.place t = .holding k) (instr : P.instr k m.data = .goto k') :
      Step P m (m.move t (.holding k')) none
  | assigned {t k data k'} (here : m.place t = .holding k)
      (instr : P.instr k m.data = .assign data k') :
      Step P m { m.move t (.holding k') with data := data } (some (.assigned t k m.data))
  | slept {t k k'} (here : m.place t = .holding k) (instr : P.instr k m.data = .wait k') :
      Step P m { m.move t (.waiting k') with owner := none, sleepers := t :: m.sleepers } none
  | signalledNone {t k k'} (here : m.place t = .holding k)
      (instr : P.instr k m.data = .signal k') (nobody : m.sleepers = []) :
      Step P m (m.move t (.holding k')) none
  | signalled {t k k' s} (here : m.place t = .holding k)
      (instr : P.instr k m.data = .signal k') (asleep : s ∈ m.sleepers) :
      Step P m { m.move t (.holding k') with sleepers := m.sleepers.erase s } none
  | unlocked {t k} (here : m.place t = .holding k) (instr : P.instr k m.data = .unlock) :
      Step P m { m.move t .outside with owner := none } none
  | woke {t} (asleep : t ∈ m.sleepers) :
      Step P m { m with sleepers := m.sleepers.erase t } none

theorem wakeOne_cases {sleepers left : List ι} {wakes : Option ι}
    (woken : wakeOne sleepers wakes = some left) :
    (sleepers = [] ∧ left = []) ∨ ∃ s ∈ sleepers, left = sleepers.erase s := by
  unfold wakeOne at woken
  split at woken
  · exact Or.inl ⟨rfl, (Option.some.inj woken).symm⟩
  · next s _ =>
      split at woken
      · next asleep => exact Or.inr ⟨s, asleep, (Option.some.inj woken).symm⟩
      · cases woken
  · cases woken

/-- `next` does nothing else. -/
theorem step_of_next {P : Procedures σ K} {m m' : Monitor ι σ K} {a : MonitorAction ι K}
    {o : Option (MonitorObs ι σ K)} (moves : m.next P a = some (m', o)) : Step P m m' o := by
  cases a with
  | call t k =>
      simp only [next] at moves
      split at moves
      · next here =>
          split at moves
          · next entry => cases moves; exact .called here entry
          · cases moves
      · cases moves
  | lock t =>
      simp only [next] at moves
      split at moves
      · next free here => cases moves; exact .locked here free
      · next free here =>
          split at moves
          · cases moves
          · next awake => cases moves; exact .resumed here free awake
      · cases moves
  | run t wakes =>
      simp only [next] at moves
      split at moves
      · next here =>
          split at moves
          · next instr => cases moves; exact .went here instr
          · next instr => cases moves; exact .assigned here instr
          · next instr => cases moves; exact .slept here instr
          · next instr =>
              split at moves
              · next left woken =>
                  cases moves
                  rcases wakeOne_cases woken with ⟨nobody, rfl⟩ | ⟨s, asleep, rfl⟩
                  · have same := Step.signalledNone here instr nobody
                    rw [move] at same ⊢
                    rwa [← nobody]
                  · exact .signalled here instr asleep
              · cases moves
          · next instr => cases moves; exact .unlocked here instr
      · cases moves
  | wake t =>
      simp only [next] at moves
      split at moves
      · next asleep => cases moves; exact .woke asleep
      · cases moves

@[simp] theorem place_move_self (m : Monitor ι σ K) (t : ι) (p : Place K) :
    (m.move t p).place t = p := by
  simp [move]

@[simp] theorem place_move_of_ne (m : Monitor ι σ K) {t u : ι} (p : Place K) (other : u ≠ t) :
    (m.move t p).place u = m.place u := by
  simp [move, other]

@[simp] theorem data_move (m : Monitor ι σ K) (t : ι) (p : Place K) :
    (m.move t p).data = m.data := rfl

@[simp] theorem owner_move (m : Monitor ι σ K) (t : ι) (p : Place K) :
    (m.move t p).owner = m.owner := rfl

@[simp] theorem sleepers_move (m : Monitor ι σ K) (t : ι) (p : Place K) :
    (m.move t p).sleepers = m.sleepers := rfl

/-- A monitor nobody has called. -/
def new (data : σ) : Monitor ι σ K where
  data := data
  owner := none
  sleepers := []
  place := fun _ => .outside

end Monitor

/-! ## Conditions on programs -/

section Programs

variable {σ : Type u} {K : Type v}

/-- Assertions at the locations of a program: what starts or comes out of a wait
has nothing to rely on, and an instruction that keeps the mutex leads from one
assertion to the next. -/
structure Annotated (P : Procedures σ K) (A : K → σ → Prop) : Prop where
  entry : ∀ k, P.entry k = true → ∀ d, A k d
  wait : ∀ k d k', A k d → P.instr k d = .wait k' → ∀ d', A k' d'
  goto : ∀ k d k', A k d → P.instr k d = .goto k' → A k' d
  assign : ∀ k d d' k', A k d → P.instr k d = .assign d' k' → A k' d'
  signal : ∀ k d k', A k d → P.instr k d = .signal k' → A k' d

/-- What the assertions say of one thread. -/
def Place.Satisfies (A : K → σ → Prop) (d : σ) : Place K → Prop
  | .outside => True
  | .locking k | .waiting k => ∀ d', A k d'
  | .holding k => A k d

/-- A program relays wake-ups: a thread sleeps only while the value is not ready, and
comes back to a `pending` location; and a location that is pending, or at which the
value has become ready, leads to a signal or to a value that is not ready, before
the mutex is given back. -/
structure Relays (P : Procedures σ K) (ready : σ → Prop) (pending : K → Prop) : Prop where
  wait : ∀ k d k', P.instr k d = .wait k' → ¬ ready d ∧ pending k'
  goto : ∀ k d k', P.instr k d = .goto k' → ready d → pending k → pending k'
  assign : ∀ k d d' k', P.instr k d = .assign d' k' → ready d' →
    pending k' ∨ (ready d ∧ ¬ pending k)
  unlock : ∀ k d, P.instr k d = .unlock → ready d → ¬ pending k

end Programs

/-- A monitor with the threads `ι`, under calls of its procedures. -/
def monitorSystem (ι : Type w) [DecidableEq ι] {σ : Type u} {K : Type v} (P : Procedures σ K)
    (data : σ) : TraceSystem (Monitor ι σ K) (MonitorAction ι K) (MonitorObs ι σ K) where
  init := Monitor.new data
  next := Monitor.next P

namespace Monitor

variable {ι : Type w} {σ : Type u} {K : Type v} [DecidableEq ι]
variable {P : Procedures σ K} {data : σ} {m m' : Monitor ι σ K}
variable {history : List (MonitorObs ι σ K)} {o : Option (MonitorObs ι σ K)}

/-! ## The mutex -/

/-- Who holds the mutex owns it, and who sleeps is inside a wait. -/
structure Orderly (m : Monitor ι σ K) : Prop where
  owner : ∀ t k, m.place t = .holding k → m.owner = some t
  sleepers : ∀ t ∈ m.sleepers, ∃ k, m.place t = .waiting k
  nodup : m.sleepers.Nodup

namespace Orderly

omit [DecidableEq ι]

/-- A thread that is nowhere inside a wait does not sleep. -/
theorem awake (orderly : m.Orderly) {t : ι} (elsewhere : ∀ k, m.place t ≠ .waiting k) :
    t ∉ m.sleepers :=
  fun asleep => (orderly.sleepers t asleep).elim elsewhere

/-- **Mutual exclusion.** -/
theorem exclusive (orderly : m.Orderly) {t u : ι} {k k' : K} (here : m.place t = .holding k)
    (there : m.place u = .holding k') : u = t :=
  Option.some.inj ((orderly.owner u k' there).symm.trans (orderly.owner t k here))

/-- While the mutex is free nobody holds it. -/
theorem nobody (orderly : m.Orderly) (free : m.owner = none) (u : ι) (k : K) :
    m.place u ≠ .holding k := by
  intro there
  rw [orderly.owner u k there] at free
  cases free

end Orderly

/-- A move of a thread that is not asleep, with what becomes of the owner. -/
theorem Orderly.move (orderly : m.Orderly) {t : ι} {p : Place K} {owner : Option ι}
    (awake : t ∉ m.sleepers) (mine : ∀ k, p = .holding k → owner = some t)
    (others : ∀ u k, u ≠ t → m.place u = .holding k → owner = some u) :
    ({ m.move t p with owner := owner } : Monitor ι σ K).Orderly where
  owner u k there := by
    by_cases same : u = t
    · subst same
      exact mine k (by simpa using there)
    · exact others u k same (by simpa [same] using there)
  sleepers u asleep := by
    have other : u ≠ t := fun same => awake (same ▸ asleep)
    simpa [other] using orderly.sleepers u asleep
  nodup := orderly.nodup

theorem Orderly.erase (orderly : m.Orderly) (s : ι) :
    ({ m with sleepers := m.sleepers.erase s } : Monitor ι σ K).Orderly where
  owner := orderly.owner
  sleepers t asleep := orderly.sleepers t (List.mem_of_mem_erase asleep)
  nodup := orderly.nodup.erase s

theorem Orderly.step (orderly : m.Orderly) (moves : Step P m m' o) : m'.Orderly := by
  -- a thread that goes on with the mutex, or leaves with it
  have holder : ∀ {t k} (_ : m.place t = .holding k), t ∉ m.sleepers ∧
      ∀ {owner} u k', u ≠ t → m.place u = .holding k' → owner = some u := by
    intro t k here
    refine ⟨orderly.awake fun k' => by simp [here], fun u k' other there => ?_⟩
    exact absurd (orderly.exclusive here there) other
  cases moves with
  | called here entry =>
      exact orderly.move (orderly.awake fun k' => by simp [here]) (by simp)
        fun u k _ there => orderly.owner u k there
  | locked here free =>
      exact orderly.move (orderly.awake fun k' => by simp [here]) (fun _ _ => rfl)
        fun u k _ there => absurd there (orderly.nobody free u k)
  | resumed here free awake =>
      exact orderly.move awake (fun _ _ => rfl)
        fun u k _ there => absurd there (orderly.nobody free u k)
  | went here _ | signalledNone here _ _ =>
      exact orderly.move (holder here).1 (fun _ _ => orderly.owner _ _ here)
        fun u k _ there => orderly.owner u k there
  | @assigned t k data k' here _ =>
      have moved := orderly.move (p := .holding k') (holder here).1
        (fun _ _ => orderly.owner _ _ here) fun u k _ there => orderly.owner u k there
      exact ⟨moved.owner, moved.sleepers, moved.nodup⟩
  | @slept t k k' here _ =>
      have moved : ({ m.move t (.waiting k') with owner := none } : Monitor ι σ K).Orderly :=
        orderly.move (holder here).1 (by simp) (holder here).2
      refine ⟨moved.owner, fun u asleep => ?_, List.nodup_cons.mpr ⟨(holder here).1, moved.nodup⟩⟩
      rcases List.mem_cons.mp asleep with rfl | before
      · exact ⟨k', by simp⟩
      · exact moved.sleepers u before
  | @signalled t k k' s here _ asleep =>
      have moved := orderly.move (p := .holding k') (holder here).1
        (fun _ _ => orderly.owner _ _ here) fun u k _ there => orderly.owner u k there
      exact moved.erase s
  | unlocked here _ => exact orderly.move (holder here).1 (by simp) (holder here).2
  | woke asleep => exact orderly.erase _

theorem reaches_orderly (run : (monitorSystem ι P data).Reaches m history) : m.Orderly := by
  refine run.induct (I := fun m _ => m.Orderly) ?_ ?_
  · exact ⟨by simp [monitorSystem, new], by simp [monitorSystem, new], by simp [monitorSystem, new]⟩
  · intro m history a m' o _ orderly _ moves
    exact orderly.step (step_of_next moves)

/-! ## Assertions -/

/-- Every thread meets its assertion: only the thread that holds the mutex can change
the value, and no other relies on it. -/
theorem reaches_annotated {A : K → σ → Prop} (annotated : Annotated P A)
    (run : (monitorSystem ι P data).Reaches m history) :
    ∀ t, (m.place t).Satisfies A m.data := by
  refine run.induct (I := fun m _ => ∀ t, (m.place t).Satisfies A m.data) ?_ ?_
  · intro t
    trivial
  · intro m history a m' o before inv _ moves u
    -- a thread that moved on, next to those that stayed
    have moved : ∀ {t : ι} {p : Place K}, p.Satisfies A m.data →
        ((m.move t p).place u).Satisfies A m.data := by
      intro t p new
      by_cases same : u = t
      · subst same
        simpa using new
      · simpa [same] using inv u
    have at_holder : ∀ {t : ι} {k : K}, m.place t = .holding k → A k m.data := by
      intro t k here
      have now := inv t
      rwa [here] at now
    cases step_of_next moves with
    | called here entry => exact moved (annotated.entry _ entry)
    | @locked t k here free | @resumed t k here free awake =>
        have now := inv t
        rw [here] at now
        exact moved (now m.data)
    | went here instr => exact moved (annotated.goto _ _ _ (at_holder here) instr)
    | @assigned t k d k' here instr =>
        by_cases same : u = t
        · subst same
          simp only [place_move_self]
          exact annotated.assign _ _ _ _ (at_holder here) instr
        · -- another thread does not hold the mutex, so it does not look at the value
          have now := inv u
          simp only [place_move_of_ne _ _ same]
          cases there : m.place u with
          | holding k' => exact absurd ((reaches_orderly before).exclusive here there) same
          | outside => trivial
          | locking k' | waiting k' => rwa [there] at now
    | slept here instr => exact moved (annotated.wait _ _ _ (at_holder here) instr)
    | signalledNone here instr _ | signalled here instr _ =>
        exact moved (annotated.signal _ _ _ (at_holder here) instr)
    | unlocked here _ => exact moved trivial
    | woke asleep => exact inv u

/-! ## Wake-ups -/

/-- Somebody is on the way: a thread that has been woken, or one that holds the mutex
at a pending location. -/
def OnTheWay (pending : K → Prop) (m : Monitor ι σ K) (t : ι) : Prop :=
  (∃ k, m.place t = .waiting k ∧ t ∉ m.sleepers) ∨ ∃ k, m.place t = .holding k ∧ pending k

/-- While the value is ready, who sleeps is not alone; and who waits comes back to
a pending location. -/
structure Relayed (ready : σ → Prop) (pending : K → Prop) (m : Monitor ι σ K) : Prop where
  onTheWay : ready m.data → m.sleepers ≠ [] → ∃ t, m.OnTheWay pending t
  pending : ∀ t k, m.place t = .waiting k → pending k

omit [DecidableEq ι] in
/-- Nothing but a sleep takes a thread off its way while it stays where it is. -/
theorem OnTheWay.stays {pending : K → Prop} {u : ι} (way : m.OnTheWay pending u)
    (place : m'.place u = m.place u) (awake : u ∈ m'.sleepers → u ∈ m.sleepers) :
    m'.OnTheWay pending u := by
  unfold OnTheWay
  rw [place]
  exact way.imp_left fun ⟨k, waiting, up⟩ => ⟨k, waiting, fun asleep => up (awake asleep)⟩

theorem Relayed.step {ready : σ → Prop} {pending : K → Prop} (relays : Relays P ready pending)
    (orderly : m.Orderly) (relayed : m.Relayed ready pending) (moves : Step P m m' o) :
    m'.Relayed ready pending := by
  -- a step that moves one thread and puts nobody to sleep
  have step_of : ∀ (t : ι), m'.sleepers ⊆ m.sleepers →
      (∀ u, u ≠ t → m'.place u = m.place u) → (∀ k, m'.place t = .waiting k → pending k) →
      (ready m'.data → m'.sleepers ≠ [] → m'.OnTheWay pending t ∨
        (ready m.data ∧ ¬ m.OnTheWay pending t)) →
      m'.Relayed ready pending := by
    intro t fewer others waits way
    constructor
    · intro isReady asleep
      rcases way isReady asleep with itself | ⟨wasReady, off⟩
      · exact ⟨t, itself⟩
      · have before : m.sleepers ≠ [] := fun none => asleep (List.subset_nil.mp (none ▸ fewer))
        obtain ⟨u, onWay⟩ := relayed.onTheWay wasReady before
        have other : u ≠ t := fun same => off (same ▸ onWay)
        exact ⟨u, onWay.stays (others u other) fun asleep => fewer asleep⟩
    · intro u k waiting
      by_cases same : u = t
      · exact waits k (same ▸ waiting)
      · exact relayed.pending u k ((others u same) ▸ waiting)
  have others : ∀ {t u : ι} {p : Place K}, u ≠ t → (m.move t p).place u = m.place u :=
    fun other => place_move_of_ne m _ other
  cases moves with
  | @called t k here entry | @locked t k here free =>
      refine step_of t (fun _ => id) (fun u => others) (by simp) fun isReady _ => Or.inr ?_
      exact ⟨isReady, by simp [OnTheWay, here]⟩
  | @resumed t k here free awake =>
      -- who was woken goes on at a pending location
      refine step_of t (fun _ => id) (fun u => others) (by simp) fun _ _ => Or.inl (Or.inr ?_)
      exact ⟨k, by simp, relayed.pending t k here⟩
  | @went t k k' here instr =>
      refine step_of t (fun _ => id) (fun u => others) (by simp) fun isReady _ => ?_
      by_cases onWay : pending k
      · exact Or.inl (Or.inr ⟨k', by simp, relays.goto k m.data k' instr isReady onWay⟩)
      · exact Or.inr ⟨isReady, by simp [OnTheWay, here, onWay]⟩
  | @assigned t k d k' here instr =>
      refine step_of t (fun _ => id) (fun u => others) (by simp) fun isReady _ => ?_
      rcases relays.assign k m.data d k' instr isReady with onWay | ⟨wasReady, off⟩
      · exact Or.inl (Or.inr ⟨k', by simp, onWay⟩)
      · exact Or.inr ⟨wasReady, by simp [OnTheWay, here, off]⟩
  | @slept t k k' here instr =>
      obtain ⟨notReady, back⟩ := relays.wait k m.data k' instr
      refine ⟨fun isReady => absurd isReady notReady, fun u k'' waiting => ?_⟩
      by_cases same : u = t
      · subst same
        obtain rfl : k' = k'' := by simpa using waiting
        exact back
      · exact relayed.pending u k'' (by simpa [same] using waiting)
  | @signalledNone t k k' here instr nobody =>
      exact step_of t (fun _ => id) (fun u => others) (by simp) fun _ asleep =>
        absurd nobody asleep
  | @signalled t k k' s here instr asleep =>
      -- the sleeper that is woken is on the way
      obtain ⟨back, waiting⟩ := orderly.sleepers s asleep
      have other : s ≠ t := by
        rintro rfl
        rw [here] at waiting
        cases waiting
      refine ⟨fun _ _ => ⟨s, Or.inl ⟨back, ?_, ?_⟩⟩, fun u k'' there => ?_⟩
      · simpa [other] using waiting
      · exact orderly.nodup.not_mem_erase
      · by_cases same : u = t
        · subst same
          simp at there
        · exact relayed.pending u k'' (by simpa [same] using there)
  | @unlocked t k here instr =>
      refine step_of t (fun _ => id) (fun u => others) (by simp) fun isReady _ => Or.inr ?_
      exact ⟨isReady, by simp [OnTheWay, here, relays.unlock k m.data instr isReady]⟩
  | @woke s asleep =>
      obtain ⟨back, waiting⟩ := orderly.sleepers s asleep
      exact ⟨fun _ _ => ⟨s, Or.inl ⟨back, waiting, orderly.nodup.not_mem_erase⟩⟩,
        relayed.pending⟩

/-- **No wake-up is lost.**  Whenever the mutex is free, the value is ready and a
thread is asleep, another one has been woken and waits for the mutex. -/
theorem reaches_woken {ready : σ → Prop} {pending : K → Prop} (relays : Relays P ready pending)
    (run : (monitorSystem ι P data).Reaches m history) (isReady : ready m.data)
    (free : m.owner = none) (asleep : m.sleepers ≠ []) :
    ∃ t k, m.place t = .waiting k ∧ t ∉ m.sleepers := by
  have relayed : m.Relayed ready pending := by
    refine run.induct (I := fun m _ => m.Relayed ready pending) ?_ ?_
    · exact ⟨fun _ none => absurd rfl none, by simp [monitorSystem, new]⟩
    · intro m history a m' o before relayed _ moves
      exact relayed.step relays (reaches_orderly before) (step_of_next moves)
  obtain ⟨t, ⟨k, waiting, awake⟩ | ⟨k, holding, -⟩⟩ := relayed.onTheWay isReady asleep
  · exact ⟨t, k, waiting, awake⟩
  · exact absurd holding ((reaches_orderly run).nobody free t k)

end Monitor

end Jacks.Foundations
