import Jacks.Foundations.TraceSystem
import Mathlib.Data.Nat.Basic
import Mathlib.Logic.Function.Basic

/-!
# Threads over a shared memory

A program whose threads each have a location of their own and share one memory; a
step of the machine is one access of one thread.  The proof rule is rely and guarantee
with a ghost state: what is said of the memory (`shared`) and what is said of one
thread at its location (`here`) may mention the ghost, each step of a thread picks the
ghost's next value, and a thread has to accept (`stable`) only what the others
guarantee (`rely`).

The ghost contains the state of a specification machine.  So the rule concludes more
than an invariant: the history of every run is a history of the specification
(`Outline.reaches`).
-/

namespace Jacks.Foundations

universe u v w x y z z' z''

/-- A memory, and where each thread is. -/
structure Threads (ι : Type u) (M : Type v) (P : Type w) where
  mem : M
  pc : ι → P

/-- What a thread does next: a step in its program, given what it is asked to do. -/
abbrev Advance (ι : Type u) (M : Type v) (P : Type w) (A : Type x) (O : Type y) :=
  ι → M → P → A → Option (M × P × Option O)

variable {ι : Type u} {M : Type v} {P : Type w} {A : Type x} {O : Type y}

/-- The machine of the threads: any of them takes the next step. -/
def Advance.system [DecidableEq ι] (advance : Advance ι M P A O) (init : Threads ι M P) :
    TraceSystem (Threads ι M P) (ι × A) O where
  init := init
  next s a :=
    match advance a.1 s.mem (s.pc a.1) a.2 with
    | none => none
    | some (m, p, o) => some ({ mem := m, pc := Function.update s.pc a.1 p }, o)

/-- A step of the machine is a step of one thread. -/
theorem Advance.of_next [DecidableEq ι] {advance : Advance ι M P A O} {init s s' : Threads ι M P}
    {t : ι} {a : A} {o : Option O} (moves : (advance.system init).next s (t, a) = some (s', o)) :
    ∃ m p, advance t s.mem (s.pc t) a = some (m, p, o) ∧
      s' = { mem := m, pc := Function.update s.pc t p } := by
  simp only [Advance.system] at moves
  split at moves
  · cases moves
  · next m p o taken => cases moves; exact ⟨m, p, taken, rfl⟩

/-- The machine takes the step of a thread. -/
theorem Advance.next_eq [DecidableEq ι] {advance : Advance ι M P A O} {init s : Threads ι M P}
    {t : ι} {a : A} {m : M} {p : P} {o : Option O}
    (taken : advance t s.mem (s.pc t) a = some (m, p, o)) :
    (advance.system init).next s (t, a) =
      some ({ mem := m, pc := Function.update s.pc t p }, o) := by
  simp [Advance.system, taken]

/-! ## A thread that is left alone -/

/-- The thread, asked to go on and left alone, is done after at most `n` steps. -/
inductive Advance.Finishes (advance : Advance ι M P A O) (go : A) (done : P) (t : ι) :
    ℕ → M → P → Prop
  | done {n m} : Finishes advance go done t n m done
  | step {n m p m' p' o} (taken : advance t m p go = some (m', p', o))
      (rest : Finishes advance go done t n m' p') : Finishes advance go done t (n + 1) m p

theorem Advance.Finishes.mono {advance : Advance ι M P A O} {go : A} {done : P} {t : ι}
    {n k : ℕ} {m : M} {p : P} (finishes : Advance.Finishes advance go done t n m p)
    (le : n ≤ k) : Advance.Finishes advance go done t k m p := by
  induction finishes generalizing k with
  | done => exact .done
  | step taken _ ih =>
      obtain ⟨j, rfl⟩ := Nat.exists_eq_add_of_lt le
      exact .step taken (ih (by omega))

/-- The machine plays the steps of the thread, and no other moves. -/
theorem Advance.Finishes.exec [DecidableEq ι] {advance : Advance ι M P A O} {go : A} {done : P}
    {t : ι} {n : ℕ} {s : Threads ι M P}
    (finishes : Advance.Finishes advance go done t n s.mem (s.pc t)) (init : Threads ι M P)
    (history : List O) :
    ∃ k ≤ n, ∃ s' observed, (advance.system init).exec s history (List.replicate k (t, go)) =
      some (s', history ++ observed) ∧ s'.pc t = done ∧ ∀ t', t' ≠ t → s'.pc t' = s.pc t' := by
  generalize at_mem : s.mem = m at finishes
  generalize at_pc : s.pc t = p at finishes
  induction finishes generalizing s history with
  | done => exact ⟨0, Nat.zero_le _, s, [], by simp [TraceSystem.exec], at_pc, fun _ _ => rfl⟩
  | @step n m p m' p' o taken _ ih =>
      subst at_mem at_pc
      have moves : (advance.system init).next s (t, go) =
          some ({ mem := m', pc := Function.update s.pc t p' }, o) := Advance.next_eq taken
      obtain ⟨k, le, s', observed, plays, done, others⟩ :=
        ih (s := { mem := m', pc := Function.update s.pc t p' }) (history ++ o.toList) rfl
          (Function.update_self t p' s.pc)
      refine ⟨k + 1, Nat.succ_le_succ le, s', o.toList ++ observed, ?_, done, fun t' other => ?_⟩
      · rw [List.replicate_succ, TraceSystem.exec_cons moves, plays, List.append_assoc]
      · rw [others t' other]
        exact Function.update_of_ne other p' s.pc

/-! ## Proof outlines -/

variable {T : Type z} {B : Type z'} {Γ : Type z''}

/-- The specification stands still, or a user makes one step of it, with the same
observation. -/
inductive TraceSystem.Answers (N : TraceSystem T (ι × B) O) (t : ι) (q : T) :
    T → Option O → Prop
  | idle : Answers N t q q none
  | step {b : B} {q' : T} {o : Option O} (moves : N.next q (t, b) = some (q', o)) :
      Answers N t q q' o

theorem TraceSystem.Answers.reaches {N : TraceSystem T (ι × B) O} {t : ι} {q q' : T}
    {o : Option O} {history : List O} (answers : N.Answers t q q' o)
    (run : N.Reaches q history) : N.Reaches q' (history ++ o.toList) := by
  cases answers with
  | idle => simpa using run
  | step moves => exact .step run trivial moves

/-- A proof outline of a concurrent program against a specification. -/
structure Outline (advance : Advance ι M P A O) (G : Threads ι M P → List O → ι × A → Prop)
    (N : TraceSystem T (ι × B) O) (Γ : Type z'') where
  /-- The specification's state, as part of the ghost. -/
  spec : Γ → T
  /-- What holds of the memory between any two steps. -/
  shared : M → Γ → Prop
  /-- What a thread at a location may count on. -/
  here : ι → M → Γ → P → Prop
  /-- What a thread lets the others do in one step. -/
  rely : ι → M → Γ → M → Γ → Prop
  /-- What a thread counts on survives what it lets the others do. -/
  stable : ∀ {t m g m' g' p}, shared m g → shared m' g' → here t m g p → rely t m g m' g' →
    here t m' g' p
  /-- A step keeps what is shared, goes where its thread may be, does to the others what
  they let it do, and is answered by the specification. -/
  step : ∀ {s : Threads ι M P} {history t a m p o g}, G s history (t, a) → shared s.mem g →
    (∀ t, here t s.mem g (s.pc t)) → advance t s.mem (s.pc t) a = some (m, p, o) →
    ∃ g', shared m g' ∧ here t m g' p ∧ (∀ t', t' ≠ t → rely t' s.mem g m g') ∧
      N.Answers t (spec g) (spec g') o

namespace Outline

variable {advance : Advance ι M P A O} {G : Threads ι M P → List O → ι × A → Prop}
variable {N : TraceSystem T (ι × B) O}

/-- The outline describes a state. -/
structure Describes (outline : Outline advance G N Γ) (s : Threads ι M P) (g : Γ) : Prop where
  shared : outline.shared s.mem g
  here : ∀ t, outline.here t s.mem g (s.pc t)

variable [DecidableEq ι]

/-- One step of the machine. -/
theorem Describes.step {outline : Outline advance G N Γ} {init s s' : Threads ι M P}
    {history : List O} {a : ι × A} {o : Option O} {g : Γ} (described : outline.Describes s g)
    (meets : G s history a) (moves : (advance.system init).next s a = some (s', o)) :
    ∃ g', outline.Describes s' g' ∧ N.Answers a.1 (outline.spec g) (outline.spec g') o := by
  obtain ⟨m, p, taken, rfl⟩ := Advance.of_next (t := a.1) (a := a.2) moves
  obtain ⟨g', kept, arrived, others, answered⟩ :=
    outline.step meets described.shared described.here taken
  refine ⟨g', ⟨kept, fun t => ?_⟩, answered⟩
  by_cases same : t = a.1
  · subst same
    show outline.here a.1 m g' (Function.update s.pc a.1 p a.1)
    rw [Function.update_self]
    exact arrived
  · show outline.here t m g' (Function.update s.pc a.1 p t)
    rw [Function.update_of_ne same]
    exact outline.stable described.shared kept (described.here t) (others t same)

/-- **The rule.**  Where the outline describes the initial state, it describes every
state reached under the condition, and the history is one of the specification. -/
theorem reaches (outline : Outline advance G N Γ) {init s : Threads ι M P} {history : List O}
    (start : ∃ g, outline.Describes init g ∧ outline.spec g = N.init)
    (run : (advance.system init).ReachesUnder G s history) :
    ∃ g, outline.Describes s g ∧ N.Reaches (outline.spec g) history := by
  refine run.induct (I := fun s history =>
    ∃ g, outline.Describes s g ∧ N.Reaches (outline.spec g) history) ?_ ?_
  · obtain ⟨g, described, initial⟩ := start
    exact ⟨g, described, by rw [initial]; exact .init⟩
  · rintro s history a s' o - ⟨g, described, reached⟩ meets moves
    obtain ⟨g', described', answers⟩ := described.step meets moves
    exact ⟨g', described', answers.reaches reached⟩

end Outline

end Jacks.Foundations
