import Mathlib.Data.List.Infix
import Mathlib.Tactic.Common

/-!
# Trace systems

A machine with a partial, executable `next`: one action takes a state to at
most one successor and leaves at most one observation behind.  Histories are
kept outside the state, as the list of observations made so far, so that the
state of a modelled program holds what the program stores and nothing else,
while a property may still speak about the whole past of a run.

* `ReachesUnder G` — the states and histories of runs all of whose steps meet
  the condition `G` (a predicate on the state, the history and the action);
  `Reaches` is the unconditional case.
* `ReachesUnder.induct` — the invariant rule: one obligation for the initial
  state, one for a step.
* `ReachesUnder.of_isPrefix` — since a step makes at most one observation, every
  prefix of a reachable history is itself reachable.
* `Simulates` — every step of one machine is matched by a run of another,
  with the observations translated; invariants travel back along it.
-/

namespace Jacks.Foundations

universe u v w u' v' w'

/-- Where a history that has grown by one observation is split: at the new
observation, or at an earlier one. -/
theorem concat_split {α : Type u} {history before after : List α} {x y : α}
    (split : history ++ [x] = before ++ y :: after) :
    (history = before ∧ x = y ∧ after = []) ∨
      ∃ front, history = before ++ y :: front ∧ after = front ++ [x] := by
  rcases List.eq_nil_or_concat after with rfl | ⟨front, final, rfl⟩
  · obtain ⟨same, last⟩ := List.append_inj' split rfl
    exact Or.inl ⟨same, by simpa using last, rfl⟩
  · have shorter : history ++ [x] = (before ++ y :: front) ++ [final] := by
      simpa using split
    obtain ⟨same, last⟩ := List.append_inj' shorter rfl
    obtain rfl : x = final := by simpa using last
    exact Or.inr ⟨front, same, by simp⟩

/-- What is read off a history that has grown by a step. -/
theorem filterMap_observed {α : Type u} {β : Type v} (f : α → Option β) (history : List α)
    (o : Option α) : (history ++ o.toList).filterMap f =
      history.filterMap f ++ (o.bind f).toList := by
  cases o with
  | none => simp
  | some x => cases seen : f x <;> simp [seen]

/-- A machine with an initial state and a partial step function. -/
structure TraceSystem (S : Type u) (A : Type v) (O : Type w) where
  init : S
  next : S → A → Option (S × Option O)

namespace TraceSystem

variable {S : Type u} {A : Type v} {O : Type w}
variable (M : TraceSystem S A O)

/-- The states and histories of runs all of whose steps meet `G`. -/
inductive ReachesUnder (G : S → List O → A → Prop) : S → List O → Prop
  | init : ReachesUnder G M.init []
  | step {s : S} {history : List O} {a : A} {s' : S} {o : Option O} :
      ReachesUnder G s history → G s history a → M.next s a = some (s', o) →
        ReachesUnder G s' (history ++ o.toList)

/-- The states and histories of all runs. -/
abbrev Reaches : S → List O → Prop :=
  M.ReachesUnder fun _ _ _ => True

/-- Play a list of actions from a state and a history. -/
def exec (s : S) (history : List O) : List A → Option (S × List O)
  | [] => some (s, history)
  | a :: rest =>
      match M.next s a with
      | none => none
      | some (s', o) => exec s' (history ++ o.toList) rest

variable {M}

namespace ReachesUnder

variable {G H : S → List O → A → Prop} {s s' : S} {history : List O}

/-- A weaker condition admits more runs. -/
theorem mono (weaker : ∀ s history a, G s history a → H s history a)
    (h : M.ReachesUnder G s history) : M.ReachesUnder H s history := by
  induction h with
  | init => exact .init
  | step _ meets moves ih => exact .step ih (weaker _ _ _ meets) moves

theorem reaches (h : M.ReachesUnder G s history) : M.Reaches s history :=
  h.mono fun _ _ _ _ => trivial

/-- **The invariant rule.**  What holds initially and is kept by every step
that meets the condition holds in every state reached.  The step obligation may
use that the state before the step is itself reached, and hence every invariant
proved earlier. -/
theorem induct {I : S → List O → Prop} (h : M.ReachesUnder G s history)
    (base : I M.init [])
    (keep : ∀ s history a s' o, M.ReachesUnder G s history → I s history →
      G s history a → M.next s a = some (s', o) → I s' (history ++ o.toList)) :
    I s history := by
  induction h with
  | init => exact base
  | step before meets moves ih => exact keep _ _ _ _ _ before ih meets moves

/-- **Histories are closed under prefixes.**  A step makes at most one
observation, so a shorter history is the history of an earlier state. -/
theorem of_isPrefix (h : M.ReachesUnder G s history) {earlier : List O}
    (isPrefix : earlier <+: history) : ∃ t, M.ReachesUnder G t earlier := by
  induction h with
  | init =>
      rw [List.prefix_nil] at isPrefix
      subst isPrefix
      exact ⟨_, .init⟩
  | @step s history a s' o before meets moves ih =>
      cases o with
      | none => exact ih (by simpa using isPrefix)
      | some observation =>
          rcases List.prefix_concat_iff.mp isPrefix with rfl | shorter
          · exact ⟨s', .step before meets moves⟩
          · exact ih shorter

/-- The state just before an observation was made, and the step that made it. -/
theorem step_of_split (h : M.ReachesUnder G s history) {earlier later : List O}
    {observation : O} (split : history = earlier ++ observation :: later) :
    ∃ t a t', M.ReachesUnder G t earlier ∧ G t earlier a ∧
      M.next t a = some (t', some observation) := by
  induction h generalizing later with
  | init => simp at split
  | @step s history a s' o before meets moves ih =>
      cases o with
      | none => exact ih (by simpa using split)
      | some last =>
          rcases concat_split split with ⟨rfl, rfl, -⟩ | ⟨front, shorter, -⟩
          · exact ⟨s, a, s', before, meets, moves⟩
          · exact ih shorter

end ReachesUnder

/-- Playing a first action. -/
theorem exec_cons {s s' : S} {a : A} {o : Option O} (moves : M.next s a = some (s', o))
    (history : List O) (rest : List A) :
    M.exec s history (a :: rest) = M.exec s' (history ++ o.toList) rest := by
  simp [exec, moves]

/-- Playing one action. -/
theorem exec_single {s s' : S} {a : A} {o : Option O} (moves : M.next s a = some (s', o))
    (history : List O) : M.exec s history [a] = some (s', history ++ o.toList) := by
  simp [exec, moves]

/-- Playing two actions. -/
theorem exec_pair {s t s' : S} {a b : A} {o q : Option O} (first : M.next s a = some (t, o))
    (second : M.next t b = some (s', q)) (history : List O) :
    M.exec s history [a, b] = some (s', history ++ (o.toList ++ q.toList)) := by
  simp [exec, first, second]

/-- Nothing was played. -/
theorem eq_of_exec_nil {s s' : S} {history history' : List O}
    (plays : M.exec s history [] = some (s', history')) : s = s' ∧ history = history' := by
  simpa [exec] using plays

/-- The first action that was played. -/
theorem step_of_exec_cons {s s' : S} {a : A} {history history' : List O} {rest : List A}
    (plays : M.exec s history (a :: rest) = some (s', history')) :
    ∃ t o, M.next s a = some (t, o) ∧
      M.exec t (history ++ o.toList) rest = some (s', history') := by
  cases moves : M.next s a with
  | none => simp [exec, moves] at plays
  | some result => exact ⟨result.1, result.2, rfl, by simpa [exec, moves] using plays⟩

/-- Playing one list of actions after the other. -/
theorem exec_append {s t : S} {history history' : List O} {first second : List A}
    (plays : M.exec s history first = some (t, history')) :
    M.exec s history (first ++ second) = M.exec t history' second := by
  induction first generalizing s history with
  | nil =>
      obtain ⟨rfl, rfl⟩ := eq_of_exec_nil plays
      rfl
  | cons a rest ih =>
      obtain ⟨_, o, moves, plays⟩ := step_of_exec_cons plays
      rw [List.cons_append, exec_cons moves, ih plays]

variable (M)

/-! ## Properties of every step of a given run -/

/-- `P` holds of every step when `actions` are played from `s`; `P` sees the
state and history before the step, the action, what was observed and the state
after it.  A run that gets stuck has no further steps. -/
def Along (P : S → List O → A → Option O → S → Prop) : S → List O → List A → Prop
  | _, _, [] => True
  | s, history, a :: rest =>
      match M.next s a with
      | none => True
      | some (s', o) => P s history a o s' ∧ Along P s' (history ++ o.toList) rest

variable {M}

theorem along_cons {P : S → List O → A → Option O → S → Prop} {s s' : S}
    {history : List O} {a : A} {rest : List A} {o : Option O}
    (moves : M.next s a = some (s', o)) :
    M.Along P s history (a :: rest) ↔
      P s history a o s' ∧ M.Along P s' (history ++ o.toList) rest := by
  simp [Along, moves]

/-- A property of every step of a run, continued by another. -/
theorem along_append {P : S → List O → A → Option O → S → Prop} {s t : S}
    {history history' : List O} {first second : List A}
    (plays : M.exec s history first = some (t, history')) :
    M.Along P s history (first ++ second) ↔
      M.Along P s history first ∧ M.Along P t history' second := by
  induction first generalizing s history with
  | nil =>
      obtain ⟨rfl, rfl⟩ := eq_of_exec_nil plays
      simp [Along]
  | cons a rest ih =>
      obtain ⟨_, o, moves, plays⟩ := step_of_exec_cons plays
      rw [List.cons_append, along_cons moves, along_cons moves, ih plays, and_assoc]

/-- Whether a decidable property holds along a run. -/
instance decidableAlong (P : S → List O → A → Option O → S → Prop)
    [decide_step : ∀ s history a o s', Decidable (P s history a o s')] :
    ∀ (s : S) (history : List O) (actions : List A), Decidable (M.Along P s history actions)
  | _, _, [] => isTrue trivial
  | s, history, a :: rest =>
      match moves : M.next s a with
      | none => isTrue (by simp [Along, moves])
      | some (s', o) =>
          have := decidableAlong P s' (history ++ o.toList) rest
          decidable_of_iff (P s history a o s' ∧ M.Along P s' (history ++ o.toList) rest)
            (along_cons moves).symm

/-- What holds of every step holds along every run. -/
theorem along_of_forall {P : S → List O → A → Option O → S → Prop}
    (all : ∀ s history a o s', P s history a o s') :
    ∀ (actions : List A) (s : S) (history : List O), M.Along P s history actions := by
  intro actions
  induction actions with
  | nil => intro s history; trivial
  | cons a rest ih =>
      intro s history
      cases moves : M.next s a with
      | none => simp [Along, moves]
      | some result => exact (along_cons moves).mpr ⟨all _ _ _ _ _, ih _ _⟩

/-- What `exec` plays, all of its steps meeting the condition, is a run. -/
theorem ReachesUnder.exec {G : S → List O → A → Prop} {s s' : S} {history history' : List O}
    {actions : List A} (h : M.ReachesUnder G s history)
    (meets : M.Along (fun s history a _ _ => G s history a) s history actions)
    (plays : M.exec s history actions = some (s', history')) : M.ReachesUnder G s' history' := by
  induction actions generalizing s history with
  | nil =>
      obtain ⟨rfl, rfl⟩ := eq_of_exec_nil plays
      exact h
  | cons a rest ih =>
      obtain ⟨t, o, moves, plays⟩ := step_of_exec_cons plays
      obtain ⟨now, later⟩ := (along_cons moves).mp meets
      exact ih (.step h now moves) later plays

theorem Reaches.exec {s s' : S} {history history' : List O} {actions : List A}
    (h : M.Reaches s history) (plays : M.exec s history actions = some (s', history')) :
    M.Reaches s' history' :=
  ReachesUnder.exec h (along_of_forall (fun _ _ _ _ _ => trivial) actions s history) plays

/-- Playing only adds to the history. -/
theorem isPrefix_of_exec {s s' : S} {history history' : List O} {actions : List A}
    (plays : M.exec s history actions = some (s', history')) : history <+: history' := by
  induction actions generalizing s history with
  | nil =>
      obtain ⟨-, rfl⟩ := eq_of_exec_nil plays
      exact List.prefix_rfl
  | cons a rest ih =>
      obtain ⟨t, o, moves, plays⟩ := step_of_exec_cons plays
      exact (List.prefix_append _ _).trans (ih plays)

/-- Where every step that breaks a condition leaves a mark in the history, a run
without marks has kept it throughout. -/
theorem along_of_unmarked {G : S → List O → A → Prop} {marked : O → Prop}
    (marks : ∀ s history a s' o, M.next s a = some (s', o) → ¬ G s history a →
      ∃ x ∈ o, marked x)
    {s s' : S} {history history' : List O} {actions : List A}
    (plays : M.exec s history actions = some (s', history'))
    (unmarked : ∀ x ∈ history', ¬ marked x) :
    M.Along (fun s history a _ _ => G s history a) s history actions := by
  induction actions generalizing s history with
  | nil => trivial
  | cons a rest ih =>
      obtain ⟨t, o, moves, plays⟩ := step_of_exec_cons plays
      refine (along_cons moves).mpr ⟨?_, ih plays⟩
      by_contra broken
      obtain ⟨x, observed, isMarked⟩ := marks _ _ _ _ _ moves broken
      have recorded : x ∈ history ++ o.toList :=
        List.mem_append_right _ (Option.mem_toList.mpr observed)
      exact unmarked x ((isPrefix_of_exec plays).subset recorded) isMarked

/-- **Progress.**  Where every step that is not observed as `marked` takes a bound down,
no run goes on for longer than the bound without something marked. -/
theorem exists_marked_of_long {G : S → List O → A → Prop} {marked : O → Prop}
    {I : S → List O → ℕ → Prop}
    (step : ∀ s history n a s' o, I s history n → G s history a → M.next s a = some (s', o) →
      (∃ x ∈ o, marked x) ∨ ∃ n' < n, I s' (history ++ o.toList) n')
    {actions : List A} {s s' : S} {history observed : List O} {n : ℕ} (start : I s history n)
    (meets : M.Along (fun s history a _ _ => G s history a) s history actions)
    (plays : M.exec s history actions = some (s', history ++ observed))
    (long : n < actions.length) : ∃ x ∈ observed, marked x := by
  induction actions generalizing s history observed n with
  | nil => cases long
  | cons a rest ih =>
      obtain ⟨t, o, moves, plays⟩ := step_of_exec_cons plays
      obtain ⟨now, later⟩ := (along_cons moves).mp meets
      obtain ⟨observed', split⟩ := isPrefix_of_exec plays
      rw [List.append_assoc] at split
      obtain rfl : o.toList ++ observed' = observed := List.append_cancel_left split
      rcases step s history n a t o start now moves with ⟨x, seen, isMarked⟩ | ⟨n', less, next⟩
      · exact ⟨x, List.mem_append_left _ (Option.mem_toList.mpr seen), isMarked⟩
      · rw [← List.append_assoc] at plays
        have longer : n' < rest.length := by
          rw [List.length_cons] at long
          omega
        obtain ⟨x, mem, isMarked⟩ := ih next later plays longer
        exact ⟨x, List.mem_append_right _ mem, isMarked⟩

variable (M)

theorem reachesUnder_of_exec (G : S → List O → A → Prop) (actions : List A) {s : S}
    {history : List O} (meets : M.Along (fun s history a _ _ => G s history a) M.init [] actions)
    (plays : M.exec M.init [] actions = some (s, history)) : M.ReachesUnder G s history :=
  .exec .init meets plays

theorem reaches_of_exec (actions : List A) {s : S} {history : List O}
    (plays : M.exec M.init [] actions = some (s, history)) : M.Reaches s history :=
  .exec .init plays

/-- What is played from the initial state, with the history it leaves. -/
theorem exists_reachesUnder (G : S → List O → A → Prop) (actions : List A) {history : List O}
    (meets : M.Along (fun s history a _ _ => G s history a) M.init [] actions)
    (plays : (M.exec M.init [] actions).map Prod.snd = some history) :
    ∃ s, M.exec M.init [] actions = some (s, history) ∧ M.ReachesUnder G s history := by
  obtain ⟨⟨s, _⟩, played, rfl⟩ := Option.map_eq_some_iff.mp plays
  exact ⟨s, played, M.reachesUnder_of_exec G actions meets played⟩

variable {M}

/-- **Two step properties that agree under an invariant agree along every run**,
provided the first of them keeps the invariant.  This is how an exact condition
is proved: `P` is what is wanted of every step, `Q` a condition on the state
before it. -/
theorem along_congr {P Q : S → List O → A → Option O → S → Prop} {I : S → List O → Prop}
    (agree : ∀ s history a s' o, I s history → M.next s a = some (s', o) →
      (P s history a o s' ↔ Q s history a o s'))
    (keep : ∀ s history a s' o, I s history → M.next s a = some (s', o) →
      P s history a o s' → I s' (history ++ o.toList)) :
    ∀ (actions : List A) {s : S} {history : List O}, I s history →
      (M.Along P s history actions ↔ M.Along Q s history actions) := by
  intro actions
  induction actions with
  | nil => intro s history _; simp [Along]
  | cons a rest ih =>
      intro s history inv
      cases moves : M.next s a with
      | none => simp [Along, moves]
      | some result =>
          obtain ⟨s', o⟩ := result
          rw [along_cons moves, along_cons moves, ← agree s history a s' o inv moves]
          exact and_congr_right fun holds => ih (keep s history a s' o inv moves holds)

/-- **A property of histories, step by step.**  Where under an invariant one more
step keeps the property `J` of the history exactly if the step meets `Q`, a run
keeps `J` exactly if all of its steps meet `Q`. -/
theorem history_iff_along {J : List O → Prop} {Q : S → List O → A → Option O → S → Prop}
    {I : S → List O → Prop}
    (stepwise : ∀ s history a s' o, I s history → M.next s a = some (s', o) →
      (J (history ++ o.toList) ↔ J history ∧ Q s history a o s'))
    (keep : ∀ s history a s' o, I s history → M.next s a = some (s', o) →
      I s' (history ++ o.toList))
    {actions : List A} {s s' : S} {history history' : List O} (inv : I s history)
    (plays : M.exec s history actions = some (s', history')) :
    J history' ↔ J history ∧ M.Along Q s history actions := by
  induction actions generalizing s history with
  | nil =>
      obtain ⟨-, rfl⟩ := eq_of_exec_nil plays
      simp [Along]
  | cons a rest ih =>
      obtain ⟨t, o, moves, plays⟩ := step_of_exec_cons plays
      rw [ih (keep _ _ _ _ _ inv moves) plays, along_cons moves,
        stepwise _ _ _ _ _ inv moves, and_assoc]

/-! ## Steps as observations -/

variable (M) in
/-- The machine all of whose steps are observed, each with its action. -/
def logged : TraceSystem S A (A × Option O) where
  init := M.init
  next s a :=
    match M.next s a with
    | none => none
    | some (s', o) => some (s', some (a, o))

/-- What the machine itself would observe. -/
def observations (log : List (A × Option O)) : List O :=
  log.filterMap Prod.snd

@[simp] theorem observations_nil : observations ([] : List (A × Option O)) = [] := rfl

@[simp] theorem observations_concat (log : List (A × Option O)) (a : A) (o : Option O) :
    observations (log ++ [(a, o)]) = observations log ++ o.toList := by
  cases o <;> simp [observations]

theorem logged_next {s s' : S} {a : A} {x : Option (A × Option O)}
    (moves : M.logged.next s a = some (s', x)) :
    ∃ o, M.next s a = some (s', o) ∧ x = some (a, o) := by
  simp only [logged] at moves
  split at moves
  · cases moves
  · next t o step => cases moves; exact ⟨o, step, rfl⟩

/-- A logged run is a run. -/
theorem ReachesUnder.unlogged {G : S → List (A × Option O) → A → Prop} {s : S}
    {log : List (A × Option O)} (h : M.logged.ReachesUnder G s log) :
    M.Reaches s (observations log) := by
  induction h with
  | init => exact .init
  | step before _ moves ih =>
      obtain ⟨o, step, rfl⟩ := logged_next moves
      rw [Option.toList_some, observations_concat]
      exact .step ih trivial step

/-! ## Simulation -/

variable {T : Type u'} {B : Type v'} {P : Type w'}

/-- **Simulation.**  `view` reads a state of `N` off a state of `M`, `observe`
translates observations, and every step of `M` is matched by a run of `N` (of
any length, so also by standing still) that makes the translated observation. -/
structure Simulates (M : TraceSystem S A O) (N : TraceSystem T B P) (view : S → T)
    (observe : O → List P) : Prop where
  /-- The initial states correspond. -/
  init : view M.init = N.init
  /-- One step is matched by finitely many. -/
  step : ∀ {s s' : S} {a : A} {o : Option O}, M.next s a = some (s', o) →
    ∃ actions, ∀ history, N.exec (view s) history actions =
      some (view s', history ++ o.toList.flatMap observe)

/-- Every run of the simulated machine is seen as a run of the other one. -/
theorem Simulates.reaches {N : TraceSystem T B P} {view : S → T} {observe : O → List P}
    (sim : Simulates M N view observe) {s : S} {history : List O}
    (h : M.Reaches s history) : N.Reaches (view s) (history.flatMap observe) := by
  refine h.induct (I := fun s history => N.Reaches (view s) (history.flatMap observe))
    ?_ ?_
  · rw [sim.init]
    exact .init
  · intro s history a s' o _ seen _ moves
    obtain ⟨actions, plays⟩ := sim.step moves
    have run := Reaches.exec seen (plays _)
    rwa [← List.flatMap_append] at run

end TraceSystem

end Jacks.Foundations
