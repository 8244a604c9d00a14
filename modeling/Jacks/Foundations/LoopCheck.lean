import Mathlib.Data.Fintype.Pigeonhole
import Mathlib.Logic.Function.Iterate

/-!
# Finding loops in linked lists

A list is entered through a link and followed cell by cell.  Either it ends after some
number of cells (`EndsAfter`), or it goes on for ever (`Endless`), which in a finite
memory means that it runs into a loop.

`race` is the two-pointer check: one pointer goes on by one cell a round, the other by
two, until the first has come to the end or the second has caught up with it.  Where the
list ends, the second pointer never catches up (`EndsAfter.race`); where it does not, it
catches up within as many rounds as there are cells (`Endless.race`).
-/

namespace Jacks.Foundations

universe u

variable {ν : Type u} {next : ν → Option ν} {first : Option ν}

/-- The link after a number of cells. -/
def follow (next : ν → Option ν) (k : ℕ) : Option ν → Option ν := (·.bind next)^[k]

@[simp] theorem follow_zero : follow next 0 first = first := rfl

theorem follow_one : follow next 1 first = first.bind next := rfl

/-- First some cells, then some more. -/
theorem follow_add (k m : ℕ) : follow next (m + k) first = follow next m (follow next k first) := by
  unfold follow
  rw [Function.iterate_add_apply]

theorem follow_succ (k : ℕ) : follow next (k + 1) first = (follow next k first).bind next := by
  rw [Nat.add_comm, follow_add, follow_one]

/-- There is nothing behind the end. -/
@[simp] theorem follow_none (k : ℕ) : follow next k none = none := by
  induction k with
  | zero => rfl
  | succ k ih => rw [follow_succ, ih, Option.bind_none]

/-- The list has this many cells. -/
structure EndsAfter (next : ν → Option ν) (first : Option ν) (n : ℕ) : Prop where
  ends : follow next n first = none
  goesOn : ∀ k < n, follow next k first ≠ none

/-- The empty list. -/
theorem EndsAfter.nil : EndsAfter next none 0 :=
  ⟨rfl, fun _ less => absurd less (Nat.not_lt_zero _)⟩

/-- One cell more. -/
theorem EndsAfter.cons {x : ν} {n : ℕ} (rest : EndsAfter next (next x) n) :
    EndsAfter next (some x) (n + 1) := by
  refine ⟨rest.ends, fun k less => ?_⟩
  cases k with
  | zero => exact Option.some_ne_none x
  | succ k => exact rest.goesOn k (Nat.lt_of_succ_lt_succ less)

/-- The list never ends. -/
def Endless (next : ν → Option ν) (first : Option ν) : Prop := ∀ k, follow next k first ≠ none

/-- A list ends or it does not. -/
theorem endsAfter_or_endless (next : ν → Option ν) (first : Option ν) :
    (∃ n, EndsAfter next first n) ∨ Endless next first := by
  classical
  by_cases ends : ∃ n, follow next n first = none
  · exact .inl ⟨Nat.find ends, Nat.find_spec ends, fun k less => Nat.find_min ends less⟩
  · right
    intro k isNone
    exact ends ⟨k, isNone⟩

/-- A list that comes back to a cell never ends. -/
theorem endless_of_return {i p : ℕ} (back : follow next (i + p) first = follow next i first)
    (moved : 0 < p) (cell : follow next i first ≠ none) : Endless next first := by
  have again : ∀ m, follow next (i + m * p) first = follow next i first := by
    intro m
    induction m with
    | zero => rw [Nat.zero_mul, Nat.add_zero]
    | succ m ih =>
        calc follow next (i + (m + 1) * p) first
            = follow next (p + (i + m * p)) first := by rw [Nat.succ_mul]; congr 1; omega
          _ = follow next p (follow next i first) := by rw [follow_add, ih]
          _ = follow next i first := by rw [← follow_add, Nat.add_comm, back]
  intro k isNone
  have later : i + k * p = (i + k * p - k) + k := by
    have : k * 1 ≤ k * p := Nat.mul_le_mul_left k moved
    omega
  apply cell
  rw [← again k, later, follow_add, isNone, follow_none]

namespace EndsAfter

variable {n : ℕ} (endsAfter : EndsAfter next first n)
include endsAfter

theorem none_of_le {k : ℕ} (le : n ≤ k) : follow next k first = none := by
  obtain ⟨m, rfl⟩ := Nat.exists_eq_add_of_le' le
  rw [follow_add, endsAfter.ends, follow_none]

theorem not_endless : ¬ Endless next first := fun endless => endless n endsAfter.ends

/-- What comes after the first cell is shorter by one. -/
theorem tail {x : ν} (entry : first = some x) : ∃ m, n = m + 1 ∧ EndsAfter next (next x) m := by
  subst entry
  cases n with
  | zero => cases endsAfter.ends
  | succ m =>
      refine ⟨m, rfl, endsAfter.ends, fun k less => ?_⟩
      exact endsAfter.goesOn (k + 1) (Nat.succ_lt_succ less)

/-- No cell comes twice. -/
theorem le_card [Fintype ν] : n ≤ Fintype.card ν := by
  have cell : ∀ i : Fin n, ∃ x, follow next i.1 first = some x := fun i =>
    Option.ne_none_iff_exists'.mp (endsAfter.goesOn i.1 i.2)
  choose cellAt there using cell
  have injective : Function.Injective cellAt := by
    intro i j same
    by_contra apart
    wlog less : i.1 < j.1 generalizing i j
    · exact this same.symm (Ne.symm apart) (by omega)
    apply endsAfter.not_endless
    refine endless_of_return (i := i.1) (p := j.1 - i.1) ?_ (by omega)
      (endsAfter.goesOn i.1 i.2)
    rw [Nat.add_sub_cancel' less.le, there, there, same]
  simpa using Fintype.card_le_of_injective cellAt injective

end EndsAfter

/-- In a finite memory two pointers of which one is twice as fast meet on an endless list. -/
theorem Endless.meet [Fintype ν] (endless : Endless next first) :
    ∃ m, 0 < m ∧ m ≤ Fintype.card ν ∧ follow next (2 * m) first = follow next m first := by
  have cell : ∀ i : Fin (Fintype.card ν + 1), ∃ x, follow next i.1 first = some x := fun i =>
    Option.ne_none_iff_exists'.mp (endless i.1)
  choose cellAt there using cell
  obtain ⟨i, j, apart, same⟩ := Fintype.exists_ne_map_eq_of_card_lt cellAt (by simp)
  wlog less : i.1 < j.1 generalizing i j
  · exact this j i (Ne.symm apart) same.symm (by omega)
  obtain ⟨p, split⟩ : ∃ p, j.1 = p + i.1 := ⟨j.1 - i.1, by omega⟩
  have moved : 0 < p := by omega
  have back : follow next p (follow next i.1 first) = follow next i.1 first := by
    rw [← follow_add, ← split, there, there, same]
  -- from `i` on the list repeats itself after `p` cells
  have repeats : ∀ c k, i.1 ≤ k → follow next (p * c + k) first = follow next k first := by
    intro c k le
    obtain ⟨m, rfl⟩ := Nat.exists_eq_add_of_le' le
    induction c with
    | zero => rw [Nat.mul_zero, Nat.zero_add]
    | succ c ih =>
        calc follow next (p * (c + 1) + (m + i.1)) first
            = follow next (p * c + m + (p + i.1)) first := by rw [Nat.mul_succ]; congr 1; omega
          _ = follow next (p * c + m) (follow next i.1 first) := by
                rw [follow_add, follow_add i.1 p, back]
          _ = follow next (m + i.1) first := by rw [← follow_add, Nat.add_assoc, ih]
  -- the first multiple of `p` beyond `i`
  refine ⟨p * (i.1 / p + 1), Nat.mul_pos moved (Nat.succ_pos _), ?_, ?_⟩
  · have below := Nat.mul_div_le i.1 p
    have bound := j.2
    rw [Nat.mul_succ]
    omega
  · have beyond : i.1 ≤ p * (i.1 / p + 1) := (Nat.lt_mul_div_succ i.1 moved).le
    rw [Nat.two_mul]
    exact repeats _ _ beyond

section Race

variable [DecidableEq ν]

/-- The two-pointer check, up to a number of rounds: where the pointers are when it is over.
The first pointer is at a cell at the start of each round. -/
def race (next : ν → Option ν) : ℕ → ν → Option ν → Option (Option ν × Option ν)
  | 0, _, _ => none
  | rounds + 1, slow, fast =>
      match next slow, (fast.bind next).bind next with
      | none, fast' => some (none, fast')
      | some slow', fast' =>
          if fast' = some slow' then some (some slow', fast') else race next rounds slow' fast'

/-- One round from the `k`-th cell on. -/
theorem race_succ {rounds k : ℕ} {slow : ν} (at_slow : follow next k first = some slow) :
    race next (rounds + 1) slow (follow next (2 * k) first) =
      match follow next (k + 1) first with
      | none => some (none, follow next (2 * (k + 1)) first)
      | some slow' =>
          if follow next (2 * (k + 1)) first = some slow' then
            some (some slow', follow next (2 * (k + 1)) first)
          else race next rounds slow' (follow next (2 * (k + 1)) first) := by
  have slowOn : follow next (k + 1) first = next slow := by
    rw [follow_succ, at_slow, Option.bind_some]
  have fastOn : follow next (2 * (k + 1)) first =
      ((follow next (2 * k) first).bind next).bind next := by
    rw [Nat.mul_succ, follow_succ, follow_succ]
  rw [slowOn, fastOn, race]
  cases next slow <;> rfl

/-- Where the list ends, the second pointer never catches up. -/
theorem EndsAfter.race_from {n : ℕ} (endsAfter : EndsAfter next first n) (rounds : ℕ) :
    ∀ k slow, n ≤ rounds + k → follow next k first = some slow →
      ∃ fast, race next rounds slow (follow next (2 * k) first) = some (none, fast) := by
  induction rounds with
  | zero =>
      intro k slow enough at_slow
      rw [endsAfter.none_of_le (by omega)] at at_slow
      cases at_slow
  | succ rounds ih =>
      intro k slow enough at_slow
      rw [race_succ at_slow]
      cases slowOn : follow next (k + 1) first with
      | none => exact ⟨_, rfl⟩
      | some slow' =>
          have apart : follow next (2 * (k + 1)) first ≠ some slow' := by
            intro caught
            apply endsAfter.not_endless
            refine endless_of_return (i := k + 1) (p := k + 1) ?_ (Nat.succ_pos k) ?_
            · rw [← Nat.two_mul, caught, slowOn]
            · rw [slowOn]
              exact Option.some_ne_none slow'
          obtain ⟨fast, run⟩ := ih (k + 1) slow' (by omega) slowOn
          exact ⟨fast, (if_neg apart).trans run⟩

/-- On an endless list it has caught up at the latest where the two meet. -/
theorem Endless.race_from (endless : Endless next first) {m : ℕ}
    (meet : follow next (2 * m) first = follow next m first) (rounds : ℕ) :
    ∀ k slow, k < m → m ≤ rounds + k → follow next k first = some slow →
      ∃ y, race next rounds slow (follow next (2 * k) first) = some (some y, some y) := by
  induction rounds with
  | zero =>
      intro k slow less enough
      omega
  | succ rounds ih =>
      intro k slow less enough at_slow
      rw [race_succ at_slow]
      cases slowOn : follow next (k + 1) first with
      | none => exact absurd slowOn (endless (k + 1))
      | some slow' =>
          by_cases caught : follow next (2 * (k + 1)) first = some slow'
          · exact ⟨slow', (if_pos caught).trans (by rw [caught])⟩
          · have notYet : k + 1 ≠ m := by
              rintro rfl
              exact caught (meet.trans slowOn)
            obtain ⟨y, run⟩ := ih (k + 1) slow' (by omega) (by omega) slowOn
            exact ⟨y, (if_neg caught).trans run⟩

/-- **Where the list ends, the check comes to its end.** -/
theorem EndsAfter.race {n : ℕ} {x : ν} (endsAfter : EndsAfter next (some x) n) {rounds : ℕ}
    (enough : n ≤ rounds) : ∃ fast, race next rounds x (some x) = some (none, fast) :=
  endsAfter.race_from rounds 0 x enough rfl

/-- **Where it does not, the second pointer catches up.** -/
theorem Endless.race [Fintype ν] {x : ν} (endless : Endless next (some x)) {rounds : ℕ}
    (enough : Fintype.card ν ≤ rounds) :
    ∃ y, race next rounds x (some x) = some (some y, some y) := by
  obtain ⟨m, positive, le, meet⟩ := endless.meet
  exact endless.race_from meet rounds 0 x positive (le.trans enough) rfl

end Race

end Jacks.Foundations
