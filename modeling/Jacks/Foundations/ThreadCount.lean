import Mathlib.Data.Fintype.Card
import Mathlib.Algebra.Order.BigOperators.Group.Finset
import Mathlib.Tactic.Common

/-!
# Counting threads by program location

Finitely many threads, each at a location of its program.  `countAt` is how
many of them are at a location that meets a condition; moving one thread changes
that number by what the old and the new location say, and nothing else.  This is
the counting half of an argument about tokens, waiters and half-finished
operations: the inequality between such counts is left to `omega`.  `totalAt` is the same
for locations that weigh more than one.
-/

namespace Jacks.Foundations

universe u v

variable {ι : Type u} {P : Type v} [Fintype ι] [DecidableEq ι]

/-- How many threads are at a location that meets `here`. -/
def countAt (loc : ι → P) (here : P → Bool) : ℕ :=
  ∑ i, (here (loc i)).toNat

/-- **Moving one thread.** -/
theorem countAt_update (loc : ι → P) (here : P → Bool) (i : ι) (p : P) :
    countAt (Function.update loc i p) here + (here (loc i)).toNat =
      countAt loc here + (here p).toNat := by
  have others : ∀ j ∈ Finset.univ.erase i,
      (here (Function.update loc i p j)).toNat = (here (loc j)).toNat := by
    intro j mem
    rw [Function.update_of_ne (Finset.ne_of_mem_erase mem)]
  unfold countAt
  rw [← Finset.add_sum_erase _ _ (Finset.mem_univ i), ← Finset.add_sum_erase (a := i) _
    (fun j => (here (loc j)).toNat) (Finset.mem_univ i), Finset.sum_congr rfl others,
    Function.update_self]
  omega

/-- What the locations of all threads weigh. -/
def totalAt (loc : ι → P) (weight : P → ℕ) : ℕ :=
  ∑ i, weight (loc i)

/-- **Moving one thread**, and what it weighs. -/
theorem totalAt_update (loc : ι → P) (weight : P → ℕ) (i : ι) (p : P) :
    totalAt (Function.update loc i p) weight + weight (loc i) =
      totalAt loc weight + weight p := by
  have others : ∀ j ∈ Finset.univ.erase i,
      weight (Function.update loc i p j) = weight (loc j) := by
    intro j mem
    rw [Function.update_of_ne (Finset.ne_of_mem_erase mem)]
  unfold totalAt
  rw [← Finset.add_sum_erase _ _ (Finset.mem_univ i), ← Finset.add_sum_erase (a := i) _
    (fun j => weight (loc j)) (Finset.mem_univ i), Finset.sum_congr rfl others,
    Function.update_self]
  omega

omit [DecidableEq ι] in
/-- No location weighs more than `k`. -/
theorem totalAt_le {loc : ι → P} {weight : P → ℕ} {k : ℕ} (le : ∀ p, weight p ≤ k) :
    totalAt loc weight ≤ Fintype.card ι * k := by
  calc totalAt loc weight ≤ ∑ _i : ι, k := Finset.sum_le_sum fun i _ => le (loc i)
    _ = Fintype.card ι * k := Finset.sum_const_nat fun _ _ => rfl

omit [DecidableEq ι] in
/-- No thread is counted exactly when no location meets the condition. -/
theorem countAt_eq_zero_iff {loc : ι → P} {here : P → Bool} :
    countAt loc here = 0 ↔ ∀ i, here (loc i) = false := by
  simp [countAt, Finset.sum_eq_zero_iff]

end Jacks.Foundations
