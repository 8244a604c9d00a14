import Mathlib.Data.List.Count
import Jacks.Foundations.TraceSystem

/-!
# Lifetimes

Objects that are used and freed, seen through the log of these accesses.  A log
respects their lifetimes if no object is freed twice and none is used after it
was freed.  What this asks of one more access is that its object has not been
freed before (`LifetimesRespected.concat_iff`), so a run is judged access by
access.
-/

namespace Jacks.Foundations

universe u

/-- An access to an object. -/
inductive Access (α : Type u)
  | use (object : α)
  | free (object : α)
  deriving DecidableEq

namespace Access

variable {α : Type u}

/-- What an access is to. -/
def object : Access α → α
  | use x => x
  | free x => x

@[simp] theorem object_use (x : α) : (use x).object = x := rfl

@[simp] theorem object_free (x : α) : (free x).object = x := rfl

end Access

variable {α : Type u} [DecidableEq α]

/-- No object is freed twice, and every object is live when it is used. -/
structure LifetimesRespected (log : List (Access α)) : Prop where
  freedOnce : ∀ x, log.count (.free x) ≤ 1
  usedLive : ∀ earlier later x, log = earlier ++ .use x :: later → .free x ∉ earlier

namespace LifetimesRespected

@[simp] theorem nil : LifetimesRespected ([] : List (Access α)) where
  freedOnce x := by simp
  usedLive earlier later x split := by simp at split

/-- **One more access.**  It may be made exactly while its object has not been
freed. -/
theorem concat_iff {log : List (Access α)} {a : Access α} :
    LifetimesRespected (log ++ [a]) ↔ LifetimesRespected log ∧ .free a.object ∉ log := by
  constructor
  · intro respected
    refine ⟨⟨fun x => ?_, fun earlier later x split => ?_⟩, ?_⟩
    · have once := respected.freedOnce x
      rw [List.count_append] at once
      omega
    · exact respected.usedLive earlier (later ++ [a]) x (by simp [split])
    · cases a with
      | use x => exact respected.usedLive log [] x rfl
      | free x =>
          have once := respected.freedOnce x
          rw [List.count_append, List.count_singleton_self] at once
          exact List.count_eq_zero.mp (by simpa using once)
  · rintro ⟨respected, live⟩
    refine ⟨fun x => ?_, fun earlier later x split => ?_⟩
    · have once := respected.freedOnce x
      rw [List.count_append]
      by_cases same : a = .free x
      · subst same
        have unfreed : log.count (.free x) = 0 := List.count_eq_zero.mpr live
        rw [List.count_singleton_self]
        omega
      · rw [List.count_singleton, if_neg (by simpa using same)]
        exact once
    · rcases concat_split split with ⟨rfl, rfl, -⟩ | ⟨front, shorter, -⟩
      · exact live
      · exact respected.usedLive earlier front x shorter

end LifetimesRespected

end Jacks.Foundations
