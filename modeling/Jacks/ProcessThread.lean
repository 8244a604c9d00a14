import Jacks.RunningClient

/-!
# The process thread on its own

`ProcessMove` says what a step of a running client is to the thread that runs
`_process_cb`: one of its own moves, with what is observed of it, or nothing at
all.  What concerns this thread alone is proved by cases on these moves
(`Step.processMove`), of which there are fewer than steps of the client.
-/

namespace Jacks

open JackRingbuffer

universe u v

/-- The observations only the process thread makes. -/
def Obs.ofProcess {κ : Type v} : Obs κ → Bool
  | .wrote _ _ _ _ _ => true
  | .processReturned _ _ => true
  | .enqueued o => o.event = .process
  | .refused o => o.event = .process
  | _ => false

/-- What a step of a client with `n` ports is to the process thread. -/
inductive ProcessMove {κ : Type v} (n : ℕ) :
    Thread ProcessPc → Thread ProcessPc → Option (Obs κ) → Prop
  | still {t o} (quiet : o.any Obs.ofProcess = false) : ProcessMove n t t o
  | invoked {cycle call} : ProcessMove n ⟨cycle, .idle⟩ ⟨cycle, .loop call 0⟩ none
  | endOfPorts {cycle call i} (last : n ≤ i) :
      ProcessMove n ⟨cycle, .loop call i⟩ ⟨cycle, .done 0⟩ none
  | wrote {cycle call i free data} (block : data.length = 4 * call.nframes.toNat) :
      ProcessMove n ⟨cycle, .loop call i⟩ ⟨cycle, .enqueue call i⟩
        (some (.wrote cycle i free data 0))
  | overran {cycle call i free data} :
      ProcessMove n ⟨cycle, .loop call i⟩ ⟨cycle, .done (-1)⟩
        (some (.wrote cycle i free data (-1)))
  | enqueued {cycle call i} :
      ProcessMove n ⟨cycle, .enqueue call i⟩ ⟨cycle, .post call i⟩
        (some (.enqueued (.process cycle i)))
  | refused {cycle call i} :
      ProcessMove n ⟨cycle, .enqueue call i⟩ ⟨cycle, .done (-1)⟩
        (some (.refused (.process cycle i)))
  | posted {cycle call i} :
      ProcessMove n ⟨cycle, .post call i⟩ ⟨cycle, .loop call (i + 1)⟩ none
  | returned {cycle rc} :
      ProcessMove n ⟨cycle, .done rc⟩ ⟨cycle + 1, .idle⟩ (some (.processReturned cycle rc))

section Moves

variable {ρ : Type u} {κ : Type v} [DecidableEq κ] [JackRingbuffer ρ]

theorem RunningClient.Step.processMove {s s' : RunningClient ρ κ} {a : Action κ}
    {o : Option (Obs κ)} (moves : Step s a s' o) :
    ProcessMove s.client.ports.length s.process s'.process o := by
  cases moves with
  | processCb here => rw [Thread.eq_of_pc here]; exact .invoked
  | endOfPorts here last =>
      rw [Thread.eq_of_pc here]
      exact .endOfPorts (List.getElem?_eq_none_iff.mp last)
  | wrote here port success => rw [Thread.eq_of_pc here]; exact .wrote (length_captured _ _)
  | overran here port failure => rw [Thread.eq_of_pc here]; exact .overran
  | processEnqueued here room => rw [Thread.eq_of_pc here]; exact .enqueued
  | processRefused here full => rw [Thread.eq_of_pc here]; exact .refused
  | processPosted here => rw [Thread.eq_of_pc here]; exact .posted
  | processReturned here => rw [Thread.eq_of_pc here]; exact .returned
  | @controlEnqueued cb q here room | @controlRefused cb here full =>
      refine .still ?_
      cases cb <;> rfl
  | _ => exact .still rfl

end Moves

/-! ## Completed invocations -/

/-- The invocations that returned are those completed. -/
def ReturnedAll {κ : Type v} (t : Thread ProcessPc) (history : List (Obs κ)) : Prop :=
  ∀ cycle, (∃ rc, .processReturned cycle rc ∈ history) ↔ cycle < t.serial

theorem ReturnedAll.step {κ : Type v} {n : ℕ} {t t' : Thread ProcessPc} {history : List (Obs κ)}
    {o : Option (Obs κ)} (inv : ReturnedAll t history) (moves : ProcessMove n t t' o) :
    ReturnedAll t' (history ++ o.toList) := by
  intro cycle
  have before := inv cycle
  cases moves with
  | @still t o quiet =>
      rw [← before]
      rcases o with _ | x
      · simp
      · cases x with
        | processReturned => cases quiet
        | _ => simp
  | @returned m rc =>
      have split : (∃ rc', .processReturned cycle rc' ∈
          history ++ (some (.processReturned m rc : Obs κ)).toList) ↔
          (∃ rc', .processReturned cycle rc' ∈ history) ∨ cycle = m := by
        simp [exists_or]
      rw [split, before]
      exact Nat.lt_succ_iff_lt_or_eq.symm
  | _ => simpa using before

theorem reaches_returnedAll {ρ : Type u} {κ : Type v} [DecidableEq κ] [JackRingbuffer ρ]
    {rbSize : UInt32} {heap : List Malloced} {s : RunningClient ρ κ} {history : List (Obs κ)}
    (run : (clientSystem ρ κ rbSize heap).Reaches s history) : ReturnedAll s.process history := by
  refine run.induct (I := fun s history => ReturnedAll s.process history) ?_ ?_
  · intro cycle
    simp [clientSystem]
  · intro s history a s' o _ inv _ moves
    exact inv.step (RunningClient.step_of_next moves).processMove

end Jacks
