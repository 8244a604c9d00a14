import Jacks.Event
import Jacks.Foundations.Monitor

/-!
# The latch from inside

`JacksLatch_get` and `JacksLatch_post` as the source has them: under `latchlock`,
step by step, with `latchcond` to wait on.  Elsewhere in this development the latch
is what its callers see of it, `JacksLatch` with a get and a post that are one step
each; `reaches_latch` says that any interleaving of the steps is seen so.

Both calls signal the same condition, and a signal may go to a thread that finds
the post already taken, or to none at all.  No wake-up is lost all the same: a post
signals before it gives the lock back, and a getter that has been woken takes the
post unless another one has (`latch_correct`).
-/

namespace Jacks

open Foundations

universe u

/-- Where a thread is inside `latchlock`. -/
inductive LatchPc
  /-- The loop condition of `JacksLatch_get`. -/
  | test
  /-- The assignment after the loop. -/
  | consume
  /-- The assignment of `JacksLatch_post`. -/
  | post
  /-- `pthread_cond_signal`, of both. -/
  | signal
  /-- `pthread_mutex_unlock`, of both. -/
  | unlock
  deriving DecidableEq

/-- `JacksLatch_get` starts at `test`, `JacksLatch_post` at `post`; the value is
whether `status` is `POSTED`. -/
def latchProcedures : Procedures Bool LatchPc where
  entry
    | .test | .post => true
    | _ => false
  instr
    | .test, posted => if posted then .goto .consume else .wait .test
    | .consume, _ => .assign false .signal
    | .post, _ => .assign true .signal
    | .signal, _ => .signal .unlock
    | .unlock, _ => .unlock

/-- A latch as `JacksLatch_new` makes it, and the threads that use it. -/
abbrev latchMonitor (ι : Type u) [DecidableEq ι] :
    TraceSystem (Monitor ι Bool LatchPc) (MonitorAction ι LatchPc)
      (MonitorObs ι Bool LatchPc) :=
  monitorSystem ι latchProcedures false

/-! ## The latch from outside -/

/-- A call of the latch, at the step that decides it. -/
inductive LatchCall
  | got
  /-- A post, and what it found. -/
  | posted (found : Bool)
  deriving DecidableEq

/-- What a caller asks for. -/
inductive LatchAction
  | get
  | post

/-- The latch with calls that are one step each. -/
def latchSystem : TraceSystem JacksLatch LatchAction LatchCall where
  init := JacksLatch.new
  next l
    | .get => l.get.map fun l => (l, some .got)
    | .post => some (l.post, some (.posted l.posted))

/-- The gets that have gone through. -/
def gets (calls : List LatchCall) : ℕ := calls.countP fun c => c = .got

/-- The posts. -/
def posts (calls : List LatchCall) : ℕ := calls.countP fun c => c ≠ .got

/-- The posts that found the latch not posted. -/
def freshPosts (calls : List LatchCall) : ℕ := calls.countP fun c => c = .posted false

theorem freshPosts_le (calls : List LatchCall) : freshPosts calls ≤ posts calls :=
  List.countP_mono_left fun c _ fresh => by simp_all

/-- Every post that found the latch not posted is taken by one get, or is there. -/
theorem reaches_balanced {l : JacksLatch} {calls : List LatchCall}
    (run : latchSystem.Reaches l calls) : gets calls + l.posted.toNat = freshPosts calls := by
  refine run.induct (I := fun l calls => gets calls + l.posted.toNat = freshPosts calls) rfl ?_
  intro l calls a l' o _ balanced _ moves
  cases a with
  | get =>
      obtain ⟨t, taken, same⟩ := Option.map_eq_some_iff.mp moves
      obtain ⟨posted, rfl⟩ := JacksLatch.get_eq_some_iff.mp taken
      cases same
      simp_all [gets, freshPosts]
  | post =>
      cases moves
      cases found : l.posted <;> simp_all [gets, freshPosts, JacksLatch.post]

/-! ## From inside to outside -/

section Runs

variable {ι : Type u} [DecidableEq ι]

/-- The call an assignment decides. -/
def LatchCall.observe : MonitorObs ι Bool LatchPc → List LatchCall
  | .assigned _ .consume _ => [.got]
  | .assigned _ .post before => [.posted before]
  | _ => []

/-- The calls of a history. -/
def latchCalls (history : List (MonitorObs ι Bool LatchPc)) : List LatchCall :=
  history.flatMap LatchCall.observe

variable {m : Monitor ι Bool LatchPc} {history : List (MonitorObs ι Bool LatchPc)}

/-! ### What a thread does next -/

section Instructions

variable {k k' : LatchPc} {d d' : Bool}

@[simp] theorem instr_eq_wait_iff :
    latchProcedures.instr k d = .wait k' ↔ k = .test ∧ d = false ∧ k' = .test := by
  cases k <;> cases d <;> simp [latchProcedures, eq_comm]

@[simp] theorem instr_eq_goto_iff :
    latchProcedures.instr k d = .goto k' ↔ k = .test ∧ d = true ∧ k' = .consume := by
  cases k <;> cases d <;> simp [latchProcedures, eq_comm]

@[simp] theorem instr_eq_assign_iff :
    latchProcedures.instr k d = .assign d' k' ↔
      k' = .signal ∧ (k = .consume ∧ d' = false ∨ k = .post ∧ d' = true) := by
  cases k <;> cases d <;> simp [latchProcedures, eq_comm, and_comm]

@[simp] theorem instr_eq_signal_iff :
    latchProcedures.instr k d = .signal k' ↔ k = .signal ∧ k' = .unlock := by
  cases k <;> cases d <;> simp [latchProcedures, eq_comm]

@[simp] theorem instr_eq_unlock_iff :
    latchProcedures.instr k d = .unlock ↔ k = .unlock := by
  cases k <;> cases d <;> simp [latchProcedures]

end Instructions

/-- After the loop the latch is posted. -/
theorem latch_annotated :
    Annotated latchProcedures fun k posted => k = .consume → posted = true where
  entry k entry d := by
    rintro rfl
    cases entry
  wait k d k' _ instr d' := by
    obtain ⟨-, -, rfl⟩ := instr_eq_wait_iff.mp instr
    nofun
  goto k d k' _ instr _ := (instr_eq_goto_iff.mp instr).2.1
  assign k d d' k' _ instr := by
    obtain ⟨rfl, -⟩ := instr_eq_assign_iff.mp instr
    nofun
  signal k d k' _ instr := by
    obtain ⟨-, rfl⟩ := instr_eq_signal_iff.mp instr
    nofun

/-- A post signals before it unlocks, and who comes back from a wait tests again. -/
theorem latch_relays :
    Relays latchProcedures (fun posted => posted = true) fun k => k ≠ .unlock where
  wait k d k' instr := by
    obtain ⟨-, rfl, rfl⟩ := instr_eq_wait_iff.mp instr
    exact ⟨nofun, nofun⟩
  goto k d k' instr _ _ := by
    obtain ⟨-, -, rfl⟩ := instr_eq_goto_iff.mp instr
    nofun
  assign k d d' k' instr _ := by
    obtain ⟨rfl, -⟩ := instr_eq_assign_iff.mp instr
    exact Or.inl nofun
  unlock k d instr _ pending := pending (instr_eq_unlock_iff.mp instr)

/-- **The steps under the lock are seen as one step a call.** -/
theorem reaches_latch (run : (latchMonitor ι).Reaches m history) :
    latchSystem.Reaches ⟨m.data⟩ (latchCalls history) := by
  refine run.induct (I := fun m history => latchSystem.Reaches ⟨m.data⟩ (latchCalls history))
    .init ?_
  intro m history a m' o before seen _ moves
  cases Monitor.step_of_next moves with
  | @assigned t k d k' here instr =>
      rw [latchCalls, List.flatMap_append]
      rcases (instr_eq_assign_iff.mp instr).2 with ⟨rfl, rfl⟩ | ⟨rfl, rfl⟩
      · -- the getter is behind its loop, so it takes a post
        have annotated := Monitor.reaches_annotated latch_annotated before t
        rw [here] at annotated
        have taken : latchSystem.next ⟨m.data⟩ .get = some (⟨false⟩, some .got) := by
          rw [show m.data = true from annotated rfl]
          rfl
        exact .step seen trivial taken
      · exact .step seen trivial (show latchSystem.next ⟨m.data⟩ .post =
          some (⟨true⟩, some (.posted m.data)) from rfl)
  | called | locked | resumed | went | slept | signalledNone | signalled | unlocked | woke =>
      simpa using seen

/-! ## The monitor -/

/-- A post is there, nobody holds the lock, and every getter that waits sleeps. -/
def LostWakeUp (m : Monitor ι Bool LatchPc) : Prop :=
  m.data = true ∧ m.owner = none ∧ (∃ t k, m.place t = .waiting k) ∧
    ∀ t k, m.place t = .waiting k → t ∈ m.sleepers

/-- **The latch is a one-slot monitor.**  In every state of every run, for any threads
that get and post: every post that found the latch not posted has been taken by one
get or is still there, so that there are no more gets than posts; and no wake-up is
lost. -/
theorem latch_correct (run : (latchMonitor ι).Reaches m history) :
    gets (latchCalls history) + m.data.toNat = freshPosts (latchCalls history) ∧
      gets (latchCalls history) ≤ posts (latchCalls history) ∧ ¬ LostWakeUp m := by
  have balanced := reaches_balanced (reaches_latch run)
  have fewer := freshPosts_le (latchCalls history)
  refine ⟨balanced, by omega, ?_⟩
  rintro ⟨posted, free, ⟨t, k, waiting⟩, asleep⟩
  have somebody : m.sleepers ≠ [] := List.ne_nil_of_mem (asleep t k waiting)
  obtain ⟨u, k', woken, awake⟩ := Monitor.reaches_woken latch_relays run posted free somebody
  exact awake (asleep u k' woken)

end Runs

/-- A getter sleeps, a post wakes it, and it takes the post. -/
def getThenPost : List (MonitorAction Bool LatchPc) :=
  [.call true .test, .lock true, .run true none, .call false .post, .lock false,
   .run false none, .run false (some true), .run false none, .lock true, .run true none,
   .run true none, .run true none]

theorem latch_correct_getThenPost :
    ∃ m history, (latchMonitor Bool).exec (latchMonitor Bool).init [] getThenPost =
        some (m, history) ∧
      gets (latchCalls history) = 1 ∧
      gets (latchCalls history) + m.data.toNat = freshPosts (latchCalls history) ∧
      gets (latchCalls history) ≤ posts (latchCalls history) ∧ ¬ LostWakeUp m :=
  ⟨_, _, rfl, by decide, latch_correct (TraceSystem.reaches_of_exec (latchMonitor Bool)
    getThenPost rfl)⟩

end Jacks
