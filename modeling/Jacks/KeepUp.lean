import Jacks.EventQueue
import Jacks.ProcessThread
import Jacks.Streams

/-!
# Keeping up

A script that answers every cycle with one `get_event` and drains all rings keeps
the rings empty.  The event queue is another matter: a cycle puts one event for
each port into it, and the script takes one out.  With one port the two balance;
with more, the queue fills up, and once it is full `_process_cb` fails however
fast the script is.

* `KeepsUp` — the rounds of callback, event and reads.
* `backlog` — what is left in the queue when a cycle begins, and `Paced`, how full
  it is at every point.
* `keeps_up_iff` — exactly how many cycles go well.
-/

namespace Jacks

open Foundations JackRingbuffer

universe u

/-! ## The backlog -/

/-- How many events are queued when cycle `m` begins, with `n` ports and room for
`r` events: those the earlier cycles left behind, as far as they fit. -/
def backlog (n r m : ℕ) : ℕ := min (m * (n - 1)) (r - 1)

section Backlog

variable {n r : ℕ} (m : ℕ)

/-- A cycle adds one event for each port it finds room for, and the script takes
one. -/
theorem backlog_succ (ports : 0 < n) (size : 0 < r) :
    backlog n r (m + 1) + 1 = min (backlog n r m + n) r := by
  unfold backlog
  rw [Nat.succ_mul]
  generalize m * (n - 1) = behind
  omega

/-- The cut at the size of the queue does not matter to whether a cycle fits. -/
theorem backlog_fits_iff (ports : 0 < n) (size : 0 < r) :
    backlog n r m + n ≤ r ↔ m * (n - 1) + n ≤ r := by
  unfold backlog
  rcases Nat.lt_or_ge 1 n with several | single
  · omega
  · obtain rfl : n = 1 := by omega
    simp

end Backlog

/-! ## Rounds -/

instance (pc : ProcessPc) : Decidable (pc = .idle) :=
  match pc with
  | .idle => isTrue rfl
  | .loop _ _ | .enqueue _ _ | .post _ _ | .done _ => isFalse nofun

namespace RunningClient

variable {ρ : Type u} [JackRingbuffer ρ]

/-- Between two process callbacks the script fetches one event and reads until all
rings are empty; the blocks fit the frame buffers; and no other callback runs. -/
def KeepsUp (s : RunningClient ρ Unit) (history : List (Obs Unit)) : Action Unit → Prop
  | .processCb call => 4 * call.nframes.toNat ≤ s.client.rbSize.toNat ∧
      s.script () = .outside ∧ (deliveredEvents history).length = s.process.serial ∧
      ∀ p ∈ s.client.ports, unread p.rb = []
  | .getEvent _ => s.process.pc = .idle ∧ (deliveredEvents history).length < s.process.serial
  | .getBuffer _ => s.process.pc = .idle
  | .sessionCb | .sessionStep | .controlCb _ | .controlStep _ => False
  | _ => True

instance (s : RunningClient ρ Unit) (history : List (Obs Unit)) :
    DecidablePred (KeepsUp s history)
  | .processCb call => inferInstanceAs (Decidable
      (4 * call.nframes.toNat ≤ s.client.rbSize.toNat ∧
        s.script () = .outside ∧ (deliveredEvents history).length = s.process.serial ∧
        ∀ p ∈ s.client.ports, unread p.rb = []))
  | .getEvent _ => inferInstanceAs (Decidable
      (s.process.pc = .idle ∧ (deliveredEvents history).length < s.process.serial))
  | .getBuffer _ => inferInstanceAs (Decidable (s.process.pc = .idle))
  | .sessionCb | .sessionStep | .controlCb _ | .controlStep _ => isFalse id
  | .processStep | .dequeue _ | .wait _ | .interrupt _ | .complete _ | .getData _ => isTrue trivial

end RunningClient

/-- The invocation in progress has yet to write port `i`. -/
def ProcessPc.ToWrite : ProcessPc → ℕ → Prop
  | .loop _ next, i => next ≤ i
  | .enqueue _ current, i => current < i
  | .post _ current, i => current < i
  | _, _ => False

/-- The port just written is behind the callback. -/
theorem ProcessMove.not_toWrite {κ : Type u} {n : ℕ} {t t' : Thread ProcessPc}
    {cycle i free : ℕ} {data : List Byte} {rc : ℤ}
    (moves : ProcessMove n t t' (some (.wrote cycle i free data rc : Obs κ))) :
    ¬ t'.pc.ToWrite i := by
  cases moves with
  | still quiet => cases quiet
  | wrote => exact Nat.lt_irrefl _
  | overran => exact id

/-- The arguments of the invocation in progress. -/
def ProcessPc.call? : ProcessPc → Option ProcessCall
  | .loop call _ => some call
  | .enqueue call _ => some call
  | .post call _ => some call
  | _ => none

namespace RunningClient

variable {ρ : Type u} [JackRingbuffer ρ] {s s' : RunningClient ρ Unit}
variable {history : List (Obs Unit)} {a : Action Unit} {o : Option (Obs Unit)}

/-! ## The rings -/

/-- The rings the callback has yet to write are empty, and its block fits each. -/
structure RingsReady (r : ℕ) (s : RunningClient ρ Unit) : Prop where
  ring : ∀ i p, s.client.ports[i]? = some p → usable p.rb = ringSize (4 * r) - 1 ∧
    (s.process.pc.ToWrite i → unread p.rb = [])
  block : ∀ call ∈ s.process.pc.call?, 4 * call.nframes.toNat ≤ r

/-- Only at its start has the callback more to write than before. -/
theorem toWrite_of_step (moves : Step s a s' o) (paced : KeepsUp s history a) {i : ℕ}
    (toWrite : s'.process.pc.ToWrite i) :
    s.process.pc.ToWrite i ∨ ∀ p ∈ s.client.ports, unread p.rb = [] := by
  cases moves with
  | processCb here => exact .inr paced.2.2.2
  | wrote here port success =>
      rw [here]
      exact .inl (Nat.le_of_lt toWrite)
  | processEnqueued here room =>
      rw [here]
      exact .inl toWrite
  | processPosted here =>
      rw [here]
      exact .inl (Nat.lt_of_succ_le toWrite)
  | endOfPorts | overran | processRefused | processReturned => exact toWrite.elim
  | _ => exact .inl toWrite

theorem getBuffer_of_observed {i : ℕ} {len : ℤ} {framebuf : List Byte}
    (moves : Step s a s' (some (.gotBuffer i len framebuf))) :
    a = .getBuffer i ∧ s'.process = s.process := by
  cases moves
  exact ⟨rfl, rfl⟩

theorem RingsReady.step {r : ℕ} (size : s.client.rbSize.toNat = r) (inv : RingsReady r s)
    (moves : Step s a s' o) (paced : KeepsUp s history a) : RingsReady r s' := by
  constructor
  · intro i p' after
    rcases moves.portStep.port_cases after with
      ⟨before, -⟩ | ⟨p, call, before, rfl, rfl⟩ | ⟨p, before, rfl, rfl⟩
    · refine ⟨(inv.ring i p' before).1, fun toWrite => ?_⟩
      rcases toWrite_of_step moves paced toWrite with already | empty
      · exact (inv.ring i p' before).2 already
      · exact empty p' (List.mem_of_getElem? before)
    · refine ⟨by rw [JacksRbPort.usable_write]; exact (inv.ring i p before).1, fun toWrite => ?_⟩
      exact absurd toWrite moves.processMove.not_toWrite
    · refine ⟨by rw [JacksRbPort.usable_read]; exact (inv.ring i p before).1, fun toWrite => ?_⟩
      -- reads come between callbacks, when nothing is to be written
      obtain ⟨rfl, same⟩ := getBuffer_of_observed moves
      have idle : s.process.pc = .idle := paced
      rw [same, idle] at toWrite
      exact toWrite.elim
  · intro call isCall
    have block := inv.block call
    cases moves with
    | processCb here =>
        obtain rfl : _ = call := Option.some.inj isCall
        rw [← size]
        exact paced.1
    | wrote here | processEnqueued here | processPosted here =>
        rw [here] at block
        exact block isCall
    | endOfPorts | overran | processRefused | processReturned => cases isCall
    | _ => exact block isCall

/-- A ready ring takes the block. -/
theorem RingsReady.not_overrun {r : ℕ} (positive : 0 < r) (inv : RingsReady r s)
    {call : ProcessCall} {i : ℕ} {p : JacksRbPort ρ} (here : s.process.pc = .loop call i)
    (port : s.client.ports[i]? = some p) :
    (p.writeToRingbuffer call.nframes (call.buffers i)).2 = 0 := by
  obtain ⟨size, empty⟩ := inv.ring i p port
  have block := inv.block call (by rw [here]; rfl)
  have room := le_ringSize (4 * r)
  rw [here] at empty
  rw [JacksRbPort.rc_write_eq_zero_iff, free, size, empty (Nat.le_refl i), List.length_nil]
  omega

/-! ## The queue -/

/-- How full the queue is, with `n` ports and room for `r`: `m` callbacks are
completed, `d` events delivered and `q` queued. -/
def Level (n r m d q : ℕ) : ProcessPc → Prop
  | .idle => d ≤ m ∧ m ≤ d + 1 ∧ q + d = m + backlog n r m
  | .loop _ i => d = m ∧ i ≤ n ∧ q = backlog n r m + i
  | .enqueue _ i => d = m ∧ i < n ∧ q = backlog n r m + i
  | .post _ i => d = m ∧ i < n ∧ q = backlog n r m + i + 1
  | .done rc => d = m ∧ q = min (backlog n r m + n) r ∧ (rc = 0 ↔ backlog n r m + n ≤ r)

/-- The queue is at its level, and the script asks for an event only between
callbacks, when there is one to fetch. -/
structure Paced (n r : ℕ) (s : RunningClient ρ Unit) (history : List (Obs Unit)) : Prop where
  level : Level n r s.process.serial (deliveredEvents history).length
    s.client.eventQueue.items.length s.process.pc
  script : s.script () ≠ .outside →
    s.process.pc = .idle ∧ (deliveredEvents history).length < s.process.serial

/-- A step that delivers nothing leaves the count of the deliveries. -/
theorem length_deliveredEvents (none : o.bind Obs.delivered? = none) :
    (deliveredEvents (history ++ o.toList)).length = (deliveredEvents history).length := by
  rw [deliveredEvents_append, none, Option.toList_none, List.append_nil]

omit [JackRingbuffer ρ] in
/-- While a callback is in progress the script is outside `get_event`, so the level
is all there is to keep. -/
theorem Paced.of_level {n r : ℕ} (inv : Paced n r s history) (busy : s.process.pc ≠ .idle)
    (same : s'.script = s.script) (none : o.bind Obs.delivered? = none)
    (level : Level n r s'.process.serial (deliveredEvents history).length
      s'.client.eventQueue.items.length s'.process.pc) :
    Paced n r s' (history ++ o.toList) := by
  refine ⟨by rwa [length_deliveredEvents none], fun inside => ?_⟩
  rw [same] at inside
  exact absurd (inv.script inside).1 busy

/-- **One step of the callback.** -/
theorem Paced.processStep {n r : ℕ} (ports : 0 < n) (size : 0 < r)
    (table : s.client.ports.length = n) (capacity : s.client.eventQueue.capacity = r)
    (rings : RingsReady r s) (inv : Paced n r s history) (moves : Step s .processStep s' o) :
    Paced n r s' (history ++ o.toList) := by
  have level := inv.level
  have fits := s.client.eventQueue.fits
  rw [capacity] at fits
  cases moves with
  | @endOfPorts call i here last =>
      rw [List.getElem?_eq_none_iff, table] at last
      rw [here] at level
      obtain ⟨fetched, upTo, filled⟩ := level
      refine inv.of_level (by rw [here]; nofun) rfl rfl ⟨fetched, ?_, ?_⟩
      · show s.client.eventQueue.items.length = min (backlog n r s.process.serial + n) r
        omega
      · show (0 : ℤ) = 0 ↔ backlog n r s.process.serial + n ≤ r
        exact iff_of_true rfl (by omega)
  | @wrote call i p here port success =>
      have registered : i < n := by
        rw [← table]
        exact (List.getElem?_eq_some_iff.mp port).1
      rw [here] at level
      exact inv.of_level (by rw [here]; nofun) rfl rfl ⟨level.1, registered, level.2.2⟩
  | @overran call i p here port failure =>
      rw [rings.not_overrun size here port] at failure
      cases failure
  | @processEnqueued call i q here room =>
      have longer := congrArg List.length (BoundedFifo.enqueue_eq_some_iff.mp room).2.2
      rw [List.length_append, List.length_singleton] at longer
      rw [here] at level
      obtain ⟨fetched, registered, filled⟩ := level
      refine inv.of_level (by rw [here]; nofun) rfl rfl ⟨fetched, registered, ?_⟩
      show q.items.length = backlog n r s.process.serial + i + 1
      omega
  | @processRefused call i here full =>
      rw [BoundedFifo.enqueue_eq_none_iff, capacity] at full
      rw [here] at level
      obtain ⟨fetched, registered, filled⟩ := level
      refine inv.of_level (by rw [here]; nofun) rfl rfl ⟨fetched, ?_, ?_⟩
      · show s.client.eventQueue.items.length = min (backlog n r s.process.serial + n) r
        omega
      · show (-1 : ℤ) = 0 ↔ backlog n r s.process.serial + n ≤ r
        exact iff_of_false (by decide) (by omega)
  | @processPosted call i here =>
      rw [here] at level
      obtain ⟨fetched, registered, filled⟩ := level
      exact inv.of_level (by rw [here]; nofun) rfl rfl ⟨fetched, registered, filled⟩
  | @processReturned rc here =>
      rw [here] at level
      obtain ⟨fetched, filled, -⟩ := level
      have next := backlog_succ s.process.serial ports size
      refine inv.of_level (by rw [here]; nofun) rfl rfl ⟨?_, ?_, ?_⟩
      · exact fetched.le.trans (Nat.le_succ _)
      · exact (Nat.succ_le_succ fetched.ge)
      · show s.client.eventQueue.items.length + (deliveredEvents history).length =
          s.process.serial + 1 + backlog n r (s.process.serial + 1)
        omega

theorem Paced.step {n r : ℕ} (ports : 0 < n) (size : 0 < r) (table : s.client.ports.length = n)
    (capacity : s.client.eventQueue.capacity = r) (rings : RingsReady r s)
    (inv : Paced n r s history) (moves : Step s a s' o) (paced : KeepsUp s history a) :
    Paced n r s' (history ++ o.toList) := by
  have level := inv.level
  have script := inv.script
  have stays : s'.process = s.process → s'.client.eventQueue = s.client.eventQueue →
      o.bind Obs.delivered? = none →
      (s'.script () ≠ .outside →
        s.process.pc = .idle ∧ (deliveredEvents history).length < s.process.serial) →
      Paced n r s' (history ++ o.toList) := by
    intro process queue none between
    constructor
    · rw [process, queue, length_deliveredEvents none]
      exact level
    · rw [process, length_deliveredEvents none]
      exact between
  rcases eq_or_ne a .processStep with rfl | other
  · exact inv.processStep ports size table capacity rings moves
  cases moves with
  | processCb here =>
      obtain ⟨-, out, fetched, -⟩ := paced
      rw [here] at level
      refine ⟨?_, fun inside => absurd out inside⟩
      rw [length_deliveredEvents rfl]
      refine ⟨fetched, Nat.zero_le n, ?_⟩
      show s.client.eventQueue.items.length = backlog n r s.process.serial + 0
      have := level.2.2
      omega
  | @delivered c o q here first =>
      obtain ⟨idle, waiting⟩ := script (by cases c; rw [here]; nofun)
      have shorter := congrArg List.length (BoundedFifo.dequeue_eq_some_iff.mp first).1
      rw [List.length_cons] at shorter
      rw [idle] at level
      obtain ⟨-, near, filled⟩ := level
      refine ⟨?_, fun inside => absurd (by cases c; simp) inside⟩
      rw [deliveredEvents_append, List.length_append]
      show Level n r s.process.serial (_ + 1) q.items.length s.process.pc
      rw [idle]
      exact ⟨waiting, by omega, by omega⟩
  | getEvent here => exact stays rfl rfl rfl fun _ => paced
  | @foundEmpty c here | @waited c _ here | @interrupted c here =>
      exact stays rfl rfl rfl fun _ => script (by cases c; rw [here]; nofun)
  | completed | gotData | gotBuffer => exact stays rfl rfl rfl script
  | endOfPorts | wrote | overran | processEnqueued | processRefused | processPosted
  | processReturned => exact absurd rfl other
  | _ => exact paced.elim

/-! ## All runs -/

section Runs

variable {rbSize : UInt32} {heap : List Malloced}

theorem reaches_ringsReady
    (run : (clientSystem ρ Unit rbSize heap).ReachesUnder KeepsUp s history) :
    RingsReady (JacksRbClient.chosenRbSize rbSize).toNat s := by
  refine run.induct
    (I := fun s _ => RingsReady (JacksRbClient.chosenRbSize rbSize).toNat s) ?_ ?_
  · constructor
    · intro i p port
      simp only [clientSystem, JacksRbClient.ports_withPorts, List.getElem?_map,
        Option.map_eq_some_iff] at port
      obtain ⟨left, -, rfl⟩ := port
      exact ⟨JacksRbPort.usable_new _ _, fun _ => JacksRbPort.unread_new _ _⟩
    · intro call isCall
      cases isCall
  · intro s history a s' o before inv paced moves
    exact inv.step (by rw [(reaches_sizes before.reaches).1]) (step_of_next moves) paced

theorem reaches_paced (registered : 0 < heap.length)
    (run : (clientSystem ρ Unit rbSize heap).ReachesUnder KeepsUp s history) :
    Paced heap.length (JacksRbClient.chosenRbSize rbSize).toNat s history := by
  have size := JacksRbClient.chosenRbSize_pos rbSize
  refine run.induct
    (I := Paced heap.length (JacksRbClient.chosenRbSize rbSize).toNat) ?_ ?_
  · refine ⟨⟨Nat.le_refl _, Nat.zero_le _, ?_⟩, fun inside => absurd rfl inside⟩
    simp [clientSystem, deliveredEvents, backlog]
  · intro s history a s' o before inv paced moves
    exact inv.step registered size (reaches_lossless before.reaches).table
      (reaches_sizes before.reaches).2 (reaches_ringsReady before) (step_of_next moves) paced

/-- The callback of cycle `m` goes well exactly when the backlog of the cycles
before it leaves room for one event of each port. -/
theorem returns_zero_iff (registered : 0 < heap.length)
    (run : (clientSystem ρ Unit rbSize heap).ReachesUnder KeepsUp s history) {m : ℕ} {rc : ℤ}
    (returned : .processReturned m rc ∈ history) :
    rc = 0 ↔ m * (heap.length - 1) + heap.length ≤ (JacksRbClient.chosenRbSize rbSize).toNat := by
  obtain ⟨earlier, later, split⟩ := List.append_of_mem returned
  obtain ⟨t, a, t', before, -, moves⟩ := run.step_of_split split
  rw [← backlog_fits_iff m registered (JacksRbClient.chosenRbSize_pos rbSize)]
  cases step_of_next moves with
  | processReturned here =>
      have level := (reaches_paced registered before).level
      rw [here] at level
      exact level.2.2

/-- **How long a script keeps up.**  In every run of the documented rounds, with at
least one port, all completed callbacks returned 0 exactly when there was none, or
the backlog of all but the last of them left room for one event of each port. -/
theorem keeps_up_iff (registered : 0 < heap.length)
    (run : (clientSystem ρ Unit rbSize heap).ReachesUnder KeepsUp s history) :
    (∀ m rc, .processReturned m rc ∈ history → rc = 0) ↔
      s.process.serial = 0 ∨
        (s.process.serial - 1) * (heap.length - 1) + heap.length ≤
          (JacksRbClient.chosenRbSize rbSize).toNat := by
  have completed := reaches_returnedAll run.reaches
  constructor
  · intro allZero
    rcases Nat.eq_zero_or_pos s.process.serial with none | some_callback
    · exact .inl none
    · obtain ⟨rc, returned⟩ := (completed (s.process.serial - 1)).mpr (by omega)
      exact .inr ((returns_zero_iff registered run returned).mp (allZero _ _ returned))
  · rintro (none | room) m rc returned
    · have := (completed m).mp ⟨rc, returned⟩
      omega
    · have last : m ≤ s.process.serial - 1 := by
        have := (completed m).mp ⟨rc, returned⟩
        omega
      have monotone := Nat.mul_le_mul_right (heap.length - 1) last
      exact (returns_zero_iff registered run returned).mpr (by omega)

/-- With one port the script keeps up for ever. -/
theorem keeps_up_of_one_port (single : heap.length = 1)
    (run : (clientSystem ρ Unit rbSize heap).ReachesUnder KeepsUp s history) :
    ∀ m rc, .processReturned m rc ∈ history → rc = 0 := by
  refine (keeps_up_iff (by omega) run).mpr (.inr ?_)
  rw [single]
  simpa [Nat.succ_le_iff] using JacksRbClient.chosenRbSize_pos rbSize

end Runs

/-- One cycle of a client with two ports, up to its return. -/
def cycleOfTwo : List (Action Unit) :=
  [.processCb ⟨1, fun _ _ => 1#32⟩, .processStep, .processStep, .processStep, .processStep,
   .processStep, .processStep, .processStep, .processStep]

/-- What the script does about it. -/
def fetchAndRead : List (Action Unit) := [.getEvent (), .dequeue (), .getBuffer 0, .getBuffer 1]

/-- Three cycles of a client with two ports. -/
def threeCycles : List (Action Unit) :=
  cycleOfTwo ++ fetchAndRead ++ cycleOfTwo ++ fetchAndRead ++ cycleOfTwo

/-- A queue of four events has room for three cycles. -/
theorem keeps_up_iff_threeCycles :
    ∃ s history,
      (clientSystem (BoundedFifo Byte) Unit 4 [⟨fun _ => 0, 0⟩, ⟨fun _ => 0, 0⟩]).exec
        (clientSystem (BoundedFifo Byte) Unit 4 [⟨fun _ => 0, 0⟩, ⟨fun _ => 0, 0⟩]).init []
        threeCycles = some (s, history) ∧
      s.process.serial = 3 ∧ ∀ m rc, .processReturned m rc ∈ history → rc = 0 :=
  ⟨_, _, rfl, rfl, (keeps_up_iff (by decide) (TraceSystem.reachesUnder_of_exec
    (clientSystem (BoundedFifo Byte) Unit 4 [⟨fun _ => 0, 0⟩, ⟨fun _ => 0, 0⟩]) KeepsUp
    threeCycles (by decide) rfl)).mpr (.inr (by decide))⟩

/-- The fourth cycle finds three events queued and does not get its second one in. -/
def fourthCycle : List (Action Unit) :=
  threeCycles ++ fetchAndRead ++
    [.processCb ⟨1, fun _ _ => 1#32⟩, .processStep, .processStep, .processStep, .processStep,
     .processStep, .processStep]

/-- The script has kept to its rounds, and the callback returns -1. -/
theorem keeps_up_fails :
    ∃ s history,
      (clientSystem (BoundedFifo Byte) Unit 4 [⟨fun _ => 0, 0⟩, ⟨fun _ => 0, 0⟩]).ReachesUnder
        KeepsUp s history ∧
      .processReturned 3 (-1) ∈ history ∧
      ¬ ∀ m rc, .processReturned m rc ∈ history → rc = 0 := by
  refine ⟨_, _, TraceSystem.reachesUnder_of_exec
    (clientSystem (BoundedFifo Byte) Unit 4 [⟨fun _ => 0, 0⟩, ⟨fun _ => 0, 0⟩]) KeepsUp
    fourthCycle (by decide) rfl, by decide, ?_⟩
  intro allZero
  exact absurd (allZero 3 (-1) (by decide)) (by decide)

end RunningClient

end Jacks
