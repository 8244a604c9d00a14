import Jacks.RunningClient

/-!
# One process cycle

`_process_cb` as one function on the client, from the call to its return, without
other threads in between (`processCb`); `exec_processCb` says that a running
client whose process thread takes all the steps computes it.

A cycle goes from port to port and stops at the first one whose ring overruns or
whose event the queue refuses.  Nothing is taken back then: the return of -1 tells
JACK that the client has failed (`process_cycle`).
-/

namespace Jacks

open Foundations JackRingbuffer

universe u v

namespace JacksRbClient

variable {ρ : Type u} [JackRingbuffer ρ]

/-- A port back in the table. -/
def putPort (c : JacksRbClient ρ) (i : ℕ) (p : JacksRbPort ρ) : JacksRbClient ρ :=
  { c with ports := c.ports.set i p }

/-- The queue with an event more, and a post. -/
def announced (c : JacksRbClient ρ) (q : BoundedFifo Occurrence) : JacksRbClient ρ :=
  { c with eventQueue := q, mutex := c.mutex + 1 }

/-- The rest of `_process_cb` from port `i` on, `n` ports before the end.  The
number of the cycle only goes into the bookkeeping of the events. -/
def processFrom (call : ProcessCall) (cycle : ℕ) :
    ℕ → ℕ → JacksRbClient ρ → JacksRbClient ρ × ℤ
  | 0, _, c => (c, 0)
  | n + 1, i, c =>
      match c.ports[i]? with
      | none => (c, 0)
      | some p =>
          let result := p.writeToRingbuffer call.nframes (call.buffers i)
          let c := c.putPort i result.1
          if result.2 ≠ 0 then (c, -1)
          else
            match c.eventQueue.enqueue (.process cycle i) with
            | none => (c, -1)
            | some q =>
                processFrom call cycle n (i + 1) (c.announced q)

/-- `_process_cb`. -/
def processCb (c : JacksRbClient ρ) (call : ProcessCall) (cycle : ℕ) : JacksRbClient ρ × ℤ :=
  processFrom call cycle c.ports.length 0 c

section Loop

variable {c : JacksRbClient ρ} {call : ProcessCall} {cycle n i : ℕ} {p : JacksRbPort ρ}

theorem processFrom_overrun (port : c.ports[i]? = some p)
    (failure : (p.writeToRingbuffer call.nframes (call.buffers i)).2 = -1) :
    processFrom call cycle (n + 1) i c =
      (c.putPort i (p.writeToRingbuffer call.nframes (call.buffers i)).1, -1) := by
  simp [processFrom, port, failure]

theorem processFrom_refused (port : c.ports[i]? = some p)
    (success : (p.writeToRingbuffer call.nframes (call.buffers i)).2 = 0)
    (full : c.eventQueue.enqueue (.process cycle i) = none) :
    processFrom call cycle (n + 1) i c =
      (c.putPort i (p.writeToRingbuffer call.nframes (call.buffers i)).1, -1) := by
  simp [processFrom, port, success, full, putPort]

theorem processFrom_announced (port : c.ports[i]? = some p)
    (success : (p.writeToRingbuffer call.nframes (call.buffers i)).2 = 0)
    {q : BoundedFifo Occurrence} (room : c.eventQueue.enqueue (.process cycle i) = some q) :
    processFrom call cycle (n + 1) i c = processFrom call cycle n (i + 1)
      ((c.putPort i (p.writeToRingbuffer call.nframes (call.buffers i)).1).announced q) := by
  simp [processFrom, port, success, room, putPort]

end Loop

/-- The first `k` ports have taken their blocks, each with one event and one post, and
the ports from `m` on are as they were. -/
structure CycleProgress (c : JacksRbClient ρ) (call : ProcessCall) (cycle k m : ℕ)
    (c' : JacksRbClient ρ) : Prop where
  table : c'.ports.length = c.ports.length
  written : ∀ j p, j < k → c.ports[j]? = some p → ∃ p', c'.ports[j]? = some p' ∧
    unread p'.rb = unread p.rb ++ captured call.nframes (call.buffers j)
  untouched : ∀ j, m ≤ j → c'.ports[j]? = c.ports[j]?
  queue : c'.eventQueue.items =
    c.eventQueue.items ++ (List.range k).map (Occurrence.process cycle)
  capacity : c'.eventQueue.capacity = c.eventQueue.capacity
  tokens : c'.mutex = c.mutex + k

/-- The cycle has stopped at port `k`: either its ring has taken what fits of a block
that does not, or it has taken the block and the event queue is full. -/
def StoppedAt (c : JacksRbClient ρ) (call : ProcessCall) (cycle k : ℕ) (c' : JacksRbClient ρ) :
    Prop :=
  c.CycleProgress call cycle k (k + 1) c' ∧
    ∃ p p', c.ports[k]? = some p ∧ c'.ports[k]? = some p' ∧
      ((free p.rb < 4 * call.nframes.toNat ∧
          unread p'.rb =
            unread p.rb ++ (captured call.nframes (call.buffers k)).take (free p.rb)) ∨
        (unread p'.rb = unread p.rb ++ captured call.nframes (call.buffers k) ∧
          c'.eventQueue.items.length = c'.eventQueue.capacity))

namespace CycleProgress

variable {c c' : JacksRbClient ρ} {call : ProcessCall} {cycle k : ℕ}

theorem refl (c : JacksRbClient ρ) (call : ProcessCall) (cycle : ℕ) :
    c.CycleProgress call cycle 0 0 c where
  table := rfl
  written := by simp
  untouched _ _ := rfl
  queue := by simp
  capacity := rfl
  tokens := rfl

/-- The write of the next port, whatever becomes of it. -/
theorem write (progress : c.CycleProgress call cycle k k c') (p : JacksRbPort ρ) :
    c.CycleProgress call cycle k (k + 1) (c'.putPort k p) where
  table := by simpa [putPort] using progress.table
  written j q before here := by
    rw [putPort, List.getElem?_set_ne (by omega)]
    exact progress.written j q before here
  untouched j after := by
    rw [putPort, List.getElem?_set_ne (by omega)]
    exact progress.untouched j (by omega)
  queue := progress.queue
  capacity := progress.capacity
  tokens := progress.tokens

/-- A write that succeeds, with its event and its post. -/
theorem announced (progress : c.CycleProgress call cycle k k c') {p : JacksRbPort ρ}
    (port : c'.ports[k]? = some p)
    (success : (p.writeToRingbuffer call.nframes (call.buffers k)).2 = 0)
    {q : BoundedFifo Occurrence}
    (room : c'.eventQueue.enqueue (.process cycle k) = some q) :
    c.CycleProgress call cycle (k + 1) (k + 1)
      ((c'.putPort k (p.writeToRingbuffer call.nframes (call.buffers k)).1).announced q) := by
  have before := progress.write (p.writeToRingbuffer call.nframes (call.buffers k)).1
  obtain ⟨-, capacity, items⟩ := BoundedFifo.enqueue_eq_some_iff.mp room
  refine ⟨before.table, fun j p₀ done here => ?_, before.untouched, ?_, ?_, ?_⟩
  · rcases Nat.lt_succ_iff_lt_or_eq.mp done with earlier | rfl
    · exact before.written j p₀ earlier here
    · obtain rfl : p = p₀ := by
        rw [progress.untouched j le_rfl, here] at port
        exact (Option.some.inj port).symm
      refine ⟨_, List.getElem?_set_self (List.getElem?_eq_some_iff.mp port).1, ?_⟩
      exact p.unread_write_of_rc_zero _ _ success
  · show q.items = _
    rw [items, progress.queue, List.range_succ, List.map_append, List.append_assoc]
    rfl
  · show q.capacity = _
    rw [capacity, progress.capacity]
  · have tokens := progress.tokens
    simp only [JacksRbClient.announced, putPort]
    omega

end CycleProgress

/-- **The loop**, from a port on before which all is done. -/
theorem processFrom_outcome {c₀ : JacksRbClient ρ} {call : ProcessCall} {cycle : ℕ} (n i : ℕ)
    (c : JacksRbClient ρ) (progress : c₀.CycleProgress call cycle i i c)
    (rest : i + n = c₀.ports.length) :
    ((processFrom call cycle n i c).2 = 0 ∧
        c₀.CycleProgress call cycle c₀.ports.length c₀.ports.length
          (processFrom call cycle n i c).1) ∨
      ((processFrom call cycle n i c).2 = -1 ∧
        ∃ k < c₀.ports.length, c₀.StoppedAt call cycle k (processFrom call cycle n i c).1) := by
  induction n generalizing i c with
  | zero =>
      obtain rfl : i = c₀.ports.length := rest
      exact Or.inl ⟨rfl, progress⟩
  | succ n ih =>
      have inTable : i < c.ports.length := by
        rw [progress.table]
        omega
      obtain ⟨p, port⟩ : ∃ p, c.ports[i]? = some p := ⟨_, List.getElem?_eq_getElem inTable⟩
      have before : c₀.ports[i]? = some p := by rw [← progress.untouched i le_rfl, port]
      have written : (c.ports.set i (p.writeToRingbuffer call.nframes (call.buffers i)).1)[i]? =
          some (p.writeToRingbuffer call.nframes (call.buffers i)).1 :=
        List.getElem?_set_self inTable
      by_cases success : (p.writeToRingbuffer call.nframes (call.buffers i)).2 = 0
      · cases room : c.eventQueue.enqueue (.process cycle i) with
        | none =>
            -- the event queue is full
            rw [processFrom_refused port success room]
            refine Or.inr ⟨rfl, i, by omega, progress.write _, p, _, before, written,
              Or.inr ⟨?_, ?_⟩⟩
            · exact p.unread_write_of_rc_zero _ _ success
            · exact BoundedFifo.enqueue_eq_none_iff.mp room
        | some q =>
            rw [processFrom_announced port success room]
            exact ih (i + 1) _ (progress.announced port success room) (by omega)
      · -- the ring overruns
        have failure := p.rc_write_of_ne_zero _ _ success
        rw [processFrom_overrun port failure.1]
        refine Or.inr ⟨rfl, i, by omega, progress.write _, p, _, before, written,
          Or.inl ⟨failure.2, ?_⟩⟩
        exact p.unread_write _ _

/-- **A process cycle reaches all ports, or stops at one and takes nothing back.**
It returns 0 with every ring extended by its block and one event and one post for
every port; or it returns -1 at the first port whose ring overruns or whose event the
queue refuses, with the ports before it served as a whole, the ports after it not at
all, and no event for the port itself. -/
theorem process_cycle (c : JacksRbClient ρ) (call : ProcessCall) (cycle : ℕ) :
    ((c.processCb call cycle).2 = 0 ∧
        c.CycleProgress call cycle c.ports.length c.ports.length (c.processCb call cycle).1) ∨
      ((c.processCb call cycle).2 = -1 ∧
        ∃ k < c.ports.length, c.StoppedAt call cycle k (c.processCb call cycle).1) :=
  processFrom_outcome c.ports.length 0 c (.refl c call cycle) (Nat.zero_add _)

/-- Either all of a cycle is done, or nothing. -/
def AllOrNone (c : JacksRbClient ρ) (call : ProcessCall) (cycle : ℕ) : Prop :=
  ((c.processCb call cycle).2 = 0 ∧
      c.CycleProgress call cycle c.ports.length c.ports.length (c.processCb call cycle).1) ∨
    ((c.processCb call cycle).2 = -1 ∧
      (c.processCb call cycle).1.ports.map (fun p => unread p.rb) =
        c.ports.map (fun p => unread p.rb) ∧
      (c.processCb call cycle).1.eventQueue.items = c.eventQueue.items)

/-- Three ports of two frames, and one frame: the third event finds the queue full. -/
theorem not_allOrNone :
    ¬ (withPorts 2 [⟨fun _ => 0, 0⟩, ⟨fun _ => 0, 0⟩, ⟨fun _ => 0, 0⟩] :
      JacksRbClient (BoundedFifo Byte)).AllOrNone ⟨1, fun _ _ => 7⟩ 0 := by
  rintro (⟨success, -⟩ | ⟨-, -, queue⟩)
  · revert success
    decide
  · revert queue
    decide

end JacksRbClient

/-! ## The cycle of a running client -/

section Running

variable {ρ : Type u} {κ : Type v} [DecidableEq κ] [JackRingbuffer ρ]
variable {rbSize : UInt32} {heap : List Malloced}

open RunningClient

section Round

variable (rbSize heap)
variable {s : RunningClient ρ κ} {call : ProcessCall} {i : ℕ} {p : JacksRbPort ρ}

/-- The last step of an invocation. -/
theorem exec_done (s : RunningClient ρ κ) (rc : ℤ) (history : List (Obs κ)) :
    (clientSystem ρ κ rbSize heap).exec (s.atProcess (.done rc)) history [.processStep] =
      some ({ s with process := ⟨s.process.serial + 1, .idle⟩ },
        history ++ [.processReturned s.process.serial rc]) :=
  rfl

/-- A write that succeeds. -/
theorem exec_wrote (here : s.process.pc = .loop call i) (port : s.client.ports[i]? = some p)
    (success : (p.writeToRingbuffer call.nframes (call.buffers i)).2 = 0)
    (history : List (Obs κ)) :
    ∃ x, (clientSystem ρ κ rbSize heap).exec s history (List.replicate 1 .processStep) =
      some ((s.setPort i (p.writeToRingbuffer call.nframes (call.buffers i)).1).atProcess
        (.enqueue call i), history ++ [x]) := by
  obtain ⟨x, wrote⟩ : ∃ x, (clientSystem ρ κ rbSize heap).next s .processStep =
      some ((s.setPort i (p.writeToRingbuffer call.nframes (call.buffers i)).1).atProcess
        (.enqueue call i), some x) := by
    simp [clientSystem, next, processStep, here, port, success]
  exact ⟨x, TraceSystem.exec_single wrote history⟩

/-- A write that does not, and the return. -/
theorem exec_overran (here : s.process.pc = .loop call i) (port : s.client.ports[i]? = some p)
    (failure : (p.writeToRingbuffer call.nframes (call.buffers i)).2 = -1)
    (history : List (Obs κ)) :
    ∃ x, (clientSystem ρ κ rbSize heap).exec s history (List.replicate 2 .processStep) =
      some ({ s.setPort i (p.writeToRingbuffer call.nframes (call.buffers i)).1 with
          process := ⟨s.process.serial + 1, .idle⟩ },
        history ++ [x] ++ [.processReturned s.process.serial (-1)]) := by
  obtain ⟨x, wrote⟩ : ∃ x, (clientSystem ρ κ rbSize heap).next s .processStep =
      some ((s.setPort i (p.writeToRingbuffer call.nframes (call.buffers i)).1).atProcess
        (.done (-1)), some x) := by
    simp [clientSystem, next, processStep, here, port, failure]
  refine ⟨x, ?_⟩
  rw [List.replicate_succ, TraceSystem.exec_cons wrote]
  exact exec_done rbSize heap (s.setPort i _) (-1) _

/-- A refused event, and the return. -/
theorem exec_refused (here : s.process.pc = .enqueue call i)
    (full : s.client.eventQueue.enqueue (.process s.process.serial i) = none)
    (history : List (Obs κ)) :
    (clientSystem ρ κ rbSize heap).exec s history (List.replicate 2 .processStep) =
      some ({ s with process := ⟨s.process.serial + 1, .idle⟩ },
        history ++ [.refused (.process s.process.serial i)] ++
          [.processReturned s.process.serial (-1)]) := by
  have refused : (clientSystem ρ κ rbSize heap).next s .processStep =
      some (s.atProcess (.done (-1)), some (.refused (.process s.process.serial i))) := by
    simp [clientSystem, next, processStep, here, full]
  rw [List.replicate_succ, TraceSystem.exec_cons refused]
  exact exec_done rbSize heap s (-1) _

/-- An event and its post, up to the next port. -/
theorem exec_announced (here : s.process.pc = .enqueue call i) {q : BoundedFifo Occurrence}
    (room : s.client.eventQueue.enqueue (.process s.process.serial i) = some q)
    (history : List (Obs κ)) :
    (clientSystem ρ κ rbSize heap).exec s history (List.replicate 2 .processStep) =
      some (((s.setQueue q).setMutex (s.client.mutex + 1)).atProcess (.loop call (i + 1)),
        history ++ [.enqueued (.process s.process.serial i)]) := by
  have enqueued : (clientSystem ρ κ rbSize heap).next s .processStep =
      some ((s.setQueue q).atProcess (.post call i),
        some (.enqueued (.process s.process.serial i))) := by
    simp [clientSystem, next, processStep, here, room]
  have posted : (clientSystem ρ κ rbSize heap).next ((s.setQueue q).atProcess (.post call i))
      .processStep =
      some (((s.setQueue q).setMutex (s.client.mutex + 1)).atProcess (.loop call (i + 1)), none) :=
    rfl
  exact TraceSystem.exec_pair enqueued posted history

end Round

/-- The loop, step by step, computes what it does as one function. -/
theorem exec_processFrom (call : ProcessCall) (n i : ℕ) (s : RunningClient ρ κ)
    (here : s.process.pc = .loop call i) (rest : i + n = s.client.ports.length)
    (history : List (Obs κ)) :
    ∃ steps observed, (clientSystem ρ κ rbSize heap).exec s history
        (List.replicate steps .processStep) = some
      ({ s with
        client := (s.client.processFrom call s.process.serial n i).1
        process := ⟨s.process.serial + 1, .idle⟩ },
        history ++ observed ++ [.processReturned s.process.serial
          (s.client.processFrom call s.process.serial n i).2]) := by
  induction n generalizing i s history with
  | zero =>
      have last : s.client.ports[i]? = none := by
        rw [List.getElem?_eq_none_iff]
        omega
      have ended : (clientSystem ρ κ rbSize heap).next s .processStep =
          some (s.atProcess (.done 0), none) := by
        simp [clientSystem, next, processStep, here, last]
      refine ⟨2, [], ?_⟩
      rw [List.replicate_succ, TraceSystem.exec_cons ended, Option.toList_none, List.append_nil]
      exact exec_done rbSize heap s 0 _
  | succ n ih =>
      obtain ⟨p, port⟩ : ∃ p, s.client.ports[i]? = some p :=
        ⟨_, List.getElem?_eq_getElem (by omega)⟩
      by_cases success : (p.writeToRingbuffer call.nframes (call.buffers i)).2 = 0
      · obtain ⟨x, wrote⟩ := exec_wrote rbSize heap here port success history
        -- the port written, on the way to its event
        let t := (s.setPort i (p.writeToRingbuffer call.nframes (call.buffers i)).1).atProcess
          (.enqueue call i)
        cases room : s.client.eventQueue.enqueue (.process s.process.serial i) with
        | none =>
            rw [JacksRbClient.processFrom_refused port success room]
            have refused := exec_refused rbSize heap (s := t) rfl room (history ++ [x])
            refine ⟨3, [x, .refused (.process s.process.serial i)], ?_⟩
            have observations : history ++ [x, .refused (.process s.process.serial i)] =
                history ++ [x] ++ [.refused (.process s.process.serial i)] := by
              simp
            rw [List.replicate_add 1 2, TraceSystem.exec_append wrote, observations]
            exact refused
        | some q =>
            rw [JacksRbClient.processFrom_announced port success room]
            have announced := exec_announced rbSize heap (s := t) rfl room (history ++ [x])
            obtain ⟨steps, observed, plays⟩ := ih (i + 1)
              (((t.setQueue q).setMutex (s.client.mutex + 1)).atProcess (.loop call (i + 1))) rfl
              (by simp [t]; omega) (history ++ [x] ++ [.enqueued (.process s.process.serial i)])
            refine ⟨1 + (2 + steps), [x, .enqueued (.process s.process.serial i)] ++ observed, ?_⟩
            have observations :
                history ++ ([x, .enqueued (.process s.process.serial i)] ++ observed) =
                  history ++ [x] ++ [.enqueued (.process s.process.serial i)] ++ observed := by
              simp
            rw [List.replicate_add, TraceSystem.exec_append wrote, List.replicate_add,
              TraceSystem.exec_append announced, observations]
            exact plays
      · have failure := (p.rc_write_of_ne_zero _ _ success).1
        rw [JacksRbClient.processFrom_overrun port failure]
        obtain ⟨x, overran⟩ := exec_overran rbSize heap here port failure history
        exact ⟨2, [x], overran⟩

/-- **A process thread that is not interrupted computes one cycle**, from the call to
the return. -/
theorem exec_processCb (call : ProcessCall) (s : RunningClient ρ κ) (here : s.process.pc = .idle)
    (history : List (Obs κ)) :
    ∃ steps observed, (clientSystem ρ κ rbSize heap).exec s history
        (.processCb call :: List.replicate steps .processStep) = some
      ({ s with
        client := (s.client.processCb call s.process.serial).1
        process := ⟨s.process.serial + 1, .idle⟩ },
        history ++ observed ++ [.processReturned s.process.serial
          (s.client.processCb call s.process.serial).2]) := by
  have called : (clientSystem ρ κ rbSize heap).next s (.processCb call) =
      some (s.atProcess (.loop call 0), none) := by
    simp [clientSystem, next, here]
  obtain ⟨steps, observed, plays⟩ := exec_processFrom call s.client.ports.length 0
    (s.atProcess (.loop call 0)) rfl (Nat.zero_add _) history
  refine ⟨steps, observed, ?_⟩
  rw [TraceSystem.exec_cons called, Option.toList_none, List.append_nil]
  exact plays

end Running

end Jacks
