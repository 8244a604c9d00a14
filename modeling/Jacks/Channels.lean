import Jacks.ProcessThread
import Jacks.Streams

/-!
# Channels in step

A script that fetches the buffers of all its ports for every PROCESS event takes
them to be of one length: the documented loop copies an input buffer to an output
buffer over the length of the latter.  But `_process_cb` announces each port as
soon as it has written it, so the script may be reading while some ports of a
cycle are written and others are not, or while the next cycle is being written.

* `Handling` — what the script has done about the event it was given last.
* `EventLoop` — the documented way to use a client, in runs without failures.
* `channels_in_step` — the buffers of one handling have one length as long as
  they are read after equally many writes to their ports.
* `channels_out_of_step` — a read between the writes of two ports.
-/

namespace Jacks

open Foundations JackRingbuffer

universe u v

/-! ## Handling an event -/

/-- A buffer the script got: from which port, how many blocks had been written to
that port by then, and its `length()`. -/
structure Read where
  port : ℕ
  seen : ℕ
  len : ℕ
  deriving DecidableEq

/-- What the script has done about the event it was given last, and how many
blocks were written to each port so far. -/
structure Handling where
  event : Option EventRef
  reads : List Read
  written : ℕ → ℕ

namespace Handling

/-- No event, no buffer, no block. -/
def start : Handling := ⟨none, [], fun _ => 0⟩

/-- Account for an observation. -/
def observe {κ : Type v} (h : Handling) : Obs κ → Handling
  | .delivered _ o => { h with event := some o.event, reads := [] }
  | .gotBuffer i len _ =>
      { h with reads := h.reads ++ [⟨i, h.written i, toUnsigned len⟩] }
  | .wrote _ i _ _ _ => { h with written := Function.update h.written i (h.written i + 1) }
  | _ => h

/-- The ports whose buffers the script got. -/
def ports (h : Handling) : List ℕ := h.reads.map Read.port

end Handling

/-- The handling of the last event of a history. -/
def handling {κ : Type v} (history : List (Obs κ)) : Handling :=
  history.foldl Handling.observe .start

/-- The length of a block written to port `i`. -/
def Obs.blockSize? {κ : Type v} (i : ℕ) : Obs κ → Option ℕ
  | .wrote _ j _ data _ => if j = i then some data.length else none
  | _ => none

/-- The lengths of the blocks written to port `i`. -/
def blockSizes {κ : Type v} (i : ℕ) (history : List (Obs κ)) : List ℕ :=
  history.filterMap (Obs.blockSize? i)

section Append

variable {κ : Type v} (history : List (Obs κ)) (o : Option (Obs κ))

theorem handling_append :
    handling (history ++ o.toList) = o.elim (handling history) (handling history).observe := by
  cases o <;> simp [handling]

theorem blockSizes_append (i : ℕ) :
    blockSizes i (history ++ o.toList) =
      blockSizes i history ++ (o.bind (Obs.blockSize? i)).toList :=
  filterMap_observed _ history o

/-- A handling counts the blocks. -/
theorem written_handling (i : ℕ) :
    (handling history).written i = (blockSizes i history).length := by
  induction history using List.reverseRecOn with
  | nil => rfl
  | append_singleton earlier x ih =>
      rw [show earlier ++ [x] = earlier ++ (some x).toList from rfl, handling_append,
        blockSizes_append, List.length_append, ← ih]
      cases x with
      | wrote cycle j free data rc =>
          rcases eq_or_ne i j with rfl | different
          · simp [Handling.observe, Obs.blockSize?]
          · simp [Handling.observe, Obs.blockSize?, different, different.symm]
      | _ => rfl

end Append

/-! ## The blocks of a cycle -/

/-- The block the cycle in progress has written to port `i`, if it has. -/
def ProcessPc.block : ProcessPc → ℕ → List ℕ
  | .loop call upTo, i => if i < upTo then [4 * call.nframes.toNat] else []
  | .enqueue call current, i => if i ≤ current then [4 * call.nframes.toNat] else []
  | .post call current, i => if i ≤ current then [4 * call.nframes.toNat] else []
  | _, _ => []

/-- All ports were written blocks of the same lengths, but for the cycle in
progress. -/
def Uniform {κ : Type v} (n : ℕ) (t : Thread ProcessPc) (history : List (Obs κ)) : Prop :=
  ∃ past : List ℕ, ∀ i, i < n → blockSizes i history = past ++ t.pc.block i

/-- An overrun or a PROCESS event refused. -/
def Obs.fails {κ : Type v} : Obs κ → Bool
  | .wrote _ _ _ _ rc => rc ≠ 0
  | .refused o => o.event = .process
  | _ => false

theorem Uniform.step {κ : Type v} {n : ℕ} {t t' : Thread ProcessPc} {history : List (Obs κ)}
    {o : Option (Obs κ)} (inv : Uniform n t history) (moves : ProcessMove n t t' o)
    (succeeds : o.any Obs.fails = false) : Uniform n t' (history ++ o.toList) := by
  obtain ⟨past, same⟩ := inv
  cases moves with
  | still quiet =>
      refine ⟨past, fun i registered => ?_⟩
      rw [blockSizes_append, same i registered]
      rcases o with _ | x
      · simp
      · cases x with
        | wrote => cases quiet
        | _ => simp [Obs.blockSize?]
  | invoked =>
      exact ⟨past, fun i registered => by simp [same i registered, ProcessPc.block]⟩
  | @endOfPorts cycle call k last =>
      -- the loop is past every port: the cycle belongs to the past now
      refine ⟨past ++ [4 * call.nframes.toNat], fun i registered => ?_⟩
      have written : i < k := by omega
      simp [same i registered, ProcessPc.block, written]
  | @wrote cycle call k free data block =>
      refine ⟨past, fun i registered => ?_⟩
      rw [blockSizes_append, same i registered]
      rcases Nat.lt_trichotomy i k with before | rfl | after
      · have : k ≠ i := by omega
        simp [ProcessPc.block, Obs.blockSize?, before, before.le, this]
      · simp [ProcessPc.block, Obs.blockSize?, block]
      · have : k ≠ i := by omega
        simp [ProcessPc.block, Obs.blockSize?, this, Nat.not_lt.mpr after.le, Nat.not_le.mpr after]
  | overran => cases succeeds
  | enqueued =>
      refine ⟨past, fun i registered => ?_⟩
      rw [blockSizes_append, same i registered]
      simp [ProcessPc.block, Obs.blockSize?]
  | refused => cases succeeds
  | posted =>
      refine ⟨past, fun i registered => ?_⟩
      simp only [same i registered, ProcessPc.block, Nat.lt_succ_iff, Option.toList_none,
        List.append_nil]
  | returned =>
      refine ⟨past, fun i registered => ?_⟩
      rw [blockSizes_append, same i registered]
      simp [ProcessPc.block, Obs.blockSize?]

/-- As far as two ports were written equally often, they were written blocks of the
same lengths. -/
theorem Uniform.take_eq {κ : Type v} {n : ℕ} {t : Thread ProcessPc} {history : List (Obs κ)}
    (inv : Uniform n t history) {i j k : ℕ} (registered : i < n) (registered' : j < n)
    (written : k ≤ (blockSizes i history).length) (written' : k ≤ (blockSizes j history).length) :
    (blockSizes i history).take k = (blockSizes j history).take k := by
  obtain ⟨past, same⟩ := inv
  rw [same i registered, List.length_append] at written
  rw [same j registered', List.length_append] at written'
  rw [same i registered, same j registered']
  have alternatives : t.pc.block i = t.pc.block j ∨ t.pc.block i = [] ∨ t.pc.block j = [] := by
    cases t.pc with
    | loop call upTo =>
        simp only [ProcessPc.block]
        split_ifs <;> simp
    | enqueue call current | post call current =>
        simp only [ProcessPc.block]
        split_ifs <;> simp
    | _ => exact .inl rfl
  rcases alternatives with both | none | none
  · rw [both]
  · rw [none, List.length_nil, Nat.add_zero] at written
    rw [List.take_append_of_le_length written, List.take_append_of_le_length written]
  · rw [none, List.length_nil, Nat.add_zero] at written'
    rw [List.take_append_of_le_length written', List.take_append_of_le_length written']

/-! ## The reads of a handling -/

/-- The reads of the handling in progress, against what was read in earlier ones:
`drained` bytes from every port. -/
structure Handled {κ : Type v} (n rb drained : ℕ) (pc : ScriptPc) (history : List (Obs κ)) :
    Prop where
  unread : ∀ i, i < n → i ∉ (handling history).ports → (returned i history).length = drained
  read : ∀ r ∈ (handling history).reads, r.port < n ∧
    (returned r.port history).length = drained + r.len ∧
    r.seen ≤ (blockSizes r.port history).length ∧
    r.len = min (((blockSizes r.port history).take r.seen).sum - drained) rb
  together : ∀ r ∈ (handling history).reads, ∀ r' ∈ (handling history).reads, r.seen = r'.seen
  /-- Whoever is in `get_event` has handled the event before. -/
  handled : pc ≠ .outside → (handling history).event = some .process →
    ∀ i, i < n → i ∈ (handling history).ports
  /-- No other event is answered by reads. -/
  process : (handling history).event ≠ some .process → (handling history).reads = []

/-- The observations a handling accounts for. -/
def Obs.ofHandling {κ : Type v} : Obs κ → Bool
  | .wrote _ _ _ _ _ => true
  | .gotBuffer _ _ _ => true
  | .delivered _ _ => true
  | _ => false

/-- Any other leaves the handling, the blocks and the streams as they are. -/
theorem unchanged_of_quiet {κ : Type v} (history : List (Obs κ)) {o : Option (Obs κ)}
    (quiet : o.any Obs.ofHandling = false) :
    handling (history ++ o.toList) = handling history ∧
      (∀ i, blockSizes i (history ++ o.toList) = blockSizes i history) ∧
      ∀ i, returned i (history ++ o.toList) = returned i history := by
  rcases o with _ | x
  · simp
  · refine ⟨?_, ?_, ?_⟩
    · rw [handling_append]
      cases x with
      | wrote | gotBuffer | delivered => cases quiet
      | _ => rfl
    · intro i
      rw [blockSizes_append]
      cases x with
      | wrote => cases quiet
      | _ => exact List.append_nil _
    · intro i
      rw [returned, List.flatMap_append]
      cases x with
      | gotBuffer => cases quiet
      | _ => exact List.append_nil _

namespace Handled

variable {κ : Type v} {n rb drained : ℕ} {pc : ScriptPc} {history : List (Obs κ)}

/-- The buffers of the handling in progress have one length. -/
theorem len_eq {t : Thread ProcessPc} (inv : Handled n rb drained pc history)
    (uniform : Uniform n t history) :
    ∀ r ∈ (handling history).reads, ∀ r' ∈ (handling history).reads, r.len = r'.len := by
  intro r mem r' mem'
  obtain ⟨registered, -, seen, len⟩ := inv.read r mem
  obtain ⟨registered', -, seen', len'⟩ := inv.read r' mem'
  have same : r.seen = r'.seen := inv.together r mem r' mem'
  rw [← same] at seen' len'
  rw [len, len', uniform.take_eq registered registered' seen seen']

/-- A step a handling does not account for, of a script that may be where it is. -/
theorem still {pc' : ScriptPc} {o : Option (Obs κ)} (inv : Handled n rb drained pc history)
    (quiet : o.any Obs.ofHandling = false)
    (handled : pc' ≠ .outside → (handling history).event = some .process →
      ∀ i, i < n → i ∈ (handling history).ports) :
    Handled n rb drained pc' (history ++ o.toList) := by
  obtain ⟨sameHandling, sameBlocks, sameStream⟩ := unchanged_of_quiet history quiet
  constructor
  · simpa only [sameHandling, sameStream] using inv.unread
  · simpa only [sameHandling, sameStream, sameBlocks] using inv.read
  · simpa only [sameHandling] using inv.together
  · simpa only [sameHandling] using handled
  · simpa only [sameHandling] using inv.process

/-- A block is written. -/
theorem wrote (inv : Handled n rb drained pc history) (cycle i free : ℕ) (data : List Byte)
    (rc : ℤ) : Handled n rb drained pc (history ++ [.wrote cycle i free data rc]) := by
  have sameStream : ∀ j, returned j (history ++ [.wrote cycle i free data rc]) =
      returned j history := by
    intro j
    simp [returned, Obs.returned]
  have observed := handling_append history (some (.wrote cycle i free data rc))
  simp only [Option.toList_some, Option.elim_some, Handling.observe] at observed
  constructor
  · simpa only [observed, sameStream, Handling.ports] using inv.unread
  · rw [observed]
    intro r mem
    obtain ⟨registered, drainedBy, seen, len⟩ := inv.read r mem
    have longer := blockSizes_append history (some (.wrote cycle i free data rc)) r.port
    rw [Option.toList_some] at longer
    refine ⟨registered, by rw [sameStream, drainedBy], ?_, ?_⟩
    · rw [longer, List.length_append]
      omega
    · rw [longer, List.take_append_of_le_length seen]
      exact len
  · simpa only [observed] using inv.together
  · simpa only [observed, Handling.ports] using inv.handled
  · simpa only [observed] using inv.process

/-- A buffer is fetched, of a port not read before in this handling. -/
theorem gotBuffer {i : ℕ} {len : ℤ} {framebuf : List Byte}
    (inv : Handled n rb drained .outside history) (registered : i < n)
    (event : (handling history).event = some .process) (fresh : i ∉ (handling history).ports)
    (together : ∀ r ∈ (handling history).reads, r.seen = (handling history).written i)
    (chunk : (framebuf.take (toUnsigned len)).length = toUnsigned len)
    (amount : toUnsigned len = min ((blockSizes i history).sum - drained) rb) :
    Handled n rb drained .outside (history ++ [.gotBuffer i len framebuf]) := by
  have observed := handling_append history (some (.gotBuffer i len framebuf))
  simp only [Option.toList_some, Option.elim_some, Handling.observe] at observed
  have sameBlocks : ∀ j, blockSizes j (history ++ [.gotBuffer i len framebuf]) =
      blockSizes j history := by
    intro j
    simp [blockSizes, Obs.blockSize?]
  have elsewhere : ∀ j, j ≠ i → returned j (history ++ [.gotBuffer i len framebuf]) =
      returned j history := by
    intro j different
    simp [returned, Obs.returned, different.symm]
  have here : (returned i (history ++ [.gotBuffer i len framebuf])).length =
      drained + toUnsigned len := by
    rw [← inv.unread i registered fresh, returned, List.flatMap_append, List.length_append]
    simp only [List.flatMap_cons, List.flatMap_nil, List.append_nil, Obs.returned, if_true, chunk,
      returned]
  constructor
  · intro j registered' notRead
    rw [observed] at notRead
    simp only [Handling.ports, List.map_append, List.mem_append, not_or, List.map_cons,
      List.map_nil, List.mem_singleton] at notRead
    rw [elsewhere j notRead.2]
    exact inv.unread j registered' notRead.1
  · rw [observed]
    intro r mem
    rcases List.mem_append.mp mem with earlier | now
    · have different : r.port ≠ i := by
        rintro rfl
        exact fresh (List.mem_map_of_mem earlier)
      rw [elsewhere r.port different, sameBlocks]
      exact inv.read r earlier
    · obtain rfl := List.mem_singleton.mp now
      refine ⟨registered, here, ?_, ?_⟩
      · rw [sameBlocks, written_handling]
      · rw [sameBlocks, written_handling, List.take_length]
        exact amount
  · rw [observed]
    intro r mem r' mem'
    rcases List.mem_append.mp mem with earlier | now <;>
      rcases List.mem_append.mp mem' with earlier' | now'
    · exact inv.together r earlier r' earlier'
    · rw [List.mem_singleton.mp now']
      exact together r earlier
    · rw [List.mem_singleton.mp now]
      exact (together r' earlier').symm
    · rw [List.mem_singleton.mp now, List.mem_singleton.mp now']
  · intro inside
    exact absurd rfl inside
  · rw [observed]
    intro other
    exact absurd event other

/-- The next event is delivered: the handling before it is over, and has drained
all ports alike. -/
theorem delivered {t : Thread ProcessPc} (inv : Handled n rb drained pc history)
    (uniform : Uniform n t history) (inside : pc ≠ .outside) (c : κ) (o : Occurrence) :
    ∃ drained', Handled n rb drained' .outside (history ++ [.delivered c o]) := by
  have observed := handling_append history (some (.delivered c o))
  simp only [Option.toList_some, Option.elim_some, Handling.observe] at observed
  have sameStream : ∀ j, returned j (history ++ [.delivered c o]) = returned j history := by
    intro j
    simp [returned, Obs.returned]
  have alike : ∃ drained', ∀ i, i < n → (returned i history).length = drained' := by
    by_cases event : (handling history).event = some .process
    · rcases Nat.eq_zero_or_pos n with rfl | some_port
      · exact ⟨0, fun i registered => absurd registered (Nat.not_lt_zero i)⟩
      · obtain ⟨first, mem, -⟩ := List.mem_map.mp (inv.handled inside event 0 some_port)
        refine ⟨drained + first.len, fun i registered => ?_⟩
        obtain ⟨r, mem', rfl⟩ := List.mem_map.mp (inv.handled inside event i registered)
        rw [(inv.read r mem').2.1, inv.len_eq uniform r mem' first mem]
    · refine ⟨drained, fun i registered => inv.unread i registered ?_⟩
      rw [Handling.ports, inv.process event]
      exact List.not_mem_nil
  obtain ⟨drained', all⟩ := alike
  refine ⟨drained', ?_⟩
  constructor
  · intro i registered _
    rw [sameStream]
    exact all i registered
  · simp [observed]
  · simp [observed]
  · intro inside
    exact absurd rfl inside
  · simp [observed]

end Handled

/-! ## The documented loop -/

namespace RunningClient

variable {ρ : Type u} [JackRingbuffer ρ]

/-- The process thread neither overruns a ring nor fills the queue in its next
step. -/
def FindsRoom (client : JacksRbClient ρ) : ProcessPc → Prop
  | .loop call i => ∀ p ∈ client.ports[i]?, 4 * call.nframes.toNat ≤ free p.rb
  | .enqueue _ _ => client.eventQueue.items.length < client.eventQueue.capacity
  | _ => True

instance (client : JacksRbClient ρ) : DecidablePred (FindsRoom client)
  | .loop call i =>
      inferInstanceAs (Decidable (∀ p ∈ client.ports[i]?, 4 * call.nframes.toNat ≤ free p.rb))
  | .enqueue _ _ =>
      inferInstanceAs (Decidable (client.eventQueue.items.length < client.eventQueue.capacity))
  | .idle | .post _ _ | .done _ => isTrue trivial

/-- A script of one thread that answers every PROCESS event by getting the buffer
of each port once before it asks for the next event, in a run without failures
whose blocks fit the frame buffers. -/
def EventLoop (s : RunningClient ρ Unit) (history : List (Obs Unit)) : Action Unit → Prop
  | .processCb call => 4 * call.nframes.toNat ≤ s.client.rbSize.toNat
  | .processStep => FindsRoom s.client s.process.pc
  | .getEvent _ => (handling history).event = some .process →
      ∀ i, i < s.client.ports.length → i ∈ (handling history).ports
  | .getBuffer i => s.script () = .outside ∧ (handling history).event = some .process ∧
      i ∉ (handling history).ports
  | _ => True

/-- A port is read when as many blocks were written to it as to the ports read
before it in the same handling when they were read: the process thread has not
written one of these ports in the meantime, and is not between them in a cycle. -/
def ReadsInStep (_ : RunningClient ρ Unit) (history : List (Obs Unit)) : Action Unit → Prop
  | .getBuffer i => ∀ r ∈ (handling history).reads, r.seen = (handling history).written i
  | _ => True

instance (s : RunningClient ρ Unit) (history : List (Obs Unit)) :
    DecidablePred (EventLoop s history)
  | .processCb call => inferInstanceAs (Decidable (4 * call.nframes.toNat ≤ s.client.rbSize.toNat))
  | .processStep => inferInstanceAs (Decidable (FindsRoom s.client s.process.pc))
  | .getEvent _ => inferInstanceAs (Decidable ((handling history).event = some .process →
      ∀ i, i < s.client.ports.length → i ∈ (handling history).ports))
  | .getBuffer i => inferInstanceAs (Decidable (s.script () = .outside ∧
      (handling history).event = some .process ∧ i ∉ (handling history).ports))
  | .sessionCb | .sessionStep | .controlCb _ | .controlStep _ | .dequeue _ | .wait _ | .interrupt _
  | .complete _ | .getData _ => isTrue trivial

instance (s : RunningClient ρ Unit) (history : List (Obs Unit)) :
    DecidablePred (ReadsInStep s history)
  | .getBuffer i => inferInstanceAs (Decidable (∀ r ∈ (handling history).reads,
      r.seen = (handling history).written i))
  | .processCb _ | .processStep | .sessionCb | .sessionStep | .controlCb _ | .controlStep _
  | .getEvent _ | .dequeue _ | .wait _ | .interrupt _ | .complete _ | .getData _ => isTrue trivial

section Runs

variable {rbSize : UInt32} {heap : List Malloced} {s s' : RunningClient ρ Unit}
variable {history : List (Obs Unit)} {a : Action Unit} {o : Option (Obs Unit)}

/-- With room everywhere nothing fails. -/
theorem succeeds_of_findsRoom (moves : Step s a s' o) (loop : EventLoop s history a) :
    o.any Obs.fails = false := by
  cases moves with
  | @overran call i p here port failure =>
      have room : 4 * call.nframes.toNat ≤ free p.rb := by
        rw [EventLoop, here, FindsRoom] at loop
        exact loop p port
      rw [(p.rc_write_eq_zero_iff _ _).mpr room] at failure
      cases failure
  | processRefused here full =>
      have room : s.client.eventQueue.items.length < s.client.eventQueue.capacity := by
        simpa only [EventLoop, FindsRoom, here] using loop
      rw [BoundedFifo.enqueue_eq_none_iff] at full
      omega
  | @controlRefused cb here full => cases cb <;> rfl
  | _ => rfl

theorem reaches_uniform
    (run : (clientSystem ρ Unit rbSize heap).ReachesUnder EventLoop s history) :
    Uniform heap.length s.process history := by
  refine run.induct (I := fun s history => Uniform heap.length s.process history) ?_ ?_
  · exact ⟨[], fun i _ => rfl⟩
  · intro s history a s' o before inv loop moves
    have step := step_of_next moves
    have move := step.processMove
    rw [(reaches_lossless before.reaches).table] at move
    exact inv.step move (succeeds_of_findsRoom step loop)

/-- Without failures a port has accepted all the blocks written to it. -/
theorem length_accepted
    (run : (clientSystem ρ Unit rbSize heap).ReachesUnder EventLoop s history) (i : ℕ) :
    (accepted i history).length = (blockSizes i history).sum := by
  refine run.induct
    (I := fun _ history => (accepted i history).length = (blockSizes i history).sum) rfl ?_
  intro s history a s' o _ inv loop moves
  have succeeds := succeeds_of_findsRoom (step_of_next moves) loop
  rw [accepted, List.flatMap_append, List.length_append, blockSizes_append, List.sum_append,
    ← inv, accepted]
  congr 1
  rcases o with _ | x
  · rfl
  · cases x with
    | wrote cycle j free data rc =>
        have whole : rc = 0 := by simpa [Obs.fails] using succeeds
        rcases eq_or_ne j i with rfl | different
        · simp [Obs.accepted, Obs.blockSize?, whole]
        · simp [Obs.accepted, Obs.blockSize?, different]
    | _ => rfl

/-- What `getBuffer` hands out, from a port that was drained that far. -/
theorem len_getBuffer {i drained : ℕ} {p : JacksRbPort ρ}
    (run : (clientSystem ρ Unit rbSize heap).ReachesUnder EventLoop s history)
    (port : s.client.ports[i]? = some p) (before : (returned i history).length = drained) :
    toUnsigned p.readFromRingbuffer.2 =
      min ((blockSizes i history).sum - drained) (JacksRbClient.chosenRbSize rbSize).toNat := by
  obtain ⟨size, conserved⟩ := (reaches_lossless run.reaches).stream i p port
  have stream := conserved.length
  rw [length_accepted run i, before] at stream
  rw [p.toUnsigned_len_read, p.length_copied, p.blen_eq, size, stream, Nat.add_sub_cancel_left]

theorem reaches_handled
    (run : (clientSystem ρ Unit rbSize heap).ReachesUnder
      (fun s history a => EventLoop s history a ∧ ReadsInStep s history a) s history) :
    ∃ drained, Handled heap.length (JacksRbClient.chosenRbSize rbSize).toNat drained
      (s.script ()) history := by
  refine run.induct (I := fun s history => ∃ drained, Handled heap.length
    (JacksRbClient.chosenRbSize rbSize).toNat drained (s.script ()) history) ?_ ?_
  · refine ⟨0, ?_⟩
    constructor
    · intro i _ _; rfl
    · intro r mem; cases mem
    · intro r mem; cases mem
    · intro inside; exact absurd rfl inside
    · intro _; rfl
  · rintro s history a s' o before ⟨drained, inv⟩ ⟨loop, inStep⟩ moves
    have loops := before.mono fun _ _ _ both => both.1
    have table := (reaches_lossless before.reaches).table
    cases step_of_next moves with
    | wrote | overran => exact ⟨drained, inv.wrote _ _ _ _ _⟩
    | @getEvent c here =>
        cases c
        exact ⟨drained, inv.still rfl fun _ => by simpa only [EventLoop, table] using loop⟩
    | @foundEmpty c here | @waited c _ here | @interrupted c here =>
        cases c
        exact ⟨drained, inv.still rfl fun _ => inv.handled (by rw [here]; nofun)⟩
    | @delivered c o q here first =>
        cases c
        obtain ⟨drained', after⟩ :=
          inv.delivered (reaches_uniform loops) (by rw [here]; nofun) () o
        exact ⟨drained', by simpa using after⟩
    | @gotBuffer i p port =>
        obtain ⟨outside, event, fresh⟩ := loop
        have registered : i < heap.length := by
          rw [← table]
          exact (List.getElem?_eq_some_iff.mp port).1
        rw [outside] at inv
        refine ⟨drained, ?_⟩
        rw [setPort_script, outside]
        refine inv.gotBuffer registered event fresh inStep ?_ ?_
        · rw [take_framebuf_read, p.toUnsigned_len_read]
        · exact len_getBuffer loops port (inv.unread i registered fresh)
    | _ => exact ⟨drained, inv.still rfl inv.handled⟩

/-- **Channels stay in step when they are read in step.**  In every run of the
documented loop in which the buffers of one handling are read after equally many
writes to their ports, all buffers of one handling have the same length. -/
theorem channels_in_step
    (run : (clientSystem ρ Unit rbSize heap).ReachesUnder
      (fun s history a => EventLoop s history a ∧ ReadsInStep s history a) s history) :
    ∀ r ∈ (handling history).reads, ∀ r' ∈ (handling history).reads, r.len = r'.len := by
  obtain ⟨drained, inv⟩ := reaches_handled run
  exact inv.len_eq (reaches_uniform (run.mono fun _ _ _ both => both.1))

end Runs

/-- Two ports, one frame for each; the script handles the first event when both are
written. -/
def readTogether : List (Action Unit) :=
  [.processCb ⟨1, fun _ _ => 1#32⟩, .processStep, .processStep, .processStep, .processStep,
   .getEvent (), .dequeue (), .getBuffer 0, .getBuffer 1]

/-- Its two buffers have one length. -/
theorem channels_in_step_readTogether :
    ∃ s history,
      (clientSystem (BoundedFifo Byte) Unit 8 [⟨fun _ => 0, 0⟩, ⟨fun _ => 0, 0⟩]).exec
        (clientSystem (BoundedFifo Byte) Unit 8 [⟨fun _ => 0, 0⟩, ⟨fun _ => 0, 0⟩]).init []
        readTogether = some (s, history) ∧
      (handling history).reads = [⟨0, 1, 4⟩, ⟨1, 1, 4⟩] ∧
      ∀ r ∈ (handling history).reads, ∀ r' ∈ (handling history).reads, r.len = r'.len := by
  exact ⟨_, _, rfl, by decide, channels_in_step (TraceSystem.reachesUnder_of_exec
    (clientSystem (BoundedFifo Byte) Unit 8 [⟨fun _ => 0, 0⟩, ⟨fun _ => 0, 0⟩]) _
    readTogether (by decide) rfl)⟩

/-- The script handles the first event when only the first port is written. -/
def readBetween : List (Action Unit) :=
  [.processCb ⟨1, fun _ _ => 1#32⟩, .processStep, .processStep, .getEvent (), .dequeue (),
   .getBuffer 0, .getBuffer 1]

/-- It gets four bytes from the first port and none from the second. -/
theorem channels_out_of_step :
    ∃ s history,
      (clientSystem (BoundedFifo Byte) Unit 8 [⟨fun _ => 0, 0⟩, ⟨fun _ => 0, 0⟩]).ReachesUnder
        EventLoop s history ∧
      (handling history).reads = [⟨0, 1, 4⟩, ⟨1, 0, 0⟩] ∧
      ¬ ∀ r ∈ (handling history).reads, ∀ r' ∈ (handling history).reads, r.len = r'.len :=
  ⟨_, _, TraceSystem.reachesUnder_of_exec
    (clientSystem (BoundedFifo Byte) Unit 8 [⟨fun _ => 0, 0⟩, ⟨fun _ => 0, 0⟩]) EventLoop
    readBetween (by decide) rfl, by decide, by decide⟩

end RunningClient

end Jacks
