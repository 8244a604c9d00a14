import Jacks.RunningClient

/-!
# The byte streams of the ports

Every port carries a stream of bytes from the process callback to the script.
Along any run of the client, whatever the callbacks and the script do in between,
what a port's writes accepted is what its reads returned followed by what is
still unread: nothing is lost, doubled or reordered, also when a write is cut
because the ring is full and the callback gives up.

Only three steps touch a port (`PortStep`): a successful write, a write that
overran, and a read.  Everything about streams is a statement about these.
-/

namespace Jacks

open Foundations JackRingbuffer

universe u v

namespace Obs

variable {κ : Type v}

/-- The port an observation is about. -/
def port : Obs κ → Option ℕ
  | .wrote _ i _ _ _ => some i
  | .gotBuffer i _ _ => some i
  | _ => none

/-- The bytes a write accepted into port `i`: all of them if it returned 0, else
as many as there was room for. -/
def accepted (i : ℕ) : Obs κ → List Byte
  | .wrote _ j free data rc =>
      if j = i then (if rc = 0 then data else data.take (min free data.length)) else []
  | _ => []

/-- The bytes a read handed out from port `i`: as much of the frame buffer as the
reported length says. -/
def returned (i : ℕ) : Obs κ → List Byte
  | .gotBuffer j len framebuf => if j = i then framebuf.take (toUnsigned len) else []
  | _ => []

theorem accepted_eq_nil {i : ℕ} {x : Obs κ} (elsewhere : x.port ≠ some i) : x.accepted i = [] := by
  cases x with
  | wrote cycle j free data rc =>
      have : j ≠ i := fun same => elsewhere (congrArg some same)
      simp [accepted, this]
  | _ => rfl

theorem returned_eq_nil {i : ℕ} {x : Obs κ} (elsewhere : x.port ≠ some i) : x.returned i = [] := by
  cases x with
  | gotBuffer j len framebuf =>
      have : j ≠ i := fun same => elsewhere (congrArg some same)
      simp [returned, this]
  | _ => rfl

end Obs

/-- The bytes all writes accepted into port `i`. -/
def accepted {κ : Type v} (i : ℕ) (history : List (Obs κ)) : List Byte :=
  history.flatMap (Obs.accepted i)

/-- The bytes all reads returned from port `i`. -/
def returned {κ : Type v} (i : ℕ) (history : List (Obs κ)) : List Byte :=
  history.flatMap (Obs.returned i)

namespace RunningClient

variable {ρ : Type u} {κ : Type v} [DecidableEq κ] [JackRingbuffer ρ]

/-- What a step does to the ports: nothing, a write to one of them, or a read
from one of them. -/
inductive PortStep (s s' : RunningClient ρ κ) : Option (Obs κ) → Prop
  | untouched {o} (same : s'.client.ports = s.client.ports) (quiet : ∀ x ∈ o, x.port = none) :
      PortStep s s' o
  | write {i : ℕ} {p : JacksRbPort ρ} {call : ProcessCall} (port : s.client.ports[i]? = some p)
      (changed : s'.client.ports =
        s.client.ports.set i (p.writeToRingbuffer call.nframes (call.buffers i)).1) :
      PortStep s s' (some (.wrote s.process.serial i (JackRingbuffer.free p.rb)
        (captured call.nframes (call.buffers i))
        (p.writeToRingbuffer call.nframes (call.buffers i)).2))
  | read {i : ℕ} {p : JacksRbPort ρ} (port : s.client.ports[i]? = some p)
      (changed : s'.client.ports = s.client.ports.set i p.readFromRingbuffer.1) :
      PortStep s s' (some (.gotBuffer i p.readFromRingbuffer.2 p.readFromRingbuffer.1.framebuf))

theorem Step.portStep {s s' : RunningClient ρ κ} {a : Action κ} {o : Option (Obs κ)}
    (moves : Step s a s' o) : PortStep s s' o := by
  cases moves with
  | wrote here port success => rw [← success]; exact .write port rfl
  | overran here port failure => rw [← failure]; exact .write port rfl
  | gotBuffer port => exact .read port rfl
  | _ => exact .untouched rfl (by simp [Obs.port])

namespace PortStep

omit [DecidableEq κ]

variable {s s' : RunningClient ρ κ} {o : Option (Obs κ)}

/-- A step that is not about port `i` leaves it as it was. -/
theorem getElem?_eq (moves : PortStep s s' o) {i : ℕ} (elsewhere : ∀ x ∈ o, x.port ≠ some i) :
    s'.client.ports[i]? = s.client.ports[i]? := by
  cases moves with
  | untouched same quiet => rw [same]
  | @write j p call port changed =>
      have : j ≠ i := fun same => elsewhere _ rfl (congrArg some same)
      rw [changed, List.getElem?_set_ne this]
  | @read j p port changed =>
      have : j ≠ i := fun same => elsewhere _ rfl (congrArg some same)
      rw [changed, List.getElem?_set_ne this]

/-- No step adds or removes a port. -/
theorem length_eq (moves : PortStep s s' o) :
    s'.client.ports.length = s.client.ports.length := by
  cases moves with
  | untouched same quiet => rw [same]
  | write port changed => rw [changed, List.length_set]
  | read port changed => rw [changed, List.length_set]

/-- What a step does to one port. -/
theorem port_cases (moves : PortStep s s' o) {i : ℕ} {p' : JacksRbPort ρ}
    (after : s'.client.ports[i]? = some p') :
    (s.client.ports[i]? = some p' ∧ ∀ x ∈ o, x.port ≠ some i) ∨
    (∃ (p : JacksRbPort ρ) (call : ProcessCall), s.client.ports[i]? = some p ∧
      p' = (p.writeToRingbuffer call.nframes (call.buffers i)).1 ∧
      o = some (.wrote s.process.serial i (JackRingbuffer.free p.rb)
        (captured call.nframes (call.buffers i))
        (p.writeToRingbuffer call.nframes (call.buffers i)).2)) ∨
    (∃ p : JacksRbPort ρ, s.client.ports[i]? = some p ∧ p' = p.readFromRingbuffer.1 ∧
      o = some (.gotBuffer i p.readFromRingbuffer.2 p.readFromRingbuffer.1.framebuf)) := by
  by_cases elsewhere : ∀ x ∈ o, x.port ≠ some i
  · rw [moves.getElem?_eq elsewhere] at after
    exact .inl ⟨after, elsewhere⟩
  · push Not at elsewhere
    obtain ⟨x, observed, about⟩ := elsewhere
    cases moves with
    | untouched same quiet => rw [quiet x observed] at about; cases about
    | @write j p call port changed =>
        obtain rfl : _ = x := by simpa using observed
        obtain rfl : j = i := by simpa [Obs.port] using about
        obtain ⟨inTable, -⟩ := List.getElem?_eq_some_iff.mp port
        rw [changed, List.getElem?_set_self inTable] at after
        exact .inr (.inl ⟨p, call, port, (Option.some.inj after).symm, rfl⟩)
    | @read j p port changed =>
        obtain rfl : _ = x := by simpa using observed
        obtain rfl : j = i := by simpa [Obs.port] using about
        obtain ⟨inTable, -⟩ := List.getElem?_eq_some_iff.mp port
        rw [changed, List.getElem?_set_self inTable] at after
        exact .inr (.inr ⟨p, port, (Option.some.inj after).symm, rfl⟩)

end PortStep

omit [DecidableEq κ] in
/-- What a write accepts is the part of its block the ring has room for, whatever
it returns. -/
theorem accepted_write (p : JacksRbPort ρ) (call : ProcessCall) (cycle i : ℕ) :
    Obs.accepted i (.wrote cycle i (free p.rb) (captured call.nframes (call.buffers i))
      (p.writeToRingbuffer call.nframes (call.buffers i)).2 : Obs κ) =
    (captured call.nframes (call.buffers i)).take (free p.rb) := by
  rw [Obs.accepted, if_pos rfl, ← List.take_take, List.take_length]
  split
  · next success =>
      rw [JacksRbPort.rc_write_eq_zero_iff] at success
      rw [List.take_of_length_le (by simpa using success)]
  · rfl

/-- What `getBuffer` hands out is what was copied. -/
theorem take_framebuf_read (p : JacksRbPort ρ) :
    p.readFromRingbuffer.1.framebuf.take (toUnsigned p.readFromRingbuffer.2) = p.copied := by
  rw [JacksRbPort.framebuf_read, p.toUnsigned_len_read, List.take_left]

/-- The state of the ports and the history belong together: the table has its
size, every port its `rb_size`, every stream is conserved, and every buffer
handed out is a filled part of a frame buffer. -/
structure Lossless (rbSize : UInt32) (heap : List Malloced) (s : RunningClient ρ κ)
    (history : List (Obs κ)) : Prop where
  table : s.client.ports.length = heap.length
  stream : ∀ (i : ℕ) (p : JacksRbPort ρ), s.client.ports[i]? = some p →
    p.rbSize = JacksRbClient.chosenRbSize rbSize ∧
      BoundedFifo.Conserves (accepted i history) (returned i history) (unread p.rb)
  chunk : ∀ i len framebuf, .gotBuffer i len framebuf ∈ history →
    (framebuf.take (toUnsigned len)).length = toUnsigned len ∧
      framebuf.length = (JacksRbClient.chosenRbSize rbSize).toNat

theorem Lossless.step {rbSize : UInt32} {heap : List Malloced} {s s' : RunningClient ρ κ}
    {history : List (Obs κ)} {a : Action κ} {o : Option (Obs κ)}
    (inv : Lossless rbSize heap s history) (moves : Step s a s' o) :
    Lossless rbSize heap s' (history ++ o.toList) := by
  obtain ⟨table, stream, chunk⟩ := inv
  refine ⟨by rw [moves.portStep.length_eq, table], ?_, ?_⟩
  · intro i p' after
    simp only [accepted, returned, List.flatMap_append] at stream ⊢
    rcases moves.portStep.port_cases after with
      ⟨before, elsewhere⟩ | ⟨p, call, before, rfl, rfl⟩ | ⟨p, before, rfl, rfl⟩
    · have nothing : o.toList.flatMap (Obs.accepted i) = [] ∧
          o.toList.flatMap (Obs.returned i) = [] := by
        cases o with
        | none => simp
        | some x =>
            simp [Obs.accepted_eq_nil (elsewhere x rfl), Obs.returned_eq_nil (elsewhere x rfl)]
      rw [nothing.1, nothing.2, List.append_nil, List.append_nil]
      exact stream i p' before
    · obtain ⟨size, conserved⟩ := stream i p before
      refine ⟨by rw [JacksRbPort.rbSize_write, size], ?_⟩
      rw [JacksRbPort.unread_write]
      simpa only [Option.toList_some, List.flatMap_cons, List.flatMap_nil, List.append_nil,
        accepted_write, Obs.returned] using conserved.accept _
    · obtain ⟨size, conserved⟩ := stream i p before
      refine ⟨by rw [JacksRbPort.rbSize_read, size], ?_⟩
      simpa [Obs.accepted, Obs.returned, take_framebuf_read] using
        conserved.hand_out p.unread_read
  · intro i len framebuf observed
    rcases List.mem_append.mp observed with earlier | now
    · exact chunk i len framebuf earlier
    · cases moves.portStep with
      | untouched same quiet =>
          have := quiet _ (Option.mem_toList.mp now)
          simp [Obs.port] at this
      | write port changed => simp at now
      | @read j p port changed =>
          obtain ⟨-, sameLen, sameBuf⟩ : i = j ∧ len = p.readFromRingbuffer.2 ∧
              framebuf = p.readFromRingbuffer.1.framebuf := by simpa using now
          rw [sameLen, sameBuf, take_framebuf_read, p.toUnsigned_len_read]
          refine ⟨rfl, ?_⟩
          rw [p.readFromRingbuffer.1.framebuf_length, JacksRbPort.rbSize_read,
            (stream j p port).1]

theorem lossless_init (rbSize : UInt32) (heap : List Malloced) :
    Lossless rbSize heap (clientSystem ρ κ rbSize heap).init [] where
  table := by simp [clientSystem]
  stream i p port := by
    simp only [clientSystem, JacksRbClient.ports_withPorts, List.getElem?_map,
      Option.map_eq_some_iff] at port
    obtain ⟨left, -, rfl⟩ := port
    exact ⟨rfl, by simpa [accepted, returned] using BoundedFifo.Conserves.start⟩
  chunk := by simp

theorem reaches_lossless {rbSize : UInt32} {heap : List Malloced} {s : RunningClient ρ κ}
    {history : List (Obs κ)} (run : (clientSystem ρ κ rbSize heap).Reaches s history) :
    Lossless rbSize heap s history :=
  run.induct (I := Lossless rbSize heap) (lossless_init rbSize heap)
    fun _ _ _ _ _ _ inv _ moves => inv.step (step_of_next moves)

/-- **The streams of the ports are lossless.**  In every state of every run of a
client, for each of its ports, the bytes its reads returned followed by those
still unread are the bytes its writes accepted; every buffer handed out has the
reported length and fits the frame buffer of `rb_size` bytes; and no step on one
port changes another. -/
theorem streams_lossless {rbSize : UInt32} {heap : List Malloced} {s : RunningClient ρ κ}
    {history : List (Obs κ)} (run : (clientSystem ρ κ rbSize heap).Reaches s history) :
    (∀ i, i < heap.length → ∃ p, s.client.ports[i]? = some p ∧
      returned i history ++ unread p.rb = accepted i history) ∧
    (∀ i len framebuf, .gotBuffer i len framebuf ∈ history →
      (framebuf.take (toUnsigned len)).length = toUnsigned len ∧
      toUnsigned len ≤ (JacksRbClient.chosenRbSize rbSize).toNat ∧
      framebuf.length = (JacksRbClient.chosenRbSize rbSize).toNat) ∧
    (∀ a s' x i j, s.next a = some (s', some x) → x.port = some j → i ≠ j →
      s'.client.ports[i]? = s.client.ports[i]?) := by
  have inv := reaches_lossless run
  refine ⟨?_, ?_, ?_⟩
  · intro i registered
    have inTable : i < s.client.ports.length := by rw [inv.table]; exact registered
    exact ⟨_, List.getElem?_eq_getElem inTable,
      ((inv.stream i _ (List.getElem?_eq_getElem inTable)).2).symm⟩
  · intro i len framebuf observed
    obtain ⟨whole, size⟩ := inv.chunk i len framebuf observed
    refine ⟨whole, ?_, size⟩
    rw [List.length_take] at whole
    omega
  · intro a s' x i j moves about different
    refine (step_of_next moves).portStep.getElem?_eq fun y observed elsewhere => ?_
    obtain rfl : x = y := by simpa using observed
    exact different (Option.some.inj (elsewhere.symm.trans about))

/-- Two frames are written to a port of eight bytes and read back. -/
def writeReadRun : List (Action Unit) :=
  [.processCb ⟨2, fun _ _ => 1#32⟩, .processStep, .getBuffer 0]

theorem streams_lossless_writeReadRun :
    ∃ s history, (clientSystem (BoundedFifo Byte) Unit 8 [⟨fun _ => 0, 0⟩]).exec
        (clientSystem (BoundedFifo Byte) Unit 8 [⟨fun _ => 0, 0⟩]).init [] writeReadRun =
          some (s, history) ∧
      accepted 0 history = [1, 0, 0, 0, 1, 0, 0, 0] ∧
      ∃ p, s.client.ports[0]? = some p ∧ returned 0 history ++ unread p.rb = accepted 0 history :=
  ⟨_, _, rfl, by decide,
    (streams_lossless (TraceSystem.reaches_of_exec
      (clientSystem (BoundedFifo Byte) Unit 8 [⟨fun _ => 0, 0⟩]) writeReadRun rfl)).1 0
      (by decide)⟩

end RunningClient

end Jacks
