import Jacks.Event
import Jacks.Port

/-!
# The client

`JacksRbClient`: the port table, the event queue with its semaphore, and the
four event objects, as `JacksRbClient_new` and `JacksRbClient_registerPort`
build them.

The event queue is liblfds's, of `rb_size` elements, and `queue_enqueue` stores
nothing when it is full.  The number that sizes it is the one that sizes the
rings of the ports, where it counts frames.
-/

namespace Jacks

open Foundations JackRingbuffer

universe u

/-- `DEFAULT_RB_SIZE`. -/
def defaultRbSize : UInt32 := 16384

/-- `JacksRbClient`, without JACK's own handle. -/
structure JacksRbClient (ρ : Type u) where
  ports : List (JacksRbPort ρ)
  rbSize : UInt32
  eventQueue : BoundedFifo Occurrence
  mutex : ℕ
  processEvent : JacksEvent
  sessionEvent : JacksEvent
  sessionLatch : JacksLatch
  sampleRateEvent : JacksEvent
  shutdownEvent : JacksEvent

/-- The arguments of one `_process_cb` invocation: `nframes`, and for every port
the buffer JACK hands out in this cycle. -/
structure ProcessCall where
  nframes : UInt32
  buffers : ℕ → PortBuffer

namespace JacksRbClient

variable {ρ : Type u} [JackRingbuffer ρ]

/-- The size a client works with: a zero asks for the default. -/
def chosenRbSize (rbSize : UInt32) : UInt32 :=
  if rbSize = 0 then defaultRbSize else rbSize

/-- `JacksRbClient_new`. -/
def new (rbSize : UInt32) : JacksRbClient ρ where
  ports := []
  rbSize := chosenRbSize rbSize
  eventQueue := BoundedFifo.empty (chosenRbSize rbSize).toNat
  mutex := 1
  processEvent := JacksEvent.new .process none
  sessionEvent := JacksEvent.new .session (some JacksLatch.post)
  sessionLatch := JacksLatch.new
  sampleRateEvent := JacksEvent.new .sampleRateChange none
  shutdownEvent := JacksEvent.new .shutdown none

/-- `JacksRbClient_registerPort`, for a port table that is not full. -/
def registerPort (c : JacksRbClient ρ) (left : Malloced) : JacksRbClient ρ :=
  { c with ports := c.ports ++ [JacksRbPort.new c.rbSize left] }

/-- A client with its ports registered, one for each block `malloc` returned. -/
def withPorts (rbSize : UInt32) (heap : List Malloced) : JacksRbClient ρ :=
  heap.foldl registerPort (new rbSize)

/-- The event object a pointer leads to. -/
def event (c : JacksRbClient ρ) : EventRef → JacksEvent
  | .process => c.processEvent
  | .session => c.sessionEvent
  | .sampleRate => c.sampleRateEvent
  | .shutdown => c.shutdownEvent

/-- `JacksEvent_complete` on an event of the client. -/
def complete (c : JacksRbClient ρ) (ref : EventRef) : JacksRbClient ρ :=
  { c with sessionLatch := (c.event ref).complete c.sessionLatch }

/-- The session event alone has a completion token, and it posts the latch. -/
structure Wired (c : JacksRbClient ρ) : Prop where
  session : c.sessionEvent.ctoken = some JacksLatch.post
  others : ∀ ref, ref ≠ .session → (c.event ref).ctoken = none

omit [JackRingbuffer ρ] in
/-- Completing the session event posts the latch. -/
theorem Wired.complete_session {c : JacksRbClient ρ} (wired : c.Wired) :
    c.complete .session = { c with sessionLatch := ⟨true⟩ } := by
  simp [complete, event, JacksEvent.complete, wired.session, JacksLatch.post]

omit [JackRingbuffer ρ] in
/-- Completing any other event does nothing. -/
theorem Wired.complete_other {c : JacksRbClient ρ} (wired : c.Wired) {ref : EventRef}
    (other : ref ≠ .session) : c.complete ref = c := by
  simp [complete, JacksEvent.complete, wired.others ref other]

theorem chosenRbSize_pos (rbSize : UInt32) : 0 < (chosenRbSize rbSize).toNat := by
  unfold chosenRbSize
  split
  · decide
  · next nonzero =>
      refine Nat.pos_of_ne_zero fun zero => nonzero ?_
      exact UInt32.toNat_inj.mp zero

/-- Registering changes the port table and nothing else. -/
theorem withPorts_eq (rbSize : UInt32) (heap : List Malloced) :
    (withPorts rbSize heap : JacksRbClient ρ) =
      { (new rbSize : JacksRbClient ρ) with
        ports := heap.map (JacksRbPort.new (chosenRbSize rbSize)) } := by
  suffices grows : ∀ (c : JacksRbClient ρ), heap.foldl registerPort c =
      { c with ports := c.ports ++ heap.map (JacksRbPort.new c.rbSize) } by
    rw [withPorts, grows]
    simp [new]
  induction heap with
  | nil => intro c; simp
  | cons left rest ih => intro c; simp [ih, registerPort]

@[simp] theorem ports_withPorts (rbSize : UInt32) (heap : List Malloced) :
    (withPorts rbSize heap : JacksRbClient ρ).ports =
      heap.map (JacksRbPort.new (chosenRbSize rbSize)) := by
  rw [withPorts_eq]

@[simp] theorem rbSize_withPorts (rbSize : UInt32) (heap : List Malloced) :
    (withPorts rbSize heap : JacksRbClient ρ).rbSize = chosenRbSize rbSize := by
  rw [withPorts_eq, new]

@[simp] theorem eventQueue_withPorts (rbSize : UInt32) (heap : List Malloced) :
    (withPorts rbSize heap : JacksRbClient ρ).eventQueue =
      BoundedFifo.empty (chosenRbSize rbSize).toNat := by
  rw [withPorts_eq, new]

@[simp] theorem mutex_withPorts (rbSize : UInt32) (heap : List Malloced) :
    (withPorts rbSize heap : JacksRbClient ρ).mutex = 1 := by
  rw [withPorts_eq, new]

@[simp] theorem sessionEvent_withPorts (rbSize : UInt32) (heap : List Malloced) :
    (withPorts rbSize heap : JacksRbClient ρ).sessionEvent =
      JacksEvent.new .session (some JacksLatch.post) := by
  rw [withPorts_eq, new]

@[simp] theorem sessionLatch_withPorts (rbSize : UInt32) (heap : List Malloced) :
    (withPorts rbSize heap : JacksRbClient ρ).sessionLatch = JacksLatch.new := by
  rw [withPorts_eq, new]

theorem wired_withPorts (rbSize : UInt32) (heap : List Malloced) :
    (withPorts rbSize heap : JacksRbClient ρ).Wired where
  session := by rw [withPorts_eq]; rfl
  others ref other := by
    rw [withPorts_eq]
    cases ref with
    | session => exact absurd rfl other
    | _ => rfl

end JacksRbClient

end Jacks
