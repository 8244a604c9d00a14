import Mathlib.Tactic.Common

/-!
# Events, latches and occurrences

A client owns four `JacksEvent` objects for its whole life, and the event queue
holds pointers to them.  Completing an event calls its completion token, if it
has one: only the session event does, and its token posts the session latch.

What sits in the queue is recorded here together with the callback invocation
that put it there (`Occurrence`).  The program stores the pointer alone; the
invocation is bookkeeping for statements such as "this session event was
delivered", and no step of the program looks at it.
-/

namespace Jacks

/-! ## The latch -/

/-- `JacksLatch`, seen from outside its mutex: whether it is `POSTED`. -/
structure JacksLatch where
  posted : Bool
  deriving DecidableEq

namespace JacksLatch

/-- `JacksLatch_new`. -/
def new : JacksLatch := ⟨false⟩

/-- `JacksLatch_get`: `none` while the caller has to wait. -/
def get (l : JacksLatch) : Option JacksLatch :=
  if l.posted then some ⟨false⟩ else none

/-- `JacksLatch_post`. -/
def post (_ : JacksLatch) : JacksLatch := ⟨true⟩

@[simp] theorem posted_new : new.posted = false := rfl

@[simp] theorem posted_post (l : JacksLatch) : l.post.posted = true := rfl

/-- A get goes through exactly when the latch is posted, and takes the post. -/
theorem get_eq_some_iff {l l' : JacksLatch} :
    l.get = some l' ↔ l.posted = true ∧ l' = ⟨false⟩ := by
  unfold get
  split
  · next posted => simp [posted, eq_comm]
  · next notPosted => simp [notPosted]

end JacksLatch

/-! ## The event objects -/

/-- `JACKSCRIPT_EVENT_TYPE`. -/
inductive EventType
  | process
  | session
  | err
  | sampleRateChange
  | shutdown
  deriving DecidableEq

/-- A `jack_session_event_t` JACK sent, by the number of the invocation it was
sent with. -/
abbrev SessionEvent := ℕ

/-- `JacksEvent`: the data pointer is `NULL` or a session event, the completion
token is `NULL` or a function on the latch it was made with. -/
structure JacksEvent where
  etype : EventType
  data : Option SessionEvent
  ctoken : Option (JacksLatch → JacksLatch)

namespace JacksEvent

/-- `JacksEvent_new`. -/
def new (etype : EventType) (ctoken : Option (JacksLatch → JacksLatch)) : JacksEvent where
  etype := etype
  data := none
  ctoken := ctoken

/-- `JacksEvent_complete`, as what it does to the latch. -/
def complete (e : JacksEvent) (latch : JacksLatch) : JacksLatch :=
  match e.ctoken with
  | none => latch
  | some token => token latch

/-- `JacksEvent_get_data`. -/
def getData (e : JacksEvent) : Option SessionEvent := e.data

/-- `JacksEvent_set_data`. -/
def setData (e : JacksEvent) (data : Option SessionEvent) : JacksEvent :=
  { e with data := data }

@[simp] theorem getData_setData (e : JacksEvent) (data : Option SessionEvent) :
    (e.setData data).getData = data := rfl

/-- Changing the data leaves the completion token alone. -/
@[simp] theorem ctoken_setData (e : JacksEvent) (data : Option SessionEvent) :
    (e.setData data).ctoken = e.ctoken := rfl

end JacksEvent

/-! ## What is queued -/

/-- Which of a client's four event objects a pointer leads to. -/
inductive EventRef
  | process
  | session
  | sampleRate
  | shutdown
  deriving DecidableEq

/-- The callbacks that only announce themselves: `_shutdown_cb` and
`_sample_rate_change_cb`. -/
inductive ControlCb
  | shutdown
  | sampleRate
  deriving DecidableEq

/-- The event object a control callback enqueues. -/
def ControlCb.event : ControlCb → EventRef
  | shutdown => .shutdown
  | sampleRate => .sampleRate

/-- A queued pointer, with the invocation that enqueued it. -/
inductive Occurrence
  /-- `_process_cb` for one port in one cycle. -/
  | process (cycle port : ℕ)
  /-- `_session_cb` for a session event. -/
  | session (e : SessionEvent)
  /-- A control callback. -/
  | control (cb : ControlCb) (serial : ℕ)
  deriving DecidableEq

/-- The pointer itself. -/
def Occurrence.event : Occurrence → EventRef
  | process _ _ => .process
  | session _ => .session
  | control cb _ => cb.event

end Jacks
