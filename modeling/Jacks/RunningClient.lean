import Mathlib.Tactic.Simps.Basic
import Jacks.Foundations.TraceSystem
import Jacks.Client

/-!
# A running client

The client together with the threads that work on it: JACK's process thread, the
threads JACK runs the session, shutdown and sample-rate callbacks on, and the
threads of the script.  Each callback runs serially with itself; otherwise any
thread may take the next step.  The atomic steps are the calls the source makes
on shared objects: a ring write, an enqueue, a post, a dequeue, a wait, a
latch get, and the assignments to the data pointer of the session event.

A successful dequeue of `get_event` and its return are one step: what lies
between them touches nothing shared.  `complete`, `getData` and `getBuffer` of
the script may come at any moment and with any of its handles; that a script can
only name an event it was given is a condition on runs (`UsesItsHandles`).

`next` is the machine, `Step` says by cases what it can do, and `step_of_next`
is the only place where `next` is unfolded.  What is observed of a run is `Obs`;
all counting and ordering statements are about lists of observations.
-/

namespace Jacks

open Foundations JackRingbuffer

universe u v

/-! ## Threads -/

/-- A callback thread: how many invocations it has completed, which is the number
of the one in progress, and where it is. -/
structure Thread (P : Type u) where
  serial : ℕ
  pc : P

theorem Thread.eq_of_pc {P : Type u} {t : Thread P} {pc : P} (here : t.pc = pc) :
    t = ⟨t.serial, pc⟩ := by
  rw [← here]

/-- Where the process thread is in `_process_cb`. -/
inductive ProcessPc
  | idle
  /-- About to test `i < nports` and write port `i`. -/
  | loop (call : ProcessCall) (i : ℕ)
  | enqueue (call : ProcessCall) (i : ℕ)
  | post (call : ProcessCall) (i : ℕ)
  | done (rc : ℤ)

/-- Where the session thread is in `_session_cb`. -/
inductive SessionPc
  | idle
  | setData
  | enqueue
  | post
  | latchGet
  | clearData
  | reply
  | free
  deriving DecidableEq

/-- Where a control thread is in its callback. -/
inductive ControlPc
  | idle
  | enqueue
  | post
  deriving DecidableEq

/-- Where a thread of the script is in `get_event`. -/
inductive ScriptPc
  | outside
  | dequeue
  | semWait
  deriving DecidableEq

/-- A client and the threads around it. -/
structure RunningClient (ρ : Type u) (κ : Type v) where
  client : JacksRbClient ρ
  process : Thread ProcessPc
  session : Thread SessionPc
  control : ControlCb → Thread ControlPc
  script : κ → ScriptPc

/-- JACK invokes a callback, a thread takes its next step, or the script calls. -/
inductive Action (κ : Type v)
  | processCb (call : ProcessCall)
  | processStep
  | sessionCb
  | sessionStep
  | controlCb (cb : ControlCb)
  | controlStep (cb : ControlCb)
  | getEvent (c : κ)
  | dequeue (c : κ)
  | wait (c : κ)
  | interrupt (c : κ)
  | complete (ref : EventRef)
  | getData (ref : EventRef)
  | getBuffer (port : ℕ)

/-- What is observed of a step. -/
inductive Obs (κ : Type v)
  /-- A ring write of `data` into `free` bytes of room, and its result. -/
  | wrote (cycle port free : ℕ) (data : List Byte) (rc : ℤ)
  | enqueued (o : Occurrence)
  | refused (o : Occurrence)
  | processReturned (cycle : ℕ) (rc : ℤ)
  | delivered (c : κ) (o : Occurrence)
  | completed (ref : EventRef)
  | gotData (ref : EventRef) (data : Option SessionEvent)
  /-- What `getBuffer` hands out: the length and the frame buffer. -/
  | gotBuffer (port : ℕ) (len : ℤ) (framebuf : List Byte)
  | replied (e : SessionEvent)
  | freed (e : SessionEvent)
  deriving DecidableEq

/-! ## Steps -/

namespace RunningClient

variable {ρ : Type u} {κ : Type v} [DecidableEq κ]

/-- Put a port back into the table. -/
@[simps]
def setPort (s : RunningClient ρ κ) (i : ℕ) (p : JacksRbPort ρ) : RunningClient ρ κ :=
  { s with client := { s.client with ports := s.client.ports.set i p } }

/-- Replace the event queue. -/
@[simps]
def setQueue (s : RunningClient ρ κ) (q : BoundedFifo Occurrence) : RunningClient ρ κ :=
  { s with client := { s.client with eventQueue := q } }

/-- Set the semaphore. -/
@[simps]
def setMutex (s : RunningClient ρ κ) (tokens : ℕ) : RunningClient ρ κ :=
  { s with client := { s.client with mutex := tokens } }

/-- Set the data pointer of the session event. -/
@[simps]
def setSessionData (s : RunningClient ρ κ) (data : Option SessionEvent) : RunningClient ρ κ :=
  { s with client := { s.client with sessionEvent := s.client.sessionEvent.setData data } }

/-- Replace the session latch. -/
@[simps]
def setLatch (s : RunningClient ρ κ) (l : JacksLatch) : RunningClient ρ κ :=
  { s with client := { s.client with sessionLatch := l } }

/-- Move the process thread within an invocation. -/
@[simps]
def atProcess (s : RunningClient ρ κ) (pc : ProcessPc) : RunningClient ρ κ :=
  { s with process := { s.process with pc := pc } }

/-- Move the session thread within an invocation. -/
@[simps]
def atSession (s : RunningClient ρ κ) (pc : SessionPc) : RunningClient ρ κ :=
  { s with session := { s.session with pc := pc } }

/-- Move a control thread. -/
@[simps]
def setControl (s : RunningClient ρ κ) (cb : ControlCb) (t : Thread ControlPc) :
    RunningClient ρ κ :=
  { s with control := Function.update s.control cb t }

/-- Move a thread of the script. -/
@[simps]
def atScript (s : RunningClient ρ κ) (c : κ) (pc : ScriptPc) : RunningClient ρ κ :=
  { s with script := Function.update s.script c pc }

variable [JackRingbuffer ρ]

/-- The next step of `_process_cb`. -/
def processStep (s : RunningClient ρ κ) : Option (RunningClient ρ κ × Option (Obs κ)) :=
  match s.process.pc with
  | .idle => none
  | .loop call i =>
      match s.client.ports[i]? with
      | none => some (s.atProcess (.done 0), none)
      | some p =>
          let result := p.writeToRingbuffer call.nframes (call.buffers i)
          some ((s.setPort i result.1).atProcess
              (if result.2 ≠ 0 then .done (-1) else .enqueue call i),
            some (.wrote s.process.serial i (free p.rb)
              (captured call.nframes (call.buffers i)) result.2))
  | .enqueue call i =>
      let o := Occurrence.process s.process.serial i
      match s.client.eventQueue.enqueue o with
      | some q => some ((s.setQueue q).atProcess (.post call i), some (.enqueued o))
      | none => some (s.atProcess (.done (-1)), some (.refused o))
  | .post call i =>
      some ((s.setMutex (s.client.mutex + 1)).atProcess (.loop call (i + 1)), none)
  | .done rc =>
      some ({ s with process := ⟨s.process.serial + 1, .idle⟩ },
        some (.processReturned s.process.serial rc))

/-- The next step of `_session_cb`. -/
def sessionStep (s : RunningClient ρ κ) : Option (RunningClient ρ κ × Option (Obs κ)) :=
  let e := s.session.serial
  match s.session.pc with
  | .idle => none
  | .setData => some ((s.setSessionData (some e)).atSession .enqueue, none)
  | .enqueue =>
      match s.client.eventQueue.enqueue (.session e) with
      | some q => some ((s.setQueue q).atSession .post, some (.enqueued (.session e)))
      | none => some (s.atSession .post, some (.refused (.session e)))
  | .post => some ((s.setMutex (s.client.mutex + 1)).atSession .latchGet, none)
  | .latchGet =>
      match s.client.sessionLatch.get with
      | none => none
      | some l => some ((s.setLatch l).atSession .clearData, none)
  | .clearData => some ((s.setSessionData none).atSession .reply, none)
  | .reply => some (s.atSession .free, some (.replied e))
  | .free => some ({ s with session := ⟨e + 1, .idle⟩ }, some (.freed e))

/-- The next step of a control callback, which enqueues its event and posts. -/
def controlStep (s : RunningClient ρ κ) (cb : ControlCb) :
    Option (RunningClient ρ κ × Option (Obs κ)) :=
  let n := (s.control cb).serial
  match (s.control cb).pc with
  | .idle => none
  | .enqueue =>
      match s.client.eventQueue.enqueue (.control cb n) with
      | some q => some ((s.setQueue q).setControl cb ⟨n, .post⟩, some (.enqueued (.control cb n)))
      | none => some (s.setControl cb ⟨n, .post⟩, some (.refused (.control cb n)))
  | .post => some ((s.setMutex (s.client.mutex + 1)).setControl cb ⟨n + 1, .idle⟩, none)

/-- The next step of `_shutdown_cb`. -/
def shutdownCb (s : RunningClient ρ κ) : Option (RunningClient ρ κ × Option (Obs κ)) :=
  s.controlStep .shutdown

/-- The next step of `_sample_rate_change_cb`. -/
def sampleRateChangeCb (s : RunningClient ρ κ) : Option (RunningClient ρ κ × Option (Obs κ)) :=
  s.controlStep .sampleRate

/-- One atomic step. -/
def next (s : RunningClient ρ κ) : Action κ → Option (RunningClient ρ κ × Option (Obs κ))
  | .processCb call =>
      match s.process.pc with
      | .idle => some (s.atProcess (.loop call 0), none)
      | _ => none
  | .processStep => s.processStep
  | .sessionCb =>
      match s.session.pc with
      | .idle => some (s.atSession .setData, none)
      | _ => none
  | .sessionStep => s.sessionStep
  | .controlCb cb =>
      match (s.control cb).pc with
      | .idle => some (s.setControl cb ⟨(s.control cb).serial, .enqueue⟩, none)
      | _ => none
  | .controlStep .shutdown => s.shutdownCb
  | .controlStep .sampleRate => s.sampleRateChangeCb
  | .getEvent c =>
      match s.script c with
      | .outside => some (s.atScript c .dequeue, none)
      | _ => none
  | .dequeue c =>
      match s.script c, s.client.eventQueue.dequeue with
      | .dequeue, some (o, q) => some ((s.setQueue q).atScript c .outside, some (.delivered c o))
      | .dequeue, none => some (s.atScript c .semWait, none)
      | _, _ => none
  | .wait c =>
      match s.script c, s.client.mutex with
      | .semWait, tokens + 1 => some ((s.setMutex tokens).atScript c .dequeue, none)
      | _, _ => none
  | .interrupt c =>
      match s.script c with
      | .semWait => some (s.atScript c .dequeue, none)
      | _ => none
  | .complete ref => some ({ s with client := s.client.complete ref }, some (.completed ref))
  | .getData ref => some (s, some (.gotData ref (s.client.event ref).getData))
  | .getBuffer i =>
      match s.client.ports[i]? with
      | none => none
      | some p =>
          let result := p.readFromRingbuffer
          some (s.setPort i result.1, some (.gotBuffer i result.2 result.1.framebuf))

/-- What a step can do. -/
inductive Step (s : RunningClient ρ κ) : Action κ → RunningClient ρ κ → Option (Obs κ) → Prop
  | processCb {call} (here : s.process.pc = .idle) :
      Step s (.processCb call) (s.atProcess (.loop call 0)) none
  | endOfPorts {call i} (here : s.process.pc = .loop call i) (last : s.client.ports[i]? = none) :
      Step s .processStep (s.atProcess (.done 0)) none
  | wrote {call i p} (here : s.process.pc = .loop call i) (port : s.client.ports[i]? = some p)
      (success : (p.writeToRingbuffer call.nframes (call.buffers i)).2 = 0) :
      Step s .processStep
        ((s.setPort i (p.writeToRingbuffer call.nframes (call.buffers i)).1).atProcess
          (.enqueue call i))
        (some (.wrote s.process.serial i (free p.rb)
          (captured call.nframes (call.buffers i)) 0))
  | overran {call i p} (here : s.process.pc = .loop call i) (port : s.client.ports[i]? = some p)
      (failure : (p.writeToRingbuffer call.nframes (call.buffers i)).2 = -1) :
      Step s .processStep
        ((s.setPort i (p.writeToRingbuffer call.nframes (call.buffers i)).1).atProcess
          (.done (-1)))
        (some (.wrote s.process.serial i (free p.rb)
          (captured call.nframes (call.buffers i)) (-1)))
  | processEnqueued {call i q} (here : s.process.pc = .enqueue call i)
      (room : s.client.eventQueue.enqueue (.process s.process.serial i) = some q) :
      Step s .processStep ((s.setQueue q).atProcess (.post call i))
        (some (.enqueued (.process s.process.serial i)))
  | processRefused {call i} (here : s.process.pc = .enqueue call i)
      (full : s.client.eventQueue.enqueue (.process s.process.serial i) = none) :
      Step s .processStep (s.atProcess (.done (-1)))
        (some (.refused (.process s.process.serial i)))
  | processPosted {call i} (here : s.process.pc = .post call i) :
      Step s .processStep ((s.setMutex (s.client.mutex + 1)).atProcess (.loop call (i + 1))) none
  | processReturned {rc} (here : s.process.pc = .done rc) :
      Step s .processStep { s with process := ⟨s.process.serial + 1, .idle⟩ }
        (some (.processReturned s.process.serial rc))
  | sessionCb (here : s.session.pc = .idle) : Step s .sessionCb (s.atSession .setData) none
  | dataSet (here : s.session.pc = .setData) :
      Step s .sessionStep ((s.setSessionData (some s.session.serial)).atSession .enqueue) none
  | sessionEnqueued {q} (here : s.session.pc = .enqueue)
      (room : s.client.eventQueue.enqueue (.session s.session.serial) = some q) :
      Step s .sessionStep ((s.setQueue q).atSession .post)
        (some (.enqueued (.session s.session.serial)))
  | sessionRefused (here : s.session.pc = .enqueue)
      (full : s.client.eventQueue.enqueue (.session s.session.serial) = none) :
      Step s .sessionStep (s.atSession .post) (some (.refused (.session s.session.serial)))
  | sessionPosted (here : s.session.pc = .post) :
      Step s .sessionStep ((s.setMutex (s.client.mutex + 1)).atSession .latchGet) none
  | latchPassed {l} (here : s.session.pc = .latchGet)
      (posted : s.client.sessionLatch.get = some l) :
      Step s .sessionStep ((s.setLatch l).atSession .clearData) none
  | dataCleared (here : s.session.pc = .clearData) :
      Step s .sessionStep ((s.setSessionData none).atSession .reply) none
  | replied (here : s.session.pc = .reply) :
      Step s .sessionStep (s.atSession .free) (some (.replied s.session.serial))
  | freed (here : s.session.pc = .free) :
      Step s .sessionStep { s with session := ⟨s.session.serial + 1, .idle⟩ }
        (some (.freed s.session.serial))
  | controlCb {cb} (here : (s.control cb).pc = .idle) :
      Step s (.controlCb cb) (s.setControl cb ⟨(s.control cb).serial, .enqueue⟩) none
  | controlEnqueued {cb q} (here : (s.control cb).pc = .enqueue)
      (room : s.client.eventQueue.enqueue (.control cb (s.control cb).serial) = some q) :
      Step s (.controlStep cb) ((s.setQueue q).setControl cb ⟨(s.control cb).serial, .post⟩)
        (some (.enqueued (.control cb (s.control cb).serial)))
  | controlRefused {cb} (here : (s.control cb).pc = .enqueue)
      (full : s.client.eventQueue.enqueue (.control cb (s.control cb).serial) = none) :
      Step s (.controlStep cb) (s.setControl cb ⟨(s.control cb).serial, .post⟩)
        (some (.refused (.control cb (s.control cb).serial)))
  | controlPosted {cb} (here : (s.control cb).pc = .post) :
      Step s (.controlStep cb)
        ((s.setMutex (s.client.mutex + 1)).setControl cb ⟨(s.control cb).serial + 1, .idle⟩) none
  | getEvent {c} (here : s.script c = .outside) :
      Step s (.getEvent c) (s.atScript c .dequeue) none
  | delivered {c o q} (here : s.script c = .dequeue)
      (first : s.client.eventQueue.dequeue = some (o, q)) :
      Step s (.dequeue c) ((s.setQueue q).atScript c .outside) (some (.delivered c o))
  | foundEmpty {c} (here : s.script c = .dequeue) (empty : s.client.eventQueue.dequeue = none) :
      Step s (.dequeue c) (s.atScript c .semWait) none
  | waited {c tokens} (here : s.script c = .semWait) (available : s.client.mutex = tokens + 1) :
      Step s (.wait c) ((s.setMutex tokens).atScript c .dequeue) none
  | interrupted {c} (here : s.script c = .semWait) :
      Step s (.interrupt c) (s.atScript c .dequeue) none
  | completed {ref} :
      Step s (.complete ref) { s with client := s.client.complete ref } (some (.completed ref))
  | gotData {ref} :
      Step s (.getData ref) s (some (.gotData ref (s.client.event ref).getData))
  | gotBuffer {i p} (port : s.client.ports[i]? = some p) :
      Step s (.getBuffer i) (s.setPort i p.readFromRingbuffer.1)
        (some (.gotBuffer i p.readFromRingbuffer.2 p.readFromRingbuffer.1.framebuf))

/-- The process thread does nothing else. -/
theorem step_of_processStep {s s' : RunningClient ρ κ} {o : Option (Obs κ)}
    (moves : s.processStep = some (s', o)) : Step s .processStep s' o := by
  unfold processStep at moves
  split at moves
  · cases moves
  · next here =>
      split at moves
      · next last => cases moves; exact .endOfPorts here last
      · next call i _ p port =>
          by_cases success : (p.writeToRingbuffer call.nframes (call.buffers i)).2 = 0
          · simp only [success, ne_eq, not_true_eq_false, if_false] at moves
            cases moves
            exact .wrote here port success
          · have failure := (p.rc_write_of_ne_zero _ _ success).1
            simp only [failure, ne_eq, reduceCtorEq, not_false_eq_true, if_true] at moves
            cases moves
            exact .overran here port failure
  · next here =>
      dsimp only at moves
      split at moves
      · next room => cases moves; exact .processEnqueued here room
      · next full => cases moves; exact .processRefused here full
  · next here => cases moves; exact .processPosted here
  · next here => cases moves; exact .processReturned here

/-- The session thread does nothing else. -/
theorem step_of_sessionStep {s s' : RunningClient ρ κ} {o : Option (Obs κ)}
    (moves : s.sessionStep = some (s', o)) : Step s .sessionStep s' o := by
  unfold sessionStep at moves
  dsimp only at moves
  split at moves
  · cases moves
  · next here => cases moves; exact .dataSet here
  · next here =>
      split at moves
      · next room => cases moves; exact .sessionEnqueued here room
      · next full => cases moves; exact .sessionRefused here full
  · next here => cases moves; exact .sessionPosted here
  · next here =>
      split at moves
      · cases moves
      · next posted => cases moves; exact .latchPassed here posted
  · next here => cases moves; exact .dataCleared here
  · next here => cases moves; exact .replied here
  · next here => cases moves; exact .freed here

/-- The control threads do nothing else. -/
theorem step_of_controlStep {s s' : RunningClient ρ κ} {cb : ControlCb} {o : Option (Obs κ)}
    (moves : s.controlStep cb = some (s', o)) : Step s (.controlStep cb) s' o := by
  unfold controlStep at moves
  dsimp only at moves
  split at moves
  · cases moves
  · next here =>
      split at moves
      · next room => cases moves; exact .controlEnqueued here room
      · next full => cases moves; exact .controlRefused here full
  · next here => cases moves; exact .controlPosted here

/-- `next` does nothing else. -/
theorem step_of_next {s s' : RunningClient ρ κ} {a : Action κ} {o : Option (Obs κ)}
    (moves : s.next a = some (s', o)) : Step s a s' o := by
  cases a with
  | processCb call =>
      simp only [next] at moves
      split at moves
      · next here => cases moves; exact .processCb here
      · cases moves
  | processStep => exact step_of_processStep moves
  | sessionCb =>
      simp only [next] at moves
      split at moves
      · next here => cases moves; exact .sessionCb here
      · cases moves
  | sessionStep => exact step_of_sessionStep moves
  | controlCb cb =>
      simp only [next] at moves
      split at moves
      · next here => cases moves; exact .controlCb here
      · cases moves
  | controlStep cb => cases cb <;> exact step_of_controlStep moves
  | getEvent c =>
      simp only [next] at moves
      split at moves
      · next here => cases moves; exact .getEvent here
      · cases moves
  | dequeue c =>
      simp only [next] at moves
      split at moves
      · next here first => cases moves; exact .delivered here first
      · next here empty => cases moves; exact .foundEmpty here empty
      · cases moves
  | wait c =>
      simp only [next] at moves
      split at moves
      · next here available => cases moves; exact .waited here available
      · cases moves
  | interrupt c =>
      simp only [next] at moves
      split at moves
      · next here => cases moves; exact .interrupted here
      · cases moves
  | complete ref => cases moves; exact .completed
  | getData ref => cases moves; exact .gotData
  | getBuffer i =>
      simp only [next] at moves
      split at moves
      · cases moves
      · next port => cases moves; exact .gotBuffer port

end RunningClient

/-! ## Runs -/

section Runs

variable (ρ : Type u) (κ : Type v) [JackRingbuffer ρ] [DecidableEq κ]

/-- A client of the given `rb_size` with one registered port for each block of
memory, before anything has happened. -/
def clientSystem (rbSize : UInt32) (heap : List Malloced) :
    TraceSystem (RunningClient ρ κ) (Action κ) (Obs κ) where
  init :=
    { client := JacksRbClient.withPorts rbSize heap
      process := ⟨0, .idle⟩
      session := ⟨0, .idle⟩
      control := fun _ => ⟨0, .idle⟩
      script := fun _ => .outside }
  next := RunningClient.next

variable {ρ κ} {rbSize : UInt32} {heap : List Malloced} {s : RunningClient ρ κ}
variable {history : List (Obs κ)}

/-- The sizes a client was made with do not change. -/
theorem reaches_sizes (run : (clientSystem ρ κ rbSize heap).Reaches s history) :
    s.client.rbSize = JacksRbClient.chosenRbSize rbSize ∧
      s.client.eventQueue.capacity = (JacksRbClient.chosenRbSize rbSize).toNat := by
  refine run.induct (I := fun s _ => s.client.rbSize = JacksRbClient.chosenRbSize rbSize ∧
    s.client.eventQueue.capacity = (JacksRbClient.chosenRbSize rbSize).toNat) ?_ ?_
  · simp [clientSystem]
  · rintro s history a s' o - ⟨size, capacity⟩ - moves
    cases RunningClient.step_of_next moves with
    | processEnqueued here room | sessionEnqueued here room | controlEnqueued here room =>
        exact ⟨size, by rw [← capacity]; exact (BoundedFifo.enqueue_eq_some_iff.mp room).2.1⟩
    | delivered here first =>
        exact ⟨size, by rw [← capacity]; exact (BoundedFifo.dequeue_eq_some_iff.mp first).2⟩
    | _ => exact ⟨size, capacity⟩

end Runs

/-- A script completes, and looks at the data of, events it was given. -/
def UsesItsHandles {ρ : Type u} {κ : Type v} (_ : RunningClient ρ κ) (history : List (Obs κ)) :
    Action κ → Prop
  | .complete ref => ∃ c o, .delivered c o ∈ history ∧ o.event = ref
  | .getData ref => ∃ c o, .delivered c o ∈ history ∧ o.event = ref
  | _ => True

end Jacks
