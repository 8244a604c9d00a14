import Mathlib.Logic.Function.Basic
import Jacks.Foundations.TraceSystem

/-!
# Latency listeners

JACK calls back one function with one argument for the whole client when
latencies change (the slot).  A port offers the script two ways to hear of it.
Its fd listeners, one for each mode, are socket pairs: `latency_listener_fd`
writes a byte into one end, and the script has been given the other.  The signal
listener raises a signal.

The first fd listener of a port puts `latency_listener_fd` with this port into
the slot, and the port remembers that it has done so; a signal listener always
takes the slot.  In an end that is 0, no pair is open.

`latencySystem` is a client with any number of ports under calls of the three
init functions, with every outcome of `socketpair` and of
`jack_set_latency_callback`.
-/

namespace Jacks

open Foundations

/-! ## Listeners of a port -/

/-- `JackLatencyCallbackMode`. -/
inductive LatencyMode
  | capture
  | playback
  deriving DecidableEq

/-- What a `JacksRbPort` knows of its latency listeners. -/
structure PortLatency where
  playbackLatCbFd : ℕ × ℕ
  captureLatCbFd : ℕ × ℕ
  latCbIsInit : Bool

namespace PortLatency

/-- As `JacksRbPort_new` sets it. -/
def new : PortLatency where
  playbackLatCbFd := (0, 0)
  captureLatCbFd := (0, 0)
  latCbIsInit := false

/-- The pair of a mode. -/
def fd (l : PortLatency) : LatencyMode → ℕ × ℕ
  | .capture => l.captureLatCbFd
  | .playback => l.playbackLatCbFd

/-- Store a pair. -/
def setFd (l : PortLatency) (mode : LatencyMode) (pair : ℕ × ℕ) : PortLatency :=
  match mode with
  | .capture => { l with captureLatCbFd := pair }
  | .playback => { l with playbackLatCbFd := pair }

/-- `latency_listener_fd`: the descriptor it writes a byte to. -/
def latencyListenerFd (l : PortLatency) (mode : LatencyMode) : Option ℕ :=
  if (l.fd mode).1 ≠ 0 then some (l.fd mode).1 else none

variable (l : PortLatency) (mode : LatencyMode) (pair : ℕ × ℕ)

@[simp] theorem fd_new : new.fd mode = (0, 0) := by
  cases mode <;> rfl

@[simp] theorem fd_setFd (mode' : LatencyMode) :
    (l.setFd mode pair).fd mode' = if mode' = mode then pair else l.fd mode' := by
  cases mode <;> cases mode' <;> rfl

@[simp] theorem latCbIsInit_setFd : (l.setFd mode pair).latCbIsInit = l.latCbIsInit := by
  cases mode <;> rfl

end PortLatency

/-! ## A client with its ports -/

/-- What `jack_set_latency_callback` is called with: a function, and the port it
gets as its argument. -/
inductive LatencyCallback
  /-- `latency_listener_fd`. -/
  | fd (p : ℕ)
  /-- `latency_listener`, which raises a signal. -/
  | signal (p : ℕ)
  deriving DecidableEq

/-- A client as far as latency is concerned: its ports, JACK's slot, and the
socket pairs opened so far. -/
structure ClientLatency where
  ports : ℕ → PortLatency
  slot : Option LatencyCallback
  sockets : List (ℕ × ℕ)

namespace ClientLatency

/-- The pair of a port and a mode. -/
def fd (c : ClientLatency) (p : ℕ) (mode : LatencyMode) : ℕ × ℕ := (c.ports p).fd mode

/-- A pair has been opened for a port. -/
def opened (c : ClientLatency) (p : ℕ) (mode : LatencyMode) (pair : ℕ × ℕ) : ClientLatency :=
  { c with
    ports := Function.update c.ports p ((c.ports p).setFd mode pair)
    sockets := c.sockets ++ [pair] }

/-- `latency_listener_fd` has been put into the slot. -/
def installed (c : ClientLatency) (p : ℕ) : ClientLatency :=
  { c with
    ports := Function.update c.ports p { c.ports p with latCbIsInit := true }
    slot := some (.fd p) }

/-- `register_lat_cb`, where `rc` is what `jack_set_latency_callback` returns. -/
def registerLatCb (c : ClientLatency) (p : ℕ) (rc : ℤ) : ClientLatency × ℤ :=
  if rc ≠ 0 then (c, rc) else (c.installed p, rc)

/-- The init function of a mode.  `sockets` is what `socketpair` delivers, if it
does not fail. -/
def initFdListener (mode : LatencyMode) (c : ClientLatency) (p : ℕ)
    (sockets : Option (ℕ × ℕ)) (rc : ℤ) : ClientLatency × ℤ :=
  if (c.fd p mode).2 ≠ 0 then (c, (c.fd p mode).2)
  else
    match sockets with
    | none => (c, -1)
    | some pair =>
        let c := c.opened p mode pair
        if (c.ports p).latCbIsInit then (c, (c.fd p mode).2)
        else
          let registered := c.registerLatCb p rc
          if registered.2 ≠ 0 then (registered.1, -1)
          else (registered.1, (registered.1.fd p mode).2)

/-- `JacksRbPort_init_capture_latency_listener`. -/
def initCaptureLatencyListener : ClientLatency → ℕ → Option (ℕ × ℕ) → ℤ → ClientLatency × ℤ :=
  initFdListener .capture

/-- `JacksRbPort_init_playback_latency_listener`. -/
def initPlaybackLatencyListener : ClientLatency → ℕ → Option (ℕ × ℕ) → ℤ → ClientLatency × ℤ :=
  initFdListener .playback

/-- The init function a script calls for a mode. -/
def initListener : LatencyMode → ClientLatency → ℕ → Option (ℕ × ℕ) → ℤ → ClientLatency × ℤ
  | .capture => initCaptureLatencyListener
  | .playback => initPlaybackLatencyListener

/-- `JacksRbPort_init_latency_listener`. -/
def initLatencyListener (c : ClientLatency) (p : ℕ) (rc : ℤ) : ClientLatency × ℤ :=
  if rc ≠ 0 then (c, -1) else ({ c with slot := some (.signal p) }, 0)

/-- JACK calls back in a mode: the descriptor a byte is written to. -/
def latencyCallback (c : ClientLatency) (mode : LatencyMode) : Option ℕ :=
  match c.slot with
  | some (.fd p) => (c.ports p).latencyListenerFd mode
  | some (.signal _) | none => none

/-- All ends opened so far. -/
def descriptors (c : ClientLatency) : List ℕ :=
  c.sockets.flatMap fun pair => [pair.1, pair.2]

end ClientLatency

/-- A call of one of the init functions, with the outcomes of what it calls. -/
inductive LatencyAction
  | initFd (mode : LatencyMode) (p : ℕ) (sockets : Option (ℕ × ℕ)) (rc : ℤ)
  | initSignal (p : ℕ) (rc : ℤ)

/-- What such a call returned. -/
inductive LatencyObs
  | returned (mode : LatencyMode) (p : ℕ) (d : ℕ)
  | failed (mode : LatencyMode) (p : ℕ)
  | signalSet (p : ℕ)
  | signalFailed (p : ℕ)
  deriving DecidableEq

namespace ClientLatency

/-- `socketpair` delivers two descriptors that are not in use: neither among those
the process had anyway nor among those it has opened since. -/
def Fresh (c : ClientLatency) (inUse : List ℕ) (pair : ℕ × ℕ) : Prop :=
  pair.1 ≠ pair.2 ∧ pair.1 ∉ inUse ++ c.descriptors ∧ pair.2 ∉ inUse ++ c.descriptors

instance decidableFresh (c : ClientLatency) (inUse : List ℕ) (pair : ℕ × ℕ) :
    Decidable (c.Fresh inUse pair) :=
  inferInstanceAs (Decidable (_ ∧ _ ∧ _))

/-- What a call is observed to return. -/
def outcome (mode : LatencyMode) (p : ℕ) : ℤ → LatencyObs
  | .ofNat d => .returned mode p d
  | .negSucc _ => .failed mode p

/-- One call. -/
def next (inUse : List ℕ) (c : ClientLatency) :
    LatencyAction → Option (ClientLatency × Option LatencyObs)
  | .initFd mode p sockets rc =>
      if ∀ pair ∈ sockets, c.Fresh inUse pair then
        let result := initListener mode c p sockets rc
        some (result.1, some (outcome mode p result.2))
      else none
  | .initSignal p rc =>
      let result := c.initLatencyListener p rc
      some (result.1, some (if result.2 = 0 then .signalSet p else .signalFailed p))

/-! ### What a call does -/

section Calls

variable (c : ClientLatency) (p : ℕ) (mode : LatencyMode) (pair : ℕ × ℕ)

@[simp] theorem fd_opened (p' : ℕ) (mode' : LatencyMode) :
    (c.opened p mode pair).fd p' mode' =
      if p' = p ∧ mode' = mode then pair else c.fd p' mode' := by
  unfold fd opened
  by_cases same : p' = p
  · subst same
    simp
  · simp [same]

@[simp] theorem sockets_opened : (c.opened p mode pair).sockets = c.sockets ++ [pair] := rfl

@[simp] theorem descriptors_opened :
    (c.opened p mode pair).descriptors = c.descriptors ++ [pair.1, pair.2] := by
  simp [descriptors]

@[simp] theorem slot_opened : (c.opened p mode pair).slot = c.slot := rfl

@[simp] theorem latCbIsInit_opened (p' : ℕ) :
    ((c.opened p mode pair).ports p').latCbIsInit = (c.ports p').latCbIsInit := by
  unfold opened
  by_cases same : p' = p
  · subst same
    simp
  · simp [same]

@[simp] theorem fd_installed (p' : ℕ) (mode' : LatencyMode) :
    (c.installed p).fd p' mode' = c.fd p' mode' := by
  unfold fd installed
  by_cases same : p' = p
  · subst same
    cases mode' <;> simp [PortLatency.fd]
  · simp [same]

@[simp] theorem sockets_installed : (c.installed p).sockets = c.sockets := rfl

@[simp] theorem slot_installed : (c.installed p).slot = some (.fd p) := rfl

@[simp] theorem latCbIsInit_installed (p' : ℕ) :
    ((c.installed p).ports p').latCbIsInit =
      if p' = p then true else (c.ports p').latCbIsInit := by
  unfold installed
  by_cases same : p' = p
  · subst same
    simp
  · simp [same]

theorem initListener_eq : initListener mode = initFdListener mode := by
  cases mode <;> rfl

/-- An init function whose pair is not open, and for which `socketpair` succeeds. -/
theorem initFdListener_some {c : ClientLatency} {p : ℕ} {mode : LatencyMode}
    (closed : (c.fd p mode).2 = 0) (rc : ℤ) :
    initFdListener mode c p (some pair) rc =
      if (c.ports p).latCbIsInit then (c.opened p mode pair, (pair.2 : ℤ))
      else if rc ≠ 0 then (c.opened p mode pair, -1)
      else ((c.opened p mode pair).installed p, (pair.2 : ℤ)) := by
  simp only [initFdListener, closed, ne_eq, not_true_eq_false, if_false, latCbIsInit_opened,
    registerLatCb, fd_opened, and_self, if_true]
  split
  · rfl
  · by_cases failure : rc = 0 <;> simp [failure]

/-- An init function whose pair is open. -/
theorem initFdListener_open {c : ClientLatency} {p : ℕ} {mode : LatencyMode}
    (isOpen : (c.fd p mode).2 ≠ 0) (sockets : Option (ℕ × ℕ)) (rc : ℤ) :
    initFdListener mode c p sockets rc = (c, ((c.fd p mode).2 : ℤ)) := by
  simp [initFdListener, isOpen]

/-- An init function whose pair is not open, and for which `socketpair` fails. -/
theorem initFdListener_none {c : ClientLatency} {p : ℕ} {mode : LatencyMode}
    (closed : (c.fd p mode).2 = 0) (rc : ℤ) : initFdListener mode c p none rc = (c, -1) := by
  simp [initFdListener, closed]

end Calls

/-- The effect of a call, whatever `socketpair` delivers. -/
inductive Effect (c : ClientLatency) : LatencyAction → ClientLatency → LatencyObs → Prop
  | alreadyInit {mode p sockets rc} (isOpen : (c.fd p mode).2 ≠ 0) :
      Effect c (.initFd mode p sockets rc) c (.returned mode p (c.fd p mode).2)
  | noSockets {mode p rc} (closed : (c.fd p mode).2 = 0) :
      Effect c (.initFd mode p none rc) c (.failed mode p)
  | opened {mode p pair rc} (closed : (c.fd p mode).2 = 0)
      (isInit : (c.ports p).latCbIsInit = true) :
      Effect c (.initFd mode p (some pair) rc) (c.opened p mode pair) (.returned mode p pair.2)
  | registered {mode p pair} (closed : (c.fd p mode).2 = 0)
      (isInit : (c.ports p).latCbIsInit = false) :
      Effect c (.initFd mode p (some pair) 0) ((c.opened p mode pair).installed p)
        (.returned mode p pair.2)
  | notRegistered {mode p pair rc} (closed : (c.fd p mode).2 = 0)
      (isInit : (c.ports p).latCbIsInit = false) (failure : rc ≠ 0) :
      Effect c (.initFd mode p (some pair) rc) (c.opened p mode pair) (.failed mode p)
  | signalSet {p} :
      Effect c (.initSignal p 0) { c with slot := some (.signal p) } (.signalSet p)
  | signalFailed {p rc} (failure : rc ≠ 0) :
      Effect c (.initSignal p rc) c (.signalFailed p)

/-- An init function has no other effect. -/
theorem effect_of_initListener (c : ClientLatency) (mode : LatencyMode) (p : ℕ)
    (sockets : Option (ℕ × ℕ)) (rc : ℤ) :
    Effect c (.initFd mode p sockets rc) (initListener mode c p sockets rc).1
      (outcome mode p (initListener mode c p sockets rc).2) := by
  rw [initListener_eq]
  by_cases closed : (c.fd p mode).2 = 0
  · cases sockets with
    | none =>
        rw [initFdListener_none closed]
        exact .noSockets closed
    | some pair =>
        rw [initFdListener_some pair closed]
        cases isInit : (c.ports p).latCbIsInit with
        | true => exact .opened closed isInit
        | false =>
            by_cases failure : rc = 0
            · subst failure
              exact .registered closed isInit
            · rw [if_neg Bool.false_ne_true, if_pos failure]
              exact .notRegistered closed isInit failure
  · rw [initFdListener_open closed]
    exact .alreadyInit closed

/-- Nor has that of the signal listener. -/
theorem effect_of_initLatencyListener (c : ClientLatency) (p : ℕ) (rc : ℤ) :
    Effect c (.initSignal p rc) (c.initLatencyListener p rc).1
      (if (c.initLatencyListener p rc).2 = 0 then .signalSet p else .signalFailed p) := by
  by_cases success : rc = 0
  · subst success
    exact .signalSet
  · rw [initLatencyListener, if_pos success]
    exact .signalFailed success

/-- What a call can do: it has one of the effects, and a pair that `socketpair` delivers
to it is fresh. -/
structure Step (inUse : List ℕ) (c : ClientLatency) (a : LatencyAction) (c' : ClientLatency)
    (x : LatencyObs) : Prop where
  effect : Effect c a c' x
  fresh : ∀ mode p pair rc, a = .initFd mode p (some pair) rc → c.Fresh inUse pair

/-- `next` does nothing else. -/
theorem step_of_next {inUse : List ℕ} {c c' : ClientLatency} {a : LatencyAction}
    {o : Option LatencyObs} (moves : c.next inUse a = some (c', o)) :
    ∃ x, o = some x ∧ Step inUse c a c' x := by
  cases a with
  | initSignal p rc =>
      simp only [next, Option.some.injEq, Prod.mk.injEq] at moves
      obtain ⟨rfl, rfl⟩ := moves
      exact ⟨_, rfl, effect_of_initLatencyListener c p rc, nofun⟩
  | initFd mode p sockets rc =>
      simp only [next] at moves
      split at moves
      · next fresh =>
          simp only [Option.some.injEq, Prod.mk.injEq] at moves
          obtain ⟨rfl, rfl⟩ := moves
          refine ⟨_, rfl, effect_of_initListener c mode p sockets rc, ?_⟩
          rintro mode' p' pair rc' same
          obtain ⟨-, -, rfl, -⟩ := LatencyAction.initFd.inj same
          exact fresh pair rfl
      · cases moves

end ClientLatency

/-- A client whose process has the descriptors `inUse` open when it starts. -/
def latencySystem (inUse : List ℕ) : TraceSystem ClientLatency LatencyAction LatencyObs where
  init := ⟨fun _ => PortLatency.new, none, []⟩
  next := ClientLatency.next inUse

end Jacks
