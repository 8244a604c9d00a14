import Jacks.LatencyListener

/-!
# What an init call promises

A call of one of the two fd inits has two steps that can fail, `socketpair` and
`jack_set_latency_callback`.  It stores what the first delivers before it tries the
second, and does not take it back: after a failure the pair is stored, and the next
call of the same mode returns its end as if nothing had happened.  And it stores
the pair whatever its ends are, although an end 0 is never written to.

`listenerSystem` are the init calls with every outcome of the two calls they make;
`socketpair` delivers any two different descriptors.  `initialises_iff` says exactly
which outcomes keep the promise: a failed call has changed nothing, and a
descriptor that is returned has a peer that `latency_listener_fd` writes to.
-/

namespace Jacks

open Foundations

/-- What is observed of a call: what it returned, and what JACK's slot holds then. -/
structure ListenerObs where
  result : LatencyObs
  slot : Option LatencyCallback

namespace ClientLatency

/-- One call.  `socketpair` delivers two different descriptors. -/
def call (c : ClientLatency) : LatencyAction → Option (ClientLatency × Option ListenerObs)
  | .initFd mode p sockets rc =>
      if ∀ pair ∈ sockets, pair.1 ≠ pair.2 then
        let result := initListener mode c p sockets rc
        some (result.1, some ⟨outcome mode p result.2, result.1.slot⟩)
      else none
  | .initSignal p rc =>
      let result := c.initLatencyListener p rc
      some (result.1, some ⟨if result.2 = 0 then .signalSet p else .signalFailed p, result.1.slot⟩)

/-- A call has one of the effects, and what it observes of the slot is the slot. -/
theorem effect_of_call {c c' : ClientLatency} {a : LatencyAction} {o : Option ListenerObs}
    (moves : c.call a = some (c', o)) :
    ∃ x, o = some ⟨x, c'.slot⟩ ∧ Effect c a c' x ∧
      ∀ mode p pair rc, a = .initFd mode p (some pair) rc → pair.1 ≠ pair.2 := by
  cases a with
  | initSignal p rc =>
      simp only [call, Option.some.injEq, Prod.mk.injEq] at moves
      obtain ⟨rfl, rfl⟩ := moves
      exact ⟨_, rfl, effect_of_initLatencyListener c p rc, nofun⟩
  | initFd mode p sockets rc =>
      simp only [call] at moves
      split at moves
      · next distinct =>
          simp only [Option.some.injEq, Prod.mk.injEq] at moves
          obtain ⟨rfl, rfl⟩ := moves
          refine ⟨_, rfl, effect_of_initListener c mode p sockets rc, ?_⟩
          rintro mode' p' pair rc' same
          obtain ⟨-, -, rfl, -⟩ := LatencyAction.initFd.inj same
          exact distinct pair rfl
      · cases moves

end ClientLatency

/-- A client whose ports have no listeners, under calls of the init functions. -/
def listenerSystem : TraceSystem ClientLatency LatencyAction ListenerObs where
  init := ⟨fun _ => PortLatency.new, none, []⟩
  next := ClientLatency.call

/-- JACK has had the fd callback of the port. -/
def Registered (p : ℕ) (history : List ListenerObs) : Prop :=
  ∃ x ∈ history, x.slot = some (.fd p)

theorem Registered.append {p : ℕ} {history : List ListenerObs} (registered : Registered p history)
    (more : List ListenerObs) : Registered p (history ++ more) := by
  obtain ⟨x, mem, held⟩ := registered
  exact ⟨x, List.mem_append_left _ mem, held⟩

namespace ClientLatency

/-- A descriptor works: it is an end of the open pair of its mode, the callback of its
port has been registered, and `latency_listener_fd` writes to the other end. -/
def Works (c : ClientLatency) (history : List ListenerObs) (mode : LatencyMode) (p d : ℕ) :
    Prop :=
  ∃ a, c.fd p mode = (a, d) ∧ (a, d) ∈ c.sockets ∧ Registered p history ∧
    (c.ports p).latencyListenerFd mode = some a

/-- What a call promises: if it failed its port is as before, and if it returned a
descriptor that works. -/
def Initialises (c : ClientLatency) (history : List ListenerObs) (_ : LatencyAction)
    (o : Option ListenerObs) (c' : ClientLatency) : Prop :=
  ∀ x ∈ o, (∀ mode p, x.result = .failed mode p → c'.ports p = c.ports p) ∧
    ∀ mode p d, x.result = .returned mode p d → c'.Works (history ++ [x]) mode p d

/-- A call that opens a pair gets one it can write to, and registers the callback
unless that has been done. -/
def OpensAsAWhole (c : ClientLatency) : LatencyAction → Prop
  | .initFd mode p (some pair) rc =>
      (c.fd p mode).2 = 0 → pair.1 ≠ 0 ∧ ((c.ports p).latCbIsInit = true ∨ rc = 0)
  | _ => True

/-- Every pair that is stored works. -/
structure Sound (c : ClientLatency) (history : List ListenerObs) : Prop where
  stored : ∀ p mode, c.fd p mode = (0, 0) ∨
    (c.fd p mode ∈ c.sockets ∧ (c.fd p mode).1 ≠ 0 ∧ (c.ports p).latCbIsInit = true)
  registered : ∀ p, (c.ports p).latCbIsInit = true → Registered p history

variable {c c' : ClientLatency} {history : List ListenerObs} {a : LatencyAction}
variable {x : LatencyObs} {slot : Option LatencyCallback} {mode : LatencyMode} {p d : ℕ}

/-! ## One call -/

theorem initialises_failed_iff :
    c.Initialises history a (some ⟨.failed mode p, slot⟩) c' ↔ c'.ports p = c.ports p := by
  simp only [Initialises, Option.mem_def, Option.some.injEq, forall_eq', LatencyObs.failed.injEq,
    reduceCtorEq, false_implies, implies_true, and_true]
  exact ⟨fun same => same mode p ⟨rfl, rfl⟩, fun same _ _ here => here.2 ▸ same⟩

theorem initialises_returned_iff :
    c.Initialises history a (some ⟨.returned mode p d, slot⟩) c' ↔
      c'.Works (history ++ [⟨.returned mode p d, slot⟩]) mode p d := by
  simp only [Initialises, Option.mem_def, Option.some.injEq, forall_eq',
    LatencyObs.returned.injEq, reduceCtorEq, false_implies, implies_true, true_and]
  refine ⟨fun works => works mode p d ⟨rfl, rfl, rfl⟩, ?_⟩
  rintro works _ _ _ ⟨rfl, rfl, rfl⟩
  exact works

/-- An open pair of a registered port works if there is a peer to write to. -/
theorem works_iff {pair : ℕ × ℕ} (stored : c.fd p mode = pair) (isOpen : pair ∈ c.sockets)
    (registered : Registered p history) : c.Works history mode p pair.2 ↔ pair.1 ≠ 0 := by
  have writes : (c.ports p).latencyListenerFd mode = if pair.1 ≠ 0 then some pair.1 else none := by
    rw [← stored]
    rfl
  constructor
  · rintro ⟨peer, same, -, -, written⟩ zero
    rw [writes, if_neg (by simpa using zero)] at written
    cases written
  · intro peer
    exact ⟨pair.1, stored, isOpen, registered, by rw [writes, if_pos peer]⟩

/-- What is returned a second time works. -/
theorem Sound.works (sound : c.Sound history) (isOpen : (c.fd p mode).2 ≠ 0)
    (more : List ListenerObs) : c.Works (history ++ more) mode p (c.fd p mode).2 := by
  rcases sound.stored p mode with none | ⟨mem, peer, isInit⟩
  · exact absurd (congrArg Prod.snd none) isOpen
  · exact (works_iff rfl mem ((sound.registered p isInit).append more)).mpr peer

/-- A port takes notice of a pair that is stored. -/
theorem eq_of_ports_opened {pair : ℕ × ℕ} (same : (c.opened p mode pair).ports p = c.ports p) :
    pair = c.fd p mode := by
  have stored := fd_opened c p mode pair p mode
  rw [fd, same, if_pos ⟨rfl, rfl⟩] at stored
  exact stored.symm

/-- **One call.**  Where every stored pair works, a call keeps its promise exactly if
it opens its pair as a whole. -/
theorem initialises_call_iff (sound : c.Sound history) (effect : Effect c a c' x)
    (distinct : ∀ mode p pair rc, a = .initFd mode p (some pair) rc → pair.1 ≠ pair.2) :
    c.Initialises history a (some ⟨x, c'.slot⟩) c' ↔ c.OpensAsAWhole a := by
  cases effect with
  | @alreadyInit mode p sockets rc isOpen =>
      rw [initialises_returned_iff]
      refine iff_of_true (sound.works isOpen _) ?_
      cases sockets with
      | none => trivial
      | some pair => exact fun closed => absurd closed isOpen
  | noSockets closed => exact iff_of_true (initialises_failed_iff.mpr rfl) trivial
  | @opened mode p pair rc closed isInit =>
      rw [initialises_returned_iff, works_iff (by simp) (by simp)
        ((sound.registered p isInit).append _)]
      exact ⟨fun peer _ => ⟨peer, Or.inl isInit⟩, fun whole => (whole closed).1⟩
  | @registered mode p pair closed isInit =>
      have registered : Registered p (history ++ [⟨.returned mode p pair.2,
          ((c.opened p mode pair).installed p).slot⟩]) :=
        ⟨_, List.mem_append_right _ (List.mem_singleton.mpr rfl), rfl⟩
      rw [initialises_returned_iff, works_iff (by simp) (by simp) registered]
      exact ⟨fun peer _ => ⟨peer, Or.inr rfl⟩, fun whole => (whole closed).1⟩
  | @notRegistered mode p pair rc closed isInit failure =>
      rw [initialises_failed_iff]
      refine iff_of_false (fun same => ?_) fun whole => ?_
      · -- the pair stored could only be the one there was, and that one works
        obtain rfl := eq_of_ports_opened same
        rcases sound.stored p mode with none | ⟨-, -, isInit'⟩
        · exact distinct _ _ _ _ rfl (by rw [none])
        · simp [isInit] at isInit'
      · rcases (whole closed).2 with isInit' | success
        · simp [isInit] at isInit'
        · exact failure success
  | signalSet | signalFailed => simp [Initialises, OpensAsAWhole]

/-- Calls that open their pairs as a whole leave every stored pair working. -/
theorem Sound.call (sound : c.Sound history) (effect : Effect c a c' x)
    (whole : c.OpensAsAWhole a) : c'.Sound (history ++ [⟨x, c'.slot⟩]) := by
  obtain ⟨stored, registered⟩ := sound
  have before : ∀ p, (c.ports p).latCbIsInit = true → Registered p (history ++ [⟨x, c'.slot⟩]) :=
    fun p isInit => (registered p isInit).append _
  cases effect with
  | alreadyInit | noSockets | signalSet | signalFailed => exact ⟨stored, before⟩
  | @opened mode p pair rc closed isInit =>
      refine ⟨fun p' mode' => ?_, fun p' isInit' => before p' (by simpa using isInit')⟩
      rw [fd_opened, latCbIsInit_opened, sockets_opened]
      split
      · next here => exact Or.inr ⟨by simp, (whole closed).1, by rw [here.1, isInit]⟩
      · exact (stored p' mode').imp_right fun ⟨mem, rest⟩ => ⟨List.mem_append_left _ mem, rest⟩
  | @registered mode p pair closed isInit =>
      refine ⟨fun p' mode' => ?_, fun p' isInit' => ?_⟩
      · rw [fd_installed, fd_opened, sockets_installed, sockets_opened, latCbIsInit_installed,
          latCbIsInit_opened]
        split
        · next here => exact Or.inr ⟨by simp, (whole closed).1, by simp [here.1]⟩
        · refine (stored p' mode').imp_right fun ⟨mem, peer, isInit'⟩ => ?_
          exact ⟨List.mem_append_left _ mem, peer, by simp [isInit']⟩
      · by_cases same : p' = p
        · subst same
          exact ⟨_, List.mem_append_right _ (List.mem_singleton.mpr rfl), rfl⟩
        · exact before p' (by simpa [same] using isInit')
  | notRegistered closed isInit failure =>
      rcases (whole closed).2 with isInit' | success
      · simp [isInit] at isInit'
      · exact absurd success failure

end ClientLatency

/-! ## All runs -/

open ClientLatency

/-- **An init call is atomic and can be tried again, if it never has to be.**  Along
any sequence of init calls, a call that fails leaves its port as it was and a call
that returns a descriptor returns one that works, if and only if every call that
opens a pair gets a first end other than 0 and, unless its port has been registered
before, registers it. -/
theorem initialises_iff (actions : List LatencyAction) :
    listenerSystem.Along Initialises listenerSystem.init [] actions ↔
      listenerSystem.Along (fun c _ a _ _ => c.OpensAsAWhole a) listenerSystem.init [] actions := by
  refine TraceSystem.along_congr (I := Sound) ?_ ?_ actions ?_
  · intro c history a c' o sound moves
    obtain ⟨x, rfl, effect, distinct⟩ := effect_of_call moves
    exact initialises_call_iff sound effect distinct
  · intro c history a c' o sound moves kept
    obtain ⟨x, rfl, effect, distinct⟩ := effect_of_call moves
    exact sound.call effect ((initialises_call_iff sound effect distinct).mp kept)
  · exact ⟨fun p mode => Or.inl (by simp [listenerSystem, fd]),
      by simp [listenerSystem, PortLatency.new]⟩

/-- JACK refuses the callback: the call fails, and the pair is stored all the same. -/
theorem failed_init_keeps_pair :
    ¬ listenerSystem.Along Initialises listenerSystem.init []
      [.initFd .capture 0 (some (3, 4)) 1] := by
  intro kept
  have same : (listenerSystem.init.opened 0 .capture (3, 4)).ports 0 =
      listenerSystem.init.ports 0 := (kept.1 _ rfl).1 .capture 0 rfl
  have pair : (3, 4) = (0, 0) := congrArg PortLatency.captureLatCbFd same
  exact absurd pair (by decide)

end Jacks
