import Jacks.Client
import Jacks.Foundations.TraceSystem

/-!
# Registering ports and activating the client

What a script does before the audio runs: `JsClient.registerPort` and
`JsClient.activate`, through the holder (`process_audio`), the client (its port
table and `activated`) and JACK (whether its client is active, and whether it has
a process callback).  Every call JACK can refuse has its outcome in the action.

* `registrations_clean_iff` — a registration that fails is not noticed, so the
  table is free of `NULL` ports exactly in runs in which JACK registers them all.
* `activation_truthful_iff` — `activated` is set before JACK is asked, and not at
  all for a client without ports, so it tells the truth exactly in runs whose
  activations succeed as a whole and come after a first port.
-/

namespace Jacks

open Foundations JackRingbuffer

universe u

/-- A `jack_port_t`, by the number JACK knows it by. -/
abbrev JackPort := ℕ

/-- A `JacksRbPort` together with its `jport`, which is `NULL` or a port. -/
structure WrappedPort (ρ : Type u) where
  jport : Option JackPort
  rbPort : JacksRbPort ρ

/-- A `JsClient`, its `JacksRbClient`, and what JACK holds of it.  `nports` is
the length of the table. -/
structure JsClient (ρ : Type u) where
  ports : List (WrappedPort ρ)
  rbSize : UInt32
  activated : Bool
  processAudio : Bool
  /-- JACK runs the client. -/
  active : Bool
  /-- `_process_cb` is JACK's process callback of the client. -/
  processCallback : Bool

/-- A call of the script, with what JACK and `malloc` answer: `jack_port_register`
and the `malloc` of `JacksRbPort_new`; `jack_set_process_callback` and
`jack_activate`. -/
inductive JsAction
  | registerPort (jport : Option JackPort) (left : Option Malloced)
  | activate (callbackRc activateRc : ℤ)

/-- What a call returned. -/
inductive JsObs
  /-- A `JsPort` of the table, or `NULL`. -/
  | registered (port : Option ℕ)
  /-- `activate` had been called before. -/
  | alreadyActivated
  /-- What `jack_activate` returned, and `activate` with it. -/
  | activated (rc : ℤ)
  deriving DecidableEq

namespace JsClient

variable {ρ : Type u} [JackRingbuffer ρ]

/-- `nports`. -/
def nports (s : JsClient ρ) : ℕ := s.ports.length

/-- `JacksRbPort_new_port`, with what `jack_port_register` returns. -/
def newPort (jport : Option JackPort) (rbSize : UInt32) (left : Option Malloced) :
    Option (WrappedPort ρ) :=
  left.map fun left => ⟨jport, JacksRbPort.new rbSize left⟩

/-- `JacksRbClient_registerPort`.  There is no result if the assertion fails. -/
def clientRegisterPort (s : JsClient ρ) (jport : Option JackPort) (left : Option Malloced) :
    Option (JsClient ρ × ℕ) :=
  match newPort jport s.rbSize left with
  | none => none
  | some jp => some ({ s with ports := s.ports ++ [jp] }, s.nports)

/-- `JsClient.registerPort`, with the entry its `JsPort` leads to. -/
def registerPort (s : JsClient ρ) (jport : Option JackPort) (left : Option Malloced) :
    Option (JsClient ρ × ℕ) :=
  (s.clientRegisterPort jport left).map fun (s, port) => ({ s with processAudio := true }, port)

/-- `jack_set_process_callback`: on an active client it fails, whatever it would
have answered otherwise. -/
def setProcessCallback (s : JsClient ρ) (rc : ℤ) : JsClient ρ :=
  if s.active = false ∧ rc = 0 then { s with processCallback := true } else s

/-- `jack_activate`. -/
def jackActivate (s : JsClient ρ) (rc : ℤ) : JsClient ρ × ℤ :=
  (if rc = 0 then { s with active := true } else s, rc)

/-- `JacksRbClient_activate`. -/
def clientActivate (s : JsClient ρ) (processAudio : Bool) (callbackRc activateRc : ℤ) :
    JsClient ρ × JsObs :=
  if s.activated then (s, .alreadyActivated)
  else
    let s := if processAudio then { s.setProcessCallback callbackRc with activated := true } else s
    let result := s.jackActivate activateRc
    (result.1, .activated result.2)

/-- `JsClient.activate`. -/
def activate (s : JsClient ρ) (callbackRc activateRc : ℤ) : JsClient ρ × JsObs :=
  s.clientActivate s.processAudio callbackRc activateRc

/-- One call. -/
def next (s : JsClient ρ) : JsAction → Option (JsClient ρ × Option JsObs)
  | .registerPort jport left =>
      match s.registerPort jport left with
      | none => none
      | some (s, port) => some (s, some (.registered (some port)))
  | .activate callbackRc activateRc =>
      let result := s.activate callbackRc activateRc
      some (result.1, some result.2)

/-! ### What JACK's answers do -/

section Answers

variable (s : JsClient ρ) (rc : ℤ)

omit [JackRingbuffer ρ]

/-- Installing the callback changes nothing else. -/
theorem setProcessCallback_eq : s.setProcessCallback rc =
    { s with processCallback := s.processCallback || (!s.active && decide (rc = 0)) } := by
  obtain ⟨_, _, _, _, active, _⟩ := s
  by_cases success : rc = 0 <;> cases active <;> simp [setProcessCallback, success]

/-- Activating changes nothing else. -/
theorem jackActivate_eq :
    s.jackActivate rc = ({ s with active := s.active || decide (rc = 0) }, rc) := by
  by_cases success : rc = 0 <;> simp [jackActivate, success]

end Answers

/-- What a call can do. -/
inductive Step (s : JsClient ρ) : JsAction → JsClient ρ → JsObs → Prop
  | registered {jport left} :
      Step s (.registerPort jport (some left))
        { s with
          ports := s.ports ++ [⟨jport, JacksRbPort.new s.rbSize left⟩]
          processAudio := true }
        (.registered (some s.nports))
  | alreadyActivated {callbackRc activateRc} (before : s.activated = true) :
      Step s (.activate callbackRc activateRc) s .alreadyActivated
  | withAudio {callbackRc activateRc} (first : s.activated = false)
      (audio : s.processAudio = true) :
      Step s (.activate callbackRc activateRc)
        { s with
          activated := true
          active := s.active || decide (activateRc = 0)
          processCallback := s.processCallback || (!s.active && decide (callbackRc = 0)) }
        (.activated activateRc)
  | withoutAudio {callbackRc activateRc} (first : s.activated = false)
      (silent : s.processAudio = false) :
      Step s (.activate callbackRc activateRc)
        { s with active := s.active || decide (activateRc = 0) } (.activated activateRc)

/-- `next` does nothing else. -/
theorem step_of_next {s s' : JsClient ρ} {a : JsAction} {o : Option JsObs}
    (moves : s.next a = some (s', o)) : ∃ x, o = some x ∧ Step s a s' x := by
  cases a with
  | registerPort jport left =>
      cases left with
      | none => cases moves
      | some left => cases moves; exact ⟨_, rfl, .registered⟩
  | activate callbackRc activateRc =>
      simp only [next, activate, clientActivate, setProcessCallback_eq, jackActivate_eq] at moves
      by_cases before : s.activated = true
      · simp only [if_pos before] at moves
        cases moves
        exact ⟨_, rfl, .alreadyActivated before⟩
      · by_cases audio : s.processAudio = true
        · simp only [if_neg before, if_pos audio] at moves
          cases moves
          exact ⟨_, rfl, .withAudio (Bool.not_eq_true _ ▸ before) audio⟩
        · simp only [if_neg before, if_neg audio] at moves
          cases moves
          exact ⟨_, rfl, .withoutAudio (Bool.not_eq_true _ ▸ before) (Bool.not_eq_true _ ▸ audio)⟩

end JsClient

/-- A client as `JsClient` makes it. -/
def jsClientSystem (ρ : Type u) [JackRingbuffer ρ] (rbSize : UInt32) :
    TraceSystem (JsClient ρ) JsAction JsObs where
  init := ⟨[], JacksRbClient.chosenRbSize rbSize, false, false, false, false⟩
  next := JsClient.next

namespace JsClient

variable {ρ : Type u} [JackRingbuffer ρ] {rbSize : UInt32}

/-! ## Registration -/

/-- Registering does to the ports what it does to those of a client. -/
theorem Step.ports {s s' : JsClient ρ} {jport : Option JackPort} {left : Malloced} {x : JsObs}
    (moves : Step s (.registerPort jport (some left)) s' x) {c : JacksRbClient ρ}
    (size : c.rbSize = s.rbSize) (table : s.ports.map WrappedPort.rbPort = c.ports) :
    s'.ports.map WrappedPort.rbPort = (c.registerPort left).ports := by
  cases moves with
  | registered => simp [JacksRbClient.registerPort, table, size]

/-- No entry of the port table is a `NULL` port. -/
def PortsNonNull (s : JsClient ρ) : Prop :=
  ∀ p ∈ s.ports, p.jport ≠ none

/-- What a failed registration owes the script: a failure, and everything as it
was. -/
def RegistersCleanly (s : JsClient ρ) (a : JsAction) (o : Option JsObs) (s' : JsClient ρ) : Prop :=
  (∀ left, a = .registerPort none left →
    o = some (.registered none) ∧ s'.ports = s.ports ∧ s'.nports = s.nports ∧
      s'.processAudio = s.processAudio) ∧ s'.PortsNonNull

/-- JACK registers the port it is asked for. -/
def JackRegisters : JsAction → Prop
  | .registerPort jport _ => jport ≠ none
  | .activate _ _ => True

/-- **One step.**  A registration is clean exactly if JACK has not failed it. -/
theorem registersCleanly_iff {s s' : JsClient ρ} {a : JsAction} {x : JsObs}
    (nonNull : s.PortsNonNull) (moves : Step s a s' x) :
    s.RegistersCleanly a (some x) s' ↔ JackRegisters a := by
  unfold RegistersCleanly
  cases moves with
  | @registered jport left =>
      constructor
      · rintro ⟨-, after⟩
        exact after ⟨jport, _⟩ (List.mem_append_right _ (List.mem_singleton.mpr rfl))
      · intro registers
        refine ⟨fun _ fails => ?_, fun p mem => ?_⟩
        · obtain rfl : jport = none := by cases fails; rfl
          exact absurd rfl registers
        · rcases List.mem_append.mp mem with old | new
          · exact nonNull p old
          · rw [List.mem_singleton.mp new]
            exact registers
  | alreadyActivated _ | withAudio _ _ | withoutAudio _ _ =>
      exact iff_of_true ⟨by simp, nonNull⟩ trivial

/-- **Failed registrations.**  Along a run every failed registration is reported
and leaves the client as it was, and no entry of the table is a `NULL` port, if
and only if JACK registers every port it is asked for. -/
theorem registrations_clean_iff (actions : List JsAction) :
    (jsClientSystem ρ rbSize).Along (fun s _ a o s' => s.RegistersCleanly a o s')
        (jsClientSystem ρ rbSize).init [] actions ↔
      (jsClientSystem ρ rbSize).Along (fun _ _ a _ _ => JackRegisters a)
        (jsClientSystem ρ rbSize).init [] actions := by
  refine TraceSystem.along_congr (I := fun s _ => s.PortsNonNull) ?_ ?_ actions ?_
  · intro s history a s' o nonNull moves
    obtain ⟨x, rfl, step⟩ := step_of_next moves
    exact registersCleanly_iff nonNull step
  · intro s history a s' o _ _ clean
    exact clean.2
  · simp [PortsNonNull, jsClientSystem]

/-! ## Activation -/

/-- `activated` says whether some `jack_activate` has succeeded, and an active
client with ports has its process callback. -/
def Truthful (s : JsClient ρ) (history : List JsObs) : Prop :=
  (s.activated = true ↔ .activated 0 ∈ history) ∧
    (s.active = true → 0 < s.nports → s.processCallback = true)

/-- An activation of a client not activated yet fails if there are no ports, and
else succeeds with both calls. -/
def ActivatesAsAWhole (s : JsClient ρ) : JsAction → Prop
  | .registerPort _ _ => True
  | .activate callbackRc activateRc =>
      s.activated = false →
        (s.nports = 0 ∧ activateRc ≠ 0) ∨ (0 < s.nports ∧ callbackRc = 0 ∧ activateRc = 0)

/-- How the flags hang together in every run. -/
structure Consistent (s : JsClient ρ) (history : List JsObs) : Prop where
  active : s.active = true ↔ .activated 0 ∈ history
  audio : s.processAudio = true ↔ 0 < s.nports
  first : s.activated = true → 0 < s.nports
  callback : s.processCallback = true → s.activated = true

theorem Consistent.init : (jsClientSystem ρ rbSize).init.Consistent [] where
  active := by simp [jsClientSystem]
  audio := by simp [jsClientSystem, nports]
  first := by simp [jsClientSystem]
  callback := by simp [jsClientSystem]

/-- The observation of an activation that JACK answered. -/
theorem activated_mem_concat {history : List JsObs} {rc : ℤ} :
    .activated 0 ∈ history ++ [.activated rc] ↔ .activated 0 ∈ history ∨ rc = 0 := by
  simp [eq_comm]

theorem Consistent.step {s s' : JsClient ρ} {history : List JsObs} {a : JsAction} {x : JsObs}
    (consistent : s.Consistent history) (moves : Step s a s' x) :
    s'.Consistent (history ++ [x]) := by
  obtain ⟨active, audio, first, callback⟩ := consistent
  cases moves with
  | registered => exact ⟨by simpa using active, by simp [nports], by simp [nports], callback⟩
  | alreadyActivated before => exact ⟨by simpa using active, audio, first, callback⟩
  | withAudio fresh on =>
      refine ⟨?_, audio, fun _ => audio.mp on, fun _ => rfl⟩
      rw [activated_mem_concat, ← active]
      simp
  | withoutAudio fresh silent =>
      refine ⟨?_, audio, first, callback⟩
      rw [activated_mem_concat, ← active]
      simp

/-- **One step.**  Where the flags were truthful, they are so after the step
exactly if it activates the client as a whole. -/
theorem truthful_step {s s' : JsClient ρ} {history : List JsObs} {a : JsAction} {x : JsObs}
    (consistent : s.Consistent history) (truthful : s.Truthful history) (moves : Step s a s' x) :
    s'.Truthful (history ++ [x]) ↔ s.ActivatesAsAWhole a := by
  obtain ⟨active, audio, first, callback⟩ := consistent
  obtain ⟨told, installed⟩ := truthful
  cases moves with
  | @registered jport left =>
      refine iff_of_true ⟨by simpa using told, fun running _ => ?_⟩ trivial
      -- an active client has been activated, so it had a port and its callback before
      exact installed running (first (told.mpr (active.mp running)))
  | alreadyActivated before =>
      refine iff_of_true ⟨by simpa using told, installed⟩ fun fresh => ?_
      simp [before] at fresh
  | withAudio fresh on =>
      have idle : s.active = false := by
        rw [← Bool.not_eq_true, active, ← told, fresh]
        exact Bool.false_ne_true
      have bare : s.processCallback = false := by
        rw [← Bool.not_eq_true]
        exact fun has => by simp [callback has] at fresh
      have ports : 0 < s.nports := audio.mp on
      unfold Truthful ActivatesAsAWhole
      rw [activated_mem_concat, ← told]
      simp only [fresh, idle, bare, Bool.false_eq_true, false_or, Bool.false_or, Bool.not_false,
        Bool.true_and, decide_eq_true_eq, true_iff, forall_const]
      constructor
      · rintro ⟨done, set⟩
        exact Or.inr ⟨ports, set done ports, done⟩
      · rintro (⟨none, -⟩ | ⟨-, set, done⟩)
        · omega
        · exact ⟨done, fun _ _ => set⟩
  | withoutAudio fresh silent =>
      have none : s.nports = 0 := by
        have := mt audio.mpr (by simp [silent])
        omega
      unfold Truthful ActivatesAsAWhole
      rw [activated_mem_concat, ← told]
      simp only [fresh, none, Bool.false_eq_true, false_or, false_iff, true_and, forall_const,
        lt_irrefl, false_and, or_false]
      refine ⟨fun ⟨fails, _⟩ => fails, fun fails => ⟨fails, fun _ some => ?_⟩⟩
      exact absurd (show 0 < s.nports from some) (by omega)

/-- **Activation.**  Along a run `activated` tells whether a `jack_activate` has
succeeded, and no client with ports is active without its process callback, if
and only if every activation is a whole one. -/
theorem activation_truthful_iff (actions : List JsAction) :
    (jsClientSystem ρ rbSize).Along
        (fun _ history _ o s' => s'.Truthful (history ++ o.toList))
        (jsClientSystem ρ rbSize).init [] actions ↔
      (jsClientSystem ρ rbSize).Along (fun s _ a _ _ => s.ActivatesAsAWhole a)
        (jsClientSystem ρ rbSize).init [] actions := by
  refine TraceSystem.along_congr
    (I := fun s history => s.Consistent history ∧ s.Truthful history) ?_ ?_ actions ?_
  · rintro s history a s' o ⟨consistent, truthful⟩ moves
    obtain ⟨x, rfl, step⟩ := step_of_next moves
    exact truthful_step consistent truthful step
  · rintro s history a s' o ⟨consistent, -⟩ moves truthful
    obtain ⟨x, rfl, step⟩ := step_of_next moves
    exact ⟨consistent.step step, truthful⟩
  · exact ⟨Consistent.init, by simp [Truthful, jsClientSystem]⟩

end JsClient

/-! ## A run of each kind -/

/-- JACK fails a registration, and the script is handed a port nonetheless. -/
theorem failed_registration_unnoticed :
    ¬ (jsClientSystem (BoundedFifo Byte) 4).Along (fun s _ a o s' => s.RegistersCleanly a o s')
      (jsClientSystem (BoundedFifo Byte) 4).init [] [.registerPort none (some ⟨fun _ => 0, 0⟩)] :=
  fun clean => absurd (clean.1.1 _ rfl).1 (by decide)

/-- A client without ports is activated, and does not know it; its first port is
then never processed. -/
theorem activation_without_ports_forgotten :
    ¬ (jsClientSystem (BoundedFifo Byte) 4).Along
      (fun _ history _ o s' => s'.Truthful (history ++ o.toList))
      (jsClientSystem (BoundedFifo Byte) 4).init [] [.activate 0 0] :=
  fun truthful => absurd (truthful.1.1.mpr (by decide)) (by decide)

end Jacks
