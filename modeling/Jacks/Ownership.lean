import Jacks.Streams
import Jacks.Foundations.Lifetime

/-!
# Who owns the events and the ports

The script holds a client's events and ports through `JsEvent` and `JsPort`
holders, and the destructor of a holder frees what it holds.  But every holder
`getEvent` returns is a new one around one of four events, which are the
client's: it goes on enqueueing them, and frees them itself in the end.  The
holder of a registered port shares its port with the client's table, where
`_process_cb` goes on writing to it.

`scriptSystem` is the running client together with its script's holders.  Its
runs are judged by the log of accesses they leave (`accesses`), to which the
destructor of the client adds what it frees.  What a freed object is used for
afterwards is undefined in C; the model leaves its contents as they were, and
nothing is said about a run beyond the first access to a freed object.
-/

namespace Jacks

open Foundations JackRingbuffer

universe u v

/-- What a client allocates: its events, and its ports by their index in the
table. -/
inductive Object
  | event (ref : EventRef)
  | port (i : ℕ)
  deriving DecidableEq

/-- A running client, and for every `JsEvent` and `JsPort` not destroyed yet the
object it holds. -/
structure ScriptedClient (ρ : Type u) (κ : Type v) where
  running : RunningClient ρ κ
  holders : List Object

/-- The client takes a step, or the script calls one of its own operations. -/
inductive ScriptAction (κ : Type v)
  | client (a : Action κ)
  | registerPort (left : Malloced)
  /-- `~JsEvent` or `~JsPort`, of a holder of this object. -/
  | destroy (x : Object)

/-- What is observed of a step. -/
inductive ScriptObs (κ : Type v)
  | client (o : Obs κ)
  | freed (x : Object)
  deriving DecidableEq

/-- The object whose holder a call of the script goes through. -/
def Action.through {κ : Type v} : Action κ → Option Object
  | .complete ref => some (.event ref)
  | .getData ref => some (.event ref)
  | .getBuffer i => some (.port i)
  | _ => none

namespace Obs

variable {κ : Type v}

/-- The object a step gives the script a new holder of. -/
def handsOut : Obs κ → Option Object
  | .delivered _ o => some (.event o.event)
  | _ => none

/-- The object that has to be live: an event a callback enqueues or `get_event`
returns, a port `_process_cb` writes to. -/
def uses : Obs κ → Option Object
  | .enqueued o => some (.event o.event)
  | .delivered _ o => some (.event o.event)
  | .wrote _ i _ _ _ => some (.port i)
  | _ => none

end Obs

/-- The access a step makes. -/
def ScriptObs.access {κ : Type v} : ScriptObs κ → Option (Access Object)
  | .client o => o.uses.map .use
  | .freed x => some (.free x)

/-- The accesses made, in this order. -/
def accesses {κ : Type v} (history : List (ScriptObs κ)) : List (Access Object) :=
  history.filterMap ScriptObs.access

/-- What `JacksRbClient_free` frees, in this order. -/
def clientFree : List (Access Object) :=
  [EventRef.process, .session, .sampleRate, .shutdown].map fun ref => .free (.event ref)

theorem accesses_append {κ : Type v} (history : List (ScriptObs κ)) (o : Option (ScriptObs κ)) :
    accesses (history ++ o.toList) = accesses history ++ (o.bind ScriptObs.access).toList :=
  filterMap_observed _ history o

/-- A step of the client makes the access its observation stands for. -/
theorem access_client {κ : Type v} (o : Option (Obs κ)) :
    (o.map ScriptObs.client).bind ScriptObs.access = (o.bind Obs.uses).map .use := by
  cases o <;> rfl

/-- The port a step of `_process_cb` is about to write. -/
def RunningClient.aboutToWrite {ρ : Type u} {κ : Type v} (s : RunningClient ρ κ) :
    Action κ → Option ℕ
  | .processStep =>
      match s.process.pc with
      | .loop _ i => if i < s.client.ports.length then some i else none
      | _ => none
  | _ => none

theorem RunningClient.lt_of_aboutToWrite {ρ : Type u} {κ : Type v} {s : RunningClient ρ κ}
    {a : Action κ} {i : ℕ} (about : s.aboutToWrite a = some i) : i < s.client.ports.length := by
  unfold aboutToWrite at about
  split at about
  · split at about
    · split at about
      · next inTable => cases about; exact inTable
      · cases about
    · cases about
  · cases about

/-- The port a step of the script or the client is about to write. -/
def ScriptAction.aboutToWrite {ρ : Type u} {κ : Type v} (s : RunningClient ρ κ) :
    ScriptAction κ → Option ℕ
  | .client a => s.aboutToWrite a
  | _ => none

/-- The event whose holder a step of the script destroys. -/
def ScriptAction.destroyedEvent {κ : Type v} : ScriptAction κ → Option EventRef
  | .destroy (.event ref) => some ref
  | _ => none

namespace ScriptedClient

variable {ρ : Type u} {κ : Type v} [DecidableEq κ] [JackRingbuffer ρ]

/-- One atomic step. -/
def next (s : ScriptedClient ρ κ) :
    ScriptAction κ → Option (ScriptedClient ρ κ × Option (ScriptObs κ))
  | .client a =>
      if ∀ x ∈ a.through, x ∈ s.holders then
        match s.running.next a with
        | none => none
        | some (running, o) =>
            some (⟨running, s.holders ++ (o.bind Obs.handsOut).toList⟩, o.map .client)
      else none
  | .registerPort left =>
      some (⟨{ s.running with client := s.running.client.registerPort left },
        s.holders ++ [.port s.running.client.ports.length]⟩, none)
  | .destroy x =>
      if x ∈ s.holders then some ({ s with holders := s.holders.erase x }, some (.freed x))
      else none

/-- What a step can do. -/
inductive Step (s : ScriptedClient ρ κ) :
    ScriptAction κ → ScriptedClient ρ κ → Option (ScriptObs κ) → Prop
  | client {a running o} (moved : RunningClient.Step s.running a running o) :
      Step s (.client a) ⟨running, s.holders ++ (o.bind Obs.handsOut).toList⟩ (o.map .client)
  | registered {left} :
      Step s (.registerPort left)
        ⟨{ s.running with client := s.running.client.registerPort left },
          s.holders ++ [.port s.running.client.ports.length]⟩ none
  | destroyed {x} (held : x ∈ s.holders) :
      Step s (.destroy x) { s with holders := s.holders.erase x } (some (.freed x))

/-- `next` does nothing else. -/
theorem step_of_next {s s' : ScriptedClient ρ κ} {a : ScriptAction κ} {o : Option (ScriptObs κ)}
    (moves : s.next a = some (s', o)) : Step s a s' o := by
  cases a with
  | client a =>
      simp only [next] at moves
      split at moves
      · split at moves
        · cases moves
        · next moved => cases moves; exact .client (RunningClient.step_of_next moved)
      · cases moves
  | registerPort left => cases moves; exact .registered
  | destroy x =>
      simp only [next] at moves
      split at moves
      · next held => cases moves; exact .destroyed held
      · cases moves

/-- The script destroys no `JsEvent`, and has not destroyed the `JsPort` of a port
when `_process_cb` is about to write it. -/
def OwnerActs (s : ScriptedClient ρ κ) (a : ScriptAction κ) : Prop :=
  a.destroyedEvent = none ∧ ∀ i ∈ a.aboutToWrite s.running, Object.port i ∈ s.holders

instance decidableOwnerActs (s : ScriptedClient ρ κ) (a : ScriptAction κ) :
    Decidable (s.OwnerActs a) :=
  inferInstanceAs (Decidable (_ ∧ ∀ i ∈ a.aboutToWrite s.running, Object.port i ∈ s.holders))

end ScriptedClient

section Runs

variable (ρ : Type u) (κ : Type v) [JackRingbuffer ρ] [DecidableEq κ]

/-- A client of the given `rb_size` as `JsClient` makes it, and its script. -/
def scriptSystem (rbSize : UInt32) :
    TraceSystem (ScriptedClient ρ κ) (ScriptAction κ) (ScriptObs κ) where
  init := ⟨(clientSystem ρ κ rbSize []).init, []⟩
  next := ScriptedClient.next

variable {ρ κ} {rbSize : UInt32}

/-! ## What a step accesses -/

/-- A step of the client accesses the port it was about to write, or at most an
event. -/
theorem RunningClient.Step.uses {s s' : RunningClient ρ κ} {a : Action κ} {o : Option (Obs κ)}
    (moves : RunningClient.Step s a s' o) :
    (∃ i, s.aboutToWrite a = some i ∧ o.bind Obs.uses = some (.port i)) ∨
      (s.aboutToWrite a = none ∧ ∀ x ∈ o.bind Obs.uses, ∃ ref, x = .event ref) := by
  cases moves with
  | @wrote call i p here port _ | @overran call i p here port _ =>
      have inTable : i < s.client.ports.length := (List.getElem?_eq_some_iff.mp port).1
      exact Or.inl ⟨i, by simp [aboutToWrite, here, inTable], rfl⟩
  | @endOfPorts call i here last =>
      have ended : ¬ i < s.client.ports.length := by simpa using last
      exact Or.inr ⟨by simp [aboutToWrite, here, ended], by simp⟩
  | processEnqueued here _ | processRefused here _ | processPosted here | processReturned here =>
      exact Or.inr ⟨by simp [aboutToWrite, here], by simp [Obs.uses]⟩
  | _ => exact Or.inr ⟨rfl, by simp [Obs.uses]⟩

namespace ScriptedClient

/-- **Where the ports are.**  Every registered port has either one holder, or has
been freed once. -/
def PortsAccounted (s : ScriptedClient ρ κ) (history : List (ScriptObs κ)) : Prop :=
  ∀ i, s.holders.count (.port i) + (accesses history).count (.free (.port i)) =
    if i < s.running.client.ports.length then 1 else 0

theorem PortsAccounted.step {s s' : ScriptedClient ρ κ} {history : List (ScriptObs κ)}
    {a : ScriptAction κ} {o : Option (ScriptObs κ)} (accounted : s.PortsAccounted history)
    (moves : Step s a s' o) : s'.PortsAccounted (history ++ o.toList) := by
  intro i
  have before := accounted i
  rw [accesses_append, List.count_append]
  cases moves with
  | @client a running o moved =>
      have table := moved.portStep.length_eq
      have noHolder : (o.bind Obs.handsOut).toList.count (.port i) = 0 := by
        cases o with
        | none => rfl
        | some x => cases x <;> simp [Obs.handsOut]
      have noFree : ((o.map ScriptObs.client).bind ScriptObs.access).toList.count
          (.free (.port i)) = 0 := by
        rw [access_client]
        cases o.bind Obs.uses <;> simp
      rw [List.count_append, noHolder, noFree, table]
      exact before
  | registered =>
      simp only [JacksRbClient.registerPort, List.count_append, List.count_singleton,
        List.length_append, List.length_singleton, Option.bind_none, Option.toList_none,
        List.count_nil, beq_iff_eq, Object.port.injEq]
      split_ifs at before ⊢ <;> omega
  | @destroyed x held =>
      -- a holder of the port is traded for its being freed
      have counted : 0 < s.holders.count x := List.count_pos_iff.mpr held
      simp only [Option.bind_some, ScriptObs.access, Option.toList_some, List.count_singleton,
        List.count_erase, beq_iff_eq, Access.free.injEq]
      by_cases same : x = .port i
      · subst same
        simp only [if_true]
        omega
      · simp only [same, if_false, Nat.sub_zero, Nat.add_zero]
        exact before

theorem PortsAccounted.init : (scriptSystem ρ κ rbSize).init.PortsAccounted [] := by
  intro i
  simp [scriptSystem, clientSystem, accesses]

omit [JackRingbuffer ρ] [DecidableEq κ] in
/-- A registered port has a holder exactly while it has not been freed. -/
theorem PortsAccounted.held_iff {s : ScriptedClient ρ κ} {history : List (ScriptObs κ)}
    (accounted : s.PortsAccounted history) {i : ℕ} (inTable : i < s.running.client.ports.length) :
    .port i ∈ s.holders ↔ .free (.port i) ∉ accesses history := by
  have count := accounted i
  rw [if_pos inTable] at count
  rw [← List.count_pos_iff, ← List.count_eq_zero]
  omega

/-- The accesses so far respect the lifetimes, and no event has been freed. -/
def Owned (history : List (ScriptObs κ)) : Prop :=
  LifetimesRespected (accesses history) ∧ ∀ ref, .free (.event ref) ∉ accesses history

/-- **One step.**  It keeps the objects owned exactly if the script acts as an owner. -/
theorem owned_step {s s' : ScriptedClient ρ κ} {history : List (ScriptObs κ)}
    {a : ScriptAction κ} {o : Option (ScriptObs κ)} (accounted : s.PortsAccounted history)
    (moves : Step s a s' o) :
    Owned (history ++ o.toList) ↔ Owned history ∧ s.OwnerActs a := by
  unfold Owned
  rw [accesses_append]
  cases moves with
  | @client a running o moved =>
      rw [access_client]
      rcases moved.uses with ⟨i, about, used⟩ | ⟨elsewhere, events⟩
      · -- a write: its port has a holder exactly while it is live
        have acts : s.OwnerActs (.client a) ↔ .port i ∈ s.holders := by
          simp [OwnerActs, ScriptAction.destroyedEvent, ScriptAction.aboutToWrite, about]
        rw [used, Option.map_some, Option.toList_some, LifetimesRespected.concat_iff, acts,
          accounted.held_iff (RunningClient.lt_of_aboutToWrite about)]
        simp only [Access.object_use, List.mem_append, List.mem_singleton, reduceCtorEq, or_false]
        exact and_right_comm
      · -- no write: what is used is an event
        have acts : s.OwnerActs (.client a) := by
          simp [OwnerActs, ScriptAction.destroyedEvent, ScriptAction.aboutToWrite, elsewhere]
        cases used : o.bind Obs.uses with
        | none => simp [acts]
        | some x =>
            obtain ⟨ref, rfl⟩ := events x used
            rw [Option.map_some, Option.toList_some, LifetimesRespected.concat_iff]
            simp only [Access.object_use, List.mem_append, List.mem_singleton, reduceCtorEq,
              or_false, acts, and_true]
            exact ⟨fun ⟨⟨respected, _⟩, live⟩ => ⟨respected, live⟩,
              fun ⟨respected, live⟩ => ⟨⟨respected, live ref⟩, live⟩⟩
  | registered => simp [OwnerActs, ScriptAction.destroyedEvent, ScriptAction.aboutToWrite]
  | @destroyed x held =>
      rw [Option.bind_some, ScriptObs.access, Option.toList_some, LifetimesRespected.concat_iff]
      cases x with
      | event ref =>
          simp only [OwnerActs, ScriptAction.destroyedEvent, reduceCtorEq, false_and, and_false,
            iff_false, not_and, not_forall, not_not]
          exact fun _ => ⟨ref, by simp⟩
      | port i =>
          have live : .free (.port i) ∉ accesses history := by
            have count := accounted i
            have counted : 0 < s.holders.count (.port i) := List.count_pos_iff.mpr held
            rw [← List.count_eq_zero]
            split at count <;> omega
          simp [OwnerActs, ScriptAction.destroyedEvent, ScriptAction.aboutToWrite, live]

theorem PortsAccounted.keep (s : ScriptedClient ρ κ) (history : List (ScriptObs κ))
    (a : ScriptAction κ) (s' : ScriptedClient ρ κ) (o : Option (ScriptObs κ))
    (accounted : s.PortsAccounted history)
    (moves : (scriptSystem ρ κ rbSize).next s a = some (s', o)) :
    s'.PortsAccounted (history ++ o.toList) :=
  accounted.step (step_of_next moves)

omit [JackRingbuffer ρ] [DecidableEq κ] in
/-- The client frees its events once more, so none may have been freed before. -/
theorem respected_clientFree_iff (history : List (ScriptObs κ)) :
    LifetimesRespected (accesses history ++ clientFree) ↔ Owned history := by
  have split : accesses history ++ clientFree = accesses history ++ [.free (.event .process)] ++
      [.free (.event .session)] ++ [.free (.event .sampleRate)] ++
      [.free (.event .shutdown)] := by
    simp [clientFree]
  rw [split]
  simp only [LifetimesRespected.concat_iff, Access.object_free, List.mem_append,
    List.mem_singleton, Access.free.injEq, Object.event.injEq, reduceCtorEq, or_false]
  constructor
  · rintro ⟨⟨⟨⟨respected, process⟩, session⟩, sampleRate⟩, shutdown⟩
    exact ⟨respected, fun ref => by cases ref <;> assumption⟩
  · rintro ⟨respected, live⟩
    exact ⟨⟨⟨⟨respected, live _⟩, live _⟩, live _⟩, live _⟩

/-! ## Runs, ended by the destructor of the client -/

/-- **Ownership is respected exactly by scripts that act as owners.**  A run,
ended by `~JsClient`, frees nothing twice and uses nothing freed if and only if
no `JsEvent` is destroyed in it, and every port `_process_cb` is about to write
still has its `JsPort`. -/
theorem lifetimes_respected_iff {actions : List (ScriptAction κ)} {s : ScriptedClient ρ κ}
    {history : List (ScriptObs κ)}
    (plays : (scriptSystem ρ κ rbSize).exec (scriptSystem ρ κ rbSize).init [] actions =
      some (s, history)) :
    LifetimesRespected (accesses history ++ clientFree) ↔
      (scriptSystem ρ κ rbSize).Along (fun s _ a _ _ => s.OwnerActs a)
        (scriptSystem ρ κ rbSize).init [] actions := by
  have fresh : Owned ([] : List (ScriptObs κ)) := by simp [Owned, accesses]
  have whole := TraceSystem.history_iff_along (J := Owned)
    (Q := fun s _ a _ _ => s.OwnerActs a)
    (fun s history a s' o accounted moves => owned_step accounted (step_of_next moves))
    PortsAccounted.keep PortsAccounted.init plays
  rw [respected_clientFree_iff, whole]
  exact and_iff_right fresh

end ScriptedClient

end Runs

/-! ## A run of each kind -/

/-- A script that destroys its `JsPort` when the cycle is over, and no `JsEvent`. -/
def ownerRun : List (ScriptAction Unit) :=
  [.registerPort ⟨fun _ => 0, 0⟩, .client (.processCb ⟨1, fun _ _ => 7⟩), .client .processStep,
    .client .processStep, .client .processStep, .client .processStep, .client .processStep,
    .client (.getEvent ()), .client (.dequeue ()), .destroy (.port 0)]

theorem lifetimes_respected_iff_ownerRun :
    ∃ s history,
      (scriptSystem (BoundedFifo Byte) Unit 2).exec (scriptSystem (BoundedFifo Byte) Unit 2).init []
        ownerRun = some (s, history) ∧ LifetimesRespected (accesses history ++ clientFree) :=
  ⟨_, _, rfl, (ScriptedClient.lifetimes_respected_iff
    (show (scriptSystem (BoundedFifo Byte) Unit 2).exec _ [] ownerRun = some _ from rfl)).mpr
      (by decide)⟩

/-- A script that destroys the `JsEvent` it was given. -/
def disposingRun : List (ScriptAction Unit) :=
  [.client (.controlCb .sampleRate), .client (.controlStep .sampleRate), .client (.getEvent ()),
    .client (.dequeue ()), .destroy (.event .sampleRate)]

/-- The sample-rate event is freed with its holder, and once more with the client. -/
theorem disposed_event_freed_twice :
    ∃ s history,
      (scriptSystem (BoundedFifo Byte) Unit 2).exec (scriptSystem (BoundedFifo Byte) Unit 2).init []
        disposingRun = some (s, history) ∧
      ¬ LifetimesRespected (accesses history ++ clientFree) :=
  ⟨_, _, rfl, fun respected =>
    absurd (respected.freedOnce (.event .sampleRate)) (by decide)⟩

end Jacks
