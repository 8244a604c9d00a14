import Mathlib.Logic.Function.Basic
import Jacks.Client
import Jacks.Foundations.TraceSystem

/-!
# Growing the port table under the process callback

`JacksRbClient_registerPort` builds a port, stores it behind the last entry of
the table and only then counts it.  `_process_cb` may run at any point in
between; it reads the count anew before every port.  Nothing but the order of the
two stores keeps the callback away from an entry that is not there yet.

The table has room for `MAX_PORTS` ports, which no one compares the count with.
What a store behind the table does is undefined; the model lets it go through,
and `table_safe_iff` says nothing about a run beyond it.
-/

namespace Jacks

open Foundations

/-- `MAX_PORTS`. -/
def maxPorts : ℕ := 999

/-- Where a `malloc`ed `JacksRbPort` stands. -/
inductive PortMemory
  | raw
  | constructed
  deriving DecidableEq

/-- Where the registering thread is in `JacksRbClient_registerPort`, and with
which port. -/
inductive RegistrarPc
  | outside
  | allocated (jp : ℕ)
  | constructed (jp : ℕ)
  | stored (jp : ℕ)
  deriving DecidableEq

/-- Where the process thread is in `_process_cb`. -/
inductive LoopPc
  | idle
  /-- About to compare `i` with `nports`. -/
  | test (i : ℕ)
  /-- About to take port `i` from the table and write it. -/
  | body (i : ℕ)
  deriving DecidableEq

/-- The port table of a client, the memory of its ports by address, and the two
threads. -/
structure PortTable where
  ports : ℕ → Option ℕ
  nports : ℕ
  memory : ℕ → Option PortMemory
  registrar : RegistrarPc
  process : LoopPc

/-- The steps of the two threads. -/
inductive TableAction
  | allocate (jp : ℕ)
  | construct
  | store
  | increment
  | processCb
  | test
  /-- The body of the loop for one port; it returns early unless `rc` is 0. -/
  | body (rc : ℤ)

/-- What is observed of a step: the entry a port is stored in. -/
inductive TableObs
  | stored (i : ℕ)
  deriving DecidableEq

namespace PortTable

/-- One atomic step. -/
def next (s : PortTable) : TableAction → Option (PortTable × Option TableObs)
  | .allocate jp =>
      match s.registrar, s.memory jp with
      | .outside, none =>
          some ({ s with
            memory := Function.update s.memory jp (some .raw), registrar := .allocated jp }, none)
      | _, _ => none
  | .construct =>
      match s.registrar with
      | .allocated jp =>
          some ({ s with
            memory := Function.update s.memory jp (some .constructed)
            registrar := .constructed jp }, none)
      | _ => none
  | .store =>
      match s.registrar with
      | .constructed jp =>
          some ({ s with
            ports := Function.update s.ports s.nports (some jp), registrar := .stored jp },
            some (.stored s.nports))
      | _ => none
  | .increment =>
      match s.registrar with
      | .stored _ => some ({ s with nports := s.nports + 1, registrar := .outside }, none)
      | _ => none
  | .processCb =>
      match s.process with
      | .idle => some ({ s with process := .test 0 }, none)
      | _ => none
  | .test =>
      match s.process with
      | .test i => some ({ s with process := if i < s.nports then .body i else .idle }, none)
      | _ => none
  | .body rc =>
      match s.process with
      | .body i => some ({ s with process := if rc = 0 then .test (i + 1) else .idle }, none)
      | _ => none

/-- What a step can do. -/
inductive Step (s : PortTable) : TableAction → PortTable → Option TableObs → Prop
  | allocated {jp} (here : s.registrar = .outside) (unused : s.memory jp = none) :
      Step s (.allocate jp)
        { s with
          memory := Function.update s.memory jp (some .raw), registrar := .allocated jp } none
  | constructed {jp} (here : s.registrar = .allocated jp) :
      Step s .construct
        { s with
          memory := Function.update s.memory jp (some .constructed)
          registrar := .constructed jp } none
  | stored {jp} (here : s.registrar = .constructed jp) :
      Step s .store
        { s with
          ports := Function.update s.ports s.nports (some jp), registrar := .stored jp }
        (some (.stored s.nports))
  | incremented {jp} (here : s.registrar = .stored jp) :
      Step s .increment { s with nports := s.nports + 1, registrar := .outside } none
  | processCb (here : s.process = .idle) : Step s .processCb { s with process := .test 0 } none
  | found {i} (here : s.process = .test i) (registered : i < s.nports) :
      Step s .test { s with process := .body i } none
  | endOfPorts {i} (here : s.process = .test i) (last : ¬ i < s.nports) :
      Step s .test { s with process := .idle } none
  | worked {i} (here : s.process = .body i) :
      Step s (.body 0) { s with process := .test (i + 1) } none
  | gaveUp {i rc} (here : s.process = .body i) (failure : rc ≠ 0) :
      Step s (.body rc) { s with process := .idle } none

/-- `next` does nothing else. -/
theorem step_of_next {s s' : PortTable} {a : TableAction} {o : Option TableObs}
    (moves : s.next a = some (s', o)) : Step s a s' o := by
  cases a with
  | allocate jp =>
      simp only [next] at moves
      split at moves
      · next here unused => cases moves; exact .allocated here unused
      · cases moves
  | construct =>
      simp only [next] at moves
      split at moves
      · next here => cases moves; exact .constructed here
      · cases moves
  | store =>
      simp only [next] at moves
      split at moves
      · next here => cases moves; exact .stored here
      · cases moves
  | increment =>
      simp only [next] at moves
      split at moves
      · next here => cases moves; exact .incremented here
      · cases moves
  | processCb =>
      simp only [next] at moves
      split at moves
      · next here => cases moves; exact .processCb here
      · cases moves
  | test =>
      simp only [next] at moves
      split at moves
      · next i here =>
          by_cases registered : i < s.nports
          · rw [if_pos registered] at moves
            cases moves
            exact .found here registered
          · rw [if_neg registered] at moves
            cases moves
            exact .endOfPorts here registered
      · cases moves
  | body rc =>
      simp only [next] at moves
      split at moves
      · next i here =>
          by_cases success : rc = 0
          · subst success
            cases moves
            exact .worked here
          · rw [if_neg success] at moves
            cases moves
            exact .gaveUp here success
      · cases moves

/-! ## The table that is counted -/

/-- What the registering thread has done with its port. -/
def Ready (s : PortTable) : RegistrarPc → Prop
  | .outside => True
  | .allocated jp => s.memory jp = some .raw
  | .constructed jp => s.memory jp = some .constructed ∧ ∀ i < s.nports, s.ports i ≠ some jp
  | .stored jp => (s.memory jp = some .constructed ∧ ∀ i < s.nports, s.ports i ≠ some jp) ∧
      s.ports s.nports = some jp

/-- Every counted entry holds a constructed port of its own, and the callback is at
a counted entry. -/
structure Intact (s : PortTable) : Prop where
  entry : ∀ i < s.nports, ∃ jp, s.ports i = some jp ∧ s.memory jp = some .constructed
  distinct : ∀ i j, i < s.nports → j < s.nports → s.ports i = s.ports j → i = j
  ready : s.Ready s.registrar
  body : ∀ i, s.process = .body i → i < s.nports

/-- Memory that holds something else than a constructed port may change. -/
theorem Intact.update_memory {s : PortTable} (intact : s.Intact) {jp : ℕ}
    (other : s.memory jp ≠ some .constructed) (state : PortMemory) (pc : RegistrarPc)
    (ready : Ready { s with memory := Function.update s.memory jp (some state) } pc) :
    Intact { s with memory := Function.update s.memory jp (some state), registrar := pc } where
  entry i counted := by
    obtain ⟨jp', held, constructed⟩ := intact.entry i counted
    have apart : jp' ≠ jp := fun same => other (same ▸ constructed)
    exact ⟨jp', held, by simp [apart, constructed]⟩
  distinct := intact.distinct
  ready := by cases pc <;> exact ready
  body := intact.body

/-- The process thread changes nothing of the table. -/
theorem Intact.at_process {s : PortTable} (intact : s.Intact) (pc : LoopPc)
    (body : ∀ i, pc = .body i → i < s.nports) : Intact { s with process := pc } where
  entry := intact.entry
  distinct := intact.distinct
  ready := by cases pc <;> exact intact.ready
  body := body

/-- **One step.** -/
theorem Intact.step {s s' : PortTable} {a : TableAction} {o : Option TableObs}
    (intact : s.Intact) (moves : Step s a s' o) : s'.Intact := by
  have ready := intact.ready
  cases moves with
  | @allocated jp here unused =>
      exact intact.update_memory (by simp [unused]) .raw (.allocated jp) (by simp [Ready])
  | @constructed jp here =>
      rw [here] at ready
      have raw : s.memory jp = some .raw := ready
      refine intact.update_memory (by simp [raw]) .constructed (.constructed jp)
        ⟨by simp, fun i counted held => ?_⟩
      obtain ⟨jp', held', constructed⟩ := intact.entry i counted
      obtain rfl : jp' = jp := Option.some.inj (held'.symm.trans held)
      simp [raw] at constructed
  | @stored jp here =>
      rw [here] at ready
      -- the entry behind the last one is not counted yet
      have elsewhere : ∀ i < s.nports, i ≠ s.nports := fun i counted => counted.ne
      have same : ∀ i < s.nports, Function.update s.ports s.nports (some jp) i = s.ports i :=
        fun i counted => Function.update_of_ne (elsewhere i counted) _ _
      refine ⟨fun i counted => ?_, fun i j iCounted jCounted => ?_,
        ⟨⟨ready.1, fun i counted => ?_⟩, Function.update_self _ _ _⟩, intact.body⟩
      · simpa only [same i counted] using intact.entry i counted
      · simpa only [same i iCounted, same j jCounted] using
          intact.distinct i j iCounted jCounted
      · simpa only [same i counted] using ready.2 i counted
  | @incremented jp here =>
      rw [here] at ready
      obtain ⟨⟨constructed, new⟩, held⟩ := ready
      refine ⟨fun i counted => ?_, fun i j iCounted jCounted same => ?_, trivial,
        fun i at_body => (intact.body i at_body).trans (Nat.lt_succ_self _)⟩
      · rcases Nat.lt_succ_iff_lt_or_eq.mp counted with before | rfl
        · exact intact.entry i before
        · exact ⟨jp, held, constructed⟩
      · rcases Nat.lt_succ_iff_lt_or_eq.mp iCounted with iBefore | rfl <;>
          rcases Nat.lt_succ_iff_lt_or_eq.mp jCounted with jBefore | rfl
        · exact intact.distinct i j iBefore jBefore same
        · exact absurd (same.trans held) (new i iBefore)
        · exact absurd (same.symm.trans held) (new j jBefore)
        · rfl
  | processCb here => exact intact.at_process _ (by simp)
  | found here registered =>
      exact intact.at_process _ fun j at_body => by cases at_body; exact registered
  | endOfPorts here last | worked here | gaveUp here failure =>
      exact intact.at_process _ (by simp)

/-- The ports counted so far, as `_process_cb` would find them. -/
def published (s : PortTable) : List (Option ℕ) := (List.range s.nports).map s.ports

/-- **To the callback a registration is one step**: counting the port appends it to
the table, and nothing else changes what is counted. -/
theorem published_step {s s' : PortTable} {a : TableAction} {o : Option TableObs}
    (intact : s.Intact) (moves : Step s a s' o) :
    s'.published = s.published ∨
      ∃ jp, s.registrar = .stored jp ∧ s'.published = s.published ++ [some jp] := by
  have ready := intact.ready
  cases moves with
  | @stored jp here =>
      refine Or.inl (List.map_congr_left fun i counted => ?_)
      exact Function.update_of_ne (List.mem_range.mp counted).ne _ _
  | @incremented jp here =>
      rw [here] at ready
      refine Or.inr ⟨jp, here, ?_⟩
      rw [published, List.range_succ, List.map_append, List.map_singleton, ready.2, published]
  | _ => exact Or.inl rfl

end PortTable

/-- A client without ports. -/
def portTableSystem : TraceSystem PortTable TableAction TableObs where
  init := ⟨fun _ => none, 0, fun _ => none, .outside, .idle⟩
  next := PortTable.next

namespace PortTable

theorem Intact.init : portTableSystem.init.Intact where
  entry := by simp [portTableSystem]
  distinct := by simp [portTableSystem]
  ready := trivial
  body := by simp [portTableSystem]

/-! ## The bound of the table -/

/-- What is asked of a step: a store within the table, a count
within it, and a counted port of its own for the body of the loop. -/
structure TableSafe (s : PortTable) (a : TableAction) (s' : PortTable) : Prop where
  store : a = .store → s.nports < maxPorts
  count : s'.nports ≤ maxPorts
  body : ∀ rc i, a = .body rc → s.process = .body i → i < maxPorts ∧
    ∃ jp, s.ports i = some jp ∧ s.memory jp = some .constructed ∧
      ∀ j < s.nports, j ≠ i → s.ports j ≠ some jp

/-- A store meets room in the table. -/
def FindsRoom (s : PortTable) (a : TableAction) : Prop :=
  a = .store → s.nports < maxPorts

/-- The count and a port that is stored but not counted yet stay within the table. -/
def WithinBounds (s : PortTable) : Prop :=
  s.nports ≤ maxPorts ∧ ∀ jp, s.registrar = .stored jp → s.nports < maxPorts

/-- **One step.**  Within bounds it is safe exactly if a store finds room, and
keeps them if it is safe. -/
theorem tableSafe_iff {s s' : PortTable} {a : TableAction} {o : Option TableObs}
    (intact : s.Intact) (bounds : s.WithinBounds) (moves : Step s a s' o) :
    s.TableSafe a s' ↔ s.FindsRoom a := by
  refine ⟨TableSafe.store, fun room => ⟨room, ?_, ?_⟩⟩
  · cases moves with
    | @incremented jp here => exact bounds.2 jp here
    | _ => exact bounds.1
  · rintro rc i rfl here
    have counted := intact.body i here
    obtain ⟨jp, held, constructed⟩ := intact.entry i counted
    refine ⟨counted.trans_le bounds.1, jp, held, constructed, fun j jCounted other same => ?_⟩
    exact other (intact.distinct j i jCounted counted (same.trans held.symm))

theorem WithinBounds.step {s s' : PortTable} {a : TableAction} {o : Option TableObs}
    (bounds : s.WithinBounds) (room : s.FindsRoom a) (moves : Step s a s' o) :
    s'.WithinBounds := by
  cases moves with
  | stored here => exact ⟨bounds.1, fun _ _ => room rfl⟩
  | @incremented jp here => exact ⟨bounds.2 jp here, by simp⟩
  | allocated here unused => exact ⟨bounds.1, by simp⟩
  | constructed here => exact ⟨bounds.1, by simp⟩
  | _ => exact bounds

/-- How many registrations have stored their port. -/
def registrations (history : List TableObs) : ℕ := history.length

/-- A registration that has stored its port is counted, or about to be. -/
def Counted (s : PortTable) (history : List TableObs) : Prop :=
  registrations history = s.nports + match s.registrar with
    | .stored _ => 1
    | _ => 0

theorem Counted.step {s s' : PortTable} {history : List TableObs} {a : TableAction}
    {o : Option TableObs} (counted : s.Counted history) (moves : Step s a s' o) :
    s'.Counted (history ++ o.toList) := by
  unfold Counted registrations at counted ⊢
  cases moves with
  | allocated here _ | constructed here | stored here | incremented here =>
      simp only [here] at counted
      simp [counted]
  | _ => simpa using counted

/-- A store finds room exactly if the registrations, itself included, fit the table. -/
theorem registrations_le_iff {s s' : PortTable} {history : List TableObs} {a : TableAction}
    {o : Option TableObs} (counted : s.Counted history) (moves : Step s a s' o) :
    registrations (history ++ o.toList) ≤ maxPorts ↔
      registrations history ≤ maxPorts ∧ s.FindsRoom a := by
  unfold Counted at counted
  cases moves with
  | stored here =>
      simp only [here, add_zero] at counted
      simp only [registrations, FindsRoom, Option.toList_some, List.length_append,
        List.length_singleton, forall_const] at counted ⊢
      omega
  | _ => simp [registrations, FindsRoom]

/-- **The table is safe exactly for as many ports as it has entries.**  In every
interleaving of registrations with process callbacks each step is safe if and
only if no more than `MAX_PORTS` registrations store their port. -/
theorem table_safe_iff {actions : List TableAction} {s : PortTable} {history : List TableObs}
    (plays : portTableSystem.exec portTableSystem.init [] actions = some (s, history)) :
    portTableSystem.Along (fun s _ a _ s' => s.TableSafe a s') portTableSystem.init [] actions ↔
      registrations history ≤ maxPorts := by
  have room : portTableSystem.Along (fun s _ a _ s' => s.TableSafe a s') portTableSystem.init []
      actions ↔ portTableSystem.Along (fun s _ a _ _ => s.FindsRoom a) portTableSystem.init []
        actions := by
    refine TraceSystem.along_congr (I := fun s _ => s.Intact ∧ s.WithinBounds) ?_ ?_ actions
      ⟨Intact.init, by decide, by simp [portTableSystem]⟩
    · rintro s history a s' o ⟨intact, bounds⟩ moves
      exact tableSafe_iff intact bounds (step_of_next moves)
    · rintro s history a s' o ⟨intact, bounds⟩ moves safe
      have step := step_of_next moves
      exact ⟨intact.step step, bounds.step safe.store step⟩
  have fits := TraceSystem.history_iff_along (J := fun history => registrations history ≤ maxPorts)
    (Q := fun s _ a _ _ => s.FindsRoom a) (I := Counted)
    (fun s history a s' o counted moves => registrations_le_iff counted (step_of_next moves))
    (fun s history a s' o counted moves => counted.step (step_of_next moves))
    (show portTableSystem.init.Counted [] from rfl) plays
  rw [room, fits]
  exact (and_iff_right (Nat.zero_le _)).symm

end PortTable

/-! ## A run of each kind -/

/-- One registration, whose port is allocated at `jp`. -/
def registration (jp : ℕ) : List TableAction := [.allocate jp, .construct, .store, .increment]

/-- A callback that meets a first registration half-way. -/
theorem table_safe_iff_interleaved :
    portTableSystem.Along (fun s _ a _ s' => s.TableSafe a s') portTableSystem.init []
      [.allocate 5, .construct, .processCb, .store, .test, .increment, .processCb, .test,
        .body 0, .test] :=
  (PortTable.table_safe_iff rfl).mpr (by decide)

/-- Registrations one after the other. -/
def registrationRun (n : ℕ) : List TableAction := (List.range n).flatMap registration

/-- A registration that is not interrupted. -/
theorem exec_registration {s : PortTable} {jp : ℕ} (here : s.registrar = .outside)
    (unused : s.memory jp = none) (history : List TableObs) :
    portTableSystem.exec s history (registration jp) = some
      ({ s with
        ports := Function.update s.ports s.nports (some jp)
        nports := s.nports + 1
        memory := Function.update (Function.update s.memory jp (some .raw)) jp (some .constructed)
        registrar := .outside }, history ++ [.stored s.nports]) := by
  simp [registration, TraceSystem.exec, portTableSystem, PortTable.next, here, unused]

/-- Registrations one after the other fill the table from the front. -/
theorem exec_registrationRun (n : ℕ) : ∃ s history,
    portTableSystem.exec portTableSystem.init [] (registrationRun n) = some (s, history) ∧
      s.nports = n ∧ s.registrar = .outside ∧ ∀ jp, n ≤ jp → s.memory jp = none := by
  induction n with
  | zero => exact ⟨_, _, rfl, rfl, rfl, fun _ _ => rfl⟩
  | succ n ih =>
      obtain ⟨s, history, plays, count, here, unused⟩ := ih
      have split : registrationRun (n + 1) = registrationRun n ++ registration n := by
        simp [registrationRun, List.range_succ]
      rw [split, TraceSystem.exec_append plays, exec_registration here (unused n le_rfl)]
      refine ⟨_, _, rfl, by rw [count], rfl, fun jp above => ?_⟩
      have apart : jp ≠ n := by omega
      simp only [Function.update_of_ne apart]
      exact unused jp (by omega)

/-- The registration after the last one the table has room for stores its port
behind the table. -/
theorem table_overflows :
    ¬ portTableSystem.Along (fun s _ a _ s' => s.TableSafe a s') portTableSystem.init []
      (registrationRun maxPorts ++ [.allocate maxPorts, .construct, .store]) := by
  obtain ⟨s, history, plays, count, here, unused⟩ := exec_registrationRun maxPorts
  rw [TraceSystem.along_append plays]
  rintro ⟨-, safe⟩
  simp only [TraceSystem.Along, portTableSystem, PortTable.next, here, unused maxPorts le_rfl]
    at safe
  have room := safe.2.2.1.store rfl
  simp only [count, lt_irrefl] at room

end Jacks
