import Mathlib.Data.List.Nodup
import Mathlib.Data.List.Pairwise
import Jacks.LatencyListener

/-!
# Who is notified of latency changes

Whether the other end of a listener's descriptor gets its byte when JACK calls
back is decided by the calls made so far.  The slot holds the listener of a port
exactly if its first fd listener was the last call to take the slot
(`InstalledLast`): later listeners of the same port do not renew it, and the
first listener of any other port, or any signal listener, takes it over.  The
pair of a mode is the one its descriptor was returned from (`PairsKnown`), unless
that descriptor is 0, which the next init takes for a pair that is not open.
-/

namespace Jacks

open Foundations

/-! ## Calls that succeed -/

/-- Whether a call returned a success. -/
def LatencyObs.succeeded : LatencyObs → Bool
  | .returned _ _ _ => true
  | .signalSet _ => true
  | .failed _ _ => false
  | .signalFailed _ => false

/-- Every call so far has succeeded. -/
def Succeeded (history : List LatencyObs) : Prop :=
  ∀ x ∈ history, x.succeeded = true

instance decidableSucceeded (history : List LatencyObs) : Decidable (Succeeded history) :=
  inferInstanceAs (Decidable (∀ x ∈ history, _))

/-- A mode of a port has been given a listener. -/
def InitedMode (mode : LatencyMode) (p : ℕ) (history : List LatencyObs) : Prop :=
  ∃ d, .returned mode p d ∈ history

/-- A port has been given a listener. -/
def Inited (p : ℕ) (history : List LatencyObs) : Prop :=
  ∃ mode, InitedMode mode p history

/-- No signal listener was set, and no other port given its first listener, after
the first listener of `p`. -/
def InstalledLast (p : ℕ) (history : List LatencyObs) : Prop :=
  ∃ before mode d after, history = before ++ .returned mode p d :: after ∧
    ¬ Inited p before ∧ (∀ q, .signalSet q ∉ after) ∧
    ∀ q, q ≠ p → Inited q after → Inited q before

section Histories

variable {history : List LatencyObs} {p q : ℕ} {mode mode' : LatencyMode} {d : ℕ}

@[simp] theorem not_inited_nil : ¬ Inited p [] := by
  simp [Inited, InitedMode]

theorem initedMode_append {before after : List LatencyObs} :
    InitedMode mode p (before ++ after) ↔ InitedMode mode p before ∨ InitedMode mode p after := by
  simp [InitedMode, exists_or]

theorem inited_append {before after : List LatencyObs} :
    Inited p (before ++ after) ↔ Inited p before ∨ Inited p after := by
  simp [Inited, initedMode_append, exists_or]

@[simp] theorem initedMode_returned :
    InitedMode mode' q [.returned mode p d] ↔ mode' = mode ∧ q = p := by
  simp [InitedMode]

@[simp] theorem inited_returned : Inited q [.returned mode p d] ↔ q = p := by
  simp [Inited]

@[simp] theorem not_inited_signalSet : ¬ Inited q [.signalSet p] := by
  simp [Inited, InitedMode]

@[simp] theorem not_initedMode_signalSet : ¬ InitedMode mode q [.signalSet p] := by
  simp [InitedMode]

@[simp] theorem not_installedLast_nil : ¬ InstalledLast p [] := by
  rintro ⟨before, mode, d, after, split, -⟩
  simp at split

/-- A listener of a port that has one already changes nothing. -/
theorem installedLast_concat_known (known : Inited q history) :
    InstalledLast p (history ++ [.returned mode q d]) ↔ InstalledLast p history := by
  constructor
  · rintro ⟨before, mode', d', after, split, first, noSignal, others⟩
    rcases concat_split split with ⟨rfl, same, -⟩ | ⟨front, shorter, rfl⟩
    · obtain ⟨-, rfl, -⟩ : mode = mode' ∧ q = p ∧ d = d' := by simpa using same
      exact absurd known first
    · refine ⟨before, mode', d', front, shorter, first, ?_, ?_⟩
      · exact fun r set => noSignal r (List.mem_append_left _ set)
      · exact fun r other inited => others r other (inited_append.mpr (Or.inl inited))
  · rintro ⟨before, mode', d', after, rfl, first, noSignal, others⟩
    refine ⟨before, mode', d', after ++ [.returned mode q d], by simp, first, ?_, ?_⟩
    · intro r
      simpa using noSignal r
    · intro r other inited
      rcases inited_append.mp inited with earlier | now
      · exact others r other earlier
      · obtain rfl := inited_returned.mp now
        rw [← List.singleton_append, inited_append, inited_append] at known
        rcases known with before | itself | after
        · exact before
        · exact absurd (inited_returned.mp itself) other
        · exact others r other after

/-- The first listener of a port takes the slot. -/
theorem installedLast_concat_new (new : ¬ Inited q history) :
    InstalledLast p (history ++ [.returned mode q d]) ↔ p = q := by
  constructor
  · rintro ⟨before, mode', d', after, split, -, -, others⟩
    rcases concat_split split with ⟨-, same, -⟩ | ⟨front, rfl, rfl⟩
    · obtain ⟨-, rfl, -⟩ : mode = mode' ∧ q = p ∧ d = d' := by simpa using same
      rfl
    · by_contra other
      refine new (inited_append.mpr (Or.inl (others q (Ne.symm other) ?_)))
      exact inited_append.mpr (Or.inr (inited_returned.mpr rfl))
  · rintro rfl
    exact ⟨history, mode, d, [], rfl, new, by simp, by simp⟩

/-- So does a signal listener. -/
theorem not_installedLast_signalSet : ¬ InstalledLast p (history ++ [.signalSet q]) := by
  rintro ⟨before, mode, d, after, split, -, noSignal, -⟩
  rcases concat_split split with ⟨-, same, -⟩ | ⟨front, -, rfl⟩
  · cases same
  · exact noSignal q (by simp)

end Histories

/-! ## The socket pairs -/

namespace ClientLatency

/-- What the socket pairs are, after calls that all succeeded. -/
structure PairsKnown (c : ClientLatency) (history : List LatencyObs) : Prop where
  /-- No two ends have the same number. -/
  numbers : c.descriptors.Nodup
  /-- A port and a mode have an open pair, or none. -/
  stored : ∀ p mode, c.fd p mode ∈ c.sockets ∨ c.fd p mode = (0, 0)
  /-- A descriptor that was returned is an end of a pair. -/
  returned : ∀ mode p d, .returned mode p d ∈ history →
    c.fd p mode ∈ c.sockets ∧ ∃ a, (a, d) ∈ c.sockets
  /-- The script has been given the other end of every pair. -/
  known : ∀ p mode, c.fd p mode ∈ c.sockets → .returned mode p (c.fd p mode).2 ∈ history
  /-- No two listeners share a pair. -/
  owner : ∀ mode p d p' mode', .returned mode p d ∈ history → c.fd p' mode' ∈ c.sockets →
    (c.fd p' mode').2 = d → p' = p ∧ mode' = mode
  /-- A returned descriptor is the current one unless it is 0 and its mode was
  given another one since. -/
  current : ∀ before mode p d after, history = before ++ .returned mode p d :: after →
    ((c.fd p mode).2 = d ↔ d ≠ 0 ∨ ¬ InitedMode mode p after)

variable {c : ClientLatency} {history : List LatencyObs}

/-- Both ends of a pair are among the descriptors. -/
theorem mem_descriptors {pair : ℕ × ℕ} (mem : pair ∈ c.sockets) :
    pair.1 ∈ c.descriptors ∧ pair.2 ∈ c.descriptors :=
  ⟨List.mem_flatMap.mpr ⟨pair, mem, by simp⟩, List.mem_flatMap.mpr ⟨pair, mem, by simp⟩⟩

/-- Two pairs that share an end are one. -/
theorem eq_of_shared {pair pair' : ℕ × ℕ} (numbers : c.descriptors.Nodup)
    (mem : pair ∈ c.sockets) (mem' : pair' ∈ c.sockets)
    (shared : pair.1 = pair'.1 ∨ pair.2 = pair'.2) : pair = pair' := by
  by_contra different
  have symm : Std.Symm (Function.onFun List.Disjoint fun pair : ℕ × ℕ => [pair.1, pair.2]) :=
    ⟨fun _ _ apart => List.disjoint_symm apart⟩
  have disjoint : List.Disjoint [pair.1, pair.2] [pair'.1, pair'.2] :=
    (List.nodup_flatMap.mp numbers).2.forall mem mem' different
  rcases shared with same | same
  · exact disjoint (a := pair.1) (by simp) (by simp [same])
  · exact disjoint (a := pair.2) (by simp) (by simp [same])

/-- A call that changes no pair, observed as something no descriptor is in. -/
theorem PairsKnown.signal {c' : ClientLatency} (pairs : c.PairsKnown history)
    (fd : c'.fd = c.fd) (sockets : c'.sockets = c.sockets) (p : ℕ) :
    c'.PairsKnown (history ++ [.signalSet p]) where
  numbers := by rw [descriptors, sockets]; exact pairs.numbers
  stored := by rw [fd, sockets]; exact pairs.stored
  returned mode p d mem := by
    rw [fd, sockets]
    exact pairs.returned mode p d (by simpa using mem)
  known p mode mem := by
    rw [fd, sockets] at mem
    rw [fd]
    exact List.mem_append_left _ (pairs.known p mode mem)
  owner mode p d p' mode' mem := by
    rw [fd, sockets]
    exact pairs.owner mode p d p' mode' (by simpa using mem)
  current before mode p d after split := by
    rcases concat_split split with ⟨-, same, -⟩ | ⟨front, earlier, rfl⟩
    · cases same
    · rw [fd, pairs.current before mode p d front earlier, initedMode_append]
      simp

/-- An init of a mode whose pair is open returns the descriptor again. -/
theorem PairsKnown.alreadyInit (pairs : c.PairsKnown history) {p : ℕ} {mode : LatencyMode}
    (isOpen : (c.fd p mode).2 ≠ 0) :
    c.PairsKnown (history ++ [.returned mode p (c.fd p mode).2]) := by
  have mem : c.fd p mode ∈ c.sockets :=
    (pairs.stored p mode).resolve_right fun none => isOpen (congrArg Prod.snd none)
  have again : .returned mode p (c.fd p mode).2 ∈ history := pairs.known p mode mem
  have old : ∀ mode' p' d, .returned mode' p' d ∈ history ++ [.returned mode p (c.fd p mode).2] →
      LatencyObs.returned mode' p' d ∈ history := by
    intro mode' p' d now
    rcases List.mem_append.mp now with earlier | last
    · exact earlier
    · obtain ⟨rfl, rfl, rfl⟩ : mode' = mode ∧ p' = p ∧ d = (c.fd p mode).2 := by simpa using last
      exact again
  exact {
    numbers := pairs.numbers
    stored := pairs.stored
    returned := fun mode' p' d now => pairs.returned mode' p' d (old mode' p' d now)
    known := fun p' mode' mem => List.mem_append_left _ (pairs.known p' mode' mem)
    owner := fun mode' p' d q n now => pairs.owner mode' p' d q n (old mode' p' d now)
    current := by
      intro before mode' p' d after split
      rcases concat_split split with ⟨-, same, rfl⟩ | ⟨front, earlier, rfl⟩
      · obtain ⟨rfl, rfl, rfl⟩ : mode = mode' ∧ p = p' ∧ (c.fd p mode).2 = d := by simpa using same
        simp [InitedMode]
      · rw [pairs.current before mode' p' d front earlier, initedMode_append, initedMode_returned]
        by_cases here : mode' = mode ∧ p' = p
        · obtain ⟨rfl, rfl⟩ := here
          -- the pair is open, so a descriptor 0 returned before is not its own
          have now := pairs.current before mode' p' d front earlier
          constructor
          · rintro (nonzero | unrenewed)
            · exact Or.inl nonzero
            · exact Or.inl (now.mpr (Or.inr unrenewed) ▸ isOpen)
          · rintro (nonzero | unrenewed)
            · exact Or.inl nonzero
            · exact absurd (Or.inr ⟨rfl, rfl⟩) unrenewed
        · simp [here] }

/-- No listener has a pair with a fresh end. -/
theorem PairsKnown.ne_fresh (pairs : c.PairsKnown history) {inUse : List ℕ} {pair : ℕ × ℕ}
    (fresh : c.Fresh inUse pair) (p : ℕ) (mode : LatencyMode) : c.fd p mode ≠ pair := by
  rintro rfl
  rcases pairs.stored p mode with mem | none
  · exact fresh.2.1 (List.mem_append_right _ (mem_descriptors mem).1)
  · exact fresh.1 (by rw [none])

/-- No descriptor returned is a fresh end. -/
theorem PairsKnown.returned_ne_fresh (pairs : c.PairsKnown history) {inUse : List ℕ}
    {pair : ℕ × ℕ} (fresh : c.Fresh inUse pair) {mode : LatencyMode} {p d : ℕ}
    (mem : .returned mode p d ∈ history) : d ≠ pair.2 := by
  rintro rfl
  obtain ⟨-, a, opened⟩ := pairs.returned mode p _ mem
  exact fresh.2.2 (List.mem_append_right _ (mem_descriptors opened).2)

/-- A fresh pair is numbered apart from the others. -/
theorem nodup_opened {inUse : List ℕ} {p : ℕ} {mode : LatencyMode} {pair : ℕ × ℕ}
    (numbers : c.descriptors.Nodup) (fresh : c.Fresh inUse pair) :
    (c.opened p mode pair).descriptors.Nodup := by
  rw [descriptors_opened, List.nodup_append]
  refine ⟨numbers, by simpa using fresh.1, ?_⟩
  rintro a mem b new rfl
  rcases List.mem_pair.mp new with rfl | rfl
  · exact fresh.2.1 (List.mem_append_right _ mem)
  · exact fresh.2.2 (List.mem_append_right _ mem)

/-- Opening a fresh pair opens that of its own listener and of no other. -/
theorem PairsKnown.fd_mem_opened_iff (pairs : c.PairsKnown history) {inUse : List ℕ}
    {p p' : ℕ} {mode mode' : LatencyMode} {pair : ℕ × ℕ} (fresh : c.Fresh inUse pair) :
    (c.opened p mode pair).fd p' mode' ∈ (c.opened p mode pair).sockets ↔
      (p' = p ∧ mode' = mode) ∨ c.fd p' mode' ∈ c.sockets := by
  rw [fd_opened, sockets_opened]
  by_cases here : p' = p ∧ mode' = mode
  · simp [here]
  · simp [here, pairs.ne_fresh fresh]

/-- The only descriptor returned for a listener whose pair is closed is 0. -/
theorem PairsKnown.eq_zero_of_closed (pairs : c.PairsKnown history) {p d : ℕ}
    {mode : LatencyMode} {before after : List LatencyObs}
    (split : history = before ++ .returned mode p d :: after) (closed : (c.fd p mode).2 = 0) :
    d = 0 := by
  by_contra nonzero
  have now := (pairs.current before mode p d after split).mpr (Or.inl nonzero)
  exact nonzero (now.symm.trans closed)

/-- An init of a mode whose pair is not open returns an end of a new one. -/
theorem PairsKnown.opened {c' : ClientLatency} (pairs : c.PairsKnown history) {inUse : List ℕ}
    {p : ℕ} {mode : LatencyMode} {pair : ℕ × ℕ} (closed : (c.fd p mode).2 = 0)
    (fresh : c.Fresh inUse pair) (fd : c'.fd = (c.opened p mode pair).fd)
    (sockets : c'.sockets = (c.opened p mode pair).sockets) :
    c'.PairsKnown (history ++ [.returned mode p pair.2]) where
  numbers := by
    rw [descriptors, sockets]
    exact nodup_opened pairs.numbers fresh
  stored p' mode' := by
    rw [fd, sockets, pairs.fd_mem_opened_iff fresh, fd_opened]
    by_cases here : p' = p ∧ mode' = mode
    · exact Or.inl (Or.inl here)
    · rw [if_neg here]
      exact (pairs.stored p' mode').imp_left Or.inr
  returned mode' p' d mem := by
    rw [fd, sockets, pairs.fd_mem_opened_iff fresh, sockets_opened]
    rcases List.mem_append.mp mem with old | new
    · obtain ⟨isOpen, a, opened⟩ := pairs.returned mode' p' d old
      exact ⟨Or.inr isOpen, a, List.mem_append_left _ opened⟩
    · obtain ⟨rfl, rfl, rfl⟩ : mode' = mode ∧ p' = p ∧ d = pair.2 := by simpa using new
      exact ⟨Or.inl ⟨rfl, rfl⟩, pair.1, by simp⟩
  known p' mode' mem := by
    rw [fd, sockets, pairs.fd_mem_opened_iff fresh] at mem
    rw [fd, fd_opened]
    split
    · next here => simp [here]
    · next elsewhere =>
        exact List.mem_append_left _ (pairs.known p' mode' (mem.resolve_left elsewhere))
  owner mode₁ p₁ d p' mode' mem isOpen same := by
    rw [fd, sockets, pairs.fd_mem_opened_iff fresh] at isOpen
    rw [fd, fd_opened] at same
    rcases List.mem_append.mp mem with old | new
    · split at same
      · exact absurd same.symm (pairs.returned_ne_fresh fresh old)
      · next elsewhere =>
          exact pairs.owner mode₁ p₁ d p' mode' old (isOpen.resolve_left elsewhere) same
    · obtain ⟨rfl, rfl, rfl⟩ : mode₁ = mode ∧ p₁ = p ∧ d = pair.2 := by simpa using new
      by_contra elsewhere
      have before := mem_descriptors (isOpen.resolve_left elsewhere)
      rw [if_neg elsewhere] at same
      exact fresh.2.2 (List.mem_append_right _ (same ▸ before.2))
  current before mode' p' d after split := by
    rw [fd, fd_opened]
    rcases concat_split split with ⟨-, same, rfl⟩ | ⟨front, earlier, rfl⟩
    · obtain ⟨rfl, rfl, rfl⟩ : mode = mode' ∧ p = p' ∧ pair.2 = d := by simpa using same
      simp [InitedMode]
    · rw [initedMode_append, initedMode_returned]
      by_cases here : p' = p ∧ mode' = mode
      · obtain ⟨rfl, rfl⟩ := here
        obtain rfl := pairs.eq_zero_of_closed earlier closed
        have old : LatencyObs.returned mode' p' 0 ∈ history := by simp [earlier]
        simpa using (pairs.returned_ne_fresh fresh old).symm
      · rw [if_neg here, pairs.current before mode' p' d front earlier]
        simp [and_comm, here]

end ClientLatency

/-! ## Runs -/

section Runs

open ClientLatency

variable {inUse : List ℕ} {c : ClientLatency} {history : List LatencyObs}

theorem succeeded_append {x : LatencyObs} :
    Succeeded (history ++ [x]) ↔ Succeeded history ∧ x.succeeded = true := by
  simp [Succeeded, or_imp, forall_and]

/-- The pairs are known after every run of calls that succeed. -/
theorem reaches_pairsKnown (run : (latencySystem inUse).Reaches c history)
    (success : Succeeded history) : c.PairsKnown history := by
  refine run.induct (I := fun c history => Succeeded history → c.PairsKnown history) ?_ ?_ success
  · intro _
    exact ⟨by simp [descriptors, latencySystem], fun p mode => Or.inr (by simp [fd, latencySystem]),
      by simp, by simp [fd, latencySystem], by simp, by simp⟩
  · rintro c history a c' o - pairs - moves success
    obtain ⟨x, rfl, effect, fresh⟩ := step_of_next moves
    rw [Option.toList_some] at success ⊢
    rw [succeeded_append] at success
    have pairs := pairs success.1
    cases effect with
    | alreadyInit isOpen => exact pairs.alreadyInit isOpen
    | opened closed _ => exact pairs.opened closed (fresh _ _ _ _ rfl) rfl rfl
    | registered closed _ =>
        exact pairs.opened closed (fresh _ _ _ _ rfl) (by funext p mode; simp) rfl
    | @signalSet p => refine pairs.signal ?_ ?_ p <;> rfl
    | noSockets _ | notRegistered _ _ _ | signalFailed _ => simp [LatencyObs.succeeded] at success

/-- **The slot** holds the listener that was the last to take it, and a port
remembers whether it has taken it. -/
theorem reaches_slot (run : (latencySystem inUse).Reaches c history)
    (success : Succeeded history) :
    (∀ p, c.slot = some (.fd p) ↔ InstalledLast p history) ∧
      ∀ p, (c.ports p).latCbIsInit = true ↔ Inited p history := by
  refine run.induct (I := fun c history => Succeeded history →
    (∀ p, c.slot = some (.fd p) ↔ InstalledLast p history) ∧
      ∀ p, (c.ports p).latCbIsInit = true ↔ Inited p history) ?_ ?_ success
  · intro _
    simp [latencySystem, PortLatency.new]
  · rintro c history a c' o before inv - moves success
    obtain ⟨x, rfl, effect, fresh⟩ := step_of_next moves
    rw [Option.toList_some] at success ⊢
    rw [succeeded_append] at success
    have pairs := reaches_pairsKnown before success.1
    obtain ⟨slot, flag⟩ := inv success.1
    cases effect with
    | @alreadyInit mode p _ _ isOpen =>
        have mem : c.fd p mode ∈ c.sockets :=
          (pairs.stored p mode).resolve_right fun none => isOpen (congrArg Prod.snd none)
        have known : Inited p history := ⟨mode, _, pairs.known p mode mem⟩
        refine ⟨fun q => ?_, fun q => ?_⟩
        · rw [installedLast_concat_known known, slot]
        · rw [flag, inited_append, inited_returned]
          exact ⟨Or.inl, fun inited => inited.elim id fun same => same ▸ known⟩
    | @opened mode p pair _ closed isInit =>
        have known : Inited p history := (flag p).mp isInit
        refine ⟨fun q => ?_, fun q => ?_⟩
        · rw [installedLast_concat_known known, slot_opened, slot]
        · rw [latCbIsInit_opened, flag, inited_append, inited_returned]
          exact ⟨Or.inl, fun inited => inited.elim id fun same => same ▸ known⟩
    | @registered mode p pair closed isInit =>
        have new : ¬ Inited p history := fun known => by simp [(flag p).mpr known] at isInit
        refine ⟨fun q => ?_, fun q => ?_⟩
        · rw [installedLast_concat_new new, slot_installed]
          simp [eq_comm]
        · rw [latCbIsInit_installed, latCbIsInit_opened, inited_append, inited_returned]
          by_cases same : q = p
          · simp [same]
          · simp [same, flag]
    | signalSet =>
        refine ⟨fun q => ?_, fun q => ?_⟩
        · simp [not_installedLast_signalSet]
        · rw [inited_append]
          simp [flag]
    | noSockets _ | notRegistered _ _ _ | signalFailed _ => simp [LatencyObs.succeeded] at success

/-- **Who hears of a latency change.**  After any calls that succeeded, a
descriptor `d` that was returned for a port and a mode has a peer, and JACK's
callback in this mode writes to the peer if and only if the first listener of the
port was the last call to take the slot, the peer is not 0, and `d` is not 0 or
the mode has not been initialised again since. -/
theorem notified_iff (run : (latencySystem inUse).Reaches c history)
    (success : Succeeded history) {before after : List LatencyObs} {mode : LatencyMode} {p d : ℕ}
    (split : history = before ++ .returned mode p d :: after) :
    ∃ a, (a, d) ∈ c.sockets ∧
      (c.latencyCallback mode = some a ↔
        InstalledLast p history ∧ a ≠ 0 ∧ (d ≠ 0 ∨ ¬ InitedMode mode p after)) := by
  have pairs := reaches_pairsKnown run success
  have slot := (reaches_slot run success).1
  have mem : LatencyObs.returned mode p d ∈ history := by simp [split]
  obtain ⟨isOpen, a, opened⟩ := pairs.returned mode p d mem
  refine ⟨a, opened, ?_⟩
  rw [← slot p, ← pairs.current before mode p d after split]
  constructor
  · intro written
    unfold latencyCallback at written
    split at written
    · next q held =>
        obtain ⟨nonzero, same⟩ : (c.fd q mode).1 ≠ 0 ∧ (c.fd q mode).1 = a := by
          simpa [PortLatency.latencyListenerFd, fd] using written
        -- the end written to is one of the pair `d` is in, so the listener is that of `p`
        have stored : c.fd q mode ∈ c.sockets :=
          (pairs.stored q mode).resolve_right fun none => nonzero (congrArg Prod.fst none)
        have one : c.fd q mode = (a, d) :=
          eq_of_shared pairs.numbers stored opened (Or.inl same)
        obtain ⟨rfl, -⟩ := pairs.owner mode p d q mode mem stored (by rw [one])
        exact ⟨held, same ▸ nonzero, by rw [one]⟩
    · cases written
    · cases written
  · rintro ⟨held, nonzero, current⟩
    have one : c.fd p mode = (a, d) := eq_of_shared pairs.numbers isOpen opened (Or.inr current)
    unfold fd at one
    simp [latencyCallback, held, PortLatency.latencyListenerFd, one, nonzero]

end Runs

/-! ## Listeners of two ports -/

/-- One port with a listener. -/
theorem notified_iff_onePort :
    ∃ c history, (latencySystem [0, 1, 2]).exec (latencySystem [0, 1, 2]).init []
        [.initFd .capture 0 (some (3, 4)) 0] = some (c, history) ∧
      ∃ a, (a, 4) ∈ c.sockets ∧ (c.latencyCallback .capture = some a ↔
        InstalledLast 0 history ∧ a ≠ 0 ∧ (4 ≠ 0 ∨ ¬ InitedMode .capture 0 [])) :=
  ⟨_, _, rfl, notified_iff (TraceSystem.reaches_of_exec (latencySystem [0, 1, 2])
    [.initFd .capture 0 (some (3, 4)) 0] rfl) (by decide)
    (show _ = [] ++ LatencyObs.returned .capture 0 4 :: [] from rfl)⟩

/-- The listener of a second port takes the callback from the first. -/
theorem second_port_silences_first :
    ∃ c history, (latencySystem [0, 1, 2]).exec (latencySystem [0, 1, 2]).init []
        [.initFd .capture 0 (some (3, 4)) 0, .initFd .capture 1 (some (5, 6)) 0] =
          some (c, history) ∧
      Succeeded history ∧ .returned .capture 0 4 ∈ history ∧ (3, 4) ∈ c.sockets ∧
      c.latencyCallback .capture ≠ some 3 :=
  ⟨_, _, rfl, by decide, by decide, by decide, by decide⟩

end Jacks
