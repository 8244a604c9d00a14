import Jacks.Foundations.TraceSystem
import Jacks.Foundations.BoundedFifo
import Jacks.Foundations.ThreadCount
import Mathlib.Logic.Function.Basic

/-!
# Bounded queues with places

What a bounded queue with many users does at best when a place is taken before the
element goes in and given back after the element has come out: each call has one moment
at which it takes effect, but an element occupies its place from before it is in the
queue until after it has left it.  So a call may be refused although the queue holds
fewer elements than its capacity; it is refused only when every place is in use.

A call that reports the queue empty has seen it empty since the call began.

The laws at the end are about every run: elements come out in the order they went in,
each once (`reaches_conserves`), the calls report what was done (`reaches_reported`), and
the places in use are those of the elements inside and of the calls under way
(`reaches_places`), so that a refusal means what it should.
-/

namespace Jacks.Foundations

universe u v

/-- Where a user of the queue is. -/
inductive FifoPhase (α : Type v)
  | idle
  | enqueuing (a : α)
  /-- A place is taken, the element is not in yet. -/
  | placed (a : α)
  | appended (a : α)
  | dequeuing (sawEmpty : Bool)
  /-- The element is out, its place not given back. -/
  | taken (a : α)
  deriving DecidableEq

/-- What a user has put in and not yet been told. -/
def FifoPhase.unreported {α : Type v} : FifoPhase α → List α
  | .appended a => [a]
  | _ => []

/-- What a user has taken out and not yet returned. -/
def FifoPhase.inHand {α : Type v} : FifoPhase α → List α
  | .taken a => [a]
  | _ => []

/-- Whether a user occupies a place that no element inside occupies. -/
def FifoPhase.holdsPlace {α : Type v} : FifoPhase α → Bool
  | .placed _ | .taken _ => true
  | _ => false

/-- What a user does next. -/
inductive FifoAct (α : Type v)
  | callEnqueue (a : α)
  | refuse
  | place
  | append
  | accept
  | callDequeue
  | seeEmpty
  | returnEmpty
  | take
  | giveBack
  deriving DecidableEq

/-- What is observed of a queue in use. -/
inductive FifoObs (ι : Type u) (α : Type v)
  | enqueues (t : ι) (a : α)
  | dequeues (t : ι)
  | appended (t : ι) (a : α)
  /-- The call of `enqueue` returns that it has put the element in. -/
  | accepted (t : ι) (a : α)
  | refused (t : ι) (a : α)
  | taken (t : ι) (a : α)
  /-- The call of `dequeue` returns the element. -/
  | returned (t : ι) (a : α)
  | foundEmpty (t : ι)
  deriving DecidableEq

/-- Whose call it was. -/
def FifoObs.user {ι : Type u} {α : Type v} : FifoObs ι α → ι
  | .enqueues t _ | .dequeues t | .appended t _ | .accepted t _ | .refused t _ | .taken t _
  | .returned t _ | .foundEmpty t => t

/-- A bounded queue in use: how many places are vacant, what is inside, and where its
users are. -/
structure PlacedFifo (ι : Type u) (α : Type v) where
  vacant : ℕ
  items : List α
  phase : ι → FifoPhase α

namespace PlacedFifo

variable {ι : Type u} {α : Type v} [DecidableEq ι]

/-- Move one user. -/
def setPhase (q : PlacedFifo ι α) (t : ι) (p : FifoPhase α) : PlacedFifo ι α :=
  { q with phase := Function.update q.phase t p }

@[simp] theorem setPhase_vacant (q : PlacedFifo ι α) (t : ι) (p : FifoPhase α) :
    (q.setPhase t p).vacant = q.vacant := rfl

@[simp] theorem setPhase_items (q : PlacedFifo ι α) (t : ι) (p : FifoPhase α) :
    (q.setPhase t p).items = q.items := rfl

@[simp] theorem setPhase_phase (q : PlacedFifo ι α) (t : ι) (p : FifoPhase α) :
    (q.setPhase t p).phase = Function.update q.phase t p := rfl

/-- One step of a user. -/
def next (q : PlacedFifo ι α) (t : ι) : FifoAct α → Option (PlacedFifo ι α × Option (FifoObs ι α))
  | .callEnqueue a =>
      match q.phase t with
      | .idle => some (q.setPhase t (.enqueuing a), some (.enqueues t a))
      | _ => none
  | .refuse =>
      match q.phase t, q.vacant with
      | .enqueuing a, 0 => some (q.setPhase t .idle, some (.refused t a))
      | _, _ => none
  | .place =>
      match q.phase t, q.vacant with
      | .enqueuing a, vacant + 1 =>
          some ({ q.setPhase t (.placed a) with vacant := vacant }, none)
      | _, _ => none
  | .append =>
      match q.phase t with
      | .placed a =>
          some ({ q.setPhase t (.appended a) with items := q.items ++ [a] },
            some (.appended t a))
      | _ => none
  | .accept =>
      match q.phase t with
      | .appended a => some (q.setPhase t .idle, some (.accepted t a))
      | _ => none
  | .callDequeue =>
      match q.phase t with
      | .idle => some (q.setPhase t (.dequeuing false), some (.dequeues t))
      | _ => none
  | .seeEmpty =>
      match q.phase t, q.items with
      | .dequeuing _, [] => some (q.setPhase t (.dequeuing true), none)
      | _, _ => none
  | .returnEmpty =>
      match q.phase t with
      | .dequeuing true => some (q.setPhase t .idle, some (.foundEmpty t))
      | _ => none
  | .take =>
      match q.phase t, q.items with
      | .dequeuing _, a :: rest =>
          some ({ q.setPhase t (.taken a) with items := rest }, some (.taken t a))
      | _, _ => none
  | .giveBack =>
      match q.phase t with
      | .taken a =>
          some ({ q.setPhase t .idle with vacant := q.vacant + 1 }, some (.returned t a))
      | _ => none

/-- What a step of a user can do. -/
inductive Step (q : PlacedFifo ι α) (t : ι) : PlacedFifo ι α → Option (FifoObs ι α) → Prop
  | callEnqueue {a} (here : q.phase t = .idle) :
      Step q t (q.setPhase t (.enqueuing a)) (some (.enqueues t a))
  | refuse {a} (here : q.phase t = .enqueuing a) (full : q.vacant = 0) :
      Step q t (q.setPhase t .idle) (some (.refused t a))
  | place {a vacant} (here : q.phase t = .enqueuing a) (room : q.vacant = vacant + 1) :
      Step q t { q.setPhase t (.placed a) with vacant := vacant } none
  | append {a} (here : q.phase t = .placed a) :
      Step q t { q.setPhase t (.appended a) with items := q.items ++ [a] } (some (.appended t a))
  | accept {a} (here : q.phase t = .appended a) :
      Step q t (q.setPhase t .idle) (some (.accepted t a))
  | callDequeue (here : q.phase t = .idle) :
      Step q t (q.setPhase t (.dequeuing false)) (some (.dequeues t))
  | seeEmpty {b} (here : q.phase t = .dequeuing b) (empty : q.items = []) :
      Step q t (q.setPhase t (.dequeuing true)) none
  | returnEmpty (here : q.phase t = .dequeuing true) :
      Step q t (q.setPhase t .idle) (some (.foundEmpty t))
  | take {b a rest} (here : q.phase t = .dequeuing b) (first : q.items = a :: rest) :
      Step q t { q.setPhase t (.taken a) with items := rest } (some (.taken t a))
  | giveBack {a} (here : q.phase t = .taken a) :
      Step q t { q.setPhase t .idle with vacant := q.vacant + 1 } (some (.returned t a))

/-- `next` does nothing else. -/
theorem step_of_next {q q' : PlacedFifo ι α} {t : ι} {act : FifoAct α}
    {o : Option (FifoObs ι α)} (moves : q.next t act = some (q', o)) : Step q t q' o := by
  cases act with
  | callEnqueue a =>
      simp only [next] at moves
      split at moves
      · next here => cases moves; exact .callEnqueue here
      · cases moves
  | refuse =>
      simp only [next] at moves
      split at moves
      · next here full => cases moves; exact .refuse here full
      · cases moves
  | place =>
      simp only [next] at moves
      split at moves
      · next here room => cases moves; exact .place here room
      · cases moves
  | append =>
      simp only [next] at moves
      split at moves
      · next here => cases moves; exact .append here
      · cases moves
  | accept =>
      simp only [next] at moves
      split at moves
      · next here => cases moves; exact .accept here
      · cases moves
  | callDequeue =>
      simp only [next] at moves
      split at moves
      · next here => cases moves; exact .callDequeue here
      · cases moves
  | seeEmpty =>
      simp only [next] at moves
      split at moves
      · next here empty => cases moves; exact .seeEmpty here empty
      · cases moves
  | returnEmpty =>
      simp only [next] at moves
      split at moves
      · next here => cases moves; exact .returnEmpty here
      · cases moves
  | take =>
      simp only [next] at moves
      split at moves
      · next here first => cases moves; exact .take here first
      · cases moves
  | giveBack =>
      simp only [next] at moves
      split at moves
      · next here => cases moves; exact .giveBack here
      · cases moves

section Frame

variable {q q' : PlacedFifo ι α} {t : ι} {o : Option (FifoObs ι α)}

/-- Only the user that moves is observed. -/
theorem Step.user (moves : Step q t q' o) : ∀ x ∈ o, x.user = t := by
  cases moves with
  | place | seeEmpty => rintro x ⟨⟩
  | _ => rintro x ⟨⟩; rfl

/-- Only the user that moves is elsewhere afterwards. -/
theorem Step.phase (moves : Step q t q' o) {u : ι} (other : u ≠ t) :
    q'.phase u = q.phase u := by
  cases moves with
  | _ => exact Function.update_of_ne other _ _

end Frame

variable (ι α) in
/-- The empty queue, all of its places free. -/
def system (capacity : ℕ) : TraceSystem (PlacedFifo ι α) (ι × FifoAct α) (FifoObs ι α) where
  init := { vacant := capacity, items := [], phase := fun _ => .idle }
  next q a := q.next a.1 a.2

/-! ## What is observed -/

section Histories

variable (history : List (FifoObs ι α))

/-- The elements that went in, in this order. -/
def appended : List α :=
  history.filterMap fun
    | .appended _ a => some a
    | _ => none

/-- The elements that came out, in this order. -/
def taken : List α :=
  history.filterMap fun
    | .taken _ a => some a
    | _ => none

/-- The elements one user put in. -/
def appendedBy (t : ι) : List α :=
  history.filterMap fun
    | .appended t' a => if t' = t then some a else none
    | _ => none

/-- The elements of the calls of one user that returned success. -/
def acceptedBy (t : ι) : List α :=
  history.filterMap fun
    | .accepted t' a => if t' = t then some a else none
    | _ => none

/-- The elements one user took out. -/
def takenBy (t : ι) : List α :=
  history.filterMap fun
    | .taken t' a => if t' = t then some a else none
    | _ => none

/-- The elements the calls of one user returned. -/
def returnedBy (t : ι) : List α :=
  history.filterMap fun
    | .returned t' a => if t' = t then some a else none
    | _ => none

end Histories

/-! ## The laws -/

/-- Each step keeps the order of the elements. -/
theorem Step.conserves {q q' : PlacedFifo ι α} {t : ι} {history : List (FifoObs ι α)}
    {o : Option (FifoObs ι α)} (moves : Step q t q' o)
    (inv : BoundedFifo.Conserves (appended history) (taken history) q.items) :
    BoundedFifo.Conserves (appended (history ++ o.toList)) (taken (history ++ o.toList))
      q'.items := by
  cases moves with
  | append here => simpa [appended, taken] using inv.accept [_]
  | @take b a rest here first =>
      simpa [appended, taken] using inv.hand_out (show q.items = [a] ++ rest from first)
  | _ => simpa [appended, taken] using inv

/-- The calls of a user report what was done. -/
structure Reported (q : PlacedFifo ι α) (history : List (FifoObs ι α)) (t : ι) : Prop where
  accepted : appendedBy history t = acceptedBy history t ++ (q.phase t).unreported
  returned : takenBy history t = returnedBy history t ++ (q.phase t).inHand

/-- Nothing about a user is observed when another one moves. -/
theorem filterMap_other {u t : ι} {o : Option (FifoObs ι α)} (user : ∀ x ∈ o, x.user = t)
    (other : u ≠ t) : (appendedBy o.toList u = [] ∧ acceptedBy o.toList u = []) ∧
      takenBy o.toList u = [] ∧ returnedBy o.toList u = [] := by
  cases o with
  | none => exact ⟨⟨rfl, rfl⟩, rfl, rfl⟩
  | some x =>
      have apart : x.user ≠ u := fun same => other (same.symm.trans (user x rfl))
      cases x <;>
        simp_all [FifoObs.user, appendedBy, acceptedBy, takenBy, returnedBy]

/-- What the user that moves has done and reported, it has before and now. -/
theorem Step.own {q q' : PlacedFifo ι α} {t : ι} {o : Option (FifoObs ι α)}
    (moves : Step q t q' o) :
    (q.phase t).unreported ++ appendedBy o.toList t =
        acceptedBy o.toList t ++ (q'.phase t).unreported ∧
      (q.phase t).inHand ++ takenBy o.toList t =
        returnedBy o.toList t ++ (q'.phase t).inHand := by
  cases moves with
  | callEnqueue here | callDequeue here | append here | accept here | take here | giveBack here
  | refuse here | returnEmpty here | place here | seeEmpty here =>
      simp [here, appendedBy, acceptedBy, takenBy, returnedBy, FifoPhase.unreported,
        FifoPhase.inHand]

/-- Each step keeps the reports. -/
theorem Step.reported {q q' : PlacedFifo ι α} {t : ι} {history : List (FifoObs ι α)}
    {o : Option (FifoObs ι α)} (moves : Step q t q' o) (inv : ∀ u, Reported q history u) (u : ι) :
    Reported q' (history ++ o.toList) u := by
  have append : ∀ f : FifoObs ι α → Option α,
      (history ++ o.toList).filterMap f = history.filterMap f ++ o.toList.filterMap f :=
    fun f => List.filterMap_append
  obtain ⟨accepted, returned⟩ := inv u
  rw [appendedBy, acceptedBy] at accepted
  rw [takenBy, returnedBy] at returned
  by_cases same : u = t
  · subst same
    obtain ⟨ownIn, ownOut⟩ := moves.own
    rw [appendedBy, acceptedBy] at ownIn
    rw [takenBy, returnedBy] at ownOut
    refine ⟨?_, ?_⟩
    · rw [appendedBy, acceptedBy, append, append, accepted, List.append_assoc, ownIn,
        List.append_assoc]
    · rw [takenBy, returnedBy, append, append, returned, List.append_assoc, ownOut,
        List.append_assoc]
  · obtain ⟨⟨noneIn, noneAccepted⟩, noneOut, noneReturned⟩ := filterMap_other moves.user same
    rw [appendedBy] at noneIn
    rw [acceptedBy] at noneAccepted
    rw [takenBy] at noneOut
    rw [returnedBy] at noneReturned
    refine ⟨?_, ?_⟩
    · rw [appendedBy, acceptedBy, append, append, moves.phase same, noneIn, noneAccepted,
        List.append_nil, List.append_nil, accepted]
    · rw [takenBy, returnedBy, append, append, moves.phase same, noneOut, noneReturned,
        List.append_nil, List.append_nil, returned]

/-- The call of `dequeue` that a user is in. -/
def InDequeue (history : List (FifoObs ι α)) (t : ι) : Prop :=
  ∃ before after, history = before ++ .dequeues t :: after ∧ .dequeues t ∉ after

/-- Since that call began there was a moment with nothing inside. -/
def SawEmpty (history : List (FifoObs ι α)) (t : ι) : Prop :=
  ∃ before middle after, history = before ++ .dequeues t :: (middle ++ after) ∧
    .dequeues t ∉ middle ++ after ∧
    appended (before ++ .dequeues t :: middle) = taken (before ++ .dequeues t :: middle)

/-- What a user in `dequeue` knows of the history. -/
structure Looked (q : PlacedFifo ι α) (history : List (FifoObs ι α)) (t : ι) : Prop where
  began : ∀ b, q.phase t = .dequeuing b → InDequeue history t
  empty : q.phase t = .dequeuing true → SawEmpty history t

omit [DecidableEq ι] in
theorem InDequeue.append {history : List (FifoObs ι α)} {t : ι} {o : Option (FifoObs ι α)}
    (began : InDequeue history t) (others : FifoObs.dequeues t ∉ o.toList) :
    InDequeue (history ++ o.toList) t := by
  obtain ⟨before, after, rfl, once⟩ := began
  exact ⟨before, after ++ o.toList, by simp, by simp [once, others]⟩

omit [DecidableEq ι] in
theorem SawEmpty.append {history : List (FifoObs ι α)} {t : ι} {o : Option (FifoObs ι α)}
    (saw : SawEmpty history t) (others : FifoObs.dequeues t ∉ o.toList) :
    SawEmpty (history ++ o.toList) t := by
  obtain ⟨before, middle, after, rfl, once, empty⟩ := saw
  refine ⟨before, middle, after ++ o.toList, by simp, ?_, empty⟩
  rw [← List.append_assoc, List.mem_append, not_or]
  exact ⟨once, others⟩

/-- Each step keeps what the users know. -/
theorem Step.looked {q q' : PlacedFifo ι α} {t : ι} {history : List (FifoObs ι α)}
    {o : Option (FifoObs ι α)} (moves : Step q t q' o)
    (conserved : BoundedFifo.Conserves (appended history) (taken history) q.items)
    (inv : ∀ u, Looked q history u) (u : ι) : Looked q' (history ++ o.toList) u := by
  by_cases same : u = t
  · subst same
    cases moves with
    | callDequeue here =>
        refine ⟨fun b _ => ⟨history, [], rfl, List.not_mem_nil⟩, fun at_call => ?_⟩
        simp at at_call
    | @seeEmpty b here empty =>
        have began := (inv u).began b here
        refine ⟨fun _ _ => began.append List.not_mem_nil, fun _ => ?_⟩
        obtain ⟨before, after, rfl, once⟩ := began
        rw [BoundedFifo.Conserves, empty, List.append_nil] at conserved
        exact ⟨before, after, [], by simp, by simpa using once, conserved⟩
    | callEnqueue here | refuse here | place here | append here | accept here
    | returnEmpty here | take here | giveBack here =>
        refine ⟨fun b at_b => ?_, fun at_true => ?_⟩
        · simp at at_b
        · simp at at_true
  · have others : FifoObs.dequeues u ∉ o.toList := by
      intro mem
      exact same (moves.user _ (Option.mem_toList.mp mem))
    obtain ⟨began, empty⟩ := inv u
    rw [← moves.phase same] at began empty
    exact ⟨fun b at_b => (began b at_b).append others, fun at_true => (empty at_true).append others⟩

/-- Every place is vacant, or that of an element inside, or that of a call under way. -/
def Places [Fintype ι] (capacity : ℕ) (q : PlacedFifo ι α) : Prop :=
  q.vacant + q.items.length + countAt q.phase FifoPhase.holdsPlace = capacity

/-- One user moves; what it holds, what is inside and what is vacant change together. -/
theorem Places.moved [Fintype ι] {capacity : ℕ} {q q' : PlacedFifo ι α} {t : ι}
    {p : FifoPhase α} (inv : Places capacity q) (phase : q'.phase = Function.update q.phase t p)
    (balance : q'.vacant + q'.items.length + p.holdsPlace.toNat =
      q.vacant + q.items.length + (q.phase t).holdsPlace.toNat) : Places capacity q' := by
  have holders := countAt_update q.phase FifoPhase.holdsPlace t p
  unfold Places at inv ⊢
  rw [phase]
  omega

/-- Each step keeps the places. -/
theorem Step.places [Fintype ι] {capacity : ℕ} {q q' : PlacedFifo ι α} {t : ι}
    {o : Option (FifoObs ι α)} (moves : Step q t q' o) (inv : Places capacity q) :
    Places capacity q' := by
  cases moves with
  | place here room =>
      refine inv.moved rfl ?_
      simp only [here, room, setPhase_items, FifoPhase.holdsPlace, Bool.toNat_false,
        Bool.toNat_true]
      omega
  | append here =>
      refine inv.moved rfl ?_
      simp only [here, setPhase_vacant, List.length_append, List.length_singleton,
        FifoPhase.holdsPlace, Bool.toNat_false, Bool.toNat_true]
      omega
  | take here first =>
      refine inv.moved rfl ?_
      simp only [here, first, setPhase_vacant, List.length_cons, FifoPhase.holdsPlace,
        Bool.toNat_false, Bool.toNat_true]
      omega
  | giveBack here =>
      refine inv.moved rfl ?_
      simp only [here, setPhase_items, FifoPhase.holdsPlace, Bool.toNat_false, Bool.toNat_true]
      omega
  | callEnqueue here | refuse here | accept here | callDequeue here | seeEmpty here
  | returnEmpty here =>
      refine inv.moved rfl ?_
      simp [here, FifoPhase.holdsPlace]

variable {capacity : ℕ} {q : PlacedFifo ι α} {history : List (FifoObs ι α)}

/-- **First in, first out.**  What went in is what came out, in the same order, followed
by what is inside. -/
theorem reaches_conserves (run : (system ι α capacity).Reaches q history) :
    BoundedFifo.Conserves (appended history) (taken history) q.items := by
  refine run.induct
    (I := fun q history => BoundedFifo.Conserves (appended history) (taken history) q.items)
    ?_ ?_
  · exact BoundedFifo.Conserves.start
  · intro q history a q' o _ inv _ moves
    exact (step_of_next moves).conserves inv

theorem reaches_reported (run : (system ι α capacity).Reaches q history) (t : ι) :
    Reported q history t := by
  refine run.induct (I := fun q history => ∀ u, Reported q history u)
    (fun _ => ⟨rfl, rfl⟩) ?_ t
  intro q history a q' o _ inv _ moves
  exact (step_of_next moves).reported inv

theorem reaches_looked (run : (system ι α capacity).Reaches q history) (t : ι) :
    Looked q history t := by
  refine run.induct (I := fun q history => ∀ u, Looked q history u) ?_ ?_ t
  · exact fun u => ⟨fun b at_start => (by simp [system] at at_start), fun at_start =>
      (by simp [system] at at_start)⟩
  · intro q history a q' o run inv _ moves
    exact (step_of_next moves).looked (reaches_conserves run) inv

theorem reaches_places [Fintype ι] (run : (system ι α capacity).Reaches q history) :
    Places capacity q := by
  refine run.induct (I := fun q _ => Places capacity q) ?_ ?_
  · have nobody : countAt (fun _ : ι => FifoPhase.idle (α := α)) FifoPhase.holdsPlace = 0 :=
      countAt_eq_zero_iff.mpr fun _ => rfl
    simpa [Places, system] using nobody
  · intro q history a q' o _ inv _ moves
    exact (step_of_next moves).places inv

/-- **A call that returns empty-handed has seen the queue empty**: between its beginning
and its return there was a moment at which everything that had gone in had come out. -/
theorem sawEmpty_of_foundEmpty (run : (system ι α capacity).Reaches q history)
    {earlier later : List (FifoObs ι α)} {t : ι}
    (split : history = earlier ++ .foundEmpty t :: later) : SawEmpty earlier t := by
  obtain ⟨q', a, q'', before, -, moves⟩ := run.step_of_split split
  cases step_of_next moves with
  | returnEmpty here => exact (reaches_looked before _).empty here

end PlacedFifo

end Jacks.Foundations
