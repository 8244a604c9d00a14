import Jacks.Foundations.RelyGuarantee
import Jacks.Foundations.Threaded
import Mathlib.Algebra.Group.Nat.Defs

/-!
# The free list

The lock-free stack of unused elements under the event queue (`lfds/freelist_*.c`).
`freelist_pop` and `freelist_push` are taken access by access: one step is one read or
write of a word, one atomic increment, or one double-word compare-and-swap, so a pair of
a pointer and a counter is read in two steps and may be torn.

Every push stamps its element with a fresh value of `aba_counter`.  A compare-and-swap
of `freelist_pop` succeeds only where the top still carries the stamp that was read, and
as long as stamps are not reused that is the same push of the same element, whose `next`
has not changed since.  The ghost keeps the stack with the stamps, which stamps are in
whose hands, and which elements.

`Sound` is what holds of the memory, `PopHere` and `PushHere` what holds of a thread at
each access, `FreelistRely` what the threads do to each other.  The queue uses
these as they are; by itself the free list is a stack in every interleaving
(`freelist_is_stack`), which hands no element out twice
(`freelist_hands_out_once`).
-/

namespace Jacks

open Foundations

universe u v

/-! ## The source -/

/-- A pointer and a counter, side by side. -/
@[ext] structure Pac (ν : Type u) where
  pointer : Option ν
  counter : ℕ
  deriving DecidableEq

/-- `abstraction_dcas`: the destination afterwards, what was loaded into `compare`, and
whether the swap was made. -/
def abstractionDcas {ν : Type u} [DecidableEq ν] (destination exchange compare : Pac ν) :
    Pac ν × Pac ν × Bool :=
  if destination = compare then (exchange, compare, true) else (destination, destination, false)

section Dcas

variable {ν : Type u} [DecidableEq ν] {destination exchange compare : Pac ν}

theorem abstractionDcas_self :
    abstractionDcas compare exchange compare = (exchange, compare, true) :=
  if_pos rfl

theorem abstractionDcas_of_ne (differs : destination ≠ compare) :
    abstractionDcas destination exchange compare = (destination, destination, false) :=
  if_neg differs

end Dcas

/-- The number of values of an `atom_t`. -/
def atomValues : ℕ := 2 ^ 64

/-- `abstraction_increment`: the new value of an `atom_t`. -/
def abstractionIncrement (value : ℕ) : ℕ := (value + 1) % atomValues

theorem abstractionIncrement_eq {value : ℕ} (headroom : value + 1 < atomValues) :
    abstractionIncrement value = value + 1 :=
  Nat.mod_eq_of_lt headroom

/-- `freelist_state`, with the `next` of all of its elements. -/
structure FreelistState (ν : Type u) where
  top : Pac ν
  abaCounter : ℕ
  elementCount : ℕ
  next : ν → Pac ν

/-- Where a thread is in `freelist_pop`, with what it has read. -/
inductive PopPc (ν : Type u)
  | readCounter
  | readPointer (counter : ℕ)
  | readNextPointer (fe : ν) (counter : ℕ)
  | readNextCounter (fe : ν) (counter : ℕ) (nextPointer : Option ν)
  | dcas (fe : ν) (counter : ℕ) (next : Pac ν)
  deriving DecidableEq

/-- What comes of a step of `freelist_pop`. -/
inductive PopResult (ν : Type u)
  | goesOn (pc : PopPc ν)
  | returns (fe : Option ν)
  deriving DecidableEq

/-- Where a thread is in `freelist_push`, with what it has read. -/
inductive PushPc (ν : Type u)
  | increment
  | readPointer (counter : ℕ)
  | readCounter (counter : ℕ) (pointer : Option ν)
  | writePointer (counter : ℕ) (original : Pac ν)
  | writeCounter (counter : ℕ) (original : Pac ν)
  | dcas (counter : ℕ) (original : Pac ν)
  deriving DecidableEq

namespace FreelistState

variable {ν : Type u} [DecidableEq ν]

omit [DecidableEq ν] in
/-- The head of the loop of `freelist_pop`, with the top as it was read. -/
def popLoop (feLocal : Pac ν) : PopResult ν :=
  match feLocal.pointer with
  | none => .returns none
  | some fe => .goesOn (.readNextPointer fe feLocal.counter)

/-- One access of `freelist_pop`. -/
def popStep (fs : FreelistState ν) : PopPc ν → FreelistState ν × PopResult ν
  | .readCounter => (fs, .goesOn (.readPointer fs.top.counter))
  | .readPointer counter => (fs, popLoop ⟨fs.top.pointer, counter⟩)
  | .readNextPointer fe counter =>
      (fs, .goesOn (.readNextCounter fe counter (fs.next fe).pointer))
  | .readNextCounter fe counter nextPointer =>
      (fs, .goesOn (.dcas fe counter ⟨nextPointer, (fs.next fe).counter⟩))
  | .dcas fe counter next =>
      match abstractionDcas fs.top next ⟨some fe, counter⟩ with
      | (top, _, true) => ({ fs with top := top }, .returns (some fe))
      | (_, feLocal, false) => (fs, popLoop feLocal)

/-- One access of `freelist_push`; no location is left when it returns. -/
def pushStep (fs : FreelistState ν) (fe : ν) : PushPc ν → FreelistState ν × Option (PushPc ν)
  | .increment =>
      ({ fs with abaCounter := abstractionIncrement fs.abaCounter },
        some (.readPointer (abstractionIncrement fs.abaCounter)))
  | .readPointer counter => (fs, some (.readCounter counter fs.top.pointer))
  | .readCounter counter pointer => (fs, some (.writePointer counter ⟨pointer, fs.top.counter⟩))
  | .writePointer counter original =>
      ({ fs with
          next := Function.update fs.next fe ⟨original.pointer, (fs.next fe).counter⟩ },
        some (.writeCounter counter original))
  | .writeCounter counter original =>
      ({ fs with
          next := Function.update fs.next fe ⟨(fs.next fe).pointer, original.counter⟩ },
        some (.dcas counter original))
  | .dcas counter original =>
      match abstractionDcas fs.top ⟨some fe, counter⟩ original with
      | (top, _, true) => ({ fs with top := top }, none)
      | (_, original, false) => (fs, some (.writePointer counter original))

end FreelistState

/-! ## The ghost -/

/-- What has become of a value of `aba_counter`. -/
inductive Stamp (ι : Type v)
  | unused
  /-- In the hands of a thread that is pushing. -/
  | pending (t : ι)
  /-- On the stack, or once was. -/
  | published
  deriving DecidableEq

/-- The stack with its stamps, top first; what has become of each stamp; and which
thread has an element to itself. -/
structure FreelistGhost (ι : Type v) (ν : Type u) where
  free : List (ν × ℕ)
  stamp : ℕ → Stamp ι
  owner : ν → Option ι

/-- The links of the free list: a pointer and the stamp of the element it points to. -/
def freeLinks (ν : Type u) : Links (ν × ℕ) ν (Pac ν) where
  addr := Prod.fst
  nil := ⟨none, 0⟩
  ref r := ⟨some r.1, r.2⟩

section Ghost

variable {ι : Type v} {ν : Type u}

theorem freeLinks_proper (r : ν × ℕ) : (freeLinks ν).ref r ≠ (freeLinks ν).nil := by
  simp [freeLinks]

theorem freeLinks_injective : Function.Injective (freeLinks ν).ref := by
  rintro ⟨n, c⟩ ⟨n', c'⟩ same
  simp only [freeLinks, Pac.mk.injEq, Option.some.injEq] at same
  rw [same.1, same.2]

/-- What holds of the memory between any two steps. -/
structure FreelistState.Sound (fs : FreelistState ν) (g : FreelistGhost ι ν) : Prop where
  top : fs.top = (freeLinks ν).entry g.free
  threaded : (freeLinks ν).Threaded fs.next g.free
  nodup : (g.free.map Prod.fst).Nodup
  published : ∀ r ∈ g.free, g.stamp r.2 = .published
  /-- The counter below the last element. -/
  bottom : g.stamp 0 = .published
  unused : ∀ c, fs.abaCounter < c → g.stamp c = .unused
  unowned : ∀ r ∈ g.free, g.owner r.1 = none

/-- What a thread at an access of `freelist_pop` may count on: the stamp it has read was
published, and while that very push is on the stack, what it has read of `next` is
there. -/
def PopHere (fs : FreelistState ν) (g : FreelistGhost ι ν) : PopPc ν → Prop
  | .readCounter => True
  | .readPointer counter => g.stamp counter = .published
  | .readNextPointer _ counter => g.stamp counter = .published
  | .readNextCounter fe counter nextPointer =>
      g.stamp counter = .published ∧
        ((fe, counter) ∈ g.free → (fs.next fe).pointer = nextPointer)
  | .dcas fe counter next =>
      g.stamp counter = .published ∧ ((fe, counter) ∈ g.free → fs.next fe = next)

/-- What a thread at an access of `freelist_push` may count on: it has the element and
its stamp to itself, and what it wrote is there. -/
def PushHere (t : ι) (fs : FreelistState ν) (g : FreelistGhost ι ν) (fe : ν) : PushPc ν → Prop
  | .increment => g.owner fe = some t
  | .readPointer counter | .readCounter counter _ | .writePointer counter _ =>
      g.owner fe = some t ∧ g.stamp counter = .pending t
  | .writeCounter counter original =>
      (g.owner fe = some t ∧ g.stamp counter = .pending t) ∧
        (fs.next fe).pointer = original.pointer
  | .dcas counter original =>
      (g.owner fe = some t ∧ g.stamp counter = .pending t) ∧ fs.next fe = original

theorem PushHere.owner {t : ι} {fs : FreelistState ν} {g : FreelistGhost ι ν} {fe : ν}
    {pc : PushPc ν} (here : PushHere t fs g fe pc) : g.owner fe = some t := by
  cases pc with
  | increment => exact here
  | readPointer | readCounter | writePointer => exact here.1
  | writeCounter | dcas => exact here.1.1

/-- What a thread lets the others do in one step. -/
structure FreelistRely (t : ι) (fs : FreelistState ν) (g : FreelistGhost ι ν)
    (fs' : FreelistState ν) (g' : FreelistGhost ι ν) : Prop where
  owner : ∀ n, g'.owner n = some t ↔ g.owner n = some t
  ownNext : ∀ n, g.owner n = some t → fs'.next n = fs.next n
  published : ∀ c, g.stamp c = .published → g'.stamp c = .published
  pending : ∀ c, g.stamp c = .pending t → g'.stamp c = .pending t
  /-- A push that is on the stack was there before, if its stamp was, with the same
  `next`. -/
  kept : ∀ r ∈ g'.free, g.stamp r.2 = .published → r ∈ g.free ∧ fs'.next r.1 = fs.next r.1

theorem FreelistRely.refl (t : ι) (fs : FreelistState ν) (g : FreelistGhost ι ν) :
    FreelistRely t fs g fs g where
  owner _ := Iff.rfl
  ownNext _ _ := rfl
  published _ h := h
  pending _ h := h
  kept _ mem _ := ⟨mem, rfl⟩

variable {t : ι} {fs fs' : FreelistState ν} {g g' : FreelistGhost ι ν}

theorem PopHere.stable {pc : PopPc ν} (here : PopHere fs g pc)
    (rely : FreelistRely t fs g fs' g') : PopHere fs' g' pc := by
  cases pc with
  | readCounter => trivial
  | readPointer counter => exact rely.published _ here
  | readNextPointer fe counter => exact rely.published _ here
  | readNextCounter fe counter nextPointer =>
      obtain ⟨published, read⟩ := here
      refine ⟨rely.published _ published, fun mem => ?_⟩
      obtain ⟨before, same⟩ := rely.kept _ mem published
      rw [same, read before]
  | dcas fe counter next =>
      obtain ⟨published, read⟩ := here
      refine ⟨rely.published _ published, fun mem => ?_⟩
      obtain ⟨before, same⟩ := rely.kept _ mem published
      rw [same, read before]

theorem PushHere.stable {fe : ν} {pc : PushPc ν} (here : PushHere t fs g fe pc)
    (rely : FreelistRely t fs g fs' g') : PushHere t fs' g' fe pc := by
  have own := here.owner
  have own' := (rely.owner fe).mpr own
  cases pc with
  | increment => exact own'
  | readPointer | readCounter | writePointer => exact ⟨own', rely.pending _ here.2⟩
  | writeCounter counter original =>
      exact ⟨⟨own', rely.pending _ here.1.2⟩, by rw [rely.ownNext _ own]; exact here.2⟩
  | dcas counter original =>
      exact ⟨⟨own', rely.pending _ here.1.2⟩, by rw [rely.ownNext _ own]; exact here.2⟩

/-! ## What a step does -/

/-- A thread that had no element has the one it gets. -/
theorem owns_update_some [DecidableEq ν] {owner : ν → Option ι}
    (nothing : ∀ n, owner n ≠ some t) (fe n : ν) :
    Function.update owner fe (some t) n = some t ↔ some fe = some n := by
  by_cases same : n = fe
  · simp [same]
  · rw [Function.update_of_ne same]
    simp [nothing n, Ne.symm same]

/-- A thread that gives up the only one it had has none. -/
theorem owns_update_none [DecidableEq ν] {owner : ν → Option ι} {fe : ν}
    (only : ∀ n, owner n = some t → n = fe) (n : ν) :
    Function.update owner fe none n = some t ↔ none = some n := by
  by_cases same : n = fe
  · simp [same]
  · rw [Function.update_of_ne same]
    have nothing : owner n ≠ some t := fun own => same (only n own)
    simp [nothing]

/-- An element gets an owner, or none. -/
def FreelistGhost.setOwner [DecidableEq ν] (g : FreelistGhost ι ν) (fe : ν) (owner : Option ι) :
    FreelistGhost ι ν :=
  { g with owner := Function.update g.owner fe owner }

/-- The first element is taken off, for a thread or for nobody in particular. -/
def FreelistGhost.take [DecidableEq ν] (g : FreelistGhost ι ν) (fe : ν) (owner : Option ι)
    (rest : List (ν × ℕ)) : FreelistGhost ι ν :=
  { g.setOwner fe owner with free := rest }

/-- A thread draws a stamp. -/
def FreelistGhost.draw (g : FreelistGhost ι ν) (t : ι) (counter : ℕ) : FreelistGhost ι ν :=
  { g with stamp := Function.update g.stamp counter (.pending t) }

/-- A thread gives an element back under its stamp. -/
def FreelistGhost.give [DecidableEq ν] (g : FreelistGhost ι ν) (fe : ν) (counter : ℕ) :
    FreelistGhost ι ν where
  free := (fe, counter) :: g.free
  stamp := Function.update g.stamp counter .published
  owner := Function.update g.owner fe none

namespace FreelistState.Sound

variable (sound : fs.Sound g)
include sound

/-- The counter of the top is a stamp that was published. -/
theorem topPublished : g.stamp fs.top.counter = .published := by
  rw [sound.top]
  cases free : g.free with
  | nil => exact sound.bottom
  | cons r rest => exact sound.published r (by rw [free]; exact List.mem_cons_self)

/-- A thread's own element is not on the stack. -/
theorem notFree {fe : ν} (own : g.owner fe = some t) : ∀ r ∈ g.free, r.1 ≠ fe := by
  rintro r mem rfl
  rw [sound.unowned r mem] at own
  cases own

/-- The stack is empty where the top is no pointer. -/
theorem free_eq_nil (isNull : fs.top.pointer = none) : g.free = [] := by
  rw [sound.top] at isNull
  cases free : g.free with
  | nil => rfl
  | cons r rest => rw [free] at isNull; cases isNull

/-- What the top points to is on the stack. -/
theorem top_mem {fe : ν} (points : fs.top.pointer = some fe) : ∃ r ∈ g.free, r.1 = fe := by
  rw [sound.top] at points
  cases free : g.free with
  | nil => rw [free] at points; cases points
  | cons r rest => rw [free] at points; cases points; exact ⟨r, List.mem_cons_self, rfl⟩

end FreelistState.Sound

variable [DecidableEq ν]

omit [DecidableEq ν] in
/-- The head of the loop, with a top whose counter is a published stamp. -/
theorem popLoop_here {feLocal : Pac ν} {pc : PopPc ν}
    (published : g.stamp feLocal.counter = .published)
    (goesOn : FreelistState.popLoop feLocal = .goesOn pc) : PopHere fs g pc := by
  unfold FreelistState.popLoop at goesOn
  split at goesOn
  · cases goesOn
  · cases goesOn; exact published

omit [DecidableEq ν] in
theorem popLoop_goesOn {feLocal : Pac ν} {pc : PopPc ν}
    (goesOn : FreelistState.popLoop feLocal = .goesOn pc) :
    ∃ fe, feLocal.pointer = some fe ∧ pc = .readNextPointer fe feLocal.counter := by
  unfold FreelistState.popLoop at goesOn
  split at goesOn
  · cases goesOn
  · next fe points => cases goesOn; exact ⟨fe, points, rfl⟩

omit [DecidableEq ν] in
theorem popLoop_returns {feLocal : Pac ν} {fe : Option ν}
    (returns : FreelistState.popLoop feLocal = .returns fe) :
    fe = none ∧ feLocal.pointer = none := by
  unfold FreelistState.popLoop at returns
  split at returns
  · next isNull => cases returns; exact ⟨rfl, isNull⟩
  · cases returns

/-- **What an access of `freelist_pop` does.**  It goes on and changes nothing, or it has
found the stack empty, or it has taken the first element off. -/
theorem FreelistState.Sound.pop {pc : PopPc ν} {result : PopResult ν} (sound : fs.Sound g)
    (here : PopHere fs g pc) (moves : fs.popStep pc = (fs', result)) :
    (fs' = fs ∧ ∃ pc', result = .goesOn pc' ∧ PopHere fs g pc') ∨
    (fs' = fs ∧ result = .returns none ∧ g.free = []) ∨
    ∃ fe counter rest, result = .returns (some fe) ∧ g.free = (fe, counter) :: rest ∧
      fs' = { fs with top := (freeLinks ν).entry rest } := by
  -- the head of the loop either goes on or has seen an empty stack
  have loop : ∀ feLocal : Pac ν, g.stamp feLocal.counter = .published →
      feLocal.pointer = fs.top.pointer → (fs, popLoop feLocal) = (fs', result) →
      (fs' = fs ∧ ∃ pc', result = .goesOn pc' ∧ PopHere fs g pc') ∨
      (fs' = fs ∧ result = .returns none ∧ g.free = []) := by
    intro feLocal published same ends
    cases ends
    cases outcome : popLoop feLocal with
    | goesOn pc' => exact .inl ⟨rfl, pc', rfl, popLoop_here published outcome⟩
    | returns r =>
        obtain ⟨rfl, isNull⟩ := popLoop_returns outcome
        exact .inr ⟨rfl, rfl, sound.free_eq_nil (same ▸ isNull)⟩
  cases pc with
  | readCounter =>
      cases moves
      exact .inl ⟨rfl, _, rfl, sound.topPublished⟩
  | readPointer counter => exact (loop ⟨_, counter⟩ here rfl moves).imp_right .inl
  | readNextPointer fe counter =>
      cases moves
      exact .inl ⟨rfl, _, rfl, here, fun _ => rfl⟩
  | readNextCounter fe counter nextPointer =>
      cases moves
      obtain ⟨published, read⟩ := here
      refine .inl ⟨rfl, _, rfl, published, fun mem => ?_⟩
      rw [← read mem]
  | dcas fe counter next =>
      by_cases same : fs.top = ⟨some fe, counter⟩
      · -- the push that was read is on top, so its `next` is the one that was read
        have onTop : (freeLinks ν).entry g.free = (freeLinks ν).ref (fe, counter) :=
          sound.top.symm.trans same
        obtain ⟨rest, first⟩ :=
          (freeLinks ν).exists_cons_of_entry freeLinks_proper freeLinks_injective onTop
        have read := here.2 (by rw [first]; exact List.mem_cons_self)
        have threaded := sound.threaded
        rw [first] at threaded
        simp only [popStep, same, abstractionDcas_self] at moves
        cases moves
        exact .inr (.inr ⟨fe, counter, rest, rfl, first, by rw [← read, ← threaded.1]; rfl⟩)
      · simp only [popStep, abstractionDcas_of_ne same] at moves
        exact (loop _ sound.topPublished rfl moves).imp_right .inl

/-- An element that is not on the stack may change hands. -/
theorem FreelistState.Sound.setOwner {fe : ν} (sound : fs.Sound g)
    (away : ∀ r ∈ g.free, r.1 ≠ fe) (owner : Option ι) : fs.Sound (g.setOwner fe owner) where
  top := sound.top
  threaded := sound.threaded
  nodup := sound.nodup
  published := sound.published
  bottom := sound.bottom
  unused := sound.unused
  unowned r mem := by
    show Function.update g.owner fe owner r.1 = none
    rw [Function.update_of_ne (away r mem)]
    exact sound.unowned r mem

/-- An element changes hands, which is nothing to those not concerned. -/
theorem FreelistRely.setOwner {fe : ν} {owner : Option ι} (before : g.owner fe ≠ some t)
    (other : owner ≠ some t) : FreelistRely t fs g fs (g.setOwner fe owner) := by
  refine ⟨fun n => ?_, fun _ _ => rfl, fun _ h => h, fun _ h => h, fun r mem _ => ⟨mem, rfl⟩⟩
  show Function.update g.owner fe owner n = some t ↔ _
  by_cases same : n = fe
  · subst same
    rw [Function.update_self]
    simp [before, other]
  · rw [Function.update_of_ne same]

/-- Taking the first element keeps the free list sound. -/
theorem FreelistState.Sound.take {fe : ν} {counter : ℕ} {rest : List (ν × ℕ)}
    (sound : fs.Sound g) (first : g.free = (fe, counter) :: rest) (owner : Option ι) :
    { fs with top := (freeLinks ν).entry rest }.Sound (g.take fe owner rest) := by
  obtain ⟨-, threaded, nodup, published, bottom, unused, unowned⟩ := sound
  rw [first] at threaded nodup published unowned
  refine ⟨rfl, threaded.2, (List.nodup_cons.mp nodup).2,
    fun r mem => published r (List.mem_cons_of_mem _ mem), bottom, unused, fun r mem => ?_⟩
  have mem : r ∈ rest := mem
  have other : r.1 ≠ fe := by
    intro same
    have listed : r.1 ∈ rest.map Prod.fst := List.mem_map_of_mem mem
    exact (List.nodup_cons.mp nodup).1 (same ▸ listed)
  show Function.update g.owner fe owner r.1 = none
  rw [Function.update_of_ne other]
  exact unowned r (List.mem_cons_of_mem _ mem)

/-- Taking the first element is nothing to those who do not get it. -/
theorem FreelistState.Sound.take_rely {fe : ν} {counter : ℕ} {rest : List (ν × ℕ)}
    (sound : fs.Sound g) (first : g.free = (fe, counter) :: rest) {owner : Option ι}
    (other : owner ≠ some t) (top : Pac ν) :
    FreelistRely t fs g { fs with top := top } (g.take fe owner rest) := by
  have unowned : g.owner fe ≠ some t := by
    rw [sound.unowned (fe, counter) (by rw [first]; exact List.mem_cons_self)]
    simp
  have moved : FreelistRely t fs g fs (g.setOwner fe owner) := .setOwner unowned other
  refine ⟨moved.owner, fun _ _ => rfl, fun _ h => h,
    fun _ h => h, fun r mem _ => ⟨?_, rfl⟩⟩
  rw [first]
  exact List.mem_cons_of_mem _ mem

/-- Writing the `next` of an own element keeps the free list sound. -/
theorem FreelistState.Sound.write {fe : ν} (sound : fs.Sound g) (own : g.owner fe = some t)
    (value : Pac ν) : { fs with next := Function.update fs.next fe value }.Sound g where
  top := sound.top
  threaded := sound.threaded.congr fun r mem =>
    Function.update_of_ne (sound.notFree own r mem) value fs.next
  nodup := sound.nodup
  published := sound.published
  bottom := sound.bottom
  unused := sound.unused
  unowned := sound.unowned

/-- Writing the `next` of an own element is nothing to the others. -/
theorem FreelistState.Sound.write_rely {fe : ν} (sound : fs.Sound g) (own : g.owner fe = some t)
    {t' : ι} (other : t' ≠ t) (value : Pac ν) :
    FreelistRely t' fs g { fs with next := Function.update fs.next fe value } g := by
  refine ⟨fun _ => Iff.rfl, fun n own' => ?_, fun _ h => h, fun _ h => h, fun r mem _ => ⟨mem, ?_⟩⟩
  · refine Function.update_of_ne ?_ _ _
    rintro rfl
    exact other (Option.some.inj (own'.symm.trans own))
  · exact Function.update_of_ne (sound.notFree own r mem) _ _

omit [DecidableEq ν] in
/-- A fresh stamp is no other stamp that is in use. -/
theorem FreelistState.Sound.draw {counter : ℕ} (sound : fs.Sound g)
    (fresh : counter = fs.abaCounter + 1) (t : ι) :
    { fs with abaCounter := counter }.Sound (g.draw t counter) := by
  have unused := sound.unused counter (by omega)
  have inUse : ∀ c, g.stamp c ≠ .unused → Function.update g.stamp counter (.pending t) c =
      g.stamp c := by
    intro c used
    refine Function.update_of_ne ?_ _ _
    rintro rfl
    exact used unused
  refine ⟨sound.top, sound.threaded, sound.nodup, fun r mem => ?_, ?_, fun c above => ?_,
    sound.unowned⟩
  · have published := sound.published r mem
    exact (inUse r.2 (by rw [published]; simp)).trans published
  · exact (inUse 0 (by rw [sound.bottom]; simp)).trans sound.bottom
  · have above : counter < c := above
    show Function.update g.stamp counter (.pending t) c = .unused
    rw [Function.update_of_ne (by omega)]
    exact sound.unused c (by omega)

omit [DecidableEq ν] in
/-- Drawing a stamp is nothing to the others. -/
theorem FreelistState.Sound.draw_rely {counter : ℕ} (sound : fs.Sound g)
    (fresh : counter = fs.abaCounter + 1) {t' : ι} :
    FreelistRely t' fs g { fs with abaCounter := counter } (g.draw t counter) := by
  have unused := sound.unused counter (by omega)
  have inUse : ∀ c, g.stamp c ≠ .unused → Function.update g.stamp counter (.pending t) c =
      g.stamp c := by
    intro c used
    refine Function.update_of_ne ?_ _ _
    rintro rfl
    exact used unused
  refine ⟨fun _ => Iff.rfl, fun _ _ => rfl, fun c h => ?_, fun c h => ?_,
    fun r mem _ => ⟨mem, rfl⟩⟩
  · exact (inUse c (by rw [h]; simp)).trans h
  · exact (inUse c (by rw [h]; simp)).trans h

/-- Giving an element back keeps the free list sound. -/
theorem FreelistState.Sound.give {fe : ν} {counter : ℕ} (sound : fs.Sound g)
    (away : ∀ r ∈ g.free, r.1 ≠ fe) (drawn : counter ≤ fs.abaCounter)
    (linked : fs.next fe = fs.top) :
    { fs with top := ⟨some fe, counter⟩ }.Sound (g.give fe counter) := by
  have stays : ∀ c, g.stamp c = .published →
      Function.update g.stamp counter .published c = .published := by
    intro c published
    by_cases same : c = counter
    · rw [same, Function.update_self]
    · rw [Function.update_of_ne same, published]
  refine ⟨rfl, ⟨linked.trans sound.top, sound.threaded⟩, ?_, ?_, stays 0 sound.bottom, ?_, ?_⟩
  · refine List.nodup_cons.mpr ⟨fun mem => ?_, sound.nodup⟩
    obtain ⟨r, mem, same⟩ := List.mem_map.mp mem
    exact away r mem same
  · intro r mem
    rcases List.mem_cons.mp mem with rfl | before
    · exact Function.update_self _ _ _
    · exact stays r.2 (sound.published r before)
  · intro c above
    show Function.update g.stamp counter .published c = .unused
    have above : fs.abaCounter < c := above
    rw [Function.update_of_ne (by omega)]
    exact sound.unused c above
  · intro r mem
    show Function.update g.owner fe none r.1 = none
    rcases List.mem_cons.mp mem with rfl | before
    · exact Function.update_self _ _ _
    · rw [Function.update_of_ne (away r before)]
      exact sound.unowned r before

/-- Giving an element back is nothing to the others: its stamp was never published. -/
theorem FreelistRely.give {fe : ν} {counter : ℕ} (own : g.owner fe = some t)
    (pending : g.stamp counter = .pending t) {t' : ι} (other : t' ≠ t) (top : Pac ν) :
    FreelistRely t' fs g { fs with top := top } (g.give fe counter) := by
  refine ⟨fun n => ?_, fun _ _ => rfl, fun c published => ?_, fun c mine => ?_,
    fun r mem published => ?_⟩
  · show Function.update g.owner fe none n = some t' ↔ _
    by_cases same : n = fe
    · subst same
      rw [Function.update_self, own]
      simp [Ne.symm other]
    · rw [Function.update_of_ne same]
  · show Function.update g.stamp counter .published c = .published
    by_cases same : c = counter
    · rw [same, Function.update_self]
    · rw [Function.update_of_ne same, published]
  · show Function.update g.stamp counter .published c = .pending t'
    rw [Function.update_of_ne, mine]
    rintro rfl
    rw [mine] at pending
    exact other (Stamp.pending.inj pending)
  · rcases List.mem_cons.mp mem with rfl | before
    · rw [show g.stamp counter = .published from published] at pending
      cases pending
    · exact ⟨before, rfl⟩

/-- **What an access of `freelist_push` does.**  The free list stays sound, the others
are not concerned, and either the call goes on, with the stack and the owners as they
were, or it returns with the element given back. -/
theorem FreelistState.Sound.push {fe : ν} {pc : PushPc ν} {result : Option (PushPc ν)}
    (sound : fs.Sound g) (here : PushHere t fs g fe pc)
    (headroom : fs.abaCounter + 1 < atomValues) (moves : fs.pushStep fe pc = (fs', result)) :
    ∃ g', fs'.Sound g' ∧ (∀ t', t' ≠ t → FreelistRely t' fs g fs' g') ∧
      ((∃ pc', result = some pc' ∧ PushHere t fs' g' fe pc' ∧ g'.free = g.free ∧
          g'.owner = g.owner) ∨
        (result = none ∧ ∃ counter, g' = g.give fe counter)) := by
  cases pc with
  | increment =>
      cases moves
      have fresh := abstractionIncrement_eq headroom
      refine ⟨g.draw t _, sound.draw fresh t, fun _ _ => sound.draw_rely fresh,
        .inl ⟨_, rfl, ⟨here, Function.update_self _ _ _⟩, rfl, rfl⟩⟩
  | readPointer counter | readCounter counter pointer =>
      cases moves
      exact ⟨g, sound, fun t' _ => .refl t' fs g, .inl ⟨_, rfl, here, rfl, rfl⟩⟩
  | writePointer counter original =>
      cases moves
      refine ⟨g, sound.write here.1 _, fun _ other => sound.write_rely here.1 other _,
        .inl ⟨_, rfl, ⟨here, ?_⟩, rfl, rfl⟩⟩
      simp
  | writeCounter counter original =>
      cases moves
      obtain ⟨mine, written⟩ := here
      refine ⟨g, sound.write mine.1 _, fun _ other => sound.write_rely mine.1 other _,
        .inl ⟨_, rfl, ⟨mine, ?_⟩, rfl, rfl⟩⟩
      simp [written]
  | dcas counter original =>
      obtain ⟨⟨own, pending⟩, written⟩ := here
      by_cases same : fs.top = original
      · subst same
        simp only [pushStep, abstractionDcas_self] at moves
        cases moves
        have drawn : counter ≤ fs.abaCounter := by
          by_contra above
          rw [sound.unused counter (not_le.mp above)] at pending
          cases pending
        exact ⟨_, sound.give (sound.notFree own) drawn written,
          fun _ other => .give own pending other _, .inr ⟨rfl, counter, rfl⟩⟩
      · simp only [pushStep, abstractionDcas_of_ne same] at moves
        cases moves
        exact ⟨g, sound, fun t' _ => .refl t' fs g, .inl ⟨_, rfl, ⟨own, pending⟩, rfl, rfl⟩⟩

/-! ## A call by itself -/

/-- The accesses of a call of `freelist_push`, as many as it is given. -/
def FreelistState.pushRun (fs : FreelistState ν) (fe : ν) :
    ℕ → PushPc ν → FreelistState ν × Option (PushPc ν)
  | 0, pc => (fs, some pc)
  | n + 1, pc =>
      match fs.pushStep fe pc with
      | (fs', none) => (fs', none)
      | (fs', some pc') => fs'.pushRun fe n pc'

/-- The accesses of a call of `freelist_pop`, as many as it is given. -/
def FreelistState.popRun (fs : FreelistState ν) : ℕ → PopPc ν → FreelistState ν × PopResult ν
  | 0, pc => (fs, .goesOn pc)
  | n + 1, pc =>
      match fs.popStep pc with
      | (fs', .returns fe) => (fs', .returns fe)
      | (fs', .goesOn pc') => fs'.popRun n pc'

/-- What `freelist_pop` does with no other thread about. -/
def FreelistState.pop (fs : FreelistState ν) : FreelistState ν × Option ν :=
  match fs.top.pointer with
  | none => (fs, none)
  | some fe => ({ fs with top := fs.next fe }, some fe)

/-- Its at most five accesses do that. -/
theorem FreelistState.popRun_eq (fs : FreelistState ν) :
    fs.popRun 5 .readCounter = (fs.pop.1, .returns fs.pop.2) := by
  obtain ⟨⟨pointer, counter⟩, abaCounter, elementCount, next⟩ := fs
  cases pointer with
  | none => rfl
  | some fe => simp [popRun, popStep, popLoop, pop, abstractionDcas_self]

/-- What `freelist_push` does with no other thread about. -/
def FreelistState.push (fs : FreelistState ν) (fe : ν) : FreelistState ν where
  top := ⟨some fe, abstractionIncrement fs.abaCounter⟩
  abaCounter := abstractionIncrement fs.abaCounter
  elementCount := fs.elementCount
  next := Function.update fs.next fe fs.top

/-- Its six accesses do that. -/
theorem FreelistState.pushRun_eq (fs : FreelistState ν) (fe : ν) :
    fs.pushRun fe 6 .increment = (fs.push fe, none) := by
  simp [pushRun, pushStep, push, abstractionDcas_self]

/-- A push with no other thread about puts the element on the stack. -/
theorem FreelistState.Sound.pushAlone {fe : ν} (sound : fs.Sound g)
    (away : ∀ r ∈ g.free, r.1 ≠ fe) (unowned : g.owner fe = none)
    (headroom : fs.abaCounter + 1 < atomValues) :
    ∃ counter, (fs.push fe).Sound (g.give fe counter) ∧ (g.give fe counter).owner = g.owner := by
  have fresh := abstractionIncrement_eq headroom
  have linked : ({ fs with
      abaCounter := abstractionIncrement fs.abaCounter
      next := Function.update fs.next fe fs.top } : FreelistState ν).Sound g :=
    { top := sound.top
      threaded := sound.threaded.congr fun r mem =>
        Function.update_of_ne (away r mem) fs.top fs.next
      nodup := sound.nodup
      published := sound.published
      bottom := sound.bottom
      unused := fun c above => sound.unused c (by
        have above : abstractionIncrement fs.abaCounter < c := above
        omega)
      unowned := sound.unowned }
  refine ⟨_, linked.give away le_rfl (Function.update_self _ _ _), ?_⟩
  funext n
  show Function.update g.owner fe none n = g.owner n
  by_cases same : n = fe
  · rw [same, Function.update_self, unowned]
  · rw [Function.update_of_ne same]

/-- `freelist_new`: a free list of the elements the allocator gives out, pushed one by
one; what their `next` holds before is arbitrary. -/
def freelistNew (malloced : ν → Pac ν) (elements : List ν) : FreelistState ν :=
  elements.foldl (fun fs fe => { fs.push fe with elementCount := fs.elementCount + 1 })
    { top := ⟨none, 0⟩, abaCounter := 0, elementCount := 0, next := malloced }

variable (ι) in
/-- A new free list is sound, with its last element on top. -/
theorem freelistNew_sound (malloced : ν → Pac ν) {elements : List ν} (distinct : elements.Nodup)
    (few : elements.length < atomValues) :
    ∃ g : FreelistGhost ι ν, (freelistNew malloced elements).Sound g ∧
      g.free.map Prod.fst = elements.reverse ∧ (∀ n, g.owner n = none) ∧
      (freelistNew malloced elements).abaCounter = elements.length ∧
      (freelistNew malloced elements).elementCount = elements.length := by
  induction elements using List.reverseRecOn with
  | nil =>
      refine ⟨⟨[], fun c => if c = 0 then .published else .unused, fun _ => none⟩,
        ⟨rfl, trivial, List.nodup_nil, by simp, rfl, fun c above => ?_, by simp⟩, rfl,
        fun _ => rfl, rfl, rfl⟩
      have above : 0 < c := above
      exact if_neg (by omega)
  | append_singleton front fe ih =>
      rw [List.length_append, List.length_singleton] at few ⊢
      obtain ⟨distinctFront, -, apart⟩ := List.nodup_append.mp distinct
      obtain ⟨g, sound, spells, unowned, counter, count⟩ := ih distinctFront (by omega)
      have away : ∀ r ∈ g.free, r.1 ≠ fe := by
        intro r mem
        have listed : r.1 ∈ front.reverse := spells ▸ List.mem_map_of_mem mem
        exact apart r.1 (List.mem_reverse.mp listed) fe (List.mem_singleton_self _)
      have headroom : (freelistNew malloced front).abaCounter + 1 < atomValues := by omega
      obtain ⟨stamp, sound', owners⟩ := sound.pushAlone away (unowned fe) headroom
      have grown : freelistNew malloced (front ++ [fe]) =
          { (freelistNew malloced front).push fe with
            elementCount := (freelistNew malloced front).elementCount + 1 } := by
        rw [freelistNew, List.foldl_append]
        rfl
      rw [grown]
      refine ⟨g.give fe stamp, ⟨sound'.top, sound'.threaded, sound'.nodup, sound'.published,
        sound'.bottom, sound'.unused, sound'.unowned⟩, ?_, ?_, ?_, ?_⟩
      · rw [List.reverse_append, List.reverse_singleton, ← spells]
        rfl
      · intro n
        rw [owners]
        exact unowned n
      · exact (abstractionIncrement_eq headroom).trans (by rw [counter])
      · exact congrArg (· + 1) count

end Ghost

end Jacks
