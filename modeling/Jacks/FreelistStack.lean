import Mathlib.Data.Fintype.Basic
import Jacks.Freelist

/-!
# The free list is a stack

The free list by itself, used by any number of threads that push only what they, or
others, have popped: whatever the order of the accesses, its pops and pushes take effect
one at a time, last in first out (`freelist_is_stack`), and no element is handed out
twice without having come back (`freelist_hands_out_once`).
-/

namespace Jacks

open Foundations

universe u v

/-! ## Stacks -/

/-- What is observed of a stack in use. -/
inductive StackObs (ι : Type v) (ν : Type u)
  | popped (t : ι) (fe : Option ν)
  | pushed (t : ι) (fe : ν)
  deriving DecidableEq

/-- A stack: a pop takes the first element, if there is one; an element that is on it is
not pushed. -/
def stackSystem (ι : Type v) {ν : Type u} [DecidableEq ν] (init : List ν) :
    TraceSystem (List ν) (ι × Option ν) (StackObs ι ν) where
  init := init
  next
    | stack, (t, none) => some (stack.tail, some (.popped t stack.head?))
    | stack, (t, some fe) => if fe ∈ stack then none else some (fe :: stack, some (.pushed t fe))

section Counts

variable {ι : Type v} {ν : Type u} [DecidableEq ν]

/-- How often an element was handed out. -/
def handouts (history : List (StackObs ι ν)) (n : ν) : ℕ :=
  history.countP fun
    | .popped _ fe => fe = some n
    | .pushed _ _ => false

/-- How often an element was given back. -/
def givebacks (history : List (StackObs ι ν)) (n : ν) : ℕ :=
  history.countP fun
    | .popped _ _ => false
    | .pushed _ fe => fe = n

theorem handouts_concat (history : List (StackObs ι ν)) (x : StackObs ι ν) (n : ν) :
    handouts (history ++ [x]) n = handouts history n + handouts [x] n := by
  rw [handouts, List.countP_append, handouts, handouts]

theorem givebacks_concat (history : List (StackObs ι ν)) (x : StackObs ι ν) (n : ν) :
    givebacks (history ++ [x]) n = givebacks history n + givebacks [x] n := by
  rw [givebacks, List.countP_append, givebacks, givebacks]

/-- A pop hands out what it takes off. -/
theorem handouts_pop (t : ι) (stack : List ν) (n : ν) :
    handouts [.popped t stack.head?] n + stack.tail.count n = stack.count n := by
  cases stack with
  | nil => simp [handouts]
  | cons m rest =>
      by_cases same : m = n
      · subst same
        simp [handouts, Nat.add_comm]
      · simp [handouts, same]

/-- A push gives back what it puts on. -/
theorem givebacks_push (t : ι) (fe : ν) (stack : List ν) (n : ν) :
    givebacks [.pushed t fe] n + stack.count n = (fe :: stack).count n := by
  by_cases same : fe = n
  · subst same
    simp [givebacks, Nat.add_comm]
  · simp [givebacks, same]

/-- **An element is handed out as often as it was there to be handed out.** -/
theorem stackSystem_counts {init stack : List ν} {history : List (StackObs ι ν)}
    (distinct : init.Nodup) (run : (stackSystem ι init).Reaches stack history) :
    stack.Nodup ∧ ∀ n, handouts history n + stack.count n = givebacks history n + init.count n := by
  refine run.induct (I := fun stack history => stack.Nodup ∧
    ∀ n, handouts history n + stack.count n = givebacks history n + init.count n) ?_ ?_
  · exact ⟨distinct, fun n => rfl⟩
  · rintro stack history ⟨t, fe⟩ stack' o - ⟨nodup, counts⟩ - moves
    cases fe with
    | none =>
        cases moves
        refine ⟨nodup.sublist (List.tail_sublist _), fun n => ?_⟩
        have taken := handouts_pop t stack n
        have none_given : givebacks [StackObs.popped t stack.head?] n = 0 := by simp [givebacks]
        have before := counts n
        rw [Option.toList_some, handouts_concat, givebacks_concat]
        omega
    | some fe =>
        simp only [stackSystem] at moves
        split_ifs at moves with present
        cases moves
        refine ⟨List.nodup_cons.mpr ⟨present, nodup⟩, fun n => ?_⟩
        have given := givebacks_push t fe stack n
        have none_taken : handouts [StackObs.pushed t fe] n = 0 := by simp [handouts]
        have before := counts n
        rw [Option.toList_some, handouts_concat, givebacks_concat]
        omega

end Counts

/-! ## The free list in use -/

/-- The free list, and which elements its users have. -/
structure FreelistUse (ν : Type u) where
  fs : FreelistState ν
  out : ν → Bool

/-- A thread that uses the free list. -/
inductive FreelistPc (ν : Type u)
  | outside
  | popping (pc : PopPc ν)
  | pushing (fe : ν) (pc : PushPc ν)
  deriving DecidableEq

/-- The element that a call of `freelist_push` is under way with. -/
def FreelistPc.held {ν : Type u} : FreelistPc ν → Option ν
  | .pushing fe _ => some fe
  | .outside | .popping _ => none

/-- A call, or the next access. -/
inductive FreelistAct (ν : Type u)
  | pop
  | push (fe : ν)
  | go
  deriving DecidableEq

namespace FreelistUse

variable {ι : Type v} {ν : Type u} [DecidableEq ν]

/-- One step of a thread that uses the free list; what is pushed is an element that the
users have. -/
def advance : Advance ι (FreelistUse ν) (FreelistPc ν) (FreelistAct ν) (StackObs ι ν)
  | _, m, .outside, .pop => some (m, .popping .readCounter, none)
  | _, m, .outside, .push fe =>
      if m.out fe then
        some ({ m with out := Function.update m.out fe false }, .pushing fe .increment, none)
      else none
  | t, m, .popping pc, .go =>
      match m.fs.popStep pc with
      | (fs, .goesOn pc') => some ({ m with fs := fs }, .popping pc', none)
      | (fs, .returns none) => some ({ m with fs := fs }, .outside, some (.popped t none))
      | (fs, .returns (some fe)) =>
          some ({ fs := fs, out := Function.update m.out fe true }, .outside,
            some (.popped t (some fe)))
  | t, m, .pushing fe pc, .go =>
      match m.fs.pushStep fe pc with
      | (fs, some pc') => some ({ m with fs := fs }, .pushing fe pc', none)
      | (fs, none) => some ({ m with fs := fs }, .outside, some (.pushed t fe))
  | _, _, _, _ => none

/-- The memory is sound, and an element is either with the users, or on the stack, or being
pushed by a thread. -/
structure Sound (elements : List ν) (m : FreelistUse ν) (g : FreelistGhost ι ν) : Prop where
  list : m.fs.Sound g
  out : ∀ n, m.out n = true → g.owner n = none ∧ ∀ r ∈ g.free, r.1 ≠ n
  complete : ∀ n ∈ elements, m.out n = true ∨ (∃ t, g.owner n = some t) ∨ ∃ r ∈ g.free, r.1 = n

/-- What a thread has read and written. -/
def ReadHere (t : ι) (m : FreelistUse ν) (g : FreelistGhost ι ν) : FreelistPc ν → Prop
  | .outside => True
  | .popping pc => PopHere m.fs g pc
  | .pushing fe pc => PushHere t m.fs g fe pc

/-- What a thread may count on. -/
structure Here (t : ι) (m : FreelistUse ν) (g : FreelistGhost ι ν) (pc : FreelistPc ν) : Prop where
  owner : ∀ n, g.owner n = some t ↔ pc.held = some n
  read : ReadHere t m g pc

omit [DecidableEq ν] in
theorem Here.stable {t : ι} {m m' : FreelistUse ν} {g g' : FreelistGhost ι ν} {pc : FreelistPc ν}
    (here : Here t m g pc) (rely : FreelistRely t m.fs g m'.fs g') : Here t m' g' pc := by
  refine ⟨fun n => (rely.owner n).trans (here.owner n), ?_⟩
  have read := here.read
  cases pc with
  | outside => trivial
  | popping => exact PopHere.stable read rely
  | pushing => exact PushHere.stable read rely

/-- After a step the free list is sound, the thread is where it may be, the others are let
be, and the stack has made the step. -/
def Kept (elements : List ν) (t : ι) (m : FreelistUse ν) (g : FreelistGhost ι ν)
    (m' : FreelistUse ν) (p : FreelistPc ν) (o : Option (StackObs ι ν)) : Prop :=
  ∃ g', m'.Sound elements g' ∧ Here t m' g' p ∧
    (∀ t', t' ≠ t → FreelistRely t' m.fs g m'.fs g') ∧
    (stackSystem ι elements).Answers t (g.free.map Prod.fst) (g'.free.map Prod.fst) o

section Kept

variable {elements : List ν} {t : ι} {m m' : FreelistUse ν} {g : FreelistGhost ι ν}
variable {p : FreelistPc ν} {o : Option (StackObs ι ν)}

/-- An element of the users goes to a call of `freelist_push`. -/
theorem Sound.pushCalled {fe : ν} (sound : m.Sound elements g) (theirs : m.out fe = true) :
    Sound elements { m with out := Function.update m.out fe false } (g.setOwner fe (some t)) := by
  have setOwner : (g.setOwner fe (some t)).owner = Function.update g.owner fe (some t) := rfl
  refine ⟨sound.list.setOwner (sound.out fe theirs).2 _, fun n stillOut => ?_, fun n mem => ?_⟩
  · have apart : n ≠ fe := by
      rintro rfl
      have stillOut : Function.update m.out n false n = true := stillOut
      rw [Function.update_self] at stillOut
      cases stillOut
    have stillOut : Function.update m.out fe false n = true := stillOut
    rw [Function.update_of_ne apart] at stillOut
    rw [setOwner, Function.update_of_ne apart]
    exact sound.out n stillOut
  · show Function.update m.out fe false n = true ∨ _
    by_cases same : n = fe
    · exact .inr (.inl ⟨t, by rw [setOwner, same, Function.update_self]⟩)
    · rw [setOwner, Function.update_of_ne same, Function.update_of_ne same]
      exact sound.complete n mem

/-- The first element of the list goes to the users. -/
theorem Sound.popped {fs : FreelistState ν} {fe : ν} {counter : ℕ} {rest : List (ν × ℕ)}
    (sound : m.Sound elements g) (first : g.free = (fe, counter) :: rest)
    (list : fs.Sound (g.take fe none rest)) :
    Sound elements { fs := fs, out := Function.update m.out fe true } (g.take fe none rest) := by
  have takeOwner : (g.take fe none rest).owner = Function.update g.owner fe none := rfl
  have nodup := sound.list.nodup
  rw [first] at nodup
  refine ⟨list, fun n isOut => ?_, fun n mem => ?_⟩
  · rw [takeOwner]
    by_cases same : n = fe
    · subst same
      refine ⟨Function.update_self _ _ _, fun r mem same => ?_⟩
      have listed : r.1 ∈ rest.map Prod.fst := List.mem_map_of_mem mem
      exact (List.nodup_cons.mp nodup).1 (same ▸ listed)
    · have before : m.out n = true := (Function.update_of_ne same _ _).symm.trans isOut
      obtain ⟨unowned, away⟩ := sound.out n before
      rw [Function.update_of_ne same]
      refine ⟨unowned, fun r mem => away r ?_⟩
      rw [first]
      exact List.mem_cons_of_mem _ mem
  · show Function.update m.out fe true n = true ∨ _
    by_cases same : n = fe
    · exact .inl (by rw [same, Function.update_self])
    · rw [takeOwner, Function.update_of_ne same, Function.update_of_ne same]
      refine (sound.complete n mem).imp_right (Or.imp_right ?_)
      rintro ⟨r, isFree, rfl⟩
      rw [first] at isFree
      rcases List.mem_cons.mp isFree with rfl | isFree
      · exact absurd rfl same
      · exact ⟨r, isFree, rfl⟩

/-- The element of a call of `freelist_push` goes to the list. -/
theorem Sound.pushed {fs : FreelistState ν} {fe : ν} {counter : ℕ} (sound : m.Sound elements g)
    (mine : g.owner fe = some t) (list : fs.Sound (g.give fe counter)) :
    Sound elements { m with fs := fs } (g.give fe counter) := by
  have giveOwner : (g.give fe counter).owner = Function.update g.owner fe none := rfl
  refine ⟨list, fun n isOut => ?_, fun n mem => ?_⟩
  · obtain ⟨unowned, away⟩ := sound.out n isOut
    have apart : n ≠ fe := by
      rintro rfl
      rw [mine] at unowned
      cases unowned
    rw [giveOwner, Function.update_of_ne apart]
    refine ⟨unowned, fun r mem => ?_⟩
    rcases List.mem_cons.mp mem with rfl | before
    · exact Ne.symm apart
    · exact away r before
  · by_cases same : n = fe
    · exact .inr (.inr ⟨(fe, counter), List.mem_cons_self, same.symm⟩)
    · rw [giveOwner, Function.update_of_ne same]
      refine (sound.complete n mem).imp_right (Or.imp_right ?_)
      rintro ⟨r, isFree, rfl⟩
      exact ⟨r, List.mem_cons_of_mem _ isFree, rfl⟩

theorem kept_outside {a : FreelistAct ν} (sound : m.Sound elements g) (here : Here t m g .outside)
    (taken : advance t m .outside a = some (m', p, o)) : Kept elements t m g m' p o := by
  have nothing : ∀ n, g.owner n ≠ some t := fun n own => by cases (here.owner n).mp own
  cases a with
  | pop =>
      cases taken
      exact ⟨g, sound, ⟨here.owner, trivial⟩, fun t' _ => .refl t' _ g, .idle⟩
  | push fe =>
      simp only [advance] at taken
      split_ifs at taken with theirs
      cases taken
      refine ⟨g.setOwner fe (some t), sound.pushCalled theirs, ⟨owns_update_some nothing fe, ?_⟩,
        fun t' other => ?_, .idle⟩
      · exact Function.update_self fe (some t) g.owner
      · refine FreelistRely.setOwner ?_ fun same => other (Option.some.inj same).symm
        rw [(sound.out fe theirs).1]
        simp
  | go => cases taken

theorem kept_popping {pc : PopPc ν} (sound : m.Sound elements g) (here : Here t m g (.popping pc))
    (taken : advance t m (.popping pc) .go = some (m', p, o)) : Kept elements t m g m' p o := by
  obtain ⟨owner, read⟩ := here
  simp only [advance] at taken
  split at taken
  · next fs pc' moves =>
      cases taken
      obtain ⟨rfl, _, same, here'⟩ | ⟨-, same, -⟩ | ⟨_, _, _, same, -⟩ :=
        sound.list.pop read moves
      · cases same
        exact ⟨g, sound, ⟨owner, here'⟩, fun t' _ => .refl t' _ g, .idle⟩
      · cases same
      · cases same
  · next fs moves =>
      cases taken
      obtain ⟨-, _, same, -⟩ | ⟨rfl, -, empty⟩ | ⟨_, _, _, same, -⟩ := sound.list.pop read moves
      · cases same
      · refine ⟨g, sound, ⟨owner, trivial⟩, fun t' _ => .refl t' _ g, .step (b := none) ?_⟩
        rw [empty]
        rfl
      · cases same
  · next fs fe moves =>
      cases taken
      obtain ⟨-, _, same, -⟩ | ⟨-, same, -⟩ | ⟨_, counter, rest, same, first, rfl⟩ :=
        sound.list.pop read moves
      · cases same
      · cases same
      · cases same
        refine ⟨g.take fe none rest, sound.popped first (sound.list.take first none),
          ⟨owns_update_none fun n own => ?_, trivial⟩,
          fun t' _ => sound.list.take_rely first (by simp) _, .step (b := none) ?_⟩
        · cases (owner n).mp own
        · rw [first]
          rfl

theorem kept_pushing {fe : ν} {pc : PushPc ν} (sound : m.Sound elements g)
    (here : Here t m g (.pushing fe pc)) (headroom : m.fs.abaCounter + 1 < atomValues)
    (taken : advance t m (.pushing fe pc) .go = some (m', p, o)) : Kept elements t m g m' p o := by
  obtain ⟨owner, read⟩ := here
  have mine : g.owner fe = some t := (owner fe).mpr rfl
  simp only [advance] at taken
  split at taken
  · next fs pc' moves =>
      cases taken
      obtain ⟨g', list, rely, ⟨_, same, here', free, owners⟩ | ⟨same, -⟩⟩ :=
        sound.list.push read headroom moves
      · cases same
        refine ⟨g', ⟨list, ?_, ?_⟩, ⟨?_, here'⟩, rely, ?_⟩
        · rw [owners, free]
          exact sound.out
        · rw [owners, free]
          exact sound.complete
        · rw [owners]
          exact owner
        · rw [free]
          exact .idle
      · cases same
  · next fs moves =>
      cases taken
      obtain ⟨g', list, rely, ⟨_, same, -⟩ | ⟨-, counter, rfl⟩⟩ :=
        sound.list.push read headroom moves
      · cases same
      · refine ⟨g.give fe counter, sound.pushed mine list,
          ⟨owns_update_none fun n own => ?_, trivial⟩, rely, .step (b := some fe) ?_⟩
        · exact (Option.some.inj ((owner n).mp own)).symm
        · have absent : fe ∉ g.free.map Prod.fst := by
            intro listed
            obtain ⟨r, mem, same⟩ := List.mem_map.mp listed
            exact sound.list.notFree mine r mem same
          show (stackSystem ι elements).next _ (t, some fe) = _
          simp only [stackSystem, if_neg absent]
          rfl

end Kept

variable [DecidableEq ι]

/-- The proof outline of the free list. -/
def outline (elements : List ν) : Outline (ι := ι) (advance (ν := ν))
    (fun s _ _ => s.mem.fs.abaCounter + 1 < atomValues) (stackSystem ι elements)
    (FreelistGhost ι ν) where
  spec g := g.free.map Prod.fst
  shared := Sound elements
  here := Here
  rely t m g m' g' := FreelistRely t m.fs g m'.fs g'
  stable _ _ here rely := here.stable rely
  step := by
    intro s history t a m p o g headroom sound here taken
    have own := here t
    cases at_pc : s.pc t with
    | outside =>
        rw [at_pc] at own taken
        exact kept_outside sound own taken
    | popping pc =>
        rw [at_pc] at own taken
        cases a with
        | go => exact kept_popping sound own taken
        | _ => cases taken
    | pushing fe pc =>
        rw [at_pc] at own taken
        cases a with
        | go => exact kept_pushing sound own headroom taken
        | _ => cases taken

end FreelistUse

/-- A new free list in use: the users have nothing yet. -/
def freelistSystem (ι : Type v) {ν : Type u} [DecidableEq ι] [DecidableEq ν] (malloced : ν → Pac ν)
    (elements : List ν) :
    TraceSystem (Threads ι (FreelistUse ν) (FreelistPc ν)) (ι × FreelistAct ν) (StackObs ι ν) :=
  Advance.system FreelistUse.advance
    { mem := { fs := freelistNew malloced elements, out := fun _ => false }
      pc := fun _ => .outside }

section Runs

variable {ι : Type v} {ν : Type u} [DecidableEq ι] [DecidableEq ν]
variable {malloced : ν → Pac ν} {elements : List ν}
variable {s : Threads ι (FreelistUse ν) (FreelistPc ν)} {history : List (StackObs ι ν)}

/-- The outline describes the free list in every state, and the stack has made its steps. -/
theorem freelistSystem_describes (distinct : elements.Nodup) (few : elements.length < atomValues)
    (run : (freelistSystem ι malloced elements).ReachesUnder
      (fun s _ _ => s.mem.fs.abaCounter + 1 < atomValues) s history) :
    ∃ g, (FreelistUse.outline elements.reverse).Describes s g ∧
      (stackSystem ι elements.reverse).Reaches (g.free.map Prod.fst) history := by
  refine (FreelistUse.outline elements.reverse).reaches ?_ run
  obtain ⟨g, sound, spells, unowned, -⟩ := freelistNew_sound ι malloced distinct few
  refine ⟨g, ⟨⟨sound, fun n isOut => (by cases isOut), fun n mem => ?_⟩,
    fun t => ⟨fun n => ?_, trivial⟩⟩, spells⟩
  · rw [← spells] at mem
    exact .inr (.inr (List.mem_map.mp mem))
  · rw [unowned n]
    show none = some t ↔ none = some n
    simp

/-- **The free list is a stack** in every interleaving of its accesses, as long as its
counter does not come round: pops and pushes take effect one at a time, and what is on it
is what the memory spells from the top. -/
theorem freelist_is_stack (distinct : elements.Nodup) (few : elements.length < atomValues)
    (run : (freelistSystem ι malloced elements).ReachesUnder
      (fun s _ _ => s.mem.fs.abaCounter + 1 < atomValues) s history) :
    ∃ cells : List (ν × ℕ), s.mem.fs.top = (freeLinks ν).entry cells ∧
      (freeLinks ν).Threaded s.mem.fs.next cells ∧
      (stackSystem ι elements.reverse).Reaches (cells.map Prod.fst) history := by
  obtain ⟨g, described, reached⟩ := freelistSystem_describes distinct few run
  exact ⟨g.free, described.shared.list.top, described.shared.list.threaded, reached⟩

/-- Two threads pop at the same time, and at the same time give back what they got. -/
def popsAndPushes : List (Fin 2 × FreelistAct (Fin 2)) :=
  List.flatten [
    [(0, .pop), (1, .pop)],
    (List.replicate 5 [(0, .go), (1, .go)]).flatten,
    List.replicate 3 (1, .go),
    [(0, .push 1), (1, .push 0)],
    (List.replicate 6 [(0, .go), (1, .go)]).flatten,
    List.replicate 3 (1, .go)]

/-- What they observe. -/
def popsAndPushesHistory : List (StackObs (Fin 2) (Fin 2)) :=
  [.popped 0 (some 1), .popped 1 (some 0), .pushed 0 1, .pushed 1 0]

/-- A free list of two elements. -/
def twoElements : TraceSystem (Threads (Fin 2) (FreelistUse (Fin 2)) (FreelistPc (Fin 2)))
    (Fin 2 × FreelistAct (Fin 2)) (StackObs (Fin 2) (Fin 2)) :=
  freelistSystem (Fin 2) (fun _ => ⟨none, 0⟩) [0, 1]

theorem popsAndPushes_run : ∃ s,
    twoElements.exec twoElements.init [] popsAndPushes = some (s, popsAndPushesHistory) ∧
      twoElements.ReachesUnder (fun s _ _ => s.mem.fs.abaCounter + 1 < atomValues) s
        popsAndPushesHistory :=
  twoElements.exists_reachesUnder _ popsAndPushes (by decide +kernel) (by decide +kernel)

theorem freelist_is_stack_popsAndPushes :
    ∃ s, twoElements.exec twoElements.init [] popsAndPushes = some (s, popsAndPushesHistory) ∧
      ∃ cells : List (Fin 2 × ℕ), s.mem.fs.top = (freeLinks (Fin 2)).entry cells ∧
        (freeLinks (Fin 2)).Threaded s.mem.fs.next cells ∧
        (stackSystem (Fin 2) [1, 0]).Reaches (cells.map Prod.fst) popsAndPushesHistory := by
  obtain ⟨s, plays, run⟩ := popsAndPushes_run
  exact ⟨s, plays, freelist_is_stack (by decide) (by decide) run⟩

/-- An element is out: the users have it, or a call of `freelist_push` is under way with
it. -/
def IsOut (s : Threads ι (FreelistUse ν) (FreelistPc ν)) (n : ν) : Prop :=
  s.mem.out n = true ∨ ∃ t, (s.pc t).held = some n

instance decidableIsOut [Fintype ι] (s : Threads ι (FreelistUse ν) (FreelistPc ν)) (n : ν) :
    Decidable (IsOut s n) :=
  inferInstanceAs (Decidable (_ ∨ _))

omit [DecidableEq ι] in
/-- What is out is not on the stack, and what is not on the stack is out. -/
theorem isOut_iff {g : FreelistGhost ι ν} {n : ν}
    (described : (FreelistUse.outline elements).Describes s g) (isElement : n ∈ elements) :
    IsOut s n ↔ n ∉ g.free.map Prod.fst := by
  have sound : s.mem.Sound elements g := described.shared
  have owner : ∀ t, g.owner n = some t ↔ (s.pc t).held = some n :=
    fun t => (described.here t).owner n
  rw [List.mem_map]
  constructor
  · rintro (theirs | ⟨t, pushed⟩) ⟨r, isFree, rfl⟩
    · exact (sound.out _ theirs).2 r isFree rfl
    · exact sound.list.notFree ((owner t).mpr pushed) r isFree rfl
  · intro notFree
    obtain theirs | ⟨t, own⟩ | isFree := sound.complete n isElement
    · exact .inl theirs
    · exact .inr ⟨t, (owner t).mp own⟩
    · exact absurd isFree notFree

/-- **No element is handed out twice**: each was handed out once more than it was given back
if it is out, and as often if it is not. -/
theorem freelist_hands_out_once (distinct : elements.Nodup) (few : elements.length < atomValues)
    (run : (freelistSystem ι malloced elements).ReachesUnder
      (fun s _ _ => s.mem.fs.abaCounter + 1 < atomValues) s history) {n : ν}
    (isElement : n ∈ elements) :
    (IsOut s n → handouts history n = givebacks history n + 1) ∧
      (¬ IsOut s n → handouts history n = givebacks history n) := by
  obtain ⟨g, described, reached⟩ := freelistSystem_describes distinct few run
  have listed : n ∈ elements.reverse := List.mem_reverse.mpr isElement
  have distinct := List.nodup_reverse.mpr distinct
  obtain ⟨nodup, counts⟩ := stackSystem_counts distinct reached
  have balance := counts n
  rw [List.count_eq_one_of_mem distinct listed] at balance
  rw [isOut_iff described listed, not_not]
  constructor
  · intro notFree
    rw [List.count_eq_zero_of_not_mem notFree] at balance
    omega
  · intro isFree
    rw [List.count_eq_one_of_mem nodup isFree] at balance
    omega

/-- Both have popped; the first has given its element back, and the second is about to. -/
def popsAndOnePush : List (Fin 2 × FreelistAct (Fin 2)) :=
  List.flatten [
    [(0, .pop), (1, .pop)],
    (List.replicate 5 [(0, .go), (1, .go)]).flatten,
    List.replicate 3 (1, .go),
    [(0, .push 1), (1, .push 0)],
    (List.replicate 6 [(0, .go), (1, .go)]).flatten]

def popsAndOnePushHistory : List (StackObs (Fin 2) (Fin 2)) :=
  [.popped 0 (some 1), .popped 1 (some 0), .pushed 0 1]

theorem freelist_hands_out_once_popsAndOnePush : ∃ s,
    twoElements.exec twoElements.init [] popsAndOnePush = some (s, popsAndOnePushHistory) ∧
      (IsOut s 0 ∧
        handouts popsAndOnePushHistory 0 = givebacks popsAndOnePushHistory 0 + 1) ∧
      ¬ IsOut s 1 ∧ handouts popsAndOnePushHistory 1 = givebacks popsAndOnePushHistory 1 := by
  have played : (twoElements.exec twoElements.init [] popsAndOnePush).map (fun r =>
      (decide (IsOut r.1 0), decide (IsOut r.1 1), r.2)) =
        some (true, false, popsAndOnePushHistory) := by
    decide +kernel
  obtain ⟨⟨s, history⟩, plays, observed⟩ := Option.map_eq_some_iff.mp played
  obtain ⟨isOut, notOut, rfl⟩ : IsOut s 0 ∧ ¬ IsOut s 1 ∧ history = popsAndOnePushHistory := by
    simpa using observed
  have run : twoElements.ReachesUnder (fun s _ _ => s.mem.fs.abaCounter + 1 < atomValues) s
      popsAndOnePushHistory := .exec .init (by decide +kernel) plays
  exact ⟨s, plays,
    ⟨isOut, (freelist_hands_out_once (by decide) (by decide) run (by decide)).1 isOut⟩,
    notOut, (freelist_hands_out_once (by decide) (by decide) run (by decide)).2 notOut⟩

end Runs

end Jacks
