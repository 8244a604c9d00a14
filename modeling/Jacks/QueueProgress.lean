import Jacks.QueueGuarantees

/-!
# Calls that are left alone

A thread in a call of the lock-free queue needs no help: wherever the others have been
stopped, left alone it comes to the end of its call, and within a bound that depends
only on how far `enqueue` lags behind (`lockFreeQueue_obstruction_free`).

`Finishes` says it of a thread at a location; the lemmas come in the reverse order of the
program, so that each uses that of the location it leads to.  An attempt that was begun
before the others stopped may still fail, since what it has read may be stale; the next
one reads afresh and succeeds.
-/

namespace Jacks

open Foundations

universe u v w

variable {ι : Type w} {ν : Type u} {α : Type v} [DecidableEq ν]

/-- The thread, left alone, has returned after at most `n` accesses. -/
abbrev Finishes (t : ι) (n : ℕ) (qs : QueueState ν α) (pc : QueuePc ν α) : Prop :=
  Advance.Finishes QueueState.advance .go .idle t n qs pc

variable {t : ι} {qs : QueueState ν α}

/-! ## Giving an element back -/

section Push

variable {userData : α} {fe : ν} {counter : ℕ} {original : Pac ν}

theorem advance_push_made (fresh : qs.fs.top = original) :
    QueueState.advance t qs (.giveBack userData fe (.dcas counter original)) .go =
      some ({ qs with fs := { qs.fs with top := ⟨some fe, counter⟩ } }, .idle,
        some (.returned t userData)) := by
  simp [QueueState.advance, FreelistState.pushStep, fresh, abstractionDcas_self]

theorem advance_push_failed (stale : qs.fs.top ≠ original) :
    QueueState.advance t qs (.giveBack userData fe (.dcas counter original)) .go =
      some (qs, .giveBack userData fe (.writePointer counter qs.fs.top), none) := by
  simp [QueueState.advance, FreelistState.pushStep, abstractionDcas_of_ne stale]

/-- A swap on the top that was read afresh is made. -/
theorem finishes_push_fresh (fresh : qs.fs.top = original) :
    Finishes t 3 qs (.giveBack userData fe (.writePointer counter original)) :=
  .step rfl (.step rfl (.step (advance_push_made fresh) .done))

theorem finishes_push_dcas :
    Finishes t 4 qs (.giveBack userData fe (.dcas counter original)) := by
  by_cases fresh : qs.fs.top = original
  · exact .step (advance_push_made fresh) .done
  · exact .step (advance_push_failed fresh) (finishes_push_fresh rfl)

/-- `freelist_push` comes to its end. -/
theorem finishes_giveBack (pc : PushPc ν) : Finishes t 9 qs (.giveBack userData fe pc) := by
  have writeCounter : ∀ (qs : QueueState ν α) counter original,
      Finishes t 5 qs (.giveBack userData fe (.writeCounter counter original)) :=
    fun _ _ _ => .step rfl finishes_push_dcas
  have writePointer : ∀ (qs : QueueState ν α) counter original,
      Finishes t 6 qs (.giveBack userData fe (.writePointer counter original)) :=
    fun _ _ _ => .step rfl (writeCounter _ _ _)
  have readCounter : ∀ (qs : QueueState ν α) counter pointer,
      Finishes t 7 qs (.giveBack userData fe (.readCounter counter pointer)) :=
    fun _ _ _ => .step rfl (writePointer _ _ _)
  have readPointer : ∀ (qs : QueueState ν α) counter,
      Finishes t 8 qs (.giveBack userData fe (.readPointer counter)) :=
    fun _ _ => .step rfl (readCounter _ _ _)
  cases pc with
  | increment => exact .step rfl (readPointer _ _)
  | readPointer counter => exact (readPointer _ _).mono (by omega)
  | readCounter counter pointer => exact (readCounter _ _ _).mono (by omega)
  | writePointer counter original => exact (writePointer _ _ _).mono (by omega)
  | writeCounter counter original => exact (writeCounter _ _ _).mono (by omega)
  | dcas counter original => exact finishes_push_dcas.mono (by omega)

end Push

/-! ## Linking an element -/

/-- The elements from `enqueue` on. -/
structure QueueState.Behind (qs : QueueState ν α) (x : ν) (rest : List ν) : Prop where
  tail : qs.enqueue.pointer = some x
  threaded : (queueLinks ν).Threaded qs.nextPointer (x :: rest)

omit [DecidableEq ν] in
/-- They are the end of the queue. -/
theorem QueueState.Sound.split_of_behind {g : QueueGhost ι ν α} {x : ν} {rest : List ν}
    (sound : qs.Sound g) (behind : qs.Behind x rest) : ∃ front, g.queue = front ++ x :: rest := by
  obtain ⟨front, rest', split⟩ := List.append_of_mem (sound.tail_mem behind.tail)
  have threaded : (queueLinks ν).Threaded qs.nextPointer (x :: rest') :=
    Links.Threaded.suffix (split ▸ sound.threaded)
  obtain rfl := threaded.unique queueLinks_proper queueLinks_injective behind.threaded
  exact ⟨front, split⟩

section Link

variable {userData : α} {qe : ν}

theorem finishes_swing {enqueue : Pac ν} :
    Finishes t 1 qs (.internalQueue userData qe (.swing enqueue)) :=
  .step rfl .done

theorem advance_link_made {x : ν} {enqueue next : Pac ν} (points : enqueue.pointer = some x)
    (same : (qs.element x).next = next) :
    QueueState.advance t qs (.internalQueue userData qe (.link enqueue next)) .go =
      some (qs.setNext x ⟨some qe, counterPlusOne next.counter⟩,
        .internalQueue userData qe (.swing enqueue), some (.appended t userData)) := by
  simp [QueueState.advance, QueueState.linkStep, points, same, abstractionDcas_self]

theorem advance_link_failed {x : ν} {enqueue next : Pac ν} (points : enqueue.pointer = some x)
    (stale : (qs.element x).next ≠ next) :
    QueueState.advance t qs (.internalQueue userData qe (.link enqueue next)) .go =
      some (qs, .internalQueue userData qe .readPointer, none) := by
  simp [QueueState.advance, QueueState.linkStep, points, abstractionDcas_of_ne stale]

theorem advance_help_made {enqueue next : Pac ν} (current : qs.enqueue = enqueue) :
    QueueState.advance t qs (.internalQueue userData qe (.help enqueue next)) .go =
      some ({ qs with enqueue := ⟨next.pointer, counterPlusOne enqueue.counter⟩ },
        .internalQueue userData qe .readPointer, none) := by
  simp [QueueState.advance, QueueState.linkStep, current, abstractionDcas_self]

theorem advance_help_failed {enqueue next : Pac ν} (stale : qs.enqueue ≠ enqueue) :
    QueueState.advance t qs (.internalQueue userData qe (.help enqueue next)) .go =
      some (qs, .internalQueue userData qe .readPointer, none) := by
  simp [QueueState.advance, QueueState.linkStep, abstractionDcas_of_ne stale]

theorem advance_readNext {x : ν} {enqueue : Pac ν} (points : enqueue.pointer = some x) :
    QueueState.advance t qs (.internalQueue userData qe (.readNextPointer enqueue)) .go =
      some (qs, .internalQueue userData qe
        (.readNextCounter enqueue (qs.element x).next.pointer), none) := by
  simp [QueueState.advance, QueueState.linkStep, points]

theorem advance_readNextCounter {x : ν} {enqueue : Pac ν} {next : Option ν}
    (points : enqueue.pointer = some x) :
    QueueState.advance t qs (.internalQueue userData qe (.readNextCounter enqueue next)) .go =
      some (qs, .internalQueue userData qe
        (.checkPointer enqueue ⟨next, (qs.element x).next.counter⟩), none) := by
  simp [QueueState.advance, QueueState.linkStep, points]

theorem advance_checkPointer {enqueue next : Pac ν}
    (same : qs.enqueue.pointer = enqueue.pointer) :
    QueueState.advance t qs (.internalQueue userData qe (.checkPointer enqueue next)) .go =
      some (qs, .internalQueue userData qe (.checkCounter enqueue next), none) := by
  simp [QueueState.advance, QueueState.linkStep, same]

theorem advance_checkPointer_moved {enqueue next : Pac ν}
    (moved : qs.enqueue.pointer ≠ enqueue.pointer) :
    QueueState.advance t qs (.internalQueue userData qe (.checkPointer enqueue next)) .go =
      some (qs, .internalQueue userData qe .readPointer, none) := by
  simp [QueueState.advance, QueueState.linkStep, moved]

theorem advance_checkCounter_last {enqueue next : Pac ν}
    (same : qs.enqueue.counter = enqueue.counter) (last : next.pointer = none) :
    QueueState.advance t qs (.internalQueue userData qe (.checkCounter enqueue next)) .go =
      some (qs, .internalQueue userData qe (.link enqueue next), none) := by
  simp [QueueState.advance, QueueState.linkStep, same, last]

theorem advance_checkCounter_more {enqueue next : Pac ν}
    (same : qs.enqueue.counter = enqueue.counter) (more : next.pointer ≠ none) :
    QueueState.advance t qs (.internalQueue userData qe (.checkCounter enqueue next)) .go =
      some (qs, .internalQueue userData qe (.help enqueue next), none) := by
  obtain ⟨y, found⟩ := Option.ne_none_iff_exists'.mp more
  simp [QueueState.advance, QueueState.linkStep, same, found]

theorem advance_checkCounter_moved {enqueue next : Pac ν}
    (moved : qs.enqueue.counter ≠ enqueue.counter) :
    QueueState.advance t qs (.internalQueue userData qe (.checkCounter enqueue next)) .go =
      some (qs, .internalQueue userData qe .readPointer, none) := by
  simp [QueueState.advance, QueueState.linkStep, moved]

/-- An attempt that reads `enqueue` and `next` afresh comes to the swap it is to make. -/
theorem finishes_attempt {x : ν} {n : ℕ} (tail : qs.enqueue.pointer = some x)
    (last : (qs.element x).next.pointer = none →
      Finishes t n qs (.internalQueue userData qe (.link qs.enqueue (qs.element x).next)))
    (more : (qs.element x).next.pointer ≠ none →
      Finishes t n qs (.internalQueue userData qe (.help qs.enqueue (qs.element x).next))) :
    Finishes t (n + 6) qs (.internalQueue userData qe .readPointer) := by
  refine .step rfl (.step rfl (.step (advance_readNext tail)
    (.step (advance_readNextCounter tail) (.step (advance_checkPointer rfl) ?_))))
  by_cases found : (qs.element x).next.pointer = none
  · exact .step (advance_checkCounter_last rfl found) (last found)
  · exact .step (advance_checkCounter_more rfl found) (more found)

/-- **Linking comes to its end**: each attempt moves `enqueue` on by one element until it is
at the last, and then the element is linked. -/
theorem finishes_link (rest : List ν) : ∀ {qs : QueueState ν α} {x : ν}, qs.Behind x rest →
    Finishes t (7 * rest.length + 8) qs (.internalQueue userData qe .readPointer) := by
  induction rest with
  | nil =>
      intro qs x behind
      have last : (qs.element x).next.pointer = none := behind.threaded.1
      exact finishes_attempt (n := 2) behind.tail
        (fun _ => .step (advance_link_made behind.tail rfl) finishes_swing)
        fun more => absurd last more
  | cons y rest ih =>
      intro qs x behind
      have next : (qs.element x).next.pointer = some y := behind.threaded.1
      refine (finishes_attempt (n := 7 * rest.length + 9) behind.tail
        (fun last => absurd (next.symm.trans last) (by simp)) fun _ => ?_).mono
        (by rw [List.length_cons]; omega)
      -- `enqueue` moves on to the next element
      exact .step (advance_help_made rfl) (ih ⟨next, behind.threaded.2⟩)

/-- The swap on `next` links the element, or the attempt begins afresh. -/
theorem finishes_link_swap {x : ν} {rest : List ν} {enqueue next : Pac ν}
    (behind : qs.Behind x rest) (notNull : enqueue.pointer ≠ none) :
    Finishes t (7 * rest.length + 9) qs (.internalQueue userData qe (.link enqueue next)) := by
  obtain ⟨x', points⟩ := Option.ne_none_iff_exists'.mp notNull
  by_cases same : (qs.element x').next = next
  · exact .step (advance_link_made points same) (finishes_swing.mono (by omega))
  · exact .step (advance_link_failed points same) (finishes_link rest behind)

/-- Whether `enqueue` is moved on or not, the attempt begins afresh. -/
theorem finishes_link_help {x : ν} {rest : List ν} {enqueue next : Pac ν}
    (behind : qs.Behind x rest) (read : TailRead qs enqueue next.pointer)
    (more : next.pointer ≠ none) :
    Finishes t (7 * rest.length + 9) qs (.internalQueue userData qe (.help enqueue next)) := by
  obtain ⟨y, found⟩ := Option.ne_none_iff_exists'.mp more
  by_cases current : qs.enqueue = enqueue
  · subst current
    obtain ⟨x', points, leads⟩ := read.leads y found rfl
    obtain rfl : x = x' := Option.some.inj (behind.tail.symm.trans points)
    obtain ⟨rest', rfl⟩ := (queueLinks ν).exists_cons_of_entry queueLinks_proper
      queueLinks_injective (behind.threaded.1.symm.trans leads)
    have moved : Finishes t (7 * rest'.length + 8)
        { qs with enqueue := ⟨next.pointer, counterPlusOne qs.enqueue.counter⟩ }
        (.internalQueue userData qe .readPointer) :=
      finishes_link rest' ⟨found, behind.threaded.2⟩
    exact .step (advance_help_made rfl) (moved.mono (by rw [List.length_cons]; omega))
  · exact .step (advance_help_failed current) (finishes_link rest behind)

/-- Linking comes to its end from wherever an attempt has got. -/
theorem finishes_internalQueue {g : QueueGhost ι ν α} {x : ν} {rest : List ν} {pc : LinkPc ν}
    (behind : qs.Behind x rest) (here : LinkHere qs g qe pc) :
    Finishes t (7 * rest.length + 14) qs (.internalQueue userData qe pc) := by
  have again : Finishes t (7 * rest.length + 8) qs (.internalQueue userData qe .readPointer) :=
    finishes_link rest behind
  have checkCounter : ∀ enqueue next, enqueue.pointer ≠ none → TailRead qs enqueue next.pointer →
      Finishes t (7 * rest.length + 10) qs
        (.internalQueue userData qe (.checkCounter enqueue next)) := by
    intro enqueue next notNull read
    by_cases same : qs.enqueue.counter = enqueue.counter
    · by_cases found : next.pointer = none
      · exact .step (advance_checkCounter_last same found) (finishes_link_swap behind notNull)
      · exact .step (advance_checkCounter_more same found) (finishes_link_help behind read found)
    · exact .step (advance_checkCounter_moved same) (again.mono (by omega))
  have checkPointer : ∀ enqueue next, enqueue.pointer ≠ none → TailRead qs enqueue next.pointer →
      Finishes t (7 * rest.length + 11) qs
        (.internalQueue userData qe (.checkPointer enqueue next)) := by
    intro enqueue next notNull read
    by_cases same : qs.enqueue.pointer = enqueue.pointer
    · exact .step (advance_checkPointer same) (checkCounter enqueue next notNull read)
    · exact .step (advance_checkPointer_moved same) (again.mono (by omega))
  have readNextCounter : ∀ enqueue next, enqueue.pointer ≠ none → TailRead qs enqueue next →
      Finishes t (7 * rest.length + 12) qs
        (.internalQueue userData qe (.readNextCounter enqueue next)) := by
    intro enqueue next notNull read
    obtain ⟨x', points⟩ := Option.ne_none_iff_exists'.mp notNull
    exact .step (advance_readNextCounter points)
      (checkPointer enqueue ⟨next, (qs.element x').next.counter⟩ notNull read)
  have readNextPointer : ∀ enqueue : Pac ν, enqueue.pointer ≠ none →
      enqueue.counter ≤ qs.enqueue.counter → Finishes t (7 * rest.length + 13) qs
        (.internalQueue userData qe (.readNextPointer enqueue)) := by
    intro enqueue notNull counter
    obtain ⟨x', points⟩ := Option.ne_none_iff_exists'.mp notNull
    exact .step (advance_readNext points) (readNextCounter enqueue (qs.element x').next.pointer
      notNull ⟨counter, fun y found _ => ⟨x', points, found⟩⟩)
  have visits : ∀ {p : Option ν}, g.Visited qe p → p ≠ none := by
    rintro p ⟨x', rfl, -⟩
    simp
  cases pc with
  | readPointer => exact again.mono (by omega)
  | readCounter pointer =>
      exact .step rfl (readNextPointer ⟨pointer, qs.enqueue.counter⟩ (visits here) le_rfl)
  | readNextPointer enqueue =>
      exact (readNextPointer enqueue (visits here.1) here.2.counter).mono (by omega)
  | readNextCounter enqueue next =>
      exact (readNextCounter enqueue next (visits here.1) here.2).mono (by omega)
  | checkPointer enqueue next =>
      exact (checkPointer enqueue next (visits here.1) here.2).mono (by omega)
  | checkCounter enqueue next =>
      exact (checkCounter enqueue next (visits here.1) here.2).mono (by omega)
  | link enqueue next => exact (finishes_link_swap behind (visits here.1.1)).mono (by omega)
  | help enqueue next => exact (finishes_link_help behind here.1 here.2).mono (by omega)
  | swing enqueue => exact finishes_swing.mono (by omega)

end Link

/-! ## A new element -/

section New

variable {userData : α} {fe : ν} {x : ν} {rest : List ν}

/-- What is written to an element that is not in the queue does not matter. -/
theorem QueueState.Behind.setElement (behind : qs.Behind x rest) {e : QueueElement ν α}
    (outside : fe ∉ x :: rest) : (qs.setElement fe e).Behind x rest :=
  ⟨behind.tail, behind.threaded.congr fun _ mem =>
    qs.nextPointer_setElement_of_ne fe e fun same => outside (same ▸ mem)⟩

/-- An element that is not in the queue is initialised and linked. -/
theorem finishes_initElement {pc : InitPc} (behind : qs.Behind x rest)
    (outside : fe ∉ x :: rest) :
    Finishes t (7 * rest.length + 14) qs (.initElement userData fe pc) := by
  have link : ∀ {qs : QueueState ν α}, qs.Behind x rest →
      Finishes t (7 * rest.length + 8) qs (.internalQueue userData fe .readPointer) :=
    fun behind => finishes_link rest behind
  have writeUserData : ∀ {qs : QueueState ν α}, qs.Behind x rest →
      Finishes t (7 * rest.length + 9) qs (.initElement userData fe .writeUserData) :=
    fun behind => .step rfl (link (behind.setElement outside))
  have writeFe : ∀ {qs : QueueState ν α}, qs.Behind x rest →
      Finishes t (7 * rest.length + 10) qs (.initElement userData fe .writeFe) :=
    fun behind => .step rfl (writeUserData (behind.setElement outside))
  have writeNextCounter : ∀ {qs : QueueState ν α} counter, qs.Behind x rest →
      Finishes t (7 * rest.length + 11) qs
        (.initElement userData fe (.writeNextCounter counter)) :=
    fun _ behind => .step rfl (writeFe (behind.setElement outside))
  have drawNextCounter : ∀ {qs : QueueState ν α}, qs.Behind x rest →
      Finishes t (7 * rest.length + 12) qs (.initElement userData fe .drawNextCounter) :=
    fun behind => .step rfl (writeNextCounter _ ⟨behind.tail, behind.threaded⟩)
  have clearNextPointer : ∀ {qs : QueueState ν α}, qs.Behind x rest →
      Finishes t (7 * rest.length + 13) qs (.initElement userData fe .clearNextPointer) :=
    fun behind => .step rfl (drawNextCounter (behind.setElement outside))
  cases pc with
  | drawCounter => exact .step rfl (clearNextPointer ⟨behind.tail, behind.threaded⟩)
  | clearNextPointer => exact (clearNextPointer behind).mono (by omega)
  | drawNextCounter => exact (drawNextCounter behind).mono (by omega)
  | writeNextCounter counter => exact (writeNextCounter counter behind).mono (by omega)
  | writeFe => exact (writeFe behind).mono (by omega)
  | writeUserData => exact (writeUserData behind).mono (by omega)

theorem advance_pop_made {counter : ℕ} {next : Pac ν} (fresh : qs.fs.top = ⟨some fe, counter⟩) :
    QueueState.advance t qs (.newElement userData (.dcas fe counter next)) .go =
      some ({ qs with fs := { qs.fs with top := next } },
        .initElement userData fe .drawCounter, none) := by
  simp [QueueState.advance, FreelistState.popStep, fresh, abstractionDcas_self]

theorem advance_pop_refused {pc : PopPc ν} {feLocal : Pac ν}
    (reads : qs.fs.popStep pc = (qs.fs, FreelistState.popLoop feLocal))
    (isNull : feLocal.pointer = none) :
    QueueState.advance t qs (.newElement userData pc) .go =
      some (qs, .idle, some (.refused t userData)) := by
  simp [QueueState.advance, reads, FreelistState.popLoop, isNull]

theorem advance_pop_again {pc : PopPc ν} {feLocal : Pac ν}
    (reads : qs.fs.popStep pc = (qs.fs, FreelistState.popLoop feLocal))
    (points : feLocal.pointer = some fe) :
    QueueState.advance t qs (.newElement userData pc) .go =
      some (qs, .newElement userData (.readNextPointer fe feLocal.counter), none) := by
  simp [QueueState.advance, reads, FreelistState.popLoop, points]

/-- `freelist_pop` comes to its end, and what it is followed by. -/
theorem finishes_newElement {pc : PopPc ν} (behind : qs.Behind x rest)
    (spare : ∀ fe, qs.fs.top.pointer = some fe → fe ∉ x :: rest) :
    Finishes t (7 * rest.length + 22) qs (.newElement userData pc) := by
  have made : ∀ fe counter next, qs.fs.top = ⟨some fe, counter⟩ →
      Finishes t (7 * rest.length + 15) qs (.newElement userData (.dcas fe counter next)) := by
    intro fe counter next fresh
    have outside : fe ∉ x :: rest := spare fe (by rw [fresh])
    exact .step (advance_pop_made fresh)
      (finishes_initElement ⟨behind.tail, behind.threaded⟩ outside)
  have fresh : ∀ fe counter, qs.fs.top = ⟨some fe, counter⟩ → Finishes t (7 * rest.length + 17) qs
      (.newElement userData (.readNextPointer fe counter)) :=
    fun fe counter same => .step rfl (.step rfl (made fe counter _ same))
  have dcas : ∀ fe counter next, Finishes t (7 * rest.length + 18) qs
      (.newElement userData (.dcas fe counter next)) := by
    intro fe counter next
    by_cases same : qs.fs.top = ⟨some fe, counter⟩
    · exact (made fe counter next same).mono (by omega)
    · have reads : qs.fs.popStep (.dcas fe counter next) =
          (qs.fs, FreelistState.popLoop qs.fs.top) := by
        simp [FreelistState.popStep, abstractionDcas_of_ne same]
      cases top : qs.fs.top.pointer with
      | none => exact .step (advance_pop_refused reads top) .done
      | some fe' => exact .step (advance_pop_again reads top) (fresh _ _ (Pac.ext top rfl))
  have readNextPointer : ∀ fe counter, Finishes t (7 * rest.length + 20) qs
      (.newElement userData (.readNextPointer fe counter)) :=
    fun fe counter => .step rfl (.step rfl (dcas fe counter _))
  have readPointer : ∀ counter, Finishes t (7 * rest.length + 21) qs
      (.newElement userData (.readPointer counter)) := by
    intro counter
    have reads : qs.fs.popStep (.readPointer counter) =
        (qs.fs, FreelistState.popLoop ⟨qs.fs.top.pointer, counter⟩) := rfl
    cases top : qs.fs.top.pointer with
    | none => exact .step (advance_pop_refused reads top) .done
    | some fe =>
        exact .step (advance_pop_again reads top) (readNextPointer fe counter)
  cases pc with
  | readCounter => exact .step rfl (readPointer _)
  | readPointer counter => exact (readPointer counter).mono (by omega)
  | readNextPointer fe counter => exact (readNextPointer fe counter).mono (by omega)
  | readNextCounter fe counter next =>
      exact (Advance.Finishes.step rfl (dcas fe counter _)).mono (by omega)
  | dcas fe counter next => exact (dcas fe counter next).mono (by omega)

end New

/-! ## Dequeuing -/

section Dequeue

variable {queue : List ν} {dequeue enqueue : Pac ν}

omit [DecidableEq ν] in
/-- An end that is ahead of the head has something between. -/
theorem QueueState.Spells.more {d : ν} (spells : qs.Spells queue)
    (points : qs.dequeue.pointer = some d) (ahead : qs.enqueue.pointer ≠ qs.dequeue.pointer) :
    ∃ y, qs.nextPointer d = some y := by
  obtain ⟨⟨d', rest, rfl, points'⟩, threaded, -, ⟨x, mem, tail⟩⟩ := spells
  obtain rfl : d = d' := Option.some.inj (points.symm.trans points')
  cases rest with
  | nil =>
      obtain rfl : x = d := List.mem_singleton.mp mem
      exact absurd (tail.trans points.symm) ahead
  | cons y rest => exact ⟨y, threaded.1⟩

omit [DecidableEq ν] in
/-- `enqueue` may be moved on by one element. -/
theorem QueueState.Spells.swing {x y : ν} (spells : qs.Spells queue)
    (tail : qs.enqueue.pointer = some x) (next : qs.nextPointer x = some y) (counter : ℕ) :
    ({ qs with enqueue := ⟨some y, counter⟩ } : QueueState ν α).Spells queue := by
  obtain ⟨head, threaded, nodup, ⟨x', mem, tail'⟩⟩ := spells
  obtain rfl : x = x' := Option.some.inj (tail.symm.trans tail')
  obtain ⟨front, rest, rfl⟩ := List.append_of_mem mem
  obtain ⟨rest', rfl⟩ := (queueLinks ν).exists_cons_of_entry queueLinks_proper
    queueLinks_injective (threaded.link.symm.trans next)
  exact ⟨head, threaded, nodup, y, by simp, rfl⟩

omit [DecidableEq ν] in
/-- No element comes after itself. -/
theorem QueueState.Spells.next_ne {d y : ν} (spells : qs.Spells queue)
    (points : qs.dequeue.pointer = some d) (next : qs.nextPointer d = some y) : y ≠ d := by
  obtain ⟨⟨d', rest, rfl, points'⟩, threaded, nodup, -⟩ := spells
  obtain rfl : d = d' := Option.some.inj (points.symm.trans points')
  obtain ⟨rest', rfl⟩ := (queueLinks ν).exists_cons_of_entry queueLinks_proper
    queueLinks_injective (threaded.1.symm.trans next)
  rintro rfl
  exact (List.nodup_cons.mp nodup).1 List.mem_cons_self

/-- What was read in `queue_dequeue` will do while `dequeue` is what was read of it. -/
structure HeadUsable (qs : QueueState ν α) (dequeue enqueue : Pac ν) (next : Option ν) : Prop where
  pointer : dequeue.pointer ≠ none
  leads : qs.dequeue = dequeue → ∀ y, next = some y → qs.Leads dequeue y
  more : qs.dequeue = dequeue → enqueue.pointer ≠ dequeue.pointer → next ≠ none

omit [DecidableEq ν] in
theorem HeadRead.usable {g : QueueGhost ι ν α} {next : Option ν}
    (read : HeadRead t qs g dequeue enqueue next) : HeadUsable qs dequeue enqueue next :=
  ⟨read.pointer, fun current y found => read.leads y found current,
    fun current ahead isNull => ahead (read.empty isNull current).2⟩

omit [DecidableEq ν] in
/-- A `next` that is read now will do. -/
theorem HeadUsable.of_read {d : ν} (spells : qs.Spells queue) (points : dequeue.pointer = some d)
    (ahead : qs.dequeue = dequeue → enqueue.pointer ≠ dequeue.pointer →
      qs.enqueue.pointer ≠ qs.dequeue.pointer) :
    HeadUsable qs dequeue enqueue (qs.nextPointer d) := by
  refine ⟨by simp [points], fun _ y found => ⟨d, points, found⟩, ?_⟩
  rintro rfl differ
  obtain ⟨y, found⟩ := spells.more points (ahead rfl differ)
  simp [found]

theorem advance_dequeue_readNext {d : ν} (points : dequeue.pointer = some d) :
    QueueState.advance t qs (.dequeue (.readNextPointer dequeue enqueue)) .go =
      some (qs, .dequeue (.readNextCounter dequeue enqueue (qs.nextPointer d)), none) := by
  simp [QueueState.advance, QueueState.dequeueStep, points, QueueState.nextPointer]

theorem advance_dequeue_readNextCounter {d : ν} {next : Option ν}
    (points : dequeue.pointer = some d) :
    QueueState.advance t qs (.dequeue (.readNextCounter dequeue enqueue next)) .go =
      some (qs, .dequeue (.checkPointer dequeue enqueue ⟨next, (qs.element d).next.counter⟩),
        none) := by
  simp [QueueState.advance, QueueState.dequeueStep, points]

/-- A swap on `dequeue` that finds it as it was read. -/
theorem advance_take_made {next : Pac ν} {userData : α} (current : qs.dequeue = dequeue) :
    QueueState.advance t qs (.dequeue (.advance dequeue next userData)) .go =
      some ({ qs with dequeue := ⟨next.pointer, counterPlusOne dequeue.counter⟩ },
        .dequeue (.readFe dequeue userData), some (.taken t userData)) := by
  simp [QueueState.advance, QueueState.dequeueStep, current, abstractionDcas_self]

theorem advance_take_failed {next : Pac ν} {userData : α} (stale : qs.dequeue ≠ dequeue) :
    QueueState.advance t qs (.dequeue (.advance dequeue next userData)) .go =
      some (qs, .dequeue .readPointer, none) := by
  simp [QueueState.advance, QueueState.dequeueStep, abstractionDcas_of_ne stale]

theorem advance_dequeue_help_made {next : Pac ν} (current : qs.enqueue = enqueue) :
    QueueState.advance t qs (.dequeue (.help enqueue next)) .go =
      some ({ qs with enqueue := ⟨next.pointer, counterPlusOne enqueue.counter⟩ },
        .dequeue .readPointer, none) := by
  simp [QueueState.advance, QueueState.dequeueStep, current, abstractionDcas_self]

theorem advance_dequeue_help_failed {next : Pac ν} (stale : qs.enqueue ≠ enqueue) :
    QueueState.advance t qs (.dequeue (.help enqueue next)) .go =
      some (qs, .dequeue .readPointer, none) := by
  simp [QueueState.advance, QueueState.dequeueStep, abstractionDcas_of_ne stale]

theorem advance_dequeue_checkPointer {next : Pac ν}
    (same : dequeue.pointer = qs.dequeue.pointer) :
    QueueState.advance t qs (.dequeue (.checkPointer dequeue enqueue next)) .go =
      some (qs, .dequeue (.checkCounter dequeue enqueue next), none) := by
  simp [QueueState.advance, QueueState.dequeueStep, same]

theorem advance_dequeue_checkPointer_moved {next : Pac ν}
    (moved : dequeue.pointer ≠ qs.dequeue.pointer) :
    QueueState.advance t qs (.dequeue (.checkPointer dequeue enqueue next)) .go =
      some (qs, .dequeue .readPointer, none) := by
  simp [QueueState.advance, QueueState.dequeueStep, moved]

theorem advance_dequeue_checkCounter_moved {next : Pac ν}
    (moved : dequeue.counter ≠ qs.dequeue.counter) :
    QueueState.advance t qs (.dequeue (.checkCounter dequeue enqueue next)) .go =
      some (qs, .dequeue .readPointer, none) := by
  simp [QueueState.advance, QueueState.dequeueStep, moved]

theorem advance_dequeue_checkCounter_empty {next : Pac ν}
    (same : dequeue.counter = qs.dequeue.counter)
    (meets : enqueue.pointer = dequeue.pointer) (isNull : next.pointer = none) :
    QueueState.advance t qs (.dequeue (.checkCounter dequeue enqueue next)) .go =
      some (qs, .idle, some (.foundEmpty t)) := by
  simp [QueueState.advance, QueueState.dequeueStep, same, meets, isNull]

theorem advance_dequeue_checkCounter_help {next : Pac ν}
    (same : dequeue.counter = qs.dequeue.counter)
    (meets : enqueue.pointer = dequeue.pointer) (more : next.pointer ≠ none) :
    QueueState.advance t qs (.dequeue (.checkCounter dequeue enqueue next)) .go =
      some (qs, .dequeue (.help enqueue next), none) := by
  obtain ⟨y, found⟩ := Option.ne_none_iff_exists'.mp more
  simp [QueueState.advance, QueueState.dequeueStep, same, meets, found]

theorem advance_dequeue_checkCounter_attempt {next : Pac ν}
    (same : dequeue.counter = qs.dequeue.counter) (ahead : enqueue.pointer ≠ dequeue.pointer) :
    QueueState.advance t qs (.dequeue (.checkCounter dequeue enqueue next)) .go =
      some (qs, .dequeue (.readUserData dequeue next), none) := by
  simp [QueueState.advance, QueueState.dequeueStep, same, ahead]

theorem advance_readUserData {next : Pac ν} {y : ν} (found : next.pointer = some y) :
    QueueState.advance t qs (.dequeue (.readUserData dequeue next)) .go =
      some (qs, .dequeue (.advance dequeue next (qs.element y).userData), none) := by
  simp [QueueState.advance, QueueState.dequeueStep, found]

/-- The old dummy goes back. -/
theorem finishes_readFe {userData : α} (pointer : dequeue.pointer ≠ none) :
    Finishes t 10 qs (.dequeue (.readFe dequeue userData)) := by
  obtain ⟨d, points⟩ := Option.ne_none_iff_exists'.mp pointer
  have taken : QueueState.advance t qs (.dequeue (.readFe dequeue userData)) .go =
      some (qs, .giveBack userData (qs.element d).fe .increment, none) := by
    simp [QueueState.advance, QueueState.dequeueStep, points]
  exact .step taken (finishes_giveBack _)

/-- The swap that takes a value succeeds when nothing has moved. -/
theorem finishes_attempt_dequeue {next : Pac ν} (current : qs.dequeue = dequeue)
    (usable : HeadUsable qs dequeue enqueue next.pointer)
    (ahead : enqueue.pointer ≠ dequeue.pointer) :
    Finishes t 12 qs (.dequeue (.readUserData dequeue next)) := by
  obtain ⟨y, found⟩ := Option.ne_none_iff_exists'.mp (usable.more current ahead)
  exact .step (advance_readUserData found)
    (.step (advance_take_made current) (finishes_readFe usable.pointer))

/-- From the first access of an attempt to the test of the counter. -/
theorem finishes_dequeue_reads {n : ℕ} {d : ν} (points : qs.dequeue.pointer = some d)
    (decides : Finishes t n qs
      (.dequeue (.checkCounter qs.dequeue qs.enqueue (qs.element d).next))) :
    Finishes t (n + 7) qs (.dequeue .readPointer) :=
  .step rfl (.step rfl (.step rfl (.step rfl (.step (advance_dequeue_readNext points)
    (.step (advance_dequeue_readNextCounter points)
      (.step (advance_dequeue_checkPointer rfl) decides))))))

/-- With `enqueue` ahead of `dequeue`, the attempt takes a value. -/
theorem finishes_dequeue_ahead (spells : qs.Spells queue)
    (ahead : qs.enqueue.pointer ≠ qs.dequeue.pointer) :
    Finishes t 20 qs (.dequeue .readPointer) := by
  obtain ⟨d, rest, split, points⟩ := spells.head
  have usable : HeadUsable qs qs.dequeue qs.enqueue (qs.nextPointer d) :=
    .of_read spells points fun _ _ => ahead
  exact finishes_dequeue_reads points (.step (advance_dequeue_checkCounter_attempt rfl ahead)
    (finishes_attempt_dequeue rfl usable ahead))

/-- An attempt that reads everything afresh succeeds, after moving `enqueue` on at most
once. -/
theorem finishes_dequeue_fresh (spells : qs.Spells queue) :
    Finishes t 29 qs (.dequeue .readPointer) := by
  by_cases meets : qs.enqueue.pointer = qs.dequeue.pointer
  · obtain ⟨d, rest, split, points⟩ := spells.head
    refine finishes_dequeue_reads (n := 22) points ?_
    by_cases isNull : (qs.element d).next.pointer = none
    · exact .step (advance_dequeue_checkCounter_empty rfl meets isNull) .done
    · obtain ⟨y, found⟩ := Option.ne_none_iff_exists'.mp isNull
      have helped := spells.swing (meets.trans points) found (counterPlusOne qs.enqueue.counter)
      refine .step (advance_dequeue_checkCounter_help rfl meets isNull)
        (.step (advance_dequeue_help_made rfl) ?_)
      rw [found]
      refine finishes_dequeue_ahead helped ?_
      show some y ≠ qs.dequeue.pointer
      rw [points]
      exact fun same => spells.next_ne points found (Option.some.inj same)
  · exact (finishes_dequeue_ahead spells meets).mono (by omega)

/-- The swap on `dequeue` takes a value, or the attempt begins afresh. -/
theorem finishes_take {next : Pac ν} {userData : α} (spells : qs.Spells queue)
    (pointer : dequeue.pointer ≠ none) :
    Finishes t 30 qs (.dequeue (.advance dequeue next userData)) := by
  by_cases current : qs.dequeue = dequeue
  · exact .step (advance_take_made current) ((finishes_readFe pointer).mono (by omega))
  · exact .step (advance_take_failed current) (finishes_dequeue_fresh spells)

/-- Whether `enqueue` is moved on or not, the attempt begins afresh. -/
theorem finishes_dequeue_help {next : Pac ν} (spells : qs.Spells queue)
    (leads : qs.enqueue = enqueue → ∀ y, next.pointer = some y → qs.Leads enqueue y)
    (more : next.pointer ≠ none) : Finishes t 30 qs (.dequeue (.help enqueue next)) := by
  by_cases current : qs.enqueue = enqueue
  · obtain ⟨y, found⟩ := Option.ne_none_iff_exists'.mp more
    subst current
    obtain ⟨x, points, next'⟩ := leads rfl y found
    have helped := spells.swing points next' (counterPlusOne qs.enqueue.counter)
    refine .step (advance_dequeue_help_made rfl) ?_
    rw [found]
    exact finishes_dequeue_fresh helped
  · exact .step (advance_dequeue_help_failed current) (finishes_dequeue_fresh spells)

/-- The test of the counter, after which the attempt is decided. -/
theorem finishes_dequeue_checkCounter {next : Pac ν} (spells : qs.Spells queue)
    (usable : HeadUsable qs dequeue enqueue next.pointer)
    (samePointer : dequeue.pointer = qs.dequeue.pointer) :
    Finishes t 32 qs (.dequeue (.checkCounter dequeue enqueue next)) := by
  by_cases same : dequeue.counter = qs.dequeue.counter
  · have current : qs.dequeue = dequeue := Pac.ext samePointer.symm same.symm
    by_cases meets : enqueue.pointer = dequeue.pointer
    · by_cases isNull : next.pointer = none
      · exact .step (advance_dequeue_checkCounter_empty same meets isNull) .done
      · refine .step (advance_dequeue_checkCounter_help same meets isNull)
          ((finishes_dequeue_help spells ?_ isNull).mono (by omega))
        intro _ y found
        obtain ⟨x, points, next'⟩ := usable.leads current y found
        exact ⟨x, meets.trans points, next'⟩
    · exact .step (advance_dequeue_checkCounter_attempt same meets)
        ((finishes_attempt_dequeue current usable meets).mono (by omega))
  · exact .step (advance_dequeue_checkCounter_moved same)
      ((finishes_dequeue_fresh spells).mono (by omega))

/-- `queue_dequeue` comes to its end from wherever it has got. -/
theorem finishes_dequeue {g : QueueGhost ι ν α} {pc : DequeuePc ν α} (spells : qs.Spells queue)
    (here : DequeueHere t qs g pc) : Finishes t 38 qs (.dequeue pc) := by
  have again : Finishes t 29 qs (.dequeue .readPointer) := finishes_dequeue_fresh spells
  have checkPointer : ∀ dequeue enqueue next, HeadUsable qs dequeue enqueue next.pointer →
      Finishes t 33 qs (.dequeue (.checkPointer dequeue enqueue next)) := by
    intro dequeue enqueue next usable
    by_cases same : dequeue.pointer = qs.dequeue.pointer
    · exact .step (advance_dequeue_checkPointer same)
        (finishes_dequeue_checkCounter spells usable same)
    · exact .step (advance_dequeue_checkPointer_moved same) (again.mono (by omega))
  have readNextCounter : ∀ dequeue enqueue next, HeadUsable qs dequeue enqueue next →
      Finishes t 34 qs (.dequeue (.readNextCounter dequeue enqueue next)) := by
    intro dequeue enqueue next usable
    obtain ⟨d, points⟩ := Option.ne_none_iff_exists'.mp usable.pointer
    exact .step (advance_dequeue_readNextCounter points)
      (checkPointer dequeue enqueue ⟨next, (qs.element d).next.counter⟩ usable)
  have readNextPointer : ∀ dequeue enqueue : Pac ν, dequeue.pointer ≠ none →
      (qs.dequeue = dequeue → enqueue.pointer ≠ dequeue.pointer →
        qs.enqueue.pointer ≠ qs.dequeue.pointer) →
      Finishes t 35 qs (.dequeue (.readNextPointer dequeue enqueue)) := by
    intro dequeue enqueue pointer ahead
    obtain ⟨d, points⟩ := Option.ne_none_iff_exists'.mp pointer
    exact .step (advance_dequeue_readNext points)
      (readNextCounter dequeue enqueue (qs.nextPointer d) (.of_read spells points ahead))
  have readEnqueueCounter : ∀ (dequeue : Pac ν) enqueuePointer, dequeue.pointer ≠ none →
      (qs.dequeue = dequeue → enqueuePointer ≠ dequeue.pointer →
        qs.enqueue.pointer ≠ qs.dequeue.pointer) →
      Finishes t 36 qs (.dequeue (.readEnqueueCounter dequeue enqueuePointer)) :=
    fun dequeue enqueuePointer pointer ahead =>
      .step rfl (readNextPointer dequeue ⟨enqueuePointer, qs.enqueue.counter⟩ pointer ahead)
  have readEnqueuePointer : ∀ dequeue : Pac ν, dequeue.pointer ≠ none →
      Finishes t 37 qs (.dequeue (.readEnqueuePointer dequeue)) := by
    intro dequeue pointer
    refine .step rfl (readEnqueueCounter dequeue qs.enqueue.pointer pointer ?_)
    rintro rfl ahead
    exact ahead
  cases pc with
  | readPointer => exact again.mono (by omega)
  | readCounter pointer =>
      exact .step rfl (readEnqueuePointer ⟨pointer, qs.dequeue.counter⟩ here)
  | readEnqueuePointer dequeue => exact (readEnqueuePointer dequeue here.1).mono (by omega)
  | readEnqueueCounter dequeue enqueuePointer =>
      exact (readEnqueueCounter dequeue enqueuePointer here.1.1 here.2).mono (by omega)
  | readNextPointer dequeue enqueue =>
      exact (readNextPointer dequeue enqueue here.1.1 here.2.1).mono (by omega)
  | readNextCounter dequeue enqueue next =>
      exact (readNextCounter dequeue enqueue next (HeadRead.usable here)).mono (by omega)
  | checkPointer dequeue enqueue next =>
      exact (checkPointer dequeue enqueue next (HeadRead.usable here)).mono (by omega)
  | checkCounter dequeue enqueue next =>
      by_cases same : dequeue.counter = qs.dequeue.counter
      · have current : qs.dequeue = dequeue := here.2 same.symm
        exact (finishes_dequeue_checkCounter spells here.1.usable (by rw [current])).mono (by omega)
      · exact .step (advance_dequeue_checkCounter_moved same) (again.mono (by omega))
  | help enqueue next =>
      exact (finishes_dequeue_help spells (fun current y found => here.1.leads y found current)
        here.2).mono (by omega)
  | readUserData dequeue next =>
      obtain ⟨-, y, found, leads⟩ := here
      by_cases isNull : dequeue.pointer = none
      · have stale : qs.dequeue ≠ dequeue := by
          rintro rfl
          obtain ⟨⟨d, points, -⟩, -⟩ := leads rfl
          rw [isNull] at points
          cases points
        exact .step (advance_readUserData found)
          (.step (advance_take_failed stale) (again.mono (by omega)))
      · exact .step (advance_readUserData found) ((finishes_take spells isNull).mono (by omega))
  | advance dequeue next userData =>
      obtain ⟨-, y, found, leads⟩ := here
      by_cases current : qs.dequeue = dequeue
      · obtain ⟨⟨⟨d, points, -⟩, -⟩, -⟩ := leads current
        exact (finishes_take spells (by rw [points]; simp)).mono (by omega)
      · exact .step (advance_take_failed current) (again.mono (by omega))
  | readFe dequeue userData =>
      obtain ⟨d, points, -⟩ := here
      exact (finishes_readFe (by rw [points]; simp)).mono (by omega)

end Dequeue

/-! ## Any call -/

/-- From wherever it has got, a thread left alone comes to the end of its call. -/
theorem finishes_call {g : QueueGhost ι ν α} {pc : QueuePc ν α} (sound : qs.Sound g)
    (here : QueueHere t qs g pc) : Finishes t (7 * g.spec.items.length + 38) qs pc := by
  obtain ⟨x, mem, tail⟩ := sound.tail
  obtain ⟨front, rest, split⟩ := List.append_of_mem mem
  have behind : qs.Behind x rest :=
    ⟨tail, Links.Threaded.suffix (split ▸ sound.threaded)⟩
  have inQueue : ∀ n ∈ x :: rest, n ∈ g.queue := by
    intro n inRest
    rw [split]
    exact List.mem_append_right _ inRest
  have lag : rest.length ≤ g.spec.items.length := by
    rw [sound.items, List.length_map, List.length_tail, split, List.length_append,
      List.length_cons]
    omega
  cases pc with
  | idle => exact .done
  | newElement userData pc =>
      refine (finishes_newElement behind ?_).mono (by omega)
      intro fe onTop inRest
      obtain ⟨r, free, rfl⟩ := sound.list.top_mem onTop
      exact sound.apart r.1 (inQueue r.1 inRest) r free rfl
  | initElement userData fe pc =>
      refine (finishes_initElement behind ?_).mono (by omega)
      intro inRest
      have own := (here.owner fe).mpr rfl
      rw [sound.unowned fe (inQueue fe inRest)] at own
      cases own
  | internalQueue userData qe pc =>
      cases pc with
      | swing enqueue => exact finishes_swing.mono (by omega)
      | _ => exact (finishes_internalQueue behind here.read.2).mono (by omega)
  | dequeue pc => exact (finishes_dequeue sound.spells here.read).mono (by omega)
  | giveBack userData fe pc => exact (finishes_giveBack pc).mono (by omega)
  | fault => exact absurd here.phase id

/-- **Calls that are left alone return.**  Wherever a run has come, and wherever the other
threads have stopped in their calls, a thread that is left alone comes to the end of its
own call, after a number of accesses that depends only on the capacity. -/
theorem lockFreeQueue_obstruction_free [DecidableEq ι] [Fintype ι] {malloced : QueueState ν α}
    {null : α} {elements : List ν} {capacity : ℕ}
    {s : Threads ι (QueueState ν α) (QueuePc ν α)} {history : List (FifoObs ι α)}
    (distinct : elements.Nodup) (count : elements.length = capacity + 1)
    (few : capacity + 1 < atomValues)
    (run : (lockFreeQueue ι malloced null elements).ReachesUnder Careful s history) (t : ι) :
    ∃ k ≤ 7 * capacity + 38, ∃ s' observed,
      (lockFreeQueue ι malloced null elements).exec s history (List.replicate k (t, .go)) =
        some (s', history ++ observed) ∧
      s'.pc t = .idle ∧ ∀ t', t' ≠ t → s'.pc t' = s.pc t' := by
  obtain ⟨g, described, reached⟩ := lockFreeQueue_refines distinct count few run
  have finishes := finishes_call described.shared (described.here t)
  have places : g.spec.vacant + g.spec.items.length + _ = capacity :=
    PlacedFifo.reaches_places reached
  obtain ⟨k, le, rest⟩ := finishes.exec (lockFreeQueue ι malloced null elements).init history
  exact ⟨k, by omega, rest⟩

/-- Two threads in the middle of their calls. -/
def halfway : List (Bool × QueueAct ℕ) :=
  [(false, .enqueue 7), (false, .go), (true, .dequeue), (true, .go)]

theorem lockFreeQueue_obstruction_free_halfway : ∃ s history,
    twoPlaces.exec twoPlaces.init [] halfway = some (s, history) ∧
      ∃ k ≤ 7 * 2 + 38, ∃ s' observed,
        twoPlaces.exec s history (List.replicate k (false, .go)) = some (s', history ++ observed) ∧
        s'.pc false = .idle ∧ ∀ t', t' ≠ false → s'.pc t' = s.pc t' := by
  have played : (twoPlaces.exec twoPlaces.init [] halfway).map Prod.snd =
      some [.enqueues false 7, .dequeues true] := by
    decide +kernel
  obtain ⟨s, plays, run⟩ :=
    twoPlaces.exists_reachesUnder Careful halfway (by decide +kernel) played
  exact ⟨s, _, plays, lockFreeQueue_obstruction_free (by decide) rfl (by decide) run false⟩

end Jacks
