import Mathlib.Data.List.GetD
import Mathlib.Data.List.Infix
import Mathlib.Data.List.OfFn
import Mathlib.Tactic.Common

/-!
# Texts in memory

A text lies in memory as its characters and a terminator, and whoever reads it
reads up to the first terminator.

* `readString` — the text at the start of a memory, if it ends inside.
* `store` — writing at a position of a memory, if the cells lie inside.
* `layered` — what a memory holds once texts without terminators have been
  written to its start, one over the other.  `readString_layered_iff`: the last
  of them is read back exactly if it leaves room and none before it was longer.
* `drop_flatMap_of_width`, `take_flatMap_of_width` — a memory of blocks of one
  width, cut at a border between two of them; `decodeBlocks` — reading such a
  memory, block by block.
-/

namespace Jacks.Foundations

universe u v w

variable {α : Type u}

section Reading

variable [DecidableEq α]

/-- The text at the start of a memory: what stands before the first terminator.
`none` is a memory without one. -/
def readString (nul : α) : List α → Option (List α)
  | [] => none
  | c :: rest => if c = nul then some [] else (readString nul rest).map (c :: ·)

/-- A text is read where it stands with its terminator. -/
theorem readString_eq_some {nul : α} {memory text : List α} :
    readString nul memory = some text ↔ nul ∉ text ∧ text ++ [nul] <+: memory := by
  induction memory generalizing text with
  | nil => simp [readString]
  | cons c rest ih =>
      by_cases ends : c = nul
      · subst ends
        cases text <;> simp +contextual [readString, List.cons_prefix_cons, eq_comm]
      · cases text with
        | nil => simp [readString, ends, List.cons_prefix_cons, Ne.symm ends]
        | cons d text =>
            simp only [readString, if_neg ends, Option.map_eq_some_iff, List.cons.injEq,
              List.cons_append, List.cons_prefix_cons, List.mem_cons, not_or]
            constructor
            · rintro ⟨_, isRead, rfl, rfl⟩
              obtain ⟨noNul, stands⟩ := ih.mp isRead
              exact ⟨⟨Ne.symm ends, noNul⟩, rfl, stands⟩
            · rintro ⟨⟨-, noNul⟩, rfl, stands⟩
              exact ⟨text, ih.mpr ⟨noNul, stands⟩, rfl, rfl⟩

/-- Reading a text and whatever follows it. -/
theorem readString_terminated {nul : α} {text : List α} (noNul : nul ∉ text) (rest : List α) :
    readString nul (text ++ nul :: rest) = some text := by
  refine readString_eq_some.mpr ⟨noNul, ?_⟩
  exact ⟨rest, by simp⟩

/-- Reading a memory of `n` cells, cell by cell. -/
theorem readString_ofFn {nul : α} {n : ℕ} (cells : ℕ → α) {text : List α} (noNul : nul ∉ text) :
    readString nul (List.ofFn fun i : Fin n => cells i) = some text ↔
      text.length < n ∧ ∀ i ≤ text.length, cells i = text.getD i nul := by
  rw [readString_eq_some, List.prefix_iff_getElem]
  simp only [noNul, not_false_eq_true, true_and, List.length_append, List.length_singleton,
    List.length_ofFn, List.getElem_ofFn]
  constructor
  · rintro ⟨inside, same⟩
    refine ⟨inside, fun i upTo => ?_⟩
    rw [← same i (by omega)]
    rcases Nat.lt_or_eq_of_le upTo with before | rfl
    · simp [before]
    · simp
  · rintro ⟨inside, same⟩
    refine ⟨inside, fun i upTo => ?_⟩
    rw [same i (by omega)]
    rcases Nat.lt_or_eq_of_le (Nat.le_of_lt_succ upTo) with before | rfl
    · simp [before]
    · simp

end Reading

/-! ## Writing -/

/-- Write `cells` at a position; `none` if they do not lie inside. -/
def store (memory : List α) (pos : ℕ) (cells : List α) : Option (List α) :=
  if pos + cells.length ≤ memory.length then
    some (memory.take pos ++ cells ++ memory.drop (pos + cells.length))
  else none

/-- Writing at the border between what is done and what is not. -/
theorem store_append (done : List α) {rest cells : List α} (fits : cells.length ≤ rest.length) :
    store (done ++ rest) done.length cells =
      some (done ++ (cells ++ rest.drop cells.length)) := by
  have inside : done.length + cells.length ≤ (done ++ rest).length := by
    rw [List.length_append]
    omega
  rw [store, if_pos inside, List.take_left, List.append_assoc, List.drop_append,
    Nat.add_sub_cancel_left, List.drop_eq_nil_of_le (Nat.le_add_right _ _), List.nil_append]

/-! ## Blocks of one width -/

/-- Read a memory of `n` blocks of the width `k`, and of nothing else. -/
def decodeBlocks {γ : Type w} (k : ℕ) (decode : List α → Option γ) :
    ℕ → List α → Option (List γ)
  | 0, memory => if memory.isEmpty then some [] else none
  | n + 1, memory =>
      (decode (memory.take k)).bind fun x =>
        (decodeBlocks k decode n (memory.drop k)).map (x :: ·)

section Blocks

variable {β : Type v} {f : β → List α} {k : ℕ} (width : ∀ x, (f x).length = k)

include width

theorem drop_flatMap_of_width (l : List β) (n : ℕ) :
    (l.flatMap f).drop (k * n) = (l.drop n).flatMap f := by
  induction l generalizing n with
  | nil => simp
  | cons x rest ih =>
      cases n with
      | zero => simp
      | succ n =>
          have reach : k * (n + 1) = (f x).length + k * n := by
            rw [width, Nat.mul_succ, Nat.add_comm]
          rw [List.flatMap_cons, reach, List.drop_length_add_append, ih, List.drop_succ_cons]

theorem take_flatMap_of_width (l : List β) (n : ℕ) :
    (l.flatMap f).take (k * n) = (l.take n).flatMap f := by
  have parts : l.flatMap f = (l.take n).flatMap f ++ (l.drop n).flatMap f := by
    rw [← List.flatMap_append, List.take_append_drop]
  have whole := List.take_append_drop (k * n) (l.flatMap f)
  rw [drop_flatMap_of_width width] at whole
  exact List.append_cancel_right (whole.trans parts)

theorem length_flatMap_of_width (l : List β) : (l.flatMap f).length = k * l.length := by
  induction l with
  | nil => simp
  | cons x rest ih =>
      rw [List.flatMap_cons, List.length_append, width, ih, List.length_cons, Nat.mul_succ,
        Nat.add_comm]

variable {γ : Type w} {decode : List α → Option γ} {view : β → γ}
variable (decodes : ∀ x, decode (f x) = some (view x))

include decodes

/-- Where each block is read as a view of what it stands for, so are all of them. -/
theorem decodeBlocks_flatMap (l : List β) :
    decodeBlocks k decode l.length (l.flatMap f) = some (l.map view) := by
  induction l with
  | nil => rfl
  | cons x rest ih =>
      rw [List.length_cons, List.flatMap_cons, decodeBlocks, List.take_left' (width x),
        List.drop_left' (width x), decodes, ih]
      rfl

/-- The block at a position. -/
theorem decode_block (l : List β) (i : ℕ) (inside : i < l.length) :
    decode (((l.flatMap f).drop (k * i)).take k) = some (view l[i]) := by
  rw [drop_flatMap_of_width width, List.drop_eq_getElem_cons inside, List.flatMap_cons,
    List.take_left' (width _), decodes]

end Blocks

/-! ## Texts written over one another -/

/-- Cell `i` of a memory of `blank` cells to whose start texts have been written,
one over the other: the latest text that reaches the cell decides. -/
def layered (blank : α) (texts : List (List α)) (i : ℕ) : α :=
  (texts.reverse.findSome? (·[i]?)).getD blank

section Layers

variable (blank : α)

@[simp] theorem layered_nil (i : ℕ) : layered blank [] i = blank := rfl

/-- One more text covers the cells it reaches. -/
theorem layered_concat (texts : List (List α)) (text : List α) (i : ℕ) :
    layered blank (texts ++ [text]) i = text.getD i (layered blank texts i) := by
  cases reaches : text[i]? with
  | none => simp [layered, reaches, List.getD]
  | some c => simp [layered, reaches, List.getD]

/-- A cell is blank exactly if no text has reached it, as long as texts hold no blanks. -/
theorem layered_eq_blank_iff {texts : List (List α)} (noBlank : ∀ text ∈ texts, blank ∉ text)
    (i : ℕ) : layered blank texts i = blank ↔ ∀ text ∈ texts, text.length ≤ i := by
  induction texts using List.reverseRecOn with
  | nil => simp
  | append_singleton texts text ih =>
      rw [layered_concat]
      rcases Nat.lt_or_ge i text.length with reaches | short
      · have covered : text[i] ≠ blank := by
          intro isBlank
          exact noBlank text (by simp) (isBlank ▸ List.getElem_mem reaches)
        rw [List.getD_eq_getElem _ _ reaches]
        refine iff_of_false covered fun all => ?_
        exact absurd (all text (by simp)) (by omega)
      · rw [List.getD_eq_default _ _ short,
          ih fun earlier mem => noBlank earlier (List.mem_append_left _ mem)]
        simp [or_imp, forall_and, short]

/-- **Unterminated texts.**  Where each text is written without its terminator over
the ones before, the last one is read back exactly if it leaves room for a
terminator and none before it was longer. -/
theorem readString_layered_iff [DecidableEq α] {texts : List (List α)} {text : List α} {n : ℕ}
    (noBlank : ∀ earlier ∈ texts, blank ∉ earlier) (noNul : blank ∉ text) :
    readString blank (List.ofFn fun i : Fin n => layered blank (texts ++ [text]) i) = some text ↔
      text.length < n ∧ ∀ earlier ∈ texts, earlier.length ≤ text.length := by
  rw [readString_ofFn _ noNul, ← layered_eq_blank_iff blank noBlank]
  refine and_congr_right fun _ => ⟨fun same => ?_, fun behind i upTo => ?_⟩
  · have final := same text.length le_rfl
    simpa [layered_concat] using final
  · rw [layered_concat]
    rcases Nat.lt_or_eq_of_le upTo with before | rfl
    · rw [List.getD_eq_getElem _ _ before, List.getD_eq_getElem _ _ before]
    · rw [List.getD_eq_default _ _ le_rfl, List.getD_eq_default _ _ le_rfl, behind]

end Layers

end Jacks.Foundations
