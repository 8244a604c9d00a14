import Mathlib.Data.List.Basic
import Mathlib.Data.List.Nodup
import Mathlib.Tactic.Common

/-!
# Threaded lists

A list that a memory holds by links: each cell of it lies at an address, and the
link stored at that address leads to the next cell.  `Links` says what a link to a
cell and a link to nothing look like, so that the bare pointers of a queue and the
pointers with a counter of a free list are both instances; `Links.Threaded` says that a
memory spells a given list.

The lemmas are the frame rule (`Threaded.congr`), how the list grows at its front and
at its end and shrinks at its front, and how a link that was found in memory locates
its cell (`Threaded.link`, `Threaded.last_of_nil`).
-/

namespace Jacks.Foundations

universe u v w

/-- How cells are addressed and referred to. -/
structure Links (κ : Type u) (ν : Type v) (ρ : Type w) where
  addr : κ → ν
  /-- The link to nothing. -/
  nil : ρ
  /-- The link to a cell. -/
  ref : κ → ρ

namespace Links

variable {κ : Type u} {ν : Type v} {ρ : Type w} (L : Links κ ν ρ)

/-- The link that leads into a list. -/
def entry : List κ → ρ
  | [] => L.nil
  | k :: _ => L.ref k

@[simp] theorem entry_nil : L.entry [] = L.nil := rfl

@[simp] theorem entry_cons (k : κ) (rest : List κ) : L.entry (k :: rest) = L.ref k := rfl

/-- Where a link to a cell is no link to nothing, an entry says whether there is a
cell. -/
theorem entry_eq_nil_iff (proper : ∀ k, L.ref k ≠ L.nil) {cells : List κ} :
    L.entry cells = L.nil ↔ cells = [] := by
  cases cells with
  | nil => simp
  | cons k rest => simp [proper k]

/-- An entry to a cell leads to a list that starts with it. -/
theorem exists_cons_of_entry (proper : ∀ k, L.ref k ≠ L.nil)
    (injective : Function.Injective L.ref) {cells : List κ} {k : κ}
    (leads : L.entry cells = L.ref k) : ∃ rest, cells = k :: rest := by
  cases cells with
  | nil => exact absurd leads.symm (proper k)
  | cons first rest => exact ⟨rest, by rw [injective leads]⟩

/-- The memory spells the list: at the address of each cell is the link to what comes
after it. -/
def Threaded (store : ν → ρ) : List κ → Prop
  | [] => True
  | k :: rest => store (L.addr k) = L.entry rest ∧ Threaded store rest

namespace Threaded

variable {L} {store store' : ν → ρ} {cells : List κ}

/-- **The frame rule.**  A memory that agrees on the cells spells the same list. -/
theorem congr (spells : L.Threaded store cells)
    (same : ∀ k ∈ cells, store' (L.addr k) = store (L.addr k)) : L.Threaded store' cells := by
  induction cells with
  | nil => trivial
  | cons k rest ih =>
      obtain ⟨first, others⟩ := spells
      refine ⟨?_, ih others fun k' mem => same k' (List.mem_cons_of_mem _ mem)⟩
      rw [same k List.mem_cons_self, first]

/-- The link at a cell leads to what comes after it. -/
theorem link {front rest : List κ} {k : κ} (spells : L.Threaded store (front ++ k :: rest)) :
    store (L.addr k) = L.entry rest := by
  induction front with
  | nil => exact spells.1
  | cons _ _ ih => exact ih spells.2

/-- What comes after some cells is spelt as well. -/
theorem suffix {front rest : List κ} (spells : L.Threaded store (front ++ rest)) :
    L.Threaded store rest := by
  induction front with
  | nil => exact spells
  | cons _ _ ih => exact ih spells.2

/-- The memory spells one list from a cell on. -/
theorem unique (proper : ∀ k, L.ref k ≠ L.nil) (injective : Function.Injective L.ref)
    {rest : List κ} : ∀ {rest' : List κ} {k : κ}, L.Threaded store (k :: rest) →
      L.Threaded store (k :: rest') → rest = rest' := by
  induction rest with
  | nil =>
      intro rest' k spells spells'
      exact ((L.entry_eq_nil_iff proper).mp (spells'.1.symm.trans spells.1)).symm
  | cons m rest ih =>
      intro rest' k spells spells'
      obtain ⟨rest'', rfl⟩ :=
        L.exists_cons_of_entry proper injective (spells'.1.symm.trans spells.1)
      rw [ih spells.2 spells'.2]

/-- Only the last cell has a link to nothing. -/
theorem last_of_nil (proper : ∀ k, L.ref k ≠ L.nil) (spells : L.Threaded store cells) {k : κ}
    (mem : k ∈ cells) (ends : store (L.addr k) = L.nil) : ∃ front, cells = front ++ [k] := by
  obtain ⟨front, rest, rfl⟩ := List.append_of_mem mem
  have leads := spells.link
  rw [ends] at leads
  obtain rfl := (L.entry_eq_nil_iff proper).mp leads.symm
  exact ⟨front, rfl⟩

/-- **The list grows at its end** when the last cell is linked to a new one. -/
theorem concat {front : List κ} {last k : κ} (spells : L.Threaded store (front ++ [last]))
    (same : ∀ c ∈ front, store' (L.addr c) = store (L.addr c))
    (linked : store' (L.addr last) = L.ref k) (ends : store' (L.addr k) = L.nil) :
    L.Threaded store' (front ++ [last] ++ [k]) := by
  induction front with
  | nil => exact ⟨linked, ends, trivial⟩
  | cons c rest ih =>
      obtain ⟨first, others⟩ := spells
      refine ⟨?_, ih others fun c' mem => same c' (List.mem_cons_of_mem _ mem)⟩
      rw [same c List.mem_cons_self, first]
      cases rest <;> rfl

end Threaded

end Links

end Jacks.Foundations
