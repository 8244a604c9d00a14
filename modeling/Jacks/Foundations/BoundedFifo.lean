import Mathlib.Data.List.Basic
import Mathlib.Tactic.Common

/-!
# Bounded first-in first-out queues

A queue with a fixed capacity, in the two shapes buffers come in:

* element-wise (`enqueue`, `dequeue`): an element is stored whole or refused;
* stream-wise (`write`, `read`): a block is stored as far as it fits, a read
  takes as much as there is, up to a limit.

The bound is a field of the structure, so a queue above its capacity cannot be
built.  The last section is the accounting law of such queues over a whole run:
what was accepted is what was handed out followed by what is still inside
(`Conserves`), and each operation keeps it.
-/

namespace Jacks.Foundations

universe u

/-- A queue of at most `capacity` elements, oldest first. -/
structure BoundedFifo (α : Type u) where
  capacity : ℕ
  items : List α
  /-- The queue is never above its capacity. -/
  fits : items.length ≤ capacity
  deriving DecidableEq

namespace BoundedFifo

variable {α : Type u}

/-- The queue with nothing in it. -/
def empty (capacity : ℕ) : BoundedFifo α where
  capacity := capacity
  items := []
  fits := Nat.zero_le _

@[simp] theorem empty_items (capacity : ℕ) : (empty capacity : BoundedFifo α).items = [] := rfl

@[simp] theorem empty_capacity (capacity : ℕ) :
    (empty capacity : BoundedFifo α).capacity = capacity := rfl

/-- How many more elements fit. -/
def free (q : BoundedFifo α) : ℕ := q.capacity - q.items.length

theorem free_add_length (q : BoundedFifo α) : q.free + q.items.length = q.capacity :=
  Nat.sub_add_cancel q.fits

/-! ## Element-wise -/

/-- Append one element, unless the queue is full. -/
def enqueue (q : BoundedFifo α) (a : α) : Option (BoundedFifo α) :=
  if room : q.items.length < q.capacity then
    some { capacity := q.capacity, items := q.items ++ [a],
           fits := by rw [List.length_append]; exact room }
  else none

/-- Remove the oldest element, if there is one. -/
def dequeue (q : BoundedFifo α) : Option (α × BoundedFifo α) :=
  match same : q.items with
  | [] => none
  | a :: rest =>
      some (a, { capacity := q.capacity, items := rest,
                 fits := by have := q.fits; rw [same] at this; simp at this; omega })

theorem enqueue_eq_some_iff {q q' : BoundedFifo α} {a : α} :
    q.enqueue a = some q' ↔
      q.items.length < q.capacity ∧ q'.capacity = q.capacity ∧ q'.items = q.items ++ [a] := by
  unfold enqueue
  split
  · next room =>
      cases q' with
      | mk capacity' items' fits' =>
          simp only [Option.some.injEq, mk.injEq]
          exact ⟨fun ⟨h₁, h₂⟩ => ⟨room, h₁.symm, h₂.symm⟩, fun ⟨_, h₁, h₂⟩ => ⟨h₁.symm, h₂.symm⟩⟩
  · next full => simp [full]

theorem enqueue_eq_none_iff {q : BoundedFifo α} {a : α} :
    q.enqueue a = none ↔ q.items.length = q.capacity := by
  have := q.fits
  unfold enqueue
  split
  · next room => simp; omega
  · next full => simp; omega

theorem dequeue_eq_some_iff {q q' : BoundedFifo α} {a : α} :
    q.dequeue = some (a, q') ↔ q.items = a :: q'.items ∧ q'.capacity = q.capacity := by
  cases q with
  | mk capacity items fits =>
      cases q' with
      | mk capacity' items' fits' =>
          cases items with
          | nil => simp [dequeue]
          | cons b rest => simp [dequeue, eq_comm, and_left_comm, and_comm]

theorem dequeue_eq_none_iff {q : BoundedFifo α} : q.dequeue = none ↔ q.items = [] := by
  cases q with
  | mk capacity items fits => cases items <;> simp [dequeue]

/-! ## Stream-wise -/

/-- Append as much of a block as fits, and say how much that was. -/
def write (q : BoundedFifo α) (block : List α) : BoundedFifo α × ℕ :=
  ({ capacity := q.capacity
     items := q.items ++ block.take q.free
     fits := by have := q.free_add_length; simp; omega },
   min block.length q.free)

/-- Remove and return the oldest `n` elements, or all there are. -/
def read (q : BoundedFifo α) (n : ℕ) : BoundedFifo α × List α :=
  ({ capacity := q.capacity
     items := q.items.drop n
     fits := by have := q.fits; simp; omega },
   q.items.take n)

/-! ## The accounting law -/

/-- What was accepted so far is what was handed out followed by what is still
inside, in this order and with nothing else. -/
def Conserves (accepted returned inside : List α) : Prop :=
  accepted = returned ++ inside

namespace Conserves

variable {accepted returned inside : List α}

theorem start : Conserves ([] : List α) [] [] := rfl

/-- Accepting a block puts it behind everything inside. -/
theorem accept (h : Conserves accepted returned inside) (block : List α) :
    Conserves (accepted ++ block) returned (inside ++ block) := by
  rw [Conserves, h, List.append_assoc]

/-- Handing out a front part moves it from inside to what was returned. -/
theorem hand_out {front rest : List α} (h : Conserves accepted returned inside)
    (split : inside = front ++ rest) : Conserves accepted (returned ++ front) rest := by
  rw [Conserves, h, split, List.append_assoc]

/-- What was handed out is a prefix of what was accepted. -/
theorem returned_isPrefix (h : Conserves accepted returned inside) : returned <+: accepted :=
  ⟨inside, h.symm⟩

theorem length (h : Conserves accepted returned inside) :
    accepted.length = returned.length + inside.length := by
  rw [h, List.length_append]

end Conserves

end BoundedFifo

end Jacks.Foundations
