import Mathlib.Algebra.Group.Nat.Defs
import Mathlib.Data.Nat.Log
import Jacks.Foundations.BoundedFifo

/-!
# The byte ring of libjack

`jack_ringbuffer_t` is libjack's and not part of this program, so it is a
parameter here: `JackRingbuffer ρ` is the interface the ports call, with the
documented behaviour of each call as a law.  The laws are stated through two
views of a ring, `unread` (the bytes written and not yet read, oldest first) and
`usable` (how many such bytes it can hold).

`jack_ringbuffer_create sz` makes a ring of the least power of two that is at
least `sz` and at least two (`ringSize`), and one byte of it is never used.  The
arithmetic every later bound rests on is proved here, once: the usable size is
odd, hence never a whole number of samples, and it is at least the requested
size less one.

A bounded queue of bytes satisfies the interface; it is the instance concrete
runs are evaluated on.
-/

namespace Jacks

open Foundations

universe u

/-- A byte of memory. -/
abbrev Byte := BitVec 8

/-! ## The size of a ring -/

/-- The least power of two that is at least `sz` and at least two. -/
def ringSize (sz : ℕ) : ℕ := 2 ^ Nat.clog 2 (max sz 2)

theorem le_ringSize (sz : ℕ) : sz ≤ ringSize sz :=
  (le_max_left sz 2).trans (Nat.le_pow_clog Nat.one_lt_two _)

theorem two_le_ringSize (sz : ℕ) : 2 ≤ ringSize sz :=
  (le_max_right sz 2).trans (Nat.le_pow_clog Nat.one_lt_two _)

/-- No smaller power of two is big enough. -/
theorem ringSize_le_pow {sz k : ℕ} (enough : sz ≤ 2 ^ k) (atLeastTwo : 2 ≤ 2 ^ k) :
    ringSize sz ≤ 2 ^ k :=
  Nat.pow_le_pow_right Nat.two_pos (Nat.clog_le_of_le_pow (max_le enough atLeastTwo))

theorem two_dvd_ringSize (sz : ℕ) : 2 ∣ ringSize sz :=
  Nat.pow_dvd_pow 2 (Nat.clog_pos Nat.one_lt_two (le_max_right sz 2))

/-! ## The interface -/

/-- The calls on a `jack_ringbuffer_t` the ports make, and what they do. -/
class JackRingbuffer (ρ : Type u) where
  /-- `jack_ringbuffer_create`. -/
  create : ℕ → ρ
  /-- `jack_ringbuffer_write`: the number is how many bytes were stored. -/
  write : ρ → List Byte → ρ × ℕ
  /-- `jack_ringbuffer_read`, with the bytes copied out. -/
  read : ρ → ℕ → ρ × List Byte
  /-- `jack_ringbuffer_read_space`. -/
  readSpace : ρ → ℕ
  /-- The bytes written and not yet read, oldest first. -/
  unread : ρ → List Byte
  /-- How many unread bytes the ring can hold. -/
  usable : ρ → ℕ
  unread_length_le : ∀ r, (unread r).length ≤ usable r
  unread_create : ∀ sz, unread (create sz) = []
  usable_create : ∀ sz, usable (create sz) = ringSize sz - 1
  /-- A block that does not fit is stored as far as it does. -/
  unread_write : ∀ r block,
    unread (write r block).1 = unread r ++ block.take (usable r - (unread r).length)
  usable_write : ∀ r block, usable (write r block).1 = usable r
  stored_write : ∀ r block, (write r block).2 = min block.length (usable r - (unread r).length)
  unread_read : ∀ r n, unread (read r n).1 = (unread r).drop n
  usable_read : ∀ r n, usable (read r n).1 = usable r
  copied_read : ∀ r n, (read r n).2 = (unread r).take n
  readSpace_eq : ∀ r, readSpace r = (unread r).length

namespace JackRingbuffer

attribute [simp] unread_create usable_create usable_write unread_read usable_read copied_read
  readSpace_eq

variable {ρ : Type u} [JackRingbuffer ρ]

/-- How many more bytes fit. -/
def free (r : ρ) : ℕ := usable r - (unread r).length

/-- Fewer bytes are stored than offered exactly when the block does not fit. -/
theorem stored_write_lt_iff {r : ρ} {b : List Byte} :
    (write r b).2 < b.length ↔ free r < b.length := by
  rw [stored_write, free]
  omega

/-- The bounded byte queue is such a ring. -/
instance : JackRingbuffer (BoundedFifo Byte) where
  create sz := BoundedFifo.empty (ringSize sz - 1)
  write := BoundedFifo.write
  read := BoundedFifo.read
  readSpace q := q.items.length
  unread := BoundedFifo.items
  usable := BoundedFifo.capacity
  unread_length_le q := q.fits
  unread_create _ := rfl
  usable_create _ := rfl
  unread_write _ _ := rfl
  usable_write _ _ := rfl
  stored_write _ _ := rfl
  unread_read _ _ := rfl
  usable_read _ _ := rfl
  copied_read _ _ := rfl
  readSpace_eq _ := rfl

end JackRingbuffer

end Jacks
