import Mathlib.Data.Int.ModEq
import Jacks.Foundations.Text
import Jacks.Foundations.TraceSystem
import Jacks.Ringbuffer

/-!
# Ports

`JacksRbPort` as far as the audio path uses it: the ring between the process
callback and the script, and the frame buffer a read copies into.  The two
operations are `writeToRingbuffer`, called by the process callback, and
`readFromRingbuffer`, called by `getBuffer`.

Three units meet here.  A write is `nframes` frames of four bytes; the ring is
created for `4 * rbSize` bytes; the frame buffer, and with it the limit of a
read, is `rbSize` *bytes*.  `size_t` is 64 bits wide, `jack_nframes_t` and `int`
32.

Each operation has one specification lemma per component of its result
(`unread_write…`, `rc_write…`, `unread_read…`, `len_read…`), and nothing later
unfolds them.
-/

namespace Jacks

open Foundations JackRingbuffer

universe u

/-! ## C integers and samples -/

/-- Conversion to `size_t`. -/
def sizeT (n : ℕ) : ℕ := n % 2 ^ 64

/-- Conversion of a `size_t` to `int`. -/
def toInt (n : ℕ) : ℤ := Int.bmod n (2 ^ 32)

/-- Conversion of an `int` to `unsigned int`. -/
def toUnsigned (z : ℤ) : ℕ := (z % 2 ^ 32).toNat

/-- Both conversions only change a number by a multiple of `2 ^ 32`. -/
theorem toInt_emod (n : ℕ) : toInt n % 2 ^ 32 = n % 2 ^ 32 := by
  have wraps : Int.bmod n (2 ^ 32) % ((2 ^ 32 : ℕ) : ℤ) = n % ((2 ^ 32 : ℕ) : ℤ) := Int.bmod_emod
  rwa [Nat.cast_pow, Nat.cast_ofNat] at wraps

/-- A number within the range of an `int` is not changed. -/
theorem toInt_of_small {n : ℕ} (small : n < 2 ^ 31) : toInt n = n := by
  have general : ∀ m : ℕ, m = 2 ^ 32 → Int.bmod n m = n := by
    intro m size
    exact Int.bmod_eq_of_le (by omega) (by omega)
  exact general _ rfl

/-- What fits 32 bits survives the way through an `int`. -/
theorem toUnsigned_toInt {n : ℕ} (small : n < 2 ^ 32) : toUnsigned (toInt n) = n := by
  rw [toUnsigned, toInt_emod]
  omega

/-- Passing through an `int` keeps divisibility by four. -/
theorem four_dvd_toInt_iff {n : ℕ} : (4 : ℤ) ∣ toInt n ↔ 4 ∣ n := by
  have := toInt_emod n
  omega

/-- The 32 bits of a `jack_default_audio_sample_t`. -/
abbrev Sample := BitVec 32

/-- `jacks_sample_size`. -/
def jacksSampleSize : ℕ := 4

/-- The bytes of one sample in memory, least significant first. -/
def Sample.bytes (s : Sample) : List Byte :=
  [s.extractLsb' 0 8, s.extractLsb' 8 8, s.extractLsb' 16 8, s.extractLsb' 24 8]

theorem Sample.length_bytes (s : Sample) : s.bytes.length = 4 := rfl

/-- The bytes of consecutive samples. -/
def sampleBytes (samples : List Sample) : List Byte :=
  samples.flatMap Sample.bytes

@[simp] theorem length_sampleBytes (samples : List Sample) :
    (sampleBytes samples).length = 4 * samples.length :=
  length_flatMap_of_width Sample.length_bytes samples

/-- What `jack_port_get_buffer` hands out for one port and one cycle, frame by
frame. -/
abbrev PortBuffer := ℕ → Sample

/-- The bytes of the first `nframes` frames of a buffer. -/
def captured (nframes : UInt32) (buff : PortBuffer) : List Byte :=
  sampleBytes ((List.range nframes.toNat).map buff)

@[simp] theorem length_captured (nframes : UInt32) (buff : PortBuffer) :
    (captured nframes buff).length = 4 * nframes.toNat := by
  simp [captured]

/-! ## The port -/

/-- What `malloc` left in the fields the constructor does not set. -/
structure Malloced where
  framebuf : ℕ → Byte
  overruns : ℤ

/-- `JacksRbPort`, without the latency listeners. -/
structure JacksRbPort (ρ : Type u) where
  rbSize : UInt32
  rb : ρ
  framebuf : List Byte
  overruns : ℤ
  /-- The frame buffer is `rb_size` bytes long. -/
  framebuf_length : framebuf.length = rbSize.toNat

namespace JacksRbPort

variable {ρ : Type u} [JackRingbuffer ρ]

/-- `JacksRbPort_new`. -/
def new (rbSize : UInt32) (left : Malloced) : JacksRbPort ρ where
  rbSize := rbSize
  rb := create (sizeT (jacksSampleSize * rbSize.toNat))
  framebuf := (List.range rbSize.toNat).map left.framebuf
  overruns := left.overruns
  framebuf_length := by simp

/-- `write_size`. -/
def writeSize (nframes : UInt32) : ℕ := sizeT (jacksSampleSize * nframes.toNat)

/-- `JacksRbPort_write_to_ringbuffer`, where `buff` is what
`jack_port_get_buffer` returns. -/
def writeToRingbuffer (p : JacksRbPort ρ) (nframes : UInt32) (buff : PortBuffer) :
    JacksRbPort ρ × ℤ :=
  let result := write p.rb ((captured nframes buff).take (writeSize nframes))
  if result.2 < writeSize nframes then
    ({ p with rb := result.1, overruns := p.overruns + 1 }, -1)
  else ({ p with rb := result.1 }, 0)

/-- `blen`: how many bytes a read takes. -/
def blen (p : JacksRbPort ρ) : ℕ :=
  if readSpace p.rb < p.rbSize.toNat then readSpace p.rb else p.rbSize.toNat

/-- The bytes a read copies to the start of the frame buffer. -/
def copied (p : JacksRbPort ρ) : List Byte := (read p.rb p.blen).2

theorem blen_eq (p : JacksRbPort ρ) :
    p.blen = min (unread p.rb).length p.rbSize.toNat := by
  unfold blen
  rw [readSpace_eq]
  split <;> omega

theorem blen_le (p : JacksRbPort ρ) : p.blen ≤ p.rbSize.toNat := by
  rw [blen_eq]; omega

@[simp] theorem length_copied (p : JacksRbPort ρ) : p.copied.length = p.blen := by
  have := p.blen_eq
  simp only [copied, copied_read, List.length_take]
  omega

theorem copied_eq (p : JacksRbPort ρ) : p.copied = (unread p.rb).take p.rbSize.toNat := by
  rw [copied, copied_read, blen_eq, min_comm, ← List.take_take, List.take_length]

/-- `JacksRbPort_read_from_ringbuffer`: the frame buffer is a field of the port
returned, the number is `*len`. -/
def readFromRingbuffer (p : JacksRbPort ρ) : JacksRbPort ρ × ℤ :=
  ({ p with
      rb := (read p.rb p.blen).1
      framebuf := p.copied ++ p.framebuf.drop p.copied.length
      framebuf_length := by
        have := p.blen_le
        have := p.framebuf_length
        simp
        omega },
    toInt p.blen)

/-! ### What an operation does -/

variable (p : JacksRbPort ρ) (nframes : UInt32) (buff : PortBuffer)

/-- `4 * nframes` never overflows a 64-bit `size_t`. -/
@[simp] theorem writeSize_eq : writeSize nframes = 4 * nframes.toNat := by
  have := nframes.toNat_lt
  unfold writeSize sizeT jacksSampleSize
  omega

theorem take_captured : (captured nframes buff).take (writeSize nframes) = captured nframes buff :=
  List.take_of_length_le (by simp)

@[simp] theorem rbSize_new (rbSize : UInt32) (left : Malloced) :
    (new rbSize left : JacksRbPort ρ).rbSize = rbSize := rfl

@[simp] theorem unread_new (rbSize : UInt32) (left : Malloced) :
    unread (new rbSize left : JacksRbPort ρ).rb = [] := by
  simp [new]

@[simp] theorem usable_new (rbSize : UInt32) (left : Malloced) :
    usable (new rbSize left : JacksRbPort ρ).rb = ringSize (4 * rbSize.toNat) - 1 := by
  have := rbSize.toNat_lt
  have exact_size : sizeT (jacksSampleSize * rbSize.toNat) = 4 * rbSize.toNat := by
    unfold sizeT jacksSampleSize
    omega
  simp [new, exact_size]

@[simp] theorem rbSize_write : (p.writeToRingbuffer nframes buff).1.rbSize = p.rbSize := by
  unfold writeToRingbuffer
  dsimp only
  split <;> rfl

theorem rb_write : (p.writeToRingbuffer nframes buff).1.rb =
    (write p.rb (captured nframes buff)).1 := by
  unfold writeToRingbuffer
  rw [take_captured]
  dsimp only
  split <;> rfl

@[simp] theorem usable_write : usable (p.writeToRingbuffer nframes buff).1.rb = usable p.rb := by
  rw [rb_write, JackRingbuffer.usable_write]

/-- What a write adds to the unread bytes. -/
theorem unread_write : unread (p.writeToRingbuffer nframes buff).1.rb =
    unread p.rb ++ (captured nframes buff).take (free p.rb) := by
  rw [rb_write, JackRingbuffer.unread_write, free]

/-- A write returns 0 if the block fits and -1 if it does not. -/
theorem rc_write : (p.writeToRingbuffer nframes buff).2 =
    if 4 * nframes.toNat ≤ free p.rb then 0 else -1 := by
  have fits : (write p.rb (captured nframes buff)).2 < 4 * nframes.toNat ↔
      free p.rb < 4 * nframes.toNat := by
    simpa using stored_write_lt_iff (r := p.rb) (b := captured nframes buff)
  unfold writeToRingbuffer
  rw [take_captured, writeSize_eq]
  dsimp only
  by_cases room : 4 * nframes.toNat ≤ free p.rb
  · rw [if_neg (by rw [fits]; omega), if_pos room]
  · rw [if_pos (by rw [fits]; omega), if_neg room]

theorem rc_write_eq_zero_iff :
    (p.writeToRingbuffer nframes buff).2 = 0 ↔ 4 * nframes.toNat ≤ free p.rb := by
  rw [rc_write]
  split <;> simp_all

/-- A write that does not return 0 returns -1: its block has not fitted. -/
theorem rc_write_of_ne_zero (failure : (p.writeToRingbuffer nframes buff).2 ≠ 0) :
    (p.writeToRingbuffer nframes buff).2 = -1 ∧ free p.rb < 4 * nframes.toNat := by
  have overrun : ¬ 4 * nframes.toNat ≤ free p.rb :=
    mt (p.rc_write_eq_zero_iff nframes buff).mpr failure
  rw [rc_write, if_neg overrun]
  exact ⟨rfl, Nat.lt_of_not_le overrun⟩

/-- A write that returns 0 has stored its whole block. -/
theorem unread_write_of_rc_zero (success : (p.writeToRingbuffer nframes buff).2 = 0) :
    unread (p.writeToRingbuffer nframes buff).1.rb = unread p.rb ++ captured nframes buff := by
  rw [unread_write, List.take_of_length_le]
  rw [length_captured]
  exact (p.rc_write_eq_zero_iff nframes buff).mp success

@[simp] theorem rbSize_read : p.readFromRingbuffer.1.rbSize = p.rbSize := rfl

@[simp] theorem usable_read : usable p.readFromRingbuffer.1.rb = usable p.rb :=
  JackRingbuffer.usable_read _ _

/-- A read takes away what it copied, and nothing else. -/
theorem unread_read : unread p.rb = p.copied ++ unread p.readFromRingbuffer.1.rb := by
  simp [readFromRingbuffer, copied]

theorem framebuf_read :
    p.readFromRingbuffer.1.framebuf = p.copied ++ p.framebuf.drop p.copied.length := rfl

theorem len_read : p.readFromRingbuffer.2 = toInt p.blen := by
  rw [readFromRingbuffer]

/-- The reported length, read back unsigned, is the number of bytes copied. -/
theorem toUnsigned_len_read : toUnsigned p.readFromRingbuffer.2 = p.copied.length := by
  rw [len_read, length_copied]
  exact toUnsigned_toInt (p.blen_le.trans_lt p.rbSize.toNat_lt)

end JacksRbPort

end Jacks
