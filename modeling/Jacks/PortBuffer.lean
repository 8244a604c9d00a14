import Jacks.Port

/-!
# What a script sees of a capture

`JsPort.getBuffer` wraps a read in a `JsPortBuffer`, and the script looks at it
through `length` and `getf`.  `length` is the number of *bytes* copied.  `getf`
is `return(float*) $self->framebuf[i]`: the cast applies to the character
`framebuf[i]`, so what is returned is a pointer whose address is that one
character, sign-extended, and the wrapper turns it into an opaque pointer
object, or into the undefined value if the address is null (`getf_ne_number`).
-/

namespace Jacks

open Foundations JackRingbuffer

universe u

/-- What a wrapped call can hand to the script. -/
inductive ScriptValue
  /-- `undef`, `None` or `nil`. -/
  | undef
  /-- An opaque object around an address. -/
  | pointer (address : BitVec 64)
  /-- A number, by the bits of the `float` it was made from. -/
  | number (bits : Sample)
  deriving DecidableEq

/-- `SWIG_NewPointerObj`. -/
def ScriptValue.newPointerObj (address : BitVec 64) : ScriptValue :=
  if address = 0 then undef else pointer address

theorem ScriptValue.newPointerObj_ne_number (address : BitVec 64) (bits : Sample) :
    newPointerObj address ≠ number bits := by
  unfold newPointerObj
  split <;> simp

/-- `JsPortBuffer`, with the frame buffer its pointer leads to. -/
structure JsPortBuffer where
  framebuf : List Byte
  len : ℤ

namespace JsPortBuffer

/-- `JsPortBuffer.length`, an `unsigned int`. -/
def length (b : JsPortBuffer) : ℕ := toUnsigned b.len

/-- `JsPortBuffer.getf`: `none` is a read behind the frame buffer.  A `char` is
signed here. -/
def getf (b : JsPortBuffer) (i : ℕ) : Option ScriptValue :=
  b.framebuf[i]?.map fun c => ScriptValue.newPointerObj (c.signExtend 64)

/-- No call of `getf` reads a sample. -/
theorem getf_ne_number (b : JsPortBuffer) (i : ℕ) (s : Sample) :
    b.getf i ≠ some (.number s) := by
  unfold getf
  cases b.framebuf[i]? with
  | none => simp
  | some c => simpa using ScriptValue.newPointerObj_ne_number _ s

/-- The script reads back `samples`: as many as there are, each of them. -/
def ReadsBack (b : JsPortBuffer) (samples : List Sample) : Prop :=
  b.length = samples.length ∧
    ∀ (i : ℕ) (inside : i < samples.length), b.getf i = some (.number (samples[i]))

end JsPortBuffer

variable {ρ : Type u} [JackRingbuffer ρ]

/-- `JsPort.getBuffer`. -/
def JsPort.getBuffer (p : JacksRbPort ρ) : JacksRbPort ρ × JsPortBuffer :=
  let result := p.readFromRingbuffer
  (result.1, { framebuf := result.1.framebuf, len := result.2 })

namespace JsPort

variable (p : JacksRbPort ρ)

/-- `length` counts the bytes copied. -/
theorem length_getBuffer : (getBuffer p).2.length = p.copied.length := by
  rw [getBuffer, JsPortBuffer.length, p.toUnsigned_len_read]

/-- **Reading back a capture.**  Whatever samples a `getBuffer` call copied, the
script reads them back exactly when there were none: `length` is four times
their number, and `getf` never yields a number. -/
theorem getBuffer_readsBack_iff {samples : List Sample}
    (capture : p.copied = sampleBytes samples) :
    (getBuffer p).2.ReadsBack samples ↔ samples = [] := by
  have counted : (getBuffer p).2.length = 4 * samples.length := by
    rw [length_getBuffer, capture, length_sampleBytes]
  constructor
  · rintro ⟨sameLength, -⟩
    exact List.eq_nil_of_length_eq_zero (by omega)
  · rintro rfl
    exact ⟨counted, fun i inside => absurd inside (Nat.not_lt_zero i)⟩

/-- A port of 16 bytes that has captured the one sample `1.0`. -/
def capturedOne : JacksRbPort (BoundedFifo Byte) :=
  ((JacksRbPort.new 16 ⟨fun _ => 0, 0⟩).writeToRingbuffer 1 fun _ => 0x3F800000#32).1

theorem copied_capturedOne : capturedOne.copied = sampleBytes [0x3F800000#32] := by
  decide

/-- One sample comes back as four, and the first of them is undefined. -/
example : (getBuffer capturedOne).2.length = 4 ∧
    (getBuffer capturedOne).2.getf 0 = some .undef := by
  decide

theorem getBuffer_readsBack_iff_capturedOne :
    capturedOne.copied = sampleBytes [0x3F800000#32] ∧
      ((getBuffer capturedOne).2.ReadsBack [0x3F800000#32] ↔
        ([0x3F800000#32] : List Sample) = []) :=
  ⟨copied_capturedOne, getBuffer_readsBack_iff capturedOne copied_capturedOne⟩

/-- A capture of one sample is not read back. -/
theorem getBuffer_not_readsBack :
    ¬ ∀ (p : JacksRbPort (BoundedFifo Byte)) (samples : List Sample),
      p.copied = sampleBytes samples → (getBuffer p).2.ReadsBack samples := by
  intro always
  have readsBack := always capturedOne [0x3F800000#32] copied_capturedOne
  have oneIsFour : (getBuffer capturedOne).2.length = 1 := readsBack.1
  revert oneIsFour
  decide

end JsPort

end Jacks
