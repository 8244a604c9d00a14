import Jacks.Port

/-!
# Exceptions

How an error reaches the script: `throw_exception` copies its message into a
static buffer and sets a flag, and returns.  Every call of the script is wrapped
in the `%exception` block, which clears the flag before the call and raises an
exception after it if the flag is set.  A call therefore goes on after a throw.

What C leaves undefined is a fault, and a call that runs into one has no result.
-/

namespace Jacks

universe u v

/-- What a call may run into that has no defined behaviour. -/
inductive Fault
  /-- A field of a `NULL` pointer is accessed. -/
  | nullDereference
  /-- A byte is written behind the end of the message buffer. -/
  | pastBuffer
  deriving DecidableEq

/-- A C string: its characters, none of which is NUL. -/
structure CString where
  chars : List Byte
  noNul : 0 ∉ chars

/-- A C string of a text within the first 256 characters. -/
def CString.ofText (text : List Char)
    (noNul : 0 ∉ text.map fun c => BitVec.ofNat 8 c.toNat := by decide) : CString :=
  ⟨text.map fun c => BitVec.ofNat 8 c.toNat, noNul⟩

/-- `error_message` and `error_status`. -/
structure ErrorState where
  message : Fin 256 → Byte
  status : Bool

/-- Conversion of an `int` to `size_t`. -/
def intToSizeT (z : ℤ) : ℕ := (z % 2 ^ 64).toNat

theorem intToSizeT_of_small {n : ℕ} (small : n < 2 ^ 31) : intToSizeT n = n := by
  have whole : (n : ℤ) % 2 ^ 64 = n := by omega
  rw [intToSizeT, whole, Int.toNat_natCast]

/-- `strncpy` into the message buffer: `n` bytes are written, those of the string
and NULs once it has ended. -/
def strncpy (dest : Fin 256 → Byte) (src : CString) (n : ℕ) : Except Fault (Fin 256 → Byte) :=
  if n ≤ 256 then .ok fun i => if i < n then src.chars.getD i 0 else dest i
  else .error .pastBuffer

/-- How many bytes `throw_exception` has copied for a message of the length `len`. -/
def copySize (len : ℤ) : ℕ :=
  intToSizeT (if len < 256 then len else 256)

theorem copySize_of_short {n : ℕ} (short : n < 256) : copySize (toInt n) = n := by
  have small : n < 2 ^ 31 := by omega
  have fits : (n : ℤ) < 256 := by omega
  rw [toInt_of_small small, copySize, if_pos fits, intToSizeT_of_small small]

namespace ErrorState

/-- `throw_exception`. -/
def throwException (e : ErrorState) (msg : CString) : Except Fault ErrorState :=
  (strncpy e.message msg (copySize (toInt msg.chars.length))).map fun message => ⟨message, true⟩

/-- `clear_exception`. -/
def clearException (e : ErrorState) : ErrorState := { e with status := false }

/-- `check_exception`. -/
def checkException (e : ErrorState) : Option (Fin 256 → Byte) :=
  if e.status then some e.message else none

end ErrorState

/-- What a wrapped call gives the script: its result, or an exception with the text
the buffer holds. -/
inductive Outcome (α : Type u)
  | returned (result : α)
  | raised (err : Fin 256 → Byte)

/-- The `%exception` block around an action, which may use the errors and whatever
else there is. -/
def exceptionBlock {α : Type u} {σ : Type v}
    (action : ErrorState → σ → Except Fault (α × ErrorState × σ)) (e : ErrorState) (rest : σ) :
    Except Fault (Outcome α × ErrorState × σ) :=
  match action e.clearException rest with
  | .error fault => .error fault
  | .ok (result, e, rest) =>
      match e.checkException with
      | some err => .ok (.raised err, e, rest)
      | none => .ok (.returned result, e, rest)

end Jacks
