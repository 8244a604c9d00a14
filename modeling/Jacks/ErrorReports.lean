import Jacks.Exceptions
import Jacks.Foundations.Text
import Jacks.Foundations.TraceSystem

/-!
# Which error a script is told

The message buffer is static and `throw_exception` copies a message into it
without the NUL (`throwException_of_short`), so what a message leaves of the
buffer is what the messages of earlier calls have put there.  The script reads
its own error exactly if the message leaves room for a NUL and every message so
far was at most as long, or if it is a message of `2 ^ 32` characters or more, of
which hardly any are copied and the rest happens to be in the buffer already
(`errors_reported_iff`).

The length is kept in an `int`.  A length whose `int` is negative becomes a huge
`size_t`, and `strncpy` leaves the buffer.
-/

namespace Jacks

open Foundations

namespace CString

variable (msg : CString)

/-- How many bytes `throw_exception` has copied of a message. -/
def copied : ℕ := copySize (toInt msg.chars.length)

/-- `int len = strlen(msg)` is not negative. -/
def LengthNonneg : Prop := msg.chars.length % 2 ^ 32 < 2 ^ 31

instance : Decidable msg.LengthNonneg := inferInstanceAs (Decidable (_ < _))

/-- The bytes `throw_exception` leaves in the buffer. -/
def written : List Byte := msg.chars.take msg.copied

/-- The text a script should read: the message, cut to what the buffer can hold
with a NUL. -/
def report : List Byte := msg.chars.take 255

end CString

/-- What an `int` can be. -/
theorem toInt_range (n : ℕ) : -2 ^ 31 ≤ toInt n ∧ toInt n < 2 ^ 31 := by
  have general : ∀ m : ℕ, m = 2 ^ 32 → -2 ^ 31 ≤ Int.bmod n m ∧ Int.bmod n m < 2 ^ 31 := by
    intro m size
    have low : -((m : ℤ) / 2) ≤ Int.bmod n m := Int.le_bmod (by omega)
    have high : Int.bmod n m < ((m : ℤ) + 1) / 2 := Int.bmod_lt (by omega)
    omega
  exact general _ rfl

theorem copySize_of_nonneg {n : ℕ} (nonneg : n % 2 ^ 32 < 2 ^ 31) :
    copySize (toInt n) = min (n % 2 ^ 32) 256 := by
  have wraps := toInt_emod n
  have range := toInt_range n
  have same : toInt n = (n % 2 ^ 32 : ℕ) := by omega
  rw [copySize, same]
  split
  · rw [intToSizeT_of_small nonneg]
    omega
  · rw [show (256 : ℤ) = (256 : ℕ) from rfl, intToSizeT_of_small (by decide)]
    omega

theorem copySize_of_neg {n : ℕ} (negative : 2 ^ 31 ≤ n % 2 ^ 32) : 256 < copySize (toInt n) := by
  have wraps := toInt_emod n
  have range := toInt_range n
  have below : toInt n < 256 := by omega
  rw [copySize, if_pos below, intToSizeT]
  omega

namespace CString

variable {msg : CString}

theorem copied_eq (nonneg : msg.LengthNonneg) :
    msg.copied = min (msg.chars.length % 2 ^ 32) 256 :=
  copySize_of_nonneg nonneg

/-- The copy stays in the buffer exactly if the length is not negative. -/
theorem copied_le_iff : msg.copied ≤ 256 ↔ msg.LengthNonneg := by
  by_cases nonneg : msg.LengthNonneg
  · rw [copied_eq nonneg]
    simp [nonneg]
  · have beyond : 256 < msg.copied := copySize_of_neg (Nat.le_of_not_lt nonneg)
    simp [nonneg, beyond]

theorem copied_le_length (nonneg : msg.LengthNonneg) : msg.copied ≤ msg.chars.length := by
  rw [copied_eq nonneg]
  exact (Nat.min_le_left _ _).trans (Nat.mod_le _ _)

theorem length_written (nonneg : msg.LengthNonneg) : msg.written.length = msg.copied := by
  rw [written, List.length_take, Nat.min_eq_left (copied_le_length nonneg)]

theorem noNul_written (msg : CString) : 0 ∉ msg.written :=
  fun mem => msg.noNul (List.mem_of_mem_take mem)

theorem noNul_report (msg : CString) : 0 ∉ msg.report :=
  fun mem => msg.noNul (List.mem_of_mem_take mem)

/-- A message of at most 255 characters is copied whole. -/
theorem written_of_short (short : msg.chars.length ≤ 255) : msg.written = msg.chars := by
  rw [written, copied, copySize_of_short (by omega), List.take_length]

theorem report_of_short (short : msg.chars.length ≤ 255) : msg.report = msg.chars :=
  List.take_of_length_le short

end CString

/-! ## Throwing -/

namespace ErrorState

/-- The buffer after messages, which starts with NULs. -/
def buffer (thrown : List CString) (i : Fin 256) : Byte :=
  layered 0 (thrown.map CString.written) i

/-- The throws of one action. -/
def throwing (e : ErrorState) (msgs : List CString) : Except Fault ErrorState :=
  msgs.foldlM throwException e

variable {e : ErrorState} {msg : CString} {before msgs : List CString}

theorem buffer_concat (i : Fin 256) :
    buffer (before ++ [msg]) i = msg.written.getD i (buffer before i) := by
  rw [buffer, List.map_append, List.map_singleton, layered_concat, buffer]

/-- One throw puts the copied bytes over what the buffer held. -/
theorem throwException_of_nonneg (nonneg : msg.LengthNonneg) : e.throwException msg =
    .ok ⟨fun i => msg.written.getD i (e.message i), true⟩ := by
  have inside : copySize (toInt msg.chars.length) ≤ 256 := CString.copied_le_iff.mpr nonneg
  have copied : (fun i : Fin 256 => if i < msg.copied then msg.chars.getD i 0 else e.message i) =
      fun i : Fin 256 => msg.written.getD i (e.message i) := by
    funext i
    have reach := CString.length_written nonneg
    split
    · next covered =>
        have short := CString.copied_le_length nonneg
        rw [List.getD_eq_getElem _ _ (by omega), List.getD_eq_getElem _ _ (by omega)]
        simp [CString.written]
    · next beyond => rw [List.getD_eq_default _ _ (by omega)]
  rw [throwException, strncpy, if_pos inside, ← copied, CString.copied, Except.map]

theorem throwException_of_neg (negative : ¬ msg.LengthNonneg) :
    e.throwException msg = .error .pastBuffer := by
  have beyond : ¬ copySize (toInt msg.chars.length) ≤ 256 :=
    fun inside => negative (CString.copied_le_iff.mp inside)
  rw [throwException, strncpy, if_neg beyond, Except.map]

/-- The throws of an action, after those of the actions before it. -/
theorem throwing_of_nonneg (holds : e.message = buffer before)
    (nonneg : ∀ msg ∈ msgs, msg.LengthNonneg) : e.throwing msgs =
      .ok ⟨buffer (before ++ msgs), e.status || !msgs.isEmpty⟩ := by
  induction msgs generalizing e before with
  | nil => simp [throwing, ← holds, pure, Except.pure]
  | cons msg rest ih =>
      obtain ⟨now, later⟩ := List.forall_mem_cons.mp nonneg
      have thrown : (fun i : Fin 256 => msg.written.getD i (e.message i)) =
          buffer (before ++ [msg]) := by
        funext i
        rw [buffer_concat, holds]
      have first := throwException_of_nonneg (e := e) now
      rw [thrown] at first
      have others := ih (e := ⟨buffer (before ++ [msg]), true⟩) rfl later
      rw [throwing] at others
      rw [throwing, List.foldlM_cons, first]
      simpa [bind, Except.bind] using others

/-- One message whose length is negative, and the call is lost. -/
theorem throwing_of_neg (negative : ∃ msg ∈ msgs, ¬ msg.LengthNonneg) :
    e.throwing msgs = .error .pastBuffer := by
  induction msgs generalizing e with
  | nil => simp at negative
  | cons msg rest ih =>
      rw [throwing, List.foldlM_cons]
      by_cases now : msg.LengthNonneg
      · rw [throwException_of_nonneg now]
        exact ih (by simpa [now] using negative)
      · rw [throwException_of_neg now]
        rfl

end ErrorState

/-! ## Wrapped calls -/

/-- A wrapped call whose action throws `msgs`. -/
def wrappedCall (e : ErrorState) (msgs : List CString) :
    Except Fault (Outcome Unit × ErrorState × Unit) :=
  exceptionBlock (fun e _ => (e.throwing msgs).map fun e => ((), e, ())) e ()

/-- What happens in one call. -/
structure CallObs where
  thrown : List CString
  result : Except Fault (Outcome Unit)

/-- The calls of a script, one after the other; the statics start with zeros.
Nothing is claimed of what follows a fault, so the state is kept there. -/
def callSystem : TraceSystem ErrorState (List CString) CallObs where
  init := ⟨fun _ => 0, false⟩
  next e msgs :=
    match wrappedCall e msgs with
    | .error fault => some (e, some ⟨msgs, .error fault⟩)
    | .ok (outcome, e', _) => some (e', some ⟨msgs, .ok outcome⟩)

/-- The messages thrown so far. -/
def thrownIn (history : List CallObs) : List CString :=
  history.flatMap CallObs.thrown

section Calls

variable {e : ErrorState} {before msgs : List CString}

theorem call_of_neg (negative : ∃ msg ∈ msgs, ¬ msg.LengthNonneg) :
    callSystem.next e msgs = some (e, some ⟨msgs, .error .pastBuffer⟩) := by
  simp only [callSystem, wrappedCall, exceptionBlock, ErrorState.throwing_of_neg negative,
    Except.map]

/-- A call without throws returns. -/
theorem call_of_nil :
    callSystem.next e [] = some (e.clearException, some ⟨[], .ok (.returned ())⟩) := by
  rfl

/-- A call with throws raises, and hands out the buffer. -/
theorem call_of_nonneg (holds : e.message = ErrorState.buffer before)
    (nonneg : ∀ msg ∈ msgs, msg.LengthNonneg) (throws : msgs ≠ []) :
    callSystem.next e msgs = some (⟨ErrorState.buffer (before ++ msgs), true⟩,
      some ⟨msgs, .ok (.raised (ErrorState.buffer (before ++ msgs)))⟩) := by
  have thrown : e.clearException.throwing msgs =
      .ok ⟨ErrorState.buffer (before ++ msgs), true⟩ := by
    rw [ErrorState.throwing_of_nonneg (e := e.clearException) holds nonneg]
    simp [throws]
  simp only [callSystem, wrappedCall, exceptionBlock, thrown, Except.map,
    ErrorState.checkException, if_true]

/-- Throws or not, the buffer is what all the messages have left, and the call is observed. -/
theorem call_message {e' : ErrorState} {o : Option CallObs}
    (holds : e.message = ErrorState.buffer before) (nonneg : ∀ msg ∈ msgs, msg.LengthNonneg)
    (moves : callSystem.next e msgs = some (e', o)) :
    e'.message = ErrorState.buffer (before ++ msgs) ∧ ∃ result, o = some ⟨msgs, result⟩ := by
  rcases eq_or_ne msgs [] with rfl | throws
  · rw [call_of_nil] at moves
    cases moves
    rw [List.append_nil]
    exact ⟨holds, _, rfl⟩
  · rw [call_of_nonneg holds nonneg throws] at moves
    cases moves
    exact ⟨rfl, _, rfl⟩

end Calls

/-! ## What the script reads -/

/-- A call reports its throws: it raises if there are any, and then the buffer
holds the last of them, cut to 255 characters. -/
def Reports (msgs : List CString) : Except Fault (Outcome Unit) → Prop
  | .error _ => False
  | .ok (.returned _) => msgs = []
  | .ok (.raised err) =>
      ∃ last ∈ msgs.getLast?, readString 0 (List.ofFn err) = some last.report

/-- A message fits: there is room for a NUL, and no message before it was copied
any further. -/
def CString.FitsAfter (last : CString) (before : List CString) : Prop :=
  last.chars.length ≤ 255 ∧ ∀ earlier ∈ before, earlier.copied ≤ last.chars.length

/-- A message whose length wraps to a small `int` is completed by what the
messages before it have left. -/
def CString.CompletedBy (last : CString) (before : List CString) : Prop :=
  2 ^ 32 ≤ last.chars.length ∧ last.copied ≤ 255 ∧
    ∀ i, last.copied ≤ i → i ≤ 255 →
      layered 0 (before.map CString.written) i = last.report.getD i 0

/-- After messages `before`, the error of a call that throws `msgs` can be
reported: no length is negative, and the last message fits or is completed. -/
def Reportable (before msgs : List CString) : Prop :=
  (∀ msg ∈ msgs, msg.LengthNonneg) ∧
    ∀ last ∈ msgs.getLast?,
      last.FitsAfter (before ++ msgs.dropLast) ∨ last.CompletedBy (before ++ msgs.dropLast)

section Reading

variable {before : List CString} {last : CString}

/-- A message that leaves room is read back if and only if it fits. -/
theorem reads_short_iff (nonneg : ∀ earlier ∈ before, earlier.LengthNonneg)
    (short : last.chars.length ≤ 255) :
    readString 0 (List.ofFn (ErrorState.buffer (before ++ [last]))) = some last.report ↔
      ∀ earlier ∈ before, earlier.copied ≤ last.chars.length := by
  have noBlank : ∀ earlier ∈ before.map CString.written, (0 : Byte) ∉ earlier := by
    intro earlier mem
    obtain ⟨msg, -, rfl⟩ := List.mem_map.mp mem
    exact msg.noNul_written
  have reads := readString_layered_iff (n := 256) 0 noBlank last.noNul_written
  rw [CString.written_of_short short] at reads
  have room : last.chars.length < 256 := by omega
  have buffers : ErrorState.buffer (before ++ [last]) =
      fun i : Fin 256 => layered 0 (before.map CString.written ++ [last.chars]) i := by
    funext i
    simp [ErrorState.buffer, CString.written_of_short short]
  rw [CString.report_of_short short, buffers, reads]
  simp only [room, true_and, List.forall_mem_map]
  exact forall₂_congr fun earlier mem => by rw [CString.length_written (nonneg earlier mem)]

/-- A longer message is read back, cut, if and only if it is completed. -/
theorem reads_long_iff (nonneg : last.LengthNonneg) (long : 255 < last.chars.length) :
    readString 0 (List.ofFn (ErrorState.buffer (before ++ [last]))) = some last.report ↔
      last.CompletedBy before := by
  have cut : last.report.length = 255 := by
    rw [CString.report, List.length_take]
    omega
  have reads := readString_ofFn (n := 256)
    (layered 0 ((before ++ [last]).map CString.written)) last.noNul_report
  have reach := CString.length_written nonneg
  have cells : ∀ i, layered 0 ((before ++ [last]).map CString.written) i =
      last.written.getD i (layered 0 (before.map CString.written) i) := by
    intro i
    rw [List.map_append, List.map_singleton, layered_concat]
  rw [cut] at reads
  refine reads.trans ?_
  simp only [cells, CString.CompletedBy, show 255 < 256 by decide, true_and]
  constructor
  · intro same
    -- The NUL behind the cut message is none of the message's own characters.
    have ends := same 255 le_rfl
    have notWhole : last.copied ≤ 255 := by
      by_contra whole
      have within : 255 < last.written.length := by omega
      rw [List.getD_eq_getElem _ _ within, List.getD_eq_default _ _ cut.le] at ends
      exact last.noNul_written (ends ▸ List.getElem_mem within)
    have wraps := CString.copied_eq nonneg
    refine ⟨by omega, notWhole, fun i beyond upTo => ?_⟩
    rw [← same i upTo, List.getD_eq_default _ _ (by omega)]
  · rintro ⟨-, notWhole, completed⟩ i upTo
    rcases Nat.lt_or_ge i last.copied with own | beyond
    · rw [List.getD_eq_getElem _ _ (by omega), List.getD_eq_getElem _ _ (by omega)]
      simp [CString.written, CString.report]
    · rw [List.getD_eq_default _ _ (by omega), completed i beyond upTo]

/-- **One message.**  What the buffer gives back of the last message. -/
theorem reads_iff (nonneg : ∀ msg ∈ before ++ [last], msg.LengthNonneg) :
    readString 0 (List.ofFn (ErrorState.buffer (before ++ [last]))) = some last.report ↔
      last.FitsAfter before ∨ last.CompletedBy before := by
  rw [List.forall_mem_append, List.forall_mem_singleton] at nonneg
  obtain ⟨earlierNonneg, lastNonneg⟩ := nonneg
  rcases Nat.lt_or_ge 255 last.chars.length with long | short
  · rw [reads_long_iff lastNonneg long, CString.FitsAfter]
    simp [Nat.not_le.mpr long]
  · have noWrap : ¬ last.CompletedBy before := fun completed => by
      have := completed.1
      omega
    rw [reads_short_iff earlierNonneg short, CString.FitsAfter]
    simp [short, noWrap]

end Reading

/-! ## Every run of calls -/

/-- A step of a script reports the error of its own call. -/
def ReportsOwn (_ : ErrorState) (_ : List CallObs) (msgs : List CString) (o : Option CallObs)
    (_ : ErrorState) : Prop :=
  ∃ x ∈ o, Reports msgs x.result

/-- The buffer is what the messages so far have left of it. -/
structure Buffered (e : ErrorState) (history : List CallObs) : Prop where
  message : e.message = ErrorState.buffer (thrownIn history)
  nonneg : ∀ msg ∈ thrownIn history, msg.LengthNonneg

theorem buffered_init : Buffered callSystem.init [] :=
  ⟨rfl, fun _ mem => absurd mem List.not_mem_nil⟩

theorem thrownIn_concat (history : List CallObs) (x : CallObs) :
    thrownIn (history ++ [x]) = thrownIn history ++ x.thrown := by
  simp [thrownIn]

section Runs

variable {e e' : ErrorState} {history : List CallObs} {msgs : List CString} {o : Option CallObs}

theorem reportsOwn_some (x : CallObs) :
    ReportsOwn e history msgs (some x) e' ↔ Reports msgs x.result := by
  simp [ReportsOwn]

/-- A call whose lengths are not negative keeps account of the buffer. -/
theorem Buffered.step (buffered : Buffered e history) (nonneg : ∀ msg ∈ msgs, msg.LengthNonneg)
    (moves : callSystem.next e msgs = some (e', o)) : Buffered e' (history ++ o.toList) := by
  obtain ⟨message, result, rfl⟩ := call_message buffered.message nonneg moves
  rw [Option.toList_some]
  constructor
  · rw [thrownIn_concat]
    exact message
  · rw [thrownIn_concat, List.forall_mem_append]
    exact ⟨buffered.nonneg, nonneg⟩

/-- **One call.**  It reports its own error if and only if the messages allow it. -/
theorem reportsOwn_iff (buffered : Buffered e history)
    (moves : callSystem.next e msgs = some (e', o)) :
    ReportsOwn e history msgs o e' ↔ Reportable (thrownIn history) msgs := by
  by_cases nonneg : ∀ msg ∈ msgs, msg.LengthNonneg
  · induction msgs using List.reverseRecOn with
    | nil =>
        rw [call_of_nil] at moves
        cases moves
        refine iff_of_true ((reportsOwn_some _).mpr rfl) ⟨nonneg, ?_⟩
        intro last mem
        cases mem
    | append_singleton others last =>
        have whole : ∀ msg ∈ (thrownIn history ++ others) ++ [last], msg.LengthNonneg := by
          rw [List.append_assoc, List.forall_mem_append]
          exact ⟨buffered.nonneg, nonneg⟩
        have reads := reads_iff whole
        rw [call_of_nonneg buffered.message nonneg (by simp)] at moves
        cases moves
        rw [reportsOwn_some, Reportable, Reports, ← List.append_assoc]
        simp only [List.getLast?_concat, List.dropLast_concat, Option.mem_some_iff,
          exists_eq_left', forall_eq', reads]
        exact (and_iff_right nonneg).symm
  · have negative : ∃ msg ∈ msgs, ¬ msg.LengthNonneg := by
      simpa using nonneg
    rw [call_of_neg negative] at moves
    cases moves
    exact iff_of_false (reportsOwn_some _).mp fun reportable => nonneg reportable.1

end Runs

/-- **Every call reports its own error** in exactly those sequences of calls in
which no length is negative and the last message of each call fits or is
completed. -/
theorem errors_reported_iff (calls : List (List CString)) :
    callSystem.Along ReportsOwn callSystem.init [] calls ↔
      callSystem.Along (fun _ history msgs _ _ => Reportable (thrownIn history) msgs)
        callSystem.init [] calls := by
  refine TraceSystem.along_congr (I := Buffered) ?_ ?_ calls buffered_init
  · intro e history msgs e' o buffered moves
    exact reportsOwn_iff buffered moves
  · intro e history msgs e' o buffered moves reports
    exact buffered.step ((reportsOwn_iff buffered moves).mp reports).1 moves

/-- The error of `initPlaybackLatencyListener`. -/
def canNotInitPlayback : CString := .ofText "can not init playback latency callback".toList

/-- The error of `connect`. -/
def canNotConnect : CString := .ofText "can not connect ports".toList

/-- After a listener that could not be set up, ports that can not be connected are
reported as `can not connect ports latency callback`. -/
example : readString 0 (List.ofFn (ErrorState.buffer [canNotInitPlayback, canNotConnect])) =
    some (CString.ofText "can not connect ports latency callback".toList).chars := by
  decide +kernel

theorem not_reportable_connect : ¬ Reportable [canNotInitPlayback] [canNotConnect] := by
  rintro ⟨-, lastOne⟩
  rcases lastOne canNotConnect rfl with ⟨-, shorter⟩ | ⟨long, -⟩
  · have longer := shorter canNotInitPlayback (List.mem_singleton_self _)
    revert longer
    decide +kernel
  · revert long
    decide +kernel

/-- The error of an earlier call shows up behind that of a later one. -/
theorem error_keeps_earlier_text :
    ¬ ∀ calls, callSystem.Along ReportsOwn callSystem.init [] calls := by
  intro always
  have nonneg : ∀ msg ∈ [canNotInitPlayback], msg.LengthNonneg := by decide +kernel
  have first := call_of_nonneg buffered_init.message nonneg (List.cons_ne_nil _ _)
  have second := call_of_nonneg (buffered_init.step nonneg first).message
    (show ∀ msg ∈ [canNotConnect], msg.LengthNonneg by decide +kernel) (List.cons_ne_nil _ _)
  have run := always [[canNotInitPlayback], [canNotConnect]]
  rw [TraceSystem.along_cons first, TraceSystem.along_cons second] at run
  exact not_reportable_connect
    ((reportsOwn_iff (buffered_init.step nonneg first) second).mp run.2.1)

end Jacks
