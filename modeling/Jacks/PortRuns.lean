import Jacks.Port

/-!
# Runs of one port

A port as a machine of its own: any sequence of writes and reads, in any order.
What is followed along a run is the alignment of the byte stream: whether the
unread bytes, and each chunk handed out, are whole samples.

Two limits can cut a sample.  A write that does not fit fills the ring to the
last usable byte, and that number is odd.  A read takes at most `rbSize` bytes,
which need not be a multiple of four.  `keepsAlignment_iff` says that nothing
else can, and `portSystem_aligned_iff` that the alignment of a whole run is
exactly the absence of both.
-/

namespace Jacks

open Foundations JackRingbuffer

universe u

variable {ρ : Type u} [JackRingbuffer ρ]

/-- The two calls made on a port. -/
inductive PortOp
  | write (nframes : UInt32) (buff : PortBuffer)
  | read

/-- What a call returns: the samples offered and the code of a write; `*len` and
the bytes copied of a read. -/
inductive PortObs
  | wrote (samples : List Sample) (rc : ℤ)
  | read (len : ℤ) (chunk : List Byte)

/-- One port, from its construction on. -/
def portSystem (rbSize : UInt32) (left : Malloced) :
    TraceSystem (JacksRbPort ρ) PortOp PortObs where
  init := JacksRbPort.new rbSize left
  next p op :=
    match op with
    | .write nframes buff =>
        let result := p.writeToRingbuffer nframes buff
        some (result.1, some (.wrote ((List.range nframes.toNat).map buff) result.2))
    | .read =>
        let result := p.readFromRingbuffer
        some (result.1, some (.read result.2 p.copied))

/-- The samples of all writes that succeeded. -/
def capturedSamples (history : List PortObs) : List Sample :=
  history.flatMap fun
    | .wrote samples rc => if rc = 0 then samples else []
    | .read _ _ => []

/-- The bytes of all reads. -/
def returnedBytes (history : List PortObs) : List Byte :=
  history.flatMap fun
    | .wrote _ _ => []
    | .read _ chunk => chunk

/-! ## Whole samples -/

theorem sampleBytes_append (a b : List Sample) :
    sampleBytes (a ++ b) = sampleBytes a ++ sampleBytes b := by
  simp [sampleBytes]

/-- Dropping bytes in fours drops samples. -/
theorem sampleBytes_drop (samples : List Sample) (k : ℕ) :
    (sampleBytes samples).drop (4 * k) = sampleBytes (samples.drop k) :=
  drop_flatMap_of_width Sample.length_bytes samples k

/-- Taking bytes in fours takes samples. -/
theorem sampleBytes_take (samples : List Sample) (k : ℕ) :
    (sampleBytes samples).take (4 * k) = sampleBytes (samples.take k) :=
  take_flatMap_of_width Sample.length_bytes samples k

/-! ## Alignment -/

/-- The unread bytes are whole samples. -/
def Aligned (p : JacksRbPort ρ) : Prop := jacksSampleSize ∣ (unread p.rb).length

/-- What is wanted of every step: the unread bytes are whole samples afterwards,
and a read returns a length of whole samples and a chunk of consecutive captured
samples. -/
def KeepsAlignment (_ : JacksRbPort ρ) (history : List PortObs) (_ : PortOp)
    (o : Option PortObs) (p' : JacksRbPort ρ) : Prop :=
  Aligned p' ∧ ∀ len chunk, o = some (.read len chunk) →
    (jacksSampleSize : ℤ) ∣ len ∧
      ∃ first count, chunk = sampleBytes (((capturedSamples history).drop first).take count)

/-- The condition on the state before a call: a write fits, and a read is not
cut by an `rbSize` that is no multiple of four. -/
def CutsNoSample (p : JacksRbPort ρ) (_ : List PortObs) (op : PortOp)
    (_ : Option PortObs) (_ : JacksRbPort ρ) : Prop :=
  match op with
  | .write nframes _ => jacksSampleSize * nframes.toNat ≤ free p.rb
  | .read => (unread p.rb).length ≤ p.rbSize.toNat ∨ jacksSampleSize ∣ p.rbSize.toNat

/-- What holds as long as no sample was cut: the usable size is odd, the captured
samples are what was returned and what is unread, and both are whole samples. -/
structure AlignedSoFar (p : JacksRbPort ρ) (history : List PortObs) : Prop where
  usable_odd : usable p.rb % 2 = 1
  stream : sampleBytes (capturedSamples history) = returnedBytes history ++ unread p.rb
  aligned : Aligned p
  returned : jacksSampleSize ∣ (returnedBytes history).length

theorem alignedSoFar_new (rbSize : UInt32) (left : Malloced) :
    AlignedSoFar (JacksRbPort.new rbSize left : JacksRbPort ρ) [] where
  usable_odd := by
    have even := two_dvd_ringSize (4 * rbSize.toNat)
    have := two_le_ringSize (4 * rbSize.toNat)
    rw [JacksRbPort.usable_new]
    omega
  stream := by simp [capturedSamples, returnedBytes, sampleBytes]
  aligned := by simp [Aligned]
  returned := by simp [returnedBytes]

namespace AlignedSoFar

variable {p : JacksRbPort ρ} {history : List PortObs}

/-- An aligned ring stays aligned under a write exactly when the write fits: one
that does not fill the ring to its last usable byte, and that number is odd. -/
theorem aligned_write_iff (inv : AlignedSoFar p history) (nframes : UInt32) (buff : PortBuffer) :
    Aligned (p.writeToRingbuffer nframes buff).1 ↔
      jacksSampleSize * nframes.toNat ≤ free p.rb := by
  have aligned := inv.aligned
  have odd := inv.usable_odd
  have bounded := unread_length_le p.rb
  unfold Aligned jacksSampleSize at *
  rw [JacksRbPort.unread_write, List.length_append, List.length_take, length_captured]
  unfold free
  omega

/-- A read takes whole samples exactly when `rbSize` does not cut one. -/
theorem four_dvd_blen_iff (inv : AlignedSoFar p history) :
    jacksSampleSize ∣ p.blen ↔
      (unread p.rb).length ≤ p.rbSize.toNat ∨ jacksSampleSize ∣ p.rbSize.toNat := by
  have aligned := inv.aligned
  unfold Aligned jacksSampleSize at *
  rw [JacksRbPort.blen_eq]
  omega

/-- What a read leaves is aligned exactly when what it takes is. -/
theorem aligned_read_iff (inv : AlignedSoFar p history) :
    Aligned p.readFromRingbuffer.1 ↔ jacksSampleSize ∣ p.blen := by
  have aligned := inv.aligned
  have split := congrArg List.length p.unread_read
  rw [List.length_append, JacksRbPort.length_copied] at split
  unfold Aligned jacksSampleSize at *
  omega

/-- A read of whole samples copies consecutive captured ones. -/
theorem copied_samples (inv : AlignedSoFar p history) (whole : jacksSampleSize ∣ p.blen) :
    ∃ first count,
      p.copied = sampleBytes (((capturedSamples history).drop first).take count) := by
  obtain ⟨first, returned⟩ := inv.returned
  obtain ⟨count, taken⟩ := whole
  refine ⟨first, count, ?_⟩
  unfold jacksSampleSize at returned taken
  have fromStream : unread p.rb = sampleBytes ((capturedSamples history).drop first) := by
    rw [← sampleBytes_drop, inv.stream, ← returned, List.drop_left]
  rw [JacksRbPort.copied, copied_read, taken, fromStream, sampleBytes_take]

/-- A write that fits keeps the invariant. -/
theorem write (inv : AlignedSoFar p history) {nframes : UInt32} {buff : PortBuffer}
    (fits : jacksSampleSize * nframes.toNat ≤ free p.rb) :
    AlignedSoFar (p.writeToRingbuffer nframes buff).1
      (history ++ [.wrote ((List.range nframes.toNat).map buff)
        (p.writeToRingbuffer nframes buff).2]) := by
  have success : (p.writeToRingbuffer nframes buff).2 = 0 :=
    (p.rc_write_eq_zero_iff nframes buff).mpr fits
  refine ⟨?_, ?_, (inv.aligned_write_iff nframes buff).mpr fits, ?_⟩
  · rw [JacksRbPort.usable_write]
    exact inv.usable_odd
  · rw [p.unread_write_of_rc_zero _ _ success, ← List.append_assoc]
    have same := inv.stream
    simp only [capturedSamples, returnedBytes, List.flatMap_append, List.flatMap_cons,
      List.flatMap_nil, List.append_nil, success, if_true, sampleBytes_append] at same ⊢
    rw [same, captured]
  · simpa [returnedBytes] using inv.returned

/-- A read of whole samples keeps the invariant. -/
theorem read (inv : AlignedSoFar p history) (whole : jacksSampleSize ∣ p.blen) :
    AlignedSoFar p.readFromRingbuffer.1
      (history ++ [.read p.readFromRingbuffer.2 p.copied]) := by
  refine ⟨?_, ?_, inv.aligned_read_iff.mpr whole, ?_⟩
  · rw [JacksRbPort.usable_read]
    exact inv.usable_odd
  · have same := inv.stream
    rw [p.unread_read] at same
    simpa [capturedSamples, returnedBytes] using same
  · have sum := Nat.dvd_add inv.returned whole
    simpa [returnedBytes] using sum

/-- **One step.**  As long as no sample was cut, a call keeps the alignment
exactly when it cuts no sample itself. -/
theorem keepsAlignment_iff (inv : AlignedSoFar p history) {op : PortOp}
    {p' : JacksRbPort ρ} {o : Option PortObs} {rbSize : UInt32} {left : Malloced}
    (moves : (portSystem rbSize left).next p op = some (p', o)) :
    KeepsAlignment p history op o p' ↔ CutsNoSample p history op o p' := by
  cases op with
  | write nframes buff =>
      obtain ⟨rfl, rfl⟩ : _ = p' ∧ _ = o := by simpa [portSystem] using moves
      simp only [KeepsAlignment, CutsNoSample]
      rw [inv.aligned_write_iff]
      simp
  | read =>
      obtain ⟨rfl, rfl⟩ : _ = p' ∧ _ = o := by simpa [portSystem] using moves
      simp only [KeepsAlignment, CutsNoSample]
      rw [inv.aligned_read_iff, ← inv.four_dvd_blen_iff]
      constructor
      · exact fun wanted => wanted.1
      · intro whole
        refine ⟨whole, fun len chunk observed => ?_⟩
        obtain ⟨rfl, rfl⟩ : p.readFromRingbuffer.2 = len ∧ p.copied = chunk := by
          simpa using observed
        rw [JacksRbPort.len_read]
        exact ⟨four_dvd_toInt_iff.mpr whole, inv.copied_samples whole⟩

/-- A call that keeps the alignment keeps the invariant. -/
theorem next (inv : AlignedSoFar p history) {op : PortOp} {p' : JacksRbPort ρ}
    {o : Option PortObs} {rbSize : UInt32} {left : Malloced}
    (moves : (portSystem rbSize left).next p op = some (p', o))
    (keeps : KeepsAlignment p history op o p') : AlignedSoFar p' (history ++ o.toList) := by
  have cutsNone := (inv.keepsAlignment_iff moves).mp keeps
  cases op with
  | write nframes buff =>
      obtain ⟨rfl, rfl⟩ : _ = p' ∧ _ = o := by simpa [portSystem] using moves
      exact inv.write cutsNone
  | read =>
      obtain ⟨rfl, rfl⟩ : _ = p' ∧ _ = o := by simpa [portSystem] using moves
      exact inv.read (inv.four_dvd_blen_iff.mpr cutsNone)

end AlignedSoFar

/-- **Alignment of a run.**  For every port and every sequence of calls on it,
every call keeps the stream in whole samples exactly when every write fits and
no read is cut by an `rbSize` that is no multiple of four. -/
theorem portSystem_aligned_iff (rbSize : UInt32) (left : Malloced) (ops : List PortOp) :
    (portSystem rbSize left : TraceSystem (JacksRbPort ρ) PortOp PortObs).Along
        KeepsAlignment (JacksRbPort.new rbSize left) [] ops ↔
      (portSystem rbSize left : TraceSystem (JacksRbPort ρ) PortOp PortObs).Along
        CutsNoSample (JacksRbPort.new rbSize left) [] ops :=
  TraceSystem.along_congr (I := AlignedSoFar)
    (fun _ _ _ _ _ inv moves => inv.keepsAlignment_iff moves)
    (fun _ _ _ _ _ inv moves keeps => inv.next moves keeps)
    ops (alignedSoFar_new rbSize left)

/-- Two frames written to a port of `rb_size` five, then one read: five bytes are
returned and three are left. -/
theorem portSystem_not_aligned :
    ¬ ∀ (rbSize : UInt32) (left : Malloced) (ops : List PortOp),
      (portSystem rbSize left : TraceSystem (JacksRbPort (BoundedFifo Byte)) PortOp PortObs).Along
        KeepsAlignment (JacksRbPort.new rbSize left) [] ops := by
  intro always
  have run := always 5 ⟨fun _ => 0, 0⟩ [.write 2 fun _ => 0, .read]
  have cut : jacksSampleSize ∣ 3 := run.2.1.1
  revert cut
  decide

end Jacks
