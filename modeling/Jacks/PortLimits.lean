import Jacks.PortRuns

/-!
# How much a port takes, and how much a read gives back

`rb_size` is documented as frames.  The ring of a port is asked to hold so many,
and holds at least them, unless it can do so only to the last byte: libjack never
uses one byte of a ring, so a ring asked for a power of two holds one byte less
(`holds_frames_iff`).  A read is limited by the same number as *bytes*, so a
reader in lock step with the writer keeps up with a quarter of the frames
(`lockStep_iff`).
-/

namespace Jacks

open Foundations JackRingbuffer

universe u

/-! ## The ring -/

/-- A ring has the size it was asked for exactly if that is a power of two. -/
theorem ringSize_eq_self_iff {sz : ℕ} : ringSize sz = sz ↔ 2 ≤ sz ∧ sz.isPowerOfTwo := by
  constructor
  · intro same
    exact ⟨same ▸ two_le_ringSize sz, Nat.clog 2 (max sz 2), same.symm⟩
  · rintro ⟨large, k, rfl⟩
    exact le_antisymm (ringSize_le_pow le_rfl large) (le_ringSize _)

/-- Four times a number is a power of two exactly if the number is. -/
theorem isPowerOfTwo_four_mul_iff {r : ℕ} : (4 * r).isPowerOfTwo ↔ r.isPowerOfTwo := by
  constructor
  · rintro ⟨k, power⟩
    -- a power of two that is a multiple of four is not one of the first two
    rcases k with _ | _ | k
    · omega
    · omega
    · exact ⟨k, by rw [pow_add] at power; omega⟩
  · rintro ⟨k, rfl⟩
    exact ⟨k + 2, by rw [pow_add]; omega⟩

/-- The ring of a port is no larger than asked for exactly if `rb_size` is a power of
two. -/
theorem ringSize_four_mul_iff {r : ℕ} : ringSize (4 * r) = 4 * r ↔ r.isPowerOfTwo := by
  rw [ringSize_eq_self_iff, isPowerOfTwo_four_mul_iff]
  refine and_iff_right_of_imp ?_
  rintro ⟨k, rfl⟩
  have : 0 < 2 ^ k := Nat.two_pow_pos k
  omega

variable {ρ : Type u} [JackRingbuffer ρ]

/-! ## What fits -/

/-- The sizes of a port do not change. -/
theorem portSystem_sizes {rbSize : UInt32} {left : Malloced} {p : JacksRbPort ρ}
    {history : List PortObs} (run : (portSystem rbSize left).Reaches p history) :
    p.rbSize = rbSize ∧ usable p.rb = ringSize (4 * rbSize.toNat) - 1 := by
  refine run.induct (I := fun p _ => p.rbSize = rbSize ∧
    usable p.rb = ringSize (4 * rbSize.toNat) - 1) ?_ ?_
  · exact ⟨rfl, JacksRbPort.usable_new rbSize left⟩
  · rintro p history op p' o - ⟨size, capacity⟩ - moves
    cases op with
    | write nframes buff =>
        obtain ⟨rfl, -⟩ : _ = p' ∧ _ = o := by simpa [portSystem] using moves
        rw [JacksRbPort.rbSize_write, JacksRbPort.usable_write]
        exact ⟨size, capacity⟩
    | read =>
        obtain ⟨rfl, -⟩ : _ = p' ∧ _ = o := by simpa [portSystem] using moves
        rw [JacksRbPort.rbSize_read, JacksRbPort.usable_read]
        exact ⟨size, capacity⟩

/-- The block is stored as a whole. -/
def StoresWhole (p : JacksRbPort ρ) (nframes : UInt32) (buff : PortBuffer) : Prop :=
  (p.writeToRingbuffer nframes buff).2 = 0 ∧
    unread (p.writeToRingbuffer nframes buff).1.rb = unread p.rb ++ captured nframes buff

theorem storesWhole_iff (p : JacksRbPort ρ) (nframes : UInt32) (buff : PortBuffer) :
    StoresWhole p nframes buff ↔ (unread p.rb).length + 4 * nframes.toNat ≤ usable p.rb := by
  have success := p.rc_write_eq_zero_iff nframes buff
  have bounded := unread_length_le p.rb
  unfold free at success
  constructor
  · rintro ⟨zero, -⟩
    have := success.mp zero
    omega
  · intro fits
    have zero := success.mpr (by omega)
    exact ⟨zero, p.unread_write_of_rc_zero nframes buff zero⟩

/-- **A port holds the frames it was sized for, except to the last byte of a power of
two.**  In every state a port reaches, a block that together with the unread bytes
makes at most `4 * rb_size` bytes is stored as a whole if and only if `rb_size` is
no power of two or there are fewer bytes than that. -/
theorem holds_frames_iff {rbSize : UInt32} {left : Malloced} {p : JacksRbPort ρ}
    {history : List PortObs} (run : (portSystem rbSize left).Reaches p history)
    (nframes : UInt32) (buff : PortBuffer) :
    ((unread p.rb).length + 4 * nframes.toNat ≤ 4 * rbSize.toNat → StoresWhole p nframes buff) ↔
      ¬ (rbSize.toNat.isPowerOfTwo ∧
        (unread p.rb).length + 4 * nframes.toNat = 4 * rbSize.toNat) := by
  have exactly := ringSize_four_mul_iff (r := rbSize.toNat)
  have large := le_ringSize (4 * rbSize.toNat)
  have two := two_le_ringSize (4 * rbSize.toNat)
  rw [storesWhole_iff, (portSystem_sizes run).2, ← exactly]
  omega

/-- A port of three frames, one of which is unread, takes the other two. -/
theorem holds_frames_iff_three : ∃ (p : JacksRbPort (BoundedFifo Byte)) (history : List PortObs),
    (portSystem 3 ⟨fun _ => 0, 0⟩).exec (portSystem 3 ⟨fun _ => 0, 0⟩).init []
        [.write 1 fun _ => 1] = some (p, history) ∧
      (unread p.rb).length = 4 ∧ StoresWhole p 2 fun _ => 2 :=
  ⟨_, _, rfl, by decide, (holds_frames_iff (TraceSystem.reaches_of_exec
    (portSystem 3 ⟨fun _ => 0, 0⟩) [.write 1 fun _ => 1] rfl) 2 fun _ => 2).mpr (by decide)
      (by decide)⟩

/-- A port of one frame does not take one. -/
theorem one_frame_refused :
    ¬ StoresWhole (JacksRbPort.new 1 ⟨fun _ => 0, 0⟩ : JacksRbPort (BoundedFifo Byte)) 1
      fun _ => 0 :=
  fun whole => absurd whole.1 (by decide)

/-! ## Lock step -/

/-- Rounds of one write and one read each. -/
def lockStep (rounds : List (UInt32 × PortBuffer)) : List PortOp :=
  rounds.flatMap fun round => [.write round.1 round.2, .read]

/-- A write returns 0, and a read returns all unread bytes, which are the block just
written. -/
def InStep (p : JacksRbPort ρ) (history : List PortObs) (_ : PortOp) (o : Option PortObs)
    (_ : JacksRbPort ρ) : Prop :=
  match o with
  | some (.wrote _ rc) => rc = 0
  | some (.read len chunk) => chunk = unread p.rb ∧ toUnsigned len = chunk.length ∧
      ∀ earlier samples rc, history = earlier ++ [.wrote samples rc] → chunk = sampleBytes samples
  | none => True

/-- **One read** of a block that is all there is: it is in step exactly if it can
take the whole block. -/
theorem read_inStep_iff {p : JacksRbPort ρ} (p' : JacksRbPort ρ) {samples : List Sample}
    (block : unread p.rb = sampleBytes samples) (history : List PortObs) :
    InStep p (history ++ [.wrote samples 0]) .read (some (.read p.readFromRingbuffer.2 p.copied))
        p' ↔ 4 * samples.length ≤ p.rbSize.toNat := by
  have taken : p.copied = unread p.rb ↔ 4 * samples.length ≤ p.rbSize.toNat := by
    rw [p.copied_eq, List.take_eq_self_iff, block, length_sampleBytes]
  rw [← taken]
  refine ⟨fun inStep => inStep.1, fun whole => ⟨whole, p.toUnsigned_len_read, ?_⟩⟩
  intro earlier last rc split
  obtain ⟨-, same⟩ := List.append_inj' split rfl
  obtain ⟨rfl, -⟩ : samples = last ∧ 0 = rc := by simpa using same
  rw [whole, block]

/-- A read that can take all unread bytes leaves none. -/
theorem unread_read_of_fits {p : JacksRbPort ρ} (fits : (unread p.rb).length ≤ p.rbSize.toNat) :
    unread p.readFromRingbuffer.1.rb = [] := by
  have split := p.unread_read
  rw [p.copied_eq, List.take_of_length_le fits] at split
  exact List.self_eq_append_right.mp split

/-- Rounds that start from an empty ring. -/
theorem lockStep_from_iff {rbSize : UInt32} {left : Malloced} (two : 2 ≤ rbSize.toNat)
    (rounds : List (UInt32 × PortBuffer))
    (half : ∀ round ∈ rounds, round.1.toNat ≤ rbSize.toNat / 2) (p : JacksRbPort ρ)
    (history : List PortObs) (size : p.rbSize = rbSize)
    (capacity : usable p.rb = ringSize (4 * rbSize.toNat) - 1) (empty : unread p.rb = []) :
    (portSystem rbSize left).Along InStep p history (lockStep rounds) ↔
      ∀ round ∈ rounds, 4 * round.1.toNat ≤ rbSize.toNat := by
  induction rounds generalizing p history with
  | nil => simp [lockStep, TraceSystem.Along]
  | cons round rest ih =>
      obtain ⟨nframes, buff⟩ := round
      have small : nframes.toNat ≤ rbSize.toNat / 2 := half _ (List.mem_cons_self ..)
      have large := le_ringSize (4 * rbSize.toNat)
      have fits : StoresWhole p nframes buff := by
        rw [storesWhole_iff, capacity, empty]
        simp only [List.length_nil]
        omega
      obtain ⟨success, stored⟩ := fits
      rw [empty, List.nil_append] at stored
      have wrote : (portSystem rbSize left).next p (.write nframes buff) =
          some ((p.writeToRingbuffer nframes buff).1,
            some (.wrote ((List.range nframes.toNat).map buff) 0)) := by
        rw [← success]
        rfl
      have taken := read_inStep_iff (p.writeToRingbuffer nframes buff).1.readFromRingbuffer.1
        stored history
      rw [List.length_map, List.length_range, JacksRbPort.rbSize_write, size] at taken
      have rounds : lockStep ((nframes, buff) :: rest) =
          .write nframes buff :: .read :: lockStep rest := rfl
      rw [rounds, TraceSystem.along_cons wrote, TraceSystem.along_cons rfl, List.forall_mem_cons]
      refine (and_iff_right (show (0 : ℤ) = 0 from rfl)).trans
        ((and_congr_left' taken).trans (and_congr_right fun whole => ?_))
      -- the read has taken the block, so the next round starts from an empty ring again
      refine ih (fun round mem => half round (List.mem_cons_of_mem _ mem)) _ _ ?_ ?_ ?_
      · rw [JacksRbPort.rbSize_read, JacksRbPort.rbSize_write, size]
      · rw [JacksRbPort.usable_read, JacksRbPort.usable_write, capacity]
      · refine unread_read_of_fits ?_
        rw [JacksRbPort.rbSize_write, size, stored, length_captured]
        exact whole

/-- **A reader in lock step keeps up with a quarter of `rb_size`.**  In rounds of one
write and one read each, of at most half of `rb_size` frames, every write returns 0
and every read returns just what was written, if and only if no block is longer
than `rb_size` bytes. -/
theorem lockStep_iff {rbSize : UInt32} (two : 2 ≤ rbSize.toNat) (left : Malloced)
    (rounds : List (UInt32 × PortBuffer))
    (half : ∀ round ∈ rounds, round.1.toNat ≤ rbSize.toNat / 2) :
    (portSystem rbSize left : TraceSystem (JacksRbPort ρ) PortOp PortObs).Along InStep
        (JacksRbPort.new rbSize left) [] (lockStep rounds) ↔
      ∀ round ∈ rounds, 4 * round.1.toNat ≤ rbSize.toNat :=
  lockStep_from_iff two rounds half _ [] rfl (JacksRbPort.usable_new rbSize left)
    (JacksRbPort.unread_new rbSize left)

/-- A port of eight frames gives back rounds of two frames and of one. -/
theorem lockStep_iff_eight :
    (portSystem 8 ⟨fun _ => 0, 0⟩ : TraceSystem (JacksRbPort (BoundedFifo Byte)) PortOp
      PortObs).Along InStep (JacksRbPort.new 8 ⟨fun _ => 0, 0⟩) []
        (lockStep [(2, fun _ => 0), (1, fun _ => 1)]) :=
  (lockStep_iff (by decide) ⟨fun _ => 0, 0⟩ [(2, fun _ => 0), (1, fun _ => 1)] (by decide)).mpr
    (by decide)

/-- A port of two frames gives back only half of one. -/
theorem lockStep_short_of_half :
    ¬ (portSystem 2 ⟨fun _ => 0, 0⟩ : TraceSystem (JacksRbPort (BoundedFifo Byte)) PortOp
      PortObs).Along InStep (JacksRbPort.new 2 ⟨fun _ => 0, 0⟩) []
        (lockStep [(1, fun _ => 0)]) :=
  fun inStep => absurd inStep.2.1.1 (by decide)

end Jacks
