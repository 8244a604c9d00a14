import Mathlib.Data.Nat.Digits.Lemmas
import Jacks.PortBuffer
import Jacks.PortRuns
import Jacks.Foundations.Text

/-!
# Samples as a hex string

`JsPortBuffer.toHexString` prints a window of a capture, "for debug only", as one
cell of twelve characters per sample.  It "dangerously presumes float is of len
long": each sample is read as a `long`, which is eight bytes, and printed with
`%X`, which shows the four that were meant.  So the last sample of a capture can
not be read without the four bytes behind it, and a window is encoded exactly if
it ends before that and its positions do not overflow an `int`
(`toHexString_encodes_iff`).  An empty window is never terminated.

The machine is a 64-bit one whose bytes are stored least significant first.
-/

namespace Jacks

open Foundations JackRingbuffer

universe u

/-! ## Cells -/

/-- A digit of `%X`. -/
def hexDigit (d : ℕ) : Byte := BitVec.ofNat 8 (if d < 10 then 48 + d else 55 + d)

/-- `%8.8X`. -/
def hexDigits (value : BitVec 32) : List Byte :=
  (Nat.digitsAppend 16 8 value.toNat).reverse.map hexDigit

/-- What `sprintf` prints of a `long` and a separator: `%X` takes 32 bits of it. -/
def sprintfCell (value : BitVec 64) (sep : Byte) : List Byte :=
  if sep ≠ 0 then [0x30, 0x78] ++ hexDigits (value.setWidth 32) ++ [0x4C, sep]
  else [0x30, 0x78] ++ hexDigits (value.setWidth 32) ++ [0x4C, 0x20]

/-- The separator printed: a space when none was given. -/
def separator (sep : Byte) : Byte := if sep ≠ 0 then sep else 0x20

/-- Reading a digit. -/
def digitValue (c : Byte) : Option ℕ :=
  if 48 ≤ c.toNat ∧ c.toNat ≤ 57 then some (c.toNat - 48)
  else if 65 ≤ c.toNat ∧ c.toNat ≤ 70 then some (c.toNat - 55)
  else none

/-- Reading a cell: the pattern between `0x` and `L`, and the separator. -/
def decodeCell (cell : List Byte) : Option (Sample × Byte) :=
  if cell.take 2 = [0x30, 0x78] ∧ cell[10]? = some 0x4C then
    (((cell.drop 2).take 8).mapM digitValue).bind fun digits =>
      cell[11]?.map fun sep => (BitVec.ofNat 32 (Nat.ofDigits 16 digits.reverse), sep)
  else none

section Cells

theorem digitValue_hexDigit {d : ℕ} (digit : d < 16) :
    digitValue (hexDigit d) = some d ∧ hexDigit d ≠ 0 := by
  revert d
  decide

variable (value : BitVec 32)

theorem length_hexDigits : (hexDigits value).length = 8 := by
  rw [hexDigits, List.length_map, List.length_reverse]
  exact Nat.length_digitsAppend (by decide) 8 value.isLt

/-- Every digit printed is one. -/
theorem lt_of_digit {d : ℕ} (digit : d ∈ (Nat.digitsAppend 16 8 value.toNat).reverse) : d < 16 :=
  Nat.lt_of_mem_digitsAppend (by decide) 8 d (List.mem_reverse.mp digit)

theorem noNul_hexDigits : 0 ∉ hexDigits value := by
  intro mem
  obtain ⟨d, digit, isZero⟩ := List.mem_map.mp mem
  exact (digitValue_hexDigit (lt_of_digit value digit)).2 isZero

/-- The digits are read back. -/
theorem mapM_hexDigits : (hexDigits value).mapM digitValue =
    some (Nat.digitsAppend 16 8 value.toNat).reverse := by
  have general : ∀ digits : List ℕ, (∀ d ∈ digits, d < 16) →
      (digits.map hexDigit).mapM digitValue = some digits := by
    intro digits small
    induction digits with
    | nil => rfl
    | cons d rest ih =>
        obtain ⟨now, later⟩ := List.forall_mem_cons.mp small
        rw [List.map_cons, List.mapM_cons, (digitValue_hexDigit now).1, ih later]
        rfl
  exact general _ fun d digit => lt_of_digit value digit

/-- What is printed, with the separator chosen. -/
theorem sprintfCell_eq (value : BitVec 64) (sep : Byte) : sprintfCell value sep =
    [0x30, 0x78] ++ hexDigits (value.setWidth 32) ++ [0x4C, separator sep] := by
  unfold sprintfCell separator
  split <;> rfl

/-- Between `0x` and `L`. -/
theorem decodeCell_of_digits {digits : List Byte} (width : digits.length = 8) (sep : Byte) :
    decodeCell ([0x30, 0x78] ++ digits ++ [0x4C, sep]) =
      (digits.mapM digitValue).bind fun digits =>
        some (BitVec.ofNat 32 (Nat.ofDigits 16 digits.reverse), sep) := by
  have marked : ([0x30, 0x78] ++ digits ++ [0x4C, sep])[10]? = some 0x4C := by
    simp [width]
  have printed : ([0x30, 0x78] ++ digits ++ [0x4C, sep])[11]? = some sep := by
    simp [width]
  have between : (([0x30, 0x78] ++ digits ++ [0x4C, sep]).drop 2).take 8 = digits := by
    simp [← width]
  rw [decodeCell, if_pos ⟨by simp, marked⟩, between, printed]
  rfl

end Cells

section Cells

variable (value : BitVec 64) (sep : Byte)

theorem length_sprintfCell : (sprintfCell value sep).length = 12 := by
  rw [sprintfCell_eq]
  simp [length_hexDigits]

theorem noNul_sprintfCell : 0 ∉ sprintfCell value sep := by
  have printed : separator sep ≠ 0 := by
    unfold separator
    split
    · next given => exact given
    · decide
  rw [sprintfCell_eq, List.mem_append, List.mem_append]
  rintro ((mark | digit) | mark)
  · revert mark
    decide
  · exact noNul_hexDigits _ digit
  · rcases List.mem_cons.mp mark with isL | isSep
    · exact absurd isL (by decide)
    · exact printed (List.mem_singleton.mp isSep).symm

theorem noNul_flatMap_sprintfCell (values : List (BitVec 64)) :
    0 ∉ values.flatMap fun value => sprintfCell value sep := by
  intro mem
  obtain ⟨value, -, nul⟩ := List.mem_flatMap.mp mem
  exact noNul_sprintfCell value sep nul

/-- **A cell is decoded** to the low 32 bits and the separator. -/
theorem decodeCell_sprintfCell :
    decodeCell (sprintfCell value sep) = some (value.setWidth 32, separator sep) := by
  have number : Nat.ofDigits 16 (Nat.digitsAppend 16 8 (value.setWidth 32).toNat) =
      (value.setWidth 32).toNat := by
    rw [Nat.digitsAppend, Nat.ofDigits_append_replicate_zero, Nat.ofDigits_digits]
  rw [sprintfCell_eq, decodeCell_of_digits (length_hexDigits _), mapM_hexDigits,
    Option.bind_some, List.reverse_reverse, number, BitVec.ofNat_toNat, BitVec.setWidth_eq]

end Cells

/-! ## The loop -/

/-- What is not defined about a call. -/
inductive HexFault
  /-- A byte behind the frame buffer is read. -/
  | readPast
  /-- A byte behind the allocation is written. -/
  | writtenPast
  /-- `dlen * i` is not an `int`. -/
  | intOverflow
  deriving DecidableEq

/-- The allocation, and the offsets in the frame buffer of the bytes read. -/
structure HexRun where
  hexText : List Byte
  reads : List ℕ
  deriving DecidableEq

/-- The offsets of the bytes of `*((long*)&b[index])`. -/
def longOffsets (index : ℕ) : List ℕ := List.range' (4 * index) 8

/-- `*((long*)&b[index])`; `none` is a read behind the frame buffer. -/
def readLong (framebuf : List Byte) (index : ℕ) : Option (BitVec 64) :=
  let bytes := (framebuf.drop (4 * index)).take 8
  if bytes.length = 8 then
    some (BitVec.ofNat 64 (Nat.ofDigits 256 (bytes.map BitVec.toNat)))
  else none

/-- `start + i`, unsigned. -/
def sampleIndex (start : UInt32) (i : ℕ) : ℕ := (start.toNat + i) % 2 ^ 32

/-- The loop of `toHexString` with `count` rounds to go, `i` being the next.  A round
writes a cell and a NUL at `dlen * i`, which is an `int`. -/
def hexLoop (framebuf : List Byte) (start : UInt32) (sep : Byte) :
    ℕ → ℕ → HexRun → Except HexFault HexRun
  | 0, _, run => .ok run
  | count + 1, i, run =>
      if 2147483647 < 12 * i then .error .intOverflow
      else
        match readLong framebuf (sampleIndex start i) with
        | none => .error .readPast
        | some value =>
            match store run.hexText (12 * i) (sprintfCell value sep ++ [0]) with
            | none => .error .writtenPast
            | some hexText =>
                hexLoop framebuf start sep count (i + 1)
                  ⟨hexText, run.reads ++ longOffsets (sampleIndex start i)⟩

/-- `JsPortBuffer.toHexString`; `dlen` is 12, and `left` is what `malloc`, which does not
fail, has left in the allocation.  The size of that is an `unsigned int`. -/
def JsPortBuffer.toHexString (b : JsPortBuffer) (start len : UInt32) (sep : Byte)
    (left : ℕ → Byte) : Except HexFault HexRun :=
  hexLoop b.framebuf start sep len.toNat 0 ⟨(List.range (12 * len + 1).toNat).map left, []⟩

section Loop

variable {framebuf : List Byte} {start : UInt32} {sep : Byte}

/-- A loop that ends has multiplied within an `int` and read a `long` in each round. -/
theorem hexLoop_ok {count i : ℕ} {run run' : HexRun}
    (plays : hexLoop framebuf start sep count i run = .ok run') :
    (∀ j, i ≤ j → j < i + count → 12 * j ≤ 2147483647) ∧
      run'.reads = run.reads ++
        (List.range' i count).flatMap fun j => longOffsets (sampleIndex start j) := by
  induction count generalizing i run with
  | zero =>
      rw [hexLoop] at plays
      cases plays
      exact ⟨fun j atLeast below => absurd below (by omega), by simp⟩
  | succ count ih =>
      rw [hexLoop] at plays
      split at plays
      · cases plays
      · next noOverflow =>
          split at plays
          · cases plays
          · split at plays
            · cases plays
            · obtain ⟨within, reads⟩ := ih plays
              refine ⟨fun j atLeast below => ?_, ?_⟩
              · rcases Nat.lt_or_eq_of_le atLeast with later | rfl
                · exact within j later (by omega)
                · exact Nat.le_of_not_lt noOverflow
              · rw [reads, List.range'_succ, List.flatMap_cons, List.append_assoc]

/-- One round: the cell comes behind what is `done`, and the NUL behind the cell. -/
theorem hexLoop_round {value : BitVec 64} {count i : ℕ} {done rest : List Byte} {reads : List ℕ}
    (border : done.length = 12 * i) (inRange : 12 * i ≤ 2147483647)
    (isRead : readLong framebuf (sampleIndex start i) = some value) (room : 12 < rest.length) :
    hexLoop framebuf start sep (count + 1) i ⟨done ++ rest, reads⟩ =
      hexLoop framebuf start sep count (i + 1)
        ⟨(done ++ sprintfCell value sep) ++ 0 :: rest.drop 13,
          reads ++ longOffsets (sampleIndex start i)⟩ := by
  have width : (sprintfCell value sep ++ [0]).length = 13 := by
    rw [List.length_append, length_sprintfCell, List.length_singleton]
  have regrouped : done ++ (sprintfCell value sep ++ [0] ++ rest.drop 13) =
      (done ++ sprintfCell value sep) ++ 0 :: rest.drop 13 := by
    simp
  have fits : (sprintfCell value sep ++ [0]).length ≤ rest.length := by omega
  have stored := store_append done fits
  rw [border, width, regrouped] at stored
  rw [hexLoop, if_neg (Nat.not_lt.mpr inRange)]
  simp only [isRead, stored]

/-- **The loop prints its cells.**  `done` is what the rounds before have printed, and
a NUL stands behind it unless it is the first round. -/
theorem hexLoop_prints {values : List (BitVec 64)} {i : ℕ} {done rest : List Byte}
    {reads : List ℕ} (border : done.length = 12 * i)
    (inMemory : ∀ j (inside : j < values.length),
      readLong framebuf (sampleIndex start (i + j)) = some values[j])
    (inRange : ∀ j < values.length, 12 * (i + j) ≤ 2147483647)
    (room : 12 * values.length < rest.length) (ended : values ≠ [] ∨ rest.head? = some 0) :
    ∃ tail reads', hexLoop framebuf start sep values.length i ⟨done ++ rest, reads⟩ =
      .ok ⟨done ++ (values.flatMap fun value => sprintfCell value sep) ++ 0 :: tail, reads'⟩ := by
  induction values generalizing i done rest reads with
  | nil =>
      obtain ⟨tail, rfl⟩ := List.head?_eq_some_iff.mp (ended.resolve_left fun some => some rfl)
      exact ⟨tail, reads, by simp [hexLoop]⟩
  | cons value values ih =>
      rw [List.length_cons] at room
      have round : hexLoop framebuf start sep (values.length + 1) i ⟨done ++ rest, reads⟩ = _ :=
        hexLoop_round border (inRange 0 (Nat.zero_lt_succ _)) (inMemory 0 (Nat.zero_lt_succ _))
          (show 12 < rest.length by omega)
      have nextBorder : (done ++ sprintfCell value sep).length = 12 * (i + 1) := by
        rw [List.length_append, border, length_sprintfCell]
        omega
      have nextInMemory : ∀ j (inside : j < values.length),
          readLong framebuf (sampleIndex start (i + 1 + j)) = some values[j] := by
        intro j inside
        have later := inMemory (j + 1) (Nat.succ_lt_succ inside)
        rwa [← Nat.add_assoc, Nat.add_right_comm] at later
      have nextInRange : ∀ j < values.length, 12 * (i + 1 + j) ≤ 2147483647 := by
        intro j inside
        have later := inRange (j + 1) (Nat.succ_lt_succ inside)
        omega
      have nextRoom : 12 * values.length < (0 :: rest.drop 13 : List Byte).length := by
        rw [List.length_cons, List.length_drop]
        omega
      obtain ⟨tail, reads', plays⟩ := ih nextBorder nextInMemory nextInRange nextRoom (Or.inr rfl)
      refine ⟨tail, reads', ?_⟩
      rw [List.length_cons, round]
      simpa only [List.flatMap_cons, List.append_assoc, List.getElem_cons_zero] using plays

end Loop

/-! ## Samples in a buffer -/

/-- A buffer holds samples: their bytes come first, and `len` counts these. -/
structure JsPortBuffer.Holds (b : JsPortBuffer) (samples : List Sample) : Prop where
  stored : sampleBytes samples <+: b.framebuf
  counted : b.length = 4 * samples.length

/-- What `getBuffer` hands out holds the samples captured. -/
theorem JsPort.holds_getBuffer {ρ : Type u} [JackRingbuffer ρ] {p : JacksRbPort ρ}
    {samples : List Sample} (capture : p.copied = sampleBytes samples) :
    (JsPort.getBuffer p).2.Holds samples where
  stored := by
    rw [JsPort.getBuffer, p.framebuf_read, capture]
    exact List.prefix_append _ _
  counted := by
    rw [JsPort.length_getBuffer, capture, length_sampleBytes]

/-- The `long` at an index: the sample that was meant, and the next one above it. -/
def longOf (samples : List Sample) (index : ℕ) : BitVec 64 :=
  samples.getD (index + 1) 0 ++ samples.getD index 0

theorem setWidth_longOf (samples : List Sample) (index : ℕ) :
    (longOf samples index).setWidth 32 = samples.getD index 0 := by
  rw [longOf, BitVec.setWidth_append]
  simp

/-- The number four bytes stand for. -/
theorem Sample.ofDigits_bytes (s : Sample) :
    Nat.ofDigits 256 (s.bytes.map BitVec.toNat) = s.toNat := by
  have small := s.isLt
  simp only [Sample.bytes, List.map_cons, List.map_nil, Nat.ofDigits_cons, Nat.ofDigits_nil,
    BitVec.extractLsb'_toNat, Nat.shiftRight_eq_div_pow]
  omega

/-- The number eight bytes stand for. -/
theorem ofDigits_bytes_append (s s' : Sample) :
    BitVec.ofNat 64 (Nat.ofDigits 256 ((s.bytes ++ s'.bytes).map BitVec.toNat)) = s' ++ s := by
  have low := s.isLt
  have high := s'.isLt
  apply BitVec.eq_of_toNat_eq
  rw [List.map_append, Nat.ofDigits_append, s.ofDigits_bytes, s'.ofDigits_bytes,
    BitVec.toNat_append, ← Nat.shiftLeft_add_eq_or_of_lt low, Nat.shiftLeft_eq, BitVec.toNat_ofNat]
  simp only [Sample.bytes, List.length_map, List.length_cons, List.length_nil]
  omega

namespace JsPortBuffer

variable {b : JsPortBuffer} {samples : List Sample}

/-- Lengths are counted in 32 bits. -/
theorem Holds.length_lt (holds : b.Holds samples) : 4 * samples.length < 2 ^ 32 := by
  rw [← holds.counted, length, toUnsigned]
  omega

/-- A sample that is not the last is read together with the next one. -/
theorem Holds.readLong_eq (holds : b.Holds samples) {index : ℕ}
    (before : index + 1 < samples.length) :
    readLong b.framebuf index = some (longOf samples index) := by
  obtain ⟨extra, stored⟩ := holds.stored
  have fits : 4 * index ≤ (sampleBytes samples).length := by
    rw [length_sampleBytes]
    omega
  have bytes : (b.framebuf.drop (4 * index)).take 8 =
      samples[index].bytes ++ samples[index + 1].bytes := by
    rw [← stored, List.drop_append_of_le_length fits, sampleBytes_drop,
      List.drop_eq_getElem_cons (by omega), List.drop_eq_getElem_cons before]
    rfl
  have width : (samples[index].bytes ++ samples[index + 1].bytes).length = 8 := rfl
  rw [readLong, bytes, if_pos width, ofDigits_bytes_append, longOf,
    List.getD_eq_getElem _ _ before, List.getD_eq_getElem _ _ (by omega)]

/-! ## Encoding a window -/

/-- What is wanted of a call for a window of the samples: the bytes read are theirs,
and the text ends in the allocation and is decoded, cell by cell and as a whole, to
the window. -/
structure Encodes (samples : List Sample) (start len : ℕ) (sep : Byte) (run : HexRun) :
    Prop where
  reads : ∀ offset ∈ run.reads, offset < 4 * samples.length
  text : ∃ text, readString 0 run.hexText = some text ∧ text.length = 12 * len ∧
    (∀ i < len, decodeCell ((text.drop (12 * i)).take 12) =
      samples[start + i]?.map fun s => (s, separator sep)) ∧
    decodeBlocks 12 decodeCell len text =
      some (((samples.drop start).take len).map fun s => (s, separator sep))

section Windows

variable {start len : UInt32} {sep : Byte} {left : ℕ → Byte}

theorem toHexString_zero : b.toHexString start 0 sep left = .ok ⟨[left 0], []⟩ := rfl

/-- The `long`s read for a window. -/
def longsOf (samples : List Sample) (start len : ℕ) : List (BitVec 64) :=
  (List.range len).map fun i => longOf samples (start + i)

@[simp] theorem length_longsOf (start len : ℕ) : (longsOf samples start len).length = len := by
  simp [longsOf]

theorem getElem_longsOf {start len i : ℕ} (inside : i < (longsOf samples start len).length) :
    (longsOf samples start len)[i] = longOf samples (start + i) := by
  simp [longsOf]

/-- Their low halves are the samples of the window. -/
theorem map_longsOf {start len : ℕ} (inside : start + len ≤ samples.length) :
    (longsOf samples start len).map (fun value => (value.setWidth 32, separator sep)) =
      ((samples.drop start).take len).map fun s => (s, separator sep) := by
  apply List.ext_getElem
  · simp
    omega
  · intro i here there
    have below : i < len := by simpa using here
    simp only [List.getElem_map, getElem_longsOf, setWidth_longOf, List.getElem_take,
      List.getElem_drop]
    rw [List.getD_eq_getElem _ _ (by omega)]

theorem Holds.sampleIndex_eq (holds : b.Holds samples) {i : ℕ}
    (before : start.toNat + i < samples.length) : sampleIndex start i = start.toNat + i := by
  have small := holds.length_lt
  exact Nat.mod_eq_of_lt (by omega)

theorem toNat_size (short : len.toNat ≤ 178956971) :
    (12 * len + 1).toNat = 12 * len.toNat + 1 := by
  rw [UInt32.toNat_add, UInt32.toNat_mul]
  simp
  omega

/-- **A window is encoded** that ends before the last sample and is short enough. -/
theorem Holds.encodes (holds : b.Holds samples) (nonempty : 0 < len.toNat)
    (before : start.toNat + len.toNat < samples.length) (short : len.toNat ≤ 178956971) :
    ∃ run, b.toHexString start len sep left = .ok run ∧
      Encodes samples start.toNat len.toNat sep run := by
  let values := longsOf samples start.toNat len.toNat
  have count : values.length = len.toNat := length_longsOf _ _
  have width := fun value => length_sprintfCell value sep
  have decodes := fun value => decodeCell_sprintfCell value sep
  have index : ∀ i < len.toNat, sampleIndex start i = start.toNat + i :=
    fun i below => holds.sampleIndex_eq (by omega)
  have inMemory : ∀ i (inside : i < values.length),
      readLong b.framebuf (sampleIndex start (0 + i)) = some values[i] := by
    intro i inside
    rw [Nat.zero_add, index i (by omega), getElem_longsOf, holds.readLong_eq (by omega)]
  have room : 12 * values.length < ((List.range (12 * len + 1).toNat).map left).length := by
    rw [List.length_map, List.length_range, toNat_size short]
    omega
  have printed : ∃ tail reads, b.toHexString start len sep left =
      .ok ⟨(values.flatMap fun value => sprintfCell value sep) ++ 0 :: tail, reads⟩ := by
    rw [toHexString, ← count]
    exact hexLoop_prints (show ([] : List Byte).length = 12 * 0 from rfl) inMemory
      (fun i inside => by omega) room (Or.inl (List.ne_nil_of_length_pos (by omega)))
  obtain ⟨tail, reads, plays⟩ := printed
  refine ⟨_, plays, ?_, _, readString_terminated (noNul_flatMap_sprintfCell sep values) tail,
    ?_, ?_, ?_⟩
  · intro offset mem
    rw [(hexLoop_ok plays).2, List.nil_append, List.mem_flatMap] at mem
    obtain ⟨i, round, mem⟩ := mem
    have below : i < len.toNat := by
      simpa using (List.mem_range'_1.mp round).2
    rw [index i below, longOffsets, List.mem_range'_1] at mem
    omega
  · rw [length_flatMap_of_width width, count]
  · intro i below
    have sampled : (longOf samples (start.toNat + i)).setWidth 32 = samples[start.toNat + i] := by
      rw [setWidth_longOf, List.getD_eq_getElem]
    rw [decode_block width decodes values i (by omega), getElem_longsOf, sampled,
      List.getElem?_eq_getElem, Option.map_some]
  · have decoded := decodeBlocks_flatMap width decodes values
    rwa [count, map_longsOf before.le] at decoded

/-- A window that is encoded ends before the last sample and is short enough. -/
theorem Holds.room_of_encodes (holds : b.Holds samples) (nonempty : 0 < len.toNat)
    (inside : start.toNat + len.toNat ≤ samples.length) {run : HexRun}
    (plays : b.toHexString start len sep left = .ok run)
    (encodes : Encodes samples start.toNat len.toNat sep run) :
    start.toNat + len.toNat < samples.length ∧ len.toNat ≤ 178956971 := by
  obtain ⟨inRange, reads⟩ := hexLoop_ok plays
  have index : sampleIndex start (len.toNat - 1) = start.toNat + (len.toNat - 1) :=
    holds.sampleIndex_eq (by omega)
  -- the last byte of the last `long`
  have lastRead : 4 * (start.toNat + (len.toNat - 1)) + 7 ∈ run.reads := by
    rw [reads, List.nil_append, List.mem_flatMap]
    refine ⟨len.toNat - 1, List.mem_range'_1.mpr (by omega), ?_⟩
    rw [index, longOffsets, List.mem_range'_1]
    omega
  have inBuffer := encodes.reads _ lastRead
  have lastRound := inRange (len.toNat - 1) (by omega) (by omega)
  omega

/-- An empty window is encoded if the one byte allocated for it happens to be NUL. -/
theorem encodes_zero_iff : Encodes samples start.toNat 0 sep ⟨[left 0], []⟩ ↔ left 0 = 0 := by
  constructor
  · rintro ⟨-, text, isRead, empty, -⟩
    rw [List.length_eq_zero_iff.mp empty, readString_eq_some] at isRead
    exact (List.cons_prefix_cons.mp isRead.2).1.symm
  · intro isNul
    rw [isNul]
    refine ⟨fun offset mem => absurd mem List.not_mem_nil, [], rfl, rfl, ?_, rfl⟩
    exact fun i below => absurd below (Nat.not_lt_zero i)

/-- **`toHexString` encodes a window** of the samples a buffer holds, whatever `malloc`
has left, exactly if it ends before the last sample and has at most 178956971 of
them; an empty one, exactly if `malloc` has left a NUL. -/
theorem toHexString_encodes_iff (holds : b.Holds samples)
    (inside : start.toNat + len.toNat ≤ samples.length) (sep : Byte) (left : ℕ → Byte) :
    (∃ run, b.toHexString start len sep left = .ok run ∧
      Encodes samples start.toNat len.toNat sep run) ↔
      if len = 0 then left 0 = 0
      else start.toNat + len.toNat < samples.length ∧ len.toNat ≤ 178956971 := by
  split
  · next empty =>
      subst empty
      rw [toHexString_zero]
      constructor
      · rintro ⟨run, plays, encodes⟩
        cases plays
        exact encodes_zero_iff.mp encodes
      · exact fun isNul => ⟨_, rfl, encodes_zero_iff.mpr isNul⟩
  · next nonempty =>
      have positive : 0 < len.toNat :=
        Nat.pos_of_ne_zero fun zero => nonempty (UInt32.toNat_inj.mp zero)
      constructor
      · rintro ⟨run, plays, encodes⟩
        exact holds.room_of_encodes positive inside plays encodes
      · rintro ⟨before, short⟩
        exact holds.encodes positive before short

end Windows

/-- The samples 1.0 and 2.0. -/
def twoSamples : JsPortBuffer := ⟨sampleBytes [0x3F800000#32, 0x40000000#32], 8⟩

theorem holds_twoSamples : twoSamples.Holds [0x3F800000#32, 0x40000000#32] :=
  ⟨List.prefix_rfl, by decide⟩

/-- The first of them is printed, although the second is read, too. -/
example : (twoSamples.toHexString 0 1 0x2C fun _ => 0xFF).map HexRun.hexText =
    .ok ("0x3F800000L,".toList.map (fun c => BitVec.ofNat 8 c.toNat) ++ [0]) := by
  decide +kernel

theorem toHexString_encodes_iff_twoSamples :
    twoSamples.Holds [0x3F800000#32, 0x40000000#32] ∧
      ((∃ run, twoSamples.toHexString 0 1 0x2C (fun _ => 0xFF) = .ok run ∧
        Encodes [0x3F800000#32, 0x40000000#32] 0 1 0x2C run) ↔
        if (1 : UInt32) = 0 then (0xFF : Byte) = 0 else 0 + 1 < 2 ∧ 1 ≤ 178956971) :=
  ⟨holds_twoSamples, toHexString_encodes_iff holds_twoSamples (by decide) 0x2C fun _ => 0xFF⟩

/-- Of a capture of one sample, bytes behind it are read. -/
theorem toHexString_reads_past :
    ¬ ∀ (b : JsPortBuffer) (samples : List Sample) (start len : UInt32) (sep : Byte)
      (left : ℕ → Byte), b.Holds samples → start.toNat + len.toNat ≤ samples.length →
      ∃ run, b.toHexString start len sep left = .ok run ∧
        Encodes samples start.toNat len.toNat sep run := by
  intro always
  have holds := JsPort.holds_getBuffer JsPort.copied_capturedOne
  obtain ⟨run, plays, encodes⟩ := always _ _ 0 1 0 (fun _ => 0) holds (by decide)
  have bytes : ((JsPort.getBuffer JsPort.capturedOne).2.toHexString 0 1 0 fun _ => 0).map
      HexRun.reads = .ok [0, 1, 2, 3, 4, 5, 6, 7] := by
    decide +kernel
  rw [plays] at bytes
  have all : run.reads = [0, 1, 2, 3, 4, 5, 6, 7] := Except.ok.inj bytes
  exact absurd (encodes.reads 7 (by simp [all])) (by decide)

end JsPortBuffer

end Jacks
