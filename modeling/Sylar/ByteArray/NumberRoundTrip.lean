import Sylar.ByteArray.Numbers
import Sylar.ByteArray.Stream
import Mathlib.Data.Nat.Log

/-!
# Numbers written to a byte array are read back

Each format is a `Codec`: what it appends does not depend on the state beyond
the byte order, and reading consumes exactly that. A stream of values of mixed
formats is then a sequence of codecs.
-/

namespace Sylar

open Library

@[simp] theorem byteswap_byteswap {T : Type} [Word T] (value : T) :
    byteswap (byteswap value) = value := Word.swap_swap value

namespace ByteArray

variable (host : Endian)

section Fixed

variable {T : Type} [Word T]

@[simp] theorem length_memory (value : T) : (memory host value).length = Word.size T := by
  cases host <;> simp [memory]

@[simp] theorem fromMemory_memory (value : T) : fromMemory host (memory host value) = value := by
  cases host <;> simp [fromMemory, memory]

/-- The bytes of a fixed-width value in the byte order asked for. -/
def fixedBytes (value : T) (endian : Endian) : List UInt8 :=
  memory host (if endian ≠ host then byteswap value else value)

theorem appends_writeFixed (value : T) : Appends (writeFixed host value) (fixedBytes host value) :=
  appends_endian fun endian => appends_write (fixedBytes host value endian)

theorem reads_memory (value : T) (positive : 0 < Word.size T) :
    Reads (read (Word.size T)) (fun _ => memory host value) (memory host value) := by
  have nonempty : memory host value ≠ [] := by
    rw [← List.length_pos_iff, length_memory]
    exact positive
  have reads := reads_read nonempty
  rw [length_memory] at reads
  exact reads

theorem reads_readFixed (value : T) (positive : 0 < Word.size T) :
    Reads (readFixed host) (fixedBytes host value) value := by
  intro ba rest wf unread
  obtain ⟨after, ran, moved⟩ :=
    reads_memory host (if ba.endian ≠ host then byteswap value else value) positive wf unread
  refine ⟨after, ?_, moved⟩
  simp only [readFixed, EStateM.run_bind, ran, EStateM.run_get, moved.endian, fromMemory_memory]
  by_cases same : ba.endian = host
  · simp [same]
  · simp [same]

end Fixed

/-- One byte is in either byte order. -/
theorem reads_readFuint8 (value : UInt8) : Reads (readFuint8 host) (fun _ => [value]) value := by
  have image : memory host value.toInt8 = [value] := by
    cases host <;> simp [memory, Word.bytes, toBytes, Word.size, Word.toNat]
  have reads := (reads_memory host value.toInt8 (by decide)).map fun image =>
    (fromMemory host image : Int8).toUInt8
  rw [image] at reads
  have same : (fromMemory host [value] : Int8).toUInt8 = value := by
    rw [← image, fromMemory_memory, UInt8.toUInt8_toInt8]
  rw [same] at reads
  exact reads

section Varint

/-- The number of groups of seven bits, at least one. -/
def varintSize (value : Nat) : Nat := Nat.log 128 value + 1

/-- A group of seven bits with the mark of a following group. -/
theorem toNat_continued (value : Nat) :
    (UInt8.ofNat ((value &&& 0x7F) ||| 0x80)).toNat = value % 128 + 128 := by
  have low : value &&& 0x7F = value % 128 := Nat.and_two_pow_sub_one_eq_mod value 7
  have bound : value % 128 < 2 ^ 7 := Nat.mod_lt _ (by decide)
  have marked : value % 128 ||| 0x80 = 128 + value % 128 := by
    have disjoint := Nat.two_pow_add_eq_or_of_lt bound 1
    rw [Nat.or_comm]
    exact disjoint.symm
  rw [low, marked, UInt8.toNat_ofNat']
  omega

/-- `tmp` is long enough when it has room for all groups of seven bits. -/
theorem varintLoop_ok {room value : Nat} (fits : value < 2 ^ (7 * (room + 1))) :
    ∃ tmp, varintLoop (room + 1) value = .ok tmp ∧ tmp.length = varintSize value := by
  induction room generalizing value with
  | zero =>
      have small : value < 128 := fits
      refine ⟨[UInt8.ofNat value], ?_, ?_⟩
      · rw [varintLoop, if_neg (by omega)]
      · rw [varintSize, Nat.log_of_lt small]
        rfl
  | succ room inductionHypothesis =>
      by_cases large : value ≥ 0x80
      · have fewer : value >>> 7 < 2 ^ (7 * (room + 1)) := by
          rw [Nat.shiftRight_eq_div_pow, Nat.div_lt_iff_lt_mul (by decide), ← Nat.pow_add]
          exact fits
        obtain ⟨rest, ran, length⟩ := inductionHypothesis fewer
        refine ⟨UInt8.ofNat ((value &&& 0x7F) ||| 0x80) :: rest, ?_, ?_⟩
        · rw [varintLoop, if_pos large, ran]
          rfl
        · rw [List.length_cons, length, varintSize, varintSize, Nat.shiftRight_eq_div_pow,
            Nat.log_of_one_lt_of_le (by decide) large]
      · refine ⟨[UInt8.ofNat value], ?_, ?_⟩
        · rw [varintLoop, if_neg large]
        · rw [varintSize, Nat.log_of_lt (Nat.not_le.mp large)]
          rfl

/-- Adding a group above the bits collected so far. -/
theorem or_shiftLeft {width i result group : Nat} (collected : result < 2 ^ i)
    (fits : group * 2 ^ i < 2 ^ width) :
    result ||| (group <<< i) % 2 ^ width = result + group * 2 ^ i := by
  have shifted : group <<< i = group * 2 ^ i := Nat.shiftLeft_eq group i
  rw [shifted, Nat.mod_eq_of_lt fits, ← shifted, Nat.or_comm,
    ← Nat.shiftLeft_add_eq_or_of_lt collected, Nat.add_comm]

/-- The lowest group of the bits from `i` on, and the groups above it. -/
theorem split_group (value i : Nat) :
    value * 2 ^ i = value % 128 * 2 ^ i + value / 128 * 2 ^ (i + 7) := by
  rw [Nat.pow_add, Nat.mul_comm (2 ^ i) (2 ^ 7), ← Nat.mul_assoc, ← Nat.add_mul,
    show (2 : Nat) ^ 7 = 128 by rfl, Nat.mod_add_div']

theorem collected_group {i result : Nat} (value : Nat) (collected : result < 2 ^ i) :
    result + value % 128 * 2 ^ i < 2 ^ (i + 7) := by
  have bound : value % 128 + 1 ≤ 128 := Nat.mod_lt _ (by decide)
  have scaled := Nat.mul_le_mul_right (2 ^ i) bound
  rw [Nat.add_mul, Nat.one_mul] at scaled
  rw [Nat.pow_add]
  omega

/-- The reading loop, having collected the `i` low bits in `result`, reads the
bytes the writing loop makes of the bits above. -/
theorem reads_readVarintLoop {width room : Nat} {value i result turns : Nat} {tmp : List UInt8}
    (written : varintLoop room value = .ok tmp) (fits : value * 2 ^ i < 2 ^ width)
    (collected : result < 2 ^ i) (going : i < width) (enough : width ≤ i + turns) :
    Reads (readVarintLoop host width turns i result) (fun _ => tmp) (result + value * 2 ^ i) := by
  induction room generalizing value i result turns tmp with
  | zero => simp [varintLoop] at written
  | succ room inductionHypothesis =>
      obtain ⟨turns, rfl⟩ : ∃ fewer, turns = fewer + 1 := ⟨turns - 1, by omega⟩
      rw [readVarintLoop, if_pos going]
      rw [varintLoop] at written
      by_cases large : value ≥ 0x80
      · rw [if_pos large] at written
        cases ran : varintLoop room (value >>> 7) with
        | error fault => simp [ran, bind, Except.bind] at written
        | ok rest =>
            simp only [ran, bind, Except.bind, pure, Except.pure, Except.ok.injEq] at written
            have byte := toNat_continued value
            have marked : ¬UInt8.ofNat ((value &&& 0x7F) ||| 0x80) < 0x80 := by
              rw [UInt8.lt_iff_toNat_lt, byte]
              exact Nat.not_lt.mpr (Nat.le_add_left _ _)
            have group :
                (UInt8.ofNat ((value &&& 0x7F) ||| 0x80)).toNat &&& 0x7f = value % 128 := by
              rw [byte, Nat.and_two_pow_sub_one_eq_mod _ 7]
              omega
            have split := split_group value i
            have shifted : value >>> 7 = value / 128 := Nat.shiftRight_eq_div_pow value 7
            have groupFits : value % 128 * 2 ^ i < 2 ^ width := by omega
            have more := collected_group value collected
            have further : i + 7 < width := by
              have present : 1 ≤ value / 128 := by omega
              have scaled := Nat.mul_le_mul_right (2 ^ (i + 7)) present
              exact (Nat.pow_lt_pow_iff_right (by decide : 1 < 2)).mp (by omega)
            rw [← written]
            refine (reads_readFuint8 host (UInt8.ofNat ((value &&& 0x7F) ||| 0x80))).bind ?_
            simp only [if_neg marked, group, or_shiftLeft collected groupFits]
            rw [split, ← Nat.add_assoc, ← shifted]
            exact inductionHypothesis ran (by rw [shifted]; omega) more further (by omega)
      · rw [if_neg large] at written
        cases written
        have byte : (UInt8.ofNat value).toNat = value := by
          rw [UInt8.toNat_ofNat']
          omega
        have last : UInt8.ofNat value < 0x80 := by
          rw [UInt8.lt_iff_toNat_lt, byte]
          exact Nat.not_le.mp large
        refine (reads_readFuint8 host (UInt8.ofNat value)).bind ?_
        simp only [if_pos last, byte, or_shiftLeft collected fits]
        exact reads_pure _

/-- A varint of `width` bits, which its `tmp` has room for, is read back. -/
theorem writeVarint_reads {width value : Nat} (room : Nat) (positive : 0 < width)
    (fits : value < 2 ^ width) (enough : width ≤ 7 * (room + 1)) :
    ∃ bytes, Appends (writeVarint (room + 1) value) (fun _ => bytes) ∧
      Reads (readVarintLoop host width width 0 0) (fun _ => bytes) value ∧
      bytes.length = varintSize value := by
  have roomy := Nat.lt_of_lt_of_le fits (Nat.pow_le_pow_right (by decide) enough)
  obtain ⟨tmp, ran, length⟩ := varintLoop_ok roomy
  refine ⟨tmp, ?_, ?_, length⟩
  · simp only [writeVarint, ran]
    exact appends_write tmp
  · have reads := reads_readVarintLoop host ran (show value * 2 ^ 0 < 2 ^ width by simpa using fits)
      (show 0 < 2 ^ 0 by decide) positive (show width ≤ 0 + width by omega)
    simpa using reads

end Varint

section Zigzag

theorem toBitVec_encodeZigzag32 (v : Int32) :
    (encodeZigzag32 v).toBitVec = zigzag v.toBitVec := by
  have negative : v < 0 ↔ v.toBitVec.msb = true := by
    rw [Int32.lt_iff_toInt_lt, BitVec.msb_eq_toInt]
    simp
  rw [encodeZigzag32, zigzag]
  by_cases below : v < 0
  · rw [if_pos below, if_pos (negative.mp below), not_shiftLeft_one]
    rfl
  · rw [if_neg below, if_neg (mt negative.mpr below), shiftLeft_one]
    rfl

theorem decodeZigzag32_encodeZigzag32 (v : Int32) : decodeZigzag32 (encodeZigzag32 v) = v := by
  have decoded : (decodeZigzag32 (encodeZigzag32 v)).toBitVec =
      unzigzag (encodeZigzag32 v).toBitVec := rfl
  rw [toBitVec_encodeZigzag32, unzigzag_zigzag] at decoded
  exact Int32.toBitVec_inj.mp decoded

theorem toBitVec_encodeZigzag64 (v : Int64) :
    (encodeZigzag64 v).toBitVec = zigzag v.toBitVec := by
  have negative : v < 0 ↔ v.toBitVec.msb = true := by
    rw [Int64.lt_iff_toInt_lt, BitVec.msb_eq_toInt]
    simp
  rw [encodeZigzag64, zigzag]
  by_cases below : v < 0
  · rw [if_pos below, if_pos (negative.mp below), not_shiftLeft_one]
    rfl
  · rw [if_neg below, if_neg (mt negative.mpr below), shiftLeft_one]
    rfl

theorem decodeZigzag64_encodeZigzag64 (v : Int64) : decodeZigzag64 (encodeZigzag64 v) = v := by
  have decoded : (decodeZigzag64 (encodeZigzag64 v)).toBitVec =
      unzigzag (encodeZigzag64 v).toBitVec := rfl
  rw [toBitVec_encodeZigzag64, unzigzag_zigzag] at decoded
  exact Int64.toBitVec_inj.mp decoded

end Zigzag

theorem uint32_codec (value : UInt32) :
    ∃ bytes, Appends (writeUint32 value) bytes ∧ Reads (readUint32 host) bytes value := by
  obtain ⟨bytes, appends, reads, _⟩ :=
    writeVarint_reads host 4 (show 0 < 32 by decide) value.toNat_lt (by decide)
  have result := reads.map UInt32.ofNat
  rw [UInt32.ofNat_toNat] at result
  exact ⟨_, appends, result⟩

theorem uint64_codec (value : UInt64) :
    ∃ bytes, Appends (writeUint64 value) bytes ∧ Reads (readUint64 host) bytes value ∧
      ∀ endian, (bytes endian).length = varintSize value.toNat := by
  obtain ⟨bytes, appends, reads, length⟩ :=
    writeVarint_reads host 9 (show 0 < 64 by decide) value.toNat_lt (by decide)
  have result := reads.map UInt64.ofNat
  rw [UInt64.ofNat_toNat] at result
  exact ⟨_, appends, result, fun _ => length⟩

/-- What a format writes it also reads. -/
theorem Format.codec (format : Format) (value : format.Carrier) :
    ∃ bytes, Appends (format.write host value) bytes ∧ Reads (format.read host) bytes value := by
  cases format with
  | fint8 =>
      have reads := (reads_memory host value (by decide)).map (fromMemory host : _ → Int8)
      rw [fromMemory_memory] at reads
      exact ⟨_, appends_write _, reads⟩
  | fuint8 =>
      have image : memory host value = [value] := by
        cases host <;> simp [memory, Word.bytes, toBytes, Word.size, Word.toNat]
      exact ⟨fun _ => memory host value, appends_write _, by
        rw [image]
        exact reads_readFuint8 host value⟩
  | fint16 => exact ⟨_, appends_writeFixed host value, reads_readFixed host value (by decide)⟩
  | fuint16 => exact ⟨_, appends_writeFixed host value, reads_readFixed host value (by decide)⟩
  | fint32 => exact ⟨_, appends_writeFixed host value, reads_readFixed host value (by decide)⟩
  | fuint32 => exact ⟨_, appends_writeFixed host value, reads_readFixed host value (by decide)⟩
  | fint64 => exact ⟨_, appends_writeFixed host value, reads_readFixed host value (by decide)⟩
  | fuint64 => exact ⟨_, appends_writeFixed host value, reads_readFixed host value (by decide)⟩
  | int32 =>
      obtain ⟨bytes, appends, reads⟩ := uint32_codec host (encodeZigzag32 value)
      have result := reads.map decodeZigzag32
      rw [decodeZigzag32_encodeZigzag32] at result
      exact ⟨bytes, appends, result⟩
  | uint32 => exact uint32_codec host value
  | int64 =>
      obtain ⟨bytes, appends, reads, _⟩ := uint64_codec host (encodeZigzag64 value)
      have result := reads.map decodeZigzag64
      rw [decodeZigzag64_encodeZigzag64] at result
      exact ⟨bytes, appends, result⟩
  | uint64 =>
      obtain ⟨bytes, appends, reads, _⟩ := uint64_codec host value
      exact ⟨bytes, appends, reads⟩
  | float => exact ⟨_, appends_writeFixed host value, reads_readFixed host value (by decide)⟩
  | double => exact ⟨_, appends_writeFixed host value, reads_readFixed host value (by decide)⟩

/-- A stream of mixed formats is read as it was written. -/
theorem numbers_codec (values : List Number) :
    ∃ bytes, Appends (writeNumbers host values) bytes ∧
      Reads (readNumbers host (values.map Sigma.fst)) bytes values := by
  induction values with
  | nil => exact ⟨_, appends_nothing, reads_pure []⟩
  | cons number rest inductionHypothesis =>
      obtain ⟨format, value⟩ := number
      obtain ⟨bytes, appends, reads⟩ := format.codec host value
      obtain ⟨restBytes, restAppends, restReads⟩ := inductionHypothesis
      exact ⟨_, appends.bind restAppends,
        reads.bind (restReads.map fun values => (⟨format, value⟩ : Number) :: values)⟩

/-- Values of mixed formats come back unchanged, whatever the base size and the
two byte orders, and nothing is left unread. No `tmp` is indexed past its end,
no node is left and no null pointer followed, since no fault occurs. -/
theorem numbers_roundTrip {baseSize : Nat} (positive : 0 < baseSize)
    (heap : Nat → Nat → UInt8) (val : Bool) (values : List Number) :
    ∃ after, EStateM.run (numberSession host val values) (new baseSize heap) =
        .ok values after ∧ after.getReadSize = 0 := by
  obtain ⟨bytes, appends, reads⟩ := numbers_codec host values
  obtain ⟨ordered, ranOrder, filledOrder⟩ := (filled_new positive heap).setIsLittleEndian_run val
  obtain ⟨written, ranWrite, filled⟩ := appends filledOrder
  obtain ⟨rewound, ranRewind, moved⟩ := filled.rewind_run
  have unread : rewound.contents.drop rewound.position = bytes rewound.endian ++ [] := by
    rw [moved.contents, moved.position, moved.endian, filled.contents, filled.endian,
      List.append_nil, List.nil_append, List.drop_zero]
  obtain ⟨after, ranRead, movedRead⟩ := reads moved.wellFormed unread
  refine ⟨after, ?_, ?_⟩
  · rw [numberSession, EStateM.run_bind, ranOrder]
    simp only [EStateM.run_bind, ranWrite, ranRewind, ranRead]
  · have size : after.size = (bytes rewound.endian).length := by
      rw [← movedRead.wellFormed.length_contents, movedRead.contents, moved.contents,
        filled.contents, moved.endian, filled.endian, List.nil_append]
    rw [getReadSize, movedRead.position, moved.position, size, Nat.zero_add, Nat.sub_self]

/-- The most negative values, a varint of two bytes and a value across nodes. -/
theorem numbers_roundTrip_mostNegative :
    ∃ after, EStateM.run (numberSession .little false
        [⟨.int32, -2147483648⟩, ⟨.uint64, 300⟩, ⟨.fint16, -2⟩, ⟨.int64, -9223372036854775808⟩])
        (new 3 fun _ _ => 0) =
      .ok [⟨.int32, -2147483648⟩, ⟨.uint64, 300⟩, ⟨.fint16, -2⟩, ⟨.int64, -9223372036854775808⟩]
        after ∧ after.getReadSize = 0 :=
  numbers_roundTrip .little (by decide) _ false _

end ByteArray

end Sylar
