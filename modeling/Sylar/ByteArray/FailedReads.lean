import Sylar.ByteArray.Strings

/-!
# Reads of values that are not there in full

`complete` says what the unread bytes have to hold: the bytes of a number of fixed width, a
varint up to its last byte, a length and as many bytes behind it. A reader that does not find
them fails in its first read, or has already moved the position when it fails.
-/

namespace Sylar.ByteArray

open Library

/-- `buff.resize(len)`. `maxSize` is the largest length of a string, and `memory` tells for
which lengths there is memory. -/
def resize (maxSize : Nat) (memory : Nat → Bool) (len : Nat) : Program Unit :=
  if len > maxSize then throw .lengthError
  else if memory len then return ()
  else throw .badAlloc

section Readers

variable (host : Endian) (maxSize : Nat) (memory : Nat → Bool)

/-- The four string readers with their `buff`. -/
def StringFormat.readBuff : StringFormat → Program (List UInt8)
  | f16 => do
      let len ← readFuint16 host
      resize maxSize memory len.toNat
      ByteArray.read len.toNat
  | f32 => do
      let len ← readFuint32 host
      resize maxSize memory len.toNat
      ByteArray.read len.toNat
  | f64 => do
      let len ← readFuint64 host
      resize maxSize memory len.toNat
      ByteArray.read len.toNat
  | vint => do
      let len ← readUint64 host
      resize maxSize memory len.toNat
      ByteArray.read len.toNat

/-- The typed readers. -/
inductive Reader where
  | number (format : Format)
  | string (format : StringFormat)
deriving DecidableEq, Repr

/-- Call a reader and drop the value. -/
def Reader.call : Reader → Program Unit
  | number format => do let _ ← format.read host
  | string format => do let _ ← format.readBuff host maxSize memory

end Readers

/-- The varint at the beginning of some bytes, which has `most` bytes at most: how many bytes
it has and the number they make up. -/
def varintAt : (most : Nat) → List UInt8 → Option (Nat × Nat)
  | 0, _ => some (0, 0)
  | _ + 1, [] => none
  | most + 1, byte :: rest =>
      if byte < 0x80 then some (1, byte.toNat)
      else (varintAt most rest).map fun (count, value) =>
        (count + 1, byte.toNat % 128 + 128 * value)

/-- The number that bytes make up in a byte order. -/
def numberOf (endian : Endian) (bytes : List UInt8) : Nat :=
  match endian with
  | .little => ofBytes bytes
  | .big => ofBytes bytes.reverse

/-- How many bytes a number takes when they do not depend on the number, else how many it
takes at most. -/
def Format.extent : Format → Nat ⊕ Nat
  | fint8 | fuint8 => .inl 1
  | fint16 | fuint16 => .inl 2
  | fint32 | fuint32 | float => .inl 4
  | fint64 | fuint64 | double => .inl 8
  | int32 | uint32 => .inr 5
  | int64 | uint64 => .inr 10

/-- The size of the length and the length that is announced. -/
def StringFormat.announced (format : StringFormat) (endian : Endian) (unread : List UInt8) :
    Option (Nat × Nat) :=
  let fixed (size : Nat) : Option (Nat × Nat) :=
    if size ≤ unread.length then some (size, numberOf endian (unread.take size)) else none
  match format with
  | f16 => fixed 2
  | f32 => fixed 4
  | f64 => fixed 8
  | vint => (varintAt 10 unread).map fun (count, value) => (count, value % 2 ^ 64)

/-- The unread bytes hold the whole value. -/
def complete (reader : Reader) (endian : Endian) (unread : List UInt8) : Bool :=
  match reader with
  | .number format =>
      match format.extent with
      | .inl size => size ≤ unread.length
      | .inr most => (varintAt most unread).isSome
  | .string format =>
      match format.announced endian unread with
      | none => false
      | some (header, length) => header + length ≤ unread.length

/-- How many bytes the first read of a reader asks for. -/
def Reader.leading : Reader → Nat
  | number format =>
      match format.extent with
      | .inl size => size
      | .inr _ => 1
  | string .f16 => 2
  | string .f32 => 4
  | string .f64 => 8
  | string .vint => 1

/-- The bytes behind the position. -/
def unread (ba : ByteArray) : List UInt8 := ba.contents.drop ba.position

section Reading

variable (host : Endian) {ba : ByteArray}

theorem length_unread (wf : WellFormed ba) : ba.unread.length = ba.getReadSize := by
  rw [unread, List.length_drop, wf.length_contents]
  rfl

/-- A fixed number of bytes that are there is read in the byte order asked for. -/
theorem readFixed_run {T : Type} [Word T] (wf : WellFormed ba) (positive : Word.size T ≠ 0)
    (available : Word.size T ≤ ba.getReadSize) :
    ∃ after, EStateM.run (readFixed host : Program T) ba =
        .ok (Word.ofNat (numberOf ba.endian (ba.unread.take (Word.size T)))) after ∧
      Moved (ba.position + Word.size T) ba after := by
  obtain ⟨after, ran, moved⟩ := wf.read_run positive available
  refine ⟨after, ?_, moved⟩
  have length : (ba.unread.take (Word.size T)).length = Word.size T := by
    rw [List.length_take, length_unread wf]
    omega
  have swapped (image : List UInt8) (length : image.length = Word.size T) :
      byteswap (Word.ofBytes image : T) = Word.ofBytes image.reverse := by
    rw [byteswap, Word.swap, Word.bytes_ofBytes length]
  change EStateM.run (readFixed host : Program T) ba = .ok (Word.ofNat
    (numberOf ba.endian (ba.unread.take (Word.size T)))) after
  rw [unread] at length ⊢
  simp only [readFixed, EStateM.run_bind, ran, EStateM.run_get, moved.endian]
  generalize (ba.contents.drop ba.position).take (Word.size T) = image at length
  have back := swapped image.reverse (by rw [List.length_reverse, length])
  rw [List.reverse_reverse] at back
  cases ba.endian <;> cases host
  · rfl
  · simp only [fromMemory, reduceCtorEq, if_false, EStateM.run_pure, back]
    rfl
  · simp only [fromMemory, reduceCtorEq, if_false, EStateM.run_pure, swapped image length]
    rfl
  · rfl

theorem numberOf_lt (endian : Endian) (bytes : List UInt8) :
    numberOf endian bytes < 256 ^ bytes.length := by
  cases endian with
  | little => exact ofBytes_lt bytes
  | big =>
      have bound := ofBytes_lt bytes.reverse
      rwa [List.length_reverse] at bound

/-- The bits of one more group of seven. -/
theorem or_group (width i result byte value : Nat) :
    result ||| ((byte &&& 0x7f) <<< i) % 2 ^ width ||| (value <<< (i + 7)) % 2 ^ width =
      result ||| ((byte % 128 + 128 * value) <<< i) % 2 ^ width := by
  have low : byte &&& 0x7f = byte % 128 := Nat.and_two_pow_sub_one_eq_mod byte 7
  have bound : byte % 128 < 2 ^ 7 := Nat.mod_lt _ (by decide)
  have joined : byte % 128 + 128 * value = byte % 128 ||| value <<< 7 := by
    rw [Nat.or_comm, ← Nat.shiftLeft_add_eq_or_of_lt bound, Nat.shiftLeft_eq]
    omega
  rw [low, Nat.or_assoc, ← Nat.or_mod_two_pow, joined, Nat.shiftLeft_or_distrib,
    ← Nat.shiftLeft_add, Nat.add_comm 7 i]

/-- The loop reads the varint that is there, or fails behind the last byte. -/
theorem readVarintLoop_run (width turns i result most : Nat) (wf : WellFormed ba)
    (groups : most = (width - i + 6) / 7) (enough : most ≤ turns) :
    (∀ count value, varintAt most ba.unread = some (count, value) →
      ∃ after, EStateM.run (readVarintLoop host width turns i result) ba =
          .ok (result ||| (value <<< i) % 2 ^ width) after ∧ Moved (ba.position + count) ba after) ∧
    (varintAt most ba.unread = none →
      ∃ after, EStateM.run (readVarintLoop host width turns i result) ba =
          .error .outOfRange after ∧ Moved (ba.position + ba.getReadSize) ba after) := by
  induction most generalizing turns i result ba with
  | zero =>
      have ended : ¬i < width := by omega
      refine ⟨fun count value found => ⟨ba, ?_, ?_⟩, fun none_ => by cases none_⟩
      · cases found
        cases turns with
        | zero => simp [readVarintLoop]
        | succ turns => simp [readVarintLoop, ended]
      · cases found
        exact Moved.refl wf
  | succ most inductionHypothesis =>
      obtain ⟨turns, rfl⟩ : ∃ fewer, turns = fewer + 1 := ⟨turns - 1, by omega⟩
      have going : i < width := by omega
      rw [readVarintLoop, if_pos going]
      have size := length_unread wf
      cases bytes : ba.unread with
      | nil =>
          rw [bytes, List.length_nil] at size
          refine ⟨fun count value found => (by cases found), fun _ => ⟨ba, ?_, ?_⟩⟩
          · have short : ba.getReadSize < Word.size Int8 := by
              rw [← size]
              decide
            simp only [readFuint8, EStateM.run_bind, read_run_outOfRange short]
          · rw [← size]
            exact Moved.refl wf
      | cons byte rest =>
          rw [bytes, List.length_cons] at size
          obtain ⟨next, ran, moved⟩ := reads_readFuint8 host byte wf bytes
          have behind : next.unread = rest := moved.unread bytes
          have nextSize := length_unread moved.wellFormed
          rw [behind] at nextSize
          simp only [EStateM.run_bind, ran, varintAt]
          by_cases last : byte < 0x80
          · simp only [if_pos last, Option.some.injEq, Prod.mk.injEq, reduceCtorEq, false_imp_iff,
              and_true]
            rintro count value ⟨rfl, rfl⟩
            exact ⟨next, rfl, moved⟩
          · obtain ⟨whole, short⟩ := inductionHypothesis turns (i + 7)
              (result ||| ((byte.toNat &&& 0x7f) <<< i) % 2 ^ width) moved.wellFormed
              (by omega) (by omega)
            rw [behind] at whole short
            simp only [if_neg last, Option.map_eq_some_iff, Option.map_eq_none_iff, Prod.exists,
              Prod.mk.injEq]
            constructor
            · rintro _ _ ⟨count, value, found, rfl, rfl⟩
              obtain ⟨after, done, further⟩ := whole count value found
              rw [or_group] at done
              rw [moved.position, Nat.add_assoc] at further
              refine ⟨after, done, ?_⟩
              rw [Nat.add_comm count 1]
              exact moved.trans further
            · intro missing
              obtain ⟨after, done, further⟩ := short missing
              rw [moved.position, Nat.add_assoc, ← nextSize, List.length_singleton,
                Nat.add_comm 1, size] at further
              exact ⟨after, done, moved.trans further⟩

theorem readUint32_run (wf : WellFormed ba) (missing : varintAt 5 ba.unread = none) :
    ∃ after, EStateM.run (readUint32 host) ba = .error .outOfRange after ∧
      Moved (ba.position + ba.getReadSize) ba after := by
  obtain ⟨after, ran, moved⟩ := (readVarintLoop_run host 32 32 0 0 5 wf (by decide)
    (by decide)).2 missing
  exact ⟨after, by simp only [readUint32, EStateM.run_bind, ran], moved⟩

theorem readUint64_run (wf : WellFormed ba) :
    (∀ count value, varintAt 10 ba.unread = some (count, value) →
      ∃ after, EStateM.run (readUint64 host) ba = .ok (UInt64.ofNat (value % 2 ^ 64)) after ∧
        Moved (ba.position + count) ba after) ∧
    (varintAt 10 ba.unread = none →
      ∃ after, EStateM.run (readUint64 host) ba = .error .outOfRange after ∧
        Moved (ba.position + ba.getReadSize) ba after) := by
  obtain ⟨whole, short⟩ := readVarintLoop_run host 64 64 0 0 10 wf (by decide) (by decide)
  constructor
  · intro count value found
    obtain ⟨after, ran, moved⟩ := whole count value found
    refine ⟨after, ?_, moved⟩
    simp only [readUint64, EStateM.run_bind, ran, EStateM.run_pure, Nat.shiftLeft_zero,
      Nat.zero_or]
  · intro missing
    obtain ⟨after, ran, moved⟩ := short missing
    exact ⟨after, by simp only [readUint64, EStateM.run_bind, ran], moved⟩

/-- A varint has a byte at least. -/
theorem varintAt_count_pos {most count value : Nat} {bytes : List UInt8} (some_ : most ≠ 0)
    (found : varintAt most bytes = some (count, value)) : 0 < count := by
  obtain ⟨fewer, rfl⟩ := Nat.exists_eq_succ_of_ne_zero some_
  cases bytes with
  | nil => cases found
  | cons byte rest =>
      rw [varintAt] at found
      split at found
      · cases found
        exact Nat.one_pos
      · simp only [Option.map_eq_some_iff, Prod.exists, Prod.mk.injEq] at found
        obtain ⟨behind, _, _, rfl, _⟩ := found
        exact Nat.succ_pos behind

variable (maxSize : Nat) (memory : Nat → Bool)

theorem StringFormat.readBuff_eq (format : StringFormat) :
    format.readBuff host maxSize memory = (do
      let len ← format.readLength host
      resize maxSize memory len
      ByteArray.read len) := by
  cases format <;> simp only [readBuff, readLength, bind_assoc, pure_bind]

/-- A length of fixed width. -/
theorem fixedLength_run (wf : WellFormed ba) (T : Type) [Word T] (positive : Word.size T ≠ 0) :
    (Word.size T ≤ ba.getReadSize →
      ∃ after, EStateM.run (do return Word.toNat (← (readFixed host : Program T))) ba =
          .ok (numberOf ba.endian (ba.unread.take (Word.size T))) after ∧
        Moved (ba.position + Word.size T) ba after) ∧
    (ba.getReadSize < Word.size T →
      EStateM.run (do return Word.toNat (← (readFixed host : Program T))) ba =
        .error .outOfRange ba) := by
  constructor
  · intro available
    obtain ⟨after, ran, moved⟩ := readFixed_run host wf positive available
    have bound := numberOf_lt ba.endian (ba.unread.take (Word.size T))
    rw [List.length_take, length_unread wf, Nat.min_eq_left available] at bound
    refine ⟨after, ?_, moved⟩
    simp only [EStateM.run_bind, ran, EStateM.run_pure, Word.toNat_ofNat _ bound]
  · intro short
    simp only [readFixed, EStateM.run_bind, read_run_outOfRange short]

/-- Where the reader of a length ends that is there, and where else. -/
theorem StringFormat.readLength_run (wf : WellFormed ba) (format : StringFormat) :
    (∀ header length, format.announced ba.endian ba.unread = some (header, length) →
      0 < header ∧ (Reader.string format).leading ≤ ba.getReadSize ∧
      ∃ after, EStateM.run (format.readLength host) ba = .ok length after ∧
        Moved (ba.position + header) ba after) ∧
    (format.announced ba.endian ba.unread = none →
      ∃ after, EStateM.run (format.readLength host) ba = .error .outOfRange after ∧
        (ba.getReadSize < (Reader.string format).leading → Moved ba.position ba after) ∧
        ((Reader.string format).leading ≤ ba.getReadSize → ba.position < after.position)) := by
  have size := length_unread wf
  have fixed (T : Type) [Word T] (positive : Word.size T ≠ 0) (program : Program Nat)
      (same : program = do return Word.toNat (← (readFixed host : Program T))) :
      (∀ header length, (if Word.size T ≤ ba.unread.length then
          some (Word.size T, numberOf ba.endian (ba.unread.take (Word.size T))) else none) =
            some (header, length) →
        0 < header ∧ Word.size T ≤ ba.getReadSize ∧
        ∃ after, EStateM.run program ba = .ok length after ∧
          Moved (ba.position + header) ba after) ∧
      ((if Word.size T ≤ ba.unread.length then
          some (Word.size T, numberOf ba.endian (ba.unread.take (Word.size T))) else none) = none →
        ∃ after, EStateM.run program ba = .error .outOfRange after ∧
          (ba.getReadSize < Word.size T → Moved ba.position ba after) ∧
          (Word.size T ≤ ba.getReadSize → ba.position < after.position)) := by
    obtain ⟨whole, short⟩ := fixedLength_run host wf T positive
    rw [same, size]
    constructor
    · intro header length found
      split at found
      · rename_i available
        cases found
        exact ⟨Nat.pos_of_ne_zero positive, available, whole available⟩
      · cases found
    · intro missing
      split at missing
      · cases missing
      · rename_i few
        exact ⟨ba, short (Nat.not_le.mp few), fun _ => Moved.refl wf,
          fun available => absurd available few⟩
  cases format with
  | f16 => exact fixed UInt16 (by decide) _ rfl
  | f32 => exact fixed UInt32 (by decide) _ rfl
  | f64 => exact fixed UInt64 (by decide) _ rfl
  | vint =>
      obtain ⟨whole, short⟩ := readUint64_run host wf
      simp only [announced, Option.map_eq_some_iff, Option.map_eq_none_iff, Prod.exists,
        Prod.mk.injEq]
      constructor
      · rintro _ _ ⟨count, value, found, rfl, rfl⟩
        obtain ⟨after, ran, moved⟩ := whole count value found
        refine ⟨varintAt_count_pos (by decide) found, ?_, after, ?_, moved⟩
        · by_contra few
          have none_ : ba.unread = [] := List.length_eq_zero_iff.mp (by
            have leading : (Reader.string .vint).leading = 1 := rfl
            omega)
          rw [none_] at found
          cases found
        · simp only [readLength, EStateM.run_bind, ran, EStateM.run_pure, UInt64.toNat_ofNat',
            Nat.mod_mod]
      · intro missing
        obtain ⟨after, ran, moved⟩ := short missing
        have leading : (Reader.string .vint).leading = 1 := rfl
        refine ⟨after, ?_, fun few => ?_, fun some_ => ?_⟩
        · simp only [readLength, EStateM.run_bind, ran]
        · have none_ : ba.getReadSize = 0 := by omega
          rwa [none_] at moved
        · rw [moved.position]
          omega

/-- A failed call that leaves the position and the size as they were, and throws what it is
documented to throw. -/
def Clean (reader : Reader) (ba : ByteArray) : Prop :=
  ∃ after, EStateM.run (reader.call host maxSize memory) ba = .error .outOfRange after ∧
    after.position = ba.position ∧ after.size = ba.size

theorem Moved.size {position : Nat} {after : ByteArray} (wf : WellFormed ba)
    (moved : Moved position ba after) : after.size = ba.size := by
  rw [← moved.wellFormed.length_contents, moved.contents, wf.length_contents]

theorem Format.read_fixed_fails {format : Format} {width : Nat} (extent : format.extent = .inl width)
    (beyond : ba.getReadSize < width) :
    EStateM.run (format.read host) ba = .error .outOfRange ba := by
  cases format <;> cases extent
  all_goals
    have short := read_run_outOfRange beyond
  case fint8 | fuint8 => simp only [Format.read, readFint8, readFuint8, EStateM.run_bind, Word.size, short]
  all_goals
    simp only [Format.read, readFint16, readFuint16, readFint32, readFuint32, readFint64,
      readFuint64, readFloat, readDouble, readFixed, EStateM.run_bind, Word.size, short]

theorem Format.read_varint_fails (wf : WellFormed ba) {format : Format} {most : Nat}
    (extent : format.extent = .inr most) (missing : varintAt most ba.unread = none) :
    ∃ after, EStateM.run (format.read host) ba = .error .outOfRange after ∧
      Moved (ba.position + ba.getReadSize) ba after := by
  cases format <;> cases extent
  case int32 =>
    obtain ⟨after, ran, moved⟩ := readUint32_run host wf missing
    exact ⟨after, by simp only [Format.read, readInt32, EStateM.run_bind, ran], moved⟩
  case uint32 => exact readUint32_run host wf missing
  case int64 =>
    obtain ⟨after, ran, moved⟩ := (readUint64_run host wf).2 missing
    exact ⟨after, by simp only [Format.read, readInt64, EStateM.run_bind, ran], moved⟩
  case uint64 => exact (readUint64_run host wf).2 missing

/-- A number that is not there in full. -/
theorem Reader.number_fails (wf : WellFormed ba) (format : Format)
    (incomplete : complete (.number format) ba.endian ba.unread = false) :
    ∃ after, EStateM.run ((Reader.number format).call host maxSize memory) ba =
        .error .outOfRange after ∧
      (ba.getReadSize < (Reader.number format).leading → Moved ba.position ba after) ∧
      ((Reader.number format).leading ≤ ba.getReadSize → ba.position < after.position) := by
  cases extent : format.extent with
  | inl width =>
      simp only [complete, extent, length_unread wf, decide_eq_false_iff_not, Nat.not_le] at incomplete
      have leading : (Reader.number format).leading = width := by rw [Reader.leading, extent]
      refine ⟨ba, ?_, fun _ => Moved.refl wf, fun available => by omega⟩
      simp only [Reader.call, EStateM.run_bind, Format.read_fixed_fails host extent incomplete]
  | inr most =>
      simp only [complete, extent, Option.isSome_eq_false_iff, Option.isNone_iff_eq_none] at incomplete
      have leading : (Reader.number format).leading = 1 := by rw [Reader.leading, extent]
      obtain ⟨after, ran, moved⟩ := Format.read_varint_fails host wf extent incomplete
      refine ⟨after, ?_, fun few => ?_, fun some_ => ?_⟩
      · simp only [Reader.call, EStateM.run_bind, ran]
      · have none_ : ba.getReadSize = 0 := by omega
        rwa [none_] at moved
      · rw [moved.position]
        omega

/-- A string that is not there in full. What is thrown behind the length is up to the memory. -/
theorem Reader.string_fails (wf : WellFormed ba) (format : StringFormat)
    (incomplete : complete (.string format) ba.endian ba.unread = false) :
    ∃ fault after, EStateM.run ((Reader.string format).call host maxSize memory) ba =
        .error fault after ∧
      (ba.getReadSize < (Reader.string format).leading →
        fault = .outOfRange ∧ Moved ba.position ba after) ∧
      ((Reader.string format).leading ≤ ba.getReadSize → ba.position < after.position) := by
  obtain ⟨whole, short⟩ := format.readLength_run host wf
  cases announced : format.announced ba.endian ba.unread with
  | none =>
      obtain ⟨after, ran, clean, dirty⟩ := short announced
      refine ⟨.outOfRange, after, ?_, fun few => ⟨rfl, clean few⟩, dirty⟩
      simp only [Reader.call, StringFormat.readBuff_eq, EStateM.run_bind, ran]
  | some found =>
      obtain ⟨header, length⟩ := found
      obtain ⟨positive, leading, after, ran, moved⟩ := whole header length announced
      simp only [complete, announced, length_unread wf, decide_eq_false_iff_not,
        Nat.not_le] at incomplete
      have beyond : after.getReadSize < length := by
        have unread : after.getReadSize = after.size - after.position := rfl
        have before : ba.getReadSize = ba.size - ba.position := rfl
        have inside := moved.wellFormed.positionLe
        rw [moved.size wf, moved.position] at unread inside
        omega
      have further : ba.position < after.position := by
        rw [moved.position]
        omega
      have fails : ∃ fault, EStateM.run ((Reader.string format).call host maxSize memory) ba =
          .error fault after := by
        simp only [Reader.call, StringFormat.readBuff_eq, EStateM.run_bind, ran, resize]
        by_cases long : length > maxSize
        · rw [if_pos long]
          exact ⟨.lengthError, rfl⟩
        · rw [if_neg long]
          cases memory length with
          | false => exact ⟨.badAlloc, rfl⟩
          | true =>
              simp only [if_true, EStateM.run_pure, read_run_outOfRange beyond]
              exact ⟨.outOfRange, rfl⟩
      obtain ⟨fault, failed⟩ := fails
      exact ⟨fault, after, failed, fun few => absurd leading (Nat.not_le.mpr few),
        fun _ => further⟩

/-- A reader that does not find the whole value always fails, and it does so cleanly exactly
when its first read already fails: the whole number of fixed width, the length of fixed width,
or the first byte of a varint. -/
theorem call_clean_iff (wf : WellFormed ba) (reader : Reader) :
    (complete reader ba.endian ba.unread = false →
      ∃ fault after, EStateM.run (reader.call host maxSize memory) ba = .error fault after) ∧
    ((complete reader ba.endian ba.unread = false → Clean host maxSize memory reader ba) ↔
      complete reader ba.endian ba.unread = true ∨ ba.getReadSize < reader.leading) := by
  have fails (incomplete : complete reader ba.endian ba.unread = false) :
      ∃ fault after, EStateM.run (reader.call host maxSize memory) ba = .error fault after ∧
        (ba.getReadSize < reader.leading → fault = .outOfRange ∧ Moved ba.position ba after) ∧
        (reader.leading ≤ ba.getReadSize → ba.position < after.position) := by
    cases reader with
    | number format =>
        obtain ⟨after, ran, clean, dirty⟩ :=
          Reader.number_fails host maxSize memory wf format incomplete
        exact ⟨.outOfRange, after, ran, fun few => ⟨rfl, clean few⟩, dirty⟩
    | string format => exact Reader.string_fails host maxSize memory wf format incomplete
  constructor
  · intro incomplete
    obtain ⟨fault, after, ran, _⟩ := fails incomplete
    exact ⟨fault, after, ran⟩
  · constructor
    · intro claimed
      by_contra neither
      obtain ⟨missing, available⟩ := not_or.mp neither
      have incomplete := Bool.eq_false_iff.mpr missing
      obtain ⟨fault, after, ran, _, dirty⟩ := fails incomplete
      obtain ⟨other, failed, position, _⟩ := claimed incomplete
      rw [ran] at failed
      cases failed
      have further := dirty (Nat.not_lt.mp available)
      omega
    · rintro (complete | few) incomplete
      · rw [complete] at incomplete
        cases incomplete
      · obtain ⟨fault, after, ran, clean, _⟩ := fails incomplete
        obtain ⟨rfl, moved⟩ := clean few
        exact ⟨after, ran, moved.position, moved.size wf⟩

end Reading

/-- `writeFuint8(0x80)` on a fresh byte array with nodes of four bytes, and back. -/
def unfinished : ByteArray where
  baseSize := 4
  position := 0
  capacity := 4
  size := 1
  endian := .big
  nodes := [⟨[0x80, 0, 0, 0], 4, rfl⟩]
  cur := some 0
  heap := fun _ _ => 0
  allocated := 1

theorem unfinished_wellFormed : WellFormed unfinished where
  basePositive := by decide
  uniform := by simp [unfinished, Uniform]
  rooted := by simp [unfinished]
  capacityEq := rfl
  positionLe := by decide
  sizeLe := by decide
  curEq := by simp [unfinished, pointerTo]

/-- Where a number of two bytes is read from one, and where a varint is. -/
theorem call_clean_unfinished :
    Clean .little 100 (fun _ => true) (.number .fuint16) unfinished ∧
      ¬(complete (.number .uint32) unfinished.endian unfinished.unread = false →
        Clean .little 100 (fun _ => true) (.number .uint32) unfinished) := by
  have short := (call_clean_iff .little 100 (fun _ => true) unfinished_wellFormed
    (.number .fuint16)).2
  have varint := (call_clean_iff .little 100 (fun _ => true) unfinished_wellFormed
    (.number .uint32)).2
  refine ⟨short.mpr (.inr (by decide)) (by decide), ?_⟩
  rw [varint]
  decide

/-- A varint whose last byte is missing leaves the position behind the bytes that are there. -/
theorem readUint32_unfinished :
    ¬∀ (host : Endian) (maxSize : Nat) (memory : Nat → Bool) (ba : ByteArray) (reader : Reader),
      WellFormed ba → complete reader ba.endian ba.unread = false →
        Clean host maxSize memory reader ba := by
  intro clean
  obtain ⟨after, ran, position, _⟩ := clean .little 100 (fun _ => true) unfinished (.number .uint32)
    unfinished_wellFormed (by decide)
  cases ran
  exact absurd position (by decide)

end Sylar.ByteArray
