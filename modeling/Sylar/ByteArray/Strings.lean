import Sylar.ByteArray.NumberRoundTrip

/-!
# Strings in a byte array

Each string follows its length, which is written with 16, 32 or 64 bits or as a
varint. `strings_roundTrip_iff` says exactly when a sequence of strings is read
back: every length has to fit its header, and an empty string must not be the
last one when the data ends with a node, for then even a read of nothing follows
the null `m_cur`.
-/

namespace Sylar.ByteArray

open Library

variable (host : Endian)

def writeStringF16 (value : List UInt8) : Program Unit := do
  writeFuint16 host (UInt16.ofNat value.length)
  write value

def writeStringF32 (value : List UInt8) : Program Unit := do
  writeFuint32 host (UInt32.ofNat value.length)
  write value

def writeStringF64 (value : List UInt8) : Program Unit := do
  writeFuint64 host (UInt64.ofNat value.length)
  write value

def writeStringVint (value : List UInt8) : Program Unit := do
  writeUint64 (UInt64.ofNat value.length)
  write value

/-- `buff` is resized to `len` and filled by one `read`. -/
def readStringF16 : Program (List UInt8) := do
  let len ← readFuint16 host
  read len.toNat

def readStringF32 : Program (List UInt8) := do
  let len ← readFuint32 host
  read len.toNat

def readStringF64 : Program (List UInt8) := do
  let len ← readFuint64 host
  read len.toNat

def readStringVint : Program (List UInt8) := do
  let len ← readUint64 host
  read len.toNat

/-- How the length of a string is written. -/
inductive StringFormat where
  | f16 | f32 | f64 | vint
deriving DecidableEq, Repr

namespace StringFormat

def write : StringFormat → List UInt8 → Program Unit
  | f16 => writeStringF16 host
  | f32 => writeStringF32 host
  | f64 => writeStringF64 host
  | vint => writeStringVint

def read : StringFormat → Program (List UInt8)
  | f16 => readStringF16 host
  | f32 => readStringF32 host
  | f64 => readStringF64 host
  | vint => readStringVint host

/-- The width of the length. -/
def bits : StringFormat → Nat
  | f16 => 16
  | f32 => 32
  | f64 => 64
  | vint => 64

/-- How many bytes the length takes. -/
def headerSize : StringFormat → (length : Nat) → Nat
  | f16, _ => 2
  | f32, _ => 4
  | f64, _ => 8
  | vint, length => varintSize (length % 2 ^ 64)

end StringFormat

/-- A string and the format it is written in. -/
abbrev Text := StringFormat × List UInt8

/-- Write one string behind the other. -/
def writeStrings : List Text → Program Unit
  | [] => return ()
  | (format, value) :: rest => do
      format.write host value
      writeStrings rest

/-- Read one string behind the other. -/
def readStrings : List StringFormat → Program (List (List UInt8))
  | [] => return []
  | format :: rest => do
      let value ← format.read host
      let values ← readStrings rest
      return value :: values

/-- Write the strings to a fresh byte array, go back and read them. -/
def stringSession (val : Bool) (strings : List Text) : Program (List (List UInt8)) := do
  setIsLittleEndian val
  writeStrings host strings
  setPosition 0
  readStrings host (strings.map Prod.fst)

/-- The length of every string fits its header. -/
def LengthsFit (strings : List Text) : Prop :=
  ∀ text ∈ strings, text.2.length < 2 ^ text.1.bits

/-- The last string is there and is empty. -/
def EndsEmpty (strings : List Text) : Prop := (strings.map Prod.snd).getLast? = some []

/-- The size of all strings with their headers. -/
def encodedSize (strings : List Text) : Nat :=
  (strings.map fun text => text.1.headerSize text.2.length + text.2.length).sum

namespace StringFormat

/-- Write the length alone. -/
def writeLength : StringFormat → Nat → Program Unit
  | f16, length => writeFuint16 host (UInt16.ofNat length)
  | f32, length => writeFuint32 host (UInt32.ofNat length)
  | f64, length => writeFuint64 host (UInt64.ofNat length)
  | vint, length => writeUint64 (UInt64.ofNat length)

/-- Read the length alone. -/
def readLength : StringFormat → Program Nat
  | f16 => do return (← readFuint16 host).toNat
  | f32 => do return (← readFuint32 host).toNat
  | f64 => do return (← readFuint64 host).toNat
  | vint => do return (← readUint64 host).toNat

theorem write_eq (format : StringFormat) (value : List UInt8) :
    format.write host value =
      (do format.writeLength host value.length; ByteArray.write value) := by
  cases format <;> rfl

theorem read_eq (format : StringFormat) :
    format.read host = (do let len ← format.readLength host; ByteArray.read len) := by
  cases format <;> simp only [read, readStringF16, readStringF32, readStringF64, readStringVint,
    readLength, bind_assoc, pure_bind]

/-- The length comes back modulo the width of its header. -/
theorem length_codec (format : StringFormat) (length : Nat) :
    ∃ bytes, Appends (format.writeLength host length) bytes ∧
      Reads (format.readLength host) bytes (length % 2 ^ format.bits) ∧
      ∀ endian, (bytes endian).length = format.headerSize length := by
  cases format with
  | f16 =>
      have reads := (reads_readFixed host (UInt16.ofNat length) (by decide)).map UInt16.toNat
      rw [UInt16.toNat_ofNat'] at reads
      exact ⟨_, appends_writeFixed host _, reads, fun _ => length_memory host _⟩
  | f32 =>
      have reads := (reads_readFixed host (UInt32.ofNat length) (by decide)).map UInt32.toNat
      rw [UInt32.toNat_ofNat'] at reads
      exact ⟨_, appends_writeFixed host _, reads, fun _ => length_memory host _⟩
  | f64 =>
      have reads := (reads_readFixed host (UInt64.ofNat length) (by decide)).map UInt64.toNat
      rw [UInt64.toNat_ofNat'] at reads
      exact ⟨_, appends_writeFixed host _, reads, fun _ => length_memory host _⟩
  | vint =>
      obtain ⟨bytes, appends, reads, size⟩ := uint64_codec host (UInt64.ofNat length)
      have result := reads.map UInt64.toNat
      rw [UInt64.toNat_ofNat'] at result size
      exact ⟨bytes, appends, result, size⟩

theorem headerSize_pos (format : StringFormat) (length : Nat) : 0 < format.headerSize length := by
  cases format <;> simp [headerSize, varintSize]

end StringFormat

theorem encodedSize_cons (format : StringFormat) (value : List UInt8) (rest : List Text) :
    encodedSize ((format, value) :: rest) =
      format.headerSize value.length + value.length + encodedSize rest := by
  simp [encodedSize]

theorem encodedSize_eq_zero_iff {strings : List Text} : encodedSize strings = 0 ↔ strings = [] := by
  cases strings with
  | nil => simp [encodedSize]
  | cons text rest =>
      have positive := text.1.headerSize_pos text.2.length
      rw [show text = (text.1, text.2) from rfl, encodedSize_cons]
      simp only [reduceCtorEq, iff_false]
      omega

theorem endsEmpty_cons (format : StringFormat) (value : List UInt8) (rest : List Text) :
    EndsEmpty ((format, value) :: rest) ↔ (rest = [] ∧ value = []) ∨ EndsEmpty rest := by
  cases rest with
  | nil => simp [EndsEmpty]
  | cons text rest => simp [EndsEmpty, List.getLast?_cons]

/-- Reading the strings back from `ba` succeeds and ends at the end. -/
def ReadBack (strings : List Text) (ba : ByteArray) : Prop :=
  ∃ after, EStateM.run (readStrings host (strings.map Prod.fst)) ba =
      .ok (strings.map Prod.snd) after ∧ after.position = after.size

/-- The condition under which the strings that are unread come back: `m_cur` is
null at the end of the data if that is also the end of the chain. -/
def Readable (strings : List Text) (ba : ByteArray) : Prop :=
  LengthsFit strings ∧ ¬(EndsEmpty strings ∧ ba.size = ba.capacity)

section OneString

variable {ba : ByteArray} {format : StringFormat} {value rest : List UInt8}
  {header : Endian → List UInt8}

/-- Reading a string starts with its length, reduced to the width of the header. -/
theorem read_string_run (wf : WellFormed ba)
    (reads : Reads (format.readLength host) header (value.length % 2 ^ format.bits))
    (unread : ba.contents.drop ba.position = header ba.endian ++ (value ++ rest)) :
    ∃ middle, EStateM.run (format.read host) ba =
        EStateM.run (read (value.length % 2 ^ format.bits)) middle ∧
      Moved (ba.position + (header ba.endian).length) ba middle ∧
      middle.contents.drop middle.position = value ++ rest := by
  obtain ⟨middle, ran, moved⟩ := reads wf unread
  refine ⟨middle, ?_, moved, moved.unread unread⟩
  rw [StringFormat.read_eq, EStateM.run_bind, ran]

/-- A read that succeeds yields as many bytes as it was asked for. -/
theorem read_length {size : Nat} {bytes : List UInt8} {after : ByteArray} (wf : WellFormed ba)
    (ran : EStateM.run (read size) ba = .ok bytes after) : bytes.length = size := by
  have length := wf.length_contents
  have unread : ba.getReadSize = ba.size - ba.position := rfl
  rcases Nat.lt_or_ge ba.getReadSize size with beyond | available
  · rw [read_run_outOfRange beyond] at ran
    cases ran
  rcases Nat.eq_zero_or_pos size with rfl | positive
  · rcases Nat.lt_or_ge ba.position ba.capacity with inside | atEnd
    · rw [wf.read_zero_run inside] at ran
      cases ran
      rfl
    · have positionLe := wf.positionLe
      have sizeLe := wf.sizeLe
      rw [wf.read_zero_run_null (by omega)] at ran
      cases ran
  · obtain ⟨_, ran', _⟩ := wf.read_run (Nat.ne_of_gt positive) available
    rw [ran] at ran'
    cases ran'
    rw [List.length_take, List.length_drop]
    omega

/-- The payload is read, unless it is empty and the position is at the end of
the chain. -/
theorem read_payload_run (wf : WellFormed ba)
    (unread : ba.contents.drop ba.position = value ++ rest) :
    (∃ next, EStateM.run (read value.length) ba = .ok value next ∧
        Moved (ba.position + value.length) ba next ∧ (value = [] → ba.position < ba.capacity)) ∨
      (value = [] ∧ ba.position = ba.capacity ∧
        EStateM.run (read value.length) ba = .error .nullNode ba) := by
  by_cases empty : value = []
  · subst empty
    have positionLe := wf.positionLe
    have sizeLe := wf.sizeLe
    rcases Nat.lt_or_ge ba.position ba.capacity with inside | atEnd
    · exact Or.inl ⟨ba, wf.read_zero_run inside, Moved.refl wf, fun _ => inside⟩
    · have null : ba.position = ba.capacity := by omega
      exact Or.inr ⟨rfl, null, wf.read_zero_run_null null⟩
  · obtain ⟨next, ran, moved⟩ := reads_read empty wf unread
    exact Or.inl ⟨next, ran, moved, fun nothing => absurd nothing empty⟩

end OneString

theorem readBack_nil_iff {ba : ByteArray} (atEnd : ba.position = ba.size) :
    ReadBack host [] ba ↔ Readable [] ba := by
  constructor
  · intro _
    exact ⟨fun _ member => absurd member List.not_mem_nil, fun ends => by simp [EndsEmpty] at ends⟩
  · intro _
    exact ⟨ba, rfl, atEnd⟩

section Cons

variable {ba next : ByteArray} {format : StringFormat} {value : List UInt8} {rest : List Text}

/-- A first string that came back leaves the others to be read. -/
theorem readBack_cons_iff (ran : EStateM.run (format.read host) ba = .ok value next) :
    ReadBack host ((format, value) :: rest) ba ↔ ReadBack host rest next := by
  simp only [ReadBack, List.map_cons, readStrings, EStateM.run_bind, ran, EStateM.run_pure]
  constructor
  · rintro ⟨after, ranAll, atEnd⟩
    cases ranRest : EStateM.run (readStrings host (rest.map Prod.fst)) next with
    | ok values final =>
        simp only [ranRest, EStateM.Result.ok.injEq, List.cons.injEq, true_and] at ranAll
        obtain ⟨rfl, rfl⟩ := ranAll
        exact ⟨final, rfl, atEnd⟩
    | error fault final =>
        simp only [ranRest, reduceCtorEq] at ranAll
  · rintro ⟨after, ranRest, atEnd⟩
    exact ⟨after, by rw [ranRest], atEnd⟩

/-- The first string comes back if all do. -/
theorem ReadBack.head (back : ReadBack host ((format, value) :: rest) ba) :
    ∃ next, EStateM.run (format.read host) ba = .ok value next := by
  obtain ⟨after, ranAll, _⟩ := back
  simp only [List.map_cons, readStrings, EStateM.run_bind] at ranAll
  cases ran : EStateM.run (format.read host) ba with
  | ok first next =>
      refine ⟨next, ?_⟩
      cases ranRest : EStateM.run (readStrings host (rest.map Prod.fst)) next with
      | ok values final =>
          simp only [ran, ranRest, EStateM.run_pure, EStateM.Result.ok.injEq,
            List.cons.injEq] at ranAll
          rw [ranAll.1.1]
      | error fault final =>
          simp only [ran, ranRest, reduceCtorEq] at ranAll
  | error fault next =>
      simp only [ran, reduceCtorEq] at ranAll

theorem readable_cons_iff : Readable ((format, value) :: rest) ba ↔
    value.length < 2 ^ format.bits ∧ LengthsFit rest ∧
      ¬(((rest = [] ∧ value = []) ∨ EndsEmpty rest) ∧ ba.size = ba.capacity) := by
  simp only [Readable, LengthsFit, List.forall_mem_cons, endsEmpty_cons, and_assoc]

end Cons

/-- A sequence of strings is appended as a whole, and what then decides whether
it is read back is `Readable`. -/
theorem strings_codec (strings : List Text) :
    ∃ bytes, Appends (writeStrings host strings) bytes ∧
      (∀ endian, (bytes endian).length = encodedSize strings) ∧
      ∀ ba, WellFormed ba → ba.contents.drop ba.position = bytes ba.endian →
        (ReadBack host strings ba ↔ Readable strings ba) := by
  induction strings with
  | nil =>
      refine ⟨_, appends_nothing, fun _ => rfl, fun ba wf unread => readBack_nil_iff host ?_⟩
      have positionLe := wf.positionLe
      have nothing := congrArg List.length unread
      simp only [List.length_drop, wf.length_contents, List.length_nil] at nothing
      omega
  | cons text rest inductionHypothesis =>
      obtain ⟨format, value⟩ := text
      obtain ⟨header, headerAppends, headerReads, headerLength⟩ :=
        format.length_codec host value.length
      obtain ⟨restBytes, restAppends, restLength, restIff⟩ := inductionHypothesis
      refine ⟨fun endian => header endian ++ (value ++ restBytes endian), ?_, ?_, ?_⟩
      · have appends := headerAppends.bind ((appends_write value).bind restAppends)
        rw [writeStrings, StringFormat.write_eq, bind_assoc]
        exact appends
      · intro endian
        rw [encodedSize_cons, List.length_append, List.length_append, headerLength, restLength,
          Nat.add_assoc]
      · intro ba wf unread
        obtain ⟨middle, ran, moved, behind⟩ := read_string_run host wf headerReads unread
        have wfMiddle := moved.wellFormed
        have remaining := congrArg List.length behind
        rw [List.length_drop, wfMiddle.length_contents, List.length_append, restLength] at remaining
        have sizeSame : middle.size = ba.size := by
          rw [← wfMiddle.length_contents, moved.contents, wf.length_contents]
        have capacitySame := moved.capacity
        rw [readable_cons_iff]
        by_cases fits : value.length < 2 ^ format.bits
        · rw [Nat.mod_eq_of_lt fits] at ran
          have encodedNil : rest = [] → encodedSize rest = 0 := fun nothing => by
            rw [nothing]
            rfl
          rcases read_payload_run wfMiddle behind with ⟨next, ranFirst, movedNext, inside⟩ |
            ⟨empty, null, ranFirst⟩
          · rw [← ran] at ranFirst
            have unreadNext := movedNext.unread behind
            rw [← moved.endian, ← movedNext.endian] at unreadNext
            have sizeNext : next.size = ba.size := by
              rw [← movedNext.wellFormed.length_contents, movedNext.contents,
                wfMiddle.length_contents, sizeSame]
            rw [readBack_cons_iff host ranFirst, restIff next movedNext.wellFormed unreadNext,
              Readable, sizeNext, movedNext.capacity, capacitySame]
            constructor
            · rintro ⟨restFits, ends⟩
              refine ⟨fits, restFits, ?_⟩
              rintro ⟨⟨nothing, empty⟩ | restEnds, full⟩
              · have room := inside empty
                rw [encodedNil nothing, empty, List.length_nil] at remaining
                omega
              · exact ends ⟨restEnds, full⟩
            · rintro ⟨_, restFits, ends⟩
              exact ⟨restFits, fun both => ends ⟨Or.inr both.1, both.2⟩⟩
          · refine iff_of_false (fun back => ?_) (fun readable => readable.2.2 ⟨?_, ?_⟩)
            · obtain ⟨next, ranOk⟩ := back.head
              rw [ran, ranFirst] at ranOk
              cases ranOk
            · have sizeLe := wfMiddle.sizeLe
              have nothing : encodedSize rest = 0 := by omega
              exact Or.inl ⟨encodedSize_eq_zero_iff.mp nothing, empty⟩
            · have positionLe := wfMiddle.positionLe
              have sizeLe := wfMiddle.sizeLe
              omega
        · refine iff_of_false (fun back => ?_) (fun readable => fits readable.1)
          obtain ⟨next, ranFirst⟩ := back.head
          rw [ran] at ranFirst
          have short := read_length wfMiddle ranFirst
          have width := Nat.mod_lt value.length (Nat.two_pow_pos format.bits)
          omega

/-- The data of strings appended to a fresh byte array fill its chain exactly
when they end with a node. -/
theorem size_eq_capacity_iff {baseSize total : Nat} (positive : 0 < baseSize)
    (present : 0 < total) :
    total = baseSize * max 1 (nodeCount total baseSize) ↔ baseSize ∣ total := by
  constructor
  · intro full
    exact ⟨_, full⟩
  · rintro ⟨count, rfl⟩
    have counted : nodeCount (baseSize * count) baseSize = count := by
      rw [nodeCount, Nat.add_sub_assoc positive, Nat.mul_add_div positive,
        Nat.div_eq_of_lt (by omega), Nat.add_zero]
    have nonzero : 0 < count := Nat.pos_of_mul_pos_left present
    rw [counted, Nat.max_eq_right nonzero]

/-- The strings come back, with the position at the end and without a null
dereference, exactly when every length fits its header and no empty string ends
the data at the end of a node. -/
theorem strings_roundTrip_iff {baseSize : Nat} (positive : 0 < baseSize)
    (heap : Nat → Nat → UInt8) (val : Bool) (strings : List Text) :
    (∃ after, EStateM.run (stringSession host val strings) (new baseSize heap) =
        .ok (strings.map Prod.snd) after ∧ after.position = after.size) ↔
      LengthsFit strings ∧ ¬(EndsEmpty strings ∧ baseSize ∣ encodedSize strings) := by
  obtain ⟨bytes, appends, length, backIff⟩ := strings_codec host strings
  obtain ⟨ordered, ranOrder, filledOrder⟩ := (filled_new positive heap).setIsLittleEndian_run val
  obtain ⟨written, ranWrite, filled⟩ := appends filledOrder
  obtain ⟨rewound, ranRewind, moved⟩ := filled.rewind_run
  have unread : rewound.contents.drop rewound.position = bytes rewound.endian := by
    rw [moved.contents, moved.position, moved.endian, filled.contents, filled.endian,
      List.nil_append, List.drop_zero]
  have size : rewound.size = encodedSize strings := by
    rw [← moved.wellFormed.length_contents, moved.contents, filled.contents, List.nil_append,
      length]
  have capacity : rewound.capacity =
      baseSize * max 1 (nodeCount (encodedSize strings) baseSize) := by
    rw [moved.capacity, filled.capacity, List.nil_append, length]
  have session : EStateM.run (stringSession host val strings) (new baseSize heap) =
      EStateM.run (readStrings host (strings.map Prod.fst)) rewound := by
    rw [stringSession, EStateM.run_bind, ranOrder]
    simp only [EStateM.run_bind, ranWrite, ranRewind]
  have full : EndsEmpty strings → (rewound.size = rewound.capacity ↔
      baseSize ∣ encodedSize strings) := by
    intro ends
    have present : encodedSize strings ≠ 0 := by
      intro nothing
      rw [encodedSize_eq_zero_iff.mp nothing] at ends
      simp [EndsEmpty] at ends
    rw [size, capacity]
    exact size_eq_capacity_iff positive (Nat.pos_of_ne_zero present)
  rw [session]
  exact (backIff rewound moved.wellFormed unread).trans
    (and_congr_right fun _ => not_congr (and_congr_right full))

/-- An empty string that does not end the data at the end of a node. -/
theorem strings_roundTrip_emptyFirst :
    ∃ after, EStateM.run (stringSession .little false [(.f16, []), (.vint, [7, 8, 9])])
        (new 2 fun _ _ => 0) = .ok [[], [7, 8, 9]] after ∧ after.position = after.size := by
  refine (strings_roundTrip_iff .little (show 0 < 2 by decide) (fun _ _ => 0) false
    [(.f16, []), (.vint, [7, 8, 9])]).mpr ⟨?_, ?_⟩
  · simp [LengthsFit, StringFormat.bits]
  · simp [EndsEmpty]

/-- With nodes of two bytes a single empty string fills the root node, and
reading it back follows the null `m_cur`. -/
theorem strings_emptyAtNodeEnd :
    (∃ state, EStateM.run (stringSession .little false [(.f16, [])]) (new 2 fun _ _ => 0) =
        .error .nullNode state) ∧
      ¬∃ after, EStateM.run (stringSession .little false [(.f16, [])]) (new 2 fun _ _ => 0) =
        .ok [[]] after ∧ after.position = after.size := by
  refine ⟨⟨_, rfl⟩, ?_⟩
  rintro ⟨after, ran, _⟩
  exact nomatch ran

end Sylar.ByteArray
