import Mathlib.Algebra.Ring.Int.Defs
import Mathlib.Data.UInt
import Sylar.Http.Session
import Sylar.Library.Overwrite

/-!
# Transfers of a fixed size

`readFixSize` and `writeFixSize` of `stream.cpp`. The number of bytes that are left is an
`int64_t`, and the size is returned as an `int`.
-/

namespace Sylar.Stream

open Library

section Model

/-- The conversion to `int`. -/
def toInt (value : Int) : Int := Int.bmod value (2 ^ 32)

/-- The conversion of a `size_t` to `int64_t`. -/
def toInt64 (length : UInt64) : Int := Int.bmod length.toNat (2 ^ 64)

/-- The loop over `call`, which is given the offset and how much is left. `none` when nothing
is left, else the result that is returned. -/
def fixSizeLoop {S : Type} (call : Nat → Nat → S → Int × S) (left : Int) (offset : Nat) (s : S) :
    Option Int × S :=
  if 0 < left then
    let len := call offset left.toNat s
    if len.1 ≤ 0 then (some len.1, len.2)
    else fixSizeLoop call (left - len.1) (offset + len.1.toNat) len.2
  else (none, s)
termination_by left.toNat
decreasing_by
  rename_i _ moved
  have moved : ¬ (call offset left.toNat s).1 ≤ 0 := moved
  omega

/-- What `readFixSize` and `writeFixSize` share. -/
def fixSize {S : Type} (call : Nat → Nat → S → Int × S) (length : UInt64) (s : S) : Int × S :=
  let outcome := fixSizeLoop call (toInt64 length) 0 s
  (toInt (outcome.1.getD length.toNat), outcome.2)

/-- A result of `read`: an `int` that is not positive, or bytes that were stored. -/
inductive ReadResult (requested : Nat) where
  | failed (len : Int) (nonpositive : len ≤ 0) (int : -2 ^ 31 ≤ len)
  | data (bytes : List UInt8) (nonempty : bytes ≠ []) (fits : bytes.length ≤ requested)
      (int : bytes.length < 2 ^ 31)

/-- A result of `write`: an `int` that is not positive, or the number of bytes that were
accepted. -/
inductive WriteResult (requested : Nat) where
  | failed (len : Int) (nonpositive : len ≤ 0) (int : -2 ^ 31 ≤ len)
  | accepted (count : Nat) (nonzero : count ≠ 0) (fits : count ≤ requested)
      (int : count < 2 ^ 31)

/-- A stream that is read from. -/
abbrev Reader (σ : Type) := σ → (requested : Nat) → ReadResult requested × σ

/-- A stream that is written to. -/
abbrev Writer (σ : Type) := σ → (data : List UInt8) → WriteResult data.length × σ

/-- As many bytes as a transfer has. -/
abbrev Memory (length : UInt64) := { bytes : List UInt8 // bytes.length = length.toNat }

variable {σ : Type}

/-- `read((char*)buffer + offset, left)`. -/
def readAt (read : Reader σ) (offset left : Nat) (s : List UInt8 × σ) : Int × List UInt8 × σ :=
  match read s.2 left with
  | (.failed len _ _, stream) => (len, s.1, stream)
  | (.data bytes _ _ _, stream) => (bytes.length, overwrite s.1 offset bytes, stream)

/-- The result, the buffer and the stream. -/
def readFixSize (read : Reader σ) (buffer : List UInt8) (length : UInt64) (s : σ) :
    Int × List UInt8 × σ :=
  fixSize (readAt read) length (buffer, s)

/-- A call of `write`, with the bytes that were accepted so far. -/
def writeData (write : Writer σ) (data : List UInt8) (s : List UInt8 × σ) :
    Int × List UInt8 × σ :=
  match write s.2 data with
  | (.failed len _ _, stream) => (len, s.1, stream)
  | (.accepted count _ _ _, stream) => (count, s.1 ++ data.take count, stream)

/-- `write((const char*)buffer + offset, left)`. -/
def writeAt (write : Writer σ) (buffer : List UInt8) (offset left : Nat) (s : List UInt8 × σ) :
    Int × List UInt8 × σ :=
  writeData write ((buffer.drop offset).take left) s

/-- The result, what was accepted and the stream. -/
def writeFixSize (write : Writer σ) (buffer : List UInt8) (length : UInt64) (s : σ) :
    Int × List UInt8 × σ :=
  fixSize (writeAt write buffer) length ([], s)

end Model

section Results

variable {σ : Type}

/-- The results from `s` on supply `left` bytes before one is not positive. -/
inductive Supplies (read : Reader σ) : σ → Nat → List UInt8 → Prop where
  | done (s : σ) : Supplies read s 0 []
  | more {s t : σ} {left : Nat} {bytes rest : List UInt8} {nonempty : bytes ≠ []}
      {fits : bytes.length ≤ left} {int : bytes.length < 2 ^ 31}
      (result : read s left = (.data bytes nonempty fits int, t))
      (later : Supplies read t (left - bytes.length) rest) : Supplies read s left (bytes ++ rest)

/-- A result `len` that is not positive comes before `left` bytes. -/
inductive ReadBreaks (read : Reader σ) : σ → Nat → Int → Prop where
  | now {s t : σ} {left : Nat} {len : Int} {nonpositive : len ≤ 0} {int : -2 ^ 31 ≤ len}
      (open_ : 0 < left) (result : read s left = (.failed len nonpositive int, t)) :
      ReadBreaks read s left len
  | later {s t : σ} {left : Nat} {len : Int} {bytes : List UInt8} {nonempty : bytes ≠ []}
      {fits : bytes.length ≤ left} {int : bytes.length < 2 ^ 31}
      (result : read s left = (.data bytes nonempty fits int, t))
      (later : ReadBreaks read t (left - bytes.length) len) : ReadBreaks read s left len

/-- The results from `s` on accept `data` before one is not positive. -/
inductive Accepts (write : Writer σ) : σ → List UInt8 → Prop where
  | done (s : σ) : Accepts write s []
  | more {s t : σ} {data : List UInt8} {count : Nat} {nonzero : count ≠ 0}
      {fits : count ≤ data.length} {int : count < 2 ^ 31}
      (result : write s data = (.accepted count nonzero fits int, t))
      (later : Accepts write t (data.drop count)) : Accepts write s data

/-- A result `len` that is not positive comes before `data` is accepted. -/
inductive WriteBreaks (write : Writer σ) : σ → List UInt8 → Int → Prop where
  | now {s t : σ} {data : List UInt8} {len : Int} {nonpositive : len ≤ 0} {int : -2 ^ 31 ≤ len}
      (open_ : data ≠ []) (result : write s data = (.failed len nonpositive int, t)) :
      WriteBreaks write s data len
  | later {s t : σ} {data : List UInt8} {len : Int} {count : Nat} {nonzero : count ≠ 0}
      {fits : count ≤ data.length} {int : count < 2 ^ 31}
      (result : write s data = (.accepted count nonzero fits int, t))
      (later : WriteBreaks write t (data.drop count) len) : WriteBreaks write s data len

/-- A transfer tells whether all bytes were moved, which are then where they belong, or else
what the first failure was. -/
structure Transfers (complete : Prop) (breaks : Int → Prop) (moved : Prop) (result : Int) :
    Prop where
  positive_iff : 0 < result ↔ complete
  moved : complete → moved
  failure : ∀ len, breaks len → result = len

/-- `readFixSize` into a buffer does so. -/
def ReadsInto (read : Reader σ) (length : UInt64) (buffer : Memory length) (s : σ) : Prop :=
  Transfers (∃ bytes, Supplies read s length.toNat bytes) (ReadBreaks read s length.toNat)
    (Supplies read s length.toNat (readFixSize read buffer.1 length s).2.1)
    (readFixSize read buffer.1 length s).1

/-- `readFixSize` does so, whatever the buffer held. -/
def ReadsFixSize (read : Reader σ) (length : UInt64) (s : σ) : Prop :=
  ∀ buffer : Memory length, ReadsInto read length buffer s

/-- `writeFixSize` does so. -/
def WritesFixSize (write : Writer σ) (length : UInt64) (buffer : Memory length) (s : σ) : Prop :=
  Transfers (Accepts write s buffer.1) (WriteBreaks write s buffer.1)
    ((writeFixSize write buffer.1 length s).2.1 = buffer.1)
    (writeFixSize write buffer.1 length s).1

/-- The size fits in an `int64_t`, and in an `int` where all bytes are moved. For a size that
does not, nothing is moved, and the first failure is the size as an `int`. -/
def SizeFits (length : UInt64) (complete : Prop) (breaks : Int → Prop) : Prop :=
  if length.toNat < 2 ^ 63 then
    complete → 1 ≤ length.toNat % 2 ^ 32 ∧ length.toNat % 2 ^ 32 < 2 ^ 31
  else ∃ len, breaks len ∧ toInt length.toNat = len

end Results

/-! ### The loop -/

section Loop

variable {S : Type} {call : Nat → Nat → S → Int × S} {length : UInt64} {s t : S} {len : Int}

theorem fixSizeLoop_done (offset : Nat) : fixSizeLoop call 0 offset s = (none, s) := by
  rw [fixSizeLoop, if_neg (Int.lt_irrefl 0)]

theorem fixSizeLoop_failed {left offset : Nat} (some_ : 0 < left)
    (result : call offset left s = (len, t)) (nonpositive : len ≤ 0) :
    fixSizeLoop call left offset s = (some len, t) := by
  rw [fixSizeLoop, if_pos (by omega), Int.toNat_natCast, result, if_pos nonpositive]

theorem fixSizeLoop_moved {left offset count : Nat}
    (result : call offset left s = ((count : Int), t))
    (nonzero : count ≠ 0) (fits : count ≤ left) :
    fixSizeLoop call left offset s = fixSizeLoop call (left - count : Nat) (offset + count) t := by
  rw [fixSizeLoop, if_pos (by omega), Int.toNat_natCast, result, if_neg (by omega),
    Int.toNat_natCast, Int.ofNat_sub fits]

theorem toInt64_of_lt (short : length.toNat < 2 ^ 63) : toInt64 length = length.toNat := by
  unfold toInt64
  rw [Int.bmod_def]
  omega

theorem toInt64_of_le (long : 2 ^ 63 ≤ length.toNat) : toInt64 length ≤ 0 := by
  have range := length.toNat_lt
  unfold toInt64
  rw [Int.bmod_def]
  omega

theorem fixSize_complete (short : length.toNat < 2 ^ 63)
    (loop : fixSizeLoop call length.toNat 0 s = (none, t)) :
    fixSize call length s = (toInt length.toNat, t) := by
  simp only [fixSize, toInt64_of_lt short, loop, Option.getD_none]

/-- A failure is returned as it is. -/
theorem fixSize_failed (short : length.toNat < 2 ^ 63)
    (loop : fixSizeLoop call length.toNat 0 s = (some len, t)) (nonpositive : len ≤ 0)
    (int : -2 ^ 31 ≤ len) : fixSize call length s = (len, t) := by
  have same : toInt len = len := by
    unfold toInt
    rw [Int.bmod_def]
    omega
  simp only [fixSize, toInt64_of_lt short, loop, Option.getD_some, same]

/-- A size that is negative as an `int64_t` moves nothing. -/
theorem fixSize_long (long : 2 ^ 63 ≤ length.toNat) :
    fixSize call length s = (toInt length.toNat, s) := by
  have nothing : fixSizeLoop call (toInt64 length) 0 s = (none, s) := by
    rw [fixSizeLoop, if_neg (Int.not_lt.2 (toInt64_of_le long))]
  simp only [fixSize, nothing, Option.getD_none]

theorem add_one_ne (byte : UInt8) : byte + 1 ≠ byte := by
  intro same
  have value := congrArg UInt8.toNat same
  have range := byte.toNat_lt
  rw [UInt8.toNat_add] at value
  simp only [UInt8.reduceToNat] at value
  omega

theorem toInt_pos (n : Nat) : 0 < toInt n ↔ 1 ≤ n % 2 ^ 32 ∧ n % 2 ^ 32 < 2 ^ 31 := by
  unfold toInt
  rw [Int.bmod_def]
  omega

end Loop

/-! ### The results -/

variable {σ : Type} {read : Reader σ} {write : Writer σ} {s : σ} {left : Nat} {len : Int}
  {bytes data buffer : List UInt8} {length : UInt64}

theorem Supplies.length_eq (supplies : Supplies read s left bytes) : bytes.length = left := by
  induction supplies with
  | done => rfl
  | @more s t left bytes rest _ fits _ _ _ inductionHypothesis =>
      rw [List.length_append, inductionHypothesis]
      omega

/-- The loop stores what the results supply. -/
theorem Supplies.loop (supplies : Supplies read s left bytes) (buffer : List UInt8)
    (offset : Nat) (inside : offset + left ≤ buffer.length) :
    ∃ t, fixSizeLoop (readAt read) left offset (buffer, s) =
      (none, overwrite buffer offset bytes, t) := by
  induction supplies generalizing buffer offset with
  | done s =>
      rw [overwrite_nil]
      exact ⟨s, fixSizeLoop_done offset⟩
  | @more s t left bytes rest nonempty fits _ result _ inductionHypothesis =>
      have stored : readAt read offset left (buffer, s) =
          ((bytes.length : Int), overwrite buffer offset bytes, t) := by
        rw [readAt, result]
      rw [fixSizeLoop_moved stored (by simpa using nonempty) fits,
        ← overwrite_overwrite (by omega)]
      refine inductionHypothesis _ _ ?_
      rw [length_overwrite (by omega)]
      omega

theorem ReadBreaks.loop (breaks : ReadBreaks read s left len) (buffer : List UInt8)
    (offset : Nat) :
    (∃ t, fixSizeLoop (readAt read) left offset (buffer, s) = (some len, t)) ∧
      len ≤ 0 ∧ -2 ^ 31 ≤ len := by
  induction breaks generalizing buffer offset with
  | @now s t left len nonpositive int some_ result =>
      have failed : readAt read offset left (buffer, s) = (len, buffer, t) := by
        rw [readAt, result]
      exact ⟨⟨_, fixSizeLoop_failed some_ failed nonpositive⟩, nonpositive, int⟩
  | @later s t left len bytes nonempty fits _ result _ inductionHypothesis =>
      have stored : readAt read offset left (buffer, s) =
          ((bytes.length : Int), overwrite buffer offset bytes, t) := by
        rw [readAt, result]
      rw [fixSizeLoop_moved stored (by simpa using nonempty) fits]
      exact inductionHypothesis _ _

/-- The results supply the bytes, or one of them is not positive. -/
theorem supplies_or_breaks (read : Reader σ) (s : σ) (left : Nat) :
    (∃ bytes, Supplies read s left bytes) ∨ ∃ len, ReadBreaks read s left len := by
  induction left using Nat.strongRecOn generalizing s with
  | _ left inductionHypothesis =>
      by_cases nothing : left = 0
      · rw [nothing]
        exact .inl ⟨[], .done s⟩
      · cases result : read s left with
        | mk outcome t =>
            cases outcome with
            | failed len nonpositive int =>
                exact .inr ⟨len, .now (Nat.pos_of_ne_zero nothing) result⟩
            | data bytes nonempty fits int =>
                have fewer : left - bytes.length < left := by
                  have some_ := List.length_pos_iff.2 nonempty
                  omega
                rcases inductionHypothesis _ fewer t with ⟨rest, supplies⟩ | ⟨len, breaks⟩
                · exact .inl ⟨bytes ++ rest, .more result supplies⟩
                · exact .inr ⟨len, .later result breaks⟩

/-- The loop sends what the results accept. -/
theorem Accepts.loop (accepts : Accepts write s data) (sent : List UInt8) (offset : Nat)
    (rest : buffer.drop offset = data) :
    ∃ t, fixSizeLoop (writeAt write buffer) data.length offset (sent, s) =
      (none, sent ++ data, t) := by
  induction accepts generalizing sent offset with
  | done s =>
      rw [List.append_nil]
      exact ⟨s, fixSizeLoop_done offset⟩
  | @more s t data count nonzero fits _ result _ inductionHypothesis =>
      have accepted : writeAt write buffer offset data.length (sent, s) =
          ((count : Int), sent ++ data.take count, t) := by
        rw [writeAt, rest, List.take_length, writeData, result]
      obtain ⟨u, loop⟩ := inductionHypothesis (sent ++ data.take count) (offset + count)
        (by rw [← rest, List.drop_drop])
      rw [List.length_drop] at loop
      rw [fixSizeLoop_moved accepted nonzero fits, loop, List.append_assoc,
        List.take_append_drop]
      exact ⟨u, rfl⟩

theorem WriteBreaks.loop (breaks : WriteBreaks write s data len) (sent : List UInt8)
    (offset : Nat) (rest : buffer.drop offset = data) :
    (∃ t, fixSizeLoop (writeAt write buffer) data.length offset (sent, s) = (some len, t)) ∧
      len ≤ 0 ∧ -2 ^ 31 ≤ len := by
  induction breaks generalizing sent offset with
  | @now s t data len nonpositive int some_ result =>
      have failed : writeAt write buffer offset data.length (sent, s) = (len, sent, t) := by
        rw [writeAt, rest, List.take_length, writeData, result]
      exact ⟨⟨_, fixSizeLoop_failed (List.length_pos_iff.2 some_) failed nonpositive⟩,
        nonpositive, int⟩
  | @later s t data len count nonzero fits _ result _ inductionHypothesis =>
      have accepted : writeAt write buffer offset data.length (sent, s) =
          ((count : Int), sent ++ data.take count, t) := by
        rw [writeAt, rest, List.take_length, writeData, result]
      obtain ⟨loop, bounds⟩ := inductionHypothesis (sent ++ data.take count) (offset + count)
        (by rw [← rest, List.drop_drop])
      rw [List.length_drop] at loop
      rw [fixSizeLoop_moved accepted nonzero fits]
      exact ⟨loop, bounds⟩

theorem accepts_or_breaks (write : Writer σ) (s : σ) (data : List UInt8) :
    Accepts write s data ∨ ∃ len, WriteBreaks write s data len := by
  induction size : data.length using Nat.strongRecOn generalizing s data with
  | _ n inductionHypothesis =>
      by_cases nothing : data = []
      · rw [nothing]
        exact .inl (.done s)
      · cases result : write s data with
        | mk outcome t =>
            cases outcome with
            | failed len nonpositive int => exact .inr ⟨len, .now nothing result⟩
            | accepted count nonzero fits int =>
                have fewer : (data.drop count).length < n := by
                  rw [List.length_drop]
                  omega
                rcases inductionHypothesis _ fewer t _ rfl with accepts | ⟨len, breaks⟩
                · exact .inl (.more result accepts)
                · exact .inr ⟨len, .later result breaks⟩

/-! ### The sizes -/

theorem readFixSize_supplied (short : length.toNat < 2 ^ 63)
    (supplies : Supplies read s length.toNat bytes) (buffer : Memory length) :
    (readFixSize read buffer.1 length s).1 = toInt length.toNat ∧
      (readFixSize read buffer.1 length s).2.1 = bytes := by
  obtain ⟨t, loop⟩ := supplies.loop buffer.1 0 (by rw [buffer.2]; omega)
  have whole : overwrite buffer.1 0 bytes = bytes := by
    rw [overwrite, List.take_zero, List.nil_append, List.drop_eq_nil_of_le, List.append_nil]
    rw [buffer.2, supplies.length_eq]
    omega
  simp only [readFixSize, fixSize_complete short loop, whole, and_self]

theorem readFixSize_broken (short : length.toNat < 2 ^ 63)
    (breaks : ReadBreaks read s length.toNat len) (buffer : Memory length) :
    (readFixSize read buffer.1 length s).1 = len ∧ len ≤ 0 := by
  obtain ⟨⟨t, loop⟩, nonpositive, int⟩ := breaks.loop buffer.1 0
  rw [readFixSize, fixSize_failed short loop nonpositive int]
  exact ⟨rfl, nonpositive⟩

theorem writeFixSize_accepted (short : length.toNat < 2 ^ 63) {buffer : Memory length}
    (accepts : Accepts write s buffer.1) :
    (writeFixSize write buffer.1 length s).1 = toInt length.toNat ∧
      (writeFixSize write buffer.1 length s).2.1 = buffer.1 := by
  obtain ⟨t, loop⟩ := accepts.loop [] 0 List.drop_zero
  rw [buffer.2] at loop
  simp only [writeFixSize, fixSize_complete short loop, List.nil_append, and_self]

theorem writeFixSize_broken (short : length.toNat < 2 ^ 63) {buffer : Memory length}
    (breaks : WriteBreaks write s buffer.1 len) :
    (writeFixSize write buffer.1 length s).1 = len ∧ len ≤ 0 := by
  obtain ⟨⟨t, loop⟩, nonpositive, int⟩ := breaks.loop [] 0 List.drop_zero
  rw [buffer.2] at loop
  rw [writeFixSize, fixSize_failed short loop nonpositive int]
  exact ⟨rfl, nonpositive⟩

/-- A transfer that was complete or broke tells so if and only if its size fits. -/
theorem transfers_iff {complete moved : Prop} {breaks : Int → Prop} {result : Int}
    (short : length.toNat < 2 ^ 63)
    (supplied : complete → result = toInt length.toNat ∧ moved)
    (broken : ∀ len, breaks len → result = len ∧ len ≤ 0)
    (total : complete ∨ ∃ len, breaks len) :
    Transfers complete breaks moved result ↔ SizeFits length complete breaks := by
  rw [SizeFits, if_pos short]
  constructor
  · intro transfers done
    rw [← toInt_pos, ← (supplied done).1]
    exact transfers.positive_iff.2 done
  · intro fits
    refine ⟨⟨fun positive => ?_, fun done => ?_⟩, fun done => (supplied done).2,
      fun len breaks' => (broken len breaks').1⟩
    · rcases total with done | ⟨len, breaks'⟩
      · exact done
      · obtain ⟨same, nonpositive⟩ := broken len breaks'
        omega
    · rw [(supplied done).1, toInt_pos]
      exact fits done

/-- A transfer that moves nothing, of a size that is not 0, tells so by chance. -/
theorem transfers_iff_of_long {complete moved : Prop} {breaks : Int → Prop} {result : Int}
    (long : 2 ^ 63 ≤ length.toNat) (same : result = toInt length.toNat)
    (nothing : complete → ¬ moved) (broken : ∀ len, breaks len → len ≤ 0)
    (only : ∀ len other, breaks len → breaks other → len = other)
    (apart : ∀ len, breaks len → ¬ complete) (total : complete ∨ ∃ len, breaks len) :
    Transfers complete breaks moved result ↔ SizeFits length complete breaks := by
  rw [SizeFits, if_neg (Nat.not_lt.2 long)]
  constructor
  · intro transfers
    rcases total with done | ⟨len, breaks'⟩
    · exact absurd (transfers.moved done) (nothing done)
    · exact ⟨len, breaks', by rw [← same, transfers.failure len breaks']⟩
  · rintro ⟨len, breaks', equal⟩
    refine ⟨⟨fun positive => ?_, fun done => absurd done (apart len breaks')⟩,
      fun done => absurd done (apart len breaks'), fun other breaksOther => ?_⟩
    · have nonpositive := broken len breaks'
      omega
    · rw [same, equal, only len other breaks' breaksOther]

/-! ### The results are one sequence -/

theorem Supplies.unique (supplies : Supplies read s left bytes)
    (other : Supplies read s left data) : bytes = data := by
  obtain ⟨t, loop⟩ := supplies.loop bytes 0 (by rw [supplies.length_eq]; omega)
  obtain ⟨u, loop'⟩ := other.loop bytes 0 (by rw [supplies.length_eq]; omega)
  rw [loop'] at loop
  have same := congrArg (·.2.1) loop
  simp only [overwrite, List.take_zero, List.nil_append, Nat.zero_add, supplies.length_eq,
    other.length_eq] at same
  exact (List.append_cancel_right same).symm

theorem ReadBreaks.not_supplies (breaks : ReadBreaks read s left len) :
    ¬ ∃ bytes, Supplies read s left bytes := by
  rintro ⟨bytes, supplies⟩
  obtain ⟨⟨t, loop⟩, -⟩ := breaks.loop bytes 0
  obtain ⟨u, loop'⟩ := supplies.loop bytes 0 (by rw [supplies.length_eq]; omega)
  rw [loop'] at loop
  cases loop

theorem ReadBreaks.unique {other : Int} (breaks : ReadBreaks read s left len)
    (breaks' : ReadBreaks read s left other) : len = other := by
  obtain ⟨⟨t, loop⟩, -⟩ := breaks.loop [] 0
  obtain ⟨⟨u, loop'⟩, -⟩ := breaks'.loop [] 0
  rw [loop'] at loop
  exact (Option.some.inj (congrArg Prod.fst loop)).symm

theorem WriteBreaks.not_accepts (breaks : WriteBreaks write s data len) :
    ¬ Accepts write s data := by
  intro accepts
  obtain ⟨⟨t, loop⟩, -⟩ := breaks.loop [] 0 List.drop_zero
  obtain ⟨u, loop'⟩ := accepts.loop [] 0 List.drop_zero
  rw [loop'] at loop
  cases loop

theorem WriteBreaks.unique {other : Int} (breaks : WriteBreaks write s data len)
    (breaks' : WriteBreaks write s data other) : len = other := by
  obtain ⟨⟨t, loop⟩, -⟩ := breaks.loop [] 0 List.drop_zero
  obtain ⟨⟨u, loop'⟩, -⟩ := breaks'.loop [] 0 List.drop_zero
  rw [loop'] at loop
  exact (Option.some.inj (congrArg Prod.fst loop)).symm

/-! ### Reading and writing -/

theorem SizeFits.breaks {complete : Prop} {breaks : Int → Prop} (long : 2 ^ 63 ≤ length.toNat)
    (fits : SizeFits length complete breaks) : ∃ len, breaks len := by
  rw [SizeFits, if_neg (Nat.not_lt.2 long)] at fits
  obtain ⟨len, breaks', -⟩ := fits
  exact ⟨len, breaks'⟩

section Iff

variable (read write length s)

theorem readsInto_iff_of_lt (short : length.toNat < 2 ^ 63) (buffer : Memory length) :
    ReadsInto read length buffer s ↔ SizeFits length
      (∃ bytes, Supplies read s length.toNat bytes) (ReadBreaks read s length.toNat) := by
  refine transfers_iff short ?_ (fun len breaks => readFixSize_broken short breaks buffer)
    (supplies_or_breaks read s length.toNat)
  rintro ⟨bytes, supplies⟩
  obtain ⟨result, stored⟩ := readFixSize_supplied short supplies buffer
  rw [stored]
  exact ⟨result, supplies⟩

/-- A size that is too long leaves the buffer as it is. -/
theorem readsInto_iff_of_le (long : 2 ^ 63 ≤ length.toNat) (buffer : Memory length)
    (other : ¬ Supplies read s length.toNat buffer.1) :
    ReadsInto read length buffer s ↔ SizeFits length
      (∃ bytes, Supplies read s length.toNat bytes) (ReadBreaks read s length.toNat) := by
  have unread : readFixSize read buffer.1 length s = (toInt length.toNat, buffer.1, s) :=
    fixSize_long long
  simp only [ReadsInto, unread]
  exact transfers_iff_of_long long rfl (fun _ => other) (fun len breaks => (breaks.loop [] 0).2.1)
    (fun len other => ReadBreaks.unique) (fun len => ReadBreaks.not_supplies)
    (supplies_or_breaks read s length.toNat)

theorem readsFixSize_iff :
    ReadsFixSize read length s ↔ SizeFits length
      (∃ bytes, Supplies read s length.toNat bytes) (ReadBreaks read s length.toNat) := by
  let zeros : Memory length := ⟨List.replicate length.toNat 0, List.length_replicate⟩
  by_cases short : length.toNat < 2 ^ 63
  · have each := readsInto_iff_of_lt read s length short
    exact ⟨fun reads => (each zeros).1 (reads zeros), fun fits buffer => (each buffer).2 fits⟩
  · have long := Nat.not_lt.1 short
    have each := readsInto_iff_of_le read s length long
    constructor
    · intro reads
      rcases supplies_or_breaks read s length.toNat with ⟨bytes, supplies⟩ | ⟨len, breaks⟩
      · -- a buffer that holds something else is not filled
        have size : (bytes.map (· + 1)).length = length.toNat := by
          rw [List.length_map, supplies.length_eq]
        refine (each ⟨bytes.map (· + 1), size⟩ fun stored => ?_).1 (reads _)
        have same := supplies.unique stored
        cases bytes with
        | nil =>
            have none_ := supplies.length_eq
            rw [List.length_nil] at none_
            omega
        | cons byte rest => exact add_one_ne byte (List.cons.inj same).1.symm
      · refine (each zeros fun stored => ?_).1 (reads zeros)
        exact breaks.not_supplies ⟨_, stored⟩
    · intro fits buffer
      obtain ⟨len, breaks⟩ := fits.breaks long
      exact (each buffer fun stored => breaks.not_supplies ⟨_, stored⟩).2 fits

theorem writesFixSize_iff (buffer : Memory length) :
    WritesFixSize write length buffer s ↔
      SizeFits length (Accepts write s buffer.1) (WriteBreaks write s buffer.1) := by
  have total := accepts_or_breaks write s buffer.1
  by_cases short : length.toNat < 2 ^ 63
  · exact transfers_iff short (writeFixSize_accepted short)
      (fun len => writeFixSize_broken short) total
  · have long := Nat.not_lt.1 short
    have unsent : writeFixSize write buffer.1 length s = (toInt length.toNat, [], s) :=
      fixSize_long long
    have nothing : ¬ [] = buffer.1 := by
      intro empty
      have size := buffer.2
      rw [← empty, List.length_nil] at size
      omega
    simp only [WritesFixSize, unsent]
    exact transfers_iff_of_long long rfl (fun _ => nothing)
      (fun len breaks => (breaks.loop [] 0 List.drop_zero).2.1)
      (fun len other => WriteBreaks.unique) (fun len => WriteBreaks.not_accepts) total

end Iff

/-- Fixed-size transfers tell what the results did if and only if the size fits. -/
theorem fixSize_iff {τ : Type} (read : Reader σ) (write : Writer τ) (length : UInt64) (s : σ)
    (t : τ) (buffer : Memory length) :
    (ReadsFixSize read length s ↔ SizeFits length
      (∃ bytes, Supplies read s length.toNat bytes) (ReadBreaks read s length.toNat)) ∧
    (WritesFixSize write length buffer t ↔
      SizeFits length (Accepts write t buffer.1) (WriteBreaks write t buffer.1)) :=
  ⟨readsFixSize_iff read s length, writesFixSize_iff write t length buffer⟩

/-! ### Connections -/

section Connections

open Http (Connection readLeft)

/-- The results of a connection, which breaks at the first that is none. -/
def connectionRead : Reader Connection := fun connection requested =>
  match connection with
  | [] => (.failed 0 (Int.le_refl 0) (by decide), [])
  | result :: rest =>
      if data : result ≠ [] ∧ result.length ≤ requested ∧ result.length < 2 ^ 31 then
        (.data result data.1 data.2.1 data.2.2, rest)
      else (.failed 0 (Int.le_refl 0) (by decide), rest)

/-- An HTTP session reads what its connection supplies, and gives up where it breaks. -/
theorem readLeft_results {connection rest : Connection} {answer : Option (List UInt8)}
    (int : ∀ result ∈ connection, result.length < 2 ^ 31)
    (read : readLeft left connection = .ok (answer, rest)) :
    (∀ bytes, answer = some bytes → Supplies connectionRead connection left bytes) ∧
      (answer = none → ReadBreaks connectionRead connection left 0) := by
  induction connection generalizing left answer rest with
  | nil =>
      cases read
      by_cases nothing : left = 0
      · rw [if_pos nothing, nothing]
        refine ⟨fun bytes same => ?_, fun same => by cases same⟩
        cases same
        exact .done []
      · rw [if_neg nothing]
        exact ⟨fun _ same => (nomatch same), fun _ => .now (Nat.pos_of_ne_zero nothing) rfl⟩
  | cons result others inductionHypothesis =>
      obtain ⟨short, int⟩ := List.forall_mem_cons.1 int
      rw [readLeft] at read
      by_cases nothing : left = 0
      · rw [if_pos nothing] at read
        cases read
        refine ⟨fun bytes same => ?_, fun same => by cases same⟩
        cases same
        rw [nothing]
        exact .done (result :: others)
      · rw [if_neg nothing] at read
        by_cases overrun : left < result.length
        · rw [if_pos overrun] at read
          cases read
        · rw [if_neg overrun] at read
          by_cases closed : result = []
          · rw [if_pos closed] at read
            cases read
            have failed : connectionRead (result :: others) left =
                (.failed 0 (Int.le_refl 0) (by decide), others) :=
              dif_neg fun data => data.1 closed
            exact ⟨fun _ same => (nomatch same),
              fun _ => .now (Nat.pos_of_ne_zero nothing) failed⟩
          · rw [if_neg closed] at read
            have data : connectionRead (result :: others) left =
                (.data result closed (Nat.not_lt.1 overrun) short, others) :=
              dif_pos ⟨closed, Nat.not_lt.1 overrun, short⟩
            cases later : readLeft (left - result.length) others with
            | error fault =>
                rw [later] at read
                cases read
            | ok outcome =>
                rw [later] at read
                cases read
                obtain ⟨supplies, breaks⟩ := inductionHypothesis int later
                refine ⟨fun bytes same => ?_, fun same => ?_⟩
                · obtain ⟨more, known, rfl⟩ := Option.map_eq_some_iff.1 same
                  exact .more data (supplies more known)
                · exact .later data (breaks (Option.map_eq_none_iff.1 same))

end Connections

/-! ### Two gigabytes -/

/-- A stream of zeros, a gigabyte at a time. -/
def zeros : Reader Unit := fun s requested =>
  if none_ : requested = 0 then (.failed 0 (Int.le_refl 0) (by decide), s)
  else
    (.data (List.replicate (min requested (2 ^ 30)) 0)
      (by rw [Ne, List.replicate_eq_nil_iff]; omega) (by rw [List.length_replicate]; omega)
      (by rw [List.length_replicate]; omega), s)

theorem supplies_zeros (left : Nat) : ∃ bytes, Supplies zeros () left bytes := by
  induction left using Nat.strongRecOn with
  | _ left inductionHypothesis =>
      by_cases nothing : left = 0
      · rw [nothing]
        exact ⟨[], .done ()⟩
      · have fewer : left - (List.replicate (min left (2 ^ 30)) (0 : UInt8)).length < left := by
          rw [List.length_replicate]
          omega
        obtain ⟨rest, supplies⟩ := inductionHypothesis _ fewer
        exact ⟨_, .more (dif_neg nothing) supplies⟩

/-- All bytes are read and -2^31 is returned. -/
theorem not_readsFixSize_zeros : ¬ ReadsFixSize zeros (2 ^ 31) () := by
  intro reads
  have size : (2 ^ 31 : UInt64).toNat = 2 ^ 31 := by decide
  obtain ⟨bytes, supplies⟩ := supplies_zeros (2 ^ 31 : UInt64).toNat
  have into := reads ⟨bytes, supplies.length_eq⟩
  have result := (readFixSize_supplied (by rw [size]; decide) supplies
    ⟨bytes, supplies.length_eq⟩).1
  have positive := into.positive_iff.2 ⟨bytes, supplies⟩
  rw [result, toInt_pos, size] at positive
  exact absurd positive (by decide)

end Sylar.Stream
