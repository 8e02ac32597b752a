import Sylar.Http.ChunkSizes
import Sylar.Http.Segments

/-!
# Chunked bodies and the results of `read`

The parser starts anew with every call in a chunked body, and the bytes of earlier
calls are gone. What it takes for the size of a chunk is therefore the part of
the line that came with the last result of `read`. A body is decoded when that
part denotes the same number as the whole line, for every chunk.
-/

namespace Sylar.Http

open Library (isDigit numeral)

variable {σ : Type}

/-- The line with the size of a chunk, as the grammar has it: hexadecimal digits,
CR and LF. -/
structure Machine.SizeLines (machine : Machine ClientAct σ) where
  size : σ
  sizeEnd : σ
  stop : σ
  first : ∀ byte, isDigit 16 byte = true → machine.step machine.start byte =
    some ⟨[.mark], false, size⟩
  digit : ∀ byte, isDigit 16 byte = true → machine.step size byte = some ⟨[], false, size⟩
  carriageReturn : machine.step size 13 = some ⟨[.chunkSize], false, sizeEnd⟩
  lineFeed : machine.step sizeEnd 10 = some ⟨[], true, stop⟩

/-- A chunk and the digits its size is written with. -/
structure Chunk where
  digits : List UInt8
  payload : List UInt8
  hexadecimal : ∀ byte ∈ digits, isDigit 16 byte = true
  size : numeral 16 digits = payload.length
  some_ : payload ≠ []
  small : payload.length + 2 < 2 ^ 31

/-- The end of a line. -/
def crlf : List UInt8 := [13, 10]

/-- A chunk with its size line and line ends. -/
def Chunk.encode (chunk : Chunk) : List UInt8 := chunk.digits ++ crlf ++ (chunk.payload ++ crlf)

/-- A chunked body, with the line of the last chunk and the empty trailer. -/
def encode (chunks : List Chunk) : List UInt8 :=
  chunks.flatMap Chunk.encode ++ (bytes "0" ++ crlf ++ crlf)

theorem length_le_encode (chunks : List Chunk) : chunks.length ≤ (encode chunks).length := by
  induction chunks with
  | nil => exact Nat.zero_le _
  | cons chunk chunks inductionHypothesis =>
      have line : 0 < chunk.encode.length := by simp [Chunk.encode, crlf]
      rw [encode, List.flatMap_cons, List.append_assoc, List.length_append, List.length_cons]
      rw [encode] at inductionHypothesis
      omega

/-- How many of the first `count` bytes of a stream come with the result of `read`
that brings the last of them. -/
def fromLast : Nat → Connection → Nat
  | _, [] => 0
  | count, result :: rest =>
      if count ≤ result.length then count else fromLast (count - result.length) rest

/-- The part of a size that comes with the result of `read` that ends its line is
not empty, and denotes the same number. -/
def SizeKept (digits : List UInt8) (reads : Connection) : Prop :=
  let last := fromLast (digits.length + 2) reads
  2 < last ∧ numeral 16 (digits.drop (digits.length + 2 - last)) = numeral 16 digits

/-- The sizes of all chunks are kept, that of the last, empty one included. -/
def SizesKept : List Chunk → Connection → Prop
  | [], reads => SizeKept (bytes "0") reads
  | chunk :: chunks, reads =>
      SizeKept chunk.digits reads ∧ SizesKept chunks (skip chunk.encode.length reads)

theorem fromLast_le (count : Nat) (reads : Connection) : fromLast count reads ≤ count := by
  induction reads generalizing count with
  | nil => exact Nat.zero_le _
  | cons result rest inductionHypothesis =>
      rw [fromLast]
      split
      · exact le_rfl
      · exact (inductionHypothesis _).trans (Nat.sub_le _ _)

section Line

variable {machine : Machine ClientAct σ} (lines : machine.SizeLines) {digits : List UInt8}

/-- A parser that has read some digits of a size. -/
def HttpResponseParser.counting (p : HttpResponseParser σ) : HttpResponseParser σ :=
  { p with parser := { HttpclientParser.init machine with cs := some lines.size } }

/-- A parser that has read a size. -/
def HttpResponseParser.sized (p : HttpResponseParser σ) (size : Nat) : HttpResponseParser σ :=
  { p with
    parser := { HttpclientParser.init machine with
      cs := some lines.stop
      contentLen := size
      chunked := true
      chunksDone := (size : Int) ≤ 0 } }

/-- What `strtol` makes of the digits of a size. -/
theorem strtol_size (some_ : digits ≠ []) (hexadecimal : ∀ byte ∈ digits, isDigit 16 byte = true)
    (small : numeral 16 digits < 2 ^ 31) (extra : List UInt8) :
    longToInt (Library.strtol 16 (cString (digits ++ 13 :: 10 :: extra))) = numeral 16 digits := by
  have nonzero : ∀ byte ∈ digits, (byte != 0) = true := by
    intro byte member
    have digit := hexadecimal byte member
    rw [bne_iff_ne]
    rintro rfl
    exact absurd digit (by decide)
  have text : cString (digits ++ 13 :: 10 :: extra) = digits ++ 13 :: 10 :: cString extra := by
    rw [cString, List.takeWhile_append_of_pos nonzero]
    rfl
  have ends : ∀ byte ∈ (13 :: 10 :: cString extra).head?,
      isDigit 16 byte = false ∧ byte ≠ 120 ∧ byte ≠ 88 := by
    rintro _ ⟨⟩
    decide
  rw [text, Library.strtol_digits hexadecimal some_ ends]
  unfold longToInt
  rw [Int.bmod_def]
  split <;> omega

namespace HttpResponseParser

/-- Digits leave the automaton where it is. -/
theorem exec_digits (hexadecimal : ∀ byte ∈ digits, isDigit 16 byte = true)
    {p : HttpResponseParser σ} (reading : p.parser.cs = some lines.size) (buffer : List UInt8)
    (fpc : Nat) (rest : List UInt8) :
    p.exec machine buffer fpc (digits ++ rest) =
      p.exec machine buffer (fpc + digits.length) rest := by
  induction digits generalizing fpc with
  | nil => rfl
  | cons byte more inductionHypothesis =>
      have step := lines.digit byte (hexadecimal byte List.mem_cons_self)
      have same : { p with parser.cs := some lines.size } = p := by rw [← reading]
      rw [List.cons_append, exec, reading, Option.bind_some, step]
      simp only [List.foldlM_nil, bind, Except.bind, pure, Except.pure, same]
      rw [if_neg Bool.false_ne_true,
        inductionHypothesis (fun other member => hexadecimal other (List.mem_cons_of_mem _ member)),
        List.length_cons, Nat.add_assoc, Nat.add_comm 1]

/-- The first digit of a size. -/
theorem exec_size (some_ : digits ≠ []) (hexadecimal : ∀ byte ∈ digits, isDigit 16 byte = true)
    (p : HttpResponseParser σ) (buffer rest : List UInt8) :
    exec machine buffer 0 (digits ++ rest) { p with parser := .init machine } =
      exec machine buffer digits.length rest (p.counting lines) := by
  obtain ⟨byte, more, rfl⟩ := List.exists_cons_of_ne_nil some_
  have step := lines.first byte (hexadecimal byte List.mem_cons_self)
  have others : ∀ other ∈ more, isDigit 16 other = true :=
    fun other member => hexadecimal other (List.mem_cons_of_mem _ member)
  rw [List.cons_append, exec]
  simp only [HttpclientParser.init, Option.bind_some, step]
  have onward := exec_digits lines others (p := p.counting lines) rfl buffer 1 rest
  rw [List.length_cons, Nat.add_comm more.length 1, ← onward]
  rfl

omit lines in
/-- What `execute` makes of a run of the automaton from its beginning. -/
theorem execute_of_exec {buffer : List UInt8} {p q : HttpResponseParser σ} {nread : Nat}
    (ran : exec machine buffer 0 buffer { p with parser := .init machine } = .ok (q, nread))
    (marked : q.parser.mark < buffer.length ∧ q.parser.fieldLen ≤ buffer.length ∧
      q.parser.fieldStart < buffer.length)
    (bounded : nread ≤ buffer.length) :
    p.execute machine buffer true = .ok (q, nread, buffer.drop nread) := by
  have executed : httpclientParserExecute machine buffer { p with parser := .init machine } =
      .ok (q, nread) := by
    rw [httpclientParserExecute]
    change (exec machine buffer 0 buffer { p with parser := .init machine }).bind _ = _
    rw [ran]
    exact if_pos marked
  rw [execute]
  simp only [if_true, executed, bind, Except.bind]
  rw [if_neg (Nat.not_lt.mpr bounded)]
  rfl

/-- A call for digits alone takes them and waits for more. -/
theorem execute_digits (some_ : digits ≠ [])
    (hexadecimal : ∀ byte ∈ digits, isDigit 16 byte = true) (p : HttpResponseParser σ) :
    p.execute machine digits true = .ok (p.counting lines, digits.length, []) := by
  have ran := exec_size lines some_ hexadecimal p digits []
  rw [List.append_nil] at ran
  have positive := List.length_pos_iff.mpr some_
  rw [execute_of_exec ran ⟨positive, Nat.zero_le _, positive⟩ le_rfl, List.drop_length]

/-- A call for a line, or for the end of one that begins with a digit. -/
theorem execute_line (some_ : digits ≠ [])
    (hexadecimal : ∀ byte ∈ digits, isDigit 16 byte = true)
    (small : numeral 16 digits < 2 ^ 31) (p : HttpResponseParser σ) (extra : List UInt8) :
    p.execute machine (digits ++ 13 :: 10 :: extra) true =
      .ok (p.sized lines (numeral 16 digits), digits.length + 2, extra) := by
  have length : (digits ++ 13 :: 10 :: extra).length = digits.length + (extra.length + 2) :=
    List.length_append
  have text : textAt (digits ++ 13 :: 10 :: extra) 0 =
      .ok (cString (digits ++ 13 :: 10 :: extra)) := textAt_ok (Nat.zero_le _)
  have size := strtol_size some_ hexadecimal small extra
  have ran := exec_size lines some_ hexadecimal p (digits ++ 13 :: 10 :: extra)
    (13 :: 10 :: extra)
  simp only [exec, counting, HttpclientParser.init, Option.bind_some, lines.carriageReturn,
    lines.lineFeed, List.foldlM_cons, List.foldlM_nil, act, text, size, bind, Except.bind, pure,
    Except.pure, Bool.false_eq_true, if_false, if_true] at ran
  have positive : 0 < (digits ++ 13 :: 10 :: extra).length := by omega
  have line : (digits ++ 13 :: 10 :: extra).drop (digits.length + 2) = extra := by
    rw [← List.drop_drop, List.drop_left]
    rfl
  have executed := execute_of_exec ran ⟨positive, Nat.zero_le _, positive⟩ (by omega)
  rwa [line] at executed

end HttpResponseParser

end Line

namespace HttpConnection

variable {machine : Machine ClientAct σ} (lines : machine.SizeLines) {buffSize : Nat}

section Parse

variable {digits : List UInt8} {p : HttpResponseParser σ}

/-- What a call without an error gives, when it leaves less than a buffer. -/
theorem parse_of_execute (size : buffSize < 2 ^ 31) {data left : List UInt8}
    {q : HttpResponseParser σ} {nread : Nat}
    (executed : p.execute machine data true = .ok (q, nread, left))
    (healthy : q.hasError = false) (short : left.length < buffSize) :
    parse machine buffSize true data p = .ok (some (q, left)) := by
  have room : ¬(left.length : Int) = toInt buffSize := by
    rw [toInt_of_lt size]
    omega
  rw [parse, executed]
  simp only [bind, Except.bind, healthy]
  rw [if_neg Bool.false_ne_true, if_neg room]
  rfl

theorem parse_digits (size : buffSize < 2 ^ 31) (positive : 0 < buffSize) (some_ : digits ≠ [])
    (hexadecimal : ∀ byte ∈ digits, isDigit 16 byte = true) (healthy : p.error = 0) :
    parse machine buffSize true digits p = .ok (some (p.counting lines, [])) :=
  parse_of_execute size (HttpResponseParser.execute_digits lines some_ hexadecimal p)
    (by simp [HttpResponseParser.hasError, HttpResponseParser.counting, healthy]) positive

theorem parse_line (size : buffSize < 2 ^ 31) (some_ : digits ≠ [])
    (hexadecimal : ∀ byte ∈ digits, isDigit 16 byte = true)
    (small : numeral 16 digits < 2 ^ 31) (healthy : p.error = 0) {extra : List UInt8}
    (short : extra.length < buffSize) :
    parse machine buffSize true (digits ++ 13 :: 10 :: extra) p =
      .ok (some (p.sized lines (numeral 16 digits), extra)) :=
  parse_of_execute size (HttpResponseParser.execute_line lines some_ hexadecimal small p extra)
    (by simp [HttpResponseParser.hasError, HttpResponseParser.sized, healthy]) short

theorem counting_unfinished : (p.counting lines).isFinished machine = 0 := by
  have going := machine.final_target _ _ _ (lines.digit 48 (by decide))
  simp only [HttpResponseParser.isFinished, HttpResponseParser.counting, going]
  rfl

theorem sized_finished (size : Nat) : (p.sized lines size).isFinished machine ≠ 0 := by
  have ends := machine.final_target _ _ _ lines.lineFeed
  simp [HttpResponseParser.isFinished, HttpResponseParser.sized, ends]

end Parse

/-- The line of a size, that has not been read yet, up to what is read with its end. -/
theorem recvHead_size (size : buffSize < 2 ^ 31) {digits more : List UInt8}
    (hexadecimal : ∀ byte ∈ digits, isDigit 16 byte = true)
    {value : Nat} (small : value < 2 ^ 31) {p : HttpResponseParser σ} (healthy : p.error = 0)
    {connection : Connection} (nonempty : ∀ result ∈ connection, result ≠ [])
    (stream : connection.flatten = digits ++ 13 :: 10 :: more)
    (kept : 2 < fromLast (digits.length + 2) connection)
    (denotes : numeral 16
      (digits.drop (digits.length + 2 - fromLast (digits.length + 2) connection)) = value)
    (fits : recvHead machine buffSize true [] p connection ≠ .error .overrun) :
    ∃ left rest, recvHead machine buffSize true [] p connection =
        .ok (some (p.sized lines value, left), rest) ∧
      skip (digits.length + 2) connection = left :: rest ∧ left.length ≤ buffSize := by
  induction connection generalizing digits p with
  | nil => cases kept
  | cons result rest inductionHypothesis =>
      have some_ := nonempty result List.mem_cons_self
      have others : ∀ later ∈ rest, later ≠ [] :=
        fun later member => nonempty later (List.mem_cons_of_mem _ member)
      simp only [recvHead, List.length_nil, Nat.sub_zero, List.nil_append, Nat.zero_add] at fits ⊢
      by_cases exceeds : buffSize < result.length ∨ 2 ^ 31 ≤ result.length
      · rw [if_pos exceeds] at fits
        exact absurd rfl fits
      · rw [if_neg exceeds, if_neg some_, if_neg (by omega)] at fits ⊢
        rw [List.flatten_cons] at stream
        rw [fromLast] at kept denotes
        rw [skip]
        by_cases whole : digits.length + 2 ≤ result.length
        · rw [if_pos whole] at kept denotes ⊢
          rw [Nat.sub_self, List.drop_zero] at denotes
          subst denotes
          have digits_ : digits ≠ [] := List.ne_nil_of_length_pos (by omega)
          obtain ⟨extra, rfl⟩ : ∃ extra, result = digits ++ 13 :: 10 :: extra := by
            have line : digits ++ crlf <+: result :=
              List.prefix_of_prefix_length_le ⟨more, by rw [stream, crlf]; simp⟩
                (List.prefix_append result rest.flatten) (by rw [List.length_append]; exact whole)
            obtain ⟨extra, rfl⟩ := line
            exact ⟨extra, by rw [crlf]; simp⟩
          have dropped : (digits ++ 13 :: 10 :: extra).drop (digits.length + 2) = extra := by
            rw [← List.drop_drop, List.drop_left]
            rfl
          rw [List.length_append, List.length_cons, List.length_cons] at exceeds
          rw [parse_line lines size digits_ hexadecimal small healthy (by omega), dropped]
          exact ⟨extra, rest, if_pos (sized_finished lines _), rfl, by omega⟩
        · rw [if_neg whole] at kept denotes ⊢
          have bound := fromLast_le (digits.length + 2 - result.length) rest
          obtain ⟨later, rfl⟩ : ∃ later, digits = result ++ later := by
            have part : result <+: digits :=
              List.prefix_of_prefix_length_le ⟨rest.flatten, stream⟩ (List.prefix_append digits _)
                (by omega)
            exact part.imp fun _ same => same.symm
          rw [List.append_assoc, List.append_cancel_left_eq] at stream
          have prefix_ : ∀ byte ∈ result, isDigit 16 byte = true :=
            fun byte member => hexadecimal byte (List.mem_append_left _ member)
          have suffix_ : ∀ byte ∈ later, isDigit 16 byte = true :=
            fun byte member => hexadecimal byte (List.mem_append_right _ member)
          have count : (result ++ later).length + 2 - result.length = later.length + 2 := by
            rw [List.length_append]
            omega
          rw [count] at kept denotes bound ⊢
          have rest_ : (result ++ later).drop ((result ++ later).length + 2 -
              fromLast (later.length + 2) rest) =
                later.drop (later.length + 2 - fromLast (later.length + 2) rest) := by
            rw [List.drop_append, List.drop_eq_nil_of_le, List.nil_append]
            · congr 1
              rw [List.length_append]
              omega
            · rw [List.length_append]
              omega
          rw [rest_] at denotes
          have positive := List.length_pos_iff.mpr some_
          rw [parse_digits lines size (by omega) some_ prefix_ healthy] at fits ⊢
          simp only [bind, Except.bind] at fits ⊢
          rw [if_neg (not_not.mpr (counting_unfinished lines))] at fits ⊢
          exact inductionHypothesis (p := p.counting lines) suffix_ healthy others stream kept denotes
            fits

omit lines in
/-- What is in the buffer is parsed like a result that is read. -/
theorem recvSize_eq_recvHead {data : List UInt8} (some_ : data ≠ [])
    (buffered : data.length ≤ buffSize) (size : buffSize < 2 ^ 31) (p : HttpResponseParser σ)
    (connection : Connection) :
    recvSize machine buffSize data p connection =
      recvHead machine buffSize true [] p (data :: connection) := by
  simp only [recvSize, recvHead, List.length_nil, Nat.sub_zero, List.nil_append, Nat.zero_add]
  rw [if_neg some_, if_neg (by omega), if_neg some_, if_neg (by omega)]

/-- The same when a part of the line may be in the buffer. -/
theorem recvSize_size (size : buffSize < 2 ^ 31) {digits more : List UInt8}
    (hexadecimal : ∀ byte ∈ digits, isDigit 16 byte = true)
    (small : numeral 16 digits < 2 ^ 31) {p : HttpResponseParser σ} (healthy : p.error = 0)
    {data : List UInt8} (buffered : data.length ≤ buffSize) {connection : Connection}
    (nonempty : ∀ result ∈ connection, result ≠ [])
    (stream : data ++ connection.flatten = digits ++ 13 :: 10 :: more)
    (kept : SizeKept digits (data :: connection))
    (fits : recvSize machine buffSize data p connection ≠ .error .overrun) :
    ∃ left rest, recvSize machine buffSize data p connection =
        .ok (some (p.sized lines (numeral 16 digits), left), rest) ∧
      skip (digits.length + 2) (data :: connection) = left :: rest ∧ left.length ≤ buffSize := by
  obtain ⟨kept, denotes⟩ := kept
  by_cases some_ : data = []
  · subst some_
    rw [fromLast, if_neg (by simp), List.length_nil, Nat.sub_zero] at kept denotes
    rw [skip, if_neg (by simp), List.length_nil, Nat.sub_zero]
    rw [recvSize, if_pos rfl] at fits ⊢
    exact recvHead_size lines size hexadecimal small healthy nonempty stream kept denotes fits
  · rw [recvSize_eq_recvHead some_ buffered size] at fits ⊢
    refine recvHead_size lines size hexadecimal small healthy ?_ stream kept denotes fits
    intro result member
    rcases List.mem_cons.mp member with rfl | later
    · exact some_
    · exact nonempty result later

/-- What is left to read of a chunk, and nothing more. -/
theorem appendLeft_stream (size : buffSize < 2 ^ 31) {count : Nat} (some_ : 0 < count)
    (body : List UInt8) {connection : Connection} (nonempty : ∀ result ∈ connection, result ≠ [])
    (enough : count ≤ connection.flatten.length)
    (fits : appendLeft buffSize count body connection ≠ .error .overrun) :
    ∃ rest, appendLeft buffSize count body connection =
        .ok (some (body ++ connection.flatten.take count), rest) ∧
      skip count connection = [] :: rest := by
  induction connection generalizing count body with
  | nil =>
      simp only [List.flatten_nil, List.length_nil] at enough
      omega
  | cons result rest inductionHypothesis =>
      have others : ∀ later ∈ rest, later ≠ [] :=
        fun later member => nonempty later (List.mem_cons_of_mem _ member)
      rw [appendLeft, if_neg (by omega)] at fits ⊢
      have asked : (min (count : Int) (toInt buffSize) % 2 ^ 64).toNat = min count buffSize := by
        rw [toInt_of_lt size]
        omega
      rw [asked] at fits ⊢
      by_cases exceeds : min count buffSize < result.length ∨ 2 ^ 31 ≤ result.length
      · rw [if_pos exceeds] at fits
        exact absurd rfl fits
      · rw [if_neg exceeds, if_neg (by omega), if_neg (nonempty result List.mem_cons_self)] at fits ⊢
        rw [List.flatten_cons, List.length_append] at enough
        rw [skip, List.flatten_cons, List.take_append, List.take_of_length_le (by omega),
          ← List.append_assoc]
        by_cases last : count ≤ result.length
        · have all : count = result.length := by omega
          subst all
          rw [appendLeft_done buffSize (by omega), if_pos le_rfl, List.drop_length, Nat.sub_self,
            List.take_zero, List.append_nil]
          exact ⟨rest, rfl, rfl⟩
        · have remaining : (count : Int) - result.length = (count - result.length : Nat) := by
            omega
          rw [remaining] at fits ⊢
          rw [if_neg last]
          exact inductionHypothesis (by omega) (body ++ result) others (by omega) fits

/-- A chunk is the bytes that follow its size, and two more are dropped. -/
theorem recvChunk_stream (size : buffSize < 2 ^ 31) {payload more : List UInt8}
    (small : payload.length + 2 < 2 ^ 31) {data : List UInt8} (body : List UInt8)
    {connection : Connection} (nonempty : ∀ result ∈ connection, result ≠ [])
    (stream : data ++ connection.flatten = payload ++ (crlf ++ more))
    (fits : recvChunk buffSize payload.length data body connection ≠ .error .overrun) :
    ∃ left rest, recvChunk buffSize payload.length data body connection =
        .ok (some (left, body ++ payload), rest) ∧
      skip (payload.length + 2) (data :: connection) = left :: rest := by
  have length := congrArg List.length stream
  simp only [List.length_append, crlf, List.length_cons, List.length_nil] at length
  rw [skip]
  by_cases buffered : payload.length + 2 ≤ data.length
  · have part : payload <+: data :=
      List.prefix_of_prefix_length_le ⟨crlf ++ more, stream.symm⟩
        (List.prefix_append data connection.flatten) (by omega)
    rw [recvChunk, if_neg (by omega), if_pos (by omega), if_neg (by omega), if_pos buffered,
      Int.toNat_natCast, ← List.prefix_iff_eq_take.mp part]
    exact ⟨_, connection, rfl, rfl⟩
  · have left : (payload.length : Int) - data.length + 2 =
        (payload.length + 2 - data.length : Nat) := by omega
    rw [recvChunk_unbuffered (by omega) (by omega), left] at fits ⊢
    rw [if_neg buffered]
    have single : appendLeft buffSize (payload.length + 2 - data.length : Nat) (body ++ data)
        connection ≠ .error .overrun :=
      fun overrun => fits (congrArg (Except.bind · _) overrun)
    obtain ⟨rest, appended, skipped⟩ := appendLeft_stream size (by omega) (body ++ data) nonempty
      (by omega) single
    have whole : data ++ connection.flatten.take (payload.length + 2 - data.length) =
        payload ++ crlf := by
      have cut := congrArg (List.take (payload.length + 2)) stream
      rw [List.take_append, List.take_of_length_le (by omega), ← List.append_assoc payload,
        List.take_left' (by simp [crlf])] at cut
      exact cut
    rw [appended, List.append_assoc, whole, ← List.append_assoc]
    refine ⟨[], rest, ?_, skipped⟩
    simp only [Except.bind]
    rw [if_neg (by simp [crlf]; omega), List.take_left' (by simp [crlf]; omega)]

/-- A round of the loop over the chunks, with the size and the bytes of a chunk. -/
theorem recvChunks_round (size : buffSize < 2 ^ 31) {digits payload more : List UInt8}
    (hexadecimal : ∀ byte ∈ digits, isDigit 16 byte = true)
    (denotes : numeral 16 digits = payload.length) (small : payload.length + 2 < 2 ^ 31)
    (fuel : Nat) {data : List UInt8} (buffered : data.length ≤ buffSize) (body : List UInt8)
    {p : HttpResponseParser σ} (healthy : p.error = 0) {connection : Connection}
    (nonempty : ∀ result ∈ connection, result ≠ [])
    (stream : data ++ connection.flatten = digits ++ crlf ++ (payload ++ crlf) ++ more)
    (kept : SizeKept digits (data :: connection))
    (fits : recvChunks machine buffSize (fuel + 1) data body p connection ≠ .error .overrun) :
    ∃ left rest, recvChunks machine buffSize (fuel + 1) data body p connection =
        (if payload = [] then .ok (some (p.sized lines payload.length, body ++ payload), rest)
        else recvChunks machine buffSize fuel left (body ++ payload)
          (p.sized lines payload.length) rest) ∧
      skip (digits ++ crlf ++ (payload ++ crlf)).length (data :: connection) = left :: rest ∧
      left.length ≤ buffSize ∧ rest <:+ connection := by
  simp only [recvChunks, bind] at fits ⊢
  have line : data ++ connection.flatten = digits ++ 13 :: 10 :: (payload ++ (crlf ++ more)) := by
    rw [stream]
    simp [crlf]
  have sizing : recvSize machine buffSize data p connection ≠ .error .overrun :=
    fun overrun => fits (congrArg (Except.bind · _) overrun)
  obtain ⟨middle, later, sized, skipped, room⟩ := recvSize_size lines size hexadecimal (by omega)
    healthy buffered nonempty line kept sizing
  have onward : middle ++ later.flatten = payload ++ (crlf ++ more) := by
    have flattened := skip_flatten (digits.length + 2) (data :: connection)
    rw [skipped, List.flatten_cons, List.flatten_cons, line, ← List.drop_drop,
      List.drop_left] at flattened
    exact flattened
  have tail := skip_tail skipped
  have others : ∀ result ∈ later, result ≠ [] :=
    fun result member => nonempty result (tail.subset member)
  rw [denotes] at sized
  rw [sized] at fits ⊢
  simp only [Except.bind] at fits ⊢
  have length : (p.sized lines payload.length).parser.contentLen = payload.length := rfl
  have done : (p.sized lines payload.length).parser.chunksDone = decide (payload = []) := by
    simp [HttpResponseParser.sized]
  rw [length] at fits ⊢
  have chunking : recvChunk buffSize payload.length middle body later ≠ .error .overrun := by
    intro overrun
    rw [overrun] at fits
    exact fits rfl
  obtain ⟨left, rest, received, skippedMore⟩ :=
    recvChunk_stream size small body others onward chunking
  refine ⟨left, rest, ?_, ?_, (recvChunk_left received).1.trans room,
    (skip_tail skippedMore).trans tail⟩
  · rw [received]
    simp only [done, decide_eq_true_eq]
    rfl
  · rw [← skippedMore, skip_skip skipped (Nat.succ_pos _)]
    congr 1
    simp only [List.length_append, crlf, List.length_cons, List.length_nil]

include lines in
/-- The loop over the chunks decodes them. -/
theorem recvChunks_stream (size : buffSize < 2 ^ 31) {chunks : List Chunk} {fuel : Nat}
    (enough : chunks.length < fuel) {extra data : List UInt8} (buffered : data.length ≤ buffSize)
    (body : List UInt8) {p : HttpResponseParser σ} (healthy : p.error = 0)
    {connection : Connection} (nonempty : ∀ result ∈ connection, result ≠ [])
    (stream : data ++ connection.flatten = encode chunks ++ extra)
    (kept : SizesKept chunks (data :: connection))
    (fits : recvChunks machine buffSize fuel data body p connection ≠ .error .overrun) :
    ∃ q rest, recvChunks machine buffSize fuel data body p connection =
        .ok (some (q, body ++ chunks.flatMap Chunk.payload), rest) ∧
      q.toParsedResponse = p.toParsedResponse := by
  induction chunks generalizing fuel data body p connection with
  | nil =>
      obtain ⟨fuel, rfl⟩ := Nat.exists_eq_add_of_lt enough
      have zero : ∀ byte ∈ bytes "0", isDigit 16 byte = true := by decide
      have denotes : numeral 16 (bytes "0") = ([] : List UInt8).length := by decide
      have last : data ++ connection.flatten = bytes "0" ++ crlf ++ ([] ++ crlf) ++ extra := stream
      obtain ⟨left, rest, decoded, _⟩ := recvChunks_round lines size zero denotes (by decide) _
        buffered body healthy nonempty last kept fits
      exact ⟨_, rest, decoded, rfl⟩
  | cons chunk chunks inductionHypothesis =>
      obtain ⟨fuel, rfl⟩ := Nat.exists_eq_add_of_lt enough
      have grouped : data ++ connection.flatten =
          chunk.digits ++ crlf ++ (chunk.payload ++ crlf) ++ (encode chunks ++ extra) := by
        rw [stream]
        simp [encode, Chunk.encode]
      obtain ⟨left, rest, decoded, skipped, room, suffix_⟩ := recvChunks_round lines size
        chunk.hexadecimal chunk.size chunk.small _ buffered body healthy nonempty grouped kept.1 fits
      rw [if_neg chunk.some_] at decoded
      have onward : left ++ rest.flatten = encode chunks ++ extra := by
        have flattened := skip_flatten chunk.encode.length (data :: connection)
        rw [Chunk.encode, skipped, List.flatten_cons, List.flatten_cons, grouped,
          List.drop_left] at flattened
        exact flattened
      have keptMore : SizesKept chunks (left :: rest) := by
        rw [← skipped]
        exact kept.2
      rw [decoded] at fits ⊢
      have others : ∀ result ∈ rest, result ≠ [] :=
        fun result member => nonempty result (suffix_.subset member)
      obtain ⟨q, later, all, same⟩ := inductionHypothesis
        (p := p.sized lines chunk.payload.length) (by rw [List.length_cons]; omega) room
        (body ++ chunk.payload) healthy others onward keptMore fits
      refine ⟨q, later, ?_, same⟩
      rw [all, List.flatMap_cons, List.append_assoc]

include lines in
/-- After the head of a chunked response without an encoding, the response has the
bytes of the chunks for its body whenever the results of `read` cut the lines of
their sizes only where the part after the cut denotes the same size. -/
theorem recvResponse_chunked (lexicalCast : List UInt8 → Option UInt64)
    (gunzip inflate : List UInt8 → List UInt8) (size : buffSize < 2 ^ 31)
    {connection rest : Connection} (nonempty : ∀ result ∈ connection, result ≠ [])
    {parser : HttpResponseParser σ} {data : List UInt8}
    (head : recvHead machine buffSize false [] (.new machine) connection =
      .ok (some (parser, data), rest))
    (chunked : parser.parser.chunked = true) (plain : Plain parser.data) {chunks : List Chunk}
    {extra : List UInt8} (stream : data ++ rest.flatten = encode chunks ++ extra)
    (kept : SizesKept chunks (data :: rest))
    (fits : recvResponse machine lexicalCast gunzip inflate buffSize connection ≠
      .error .overrun) :
    ∃ response later,
      recvResponse machine lexicalCast gunzip inflate buffSize connection =
        .ok (some response, later) ∧ response.body = chunks.flatMap Chunk.payload := by
  obtain ⟨healthy, body, room, suffix_⟩ := recvHead_some (Nat.zero_le _) head
  have others : ∀ result ∈ rest, result ≠ [] :=
    fun result member => nonempty result (suffix_.subset member)
  have enough : chunks.length < fuel data rest := by
    have length := congrArg List.length stream
    rw [List.length_append, List.length_append] at length
    have bound := length_le_encode chunks
    rw [fuel]
    omega
  simp only [recvResponse, bind] at fits ⊢
  rw [head] at fits ⊢
  simp only [Except.bind] at fits ⊢
  rw [if_pos chunked] at fits ⊢
  obtain ⟨q, later, received, same⟩ := recvChunks_stream lines size enough room [] healthy others
    stream kept fun overrun => by
      rw [overrun] at fits
      exact fits rfl
  rw [received]
  refine ⟨_, later, rfl, ?_⟩
  rw [List.nil_append, same]
  exact decode_body plain body _

/-- The lines of sizes in the automaton of the lines. -/
def lineMachineSizeLines : lineMachine.SizeLines where
  size := .size
  sizeEnd := .sizeEnd
  stop := .final
  first byte digit := by
    have letter : byte ≠ 72 := by
      rintro rfl
      exact absurd digit (by decide)
    simp [lineMachine, LineState.step, LineState.go, letter, digit]
  digit byte digit := by
    have line : byte ≠ 13 ∧ byte ≠ 10 := by
      constructor
      · rintro rfl
        exact absurd digit (by decide)
      · rintro rfl
        exact absurd digit (by decide)
    simp [lineMachine, LineState.step, LineState.endLine, LineState.go, line, digit]
  carriageReturn := rfl
  lineFeed := rfl

/-- Sixteen bytes, with a leading zero in their size or without. -/
def sixteen (zero : Bool) : Chunk where
  digits := if zero then bytes "010" else bytes "10"
  payload := List.replicate 16 97
  hexadecimal := by cases zero <;> decide
  size := by cases zero <;> decide
  some_ := by decide
  small := by decide

/-- A size is cut behind its leading zero, and the end of its line comes with the
bytes of the chunk. -/
theorem recvResponse_chunked_leadingZero :
    ∃ response later,
      recvResponse lineMachine (fun _ => none) id id 64
        [bytes "HTTP/1.1 200 OK\r\nTransfer-Encoding: chunked\r\n\r\n0",
          bytes "10\r\naaaaaaaa", bytes "aaaaaaaa\r", bytes "\n", bytes "0\r\n\r\n"] =
        .ok (some response, later) ∧ response.body = [sixteen true].flatMap Chunk.payload := by
  obtain ⟨parser, head, chunked, plain⟩ : ∃ parser,
      recvHead lineMachine 64 false [] (.new lineMachine)
        [bytes "HTTP/1.1 200 OK\r\nTransfer-Encoding: chunked\r\n\r\n0",
          bytes "10\r\naaaaaaaa", bytes "aaaaaaaa\r", bytes "\n", bytes "0\r\n\r\n"] =
        .ok (some (parser, bytes "0"),
          [bytes "10\r\naaaaaaaa", bytes "aaaaaaaa\r", bytes "\n", bytes "0\r\n\r\n"]) ∧
      parser.parser.chunked = true ∧ Plain parser.data :=
    ⟨_, rfl, rfl, by decide, by decide⟩
  have stream : bytes "0" ++ ([bytes "10\r\naaaaaaaa", bytes "aaaaaaaa\r", bytes "\n",
      bytes "0\r\n\r\n"] : Connection).flatten = encode [sixteen true] ++ [] := by decide
  have kept : SizesKept [sixteen true] [bytes "0", bytes "10\r\naaaaaaaa", bytes "aaaaaaaa\r",
      bytes "\n", bytes "0\r\n\r\n"] :=
    ⟨⟨by decide, by decide⟩, by decide, by decide⟩
  exact recvResponse_chunked lineMachineSizeLines _ _ _ (by decide) (by decide) head chunked plain
    stream kept nofun

/-- The size of the same chunk is cut between its digits: what comes after the cut
is taken for the last chunk. -/
theorem recvResponse_chunked_cut :
    ([bytes "1", bytes "0\r\naaaaaaaaaaaaaaaa\r\n0\r\n\r\n"] : Connection).flatten =
        encode [sixteen false] ∧
      ¬∃ response later,
        recvResponse lineMachine (fun _ => none) id id 64
          [bytes "HTTP/1.1 200 OK\r\nTransfer-Encoding: chunked\r\n\r\n", bytes "1",
            bytes "0\r\naaaaaaaaaaaaaaaa\r\n0\r\n\r\n"] = .ok (some response, later) ∧
        response.body = [sixteen false].flatMap Chunk.payload := by
  refine ⟨by decide, ?_⟩
  rintro ⟨response, later, received, body⟩
  cases received
  exact absurd body (by decide)

end HttpConnection

end Sylar.Http
