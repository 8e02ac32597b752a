import Sylar.Http.ResponseGrammar

/-!
# Sizes of chunks and the memory of the client

The size of a chunk is whatever `strtol` made of the text in the stream, as an
`int`. `recvResponse` computes with it unchecked. It stays in its buffer, and no
exception escapes, exactly when every size in the stream can be computed with.
-/

namespace Sylar.Http.HttpConnection

variable {σ : Type} {machine : Machine ClientAct σ}

/-- A size that `recvChunk` can compute with, given what is in the buffer, the
body so far and the results of `read` to come. The size -1 is harmless when a
byte is appended of which one can be taken away again, or the stream ends. -/
def SizeFits (contentLen : Int) (data body : List UInt8) (connection : Connection) : Prop :=
  (0 ≤ contentLen ∧ contentLen ≤ 2 ^ 31 - 3) ∨
    (contentLen = -1 ∧ data = [] ∧
      (connection.headD [] = [] ∨ 2 ≤ body.length + (connection.headD []).length))

section Parsing

variable (orderly : machine.Orderly) (buffSize : Nat)

include orderly

theorem parse_ok {data : List UInt8} (some_ : data ≠ []) (short : data.length < 2 ^ 64)
    (chunck : Bool) (p : HttpResponseParser σ) :
    ∃ answer, parse machine buffSize chunck data p = .ok answer ∧ ∀ q left,
      answer = some (q, left) → left.length < data.length ∧
        (q.isFinished machine = 0 → left = []) := by
  obtain ⟨q, nread, executed, bounded, progress, unfinished⟩ :=
    HttpResponseParser.execute_ok orderly some_ short chunck p
  simp only [parse, executed, bind, Except.bind]
  cases failed : q.hasError with
  | true => exact ⟨none, rfl, nofun⟩
  | false =>
      have further := progress failed
      by_cases full : ((data.drop nread).length : Int) = toInt buffSize
      · exact ⟨none, by simp only [full, if_true]; rfl, nofun⟩
      · refine ⟨some (q, data.drop nread), by simp only [full, if_false]; rfl, ?_⟩
        rintro _ _ ⟨⟩
        refine ⟨?_, fun ongoing => ?_⟩
        · rw [List.length_drop]
          omega
        · rw [unfinished ongoing, List.drop_length]

/-- The loop that reads a head or a size uses up what it reads, until the end of
the head. -/
theorem recvHead_ok (chunck : Bool) (p : HttpResponseParser σ) (connection : Connection) :
    recvHead machine buffSize chunck [] p connection = .error .overrun ∨
      ∃ answer rest, recvHead machine buffSize chunck [] p connection = .ok (answer, rest) ∧
        ∀ q left, answer = some (q, left) → left.length < 2 ^ 31 ∧
          left.length + rest.flatten.length < connection.flatten.length := by
  induction connection generalizing p with
  | nil => exact .inr ⟨none, [], rfl, nofun⟩
  | cons result rest inductionHypothesis =>
      simp only [recvHead, List.length_nil, Nat.sub_zero, List.nil_append, Nat.zero_add]
      by_cases exceeds : buffSize < result.length ∨ 2 ^ 31 ≤ result.length
      · rw [if_pos exceeds]
        exact .inl rfl
      · rw [if_neg exceeds]
        by_cases empty : result = []
        · rw [if_pos empty]
          exact .inr ⟨none, [], rfl, nofun⟩
        · rw [if_neg empty, if_neg (by omega)]
          obtain ⟨answer, parsed, onward⟩ :=
            parse_ok orderly buffSize empty (by omega) chunck p
          rw [parsed]
          match answer with
          | none => exact .inr ⟨none, [], rfl, nofun⟩
          | some (q, left) =>
              obtain ⟨shorter, ongoing⟩ := onward q left rfl
              simp only [bind, Except.bind]
              by_cases finished : q.isFinished machine = 0
              · rw [if_neg (not_not.mpr finished), ongoing finished]
                rcases inductionHypothesis q with overrun | ⟨answer, later, received, bounds⟩
                · exact .inl overrun
                · refine .inr ⟨answer, later, received, fun r more same => ?_⟩
                  obtain ⟨small, fewer⟩ := bounds r more same
                  refine ⟨small, ?_⟩
                  rw [List.flatten_cons, List.length_append]
                  omega
              · rw [if_pos finished]
                refine .inr ⟨_, rest, rfl, ?_⟩
                rintro _ _ ⟨⟩
                refine ⟨by omega, ?_⟩
                rw [List.flatten_cons, List.length_append]
                omega

/-- The same for the loop that begins with what is in the buffer. -/
theorem recvSize_ok {data : List UInt8} (short : data.length < 2 ^ 31)
    (p : HttpResponseParser σ) (connection : Connection) :
    recvSize machine buffSize data p connection = .error .overrun ∨
      ∃ answer rest, recvSize machine buffSize data p connection = .ok (answer, rest) ∧
        ∀ q left, answer = some (q, left) → left.length < 2 ^ 31 ∧
          left.length + rest.flatten.length < data.length + connection.flatten.length := by
  simp only [recvSize]
  by_cases empty : data = []
  · subst empty
    rw [if_pos rfl, List.length_nil, Nat.zero_add]
    exact recvHead_ok orderly buffSize true p connection
  · rw [if_neg empty]
    obtain ⟨answer, parsed, onward⟩ :=
      parse_ok orderly buffSize empty (by omega) true p
    rw [parsed]
    match answer with
    | none => exact .inr ⟨none, [], rfl, nofun⟩
    | some (q, left) =>
        obtain ⟨shorter, ongoing⟩ := onward q left rfl
        simp only [bind, Except.bind]
        by_cases finished : q.isFinished machine = 0
        · rw [if_neg (not_not.mpr finished), ongoing finished]
          rcases recvHead_ok orderly buffSize true q connection with
            overrun | ⟨answer, later, received, bounds⟩
          · exact .inl overrun
          · refine .inr ⟨answer, later, received, fun r more same => ?_⟩
            obtain ⟨small, fewer⟩ := bounds r more same
            exact ⟨small, by omega⟩
        · rw [if_pos finished]
          refine .inr ⟨_, connection, rfl, ?_⟩
          rintro _ _ ⟨⟩
          exact ⟨by omega, by omega⟩

end Parsing

section Head

variable {buffSize : Nat}

theorem parse_some {chunck : Bool} {data left : List UInt8} {p q : HttpResponseParser σ}
    (parsed : parse machine buffSize chunck data p = .ok (some (q, left))) :
    q.error = 0 ∧ q.data.body = p.data.body ∧ left.length ≤ data.length := by
  obtain ⟨⟨last, nread, rest⟩, executed, checked⟩ := bind_ok parsed
  have untouched := HttpResponseParser.execute_body executed
  dsimp only at checked
  split at checked
  · cases checked
  · rename_i healthy
    split at checked
    · cases checked
    · cases checked
      refine ⟨?_, untouched⟩
      simp only [HttpResponseParser.hasError, Bool.or_eq_true, not_or] at healthy
      simpa using healthy.1

/-- A head was parsed without an error, by a parser that has no body yet, and what
is left in the buffer fits in it. -/
theorem recvHead_some {chunck : Bool} {data left : List UInt8} (room : data.length ≤ buffSize)
    {p q : HttpResponseParser σ} {connection rest : Connection}
    (received : recvHead machine buffSize chunck data p connection = .ok (some (q, left), rest)) :
    q.error = 0 ∧ q.data.body = p.data.body ∧ left.length ≤ buffSize ∧ rest <:+ connection := by
  induction connection generalizing data p with
  | nil => cases received
  | cons result later inductionHypothesis =>
      rw [recvHead] at received
      split at received
      · cases received
      · rename_i fits
        rw [not_or, Nat.not_lt] at fits
        split at received
        · cases received
        · split at received
          · cases received
          · obtain ⟨answer, parsed, onward⟩ := bind_ok received
            match answer with
            | none => cases onward
            | some (middle, kept) =>
                obtain ⟨healthy, body, shorter⟩ := parse_some parsed
                rw [List.length_append] at shorter
                dsimp only at onward
                split at onward
                · cases onward
                  exact ⟨healthy, body, by omega, List.suffix_cons result _⟩
                · obtain ⟨healthy, same, small, suffix_⟩ := inductionHypothesis (by omega) onward
                  exact ⟨healthy, same.trans body, small, suffix_.trans (List.suffix_cons _ _)⟩

end Head

section Appending

variable (buffSize : Nat)

/-- With nothing left the loop ends. -/
theorem appendLeft_done {left : Int} (none_ : left ≤ 0) (body : List UInt8)
    (connection : Connection) :
    appendLeft buffSize left body connection = .ok (some body, connection) := by
  cases connection with
  | nil =>
      rw [appendLeft, if_neg (by omega)]
      rfl
  | cons result rest =>
      rw [appendLeft, if_pos none_]
      rfl

/-- A buffer of which the size is negative as an `int` is large. -/
theorem toInt_cases : toInt buffSize ≤ buffSize ∧ 0 ≤ toInt buffSize ∨
    toInt buffSize < 0 ∧ 2 ^ 31 ≤ buffSize := by
  unfold toInt
  rw [Int.bmod_def]
  split
  · left
    constructor <;> omega
  · right
    constructor <;> omega

/-- What `read` returns fits in the buffer, whatever the conversions between `int`
and `size_t` make of what it is asked for. -/
theorem result_fits {left : Int} {length : Nat} (some_ : 0 < left) (positive : length < 2 ^ 31)
    (within : length ≤ (min left (toInt buffSize) % 2 ^ 64).toNat) : length ≤ buffSize + 1 := by
  rcases toInt_cases buffSize with ⟨below, _⟩ | ⟨_, large⟩
  · omega
  · omega

/-- A round of the loop that appends. -/
theorem appendLeft_cons {left : Int} (some_ : 0 < left) (body : List UInt8)
    (result : List UInt8) (rest : Connection) :
    appendLeft buffSize left body (result :: rest) = .error .overrun ∨
      appendLeft buffSize left body (result :: rest) =
        if result = [] then .ok (none, [])
        else appendLeft buffSize (left - result.length) (body ++ result) rest := by
  rw [appendLeft, if_neg (by omega)]
  by_cases exceeds : (min left (toInt buffSize) % 2 ^ 64).toNat < result.length ∨
      2 ^ 31 ≤ result.length
  · exact .inl (if_pos exceeds)
  · refine .inr ?_
    rw [not_or, Nat.not_lt, Nat.not_le] at exceeds
    have fits := result_fits buffSize some_ exceeds.2 exceeds.1
    rw [if_neg (by omega), if_neg (by omega)]
    rfl

/-- The loop appends at least what it was to append. -/
theorem appendLeft_ok (left : Int) (body : List UInt8) (connection : Connection) :
    appendLeft buffSize left body connection = .error .overrun ∨
      ∃ answer rest, appendLeft buffSize left body connection = .ok (answer, rest) ∧
        rest.flatten.length ≤ connection.flatten.length ∧
        ∀ whole, answer = some whole → body.length + left ≤ whole.length := by
  induction connection generalizing left body with
  | nil =>
      refine .inr ⟨_, [], rfl, le_rfl, fun whole same => ?_⟩
      split at same
      · cases same
      · cases same
        omega
  | cons result rest inductionHypothesis =>
      rcases Int.lt_or_le 0 left with some_ | none_
      · rcases appendLeft_cons buffSize some_ body result rest with overrun | onward
        · exact .inl overrun
        · rw [onward]
          split
          · exact .inr ⟨none, [], rfl, Nat.zero_le _, nofun⟩
          · rcases inductionHypothesis (left - result.length) (body ++ result) with
              overrun | ⟨answer, later, appended, fewer, longer⟩
            · exact .inl overrun
            · refine .inr ⟨answer, later, appended, ?_, fun whole same => ?_⟩
              · rw [List.flatten_cons, List.length_append]
                omega
              · have enough := longer whole same
                rw [List.length_append] at enough
                omega
      · refine .inr ⟨some body, result :: rest, appendLeft_done buffSize none_ _ _, le_rfl, ?_⟩
        rintro _ ⟨⟩
        omega

/-- A single byte that is left is appended with the result that brings it. -/
theorem appendLeft_one (body : List UInt8) (connection : Connection)
    (fits : appendLeft buffSize 1 body connection ≠ .error .overrun) :
    ∃ rest, appendLeft buffSize 1 body connection =
      .ok (if connection.headD [] = [] then none else some (body ++ connection.headD []), rest) := by
  cases connection with
  | nil => exact ⟨[], rfl⟩
  | cons result rest =>
      rcases appendLeft_cons buffSize Int.one_pos body result rest with overrun | onward
      · exact absurd overrun fits
      · rw [onward, List.headD_cons]
        split
        · exact ⟨[], rfl⟩
        · rename_i some_
          have positive := List.length_pos_iff.mpr some_
          exact ⟨rest, appendLeft_done buffSize (by omega) _ _⟩

section

variable {buffSize} {contentLen : Int} {data body : List UInt8} {connection : Connection}

/-- What a chunk becomes of which a part is still to be read. -/
theorem recvChunk_unbuffered (ranged : contentLen + 2 < 2 ^ 31)
    (unbuffered : data.length < contentLen + 2) :
    recvChunk buffSize contentLen data body connection =
      (appendLeft buffSize (contentLen - data.length + 2) (body ++ data) connection).bind fun
        | (none, _) => .ok (none, [])
        | (some whole, rest) =>
            if whole.length < 2 then .error .lengthError
            else .ok (some ([], whole.take (whole.length - 2)), rest) := by
  rw [recvChunk, if_neg (by omega), if_neg (by omega)]
  rfl

/-- A chunk of which no byte is buffered, and of which the size is -1. -/
theorem recvChunk_minusOne (fits : recvChunk buffSize (-1) [] body connection ≠ .error .overrun) :
    (∃ outcome, recvChunk buffSize (-1) [] body connection = .ok outcome) ↔
      connection.headD [] = [] ∨ 2 ≤ body.length + (connection.headD []).length := by
  rw [recvChunk_unbuffered (by decide) (by decide), List.append_nil] at fits ⊢
  have single : appendLeft buffSize 1 body connection ≠ .error .overrun := by
    intro overrun
    exact fits (congrArg (Except.bind · _) overrun)
  obtain ⟨rest, appended⟩ := appendLeft_one buffSize body connection single
  rw [show (-1 - (([] : List UInt8).length : Int) + 2) = 1 from rfl, appended]
  by_cases ends : connection.headD [] = []
  · rw [if_pos ends]
    exact ⟨fun _ => .inl ends, fun _ => ⟨_, rfl⟩⟩
  · rw [if_neg ends]
    simp only [Except.bind, List.length_append]
    constructor
    · rintro ⟨outcome, received⟩
      right
      by_contra short
      rw [if_pos (by omega)] at received
      cases received
    · rintro (ended | enough)
      · exact absurd ended ends
      · exact ⟨_, if_neg (by omega)⟩

/-- A chunk is received without a fault exactly when its size fits. -/
theorem recvChunk_ok_iff
    (fits : recvChunk buffSize contentLen data body connection ≠ .error .overrun) :
    (∃ outcome, recvChunk buffSize contentLen data body connection = .ok outcome) ↔
      SizeFits contentLen data body connection := by
  by_cases ranged : contentLen + 2 < 2 ^ 31
  · by_cases buffered : contentLen + 2 ≤ data.length
    · rw [recvChunk, if_neg (by omega), if_pos buffered]
      by_cases negative : contentLen < 0
      · rw [if_pos negative]
        constructor
        · rintro ⟨outcome, received⟩
          cases received
        · rintro (⟨natural, _⟩ | ⟨rfl, rfl, _⟩)
          · omega
          · exact absurd buffered (by decide)
      · rw [if_neg negative]
        exact ⟨fun _ => .inl ⟨by omega, by omega⟩, fun _ => ⟨_, rfl⟩⟩
    · rcases Int.lt_or_le contentLen 0 with negative | natural
      · have minusOne : contentLen = -1 := by omega
        have empty : data = [] := List.eq_nil_of_length_eq_zero (by omega)
        subst minusOne empty
        rw [recvChunk_minusOne fits, SizeFits]
        simp
      · refine ⟨fun _ => .inl ⟨natural, by omega⟩, fun _ => ?_⟩
        rw [recvChunk_unbuffered ranged (by omega)] at fits ⊢
        rcases appendLeft_ok buffSize (contentLen - data.length + 2) (body ++ data) connection with
          overrun | ⟨answer, rest, appended, _, longer⟩
        · exact absurd (congrArg (Except.bind · _) overrun) fits
        · rw [appended]
          match answer with
          | none => exact ⟨_, rfl⟩
          | some whole =>
              have enough := longer whole rfl
              rw [List.length_append] at enough
              exact ⟨_, if_neg (by omega)⟩
  · constructor
    · rintro ⟨outcome, received⟩
      rw [recvChunk, if_pos (by omega)] at received
      cases received
    · rintro (⟨_, small⟩ | ⟨rfl, _⟩)
      · omega
      · exact absurd (by decide) ranged

/-- A chunk takes bytes away from those that are buffered or still to come. -/
theorem recvChunk_left {left whole : List UInt8} {rest : Connection}
    (received : recvChunk buffSize contentLen data body connection =
      .ok (some (left, whole), rest)) :
    left.length ≤ data.length ∧
      left.length + rest.flatten.length ≤ data.length + connection.flatten.length := by
  by_cases ranged : contentLen + 2 < 2 ^ 31
  · by_cases buffered : contentLen + 2 ≤ data.length
    · rw [recvChunk, if_neg (by omega), if_pos buffered] at received
      split at received
      · cases received
      · cases received
        rw [List.length_drop]
        omega
    · rw [recvChunk_unbuffered ranged (by omega)] at received
      rcases appendLeft_ok buffSize (contentLen - data.length + 2) (body ++ data) connection with
        overrun | ⟨answer, later, appended, fewer, _⟩
      · rw [overrun] at received
        cases received
      · rw [appended] at received
        match answer with
        | none => cases received
        | some all =>
            simp only [Except.bind] at received
            split at received
            · cases received
            · cases received
              rw [List.length_nil]
              omega
  · rw [recvChunk, if_pos (by omega)] at received
    cases received

end

end Appending

section Rounds

variable (machine) (buffSize : Nat)

/-- The sizes in a stream fit, in the rounds of the loop over the chunks. -/
def SizesFit : Nat → List UInt8 → List UInt8 → HttpResponseParser σ → Connection → Prop
  | 0, _, _, _, _ => True
  | rounds + 1, data, body, parser, connection =>
      ∀ sized left rest,
        recvSize machine buffSize data parser connection = .ok (some (sized, left), rest) →
          SizeFits sized.parser.contentLen left body rest ∧
          ∀ left' body' rest', recvChunk buffSize sized.parser.contentLen left body rest =
            .ok (some (left', body'), rest') →
              sized.parser.chunksDone = false → SizesFit rounds left' body' sized rest'

variable {machine} {buffSize}

/-- The loop over the chunks ends without a fault exactly when their sizes fit. -/
theorem recvChunks_ok_iff (orderly : machine.Orderly) {fuel : Nat} {data body : List UInt8}
    {parser : HttpResponseParser σ} {connection : Connection} (short : data.length < 2 ^ 31)
    (enough : data.length + connection.flatten.length < fuel)
    (fits : recvChunks machine buffSize fuel data body parser connection ≠ .error .overrun) :
    (∃ outcome, recvChunks machine buffSize fuel data body parser connection = .ok outcome) ↔
      SizesFit machine buffSize fuel data body parser connection := by
  induction fuel generalizing data body parser connection with
  | zero => omega
  | succ fuel inductionHypothesis =>
      simp only [recvChunks, SizesFit, bind] at fits ⊢
      rcases recvSize_ok orderly buffSize short parser connection with
        overrun | ⟨answer, rest, sized, bounds⟩
      · rw [overrun] at fits
        exact absurd rfl fits
      · rw [sized] at fits ⊢
        match answer with
        | none => exact ⟨fun _ _ _ _ => nofun, fun _ => ⟨_, rfl⟩⟩
        | some (sized, left) =>
            obtain ⟨small, fewer⟩ := bounds sized left rfl
            simp only [Except.bind] at fits ⊢
            have received : (∃ outcome,
                recvChunk buffSize sized.parser.contentLen left body rest = .ok outcome) ↔
                  SizeFits sized.parser.contentLen left body rest :=
              recvChunk_ok_iff fun overrun => by rw [overrun] at fits; exact fits rfl
            constructor
            · rintro ⟨outcome, ran⟩ _ _ _ ⟨⟩
              match chunk : recvChunk buffSize sized.parser.contentLen left body rest with
              | .error fault =>
                  rw [chunk] at ran
                  cases ran
              | .ok (answer, later) =>
                  refine ⟨received.mp ⟨_, chunk⟩, ?_⟩
                  rintro left' body' rest' ⟨⟩ ongoing
                  have bounded := recvChunk_left chunk
                  rw [chunk] at ran fits
                  simp only [ongoing] at ran fits
                  exact (inductionHypothesis (by omega) (by omega) fits).mp ⟨outcome, ran⟩
            · intro sizesFit
              obtain ⟨sizeFits, later⟩ := sizesFit sized left rest rfl
              obtain ⟨⟨answer, rest'⟩, chunk⟩ := received.mpr sizeFits
              rw [chunk] at fits ⊢
              match answer with
              | none => exact ⟨_, rfl⟩
              | some (left', body') =>
                  have bounded := recvChunk_left chunk
                  have onward := later left' body' rest' chunk
                  cases done : sized.parser.chunksDone with
                  | true => exact ⟨_, if_pos rfl⟩
                  | false =>
                      simp only [done] at fits ⊢
                      exact (inductionHypothesis (by omega) (by omega) fits).mpr (onward done)

end Rounds

section Response

theorem readLeft_ok (left : Nat) (connection : Connection) :
    readLeft left connection = .error .overrun ∨
      ∃ outcome, readLeft left connection = .ok outcome := by
  induction connection generalizing left with
  | nil => exact .inr ⟨_, rfl⟩
  | cons result rest inductionHypothesis =>
      rw [readLeft]
      split
      · exact .inr ⟨_, rfl⟩
      · split
        · exact .inl rfl
        · split
          · exact .inr ⟨_, rfl⟩
          · rcases inductionHypothesis (left - result.length) with overrun | ⟨outcome, read⟩
            · rw [overrun]
              exact .inl rfl
            · rw [read]
              exact .inr ⟨_, rfl⟩

theorem readFixSize_ok (length : Nat) (connection : Connection) :
    readFixSize length connection = .error .overrun ∨
      ∃ outcome, readFixSize length connection = .ok outcome := by
  unfold readFixSize
  rcases readLeft_ok length connection with overrun | ⟨⟨answer, rest⟩, read⟩
  · rw [overrun]
    exact .inl rfl
  · rw [read]
    cases answer with
    | none => exact .inr ⟨_, rfl⟩
    | some bytes => exact .inr ⟨_, rfl⟩

theorem recvBody_ok (length : Int) (data : List UInt8) (connection : Connection) :
    recvBody length data connection = .error .overrun ∨
      ∃ outcome, recvBody length data connection = .ok outcome := by
  simp only [recvBody]
  split
  · split
    · rcases readFixSize_ok (length - data.length).toNat connection with
        overrun | ⟨⟨result, more, rest⟩, read⟩
      · rw [overrun]
        exact .inl rfl
      · rw [read]
        simp only [bind, Except.bind]
        split
        · exact .inr ⟨_, rfl⟩
        · exact .inr ⟨_, rfl⟩
    · exact .inr ⟨_, rfl⟩
  · exact .inr ⟨_, rfl⟩

variable (machine) (lexicalCast : List UInt8 → Option UInt64)
  (gunzip inflate : List UInt8 → List UInt8) (buffSize : Nat)

/-- The sizes of the chunks of a response fit, when it is chunked. -/
def ResponseSizesFit (connection : Connection) : Prop :=
  ∀ parser data rest,
    recvHead machine buffSize false [] (.new machine) connection =
      .ok (some (parser, data), rest) →
    parser.parser.chunked = true →
      SizesFit machine buffSize (fuel data rest) data [] parser rest

variable {machine}

/-- On every stream, however it is cut into results of `read`, `recvResponse`
returns without having touched a byte outside its buffer or behind those received,
without an overflow and without an exception, if and only if the sizes of the
chunks that it takes fit. -/
theorem recvResponse_safe_iff (orderly : machine.Orderly) (connection : Connection)
    (fits : recvResponse machine lexicalCast gunzip inflate buffSize connection ≠
      .error .overrun) :
    (∃ outcome,
        recvResponse machine lexicalCast gunzip inflate buffSize connection = .ok outcome) ↔
      ResponseSizesFit machine buffSize connection := by
  simp only [recvResponse, ResponseSizesFit, bind] at fits ⊢
  rcases recvHead_ok orderly buffSize false (.new machine) connection with
    overrun | ⟨answer, rest, received, bounds⟩
  · rw [overrun] at fits
    exact absurd rfl fits
  · rw [received] at fits ⊢
    match answer with
    | none => exact ⟨fun _ _ _ _ => nofun, fun _ => ⟨_, rfl⟩⟩
    | some (parser, data) =>
        obtain ⟨small, _⟩ := bounds parser data rfl
        simp only [Except.bind] at fits ⊢
        generalize (parser.getContentLength lexicalCast).toInt64.toInt = length at fits ⊢
        cases chunked : parser.parser.chunked with
        | false =>
            refine ⟨fun _ => ?_, fun _ => ?_⟩
            · rintro _ _ _ ⟨⟩ claimed
              rw [chunked] at claimed
              cases claimed
            · rw [chunked, if_neg Bool.false_ne_true] at fits
              rw [if_neg Bool.false_ne_true]
              rcases recvBody_ok length data rest with overrun | ⟨⟨answer, later⟩, read⟩
              · rw [overrun] at fits
                exact absurd rfl fits
              · rw [read]
                cases answer with
                | none => exact ⟨_, rfl⟩
                | some body => exact ⟨_, rfl⟩
        | true =>
            rw [chunked, if_pos rfl] at fits
            rw [if_pos rfl]
            have rounds : (∃ outcome,
                recvChunks machine buffSize (fuel data rest) data [] parser rest = .ok outcome) ↔
                  SizesFit machine buffSize (fuel data rest) data [] parser rest :=
              recvChunks_ok_iff orderly small (Nat.lt_succ_self _) fun overrun => by
                rw [overrun] at fits
                exact fits rfl
            constructor
            · rintro ⟨outcome, returned⟩ _ _ _ ⟨⟩ _
              refine rounds.mp ?_
              match ran : recvChunks machine buffSize (fuel data rest) data [] parser rest with
              | .error fault =>
                  rw [ran] at returned
                  cases returned
              | .ok outcome => exact ⟨outcome, rfl⟩
            · intro sizesFit
              obtain ⟨⟨answer, later⟩, ran⟩ := rounds.mpr (sizesFit parser data rest rfl chunked)
              rw [ran]
              cases answer with
              | none => exact ⟨_, rfl⟩
              | some taken => exact ⟨_, rfl⟩

/-- A chunk of two bytes that comes with its size, and the end of the body. -/
theorem recvResponse_safe_twoBytes :
    ResponseSizesFit lineMachine 64
      [bytes "HTTP/1.1 200 OK\r\nTransfer-Encoding: chunked\r\n\r\n",
        bytes "2\r\nab\r\n", bytes "0\r\n\r\n"] := by
  have returns : ∃ outcome, recvResponse lineMachine (fun _ => none) id id 64
      [bytes "HTTP/1.1 200 OK\r\nTransfer-Encoding: chunked\r\n\r\n",
        bytes "2\r\nab\r\n", bytes "0\r\n\r\n"] = .ok outcome := ⟨_, rfl⟩
  refine (recvResponse_safe_iff _ _ _ _ lineMachine_orderly _ ?_).mp returns
  obtain ⟨outcome, returned⟩ := returns
  rw [returned]
  exact nofun

/-- A server sends the size 80000000: the length that is appended is negative. -/
theorem recvResponse_unsafe_negative :
    ¬∀ connection, recvResponse lineMachine (fun _ => none) id id 64 connection ≠
        .error .overrun →
      ∃ outcome, recvResponse lineMachine (fun _ => none) id id 64 connection = .ok outcome := by
  intro safe
  have ran : recvResponse lineMachine (fun _ => none) id id 64
      [bytes "HTTP/1.1 200 OK\r\nTransfer-Encoding: chunked\r\n\r\n",
        bytes "80000000\r\n"] = .error .lengthError := rfl
  obtain ⟨outcome, returned⟩ := safe _ (by rw [ran]; exact nofun)
  rw [ran] at returned
  cases returned

end Response

end Sylar.Http.HttpConnection
