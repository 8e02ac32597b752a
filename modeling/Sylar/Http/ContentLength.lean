import Sylar.Http.ChunkSizes

/-!
# Bodies with a length

`HttpResponse::getHeaderAs` returns a `bool`, so that the length of the content is
0 or 1, and no more than one byte of a body is received.
-/

namespace Sylar.Http.HttpConnection

open Library (isDigit numeral)

variable {σ : Type} {machine : Machine ClientAct σ} {buffSize : Nat}

/-- A head with a length of its content. -/
def HasLength (lexicalCast : List UInt8 → Option UInt64) (response : HttpResponse)
    (length : UInt64) : Prop :=
  ∃ text, response.headers[bytes "content-length"]? = some text ∧ lexicalCast text = some length

/-- The length that is received is 1 for every length but 0. -/
theorem getContentLength_eq {lexicalCast : List UInt8 → Option UInt64} {length : UInt64}
    {p : HttpResponseParser σ} (hasLength : HasLength lexicalCast p.data length) :
    (p.getContentLength lexicalCast).toInt64.toInt = if length = 0 then 0 else 1 := by
  obtain ⟨text, present, cast⟩ := hasLength
  simp only [HttpResponseParser.getContentLength, HttpResponse.getHeaderAs, present, cast,
    Option.getD_some]
  by_cases zero : length = 0
  · rw [if_pos zero, if_neg (by simp [zero])]
    rfl
  · rw [if_neg zero, if_pos (by simpa using zero)]
    rfl

/-- A body of one byte, from the buffer or from the next result of `read`. -/
theorem recvBody_one {data : List UInt8} {connection : Connection}
    (nonempty : ∀ result ∈ connection, result ≠ [])
    (enough : 1 ≤ data.length + connection.flatten.length)
    (fits : recvBody 1 data connection ≠ .error .overrun) :
    ∃ rest, recvBody 1 data connection =
      .ok (some ((data ++ connection.flatten).take 1), rest) := by
  have unbuffered : recvBody 1 [] connection = (readFixSize 1 connection).bind
      fun answer => if answer.1 ≤ 0 then .ok (none, []) else .ok (some answer.2.1, answer.2.2) :=
    rfl
  rcases data with _ | ⟨first, _ | ⟨second, more⟩⟩
  · rcases connection with _ | ⟨result, rest⟩
    · cases enough
    · rcases result with _ | ⟨byte, _ | ⟨second, more⟩⟩
      · exact absurd rfl (nonempty [] List.mem_cons_self)
      · -- the result of `read` has the one byte
        have read : readLeft 1 ([byte] :: rest) = .ok (some [byte], rest) := by
          cases rest with
          | nil => rfl
          | cons result rest => rfl
        have fixed : readFixSize 1 ([byte] :: rest) = .ok (1, [byte], rest) := by
          unfold readFixSize
          rw [read]
          rfl
        refine ⟨rest, ?_⟩
        rw [unbuffered, fixed]
        rfl
      · have read : readLeft 1 ((byte :: second :: more) :: rest) = .error .overrun := by
          rw [readLeft, if_neg Nat.one_ne_zero, if_pos (by simp)]
          rfl
        have fixed : readFixSize 1 ((byte :: second :: more) :: rest) = .error .overrun := by
          unfold readFixSize
          rw [read]
          rfl
        rw [unbuffered, fixed] at fits
        exact absurd rfl fits
  · exact ⟨connection, rfl⟩
  · refine ⟨connection, ?_⟩
    rw [recvBody, if_pos Int.one_pos]
    simp only [List.length_cons]
    rw [if_neg (by omega), if_neg (by omega)]
    rfl

/-- A response that is not chunked, and is not encoded, has the bytes after the head
for its body if and only if the length of its content is at most 1. -/
theorem recvResponse_contentLength_iff {lexicalCast : List UInt8 → Option UInt64}
    (gunzip inflate : List UInt8 → List UInt8) {first data : List UInt8} {rest : Connection}
    (nonempty : ∀ result ∈ rest, result ≠ []) {parser : HttpResponseParser σ}
    (head : recvHead machine buffSize false [] (.new machine) (first :: rest) =
      .ok (some (parser, data), rest))
    (whole : parser.parser.chunked = false) (plain : Plain parser.data) {length : UInt64}
    (hasLength : HasLength lexicalCast parser.data length)
    (enough : length.toNat ≤ data.length + rest.flatten.length)
    (fits : recvResponse machine lexicalCast gunzip inflate buffSize (first :: rest) ≠
      .error .overrun) :
    (∃ response later,
      recvResponse machine lexicalCast gunzip inflate buffSize (first :: rest) =
        .ok (some response, later) ∧
      response.body = (data ++ rest.flatten).take length.toNat) ↔ length.toNat ≤ 1 := by
  obtain ⟨_, empty, _⟩ := recvHead_some (Nat.zero_le _) head
  simp only [recvResponse, bind] at fits ⊢
  rw [head] at fits ⊢
  simp only [Except.bind] at fits ⊢
  rw [if_neg (by simp [whole]), getContentLength_eq hasLength] at fits ⊢
  by_cases zero : length = 0
  · subst zero
    refine iff_of_true ⟨_, rest, rfl, ?_⟩ (Nat.zero_le 1)
    rw [decode_body plain empty]
    rfl
  · have positive : 1 ≤ length.toNat := Nat.one_le_iff_ne_zero.mpr fun same =>
      zero (UInt64.toNat_inj.mp same)
    rw [if_neg zero] at fits ⊢
    obtain ⟨later, received⟩ := recvBody_one nonempty (positive.trans enough) fun overrun => by
      rw [overrun] at fits
      exact fits rfl
    rw [received]
    constructor
    · rintro ⟨response, _, ⟨⟩, body⟩
      have counted := congrArg List.length body
      rw [decode_body plain empty, List.length_take, List.length_take, List.length_append] at counted
      omega
    · intro atMost
      refine ⟨_, later, rfl, ?_⟩
      rw [decode_body plain empty, Nat.le_antisymm atMost positive]

/-- `lexical_cast` of decimal digits. -/
def decimal (text : List UInt8) : Option UInt64 :=
  if text ≠ [] ∧ text.all (isDigit 10) ∧ numeral 10 text < 2 ^ 64 then
    some (.ofNat (numeral 10 text))
  else none

/-- A body of one byte that is read after the head. -/
theorem recvResponse_contentLength_one :
    ∃ response later,
      recvResponse lineMachine decimal id id 64
        [bytes "HTTP/1.1 200 OK\r\nContent-Length: 1\r\n\r\n", bytes "a"] =
        .ok (some response, later) ∧ response.body = bytes "a" := by
  obtain ⟨parser, head, whole, plain, hasLength⟩ : ∃ parser,
      recvHead lineMachine 64 false [] (.new lineMachine)
        [bytes "HTTP/1.1 200 OK\r\nContent-Length: 1\r\n\r\n", bytes "a"] =
        .ok (some (parser, []), [bytes "a"]) ∧
      parser.parser.chunked = false ∧ Plain parser.data ∧ HasLength decimal parser.data 1 :=
    ⟨_, rfl, rfl, ⟨by decide, by decide⟩, bytes "1", rfl, by decide⟩
  exact (recvResponse_contentLength_iff id id (by decide) head whole plain hasLength (by decide)
    nofun).mpr (by decide)

/-- Of two bytes that come with the head only the first is received. -/
theorem recvResponse_contentLength_two :
    ¬∃ response later,
      recvResponse lineMachine decimal id id 64
        [bytes "HTTP/1.1 200 OK\r\nContent-Length: 2\r\n\r\nab"] = .ok (some response, later) ∧
      response.body = bytes "ab" := by
  rintro ⟨response, later, received, body⟩
  cases received
  exact absurd body (by decide)

end Sylar.Http.HttpConnection
