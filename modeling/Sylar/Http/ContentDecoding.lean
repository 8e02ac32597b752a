import Sylar.Http.HttpConnection
import Sylar.Http.ContentLength
import Sylar.Stream.Decompression

/-!
# Bodies that are compressed

`recvResponse` decompresses a body by calls of `write` and `flush` whose results it does not look
at. What they gave is the body, also where the compressed data are corrupt or cut off.
-/

namespace Sylar.Http.HttpConnection

open ZlibStream

variable {σ τ : Type}

section Model

/-- What `recvResponse` received before it decodes the body: the response, and the body. -/
def recvMessage (machine : Machine ClientAct σ) (lexicalCast : List UInt8 → Option UInt64)
    (buffSize : Nat) (connection : Connection) :
    Except Fault (Option (HttpResponse × List UInt8) × Connection) := do
  match ← recvHead machine buffSize false [] (.new machine) connection with
  | (none, connection) => return (none, connection)
  | (some (parser, data), connection) =>
      if parser.parser.chunked then
        match ← recvChunks machine buffSize (fuel data connection) data [] parser connection with
        | (none, connection) => return (none, connection)
        | (some (parser, body), connection) => return (some (parser.data, body), connection)
      else
        let length := (parser.getContentLength lexicalCast).toInt64.toInt
        match ← recvBody length data connection with
        | (none, connection) => return (none, connection)
        | (some body, connection) => return (some (parser.data, body), connection)

/-- What is made for the encoding of the content, of what is for gzip and what for deflate. -/
def contentDecoder {α : Type} (gzip deflate : α) (response : HttpResponse) : Option α :=
  let contentEncoding := response.getHeader (bytes "content-encoding") []
  if strcasecmp contentEncoding (bytes "gzip") = .eq then some gzip
  else if strcasecmp contentEncoding (bytes "deflate") = .eq then some deflate
  else none

/-- `CreateGzip(false)` and `CreateDeflate(false)`, from the state that `inflateInit2` sets up. -/
def decoder (initial : τ) : ZlibStream τ := ⟨initial, 4096, false, []⟩

/-- `write` of the body and `flush`. -/
def decompress (zlib : Zlib τ) (fuel : Nat) (initial : τ) (body : List UInt8) :
    Option (Transcript τ) :=
  session zlib fuel [.write [body], .flush] (decoder initial)

end Model

section Claims

/-- A function gives the result of the `ZlibStream` for every body, in `fuel` rounds. -/
def Inflates (zlib : Zlib τ) (fuel : List UInt8 → Nat) (initial : τ)
    (inflated : List UInt8 → List UInt8) : Prop :=
  ∀ body, ∃ transcript, decompress zlib (fuel body) initial body = some transcript ∧
    transcript.stream.getResult = inflated body

/-- A body that was compressed is returned only if what was decompressed is complete. -/
def BodiesComplete (machine : Machine ClientAct σ) (lexicalCast : List UInt8 → Option UInt64)
    (zlib : Zlib τ) (fuel : List UInt8 → Nat) (gzip deflate : τ)
    (gunzip inflate : List UInt8 → List UInt8) (buffSize : Nat) (connection : Connection) : Prop :=
  ∀ response rest,
    recvResponse machine lexicalCast gunzip inflate buffSize connection =
      .ok (some response, rest) →
    ∃ head body, recvMessage machine lexicalCast buffSize connection =
        .ok (some (head, body), rest) ∧
      (body ≠ [] → ∀ initial ∈ contentDecoder gzip deflate head,
        ∃ transcript, decompress zlib (fuel body) initial body = some transcript ∧
          Complete transcript.results ∧ response.body = transcript.stream.getResult)

/-- What is received is not empty and compressed, or zlib decompresses it completely. -/
def Decompressible (machine : Machine ClientAct σ) (lexicalCast : List UInt8 → Option UInt64)
    (zlib : Zlib τ) (fuel : List UInt8 → Nat) (gzip deflate : τ) (buffSize : Nat)
    (connection : Connection) : Prop :=
  ∀ head body rest,
    recvMessage machine lexicalCast buffSize connection = .ok (some (head, body), rest) →
    body ≠ [] → ∀ initial ∈ contentDecoder gzip deflate head, ∀ transcript,
      decompress zlib (fuel body) initial body = some transcript → Complete transcript.results

end Claims

variable {machine : Machine ClientAct σ} {lexicalCast : List UInt8 → Option UInt64}
  {gunzip inflate : List UInt8 → List UInt8} {buffSize : Nat}

/-- The decoding is the last step of `recvResponse`. -/
theorem recvResponse_eq (connection : Connection) :
    recvResponse machine lexicalCast gunzip inflate buffSize connection =
      (recvMessage machine lexicalCast buffSize connection).map fun received =>
        (received.1.map fun message => decode gunzip inflate message.1 message.2, received.2) := by
  unfold recvResponse recvMessage
  cases recvHead machine buffSize false [] (.new machine) connection with
  | error fault => rfl
  | ok head =>
      obtain ⟨_ | ⟨parser, data⟩, connection⟩ := head
      · rfl
      · simp only [bind, Except.bind]
        split
        · cases recvChunks machine buffSize (fuel data connection) data [] parser connection with
          | error fault => rfl
          | ok chunks =>
              obtain ⟨_ | ⟨parser, body⟩, connection⟩ := chunks <;> rfl
        · cases recvBody (parser.getContentLength lexicalCast).toInt64.toInt data connection with
          | error fault => rfl
          | ok received =>
              obtain ⟨_ | body, connection⟩ := received <;> rfl

/-- A body for which there is a decoder is what that gives. -/
theorem decode_compressed {head : HttpResponse} {body : List UInt8} (some_ : body ≠ []) {α : Type}
    {gzip deflate initial : α} (chosen : contentDecoder gzip deflate head = some initial) :
    ((decode gunzip inflate head body).body = gunzip body ∧ initial = gzip) ∨
      ((decode gunzip inflate head body).body = inflate body ∧ initial = deflate) := by
  unfold contentDecoder at chosen
  unfold decode
  rw [if_neg some_]
  by_cases gzipped : strcasecmp (head.getHeader (bytes "content-encoding") []) (bytes "gzip") = .eq
  · simp only [if_pos gzipped] at chosen ⊢
    exact .inl ⟨rfl, (Option.some.inj chosen).symm⟩
  · simp only [if_neg gzipped] at chosen ⊢
    split at chosen
    · rename_i deflated
      rw [if_pos deflated]
      exact .inr ⟨rfl, (Option.some.inj chosen).symm⟩
    · cases chosen

/-- The bodies that are returned are complete if and only if what was received can be
decompressed. -/
theorem bodiesComplete_iff {zlib : Zlib τ} {rounds : List UInt8 → Nat} {gzip deflate : τ}
    (gunzips : Inflates zlib rounds gzip gunzip) (inflates : Inflates zlib rounds deflate inflate)
    (connection : Connection) :
    BodiesComplete machine lexicalCast zlib rounds gzip deflate gunzip inflate buffSize
        connection ↔
      Decompressible machine lexicalCast zlib rounds gzip deflate buffSize connection := by
  rw [BodiesComplete, Decompressible, recvResponse_eq]
  constructor
  · intro complete head body rest received some_ initial chosen transcript decompressed
    rw [received] at complete
    obtain ⟨head', body', same, there⟩ := complete _ rest rfl
    cases same
    obtain ⟨transcript', decompressed', results, -⟩ := there some_ initial chosen
    rw [decompressed] at decompressed'
    cases decompressed'
    exact results
  · intro decompressible response rest returned
    cases received : recvMessage machine lexicalCast buffSize connection with
    | error fault =>
        rw [received] at returned
        cases returned
    | ok message =>
        obtain ⟨_ | ⟨head, body⟩, left⟩ := message
        · rw [received] at returned
          cases returned
        · rw [received] at returned
          cases returned
          refine ⟨head, body, rfl, fun some_ initial chosen => ?_⟩
          have complete := decompressible head body _ received some_ initial chosen
          rcases decode_compressed some_ chosen with ⟨whole, rfl⟩ | ⟨whole, rfl⟩
          · obtain ⟨transcript, decompressed, result⟩ := gunzips body
            exact ⟨transcript, decompressed, complete transcript decompressed,
              whole.trans result.symm⟩
          · obtain ⟨transcript, decompressed, result⟩ := inflates body
            exact ⟨transcript, decompressed, complete transcript decompressed,
              whole.trans result.symm⟩

/-- Calls of a `ZlibStream` report what is corrupt if and only if zlib returned `Z_STREAM_ERROR`
or there is nothing to report. `recvResponse` reports nothing: the bodies that it returns are
complete if and only if what was received can be decompressed. -/
theorem corruption_iff {zlib : Zlib τ} {rounds : List UInt8 → Nat} {gzip deflate : τ}
    (gunzips : Inflates zlib rounds gzip gunzip)
    (inflates : Inflates zlib rounds deflate inflate) :
    (∀ fuel requests stream transcript, session zlib fuel requests stream = some transcript →
      (Reported transcript ↔
        .streamError ∈ transcript.results ∨ Complete transcript.results)) ∧
    ∀ (machine : Machine ClientAct σ) lexicalCast buffSize connection,
      BodiesComplete machine lexicalCast zlib rounds gzip deflate gunzip inflate buffSize
          connection ↔
        Decompressible machine lexicalCast zlib rounds gzip deflate buffSize connection :=
  ⟨fun _ _ _ _ ran => reported_iff ran,
    fun _ _ _ connection => bodiesComplete_iff gunzips inflates connection⟩

/-- `inflate` of a body that is cut off in its header: it is taken, and nothing comes out. -/
def cutOff : Coder Bool := fun started _ input _ =>
  .all (if started then .bufError else .ok) input [] true (Nat.zero_le _)

/-- A zlib that gives nothing for a text that is cut off. -/
def cutOffZlib : Zlib Bool := ⟨cutOff, id, cutOff, id⟩

theorem inflates_cutOff : Inflates cutOffZlib (fun _ => 1) false fun _ => [] :=
  fun _ => ⟨_, rfl, rfl⟩

/-- A gzip body of one byte. -/
def oneByteBody : Connection :=
  [bytes "HTTP/1.1 200 OK\r\nContent-Encoding: gzip\r\nContent-Length: 1\r\n\r\n", [31]]

/-- The one byte is decompressed to nothing, and that is returned as the body. -/
theorem not_bodiesComplete_oneByte :
    ¬ BodiesComplete lineMachine decimal cutOffZlib (fun _ => 1) false false (fun _ => [])
      (fun _ => []) 64 oneByteBody := by
  intro complete
  have decompressible := ((corruption_iff inflates_cutOff inflates_cutOff).2 lineMachine decimal 64
    oneByteBody).1 complete
  obtain ⟨head, received, chosen⟩ : ∃ head,
      recvMessage lineMachine decimal 64 oneByteBody = .ok (some (head, [31]), []) ∧
      contentDecoder false false head = some false := ⟨_, rfl, rfl⟩
  have results := decompressible head [31] [] received (by decide) false chosen _ rfl
  exact absurd results.ended (by decide)

/-- `write` of one byte and `flush` return `Z_OK`, and the stream did not end. -/
theorem not_reported_cutOff :
    ¬ ∀ transcript, session cutOffZlib 1 [.write [[31]], .flush] (decoder false) = some transcript →
      Reported transcript := by
  intro reported
  have complete := reported _ rfl (by decide)
  exact absurd complete.ended (by decide)

end Sylar.Http.HttpConnection
