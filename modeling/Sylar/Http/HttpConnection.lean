import Sylar.Http.ResponseParser
import Sylar.Http.Session

/-!
# Receiving responses

`HttpConnection::recvResponse`. The buffer has `buffSize + 1` bytes, of which a
list holds those that were received and not yet used. The three nested loops of
a chunked body are the functions `recvHead`, `recvSize` and `recvChunks`; the
innermost is the loop that also reads the head.
-/

namespace Sylar.Http.HttpConnection

section

variable {σ : Type} (machine : Machine ClientAct σ) (buffSize : Nat)

/-- What follows a read: the bytes are parsed. `none` when the connection is
closed and null is returned. -/
def parse (chunck : Bool) (data : List UInt8) (parser : HttpResponseParser σ) :
    Except Fault (Option (HttpResponseParser σ × List UInt8)) := do
  let (parser, _, data) ← parser.execute machine data chunck
  if parser.hasError then return none
  else if (data.length : Int) = toInt buffSize then return none
  else return some (parser, data)

/-- The loop that reads a head, or with `chunck` the line with the size of a chunk. -/
def recvHead (chunck : Bool) (data : List UInt8) (parser : HttpResponseParser σ) :
    Connection → Except Fault (Option (HttpResponseParser σ × List UInt8) × Connection)
  | [] => return (none, [])
  | result :: rest => do
      if buffSize - data.length < result.length ∨ 2 ^ 31 ≤ result.length then throw .overrun
      else if result = [] then return (none, [])
      else if 2 ^ 31 ≤ data.length + result.length then throw .overflow
      else
        match ← parse machine buffSize chunck (data ++ result) parser with
        | none => return (none, [])
        | some (parser, data) =>
            if parser.isFinished machine ≠ 0 then return (some (parser, data), rest)
            else recvHead chunck data parser rest

/-- The loop over `isFinished` in a chunked body. It starts with what is in the
buffer, unless that is empty. -/
def recvSize (data : List UInt8) (parser : HttpResponseParser σ) (connection : Connection) :
    Except Fault (Option (HttpResponseParser σ × List UInt8) × Connection) := do
  if data = [] then recvHead machine buffSize true [] parser connection
  else
    match ← parse machine buffSize true data parser with
    | none => return (none, [])
    | some (parser, data) =>
        if parser.isFinished machine ≠ 0 then return (some (parser, data), connection)
        else recvHead machine buffSize true data parser connection

/-- The loop that appends `left` more bytes to the body. -/
def appendLeft (left : Int) (body : List UInt8) :
    Connection → Except Fault (Option (List UInt8) × Connection)
  | [] => return (if left > 0 then none else some body, [])
  | result :: rest =>
      if left ≤ 0 then return (some body, result :: rest)
      else
        -- an `int` that becomes a `size_t`
        let length := (min left (toInt buffSize) % 2 ^ 64).toNat
        if length < result.length ∨ 2 ^ 31 ≤ result.length then throw .overrun
        else if buffSize + 1 < result.length then throw .outOfBounds
        else if result = [] then return (none, [])
        else appendLeft (left - result.length) (body ++ result) rest

/-- A chunk of the size that was parsed goes to the body. -/
def recvChunk (contentLen : Int) (data body : List UInt8) (connection : Connection) :
    Except Fault (Option (List UInt8 × List UInt8) × Connection) := do
  if 2 ^ 31 ≤ contentLen + 2 then throw .overflow
  else if contentLen + 2 ≤ data.length then
    -- as a `size_t` a negative length exceeds `max_size`
    if contentLen < 0 then throw .lengthError
    else
      return (some (data.drop (contentLen.toNat + 2), body ++ data.take contentLen.toNat),
        connection)
  else
    match ← appendLeft buffSize (contentLen - data.length + 2) (body ++ data) connection with
    | (none, _) => return (none, [])
    | (some body, connection) =>
        if body.length < 2 then throw .lengthError
        else return (some ([], body.take (body.length - 2)), connection)

/-- The loop over the chunks, in at most as many rounds as `fuel`. -/
def recvChunks : Nat → List UInt8 → List UInt8 → HttpResponseParser σ → Connection →
    Except Fault (Option (HttpResponseParser σ × List UInt8) × Connection)
  | 0, _, _, _, _ => throw .outOfFuel
  | fuel + 1, data, body, parser, connection => do
      match ← recvSize machine buffSize data parser connection with
      | (none, _) => return (none, [])
      | (some (parser, data), connection) =>
          match ← recvChunk buffSize parser.parser.contentLen data body connection with
          | (none, _) => return (none, [])
          | (some (data, body), connection) =>
              if parser.parser.chunksDone then return (some (parser, body), connection)
              else recvChunks fuel data body parser connection

/-- Every round takes a byte, of those that are buffered or still to come. -/
def fuel (data : List UInt8) (connection : Connection) : Nat :=
  data.length + connection.flatten.length + 1

/-- The body of a response that is not chunked, of `length` bytes. -/
def recvBody (length : Int) (data : List UInt8) (connection : Connection) :
    Except Fault (Option (List UInt8) × Connection) := do
  if length > 0 then
    -- `memcpy` of what was read already
    let copied := if length ≥ data.length then data else data.take length.toNat
    let length := length - data.length
    if length > 0 then
      let (result, more, connection) ← readFixSize length.toNat connection
      if result ≤ 0 then return (none, [])
      else return (some (copied ++ more), connection)
    else return (some copied, connection)
  else return (some [], connection)

end

section

variable {σ : Type} (machine : Machine ClientAct σ) (lexicalCast : List UInt8 → Option UInt64)
  (gunzip inflate : List UInt8 → List UInt8) (buffSize : Nat)

/-- The decoding of the body; `gunzip` and `inflate` are those of `ZlibStream`. -/
def decode (response : HttpResponse) (body : List UInt8) : HttpResponse :=
  if body = [] then response
  else
    let contentEncoding := response.getHeader (bytes "content-encoding") []
    if strcasecmp contentEncoding (bytes "gzip") = .eq then response.setBody (gunzip body)
    else if strcasecmp contentEncoding (bytes "deflate") = .eq then
      response.setBody (inflate body)
    else response.setBody body

/-- `recvResponse`; `none` stands for null. -/
def recvResponse (connection : Connection) :
    Except Fault (Option HttpResponse × Connection) := do
  match ← recvHead machine buffSize false [] (.new machine) connection with
  | (none, connection) => return (none, connection)
  | (some (parser, data), connection) =>
      if parser.parser.chunked then
        match ← recvChunks machine buffSize (fuel data connection) data [] parser connection with
        | (none, connection) => return (none, connection)
        | (some (parser, body), connection) =>
            return (some (decode gunzip inflate parser.data body), connection)
      else
        let length := (parser.getContentLength lexicalCast).toInt64.toInt
        match ← recvBody length data connection with
        | (none, connection) => return (none, connection)
        | (some body, connection) =>
            return (some (decode gunzip inflate parser.data body), connection)

end

/-- A response that names no encoding of its content. -/
def Plain (response : HttpResponse) : Prop :=
  strcasecmp (response.getHeader (bytes "content-encoding") []) (bytes "gzip") ≠ .eq ∧
    strcasecmp (response.getHeader (bytes "content-encoding") []) (bytes "deflate") ≠ .eq

theorem decode_body {gunzip inflate : List UInt8 → List UInt8} {response : HttpResponse}
    (plain : Plain response) (empty : response.body = []) (body : List UInt8) :
    (decode gunzip inflate response body).body = body := by
  unfold decode
  split
  · rename_i nothing
    rw [empty, nothing]
  · rw [if_neg plain.1, if_neg plain.2]
    rfl

end Sylar.Http.HttpConnection
