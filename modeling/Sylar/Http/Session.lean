import Sylar.Http.Parser

/-!
# Receiving requests

`HttpSession::recvRequest` and what it calls of `stream.cpp`. A connection is the
list of the results that `read` will return; after the last one it is closed. A
result that is longer than what `read` was asked for does not exist.
-/

namespace Sylar.Http

/-- The results of `read` to come. -/
abbrev Connection := List (List UInt8)

/-- The conversion of a `size_t` to `int`. -/
def toInt (length : Nat) : Int := Int.bmod length (2 ^ 32)

/-- The loop of `readFixSize`; `none` when `read` returns 0 or less. -/
def readLeft (left : Nat) : Connection → Except Fault (Option (List UInt8) × Connection)
  | [] => return (if left = 0 then some [] else none, [])
  | result :: rest =>
      if left = 0 then return (some [], result :: rest)
      else if left < result.length then throw .overrun
      else if result = [] then return (none, rest)
      else do
        let (more, rest) ← readLeft (left - result.length) rest
        return (more.map (result ++ ·), rest)

/-- `readFixSize`: its result, and the bytes in the buffer. -/
def readFixSize (length : Nat) (connection : Connection) :
    Except Fault (Int × List UInt8 × Connection) := do
  match ← readLeft length connection with
  | (none, rest) => return (0, [], rest)
  | (some bytes, rest) => return (toInt length, bytes, rest)

section

variable {σ : Type} (machine : Machine Act σ)
  (lexicalCast : List UInt8 → Option UInt64) (buffSize : Nat)

/-- The loop that reads the head, with the bytes of the buffer that are not yet
parsed. `none` when the connection is closed and null is returned. -/
def recvHead (data : List UInt8) (parser : HttpRequestParser σ) :
    Connection → Except Fault (Option (HttpRequestParser σ × List UInt8) × Connection)
  | [] => return (none, [])
  | result :: rest =>
      if buffSize - data.length < result.length then throw .overrun
      else if result = [] then return (none, [])
      else do
        let (parser, _, data) ← parser.execute machine (data ++ result)
        if parser.hasError then return (none, [])
        -- what `memmove` left in front is `len - nparse` bytes long
        else if (data.length : Int) = toInt buffSize then return (none, [])
        else if parser.isFinished machine ≠ 0 then return (some (parser, data), rest)
        else recvHead data parser rest

/-- The part of `recvRequest` after the head: the body. -/
def recvBody (parser : HttpRequestParser σ) (data : List UInt8) (connection : Connection) :
    Except Fault (Option HttpRequest × Connection) := do
  let length : Int := Int.bmod (parser.getContentLength lexicalCast).toNat (2 ^ 64)
  if length > 0 then
    -- `memcpy` of what was read already
    let copied := if length ≥ data.length then data else data.take length.toNat
    let length := length - data.length
    if length > 0 then
      let (result, more, connection) ← readFixSize length.toNat connection
      if result ≤ 0 then return (none, [])
      else return (some ((parser.data.setBody (copied ++ more)).init), connection)
    else return (some ((parser.data.setBody copied).init), connection)
  else return (some parser.data.init, connection)

/-- `recvRequest`; `none` stands for null. -/
def recvRequest (connection : Connection) : Except Fault (Option HttpRequest × Connection) := do
  match ← recvHead machine buffSize [] (.new machine) connection with
  | (none, connection) => return (none, connection)
  | (some (parser, data), connection) => recvBody lexicalCast parser data connection

/-- Successive calls of `recvRequest`, in the loop of `handleClient`. -/
def recvRequests : Nat → Connection → Except Fault (List (Option HttpRequest) × Connection)
  | 0, connection => return ([], connection)
  | count + 1, connection => do
      let (request, connection) ← recvRequest machine lexicalCast buffSize connection
      let (requests, connection) ← recvRequests count connection
      return (request :: requests, connection)

end

/-! ### The size of a body

`recvRequest` gives the length that it is told to `resize`, before it reads the body. -/

/-- What a call of `recvRequest` comes to, and the length that `resize` was given. -/
structure Outcome where
  resized : Option Nat
  result : Except Fault (Option HttpRequest × Connection)

section

variable {σ : Type} (machine : Machine Act σ) (lexicalCast : List UInt8 → Option UInt64)
  (buffSize maxSize : Nat)

/-- The body: `recvBody`, behind `body.resize(length)`, which throws above `maxSize`. -/
def recvBodyResized (parser : HttpRequestParser σ) (data : List UInt8) (connection : Connection) :
    Outcome :=
  let length : Int := Int.bmod (parser.getContentLength lexicalCast).toNat (2 ^ 64)
  if length > 0 then
    { resized := some length.toNat
      result :=
        if maxSize < length.toNat then .error .lengthError
        else recvBody lexicalCast parser data connection }
  else { resized := none, result := recvBody lexicalCast parser data connection }

/-- `recvRequest`. -/
def recvRequestResized (connection : Connection) : Outcome :=
  match recvHead machine buffSize [] (.new machine) connection with
  | .error fault => ⟨none, .error fault⟩
  | .ok (none, connection) => ⟨none, .ok (none, connection)⟩
  | .ok (some (parser, data), connection) =>
      recvBodyResized lexicalCast maxSize parser data connection

end

end Sylar.Http
