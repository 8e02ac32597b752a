import Sylar.Http.Parser
import Sylar.Library.Strtol

/-!
# The response parser

`HttpResponse` as far as `recvResponse` uses it, and `HttpResponseParser` of
`http_parser.cpp` with `httpclient_parser_execute` of `httpclient_parser.rl`. The
generated automaton is again a parameter. A head and the line with the size of a
chunk are parsed by the same automaton.
-/

namespace Sylar.Http

open Library (strtol)

structure HttpResponse where
  /-- `HttpStatus`, which any `int` is cast to. -/
  status : Int
  version : UInt8
  body : List UInt8
  reason : List UInt8
  headers : MapType

namespace HttpResponse

def new : HttpResponse where
  status := 200
  version := 0x11
  body := []
  reason := []
  headers := ∅

def setStatus (response : HttpResponse) (v : Int) : HttpResponse := { response with status := v }

def setVersion (response : HttpResponse) (v : UInt8) : HttpResponse :=
  { response with version := v }

def setReason (response : HttpResponse) (v : List UInt8) : HttpResponse :=
  { response with reason := v }

def setBody (response : HttpResponse) (v : List UInt8) : HttpResponse := { response with body := v }

/-- `m_headers[key] = val`. A key that is there keeps its spelling. -/
def setHeader (response : HttpResponse) (key val : List UInt8) : HttpResponse :=
  { response with headers := response.headers.insert (response.headers.getKeyD key key) val }

def getHeader (response : HttpResponse) (key def_ : List UInt8) : List UInt8 :=
  response.headers.getD key def_

/-- `getHeaderAs<uint64_t>`. Its result type is `bool`. -/
def getHeaderAs (lexicalCast : List UInt8 → Option UInt64) (response : HttpResponse)
    (key : List UInt8) (def_ : UInt64) : Bool :=
  (match response.headers[key]? with
    | none => def_
    | some val => (lexicalCast val).getD def_) != 0

end HttpResponse

/-- The actions of the grammar, without `done`. -/
inductive ClientAct where
  | mark
  | startField
  | writeField
  | startValue
  | writeContentLen
  | writeConnectionClose
  | writeValue
  | reasonPhrase
  | statusCode
  | httpVersion
  | chunkSize
  | transChunked
deriving DecidableEq, Repr

/-- The fields of `httpclient_parser` that are used. -/
structure HttpclientParser (σ : Type) where
  /-- `none` is `httpclient_parser_error`. -/
  cs : Option σ
  contentLen : Int
  chunked : Bool
  chunksDone : Bool
  mark : Nat
  fieldStart : Nat
  fieldLen : Nat

/-- What the callbacks write: `m_data` and `m_error`. -/
structure ParsedResponse where
  data : HttpResponse
  error : Nat

/-- `HttpResponseParser`, with what it has parsed. -/
structure HttpResponseParser (σ : Type) extends ParsedResponse where
  parser : HttpclientParser σ

/-- The C string in the buffer at `start`. The byte behind what was received is 0. -/
def textAt (buffer : List UInt8) (start : Nat) : Except Fault (List UInt8) :=
  if buffer.length < start then throw .outOfBounds else return cString (buffer.drop start)

/-- `std::string(buffer + start, length)`. -/
def substring (buffer : List UInt8) (start length : Nat) : Except Fault (List UInt8) :=
  if buffer.length < start + length then throw .outOfBounds
  else return (buffer.drop start).take length

/-- The conversion of a `long` to `int`. -/
def longToInt (value : Int) : Int := value.bmod (2 ^ 32)

namespace ParsedResponse

/-- Change `m_data`. -/
def update (parsed : ParsedResponse) (change : HttpResponse → HttpResponse) : ParsedResponse :=
  { parsed with data := change parsed.data }

def setError (parsed : ParsedResponse) (v : Nat) : ParsedResponse := { parsed with error := v }

/-- `on_response_reason`. -/
def onReason (buffer : List UInt8) (start length : Nat) (parsed : ParsedResponse) :
    Except Fault ParsedResponse :=
  return parsed.update (·.setReason (← substring buffer start length))

/-- `on_response_status`. -/
def onStatus (buffer : List UInt8) (start : Nat) (parsed : ParsedResponse) :
    Except Fault ParsedResponse :=
  return parsed.update (·.setStatus (longToInt (strtol 10 (← textAt buffer start))))

/-- `on_response_version`, which copies the text to log it when it is unknown. -/
def onVersion (buffer : List UInt8) (start length : Nat) (parsed : ParsedResponse) :
    Except Fault ParsedResponse := do
  let text ← textAt buffer start
  if strncmp text (bytes "HTTP/1.1") length then return parsed.update (·.setVersion 0x11)
  else if strncmp text (bytes "HTTP/1.0") length then return parsed.update (·.setVersion 0x10)
  else
    let _ ← substring buffer start length
    return parsed.setError 1001

/-- `on_response_http_field`. A field without a name is dropped. -/
def onHttpField (buffer : List UInt8) (field flen value vlen : Nat) (parsed : ParsedResponse) :
    Except Fault ParsedResponse := do
  if flen = 0 then return parsed
  else
    let key ← substring buffer field flen
    let val ← substring buffer value vlen
    return parsed.update (·.setHeader key val)

end ParsedResponse

section

variable {σ : Type}

/-- `httpclient_parser_init`. -/
def HttpclientParser.init (machine : Machine ClientAct σ) : HttpclientParser σ where
  cs := some machine.start
  contentLen := -1
  chunked := false
  chunksDone := false
  mark := 0
  fieldStart := 0
  fieldLen := 0

namespace HttpResponseParser

def new (machine : Machine ClientAct σ) : HttpResponseParser σ where
  data := .new
  error := 0
  parser := .init machine

/-- A callback with the text since the mark. -/
def call (parsed : Except Fault ParsedResponse) (p : HttpResponseParser σ) :
    Except Fault (HttpResponseParser σ) :=
  return { p with toParsedResponse := ← parsed }

/-- The action of a transition at the byte `fpc` of the buffer. -/
def act (buffer : List UInt8) (fpc : Nat) (p : HttpResponseParser σ) :
    ClientAct → Except Fault (HttpResponseParser σ)
  | .mark | .startValue => return { p with parser.mark := fpc }
  | .startField => return { p with parser.fieldStart := fpc }
  | .writeField => return { p with parser.fieldLen := len p.parser.fieldStart fpc }
  | .writeContentLen => do
      let text ← textAt buffer p.parser.mark
      return { p with parser.contentLen := longToInt (strtol 10 text) }
  -- `close` and `status` of the parser are not read again
  | .writeConnectionClose => return p
  | .writeValue =>
      p.call (p.onHttpField buffer p.parser.fieldStart p.parser.fieldLen p.parser.mark
        (len p.parser.mark fpc))
  | .reasonPhrase => p.call (p.onReason buffer p.parser.mark (len p.parser.mark fpc))
  | .statusCode => p.call (p.onStatus buffer p.parser.mark)
  | .httpVersion => p.call (p.onVersion buffer p.parser.mark (len p.parser.mark fpc))
  | .chunkSize => do
      let contentLen := longToInt (strtol 16 (← textAt buffer p.parser.mark))
      return { p with
        parser.chunked := true
        parser.contentLen := contentLen
        parser.chunksDone := contentLen ≤ 0 }
  | .transChunked => return { p with parser.chunked := true }

/-- The loop of `write exec` from the byte `fpc` on, and where it ends. -/
def exec (machine : Machine ClientAct σ) (buffer : List UInt8) :
    Nat → List UInt8 → HttpResponseParser σ → Except Fault (HttpResponseParser σ × Nat)
  | fpc, [], p => return (p, fpc)
  | fpc, byte :: rest, p =>
      match p.parser.cs.bind (machine.step · byte) with
      | none => return ({ p with parser.cs := none }, fpc)
      | some transition => do
          let p ← transition.actions.foldlM (act buffer fpc) p
          let p := { p with parser.cs := some transition.target }
          if transition.done then return (p, fpc + 1) else exec machine buffer (fpc + 1) rest p

/-- `httpclient_parser_execute` with the offset 0. A failed check returns -1. -/
def httpclientParserExecute (machine : Machine ClientAct σ) (buffer : List UInt8)
    (p : HttpResponseParser σ) : Except Fault (HttpResponseParser σ × Nat) := do
  let (p, nread) ← exec machine buffer 0 buffer
    { p with parser := { p.parser with mark := 0, fieldStart := 0, fieldLen := 0 } }
  if p.parser.mark < buffer.length ∧ p.parser.fieldLen ≤ buffer.length ∧
      p.parser.fieldStart < buffer.length then return (p, nread)
  else return (p, 2 ^ 64 - 1)

/-- `execute`. What was not consumed is moved to the front. -/
def execute (machine : Machine ClientAct σ) (data : List UInt8) (chunck : Bool)
    (p : HttpResponseParser σ) : Except Fault (HttpResponseParser σ × Nat × List UInt8) := do
  let p := if chunck then { p with parser := .init machine } else p
  let (p, offset) ← httpclientParserExecute machine data p
  if data.length < offset then throw .outOfBounds
  else return (p, offset, data.drop offset)

/-- `hasError`, also of the automaton. -/
def hasError (p : HttpResponseParser σ) : Bool := p.error != 0 || p.parser.cs.isNone

/-- `httpclient_parser_finish`. -/
def isFinished (machine : Machine ClientAct σ) (p : HttpResponseParser σ) : Int :=
  match p.parser.cs with
  | none => -1
  | some cs => if machine.final cs then 1 else 0

/-- The `bool` of `getHeaderAs` as a `uint64_t`. -/
def getContentLength (lexicalCast : List UInt8 → Option UInt64) (p : HttpResponseParser σ) :
    UInt64 :=
  if p.data.getHeaderAs lexicalCast (bytes "content-length") 0 then 1 else 0

end HttpResponseParser

end

end Sylar.Http
