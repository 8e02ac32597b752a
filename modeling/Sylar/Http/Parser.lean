import Sylar.Http.Request

/-!
# The request parser

`HttpRequestParser` of `http_parser.cpp` with `http_parser_execute` of
`http11_parser.rl`. The automaton that is generated from the grammar is a
parameter: for each byte it gives the actions of the transition, of which the
text is in the grammar file, and whether the head ends with it.
-/

namespace Sylar.Http

/-- How a call can end other than by returning. -/
inductive Fault where
  /-- `std::string` was asked for more bytes than any string has. -/
  | lengthError
  /-- A register was read that was never written. -/
  | uninitialised
  /-- `read` returned more bytes than it was asked for, which it never does. -/
  | overrun
  /-- A byte outside the buffer, or behind what was received, is touched. -/
  | outOfBounds
  /-- A result is out of the range of `int`. -/
  | overflow
  /-- The model gave up; no run gets there. -/
  | outOfFuel
deriving DecidableEq, Repr

/-- The two steps that a result comes from. -/
theorem bind_ok {α β : Type} {first : Except Fault α} {next : α → Except Fault β} {result : β}
    (ran : first >>= next = .ok result) :
    ∃ middle, first = .ok middle ∧ next middle = .ok result := by
  cases first with
  | error fault => cases ran
  | ok middle => exact ⟨middle, rfl, ran⟩

/-- The callbacks that get the text since the mark. -/
inductive Element where
  | requestMethod | requestUri | fragment | requestPath | httpVersion
deriving DecidableEq, Repr

/-- The actions of the grammar, without `done`. -/
inductive Act where
  | mark
  | startField
  | writeField
  | startValue
  | writeValue
  | startQuery
  | queryString
  | element (callback : Element)
deriving DecidableEq, Repr

/-- A transition of the automaton, with the actions of its grammar. -/
structure Transition (α σ : Type) where
  actions : List α
  /-- The action `done` comes last, and leaves the automaton after this byte. -/
  done : Bool
  target : σ

/-- The automaton. It enters a final state with the action `done` only. -/
structure Machine (α σ : Type) where
  start : σ
  /-- `none` leads to `http_parser_error`. -/
  step : σ → UInt8 → Option (Transition α σ)
  /-- `cs >= http_parser_first_final`. -/
  final : σ → Bool
  final_target : ∀ cs byte transition, step cs byte = some transition →
    final transition.target = transition.done

/-- The fields of `http_parser` that the actions use. -/
structure HttpParser (σ : Type) where
  /-- `none` is `http_parser_error`. -/
  cs : Option σ
  mark : Nat
  fieldStart : Nat
  fieldLen : Nat
  /-- `http_parser_init` leaves this one as it is. -/
  queryStart : Option Nat

/-- What the callbacks write: `m_data` and `m_error`. -/
structure Parsed where
  data : HttpRequest
  error : Nat

/-- `HttpRequestParser`, with what it has parsed. -/
structure HttpRequestParser (σ : Type) extends Parsed where
  parser : HttpParser σ

/-- `LEN(AT, FPC)`, a difference of type `size_t`. -/
def len (start fpc : Nat) : Nat := (fpc + 2 ^ 64 - start) % 2 ^ 64

/-- `std::string(at, length)`. -/
def toString (chars : List UInt8) (length : Nat) : Except Fault (List UInt8) :=
  if 2 ^ 63 ≤ length then throw .lengthError else return chars.take length

/-- Change `m_data`. -/
def Parsed.update (parsed : Parsed) (change : HttpRequest → HttpRequest) : Parsed :=
  { parsed with data := change parsed.data }

@[simp] theorem Parsed.error_update (parsed : Parsed) (change : HttpRequest → HttpRequest) :
    (parsed.update change).error = parsed.error := rfl

def Parsed.setError (parsed : Parsed) (v : Nat) : Parsed := { parsed with error := v }

def onRequestMethod (chars : List UInt8) (parsed : Parsed) : Parsed :=
  if charsToHttpMethod chars = .invalidMethod then parsed.setError 1000
  else parsed.update (·.setMethod (charsToHttpMethod chars))

def onRequestVersion (chars : List UInt8) (length : Nat) (parsed : Parsed) : Parsed :=
  if strncmp chars (bytes "HTTP/1.1") length then parsed.update (·.setVersion 0x11)
  else if strncmp chars (bytes "HTTP/1.0") length then parsed.update (·.setVersion 0x10)
  else parsed.setError 1001

/-- `at` points at `chars`, to the end of what was read. -/
def Element.call (chars : List UInt8) (length : Nat) (parsed : Parsed) :
    Element → Except Fault Parsed
  | .requestMethod => return onRequestMethod chars parsed
  | .requestUri => return parsed
  | .fragment => return parsed.update (·.setFragment (← toString chars length))
  | .requestPath => return parsed.update (·.setPath (← toString chars length))
  | .httpVersion => return onRequestVersion chars length parsed

def onRequestQuery (chars : List UInt8) (length : Nat) (parsed : Parsed) : Except Fault Parsed :=
  return parsed.update (·.setQuery (← toString chars length))

/-- A field without a name is dropped. -/
def onRequestHttpField (field : List UInt8) (flen : Nat) (value : List UInt8) (vlen : Nat)
    (parsed : Parsed) : Except Fault Parsed := do
  if flen = 0 then return parsed
  else
    let key ← toString field flen
    let val ← toString value vlen
    return parsed.update (·.setHeader key val)

section

variable {σ : Type}

namespace HttpRequestParser

/-- `http_parser_init`, and an empty request. -/
def new (machine : Machine Act σ) : HttpRequestParser σ where
  data := .new
  error := 0
  parser := ⟨some machine.start, 0, 0, 0, none⟩

/-- The action of a transition at the byte `fpc` of the buffer. -/
def act (buffer : List UInt8) (fpc : Nat) (p : HttpRequestParser σ) :
    Act → Except Fault (HttpRequestParser σ)
  | .mark | .startValue => return { p with parser.mark := fpc }
  | .startField => return { p with parser.fieldStart := fpc }
  | .writeField => return { p with parser.fieldLen := len p.parser.fieldStart fpc }
  | .writeValue => do
      let parsed ← onRequestHttpField (buffer.drop p.parser.fieldStart) p.parser.fieldLen
        (buffer.drop p.parser.mark) (len p.parser.mark fpc) p.toParsed
      return { p with toParsed := parsed }
  | .startQuery => return { p with parser.queryStart := some fpc }
  | .queryString =>
      match p.parser.queryStart with
      | none => throw .uninitialised
      | some queryStart => do
          let parsed ← onRequestQuery (buffer.drop queryStart) (len queryStart fpc) p.toParsed
          return { p with toParsed := parsed }
  | .element callback => do
      let parsed ← callback.call (buffer.drop p.parser.mark) (len p.parser.mark fpc) p.toParsed
      return { p with toParsed := parsed }

/-- The loop of `write exec` from the byte `fpc` on, and where it ends. -/
def exec (machine : Machine Act σ) (buffer : List UInt8) :
    Nat → List UInt8 → HttpRequestParser σ → Except Fault (HttpRequestParser σ × Nat)
  | fpc, [], p => return (p, fpc)
  | fpc, byte :: rest, p =>
      match p.parser.cs.bind (machine.step · byte) with
      | none => return ({ p with parser.cs := none }, fpc)
      | some transition => do
          let p ← transition.actions.foldlM (act buffer fpc) p
          let p := { p with parser.cs := some transition.target }
          if transition.done then return (p, fpc + 1) else exec machine buffer (fpc + 1) rest p

/-- `http_parser_execute` with the offset 0. -/
def httpParserExecute (machine : Machine Act σ) (buffer : List UInt8) (p : HttpRequestParser σ) :
    Except Fault (HttpRequestParser σ × Nat) :=
  if buffer = [] then return (p, 0)
  else
    exec machine buffer 0 buffer
      { p with parser := { p.parser with mark := 0, fieldStart := 0, fieldLen := 0 } }

/-- `execute`. What was not consumed is moved to the front. -/
def execute (machine : Machine Act σ) (data : List UInt8) (p : HttpRequestParser σ) :
    Except Fault (HttpRequestParser σ × Nat × List UInt8) := do
  let (p, offset) ← httpParserExecute machine data p
  return (p, offset, data.drop offset)

/-- `hasError`, also of the automaton. -/
def hasError (p : HttpRequestParser σ) : Bool := p.error != 0 || p.parser.cs.isNone

/-- `http_parser_finish`. -/
def isFinished (machine : Machine Act σ) (p : HttpRequestParser σ) : Int :=
  match p.parser.cs with
  | none => -1
  | some cs => if machine.final cs then 1 else 0

def getContentLength (lexicalCast : List UInt8 → Option UInt64) (p : HttpRequestParser σ) :
    UInt64 :=
  p.data.getHeaderAs lexicalCast (bytes "content-length") 0

end HttpRequestParser

end

end Sylar.Http
