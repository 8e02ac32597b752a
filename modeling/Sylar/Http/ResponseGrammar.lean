import Sylar.Http.ResponseExecution

/-!
# Heads and sizes as lines

An automaton for the lines of a response that `httpclient_parser.rl` describes:
the status line, the fields of a head and the sizes of chunks. It leaves out the
extensions of chunks and the shortcuts for the length of the content and the end
of the connection, which deliver the same callbacks as any field, and is laxer
than the grammar about the bytes within a line.
-/

namespace Sylar.Http

open Library (isDigit)

/-- Where in a response the automaton is. The line of a field remembers its bytes. -/
inductive LineState where
  | start
  | size
  | sizeEnd
  | version
  | statusStart
  | status
  | reasonStart
  | reason
  | reasonEnd
  | line
  | name (chars : List UInt8)
  | valueStart (chars : List UInt8)
  | value (chars text : List UInt8)
  | valueEnd (chunked : Bool)
  | headEnd
  | final
deriving DecidableEq, Repr

/-- `Transfer-Encoding: chunked`, in any case. -/
def isTransferChunked (chars text : List UInt8) : Bool :=
  chars.map tolower = bytes "transfer-encoding" && text.map tolower = bytes "chunked"

namespace LineState

/-- The byte goes on to a state. -/
def go (target : LineState) (actions : List ClientAct) :
    Option (Transition ClientAct LineState) :=
  some ⟨actions, target = .final, target⟩

/-- The end of a line: CR, after which LF is to come, or LF alone. -/
def endLine (byte : UInt8) (cr lf : LineState) (actions : List ClientAct)
    (otherwise : Option (Transition ClientAct LineState)) :
    Option (Transition ClientAct LineState) :=
  if byte = 13 then go cr actions else if byte = 10 then go lf actions else otherwise

/-- The transitions of the grammar of a head. -/
def step (byte : UInt8) : LineState → Option (Transition ClientAct LineState)
  | start =>
      if byte = 72 then go version [.mark]
      else if isDigit 16 byte then go size [.mark]
      else none
  | size =>
      endLine byte sizeEnd final [.chunkSize] (if isDigit 16 byte then go size [] else none)
  | sizeEnd => if byte = 10 then go final [] else none
  | version => if byte = 32 then go statusStart [.httpVersion] else go version []
  | statusStart => if isDigit 10 byte then go status [.mark] else none
  | status =>
      if byte = 32 then go reasonStart [.statusCode]
      else if isDigit 10 byte then go status []
      else none
  | reasonStart => go reason [.mark]
  | reason => endLine byte reasonEnd line [.reasonPhrase] (go reason [])
  | reasonEnd => if byte = 10 then go line [] else none
  | line => endLine byte headEnd final [] (go (name [byte]) [.startField])
  | name chars =>
      if byte = 58 then go (valueStart chars) [.writeField] else go (name (chars ++ [byte])) []
  | valueStart chars =>
      if byte = 32 then go (valueStart chars) []
      else endLine byte (valueEnd false) line [.startValue, .writeValue]
        (go (value chars [byte]) [.startValue])
  | value chars text =>
      if byte = 13 then go (valueEnd (isTransferChunked chars text)) [.writeValue]
      else if byte = 10 then go line (if isTransferChunked chars text then
        [.writeValue, .transChunked] else [.writeValue])
      else go (value chars (text ++ [byte])) []
  | valueEnd chunked =>
      if byte = 10 then go line (if chunked then [.transChunked] else []) else none
  | headEnd => if byte = 10 then go final [] else none
  | final => none

/-- Whether the name of a field has begun and not ended. -/
def naming : LineState → Bool
  | name _ => true
  | _ => false

end LineState

/-- What `go` says about a transition, and the order of its actions, for every state. -/
theorem LineState.step_some {byte : UInt8} {cs : LineState}
    {transition : Transition ClientAct LineState} (stepped : cs.step byte = some transition) :
    transition.done = decide (transition.target = .final) ∧
      transition.actions.foldlM ClientAct.naming cs.naming = some transition.target.naming := by
  cases cs <;> simp only [step, endLine, go] at stepped <;> (repeat' split at stepped) <;>
    cases stepped <;> exact ⟨rfl, rfl⟩

/-- The automaton of the lines. -/
def lineMachine : Machine ClientAct LineState where
  start := .start
  step cs byte := cs.step byte
  final cs := cs = .final
  final_target _ _ _ stepped := (LineState.step_some stepped).1.symm

theorem lineMachine_orderly : lineMachine.Orderly :=
  ⟨LineState.naming, fun _ _ _ stepped => (LineState.step_some stepped).2⟩

end Sylar.Http
