import Sylar.Http.Tokens

/-!
# Heads as lines

An automaton for the heads of requests that `http11_parser.rl` describes: the request
line with a path, a query and a fragment, and the fields. It leaves out URIs with a
scheme or an authority and the requests of sockets, and is laxer than the grammar
about the bytes within a line.
-/

namespace Sylar.Http

/-- Where in the head of a request the automaton is. -/
inductive HeadState where
  | start
  | method
  | uri
  | path
  | queryStart
  | query
  | fragmentStart
  | fragment
  | versionStart
  | version
  | lineEnd
  | line
  | name
  | valueStart
  | value
  | headEnd
  | final
deriving DecidableEq, Repr

namespace HeadState

/-- The byte goes on to a state. -/
def go (target : HeadState) (actions : List Act) : Option (Transition Act HeadState) :=
  some ⟨actions, target = .final, target⟩

/-- Upper case letters and digits. -/
def isMethod (byte : UInt8) : Bool := (65 ≤ byte && byte ≤ 90) || (48 ≤ byte && byte ≤ 57)

/-- The end of a line: CR, after which LF is to come, or LF alone. -/
def endLine (byte : UInt8) (actions : List Act)
    (otherwise : Option (Transition Act HeadState)) : Option (Transition Act HeadState) :=
  if byte = 13 then go lineEnd actions else if byte = 10 then go line actions else otherwise

/-- The end of a path, a query or a fragment. -/
def endPart (byte : UInt8) (actions : List Act)
    (otherwise : Option (Transition Act HeadState)) : Option (Transition Act HeadState) :=
  if byte = 32 then go versionStart (actions ++ [.element .requestUri])
  else if byte = 35 then go fragmentStart (actions ++ [.element .requestUri])
  else otherwise

/-- The transitions of the grammar of a head. -/
def step (byte : UInt8) : HeadState → Option (Transition Act HeadState)
  | start => if isMethod byte then go method [.mark] else none
  | method =>
      if byte = 32 then go uri [.element .requestMethod]
      else if isMethod byte then go method []
      else none
  | uri => if byte = 47 then go path [.mark] else none
  | path =>
      if byte = 63 then go queryStart [.element .requestPath]
      else endPart byte [.element .requestPath] (go path [])
  | queryStart => endPart byte [.startQuery, .queryString] (go query [.startQuery])
  | query => endPart byte [.queryString] (go query [])
  | fragmentStart =>
      if byte = 32 then go versionStart [.mark, .element .fragment] else go fragment [.mark]
  | fragment => if byte = 32 then go versionStart [.element .fragment] else go fragment []
  | versionStart => if byte = 72 then go version [.mark] else none
  | version => endLine byte [.element .httpVersion] (go version [])
  | lineEnd => if byte = 10 then go line [] else none
  | line =>
      if byte = 13 then go headEnd []
      else if byte = 10 then go final []
      else go name [.startField]
  | name => if byte = 58 then go valueStart [.writeField] else go name []
  | valueStart =>
      if byte = 32 then go valueStart []
      else endLine byte [.startValue, .writeValue] (go value [.startValue])
  | value => endLine byte [.writeValue] (go value [])
  | headEnd => if byte = 10 then go final [] else none
  | final => none

/-- What `go` says about a transition, for every state. -/
theorem step_some {byte : UInt8} {cs : HeadState} {transition : Transition Act HeadState}
    (stepped : cs.step byte = some transition) :
    transition.done = decide (transition.target = .final) := by
  cases cs <;> simp only [step, endLine, endPart, go] at stepped <;> (repeat' split at stepped) <;>
    cases stepped <;> rfl

end HeadState

/-- The automaton of the lines. -/
def headMachine : Machine Act HeadState where
  start := .start
  step cs byte := cs.step byte
  final cs := cs = .final
  final_target _ _ _ stepped := (HeadState.step_some stepped).symm

end Sylar.Http
