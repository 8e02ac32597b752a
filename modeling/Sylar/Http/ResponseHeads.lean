import Sylar.Http.Heads
import Sylar.Http.ResponseGrammar
import Sylar.Http.ResponseTokens

/-!
# The grammar of the head of a response

The heads of responses that `httpclient_parser.rl` derives, as their parts, and that the
automaton of the lines finds the parts.
-/

namespace Sylar.Http

open Library (isDigit)

/-- The parts of the head of a response. -/
structure ResponseHead where
  version : List UInt8
  status : List UInt8
  reason : List UInt8
  fields : List (List UInt8 × List UInt8)

namespace ResponseHead

/-- What the grammar asks of the parts, of responses that are not chunked. -/
structure Grammatical (parts : ResponseHead) : Prop where
  version : parts.version = bytes "HTTP/1.0" ∨ parts.version = bytes "HTTP/1.1"
  status : parts.status ≠ [] ∧ ∀ byte ∈ parts.status, isDigit 10 byte = true
  reason : parts.reason ≠ [] ∧ ∀ byte ∈ parts.reason, byte ≠ 13 ∧ byte ≠ 10
  fields : ∀ field ∈ parts.fields,
    (field.1 ≠ [] ∧ ∀ byte ∈ field.1, isToken byte = true) ∧ FieldValue field.2
  plain : ∀ field ∈ parts.fields, isTransferChunked field.1 field.2 = false

/-- The text of a head. -/
def text (parts : ResponseHead) : List UInt8 :=
  parts.version ++ (32 :: (parts.status ++ (32 :: (parts.reason ++
    (13 :: 10 :: (parts.fields.flatMap RequestHead.fieldText ++ [13, 10]))))))

/-- The callbacks for fields that begin at a position. -/
def fieldTokens : Nat → List (List UInt8 × List UInt8) → List ClientToken
  | _, [] => []
  | start, (name, value) :: fields =>
      let valueStart := start + name.length + 2
      .field start (start + name.length) valueStart (valueStart + value.length) ::
        fieldTokens (valueStart + value.length + 2) fields

/-- Where the version ends, the status, the reason and its line. -/
def versionEnd (parts : ResponseHead) : Nat := parts.version.length

def statusEnd (parts : ResponseHead) : Nat := parts.versionEnd + 1 + parts.status.length

def reasonEnd (parts : ResponseHead) : Nat := parts.statusEnd + 1 + parts.reason.length

/-- The callbacks for the head in the order of the grammar. -/
def tokens (parts : ResponseHead) : List ClientToken :=
  [.version 0 parts.versionEnd, .status (parts.versionEnd + 1),
    .reason (parts.statusEnd + 1) parts.reasonEnd] ++
  fieldTokens (parts.reasonEnd + 2) parts.fields

end ResponseHead

/-- The automaton splits the head of a response in one buffer as the grammar says. -/
def SplitsResponses {σ : Type} (machine : Machine ClientAct σ) : Prop :=
  ∀ parts : ResponseHead, parts.Grammatical →
    machine.scanHead 0 machine.start .new parts.text = some parts.tokens

section Scan

variable {fpc : Nat} {cs : LineState} {marks after : ClientMarks} {byte : UInt8}
  {text rest : List UInt8} {more : List ClientToken}

/-- A byte with its callbacks. -/
theorem scanHead_go (target : LineState) (actions : List ClientAct) (first : List ClientToken)
    (stepped : cs.step byte = LineState.go target actions)
    (onward : decide (target = .final) = false) (found : marks.acts fpc actions = some (after, first))
    (later : lineMachine.scanHead (fpc + 1) target after rest = some more) :
    lineMachine.scanHead fpc cs marks (byte :: rest) = some (first ++ more) := by
  have step : lineMachine.step cs byte = some ⟨actions, decide (target = .final), target⟩ := stepped
  simp only [Machine.scanHead, step, Option.bind_eq_bind, Option.bind_some, found, later, onward]
  rfl

/-- A run of bytes without actions, in states that remember what was read. -/
theorem scanHead_stay (states : List UInt8 → LineState)
    (onward : ∀ chars, decide (states chars = .final) = false) (before : List UInt8)
    (stay : ∀ chars, ∀ byte ∈ text,
      (states chars).step byte = LineState.go (states (chars ++ [byte])) [])
    (later : lineMachine.scanHead (fpc + text.length) (states (before ++ text)) marks rest =
      some more) :
    lineMachine.scanHead fpc (states before) marks (text ++ rest) = some more := by
  induction text generalizing fpc before with
  | nil =>
      rw [List.append_nil] at later
      exact later
  | cons byte text inductionHypothesis =>
      have others := fun chars => (List.forall_mem_cons.mp (stay chars)).2
      refine scanHead_go (states (before ++ [byte])) [] []
        (List.forall_mem_cons.mp (stay before)).1 (onward _) rfl
        (inductionHypothesis (before ++ [byte]) others ?_)
      rw [List.append_assoc, List.singleton_append, Nat.add_assoc, Nat.add_comm 1]
      exact later

open LineState (endLine)

/-- A field with its line end. -/
theorem scanHead_field {name value : List UInt8} (some_ : name ≠ [])
    (token : ∀ byte ∈ name, isToken byte = true) (isValue : FieldValue value)
    (plain : isTransferChunked name value = false)
    (later : ∀ marks, lineMachine.scanHead (fpc + name.length + 2 + value.length + 2) .line marks
      rest = some more) :
    lineMachine.scanHead fpc .line marks (RequestHead.fieldText (name, value) ++ rest) =
      some (.field fpc (fpc + name.length) (fpc + name.length + 2)
        (fpc + name.length + 2 + value.length) :: more) := by
  obtain ⟨first, name, rfl⟩ := List.exists_cons_of_ne_nil some_
  obtain ⟨byte, value, rfl⟩ := List.exists_cons_of_ne_nil isValue.some_
  rw [List.forall_mem_cons] at token
  obtain ⟨beginning, others⟩ := token
  obtain ⟨printable, printables⟩ := List.forall_mem_cons.mp isValue.printable
  have notBlank : byte ≠ 32 := fun blank => isValue.first (congrArg some blank)
  obtain ⟨-, notCR, notLF⟩ := not_token beginning
  obtain ⟨valueCR, valueLF⟩ := not_printable printable
  simp only [RequestHead.fieldText, List.cons_append, List.append_assoc, List.nil_append,
    List.length_cons] at later ⊢
  refine scanHead_go (.name [first]) [.startField] []
    (by rw [LineState.step, endLine, if_neg notCR, if_neg notLF]) rfl rfl ?_
  refine scanHead_stay .name (fun _ => rfl) [first] (fun chars byte member => by
    rw [LineState.step, if_neg (not_token (others byte member)).1]) ?_
  refine scanHead_go (.valueStart (first :: name)) [.writeField] [] rfl rfl rfl ?_
  refine scanHead_go (.valueStart (first :: name)) [] [] rfl rfl rfl ?_
  refine scanHead_go (.value (first :: name) [byte]) [.startValue] [] (by
    rw [LineState.step, if_neg notBlank, endLine, if_neg valueCR, if_neg valueLF]) rfl rfl ?_
  refine scanHead_stay (.value (first :: name)) (fun _ => rfl) [byte] (fun chars byte member => by
    obtain ⟨notCR, notLF⟩ := not_printable (printables byte member)
    rw [LineState.step, if_neg notCR, if_neg notLF]) ?_
  have token : ClientToken.field fpc (fpc + (name.length + 1)) (fpc + (name.length + 1) + 2)
      (fpc + (name.length + 1) + 2 + (value.length + 1)) =
      .field fpc (fpc + 1 + name.length) (fpc + 1 + name.length + 1 + 1)
        (fpc + 1 + name.length + 1 + 1 + 1 + value.length) := by
    congr 1 <;> omega
  have position : fpc + 1 + name.length + 1 + 1 + 1 + value.length + 1 + 1 =
      fpc + (name.length + 1) + 2 + (value.length + 1) + 2 := by omega
  rw [token]
  refine scanHead_go (.valueEnd false) [.writeValue] [_] ?_ rfl rfl ?_
  · rw [LineState.step, if_pos rfl, List.singleton_append, plain]
  · refine scanHead_go .line [] [] rfl rfl rfl ?_
    rw [position]
    exact later _

/-- The fields, and the empty line behind them. -/
theorem scanHead_fields {fields : List (List UInt8 × List UInt8)}
    (grammatical : ∀ field ∈ fields,
      (field.1 ≠ [] ∧ ∀ byte ∈ field.1, isToken byte = true) ∧ FieldValue field.2)
    (plain : ∀ field ∈ fields, isTransferChunked field.1 field.2 = false) :
    lineMachine.scanHead fpc .line marks (fields.flatMap RequestHead.fieldText ++ [13, 10]) =
      some (ResponseHead.fieldTokens fpc fields) := by
  induction fields generalizing fpc marks with
  | nil => exact scanHead_go .headEnd [] [] rfl rfl rfl rfl
  | cons field fields inductionHypothesis =>
      obtain ⟨name, value⟩ := field
      rw [List.forall_mem_cons] at grammatical plain
      obtain ⟨⟨⟨some_, token⟩, isValue⟩, others⟩ := grammatical
      rw [List.flatMap_cons, List.append_assoc]
      exact scanHead_field some_ token isValue plain.1 fun _ => inductionHypothesis others plain.2

/-- The reason, up to the first field. -/
theorem scanHead_reason {reason : List UInt8} (some_ : reason ≠ [])
    (within : ∀ byte ∈ reason, byte ≠ 13 ∧ byte ≠ 10)
    (later : ∀ marks, lineMachine.scanHead (fpc + reason.length + 2) .line marks rest = some more) :
    lineMachine.scanHead fpc .reasonStart marks (reason ++ (13 :: 10 :: rest)) =
      some (.reason fpc (fpc + reason.length) :: more) := by
  obtain ⟨first, reason, rfl⟩ := List.exists_cons_of_ne_nil some_
  rw [List.length_cons, Nat.add_comm reason.length, ← Nat.add_assoc] at later ⊢
  refine scanHead_go .reason [.mark] [] rfl rfl rfl ?_
  refine scanHead_stay (fun _ => .reason) (fun _ => rfl) [] (fun _ byte member => by
    obtain ⟨notCR, notLF⟩ := within byte (.tail _ member)
    rw [LineState.step, endLine, if_neg notCR, if_neg notLF]) ?_
  refine scanHead_go .reasonEnd [.reasonPhrase] [_] rfl rfl rfl ?_
  exact scanHead_go .line [] [] rfl rfl rfl (later _)

/-- The status, up to the reason. -/
theorem scanHead_status {status : List UInt8} (some_ : status ≠ [])
    (digits : ∀ byte ∈ status, isDigit 10 byte = true)
    (later : ∀ marks, lineMachine.scanHead (fpc + status.length + 1) .reasonStart marks rest =
      some more) :
    lineMachine.scanHead fpc .statusStart marks (status ++ (32 :: rest)) =
      some (.status fpc :: more) := by
  obtain ⟨first, status, rfl⟩ := List.exists_cons_of_ne_nil some_
  rw [List.length_cons, Nat.add_comm status.length, ← Nat.add_assoc] at later
  refine scanHead_go .status [.mark] [] (by
    rw [LineState.step, if_pos (digits first List.mem_cons_self)]) rfl rfl ?_
  refine scanHead_stay (fun _ => .status) (fun _ => rfl) [] (fun _ byte member => ?_) ?_
  · have digit := digits byte (.tail _ member)
    have notBlank : byte ≠ 32 := by
      rintro rfl
      exact absurd digit (by decide)
    rw [LineState.step, if_neg notBlank, if_pos digit]
  · exact scanHead_go .reasonStart [.statusCode] [_] rfl rfl rfl (later _)

/-- The version, up to the status. -/
theorem scanHead_version {version : List UInt8}
    (known : version = bytes "HTTP/1.0" ∨ version = bytes "HTTP/1.1")
    (later : ∀ marks, lineMachine.scanHead (version.length + 1) .statusStart marks rest =
      some more) :
    lineMachine.scanHead 0 .start marks (version ++ (32 :: rest)) =
      some (.version 0 version.length :: more) := by
  obtain ⟨tail, rfl, others⟩ : ∃ tail, version = 72 :: tail ∧ ∀ byte ∈ tail, byte ≠ 32 := by
    rcases known with rfl | rfl
    · exact ⟨bytes "TTP/1.0", rfl, by decide⟩
    · exact ⟨bytes "TTP/1.1", rfl, by decide⟩
  rw [List.length_cons, Nat.add_comm tail.length] at later ⊢
  refine scanHead_go .version [.mark] [] rfl rfl rfl ?_
  refine scanHead_stay (fun _ => .version) (fun _ => rfl) [] (fun _ byte member => by
    rw [LineState.step, if_neg (others byte member)]) ?_
  rw [Nat.zero_add]
  exact scanHead_go .statusStart [.httpVersion] [_] rfl rfl rfl (later _)

/-- The automaton of the lines splits the heads of responses as the grammar says. -/
theorem lineMachine_splits : SplitsResponses lineMachine := by
  intro parts grammatical
  obtain ⟨version, status, reason, fields⟩ := parts
  obtain ⟨isVersion, isStatus, isReason, isFields, plain⟩ := grammatical
  refine scanHead_version isVersion fun _ => ?_
  refine scanHead_status isStatus.1 isStatus.2 fun _ => ?_
  exact scanHead_reason isReason.1 isReason.2 fun _ => scanHead_fields isFields plain

end Scan

end Sylar.Http
