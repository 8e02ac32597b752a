import Sylar.Http.ResponseExecution
import Sylar.Http.Segments

/-!
# The tokens of the head of a response

What the automaton finds in a head that lies in the buffer from its first byte on, by
positions in the buffer, and what `recvHead` makes of it.
-/

namespace Sylar.Http

/-- A call of a callback. The positions are those of bytes in the buffer, and `stop` is the
byte at which the callback is called. -/
inductive ClientToken where
  | version (start stop : Nat)
  | status (start : Nat)
  | reason (start stop : Nat)
  | field (nameStart nameStop valueStart stop : Nat)
  /-- `Transfer-Encoding: chunked`. -/
  | chunked
deriving DecidableEq, Repr

/-- The positions that the actions have written down. -/
structure ClientMarks where
  mark : Nat
  fieldStart : Nat
  /-- The end of the name that began at `fieldStart`. -/
  fieldStop : Option Nat
deriving DecidableEq, Repr

namespace ClientMarks

/-- No mark is set. -/
def new : ClientMarks := ⟨0, 0, none⟩

/-- An action at a byte. A value needs a name, and a head has no size of a chunk. -/
def act (fpc : Nat) (marks : ClientMarks) : ClientAct → Option (ClientMarks × List ClientToken)
  | .mark | .startValue => some ({ marks with mark := fpc }, [])
  | .startField => some ({ marks with fieldStart := fpc, fieldStop := none }, [])
  | .writeField => some ({ marks with fieldStop := some fpc }, [])
  | .writeContentLen | .writeConnectionClose => some (marks, [])
  | .writeValue =>
      marks.fieldStop.map fun stop => (marks, [.field marks.fieldStart stop marks.mark fpc])
  | .reasonPhrase => some (marks, [.reason marks.mark fpc])
  | .statusCode => some (marks, [.status marks.mark])
  | .httpVersion => some (marks, [.version marks.mark fpc])
  | .chunkSize => none
  | .transChunked => some (marks, [.chunked])

/-- The actions of a transition, one after the other. -/
def acts (fpc : Nat) : List ClientAct → ClientMarks → Option (ClientMarks × List ClientToken)
  | [], marks => some (marks, [])
  | act :: rest, marks => do
      let (marks, first) ← marks.act fpc act
      let (marks, more) ← acts fpc rest marks
      return (marks, first ++ more)

end ClientMarks

variable {σ : Type}

/-- The tokens of the rest of a head, when the automaton ends exactly with it. -/
def Machine.scanHead (machine : Machine ClientAct σ) :
    Nat → σ → ClientMarks → List UInt8 → Option (List ClientToken)
  | _, _, _, [] => none
  | fpc, cs, marks, byte :: rest => do
      let transition ← machine.step cs byte
      let (marks, tokens) ← marks.acts fpc transition.actions
      if transition.done then
        if rest = [] then return tokens else none
      else return tokens ++ (← machine.scanHead (fpc + 1) transition.target marks rest)

/-- What a scan of a byte and more does. -/
theorem Machine.scanHead_cons {machine : Machine ClientAct σ} {fpc : Nat} {cs : σ}
    {marks : ClientMarks} {byte : UInt8} {left : List UInt8} {tokens : List ClientToken}
    (scanned : machine.scanHead fpc cs marks (byte :: left) = some tokens) :
    ∃ transition after first, machine.step cs byte = some transition ∧
      marks.acts fpc transition.actions = some (after, first) ∧
      ((transition.done = true ∧ left = [] ∧ tokens = first) ∨
        (transition.done = false ∧ ∃ more,
          machine.scanHead (fpc + 1) transition.target after left = some more ∧
            tokens = first ++ more)) := by
  simp only [scanHead, Option.bind_eq_bind, Option.bind_eq_some_iff, Option.pure_def] at scanned
  obtain ⟨transition, stepped, ⟨after, first⟩, found, scanned⟩ := scanned
  refine ⟨transition, after, first, stepped, found, ?_⟩
  split at scanned
  · rename_i done
    split at scanned
    · rename_i ended
      cases scanned
      exact .inl ⟨done, ended, rfl⟩
    · cases scanned
  · rename_i going
    obtain ⟨more, scannedMore, together⟩ := Option.bind_eq_some_iff.mp scanned
    cases together
    exact .inr ⟨Bool.eq_false_iff.mpr going, more, scannedMore, rfl⟩

/-- The callback of a token. -/
def ClientToken.deliver (buffer : List UInt8) (parsed : ParsedResponse) :
    ClientToken → Except Fault ParsedResponse
  | .version start stop => parsed.onVersion buffer start (stop - start)
  | .status start => parsed.onStatus buffer start
  | .reason start stop => parsed.onReason buffer start (stop - start)
  | .field nameStart nameStop valueStart stop =>
      parsed.onHttpField buffer nameStart (nameStop - nameStart) valueStart (stop - valueStart)
  | .chunked => return parsed

namespace HttpResponseParser

/-- The registers of the parser at the byte `fpc`, and whether the body is chunked. -/
structure Marked (fpc : Nat) (marks : ClientMarks) (parser : HttpclientParser σ) : Prop where
  mark : parser.mark = marks.mark ∧ marks.mark ≤ fpc
  fieldStart : parser.fieldStart = marks.fieldStart ∧ marks.fieldStart ≤ fpc
  fieldLen : parser.fieldLen ≤ fpc
  fieldStop : ∀ stop, marks.fieldStop = some stop →
    parser.fieldLen = stop - marks.fieldStart ∧ stop ≤ fpc

theorem Marked.mono {fpc later : Nat} {marks : ClientMarks} {parser : HttpclientParser σ}
    (marked : Marked fpc marks parser) (ordered : fpc ≤ later) : Marked later marks parser where
  mark := ⟨marked.mark.1, Nat.le_trans marked.mark.2 ordered⟩
  fieldStart := ⟨marked.fieldStart.1, Nat.le_trans marked.fieldStart.2 ordered⟩
  fieldLen := Nat.le_trans marked.fieldLen ordered
  fieldStop stop known := by
    obtain ⟨length, within⟩ := marked.fieldStop stop known
    exact ⟨length, Nat.le_trans within ordered⟩

/-- The automaton and what was parsed so far are no registers. -/
theorem Marked.setState {fpc : Nat} {marks : ClientMarks} {parser : HttpclientParser σ}
    (marked : Marked fpc marks parser) (cs : Option σ) : Marked fpc marks { parser with cs := cs } :=
  ⟨marked.mark, marked.fieldStart, marked.fieldLen, marked.fieldStop⟩

section

variable {buffer : List UInt8} {fpc : Nat}

/-- What the actions of tokens leave of the parser. -/
structure Delivers (buffer : List UInt8) (tokens : List ClientToken)
    (parser later : HttpclientParser σ)
    (outcome : ParsedResponse → Except Fault (HttpResponseParser σ)) : Prop where
  chunked : later.chunked = (parser.chunked || tokens.contains .chunked)
  cs : later.cs = parser.cs
  outcome : ∀ parsed, outcome parsed =
    (tokens.foldlM (ClientToken.deliver buffer) parsed).map fun parsed => ⟨parsed, later⟩

/-- A callback that is called with what a token says. -/
theorem Delivers.call {token : ClientToken} {parser : HttpclientParser σ}
    {outcome : ParsedResponse → Except Fault (HttpResponseParser σ)}
    (other : [token].contains .chunked = false)
    (called : ∀ parsed, outcome parsed =
      (token.deliver buffer parsed).map fun parsed => ⟨parsed, parser⟩) :
    Delivers buffer [token] parser parser outcome where
  chunked := by rw [other, Bool.or_false]
  cs := rfl
  outcome parsed := by
    rw [called, List.foldlM_cons]
    exact congrArg _ (bind_pure _).symm

/-- One action delivers the tokens it completes. -/
theorem act_delivers (inside : fpc < buffer.length) (short : buffer.length < 2 ^ 63)
    {marks after : ClientMarks} {parser : HttpclientParser σ} (marked : Marked fpc marks parser)
    {action : ClientAct} {tokens : List ClientToken}
    (found : marks.act fpc action = some (after, tokens)) :
    ∃ later, Marked fpc after later ∧ Delivers buffer tokens parser later fun parsed =>
      act buffer fpc ⟨parsed, parser⟩ action := by
  obtain ⟨mark, markBound⟩ := marked.mark
  obtain ⟨fieldStart, fieldBound⟩ := marked.fieldStart
  have length : len marks.mark fpc = fpc - marks.mark := len_eq markBound (by omega)
  cases action with
  | mark | startValue =>
      cases found
      exact ⟨{ parser with mark := fpc }, { marked with mark := ⟨rfl, Nat.le_refl fpc⟩ },
        ⟨(Bool.or_false _).symm, rfl, fun _ => rfl⟩⟩
  | startField =>
      cases found
      exact ⟨{ parser with fieldStart := fpc },
        { marked with
          fieldStart := ⟨rfl, Nat.le_refl fpc⟩
          fieldStop := fun _ stopped => absurd stopped (Option.some_ne_none _).symm },
        ⟨(Bool.or_false _).symm, rfl, fun _ => rfl⟩⟩
  | writeField =>
      cases found
      have named : len parser.fieldStart fpc = fpc - marks.fieldStart := by
        rw [fieldStart, len_eq fieldBound (by omega)]
      refine ⟨{ parser with fieldLen := len parser.fieldStart fpc }, { marked with
        fieldLen := ?_, fieldStop := ?_ }, ⟨(Bool.or_false _).symm, rfl, fun _ => rfl⟩⟩
      · show len parser.fieldStart fpc ≤ fpc
        rw [named]
        exact Nat.sub_le _ _
      · rintro _ ⟨⟩
        exact ⟨named, Nat.le_refl fpc⟩
  | writeContentLen =>
      cases found
      have text : textAt buffer parser.mark = .ok _ := textAt_ok (by omega)
      refine ⟨{ parser with
        contentLen := longToInt (Library.strtol 10 (cString (buffer.drop parser.mark))) },
        ⟨marked.mark, marked.fieldStart, marked.fieldLen, marked.fieldStop⟩,
        ⟨(Bool.or_false _).symm, rfl, fun parsed => ?_⟩⟩
      simp only [act, text, bind, Except.bind]
      rfl
  | writeConnectionClose =>
      cases found
      exact ⟨parser, marked, ⟨(Bool.or_false _).symm, rfl, fun _ => rfl⟩⟩
  | writeValue =>
      obtain ⟨stop, known, pair⟩ := Option.map_eq_some_iff.mp found
      cases pair
      refine ⟨parser, marked, .call rfl fun parsed => ?_⟩
      simp only [act, call, ClientToken.deliver, fieldStart, mark, length,
        (marked.fieldStop stop known).1]
      cases parsed.onHttpField buffer _ _ _ _ <;> rfl
  | reasonPhrase =>
      cases found
      refine ⟨parser, marked, .call rfl fun parsed => ?_⟩
      simp only [act, call, ClientToken.deliver, mark, length]
      cases parsed.onReason buffer _ _ <;> rfl
  | statusCode =>
      cases found
      refine ⟨parser, marked, .call rfl fun parsed => ?_⟩
      simp only [act, call, ClientToken.deliver, mark]
      cases parsed.onStatus buffer _ <;> rfl
  | httpVersion =>
      cases found
      refine ⟨parser, marked, .call rfl fun parsed => ?_⟩
      simp only [act, call, ClientToken.deliver, mark, length]
      cases parsed.onVersion buffer _ _ <;> rfl
  | chunkSize => cases found
  | transChunked =>
      cases found
      exact ⟨{ parser with chunked := true }, ⟨marked.mark, marked.fieldStart, marked.fieldLen,
        marked.fieldStop⟩, ⟨(Bool.or_true _).symm, rfl, fun _ => rfl⟩⟩

/-- The actions of a transition deliver their tokens in order. -/
theorem acts_delivers (inside : fpc < buffer.length) (short : buffer.length < 2 ^ 63)
    {actions : List ClientAct} {marks after : ClientMarks} {parser : HttpclientParser σ}
    (marked : Marked fpc marks parser) {tokens : List ClientToken}
    (found : marks.acts fpc actions = some (after, tokens)) :
    ∃ later, Marked fpc after later ∧ Delivers buffer tokens parser later fun parsed =>
      actions.foldlM (act buffer fpc) ⟨parsed, parser⟩ := by
  induction actions generalizing marks parser tokens with
  | nil =>
      cases found
      exact ⟨parser, marked, ⟨(Bool.or_false _).symm, rfl, fun _ => rfl⟩⟩
  | cons action rest inductionHypothesis =>
      simp only [ClientMarks.acts, Option.bind_eq_bind, Option.bind_eq_some_iff, Option.pure_def,
        Option.some.injEq] at found
      obtain ⟨⟨between, first⟩, foundFirst, ⟨last, more⟩, foundMore, pair⟩ := found
      cases pair
      obtain ⟨middle, markedMiddle, delivers⟩ := act_delivers inside short marked foundFirst
      obtain ⟨later, markedLater, deliversMore⟩ := inductionHypothesis markedMiddle foundMore
      refine ⟨later, markedLater, ⟨?_, deliversMore.cs.trans delivers.cs, fun parsed => ?_⟩⟩
      · rw [deliversMore.chunked, delivers.chunked, List.contains_append, Bool.or_assoc]
      · rw [List.foldlM_cons, delivers.outcome, List.foldlM_append]
        cases first.foldlM (ClientToken.deliver buffer) parsed with
        | error fault => rfl
        | ok parsed => exact deliversMore.outcome parsed

/-- A head in the buffer: all tokens are delivered, and the automaton stops behind it in a
final state. -/
theorem exec_delivers (machine : Machine ClientAct σ) {left : List UInt8} (extra : List UInt8)
    (inside : fpc + left.length ≤ buffer.length) (short : buffer.length < 2 ^ 63) {cs : σ}
    {marks : ClientMarks} {parser : HttpclientParser σ} (marked : Marked fpc marks parser)
    (state : parser.cs = some cs) {tokens : List ClientToken}
    (scanned : machine.scanHead fpc cs marks left = some tokens) :
    ∃ later final after, later.cs = some final ∧ machine.final final = true ∧
      Marked (fpc + left.length - 1) after later ∧
      later.chunked = (parser.chunked || tokens.contains .chunked) ∧
      ∀ parsed, exec machine buffer fpc (left ++ extra) ⟨parsed, parser⟩ =
        (tokens.foldlM (ClientToken.deliver buffer) parsed).map
          fun parsed => (⟨parsed, later⟩, fpc + left.length) := by
  induction left generalizing fpc cs marks parser tokens with
  | nil => cases scanned
  | cons byte rest inductionHypothesis =>
      rw [List.length_cons] at inside
      obtain ⟨transition, after, first, stepped, found, ends | continues⟩ :=
        Machine.scanHead_cons scanned
      · obtain ⟨done, rfl, rfl⟩ := ends
        obtain ⟨later, markedLater, delivers⟩ := acts_delivers (by omega) short marked found
        refine ⟨{ later with cs := some transition.target }, transition.target, after, rfl, ?_,
          markedLater.setState _, delivers.chunked, fun parsed => ?_⟩
        · rw [machine.final_target cs byte transition stepped, done]
        · have ran := delivers.outcome parsed
          simp only [List.cons_append, exec, state, Option.bind_some, stepped, ran]
          cases tokens.foldlM (ClientToken.deliver buffer) parsed with
          | error fault => rfl
          | ok parsed =>
              simp only [Except.map, bind, Except.bind, done, if_true]
              rfl
      · obtain ⟨going, more, scannedMore, rfl⟩ := continues
        obtain ⟨middle, markedMiddle, delivers⟩ := acts_delivers (by omega) short marked found
        have onward : fpc + (byte :: rest).length = fpc + 1 + rest.length := by
          rw [List.length_cons]
          omega
        obtain ⟨later, final, last, ends, isFinal, markedLater, chunked, deliversMore⟩ :=
          inductionHypothesis (by omega)
            ((markedMiddle.mono (Nat.le_succ fpc)).setState (some transition.target)) rfl scannedMore
        rw [onward]
        refine ⟨later, final, last, ends, isFinal, markedLater, ?_, fun parsed => ?_⟩
        · rw [chunked, delivers.chunked, List.contains_append, Bool.or_assoc]
        · have ran := delivers.outcome parsed
          simp only [List.cons_append, exec, state, Option.bind_some, stepped, ran,
            List.foldlM_append]
          cases first.foldlM (ClientToken.deliver buffer) parsed with
          | error fault => rfl
          | ok parsed =>
              simp only [Except.map, bind, Except.bind, going, Bool.false_eq_true, if_false]
              exact deliversMore parsed

end

/-- What was delivered for a head, with the parser behind it. -/
structure Delivered (machine : Machine ClientAct σ) (tokens : List ClientToken)
    (parsed : ParsedResponse) (p : HttpResponseParser σ) : Prop where
  parsed : p.toParsedResponse = parsed
  chunked : p.parser.chunked = tokens.contains .chunked
  finished : p.isFinished machine = 1

/-- `execute` on a buffer that begins with a head. -/
theorem execute_head {machine : Machine ClientAct σ} {text : List UInt8} (extra : List UInt8)
    (short : (text ++ extra).length < 2 ^ 63) {tokens : List ClientToken}
    (scanned : machine.scanHead 0 machine.start .new text = some tokens)
    {parsed : ParsedResponse}
    (delivered : tokens.foldlM (ClientToken.deliver (text ++ extra)) ⟨.new, 0⟩ = .ok parsed) :
    ∃ p, (new machine).execute machine (text ++ extra) false = .ok (p, text.length, extra) ∧
      Delivered machine tokens parsed p := by
  have some_ : 0 < text.length := by
    refine List.length_pos_iff.mpr ?_
    rintro rfl
    cases scanned
  have marked : Marked 0 .new (HttpclientParser.init machine) :=
    ⟨⟨rfl, Nat.le_refl 0⟩, ⟨rfl, Nat.le_refl 0⟩, Nat.le_refl 0, nofun⟩
  have inside : 0 + text.length ≤ (text ++ extra).length := by
    rw [List.length_append]
    omega
  obtain ⟨later, final, after, state, isFinal, markedLater, chunked, ran⟩ :=
    exec_delivers machine extra inside short marked rfl scanned
  have mark := markedLater.mark
  have fieldStart := markedLater.fieldStart
  have fieldLen := markedLater.fieldLen
  refine ⟨⟨parsed, later⟩, ?_, rfl, chunked.trans (Bool.false_or _), ?_⟩
  · have loop := ran ⟨.new, 0⟩
    rw [delivered] at loop
    have started : exec machine (text ++ extra) 0 (text ++ extra) (new machine) =
        .ok (⟨parsed, later⟩, text.length) := by
      rw [← Nat.zero_add text.length]
      exact loop
    have checks : later.mark < (text ++ extra).length ∧ later.fieldLen ≤ (text ++ extra).length ∧
        later.fieldStart < (text ++ extra).length := by
      rw [List.length_append]
      omega
    have executed : (new machine).httpclientParserExecute machine (text ++ extra) =
        .ok (⟨parsed, later⟩, text.length) := by
      have same : { new machine with
          parser := { (new machine).parser with mark := 0, fieldStart := 0, fieldLen := 0 } } =
          new machine := rfl
      rw [httpclientParserExecute, same, started]
      simp only [bind, Except.bind, if_pos checks]
      rfl
    rw [execute, if_neg Bool.false_ne_true, executed]
    simp only [bind, Except.bind]
    rw [if_neg (by rw [List.length_append]; omega), List.drop_left]
    rfl
  · rw [isFinished, state]
    exact if_pos isFinal

end HttpResponseParser

namespace HttpConnection

open HttpResponseParser in
/-- A head that comes with the first result of `read` is received. -/
theorem recvHead_first {machine : Machine ClientAct σ} {buffSize : Nat} (size : buffSize < 2 ^ 31)
    {text extra : List UInt8} (fits : (text ++ extra).length ≤ buffSize) (rest : Connection)
    {tokens : List ClientToken} (scanned : machine.scanHead 0 machine.start .new text = some tokens)
    {parsed : ParsedResponse}
    (delivered : tokens.foldlM (ClientToken.deliver (text ++ extra)) ⟨.new, 0⟩ = .ok parsed)
    (healthy : parsed.error = 0) :
    ∃ p, recvHead machine buffSize false [] (.new machine) ((text ++ extra) :: rest) =
      .ok (some (p, extra), rest) ∧ Delivered machine tokens parsed p := by
  have some_ : 0 < text.length := by
    refine List.length_pos_iff.mpr ?_
    rintro rfl
    cases scanned
  obtain ⟨p, executed, left⟩ := execute_head extra (by omega) scanned delivered
  refine ⟨p, ?_, left⟩
  have ends : p.isFinished machine ≠ 0 := by
    rw [left.finished]
    decide
  have fine : p.hasError = false := by
    have state : p.parser.cs.isNone = false := by
      have finished := left.finished
      cases cs : p.parser.cs with
      | none =>
          simp only [isFinished, cs] at finished
          exact absurd finished (by decide)
      | some cs => rfl
    rw [hasError, left.parsed, healthy, state]
    rfl
  have room : ¬(extra.length : Int) = toInt buffSize := by
    rw [List.length_append] at fits
    rw [toInt_of_lt size]
    omega
  rw [List.length_append] at fits
  have nonempty : text ++ extra ≠ [] := by
    refine List.ne_nil_of_length_pos ?_
    rw [List.length_append]
    omega
  rw [recvHead, List.length_nil, List.nil_append, Nat.sub_zero, List.length_append,
    if_neg (by omega), if_neg nonempty, if_neg (by omega), parse, executed]
  simp only [bind, Except.bind, fine, Bool.false_eq_true, if_false, if_neg room, pure, Except.pure,
    if_pos ends]

end HttpConnection

end Sylar.Http
