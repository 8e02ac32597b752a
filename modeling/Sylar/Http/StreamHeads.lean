import Sylar.Http.Consumption
import Sylar.Http.RequestGrammar

/-!
# The head of a stream

The head that a stream begins with, read from its bytes alone, and what is received
of it: the automaton ends where the head ends, however the stream comes.
-/

namespace Sylar.Http

variable {σ : Type}

/-- The head that a text begins with: where it ends, and its tokens. -/
def Machine.firstHead (machine : Machine Act σ) :
    Nat → σ → Marks → List UInt8 → Option (Nat × List Token)
  | _, _, _, [] => none
  | fpc, cs, marks, byte :: rest => do
      let transition ← machine.step cs byte
      let (marks, tokens) ← marks.acts fpc transition.actions
      if transition.done then return (fpc + 1, tokens)
      else
        let (stop, more) ← machine.firstHead (fpc + 1) transition.target marks rest
        return (stop, tokens ++ more)

/-- The order in which the grammar runs its actions, given what is marked in each state: a value
comes behind the end of a name, the end of a query behind its start, and the byte behind a method
is a blank. -/
structure OrderlyHeads (machine : Machine Act σ) (known : σ → Marks → Prop) : Prop where
  start : known machine.start .new
  step : ∀ fpc {cs marks byte transition}, known cs marks →
    machine.step cs byte = some transition → ∃ after tokens,
      marks.acts fpc transition.actions = some (after, tokens) ∧ known transition.target after
  blank : ∀ {cs byte transition}, machine.step cs byte = some transition →
    .element .requestMethod ∈ transition.actions → byte = 32

/-- What the automaton of the lines has marked: the name in front of a value, and the start of
a query. -/
def HeadState.Marked : HeadState → Marks → Prop
  | .valueStart, marks | .value, marks => marks.fieldStop.isSome = true
  | .query, marks => marks.queryStart.isSome = true
  | _, _ => True

theorem headMachine_orderly : OrderlyHeads headMachine HeadState.Marked where
  start := trivial
  step fpc {cs marks byte transition} marked stepped := by
    change cs.step byte = some transition at stepped
    cases cs <;>
      simp only [HeadState.step, HeadState.endLine, HeadState.endPart, HeadState.go] at stepped <;>
      (repeat' split at stepped) <;> cases stepped <;>
      first
      | exact ⟨_, _, rfl, trivial⟩
      | exact ⟨_, _, rfl, rfl⟩
      | exact ⟨_, _, rfl, marked⟩
      | (obtain ⟨place, known⟩ := Option.isSome_iff_exists.mp marked
         simp [Marks.acts, Marks.act, known, HeadState.Marked])
  blank {cs byte transition} stepped member := by
    change cs.step byte = some transition at stepped
    cases cs <;>
      simp only [HeadState.step, HeadState.endLine, HeadState.endPart, HeadState.go] at stepped <;>
      (repeat' split at stepped) <;> cases stepped <;>
      first
      | assumption
      | simp at member

section Scan

variable {machine : Machine Act σ} {known : σ → Marks → Prop}

/-- The first head of a text is a part that the automaton ends with. -/
theorem Machine.firstHead_scan {fpc stop : Nat} {cs : σ} {marks : Marks} {stream : List UInt8}
    {tokens : List Token} (found : machine.firstHead fpc cs marks stream = some (stop, tokens)) :
    ∃ left tail, stream = left ++ tail ∧ fpc + left.length = stop ∧
      machine.scan fpc cs marks left = some tokens := by
  induction stream generalizing fpc cs marks tokens with
  | nil => cases found
  | cons byte rest inductionHypothesis =>
      simp only [firstHead, Option.bind_eq_bind, Option.bind_eq_some_iff, Option.pure_def] at found
      obtain ⟨transition, stepped, ⟨after, first⟩, acted, found⟩ := found
      split at found
      · rename_i done
        cases found
        refine ⟨[byte], rest, rfl, rfl, ?_⟩
        simp [scan, stepped, acted, done]
      · rename_i going
        obtain ⟨⟨last, more⟩, later, together⟩ := Option.bind_eq_some_iff.mp found
        cases together
        obtain ⟨left, tail, rfl, length, scanned⟩ := inductionHypothesis later
        refine ⟨byte :: left, tail, rfl, ?_, ?_⟩
        · rw [List.length_cons]
          omega
        · simp [scan, stepped, acted, going, scanned]

theorem Marks.act_element {fpc start stop : Nat} {marks after : Marks} {act : Act}
    {callback : Element} {tokens : List Token} (found : marks.act fpc act = some (after, tokens))
    (member : .element callback start stop ∈ tokens) : act = .element callback := by
  cases act with
  | mark | startValue | startField | writeField | startQuery =>
      cases found
      cases member
  | writeValue | queryString =>
      obtain ⟨_, _, pair⟩ := Option.map_eq_some_iff.mp found
      cases pair
      cases List.mem_singleton.mp member
  | element other =>
      cases found
      cases List.mem_singleton.mp member
      rfl

/-- A callback with the marked text is an action of the transition. -/
theorem Marks.acts_element {fpc start stop : Nat} {marks after : Marks} {actions : List Act}
    {callback : Element} {tokens : List Token}
    (found : marks.acts fpc actions = some (after, tokens))
    (member : .element callback start stop ∈ tokens) : .element callback ∈ actions := by
  induction actions generalizing marks tokens with
  | nil =>
      cases found
      cases member
  | cons act rest inductionHypothesis =>
      simp only [acts, Option.bind_eq_bind, Option.bind_eq_some_iff, Option.pure_def,
        Option.some.injEq] at found
      obtain ⟨⟨between, first⟩, foundFirst, ⟨last, more⟩, foundMore, pair⟩ := found
      cases pair
      rcases List.mem_append.mp member with member | member
      · rw [act_element foundFirst member]
        exact List.mem_cons_self
      · exact List.mem_cons_of_mem _ (inductionHypothesis foundMore member)

/-- Behind every method that is scanned is a blank. -/
theorem OrderlyHeads.framed (orderly : OrderlyHeads machine known) {head left : List UInt8}
    {fpc : Nat} {cs : σ} {marks : Marks} {tokens : List Token} (part : head.drop fpc = left)
    (scanned : machine.scan fpc cs marks left = some tokens) :
    ∀ token ∈ tokens, token.Framed head := by
  induction left generalizing fpc cs marks tokens with
  | nil => cases scanned
  | cons byte left inductionHypothesis =>
      have next : head.drop (fpc + 1) = left := by
        rw [← List.drop_drop, part, List.drop_one, List.tail_cons]
      have here : head[fpc]? = some byte := by
        rw [← List.head?_drop, part, List.head?_cons]
      obtain ⟨transition, after, first, stepped, found, ends⟩ := Machine.scan_cons scanned
      have framedFirst : ∀ token ∈ first, token.Framed head := by
        intro token member
        have position := Marks.acts_stop found token member
        cases token with
        | element callback start stop =>
            cases callback with
            | requestMethod =>
                obtain rfl : stop = fpc := position
                rw [Token.Framed, here, orderly.blank stepped (Marks.acts_element found member)]
            | requestUri | fragment | requestPath | httpVersion => trivial
        | query | field => trivial
      rcases ends with ⟨_, _, rfl⟩ | ⟨_, more, scannedMore, rfl⟩
      · exact framedFirst
      · exact List.forall_mem_append.mpr ⟨framedFirst, inductionHypothesis next scannedMore⟩

end Scan

section Unheaded

variable {machine : Machine Act σ} {known : σ → Marks → Prop} {cs : σ} {marks : Marks}
  {p q : HttpRequestParser σ} {position : Nat}

/-- Where no head ends, the automaton does not end either: it uses up what it gets, unless there is
an error. -/
theorem exec_unheaded (orderly : OrderlyHeads machine known) {buffer rest more : List UInt8}
    {fpc stop : Nat} (marked : known cs marks) (state : p.parser.cs = some cs)
    (headless : machine.firstHead position cs marks (rest ++ more) = none)
    (fresh : machine.final cs = false ∨ rest ≠ [])
    (ran : HttpRequestParser.exec machine buffer fpc rest p = .ok (q, stop)) :
    q.hasError = true ∨ ∃ later after, q.parser.cs = some later ∧ known later after ∧
      machine.firstHead (position + rest.length) later after more = none ∧
      machine.final later = false ∧ stop = fpc + rest.length := by
  induction rest generalizing position fpc cs marks p with
  | nil =>
      cases ran
      exact .inr ⟨cs, marks, state, marked, headless, fresh.resolve_right (absurd rfl), rfl⟩
  | cons byte rest inductionHypothesis =>
      rw [HttpRequestParser.exec, state, Option.bind_some] at ran
      rw [List.cons_append, Machine.firstHead] at headless
      cases stepped : machine.step cs byte with
      | none =>
          rw [stepped] at ran
          cases ran
          exact .inl (by simp [HttpRequestParser.hasError])
      | some transition =>
          obtain ⟨after, tokens, found, markedAfter⟩ :=
            orderly.step position marked stepped
          simp only [stepped, found, Option.bind_eq_bind, Option.bind_some] at headless
          rw [stepped] at ran
          obtain ⟨middle, _, onward⟩ := bind_ok ran
          have target := machine.final_target cs byte transition stepped
          by_cases done : transition.done = true
          · rw [if_pos done] at headless
            cases headless
          · rw [if_neg done] at headless
            simp only [if_neg done] at onward
            have headlessLater : machine.firstHead (position + 1) transition.target after
                (rest ++ more) = none := by
              cases later : machine.firstHead (position + 1) transition.target after
                  (rest ++ more) with
              | none => rfl
              | some found =>
                  rw [later] at headless
                  cases headless
            rcases inductionHypothesis markedAfter
              (p := { middle with parser.cs := some transition.target }) rfl headlessLater
              (.inl (target.trans (Bool.eq_false_iff.mpr done))) onward with
              failed | ⟨later, last, state, marked, headless, unfinal, rfl⟩
            · exact .inl failed
            · refine .inr ⟨later, last, state, marked, ?_, unfinal, ?_⟩
              · rwa [List.length_cons, Nat.add_comm rest.length, ← Nat.add_assoc]
              · rw [List.length_cons]
                omega

/-- From a stream without a head none is received. -/
theorem recvHead_unheaded (orderly : OrderlyHeads machine known) {buffSize : Nat}
    {connection : Connection}
    {outcome : Option (HttpRequestParser σ × List UInt8) × Connection}
    (marked : known cs marks) (state : p.parser.cs = some cs)
    (headless : machine.firstHead position cs marks connection.flatten = none)
    (ran : recvHead machine buffSize [] p connection = .ok outcome) : outcome.1 = none := by
  induction connection generalizing position cs marks p with
  | nil =>
      cases ran
      rfl
  | cons result rest inductionHypothesis =>
      rw [recvHead] at ran
      split at ran
      · cases ran
      · split at ran
        · cases ran
          rfl
        · rename_i some_
          obtain ⟨⟨q, nparse, left⟩, executed, onward⟩ := bind_ok ran
          obtain ⟨⟨last, stop⟩, parsed, moved⟩ := bind_ok executed
          cases moved
          rw [HttpRequestParser.httpParserExecute, List.nil_append, if_neg some_] at parsed
          rw [List.flatten_cons] at headless
          dsimp only at onward
          rcases exec_unheaded orderly marked
            (p := { p with parser := { p.parser with mark := 0, fieldStart := 0, fieldLen := 0 } })
            state headless (.inr some_) parsed with
            failed | ⟨later, after, stateLater, markedLater, headlessLater, unfinal, rfl⟩
          · rw [if_pos failed] at onward
            cases onward
            rfl
          · have going : ¬q.isFinished machine ≠ 0 := by
              simp [HttpRequestParser.isFinished, stateLater, unfinal]
            rw [if_neg going, List.nil_append, Nat.zero_add, List.drop_length] at onward
            split at onward
            · cases onward
              rfl
            · split at onward
              · cases onward
                rfl
              · exact inductionHypothesis markedLater stateLater headlessLater onward

end Unheaded

/-- A position lies in its result of `read`. -/
theorem readStart_near {reads : Connection} {bound position : Nat}
    (short : ∀ result ∈ reads, result.length < bound) (inside : position < reads.flatten.length) :
    position - readStart reads position < bound := by
  induction reads generalizing position with
  | nil => cases inside
  | cons result rest inductionHypothesis =>
      obtain ⟨here, others⟩ := List.forall_mem_cons.mp short
      rw [List.flatten_cons, List.length_append] at inside
      rw [readStart]
      split
      · omega
      · have later := inductionHypothesis others (by omega : position - result.length < _)
        omega

section Received

variable (machine : Machine Act σ)

/-- The head that a stream begins with, when of every text only what comes with the result of
`read` that holds its end is left, and where it ends. `none` when there is no head or a callback
fails. -/
def leftHead (connection : Connection) : Option (Nat × HttpRequest) :=
  (machine.firstHead 0 machine.start .new connection.flatten).bind fun found =>
    (cutHead (connection.flatten.take found.1) found.2 (readStart connection)).map (found.1, ·)

variable {machine} {known : σ → Marks → Prop}

/-- Null is returned by a closed session only. -/
theorem recvHead_none {buffSize : Nat} {data : List UInt8} {connection rest : Connection}
    {p : HttpRequestParser σ}
    (ran : recvHead machine buffSize data p connection = .ok (none, rest)) : rest = [] := by
  induction connection generalizing data p with
  | nil =>
      cases ran
      rfl
  | cons result more inductionHypothesis =>
      rw [recvHead] at ran
      split at ran
      · cases ran
      · split at ran
        · cases ran
          rfl
        · obtain ⟨⟨q, nparse, left⟩, _, next⟩ := bind_ok ran
          dsimp only at next
          split at next
          · cases next
            rfl
          · split at next
            · cases next
              rfl
            · split at next
              · cases next
              · exact inductionHypothesis next

/-- What is received of a head is what the results of `read` leave of it. -/
theorem recvHead_left (orderly : OrderlyHeads machine known) {buffSize : Nat}
    (size : buffSize < 2 ^ 31) {connection : Connection}
    (nonempty : ∀ result ∈ connection, result ≠ [])
    (short : ∀ result ∈ connection, result.length < 2 ^ 63)
    (fits : recvHead machine buffSize [] (.new machine) connection ≠ .error .overrun) :
    (∃ stop request parser extra rest, leftHead machine connection = some (stop, request) ∧
      request.body = [] ∧ skip stop connection = extra :: rest ∧
      recvHead machine buffSize [] (.new machine) connection =
        .ok (some (⟨⟨request, 0⟩, parser⟩, extra), rest)) ∨
    leftHead machine connection = none ∧
      ((∃ fault, recvHead machine buffSize [] (.new machine) connection = .error fault) ∨
        recvHead machine buffSize [] (.new machine) connection = .ok (none, [])) := by
  unfold leftHead
  cases found : machine.firstHead 0 machine.start .new connection.flatten with
  | none =>
      refine .inr ⟨rfl, ?_⟩
      cases ran : recvHead machine buffSize [] (.new machine) connection with
      | error fault => exact .inl ⟨fault, rfl⟩
      | ok outcome =>
          obtain ⟨received, rest⟩ := outcome
          obtain rfl : received = none := recvHead_unheaded orderly orderly.start rfl found ran
          obtain rfl := recvHead_none ran
          exact .inr rfl
  | some head =>
      obtain ⟨stop, tokens⟩ := head
      obtain ⟨chars, tail, stream, length, scanned⟩ := Machine.firstHead_scan found
      rw [Nat.zero_add] at length
      have taken : connection.flatten.take stop = chars := by
        rw [stream, ← length, List.take_left]
      have near : ∀ position < chars.length, position - readStart connection position < 2 ^ 63 := by
        intro position inside
        refine readStart_near short ?_
        rw [stream, List.length_append]
        omega
      simp only [Option.bind_some, taken]
      rcases recvHead_cut size near scanned (orderly.framed rfl scanned) nonempty stream fits with
        ⟨request, parser, extra, rest, cut, skipped, ran⟩ | ⟨lost, ends⟩
      · rw [cut, ← length]
        have empty : request.body = [] := (recvHead_consumes ran).1
        exact .inl ⟨_, request, parser, extra, rest, rfl, empty, skipped, ran⟩
      · rw [lost]
        refine .inr ⟨rfl, ?_⟩
        rcases ends with ⟨_, thrown⟩ | ⟨_, closed⟩
        · exact .inl ⟨_, thrown⟩
        · exact .inr closed

end Received

end Sylar.Http
