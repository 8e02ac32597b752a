import Sylar.Http.Consumption

/-!
# When a head throws

All registers but one are reset at the beginning of `http_parser_execute`. The
start of a query is kept, as an offset in the result of `read` that it came with,
and a query that ends at a smaller offset of a later result has a negative length.
No other callback throws.
-/

namespace Sylar.Http

variable {σ : Type}

/-- The start of the query behind an action at the byte `fpc`; `none` when the query ends in
front of its start, or was never begun. -/
def queryAct (fpc : Nat) (queryStart : Option Nat) : Act → Option (Option Nat)
  | .startQuery => some (some fpc)
  | .queryString => if queryStart.any (· ≤ fpc) then some queryStart else none
  | _ => some queryStart

/-- Whether the automaton comes to the end of a query in front of its start. -/
def Machine.cutsQuery (machine : Machine Act σ) : Nat → σ → Option Nat → List UInt8 → Bool
  | _, _, _, [] => false
  | fpc, cs, queryStart, byte :: rest =>
      match machine.step cs byte with
      | none => false
      | some transition =>
          match transition.actions.foldlM (queryAct fpc) queryStart with
          | none => true
          | some queryStart =>
              !transition.done && machine.cutsQuery (fpc + 1) transition.target queryStart rest

/-- Whether a query ends in front of its start, in the result of `read` that comes next. -/
def HttpRequestParser.cutsQuery (machine : Machine Act σ) (p : HttpRequestParser σ)
    (result : List UInt8) : Bool :=
  p.parser.cs.any fun cs => machine.cutsQuery 0 cs p.parser.queryStart result

/-- Whether a query ends in front of its start in a result of `read` that the loop comes to. -/
def cutsQuery (machine : Machine Act σ) (buffSize : Nat) :
    HttpRequestParser σ → Connection → Bool
  | _, [] => false
  | p, result :: rest =>
      if buffSize < result.length ∨ result = [] then false
      else
        p.cutsQuery machine result ||
          match p.execute machine result with
          | .error _ => false
          | .ok (p, _, _) =>
              if p.hasError ∨ toInt buffSize = 0 ∨ p.isFinished machine ≠ 0 then false
              else cutsQuery machine buffSize p rest

/-- The registers at the byte `fpc`: what a call has set is not behind that byte, and the start of
a query is an offset in some buffer. -/
structure HttpParser.InBuffer (fpc : Nat) (parser : HttpParser σ) : Prop where
  mark : parser.mark ≤ fpc
  fieldStart : parser.fieldStart ≤ fpc
  fieldLen : parser.fieldLen ≤ fpc
  queryStart : ∀ start, parser.queryStart = some start → start < 2 ^ 63

theorem HttpParser.InBuffer.next {fpc : Nat} {parser : HttpParser σ}
    (inBuffer : parser.InBuffer fpc) (cs : Option σ) : { parser with cs }.InBuffer (fpc + 1) where
  mark := Nat.le_succ_of_le inBuffer.mark
  fieldStart := Nat.le_succ_of_le inBuffer.fieldStart
  fieldLen := Nat.le_succ_of_le inBuffer.fieldLen
  queryStart := inBuffer.queryStart

section Throws

variable {machine : Machine Act σ} {buffer : List UInt8} {fpc : Nat} {p : HttpRequestParser σ}

/-- A text that is not behind its end is a string. -/
theorem call_ok {callback : Element} {chars : List UInt8} {length : Nat} {parsed : Parsed}
    (short : length < 2 ^ 63) : ∃ after, callback.call chars length parsed = .ok after := by
  cases callback with
  | requestMethod | requestUri | httpVersion => exact ⟨_, rfl⟩
  | fragment | requestPath =>
      simp only [Element.call, toString_eq short]
      exact ⟨_, rfl⟩

theorem onRequestHttpField_ok {field value : List UInt8} {flen vlen : Nat} {parsed : Parsed}
    (named : flen < 2 ^ 63) (valued : vlen < 2 ^ 63) :
    ∃ after, onRequestHttpField field flen value vlen parsed = .ok after := by
  unfold onRequestHttpField
  rw [toString_eq named, toString_eq valued]
  split
  · exact ⟨_, rfl⟩
  · exact ⟨_, rfl⟩

/-- The query, from a start that an earlier call may have left. -/
theorem onRequestQuery_cases (short : fpc < 2 ^ 63) {start : Nat} (begun : start < 2 ^ 63)
    (chars : List UInt8) (parsed : Parsed) :
    (start ≤ fpc ∧ ∃ after, onRequestQuery chars (len start fpc) parsed = .ok after) ∨
      fpc < start ∧ onRequestQuery chars (len start fpc) parsed = .error .lengthError := by
  rcases Nat.lt_or_ge fpc start with reversed | ordered
  · refine .inr ⟨reversed, ?_⟩
    rw [onRequestQuery, toString, if_pos (le_len_of_lt reversed begun)]
    rfl
  · refine .inl ⟨ordered, ?_⟩
    have length : len start fpc < 2 ^ 63 := by
      rw [len_of_le ordered short]
      omega
    rw [onRequestQuery, toString_eq length]
    exact ⟨_, rfl⟩

/-- An action ends a query in front of its start, and throws, or it returns. -/
theorem act_cases (short : fpc < 2 ^ 63) (inBuffer : p.parser.InBuffer fpc) (act : Act) :
    (queryAct fpc p.parser.queryStart act = none ∧ ∃ fault, p.act buffer fpc act = .error fault) ∨
      ∃ q, queryAct fpc p.parser.queryStart act = some q.parser.queryStart ∧
        p.act buffer fpc act = .ok q ∧ q.parser.InBuffer fpc := by
  have mark := inBuffer.mark
  have fieldStart := inBuffer.fieldStart
  have fieldLen := inBuffer.fieldLen
  cases act with
  | mark | startValue =>
      exact .inr ⟨{ p with parser.mark := fpc }, rfl, rfl,
        { inBuffer with mark := Nat.le_refl fpc }⟩
  | startField =>
      exact .inr ⟨{ p with parser.fieldStart := fpc }, rfl, rfl,
        { inBuffer with fieldStart := Nat.le_refl fpc }⟩
  | writeField =>
      obtain ⟨length, known, shorter⟩ : ∃ length, len p.parser.fieldStart fpc = length ∧
          length ≤ fpc := ⟨fpc - p.parser.fieldStart, len_of_le fieldStart short, Nat.sub_le _ _⟩
      refine .inr ⟨{ p with parser.fieldLen := length }, rfl, ?_,
        { inBuffer with fieldLen := shorter }⟩
      rw [← known]
      rfl
  | startQuery =>
      refine .inr ⟨{ p with parser.queryStart := some fpc }, rfl, rfl,
        { inBuffer with queryStart := ?_ }⟩
      rintro start ⟨⟩
      exact short
  | writeValue =>
      have valued : len p.parser.mark fpc < 2 ^ 63 := by
        rw [len_of_le mark short]
        omega
      have returns : ∃ after, onRequestHttpField (buffer.drop p.parser.fieldStart)
          p.parser.fieldLen (buffer.drop p.parser.mark) (len p.parser.mark fpc) p.toParsed =
            .ok after := onRequestHttpField_ok (Nat.lt_of_le_of_lt fieldLen short) valued
      obtain ⟨after, called⟩ := returns
      refine .inr ⟨{ p with toParsed := after }, rfl, ?_, inBuffer⟩
      rw [HttpRequestParser.act, called]
      rfl
  | queryString =>
      unfold HttpRequestParser.act queryAct
      cases known : p.parser.queryStart with
      | none => exact .inl ⟨rfl, _, rfl⟩
      | some start =>
          rcases onRequestQuery_cases short (inBuffer.queryStart start known) (buffer.drop start)
            p.toParsed with ⟨ordered, after, called⟩ | ⟨reversed, called⟩
          · refine .inr ⟨{ p with toParsed := after }, ?_, ?_, inBuffer⟩
            · rw [Option.any_some, if_pos (decide_eq_true ordered), known]
            · dsimp only
              rw [called]
              rfl
          · refine .inl ⟨?_, .lengthError, ?_⟩
            · rw [Option.any_some, if_neg (by simpa using reversed)]
            · dsimp only
              rw [called]
              rfl
  | element callback =>
      have length : len p.parser.mark fpc < 2 ^ 63 := by
        rw [len_of_le mark short]
        omega
      have returns : ∃ after, callback.call (buffer.drop p.parser.mark) (len p.parser.mark fpc)
          p.toParsed = .ok after := call_ok length
      obtain ⟨after, called⟩ := returns
      refine .inr ⟨{ p with toParsed := after }, rfl, ?_, inBuffer⟩
      rw [HttpRequestParser.act, called]
      rfl

theorem acts_cases (short : fpc < 2 ^ 63) (inBuffer : p.parser.InBuffer fpc)
    (actions : List Act) :
    (actions.foldlM (queryAct fpc) p.parser.queryStart = none ∧
        ∃ fault, actions.foldlM (HttpRequestParser.act buffer fpc) p = .error fault) ∨
      ∃ q, actions.foldlM (queryAct fpc) p.parser.queryStart = some q.parser.queryStart ∧
        actions.foldlM (HttpRequestParser.act buffer fpc) p = .ok q ∧
        q.parser.InBuffer fpc := by
  induction actions generalizing p with
  | nil => exact .inr ⟨p, rfl, rfl, inBuffer⟩
  | cons act rest inductionHypothesis =>
      rw [List.foldlM_cons, List.foldlM_cons]
      rcases act_cases short inBuffer act with ⟨cut, fault, thrown⟩ | ⟨middle, uncut, acted, within⟩
      · rw [cut, thrown]
        exact .inl ⟨rfl, fault, rfl⟩
      · rw [uncut, acted]
        exact inductionHypothesis within

/-- The loop comes to the end of a query in front of its start, and throws, or it returns. It stops
at the end of the buffer, with an error, or in a final state. -/
theorem exec_cases (machine : Machine Act σ) (buffer : List UInt8) {rest : List UInt8}
    (short : fpc + rest.length < 2 ^ 63) {cs : σ} (state : p.parser.cs = some cs)
    (inBuffer : p.parser.InBuffer fpc) :
    (machine.cutsQuery fpc cs p.parser.queryStart rest = true ∧
        ∃ fault, HttpRequestParser.exec machine buffer fpc rest p = .error fault) ∨
      machine.cutsQuery fpc cs p.parser.queryStart rest = false ∧
        ∃ q stop, HttpRequestParser.exec machine buffer fpc rest p = .ok (q, stop) ∧
          (∀ start, q.parser.queryStart = some start → start < 2 ^ 63) ∧
          (rest ≠ [] → q.hasError = false → q.isFinished machine = 0 →
            stop = fpc + rest.length) := by
  induction rest generalizing fpc cs p with
  | nil => exact .inr ⟨rfl, p, fpc, rfl, inBuffer.queryStart, fun _ _ _ => rfl⟩
  | cons byte rest inductionHypothesis =>
      rw [List.length_cons] at short
      rw [HttpRequestParser.exec, Machine.cutsQuery, state, Option.bind_some]
      cases stepped : machine.step cs byte with
      | none =>
          refine .inr ⟨rfl, _, _, rfl, inBuffer.queryStart, fun _ healthy _ => ?_⟩
          simp [HttpRequestParser.hasError] at healthy
      | some transition =>
          dsimp only
          rcases acts_cases (by omega) inBuffer transition.actions with
            ⟨cut, fault, thrown⟩ | ⟨middle, uncut, acted, within⟩
          · rw [cut, thrown]
            exact .inl ⟨rfl, fault, rfl⟩
          · rw [uncut, acted]
            simp only [bind, Except.bind]
            by_cases done : transition.done = true
            · rw [done, if_pos rfl]
              refine .inr ⟨rfl, _, _, rfl, within.queryStart, fun _ _ unfinished => ?_⟩
              have final := machine.final_target cs byte transition stepped
              simp [HttpRequestParser.isFinished, final, done] at unfinished
            · rw [if_neg done, Bool.eq_false_iff.mpr done, Bool.not_false, Bool.true_and]
              rcases inductionHypothesis (p := { middle with parser.cs := some transition.target })
                (by omega) rfl (within.next _) with
                ⟨cut, fault, thrown⟩ | ⟨later, q, stop, ran, begun, whole⟩
              · exact .inl ⟨cut, fault, thrown⟩
              · refine .inr ⟨later, q, stop, ran, begun, fun _ healthy unfinished => ?_⟩
                rw [List.length_cons]
                rcases rest with _ | ⟨next, rest⟩
                · cases ran
                  rfl
                · have all := whole (List.cons_ne_nil _ _) healthy unfinished
                  omega

/-- A call throws if and only if a query ends in front of its start. -/
theorem execute_cases (machine : Machine Act σ) {result : List UInt8}
    (short : result.length < 2 ^ 63) {cs : σ} (state : p.parser.cs = some cs)
    (begun : ∀ start, p.parser.queryStart = some start → start < 2 ^ 63) :
    (p.cutsQuery machine result = true ∧ ∃ fault, p.execute machine result = .error fault) ∨
      p.cutsQuery machine result = false ∧
        ∃ q stop, p.execute machine result = .ok (q, stop, result.drop stop) ∧
          (∀ start, q.parser.queryStart = some start → start < 2 ^ 63) ∧
          (result ≠ [] → q.hasError = false → q.isFinished machine = 0 →
            result.drop stop = []) := by
  unfold HttpRequestParser.cutsQuery HttpRequestParser.execute HttpRequestParser.httpParserExecute
  rw [state, Option.any_some]
  by_cases empty : result = []
  · subst empty
    exact .inr ⟨rfl, p, 0, rfl, begun, absurd rfl⟩
  · rw [if_neg empty]
    have inBuffer : { p.parser with mark := 0, fieldStart := 0, fieldLen := 0 }.InBuffer 0 :=
      ⟨Nat.le_refl 0, Nat.le_refl 0, Nat.le_refl 0, begun⟩
    have fits : 0 + result.length < 2 ^ 63 := by rwa [Nat.zero_add]
    rcases exec_cases machine result
      (p := { p with parser := { p.parser with mark := 0, fieldStart := 0, fieldLen := 0 } })
      fits state inBuffer with
      ⟨cut, fault, thrown⟩ | ⟨uncut, q, stop, ran, begun, whole⟩
    · rw [thrown]
      exact .inl ⟨cut, fault, rfl⟩
    · rw [ran]
      refine .inr ⟨uncut, q, stop, rfl, begun, fun some_ healthy unfinished => ?_⟩
      rw [whole some_ healthy unfinished, Nat.zero_add, List.drop_length]

end Throws

section Loop

variable {buffSize : Nat}

theorem not_error {α : Type} (outcome : α) :
    ¬∃ fault : Fault, (.ok outcome : Except Fault α) = .error fault := by
  rintro ⟨fault, thrown⟩
  cases thrown

/-- Receiving a head throws if and only if a query ends in front of its start, when no result of
`read` is longer than what it was asked for. -/
theorem recvHead_throws_iff (machine : Machine Act σ) (connection : Connection)
    (size : buffSize < 2 ^ 63) {p : HttpRequestParser σ}
    (healthy : p.hasError = false)
    (begun : ∀ start, p.parser.queryStart = some start → start < 2 ^ 63)
    (fits : recvHead machine buffSize [] p connection ≠ .error .overrun) :
    (∃ fault, recvHead machine buffSize [] p connection = .error fault) ↔
      cutsQuery machine buffSize p connection = true := by
  induction connection generalizing p with
  | nil => exact iff_of_false (not_error _) Bool.false_ne_true
  | cons result rest inductionHypothesis =>
      obtain ⟨cs, state⟩ : ∃ cs, p.parser.cs = some cs := by
        rw [HttpRequestParser.hasError, Bool.or_eq_false_iff] at healthy
        exact Option.isSome_iff_exists.mp (Option.isNone_eq_false_iff.mp healthy.2)
      have within : result.length ≤ buffSize := by
        by_contra exceeds
        rw [recvHead, List.length_nil, Nat.sub_zero, if_pos (Nat.lt_of_not_le exceeds)] at fits
        exact fits rfl
      by_cases empty : result = []
      · rw [recvHead, cutsQuery, if_neg (by simp [empty]), if_pos empty, if_pos (.inr empty)]
        exact iff_of_false (not_error _) Bool.false_ne_true
      · rw [recvHead_cons empty within] at fits ⊢
        rw [cutsQuery, if_neg (by simp [empty, within])]
        rcases execute_cases machine (Nat.lt_of_le_of_lt within size) state begun with
          ⟨cut, fault, thrown⟩ | ⟨uncut, q, stop, ran, begun, whole⟩
        · rw [cut, thrown]
          exact iff_of_true ⟨fault, rfl⟩ rfl
        · rw [ran] at fits
          rw [uncut, ran, Bool.false_or]
          simp only [Except.bind] at fits ⊢
          by_cases failed : q.hasError = true
          · rw [if_pos failed, if_pos (Or.inl failed)]
            exact iff_of_false (not_error _) Bool.false_ne_true
          · have healthy := Bool.eq_false_iff.mpr failed
            rw [if_neg failed] at fits ⊢
            by_cases finished : q.isFinished machine ≠ 0
            · rw [if_pos finished, if_pos (Or.inr (Or.inr finished))]
              refine iff_of_false ?_ Bool.false_ne_true
              split
              · exact not_error _
              · exact not_error _
            · rw [whole empty healthy (Decidable.not_not.mp finished), List.length_nil,
                Int.natCast_zero, if_neg finished] at fits ⊢
              by_cases full : 0 = toInt buffSize
              · rw [if_pos full, if_pos (Or.inr (Or.inl full.symm))]
                exact iff_of_false (not_error _) Bool.false_ne_true
              · rw [if_neg full] at fits ⊢
                rw [if_neg (by simp [failed, finished, Ne.symm full])]
                exact inductionHypothesis healthy begun fits

end Loop

end Sylar.Http
