import Sylar.Http.HttpConnection

/-!
# The response parser stays in its buffer

A call of `execute` on received bytes touches no others, provided the actions of
the grammar come in an order that the grammar ensures: between the beginning of
the name of a field and the callback for the field lies the end of the name. A
call that neither fails nor finishes uses up what it is given.
-/

namespace Sylar.Http

variable {σ : Type}

/-- Whether the name of a field has begun and not ended; no field is delivered
while it has. -/
def ClientAct.naming (open_ : Bool) : ClientAct → Option Bool
  | .startField => some true
  | .writeField => some false
  | .writeValue => if open_ then none else some false
  | .mark | .startValue | .writeContentLen | .writeConnectionClose | .reasonPhrase
  | .statusCode | .httpVersion | .chunkSize | .transChunked => some open_

/-- The states of the automaton know whether a name is open. -/
def Machine.Orderly (machine : Machine ClientAct σ) : Prop :=
  ∃ naming : σ → Bool, ∀ cs byte transition, machine.step cs byte = some transition →
    transition.actions.foldlM ClientAct.naming (naming cs) = some (naming transition.target)

namespace HttpResponseParser

/-- The registers are not beyond the byte `fpc`, and the name of a field has ended
before it unless it is open. -/
structure Within (fpc : Nat) (open_ : Bool) (parser : HttpclientParser σ) : Prop where
  mark : parser.mark ≤ fpc
  fieldStart : parser.fieldStart ≤ fpc
  fieldLen : parser.fieldLen ≤ fpc
  named : open_ = false → parser.fieldStart + parser.fieldLen ≤ fpc

theorem Within.mono {fpc later : Nat} {open_ : Bool} {parser : HttpclientParser σ}
    (within : Within fpc open_ parser) (ordered : fpc ≤ later) : Within later open_ parser where
  mark := within.mark.trans ordered
  fieldStart := within.fieldStart.trans ordered
  fieldLen := within.fieldLen.trans ordered
  named closed := (within.named closed).trans ordered

/-- The automaton and what was parsed so far are no registers. -/
theorem Within.setState {fpc : Nat} {open_ : Bool} {parser : HttpclientParser σ}
    (within : Within fpc open_ parser) (cs : Option σ) :
    Within fpc open_ { parser with cs := cs } :=
  ⟨within.mark, within.fieldStart, within.fieldLen, within.named⟩

/-- A call begins with the registers at 0. -/
theorem Within.fresh (open_ : Bool) (parser : HttpclientParser σ) :
    Within 0 open_ { parser with mark := 0, fieldStart := 0, fieldLen := 0 } :=
  ⟨Nat.le_refl 0, Nat.le_refl 0, Nat.le_refl 0, fun _ => Nat.le_refl 0⟩

section

variable {buffer : List UInt8} {fpc : Nat}

theorem len_eq {start : Nat} (ordered : start ≤ fpc) (short : fpc < 2 ^ 64) :
    len start fpc = fpc - start := by
  simp only [len]
  omega

theorem textAt_ok {start : Nat} (inside : start ≤ buffer.length) :
    textAt buffer start = .ok (cString (buffer.drop start)) := by
  rw [textAt, if_neg (by omega)]
  rfl

theorem substring_ok {start length : Nat} (inside : start + length ≤ buffer.length) :
    substring buffer start length = .ok ((buffer.drop start).take length) := by
  rw [substring, if_neg (by omega)]
  rfl

/-- The callback of a field, with its name and its value in the buffer. -/
theorem onHttpField_ok {field flen value vlen : Nat} (name : field + flen ≤ buffer.length)
    (text : value + vlen ≤ buffer.length) (parsed : ParsedResponse) :
    ∃ later, parsed.onHttpField buffer field flen value vlen = .ok later := by
  unfold ParsedResponse.onHttpField
  split
  · exact ⟨_, rfl⟩
  · rw [substring_ok name, substring_ok text]
    exact ⟨_, rfl⟩

theorem onVersion_ok {start length : Nat} (inside : start + length ≤ buffer.length)
    (parsed : ParsedResponse) : ∃ later, parsed.onVersion buffer start length = .ok later := by
  unfold ParsedResponse.onVersion
  rw [textAt_ok (by omega), substring_ok inside]
  simp only [bind, Except.bind]
  split
  · exact ⟨_, rfl⟩
  · split
    · exact ⟨_, rfl⟩
    · exact ⟨_, rfl⟩

theorem onReason_ok {start length : Nat} (inside : start + length ≤ buffer.length)
    (parsed : ParsedResponse) : ∃ later, parsed.onReason buffer start length = .ok later := by
  unfold ParsedResponse.onReason
  rw [substring_ok inside]
  exact ⟨_, rfl⟩

theorem onStatus_ok {start : Nat} (inside : start ≤ buffer.length) (parsed : ParsedResponse) :
    ∃ later, parsed.onStatus buffer start = .ok later := by
  unfold ParsedResponse.onStatus
  rw [textAt_ok inside]
  exact ⟨_, rfl⟩

/-- One action in an orderly place stays in the buffer. -/
theorem act_ok (inside : fpc < buffer.length) (short : buffer.length < 2 ^ 64)
    {p : HttpResponseParser σ} {action : ClientAct} {before after : Bool}
    (within : Within fpc before p.parser) (named : action.naming before = some after) :
    ∃ q, p.act buffer fpc action = .ok q ∧ Within fpc after q.parser ∧
      q.parser.cs = p.parser.cs := by
  have marked := within.mark
  have started := within.fieldStart
  have length : len p.parser.mark fpc = fpc - p.parser.mark := len_eq marked (by omega)
  cases action with
  | mark | startValue =>
      cases named
      exact ⟨_, rfl, { within with mark := Nat.le_refl fpc }, rfl⟩
  | startField =>
      cases named
      exact ⟨_, rfl, { within with fieldStart := Nat.le_refl fpc, named := nofun }, rfl⟩
  | writeField =>
      cases named
      have closed : len p.parser.fieldStart fpc = fpc - p.parser.fieldStart :=
        len_eq started (by omega)
      simp only [act, closed]
      refine ⟨_, rfl, { within with fieldLen := ?_, named := fun _ => ?_ }, rfl⟩
      · exact Nat.sub_le _ _
      · exact (Nat.add_sub_cancel' started).le
  | writeContentLen =>
      cases named
      simp only [act, textAt_ok (show p.parser.mark ≤ buffer.length by omega), bind, Except.bind]
      exact ⟨_, rfl, ⟨within.mark, within.fieldStart, within.fieldLen, within.named⟩, rfl⟩
  | writeConnectionClose =>
      cases named
      exact ⟨p, rfl, within, rfl⟩
  | writeValue =>
      have closed : before = false ∧ after = false := by
        cases before with
        | true => cases named
        | false => exact ⟨rfl, (Option.some.inj named).symm⟩
      obtain ⟨rfl, rfl⟩ := closed
      have name := within.named rfl
      obtain ⟨later, delivered⟩ := onHttpField_ok
        (show p.parser.fieldStart + p.parser.fieldLen ≤ buffer.length by omega)
        (show p.parser.mark + (fpc - p.parser.mark) ≤ buffer.length by omega) p.toParsedResponse
      simp only [act, length]
      rw [delivered]
      exact ⟨_, rfl, within, rfl⟩
  | reasonPhrase =>
      cases named
      obtain ⟨later, delivered⟩ := onReason_ok
        (show p.parser.mark + (fpc - p.parser.mark) ≤ buffer.length by omega) p.toParsedResponse
      simp only [act, length]
      rw [delivered]
      exact ⟨_, rfl, within, rfl⟩
  | statusCode =>
      cases named
      obtain ⟨later, delivered⟩ := onStatus_ok
        (show p.parser.mark ≤ buffer.length by omega) p.toParsedResponse
      simp only [act]
      rw [delivered]
      exact ⟨_, rfl, within, rfl⟩
  | httpVersion =>
      cases named
      obtain ⟨later, delivered⟩ := onVersion_ok
        (show p.parser.mark + (fpc - p.parser.mark) ≤ buffer.length by omega) p.toParsedResponse
      simp only [act, length]
      rw [delivered]
      exact ⟨_, rfl, within, rfl⟩
  | chunkSize =>
      cases named
      simp only [act, textAt_ok (show p.parser.mark ≤ buffer.length by omega), bind, Except.bind]
      exact ⟨_, rfl, ⟨within.mark, within.fieldStart, within.fieldLen, within.named⟩, rfl⟩
  | transChunked =>
      cases named
      exact ⟨_, rfl, ⟨within.mark, within.fieldStart, within.fieldLen, within.named⟩, rfl⟩

/-- The actions of a transition. -/
theorem acts_ok (inside : fpc < buffer.length) (short : buffer.length < 2 ^ 64)
    {p : HttpResponseParser σ} {actions : List ClientAct} {before after : Bool}
    (within : Within fpc before p.parser)
    (named : actions.foldlM ClientAct.naming before = some after) :
    ∃ q, actions.foldlM (act buffer fpc) p = .ok q ∧ Within fpc after q.parser := by
  induction actions generalizing p before with
  | nil =>
      cases named
      exact ⟨p, rfl, within⟩
  | cons action rest inductionHypothesis =>
      obtain ⟨middle, first, others⟩ := Option.bind_eq_some_iff.mp named
      obtain ⟨q, acted, withinMiddle, _⟩ := act_ok inside short within first
      obtain ⟨r, actedOn, withinAfter⟩ := inductionHypothesis withinMiddle others
      refine ⟨r, ?_, withinAfter⟩
      rw [List.foldlM_cons, acted]
      exact actedOn

end

/-- What a run of the automaton from the byte `fpc` on leaves behind. -/
structure Ran (machine : Machine ClientAct σ) (fpc stop : Nat) (q : HttpResponseParser σ)
    (nread : Nat) : Prop where
  within : ∃ last < stop, ∃ open_, Within last open_ q.parser
  bounded : fpc ≤ nread ∧ nread ≤ stop
  /-- An automaton that has not failed has taken a byte. -/
  progress : q.parser.cs.isNone = true ∨ fpc < nread
  /-- It goes on while it has not finished. -/
  unfinished : q.isFinished machine = 0 → nread = stop

/-- The loop of the automaton stays in the buffer. -/
theorem exec_ok {machine : Machine ClientAct σ} {naming : σ → Bool}
    (orderly : ∀ cs byte transition, machine.step cs byte = some transition →
      transition.actions.foldlM ClientAct.naming (naming cs) = some (naming transition.target))
    {buffer : List UInt8} (short : buffer.length < 2 ^ 64) {rest : List UInt8} {fpc last : Nat}
    (there : fpc + rest.length = buffer.length) (some_ : rest ≠ []) (before : last ≤ fpc)
    {p : HttpResponseParser σ} {open_ : Bool} (within : Within last open_ p.parser)
    (known : ∀ cs, p.parser.cs = some cs → open_ = naming cs) :
    ∃ q nread, p.exec machine buffer fpc rest = .ok (q, nread) ∧
      Ran machine fpc buffer.length q nread := by
  induction rest generalizing fpc last p open_ with
  | nil => exact absurd rfl some_
  | cons byte rest inductionHypothesis =>
      rw [List.length_cons] at there
      have inside : fpc < buffer.length := by omega
      rw [exec]
      split
      · refine ⟨_, fpc, rfl, ⟨last, by omega, open_, within.setState none⟩, ⟨le_rfl, by omega⟩,
          .inl rfl, ?_⟩
        intro unfinished
        cases unfinished
      · rename_i transition stepped
        obtain ⟨cs, state, step⟩ := Option.bind_eq_some_iff.mp stepped
        cases known cs state
        obtain ⟨q, acted, withinAfter⟩ :=
          acts_ok inside short (within.mono before) (orderly cs byte transition step)
        rw [acted]
        simp only [bind, Except.bind]
        have enters := machine.final_target cs byte transition step
        split
        · rename_i done
          refine ⟨_, fpc + 1, rfl, ⟨fpc, inside, _, withinAfter.setState _⟩, ⟨by omega, by omega⟩,
            .inr (by omega), ?_⟩
          intro unfinished
          rw [done] at enters
          simp [isFinished, enters] at unfinished
        · cases rest with
          | nil =>
              simp only [List.length_nil] at there
              exact ⟨_, fpc + 1, rfl, ⟨fpc, inside, _, withinAfter.setState _⟩,
                ⟨by omega, by omega⟩, .inr (by omega), fun _ => by omega⟩
          | cons second more =>
              have further : fpc + 1 + (second :: more).length = buffer.length := by omega
              let next : HttpResponseParser σ := { q with parser.cs := some transition.target }
              have withinNext : Within fpc (naming transition.target) next.parser :=
                withinAfter.setState _
              obtain ⟨r, nread, ran, left⟩ := inductionHypothesis further (List.cons_ne_nil _ _)
                (Nat.le_succ fpc) withinNext fun cs same => by cases same; rfl
              have bounded := left.bounded
              refine ⟨r, nread, ran, left.within, ⟨by omega, bounded.2⟩, ?_, left.unfinished⟩
              exact left.progress.imp_right Nat.lt_of_succ_lt

/-- `execute` stays in the buffer, and its checks do not fail. -/
theorem execute_ok {machine : Machine ClientAct σ} (orderly : machine.Orderly)
    {data : List UInt8} (some_ : data ≠ []) (short : data.length < 2 ^ 64) (chunck : Bool)
    (p : HttpResponseParser σ) :
    ∃ q nread, p.execute machine data chunck = .ok (q, nread, data.drop nread) ∧
      nread ≤ data.length ∧ (q.hasError = false → 0 < nread) ∧
      (q.isFinished machine = 0 → nread = data.length) := by
  obtain ⟨naming, orderly⟩ := orderly
  have run : ∀ p : HttpResponseParser σ, ∃ q nread,
      p.httpclientParserExecute machine data = .ok (q, nread) ∧
        Ran machine 0 data.length q nread := by
    intro p
    obtain ⟨q, nread, ran, left⟩ : ∃ q nread,
        exec machine data 0 data
          { p with parser := { p.parser with mark := 0, fieldStart := 0, fieldLen := 0 } } =
            .ok (q, nread) ∧ Ran machine 0 data.length q nread := by
      match same : p.parser.cs with
      | none =>
          exact exec_ok orderly short (Nat.zero_add _) some_ le_rfl (Within.fresh false p.parser)
            fun cs known => by simp [same] at known
      | some cs =>
          refine exec_ok orderly short (Nat.zero_add _) some_ le_rfl
            (Within.fresh (naming cs) p.parser) fun other known => ?_
          rw [Option.some.inj (same.symm.trans known)]
    obtain ⟨last, inside, open_, within⟩ := left.within
    have mark := within.mark
    have fieldStart := within.fieldStart
    have fieldLen := within.fieldLen
    refine ⟨q, nread, ?_, left⟩
    rw [httpclientParserExecute, ran]
    simp only [bind, Except.bind]
    rw [if_pos ⟨by omega, by omega, by omega⟩]
    rfl
  obtain ⟨q, nread, ran, left⟩ := run (if chunck then { p with parser := .init machine } else p)
  refine ⟨q, nread, ?_, left.bounded.2, fun healthy => ?_, left.unfinished⟩
  · rw [execute, ran]
    simp only [bind, Except.bind]
    rw [if_neg (by have := left.bounded; omega)]
    rfl
  · rcases left.progress with failed | further
    · simp [hasError, failed] at healthy
    · exact further

section Untouched

variable {buffer : List UInt8} {parsed later : ParsedResponse}

theorem onReason_body {start length : Nat}
    (called : parsed.onReason buffer start length = .ok later) :
    later.data.body = parsed.data.body := by
  obtain ⟨_, _, same⟩ := bind_ok called
  cases same
  rfl

theorem onStatus_body {start : Nat} (called : parsed.onStatus buffer start = .ok later) :
    later.data.body = parsed.data.body := by
  obtain ⟨_, _, same⟩ := bind_ok called
  cases same
  rfl

theorem onVersion_body {start length : Nat}
    (called : parsed.onVersion buffer start length = .ok later) :
    later.data.body = parsed.data.body := by
  obtain ⟨text, _, tested⟩ := bind_ok called
  split at tested
  · cases tested
    rfl
  · split at tested
    · cases tested
      rfl
    · obtain ⟨_, _, same⟩ := bind_ok tested
      cases same
      rfl

theorem onHttpField_body {field flen value vlen : Nat}
    (called : parsed.onHttpField buffer field flen value vlen = .ok later) :
    later.data.body = parsed.data.body := by
  unfold ParsedResponse.onHttpField at called
  split at called
  · cases called
    rfl
  · obtain ⟨_, _, next⟩ := bind_ok called
    obtain ⟨_, _, same⟩ := bind_ok next
    cases same
    rfl

/-- No action writes the body. -/
theorem act_body {fpc : Nat} {p q : HttpResponseParser σ} {action : ClientAct}
    (acted : p.act buffer fpc action = .ok q) : q.data.body = p.data.body := by
  have called : ∀ {result : Except Fault ParsedResponse},
      (∀ later, result = .ok later → later.data.body = p.data.body) →
      p.call result = .ok q → q.data.body = p.data.body := by
    intro result keeps through
    obtain ⟨later, ran, same⟩ := bind_ok through
    cases same
    exact keeps later ran
  cases action with
  | mark | startValue | startField | writeConnectionClose | transChunked =>
      cases acted
      rfl
  | writeField =>
      simp only [act] at acted
      generalize len p.parser.fieldStart fpc = length at acted
      cases acted
      rfl
  | writeContentLen | chunkSize =>
      obtain ⟨_, _, same⟩ := bind_ok acted
      cases same
      rfl
  | writeValue => exact called (fun _ => onHttpField_body) acted
  | reasonPhrase => exact called (fun _ => onReason_body) acted
  | statusCode => exact called (fun _ => onStatus_body) acted
  | httpVersion => exact called (fun _ => onVersion_body) acted

theorem acts_body {fpc : Nat} {actions : List ClientAct} {p q : HttpResponseParser σ}
    (acted : actions.foldlM (act buffer fpc) p = .ok q) : q.data.body = p.data.body := by
  induction actions generalizing p with
  | nil =>
      cases acted
      rfl
  | cons action rest inductionHypothesis =>
      obtain ⟨middle, first, others⟩ := bind_ok acted
      exact (inductionHypothesis others).trans (act_body first)

theorem exec_body {machine : Machine ClientAct σ} {rest : List UInt8} {fpc nread : Nat}
    {p q : HttpResponseParser σ} (ran : p.exec machine buffer fpc rest = .ok (q, nread)) :
    q.data.body = p.data.body := by
  induction rest generalizing fpc p with
  | nil =>
      cases ran
      rfl
  | cons byte rest inductionHypothesis =>
      rw [exec] at ran
      split at ran
      · cases ran
        rfl
      · rename_i transition _
        obtain ⟨middle, acted, onward⟩ := bind_ok ran
        rw [← acts_body acted]
        split at onward
        · cases onward
          rfl
        · exact inductionHypothesis
            (p := { middle with parser.cs := some transition.target }) onward

theorem execute_body {machine : Machine ClientAct σ} {data left : List UInt8} {chunck : Bool}
    {nread : Nat} {p q : HttpResponseParser σ}
    (executed : p.execute machine data chunck = .ok (q, nread, left)) :
    q.data.body = p.data.body ∧ left.length ≤ data.length := by
  obtain ⟨⟨middle, offset⟩, ran, moved⟩ := bind_ok executed
  obtain ⟨⟨last, stop⟩, loop, checked⟩ := bind_ok ran
  dsimp only at checked moved
  have same : middle = last := by
    split at checked
    · cases checked
      rfl
    · cases checked
      rfl
  have body : last.data.body = p.data.body := by
    rw [exec_body loop]
    split <;> rfl
  split at moved
  · cases moved
  · cases moved
    refine ⟨by rw [same, body], ?_⟩
    rw [List.length_drop]
    exact Nat.sub_le _ _

end Untouched

end HttpResponseParser

end Sylar.Http
