import Sylar.Http.Tokens

/-!
# What `execute` does with a part of a head

One result of `read` at a time, `http_parser_execute` delivers the tokens of the
head. `Window` says where the result lies in the head, and `Holds` what the
registers of the parser are, given the marks in the head.
-/

namespace Sylar.Http

variable {σ : Type}

/-- The first `count` bytes of a buffer are those at the position `origin` of a
head, and came with one result of `read`. -/
structure Window (head : List UInt8) (start_ : Nat → Nat) (origin : Nat) (buffer : List UInt8)
    (count : Nat) : Prop where
  same : (head.drop origin).take count = buffer.take count
  start : ∀ fpc < count, start_ (origin + fpc) = origin
  short : ∀ position < origin + count, position - start_ position < 2 ^ 63

/-- The marks lie up to a position. -/
structure Marks.Within (marks : Marks) (position : Nat) : Prop where
  mark : marks.mark ≤ position
  fieldStart : marks.fieldStart ≤ position
  fieldStop : ∀ stop, marks.fieldStop = some stop → stop ≤ position
  queryStart : ∀ start, marks.queryStart = some start → start ≤ position

theorem Marks.Within.mono {marks : Marks} {position later : Nat} (within : marks.Within position)
    (ordered : position ≤ later) : marks.Within later where
  mark := Nat.le_trans within.mark ordered
  fieldStart := Nat.le_trans within.fieldStart ordered
  fieldStop stop known := Nat.le_trans (within.fieldStop stop known) ordered
  queryStart start known := Nat.le_trans (within.queryStart start known) ordered

/-- The registers of the parser at the byte `fpc` of a window. -/
structure Holds (start_ : Nat → Nat) (origin fpc : Nat) (marks : Marks) (parser : HttpParser σ) :
    Prop where
  within : marks.Within (origin + fpc)
  mark : parser.mark = max marks.mark origin - origin
  fieldStart : parser.fieldStart = max marks.fieldStart origin - origin
  fieldLen : ∀ stop, marks.fieldStop = some stop →
    parser.fieldLen = stop - max marks.fieldStart origin
  queryStart : parser.queryStart = marks.queryStart.map fun start => start - start_ start

theorem Holds.mono {start_ : Nat → Nat} {origin fpc later : Nat} {marks : Marks}
    {parser : HttpParser σ} (holds : Holds start_ origin fpc marks parser)
    (ordered : fpc ≤ later) : Holds start_ origin later marks parser :=
  { holds with within := holds.within.mono (Nat.add_le_add_left ordered origin) }

/-- The state of the automaton does not concern the other registers. -/
theorem Holds.setState {start_ : Nat → Nat} {origin fpc : Nat} {marks : Marks}
    {parser : HttpParser σ} (holds : Holds start_ origin fpc marks parser) (cs : Option σ) :
    Holds start_ origin fpc marks { parser with cs := cs } :=
  ⟨holds.within, holds.mark, holds.fieldStart, holds.fieldLen, holds.queryStart⟩

/-- A call begins with fresh registers, all but the start of the query. -/
theorem Holds.fresh {start_ : Nat → Nat} {origin : Nat} {marks : Marks} {parser : HttpParser σ}
    (within : marks.Within origin)
    (queryStart : parser.queryStart = marks.queryStart.map fun start => start - start_ start) :
    Holds start_ origin 0 marks { parser with mark := 0, fieldStart := 0, fieldLen := 0 } where
  within := within
  mark := by
    have bound := within.mark
    show 0 = max marks.mark origin - origin
    omega
  fieldStart := by
    have bound := within.fieldStart
    show 0 = max marks.fieldStart origin - origin
    omega
  fieldLen stop known := by
    have bound := within.fieldStop stop known
    show 0 = stop - max marks.fieldStart origin
    omega
  queryStart := queryStart

section Deliver

variable {head buffer : List UInt8} {start_ : Nat → Nat} {origin count fpc : Nat}

/-- The bytes of a window, read from the head and from the buffer. -/
theorem Window.take (window : Window head start_ origin buffer count) {start length : Nat}
    (inside : start + length ≤ count) :
    (head.drop (origin + start)).take length = (buffer.drop start).take length := by
  have same := congrArg (fun bytes => (bytes.drop start).take length) window.same
  simp only [List.drop_take, List.take_take, List.drop_drop] at same
  rwa [Nat.min_eq_left (by omega)] at same

/-- One action delivers the tokens it completes. -/
theorem act_deliver (window : Window head start_ origin buffer count) (inside : fpc < count)
    {marks after : Marks} {parser : HttpParser σ}
    (holds : Holds start_ origin fpc marks parser) {act : Act} {tokens : List Token}
    (found : marks.act (origin + fpc) act = some (after, tokens))
    (framed : ∀ token ∈ tokens, token.Framed head) :
    ∃ later, Holds start_ origin fpc after later ∧ later.cs = parser.cs ∧
      ∀ parsed, HttpRequestParser.act buffer fpc { toParsed := parsed, parser := parser } act =
        (do
          let parsed ← tokens.foldlM (Token.deliver head start_) parsed
          return { toParsed := parsed, parser := later }) := by
  have here := window.start fpc inside
  have short : fpc < 2 ^ 63 := by
    have bound := window.short (origin + fpc) (by omega)
    rwa [here, Nat.add_sub_cancel_left] at bound
  have markBound := holds.within.mark
  have fieldBound := holds.within.fieldStart
  cases act with
  | mark | startValue =>
      cases found
      refine ⟨{ parser with mark := fpc }, ?_, rfl, fun _ => rfl⟩
      exact {
        holds with
        within := { holds.within with mark := Nat.le_refl _ }
        mark := by show fpc = max (origin + fpc) origin - origin; omega }
  | startField =>
      cases found
      refine ⟨{ parser with fieldStart := fpc }, ?_, rfl, fun _ => rfl⟩
      exact {
        holds with
        within := { holds.within with fieldStart := Nat.le_refl _, fieldStop := nofun }
        fieldStart := by show fpc = max (origin + fpc) origin - origin; omega
        fieldLen := nofun }
  | writeField =>
      cases found
      refine ⟨{ parser with fieldLen := len parser.fieldStart fpc }, ?_, rfl, fun _ => rfl⟩
      exact {
        holds with
        within := {
          holds.within with
          fieldStop := fun stop known => (Option.some.inj known) ▸ Nat.le_refl _ }
        fieldLen := fun stop known => by
          cases known
          show len parser.fieldStart fpc = origin + fpc - max marks.fieldStart origin
          rw [holds.fieldStart, len_of_le (by omega) (by omega)]
          omega }
  | startQuery =>
      cases found
      refine ⟨{ parser with queryStart := some fpc }, ?_, rfl, fun _ => rfl⟩
      exact {
        holds with
        within := {
          holds.within with
          queryStart := fun start known => (Option.some.inj known) ▸ Nat.le_refl _ }
        queryStart := by
          show some fpc = some (origin + fpc - start_ (origin + fpc))
          rw [here, Nat.add_sub_cancel_left] }
  | writeValue =>
      obtain ⟨stop, known, pair⟩ := Option.map_eq_some_iff.mp found
      cases pair
      have stopBound := holds.within.fieldStop stop known
      refine ⟨parser, holds, rfl, fun parsed => ?_⟩
      have name : (head.drop (max marks.fieldStart origin)).take
            (stop - max marks.fieldStart origin) =
          (buffer.drop parser.fieldStart).take (stop - max marks.fieldStart origin) := by
        rw [← window.take (by rw [holds.fieldStart]; omega), holds.fieldStart]
        congr 2
        omega
      have value : (head.drop (max marks.mark origin)).take
            (origin + fpc - max marks.mark origin) =
          (buffer.drop parser.mark).take (origin + fpc - max marks.mark origin) := by
        rw [← window.take (by rw [holds.mark]; omega), holds.mark]
        congr 2
        omega
      have valueLength : len parser.mark fpc = origin + fpc - max marks.mark origin := by
        rw [holds.mark, len_of_le (by omega) (by omega)]
        omega
      simp only [HttpRequestParser.act, List.foldlM_cons, List.foldlM_nil, Token.deliver, here,
        holds.fieldLen stop known, valueLength, onRequestHttpField, toString_congr name,
        toString_congr value, bind_pure]
  | queryString =>
      obtain ⟨start, known, pair⟩ := Option.map_eq_some_iff.mp found
      cases pair
      have startBound := holds.within.queryStart start known
      refine ⟨parser, holds, rfl, fun parsed => ?_⟩
      have queryStart := holds.queryStart
      rw [known, Option.map_some] at queryStart
      have chars : toString (head.drop (origin + (start - start_ start)))
            (len (start - start_ start) fpc) =
          toString (buffer.drop (start - start_ start)) (len (start - start_ start) fpc) := by
        by_cases ordered : start - start_ start ≤ fpc
        · refine toString_congr (window.take ?_)
          rw [len_of_le ordered (by omega)]
          omega
        · have huge := le_len_of_lt (Nat.lt_of_not_le ordered) (window.short start (by omega))
          rw [toString, toString, if_pos huge, if_pos huge]
      simp only [HttpRequestParser.act, queryStart, List.foldlM_cons, List.foldlM_nil,
        Token.deliver, here, Nat.add_sub_cancel_left, onRequestQuery, chars, bind_pure]
  | element callback =>
      cases found
      refine ⟨parser, holds, rfl, fun parsed => ?_⟩
      have length : len parser.mark fpc = origin + fpc - max marks.mark origin := by
        rw [holds.mark, len_of_le (by omega) (by omega)]
        omega
      have same : (head.drop (max marks.mark origin)).take
            (origin + fpc - max marks.mark origin + 1) =
          (buffer.drop parser.mark).take (origin + fpc - max marks.mark origin + 1) := by
        rw [← window.take (by rw [holds.mark]; omega), holds.mark]
        congr 2
        omega
      have called : callback.call (head.drop (max marks.mark origin))
            (origin + fpc - max marks.mark origin) parsed =
          callback.call (buffer.drop parser.mark)
            (origin + fpc - max marks.mark origin) parsed := by
        refine call_congr same ?_
        rintro rfl
        have blank : head[origin + fpc]? = some 32 := framed _ List.mem_cons_self
        rw [List.getElem?_drop, ← blank]
        congr 1
        omega
      simp only [HttpRequestParser.act, List.foldlM_cons, List.foldlM_nil, Token.deliver, here,
        length, called, bind_pure]

/-- The actions of a transition deliver their tokens in order. -/
theorem acts_deliver (window : Window head start_ origin buffer count) (inside : fpc < count)
    {actions : List Act} {marks after : Marks} {parser : HttpParser σ}
    (holds : Holds start_ origin fpc marks parser) {tokens : List Token}
    (found : marks.acts (origin + fpc) actions = some (after, tokens))
    (framed : ∀ token ∈ tokens, token.Framed head) :
    ∃ later, Holds start_ origin fpc after later ∧ later.cs = parser.cs ∧
      ∀ parsed, actions.foldlM (HttpRequestParser.act buffer fpc)
          { toParsed := parsed, parser := parser } =
        (do
          let parsed ← tokens.foldlM (Token.deliver head start_) parsed
          return { toParsed := parsed, parser := later }) := by
  induction actions generalizing marks parser tokens with
  | nil =>
      cases found
      exact ⟨parser, holds, rfl, fun _ => rfl⟩
  | cons act rest inductionHypothesis =>
      simp only [Marks.acts, Option.bind_eq_bind, Option.bind_eq_some_iff, Option.pure_def,
        Option.some.injEq] at found
      obtain ⟨⟨between, first⟩, foundFirst, ⟨last, more⟩, foundMore, pair⟩ := found
      cases pair
      obtain ⟨middle, holdsMiddle, sameFirst, deliversFirst⟩ := act_deliver window inside holds
        foundFirst fun token member => framed token (List.mem_append_left _ member)
      obtain ⟨later, holdsLater, sameMore, deliversMore⟩ := inductionHypothesis holdsMiddle
        foundMore fun token member => framed token (List.mem_append_right _ member)
      refine ⟨later, holdsLater, sameMore.trans sameFirst, fun parsed => ?_⟩
      simp only [List.foldlM_cons, List.foldlM_append, deliversFirst, bind_assoc, pure_bind,
        deliversMore]

/-- A complete head in the buffer: all tokens are delivered, and the automaton
stops behind it in a final state. -/
theorem exec_complete (machine : Machine Act σ) {left : List UInt8} (extra : List UInt8)
    (window : Window head start_ origin buffer (fpc + left.length))
    {cs : σ} {marks : Marks} {parser : HttpParser σ}
    (holds : Holds start_ origin fpc marks parser) (state : parser.cs = some cs)
    {tokens : List Token} (scanned : machine.scan (origin + fpc) cs marks left = some tokens)
    (framed : ∀ token ∈ tokens, token.Framed head) :
    ∃ later final, later.cs = some final ∧ machine.final final = true ∧
      ∀ parsed, HttpRequestParser.exec machine buffer fpc (left ++ extra)
          { toParsed := parsed, parser := parser } =
        (do
          let parsed ← tokens.foldlM (Token.deliver head start_) parsed
          return ({ toParsed := parsed, parser := later }, fpc + left.length)) := by
  induction left generalizing fpc cs marks parser tokens with
  | nil => cases scanned
  | cons byte rest inductionHypothesis =>
      obtain ⟨transition, after, first, stepped, found, ends | continues⟩ :=
        Machine.scan_cons scanned
      · obtain ⟨done, rfl, rfl⟩ := ends
        obtain ⟨later, _, _, delivers⟩ := acts_deliver window (by simp) holds found framed
        refine ⟨{ later with cs := some transition.target }, transition.target, rfl, ?_,
          fun parsed => ?_⟩
        · rw [machine.final_target cs byte transition stepped, done]
        · simp only [List.cons_append, HttpRequestParser.exec, state, Option.bind_some, stepped,
            delivers, bind_assoc, pure_bind, done, if_true, List.length_cons, List.length_nil,
            Nat.zero_add]
      · obtain ⟨going, more, scannedMore, rfl⟩ := continues
        obtain ⟨middle, holdsMiddle, _, delivers⟩ := acts_deliver window (by simp) holds found
          fun token member => framed token (List.mem_append_left _ member)
        have onward : fpc + (byte :: rest).length = fpc + 1 + rest.length := by
          simp only [List.length_cons]
          omega
        rw [onward] at window ⊢
        obtain ⟨later, final, ends, isFinal, deliversMore⟩ := inductionHypothesis window
          ((holdsMiddle.mono (Nat.le_succ fpc)).setState (some transition.target)) rfl scannedMore
          fun token member => framed token (List.mem_append_right _ member)
        refine ⟨later, final, ends, isFinal, fun parsed => ?_⟩
        simp only [List.cons_append, HttpRequestParser.exec, state, Option.bind_some, stepped,
          delivers, bind_assoc, pure_bind, going, Bool.false_eq_true, if_false, List.foldlM_append,
          deliversMore]

/-- A part of a head in the buffer: everything is consumed, and the rest of the
head goes on from there. -/
theorem exec_partial (machine : Machine Act σ) {rest more : List UInt8} (unfinished : more ≠ [])
    (window : Window head start_ origin buffer (fpc + rest.length))
    {cs : σ} {marks : Marks} {parser : HttpParser σ}
    (holds : Holds start_ origin fpc marks parser) (state : parser.cs = some cs)
    {tokens : List Token}
    (scanned : machine.scan (origin + fpc) cs marks (rest ++ more) = some tokens)
    (framed : ∀ token ∈ tokens, token.Framed head)
    (fresh : machine.final cs = false ∨ rest ≠ []) :
    ∃ first last middle after later, tokens = first ++ last ∧
      (∀ token ∈ first, token.stop < origin + fpc + rest.length) ∧
      machine.scan (origin + fpc + rest.length) middle after more = some last ∧
      Holds start_ origin (fpc + rest.length) after later ∧ later.cs = some middle ∧
      machine.final middle = false ∧
      ∀ parsed, HttpRequestParser.exec machine buffer fpc rest
          { toParsed := parsed, parser := parser } =
        (do
          let parsed ← first.foldlM (Token.deliver head start_) parsed
          return ({ toParsed := parsed, parser := later }, fpc + rest.length)) := by
  induction rest generalizing fpc cs marks parser tokens with
  | nil =>
      exact ⟨[], tokens, cs, marks, parser, rfl, nofun, scanned, holds, state,
        fresh.resolve_right (absurd rfl), fun _ => rfl⟩
  | cons byte rest inductionHypothesis =>
      obtain ⟨transition, after, first, stepped, found, ends | continues⟩ :=
        Machine.scan_cons scanned
      · exact absurd (List.append_eq_nil_iff.mp ends.2.1).2 unfinished
      · obtain ⟨going, last, scannedMore, rfl⟩ := continues
        obtain ⟨middle, holdsMiddle, _, delivers⟩ := acts_deliver window (by simp) holds found
          fun token member => framed token (List.mem_append_left _ member)
        have onward : fpc + (byte :: rest).length = fpc + 1 + rest.length := by
          simp only [List.length_cons]
          omega
        have position : origin + fpc + (byte :: rest).length = origin + (fpc + 1) + rest.length := by
          omega
        rw [onward] at window ⊢
        obtain ⟨between, last, cs, marks, later, rfl, early, scannedLast, holdsLater, stateLater,
          notFinal, deliversMore⟩ := inductionHypothesis window
            ((holdsMiddle.mono (Nat.le_succ fpc)).setState (some transition.target)) rfl scannedMore
            (fun token member => framed token (List.mem_append_right _ member))
            (Or.inl ((machine.final_target _ byte transition stepped).trans going))
        refine ⟨first ++ between, last, cs, marks, later, (List.append_assoc _ _ _).symm,
          List.forall_mem_append.mpr ⟨fun token member => ?_, position ▸ early⟩,
          position ▸ scannedLast, holdsLater, stateLater, notFinal, fun parsed => ?_⟩
        · rw [Marks.acts_stop found token member, List.length_cons]
          omega
        simp only [HttpRequestParser.exec, state, Option.bind_some, stepped, delivers, bind_assoc,
          pure_bind, going, Bool.false_eq_true, if_false, List.foldlM_append, deliversMore]

end Deliver

end Sylar.Http
