import Mathlib.Data.Set.Basic
import Sylar.Http.RoundTrip

/-!
# Methods

`CharsToHttpMethod` and `on_request_method` behind the grammar of a request line.
The names of `HTTP_METHOD_MAP` are compared as prefixes, and one of them has a byte
that the grammar of a method does not have.
-/

namespace Sylar.Http

variable {σ : Type}

/-- `Method` of the grammar. -/
structure MethodToken (token : List UInt8) : Prop where
  some_ : token ≠ []
  short : token.length ≤ 20
  chars : ∀ byte ∈ token, HeadState.isMethod byte = true

/-- The state behind some bytes, when the automaton takes them with certain actions. -/
def Machine.follow (machine : Machine Act σ) : σ → List (UInt8 × List Act) → Option σ
  | cs, [] => some cs
  | cs, (byte, actions) :: rest =>
      match machine.step cs byte with
      | none => none
      | some transition =>
          if transition.actions = actions ∧ transition.done = false then
            machine.follow transition.target rest
          else none

/-- The bytes of a token: the mark is set at the first. -/
def methodActs : List UInt8 → List (UInt8 × List Act)
  | [] => []
  | first :: rest => (first, [.mark]) :: rest.map fun byte => (byte, [])

/-- What the automaton does with the method of a `Request_Line`: a blank behind it calls
`on_request_method` and leads into states that do not call it again, and no byte but
those of a method and the blank can follow. -/
structure ReadsMethod (machine : Machine Act σ) (behind : Set σ) : Prop where
  method : ∀ token, MethodToken token → ∃ cs target,
    machine.follow machine.start (methodActs token) = some cs ∧
      machine.step cs 32 = some ⟨[.element .requestMethod], false, target⟩ ∧ target ∈ behind ∧
        ∀ byte, byte ≠ 32 → HeadState.isMethod byte = false → machine.step cs byte = none
  closed : ∀ cs ∈ behind, ∀ byte transition, machine.step cs byte = some transition →
    .element .requestMethod ∉ transition.actions ∧ transition.target ∈ behind

/-- The automaton of the lines reads methods. -/
theorem headMachine_reads :
    ReadsMethod headMachine { cs | cs ≠ .start ∧ cs ≠ .method } where
  method token method := by
    obtain ⟨first, rest, rfl⟩ := List.exists_cons_of_ne_nil method.some_
    obtain ⟨isFirst, others⟩ := List.forall_mem_cons.mp method.chars
    have silent : headMachine.follow .method (rest.map fun byte => (byte, [])) = some .method := by
      clear method
      induction rest with
      | nil => rfl
      | cons byte rest inductionHypothesis =>
          obtain ⟨isByte, others⟩ := List.forall_mem_cons.mp others
          have notBlank : byte ≠ 32 := by
            rintro rfl
            exact absurd isByte (by decide)
          have step : headMachine.step .method byte = some ⟨[], false, .method⟩ := by
            change HeadState.step byte .method = _
            rw [HeadState.step, if_neg notBlank, if_pos isByte]
            rfl
          rw [List.map_cons, Machine.follow]
          simp only [step, and_self, if_true]
          exact inductionHypothesis others
    refine ⟨.method, .uri, ?_, rfl, ⟨by decide, by decide⟩, fun byte notBlank isOther => ?_⟩
    · have step : headMachine.step headMachine.start first = some ⟨[.mark], false, .method⟩ := by
        change HeadState.step first .start = _
        rw [HeadState.step, if_pos isFirst]
        rfl
      rw [methodActs, Machine.follow]
      simp only [step, and_self, if_true]
      exact silent
    · change HeadState.step byte .method = _
      rw [HeadState.step, if_neg notBlank, if_neg (by simp [isOther])]
  closed cs inside byte transition stepped := by
    obtain ⟨notStart, notMethod⟩ := inside
    change HeadState.step byte cs = _ at stepped
    cases cs <;>
      simp only [HeadState.step, HeadState.endLine, HeadState.endPart, HeadState.go] at stepped <;>
      (repeat' split at stepped) <;> cases stepped <;>
      first
      | exact absurd rfl notStart
      | exact absurd rfl notMethod
      | exact ⟨by decide, by decide, by decide⟩

section Exec

variable {machine : Machine Act σ} {buffer : List UInt8} {p after : HttpRequestParser σ}

/-- Bytes without actions move the automaton. -/
theorem exec_silent {text : List UInt8} {cs last : σ} (fpc : Nat) (rest : List UInt8)
    (follows : machine.follow cs (text.map fun byte => (byte, [])) = some last)
    (state : p.parser.cs = some cs) :
    HttpRequestParser.exec machine buffer fpc (text ++ rest) p =
      HttpRequestParser.exec machine buffer (fpc + text.length) rest
        { p with parser.cs := some last } := by
  induction text generalizing fpc cs p with
  | nil =>
      obtain rfl := Option.some.inj follows
      rw [← state]
      rfl
  | cons byte text inductionHypothesis =>
      rw [List.map_cons, Machine.follow] at follows
      split at follows
      · cases follows
      · next transition stepped =>
          split at follows
          · next taken =>
              have step : p.parser.cs.bind (machine.step · byte) = some transition := by
                rw [state]
                exact stepped
              have next := inductionHypothesis (fpc + 1)
                (p := { p with parser.cs := some transition.target }) follows rfl
              rw [List.cons_append, HttpRequestParser.exec]
              simp only [step, taken.1, taken.2, List.foldlM_nil, Bool.false_eq_true, if_false]
              change HttpRequestParser.exec machine buffer (fpc + 1) (text ++ rest)
                { p with parser.cs := some transition.target } = _
              rw [next, List.length_cons, Nat.add_comm text.length, Nat.add_assoc]
          · cases follows

/-- The parser behind the bytes of a token, which is the mark's text from then on. -/
theorem exec_method {token : List UInt8} (method : MethodToken token) {cs : σ}
    (follows : machine.follow machine.start (methodActs token) = some cs) (rest : List UInt8) :
    HttpRequestParser.exec machine buffer 0 (token ++ rest) (.new machine) =
      HttpRequestParser.exec machine buffer token.length rest
        ⟨⟨.new, 0⟩, ⟨some cs, 0, 0, 0, none⟩⟩ := by
  obtain ⟨first, others, rfl⟩ := List.exists_cons_of_ne_nil method.some_
  rw [methodActs, Machine.follow] at follows
  split at follows
  · cases follows
  · next transition stepped =>
      split at follows
      · next taken =>
          have step : (HttpRequestParser.new machine).parser.cs.bind (machine.step · first) =
              some transition := stepped
          rw [List.cons_append, HttpRequestParser.exec]
          simp only [step, taken.1, taken.2, Bool.false_eq_true, if_false]
          change HttpRequestParser.exec machine buffer 1 (others ++ rest)
            ⟨⟨.new, 0⟩, ⟨some transition.target, 0, 0, 0, none⟩⟩ = _
          rw [exec_silent 1 rest follows rfl, List.length_cons, Nat.add_comm 1]
      · cases follows

/-- What a step without `on_request_method` leaves: the method, and an error. -/
structure Keeps (p after : HttpRequestParser σ) : Prop where
  method : after.data.method = p.data.method
  error : p.error ≠ 0 → after.error ≠ 0

theorem Keeps.trans {later : HttpRequestParser σ} (first : Keeps p after)
    (second : Keeps after later) : Keeps p later where
  method := second.method.trans first.method
  error := fun failed => second.error (first.error failed)

/-- A callback that stores a text. -/
theorem update_keeps {parser : HttpParser σ} {text : Except Fault (List UInt8)} {parsed : Parsed}
    (change : List UInt8 → HttpRequest → HttpRequest)
    (other : ∀ v request, (change v request).method = request.method)
    (ran : (do
      let parsed ← (do
        let v ← text
        return parsed.update (change v))
      return (⟨parsed, parser⟩ : HttpRequestParser σ)) = .ok after) :
    Keeps ⟨parsed, parser⟩ after := by
  cases text with
  | error fault => cases ran
  | ok v =>
      cases ran
      exact ⟨other v parsed.data, id⟩

theorem act_keeps {fpc : Nat} {act : Act} (other : act ≠ .element .requestMethod)
    (ran : HttpRequestParser.act buffer fpc p act = .ok after) : Keeps p after := by
  cases act with
  | mark | startValue | startField | writeField | startQuery =>
      cases ran
      exact ⟨rfl, id⟩
  | queryString =>
      rw [HttpRequestParser.act.eq_def] at ran
      dsimp only at ran
      split at ran
      · cases ran
      · exact update_keeps (fun v request => request.setQuery v) (fun _ _ => rfl) ran
  | writeValue =>
      obtain ⟨parsed, called, returned⟩ := bind_ok ran
      cases returned
      unfold onRequestHttpField at called
      split at called
      · cases called
        exact ⟨rfl, id⟩
      · obtain ⟨key, _, called⟩ := bind_ok called
        obtain ⟨val, _, called⟩ := bind_ok called
        cases called
        exact ⟨rfl, id⟩
  | element callback =>
      cases callback with
      | requestMethod => exact absurd rfl other
      | requestUri =>
          cases ran
          exact ⟨rfl, id⟩
      | fragment =>
          exact update_keeps (fun v request => request.setFragment v) (fun _ _ => rfl) ran
      | requestPath =>
          exact update_keeps (fun v request => request.setPath v) (fun _ _ => rfl) ran
      | httpVersion =>
          obtain ⟨parsed, called, returned⟩ := bind_ok ran
          cases returned
          cases called
          unfold onRequestVersion
          split
          · exact ⟨rfl, id⟩
          · split
            · exact ⟨rfl, id⟩
            · exact ⟨rfl, fun _ => Nat.succ_ne_zero 1000⟩

theorem acts_keep {fpc : Nat} {actions : List Act} (other : .element .requestMethod ∉ actions)
    (ran : actions.foldlM (HttpRequestParser.act buffer fpc) p = .ok after) : Keeps p after := by
  induction actions generalizing p with
  | nil =>
      cases ran
      exact ⟨rfl, id⟩
  | cons act actions inductionHypothesis =>
      rw [List.mem_cons, not_or] at other
      rw [List.foldlM_cons] at ran
      obtain ⟨middle, first, later⟩ := bind_ok ran
      exact (act_keeps (Ne.symm other.1) first).trans (inductionHypothesis other.2 later)

/-- Behind the method neither it nor an error is taken back. -/
theorem exec_keeps {behind : Set σ} (reads : ReadsMethod machine behind) {fpc stop : Nat}
    {text : List UInt8} (inside : ∀ cs, p.parser.cs = some cs → cs ∈ behind)
    (ran : HttpRequestParser.exec machine buffer fpc text p = .ok (after, stop)) :
    Keeps p after := by
  induction text generalizing fpc p with
  | nil =>
      cases ran
      exact ⟨rfl, id⟩
  | cons byte text inductionHypothesis =>
      rw [HttpRequestParser.exec] at ran
      split at ran
      · cases ran
        exact ⟨rfl, id⟩
      · next transition stepped =>
          obtain ⟨cs, state, step⟩ := Option.bind_eq_some_iff.mp stepped
          obtain ⟨other, target⟩ := reads.closed cs (inside cs state) byte transition step
          obtain ⟨middle, acts, later⟩ := bind_ok ran
          have kept := acts_keep other acts
          dsimp only at later
          split at later
          · cases later
            exact ⟨kept.method, kept.error⟩
          · have keeps := inductionHypothesis (p := { middle with parser.cs := some transition.target })
              (fun cs same => by obtain rfl := Option.some.inj same; exact target) later
            exact ⟨keeps.method.trans kept.method, fun failed => keeps.error (kept.error failed)⟩

/-- The call of `on_request_method` behind a token. -/
theorem exec_blank {behind : Set σ} (reads : ReadsMethod machine behind) {token : List UInt8}
    (method : MethodToken token) (rest : List UInt8) :
    ∃ target ∈ behind,
      HttpRequestParser.exec machine (token ++ 32 :: rest) 0 (token ++ 32 :: rest) (.new machine) =
        HttpRequestParser.exec machine (token ++ 32 :: rest) (token.length + 1) rest
          ⟨onRequestMethod (token ++ 32 :: rest) ⟨.new, 0⟩, ⟨some target, 0, 0, 0, none⟩⟩ := by
  obtain ⟨cs, target, follows, step, inside, _⟩ := reads.method token method
  refine ⟨target, inside, ?_⟩
  have blank : Option.bind (some cs) (machine.step · 32) =
      some ⟨[.element .requestMethod], false, target⟩ := step
  rw [exec_method method follows, HttpRequestParser.exec]
  simp only [blank, Bool.false_eq_true, if_false]
  rfl

end Exec

section Names

variable {token name : List UInt8}

/-- `strncmp` to the end of a name finds that it is a prefix. -/
theorem strncmp_name_iff (nonzero : 0 ∉ name) (chars : List UInt8) :
    strncmp name chars name.length = true ↔ name <+: chars := by
  induction name generalizing chars with
  | nil => simp [strncmp]
  | cons byte name inductionHypothesis =>
      rw [List.mem_cons, not_or] at nonzero
      cases chars with
      | nil =>
          have differs : (byte == 0) = false := beq_false_of_ne (Ne.symm nonzero.1)
          simp [strncmp, differs]
      | cons char chars =>
          have differs : (byte == 0) = false := beq_false_of_ne (Ne.symm nonzero.1)
          simp only [List.length_cons, strncmp, List.headD_cons, List.tail_cons, differs,
            Bool.false_or, Bool.and_eq_true, beq_iff_eq, inductionHypothesis nonzero.2,
            List.cons_prefix_cons]

/-- A name without blanks ends before the blank. -/
theorem prefix_blank_iff (noBlank : 32 ∉ name) (rest : List UInt8) :
    name <+: token ++ 32 :: rest ↔ name <+: token := by
  constructor
  · intro before
    rcases Nat.le_total name.length token.length with short | long
    · exact List.prefix_of_prefix_length_le before (List.prefix_append _ _) short
    · rcases Nat.eq_or_lt_of_le long with same | longer
      · exact List.prefix_of_prefix_length_le before (List.prefix_append _ _) same.ge
      · have blank : token ++ [32] <+: name := by
          refine List.prefix_of_prefix_length_le ⟨rest, by simp⟩ before ?_
          rw [List.length_append]
          exact longer
        exact absurd (blank.subset (by simp)) noBlank
  · intro before
    exact before.trans (List.prefix_append _ _)

theorem httpMethodMap_names : ∀ entry ∈ httpMethodMap, entry.1 ≠ .invalidMethod ∧
    0 ∉ entry.2 ∧ 32 ∉ entry.2 ∧ httpMethodToString entry.1 = entry.2 := by decide

theorem mem_httpMethodMap {m : HttpMethod} (known : m ≠ .invalidMethod) :
    (m, httpMethodToString m) ∈ httpMethodMap := by
  cases m <;> first | exact absurd rfl known | decide

/-- A text is no method when it begins with no name. -/
theorem charsToHttpMethod_eq_invalid {chars : List UInt8} :
    charsToHttpMethod chars = .invalidMethod ↔
      ∀ entry ∈ httpMethodMap, ¬strncmp entry.2 chars entry.2.length = true := by
  rw [← List.find?_eq_none, charsToHttpMethod]
  cases found : httpMethodMap.find? fun entry => strncmp entry.2 chars entry.2.length with
  | none => exact iff_of_true rfl rfl
  | some entry =>
      have known := (httpMethodMap_names entry (List.mem_of_find?_eq_some found)).1
      exact iff_of_false known (Option.some_ne_none entry)

/-- A token is not recognised when no name is a prefix of it. -/
theorem charsToHttpMethod_eq_invalid_iff (rest : List UInt8) :
    charsToHttpMethod (token ++ 32 :: rest) = .invalidMethod ↔
      ∀ m, m ≠ .invalidMethod → ¬httpMethodToString m <+: token := by
  rw [charsToHttpMethod_eq_invalid]
  constructor
  · intro unknown m known before
    obtain ⟨_, nonzero, noBlank, _⟩ := httpMethodMap_names _ (mem_httpMethodMap known)
    refine unknown _ (mem_httpMethodMap known) ?_
    exact (strncmp_name_iff nonzero _).mpr ((prefix_blank_iff noBlank rest).mpr before)
  · intro apart entry member compared
    obtain ⟨known, nonzero, noBlank, isName⟩ := httpMethodMap_names entry member
    have before := (prefix_blank_iff noBlank rest).mp ((strncmp_name_iff nonzero _).mp compared)
    exact apart entry.1 known (isName ▸ before)

/-- The names are tokens, all but one. -/
theorem methodToken_name {m : HttpMethod} (known : m ≠ .invalidMethod) (other : m ≠ .msearch) :
    MethodToken (httpMethodToString m) := by
  cases m <;> first
    | exact absurd rfl known
    | exact absurd rfl other
    | exact ⟨by decide, by decide, by decide⟩

end Names

section Recognition

variable {machine : Machine Act σ} {m : HttpMethod} {token : List UInt8} {behind : Set σ}

variable (machine m) in
/-- A request line with the name of a method is accepted with that method: the parser
ends with a head, without an error, and whatever follows the blank, the method is set. -/
structure Recognised : Prop where
  accepts : ∀ parts : RequestHead, parts.method = httpMethodToString m →
    ({ parts with method := bytes "GET" } : RequestHead).Grammatical →
      parts.text.length < 2 ^ 63 → ∃ p,
        HttpRequestParser.execute machine parts.text (.new machine) =
          .ok (p, parts.text.length, []) ∧
        p.hasError = false ∧ p.isFinished machine = 1 ∧ p.data.method = m
  names : ∀ rest p nparse left,
    HttpRequestParser.execute machine (httpMethodToString m ++ 32 :: rest) (.new machine) =
      .ok (p, nparse, left) → p.data.method = m

variable (machine token) in
/-- A token and a blank set the error, and no request comes of them. -/
structure Refused : Prop where
  error : ∃ p, HttpRequestParser.execute machine (token ++ [32]) (.new machine) =
    .ok (p, token.length + 1, []) ∧ p.error = 1000
  hasError : ∀ rest p nparse left,
    HttpRequestParser.execute machine (token ++ 32 :: rest) (.new machine) =
      .ok (p, nparse, left) → p.hasError = true
  rejected : ∀ lexicalCast buffSize rest connection request after,
    recvRequest machine lexicalCast buffSize ((token ++ 32 :: rest) :: connection) ≠
      .ok (some request, after)

/-- A head whose method is a name is parsed to its end. -/
theorem execute_head (splits : SplitsHeads machine) {parts : RequestHead}
    (grammatical : parts.Grammatical) (method : parts.method = httpMethodToString m)
    (short : parts.text.length < 2 ^ 63) :
    ∃ p, HttpRequestParser.execute machine parts.text (.new machine) =
        .ok (p, parts.text.length, []) ∧
      p.hasError = false ∧ p.isFinished machine = 1 ∧ p.data.method = m := by
  have scanned := splits parts grammatical
  have within : Marks.new.Within 0 := ⟨Nat.le_refl 0, Nat.le_refl 0, nofun, nofun⟩
  have ordered := Machine.scan_ordered within scanned
  rw [Nat.zero_add] at ordered
  have some_ : parts.text ≠ [] := by simp [RequestHead.text]
  have near : ∀ position < parts.text.length, position - 0 < 2 ^ 63 :=
    fun position inside => Nat.lt_trans inside short
  have window : Window parts.text (fun _ => 0) 0 (parts.text ++ []) parts.text.length :=
    ⟨by rw [List.drop_zero, List.append_nil], fun _ _ => rfl, by rwa [Nat.zero_add]⟩
  have ready : Ready (fun _ => 0) 0 machine.start .new (HttpRequestParser.new machine).parser :=
    ⟨within, rfl, rfl⟩
  obtain ⟨later, final, state, isFinal, executes⟩ :=
    execute_complete some_ window ready scanned parts.tokens_framed
  obtain ⟨v, version⟩ : ∃ v : UInt8, v = 0x11 ∧ parts.version = bytes "HTTP/1.1" ∨
      v = 0x10 ∧ parts.version = bytes "HTTP/1.0" := by
    rcases grammatical.version with known | known
    · exact ⟨0x10, .inr ⟨rfl, known⟩⟩
    · exact ⟨0x11, .inl ⟨rfl, known⟩⟩
  have changes := RequestHead.tokens_change (grammatical.known method) method version
    fun field member => (grammatical.fields field member).1.1
  have make : ∀ token ∈ parts.tokens, (token.change parts.text fun _ => 0).isSome = true := by
    intro token member
    have made := List.mem_map_of_mem (f := Token.change parts.text fun _ => 0) member
    rw [changes] at made
    obtain ⟨change, _, makes⟩ := List.mem_map.mp made
    rw [← makes]
    rfl
  have delivered := foldlM_deliver (fun _ => Nat.zero_le _) near ordered make ⟨.new, 0⟩
  have executed := executes ⟨.new, 0⟩
  rw [delivered, List.append_nil] at executed
  refine ⟨_, executed, ?_, ?_, ?_⟩
  · rw [← Bool.not_eq_true, hasError_iff _ state]
    exact fun failed => failed rfl
  · simp only [HttpRequestParser.isFinished, state, isFinal, if_true]
  · change (parts.tokens.foldl (Token.apply parts.text fun _ => 0) .new).method = m
    rw [HttpRequest.foldl_apply_of_change changes, HttpRequest.foldl_changes]

/-- What `execute` does with a token, a blank and more. -/
theorem execute_blank (reads : ReadsMethod machine behind) (method : MethodToken token)
    {rest left : List UInt8} {p : HttpRequestParser σ} {nparse : Nat}
    (ran : HttpRequestParser.execute machine (token ++ 32 :: rest) (.new machine) =
      .ok (p, nparse, left)) :
    (charsToHttpMethod (token ++ 32 :: rest) ≠ .invalidMethod →
        p.data.method = charsToHttpMethod (token ++ 32 :: rest)) ∧
      (charsToHttpMethod (token ++ 32 :: rest) = .invalidMethod → p.error ≠ 0) := by
  obtain ⟨target, inside, executes⟩ := exec_blank reads method rest
  obtain ⟨⟨after, stop⟩, parsed, returned⟩ := bind_ok ran
  cases returned
  rw [HttpRequestParser.httpParserExecute, if_neg (by simp)] at parsed
  change HttpRequestParser.exec machine (token ++ 32 :: rest) 0 (token ++ 32 :: rest)
    (.new machine) = _ at parsed
  rw [executes] at parsed
  have keeps := exec_keeps reads
    (fun cs same => by obtain rfl := Option.some.inj same; exact inside) parsed
  constructor
  · intro known
    rw [keeps.method, onRequestMethod, if_neg known]
    rfl
  · intro unknown
    apply keeps.error
    rw [onRequestMethod, if_pos unknown]
    exact Nat.succ_ne_zero 999

theorem recognised_of_token (splits : SplitsHeads machine) (reads : ReadsMethod machine behind)
    (known : m ≠ .invalidMethod) (other : m ≠ .msearch) : Recognised machine m where
  accepts parts method grammatical short := by
    have isToken := methodToken_name known other
    rw [← method] at isToken
    exact execute_head splits
      ⟨⟨isToken.some_, isToken.short, isToken.chars⟩, grammatical.path, grammatical.query,
        grammatical.fragment, grammatical.version, grammatical.fields⟩ method short
  names rest _ _ _ ran := by
    have method := (execute_blank reads (methodToken_name known other) ran).1
    rw [charsToHttpMethod_append known rest] at method
    exact method known

/-- The automaton stops at the hyphen of `M-SEARCH`. -/
theorem not_recognised_msearch (reads : ReadsMethod machine behind) :
    ¬Recognised machine .msearch := by
  intro recognised
  let parts : RequestHead := ⟨bytes "M-SEARCH", bytes "/", [], [], bytes "HTTP/1.1", []⟩
  have grammatical : ({ parts with method := bytes "GET" } : RequestHead).Grammatical := {
    method := ⟨by decide, by decide, by decide⟩
    path := ⟨rfl, .single rfl .nil, fun slash => by cases slash⟩
    query := .nil
    fragment := .nil
    version := .inr rfl
    fields := nofun }
  obtain ⟨p, ran, _⟩ := recognised.accepts parts rfl grammatical (by decide)
  have isMethod : MethodToken [77] := ⟨by decide, by decide, by decide⟩
  obtain ⟨cs, _, follows, _, _, others⟩ := reads.method [77] isMethod
  obtain ⟨⟨after, stop⟩, parsed, returned⟩ := bind_ok ran
  cases returned
  rw [HttpRequestParser.httpParserExecute, if_neg (by decide)] at parsed
  change HttpRequestParser.exec machine parts.text 0 ([77] ++ (45 :: parts.text.drop 2))
    (.new machine) = _ at parsed
  rw [exec_method isMethod follows, HttpRequestParser.exec] at parsed
  have step : Option.bind (some cs) (machine.step · 45) = none := others 45 (by decide) (by decide)
  simp only [step] at parsed
  cases parsed

/-- A token with the blank behind it is consumed. -/
theorem execute_token (reads : ReadsMethod machine behind) (method : MethodToken token) :
    ∃ target, HttpRequestParser.execute machine (token ++ [32]) (.new machine) =
      .ok (⟨onRequestMethod (token ++ [32]) ⟨.new, 0⟩, ⟨some target, 0, 0, 0, none⟩⟩,
        token.length + 1, []) := by
  obtain ⟨target, _, executes⟩ := exec_blank reads method []
  have parsed : HttpRequestParser.httpParserExecute machine (token ++ [32]) (.new machine) =
      .ok (⟨onRequestMethod (token ++ [32]) ⟨.new, 0⟩, ⟨some target, 0, 0, 0, none⟩⟩,
        token.length + 1) := by
    rw [HttpRequestParser.httpParserExecute, if_neg (by simp)]
    exact executes
  have drained : (token ++ [32]).drop (token.length + 1) = [] :=
    List.drop_eq_nil_of_le (by simp)
  refine ⟨target, ?_⟩
  rw [HttpRequestParser.execute, parsed]
  simp only [bind, Except.bind, drained, pure, Except.pure]

theorem refused_of_apart (reads : ReadsMethod machine behind) (method : MethodToken token)
    (apart : ∀ m, m ≠ .invalidMethod → ¬httpMethodToString m <+: token) :
    Refused machine token := by
  have hasError : ∀ rest p nparse left,
      HttpRequestParser.execute machine (token ++ 32 :: rest) (.new machine) =
        .ok (p, nparse, left) → p.hasError = true := by
    intro rest p nparse left ran
    have failed :=
      (execute_blank reads method ran).2 ((charsToHttpMethod_eq_invalid_iff rest).mpr apart)
    simp [HttpRequestParser.hasError, failed]
  refine ⟨?_, hasError, ?_⟩
  · obtain ⟨target, ran⟩ := execute_token reads method
    refine ⟨_, ran, ?_⟩
    rw [onRequestMethod, if_pos ((charsToHttpMethod_eq_invalid_iff []).mpr apart)]
    rfl
  · intro lexicalCast buffSize rest connection request after received
    obtain ⟨⟨found, remaining⟩, head, body⟩ := bind_ok received
    rw [recvHead, List.nil_append] at head
    split at head
    · cases head
    · rw [if_neg (by simp)] at head
      obtain ⟨⟨p, nparse, left⟩, ran, next⟩ := bind_ok head
      simp only [hasError _ _ _ _ ran, if_true] at next
      cases next
      cases body

/-- A request is refused only when no name is a prefix of its token. -/
theorem apart_of_refused (reads : ReadsMethod machine behind) (method : MethodToken token)
    (refused : Refused machine token) (m : HttpMethod) (known : m ≠ .invalidMethod) :
    ¬httpMethodToString m <+: token := by
  intro before
  obtain ⟨p, ran, failed⟩ := refused.error
  have found : charsToHttpMethod (token ++ [32]) ≠ .invalidMethod :=
    fun unknown => (charsToHttpMethod_eq_invalid_iff []).mp unknown m known before
  obtain ⟨target, executes⟩ := execute_token reads method
  rw [executes] at ran
  obtain ⟨rfl, -⟩ := Prod.mk.inj (Except.ok.inj ran)
  rw [onRequestMethod, if_neg found] at failed
  cases failed

/-- Every method but `M-SEARCH` is recognised, and a token that is no name is refused if
and only if no name is a prefix of it. -/
theorem methods_iff (splits : SplitsHeads machine) (reads : ReadsMethod machine behind) :
    (∀ m, m ≠ .invalidMethod → (Recognised machine m ↔ m ≠ .msearch)) ∧
      ∀ token, MethodToken token → (∀ m, m ≠ .invalidMethod → token ≠ httpMethodToString m) →
        (Refused machine token ↔ ∀ m, m ≠ .invalidMethod → ¬httpMethodToString m <+: token) := by
  constructor
  · intro m known
    constructor
    · rintro recognised rfl
      exact not_recognised_msearch reads recognised
    · exact recognised_of_token splits reads known
  · intro token method _
    exact ⟨apart_of_refused reads method, refused_of_apart reads method⟩

end Recognition

theorem methods_iff_lines :
    (∀ m, m ≠ .invalidMethod → (Recognised headMachine m ↔ m ≠ .msearch)) ∧
      ∀ token, MethodToken token → (∀ m, m ≠ .invalidMethod → token ≠ httpMethodToString m) →
        (Refused headMachine token ↔
          ∀ m, m ≠ .invalidMethod → ¬httpMethodToString m <+: token) :=
  methods_iff headMachine_splits headMachine_reads

/-- `GETX`, which is taken for `GET`. -/
theorem longer_token_recognised :
    ¬((∀ m, m ≠ .invalidMethod → Recognised headMachine m) ∧
      ∀ token, MethodToken token → (∀ m, m ≠ .invalidMethod → token ≠ httpMethodToString m) →
        Refused headMachine token) := by
  rintro ⟨-, refused⟩
  have isMethod : MethodToken (bytes "GETX") := ⟨by decide, by decide, by decide⟩
  have noName : ∀ m, m ≠ .invalidMethod → bytes "GETX" ≠ httpMethodToString m := by
    intro m _
    cases m <;> decide
  exact apart_of_refused headMachine_reads isMethod (refused _ isMethod noName) .get (by decide)
    (by decide)

end Sylar.Http
