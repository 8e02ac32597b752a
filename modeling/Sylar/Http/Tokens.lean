import Sylar.Http.Session

/-!
# The tokens of a head

What the automaton finds in a head, by positions in the head: for each callback
where its text begins and at which byte it is called. How the head is cut into
results of `read` enters only through the position at which the result begins
that holds a byte: `http_parser_execute` forgets what was marked before it.
-/

namespace Sylar.Http

/-- A call of a callback. The positions are those of bytes in the head, and
`stop` is the byte at which the callback is called. -/
inductive Token where
  | element (callback : Element) (start stop : Nat)
  | query (start stop : Nat)
  | field (nameStart nameStop valueStart stop : Nat)
deriving DecidableEq, Repr

/-- The byte at which the callback is called. -/
def Token.stop : Token → Nat
  | .element _ _ stop | .query _ stop | .field _ _ _ stop => stop

/-- The positions that the actions have written down. -/
structure Marks where
  mark : Nat
  fieldStart : Nat
  /-- The end of the name that began at `fieldStart`. -/
  fieldStop : Option Nat
  queryStart : Option Nat
deriving DecidableEq, Repr

namespace Marks

/-- No mark is set. -/
def new : Marks := ⟨0, 0, none, none⟩

/-- An action at a byte. A value needs a name, and the end of a query its start. -/
def act (fpc : Nat) (marks : Marks) : Act → Option (Marks × List Token)
  | .mark | .startValue => some ({ marks with mark := fpc }, [])
  | .startField => some ({ marks with fieldStart := fpc, fieldStop := none }, [])
  | .writeField => some ({ marks with fieldStop := some fpc }, [])
  | .writeValue =>
      marks.fieldStop.map fun stop => (marks, [.field marks.fieldStart stop marks.mark fpc])
  | .startQuery => some ({ marks with queryStart := some fpc }, [])
  | .queryString => marks.queryStart.map fun start => (marks, [.query start fpc])
  | .element callback => some (marks, [.element callback marks.mark fpc])

/-- The actions of a transition, one after the other. -/
def acts (fpc : Nat) : List Act → Marks → Option (Marks × List Token)
  | [], marks => some (marks, [])
  | act :: rest, marks => do
      let (marks, first) ← marks.act fpc act
      let (marks, more) ← acts fpc rest marks
      return (marks, first ++ more)

/-- A callback is called at the byte of its action. -/
theorem act_stop {fpc : Nat} {marks after : Marks} {act : Act} {tokens : List Token}
    (found : marks.act fpc act = some (after, tokens)) : ∀ token ∈ tokens, token.stop = fpc := by
  cases act with
  | mark | startValue | startField | writeField | startQuery =>
      cases found
      exact nofun
  | writeValue | queryString =>
      obtain ⟨_, _, pair⟩ := Option.map_eq_some_iff.mp found
      cases pair
      exact List.forall_mem_singleton.mpr rfl
  | element callback =>
      cases found
      exact List.forall_mem_singleton.mpr rfl

theorem acts_stop {fpc : Nat} {marks after : Marks} {actions : List Act} {tokens : List Token}
    (found : marks.acts fpc actions = some (after, tokens)) :
    ∀ token ∈ tokens, token.stop = fpc := by
  induction actions generalizing marks tokens with
  | nil =>
      cases found
      exact nofun
  | cons act rest inductionHypothesis =>
      simp only [acts, Option.bind_eq_bind, Option.bind_eq_some_iff, Option.pure_def,
        Option.some.injEq] at found
      obtain ⟨⟨between, first⟩, foundFirst, ⟨last, more⟩, foundMore, pair⟩ := found
      cases pair
      exact List.forall_mem_append.mpr ⟨act_stop foundFirst, inductionHypothesis foundMore⟩

end Marks

variable {σ : Type}

/-- The tokens of the rest of a head, when the automaton ends exactly with it. -/
def Machine.scan (machine : Machine Act σ) : Nat → σ → Marks → List UInt8 → Option (List Token)
  | _, _, _, [] => none
  | fpc, cs, marks, byte :: rest => do
      let transition ← machine.step cs byte
      let (marks, tokens) ← marks.acts fpc transition.actions
      if transition.done then
        if rest = [] then return tokens else none
      else return tokens ++ (← machine.scan (fpc + 1) transition.target marks rest)

/-- What a scan of a byte and more does. -/
theorem Machine.scan_cons {machine : Machine Act σ} {fpc : Nat} {cs : σ} {marks : Marks}
    {byte : UInt8} {left : List UInt8} {tokens : List Token}
    (scanned : machine.scan fpc cs marks (byte :: left) = some tokens) :
    ∃ transition after first, machine.step cs byte = some transition ∧
      marks.acts fpc transition.actions = some (after, first) ∧
      ((transition.done = true ∧ left = [] ∧ tokens = first) ∨
        (transition.done = false ∧ ∃ more,
          machine.scan (fpc + 1) transition.target after left = some more ∧
            tokens = first ++ more)) := by
  simp only [scan, Option.bind_eq_bind, Option.bind_eq_some_iff, Option.pure_def] at scanned
  obtain ⟨transition, stepped, ⟨after, first⟩, found, scanned⟩ := scanned
  refine ⟨transition, after, first, stepped, found, ?_⟩
  split at scanned
  · rename_i done
    split at scanned
    · rename_i ended
      cases scanned
      exact Or.inl ⟨done, ended, rfl⟩
    · cases scanned
  · rename_i going
    obtain ⟨more, scannedMore, together⟩ := Option.bind_eq_some_iff.mp scanned
    cases together
    exact Or.inr ⟨Bool.eq_false_iff.mpr going, more, scannedMore, rfl⟩

/-- The callbacks of a scan are called in the part that is scanned. -/
theorem Machine.scan_stop {machine : Machine Act σ} {fpc : Nat} {cs : σ} {marks : Marks}
    {left : List UInt8} {tokens : List Token}
    (scanned : machine.scan fpc cs marks left = some tokens) :
    ∀ token ∈ tokens, fpc ≤ token.stop ∧ token.stop < fpc + left.length := by
  induction left generalizing fpc cs marks tokens with
  | nil => cases scanned
  | cons byte left inductionHypothesis =>
      obtain ⟨transition, after, first, _, found, ends | continues⟩ := Machine.scan_cons scanned
      · obtain ⟨_, rfl, rfl⟩ := ends
        intro token member
        have here := Marks.acts_stop found token member
        exact ⟨Nat.le_of_eq here.symm, by simp [here]⟩
      · obtain ⟨_, more, scannedMore, rfl⟩ := continues
        intro token member
        rw [List.length_cons]
        rcases List.mem_append.mp member with member | member
        · have here := Marks.acts_stop found token member
          omega
        · have later := inductionHypothesis scannedMore token member
          omega

/-- Where the result of `read` begins that holds the byte at a position. -/
def readStart : Connection → Nat → Nat
  | [], _ => 0
  | result :: rest, position =>
      if position < result.length then 0
      else result.length + readStart rest (position - result.length)

/-- The callback of a token, given where the results of `read` begin. What was
marked before the result that holds its last byte counts from the beginning of
that result; only the start of a query is kept, as a distance from the beginning
of another result. -/
def Token.deliver (head : List UInt8) (start_ : Nat → Nat) (parsed : Parsed) :
    Token → Except Fault Parsed
  | .element callback start stop =>
      let start := max start (start_ stop)
      callback.call (head.drop start) (stop - start) parsed
  | .query start stop =>
      let start := start - start_ start
      onRequestQuery (head.drop (start_ stop + start)) (len start (stop - start_ stop)) parsed
  | .field nameStart nameStop valueStart stop =>
      let nameStart := max nameStart (start_ stop)
      let valueStart := max valueStart (start_ stop)
      onRequestHttpField (head.drop nameStart) (nameStop - nameStart) (head.drop valueStart)
        (stop - valueStart) parsed

/-- The byte behind a method is a blank. -/
def Token.Framed (head : List UInt8) : Token → Prop
  | .element .requestMethod _ stop => head[stop]? = some 32
  | _ => True

theorem len_of_le {start fpc : Nat} (ordered : start ≤ fpc) (short : fpc < 2 ^ 63) :
    len start fpc = fpc - start := by
  simp only [len]
  omega

/-- A negative difference is longer than any string. -/
theorem le_len_of_lt {start fpc : Nat} (reversed : fpc < start) (short : start < 2 ^ 63) :
    2 ^ 63 ≤ len start fpc := by
  simp only [len]
  omega

section Callbacks

variable {first second : List UInt8} {length : Nat} {parsed : Parsed}

theorem toString_congr (same : first.take length = second.take length) :
    toString first length = toString second length := by
  simp only [toString, same]

/-- `strncmp` looks at so many bytes only. -/
theorem strncmp_congr {other : List UInt8} (same : first.take length = second.take length) :
    strncmp first other length = strncmp second other length := by
  induction length generalizing first second other with
  | zero => simp only [strncmp]
  | succ length inductionHypothesis =>
      cases first with
      | nil =>
          cases second with
          | nil => rfl
          | cons byte rest => simp at same
      | cons byte rest =>
          cases second with
          | nil => simp at same
          | cons other rest =>
              simp only [List.take_succ_cons, List.cons.injEq] at same
              obtain ⟨rfl, same⟩ := same
              simp only [strncmp, List.headD_cons, List.tail_cons, inductionHypothesis same]

/-- A name without blanks is not compared beyond a blank. -/
theorem strncmp_name_congr {name : List UInt8} (noBlank : 32 ∉ name)
    (same : first.take (length + 1) = second.take (length + 1)) (blank : first[length]? = some 32) :
    strncmp name first name.length = strncmp name second name.length := by
  induction name generalizing first second length with
  | nil => rfl
  | cons char name inductionHypothesis =>
      cases first with
      | nil => simp at blank
      | cons byte first =>
          cases second with
          | nil => simp at same
          | cons other second =>
              simp only [List.take_succ_cons, List.cons.injEq] at same
              obtain ⟨rfl, same⟩ := same
              simp only [List.length_cons, strncmp, List.headD_cons, List.tail_cons]
              cases length with
              | zero =>
                  -- here is the blank, and the name has another byte
                  simp only [List.getElem?_cons_zero, Option.some.injEq] at blank
                  subst blank
                  have differs : (char == 32) = false := by
                    rw [beq_eq_false_iff_ne]
                    rintro rfl
                    exact noBlank List.mem_cons_self
                  simp [differs]
              | succ length =>
                  have later : 32 ∉ name := fun member => noBlank (List.mem_cons_of_mem _ member)
                  rw [inductionHypothesis later same (by simpa using blank)]

theorem httpMethodMap_noBlank : ∀ entry ∈ httpMethodMap, 32 ∉ entry.2 := by decide

theorem charsToHttpMethod_congr (same : first.take (length + 1) = second.take (length + 1))
    (blank : first[length]? = some 32) : charsToHttpMethod first = charsToHttpMethod second := by
  rw [charsToHttpMethod, charsToHttpMethod]
  refine congrArg (fun found => (Option.map Prod.fst found).getD HttpMethod.invalidMethod) ?_
  have noBlank := httpMethodMap_noBlank
  generalize httpMethodMap = entries at noBlank
  induction entries with
  | nil => rfl
  | cons entry rest inductionHypothesis =>
      have here := strncmp_name_congr (noBlank entry List.mem_cons_self) same blank
      simp only [List.find?_cons, here]
      rw [inductionHypothesis fun other member => noBlank other (List.mem_cons_of_mem _ member)]

theorem call_congr {callback : Element}
    (same : first.take (length + 1) = second.take (length + 1))
    (blank : callback = .requestMethod → first[length]? = some 32) :
    callback.call first length parsed = callback.call second length parsed := by
  have shorter : first.take length = second.take length := by
    have taken := congrArg (List.take length) same
    simpa [List.take_take] using taken
  cases callback with
  | requestMethod =>
      simp only [Element.call, onRequestMethod, charsToHttpMethod_congr same (blank rfl)]
  | requestUri => rfl
  | fragment | requestPath => simp only [Element.call, toString_congr shorter]
  | httpVersion => simp only [Element.call, onRequestVersion, strncmp_congr shorter]

end Callbacks

end Sylar.Http
