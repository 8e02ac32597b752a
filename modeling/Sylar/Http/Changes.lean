import Sylar.Http.Execution

/-!
# What the tokens change

Each callback makes one change to the request, or fails. `Token.change` reads it
off the positions of the token and the places where the results of `read` begin,
without the registers of the parser.
-/

namespace Sylar.Http

/-- What a callback does to the request. -/
inductive Change where
  | nothing
  | method (v : HttpMethod)
  | version (v : UInt8)
  | path (v : List UInt8)
  | query (v : List UInt8)
  | fragment (v : List UInt8)
  | header (key val : List UInt8)
deriving DecidableEq, Repr

/-- Change the request. -/
def Change.apply (request : HttpRequest) : Change → HttpRequest
  | .nothing => request
  | .method v => request.setMethod v
  | .version v => request.setVersion v
  | .path v => request.setPath v
  | .query v => request.setQuery v
  | .fragment v => request.setFragment v
  | .header key val => request.setHeader key val

/-- The bytes of a head from `start` to the one before `stop`. -/
def slice (head : List UInt8) (start stop : Nat) : List UInt8 :=
  (head.drop start).take (stop - start)

namespace Token

/-- The callback of a token lies in the head, behind the text it gets. -/
def Ordered (size : Nat) : Token → Prop
  | .element _ start stop | .query start stop => start ≤ stop ∧ stop < size
  | .field _ nameStop valueStart stop => nameStop ≤ stop ∧ valueStart ≤ stop ∧ stop < size

/-- The change a token makes, or `none` when an error is set or thrown. -/
def change (head : List UInt8) (start_ : Nat → Nat) : Token → Option Change
  | .element callback start stop =>
      let start := max start (start_ stop)
      match callback with
      | .requestMethod =>
          if charsToHttpMethod (head.drop start) = .invalidMethod then none
          else some (.method (charsToHttpMethod (head.drop start)))
      | .requestUri => some .nothing
      | .fragment => some (.fragment (slice head start stop))
      | .requestPath => some (.path (slice head start stop))
      | .httpVersion =>
          if strncmp (head.drop start) (bytes "HTTP/1.1") (stop - start) then
            some (.version 0x11)
          else if strncmp (head.drop start) (bytes "HTTP/1.0") (stop - start) then
            some (.version 0x10)
          else none
  | .query start stop =>
      let start := start_ stop + (start - start_ start)
      if start ≤ stop then some (.query (slice head start stop)) else none
  | .field nameStart nameStop valueStart stop =>
      let nameStart := max nameStart (start_ stop)
      if nameStop ≤ nameStart then some .nothing
      else
        some (.header (slice head nameStart nameStop)
          (slice head (max valueStart (start_ stop)) stop))

/-- Apply the change of a token, if it makes one. -/
def apply (head : List UInt8) (start_ : Nat → Nat) (request : HttpRequest) (token : Token) :
    HttpRequest :=
  ((token.change head start_).map (Change.apply request)).getD request

/-- The callback throws: a query ends in front of its start, both as offsets in their own results
of `read`. -/
def throws (start_ : Nat → Nat) : Token → Bool
  | .query start stop => stop < start_ stop + (start - start_ start)
  | .element .. | .field .. => false

theorem change_of_throws {head : List UInt8} {start_ : Nat → Nat} {token : Token}
    (thrown : token.throws start_ = true) : token.change head start_ = none := by
  cases token with
  | element | field => cases thrown
  | query start stop => exact if_neg (Nat.not_le.mpr (of_decide_eq_true thrown))

end Token

/-- An exception ends the call, and not an error: of the results of `read` that a callback fails in,
the first has one that throws. The other callbacks for that result run too. -/
def Throws (head : List UInt8) (start_ : Nat → Nat) (tokens : List Token) : Prop :=
  ∃ token ∈ tokens, token.throws start_ = true ∧
    ∀ other ∈ tokens, other.change head start_ = none → start_ token.stop ≤ start_ other.stop

instance (head : List UInt8) (start_ : Nat → Nat) (tokens : List Token) :
    Decidable (Throws head start_ tokens) :=
  inferInstanceAs (Decidable (∃ token ∈ tokens, _ ∧ _))

/-- Callbacks that do not fail have no part in it. -/
theorem throws_append_iff {head : List UInt8} {start_ : Nat → Nat} {first last : List Token}
    (make : ∀ token ∈ first, (token.change head start_).isSome = true) :
    Throws head start_ (first ++ last) ↔ Throws head start_ last := by
  have fine : ∀ token ∈ first, token.change head start_ ≠ none := fun token member =>
    Option.isSome_iff_ne_none.mp (make token member)
  constructor
  · rintro ⟨token, member, thrown, earliest⟩
    rcases List.mem_append.mp member with member | member
    · exact absurd (Token.change_of_throws thrown) (fine token member)
    · exact ⟨token, member, thrown, fun other inside =>
        earliest other (List.mem_append_right _ inside)⟩
  · rintro ⟨token, member, thrown, earliest⟩
    refine ⟨token, List.mem_append_right _ member, thrown, fun other inside failed => ?_⟩
    rcases List.mem_append.mp inside with inside | inside
    · exact absurd failed (fine other inside)
    · exact earliest other inside failed

theorem Marks.act_ordered {fpc size : Nat} {marks after : Marks} {act : Act}
    {tokens : List Token} (within : marks.Within fpc) (inside : fpc < size)
    (found : marks.act fpc act = some (after, tokens)) :
    after.Within fpc ∧ ∀ token ∈ tokens, token.Ordered size := by
  cases act with
  | mark | startValue =>
      cases found
      exact ⟨{ within with mark := Nat.le_refl _ }, nofun⟩
  | startField =>
      cases found
      exact ⟨{ within with fieldStart := Nat.le_refl _, fieldStop := nofun }, nofun⟩
  | writeField =>
      cases found
      refine ⟨{ within with fieldStop := fun stop known => ?_ }, nofun⟩
      cases known
      exact Nat.le_refl _
  | startQuery =>
      cases found
      refine ⟨{ within with queryStart := fun start known => ?_ }, nofun⟩
      cases known
      exact Nat.le_refl _
  | writeValue =>
      obtain ⟨stop, known, pair⟩ := Option.map_eq_some_iff.mp found
      cases pair
      refine ⟨within, fun token member => ?_⟩
      rw [List.mem_singleton.mp member]
      exact ⟨within.fieldStop stop known, within.mark, inside⟩
  | queryString =>
      obtain ⟨start, known, pair⟩ := Option.map_eq_some_iff.mp found
      cases pair
      refine ⟨within, fun token member => ?_⟩
      rw [List.mem_singleton.mp member]
      exact ⟨within.queryStart start known, inside⟩
  | element callback =>
      cases found
      refine ⟨within, fun token member => ?_⟩
      rw [List.mem_singleton.mp member]
      exact ⟨within.mark, inside⟩

theorem Marks.acts_ordered {fpc size : Nat} {marks after : Marks} {actions : List Act}
    {tokens : List Token} (within : marks.Within fpc) (inside : fpc < size)
    (found : marks.acts fpc actions = some (after, tokens)) :
    after.Within fpc ∧ ∀ token ∈ tokens, token.Ordered size := by
  induction actions generalizing marks tokens with
  | nil =>
      cases found
      exact ⟨within, nofun⟩
  | cons act rest inductionHypothesis =>
      simp only [Marks.acts, Option.bind_eq_bind, Option.bind_eq_some_iff, Option.pure_def,
        Option.some.injEq] at found
      obtain ⟨⟨between, first⟩, foundFirst, ⟨last, more⟩, foundMore, pair⟩ := found
      cases pair
      obtain ⟨withinBetween, orderedFirst⟩ := Marks.act_ordered within inside foundFirst
      obtain ⟨withinLast, orderedMore⟩ := inductionHypothesis withinBetween foundMore
      refine ⟨withinLast, fun token member => ?_⟩
      rcases List.mem_append.mp member with member | member
      · exact orderedFirst token member
      · exact orderedMore token member

/-- The tokens of a head lie in it. -/
theorem Machine.scan_ordered {σ : Type} {machine : Machine Act σ} {fpc : Nat} {cs : σ}
    {marks : Marks} {left : List UInt8} {tokens : List Token} (within : marks.Within fpc)
    (scanned : machine.scan fpc cs marks left = some tokens) :
    ∀ token ∈ tokens, token.Ordered (fpc + left.length) := by
  induction left generalizing fpc cs marks tokens with
  | nil => cases scanned
  | cons byte left inductionHypothesis =>
      obtain ⟨transition, after, first, _, found, ends | continues⟩ := Machine.scan_cons scanned
      · obtain ⟨_, rfl, rfl⟩ := ends
        exact (Marks.acts_ordered within (by simp) found).2
      · obtain ⟨_, more, scannedMore, rfl⟩ := continues
        have onward : fpc + 1 + left.length = fpc + (byte :: left).length := by
          simp only [List.length_cons]
          omega
        have inside : fpc < fpc + (byte :: left).length := by simp
        obtain ⟨withinAfter, orderedFirst⟩ := Marks.acts_ordered within inside found
        have orderedMore := inductionHypothesis (withinAfter.mono (Nat.le_succ fpc)) scannedMore
        intro token member
        rcases List.mem_append.mp member with member | member
        · exact orderedFirst token member
        · exact onward ▸ orderedMore token member

section Deliver

variable {head : List UInt8} {start_ : Nat → Nat} {token : Token} {parsed after : Parsed}

theorem toString_eq {chars : List UInt8} {length : Nat} (short : length < 2 ^ 63) :
    toString chars length = .ok (chars.take length) := by
  rw [toString, if_neg (Nat.not_le.mpr short)]
  rfl

theorem toString_cases (chars : List UInt8) (length : Nat) :
    toString chars length = .error .lengthError ∨
      toString chars length = .ok (chars.take length) := by
  by_cases huge : 2 ^ 63 ≤ length
  · rw [toString, if_pos huge]
    exact Or.inl rfl
  · exact Or.inr (toString_eq (Nat.lt_of_not_le huge))

/-- A token that makes a change does just that. -/
theorem deliver_of_change (before : ∀ position, start_ position ≤ position)
    (short : ∀ position < head.length, position - start_ position < 2 ^ 63)
    (ordered : token.Ordered head.length) {change : Change}
    (makes : token.change head start_ = some change) :
    token.deliver head start_ parsed = .ok (parsed.update (change.apply ·)) := by
  cases token with
  | element callback start stop =>
      obtain ⟨first, last⟩ := ordered
      have near := short stop last
      have text : toString (head.drop (max start (start_ stop))) (stop - max start (start_ stop)) =
          .ok (slice head (max start (start_ stop)) stop) := toString_eq (by omega)
      cases callback with
      | requestMethod =>
          simp only [Token.change] at makes
          split at makes
          · cases makes
          · rename_i known
            cases makes
            simp only [Token.deliver, Element.call, onRequestMethod, if_neg known]
            rfl
      | requestUri =>
          cases makes
          rfl
      | fragment | requestPath =>
          cases makes
          simp only [Token.deliver, Element.call, text]
          rfl
      | httpVersion =>
          simp only [Token.change] at makes
          simp only [Token.deliver, Element.call, onRequestVersion]
          split at makes
          · rename_i same
            cases makes
            rw [if_pos same]
            rfl
          · rename_i differs
            split at makes
            · rename_i same
              cases makes
              rw [if_neg differs, if_pos same]
              rfl
            · cases makes
  | query start stop =>
      obtain ⟨first, last⟩ := ordered
      have near := short stop last
      have bound := before stop
      simp only [Token.change] at makes
      split at makes
      · rename_i forward
        cases makes
        have length : len (start - start_ start) (stop - start_ stop) =
            stop - (start_ stop + (start - start_ start)) := by
          rw [len_of_le (by omega) (by omega)]
          omega
        have text : toString (head.drop (start_ stop + (start - start_ start)))
              (stop - (start_ stop + (start - start_ start))) =
            .ok (slice head (start_ stop + (start - start_ start)) stop) := toString_eq (by omega)
        simp only [Token.deliver, onRequestQuery, length, text]
        rfl
      · cases makes
  | field nameStart nameStop valueStart stop =>
      obtain ⟨named, valued, last⟩ := ordered
      have near := short stop last
      simp only [Token.change] at makes
      have key : toString (head.drop (max nameStart (start_ stop)))
            (nameStop - max nameStart (start_ stop)) =
          .ok (slice head (max nameStart (start_ stop)) nameStop) := toString_eq (by omega)
      have val : toString (head.drop (max valueStart (start_ stop)))
            (stop - max valueStart (start_ stop)) =
          .ok (slice head (max valueStart (start_ stop)) stop) := toString_eq (by omega)
      split at makes
      · rename_i nameless
        cases makes
        simp only [Token.deliver, onRequestHttpField, Nat.sub_eq_zero_of_le nameless, if_true]
        rfl
      · rename_i named
        cases makes
        have flen : nameStop - max nameStart (start_ stop) ≠ 0 := by omega
        simp only [Token.deliver, onRequestHttpField, if_neg flen, key, val]
        rfl

/-- A query that ends in front of its start is longer than any string. -/
theorem deliver_of_throws (before : ∀ position, start_ position ≤ position)
    (short : ∀ position < head.length, position - start_ position < 2 ^ 63)
    (ordered : token.Ordered head.length) (thrown : token.throws start_ = true) :
    token.deliver head start_ parsed = .error .lengthError := by
  cases token with
  | element | field => cases thrown
  | query start stop =>
      obtain ⟨first, last⟩ := ordered
      have bound := before stop
      have reversed : stop < start_ stop + (start - start_ start) := of_decide_eq_true thrown
      have huge : 2 ^ 63 ≤ len (start - start_ start) (stop - start_ stop) :=
        le_len_of_lt (by omega) (short start (Nat.lt_of_le_of_lt first last))
      simp only [Token.deliver, onRequestQuery, toString, if_pos huge]
      rfl

/-- No other callback throws. -/
theorem deliver_returns (before : ∀ position, start_ position ≤ position)
    (short : ∀ position < head.length, position - start_ position < 2 ^ 63)
    (ordered : token.Ordered head.length) (returns : token.throws start_ = false)
    (parsed : Parsed) : ∃ after, token.deliver head start_ parsed = .ok after := by
  cases makes : token.change head start_ with
  | some change => exact ⟨_, deliver_of_change before short ordered makes⟩
  | none =>
      cases token with
      | element callback start stop =>
          cases callback with
          | requestMethod | httpVersion => exact ⟨_, rfl⟩
          | requestUri | fragment | requestPath => cases makes
      | query start stop =>
          have forward := Nat.le_of_not_lt (of_decide_eq_false returns)
          rw [Token.change, if_pos forward] at makes
          cases makes
      | field nameStart nameStop valueStart stop =>
          simp only [Token.change] at makes
          split at makes <;> cases makes

/-- A token that makes no change sets an error or throws. -/
theorem deliver_of_failure (before : ∀ position, start_ position ≤ position)
    (short : ∀ position < head.length, position - start_ position < 2 ^ 63)
    (ordered : token.Ordered head.length)
    (fails : token.change head start_ = none)
    (delivered : token.deliver head start_ parsed = .ok after) : after.error ≠ 0 := by
  cases token with
  | element callback start stop =>
      cases callback with
      | requestMethod =>
          simp only [Token.change] at fails
          split at fails
          · rename_i unknown
            simp only [Token.deliver, Element.call, onRequestMethod, if_pos unknown] at delivered
            cases delivered
            rintro ⟨⟩
          · cases fails
      | requestUri | fragment | requestPath => cases fails
      | httpVersion =>
          simp only [Token.change] at fails
          split at fails
          · cases fails
          · rename_i first
            split at fails
            · cases fails
            · rename_i second
              simp only [Token.deliver, Element.call, onRequestVersion, if_neg first,
                if_neg second] at delivered
              cases delivered
              rintro ⟨⟩
  | query start stop =>
      have thrown : (Token.query start stop).throws start_ = true := by
        simp only [Token.change] at fails
        split at fails
        · cases fails
        · rename_i reversed
          exact decide_eq_true (Nat.lt_of_not_le reversed)
      rw [deliver_of_throws before short ordered thrown] at delivered
      cases delivered
  | field nameStart nameStop valueStart stop =>
      simp only [Token.change] at fails
      split at fails <;> cases fails

/-- What is done with a string that could be made. -/
theorem of_toString {chars : List UInt8} {length : Nat} {use : List UInt8 → Except Fault Parsed}
    (ran : (toString chars length >>= use) = .ok after) :
    use (chars.take length) = .ok after := by
  rcases toString_cases chars length with text | text
  · rw [text] at ran
    cases ran
  · rw [text] at ran
    exact ran

/-- No callback takes an error back. -/
theorem deliver_error (delivered : token.deliver head start_ parsed = .ok after)
    (failed : parsed.error ≠ 0) : after.error ≠ 0 := by
  cases token with
  | element callback start stop =>
      cases callback with
      | requestMethod =>
          simp only [Token.deliver, Element.call, onRequestMethod] at delivered
          split at delivered
          · cases delivered
            rintro ⟨⟩
          · cases delivered
            exact failed
      | requestUri =>
          cases delivered
          exact failed
      | fragment | requestPath =>
          simp only [Token.deliver, Element.call] at delivered
          cases of_toString delivered
          exact failed
      | httpVersion =>
          simp only [Token.deliver, Element.call, onRequestVersion] at delivered
          split at delivered
          · cases delivered
            exact failed
          · split at delivered
            · cases delivered
              exact failed
            · cases delivered
              rintro ⟨⟩
  | query start stop =>
      simp only [Token.deliver, onRequestQuery] at delivered
      cases of_toString delivered
      rwa [Parsed.error_update]
  | field nameStart nameStop valueStart stop =>
      simp only [Token.deliver, onRequestHttpField] at delivered
      split at delivered
      · cases delivered
        exact failed
      · cases of_toString (of_toString delivered)
        exact failed

/-- Tokens that all make their changes make them in order. -/
theorem foldlM_deliver {tokens : List Token} (before : ∀ position, start_ position ≤ position)
    (short : ∀ position < head.length, position - start_ position < 2 ^ 63)
    (ordered : ∀ token ∈ tokens, token.Ordered head.length)
    (make : ∀ token ∈ tokens, (token.change head start_).isSome) (parsed : Parsed) :
    tokens.foldlM (Token.deliver head start_) parsed =
      .ok (parsed.update fun request => tokens.foldl (Token.apply head start_) request) := by
  induction tokens generalizing parsed with
  | nil => rfl
  | cons token rest inductionHypothesis =>
      obtain ⟨change, makes⟩ := Option.isSome_iff_exists.mp (make token List.mem_cons_self)
      have first : token.deliver head start_ parsed = .ok (parsed.update (change.apply ·)) :=
        deliver_of_change before short (ordered token List.mem_cons_self) makes
      rw [List.foldlM_cons, first]
      have later := inductionHypothesis (fun other member => ordered other (.tail _ member))
        (fun other member => make other (.tail _ member)) (parsed.update (change.apply ·))
      refine later.trans ?_
      simp only [Parsed.update, List.foldl_cons, Token.apply, makes, Option.map_some,
        Option.getD_some]

/-- Nor do several. -/
theorem foldlM_deliver_error {tokens : List Token} (failed : parsed.error ≠ 0)
    (delivered : tokens.foldlM (Token.deliver head start_) parsed = .ok after) :
    after.error ≠ 0 := by
  induction tokens generalizing parsed with
  | nil =>
      cases delivered
      exact failed
  | cons token rest inductionHypothesis =>
      rw [List.foldlM_cons] at delivered
      cases first : token.deliver head start_ parsed with
      | error fault =>
          rw [first] at delivered
          cases delivered
      | ok between =>
          rw [first] at delivered
          exact inductionHypothesis (deliver_error first failed) delivered

/-- One token that makes no change leaves an error, or the callbacks throw. -/
theorem foldlM_deliver_failure {tokens : List Token}
    (before : ∀ position, start_ position ≤ position)
    (short : ∀ position < head.length, position - start_ position < 2 ^ 63)
    (ordered : ∀ token ∈ tokens, token.Ordered head.length)
    (fails : ∃ token ∈ tokens, token.change head start_ = none)
    (delivered : tokens.foldlM (Token.deliver head start_) parsed = .ok after) :
    after.error ≠ 0 := by
  induction tokens generalizing parsed with
  | nil =>
      obtain ⟨token, member, _⟩ := fails
      cases member
  | cons token rest inductionHypothesis =>
      rw [List.foldlM_cons] at delivered
      cases first : token.deliver head start_ parsed with
      | error fault =>
          rw [first] at delivered
          cases delivered
      | ok between =>
          rw [first] at delivered
          obtain ⟨other, member, makesNone⟩ := fails
          rcases List.mem_cons.mp member with rfl | member
          · have failed := deliver_of_failure before short (ordered _ List.mem_cons_self) makesNone
              first
            exact foldlM_deliver_error failed delivered
          · exact inductionHypothesis (fun other member => ordered other (.tail _ member))
              ⟨other, member, makesNone⟩ delivered

/-- Without an error all tokens made their changes. -/
theorem make_of_delivered {tokens : List Token} (before : ∀ position, start_ position ≤ position)
    (short : ∀ position < head.length, position - start_ position < 2 ^ 63)
    (ordered : ∀ token ∈ tokens, token.Ordered head.length)
    (delivered : tokens.foldlM (Token.deliver head start_) parsed = .ok after)
    (fine : after.error = 0) : ∀ token ∈ tokens, (token.change head start_).isSome = true := by
  intro token member
  by_contra none_
  have fails : token.change head start_ = none := by simpa using none_
  exact foldlM_deliver_failure before short ordered ⟨token, member, fails⟩ delivered fine

/-- An error comes from a token that makes no change. -/
theorem exists_failure {tokens : List Token} (before : ∀ position, start_ position ≤ position)
    (short : ∀ position < head.length, position - start_ position < 2 ^ 63)
    (ordered : ∀ token ∈ tokens, token.Ordered head.length) (healthy : parsed.error = 0)
    (delivered : tokens.foldlM (Token.deliver head start_) parsed = .ok after)
    (wrong : after.error ≠ 0) : ∃ token ∈ tokens, token.change head start_ = none := by
  by_contra none_
  have make : ∀ token ∈ tokens, (token.change head start_).isSome = true := by
    intro token member
    rw [Option.isSome_iff_ne_none]
    exact fun fails => none_ ⟨token, member, fails⟩
  have same := (foldlM_deliver before short ordered make parsed).symm.trans delivered
  cases same
  exact wrong healthy

/-- The callbacks throw if and only if one of them does. -/
theorem foldlM_deliver_cases {tokens : List Token} (before : ∀ position, start_ position ≤ position)
    (short : ∀ position < head.length, position - start_ position < 2 ^ 63)
    (ordered : ∀ token ∈ tokens, token.Ordered head.length) (parsed : Parsed) :
    ((∃ token ∈ tokens, token.throws start_ = true) ∧
        tokens.foldlM (Token.deliver head start_) parsed = .error .lengthError) ∨
      (∀ token ∈ tokens, token.throws start_ = false) ∧
        ∃ after, tokens.foldlM (Token.deliver head start_) parsed = .ok after := by
  induction tokens generalizing parsed with
  | nil => exact .inr ⟨nofun, parsed, rfl⟩
  | cons token rest inductionHypothesis =>
      obtain ⟨inside, others⟩ := List.forall_mem_cons.mp ordered
      rw [List.foldlM_cons]
      cases thrown : token.throws start_ with
      | true =>
          rw [deliver_of_throws before short inside thrown]
          exact .inl ⟨⟨token, List.mem_cons_self, thrown⟩, rfl⟩
      | false =>
          obtain ⟨middle, delivered⟩ := deliver_returns before short inside thrown parsed
          rw [delivered]
          rcases inductionHypothesis others middle with
            ⟨⟨other, member, thrown⟩, failed⟩ | ⟨returns, after, ran⟩
          · exact .inl ⟨⟨other, .tail _ member, thrown⟩, failed⟩
          · exact .inr ⟨List.forall_mem_cons.mpr ⟨thrown, returns⟩, after, ran⟩

end Deliver

end Sylar.Http
