import Sylar.Http.Changes
import Sylar.Http.Segments

/-!
# How a head is received

`recvHead` reads on until the automaton is at the end of the head. Whatever the
results of `read` are, it delivers the tokens of the head in order, each cut to
what came with the result that holds its end, and keeps what came behind the head.
-/

namespace Sylar.Http

variable {σ : Type} {machine : Machine Act σ}

/-- The registers of the parser before a result of `read` that begins at `origin`. -/
structure Ready (start_ : Nat → Nat) (origin : Nat) (cs : σ) (marks : Marks)
    (parser : HttpParser σ) : Prop where
  within : marks.Within origin
  queryStart : parser.queryStart = marks.queryStart.map fun start => start - start_ start
  state : parser.cs = some cs

section Execute

variable {head : List UInt8} {start_ : Nat → Nat} {origin : Nat} {cs : σ} {marks : Marks}
  {parser : HttpParser σ} {tokens : List Token}

/-- A result that ends before the head does is consumed. -/
theorem execute_partial {result more : List UInt8} (some_ : result ≠ []) (unfinished : more ≠ [])
    (window : Window head start_ origin result result.length)
    (ready : Ready start_ origin cs marks parser)
    (scanned : machine.scan origin cs marks (result ++ more) = some tokens)
    (framed : ∀ token ∈ tokens, token.Framed head) :
    ∃ first last middle after later, tokens = first ++ last ∧
      (∀ token ∈ first, token.stop < origin + result.length) ∧
      machine.scan (origin + result.length) middle after more = some last ∧
      Ready start_ (origin + result.length) middle after later ∧ machine.final middle = false ∧
      ∀ parsed, HttpRequestParser.execute machine result ⟨parsed, parser⟩ =
        (first.foldlM (Token.deliver head start_) parsed).map
          fun parsed => (⟨parsed, later⟩, result.length, []) := by
  have whole : Window head start_ origin result (0 + result.length) := by rwa [Nat.zero_add]
  obtain ⟨first, last, middle, after, later, rfl, early, scannedLast, holds, state, unfinal,
    delivers⟩ := exec_partial machine unfinished whole (Holds.fresh ready.within ready.queryStart) ready.state
      scanned framed (.inr some_)
  rw [Nat.zero_add] at holds delivers
  refine ⟨first, last, middle, after, later, rfl, early, scannedLast,
    ⟨holds.within, holds.queryStart, state⟩, unfinal, fun parsed => ?_⟩
  rw [HttpRequestParser.execute, HttpRequestParser.httpParserExecute, if_neg some_,
    delivers parsed]
  cases first.foldlM (Token.deliver head start_) parsed with
  | error fault => rfl
  | ok parsed => simp only [bind, Except.bind, pure, Except.pure, Except.map, List.drop_length]

/-- The result that holds the end of the head is consumed up to there. -/
theorem execute_complete {left extra : List UInt8} (some_ : left ≠ [])
    (window : Window head start_ origin (left ++ extra) left.length)
    (ready : Ready start_ origin cs marks parser)
    (scanned : machine.scan origin cs marks left = some tokens)
    (framed : ∀ token ∈ tokens, token.Framed head) :
    ∃ later final, later.cs = some final ∧ machine.final final = true ∧
      ∀ parsed, HttpRequestParser.execute machine (left ++ extra) ⟨parsed, parser⟩ =
        (tokens.foldlM (Token.deliver head start_) parsed).map
          fun parsed => (⟨parsed, later⟩, left.length, extra) := by
  have whole : Window head start_ origin (left ++ extra) (0 + left.length) := by
    rwa [Nat.zero_add]
  obtain ⟨later, final, state, isFinal, delivers⟩ :=
    exec_complete machine extra whole (Holds.fresh ready.within ready.queryStart)
      ready.state scanned framed
  refine ⟨later, final, state, isFinal, fun parsed => ?_⟩
  rw [Nat.zero_add] at delivers
  rw [HttpRequestParser.execute, HttpRequestParser.httpParserExecute,
    if_neg (List.append_ne_nil_of_left_ne_nil some_ extra), delivers parsed]
  cases tokens.foldlM (Token.deliver head start_) parsed with
  | error fault => rfl
  | ok parsed => simp only [bind, Except.bind, pure, Except.pure, Except.map, List.drop_left]

end Execute

section Receive

variable {head : List UInt8} {start_ : Nat → Nat} {tokens : List Token} {buffSize : Nat}

/-- What `recvHead` does with a result of `read` that was parsed. -/
theorem recvHead_cons {result : List UInt8} {rest : Connection} (some_ : result ≠ [])
    (fits : result.length ≤ buffSize) (p : HttpRequestParser σ) :
    recvHead machine buffSize [] p (result :: rest) =
      (p.execute machine result).bind fun (p, _, data) =>
        if p.hasError then .ok (none, [])
        else if (data.length : Int) = toInt buffSize then .ok (none, [])
        else if p.isFinished machine ≠ 0 then .ok (some (p, data), rest)
        else recvHead machine buffSize data p rest := by
  rw [recvHead, List.length_nil, Nat.sub_zero, if_neg (Nat.not_lt.mpr fits), if_neg some_,
    List.nil_append]
  rfl

theorem hasError_iff (parsed : Parsed) {parser : HttpParser σ} {cs : σ}
    (state : parser.cs = some cs) :
    (⟨parsed, parser⟩ : HttpRequestParser σ).hasError = true ↔ parsed.error ≠ 0 := by
  simp [HttpRequestParser.hasError, state]

/-- What receiving the rest of a head comes to, with `behind` what is read behind it. Either all
callbacks run and nothing was wrong, or a callback throws, or the connection is closed. -/
def HeadOutcome (head : List UInt8) (start_ : Nat → Nat) (tokens : List Token) (parsed : Parsed)
    (behind : Connection)
    (received : Except Fault (Option (HttpRequestParser σ × List UInt8) × Connection)) : Prop :=
  (∃ after later extra rest, tokens.foldlM (Token.deliver head start_) parsed = .ok after ∧
    after.error = 0 ∧ behind = extra :: rest ∧
    received = .ok (some (⟨after, later⟩, extra), rest)) ∨
  (∀ after, tokens.foldlM (Token.deliver head start_) parsed = .ok after → after.error ≠ 0) ∧
    (Throws head start_ tokens ∧ received = .error .lengthError ∨
      ¬Throws head start_ tokens ∧ received = .ok (none, []))

variable {origin : Nat} {cs : σ} {marks : Marks} {parser : HttpParser σ} {parsed : Parsed}

/-- The tokens that were delivered without an error before do not matter. -/
theorem HeadOutcome.append {first last : List Token} {between : Parsed} {behind : Connection}
    {received : Except Fault (Option (HttpRequestParser σ × List UInt8) × Connection)}
    (delivered : first.foldlM (Token.deliver head start_) parsed = .ok between)
    (make : ∀ token ∈ first, (token.change head start_).isSome = true)
    (outcome : HeadOutcome head start_ last between behind received) :
    HeadOutcome head start_ (first ++ last) parsed behind received := by
  unfold HeadOutcome
  rw [List.foldlM_append, delivered, throws_append_iff make]
  exact outcome

/-- The result of `read` that holds the end of the head. -/
theorem recvHead_last (size : buffSize < 2 ^ 31) {left extra : List UInt8} (rest : Connection)
    (some_ : left ≠ []) (within : (left ++ extra).length ≤ buffSize)
    (before : ∀ position, start_ position ≤ position)
    (short : ∀ position < head.length, position - start_ position < 2 ^ 63)
    (ordered : ∀ token ∈ tokens, token.Ordered head.length)
    (window : Window head start_ origin (left ++ extra) left.length)
    (ready : Ready start_ origin cs marks parser)
    (scanned : machine.scan origin cs marks left = some tokens)
    (framed : ∀ token ∈ tokens, token.Framed head) :
    HeadOutcome head start_ tokens parsed (extra :: rest)
      (recvHead machine buffSize [] ⟨parsed, parser⟩ ((left ++ extra) :: rest)) := by
  obtain ⟨later, final, state, isFinal, executes⟩ :=
    execute_complete some_ window ready scanned framed
  have here : ∀ token ∈ tokens, start_ token.stop = origin := by
    intro token member
    obtain ⟨lower, upper⟩ := Machine.scan_stop scanned token member
    have started := window.start (token.stop - origin) (by omega)
    rwa [Nat.add_sub_cancel' lower] at started
  rw [recvHead_cons (List.append_ne_nil_of_left_ne_nil some_ extra) within, executes parsed]
  unfold HeadOutcome
  rcases foldlM_deliver_cases before short ordered parsed with
    ⟨⟨token, member, thrown⟩, failed⟩ | ⟨returns, after, ran⟩
  · rw [failed]
    refine .inr ⟨nofun, .inl ⟨⟨token, member, thrown, fun other inside _ => ?_⟩, rfl⟩⟩
    exact Nat.le_of_eq ((here token member).trans (here other inside).symm)
  · have error := hasError_iff after state
    have room : ¬(extra.length : Int) = toInt buffSize := by
      have positive := List.length_pos_iff.mpr some_
      rw [List.length_append] at within
      rw [toInt_of_lt size]
      omega
    have ends : (⟨after, later⟩ : HttpRequestParser σ).isFinished machine ≠ 0 := by
      simp [HttpRequestParser.isFinished, state, isFinal]
    rw [ran]
    simp only [Except.map, Except.bind]
    by_cases wrong : after.error = 0
    · refine .inl ⟨after, later, extra, rest, rfl, wrong, rfl, ?_⟩
      rw [if_neg fun failed => error.mp failed wrong, if_neg room, if_pos ends]
    · rw [if_pos (error.mpr wrong)]
      refine .inr ⟨?_, .inr ⟨?_, rfl⟩⟩
      · rintro _ ⟨⟩
        exact wrong
      · rintro ⟨token, member, thrown, _⟩
        rw [returns token member] at thrown
        cases thrown

/-- A result of `read` that ends before the head does. -/
theorem recvHead_more (size : buffSize < 2 ^ 31) {result : List UInt8} (rest : Connection)
    (some_ : result ≠ []) (within : result.length ≤ buffSize) {first last : List Token}
    (before : ∀ position, start_ position ≤ position)
    (short : ∀ position < head.length, position - start_ position < 2 ^ 63)
    (ordered : ∀ token ∈ first, token.Ordered head.length) (healthy : parsed.error = 0)
    (early : ∀ token ∈ first, start_ token.stop = origin)
    (late : ∀ token ∈ last, origin < start_ token.stop)
    (behind : Connection) {middle : σ} {later : HttpParser σ} (state : later.cs = some middle)
    (unfinal : machine.final middle = false)
    (executes : HttpRequestParser.execute machine result ⟨parsed, parser⟩ =
      (first.foldlM (Token.deliver head start_) parsed).map
        fun parsed => (⟨parsed, later⟩, result.length, [])) :
    HeadOutcome head start_ (first ++ last) parsed behind
        (recvHead machine buffSize [] ⟨parsed, parser⟩ (result :: rest)) ∨
      ∃ between, first.foldlM (Token.deliver head start_) parsed = .ok between ∧
        between.error = 0 ∧ recvHead machine buffSize [] ⟨parsed, parser⟩ (result :: rest) =
          recvHead machine buffSize [] ⟨between, later⟩ rest := by
  rw [recvHead_cons some_ within, executes]
  unfold HeadOutcome
  rw [List.foldlM_append]
  rcases foldlM_deliver_cases before short ordered parsed with
    ⟨⟨token, member, thrown⟩, failed⟩ | ⟨returns, between, ran⟩
  · rw [failed]
    refine .inl (.inr ⟨nofun, .inl
      ⟨⟨token, List.mem_append_left _ member, thrown, fun other inside _ => ?_⟩, rfl⟩⟩)
    rw [early token member]
    rcases List.mem_append.mp inside with inside | inside
    · exact Nat.le_of_eq (early other inside).symm
    · exact Nat.le_of_lt (late other inside)
  · have error := hasError_iff between state
    have room : ¬((([] : List UInt8).length : Nat) : Int) = toInt buffSize := by
      have positive := List.length_pos_iff.mpr some_
      rw [toInt_of_lt size, List.length_nil]
      omega
    have going : ¬(⟨between, later⟩ : HttpRequestParser σ).isFinished machine ≠ 0 := by
      simp [HttpRequestParser.isFinished, state, unfinal]
    by_cases wrong : between.error = 0
    · rw [ran]
      simp only [Except.map, Except.bind]
      rw [if_neg fun failed => error.mp failed wrong, if_neg room, if_neg going]
      exact .inr ⟨between, rfl, wrong, rfl⟩
    · -- the error was set before a later result could throw
      have quiet : ¬Throws head start_ (first ++ last) := by
        obtain ⟨other, inside, fails⟩ := exists_failure before short ordered healthy ran wrong
        rintro ⟨token, member, thrown, earliest⟩
        rcases List.mem_append.mp member with member | member
        · rw [returns token member] at thrown
          cases thrown
        · have first := earliest other (List.mem_append_left _ inside) fails
          rw [early other inside] at first
          exact Nat.not_le.mpr (late token member) first
      rw [ran]
      simp only [Except.map, Except.bind]
      rw [if_pos (error.mpr wrong)]
      exact .inl (.inr ⟨fun after delivered => foldlM_deliver_error wrong delivered,
        .inr ⟨quiet, rfl⟩⟩)

/-- The part of a head that begins with a result of `read`, whatever comes behind it. -/
theorem recvHead_stream (size : buffSize < 2 ^ 31)
    (before : ∀ position, start_ position ≤ position)
    (short : ∀ position < head.length, position - start_ position < 2 ^ 63)
    {reads : Connection} {tail : List UInt8} (inside : origin < head.length)
    (framed : ∀ token ∈ tokens, token.Framed head)
    (ready : Ready start_ origin cs marks parser) (healthy : parsed.error = 0)
    (scanned : machine.scan origin cs marks (head.drop origin) = some tokens)
    (nonempty : ∀ result ∈ reads, result ≠ [])
    (stream : reads.flatten = head.drop origin ++ tail)
    (starts : ∀ position, start_ (origin + position) = origin + readStart reads position)
    (fits : recvHead machine buffSize [] ⟨parsed, parser⟩ reads ≠ .error .overrun) :
    HeadOutcome head start_ tokens parsed (skip (head.length - origin) reads)
      (recvHead machine buffSize [] ⟨parsed, parser⟩ reads) := by
  induction reads generalizing origin cs marks parser parsed tokens with
  | nil =>
      have ended := (List.append_eq_nil_iff.mp stream.symm).1
      have beyond := List.drop_eq_nil_iff.mp ended
      omega
  | cons result rest inductionHypothesis =>
      have some_ := nonempty result List.mem_cons_self
      have here : ∀ position < result.length, start_ (origin + position) = origin := by
        intro position within
        rw [starts, readStart, if_pos within]
        rfl
      have within : result.length ≤ buffSize := by
        by_contra exceeds
        rw [recvHead, List.length_nil, Nat.sub_zero, if_pos (Nat.lt_of_not_le exceeds)] at fits
        exact fits rfl
      have positive := List.length_pos_iff.mpr some_
      have count : (head.drop origin).length = head.length - origin := List.length_drop
      have ordered : ∀ token ∈ tokens, token.Ordered head.length := by
        have ordered := Machine.scan_ordered ready.within scanned
        rwa [count, Nat.add_sub_cancel' (Nat.le_of_lt inside)] at ordered
      rw [List.flatten_cons] at stream
      rw [skip]
      by_cases covers : head.length - origin ≤ result.length
      · obtain ⟨extra, rfl⟩ : ∃ extra, result = head.drop origin ++ extra := by
          have part : head.drop origin <+: result :=
            List.prefix_of_prefix_length_le ⟨tail, stream.symm⟩ (List.prefix_append _ _)
              (count ▸ covers)
          exact part.imp fun _ same => same.symm
        rw [if_pos covers, ← count, List.drop_left]
        rw [List.length_append] at here
        refine recvHead_last size rest (List.ne_nil_of_length_pos (by omega)) within before short
          ordered ⟨?_, ?_, ?_⟩ ready scanned framed
        · rw [List.take_left, List.take_length]
        · exact fun fpc inside => here fpc (by omega)
        · exact fun position inside => short position (by omega)
      · obtain ⟨more, split⟩ : ∃ more, head.drop origin = result ++ more := by
          have part : result <+: head.drop origin :=
            List.prefix_of_prefix_length_le ⟨rest.flatten, stream⟩ (List.prefix_append _ _)
              (by omega)
          exact part.imp fun _ same => same.symm
        have onward : head.drop (origin + result.length) = more := by
          rw [← List.drop_drop, split, List.drop_left]
        have length := congrArg List.length split
        rw [List.length_append, count] at length
        have unfinished : more ≠ [] := List.ne_nil_of_length_pos (by omega)
        have window : Window head start_ origin result result.length :=
          ⟨by rw [split, List.take_left, List.take_length], here,
            fun position inside => short position (by omega)⟩
        have startsLater : ∀ position, start_ (origin + result.length + position) =
            origin + result.length + readStart rest position := by
          intro position
          have started := starts (result.length + position)
          rw [readStart, if_neg (by omega), Nat.add_sub_cancel_left] at started
          rw [Nat.add_assoc, started, Nat.add_assoc]
        rw [split] at scanned stream
        rw [if_neg covers, Nat.sub_sub]
        obtain ⟨first, last, middle, marked, later, rfl, upper, scannedLast, readyLater, unfinal,
          executes⟩ := execute_partial some_ unfinished window ready scanned framed
        have early : ∀ token ∈ first, start_ token.stop = origin := by
          intro token member
          have lower := (Machine.scan_stop scanned token (List.mem_append_left _ member)).1
          have started := here (token.stop - origin) (by
            have bound := upper token member
            omega)
          rwa [Nat.add_sub_cancel' lower] at started
        have late : ∀ token ∈ last, origin < start_ token.stop := by
          intro token member
          have lower := (Machine.scan_stop scannedLast token member).1
          have started := startsLater (token.stop - (origin + result.length))
          rw [Nat.add_sub_cancel' lower] at started
          omega
        rw [List.forall_mem_append] at ordered
        rcases recvHead_more size rest some_ within before short ordered.1 healthy early late
          (skip _ rest) readyLater.state unfinal (executes parsed) with
          decided | ⟨between, delivered, fine, same⟩
        · exact decided
        · rw [same] at fits ⊢
          rw [← onward] at scannedLast
          refine .append delivered (make_of_delivered before short ordered.1 delivered fine)
            (inductionHypothesis (by omega)
              (fun token member => framed token (List.mem_append_right _ member)) readyLater
              fine scannedLast (fun later member => nonempty later (List.mem_cons_of_mem _ member))
              ?_ startsLater fits)
          rw [onward]
          exact List.append_cancel_left (stream.trans (List.append_assoc ..))

end Receive

end Sylar.Http
