import Sylar.Http.Consumption
import Sylar.Http.Segmentation

/-!
# Requests on one connection

`recvRequest` drops what it has read behind a request, so that the requests of a
connection are received in order if and only if each of them begins with a result of
`read` of its own. What was dropped never comes back: a call that returns a request
has consumed more bytes than the body of the request has, and what is behind a head
that was cut has no room for it.
-/

namespace Sylar.Http

theorem readStart_append (before reads : Connection) (position : Nat) :
    readStart (before ++ reads) (before.flatten.length + position) =
      before.flatten.length + readStart reads position := by
  induction before with
  | nil => simp
  | cons result rest inductionHypothesis =>
      rw [List.cons_append, List.flatten_cons, List.length_append, Nat.add_assoc, readStart,
        if_neg (by omega), Nat.add_sub_cancel_left, inductionHypothesis, Nat.add_assoc]

theorem readStart_mono (reads : Connection) {first second : Nat} (ordered : first ≤ second) :
    readStart reads first ≤ readStart reads second := by
  induction reads generalizing first second with
  | nil => exact Nat.le_refl 0
  | cons result rest inductionHypothesis =>
      rw [readStart, readStart]
      split
      · exact Nat.zero_le _
      · rw [if_neg (by omega)]
        exact Nat.add_le_add_left (inductionHypothesis (Nat.sub_le_sub_right ordered _)) _

theorem skip_append (before reads : Connection) {count : Nat} (some_ : 0 < count) :
    skip (before.flatten.length + count) (before ++ reads) = skip count reads := by
  induction before with
  | nil => simp
  | cons result rest inductionHypothesis =>
      rw [List.cons_append, List.flatten_cons, List.length_append, Nat.add_assoc, skip,
        if_neg (by omega), Nat.add_sub_cancel_left, inductionHypothesis]

/-- The rest of a result begins within it. -/
theorem readStart_lt_of_skip {count : Nat} {reads rest : Connection} {left : List UInt8}
    (further : 0 < count) (skipped : skip count reads = left :: rest) (some_ : left ≠ []) :
    readStart reads count < count := by
  induction reads generalizing count with
  | nil => cases skipped
  | cons result more inductionHypothesis =>
      rw [skip] at skipped
      rw [readStart]
      split at skipped
      · rename_i within
        cases skipped
        have longer : count < result.length := by
          by_contra whole
          exact some_ (List.drop_eq_nil_of_le (Nat.le_of_not_lt whole))
        rw [if_pos longer]
        exact further
      · rename_i beyond
        have later := inductionHypothesis (by omega) skipped
        rw [if_neg (by omega)]
        omega

/-- A token that is not cut makes the change it makes with the whole text. -/
theorem Token.change_of_start {token : Token} {head : List UInt8} {start_ : Nat → Nat}
    (ordered : token.Ordered head.length)
    (zero : ∀ position < head.length, start_ position = 0) :
    token.change head start_ = token.change head fun _ => 0 := by
  cases token with
  | element callback start stop =>
      simp only [Token.change, zero stop ordered.2]
  | query start stop =>
      simp only [Token.change, zero stop ordered.2,
        zero start (Nat.lt_of_le_of_lt ordered.1 ordered.2)]
  | field nameStart nameStop valueStart stop =>
      simp only [Token.change, zero stop ordered.2.2]

variable {σ : Type} {machine : Machine Act σ} {lexicalCast : List UInt8 → Option UInt64}
  {buffSize : Nat}

/-- Every request of a list has a property together with the position where it begins. -/
def Placed (property : Nat → Message machine lexicalCast → Prop) :
    Nat → List (Message machine lexicalCast) → Prop
  | _, [] => True
  | position, message :: rest =>
      property position message ∧ Placed property (position + message.encode.length) rest

instance Placed.decide {property : Nat → Message machine lexicalCast → Prop}
    [∀ position message, Decidable (property position message)] (position : Nat)
    (messages : List (Message machine lexicalCast)) :
    Decidable (Placed property position messages) :=
  match messages with
  | [] => .isTrue trivial
  | message :: rest =>
      have : Decidable (Placed property (position + message.encode.length) rest) :=
        Placed.decide (position + message.encode.length) rest
      inferInstanceAs (Decidable (_ ∧ _))

namespace Message

/-- The head comes with one result of `read`: the one that holds its last byte does not begin
behind its first. -/
def Together (reads : Connection) (position : Nat) (message : Message machine lexicalCast) : Prop :=
  readStart reads (position + message.chars.length - 1) ≤ position

/-- A result of `read` begins with the request, and its body is read. -/
def Separate (reads : Connection) (position : Nat) (message : Message machine lexicalCast) :
    Prop :=
  readStart reads position = position ∧
    BodyRead message.body.length
      ((skip (position + message.chars.length) reads).headD []).length

instance (reads : Connection) (position : Nat) (message : Message machine lexicalCast) :
    Decidable (message.Together reads position) :=
  inferInstanceAs (Decidable (_ ≤ _))

instance (reads : Connection) (position : Nat) (message : Message machine lexicalCast) :
    Decidable (message.Separate reads position) :=
  inferInstanceAs (Decidable (_ ∧ _))

variable {message : Message machine lexicalCast} {before reads : Connection}

theorem encode_length (message : Message machine lexicalCast) :
    message.encode.length = message.chars.length + message.body.length := List.length_append

/-- A head that comes with one result is cut nowhere. -/
theorem cut_of_together (together : message.Together (before ++ reads) before.flatten.length) :
    message.cut (readStart reads) = some message.toHead.request := by
  have some_ : 1 ≤ message.chars.length := List.length_pos_iff.mpr message.some_
  rw [Together, Nat.add_sub_assoc some_, readStart_append] at together
  refine message.cut_eq fun token member => ?_
  refine Token.change_of_start (message.ordered token member) fun position inside => ?_
  have earlier := readStart_mono reads (Nat.le_sub_one_of_lt inside)
  omega

theorem intact_iff_separate
    (together : message.Together (before ++ reads) before.flatten.length) :
    message.Intact reads ↔ message.Separate (before ++ reads) before.flatten.length := by
  have some_ := List.length_pos_iff.mpr message.some_
  have starts : readStart (before ++ reads) before.flatten.length = before.flatten.length := by
    have first := readStart_append before reads 0
    rwa [Nat.le_zero.mp (readStart_le reads 0), Nat.add_zero] at first
  rw [Separate, skip_append before reads some_]
  constructor
  · intro intact
    exact ⟨starts, intact.body⟩
  · intro separate
    exact ⟨cut_of_together together, separate.2⟩

end Message

open Message

section Calls

variable {whole : Connection} {messages : List (Message machine lexicalCast)}

/-- The first call and the others. -/
theorem recvRequests_cons {message : Message machine lexicalCast} {reads after : Connection}
    (ran : recvRequests machine lexicalCast buffSize (message :: messages).length reads =
      .ok ((message :: messages).map (some ·.sent), after)) :
    ∃ between, recvRequest machine lexicalCast buffSize reads = .ok (some message.sent, between) ∧
      recvRequests machine lexicalCast buffSize messages.length between =
        .ok (messages.map (some ·.sent), after) := by
  obtain ⟨⟨request, between⟩, first, onward⟩ := bind_ok ran
  obtain ⟨⟨requests, later⟩, others, same⟩ := bind_ok onward
  cases same
  exact ⟨between, first, others⟩

/-- When bytes of the first request are dropped, not all requests are received. -/
theorem recvRequests_late {position : Nat} {reads after : Connection}
    (total : whole.flatten.length = position + (messages.flatMap Message.encode).length)
    (together : Placed (Together whole) position messages) (suffix_ : reads <:+ whole)
    (late : reads.flatten.length < (messages.flatMap Message.encode).length) :
    recvRequests machine lexicalCast buffSize messages.length reads ≠
      .ok (messages.map (some ·.sent), after) := by
  induction messages generalizing position reads with
  | nil => exact absurd late (Nat.not_lt_zero _)
  | cons message others inductionHypothesis =>
      intro ran
      obtain ⟨between, first, more⟩ := recvRequests_cons ran
      obtain ⟨shorter, consumed⟩ := recvRequest_consumes first
      rw [sent_body] at consumed
      rw [List.flatMap_cons, List.length_append, encode_length] at total late
      -- the results of `read` are at a boundary, and none is within the head
      have behind : reads.flatten.length ≤
          message.body.length + (others.flatMap Message.encode).length := by
        by_contra inside
        obtain ⟨before, rfl⟩ := suffix_
        rw [List.flatten_append, List.length_append] at total
        have start := together.1
        have further : position + message.chars.length - 1 = before.flatten.length +
            (position + message.chars.length - 1 - before.flatten.length) := by omega
        rw [Together, further, readStart_append] at start
        omega
      have remains : whole.flatten.length =
          position + message.encode.length + (others.flatMap Message.encode).length := by
        rw [encode_length]
        omega
      exact inductionHypothesis remains together.2 (shorter.trans suffix_) (by omega) more

/-- The calls from the position on where the first request begins. -/
theorem recvRequests_from (size : buffSize < 2 ^ 31)
    (fitsBuffer : ∀ message ∈ messages, message.chars.length ≤ buffSize)
    (before : Connection) {reads : Connection} (nonempty : ∀ result ∈ reads, result ≠ [])
    (stream : reads.flatten = messages.flatMap Message.encode)
    (together : Placed (Together (before ++ reads)) before.flatten.length messages)
    (fits : recvRequests machine lexicalCast buffSize messages.length reads ≠ .error .overrun) :
    (∃ after, recvRequests machine lexicalCast buffSize messages.length reads =
      .ok (messages.map (some ·.sent), after)) ↔
      Placed (Separate (before ++ reads)) before.flatten.length messages := by
  induction messages generalizing before reads with
  | nil => exact ⟨fun _ => trivial, fun _ => ⟨reads, rfl⟩⟩
  | cons message others inductionHypothesis =>
      rw [List.flatMap_cons] at stream
      have first : recvRequest machine lexicalCast buffSize reads ≠ .error .overrun := by
        intro overrun
        rw [List.length_cons, recvRequests, overrun] at fits
        exact fits rfl
      have intact := intact_iff_separate together.1
      have short := fitsBuffer message List.mem_cons_self
      have count := message.encode_length
      have some_ := List.length_pos_iff.mpr message.some_
      -- the other calls, when nothing was dropped
      have onward : ∀ after, recvRequest machine lexicalCast buffSize reads =
          .ok (some message.sent, after) → skip message.encode.length reads = [] :: after →
          ((∃ rest, recvRequests machine lexicalCast buffSize others.length after =
            .ok (others.map (some ·.sent), rest)) ↔
            Placed (Separate (before ++ reads)) (before.flatten.length + message.encode.length)
              others) := by
        intro after received skipped
        have left := skip_flatten message.encode.length reads
        rw [skipped, List.flatten_cons, List.nil_append, stream, List.drop_left] at left
        obtain ⟨front, rfl⟩ := (skip_tail skipped).trans (List.tail_suffix reads)
        have consumed : (before ++ front).flatten.length =
            before.flatten.length + message.encode.length := by
          have lengths := congrArg List.length stream
          rw [List.flatten_append, List.length_append, left, List.length_append] at lengths
          rw [List.flatten_append, List.length_append]
          omega
        have further := together.2
        rw [← consumed, ← List.append_assoc] at further ⊢
        refine inductionHypothesis (fun other member => fitsBuffer other (.tail _ member)) _
          (fun result member => nonempty result (List.mem_append_right _ member)) left further ?_
        intro overrun
        rw [List.length_cons, recvRequests, received] at fits
        simp only [bind, Except.bind, overrun] at fits
        exact fits rfl
      constructor
      · rintro ⟨after, ran⟩
        obtain ⟨between, received, more⟩ := recvRequests_cons ran
        have whole := intact_of_received size short nonempty stream received
        obtain ⟨lost, later, skipped, again⟩ :=
          recvRequest_of_intact size short nonempty stream first whole
        cases received.symm.trans again
        have left := skip_flatten message.encode.length reads
        rw [skipped, List.flatten_cons, stream, List.drop_left] at left
        have none_ : lost = [] := by
          by_contra dropped
          have total : (before ++ reads).flatten.length =
              before.flatten.length + message.encode.length +
                (others.flatMap Message.encode).length := by
            rw [List.flatten_append, stream, List.length_append, List.length_append, Nat.add_assoc]
          have lengths := congrArg List.length left
          have positive := List.length_pos_iff.mpr dropped
          rw [List.length_append] at lengths
          have suffix_ := ((skip_tail skipped).trans (List.tail_suffix reads)).trans
            (List.suffix_append before reads)
          exact recvRequests_late total together.2 suffix_ (by omega) more
        subst none_
        exact ⟨intact.mp whole, (onward _ received skipped).mp ⟨after, more⟩⟩
      · rintro ⟨separate, rest⟩
        obtain ⟨lost, after, skipped, received⟩ :=
          recvRequest_of_intact size short nonempty stream first (intact.mpr separate)
        have none_ : lost = [] := by
          by_contra dropped
          cases others with
          | nil =>
              have left := skip_flatten message.encode.length reads
              rw [skipped, List.flatten_cons, stream, List.drop_left] at left
              exact dropped (List.append_eq_nil_iff.mp left).1
          | cons next others =>
              have inside := readStart_lt_of_skip (by omega) skipped dropped
              have starts := rest.1.1
              rw [readStart_append] at starts
              omega
        subst none_
        obtain ⟨last, more⟩ := (onward after received skipped).mpr rest
        refine ⟨last, ?_⟩
        rw [List.length_cons, recvRequests, received]
        simp only [bind, Except.bind, more, List.map_cons]
        rfl

variable (messages) in
/-- Requests that are sent back to back, each head of which comes with one result of `read`. They
are received in order if and only if each begins with a result of its own and its body is read. -/
theorem recvRequests_iff (size : buffSize < 2 ^ 31)
    (fitsBuffer : ∀ message ∈ messages, message.chars.length ≤ buffSize)
    {reads : Connection} (nonempty : ∀ result ∈ reads, result ≠ [])
    (stream : reads.flatten = messages.flatMap Message.encode)
    (together : Placed (Together reads) 0 messages)
    (fits : recvRequests machine lexicalCast buffSize messages.length reads ≠ .error .overrun) :
    (∃ after, recvRequests machine lexicalCast buffSize messages.length reads =
      .ok (messages.map (some ·.sent), after)) ↔ Placed (Separate reads) 0 messages :=
  recvRequests_from size fitsBuffer [] nonempty stream together fits

end Calls

section Runs

open HttpConnection (decimal)

/-- A request without a body. -/
def ask : Message headMachine decimal where
  chars := bytes "GET / HTTP/1.1\r\n\r\n"
  tokens :=
    [.element .requestMethod 0 3, .element .requestPath 4 5, .element .requestUri 4 5,
      .element .httpVersion 6 14]
  scanned := by decide
  framed := by simp [Token.Framed]; decide
  makes := by decide
  body := []
  length := by decide

/-- The body comes in two parts, and the second request after it. -/
def aligned : Connection := [upload.chars ++ bytes "h", bytes "i", ask.encode]

/-- The second request comes with the first. -/
def pipelined : Connection := [upload.encode ++ ask.encode]

theorem recvRequests_iff_aligned :
    ∃ after, recvRequests headMachine decimal 64 2 aligned =
      .ok ([some upload.sent, some ask.sent], after) :=
  (recvRequests_iff [upload, ask] (by decide) (by decide) (by decide) (by decide)
    (by decide) (by decide)).mpr (by decide)

/-- The second call finds nothing. -/
theorem recvRequests_pipelined :
    pipelined.flatten = [upload, ask].flatMap Message.encode ∧
      Placed (Message.Together pipelined) 0 [upload, ask] ∧
      ¬∃ after, recvRequests headMachine decimal 64 2 pipelined =
        .ok ([some upload.sent, some ask.sent], after) := by
  refine ⟨by decide, by decide, ?_⟩
  rintro ⟨after, received⟩
  have found := congrArg (fun result => result.toOption.map fun answer => answer.1.map (·.isSome))
    received
  change _ = some [true, true] at found
  exact absurd found (by decide)

end Runs

end Sylar.Http
