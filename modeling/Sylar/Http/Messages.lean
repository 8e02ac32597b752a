import Mathlib.Data.List.Basic
import Sylar.Http.Reception

/-!
# Requests in a stream

A request as it is sent, a head that the automaton accepts and a body of the length
that the head tells. `recvRequest` returns it if and only if nothing is lost of what
the head says where it was cut, and the rest of the body is not too long for an
`int`. It consumes the results of `read` that hold a part of the request.
-/

namespace Sylar.Http

variable {σ : Type} {machine : Machine Act σ}

instance {α : Type} (result : Except Fault α) (fault : Fault) :
    Decidable (result = .error fault) :=
  match result with
  | .error other => decidable_of_iff (other = fault) ⟨congrArg _, Except.error.inj⟩
  | .ok _ => .isFalse nofun

theorem readStart_le (reads : Connection) (position : Nat) :
    readStart reads position ≤ position := by
  induction reads generalizing position with
  | nil => exact Nat.zero_le _
  | cons result rest inductionHypothesis =>
      rw [readStart]
      split
      · exact Nat.zero_le _
      · have later := inductionHypothesis (position - result.length)
        omega

/-- `readFixSize` reads what is left, and nothing more. -/
theorem readLeft_stream {left : Nat} (some_ : 0 < left) {connection : Connection}
    (nonempty : ∀ result ∈ connection, result ≠ []) (enough : left ≤ connection.flatten.length)
    (fits : readLeft left connection ≠ .error .overrun) :
    ∃ rest, readLeft left connection = .ok (some (connection.flatten.take left), rest) ∧
      skip left connection = [] :: rest := by
  induction connection generalizing left with
  | nil =>
      simp only [List.flatten_nil, List.length_nil] at enough
      omega
  | cons result rest inductionHypothesis =>
      have others : ∀ later ∈ rest, later ≠ [] :=
        fun later member => nonempty later (List.mem_cons_of_mem _ member)
      have positive := List.length_pos_iff.mpr (nonempty result List.mem_cons_self)
      rw [readLeft, if_neg (by omega)] at fits ⊢
      by_cases exceeds : left < result.length
      · rw [if_pos exceeds] at fits
        exact absurd rfl fits
      · rw [if_neg exceeds, if_neg (nonempty result List.mem_cons_self)] at fits ⊢
        rw [List.flatten_cons, List.length_append] at enough
        rw [skip, List.flatten_cons, List.take_append, List.take_of_length_le (by omega)]
        by_cases last : left ≤ result.length
        · have all : left = result.length := by omega
          subst all
          have done : readLeft 0 rest = .ok (some [], rest) := by
            cases rest with
            | nil => rfl
            | cons => rfl
          rw [if_pos last, List.drop_length, Nat.sub_self, List.take_zero, done]
          exact ⟨rest, rfl, rfl⟩
        · rw [if_neg last]
          have unread : 0 < left - result.length := by omega
          obtain ⟨later, read, skipped⟩ := inductionHypothesis unread others (by omega)
            fun overrun => by
              rw [overrun] at fits
              exact fits rfl
          rw [read]
          exact ⟨later, rfl, skipped⟩

/-- `readFixSize` answers with its argument as an `int`, which is kept abstract. -/
theorem readFixSize_cases (length : Nat) (connection : Connection) :
    (∃ fault, readLeft length connection = .error fault ∧
      readFixSize length connection = .error fault) ∨
    (∃ rest, readLeft length connection = .ok (none, rest) ∧
      readFixSize length connection = .ok (0, [], rest)) ∨
    ∃ result bytes rest, result = toInt length ∧
      readLeft length connection = .ok (some bytes, rest) ∧
      readFixSize length connection = .ok (result, bytes, rest) := by
  unfold readFixSize
  cases readLeft length connection with
  | error fault => exact .inl ⟨fault, rfl, rfl⟩
  | ok answer =>
      obtain ⟨bytes, rest⟩ := answer
      cases bytes with
      | none => exact .inr (.inl ⟨rest, rfl, rfl⟩)
      | some bytes => exact .inr (.inr ⟨_, bytes, rest, rfl, rfl, rfl⟩)

/-- A body of `length` bytes, of which `buffered` came with the head, is read: its length is
positive as an `int64_t`, and what is left of it as an `int`. -/
def BodyRead (length buffered : Nat) : Prop :=
  length = 0 ∨ length < 2 ^ 63 ∧ (length ≤ buffered ∨ 0 < toInt (length - buffered))

instance (length buffered : Nat) : Decidable (BodyRead length buffered) :=
  inferInstanceAs (Decidable (_ ∨ _))

section Body

variable {lexicalCast : List UInt8 → Option UInt64} {parser : HttpRequestParser σ}
  {body data more : List UInt8} {connection : Connection}

theorem HttpRequest.init_eq (request : HttpRequest) :
    ∃ close, request.init = { request with close } := by
  unfold HttpRequest.init
  dsimp only
  split
  · exact ⟨request.close, rfl⟩
  · exact ⟨_, rfl⟩

theorem HttpRequest.init_body (request : HttpRequest) :
    request.init.body = request.body := by
  obtain ⟨close, same⟩ := request.init_eq
  rw [same]

theorem HttpRequest.setBody_nil {request : HttpRequest} (empty : request.body = []) :
    request.setBody [] = request := by
  unfold HttpRequest.setBody
  rw [← empty]

/-- The length of a body as an `int64_t`. -/
structure Signed (length : Nat) (signed : Int) : Prop where
  small : length < 2 ^ 63 → signed = length
  large : 2 ^ 63 ≤ length → signed ≤ 0

theorem signed_bmod {length : Nat} (word : length < 2 ^ 64) :
    Signed length (Int.bmod length (2 ^ 64)) := by
  rw [Int.bmod_def]
  constructor
  · intro small
    split <;> omega
  · intro large
    split <;> omega

/-- The part of `recvRequest` behind the head, for the request of the parser and the length of
the body as an `int64_t`. -/
def recvContent (request : HttpRequest) (data : List UInt8) (connection : Connection)
    (length : Int) : Except Fault (Option HttpRequest × Connection) := do
  if length > 0 then
    let copied := if length ≥ data.length then data else data.take length.toNat
    let length := length - data.length
    if length > 0 then
      let (result, more, connection) ← readFixSize length.toNat connection
      if result ≤ 0 then return (none, [])
      else return (some ((request.setBody (copied ++ more)).init), connection)
    else return (some ((request.setBody copied).init), connection)
  else return (some request.init, connection)

theorem recvBody_eq (parser : HttpRequestParser σ) (data : List UInt8) (connection : Connection) :
    recvBody lexicalCast parser data connection = recvContent parser.data data connection
      (Int.bmod (parser.getContentLength lexicalCast).toNat (2 ^ 64)) := rfl

theorem signed_contentLength (parser : HttpRequestParser σ)
    (length : (parser.getContentLength lexicalCast).toNat = body.length) :
    Signed body.length (Int.bmod (parser.getContentLength lexicalCast).toNat (2 ^ 64)) := by
  have word : body.length < 2 ^ 64 := length ▸ UInt64.toNat_lt _
  rw [length]
  exact signed_bmod word

variable {request received : HttpRequest} {rest : Connection}

/-- What is received is the request of the head with some body. -/
theorem recvContent_some {length : Int} (empty : request.body = [])
    (ran : recvContent request data connection length = .ok (some received, rest)) :
    ∃ content, received = (request.setBody content).init := by
  simp only [recvContent, bind, Except.bind, pure, Except.pure] at ran
  split at ran
  · split at ran
    · split at ran
      · cases ran
      · split at ran
        · cases ran
        · cases ran
          exact ⟨_, rfl⟩
    · cases ran
      exact ⟨_, rfl⟩
  · cases ran
    exact ⟨[], by rw [HttpRequest.setBody_nil empty]⟩

/-- A body that is read. -/
theorem recvContent_stream (empty : request.body = []) {length : Int}
    (signed : Signed body.length length)
    (nonempty : ∀ result ∈ connection, result ≠ [])
    (stream : data ++ connection.flatten = body ++ more)
    (read : BodyRead body.length data.length)
    (fits : recvContent request data connection length ≠ .error .overrun) :
    ∃ lost after, skip body.length (data :: connection) = lost :: after ∧
      recvContent request data connection length =
        .ok (some (request.setBody body).init, after) := by
  by_cases zero : body = []
  · subst zero
    have signed := signed.small (by simp)
    subst signed
    refine ⟨data, connection, rfl, ?_⟩
    rw [HttpRequest.setBody_nil empty]
    rfl
  · have positive := List.length_pos_iff.mpr zero
    obtain ⟨small, rest⟩ := read.resolve_left (by omega)
    have signed := signed.small small
    subst signed
    simp only [recvContent] at fits ⊢
    rw [if_pos (by omega)] at fits ⊢
    by_cases buffered : body.length ≤ data.length
    · have taken : data.take body.length = body := by
        have same := congrArg (List.take body.length) stream
        rwa [List.take_append_of_le_length buffered, List.take_left] at same
      have copied : (if (body.length : Int) ≥ data.length then data
          else data.take (body.length : Int).toNat) = body := by
        split
        · rw [← taken, List.take_of_length_le (by omega)]
        · exact taken
      rw [if_neg (by omega), copied, skip, if_pos buffered]
      exact ⟨_, connection, rfl, rfl⟩
    · have some_ : 0 < body.length - data.length := by omega
      have lengths := congrArg List.length stream
      rw [List.length_append, List.length_append] at lengths
      have left : ((body.length : Int) - data.length).toNat = body.length - data.length := by omega
      rw [if_pos (by omega), if_pos (by omega), left] at fits ⊢
      have whole : data ++ connection.flatten.take (body.length - data.length) = body := by
        have same := congrArg (List.take body.length) stream
        rwa [List.take_append, List.take_of_length_le (by omega), List.take_left] at same
      have received := readLeft_stream some_ nonempty (by omega)
      rcases readFixSize_cases (body.length - data.length) connection with
        ⟨fault, ran, fixed⟩ | ⟨after, ran, fixed⟩ | ⟨result, bytes, after, answer, ran, fixed⟩
      · rw [fixed] at fits
        obtain ⟨_, read, _⟩ := received fun overrun => by
          rw [ran] at overrun
          cases overrun
          exact fits rfl
        rw [ran] at read
        cases read
      · obtain ⟨_, read, _⟩ := received (by rw [ran]; rintro ⟨⟩)
        rw [ran] at read
        cases read
      · obtain ⟨_, read, skipped⟩ := received (by rw [ran]; rintro ⟨⟩)
        rw [ran] at read
        cases read
        have positive := rest.resolve_left buffered
        rw [← answer] at positive
        rw [fixed, skip, if_neg buffered]
        refine ⟨[], after, skipped, ?_⟩
        simp only [bind, Except.bind, pure, Except.pure]
        rw [if_neg (Int.not_le.mpr positive), whole]

/-- A body that is not read is not in the request. -/
theorem recvContent_unread (empty : request.body = []) {length : Int}
    (signed : Signed body.length length)
    (unread : ¬BodyRead body.length data.length)
    (ran : recvContent request data connection length = .ok (some received, rest)) :
    received.body ≠ body := by
  obtain ⟨positive, long⟩ := not_or.mp unread
  by_cases small : body.length < 2 ^ 63
  · obtain ⟨unbuffered, negative⟩ := not_or.mp fun rest => long ⟨small, rest⟩
    have signed := signed.small small
    subst signed
    have left : ((body.length : Int) - data.length).toNat = body.length - data.length := by omega
    simp only [recvContent] at ran
    rw [if_pos (by omega), if_pos (by omega), if_pos (by omega), left] at ran
    rcases readFixSize_cases (body.length - data.length) connection with
      ⟨fault, _, fixed⟩ | ⟨after, _, fixed⟩ | ⟨result, bytes, after, answer, _, fixed⟩
    · rw [fixed] at ran
      cases ran
    · rw [fixed] at ran
      cases ran
    · rw [← answer] at negative
      rw [fixed] at ran
      simp only [bind, Except.bind, pure, Except.pure] at ran
      rw [if_pos (Int.not_lt.mp negative)] at ran
      cases ran
  · have signed := signed.large (Nat.le_of_not_lt small)
    simp only [recvContent] at ran
    rw [if_neg (Int.not_lt.mpr signed)] at ran
    cases ran
    obtain ⟨close, same⟩ := request.init_eq
    rw [same]
    rintro rfl
    exact positive (congrArg List.length empty)

end Body

/-- The request of a head, when of every text only what comes with the result of `read` that holds
its end is left. -/
def cutHead (chars : List UInt8) (tokens : List Token) (start_ : Nat → Nat) :
    Option HttpRequest :=
  if ∀ token ∈ tokens, (token.change chars start_).isSome = true then
    some (tokens.foldl (Token.apply chars start_) .new)
  else none

/-- What is left of a head, nothing throws of. -/
theorem not_throws_of_cutHead {chars : List UInt8} {tokens : List Token} {start_ : Nat → Nat}
    {request : HttpRequest} (left : cutHead chars tokens start_ = some request) :
    ¬Throws chars start_ tokens := by
  unfold cutHead at left
  split at left
  · rename_i make
    rintro ⟨token, member, thrown, _⟩
    have made := make token member
    rw [Token.change_of_throws thrown] at made
    cases made
  · cases left

/-- A head is received as it is cut, or a callback throws, or the connection is closed. -/
theorem recvHead_cut {buffSize : Nat} {reads : Connection} {chars tail : List UInt8}
    {tokens : List Token} (size : buffSize < 2 ^ 31)
    (short : ∀ position < chars.length, position - readStart reads position < 2 ^ 63)
    (scanned : machine.scan 0 machine.start .new chars = some tokens)
    (framed : ∀ token ∈ tokens, token.Framed chars)
    (nonempty : ∀ result ∈ reads, result ≠ []) (stream : reads.flatten = chars ++ tail)
    (fits : recvHead machine buffSize [] (.new machine) reads ≠ .error .overrun) :
    (∃ request parser extra rest, cutHead chars tokens (readStart reads) = some request ∧
      skip chars.length reads = extra :: rest ∧
      recvHead machine buffSize [] (.new machine) reads =
        .ok (some (⟨⟨request, 0⟩, parser⟩, extra), rest)) ∨
    cutHead chars tokens (readStart reads) = none ∧
      (Throws chars (readStart reads) tokens ∧
          recvHead machine buffSize [] (.new machine) reads = .error .lengthError ∨
        ¬Throws chars (readStart reads) tokens ∧
          recvHead machine buffSize [] (.new machine) reads = .ok (none, [])) := by
  have within : Marks.new.Within 0 := ⟨Nat.le_refl 0, Nat.le_refl 0, nofun, nofun⟩
  have ready : Ready (readStart reads) 0 machine.start .new
      (HttpRequestParser.new machine).parser := ⟨within, rfl, rfl⟩
  have ordered := Machine.scan_ordered within scanned
  rw [Nat.zero_add] at ordered
  have some_ : 0 < chars.length := by
    cases chars with
    | nil => cases scanned
    | cons byte rest => exact Nat.succ_pos _
  have before := readStart_le reads
  have outcome := recvHead_stream size before short some_ framed ready rfl scanned nonempty stream
    (fun position => by rw [Nat.zero_add, Nat.zero_add]) fits
  unfold cutHead
  rcases outcome with ⟨after, later, extra, rest, ran, fine, skipped, received⟩ | ⟨wrong, ends⟩
  · have make := make_of_delivered before short ordered ran fine
    have same := (foldlM_deliver before short ordered make ⟨.new, 0⟩).symm.trans ran
    cases same
    rw [if_pos make]
    exact .inl ⟨_, later, extra, rest, rfl, skipped, received⟩
  · have fails : ¬∀ token ∈ tokens, (token.change chars (readStart reads)).isSome = true :=
      fun make => wrong _ (foldlM_deliver before short ordered make ⟨.new, 0⟩) rfl
    rw [if_neg fails]
    exact .inr ⟨rfl, ends⟩

/-- The head of a request: the automaton ends with it, and every callback takes its text. -/
structure Head (machine : Machine Act σ) where
  chars : List UInt8
  tokens : List Token
  scanned : machine.scan 0 machine.start .new chars = some tokens
  framed : ∀ token ∈ tokens, token.Framed chars
  makes : ∀ token ∈ tokens, (token.change chars fun _ => 0).isSome = true

namespace Head

variable (head : Head machine)

/-- What is left of the head, when its texts are cut. -/
def cut (start_ : Nat → Nat) : Option HttpRequest := cutHead head.chars head.tokens start_

/-- What the head says. -/
def request : HttpRequest := head.tokens.foldl (Token.apply head.chars fun _ => 0) .new

theorem some_ : head.chars ≠ [] := by
  intro empty
  have scanned := head.scanned
  rw [empty] at scanned
  cases scanned

/-- The callbacks set neither the body nor whether the connection is closed. -/
theorem foldl_apply (start_ : Nat → Nat) (chars : List UInt8) (tokens : List Token)
    (request : HttpRequest) :
    (tokens.foldl (Token.apply chars start_) request).body = request.body ∧
      (tokens.foldl (Token.apply chars start_) request).close = request.close := by
  induction tokens generalizing request with
  | nil => exact ⟨rfl, rfl⟩
  | cons token rest inductionHypothesis =>
      obtain ⟨body, close⟩ := inductionHypothesis (token.apply chars start_ request)
      rw [List.foldl_cons, body, close]
      unfold Token.apply
      cases token.change chars start_ with
      | none => exact ⟨rfl, rfl⟩
      | some change => cases change <;> exact ⟨rfl, rfl⟩

theorem cut_body {start_ : Nat → Nat} {request : HttpRequest}
    (left : head.cut start_ = some request) : request.body = [] ∧ request.close = true := by
  unfold cut cutHead at left
  split at left
  · cases left
    exact foldl_apply start_ head.chars head.tokens .new
  · cases left

/-- Nothing is lost when each callback makes the change it makes with the whole text. -/
theorem cut_eq {start_ : Nat → Nat} (same : ∀ token ∈ head.tokens,
    token.change head.chars start_ = token.change head.chars fun _ => 0) :
    head.cut start_ = some head.request := by
  have make : ∀ token ∈ head.tokens, (token.change head.chars start_).isSome = true := by
    intro token member
    rw [same token member]
    exact head.makes token member
  rw [cut, cutHead, if_pos make, request]
  refine congrArg some (List.foldl_ext _ _ _ fun request token member => ?_)
  rw [Token.apply, Token.apply, same token member]

theorem ordered : ∀ token ∈ head.tokens, token.Ordered head.chars.length := by
  have within : Marks.new.Within 0 := ⟨Nat.le_refl 0, Nat.le_refl 0, nofun, nofun⟩
  have ordered := Machine.scan_ordered within head.scanned
  rwa [Nat.zero_add] at ordered

variable {head} {buffSize : Nat} {reads : Connection} {tail : List UInt8}

/-- A head that fits the buffer is received as it is cut, or not at all. -/
theorem received (size : buffSize < 2 ^ 31) (fitsBuffer : head.chars.length ≤ buffSize)
    (nonempty : ∀ result ∈ reads, result ≠ []) (stream : reads.flatten = head.chars ++ tail)
    (fits : recvHead machine buffSize [] (.new machine) reads ≠ .error .overrun) :
    (∃ request parser extra rest, head.cut (readStart reads) = some request ∧
      skip head.chars.length reads = extra :: rest ∧
      recvHead machine buffSize [] (.new machine) reads =
        .ok (some (⟨⟨request, 0⟩, parser⟩, extra), rest)) ∨
    head.cut (readStart reads) = none ∧
      (Throws head.chars (readStart reads) head.tokens ∧
          recvHead machine buffSize [] (.new machine) reads = .error .lengthError ∨
        ¬Throws head.chars (readStart reads) head.tokens ∧
          recvHead machine buffSize [] (.new machine) reads = .ok (none, [])) :=
  recvHead_cut size (fun position inside => by omega) head.scanned head.framed nonempty stream fits

end Head

/-- A request as it is sent. -/
structure Message (machine : Machine Act σ) (lexicalCast : List UInt8 → Option UInt64) extends
    Head machine where
  body : List UInt8
  length : (toHead.request.getHeaderAs lexicalCast (bytes "content-length") 0).toNat = body.length

/-- `setBody` and `init` can be undone, but for what they set. -/
theorem HttpRequest.eq_of_init {first second : HttpRequest} {content body : List UInt8}
    (same : (first.setBody content).init = (second.setBody body).init)
    (bodies : first.body = second.body) (closes : first.close = second.close) :
    first = second ∧ content = body := by
  obtain ⟨close, left⟩ := (first.setBody content).init_eq
  obtain ⟨close', right⟩ := (second.setBody body).init_eq
  rw [left, right] at same
  obtain ⟨method, version, _, path, query, fragment, _, headers⟩ := first
  obtain ⟨method', version', _, path', query', fragment', _, headers'⟩ := second
  simp only [HttpRequest.setBody, HttpRequest.mk.injEq] at same bodies closes ⊢
  obtain ⟨rfl, rfl, rfl, rfl, rfl, rfl, rfl, rfl⟩ := same
  exact ⟨⟨rfl, rfl, closes, rfl, rfl, rfl, bodies, rfl⟩, rfl⟩

namespace Message

variable {lexicalCast : List UInt8 → Option UInt64} (message : Message machine lexicalCast)

/-- The bytes that are sent. -/
def encode : List UInt8 := message.chars ++ message.body

/-- The request that is sent. -/
def sent : HttpRequest := (message.toHead.request.setBody message.body).init

/-- Nothing is lost of what the head says where the results of `read` cut it, and the body is
read. -/
structure Intact (reads : Connection) : Prop where
  same : message.cut (readStart reads) = some message.toHead.request
  body : BodyRead message.body.length ((skip message.chars.length reads).headD []).length

variable {message} {buffSize : Nat} {reads : Connection} {tail : List UInt8}

theorem sent_body : message.sent.body = message.body := HttpRequest.init_body _

theorem request_empty :
    message.toHead.request.body = [] ∧ message.toHead.request.close = true :=
  Head.foldl_apply (fun _ => 0) message.chars message.tokens .new

theorem recvRequest_some {parser : HttpRequestParser σ} {data : List UInt8} {rest : Connection}
    (ran : recvHead machine buffSize [] (.new machine) reads = .ok (some (parser, data), rest)) :
    recvRequest machine lexicalCast buffSize reads = recvBody lexicalCast parser data rest := by
  simp only [recvRequest, ran, bind, Except.bind]

theorem recvRequest_none {rest : Connection}
    (ran : recvHead machine buffSize [] (.new machine) reads = .ok (none, rest)) :
    recvRequest machine lexicalCast buffSize reads = .ok (none, rest) := by
  simp only [recvRequest, ran, bind, Except.bind]
  rfl

theorem recvHead_fits
    (fits : recvRequest machine lexicalCast buffSize reads ≠ .error .overrun) :
    recvHead machine buffSize [] (.new machine) reads ≠ .error .overrun := by
  intro overrun
  rw [recvRequest, overrun] at fits
  exact fits rfl

/-- An intact request is received, and the results of `read` that hold a part of it are
consumed. -/
theorem recvRequest_of_intact (size : buffSize < 2 ^ 31)
    (fitsBuffer : message.chars.length ≤ buffSize) (nonempty : ∀ result ∈ reads, result ≠ [])
    (stream : reads.flatten = message.encode ++ tail)
    (fits : recvRequest machine lexicalCast buffSize reads ≠ .error .overrun)
    (intact : message.Intact reads) :
    ∃ lost after, skip message.encode.length reads = lost :: after ∧
      recvRequest machine lexicalCast buffSize reads = .ok (some message.sent, after) := by
  rw [encode, List.append_assoc] at stream
  have received := message.toHead.received size fitsBuffer nonempty stream (recvHead_fits fits)
  rw [intact.same] at received
  rcases received with ⟨request, parser, extra, rest, is, skipped, ran⟩ | ⟨isNone, _⟩
  · cases is
    have read := intact.body
    rw [skipped] at read
    have behind : extra ++ rest.flatten = message.body ++ tail := by
      have left := skip_flatten message.chars.length reads
      rwa [skipped, List.flatten_cons, stream, List.drop_left] at left
    rw [recvRequest_some ran, recvBody_eq] at fits ⊢
    have others : ∀ result ∈ rest, result ≠ [] := fun result member =>
      nonempty result (List.mem_of_mem_tail ((skip_tail skipped).subset member))
    obtain ⟨lost, after, consumed, content⟩ :=
      recvContent_stream request_empty.1 (signed_contentLength ⟨⟨_, 0⟩, parser⟩ message.length)
        others behind read fits
    refine ⟨lost, after, ?_, content⟩
    rw [encode, List.length_append]
    by_cases zero : message.body.length = 0
    · rw [zero] at consumed ⊢
      rw [Nat.add_zero, skipped]
      exact consumed
    · rw [← skip_skip skipped (by omega)]
      exact consumed
  · cases isNone

/-- Only an intact request is received. -/
theorem intact_of_received (size : buffSize < 2 ^ 31)
    (fitsBuffer : message.chars.length ≤ buffSize) (nonempty : ∀ result ∈ reads, result ≠ [])
    (stream : reads.flatten = message.encode ++ tail) {after : Connection}
    (received : recvRequest machine lexicalCast buffSize reads = .ok (some message.sent, after)) :
    message.Intact reads := by
  rw [encode, List.append_assoc] at stream
  have fits : recvRequest machine lexicalCast buffSize reads ≠ .error .overrun := by
    rw [received]
    exact nofun
  rcases message.toHead.received size fitsBuffer nonempty stream (recvHead_fits fits) with
    ⟨request, parser, extra, rest, is, skipped, ran⟩ | ⟨_, ends⟩
  · rw [recvRequest_some ran, recvBody_eq] at received
    obtain ⟨empty, opened⟩ := message.toHead.cut_body is
    obtain ⟨content, sent⟩ := recvContent_some empty received
    obtain ⟨rfl, _⟩ := HttpRequest.eq_of_init sent.symm (empty.trans request_empty.1.symm)
      (opened.trans request_empty.2.symm)
    refine ⟨is, ?_⟩
    rw [skipped]
    by_contra unread
    exact recvContent_unread empty (signed_contentLength ⟨⟨_, 0⟩, parser⟩ message.length) unread
      received sent_body
  · rcases ends with ⟨_, thrown⟩ | ⟨_, closed⟩
    · rw [recvRequest, thrown] at received
      cases received
    · rw [recvRequest_none closed] at received
      cases received

end Message

end Sylar.Http
