import Sylar.Http.ContentLength
import Sylar.Http.Messages
import Sylar.Http.RequestGrammar

/-!
# Requests and the results of `read`

`http_parser_execute` forgets what was marked in earlier results of `read`, and
`recvRequest` drops what it has read behind a request. `receivedFrom_iff` says from
which ways of cutting a stream the request is received, `segmentation_iff` for which
two of them the answers are the same, and `recvRequests_iff` from which all requests
of a connection are received.
-/

namespace Sylar.Http

section Body

/-- `readFixSize` does not read more than there is. -/
theorem readLeft_short {left : Nat} {connection : Connection}
    (short : connection.flatten.length < left) :
    ∃ rest, readLeft left connection = .ok (none, rest) := by
  induction connection generalizing left with
  | nil =>
      have some_ : left ≠ 0 := Nat.ne_zero_of_lt short
      exact ⟨[], by rw [readLeft, if_neg some_]; rfl⟩
  | cons result rest inductionHypothesis =>
      rw [List.flatten_cons, List.length_append] at short
      rw [readLeft, if_neg (by omega), if_neg (by omega)]
      split
      · exact ⟨rest, rfl⟩
      · obtain ⟨later, read⟩ : ∃ later, readLeft (left - result.length) rest = .ok (none, later) :=
          inductionHypothesis (by omega)
        exact ⟨later, by rw [read]; rfl⟩

/-- A body of the length that a head tells is found, when `buffered` bytes came with the head and
there are `available` in all. None is looked for when the length is negative as an `int64_t`. -/
def BodyFound (length buffered available : Nat) : Prop :=
  2 ^ 63 ≤ length ∨ length ≤ available ∧ BodyRead length buffered

instance (length buffered available : Nat) : Decidable (BodyFound length buffered available) :=
  inferInstanceAs (Decidable (_ ∨ _))

/-- The body that is found. -/
def foundBody (length : Nat) (available : List UInt8) : List UInt8 :=
  if length < 2 ^ 63 then available.take length else []

/-- `readFixSize` fails only when more is read than was asked for. -/
theorem readLeft_error {left : Nat} {connection : Connection} {fault : Fault}
    (ran : readLeft left connection = .error fault) : fault = .overrun := by
  induction connection generalizing left with
  | nil => cases ran
  | cons result rest inductionHypothesis =>
      rw [readLeft] at ran
      split at ran
      · cases ran
      · split at ran
        · cases ran
          rfl
        · split at ran
          · cases ran
          · cases more : readLeft (left - result.length) rest with
            | error other =>
                rw [more] at ran
                cases ran
                exact inductionHypothesis more
            | ok answer =>
                rw [more] at ran
                cases ran

/-- What is received behind a head, whatever length it tells. -/
theorem recvContent_answer {request : HttpRequest} (empty : request.body = []) {length : Nat}
    (word : length < 2 ^ 64) {data available : List UInt8} {connection : Connection}
    (nonempty : ∀ result ∈ connection, result ≠ [])
    (stream : data ++ connection.flatten = available)
    (fits : recvContent request data connection (Int.bmod length (2 ^ 64)) ≠ .error .overrun) :
    (BodyFound length data.length available.length ∧ ∃ rest,
      recvContent request data connection (Int.bmod length (2 ^ 64)) =
        .ok (some (request.setBody (foundBody length available)).init, rest)) ∨
    ¬BodyFound length data.length available.length ∧
      recvContent request data connection (Int.bmod length (2 ^ 64)) = .ok (none, []) := by
  have signed := signed_bmod word
  by_cases large : 2 ^ 63 ≤ length
  · refine .inl ⟨.inl large, connection, ?_⟩
    rw [foundBody, if_neg (Nat.not_lt.mpr large), HttpRequest.setBody_nil empty, recvContent,
      if_neg (Int.not_lt.mpr (signed.large large))]
    rfl
  · have small : length < 2 ^ 63 := Nat.lt_of_not_le large
    by_cases read : length ≤ available.length ∧ BodyRead length data.length
    · have count : (available.take length).length = length := List.length_take_of_le read.1
      have split_ : data ++ connection.flatten =
          available.take length ++ available.drop length := by
        rw [stream, List.take_append_drop]
      have bufferedRead : BodyRead (available.take length).length data.length := by
        rw [count]
        exact read.2
      obtain ⟨lost, after, _, received⟩ :=
        recvContent_stream empty (by rwa [count]) nonempty split_ bufferedRead fits
      refine .inl ⟨.inr read, after, ?_⟩
      rw [foundBody, if_pos small]
      exact received
    · refine .inr ⟨not_or.mpr ⟨large, read⟩, ?_⟩
      have counted := congrArg List.length stream
      rw [List.length_append] at counted
      have buffered : data.length < length := by
        by_contra all
        exact read ⟨by omega, .inr ⟨small, .inl (Nat.le_of_not_lt all)⟩⟩
      have left : ((length : Int) - data.length).toNat = length - data.length := by omega
      rw [signed.small small] at fits ⊢
      simp only [recvContent] at fits ⊢
      rw [if_pos (by omega), if_pos (by omega), left] at fits ⊢
      rcases readFixSize_cases (length - data.length) connection with
        ⟨fault, ran, fixed⟩ | ⟨after, _, fixed⟩ | ⟨result, bytes, after, answer, ran, fixed⟩
      · obtain rfl := readLeft_error ran
        rw [fixed] at fits
        exact absurd rfl fits
      · rw [fixed]
        rfl
      · -- what was read is there, so that its length is not positive as an `int`
        have negative : result ≤ 0 := by
          by_contra positive
          refine read ⟨?_, .inr ⟨small, .inr (answer ▸ Int.not_le.mp positive)⟩⟩
          by_contra exceeds
          have short : connection.flatten.length < length - data.length := by omega
          obtain ⟨rest, closed⟩ := readLeft_short short
          rw [ran] at closed
          cases closed
        rw [fixed]
        simp only [bind, Except.bind, pure, Except.pure]
        rw [if_pos negative]

end Body

variable {σ : Type} {machine : Machine Act σ} {lexicalCast : List UInt8 → Option UInt64}
  {buffSize : Nat}

variable {maxSize : Nat}

section Resized

variable {parser : HttpRequestParser σ} {data : List UInt8} {connection rest : Connection}

/-- Only a length that is positive as an `int64_t` is given to `resize`. -/
theorem recvBodyResized_eq {n : Nat} (length : (parser.getContentLength lexicalCast).toNat = n) :
    recvBodyResized lexicalCast maxSize parser data connection =
      { resized := if 0 < n ∧ n < 2 ^ 63 then some n else none
        result :=
          if maxSize < n ∧ n < 2 ^ 63 then .error .lengthError
          else recvContent parser.data data connection (Int.bmod n (2 ^ 64)) } := by
  obtain ⟨signedLength, same, small, large⟩ : ∃ signedLength, Int.bmod n (2 ^ 64) = signedLength ∧
      Signed n signedLength := ⟨_, rfl, signed_bmod (length ▸ UInt64.toNat_lt _)⟩
  unfold recvBodyResized
  rw [recvBody_eq, length, same]
  by_cases positive : 0 < n ∧ n < 2 ^ 63
  · obtain rfl := small positive.2
    rw [if_pos positive, if_pos (by omega), Int.toNat_natCast]
    simp only [positive.2, and_true]
  · have outside : n = 0 ∨ 2 ^ 63 ≤ n := by omega
    have nonpositive : ¬signedLength > 0 := by
      rcases outside with rfl | huge
      · rw [small (by decide)]
        exact Int.lt_irrefl 0
      · exact Int.not_lt.mpr (large huge)
    rw [if_neg positive, if_neg nonpositive, if_neg (by omega)]

theorem recvRequestResized_some
    (received : recvHead machine buffSize [] (.new machine) connection =
      .ok (some (parser, data), rest)) :
    recvRequestResized machine lexicalCast buffSize maxSize connection =
      recvBodyResized lexicalCast maxSize parser data rest := by
  simp only [recvRequestResized, received]

/-- A head does not overrun when the call does not. -/
theorem recvHead_fits_resized
    (fits : (recvRequestResized machine lexicalCast buffSize maxSize connection).result ≠
      .error .overrun) :
    recvHead machine buffSize [] (.new machine) connection ≠ .error .overrun := by
  intro overrun
  simp only [recvRequestResized, overrun] at fits
  exact fits rfl

end Resized

variable (machine lexicalCast buffSize maxSize) in
/-- How a call of `recvRequest` ends: with a request, with null, or with an exception. -/
def answer (reads : Connection) : Except Fault (Option HttpRequest) :=
  (recvRequestResized machine lexicalCast buffSize maxSize reads).result.map Prod.fst

/-- The length of the body that a request tells. -/
def HttpRequest.toldLength (lexicalCast : List UInt8 → Option UInt64) (request : HttpRequest) :
    Nat :=
  (request.getHeaderAs lexicalCast (bytes "content-length") 0).toNat

namespace Message

variable {message : Message machine lexicalCast} {reads : Connection}

/-- The request is received from a stream that is cut so. -/
def ReceivedFrom (message : Message machine lexicalCast) (buffSize : Nat) (reads : Connection) :
    Prop :=
  ∃ after, recvRequest machine lexicalCast buffSize reads = .ok (some message.sent, after)

/-- What the results of `read` leave of a request: an exception when the text of a query has a
negative length or `resize` cannot take the length that is told, null when a callback sets an error
or the body that is told of is not found, and else what is left of the head. -/
def remains (message : Message machine lexicalCast) (maxSize : Nat) (reads : Connection) :
    Except Fault (Option HttpRequest) :=
  if Throws message.chars (readStart reads) message.tokens then .error .lengthError
  else
    match message.cut (readStart reads) with
    | none => .ok none
    | some request =>
        let length := request.toldLength lexicalCast
        if maxSize < length ∧ length < 2 ^ 63 then .error .lengthError
        else if BodyFound length ((skip message.chars.length reads).headD []).length
            message.body.length then .ok (some request)
        else .ok none

/-- A head of which something is left. -/
theorem remains_of_cut {request : HttpRequest} (left : message.cut (readStart reads) = some request) :
    message.remains maxSize reads =
      if maxSize < request.toldLength lexicalCast ∧ request.toldLength lexicalCast < 2 ^ 63 then
        .error .lengthError
      else if BodyFound (request.toldLength lexicalCast)
          ((skip message.chars.length reads).headD []).length message.body.length then
        .ok (some request)
      else .ok none := by
  rw [remains, if_neg (not_throws_of_cutHead left), left]

theorem remains_fresh {request : HttpRequest}
    (left : message.remains maxSize reads = .ok (some request)) :
    request.body = [] ∧ request.close = true := by
  unfold remains at left
  split at left
  · cases left
  · cases cut : message.cut (readStart reads) with
    | none =>
        rw [cut] at left
        cases left
    | some other =>
        simp only [cut] at left
        split at left
        · cases left
        · split at left
          · cases left
            exact message.toHead.cut_body cut
          · cases left

/-- Of an intact request nothing is lost. -/
theorem remains_of_intact (intact : message.Intact reads)
    (takes : message.body.length ≤ maxSize) :
    message.remains maxSize reads = .ok (some message.toHead.request) := by
  have told : message.toHead.request.toldLength lexicalCast = message.body.length := message.length
  rw [remains_of_cut intact.same, told, if_neg (by omega),
    if_pos (.inr ⟨Nat.le_refl _, intact.body⟩)]

/-- The results of `read` cut a stream that holds one request. -/
theorem receivedFrom_iff (size : buffSize < 2 ^ 31) (fitsBuffer : message.chars.length ≤ buffSize)
    (nonempty : ∀ result ∈ reads, result ≠ []) (stream : reads.flatten = message.encode)
    (fits : recvRequest machine lexicalCast buffSize reads ≠ .error .overrun) :
    message.ReceivedFrom buffSize reads ↔ message.Intact reads := by
  rw [← List.append_nil message.encode] at stream
  constructor
  · rintro ⟨after, received⟩
    exact intact_of_received size fitsBuffer nonempty stream received
  · intro intact
    obtain ⟨_, after, _, received⟩ :=
      recvRequest_of_intact size fitsBuffer nonempty stream fits intact
    exact ⟨after, received⟩

/-- What remains of the head is received, with the body that it tells of. -/
theorem answer_eq (size : buffSize < 2 ^ 31) (fitsBuffer : message.chars.length ≤ buffSize)
    (nonempty : ∀ result ∈ reads, result ≠ []) (stream : reads.flatten = message.encode)
    (fits : answer machine lexicalCast buffSize maxSize reads ≠ .error .overrun) :
    answer machine lexicalCast buffSize maxSize reads =
      (message.remains maxSize reads).map (Option.map fun request =>
        (request.setBody (foundBody (request.toldLength lexicalCast) message.body)).init) := by
  have headFits : recvHead machine buffSize [] (.new machine) reads ≠ .error .overrun := by
    refine @recvHead_fits_resized _ machine lexicalCast buffSize maxSize reads fun overrun => ?_
    rw [answer, overrun] at fits
    exact fits rfl
  rcases message.toHead.received size fitsBuffer nonempty stream headFits with
    ⟨request, parser, extra, rest, is, skipped, ran⟩ | ⟨isNone, ⟨throws, thrown⟩ | ⟨quiet, closed⟩⟩
  · have behind : extra ++ rest.flatten = message.body := by
      have left := skip_flatten message.chars.length reads
      rwa [skipped, List.flatten_cons, stream, encode, List.drop_left] at left
    have others : ∀ result ∈ rest, result ≠ [] := fun result member =>
      nonempty result (List.mem_of_mem_tail ((skip_tail skipped).subset member))
    obtain ⟨n, told⟩ : ∃ n, request.toldLength lexicalCast = n := ⟨_, rfl⟩
    have length : ((⟨⟨request, 0⟩, parser⟩ : HttpRequestParser σ).getContentLength
        lexicalCast).toNat = n := told
    have word : n < 2 ^ 64 := told ▸ UInt64.toNat_lt _
    rw [answer, recvRequestResized_some ran, recvBodyResized_eq length] at fits ⊢
    rw [remains_of_cut is, skipped, List.headD_cons, told]
    dsimp only at fits ⊢
    by_cases large : maxSize < n ∧ n < 2 ^ 63
    · rw [if_pos large, if_pos large]
      rfl
    · rw [if_neg large] at fits ⊢
      rw [if_neg large]
      have content := recvContent_answer (message.toHead.cut_body is).1 word others behind
        fun overrun => by
          rw [overrun] at fits
          exact fits rfl
      rcases content with ⟨found, after, received⟩ | ⟨lost, closed⟩
      · rw [received, if_pos found]
        simp only [Except.map, Option.map_some, told]
      · rw [closed, if_neg lost]
        rfl
  · rw [answer, recvRequestResized, thrown, remains, if_pos throws]
    rfl
  · rw [answer, recvRequestResized, closed, remains, if_neg quiet, isNone]
    rfl

/-- Two ways of cutting a stream that holds one request, with results of `read` that are not
empty and not longer than what `read` is asked for. The calls end in the same way if and only if
the same remains. -/
theorem segmentation_iff (message : Message machine lexicalCast) (size : buffSize < 2 ^ 31)
    (fitsBuffer : message.chars.length ≤ buffSize) {first second : Connection}
    (nonempty : ∀ result ∈ first ++ second, result ≠ [])
    (streams : first.flatten = message.encode ∧ second.flatten = message.encode)
    (fits : ∀ reads ∈ [first, second],
      answer machine lexicalCast buffSize maxSize reads ≠ .error .overrun) :
    answer machine lexicalCast buffSize maxSize first =
        answer machine lexicalCast buffSize maxSize second ↔
      message.remains maxSize first = message.remains maxSize second := by
  rw [List.forall_mem_append] at nonempty
  rw [answer_eq size fitsBuffer nonempty.1 streams.1 (fits first List.mem_cons_self),
    answer_eq size fitsBuffer nonempty.2 streams.2 (fits second (.tail _ List.mem_cons_self))]
  refine ⟨fun same => ?_, fun same => by rw [same]⟩
  cases left : message.remains maxSize first with
  | error fault =>
      cases right : message.remains maxSize second with
      | error other =>
          rw [left, right] at same
          cases same
          rfl
      | ok found =>
          rw [left, right] at same
          cases same
  | ok found =>
      cases right : message.remains maxSize second with
      | error other =>
          rw [left, right] at same
          cases same
      | ok other =>
          rw [left, right] at same
          cases found with
          | none =>
              cases other with
              | none => rfl
              | some other => cases same
          | some request =>
              cases other with
              | none => cases same
              | some other =>
                  obtain ⟨empty, opened⟩ := remains_fresh left
                  obtain ⟨otherEmpty, otherOpened⟩ := remains_fresh right
                  have received := Option.some.inj (Except.ok.inj same)
                  rw [(HttpRequest.eq_of_init received (empty.trans otherEmpty.symm)
                    (opened.trans otherOpened.symm)).1]

end Message

section Runs

open HttpConnection (decimal)

/-- A request with a body of two bytes. -/
def upload : Message headMachine decimal where
  chars := bytes "POST /a?b HTTP/1.1\r\nContent-Length: 2\r\n\r\n"
  tokens :=
    [.element .requestMethod 0 4, .element .requestPath 5 7, .query 8 9, .element .requestUri 5 9,
      .element .httpVersion 10 18, .field 20 34 36 37]
  scanned := by decide
  framed := by simp [Token.Framed]; decide
  makes := by decide
  body := bytes "hi"
  length := by decide

/-- The same stream in one piece, and cut between the texts that the callbacks get. -/
def uploadWhole : Connection := [upload.encode]

def uploadBetween : Connection :=
  [bytes "POST ", bytes "/a?", bytes "b ", bytes "HTTP/1.1\r", bytes "\n",
    bytes "Content-Length: 2\r\n", bytes "\r\nh", bytes "i"]

/-- The stream is cut behind the first letter of the method. -/
def uploadInside : Connection := [bytes "P", upload.encode.tail]

theorem segmentation_iff_between :
    answer headMachine decimal 64 4611686018427387903 uploadWhole =
      answer headMachine decimal 64 4611686018427387903 uploadBetween := by
  refine (upload.segmentation_iff (by decide) (by decide) (by decide) (by decide)
    (by decide)).mpr ?_
  have whole : upload.Intact uploadWhole := ⟨upload.cut_eq (by decide), by decide⟩
  have between : upload.Intact uploadBetween := ⟨upload.cut_eq (by decide), by decide⟩
  rw [Message.remains_of_intact whole (by decide), Message.remains_of_intact between (by decide)]

/-- The rest of the method is none. -/
theorem segmentation_inside : uploadWhole.flatten = uploadInside.flatten ∧
    answer headMachine decimal 64 4611686018427387903 uploadWhole ≠
      answer headMachine decimal 64 4611686018427387903 uploadInside := by
  refine ⟨by decide, fun same => ?_⟩
  have found := congrArg (fun ended => ended.toOption.map Option.isSome) same
  exact absurd found (by decide)

end Runs

end Sylar.Http
