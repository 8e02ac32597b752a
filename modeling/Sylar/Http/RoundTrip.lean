import Sylar.Http.ContentLength
import Sylar.Http.Dump
import Sylar.Http.KeepAlive
import Sylar.Library.Numerals

/-!
# Requests that come back

What `recvRequest` makes of the text that `dump` writes: the same request with the two headers
that `dump` makes up, as long as the rest of the body is not too long for `readFixSize`.
-/

namespace Sylar.Http

section Headers

variable {fields : List (List UInt8 × List UInt8)} {headers : MapType} {key : List UInt8}

/-- A header as `setHeader` writes it. -/
def setField (headers : MapType) (field : List UInt8 × List UInt8) : MapType :=
  headers.insert (headers.getKeyD field.1 field.1) field.2

/-- Fields with different names are all in the headers. -/
theorem foldl_setField (distinct : fields.Pairwise fun a b => ¬strcasecmp a.1 b.1 = .eq)
    (new_ : ∀ field ∈ fields, field.1 ∉ headers) (key : List UInt8) :
    (fields.foldl setField headers).getKey? key =
        ((fields.find? (strcasecmp ·.1 key == .eq)).map Prod.fst).or (headers.getKey? key) ∧
      (fields.foldl setField headers)[key]? =
        ((fields.find? (strcasecmp ·.1 key == .eq)).map Prod.snd).or headers[key]? := by
  induction fields generalizing headers with
  | nil => exact ⟨rfl, rfl⟩
  | cons field fields inductionHypothesis =>
      rw [List.pairwise_cons] at distinct
      rw [List.forall_mem_cons] at new_
      have written : setField headers field = headers.insert field.1 field.2 := by
        rw [setField, Std.ExtTreeMap.getKeyD_eq_fallback new_.1]
      have others : ∀ other ∈ fields, other.1 ∉ headers.insert field.1 field.2 := by
        intro other member inside
        rw [Std.ExtTreeMap.mem_insert] at inside
        rcases inside with same | before
        · exact distinct.1 other member same
        · exact new_.2 other member before
      obtain ⟨keys, values⟩ := inductionHypothesis distinct.2 others
      rw [List.foldl_cons, written, keys, values, List.find?_cons, Std.ExtTreeMap.getKey?_insert,
        Std.ExtTreeMap.getElem?_insert]
      by_cases same : strcasecmp field.1 key = .eq
      · have absent : fields.find? (strcasecmp ·.1 key == .eq) = none := by
          refine List.find?_eq_none.mpr fun other member equal => distinct.1 other member ?_
          have back := Std.OrientedCmp.eq_symm (of_decide_eq_true equal)
          exact Std.TransCmp.eq_trans same back
        simp [absent, same]
      · have apart : (strcasecmp field.1 key == .eq) = false := beq_false_of_ne same
        constructor
        · simp only [apart, if_neg same]
        · simp only [apart, if_neg same]

end Headers

namespace Message

variable {σ : Type} {machine : Machine Act σ} {lexicalCast : List UInt8 → Option UInt64}
  {message : Message machine lexicalCast} {buffSize : Nat} {first : List UInt8} {rest : Connection}

/-- A head that comes with the first result is received, and what is returned has it. -/
theorem received_first (size : buffSize < 2 ^ 31) (fitsBuffer : message.chars.length ≤ buffSize)
    (nonempty : ∀ result ∈ first :: rest, result ≠ [])
    (stream : (first :: rest).flatten = message.encode)
    (whole : message.chars.length ≤ first.length)
    (fits : recvRequest machine lexicalCast buffSize (first :: rest) ≠ .error .overrun) :
    ((∃ after, recvRequest machine lexicalCast buffSize (first :: rest) =
        .ok (some message.sent, after)) ↔
      BodyRead message.body.length (first.length - message.chars.length)) ∧
    ∀ received after, recvRequest machine lexicalCast buffSize (first :: rest) =
      .ok (some received, after) →
        ∃ content, received = (message.toHead.request.setBody content).init := by
  have same : message.cut (readStart (first :: rest)) = some message.toHead.request := by
    refine message.cut_eq fun token member => ?_
    refine Token.change_of_start (message.ordered token member) fun position inside => ?_
    rw [readStart, if_pos (by omega)]
  have buffered : ((skip message.chars.length (first :: rest)).headD []).length =
      first.length - message.chars.length := by
    rw [skip, if_pos whole]
    exact List.length_drop
  have stream : (first :: rest).flatten = message.encode ++ [] := by rw [stream, List.append_nil]
  refine ⟨⟨?_, fun read => ?_⟩, fun received after ran => ?_⟩
  · rintro ⟨after, received⟩
    have intact := intact_of_received size fitsBuffer nonempty stream received
    rw [← buffered]
    exact intact.body
  · obtain ⟨_, after, -, received⟩ :=
      recvRequest_of_intact size fitsBuffer nonempty stream fits ⟨same, by rwa [buffered]⟩
    exact ⟨after, received⟩
  · rw [encode, List.append_assoc] at stream
    rcases message.toHead.received size fitsBuffer nonempty stream (recvHead_fits fits) with
      ⟨request, parser, extra, later, is, -, head⟩ | ⟨cut, -⟩
    · rw [recvRequest_some head, recvBody_eq] at ran
      cases same.symm.trans is
      exact recvContent_some request_empty.1 ran
    · rw [same] at cut
      cases cut

end Message

namespace HttpRequest

variable {request : HttpRequest} {key : List UInt8}

/-- The value of the header of the connection. -/
def connectionValue (request : HttpRequest) : List UInt8 :=
  if request.close then bytes "close" else bytes "keep-alive"

theorem find?_none (absent : key ∉ request.headers) :
    request.headers.toList.find? (strcasecmp ·.1 key == .eq) = none :=
  Std.ExtTreeMap.find?_toList_eq_none_iff_not_mem.mpr absent

/-- No two of the fields have the same name. -/
theorem Sendable.distinct (sendable : request.Sendable) :
    request.dumpFields.Pairwise fun a b => ¬strcasecmp a.1 b.1 = .eq := by
  have apart : ∀ {key}, key ∉ request.headers → ∀ i ∈ request.headers.toList,
      ¬strcasecmp i.1 key = .eq := by
    intro key absent i member same
    have none_ := List.find?_eq_none.mp (find?_none absent) i member
    exact none_ (by simp [same])
  refine List.pairwise_cons.mpr ⟨fun i member same => ?_, List.pairwise_append.mpr
    ⟨Std.ExtTreeMap.distinct_keys_toList, ?_, fun i own other length => ?_⟩⟩
  · rcases List.mem_append.mp member with own | length
    · exact apart sendable.connection i own (Std.OrientedCmp.eq_symm same)
    · split at length
      · cases length
      · have other : ¬strcasecmp (bytes "connection") (bytes "content-length") = .eq := by decide
        rw [List.mem_singleton.mp length] at same
        exact other same
  · split
    · exact .nil
    · exact List.pairwise_singleton ..
  · split at length
    · cases length
    · rw [List.mem_singleton.mp length]
      exact apart sendable.contentLength i own

/-- What the fields say about a name. -/
theorem Sendable.find? (sendable : request.Sendable) (key : List UInt8) :
    request.dumpFields.find? (strcasecmp ·.1 key == .eq) =
      if strcasecmp (bytes "connection") key = .eq then
        some (bytes "connection", request.connectionValue)
      else if strcasecmp (bytes "content-length") key = .eq then
        if request.body = [] then none
        else some (bytes "content-length", decimalText request.body.length)
      else request.headers.toList.find? (strcasecmp ·.1 key == .eq) := by
  rw [dumpFields, List.find?_cons]
  by_cases first : strcasecmp (bytes "connection") key = .eq
  · rw [if_pos first, first]
    rfl
  · have apart : (strcasecmp (bytes "connection") key == .eq) = false := beq_false_of_ne first
    rw [if_neg first]
    simp only [apart, List.find?_append]
    by_cases second : strcasecmp (bytes "content-length") key = .eq
    · have absent : key ∉ request.headers := by
        rw [← Std.ExtTreeMap.mem_congr second]
        exact sendable.contentLength
      rw [if_pos second, find?_none absent, Option.none_or]
      split
      · rfl
      · simp [second]
    · rw [if_neg second]
      split
      · simp
      · simp [second]

/-- The headers that come back. -/
def dumpHeaders (request : HttpRequest) : MapType := request.dumpFields.foldl setField ∅

theorem Sendable.dumpHeaders (sendable : request.Sendable) (key : List UInt8) :
    request.dumpHeaders.getKey? key =
        (request.dumpFields.find? (strcasecmp ·.1 key == .eq)).map Prod.fst ∧
      request.dumpHeaders[key]? =
        (request.dumpFields.find? (strcasecmp ·.1 key == .eq)).map Prod.snd := by
  have empty : ∀ field ∈ request.dumpFields, field.1 ∉ (∅ : MapType) :=
    fun _ _ => Std.ExtTreeMap.not_mem_empty
  obtain ⟨keys, values⟩ := foldl_setField sendable.distinct empty key
  exact ⟨by rw [HttpRequest.dumpHeaders, keys]; simp, by rw [HttpRequest.dumpHeaders, values]; simp⟩

theorem Sendable.connection_eq (sendable : request.Sendable) :
    request.dumpHeaders[bytes "connection"]? = some request.connectionValue := by
  rw [(sendable.dumpHeaders _).2, sendable.find?, if_pos (by decide)]
  rfl

theorem Sendable.contentLength_eq (sendable : request.Sendable) :
    request.dumpHeaders[bytes "content-length"]? =
      if request.body = [] then none else some (decimalText request.body.length) := by
  rw [(sendable.dumpHeaders _).2, sendable.find?, if_neg (by decide), if_pos (by decide)]
  split <;> rfl

/-- The other headers are those of the request. -/
theorem Sendable.bare_headers (sendable : request.Sendable) :
    (request.dumpHeaders.erase (bytes "connection")).erase (bytes "content-length") =
      request.headers := by
  have lookup : ∀ key,
      ((request.dumpHeaders.erase (bytes "connection")).erase (bytes "content-length")).getKey? key =
          request.headers.getKey? key ∧
        ((request.dumpHeaders.erase (bytes "connection")).erase (bytes "content-length"))[key]? =
          request.headers[key]? := by
    intro key
    obtain ⟨keys, values⟩ := sendable.dumpHeaders key
    rw [Std.ExtTreeMap.getKey?_erase, Std.ExtTreeMap.getKey?_erase, Std.ExtTreeMap.getElem?_erase,
      Std.ExtTreeMap.getElem?_erase, keys, values, sendable.find?]
    by_cases second : strcasecmp (bytes "content-length") key = .eq
    · have absent := sendable.contentLength
      rw [Std.ExtTreeMap.mem_congr second] at absent
      rw [if_pos second, if_pos second, Std.ExtTreeMap.getKey?_eq_none absent,
        Std.ExtTreeMap.getElem?_eq_none absent]
      exact ⟨rfl, rfl⟩
    · by_cases first : strcasecmp (bytes "connection") key = .eq
      · have absent := sendable.connection
        rw [Std.ExtTreeMap.mem_congr first] at absent
        rw [Std.ExtTreeMap.getKey?_eq_none absent, Std.ExtTreeMap.getElem?_eq_none absent]
        simp [second, first]
      · simp only [if_neg second, if_neg first]
        cases found : request.headers.toList.find? (strcasecmp ·.1 key == .eq) with
        | none =>
            have absent := Std.ExtTreeMap.find?_toList_eq_none_iff_not_mem.mp found
            rw [Std.ExtTreeMap.getKey?_eq_none absent, Std.ExtTreeMap.getElem?_eq_none absent]
            exact ⟨rfl, rfl⟩
        | some field =>
            obtain ⟨sameKey, sameValue⟩ :=
              Std.ExtTreeMap.find?_toList_eq_some_iff_getKey?_eq_some_and_getElem?_eq_some.mp found
            exact ⟨sameKey.symm, sameValue.symm⟩
  refine Std.ExtTreeMap.ext_getKey_getElem? (fun key inside present => ?_) fun key => (lookup key).2
  have same := (lookup key).1
  rw [Std.ExtTreeMap.getKey?_eq_some_getKey inside,
    Std.ExtTreeMap.getKey?_eq_some_getKey present] at same
  exact Option.some.inj same

section Received

variable {σ : Type} {machine : Machine Act σ} {lexicalCast : List UInt8 → Option UInt64}

theorem foldl_header (fields : List (List UInt8 × List UInt8)) (request : HttpRequest) :
    (fields.map fun field => Change.header field.1 field.2).foldl Change.apply request =
      { request with headers := fields.foldl setField request.headers } := by
  induction fields generalizing request with
  | nil => rfl
  | cons field fields inductionHypothesis =>
      rw [List.map_cons, List.foldl_cons, inductionHypothesis]
      rfl

/-- The request that the changes of a head make. -/
theorem foldl_changes (parts : RequestHead) (m : HttpMethod) (v : UInt8) :
    (parts.changes m v).foldl Change.apply new =
      { method := m, version := v, close := true, path := parts.path, query := parts.query,
        fragment := parts.fragment, body := [], headers := parts.fields.foldl setField ∅ } := by
  rw [RequestHead.changes, List.foldl_append, foldl_header]
  obtain ⟨method, path, query, fragment, version, fields⟩ := parts
  cases query <;> cases fragment <;> rfl

theorem Sendable.version_eq (sendable : request.Sendable) :
    request.version = 0x11 ∧ request.dumpParts.version = bytes "HTTP/1.1" ∨
      request.version = 0x10 ∧ request.dumpParts.version = bytes "HTTP/1.0" := by
  rcases sendable.version with version | version
  · exact .inr ⟨version, by rw [dumpParts, version]; rfl⟩
  · exact .inl ⟨version, by rw [dumpParts, version]; rfl⟩

theorem Sendable.tokens_change (sendable : request.Sendable) :
    request.dumpParts.tokens.map (Token.change request.dumpParts.text fun _ => 0) =
      (request.dumpParts.changes request.method request.version).map some :=
  RequestHead.tokens_change (sendable.grammatical.known rfl) rfl sendable.version_eq
    fun field member => (sendable.grammatical.fields field member).1.1

/-- The head of a request that is sent. -/
def Sendable.toHead (sendable : request.Sendable) (splits : SplitsHeads machine) : Head machine where
  chars := request.dumpParts.text
  tokens := request.dumpParts.tokens
  scanned := splits _ sendable.grammatical
  framed := request.dumpParts.tokens_framed
  makes token member := by
    have made := List.mem_map_of_mem (f := Token.change request.dumpParts.text fun _ => 0) member
    rw [sendable.tokens_change] at made
    obtain ⟨change, _, makes⟩ := List.mem_map.mp made
    rw [← makes]
    rfl

/-- Tokens whose changes are known make them. -/
theorem foldl_apply_of_change {head : List UInt8} {start_ : Nat → Nat} {tokens : List Token}
    {changes : List Change} (known : tokens.map (Token.change head start_) = changes.map some)
    (request : HttpRequest) :
    tokens.foldl (Token.apply head start_) request = changes.foldl Change.apply request := by
  induction tokens generalizing changes request with
  | nil =>
      rw [List.map_nil, eq_comm, List.map_eq_nil_iff] at known
      rw [known]
      rfl
  | cons token tokens inductionHypothesis =>
      obtain ⟨change, changes, rfl⟩ : ∃ change more, changes = change :: more := by
        cases changes with
        | nil => cases known
        | cons change more => exact ⟨change, more, rfl⟩
      rw [List.map_cons, List.map_cons, List.cons.injEq] at known
      rw [List.foldl_cons, List.foldl_cons, Token.apply, known.1]
      exact inductionHypothesis known.2 _

/-- What the head says, and the two headers. -/
theorem Sendable.toHead_request (sendable : request.Sendable) (splits : SplitsHeads machine) :
    (sendable.toHead splits).request =
      { request with close := true, body := [], headers := request.dumpHeaders } := by
  rw [Head.request]
  refine (foldl_apply_of_change sendable.tokens_change .new).trans ?_
  rw [foldl_changes]
  rfl

variable (lexicalCast) in
/-- A number that was written is read back. -/
def CastsNumbers : Prop := ∀ n < 2 ^ 64, lexicalCast (decimalText n) = some (.ofNat n)

/-- The message that is sent. -/
def Sendable.toMessage (sendable : request.Sendable) (splits : SplitsHeads machine)
    (casts : CastsNumbers lexicalCast) : Message machine lexicalCast where
  toHead := sendable.toHead splits
  body := request.body
  length := by
    rw [toHead_request, getHeaderAs]
    simp only [sendable.contentLength_eq]
    by_cases empty : request.body = []
    · rw [if_pos empty, empty]
      rfl
    · rw [if_neg empty]
      simp only [casts _ sendable.size, Option.getD_some]
      exact Nat.mod_eq_of_lt sendable.size

variable {splits : SplitsHeads machine} {casts : CastsNumbers lexicalCast}

variable (splits casts) in
theorem Sendable.encode_eq (sendable : request.Sendable) :
    (sendable.toMessage splits casts).encode = request.dump false := by
  rw [dump, sendable.dumpHead_eq]
  rfl

/-- The connection is closed as the request says. -/
theorem Sendable.sent_eq (sendable : request.Sendable) :
    (sendable.toMessage splits casts).sent = { request with headers := request.dumpHeaders } := by
  have sent : (sendable.toMessage splits casts).sent =
      (((sendable.toHead splits).request).setBody request.body).init := rfl
  have conn : request.dumpHeaders.getD (bytes "connection") [] = request.connectionValue := by
    rw [Std.ExtTreeMap.getD_eq_getD_getElem?, sendable.connection_eq]
    rfl
  have some_ : request.connectionValue ≠ [] := by
    rw [connectionValue]
    split <;> decide
  have close : (strcasecmp request.connectionValue (bytes "keep-alive") != .eq) = request.close := by
    rw [connectionValue]
    cases request.close <;> decide
  rw [sent, toHead_request, init]
  simp only [getHeader, setBody, conn, if_neg some_, close]

/-- Without the two headers the request is the one that was sent. -/
theorem Sendable.bare_eq (sendable : request.Sendable) :
    (sendable.toMessage splits casts).sent.bare = request := by
  rw [sendable.sent_eq, bare]
  simp only [sendable.bare_headers]

/-- What `dump` writes comes back when the body is read, and not otherwise. -/
theorem Sendable.returned_iff (sendable : request.Sendable) (splits : SplitsHeads machine)
    (casts : CastsNumbers lexicalCast) {buffSize : Nat} (size : buffSize < 2 ^ 31)
    (fitsBuffer : (request.dumpHead false).length ≤ buffSize) {first : List UInt8}
    {rest : Connection} (nonempty : ∀ result ∈ first :: rest, result ≠ [])
    (stream : (first :: rest).flatten = request.dump false)
    (whole : (request.dumpHead false).length ≤ first.length)
    (fits : recvRequest machine lexicalCast buffSize (first :: rest) ≠ .error .overrun) :
    (∃ received after, recvRequest machine lexicalCast buffSize (first :: rest) =
        .ok (some received, after) ∧ received.bare = request) ↔
      BodyRead request.body.length (first.length - (request.dumpHead false).length) := by
  have text : (request.dumpHead false).length =
      (sendable.toMessage splits casts).chars.length := congrArg _ sendable.dumpHead_eq
  have encoded := sendable.encode_eq splits casts
  rw [← encoded] at stream
  rw [text] at fitsBuffer whole ⊢
  obtain ⟨sent, content⟩ := Message.received_first size fitsBuffer nonempty stream whole fits
  refine Iff.trans ⟨?_, ?_⟩ sent
  · rintro ⟨received, after, ran, bare⟩
    obtain ⟨body, made⟩ := content received after ran
    refine ⟨after, ?_⟩
    have same : body = request.body := by
      have bodies := congrArg HttpRequest.body bare
      rw [made] at bodies
      exact (init_body _).symm.trans bodies
    rw [ran, made, same]
    rfl
  · rintro ⟨after, ran⟩
    exact ⟨_, after, ran, sendable.bare_eq⟩

end Received

/-- The digits of a number are those of the number. -/
theorem numeral_decimalText (n : Nat) : Library.numeral 10 (decimalText n) = n := by
  rw [decimalText_eq]
  exact Library.numeral_digitsText (by decide) (by decide) n

theorem decimalText_isDigit (n : Nat) : (decimalText n).all (Library.isDigit 10) = true := by
  rw [decimalText_eq]
  exact Library.digitsText_isDigit (by decide) (by decide) n

theorem castsNumbers_decimal : CastsNumbers HttpConnection.decimal := by
  intro n word
  have digits := decimalText_isDigit n
  rw [HttpConnection.decimal,
    if_pos ⟨(decimalText_digits n).1, digits, by rwa [numeral_decimalText]⟩, numeral_decimalText]

section Received

variable {σ : Type} {machine : Machine Act σ} {lexicalCast : List UInt8 → Option UInt64}

/-- A request that was written and arrives with its head in one piece comes back as it was, if and
only if its body is empty, or is read: its length is positive as an `int64_t` and the length of
what comes later, if there is more, as an `int`. -/
theorem recvRequest_dump (sendable : request.Sendable) (splits : SplitsHeads machine)
    (casts : CastsNumbers lexicalCast) {buffSize : Nat} (size : buffSize < 2 ^ 31)
    (fitsBuffer : (request.dumpHead false).length ≤ buffSize) {first : List UInt8}
    {rest : Connection} (nonempty : ∀ result ∈ first :: rest, result ≠ [])
    (stream : (first :: rest).flatten = request.dump false)
    (whole : (request.dumpHead false).length ≤ first.length)
    (fits : recvRequest machine lexicalCast buffSize (first :: rest) ≠ .error .overrun) :
    (∃ received after, recvRequest machine lexicalCast buffSize (first :: rest) =
        .ok (some received, after) ∧ received.bare = request) ↔
      request.body = [] ∨ request.body.length < 2 ^ 63 ∧
        (rest = [] ∨ 0 < toInt rest.flatten.length) := by
  rw [sendable.returned_iff splits casts size fitsBuffer nonempty stream whole fits, BodyRead,
    List.length_eq_zero_iff]
  have lengths := congrArg List.length stream
  rw [List.flatten_cons, List.length_append, dump, List.length_append] at lengths
  have later : request.body.length - (first.length - (request.dumpHead false).length) =
      rest.flatten.length := by omega
  rw [later]
  refine or_congr_right (and_congr_right fun _ => ?_)
  by_cases done : rest = []
  · refine iff_of_true (.inl ?_) (.inl done)
    rw [done, List.flatten_nil, List.length_nil] at lengths
    omega
  · obtain ⟨result, others, rfl⟩ := List.exists_cons_of_ne_nil done
    have some_ := List.length_pos_iff.mpr (nonempty result (.tail _ List.mem_cons_self))
    rw [List.flatten_cons, List.length_append] at lengths
    rw [or_iff_right (by omega), or_iff_right done]

/-- A request with a body of so many bytes. -/
def post (size : Nat) : HttpRequest :=
  { new with
    method := .post
    headers := (∅ : MapType).insert (bytes "host") (bytes "a")
    body := List.replicate size 97 }

theorem post_sendable {size : Nat} (small : size < 2 ^ 64) : (post size).Sendable where
  method := by
    change ∀ byte ∈ httpMethodToString .post, 65 ≤ byte ∧ byte ≤ 90
    decide
  version := .inr rfl
  path := ⟨rfl, .single rfl .nil, nofun⟩
  query := .nil
  fragment := .nil
  headers := by
    have known : (post size).headers.toList = [(bytes "host", bytes "a")] := rfl
    rw [known, List.forall_mem_singleton]
    exact ⟨by decide, by decide, by decide, by decide, by decide⟩
  connection := by
    rw [post, Std.ExtTreeMap.mem_insert, not_or]
    exact ⟨by decide, Std.ExtTreeMap.not_mem_empty⟩
  contentLength := by
    rw [post, Std.ExtTreeMap.mem_insert, not_or]
    exact ⟨by decide, Std.ExtTreeMap.not_mem_empty⟩
  size := by
    rw [post, List.length_replicate]
    exact small

theorem post_body {size : Nat} (some_ : size ≠ 0) :
    (post size).body ≠ [] ∧ (post size).body.length = size := by
  refine ⟨?_, List.length_replicate⟩
  cases size with
  | zero => exact absurd rfl some_
  | succ size => exact List.cons_ne_nil _ _

theorem post_dumpHead {size : Nat} (some_ : size ≠ 0) :
    (post size).dumpHead false = bytes "POST / HTTP/1.1\r\n" ++ (bytes "connection: close\r\n" ++
      (bytes "host: a\r\n" ++ (bytes "content-length: " ++ (decimalText size ++
        bytes "\r\n\r\n")))) := by
  obtain ⟨present, length⟩ := post_body some_
  have headers : (post size).headers.toList = [(bytes "host", bytes "a")] := rfl
  have line : httpMethodToString .post ++ bytes " " ++ bytes "/" ++ [] ++ [] ++ [] ++ [] ++
      bytes " HTTP/" ++ decimalText ((0x11 : UInt8) >>> 4).toNat ++ bytes "." ++
      decimalText ((0x11 : UInt8) &&& 0x0F).toNat ++ bytes "\r\n" =
        bytes "POST / HTTP/1.1\r\n" := by decide
  rw [dumpHead, if_pos present, length, headers]
  change httpMethodToString .post ++ bytes " " ++ bytes "/" ++ [] ++ [] ++ [] ++ [] ++
      bytes " HTTP/" ++ decimalText ((0x11 : UInt8) >>> 4).toNat ++ bytes "." ++
      decimalText ((0x11 : UInt8) &&& 0x0F).toNat ++ bytes "\r\n" ++
        bytes "connection: close\r\n" ++ bytes "host: a\r\n" ++ _ = _
  rw [line]
  simp only [List.append_assoc]

/-- A body of two bytes, of which one comes with the head. -/
theorem post_returned :
    ∃ received after, recvRequest headMachine HttpConnection.decimal 4096
      [(post 2).dumpHead false ++ bytes "a", bytes "a"] = .ok (some received, after) ∧
        received.bare = post 2 := by
  refine (recvRequest_dump (post_sendable (by decide)) headMachine_splits castsNumbers_decimal
    (by decide) ?_ ?_ ?_ ?_ ?_).mpr (.inr ⟨by decide, .inr (by decide)⟩)
  · rw [post_dumpHead (by decide)]
    decide
  · rw [post_dumpHead (by decide)]
    decide
  · rw [dump, List.flatten_cons, List.append_assoc]
    rfl
  · rw [List.length_append]
    omega
  · rw [post_dumpHead (by decide)]
    decide

/-- Of a body of 2^31 bytes that all come after the head nothing is returned. -/
theorem post_lost :
    ¬∃ received after, recvRequest headMachine HttpConnection.decimal 4096
      [(post (2 ^ 31)).dumpHead false, List.replicate (2 ^ 30) 97, List.replicate (2 ^ 30) 97] =
        .ok (some received, after) ∧ received.bare = post (2 ^ 31) := by
  rintro ⟨received, after, ran, bare⟩
  have huge : (2 ^ 31 : Nat) ≠ 0 := by decide
  have half : ∀ count : Nat, count ≠ 0 → List.replicate count (97 : UInt8) ≠ [] :=
    fun _ some_ => (post_body some_).1
  have halves : List.replicate (2 ^ 30) (97 : UInt8) ++ List.replicate (2 ^ 30) 97 =
      (post (2 ^ 31)).body := List.replicate_append_replicate
  have read := (Sendable.returned_iff (post_sendable (by decide)) headMachine_splits castsNumbers_decimal
    (by decide) ?_ ?_ ?_ (Nat.le_refl _) (by rw [ran]; exact nofun)).mp ⟨received, after, ran, bare⟩
  · rw [(post_body huge).2, Nat.sub_self] at read
    exact absurd read (by decide)
  · rw [post_dumpHead huge]
    decide
  · rw [List.forall_mem_cons, List.forall_mem_cons, List.forall_mem_singleton, post_dumpHead huge]
    exact ⟨by decide, half _ (by decide), half _ (by decide)⟩
  · rw [dump, List.flatten_cons, List.flatten_cons, List.flatten_cons, List.flatten_nil,
      List.append_nil, halves]

end Received

end HttpRequest

end Sylar.Http
