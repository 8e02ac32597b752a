import Sylar.Http.Exchange
import Sylar.Uri.Agreement

/-!
# Requests for a URL

`HttpConnection::DoRequest` makes a request of the components of a `Uri`. The grammar of
`uri.rl` allows no byte in a path, a query or a fragment that the grammar of the heads of requests
does not allow, so that the components reach the server as they stand in the URL.
-/

namespace Sylar

/-! ### One grammar within the other -/

namespace Http

variable {single wider : UInt8 → Bool} {text first second : List UInt8}

theorem Encoded.append (left : Encoded single first) (right : Encoded single second) :
    Encoded single (first ++ second) := by
  induction left with
  | nil => exact right
  | single member _ inductionHypothesis => exact .single member inductionHypothesis
  | percent isHigh isLow _ inductionHypothesis => exact .percent isHigh isLow inductionHypothesis

theorem Encoded.mono (wide : ∀ byte, single byte = true → wider byte = true)
    (encoded : Encoded single text) : Encoded wider text := by
  induction encoded with
  | nil => exact .nil
  | single member _ inductionHypothesis => exact .single (wide _ member) inductionHypothesis
  | percent isHigh isLow _ inductionHypothesis => exact .percent isHigh isLow inductionHypothesis

end Http

namespace UriParser

open Library.Ragel Library.Ragel.Machine
open Http (Encoded isRegName isPchar bytes)

variable {α : Type} {single : UInt8 → Bool} {machine : Machine UInt8 α} {text : List UInt8}

/-- A repetition of what is encoded is encoded. -/
theorem encoded_star (each : ∀ token, accepts [machine] token = true → Encoded single token)
    (accepted : accepts [star machine] text = true) : Encoded single text := by
  obtain ⟨tokens, rfl, all⟩ := accepts_star.mp accepted
  clear accepted
  induction tokens with
  | nil => exact .nil
  | cons token tokens inductionHypothesis =>
      obtain ⟨⟨_, known⟩, others⟩ := List.forall_mem_cons.mp all
      exact (each token known).append (inductionHypothesis others)

theorem encoded_one {letters : UInt8 → Bool}
    (member : ∀ byte, letters byte = true → single byte = true)
    (accepted : accepts [(one letters : Machine UInt8 α)] text = true) : Encoded single text := by
  obtain ⟨byte, known, rfl⟩ := accepts_one.mp accepted
  exact .single (member byte known) .nil

/-- `unreserved` and `sub_delims` are the same in both grammars. -/
theorem isRegName_eq (byte : UInt8) : isRegName byte = (isUnreserved byte || isSubDelim byte) := by
  have split : bytes "-._~!$&'()*+,;=" = bytes "-._~" ++ bytes "!$&'()*+,;=" := by decide
  rw [isRegName, isUnreserved, isSubDelim, isAlpha, isDigit, split, List.contains_append]
  simp only [Bool.or_assoc]

theorem encoded_pctEncoded (accepted : accepts [(pctEncoded : Machine UInt8 α)] text = true) :
    Encoded single text := by
  obtain ⟨_, _, rfl, percent, digits⟩ := accepts_cat.mp accepted
  obtain ⟨_, _, rfl, high, low⟩ := accepts_cat.mp digits
  obtain ⟨byte, same, rfl⟩ := accepts_one.mp percent
  obtain ⟨high, isHigh, rfl⟩ := accepts_one.mp high
  obtain ⟨low, isLow, rfl⟩ := accepts_one.mp low
  obtain rfl := beq_iff_eq.mp same
  exact .percent isHigh isLow .nil

/-- A byte of a path is one for the server, and so is a percent sign with its digits. -/
theorem encoded_pchar (accepted : accepts [(pchar : Machine UInt8 α)] text = true) :
    Encoded isPchar text := by
  simp only [pchar, accepts_alt, Bool.or_eq_true] at accepted
  rcases accepted with foreign | unreserved | escaped | delimiter | colon_ | at_
  · refine encoded_one (fun byte known => ?_) foreign
    have above : 128 ≤ byte := of_decide_eq_true known
    simp [isPchar, above]
  · exact encoded_one (fun byte known => by simp [isPchar, isRegName_eq, known]) unreserved
  · exact encoded_pctEncoded escaped
  · exact encoded_one (fun byte known => by simp [isPchar, isRegName_eq, known]) delimiter
  · exact encoded_one (fun byte known => by simp [isPchar, beq_iff_eq.mp known]) colon_
  · exact encoded_one (fun byte known => by simp [isPchar, beq_iff_eq.mp known]) at_

/-- A query and a fragment are those of a head. -/
theorem queryText_of_fits (accepted : accepts [(queryText : Machine UInt8 α)] text = true) :
    Http.QueryText text := by
  refine encoded_star (fun token known => ?_) accepted
  simp only [accepts_alt, Bool.or_eq_true] at known
  rcases known with plain | slash_ | mark
  · exact (encoded_pchar plain).mono fun byte known => by simp [known]
  · exact encoded_one (fun byte known => by simp [beq_iff_eq.mp known]) slash_
  · exact encoded_one (fun byte known => by simp [beq_iff_eq.mp known]) mark

theorem encoded_segment (accepted : accepts [(cat slash segment : Machine UInt8 α)] text = true) :
    Encoded (fun byte => isPchar byte || byte = 47) text := by
  obtain ⟨_, _, rfl, front, rest⟩ := accepts_cat.mp accepted
  refine .append (encoded_one (fun byte known => by simp [beq_iff_eq.mp known]) front) ?_
  refine encoded_star (fun token plain => ?_) rest
  exact (encoded_pchar plain).mono fun byte known => by simp [known]

theorem encoded_segments (accepted : accepts [(segments : Machine UInt8 α)] text = true) :
    Encoded (fun byte => isPchar byte || byte = 47) text :=
  encoded_star (fun _ known => encoded_segment known) accepted

/-- A path behind an authority has the bytes of the path of a head. -/
theorem encoded_pathAbempty
    (accepted : accepts [(pathAbempty : Machine UInt8 α)] text = true) :
    Encoded (fun byte => isPchar byte || byte = 47) text := by
  obtain ⟨_, _, rfl, front, rest⟩ := accepts_cat.mp accepted
  refine .append ?_ (encoded_segments rest)
  rw [opt, accepts_alt, Bool.or_eq_true] at front
  rcases front with one_ | none_
  · exact encoded_segment one_
  · rw [accepts_lambda.mp none_]
    exact .nil

/-- What a host has no byte of. The byte 2 is one that the grammar of an address has for a digit. -/
def unprinted : List UInt8 := ((List.range 33).filter (· ≠ 2) ++ [127]).map UInt8.ofNat

/-- A host is printable when it has no byte 2. -/
theorem host_printable {host_ : List UInt8} (fits : Uri.Fits host host_) (digits : 2 ∉ host_) :
    ∀ byte ∈ host_, Http.isPrintable byte = true ∧ byte ≠ 32 := by
  intro byte member
  have avoids_ : avoids unprinted (host : Machine UInt8 (Nat × Act)) = true := by decide
  have known : byte ∉ unprinted := fun low => not_mem_of_accepts avoids_ fits low member
  have low : ∀ n < 33, byte ≠ UInt8.ofNat n := by
    rintro n small rfl
    by_cases two : n = 2
    · subst two
      exact digits member
    · have inside : n ∈ (List.range 33).filter (· ≠ 2) :=
        List.mem_filter.mpr ⟨List.mem_range.mpr small, decide_eq_true two⟩
      exact known (List.mem_map_of_mem (List.mem_append_left _ inside))
  have notDel : byte ≠ 127 := by
    rintro rfl
    exact known (List.mem_map_of_mem (List.mem_append_right _ (List.mem_singleton_self 127)))
  have above : 32 ≤ byte := by
    by_contra below
    have small := UInt8.lt_iff_toNat_lt.mp (UInt8.not_le.mp below)
    exact low byte.toNat (Nat.lt_trans small (by decide)) UInt8.ofNat_toNat.symm
  refine ⟨?_, low 32 (by decide)⟩
  simp [Http.isPrintable, above, notDel]

end UriParser

namespace Http

/-- `setClose`. -/
def HttpRequest.setClose (request : HttpRequest) (v : Bool) : HttpRequest :=
  { request with close := v }

namespace HttpConnection

/-- One header in the loop of `DoRequest`, with `has_host`. -/
def addHeader (state : HttpRequest × Bool) (i : List UInt8 × List UInt8) : HttpRequest × Bool :=
  let (req, hasHost) := state
  if strcasecmp i.1 (bytes "connection") = .eq then
    (if strcasecmp i.2 (bytes "keep-alive") = .eq then req.setClose false else req, hasHost)
  else
    (req.setHeader i.1 i.2,
      if !hasHost && strcasecmp i.1 (bytes "host") == .eq then !i.2.isEmpty else hasHost)

/-- The request that `DoRequest` makes for a `Uri`, with the headers in the order of the map. -/
def makeRequest (method : HttpMethod) (uri : Uri) (headers : List (List UInt8 × List UInt8))
    (body : List UInt8) : HttpRequest :=
  let req := HttpRequest.new
  let req := req.setPath uri.getPath
  let req := req.setQuery uri.query
  let req := req.setFragment uri.fragment
  let req := req.setMethod method
  let (req, hasHost) := headers.foldl addHeader (req, false)
  let req := if hasHost then req else req.setHeader (bytes "Host") uri.host
  req.setBody body

/-- The headers that are set. -/
def passed (headers : List (List UInt8 × List UInt8)) : List (List UInt8 × List UInt8) :=
  headers.filter fun i => strcasecmp i.1 (bytes "connection") ≠ .eq

/-- A header that keeps the connection open. -/
def keepsAlive (i : List UInt8 × List UInt8) : Bool :=
  strcasecmp i.1 (bytes "connection") == .eq && strcasecmp i.2 (bytes "keep-alive") == .eq

/-- A header that names the host. -/
def namesHost (i : List UInt8 × List UInt8) : Bool :=
  strcasecmp i.1 (bytes "host") == .eq && !i.2.isEmpty

/-- The fields of the request, in the order in which they are set. -/
def requestFields (uri : Uri) (headers : List (List UInt8 × List UInt8)) :
    List (List UInt8 × List UInt8) :=
  passed headers ++ if (passed headers).any namesHost then [] else [(bytes "Host", uri.host)]

variable {headers : List (List UInt8 × List UInt8)}

/-- What the loop makes of a request. -/
theorem foldl_addHeader (headers : List (List UInt8 × List UInt8)) (request : HttpRequest)
    (hasHost : Bool) :
    headers.foldl addHeader (request, hasHost) =
      ({ request with
          close := request.close && !headers.any keepsAlive
          headers := (passed headers).foldl setField request.headers },
        hasHost || (passed headers).any namesHost) := by
  induction headers generalizing request hasHost with
  | nil => simp [passed]
  | cons i headers inductionHypothesis =>
      rw [List.foldl_cons]
      by_cases connection : strcasecmp i.1 (bytes "connection") = .eq
      · have left : passed (i :: headers) = passed headers := by simp [passed, connection]
        have step : addHeader (request, hasHost) i =
            ({ request with close := request.close && !keepsAlive i }, hasHost) := by
          rw [addHeader]
          by_cases alive : strcasecmp i.2 (bytes "keep-alive") = .eq
          · simp [keepsAlive, connection, alive, HttpRequest.setClose]
          · have apart : (strcasecmp i.2 (bytes "keep-alive") == .eq) = false := beq_false_of_ne alive
            simp [keepsAlive, connection, alive, apart]
        rw [step, inductionHypothesis, left, List.any_cons, Bool.not_or, Bool.and_assoc]
      · have kept : passed (i :: headers) = i :: passed headers := by simp [passed, connection]
        have step : addHeader (request, hasHost) i =
            ({ request with headers := setField request.headers i }, hasHost || namesHost i) := by
          rw [addHeader]
          simp only [if_neg connection]
          by_cases named : strcasecmp i.1 (bytes "host") = .eq
          · cases hasHost <;> simp [namesHost, named, HttpRequest.setHeader, setField]
          · cases hasHost <;> simp [namesHost, named, HttpRequest.setHeader, setField]
        have closes : keepsAlive i = false := by simp [keepsAlive, connection]
        rw [step, inductionHypothesis, kept, List.any_cons, List.any_cons, closes, Bool.false_or,
          Bool.or_assoc]
        rfl

theorem makeRequest_eq (method : HttpMethod) (uri : Uri)
    (headers : List (List UInt8 × List UInt8)) (body : List UInt8) :
    makeRequest method uri headers body =
      { method := method
        version := 0x11
        close := !headers.any keepsAlive
        path := uri.getPath
        query := uri.query
        fragment := uri.fragment
        body := body
        headers := (requestFields uri headers).foldl setField ∅ } := by
  rw [makeRequest, foldl_addHeader, requestFields]
  cases named : (passed headers).any namesHost with
  | true =>
      simp only [Bool.false_or, if_true, List.append_nil]
      rfl
  | false =>
      simp only [Bool.false_or, Bool.false_eq_true, if_false, List.foldl_append, List.foldl_cons,
        List.foldl_nil]
      rfl

/-- A field that is set has the name of a header that was there, or its own. -/
theorem forall_setField {name value : List UInt8 → Prop} {field : List UInt8 × List UInt8}
    (new_ : name field.1 ∧ value field.2) {headers : MapType}
    (before : ∀ i ∈ headers.toList, name i.1 ∧ value i.2) :
    ∀ i ∈ (setField headers field).toList, name i.1 ∧ value i.2 := by
  rintro ⟨key, text⟩ member
  obtain ⟨spelling, written⟩ :=
    Std.ExtTreeMap.mem_toList_iff_getKey?_eq_some_and_getElem?_eq_some.mp member
  rw [setField, Std.ExtTreeMap.getKey?_insert] at spelling
  rw [setField, Std.ExtTreeMap.getElem?_insert] at written
  by_cases same : strcasecmp (headers.getKeyD field.1 field.1) key = .eq
  · rw [if_pos same] at spelling written
    cases spelling
    cases written
    refine ⟨?_, new_.2⟩
    by_cases there : field.1 ∈ headers
    · have own := strcasecmp_getKeyD headers field.1
      have known : headers.getKey? (headers.getKeyD field.1 field.1) =
          some (headers.getKeyD field.1 field.1) := by
        rw [Std.ExtTreeMap.getKey?_congr own]
        exact Std.ExtTreeMap.getKey?_eq_some_getKeyD there
      have value' : headers[headers.getKeyD field.1 field.1]? = some headers[field.1] := by
        rw [Std.ExtTreeMap.getElem?_congr own]
        exact Std.ExtTreeMap.getElem?_eq_some_getElem there
      exact (before _ (Std.ExtTreeMap.mem_toList_iff_getKey?_eq_some_and_getElem?_eq_some.mpr
        ⟨known, value'⟩)).1
    · rw [Std.ExtTreeMap.getKeyD_eq_fallback there]
      exact new_.1
  · rw [if_neg same] at spelling written
    exact before (key, text)
      (Std.ExtTreeMap.mem_toList_iff_getKey?_eq_some_and_getElem?_eq_some.mpr ⟨spelling, written⟩)

/-- The names and the values of the headers are those of the fields. -/
theorem forall_foldl_setField (name value : List UInt8 → Prop)
    {fields : List (List UInt8 × List UInt8)} (all : ∀ i ∈ fields, name i.1 ∧ value i.2)
    {headers : MapType} (before : ∀ i ∈ headers.toList, name i.1 ∧ value i.2) :
    ∀ i ∈ (fields.foldl setField headers).toList, name i.1 ∧ value i.2 := by
  induction fields generalizing headers with
  | nil => exact before
  | cons field fields inductionHypothesis =>
      rw [List.forall_mem_cons] at all
      exact inductionHypothesis all.2 (forall_setField all.1 before)

/-- What DoRequest is given can be sent: the headers but those of the connection are fields, and
none is the length, which `dump` makes up. -/
def Passable (headers : List (List UInt8 × List UInt8)) : Prop :=
  ∀ i ∈ passed headers, ((i.1 ≠ [] ∧ ∀ byte ∈ i.1, isToken byte = true) ∧ FieldValue i.2) ∧
    strcasecmp i.1 (bytes "content-length") ≠ .eq

/-- What the server gets of a request for a reference. -/
structure Reaches (method : HttpMethod) (r : Uri.Reference)
    (headers : List (List UInt8 × List UInt8)) (body : List UInt8) (received : HttpRequest) :
    Prop where
  method : received.method = method
  path : received.path = r.uri.getPath
  query : received.query = r.query.getD []
  fragment : received.fragment = r.fragment.getD []
  body : received.body = body
  close : received.close = !headers.any keepsAlive
  /-- The last of several headers with one name counts. -/
  headers : ∀ key, strcasecmp (bytes "connection") key ≠ .eq →
    strcasecmp (bytes "content-length") key ≠ .eq → received.headers[key]? =
      (((requestFields r.uri headers).reverse.find? (strcasecmp ·.1 key == .eq)).map Prod.snd)

variable {r : Uri.Reference} {method : HttpMethod} {body : List UInt8}

/-- A URL with a host has an authority in front of its path. -/
theorem exists_authority (some_ : r.uri.host ≠ []) :
    ∃ scheme userinfo host port, r.front = .authority scheme userinfo host port := by
  obtain ⟨front, path, query, fragment⟩ := r
  cases front with
  | authority scheme userinfo host port => exact ⟨scheme, userinfo, host, port, rfl⟩
  | plain | relative => exact absurd rfl some_

/-- The members of the `Uri` of a reference. -/
theorem uri_components (r : Uri.Reference) :
    r.uri.path = r.path ∧ r.uri.query = r.query.getD [] ∧ r.uri.fragment = r.fragment.getD [] := by
  obtain ⟨front, path, query, fragment⟩ := r
  cases front <;> exact ⟨rfl, rfl, rfl⟩

/-- The URL is taken apart. -/
theorem create_eq (grammatical : r.Grammatical) (regular : r.Regular) (some_ : r.uri.host ≠ []) :
    Uri.create r.text = .ok (some r.uri) := by
  obtain ⟨scheme, userinfo, host, port, front⟩ := exists_authority some_
  obtain ⟨_, path_, query, fragment⟩ := r
  subst front
  exact ((Uri.extracted_authority grammatical).mpr regular).1

/-- The host of a reference is one of the grammar. -/
theorem fits_host (grammatical : r.Grammatical) (some_ : r.uri.host ≠ []) :
    Uri.Fits UriParser.host r.uri.host := by
  obtain ⟨front, path, query, fragment⟩ := r
  cases front with
  | authority scheme userinfo host port => exact grammatical.front.2.2.1
  | plain | relative => exact absurd rfl some_

/-- The path of a reference with a host, as the server reads it. -/
theorem path_of_fits (grammatical : r.Grammatical) (some_ : r.uri.host ≠ [])
    (slashes : r.path.tail.head? = some 47 → Authority (r.path.tail.tail.takeWhile (· ≠ 47))) :
    Path r.uri.getPath := by
  rw [Uri.getPath, (uri_components r).1]
  split
  case isTrue =>
    refine ⟨by decide, .single (by decide) .nil, fun two => ?_⟩
    cases two
  case isFalse path =>
    obtain ⟨scheme, userinfo, host, port, front⟩ := exists_authority some_
    obtain ⟨_, path_, query, fragment⟩ := r
    subst front
    obtain ⟨-, -, -, -, fits⟩ := grammatical.front
    obtain ⟨more, rfl⟩ := UriParser.head_path fits path
    exact ⟨rfl, UriParser.encoded_pathAbempty fits, slashes⟩

/-- A component that may be missing is the text of a query or a fragment. -/
theorem queryText_getD {component : Option Uri.Text}
    (fits : ∀ text ∈ component, Uri.Fits UriParser.queryText text) :
    QueryText (component.getD []) := by
  cases component with
  | none => exact .nil
  | some text => exact UriParser.queryText_of_fits (fits text rfl)

/-- The fields of the request. -/
theorem requestFields_passable (fits : Uri.Fits UriParser.host r.uri.host) (some_ : r.uri.host ≠ [])
    (digits : 2 ∉ r.uri.host) (passable : Passable headers) :
    ∀ i ∈ requestFields r.uri headers,
      ((i.1 ≠ [] ∧ ∀ byte ∈ i.1, isToken byte = true) ∧ FieldValue i.2) ∧
        strcasecmp i.1 (bytes "connection") ≠ .eq ∧
        strcasecmp i.1 (bytes "content-length") ≠ .eq := by
  intro i member
  rcases List.mem_append.mp member with own | host
  · obtain ⟨field, other⟩ := passable i own
    exact ⟨field, of_decide_eq_true (List.mem_filter.mp own).2, other⟩
  · split at host
    · cases host
    · rw [List.mem_singleton.mp host]
      have token : bytes "Host" ≠ [] ∧ ∀ byte ∈ bytes "Host", isToken byte = true := by decide
      have apart : strcasecmp (bytes "Host") (bytes "connection") ≠ .eq ∧
          strcasecmp (bytes "Host") (bytes "content-length") ≠ .eq := by decide
      have printable := UriParser.host_printable fits digits
      refine ⟨⟨token, some_, fun byte inside => (printable byte inside).1, fun blank => ?_,
        fun blank => ?_⟩, apart⟩
      · exact (printable 32 (List.mem_of_mem_head? blank)).2 rfl
      · exact (printable 32 (List.mem_of_getLast? blank)).2 rfl

/-- A name that no field has is not in the headers. -/
theorem notMem_foldl_setField {fields : List (List UInt8 × List UInt8)} {key : List UInt8}
    (other : ∀ i ∈ fields, strcasecmp i.1 key ≠ .eq) :
    key ∉ fields.foldl setField (∅ : MapType) := by
  have absent : fields.reverse.find? (strcasecmp ·.1 key == .eq) = none :=
    List.find?_eq_none.mpr fun i member same =>
      other i (List.mem_reverse.mp member) (eq_of_beq same)
  have none_ : (fields.foldl setField (∅ : MapType))[key]? = none := by
    rw [getElem?_foldl_setField, absent, Std.ExtTreeMap.getElem?_empty]
    rfl
  intro inside
  rw [Std.ExtTreeMap.mem_iff_isSome_getElem?, none_] at inside
  cases inside

/-- The request for a reference can be sent. Behind two slashes at its beginning the path has what
the grammar of a head takes for an authority. -/
theorem makeRequest_sendable (grammatical : r.Grammatical)
    (some_ : r.uri.host ≠ []) (digits : 2 ∉ r.uri.host)
    (slashes : r.path.tail.head? = some 47 → Authority (r.path.tail.tail.takeWhile (· ≠ 47)))
    (capital : ∀ byte ∈ httpMethodToString method, 65 ≤ byte ∧ byte ≤ 90)
    (passable : Passable headers) (size : body.length < 2 ^ 64) :
    (makeRequest method r.uri headers body).Sendable := by
  have fields := requestFields_passable (fits_host grammatical some_) some_ digits passable
  obtain ⟨-, query, fragment⟩ := uri_components r
  rw [makeRequest_eq, query, fragment]
  refine ⟨capital, .inr rfl, path_of_fits grammatical some_ slashes,
    queryText_getD grammatical.query, queryText_getD grammatical.fragment, ?_, ?_, ?_, size⟩
  · have nothing : (∅ : MapType).toList = [] := rfl
    refine forall_foldl_setField (fun name => name ≠ [] ∧ ∀ byte ∈ name, isToken byte = true)
      FieldValue (fun i member => (fields i member).1) ?_
    rw [nothing]
    exact nofun
  · exact notMem_foldl_setField fun i member => (fields i member).2.1
  · exact notMem_foldl_setField fun i member => (fields i member).2.2

variable {σ : Type} {machine : Machine Act σ} {lexicalCast : List UInt8 → Option UInt64}

/-- A URL that is put together of components and taken apart again leads to a request with these
components: when its head comes with the first result of `read` and its body is read, the server
gets the path (a slash for an empty one), the query and the fragment as they stand in the URL, the headers that were passed,
and the host of the URL unless another was named. -/
theorem recvRequest_makeRequest (splits : SplitsHeads machine)
    (casts : HttpRequest.CastsNumbers lexicalCast) (grammatical : r.Grammatical)
    (regular : r.Regular) (some_ : r.uri.host ≠ []) (digits : 2 ∉ r.uri.host)
    (slashes : r.path.tail.head? = some 47 → Authority (r.path.tail.tail.takeWhile (· ≠ 47)))
    (capital : ∀ byte ∈ httpMethodToString method, 65 ≤ byte ∧ byte ≤ 90)
    (passable : Passable headers) (size : body.length < 2 ^ 64) {buffSize : Nat}
    (small : buffSize < 2 ^ 31) {block : Connection}
    (arrives : HttpServer.Arrives buffSize (makeRequest method r.uri headers body) block)
    (fits : recvRequest machine lexicalCast buffSize block ≠ .error .overrun) :
    Uri.create r.text = .ok (some r.uri) ∧
      ∃ received after, recvRequest machine lexicalCast buffSize block =
        .ok (some received, after) ∧ Reaches method r headers body received := by
  have sendable := makeRequest_sendable grammatical some_ digits slashes capital passable size
  obtain ⟨-, query, fragment⟩ := uri_components r
  have nothing : ∀ result ∈ ([] : Connection), result ≠ [] := nofun
  rw [← List.append_nil block] at fits ⊢
  refine ⟨create_eq grammatical regular some_, _, _,
    arrives.received sendable splits casts small nothing fits, ?_⟩
  refine ⟨?_, ?_, ?_, ?_, ?_, ?_, fun key connection length => ?_⟩
  · rw [makeRequest_eq]
  · rw [makeRequest_eq]
  · rw [makeRequest_eq, query]
  · rw [makeRequest_eq, fragment]
  · rw [makeRequest_eq]
  · rw [makeRequest_eq]
  · have own : (makeRequest method r.uri headers body).dumpHeaders[key]? =
        (makeRequest method r.uri headers body).headers[key]? := by
      rw [(sendable.dumpHeaders key).2, sendable.find?, if_neg connection, if_neg length]
      exact getElem?_of_find? fun _ _ => Iff.rfl
    change (makeRequest method r.uri headers body).dumpHeaders[key]? = _
    rw [own, makeRequest_eq]
    change ((requestFields r.uri headers).foldl setField ∅)[key]? = _
    rw [getElem?_foldl_setField, Std.ExtTreeMap.getElem?_empty, Option.or_none]

section Runs

/-- A URL with a query. -/
def sylarTop : Uri.Reference :=
  ⟨.authority (bytes "http") none (bytes "www.sylar.top") none, bytes "/uri/a", some (bytes "b=1"),
    none⟩

/-- Headers of which one keeps the connection open. -/
def keepOpen : List (List UInt8 × List UInt8) :=
  [(bytes "Connection", bytes "keep-alive"), (bytes "x", bytes "y")]

theorem makeRequest_dump : (makeRequest .get sylarTop.uri keepOpen []).dump false =
    bytes ("GET /uri/a?b=1 HTTP/1.1\r\nconnection: keep-alive\r\nHost: www.sylar.top\r\n" ++
      "x: y\r\n\r\n") ∧
    (makeRequest .get sylarTop.uri keepOpen []).dumpHead false =
      (makeRequest .get sylarTop.uri keepOpen []).dump false := by
  have headers : (makeRequest .get sylarTop.uri keepOpen []).headers.toList =
      [(bytes "Host", bytes "www.sylar.top"), (bytes "x", bytes "y")] := rfl
  have close : (makeRequest .get sylarTop.uri keepOpen []).close = false := rfl
  rw [HttpRequest.dump, HttpRequest.dumpHead, headers, close]
  decide

theorem makeRequest_arrives : HttpServer.Arrives 4096 (makeRequest .get sylarTop.uri keepOpen [])
    [(makeRequest .get sylarTop.uri keepOpen []).dump false] where
  stream := List.flatten_singleton
  nonempty := by
    rw [List.forall_mem_singleton, makeRequest_dump.1]
    decide
  whole := by
    rw [makeRequest_dump.2]
    exact Nat.le_refl _
  fitsBuffer := by
    rw [makeRequest_dump.2, makeRequest_dump.1]
    decide
  body := .inl rfl

theorem recvRequest_makeRequest_get : Uri.create sylarTop.text = .ok (some sylarTop.uri) ∧
    ∃ received after, recvRequest headMachine decimal 4096
        [(makeRequest .get sylarTop.uri keepOpen []).dump false] = .ok (some received, after) ∧
      Reaches .get sylarTop keepOpen [] received := by
  have passable : Passable keepOpen := by
    have left : passed keepOpen = [(bytes "x", bytes "y")] := rfl
    rw [Passable, left, List.forall_mem_singleton]
    exact ⟨⟨⟨by decide, by decide⟩, by decide, by decide, by decide, by decide⟩, by decide⟩
  refine recvRequest_makeRequest headMachine_splits HttpRequest.castsNumbers_decimal (by decide)
    (by decide) (by decide) (by decide) ?_ ?_ passable (by decide) (by decide) makeRequest_arrives ?_
  · exact fun two => absurd two (by decide)
  · decide
  · rw [makeRequest_dump.1]
    decide

end Runs

end HttpConnection

end Http

end Sylar
