import Sylar.Http.Heads

/-!
# Requests that are written and read back

`HttpRequest::dump` writes a request, and `recvRequest` reads it. The headers that it makes up,
of the connection and of the length of the body, come back beside those of the request.
-/

namespace Sylar.Http

/-- `HttpMethodToString`. -/
def httpMethodToString (m : HttpMethod) : List UInt8 :=
  (httpMethodMap.lookup m).getD (bytes "<unknown>")

/-- A number as a stream writes it. -/
def decimalText (n : Nat) : List UInt8 := bytes (ToString.toString n)

namespace HttpRequest

/-- `dump`, up to the body. `m_websocket` is an argument. -/
def dumpHead (websocket : Bool) (request : HttpRequest) : List UInt8 :=
  httpMethodToString request.method ++ bytes " " ++
    request.path ++
    (if request.query = [] then [] else bytes "?") ++
    request.query ++
    (if request.fragment = [] then [] else bytes "#") ++
    request.fragment ++
    bytes " HTTP/" ++
    decimalText (request.version >>> 4).toNat ++
    bytes "." ++
    decimalText (request.version &&& 0x0F).toNat ++
    bytes "\r\n" ++
    (if websocket then []
      else bytes "connection: " ++ (if request.close then bytes "close" else bytes "keep-alive") ++
        bytes "\r\n") ++
    (request.headers.toList.flatMap fun i =>
      if !websocket && strcasecmp i.1 (bytes "connection") == .eq then []
      else i.1 ++ bytes ": " ++ i.2 ++ bytes "\r\n") ++
    (if request.body ≠ [] then
      bytes "content-length: " ++ decimalText request.body.length ++ bytes "\r\n\r\n"
    else bytes "\r\n")

/-- `dump`, the head and the body. -/
def dump (websocket : Bool) (request : HttpRequest) : List UInt8 :=
  request.dumpHead websocket ++ request.body

/-- A request that can be sent: one whose parts the grammar derives, without the two headers that
`dump` makes up. -/
structure Sendable (request : HttpRequest) : Prop where
  method : ∀ byte ∈ httpMethodToString request.method, 65 ≤ byte ∧ byte ≤ 90
  version : request.version = 0x10 ∨ request.version = 0x11
  path : Path request.path
  query : QueryText request.query
  fragment : QueryText request.fragment
  headers : ∀ i ∈ request.headers.toList,
    (i.1 ≠ [] ∧ ∀ byte ∈ i.1, isToken byte = true) ∧ FieldValue i.2
  connection : bytes "connection" ∉ request.headers
  contentLength : bytes "content-length" ∉ request.headers
  /-- A `size_t`. -/
  size : request.body.length < 2 ^ 64

/-- A request without the two headers. -/
def bare (request : HttpRequest) : HttpRequest :=
  { request with
    headers := (request.headers.erase (bytes "connection")).erase (bytes "content-length") }

/-- The fields that `dump` writes. -/
def dumpFields (request : HttpRequest) : List (List UInt8 × List UInt8) :=
  (bytes "connection", if request.close then bytes "close" else bytes "keep-alive") ::
    (request.headers.toList ++
      if request.body = [] then []
      else [(bytes "content-length", decimalText request.body.length)])

/-- The parts that `dump` writes. -/
def dumpParts (request : HttpRequest) : RequestHead where
  method := httpMethodToString request.method
  path := request.path
  query := request.query
  fragment := request.fragment
  version := if request.version = 0x11 then bytes "HTTP/1.1" else bytes "HTTP/1.0"
  fields := request.dumpFields

variable {request : HttpRequest}

theorem decimalText_eq (n : Nat) :
    decimalText n = (Nat.toDigits 10 n).map fun char => char.toNat.toUInt8 := by
  rw [decimalText, bytes, ← Nat.toList_repr]
  rfl

theorem decimalText_digits (n : Nat) :
    decimalText n ≠ [] ∧ ∀ byte ∈ decimalText n, 48 ≤ byte ∧ byte ≤ 57 := by
  rw [decimalText_eq]
  refine ⟨by simp, fun byte member => ?_⟩
  obtain ⟨char, isChar, rfl⟩ := List.mem_map.mp member
  have digit := Nat.isDigit_of_mem_toDigits (by decide) (Nat.le_refl 10) isChar
  rw [Char.isDigit, Bool.and_eq_true, decide_eq_true_eq, decide_eq_true_eq, ge_iff_le,
    UInt32.le_iff_toNat_le, UInt32.le_iff_toNat_le] at digit
  change 48 ≤ char.toNat ∧ char.toNat ≤ 57 at digit
  rw [UInt8.le_iff_toNat_le, UInt8.le_iff_toNat_le]
  change 48 ≤ char.toNat % 256 ∧ char.toNat % 256 ≤ 57
  omega

theorem Sendable.version_text (sendable : request.Sendable) :
    bytes "HTTP/" ++ decimalText (request.version >>> 4).toNat ++ bytes "." ++
      decimalText (request.version &&& 0x0F).toNat =
        if request.version = 0x11 then bytes "HTTP/1.1" else bytes "HTTP/1.0" := by
  rcases sendable.version with version | version <;> rw [version] <;> decide

/-- None of the headers is left out. -/
theorem Sendable.headers_text (sendable : request.Sendable) :
    (request.headers.toList.flatMap fun i =>
      if !false && strcasecmp i.1 (bytes "connection") == .eq then []
      else i.1 ++ bytes ": " ++ i.2 ++ bytes "\r\n") =
      request.headers.toList.flatMap RequestHead.fieldText := by
  refine List.flatMap_congr fun i member => ?_
  have other : ¬strcasecmp i.1 (bytes "connection") = .eq := by
    intro same
    have key := (Std.ExtTreeMap.mem_toList_iff_getKey?_eq_some_and_getElem?_eq_some.mp member).1
    refine sendable.connection ?_
    rw [← Std.ExtTreeMap.mem_congr same]
    exact Std.ExtTreeMap.mem_of_getKey?_eq_some key
  rw [if_neg (by simpa using other), List.append_assoc, List.append_assoc]
  rfl

/-- A delimiter is written with the part behind it. -/
theorem behind_append (delimiter : UInt8) (part rest : List UInt8) :
    (if part = [] then [] else [delimiter]) ++ (part ++ rest) =
      RequestHead.behind delimiter part ++ rest := by
  cases part <;> rfl

theorem Sendable.dumpHead_eq (sendable : request.Sendable) :
    request.dumpHead false = request.dumpParts.text := by
  have version : ∀ rest, bytes "HTTP/" ++ (decimalText (request.version >>> 4).toNat ++ (bytes "." ++
      (decimalText (request.version &&& 0x0F).toNat ++ rest))) = request.dumpParts.version ++ rest := by
    intro rest
    rw [dumpParts, ← sendable.version_text]
    simp only [List.append_assoc]
  have field : ∀ name value rest, RequestHead.fieldText (name, value) ++ rest =
      name ++ (bytes ": " ++ (value ++ (bytes "\r\n" ++ rest))) := by
    intro name value rest
    simp only [RequestHead.fieldText, List.append_assoc, List.cons_append]
    rfl
  have fields : bytes "connection: " ++ ((if request.close then bytes "close"
      else bytes "keep-alive") ++ (bytes "\r\n" ++
        (request.headers.toList.flatMap RequestHead.fieldText ++
          if request.body ≠ [] then
            bytes "content-length: " ++ (decimalText request.body.length ++ bytes "\r\n\r\n")
          else bytes "\r\n"))) =
      request.dumpParts.fields.flatMap RequestHead.fieldText ++ [13, 10] := by
    rw [dumpParts, dumpFields, List.flatMap_cons, List.flatMap_append, List.append_assoc, field,
      List.append_assoc]
    by_cases empty : request.body = []
    · rw [if_neg (not_not.mpr empty), if_pos empty]
      rfl
    · rw [if_pos empty, if_neg empty, List.flatMap_cons, List.flatMap_nil, List.append_nil, field]
      rfl
  rw [dumpHead, sendable.headers_text, RequestHead.text, ← fields]
  simp only [List.append_assoc, Bool.false_eq_true, if_false]
  rw [← version, ← behind_append, ← behind_append]
  rfl

theorem Sendable.grammatical (sendable : request.Sendable) : request.dumpParts.Grammatical where
  method := by
    have known : httpMethodToString request.method ≠ [] ∧
        (httpMethodToString request.method).length ≤ 20 := by
      cases request.method <;> decide
    refine ⟨known.1, known.2, fun byte member => ?_⟩
    have upper := sendable.method byte member
    simp [HeadState.isMethod, upper.1, upper.2]
  path := sendable.path
  query := sendable.query
  fragment := sendable.fragment
  version := by
    rw [dumpParts]
    split
    · exact .inr rfl
    · exact .inl rfl
  fields := by
    have connection : bytes "connection" ≠ [] ∧
        ∀ byte ∈ bytes "connection", isToken byte = true := by decide
    have contentLength : bytes "content-length" ≠ [] ∧
        ∀ byte ∈ bytes "content-length", isToken byte = true := by decide
    refine List.forall_mem_cons.mpr ⟨⟨connection, ?_⟩, fun field member => ?_⟩
    · cases request.close <;> exact ⟨by decide, by decide, by decide, by decide⟩
    · rcases List.mem_append.mp member with own | length
      · exact sendable.headers field own
      · split at length
        · cases length
        · rw [List.mem_singleton.mp length]
          obtain ⟨some_, digits⟩ := decimalText_digits request.body.length
          have notBlank : ∀ byte ∈ decimalText request.body.length, byte ≠ 32 := by
            rintro byte digit rfl
            exact absurd (digits 32 digit) (by decide)
          refine ⟨contentLength, some_, fun byte digit => ?_, fun blank => ?_, fun blank => ?_⟩
          · obtain ⟨above, below⟩ := digits byte digit
            have low : (32 : UInt8) ≤ byte := UInt8.le_trans (by decide) above
            have other : byte ≠ 127 := by
              rintro rfl
              exact absurd below (by decide)
            simp [isPrintable, low, other]
          · exact notBlank 32 (List.mem_of_mem_head? blank) rfl
          · exact notBlank 32 (List.mem_of_getLast? blank) rfl

end HttpRequest

section Changes

variable {head before part after : List UInt8} {start stop : Nat}

theorem slice_eq (before : List UInt8) (split : head = before ++ (part ++ after))
    (begins : start = before.length) (ends : stop = start + part.length) : slice head start stop = part := by
  rw [split, ends, begins, slice, Nat.add_sub_cancel_left, List.drop_left, List.take_left]

/-- The method that a head begins with. -/
theorem charsToHttpMethod_append {m : HttpMethod} (known : m ≠ .invalidMethod)
    (rest : List UInt8) : charsToHttpMethod (httpMethodToString m ++ (32 :: rest)) = m := by
  have blank : (httpMethodToString m ++ (32 :: rest))[(httpMethodToString m).length]? = some 32 := by
    simp
  have same : (httpMethodToString m ++ (32 :: rest)).take ((httpMethodToString m).length + 1) =
      (httpMethodToString m ++ [32]).take ((httpMethodToString m).length + 1) := by
    rw [List.take_length_add_append, List.take_length_add_append]
    rfl
  rw [charsToHttpMethod_congr same blank]
  cases m <;> first | exact absurd rfl known | decide

/-- The fields change the headers. -/
theorem fieldTokens_change (fields : List (List UInt8 × List UInt8)) (before : List UInt8)
    (some_ : ∀ field ∈ fields, field.1 ≠ [])
    (split : head = before ++ (fields.flatMap RequestHead.fieldText ++ after)) :
    (RequestHead.fieldTokens before.length fields).map (Token.change head fun _ => 0) =
      fields.map fun field => some (.header field.1 field.2) := by
  induction fields generalizing before with
  | nil => rfl
  | cons field fields inductionHypothesis =>
      obtain ⟨name, value⟩ := field
      rw [List.forall_mem_cons] at some_
      have positive := List.length_pos_iff.mpr some_.1
      simp only [List.flatMap_cons, RequestHead.fieldText, List.append_assoc, List.cons_append,
        List.nil_append] at split positive
      have nameText : slice head before.length (before.length + name.length) = name :=
        slice_eq before split rfl rfl
      have valueText : slice head (before.length + name.length + 2)
          (before.length + name.length + 2 + value.length) = value := by
        have again : head = before ++ name ++ [58, 32] ++
            (value ++ (13 :: 10 :: (fields.flatMap RequestHead.fieldText ++ after))) := by
          simp [split]
        exact slice_eq _ again (by simp; omega) rfl
      have next := inductionHypothesis (before ++ name ++ [58, 32] ++ value ++ [13, 10]) some_.2
        (split.trans (by simp only [List.append_assoc]; rfl))
      have position : (before ++ name ++ [58, 32] ++ value ++ [13, 10]).length =
          before.length + name.length + 2 + value.length + 2 := by
        simp
        omega
      rw [position] at next
      rw [RequestHead.fieldTokens, List.map_cons, List.map_cons, next]
      simp only [Token.change, Nat.max_zero, nameText, valueText]
      rw [if_neg (by omega)]

/-- What `on_request_version` makes of the two versions. -/
theorem version_change {version : List UInt8} (isVersion : slice head start stop = version) :
    strncmp (head.drop start) (bytes "HTTP/1.1") (stop - start) =
      strncmp version (bytes "HTTP/1.1") (stop - start) ∧
    strncmp (head.drop start) (bytes "HTTP/1.0") (stop - start) =
      strncmp version (bytes "HTTP/1.0") (stop - start) := by
  have same : (head.drop start).take (stop - start) = version.take (stop - start) := by
    rw [← isVersion, slice, List.take_take, Nat.min_self]
  exact ⟨strncmp_congr same, strncmp_congr same⟩

namespace RequestHead

/-- The changes that a head makes, in the order of its callbacks. -/
def changes (parts : RequestHead) (m : HttpMethod) (v : UInt8) : List Change :=
  [.method m, .path parts.path] ++
  (if parts.query = [] then [] else [.query parts.query]) ++
  [.nothing] ++
  (if parts.fragment = [] then [] else [.fragment parts.fragment]) ++
  [.version v] ++
  parts.fields.map fun field => .header field.1 field.2

/-- What stands between the places of a part. -/
theorem slice_path (parts : RequestHead) :
    slice parts.text (parts.methodEnd + 1) parts.pathEnd = parts.path :=
  slice_eq (parts.method ++ [32]) (List.append_assoc _ [32] _).symm (by simp [methodEnd]) rfl

theorem slice_query {parts : RequestHead} (present : parts.query ≠ []) :
    slice parts.text (parts.pathEnd + 1) parts.queryEnd = parts.query := by
  have split : parts.text = (parts.method ++ [32] ++ parts.path ++ [63]) ++ (parts.query ++
      (behind 35 parts.fragment ++ (32 :: (parts.version ++
        (13 :: 10 :: (parts.fields.flatMap fieldText ++ [13, 10])))))) := by
    simp [text, behind, present]
  refine slice_eq _ split (by simp [pathEnd, methodEnd]; omega) ?_
  rw [queryEnd, behind, if_neg present, List.length_cons]
  omega

theorem slice_fragment {parts : RequestHead} (present : parts.fragment ≠ []) :
    slice parts.text (parts.queryEnd + 1) parts.fragmentEnd = parts.fragment := by
  have split : parts.text = (parts.method ++ [32] ++ parts.path ++ behind 63 parts.query ++ [35]) ++
      (parts.fragment ++ (32 :: (parts.version ++
        (13 :: 10 :: (parts.fields.flatMap fieldText ++ [13, 10]))))) := by
    simp [text, behind, present]
  refine slice_eq _ split (by simp [queryEnd, pathEnd, methodEnd]; omega) ?_
  rw [fragmentEnd, behind, if_neg present, List.length_cons]
  omega

theorem slice_version (parts : RequestHead) :
    slice parts.text (parts.fragmentEnd + 1) parts.versionEnd = parts.version := by
  have split : parts.text = (parts.method ++ [32] ++ parts.path ++ behind 63 parts.query ++
      behind 35 parts.fragment ++ [32]) ++ (parts.version ++
        (13 :: 10 :: (parts.fields.flatMap fieldText ++ [13, 10]))) := by
    simp [text]
  exact slice_eq _ split (by simp [fragmentEnd, queryEnd, pathEnd, methodEnd]; omega) rfl

theorem change_fields {parts : RequestHead} (some_ : ∀ field ∈ parts.fields, field.1 ≠ []) :
    (fieldTokens (parts.versionEnd + 2) parts.fields).map (Token.change parts.text fun _ => 0) =
      parts.fields.map fun field => some (.header field.1 field.2) := by
  have split : parts.text = (parts.method ++ [32] ++ parts.path ++ behind 63 parts.query ++
      behind 35 parts.fragment ++ [32] ++ parts.version ++ [13, 10]) ++
        (parts.fields.flatMap fieldText ++ [13, 10]) := by
    simp [text]
  have position : parts.versionEnd + 2 = (parts.method ++ [32] ++ parts.path ++
      behind 63 parts.query ++ behind 35 parts.fragment ++ [32] ++ parts.version ++
        [13, 10]).length := by
    simp [versionEnd, fragmentEnd, queryEnd, pathEnd, methodEnd]
    omega
  rw [position]
  exact fieldTokens_change parts.fields _ some_ split

theorem change_version {parts : RequestHead} {v : UInt8}
    (version : v = 0x11 ∧ parts.version = bytes "HTTP/1.1" ∨
      v = 0x10 ∧ parts.version = bytes "HTTP/1.0") :
    Token.change parts.text (fun _ => 0)
      (.element .httpVersion (parts.fragmentEnd + 1) parts.versionEnd) = some (.version v) := by
  obtain ⟨first, second⟩ := version_change parts.slice_version
  have size : parts.versionEnd - (parts.fragmentEnd + 1) = parts.version.length := by
    rw [versionEnd]
    omega
  rw [size] at first second
  simp only [Token.change, Nat.max_zero, size, first, second]
  rcases version with ⟨rfl, known⟩ | ⟨rfl, known⟩ <;> rw [known] <;> decide

/-- The text of a method that is none is not in the grammar. -/
theorem Grammatical.known {parts : RequestHead} (grammatical : parts.Grammatical) {m : HttpMethod}
    (method : parts.method = httpMethodToString m) : m ≠ .invalidMethod := by
  rintro rfl
  have chars := grammatical.method.2.2
  rw [method] at chars
  exact absurd (chars 60 (by decide)) (by decide)

theorem tokens_change {parts : RequestHead} {m : HttpMethod} {v : UInt8}
    (known : m ≠ .invalidMethod) (method : parts.method = httpMethodToString m)
    (version : v = 0x11 ∧ parts.version = bytes "HTTP/1.1" ∨
      v = 0x10 ∧ parts.version = bytes "HTTP/1.0")
    (some_ : ∀ field ∈ parts.fields, field.1 ≠ []) :
    parts.tokens.map (Token.change parts.text fun _ => 0) = (parts.changes m v).map some := by
  have methodText : charsToHttpMethod (parts.text.drop 0) = m := by
    rw [List.drop_zero, text, method, charsToHttpMethod_append known]
  have query : (if parts.query = [] then []
      else [Token.query (parts.pathEnd + 1) parts.queryEnd]).map
        (Token.change parts.text fun _ => 0) =
      (if parts.query = [] then [] else [.query parts.query]).map some := by
    split
    · rfl
    · rename_i present
      have ordered : parts.pathEnd + 1 ≤ parts.queryEnd := by
        rw [queryEnd, behind, if_neg present, List.length_cons]
        omega
      simp only [List.map_cons, List.map_nil, Token.change, Nat.sub_zero, Nat.zero_add,
        if_pos ordered, slice_query present]
  have fragment : (if parts.fragment = [] then []
      else [Token.element .fragment (parts.queryEnd + 1) parts.fragmentEnd]).map
        (Token.change parts.text fun _ => 0) =
      (if parts.fragment = [] then [] else [.fragment parts.fragment]).map some := by
    split
    · rfl
    · rename_i present
      simp only [List.map_cons, List.map_nil, Token.change, Nat.max_zero, slice_fragment present]
  simp only [tokens, changes, List.map_append, query, fragment, change_fields some_]
  simp only [List.map_cons, List.map_nil, change_version version, List.map_map]
  simp only [Token.change, Nat.max_zero, methodText, if_neg known, slice_path]
  rfl

end RequestHead

end Changes

end Sylar.Http
