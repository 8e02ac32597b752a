import Sylar.Http.ContentLength
import Sylar.Http.Framing
import Sylar.Http.ResponseHeads

/-!
# Responses that come back

`HttpResponse::dump` writes a response, and `recvResponse` reads it. The status, the version
and the reason come back, of several cookies the last, and of the body the first byte.
-/

namespace Sylar.Http

open Library (isDigit)
open HttpRequest (decimalText_digits decimalText_isDigit numeral_decimalText)

section Headers

/-- The spelling that is there is one of the same name. -/
theorem strcasecmp_getKeyD (headers : MapType) (key : List UInt8) :
    strcasecmp (headers.getKeyD key key) key = .eq := by
  by_cases there : key ∈ headers
  · rw [← Std.ExtTreeMap.getKey_eq_getKeyD (h := there)]
    exact Std.ExtTreeMap.compare_getKey_self there
  · rw [Std.ExtTreeMap.getKeyD_eq_fallback there]
    exact Std.ReflCmp.compare_self

/-- A header is written under the spelling that is there. -/
theorem getElem?_setField (headers : MapType) (field : List UInt8 × List UInt8)
    (key : List UInt8) :
    (setField headers field)[key]? =
      if strcasecmp field.1 key = .eq then some field.2 else headers[key]? := by
  have spelling := strcasecmp_getKeyD headers field.1
  rw [setField, Std.ExtTreeMap.getElem?_insert]
  refine if_congr ⟨fun same => ?_, fun same => ?_⟩ rfl rfl
  · exact Std.TransCmp.eq_trans (Std.OrientedCmp.eq_symm spelling) same
  · exact Std.TransCmp.eq_trans spelling same

/-- Of several fields with one name the last is kept. -/
theorem getElem?_foldl_setField (fields : List (List UInt8 × List UInt8)) (headers : MapType)
    (key : List UInt8) :
    (fields.foldl setField headers)[key]? =
      ((fields.reverse.find? (strcasecmp ·.1 key == .eq)).map Prod.snd).or headers[key]? := by
  induction fields generalizing headers with
  | nil => rfl
  | cons field fields inductionHypothesis =>
      rw [List.foldl_cons, inductionHypothesis, getElem?_setField, List.reverse_cons,
        List.find?_append, Option.map_or, Option.or_assoc]
      refine congrArg _ ?_
      by_cases same : strcasecmp field.1 key = .eq
      · simp [same]
      · simp [same]

/-- A field of the headers, found by its name. -/
theorem getElem?_of_find? {headers : MapType} {fields : List (List UInt8 × List UInt8)}
    {key : List UInt8}
    (member : ∀ i, strcasecmp i.1 key = .eq → (i ∈ fields ↔ i ∈ headers.toList)) :
    (fields.find? (strcasecmp ·.1 key == .eq)).map Prod.snd = headers[key]? := by
  cases found : fields.find? (strcasecmp ·.1 key == .eq) with
  | none =>
      have absent : headers.toList.find? (strcasecmp ·.1 key == .eq) = none := by
        refine List.find?_eq_none.mpr fun i inside same => ?_
        have inside' := (member i (eq_of_beq same)).mpr inside
        exact List.find?_eq_none.mp found i inside' same
      have notMem := Std.ExtTreeMap.find?_toList_eq_none_iff_not_mem.mp absent
      exact (Std.ExtTreeMap.getElem?_eq_none notMem).symm
  | some i =>
      have same : strcasecmp i.1 key = .eq :=
        eq_of_beq (List.find?_some (p := fun x : List UInt8 × List UInt8 => strcasecmp x.1 key == .eq)
          found)
      have inside := (member i same).mp (List.mem_of_find?_eq_some found)
      have value := (Std.ExtTreeMap.mem_toList_iff_getKey?_eq_some_and_getElem?_eq_some.mp inside).2
      rw [← Std.ExtTreeMap.getElem?_congr same, value]
      rfl

end Headers

section Delivered

variable {buffer before part after : List UInt8} {parsed : ParsedResponse}

theorem substring_part (split : buffer = before ++ (part ++ after)) :
    substring buffer before.length part.length = .ok part := by
  rw [HttpResponseParser.substring_ok (by rw [split]; simp), split, List.drop_left,
    List.take_left]

/-- The callback of a field that is written with its line end. -/
theorem deliver_field {name value : List UInt8} (some_ : name ≠ [])
    (split : buffer = before ++ (RequestHead.fieldText (name, value) ++ after)) :
    (ClientToken.field before.length (before.length + name.length) (before.length + name.length + 2)
      (before.length + name.length + 2 + value.length)).deliver buffer parsed =
        .ok (parsed.update (·.setHeader name value)) := by
  have positive := List.length_pos_iff.mpr some_
  simp only [RequestHead.fieldText, List.append_assoc, List.cons_append, List.nil_append] at split
  have valued : buffer = before ++ name ++ [58, 32] ++ (value ++ (13 :: 10 :: after)) := by
    simp [split]
  have nameText := substring_part split
  have valueText := substring_part valued
  have position : (before ++ name ++ [58, 32]).length = before.length + name.length + 2 := by
    simp
    omega
  rw [position] at valueText
  simp only [ClientToken.deliver, Nat.add_sub_cancel_left, ParsedResponse.onHttpField, nameText,
    valueText, if_neg (Nat.pos_iff_ne_zero.mp positive)]
  rfl

/-- The fields set the headers. -/
theorem deliver_fields {fields : List (List UInt8 × List UInt8)}
    (some_ : ∀ field ∈ fields, field.1 ≠ [])
    (split : buffer = before ++ (fields.flatMap RequestHead.fieldText ++ after)) :
    (ResponseHead.fieldTokens before.length fields).foldlM (ClientToken.deliver buffer) parsed =
      .ok (parsed.update fun response =>
        { response with headers := fields.foldl setField response.headers }) := by
  induction fields generalizing before parsed with
  | nil => rfl
  | cons field fields inductionHypothesis =>
      obtain ⟨name, value⟩ := field
      rw [List.forall_mem_cons] at some_
      rw [List.flatMap_cons, List.append_assoc] at split
      have further : buffer = (before ++ RequestHead.fieldText (name, value)) ++
          (fields.flatMap RequestHead.fieldText ++ after) := by
        rw [split, List.append_assoc]
      have position : (before ++ RequestHead.fieldText (name, value)).length =
          before.length + name.length + 2 + value.length + 2 := by
        simp [RequestHead.fieldText]
        omega
      have others : (ResponseHead.fieldTokens _ fields).foldlM (ClientToken.deliver buffer)
          (parsed.update (·.setHeader name value)) = _ := inductionHypothesis some_.2 further
      rw [position] at others
      rw [ResponseHead.fieldTokens, List.foldlM_cons, deliver_field some_.1 split]
      exact others

theorem deliver_version {v : UInt8} {version : List UInt8}
    (known : v = 0x11 ∧ version = bytes "HTTP/1.1" ∨ v = 0x10 ∧ version = bytes "HTTP/1.0")
    (split : buffer = version ++ after) :
    (ClientToken.version 0 version.length).deliver buffer parsed =
      .ok (parsed.update (·.setVersion v)) := by
  have text : textAt buffer 0 = .ok (version ++ cString after) := by
    rw [HttpResponseParser.textAt_ok (Nat.zero_le _), List.drop_zero, split, cString,
      List.takeWhile_append_of_pos]
    · rfl
    · rcases known with ⟨-, rfl⟩ | ⟨-, rfl⟩ <;> decide
  have same : ∀ other, strncmp (version ++ cString after) other (version.length - 0) =
      strncmp version other version.length := by
    intro other
    exact strncmp_congr (by rw [Nat.sub_zero, List.take_left, List.take_length])
  simp only [ClientToken.deliver, ParsedResponse.onVersion, text, bind, Except.bind, same]
  rcases known with ⟨rfl, rfl⟩ | ⟨rfl, rfl⟩
  · rw [if_pos (by decide)]
    rfl
  · rw [if_neg (by decide), if_pos (by decide)]
    rfl

theorem deliver_reason (split : buffer = before ++ (part ++ after)) :
    (ClientToken.reason before.length (before.length + part.length)).deliver buffer parsed =
      .ok (parsed.update (·.setReason part)) := by
  simp only [ClientToken.deliver, ParsedResponse.onReason, Nat.add_sub_cancel_left,
    substring_part split]
  rfl

theorem deliver_status {digits : List UInt8} (some_ : digits ≠ [])
    (all : ∀ byte ∈ digits, isDigit 10 byte = true)
    (split : buffer = before ++ (digits ++ (32 :: after))) :
    (ClientToken.status before.length).deliver buffer parsed =
      .ok (parsed.update (·.setStatus (longToInt
        (min (2 ^ 63 - 1) (Library.numeral 10 digits : Int))))) := by
  have text : textAt buffer before.length = .ok (digits ++ (32 :: cString after)) := by
    have notNull : ∀ byte ∈ digits, (byte != 0) = true := by
      intro byte member
      have digit := all byte member
      refine bne_iff_ne.mpr ?_
      rintro rfl
      exact absurd digit (by decide)
    rw [HttpResponseParser.textAt_ok (by rw [split]; simp), split, List.drop_left, cString,
      List.takeWhile_append_of_pos notNull]
    rfl
  have read : Library.strtol 10 (digits ++ (32 :: cString after)) = _ :=
    Library.strtol_digits all some_ (by rintro _ ⟨⟩; decide)
  simp only [ClientToken.deliver, ParsedResponse.onStatus, text, bind, Except.bind, read]
  rfl

end Delivered

namespace ResponseHead

/-- What the callbacks for a head write. -/
theorem tokens_deliver {parts : ResponseHead} (grammatical : parts.Grammatical) {v : UInt8}
    (known : v = 0x11 ∧ parts.version = bytes "HTTP/1.1" ∨
      v = 0x10 ∧ parts.version = bytes "HTTP/1.0") (extra : List UInt8) :
    parts.tokens.foldlM (ClientToken.deliver (parts.text ++ extra)) ⟨.new, 0⟩ =
      .ok ⟨{
        status := longToInt (min (2 ^ 63 - 1) (Library.numeral 10 parts.status : Int))
        version := v
        body := []
        reason := parts.reason
        headers := parts.fields.foldl setField ∅ }, 0⟩ := by
  have version : parts.text ++ extra = parts.version ++ _ := List.append_assoc _ _ _
  have status : parts.text ++ extra = (parts.version ++ [32]) ++ (parts.status ++ (32 ::
      (parts.reason ++ (13 :: 10 ::
        (parts.fields.flatMap RequestHead.fieldText ++ ([13, 10] ++ extra)))))) := by
    simp [text]
  have reason : parts.text ++ extra = (parts.version ++ [32] ++ parts.status ++ [32]) ++
      (parts.reason ++ (13 :: 10 ::
        (parts.fields.flatMap RequestHead.fieldText ++ ([13, 10] ++ extra)))) := by
    simp [text]
  have fields : parts.text ++ extra = (parts.version ++ [32] ++ parts.status ++ [32] ++
      parts.reason ++ [13, 10]) ++ (parts.fields.flatMap RequestHead.fieldText ++
        ([13, 10] ++ extra)) := by
    simp [text]
  have statusStart : (parts.version ++ [32]).length = parts.versionEnd + 1 := by
    simp [versionEnd]
  have reasonStart : (parts.version ++ [32] ++ parts.status ++ [32]).length =
      parts.statusEnd + 1 := by
    simp [statusEnd, versionEnd]
    omega
  have fieldsStart : (parts.version ++ [32] ++ parts.status ++ [32] ++ parts.reason ++
      [13, 10]).length = parts.reasonEnd + 2 := by
    simp [reasonEnd, statusEnd, versionEnd]
    omega
  have some_ : ∀ field ∈ parts.fields, field.1 ≠ [] := fun field member =>
    (grammatical.fields field member).1.1
  have first : ∀ parsed, (ClientToken.version 0 parts.versionEnd).deliver (parts.text ++ extra)
      parsed = .ok (parsed.update (·.setVersion v)) := fun _ => deliver_version known version
  have second : ∀ parsed, (ClientToken.status (parts.versionEnd + 1)).deliver (parts.text ++ extra)
      parsed = .ok (parsed.update (·.setStatus (longToInt
        (min (2 ^ 63 - 1) (Library.numeral 10 parts.status : Int))))) := by
    rw [← statusStart]
    exact fun _ => deliver_status grammatical.status.1 grammatical.status.2 status
  have third : ∀ parsed, (ClientToken.reason (parts.statusEnd + 1) parts.reasonEnd).deliver
      (parts.text ++ extra) parsed = .ok (parsed.update (·.setReason parts.reason)) := by
    rw [reasonEnd, ← reasonStart]
    exact fun _ => deliver_reason reason
  have others : ∀ parsed, (fieldTokens (parts.reasonEnd + 2) parts.fields).foldlM
      (ClientToken.deliver (parts.text ++ extra)) parsed = .ok (parsed.update fun response =>
        { response with headers := parts.fields.foldl setField response.headers }) := by
    rw [← fieldsStart]
    exact fun _ => deliver_fields some_ fields
  simp only [tokens, List.foldlM_append, List.foldlM_cons, List.foldlM_nil, first, second, third,
    bind, Except.bind, pure, Except.pure, others]
  rfl

/-- A head without chunks has no token for them. -/
theorem tokens_contains (parts : ResponseHead) : parts.tokens.contains .chunked = false := by
  have none_ : ∀ start fields, (fieldTokens start fields).contains .chunked = false := by
    intro start fields
    induction fields generalizing start with
    | nil => rfl
    | cons field fields inductionHypothesis => exact inductionHypothesis _
  rw [tokens, List.contains_append, none_]
  rfl

end ResponseHead

namespace HttpResponse

/-- The reason that is written. -/
def writtenReason (response : HttpResponse) : List UInt8 :=
  if response.reason = [] then httpStatusToString response.status else response.reason

/-- The fields that `dump` writes. -/
def dumpFields (close : Bool) (cookies : List (List UInt8)) (response : HttpResponse) :
    List (List UInt8 × List UInt8) :=
  (response.headers.toList.filter fun i => strcasecmp i.1 (bytes "connection") ≠ .eq) ++
    cookies.map (fun cookie => (bytes "Set-Cookie", cookie)) ++
    [(bytes "connection", if close then bytes "close" else bytes "keep-alive")] ++
    if response.body = [] then []
    else [(bytes "content-length", decimalText response.body.length)]

/-- The parts of the head that `dump` writes. -/
def dumpParts (close : Bool) (cookies : List (List UInt8)) (response : HttpResponse) :
    ResponseHead where
  version := if response.version = 0x11 then bytes "HTTP/1.1" else bytes "HTTP/1.0"
  status := decimalText (response.status % 2 ^ 32).toNat
  reason := response.writtenReason
  fields := response.dumpFields close cookies

/-- A response that can be sent: one whose parts the grammar derives, without a header for the
length, which `dump` makes up, and without chunks. -/
structure Sendable (cookies : List (List UInt8)) (response : HttpResponse) : Prop where
  version : response.version = 0x10 ∨ response.version = 0x11
  /-- An `int`. -/
  status : -2 ^ 31 ≤ response.status ∧ response.status < 2 ^ 31
  reason : ∀ byte ∈ response.reason, byte ≠ 13 ∧ byte ≠ 10
  headers : ∀ i ∈ response.headers.toList,
    (i.1 ≠ [] ∧ ∀ byte ∈ i.1, isToken byte = true) ∧ FieldValue i.2
  plain : ∀ i ∈ response.headers.toList, isTransferChunked i.1 i.2 = false
  contentLength : bytes "content-length" ∉ response.headers
  cookies : ∀ cookie ∈ cookies, FieldValue cookie
  /-- A `size_t`. -/
  size : response.body.length < 2 ^ 64

variable {response : HttpResponse} {close : Bool} {cookies : List (List UInt8)}

theorem httpStatusToString_line (s : Int) :
    httpStatusToString s ≠ [] ∧ ∀ byte ∈ httpStatusToString s, byte ≠ 13 ∧ byte ≠ 10 := by
  rw [httpStatusToString]
  cases found : httpStatusMap.lookup s with
  | none => decide
  | some text =>
      have all : ∀ entry ∈ httpStatusMap, entry.2 ≠ [] ∧ ∀ byte ∈ entry.2, byte ≠ 13 ∧ byte ≠ 10 := by
        decide +kernel
      obtain ⟨before, after, split, -⟩ := List.lookup_eq_some_iff.mp found
      have member : (s, text) ∈ httpStatusMap := by
        rw [split]
        exact List.mem_append_right _ List.mem_cons_self
      exact all _ member

/-- A number is a value. -/
theorem decimalText_value (n : Nat) : FieldValue (decimalText n) := by
  obtain ⟨some_, digits⟩ := decimalText_digits n
  have notBlank : ∀ byte ∈ decimalText n, byte ≠ 32 := by
    rintro byte digit rfl
    exact absurd (digits 32 digit) (by decide)
  refine ⟨some_, fun byte digit => ?_, fun blank => ?_, fun blank => ?_⟩
  · obtain ⟨above, below⟩ := digits byte digit
    have low : (32 : UInt8) ≤ byte := UInt8.le_trans (by decide) above
    have other : byte ≠ 127 := by
      rintro rfl
      exact absurd below (by decide)
    simp [isPrintable, low, other]
  · exact notBlank 32 (List.mem_of_mem_head? blank) rfl
  · exact notBlank 32 (List.mem_of_getLast? blank) rfl

/-- What holds of the headers, the cookies and the two headers that are made up holds of all
fields that are written. -/
theorem forall_dumpFields {property : List UInt8 × List UInt8 → Prop}
    (headers : ∀ i ∈ response.headers.toList, property i)
    (cookies' : ∀ cookie ∈ cookies, property (bytes "Set-Cookie", cookie))
    (connection : ∀ value ∈ [bytes "close", bytes "keep-alive"],
      property (bytes "connection", value))
    (length : ∀ n, property (bytes "content-length", decimalText n)) :
    ∀ field ∈ response.dumpFields close cookies, property field := by
  intro field member
  rcases List.mem_append.mp member with member | member
  · rcases List.mem_append.mp member with member | member
    · rcases List.mem_append.mp member with member | member
      · exact headers field (List.mem_of_mem_filter member)
      · obtain ⟨cookie, isCookie, rfl⟩ := List.mem_map.mp member
        exact cookies' cookie isCookie
    · rw [List.mem_singleton.mp member]
      cases close with
      | true => exact connection _ List.mem_cons_self
      | false => exact connection _ (.tail _ List.mem_cons_self)
  · split at member
    · cases member
    · rw [List.mem_singleton.mp member]
      exact length _

theorem Sendable.grammatical (sendable : response.Sendable cookies) :
    (response.dumpParts close cookies).Grammatical where
  version := by
    rw [dumpParts]
    split
    · exact .inr rfl
    · exact .inl rfl
  status := ⟨(decimalText_digits _).1, List.all_eq_true.mp (decimalText_isDigit _)⟩
  reason := by
    have written : response.writtenReason ≠ [] ∧
        ∀ byte ∈ response.writtenReason, byte ≠ 13 ∧ byte ≠ 10 := by
      rw [writtenReason]
      split
      · exact httpStatusToString_line _
      · rename_i present
        exact ⟨present, sendable.reason⟩
    exact written
  fields := by
    have names : ∀ name ∈ [bytes "Set-Cookie", bytes "connection", bytes "content-length"],
        name ≠ [] ∧ ∀ byte ∈ name, isToken byte = true := by decide
    refine forall_dumpFields sendable.headers (fun cookie member => ?_) (fun value known => ?_)
      fun n => ?_
    · exact ⟨names _ List.mem_cons_self, sendable.cookies cookie member⟩
    · refine ⟨names _ (.tail _ List.mem_cons_self), ?_⟩
      rcases List.mem_cons.mp known with rfl | known
      · exact ⟨by decide, by decide, by decide, by decide⟩
      · rw [List.mem_singleton.mp known]
        exact ⟨by decide, by decide, by decide, by decide⟩
    · exact ⟨names _ (.tail _ (.tail _ List.mem_cons_self)), decimalText_value n⟩
  plain := by
    have names : ∀ name ∈ [bytes "Set-Cookie", bytes "connection", bytes "content-length"],
        name.map tolower ≠ bytes "transfer-encoding" := by decide
    have other : ∀ name ∈ [bytes "Set-Cookie", bytes "connection", bytes "content-length"],
        ∀ value, isTransferChunked name value = false := by
      intro name known value
      simp [isTransferChunked, names name known]
    refine forall_dumpFields sendable.plain (fun cookie _ => ?_) (fun value _ => ?_) fun n => ?_
    · exact other _ List.mem_cons_self _
    · exact other _ (.tail _ List.mem_cons_self) _
    · exact other _ (.tail _ (.tail _ List.mem_cons_self)) _

theorem fieldText_eq (field : List UInt8 × List UInt8) :
    field.1 ++ bytes ": " ++ field.2 ++ bytes "\r\n" = RequestHead.fieldText field := by
  rw [List.append_assoc, List.append_assoc]
  rfl

/-- The lines of the headers, without the connection. -/
theorem headers_text (headers : MapType) :
    (headers.toList.flatMap fun i =>
      if !false && strcasecmp i.1 (bytes "connection") == .eq then []
      else i.1 ++ bytes ": " ++ i.2 ++ bytes "\r\n") =
      (headers.toList.filter fun i => strcasecmp i.1 (bytes "connection") ≠ .eq).flatMap
        RequestHead.fieldText := by
  induction headers.toList with
  | nil => rfl
  | cons i rest inductionHypothesis =>
      rw [List.flatMap_cons, inductionHypothesis, List.filter_cons]
      by_cases connection : strcasecmp i.1 (bytes "connection") = .eq
      · rw [if_pos (by simp [connection]), if_neg (by simp [connection])]
        rfl
      · rw [if_neg (by simpa using connection), if_pos (by simpa using connection),
          List.flatMap_cons, fieldText_eq]

/-- The line of the length, and the body. -/
theorem length_text (body : List UInt8) :
    (if body ≠ [] then
      bytes "content-length: " ++ decimalText body.length ++ bytes "\r\n\r\n" ++ body
    else bytes "\r\n") =
      (if body = [] then [] else [(bytes "content-length", decimalText body.length)]).flatMap
        RequestHead.fieldText ++ ([13, 10] ++ body) := by
  by_cases empty : body = []
  · rw [if_neg (not_not.mpr empty), if_pos empty, empty]
    rfl
  · rw [if_pos empty, if_neg empty, List.flatMap_singleton,
      ← fieldText_eq (bytes "content-length", decimalText body.length)]
    have ends : bytes "\r\n\r\n" = bytes "\r\n" ++ [13, 10] := by decide
    have begins : bytes "content-length: " = bytes "content-length" ++ bytes ": " := by decide
    simp only [ends, begins, List.append_assoc]

/-- The fields are written line by line, and the body behind an empty line. -/
theorem fields_text (close : Bool) (cookies : List (List UInt8)) (response : HttpResponse) :
    (response.headers.toList.flatMap fun i =>
      if !false && strcasecmp i.1 (bytes "connection") == .eq then []
      else i.1 ++ bytes ": " ++ i.2 ++ bytes "\r\n") ++
      ((cookies.flatMap fun i => bytes "Set-Cookie: " ++ i ++ bytes "\r\n") ++
      ((bytes "connection: " ++ (if close then bytes "close" else bytes "keep-alive") ++
        bytes "\r\n") ++
      (if response.body ≠ [] then
        bytes "content-length: " ++ decimalText response.body.length ++ bytes "\r\n\r\n" ++
          response.body
      else bytes "\r\n"))) =
      (response.dumpFields close cookies).flatMap RequestHead.fieldText ++ ([13, 10] ++
        response.body) := by
  have cookieBegins : bytes "Set-Cookie: " = bytes "Set-Cookie" ++ bytes ": " := by decide
  have connectionBegins : bytes "connection: " = bytes "connection" ++ bytes ": " := by decide
  have cookiesText : (cookies.flatMap fun i => bytes "Set-Cookie: " ++ i ++ bytes "\r\n") =
      (cookies.map fun cookie => (bytes "Set-Cookie", cookie)).flatMap RequestHead.fieldText := by
    rw [List.flatMap_map, cookieBegins]
    exact List.flatMap_congr fun cookie _ => fieldText_eq (bytes "Set-Cookie", cookie)
  have connection : bytes "connection: " ++ (if close then bytes "close" else bytes "keep-alive") ++
      bytes "\r\n" = RequestHead.fieldText (bytes "connection",
        if close then bytes "close" else bytes "keep-alive") := by
    rw [connectionBegins]
    exact fieldText_eq (bytes "connection", if close then bytes "close" else bytes "keep-alive")
  rw [headers_text, cookiesText, connection, length_text, dumpFields, List.flatMap_append,
    List.flatMap_append, List.flatMap_append, List.flatMap_singleton]
  simp only [List.append_assoc]

theorem Sendable.dump_eq (sendable : response.Sendable cookies) :
    response.dump close false cookies =
      (response.dumpParts close cookies).text ++ response.body := by
  have version : ∀ rest, bytes "HTTP/" ++ (decimalText (response.version >>> 4).toNat ++
      (bytes "." ++ (decimalText (response.version &&& 0x0F).toNat ++ rest))) =
        (if response.version = 0x11 then bytes "HTTP/1.1" else bytes "HTTP/1.0") ++ rest := by
    intro rest
    have text : bytes "HTTP/" ++ decimalText (response.version >>> 4).toNat ++ bytes "." ++
        decimalText (response.version &&& 0x0F).toNat =
          if response.version = 0x11 then bytes "HTTP/1.1" else bytes "HTTP/1.0" := by
      rcases sendable.version with version | version <;> rw [version] <;> decide
    rw [← text]
    simp only [List.append_assoc]
  have fields := response.fields_text close cookies
  unfold dump
  simp only [List.append_assoc, Bool.false_eq_true, if_false] at fields ⊢
  rw [version, fields]
  simp only [dumpParts, ResponseHead.text, writtenReason, List.append_assoc, List.cons_append]
  rfl

/-- The value of the header of the connection. -/
def connectionValue (close : Bool) : List UInt8 :=
  if close then bytes "close" else bytes "keep-alive"

/-- What comes back of a response but for its body. Of several cookies the last is kept, and the
two headers that `dump` makes up are there. -/
structure ComesBack (close : Bool) (cookies : List (List UInt8)) (sent received : HttpResponse) :
    Prop where
  status : received.status = sent.status
  version : received.version = sent.version
  reason : received.reason = sent.writtenReason
  connection : received.headers[bytes "connection"]? = some (connectionValue close)
  contentLength : received.headers[bytes "content-length"]? =
    if sent.body = [] then none else some (decimalText sent.body.length)
  cookie : received.headers[bytes "Set-Cookie"]? =
    cookies.getLast?.or sent.headers[bytes "Set-Cookie"]?
  headers : ∀ key, (∀ name ∈ [bytes "connection", bytes "content-length", bytes "Set-Cookie"],
    strcasecmp name key ≠ .eq) → received.headers[key]? = sent.headers[key]?

/-- The headers that come back. -/
def dumpHeaders (close : Bool) (cookies : List (List UInt8)) (response : HttpResponse) : MapType :=
  (response.dumpFields close cookies).foldl setField ∅

/-- The field of the length, found by its name. -/
theorem find?_length (body key : List UInt8) :
    (((if body = [] then []
      else [(bytes "content-length", decimalText body.length)]).reverse.find?
        (strcasecmp ·.1 key == .eq)).map Prod.snd) =
      if body ≠ [] ∧ strcasecmp (bytes "content-length") key = .eq then
        some (decimalText body.length)
      else none := by
  by_cases empty : body = []
  · simp [empty]
  · by_cases same : strcasecmp (bytes "content-length") key = .eq
    · simp [empty, same]
    · simp [empty, same]

/-- The last cookie, found by the name that all have. -/
theorem find?_cookies (cookies : List (List UInt8)) (key : List UInt8) :
    (((cookies.map fun cookie => (bytes "Set-Cookie", cookie)).reverse.find?
        (strcasecmp ·.1 key == .eq)).map Prod.snd) =
      if strcasecmp (bytes "Set-Cookie") key = .eq then cookies.getLast? else none := by
  rw [← List.map_reverse, ← List.head?_reverse]
  by_cases same : strcasecmp (bytes "Set-Cookie") key = .eq
  · cases cookies.reverse with
    | nil => simp [same]
    | cons cookie rest => simp [same]
  · rw [if_neg same, Option.map_eq_none_iff, List.find?_eq_none]
    rintro field member
    obtain ⟨cookie, -, rfl⟩ := List.mem_map.mp member
    simpa using same

/-- The headers that are written, found by a name other than that of the connection. -/
theorem find?_headers (headers : MapType) {key : List UInt8}
    (other : strcasecmp (bytes "connection") key ≠ .eq) :
    (((headers.toList.filter fun i => strcasecmp i.1 (bytes "connection") ≠ .eq).reverse.find?
        (strcasecmp ·.1 key == .eq)).map Prod.snd) = headers[key]? := by
  refine getElem?_of_find? fun i same => ?_
  have written : strcasecmp i.1 (bytes "connection") ≠ .eq := fun connection =>
    other (Std.TransCmp.eq_trans (Std.OrientedCmp.eq_symm connection) same)
  rw [List.mem_reverse, List.mem_filter]
  exact and_iff_left (decide_eq_true written)

/-- What the fields say about a name. -/
theorem getElem?_dumpHeaders (close : Bool) (cookies : List (List UInt8))
    (response : HttpResponse) (key : List UInt8) :
    (response.dumpHeaders close cookies)[key]? =
      if response.body ≠ [] ∧ strcasecmp (bytes "content-length") key = .eq then
        some (decimalText response.body.length)
      else if strcasecmp (bytes "connection") key = .eq then some (connectionValue close)
      else if strcasecmp (bytes "Set-Cookie") key = .eq then
        cookies.getLast?.or response.headers[key]?
      else response.headers[key]? := by
  have connection : [(bytes "connection", if close then bytes "close" else bytes "keep-alive")] =
      [(bytes "connection", connectionValue close)] := rfl
  rw [dumpHeaders, getElem?_foldl_setField, Std.ExtTreeMap.getElem?_empty, Option.or_none, dumpFields,
    connection]
  simp only [List.reverse_append, List.find?_append, Option.map_or, find?_length, find?_cookies]
  by_cases length : response.body ≠ [] ∧ strcasecmp (bytes "content-length") key = .eq
  · rw [if_pos length, if_pos length, Option.some_or]
  rw [if_neg length, if_neg length, Option.none_or]
  by_cases same : strcasecmp (bytes "connection") key = .eq
  · simp [same]
  · rw [if_neg same, find?_headers _ same]
    by_cases cookie : strcasecmp (bytes "Set-Cookie") key = .eq
    · simp [same, cookie]
    · simp [same, cookie]

/-- The status that is read from what was written of it. -/
theorem longToInt_decimalText {status : Int} (isInt : -2 ^ 31 ≤ status ∧ status < 2 ^ 31) :
    longToInt (min (2 ^ 63 - 1)
      (Library.numeral 10 (decimalText (status % 2 ^ 32).toNat) : Int)) = status := by
  have nonneg : 0 ≤ status % 2 ^ 32 := Int.emod_nonneg _ (by decide)
  have below : status % 2 ^ 32 < 2 ^ 32 := Int.emod_lt_of_pos _ (by decide)
  have reduced : (status % 2 ^ 32).bmod (2 ^ 32) = status.bmod (2 ^ 32) :=
    Int.emod_bmod status (2 ^ 32)
  rw [numeral_decimalText, Int.toNat_of_nonneg nonneg, min_eq_right (by omega), longToInt, reduced]
  exact Int.bmod_eq_of_le (by omega) (by omega)

/-- What the head of a response says when it comes back. -/
def received (close : Bool) (cookies : List (List UInt8)) (response : HttpResponse) :
    HttpResponse where
  status := response.status
  version := response.version
  body := []
  reason := response.writtenReason
  headers := response.dumpHeaders close cookies

theorem Sendable.comesBack (sendable : response.Sendable cookies) :
    ComesBack close cookies response (response.received close cookies) where
  status := rfl
  version := rfl
  reason := rfl
  connection := by
    have other : strcasecmp (bytes "content-length") (bytes "connection") ≠ .eq := by decide
    have same : strcasecmp (bytes "connection") (bytes "connection") = .eq := by decide
    rw [received, getElem?_dumpHeaders, if_neg (fun length => other length.2), if_pos same]
  contentLength := by
    have same : strcasecmp (bytes "content-length") (bytes "content-length") = .eq := by decide
    have connection : strcasecmp (bytes "connection") (bytes "content-length") ≠ .eq := by decide
    have cookie : strcasecmp (bytes "Set-Cookie") (bytes "content-length") ≠ .eq := by decide
    have absent : response.headers[bytes "content-length"]? = none :=
      Std.ExtTreeMap.getElem?_eq_none sendable.contentLength
    rw [received, getElem?_dumpHeaders, if_neg connection, if_neg cookie, absent]
    by_cases empty : response.body = []
    · rw [if_pos empty, if_neg fun length => length.1 empty]
    · rw [if_neg empty, if_pos ⟨empty, same⟩]
  cookie := by
    have length : strcasecmp (bytes "content-length") (bytes "Set-Cookie") ≠ .eq := by decide
    have connection : strcasecmp (bytes "connection") (bytes "Set-Cookie") ≠ .eq := by decide
    have same : strcasecmp (bytes "Set-Cookie") (bytes "Set-Cookie") = .eq := by decide
    rw [received, getElem?_dumpHeaders, if_neg (fun both => length both.2), if_neg connection,
      if_pos same]
  headers key other := by
    rw [received, getElem?_dumpHeaders,
      if_neg (fun both => other _ (.tail _ List.mem_cons_self) both.2),
      if_neg (other _ List.mem_cons_self),
      if_neg (other _ (.tail _ (.tail _ List.mem_cons_self)))]

end HttpResponse

namespace HttpConnection

variable {σ : Type} {machine : Machine ClientAct σ} {response : HttpResponse} {close : Bool}
  {cookies : List (List UInt8)}

/-- The head of a response that `dump` wrote is parsed to what comes back. -/
theorem recvHead_dumpParts (splits : SplitsResponses machine)
    (sendable : response.Sendable cookies) {buffSize : Nat} (size : buffSize < 2 ^ 31)
    {extra : List UInt8}
    (fits : ((response.dumpParts close cookies).text ++ extra).length ≤ buffSize)
    (rest : Connection) :
    ∃ p : HttpResponseParser σ, recvHead machine buffSize false [] (.new machine)
        (((response.dumpParts close cookies).text ++ extra) :: rest) =
          .ok (some (p, extra), rest) ∧
      p.data = response.received close cookies ∧ p.parser.chunked = false := by
  have known : response.version = 0x11 ∧
        (response.dumpParts close cookies).version = bytes "HTTP/1.1" ∨
      response.version = 0x10 ∧
        (response.dumpParts close cookies).version = bytes "HTTP/1.0" := by
    rcases sendable.version with version | version
    · refine .inr ⟨version, ?_⟩
      rw [HttpResponse.dumpParts, version]
      rfl
    · refine .inl ⟨version, ?_⟩
      rw [HttpResponse.dumpParts, version]
      rfl
  have grammatical : (response.dumpParts close cookies).Grammatical := sendable.grammatical
  have delivered := ResponseHead.tokens_deliver grammatical known extra
  obtain ⟨p, ran, parsed, chunked, -⟩ :=
    recvHead_first size fits rest (splits _ sendable.grammatical) delivered rfl
  refine ⟨p, ran, ?_, chunked.trans (ResponseHead.tokens_contains _)⟩
  have status : longToInt (min (2 ^ 63 - 1)
      (Library.numeral 10 (response.dumpParts close cookies).status : Int)) = response.status :=
    HttpResponse.longToInt_decimalText sendable.status
  rw [parsed, status]
  rfl

/-- A byte that is asked for when none is there comes alone. -/
theorem recvBody_fits {data : List UInt8} {connection : Connection}
    (single : data = [] → ∀ result ∈ connection.head?, result.length ≤ 1) :
    recvBody 1 data connection ≠ .error .overrun := by
  have unbuffered : recvBody 1 [] connection = (readFixSize 1 connection).bind
      fun answer => if answer.1 ≤ 0 then .ok (none, []) else .ok (some answer.2.1, answer.2.2) :=
    rfl
  rcases data with _ | ⟨first, _ | ⟨second, more⟩⟩
  · have read : ∃ answer, readFixSize 1 connection = .ok answer := by
      rcases connection with _ | ⟨_ | ⟨byte, _ | ⟨second, more⟩⟩, rest⟩
      · exact ⟨_, rfl⟩
      · exact ⟨_, rfl⟩
      · cases rest with
        | nil => exact ⟨_, rfl⟩
        | cons result rest => exact ⟨_, rfl⟩
      · have short := single rfl _ rfl
        simp only [List.length_cons] at short
        omega
    obtain ⟨answer, read⟩ := read
    rw [unbuffered, read, Except.bind]
    split
    · rintro ⟨⟩
    · rintro ⟨⟩
  · rintro ⟨⟩
  · rw [recvBody, if_pos Int.one_pos]
    simp only [List.length_cons]
    rw [if_neg (by omega), if_neg (by omega)]
    rintro ⟨⟩

/-- A response that `dump` wrote, when its head comes with the first result of `read`, is
received with its status, its version, its reason and its headers, and with no more than the first
byte of its body, which is decoded. When no byte of the body comes with the head, one byte is asked
for, and `read` returns no more. -/
theorem recvResponse_dump {lexicalCast : List UInt8 → Option UInt64}
    (gunzip inflate : List UInt8 → List UInt8) (splits : SplitsResponses machine)
    (casts : HttpRequest.CastsNumbers lexicalCast) (sendable : response.Sendable cookies)
    {buffSize : Nat} (size : buffSize < 2 ^ 31) {first : List UInt8} {rest : Connection}
    (nonempty : ∀ result ∈ rest, result ≠ [])
    (stream : (first :: rest).flatten = response.dump close false cookies)
    (whole : (response.dumpParts close cookies).text.length ≤ first.length)
    (fitsBuffer : first.length ≤ buffSize)
    (single : first.length = (response.dumpParts close cookies).text.length →
      ∀ result ∈ rest.head?, result.length ≤ 1) :
    ∃ head after, recvResponse machine lexicalCast gunzip inflate buffSize (first :: rest) =
        .ok (some (decode gunzip inflate head (response.body.take 1)), after) ∧
      HttpResponse.ComesBack close cookies response head ∧ head.body = [] := by
  rw [sendable.dump_eq, List.flatten_cons] at stream
  obtain ⟨extra, rfl, body⟩ : ∃ extra, first = (response.dumpParts close cookies).text ++ extra ∧
      response.body = extra ++ rest.flatten := by
    obtain ⟨extra, split⟩ := List.prefix_of_prefix_length_le
      (List.prefix_append _ response.body) ⟨rest.flatten, stream⟩ whole
    refine ⟨extra, split.symm, ?_⟩
    rw [← split, List.append_assoc] at stream
    exact (List.append_cancel_left stream).symm
  obtain ⟨p, ran, data, chunked⟩ := recvHead_dumpParts splits sendable size fitsBuffer rest
  have comesBack : HttpResponse.ComesBack close cookies response _ := sendable.comesBack
  refine ⟨p.data, ?_⟩
  simp only [recvResponse, ran, bind, Except.bind, chunked, Bool.false_eq_true, if_false]
  by_cases empty : response.body = []
  · have none_ : p.data.headers[bytes "content-length"]? = none := by
      rw [data, comesBack.contentLength, if_pos empty]
    have zero : (p.getContentLength lexicalCast).toInt64.toInt = 0 := by
      simp only [HttpResponseParser.getContentLength, HttpResponse.getHeaderAs, none_]
      rfl
    rw [zero, empty]
    exact ⟨rest, rfl, data ▸ comesBack, data ▸ rfl⟩
  · have positive := List.length_pos_iff.mpr empty
    have hasLength : HasLength lexicalCast p.data (.ofNat response.body.length) := by
      refine ⟨decimalText response.body.length, ?_, casts _ sendable.size⟩
      rw [data, comesBack.contentLength, if_neg empty]
    have some_ : UInt64.ofNat response.body.length ≠ 0 := by
      intro zero
      have same := congrArg UInt64.toNat zero
      rw [UInt64.toNat_ofNat_of_lt' sendable.size] at same
      exact Nat.ne_of_gt positive same
    have enough : 1 ≤ extra.length + rest.flatten.length := by
      rw [body, List.length_append] at positive
      exact positive
    have fits : recvBody 1 extra rest ≠ .error .overrun := by
      refine recvBody_fits fun nothing => single ?_
      rw [nothing, List.append_nil]
    obtain ⟨after, received⟩ := recvBody_one nonempty enough fits
    rw [getContentLength_eq hasLength, if_neg some_, received, body]
    exact ⟨after, rfl, data ▸ comesBack, data ▸ rfl⟩

/-- A response with a header, for two cookies. -/
def notFound : HttpResponse where
  status := 404
  version := 0x11
  body := bytes "ab"
  reason := []
  headers := (∅ : MapType).insert (bytes "x") (bytes "y")

theorem notFound_sendable : notFound.Sendable [bytes "a=1", bytes "b=2"] where
  version := .inr rfl
  status := by decide
  reason := by decide
  headers := by
    have known : notFound.headers.toList = [(bytes "x", bytes "y")] := rfl
    rw [known, List.forall_mem_singleton]
    exact ⟨⟨by decide, by decide⟩, by decide, by decide, by decide, by decide⟩
  plain := by
    have known : notFound.headers.toList = [(bytes "x", bytes "y")] := rfl
    rw [known, List.forall_mem_singleton]
    decide
  contentLength := by
    rw [notFound, Std.ExtTreeMap.mem_insert, not_or]
    exact ⟨by decide, Std.ExtTreeMap.not_mem_empty⟩
  cookies := by
    rw [List.forall_mem_cons, List.forall_mem_singleton]
    exact ⟨⟨by decide, by decide, by decide, by decide⟩,
      ⟨by decide, by decide, by decide, by decide⟩⟩
  size := by decide

theorem notFound_text : (notFound.dumpParts true [bytes "a=1", bytes "b=2"]).text =
    bytes ("HTTP/1.1 404 Not Found\r\nx: y\r\nSet-Cookie: a=1\r\nSet-Cookie: b=2\r\n" ++
      "connection: close\r\ncontent-length: 2\r\n\r\n") := by
  have fields : notFound.dumpFields true [bytes "a=1", bytes "b=2"] =
      [(bytes "x", bytes "y"), (bytes "Set-Cookie", bytes "a=1"), (bytes "Set-Cookie", bytes "b=2"),
        (bytes "connection", bytes "close"), (bytes "content-length", decimalText 2)] := rfl
  rw [HttpResponse.dumpParts, fields]
  decide

/-- A response of which the last byte comes later, and is not read. -/
theorem recvResponse_dump_notFound :
    ∃ head after, recvResponse lineMachine decimal id id 4096
        [(notFound.dumpParts true [bytes "a=1", bytes "b=2"]).text ++ bytes "a", bytes "b"] =
          .ok (some (decode id id head (bytes "a")), after) ∧
      HttpResponse.ComesBack true [bytes "a=1", bytes "b=2"] notFound head ∧ head.body = [] := by
  refine recvResponse_dump id id lineMachine_splits HttpRequest.castsNumbers_decimal
    notFound_sendable (by decide) ?_ ?_ ?_ ?_ ?_
  · rw [List.forall_mem_singleton]
    decide
  · rw [notFound_sendable.dump_eq, List.flatten_cons, List.append_assoc]
    rfl
  · rw [List.length_append]
    omega
  · rw [notFound_text]
    decide
  · intro nothing
    rw [List.length_append] at nothing
    exact absurd nothing (by simp [bytes])

end HttpConnection

end Sylar.Http
