import Mathlib.Algebra.Ring.Int.Defs
import Mathlib.Data.List.DropRight
import Sylar.Http.ResponseParser
import Sylar.Http.RoundTrip
import Sylar.Library.Lines

/-!
# The framing of messages that are written

`HttpRequest::dump` and `HttpResponse::dump` write the headers of the map, and for a
body that is not empty a line with its length, whatever the map has. A receiver takes
lines up to the first empty one.
-/

namespace Sylar.Http

open Library (lineEnd splitLines readHead readLines isDigit numeral)
open HttpRequest (decimalText_digits decimalText_isDigit numeral_decimalText)

/-- `HTTP_STATUS_MAP`. -/
def httpStatusMap : List (Int × List UInt8) :=
  [(100, bytes "Continue"), (101, bytes "Switching Protocols"), (102, bytes "Processing"),
    (200, bytes "OK"), (201, bytes "Created"), (202, bytes "Accepted"),
    (203, bytes "Non-Authoritative Information"), (204, bytes "No Content"),
    (205, bytes "Reset Content"), (206, bytes "Partial Content"), (207, bytes "Multi-Status"),
    (208, bytes "Already Reported"), (226, bytes "IM Used"), (300, bytes "Multiple Choices"),
    (301, bytes "Moved Permanently"), (302, bytes "Found"), (303, bytes "See Other"),
    (304, bytes "Not Modified"), (305, bytes "Use Proxy"), (307, bytes "Temporary Redirect"),
    (308, bytes "Permanent Redirect"), (400, bytes "Bad Request"), (401, bytes "Unauthorized"),
    (402, bytes "Payment Required"), (403, bytes "Forbidden"), (404, bytes "Not Found"),
    (405, bytes "Method Not Allowed"), (406, bytes "Not Acceptable"),
    (407, bytes "Proxy Authentication Required"), (408, bytes "Request Timeout"),
    (409, bytes "Conflict"), (410, bytes "Gone"), (411, bytes "Length Required"),
    (412, bytes "Precondition Failed"), (413, bytes "Payload Too Large"),
    (414, bytes "URI Too Long"), (415, bytes "Unsupported Media Type"),
    (416, bytes "Range Not Satisfiable"), (417, bytes "Expectation Failed"),
    (421, bytes "Misdirected Request"), (422, bytes "Unprocessable Entity"),
    (423, bytes "Locked"), (424, bytes "Failed Dependency"), (426, bytes "Upgrade Required"),
    (428, bytes "Precondition Required"), (429, bytes "Too Many Requests"),
    (431, bytes "Request Header Fields Too Large"), (451, bytes "Unavailable For Legal Reasons"),
    (500, bytes "Internal Server Error"), (501, bytes "Not Implemented"),
    (502, bytes "Bad Gateway"), (503, bytes "Service Unavailable"),
    (504, bytes "Gateway Timeout"), (505, bytes "HTTP Version Not Supported"),
    (506, bytes "Variant Also Negotiates"), (507, bytes "Insufficient Storage"),
    (508, bytes "Loop Detected"), (510, bytes "Not Extended"),
    (511, bytes "Network Authentication Required")]

/-- `HttpStatusToString`. -/
def httpStatusToString (s : Int) : List UInt8 := (httpStatusMap.lookup s).getD (bytes "<unknown>")

/-- The line of the length of a body. -/
def lengthLine (body : List UInt8) : List (List UInt8) :=
  if body = [] then [] else [bytes "content-length: " ++ decimalText body.length]

/-- The line of the connection. -/
def connectionLine (close : Bool) : List UInt8 :=
  bytes "connection: " ++ if close then bytes "close" else bytes "keep-alive"

/-- The lines of the headers, of which `connection` is left out but for a websocket. -/
def headerLines (websocket : Bool) (headers : MapType) : List (List UInt8) :=
  headers.toList.flatMap fun i =>
    if !websocket && strcasecmp i.1 (bytes "connection") == .eq then []
    else [i.1 ++ bytes ": " ++ i.2]

/-- A message of some lines and a body, as both functions write it. -/
def frame (lines : List (List UInt8)) (body : List UInt8) : List UInt8 :=
  (lines ++ lengthLine body).flatMap (· ++ lineEnd) ++ lineEnd ++ body

namespace HttpResponse

/-- `dump`. `m_close`, `m_websocket` and `m_cookies` are arguments. -/
def dump (close websocket : Bool) (cookies : List (List UInt8)) (response : HttpResponse) :
    List UInt8 :=
  bytes "HTTP/" ++
    decimalText (response.version >>> 4).toNat ++
    bytes "." ++
    decimalText (response.version &&& 0x0F).toNat ++
    bytes " " ++
    decimalText (response.status % 2 ^ 32).toNat ++
    bytes " " ++
    (if response.reason = [] then httpStatusToString response.status else response.reason) ++
    bytes "\r\n" ++
    (response.headers.toList.flatMap fun i =>
      if !websocket && strcasecmp i.1 (bytes "connection") == .eq then []
      else i.1 ++ bytes ": " ++ i.2 ++ bytes "\r\n") ++
    (cookies.flatMap fun i => bytes "Set-Cookie: " ++ i ++ bytes "\r\n") ++
    (if websocket then []
      else bytes "connection: " ++ (if close then bytes "close" else bytes "keep-alive") ++
        bytes "\r\n") ++
    (if response.body ≠ [] then
      bytes "content-length: " ++ decimalText response.body.length ++ bytes "\r\n\r\n" ++
        response.body
    else bytes "\r\n")

/-- The lines that `dump` writes for the parts of the response. -/
def dumpLines (close websocket : Bool) (cookies : List (List UInt8)) (response : HttpResponse) :
    List (List UInt8) :=
  (bytes "HTTP/" ++ decimalText (response.version >>> 4).toNat ++ bytes "." ++
    decimalText (response.version &&& 0x0F).toNat ++ bytes " " ++
    decimalText (response.status % 2 ^ 32).toNat ++ bytes " " ++
    if response.reason = [] then httpStatusToString response.status else response.reason) ::
  (headerLines websocket response.headers ++ cookies.map (bytes "Set-Cookie: " ++ ·) ++
    if websocket then [] else [connectionLine close])

end HttpResponse

namespace HttpRequest

/-- The lines that `dump` writes for the parts of the request. -/
def dumpLines (websocket : Bool) (request : HttpRequest) : List (List UInt8) :=
  (httpMethodToString request.method ++ bytes " " ++ request.path ++
    (if request.query = [] then [] else bytes "?") ++ request.query ++
    (if request.fragment = [] then [] else bytes "#") ++ request.fragment ++ bytes " HTTP/" ++
    decimalText (request.version >>> 4).toNat ++ bytes "." ++
    decimalText (request.version &&& 0x0F).toNat) ::
  ((if websocket then [] else [connectionLine request.close]) ++
    headerLines websocket request.headers)

end HttpRequest

/-- Blanks around a value. -/
def isBlank (byte : UInt8) : Bool := byte = 32 || byte = 9

/-- A line whose name is `content-length`, in capitals or not. -/
def isContentLength (line : List UInt8) : Bool :=
  line.contains 58 && (line.takeWhile (· ≠ 58)).map tolower = bytes "content-length"

/-- The number behind the colon of a line. -/
def lengthValue (line : List UInt8) : Option Nat :=
  let text := ((line.dropWhile (· ≠ 58)).tail.dropWhile isBlank).rdropWhile isBlank
  if text ≠ [] ∧ text.all (isDigit 10) then some (numeral 10 text) else none

/-- What a receiver must find in a message with a body: in front of the first empty line no more
than one content-length line, one if the body is not empty, and its value the number of bytes
that follow. -/
def Framed (text body : List UInt8) : Prop :=
  ∃ lines rest, readHead [] text = some (lines, rest) ∧
    (lines.filter isContentLength).length ≤ 1 ∧
    (∀ line ∈ lines.filter isContentLength, lengthValue line = some rest.length) ∧
    (body ≠ [] → lines.filter isContentLength ≠ [])

/-- The bytes behind the first empty line of a message of some lines, when one is empty. -/
def behindBlank (lines : List (List UInt8)) (body : List UInt8) : Nat :=
  ((lines.dropWhile (· ≠ [])).tail ++ lengthLine body).foldr (fun line n => line.length + 2 + n) 0 +
    2 + body.length

/-- Lines that a body can follow: there is no content-length line, or one that is 0 and an empty
body. When a line is empty, the head ends there, and all that follows counts. -/
def Framable (lines : List (List UInt8)) (body : List UInt8) : Prop :=
  let lengths := (lines.takeWhile (· ≠ [])).filter isContentLength
  if [] ∈ lines then
    (lengths = [] ∧ body = []) ∨
      ∃ line, lengths = [line] ∧ lengthValue line = some (behindBlank lines body)
  else if body = [] then
    lengths = [] ∨ ∃ line, lengths = [line] ∧ lengthValue line = some 0
  else lengths = []

section Written

variable {websocket : Bool} {body : List UInt8}

/-- The headers are written line by line. -/
theorem headerLines_text (websocket : Bool) (headers : MapType) :
    (headerLines websocket headers).flatMap (· ++ lineEnd) =
      headers.toList.flatMap fun i =>
        if !websocket && strcasecmp i.1 (bytes "connection") == .eq then []
        else i.1 ++ bytes ": " ++ i.2 ++ bytes "\r\n" := by
  rw [headerLines, List.flatMap_assoc]
  refine List.flatMap_congr fun i _ => ?_
  split
  · rfl
  · exact List.append_nil _

theorem lengthLine_text (body : List UInt8) :
    (lengthLine body).flatMap (· ++ lineEnd) ++ lineEnd ++ body =
      if body ≠ [] then
        bytes "content-length: " ++ decimalText body.length ++ bytes "\r\n\r\n" ++ body
      else bytes "\r\n" := by
  unfold lengthLine
  by_cases empty : body = []
  · subst empty
    rfl
  · rw [if_neg empty, if_pos empty, List.flatMap_singleton]
    have ends : bytes "\r\n\r\n" = lineEnd ++ lineEnd := by decide
    simp only [ends, List.append_assoc]

theorem connectionLine_text (websocket close : Bool) :
    (if websocket then [] else [connectionLine close]).flatMap (· ++ lineEnd) =
      if websocket then []
      else bytes "connection: " ++ (if close then bytes "close" else bytes "keep-alive") ++
        bytes "\r\n" := by
  cases websocket with
  | true => rfl
  | false => exact List.append_nil _

theorem frame_eq (lines : List (List UInt8)) (body : List UInt8) :
    frame lines body = lines.flatMap (· ++ lineEnd) ++
      if body ≠ [] then
        bytes "content-length: " ++ decimalText body.length ++ bytes "\r\n\r\n" ++ body
      else bytes "\r\n" := by
  rw [← lengthLine_text, frame, List.flatMap_append]
  simp only [List.append_assoc]

theorem HttpRequest.dump_eq (websocket : Bool) (request : HttpRequest) :
    request.dump websocket = frame (request.dumpLines websocket) request.body := by
  have ends : lineEnd = bytes "\r\n" := by decide
  rw [frame_eq, HttpRequest.dumpLines, List.flatMap_cons, List.flatMap_append, headerLines_text,
    connectionLine_text, ends]
  unfold HttpRequest.dump HttpRequest.dumpHead
  by_cases empty : request.body = []
  · rw [if_neg (not_not.mpr empty), if_neg (not_not.mpr empty), empty, List.append_nil]
    simp only [List.append_assoc]
  · rw [if_pos empty, if_pos empty]
    simp only [List.append_assoc]

theorem HttpResponse.dump_eq (close websocket : Bool) (cookies : List (List UInt8))
    (response : HttpResponse) :
    response.dump close websocket cookies =
      frame (response.dumpLines close websocket cookies) response.body := by
  have ends : lineEnd = bytes "\r\n" := by decide
  rw [frame_eq, HttpResponse.dumpLines, List.flatMap_cons, List.flatMap_append,
    List.flatMap_append, headerLines_text, connectionLine_text, List.flatMap_map, ends]
  unfold HttpResponse.dump
  simp only [List.append_assoc]

end Written

section Read

variable {lines : List (List UInt8)} {body : List UInt8}

theorem decimalText_notMem {byte : UInt8} (n : Nat) (other : byte < 48) : byte ∉ decimalText n := by
  intro member
  exact absurd ((decimalText_digits n).2 byte member).1 (UInt8.not_le.mpr other)

/-- The line that is written for a body is one with its length. -/
theorem lengthLine_filter (body : List UInt8) :
    (lengthLine body).filter isContentLength = lengthLine body := by
  unfold lengthLine
  split
  · rfl
  · rfl

/-- A number is no blank. -/
theorem decimalText_trim (n : Nat) :
    ((decimalText n).dropWhile isBlank).rdropWhile isBlank = decimalText n := by
  have notBlank : ∀ byte ∈ decimalText n, ¬isBlank byte = true := by
    intro byte member blank
    have above := ((decimalText_digits n).2 byte member).1
    rcases Bool.or_eq_true_iff.mp blank with blank | blank
    · rw [of_decide_eq_true blank] at above
      exact absurd above (by decide)
    · rw [of_decide_eq_true blank] at above
      exact absurd above (by decide)
  rw [List.dropWhile_eq_self_iff.mpr fun _ => notBlank _ (List.getElem_mem _),
    List.rdropWhile_eq_self_iff.mpr fun _ => notBlank _ (List.getLast_mem _)]

theorem lengthLine_value {line : List UInt8} (member : line ∈ lengthLine body) :
    lengthValue line = some body.length := by
  unfold lengthLine at member
  split at member
  · cases member
  · obtain rfl := List.mem_singleton.mp member
    change (if ((decimalText body.length).dropWhile isBlank).rdropWhile isBlank ≠ [] ∧
        (((decimalText body.length).dropWhile isBlank).rdropWhile isBlank).all (isDigit 10) then
      some (numeral 10 (((decimalText body.length).dropWhile isBlank).rdropWhile isBlank))
      else none) = _
    rw [decimalText_trim, if_pos ⟨(decimalText_digits _).1, decimalText_isDigit _⟩,
      numeral_decimalText]

/-- The line that is written for a body, and the body. -/
theorem readHead_lengthLine (body : List UInt8) :
    readHead [] ((lengthLine body).flatMap (· ++ lineEnd) ++ (lineEnd ++ body)) =
      some (lengthLine body, body) := by
  have lines : (lengthLine body).flatMap (splitLines []) = lengthLine body := by
    unfold lengthLine
    split
    · rfl
    · rw [List.flatMap_singleton, Library.splitLines_of_notMem, List.nil_append]
      rw [List.mem_append, not_or]
      exact ⟨by decide, decimalText_notMem _ (by decide)⟩
  have some_ : [] ∉ lengthLine body := by
    unfold lengthLine
    split
    · exact List.not_mem_nil
    · rw [List.mem_singleton]
      exact nofun
  rw [Library.readHead_flatMap, lines, Library.readLines_of_notMem some_]
  change some (lengthLine body ++ [], body) = _
  rw [List.append_nil]

/-- What a receiver takes for the head of a message and for what follows. -/
theorem readHead_frame (lines : List (List UInt8)) (body : List UInt8) :
    readHead [] (frame lines body) =
      readLines ((lengthLine body).flatMap (· ++ lineEnd) ++ (lineEnd ++ body))
        (lines.flatMap (splitLines [])) := by
  rw [← Library.readHead_flatMap, frame, List.flatMap_append]
  simp only [List.append_assoc]

theorem behindBlank_eq (lines : List (List UInt8)) (body : List UInt8) :
    ((lines.dropWhile (· ≠ [])).tail.flatMap (· ++ lineEnd) ++
      ((lengthLine body).flatMap (· ++ lineEnd) ++ (lineEnd ++ body))).length =
        behindBlank lines body := by
  have counts : ∀ texts : List (List UInt8), (texts.flatMap (· ++ lineEnd)).length =
      texts.foldr (fun line n => line.length + 2 + n) 0 := by
    intro texts
    induction texts with
    | nil => rfl
    | cons text texts inductionHypothesis =>
        rw [List.flatMap_cons, List.length_append, List.length_append, inductionHypothesis]
        rfl
  rw [behindBlank, ← counts, List.flatMap_append]
  simp only [List.length_append]
  change _ + (_ + (2 + _)) = _
  omega

/-- No more than one line, and one that has the value. -/
theorem oneLength_iff {found : List (List UInt8)} {n : Nat} :
    (found.length ≤ 1 ∧ (∀ line ∈ found, lengthValue line = some n) ∧ (body ≠ [] → found ≠ [])) ↔
      (found = [] ∧ body = []) ∨ ∃ line, found = [line] ∧ lengthValue line = some n := by
  rcases found with _ | ⟨line, _ | ⟨second, more⟩⟩
  · simp
  · simp
  · simp

theorem framed_iff_read {text : List UInt8} {rest : List UInt8}
    (read : readHead [] text = some (lines, rest)) :
    Framed text body ↔ (lines.filter isContentLength = [] ∧ body = []) ∨
      ∃ line, lines.filter isContentLength = [line] ∧ lengthValue line = some rest.length := by
  rw [← oneLength_iff]
  constructor
  · rintro ⟨lines, rest, same, found⟩
    cases read.symm.trans same
    exact found
  · exact fun found => ⟨lines, rest, read, found⟩

theorem framed_frame_iff (lines : List (List UInt8)) (body : List UInt8) :
    Framed (frame lines body) body ↔ Framable (lines.flatMap (splitLines [])) body := by
  have read := readHead_frame lines body
  generalize lines.flatMap (splitLines []) = lines at read ⊢
  unfold Framable
  by_cases blank : [] ∈ lines
  · rw [Library.readLines_of_mem blank] at read
    rw [if_pos blank, framed_iff_read read, behindBlank_eq]
  · rw [Library.readLines_of_notMem blank, readHead_lengthLine] at read
    rw [if_neg blank, framed_iff_read read, List.filter_append, lengthLine_filter]
    have all : lines.takeWhile (· ≠ []) = lines :=
      List.takeWhile_eq_self_iff.mpr fun line member =>
        decide_eq_true fun empty => blank (empty ▸ member)
    rw [all]
    by_cases empty : body = []
    · subst empty
      rw [if_pos rfl, lengthLine, if_pos rfl, List.append_nil, List.length_nil]
      simp only [and_true]
    · obtain ⟨line, written⟩ : ∃ line, lengthLine body = [line] := ⟨_, if_neg empty⟩
      rw [if_neg empty]
      constructor
      · rintro (⟨_, same⟩ | ⟨_, one, _⟩)
        · exact absurd same empty
        · rw [written, ← List.nil_append [_]] at one
          exact (List.append_inj_left' one rfl)
      · intro without
        rw [without, written]
        exact .inr ⟨line, rfl, lengthLine_value (written ▸ List.mem_singleton_self line)⟩

end Read

/-- A receiver finds the body of what either `dump` writes, if and only if the parts of the message
bring no content-length line themselves, or the right one to an empty body, or end the head with an
empty line behind one that counts all the rest. -/
theorem framed_iff (request : HttpRequest) (response : HttpResponse)
    (cookies : List (List UInt8)) (websocket close : Bool) :
    (Framed (request.dump websocket) request.body ↔
      Framable ((request.dumpLines websocket).flatMap (splitLines [])) request.body) ∧
    (Framed (response.dump close websocket cookies) response.body ↔
      Framable ((response.dumpLines close websocket cookies).flatMap (splitLines []))
        response.body) := by
  constructor
  · rw [request.dump_eq, framed_frame_iff]
  · rw [response.dump_eq, framed_frame_iff]

/-- A request that was parsed, and has got a longer body. -/
def edited : HttpRequest :=
  { HttpRequest.new with
    method := .post
    headers := (∅ : MapType).insert (bytes "Content-Length") (bytes "2")
    body := bytes "abc" }

theorem edited_twice : ¬Framed (edited.dump false) edited.body := by
  have lines : (edited.dumpLines false).flatMap (splitLines []) =
      [bytes "POST / HTTP/1.1", bytes "connection: close", bytes "Content-Length: 2"] := by decide
  rw [edited.dump_eq, framed_frame_iff, lines, Framable, if_neg (by decide), if_neg (by decide)]
  decide

end Sylar.Http
