import Mathlib.Algebra.Group.Nat.Defs
import Mathlib.Tactic.Common

/-!
# HTTP requests

`HttpRequest` of `http.h`, as far as `recvRequest` fills it in, with the C
functions on strings that its parts are compared with. A string is a list of
bytes.
-/

namespace Sylar.Http

/-- The bytes of a literal. -/
def bytes (literal : String) : List UInt8 := literal.toList.map fun char => char.toNat.toUInt8

/-- A text is searched by its length, not through all the bytes there are. -/
instance (priority := 2000) forallBytesDecidable {property : UInt8 → Prop}
    [DecidablePred property] (text : List UInt8) : Decidable (∀ byte ∈ text, property byte) :=
  List.decidableBAll property text

/-- What a C function sees of a string: the bytes before the first zero. -/
def cString (string : List UInt8) : List UInt8 := string.takeWhile (· != 0)

/-- `tolower` in the C locale. -/
def tolower (byte : UInt8) : UInt8 := if 65 ≤ byte ∧ byte ≤ 90 then byte + 32 else byte

/-- `strncmp(first, second, count) == 0`. -/
def strncmp : List UInt8 → List UInt8 → Nat → Bool
  | _, _, 0 => true
  | first, second, count + 1 =>
      first.headD 0 == second.headD 0 &&
        (first.headD 0 == 0 || strncmp first.tail second.tail count)

/-- What `strcasecmp` compares. -/
def caseFold (string : List UInt8) : List UInt8 := (cString string).map tolower

/-- `strcasecmp`, the order of `CaseInsensitiveLess`. -/
def strcasecmp (first second : List UInt8) : Ordering := compareOn caseFold first second

instance : Std.TransCmp strcasecmp := inferInstanceAs (Std.TransCmp (compareOn caseFold))

theorem strcasecmp_eq_iff {first second : List UInt8} :
    strcasecmp first second = .eq ↔ caseFold first = caseFold second := by
  simp [strcasecmp, compareOn]

/-- The methods of `HTTP_METHOD_MAP`, and `INVALID_METHOD`. -/
inductive HttpMethod where
  | delete | get | head | post | put
  | connect | options | trace
  | copy | lock | mkcol | move | propfind | proppatch | search | unlock | bind | rebind | unbind
  | acl
  | report | mkactivity | checkout | merge
  | msearch | notify | subscribe | unsubscribe
  | patch | purge
  | mkcalendar
  | link | unlink
  | source
  | invalidMethod
deriving DecidableEq, Repr

/-- `HTTP_METHOD_MAP`. -/
def httpMethodMap : List (HttpMethod × List UInt8) :=
  [(.delete, bytes "DELETE"), (.get, bytes "GET"), (.head, bytes "HEAD"), (.post, bytes "POST"),
    (.put, bytes "PUT"), (.connect, bytes "CONNECT"), (.options, bytes "OPTIONS"),
    (.trace, bytes "TRACE"), (.copy, bytes "COPY"), (.lock, bytes "LOCK"),
    (.mkcol, bytes "MKCOL"), (.move, bytes "MOVE"), (.propfind, bytes "PROPFIND"),
    (.proppatch, bytes "PROPPATCH"), (.search, bytes "SEARCH"), (.unlock, bytes "UNLOCK"),
    (.bind, bytes "BIND"), (.rebind, bytes "REBIND"), (.unbind, bytes "UNBIND"),
    (.acl, bytes "ACL"), (.report, bytes "REPORT"), (.mkactivity, bytes "MKACTIVITY"),
    (.checkout, bytes "CHECKOUT"), (.merge, bytes "MERGE"), (.msearch, bytes "M-SEARCH"),
    (.notify, bytes "NOTIFY"), (.subscribe, bytes "SUBSCRIBE"),
    (.unsubscribe, bytes "UNSUBSCRIBE"), (.patch, bytes "PATCH"), (.purge, bytes "PURGE"),
    (.mkcalendar, bytes "MKCALENDAR"), (.link, bytes "LINK"), (.unlink, bytes "UNLINK"),
    (.source, bytes "SOURCE")]

/-- `CharsToHttpMethod`. The end of a name is not compared, so that any text that
begins with a name is that method. -/
def charsToHttpMethod (chars : List UInt8) : HttpMethod :=
  ((httpMethodMap.find? fun (_, name) => strncmp name chars name.length).map
    Prod.fst).getD .invalidMethod

/-- `std::map<std::string, std::string, CaseInsensitiveLess>`. -/
abbrev MapType := Std.ExtTreeMap (List UInt8) (List UInt8) strcasecmp

/-- `HttpRequest`, without what `recvRequest` does not fill in. -/
structure HttpRequest where
  method : HttpMethod
  version : UInt8
  close : Bool
  path : List UInt8
  query : List UInt8
  fragment : List UInt8
  body : List UInt8
  headers : MapType

namespace HttpRequest

/-- The default arguments of the constructor, and what it sets. -/
def new : HttpRequest where
  method := .get
  version := 0x11
  close := true
  path := bytes "/"
  query := []
  fragment := []
  body := []
  headers := ∅

def setMethod (request : HttpRequest) (v : HttpMethod) : HttpRequest :=
  { request with method := v }

def setVersion (request : HttpRequest) (v : UInt8) : HttpRequest := { request with version := v }

def setPath (request : HttpRequest) (v : List UInt8) : HttpRequest := { request with path := v }

def setQuery (request : HttpRequest) (v : List UInt8) : HttpRequest := { request with query := v }

def setFragment (request : HttpRequest) (v : List UInt8) : HttpRequest :=
  { request with fragment := v }

def setBody (request : HttpRequest) (v : List UInt8) : HttpRequest := { request with body := v }

/-- `m_headers[key] = val`. A key that is there keeps its spelling. -/
def setHeader (request : HttpRequest) (key val : List UInt8) : HttpRequest :=
  { request with headers := request.headers.insert (request.headers.getKeyD key key) val }

def getHeader (request : HttpRequest) (key def_ : List UInt8) : List UInt8 :=
  request.headers.getD key def_

/-- `getHeaderAs<uint64_t>`, with `boost::lexical_cast<uint64_t>` as a parameter;
`none` when it throws. -/
def getHeaderAs (lexicalCast : List UInt8 → Option UInt64) (request : HttpRequest)
    (key : List UInt8) (def_ : UInt64) : UInt64 :=
  match request.headers[key]? with
  | none => def_
  | some val => (lexicalCast val).getD def_

/-- The connection is closed after the request unless the header says otherwise. -/
def init (request : HttpRequest) : HttpRequest :=
  let conn := request.getHeader (bytes "connection") []
  if conn = [] then request
  else { request with close := strcasecmp conn (bytes "keep-alive") != .eq }

end HttpRequest

end Sylar.Http
