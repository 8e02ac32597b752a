import Sylar.Library.Numerals
import Sylar.Uri.Grammar

/-!
# Uniform resource identifiers

`Uri::Create` of `uri.rl`, which runs the machine. A `const char*` into the string is what is
left of the string from there on, so that `fpc - mark` is a difference of lengths.
-/

namespace Sylar

open Library Library.Ragel UriParser
open Http (bytes)

/-- The members of a `Uri`, with the variable `mark` of `Uri::Create`. -/
structure Uri where
  scheme : List UInt8
  userinfo : List UInt8
  host : List UInt8
  path : List UInt8
  query : List UInt8
  fragment : List UInt8
  port : BitVec 32
deriving DecidableEq, Repr

namespace Uri

/-- How `Uri::Create` can fail other than with a null pointer. -/
inductive Fault where
  /-- `std::logic_error`: a string was made from a null pointer. -/
  | logicError
  /-- `atoi` was called with a null pointer. -/
  | nullPointer
deriving DecidableEq, Repr

/-- The local variables of `Uri::Create`. -/
structure Creation where
  mark : Option (List UInt8)
  uri : Uri
deriving DecidableEq, Repr

/-- The constructor. -/
def new : Uri := ⟨[], [], [], [], [], [], 0⟩

/-- `atoi`, which stops at the end of the C string. -/
def atoi (text : List UInt8) : BitVec 32 := BitVec.ofInt 32 (strtol 10 (Http.cString text))

/-- The text from `mark` up to `fpc`. -/
def between (mark fpc : List UInt8) : List UInt8 := mark.take (mark.length - fpc.length)

/-- `std::string(mark, fpc - mark)`. -/
def string (mark : Option (List UInt8)) (fpc : List UInt8) : Except Fault (List UInt8) :=
  match mark with
  | none => throw .logicError
  | some mark => pure (between mark fpc)

/-- The actions of `uri.rl`. -/
def act (fpc : List UInt8) (s : Creation) : Act → Except Fault Creation
  | .marku | .markh => pure { s with mark := some fpc }
  | .saveScheme => do
      let v ← string s.mark fpc
      pure ⟨none, { s.uri with scheme := v }⟩
  | .savePort =>
      match s.mark with
      | none => throw .nullPointer
      | some mark =>
          if fpc ≠ mark then pure ⟨none, { s.uri with port := atoi mark }⟩
          else pure { s with mark := none }
  | .saveUserinfo =>
      match s.mark with
      | none => pure s
      | some mark => pure ⟨none, { s.uri with userinfo := between mark fpc }⟩
  | .saveHost =>
      match s.mark with
      | none => pure s
      | some mark => pure { s with uri := { s.uri with host := between mark fpc } }
  | .savePath => do
      let v ← string s.mark fpc
      pure ⟨none, { s.uri with path := v }⟩
  | .saveQuery => do
      let v ← string s.mark fpc
      pure ⟨none, { s.uri with query := v }⟩
  | .saveFragment => do
      let v ← string s.mark fpc
      pure ⟨none, { s.uri with fragment := v }⟩

/-- `Uri::Create`; `none` is a null pointer. -/
def create (uristr : List UInt8) : Except Fault (Option Uri) := do
  let s ← run main.embedded act [main] uristr ⟨none, new⟩
  pure (s.map (·.uri))

/-- `getPath`, which has `/` for an empty path. -/
def getPath (uri : Uri) : List UInt8 := if uri.path = [] then bytes "/" else uri.path

/-- The port is 0 or the one of the scheme. -/
def isDefaultPort (uri : Uri) : Bool :=
  if uri.port = 0 then true
  else if uri.scheme = bytes "http" ∨ uri.scheme = bytes "ws" then uri.port == 80
  else if uri.scheme = bytes "https" ∨ uri.scheme = bytes "wss" then uri.port == 443
  else false

/-- `getPort`, with the port of the scheme in place of 0. -/
def getPort (uri : Uri) : BitVec 32 :=
  if uri.port ≠ 0 then uri.port
  else if uri.scheme = bytes "http" ∨ uri.scheme = bytes "ws" then 80
  else if uri.scheme = bytes "https" ∨ uri.scheme = bytes "wss" then 443
  else uri.port

/-- `std::to_string`. -/
def numberText (number : BitVec 32) : List UInt8 :=
  (if number.toInt < 0 then bytes "-" else []) ++ digitsText 10 number.toInt.natAbs

/-- `dump`, behind what the stream has. -/
def dump (os : List UInt8) (uri : Uri) : List UInt8 :=
  os ++ uri.scheme ++ bytes "://" ++
    uri.userinfo ++
    (if uri.userinfo = [] then [] else bytes "@") ++
    uri.host ++
    (if uri.isDefaultPort then [] else bytes ":" ++ numberText uri.port) ++
    uri.getPath ++
    (if uri.query = [] then [] else bytes "?") ++
    uri.query ++
    (if uri.fragment = [] then [] else bytes "#") ++
    uri.fragment

/-- `toString`. -/
def toString (uri : Uri) : List UInt8 := dump [] uri

end Uri

end Sylar
