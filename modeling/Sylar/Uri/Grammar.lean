import Sylar.Http.Request
import Sylar.Library.Ragel.Machine

/-!
# The grammar of identifiers

The machine `uri_parser` of `uri.rl`.
-/

namespace Sylar.UriParser

open Library.Ragel Library.Ragel.Machine
open Http (bytes)

/-- The actions of `uri.rl`. -/
inductive Act where
  | marku | markh
  | saveScheme | savePort | saveUserinfo | saveHost | savePath | saveQuery | saveFragment
deriving DecidableEq, Repr

section Grammar

variable {α : Type}

/-- `alpha`. -/
def isAlpha (byte : UInt8) : Bool := (65 ≤ byte && byte ≤ 90) || (97 ≤ byte && byte ≤ 122)

/-- `digit`. -/
def isDigit (byte : UInt8) : Bool := 48 ≤ byte && byte ≤ 57

/-- `xdigit`. -/
def isXdigit (byte : UInt8) : Bool :=
  isDigit byte || (65 ≤ byte && byte ≤ 70) || (97 ≤ byte && byte ≤ 102)

/-- `sub_delims`. -/
def isSubDelim (byte : UInt8) : Bool := (bytes "!$&'()*+,;=").contains byte

/-- `unreserved`. -/
def isUnreserved (byte : UInt8) : Bool :=
  isAlpha byte || isDigit byte || (bytes "-._~").contains byte

/-- `any -- ascii`. -/
def isForeign (byte : UInt8) : Bool := 128 ≤ byte

/-- A single byte. -/
def char (byte : UInt8) : Machine UInt8 α := one (· == byte)

/-- `":"`. -/
def colon : Machine UInt8 α := char 58

/-- `"/"`. -/
def slash : Machine UInt8 α := char 47

/-- One `digit`. -/
def digit : Machine UInt8 α := one isDigit

/-- One `xdigit`. -/
def xdigit : Machine UInt8 α := one isXdigit

/-- `"%" xdigit xdigit`. -/
def pctEncoded : Machine UInt8 α := cat (char 37) (cat xdigit xdigit)

/-- `alpha (alpha | digit | "+" | "-" | ".")*`. -/
def schemeText : Machine UInt8 α :=
  cat (one isAlpha)
    (star (one fun byte => isAlpha byte || isDigit byte || (bytes "+-.").contains byte))

/-- `scheme`, with `>marku %save_scheme`. -/
def scheme : Machine UInt8 Act := leaving .saveScheme (entering .marku schemeText)

/-- `(unreserved | pct_encoded | sub_delims | ":")*`. -/
def userinfo : Machine UInt8 α :=
  star (alt (one isUnreserved) (alt pctEncoded (alt (one isSubDelim) colon)))

/-- In the fourth alternative the source has the number 2, which is a byte, and not the
digit. -/
def decOctet : Machine UInt8 α :=
  alt digit
    (alt (cat (one fun byte => 49 ≤ byte && byte ≤ 57) digit)
      (alt (cat (char 49) (cat digit digit))
        (alt (cat (char 2) (cat (one fun byte => 48 ≤ byte && byte ≤ 52) digit))
          (cat (char 50) (cat (char 53) (one fun byte => 48 ≤ byte && byte ≤ 53))))))

/-- `IPv4address`, four numbers with points between them. -/
def ipv4address : Machine UInt8 α :=
  cat decOctet (cat (char 46) (cat decOctet (cat (char 46) (cat decOctet
    (cat (char 46) decOctet)))))

/-- `xdigit{1,4}`. -/
def h16 : Machine UInt8 α := cat xdigit (upTo 3 xdigit)

/-- `(h16 ":" h16) | IPv4address`. -/
def ls32 : Machine UInt8 α := alt (cat h16 (cat colon h16)) ipv4address

/-- `(h16 ":"){count}` in front of `rest`. -/
def groups (count : Nat) (rest : Machine UInt8 α) : Machine UInt8 α :=
  times count (cat h16 colon) rest

/-- `"::"` in front of `rest`. -/
def elided (rest : Machine UInt8 α) : Machine UInt8 α := cat colon (cat colon rest)

/-- `IPv6address`, its nine alternatives. -/
def ipv6address : Machine UInt8 α :=
  alt (groups 6 ls32)
    (alt (elided (groups 5 ls32))
      (alt (cat (opt h16) (elided (groups 4 ls32)))
        (alt (cat (opt (groups 1 h16)) (elided (groups 3 ls32)))
          (alt (cat (opt (groups 2 h16)) (elided (groups 2 ls32)))
            (alt (cat (opt (groups 3 h16)) (elided (groups 1 ls32)))
              (alt (cat (opt (groups 4 h16)) (elided ls32))
                (alt (cat (opt (groups 5 h16)) (elided h16))
                  (cat (opt (groups 6 h16)) (elided lambda)))))))))

/-- `"v" xdigit+ "." (unreserved | sub_delims | ":")+`. -/
def ipvFuture : Machine UInt8 α :=
  cat (char 118) (cat (plus xdigit) (cat (char 46)
    (plus (alt (one isUnreserved) (alt (one isSubDelim) colon)))))

/-- `"[" (IPv6address | IPvFuture) "]"`. -/
def ipLiteral : Machine UInt8 α := cat (char 91) (cat (alt ipv6address ipvFuture) (char 93))

/-- `(unreserved | pct_encoded | sub_delims)*`. -/
def regName : Machine UInt8 α := star (alt (one isUnreserved) (alt pctEncoded (one isSubDelim)))

/-- `IP_literal | IPv4address | reg_name`. -/
def host : Machine UInt8 α := alt ipLiteral (alt ipv4address regName)

/-- `digit*`. -/
def port : Machine UInt8 α := star digit

/-- `(userinfo %save_userinfo "@")?`. -/
def userinfoPart : Machine UInt8 Act := opt (cat (leaving .saveUserinfo userinfo) (char 64))

/-- `host >markh %save_host`. -/
def hostPart : Machine UInt8 Act := leaving .saveHost (entering .markh host)

/-- `(":" port >markh %save_port)?`. -/
def portPart : Machine UInt8 Act := opt (cat colon (leaving .savePort (entering .markh port)))

/-- `authority`, with `>markh` around the three parts. -/
def authority : Machine UInt8 Act := entering .markh (cat userinfoPart (cat hostPart portPart))

/-- `(any -- ascii) | unreserved | pct_encoded | sub_delims | ":" | "@"`. -/
def pchar : Machine UInt8 α :=
  alt (one isForeign) (alt (one isUnreserved) (alt pctEncoded (alt (one isSubDelim)
    (alt colon (char 64)))))

/-- `pchar - ":"`. -/
def pcharNc : Machine UInt8 α :=
  alt (one isForeign) (alt (one isUnreserved) (alt pctEncoded (alt (one isSubDelim) (char 64))))

/-- `pchar*`. -/
def segment : Machine UInt8 α := star pchar

/-- `pchar+`. -/
def segmentNz : Machine UInt8 α := plus pchar

/-- `(pchar - ":")+`. -/
def segmentNzNc : Machine UInt8 α := plus pcharNc

/-- `("/" segment)*`. -/
def segments : Machine UInt8 α := star (cat slash segment)

/-- `(("/" segment))? ("/" segment)*`. -/
def pathAbempty : Machine UInt8 α := cat (opt (cat slash segment)) segments

/-- `"/" (segment_nz ("/" segment)*)?`. -/
def pathAbsolute : Machine UInt8 α := cat slash (opt (cat segmentNz segments))

/-- `segment_nz_nc ("/" segment)*`. -/
def pathNoscheme : Machine UInt8 α := cat segmentNzNc segments

/-- `segment_nz ("/" segment)*`. -/
def pathRootless : Machine UInt8 α := cat segmentNz segments

/-- `""`. -/
def pathEmpty : Machine UInt8 α := lambda

/-- The text of `query` and of `fragment`. -/
def queryText : Machine UInt8 α := star (alt pchar (alt slash (char 63)))

/-- `query`, with `>marku %save_query`. -/
def query : Machine UInt8 Act := leaving .saveQuery (entering .marku queryText)

/-- `fragment`, with `>marku %save_fragment`. -/
def fragment : Machine UInt8 Act := leaving .saveFragment (entering .marku queryText)

/-- `( "?" query )? ( "#" fragment )?`. -/
def queryPart : Machine UInt8 Act :=
  cat (opt (cat (char 63) query)) (opt (cat (char 35) fragment))

/-- `hier_part`. Only the path behind an authority is saved. -/
def hierPart : Machine UInt8 Act :=
  alt (cat slash (cat slash (cat authority (leaving .savePath (entering .markh pathAbempty)))))
    (alt pathAbsolute (alt pathRootless pathEmpty))

/-- `relative_part`. No path is saved. -/
def relativePart : Machine UInt8 Act :=
  alt (cat slash (cat slash (cat authority pathAbempty)))
    (alt pathAbsolute (alt pathNoscheme pathEmpty))

/-- `relative_ref`. -/
def relativeRef : Machine UInt8 Act := cat relativePart queryPart

/-- `URI`. -/
def absolute : Machine UInt8 Act := cat scheme (cat colon (cat hierPart queryPart))

/-- `URI_reference`. -/
def uriReference : Machine UInt8 Act := alt absolute relativeRef

end Grammar

/-- `main`, with the numbers of its actions. -/
def main : Machine UInt8 (Nat × Act) := (uriReference.number 0).1

end Sylar.UriParser
