import Sylar.Library.Ragel.Language
import Sylar.Library.Transition
import Sylar.Uri.Model

/-!
# References and their components

What `Uri::Create` is for: a reference that is put together from components of the grammar is
taken apart again.
-/

namespace Sylar.Uri

open Library Library.Ragel UriParser
open Http (bytes)

/-- A text of bytes. -/
abbrev Text := List UInt8

/-- What is in front of the path. -/
inductive Front where
  /-- `scheme://[userinfo@]host[:port]`. -/
  | authority (scheme : Text) (userinfo : Option Text) (host : Text) (port : Option Text)
  /-- `scheme:`. -/
  | plain (scheme : Text)
  /-- Nothing, in a relative reference without authority. -/
  | relative
deriving DecidableEq, Repr

/-- A reference by its parts. A part that is not there is `none`. -/
structure Reference where
  front : Front
  path : Text
  query : Option Text
  fragment : Option Text
deriving DecidableEq, Repr

/-- A component behind its sign. -/
def part (sign : UInt8) : Option Text → Text
  | none => []
  | some component => sign :: component

/-- `[userinfo@]`. -/
def userinfoText : Option Text → Text
  | none => []
  | some userinfo => userinfo ++ [64]

/-- The text of a front. -/
def Front.text : Front → Text
  | .authority scheme userinfo host port =>
      scheme ++ 58 :: 47 :: 47 :: (userinfoText userinfo ++ (host ++ part 58 port))
  | .plain scheme => scheme ++ [58]
  | .relative => []

/-- `["?" query] ["#" fragment]`. -/
def Reference.tail (r : Reference) : Text := part 63 r.query ++ part 35 r.fragment

/-- The text of a reference. -/
def Reference.text (r : Reference) : Text := r.front.text ++ (r.path ++ r.tail)

/-- The text is one that the expression describes. -/
def Fits (expression : Machine UInt8 (Nat × Act)) (text : Text) : Prop :=
  accepts [expression] text = true

instance (expression : Machine UInt8 (Nat × Act)) (text : Text) :
    Decidable (Fits expression text) := inferInstanceAs (Decidable (_ = _))

/-- A path behind a scheme without authority. -/
def rootedPath {α : Type} : Machine UInt8 α := .alt pathAbsolute (.alt pathRootless pathEmpty)

/-- A path of a relative reference without authority. -/
def relativePath {α : Type} : Machine UInt8 α := .alt pathAbsolute (.alt pathNoscheme pathEmpty)

/-- The components in front of the path are those of the grammar, and the path is one that can
stand behind them. -/
def Front.Grammatical (path : Text) : Front → Prop
  | .authority scheme userinfo host port =>
      Fits schemeText scheme ∧ (∀ u ∈ userinfo, Fits UriParser.userinfo u) ∧
        Fits UriParser.host host ∧
        (∀ p ∈ port, Fits UriParser.port p ∧ numeral 10 p < 2 ^ 31) ∧ Fits pathAbempty path
  | .plain scheme => Fits schemeText scheme ∧ Fits rootedPath path
  | .relative => Fits relativePath path

/-- Each part is one of the grammar. -/
structure Reference.Grammatical (r : Reference) : Prop where
  front : r.front.Grammatical r.path
  query : ∀ q ∈ r.query, Fits queryText q
  fragment : ∀ f ∈ r.fragment, Fits queryText f

instance (path : Text) : (front : Front) → Decidable (front.Grammatical path)
  | .authority .. => inferInstanceAs (Decidable (_ ∧ _))
  | .plain _ => inferInstanceAs (Decidable (_ ∧ _))
  | .relative => inferInstanceAs (Decidable (Fits _ _))

instance (r : Reference) : Decidable r.Grammatical :=
  decidable_of_iff (r.front.Grammatical r.path ∧ (∀ q ∈ r.query, Fits queryText q) ∧
      ∀ f ∈ r.fragment, Fits queryText f)
    ⟨fun all => ⟨all.1, all.2.1, all.2.2⟩, fun all => ⟨all.front, all.query, all.fragment⟩⟩

/-- The port of a front. -/
def Front.port : Front → Option Text
  | .authority _ _ _ port => port
  | .plain _ | .relative => none

/-- A front without its port. -/
def Front.portless : Front → Front
  | .authority scheme userinfo host _ => .authority scheme userinfo host none
  | .plain scheme => .plain scheme
  | .relative => .relative

/-- A reference without its port. -/
def Reference.portless (r : Reference) : Reference :=
  ⟨r.front.portless, r.path, r.query, r.fragment⟩

/-- A reference of the grammar, with a port of any size. -/
structure Reference.Shaped (r : Reference) : Prop where
  portless : r.portless.Grammatical
  port : ∀ p ∈ r.front.port, Fits UriParser.port p

/-- The digits of the port are a number below 2^31. -/
def Reference.SmallPort (r : Reference) : Prop := ∀ p ∈ r.front.port, numeral 10 p < 2 ^ 31

variable {r : Reference}

/-- Of the shape, with a small port, is in the grammar. -/
theorem Reference.Shaped.grammatical (shaped : r.Shaped) (small : r.SmallPort) :
    r.Grammatical := by
  obtain ⟨front, path, query, fragment⟩ := r
  obtain ⟨⟨fits, fitsQuery, fitsFragment⟩, fitsPort⟩ := shaped
  refine ⟨?_, fitsQuery, fitsFragment⟩
  cases front with
  | authority scheme userinfo host port =>
      obtain ⟨fitsScheme, fitsUser, fitsHost, -, fitsPath⟩ := fits
      exact ⟨fitsScheme, fitsUser, fitsHost, fun p member => ⟨fitsPort p member, small p member⟩,
        fitsPath⟩
  | plain | relative => exact fits

/-- A reference in the grammar is of its shape. -/
theorem Reference.Grammatical.shaped (grammatical : r.Grammatical) : r.Shaped := by
  obtain ⟨front, path, query, fragment⟩ := r
  obtain ⟨fits, fitsQuery, fitsFragment⟩ := grammatical
  cases front with
  | authority scheme userinfo host port =>
      obtain ⟨fitsScheme, fitsUser, fitsHost, fitsPort, fitsPath⟩ := fits
      exact ⟨⟨⟨fitsScheme, fitsUser, fitsHost, by rintro p ⟨⟩, fitsPath⟩, fitsQuery, fitsFragment⟩,
        fun p member => (fitsPort p member).1⟩
  | plain | relative => exact ⟨⟨fits, fitsQuery, fitsFragment⟩, by rintro p ⟨⟩⟩

/-- The components as the members of a `Uri`, which are empty for those that are absent. -/
def Reference.uri (r : Reference) : Uri :=
  let query := r.query.getD []
  let fragment := r.fragment.getD []
  match r.front with
  | .authority scheme userinfo host port =>
      ⟨scheme, userinfo.getD [], host, r.path, query, fragment,
        BitVec.ofNat 32 (numeral 10 (port.getD []))⟩
  | .plain scheme => ⟨scheme, [], [], r.path, query, fragment, 0⟩
  | .relative => ⟨[], [], [], r.path, query, fragment, 0⟩

/-- The reference is taken apart again, and an empty path is read as a slash. -/
def Reference.Extracted (r : Reference) : Prop :=
  create r.text = .ok (some r.uri) ∧ r.uri.getPath = if r.path = [] then bytes "/" else r.path

instance (r : Reference) : Decidable r.Extracted := inferInstanceAs (Decidable (_ ∧ _))

/-- What is in front of the first colon. -/
def userOf (userinfo : Text) : Text := userinfo.takeWhile (· != 58)

/-- The first colon and what is behind it. -/
def passwordOf (userinfo : Text) : Text := userinfo.dropWhile (· != 58)

/-- A digit follows the first colon. -/
def digitFollows (userinfo : Text) : Bool := (passwordOf userinfo).tail.head?.any UriParser.isDigit

/-- The references that are taken apart again. -/
def Reference.Regular (r : Reference) : Prop :=
  match r.front with
  | .authority _ userinfo _ port => (∀ u ∈ userinfo, digitFollows u = false) ∧ port ≠ some []
  | .plain _ | .relative => r.path = []

instance : (r : Reference) → Decidable r.Regular
  | ⟨.authority .., _, _, _⟩ => inferInstanceAs (Decidable ((∀ u ∈ _, _) ∧ _ ≠ _))
  | ⟨.plain _, _, _, _⟩ | ⟨.relative, _, _, _⟩ => inferInstanceAs (Decidable (_ = _))

end Sylar.Uri
