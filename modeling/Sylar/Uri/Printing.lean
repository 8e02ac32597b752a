import Sylar.Uri.Decomposition
import Sylar.Uri.Extraction

/-!
# Printing

`Uri::toString` against `Uri::Create`: the text that is printed for a `Uri` is that of a reference,
whose components are read again.
-/

namespace Sylar.Uri

open Library Library.Ragel Library.Ragel.Machine UriParser
open Http (bytes)

/-- The readers of the members give the same values. -/
structure SameComponents (again uri : Uri) : Prop where
  scheme : again.scheme = uri.scheme
  userinfo : again.userinfo = uri.userinfo
  host : again.host = uri.host
  port : again.getPort = uri.getPort
  path : again.getPath = uri.getPath
  query : again.query = uri.query
  fragment : again.fragment = uri.fragment

/-- What is printed is read as the same components. -/
def Agrees (uri : Uri) : Prop :=
  ∃ again, create uri.toString = .ok (some again) ∧ SameComponents again uri

/-- A member that is left out with its sign where it is empty. -/
def printedPart (text : Text) : Option Text := if text = [] then none else some text

/-- The reference that is printed. -/
def printed (uri : Uri) : Reference :=
  ⟨.authority uri.scheme (printedPart uri.userinfo) uri.host
      (if uri.isDefaultPort then none else some (numberText uri.port)),
    uri.getPath, printedPart uri.query, printedPart uri.fragment⟩

variable {uri : Uri} {text : Text}

/-- A part that is printed, behind its sign. -/
theorem part_printedPart (sign : UInt8) :
    part sign (printedPart text) = (if text = [] then [] else [sign]) ++ text := by
  rw [printedPart]
  split
  case isTrue none_ => rw [none_]; rfl
  case isFalse => rfl

/-- A userinfo that is printed, in front of its sign. -/
theorem userinfoText_printedPart :
    userinfoText (printedPart text) = text ++ if text = [] then [] else [64] := by
  rw [printedPart]
  split
  case isTrue none_ => rw [none_]; rfl
  case isFalse => rfl

/-- An empty part is printed as one that is not there. -/
theorem printedPart_getD : (printedPart text).getD [] = text := by
  rw [printedPart]
  split
  case isTrue none_ => rw [none_]; rfl
  case isFalse => rfl

/-- An empty userinfo survives. -/
theorem printedPart_digits :
    (∀ u ∈ printedPart text, digitFollows u = false) ↔ digitFollows text = false := by
  rw [printedPart]
  split
  case isTrue none_ =>
    rw [none_]
    exact iff_of_true (by rintro u ⟨⟩) rfl
  case isFalse => simp

/-- What is printed is the text of a reference. -/
theorem printed_text (uri : Uri) : uri.printed.text = uri.toString := by
  have port : part 58 (if uri.isDefaultPort then none else some (numberText uri.port)) =
      if uri.isDefaultPort then [] else bytes ":" ++ numberText uri.port := by
    cases uri.isDefaultPort <;> rfl
  have signs : bytes "://" = [58, 47, 47] ∧ bytes "@" = [64] ∧ bytes "?" = [63] ∧
      bytes "#" = [35] := by decide
  rw [printed, Reference.text_authority, networkText, userinfoText_printedPart, part_printedPart,
    part_printedPart, port, toString, dump]
  simp [signs]

/-- `getPath` never answers with an empty path. -/
theorem getPath_ne (uri : Uri) : uri.getPath ≠ [] := by
  rw [getPath]
  split
  case isTrue => decide
  case isFalse some_ => exact some_

/-! ### Ports -/

section Ports

variable {number : BitVec 32}

theorem numberText_ne (number : BitVec 32) : numberText number ≠ [] := by
  rw [numberText, ne_eq, List.append_eq_nil_iff, not_and]
  exact fun _ => digitsText_ne_nil _ _

/-- A number that is not negative is written with its digits alone. -/
theorem numberText_eq (positive : 0 ≤ number.toInt) :
    numberText number = digitsText 10 number.toInt.natAbs := by
  rw [numberText, if_neg (by omega)]
  rfl

/-- A number that is not negative is written as a port. -/
theorem numberText_fits (positive : 0 ≤ number.toInt) :
    Fits UriParser.port (numberText number) := by
  rw [fits_port_iff, numberText_eq positive]
  intro byte member
  have digits := @digitsText_isDigit 10 (by decide) (by decide) number.toInt.natAbs
  rw [isDigit_eq]
  exact List.all_eq_true.mp digits byte member

/-- A number that is printed is read again. -/
theorem numberText_numeral (positive : 0 ≤ number.toInt) :
    numeral 10 (numberText number) < 2 ^ 31 ∧
      BitVec.ofNat 32 (numeral 10 (numberText number)) = number := by
  rw [numberText_eq positive, numeral_digitsText (by decide) (by decide)]
  have value := BitVec.toInt_eq_toNat_cond number
  have bound := number.isLt
  constructor
  · split at value <;> omega
  · refine BitVec.eq_of_toNat_eq ?_
    rw [BitVec.toNat_ofNat]
    split at value <;> omega

/-- The sign of a number is no digit. -/
theorem numberText_negative (negative : number.toInt < 0) :
    ¬Fits UriParser.port (numberText number) := by
  rw [fits_port_iff, numberText, if_pos negative]
  intro digits
  exact absurd (digits 45 List.mem_cons_self) (by decide)

end Ports

/-- A default port is left out. -/
theorem getPort_eq {again : Uri} (scheme : again.scheme = uri.scheme)
    (port : again.port = if uri.isDefaultPort then 0 else uri.port) :
    again.getPort = uri.getPort := by
  rw [getPort, getPort, scheme, port]
  cases default : uri.isDefaultPort with
  | false => rfl
  | true =>
      rw [isDefaultPort] at default
      split at default
      case isTrue zero => rw [zero]; rfl
      case isFalse some_ =>
        rw [if_pos rfl, if_pos some_, if_neg (not_not.mpr rfl)]
        split at default
        case isTrue plain => rw [if_pos plain, beq_iff_eq.mp default]
        case isFalse other =>
          split at default
          case isTrue secure => rw [if_neg other, if_pos secure, beq_iff_eq.mp default]
          case isFalse => cases default

/-! ### Printed references -/

/-- The components of what is printed are read again unless its userinfo is changed. -/
theorem agrees_of_printed_iff (grammatical : uri.printed.Grammatical) :
    uri.Agrees ↔ digitFollows uri.userinfo = false := by
  have unmarked : (if uri.isDefaultPort then none else some (numberText uri.port)) ≠ some [] := by
    split
    case isTrue => simp
    case isFalse => simpa using numberText_ne uri.port
  have created := create_authority grammatical unmarked
  change create uri.printed.text = _ at created
  rw [printed_text, printedPart_getD, printedPart_getD] at created
  have kept := @savedUser_iff (printedPart uri.userinfo)
  rw [printedPart_getD, printedPart_digits] at kept
  have number : readPort (if uri.isDefaultPort then none else some (numberText uri.port)) =
      if uri.isDefaultPort then 0 else uri.port := by
    have fits := grammatical.front.2.2.2.1
    cases default : uri.isDefaultPort with
    | true => rfl
    | false =>
        rw [default] at fits
        have positive : 0 ≤ uri.port.toInt := by
          by_contra negative
          exact numberText_negative (not_le.mp negative) (fits _ rfl).1
        exact (numberText_numeral positive).2
  constructor
  · rintro ⟨again, same, components⟩
    rw [created] at same
    cases same
    exact kept.mp components.userinfo
  · intro regular
    exact ⟨_, created, rfl, kept.mpr regular, rfl, getPort_eq rfl number,
      if_neg (getPath_ne uri), rfl, rfl⟩

end Sylar.Uri
