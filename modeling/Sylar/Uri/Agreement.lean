import Sylar.Uri.Printing

/-!
# Agreement of printing and parsing

Which references are printed as a text that is read as the same components.
-/

namespace Sylar.Uri

open Library Library.Ragel Library.Ragel.Machine UriParser
open Http (bytes)

/-- The references that are printed as the same components: where a digit follows the first colon
of a userinfo, so that only what is behind the colon is printed, no digit follows the first colon
of that. -/
def Reference.Printed (r : Reference) : Prop :=
  match r.front with
  | .authority _ userinfo _ _ =>
      ∀ u ∈ userinfo, digitFollows u = true → digitFollows (passwordOf u).tail = false
  | .plain _ | .relative => True

instance : (r : Reference) → Decidable r.Printed
  | ⟨.authority .., _, _, _⟩ => inferInstanceAs (Decidable (∀ u ∈ _, _ → _))
  | ⟨.plain _, _, _, _⟩ | ⟨.relative, _, _, _⟩ => inferInstanceAs (Decidable True)

variable {uri : Uri} {scheme host path : Text} {userinfo port query fragment : Option Text}

/-! ### Printed components -/

/-- A part that is read and printed again is still in the grammar. -/
theorem printedPart_fits {expression : Machine UInt8 (Nat × Act)} {component : Option Text}
    (fits : ∀ t ∈ component, Fits expression t) :
    ∀ t ∈ printedPart (component.getD []), Fits expression t := by
  intro t member
  cases component with
  | none => cases member
  | some text =>
      rw [printedPart, Option.getD_some] at member
      split at member
      case isTrue => cases member
      case isFalse =>
        cases member
        exact fits _ rfl

/-- What is read of a userinfo is one. -/
theorem readUser_fits (fits : ∀ u ∈ userinfo, Fits UriParser.userinfo u) :
    ∀ u ∈ userinfo.map readUser, Fits UriParser.userinfo u := by
  intro u member
  obtain ⟨user, own, rfl⟩ := Option.mem_map.mp member
  rw [readUser]
  split
  case isTrue => exact (user_fits (fits user own)).2
  case isFalse => exact fits user own

/-- The path that is printed can stand behind an authority. -/
theorem getPath_fits (fits : Fits pathAbempty uri.path) : Fits pathAbempty uri.getPath := by
  rw [getPath]
  split
  case isTrue => rfl
  case isFalse => exact fits

/-- A port below 2³¹ is read without a change of sign. -/
theorem readPort_positive (small : ∀ p ∈ port, numeral 10 p < 2 ^ 31) :
    0 ≤ (readPort port).toInt := by
  have bound : numeral 10 (port.getD []) < 2 ^ 31 := by
    cases port with
    | none => decide
    | some p => exact small p rfl
  rw [readPort, BitVec.toInt_eq_toNat_cond, BitVec.toNat_ofNat, Nat.mod_eq_of_lt (by omega)]
  split <;> omega

/-- What is printed is a reference of the grammar, if its components are. -/
theorem grammatical_printed (fitsScheme : Fits schemeText uri.scheme)
    (fitsUser : ∀ u ∈ printedPart uri.userinfo, Fits UriParser.userinfo u)
    (fitsHost : Fits UriParser.host uri.host) (positive : 0 ≤ uri.port.toInt)
    (fitsPath : Fits pathAbempty uri.path) (fitsQuery : ∀ q ∈ printedPart uri.query, Fits queryText q)
    (fitsFragment : ∀ f ∈ printedPart uri.fragment, Fits queryText f) :
    uri.printed.Grammatical := by
  refine ⟨⟨fitsScheme, fitsUser, fitsHost, fun p member => ?_, getPath_fits fitsPath⟩, fitsQuery,
    fitsFragment⟩
  split at member
  case isTrue => cases member
  case isFalse =>
    cases member
    exact ⟨numberText_fits positive, (numberText_numeral positive).1⟩

/-! ### Conditions -/

/-- The userinfo that is printed is read again. -/
theorem digitFollows_readUser {user : Text} : digitFollows (readUser user) = false ↔
    (digitFollows user = true → digitFollows (passwordOf user).tail = false) := by
  rw [readUser]
  cases digits : digitFollows user with
  | false => simp [digits]
  | true => simp

/-- What is printed is read as the same components exactly for these references. -/
theorem printed_iff {s : Text} (created : create s = .ok (some uri)) (some_ : uri.scheme ≠ []) :
    (∃ r : Reference, r.Shaped ∧ r.text = s) ∧
      ∀ r : Reference, r.Shaped → r.text = s → r.SmallPort → (uri.Agrees ↔ r.Printed) := by
  obtain ⟨shape, shaped, same, -⟩ := shaped_of_create created some_
  refine ⟨⟨shape, shaped, same⟩, ?_⟩
  rintro ⟨front, path, query, fragment⟩ shaped rfl small
  have grammatical := shaped.grammatical small
  cases front with
  | relative =>
      have accepted := relative_accepts grammatical.front grammatical.query grammatical.fragment
      exact absurd (relative_schemeless accepted created) some_
  | plain scheme =>
      rw [create_plain grammatical] at created
      cases created
      have noHost : Fits UriParser.host [] := rfl
      have noPath : Fits pathAbempty [] := rfl
      refine (agrees_of_printed_iff (grammatical_printed grammatical.front.1 (by rintro u ⟨⟩) noHost
        (le_refl 0) noPath (printedPart_fits grammatical.query)
        (printedPart_fits grammatical.fragment))).trans (iff_of_true rfl trivial)
  | authority scheme userinfo host port =>
      have some_ : port ≠ some [] := by
        rintro rfl
        rw [create_unmarked grammatical] at created
        cases created
      rw [create_authority grammatical some_] at created
      cases created
      obtain ⟨fitsScheme, fitsUser, fitsHost, -, fitsPath⟩ := grammatical.front
      refine (agrees_of_printed_iff (grammatical_printed fitsScheme
        (printedPart_fits (readUser_fits fitsUser)) fitsHost (readPort_positive small) fitsPath
        (printedPart_fits grammatical.query) (printedPart_fits grammatical.fragment))).trans ?_
      cases userinfo with
      | none => exact iff_of_true rfl (by rintro u ⟨⟩)
      | some user =>
          rw [Option.map_some, Option.getD_some, digitFollows_readUser]
          simp [Reference.Printed]

/-- A password of letters and a port are printed and read again. -/
theorem printed_iff_password :
    let uri : Uri := ⟨bytes "http", bytes "a:b", bytes "c", bytes "/d", bytes "e", [], 8080⟩
    create (bytes "http://a:b@c:8080/d?e") = .ok (some uri) ∧ uri.Agrees := by
  intro uri
  have created : create (bytes "http://a:b@c:8080/d?e") = .ok (some uri) := by decide
  let r : Reference :=
    ⟨.authority (bytes "http") (some (bytes "a:b")) (bytes "c") (some (bytes "8080")), bytes "/d",
      some (bytes "e"), none⟩
  have grammatical : r.Grammatical := by decide
  have small : r.SmallPort := by
    rintro p ⟨⟩
    decide
  exact ⟨created, ((printed_iff created (by decide)).2 r grammatical.shaped (by decide) small).mpr
    (by decide)⟩

/-- The password is printed as the userinfo, and what is behind its own colon is read again. -/
theorem password_printed :
    let uri : Uri := ⟨bytes "http", bytes "1:2", bytes "h", bytes "/", [], [], 0⟩
    create (bytes "http://a:1:2@h/") = .ok (some uri) ∧ uri.scheme ≠ [] ∧
      uri.toString = bytes "http://1:2@h/" ∧ ¬uri.Agrees := by
  refine ⟨by decide, by decide, by decide, ?_⟩
  rintro ⟨again, created, same⟩
  have read : create (bytes "http://1:2@h/") =
      .ok (some ⟨bytes "http", bytes "2", bytes "h", bytes "/", [], [], 0⟩) := by decide
  obtain rfl : _ = again := Option.some.inj (Except.ok.inj (read.symm.trans created))
  exact absurd same.userinfo (by decide)

end Sylar.Uri
