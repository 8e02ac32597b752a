import Mathlib.Algebra.GroupWithZero.Nat
import Sylar.Http.Heads

/-!
# Escapes of bytes

`StringUtil::UrlEncode` and `UrlDecode` of `util.cpp`, and what the two do to each other.
-/

namespace Sylar.StringUtil

open Http (bytes isXdigit tolower)

/-- `CHAR_IS_UNRESERVED`: the entries of `uri_chars` that are 1 are those of the digits, of the
letters and of five other bytes. -/
def charIsUnreserved (c : UInt8) : Bool :=
  (48 ≤ c && c ≤ 57) || (65 ≤ c && c ≤ 90) || (97 ≤ c && c ≤ 122) || (bytes "-.=_~").contains c

/-- An entry of `hexdigits`. -/
def hexdigit (digit : UInt8) : UInt8 := (bytes "0123456789ABCDEF").getD digit.toNat 0

/-- An entry of `xdigit_chars`. -/
def xdigitChar (c : UInt8) : UInt8 :=
  if 48 ≤ c ∧ c ≤ 57 then c - 48
  else if 65 ≤ c ∧ c ≤ 70 then c - 55
  else if 97 ≤ c ∧ c ≤ 102 then c - 87
  else 0

/-- A round of the loop in `urlEncode`. -/
def encodeChar (space_as_plus : Bool) (c : UInt8) : List UInt8 :=
  if charIsUnreserved c then [c]
  else if c = 32 ∧ space_as_plus then [43]
  else [37, hexdigit (c >>> 4), hexdigit (c &&& 0xf)]

def urlEncode (str : List UInt8) (space_as_plus : Bool) : List UInt8 :=
  str.flatMap (encodeChar space_as_plus)

/-- `UrlDecode`. A percent sign that no two digits follow is kept. -/
def urlDecode (space_as_plus : Bool) : List UInt8 → List UInt8
  | [] => []
  | 37 :: high :: low :: str =>
      if isXdigit high && isXdigit low then
        (xdigitChar high <<< 4 ||| xdigitChar low) :: urlDecode space_as_plus str
      else 37 :: urlDecode space_as_plus (high :: low :: str)
  | c :: str => (if c = 43 ∧ space_as_plus then 32 else c) :: urlDecode space_as_plus str

/-- A byte that is written as it is and does not end a key. -/
def isPlain (c : UInt8) : Bool := charIsUnreserved c && c != 61

variable {c : UInt8} {str : List UInt8}

/-- What is checked of all bytes is checked of their numbers. -/
theorem forall_byte {property : UInt8 → Prop} (all : ∀ n < 256, property (.ofNat n)) (c : UInt8) :
    property c := by
  have holds := all c.toNat (UInt8.toNat_lt c)
  rwa [UInt8.ofNat_toNat] at holds

theorem hexdigits_read (c : UInt8) :
    (isXdigit (hexdigit (c >>> 4)) && isXdigit (hexdigit (c &&& 0xf))) = true ∧
      (xdigitChar (hexdigit (c >>> 4)) <<< 4 ||| xdigitChar (hexdigit (c &&& 0xf))) = c := by
  revert c
  exact forall_byte (by decide +kernel)

theorem not_special_of_unreserved (unreserved : charIsUnreserved c = true) : c ≠ 37 ∧ c ≠ 43 := by
  constructor <;> rintro rfl <;> exact absurd unreserved (by decide)

/-- A byte that is written is no ampersand and no zero, and an equals sign only for itself. -/
theorem encodeChar_bytes (c : UInt8) :
    ∀ b ∈ encodeChar true c, b ≠ 38 ∧ b ≠ 0 ∧ (b = 61 → c = 61) := by
  revert c
  exact forall_byte (by decide +kernel)

theorem urlEncode_cons (c : UInt8) (str : List UInt8) :
    urlEncode (c :: str) true = encodeChar true c ++ urlEncode str true := List.flatMap_cons

theorem urlEncode_bytes (str : List UInt8) :
    ∀ b ∈ urlEncode str true, b ≠ 38 ∧ b ≠ 0 ∧ (b = 61 → 61 ∈ str) := by
  intro b member
  obtain ⟨c, inside, written⟩ := List.mem_flatMap.1 member
  obtain ⟨noAmpersand, noZero, equals⟩ := encodeChar_bytes c b written
  exact ⟨noAmpersand, noZero, fun same => equals same ▸ inside⟩

/-- What is written for a byte is read back, and the rest after it. -/
theorem urlDecode_encodeChar (space_as_plus : Bool) (c : UInt8) (str : List UInt8) :
    urlDecode space_as_plus (encodeChar space_as_plus c ++ str) =
      c :: urlDecode space_as_plus str := by
  rw [encodeChar]
  split
  · rename_i unreserved
    obtain ⟨noPercent, noPlus⟩ := not_special_of_unreserved unreserved
    rw [List.singleton_append, urlDecode, if_neg (by simp [noPlus])]
    rintro high low rest rfl
    exact absurd rfl noPercent
  · split
    · rename_i space
      rw [List.singleton_append, urlDecode, if_pos ⟨rfl, space.2⟩, space.1]
      rintro high low rest equal
      cases equal
    · obtain ⟨digits, value⟩ := hexdigits_read c
      rw [List.cons_append, List.cons_append, List.singleton_append, urlDecode, if_pos digits,
        value]

/-- What is written is read back, with the same treatment of spaces. -/
theorem urlDecode_urlEncode_same (space_as_plus : Bool) (str : List UInt8) :
    urlDecode space_as_plus (urlEncode str space_as_plus) = str := by
  induction str with
  | nil => rfl
  | cons c str inductionHypothesis =>
      rw [urlEncode, List.flatMap_cons, urlDecode_encodeChar]
      exact congrArg (c :: ·) inductionHypothesis

theorem urlDecode_urlEncode (str : List UInt8) : urlDecode true (urlEncode str true) = str :=
  urlDecode_urlEncode_same true str

/-- Plain bytes are written as they are. -/
theorem urlEncode_plain (plain : ∀ c ∈ str, isPlain c = true) : urlEncode str true = str := by
  induction str with
  | nil => rfl
  | cons c str inductionHypothesis =>
      rw [List.forall_mem_cons] at plain
      have unreserved : charIsUnreserved c = true := (Bool.and_eq_true_iff.1 plain.1).1
      rw [urlEncode_cons, encodeChar, if_pos unreserved, inductionHypothesis plain.2]
      rfl

/-! ### Lengths -/

theorem encodeChar_tolower (c : UInt8) :
    (encodeChar true (tolower c)).length = (encodeChar true c).length := by
  revert c
  exact forall_byte (by decide +kernel)

theorem encodeChar_length (c : UInt8) :
    1 ≤ (encodeChar true c).length ∧ (c = 37 ∨ c = 43 → (encodeChar true c).length = 3) := by
  revert c
  exact forall_byte (by decide +kernel)

/-- How long a text gets does not depend on its cases. -/
theorem urlEncode_length_of_tolower {other : List UInt8}
    (same : str.map tolower = other.map tolower) :
    (urlEncode str true).length = (urlEncode other true).length := by
  have lengths : ∀ text : List UInt8, (urlEncode text true).length =
      ((text.map tolower).map fun c => (encodeChar true c).length).sum := by
    intro text
    rw [urlEncode, List.length_flatMap, List.map_map]
    refine congrArg List.sum (List.map_congr_left fun c _ => ?_)
    exact (encodeChar_tolower c).symm
  rw [lengths, lengths, same]

theorem length_le_urlEncode (str : List UInt8) : str.length ≤ (urlEncode str true).length := by
  induction str with
  | nil => exact Nat.le_refl _
  | cons c str inductionHypothesis =>
      rw [urlEncode_cons, List.length_append, List.length_cons]
      have first := (encodeChar_length c).1
      omega

/-- A text that looks escaped gets longer when it is written. -/
theorem length_lt_urlEncode (escaped : 37 ∈ str ∨ 43 ∈ str) :
    str.length < (urlEncode str true).length := by
  induction str with
  | nil => simp at escaped
  | cons c str inductionHypothesis =>
      rw [urlEncode_cons, List.length_append, List.length_cons]
      have first := encodeChar_length c
      by_cases here : c = 37 ∨ c = 43
      · have rest := length_le_urlEncode str
        have three := first.2 here
        omega
      · have later := inductionHypothesis (by
          rw [not_or] at here
          simpa [Ne.symm here.1, Ne.symm here.2] using escaped)
        omega

end Sylar.StringUtil
