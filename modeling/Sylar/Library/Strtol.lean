import Mathlib.Data.Nat.Digits.Defs
import Mathlib.Tactic.Common

/-!
# Numbers in C strings

`strtol` of the C library in the C locale, for a `long` of 64 bits. A number that
does not fit is replaced by the nearest one that does.
-/

namespace Sylar.Library

/-- `isspace` in the C locale. -/
def isspace (byte : UInt8) : Bool := byte = 32 || (9 ≤ byte && byte ≤ 13)

/-- The value of a digit or letter. -/
def digitValue (byte : UInt8) : Option Nat :=
  if 48 ≤ byte ∧ byte ≤ 57 then some (byte.toNat - 48)
  else if 65 ≤ byte ∧ byte ≤ 90 then some (byte.toNat - 55)
  else if 97 ≤ byte ∧ byte ≤ 122 then some (byte.toNat - 87)
  else none

/-- A digit of a base. -/
def isDigit (base : Nat) (byte : UInt8) : Bool := (digitValue byte).any (· < base)

/-- The number that is written with digits, the first being the most significant. -/
def numeral (base : Nat) (digits : List UInt8) : Nat :=
  Nat.ofDigits base (digits.map fun byte => (digitValue byte).getD 0).reverse

/-- The prefix `0x` of a hexadecimal number is optional. -/
def skipPrefix : List UInt8 → List UInt8
  | 48 :: x :: text => if x = 120 ∨ x = 88 then text else 48 :: x :: text
  | text => text

/-- `strtol(text, NULL, base)`. -/
def strtol (base : Nat) (text : List UInt8) : Int :=
  let text := text.dropWhile isspace
  let negative := text.head? = some 45
  let text := if negative ∨ text.head? = some 43 then text.tail else text
  let text := if base = 16 then skipPrefix text else text
  let value : Int := numeral base (text.takeWhile (isDigit base))
  if negative then max (-2 ^ 63) (-value) else min (2 ^ 63 - 1) value

theorem numeral_append (base : Nat) (first second : List UInt8) :
    numeral base (first ++ second) =
      numeral base first * base ^ second.length + numeral base second := by
  simp only [numeral, List.map_append, List.reverse_append, Nat.ofDigits_append,
    List.length_reverse, List.length_map]
  ring

section

variable {base : Nat} {digits rest : List UInt8}

/-- A digit is neither a blank nor a sign. -/
theorem not_isspace_of_isDigit {byte : UInt8} (digit : isDigit base byte = true) :
    isspace byte = false ∧ byte ≠ 45 ∧ byte ≠ 43 := by
  have above : 48 ≤ byte := by
    by_contra below
    have letter : ¬65 ≤ byte := fun above => below (Nat.le_trans (by decide) above)
    have small : ¬97 ≤ byte := fun above => below (Nat.le_trans (by decide) above)
    simp [isDigit, digitValue, below, letter, small] at digit
  have bound : 48 ≤ byte.toNat := above
  refine ⟨?_, ?_, ?_⟩
  · simp only [isspace, Bool.or_eq_false_iff, decide_eq_false_iff_not, Bool.and_eq_false_iff]
    refine ⟨?_, .inr ?_⟩
    · rintro rfl
      exact absurd bound (by decide)
    · intro low
      exact absurd (Nat.le_trans bound low) (by decide)
  · rintro rfl
    exact absurd bound (by decide)
  · rintro rfl
    exact absurd bound (by decide)

/-- The letter of the prefix is no hexadecimal digit. -/
theorem skipPrefix_digits (hexadecimal : ∀ byte ∈ digits, isDigit 16 byte = true)
    (ends : ∀ byte ∈ rest.head?, byte ≠ 120 ∧ byte ≠ 88) (some_ : digits ≠ []) :
    skipPrefix (digits ++ rest) = digits ++ rest := by
  have plain : ∀ byte ∈ (digits ++ rest).tail.head?, byte ≠ 120 ∧ byte ≠ 88 := by
    match digits, some_ with
    | [_], _ => exact ends
    | _ :: second :: _, _ =>
        intro byte same
        cases same
        have digit := hexadecimal second (by simp)
        constructor
        · rintro rfl
          exact absurd digit (by decide)
        · rintro rfl
          exact absurd digit (by decide)
  match text : digits ++ rest with
  | [] => rfl
  | [_] =>
      unfold skipPrefix
      split <;> simp_all
  | first :: second :: more =>
      rw [text] at plain
      have letter := plain second rfl
      unfold skipPrefix
      split
      · simp_all
      · rfl

/-- A number is read up to the first byte that is no digit. -/
theorem strtol_digits (all : ∀ byte ∈ digits, isDigit base byte = true) (some_ : digits ≠ [])
    (ends : ∀ byte ∈ rest.head?, isDigit base byte = false ∧ byte ≠ 120 ∧ byte ≠ 88) :
    strtol base (digits ++ rest) = min (2 ^ 63 - 1) (numeral base digits : Int) := by
  obtain ⟨first, more, rfl⟩ := List.exists_cons_of_ne_nil some_
  obtain ⟨space, minus, plus⟩ := not_isspace_of_isDigit (all first List.mem_cons_self)
  have taken : (first :: more ++ rest).takeWhile (isDigit base) = first :: more := by
    rw [List.takeWhile_append_of_pos all]
    cases rest with
    | nil => simp
    | cons byte rest => simp [List.takeWhile, (ends byte rfl).1]
  have unprefixed : base = 16 → skipPrefix (first :: more ++ rest) = first :: more ++ rest := by
    rintro rfl
    exact skipPrefix_digits all (fun byte same => (ends byte same).2) some_
  have trimmed : (first :: more ++ rest).dropWhile isspace = first :: more ++ rest := by
    simp [space]
  have unsigned : ¬(first :: more ++ rest).head? = some 45 := by simpa using minus
  have unsigned' : ¬(first :: more ++ rest).head? = some 43 := by simpa using plus
  simp only [strtol, trimmed, unsigned, unsigned', or_self, if_false]
  by_cases hexadecimal : base = 16
  · rw [if_pos hexadecimal, unprefixed hexadecimal, taken]
  · rw [if_neg hexadecimal, taken]

end

end Sylar.Library
