import Sylar.Library.Strtol

/-!
# Numbers as a stream writes them

A number is written with the fewest digits, in a base up to 16 and in lower case.
-/

namespace Sylar.Library

/-- A number as a stream writes it. -/
def digitsText (base n : Nat) : List UInt8 :=
  (Nat.toDigits base n).map fun char => char.toNat.toUInt8

theorem digitValue_digitChar :
    ∀ d < 16, digitValue (Nat.digitChar d).toNat.toUInt8 = some d := by decide

section Digits

variable {base : Nat}

theorem digitsText_ne_nil (base n : Nat) : digitsText base n ≠ [] := by
  rw [digitsText, ne_eq, List.map_eq_nil_iff]
  exact Nat.toDigits_ne_nil

theorem digitsText_length_le_iff {n count : Nat} (some_ : 1 < base) (positive : 0 < count) :
    (digitsText base n).length ≤ count ↔ n < base ^ count := by
  rw [digitsText, List.length_map]
  exact Nat.length_toDigits_le_iff some_ positive

/-- The last digit comes behind those of the quotient. -/
theorem digitsText_eq_if (some_ : 1 < base) (n : Nat) :
    digitsText base n =
      if n < base then [(Nat.digitChar n).toNat.toUInt8]
      else digitsText base (n / base) ++ [(Nat.digitChar (n % base)).toNat.toUInt8] := by
  unfold digitsText
  rw [Nat.toDigits_eq_if some_]
  split
  · rfl
  · rw [List.map_append, List.map_cons, List.map_nil]

theorem digitsText_isDigit (some_ : 1 < base) (small : base ≤ 16) (n : Nat) :
    (digitsText base n).all (isDigit base) = true := by
  induction n using Nat.strongRecOn with
  | ind n inductionHypothesis =>
      have digit : ∀ d < base, isDigit base (Nat.digitChar d).toNat.toUInt8 = true := by
        intro d below
        rw [isDigit, digitValue_digitChar d (by omega), Option.any_some]
        exact decide_eq_true below
      rw [digitsText_eq_if some_]
      split
      · next below => rw [List.all_cons, List.all_nil, digit n below, Bool.and_self]
      · next above =>
          have before := inductionHypothesis (n / base) (Nat.div_lt_self (by omega) some_)
          rw [List.all_append, before, List.all_cons, List.all_nil,
            digit _ (Nat.mod_lt n (by omega)), Bool.and_self, Bool.and_self]

/-- The digits of a number are those of the number. -/
theorem numeral_digitsText (some_ : 1 < base) (small : base ≤ 16) (n : Nat) :
    numeral base (digitsText base n) = n := by
  induction n using Nat.strongRecOn with
  | ind n inductionHypothesis =>
      have digit : ∀ d < base, numeral base [(Nat.digitChar d).toNat.toUInt8] = d := by
        intro d below
        simp [numeral, digitValue_digitChar d (by omega)]
      rw [digitsText_eq_if some_]
      split
      · next below => exact digit n below
      · next above =>
          have before := inductionHypothesis (n / base) (Nat.div_lt_self (by omega) some_)
          rw [numeral_append, before, digit _ (Nat.mod_lt n (by omega)), List.length_singleton,
            pow_one]
          exact Nat.div_add_mod' n base

end Digits

end Sylar.Library
