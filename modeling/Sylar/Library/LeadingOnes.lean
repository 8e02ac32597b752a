import Mathlib.Data.BitVec

/-!
# Masks of leading ones

The word whose first `count` bits from the top are set, its complement, and
what either leaves of another word.
-/

namespace Sylar.Library

variable {width : Nat}

/-- The word with its `count` top bits set. -/
def leadingOnes (width count : Nat) : BitVec width := BitVec.allOnes width <<< (width - count)

theorem getMsbD_leadingOnes (count : Nat) {index : Nat} (inside : index < width) :
    (leadingOnes width count).getMsbD index = decide (index < count) := by
  simp only [leadingOnes, BitVec.getMsbD_shiftLeft, BitVec.getMsbD_allOnes]
  rw [decide_eq_decide]
  omega

theorem leadingOnes_zero : leadingOnes width 0 = BitVec.ofNat width 0 := by
  apply BitVec.eq_of_getMsbD_eq
  intro index inside
  rw [getMsbD_leadingOnes _ inside]
  simp

theorem leadingOnes_full {count : Nat} (full : width ≤ count) :
    leadingOnes width count = BitVec.allOnes width := by
  rw [leadingOnes, Nat.sub_eq_zero_of_le full, BitVec.shiftLeft_zero]

/-- The low bits as the difference of a power of two and one. -/
theorem not_leadingOnes (count : Nat) :
    ~~~leadingOnes width count = BitVec.ofNat width (2 ^ (width - count) - 1) := by
  apply BitVec.eq_of_getLsbD_eq
  intro index inside
  simp only [leadingOnes, BitVec.getLsbD_not, BitVec.getLsbD_shiftLeft, BitVec.getLsbD_allOnes,
    BitVec.getLsbD_ofNat, Nat.testBit_two_pow_sub_one, inside, decide_true, Bool.true_and]
  by_cases low : index < width - count
  · simp [low]
  · simp [low, show index - (width - count) < width by omega]

theorem and_le (word mask : BitVec width) : word &&& mask ≤ word := by
  rw [BitVec.le_def, BitVec.toNat_and]
  exact Nat.and_le_left

theorem le_or (word mask : BitVec width) : word ≤ word ||| mask := by
  rw [BitVec.le_def, BitVec.toNat_or]
  exact Nat.left_le_or

/-- A mask and its complement leave the same of a word only when that is zero. -/
theorem and_not_eq_and_iff (word mask : BitVec width) :
    word &&& ~~~mask = word &&& mask ↔ word = BitVec.ofNat width 0 := by
  constructor
  · intro same
    apply BitVec.eq_of_getLsbD_eq
    intro index inside
    have bit := congrArg (fun bits : BitVec width => bits.getLsbD index) same
    simp only [BitVec.getLsbD_and, BitVec.getLsbD_not, inside, decide_true, Bool.true_and] at bit
    rw [BitVec.getLsbD_zero]
    cases set : word.getLsbD index with
    | false => rfl
    | true =>
        rw [set, Bool.true_and, Bool.true_and] at bit
        exact absurd bit (Bool.not_ne_self _)
  · rintro rfl
    simp

end Sylar.Library
