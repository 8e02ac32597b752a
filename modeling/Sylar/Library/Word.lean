import Mathlib.Data.Nat.Bitwise
import Mathlib.Tactic.Ring

/-!
# Machine words and their bytes

Little-endian bytes of a natural number, words that have a fixed number of
bytes, and the zigzag coding of two's complement words. The width of a word is
a parameter throughout.
-/

namespace Sylar.Library

/-- The `count` low bytes of a number, the lowest first. -/
def toBytes : (count : Nat) → Nat → List UInt8
  | 0, _ => []
  | count + 1, value => UInt8.ofNat value :: toBytes count (value / 256)

/-- The number whose low bytes are given, the lowest first. -/
def ofBytes : List UInt8 → Nat
  | [] => 0
  | byte :: rest => byte.toNat + 256 * ofBytes rest

@[simp] theorem length_toBytes (count value : Nat) : (toBytes count value).length = count := by
  induction count generalizing value with
  | zero => rfl
  | succ count inductionHypothesis => simp only [toBytes, List.length_cons, inductionHypothesis]

theorem ofBytes_toBytes {count value : Nat} (fits : value < 256 ^ count) :
    ofBytes (toBytes count value) = value := by
  induction count generalizing value with
  | zero =>
      rw [Nat.pow_zero] at fits
      simp only [toBytes, ofBytes]
      omega
  | succ count inductionHypothesis =>
      have rest : value / 256 < 256 ^ count := by
        rw [Nat.pow_succ] at fits
        omega
      simp only [toBytes, ofBytes, inductionHypothesis rest, UInt8.toNat_ofNat']
      omega

theorem toBytes_ofBytes (bytes : List UInt8) : toBytes bytes.length (ofBytes bytes) = bytes := by
  induction bytes with
  | nil => rfl
  | cons byte rest inductionHypothesis =>
      have bound := byte.toNat_lt
      have head : UInt8.ofNat (byte.toNat + 256 * ofBytes rest) = byte := by
        apply UInt8.toNat_inj.mp
        rw [UInt8.toNat_ofNat']
        omega
      have tail : (byte.toNat + 256 * ofBytes rest) / 256 = ofBytes rest := by omega
      simp only [List.length_cons, ofBytes, toBytes, head, tail, inductionHypothesis]

theorem ofBytes_lt (bytes : List UInt8) : ofBytes bytes < 256 ^ bytes.length := by
  induction bytes with
  | nil => exact Nat.one_pos
  | cons byte rest inductionHypothesis =>
      have bound := byte.toNat_lt
      simp only [List.length_cons, ofBytes, Nat.pow_succ]
      omega

theorem testBit_ofBytes (bytes : List UInt8) (index : Nat) :
    (ofBytes bytes).testBit index = (bytes.getD (index / 8) 0).toNat.testBit (index % 8) := by
  induction bytes generalizing index with
  | nil => simp [ofBytes]
  | cons byte rest inductionHypothesis =>
      have split := Nat.testBit_two_pow_mul_add (ofBytes rest) byte.toNat_lt index
      rw [ofBytes, show byte.toNat + 256 * ofBytes rest = 2 ^ 8 * ofBytes rest + byte.toNat by omega,
        split]
      by_cases first : index < 8
      · rw [if_pos first, Nat.div_eq_of_lt first, Nat.mod_eq_of_lt first, List.getD_cons_zero]
      · obtain ⟨further, rfl⟩ := Nat.exists_eq_add_of_le (Nat.not_lt.mp first)
        rw [if_neg first, show 8 + further - 8 = further by omega, inductionHypothesis,
          show (8 + further) / 8 = further / 8 + 1 by omega, Nat.add_mod_left,
          List.getD_cons_succ]

theorem testBit_getD_toBytes {count position bit : Nat} (value : Nat) (inside : position < count)
    (low : bit < 8) :
    ((toBytes count value).getD position 0).toNat.testBit bit =
      value.testBit (8 * position + bit) := by
  induction count generalizing value position with
  | zero => omega
  | succ count inductionHypothesis =>
      rw [toBytes]
      cases position with
      | zero =>
          rw [List.getD_cons_zero, UInt8.toNat_ofNat', Nat.testBit_mod_two_pow]
          simp [low]
      | succ position =>
          rw [List.getD_cons_succ, inductionHypothesis _ (by omega),
            Nat.testBit_div_two_pow (n := 8)]
          congr 1
          omega

/-- A type of words: the numbers below `256 ^ size` under another name. -/
class Word (T : Type) where
  size : Nat
  toNat : T → Nat
  ofNat : Nat → T
  ofNat_toNat : ∀ value, ofNat (toNat value) = value
  toNat_ofNat : ∀ number, number < 256 ^ size → toNat (ofNat number) = number
  toNat_lt : ∀ value, toNat value < 256 ^ size

namespace Word

variable {T : Type} [Word T]

/-- The bytes of a word, the lowest first. -/
def bytes (value : T) : List UInt8 := toBytes (size T) (toNat value)

/-- The word whose bytes are given, the lowest first. -/
def ofBytes (image : List UInt8) : T := ofNat (Library.ofBytes image)

@[simp] theorem length_bytes (value : T) : (bytes value).length = size T := length_toBytes _ _

@[simp] theorem ofBytes_bytes (value : T) : ofBytes (bytes value) = value := by
  rw [ofBytes, bytes, ofBytes_toBytes (toNat_lt value), ofNat_toNat]

theorem bytes_ofBytes {image : List UInt8} (length : image.length = size T) :
    bytes (ofBytes (T := T) image) = image := by
  have bound := ofBytes_lt image
  rw [length] at bound
  rw [bytes, ofBytes, toNat_ofNat _ bound, ← length, toBytes_ofBytes]

/-- The word with the bytes of `value` in the opposite order. -/
def swap (value : T) : T := ofBytes (bytes value).reverse

@[simp] theorem bytes_swap (value : T) : bytes (swap value) = (bytes value).reverse :=
  bytes_ofBytes (by rw [List.length_reverse, length_bytes])

@[simp] theorem swap_swap (value : T) : swap (swap value) = value := by
  rw [swap, bytes_swap, List.reverse_reverse, ofBytes_bytes]

/-- A bit of a swapped word stands at the same place of the byte opposite. -/
theorem testBit_swap (value : T) {index : Nat} (inside : index < 8 * size T) :
    (toNat (swap value)).testBit index =
      (toNat value).testBit (8 * (size T - 1 - index / 8) + index % 8) := by
  have bound := ofBytes_lt (bytes value).reverse
  rw [List.length_reverse, length_bytes] at bound
  have position : index / 8 < (bytes value).length := by
    rw [length_bytes]
    omega
  rw [swap, ofBytes, toNat_ofNat _ bound, testBit_ofBytes, List.getD_eq_getElem?_getD,
    List.getElem?_reverse position, ← List.getD_eq_getElem?_getD, bytes, length_toBytes,
    testBit_getD_toBytes _ (by omega) (by omega)]

end Word

section Zigzag

variable {width : Nat}

/-- Twice a word with its top bit made the lowest one, and all others inverted
when that bit is set. -/
def zigzag (value : BitVec width) : BitVec width :=
  if value.msb then ~~~(value <<< 1) else value <<< 1

/-- Undo `zigzag`. -/
def unzigzag (value : BitVec width) : BitVec width :=
  (value >>> 1) ^^^ -(value &&& BitVec.ofNat width 1)

theorem shiftLeft_one (value : BitVec width) : value <<< 1 = value * BitVec.ofNat width 2 := by
  apply BitVec.eq_of_toNat_eq
  simp [BitVec.toNat_shiftLeft, Nat.shiftLeft_eq]

/-- The arithmetic that computes `zigzag` of a negative word. -/
theorem not_shiftLeft_one (value : BitVec width) :
    ~~~(value <<< 1) = -value * BitVec.ofNat width 2 - BitVec.ofNat width 1 := by
  rw [shiftLeft_one, BitVec.neg_mul, BitVec.neg_eq_not_add, BitVec.add_sub_cancel]

theorem and_one (value : BitVec width) :
    value &&& BitVec.ofNat width 1 =
      if value.getLsbD 0 then BitVec.ofNat width 1 else BitVec.ofNat width 0 := by
  apply BitVec.eq_of_getLsbD_eq
  intro index inside
  cases bit : value.getLsbD 0 <;> cases index <;> simp [bit]

theorem unzigzag_zigzag (value : BitVec width) : unzigzag (zigzag value) = value := by
  rcases Nat.eq_zero_or_pos width with rfl | positive
  · exact Subsingleton.elim _ _
  have top : value.msb = value.getLsbD (width - 1) := BitVec.msb_eq_getLsbD_last value
  apply BitVec.eq_of_getLsbD_eq
  intro index inside
  -- the shift brings every bit back but the top one, which only the mask can give
  have split : (¬1 + index < width ∧ value.getLsbD index = value.msb) ∨ 1 + index < width := by
    by_cases before : 1 + index < width
    · exact Or.inr before
    · exact Or.inl ⟨before, by rw [top, show index = width - 1 by omega]⟩
  cases negative : value.msb with
  | true =>
      have lowest : (~~~(value <<< 1)) &&& BitVec.ofNat width 1 = BitVec.ofNat width 1 := by
        rw [and_one]
        simp [positive]
      simp only [zigzag, negative, if_true, unzigzag, lowest, BitVec.neg_one_eq_allOnes]
      rcases split with ⟨last, same⟩ | before
      · simp [last, same, inside, negative]
      · simp [before, inside]
  | false =>
      have lowest : (value <<< 1) &&& BitVec.ofNat width 1 = BitVec.ofNat width 0 := by
        rw [and_one]
        simp
      simp only [zigzag, negative, unzigzag, Bool.false_eq_true, if_false, lowest]
      rcases split with ⟨last, same⟩ | before
      · simp [last, same, negative]
      · simp [before, BitVec.getLsbD_eq_getElem inside]

end Zigzag

end Sylar.Library
