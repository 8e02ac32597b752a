import Sylar.Http.UrlEncode

/-!
# The loops of the URL coding

`StringUtil::UrlEncode` and `UrlDecode` of `util.cpp` as loops over a pointer. A read
outside of the string or of a table fails, and the string `ss` is made at the first special
character, from what lies in front of it.
-/

namespace Sylar.StringUtil

open Http (bytes isXdigit)

section Model

def uriChars : List UInt8 := [
  0, 0, 0, 0, 0, 0, 0, 0,   0, 0, 0, 0, 0, 0, 0, 0,
  0, 0, 0, 0, 0, 0, 0, 0,   0, 0, 0, 0, 0, 0, 0, 0,
  0, 0, 0, 0, 0, 0, 0, 0,   0, 0, 0, 0, 0, 1, 1, 0,
  1, 1, 1, 1, 1, 1, 1, 1,   1, 1, 0, 0, 0, 1, 0, 0,
  0, 1, 1, 1, 1, 1, 1, 1,   1, 1, 1, 1, 1, 1, 1, 1,
  1, 1, 1, 1, 1, 1, 1, 1,   1, 1, 1, 0, 0, 0, 0, 1,
  0, 1, 1, 1, 1, 1, 1, 1,   1, 1, 1, 1, 1, 1, 1, 1,
  1, 1, 1, 1, 1, 1, 1, 1,   1, 1, 1, 0, 0, 0, 1, 0] ++ List.replicate 128 0

def xdigitChars : List UInt8 := [
  0, 0, 0, 0, 0, 0, 0, 0, 0, 0, 0, 0, 0, 0, 0, 0,
  0, 0, 0, 0, 0, 0, 0, 0, 0, 0, 0, 0, 0, 0, 0, 0,
  0, 0, 0, 0, 0, 0, 0, 0, 0, 0, 0, 0, 0, 0, 0, 0,
  0, 1, 2, 3, 4, 5, 6, 7, 8, 9, 0, 0, 0, 0, 0, 0,
  0, 10, 11, 12, 13, 14, 15, 0, 0, 0, 0, 0, 0, 0, 0, 0,
  0, 0, 0, 0, 0, 0, 0, 0, 0, 0, 0, 0, 0, 0, 0, 0,
  0, 10, 11, 12, 13, 14, 15, 0, 0, 0, 0, 0, 0, 0, 0, 0,
  0, 0, 0, 0, 0, 0, 0, 0, 0, 0, 0, 0, 0, 0, 0, 0] ++ List.replicate 128 0

def hexdigits : List UInt8 := bytes "0123456789ABCDEF"

/-- A `char` as an `int`. -/
def charToInt (c : UInt8) : Int := c.toInt8.toInt

/-- An entry of a table, which has none at a negative index. -/
def entryAt (table : List UInt8) (index : Int) : Option UInt8 :=
  if 0 ≤ index then table[index.toNat]? else none

/-- What `UrlEncode` appends for a special character. -/
def escapeAt (space_as_plus : Bool) (char : UInt8) : Option (List UInt8) :=
  if char = 32 ∧ space_as_plus then some [43]
  else do
    let high ← hexdigits[(char >>> 4).toNat]?
    let low ← hexdigits[(char &&& 0xf).toNat]?
    some [37, high, low]

/-- The loop of `UrlEncode` from position `c` on. -/
def urlEncodeFrom (str : List UInt8) (space_as_plus : Bool) (c : Nat)
    (ss : Option (List UInt8)) : Option (List UInt8) :=
  if c < str.length then do
    let char ← str[c]?
    let unreserved ← uriChars[char.toNat]?
    if unreserved = 0 then
      let escape ← escapeAt space_as_plus char
      urlEncodeFrom str space_as_plus (c + 1) (some (ss.getD (str.take c) ++ escape))
    else urlEncodeFrom str space_as_plus (c + 1) (ss.map (· ++ [char]))
  else some (ss.getD str)
termination_by str.length - c

/-- The condition of `UrlDecode` for an escape at position `c`. -/
def isEscapeAt (str : List UInt8) (c : Nat) (char : UInt8) : Option Bool :=
  if char = 37 ∧ c + 2 < str.length then do
    if isXdigit (← str[c + 1]?) then return isXdigit (← str[c + 2]?)
    return false
  else some false

/-- The character that an escape at position `c` stands for. -/
def unescapeAt (str : List UInt8) (c : Nat) : Option UInt8 := do
  let high ← entryAt xdigitChars (charToInt (← str[c + 1]?))
  let low ← entryAt xdigitChars (charToInt (← str[c + 2]?))
  return high <<< 4 ||| low

/-- The loop of `UrlDecode` from position `c` on. -/
def urlDecodeFrom (str : List UInt8) (space_as_plus : Bool) (c : Nat)
    (ss : Option (List UInt8)) : Option (List UInt8) :=
  if c < str.length then do
    let char ← str[c]?
    if char = 43 ∧ space_as_plus then
      urlDecodeFrom str space_as_plus (c + 1) (some (ss.getD (str.take c) ++ [32]))
    else if ← isEscapeAt str c char then
      let plain ← unescapeAt str c
      urlDecodeFrom str space_as_plus (c + 3) (some (ss.getD (str.take c) ++ [plain]))
    else urlDecodeFrom str space_as_plus (c + 1) (ss.map (· ++ [char]))
  else some (ss.getD str)
termination_by str.length - c

end Model

variable {str : List UInt8} {space_as_plus : Bool} {c : Nat} {char : UInt8}
  {ss : Option (List UInt8)}

/-! ### The tables -/

theorem uriChars_eq (char : UInt8) :
    uriChars[char.toNat]? = some (if charIsUnreserved char then 1 else 0) := by
  revert char
  exact forall_byte (by decide +kernel)

theorem hexdigits_eq (char : UInt8) :
    hexdigits[(char >>> 4).toNat]? = some (hexdigit (char >>> 4)) ∧
      hexdigits[(char &&& 0xf).toNat]? = some (hexdigit (char &&& 0xf)) := by
  revert char
  exact forall_byte (by decide +kernel)

/-- A digit is no negative index. -/
theorem xdigitChars_eq (char : UInt8) : isXdigit char = true →
    entryAt xdigitChars (charToInt char) = some (xdigitChar char) := by
  revert char
  exact forall_byte (by decide +kernel)

theorem escapeAt_eq (space_as_plus : Bool) (special : charIsUnreserved char = false) :
    escapeAt space_as_plus char = some (encodeChar space_as_plus char) := by
  obtain ⟨high, low⟩ := hexdigits_eq char
  rw [escapeAt, encodeChar, special, if_neg Bool.false_ne_true, high, low]
  split <;> rfl

/-! ### The copy -/

theorem getD_map_append (char : List UInt8) (front : List UInt8) :
    (ss.map (· ++ char)).getD (front ++ char) = ss.getD front ++ char := by
  cases ss <;> rfl

theorem take_succ_of_getElem? (read : str[c]? = some char) :
    str.take (c + 1) = str.take c ++ [char] := by
  rw [List.take_add_one, read]
  rfl

theorem drop_of_getElem? (read : str[c]? = some char) :
    str.drop c = char :: str.drop (c + 1) := by
  obtain ⟨inside, rfl⟩ := List.getElem?_eq_some_iff.1 read
  exact List.drop_eq_getElem_cons inside

/-- What is copied so far is what the characters so far are written as. -/
theorem urlEncodeFrom_eq
    (copied : ss.getD (str.take c) = urlEncode (str.take c) space_as_plus) :
    urlEncodeFrom str space_as_plus c ss = some (urlEncode str space_as_plus) := by
  induction left : str.length - c generalizing c ss with
  | zero =>
      rw [List.take_of_length_le (by omega)] at copied
      rw [urlEncodeFrom, if_neg (by omega), copied]
  | succ left inductionHypothesis =>
      have inside : c < str.length := by omega
      have read := List.getElem?_eq_getElem inside
      have step : urlEncode (str.take (c + 1)) space_as_plus =
          ss.getD (str.take c) ++ encodeChar space_as_plus str[c] := by
        rw [take_succ_of_getElem? read, urlEncode, List.flatMap_append, copied]
        exact congrArg _ (List.flatMap_singleton _ _)
      rw [urlEncodeFrom, if_pos inside, read, Option.bind_eq_bind, Option.bind_some, uriChars_eq]
      cases unreserved : charIsUnreserved str[c] with
      | true =>
          refine inductionHypothesis ?_ (by omega)
          rw [step, take_succ_of_getElem? read, getD_map_append, encodeChar, if_pos unreserved]
      | false =>
          have escape := escapeAt_eq space_as_plus unreserved
          simp only [Bool.false_eq_true, if_false, Option.bind_eq_bind, Option.bind_some,
            if_true, escape]
          exact inductionHypothesis step.symm (by omega)

/-! ### Escapes -/

/-- A byte in front of which no escape begins is read alone. -/
theorem urlDecode_cons {rest : List UInt8} (alone : ∀ high low more, char = 37 →
      rest = high :: low :: more → (isXdigit high && isXdigit low) = false) :
    urlDecode space_as_plus (char :: rest) =
      (if char = 43 ∧ space_as_plus then 32 else char) :: urlDecode space_as_plus rest := by
  by_cases percent : ∃ high low more, char = 37 ∧ rest = high :: low :: more
  · obtain ⟨high, low, more, rfl, rfl⟩ := percent
    rw [urlDecode, alone high low more rfl rfl]
    rfl
  · rw [urlDecode]
    rintro high low more rfl rfl
    exact percent ⟨high, low, more, rfl, rfl⟩

/-- The condition reads two characters ahead where they are there. -/
theorem isEscapeAt_eq (str : List UInt8) (c : Nat) (char : UInt8) :
    ∃ escape, isEscapeAt str c char = some escape ∧
      (escape = true → char = 37 ∧ ∃ high low, str[c + 1]? = some high ∧
        str[c + 2]? = some low ∧ isXdigit high = true ∧ isXdigit low = true) ∧
      (escape = false → ∀ high low more, char = 37 → str.drop (c + 1) = high :: low :: more →
        (isXdigit high && isXdigit low) = false) := by
  rw [isEscapeAt]
  by_cases ahead : char = 37 ∧ c + 2 < str.length
  · have first := List.getElem?_eq_getElem (Nat.lt_of_succ_lt ahead.2)
    have second := List.getElem?_eq_getElem ahead.2
    refine ⟨isXdigit str[c + 1] && isXdigit str[c + 2], ?_, fun escape => ?_, fun escape => ?_⟩
    · rw [if_pos ahead, first, second]
      simp only [Option.bind_eq_bind, Option.bind_some]
      cases digit : isXdigit str[c + 1] <;> rfl
    · rw [Bool.and_eq_true_iff] at escape
      exact ⟨ahead.1, _, _, first, second, escape⟩
    · intro high low more _ rest
      rw [List.drop_eq_getElem_cons (Nat.lt_of_succ_lt ahead.2),
        List.drop_eq_getElem_cons ahead.2] at rest
      cases rest
      exact escape
  · refine ⟨false, if_neg ahead, fun escape => absurd escape Bool.false_ne_true, fun _ => ?_⟩
    intro high low more percent rest
    have short := congrArg List.length rest
    rw [List.length_drop, List.length_cons, List.length_cons] at short
    exact absurd ⟨percent, by omega⟩ ahead

/-- What is copied so far, in front of what the rest is read as, is what the string is read
as. -/
theorem urlDecodeFrom_eq (copied : ss.getD (str.take c) ++ urlDecode space_as_plus (str.drop c) =
      urlDecode space_as_plus str) :
    urlDecodeFrom str space_as_plus c ss = some (urlDecode space_as_plus str) := by
  induction left : str.length - c using Nat.strongRecOn generalizing c ss with
  | _ left inductionHypothesis =>
      rw [urlDecodeFrom]
      by_cases inside : c < str.length
      · have read := List.getElem?_eq_getElem inside
        rw [if_pos inside, read, Option.bind_eq_bind, Option.bind_some]
        rw [drop_of_getElem? read] at copied
        obtain ⟨escape, condition, digits, alone⟩ := isEscapeAt_eq str c str[c]
        by_cases plus : str[c] = 43 ∧ space_as_plus
        · rw [if_pos plus]
          refine inductionHypothesis _ (by omega) ?_ rfl
          rw [Option.getD_some, List.append_assoc, ← copied, urlDecode_cons, if_pos plus]
          · rfl
          · rw [plus.1]
            rintro high low more ⟨⟩
        · rw [if_neg plus, condition, Option.bind_eq_bind, Option.bind_some]
          cases escape with
          | true =>
              obtain ⟨percent, high, low, first, second, digitHigh, digitLow⟩ := digits rfl
              have plain : unescapeAt str c = some (xdigitChar high <<< 4 ||| xdigitChar low) := by
                simp only [unescapeAt, first, second, xdigitChars_eq _ digitHigh,
                  xdigitChars_eq _ digitLow, Option.bind_eq_bind, Option.bind_some, pure]
              rw [if_pos rfl, plain, Option.bind_some]
              refine inductionHypothesis _ (by omega) ?_ rfl
              rw [drop_of_getElem? first, drop_of_getElem? second, percent, urlDecode,
                if_pos (by rw [digitHigh, digitLow]; rfl)] at copied
              rw [Option.getD_some, List.append_assoc, ← copied]
              rfl
          | false =>
              refine inductionHypothesis _ (by omega) ?_ rfl
              rw [urlDecode_cons (alone rfl), if_neg plus] at copied
              rw [take_succ_of_getElem? read, getD_map_append, List.append_assoc, ← copied]
              rfl
      · rw [if_neg inside]
        rw [List.take_of_length_le (by omega), List.drop_eq_nil_of_le (by omega)] at copied
        rw [← copied, urlDecode, List.append_nil]

theorem length_urlDecode (space_as_plus : Bool) (str : List UInt8) :
    (urlDecode space_as_plus str).length ≤ str.length := by
  fun_induction urlDecode space_as_plus str with
  | case1 => exact Nat.le_refl _
  | case2 high low str digits inductionHypothesis =>
      simp only [List.length_cons]
      omega
  | case3 high low str digits inductionHypothesis =>
      rw [List.length_cons, List.length_cons (a := 37)]
      omega
  | case4 c str alone inductionHypothesis =>
      rw [List.length_cons, List.length_cons]
      omega

/-- `UrlEncode` and `UrlDecode` do not read outside of their strings; the one undoes the
other, and what is decoded gets no longer. -/
theorem url_coding_round_trip (str : List UInt8) (space_as_plus : Bool) :
    (∃ escaped, urlEncodeFrom str space_as_plus 0 none = some escaped ∧
      urlDecodeFrom escaped space_as_plus 0 none = some str) ∧
    ∃ plain, urlDecodeFrom str space_as_plus 0 none = some plain ∧
      plain.length ≤ str.length := by
  refine ⟨⟨_, urlEncodeFrom_eq rfl, ?_⟩, _, urlDecodeFrom_eq rfl,
    length_urlDecode space_as_plus str⟩
  rw [urlDecodeFrom_eq rfl, urlDecode_urlEncode_same]

end Sylar.StringUtil
