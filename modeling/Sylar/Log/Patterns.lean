import Sylar.Log.Formatter

/-!
# The pattern compiler

`LogFormatter::init` against the segments a pattern is written from. `Scans` is one run of
its outer loop from its first round to its last.
-/

namespace Sylar.Log

open Http (bytes)

/-- A part of a pattern as its author thinks of it. -/
inductive Segment where
  | literal (str : Text)
  | bare (key : Text)
  | argument (key fmt : Text)
deriving DecidableEq, Repr

/-- A non-empty run of letters. -/
def IsKey (key : Text) : Prop := key ≠ [] ∧ ∀ char ∈ key, isalpha char = true

instance (key : Text) : Decidable (IsKey key) := inferInstanceAs (Decidable (_ ∧ _))

/-- A byte that makes a bare key longer or gives it an argument. -/
def extendsKey (char : UInt8) : Bool := isalpha char || char == 123 || char == 125

namespace Segment

/-- Plain text with each percent sign doubled. -/
def escape (str : Text) : Text := str.flatMap fun char => if char = 37 then [37, 37] else [char]

/-- The text of a segment in a pattern. -/
def render : Segment → Text
  | literal str => escape str
  | bare key => 37 :: key
  | argument key fmt => 37 :: (key ++ 123 :: (fmt ++ [125]))

/-- The segment can be told apart in a pattern. -/
def WellFormed : Segment → Prop
  | literal _ => True
  | bare key => IsKey key
  | argument key fmt => IsKey key ∧ 125 ∉ fmt

instance : DecidablePred WellFormed
  | literal _ => inferInstanceAs (Decidable True)
  | bare key => inferInstanceAs (Decidable (IsKey key))
  | argument key fmt => inferInstanceAs (Decidable (IsKey key ∧ 125 ∉ fmt))

/-- The item of a key with its argument, or its error text. -/
def keyItem (key fmt : Text) : FormatItem :=
  match LogFormatter.formatItem key fmt with
  | some item => item
  | none => .string (bytes "<<error_format %" ++ key ++ bytes ">>")

/-- The item that a segment stands for. -/
def item : Segment → FormatItem
  | literal str => .string str
  | bare key => keyItem key []
  | argument key fmt => keyItem key fmt

/-- A key that no item is registered for. -/
def Unknown : Segment → Prop
  | literal _ => False
  | bare key => LogFormatter.formatItem key [] = none
  | argument key fmt => LogFormatter.formatItem key fmt = none

end Segment

/-- The concatenated pattern. -/
def patternOf (segments : List Segment) : Text := segments.flatMap Segment.render

/-- No bare key is directly followed by a byte that extends it. -/
def Separated : List Segment → Prop
  | [] => True
  | .bare _ :: rest => (patternOf rest).head?.any extendsKey = false ∧ Separated rest
  | _ :: rest => Separated rest

/-- Plain text in front of segments, merged with a literal at their head. -/
def prepend (str : Text) : List Segment → List Segment
  | .literal more :: rest => .literal (str ++ more) :: rest
  | segments => if str = [] then segments else .literal str :: segments

/-- The segments with adjacent literals merged and empty ones left out. -/
def joined : List Segment → List Segment
  | [] => []
  | .literal str :: rest => prepend str (joined rest)
  | segment :: rest => segment :: joined rest

/-- The percent sign behind `before` is not the second one of a pair. -/
def Unescaped (before : Text) : Prop := (before.reverse.takeWhile (· == 37)).length % 2 = 0

instance (before : Text) : Decidable (Unescaped before) := inferInstanceAs (Decidable (_ = _))

/-- A pattern in which a brace is opened behind a key and never closed. -/
def LeavesOpen (pattern : Text) : Prop :=
  ∃ before key rest, pattern = before ++ 37 :: (key ++ 123 :: rest) ∧ Unescaped before ∧
    IsKey key ∧ 125 ∉ rest

namespace LogFormatter

/-- The outer loop from some plain text to its end. -/
inductive Scans : Text → Text → List Piece → Bool → Prop where
  | done (nstr : Text) : Scans nstr [] (flush nstr) false
  | plain {nstr rest : Text} {char : UInt8} {vec : List Piece} {error : Bool} (other : char ≠ 37)
      (later : Scans (nstr ++ [char]) rest vec error) : Scans nstr (char :: rest) vec error
  | percent {nstr rest : Text} {vec : List Piece} {error : Bool}
      (later : Scans (nstr ++ [37]) rest vec error) : Scans nstr (37 :: 37 :: rest) vec error
  | key {nstr text str fmt rest : Text} {vec : List Piece} {error : Bool}
      (single : text.head? ≠ some 37) (found : scanKey [] text = some (str, fmt, rest))
      (later : Scans [] rest vec error) :
      Scans nstr (37 :: text) (flush nstr ++ .key str fmt :: vec) error
  | leftOpen {nstr text : Text} {vec : List Piece} {error : Bool}
      (single : text.head? ≠ some 37) (unclosed : scanKey [] text = none)
      (later : Scans nstr text vec error) :
      Scans nstr (37 :: text) (.text (bytes "<<pattern_error>>") :: vec) true

/-- The loop of `init` comes to the end of the pattern. -/
def Finishes (pattern : Text) : Prop :=
  Scans [] pattern (scan pattern.length [] pattern).1 (scan pattern.length [] pattern).2

variable {nstr str fmt key text rest tail before : Text} {vec : List Piece} {error : Bool}

/-! ### Keys -/

theorem scanArgument_length (found : scanArgument str text = some (fmt, rest)) :
    rest.length < text.length := by
  induction text generalizing str with
  | nil => simp [scanArgument] at found
  | cons char text inductionHypothesis =>
      rw [scanArgument] at found
      split at found
      · cases found
        exact Nat.lt_succ_self _
      · exact Nat.lt_succ_of_lt (inductionHypothesis found)

theorem scanKey_length (found : scanKey str text = some (key, fmt, rest)) :
    rest.length ≤ text.length := by
  induction text generalizing str with
  | nil =>
      cases found
      exact Nat.le_refl _
  | cons char text inductionHypothesis =>
      rw [scanKey] at found
      split at found
      · cases found
        exact Nat.le_refl _
      · split at found
        · obtain ⟨⟨argument, left⟩, read, same⟩ := Option.map_eq_some_iff.1 found
          cases same
          exact Nat.le_succ_of_le (Nat.le_of_lt (scanArgument_length read))
        · exact Nat.le_succ_of_le (inductionHypothesis found)

theorem scanArgument_closed (inside : 125 ∉ fmt) :
    scanArgument str (fmt ++ 125 :: rest) = some (str ++ fmt, rest) := by
  induction fmt generalizing str with
  | nil => simp [scanArgument]
  | cons char fmt inductionHypothesis =>
      simp only [List.mem_cons, not_or] at inside
      obtain ⟨other, inside⟩ := inside
      rw [List.cons_append, scanArgument, if_neg (Ne.symm other), inductionHypothesis inside,
        List.append_assoc, List.singleton_append]

theorem scanArgument_unclosed (inside : 125 ∉ text) : scanArgument str text = none := by
  induction text generalizing str with
  | nil => rfl
  | cons char text inductionHypothesis =>
      simp only [List.mem_cons, not_or] at inside
      obtain ⟨other, inside⟩ := inside
      rw [scanArgument, if_neg (Ne.symm other), inductionHypothesis inside]

theorem scanKey_letters (letters : ∀ char ∈ key, isalpha char = true) :
    scanKey str (key ++ text) = scanKey (str ++ key) text := by
  induction key generalizing str with
  | nil => simp
  | cons char key inductionHypothesis =>
      have letter := letters char List.mem_cons_self
      have brace : char ≠ 123 := by
        rintro rfl
        exact absurd letter (by decide)
      rw [List.cons_append, scanKey, if_neg (by simp [letter]), if_neg brace,
        inductionHypothesis fun char member => letters char (List.mem_cons_of_mem _ member),
        List.append_assoc, List.singleton_append]

theorem scanKey_stops (stop : text.head?.any extendsKey = false) :
    scanKey str text = some (str, [], text) := by
  cases text with
  | nil => rfl
  | cons char text =>
      have other : extendsKey char = false := stop
      simp only [extendsKey, Bool.or_eq_false_iff, beq_eq_false_iff_ne] at other
      rw [scanKey, if_pos (by simp [other])]

theorem scanKey_argument (inside : 125 ∉ fmt) :
    scanKey str (123 :: (fmt ++ 125 :: rest)) = some (str, fmt, rest) := by
  rw [scanKey, if_neg (by decide), if_pos rfl, scanArgument_closed inside]
  rfl

theorem scanKey_unclosed (inside : 125 ∉ rest) : scanKey str (123 :: rest) = none := by
  rw [scanKey, if_neg (by decide), if_pos rfl, scanArgument_unclosed inside]
  rfl

theorem head_of_isKey (isKey : IsKey key) : (key ++ text).head? ≠ some 37 := by
  obtain ⟨nonempty, letters⟩ := isKey
  cases key with
  | nil => exact absurd rfl nonempty
  | cons char key =>
      have letter := letters char List.mem_cons_self
      rintro ⟨⟩
      exact absurd letter (by decide)

/-! ### Runs of the loop -/

theorem scan_plain {fuel : Nat} {char : UInt8} (other : char ≠ 37) :
    scan (fuel + 1) nstr (char :: text) = scan fuel (nstr ++ [char]) text := by
  rw [scan.eq_def]
  exact if_pos other

theorem scan_key {fuel : Nat} (single : text.head? ≠ some 37)
    (found : scanKey [] text = some (str, fmt, rest)) :
    scan (fuel + 1) nstr (37 :: text) =
      (flush nstr ++ .key str fmt :: (scan fuel [] rest).1, (scan fuel [] rest).2) := by
  rw [scan, if_neg (by decide), found]
  rintro text rfl
  exact single rfl

theorem scan_leftOpen {fuel : Nat} (single : text.head? ≠ some 37)
    (unclosed : scanKey [] text = none) :
    scan (fuel + 1) nstr (37 :: text) =
      (.text (bytes "<<pattern_error>>") :: (scan fuel nstr text).1, true) := by
  rw [scan, if_neg (by decide), unclosed]
  rintro text rfl
  exact single rfl

/-- A round takes at least one byte, so the loop comes to its end. -/
theorem scans_scan (fuel : Nat) (nstr text : Text) (enough : text.length ≤ fuel) :
    Scans nstr text (scan fuel nstr text).1 (scan fuel nstr text).2 := by
  induction fuel generalizing nstr text with
  | zero =>
      cases List.length_eq_zero_iff.1 (Nat.le_zero.1 enough)
      exact .done nstr
  | succ fuel inductionHypothesis =>
      rcases text with _ | ⟨char, text⟩
      · exact .done nstr
      have shorter : text.length ≤ fuel := Nat.le_of_succ_le_succ enough
      by_cases isPercent : char = 37
      · subst isPercent
        by_cases single : text.head? = some 37
        · obtain ⟨rest, rfl⟩ := List.head?_eq_some_iff.1 single
          exact .percent (inductionHypothesis _ rest (Nat.le_of_succ_le shorter))
        · cases found : scanKey [] text with
          | none =>
              rw [scan_leftOpen single found]
              exact .leftOpen single found (inductionHypothesis _ _ shorter)
          | some read =>
              obtain ⟨str, fmt, rest⟩ := read
              rw [scan_key single found]
              exact .key single found
                (inductionHypothesis _ _ (Nat.le_trans (scanKey_length found) shorter))
      · rw [scan_plain isPercent]
        exact .plain isPercent (inductionHypothesis _ _ shorter)

/-- The run is the only one. -/
theorem Scans.deterministic {vec' : List Piece} {error' : Bool} (run : Scans nstr text vec error)
    (other : Scans nstr text vec' error') : vec' = vec ∧ error' = error := by
  induction run generalizing vec' error' with
  | done nstr =>
      cases other
      exact ⟨rfl, rfl⟩
  | plain differs later inductionHypothesis =>
      cases other with
      | plain _ later' => exact inductionHypothesis later'
      | percent => exact absurd rfl differs
      | key => exact absurd rfl differs
      | leftOpen => exact absurd rfl differs
  | percent later inductionHypothesis =>
      cases other with
      | plain differs => exact absurd rfl differs
      | percent later' => exact inductionHypothesis later'
      | key single => exact absurd rfl single
      | leftOpen single => exact absurd rfl single
  | key single found later inductionHypothesis =>
      cases other with
      | plain differs => exact absurd rfl differs
      | percent => exact absurd rfl single
      | key _ found' later' =>
          cases found.symm.trans found'
          obtain ⟨rfl, rfl⟩ := inductionHypothesis later'
          exact ⟨rfl, rfl⟩
      | leftOpen _ unclosed => exact absurd (found.symm.trans unclosed) (by simp)
  | leftOpen single unclosed later inductionHypothesis =>
      cases other with
      | plain differs => exact absurd rfl differs
      | percent => exact absurd rfl single
      | key _ found => exact absurd (unclosed.symm.trans found) (by simp)
      | leftOpen _ _ later' =>
          obtain ⟨rfl, rfl⟩ := inductionHypothesis later'
          exact ⟨rfl, rfl⟩

theorem finishes (pattern : Text) : Finishes pattern := scans_scan _ _ _ (Nat.le_refl _)

theorem new_of_scans {pattern : Text} (run : Scans [] pattern vec error) :
    (new pattern).items = vec.map LogFormatter.item ∧
      (new pattern).isError = (error || vec.any unknown) := by
  obtain ⟨sameVec, sameError⟩ := run.deterministic (finishes pattern)
  subst sameVec sameError
  exact ⟨rfl, rfl⟩

/-! ### Segments -/

/-- What the loop stores for segments, with the plain text in front of them. -/
def stored : Text → List Segment → List Piece
  | nstr, [] => flush nstr
  | nstr, .literal str :: rest => stored (nstr ++ str) rest
  | nstr, .bare key :: rest => flush nstr ++ .key key [] :: stored [] rest
  | nstr, .argument key fmt :: rest => flush nstr ++ .key key fmt :: stored [] rest

theorem Scans.escaped (later : Scans (nstr ++ str) rest vec error) :
    Scans nstr (Segment.escape str ++ rest) vec error := by
  induction str generalizing nstr with
  | nil => simpa [Segment.escape] using later
  | cons char str inductionHypothesis =>
      rw [← List.singleton_append, ← List.append_assoc] at later
      have tail := inductionHypothesis later
      by_cases isPercent : char = 37
      · subst isPercent
        simpa [Segment.escape] using Scans.percent tail
      · simpa [Segment.escape, isPercent] using Scans.plain isPercent tail

theorem scans_segments (nstr : Text) (segments : List Segment)
    (wellFormed : ∀ segment ∈ segments, segment.WellFormed) (separated : Separated segments) :
    Scans nstr (patternOf segments) (stored nstr segments) false := by
  induction segments generalizing nstr with
  | nil => exact .done nstr
  | cons segment rest inductionHypothesis =>
      have first := wellFormed segment List.mem_cons_self
      have others : ∀ segment ∈ rest, segment.WellFormed :=
        fun segment member => wellFormed segment (List.mem_cons_of_mem _ member)
      cases segment with
      | literal str => exact .escaped (inductionHypothesis _ others separated)
      | bare key =>
          have found : scanKey [] (key ++ patternOf rest) = some (key, [], patternOf rest) := by
            rw [scanKey_letters first.2, List.nil_append, scanKey_stops separated.1]
          exact .key (head_of_isKey first) found (inductionHypothesis _ others separated.2)
      | argument key fmt =>
          have found : scanKey [] (key ++ 123 :: (fmt ++ 125 :: patternOf rest)) =
              some (key, fmt, patternOf rest) := by
            rw [scanKey_letters first.1.2, List.nil_append, scanKey_argument first.2]
          have whole : patternOf (.argument key fmt :: rest) =
              37 :: (key ++ 123 :: (fmt ++ 125 :: patternOf rest)) := by
            simp [patternOf, Segment.render]
          rw [whole]
          exact .key (head_of_isKey first.1) found (inductionHypothesis _ others separated)

theorem prepend_prepend (first second : Text) (segments : List Segment) :
    prepend first (prepend second segments) = prepend (first ++ second) segments := by
  rcases segments with _ | ⟨_ | _ | _, rest⟩ <;>
    by_cases empty : second = [] <;> simp [prepend, empty]

theorem prepend_nil (segments : List Segment) : prepend [] segments = segments := by
  rcases segments with _ | ⟨_ | _ | _, rest⟩ <;> simp [prepend]

theorem item_key (key fmt : Text) : item (.key key fmt) = Segment.keyItem key fmt := by
  unfold Segment.keyItem
  split <;> rename_i found <;> simp [item, found]

theorem joined_bare (key : Text) (rest : List Segment) :
    joined (.bare key :: rest) = .bare key :: joined rest := rfl

theorem joined_argument (key fmt : Text) (rest : List Segment) :
    joined (.argument key fmt :: rest) = .argument key fmt :: joined rest := rfl

theorem flush_items (nstr : Text) (segments : List Segment)
    (other : ∀ str, segments.head? ≠ some (.literal str)) :
    (flush nstr).map item ++ segments.map Segment.item =
      (prepend nstr segments).map Segment.item := by
  rcases segments with _ | ⟨_ | _ | _, rest⟩
  · by_cases empty : nstr = [] <;> simp [flush, prepend, empty, item, Segment.item]
  · exact absurd rfl (other _)
  · by_cases empty : nstr = [] <;> simp [flush, prepend, empty, item, Segment.item]
  · by_cases empty : nstr = [] <;> simp [flush, prepend, empty, item, Segment.item]

/-- Every piece stored for segments is one of the merged segments. -/
theorem stored_items (nstr : Text) (segments : List Segment) :
    (stored nstr segments).map item = (prepend nstr (joined segments)).map Segment.item := by
  induction segments generalizing nstr with
  | nil => simpa [stored, joined] using flush_items nstr [] (by simp)
  | cons segment rest inductionHypothesis =>
      cases segment with
      | literal str => rw [stored, inductionHypothesis, joined, prepend_prepend]
      | bare key =>
          rw [stored, joined_bare, ← flush_items nstr _ (by simp), List.map_append, List.map_cons,
            inductionHypothesis, prepend_nil, item_key]
          rfl
      | argument key fmt =>
          rw [stored, joined_argument, ← flush_items nstr _ (by simp), List.map_append, List.map_cons,
            inductionHypothesis, prepend_nil, item_key]
          rfl

theorem flush_unknown (nstr : Text) : (flush nstr).any unknown = false := by
  by_cases empty : nstr = [] <;> simp [flush, empty, unknown]

theorem stored_unknown (nstr : Text) (segments : List Segment) :
    (stored nstr segments).any unknown = true ↔ ∃ segment ∈ segments, segment.Unknown := by
  induction segments generalizing nstr with
  | nil => simp [stored, flush_unknown]
  | cons segment rest inductionHypothesis =>
      cases segment <;>
        simp [stored, flush_unknown, unknown, Segment.Unknown, inductionHypothesis]

/-! ### Open arguments -/

theorem unescaped_pair : Unescaped (37 :: 37 :: before) ↔ Unescaped before := by
  unfold Unescaped
  rw [List.reverse_cons, List.reverse_cons, List.append_assoc, List.takeWhile_append]
  split
  · rename_i all
    simp [all]
  · rfl

/-- The run of percent signs does not reach past another byte. -/
theorem unescaped_behind (front : Text) {char : UInt8} (other : char ≠ 37) :
    Unescaped (front ++ char :: before) ↔ Unescaped before := by
  unfold Unescaped
  rw [List.reverse_append, List.reverse_cons, List.append_assoc, List.takeWhile_append]
  split
  · rename_i all
    simp [all, other]
  · rfl

theorem scanArgument_within (unclosed : 125 ∉ tail)
    (found : scanArgument str (before ++ tail) = some (fmt, rest)) :
    ∃ front left, before = front ++ 125 :: left ∧ rest = left ++ tail := by
  induction before generalizing str with
  | nil => exact absurd ((scanArgument_unclosed unclosed).symm.trans found) (by simp)
  | cons char before inductionHypothesis =>
      rw [List.cons_append, scanArgument] at found
      split at found
      · rename_i closes
        cases found
        exact ⟨[], before, by rw [closes, List.nil_append], rfl⟩
      · obtain ⟨front, left, rfl, same⟩ := inductionHypothesis found
        exact ⟨char :: front, left, rfl, same⟩

/-- The scanner stops in front of a percent sign that opens a key, or there. -/
theorem scanKey_within (unclosed : 125 ∉ tail)
    (found : scanKey str (before ++ 37 :: tail) = some (key, fmt, rest))
    (unescaped : Unescaped before) : ∃ left, rest = left ++ 37 :: tail ∧ Unescaped left := by
  induction before generalizing str with
  | nil =>
      cases found
      exact ⟨[], rfl, unescaped⟩
  | cons char before inductionHypothesis =>
      rw [List.cons_append, scanKey] at found
      split at found
      · cases found
        exact ⟨char :: before, rfl, unescaped⟩
      · rename_i longer
        have other : char ≠ 37 := by
          rintro rfl
          exact longer (by decide)
        have behind : Unescaped before := (unescaped_behind [] other).1 unescaped
        split at found
        · obtain ⟨⟨argument, read⟩, closed, same⟩ := Option.map_eq_some_iff.1 found
          cases same
          have open' : 125 ∉ (37 : UInt8) :: tail := by simpa using unclosed
          obtain ⟨front, left, rfl, same⟩ := scanArgument_within open' closed
          exact ⟨left, same, (unescaped_behind front (by decide)).1 behind⟩
        · exact inductionHypothesis found behind

theorem Scans.error_of_leavesOpen (run : Scans nstr text vec error) (unescaped : Unescaped before)
    (isKey : IsKey key) (unclosed : 125 ∉ rest)
    (whole : text = before ++ 37 :: (key ++ 123 :: rest)) : error = true := by
  have head : (key ++ 123 :: rest).head? ≠ some 37 := head_of_isKey isKey
  have fails : scanKey [] (key ++ 123 :: rest) = none := by
    rw [scanKey_letters isKey.2, scanKey_unclosed unclosed]
  have never : 125 ∉ key ++ 123 :: rest := by
    intro member
    rcases List.mem_append.1 member with letter | letter
    · exact absurd (isKey.2 _ letter) (by decide)
    · exact unclosed (List.mem_of_ne_of_mem (by decide) letter)
  induction run generalizing before with
  | done nstr => exact absurd whole (by simp)
  | plain other later inductionHypothesis =>
      cases before with
      | nil =>
          cases whole
          exact absurd rfl other
      | cons char before =>
          cases whole
          exact inductionHypothesis ((unescaped_behind [] other).1 unescaped) rfl
  | percent later inductionHypothesis =>
      rcases before with _ | ⟨char, _ | ⟨second, before⟩⟩
      · exact absurd (congrArg List.head? (List.cons.inj whole).2).symm head
      · cases whole
        exact absurd unescaped (by decide)
      · cases whole
        exact inductionHypothesis (unescaped_pair.1 unescaped) rfl
  | key single found later inductionHypothesis =>
      cases before with
      | nil =>
          cases whole
          exact absurd (found.symm.trans fails) (by simp)
      | cons char before =>
          cases whole
          rcases before with _ | ⟨char, before⟩
          · exact absurd rfl single
          have other : char ≠ 37 := by
            rintro rfl
            exact single rfl
          obtain ⟨left, same, behind⟩ := scanKey_within never found
            ((unescaped_behind [] other).2 ((unescaped_behind [37] other).1 unescaped))
          exact inductionHypothesis behind same
  | leftOpen => rfl

/-- `init` comes to its end with exactly the items of the segments, reports exactly the unknown
keys among them, and reports every argument that is left open. -/
theorem new_compiles :
    (∀ segments : List Segment, (∀ segment ∈ segments, segment.WellFormed) → Separated segments →
      Finishes (patternOf segments) ∧
        (new (patternOf segments)).items = (joined segments).map Segment.item ∧
        ((new (patternOf segments)).isError = true ↔
          ∃ segment ∈ segments, segment.Unknown)) ∧
      ∀ pattern, LeavesOpen pattern → Finishes pattern ∧ (new pattern).isError = true := by
  constructor
  · intro segments wellFormed separated
    obtain ⟨items, reported⟩ := new_of_scans (scans_segments [] segments wellFormed separated)
    rw [stored_items, prepend_nil] at items
    exact ⟨finishes _, items, by rw [reported, Bool.false_or, stored_unknown]⟩
  · rintro pattern ⟨before, key, rest, whole, unescaped, isKey, unclosed⟩
    have run := finishes pattern
    have reported := (new_of_scans run).2
    rw [run.error_of_leavesOpen unescaped isKey unclosed whole, Bool.true_or] at reported
    exact ⟨run, reported⟩

/-- `"100%%%d{%Y}%m, %q"`, whose last key is not registered. -/
def datedPattern : List Segment :=
  [.literal (bytes "100"), .literal (bytes "%"), .argument (bytes "d") (bytes "%Y"),
    .bare (bytes "m"), .literal (bytes ", "), .bare (bytes "q")]

/-- `"%%%m%d{%Y"`. -/
def openPattern : Text := bytes "%%%m%d\x7b%Y"

theorem new_datedPattern_openPattern :
    (new (patternOf datedPattern)).items =
        [.string (bytes "100%"), .dateTime (bytes "%Y"), .message, .string (bytes ", "),
          .string (bytes "<<error_format %q>>")] ∧
      (new (patternOf datedPattern)).isError = true ∧ (new openPattern).isError = true := by
  have segments := new_compiles.1 datedPattern (by decide)
    ⟨by decide, by decide, trivial⟩
  have left := new_compiles.2 openPattern
    ⟨bytes "%%%m", bytes "d", bytes "%Y", by decide, by decide, by decide, by decide⟩
  refine ⟨segments.2.1.trans (by decide), segments.2.2.2 ?_, left.2⟩
  exact ⟨.bare (bytes "q"), by decide, by unfold Segment.Unknown; decide⟩

end LogFormatter

end Sylar.Log
