import Sylar.Http.ParamSegments

/-!
# Trimming

`Trim`, `TrimLeft` and `TrimRight` of `util.cpp`. `TrimRight` takes the position of the last
character that stays for the length of what stays, so that it loses this character.
-/

namespace Sylar.StringUtil

section Model

/-- `find_first_not_of`. -/
def findFirstNotOf (str delimit : List UInt8) : Option Nat :=
  str.findIdx? fun c => !delimit.contains c

/-- `find_last_not_of`. -/
def findLastNotOf (str delimit : List UInt8) : Option Nat :=
  (findFirstNotOf str.reverse delimit).map (str.length - 1 - ·)

/-- `substr`. -/
def substr (str : List UInt8) (pos n : Nat) : List UInt8 := (str.drop pos).take n

def trim (str delimit : List UInt8) : List UInt8 :=
  match findFirstNotOf str delimit, findLastNotOf str delimit with
  | some first, some last => substr str first (last - first + 1)
  -- A string without a first such character has no last one.
  | _, _ => []

def trimLeft (str delimit : List UInt8) : List UInt8 :=
  match findFirstNotOf str delimit with
  | some first => substr str first str.length
  | none => []

def trimRight (str delimit : List UInt8) : List UInt8 :=
  match findLastNotOf str delimit with
  | some last => substr str 0 last
  | none => []

end Model

section Laws

/-- The longest prefix of `str` made of characters in `delimit`. -/
def IsMaximalPrefix (cut str delimit : List UInt8) : Prop :=
  (cut <+: str ∧ ∀ c ∈ cut, c ∈ delimit) ∧
    ∀ other, other <+: str → (∀ c ∈ other, c ∈ delimit) → other.length ≤ cut.length

/-- The longest suffix of `str` made of characters in `delimit`. -/
def IsMaximalSuffix (cut str delimit : List UInt8) : Prop :=
  (cut <:+ str ∧ ∀ c ∈ cut, c ∈ delimit) ∧
    ∀ other, other <:+ str → (∀ c ∈ other, c ∈ delimit) → other.length ≤ cut.length

/-- The laws of trimming, for one string and one set of delimiters. -/
structure TrimmingLaws (str delimit : List UInt8) : Prop where
  trimLeft_cuts : ∃ cut, IsMaximalPrefix cut str delimit ∧ str = cut ++ trimLeft str delimit
  trimRight_cuts : ∃ cut, IsMaximalSuffix cut str delimit ∧ str = trimRight str delimit ++ cut
  trimLeft_idempotent : trimLeft (trimLeft str delimit) delimit = trimLeft str delimit
  trimRight_idempotent : trimRight (trimRight str delimit) delimit = trimRight str delimit
  trim_idempotent : trim (trim str delimit) delimit = trim str delimit
  trim_eq_left_right : trim str delimit = trimLeft (trimRight str delimit) delimit
  trim_eq_right_left : trim str delimit = trimRight (trimLeft str delimit) delimit

end Laws

variable {str delimit : List UInt8}

/-! ### The searches -/

theorem findFirstNotOf_eq_none :
    findFirstNotOf str delimit = none ↔ ∀ c ∈ str, c ∈ delimit := by
  simp [findFirstNotOf]

/-- The first character that stays stands behind the maximal prefix. -/
theorem length_takeWhile_of_findFirstNotOf {first : Nat}
    (found : findFirstNotOf str delimit = some first) :
    (str.takeWhile (delimit.contains ·)).length = first ∧ first < str.length := by
  have position := List.findIdx?_eq_some_iff_findIdx_eq.1 found
  have prefixed : str.takeWhile (delimit.contains ·) =
      str.take (str.findIdx fun c => !delimit.contains c) := List.takeWhile_eq_take_findIdx_not
  rw [position.2] at prefixed
  rw [prefixed, List.length_take]
  omega

theorem drop_of_findFirstNotOf {first : Nat} (found : findFirstNotOf str delimit = some first) :
    str.drop first = str.dropWhile (delimit.contains ·) := by
  have front := List.takeWhile_append_dropWhile (p := (delimit.contains ·)) (l := str)
  rw [← (length_takeWhile_of_findFirstNotOf found).1]
  nth_rewrite 2 [← front]
  exact List.drop_left

theorem findLastNotOf_eq_none :
    findLastNotOf str delimit = none ↔ ∀ c ∈ str, c ∈ delimit := by
  simp [findLastNotOf, findFirstNotOf_eq_none]

/-- The last character that stays stands in front of the maximal suffix. -/
theorem length_rtakeWhile_of_findLastNotOf {last : Nat}
    (found : findLastNotOf str delimit = some last) :
    last + 1 + (str.rtakeWhile (delimit.contains ·)).length = str.length := by
  obtain ⟨behind, position, rfl⟩ := Option.map_eq_some_iff.1 found
  obtain ⟨cut, inside⟩ := length_takeWhile_of_findFirstNotOf position
  rw [List.rtakeWhile, List.length_reverse, cut]
  rw [List.length_reverse] at inside
  omega

theorem trimLeft_eq : trimLeft str delimit = str.dropWhile (delimit.contains ·) := by
  rw [trimLeft]
  cases found : findFirstNotOf str delimit with
  | none =>
      rw [findFirstNotOf_eq_none] at found
      symm
      simpa using found
  | some first =>
      calc substr str first str.length
          = str.drop first := List.take_of_length_le (by rw [List.length_drop]; omega)
        _ = str.dropWhile (delimit.contains ·) := drop_of_findFirstNotOf found

/-- What `TrimRight` leaves is one character short. -/
theorem trimRight_eq :
    trimRight str delimit = (str.rdropWhile (delimit.contains ·)).dropLast := by
  rw [trimRight]
  cases found : findLastNotOf str delimit with
  | none =>
      rw [findLastNotOf_eq_none] at found
      rw [List.rdropWhile_eq_nil_iff.2 (by simpa using found)]
      rfl
  | some last =>
      have cut := length_rtakeWhile_of_findLastNotOf found
      have back := List.rdropWhile_append_rtakeWhile (p := (delimit.contains ·)) (l := str)
      have kept : (str.rdropWhile (delimit.contains ·)).length = last + 1 := by
        have lengths := congrArg List.length back
        rw [List.length_append] at lengths
        omega
      rw [List.dropLast_eq_take, kept, Nat.add_sub_cancel]
      nth_rewrite 1 [← back]
      exact List.take_append_of_le_length (by omega)

theorem exists_kept {p : UInt8 → Bool} (stays : str.dropWhile p ≠ []) :
    ∃ c ∈ str.dropWhile p, p c = false :=
  ⟨_, List.head_mem stays, List.head_dropWhile_not p stays⟩

/-- Where something stays, the maximal suffix is that of what `TrimLeft` leaves. -/
theorem rtakeWhile_dropWhile {p : UInt8 → Bool} (stays : str.dropWhile p ≠ []) :
    (str.dropWhile p).rtakeWhile p = str.rtakeWhile p := by
  obtain ⟨c, member, kept⟩ := exists_kept stays
  have short : ((str.dropWhile p).reverse.takeWhile p).length ≠
      (str.dropWhile p).reverse.length := by
    intro same
    have whole := (List.takeWhile_prefix p).eq_of_length same
    rw [List.takeWhile_eq_self_iff] at whole
    rw [whole c (List.mem_reverse.2 member)] at kept
    cases kept
  have front := List.takeWhile_append_dropWhile (p := p) (l := str)
  nth_rewrite 2 [← front]
  rw [List.rtakeWhile, List.rtakeWhile, List.reverse_append, List.takeWhile_append,
    if_neg short]

theorem trim_eq :
    trim str delimit =
      (str.dropWhile (delimit.contains ·)).rdropWhile (delimit.contains ·) := by
  rw [trim]
  cases found : findFirstNotOf str delimit with
  | none =>
      rw [findFirstNotOf_eq_none] at found
      rw [show str.dropWhile (delimit.contains ·) = [] by simpa using found]
      rfl
  | some first =>
      have some' : findLastNotOf str delimit ≠ none := by
        rw [Ne, findLastNotOf_eq_none, ← findFirstNotOf_eq_none, found]
        exact Option.some_ne_none first
      obtain ⟨last, foundLast⟩ := Option.ne_none_iff_exists'.1 some'
      have cutLeft := length_takeWhile_of_findFirstNotOf found
      have cutRight := length_rtakeWhile_of_findLastNotOf foundLast
      have left := drop_of_findFirstNotOf found
      have stays : str.dropWhile (delimit.contains ·) ≠ [] := by
        rw [← left, Ne, List.drop_eq_nil_iff]
        omega
      obtain ⟨c, member, kept⟩ := exists_kept stays
      have back := List.rdropWhile_append_rtakeWhile
        (p := (delimit.contains ·)) (l := str.dropWhile (delimit.contains ·))
      have lengths := congrArg List.length back
      rw [List.length_append, rtakeWhile_dropWhile stays, ← left, List.length_drop] at lengths
      have nonempty : (str.dropWhile (delimit.contains ·)).rdropWhile (delimit.contains ·) ≠ [] := by
        rw [Ne, List.rdropWhile_eq_nil_iff]
        intro all
        rw [all c member] at kept
        cases kept
      have positive := List.length_pos_iff.2 nonempty
      rw [← left] at positive
      rw [foundLast]
      calc (str.drop first).take (last - first + 1)
          = (str.dropWhile (delimit.contains ·)).take (last - first + 1) := by rw [left]
        _ = (str.dropWhile (delimit.contains ·)).rdropWhile (delimit.contains ·) := by
          nth_rewrite 1 [← back]
          refine List.take_left' ?_
          rw [← left]
          omega

/-- The trimming of a cookie's name is this one with its default delimiters. -/
theorem trim_default (str : List UInt8) : trim str (Http.bytes " \t\r\n") = Http.trim str := by
  rw [trim_eq]
  rfl

/-! ### The laws -/

theorem isMaximalPrefix_takeWhile (str delimit : List UInt8) :
    IsMaximalPrefix (str.takeWhile (delimit.contains ·)) str delimit := by
  refine ⟨⟨List.takeWhile_prefix _, fun c member => ?_⟩, ?_⟩
  · simpa using List.mem_takeWhile_imp member
  · rintro other ⟨rest, rfl⟩ inside
    have all : ∀ c ∈ other, delimit.contains c = true := by simpa using inside
    rw [List.takeWhile_append_of_pos all, List.length_append]
    omega

theorem isMaximalPrefix_reverse {cut : List UInt8} :
    IsMaximalPrefix cut.reverse str.reverse delimit ↔ IsMaximalSuffix cut str delimit := by
  rw [IsMaximalPrefix, IsMaximalSuffix, List.reverse_prefix]
  refine and_congr (and_congr Iff.rfl (by simp)) ⟨fun longest other suffix inside => ?_,
    fun longest other prefixed inside => ?_⟩
  · have short := longest other.reverse (List.reverse_prefix.2 suffix) (by simpa using inside)
    rwa [List.length_reverse, List.length_reverse] at short
  · have suffix : other.reverse <:+ str := by
      rwa [← List.reverse_prefix, List.reverse_reverse]
    have short := longest other.reverse suffix (by simpa using inside)
    rwa [List.length_reverse] at short ⊢

theorem isMaximalSuffix_rtakeWhile (str delimit : List UInt8) :
    IsMaximalSuffix (str.rtakeWhile (delimit.contains ·)) str delimit := by
  rw [← isMaximalPrefix_reverse, List.rtakeWhile, List.reverse_reverse]
  exact isMaximalPrefix_takeWhile str.reverse delimit

/-- Two longest suffixes are as long as each other. -/
theorem IsMaximalSuffix.length_eq {cut other : List UInt8}
    (maximal : IsMaximalSuffix cut str delimit) (maximal' : IsMaximalSuffix other str delimit) :
    cut.length = other.length :=
  Nat.le_antisymm (maximal'.2 cut maximal.1.1 maximal.1.2)
    (maximal.2 other maximal'.1.1 maximal'.1.2)

theorem trimLeft_isMaximal (str delimit : List UInt8) :
    ∃ cut, IsMaximalPrefix cut str delimit ∧ str = cut ++ trimLeft str delimit := by
  refine ⟨_, isMaximalPrefix_takeWhile str delimit, ?_⟩
  rw [trimLeft_eq, List.takeWhile_append_dropWhile]

theorem trimLeft_trimLeft (str delimit : List UInt8) :
    trimLeft (trimLeft str delimit) delimit = trimLeft str delimit := by
  simp only [trimLeft_eq, List.dropWhile_idempotent]

/-- `TrimRight` loses a character, except where nothing stays. -/
theorem all_delimit_of_trimRight
    (cuts : ∃ cut, IsMaximalSuffix cut str delimit ∧ str = trimRight str delimit ++ cut) :
    ∀ c ∈ str, c ∈ delimit := by
  obtain ⟨cut, maximal, whole⟩ := cuts
  have lengths := congrArg List.length whole
  have same := maximal.length_eq (isMaximalSuffix_rtakeWhile str delimit)
  have back := congrArg List.length
    (List.rdropWhile_append_rtakeWhile (p := (delimit.contains ·)) (l := str))
  rw [List.length_append, trimRight_eq, List.length_dropLast] at lengths
  rw [List.length_append] at back
  have nothing : str.rdropWhile (delimit.contains ·) = [] := by
    rw [← List.length_eq_zero_iff]
    omega
  rw [List.rdropWhile_eq_nil_iff] at nothing
  simpa using nothing

/-- Nothing stays of a string of delimiters. -/
theorem trimmed_of_all (all : ∀ c ∈ str, c ∈ delimit) :
    trim str delimit = [] ∧ trimLeft str delimit = [] ∧ trimRight str delimit = [] := by
  rw [trim, trimLeft, trimRight, findFirstNotOf_eq_none.2 all, findLastNotOf_eq_none.2 all]
  exact ⟨rfl, rfl, rfl⟩

/-- The laws hold of a string if and only if it is made of delimiters. -/
theorem trimmingLaws_iff (str delimit : List UInt8) :
    TrimmingLaws str delimit ↔ ∀ c ∈ str, c ∈ delimit := by
  constructor
  · intro laws
    exact all_delimit_of_trimRight laws.trimRight_cuts
  · intro all
    obtain ⟨noTrim, noLeft, noRight⟩ := trimmed_of_all all
    obtain ⟨noTrim', noLeft', noRight'⟩ :=
      @trimmed_of_all [] delimit (by simp)
    exact {
      trimLeft_cuts := trimLeft_isMaximal str delimit
      trimRight_cuts := by
        refine ⟨str, ⟨⟨List.suffix_rfl, all⟩, fun other suffix _ => suffix.length_le⟩, ?_⟩
        rw [noRight, List.nil_append]
      trimLeft_idempotent := trimLeft_trimLeft str delimit
      trimRight_idempotent := by rw [noRight, noRight']
      trim_idempotent := by rw [noTrim, noTrim']
      trim_eq_left_right := by rw [noTrim, noRight, noLeft']
      trim_eq_right_left := by rw [noTrim, noLeft, noRight'] }

/-- `TrimRight("a", " ")` is empty. -/
theorem not_trimmingLaws_letter : ¬ TrimmingLaws (Http.bytes "a") (Http.bytes " ") := by
  intro laws
  have equal := laws.trim_eq_left_right
  revert equal
  decide

end Sylar.StringUtil
