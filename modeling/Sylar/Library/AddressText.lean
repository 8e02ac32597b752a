import Sylar.Library.Numerals

/-!
# The text of an address of eight groups

Eight groups of up to four hexadecimal digits with colons between them, where `::`
stands once for one or more groups that are zero.
-/

namespace Sylar.Library

/-- The digits of a group. -/
def IsGroup (text : List UInt8) : Prop :=
  text ≠ [] ∧ text.length ≤ 4 ∧ text.all (isDigit 16) = true

instance (text : List UInt8) : Decidable (IsGroup text) := inferInstanceAs (Decidable (_ ∧ _))

/-- Groups with colons between them. -/
def joinGroups (texts : List (List UInt8)) : List UInt8 := [58].intercalate texts

/-- A text and the groups it stands for. -/
inductive AddressText : List UInt8 → List Nat → Prop
  | whole (texts : List (List UInt8)) (groups : ∀ text ∈ texts, IsGroup text)
      (eight : texts.length = 8) : AddressText (joinGroups texts) (texts.map (numeral 16))
  | compressed (left right : List (List UInt8)) (groups : ∀ text ∈ left ++ right, IsGroup text)
      (fewer : left.length + right.length < 8) :
      AddressText (joinGroups left ++ 58 :: 58 :: joinGroups right)
        (left.map (numeral 16) ++
          (List.replicate (8 - (left.length + right.length)) 0 ++ right.map (numeral 16)))

/-- What is in front of the first `::` and what is behind it. -/
def splitGap : List UInt8 → Option (List UInt8 × List UInt8)
  | [] => none
  | 58 :: 58 :: rest => some ([], rest)
  | byte :: rest => (splitGap rest).map fun parts => (byte :: parts.1, parts.2)

/-- Read a group. -/
def readGroup (text : List UInt8) : Option Nat :=
  if IsGroup text then some (numeral 16 text) else none

/-- Groups between single colons. -/
def readGroups (text : List UInt8) : Option (List Nat) :=
  if text = [] then some [] else (text.splitOn 58).mapM readGroup

/-- Read an address. -/
def readAddress (text : List UInt8) : Option (List Nat) :=
  match splitGap text with
  | none => (readGroups text).filter fun groups => groups.length = 8
  | some parts => do
      let left ← readGroups parts.1
      let right ← readGroups parts.2
      if left.length + right.length < 8 then
        some (left ++ (List.replicate (8 - (left.length + right.length)) 0 ++ right))
      else none

section Groups

variable {text more : List UInt8} {texts : List (List UInt8)}

theorem IsGroup.colon_notMem (group : IsGroup text) : 58 ∉ text := by
  intro member
  have digit := List.all_eq_true.mp group.2.2 58 member
  exact absurd digit (by decide)

theorem mapM_readGroup (groups : ∀ text ∈ texts, IsGroup text) :
    texts.mapM readGroup = some (texts.map (numeral 16)) := by
  induction texts with
  | nil => rfl
  | cons first rest inductionHypothesis =>
      obtain ⟨group, groups⟩ := List.forall_mem_cons.mp groups
      rw [List.mapM_cons, inductionHypothesis groups, readGroup, if_pos group]
      rfl

/-- Groups with colons between them are read back. -/
theorem readGroups_join (groups : ∀ text ∈ texts, IsGroup text) :
    readGroups (joinGroups texts) = some (texts.map (numeral 16)) := by
  unfold readGroups joinGroups
  rcases texts with _ | ⟨first, rest⟩
  · rfl
  · have some_ : [58].intercalate (first :: rest) ≠ [] := by
      intro empty
      have first_ := (groups first List.mem_cons_self).1
      cases rest with
      | nil => exact first_ (List.intercalate_singleton.symm.trans empty)
      | cons second rest =>
          rw [List.intercalate_cons_cons] at empty
          exact first_ (List.append_eq_nil_iff.mp (List.append_eq_nil_iff.mp empty).1).1
    rw [if_neg some_, List.splitOn_intercalate 58
      (fun text member => (groups text member).colon_notMem) (List.cons_ne_nil _ _)]
    exact mapM_readGroup groups

/-- The gap is not in a group. -/
theorem splitGap_group (single : 58 ∉ text) (more : List UInt8) :
    splitGap (text ++ more) = (splitGap more).map fun parts => (text ++ parts.1, parts.2) := by
  induction text with
  | nil => exact Option.map_id'.symm
  | cons byte rest inductionHypothesis =>
      obtain ⟨other, single⟩ := not_or.mp fun member => single (List.mem_cons.mpr member)
      rw [List.cons_append, splitGap, inductionHypothesis single, Option.map_map]
      · rfl
      · rintro _ rfl
        exact absurd rfl other

/-- Nor is it between groups with single colons. -/
theorem splitGap_join (groups : ∀ text ∈ texts, IsGroup text) (more : List UInt8) :
    splitGap (joinGroups texts ++ more) =
      (splitGap more).map fun parts => (joinGroups texts ++ parts.1, parts.2) := by
  unfold joinGroups
  induction texts with
  | nil => exact Option.map_id'.symm
  | cons first rest inductionHypothesis =>
      obtain ⟨group, groups⟩ := List.forall_mem_cons.mp groups
      have later := inductionHypothesis groups
      cases rest with
      | nil =>
          rw [List.intercalate_singleton]
          exact splitGap_group group.colon_notMem more
      | cons second rest =>
          obtain ⟨byte, tail, starts, other⟩ : ∃ byte tail,
              [58].intercalate (second :: rest) = byte :: tail ∧ byte ≠ 58 := by
            have group := groups second List.mem_cons_self
            obtain ⟨byte, digits, rfl⟩ := List.exists_cons_of_ne_nil group.1
            rw [List.intercalate_cons_cons_left]
            refine ⟨byte, _, rfl, ?_⟩
            rintro rfl
            exact group.colon_notMem List.mem_cons_self
          rw [List.intercalate_cons_cons, List.append_assoc, List.append_assoc,
            splitGap_group group.colon_notMem, List.singleton_append, splitGap, later,
            Option.map_map, Option.map_map]
          · refine congrArg (Option.map · _) (funext fun parts => ?_)
            simp only [Function.comp_apply, List.append_assoc, List.cons_append, List.nil_append]
          · rintro behind - colon
            rw [starts] at colon
            exact other (List.cons.inj colon).1

/-- An address is read back. -/
theorem AddressText.read {groups : List Nat} (isText : AddressText text groups) :
    readAddress text = some groups := by
  cases isText with
  | whole texts groups eight =>
      have search := splitGap_join groups []
      rw [List.append_nil] at search
      unfold readAddress
      rw [search, splitGap, Option.map_none, readGroups_join groups]
      refine Option.filter_some_pos (decide_eq_true ?_)
      rw [List.length_map, eight]
  | compressed left right groups fewer =>
      obtain ⟨leftGroups, rightGroups⟩ := List.forall_mem_append.mp groups
      unfold readAddress
      rw [splitGap_join leftGroups, splitGap, Option.map_some, List.append_nil]
      simp only [readGroups_join leftGroups, readGroups_join rightGroups, bind, Option.bind,
        List.length_map]
      rw [if_pos fewer]

/-- A group behind others is written behind a colon. -/
theorem joinGroups_concat (some_ : texts ≠ []) (text : List UInt8) :
    joinGroups (texts ++ [text]) = joinGroups texts ++ 58 :: text := by
  unfold joinGroups
  induction texts with
  | nil => exact absurd rfl some_
  | cons first rest inductionHypothesis =>
      rcases rest with _ | ⟨second, rest⟩
      · rw [List.singleton_append, List.intercalate_cons_cons, List.intercalate_singleton,
          List.intercalate_singleton, List.append_assoc]
        rfl
      · have later := inductionHypothesis (List.cons_ne_nil second rest)
        rw [List.cons_append] at later
        rw [List.cons_append, List.cons_append, List.intercalate_cons_cons,
          List.intercalate_cons_cons, later, List.append_assoc, List.append_assoc,
          List.append_assoc]

theorem joinGroups_bytes (groups : ∀ text ∈ texts, IsGroup text) :
    ∀ byte ∈ joinGroups texts, byte = 58 ∨ isDigit 16 byte = true := by
  unfold joinGroups
  induction texts with
  | nil => exact nofun
  | cons first rest inductionHypothesis =>
      obtain ⟨group, groups⟩ := List.forall_mem_cons.mp groups
      have digits : ∀ byte ∈ first, byte = 58 ∨ isDigit 16 byte = true :=
        fun byte member => .inr (List.all_eq_true.mp group.2.2 byte member)
      rcases rest with _ | ⟨second, rest⟩
      · rwa [List.intercalate_singleton]
      · rw [List.intercalate_cons_cons]
        intro byte member
        rcases List.mem_append.mp member with member | member
        · rcases List.mem_append.mp member with member | member
          · exact digits byte member
          · exact .inl (List.mem_singleton.mp member)
        · exact inductionHypothesis groups byte member

/-- There are only digits and colons in the text of an address. -/
theorem AddressText.bytes {groups : List Nat} (isText : AddressText text groups) :
    ∀ byte ∈ text, byte = 58 ∨ isDigit 16 byte = true := by
  cases isText with
  | whole texts groups => exact joinGroups_bytes groups
  | compressed left right groups =>
      obtain ⟨leftGroups, rightGroups⟩ := List.forall_mem_append.mp groups
      intro byte member
      rcases List.mem_append.mp member with member | member
      · exact joinGroups_bytes leftGroups byte member
      · rcases List.mem_cons.mp member with colon | member
        · exact .inl colon
        · rcases List.mem_cons.mp member with colon | member
          · exact .inl colon
          · exact joinGroups_bytes rightGroups byte member

/-- A number of 16 bits is a group. -/
theorem isGroup_digitsText {n : Nat} (small : n < 16 ^ 4) : IsGroup (digitsText 16 n) :=
  ⟨digitsText_ne_nil 16 n, (digitsText_length_le_iff (by decide) (by decide)).mpr small,
    digitsText_isDigit (by decide) (by decide) n⟩

end Groups

end Sylar.Library
