import Mathlib.Data.List.Basic
import Mathlib.Data.List.Forall2

/-!
# Overwriting a run of elements in place

`overwrite` replaces the elements from one offset on and extends the list when
the replacement reaches past its end. The splitting laws are the ones a store
made of consecutive segments needs.
-/

namespace Sylar.Library

universe u v

variable {α : Type u}

/-- Replace the elements from `offset` on by `source`. -/
def overwrite (target : List α) (offset : Nat) (source : List α) : List α :=
  target.take offset ++ source ++ target.drop (offset + source.length)

@[simp] theorem length_overwrite {target source : List α} {offset : Nat}
    (bounded : offset ≤ target.length) :
    (overwrite target offset source).length = max target.length (offset + source.length) := by
  simp only [overwrite, List.length_append, List.length_take, List.length_drop]
  omega

theorem overwrite_nil (target : List α) (offset : Nat) : overwrite target offset [] = target := by
  simp [overwrite]

/-- A replacement that fits in the first segment leaves the others alone. -/
theorem overwrite_append_left {first rest source : List α} {offset : Nat}
    (fits : offset + source.length ≤ first.length) :
    overwrite (first ++ rest) offset source = overwrite first offset source ++ rest := by
  have offsetBound : offset ≤ first.length := by omega
  simp only [overwrite, List.take_append_of_le_length offsetBound,
    List.drop_append_of_le_length fits, List.append_assoc]

/-- A replacement that starts in the first segment and fills it continues at
the beginning of the rest. -/
theorem overwrite_append_straddle {first rest source : List α} {offset : Nat}
    (starts : offset ≤ first.length) (fills : first.length ≤ offset + source.length) :
    overwrite (first ++ rest) offset source =
      overwrite first offset (source.take (first.length - offset)) ++
        overwrite rest 0 (source.drop (first.length - offset)) := by
  have headLength : (source.take (first.length - offset)).length = first.length - offset := by
    simp only [List.length_take]
    omega
  have headEnd : offset + (first.length - offset) = first.length := by omega
  have tailStart : offset + source.length - first.length =
      (source.drop (first.length - offset)).length := by
    simp only [List.length_drop]
    omega
  have split : first.drop (offset + source.length) ++
      rest.drop (offset + source.length - first.length) =
        rest.drop (source.drop (first.length - offset)).length := by
    rw [List.drop_eq_nil_of_le fills, List.nil_append, tailStart]
  simp only [overwrite, headLength, headEnd, List.drop_length, List.append_nil,
    List.take_zero, List.nil_append, Nat.zero_add]
  rw [List.take_append_of_le_length starts, List.drop_append, split]
  conv_lhs => rw [← List.take_append_drop (first.length - offset) source]
  simp only [List.append_assoc, List.length_append, List.length_take, List.length_drop]
  congr 4
  omega

/-- Cutting behind the replacement commutes with the replacement. -/
theorem take_overwrite {target source : List α} {offset count : Nat}
    (start : offset ≤ target.length) (covers : offset + source.length ≤ count) :
    (overwrite target offset source).take count = overwrite (target.take count) offset source := by
  have offsetCount : offset ≤ count := by omega
  have prefixLength : (target.take offset ++ source).length = offset + source.length := by
    simp only [List.length_append, List.length_take]
    omega
  simp only [overwrite]
  rw [List.take_append, prefixLength, List.take_of_length_le (by omega), List.take_take,
    Nat.min_eq_left offsetCount, List.drop_take]

/-- A replacement behind the first segment is a replacement in the rest. -/
theorem overwrite_append_right (first rest source : List α) (offset : Nat) :
    overwrite (first ++ rest) (first.length + offset) source =
      first ++ overwrite rest offset source := by
  simp only [overwrite, List.take_length_add_append, Nat.add_assoc,
    List.drop_length_add_append, List.append_assoc]

/-- A replacement behind another one is one replacement. -/
theorem overwrite_overwrite {target first second : List α} {offset : Nat}
    (inside : offset ≤ target.length) :
    overwrite (overwrite target offset first) (offset + first.length) second =
      overwrite target offset (first ++ second) := by
  have length : (target.take offset ++ first).length = offset + first.length := by
    rw [List.length_append, List.length_take]
    omega
  simp only [overwrite, List.length_append]
  rw [List.take_append_of_le_length (by omega), List.take_of_length_le (by omega), List.drop_append,
    List.drop_eq_nil_of_le (by omega), List.nil_append, length, List.drop_drop]
  simp only [List.append_assoc]
  congr 4
  omega

/-- Cutting behind both the replacement and an old end is replacing in what
lies before that end. -/
theorem take_max_overwrite {target source : List α} {offset count : Nat}
    (start : offset ≤ count) (inside : count ≤ target.length) :
    (overwrite target offset source).take (max count (offset + source.length)) =
      overwrite (target.take count) offset source := by
  rw [take_overwrite (by omega) (by omega)]
  by_cases covered : offset + source.length ≤ count
  · rw [Nat.max_eq_left covered]
  · have later : count ≤ offset + source.length := by omega
    simp only [overwrite, List.take_take, Nat.max_eq_right later]
    rw [Nat.min_eq_left (by omega), Nat.min_eq_left start,
      List.drop_eq_nil_of_le (by rw [List.length_take]; omega),
      List.drop_eq_nil_of_le (by rw [List.length_take]; omega)]

/-- Writing back what was there behind the replacement changes nothing more. -/
theorem overwrite_append_rest {target source : List α} {offset count : Nat}
    (covers : source.length ≤ count) (inside : offset + count ≤ target.length) :
    overwrite target offset (source ++ ((target.drop offset).take count).drop source.length) =
      overwrite target offset source := by
  have middle : ((target.drop offset).take count).drop source.length =
      (target.drop (offset + source.length)).take (count - source.length) := by
    rw [List.drop_take, List.drop_drop]
  have behind : (target.drop (offset + source.length)).drop (count - source.length) =
      target.drop (offset + (source.length + (count - source.length))) := by
    rw [List.drop_drop]
    congr 1
    omega
  simp only [overwrite, middle, List.length_append, List.length_take, List.length_drop]
  rw [Nat.min_eq_left (by omega), ← behind]
  simp only [List.append_assoc, List.take_append_drop]

theorem overwrite_length (target source : List α) :
    overwrite target target.length source = target ++ source := by
  simp [overwrite]

/-- `known` describes `actual` when it has the same length and every element it
fixes is the actual one. -/
def Describes (known : List (Option α)) (actual : List α) : Prop :=
  List.Forall₂ (fun expected found => ∀ value ∈ expected, value = found) known actual

namespace Describes

theorem length_eq {known : List (Option α)} {actual : List α} (same : Describes known actual) :
    known.length = actual.length :=
  List.Forall₂.length_eq same

theorem take {known : List (Option α)} {actual : List α} (same : Describes known actual)
    (count : Nat) : Describes (known.take count) (actual.take count) :=
  List.forall₂_take count same

theorem drop {known : List (Option α)} {actual : List α} (same : Describes known actual)
    (count : Nat) : Describes (known.drop count) (actual.drop count) :=
  List.forall₂_drop count same

theorem append {firstKnown secondKnown : List (Option α)} {first second : List α}
    (left : Describes firstKnown first) (right : Describes secondKnown second) :
    Describes (firstKnown ++ secondKnown) (first ++ second) :=
  List.rel_append left right

theorem written (source : List α) : Describes (source.map some) source := by
  induction source with
  | nil => exact List.Forall₂.nil
  | cons head tail ih => exact List.Forall₂.cons (by simp) ih

theorem unknown (actual : List α) :
    Describes (List.replicate actual.length none) actual := by
  induction actual with
  | nil => exact List.Forall₂.nil
  | cons head tail ih => exact List.Forall₂.cons (by simp) ih

/-- Overwriting with fixed elements keeps the description. -/
theorem overwrite {known : List (Option α)} {actual : List α} (same : Describes known actual)
    (offset : Nat) (source : List α) :
    Describes (Library.overwrite known offset (source.map some))
      (Library.overwrite actual offset source) := by
  simp only [Library.overwrite, List.length_map]
  exact ((same.take offset).append (written source)).append (same.drop _)

end Describes

end Sylar.Library
