import Mathlib.Logic.Function.Basic
import Mathlib.Order.Lattice
import Mathlib.Data.List.Basic

/-!
# Sets in the order of a comparison

`std::set` as the list of its elements in their order. The comparison is an
argument of each operation, since the keys it reads may be written while the
element is not in the set; the rules hold for a comparison of keys.
-/

namespace Sylar.Library.OrderedSet

universe u v

variable {ι : Type u} {κ : Type v}

/-- The elements from `lower_bound` on. -/
def lowerBound (less : ι → ι → Bool) (x : ι) (set : List ι) : List ι := set.dropWhile (less · x)

/-- `find`; `none` is `end()`. -/
def find (less : ι → ι → Bool) (x : ι) (set : List ι) : Option ι :=
  match lowerBound less x set with
  | [] => none
  | y :: _ => if less x y then none else some y

/-- `insert`, which does nothing when an equivalent element is there. -/
def insert (less : ι → ι → Bool) (x : ι) (set : List ι) : List ι :=
  match find less x set with
  | some _ => set
  | none => set.takeWhile (less · x) ++ x :: lowerBound less x set

/-- The elements stand in their order. -/
def Sorted (less : ι → ι → Bool) (set : List ι) : Prop := set.Pairwise fun x y => less x y = true

/-- The comparison is that of keys. -/
def Compares [LT κ] (less : ι → ι → Bool) (key : ι → κ) : Prop :=
  ∀ x y, less x y = true ↔ key x < key y

section

variable [LinearOrder κ] {less : ι → ι → Bool} {key : ι → κ} {x : ι} {set : List ι}

/-- The order is strict, so that no element stands twice in a set. -/
theorem Sorted.nodup (sorted : Sorted less set) (compares : Compares less key) : set.Nodup :=
  sorted.imp fun {x y} below same => by
    subst same
    exact lt_irrefl _ ((compares x x).mp below)

/-- A set stays in order while the keys of its elements stay the same. -/
theorem Sorted.congr {other : ι → ι → Bool} (sorted : Sorted less set)
    (same : ∀ x ∈ set, ∀ y ∈ set, other x y = less x y) : Sorted other set :=
  sorted.imp_of_mem fun {x y} memberX memberY below => (same x memberX y memberY).trans below

theorem Sorted.erase [DecidableEq ι] (sorted : Sorted less set) (x : ι) :
    Sorted less (set.erase x) :=
  sorted.sublist List.erase_sublist

/-- An element of the set is found. -/
theorem find_of_mem (compares : Compares less key) (sorted : Sorted less set) (member : x ∈ set) :
    find less x set = some x := by
  induction set with
  | nil => cases member
  | cons y set inductionHypothesis =>
      rw [Sorted, List.pairwise_cons] at sorted
      have irreflexive : less x x = false :=
        Bool.eq_false_iff.mpr fun below => lt_irrefl _ ((compares x x).mp below)
      rcases List.mem_cons.mp member with rfl | later
      · simp [find, lowerBound, irreflexive]
      · have below := sorted.1 x later
        have found := inductionHypothesis sorted.2 later
        rw [find, lowerBound] at found ⊢
        rwa [List.dropWhile_cons_of_pos (p := (less · x)) below]

/-- What has another key than all elements is not found. -/
theorem find_eq_none (compares : Compares less key) (apart : ∀ y ∈ set, key y ≠ key x) :
    find less x set = none := by
  rw [find]
  split
  · rfl
  · rename_i y rest bound
    have notBelow : ¬less y x = true := by
      have head := List.head?_dropWhile_not (less · x) set
      rw [lowerBound] at bound
      rw [bound] at head
      simpa using head
    have member : y ∈ set := by
      have suffix_ := List.dropWhile_suffix (less · x) (l := set)
      rw [lowerBound] at bound
      exact suffix_.subset (bound ▸ List.mem_cons_self)
    have above : key x < key y :=
      lt_of_le_of_ne (not_lt.mp fun below => notBelow ((compares y x).mpr below))
        (apart y member).symm
    rw [if_pos ((compares x y).mpr above)]

/-- `find` looks for the key. -/
theorem find_eq_find? (compares : Compares less key) (sorted : Sorted less set) :
    find less x set = set.find? fun y => key y = key x := by
  cases found : set.find? fun y => key y = key x with
  | none =>
      refine find_eq_none compares fun y member same => ?_
      simpa [same] using List.find?_eq_none.mp found y member
  | some y =>
      have same : key y = key x := by simpa using List.find?_some found
      have member := List.mem_of_find?_eq_some found
      have left : (less · x) = (less · y) := by
        funext z
        rw [Bool.eq_iff_iff, compares z x, compares z y, same]
      have right : less x = less y := by
        funext z
        rw [Bool.eq_iff_iff, compares x z, compares y z, same]
      rw [← find_of_mem compares sorted member, find, find, lowerBound, lowerBound, left, right]

/-- The element with the key of an element is that element. -/
theorem find?_of_mem (compares : Compares less key) (sorted : Sorted less set) (member : x ∈ set) :
    (set.find? fun y => key y = key x) = some x := by
  rw [← find_eq_find? compares sorted, find_of_mem compares sorted member]

/-- A loop over a set that writes an entry of a map for each element, under an index that tells
the elements apart. -/
theorem foldlM_update {ν β : Type*} [DecidableEq ν] {index : ι → ν} {entry : ι → β → β}
    {write : (ν → β) → ι → Option (ν → β)} (compares : Compares less key)
    (sorted : Sorted less set) (indexes : ∀ x y, index x = index y → key x = key y)
    (writes : ∀ x ∈ set, ∀ entries, write entries x =
      some (Function.update entries (index x) (entry x (entries (index x)))))
    (entries : ν → β) :
    ∃ written, set.foldlM write entries = some written ∧ ∀ k, written k =
      match set.find? fun x => index x = k with
      | some x => entry x (entries k)
      | none => entries k := by
  induction set generalizing entries with
  | nil => exact ⟨entries, rfl, fun _ => rfl⟩
  | cons y set inductionHypothesis =>
      rw [Sorted, List.pairwise_cons] at sorted
      obtain ⟨written, ran, result⟩ := inductionHypothesis sorted.2
        (fun x member => writes x (List.mem_cons_of_mem _ member))
        (Function.update entries (index y) (entry y (entries (index y))))
      refine ⟨written, ?_, fun k => ?_⟩
      · rw [List.foldlM_cons, writes y List.mem_cons_self]
        exact ran
      · rw [result k, List.find?_cons]
        by_cases same : index y = k
        · subst same
          have absent : (set.find? fun x => index x = index y) = none := by
            refine List.find?_eq_none.mpr fun x member equal => ?_
            have above := (compares y x).mp (sorted.1 x member)
            rw [indexes x y (of_decide_eq_true equal)] at above
            exact lt_irrefl _ above
          rw [absent, decide_eq_true rfl]
          exact Function.update_self ..
        · rw [decide_eq_false same]
          simp only [Function.update_of_ne (Ne.symm same)]

theorem insert_eq (compares : Compares less key) (apart : ∀ y ∈ set, key y ≠ key x) :
    insert less x set = set.takeWhile (less · x) ++ x :: set.dropWhile (less · x) := by
  rw [insert, find_eq_none compares apart, lowerBound]

theorem mem_insert (compares : Compares less key) (apart : ∀ y ∈ set, key y ≠ key x) {y : ι} :
    y ∈ insert less x set ↔ y = x ∨ y ∈ set := by
  rw [insert_eq compares apart, List.mem_append, List.mem_cons]
  conv_rhs => rw [← List.takeWhile_append_dropWhile (p := (less · x)) (l := set), List.mem_append]
  tauto

/-- An element with a key of its own goes to its place. -/
theorem sorted_insert (compares : Compares less key) (sorted : Sorted less set)
    (apart : ∀ y ∈ set, key y ≠ key x) : Sorted less (insert less x set) := by
  rw [insert_eq compares apart]
  induction set with
  | nil => exact List.pairwise_singleton _ _
  | cons y set inductionHypothesis =>
      rw [Sorted, List.pairwise_cons] at sorted
      by_cases below : less y x = true
      · rw [List.takeWhile_cons_of_pos (p := (less · x)) below,
          List.dropWhile_cons_of_pos (p := (less · x)) below, List.cons_append]
        refine List.pairwise_cons.mpr ⟨fun z member => ?_, inductionHypothesis sorted.2
          fun z later => apart z (List.mem_cons_of_mem _ later)⟩
        rw [List.mem_append, List.mem_cons] at member
        rcases member with earlier | rfl | later
        · exact sorted.1 z (List.takeWhile_subset _ earlier)
        · exact below
        · exact sorted.1 z (List.dropWhile_suffix _ |>.subset later)
      · rw [List.takeWhile_cons_of_neg (p := (less · x)) below,
          List.dropWhile_cons_of_neg (p := (less · x)) below, List.nil_append]
        have above : key x < key y :=
          lt_of_le_of_ne (not_lt.mp fun under => below ((compares y x).mpr under))
            (apart y List.mem_cons_self).symm
        refine List.pairwise_cons.mpr ⟨fun z member => (compares x z).mpr ?_,
          List.pairwise_cons.mpr sorted⟩
        rcases List.mem_cons.mp member with rfl | later
        · exact above
        · exact above.trans ((compares y z).mp (sorted.1 z later))

end

end Sylar.Library.OrderedSet
