import Mathlib.Data.List.Induction

/-!
# Registrations

A list of entries in which a key is put again and again and deleted. `entries_eq` says what
is in it after any history: the registrations that stand, in the order in which they were made.
`find?_standing` finds the first of them that meets a condition.
-/

namespace Sylar.Library

universe u v

/-- A call that puts an entry or deletes it. -/
inductive Registration (κ : Type u) (ν : Type v) where
  | put (key : κ) (value : ν)
  | delete (key : κ)
deriving DecidableEq, Repr

namespace Registration

variable {κ : Type u} {ν : Type v}

/-- The key that is put or deleted. -/
def key : Registration κ ν → κ
  | put key _ | delete key => key

variable [DecidableEq κ]

/-- What a call does to the entries. What is put again goes to the end. -/
def apply (entries : List (κ × ν)) : Registration κ ν → List (κ × ν)
  | put key value => entries.eraseP (·.1 = key) ++ [(key, value)]
  | delete key => entries.eraseP (·.1 = key)

/-- The entries of a history: what was put, and neither put again nor deleted. -/
def standing : List (Registration κ ν) → List (κ × ν)
  | [] => []
  | put key value :: later =>
      if ∃ call ∈ later, call.key = key then standing later else (key, value) :: standing later
  | delete _ :: later => standing later

variable {calls later : List (Registration κ ν)} {entry : κ × ν} {call : Registration κ ν}

/-- What stands was put. -/
theorem key_of_mem_standing (member : entry ∈ standing calls) :
    ∃ call ∈ calls, call.key = entry.1 := by
  induction calls with
  | nil => cases member
  | cons call calls inductionHypothesis =>
      have behind (later : entry ∈ standing calls) : ∃ one ∈ call :: calls, one.key = entry.1 := by
        obtain ⟨one, inside, same⟩ := inductionHypothesis later
        exact ⟨one, .tail _ inside, same⟩
      cases call with
      | put key value =>
          rw [standing] at member
          split at member
          · exact behind member
          · rcases List.mem_cons.mp member with rfl | member
            · exact ⟨_, List.mem_cons_self, rfl⟩
            · exact behind member
      | delete key => exact behind member

/-- Of an entry that a call is about nothing is left. -/
theorem apply_cons_self (call : Registration κ ν) (value : ν) {entries : List (κ × ν)}
    (absent : ∀ entry ∈ entries, entry.1 ≠ call.key) :
    apply ((call.key, value) :: entries) call = apply entries call := by
  have unchanged : entries.eraseP (·.1 = call.key) = entries :=
    List.eraseP_of_forall_not fun entry member => by simpa using absent entry member
  have erased : ((call.key, value) :: entries).eraseP (·.1 = call.key) =
      entries.eraseP (·.1 = call.key) :=
    (List.eraseP_cons_of_pos (by simp)).trans unchanged.symm
  cases call with
  | put key other => exact congrArg (· ++ [(key, other)]) erased
  | delete key => exact erased

/-- An entry that a call is not about stays where it is. -/
theorem apply_cons_of_ne (other : entry.1 ≠ call.key) (entries : List (κ × ν)) :
    apply (entry :: entries) call = entry :: apply entries call := by
  have kept : (entry :: entries).eraseP (·.1 = call.key) =
      entry :: entries.eraseP (·.1 = call.key) := List.eraseP_cons_of_neg (by simpa using other)
  cases call with
  | put key value => exact congrArg (· ++ [(key, value)]) kept
  | delete key => exact kept

/-- What stands after one call more. -/
theorem standing_concat (calls : List (Registration κ ν)) (call : Registration κ ν) :
    standing (calls ++ [call]) = apply (standing calls) call := by
  induction calls with
  | nil => cases call <;> simp [standing, apply]
  | cons first calls inductionHypothesis =>
      cases first with
      | delete key => exact inductionHypothesis
      | put key value =>
          rw [List.cons_append, standing, standing, inductionHypothesis]
          by_cases again : ∃ one ∈ calls, one.key = key
          · obtain ⟨one, inside, same⟩ := again
            rw [if_pos ⟨one, List.mem_append_left _ inside, same⟩, if_pos ⟨one, inside, same⟩]
          · rw [if_neg again]
            by_cases own : call.key = key
            · subst own
              rw [if_pos ⟨call, List.mem_append_right _ (List.mem_singleton_self _), rfl⟩,
                apply_cons_self call value fun entry member same => ?_]
              obtain ⟨one, inside, known⟩ := key_of_mem_standing member
              exact again ⟨one, inside, known.trans same⟩
            · rw [if_neg, apply_cons_of_ne (Ne.symm own)]
              rintro ⟨one, inside, same⟩
              rcases List.mem_append.mp inside with inside | last
              · exact again ⟨one, inside, same⟩
              · exact own (List.mem_singleton.mp last ▸ same)

/-- After any history the registrations that stand are there, in their order. -/
theorem foldl_apply (calls : List (Registration κ ν)) : calls.foldl apply [] = standing calls := by
  induction calls using List.reverseRecOn with
  | nil => rfl
  | append_singleton calls call inductionHypothesis =>
      rw [List.foldl_append, inductionHypothesis, standing_concat]
      rfl

/-- A registration in a history that nothing later is about. -/
def Stands (calls : List (Registration κ ν)) (entry : κ × ν)
    (before later : List (Registration κ ν)) : Prop :=
  calls = before ++ put entry.1 entry.2 :: later ∧ ∀ call ∈ later, call.key ≠ entry.1

omit [DecidableEq κ] in
theorem stands_cons {first : Registration κ ν} {before : List (Registration κ ν)} :
    Stands (first :: calls) entry before later ↔
      (before = [] ∧ Stands (first :: calls) entry [] later) ∨
        ∃ rest, before = first :: rest ∧ Stands calls entry rest later := by
  cases before with
  | nil =>
      refine ⟨fun stands => .inl ⟨rfl, stands⟩, ?_⟩
      rintro (⟨-, stands⟩ | ⟨rest, ⟨⟩, -⟩)
      exact stands
  | cons one before =>
      constructor
      · rintro ⟨split, last⟩
        rw [List.cons_append, List.cons.injEq] at split
        exact .inr ⟨before, by rw [split.1], split.2, last⟩
      · rintro (⟨⟨⟩, -⟩ | ⟨rest, same, split, last⟩)
        cases same
        exact ⟨congrArg (first :: ·) split, last⟩

omit [DecidableEq κ] in
/-- One call more is a registration that stands, or is not about one that stood. -/
theorem stands_concat {before : List (Registration κ ν)} :
    Stands (calls ++ [call]) entry before later ↔
      (before = calls ∧ later = [] ∧ call = put entry.1 entry.2) ∨
        ∃ rest, later = rest ++ [call] ∧ call.key ≠ entry.1 ∧ Stands calls entry before rest := by
  constructor
  · rintro ⟨split, last⟩
    cases later using List.reverseRecOn with
    | nil =>
        obtain ⟨front, same⟩ := List.append_inj' split rfl
        exact .inl ⟨front.symm, rfl, List.singleton_inj.mp same⟩
    | append_singleton rest one =>
        rw [← List.cons_append, ← List.append_assoc] at split
        obtain ⟨front, same⟩ := List.append_inj' split rfl
        cases List.singleton_inj.mp same
        refine .inr ⟨rest, rfl, last call (List.mem_append_right _ (List.mem_singleton_self _)),
          front, fun one inside => last one (List.mem_append_left _ inside)⟩
  · rintro (⟨rfl, rfl, rfl⟩ | ⟨rest, rfl, other, split, last⟩)
    · exact ⟨rfl, nofun⟩
    · refine ⟨by rw [split, List.append_assoc, List.cons_append], fun one inside => ?_⟩
      rcases List.mem_append.mp inside with inside | own
      · exact last one inside
      · rw [List.mem_singleton.mp own]
        exact other

/-- The entries are the registrations that stand. -/
theorem mem_standing_iff :
    entry ∈ standing calls ↔ ∃ before later, Stands calls entry before later := by
  induction calls with
  | nil =>
      refine ⟨nofun, ?_⟩
      rintro ⟨before, later, split, -⟩
      cases before <;> cases split
  | cons first calls inductionHypothesis =>
      have behind : (∃ before later, Stands (first :: calls) entry before later) ↔
          (∃ later, Stands (first :: calls) entry [] later) ∨ entry ∈ standing calls := by
        rw [inductionHypothesis]
        constructor
        · rintro ⟨before, later, stands⟩
          rcases stands_cons.mp stands with ⟨-, own⟩ | ⟨rest, -, inner⟩
          · exact .inl ⟨later, own⟩
          · exact .inr ⟨rest, later, inner⟩
        · rintro (⟨later, own⟩ | ⟨before, later, inner⟩)
          · exact ⟨[], later, own⟩
          · exact ⟨first :: before, later, stands_cons.mpr (.inr ⟨before, rfl, inner⟩)⟩
      rw [behind]
      cases first with
      | delete key =>
          refine ⟨.inr, ?_⟩
          rintro (⟨later, ⟨⟩, -⟩ | inside)
          exact inside
      | put key value =>
          rw [standing]
          by_cases again : ∃ call ∈ calls, call.key = key
          · rw [if_pos again]
            refine ⟨.inr, ?_⟩
            rintro (⟨later, split, last⟩ | inside)
            · cases split
              obtain ⟨call, inside, same⟩ := again
              exact absurd same (last call inside)
            · exact inside
          · rw [if_neg again, List.mem_cons]
            refine or_congr_left ⟨?_, ?_⟩
            · rintro rfl
              exact ⟨calls, rfl, fun call inside same => again ⟨call, inside, same⟩⟩
            · rintro ⟨later, split, -⟩
              cases split
              rfl

/-- The first entry that meets a condition is the one that was put first of those that stand. -/
theorem find?_standing_eq_some (condition : κ → Bool) :
    (standing calls).find? (condition ·.1) = some entry ↔
      ∃ before later, Stands calls entry before later ∧ condition entry.1 = true ∧
        ∀ other before' later', Stands calls other before' later' →
          before'.length < before.length → condition other.1 = false := by
  induction calls with
  | nil =>
      refine ⟨nofun, ?_⟩
      rintro ⟨before, later, ⟨split, -⟩, -⟩
      cases before <;> cases split
  | cons first calls inductionHypothesis =>
      -- a first call that does not stand, or does not meet the condition, changes nothing
      have skip (unmet : ∀ other later, Stands (first :: calls) other [] later →
          condition other.1 = false) :
          (∃ before later, Stands (first :: calls) entry before later ∧ condition entry.1 = true ∧
            ∀ other before' later', Stands (first :: calls) other before' later' →
              before'.length < before.length → condition other.1 = false) ↔
          ∃ before later, Stands calls entry before later ∧ condition entry.1 = true ∧
            ∀ other before' later', Stands calls other before' later' →
              before'.length < before.length → condition other.1 = false := by
        constructor
        · rintro ⟨before, later, stands, met, earlier⟩
          rcases stands_cons.mp stands with ⟨-, own⟩ | ⟨rest, rfl, inner⟩
          · rw [unmet _ _ own] at met
            cases met
          · refine ⟨rest, later, inner, met, fun other before' later' stands' shorter => ?_⟩
            exact earlier other (first :: before') later' (stands_cons.mpr (.inr ⟨_, rfl, stands'⟩))
              (Nat.succ_lt_succ shorter)
        · rintro ⟨before, later, inner, met, earlier⟩
          refine ⟨first :: before, later, stands_cons.mpr (.inr ⟨_, rfl, inner⟩), met, ?_⟩
          intro other before' later' stands' shorter
          rcases stands_cons.mp stands' with ⟨-, own⟩ | ⟨rest, rfl, inner'⟩
          · exact unmet _ _ own
          · exact earlier other rest later' inner' (Nat.lt_of_succ_lt_succ shorter)
      cases first with
      | delete key =>
          rw [standing, inductionHypothesis, skip]
          rintro other later ⟨⟨⟩, -⟩
      | put key value =>
          rw [standing]
          by_cases again : ∃ call ∈ calls, call.key = key
          · rw [if_pos again, inductionHypothesis, skip]
            rintro other later ⟨split, last⟩
            cases split
            obtain ⟨call, inside, same⟩ := again
            exact absurd same (last call inside)
          · have own : Stands (put key value :: calls) (key, value) [] calls :=
              ⟨rfl, fun call inside same => again ⟨call, inside, same⟩⟩
            rw [if_neg again, List.find?_cons]
            cases met : condition key with
            | true =>
                constructor
                · rintro ⟨⟩
                  exact ⟨[], calls, own, met, fun _ _ _ _ shorter => absurd shorter (Nat.not_lt_zero _)⟩
                · rintro ⟨before, later, stands, -, earlier⟩
                  rcases stands_cons.mp stands with ⟨-, split, -⟩ | ⟨rest, rfl, -⟩
                  · cases split
                    rfl
                  · have unmet := earlier (key, value) [] calls own (Nat.zero_lt_succ _)
                    rw [met] at unmet
                    cases unmet
            | false =>
                refine inductionHypothesis.trans (skip ?_).symm
                rintro other later ⟨split, -⟩
                cases split
                exact met

end Registration

end Sylar.Library
