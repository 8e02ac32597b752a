import Sylar.Library.Transition
import Mathlib.Algebra.GroupWithZero.Nat

/-!
# What steps bring about

A run is asked for progress by what happens in it, not by its length. Each time a
condition is met before a step, whatever waits comes nearer to its end, and no
other step takes it further away, so that it ends before the condition was met
too often.
-/

namespace Sylar.Library

universe u v

variable {σ : Type u} {α : Type v} {step : σ → α → Option σ}

/-- How many steps of a run are taken where `counts` holds. -/
def occurrences (step : σ → α → Option σ) (counts : σ → α → Prop)
    [∀ state action, Decidable (counts state action)] : σ → List α → Nat
  | _, [] => 0
  | state, action :: rest =>
      match step state action with
      | none => 0
      | some next =>
          (if counts state action then 1 else 0) + occurrences step counts next rest

section Occurrences

variable {counts : σ → α → Prop} [∀ state action, Decidable (counts state action)]

theorem occurrences_cons {state next : σ} {action : α} (taken : step state action = some next)
    (rest : List α) :
    occurrences step counts state (action :: rest) =
      (if counts state action then 1 else 0) + occurrences step counts next rest := by
  rw [occurrences, taken]

/-- A run in which the condition is met at all begins with a step. -/
theorem taken_of_occurrences {state : σ} {action : α} {rest : List α} {bound : Nat}
    (often : bound < occurrences step counts state (action :: rest)) :
    ∃ next, step state action = some next := by
  cases taken : step state action with
  | none =>
      rw [occurrences, taken] at often
      exact absurd often (Nat.not_lt_zero _)
  | some next => exact ⟨next, rfl⟩

/-- What waits with a rank that no step raises, and every step that counts lowers,
ends in each run in which more steps count than its rank. -/
theorem exists_end (waits : Nat → σ → Prop) {ends : σ → α → σ → Prop}
    (descends : ∀ {rank state action next}, waits rank state → step state action = some next →
      ends state action next ∨
        ∃ lower, lower + (if counts state action then 1 else 0) ≤ rank ∧ waits lower next)
    {rank : Nat} {state : σ} {actions : List α} (waiting : waits rank state)
    (often : rank < occurrences step counts state actions) :
    ∃ before action after last next lower,
      actions = before ++ action :: after ∧ exec step state before = some last ∧
        step last action = some next ∧ waits lower last ∧
        lower + occurrences step counts state before ≤ rank ∧ ends last action next := by
  induction actions generalizing rank state with
  | nil => exact absurd often (Nat.not_lt_zero _)
  | cons action rest inductionHypothesis =>
      obtain ⟨next, taken⟩ := taken_of_occurrences often
      rcases descends waiting taken with ends | ⟨lower, descended, waiting'⟩
      · exact ⟨[], action, rest, state, next, rank, rfl, rfl, taken, waiting, Nat.le_refl rank, ends⟩
      · rw [occurrences_cons taken] at often
        have oftenAfter : lower < occurrences step counts next rest := by omega
        obtain ⟨before, action', after, last, next', lowest, split, reached, taken', waiting'',
          below, ends⟩ := inductionHypothesis waiting' oftenAfter
        refine ⟨action :: before, action', after, last, next', lowest, ?_, ?_, taken', waiting'',
          ?_, ends⟩
        · rw [split, List.cons_append]
        · rw [exec, taken]
          exact reached
        · rw [occurrences_cons taken]
          omega

end Occurrences

end Sylar.Library
