import Mathlib.Algebra.BigOperators.Group.Finset.Piecewise
import Mathlib.Algebra.Order.BigOperators.Group.Finset
import Mathlib.Data.UInt

/-!
# Threads over shared memory

Each thread is where it stands and what only it can see. A counter in shared
memory that every move of a thread changes as it changes the weight of where the
thread stands is the tally of these weights.
-/

namespace Sylar.Library

universe u v w

/-- What all threads `ω` weigh together. -/
def tally {ω : Type u} {ℓ : Type v} {γ : Type w} [Fintype ω] [AddCommMonoid γ] (weight : ℓ → γ)
    (own : ω → ℓ) : γ :=
  ∑ thread, weight (own thread)

namespace Tally

variable {ω : Type u} {ℓ : Type v} {γ : Type w} [Fintype ω] [DecidableEq ω]

/-- One thread moves. -/
theorem update [AddCommMonoid γ] (weight : ℓ → γ) (own : ω → ℓ) (thread : ω) (next : ℓ) :
    tally weight (Function.update own thread next) + weight (own thread) =
      tally weight own + weight next := by
  have others : ∑ other ∈ Finset.univ.erase thread, weight (Function.update own thread next other) =
      ∑ other ∈ Finset.univ.erase thread, weight (own other) :=
    Finset.sum_congr rfl fun other member => by
      rw [Function.update_of_ne (Finset.ne_of_mem_erase member)]
  have after := Finset.sum_erase_add Finset.univ
    (fun other => weight (Function.update own thread next other)) (Finset.mem_univ thread)
  have before := Finset.sum_erase_add Finset.univ (fun other => weight (own other))
    (Finset.mem_univ thread)
  unfold tally
  rw [← after, ← before, others, Function.update_self]
  exact add_right_comm _ _ _

/-- A counter stays the tally when a move changes both alike. -/
theorem counter [AddCommGroup γ] {weight : ℓ → γ} {own : ω → ℓ} {thread : ω} {next : ℓ}
    {before after : γ} (counts : before = tally weight own)
    (moved : after + weight (own thread) = before + weight next) :
    after = tally weight (Function.update own thread next) := by
  have updated := update weight own thread next
  rw [counts] at moved
  exact add_right_cancel (moved.trans updated.symm)

section Counter

variable {weighs : ℓ → Prop} [DecidablePred weighs] (own : ω → ℓ)

omit [Fintype ω] in
theorem toNat_sum (weight : ω → UInt64) (threads : Finset ω) :
    (∑ thread ∈ threads, weight thread).toNat =
      (∑ thread ∈ threads, (weight thread).toNat) % 2 ^ 64 := by
  induction threads using Finset.induction_on with
  | empty => rfl
  | insert thread threads new inductionHypothesis =>
      rw [Finset.sum_insert new, Finset.sum_insert new, UInt64.toNat_add, inductionHypothesis,
        Nat.add_mod_mod]

/-- A machine word that counts threads does not wrap. -/
theorem toNat_counter (few : Fintype.card ω < 2 ^ 64) :
    (tally (fun here => if weighs here then (1 : UInt64) else 0) own).toNat =
      (Finset.univ.filter fun thread => weighs (own thread)).card := by
  have ones : ∀ thread, (if weighs (own thread) then (1 : UInt64) else 0).toNat =
      if weighs (own thread) then 1 else 0 := by
    intro thread
    split <;> rfl
  have bound := (Finset.card_le_univ (Finset.univ.filter fun thread => weighs (own thread))).trans_lt
    few
  rw [tally, toNat_sum, Finset.sum_congr rfl fun thread _ => ones thread, ← Finset.card_filter,
    Nat.mod_eq_of_lt bound]

end Counter

end Tally

end Sylar.Library
