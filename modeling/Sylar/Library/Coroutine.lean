import Sylar.Library.Transition
import Mathlib.Data.List.Nodup
import Mathlib.Logic.Function.Basic

/-!
# Coroutines

A coroutine that resumes another one waits until that one yields or finishes. The
running coroutine and those that wait form a chain; every other one is suspended
where it yielded, or at its start.
-/

namespace Sylar.Library

/-- The running coroutine in front of those that wait for it, each with where it goes on, and
where the suspended coroutines go on. -/
structure Coroutines (F K : Type) where
  active : List (F × K)
  suspended : F → Option K

namespace Coroutines

variable {F K : Type} [DecidableEq F]

/-- What the running coroutine asks for, and where it goes on after that. -/
inductive Request (F K : Type) where
  | proceed (next : K)
  | create (f : F) (start next : K)
  | resume (f : F) (next : K)
  | yield (next : K)
  | finish

/-- What the active coroutine asks for is done. -/
def step (s : Coroutines F K) (request : Request F K) : Option (Coroutines F K) :=
  match s.active with
  | [] => none
  | (self, _) :: waiting =>
      match request with
      | .proceed next => some { s with active := (self, next) :: waiting }
      | .create f start next =>
          if f ∈ s.active.map Prod.fst then none
          else some ⟨(self, next) :: waiting, Function.update s.suspended f (some start)⟩
      | .resume f next =>
          (s.suspended f).map fun there =>
            ⟨(f, there) :: (self, next) :: waiting, Function.update s.suspended f none⟩
      | .yield next =>
          if waiting.isEmpty then none
          else some ⟨waiting, Function.update s.suspended self (some next)⟩
      | .finish => if waiting.isEmpty then none else some ⟨waiting, s.suspended⟩

/-- No coroutine stands in two places. -/
structure Separate (s : Coroutines F K) : Prop where
  once : (s.active.map Prod.fst).Nodup
  apart : ∀ f ∈ s.active.map Prod.fst, s.suspended f = none

variable {s next : Coroutines F K} {request : Request F K}

omit [DecidableEq F] in
theorem Separate.notMem (separate : s.Separate) {f : F} {k : K} (suspended : s.suspended f = some k) :
    f ∉ s.active.map Prod.fst := by
  intro member
  rw [separate.apart f member] at suspended
  exact absurd suspended nofun

/-- What is changed elsewhere is still apart. -/
theorem apart_update {suspended : F → Option K} {chain : List F} {f : F}
    (apart : ∀ g ∈ chain, suspended g = none) (outside : f ∉ chain) (place : Option K) :
    ∀ g ∈ chain, Function.update suspended f place g = none := by
  intro g member
  have other : g ≠ f := fun same => outside (same ▸ member)
  rw [Function.update_of_ne other]
  exact apart g member

theorem Separate.step (separate : s.Separate) (taken : s.step request = some next) :
    next.Separate := by
  obtain ⟨active, suspended⟩ := s
  obtain ⟨once, apart⟩ := separate
  rcases active with - | ⟨⟨self, here⟩, waiting⟩
  · exact absurd taken nofun
  obtain ⟨new, waitingOnce⟩ := List.nodup_cons.mp once
  cases request with
  | proceed after =>
      cases taken
      exact ⟨once, apart⟩
  | create f start after =>
      simp only [Coroutines.step, Option.ite_none_left_eq_some, Option.some.injEq] at taken
      obtain ⟨outside, rfl⟩ := taken
      exact ⟨once, apart_update apart outside _⟩
  | resume f after =>
      obtain ⟨there, found, rfl⟩ := Option.map_eq_some_iff.mp taken
      have outside := Separate.notMem ⟨once, apart⟩ found
      refine ⟨List.nodup_cons.mpr ⟨outside, once⟩, fun g member => ?_⟩
      rcases List.mem_cons.mp member with rfl | member
      · exact Function.update_self ..
      · exact apart_update apart outside _ g member
  | yield after =>
      simp only [Coroutines.step, Option.ite_none_left_eq_some, Option.some.injEq] at taken
      obtain ⟨-, rfl⟩ := taken
      exact ⟨waitingOnce, apart_update (List.forall_mem_cons.mp apart).2 new _⟩
  | finish =>
      simp only [Coroutines.step, Option.ite_none_left_eq_some, Option.some.injEq] at taken
      obtain ⟨-, rfl⟩ := taken
      exact ⟨waitingOnce, (List.forall_mem_cons.mp apart).2⟩

end Coroutines

end Sylar.Library
