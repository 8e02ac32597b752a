import Mathlib.Data.Finset.Insert
import Mathlib.Data.Finset.Erase
import Mathlib.Logic.Function.Basic

/-!
# Resources and their owners

What is open is held by one owner or was dropped by all of them. An owner that holds nothing
can take a resource that is not open, and one that holds a resource can give it back.
-/

namespace Sylar.Library

universe u v

variable {ι : Type u} {ρ : Type v} [DecidableEq ρ]

/-- Each owner holds at most one resource, and each open resource has one owner or was dropped. -/
structure Owned (held : ι → Option ρ) (opened : Finset ρ) (dropped : List ρ) : Prop where
  held_open : ∀ {i r}, held i = some r → r ∈ opened ∧ r ∉ dropped
  apart : ∀ {i j r}, held i = some r → held j = some r → i = j
  all : ∀ {r}, r ∈ opened → r ∈ dropped ∨ ∃ i, held i = some r
  kept : ∀ {r}, r ∈ dropped → r ∈ opened

namespace Owned

variable {held : ι → Option ρ} {opened : Finset ρ} {dropped : List ρ} {r : ρ}

theorem drop (owned : Owned held opened dropped) (new : r ∉ opened) :
    Owned held (insert r opened) (r :: dropped) where
  held_open holds := by
    obtain ⟨inside, alive⟩ := owned.held_open holds
    refine ⟨Finset.mem_insert_of_mem inside, fun member => ?_⟩
    rcases List.mem_cons.mp member with rfl | member
    · exact new inside
    · exact alive member
  apart := owned.apart
  all inside := by
    rcases Finset.mem_insert.mp inside with rfl | inside
    · exact .inl List.mem_cons_self
    · exact (owned.all inside).imp_left (List.mem_cons_of_mem _)
  kept member := by
    rcases List.mem_cons.mp member with rfl | member
    · exact Finset.mem_insert_self _ _
    · exact Finset.mem_insert_of_mem (owned.kept member)

variable [DecidableEq ι] {i : ι}

theorem take (owned : Owned held opened dropped) (empty : held i = none) (new : r ∉ opened) :
    Owned (Function.update held i (some r)) (insert r opened) dropped where
  held_open {j s} holds := by
    by_cases same : j = i
    · subst same
      rw [Function.update_self] at holds
      cases holds
      exact ⟨Finset.mem_insert_self _ _, fun member => new (owned.kept member)⟩
    · rw [Function.update_of_ne same] at holds
      exact (owned.held_open holds).imp_left Finset.mem_insert_of_mem
  apart {j k s} first second := by
    have outside : ∀ j, held j ≠ some r := fun j holds => new (owned.held_open holds).1
    by_cases left : j = i
    · by_cases right : k = i
      · exact left.trans right.symm
      · rw [left, Function.update_self] at first
        rw [Function.update_of_ne right, ← first] at second
        exact absurd second (outside k)
    · rw [Function.update_of_ne left] at first
      by_cases right : k = i
      · rw [right, Function.update_self] at second
        rw [← second] at first
        exact absurd first (outside j)
      · rw [Function.update_of_ne right] at second
        exact owned.apart first second
  all {s} inside := by
    rcases Finset.mem_insert.mp inside with rfl | inside
    · exact .inr ⟨i, Function.update_self ..⟩
    · refine (owned.all inside).imp_right fun ⟨j, holds⟩ => ⟨j, ?_⟩
      have other : j ≠ i := by
        rintro rfl
        exact absurd (empty.symm.trans holds) nofun
      rw [Function.update_of_ne other, holds]
  kept member := Finset.mem_insert_of_mem (owned.kept member)

theorem give (owned : Owned held opened dropped) (holder : held i = some r) :
    Owned (Function.update held i none) (opened.erase r) dropped := by
  have fewer : ∀ {j s}, Function.update held i none j = some s → j ≠ i ∧ held j = some s := by
    intro j s holds
    by_cases same : j = i
    · rw [same, Function.update_self] at holds
      exact absurd holds nofun
    · rw [Function.update_of_ne same] at holds
      exact ⟨same, holds⟩
  refine ⟨fun {j s} holds => ?_, fun first second => ?_, fun {s} inside => ?_, fun {s} member => ?_⟩
  · obtain ⟨other, holds⟩ := fewer holds
    obtain ⟨inside, alive⟩ := owned.held_open holds
    refine ⟨Finset.mem_erase.mpr ⟨?_, inside⟩, alive⟩
    rintro rfl
    exact other (owned.apart holds holder)
  · exact owned.apart (fewer first).2 (fewer second).2
  · obtain ⟨other, inside⟩ := Finset.mem_erase.mp inside
    refine (owned.all inside).imp_right fun ⟨j, holds⟩ => ⟨j, ?_⟩
    have apart : j ≠ i := by
      rintro rfl
      exact other (Option.some.inj (holds.symm.trans holder))
    rw [Function.update_of_ne apart, holds]
  · refine Finset.mem_erase.mpr ⟨?_, owned.kept member⟩
    rintro rfl
    exact (owned.held_open holder).2 member

end Owned

end Sylar.Library
