import Mathlib.Data.List.Basic

/-!
# Things that are opened and closed

The history of one place where something is opened and closed again, over and
over. `Life` says that opening and closing take turns and that every closing
fits what was opened; `Life.ended_once` reads off that nothing is closed twice.
-/

namespace Sylar.Library

universe u v w

/-- One entry of the history of a place. -/
inductive Phase (ν : Type u) (ω : Type v) where
  | opened (value : ν)
  | closed (outcome : ω)
deriving DecidableEq, Repr

variable {ν : Type u} {ω : Type v} {fits : ν → ω → Prop}

/-- A history that leads from what was open before it to what is open after it. -/
inductive Life (fits : ν → ω → Prop) : Option ν → List (Phase ν ω) → Option ν → Prop where
  | done {current : Option ν} : Life fits current [] current
  | opened {value : ν} {rest : List (Phase ν ω)} {last : Option ν}
      (life : Life fits (some value) rest last) : Life fits none (.opened value :: rest) last
  | closed {value : ν} {outcome : ω} {rest : List (Phase ν ω)} {last : Option ν}
      (fitting : fits value outcome) (life : Life fits none rest last) :
      Life fits (some value) (.closed outcome :: rest) last

namespace Life

variable {first middle last : Option ν}

theorem trans {earlier later : List (Phase ν ω)} (left : Life fits first earlier middle)
    (right : Life fits middle later last) : Life fits first (earlier ++ later) last := by
  induction left with
  | done => exact right
  | opened _ inductionHypothesis => exact .opened (inductionHypothesis right)
  | closed fitting _ inductionHypothesis => exact .closed fitting (inductionHypothesis right)

/-- What follows an opening is the life of what was opened. -/
theorem after_opened {before after : List (Phase ν ω)} {value : ν}
    (life : Life fits first (before ++ .opened value :: after) last) :
    Life fits (some value) after last := by
  induction before generalizing first with
  | nil =>
      cases life with
      | opened life => exact life
  | cons phase before inductionHypothesis =>
      cases life with
      | opened life => exact inductionHypothesis life
      | closed _ life => exact inductionHypothesis life

/-- What was opened is closed at most once, in a way that fits it: after that
nothing happens before something is opened again. -/
theorem ended_once {before after : List (Phase ν ω)} {value : ν}
    (life : Life fits first (before ++ .opened value :: after) last) :
    after = [] ∨ ∃ outcome rest, after = .closed outcome :: rest ∧ fits value outcome ∧
      (rest = [] ∨ ∃ next more, rest = .opened next :: more) := by
  cases life.after_opened with
  | done => exact Or.inl rfl
  | @closed _ outcome rest _ fitting life =>
      refine Or.inr ⟨outcome, rest, rfl, fitting, ?_⟩
      cases life with
      | done => exact Or.inl rfl
      | opened _ => exact Or.inr ⟨_, _, rfl⟩

/-- What is open at the end was open at the beginning or was opened. -/
theorem origin {history : List (Phase ν ω)} {value : ν}
    (life : Life fits first history last) (ends : last = some value) :
    first = some value ∨ .opened value ∈ history := by
  induction life with
  | done => exact Or.inl ends
  | opened _ inductionHypothesis =>
      rcases inductionHypothesis ends with same | later
      · cases same
        exact Or.inr List.mem_cons_self
      · exact Or.inr (List.mem_cons_of_mem _ later)
  | closed _ _ inductionHypothesis =>
      rcases inductionHypothesis ends with absent | later
      · cases absent
      · exact Or.inr (List.mem_cons_of_mem _ later)

end Life

end Sylar.Library
