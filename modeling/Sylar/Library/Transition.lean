import Mathlib.Algebra.GroupWithZero.Nat
import Mathlib.Logic.Basic
import Mathlib.Tactic.ByContra

/-!
# Runs of a machine with partial steps

A machine takes a step for an action or refuses it. `Along` says that a property
holds in every state a run visits and `Guarded` that a condition holds before
every step it takes; the rules below reduce the first to the second.
-/

namespace Sylar.Library

universe u v

/-- Three parties are enough for a first one, which the runs of small machines call `0`. -/
@[instance] theorem threeParties : NeZero 3 := ⟨by decide⟩

variable {σ : Type u} {α : Type v} {step : σ → α → Option σ}

/-- The state a run leads to, when no action is refused. -/
def exec (step : σ → α → Option σ) : σ → List α → Option σ
  | state, [] => some state
  | state, action :: rest => (step state action).bind fun next => exec step next rest

theorem exec_append (state : σ) (before after : List α) :
    exec step state (before ++ after) =
      (exec step state before).bind fun middle => exec step middle after := by
  induction before generalizing state with
  | nil => rfl
  | cons action rest inductionHypothesis =>
      rw [List.cons_append, exec, exec, Option.bind_assoc]
      exact congrArg _ (funext inductionHypothesis)

/-- `property` holds in every state visited, up to the first refused action. -/
def Along (step : σ → α → Option σ) (property : σ → Prop) : σ → List α → Prop
  | state, [] => property state
  | state, action :: rest =>
      property state ∧ ∀ next, step state action = some next → Along step property next rest

/-- `guard` holds before every step, up to the first refused action. -/
def Guarded (step : σ → α → Option σ) (guard : σ → α → Prop) : σ → List α → Prop
  | _, [] => True
  | state, action :: rest =>
      guard state action ∧ ∀ next, step state action = some next → Guarded step guard next rest

/-- A run of an executable machine can be checked step by step. -/
instance Guarded.decidable {guard : σ → α → Prop} [∀ state action, Decidable (guard state action)] :
    ∀ state actions, Decidable (Guarded step guard state actions)
  | _, [] => isTrue trivial
  | state, action :: rest =>
      match taken : step state action with
      | none => decidable_of_iff (guard state action) (by simp [Guarded, taken])
      | some next =>
          have : Decidable (Guarded step guard next rest) := Guarded.decidable next rest
          decidable_of_iff (guard state action ∧ Guarded step guard next rest)
            (by simp [Guarded, taken])

/-- A guard looks at the value an action has, and not through all the values there are. -/
instance (priority := 2000) forallValueDecidable {β : Type v} {property : β → Prop}
    [DecidablePred property] (value : Option β) : Decidable (∀ found ∈ value, property found) :=
  value.decidableForallMem

theorem Along.head {property : σ → Prop} {state : σ} {actions : List α}
    (along : Along step property state actions) : property state := by
  cases actions with
  | nil => exact along
  | cons action rest => exact along.1

theorem guarded_true {state : σ} (actions : List α) :
    Guarded step (fun _ _ => True) state actions := by
  induction actions generalizing state with
  | nil => trivial
  | cons action rest inductionHypothesis => exact ⟨trivial, fun _ _ => inductionHypothesis⟩

theorem guarded_of_forall {guard : α → Prop} {state : σ} {actions : List α}
    (each : ∀ action ∈ actions, guard action) : Guarded step (fun _ => guard) state actions := by
  induction actions generalizing state with
  | nil => trivial
  | cons action rest inductionHypothesis =>
      obtain ⟨now, later⟩ := List.forall_mem_cons.mp each
      exact ⟨now, fun _ _ => inductionHypothesis later⟩

/-- Steps that meet a guard preserve an invariant, so a run of such steps has it
everywhere. -/
theorem along_of_guarded {invariant : σ → Prop} {guard : σ → α → Prop}
    (preserved : ∀ {state action next}, invariant state → guard state action →
      step state action = some next → invariant next)
    {state : σ} (start : invariant state) {actions : List α}
    (guarded : Guarded step guard state actions) : Along step invariant state actions := by
  induction actions generalizing state with
  | nil => exact start
  | cons action rest inductionHypothesis =>
      obtain ⟨now, later⟩ := guarded
      refine ⟨start, fun next taken => ?_⟩
      exact inductionHypothesis (preserved start now taken) (later next taken)

/-- Where no action is refused, a guard on the actions alone is asked of each of them. -/
theorem guarded_iff_forall {guard : α → Prop}
    (total : ∀ state action, ∃ next, step state action = some next) {state : σ}
    {actions : List α} :
    Guarded step (fun _ => guard) state actions ↔ ∀ action ∈ actions, guard action := by
  induction actions generalizing state with
  | nil => exact ⟨fun _ => nofun, fun _ => trivial⟩
  | cons action rest inductionHypothesis =>
      rw [List.forall_mem_cons, Guarded]
      obtain ⟨next, taken⟩ := total state action
      constructor
      · rintro ⟨now, later⟩
        exact ⟨now, inductionHypothesis.mp (later next taken)⟩
      · rintro ⟨now, later⟩
        exact ⟨now, fun _ _ => inductionHypothesis.mpr later⟩

/-- Under an invariant of guarded steps a guard can be replaced by what it implies. -/
theorem Guarded.mono {invariant : σ → Prop} {guard weaker : σ → α → Prop}
    (preserved : ∀ {state action next}, invariant state → guard state action →
      step state action = some next → invariant next)
    (implies : ∀ {state action}, invariant state → guard state action → weaker state action)
    {state : σ} (start : invariant state) {actions : List α}
    (guarded : Guarded step guard state actions) : Guarded step weaker state actions := by
  induction actions generalizing state with
  | nil => trivial
  | cons action rest inductionHypothesis =>
      obtain ⟨now, later⟩ := guarded
      refine ⟨implies start now, fun next taken => ?_⟩
      exact inductionHypothesis (preserved start now taken) (later next taken)

/-- A weaker property holds wherever a stronger one does. -/
theorem Along.mono {stronger weaker : σ → Prop} (implies : ∀ state, stronger state → weaker state)
    {state : σ} {actions : List α} (along : Along step stronger state actions) :
    Along step weaker state actions := by
  induction actions generalizing state with
  | nil => exact implies _ along
  | cons action rest inductionHypothesis =>
      exact ⟨implies _ along.1, fun next taken => inductionHypothesis (along.2 next taken)⟩

/-- A property of whole runs that passes to what is left of a run, and that no run
has whose first step is unguarded, needs the guard at every step. -/
theorem guarded_of_necessary {invariant : σ → Prop} {guard : σ → α → Prop}
    {whole : σ → List α → Prop}
    (tail : ∀ {state action next rest}, whole state (action :: rest) →
      step state action = some next → whole next rest)
    (preserved : ∀ {state action next}, invariant state → guard state action →
      step state action = some next → invariant next)
    (necessary : ∀ {state action rest}, invariant state → whole state (action :: rest) →
      guard state action)
    {state : σ} (start : invariant state) {actions : List α} (holds : whole state actions) :
    Guarded step guard state actions := by
  induction actions generalizing state with
  | nil => trivial
  | cons action rest inductionHypothesis =>
      have now := necessary start holds
      refine ⟨now, fun next taken => ?_⟩
      exact inductionHypothesis (preserved start now taken) (tail holds taken)

/-- When an invariant gives the property and unguarded steps break the property,
the guard is exactly what a run needs to have it everywhere. -/
theorem along_iff_guarded {invariant property : σ → Prop} {guard : σ → α → Prop}
    (implies : ∀ state, invariant state → property state)
    (preserved : ∀ {state action next}, invariant state → guard state action →
      step state action = some next → invariant next)
    (broken : ∀ {state action}, invariant state → ¬guard state action →
      ∃ next, step state action = some next ∧ ¬property next)
    {state : σ} (start : invariant state) {actions : List α} :
    Along step property state actions ↔ Guarded step guard state actions := by
  refine ⟨fun along => ?_, fun guarded => (along_of_guarded preserved start guarded).mono implies⟩
  refine guarded_of_necessary (fun along taken => along.2 _ taken) preserved ?_ start along
  intro state action rest holds along
  by_contra unguarded
  obtain ⟨next, taken, violated⟩ := broken holds unguarded
  exact violated (along.2 next taken).head

/-- What every step preserves holds in every state of a run. -/
theorem along_of_preserved {invariant : σ → Prop}
    (preserved : ∀ {state action next}, invariant state → step state action = some next →
      invariant next)
    {state : σ} (start : invariant state) (actions : List α) :
    Along step invariant state actions :=
  along_of_guarded (fun holds _ taken => preserved holds taken) start (guarded_true actions)

/-- The state at the end of a run is one of those visited. -/
theorem Along.exec {property : σ → Prop} {state final : σ} {actions : List α}
    (along : Along step property state actions) (ran : exec step state actions = some final) :
    property final := by
  induction actions generalizing state with
  | nil =>
      cases ran
      exact along
  | cons action rest inductionHypothesis =>
      obtain ⟨next, taken, later⟩ := Option.bind_eq_some_iff.mp ran
      exact inductionHypothesis (along.2 next taken) later

/-- What the actions of a run are labelled with is collected, last first. -/
theorem exec_collects {β : Type v} {label : α → Option β} {property : List β → σ → Prop}
    (preserved : ∀ {collected state action next}, property collected state →
      step state action = some next → property ((label action).toList ++ collected) next)
    {collected : List β} {state final : σ} (start : property collected state) {actions : List α}
    (ran : exec step state actions = some final) :
    property ((actions.filterMap label).reverse ++ collected) final := by
  induction actions generalizing state collected with
  | nil =>
      cases ran
      exact start
  | cons action rest inductionHypothesis =>
      obtain ⟨middle, taken, onward⟩ := Option.bind_eq_some_iff.mp ran
      have after := inductionHypothesis (preserved start taken) onward
      rcases labelled : label action with - | value
      · rw [labelled] at after
        rw [List.filterMap_cons_none labelled]
        exact after
      · rw [labelled] at after
        rw [List.filterMap_cons_some labelled, List.reverse_cons, List.append_assoc]
        exact after

/-- Every state a run visits is related to every state it visits later. -/
def Ascending (step : σ → α → Option σ) (relation : σ → σ → Prop) (state : σ)
    (actions : List α) : Prop :=
  ∀ before between after earlier later, actions = before ++ (between ++ after) →
    exec step state before = some earlier → exec step earlier between = some later →
    relation earlier later

namespace Ascending

variable {relation : σ → σ → Prop} {state next : σ} {action : α} {rest : List α}

theorem head (ascending : Ascending step relation state (action :: rest))
    (taken : step state action = some next) : relation state next :=
  ascending [] [action] rest state next rfl rfl (by simp [Library.exec, taken])

theorem tail (ascending : Ascending step relation state (action :: rest))
    (taken : step state action = some next) : Ascending step relation next rest := by
  intro before between after earlier later split reached continued
  refine ascending (action :: before) between after earlier later (by rw [split]; rfl) ?_ continued
  rw [Library.exec, taken]
  exact reached

end Ascending

/-- A preorder that holds across every guarded step holds across guarded runs. -/
theorem ascending_of_guarded {relation : σ → σ → Prop} {guard : σ → α → Prop}
    (refl : ∀ state, relation state state)
    (trans : ∀ {first second third}, relation first second → relation second third →
      relation first third)
    (ascends : ∀ {state action next}, guard state action → step state action = some next →
      relation state next)
    {state : σ} {actions : List α} (guarded : Guarded step guard state actions) :
    Ascending step relation state actions := by
  intro before
  induction before generalizing state actions with
  | nil =>
      intro between
      induction between generalizing state actions with
      | nil =>
          rintro after earlier later rfl ⟨⟩ ⟨⟩
          exact refl _
      | cons action rest inductionHypothesis =>
          rintro after earlier later rfl ⟨⟩ continued
          obtain ⟨next, taken, onward⟩ := Option.bind_eq_some_iff.mp continued
          have below := inductionHypothesis (guarded.2 next taken) after next later rfl rfl onward
          exact trans (ascends guarded.1 taken) below
  | cons action rest inductionHypothesis =>
      rintro between after earlier later rfl reached continued
      obtain ⟨next, taken, onward⟩ := Option.bind_eq_some_iff.mp reached
      exact inductionHypothesis (guarded.2 next taken) between after earlier later rfl onward
        continued

/-- Some continuation of a run leaves the property. -/
def Doomed (step : σ → α → Option σ) (property : σ → Prop) (state : σ) : Prop :=
  ∃ actions, ¬Along step property state actions

namespace Doomed

variable {property : σ → Prop} {s t : σ}

theorem of_step (action : α) (taken : step s action = some t)
    (doomed : Doomed step property t) : Doomed step property s := by
  obtain ⟨actions, violated⟩ := doomed
  exact ⟨action :: actions, fun along => violated (along.2 t taken)⟩

theorem of_not (violated : ¬property s) : Doomed step property s := ⟨[], violated⟩

end Doomed

end Sylar.Library
