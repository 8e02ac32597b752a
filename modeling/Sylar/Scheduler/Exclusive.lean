import Sylar.Library.Transition
import Sylar.Scheduler.Model
import Mathlib.Tactic.SplitIfs
import Mathlib.Data.Fin.Embedding
import Mathlib.Data.Fintype.Basic

/-!
# Exclusive execution of a fiber

A fiber is to run on one thread at a time, in the state `EXEC`, from a saved
context. Nothing in the scheduler makes a thread wait until another one is done
with a fiber: the fiber shows `HOLD` or `READY` before `swapOut` has saved its
context, and the thread that ran it sets `HOLD` after that. `exclusive_execution`
proves the law for runs in which no thread enters `swapIn` for a fiber that
another thread is not done with, and that any other step can be continued to a
violation.
-/

set_option linter.unusedSectionVars false

namespace Sylar.Scheduler

open Library

variable {F W : Type} [DecidableEq F] [DecidableEq W]

namespace State

/-- `w` is between the call of `swapIn` on `f` and the end of the update after it. -/
def Inside (s : State F W) (w : W) (f : F) : Prop :=
  ∃ branch stage, s.worker w = .inside branch stage f

instance (s : State F W) (w : W) (f : F) : Decidable (s.Inside w f) :=
  match here : s.worker w with
  | .inside branch stage g =>
      decidable_of_iff (g = f) (by simp [Inside, here])
  | .polling | .picked _ | .pickedCb | .stopped | .failed =>
      isFalse (by simp [Inside, here])

/-- `w` executes on the stack of `f`. -/
def Executes (s : State F W) (w : W) (f : F) : Prop :=
  ∃ branch stage, s.worker w = .inside branch stage f ∧
    (stage = .running ∨ stage = .torn ∨ stage = .leaving)

/-- The law: no context is loaded before it is saved, no fiber is executed by
two threads, a running fiber is in the state `EXEC`, and no assertion fails. -/
structure Exclusive (s : State F W) : Prop where
  whole : ∀ w branch f, s.worker w ≠ .inside branch .torn f
  alone : ∀ {w v f}, s.Executes w f → s.Executes v f → w = v
  marked : ∀ {w branch f}, s.worker w = .inside branch .running f → s.fiberState f = .exec
  asserted : ∀ w, s.worker w ≠ .failed

/-- The thread and the fiber of a step that calls `swapIn`. -/
def entered (s : State F W) : Action F W → Option (W × F)
  | .examine w =>
      match s.worker w with
      | .picked f => if s.terminated f then none else some (w, f)
      | _ => none
  | .callback w f => some (w, f)
  | .goIdle w =>
      if s.fiberState (s.idleFiber w) = .term then none else some (w, s.idleFiber w)
  | _ => none

/-- No thread calls `swapIn` on a fiber that another one is not done with. -/
def Undisturbed (s : State F W) (action : Action F W) : Prop :=
  ∀ w f, s.entered action = some (w, f) → ∀ v, ¬s.Inside v f

instance [Fintype F] [Fintype W] (s : State F W) (action : Action F W) :
    Decidable (s.Undisturbed action) :=
  inferInstanceAs (Decidable (∀ w f, s.entered action = some (w, f) → ∀ v, ¬s.Inside v f))

/-- What holds of a fiber at each stage of the one thread inside. -/
def Consistent (stage : Stage) (state : FiberState) (saved : Bool) : Prop :=
  match stage with
  | .entering | .asserted => state ≠ .exec ∧ saved = true
  | .marked => state = .exec ∧ saved = true
  | .running => state = .exec ∧ saved = false
  | .torn => False
  | .leaving => saved = false
  | .returned => saved = true

/-- Nobody is inside `f`, or one thread is and its stage says the rest. -/
inductive Tracked (s : State F W) (f : F) : Prop where
  | free (nobody : ∀ w, ¬s.Inside w f) (rests : s.fiberState f ≠ .exec)
      (whole : s.saved f = true)
  | held (w : W) (branch : Branch) (stage : Stage) (here : s.worker w = .inside branch stage f)
      (alone : ∀ v, s.Inside v f → v = w)
      (consistent : Consistent stage (s.fiberState f) (s.saved f))

/-- The invariant of undisturbed runs. -/
structure Orderly (s : State F W) : Prop where
  tracked : ∀ f, s.Tracked f
  asserted : ∀ w, s.worker w ≠ .failed

section Setters

variable (s : State F W) (w : W) (f : F)

@[simp] theorem worker_setWorker (worker : Worker F) :
    (s.setWorker w worker).worker = Function.update s.worker w worker := rfl

@[simp] theorem fiberState_setWorker (worker : Worker F) :
    (s.setWorker w worker).fiberState = s.fiberState := rfl

@[simp] theorem saved_setWorker (worker : Worker F) :
    (s.setWorker w worker).saved = s.saved := rfl

@[simp] theorem worker_setState (state : FiberState) : (s.setState f state).worker = s.worker := rfl

@[simp] theorem fiberState_setState (state : FiberState) :
    (s.setState f state).fiberState = Function.update s.fiberState f state := rfl

@[simp] theorem saved_setState (state : FiberState) : (s.setState f state).saved = s.saved := rfl

@[simp] theorem worker_setSaved (saved : Bool) : (s.setSaved f saved).worker = s.worker := rfl

@[simp] theorem fiberState_setSaved (saved : Bool) :
    (s.setSaved f saved).fiberState = s.fiberState := rfl

@[simp] theorem saved_setSaved (saved : Bool) :
    (s.setSaved f saved).saved = Function.update s.saved f saved := rfl

@[simp] theorem worker_initialise : (s.initialise f).worker = s.worker := rfl

@[simp] theorem fiberState_initialise :
    (s.initialise f).fiberState = Function.update s.fiberState f .init := rfl

@[simp] theorem saved_initialise :
    (s.initialise f).saved = Function.update s.saved f true := rfl

@[simp] theorem worker_push (entry : FiberAndThread F W) : (s.push entry).worker = s.worker := rfl

@[simp] theorem fiberState_push (entry : FiberAndThread F W) :
    (s.push entry).fiberState = s.fiberState := rfl

@[simp] theorem saved_push (entry : FiberAndThread F W) : (s.push entry).saved = s.saved := rfl

@[simp] theorem worker_setCbFiber (g : Option F) : (s.setCbFiber w g).worker = s.worker := rfl

@[simp] theorem fiberState_setCbFiber (g : Option F) :
    (s.setCbFiber w g).fiberState = s.fiberState := rfl

@[simp] theorem saved_setCbFiber (g : Option F) : (s.setCbFiber w g).saved = s.saved := rfl

end Setters

/-- A fiber stays tracked when nothing that concerns it changes. -/
theorem Tracked.of_same {s t : State F W} {g : F}
    (worker : ∀ v branch stage, t.worker v = .inside branch stage g ↔
      s.worker v = .inside branch stage g)
    (fiberState : t.fiberState g = s.fiberState g) (saved : t.saved g = s.saved g)
    (tracked : s.Tracked g) : t.Tracked g := by
  have inside : ∀ v, t.Inside v g ↔ s.Inside v g := fun v =>
    exists_congr fun branch => exists_congr fun stage => worker v branch stage
  cases tracked with
  | free nobody rests whole =>
      refine .free (fun v within => nobody v ((inside v).mp within)) ?_ ?_
      · rw [fiberState]
        exact rests
      · rw [saved]
        exact whole
  | held v branch stage here alone consistent =>
      refine .held v branch stage ((worker v branch stage).mpr here)
        (fun u within => alone u ((inside u).mp within)) ?_
      rw [fiberState, saved]
      exact consistent

/-- The thread inside a fiber is the only one, and its stage is consistent. -/
theorem Orderly.here {s : State F W} (orderly : s.Orderly) {w : W} {branch : Branch}
    {stage : Stage} {f : F} (here : s.worker w = .inside branch stage f) :
    (∀ v, s.Inside v f → v = w) ∧ Consistent stage (s.fiberState f) (s.saved f) := by
  cases orderly.tracked f with
  | free nobody _ _ => exact absurd ⟨branch, stage, here⟩ (nobody w)
  | held v otherBranch otherStage there alone consistent =>
      obtain rfl : w = v := alone w ⟨branch, stage, here⟩
      rw [here] at there
      cases there
      exact ⟨alone, consistent⟩

/-- A fiber nobody is inside rests with its context saved. -/
theorem Orderly.rests {s : State F W} (orderly : s.Orderly) {f : F}
    (nobody : ∀ v, ¬s.Inside v f) : s.fiberState f ≠ .exec ∧ s.saved f = true := by
  cases orderly.tracked f with
  | free _ rests whole => exact ⟨rests, whole⟩
  | held w branch stage here _ _ => exact absurd ⟨branch, stage, here⟩ (nobody w)

/-- `t` differs from `s` in the place of `w`, and otherwise only in `f`; `w` is
in or comes to no other fiber. -/
structure Moves (w : W) (place : Worker F) (f : F) (s t : State F W) : Prop where
  worker : t.worker = Function.update s.worker w place
  fiberState : ∀ g, g ≠ f → t.fiberState g = s.fiberState g
  saved : ∀ g, g ≠ f → t.saved g = s.saved g
  before : ∀ g, g ≠ f → ∀ branch stage, s.worker w ≠ .inside branch stage g
  after : ∀ g, g ≠ f → ∀ branch stage, place ≠ .inside branch stage g
  asserted : place ≠ .failed

namespace Moves

variable {s t : State F W} {w : W} {place : Worker F} {f : F}

theorem here (moves : Moves w place f s t) : t.worker w = place := by
  rw [moves.worker, Function.update_self]

theorem elsewhere (moves : Moves w place f s t) {v : W} (other : v ≠ w) :
    t.worker v = s.worker v := by
  rw [moves.worker, Function.update_of_ne other]

/-- After a move only the fiber it is about has to be looked at again. -/
theorem orderly (moves : Moves w place f s t) (orderly : s.Orderly) (tracked : t.Tracked f) :
    t.Orderly where
  tracked g := by
    by_cases same : g = f
    · exact same ▸ tracked
    refine Tracked.of_same (fun v branch stage => ?_) (moves.fiberState g same)
      (moves.saved g same) (orderly.tracked g)
    by_cases at_w : v = w
    · subst at_w
      rw [moves.here]
      exact iff_of_false (moves.after g same branch stage) (moves.before g same branch stage)
    · rw [moves.elsewhere at_w]
  asserted v := by
    by_cases at_w : v = w
    · subst at_w
      rw [moves.here]
      exact moves.asserted
    · rw [moves.elsewhere at_w]
      exact orderly.asserted v

/-- `w` is inside `f` after the move. -/
theorem held {branch : Branch} {stage : Stage} (moves : Moves w (.inside branch stage f) f s t)
    (orderly : s.Orderly) (alone : ∀ v, s.Inside v f → v = w)
    (consistent : Consistent stage (t.fiberState f) (t.saved f)) : t.Orderly := by
  refine moves.orderly orderly (.held w branch stage moves.here (fun v inside => ?_) consistent)
  by_contra other
  obtain ⟨otherBranch, otherStage, there⟩ := inside
  rw [moves.elsewhere other] at there
  exact other (alone v ⟨otherBranch, otherStage, there⟩)

/-- `w` has left `f`. -/
theorem free (moves : Moves w place f s t) (orderly : s.Orderly)
    (alone : ∀ v, s.Inside v f → v = w) (outside : ∀ branch stage, place ≠ .inside branch stage f)
    (rests : t.fiberState f ≠ .exec) (whole : t.saved f = true) : t.Orderly := by
  refine moves.orderly orderly (.free (fun v inside => ?_) rests whole)
  obtain ⟨branch, stage, there⟩ := inside
  by_cases at_w : v = w
  · subst at_w
    rw [moves.here] at there
    exact outside branch stage there
  · rw [moves.elsewhere at_w] at there
    exact at_w (alone v ⟨branch, stage, there⟩)

end Moves

/-- A thread inside `f` changes its place to one that is not inside another fiber. -/
theorem moves_of_here {s t : State F W} {w : W} {branch : Branch} {stage : Stage} {f : F}
    {place : Worker F} (here : s.worker w = .inside branch stage f)
    (worker : t.worker = Function.update s.worker w place)
    (fiberState : ∀ g, g ≠ f → t.fiberState g = s.fiberState g)
    (saved : ∀ g, g ≠ f → t.saved g = s.saved g)
    (after : place = .polling ∨ ∃ branch stage, place = .inside branch stage f) :
    Moves w place f s t where
  worker := worker
  fiberState := fiberState
  saved := saved
  before g other branch stage there := by
    rw [here] at there
    cases there
    exact other rfl
  after g other branch stage there := by
    rcases after with rfl | ⟨_, _, rfl⟩
    · exact nomatch there
    · cases there
      exact other rfl
  asserted := by
    rcases after with rfl | ⟨_, _, rfl⟩ <;> exact nofun

/-- A thread that is inside no fiber enters `f`. -/
theorem moves_of_outside {s t : State F W} {w : W} {branch : Branch} {f : F}
    (outside : ∀ branch stage g, s.worker w ≠ .inside branch stage g)
    (worker : t.worker = Function.update s.worker w (.inside branch .entering f))
    (fiberState : ∀ g, g ≠ f → t.fiberState g = s.fiberState g)
    (saved : ∀ g, g ≠ f → t.saved g = s.saved g) :
    Moves w (.inside branch .entering f) f s t where
  worker := worker
  fiberState := fiberState
  saved := saved
  before g _ branch stage := outside branch stage g
  after g other branch stage there := by
    cases there
    exact other rfl
  asserted := nofun

/-- A step that concerns no fiber. -/
theorem Orderly.of_same {s t : State F W} (orderly : s.Orderly)
    (worker : ∀ v, t.worker v = s.worker v ∨
      ((∀ branch stage f, s.worker v ≠ .inside branch stage f) ∧
        (∀ branch stage f, t.worker v ≠ .inside branch stage f) ∧ t.worker v ≠ .failed))
    (fiberState : t.fiberState = s.fiberState) (saved : t.saved = s.saved) : t.Orderly where
  tracked g := by
    refine Tracked.of_same (fun v branch stage => ?_) (congrFun fiberState g)
      (congrFun saved g) (orderly.tracked g)
    rcases worker v with same | ⟨before, after, _⟩
    · rw [same]
    · exact iff_of_false (after branch stage g) (before branch stage g)
  asserted v := by
    rcases worker v with same | ⟨_, _, whole⟩
    · rw [same]
      exact orderly.asserted v
    · exact whole

/-- A thread that is inside no fiber goes where it is inside none either. -/
theorem Orderly.relocate {s t : State F W} (orderly : s.Orderly) {w : W} {place : Worker F}
    (outside : ∀ branch stage f, s.worker w ≠ .inside branch stage f)
    (worker : t.worker = Function.update s.worker w place)
    (away : ∀ branch stage f, place ≠ .inside branch stage f) (whole : place ≠ .failed)
    (fiberState : t.fiberState = s.fiberState) (saved : t.saved = s.saved) : t.Orderly := by
  refine orderly.of_same (fun v => ?_) fiberState saved
  by_cases at_w : v = w
  · subst at_w
    rw [worker, Function.update_self]
    exact Or.inr ⟨outside, away, whole⟩
  · rw [worker, Function.update_of_ne at_w]
    exact Or.inl rfl

/-- A thread that enters a fiber nobody is inside keeps the order. -/
theorem Orderly.enter {s t : State F W} (orderly : s.Orderly) {w : W} {branch : Branch} {f : F}
    (outside : ∀ branch stage g, s.worker w ≠ .inside branch stage g)
    (worker : t.worker = Function.update s.worker w (.inside branch .entering f))
    (fiberState : t.fiberState = s.fiberState ∨
      t.fiberState = Function.update s.fiberState f .init)
    (saved : t.saved = s.saved ∨ t.saved = Function.update s.saved f true)
    (nobody : ∀ v, ¬s.Inside v f) : t.Orderly := by
  obtain ⟨rests, whole⟩ := orderly.rests nobody
  have moves : Moves w (.inside branch .entering f) f s t := by
    refine moves_of_outside outside worker (fun g other => ?_) (fun g other => ?_)
    · rcases fiberState with same | reset
      · rw [same]
      · rw [reset, Function.update_of_ne other]
    · rcases saved with same | reset
      · rw [same]
      · rw [reset, Function.update_of_ne other]
  refine moves.held orderly (fun v inside => absurd inside (nobody v)) ⟨?_, ?_⟩
  · rcases fiberState with same | reset
    · rw [same]
      exact rests
    · rw [reset, Function.update_self]
      exact nofun
  · rcases saved with same | reset
    · rw [same]
      exact whole
    · rw [reset, Function.update_self]

/-- A thread inside a fiber goes on to its next stage. -/
theorem Orderly.advance {s t : State F W} (orderly : s.Orderly) {w : W} {branch : Branch}
    {stage next : Stage} {f : F} (here : s.worker w = .inside branch stage f)
    (worker : t.worker = Function.update s.worker w (.inside branch next f))
    (fiberState : ∀ g, g ≠ f → t.fiberState g = s.fiberState g)
    (saved : ∀ g, g ≠ f → t.saved g = s.saved g)
    (consistent : Consistent next (t.fiberState f) (t.saved f)) : t.Orderly :=
  (moves_of_here here worker fiberState saved (Or.inr ⟨branch, next, rfl⟩)).held orderly
    (orderly.here here).1 consistent

/-- The update after `swapIn` leaves the fiber resting, its context saved. -/
theorem afterSwapIn_rests (s : State F W) (w : W) (f : F) (branch : Branch)
    (whole : s.saved f = true) :
    (s.afterSwapIn w f branch).fiberState f ≠ .exec ∧
      (s.afterSwapIn w f branch).saved f = true := by
  have ready : s.fiberState f = .ready → s.fiberState f ≠ .exec := fun at_ready => by
    rw [at_ready]
    exact nofun
  have ended : s.terminated f = true → s.fiberState f ≠ .exec := fun done running => by
    simp [terminated, running] at done
  cases branch <;> simp only [afterSwapIn] <;> split_ifs <;> simp_all

theorem afterSwapIn_frame (s : State F W) (w : W) (f : F) (branch : Branch) :
    (s.afterSwapIn w f branch).worker = s.worker ∧
      ∀ g, g ≠ f → (s.afterSwapIn w f branch).fiberState g = s.fiberState g ∧
        (s.afterSwapIn w f branch).saved g = s.saved g := by
  cases branch <;> simp only [afterSwapIn] <;> split_ifs <;>
    exact ⟨rfl, fun g other => by simp [Function.update_of_ne other]⟩

/-- The update ends the stay of a thread in a fiber. -/
theorem Orderly.update {s : State F W} (orderly : s.Orderly) {w : W} {branch : Branch} {f : F}
    (here : s.worker w = .inside branch .returned f) :
    ((s.afterSwapIn w f branch).setWorker w .polling).Orderly := by
  obtain ⟨alone, whole⟩ := orderly.here here
  obtain ⟨rests, saved⟩ := afterSwapIn_rests s w f branch whole
  obtain ⟨worker, frame⟩ := afterSwapIn_frame s w f branch
  refine Moves.free (moves_of_here here ?_ (fun g other => (frame g other).1)
    (fun g other => (frame g other).2) (Or.inl rfl)) orderly alone (fun _ _ => nofun) rests saved
  rw [worker_setWorker, worker]

/-- An undisturbed step keeps the order. -/
theorem Orderly.step {s t : State F W} (orderly : s.Orderly) {action : Action F W}
    (undisturbed : s.Undisturbed action) (taken : s.step action = some t) : t.Orderly := by
  cases action with
  | create f =>
      simp only [State.step] at taken
      split at taken
      · cases taken
      · cases taken
        exact orderly.of_same (fun _ => Or.inl rfl) rfl rfl
  | schedule entry =>
      simp only [State.step] at taken
      split at taken
      · split at taken
        · cases taken
          exact orderly.of_same (fun _ => Or.inl rfl) rfl rfl
        · cases taken
      · cases taken
        exact orderly.of_same (fun _ => Or.inl rfl) rfl rfl
  | dequeue w =>
      simp only [State.step] at taken
      split at taken
      · rename_i polling
        have outside : ∀ branch stage f, s.worker w ≠ .inside branch stage f := by
          simp [polling]
        split at taken
        · cases taken
        · split at taken
          · cases taken
            exact orderly.relocate outside rfl (fun _ _ _ => nofun) nofun rfl rfl
          · cases taken
            exact orderly.relocate outside rfl (fun _ _ _ => nofun) nofun rfl rfl
      · cases taken
  | examine w =>
      simp only [State.step] at taken
      split at taken
      · rename_i f picked
        have outside : ∀ branch stage g, s.worker w ≠ .inside branch stage g := by
          simp [picked]
        split at taken
        · cases taken
          exact orderly.relocate outside rfl (fun _ _ _ => nofun) nofun rfl rfl
        · rename_i alive
          cases taken
          have nobody := undisturbed w f (by simp only [entered, picked, if_neg alive])
          exact orderly.enter outside rfl (Or.inl rfl) (Or.inl rfl) nobody
      · cases taken
  | callback w f =>
      have nobody := undisturbed w f rfl
      simp only [State.step] at taken
      split at taken
      · rename_i picked
        have outside : ∀ branch stage g, s.worker w ≠ .inside branch stage g := by
          simp [picked]
        split at taken
        · split at taken
          · cases taken
            exact orderly.enter outside rfl (Or.inr rfl) (Or.inr rfl) nobody
          · cases taken
        · split at taken
          · cases taken
          · cases taken
            exact orderly.enter outside rfl (Or.inl rfl) (Or.inl rfl) nobody
      · cases taken
  | goIdle w =>
      simp only [State.step] at taken
      split at taken
      · rename_i idle
        have outside : ∀ branch stage g, s.worker w ≠ .inside branch stage g := by
          simp [idle.1]
        split at taken
        · cases taken
          exact orderly.relocate outside rfl (fun _ _ _ => nofun) nofun rfl rfl
        · rename_i alive
          cases taken
          have nobody := undisturbed w (s.idleFiber w) (by simp only [entered, if_neg alive])
          exact orderly.enter outside rfl (Or.inl rfl) (Or.inl rfl) nobody
      · cases taken
  | assertNotExec w =>
      simp only [State.step] at taken
      split at taken
      · rename_i branch f here
        have consistent := (orderly.here here).2
        rw [if_neg consistent.1] at taken
        cases taken
        exact orderly.advance here rfl (fun _ _ => rfl) (fun _ _ => rfl) consistent
      · cases taken
  | mark w =>
      simp only [State.step] at taken
      split at taken
      · rename_i branch f here
        cases taken
        refine orderly.advance here rfl (fun g other => ?_) (fun _ _ => rfl)
          ⟨Function.update_self _ _ _, (orderly.here here).2.2⟩
        exact Function.update_of_ne other _ _
      · cases taken
  | switch w =>
      simp only [State.step] at taken
      split at taken
      · rename_i branch f here
        have consistent := (orderly.here here).2
        rw [if_pos consistent.2] at taken
        cases taken
        refine orderly.advance here rfl (fun _ _ => rfl) (fun g other => ?_)
          ⟨consistent.1, Function.update_self _ _ _⟩
        exact Function.update_of_ne other _ _
      · cases taken
  | yield w how =>
      simp only [State.step] at taken
      split at taken
      · rename_i branch f here
        have consistent := (orderly.here here).2
        obtain ⟨state, yields⟩ : ∃ state, s.yieldState f how = some state := by
          cases how <;> simp [yieldState, consistent.1]
        simp only [yields] at taken
        cases taken
        refine orderly.advance here rfl (fun g other => ?_) (fun _ _ => rfl) consistent.2
        exact Function.update_of_ne other _ _
      · cases taken
  | save w =>
      simp only [State.step] at taken
      split at taken
      · rename_i branch f here
        cases taken
        refine orderly.advance here rfl (fun _ _ => rfl) (fun g other => ?_)
          (Function.update_self _ _ _)
        exact Function.update_of_ne other _ _
      · cases taken
  | update w =>
      simp only [State.step] at taken
      split at taken
      · rename_i branch f here
        cases taken
        exact orderly.update here
      · cases taken

theorem orderly_initial (idleFiber : W ↪ F) (isIdle : F → Bool) :
    (initial idleFiber isIdle).Orderly where
  tracked f := by
    refine .free (fun w inside => ?_) (fun running => nomatch running) rfl
    obtain ⟨branch, stage, here⟩ := inside
    exact nomatch here
  asserted w failed := nomatch failed

/-- The law follows from the invariant. -/
theorem Orderly.exclusive {s : State F W} (orderly : s.Orderly) : s.Exclusive where
  whole w branch f here := (orderly.here here).2
  alone {w v f} first second := by
    obtain ⟨branch, stage, here, _⟩ := first
    obtain ⟨otherBranch, otherStage, there, _⟩ := second
    exact (orderly.here there).1 w ⟨branch, stage, here⟩
  marked {w branch f} here := (orderly.here here).2.1
  asserted := orderly.asserted

/-- Some continuation violates the law. -/
abbrev Doomed (s : State F W) : Prop := Library.Doomed step Exclusive s

namespace Doomed

variable {s t : State F W} {w v : W} {branch other : Branch} {f : F}

/-- The assertion of `swapIn` fails. -/
theorem of_exec (here : s.worker w = .inside branch .entering f)
    (running : s.fiberState f = .exec) : s.Doomed := by
  have taken : s.step (.assertNotExec w) = some (s.setWorker w .failed) := by
    simp only [step, here, if_pos running]
  refine Library.Doomed.of_step _ taken (Library.Doomed.of_not fun exclusive => ?_)
  refine exclusive.asserted w ?_
  rw [worker_setWorker, Function.update_self]

/-- A context is loaded before it is saved. -/
theorem of_unsaved (here : s.worker w = .inside branch .marked f) (unsaved : s.saved f = false) :
    s.Doomed := by
  have taken : s.step (.switch w) = some (s.setWorker w (.inside branch .torn f)) := by
    simp only [step, here, unsaved, Bool.false_eq_true, if_false]
  refine Library.Doomed.of_step _ taken (Library.Doomed.of_not fun exclusive => ?_)
  refine exclusive.whole w branch f ?_
  rw [worker_setWorker, Function.update_self]

/-- A thread goes on with the context, if it is saved. -/
theorem of_switch (here : s.worker w = .inside branch .marked f)
    (next : s.saved f = true →
      ((s.setSaved f false).setWorker w (.inside branch .running f)).Doomed) : s.Doomed := by
  cases whole : s.saved f with
  | false => exact of_unsaved here whole
  | true =>
      refine Library.Doomed.of_step (.switch w) ?_ (next whole)
      simp only [step, here, whole, if_true]

theorem of_marked_marked (apart : v ≠ w) (here : s.worker w = .inside branch .marked f)
    (there : s.worker v = .inside other .marked f) : s.Doomed := by
  refine of_switch here fun _ => ?_
  let t := (s.setSaved f false).setWorker w (.inside branch .running f)
  have thereAfter : t.worker v = .inside other .marked f := by
    rw [worker_setWorker, Function.update_of_ne apart, worker_setSaved, there]
  refine of_unsaved thereAfter ?_
  rw [saved_setWorker, saved_setSaved, Function.update_self]

/-- The other thread did not see `EXEC`. -/
theorem of_marked_asserted (apart : v ≠ w) (here : s.worker w = .inside branch .marked f)
    (there : s.worker v = .inside other .asserted f) : s.Doomed := by
  let t := (s.setState f .exec).setWorker v (.inside other .marked f)
  have hereAfter : t.worker w = .inside branch .marked f := by
    rw [worker_setWorker, Function.update_of_ne apart.symm, worker_setState, here]
  have thereAfter : t.worker v = .inside other .marked f := by
    rw [worker_setWorker, Function.update_self]
  refine Library.Doomed.of_step (.mark v) (t := t) ?_ (of_marked_marked apart hereAfter thereAfter)
  simp only [step, there, t]

/-- The other thread is still in `swapOut`. -/
theorem of_marked_leaving (apart : v ≠ w) (here : s.worker w = .inside branch .marked f)
    (there : s.worker v = .inside other .leaving f) : s.Doomed := by
  refine of_switch here fun _ => Library.Doomed.of_not fun exclusive => apart (exclusive.alone
    (f := f) ⟨other, .leaving, ?_, Or.inr (Or.inr rfl)⟩ ⟨branch, .running, ?_, Or.inl rfl⟩)
  · rw [worker_setWorker, Function.update_of_ne apart, worker_setSaved, there]
  · rw [worker_setWorker, Function.update_self]

/-- The other thread is going to set `HOLD`. -/
theorem of_marked_returned (apart : v ≠ w) (here : s.worker w = .inside branch .marked f)
    (running : s.fiberState f = .exec) (there : s.worker v = .inside other .returned f) :
    s.Doomed := by
  refine of_switch here fun _ => ?_
  let t := (s.setSaved f false).setWorker w (.inside branch .running f)
  have thereAfter : t.worker v = .inside other .returned f := by
    rw [worker_setWorker, Function.update_of_ne apart, worker_setSaved, there]
  have runningAfter : t.fiberState f = .exec := running
  have held : (t.afterSwapIn v f other).fiberState f = .hold := by
    cases other <;> simp [afterSwapIn, runningAfter, terminated]
  obtain ⟨worker, _⟩ := afterSwapIn_frame t v f other
  refine Library.Doomed.of_step (.update v) (t := (t.afterSwapIn v f other).setWorker v .polling) ?_
    (Library.Doomed.of_not fun exclusive => ?_)
  · simp only [step, t, thereAfter]
  · have still : ((t.afterSwapIn v f other).setWorker v .polling).worker w =
        .inside branch .running f := by
      rw [worker_setWorker, Function.update_of_ne apart.symm, worker, worker_setWorker,
        Function.update_self]
    have state := exclusive.marked still
    rw [fiberState_setWorker, held] at state
    cases state

/-- Two threads in one fiber, one of which has not set `EXEC` yet. -/
theorem of_asserted {stage : Stage} (apart : v ≠ w)
    (here : s.worker w = .inside branch .asserted f)
    (there : s.worker v = .inside other stage f)
    (place : stage = .entering ∨ stage = .asserted ∨ stage = .leaving ∨ stage = .returned) :
    s.Doomed := by
  let t := (s.setState f .exec).setWorker w (.inside branch .marked f)
  have hereAfter : t.worker w = .inside branch .marked f := by
    rw [worker_setWorker, Function.update_self]
  have thereAfter : t.worker v = .inside other stage f := by
    rw [worker_setWorker, Function.update_of_ne apart, worker_setState, there]
  have running : t.fiberState f = .exec := by
    rw [fiberState_setWorker, fiberState_setState, Function.update_self]
  refine Library.Doomed.of_step (.mark w) (t := t) (by simp only [step, here, t]) ?_
  rcases place with rfl | rfl | rfl | rfl
  · exact of_exec thereAfter running
  · exact of_marked_asserted apart hereAfter thereAfter
  · exact of_marked_leaving apart hereAfter thereAfter
  · exact of_marked_returned apart hereAfter running thereAfter

theorem of_entering {stage : Stage} (apart : v ≠ w)
    (here : s.worker w = .inside branch .entering f)
    (there : s.worker v = .inside other stage f)
    (place : s.fiberState f = .exec ∨
      stage = .entering ∨ stage = .asserted ∨ stage = .leaving ∨ stage = .returned) :
    s.Doomed := by
  by_cases running : s.fiberState f = .exec
  · exact of_exec here running
  let t := s.setWorker w (.inside branch .asserted f)
  have hereAfter : t.worker w = .inside branch .asserted f := by
    rw [worker_setWorker, Function.update_self]
  have thereAfter : t.worker v = .inside other stage f := by
    rw [worker_setWorker, Function.update_of_ne apart, there]
  refine Library.Doomed.of_step (.assertNotExec w) (t := t) ?_
    (of_asserted apart hereAfter thereAfter (place.resolve_left running))
  simp only [step, here, if_neg running, t]

end Doomed

/-- What a step that calls `swapIn` does. -/
theorem entered_step {s t : State F W} {action : Action F W} {w : W} {f : F}
    (enters : s.entered action = some (w, f)) (taken : s.step action = some t) :
    (∀ branch stage g, s.worker w ≠ .inside branch stage g) ∧
      (∃ branch, t.worker = Function.update s.worker w (.inside branch .entering f)) ∧
      (t.fiberState f = s.fiberState f ∨ s.resettable f = true) := by
  cases action with
  | examine u =>
      simp only [State.entered] at enters
      simp only [State.step] at taken
      split at enters
      · rename_i g picked
        split at enters
        · cases enters
        · rename_i alive
          cases enters
          simp only [picked, if_neg alive] at taken
          cases taken
          exact ⟨by simp [picked], ⟨.fiber, rfl⟩, Or.inl rfl⟩
      · cases enters
  | callback u g =>
      cases enters
      simp only [State.step] at taken
      split at taken
      · rename_i picked
        have outside : ∀ branch stage g, s.worker w ≠ .inside branch stage g := by
          simp [picked]
        split at taken
        · split at taken
          · rename_i reset
            cases taken
            exact ⟨outside, ⟨.callback, rfl⟩, Or.inr reset.2⟩
          · cases taken
        · split at taken
          · cases taken
          · cases taken
            exact ⟨outside, ⟨.callback, rfl⟩, Or.inl rfl⟩
      · cases taken
  | goIdle u =>
      simp only [State.entered] at enters
      simp only [State.step] at taken
      split at enters
      · cases enters
      · rename_i alive
        cases enters
        split at taken
        · rename_i idle
          cases taken
          exact ⟨by simp [idle.1], ⟨.idle, rfl⟩, Or.inl rfl⟩
        · cases taken
  | create | schedule | dequeue | assertNotExec | mark | switch | yield | save | update =>
      cases enters

/-- A step that disturbs another thread can be continued to a violation. -/
theorem unguarded_breaks {s t : State F W} (orderly : s.Orderly) {action : Action F W}
    (disturbs : ¬s.Undisturbed action) (taken : s.step action = some t) : t.Doomed := by
  simp only [Undisturbed, not_forall, not_not] at disturbs
  obtain ⟨w, f, enters, v, other, stage, there⟩ := disturbs
  obtain ⟨outside, ⟨branch, moved⟩, state⟩ := entered_step enters taken
  have apart : v ≠ w := fun same => outside other stage f (same ▸ there)
  have here : t.worker w = .inside branch .entering f := by rw [moved, Function.update_self]
  have thereAfter : t.worker v = .inside other stage f := by
    rw [moved, Function.update_of_ne apart, there]
  have consistent := (orderly.here there).2
  -- a fiber that runs is not reset, so the state is still `EXEC`
  have running : s.fiberState f = .exec → t.fiberState f = .exec := by
    intro executing
    rcases state with same | reset
    · rw [same, executing]
    · simp [resettable, executing] at reset
  refine Doomed.of_entering apart here thereAfter ?_
  cases stage with
  | entering => exact Or.inr (Or.inl rfl)
  | asserted => exact Or.inr (Or.inr (Or.inl rfl))
  | marked => exact Or.inl (running consistent.1)
  | running => exact Or.inl (running consistent.1)
  | torn => exact consistent.elim
  | leaving => exact Or.inr (Or.inr (Or.inr (Or.inl rfl)))
  | returned => exact Or.inr (Or.inr (Or.inr (Or.inr rfl)))

theorem orderly_of_guarded {idleFiber : W ↪ F} {isIdle : F → Bool} {actions : List (Action F W)}
    (undisturbed : Guarded step Undisturbed (initial idleFiber isIdle) actions) :
    Along step Orderly (initial idleFiber isIdle) actions :=
  along_of_guarded (fun orderly now taken => Orderly.step orderly now taken)
    (orderly_initial idleFiber isIdle) undisturbed

/-- Every state of a run in which no thread disturbs another one is exclusive,
and the first step that disturbs one can be continued to a violation. -/
theorem exclusive_execution (idleFiber : W ↪ F) (isIdle : F → Bool)
    (actions : List (Action F W))
    (undisturbed : Guarded step Undisturbed (initial idleFiber isIdle) actions) :
    Along step Exclusive (initial idleFiber isIdle) actions ∧
      ∀ s action t, exec step (initial idleFiber isIdle) actions = some s →
        ¬s.Undisturbed action → s.step action = some t →
          ∃ more, ¬Along step Exclusive t more := by
  have along := orderly_of_guarded undisturbed
  refine ⟨along.mono fun _ => Orderly.exclusive, fun s action t reached disturbs taken => ?_⟩
  exact unguarded_breaks (along.exec reached) disturbs taken

/-- A fiber that is run, yields and is run by another worker. -/
theorem exclusive_execution_twoWorkers :
    Along (step (F := Fin 3) (W := Fin 2)) Exclusive
      (initial (Fin.succEmb 2) fun f => f != 0)
      [.create 0, .schedule ⟨.fiber 0, none⟩, .dequeue 0, .examine 0, .assertNotExec 0, .mark 0,
        .switch 0, .yield 0 .toHold, .save 0, .update 0, .schedule ⟨.fiber 0, none⟩, .dequeue 1,
        .examine 1, .assertNotExec 1, .mark 1, .switch 1] :=
  (exclusive_execution _ _ _ (by decide)).1

/-- While a fiber runs, having registered an event, another thread schedules it.
It sets `HOLD`, and before it has saved its context the second worker takes it
from the queue and loads that context. -/
theorem exclusive_execution_violated :
    ¬Along (step (F := Fin 3) (W := Fin 2)) Exclusive
      (initial (Fin.succEmb 2) fun f => f != 0)
      [.create 0, .schedule ⟨.fiber 0, none⟩, .dequeue 0, .examine 0, .assertNotExec 0, .mark 0,
        .switch 0, .schedule ⟨.fiber 0, none⟩, .yield 0 .toHold, .dequeue 1, .examine 1,
        .assertNotExec 1, .mark 1, .switch 1] := by
  intro along
  have exclusive := along.exec rfl
  exact absurd (exclusive.alone (w := 0) (v := 1) (f := 0)
    ⟨.fiber, .leaving, rfl, Or.inr (Or.inr rfl)⟩ ⟨.fiber, .torn, rfl, Or.inr (Or.inl rfl)⟩)
    (by decide)

end State

end Sylar.Scheduler
