import Mathlib.Data.List.Chain
import Mathlib.Logic.Function.Basic
import Mathlib.Tactic.Common
import Sylar.Library.Transition

/-!
# Configuration variables and their listeners

`ConfigVar::setValue` of `config.h`. It compares and notifies under the read lock, and
assigns under the write lock after that. The listeners agree with the value in exactly
those runs in which no other call changes the value in between.
-/

namespace Sylar.Config

open Library

/-- A callback that was added, and the values `old_value` and `new_value` of its calls. -/
structure Listener (V : Type) where
  key : UInt64
  received : List (V × V)
deriving DecidableEq, Repr

namespace Listener

variable {V : Type}

/-- `i.second(m_val, v)`. -/
def notify (listener : Listener V) (val v : V) : Listener V :=
  { listener with received := listener.received ++ [(val, v)] }

/-- Every old value is the new value of the call before. -/
def Chained (listener : Listener V) : Prop :=
  listener.received.IsChain fun earlier later => later.1 = earlier.2

/-- The last new value, or the default when there was no call. -/
def latest (listener : Listener V) (default_value : V) : V :=
  (listener.received.getLast?.map Prod.snd).getD default_value

variable {listener : Listener V} {val v : V}

@[simp] theorem latest_notify (default_value : V) :
    (listener.notify val v).latest default_value = v := by
  simp [latest, notify]

/-- A chain goes on with a call for the value it has reached. -/
theorem chained_notify {default_value : V} (chained : listener.Chained)
    (reached : listener.latest default_value = val) : (listener.notify val v).Chained := by
  refine List.isChain_append.mpr ⟨chained, List.isChain_singleton _, ?_⟩
  rintro earlier last later ⟨⟩
  rw [← reached, latest, Option.mem_def.mp last]
  rfl

/-- The value before a call that goes on with the chain. -/
theorem latest_of_chained_notify (default_value : V) {last : V} (chained : (listener.notify val v).Chained)
    (called : listener.received.getLast?.map Prod.snd = some last) :
    val = listener.latest default_value := by
  obtain ⟨earlier, found, _⟩ := Option.map_eq_some_iff.mp called
  have follows := (List.isChain_append.mp chained).2.2 earlier found (val, v) rfl
  rw [latest, found]
  exact follows

end Listener

/-- A variable, with the threads that are between the two parts of `setValue`, and the values
they set. -/
structure ConfigVar (V T : Type) where
  val : V
  cbs : List (Listener V)
  setting : T → Option V

/-- The sections of `setValue`. -/
inductive Action (V T : Type) where
  /-- The section under the read lock. -/
  | compare (t : T) (v : V)
  /-- The section under the write lock. -/
  | assign (t : T)
deriving DecidableEq, Repr

namespace ConfigVar

variable {V T : Type} [DecidableEq V] [DecidableEq T]

/-- The constructor, and `addListener` for each of the keys. -/
def new (default_value : V) (keys : List UInt64) : ConfigVar V T :=
  ⟨default_value, keys.map fun key => ⟨key, []⟩, fun _ => none⟩

/-- The two sections of `setValue`, and the calls that change the listeners. -/
def step (s : ConfigVar V T) : Action V T → Option (ConfigVar V T)
  | .compare t v =>
      if (s.setting t).isSome then none
      else if v = s.val then some s
      else
        some { s with
          cbs := s.cbs.map (·.notify s.val v)
          setting := Function.update s.setting t (some v) }
  | .assign t =>
      (s.setting t).map fun v =>
        { s with val := v, setting := Function.update s.setting t none }

/-- The listeners were called for a chain of values, and when all calls have returned, the last
value they got is the value of the variable. -/
structure Agree (default_value : V) (s : ConfigVar V T) : Prop where
  chained : ∀ listener ∈ s.cbs, listener.Chained
  latest : (∀ t, s.setting t = none) → ∀ listener ∈ s.cbs,
    listener.latest default_value = s.val

/-- A call that changes the value does not compare while another one has yet to assign. -/
def Alone (s : ConfigVar V T) : Action V T → Prop
  | .compare t v => s.setting t = none → v ≠ s.val → ∀ u, s.setting u = none
  | .assign _ => True

/-- At most one call has notified the listeners and not assigned yet. -/
structure Orderly (default_value : V) (s : ConfigVar V T) : Prop extends
    Agree default_value s where
  changes : ∀ t v, s.setting t = some v → v ≠ s.val
  told : ∀ t v, s.setting t = some v → ∀ listener ∈ s.cbs,
    listener.received.getLast?.map Prod.snd = some v
  alone : ∀ t v u, s.setting t = some v → u ≠ t → s.setting u = none

variable {default_value : V} {s next : ConfigVar V T} {action : Action V T}

omit [DecidableEq V] [DecidableEq T] in
theorem orderly_new (default_value : V) (keys : List UInt64) :
    (new default_value keys : ConfigVar V T).Orderly default_value := by
  have silent : ∀ listener ∈ (new default_value keys : ConfigVar V T).cbs,
      listener.received = [] := by
    intro listener member
    obtain ⟨key, _, rfl⟩ := List.mem_map.mp member
    rfl
  constructor
  · constructor
    · intro listener member
      rw [Listener.Chained, silent listener member]
      exact List.isChain_nil
    · intro _ listener member
      rw [Listener.latest, silent listener member]
      rfl
  · exact nofun
  · exact nofun
  · exact nofun

omit [DecidableEq V] in
theorem Orderly.compare {t : T} {v : V} (orderly : s.Orderly default_value)
    (change : v ≠ s.val) (others : ∀ u, s.setting u = none) :
    ({ s with
      cbs := s.cbs.map (·.notify s.val v)
      setting := Function.update s.setting t (some v) } : ConfigVar V T).Orderly default_value := by
  have setting : ∀ u w, Function.update s.setting t (some v) u = some w → u = t ∧ w = v := by
    intro u w sets
    by_cases same : u = t
    · subst same
      rw [Function.update_self] at sets
      exact ⟨rfl, (Option.some.inj sets).symm⟩
    · rw [Function.update_of_ne same, others u] at sets
      cases sets
  constructor
  · constructor
    · intro listener member
      obtain ⟨before, told, rfl⟩ := List.mem_map.mp member
      exact Listener.chained_notify (orderly.chained before told) (orderly.latest others before told)
    · intro quiet
      have sets := quiet t
      simp at sets
  · intro u w sets
    rw [(setting u w sets).2]
    exact change
  · intro u w sets listener member
    obtain ⟨before, told, rfl⟩ := List.mem_map.mp member
    rw [(setting u w sets).2]
    simp [Listener.notify]
  · intro u w other sets apart
    obtain ⟨rfl, _⟩ := setting u w sets
    change Function.update s.setting u (some v) other = none
    rw [Function.update_of_ne apart, others other]

omit [DecidableEq V] in
theorem Orderly.assign {t : T} {v : V} (orderly : s.Orderly default_value)
    (sets : s.setting t = some v) :
    ({ s with val := v, setting := Function.update s.setting t none } : ConfigVar V T).Orderly
      default_value := by
  have quiet : ∀ u, Function.update s.setting t none u = none := by
    intro u
    by_cases same : u = t
    · rw [same, Function.update_self]
    · rw [Function.update_of_ne same, orderly.alone t v u sets same]
  have none_ : ∀ {u w}, Function.update s.setting t none u ≠ some w := by
    intro u w some_
    rw [quiet u] at some_
    cases some_
  constructor
  · refine ⟨orderly.chained, fun _ listener member => ?_⟩
    rw [Listener.latest, orderly.told t v sets listener member]
    rfl
  · exact fun u w some_ => absurd some_ none_
  · exact fun u w some_ => absurd some_ none_
  · exact fun u w other some_ => absurd some_ none_

theorem Orderly.step (orderly : s.Orderly default_value) (alone : s.Alone action)
    (taken : s.step action = some next) : next.Orderly default_value := by
  cases action with
  | compare t v =>
      simp only [ConfigVar.step] at taken
      split at taken
      · cases taken
      · rename_i free
        split at taken
        · cases taken
          exact orderly
        · rename_i change
          cases taken
          exact orderly.compare change (alone (Option.not_isSome_iff_eq_none.mp free) change)
  | assign t =>
      obtain ⟨v, sets, rfl⟩ := Option.map_eq_some_iff.mp taken
      exact orderly.assign sets

/-- A call that notifies while another one has yet to assign breaks the chain. -/
theorem broken (orderly : s.Orderly default_value) (some_ : s.cbs ≠ [])
    (disturbs : ¬s.Alone action) :
    ∃ next, s.step action = some next ∧ ¬next.Agree default_value := by
  cases action with
  | assign t => exact absurd trivial disturbs
  | compare t v =>
      simp only [Alone, Classical.not_imp, not_forall] at disturbs
      obtain ⟨free, change, u, busy⟩ := disturbs
      obtain ⟨w, sets⟩ := Option.ne_none_iff_exists'.mp busy
      obtain ⟨listener, member⟩ := List.exists_mem_of_ne_nil _ some_
      have told := orderly.told u w sets listener member
      refine ⟨_, by rw [step, if_neg (by simp [free]), if_neg change], fun agree => ?_⟩
      have chained := agree.chained _ (List.mem_map_of_mem member)
      have follows := Listener.latest_of_chained_notify default_value chained told
      rw [Listener.latest, told] at follows
      exact orderly.changes u w sets follows.symm

theorem step_cbs (taken : s.step action = some next) : next.cbs = [] ↔ s.cbs = [] := by
  cases action with
  | compare t v =>
      simp only [step] at taken
      split at taken
      · cases taken
      · split at taken <;> cases taken
        · exact Iff.rfl
        · exact List.map_eq_nil_iff
  | assign t =>
      obtain ⟨v, _, rfl⟩ := Option.map_eq_some_iff.mp taken
      exact Iff.rfl

/-- The listeners agree with the value throughout a run of any number of threads, if and only if
there are none, or no call that changes the value compares while another one has notified the
listeners and not assigned yet. -/
theorem listeners_agree (default_value : V) (keys : List UInt64) (actions : List (Action V T)) :
    Along step (Agree default_value) (new default_value keys) actions ↔
      keys = [] ∨ Guarded step Alone (new default_value keys) actions := by
  by_cases none_ : keys = []
  · subst none_
    refine iff_of_true ?_ (.inl rfl)
    have empty : Along step (fun s : ConfigVar V T => s.cbs = []) (new default_value []) actions :=
      along_of_preserved (fun nobody taken => (step_cbs taken).mpr nobody) rfl actions
    refine empty.mono fun s nobody => ?_
    constructor <;> simp [nobody]
  · rw [or_iff_right none_]
    have some_ : (new default_value keys : ConfigVar V T).cbs ≠ [] := by
      simpa [new] using none_
    have agrees : ∀ s : ConfigVar V T, s.cbs ≠ [] ∧ s.Orderly default_value → s.Agree default_value :=
      fun _ holds => holds.2.toAgree
    refine along_iff_guarded agrees (fun holds alone taken => ?_)
      (fun holds disturbs => broken holds.2 holds.1 disturbs) ⟨some_, orderly_new default_value keys⟩
    exact ⟨fun nobody => holds.1 ((step_cbs taken).mp nobody), holds.2.step alone taken⟩

/-- Both calls compare with 0. The listener is told 1 and then 2, and the variable ends with 1. -/
theorem listeners_disagree :
    ¬Along (step (V := Nat) (T := Bool)) (Agree 0) (new 0 [1])
      [.compare true 1, .compare false 2, .assign false, .assign true] := by
  intro along
  have agree := along.exec rfl
  have last := agree.latest (by decide) ⟨1, [(0, 1), (0, 2)]⟩ (by decide)
  exact absurd last (by decide)

end ConfigVar

end Sylar.Config
