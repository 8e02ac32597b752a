import Mathlib.Logic.Function.Basic
import Sylar.FdManager.Model
import Sylar.Library.Transition

/-!
# Contexts shared by threads

`get` looks a descriptor up under the read lock and creates its context under the write lock,
and other threads take their steps in between. The second section does not look again, so
that two threads that both found nothing make two contexts.
-/

namespace Sylar

namespace FdManager

open Library

section Model

/-- One entry of the history of all threads. -/
inductive Mark where
  /-- `get` of a descriptor returns. -/
  | returned (fd : Nat) (address : Option Nat)
  /-- `del` of a descriptor returns. -/
  | deleted (fd : Nat)
deriving DecidableEq, Repr

/-- The manager, and what each thread found to be created. -/
structure Shared (W : Type) where
  manager : FdManager
  creating : W → Option Nat
  history : List Mark

/-- A section of a thread under the lock. -/
inductive Action (W : Type) where
  /-- `get`, under the read lock. -/
  | lookup (thread : W) (fd : Nat) (autoCreate : Bool)
  /-- `get`, under the write lock, with the context that is made there. -/
  | create (thread : W) (ctx : FdCtx)
  | del (thread : W) (fd : Nat)

/-- `m_datas[fd]`, null outside of the table. -/
def entry (manager : FdManager) (fd : Nat) : Option Nat := manager.datas[fd]?.join

variable {W : Type} [DecidableEq W]

/-- The sections of `get` and `del`. -/
def step (s : Shared W) : Action W → Option (Shared W)
  | .lookup thread fd autoCreate =>
      if s.creating thread = none then
        match s.manager.lookup fd autoCreate with
        | some address => some { s with history := s.history ++ [.returned fd address] }
        | none => some { s with creating := Function.update s.creating thread (some fd) }
      else none
  | .create thread ctx =>
      (s.creating thread).map fun fd =>
        { manager := s.manager.create fd ctx
          creating := Function.update s.creating thread none
          history := s.history ++ [.returned fd (some s.manager.contexts.length)] }
  | .del thread fd =>
      if s.creating thread = none then
        some { s with manager := s.manager.del fd, history := s.history ++ [.deleted fd] }
      else none

/-- Before any call. -/
def initial : Shared W where
  manager := .new
  creating _ := none
  history := []

end Model

section Claims

/-- The context at `address` was returned for `fd`, which has not been deleted since. -/
def Since (history : List Mark) (fd address : Nat) : Prop :=
  ∃ before after, history = before ++ .returned fd (some address) :: after ∧ .deleted fd ∉ after

variable {W : Type}

/-- All results for a descriptor since it was deleted are one context. -/
def OneContext (s : Shared W) : Prop :=
  ∀ fd first second, Since s.history fd first → Since s.history fd second → first = second

/-- The table of the second state is not smaller. -/
def NotShrunk (s later : Shared W) : Prop :=
  s.manager.datas.length ≤ later.manager.datas.length

/-- A thread that creates a context finds that there is still none. -/
def CreatesOnce (s : Shared W) : Action W → Prop
  | .create thread _ => ∀ fd ∈ s.creating thread, s.manager.entry fd = none
  | _ => True

end Claims

variable {W : Type} [DecidableEq W] {manager : FdManager} {fd address : Nat} {ctx : FdCtx}
  {history : List Mark} {mark : Mark} {s next : Shared W} {action : Action W}

/-! ### The table -/

/-- `resize`. -/
def resize (datas : List (Option Nat)) (size : Nat) : List (Option Nat) :=
  datas.take size ++ List.replicate (size - datas.length) none

/-- The table is resized to one and a half times the descriptor. -/
theorem create_datas (fd : Nat) (ctx : FdCtx) :
    (manager.create fd ctx).datas =
      (if manager.datas.length ≤ fd then resize manager.datas (fd * 3 / 2)
        else manager.datas).set fd (some manager.contexts.length) := by
  unfold create resize
  split
  · rw [List.take_of_length_le (by omega)]
  · rfl

theorem length_create (fd : Nat) (ctx : FdCtx) :
    manager.datas.length ≤ (manager.create fd ctx).datas.length ∧
      (64 ≤ manager.datas.length → fd < (manager.create fd ctx).datas.length) := by
  rw [create_datas, List.length_set, resize]
  split
  · rw [List.length_append, List.length_take, List.length_replicate]
    omega
  · omega

theorem length_del (fd : Nat) : (manager.del fd).datas.length = manager.datas.length := by
  unfold del
  split
  · rfl
  · exact List.length_set

theorem entry_of_le (outside : manager.datas.length ≤ fd) : manager.entry fd = none := by
  rw [entry, List.getElem?_eq_none outside]
  rfl

/-- The lookup returns what is in the table. -/
theorem lookup_eq_some {autoCreate : Bool} {result : Option Nat}
    (found : manager.lookup fd autoCreate = some result) : result = manager.entry fd := by
  unfold lookup at found
  unfold entry
  split at found
  · rename_i outside
    rw [outside]
    split at found <;> cases found
    rfl
  · rename_i data inside
    rw [inside]
    split at found <;> cases found
    rfl

/-- A table that grows has nothing in its new part. -/
theorem getElem?_resize {datas : List (Option Nat)} {size : Nat} (grows : datas.length ≤ size)
    (i : Nat) : (resize datas size)[i]?.join = datas[i]?.join := by
  unfold resize
  rw [List.take_of_length_le grows, List.getElem?_append]
  split
  · rfl
  · rename_i behind
    rw [List.getElem?_replicate, List.getElem?_eq_none (Nat.not_lt.1 behind)]
    split <;> rfl

theorem entry_create (big : 64 ≤ manager.datas.length) (fd other : Nat) (ctx : FdCtx) :
    (manager.create fd ctx).entry other =
      if other = fd then some manager.contexts.length else manager.entry other := by
  have inside := (length_create fd ctx).2 big
  rw [create_datas, List.length_set] at inside
  unfold entry
  rw [create_datas]
  by_cases same : other = fd
  · rw [if_pos same, same, List.getElem?_set_self inside]
    rfl
  · rw [if_neg same, List.getElem?_set_ne (Ne.symm same)]
    split
    · exact getElem?_resize (by omega) other
    · rfl

theorem entry_del (fd other : Nat) :
    (manager.del fd).entry other = if other = fd then none else manager.entry other := by
  unfold del
  split
  · rename_i outside
    split
    · rename_i same
      rw [same, entry_of_le outside]
    · rfl
  · rename_i inside
    unfold entry
    split
    · rename_i same
      rw [same, List.getElem?_set_self (Nat.not_le.1 inside)]
      rfl
    · rename_i apart
      rw [List.getElem?_set_ne (Ne.symm apart)]

/-! ### The history -/

/-- What one more mark does to the results since a deletion. -/
theorem since_append :
    Since (history ++ [mark]) fd address ↔
      mark = .returned fd (some address) ∨ Since history fd address ∧ mark ≠ .deleted fd := by
  constructor
  · rintro ⟨before, after, split, kept⟩
    rcases List.eq_nil_or_concat' after with rfl | ⟨later, last, rfl⟩
    · exact .inl (List.cons.inj (List.append_inj' split rfl).2).1
    · rw [← List.cons_append, ← List.append_assoc] at split
      obtain ⟨earlier, same⟩ := List.append_inj' split rfl
      rw [List.mem_append, not_or, ← same, List.mem_singleton] at kept
      exact .inr ⟨⟨before, later, earlier, kept.1⟩, Ne.symm kept.2⟩
  · rintro (rfl | ⟨⟨before, after, rfl, kept⟩, other⟩)
    · exact ⟨history, [], rfl, List.not_mem_nil⟩
    · refine ⟨before, after ++ [mark], by simp, ?_⟩
      rw [List.mem_append, List.mem_singleton]
      rintro (old | new)
      · exact kept old
      · exact other new.symm

/-! ### The runs -/

/-- What holds while no context is made twice: the table has what was returned. -/
structure Consistent (s : Shared W) : Prop where
  big : 64 ≤ s.manager.datas.length
  known : ∀ fd address, s.manager.entry fd = some address → address < s.manager.contexts.length
  current : ∀ fd address, s.manager.entry fd = some address ↔ Since s.history fd address

theorem entry_new (fd : Nat) : new.entry fd = none := by
  rw [entry, new, List.getElem?_replicate]
  split <;> rfl

omit [DecidableEq W] in
theorem consistent_initial : Consistent (initial : Shared W) where
  big := by rw [initial, new, List.length_replicate]
  known fd address held := by
    rw [initial, entry_new] at held
    cases held
  current fd address := by
    rw [initial, entry_new]
    constructor
    · exact fun held => nomatch held
    · rintro ⟨before, after, split, -⟩
      exact absurd split.symm (List.append_ne_nil_of_right_ne_nil _ (List.cons_ne_nil _ _))

omit [DecidableEq W] in
theorem Consistent.oneContext (consistent : Consistent s) : OneContext s := by
  intro fd first second returnedFirst returnedSecond
  rw [← consistent.current] at returnedFirst returnedSecond
  exact Option.some.inj (returnedFirst.symm.trans returnedSecond)

theorem Consistent.step (consistent : Consistent s) (once : CreatesOnce s action)
    (taken : step s action = some next) : Consistent next := by
  obtain ⟨big, known, current⟩ := consistent
  cases action with
  | lookup thread fd autoCreate =>
      rw [FdManager.step] at taken
      split at taken
      · split at taken
        · rename_i result found
          cases taken
          refine ⟨big, known, fun other address => ?_⟩
          rw [since_append, ← current, lookup_eq_some found]
          constructor
          · exact fun held => .inr ⟨held, Mark.noConfusion⟩
          · rintro (returned | held)
            · obtain ⟨rfl, same⟩ := Mark.returned.inj returned
              exact same
            · exact held.1
        · cases taken
          exact ⟨big, known, current⟩
      · cases taken
  | create thread ctx =>
      obtain ⟨fd, creates, rfl⟩ := Option.map_eq_some_iff.1 taken
      have empty := once fd creates
      refine ⟨big.trans (length_create fd _).1, fun other address held => ?_,
        fun other address => ?_⟩
      · rw [entry_create big] at held
        have more : (s.manager.create fd ctx).contexts.length = s.manager.contexts.length + 1 :=
          List.length_append
        rw [more]
        split at held
        · cases held
          exact Nat.lt_succ_self _
        · exact Nat.lt_succ_of_lt (known other address held)
      · rw [entry_create big, since_append, ← current]
        by_cases same : other = fd
        · rw [if_pos same, same, empty]
          simp [eq_comm]
        · rw [if_neg same]
          simp [Ne.symm same]
  | del thread fd =>
      rw [FdManager.step] at taken
      split at taken
      · cases taken
        refine ⟨(length_del fd).symm ▸ big, fun other address held => ?_,
          fun other address => ?_⟩
        · rw [entry_del] at held
          split at held
          · cases held
          · have contexts : (s.manager.del fd).contexts = s.manager.contexts := by
              unfold del
              split <;> rfl
            rw [contexts]
            exact known other address held
        · rw [entry_del, since_append, ← current]
          by_cases same : other = fd
          · rw [if_pos same, same]
            simp
          · rw [if_neg same]
            simp [Ne.symm same]
      · cases taken

/-- A context that is made beside another one is another result. -/
theorem Consistent.broken (consistent : Consistent s) (twice : ¬ CreatesOnce s action) :
    ∃ next, FdManager.step s action = some next ∧ ¬ OneContext next := by
  cases action with
  | lookup | del => exact absurd trivial twice
  | create thread ctx =>
      unfold CreatesOnce at twice
      push Not at twice
      obtain ⟨fd, creates, held⟩ := twice
      obtain ⟨address, held⟩ := Option.ne_none_iff_exists'.1 held
      refine ⟨_, Option.map_eq_some_iff.2 ⟨fd, creates, rfl⟩, fun one => ?_⟩
      have old : Since (s.history ++ [.returned fd (some s.manager.contexts.length)]) fd address :=
        since_append.2 (.inr ⟨(consistent.current fd address).1 held, Mark.noConfusion⟩)
      have same := one fd address _ old (since_append.2 (.inl rfl))
      exact absurd (consistent.known fd address held) (same ▸ Nat.lt_irrefl _)

theorem notShrunk_step (taken : FdManager.step s action = some next) : NotShrunk s next := by
  unfold NotShrunk
  cases action with
  | lookup thread fd autoCreate =>
      rw [FdManager.step] at taken
      split at taken
      · split at taken <;> cases taken <;> exact Nat.le_refl _
      · cases taken
  | create thread ctx =>
      obtain ⟨fd, -, rfl⟩ := Option.map_eq_some_iff.1 taken
      exact (length_create fd _).1
  | del thread fd =>
      rw [FdManager.step] at taken
      split at taken
      · cases taken
        exact (length_del fd).ge
      · cases taken

/-- There is one context for a descriptor, and the table does not shrink, in the runs in which
no thread creates a context beside another. -/
theorem oneContext_iff (actions : List (Action W)) :
    (Along FdManager.step OneContext (initial : Shared W) actions ∧
        Ascending FdManager.step NotShrunk (initial : Shared W) actions) ↔
      Guarded FdManager.step CreatesOnce (initial : Shared W) actions := by
  have refl (s : Shared W) : NotShrunk s s := Nat.le_refl _
  have trans {first second third : Shared W} (before : NotShrunk first second)
      (after : NotShrunk second third) : NotShrunk first third := Nat.le_trans before after
  have ascending : Ascending FdManager.step NotShrunk (initial : Shared W) actions :=
    ascending_of_guarded refl trans (fun _ => notShrunk_step) (guarded_true actions)
  rw [and_iff_left ascending]
  exact along_iff_guarded (fun _ => Consistent.oneContext) Consistent.step Consistent.broken
    consistent_initial

/-- Two threads look for 5 before one of them creates its context. -/
def bothLook (ctx : FdCtx) : List (Action Bool) :=
  [.lookup false 5 true, .lookup true 5 true, .create false ctx, .create true ctx]

theorem not_oneContext_bothLook :
    ¬ Along FdManager.step OneContext initial
      (bothLook ⟨true, true, true, false, false, 0, 0⟩) := by
  intro along
  obtain ⟨final, ran, history⟩ : ∃ final, exec FdManager.step initial
      (bothLook ⟨true, true, true, false, false, 0, 0⟩) = some final ∧
        final.history = [.returned 5 (some 0), .returned 5 (some 1)] := ⟨_, rfl, rfl⟩
  have same := along.exec ran 5 0 1 ⟨[], [.returned 5 (some 1)], history, by simp⟩
    ⟨[.returned 5 (some 0)], [], history, by simp⟩
  cases same

end FdManager

end Sylar
