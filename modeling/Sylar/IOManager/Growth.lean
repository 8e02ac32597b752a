import Sylar.IOManager.Bookkeeping
import Mathlib.Data.List.Infix

/-!
# Growth of the table of contexts

`addEvent` finds the table too small under the read lock and resizes it under
the write lock, to a size that depends on its own descriptor alone. Between the
two another thread can have made the table larger than that. The contexts stay
in place in exactly those runs in which this never happens.
-/

namespace Sylar.IOManager.State

open Library

variable {T : Type}

/-- The table keeps its entries: every descriptor has the object it had, and the
table is no shorter. -/
def Keeps (earlier later : State T) : Prop := earlier.fdContexts <+: later.fdContexts

/-- `m_fdContexts[fd]` is in range where a step uses it. -/
def InRange (s : State T) : Action T → Prop
  | .lookup _ fd _ =>
      (BitVec.ofNat 32 s.fdContexts.length).toInt > fd → fd < s.fdContexts.length
  | .grow t =>
      ∀ fd call grown, s.thread t = .growing fd call → s.contextResize (fd * 3 / 2) = some grown →
        fd < grown.fdContexts.length
  | .report _ _ _ | .locked _ _ => True

/-- A thread that resizes the table has not been overtaken by one that made it
longer than the size it asks for. -/
def Grows (s : State T) : Action T → Prop
  | .grow t => ∀ fd call, s.thread t = .growing fd call → s.fdContexts.length ≤ fd * 3 / 2
  | .lookup _ _ _ | .report _ _ _ | .locked _ _ => True

/-- The size of the table after the constructor is never undercut. -/
def Roomy (s : State T) : Prop := 32 ≤ s.fdContexts.length

variable {s next grown : State T} {action : Action T} {fd size : Nat} {t : T}

theorem Keeps.refl (s : State T) : Keeps s s := List.prefix_refl _

theorem Keeps.trans {first second third : State T} (left : Keeps first second)
    (right : Keeps second third) : Keeps first third := List.IsPrefix.trans left right

theorem Keeps.roomy (keeps : Keeps s next) (roomy : s.Roomy) : next.Roomy :=
  roomy.trans keeps.length_le

/-- A size compared as an `int` is at most the size itself. -/
theorem lt_of_int_lt {length fd : Nat} (below : (BitVec.ofNat 32 length).toInt > fd) :
    fd < length := by
  have signed : (BitVec.ofNat 32 length).toInt ≤ (BitVec.ofNat 32 length).toNat := by
    rw [BitVec.toInt_eq_toNat_cond]
    split <;> omega
  have unsigned : (BitVec.ofNat 32 length).toNat ≤ length := by
    rw [BitVec.toNat_ofNat]
    exact Nat.mod_le _ _
  omega

theorem contextResize_fdContexts (resized : s.contextResize size = some grown) :
    grown.fdContexts = s.fdContexts.take size ++
      List.range' s.heap.objects.length (size - s.fdContexts.length) := by
  simp only [contextResize, Option.map_eq_some_iff] at resized
  obtain ⟨heap, _, rfl⟩ := resized
  rfl

theorem contextResize_length (resized : s.contextResize size = some grown) :
    grown.fdContexts.length = size := by
  rw [contextResize_fdContexts resized, List.length_append, List.length_take, List.length_range']
  omega

/-- To a size that is not below the present one the table only grows. -/
theorem contextResize_keeps (resized : s.contextResize size = some grown)
    (larger : s.fdContexts.length ≤ size) : Keeps s grown := by
  rw [Keeps, contextResize_fdContexts resized, List.take_of_length_le larger]
  exact List.prefix_append _ _

/-- A table can always be made shorter. -/
theorem contextResize_of_lt (smaller : size < s.fdContexts.length) :
    ∃ grown, s.contextResize size = some grown := by
  have nothing : size - s.fdContexts.length = 0 := by omega
  have enough : 2 * (s.heap.objects.length + 0) < 2 ^ 64 := s.heap.addressable
  simp only [contextResize, nothing, Heap.allocate, enough, dif_pos, Option.map_some]
  exact ⟨_, rfl⟩

/-- With at least 32 entries a table that is not longer than `fd * 1.5` has room
for `fd` at that size. -/
theorem Grows.inRange (grows : s.Grows action) (roomy : s.Roomy) : s.InRange action := by
  cases action with
  | lookup t fd call => exact lt_of_int_lt
  | grow t =>
      intro fd call grown growing resized
      have overtaken := grows fd call growing
      rw [contextResize_length resized]
      rw [Roomy] at roomy
      omega
  | report t pointer reported => trivial
  | locked t success => trivial

section

variable [DecidableEq T]

/-- What a resizing thread does when its index is in range. -/
theorem step_grow {call : Call} (growing : s.thread t = .growing fd call)
    (resized : s.contextResize (fd * 3 / 2) = some grown) (inRange : fd < grown.fdContexts.length) :
    ∃ next, s.step (.grow t) = some next ∧ next.fdContexts = grown.fdContexts := by
  have found : grown.fdContexts[fd]? = some grown.fdContexts[fd] := List.getElem?_eq_getElem inRange
  refine ⟨grown.setThread t (.located grown.fdContexts[fd] call), ?_, rfl⟩
  simp only [step, growing, resized, found]

/-- Only a resizing thread changes the table. -/
theorem step_fdContexts (taken : s.step action = some next) :
    next.fdContexts = s.fdContexts ∨
      ∃ t fd call grown, action = .grow t ∧ s.thread t = .growing fd call ∧
        s.contextResize (fd * 3 / 2) = some grown ∧ next.fdContexts = grown.fdContexts := by
  cases action with
  | lookup t fd call =>
      simp only [step] at taken
      split at taken
      · split at taken
        · cases taken
          exact .inl rfl
        · split at taken
          · cases taken
            exact .inl rfl
          · cases taken
            exact .inl rfl
      · cases taken
  | grow t =>
      simp only [step] at taken
      split at taken
      · rename_i fd call growing
        split at taken
        · cases taken
        · rename_i grown resized
          split at taken
          · cases taken
            exact .inr ⟨t, fd, call, grown, rfl, growing, resized, rfl⟩
          · cases taken
      · cases taken
  | report t pointer reported =>
      simp only [step] at taken
      split at taken
      · cases taken
        exact .inl rfl
      · cases taken
  | locked t success =>
      simp only [step] at taken
      split at taken
      · split at taken
        · cases taken
        · split at taken
          · cases taken
          · cases taken
            exact .inl rfl
      · cases taken

/-- A step of a thread that was not overtaken keeps the entries. -/
theorem Grows.keeps (grows : s.Grows action) (taken : s.step action = some next) :
    Keeps s next := by
  rcases step_fdContexts taken with same | ⟨t, fd, call, grown, rfl, growing, resized, same⟩
  · rw [Keeps, same]
  · rw [Keeps, same]
    exact contextResize_keeps resized (grows fd call growing)

/-- An overtaken thread makes the table shorter, or finds its index out of range. -/
theorem grows_of_keeps (inRange : s.InRange action)
    (keeps : ∀ next, s.step action = some next → Keeps s next) : s.Grows action := by
  cases action with
  | lookup t fd call => trivial
  | grow t =>
      intro fd call growing
      by_contra overtaken
      have smaller : fd * 3 / 2 < s.fdContexts.length := by omega
      obtain ⟨grown, resized⟩ := contextResize_of_lt smaller
      obtain ⟨next, taken, same⟩ := step_grow growing resized (inRange fd call grown growing resized)
      have shorter := (keeps next taken).length_le
      rw [same, contextResize_length resized] at shorter
      omega
  | report t pointer reported => trivial
  | locked t success => trivial

/-- In a run of any number of threads the table never loses an entry and is never
indexed out of range if and only if no thread resizes it after it was overtaken
by one that made it longer than the size asked for. -/
theorem contexts_survive_growth (actions : List (Action T)) :
    Ascending step Keeps initial actions ∧ Guarded step InRange initial actions ↔
      Guarded step Grows initial actions := by
  have preserved : ∀ {state : State T} {action next}, state.Roomy → state.Grows action →
      state.step action = some next → next.Roomy :=
    fun roomy grows taken => (grows.keeps taken).roomy roomy
  have start : (initial : State T).Roomy := by simp [Roomy, initial]
  constructor
  · let survive (s : State T) (actions : List (Action T)) :=
      Ascending step Keeps s actions ∧ Guarded step InRange s actions
    have tail : ∀ {s : State T} {action next rest}, survive s (action :: rest) →
        s.step action = some next → survive next rest :=
      fun holds taken => ⟨holds.1.tail taken, holds.2.2 _ taken⟩
    have necessary : ∀ {s : State T} {action rest}, s.Roomy → survive s (action :: rest) →
        s.Grows action :=
      fun _ holds => grows_of_keeps holds.2.1 fun _ taken => holds.1.head taken
    exact guarded_of_necessary tail preserved necessary start
  · intro grows
    constructor
    · exact ascending_of_guarded Keeps.refl Keeps.trans Grows.keeps grows
    · exact grows.mono preserved (fun roomy now => now.inRange roomy) start

/-- One thread finds the table too small for descriptor 32. Before it resizes the
table, another has registered descriptor 40 and grown it to 60 entries, which are
cut down to 48. -/
theorem contexts_lost_overtaken :
    ¬(Ascending (step (T := Bool)) Keeps initial
        [.lookup true 32 (.addEvent ⟨some 7, 1, .exec⟩ .read none),
          .lookup false 40 (.addEvent ⟨some 7, 2, .exec⟩ .read none), .grow false,
          .locked false true, .grow true] ∧
      Guarded (step (T := Bool)) InRange initial
        [.lookup true 32 (.addEvent ⟨some 7, 1, .exec⟩ .read none),
          .lookup false 40 (.addEvent ⟨some 7, 2, .exec⟩ .read none), .grow false,
          .locked false true, .grow true]) := by
  rintro ⟨ascending, _⟩
  have kept := ascending
    [.lookup true 32 (.addEvent ⟨some 7, 1, .exec⟩ .read none),
      .lookup false 40 (.addEvent ⟨some 7, 2, .exec⟩ .read none), .grow false,
      .locked false true] [.grow true] [] _ _ rfl rfl rfl
  exact absurd kept.length_le (by decide)

end

end Sylar.IOManager.State
