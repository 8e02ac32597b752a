import Sylar.Library.Transition
import Mathlib.Data.Finset.Card
import Mathlib.Data.Fintype.Basic
import Mathlib.Logic.Function.Basic

/-!
# Scoped locks

The templates of `mutex.h` that lock in their constructor and unlock in their destructor,
over any lock that is told which thread calls. The calls of the locks below them are
those of POSIX; what they return is ignored by the classes that wrap them.
-/

namespace Sylar

/-- How a guard takes its lock; `lock` of a lock that has no readers is `write`. -/
inductive LockKind where
  | read | write
deriving DecidableEq, Repr

/-- A mutex class. A call that blocks, and an `unlock` that POSIX leaves undefined, have no
result. -/
structure Lockable (T L : Type) where
  lock : LockKind → T → L → Option L
  unlock : T → L → Option L

/-- `ScopedLockImpl`, `ReadScopedLockImpl` or `WriteScopedLockImpl`, in the thread whose stack
it is on. -/
structure ScopedLock (T : Type) where
  thread : T
  kind : LockKind
  locked : Bool
deriving DecidableEq, Repr

/-- A mutex and the guards that refer to it. -/
structure Guards (T G L : Type) where
  mutex : L
  guards : G → Option (ScopedLock T)

namespace Guards

open Library

/-- A call of a guard. -/
inductive Action (T G : Type) where
  | construct (g : G) (w : T) (kind : LockKind)
  | lock (g : G)
  | unlock (g : G)
  | destroy (g : G)
deriving DecidableEq, Repr

variable {T G L : Type} [DecidableEq G]

/-- Change one guard. -/
def setGuard (s : Guards T G L) (g : G) (guard : Option (ScopedLock T)) : Guards T G L :=
  { s with guards := Function.update s.guards g guard }

/-- Change the lock. -/
def setMutex (s : Guards T G L) (mutex : L) : Guards T G L := { s with mutex := mutex }

/-- `unlock` of a guard, after which the guard is `after`. -/
def release (lockable : Lockable T L) (s : Guards T G L) (g : G) (guard : ScopedLock T)
    (after : Option (ScopedLock T)) : Option (Guards T G L) :=
  if guard.locked then
    (lockable.unlock guard.thread s.mutex).map fun mutex => (s.setMutex mutex).setGuard g after
  else some (s.setGuard g after)

/-- A call of a guard, where it returns. -/
def step (lockable : Lockable T L) (s : Guards T G L) : Action T G → Option (Guards T G L)
  | .construct g w kind =>
      if (s.guards g).isSome then none
      else
        (lockable.lock kind w s.mutex).map fun mutex =>
          (s.setMutex mutex).setGuard g (some ⟨w, kind, true⟩)
  | .lock g => do
      let guard ← s.guards g
      if guard.locked then some s
      else
        (lockable.lock guard.kind guard.thread s.mutex).map fun mutex =>
          (s.setMutex mutex).setGuard g (some { guard with locked := true })
  | .unlock g => do
      let guard ← s.guards g
      s.release lockable g guard (some { guard with locked := false })
  | .destroy g => do
      let guard ← s.guards g
      s.release lockable g guard none

/-- No guard was constructed yet. -/
def initial (mutex : L) : Guards T G L := ⟨mutex, fun _ => none⟩

/-- The guard has locked. -/
def Holds (s : Guards T G L) (g : G) (guard : ScopedLock T) : Prop :=
  s.guards g = some guard ∧ guard.locked = true

/-- Of two guards that have locked none is for writing. -/
def Excludes (s : Guards T G L) : Prop :=
  ∀ g h first second, s.Holds g first → s.Holds h second → g ≠ h →
    first.kind = .read ∧ second.kind = .read

end Guards

/-- `pthread_rwlock_t`: the thread that holds it for writing, and how often it is held for
reading. -/
structure Rwlock (T : Type) where
  curWriter : Option T
  readers : Nat
deriving DecidableEq, Repr

namespace Rwlock

variable {T : Type} [DecidableEq T]

/-- Nobody holds it. -/
def free : Rwlock T := ⟨none, 0⟩

/-- `pthread_rwlock_rdlock` and `pthread_rwlock_wrlock`. -/
def lock (kind : LockKind) (w : T) (rwlock : Rwlock T) : Option (Rwlock T) :=
  -- EDEADLK
  if rwlock.curWriter = some w then some rwlock
  else if rwlock.curWriter.isSome then none
  else
    match kind with
    | .read => some { rwlock with readers := rwlock.readers + 1 }
    | .write => if rwlock.readers = 0 then some ⟨some w, 0⟩ else none

/-- `pthread_rwlock_unlock`. -/
def unlock (w : T) (rwlock : Rwlock T) : Option (Rwlock T) :=
  if rwlock.curWriter = some w then some { rwlock with curWriter := none }
  else if rwlock.readers = 0 then none
  else some { rwlock with readers := rwlock.readers - 1 }

end Rwlock

/-- `Mutex` and `Spinlock`, as long as the thread that unlocks is the one that locked. -/
def Lockable.mutex (T : Type) [DecidableEq T] : Lockable T (Option T) where
  lock _ w owner := if owner.isSome then none else some (some w)
  unlock w owner := if owner = some w then some none else none

/-- `CASLock`. -/
def Lockable.casLock (T : Type) : Lockable T Bool where
  lock _ _ flag := if flag then none else some true
  unlock _ _ := some false

/-- `RWMutex`. -/
def Lockable.rwMutex (T : Type) [DecidableEq T] : Lockable T (Rwlock T) := ⟨Rwlock.lock, Rwlock.unlock⟩

namespace Rwlock

variable {T G : Type} [DecidableEq T] [DecidableEq G] {rwlock next : Rwlock T}
  {holds : G → ScopedLock T → Prop} {g : G} {guard : ScopedLock T}

/-- The lock counts the guards that hold it. -/
structure Counts (rwlock : Rwlock T) (holds : G → ScopedLock T → Prop) : Prop where
  writer : ∀ g guard, holds g guard → guard.kind = .write → rwlock.curWriter = some guard.thread
  written : ∀ w, rwlock.curWriter = some w → rwlock.readers = 0 ∧
    ∃ g guard, holds g guard ∧ guard.kind = .write ∧ guard.thread = w
  single : ∀ g h first second, holds g first → first.kind = .write → holds h second →
    second.kind = .write → g = h
  readers : ∃ held : Finset G, held.card = rwlock.readers ∧
    ∀ g, g ∈ held ↔ ∃ guard, holds g guard ∧ guard.kind = .read

/-- A lock that is free blocks nobody. -/
theorem exists_lock {kind : LockKind} {w : T} (unwritten : rwlock.curWriter = none)
    (unread : rwlock.readers = 0) : ∃ next, rwlock.lock kind w = some next := by
  simp only [lock, unwritten, unread, reduceCtorEq, if_false, Option.isSome_none,
    Bool.false_eq_true, if_true]
  cases kind <;> exact ⟨_, rfl⟩

/-- A guard locks, and its thread has none that holds for writing. -/
theorem Counts.take (counts : rwlock.Counts holds) (absent : ∀ before, ¬holds g before)
    (unnested : ∀ h other, holds h other → other.kind = .write → other.thread ≠ guard.thread)
    (locked : rwlock.lock guard.kind guard.thread = some next) :
    next.Counts fun h other => h = g ∧ other = guard ∨ holds h other := by
  obtain ⟨writer, written, single, held, card, members⟩ := counts
  have unwritten : rwlock.curWriter = none := by
    rcases holder : rwlock.curWriter with - | other
    · rfl
    · obtain ⟨-, h, before, holds_, isWrite, rfl⟩ := written other holder
      have differs := unnested h before holds_ isWrite
      simp only [lock, holder, Option.some.injEq, if_neg differs, Option.isSome_some,
        if_true] at locked
      exact absurd locked nofun
  have noWriter : ∀ h other, holds h other → other.kind ≠ .write := by
    intro h other holds_ isWrite
    rw [writer h other holds_ isWrite] at unwritten
    exact absurd unwritten nofun
  simp only [lock, unwritten, reduceCtorEq, if_false, Option.isSome_none,
    Bool.false_eq_true] at locked
  rcases kind : guard.kind with - | -
  · rw [kind] at locked
    cases locked
    have none_ : ∀ h other, h = g ∧ other = guard ∨ holds h other → other.kind ≠ .write := by
      rintro h other (⟨-, rfl⟩ | before)
      · rw [kind]
        exact nofun
      · exact noWriter h other before
    have new : g ∉ held := fun member => absent _ ((members g).mp member).choose_spec.1
    refine ⟨?_, ?_, ?_, insert g held, ?_, fun h => ?_⟩
    · exact fun h other after isWrite => absurd isWrite (none_ h other after)
    · exact nofun
    · exact fun h i first second after isWrite => absurd isWrite (none_ h first after)
    · rw [Finset.card_insert_of_notMem new, card]
    · rw [Finset.mem_insert, members]
      constructor
      · rintro (rfl | ⟨other, before, isRead⟩)
        · exact ⟨guard, .inl ⟨rfl, rfl⟩, kind⟩
        · exact ⟨other, .inr before, isRead⟩
      · rintro ⟨other, ⟨rfl, rfl⟩ | before, isRead⟩
        · exact .inl rfl
        · exact .inr ⟨other, before, isRead⟩
  · rw [kind] at locked
    obtain ⟨none_, ⟨⟩⟩ := Option.ite_none_right_eq_some.mp locked
    have empty : held = ∅ := Finset.card_eq_zero.mp (card.trans none_)
    have nothing : ∀ h other, ¬holds h other := by
      intro h other before
      rcases isKind : other.kind with - | -
      · have member := (members h).mpr ⟨other, before, isKind⟩
        rw [empty] at member
        exact absurd member (Finset.notMem_empty h)
      · exact noWriter h other before isKind
    refine ⟨?_, ?_, ?_, ∅, rfl, fun h => ?_⟩
    · rintro h other (⟨-, rfl⟩ | before) -
      · rfl
      · exact absurd before (nothing h other)
    · rintro w ⟨⟩
      exact ⟨rfl, g, guard, .inl ⟨rfl, rfl⟩, kind, rfl⟩
    · rintro h i first second (⟨rfl, -⟩ | before) - (⟨rfl, -⟩ | after) -
      · rfl
      · exact absurd after (nothing i second)
      · exact absurd before (nothing h first)
      · exact absurd before (nothing h first)
    · refine ⟨fun member => absurd member (Finset.notMem_empty h), ?_⟩
      rintro ⟨other, ⟨-, rfl⟩ | before, isRead⟩
      · exact absurd (kind.symm.trans isRead) nofun
      · exact absurd before (nothing h other)

/-- A guard that holds the lock unlocks. -/
theorem Counts.give (counts : rwlock.Counts holds) (holder : holds g guard)
    (unique : ∀ other, holds g other → other = guard) :
    ∃ next, rwlock.unlock guard.thread = some next ∧
      next.Counts fun h other => h ≠ g ∧ holds h other := by
  obtain ⟨writer, written, single, held, card, members⟩ := counts
  rcases kind : guard.kind with - | -
  · have member := (members g).mpr ⟨guard, holder, kind⟩
    have some_ : rwlock.readers ≠ 0 := by
      rw [← card]
      exact Finset.card_ne_zero_of_mem member
    have unwritten : ∀ w, rwlock.curWriter ≠ some w := fun w writes => some_ (written w writes).1
    refine ⟨{ rwlock with readers := rwlock.readers - 1 }, ?_, ?_, ?_, ?_, held.erase g, ?_,
      fun h => ?_⟩
    · rw [unlock, if_neg (unwritten _), if_neg some_]
    · exact fun h other after isWrite => writer h other after.2 isWrite
    · exact fun w writes => absurd writes (unwritten w)
    · exact fun h i first second before isWrite after => single h i first second before.2 isWrite
        after.2
    · rw [Finset.card_erase_of_mem member, card]
    · rw [Finset.mem_erase, members]
      constructor
      · rintro ⟨differs, other, before, isRead⟩
        exact ⟨other, ⟨differs, before⟩, isRead⟩
      · rintro ⟨other, ⟨differs, before⟩, isRead⟩
        exact ⟨differs, other, before, isRead⟩
  · have writes := writer g guard holder kind
    have only : ∀ h other, h ≠ g ∧ holds h other → other.kind ≠ .write :=
      fun h other after isWrite => after.1 (single h g other guard after.2 isWrite holder kind)
    refine ⟨{ rwlock with curWriter := none }, if_pos writes, ?_, nofun, ?_, held, card, fun h => ?_⟩
    · exact fun h other after isWrite => absurd isWrite (only h other after)
    · exact fun h i first second before isWrite => absurd isWrite (only h first before)
    · rw [members]
      constructor
      · rintro ⟨other, before, isRead⟩
        refine ⟨other, ⟨?_, before⟩, isRead⟩
        rintro rfl
        rw [unique other before, kind] at isRead
        exact absurd isRead nofun
      · rintro ⟨other, ⟨-, before⟩, isRead⟩
        exact ⟨other, before, isRead⟩

end Rwlock

namespace Guards

open Library

variable {T G : Type} [DecidableEq T] [DecidableEq G] {s next : Guards T G (Rwlock T)}
  {g : G} {guard : ScopedLock T}

/-- The thread has no guard that holds the lock for writing. -/
def Unnested (s : Guards T G (Rwlock T)) (w : T) : Prop :=
  ∀ g, ∀ guard ∈ s.guards g, guard.locked = true → guard.kind = .write → guard.thread ≠ w

/-- No guard is taken by a thread that has one that holds the lock for writing. -/
def NotNested (s : Guards T G (Rwlock T)) : Action T G → Prop
  | .construct _ w _ => s.Unnested w
  | .lock g => ∀ guard ∈ s.guards g, guard.locked = false → s.Unnested guard.thread
  | _ => True

instance [Fintype G] (s : Guards T G (Rwlock T)) (w : T) : Decidable (s.Unnested w) := by
  unfold Unnested
  infer_instance

instance [Fintype G] (s : Guards T G (Rwlock T)) (action : Action T G) :
    Decidable (s.NotNested action) := by
  unfold NotNested
  split <;> infer_instance

section Frames

variable {L : Type} {s : Guards T G L} {h : G} {place : Option (ScopedLock T)}

omit [DecidableEq T] in
theorem holds_setGuard_of_ne {other : ScopedLock T} (differs : h ≠ g) :
    (s.setGuard g place).Holds h other ↔ s.Holds h other := by
  simp only [Holds, setGuard, Function.update_of_ne differs]

omit [DecidableEq T] in
theorem holds_setGuard_self {other : ScopedLock T} :
    (s.setGuard g place).Holds g other ↔ place = some other ∧ other.locked = true := by
  simp only [Holds, setGuard, Function.update_self]

omit [DecidableEq T] in
/-- A guard that is left unlocked holds nothing, and the others hold what they held. -/
theorem holds_setGuard_unlocked (unlocked : ∀ after, place = some after → after.locked = false) :
    (s.setGuard g place).Holds = fun h other => h ≠ g ∧ s.Holds h other := by
  ext h other
  by_cases same : h = g
  · subst same
    rw [holds_setGuard_self]
    constructor
    · rintro ⟨found, locked⟩
      rw [unlocked other found] at locked
      exact absurd locked nofun
    · rintro ⟨differs, -⟩
      exact absurd rfl differs
  · rw [holds_setGuard_of_ne same]
    exact (and_iff_right same).symm

omit [DecidableEq T] in
/-- A guard that locks comes to those that hold. -/
theorem holds_setGuard_locked (locked : guard.locked = true) (absent : ∀ before, ¬s.Holds g before) :
    (s.setGuard g (some guard)).Holds = fun h other => h = g ∧ other = guard ∨ s.Holds h other := by
  ext h other
  by_cases same : h = g
  · subst same
    rw [holds_setGuard_self]
    constructor
    · rintro ⟨⟨⟩, -⟩
      exact .inl ⟨rfl, rfl⟩
    · rintro (⟨-, rfl⟩ | before)
      · exact ⟨rfl, locked⟩
      · exact absurd before (absent other)
  · rw [holds_setGuard_of_ne same]
    exact (or_iff_right fun both => same both.1).symm

omit [DecidableEq T] [DecidableEq G] in
theorem Holds.unique {first second : ScopedLock T} (one : s.Holds g first) (two : s.Holds g second) :
    second = first := Option.some.inj (two.1.symm.trans one.1)

end Frames

/-- The lock counts the guards that hold it. -/
def Counted (s : Guards T G (Rwlock T)) : Prop := s.mutex.Counts s.Holds

namespace Counted

variable {place : Option (ScopedLock T)}

theorem take (counted : s.Counted) (absent : ∀ before, ¬s.Holds g before)
    (unnested : s.Unnested guard.thread) (locks : guard.locked = true) {mutex : Rwlock T}
    (locked : s.mutex.lock guard.kind guard.thread = some mutex) :
    ((s.setMutex mutex).setGuard g (some guard)).Counted := by
  have holds : ((s.setMutex mutex).setGuard g (some guard)).Holds = _ :=
    holds_setGuard_locked locks absent
  rw [Counted, holds]
  exact Rwlock.Counts.take counted absent (fun h other holds => unnested h other holds.1 holds.2)
    locked

/-- A guard can always be unlocked. -/
theorem release (counted : s.Counted) (found : s.guards g = some guard)
    (unlocked : ∀ after, place = some after → after.locked = false) :
    ∃ next, s.release (Lockable.rwMutex T) g guard place = some next ∧ next.Counted := by
  rcases locked : guard.locked with - | -
  · have absent : ∀ before, ¬s.Holds g before := by
      rintro before ⟨found', locks⟩
      cases found.symm.trans found'
      exact absurd (locked.symm.trans locks) nofun
    refine ⟨s.setGuard g place, if_neg (by rw [locked]; exact nofun), ?_⟩
    have same : (s.setGuard g place).Holds = s.Holds := by
      rw [holds_setGuard_unlocked unlocked]
      ext h other
      refine and_iff_right_of_imp fun holds => ?_
      rintro rfl
      exact absent other holds
    rw [Counted, same]
    exact counted
  · have holder : s.Holds g guard := ⟨found, locked⟩
    obtain ⟨mutex, gives, counts⟩ := Rwlock.Counts.give counted holder fun _ => holder.unique
    refine ⟨(s.setMutex mutex).setGuard g place, ?_, ?_⟩
    · rw [Guards.release, if_pos locked]
      exact Option.map_eq_some_iff.mpr ⟨mutex, gives, rfl⟩
    · have holds : ((s.setMutex mutex).setGuard g place).Holds = _ :=
        holds_setGuard_unlocked unlocked
      rw [Counted, holds]
      exact counts

/-- A call that does not nest keeps the account of the lock. -/
theorem step {action : Action T G} (counted : s.Counted) (notNested : s.NotNested action)
    (taken : s.step (Lockable.rwMutex T) action = some next) : next.Counted := by
  cases action with
  | construct g w kind =>
      simp only [Guards.step, Option.ite_none_left_eq_some, Option.map_eq_some_iff] at taken
      obtain ⟨new, mutex, locked, rfl⟩ := taken
      have absent : ∀ before, ¬s.Holds g before := by
        rintro before ⟨found, -⟩
        rw [found] at new
        exact new rfl
      have unnested : s.Unnested (ScopedLock.mk w kind true).thread := notNested
      exact counted.take absent unnested rfl locked
  | lock g =>
      simp only [Guards.step, bind, Option.bind_eq_some_iff] at taken
      obtain ⟨guard, found, taken⟩ := taken
      rcases locked : guard.locked with - | -
      · rw [if_neg (by rw [locked]; exact nofun)] at taken
        obtain ⟨mutex, locks, rfl⟩ := Option.map_eq_some_iff.mp taken
        have absent : ∀ before, ¬s.Holds g before := by
          rintro before ⟨found', holds⟩
          cases found.symm.trans found'
          exact absurd (locked.symm.trans holds) nofun
        have unnested : s.Unnested { guard with locked := true }.thread :=
          notNested guard found locked
        exact counted.take absent unnested rfl locks
      · rw [if_pos locked] at taken
        cases taken
        exact counted
  | unlock g =>
      simp only [Guards.step, bind, Option.bind_eq_some_iff] at taken
      obtain ⟨guard, found, taken⟩ := taken
      have unlocked : ∀ after, some { guard with locked := false } = some after →
          after.locked = false := by
        rintro _ ⟨⟩
        rfl
      obtain ⟨after, released, counted⟩ := counted.release found unlocked
      cases taken.symm.trans released
      exact counted
  | destroy g =>
      simp only [Guards.step, bind, Option.bind_eq_some_iff] at taken
      obtain ⟨guard, found, taken⟩ := taken
      have unlocked : ∀ after, (none : Option (ScopedLock T)) = some after →
          after.locked = false := nofun
      obtain ⟨after, released, counted⟩ := counted.release found unlocked
      cases taken.symm.trans released
      exact counted

end Counted

/-- What a thread may rely on that uses the lock through guards. -/
structure Protected (s : Guards T G (Rwlock T)) : Prop where
  excludes : s.Excludes
  /-- No lock is left behind. -/
  free : (∀ g guard, ¬s.Holds g guard) → s.mutex = .free
  /-- A guard can be destroyed, in whatever order. -/
  destroys : ∀ g, s.guards g ≠ none → s.step (Lockable.rwMutex T) (.destroy g) ≠ none

theorem Counted.protected (counted : s.Counted) : s.Protected := by
  obtain ⟨writer, written, single, held, card, members⟩ := id counted
  have apart : ∀ g h first second, s.Holds g first → s.Holds h second → g ≠ h →
      first.kind ≠ .write := by
    intro g h first second one two differs isWrite
    rcases kind : second.kind with - | -
    · have member := (members h).mpr ⟨second, two, kind⟩
      have none_ := (written _ (writer g first one isWrite)).1
      rw [Finset.card_eq_zero.mp (card.trans none_)] at member
      exact absurd member (Finset.notMem_empty h)
    · exact differs (single g h first second one isWrite two kind)
  have isRead : ∀ kind : LockKind, kind ≠ .write → kind = .read := by
    intro kind other
    cases kind with
    | read => rfl
    | write => exact absurd rfl other
  refine ⟨fun g h first second one two differs => ⟨?_, ?_⟩, fun nothing => ?_, fun g exists_ => ?_⟩
  · exact isRead _ (apart g h first second one two differs)
  · exact isRead _ (apart h g second first two one differs.symm)
  · have unwritten : s.mutex.curWriter = none := by
      rcases holder : s.mutex.curWriter with - | w
      · rfl
      · obtain ⟨-, g, guard, holds, -⟩ := written w holder
        exact absurd holds (nothing g guard)
    have empty : held = ∅ := by
      apply Finset.eq_empty_of_forall_notMem
      intro g member
      obtain ⟨guard, holds, -⟩ := (members g).mp member
      exact nothing g guard holds
    rw [empty, Finset.card_empty] at card
    rw [Rwlock.free, ← unwritten, card]
  · obtain ⟨guard, found⟩ := Option.ne_none_iff_exists'.mp exists_
    have unlocked : ∀ after, (none : Option (ScopedLock T)) = some after →
        after.locked = false := nofun
    obtain ⟨after, released, -⟩ := counted.release found unlocked
    simp only [Guards.step, found, bind, Option.bind, released]
    exact Option.some_ne_none after

omit [DecidableEq T] [DecidableEq G] in
theorem counted_initial : (initial Rwlock.free : Guards T G (Rwlock T)).Counted where
  writer _ _ holds := absurd holds.1 nofun
  written _ := nofun
  single _ _ _ _ holds := absurd holds.1 nofun
  readers := by
    refine ⟨∅, rfl, fun g => ⟨fun member => absurd member (Finset.notMem_empty g), ?_⟩⟩
    rintro ⟨_, holds, -⟩
    exact absurd holds.1 nofun

/-- Scoped locks exclude. In every run of any threads in which no thread takes a guard while it
has one that holds the lock for writing, a guard for writing that holds the lock is the only one
that holds it, the lock is free when no guard holds it, and every guard can be destroyed. -/
theorem protected_of_notNested {actions : List (Action T G)}
    (notNested : Guarded (step (Lockable.rwMutex T)) NotNested (initial .free) actions) :
    Along (step (Lockable.rwMutex T)) Protected (initial .free) actions :=
  (along_of_guarded Counted.step counted_initial notNested).mono fun _ => Counted.protected

/-- A guard that is taken while its thread has one that holds the lock for writing gives the lock
away. Once it is destroyed, any thread gets the lock, for reading or for writing, and the
outer guard still counts as locked. -/
theorem nested_lets_in {actions : List (Action T G)} {outer inner entering : G} {v : T}
    {kind entry : LockKind}
    (notNested : Guarded (step (Lockable.rwMutex T)) NotNested (initial .free) actions)
    (ran : exec (step (Lockable.rwMutex T)) (initial .free) actions = some s)
    (holds : s.Holds outer guard) (isWrite : guard.kind = .write)
    (new : s.guards inner = none) (newer : s.guards entering = none) :
    ∃ final, exec (step (Lockable.rwMutex T)) s
        [.construct inner guard.thread kind, .destroy inner, .construct entering v entry] =
          some final ∧
      final.Holds outer guard ∧ final.Holds entering ⟨v, entry, true⟩ ∧ entering ≠ outer := by
  have counted : s.Counted := (along_of_guarded Counted.step counted_initial notNested).exec ran
  have writes : s.mutex.curWriter = some guard.thread := counted.writer outer guard holds isWrite
  have none_ : s.mutex.readers = 0 := (counted.written _ writes).1
  have apart : outer ≠ inner := by
    rintro rfl
    exact absurd (holds.1.symm.trans new) nofun
  have apart' : outer ≠ entering := by
    rintro rfl
    exact absurd (holds.1.symm.trans newer) nofun
  let inside := s.setGuard inner (some ⟨guard.thread, kind, true⟩)
  let outside := (inside.setMutex { s.mutex with curWriter := none }).setGuard inner none
  have constructs : s.step (Lockable.rwMutex T) (.construct inner guard.thread kind) = some inside := by
    have deadlock : (Lockable.rwMutex T).lock kind guard.thread s.mutex = some s.mutex := if_pos writes
    rw [step, new, deadlock]
    rfl
  have destroys : inside.step (Lockable.rwMutex T) (.destroy inner) = some outside := by
    have found : inside.guards inner = some ⟨guard.thread, kind, true⟩ := Function.update_self ..
    have unlocks : (Lockable.rwMutex T).unlock guard.thread inside.mutex =
        some { s.mutex with curWriter := none } := if_pos writes
    simp only [step, found, bind, Option.bind, release, if_true, unlocks, Option.map_some, outside]
  have empty : outside.guards entering = none := by
    by_cases same : entering = inner
    · subst same
      exact Function.update_self ..
    · exact (Function.update_of_ne same ..).trans ((Function.update_of_ne same ..).trans newer)
  have unwritten : outside.mutex.curWriter = none := rfl
  have unread : outside.mutex.readers = 0 := none_
  obtain ⟨mutex, locks⟩ : ∃ mutex, (Lockable.rwMutex T).lock entry v outside.mutex = some mutex :=
    Rwlock.exists_lock unwritten unread
  have enters : outside.step (Lockable.rwMutex T) (.construct entering v entry) =
      some ((outside.setMutex mutex).setGuard entering (some ⟨v, entry, true⟩)) := by
    rw [step, empty, locks]
    rfl
  refine ⟨_, by rw [exec, constructs, Option.bind_some, exec, destroys, Option.bind_some, exec,
    enters, Option.bind_some, exec], ?_, ?_, apart'.symm⟩
  · rw [holds_setGuard_of_ne apart']
    exact (holds_setGuard_of_ne apart).mpr ((holds_setGuard_of_ne apart).mpr holds)
  · exact holds_setGuard_self.mpr ⟨rfl, rfl⟩

section Exclusive

variable {L : Type} {lockable : Lockable T L} {taken : L → Bool} {s next : Guards T G L}

/-- A lock that nobody gets that is taken, and that is not taken when it was unlocked. -/
structure Exclusive (lockable : Lockable T L) (taken : L → Bool) : Prop where
  locks : ∀ {kind w before after}, lockable.lock kind w before = some after →
    taken before = false ∧ taken after = true
  unlocks : ∀ {w before after}, lockable.unlock w before = some after → taken after = false

/-- The lock is taken when a guard holds it, and one guard at most does. -/
structure Alone (taken : L → Bool) (s : Guards T G L) : Prop where
  taken : ∀ g guard, s.Holds g guard → taken s.mutex = true
  single : ∀ g h first second, s.Holds g first → s.Holds h second → g = h

omit [DecidableEq T] in
theorem Alone.take (alone : s.Alone taken) (exclusive : Exclusive lockable taken) {mutex : L}
    (locks : guard.locked = true)
    (locked : lockable.lock guard.kind guard.thread s.mutex = some mutex) :
    ((s.setMutex mutex).setGuard g (some guard)).Alone taken := by
  obtain ⟨free, took⟩ := exclusive.locks locked
  have nothing : ∀ h other, ¬s.Holds h other := by
    intro h other holds
    exact absurd (free.symm.trans (alone.taken h other holds)) nofun
  have holds : ((s.setMutex mutex).setGuard g (some guard)).Holds = _ :=
    holds_setGuard_locked locks (nothing g)
  have only : ∀ h other, ((s.setMutex mutex).setGuard g (some guard)).Holds h other → h = g := by
    intro h other after
    rw [holds] at after
    rcases after with ⟨same, -⟩ | before
    · exact same
    · exact absurd before (nothing h other)
  exact ⟨fun _ _ _ => took, fun h i first second one two =>
    (only h first one).trans (only i second two).symm⟩

omit [DecidableEq T] in
theorem Alone.release (alone : s.Alone taken) (found : s.guards g = some guard) {place : Option (ScopedLock T)}
    (unlocked : ∀ after, place = some after → after.locked = false)
    (released : s.release lockable g guard place = some next) : next.Alone taken := by
  have fewer : ∀ {s : Guards T G L} h other, (s.setGuard g place).Holds h other →
      h ≠ g ∧ s.Holds h other := by
    intro s h other after
    rwa [holds_setGuard_unlocked unlocked] at after
  rw [Guards.release] at released
  split at released
  · rename_i locked
    obtain ⟨mutex, unlocks, rfl⟩ := Option.map_eq_some_iff.mp released
    have nothing : ∀ h other, ¬((s.setMutex mutex).setGuard g place).Holds h other := by
      intro h other after
      obtain ⟨differs, before⟩ := fewer h other after
      exact differs (alone.single h g other guard before ⟨found, locked⟩)
    exact ⟨fun h other after => absurd after (nothing h other),
      fun h _ other _ after => absurd after (nothing h other)⟩
  · cases released
    refine ⟨fun h other after => alone.taken h other (fewer h other after).2, ?_⟩
    exact fun h i first second one two =>
      alone.single h i first second (fewer h first one).2 (fewer i second two).2

omit [DecidableEq T] in
theorem Alone.step {action : Action T G} (alone : s.Alone taken)
    (exclusive : Exclusive lockable taken) (stepped : s.step lockable action = some next) :
    next.Alone taken := by
  cases action with
  | construct g w kind =>
      simp only [Guards.step, Option.ite_none_left_eq_some, Option.map_eq_some_iff] at stepped
      obtain ⟨-, mutex, locked, rfl⟩ := stepped
      exact alone.take exclusive rfl locked
  | lock g =>
      simp only [Guards.step, bind, Option.bind_eq_some_iff] at stepped
      obtain ⟨guard, found, stepped⟩ := stepped
      split at stepped
      · cases stepped
        exact alone
      · obtain ⟨mutex, locked, rfl⟩ := Option.map_eq_some_iff.mp stepped
        exact alone.take exclusive rfl locked
  | unlock g =>
      simp only [Guards.step, bind, Option.bind_eq_some_iff] at stepped
      obtain ⟨guard, found, stepped⟩ := stepped
      refine alone.release found ?_ stepped
      rintro _ ⟨⟩
      rfl
  | destroy g =>
      simp only [Guards.step, bind, Option.bind_eq_some_iff] at stepped
      obtain ⟨guard, found, stepped⟩ := stepped
      have unlocked : ∀ after, (none : Option (ScopedLock T)) = some after →
          after.locked = false := nofun
      exact alone.release found unlocked stepped

theorem exclusive_mutex : Exclusive (Lockable.mutex T) Option.isSome where
  locks := by
    intro kind w before after locked
    obtain ⟨free, ⟨⟩⟩ := Option.ite_none_left_eq_some.mp locked
    exact ⟨Bool.eq_false_iff.mpr free, rfl⟩
  unlocks := by
    intro w before after unlocked
    obtain ⟨-, ⟨⟩⟩ := Option.ite_none_right_eq_some.mp unlocked
    rfl

omit [DecidableEq T] in
theorem exclusive_casLock : Exclusive (Lockable.casLock T) id where
  locks := by
    intro kind w before after locked
    obtain ⟨free, ⟨⟩⟩ := Option.ite_none_left_eq_some.mp locked
    exact ⟨Bool.eq_false_iff.mpr free, rfl⟩
  unlocks := by
    rintro w before after ⟨⟩
    rfl

/-- One guard at most holds a `Mutex`, a `Spinlock` or a `CASLock`, in every run. -/
theorem alone_scopedLock (actions : List (Action T G)) :
    Along (step (Lockable.mutex T)) (Alone Option.isSome) (initial none) actions ∧
      Along (step (Lockable.casLock T)) (Alone id) (initial false) actions := by
  have start : ∀ {L : Type} (l : L) (taken : L → Bool),
      (initial l : Guards T G L).Alone taken :=
    fun l taken => ⟨fun _ _ holds => absurd holds.1 nofun, fun _ _ _ _ holds => absurd holds.1 nofun⟩
  exact ⟨along_of_preserved (fun alone => alone.step exclusive_mutex) (start _ _) actions,
    along_of_preserved (fun alone => alone.step exclusive_casLock) (start _ _) actions⟩

end Exclusive

section Runs

/-- A reader and then a writer. -/
def readsThenWrites : List (Action Bool (Fin 3)) :=
  [.construct 0 true .read, .construct 1 false .read, .unlock 1, .destroy 0, .destroy 1,
    .construct 2 true .write]

theorem protected_of_notNested_readsThenWrites :
    Along (step (Lockable.rwMutex Bool)) Protected (initial .free) readsThenWrites := by
  have notNested : Guarded (step (Lockable.rwMutex Bool)) NotNested (initial .free) readsThenWrites := by
    decide
  exact protected_of_notNested notNested

/-- While thread 1 has the lock for writing it takes a guard for reading, and thread 0 gets in. -/
theorem nested_lets_in_reads : ∃ s final : Guards Bool (Fin 3) (Rwlock Bool),
    exec (step (Lockable.rwMutex Bool)) (initial .free) [.construct 0 true .write] = some s ∧
      exec (step (Lockable.rwMutex Bool)) s
        [.construct 1 true .read, .destroy 1, .construct 2 false .write] = some final ∧
      final.Holds 0 ⟨true, .write, true⟩ ∧ final.Holds 2 ⟨false, .write, true⟩ ∧
      (2 : Fin 3) ≠ 0 := by
  have notNested : Guarded (step (Lockable.rwMutex Bool)) NotNested
      (initial .free : Guards Bool (Fin 3) (Rwlock Bool)) [.construct 0 true .write] := by decide
  obtain ⟨s, ran, holds, new, newer⟩ : ∃ s : Guards Bool (Fin 3) (Rwlock Bool),
      exec (step (Lockable.rwMutex Bool)) (initial .free) [.construct 0 true .write] = some s ∧
        s.Holds 0 ⟨true, .write, true⟩ ∧ s.guards 1 = none ∧ s.guards 2 = none :=
    ⟨_, rfl, ⟨rfl, rfl⟩, rfl, rfl⟩
  obtain ⟨final, continued, both⟩ := nested_lets_in notNested ran holds rfl new newer
  exact ⟨s, final, ran, continued, both⟩

end Runs

end Guards

end Sylar
