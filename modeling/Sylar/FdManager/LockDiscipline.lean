import Sylar.FdManager.Sharing

/-!
# The lock of the contexts

What a thread in `FdManager::get` does to `m_mutex`. A context is made under the write lock,
and its constructor calls the hooked `fcntl`, which asks the manager for the context.
-/

namespace Sylar

namespace FdManager

section Model

/-- What a thread does to `m_mutex`, and the begin and the end of making a context. -/
inductive LockEvent where
  | rdlock | wrlock | unlock
  /-- `new FdCtx(fd)`. -/
  | created
  /-- `m_datas[fd] = ctx`. -/
  | stored
deriving DecidableEq, Repr

/-- A result and the events before it. -/
structure Traced (α : Type) where
  value : α
  events : List LockEvent

namespace Traced

variable {α β : Type}

instance : Monad Traced where
  pure value := ⟨value, []⟩
  bind first next := ⟨(next first.value).value, first.events ++ (next first.value).events⟩

/-- An event that happens here. -/
def log (event : LockEvent) : Traced Unit := ⟨(), [event]⟩

@[simp] theorem events_pure (value : α) : (pure value : Traced α).events = [] := rfl

@[simp] theorem events_bind (first : Traced α) (next : α → Traced β) :
    (first >>= next).events = first.events ++ (next first.value).events := rfl

@[simp] theorem value_bind (first : Traced α) (next : α → Traced β) :
    (first >>= next).value = (next first.value).value := rfl

@[simp] theorem events_log (event : LockEvent) : (log event).events = [event] := rfl

end Traced

open Traced

/-- `m_datas[fd]`, where `stray` lies in front of the table. -/
def entryAt (manager : FdManager) (stray : Int → Option Nat) (fd : Int) : Option Nat :=
  if fd < 0 then stray fd else manager.entry fd.toNat

/-- The section of `get` under the read lock, as `lookup` for every `int`. -/
def lookupAt (manager : FdManager) (stray : Int → Option Nat) (fd : Int) (autoCreate : Bool) :
    Option (Option Nat) :=
  if (manager.datas.length : Int) ≤ fd then if autoCreate then none else some none
  else
    let data := manager.entryAt stray fd
    if data.isSome || !autoCreate then some data else none

/-- The context at an address is written to. -/
def write (manager : FdManager) (address : Option Nat) (ctx : Option FdCtx) : FdManager :=
  match address, ctx with
  | some address, some ctx => { manager with contexts := manager.contexts.set address ctx }
  | _, _ => manager

/-- `get(fd)`, which creates nothing. -/
def getExisting (manager : FdManager) (stray : Int → Option Nat) (fd : Int) :
    Traced (Option Nat) := do
  if fd = -1 then return none
  log .rdlock
  let found := manager.lookupAt stray fd false
  log .unlock
  return found.join

/-- The hooked `fcntl(fd, F_SETFL, arg)`. -/
def fcntlSetfl (manager : FdManager) (stray : Int → Option Nat) (fd : Int) (flags arg : Flags)
    (success : Bool) : Traced (FdManager × Flags) := do
  let address ← manager.getExisting stray fd
  let after := ((⟨manager.context address, flags⟩ : Descriptor).setfl arg success).2
  return (manager.write address after.ctx, after.flags)

/-- The part of `FdCtx::init` that makes a socket non-blocking. `flags` is what `F_GETFL`
returns. -/
def initNonblock (manager : FdManager) (stray : Int → Option Nat) (fd : Int) (isSocket : Bool)
    (flags : Flags) (success : Bool) : Traced (FdManager × Flags) :=
  if isSocket && !flags.nonblock then
    manager.fcntlSetfl stray fd flags (flags.setNonblock true) success
  else pure (manager, flags)

/-- The constructor of `FdCtx`. `stat` is what `fstat` tells, as for `FdCtx.init`. -/
def newFdCtx (manager : FdManager) (stray : Int → Option Nat) (fd : Int) (stat : Option Bool)
    (flags : Flags) (success : Bool) : Traced (FdCtx × FdManager × Flags) := do
  let isInit := stat.isSome
  let isSocket := stat.getD false
  let after ← manager.initNonblock stray fd isSocket flags success
  return (⟨isInit, isSocket, isSocket, false, false, -1, -1⟩, after)

/-- `get`. The manager is `seen` under the read lock and `manager` under the write lock. -/
def get (seen manager : FdManager) (stray : Int → Option Nat) (fd : Int) (autoCreate : Bool)
    (stat : Option Bool) (flags : Flags) (success : Bool) :
    Traced (Option Nat × FdManager × Flags) := do
  if fd = -1 then return (none, seen, flags)
  log .rdlock
  match seen.lookupAt stray fd autoCreate with
  | some address =>
      log .unlock
      return (address, seen, flags)
  | none =>
      log .unlock
      log .wrlock
      log .created
      let made ← manager.newFdCtx stray fd stat flags success
      let manager := made.2.1
      log .stored
      log .unlock
      let address := manager.contexts.length
      let stored :=
        if fd < 0 then { manager with contexts := manager.contexts ++ [made.1] }
        else manager.create fd.toNat made.1
      return (some address, stored, made.2.2)

end Model

section Discipline

/-- How a thread holds the lock. -/
inductive Held where
  | free | reading | writing
deriving DecidableEq, Repr

/-- How the thread holds the lock after an event, when the lock was free for it. -/
def Held.after (held : Held) : LockEvent → Held
  | .rdlock => .reading
  | .wrlock => .writing
  | .unlock => .free
  | .created | .stored => held

/-- A context is made and is not stored yet. -/
def makingAfter (making : Bool) : LockEvent → Bool
  | .created => true
  | .stored => false
  | _ => making

/-- The event takes the lock. -/
def LockEvent.locks : LockEvent → Bool
  | .rdlock | .wrlock => true
  | _ => false

/-- The thread locks only what it does not hold. -/
def LockedOnce : Held → List LockEvent → Prop
  | _, [] => True
  | held, event :: events =>
      (event.locks = true → held = .free) ∧ LockedOnce (held.after event) events

/-- While a context is made the thread holds the write lock. -/
def KeptWhileMaking : Held → Bool → List LockEvent → Prop
  | _, _, [] => True
  | held, making, event :: events =>
      (makingAfter making event = true → held.after event = .writing) ∧
        KeptWhileMaking (held.after event) (makingAfter making event) events

instance LockedOnce.decidable : ∀ held events, Decidable (LockedOnce held events)
  | _, [] => isTrue trivial
  | held, event :: events =>
      have := LockedOnce.decidable (held.after event) events
      inferInstanceAs (Decidable (_ ∧ _))

instance KeptWhileMaking.decidable :
    ∀ held making events, Decidable (KeptWhileMaking held making events)
  | _, _, [] => isTrue trivial
  | held, making, event :: events =>
      have := KeptWhileMaking.decidable (held.after event) (makingAfter making event) events
      inferInstanceAs (Decidable (_ ∧ _))

/-- The lock is not taken again, and not let go while a context is made. -/
structure LockDiscipline (events : List LockEvent) : Prop where
  once : LockedOnce .free events
  kept : KeptWhileMaking .free false events

/-- The descriptor has a context. -/
def HasContext (manager : FdManager) (stray : Int → Option Nat) (fd : Int) : Prop :=
  fd < manager.datas.length ∧ (manager.entryAt stray fd).isSome = true

end Discipline

open Traced

variable {seen manager : FdManager} {stray : Int → Option Nat} {fd : Int} {stat : Option Bool}
  {flags : Flags} {success : Bool}

/-- For a descriptor the section is that of the other runs. -/
theorem lookupAt_natCast (fd : Nat) (autoCreate : Bool) :
    manager.lookupAt stray fd autoCreate = manager.lookup fd autoCreate := by
  unfold lookupAt lookup entryAt entry
  rw [if_neg (by omega : ¬ (fd : Int) < 0), Int.toNat_natCast]
  by_cases outside : manager.datas.length ≤ fd
  · rw [if_pos (by omega), List.getElem?_eq_none outside]
  · rw [if_neg (by omega), List.getElem?_eq_getElem (Nat.not_le.1 outside)]
    rfl

/-- What the constructor makes of a descriptor that has no context is what `FdCtx.init` makes. -/
theorem newFdCtx_value (fresh : manager.context (manager.getExisting stray fd).value = none) :
    (manager.newFdCtx stray fd stat flags success).value =
      ((FdCtx.init stat flags success).1, manager, (FdCtx.init stat flags success).2) := by
  have kept (address : Option Nat) : manager.write address none = manager := by
    cases address <;> rfl
  have setfl : (manager.fcntlSetfl stray fd flags (flags.setNonblock true) success).value =
      (manager, ((⟨none, flags⟩ : Descriptor).setfl (flags.setNonblock true) success).2.flags) := by
    unfold fcntlSetfl
    simp only [value_bind, fresh]
    exact Prod.ext (kept _) rfl
  unfold newFdCtx FdCtx.init initNonblock
  simp only [value_bind]
  split
  · rw [setfl]
    rfl
  · rfl

theorem lookupAt_eq_none : seen.lookupAt stray fd true = none ↔ ¬ HasContext seen stray fd := by
  unfold lookupAt HasContext
  split
  · simp only [if_true, true_iff]
    omega
  · rename_i inside
    cases held : (seen.entryAt stray fd).isSome with
    | true => simp [held]; omega
    | false => simp [held]

theorem events_getExisting (valid : fd ≠ -1) :
    (manager.getExisting stray fd).events = [.rdlock, .unlock] := by
  unfold getExisting
  rw [if_neg valid]
  rfl

/-- The constructor takes the lock for a socket that is not non-blocking yet. -/
theorem events_newFdCtx (valid : fd ≠ -1) :
    (manager.newFdCtx stray fd stat flags success).events =
      if stat = some true ∧ flags.nonblock = false then [.rdlock, .unlock] else [] := by
  have blocking : (stat.getD false && !flags.nonblock) = true ↔
      stat = some true ∧ flags.nonblock = false := by
    rw [Bool.and_eq_true_iff, Bool.not_eq_true', Option.getD_eq_iff]
    simp
  unfold newFdCtx initNonblock fcntlSetfl
  simp only [events_bind, events_pure, List.append_nil, blocking]
  split
  · rw [events_bind, events_pure, List.append_nil]
    exact events_getExisting valid
  · rfl

theorem events_get_of_hasContext (valid : fd ≠ -1) (present : HasContext seen stray fd) :
    (get seen manager stray fd true stat flags success).events = [.rdlock, .unlock] := by
  have found : seen.lookupAt stray fd true ≠ none := fun missing =>
    lookupAt_eq_none.1 missing present
  obtain ⟨address, found⟩ := Option.ne_none_iff_exists'.1 found
  unfold get
  rw [if_neg valid, found]
  rfl

theorem events_get_of_not_hasContext (valid : fd ≠ -1) (missing : ¬ HasContext seen stray fd) :
    (get seen manager stray fd true stat flags success).events =
      [.rdlock, .unlock, .wrlock, .created] ++
        ((manager.newFdCtx stray fd stat flags success).events ++ [.stored, .unlock]) := by
  unfold get
  rw [if_neg valid, lookupAt_eq_none.2 missing]
  simp only [events_bind, events_log, events_pure, List.append_nil, List.cons_append,
    List.nil_append]

/-- The lock is kept to if and only if the constructor does not call the hooked `fcntl`. -/
theorem lockDiscipline_iff (seen manager : FdManager) (stray : Int → Option Nat) (fd : Int)
    (stat : Option Bool) (flags : Flags) (success : Bool) :
    LockDiscipline (get seen manager stray fd true stat flags success).events ↔
      fd = -1 ∨ HasContext seen stray fd ∨ stat ≠ some true ∨ flags.nonblock = true := by
  by_cases none_ : fd = -1
  · refine iff_of_true ?_ (.inl none_)
    unfold get
    rw [if_pos none_]
    exact ⟨trivial, trivial⟩
  · by_cases present : HasContext seen stray fd
    · rw [events_get_of_hasContext none_ present]
      exact iff_of_true ⟨by decide, by decide⟩ (.inr (.inl present))
    · rw [events_get_of_not_hasContext none_ present, events_newFdCtx none_]
      by_cases blocking : stat = some true ∧ flags.nonblock = false
      · rw [if_pos blocking]
        refine iff_of_false (fun discipline => absurd discipline.once (by decide)) ?_
        simp [none_, present, blocking.1, blocking.2]
      · rw [if_neg blocking]
        refine iff_of_true ⟨by decide, by decide⟩ (.inr (.inr ?_))
        rw [not_and_or, Bool.not_eq_false] at blocking
        exact blocking

/-- The first call for a socket that blocks, as `socket` returns it. -/
theorem not_lockDiscipline_socket :
    ¬ LockDiscipline (get .new .new (fun _ => none) 5 true (some true) 2 true).events := by
  rintro ⟨once, -⟩
  revert once
  decide

end FdManager

end Sylar
