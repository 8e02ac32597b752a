import Sylar.FdManager.Model
import Sylar.Hook.Timeout

/-!
# Descriptor numbers that are used again

A call of `do_io` on a number, while other fibers close the number and open it
again. `close` cancels the events, which only schedules the waiting fiber, and
deletes the `FdCtx`; `do_io` reads the context once and calls the original function
again when it resumes. Every file that is opened gets an identity of its own here, so
that a run shows which of them the original function was called on.
-/

namespace Sylar.Hook

open IOManager Library

/-- What the original function answers. -/
inductive Answer where
  /-- -1 with `EINTR`. -/
  | interrupted
  /-- -1 with `EAGAIN`. -/
  | blocks
  /-- -1 with any other error. -/
  | error
  | done
deriving DecidableEq, Repr

/-- What another fiber does next with the number. -/
inductive Activity where
  /-- In `close`: `iom->cancleAll(fd)`. -/
  | cancelling
  /-- In `close`: `FdMgr::del(fd)`. -/
  | deleting
  /-- In `close`: `close_f(fd)`. -/
  | closing
  /-- In `socket` or `accept`: the section of `FdMgr::get(fd, true)` that looks. -/
  | getting
  /-- In `socket` or `accept`: the section of `FdMgr::get(fd, true)` that creates. -/
  | creating
  | ended
deriving DecidableEq, Repr

/-- What `do_io` found out about the number at its start. -/
inductive Mode where
  | outside
  /-- `return fun(fd, ...)`. -/
  | passing
  /-- It waits, with a timeout. -/
  | waiting (timeout : UInt64)
deriving DecidableEq, Repr

/-- A number of a descriptor, the operation on it and what the others do with it. -/
structure SharedNumber where
  manager : FdManager
  /-- The open file of the number. -/
  file : Option Nat
  /-- How many files have been opened. -/
  opened : Nat
  others : List Activity
  mode : Mode
  call : State
  /-- `do_io` returned -1. -/
  failed : Bool
  /-- The files the original function was called on, in the order of the calls. -/
  touched : List Nat
  /-- The number was given to another file between the first call and the return. -/
  reused : Bool
deriving DecidableEq, Repr

namespace SharedNumber

/-- A step of `do_io`, of the other fibers, or of the kernel with the number. -/
inductive Action where
  | doIo (hookEnable : Bool) (timeoutSo : TimeoutType)
  | systemCall (answer : Answer)
  /-- The timeout is -1, and `addConditionTimer` is left out. -/
  | skipTimer
  /-- A step of the wait, or of the other users of the `IOManager`. -/
  | wait (action : Hook.Action)
  /-- The hooked `close` is called, by a thread with an `IOManager` or without one. -/
  | close (hasManager : Bool)
  /-- The hooked `socket` or `accept` has the number from the kernel. -/
  | opens
  /-- Another fiber goes on. -/
  | advance (activity : Nat) (success : Bool)
deriving DecidableEq, Repr

/-- `FdMgr::GetInstance()->get(fd)`. -/
def get (s : SharedNumber) (fd : Nat) : Option FdCtx :=
  s.manager.context (s.manager.lookup fd false).join

/-- `do_io` returns. -/
def returns (s : SharedNumber) (failed : Bool) : SharedNumber :=
  { s with call := { s.call with place := .returned }, failed }

/-- The call of the original function, up to its answer. -/
def touch (s : SharedNumber) : SharedNumber := { s with touched := s.touched ++ s.file.toList }

/-- `do_io` has called the original function and has not returned. -/
def inProgress (s : SharedNumber) : Bool := !s.touched.isEmpty && s.call.place != .returned

/-- `do_io` returns -1 in this step of the wait. -/
def fails (s : SharedNumber) : Hook.Action → Bool
  | .cancleTimer => s.call.place == .refused
  | .readCancelled => s.call.cancelled
  | _ => false

/-- The steps of the wait that `do_io` takes with its timeout. -/
def admits (s : SharedNumber) : Hook.Action → Bool
  | .systemCall _ => false
  | .addConditionTimer => s.mode != .waiting (~~~0)
  | _ => true

/-- A step of a call on the number `fd`. -/
def step (caller : RunningFiber) (event : Event) (fd : Nat) (s : SharedNumber) :
    Action → Option SharedNumber
  | .doIo hookEnable timeoutSo =>
      if s.mode = .outside then
        if hookEnable then
          match s.get fd with
          | none => some { s with mode := .passing }
          | some ctx =>
              if ctx.isClosed then some ({ s with mode := .passing }.returns true)
              else if !ctx.isSocket || ctx.userNonblock then some { s with mode := .passing }
              else some { s with mode := .waiting (ctx.getTimeout timeoutSo) }
        else some { s with mode := .passing }
      else none
  | .systemCall answer =>
      -- a number without a file gives `EBADF`
      if s.call.place = .calling ∧ s.mode ≠ .outside ∧ (s.file = none → answer = .error) then
        match answer, s.mode with
        | .interrupted, .waiting _ => some s.touch
        | .blocks, .waiting _ =>
            (s.call.step caller (.doIo event) (.systemCall true)).map fun call =>
              { s.touch with call }
        | .done, _ => some (s.touch.returns false)
        | _, _ => some (s.touch.returns true)
      else none
  | .skipTimer =>
      if s.call.place = .arming ∧ s.mode = .waiting (~~~0) then
        some { s with call := { s.call with place := .adding } }
      else none
  | .wait action =>
      if s.admits action then
        (s.call.step caller (.doIo event) action).map fun call =>
          { s with call, failed := s.failed || s.fails action }
      else none
  | .close hasManager =>
      let next := match s.get fd, hasManager with
        | none, _ => .closing
        | some _, true => .cancelling
        | some _, false => .deleting
      some { s with others := s.others ++ [next] }
  | .opens =>
      -- the kernel returns a number that is free
      if s.file = none then
        some { s with
          file := some s.opened
          opened := s.opened + 1
          others := s.others ++ [.getting]
          reused := s.reused || s.inProgress }
      else none
  | .advance activity success =>
      match s.others[activity]? with
      | some .cancelling =>
          (s.call.step caller (.doIo event) (.other .cancleAll success)).map fun call =>
            { s with call, others := s.others.set activity .deleting }
      | some .deleting =>
          some { s with manager := s.manager.del fd, others := s.others.set activity .closing }
      | some .closing => some { s with file := none, others := s.others.set activity .ended }
      | some .getting =>
          let next := match s.manager.lookup fd true with
            | none => .creating
            | some _ => .ended
          some { s with others := s.others.set activity next }
      | some .creating =>
          -- whether the file was nonblocking before is not kept in the context
          let ctx := (FdCtx.init (s.file.map fun _ => true) 0 true).1
          some { s with
            manager := s.manager.create fd ctx
            others := s.others.set activity .ended }
      | some .ended | none => none

/-- `do_io` is called on the number of an open file. -/
def initial (manager : FdManager) : SharedNumber :=
  ⟨manager, some 0, 1, [], .outside, .initial, false, [], false⟩

/-- The original function is called on no other file than at first, and when the number was
reused in the meantime the operation returns an error. -/
structure Safe (s : SharedNumber) : Prop where
  untouched : ∀ file ∈ s.touched, s.touched.head? = some file
  fails : s.reused = true → s.call.place = .returned → s.failed = true

/-- The number has a file, and not the one of the first call. -/
def Stale (s : SharedNumber) : Prop := s.file ≠ none ∧ s.file ≠ s.touched.head?

instance (s : SharedNumber) : Decidable s.Stale := inferInstanceAs (Decidable (_ ∧ _))

/-- When `do_io` reads `tinfo->cancelled` with a stale number a timer has set it, and the number
is not reused between that and the next call. -/
def Checked (s : SharedNumber) : Action → Prop
  | .wait .readCancelled => s.call.place = .checking → s.Stale → s.call.cancelled = true
  | .opens => s.file = none → s.touched ≠ [] → s.call.place ≠ .calling
  | _ => True

instance (s : SharedNumber) (action : Action) : Decidable (s.Checked action) := by
  unfold Checked
  split <;> infer_instance

end SharedNumber

section Places

variable {caller : RunningFiber} {event : Event} {s t : State}

/-- A step of the wait leads to the next call only past `tinfo->cancelled`, and to the return
only with an error. Outside of the wait it stays where it is. -/
theorem State.place_of_step {action : Hook.Action} (waits : ∀ blocks, action ≠ .systemCall blocks)
    (taken : s.step caller (.doIo event) action = some t) :
    (t.place = .calling → s.place = .calling ∨
      action = .readCancelled ∧ s.place = .checking ∧ s.cancelled = false) ∧
    (t.place = .returned → s.place = .returned ∨
      action = .cancleTimer ∧ s.place = .refused ∨
        action = .readCancelled ∧ s.cancelled = true) ∧
    (s.place = .calling ∨ s.place = .returned → t.place = s.place) := by
  cases action with
  | systemCall blocks => exact absurd rfl (waits blocks)
  | addConditionTimer | yieldToHold | resume =>
      simp only [step] at taken
      split at taken
      · rename_i place
        cases taken
        exact ⟨by rintro ⟨⟩, by rintro ⟨⟩, by simp [place]⟩
      · cases taken
  | addEvent success =>
      simp only [step] at taken
      split at taken
      · rename_i adding
        obtain ⟨⟨rt, after⟩, -, rfl⟩ := Option.map_eq_some_iff.mp taken
        refine ⟨?_, ?_, by simp [adding]⟩
        · split <;> rintro ⟨⟩
        · split <;> rintro ⟨⟩
      · cases taken
  | cancleTimer =>
      simp only [step] at taken
      split at taken
      · rename_i resumed
        cases taken
        exact ⟨by rintro ⟨⟩, by rintro ⟨⟩, by simp [resumed]⟩
      · rename_i refused
        cases taken
        exact ⟨by rintro ⟨⟩, fun _ => .inr (.inl ⟨rfl, refused⟩), by simp [refused]⟩
      · cases taken
  | readCancelled =>
      simp only [step] at taken
      split at taken
      · rename_i checking
        split at taken
        · rename_i set
          cases taken
          exact ⟨by rintro ⟨⟩, fun _ => .inr (.inr ⟨rfl, set⟩), by simp [checking]⟩
        · rename_i unset
          cases taken
          exact ⟨fun _ => .inr ⟨rfl, checking, by simpa using unset⟩, by rintro ⟨⟩,
            by simp [checking]⟩
      · cases taken
  | listExpiredCb timer | lockCondition timer | callbackRead timer | callbackSet timer =>
      simp only [step] at taken
      split at taken <;> cases taken
      exact ⟨.inl, .inl, fun _ => rfl⟩
  | callbackCancle timer success =>
      simp only [step] at taken
      split at taken
      · obtain ⟨⟨answer, after⟩, ran, rfl⟩ := Option.map_eq_some_iff.mp taken
        obtain ⟨result, -, rfl⟩ := runSection_ok ran
        exact ⟨.inl, .inl, fun _ => rfl⟩
      · cases taken
  | other call success =>
      simp only [step] at taken
      split at taken
      · obtain ⟨⟨answer, after⟩, ran, rfl⟩ := Option.map_eq_some_iff.mp taken
        obtain ⟨result, -, rfl⟩ := runSection_ok ran
        exact ⟨.inl, .inl, fun _ => rfl⟩
      · cases taken

end Places

namespace SharedNumber

-- the equations of `step` are needed in every proof below
attribute [local simp] step

variable {caller : RunningFiber} {event : Event} {fd : Nat} {s t : SharedNumber}

/-- The operation is on its own file, and when it has lost its number it fails. -/
structure Own (s : SharedNumber) : Prop where
  fresh : ∀ file ∈ s.file, file < s.opened
  known : ∀ file ∈ s.touched, file < s.opened
  begun : s.call.place ≠ .calling → s.call.place ≠ .returned → s.touched ≠ []
  entered : s.touched ≠ [] → s.mode ≠ .outside
  untouched : ∀ file ∈ s.touched, s.touched.head? = some file
  held : s.call.place = .calling → s.touched ≠ [] → ¬s.Stale
  lost : s.reused = true → s.touched ≠ [] ∧ s.file ≠ s.touched.head?
  fails : s.reused = true → s.call.place = .returned → s.failed = true

theorem Own.safe (own : s.Own) : s.Safe := ⟨own.untouched, own.fails⟩

theorem own_initial (manager : FdManager) : (initial manager).Own where
  fresh := by
    rintro file ⟨⟩
    exact Nat.one_pos
  known := by rintro file ⟨⟩
  begun := fun waits => absurd rfl waits
  entered := fun begun => absurd rfl begun
  untouched := by rintro file ⟨⟩
  held := fun _ begun => absurd rfl begun
  lost := by rintro ⟨⟩
  fails := by rintro ⟨⟩

/-- The operation goes on, or returns with an error. -/
theorem Own.moved {call : State} {failed : Bool} (own : s.Own)
    (calling : call.place = .calling → s.call.place = .calling ∨ ¬s.Stale)
    (waits : call.place ≠ .calling → call.place ≠ .returned → s.touched ≠ [])
    (kept : s.failed = true → failed = true)
    (returned : call.place = .returned → s.call.place = .returned ∨ failed = true) :
    Own { s with call, failed } where
  fresh := own.fresh
  known := own.known
  begun := waits
  entered := own.entered
  untouched := own.untouched
  held place begun := (calling place).elim (own.held · begun) id
  lost := own.lost
  fails reused place := (returned place).elim (fun before => kept (own.fails reused before)) id

theorem Own.returns (own : s.Own) {failed : Bool} (honest : s.reused = true → failed = true) :
    (s.returns failed).Own where
  fresh := own.fresh
  known := own.known
  begun := fun _ returned => absurd rfl returned
  entered := own.entered
  untouched := own.untouched
  held := by rintro ⟨⟩
  lost := own.lost
  fails reused _ := honest reused

/-- An operation that is about to call on an open file has not lost its number. -/
theorem Own.mine (own : s.Own) (calling : s.call.place = .calling) (open_ : s.file ≠ none) :
    s.reused = false := by
  rw [Bool.eq_false_iff]
  intro reused
  obtain ⟨begun, other⟩ := own.lost reused
  exact own.held calling begun ⟨open_, other⟩

/-- A call on the file of the number is a call on the file of the first call. -/
theorem Own.head_touch (own : s.Own) (calling : s.call.place = .calling) {file : Nat}
    (open_ : s.file = some file) : s.touch.touched.head? = some file := by
  rw [touch, open_]
  by_cases begun : s.touched = []
  · rw [begun]
    rfl
  · have same : s.file = s.touched.head? :=
      not_not.mp fun other => own.held calling begun ⟨by simp [open_], other⟩
    rw [List.head?_append, ← same, open_]
    rfl

theorem Own.touch (own : s.Own) (calling : s.call.place = .calling)
    (entered : s.mode ≠ .outside) : s.touch.Own := by
  cases open_ : s.file with
  | none =>
      have same : s.touched ++ s.file.toList = s.touched := by
        rw [open_]
        exact List.append_nil _
      rwa [SharedNumber.touch, same]
  | some file =>
      have head := own.head_touch calling open_
      have touched : s.touch.touched = s.touched ++ [file] := by simp [SharedNumber.touch, open_]
      have mine : s.reused = false := own.mine calling (by simp [open_])
      exact {
        fresh := own.fresh
        known := fun other member => by
          rw [touched, List.mem_append, List.mem_singleton] at member
          rcases member with before | rfl
          · exact own.known other before
          · exact own.fresh other open_
        begun := fun waits => absurd calling waits
        entered := fun _ => entered
        untouched := fun other member => by
          rw [touched, List.mem_append, List.mem_singleton] at member
          rcases member with before | rfl
          · rw [touched, List.head?_append, own.untouched other before]
            rfl
          · exact head
        held := fun _ _ stale => stale.2 (open_.trans head.symm)
        lost := fun reused => absurd reused (by simp [SharedNumber.touch, mine])
        fails := own.fails }

theorem Own.systemCall {answer : Answer} (own : s.Own)
    (taken : s.step caller event fd (.systemCall answer) = some t) : t.Own := by
  simp only [step] at taken
  split at taken
  · rename_i possible
    obtain ⟨calling, entered, closed⟩ := possible
    have touched := own.touch calling entered
    have mine (apart : answer ≠ .error) : s.reused = false :=
      own.mine calling fun none_ => apart (closed none_)
    split at taken
    · cases taken
      exact touched
    · rename_i timeout mode
      obtain ⟨call, ran, rfl⟩ := Option.map_eq_some_iff.mp taken
      rw [State.step, if_pos calling] at ran
      cases ran
      obtain ⟨file, open_⟩ := Option.ne_none_iff_exists'.mp fun none_ =>
        absurd (closed none_) (by rintro ⟨⟩)
      refine touched.moved (by rintro ⟨⟩) (fun _ _ empty => ?_) id (by rintro ⟨⟩)
      have head := own.head_touch calling open_
      rw [empty] at head
      cases head
    · cases taken
      exact touched.returns fun reused => absurd reused (Bool.eq_false_iff.mp (mine (by rintro ⟨⟩)))
    · cases taken
      exact touched.returns fun _ => rfl
  · cases taken

theorem Own.wait {action : Hook.Action} (own : s.Own) (checked : s.Checked (.wait action))
    (taken : s.step caller event fd (.wait action) = some t) : t.Own := by
  simp only [step] at taken
  split at taken
  · rename_i admitted
    obtain ⟨call, ran, rfl⟩ := Option.map_eq_some_iff.mp taken
    have waits (blocks : Bool) : action ≠ .systemCall blocks := by
      rintro rfl
      cases admitted
    obtain ⟨calls, returns, stays⟩ := State.place_of_step waits ran
    refine own.moved (fun calling => ?_) (fun calling returned => own.begun ?_ ?_) ?_ ?_
    · refine (calls calling).imp_right ?_
      rintro ⟨rfl, checking, unset⟩ stale
      exact absurd (checked checking stale) (by simp [unset])
    · exact fun before => calling ((stays (.inl before)).trans before)
    · exact fun before => returned ((stays (.inr before)).trans before)
    · exact fun failed => by rw [failed, Bool.true_or]
    · intro returned
      refine (returns returned).imp_right ?_
      rintro (⟨rfl, refused⟩ | ⟨rfl, set⟩)
      · simp [SharedNumber.fails, refused]
      · simp [SharedNumber.fails, set]
  · cases taken

theorem Own.opens (own : s.Own) (checked : s.Checked .opens)
    (taken : s.step caller event fd .opens = some t) : t.Own := by
  simp only [step] at taken
  split at taken
  · rename_i free
    cases taken
    have other {file : Nat} (head : s.touched.head? = some file) : file ≠ s.opened :=
      Nat.ne_of_lt (own.known file (List.mem_of_mem_head? head))
    exact {
      fresh := fun file same => by
        cases same
        exact Nat.lt_succ_self _
      known := fun file member => Nat.lt_succ_of_lt (own.known file member)
      begun := own.begun
      entered := own.entered
      untouched := own.untouched
      held := fun calling begun => absurd calling (checked free begun)
      lost := fun reused => by
        have begun : s.touched ≠ [] := by
          rcases Bool.or_eq_true_iff.mp reused with before | now
          · exact (own.lost before).1
          · rw [inProgress, Bool.and_eq_true, Bool.not_eq_true', List.isEmpty_eq_false_iff] at now
            exact now.1
        exact ⟨begun, fun same => other same.symm rfl⟩
      fails := fun reused returned => by
        rcases Bool.or_eq_true_iff.mp reused with before | now
        · exact own.fails before returned
        · have returned : s.call.place = .returned := returned
          simp [inProgress, returned] at now }
  · cases taken

theorem Own.advance {activity : Nat} {success : Bool} (own : s.Own)
    (taken : s.step caller event fd (.advance activity success) = some t) : t.Own := by
  simp only [step] at taken
  split at taken
  · -- `cancleAll` leaves `do_io` where it is
    obtain ⟨call, ran, rfl⟩ := Option.map_eq_some_iff.mp taken
    obtain ⟨calls, returns, stays⟩ := State.place_of_step (by rintro _ ⟨⟩) ran
    have moved : Own { s with call, failed := s.failed } := by
      refine own.moved (fun calling => ?_) (fun calling returned => own.begun ?_ ?_) id ?_
      · refine (calls calling).imp_right ?_
        rintro ⟨⟨⟩, -⟩
      · exact fun before => calling ((stays (.inl before)).trans before)
      · exact fun before => returned ((stays (.inr before)).trans before)
      · refine fun returned => (returns returned).imp_right ?_
        rintro (⟨⟨⟩, -⟩ | ⟨⟨⟩, -⟩)
    exact { moved with }
  · cases taken
    exact { own with }
  · cases taken
    exact {
      fresh := by rintro file ⟨⟩
      known := own.known
      begun := own.begun
      entered := own.entered
      untouched := own.untouched
      held := fun _ _ stale => stale.1 rfl
      lost := fun reused => by
        obtain ⟨begun, -⟩ := own.lost reused
        exact ⟨begun, fun same => begun (List.head?_eq_none_iff.mp same.symm)⟩
      fails := own.fails }
  · cases taken
    exact { own with }
  · cases taken
    exact { own with }
  · cases taken
  · cases taken

theorem Own.doIo {hookEnable : Bool} {timeoutSo : TimeoutType} (own : s.Own)
    (taken : s.step caller event fd (.doIo hookEnable timeoutSo) = some t) : t.Own := by
  have entered {mode : Mode} (inside : mode ≠ .outside) : Own { s with mode } :=
    { own with entered := fun _ => inside }
  simp only [step] at taken
  split at taken
  · split at taken
    · split at taken
      · cases taken
        exact entered (by rintro ⟨⟩)
      · split at taken
        · cases taken
          exact (entered (by rintro ⟨⟩)).returns fun _ => rfl
        · split at taken
          · cases taken
            exact entered (by rintro ⟨⟩)
          · cases taken
            exact entered (by rintro ⟨⟩)
    · cases taken
      exact entered (by rintro ⟨⟩)
  · cases taken

theorem Own.skipTimer (own : s.Own)
    (taken : s.step caller event fd .skipTimer = some t) : t.Own := by
  simp only [step] at taken
  split at taken
  · rename_i arming
    cases taken
    have begun : s.touched ≠ [] := own.begun (by simp [arming.1]) (by simp [arming.1])
    exact own.moved (by rintro ⟨⟩) (fun _ _ => begun) id (by rintro ⟨⟩)
  · cases taken

/-- Every checked step keeps the operation on its own file. -/
theorem Own.step {action : Action} (own : s.Own) (checked : s.Checked action)
    (taken : s.step caller event fd action = some t) : t.Own := by
  cases action with
  | doIo hookEnable timeoutSo => exact own.doIo taken
  | systemCall answer => exact own.systemCall taken
  | skipTimer => exact own.skipTimer taken
  | wait action => exact own.wait checked taken
  | close hasManager =>
      cases taken
      exact { own with }
  | opens => exact own.opens checked taken
  | advance activity success => exact own.advance taken

/-- Some continuation calls the original function on another file. -/
abbrev Doomed (caller : RunningFiber) (event : Event) (fd : Nat) (s : SharedNumber) : Prop :=
  Library.Doomed (step caller event fd) Safe s

/-- The next call is on a file that is not the one of the first call. -/
theorem doomed_of_stale (calling : s.call.place = .calling) (entered : s.mode ≠ .outside)
    (begun : s.touched ≠ []) (stale : s.Stale) : s.Doomed caller event fd := by
  obtain ⟨file, open_⟩ := Option.ne_none_iff_exists'.mp stale.1
  obtain ⟨began, later, touched⟩ := List.exists_cons_of_ne_nil begun
  refine Library.Doomed.of_step (.systemCall .done) (t := s.touch.returns false) ?_ ?_
  · simp only [step]
    rw [if_pos ⟨calling, entered, fun none_ => absurd none_ stale.1⟩]
  · refine Library.Doomed.of_not fun safe => ?_
    have member : file ∈ s.touched ++ s.file.toList := by simp [open_]
    have head := safe.untouched file member
    change (s.touched ++ s.file.toList).head? = some file at head
    rw [touched, List.cons_append, List.head?_cons] at head
    exact stale.2 (by rw [open_, touched, List.head?_cons, head])

/-- After a step that is not checked the original function can be called on another file. -/
theorem unchecked_doomed {action : Action} (own : s.Own) (unchecked : ¬s.Checked action)
    (taken : s.step caller event fd action = some t) : t.Doomed caller event fd := by
  cases action with
  | opens =>
      simp only [Checked, Classical.not_imp, not_not] at unchecked
      obtain ⟨free, begun, calling⟩ := unchecked
      simp only [step, if_pos free] at taken
      cases taken
      refine doomed_of_stale calling (own.entered begun) begun ⟨by rintro ⟨⟩, fun same => ?_⟩
      exact Nat.lt_irrefl _ (own.known s.opened (List.mem_of_mem_head? same.symm))
  | wait action =>
      cases action with
      | readCancelled =>
          simp only [Checked, Classical.not_imp] at unchecked
          obtain ⟨checking, stale, unset⟩ := unchecked
          have begun : s.touched ≠ [] := own.begun (by simp [checking]) (by simp [checking])
          have admitted : s.admits .readCancelled = true := rfl
          simp only [step, if_pos admitted, State.step, if_pos checking, if_neg unset,
            Option.map_some] at taken
          cases taken
          exact doomed_of_stale rfl (own.entered begun) begun stale
      | systemCall | addConditionTimer | addEvent | yieldToHold | resume | cancleTimer
      | listExpiredCb | lockCondition | callbackRead | callbackSet | callbackCancle | other =>
          exact absurd trivial unchecked
  | doIo | systemCall | skipTimer | close | advance => exact absurd trivial unchecked

/-- An operation never touches the file of a reused number in a run whose steps are checked, and
after the first one that is not the next call of the original function can be on that file. -/
theorem reused_untouched (caller : RunningFiber) (event : Event) (fd : Nat) (manager : FdManager)
    (actions : List Action)
    (checked : Guarded (step caller event fd) Checked (initial manager) actions) :
    Along (step caller event fd) Safe (initial manager) actions ∧
      ∀ s action t, exec (step caller event fd) (initial manager) actions = some s →
        ¬s.Checked action → s.step caller event fd action = some t →
          ∃ more, ¬Along (step caller event fd) Safe t more := by
  have along : Along (step caller event fd) Own (initial manager) actions :=
    along_of_guarded (fun own now taken => own.step now taken) (own_initial manager) checked
  refine ⟨along.mono fun _ => Own.safe, fun s action t reached unchecked taken => ?_⟩
  exact unchecked_doomed (along.exec reached) unchecked taken

section Runs

/-- Number 3 is a socket with a context. -/
def oneSocket (recvTimeout : UInt64) : FdManager :=
  ⟨[⟨true, true, true, false, false, recvTimeout, -1⟩], [none, none, none, some 0]⟩

/-- Another fiber closes the number, and a third one gets it from `socket`. -/
def closeAndReuse : List Action :=
  [.close true, .advance 0 true, .advance 0 true, .advance 0 true, .opens, .advance 1 true,
    .advance 1 true]

/-- The number is reused, and the timer of the operation expires before the fiber resumes. -/
def timedOut : List Action :=
  [.doIo true .recv, .systemCall .blocks, .wait .addConditionTimer, .wait (.addEvent true),
    .wait .yieldToHold] ++ closeAndReuse ++
    [.wait (.listExpiredCb 0), .wait (.lockCondition 0), .wait (.callbackRead 0),
      .wait (.callbackSet 0), .wait (.callbackCancle 0 true), .wait .resume, .wait .cancleTimer,
      .wait .readCancelled]

/-- The number is reused, and there is no timer: the fiber resumes and calls `read` again. -/
def readAgain : List Action :=
  [.doIo true .recv, .systemCall .blocks, .skipTimer, .wait (.addEvent true),
    .wait .yieldToHold] ++ closeAndReuse ++
    [.wait .resume, .wait .cancleTimer, .wait .readCancelled, .systemCall .done]

theorem reused_untouched_timedOut :
    (exec (step ⟨7, 1⟩ .read 3) (initial (oneSocket 100)) timedOut).isSome = true ∧
      Along (step ⟨7, 1⟩ .read 3) Safe (initial (oneSocket 100)) timedOut :=
  ⟨by decide, (reused_untouched _ _ _ _ _ (by decide)).1⟩

/-- The second `read` is on the new socket. -/
theorem reused_touched :
    ¬Along (step ⟨7, 1⟩ .read 3) Safe (initial (oneSocket (-1))) readAgain := by
  intro along
  have final := (along.exec rfl).untouched
  exact absurd final (by decide)

end Runs

end SharedNumber

end Sylar.Hook
