import Sylar.IOManager.Accounting

/-!
# Hooked calls with a timeout

`do_io` and `connect_with_timeout` of `hook.cpp`, from their first system call
to their return. Such a call arms a condition timer, registers an event and
yields; the callback of an expired timer sets `t->cancelled` and cancels the
event. The fiber, the callbacks of its timers and the other users of the
descriptor take their steps in any order.
-/

namespace Sylar.Hook

open IOManager

/-- The functions that wait with a timeout. -/
inductive Function where
  | doIo (event : Event)
  | connectWithTimeout
deriving DecidableEq, Repr

/-- The event a function waits for. -/
def Function.event : Function → Event
  | .doIo event => event
  | .connectWithTimeout => .write

/-- Where the fiber is in the function. -/
inductive Place where
  /-- The system call is next. -/
  | calling
  /-- It would block: `addConditionTimer` is next. -/
  | arming
  /-- `addEvent` is next. -/
  | adding
  /-- `addEvent` failed: `timer->cancle()` is next. -/
  | refused
  /-- `addEvent` returned 0: `YiledToHold` is next. -/
  | yielding
  | suspended
  /-- `YiledToHold` returned: `timer->cancle()` is next. -/
  | resumed
  /-- `tinfo->cancelled` is read next. -/
  | checking
  | returned
deriving DecidableEq, Repr

/-- What became of a timer, and where its callback is. -/
inductive Timer where
  /-- It is in `m_timers`. -/
  | armed
  /-- `cancle` has removed it. -/
  | cancelled
  /-- `listExpiredCb` has taken its callback. -/
  | expired
  /-- The condition is locked; `t->cancelled` is read next. -/
  | locked
  /-- `t->cancelled` is set next. -/
  | setting
  /-- `cancleEvent` is next. -/
  | cancelling
  /-- The callback has returned. -/
  | finished
deriving DecidableEq, Repr

/-- The context of the descriptor, the fiber, and the timers of its call. -/
structure State where
  ctx : FdContext
  pendingEventCount : UInt64
  place : Place
  /-- `tinfo->cancelled` is `ETIMEDOUT`, and not 0. -/
  cancelled : Bool
  /-- The timers of the call, in the order in which they were armed. -/
  timers : List Timer
deriving DecidableEq, Repr

/-- A step of `do_io`, of its timer, or of another user of the manager. -/
inductive Action where
  /-- The system call returns; `blocks` is `EAGAIN` or `EINPROGRESS`. -/
  | systemCall (blocks : Bool)
  | addConditionTimer
  /-- `success` is the answer of `epoll_ctl`. -/
  | addEvent (success : Bool)
  | yieldToHold
  /-- A worker that found the fiber scheduled resumes it. -/
  | resume
  | cancleTimer
  | readCancelled
  /-- The timer expires. -/
  | listExpiredCb (timer : Nat)
  /-- `OnTimer` locks the condition. -/
  | lockCondition (timer : Nat)
  /-- The callback reads `t->cancelled`. -/
  | callbackRead (timer : Nat)
  /-- The callback sets `t->cancelled`. -/
  | callbackSet (timer : Nat)
  /-- The callback calls `cancleEvent`. -/
  | callbackCancle (timer : Nat) (success : Bool)
  /-- Another user of the descriptor runs a section of the `IOManager`. -/
  | other (call : Call) (success : Bool)
deriving DecidableEq, Repr

/-- A call made outside of the fiber, by a thread that has a scheduler. -/
def Foreign (fiber : FiberId) : Call → Prop
  | .addEvent caller _ _ => caller.scheduler.isSome ∧ caller.fiber ≠ fiber
  | _ => True

instance (fiber : FiberId) (call : Call) : Decidable (Foreign fiber call) := by
  cases call <;> unfold Foreign <;> infer_instance

namespace State

/-- Change one timer. -/
def setTimer (s : State) (timer : Nat) (stage : Timer) : State :=
  { s with timers := s.timers.set timer stage }

/-- `timer->cancle()` for the timer armed last. It does nothing once the
callback was taken. -/
def cancleTimer (s : State) : State :=
  if s.timers.getLast? = some .armed then
    { s with timers := s.timers.dropLast ++ [.cancelled] }
  else s

/-- Run a section on the context. A failed assertion ends the process. -/
def runSection {α : Type} (s : State) (body : Section Unit α) : Option (α × State) :=
  match EStateM.run body ⟨s.ctx, s.pendingEventCount, (), [], []⟩ with
  | .ok answer after =>
      some (answer, { s with ctx := after.ctx, pendingEventCount := after.pendingEventCount })
  | .error _ _ => none

/-- The call of a function by a running fiber. -/
def step (caller : RunningFiber) (function : Function) (s : State) : Action → Option State
  | .systemCall blocks =>
      if s.place = .calling then
        some { s with place := if blocks then .arming else .returned }
      else none
  | .addConditionTimer =>
      if s.place = .arming then
        some { s with place := .adding, timers := s.timers ++ [.armed] }
      else none
  | .addEvent success =>
      if s.place = .adding then
        (s.runSection (IOManager.addEvent (fun kernel _ _ => (success, kernel)) caller.caller
          function.event none)).map fun (rt, after) =>
            { after with place := if rt = 0 then .yielding else .refused }
      else none
  | .yieldToHold =>
      if s.place = .yielding then some { s with place := .suspended } else none
  | .resume =>
      if s.place = .suspended then some { s with place := .resumed } else none
  | .cancleTimer =>
      match s.place with
      | .resumed => some { s.cancleTimer with place := .checking }
      | .refused => some { s.cancleTimer with place := .returned }
      | _ => none
  | .readCancelled =>
      if s.place = .checking then
        if s.cancelled then some { s with place := .returned }
        else
          match function with
          -- `goto retry`
          | .doIo _ => some { s with place := .calling }
          | .connectWithTimeout => some { s with place := .returned }
      else none
  | .listExpiredCb timer =>
      if s.timers[timer]? = some .armed then some (s.setTimer timer .expired) else none
  | .lockCondition timer =>
      if s.timers[timer]? = some .expired then
        -- the call owns its `timer_info` until it returns
        some (s.setTimer timer (if s.place = .returned then .finished else .locked))
      else none
  | .callbackRead timer =>
      if s.timers[timer]? = some .locked then
        some (s.setTimer timer (if s.cancelled then .finished else .setting))
      else none
  | .callbackSet timer =>
      if s.timers[timer]? = some .setting then
        some { s.setTimer timer .cancelling with cancelled := true }
      else none
  | .callbackCancle timer success =>
      if s.timers[timer]? = some .cancelling then
        (s.runSection (IOManager.cancleEvent (fun kernel _ _ => (success, kernel))
          function.event)).map fun (_, after) => after.setTimer timer .finished
      else none
  | .other call success =>
      if Foreign caller.fiber call then
        (s.runSection (call.run success)).map fun (_, after) => after
      else none

/-- The call begins; nothing was registered for the descriptor yet. -/
def initial : State := ⟨.new, 0, .calling, false, []⟩

end State

end Sylar.Hook
