import Mathlib.Algebra.GroupWithZero.Nat
import Sylar.Scheduler.Model

/-!
# Events of file descriptors

The part of `iomanager.cpp` that runs under the lock of one `FdContext`:
`addEvent`, `delEvent`, `cancleEvent`, `cancleAll`, and what `idle` does for one
reported descriptor. The answers of `epoll_ctl` come from a parameter, so that
the same text is used with a kernel that keeps an interest set and with one that
may fail at any time.
-/

namespace Sylar

namespace IOManager

/-- `READ` and `WRITE` of the enumeration `Event`; `NONE` is the empty `Events`. -/
inductive Event where
  | read | write
deriving DecidableEq, Repr

/-- A value of type `Event` used as a set of bits. -/
structure Events where
  read : Bool
  write : Bool
deriving DecidableEq, Repr

namespace Events

def none : Events := ⟨false, false⟩

/-- `events & event`. -/
def has (events : Events) : Event → Bool
  | .read => events.read
  | .write => events.write

/-- `events | event`. -/
def insert (events : Events) : Event → Events
  | .read => { events with read := true }
  | .write => { events with write := true }

/-- `events & ~event`. -/
def erase (events : Events) : Event → Events
  | .read => { events with read := false }
  | .write => { events with write := false }

/-- `events & ~others`. -/
def diff (events others : Events) : Events :=
  ⟨events.read && !others.read, events.write && !others.write⟩

/-- `(events & others) == NONE`. -/
def disjoint (events others : Events) : Bool :=
  !(events.read && others.read) && !(events.write && others.write)

/-- How many bits are set. -/
def count (events : Events) : Nat := events.read.toNat + events.write.toNat

end Events

/-- `epoll_event::events`. -/
structure Mask where
  epollin : Bool
  epollout : Bool
  epollerr : Bool
  epollhup : Bool
  epollet : Bool
deriving DecidableEq, Repr

/-- `READ` is `EPOLLIN` and `WRITE` is `EPOLLOUT`. -/
def Events.mask (events : Events) : Mask := ⟨events.read, events.write, false, false, false⟩

namespace Mask

/-- `EPOLLIN`. -/
def in_ : Mask := ⟨true, false, false, false, false⟩

/-- `EPOLLET`. -/
def et : Mask := ⟨false, false, false, false, true⟩

/-- `mask | other`. -/
def or (mask other : Mask) : Mask :=
  ⟨mask.epollin || other.epollin, mask.epollout || other.epollout,
    mask.epollerr || other.epollerr, mask.epollhup || other.epollhup,
    mask.epollet || other.epollet⟩

/-- The bits `EPOLLIN` and `EPOLLOUT`. -/
def events (mask : Mask) : Events := ⟨mask.epollin, mask.epollout⟩

end Mask

/-- `EPOLL_CTL_ADD`, `EPOLL_CTL_MOD` and `EPOLL_CTL_DEL`. -/
inductive EpollOp where
  | add | mod | del
deriving DecidableEq, Repr

/-- Schedulers, fibers and callbacks are known by their addresses. -/
abbrev SchedulerId := Nat
abbrev FiberId := Nat
abbrev CallbackId := Nat

/-- What is given to `schedule`. -/
inductive Scheduled where
  | fiber (fiber : FiberId)
  | cb (cb : CallbackId)
deriving DecidableEq, Repr

structure EventContext where
  scheduler : Option SchedulerId
  fiber : Option FiberId
  cb : Option CallbackId
deriving DecidableEq, Repr

/-- What `resetContext` leaves. -/
def EventContext.empty : EventContext := ⟨none, none, none⟩

structure FdContext where
  read : EventContext
  write : EventContext
  events : Events
deriving DecidableEq, Repr

namespace FdContext

/-- The constructor. -/
def new : FdContext := ⟨.empty, .empty, .none⟩

def getContext (ctx : FdContext) : Event → EventContext
  | .read => ctx.read
  | .write => ctx.write

/-- Change the context of one event. -/
def setContext (ctx : FdContext) (event : Event) (context : EventContext) : FdContext :=
  match event with
  | .read => { ctx with read := context }
  | .write => { ctx with write := context }

/-- `resetContext(getContext(event))`. -/
def resetContext (ctx : FdContext) (event : Event) : FdContext := ctx.setContext event .empty

end FdContext

/-- How a locked section can end the process. -/
inductive Fault where
  /-- A `SYLAR_ASSERT` failed. -/
  | assertion
  /-- `ctx.scheduler->schedule` was called on a null scheduler. -/
  | nullScheduler
deriving DecidableEq, Repr

/-- What a locked section of one `FdContext` works on. `κ` is the kernel. -/
structure Locked (κ : Type) where
  ctx : FdContext
  pendingEventCount : UInt64
  kernel : κ
  /-- The calls of `schedule`, in order. -/
  scheduled : List (SchedulerId × Scheduled)
  /-- The calls of `triggerEvent`, in order. -/
  triggered : List Event
deriving DecidableEq, Repr

/-- The caller of `addEvent`: `Scheduler::GetThis()` and `Fiber::GetThis()`. -/
structure Caller where
  scheduler : Option SchedulerId
  fiber : FiberId
  state : FiberState
deriving DecidableEq, Repr

/-- A fiber that runs on a worker, and so has a scheduler and the state `EXEC`. -/
structure RunningFiber where
  scheduler : SchedulerId
  fiber : FiberId
deriving DecidableEq, Repr

/-- What a call sees of the fiber that makes it. -/
def RunningFiber.caller (running : RunningFiber) : Caller :=
  ⟨some running.scheduler, running.fiber, .exec⟩

section

variable {κ : Type}

/-- A section under the lock of a descriptor. -/
abbrev Section (κ : Type) := EStateM Fault (Locked κ)

/-- `SYLAR_ASSERT`. -/
def sylarAssert (condition : Bool) : Section κ Unit :=
  if condition then return () else throw .assertion

/-- Change the context. -/
def onContext (change : FdContext → FdContext) : Section κ Unit :=
  modify fun s => { s with ctx := change s.ctx }

/-- `++m_pendingEventCount`. -/
def incrementPending : Section κ Unit :=
  modify fun s => { s with pendingEventCount := s.pendingEventCount + 1 }

/-- `--m_pendingEventCount`, which wraps around. -/
def decrementPending : Section κ Unit :=
  modify fun s => { s with pendingEventCount := s.pendingEventCount - 1 }

/-- `ctx.scheduler->schedule(&...)`. The constructors of `FiberAndThread` from
pointers take the fiber or callback out of the context. -/
def schedule (scheduler : Option SchedulerId) (task : Option Scheduled) : Section κ Unit :=
  match scheduler with
  | none => throw .nullScheduler
  | some target =>
      match task with
      | none => return ()
      | some task => modify fun s => { s with scheduled := s.scheduled ++ [(target, task)] }

def triggerEvent (event : Event) : Section κ Unit := do
  modify fun s => { s with triggered := s.triggered ++ [event] }
  let s ← get
  sylarAssert (s.ctx.events.has event)
  onContext fun ctx => { ctx with events := ctx.events.erase event }
  let context := s.ctx.getContext event
  match context.cb with
  | some cb =>
      schedule context.scheduler (some (.cb cb))
      onContext fun ctx => ctx.setContext event { context with cb := none }
  | none =>
      schedule context.scheduler (context.fiber.map .fiber)
      onContext fun ctx => ctx.setContext event { context with fiber := none }
  onContext fun ctx => ctx.setContext event { ctx.getContext event with scheduler := none }

/-- How the kernel answers `epoll_ctl`; `true` stands for the result 0. -/
abbrev EpollCtl (κ : Type) := κ → EpollOp → Mask → Bool × κ

variable (ctl : EpollCtl κ)

/-- `epoll_ctl(m_epfd, op, fd, &epevent) == 0`. -/
def epollCtl (op : EpollOp) (events : Mask) : Section κ Bool := do
  let s ← get
  let (success, kernel) := ctl s.kernel op events
  set { s with kernel := kernel }
  return success

/-- `addEvent` from the lock of the context on; `cb` is `none` for an empty
function. -/
def addEvent (caller : Caller) (event : Event) (cb : Option CallbackId) : Section κ Int := do
  let s ← get
  sylarAssert (!s.ctx.events.has event)
  let op := if s.ctx.events ≠ .none then .mod else .add
  let success ← epollCtl ctl op (Mask.in_.or (s.ctx.events.insert event).mask)
  if success then
    incrementPending
    onContext fun ctx => { ctx with events := ctx.events.insert event }
    let context := s.ctx.getContext event
    sylarAssert (context.scheduler = none && context.fiber = none && context.cb = none)
    match cb with
    | some cb =>
        onContext fun ctx => ctx.setContext event ⟨caller.scheduler, none, some cb⟩
    | none =>
        onContext fun ctx => ctx.setContext event ⟨caller.scheduler, some caller.fiber, none⟩
        sylarAssert (caller.state = .exec)
    return 0
  else return -1

/-- The part that `delEvent` and `cancleEvent` share: `epoll_ctl` for the events
that are left. The operation is chosen by the old events. -/
def removeFromEpoll (event : Event) : Section κ Bool := do
  let s ← get
  let op := if s.ctx.events ≠ .none then .mod else .del
  epollCtl ctl op (Mask.et.or (s.ctx.events.erase event).mask)

/-- `delEvent`, under the lock of the descriptor. -/
def delEvent (event : Event) : Section κ Bool := do
  let s ← get
  if !s.ctx.events.has event then return false
  else
    let success ← removeFromEpoll ctl event
    if success then
      decrementPending
      onContext fun ctx => { ctx with events := ctx.events.erase event }
      onContext fun ctx => ctx.resetContext event
      return true
    else return false

/-- `cancleEvent`, under the lock of the descriptor. -/
def cancleEvent (event : Event) : Section κ Bool := do
  let s ← get
  if !s.ctx.events.has event then return false
  else
    let success ← removeFromEpoll ctl event
    if success then
      triggerEvent event
      decrementPending
      return true
    else return false

/-- `triggerEvent` and the decrement after it, if the bit is set in `events`. -/
def fire (events : Events) (event : Event) : Section κ Unit := do
  if events.has event then
    triggerEvent event
    decrementPending

/-- `cancleAll`, under the lock of the descriptor. -/
def cancleAll : Section κ Bool := do
  let s ← get
  if s.ctx.events = .none then return false
  else
    let success ← epollCtl ctl .del ⟨false, false, false, false, false⟩
    if success then
      fire s.ctx.events .read
      let s ← get
      fire s.ctx.events .write
      let s ← get
      sylarAssert (s.ctx.events = .none)
      return true
    else return false

/-- The events `idle` takes a report for. -/
def realEvents (events : Events) (reported : Mask) : Events :=
  -- an error or a hang-up stands for every registered event
  let reported := if reported.epollerr || reported.epollhup then reported.or events.mask
    else reported
  reported.events

/-- What `idle` does for one reported descriptor, under the lock of its context. -/
def dispatch (reported : Mask) : Section κ Unit := do
  let s ← get
  let real := realEvents s.ctx.events reported
  if s.ctx.events.disjoint real then return ()
  else
    let left := s.ctx.events.diff real
    let op := if left ≠ .none then .mod else .del
    let success ← epollCtl ctl op (Mask.et.or left.mask)
    if success then
      fire real .read
      fire real .write
    else return ()

end

end IOManager

end Sylar
