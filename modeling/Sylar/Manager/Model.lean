import Sylar.Scheduler.Model
import Sylar.Timer.Model
import Mathlib.Data.Fintype.Card

/-!
# An IO manager at work

All threads of an `IOManager`: `run` and `idle` on every worker, the calls that
tasks and outside threads make (`schedule`, `addTimer` and its kin, `addEvent`,
`delEvent`, `cancleEvent` and `cancleAll`) and `stop`. A step is one access to shared
memory or one section under a lock, with the local work behind it; `tickle` is two
steps, its test and its write. A worker is where its thread stands and its local
variables, and memory is shared. A failed assertion ends the process and is no step.
Nor is a call that changes nothing: `delEvent` and `cancleEvent` where the event is
not registered or `epoll_ctl` fails.
-/

namespace Sylar

namespace Manager

/-- A fiber or a function. The constructors of `FiberAndThread`, and `addEvent`,
set one of the two. -/
inductive Task (F C : Type) where
  | fiber (f : F)
  | cb (c : C)
deriving DecidableEq, Repr

/-- `FiberAndThread`. The task is `none` when fiber and function are empty, the
thread is `none` for -1, any thread. -/
structure FiberAndThread (F C W : Type) where
  task : Option (Task F C)
  thread : Option W
deriving DecidableEq, Repr

/-- What a worker goes on with after `tickle`. -/
inductive After (F C W : Type) where
  /-- `run`, with what it took from the queue. -/
  | branch (found : Option (FiberAndThread F C W))
  /-- `run`, after a fiber was put back. -/
  | round
  /-- The task that made the call. -/
  | task (callback : Bool) (f : F)
  /-- `cancleEvent`, after the event was triggered. -/
  | cancled (callback : Bool) (f : F)
  /-- `idle`, after the callbacks of expired timers were scheduled. -/
  | events (tickled : Bool)
  /-- `idle`, after an event was triggered. -/
  | triggered (tickled : Bool)
deriving DecidableEq, Repr

/-- Where a worker stands. `callback` tells the branch in which `run` swapped the
fiber in, `tickled` whether the pipe is among the events `epoll_wait` returned. -/
inductive Stage (F C W : Type) where
  /-- `run` was not called: the root fiber before `call`. -/
  | off
  /-- At the scan of the queue. -/
  | polling
  /-- In `tickle`, at the test of `hasIdleThreads`. -/
  | tickling (after : After F C W)
  /-- In `tickle`, at the write to the pipe. -/
  | writing (after : After F C W)
  /-- Past the scan, at the branch for what it found. -/
  | scanned (found : Option (FiberAndThread F C W))
  | inside (callback : Bool) (f : F)
  /-- In `cancleEvent`: the event was triggered and is to be taken off `m_pendingEventCount`. -/
  | cancled (callback : Bool) (f : F)
  /-- `swapIn` has returned. -/
  | returned (callback : Bool) (f : F)
  /-- `m_activeThreadCount` is decremented. -/
  | released (callback : Bool) (f : F)
  /-- `m_idleThreadCount` is incremented, and `idle` at the head of its loop. -/
  | counted
  /-- `stopping` has called `getNextTimer`, which read the clock. -/
  | timed (timeout reading : UInt64)
  /-- `stopping` found no timer and no pending event. -/
  | quiet (reading : UInt64)
  /-- At the call of `epoll_wait`. -/
  | waiting (timeout reading : UInt64)
  /-- In `epoll_wait`; `none` is a wait without end. -/
  | blocked (timeout reading : UInt64) (deadline : Option Nat)
  | woken (tickled : Bool)
  | expired (cbs : List (Option C)) (tickled : Bool)
  | handling (tickled : Bool)
  /-- An event was triggered and is to be taken off `m_pendingEventCount`. -/
  | triggered (tickled : Bool)
  /-- `idle` has swapped out, or ended. -/
  | leaving
  /-- `run` has returned. -/
  | stopped
deriving DecidableEq, Repr

/-- A worker thread in `run`. -/
structure Worker (F C W : Type) where
  stage : Stage F C W
  cbFiber : Option F
  /-- The idle fiber is in the state `TERM`. -/
  idleTerm : Bool
deriving DecidableEq, Repr

/-- What a task or an outside thread calls. -/
inductive Call (F C W T A : Type) where
  | schedule (entry : FiberAndThread F C W)
  /-- `schedule` of a range. -/
  | scheduleAll (tasks : List (Option (Task F C)))
  | timer (action : TimerManager.Action T A C)
  /-- `addEvent`; `none` is no callback. `registers` is whether `epoll_ctl` succeeds. -/
  | addEvent (cb : Option C) (registers : Bool)
  /-- `delEvent` of an event that is registered, by what waits for it. -/
  | delEvent (event : Task F C)
  /-- `cancleEvent` of an event that is registered. `cancleAll` makes its steps for READ and then
  for WRITE. -/
  | cancleEvent (event : Task F C)
deriving DecidableEq, Repr

/-- A step of a worker. -/
inductive Move (F C W T A : Type) where
  | scan
  | tickle
  | write
  /-- `fresh` is the fiber a callback gets when `cb_fiber` is empty. -/
  | branch (fresh : F)
  /-- The task that runs makes a call. -/
  | call (call : Call F C W T A)
  | yield (how : Scheduler.Yield)
  | release
  | requeue
  | getNextTimer
  | checkPending
  | checkStopping
  | epollWait
  /-- A signal interrupts `epoll_wait`. -/
  | interrupt
  | wake (tickled : Bool)
  | listExpiredCb (seenEmpty : Bool) (now : UInt64) (probe : A)
  | scheduleExpired
  /-- Read the pipe until it is empty. -/
  | drain
  | trigger (event : Task F C)
  | uncountEvent
  /-- All events are handled. -/
  | swapOut
  | leaveIdle
deriving DecidableEq, Repr

/-- What all threads share. -/
structure Shared (F C W T A : Type) where
  /-- `m_fibers`. -/
  fibers : List (FiberAndThread F C W)
  fiberState : F → FiberState
  created : F → Bool
  activeThreadCount : UInt64
  idleThreadCount : UInt64
  /-- The number of bytes in the pipe. -/
  pipe : Nat
  /-- The pipe is ready for `epoll_wait`, which returns it once for a write. -/
  ready : Bool
  /-- What waits for the events that are registered. -/
  events : List (Task F C)
  pendingEventCount : Nat
  timers : TimerManager.State T A C
  /-- `GetCurrentMS`. -/
  clock : UInt64
  autoStop : Bool
  stopping : Bool
  /-- Outside threads in `tickle`, at its test and at its write. -/
  outsideTickling : Nat
  outsideWriting : Nat
  /-- Outside threads in `cancleEvent` that have triggered the event and are to take it off
  `m_pendingEventCount`. One that is still in its `tickle` may do so here as well. -/
  outsideCancling : Nat
  /-- The callbacks that were put in the queue. -/
  scheduled : List C
  /-- The callbacks that were swapped in. -/
  started : List C
  /-- The threads that `schedule` was called with for what a fiber executes. -/
  asked : F → List (Option W)

/-- `MAX_TIMEOUT`. -/
def maxTimeout : UInt64 := 3000

/-- The conversion to `int`. -/
def toInt (timeout : UInt64) : ℤ := timeout.toUInt32.toInt32.toInt

/-- What `idle` makes of the time to the next timer. -/
def clampTimeout (next : UInt64) : UInt64 :=
  if next ≠ ~~~0 then if toInt next > 3000 then maxTimeout else next else maxTimeout

namespace After

variable {F C W : Type}

/-- Where the worker goes on. -/
def stage : After F C W → Stage F C W
  | .branch found => .scanned found
  | .round => .polling
  | .task callback f => .inside callback f
  | .cancled callback f => .cancled callback f
  | .events tickled => .handling tickled
  | .triggered tickled => .triggered tickled

/-- A call that wants a tickle goes through it. -/
def tickleIf (after : After F C W) (wanted : Bool) : Stage F C W :=
  if wanted then .tickling after else after.stage

end After

/-- What the scan of the queue takes, whether it wants a tickle, and what it leaves. -/
structure Scan (F C W : Type) where
  found : Option (FiberAndThread F C W)
  tickleMe : Bool
  left : List (FiberAndThread F C W)

namespace Shared

variable {F C W T A : Type} [DecidableEq F] [DecidableEq C] [DecidableEq W] [DecidableEq T]
  [LinearOrder A]

/-- Change the state of one fiber. -/
def setState (s : Shared F C W T A) (f : F) (state : FiberState) : Shared F C W T A :=
  { s with fiberState := Function.update s.fiberState f state }

/-- Change the threads that were named for one fiber. -/
def setAsked (s : Shared F C W T A) (f : F) (threads : List (Option W)) : Shared F C W T A :=
  { s with asked := Function.update s.asked f threads }

/-- A fiber is made. -/
def create (s : Shared F C W T A) (f : F) : Shared F C W T A :=
  { s with created := Function.update s.created f true }

/-- `TERM` or `EXCEPT`. -/
def terminated (s : Shared F C W T A) (f : F) : Bool :=
  s.fiberState f = .term || s.fiberState f = .except

/-- `Fiber::reset` asserts one of these states. -/
def resettable (s : Shared F C W T A) (f : F) : Bool := s.terminated f || s.fiberState f = .init

/-- The function of a task. -/
def cbOf : Option (Task F C) → Option C
  | some (.cb c) => some c
  | _ => none

/-- `scheduleNoLock`, and whether it wants a tickle. -/
def scheduleNoLock (s : Shared F C W T A) (entry : FiberAndThread F C W) :
    Bool × Shared F C W T A :=
  (s.fibers.isEmpty,
    if entry.task.isSome then
      { s with
        fibers := s.fibers ++ [entry]
        scheduled := s.scheduled ++ (cbOf entry.task).toList }
    else s)

/-- The loop of `schedule` over a range. -/
def scheduleRange (s : Shared F C W T A) : List (Option (Task F C)) → Bool × Shared F C W T A
  | [] => (false, s)
  | task :: rest =>
      let first := s.scheduleNoLock ⟨task, none⟩
      let others := first.2.scheduleRange rest
      (first.1 || others.1, others.2)

/-- A caller names the thread for a fiber. -/
def ask (s : Shared F C W T A) (entry : FiberAndThread F C W) : Shared F C W T A :=
  match entry.task with
  | some (.fiber f) => (s.create f).setAsked f (s.asked f ++ [entry.thread])
  | _ => s

/-- The reading of the clock that a call of a timer works with. The constructor and
`listExpiredCb` read it before the lock. -/
def Timely (s : Shared F C W T A) : TimerManager.Action T A C → Prop
  | .addTimer _ _ _ _ _ now | .listExpiredCb _ now _ => now ≤ s.clock
  | .refresh _ now | .reset _ _ _ _ now | .getNextTimer now => now = s.clock
  | .cancle _ | .release _ => True

instance (s : Shared F C W T A) (action : TimerManager.Action T A C) :
    Decidable (s.Timely action) := by
  cases action <;> unfold Timely <;> infer_instance

/-- A call of a timer, and whether `onTimerInsertedAtFront` wants a tickle. -/
def callTimer (s : Shared F C W T A) (action : TimerManager.Action T A C) :
    Option (Bool × Shared F C W T A) :=
  if s.timers.Enabled action ∧ s.Timely action then
    match action with
    | .addTimer t address ms cb recurring now =>
        let added := s.timers.addTimer t address ms cb recurring now
        some (added.1, { s with timers := added.2 })
    | .cancle t => (s.timers.cancle t).toOption.map fun answer =>
        (false, { s with timers := answer.2 })
    | .refresh t now => (s.timers.refresh t now).toOption.map fun answer =>
        (false, { s with timers := answer.2 })
    | .reset t ms fromNow seen now =>
        (s.timers.reset t ms fromNow seen now).toOption.map fun answer =>
          (answer.2.1, { s with timers := answer.2.2 })
    | .release t =>
        some (false, { s with timers := { s.timers with held := s.timers.held.erase t } })
    | .getNextTimer _ | .listExpiredCb .. => none
  else none

/-- `addEvent`. Without a callback it is for the fiber that calls. Where `epoll_ctl` fails, nothing
is registered and the callback is gone. -/
def addEvent (s : Shared F C W T A) (self : Option F) (cb : Option C) (registers : Bool) :
    Option (Shared F C W T A) :=
  let register (task : Task F C) : Shared F C W T A :=
    { s with events := s.events ++ [task], pendingEventCount := s.pendingEventCount + 1 }
  if !registers then some s
  else
    match cb, self with
    | some cb, _ => some (register (.cb cb))
    | none, some f => if s.fiberState f = .exec then some (register (.fiber f)) else none
    | none, none => none

/-- `delEvent`: the context is reset, and what waited for the event is gone. -/
def delEvent (s : Shared F C W T A) (event : Task F C) : Option (Shared F C W T A) :=
  if event ∈ s.events then
    some { s with
      events := s.events.erase event
      pendingEventCount := s.pendingEventCount - 1 }
  else none

/-- `cancleEvent` up to `triggerEvent`, which schedules what waited for the event, and whether it
wants a tickle. -/
def cancleEvent (s : Shared F C W T A) (self : Option F) (event : Task F C) :
    Option (Bool × Shared F C W T A) :=
  if event ∈ s.events then
    some (scheduleNoLock { s with
      events := s.events.erase event
      outsideCancling := if self.isNone then s.outsideCancling + 1 else s.outsideCancling }
      ⟨some event, none⟩)
  else none

/-- A call of the fiber `self`, or of an outside thread, and whether it wants a tickle. -/
def call (s : Shared F C W T A) (self : Option F) :
    Call F C W T A → Option (Bool × Shared F C W T A)
  | .schedule entry => some ((s.ask entry).scheduleNoLock entry)
  | .scheduleAll tasks =>
      some ((tasks.foldl (fun s task => s.ask ⟨task, none⟩) s).scheduleRange tasks)
  | .timer action => s.callTimer action
  | .addEvent cb registers => (s.addEvent self cb registers).map fun next => (false, next)
  | .delEvent event => (s.delEvent event).map fun next => (false, next)
  | .cancleEvent event => s.cancleEvent self event

/-- The entry is a fiber that runs. -/
def executing (s : Shared F C W T A) (entry : FiberAndThread F C W) : Bool :=
  match entry.task with
  | some (.fiber f) => s.fiberState f = .exec
  | _ => false

/-- The loop of `run` over the queue, for the thread `w`. -/
def scanList (s : Shared F C W T A) (w : W) : List (FiberAndThread F C W) → Scan F C W
  | [] => ⟨none, false, []⟩
  | entry :: rest =>
      if entry.thread ≠ none ∧ entry.thread ≠ some w then
        let later := s.scanList w rest
        ⟨later.found, true, entry :: later.left⟩
      else if s.executing entry then
        let later := s.scanList w rest
        ⟨later.found, later.tickleMe, entry :: later.left⟩
      else ⟨some entry, !rest.isEmpty, rest⟩

/-- The scan under the lock counts the thread as active when it takes an entry. -/
def take (s : Shared F C W T A) (scan : Scan F C W) : Shared F C W T A :=
  { s with
    fibers := scan.left
    activeThreadCount :=
      if scan.found.isSome then s.activeThreadCount + 1 else s.activeThreadCount }

/-- The write of `tickle`. -/
def writeByte (s : Shared F C W T A) : Shared F C W T A :=
  { s with pipe := s.pipe + 1, ready := true }

/-- `Scheduler::stopping`. -/
def schedulerStopping (s : Shared F C W T A) : Bool :=
  s.autoStop && s.stopping && s.fibers.isEmpty && s.activeThreadCount = 0

/-- `IOManager::stopping` without a timeout. -/
def managerStopping (s : Shared F C W T A) : Bool :=
  s.schedulerStopping && s.pendingEventCount = 0

/-- The callback `c` begins on the fiber `f`. -/
def begin (s : Shared F C W T A) (f : F) (c : C) (thread : Option W) : Shared F C W T A :=
  { (s.setState f .exec).setAsked f [thread] with started := s.started ++ [c] }

end Shared

namespace Worker

variable {F C W T A : Type} [DecidableEq F] [DecidableEq C] [DecidableEq W] [DecidableEq T]
  [LinearOrder A]

/-- The worker goes on there. -/
def goto (worker : Worker F C W) (stage : Stage F C W) : Worker F C W := { worker with stage }

/-- A function, or a fiber that has not ended. -/
def alive (s : Shared F C W T A) : Task F C → Bool
  | .fiber f => !s.terminated f
  | .cb _ => true

/-- The three branches of `run`. -/
def branch (s : Shared F C W T A) (worker : Worker F C W) (fresh : F) :
    Option (FiberAndThread F C W) → Option (Shared F C W T A × Worker F C W)
  | none =>
      if worker.idleTerm then some (s, worker.goto .stopped)
      else some ({ s with idleThreadCount := s.idleThreadCount + 1 }, worker.goto .counted)
  | some entry =>
      match entry.task.filter (alive s) with
      | some (.fiber f) =>
          if s.fiberState f = .exec then none
          else some (s.setState f .exec, worker.goto (.inside false f))
      | some (.cb c) =>
          match worker.cbFiber with
          | some f =>
              if s.resettable f then
                some (s.begin f c entry.thread, worker.goto (.inside true f))
              else none
          | none =>
              if s.created fresh then none
              else some ((s.create fresh).begin fresh c entry.thread,
                { worker with stage := .inside true fresh, cbFiber := some fresh })
      | none =>
          some ({ s with activeThreadCount := s.activeThreadCount - 1 }, worker.goto .polling)

/-- The state a fiber gives itself before `swapOut`, unless its assertion fails. -/
def yieldState (s : Shared F C W T A) (f : F) : Scheduler.Yield → Option FiberState
  | .toReady => if s.fiberState f = .exec then some .ready else none
  | .toHold => if s.fiberState f = .exec then some .hold else none
  | .finish => some .term
  | .throw => some .except
  | .swapOut => some (s.fiberState f)

/-- `run` after `swapIn` and the decrement. -/
def requeue (s : Shared F C W T A) (worker : Worker F C W) (callback : Bool) (f : F) :
    Shared F C W T A × Worker F C W :=
  let empty : Worker F C W := if callback then { worker with cbFiber := none } else worker
  if s.fiberState f = .ready then
    let put := s.scheduleNoLock ⟨some (.fiber f), none⟩
    (put.2, empty.goto (After.round.tickleIf put.1))
  else if s.terminated f then
    (if callback then s.setState f .init else s, worker.goto .polling)
  else (s.setState f .hold, empty.goto .polling)

/-- The callbacks that `listExpiredCb` added to the history. -/
def handedOut (before after : TimerManager.State T A C) : List (Option C) :=
  (after.history.drop before.history.length).filterMap fun
    | .handed _ cb => some cb
    | .cancled _ => none

/-- What the task `f` goes on with after a call. -/
def afterCall (callback : Bool) (f : F) : Call F C W T A → After F C W
  | .cancleEvent _ => .cancled callback f
  | _ => .task callback f

/-- A step of the worker `w`. -/
def perform (s : Shared F C W T A) (w : W) (worker : Worker F C W) (move : Move F C W T A) :
    Option (Shared F C W T A × Worker F C W) :=
  match move, worker.stage with
  | .scan, .polling =>
      let scan := s.scanList w s.fibers
      some (s.take scan, worker.goto ((After.branch scan.found).tickleIf scan.tickleMe))
  | .tickle, .tickling after =>
      some (s, worker.goto (if s.idleThreadCount > 0 then .writing after else after.stage))
  | .write, .writing after => some (s.writeByte, worker.goto after.stage)
  | .branch fresh, .scanned found => worker.branch s fresh found
  | .call call, .inside callback f =>
      (s.call (some f) call).map fun answer =>
        (answer.2, worker.goto ((afterCall callback f call).tickleIf answer.1))
  | .uncountEvent, .cancled callback f =>
      some ({ s with pendingEventCount := s.pendingEventCount - 1 },
        worker.goto (.inside callback f))
  | .yield how, .inside callback f =>
      (yieldState s f how).map fun state =>
        (s.setState f state, worker.goto (.returned callback f))
  | .release, .returned callback f =>
      some ({ s with activeThreadCount := s.activeThreadCount - 1 },
        worker.goto (.released callback f))
  | .requeue, .released callback f => some (worker.requeue s callback f)
  | .getNextTimer, .counted =>
      let next := s.timers.getNextTimer s.clock
      some ({ s with timers := next.2 }, worker.goto (.timed next.1 s.clock))
  | .checkPending, .timed timeout reading =>
      some (s, worker.goto (if timeout = ~~~0 ∧ s.pendingEventCount = 0 then .quiet reading
        else .waiting (clampTimeout timeout) reading))
  | .checkStopping, .quiet reading =>
      if s.schedulerStopping then some (s, { worker with stage := .leaving, idleTerm := true })
      else some (s, worker.goto (.waiting (clampTimeout (~~~0)) reading))
  | .epollWait, .waiting timeout reading =>
      let deadline :=
        if toInt timeout < 0 then none else some (s.clock.toNat + (toInt timeout).toNat)
      some (s, worker.goto (.blocked timeout reading deadline))
  | .interrupt, .blocked timeout reading _ =>
      some (s, worker.goto (.waiting (clampTimeout timeout) reading))
  | .wake tickled, .blocked .. =>
      if tickled ∧ ¬(s.ready ∧ 0 < s.pipe) then none
      else some (if tickled then { s with ready := false } else s, worker.goto (.woken tickled))
  | .listExpiredCb seenEmpty now probe, .woken tickled =>
      if s.timers.Enabled (.listExpiredCb seenEmpty now probe) ∧
          s.Timely (.listExpiredCb seenEmpty now probe) then
        (s.timers.listExpiredCb seenEmpty now probe).toOption.map fun timers =>
          ({ s with timers }, worker.goto (.expired (handedOut s.timers timers) tickled))
      else none
  | .scheduleExpired, .expired cbs tickled =>
      let put := s.scheduleRange (cbs.map fun cb => cb.map .cb)
      some (put.2, worker.goto ((After.events tickled).tickleIf put.1))
  | .drain, .handling true => some ({ s with pipe := 0 }, worker.goto (.handling false))
  | .trigger event, .handling tickled =>
      if event ∈ s.events then
        let put := Shared.scheduleNoLock { s with events := s.events.erase event }
          ⟨some event, none⟩
        some (put.2, worker.goto ((After.triggered tickled).tickleIf put.1))
      else none
  | .uncountEvent, .triggered tickled =>
      some ({ s with pendingEventCount := s.pendingEventCount - 1 },
        worker.goto (.handling tickled))
  | .swapOut, .handling false => some (s, worker.goto .leaving)
  | .leaveIdle, .leaving =>
      some ({ s with idleThreadCount := s.idleThreadCount - 1 }, worker.goto .polling)
  | _, _ => none

end Worker

/-- Where the thread that calls `stop` stands. -/
inductive Stopper where
  /-- Not in `stop`. -/
  | outside
  /-- At the first test of `stopping`. -/
  | early
  /-- At the test of `stopping` before the root fiber is called. -/
  | late
  /-- In the root fiber. -/
  | calling
  /-- At `join`. -/
  | joining
  | returned
deriving DecidableEq, Repr

/-- All threads of a manager. -/
structure State (F C W T A : Type) where
  shared : Shared F C W T A
  worker : W → Worker F C W
  /-- The worker that is `m_rootFiber`, with `use_caller`. -/
  root : Option W
  stopper : Stopper

/-- A step of some thread. -/
inductive Action (F C W T A : Type) where
  | worker (w : W) (move : Move F C W T A)
  /-- An outside thread calls. -/
  | outside (call : Call F C W T A)
  /-- An outside thread in `tickle`. -/
  | outsideTickle
  | outsideWrite
  /-- An outside thread in `cancleEvent` takes the event off `m_pendingEventCount`. -/
  | outsideUncount
  /-- Time passes. -/
  | advance (clock : UInt64)
  /-- `stop` is called. -/
  | stop
  /-- The next step of `stop`. -/
  | proceed
deriving DecidableEq, Repr

namespace State

variable {F C W T A : Type} [DecidableEq F] [DecidableEq C] [DecidableEq W] [DecidableEq T]
  [LinearOrder A] [Fintype W]

/-- `m_threadCount == 0`. -/
def callerOnly (s : State F C W T A) : Prop := ∀ w, s.root = some w

instance (s : State F C W T A) : Decidable s.callerOnly :=
  inferInstanceAs (Decidable (∀ w, s.root = some w))

/-- The root fiber is in the state `INIT` or `TERM`. -/
def rootAtRest (s : State F C W T A) : Prop :=
  ∃ w, s.root = some w ∧ ((s.worker w).stage = .off ∨ (s.worker w).stage = .stopped)

instance (s : State F C W T A) : Decidable s.rootAtRest :=
  inferInstanceAs (Decidable (∃ _, _ ∧ _))

/-- `stop` from the second assignment of `m_stopping` to the last `tickle`. -/
def beginStop (s : State F C W T A) : State F C W T A :=
  { s with
    shared := { s.shared with
      stopping := true
      outsideTickling := s.shared.outsideTickling + Fintype.card W }
    stopper := if s.root.isSome then .late else .joining }

/-- `stop` up to its first test of `stopping`. -/
def stop (s : State F C W T A) : State F C W T A :=
  let s := { s with shared := { s.shared with autoStop := true } }
  if s.callerOnly ∧ s.rootAtRest then
    { s with shared := { s.shared with stopping := true }, stopper := .early }
  else s.beginStop

/-- The rest of `stop`. -/
def proceed (s : State F C W T A) : Option (State F C W T A) :=
  match s.stopper, s.root with
  | .early, _ =>
      if s.shared.managerStopping then some { s with stopper := .returned } else some s.beginStop
  | .late, some root =>
      if s.shared.managerStopping then some { s with stopper := .joining }
      else if (s.worker root).stage = .off then
        some { s with
          worker := Function.update s.worker root ((s.worker root).goto .polling)
          stopper := .calling }
      else none
  | .calling, some root =>
      if (s.worker root).stage = .stopped then some { s with stopper := .joining } else none
  | .joining, root =>
      if ∀ w, root ≠ some w → (s.worker w).stage = .stopped then
        some { s with stopper := .returned }
      else none
  | _, _ => none

/-- A step of some thread, where it can be made. -/
def step (s : State F C W T A) : Action F C W T A → Option (State F C W T A)
  | .worker w move =>
      ((s.worker w).perform s.shared w move).map fun next =>
        { s with shared := next.1, worker := Function.update s.worker w next.2 }
  | .outside call =>
      (s.shared.call none call).map fun answer =>
        { s with shared := if answer.1 then
            { answer.2 with outsideTickling := answer.2.outsideTickling + 1 } else answer.2 }
  | .outsideTickle =>
      if s.shared.outsideTickling = 0 then none
      else some { s with shared := { s.shared with
        outsideTickling := s.shared.outsideTickling - 1
        outsideWriting := if s.shared.idleThreadCount > 0 then s.shared.outsideWriting + 1
          else s.shared.outsideWriting } }
  | .outsideWrite =>
      if s.shared.outsideWriting = 0 then none
      else some { s with shared :=
        { s.shared.writeByte with outsideWriting := s.shared.outsideWriting - 1 } }
  | .outsideUncount =>
      if s.shared.outsideCancling = 0 then none
      else some { s with shared := { s.shared with
        pendingEventCount := s.shared.pendingEventCount - 1
        outsideCancling := s.shared.outsideCancling - 1 } }
  | .advance clock =>
      if s.shared.clock ≤ clock then some { s with shared := { s.shared with clock } } else none
  | .stop => if s.stopper = .outside ∨ s.stopper = .returned then some s.stop else none
  | .proceed => s.proceed

/-- The manager once it is constructed. -/
def initial (root : Option W) (clock : UInt64) : State F C W T A where
  shared :=
    { fibers := []
      fiberState := fun _ => .init
      created := fun _ => false
      activeThreadCount := 0
      idleThreadCount := 0
      pipe := 0
      ready := false
      events := []
      pendingEventCount := 0
      timers := TimerManager.State.initial
      clock
      autoStop := false
      stopping := false
      outsideTickling := 0
      outsideWriting := 0
      outsideCancling := 0
      scheduled := []
      started := []
      asked := fun _ => [] }
  worker w := ⟨if root = some w then .off else .polling, none, false⟩
  root
  stopper := .outside

end State

end Manager

end Sylar
