import Mathlib.Logic.Embedding.Basic

/-!
# Workers, fibers and the task queue

`Scheduler::run` on any number of workers, with `Fiber::swapIn` and
`Fiber::swapOut` taken apart into the steps between which other threads can act.
A worker is where its thread stands in the loop. The queue, the state of each
fiber and whether its context is saved are shared; nothing but the scan of the
queue is protected by the lock.
-/

namespace Sylar

/-- `Fiber::State`. -/
inductive FiberState where
  | init | hold | exec | term | ready | except
deriving DecidableEq, Repr

namespace Scheduler

/-- What a queue entry holds: a fiber, or a callback some fiber has to be found for. -/
inductive Task (F : Type) where
  | fiber (f : F)
  | cb
deriving DecidableEq, Repr

/-- `FiberAndThread`; the thread is `none` for -1, any thread. -/
structure FiberAndThread (F W : Type) where
  task : Task F
  thread : Option W
deriving DecidableEq, Repr

/-- The three places where `run` swaps a fiber in. -/
inductive Branch where
  | fiber | callback | idle
deriving DecidableEq, Repr

/-- Where a thread is between the call of `swapIn` and the end of the update
that `run` makes after it. -/
inductive Stage where
  /-- `swapIn` was called. -/
  | entering
  /-- `m_state` was seen not to be `EXEC`. -/
  | asserted
  /-- `m_state` was set to `EXEC`. -/
  | marked
  /-- The fiber runs. -/
  | running
  /-- A context was loaded that was not saved. -/
  | torn
  /-- The fiber has set its state and is in `swapOut`, its context not saved yet. -/
  | leaving
  /-- The context is saved; `swapIn` has returned. -/
  | returned
deriving DecidableEq, Repr

/-- A worker thread in the loop of `run`. -/
inductive Worker (F : Type) where
  | polling
  /-- A fiber was taken from the queue. -/
  | picked (f : F)
  /-- A callback was taken from the queue. -/
  | pickedCb
  | inside (branch : Branch) (stage : Stage) (f : F)
  /-- `run` has returned. -/
  | stopped
  /-- An assertion of `swapIn`, `YiledToHold` or `YiledToReady` failed. -/
  | failed
deriving DecidableEq, Repr

/-- How a fiber gives up its thread. -/
inductive Yield where
  /-- `YiledToReady`. -/
  | toReady
  /-- `YiledToHold`. -/
  | toHold
  /-- The end of `MainFunc`. -/
  | finish
  /-- An exception caught by `MainFunc`. -/
  | throw
  /-- A plain `swapOut`, as in `IOManager::idle`. -/
  | swapOut
deriving DecidableEq, Repr

/-- The shared state of a scheduler and its workers. -/
structure State (F W : Type) where
  fiberState : F → FiberState
  /-- `m_ctx` holds a context that was not loaded since it was saved. -/
  saved : F → Bool
  /-- The other fibers are as the constructor is going to leave them. -/
  created : F → Bool
  fibers : List (FiberAndThread F W)
  cbFiber : W → Option F
  idleFiber : W ↪ F
  worker : W → Worker F

/-- One atomic step of a thread. -/
inductive Action (F W : Type) where
  /-- Some thread constructs a fiber. -/
  | create (f : F)
  /-- Some thread calls `schedule`. -/
  | schedule (entry : FiberAndThread F W)
  /-- The scan of the queue under the lock. -/
  | dequeue (w : W)
  /-- The test of the state of the fiber taken, and the call of `swapIn`. -/
  | examine (w : W)
  /-- `cb_fiber` is reset, or is `f` new, and `swapIn` is called. -/
  | callback (w : W) (f : F)
  /-- The queue has nothing for `w`, which swaps its idle fiber in. -/
  | goIdle (w : W)
  /-- `SYLAR_ASSERT(m_state != EXEC)` of `swapIn`. -/
  | assertNotExec (w : W)
  /-- `m_state = EXEC` of `swapIn`. -/
  | mark (w : W)
  /-- `swapcontext` of `swapIn` loads the context of the fiber. -/
  | switch (w : W)
  | yield (w : W) (how : Yield)
  /-- `swapcontext` of `swapOut` saves the context and returns to `run`. -/
  | save (w : W)
  /-- The update of the state after `swapIn`. -/
  | update (w : W)
deriving DecidableEq, Repr

namespace State

variable {F W : Type} [DecidableEq F] [DecidableEq W]

/-- Change one worker. -/
def setWorker (s : State F W) (w : W) (worker : Worker F) : State F W :=
  { s with worker := Function.update s.worker w worker }

/-- Change the state of one fiber. -/
def setState (s : State F W) (f : F) (state : FiberState) : State F W :=
  { s with fiberState := Function.update s.fiberState f state }

/-- Change whether a fiber is saved. -/
def setSaved (s : State F W) (f : F) (saved : Bool) : State F W :=
  { s with saved := Function.update s.saved f saved }

/-- Change the callback fiber. -/
def setCbFiber (s : State F W) (w : W) (f : Option F) : State F W :=
  { s with cbFiber := Function.update s.cbFiber w f }

/-- `schedule`. -/
def push (s : State F W) (entry : FiberAndThread F W) : State F W :=
  { s with fibers := s.fibers ++ [entry] }

/-- `Fiber::reset` makes a context that starts from the beginning. -/
def initialise (s : State F W) (f : F) : State F W := (s.setState f .init).setSaved f true

/-- Whether the scan takes an entry: it is for this thread and no running fiber. -/
def eligible (s : State F W) (w : W) (entry : FiberAndThread F W) : Bool :=
  (entry.thread = none || entry.thread = some w) &&
    match entry.task with
    | .fiber f => s.fiberState f ≠ .exec
    | .cb => true

/-- `Fiber::reset` asserts one of these states. -/
def resettable (s : State F W) (f : F) : Bool :=
  s.fiberState f = .term || s.fiberState f = .except || s.fiberState f = .init

/-- `TERM` or `EXCEPT`. -/
def terminated (s : State F W) (f : F) : Bool :=
  s.fiberState f = .term || s.fiberState f = .except

/-- The state a fiber gives itself before `swapOut`, unless its assertion fails. -/
def yieldState (s : State F W) (f : F) : Yield → Option FiberState
  | .toReady => if s.fiberState f = .exec then some .ready else none
  | .toHold => if s.fiberState f = .exec then some .hold else none
  | .finish => some .term
  | .throw => some .except
  | .swapOut => some (s.fiberState f)

/-- The update after `swapIn` in each branch of `run`. -/
def afterSwapIn (s : State F W) (w : W) (f : F) : Branch → State F W
  | .fiber =>
      if s.fiberState f = .ready then s.push ⟨.fiber f, none⟩
      else if s.terminated f then s
      else s.setState f .hold
  | .callback =>
      if s.fiberState f = .ready then (s.push ⟨.fiber f, none⟩).setCbFiber w none
      else if s.terminated f then s.initialise f
      else (s.setState f .hold).setCbFiber w none
  | .idle => if s.terminated f then s else s.setState f .hold

/-- What a thread does next. -/
def step (s : State F W) : Action F W → Option (State F W)
  | .create f =>
      if s.created f then none
      else some { s with created := Function.update s.created f true }
  | .schedule entry =>
      match entry.task with
      | .fiber f => if s.created f then some (s.push entry) else none
      | .cb => some (s.push entry)
  | .dequeue w =>
      if s.worker w = .polling then
        match s.fibers.find? (s.eligible w) with
        | none => none
        | some entry =>
            let taken := { s with fibers := s.fibers.eraseP (s.eligible w) }
            match entry.task with
            | .fiber f => some (taken.setWorker w (.picked f))
            | .cb => some (taken.setWorker w .pickedCb)
      else none
  | .examine w =>
      match s.worker w with
      | .picked f =>
          if s.terminated f then some (s.setWorker w .polling)
          else some (s.setWorker w (.inside .fiber .entering f))
      | _ => none
  | .callback w f =>
      if s.worker w = .pickedCb then
        match s.cbFiber w with
        | some g =>
            -- the assertion of `reset` ends the process
            if g = f ∧ s.resettable f then
              some ((s.initialise f).setWorker w (.inside .callback .entering f))
            else none
        | none =>
            if s.created f then none
            else some (({ s with created := Function.update s.created f true }.setCbFiber w
              (some f)).setWorker w (.inside .callback .entering f))
      else none
  | .goIdle w =>
      if s.worker w = .polling ∧ s.fibers.find? (s.eligible w) = none then
        if s.fiberState (s.idleFiber w) = .term then some (s.setWorker w .stopped)
        else some (s.setWorker w (.inside .idle .entering (s.idleFiber w)))
      else none
  | .assertNotExec w =>
      match s.worker w with
      | .inside branch .entering f =>
          if s.fiberState f = .exec then some (s.setWorker w .failed)
          else some (s.setWorker w (.inside branch .asserted f))
      | _ => none
  | .mark w =>
      match s.worker w with
      | .inside branch .asserted f =>
          some ((s.setState f .exec).setWorker w (.inside branch .marked f))
      | _ => none
  | .switch w =>
      match s.worker w with
      | .inside branch .marked f =>
          if s.saved f then
            some ((s.setSaved f false).setWorker w (.inside branch .running f))
          else some (s.setWorker w (.inside branch .torn f))
      | _ => none
  | .yield w how =>
      match s.worker w with
      | .inside branch .running f =>
          match s.yieldState f how with
          | some state => some ((s.setState f state).setWorker w (.inside branch .leaving f))
          | none => some (s.setWorker w .failed)
      | _ => none
  | .save w =>
      match s.worker w with
      | .inside branch .leaving f =>
          some ((s.setSaved f true).setWorker w (.inside branch .returned f))
      | _ => none
  | .update w =>
      match s.worker w with
      | .inside branch .returned f => some ((s.afterSwapIn w f branch).setWorker w .polling)
      | _ => none

/-- Workers that poll an empty queue; each has its idle fiber. -/
def initial (idleFiber : W ↪ F) (isIdle : F → Bool) : State F W where
  fiberState := fun _ => .init
  saved := fun _ => true
  created := isIdle
  fibers := []
  cbFiber := fun _ => none
  idleFiber := idleFiber
  worker := fun _ => .polling

end State

end Scheduler

end Sylar
