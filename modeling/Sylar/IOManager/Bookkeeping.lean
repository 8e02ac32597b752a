import Sylar.IOManager.Sections
import Sylar.Library.Lifecycle
import Sylar.Library.Transition

/-!
# All descriptors, all threads

The table of contexts, the counter of pending events and any number of threads
that call `addEvent`, `delEvent`, `cancleEvent`, `cancleAll` or dispatch reports.
A call first looks its context up and later runs its section under the lock of
that context; `epoll_ctl` may succeed or fail each time. The history records
what became of each registration.
-/

namespace Sylar.IOManager

open Library

/-- The `FdContext` objects, in the order of their allocation. An object takes
more than two bytes of a 64 bit address space. -/
structure Heap where
  objects : List FdContext
  addressable : 2 * objects.length < 2 ^ 64

/-- How a registration ended. -/
inductive Outcome where
  /-- `triggerEvent` scheduled the task. -/
  | fired (target : SchedulerId) (task : Scheduled)
  /-- `delEvent` dropped it. -/
  | deleted
deriving DecidableEq, Repr

/-- An event of one context. -/
@[ext] structure Slot where
  pointer : Nat
  event : Event
deriving DecidableEq, Repr

/-- One entry of the history. -/
structure Mark where
  slot : Slot
  phase : Phase EventContext Outcome
deriving DecidableEq, Repr

/-- The calls that run under the lock of a context. -/
inductive Call where
  | addEvent (caller : Caller) (event : Event) (cb : Option CallbackId)
  | delEvent (event : Event)
  | cancleEvent (event : Event)
  | cancleAll
  | dispatch (reported : Mask)
deriving DecidableEq, Repr

/-- Where a thread is in a call. -/
inductive Progress where
  | outside
  /-- `addEvent` found the table too small and is going to lock it for writing. -/
  | growing (fd : Nat) (call : Call)
  /-- The context was looked up. -/
  | located (pointer : Nat) (call : Call)
deriving DecidableEq, Repr

/-- The state of an `IOManager` and of the threads that use it. -/
structure State (T : Type) where
  heap : Heap
  /-- `m_fdContexts`, the addresses of the objects. -/
  fdContexts : List Nat
  pendingEventCount : UInt64
  /-- The calls of `schedule` made by `triggerEvent`. -/
  scheduled : List (SchedulerId × Scheduled)
  history : List Mark
  thread : T → Progress

/-- One step of a thread. -/
inductive Action (T : Type) where
  /-- A call other than a dispatch looks the context of `fd` up. -/
  | lookup (t : T) (fd : Nat) (call : Call)
  /-- `contextResize(fd * 1.5)` under the lock of the table. -/
  | grow (t : T)
  /-- `epoll_wait` reported the context at `pointer`. -/
  | report (t : T) (pointer : Nat) (reported : Mask)
  /-- The section under the lock of the context; `success` is the answer of `epoll_ctl`. -/
  | locked (t : T) (success : Bool)
deriving DecidableEq, Repr

/-- Run the section of a call. The answer says whether `addEvent` returned 0 or
`delEvent` returned true. -/
def Call.run (success : Bool) : Call → Section Unit Bool
  | .addEvent caller event cb => do
      return (← IOManager.addEvent (fun kernel _ _ => (success, kernel)) caller event cb) = 0
  | .delEvent event => IOManager.delEvent (fun kernel _ _ => (success, kernel)) event
  | .cancleEvent event => IOManager.cancleEvent (fun kernel _ _ => (success, kernel)) event
  | .cancleAll => IOManager.cancleAll fun kernel _ _ => (success, kernel)
  | .dispatch reported => do
      IOManager.dispatch (fun kernel _ _ => (success, kernel)) reported
      return false

/-- What a call did to the registrations of its context. -/
def Call.marks (pointer : Nat) (answer : Bool) (after : Locked Unit) : Call → List Mark
  | .addEvent _ event _ =>
      if answer then [⟨⟨pointer, event⟩, .opened (after.ctx.getContext event)⟩] else []
  | .delEvent event => if answer then [⟨⟨pointer, event⟩, .closed .deleted⟩] else []
  | .cancleEvent _ | .cancleAll | .dispatch _ =>
      (after.triggered.zip after.scheduled).map fun (event, target, task) =>
        ⟨⟨pointer, event⟩, .closed (.fired target task)⟩

namespace Heap

/-- Write a context back. -/
def set (heap : Heap) (pointer : Nat) (ctx : FdContext) : Heap where
  objects := heap.objects.set pointer ctx
  addressable := by
    rw [List.length_set]
    exact heap.addressable

/-- `count` new contexts, if the memory suffices. -/
def allocate (heap : Heap) (count : Nat) : Option Heap :=
  if enough : 2 * (heap.objects.length + count) < 2 ^ 64 then
    some { objects := heap.objects ++ List.replicate count .new
           addressable := by
             rw [List.length_append, List.length_replicate]
             exact enough }
  else none

/-- The number of event bits set over all contexts. -/
def total (heap : Heap) : Nat := (heap.objects.map fun ctx => ctx.events.count).sum

end Heap

namespace State

variable {T : Type} [DecidableEq T]

/-- Change where one thread stands. -/
def setThread (s : State T) (t : T) (progress : Progress) : State T :=
  { s with thread := Function.update s.thread t progress }

/-- The context that a call finds for `fd`. The size of the table is compared as
an `int`. -/
def contextOf (s : State T) (fd : Nat) : Option Nat :=
  if (BitVec.ofNat 32 s.fdContexts.length).toInt > fd then s.fdContexts[fd]? else none

/-- `contextResize`. A table that shrinks loses the addresses at its end. -/
def contextResize (s : State T) (size : Nat) : Option (State T) :=
  let missing := size - s.fdContexts.length
  (s.heap.allocate missing).map fun heap =>
    { s with
      heap := heap
      fdContexts := s.fdContexts.take size ++ List.range' s.heap.objects.length missing }

/-- A section of a call, under one of the locks. -/
def step (s : State T) : Action T → Option (State T)
  | .lookup t fd call =>
      if s.thread t = .outside then
        match s.contextOf fd with
        | some pointer => some (s.setThread t (.located pointer call))
        | none =>
            match call with
            | .addEvent _ _ _ => some (s.setThread t (.growing fd call))
            -- the other calls return false for a descriptor beyond the table
            | _ => some s
      else none
  | .grow t =>
      match s.thread t with
      | .growing fd call =>
          match s.contextResize (fd * 3 / 2) with
          | none => none
          | some grown =>
              match grown.fdContexts[fd]? with
              | some pointer => some (grown.setThread t (.located pointer call))
              | none => none
      | _ => none
  | .report t pointer reported =>
      if s.thread t = .outside ∧ pointer < s.heap.objects.length then
        some (s.setThread t (.located pointer (.dispatch reported)))
      else none
  | .locked t success =>
      match s.thread t with
      | .located pointer call =>
          match s.heap.objects[pointer]? with
          | none => none
          | some ctx =>
              match EStateM.run (call.run success) ⟨ctx, s.pendingEventCount, (), [], []⟩ with
              | .error _ _ => none
              | .ok answer after =>
                  some
                    { s with
                      heap := s.heap.set pointer after.ctx
                      pendingEventCount := after.pendingEventCount
                      scheduled := s.scheduled ++ after.scheduled
                      history := s.history ++ call.marks pointer answer after
                      thread := Function.update s.thread t .outside }
      | _ => none

/-- The constructor makes a table of 32 contexts. -/
def initial : State T where
  heap := ⟨List.replicate 32 .new, by decide⟩
  fdContexts := List.range 32
  pendingEventCount := 0
  scheduled := []
  history := []
  thread := fun _ => .outside

end State

end Sylar.IOManager
