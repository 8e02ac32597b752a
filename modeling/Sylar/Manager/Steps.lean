import Sylar.Library.Threads
import Sylar.Library.Transition
import Sylar.Manager.Model
import Mathlib.Data.UInt

/-!
# What the steps of a manager do

`Performs` lists what a worker can do in one step, `push` is what every way to
schedule does to the queue, and the scan of the queue is described by what it
leaves. The invariants of the modules that follow are checked against these.
-/

namespace Sylar.Manager

open Library

set_option linter.unusedSectionVars false

/-- One thread is enough for a first one. -/
instance oneThread : NeZero 1 := ⟨by decide⟩

/-- Two threads are enough for a first one. -/
instance twoThreads : NeZero 2 := ⟨by decide⟩

variable {F C W T A : Type} [DecidableEq F] [DecidableEq C] [DecidableEq W] [DecidableEq T]
  [LinearOrder A]

/-- The entry in the local copy of a worker in `tickle`. -/
def After.holding : After F C W → Option (FiberAndThread F C W)
  | .branch found => found
  | _ => none

@[simp] theorem holding_afterCall (callback : Bool) (f : F) (call : Call F C W T A) :
    (Worker.afterCall callback f call).holding = none := by
  cases call <;> rfl

namespace Stage

/-- The entry in the local copy of the worker. -/
def holding : Stage F C W → Option (FiberAndThread F C W)
  | .tickling after | .writing after => after.holding
  | .scanned found => found
  | _ => none

@[simp] theorem holding_stage (after : After F C W) : after.stage.holding = after.holding := by
  cases after <;> rfl

@[simp] theorem holding_tickleIf (after : After F C W) (wanted : Bool) :
    (after.tickleIf wanted).holding = after.holding := by
  cases wanted
  · exact holding_stage after
  · rfl

end Stage

namespace Shared

/-- Put entries at the end of the queue. -/
def push (s : Shared F C W T A) (entries : List (FiberAndThread F C W)) : Shared F C W T A :=
  { s with
    fibers := s.fibers ++ entries
    scheduled := s.scheduled ++ entries.filterMap fun entry => cbOf entry.task }

/-- The entries of the tasks in a range that are not empty. -/
def entriesOf (tasks : List (Option (Task F C))) : List (FiberAndThread F C W) :=
  (tasks.filter Option.isSome).map fun task => ⟨task, none⟩

theorem push_nil (s : Shared F C W T A) : s.push [] = s := by
  simp [push]

theorem push_push (s : Shared F C W T A) (first second : List (FiberAndThread F C W)) :
    (s.push first).push second = s.push (first ++ second) := by
  simp [push]

theorem scheduleNoLock_eq (s : Shared F C W T A) (entry : FiberAndThread F C W) :
    s.scheduleNoLock entry =
      (s.fibers.isEmpty, s.push (if entry.task.isSome then [entry] else [])) := by
  unfold scheduleNoLock
  split
  · cases task : cbOf entry.task <;> simp [push, task]
  · rw [push_nil]

theorem scheduleRange_eq (s : Shared F C W T A) (tasks : List (Option (Task F C))) :
    s.scheduleRange tasks = (s.fibers.isEmpty && !tasks.isEmpty, s.push (entriesOf tasks)) := by
  induction tasks generalizing s with
  | nil => simp [scheduleRange, entriesOf, push_nil]
  | cons task rest inductionHypothesis =>
      simp only [scheduleRange, scheduleNoLock_eq, inductionHypothesis, push_push]
      cases task with
      | none => cases rest <;> simp [entriesOf, push_nil]
      | some task => simp [entriesOf, push]

/-- A caller that names threads changes nothing else. -/
theorem ask_eq (s : Shared F C W T A) (entry : FiberAndThread F C W) :
    ∃ created asked, s.ask entry = { s with created, asked } := by
  unfold ask
  split
  · exact ⟨_, _, rfl⟩
  · exact ⟨_, _, rfl⟩

section Scan

variable (s : Shared F C W T A) (w : W) (entries : List (FiberAndThread F C W))

/-- The scan takes one entry out, or none. -/
theorem scan_perm : entries.Perm ((s.scanList w entries).found.toList ++
    (s.scanList w entries).left) := by
  induction entries with
  | nil => exact List.Perm.nil
  | cons entry rest inductionHypothesis =>
      unfold scanList
      split
      · exact (inductionHypothesis.cons entry).trans List.perm_middle.symm
      · split
        · exact (inductionHypothesis.cons entry).trans List.perm_middle.symm
        · exact List.Perm.refl _

/-- What is taken is for this thread, or any. -/
theorem scan_thread {entry : FiberAndThread F C W}
    (taken : (s.scanList w entries).found = some entry) :
    entry.thread = none ∨ entry.thread = some w := by
  induction entries with
  | nil => cases taken
  | cons head rest inductionHypothesis =>
      unfold scanList at taken
      split at taken
      · exact inductionHypothesis taken
      · rename_i matches_
        split at taken
        · exact inductionHypothesis taken
        · cases taken
          tauto

/-- A scan that wants no tickle leaves only fibers that run. -/
theorem scan_quiet (quiet : (s.scanList w entries).tickleMe = false)
    {entry : FiberAndThread F C W} (left : entry ∈ (s.scanList w entries).left) :
    s.executing entry = true := by
  induction entries with
  | nil => cases left
  | cons head rest inductionHypothesis =>
      unfold scanList at quiet left
      split at quiet
      · cases quiet
      · rename_i matches_
        rw [if_neg matches_] at left
        split at quiet
        · rename_i running
          rw [if_pos running] at left
          rcases List.mem_cons.mp left with rfl | later
          · exact running
          · exact inductionHypothesis quiet later
        · rename_i resting
          rw [if_neg resting] at left
          have nothing : rest = [] := by simpa using quiet
          rw [nothing] at left
          cases left

theorem scan_left {entry : FiberAndThread F C W} (left : entry ∈ (s.scanList w entries).left) :
    entry ∈ entries :=
  (scan_perm s w entries).mem_iff.mpr (List.mem_append_right _ left)

theorem scan_found {entry : FiberAndThread F C W}
    (taken : (s.scanList w entries).found = some entry) : entry ∈ entries := by
  refine (scan_perm s w entries).mem_iff.mpr (List.mem_append_left _ ?_)
  rw [taken]
  exact List.mem_singleton.mpr rfl

end Scan

end Shared

/-- What a step of the worker `w` does. -/
inductive Performs (s : Shared F C W T A) (w : W) :
    Worker F C W → Move F C W T A → Shared F C W T A → Worker F C W → Prop where
  | scan {cbFiber : Option F} {idleTerm : Bool} {scan : Scan F C W}
      (scanned : s.scanList w s.fibers = scan) :
      Performs s w ⟨.polling, cbFiber, idleTerm⟩ .scan (s.take scan)
        ⟨(After.branch scan.found).tickleIf scan.tickleMe, cbFiber, idleTerm⟩
  | drop {cbFiber : Option F} {idleTerm : Bool} {after : After F C W}
      (nobody : s.idleThreadCount = 0) :
      Performs s w ⟨.tickling after, cbFiber, idleTerm⟩ .tickle s ⟨after.stage, cbFiber, idleTerm⟩
  | tickle {cbFiber : Option F} {idleTerm : Bool} {after : After F C W}
      (somebody : s.idleThreadCount ≠ 0) :
      Performs s w ⟨.tickling after, cbFiber, idleTerm⟩ .tickle s
        ⟨.writing after, cbFiber, idleTerm⟩
  | write {cbFiber : Option F} {idleTerm : Bool} {after : After F C W} :
      Performs s w ⟨.writing after, cbFiber, idleTerm⟩ .write s.writeByte
        ⟨after.stage, cbFiber, idleTerm⟩
  | stop {cbFiber : Option F} {fresh : F} :
      Performs s w ⟨.scanned none, cbFiber, true⟩ (.branch fresh) s ⟨.stopped, cbFiber, true⟩
  | enterIdle {cbFiber : Option F} {fresh : F} :
      Performs s w ⟨.scanned none, cbFiber, false⟩ (.branch fresh)
        { s with idleThreadCount := s.idleThreadCount + 1 } ⟨.counted, cbFiber, false⟩
  | resume {cbFiber : Option F} {idleTerm : Bool} {fresh f : F} {thread : Option W}
      (rests : s.fiberState f ≠ .exec) :
      Performs s w ⟨.scanned (some ⟨some (.fiber f), thread⟩), cbFiber, idleTerm⟩ (.branch fresh)
        (s.setState f .exec) ⟨.inside false f, cbFiber, idleTerm⟩
  | reuse {idleTerm : Bool} {fresh f : F} {c : C} {thread : Option W}
      (resettable : s.resettable f = true) :
      Performs s w ⟨.scanned (some ⟨some (.cb c), thread⟩), some f, idleTerm⟩ (.branch fresh)
        (s.begin f c thread) ⟨.inside true f, some f, idleTerm⟩
  | begin {idleTerm : Bool} {fresh : F} {c : C} {thread : Option W}
      (new : s.created fresh = false) :
      Performs s w ⟨.scanned (some ⟨some (.cb c), thread⟩), none, idleTerm⟩ (.branch fresh)
        ((s.create fresh).begin fresh c thread) ⟨.inside true fresh, some fresh, idleTerm⟩
  | discard {cbFiber : Option F} {idleTerm : Bool} {fresh : F} {entry : FiberAndThread F C W}
      (ended : ∀ c, entry.task ≠ some (.cb c)) :
      Performs s w ⟨.scanned (some entry), cbFiber, idleTerm⟩ (.branch fresh)
        { s with activeThreadCount := s.activeThreadCount - 1 } ⟨.polling, cbFiber, idleTerm⟩
  | call {cbFiber : Option F} {idleTerm callback wanted : Bool} {f : F} {call : Call F C W T A}
      {next : Shared F C W T A} (called : s.call (some f) call = some (wanted, next)) :
      Performs s w ⟨.inside callback f, cbFiber, idleTerm⟩ (.call call) next
        ⟨(Worker.afterCall callback f call).tickleIf wanted, cbFiber, idleTerm⟩
  | uncountCancled {cbFiber : Option F} {idleTerm callback : Bool} {f : F} :
      Performs s w ⟨.cancled callback f, cbFiber, idleTerm⟩ .uncountEvent
        { s with pendingEventCount := s.pendingEventCount - 1 }
        ⟨.inside callback f, cbFiber, idleTerm⟩
  | yield {cbFiber : Option F} {idleTerm callback : Bool} {f : F} {how : Scheduler.Yield}
      {state : FiberState} (yields : Worker.yieldState s f how = some state) :
      Performs s w ⟨.inside callback f, cbFiber, idleTerm⟩ (.yield how) (s.setState f state)
        ⟨.returned callback f, cbFiber, idleTerm⟩
  | release {cbFiber : Option F} {idleTerm callback : Bool} {f : F} :
      Performs s w ⟨.returned callback f, cbFiber, idleTerm⟩ .release
        { s with activeThreadCount := s.activeThreadCount - 1 }
        ⟨.released callback f, cbFiber, idleTerm⟩
  | requeue {cbFiber cbFiber' : Option F} {idleTerm callback : Bool} {f : F}
      (ready : s.fiberState f = .ready) (kept : cbFiber' = cbFiber ∨ cbFiber' = none) :
      Performs s w ⟨.released callback f, cbFiber, idleTerm⟩ .requeue
        (s.push [⟨some (.fiber f), none⟩])
        ⟨After.round.tickleIf s.fibers.isEmpty, cbFiber', idleTerm⟩
  | rest {cbFiber cbFiber' : Option F} {idleTerm callback : Bool} {f : F} {next : Shared F C W T A}
      (idle : s.fiberState f ≠ .ready)
      (rests : next = s ∨ ∃ state, (state ≠ .exec ∧ state ≠ .ready) ∧ next = s.setState f state)
      (kept : cbFiber' = cbFiber ∨ cbFiber' = none) :
      Performs s w ⟨.released callback f, cbFiber, idleTerm⟩ .requeue next
        ⟨.polling, cbFiber', idleTerm⟩
  | getNextTimer {cbFiber : Option F} {idleTerm : Bool} :
      Performs s w ⟨.counted, cbFiber, idleTerm⟩ .getNextTimer
        { s with timers := (s.timers.getNextTimer s.clock).2 }
        ⟨.timed (s.timers.getNextTimer s.clock).1 s.clock, cbFiber, idleTerm⟩
  | quiet {cbFiber : Option F} {idleTerm : Bool} {reading : UInt64}
      (none_ : s.pendingEventCount = 0) :
      Performs s w ⟨.timed (~~~0) reading, cbFiber, idleTerm⟩ .checkPending s
        ⟨.quiet reading, cbFiber, idleTerm⟩
  | wait {cbFiber : Option F} {idleTerm : Bool} {timeout reading : UInt64}
      (busy : ¬(timeout = ~~~0 ∧ s.pendingEventCount = 0)) :
      Performs s w ⟨.timed timeout reading, cbFiber, idleTerm⟩ .checkPending s
        ⟨.waiting (clampTimeout timeout) reading, cbFiber, idleTerm⟩
  | stopIdle {cbFiber : Option F} {idleTerm : Bool} {reading : UInt64}
      (stopping : s.schedulerStopping = true) :
      Performs s w ⟨.quiet reading, cbFiber, idleTerm⟩ .checkStopping s ⟨.leaving, cbFiber, true⟩
  | stay {cbFiber : Option F} {idleTerm : Bool} {reading : UInt64}
      (running : s.schedulerStopping = false) :
      Performs s w ⟨.quiet reading, cbFiber, idleTerm⟩ .checkStopping s
        ⟨.waiting (clampTimeout (~~~0)) reading, cbFiber, idleTerm⟩
  | epollWait {cbFiber : Option F} {idleTerm : Bool} {timeout reading : UInt64} :
      Performs s w ⟨.waiting timeout reading, cbFiber, idleTerm⟩ .epollWait s
        ⟨.blocked timeout reading (if toInt timeout < 0 then none
          else some (s.clock.toNat + (toInt timeout).toNat)), cbFiber, idleTerm⟩
  | interrupt {cbFiber : Option F} {idleTerm : Bool} {timeout reading : UInt64}
      {deadline : Option Nat} :
      Performs s w ⟨.blocked timeout reading deadline, cbFiber, idleTerm⟩ .interrupt s
        ⟨.waiting (clampTimeout timeout) reading, cbFiber, idleTerm⟩
  | wake {cbFiber : Option F} {idleTerm tickled : Bool} {timeout reading : UInt64}
      {deadline : Option Nat} {ready : Bool} :
      Performs s w ⟨.blocked timeout reading deadline, cbFiber, idleTerm⟩ (.wake tickled)
        { s with ready } ⟨.woken tickled, cbFiber, idleTerm⟩
  | listExpiredCb {cbFiber : Option F} {idleTerm tickled seenEmpty : Bool} {now : UInt64}
      {probe : A}
      {timers : TimerManager.State T A C}
      (timely : s.Timely (.listExpiredCb seenEmpty now probe))
      (enabled : s.timers.Enabled (.listExpiredCb seenEmpty now probe))
      (listed : s.timers.listExpiredCb seenEmpty now probe = .ok timers) :
      Performs s w ⟨.woken tickled, cbFiber, idleTerm⟩ (.listExpiredCb seenEmpty now probe)
        { s with timers }
        ⟨.expired (Worker.handedOut s.timers timers) tickled, cbFiber, idleTerm⟩
  | scheduleExpired {cbFiber : Option F} {idleTerm tickled : Bool} {cbs : List (Option C)} :
      Performs s w ⟨.expired cbs tickled, cbFiber, idleTerm⟩ .scheduleExpired
        (s.push (Shared.entriesOf (cbs.map fun cb => cb.map .cb)))
        ⟨(After.events tickled).tickleIf (s.fibers.isEmpty && !cbs.isEmpty), cbFiber, idleTerm⟩
  | drain {cbFiber : Option F} {idleTerm : Bool} :
      Performs s w ⟨.handling true, cbFiber, idleTerm⟩ .drain { s with pipe := 0 }
        ⟨.handling false, cbFiber, idleTerm⟩
  | trigger {cbFiber : Option F} {idleTerm tickled : Bool} {event : Task F C}
      (registered : event ∈ s.events) :
      Performs s w ⟨.handling tickled, cbFiber, idleTerm⟩ (.trigger event)
        (Shared.push { s with events := s.events.erase event } [⟨some event, none⟩])
        ⟨(After.triggered tickled).tickleIf s.fibers.isEmpty, cbFiber, idleTerm⟩
  | uncountEvent {cbFiber : Option F} {idleTerm tickled : Bool} :
      Performs s w ⟨.triggered tickled, cbFiber, idleTerm⟩ .uncountEvent
        { s with pendingEventCount := s.pendingEventCount - 1 }
        ⟨.handling tickled, cbFiber, idleTerm⟩
  | swapOut {cbFiber : Option F} {idleTerm : Bool} :
      Performs s w ⟨.handling false, cbFiber, idleTerm⟩ .swapOut s ⟨.leaving, cbFiber, idleTerm⟩
  | leaveIdle {cbFiber : Option F} {idleTerm : Bool} :
      Performs s w ⟨.leaving, cbFiber, idleTerm⟩ .leaveIdle
        { s with idleThreadCount := s.idleThreadCount - 1 } ⟨.polling, cbFiber, idleTerm⟩

theorem performs_branch {s next : Shared F C W T A} {w : W} {worker after : Worker F C W}
    {fresh : F} {found : Option (FiberAndThread F C W)} (stage : worker.stage = .scanned found)
    (taken : worker.branch s fresh found = some (next, after)) :
    Performs s w worker (.branch fresh) next after := by
  obtain ⟨_, cbFiber, idleTerm⟩ := worker
  cases stage
  match found with
  | none =>
      cases idleTerm with
      | true =>
          cases taken
          exact .stop
      | false =>
          cases taken
          exact .enterIdle
  | some ⟨none, thread⟩ =>
      cases taken
      exact .discard nofun
  | some ⟨some (.fiber f), thread⟩ =>
      simp only [Worker.branch, Option.filter_some, Worker.alive, Bool.not_eq_true'] at taken
      split at taken
      · rename_i g alive
        split at alive
        · cases alive
          split at taken
          · cases taken
          · rename_i rests
            cases taken
            exact .resume rests
        · cases alive
      · rename_i c alive
        split at alive
        · cases alive
        · cases alive
      · cases taken
        exact .discard nofun
  | some ⟨some (.cb c), thread⟩ =>
      match cbFiber with
      | some f =>
          simp only [Worker.branch, Option.filter_some, Worker.alive, if_true] at taken
          split at taken
          · rename_i resettable
            cases taken
            exact .reuse resettable
          · cases taken
      | none =>
          simp only [Worker.branch, Option.filter_some, Worker.alive, if_true] at taken
          split at taken
          · cases taken
          · rename_i new
            cases taken
            exact .begin (Bool.eq_false_iff.mpr new)

theorem performs_requeue {s : Shared F C W T A} {w : W} {worker : Worker F C W}
    {callback : Bool} {f : F} (stage : worker.stage = .released callback f) :
    Performs s w worker .requeue (worker.requeue s callback f).1
      (worker.requeue s callback f).2 := by
  obtain ⟨_, cbFiber, idleTerm⟩ := worker
  cases stage
  simp only [Worker.requeue, Shared.scheduleNoLock_eq, Option.isSome_some, if_true]
  split
  · rename_i ready
    cases callback with
    | true => exact .requeue ready (.inr rfl)
    | false => exact .requeue ready (.inl rfl)
  · rename_i idle
    split
    · cases callback with
      | true => exact .rest idle (.inr ⟨.init, ⟨nofun, nofun⟩, rfl⟩) (.inl rfl)
      | false => exact .rest idle (.inl rfl) (.inl rfl)
    · cases callback with
      | true => exact .rest idle (.inr ⟨.hold, ⟨nofun, nofun⟩, rfl⟩) (.inr rfl)
      | false => exact .rest idle (.inr ⟨.hold, ⟨nofun, nofun⟩, rfl⟩) (.inl rfl)

/-- A worker does nothing that is not in the list. -/
theorem performs_of_perform {s next : Shared F C W T A} {w : W} {worker after : Worker F C W}
    {move : Move F C W T A} (taken : worker.perform s w move = some (next, after)) :
    Performs s w worker move next after := by
  obtain ⟨stage, cbFiber, idleTerm⟩ := worker
  unfold Worker.perform at taken
  split at taken
  · rename_i here
    cases here
    cases taken
    exact .scan rfl
  · rename_i after here
    cases here
    cases taken
    by_cases nobody : s.idleThreadCount = 0
    · rw [if_neg (by simp [nobody])]
      exact .drop nobody
    · rw [if_pos (UInt64.pos_iff_ne_zero.mpr nobody)]
      exact .tickle nobody
  · rename_i after here
    cases here
    cases taken
    exact .write
  · rename_i fresh found here
    exact performs_branch here taken
  · rename_i call callback f here
    cases here
    obtain ⟨⟨wanted, shared⟩, called, answer⟩ := Option.map_eq_some_iff.mp taken
    cases answer
    exact .call called
  · rename_i callback f here
    cases here
    cases taken
    exact .uncountCancled
  · rename_i how callback f here
    cases here
    obtain ⟨state, yields, answer⟩ := Option.map_eq_some_iff.mp taken
    cases answer
    exact .yield yields
  · rename_i callback f here
    cases here
    cases taken
    exact .release
  · rename_i callback f here
    obtain ⟨rfl, rfl⟩ := Prod.mk.inj (Option.some.inj taken)
    exact performs_requeue here
  · rename_i here
    cases here
    cases taken
    exact .getNextTimer
  · rename_i timeout reading here
    cases here
    cases taken
    split
    · rename_i none_
      obtain ⟨rfl, none_⟩ := none_
      exact .quiet none_
    · rename_i busy
      exact .wait busy
  · rename_i reading here
    cases here
    split at taken
    · rename_i stopping
      cases taken
      exact .stopIdle stopping
    · rename_i running
      cases taken
      exact .stay (Bool.eq_false_iff.mpr running)
  · rename_i timeout reading here
    cases here
    cases taken
    exact .epollWait
  · rename_i timeout reading deadline here
    cases here
    cases taken
    exact .interrupt
  · rename_i tickled timeout reading deadline here
    cases here
    split at taken
    · cases taken
    · cases taken
      cases tickled with
      | true => exact .wake
      | false => exact .wake
  · rename_i seenEmpty now probe tickled here
    cases here
    split at taken
    · rename_i allowed
      obtain ⟨timers, listed, answer⟩ := Option.map_eq_some_iff.mp taken
      cases answer
      refine .listExpiredCb allowed.2 allowed.1 ?_
      cases result : s.timers.listExpiredCb seenEmpty now probe with
      | error fault =>
          rw [result] at listed
          cases listed
      | ok timers' =>
          rw [result] at listed
          cases listed
          rfl
    · cases taken
  · rename_i cbs tickled here
    cases here
    rw [Shared.scheduleRange_eq, List.isEmpty_map] at taken
    cases taken
    exact .scheduleExpired
  · rename_i here
    cases here
    cases taken
    exact .drain
  · rename_i event tickled here
    cases here
    rw [Shared.scheduleNoLock_eq] at taken
    split at taken
    · rename_i registered
      cases taken
      exact .trigger registered
    · cases taken
  · rename_i tickled here
    cases here
    cases taken
    exact .uncountEvent
  · rename_i here
    cases here
    cases taken
    exact .swapOut
  · rename_i here
    cases here
    cases taken
    exact .leaveIdle
  · cases taken

/-- What a call does. -/
inductive Calls (s : Shared F C W T A) (self : Option F) :
    Call F C W T A → Bool → Shared F C W T A → Prop where
  | schedule {entry : FiberAndThread F C W} :
      Calls s self (.schedule entry) s.fibers.isEmpty
        ((s.ask entry).push (if entry.task.isSome then [entry] else []))
  | scheduleAll {tasks : List (Option (Task F C))} :
      Calls s self (.scheduleAll tasks) (s.fibers.isEmpty && !tasks.isEmpty)
        ((tasks.foldl (fun s task => s.ask ⟨task, none⟩) s).push (Shared.entriesOf tasks))
  | timer {action : TimerManager.Action T A C} {wanted : Bool} {timers : TimerManager.State T A C}
      (called : s.callTimer action = some (wanted, { s with timers })) :
      Calls s self (.timer action) wanted { s with timers }
  | addEvent {cb : Option C} {task : Task F C}
      (own : ∀ f, task = .fiber f → self = some f ∧ s.fiberState f = .exec) :
      Calls s self (.addEvent cb true) false
        { s with events := s.events ++ [task], pendingEventCount := s.pendingEventCount + 1 }
  | addEventFails {cb : Option C} : Calls s self (.addEvent cb false) false s
  | delEvent {event : Task F C} (registered : event ∈ s.events) :
      Calls s self (.delEvent event) false
        { s with events := s.events.erase event, pendingEventCount := s.pendingEventCount - 1 }
  | cancleEvent {event : Task F C} {outsideCancling : Nat} (registered : event ∈ s.events) :
      Calls s self (.cancleEvent event) s.fibers.isEmpty
        (Shared.push { s with events := s.events.erase event, outsideCancling }
          [⟨some event, none⟩])

namespace Shared

/-- Naming threads for a range changes nothing else. -/
theorem askAll_eq (s : Shared F C W T A) (tasks : List (Option (Task F C))) :
    ∃ created asked,
      tasks.foldl (fun s task => s.ask ⟨task, none⟩) s = { s with created, asked } := by
  induction tasks generalizing s with
  | nil => exact ⟨s.created, s.asked, rfl⟩
  | cons task rest inductionHypothesis =>
      obtain ⟨created, asked, first⟩ := ask_eq s ⟨task, none⟩
      obtain ⟨created', asked', others⟩ := inductionHypothesis (s.ask ⟨task, none⟩)
      refine ⟨created', asked', others.trans ?_⟩
      rw [first]

theorem callTimer_timers {s next : Shared F C W T A} {action : TimerManager.Action T A C}
    {wanted : Bool} (called : s.callTimer action = some (wanted, next)) :
    ∃ timers, next = { s with timers } := by
  unfold callTimer at called
  split at called
  · split at called
    · cases called
      exact ⟨_, rfl⟩
    · obtain ⟨_, _, answer⟩ := Option.map_eq_some_iff.mp called
      cases answer
      exact ⟨_, rfl⟩
    · obtain ⟨_, _, answer⟩ := Option.map_eq_some_iff.mp called
      cases answer
      exact ⟨_, rfl⟩
    · obtain ⟨_, _, answer⟩ := Option.map_eq_some_iff.mp called
      cases answer
      exact ⟨_, rfl⟩
    · cases called
      exact ⟨_, rfl⟩
    · cases called
    · cases called
  · cases called

theorem calls_of_call {s next : Shared F C W T A} {self : Option F} {call : Call F C W T A}
    {wanted : Bool} (called : s.call self call = some (wanted, next)) :
    Calls s self call wanted next := by
  cases call with
  | schedule entry =>
      obtain ⟨created, asked, same⟩ := ask_eq s entry
      have result := Option.some.inj called
      rw [scheduleNoLock_eq] at result
      obtain ⟨rfl, rfl⟩ := Prod.mk.inj result
      rw [show (s.ask entry).fibers = s.fibers by rw [same]]
      exact .schedule
  | scheduleAll tasks =>
      obtain ⟨created, asked, same⟩ := askAll_eq s tasks
      have result := Option.some.inj called
      rw [scheduleRange_eq] at result
      obtain ⟨rfl, rfl⟩ := Prod.mk.inj result
      rw [show (tasks.foldl (fun s task => s.ask ⟨task, none⟩) s).fibers = s.fibers by rw [same]]
      exact .scheduleAll
  | timer action =>
      have called : s.callTimer action = some (wanted, next) := called
      obtain ⟨timers, rfl⟩ := callTimer_timers called
      exact .timer called
  | addEvent cb registers =>
      obtain ⟨added, ran, answer⟩ := Option.map_eq_some_iff.mp called
      cases answer
      cases registers with
      | false =>
          cases ran
          exact .addEventFails
      | true =>
          unfold addEvent at ran
          simp only [Bool.not_true, Bool.false_eq_true, if_false] at ran
          split at ran
          · cases ran
            exact .addEvent nofun
          · rename_i f
            split at ran
            · rename_i runs
              cases ran
              refine .addEvent ?_
              rintro g ⟨⟩
              exact ⟨rfl, runs⟩
            · cases ran
          · cases ran
  | delEvent event =>
      obtain ⟨left, ran, answer⟩ := Option.map_eq_some_iff.mp called
      cases answer
      unfold delEvent at ran
      split at ran
      · rename_i registered
        cases ran
        exact .delEvent registered
      · cases ran
  | cancleEvent event =>
      have called : s.cancleEvent self event = some (wanted, next) := called
      unfold cancleEvent at called
      split at called
      · rename_i registered
        rw [scheduleNoLock_eq] at called
        cases called
        exact .cancleEvent registered
      · cases called

end Shared

/-- A call leaves the rest of memory alone. -/
theorem Calls.frame {s next : Shared F C W T A} {self : Option F} {call : Call F C W T A}
    {wanted : Bool} (calls : Calls s self call wanted next) :
    ∃ fibers scheduled created asked timers events pendingEventCount outsideCancling,
      next = { s with
        fibers, scheduled, created, asked, timers, events, pendingEventCount, outsideCancling } := by
  cases calls with
  | @schedule entry =>
      obtain ⟨created, asked, same⟩ := s.ask_eq entry
      rw [same]
      exact ⟨_, _, _, _, _, _, _, _, rfl⟩
  | @scheduleAll tasks =>
      obtain ⟨created, asked, same⟩ := s.askAll_eq tasks
      rw [same]
      exact ⟨_, _, _, _, _, _, _, _, rfl⟩
  | timer | addEvent | addEventFails | delEvent | cancleEvent =>
      exact ⟨_, _, _, _, _, _, _, _, rfl⟩

namespace State

/-- The worker `w` has made a step. -/
def moved (s : State F C W T A) (w : W) (shared : Shared F C W T A) (worker : Worker F C W) :
    State F C W T A :=
  { s with shared, worker := Function.update s.worker w worker }

variable (s : State F C W T A) (w : W) (shared : Shared F C W T A) (worker : Worker F C W)

@[simp] theorem moved_shared : (s.moved w shared worker).shared = shared := rfl

@[simp] theorem moved_worker_self : (s.moved w shared worker).worker w = worker := by
  simp only [moved, Function.update_self]

theorem moved_worker_of_ne {v : W} (apart : v ≠ w) :
    (s.moved w shared worker).worker v = s.worker v := by
  simp only [moved, Function.update_of_ne apart]

end State

/-- What a step of the whole manager does. -/
inductive Steps [Fintype W] (s : State F C W T A) : Action F C W T A → State F C W T A → Prop where
  | worker {w : W} {move : Move F C W T A} {shared : Shared F C W T A} {worker : Worker F C W}
      (performs : Performs s.shared w (s.worker w) move shared worker) :
      Steps s (.worker w move) (s.moved w shared worker)
  | outside {call : Call F C W T A} {wanted : Bool} {shared : Shared F C W T A}
      (calls : Calls s.shared none call wanted shared) :
      Steps s (.outside call) { s with shared := { shared with
        outsideTickling := shared.outsideTickling + wanted.toNat } }
  | outsideDrop (nobody : s.shared.idleThreadCount = 0) :
      Steps s .outsideTickle { s with shared := { s.shared with
        outsideTickling := s.shared.outsideTickling - 1 } }
  | outsideTickle (somebody : s.shared.idleThreadCount ≠ 0) :
      Steps s .outsideTickle { s with shared := { s.shared with
        outsideTickling := s.shared.outsideTickling - 1
        outsideWriting := s.shared.outsideWriting + 1 } }
  | outsideWrite : Steps s .outsideWrite { s with shared :=
      { s.shared.writeByte with outsideWriting := s.shared.outsideWriting - 1 } }
  | outsideUncount : Steps s .outsideUncount { s with shared := { s.shared with
      pendingEventCount := s.shared.pendingEventCount - 1
      outsideCancling := s.shared.outsideCancling - 1 } }
  | advance {clock : UInt64} (later : s.shared.clock ≤ clock) :
      Steps s (.advance clock) { s with shared := { s.shared with clock } }
  /-- A step of `stop` that starts no worker. -/
  | stopper {action : Action F C W T A} {autoStop stopping : Bool} (tickles : Nat)
      {stopper : Stopper} (stops : action = .stop ∨ action = .proceed) :
      Steps s action { s with
        shared := { s.shared with
          autoStop
          stopping
          outsideTickling := s.shared.outsideTickling + tickles }
        stopper }
  /-- The root fiber is called. -/
  | start {root : W} (rests : (s.worker root).stage = .off) :
      Steps s .proceed
        { s.moved root s.shared ((s.worker root).goto .polling) with stopper := .calling }

namespace State

variable [Fintype W]

theorem steps_of_step {s next : State F C W T A} {action : Action F C W T A}
    (taken : s.step action = some next) : Steps s action next := by
  cases action with
  | worker w move =>
      obtain ⟨⟨shared, worker⟩, performed, rfl⟩ := Option.map_eq_some_iff.mp taken
      exact .worker (performs_of_perform performed)
  | outside call =>
      obtain ⟨⟨wanted, shared⟩, called, rfl⟩ := Option.map_eq_some_iff.mp taken
      have calls := Shared.calls_of_call called
      cases wanted with
      | true => exact .outside calls
      | false => exact .outside calls
  | outsideTickle =>
      simp only [step] at taken
      split at taken
      · cases taken
      · cases taken
        by_cases nobody : s.shared.idleThreadCount = 0
        · rw [if_neg (by simp [nobody])]
          exact .outsideDrop nobody
        · rw [if_pos (UInt64.pos_iff_ne_zero.mpr nobody)]
          exact .outsideTickle nobody
  | outsideWrite =>
      simp only [step] at taken
      split at taken
      · cases taken
      · cases taken
        exact .outsideWrite
  | outsideUncount =>
      simp only [step] at taken
      split at taken
      · cases taken
      · cases taken
        exact .outsideUncount
  | advance clock =>
      simp only [step] at taken
      split at taken
      · rename_i later
        cases taken
        exact .advance later
      · cases taken
  | stop =>
      simp only [step] at taken
      split at taken
      · cases taken
        dsimp only [State.stop]
        split
        · exact .stopper 0 (.inl rfl)
        · exact .stopper _ (.inl rfl)
      · cases taken
  | proceed =>
      simp only [step, proceed] at taken
      split at taken
      · split at taken
        · cases taken
          exact .stopper 0 (.inr rfl)
        · cases taken
          exact .stopper _ (.inr rfl)
      · split at taken
        · cases taken
          exact .stopper 0 (.inr rfl)
        · split at taken
          · rename_i rests
            cases taken
            exact .start rests
          · cases taken
      · split at taken
        · cases taken
          exact .stopper 0 (.inr rfl)
        · cases taken
      · split at taken
        · cases taken
          exact .stopper 0 (.inr rfl)
        · cases taken
      · cases taken

end State

end Sylar.Manager
