import Sylar.Library.Progress
import Sylar.Manager.Tasks
import Sylar.Manager.TimerWakeups
import Sylar.Timer.History

/-!
# Where callbacks come from and where they are

A callback comes to the manager by `schedule`, by `addEvent`, or when its timer has
expired. From then on it waits for its event, is among those that `listExpiredCb`
gave a worker, is in the queue or in the local copy of a worker, or was started,
unless its registration ended: `delEvent` took it back, or `addEvent` failed.
-/

namespace Sylar.Manager

open Library TimerManager

set_option linter.unusedSectionVars false

variable {F C W T A : Type} [DecidableEq F] [DecidableEq C] [DecidableEq W] [DecidableEq T]
  [LinearOrder A]

/-- How often a call gives the callback `c` to the manager. -/
def Call.given (c : C) : Call F C W T A → Nat
  | .schedule entry => (Shared.cbOf entry.task).toList.count c
  | .scheduleAll tasks => (tasks.filterMap Shared.cbOf).count c
  | .addEvent cb _ => cb.toList.count c
  | .timer _ | .delEvent _ | .cancleEvent _ => 0

/-- How often a call ends a registration of `c` without scheduling it: `epoll_ctl` fails in
`addEvent`, or `delEvent` takes it back. -/
def Call.ended (c : C) : Call F C W T A → Nat
  | .addEvent cb false => cb.toList.count c
  | .delEvent event => [event].count (.cb c)
  | _ => 0

/-- How often a step of a worker does. -/
def Move.given (c : C) : Move F C W T A → Nat
  | .call made => made.given c
  | _ => 0

/-- How often a step of some thread does. -/
def Action.given (c : C) : Action F C W T A → Nat
  | .worker _ move => move.given c
  | .outside call => call.given c
  | _ => 0

/-- How often a step of a worker ends a registration of `c`. -/
def Move.ended (c : C) : Move F C W T A → Nat
  | .call made => made.ended c
  | _ => 0

/-- How often a step of some thread ends one. -/
def Action.ended (c : C) : Action F C W T A → Nat
  | .worker _ move => move.ended c
  | .outside call => call.ended c
  | _ => 0

/-- How often the callback is among those of expired timers that the worker has not yet
scheduled. -/
def Worker.expiring (c : C) (worker : Worker F C W) : Nat :=
  match worker.stage with
  | .expired cbs _ => cbs.count (some c)
  | _ => 0

namespace Shared

/-- How often timers handed the callback out. -/
def handed (s : Shared F C W T A) (c : C) : Nat :=
  (s.timers.history.filterMap Mark.handedCb).count (some c)

/-- How often the callback waits for an event. -/
def waiting (s : Shared F C W T A) (c : C) : Nat := s.events.count (.cb c)

/-- How often the callback waits for an event or was put in the queue. -/
def arrived (s : Shared F C W T A) (c : C) : Nat := s.waiting c + s.scheduled.count c

theorem arrived_push (s : Shared F C W T A) (entries : List (FiberAndThread F C W)) (c : C) :
    (s.push entries).arrived c =
      s.arrived c + (entries.filterMap fun entry => cbOf entry.task).count c := by
  simp only [arrived, waiting, push, List.count_append]
  omega

theorem cbs_entriesOf (tasks : List (Option (Task F C))) :
    ((entriesOf tasks : List (FiberAndThread F C W)).filterMap fun entry => cbOf entry.task) =
      tasks.filterMap cbOf := by
  induction tasks with
  | nil => rfl
  | cons task rest inductionHypothesis =>
      cases task with
      | none => exact inductionHypothesis
      | some task =>
          cases task with
          | fiber f => exact inductionHypothesis
          | cb c => exact congrArg (c :: ·) inductionHypothesis

theorem count_expired (cbs : List (Option C)) (c : C) :
    ((cbs.map fun cb => cb.map (Task.cb (F := F))).filterMap cbOf).count c =
      cbs.count (some c) := by
  induction cbs with
  | nil => rfl
  | cons cb rest inductionHypothesis =>
      cases cb with
      | none => exact inductionHypothesis
      | some d =>
          rw [List.count_cons, ← inductionHypothesis]
          exact List.count_cons

theorem handed_of_history {s next : Shared F C W T A}
    (same : next.timers.history = s.timers.history) (c : C) : next.handed c = s.handed c := by
  rw [handed, handed, same]

theorem handed_callTimer {s next : Shared F C W T A} {action : TimerManager.Action T A C}
    {wanted : Bool} (called : s.callTimer action = some (wanted, next)) (c : C) :
    next.handed c = s.handed c := by
  unfold callTimer at called
  split at called
  · split at called
    · rename_i t address ms cb recurring now allowed
      cases called
      have locked := TimerManager.State.history_lock
        (s.timers.construct t ⟨address, recurring, ms, now + ms, some cb⟩) t
      exact handed_of_history locked c
    · obtain ⟨answer, ran, result⟩ := Option.map_eq_some_iff.mp called
      cases result
      have handed := TimerManager.State.handed_cancle (ok_of_toOption ran)
      exact congrArg (List.count (some c)) handed
    · obtain ⟨answer, ran, result⟩ := Option.map_eq_some_iff.mp called
      cases result
      exact handed_of_history (TimerManager.State.history_refresh (ok_of_toOption ran)) c
    · obtain ⟨answer, ran, result⟩ := Option.map_eq_some_iff.mp called
      cases result
      exact handed_of_history (TimerManager.State.history_reset (ok_of_toOption ran)) c
    · cases called
      rfl
    · cases called
    · cases called
  · cases called

theorem count_cb (d c : C) : [Task.cb (F := F) d].count (.cb c) = [d].count c :=
  List.count_map_of_injective [d] Task.cb (fun _ _ same => Task.cb.inj same) c

/-- Without a callback an event is for the fiber that calls. -/
theorem fiber_of_addEvent {s next : Shared F C W T A} {self : Option F}
    (registers : s.addEvent self none true = some next) :
    ∃ f, next = { s with
      events := s.events ++ [.fiber f], pendingEventCount := s.pendingEventCount + 1 } := by
  cases self with
  | none => cases registers
  | some f =>
      simp only [addEvent, Bool.not_true, Bool.false_eq_true, if_false] at registers
      split at registers
      · cases registers
        exact ⟨f, rfl⟩
      · cases registers

/-- What waited for an event that is gone. -/
theorem waiting_erase {s : Shared F C W T A} {event : Task F C} (registered : event ∈ s.events)
    (c : C) : (s.events.erase event).count (.cb c) + [event].count (.cb c) = s.waiting c := by
  have whole := (List.perm_cons_erase registered).count_eq (Task.cb c)
  rw [List.count_cons] at whole
  rw [waiting, whole, List.count_singleton]

/-- A callback whose event is triggered is put in the queue. -/
theorem arrived_trigger {s : Shared F C W T A} {event : Task F C} (registered : event ∈ s.events)
    (c : C) :
    (push { s with events := s.events.erase event } [⟨some event, none⟩]).arrived c =
      s.arrived c := by
  rw [arrived_push]
  have taken := waiting_erase registered c
  show (s.events.erase event).count (.cb c) + s.scheduled.count c + _ =
    s.waiting c + s.scheduled.count c
  have triggered : ([(⟨some event, none⟩ : FiberAndThread F C W)].filterMap
      fun entry => cbOf entry.task).count c = [event].count (.cb c) := by
    cases event with
    | fiber f => exact (List.count_eq_zero.mpr (by simp)).symm
    | cb d => exact (count_cb d c).symm
  rw [triggered, ← taken]
  omega

/-- What a call of `addEvent` gives waits for the event, or is gone. -/
theorem arrived_addEvent {s next : Shared F C W T A} {self : Option F} {cb : Option C}
    {registers : Bool} (added : s.addEvent self cb registers = some next) (c : C) :
    next.arrived c + Call.ended c (.addEvent cb registers : Call F C W T A) =
        s.arrived c + cb.toList.count c ∧ next.handed c = s.handed c := by
  cases registers with
  | false =>
      cases added
      exact ⟨rfl, rfl⟩
  | true =>
      cases cb with
      | some d =>
          cases added
          refine ⟨?_, rfl⟩
          have registered : (s.events ++ [Task.cb d]).count (Task.cb c) =
              s.waiting c + [d].count c :=
            List.count_append.trans (congrArg (s.waiting c + ·) (count_cb d c))
          show (s.events ++ [Task.cb d]).count (Task.cb c) + s.scheduled.count c =
            s.waiting c + s.scheduled.count c + [d].count c
          rw [registered, Nat.add_right_comm]
      | none =>
          obtain ⟨f, same⟩ := fiber_of_addEvent added
          rw [same]
          refine ⟨congrArg (· + s.scheduled.count c) ?_, rfl⟩
          exact List.count_append.trans
            (congrArg (s.waiting c + ·) (List.count_eq_zero.mpr (by simp)))

/-- What a call gives arrives, and what it ends is gone. -/
theorem arrived_call {s next : Shared F C W T A} {self : Option F} {call : Call F C W T A}
    {wanted : Bool} (called : s.call self call = some (wanted, next)) (c : C) :
    next.arrived c + call.ended c = s.arrived c + call.given c ∧ next.handed c = s.handed c := by
  cases call with
  | schedule entry =>
      obtain ⟨created, asked, same⟩ := s.ask_eq entry
      have result := Option.some.inj called
      rw [scheduleNoLock_eq, same] at result
      cases result
      refine ⟨(arrived_push _ _ c).trans (congrArg (s.arrived c + ·) ?_), rfl⟩
      obtain ⟨task, thread⟩ := entry
      cases task with
      | none => rfl
      | some task =>
          cases task with
          | fiber f => rfl
          | cb d => rfl
  | scheduleAll tasks =>
      obtain ⟨created, asked, same⟩ := s.askAll_eq tasks
      have result := Option.some.inj called
      rw [scheduleRange_eq, same] at result
      cases result
      refine ⟨(arrived_push _ _ c).trans ?_, rfl⟩
      rw [cbs_entriesOf]
      rfl
  | timer action =>
      have called : s.callTimer action = some (wanted, next) := called
      have handed := handed_callTimer called c
      obtain ⟨timers, rfl⟩ := callTimer_timers called
      exact ⟨rfl, handed⟩
  | addEvent cb registers =>
      obtain ⟨added, ran, answer⟩ := Option.map_eq_some_iff.mp called
      cases answer
      exact arrived_addEvent ran c
  | delEvent event =>
      obtain ⟨left, ran, answer⟩ := Option.map_eq_some_iff.mp called
      cases answer
      unfold delEvent at ran
      split at ran
      · rename_i registered
        cases ran
        refine ⟨?_, rfl⟩
        have taken := waiting_erase registered c
        show (s.events.erase event).count (.cb c) + s.scheduled.count c + [event].count (.cb c) =
          s.waiting c + s.scheduled.count c
        omega
      · cases ran
  | cancleEvent event =>
      have called : s.cancleEvent self event = some (wanted, next) := called
      unfold cancleEvent at called
      split at called
      · rename_i registered
        rw [scheduleNoLock_eq] at called
        cases called
        exact ⟨arrived_trigger registered c, rfl⟩
      · cases called

end Shared

@[simp] theorem expiring_tickleIf (c : C) (after : After F C W) (wanted : Bool)
    (cbFiber : Option F) (idleTerm : Bool) :
    (⟨after.tickleIf wanted, cbFiber, idleTerm⟩ : Worker F C W).expiring c = 0 := by
  cases wanted
  · cases after <;> rfl
  · rfl

@[simp] theorem expiring_stage (c : C) (after : After F C W) (cbFiber : Option F)
    (idleTerm : Bool) : (⟨after.stage, cbFiber, idleTerm⟩ : Worker F C W).expiring c = 0 := by
  cases after <;> rfl

/-- What a worker has of expired timers was handed out, and arrives when it is scheduled. -/
theorem Performs.arrived {s next : Shared F C W T A} {w : W} {worker after : Worker F C W}
    {move : Move F C W T A} (performs : Performs s w worker move next after) (c : C) :
    next.arrived c + after.expiring c + s.handed c + move.ended c =
      s.arrived c + worker.expiring c + next.handed c + move.given c := by
  cases performs with
  | scan | drop | write =>
      simp only [expiring_tickleIf, expiring_stage]
      rfl
  | call called =>
      obtain ⟨arrived, handed⟩ := Shared.arrived_call called c
      rw [expiring_tickleIf, handed]
      show _ + 0 + s.handed c + Call.ended c _ = s.arrived c + 0 + s.handed c + Call.given c _
      omega
  | getNextTimer =>
      have handed : Shared.handed { s with timers := (s.timers.getNextTimer s.clock).2 } c =
          s.handed c :=
        Shared.handed_of_history (TimerManager.State.history_getNextTimer s.timers s.clock) c
      rw [handed]
      rfl
  | @listExpiredCb _ _ tickled seenEmpty now probe timers timely enabled listed =>
      obtain ⟨marks, history⟩ := TimerManager.State.history_listExpiredCb listed
      have out : Worker.handedOut s.timers timers = marks.filterMap Mark.handedCb := by
        rw [Worker.handedOut, history, List.drop_left]
        exact List.filterMap_congr fun mark _ => by cases mark <;> rfl
      have handed : (Shared.handed { s with timers } c) =
          s.handed c + (marks.filterMap Mark.handedCb).count (some c) := by
        rw [Shared.handed, history, List.filterMap_append, List.count_append]
        rfl
      rw [handed, out]
      show s.arrived c + (marks.filterMap Mark.handedCb).count (some c) + s.handed c =
        s.arrived c + 0 + _ + 0
      omega
  | @scheduleExpired _ _ _ cbs =>
      rw [expiring_tickleIf, Shared.arrived_push, Shared.cbs_entriesOf, Shared.count_expired]
      rfl
  | @requeue cbFiber _ idleTerm callback f ready kept =>
      rw [expiring_tickleIf, Shared.arrived_push]
      rfl
  | trigger registered =>
      rw [expiring_tickleIf, Shared.arrived_trigger registered]
      rfl
  | rest idle rests kept =>
      rcases rests with rfl | ⟨state, _, rfl⟩
      · rfl
      · rfl
  | _ => rfl

namespace State

variable [Fintype W] {s next : State F C W T A} {action : Action F C W T A}

/-- How often workers have the callback from expired timers. -/
def expiring (s : State F C W T A) (c : C) : Nat := tally (Worker.expiring c) s.worker

/-- How often a run gives the callback to the manager. -/
def given (c : C) (actions : List (Action F C W T A)) : Nat :=
  (actions.map (Action.given c)).sum

/-- How often a run ends a registration of the callback without scheduling it. -/
def ended (c : C) (actions : List (Action F C W T A)) : Nat :=
  (actions.map (Action.ended c)).sum

end State

end Sylar.Manager
