import Sylar.Manager.Steps

/-!
# Tasks are neither lost nor run twice

A callback that was scheduled is in the queue, in the local copy of one worker, or
was started, and `m_activeThreadCount` is the number of workers from the dequeue
of an entry to the end of its `swapIn`.
-/

namespace Sylar.Manager

open Library

set_option linter.unusedSectionVars false

variable {F C W T A : Type} [DecidableEq F] [DecidableEq C] [DecidableEq W] [DecidableEq T]
  [LinearOrder A]

namespace After

/-- The worker has taken an entry and is not done with it. -/
def busy : After F C W → Bool
  | .branch found => found.isSome
  | .task .. | .cancled .. => true
  | _ => false

@[simp] theorem busy_afterCall (callback : Bool) (f : F) (call : Call F C W T A) :
    (Worker.afterCall callback f call).busy = true := by
  cases call <;> rfl

end After

namespace Stage

/-- The worker is between the dequeue of an entry and the end of its `swapIn`. -/
def busy : Stage F C W → Bool
  | .tickling after | .writing after => after.busy
  | .scanned found => found.isSome
  | .inside .. | .cancled .. | .returned .. => true
  | _ => false

@[simp] theorem busy_stage (after : After F C W) : after.stage.busy = after.busy := by
  cases after <;> rfl

@[simp] theorem busy_tickleIf (after : After F C W) (wanted : Bool) :
    (after.tickleIf wanted).busy = after.busy := by
  cases wanted
  · exact busy_stage after
  · rfl

end Stage

namespace Worker

/-- 1 for a worker that is busy. -/
def busyWeight (worker : Worker F C W) : UInt64 := if worker.stage.busy then 1 else 0

/-- Whether the callback `c` is in the local copy. -/
def heldWeight (c : C) (worker : Worker F C W) : Nat :=
  (worker.stage.holding.toList.filterMap fun entry => Shared.cbOf entry.task).count c

end Worker

namespace Shared

/-- How often the callback `c` is in the queue. -/
def queued (s : Shared F C W T A) (c : C) : Nat :=
  (s.fibers.filterMap fun entry => cbOf entry.task).count c

theorem queued_push (s : Shared F C W T A) (entries : List (FiberAndThread F C W)) (c : C) :
    (s.push entries).scheduled.count c + s.queued c =
      s.scheduled.count c + (s.push entries).queued c := by
  simp only [queued, push, List.count_append, List.filterMap_append]
  omega

end Shared

theorem busyWeight_eq (stage : Stage F C W) (cbFiber : Option F) (idleTerm : Bool) :
    (⟨stage, cbFiber, idleTerm⟩ : Worker F C W).busyWeight = if stage.busy then 1 else 0 := rfl

/-- A step counts the thread as active as long as it is busy. -/
theorem Performs.active {s next : Shared F C W T A} {w : W} {worker after : Worker F C W}
    {move : Move F C W T A} (performs : Performs s w worker move next after) :
    next.activeThreadCount + worker.busyWeight = s.activeThreadCount + after.busyWeight := by
  cases performs with
  | @scan cbFiber idleTerm scan scanned =>
      rw [busyWeight_eq, busyWeight_eq, Stage.busy_tickleIf]
      cases found : scan.found <;> simp [Shared.take, After.busy, Stage.busy, found]
  | drop | write =>
      rw [busyWeight_eq, busyWeight_eq, Stage.busy_stage]
      rfl
  | call called =>
      obtain ⟨_, _, _, _, _, _, _, _, rfl⟩ := (Shared.calls_of_call called).frame
      rw [busyWeight_eq, busyWeight_eq, Stage.busy_tickleIf, After.busy_afterCall]
      rfl
  | requeue | scheduleExpired | trigger =>
      rw [busyWeight_eq, busyWeight_eq, Stage.busy_tickleIf]
      rfl
  | rest idle rests kept =>
      rcases rests with rfl | ⟨state, _, rfl⟩
      · rfl
      · rfl
  | discard | release =>
      rw [busyWeight_eq, busyWeight_eq]
      exact (sub_add_cancel s.activeThreadCount 1).trans (add_zero _).symm
  | _ => rfl

/-- What is put in the queue is scheduled. -/
theorem Shared.push_once (s : Shared F C W T A) (entries : List (FiberAndThread F C W)) (c : C) :
    (s.push entries).scheduled.count c + (s.queued c + 0 + s.started.count c) =
      s.scheduled.count c + ((s.push entries).queued c + 0 + (s.push entries).started.count c) := by
  have pushed := s.queued_push entries c
  show _ + (_ + 0 + s.started.count c) = _ + (_ + 0 + s.started.count c)
  omega

theorem heldWeight_eq (c : C) (stage : Stage F C W) (cbFiber : Option F) (idleTerm : Bool) :
    (⟨stage, cbFiber, idleTerm⟩ : Worker F C W).heldWeight c =
      (stage.holding.toList.filterMap fun entry => Shared.cbOf entry.task).count c := rfl

/-- A call puts callbacks in the queue and starts none. -/
theorem Calls.once {s next : Shared F C W T A} {self : Option F} {call : Call F C W T A}
    {wanted : Bool} (calls : Calls s self call wanted next) (c : C) :
    next.scheduled.count c + s.queued c = s.scheduled.count c + next.queued c ∧
      next.started = s.started := by
  cases calls with
  | @schedule entry =>
      obtain ⟨created, asked, same⟩ := s.ask_eq entry
      rw [same]
      exact ⟨Shared.queued_push { s with created, asked } _ c, rfl⟩
  | @scheduleAll tasks =>
      obtain ⟨created, asked, same⟩ := s.askAll_eq tasks
      rw [same]
      exact ⟨Shared.queued_push { s with created, asked } _ c, rfl⟩
  | @cancleEvent event outsideCancling registered =>
      exact ⟨Shared.queued_push { s with events := s.events.erase event, outsideCancling } _ c, rfl⟩
  | timer | addEvent | addEventFails | delEvent => exact ⟨rfl, rfl⟩

/-- A callback leaves the queue for the local copy of a worker and the local copy
when it is started. -/
theorem Performs.once {s next : Shared F C W T A} {w : W} {worker after : Worker F C W}
    {move : Move F C W T A} (performs : Performs s w worker move next after) (c : C) :
    next.scheduled.count c + (s.queued c + worker.heldWeight c + s.started.count c) =
      s.scheduled.count c + (next.queued c + after.heldWeight c + next.started.count c) := by
  cases performs with
  | @scan cbFiber idleTerm scan scanned =>
      have moved : s.queued c = (scan.found.toList.filterMap fun entry =>
          Shared.cbOf entry.task).count c + (s.take scan).queued c := by
        subst scanned
        have whole := ((s.scan_perm w s.fibers).filterMap
          fun entry => Shared.cbOf entry.task).count_eq c
        rwa [List.filterMap_append, List.count_append] at whole
      rw [heldWeight_eq, heldWeight_eq, Stage.holding_tickleIf, moved]
      show s.scheduled.count c + (_ + 0 + s.started.count c) =
        s.scheduled.count c + (_ + _ + s.started.count c)
      simp only [After.holding]
      omega
  | drop | write =>
      rw [heldWeight_eq, heldWeight_eq, Stage.holding_stage]
      rfl
  | call called =>
      obtain ⟨pushed, started⟩ := (Shared.calls_of_call called).once c
      rw [heldWeight_eq, heldWeight_eq, Stage.holding_tickleIf, holding_afterCall, started]
      simp only [Stage.holding]
      omega
  | @reuse _ _ f d thread resettable =>
      have started : (s.begin f d thread).started.count c = s.started.count c + [d].count c :=
        List.count_append
      rw [started]
      show s.scheduled.count c + (s.queued c + [d].count c + s.started.count c) =
        s.scheduled.count c + (s.queued c + 0 + _)
      omega
  | @begin _ f d thread new =>
      have started : ((s.create f).begin f d thread).started.count c =
          s.started.count c + [d].count c := List.count_append
      rw [started]
      show s.scheduled.count c + (s.queued c + [d].count c + s.started.count c) =
        s.scheduled.count c + (s.queued c + 0 + _)
      omega
  | @discard cbFiber idleTerm _ entry ended =>
      have nothing : Shared.cbOf entry.task = none := by
        match task : entry.task with
        | none => rfl
        | some (.fiber f) => rfl
        | some (.cb d) => exact absurd task (ended d)
      have empty :
          (⟨.scanned (some entry), cbFiber, idleTerm⟩ : Worker F C W).heldWeight c = 0 := by
        simp [heldWeight_eq, Stage.holding, nothing]
      rw [empty]
      rfl
  | requeue | scheduleExpired =>
      rw [heldWeight_eq, heldWeight_eq, Stage.holding_tickleIf]
      exact s.push_once _ c
  | trigger =>
      rw [heldWeight_eq, heldWeight_eq, Stage.holding_tickleIf]
      exact Shared.push_once _ _ c
  | rest idle rests kept =>
      rcases rests with rfl | ⟨state, _, rfl⟩
      · rfl
      · rfl
  | _ => rfl

namespace State

variable [Fintype W] {s next : State F C W T A} {action : Action F C W T A}

/-- How many workers have the callback `c` in their local copy. -/
def held (s : State F C W T A) (c : C) : Nat := tally (Worker.heldWeight c) s.worker

/-- The workers from the dequeue of an entry to the end of its `swapIn`. -/
def busy (s : State F C W T A) : Finset W := Finset.univ.filter fun w => (s.worker w).stage.busy

/-- The invariant of all runs. -/
structure Counted (s : State F C W T A) : Prop where
  active : s.shared.activeThreadCount = tally Worker.busyWeight s.worker
  once : ∀ c, s.shared.scheduled.count c =
    s.shared.queued c + s.held c + s.shared.started.count c

theorem counted_initial (root : Option W) (clock : UInt64) :
    (initial root clock : State F C W T A).Counted where
  active := by
    have idle : ∀ w, ((initial root clock : State F C W T A).worker w).busyWeight = 0 := by
      intro w
      simp only [initial, busyWeight_eq]
      split <;> rfl
    exact (Finset.sum_eq_zero fun w _ => idle w).symm
  once c := by
    have empty : ∀ w, ((initial root clock : State F C W T A).worker w).heldWeight c = 0 := by
      intro w
      simp only [initial, heldWeight_eq]
      split <;> rfl
    have nothing : (initial root clock : State F C W T A).held c = 0 :=
      Finset.sum_eq_zero fun w _ => empty w
    rw [nothing]
    rfl

theorem Counted.step (counted : s.Counted) (taken : s.step action = some next) :
    next.Counted := by
  cases steps_of_step taken with
  | @worker w move shared worker performs =>
      refine ⟨Tally.counter counted.active performs.active, fun c => ?_⟩
      have moved := performs.once c
      have before := counted.once c
      have updated := Tally.update (Worker.heldWeight c) s.worker w worker
      show shared.scheduled.count c = shared.queued c +
        tally (Worker.heldWeight c) (Function.update s.worker w worker) + shared.started.count c
      rw [held] at before
      omega
  | @outside call wanted shared calls =>
      obtain ⟨_, _, _, _, _, _, _, _, frame⟩ := calls.frame
      refine ⟨?_, fun c => ?_⟩
      · rw [frame]
        exact counted.active
      · obtain ⟨pushed, started⟩ := calls.once c
        have before := counted.once c
        show shared.scheduled.count c = shared.queued c + s.held c + shared.started.count c
        rw [started]
        omega
  | outsideDrop | outsideTickle | outsideWrite | outsideUncount | advance | stopper =>
      exact ⟨counted.active, counted.once⟩
  | @start root rests =>
      have idle : ((s.worker root).goto .polling).busyWeight = (s.worker root).busyWeight := by
        rw [Worker.busyWeight, Worker.busyWeight, rests]
        rfl
      have empty : ∀ c, ((s.worker root).goto .polling).heldWeight c =
          (s.worker root).heldWeight c := by
        intro c
        rw [Worker.heldWeight, Worker.heldWeight, rests]
        rfl
      refine ⟨Tally.counter counted.active (by rw [idle]; rfl), fun c => ?_⟩
      have updated := Tally.update (Worker.heldWeight c) s.worker root
        ((s.worker root).goto .polling)
      have before := counted.once c
      show s.shared.scheduled.count c = s.shared.queued c + tally (Worker.heldWeight c)
        (Function.update s.worker root ((s.worker root).goto .polling)) + s.shared.started.count c
      rw [empty] at updated
      rw [held] at before
      omega

/-- What `schedule`, `run` and `stopping` are for. Each time a callback was scheduled it
is still in the queue, in the local copy of the worker that took it, or was started;
the active threads are those between a dequeue and the end of its `swapIn`; and when
`Scheduler::stopping` is true all callbacks were started and no worker is in one. -/
structure Accounted (s : State F C W T A) : Prop where
  once : ∀ c, s.shared.scheduled.count c =
    s.shared.queued c + s.held c + s.shared.started.count c
  active : s.shared.activeThreadCount.toNat = s.busy.card
  stopping : s.shared.schedulerStopping = true →
    (∀ c, s.shared.scheduled.count c = s.shared.started.count c) ∧
      ∀ w, (s.worker w).stage.busy = false

/-- A worker that holds a callback is busy. -/
theorem heldWeight_of_idle {worker : Worker F C W} (idle : worker.stage.busy = false) (c : C) :
    worker.heldWeight c = 0 := by
  obtain ⟨stage, cbFiber, idleTerm⟩ := worker
  have nothing : stage.holding = none := by
    cases stage with
    | scanned found => exact Option.not_isSome_iff_eq_none.mp (Bool.eq_false_iff.mp idle)
    | tickling after | writing after =>
        cases after with
        | branch found => exact Option.not_isSome_iff_eq_none.mp (Bool.eq_false_iff.mp idle)
        | _ => rfl
    | _ => rfl
  simp [heldWeight_eq, nothing]

theorem Counted.card (counted : s.Counted) (few : Fintype.card W < 2 ^ 64) :
    s.shared.activeThreadCount.toNat = s.busy.card := by
  rw [counted.active]
  exact Tally.toNat_counter s.worker few

theorem Counted.accounted (counted : s.Counted) (few : Fintype.card W < 2 ^ 64) :
    s.Accounted where
  once := counted.once
  active := counted.card few
  stopping stopping := by
    have card := counted.card few
    simp only [Shared.schedulerStopping, Bool.and_eq_true, decide_eq_true_eq,
      List.isEmpty_iff] at stopping
    obtain ⟨⟨_, drained⟩, inactive⟩ := stopping
    have nobody : s.busy = ∅ := by
      rw [inactive] at card
      exact Finset.card_eq_zero.mp card.symm
    have idle : ∀ w, (s.worker w).stage.busy = false := by
      intro w
      have outside : w ∉ s.busy := nobody ▸ Finset.notMem_empty w
      simpa [busy] using outside
    refine ⟨fun c => ?_, idle⟩
    have empty : s.held c = 0 := Finset.sum_eq_zero fun w _ => heldWeight_of_idle (idle w) c
    have before := counted.once c
    rw [empty, Shared.queued, drained] at before
    simpa using before

end State

end Sylar.Manager
