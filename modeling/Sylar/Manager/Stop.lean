import Sylar.Manager.Tasks
import Sylar.Manager.TimerWakeups

/-!
# Stopping

`stop` asks `stopping` whether anything is left, once without the timers, and a
worker asks it with the timers before it leaves `idle`. `stop_complete` proves that
`stop` leaves no work behind when the two answers agree, the last worker that leaves
`idle` has not missed anything, and nobody adds work after that.
-/

namespace Sylar.Manager

open Library

set_option linter.unusedSectionVars false

variable {F C W T A : Type} [DecidableEq F] [DecidableEq C] [DecidableEq W] [DecidableEq T]
  [LinearOrder A]

namespace Stage

/-- The fiber that was swapped out and is not put back yet. -/
def releases : Stage F C W → Option F
  | .released _ f => some f
  | _ => none

/-- The worker is at the test of `Scheduler::stopping` in `idle`. -/
def isQuiet : Stage F C W → Bool
  | .quiet _ => true
  | _ => false

/-- The worker is in `run`. -/
def running : Stage F C W → Bool
  | .off | .stopped => false
  | _ => true

theorem running_stage (after : After F C W) : after.stage.running = true := by
  cases after <;> rfl

theorem running_tickleIf (after : After F C W) (wanted : Bool) :
    (after.tickleIf wanted).running = true := by
  cases wanted
  · exact running_stage after
  · rfl

@[simp] theorem releases_stage (after : After F C W) : after.stage.releases = none := by
  cases after <;> rfl

@[simp] theorem releases_tickleIf (after : After F C W) (wanted : Bool) :
    (after.tickleIf wanted).releases = none := by
  cases wanted
  · exact releases_stage after
  · rfl

end Stage

section Worker

variable {s next : Shared F C W T A} {w : W} {worker after : Worker F C W}
  {move : Move F C W T A}

/-- A worker runs until it stops, and stops when its idle fiber has ended. -/
theorem Performs.running (performs : Performs s w worker move next after) :
    worker.stage.running = true ∧
      (after.stage.running = true ∨ after.stage = .stopped ∧ after.idleTerm = true) := by
  cases performs with
  | stop => exact ⟨rfl, .inr ⟨rfl, rfl⟩⟩
  | scan | call | requeue | scheduleExpired | trigger =>
      exact ⟨rfl, .inl (Stage.running_tickleIf _ _)⟩
  | drop | write => exact ⟨rfl, .inl (Stage.running_stage _)⟩
  | _ => exact ⟨rfl, .inl rfl⟩

/-- The idle fiber of a worker ends when `stopping` says so. -/
theorem Performs.idleTerm (performs : Performs s w worker move next after) :
    after.idleTerm = worker.idleTerm ∨ move = .checkStopping ∧ worker.stage.isQuiet = true ∧
      s.schedulerStopping = true ∧ next = s ∧ after.stage = .leaving := by
  cases performs with
  | stopIdle stopping => exact .inr ⟨rfl, rfl, stopping, rfl, rfl⟩
  | _ => exact .inl rfl

/-- A worker whose idle fiber has ended does not go into `idle` again. -/
theorem Performs.ended (performs : Performs s w worker move next after)
    (ended : worker.idleTerm = true → worker.stage.idle = true → worker.stage = .leaving)
    (term : after.idleTerm = true) (idle : after.stage.idle = true) : after.stage = .leaving := by
  cases performs with
  | stopIdle | swapOut => rfl
  | scan | requeue =>
      rw [Stage.idle_tickleIf] at idle
      cases idle
  | call =>
      rw [Stage.idle_tickleIf, idle_afterCall] at idle
      cases idle
  | scheduleExpired | trigger =>
      have before := ended term rfl
      cases before
  | drop | write =>
      rw [Stage.idle_stage] at idle
      have before := ended term idle
      cases before
  | tickle =>
      have before := ended term idle
      cases before
  | enterIdle => cases term
  | getNextTimer | quiet | wait | stay | epollWait | interrupt | wake | listExpiredCb | drain
  | uncountEvent =>
      have before := ended term rfl
      cases before
  | _ => cases idle

end Worker

namespace Shared

/-- Nothing is left to do. -/
def Drained (s : Shared F C W T A) : Prop :=
  s.fibers = [] ∧ s.pendingEventCount = 0 ∧ s.timers.timers = []

instance (s : Shared F C W T A) : Decidable s.Drained :=
  inferInstanceAs (Decidable (_ ∧ _))

/-- `IOManager::stopping` with a timeout, at one moment. -/
def managerStoppingTimeout (s : Shared F C W T A) : Bool :=
  (s.timers.getNextTimer s.clock).1 = ~~~0 && s.pendingEventCount = 0 && s.schedulerStopping

/-- No timer begins again. -/
def OneShot (s : Shared F C W T A) : Prop :=
  ∀ t timer, s.timers.timer t = some timer → timer.recurring = false

/-- Without timers the two ask the same. -/
theorem managerStopping_eq {s : Shared F C W T A}
    (none_ : s.managerStopping = true → s.timers.timers = []) :
    s.managerStopping = s.managerStoppingTimeout := by
  unfold managerStopping managerStoppingTimeout at *
  cases pending : decide (s.pendingEventCount = 0) with
  | false => simp
  | true =>
      cases stopping : s.schedulerStopping with
      | false => simp
      | true =>
          have empty := none_ (by rw [stopping, pending]; rfl)
          simp [TimerManager.State.getNextTimer, empty]

end Shared

namespace State

variable [Fintype W] {s next : State F C W T A} {action : Action F C W T A}

/-- The worker will not look for work again, or was never called. -/
def Finished (s : State F C W T A) (w : W) : Prop :=
  (s.worker w).idleTerm = true ∨
    s.root = some w ∧ (s.worker w).stage = .off ∧ s.stopper = .joining

instance (s : State F C W T A) (w : W) : Decidable (s.Finished w) :=
  inferInstanceAs (Decidable (_ ∨ _))

/-- All threads have decided to stop. -/
def Decided (s : State F C W T A) : Prop := ∀ w, s.Finished w

instance (s : State F C W T A) : Decidable s.Decided :=
  inferInstanceAs (Decidable (∀ _, _))

/-- `stop` or `idle` asks `stopping`. -/
def exits (s : State F C W T A) : Action F C W T A → Bool
  | .proceed => s.stopper = .early || s.stopper = .late
  | .worker w .checkStopping => (s.worker w).stage.isQuiet
  | _ => false

/-- The step is the last one by which a thread decides to stop. -/
def lastToDecide (s : State F C W T A) : Action F C W T A → Bool
  | .proceed => s.stopper = .late ∧ s.shared.managerStopping = true ∧
      ∀ w, s.root ≠ some w → (s.worker w).idleTerm = true
  | .worker w .checkStopping => (s.worker w).stage.isQuiet = true ∧
      s.shared.schedulerStopping = true ∧ ∀ v, v ≠ w → s.Finished v
  | _ => false

/-- What the call of an outside thread leaves. -/
def outsideCall (s : State F C W T A) : Action F C W T A → Option (Shared F C W T A)
  | .outside call => (s.shared.call none call).map Prod.snd
  | _ => none

/-- No timer is pending where `stop` or `idle` asks whether anything else is left and nothing
is; the last one to decide has not missed an event, or a fiber that is not put back yet; and
the calls of outside threads leave no work after that. -/
structure Orderly (s : State F C W T A) (action : Action F C W T A) : Prop where
  timers : s.exits action = true → s.shared.managerStopping = true → s.shared.timers.timers = []
  last : s.lastToDecide action = true → s.shared.pendingEventCount = 0 ∧
    ∀ w, ∀ f ∈ (s.worker w).stage.releases, s.shared.fiberState f ≠ .ready
  outside : s.Decided → ∀ shared ∈ s.outsideCall action, shared.Drained

instance (s : State F C W T A) (action : Action F C W T A) : Decidable (s.Orderly action) :=
  decidable_of_iff
    ((s.exits action = true → s.shared.managerStopping = true → s.shared.timers.timers = []) ∧
      (s.lastToDecide action = true → s.shared.pendingEventCount = 0 ∧
        ∀ w, ∀ f ∈ (s.worker w).stage.releases, s.shared.fiberState f ≠ .ready) ∧
      (s.Decided → ∀ shared ∈ s.outsideCall action, shared.Drained))
    ⟨fun ⟨timers, last, outside⟩ => ⟨timers, last, outside⟩,
      fun orderly => ⟨orderly.timers, orderly.last, orderly.outside⟩⟩

/-- What `stop` is for: nothing is left when it returns and only one-shot timers exist. And
wherever `stopping` is asked, its answer is the same with and without a timeout. -/
structure Complete (s : State F C W T A) (action : Action F C W T A) : Prop where
  returns : ∀ next, s.step action = some next → s.stopper ≠ .returned →
    next.stopper = .returned → next.shared.OneShot → next.shared.Drained
  agree : s.exits action = true → s.shared.managerStopping = s.shared.managerStoppingTimeout

/-- Nothing is left, and no worker has anything that makes work. -/
structure Quiescent (s : State F C W T A) : Prop where
  drained : s.shared.Drained
  idle : ∀ w, (s.worker w).stage.busy = false
  released : ∀ w, ∀ f ∈ (s.worker w).stage.releases, s.shared.fiberState f ≠ .ready

/-- The invariant of orderly runs. -/
structure Ending (s : State F C W T A) : Prop where
  counted : s.Counted
  ended : ∀ w, (s.worker w).idleTerm = true → (s.worker w).stage.idle = true →
    (s.worker w).stage = .leaving
  stopped : ∀ w, (s.worker w).stage = .stopped → (s.worker w).idleTerm = true
  root : s.stopper ≠ .calling → ∀ w, s.root = some w →
    (s.worker w).stage = .off ∨ (s.worker w).stage = .stopped
  quiescent : s.Decided → s.Quiescent

/-- What a step of `stop` that is under way does. -/
inductive Proceeds (s : State F C W T A) : State F C W T A → Prop where
  | early (asks : s.stopper = .early) (stopping : s.shared.managerStopping = true) :
      Proceeds s { s with stopper := .returned }
  | begin (asks : s.stopper = .early) : Proceeds s s.beginStop
  | skip {root : W} (asks : s.stopper = .late) (isRoot : s.root = some root)
      (stopping : s.shared.managerStopping = true) : Proceeds s { s with stopper := .joining }
  | start {root : W} (asks : s.stopper = .late) (isRoot : s.root = some root)
      (rests : (s.worker root).stage = .off) :
      Proceeds s { s.moved root s.shared ((s.worker root).goto .polling) with stopper := .calling }
  | back {root : W} (calls : s.stopper = .calling) (isRoot : s.root = some root)
      (ended : (s.worker root).stage = .stopped) : Proceeds s { s with stopper := .joining }
  | join (joins : s.stopper = .joining)
      (ended : ∀ w, s.root ≠ some w → (s.worker w).stage = .stopped) :
      Proceeds s { s with stopper := .returned }

theorem proceeds_of_proceed (taken : s.proceed = some next) : s.Proceeds next := by
  unfold proceed at taken
  split at taken
  · rename_i asks
    split at taken
    · rename_i stopping
      cases taken
      exact .early asks stopping
    · cases taken
      exact .begin asks
  · rename_i asks isRoot
    split at taken
    · rename_i stopping
      cases taken
      exact .skip asks isRoot stopping
    · split at taken
      · rename_i rests
        cases taken
        exact .start asks isRoot rests
      · cases taken
  · rename_i calls isRoot
    split at taken
    · rename_i ended
      cases taken
      exact .back calls isRoot ended
    · cases taken
  · rename_i joins
    split at taken
    · rename_i ended
      cases taken
      exact .join joins ended
    · cases taken
  · cases taken

section Worker

variable {w : W} {move : Move F C W T A} {shared : Shared F C W T A} {worker : Worker F C W}

/-- The worker `w` goes on with nothing that makes work. -/
theorem Quiescent.moved (quiescent : s.Quiescent) (drained : shared.Drained)
    (idle : worker.stage.busy = false)
    (released : ∀ f ∈ worker.stage.releases, shared.fiberState f ≠ .ready)
    (others : ∀ f, s.shared.fiberState f ≠ .ready → shared.fiberState f ≠ .ready) :
    (s.moved w shared worker).Quiescent := by
  refine ⟨drained, fun v => ?_, fun v => ?_⟩
  · by_cases same : v = w
    · subst same
      rwa [moved_worker_self]
    · rw [moved_worker_of_ne _ _ _ _ same]
      exact quiescent.idle v
  · by_cases same : v = w
    · subst same
      rw [moved_worker_self]
      exact released
    · rw [moved_worker_of_ne _ _ _ _ same]
      exact fun f is => others f (quiescent.released v f is)

/-- Where nothing is left, a worker whose idle fiber has ended makes no work. -/
theorem quiescent_worker (quiescent : s.Quiescent)
    (ended : (s.worker w).stage.idle = true → (s.worker w).stage = .leaving)
    (term : (s.worker w).idleTerm = true)
    (performs : Performs s.shared w (s.worker w) move shared worker) :
    (s.moved w shared worker).Quiescent := by
  have drained := quiescent.drained
  have idle := quiescent.idle w
  have released := quiescent.released w
  generalize s.worker w = before at performs ended term idle released
  cases performs with
  | @scan cbFiber idleTerm scan scanned =>
      have empty : scan = ⟨none, false, []⟩ := by
        rw [← scanned, drained.1]
        rfl
      subst empty
      exact quiescent.moved ⟨rfl, drained.2⟩ rfl nofun fun _ => id
  | drop | write =>
      exact quiescent.moved drained ((Stage.busy_stage _).trans idle) (by simp) fun _ => id
  | tickle => exact quiescent.moved drained idle nofun fun _ => id
  | stop => exact quiescent.moved drained rfl nofun fun _ => id
  | requeue ready => exact absurd ready (released _ rfl)
  | rest _ rests =>
      rcases rests with rfl | ⟨state, other, rfl⟩
      · exact quiescent.moved drained rfl nofun fun _ => id
      · refine quiescent.moved drained rfl nofun fun g before => ?_
        simp only [Shared.setState, Function.update_apply]
        split
        · exact other.2
        · exact before
  | leaveIdle => exact quiescent.moved drained rfl nofun fun _ => id
  | enterIdle => cases term
  | stopIdle => cases ended rfl
  | resume | reuse | begin | discard | call | uncountCancled | yield | release => cases idle
  | _ => cases ended rfl

/-- When the last thread decides to stop, nothing is left. -/
theorem Ending.quiescent_of_last (ending : s.Ending) (few : Fintype.card W < 2 ^ 64)
    (orderly : s.Orderly action) (exits : s.exits action = true)
    (last : s.lastToDecide action = true)
    (stopping : s.shared.schedulerStopping = true) : s.Quiescent := by
  obtain ⟨pending, released⟩ := orderly.last last
  have managerStopping : s.shared.managerStopping = true := by
    simp [Shared.managerStopping, stopping, pending]
  have idle := ((ending.counted.accounted few).stopping stopping).2
  have drained := stopping
  simp only [Shared.schedulerStopping, Bool.and_eq_true, List.isEmpty_iff] at drained
  exact ⟨⟨drained.1.2, pending, orderly.timers exits managerStopping⟩, idle, released⟩

theorem ending_worker (ending : s.Ending) (few : Fintype.card W < 2 ^ 64)
    (orderly : s.Orderly (.worker w move)) (counted : (s.moved w shared worker).Counted)
    (performs : Performs s.shared w (s.worker w) move shared worker) :
    (s.moved w shared worker).Ending := by
  obtain ⟨runs, after⟩ := performs.running
  refine ⟨counted, fun v => ?_, fun v => ?_, fun idle v isRoot => ?_, fun decided => ?_⟩
  · by_cases same : v = w
    · subst same
      rw [moved_worker_self]
      exact performs.ended (ending.ended v)
    · rw [moved_worker_of_ne _ _ _ _ same]
      exact ending.ended v
  · by_cases same : v = w
    · subst same
      rw [moved_worker_self]
      intro stopped
      rcases after with runs | ended
      · rw [stopped] at runs
        cases runs
      · exact ended.2
    · rw [moved_worker_of_ne _ _ _ _ same]
      exact ending.stopped v
  · have before := ending.root idle v isRoot
    by_cases same : v = w
    · subst same
      rcases before with off | stopped
      · rw [off] at runs
        cases runs
      · rw [stopped] at runs
        cases runs
    · rwa [moved_worker_of_ne _ _ _ _ same]
  · have others : ∀ v, v ≠ w → s.Finished v := by
      intro v apart
      have finished := decided v
      rwa [Finished, moved_worker_of_ne _ _ _ _ apart] at finished
    have term : worker.idleTerm = true := by
      rcases decided w with term | ⟨_, off, _⟩
      · rwa [moved_worker_self] at term
      · rw [moved_worker_self] at off
        rcases after with runs | ended
        · rw [off] at runs
          cases runs
        · exact ended.2
    rcases performs.idleTerm with same | ⟨rfl, quiet, stopping, rfl, leaving⟩
    · have term := same.symm.trans term
      have before : s.Decided := by
        intro v
        by_cases same : v = w
        · subst same
          exact .inl term
        · exact others v same
      exact quiescent_worker (ending.quiescent before) (ending.ended w term) term performs
    · have quiescent := ending.quiescent_of_last few orderly quiet
        (decide_eq_true ⟨quiet, stopping, others⟩) stopping
      refine quiescent.moved quiescent.drained ?_ ?_ fun _ => id
      · rw [leaving]
        rfl
      · rw [leaving]
        exact nofun

end Worker

/-- A step that leaves the workers and what they do alone. -/
theorem Ending.go (ending : s.Ending) (counted : next.Counted) (worker : next.worker = s.worker)
    (isRoot : next.root = s.root) (fiberState : next.shared.fiberState = s.shared.fiberState)
    (rests : next.stopper ≠ .calling → ∀ w, s.root = some w →
      (s.worker w).stage = .off ∨ (s.worker w).stage = .stopped)
    (quiescent : next.Decided → s.Quiescent ∧ next.shared.Drained) : next.Ending := by
  refine ⟨counted, ?_, ?_, ?_, fun decided => ?_⟩
  · rw [worker]
    exact ending.ended
  · rw [worker]
    exact ending.stopped
  · rw [worker, isRoot]
    exact rests
  · obtain ⟨before, drained⟩ := quiescent decided
    refine ⟨drained, ?_, ?_⟩
    · rw [worker]
      exact before.idle
    · rw [worker, fiberState]
      exact before.released

/-- A step that leaves `stop` alone, too. -/
theorem Ending.elsewhere (ending : s.Ending) (counted : next.Counted)
    (worker : next.worker = s.worker) (isRoot : next.root = s.root)
    (fiberState : next.shared.fiberState = s.shared.fiberState) (stopper : next.stopper = s.stopper)
    (drained : s.shared.Drained → next.shared.Drained) : next.Ending := by
  refine ending.go counted worker isRoot fiberState (fun idle => ending.root (stopper ▸ idle)) ?_
  intro decided
  have before : s.Decided := by
    intro w
    have finished := decided w
    rwa [Finished, worker, isRoot, stopper] at finished
  have quiescent := ending.quiescent before
  exact ⟨quiescent, drained quiescent.drained⟩

/-- No thread decides by a step of `stop` that does not skip the root fiber. -/
theorem Decided.before (decided : next.Decided) (worker : next.worker = s.worker)
    (isRoot : next.root = s.root)
    (called : next.stopper = .joining → ∀ w, s.root = some w → (s.worker w).stage ≠ .off) :
    s.Decided := by
  intro w
  rcases decided w with term | ⟨root, off, joins⟩
  · rw [worker] at term
    exact .inl term
  · rw [worker] at off
    rw [isRoot] at root
    exact absurd off (called joins w root)

theorem joining_of_beginStop (joins : s.beginStop.stopper = .joining) (w : W) :
    s.root ≠ some w := by
  intro isRoot
  simp [beginStop, isRoot] at joins

theorem beginStop_not_returned (s : State F C W T A) : s.beginStop.stopper ≠ .returned := by
  simp only [beginStop]
  split <;> exact nofun

theorem ending_proceed (few : Fintype.card W < 2 ^ 64) (ending : s.Ending)
    (orderly : s.Orderly .proceed) (counted : next.Counted) (proceeds : s.Proceeds next) :
    next.Ending := by
  cases proceeds with
  | early asks stopping =>
      refine ending.go counted rfl rfl rfl (fun _ => ending.root (by rw [asks]; exact nofun)) ?_
      intro decided
      have quiescent := ending.quiescent (decided.before rfl rfl nofun)
      exact ⟨quiescent, quiescent.drained⟩
  | begin asks =>
      refine ending.go counted rfl rfl rfl (fun _ => ending.root (by rw [asks]; exact nofun)) ?_
      intro decided
      have quiescent := ending.quiescent (decided.before rfl rfl fun joins w isRoot =>
        absurd isRoot (joining_of_beginStop joins w))
      exact ⟨quiescent, quiescent.drained⟩
  | skip asks isRoot stopping =>
      refine ending.go counted rfl rfl rfl (fun _ => ending.root (by rw [asks]; exact nofun)) ?_
      intro decided
      have last : s.lastToDecide .proceed = true := by
        refine decide_eq_true ⟨asks, stopping, fun w other => ?_⟩
        rcases decided w with term | ⟨root, _, _⟩
        · exact term
        · exact absurd root other
      have quiescent := by
        refine ending.quiescent_of_last few orderly (by simp [exits, asks]) last ?_
        simp only [Shared.managerStopping, Bool.and_eq_true] at stopping
        exact stopping.1
      exact ⟨quiescent, quiescent.drained⟩
  | @start root asks isRoot rests =>
      refine ⟨counted, fun v => ?_, fun v => ?_, fun idle => absurd rfl idle, fun decided => ?_⟩
      · show ((s.moved root s.shared _).worker v).idleTerm = true → _
        by_cases same : v = root
        · subst same
          rw [moved_worker_self]
          exact nofun
        · rw [moved_worker_of_ne _ _ _ _ same]
          exact ending.ended v
      · show ((s.moved root s.shared _).worker v).stage = .stopped → _
        by_cases same : v = root
        · subst same
          rw [moved_worker_self]
          exact nofun
        · rw [moved_worker_of_ne _ _ _ _ same]
          exact ending.stopped v
      · have before : s.Decided := by
          intro v
          have term := (decided v).resolve_right nofun
          have term : ((s.moved root s.shared ((s.worker root).goto .polling)).worker v).idleTerm =
              true := term
          by_cases same : v = root
          · subst same
            rw [moved_worker_self] at term
            exact .inl term
          · rw [moved_worker_of_ne _ _ _ _ same] at term
            exact .inl term
        have quiescent := ending.quiescent before
        have moved : (s.moved root s.shared ((s.worker root).goto .polling)).Quiescent :=
          quiescent.moved quiescent.drained rfl nofun fun _ => id
        exact ⟨moved.drained, moved.idle, moved.released⟩
  | back calls isRoot ended =>
      refine ending.go counted rfl rfl rfl ?_ ?_
      · rintro - w root
        rw [isRoot] at root
        cases root
        exact .inr ended
      · intro decided
        have quiescent := ending.quiescent (decided.before rfl rfl fun _ w root => by
          rw [isRoot] at root
          cases root
          rw [ended]
          exact nofun)
        exact ⟨quiescent, quiescent.drained⟩
  | join joins ended =>
      refine ending.go counted rfl rfl rfl (fun _ => ending.root (by rw [joins]; exact nofun)) ?_
      intro decided
      have quiescent := ending.quiescent (decided.before rfl rfl nofun)
      exact ⟨quiescent, quiescent.drained⟩

theorem ending_stop (ending : s.Ending) (counted : next.Counted)
    (taken : s.step .stop = some next) : next.Ending := by
  simp only [step] at taken
  split at taken
  · rename_i called
    have rests := ending.root (by rcases called with is | is <;> rw [is] <;> rintro ⟨⟩)
    cases taken
    unfold State.stop at counted ⊢
    dsimp only at counted ⊢
    split at counted
    · rename_i alone
      rw [if_pos alone]
      refine ending.go counted rfl rfl rfl (fun _ => rests) fun decided => ?_
      have quiescent := ending.quiescent (decided.before rfl rfl (by rintro ⟨⟩))
      exact ⟨quiescent, quiescent.drained⟩
    · rename_i others
      rw [if_neg others]
      refine ending.go counted rfl rfl rfl (fun _ => rests) fun decided => ?_
      have quiescent := ending.quiescent (decided.before rfl rfl fun joins w isRoot =>
        absurd isRoot (joining_of_beginStop joins w))
      exact ⟨quiescent, quiescent.drained⟩
  · cases taken

theorem ending_step (few : Fintype.card W < 2 ^ 64) (ending : s.Ending) (orderly : s.Orderly action)
    (taken : s.step action = some next) : next.Ending := by
  have counted := ending.counted.step taken
  cases action with
  | worker w move =>
      obtain ⟨⟨shared, worker⟩, performed, rfl⟩ := Option.map_eq_some_iff.mp taken
      exact ending_worker ending few orderly counted (performs_of_perform performed)
  | outside call =>
      obtain ⟨⟨wanted, shared⟩, called, rfl⟩ := Option.map_eq_some_iff.mp taken
      obtain ⟨_, _, _, _, _, _, _, _, frame⟩ := (Shared.calls_of_call called).frame
      have same : ∀ states, shared.fiberState = states →
          (if wanted then { shared with outsideTickling := shared.outsideTickling + 1 }
            else shared).fiberState = states := by
        intro states is
        split <;> exact is
      refine ending.go counted rfl rfl (same _ (by rw [frame])) ending.root fun decided => ?_
      have decided : s.Decided := decided
      have drained := orderly.outside decided shared (congrArg (Option.map Prod.snd) called)
      refine ⟨ending.quiescent decided, ?_⟩
      dsimp only
      split <;> exact drained
  | outsideTickle =>
      cases steps_of_step taken with
      | outsideDrop | outsideTickle => exact ending.elsewhere counted rfl rfl rfl rfl id
      | stopper tickles stops => rcases stops with stops | stops <;> cases stops
  | outsideWrite =>
      cases steps_of_step taken with
      | outsideWrite => exact ending.elsewhere counted rfl rfl rfl rfl id
      | stopper tickles stops => rcases stops with stops | stops <;> cases stops
  | outsideUncount =>
      cases steps_of_step taken with
      | outsideUncount =>
          refine ending.elsewhere counted rfl rfl rfl rfl ?_
          rintro ⟨queue, pending, timers⟩
          exact ⟨queue, congrArg (· - 1) pending, timers⟩
      | stopper tickles stops => rcases stops with stops | stops <;> cases stops
  | advance clock =>
      cases steps_of_step taken with
      | advance => exact ending.elsewhere counted rfl rfl rfl rfl id
      | stopper tickles stops => rcases stops with stops | stops <;> cases stops
  | stop => exact ending_stop ending counted taken
  | proceed => exact ending_proceed few ending orderly counted (proceeds_of_proceed taken)

theorem ending_initial (root : Option W) (clock : UInt64) :
    (initial root clock : State F C W T A).Ending where
  counted := counted_initial root clock
  ended w term := by cases term
  stopped w stopped := by
    simp only [initial] at stopped
    split at stopped <;> cases stopped
  root idle w isRoot := by
    have isRoot : root = some w := isRoot
    simp [initial, isRoot]
  quiescent decided := by
    refine ⟨⟨rfl, rfl, rfl⟩, fun w => ?_, fun w => ?_⟩
    · simp only [initial]
      split <;> rfl
    · simp only [initial]
      split <;> rintro f ⟨⟩

/-- Only `stop` changes where `stop` stands. -/
theorem stops_of_step (taken : s.step action = some next) (changed : next.stopper ≠ s.stopper) :
    action = .stop ∨ action = .proceed := by
  cases steps_of_step taken with
  | stopper tickles stops => exact stops
  | start => exact .inr rfl
  | _ => exact absurd rfl changed

/-- `join` returns when all workers are done. -/
theorem Ending.decided_of_join (ending : s.Ending) (joins : s.stopper = .joining)
    (ended : ∀ w, s.root ≠ some w → (s.worker w).stage = .stopped) : s.Decided := by
  intro w
  by_cases isRoot : s.root = some w
  · rcases ending.root (by rw [joins]; exact nofun) w isRoot with off | stopped
    · exact .inr ⟨isRoot, off, joins⟩
    · exact .inl (ending.stopped w stopped)
  · exact .inl (ending.stopped w (ended w isRoot))

theorem Ending.complete (ending : s.Ending) (orderly : s.Orderly action) : s.Complete action where
  agree exits := Shared.managerStopping_eq (orderly.timers exits)
  returns next taken before returned _ := by
    rcases stops_of_step taken (by rw [returned]; exact before.symm) with rfl | rfl
    · simp only [step] at taken
      split at taken
      · cases taken
        unfold State.stop at returned
        dsimp only at returned
        split at returned
        · cases returned
        · exact absurd returned (beginStop_not_returned _)
      · cases taken
    · cases proceeds_of_proceed taken with
      | early asks stopping =>
          have empty := orderly.timers (by simp [exits, asks]) stopping
          simp only [Shared.managerStopping, Shared.schedulerStopping, Bool.and_eq_true,
            List.isEmpty_iff, decide_eq_true_eq] at stopping
          exact ⟨stopping.1.1.2, stopping.2, empty⟩
      | join joins ended => exact (ending.quiescent (ending.decided_of_join joins ended)).drained
      | begin => exact absurd returned (beginStop_not_returned s)
      | skip | start | back => cases returned

/-- `stop` leaves nothing behind, and `stopping` has one answer wherever it is asked, in any run
in which no timer is pending where nothing else is left, the last thread to decide misses
nothing, and no outside thread makes work after that. -/
theorem stop_complete (threads : UInt64) {root : Option (Fin threads.toNat)} {clock : UInt64}
    {actions : List (Action F C (Fin threads.toNat) T A)}
    (orderly : Guarded step Orderly (initial root clock) actions) :
    Guarded step Complete (initial root clock) actions := by
  have few : Fintype.card (Fin threads.toNat) < 2 ^ 64 := by
    rw [Fintype.card_fin]
    exact threads.toNat_lt
  exact orderly.mono (ending_step few) Ending.complete (ending_initial root clock)

section Runs

/-- A manager with one thread, as small as the runs below need it. -/
abbrev OneThread := Action (Fin 1) (Fin 1) (Fin 1) (Fin 1) (Fin 2)

/-- A timer of `ms` that does not begin again. -/
def addOneShot (ms : UInt64) : OneThread := .outside (.timer (.addTimer 0 0 ms 0 false 0))

/-- A timer is added, its callback runs, and the manager is stopped. -/
def stopAfterTimer : List OneThread :=
  [addOneShot 0, .outsideTickle, .worker 0 .scan, .worker 0 (.branch 0), .worker 0 .getNextTimer,
    .worker 0 .checkPending, .worker 0 .epollWait, .worker 0 (.wake false),
    .worker 0 (.listExpiredCb false 0 1), .worker 0 .scheduleExpired, .worker 0 .tickle,
    .worker 0 .write, .worker 0 .swapOut, .worker 0 .leaveIdle, .worker 0 .scan,
    .worker 0 (.branch 0), .worker 0 (.yield .finish), .worker 0 .release, .worker 0 .requeue,
    .stop, .worker 0 .scan, .worker 0 (.branch 0), .worker 0 .getNextTimer,
    .worker 0 .checkPending, .worker 0 .checkStopping, .worker 0 .leaveIdle, .worker 0 .scan,
    .worker 0 (.branch 0), .proceed]

theorem stop_complete_afterTimer :
    (exec step (initial (none : Option (Fin 1)) 0) stopAfterTimer).isSome = true ∧
      Guarded step Complete (initial (none : Option (Fin 1)) 0) stopAfterTimer :=
  ⟨by decide, stop_complete 1 (by decide)⟩

/-- With the caller as its only thread, `stop` returns at once and abandons a timer. -/
theorem stop_abandons :
    ¬Guarded step Complete (initial (some 0 : Option (Fin 1)) 0)
      [addOneShot 100, .stop, .proceed] := by
  rintro ⟨_, afterAdd⟩
  obtain ⟨_, afterStop⟩ := afterAdd _ rfl
  obtain ⟨complete, _⟩ := afterStop _ rfl
  have drained := complete.returns _ rfl nofun rfl ?_
  · cases drained.2.2
  · intro t timer known
    rw [Subsingleton.elim t 0] at known
    cases known
    rfl

end Runs

end State

end Sylar.Manager
