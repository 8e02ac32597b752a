import Sylar.Manager.Steps

/-!
# Wake-ups for tasks

A worker looks at the queue once and then goes to sleep. `schedule` tickles only for
the first entry of an empty queue, and `tickle` writes only when a thread is counted as
idle. `tasks_heeded` proves that no worker sleeps on a task it could run as long as
somebody watches the queue whenever `schedule` makes no tickle or `tickle` no write.
-/

namespace Sylar.Manager

open Library

set_option linter.unusedSectionVars false

variable {F C W T A : Type} [DecidableEq F] [DecidableEq C] [DecidableEq W] [DecidableEq T]
  [LinearOrder A]

/-- The worker comes back to the queue before it sleeps, or runs a task. -/
def After.watches : After F C W → Bool
  | .branch _ | .task .. | .cancled .. => false
  | _ => true

namespace Stage

/-- The worker is in `tickle`, or will scan the queue before it sleeps or runs a task. -/
def watches : Stage F C W → Bool
  | .polling | .tickling _ | .writing _ | .returned .. | .released .. => true
  | .woken _ | .expired .. | .handling _ | .triggered _ | .leaving => true
  | _ => false

/-- The worker has scanned the queue in vain and goes to sleep, or sleeps. -/
def drowsy : Stage F C W → Bool
  | .tickling (.branch none) | .writing (.branch none) | .scanned none => true
  | .counted | .timed .. | .quiet _ | .waiting .. | .blocked .. => true
  | _ => false

/-- The worker is in `epoll_wait`. -/
def sleeps : Stage F C W → Bool
  | .blocked .. => true
  | _ => false

/-- The worker is in a task, or in a call that the task makes. -/
def inTask : Stage F C W → Bool
  | .inside .. | .tickling (.task ..) | .writing (.task ..) => true
  | .cancled .. | .tickling (.cancled ..) | .writing (.cancled ..) => true
  | _ => false

@[simp] theorem watches_stage (after : After F C W) : after.stage.watches = after.watches := by
  cases after <;> rfl

theorem watches_tickleIf {after : After F C W} (watches : after.watches = true) (wanted : Bool) :
    (after.tickleIf wanted).watches = true := by
  cases wanted
  · exact (watches_stage after).trans watches
  · rfl

theorem drowsy_of_sleeps {stage : Stage F C W} (sleeps : stage.sleeps = true) :
    stage.drowsy = true ∧ stage.watches = false := by
  cases stage with
  | blocked => exact ⟨rfl, rfl⟩
  | _ => cases sleeps

/-- The worker is in the tickle of a call that a task makes. -/
def inCall : Stage F C W → Bool
  | .tickling (.task ..) | .tickling (.cancled ..) => true
  | .writing (.task ..) | .writing (.cancled ..) => true
  | _ => false

/-- A worker in a task watches only from a call that wants a tickle. -/
theorem inCall_of_inTask {stage : Stage F C W} (inTask : stage.inTask = true)
    (watches : stage.watches = true) : stage.inCall = true := by
  cases stage with
  | inside | cancled => cases watches
  | tickling after | writing after =>
      cases after with
      | task | cancled => rfl
      | _ => cases inTask
  | _ => cases inTask

/-- A worker behind a call of its task does not go to sleep. -/
theorem drowsy_afterCall (callback : Bool) (f : F) (call : Call F C W T A) :
    (Worker.afterCall callback f call).stage.drowsy = false := by
  cases call <;> rfl

end Stage

/-- The entry may be taken by the thread. -/
def FiberAndThread.For (entry : FiberAndThread F C W) (w : W) : Prop :=
  entry.thread = none ∨ entry.thread = some w

instance (entry : FiberAndThread F C W) (w : W) : Decidable (entry.For w) :=
  inferInstanceAs (Decidable (_ ∨ _))

/-- The entries that a call puts in the queue without a tickle. -/
def Shared.putSilently (s : Shared F C W T A) : Call F C W T A → List (FiberAndThread F C W)
  | .schedule entry => if s.fibers.isEmpty then [] else if entry.task.isSome then [entry] else []
  | .scheduleAll tasks => if s.fibers.isEmpty then [] else entriesOf tasks
  | .cancleEvent event => if s.fibers.isEmpty then [] else [⟨some event, none⟩]
  | _ => []

/-- A call that wants no tickle leaves the queue alone or adds to it silently. -/
theorem Calls.silent {s next : Shared F C W T A} {self : Option F} {call : Call F C W T A}
    (calls : Calls s self call false next) {entry : FiberAndThread F C W}
    (member : entry ∈ next.fibers) : entry ∈ s.fibers ∨ entry ∈ s.putSilently call := by
  generalize unwanted : false = wanted at calls
  cases calls with
  | @schedule added =>
      obtain ⟨created, asked, same⟩ := s.ask_eq added
      rw [same] at member
      rw [Shared.putSilently, ← unwanted, if_neg Bool.false_ne_true]
      exact List.mem_append.mp member
  | @scheduleAll tasks =>
      obtain ⟨created, asked, same⟩ := s.askAll_eq tasks
      rw [same] at member
      rcases List.mem_append.mp member with old | new
      · exact .inl old
      · refine .inr ?_
        have some_ : tasks.isEmpty = false := by
          cases tasks with
          | nil => cases new
          | cons => rfl
        rw [some_, Bool.not_false, Bool.and_true] at unwanted
        rw [Shared.putSilently, ← unwanted, if_neg Bool.false_ne_true]
        exact new
  | cancleEvent =>
      rw [Shared.putSilently, ← unwanted, if_neg Bool.false_ne_true]
      exact List.mem_append.mp member
  | timer | addEvent | addEventFails | delEvent => exact .inl member

/-- A fiber that begins to run does not stop another one. -/
theorem Shared.executing_of_exec {s next : Shared F C W T A} {f : F}
    (runs : next.fiberState = Function.update s.fiberState f .exec)
    {entry : FiberAndThread F C W} (executing : s.executing entry = true) :
    next.executing entry = true := by
  unfold Shared.executing at executing ⊢
  split
  · rename_i g task
    rw [task] at executing
    rw [runs]
    by_cases same : g = f
    · rw [same, Function.update_self]
      rfl
    · rw [Function.update_of_ne same]
      exact executing
  · rename_i other
    split at executing
    · rename_i g task
      exact absurd task (other g)
    · cases executing

namespace State

variable [Fintype W] {s next : State F C W T A} {action : Action F C W T A}

/-- A task that can run waits although a worker that could run it sleeps, no byte is in the
pipe, and all other workers sleep or are in a task. -/
def LostTask (s : State F C W T A) : Prop :=
  ∃ entry ∈ s.shared.fibers, s.shared.executing entry = false ∧
    ∃ w, entry.For w ∧ (s.worker w).stage.sleeps = true ∧ s.shared.pipe = 0 ∧
      ∀ v, v ≠ w → (s.worker v).stage.sleeps = true ∨ (s.worker v).stage.inTask = true

/-- No thread is between a call that wants a tickle and the end of that tickle. -/
def Settled (s : State F C W T A) : Prop :=
  s.shared.outsideTickling = 0 ∧ s.shared.outsideWriting = 0 ∧
    ∀ w, (s.worker w).stage.inCall = false

/-- Some worker that could run the entry is not going to look at the queue again. -/
def Overlooked (s : State F C W T A) (entry : FiberAndThread F C W) : Prop :=
  s.shared.executing entry = false ∧ ∃ w, entry.For w ∧ (s.worker w).stage.drowsy = true

/-- A worker is going to look at the queue, or a wake-up is on its way, apart from `tickles`
outside threads in `tickle` and the worker `but`. -/
def Watched (s : State F C W T A) (tickles : Nat) (but : Option W) : Prop :=
  0 < s.shared.pipe ∨ tickles < s.shared.outsideTickling ∨ 0 < s.shared.outsideWriting ∨
    ∃ v, but ≠ some v ∧ (s.worker v).stage.watches = true

/-- The entries that a step puts in the queue without a tickle. -/
def putSilently (s : State F C W T A) : Action F C W T A → List (FiberAndThread F C W)
  | .outside call | .worker _ (.call call) => s.shared.putSilently call
  | _ => []

/-- The outside threads and the worker whose tickle is dropped because no thread is counted
as idle. -/
def dropped (s : State F C W T A) : Action F C W T A → Option (Nat × Option W)
  | .outsideTickle => if s.shared.idleThreadCount = 0 then some (1, none) else none
  | .worker w .tickle =>
      match (s.worker w).stage with
      | .tickling after =>
          if s.shared.idleThreadCount = 0 ∧ after.watches = false then some (0, some w) else none
      | _ => none
  | _ => none

/-- Whenever an entry is put in the queue without a tickle, or a tickle is dropped, and a
worker overlooks an entry, somebody else watches the queue. -/
def Heeded (s : State F C W T A) (action : Action F C W T A) : Prop :=
  (∀ entry ∈ s.putSilently action, s.Overlooked entry → s.Watched 0 none) ∧
    ∀ drop ∈ s.dropped action, ∀ entry ∈ s.shared.fibers, s.Overlooked entry →
      s.Watched drop.1 drop.2

instance (s : State F C W T A) (entry : FiberAndThread F C W) : Decidable (s.Overlooked entry) :=
  inferInstanceAs (Decidable (s.shared.executing entry = false ∧
    ∃ w, entry.For w ∧ (s.worker w).stage.drowsy = true))

instance (s : State F C W T A) (tickles : Nat) (but : Option W) :
    Decidable (s.Watched tickles but) :=
  inferInstanceAs (Decidable (0 < s.shared.pipe ∨ tickles < s.shared.outsideTickling ∨
    0 < s.shared.outsideWriting ∨ ∃ v, but ≠ some v ∧ (s.worker v).stage.watches = true))

instance (s : State F C W T A) (action : Action F C W T A) : Decidable (s.Heeded action) :=
  inferInstanceAs (Decidable ((∀ entry ∈ s.putSilently action, s.Overlooked entry →
    s.Watched 0 none) ∧ ∀ drop ∈ s.dropped action, ∀ entry ∈ s.shared.fibers,
      s.Overlooked entry → s.Watched drop.1 drop.2))

/-- A worker overlooks an entry only while the queue is watched. -/
def Attended (s : State F C W T A) : Prop :=
  ∀ entry ∈ s.shared.fibers, s.Overlooked entry → s.Watched 0 none

theorem Attended.not_lost (attended : s.Attended) (settled : s.Settled) : ¬s.LostTask := by
  rintro ⟨entry, member, rests, w, for_, sleeps, empty, others⟩
  obtain ⟨noTickle, noWrite, noCall⟩ := settled
  rcases attended entry member ⟨rests, w, for_, (Stage.drowsy_of_sleeps sleeps).1⟩ with
    bytes | tickles | writes | ⟨v, _, watches⟩
  · omega
  · omega
  · omega
  · by_cases same : v = w
    · subst same
      rw [(Stage.drowsy_of_sleeps sleeps).2] at watches
      cases watches
    · rcases others v same with asleep | inTask
      · rw [(Stage.drowsy_of_sleeps asleep).2] at watches
        cases watches
      · have inCall := Stage.inCall_of_inTask inTask watches
        rw [noCall v] at inCall
        cases inCall

section Worker

variable {w : W} {move : Move F C W T A} {shared : Shared F C W T A} {worker : Worker F C W}

/-- A worker that watches is enough. -/
theorem attended_of_watches (watches : worker.stage.watches = true) :
    (s.moved w shared worker).Attended :=
  fun _ _ _ => .inr (.inr (.inr ⟨w, nofun, by rwa [moved_worker_self]⟩))

/-- What watched before the step of `w` watches behind it. -/
theorem Watched.update {tickles : Nat} {but : Option W} (watched : s.Watched tickles but)
    (pipe : s.shared.pipe ≤ shared.pipe)
    (tickling : s.shared.outsideTickling = shared.outsideTickling)
    (writing : s.shared.outsideWriting = shared.outsideWriting)
    (apart : but = some w ∨ (s.worker w).stage.watches = false) :
    (s.moved w shared worker).Watched tickles but := by
  rcases watched with bytes | tickles | writes | ⟨v, other, watches⟩
  · exact .inl (bytes.trans_le pipe)
  · exact .inr (.inl (tickling ▸ tickles))
  · exact .inr (.inr (.inl (writing ▸ writes)))
  · refine .inr (.inr (.inr ⟨v, other, ?_⟩))
    have apart : v ≠ w := by
      rintro rfl
      rcases apart with same | idle
      · exact other same
      · rw [idle] at watches
        cases watches
    rwa [moved_worker_of_ne _ _ _ _ apart]

theorem Watched.weaken {tickles : Nat} {but : Option W} (watched : s.Watched tickles but) :
    s.Watched 0 none := by
  rcases watched with bytes | ticklings | writes | ⟨v, _, watches⟩
  · exact .inl bytes
  · exact .inr (.inl (Nat.zero_lt_of_lt ticklings))
  · exact .inr (.inr (.inl writes))
  · exact .inr (.inr (.inr ⟨v, nofun, watches⟩))

/-- A step that overlooks no new entry overlooks it in the same state. -/
theorem Overlooked.before {entry : FiberAndThread F C W}
    (overlooked : (s.moved w shared worker).Overlooked entry)
    (executing : s.shared.executing entry = true → shared.executing entry = true)
    (drowsy : worker.stage.drowsy = true → (s.worker w).stage.drowsy = true) :
    s.Overlooked entry := by
  obtain ⟨rests, v, for_, sleepy⟩ := overlooked
  refine ⟨?_, v, for_, ?_⟩
  · by_contra runs
    rw [moved_shared, executing (Bool.eq_true_of_not_eq_false runs)] at rests
    cases rests
  · by_cases same : v = w
    · subst same
      rw [moved_worker_self] at sleepy
      exact drowsy sleepy
    · rwa [moved_worker_of_ne _ _ _ _ same] at sleepy

/-- A worker that did not watch goes on without a new entry. -/
theorem Attended.go (attended : s.Attended) (watches : (s.worker w).stage.watches = false)
    (pipe : s.shared.pipe = shared.pipe)
    (tickling : s.shared.outsideTickling = shared.outsideTickling)
    (writing : s.shared.outsideWriting = shared.outsideWriting)
    (fibers : s.shared.fibers = shared.fibers)
    (executing : ∀ entry, s.shared.executing entry = true → shared.executing entry = true)
    (drowsy : worker.stage.drowsy = true → (s.worker w).stage.drowsy = true) :
    (s.moved w shared worker).Attended := by
  intro entry member overlooked
  have watched := attended entry (fibers ▸ member) (overlooked.before (executing entry) drowsy)
  exact watched.update pipe.le tickling writing (.inr watches)

theorem attended_worker (attended : s.Attended) (heeded : s.Heeded (.worker w move))
    (performs : Performs s.shared w (s.worker w) move shared worker) :
    (s.moved w shared worker).Attended := by
  generalize here : s.worker w = before at performs
  cases performs with
  | @scan cbFiber idleTerm scan scanned =>
      subst scanned
      cases wanted : (s.shared.scanList w s.shared.fibers).tickleMe with
      | true => exact attended_of_watches rfl
      | false =>
          rintro entry left ⟨rests, _⟩
          have executing : s.shared.executing entry = true :=
            s.shared.scan_quiet w s.shared.fibers wanted left
          have rests : s.shared.executing entry = false := rests
          rw [executing] at rests
          cases rests
  | @drop cbFiber idleTerm after nobody =>
      cases watches : after.watches with
      | true => exact attended_of_watches ((Stage.watches_stage after).trans watches)
      | false =>
          intro entry member overlooked
          have dropped : (0, some w) ∈ s.dropped (.worker w .tickle) := by
            simp [State.dropped, here, nobody, watches]
          have before : s.Overlooked entry := by
            refine overlooked.before id fun drowsy => ?_
            rw [here]
            cases after with
            | branch found =>
                cases found with
                | none => rfl
                | some entry => cases drowsy
            | task | cancled => cases drowsy
            | _ => cases watches
          have watched := heeded.2 _ dropped entry member before
          exact (watched.update le_rfl rfl rfl (.inl rfl)).weaken
  | write => exact fun _ _ _ => .inl (Nat.succ_pos _)
  | @call _ _ callback wanted f call _ called =>
      have calls := Shared.calls_of_call called
      cases wanted with
      | true => exact attended_of_watches rfl
      | false =>
          obtain ⟨_, _, _, _, _, _, _, _, frame⟩ := calls.frame
          intro entry member overlooked
          have before : s.Overlooked entry := by
            refine overlooked.before ?_ fun drowsy => ?_
            · rw [frame]
              exact id
            · exact absurd drowsy (Bool.eq_false_iff.mp (Stage.drowsy_afterCall callback f call))
          have watched : s.Watched 0 none := by
            rcases calls.silent member with old | new
            · exact attended entry old before
            · exact heeded.1 entry new before
          rw [frame]
          exact watched.update le_rfl rfl rfl (.inr (by rw [here]; rfl))
  | resume | reuse | begin =>
      exact attended.go (by rw [here]; rfl) rfl rfl rfl rfl
        (fun _ => Shared.executing_of_exec rfl) nofun
  | stop | uncountCancled =>
      exact attended.go (by rw [here]; rfl) rfl rfl rfl rfl (fun _ => id) nofun
  | enterIdle | getNextTimer | quiet | wait | stay | epollWait | interrupt =>
      exact attended.go (by rw [here]; rfl) rfl rfl rfl rfl (fun _ => id) fun _ => by rw [here]; rfl
  | requeue | scheduleExpired | trigger =>
      exact attended_of_watches (Stage.watches_tickleIf rfl _)
  | _ => exact attended_of_watches rfl

end Worker

theorem attended_outside {call : Call F C W T A} {wanted : Bool} {shared : Shared F C W T A}
    (attended : s.Attended) (heeded : s.Heeded (.outside call))
    (calls : Calls s.shared none call wanted shared) :
    Attended { s with shared := { shared with
      outsideTickling := shared.outsideTickling + wanted.toNat } } := by
  cases wanted with
  | true => exact fun _ _ _ => .inr (.inl (Nat.succ_pos _))
  | false =>
      obtain ⟨_, _, _, _, _, _, _, _, frame⟩ := calls.frame
      intro entry member overlooked
      have before : s.Overlooked entry := by
        rw [frame] at overlooked
        exact overlooked
      have watched : s.Watched 0 none := by
        rcases calls.silent member with old | new
        · exact attended entry old before
        · exact heeded.1 entry new before
      rw [frame]
      exact watched

theorem attended_step (attended : s.Attended) (heeded : s.Heeded action)
    (taken : s.step action = some next) : next.Attended := by
  cases steps_of_step taken with
  | worker performs => exact attended_worker attended heeded performs
  | outside calls => exact attended_outside attended heeded calls
  | outsideDrop nobody =>
      intro entry member overlooked
      have dropped : (1, none) ∈ s.dropped .outsideTickle := by
        simp [State.dropped, nobody]
      rcases heeded.2 _ dropped entry member overlooked with bytes | ticklings | others
      · exact .inl bytes
      · exact .inr (.inl (Nat.sub_pos_of_lt ticklings))
      · exact .inr (.inr others)
  | outsideTickle => exact fun _ _ _ => .inr (.inr (.inl (Nat.succ_pos _)))
  | outsideWrite => exact fun _ _ _ => .inl (Nat.succ_pos _)
  | outsideUncount | advance => exact attended
  | stopper tickles stops =>
      intro entry member overlooked
      rcases attended entry member overlooked with bytes | ticklings | others
      · exact .inl bytes
      · exact .inr (.inl (Nat.add_pos_left ticklings tickles))
      · exact .inr (.inr others)
  | @start root rests =>
      have polling : (s.moved root s.shared ((s.worker root).goto .polling)).Attended :=
        attended_of_watches rfl
      exact polling

/-- No task waits for a worker that sleeps, in any run in which somebody watches the queue
whenever a tickle is not made. -/
theorem tasks_heeded {root : Option W} {clock : UInt64} {actions : List (Action F C W T A)}
    (heeded : Guarded step Heeded (initial root clock) actions) :
    Along step (fun s => s.Settled → ¬s.LostTask) (initial root clock) actions := by
  have start : (initial root clock : State F C W T A).Attended :=
    fun _ member => absurd member List.not_mem_nil
  exact (along_of_guarded attended_step start heeded).mono
    fun _ attended settled => attended.not_lost settled

section Runs

/-- A manager with one worker, as small as the runs below need it. -/
abbrev OneWorker := Action (Fin 1) (Fin 1) (Fin 1) (Fin 1) (Fin 1)

/-- The steps from an empty queue into `epoll_wait`. -/
def goToSleep : List OneWorker :=
  [.worker 0 (.branch 0), .worker 0 .getNextTimer, .worker 0 .checkPending,
    .worker 0 .checkStopping, .worker 0 .epollWait]

/-- A task is scheduled once the worker sleeps. -/
def scheduledAsleep : List OneWorker :=
  .worker 0 .scan :: goToSleep ++
    [.outside (.schedule ⟨some (.cb 0), none⟩), .outsideTickle, .outsideWrite]

/-- A task is scheduled after the worker has scanned the queue and before it is counted. -/
def scheduledBetween : List OneWorker :=
  [.worker 0 .scan, .outside (.schedule ⟨some (.cb 0), none⟩), .outsideTickle] ++ goToSleep

theorem tasks_heeded_asleep :
    (exec step (initial (none : Option (Fin 1)) 0) scheduledAsleep).isSome = true ∧
      Along step (fun s => s.Settled → ¬s.LostTask) (initial (none : Option (Fin 1)) 0)
        scheduledAsleep :=
  ⟨by decide, tasks_heeded (by decide)⟩

/-- The worker sleeps on the task: `tickle` found no idle thread. -/
theorem task_lost : ¬Along step (fun s => s.Settled → ¬s.LostTask)
    (initial (none : Option (Fin 1)) 0) scheduledBetween := by
  intro along
  have ends : (exec step (initial (none : Option (Fin 1)) 0) scheduledBetween).isSome = true := by
    decide
  have final := along.exec (Option.some_get ends).symm
  refine final ⟨rfl, rfl, fun w => ?_⟩
    ⟨⟨some (.cb 0), none⟩, List.mem_cons_self, rfl, 0, .inl rfl, rfl, rfl, fun v other => ?_⟩
  · rw [Subsingleton.elim w 0]
    rfl
  · exact absurd (Subsingleton.elim v 0) other

end Runs

end State

end Sylar.Manager
