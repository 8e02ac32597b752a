import Sylar.Manager.Steps

/-!
# Thread affinity

The thread a task is scheduled for stands in its queue entry alone. `run` puts a
fiber that yielded back without it, and so does `triggerEvent`, so that the task
goes on wherever it is taken next. `stays_on_thread` proves that a task stays on its
thread in runs that put it back only where that thread is the only worker.
-/

namespace Sylar.Manager

open Library

set_option linter.unusedSectionVars false

variable {F C W T A : Type} [DecidableEq F] [DecidableEq C] [DecidableEq W] [DecidableEq T]
  [LinearOrder A]

/-- The fiber of an entry. -/
def FiberAndThread.fiber (entry : FiberAndThread F C W) : Option F :=
  match entry.task with
  | some (.fiber f) => some f
  | _ => none

/-- The fiber a worker goes on with after `tickle`. -/
def After.fiber : After F C W → Option F
  | .branch found => found.bind FiberAndThread.fiber
  | .task _ f | .cancled _ f => some f
  | _ => none

@[simp] theorem fiber_afterCall (callback : Bool) (f : F) (call : Call F C W T A) :
    (Worker.afterCall callback f call).fiber = some f := by
  cases call <;> rfl

namespace Stage

/-- The fiber a worker has taken and not put back yet. -/
def fiber : Stage F C W → Option F
  | .tickling after | .writing after => after.fiber
  | .scanned found => found.bind FiberAndThread.fiber
  | .inside _ f | .cancled _ f | .returned _ f | .released _ f => some f
  | _ => none

@[simp] theorem fiber_stage (after : After F C W) : after.stage.fiber = after.fiber := by
  cases after <;> rfl

@[simp] theorem fiber_tickleIf (after : After F C W) (wanted : Bool) :
    (after.tickleIf wanted).fiber = after.fiber := by
  cases wanted
  · exact fiber_stage after
  · rfl

end Stage

/-- What is known of the threads that were asked for. A fiber that a thread was asked for
once is on that thread only, and its entries name it, unless there is no other worker. -/
structure Affine (s : Shared F C W T A) (worker : W → Worker F C W) : Prop where
  created : ∀ f, s.asked f ≠ [] → s.created f = true
  callback : ∀ w f, (worker w).cbFiber = some f → s.created f = true
  queued : ∀ entry ∈ s.fibers, ∀ f, entry.fiber = some f → s.asked f ≠ []
  registered : ∀ f, .fiber f ∈ s.events → s.asked f ≠ []
  carried : ∀ w f, (worker w).stage.fiber = some f → s.asked f ≠ []
  held : ∀ w entry, (worker w).stage.holding = some entry →
    entry.thread = none ∨ entry.thread = some w
  bound : ∀ f t, s.asked f = [some t] → (∀ v, v = t) ∨
    ((∀ entry ∈ s.fibers, entry.fiber = some f → entry.thread = some t) ∧
      ∀ w, (worker w).stage.fiber = some f → w = t)

/-- A fiber that was not asked for once with a thread. -/
def Elsewhere (threads : List (Option W)) : Prop := threads ≠ [] ∧ ∀ t, threads ≠ [some t]

theorem Elsewhere.ask {s : Shared F C W T A} {f : F} (elsewhere : Elsewhere (s.asked f))
    (entry : FiberAndThread F C W) : Elsewhere ((s.ask entry).asked f) := by
  unfold Shared.ask
  split
  · rename_i g task
    by_cases same : f = g
    · subst same
      have now : ((s.create f).setAsked f (s.asked f ++ [entry.thread])).asked f =
          s.asked f ++ [entry.thread] := by
        simp [Shared.setAsked]
      rw [now]
      refine ⟨List.append_ne_nil_of_left_ne_nil elsewhere.1 _, fun t asked => ?_⟩
      have length := congrArg List.length asked
      simp only [List.length_append, List.length_singleton, Nat.add_eq_right] at length
      exact elsewhere.1 (List.length_eq_zero_iff.mp length)
    · simpa [Shared.setAsked, Shared.create, same] using elsewhere
  · exact elsewhere

namespace Affine

variable {s : Shared F C W T A} {worker : W → Worker F C W}

/-- A worker goes on with a fiber it may take, and memory changes elsewhere. -/
theorem carry (affine : Affine s worker) (w : W) {next : Shared F C W T A} {after : Worker F C W}
    (created : next.created = s.created) (asked : next.asked = s.asked)
    (fibers : ∀ entry ∈ next.fibers, entry ∈ s.fibers)
    (events : ∀ task ∈ next.events, task ∈ s.events)
    (callback : ∀ f, after.cbFiber = some f → s.created f = true)
    (known : ∀ f, after.stage.fiber = some f → s.asked f ≠ [])
    (held : ∀ entry, after.stage.holding = some entry →
      entry.thread = none ∨ entry.thread = some w)
    (bound : ∀ f, after.stage.fiber = some f → ∀ t, s.asked f = [some t] →
      (∀ v, v = t) ∨ w = t) :
    Affine next (Function.update worker w after) where
  created := by
    rw [created, asked]
    exact affine.created
  callback v f is := by
    rw [created]
    by_cases same : v = w
    · subst same
      rw [Function.update_self] at is
      exact callback f is
    · rw [Function.update_of_ne same] at is
      exact affine.callback v f is
  queued entry member := by
    rw [asked]
    exact affine.queued entry (fibers entry member)
  registered f member := by
    rw [asked]
    exact affine.registered f (events _ member)
  carried v f is := by
    rw [asked]
    by_cases same : v = w
    · subst same
      rw [Function.update_self] at is
      exact known f is
    · rw [Function.update_of_ne same] at is
      exact affine.carried v f is
  held v entry is := by
    by_cases same : v = w
    · subst same
      rw [Function.update_self] at is
      exact held entry is
    · rw [Function.update_of_ne same] at is
      exact affine.held v entry is
  bound f t is := by
    rw [asked] at is
    by_cases alone : ∀ v, v = t
    · exact .inl alone
    · obtain ⟨entries, workers⟩ := (affine.bound f t is).resolve_left alone
      refine .inr ⟨fun entry member => entries entry (fibers entry member), fun v here => ?_⟩
      by_cases same : v = w
      · subst same
        rw [Function.update_self] at here
        exact (bound f here t is).resolve_left alone
      · rw [Function.update_of_ne same] at here
        exact workers v here

/-- A worker goes on without taking anything, and memory changes elsewhere. -/
theorem go (affine : Affine s worker) (w : W) {next : Shared F C W T A} {after : Worker F C W}
    (created : next.created = s.created) (asked : next.asked = s.asked)
    (fibers : ∀ entry ∈ next.fibers, entry ∈ s.fibers)
    (events : ∀ task ∈ next.events, task ∈ s.events)
    (callback : ∀ f, after.cbFiber = some f → s.created f = true)
    (fiber : ∀ f, after.stage.fiber = some f → (worker w).stage.fiber = some f)
    (holding : ∀ entry, after.stage.holding = some entry →
      (worker w).stage.holding = some entry) :
    Affine next (Function.update worker w after) :=
  affine.carry w created asked fibers events callback
    (fun f is => affine.carried w f (fiber f is))
    (fun entry is => affine.held w entry (holding entry is))
    fun f is t once => (affine.bound f t once).imp_right fun known => known.2 w (fiber f is)

/-- A callback begins on a fiber that was named for it. -/
theorem begun (affine : Affine s worker) (w : W) {next : Shared F C W T A} {f : F}
    {thread : Option W} {idleTerm : Bool} (created : next.created = s.created)
    (asked : next.asked = s.asked) (fibers : next.fibers = s.fibers)
    (events : next.events = s.events) (callback : ∀ g, some f = some g → s.created g = true)
    (own : thread = none ∨ thread = some w) (named : s.asked f = [thread]) :
    Affine next (Function.update worker w ⟨.inside true f, some f, idleTerm⟩) := by
  refine affine.carry w created asked (fun _ member => fibers ▸ member)
    (fun _ member => events ▸ member) callback ?_ nofun ?_
  · rintro g ⟨⟩
    rw [named]
    exact List.cons_ne_nil _ _
  · rintro g ⟨⟩ t is
    rw [named] at is
    rw [List.head_eq_of_cons_eq is] at own
    exact .inr (own.resolve_left nofun |> Option.some.inj).symm

/-- Memory changes where it is not about the queue and its tasks. -/
theorem frame (affine : Affine s worker) {next : Shared F C W T A}
    (created : next.created = s.created) (asked : next.asked = s.asked)
    (fibers : ∀ entry ∈ next.fibers, entry ∈ s.fibers)
    (events : ∀ task ∈ next.events, task ∈ s.events) : Affine next worker where
  created := by
    rw [created, asked]
    exact affine.created
  callback := by
    rw [created]
    exact affine.callback
  queued entry member := by
    rw [asked]
    exact affine.queued entry (fibers entry member)
  registered f member := by
    rw [asked]
    exact affine.registered f (events _ member)
  carried := by
    rw [asked]
    exact affine.carried
  held := affine.held
  bound f t is := by
    rw [asked] at is
    exact (affine.bound f t is).imp_right fun ⟨entries, workers⟩ =>
      ⟨fun entry member => entries entry (fibers entry member), workers⟩

/-- Entries are put in the queue for what was asked for. -/
theorem push (affine : Affine s worker) {entries : List (FiberAndThread F C W)}
    (known : ∀ entry ∈ entries, ∀ f, entry.fiber = some f → s.asked f ≠ [])
    (bound : ∀ entry ∈ entries, ∀ f, entry.fiber = some f → ∀ t, s.asked f = [some t] →
      (∀ v, v = t) ∨ entry.thread = some t) : Affine (s.push entries) worker where
  created := affine.created
  callback := affine.callback
  queued entry member := by
    rcases List.mem_append.mp member with old | new
    · exact affine.queued entry old
    · exact known entry new
  registered := affine.registered
  carried := affine.carried
  held := affine.held
  bound f t asked := by
    rcases affine.bound f t asked with alone | ⟨entriesOld, workers⟩
    · exact .inl alone
    · by_cases alone : ∀ v, v = t
      · exact .inl alone
      · refine .inr ⟨fun entry member is => ?_, workers⟩
        rcases List.mem_append.mp member with old | new
        · exact entriesOld entry old is
        · exact (bound entry new f is t asked).resolve_left alone

/-- A task is put in the queue without a thread. -/
theorem pushTask (affine : Affine s worker) {task : Task F C}
    (alone : ∀ f, task = .fiber f → s.asked f ≠ [] ∧ ∀ t, s.asked f = [some t] → ∀ v, v = t) :
    Affine (s.push [⟨some task, none⟩]) worker := by
  have own : ∀ entry ∈ [(⟨some task, none⟩ : FiberAndThread F C W)], ∀ f, entry.fiber = some f →
      task = .fiber f := by
    intro entry member f is
    rw [List.mem_singleton.mp member] at is
    cases task with
    | cb c => cases is
    | fiber g => exact congrArg Task.fiber (Option.some.inj is)
  exact affine.push (fun entry member f is => (alone f (own entry member f is)).1)
    fun entry member f is t asked => .inl ((alone f (own entry member f is)).2 t asked)

/-- A worker without a task is going to tickle, or goes on. -/
theorem tickles (affine : Affine s worker) (w : W) {after : After F C W} {cbFiber : Option F}
    {wanted idleTerm : Bool} (callback : ∀ f, cbFiber = some f → s.created f = true)
    (fiber : after.fiber = none) (holding : after.holding = none) :
    Affine s (Function.update worker w ⟨after.tickleIf wanted, cbFiber, idleTerm⟩) := by
  refine affine.go w rfl rfl (fun _ => id) (fun _ => id) callback ?_ ?_
  · rw [Stage.fiber_tickleIf, fiber]
    exact nofun
  · rw [Stage.holding_tickleIf, holding]
    exact nofun

/-- Threads are named for a fiber. -/
theorem name (affine : Affine s worker) {f : F} {threads : List (Option W)} {created : F → Bool}
    (known : ∀ g, s.created g = true ∨ g = f → created g = true) (some_ : threads ≠ [])
    (bound : ∀ t, threads = [some t] → (∀ v, v = t) ∨
      ((∀ entry ∈ s.fibers, entry.fiber = some f → entry.thread = some t) ∧
        ∀ w, (worker w).stage.fiber = some f → w = t)) :
    Affine { s with created, asked := Function.update s.asked f threads } worker := by
  have named : ∀ g, s.asked g ≠ [] → Function.update s.asked f threads g ≠ [] := by
    intro g asked
    by_cases same : g = f
    · subst same
      rwa [Function.update_self]
    · rwa [Function.update_of_ne same]
  exact {
    created g asked := by
      have asked : Function.update s.asked f threads g ≠ [] := asked
      refine known g ?_
      by_cases same : g = f
      · exact .inr same
      · rw [Function.update_of_ne same] at asked
        exact .inl (affine.created g asked)
    callback w g is := known g (.inl (affine.callback w g is))
    queued entry member g is := named g (affine.queued entry member g is)
    registered g member := named g (affine.registered g member)
    carried w g is := named g (affine.carried w g is)
    held := affine.held
    bound g t asked := by
      have asked : Function.update s.asked f threads g = [some t] := asked
      by_cases same : g = f
      · subst same
        rw [Function.update_self] at asked
        exact bound t asked
      · rw [Function.update_of_ne same] at asked
        exact affine.bound g t asked }

/-- A thread is named for a fiber that is going to be scheduled. -/
theorem ask (affine : Affine s worker) (entry : FiberAndThread F C W) :
    Affine (s.ask entry) worker ∧
      (∀ f, entry.fiber = some f → (s.ask entry).asked f ≠ []) ∧
      ∀ f, entry.fiber = some f → ∀ t, (s.ask entry).asked f = [some t] →
        entry.thread = some t := by
  obtain ⟨task, thread⟩ := entry
  match task with
  | none => exact ⟨affine, nofun, nofun⟩
  | some (.cb c) => exact ⟨affine, nofun, nofun⟩
  | some (.fiber f) =>
      have first : ∀ t, s.asked f ++ [thread] = [some t] → s.asked f = [] ∧ thread = some t := by
        intro t asked
        cases before : s.asked f with
        | nil =>
            rw [before] at asked
            exact ⟨rfl, List.head_eq_of_cons_eq asked⟩
        | cons first others =>
            rw [before] at asked
            cases others <;> cases asked
      have now : ((s.create f).setAsked f (s.asked f ++ [thread])).asked f =
          s.asked f ++ [thread] := by
        simp [Shared.setAsked]
      refine ⟨affine.name ?_ (List.append_ne_nil_of_right_ne_nil _ (List.cons_ne_nil _ _)) ?_,
        ?_, ?_⟩
      · rintro g (old | rfl)
        · by_cases same : g = f
          · subst same
            exact Function.update_self g true s.created
          · exact (Function.update_of_ne same true s.created).trans old
        · exact Function.update_self g true s.created
      · intro t asked
        have nobody := (first t asked).1
        exact .inr ⟨fun entry member is => absurd nobody (affine.queued entry member f is),
          fun w is => absurd nobody (affine.carried w f is)⟩
      · rintro g ⟨⟩
        show ((s.create f).setAsked f (s.asked f ++ [thread])).asked f ≠ []
        rw [now]
        exact List.append_ne_nil_of_right_ne_nil _ (List.cons_ne_nil _ _)
      · rintro g ⟨⟩ t asked
        have asked : ((s.create f).setAsked f (s.asked f ++ [thread])).asked f = [some t] := asked
        rw [now] at asked
        exact (first t asked).2

/-- The fibers of a range are named without a thread. -/
theorem askAll (affine : Affine s worker) (tasks : List (Option (Task F C))) :
    let next := tasks.foldl (fun s task => s.ask ⟨task, none⟩) s
    Affine next worker ∧
      (∀ f, Elsewhere (s.asked f) → Elsewhere (next.asked f)) ∧
      ∀ f, some (.fiber f) ∈ tasks → Elsewhere (next.asked f) := by
  induction tasks generalizing s with
  | nil => exact ⟨affine, fun _ => id, nofun⟩
  | cons task rest inductionHypothesis =>
      obtain ⟨first, known, bound⟩ := affine.ask ⟨task, none⟩
      obtain ⟨others, kept, named⟩ := inductionHypothesis first
      refine ⟨others, fun f old => kept f (old.ask ⟨task, none⟩), fun f member => ?_⟩
      rcases List.mem_cons.mp member with rfl | later
      · refine kept f ⟨known f rfl, fun t asked => ?_⟩
        cases bound f rfl t asked
      · exact named f later

/-- A call of a task or an outside thread. -/
theorem call (affine : Affine s worker) {self : Option F} {call : Call F C W T A} {wanted : Bool}
    {next : Shared F C W T A} (runs : ∀ f, self = some f → s.asked f ≠ [])
    (alone : ∀ f, call = .cancleEvent (.fiber f) → .fiber f ∈ s.events →
      ∀ t, s.asked f = [some t] → ∀ v, v = t)
    (calls : Calls s self call wanted next) : Affine next worker := by
  cases calls with
  | @schedule entry =>
      obtain ⟨asked, known, bound⟩ := affine.ask entry
      refine asked.push ?_ ?_
      · intro other member f is
        split at member
        · rw [List.mem_singleton.mp member] at is
          exact known f is
        · cases member
      · intro other member f is t once
        split at member
        · rw [List.mem_singleton.mp member] at is ⊢
          exact .inr (bound f is t once)
        · cases member
  | @scheduleAll tasks =>
      obtain ⟨asked, _, named⟩ := affine.askAll tasks
      have fibers : ∀ entry ∈ (Shared.entriesOf tasks : List (FiberAndThread F C W)), ∀ f,
          entry.fiber = some f → some (.fiber f) ∈ tasks := by
        intro entry member f is
        obtain ⟨task, inside, rfl⟩ := List.mem_map.mp member
        have fiber : task = some (.fiber f) := by
          match task with
          | none => cases is
          | some (.cb c) => cases is
          | some (.fiber g) =>
              cases is
              rfl
        exact fiber ▸ List.mem_of_mem_filter inside
      exact asked.push (fun entry member f is => (named f (fibers entry member f is)).1)
        fun entry member f is t once => absurd once ((named f (fibers entry member f is)).2 t)
  | timer called => exact affine.frame rfl rfl (fun _ => id) fun _ => id
  | @addEvent cb task own =>
      exact {
        created := affine.created
        callback := affine.callback
        queued := affine.queued
        registered f member := by
          rcases List.mem_append.mp member with old | new
          · exact affine.registered f old
          · exact runs f (own f (List.mem_singleton.mp new).symm).1
        carried := affine.carried
        held := affine.held
        bound := affine.bound }
  | addEventFails => exact affine
  | delEvent => exact affine.frame rfl rfl (fun _ => id) fun _ => List.mem_of_mem_erase
  | @cancleEvent event outsideCancling registered =>
      have erased : Affine { s with events := s.events.erase event, outsideCancling } worker :=
        affine.frame rfl rfl (fun _ => id) fun _ => List.mem_of_mem_erase
      refine erased.pushTask ?_
      rintro f rfl
      exact ⟨affine.registered f registered, alone f rfl registered⟩

end Affine

namespace State

variable [Fintype W] {s next : State F C W T A} {action : Action F C W T A}

/-- The fiber that a step puts back in the queue without a thread. -/
def putBack (s : State F C W T A) : Action F C W T A → Option F
  | .worker w .requeue =>
      match (s.worker w).stage with
      | .released _ f => if s.shared.fiberState f = .ready then some f else none
      | _ => none
  | .worker _ (.trigger (.fiber f)) | .worker _ (.call (.cancleEvent (.fiber f)))
  | .outside (.cancleEvent (.fiber f)) => if s.shared.events.contains (.fiber f) then some f else none
  | _ => none

/-- The worker, its callback fiber and the thread of a callback that begins on a fiber
that was used before. -/
def reused (s : State F C W T A) : Action F C W T A → Option (W × F × W)
  | .worker w (.branch _) =>
      match (s.worker w).stage, (s.worker w).cbFiber with
      | .scanned (some ⟨some (.cb _), some t⟩), some f => some (w, f, t)
      | _, _ => none
  | _ => none

/-- If the fiber was asked for once, with a thread, there is no other worker. -/
def Alone (s : State F C W T A) (f : F) : Prop := ∀ t, s.shared.asked f = [some t] → ∀ v, v = t

/-- Nothing is left of what the fiber executed before. -/
def Unused (s : State F C W T A) (w : W) (f : F) : Prop :=
  (∀ entry ∈ s.shared.fibers, entry.fiber ≠ some f) ∧
    ∀ v, v ≠ w → (s.worker v).stage.fiber ≠ some f

/-- No step loses the thread of a task. -/
def Kept (s : State F C W T A) (action : Action F C W T A) : Prop :=
  (∀ f ∈ s.putBack action, s.Alone f) ∧
    ∀ begun ∈ s.reused action, (∀ v, v = begun.2.2) ∨ s.Unused begun.1 begun.2.1

instance (s : State F C W T A) (f : F) : Decidable (s.Alone f) :=
  inferInstanceAs (Decidable (∀ t, s.shared.asked f = [some t] → ∀ v, v = t))

instance (s : State F C W T A) (w : W) (f : F) : Decidable (s.Unused w f) :=
  inferInstanceAs (Decidable ((∀ entry ∈ s.shared.fibers, entry.fiber ≠ some f) ∧
    ∀ v, v ≠ w → (s.worker v).stage.fiber ≠ some f))

instance (s : State F C W T A) (action : Action F C W T A) : Decidable (s.Kept action) :=
  inferInstanceAs (Decidable ((∀ f ∈ s.putBack action, s.Alone f) ∧
    ∀ begun ∈ s.reused action, (∀ v, v = begun.2.2) ∨ s.Unused begun.1 begun.2.1))

/-- The fiber whose task the worker executes. -/
def executing (s : State F C W T A) (w : W) : Option F :=
  match (s.worker w).stage with
  | .inside _ f | .tickling (.task _ f) | .writing (.task _ f) => some f
  | .cancled _ f | .tickling (.cancled _ f) | .writing (.cancled _ f) => some f
  | _ => none

/-- A task that was scheduled once, with a thread, is executed on that thread. -/
def OnItsThread (s : State F C W T A) : Prop :=
  ∀ w f, s.executing w = some f → ∀ t, s.shared.asked f = [some t] → w = t

theorem affine_worker {w : W} {move : Move F C W T A} {shared : Shared F C W T A}
    {worker : Worker F C W} (affine : Affine s.shared s.worker)
    (kept : s.Kept (.worker w move))
    (performs : Performs s.shared w (s.worker w) move shared worker) :
    Affine shared (Function.update s.worker w worker) := by
  generalize here : s.worker w = before at performs
  have callback : ∀ f, before.cbFiber = some f → s.shared.created f = true := by
    rw [← here]
    exact affine.callback w
  cases performs with
  | @scan cbFiber idleTerm scan scanned =>
      subst scanned
      refine affine.carry w rfl rfl (fun _ => s.shared.scan_left w s.shared.fibers)
        (fun _ => id) callback ?_ ?_ ?_
      · intro f is
        rw [Stage.fiber_tickleIf] at is
        obtain ⟨entry, found, fiber⟩ := Option.bind_eq_some_iff.mp is
        exact affine.queued entry (s.shared.scan_found w s.shared.fibers found) f fiber
      · intro entry is
        rw [Stage.holding_tickleIf] at is
        exact s.shared.scan_thread w s.shared.fibers is
      · intro f is t asked
        rw [Stage.fiber_tickleIf] at is
        obtain ⟨entry, found, fiber⟩ := Option.bind_eq_some_iff.mp is
        refine (affine.bound f t asked).imp_right fun known => ?_
        have named := known.1 entry (s.shared.scan_found w s.shared.fibers found) fiber
        rcases s.shared.scan_thread w s.shared.fibers found with any | own
        · rw [named] at any
          cases any
        · rw [named] at own
          exact (Option.some.inj own).symm
  | drop | write =>
      refine affine.go w rfl rfl (fun _ => id) (fun _ => id) callback ?_ ?_
      · rw [here, Stage.fiber_stage]
        exact fun _ => id
      · rw [here, Stage.holding_stage]
        exact fun _ => id
  | tickle =>
      refine affine.go w rfl rfl (fun _ => id) (fun _ => id) callback ?_ ?_
      · rw [here]
        exact fun _ => id
      · rw [here]
        exact fun _ => id
  | release | resume | yield | uncountCancled =>
      refine affine.go w rfl rfl (fun _ => id) (fun _ => id) callback ?_ nofun
      rw [here]
      exact fun _ => id
  | discard | stop | enterIdle | getNextTimer | listExpiredCb | drain | uncountEvent | leaveIdle
  | quiet | wait | stopIdle | stay | epollWait | interrupt | wake | swapOut =>
      exact affine.go w rfl rfl (fun _ => id) (fun _ => id) callback nofun nofun
  | @rest cbFiber cbFiber' _ _ _ _ idle rests same =>
      have fresh : ∀ f, cbFiber' = some f → s.shared.created f = true := by
        rcases same with rfl | rfl
        · exact callback
        · exact nofun
      rcases rests with rfl | ⟨state, _, rfl⟩
      · exact affine.go w rfl rfl (fun _ => id) (fun _ => id) fresh nofun nofun
      · exact affine.go w rfl rfl (fun _ => id) (fun _ => id) fresh nofun nofun
  | @requeue cbFiber cbFiber' idleTerm _ f ready same =>
      have fresh : ∀ f, cbFiber' = some f → s.shared.created f = true := by
        rcases same with rfl | rfl
        · exact callback
        · exact nofun
      have known := affine.carried w f (by rw [here]; rfl)
      have alone : s.Alone f := by
        refine kept.1 f ?_
        simp [putBack, here, ready]
      have pushed : Affine (s.shared.push [⟨some (.fiber f), none⟩]) s.worker := by
        refine affine.pushTask ?_
        rintro g ⟨⟩
        exact ⟨known, alone⟩
      exact pushed.tickles w fresh rfl rfl
  | @trigger cbFiber idleTerm tickled event registered =>
      have pushed : Affine (Shared.push { s.shared with events := s.shared.events.erase event }
          [⟨some event, none⟩]) s.worker := by
        have erased : Affine { s.shared with events := s.shared.events.erase event } s.worker :=
          affine.frame rfl rfl (fun _ => id) fun _ => List.mem_of_mem_erase
        refine erased.pushTask ?_
        rintro f rfl
        exact ⟨affine.registered f registered,
          kept.1 f (if_pos (List.contains_iff_mem.mpr registered))⟩
      exact pushed.tickles w callback rfl rfl
  | @scheduleExpired cbFiber idleTerm tickled cbs =>
      have none_ : ∀ entry ∈ (Shared.entriesOf (cbs.map fun cb => cb.map .cb) :
          List (FiberAndThread F C W)), entry.fiber = none := by
        intro entry member
        obtain ⟨task, inside, rfl⟩ := List.mem_map.mp member
        obtain ⟨cb, _, rfl⟩ := List.mem_map.mp (List.mem_of_mem_filter inside)
        cases cb <;> rfl
      have pushed : Affine (s.shared.push (Shared.entriesOf (cbs.map fun cb => cb.map .cb)))
          s.worker := by
        refine affine.push ?_ ?_
        · intro entry member g is
          rw [none_ entry member] at is
          cases is
        · intro entry member g is
          rw [none_ entry member] at is
          cases is
      exact pushed.tickles w callback rfl rfl
  | @call cbFiber idleTerm _ wanted f call _ called =>
      have runs : ∀ g, some f = some g → s.shared.asked g ≠ [] := by
        rintro g ⟨⟩
        exact affine.carried w f (by rw [here]; rfl)
      have alone : ∀ g, call = .cancleEvent (.fiber g) → .fiber g ∈ s.shared.events →
          ∀ t, s.shared.asked g = [some t] → ∀ v, v = t := by
        rintro g rfl registered
        exact kept.1 g (if_pos (List.contains_iff_mem.mpr registered))
      have made := affine.call runs alone (Shared.calls_of_call called)
      refine made.go w rfl rfl (fun _ => id) (fun _ => id) ?_ ?_ ?_
      · exact fun g is => made.callback w g (by rw [here]; exact is)
      · rw [here, Stage.fiber_tickleIf, fiber_afterCall]
        exact fun _ => id
      · rw [Stage.holding_tickleIf, holding_afterCall]
        exact nofun
  | @reuse idleTerm fresh f c thread resettable =>
      have own := affine.held w ⟨some (.cb c), thread⟩ (by rw [here]; rfl)
      have named : Affine { s.shared with asked := Function.update s.shared.asked f [thread] }
          s.worker := by
        refine affine.name ?_ (List.cons_ne_nil _ _) ?_
        · rintro g (old | rfl)
          · exact old
          · exact callback g rfl
        · intro t asked
          have thread_ : thread = some t := List.head_eq_of_cons_eq asked
          subst thread_
          have begun : (w, f, t) ∈ s.reused (.worker w (.branch fresh)) := by
            simp [reused, here]
          refine (kept.2 _ begun).imp_right fun unused => ?_
          refine ⟨fun entry member is => absurd is (unused.1 entry member), fun v is => ?_⟩
          refine absurd is (unused.2 v ?_)
          rintro rfl
          rw [here] at is
          cases is
      exact named.begun w rfl rfl rfl rfl callback own
        (Function.update_self f [thread] s.shared.asked)
  | @begin idleTerm fresh c thread new =>
      have own := affine.held w ⟨some (.cb c), thread⟩ (by rw [here]; rfl)
      have unknown : s.shared.asked fresh = [] := by
        by_contra asked
        rw [affine.created fresh asked] at new
        cases new
      have named : Affine { s.shared with
          created := Function.update s.shared.created fresh true
          asked := Function.update s.shared.asked fresh [thread] } s.worker := by
        refine affine.name ?_ (List.cons_ne_nil _ _) ?_
        · intro g known
          by_cases same : g = fresh
          · rw [same, Function.update_self]
          · rw [Function.update_of_ne same]
            exact known.resolve_right same
        · intro t asked
          exact .inr ⟨fun entry member is => absurd unknown (affine.queued entry member fresh is),
            fun v is => absurd unknown (affine.carried v fresh is)⟩
      refine named.begun w rfl rfl rfl rfl ?_ own
        (Function.update_self fresh [thread] s.shared.asked)
      rintro g ⟨⟩
      exact Function.update_self fresh true s.shared.created

theorem affine_step (affine : Affine s.shared s.worker) (kept : s.Kept action)
    (taken : s.step action = some next) : Affine next.shared next.worker := by
  cases steps_of_step taken with
  | worker performs => exact affine_worker affine kept performs
  | outside calls =>
      have outside : ∀ f, (none : Option F) = some f → s.shared.asked f ≠ [] := nofun
      refine (affine.call outside ?_ calls).frame rfl rfl (fun _ => id) fun _ => id
      rintro f rfl registered
      exact kept.1 f (if_pos (List.contains_iff_mem.mpr registered))
  | outsideDrop | outsideTickle | outsideWrite | outsideUncount | advance | stopper =>
      exact affine.frame rfl rfl (fun _ => id) fun _ => id
  | @start root rests =>
      exact affine.go root rfl rfl (fun _ => id) (fun _ => id) (affine.callback root) nofun nofun

theorem affine_initial (root : Option W) (clock : UInt64) :
    Affine (initial root clock : State F C W T A).shared
      (initial root clock : State F C W T A).worker where
  created f asked := absurd rfl asked
  callback w f is := by cases is
  queued entry member := absurd member List.not_mem_nil
  registered f member := absurd member List.not_mem_nil
  carried w f is := by
    simp only [initial] at is
    split at is <;> cases is
  held w entry is := by
    simp only [initial] at is
    split at is <;> cases is
  bound f t asked := by cases asked

theorem onItsThread_of_affine (affine : Affine s.shared s.worker) : s.OnItsThread := by
  intro w f executes t asked
  have carries : (s.worker w).stage.fiber = some f := by
    unfold executing at executes
    generalize (s.worker w).stage = stage at executes ⊢
    cases stage with
    | inside | cancled => exact executes
    | tickling after | writing after =>
        cases after with
        | task | cancled => exact executes
        | _ => cases executes
    | _ => cases executes
  rcases affine.bound f t asked with alone | known
  · exact alone w
  · exact known.2 w carries

/-- A task that is scheduled for a thread stays on it in a run that never puts such a
task back while there is another worker. -/
theorem stays_on_thread {root : Option W} {clock : UInt64} {actions : List (Action F C W T A)}
    (kept : Guarded step Kept (initial root clock) actions) :
    Along step OnItsThread (initial root clock) actions :=
  (along_of_guarded affine_step (affine_initial root clock) kept).mono
    fun _ affine => onItsThread_of_affine affine

section Runs

/-- A manager with two workers, as small as the runs below need it. -/
abbrev TwoWorkers := Action (Fin 1) (Fin 1) (Fin 2) (Fin 1) (Fin 1)

/-- A callback for worker 0 that runs to its end. -/
def runToEnd : List TwoWorkers :=
  [.outside (.schedule ⟨some (.cb 0), some 0⟩), .worker 0 .scan, .worker 0 (.branch 0),
    .worker 0 (.yield .finish), .worker 0 .release, .worker 0 .requeue]

/-- A callback for worker 0 that yields to `READY` and is taken by worker 1. -/
def yieldToReady : List TwoWorkers :=
  [.outside (.schedule ⟨some (.cb 0), some 0⟩), .worker 0 .scan, .worker 0 (.branch 0),
    .worker 0 (.yield .toReady), .worker 0 .release, .worker 0 .requeue, .worker 1 .scan,
    .worker 1 (.branch 0)]

theorem stays_on_thread_toEnd :
    (exec step (initial (none : Option (Fin 2)) 0) runToEnd).isSome = true ∧
      Along step OnItsThread (initial (none : Option (Fin 2)) 0) runToEnd :=
  ⟨by decide, stays_on_thread (by decide)⟩

/-- Worker 1 executes what was scheduled for worker 0. -/
theorem thread_lost : ¬Along step OnItsThread (initial (none : Option (Fin 2)) 0) yieldToReady := by
  intro along
  have ends : (exec step (initial (none : Option (Fin 2)) 0) yieldToReady).isSome = true := by
    decide
  have final := along.exec (Option.some_get ends).symm
  exact absurd (final 1 0 rfl 0 rfl) (by decide)

end Runs

end State

end Sylar.Manager
