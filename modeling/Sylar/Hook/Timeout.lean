import Sylar.Hook.Model

/-!
# Waiting past a timeout

The callback of a timer reaches the waiting fiber only if it ends while the
fiber has its event registered, or has stopped to wait. `Timely` says this of
every callback that ends, and is exactly what keeps the fiber from sleeping on:
a callback that ends before `addEvent` finds nothing to cancel, and no later
timer cancels anything once `t->cancelled` is set.
-/

namespace Sylar.Hook

open IOManager Library

/-- A fact about a callback that ends now: the fiber will read `t->cancelled`
before it waits, or has its event no longer registered. -/
def Place.Noticed (registered : Prop) : Place → Prop
  | .calling | .arming | .adding => False
  | .yielding | .suspended => ¬registered
  | .refused | .resumed | .checking | .returned => True

instance (registered : Prop) [Decidable registered] (place : Place) :
    Decidable (place.Noticed registered) := by
  cases place <;> unfold Place.Noticed <;> infer_instance

namespace Place

variable {place : Place} {stronger weaker : Prop}

theorem Noticed.mono (implies : weaker → stronger) (noticed : place.Noticed stronger) :
    place.Noticed weaker := by
  cases place with
  | calling | arming | adding => exact noticed
  | yielding | suspended => exact fun holds => noticed (implies holds)
  | refused | resumed | checking | returned => trivial

end Place

namespace State

variable (caller : RunningFiber) (function : Function)

/-- The event of the call is registered for its fiber. -/
def Waits (s : State) : Prop :=
  s.ctx.registration function.event = some (.registered caller.caller none)

instance (s : State) : Decidable (s.Waits caller function) :=
  inferInstanceAs (Decidable (_ = _))

/-- The fiber is suspended although the callback of a timer has ended and
`t->cancelled` is set, and its event is still registered. -/
def Overslept (s : State) : Prop :=
  s.place = .suspended ∧ s.cancelled = true ∧ .finished ∈ s.timers ∧ s.Waits caller function

instance (s : State) : Decidable (s.Overslept caller function) :=
  inferInstanceAs (Decidable (_ ∧ _ ∧ _ ∧ _))

/-- A callback that ends with `t->cancelled` set does so in time: not between
the last read of `t->cancelled` and the return of `addEvent`, and not leaving
the event of a waiting fiber registered. -/
def Timely (s : State) : Action → Prop
  | .callbackRead timer =>
      s.timers[timer]? = some .locked → s.cancelled = true →
        s.place.Noticed (s.Waits caller function)
  | .callbackCancle timer success =>
      s.timers[timer]? = some .cancelling →
        s.place.Noticed (s.Waits caller function ∧ success = false)
  | _ => True

instance (s : State) (action : Action) : Decidable (s.Timely caller function action) := by
  cases action <;> unfold Timely <;> infer_instance

/-- Every callback that has ended was noticed. -/
structure Awake (s : State) : Prop where
  tidy : s.ctx.Tidy
  cancelling : .cancelling ∈ s.timers → s.cancelled = true
  finished : .finished ∈ s.timers → s.cancelled = true ∨ s.place = .returned
  noticed : .finished ∈ s.timers → s.place.Noticed (s.Waits caller function)

variable {caller function} {s t : State}

theorem Awake.not_overslept (awake : s.Awake caller function) :
    ¬s.Overslept caller function := by
  rintro ⟨suspended, _, finished, waits⟩
  have noticed := awake.noticed finished
  rw [suspended] at noticed
  exact noticed waits

theorem runSection_ok {α : Type} {body : Section Unit α} {answer : α} {after : State}
    (ran : s.runSection body = some (answer, after)) :
    ∃ result, EStateM.run body ⟨s.ctx, s.pendingEventCount, (), [], []⟩ = .ok answer result ∧
      after = { s with ctx := result.ctx, pendingEventCount := result.pendingEventCount } := by
  rw [runSection] at ran
  split at ran
  · cases ran
    exact ⟨_, ‹_›, rfl⟩
  · cases ran

/-- Another user of the descriptor leaves the context tidy, and does not
register anything for the fiber. -/
theorem foreign_section {call : Call} (foreign : Foreign caller.fiber call) {success answer : Bool}
    {after : State} (tidy : s.ctx.Tidy)
    (ran : s.runSection (call.run success) = some (answer, after)) :
    after.ctx.Tidy ∧ after = { s with
      ctx := after.ctx, pendingEventCount := after.pendingEventCount } ∧
      (after.Waits caller function → s.Waits caller function) := by
  obtain ⟨result, sectionRan, rfl⟩ := runSection_ok ran
  have onScheduler : call.OnScheduler := by
    cases call with
    | addEvent caller event cb => exact foreign.1
    | delEvent | cancleEvent | cancleAll | dispatch => trivial
  obtain ⟨entries, effect, _, opened, _⟩ :=
    (Call.accounted onScheduler tidy rfl rfl 0 sectionRan).account
  refine ⟨effect.tidy, rfl, fun waits => ?_⟩
  rcases (effect.lives function.event).origin waits with before | registers
  · exact before
  · -- what the call registers belongs to another fiber
    exfalso
    rw [entriesOf, List.mem_filterMap] at registers
    obtain ⟨⟨event, phase⟩, member, here⟩ := registers
    split at here
    · cases here
      have registered := opened _ _ member
      cases call with
      | addEvent other event cb =>
          obtain ⟨_, same⟩ := registered
          cases cb with
          | some cb => cases congrArg EventContext.cb same
          | none =>
              have fibers := congrArg EventContext.fiber same
              exact foreign.2 (Option.some.inj fibers).symm
      | delEvent | cancleEvent | cancleAll | dispatch => exact registered
    · cases here

/-- What `addEvent` of the call does: an assertion fails, or the event gets
registered, or nothing happens. -/
theorem addEvent_section {success : Bool} {rt : Int} {after : State} (tidy : s.ctx.Tidy)
    (ran : s.runSection (IOManager.addEvent (fun kernel _ _ => (success, kernel)) caller.caller
      function.event none) = some (rt, after)) :
    after.ctx.Tidy ∧ after = { s with
      ctx := after.ctx, pendingEventCount := after.pendingEventCount } := by
  obtain ⟨result, sectionRan, rfl⟩ := runSection_ok ran
  refine ⟨?_, rfl⟩
  cases present : s.ctx.events.has function.event with
  | true =>
      rw [addEvent_run_assertion present] at sectionRan
      cases sectionRan
  | false =>
      cases success with
      | true =>
          rw [addEvent_run tidy present (fun _ => rfl) rfl] at sectionRan
          cases sectionRan
          exact tidy.added _ (EventContext.armed_registered rfl none)
      | false =>
          rw [addEvent_run_refused present rfl] at sectionRan
          cases sectionRan
          exact tidy

/-- `cancleEvent` ends the wait of the fiber unless `epoll_ctl` fails. -/
theorem cancleEvent_section {success answer : Bool} {after : State} (tidy : s.ctx.Tidy)
    (ran : s.runSection (IOManager.cancleEvent (fun kernel _ _ => (success, kernel))
      function.event) = some (answer, after)) :
    after.ctx.Tidy ∧ after = { s with
      ctx := after.ctx, pendingEventCount := after.pendingEventCount } ∧
      (after.Waits caller function ↔ s.Waits caller function ∧ success = false) := by
  obtain ⟨result, sectionRan, rfl⟩ := runSection_ok ran
  cases present : s.ctx.events.has function.event with
  | false =>
      rw [cancleEvent_run_absent present] at sectionRan
      cases sectionRan
      have nothing := FdContext.registration_of_not_has present
      exact ⟨tidy, rfl, by simp [Waits, nothing]⟩
  | true =>
      rw [cancleEvent_run tidy present rfl] at sectionRan
      cases success with
      | true =>
          cases sectionRan
          refine ⟨tidy.removed _, rfl, ?_⟩
          simp [Waits, Locked.finished, FdContext.registration_removed]
      | false =>
          cases sectionRan
          exact ⟨tidy, rfl, by simp [Waits]⟩

/-- A timer gets another stage. -/
theorem mem_setTimer {timer : Nat} {stage other : Timer}
    (member : other ∈ (s.setTimer timer stage).timers) : other ∈ s.timers ∨ other = stage :=
  List.mem_or_eq_of_mem_set member

theorem mem_cancleTimer {stage : Timer} (apart : stage ≠ .cancelled)
    (member : stage ∈ s.cancleTimer.timers) : stage ∈ s.timers := by
  rw [cancleTimer] at member
  split at member
  · rcases List.mem_append.mp member with before | last
    · exact List.dropLast_subset _ before
    · exact absurd (List.mem_singleton.mp last) apart
  · exact member

/-- A step of the fiber that does not wait: what held of ended callbacks still does. -/
theorem Awake.moved {place : Place} (awake : s.Awake caller function)
    (returned : s.place = .returned → place = .returned)
    (noticed : s.place.Noticed (s.Waits caller function) →
      place.Noticed (s.Waits caller function)) :
    Awake caller function { s with place := place } where
  tidy := awake.tidy
  cancelling := awake.cancelling
  finished finished := (awake.finished finished).imp_right returned
  noticed finished := noticed (awake.noticed finished)

/-- A timer that is not finished by its step. -/
theorem Awake.setTimer {timer : Nat} {stage : Timer} (awake : s.Awake caller function)
    (pending : stage ≠ .finished) (calm : stage ≠ .cancelling) :
    (s.setTimer timer stage).Awake caller function where
  tidy := awake.tidy
  cancelling member := awake.cancelling ((mem_setTimer member).resolve_right calm.symm)
  finished member := awake.finished ((mem_setTimer member).resolve_right pending.symm)
  noticed member := awake.noticed ((mem_setTimer member).resolve_right pending.symm)

/-- A callback that ends. -/
theorem Awake.finish {timer : Nat} (awake : s.Awake caller function)
    (set : s.cancelled = true ∨ s.place = .returned)
    (noticed : s.place.Noticed (s.Waits caller function)) :
    (s.setTimer timer .finished).Awake caller function where
  tidy := awake.tidy
  cancelling member := awake.cancelling ((mem_setTimer member).resolve_right nofun)
  finished _ := set
  noticed _ := noticed

/-- A section that does not make the fiber wait. -/
theorem Awake.section {after : State} (awake : s.Awake caller function) (tidy : after.ctx.Tidy)
    (same : after = { s with ctx := after.ctx, pendingEventCount := after.pendingEventCount })
    (waits : after.Waits caller function → s.Waits caller function) :
    after.Awake caller function := by
  rw [same]
  exact {
    tidy := tidy
    cancelling := awake.cancelling
    finished := awake.finished
    noticed := fun finished => (awake.noticed finished).mono waits }

theorem Awake.cancleTimer (awake : s.Awake caller function) :
    s.cancleTimer.Awake caller function := by
  have ctx : s.cancleTimer.ctx = s.ctx ∧ s.cancleTimer.place = s.place ∧
      s.cancleTimer.cancelled = s.cancelled := by
    rw [State.cancleTimer]
    split <;> exact ⟨rfl, rfl, rfl⟩
  obtain ⟨ctx, place, cancelled⟩ := ctx
  have waits : s.cancleTimer.Waits caller function ↔ s.Waits caller function := by
    rw [Waits, Waits, ctx]
  exact {
    tidy := ctx ▸ awake.tidy
    cancelling := fun member => cancelled ▸ awake.cancelling (mem_cancleTimer nofun member)
    finished := fun member => by
      rw [cancelled, place]
      exact awake.finished (mem_cancleTimer nofun member)
    noticed := fun member => by
      rw [place]
      exact (awake.noticed (mem_cancleTimer nofun member)).mono waits.mp }

/-- Steps in time keep every callback noticed. -/
theorem Awake.step {action : Action} (awake : s.Awake caller function)
    (timely : s.Timely caller function action)
    (taken : s.step caller function action = some t) : t.Awake caller function := by
  cases action with
  | systemCall blocks =>
      simp only [State.step] at taken
      split at taken
      · rename_i calling
        cases taken
        refine awake.moved (by simp [calling]) ?_
        rw [calling]
        exact False.elim
      · cases taken
  | addConditionTimer =>
      simp only [State.step] at taken
      split at taken
      · rename_i arming
        cases taken
        -- no callback has ended yet
        have young : .finished ∉ s.timers := by
          intro finished
          have noticed := awake.noticed finished
          rwa [arming] at noticed
        exact {
          tidy := awake.tidy
          cancelling := fun member => awake.cancelling (by simpa using member)
          finished := fun member => absurd (by simpa using member) young
          noticed := fun member => absurd (by simpa using member) young }
      · cases taken
  | addEvent success =>
      simp only [State.step] at taken
      split at taken
      · rename_i adding
        obtain ⟨⟨rt, after⟩, ran, rfl⟩ := Option.map_eq_some_iff.mp taken
        obtain ⟨tidy, same⟩ := addEvent_section awake.tidy ran
        have young : .finished ∉ s.timers := by
          intro finished
          have noticed := awake.noticed finished
          rwa [adding] at noticed
        rw [same]
        exact {
          tidy := tidy
          cancelling := awake.cancelling
          finished := fun member => absurd member young
          noticed := fun member => absurd member young }
      · cases taken
  | yieldToHold =>
      simp only [State.step] at taken
      split at taken
      · rename_i yielding
        cases taken
        refine awake.moved (by simp [yielding]) ?_
        rw [yielding]
        exact id
      · cases taken
  | resume =>
      simp only [State.step] at taken
      split at taken
      · rename_i suspended
        cases taken
        exact awake.moved (by simp [suspended]) fun _ => trivial
      · cases taken
  | cancleTimer =>
      simp only [State.step] at taken
      split at taken
      · rename_i resumed
        cases taken
        have place : s.cancleTimer.place ≠ .returned := by
          rw [State.cancleTimer]
          split <;> simp [resumed]
        exact awake.cancleTimer.moved (fun returned => absurd returned place) fun _ => trivial
      · cases taken
        exact awake.cancleTimer.moved (fun _ => rfl) fun _ => trivial
      · cases taken
  | readCancelled =>
      simp only [State.step] at taken
      split at taken
      · rename_i checking
        split at taken
        · cases taken
          exact awake.moved (fun _ => rfl) fun _ => trivial
        · rename_i unset
          split at taken
          · cases taken
            -- a callback that ended has set `t->cancelled`
            have young : .finished ∉ s.timers := by
              intro finished
              rcases awake.finished finished with set | returned
              · exact unset set
              · rw [checking] at returned
                cases returned
            exact {
              tidy := awake.tidy
              cancelling := awake.cancelling
              finished := fun member => absurd member young
              noticed := fun member => absurd member young }
          · cases taken
            exact awake.moved (fun _ => rfl) fun _ => trivial
      · cases taken
  | listExpiredCb timer =>
      simp only [State.step] at taken
      split at taken
      · cases taken
        exact awake.setTimer nofun nofun
      · cases taken
  | lockCondition timer =>
      simp only [State.step] at taken
      split at taken
      · cases taken
        split
        · rename_i returned
          refine awake.finish (Or.inr returned) ?_
          rw [returned]
          trivial
        · exact awake.setTimer nofun nofun
      · cases taken
  | callbackRead timer =>
      simp only [State.step] at taken
      split at taken
      · rename_i locked
        cases taken
        split
        · rename_i set
          exact awake.finish (Or.inl set) (timely locked set)
        · exact awake.setTimer nofun nofun
      · cases taken
  | callbackSet timer =>
      simp only [State.step] at taken
      split at taken
      · cases taken
        exact {
          tidy := awake.tidy
          cancelling := fun _ => rfl
          finished := fun _ => Or.inl rfl
          noticed := fun member => awake.noticed ((mem_setTimer member).resolve_right nofun) }
      · cases taken
  | callbackCancle timer success =>
      simp only [State.step] at taken
      split at taken
      · rename_i cancelling
        obtain ⟨⟨answer, after⟩, ran, rfl⟩ := Option.map_eq_some_iff.mp taken
        obtain ⟨tidy, same, waits⟩ := cancleEvent_section awake.tidy ran
        have place : after.place = s.place := by rw [same]
        have cancelled : after.cancelled = s.cancelled := by rw [same]
        refine (awake.section tidy same fun still => (waits.mp still).1).finish (Or.inl ?_) ?_
        · rw [cancelled]
          exact awake.cancelling (List.mem_of_getElem? cancelling)
        · rw [place]
          exact (timely cancelling).mono waits.mp
      · cases taken
  | other call success =>
      simp only [State.step] at taken
      split at taken
      · rename_i foreign
        obtain ⟨⟨answer, after⟩, ran, rfl⟩ := Option.map_eq_some_iff.mp taken
        obtain ⟨tidy, same, waits⟩ := foreign_section foreign awake.tidy ran
        exact awake.section tidy same waits
      · cases taken

theorem awake_initial : initial.Awake caller function where
  tidy := FdContext.tidy_new
  cancelling := nofun
  finished := nofun
  noticed := nofun

/-- Some continuation makes the fiber oversleep. -/
abbrev Doomed (caller : RunningFiber) (function : Function) (s : State) : Prop :=
  Library.Doomed (step caller function) (fun s => ¬s.Overslept caller function) s

/-- A callback has ended with `t->cancelled` set. -/
structure Missed (s : State) : Prop where
  tidy : s.ctx.Tidy
  set : s.cancelled = true
  finished : .finished ∈ s.timers

namespace Missed

theorem of_suspended (missed : s.Missed) (place : s.place = .suspended)
    (waits : s.Waits caller function) : s.Doomed caller function := by
  refine Library.Doomed.of_not fun awake => ?_
  exact awake ⟨place, missed.set, missed.finished, waits⟩

theorem of_yielding (missed : s.Missed) (place : s.place = .yielding)
    (waits : s.Waits caller function) : s.Doomed caller function := by
  refine Library.Doomed.of_step .yieldToHold (t := { s with place := .suspended }) ?_ ?_
  · simp only [step, place, if_true]
  · exact of_suspended ⟨missed.tidy, missed.set, missed.finished⟩ rfl waits

theorem of_adding_absent (missed : s.Missed) (place : s.place = .adding)
    (absent : s.ctx.events.has function.event = false) : s.Doomed caller function := by
  let context := EventContext.registered caller.caller none
  have armed : context.Armed := EventContext.armed_registered rfl none
  refine Library.Doomed.of_step (.addEvent true)
    (t := { s with ctx := s.ctx.added function.event context
                   pendingEventCount := s.pendingEventCount + 1
                   place := .yielding }) ?_ ?_
  · let locked : Locked Unit := ⟨s.ctx, s.pendingEventCount, (), [], []⟩
    have ran : EStateM.run (IOManager.addEvent (fun kernel _ _ => (true, kernel)) caller.caller
        function.event none) locked = .ok 0 (locked.entered () function.event context) :=
      addEvent_run missed.tidy absent (fun _ => rfl) rfl
    simp only [locked] at ran
    simp only [step, place, if_true, runSection, ran, Option.map_some]
    rfl
  · refine of_yielding ⟨missed.tidy.added _ armed, missed.set, missed.finished⟩ rfl ?_
    exact FdContext.registration_added _ _ _

/-- What another fiber has registered can be deleted first. -/
theorem of_adding (missed : s.Missed) (place : s.place = .adding) :
    s.Doomed caller function := by
  cases present : s.ctx.events.has function.event with
  | false => exact of_adding_absent missed place present
  | true =>
      refine Library.Doomed.of_step (.other (.delEvent function.event) true)
        (t := { s with ctx := s.ctx.removed function.event
                       pendingEventCount := s.pendingEventCount - 1 }) ?_ ?_
      · let locked : Locked Unit := ⟨s.ctx, s.pendingEventCount, (), [], []⟩
        have ran : EStateM.run (IOManager.delEvent (fun kernel _ _ => (true, kernel))
            function.event) locked = .ok true (locked.dropped () function.event) :=
          delEvent_run present rfl
        simp only [locked] at ran
        have foreign : Foreign caller.fiber (.delEvent function.event) := trivial
        simp only [step, if_pos foreign, runSection, Call.run, ran, Option.map_some]
        rfl
      · refine of_adding_absent ⟨missed.tidy.removed _, missed.set, missed.finished⟩ place ?_
        simp [Events.has_erase]

theorem of_arming (missed : s.Missed) (place : s.place = .arming) :
    s.Doomed caller function := by
  refine Library.Doomed.of_step .addConditionTimer
    (t := { s with place := .adding, timers := s.timers ++ [.armed] }) ?_ ?_
  · simp only [step, place, if_true]
  · exact of_adding ⟨missed.tidy, missed.set, List.mem_append_left _ missed.finished⟩ rfl

theorem of_calling (missed : s.Missed) (place : s.place = .calling) :
    s.Doomed caller function := by
  refine Library.Doomed.of_step (.systemCall true) (t := { s with place := .arming }) ?_ ?_
  · simp only [step, place, if_true]
  · exact of_arming ⟨missed.tidy, missed.set, missed.finished⟩ rfl

theorem doomed (missed : s.Missed)
    (unnoticed : ¬s.place.Noticed (s.Waits caller function)) : s.Doomed caller function := by
  cases place : s.place with
  | calling => exact of_calling missed place
  | arming => exact of_arming missed place
  | adding => exact of_adding missed place
  | yielding =>
      rw [place] at unnoticed
      exact of_yielding missed place (not_not.mp unnoticed)
  | suspended =>
      rw [place] at unnoticed
      exact of_suspended missed place (not_not.mp unnoticed)
  | refused | resumed | checking | returned =>
      rw [place] at unnoticed
      exact absurd trivial unnoticed

end Missed

/-- A callback that does not end in time can be followed by a wait that nothing
ends. -/
theorem untimely_doomed {action : Action} (awake : s.Awake caller function)
    (untimely : ¬s.Timely caller function action)
    (taken : s.step caller function action = some t) : t.Doomed caller function := by
  cases action with
  | callbackRead timer =>
      simp only [Timely, Classical.not_imp] at untimely
      obtain ⟨locked, set, unnoticed⟩ := untimely
      simp only [step, if_pos locked, if_pos set] at taken
      cases taken
      have inside : timer < s.timers.length := (List.getElem?_eq_some_iff.mp locked).1
      exact Missed.doomed ⟨awake.tidy, set, List.mem_set inside _⟩ unnoticed
  | callbackCancle timer success =>
      simp only [Timely, Classical.not_imp] at untimely
      obtain ⟨cancelling, unnoticed⟩ := untimely
      simp only [step, if_pos cancelling] at taken
      obtain ⟨⟨answer, after⟩, ran, rfl⟩ := Option.map_eq_some_iff.mp taken
      obtain ⟨tidy, same, waits⟩ := cancleEvent_section awake.tidy ran
      have place : after.place = s.place := by rw [same]
      have cancelled : after.cancelled = s.cancelled := by rw [same]
      have timers : after.timers = s.timers := by rw [same]
      have inside : timer < after.timers.length :=
        timers ▸ (List.getElem?_eq_some_iff.mp cancelling).1
      refine Missed.doomed ⟨tidy, ?_, List.mem_set inside _⟩ fun noticed => unnoticed ?_
      · exact cancelled.trans (awake.cancelling (List.mem_of_getElem? cancelling))
      · have here : s.place.Noticed (after.Waits caller function) := place ▸ noticed
        exact here.mono waits.mpr
  | systemCall | addConditionTimer | addEvent | yieldToHold | resume | cancleTimer
  | readCancelled | listExpiredCb | lockCondition | callbackSet | other =>
      exact absurd trivial untimely

/-- A hooked call does not oversleep in a run in which callbacks end in time,
and the first one that does not can be followed by a wait that it should have
ended. -/
theorem timeout_ends_wait (caller : RunningFiber) (function : Function) (actions : List Action)
    (timely : Guarded (step caller function) (Timely caller function) initial actions) :
    Along (step caller function) (fun s => ¬s.Overslept caller function) initial actions ∧
      ∀ s action t, exec (step caller function) initial actions = some s →
        ¬s.Timely caller function action → s.step caller function action = some t →
          ∃ more, ¬Along (step caller function) (fun s => ¬s.Overslept caller function) t more := by
  have along : Along (step caller function) (Awake caller function) initial actions :=
    along_of_guarded (fun awake now taken => Awake.step awake now taken) awake_initial timely
  refine ⟨along.mono fun _ => Awake.not_overslept, fun s action t reached untimely taken => ?_⟩
  exact untimely_doomed (along.exec reached) untimely taken

/-- A read that finds data in its second round, while the callback of the first
round is delayed, and times out in that round. -/
theorem timeout_ends_wait_secondRound :
    Along (step ⟨7, 1⟩ (.doIo .read)) (fun s => ¬s.Overslept ⟨7, 1⟩ (.doIo .read)) initial
      [.systemCall true, .addConditionTimer, .addEvent true, .yieldToHold,
        .other (.dispatch ⟨true, false, false, false, false⟩) true, .resume, .listExpiredCb 0,
        .cancleTimer, .readCancelled, .systemCall true, .addConditionTimer, .addEvent true,
        .lockCondition 0, .callbackRead 0, .yieldToHold, .callbackSet 0, .callbackCancle 0 true,
        .resume, .cancleTimer, .readCancelled] :=
  (timeout_ends_wait _ _ _ (by decide)).1

/-- The timer expires and its callback runs between `addConditionTimer` and
`addEvent`: `cancleEvent` finds no event, and the fiber goes to sleep. -/
theorem timeout_overslept :
    ¬Along (step ⟨7, 1⟩ (.doIo .read)) (fun s => ¬s.Overslept ⟨7, 1⟩ (.doIo .read)) initial
      [.systemCall true, .addConditionTimer, .listExpiredCb 0, .lockCondition 0, .callbackRead 0,
        .callbackSet 0, .callbackCancle 0 true, .addEvent true, .yieldToHold] := by
  intro along
  exact absurd (along.exec rfl) (by decide)

end State

end Sylar.Hook
