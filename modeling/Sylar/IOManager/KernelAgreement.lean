import Sylar.IOManager.Sections
import Sylar.Library.Transition

/-!
# The interest set of the kernel and the registered events

One descriptor that stays open, with a kernel that refuses to add what is there
and to modify or delete what is not. The registered events and the interest set
agree along a run exactly when no operation takes one of the two wrong turns:
`addEvent` asks for `EPOLLIN` whatever the events are, and `delEvent` and
`cancleEvent` choose between modifying and deleting by the events before the
removal.
-/

namespace Sylar.IOManager

open Library

/-- What `epoll_ctl` does to the mask of one open descriptor; `none` when the
descriptor is not in the interest set. -/
def interestCtl : EpollCtl (Option Mask)
  | none, .add, events => (true, some events)
  | some present, .add, _ => (false, some present)
  | none, .mod, _ => (false, none)
  | some _, .mod, events => (true, some events)
  | none, .del, _ => (false, none)
  | some _, .del, _ => (true, none)

/-- The operations on a descriptor. -/
inductive Operation where
  | addEvent (running : RunningFiber) (event : Event) (cb : Option CallbackId)
  | delEvent (event : Event)
  | cancleEvent (event : Event)
  | cancleAll
  /-- `idle` handles a report. -/
  | dispatch (reported : Mask)
deriving DecidableEq, Repr

/-- A descriptor and its entry in the kernel. -/
abbrev Descriptor := Locked (Option Mask)

namespace Descriptor

/-- A descriptor for which nothing was registered. -/
def fresh : Descriptor := ⟨.new, 0, none, [], []⟩

/-- The state after a section, unless it ended the process. -/
def finish {α : Type} : EStateM.Result Fault Descriptor α → Option Descriptor
  | .ok _ after => some after
  | .error _ _ => none

/-- An operation on the descriptor, as a step. -/
def step (s : Descriptor) : Operation → Option Descriptor
  | .addEvent running event cb =>
      finish (EStateM.run (addEvent interestCtl running.caller event cb) s)
  | .delEvent event => finish (EStateM.run (delEvent interestCtl event) s)
  | .cancleEvent event => finish (EStateM.run (cancleEvent interestCtl event) s)
  | .cancleAll => finish (EStateM.run (cancleAll interestCtl) s)
  | .dispatch reported => finish (EStateM.run (dispatch interestCtl reported) s)

/-- The kernel holds the descriptor exactly when an event is registered, with
exactly the registered events. -/
def Agrees (s : Descriptor) : Prop :=
  match s.kernel with
  | none => s.ctx.events = .none
  | some mask => s.ctx.events ≠ .none ∧ mask.events = s.ctx.events

/-- An event that is not registered can be registered. -/
def Accepts (s : Descriptor) : Prop :=
  ∀ (running : RunningFiber) (event : Event) (cb : Option CallbackId),
    s.ctx.events.has event = false →
      ∃ after, EStateM.run (addEvent interestCtl running.caller event cb) s = .ok 0 after

/-- `addEvent` does not leave a descriptor that is only written, and `delEvent`
and `cancleEvent` do not remove the last event. -/
def Sound (s : Descriptor) : Operation → Prop
  | .addEvent _ event _ =>
      s.ctx.events.has event = false → (s.ctx.events.insert event).has .read = true
  | .delEvent event | .cancleEvent event =>
      s.ctx.events.has event = true → s.ctx.events.erase event ≠ .none
  | .cancleAll | .dispatch _ => True

/-- Agreement, with contexts that belong to the registered events. -/
structure Settled (s : Descriptor) : Prop where
  tidy : s.ctx.Tidy
  agrees : s.Agrees

theorem settled_fresh : fresh.Settled where
  tidy := FdContext.tidy_new
  agrees := rfl

/-- The kernel is not asked for anything impossible. -/
theorem Settled.add_answer {s : Descriptor} (settled : s.Settled) (event : Event) :
    interestCtl s.kernel (addRequest s.ctx event).1 (addRequest s.ctx event).2 =
      (true, some (addRequest s.ctx event).2) := by
  have agrees := settled.agrees
  rw [Agrees] at agrees
  cases known : s.kernel with
  | none =>
      simp only [known] at agrees
      simp only [addRequest, agrees, ne_eq, not_true_eq_false, if_false, interestCtl]
  | some mask =>
      simp only [known] at agrees
      simp only [addRequest, if_pos agrees.1, interestCtl]

theorem Settled.kernel {s : Descriptor} (settled : s.Settled) (present : s.ctx.events ≠ .none) :
    ∃ mask, s.kernel = some mask := by
  have agrees := settled.agrees
  rw [Agrees] at agrees
  cases known : s.kernel with
  | none =>
      simp only [known] at agrees
      exact absurd agrees present
  | some mask => exact ⟨mask, rfl⟩

theorem Settled.remove_answer {s : Descriptor} (settled : s.Settled) {event : Event}
    (present : s.ctx.events.has event = true) :
    interestCtl s.kernel (removeRequest s.ctx event).1 (removeRequest s.ctx event).2 =
      (true, some (removeRequest s.ctx event).2) := by
  have nonempty := Events.ne_none_of_has present
  obtain ⟨mask, known⟩ := settled.kernel nonempty
  simp only [known, removeRequest, if_pos nonempty, interestCtl]

/-- Agreement makes `addEvent` succeed. -/
theorem Settled.accepts {s : Descriptor} (settled : s.Settled) : s.Accepts :=
  fun _ event _ absent =>
    ⟨_, addEvent_run settled.tidy absent (fun _ => rfl) (settled.add_answer event)⟩

theorem mask_events_or_et (events : Events) : (Mask.et.or events.mask).events = events := by
  cases events
  rfl

theorem mask_events_or_in (events : Events) :
    (Mask.in_.or events.mask).events = events.insert .read := by
  cases events
  rfl

theorem insert_of_has {events : Events} {event : Event} (present : events.has event = true) :
    events.insert event = events :=
  Events.ext_has fun other => by
    rw [Events.has_insert]
    by_cases same : other = event
    · rw [same, present, Bool.true_or]
    · simp [same]

/-- The effect of a removal the kernel agreed to. -/
theorem agrees_removed_iff {s after : Descriptor} {event : Event}
    (events : after.ctx.events = s.ctx.events.erase event)
    (kernel : after.kernel = some (removeRequest s.ctx event).2) :
    after.Agrees ↔ s.ctx.events.erase event ≠ .none := by
  rw [Agrees, kernel]
  simp only [removeRequest, mask_events_or_et, events, and_true]

/-- `addEvent` keeps the agreement exactly when reading is registered. -/
theorem addEvent_step {s : Descriptor} (settled : s.Settled) (running : RunningFiber)
    {event : Event} (cb : Option CallbackId) (absent : s.ctx.events.has event = false) :
    ∃ after, s.step (.addEvent running event cb) = some after ∧ after.ctx.Tidy ∧
      (after.Agrees ↔ (s.ctx.events.insert event).has .read = true) := by
  have executing : cb = none → running.caller.state = .exec := fun _ => rfl
  have ran := addEvent_run settled.tidy absent executing (settled.add_answer event)
  refine ⟨_, by rw [step, ran, finish],
    settled.tidy.added event (EventContext.armed_registered rfl cb), ?_⟩
  have nonempty : s.ctx.events.insert event ≠ .none :=
    Events.ne_none_of_has (show (s.ctx.events.insert event).has event = true by
      simp [Events.has_insert])
  simp only [Agrees, Locked.entered, addRequest, FdContext.events_added, mask_events_or_in,
    ne_eq, nonempty, not_false_eq_true, true_and]
  constructor
  · intro same
    rw [← same, Events.has_insert]
    simp
  · exact insert_of_has

/-- `delEvent` of a registered event keeps the agreement exactly when another
one is left. -/
theorem delEvent_step {s : Descriptor} (settled : s.Settled) {event : Event}
    (present : s.ctx.events.has event = true) :
    ∃ after, s.step (.delEvent event) = some after ∧ after.ctx.Tidy ∧
      (after.Agrees ↔ s.ctx.events.erase event ≠ .none) := by
  have ran := delEvent_run present (settled.remove_answer present)
  exact ⟨_, by rw [step, ran, finish], settled.tidy.removed event,
    agrees_removed_iff (FdContext.events_removed _ _) rfl⟩

theorem cancleEvent_step {s : Descriptor} (settled : s.Settled) {event : Event}
    (present : s.ctx.events.has event = true) :
    ∃ after, s.step (.cancleEvent event) = some after ∧ after.ctx.Tidy ∧
      (after.Agrees ↔ s.ctx.events.erase event ≠ .none) := by
  have ran := cancleEvent_run settled.tidy present (settled.remove_answer present)
  exact ⟨_, by rw [step, ran, finish], settled.tidy.removed event,
    agrees_removed_iff (FdContext.events_removed _ _) rfl⟩

@[simp] theorem kernel_finishedAll (s : Descriptor) (events : Events) :
    (s.finishedAll events).kernel = s.kernel := by
  simp only [Locked.finishedAll, Locked.finishedIf]
  split <;> split <;> rfl

theorem events_finishedAll (s : Descriptor) (events : Events) :
    (s.finishedAll events).ctx.events = s.ctx.events.diff events :=
  Events.ext_has fun event => by
    rw [has_finishedAll]
    cases event <;> rfl

/-- `cancleAll` takes the descriptor out of the interest set. -/
theorem cancleAll_step {s after : Descriptor} (settled : s.Settled)
    (taken : s.step .cancleAll = some after) : after.Settled := by
  by_cases absent : s.ctx.events = .none
  · rw [step, cancleAll_run_absent absent, finish] at taken
    cases taken
    exact settled
  · obtain ⟨mask, known⟩ := settled.kernel absent
    have answer : interestCtl s.kernel cancleAllRequest.1 cancleAllRequest.2 = (true, none) := by
      simp only [known, cancleAllRequest, interestCtl]
    rw [step, cancleAll_run settled.tidy absent answer, finish] at taken
    cases taken
    refine ⟨tidy_finishedAll (s := { s with kernel := none }) settled.tidy _, ?_⟩
    rw [if_pos rfl, Agrees, kernel_finishedAll, events_finishedAll]
    exact Events.ext_has fun event => by cases event <;> simp [Events.diff, Events.has, Events.none]

/-- `idle` chooses between modifying and deleting by the events that are left. -/
theorem dispatch_step {s after : Descriptor} {reported : Mask} (settled : s.Settled)
    (taken : s.step (.dispatch reported) = some after) : after.Settled := by
  cases nothing : s.ctx.events.disjoint (realEvents s.ctx.events reported) with
  | true =>
      rw [step, dispatch_run_disjoint nothing, finish] at taken
      cases taken
      exact settled
  | false =>
      have nonempty : s.ctx.events ≠ .none := by
        intro empty
        simp [empty, Events.disjoint, Events.none] at nothing
      obtain ⟨mask, known⟩ := settled.kernel nonempty
      let left := s.ctx.events.diff (realEvents s.ctx.events reported)
      have answer : interestCtl s.kernel (dispatchRequest s.ctx reported).1
          (dispatchRequest s.ctx reported).2 =
            (true, if left ≠ .none then some (Mask.et.or left.mask) else none) := by
        simp only [dispatchRequest, known]
        split <;> rfl
      by_cases registered : ∀ event, (realEvents s.ctx.events reported).has event = true →
          s.ctx.events.has event = true
      · rw [step, dispatch_run settled.tidy nothing answer registered, finish] at taken
        cases taken
        let asked : Descriptor :=
          { s with kernel := if left ≠ .none then some (Mask.et.or left.mask) else none }
        refine ⟨tidy_finishedAll (s := asked) settled.tidy _, ?_⟩
        rw [Agrees, kernel_finishedAll, events_finishedAll]
        by_cases some_left : left ≠ .none
        · simp only [if_pos some_left, mask_events_or_et]
          exact ⟨some_left, rfl⟩
        · simp only [if_neg some_left]
          exact not_not.mp some_left
      · simp only [not_forall] at registered
        obtain ⟨event, fires, absent⟩ := registered
        obtain ⟨_, failed, _⟩ := dispatch_run_assertion settled.tidy nothing answer fires
          (Bool.eq_false_iff.mpr absent)
        rw [step, failed, finish] at taken
        cases taken

/-- A sound operation keeps the agreement. -/
theorem Settled.step {s after : Descriptor} (settled : s.Settled) {operation : Operation}
    (sound : s.Sound operation) (taken : s.step operation = some after) : after.Settled := by
  cases operation with
  | addEvent running event cb =>
      cases present : s.ctx.events.has event with
      | true =>
          rw [Descriptor.step, addEvent_run_assertion present, finish] at taken
          cases taken
      | false =>
          obtain ⟨next, ran, tidy, agrees⟩ := addEvent_step settled running cb present
          rw [ran] at taken
          cases taken
          exact ⟨tidy, agrees.mpr (sound present)⟩
  | delEvent event =>
      cases present : s.ctx.events.has event with
      | false =>
          rw [Descriptor.step, delEvent_run_absent present, finish] at taken
          cases taken
          exact settled
      | true =>
          obtain ⟨next, ran, tidy, agrees⟩ := delEvent_step settled present
          rw [ran] at taken
          cases taken
          exact ⟨tidy, agrees.mpr (sound present)⟩
  | cancleEvent event =>
      cases present : s.ctx.events.has event with
      | false =>
          rw [Descriptor.step, cancleEvent_run_absent present, finish] at taken
          cases taken
          exact settled
      | true =>
          obtain ⟨next, ran, tidy, agrees⟩ := cancleEvent_step settled present
          rw [ran] at taken
          cases taken
          exact ⟨tidy, agrees.mpr (sound present)⟩
  | cancleAll => exact cancleAll_step settled taken
  | dispatch reported => exact dispatch_step settled taken

/-- Any other operation breaks it. -/
theorem Settled.broken {s : Descriptor} (settled : s.Settled) {operation : Operation}
    (unsound : ¬s.Sound operation) :
    ∃ after, s.step operation = some after ∧ ¬after.Agrees := by
  cases operation with
  | addEvent running event cb =>
      simp only [Sound, Classical.not_imp] at unsound
      obtain ⟨after, ran, _, agrees⟩ := addEvent_step settled running cb unsound.1
      exact ⟨after, ran, mt agrees.mp unsound.2⟩
  | delEvent event =>
      simp only [Sound, Classical.not_imp] at unsound
      obtain ⟨after, ran, _, agrees⟩ := delEvent_step settled unsound.1
      exact ⟨after, ran, mt agrees.mp unsound.2⟩
  | cancleEvent event =>
      simp only [Sound, Classical.not_imp] at unsound
      obtain ⟨after, ran, _, agrees⟩ := cancleEvent_step settled unsound.1
      exact ⟨after, ran, mt agrees.mp unsound.2⟩
  | cancleAll => exact absurd trivial unsound
  | dispatch reported => exact absurd trivial unsound

/-- The kernel and the registered events agree throughout a run, and every event
that is not registered can be registered, exactly when each operation is sound:
no `addEvent` leaves a descriptor registered for writing only, and no `delEvent`
or `cancleEvent` removes the last event. -/
theorem agreement_iff_sound (operations : List Operation) :
    Along step (fun s => s.Agrees ∧ s.Accepts) fresh operations ↔
      Guarded step Sound fresh operations := by
  refine along_iff_guarded (fun _ settled => ⟨settled.agrees, settled.accepts⟩)
    (fun settled sound taken => Settled.step settled sound taken)
    (fun settled unsound => ?_) settled_fresh
  obtain ⟨after, taken, broken⟩ := settled.broken unsound
  exact ⟨after, taken, fun holds => broken holds.1⟩

/-- After `addEvent` and `delEvent` of the same event the descriptor is still in
the interest set, and registering the event again fails. -/
theorem agreement_violated :
    ¬Along step (fun s => s.Agrees ∧ s.Accepts) fresh
      [.addEvent ⟨0, 0⟩ .read none, .delEvent .read] ∧
    ∃ s after, exec step fresh [.addEvent ⟨0, 0⟩ .read none, .delEvent .read] = some s ∧
      s.ctx.events = .none ∧ s.kernel.isSome ∧
      EStateM.run (addEvent interestCtl (RunningFiber.caller ⟨0, 0⟩) .read none) s =
        .ok (-1) after := by
  refine ⟨fun along => ?_, _, _, rfl, rfl, rfl, rfl⟩
  exact absurd (along.exec rfl).1 (fun agrees => agrees.1 rfl)

end Descriptor

end Sylar.IOManager
