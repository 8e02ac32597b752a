import Sylar.IOManager.KernelAgreement

/-!
# What `idle` triggers

`idle` looks at a report under the lock of the descriptor, when other threads
may have removed events since. It goes on if some reported event is registered,
and then triggers every reported one. `dispatch_safe_iff` says when these are
the same.
-/

namespace Sylar.IOManager

open Library

/-- The event is reported, or an error or hang-up stands for it. -/
def Mask.Reports (reported : Mask) (event : Event) : Prop :=
  reported.events.has event = true ∨ reported.epollerr = true ∨ reported.epollhup = true

/-- One event is registered and reported or implied, and another one that is not
registered is reported too. -/
def Mixed (events : Events) (reported : Mask) : Prop :=
  ∃ event other, events.has event = true ∧ reported.Reports event ∧
    events.has other = false ∧ reported.events.has other = true

theorem has_realEvents (events : Events) (reported : Mask) (event : Event) :
    (realEvents events reported).has event = true ↔
      reported.events.has event = true ∨
        ((reported.epollerr = true ∨ reported.epollhup = true) ∧ events.has event = true) := by
  obtain ⟨_, _, err, hup, _⟩ := reported
  cases event <;> cases err <;> cases hup <;>
    simp [realEvents, Mask.or, Mask.events, Events.mask, Events.has]

theorem exists_event {p : Event → Prop} : (∃ event, p event) ↔ p .read ∨ p .write := by
  constructor
  · rintro ⟨event, holds⟩
    cases event with
    | read => exact Or.inl holds
    | write => exact Or.inr holds
  · rintro (holds | holds)
    · exact ⟨_, holds⟩
    · exact ⟨_, holds⟩

theorem disjoint_iff (first second : Events) :
    first.disjoint second = false ↔
      ∃ event, first.has event = true ∧ second.has event = true := by
  rw [exists_event]
  simp only [Events.has, Events.disjoint]
  cases first.read <;> cases second.read <;> simp

/-- What the kernel keeps after a request. -/
theorem interestCtl_success {kernel after : Option Mask} {op : EpollOp} {events : Mask}
    (answer : interestCtl kernel op events = (true, after)) (keeps : op ≠ .del) :
    after = some events := by
  cases kernel <;> cases op <;> simp_all [interestCtl]

theorem interestCtl_failure {kernel after : Option Mask} {op : EpollOp} {events : Mask}
    (answer : interestCtl kernel op events = (false, after)) : after = kernel := by
  cases kernel <;> cases op <;> simp_all [interestCtl]

namespace Descriptor

/-- What holds of a descriptor whatever was done with it: its contexts belong to
its events, and while events are registered the kernel holds it. -/
structure Kept (s : Descriptor) : Prop where
  tidy : s.ctx.Tidy
  present : s.ctx.events ≠ .none → s.kernel.isSome

theorem kept_fresh : fresh.Kept where
  tidy := FdContext.tidy_new
  present nonempty := absurd rfl nonempty

/-- The kernel does not refuse to modify or delete a descriptor that has events. -/
theorem Kept.answer {s : Descriptor} (kept : s.Kept) (nonempty : s.ctx.events ≠ .none)
    {op : EpollOp} (changes : op ≠ .add) (events : Mask) :
    ∃ kernel, interestCtl s.kernel op events = (true, kernel) := by
  obtain ⟨mask, known⟩ := Option.isSome_iff_exists.mp (kept.present nonempty)
  cases op with
  | add => exact absurd rfl changes
  | mod => exact ⟨some events, by rw [known, interestCtl]⟩
  | del => exact ⟨none, by rw [known, interestCtl]⟩

theorem Kept.remove_answer {s : Descriptor} (kept : s.Kept) {event : Event}
    (present : s.ctx.events.has event = true) :
    ∃ events, interestCtl s.kernel (removeRequest s.ctx event).1 (removeRequest s.ctx event).2 =
      (true, some events) := by
  have nonempty := Events.ne_none_of_has present
  have op : (removeRequest s.ctx event).1 = .mod := if_pos nonempty
  obtain ⟨kernel, answer⟩ := kept.answer nonempty (show (removeRequest s.ctx event).1 ≠ .add by
    rw [op]
    exact nofun) (removeRequest s.ctx event).2
  obtain rfl := interestCtl_success answer (by rw [op]; exact nofun)
  exact ⟨_, answer⟩

theorem Kept.dispatch_answer {s : Descriptor} (kept : s.Kept) {reported : Mask}
    (something : s.ctx.events.disjoint (realEvents s.ctx.events reported) = false) :
    ∃ kernel, interestCtl s.kernel (dispatchRequest s.ctx reported).1
      (dispatchRequest s.ctx reported).2 = (true, kernel) := by
  obtain ⟨event, registered, _⟩ := (disjoint_iff _ _).mp something
  refine kept.answer (Events.ne_none_of_has registered) ?_ _
  simp only [dispatchRequest]
  split <;> rintro ⟨⟩

/-- Every operation keeps a descriptor so. -/
theorem Kept.step {s after : Descriptor} (kept : s.Kept) {operation : Operation}
    (taken : s.step operation = some after) : after.Kept := by
  cases operation with
  | addEvent running event cb =>
      cases present : s.ctx.events.has event with
      | true =>
          rw [Descriptor.step, addEvent_run_assertion present, finish] at taken
          cases taken
      | false =>
          cases answer : interestCtl s.kernel (addRequest s.ctx event).1
              (addRequest s.ctx event).2 with
          | mk success kernel =>
          cases success with
          | true =>
              rw [Descriptor.step, addEvent_run kept.tidy present (fun _ => rfl) answer,
                finish] at taken
              cases taken
              refine ⟨kept.tidy.added event (EventContext.armed_registered rfl cb), fun _ => ?_⟩
              have keeps : (addRequest s.ctx event).1 ≠ .del := by
                simp only [addRequest]
                split <;> rintro ⟨⟩
              rw [show (s.entered kernel event _).kernel = kernel from rfl,
                interestCtl_success answer keeps]
              rfl
          | false =>
              rw [Descriptor.step, addEvent_run_refused present answer, finish] at taken
              cases taken
              refine ⟨kept.tidy, fun nonempty => ?_⟩
              rw [interestCtl_failure answer]
              exact kept.present nonempty
  | delEvent event =>
      cases present : s.ctx.events.has event with
      | false =>
          rw [Descriptor.step, delEvent_run_absent present, finish] at taken
          cases taken
          exact kept
      | true =>
          obtain ⟨events, answer⟩ := kept.remove_answer present
          rw [Descriptor.step, delEvent_run present answer, finish] at taken
          cases taken
          exact ⟨kept.tidy.removed event, fun _ => rfl⟩
  | cancleEvent event =>
      cases present : s.ctx.events.has event with
      | false =>
          rw [Descriptor.step, cancleEvent_run_absent present, finish] at taken
          cases taken
          exact kept
      | true =>
          obtain ⟨events, answer⟩ := kept.remove_answer present
          rw [Descriptor.step, cancleEvent_run kept.tidy present answer, finish] at taken
          cases taken
          exact ⟨kept.tidy.removed event, fun _ => rfl⟩
  | cancleAll =>
      by_cases absent : s.ctx.events = .none
      · rw [Descriptor.step, cancleAll_run_absent absent, finish] at taken
        cases taken
        exact kept
      · obtain ⟨kernel, answer⟩ := kept.answer absent
          (show cancleAllRequest.1 ≠ .add by rintro ⟨⟩) cancleAllRequest.2
        rw [Descriptor.step, cancleAll_run kept.tidy absent answer, finish] at taken
        cases taken
        let asked : Descriptor := { s with kernel := kernel }
        refine ⟨tidy_finishedAll (s := asked) kept.tidy _, fun nonempty => ?_⟩
        refine absurd ?_ nonempty
        rw [if_pos rfl, events_finishedAll]
        exact Events.ext_has fun event => by
          cases event <;> simp [Events.diff, Events.has, Events.none]
  | dispatch reported =>
      cases something : s.ctx.events.disjoint (realEvents s.ctx.events reported) with
      | true =>
          rw [Descriptor.step, dispatch_run_disjoint something, finish] at taken
          cases taken
          exact kept
      | false =>
          obtain ⟨kernel, answer⟩ := kept.dispatch_answer something
          by_cases registered : ∀ event, (realEvents s.ctx.events reported).has event = true →
              s.ctx.events.has event = true
          · rw [Descriptor.step, dispatch_run kept.tidy something answer registered,
              finish] at taken
            cases taken
            let asked : Descriptor := { s with kernel := kernel }
            refine ⟨tidy_finishedAll (s := asked) kept.tidy _, fun nonempty => ?_⟩
            rw [events_finishedAll] at nonempty
            have keeps : (dispatchRequest s.ctx reported).1 ≠ .del := by
              rw [dispatchRequest, if_pos nonempty]
              rintro ⟨⟩
            rw [kernel_finishedAll, interestCtl_success answer keeps]
            rfl
          · simp only [not_forall] at registered
            obtain ⟨event, fires, absent⟩ := registered
            obtain ⟨_, failed, _⟩ := dispatch_run_assertion kept.tidy something answer fires
              (Bool.eq_false_iff.mpr absent)
            rw [Descriptor.step, failed, finish] at taken
            cases taken

/-- A descriptor on which operations were performed is kept. -/
theorem kept_of_exec {operations : List Operation} {s : Descriptor}
    (reached : exec Descriptor.step fresh operations = some s) : s.Kept :=
  (along_of_preserved (fun kept taken => Kept.step kept taken) kept_fresh operations).exec reached

/-- The calls of `triggerEvent` are for events that are registered when the
report is handled and that it reports or implies, and no assertion fails. -/
def Safe (s : Descriptor) (reported : Mask) : Prop :=
  ∃ after calls, EStateM.run (dispatch interestCtl reported) s = .ok () after ∧
    after.triggered = s.triggered ++ calls ∧
    ∀ event ∈ calls, s.ctx.events.has event = true ∧ reported.Reports event

theorem triggered_finishedAll (s : Descriptor) (events : Events) :
    ∃ calls, (s.finishedAll events).triggered = s.triggered ++ calls ∧
      ∀ event ∈ calls, events.has event = true := by
  by_cases read : events.has .read = true <;> by_cases write : events.has .write = true
  · exact ⟨[.read, .write], by simp [Locked.finishedAll, Locked.finishedIf, read, write,
      Locked.finished, Locked.fired], by simp [read, write]⟩
  · exact ⟨[.read], by simp [Locked.finishedAll, Locked.finishedIf, read, write,
      Locked.finished, Locked.fired], by simp [read]⟩
  · exact ⟨[.write], by simp [Locked.finishedAll, Locked.finishedIf, read, write,
      Locked.finished, Locked.fired], by simp [write]⟩
  · exact ⟨[], by simp [Locked.finishedAll, Locked.finishedIf, read, write], by simp⟩

/-- `idle` is safe for a report exactly when it is not mixed. -/
theorem Kept.safe_iff {s : Descriptor} (kept : s.Kept) (reported : Mask) :
    s.Safe reported ↔ ¬Mixed s.ctx.events reported := by
  constructor
  · rintro ⟨after, calls, ran, _, _⟩ ⟨event, other, registered, reports, absent, raw⟩
    have fires : (realEvents s.ctx.events reported).has event = true := by
      rw [has_realEvents]
      exact reports.imp_right fun implied => ⟨implied, registered⟩
    have something : s.ctx.events.disjoint (realEvents s.ctx.events reported) = false :=
      (disjoint_iff _ _).mpr ⟨event, registered, fires⟩
    obtain ⟨kernel, answer⟩ := kept.dispatch_answer something
    obtain ⟨_, failed, _⟩ := dispatch_run_assertion kept.tidy something answer
      ((has_realEvents _ _ _).mpr (Or.inl raw)) absent
    rw [failed] at ran
    cases ran
  · intro unmixed
    cases something : s.ctx.events.disjoint (realEvents s.ctx.events reported) with
    | true =>
        exact ⟨s, [], dispatch_run_disjoint something, (List.append_nil _).symm,
          fun _ member => absurd member List.not_mem_nil⟩
    | false =>
        obtain ⟨event, registered, fires⟩ := (disjoint_iff _ _).mp something
        have reports : reported.Reports event :=
          ((has_realEvents _ _ _).mp fires).imp_right And.left
        -- some event is registered and reported, so all reported ones are registered
        have all : ∀ other, (realEvents s.ctx.events reported).has other = true →
            s.ctx.events.has other = true := by
          intro other otherFires
          by_contra absent
          rcases (has_realEvents _ _ _).mp otherFires with raw | ⟨_, present⟩
          · exact unmixed ⟨event, other, registered, reports, Bool.eq_false_iff.mpr absent, raw⟩
          · exact absent present
        obtain ⟨kernel, answer⟩ := kept.dispatch_answer something
        let asked : Descriptor := { s with kernel := kernel }
        obtain ⟨calls, triggered, called⟩ :=
          triggered_finishedAll asked (realEvents s.ctx.events reported)
        refine ⟨_, calls, dispatch_run kept.tidy something answer all, triggered, ?_⟩
        intro other member
        have otherFires := called other member
        exact ⟨all other otherFires, ((has_realEvents _ _ _).mp otherFires).imp_right And.left⟩

/-- Whatever was done with a descriptor before, `idle` triggers only events that
are registered and reported, and fails no assertion, exactly when the report is
not mixed. -/
theorem dispatch_safe_iff (operations : List Operation) (s : Descriptor)
    (reached : exec Descriptor.step fresh operations = some s) (reported : Mask) :
    s.Safe reported ↔ ¬Mixed s.ctx.events reported :=
  (kept_of_exec reached).safe_iff reported

/-- Both events are registered and both are reported. -/
theorem dispatch_safe_both :
    ∃ s, exec Descriptor.step fresh
        [.addEvent ⟨0, 0⟩ .read none, .addEvent ⟨0, 1⟩ .write none] = some s ∧
      s.Safe ⟨true, true, false, false, false⟩ := by
  refine ⟨_, rfl, (dispatch_safe_iff
    [.addEvent ⟨0, 0⟩ .read none, .addEvent ⟨0, 1⟩ .write none] _ rfl _).mpr ?_⟩
  rintro ⟨_, other, _, _, absent, _⟩
  cases other <;> cases absent

/-- Only writing was registered, but the mask asks for reading too. When the
descriptor becomes readable and writable, `idle` triggers the read event. -/
theorem dispatch_unregistered :
    ∃ s mask, exec Descriptor.step fresh [.addEvent ⟨0, 0⟩ .write none] = some s ∧
      s.kernel = some mask ∧ mask.events = ⟨true, true⟩ ∧
      (∃ after, EStateM.run (dispatch interestCtl ⟨true, true, false, false, false⟩) s =
        .error .assertion after) ∧
      ¬s.Safe ⟨true, true, false, false, false⟩ := by
  refine ⟨_, _, rfl, rfl, rfl, ⟨_, rfl⟩, ?_⟩
  rintro ⟨_, _, ran, _⟩
  exact nomatch ran

end Descriptor

end Sylar.IOManager
