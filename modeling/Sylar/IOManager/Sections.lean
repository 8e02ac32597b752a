import Sylar.IOManager.Model

/-!
# What the locked sections do

`Tidy` ties the context of each event to its bit. For a tidy context every
section is described by one lemma: what the kernel was asked, and what happened
when it agreed and when it refused. Later modules use these lemmas only.
-/

namespace Sylar.IOManager

namespace Events

theorem has_insert (events : Events) (event other : Event) :
    (events.insert event).has other = (events.has other || decide (other = event)) := by
  cases event <;> cases other <;> simp [insert, has]

theorem has_erase (events : Events) (event other : Event) :
    (events.erase event).has other = (events.has other && !decide (other = event)) := by
  cases event <;> cases other <;> simp [erase, has]

theorem ext_has {first second : Events} (same : ∀ event, first.has event = second.has event) :
    first = second := by
  cases first
  cases second
  have read := same .read
  have write := same .write
  simp only [has] at read write
  rw [read, write]

@[simp] theorem has_none (event : Event) : none.has event = false := by
  cases event <;> rfl

theorem eq_none_iff (events : Events) : events = none ↔ ∀ event, events.has event = false := by
  refine ⟨fun empty event => by rw [empty, has_none], fun empty => ext_has fun event => ?_⟩
  rw [empty, has_none]

theorem ne_none_of_has {events : Events} {event : Event} (present : events.has event = true) :
    events ≠ none := by
  rintro rfl
  simp at present

theorem count_insert {events : Events} {event : Event} (absent : events.has event = false) :
    (events.insert event).count = events.count + 1 := by
  cases event <;> simp_all [insert, has, count]; omega

theorem count_erase {events : Events} {event : Event} (present : events.has event = true) :
    (events.erase event).count + 1 = events.count := by
  cases event <;> simp_all [erase, has, count]; omega

end Events

namespace EventContext

/-- The task a context hands over, and the scheduler it goes to. -/
def task (context : EventContext) : Option (SchedulerId × Scheduled) :=
  match context.scheduler, context.cb, context.fiber with
  | some target, some cb, _ => some (target, .cb cb)
  | some target, none, some fiber => some (target, .fiber fiber)
  | _, _, _ => none

/-- A scheduler and exactly one of fiber and callback. -/
def Armed (context : EventContext) : Prop :=
  context.scheduler.isSome ∧ (context.fiber.isSome ↔ ¬context.cb.isSome)

theorem Armed.task {context : EventContext} (armed : context.Armed) :
    ∃ task, context.task = some task := by
  obtain ⟨scheduler, fiber, cb⟩ := context
  obtain ⟨present, one⟩ := armed
  obtain ⟨target, rfl⟩ := Option.isSome_iff_exists.mp present
  cases cb with
  | some cb => exact ⟨_, rfl⟩
  | none =>
      obtain ⟨fiber, rfl⟩ := Option.isSome_iff_exists.mp (one.mpr (by simp))
      exact ⟨_, rfl⟩

/-- The context `addEvent` makes. -/
def registered (caller : Caller) : Option CallbackId → EventContext
  | some cb => ⟨caller.scheduler, none, some cb⟩
  | none => ⟨caller.scheduler, some caller.fiber, none⟩

theorem armed_registered {caller : Caller} (scheduled : caller.scheduler.isSome)
    (cb : Option CallbackId) : (registered caller cb).Armed := by
  cases cb <;> exact ⟨scheduled, by simp [registered]⟩

end EventContext

namespace FdContext

variable {ctx : FdContext} {event other : Event}

@[simp] theorem getContext_setContext (ctx : FdContext) (event : Event) (context : EventContext) :
    (ctx.setContext event context).getContext event = context := by
  cases event <;> rfl

theorem getContext_setContext_of_ne (ctx : FdContext) (context : EventContext)
    (apart : other ≠ event) :
    (ctx.setContext event context).getContext other = ctx.getContext other := by
  cases event <;> cases other <;> first | rfl | exact absurd rfl apart

@[simp] theorem events_setContext (ctx : FdContext) (event : Event) (context : EventContext) :
    (ctx.setContext event context).events = ctx.events := by
  cases event <;> rfl

@[simp] theorem setContext_setContext (ctx : FdContext) (event : Event)
    (first second : EventContext) :
    (ctx.setContext event first).setContext event second = ctx.setContext event second := by
  cases event <;> rfl

/-- A bit is set exactly when its context is armed, and else the context is empty. -/
def Tidy (ctx : FdContext) : Prop :=
  ∀ event, if ctx.events.has event then (ctx.getContext event).Armed
    else ctx.getContext event = .empty

/-- The context without an event. -/
def removed (ctx : FdContext) (event : Event) : FdContext :=
  { ctx with events := ctx.events.erase event }.setContext event .empty

/-- The context with one more event. -/
def added (ctx : FdContext) (event : Event) (context : EventContext) : FdContext :=
  { ctx with events := ctx.events.insert event }.setContext event context

@[simp] theorem events_removed (ctx : FdContext) (event : Event) :
    (ctx.removed event).events = ctx.events.erase event := by
  simp [removed]

@[simp] theorem events_added (ctx : FdContext) (event : Event) (context : EventContext) :
    (ctx.added event context).events = ctx.events.insert event := by
  simp [added]

@[simp] theorem getContext_added (ctx : FdContext) (event : Event) (context : EventContext) :
    (ctx.added event context).getContext event = context :=
  getContext_setContext _ _ _

theorem tidy_new : new.Tidy := by
  intro event
  cases event <;> rfl

namespace Tidy

theorem armed (tidy : ctx.Tidy) (present : ctx.events.has event = true) :
    (ctx.getContext event).Armed := by
  simpa [present] using tidy event

theorem empty (tidy : ctx.Tidy) (absent : ctx.events.has event = false) :
    ctx.getContext event = .empty := by
  simpa [absent] using tidy event

theorem removed (tidy : ctx.Tidy) (event : Event) : (ctx.removed event).Tidy := by
  intro other
  rw [events_removed, Events.has_erase]
  by_cases same : other = event
  · subst same
    simp [FdContext.removed]
  · have kept : (ctx.removed event).getContext other = ctx.getContext other :=
      getContext_setContext_of_ne _ _ same
    have before := tidy other
    rw [kept]
    simpa [same] using before

theorem added (tidy : ctx.Tidy) (event : Event) {context : EventContext}
    (armed : context.Armed) : (ctx.added event context).Tidy := by
  intro other
  rw [events_added, Events.has_insert]
  by_cases same : other = event
  · subst same
    simp [armed]
  · have kept : (ctx.added event context).getContext other = ctx.getContext other :=
      getContext_setContext_of_ne _ _ same
    have before := tidy other
    rw [kept]
    simpa [same] using before

end Tidy

end FdContext

variable {κ : Type} {s : Locked κ} {event : Event}

/-- What a section leaves behind that fires an event. -/
def Locked.fired (s : Locked κ) (event : Event) : Locked κ :=
  { s with
    ctx := s.ctx.removed event
    scheduled := s.scheduled ++ (s.ctx.getContext event).task.toList
    triggered := s.triggered ++ [event] }

/-- `triggerEvent` of an event that is registered hands its task over once and
empties its context. -/
theorem triggerEvent_run (tidy : s.ctx.Tidy) (present : s.ctx.events.has event = true) :
    EStateM.run (triggerEvent event) s = .ok () (s.fired event) := by
  obtain ⟨some_scheduler, one⟩ := tidy.armed present
  obtain ⟨target, scheduler⟩ := Option.isSome_iff_exists.mp some_scheduler
  simp only [triggerEvent, EStateM.run_bind, EStateM.run_modify, EStateM.run_get, sylarAssert,
    present, if_true, EStateM.run_pure, onContext]
  cases cb : (s.ctx.getContext event).cb with
  | some cb =>
      have noFiber : (s.ctx.getContext event).fiber = none := by
        simpa [cb] using one
      simp only [schedule, scheduler, EStateM.run_bind, EStateM.run_modify, Locked.fired,
        EventContext.task, cb, noFiber, FdContext.getContext_setContext,
        FdContext.setContext_setContext, Option.toList_some]
      rfl
  | none =>
      obtain ⟨fiber, known⟩ := Option.isSome_iff_exists.mp (one.mpr (by simp [cb]))
      simp only [schedule, scheduler, EStateM.run_bind, EStateM.run_modify, Locked.fired,
        EventContext.task, cb, known, Option.map_some, FdContext.getContext_setContext,
        FdContext.setContext_setContext, Option.toList_some]
      rfl

/-- `triggerEvent` of an event that is not registered fails its assertion. -/
theorem triggerEvent_run_assertion (absent : s.ctx.events.has event = false) :
    EStateM.run (triggerEvent event) s =
      .error .assertion { s with triggered := s.triggered ++ [event] } := by
  simp only [triggerEvent, EStateM.run_bind, EStateM.run_modify, EStateM.run_get, sylarAssert,
    absent, Bool.false_eq_true, if_false]
  rfl

@[simp] theorem ctx_fired (s : Locked κ) (event : Event) :
    (s.fired event).ctx = s.ctx.removed event := rfl

/-- One more event, and one more pending. -/
def Locked.entered (s : Locked κ) (kernel : κ) (event : Event) (context : EventContext) :
    Locked κ :=
  { s with
    ctx := s.ctx.added event context
    pendingEventCount := s.pendingEventCount + 1
    kernel := kernel }

/-- An event fired or dropped, and one less pending. -/
def Locked.finished (s : Locked κ) (event : Event) : Locked κ :=
  { s.fired event with pendingEventCount := s.pendingEventCount - 1 }

/-- What `delEvent` leaves. -/
def Locked.dropped (s : Locked κ) (kernel : κ) (event : Event) : Locked κ :=
  { s with
    ctx := s.ctx.removed event
    pendingEventCount := s.pendingEventCount - 1
    kernel := kernel }

variable {ctl : EpollCtl κ}

/-- What `addEvent` asks the kernel. -/
def addRequest (ctx : FdContext) (event : Event) : EpollOp × Mask :=
  (if ctx.events ≠ .none then .mod else .add, Mask.in_.or (ctx.events.insert event).mask)

/-- What `delEvent` and `cancleEvent` ask the kernel. -/
def removeRequest (ctx : FdContext) (event : Event) : EpollOp × Mask :=
  (if ctx.events ≠ .none then .mod else .del, Mask.et.or (ctx.events.erase event).mask)

/-- `addEvent` of a registered event fails its assertion. -/
theorem addEvent_run_assertion {caller : Caller} {cb : Option CallbackId}
    (present : s.ctx.events.has event = true) :
    EStateM.run (addEvent ctl caller event cb) s = .error .assertion s := by
  simp only [addEvent, EStateM.run_bind, EStateM.run_get, sylarAssert, present, Bool.not_true,
    Bool.false_eq_true, if_false]
  rfl

/-- `addEvent` registers the event when the kernel agrees. -/
theorem addEvent_run {caller : Caller} {cb : Option CallbackId} {kernel : κ}
    (tidy : s.ctx.Tidy) (absent : s.ctx.events.has event = false)
    (running : cb = none → caller.state = .exec)
    (answer : ctl s.kernel (addRequest s.ctx event).1 (addRequest s.ctx event).2 =
      (true, kernel)) :
    EStateM.run (addEvent ctl caller event cb) s =
      .ok 0 (s.entered kernel event (.registered caller cb)) := by
  have empty := tidy.empty absent
  simp only [addRequest] at answer
  simp only [addEvent, EStateM.run_bind, EStateM.run_get, sylarAssert, absent, Bool.not_false,
    if_true, EStateM.run_pure, epollCtl, answer, EStateM.run_set, incrementPending, onContext,
    EStateM.run_modify, empty, EventContext.empty, decide_true, Bool.and_self]
  cases cb with
  | some cb =>
      simp only [EStateM.run_bind, EStateM.run_modify, EStateM.run_pure]
      rfl
  | none =>
      simp only [EStateM.run_bind, EStateM.run_modify, EStateM.run_pure, running rfl,
        decide_true, if_true]
      rfl

/-- A fiber that is not in the state `EXEC` cannot be registered. -/
theorem addEvent_run_notExec {caller : Caller} {kernel : κ}
    (tidy : s.ctx.Tidy) (absent : s.ctx.events.has event = false) (resting : caller.state ≠ .exec)
    (answer : ctl s.kernel (addRequest s.ctx event).1 (addRequest s.ctx event).2 =
      (true, kernel)) :
    ∃ after, EStateM.run (addEvent ctl caller event none) s = .error .assertion after := by
  have empty := tidy.empty absent
  simp only [addRequest] at answer
  simp only [addEvent, EStateM.run_bind, EStateM.run_get, sylarAssert, absent, Bool.not_false,
    if_true, EStateM.run_pure, epollCtl, answer, EStateM.run_set, incrementPending, onContext,
    EStateM.run_modify, empty, EventContext.empty, decide_true, Bool.and_self, resting,
    decide_false, Bool.false_eq_true, if_false]
  exact ⟨_, rfl⟩

/-- `addEvent` changes nothing of its own when the kernel refuses. -/
theorem addEvent_run_refused {caller : Caller} {cb : Option CallbackId} {kernel : κ}
    (absent : s.ctx.events.has event = false)
    (answer : ctl s.kernel (addRequest s.ctx event).1 (addRequest s.ctx event).2 =
      (false, kernel)) :
    EStateM.run (addEvent ctl caller event cb) s = .ok (-1) { s with kernel := kernel } := by
  simp only [addRequest] at answer
  simp only [addEvent, EStateM.run_bind, EStateM.run_get, sylarAssert, absent, Bool.not_false,
    if_true, EStateM.run_pure, epollCtl, answer, EStateM.run_set, Bool.false_eq_true, if_false]

theorem delEvent_run_absent (absent : s.ctx.events.has event = false) :
    EStateM.run (delEvent ctl event) s = .ok false s := by
  simp only [delEvent, EStateM.run_bind, EStateM.run_get, absent, Bool.not_false, if_true,
    EStateM.run_pure]

theorem delEvent_run {kernel : κ} {success : Bool} (present : s.ctx.events.has event = true)
    (answer : ctl s.kernel (removeRequest s.ctx event).1 (removeRequest s.ctx event).2 =
      (success, kernel)) :
    EStateM.run (delEvent ctl event) s =
      .ok success (if success then s.dropped kernel event else { s with kernel := kernel }) := by
  simp only [removeRequest] at answer
  cases success <;>
    simp only [delEvent, removeFromEpoll, EStateM.run_bind, EStateM.run_get, present, Bool.not_true,
      Bool.false_eq_true, if_false, if_true, epollCtl, answer, EStateM.run_set, EStateM.run_pure,
      decrementPending, onContext, EStateM.run_modify, FdContext.resetContext]
  rfl

theorem cancleEvent_run_absent (absent : s.ctx.events.has event = false) :
    EStateM.run (cancleEvent ctl event) s = .ok false s := by
  simp only [cancleEvent, EStateM.run_bind, EStateM.run_get, absent, Bool.not_false, if_true,
    EStateM.run_pure]

theorem cancleEvent_run {kernel : κ} {success : Bool} (tidy : s.ctx.Tidy)
    (present : s.ctx.events.has event = true)
    (answer : ctl s.kernel (removeRequest s.ctx event).1 (removeRequest s.ctx event).2 =
      (success, kernel)) :
    EStateM.run (cancleEvent ctl event) s =
      .ok success (if success then { s with kernel := kernel }.finished event
        else { s with kernel := kernel }) := by
  simp only [removeRequest] at answer
  have fires := triggerEvent_run (s := { s with kernel := kernel }) tidy present
  cases success with
  | true =>
      simp only [cancleEvent, removeFromEpoll, EStateM.run_bind, EStateM.run_get, present,
        Bool.not_true, Bool.false_eq_true, if_false, if_true, epollCtl, answer, EStateM.run_set,
        EStateM.run_pure, fires, decrementPending, EStateM.run_modify]
      rfl
  | false =>
      simp only [cancleEvent, removeFromEpoll, EStateM.run_bind, EStateM.run_get, present,
        Bool.not_true, Bool.false_eq_true, if_false, epollCtl, answer, EStateM.run_set,
        EStateM.run_pure]

/-- The effect of the conditional firing of an event. -/
def Locked.finishedIf (s : Locked κ) (events : Events) (event : Event) : Locked κ :=
  if events.has event then s.finished event else s

theorem fire_run (events : Events) (event : Event) (tidy : s.ctx.Tidy)
    (present : events.has event = true → s.ctx.events.has event = true) :
    EStateM.run (fire events event) s = .ok () (s.finishedIf events event) := by
  by_cases fires : events.has event = true
  · simp only [fire, fires, if_true, EStateM.run_bind, triggerEvent_run tidy (present fires),
      decrementPending, EStateM.run_modify, Locked.finishedIf]
    rfl
  · simp only [fire, if_neg fires, EStateM.run_pure, Locked.finishedIf]

theorem fire_run_assertion (events : Events) (event : Event) (fires : events.has event = true)
    (absent : s.ctx.events.has event = false) :
    EStateM.run (fire events event) s =
      .error .assertion { s with triggered := s.triggered ++ [event] } := by
  simp only [fire, fires, if_true, EStateM.run_bind, triggerEvent_run_assertion absent]

/-- All events of a set are fired, reading before writing. -/
def Locked.finishedAll (s : Locked κ) (events : Events) : Locked κ :=
  (s.finishedIf events .read).finishedIf events .write

theorem tidy_finishedIf (tidy : s.ctx.Tidy) (events : Events) (event : Event) :
    (s.finishedIf events event).ctx.Tidy := by
  rw [Locked.finishedIf]
  split
  · exact tidy.removed event
  · exact tidy

theorem has_finishedIf (s : Locked κ) (events : Events) (event other : Event) :
    (s.finishedIf events event).ctx.events.has other =
      (s.ctx.events.has other && !(events.has event && decide (other = event))) := by
  rw [Locked.finishedIf]
  by_cases fires : events.has event = true
  · rw [if_pos fires, fires, Bool.true_and]
    exact (congrArg (Events.has · other) (FdContext.events_removed _ _)).trans
      (Events.has_erase _ _ _)
  · simp [fires]

/-- Firing depends on the bit of its event only. -/
theorem finishedIf_congr {first second : Events} (same : first.has event = second.has event) :
    s.finishedIf first event = s.finishedIf second event := by
  rw [Locked.finishedIf, Locked.finishedIf, same]

theorem has_finishedAll (s : Locked κ) (events : Events) (event : Event) :
    (s.finishedAll events).ctx.events.has event =
      (s.ctx.events.has event && !events.has event) := by
  rw [Locked.finishedAll, has_finishedIf, has_finishedIf]
  cases event <;> simp

theorem tidy_finishedAll (tidy : s.ctx.Tidy) (events : Events) :
    (s.finishedAll events).ctx.Tidy :=
  tidy_finishedIf (tidy_finishedIf tidy events .read) events .write

/-- What `cancleAll` asks the kernel. -/
def cancleAllRequest : EpollOp × Mask := (.del, ⟨false, false, false, false, false⟩)

theorem cancleAll_run_absent (absent : s.ctx.events = .none) :
    EStateM.run (cancleAll ctl) s = .ok false s := by
  simp only [cancleAll, EStateM.run_bind, EStateM.run_get, absent, if_true, EStateM.run_pure]

/-- `cancleAll` fires every registered event, and its assertion holds. -/
theorem cancleAll_run {kernel : κ} {success : Bool} (tidy : s.ctx.Tidy)
    (present : s.ctx.events ≠ .none)
    (answer : ctl s.kernel cancleAllRequest.1 cancleAllRequest.2 = (success, kernel)) :
    EStateM.run (cancleAll ctl) s =
      .ok success (if success then { s with kernel := kernel }.finishedAll s.ctx.events
        else { s with kernel := kernel }) := by
  let asked : Locked κ := { s with kernel := kernel }
  simp only [cancleAllRequest] at answer
  cases success with
  | true =>
      have first := fire_run (s := asked) s.ctx.events .read tidy id
      have write : (asked.finishedIf s.ctx.events .read).ctx.events.has .write =
          s.ctx.events.has .write := by
        simp [has_finishedIf, asked]
      have second := fire_run (s := asked.finishedIf s.ctx.events .read)
        (asked.finishedIf s.ctx.events .read).ctx.events .write
        (tidy_finishedIf (s := asked) tidy s.ctx.events .read) id
      rw [finishedIf_congr write] at second
      have cleared : ((asked.finishedIf s.ctx.events .read).finishedIf s.ctx.events
          .write).ctx.events = .none := by
        rw [Events.eq_none_iff]
        intro event
        have left := has_finishedAll asked s.ctx.events event
        simpa [Locked.finishedAll, asked] using left
      simp only [cancleAll, EStateM.run_bind, EStateM.run_get, if_neg present, epollCtl, answer,
        EStateM.run_set, EStateM.run_pure, if_true]
      simp only [asked] at first second cleared
      simp only [first, second, cleared, sylarAssert, decide_true, if_true, EStateM.run_pure,
        Locked.finishedAll]
  | false =>
      simp only [cancleAll, EStateM.run_bind, EStateM.run_get, if_neg present, epollCtl, answer,
        EStateM.run_set, EStateM.run_pure, Bool.false_eq_true, if_false]

/-- What `idle` asks the kernel for a report. -/
def dispatchRequest (ctx : FdContext) (reported : Mask) : EpollOp × Mask :=
  let left := ctx.events.diff (realEvents ctx.events reported)
  (if left ≠ .none then .mod else .del, Mask.et.or left.mask)

section Dispatch

variable {reported : Mask}

theorem dispatch_run_disjoint
    (nothing : s.ctx.events.disjoint (realEvents s.ctx.events reported) = true) :
    EStateM.run (dispatch ctl reported) s = .ok () s := by
  simp only [dispatch, EStateM.run_bind, EStateM.run_get, nothing, if_true, EStateM.run_pure]

theorem dispatch_run_refused {kernel : κ}
    (something : s.ctx.events.disjoint (realEvents s.ctx.events reported) = false)
    (answer : ctl s.kernel (dispatchRequest s.ctx reported).1 (dispatchRequest s.ctx reported).2 =
      (false, kernel)) :
    EStateM.run (dispatch ctl reported) s = .ok () { s with kernel := kernel } := by
  simp only [dispatchRequest] at answer
  simp only [dispatch, EStateM.run_bind, EStateM.run_get, something, Bool.false_eq_true, if_false,
    epollCtl, answer, EStateM.run_set, EStateM.run_pure]

/-- `idle` fires the reported events if they are all registered. -/
theorem dispatch_run {kernel : κ} (tidy : s.ctx.Tidy)
    (something : s.ctx.events.disjoint (realEvents s.ctx.events reported) = false)
    (answer : ctl s.kernel (dispatchRequest s.ctx reported).1 (dispatchRequest s.ctx reported).2 =
      (true, kernel))
    (registered : ∀ event, (realEvents s.ctx.events reported).has event = true →
      s.ctx.events.has event = true) :
    EStateM.run (dispatch ctl reported) s =
      .ok () ({ s with kernel := kernel }.finishedAll (realEvents s.ctx.events reported)) := by
  let asked : Locked κ := { s with kernel := kernel }
  let real := realEvents s.ctx.events reported
  have first := fire_run (s := asked) real .read tidy (registered .read)
  have second := fire_run (s := asked.finishedIf real .read) real .write
    (tidy_finishedIf (s := asked) tidy real .read) (fun fires => by
      rw [has_finishedIf]
      simpa using registered .write fires)
  simp only [dispatchRequest] at answer
  simp only [dispatch, EStateM.run_bind, EStateM.run_get, something, Bool.false_eq_true, if_false,
    epollCtl, answer, EStateM.run_set, EStateM.run_pure, if_true]
  simp only [asked, real] at first second
  simp only [first, second, Locked.finishedAll]

/-- `idle` fails an assertion if a reported event is not registered although
another one is. -/
theorem dispatch_run_assertion {kernel : κ} (tidy : s.ctx.Tidy)
    (something : s.ctx.events.disjoint (realEvents s.ctx.events reported) = false)
    (answer : ctl s.kernel (dispatchRequest s.ctx reported).1 (dispatchRequest s.ctx reported).2 =
      (true, kernel)) {event : Event}
    (fires : (realEvents s.ctx.events reported).has event = true)
    (absent : s.ctx.events.has event = false) :
    ∃ after, EStateM.run (dispatch ctl reported) s = .error .assertion after ∧
      event ∈ after.triggered := by
  let asked : Locked κ := { s with kernel := kernel }
  let real := realEvents s.ctx.events reported
  simp only [dispatchRequest] at answer
  simp only [dispatch, EStateM.run_bind, EStateM.run_get, something, Bool.false_eq_true, if_false,
    epollCtl, answer, EStateM.run_set, EStateM.run_pure, if_true]
  cases event with
  | read =>
      have failed := fire_run_assertion (s := asked) real .read fires absent
      simp only [asked, real] at failed
      refine ⟨{ asked with triggered := asked.triggered ++ [.read] }, ?_, by simp⟩
      simp only [failed]
      rfl
  | write =>
      cases read : s.ctx.events.has .read with
      | true =>
          have first := fire_run (s := asked) real .read tidy (fun _ => read)
          have still : (asked.finishedIf real .read).ctx.events.has .write = false := by
            rw [has_finishedIf]
            simp [asked, absent]
          have failed := fire_run_assertion (s := asked.finishedIf real .read) real .write fires
            still
          simp only [asked, real] at first failed
          refine ⟨{ asked.finishedIf real .read with
            triggered := (asked.finishedIf real .read).triggered ++ [.write] }, ?_, by simp⟩
          simp only [first, failed]
          rfl
      | false =>
          -- then both events are unregistered and the report concerns none of them
          have none : s.ctx.events.disjoint real = true := by
            have writeBit : s.ctx.events.write = false := absent
            have readBit : s.ctx.events.read = false := read
            simp [Events.disjoint, writeBit, readBit]
          rw [something] at none
          cases none

end Dispatch

end Sylar.IOManager
