import Sylar.IOManager.Bookkeeping

/-!
# The books balance

Whatever the threads do and however `epoll_ctl` answers, the counter of pending
events is the number of bits set, each bit is set exactly when its context is
armed, and each registration ends at most once. `Effect` says this of one
section; `Balanced` is the invariant of the whole.
-/

namespace Sylar.IOManager

open Library

set_option linter.unusedSectionVars false

/-- What is registered for an event. -/
def FdContext.registration (ctx : FdContext) (event : Event) : Option EventContext :=
  if ctx.events.has event then some (ctx.getContext event) else none

/-- A registration is fired with its own task, or deleted. -/
def Outcome.Fits (context : EventContext) : Outcome → Prop
  | .fired target task => context.task = some (target, task)
  | .deleted => True

/-- What happens to the events of one context in a section. -/
abbrev Entry := Event × Phase EventContext Outcome

/-- The entries of one event. -/
def entriesOf (event : Event) (entries : List Entry) : List (Phase EventContext Outcome) :=
  entries.filterMap fun entry => if entry.1 = event then some entry.2 else none

theorem entriesOf_append (event : Event) (first second : List Entry) :
    entriesOf event (first ++ second) = entriesOf event first ++ entriesOf event second :=
  List.filterMap_append

theorem entriesOf_singleton (event other : Event) (phase : Phase EventContext Outcome) :
    entriesOf event [(other, phase)] = if other = event then [phase] else [] := by
  by_cases same : other = event <;> simp [entriesOf, same]

namespace FdContext

variable {ctx : FdContext} {event other : Event}

theorem registration_of_has (present : ctx.events.has event = true) :
    ctx.registration event = some (ctx.getContext event) := if_pos present

theorem registration_of_not_has (absent : ctx.events.has event = false) :
    ctx.registration event = none := if_neg (by rw [absent]; exact nofun)

theorem registration_removed (ctx : FdContext) (event : Event) :
    (ctx.removed event).registration event = none :=
  registration_of_not_has (by simp [Events.has_erase])

theorem registration_removed_of_ne (ctx : FdContext) (apart : other ≠ event) :
    (ctx.removed event).registration other = ctx.registration other := by
  have kept : (ctx.removed event).getContext other = ctx.getContext other :=
    getContext_setContext_of_ne _ _ apart
  simp [registration, kept, Events.has_erase, apart]

theorem registration_added (ctx : FdContext) (event : Event) (context : EventContext) :
    (ctx.added event context).registration event = some context := by
  simp [registration, Events.has_insert]

theorem registration_added_of_ne (ctx : FdContext) (context : EventContext)
    (apart : other ≠ event) :
    (ctx.added event context).registration other = ctx.registration other := by
  have kept : (ctx.added event context).getContext other = ctx.getContext other :=
    getContext_setContext_of_ne _ _ apart
  simp [registration, kept, Events.has_insert, apart]

end FdContext

variable {κ : Type}

/-- What a section does to its context and the counter. -/
structure Effect (entries : List Entry) (s t : Locked κ) : Prop where
  tidy : t.ctx.Tidy
  pending : t.pendingEventCount + UInt64.ofNat s.ctx.events.count =
    s.pendingEventCount + UInt64.ofNat t.ctx.events.count
  lives : ∀ event, Life Outcome.Fits (s.ctx.registration event) (entriesOf event entries)
    (t.ctx.registration event)

namespace Effect

variable {s t u : Locked κ} {event : Event}

theorem refl (tidy : s.ctx.Tidy) (pending : t.pendingEventCount = s.pendingEventCount)
    (ctx : t.ctx = s.ctx) : Effect [] s t where
  tidy := ctx ▸ tidy
  pending := by rw [pending, ctx]
  lives event := by
    rw [ctx]
    exact .done

theorem trans {first second : List Entry} (left : Effect first s t) (right : Effect second t u) :
    Effect (first ++ second) s u where
  tidy := right.tidy
  pending := by
    have earlier := left.pending
    have later := right.pending
    grind
  lives event := by
    rw [entriesOf_append]
    exact (left.lives event).trans (right.lives event)

/-- An event that ends, whatever its outcome. -/
theorem removed {outcome : Outcome} (tidy : s.ctx.Tidy) (present : s.ctx.events.has event = true)
    (ctx : t.ctx = s.ctx.removed event)
    (pending : t.pendingEventCount = s.pendingEventCount - 1)
    (fits : outcome.Fits (s.ctx.getContext event)) : Effect [(event, .closed outcome)] s t where
  tidy := by
    rw [ctx]
    exact tidy.removed event
  pending := by
    have count := Events.count_erase present
    rw [pending, ctx, FdContext.events_removed, ← count, UInt64.ofNat_add]
    grind
  lives other := by
    rw [ctx, entriesOf_singleton]
    by_cases same : other = event
    · subst same
      rw [FdContext.registration_removed, FdContext.registration_of_has present, if_pos rfl]
      exact .closed fits .done
    · rw [FdContext.registration_removed_of_ne _ same, if_neg (Ne.symm same)]
      exact .done

/-- An event that is registered. -/
theorem added {context : EventContext} (tidy : s.ctx.Tidy)
    (absent : s.ctx.events.has event = false) (ctx : t.ctx = s.ctx.added event context)
    (pending : t.pendingEventCount = s.pendingEventCount + 1) (armed : context.Armed) :
    Effect [(event, .opened context)] s t where
  tidy := by
    rw [ctx]
    exact tidy.added event armed
  pending := by
    have count := Events.count_insert absent
    rw [pending, ctx, FdContext.events_added, count, UInt64.ofNat_add]
    grind
  lives other := by
    rw [ctx, entriesOf_singleton]
    by_cases same : other = event
    · subst same
      rw [FdContext.registration_added, FdContext.registration_of_not_has absent, if_pos rfl]
      exact .opened .done
    · rw [FdContext.registration_added_of_ne _ _ same, if_neg (Ne.symm same)]
      exact .done

end Effect

/-- An event that was fired, and what was scheduled for it. -/
abbrev Shot := Event × SchedulerId × Scheduled

/-- What the history records of it. -/
def Shot.entry (shot : Shot) : Entry := (shot.1, .closed (.fired shot.2.1 shot.2.2))

/-- A section that fires events, each one scheduling one task. -/
structure Fires (shots : List Shot) (s t : Locked κ) : Prop where
  effect : Effect (shots.map Shot.entry) s t
  triggered : t.triggered = s.triggered ++ shots.map Prod.fst
  scheduled : t.scheduled = s.scheduled ++ shots.map Prod.snd

namespace Fires

variable {s t u : Locked κ}

theorem trans {first second : List Shot} (left : Fires first s t) (right : Fires second t u) :
    Fires (first ++ second) s u where
  effect := by
    rw [List.map_append]
    exact left.effect.trans right.effect
  triggered := by rw [right.triggered, left.triggered, List.map_append, List.append_assoc]
  scheduled := by rw [right.scheduled, left.scheduled, List.map_append, List.append_assoc]

theorem finished {event : Event} (tidy : s.ctx.Tidy) (present : s.ctx.events.has event = true) :
    ∃ shots, Fires shots s (s.finished event) := by
  obtain ⟨⟨target, task⟩, known⟩ := (tidy.armed present).task
  refine ⟨[(event, target, task)], ?_, rfl, ?_⟩
  · exact .removed tidy present rfl rfl (show (Outcome.fired target task).Fits _ from known)
  · simp [Locked.finished, Locked.fired, known]

theorem finishedIf (tidy : s.ctx.Tidy) {events : Events} {event : Event}
    (present : events.has event = true → s.ctx.events.has event = true) :
    ∃ shots, Fires shots s (s.finishedIf events event) := by
  by_cases fires : events.has event = true
  · rw [Locked.finishedIf, if_pos fires]
    exact finished tidy (present fires)
  · rw [Locked.finishedIf, if_neg fires]
    exact ⟨[], .refl tidy rfl rfl, (List.append_nil _).symm, (List.append_nil _).symm⟩

theorem finishedAll (tidy : s.ctx.Tidy) {events : Events}
    (present : ∀ event, events.has event = true → s.ctx.events.has event = true) :
    ∃ shots, Fires shots s (s.finishedAll events) := by
  obtain ⟨first, firesFirst⟩ := finishedIf tidy (present .read)
  have still : events.has .write = true →
      (s.finishedIf events .read).ctx.events.has .write = true := by
    intro fires
    rw [has_finishedIf]
    simpa using present .write fires
  obtain ⟨second, firesSecond⟩ := finishedIf firesFirst.effect.tidy still
  exact ⟨first ++ second, firesFirst.trans firesSecond⟩

end Fires

/-- What an entry scheduled. -/
def scheduling : Phase EventContext Outcome → Option (SchedulerId × Scheduled)
  | .closed (.fired target task) => some (target, task)
  | _ => none

/-- The mark an entry leaves for the context at `pointer`. -/
def Entry.mark (pointer : Nat) (entry : Entry) : Mark := ⟨⟨pointer, entry.1⟩, entry.2⟩

/-- The calls of a thread that has a scheduler. -/
def Call.OnScheduler : Call → Prop
  | .addEvent caller _ _ => caller.scheduler.isSome
  | _ => True

/-- The calls a thread is in are of a thread that has a scheduler. -/
def Progress.OnScheduler : Progress → Prop
  | .outside => True
  | .growing _ call | .located _ call => call.OnScheduler

/-- The call registers a context for an event. -/
def Call.Registers (event : Event) (context : EventContext) : Call → Prop
  | .addEvent caller other cb => event = other ∧ context = .registered caller cb
  | _ => False

/-- A section accounts for what it did: its marks are the entries of its effect,
it opens what its call registers, and every task it scheduled belongs to one of
the entries. -/
structure Accounted (pointer : Nat) (call : Call) (answer : Bool) (s after : Locked Unit) :
    Prop where
  account : ∃ entries, Effect entries s after ∧
    call.marks pointer answer after = entries.map (Entry.mark pointer) ∧
    (∀ event context, (event, .opened context) ∈ entries → call.Registers event context) ∧
    after.scheduled = entries.filterMap fun entry => scheduling entry.2

namespace Accounted

variable {pointer : Nat} {call : Call} {answer : Bool} {s after : Locked Unit}

/-- A section that did nothing. -/
theorem nothing (tidy : s.ctx.Tidy) (unscheduled : s.scheduled = []) (ctx : after.ctx = s.ctx)
    (pending : after.pendingEventCount = s.pendingEventCount)
    (scheduled : after.scheduled = s.scheduled) (marks : call.marks pointer answer after = []) :
    Accounted pointer call answer s after :=
  ⟨[], .refl tidy pending ctx, by rw [marks, List.map_nil], nofun,
    by rw [scheduled, unscheduled, List.filterMap_nil]⟩

/-- A section that fired events. -/
theorem fired {shots : List Shot} (fires : Fires shots s after) (untriggered : s.triggered = [])
    (unscheduled : s.scheduled = [])
    (marks : call.marks pointer answer after =
      (after.triggered.zip after.scheduled).map fun (event, target, task) =>
        ⟨⟨pointer, event⟩, .closed (.fired target task)⟩) :
    Accounted pointer call answer s after := by
  have triggered := fires.triggered
  have scheduled := fires.scheduled
  rw [untriggered, List.nil_append] at triggered
  rw [unscheduled, List.nil_append] at scheduled
  have shotsBack : (shots.map Prod.fst).zip (shots.map Prod.snd) = shots := by
    rw [List.zip_map', List.map_id'']
    exact fun _ => rfl
  refine ⟨shots.map Shot.entry, fires.effect, ?_, ?_, ?_⟩
  · rw [marks, triggered, scheduled, shotsBack, List.map_map]
    rfl
  · simp [Shot.entry]
  · rw [scheduled, List.filterMap_map]
    exact (congrFun List.filterMap_eq_map shots).symm

end Accounted

/-- Every section of a thread that has a scheduler accounts for what it did. -/
theorem Call.accounted {call : Call} (onScheduler : call.OnScheduler) {success answer : Bool}
    {s after : Locked Unit} (tidy : s.ctx.Tidy) (untriggered : s.triggered = [])
    (unscheduled : s.scheduled = []) (pointer : Nat)
    (ran : EStateM.run (call.run success) s = .ok answer after) :
    Accounted pointer call answer s after := by
  cases call with
  | addEvent caller event cb =>
      cases present : s.ctx.events.has event with
      | true =>
          rw [Call.run, EStateM.run_bind, addEvent_run_assertion present] at ran
          cases ran
      | false =>
          cases success with
          | false =>
              rw [Call.run, EStateM.run_bind, addEvent_run_refused present rfl] at ran
              cases ran
              exact .nothing tidy unscheduled rfl rfl rfl rfl
          | true =>
              by_cases running : cb = none → caller.state = .exec
              · rw [Call.run, EStateM.run_bind, addEvent_run tidy present running rfl] at ran
                cases ran
                refine ⟨[(event, .opened (.registered caller cb))], .added tidy present rfl rfl
                  (EventContext.armed_registered onScheduler cb), ?_, ?_, unscheduled⟩
                · simp [Call.marks, Locked.entered, Entry.mark]
                · simp [Call.Registers]
              · rw [Classical.not_imp] at running
                obtain ⟨rfl, resting⟩ := running
                obtain ⟨_, failed⟩ : ∃ state, EStateM.run
                    (IOManager.addEvent (fun kernel _ _ => (true, kernel)) caller event none) s =
                      .error .assertion state :=
                  addEvent_run_notExec tidy present resting rfl
                rw [Call.run, EStateM.run_bind, failed] at ran
                cases ran
  | delEvent event =>
      cases present : s.ctx.events.has event with
      | false =>
          rw [Call.run, delEvent_run_absent present] at ran
          cases ran
          exact .nothing tidy unscheduled rfl rfl rfl rfl
      | true =>
          rw [Call.run, delEvent_run present rfl] at ran
          cases success with
          | true =>
              cases ran
              exact ⟨[(event, .closed .deleted)], .removed tidy present rfl rfl trivial, rfl,
                by simp, unscheduled⟩
          | false =>
              cases ran
              exact .nothing tidy unscheduled rfl rfl rfl rfl
  | cancleEvent event =>
      cases present : s.ctx.events.has event with
      | false =>
          rw [Call.run, cancleEvent_run_absent present] at ran
          cases ran
          exact .nothing tidy unscheduled rfl rfl rfl (by simp [Call.marks, unscheduled])
      | true =>
          rw [Call.run, cancleEvent_run tidy present rfl] at ran
          cases success with
          | true =>
              cases ran
              obtain ⟨shots, fires⟩ := Fires.finished tidy present
              exact .fired fires untriggered unscheduled rfl
          | false =>
              cases ran
              exact .nothing tidy unscheduled rfl rfl rfl (by simp [Call.marks, unscheduled])
  | cancleAll =>
      by_cases absent : s.ctx.events = .none
      · rw [Call.run, cancleAll_run_absent absent] at ran
        cases ran
        exact .nothing tidy unscheduled rfl rfl rfl (by simp [Call.marks, unscheduled])
      · rw [Call.run, cancleAll_run tidy absent rfl] at ran
        cases success with
        | true =>
            cases ran
            obtain ⟨shots, fires⟩ := Fires.finishedAll tidy (fun _ present => present)
            exact .fired fires untriggered unscheduled rfl
        | false =>
            cases ran
            exact .nothing tidy unscheduled rfl rfl rfl (by simp [Call.marks, unscheduled])
  | dispatch reported =>
      cases something : s.ctx.events.disjoint (realEvents s.ctx.events reported) with
      | true =>
          rw [Call.run, EStateM.run_bind, dispatch_run_disjoint something] at ran
          cases ran
          exact .nothing tidy unscheduled rfl rfl rfl (by simp [Call.marks, unscheduled])
      | false =>
          cases success with
          | false =>
              rw [Call.run, EStateM.run_bind, dispatch_run_refused something rfl] at ran
              cases ran
              exact .nothing tidy unscheduled rfl rfl rfl (by simp [Call.marks, unscheduled])
          | true =>
              by_cases registered : ∀ event,
                  (realEvents s.ctx.events reported).has event = true →
                    s.ctx.events.has event = true
              · rw [Call.run, EStateM.run_bind, dispatch_run tidy something rfl registered] at ran
                cases ran
                obtain ⟨shots, fires⟩ := Fires.finishedAll tidy registered
                exact .fired fires untriggered unscheduled rfl
              · simp only [not_forall] at registered
                obtain ⟨event, fires, absent⟩ := registered
                obtain ⟨_, failed, _⟩ : ∃ state, EStateM.run
                    (IOManager.dispatch (fun kernel _ _ => (true, kernel)) reported) s =
                      .error .assertion state ∧ event ∈ state.triggered :=
                  dispatch_run_assertion tidy something rfl fires (Bool.eq_false_iff.mpr absent)
                rw [Call.run, EStateM.run_bind, failed] at ran
                cases ran

namespace Heap

theorem sum_count_set {objects : List FdContext} {pointer : Nat} {old new : FdContext}
    (found : objects[pointer]? = some old) :
    ((objects.set pointer new).map fun ctx => ctx.events.count).sum + old.events.count =
      (objects.map fun ctx => ctx.events.count).sum + new.events.count := by
  induction objects generalizing pointer with
  | nil => cases found
  | cons ctx rest inductionHypothesis =>
      cases pointer with
      | zero =>
          cases found
          simp only [List.set_cons_zero, List.map_cons, List.sum_cons]
          omega
      | succ pointer =>
          have later := inductionHypothesis found
          simp only [List.set_cons_succ, List.map_cons, List.sum_cons]
          omega

theorem total_set {heap : Heap} {pointer : Nat} {old : FdContext}
    (found : heap.objects[pointer]? = some old) (new : FdContext) :
    (heap.set pointer new).total + old.events.count = heap.total + new.events.count :=
  sum_count_set found

/-- The counter has room for all bits. -/
theorem total_lt (heap : Heap) : heap.total < 2 ^ 64 := by
  have bound : ∀ objects : List FdContext,
      (objects.map fun ctx => ctx.events.count).sum ≤ 2 * objects.length := by
    intro objects
    induction objects with
    | nil => exact Nat.le_refl _
    | cons ctx rest inductionHypothesis =>
        have bits : ctx.events.count ≤ 2 := by
          simp only [Events.count]
          cases ctx.events.read <;> cases ctx.events.write <;> decide
        simp only [List.map_cons, List.sum_cons, List.length_cons]
        omega
  exact Nat.lt_of_le_of_lt (bound heap.objects) heap.addressable

theorem allocate_some {heap grown : Heap} {count : Nat} (enough : heap.allocate count = some grown) :
    grown.objects = heap.objects ++ List.replicate count .new := by
  simp only [allocate] at enough
  split at enough
  · cases enough
    rfl
  · cases enough

/-- What is registered in a slot. -/
def registration (heap : Heap) (slot : Slot) : Option EventContext :=
  heap.objects[slot.pointer]?.bind fun ctx => ctx.registration slot.event

/-- New contexts have nothing registered. -/
theorem registration_allocate {heap grown : Heap} {count : Nat}
    (enough : heap.allocate count = some grown) (slot : Slot) :
    grown.registration slot = heap.registration slot := by
  simp only [registration, allocate_some enough, List.getElem?_append]
  split
  · rfl
  · rename_i beyond
    rw [List.getElem?_eq_none (Nat.not_lt.mp beyond), Option.bind_none]
    cases new : (List.replicate count FdContext.new)[slot.pointer - heap.objects.length]? with
    | none => rfl
    | some ctx =>
        rw [List.eq_of_mem_replicate (List.mem_of_getElem? new), Option.bind_some]
        exact FdContext.registration_of_not_has (Events.has_none _)

theorem registration_set {heap : Heap} {pointer : Nat} {old : FdContext}
    (found : heap.objects[pointer]? = some old) (new : FdContext) (slot : Slot) :
    (heap.set pointer new).registration slot =
      if slot.pointer = pointer then new.registration slot.event else heap.registration slot := by
  obtain ⟨inside, _⟩ := List.getElem?_eq_some_iff.mp found
  by_cases same : slot.pointer = pointer
  · rw [if_pos same, registration, same, set, List.getElem?_set_self inside, Option.bind_some]
  · rw [if_neg same, registration, set, List.getElem?_set_ne (Ne.symm same)]
    rfl

end Heap

/-- What happened in a slot. -/
def lifeOf (history : List Mark) (slot : Slot) : List (Phase EventContext Outcome) :=
  history.filterMap fun mark => if mark.slot = slot then some mark.phase else none

theorem lifeOf_append (first second : List Mark) (slot : Slot) :
    lifeOf (first ++ second) slot = lifeOf first slot ++ lifeOf second slot :=
  List.filterMap_append

/-- The marks of a section concern the slots of its context only. -/
theorem lifeOf_marks (pointer : Nat) (entries : List Entry) (slot : Slot) :
    lifeOf (entries.map (Entry.mark pointer)) slot =
      if slot.pointer = pointer then entriesOf slot.event entries else [] := by
  rw [lifeOf, entriesOf, List.filterMap_map]
  split
  · rename_i same
    congr 1
    funext entry
    simp [Entry.mark, Slot.ext_iff, same]
  · rename_i apart
    rw [List.filterMap_eq_nil_iff]
    intro entry _
    simp [Entry.mark, Slot.ext_iff, Ne.symm apart]

namespace State

variable {T : Type} [DecidableEq T]

/-- `addEvent` is called by a thread that has a scheduler. -/
def OnScheduler (_ : State T) : Action T → Prop
  | .lookup _ _ call => call.OnScheduler
  | _ => True

/-- The invariant of all descriptors and threads. -/
structure Balanced (s : State T) : Prop where
  tidy : ∀ ctx ∈ s.heap.objects, ctx.Tidy
  counted : s.pendingEventCount = UInt64.ofNat s.heap.total
  lives : ∀ slot, Life Outcome.Fits none (lifeOf s.history slot) (s.heap.registration slot)
  recorded : s.scheduled = s.history.filterMap fun mark => scheduling mark.phase
  onScheduler : ∀ t, (s.thread t).OnScheduler

/-- A step of a thread that looks something up. -/
theorem Balanced.setThread {s : State T} (balanced : s.Balanced) {t : T} {progress : Progress}
    (onScheduler : progress.OnScheduler) : (s.setThread t progress).Balanced where
  tidy := balanced.tidy
  counted := balanced.counted
  lives := balanced.lives
  recorded := balanced.recorded
  onScheduler u := by
    by_cases same : u = t
    · subst same
      simpa [State.setThread] using onScheduler
    · simpa [State.setThread, Function.update_of_ne same] using balanced.onScheduler u

/-- New contexts have nothing registered. -/
theorem Balanced.contextResize {s grown : State T} (balanced : s.Balanced) {size : Nat}
    (resized : s.contextResize size = some grown) : grown.Balanced := by
  simp only [State.contextResize, Option.map_eq_some_iff] at resized
  obtain ⟨heap, allocated, rfl⟩ := resized
  have objects := Heap.allocate_some allocated
  have total : heap.total = s.heap.total := by
    simp [Heap.total, objects, FdContext.new, Events.count, Events.none]
  refine ⟨fun ctx member => ?_, ?_, fun slot => ?_, balanced.recorded, balanced.onScheduler⟩
  · rw [objects, List.mem_append] at member
    rcases member with old | new
    · exact balanced.tidy ctx old
    · rw [List.eq_of_mem_replicate new]
      exact FdContext.tidy_new
  · show s.pendingEventCount = UInt64.ofNat heap.total
    rw [total]
    exact balanced.counted
  · rw [Heap.registration_allocate allocated]
    exact balanced.lives slot

/-- A section under the lock of the context at `pointer`. -/
theorem Balanced.locked {s : State T} (balanced : s.Balanced) {pointer : Nat} {ctx : FdContext}
    (found : s.heap.objects[pointer]? = some ctx) {call : Call} {answer : Bool}
    {after : Locked Unit} {t : T}
    (accounted : Accounted pointer call answer ⟨ctx, s.pendingEventCount, (), [], []⟩ after) :
    State.Balanced
      { s with
        heap := s.heap.set pointer after.ctx
        pendingEventCount := after.pendingEventCount
        scheduled := s.scheduled ++ after.scheduled
        history := s.history ++ call.marks pointer answer after
        thread := Function.update s.thread t .outside } := by
  obtain ⟨entries, effect, marks, _, scheduled⟩ := accounted.account
  refine ⟨fun other member => ?_, ?_, fun slot => ?_, ?_, fun u => ?_⟩
  · rcases List.mem_or_eq_of_mem_set member with old | rfl
    · exact balanced.tidy other old
    · exact effect.tidy
  · have total := Heap.total_set found after.ctx
    have pending := effect.pending
    have counted := balanced.counted
    simp only at pending
    have sum := congrArg UInt64.ofNat total
    rw [UInt64.ofNat_add, UInt64.ofNat_add] at sum
    show after.pendingEventCount = UInt64.ofNat (s.heap.set pointer after.ctx).total
    grind
  · rw [lifeOf_append, marks, lifeOf_marks, Heap.registration_set found]
    have life := balanced.lives slot
    split
    · rename_i here
      have before : s.heap.registration slot = ctx.registration slot.event := by
        rw [Heap.registration, here, found, Option.bind_some]
      rw [before] at life
      exact life.trans (effect.lives slot.event)
    · rw [List.append_nil]
      exact life
  · show s.scheduled ++ after.scheduled = _
    rw [balanced.recorded, scheduled, List.filterMap_append, marks, List.filterMap_map]
    rfl
  · by_cases same : u = t
    · subst same
      simp [Progress.OnScheduler]
    · simpa [Function.update_of_ne same] using balanced.onScheduler u

/-- Every step keeps the books balanced. -/
theorem Balanced.step {s next : State T} (balanced : s.Balanced) {action : Action T}
    (onScheduler : s.OnScheduler action) (taken : s.step action = some next) : next.Balanced := by
  cases action with
  | lookup t fd call =>
      simp only [State.step] at taken
      split at taken
      · split at taken
        · cases taken
          exact balanced.setThread onScheduler
        · split at taken
          · cases taken
            exact balanced.setThread onScheduler
          · cases taken
            exact balanced
      · cases taken
  | grow t =>
      simp only [State.step] at taken
      split at taken
      · rename_i fd call growing
        split at taken
        · cases taken
        · rename_i grown resized
          split at taken
          · cases taken
            have calls := balanced.onScheduler t
            rw [growing] at calls
            exact (balanced.contextResize resized).setThread calls
          · cases taken
      · cases taken
  | report t pointer reported =>
      simp only [State.step] at taken
      split at taken
      · cases taken
        exact balanced.setThread trivial
      · cases taken
  | locked t success =>
      simp only [State.step] at taken
      split at taken
      · rename_i pointer call located
        split at taken
        · cases taken
        · rename_i ctx found
          split at taken
          · cases taken
          · rename_i answer after ran
            cases taken
            have calls := balanced.onScheduler t
            rw [located] at calls
            refine balanced.locked found (Call.accounted calls ?_ rfl rfl pointer ran)
            exact balanced.tidy ctx (List.mem_of_getElem? found)
      · cases taken

theorem balanced_initial : (initial : State T).Balanced where
  tidy ctx member := by
    rw [List.eq_of_mem_replicate member]
    exact FdContext.tidy_new
  counted := rfl
  lives slot := by
    have nothing : (initial : State T).heap.registration slot = none := by
      simp only [Heap.registration, initial]
      cases found : (List.replicate 32 FdContext.new)[slot.pointer]? with
      | none => rfl
      | some ctx =>
          rw [List.eq_of_mem_replicate (List.mem_of_getElem? found), Option.bind_some]
          exact FdContext.registration_of_not_has (Events.has_none _)
    rw [nothing]
    exact .done
  recorded := rfl
  onScheduler _ := trivial

/-- What the bookkeeping is for. The counter is the number of bits set; a bit is
set exactly when its context is armed, and else the context is empty; what
happens in a slot are registrations and their ends in turn, up to what is
registered now, so that a registration ends at most once; and what was scheduled
are the tasks of the registrations that were fired. -/
structure Faithful (s : State T) : Prop where
  counted : s.pendingEventCount.toNat = s.heap.total
  tidy : ∀ ctx ∈ s.heap.objects, ctx.Tidy
  lives : ∀ slot, Life Outcome.Fits none (lifeOf s.history slot) (s.heap.registration slot)
  endedOnce : ∀ slot before context after,
    lifeOf s.history slot = before ++ .opened context :: after →
      after = [] ∨ ∃ outcome rest, after = .closed outcome :: rest ∧ outcome.Fits context ∧
        (rest = [] ∨ ∃ next more, rest = .opened next :: more)
  recorded : s.scheduled = s.history.filterMap fun mark => scheduling mark.phase

theorem Balanced.faithful {s : State T} (balanced : s.Balanced) : s.Faithful where
  counted := by
    rw [balanced.counted, UInt64.toNat_ofNat', Nat.mod_eq_of_lt s.heap.total_lt]
  tidy := balanced.tidy
  lives := balanced.lives
  endedOnce slot before context after split := by
    have life := balanced.lives slot
    rw [split] at life
    exact life.ended_once
  recorded := balanced.recorded

/-- The books are faithful in every state of every run in which `addEvent` is
called by threads that have a scheduler. A failed assertion ends the run. -/
theorem bookkeeping_faithful (actions : List (Action T))
    (onScheduler : Guarded step OnScheduler initial actions) :
    Along step Faithful initial actions :=
  (along_of_guarded (fun balanced now taken => Balanced.step balanced now taken)
    balanced_initial onScheduler).mono fun _ => Balanced.faithful

/-- A descriptor beyond the table is registered for reading by a fiber and for
writing with a callback, fired for reading and cancelled for writing, with a
failure of `epoll_ctl` in between. -/
theorem bookkeeping_faithful_twoThreads :
    Along (step (T := Bool)) Faithful initial
      [.lookup true 40 (.addEvent ⟨some 7, 1, .exec⟩ .read none), .grow true,
        .lookup false 40 (.addEvent ⟨some 7, 2, .exec⟩ .write (some 9)), .locked true true,
        .locked false false, .lookup false 40 (.addEvent ⟨some 7, 2, .exec⟩ .write (some 9)),
        .locked false true, .report true 40 ⟨true, false, false, false, false⟩,
        .lookup false 40 (.cancleEvent .write), .locked true true, .locked false true] := by
  refine bookkeeping_faithful _ ?_
  simp [Guarded, OnScheduler, Call.OnScheduler]

/-- A thread without a scheduler registers an event: the bit is set, but its
context holds no scheduler. -/
theorem bookkeeping_withoutScheduler :
    ¬Along (step (T := Unit)) Faithful initial
      [.lookup () 0 (.addEvent ⟨none, 0, .exec⟩ .read none), .locked () true] := by
  intro along
  have faithful := along.exec rfl
  have armed := (faithful.tidy _ List.mem_cons_self).armed (show Events.has _ .read = true from rfl)
  exact absurd armed.1 (by decide)

end State

end Sylar.IOManager
