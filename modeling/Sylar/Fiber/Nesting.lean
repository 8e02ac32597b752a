import Sylar.Fiber.Coroutines

/-!
# A fiber that swaps another one in

`swapIn` saves the code that runs in the context of the main fiber of the scheduler,
whoever runs. When it is not the scheduler, that overwrites the only place where the
loop of `run` was kept.
-/

namespace Sylar.Fiber

open Library

variable {F K : Type} [DecidableEq F]

/-- No fiber holds the code of the scheduler, and its own fiber cannot be reset. -/
structure Overwritten (threadFiber mainFiber : F) (t : Thread F K) : Prop where
  contexts : ∀ f fiber, t.fibers f = some fiber → owner threadFiber fiber.ctx ≠ some mainFiber
  main : ∃ fiber, t.fibers mainFiber = some fiber ∧
    (fiber.state = .exec ∨ fiber.state = .hold ∨ fiber.state = .ready) ∧
      ∀ useCaller, fiber.ctx ≠ .entry useCaller

/-- The code of the scheduler is nowhere. -/
structure Lost (threadFiber mainFiber : F) (t : Thread F K) : Prop
    extends Overwritten threadFiber mainFiber t where
  running : owner threadFiber t.code ≠ some mainFiber
  enters : ∀ useCaller, t.code = .entry useCaller → t.tFiber ≠ mainFiber

variable {threadFiber mainFiber : F} {t next : Thread F K} {f : F} {fiber : Fiber F K}
  {here : Ctx F K}

omit [DecidableEq F] in
theorem code_ne_entry {frame : Frame F} {k : K} {useCaller : Bool} :
    (.code frame k : Ctx F K) ≠ .entry useCaller := by
  rintro ⟨⟩

namespace Overwritten

/-- A fiber is changed that is not the scheduler's, or it is and still cannot be reset. -/
theorem setFiber (overwritten : Overwritten threadFiber mainFiber t)
    (other : owner threadFiber fiber.ctx ≠ some mainFiber)
    (main : f = mainFiber → (fiber.state = .exec ∨ fiber.state = .hold ∨ fiber.state = .ready) ∧
      ∀ useCaller, fiber.ctx ≠ .entry useCaller) :
    Overwritten threadFiber mainFiber (t.setFiber f fiber) where
  contexts := Thread.forall_setFiber other fun g _ old found => overwritten.contexts g old found
  main := by
    by_cases same : mainFiber = f
    · subst same
      exact ⟨fiber, Thread.setFiber_self t mainFiber fiber, main rfl⟩
    · obtain ⟨old, found, kept⟩ := overwritten.main
      exact ⟨old, (Thread.setFiber_of_ne t fiber same).trans found, kept⟩

omit [DecidableEq F] in
theorem setThis (overwritten : Overwritten threadFiber mainFiber t) (f : F) :
    Overwritten threadFiber mainFiber (t.setThis f) :=
  ⟨overwritten.contexts, overwritten.main⟩

/-- A change that leaves the context alone. -/
theorem setState (overwritten : Overwritten threadFiber mainFiber t)
    (found : t.fibers f = some fiber) {state : FiberState}
    (main : f = mainFiber → state = .exec ∨ state = .hold ∨ state = .ready) :
    Overwritten threadFiber mainFiber (t.setFiber f { fiber with state := state }) := by
  refine overwritten.setFiber (overwritten.contexts f fiber found) fun same => ⟨main same, ?_⟩
  obtain ⟨old, found', -, started⟩ := overwritten.main
  subst same
  cases found.symm.trans found'
  exact started

/-- A fiber that is not the scheduler's starts from the beginning. -/
theorem renew (overwritten : Overwritten threadFiber mainFiber t) (other : f ≠ mainFiber)
    {useCaller : Bool} (entry : fiber.ctx = .entry useCaller) :
    Overwritten threadFiber mainFiber (t.setFiber f fiber) := by
  refine overwritten.setFiber ?_ fun same => absurd same other
  rw [entry]
  exact (Option.some_ne_none mainFiber).symm

/-- A switch to the fiber that `t_fiber` names saves no code of the scheduler and loads none. -/
theorem swapcontext {save load : F} (overwritten : Overwritten threadFiber mainFiber t)
    (other : owner threadFiber here ≠ some mainFiber)
    (started : save = mainFiber → ∀ useCaller, here ≠ .entry useCaller)
    (self : t.tFiber = load) (taken : t.swapcontext save load here = some next) :
    Lost threadFiber mainFiber next := by
  simp only [Thread.swapcontext, bind, Option.bind_eq_some_iff, Option.some.injEq] at taken
  obtain ⟨saved, found, loaded, found', rfl⟩ := taken
  have kept : Overwritten threadFiber mainFiber (t.setFiber save { saved with ctx := here }) := by
    refine overwritten.setFiber other fun same => ⟨?_, started same⟩
    obtain ⟨old, found', state, -⟩ := overwritten.main
    subst same
    cases found.symm.trans found'
    exact state
  refine ⟨⟨kept.contexts, kept.main⟩, kept.contexts load loaded found', fun useCaller code main => ?_⟩
  obtain ⟨old, there, -, unentered⟩ := kept.main
  have same : load = mainFiber := self.symm.trans main
  rw [same, there] at found'
  cases found'
  exact unentered useCaller code

/-- Code that is saved is no entry. -/
theorem swapcontext_code {save load : F} (overwritten : Overwritten threadFiber mainFiber t)
    {frame : Frame F} {after : K} (other : owner threadFiber (.code frame after) ≠ some mainFiber)
    (self : t.tFiber = load) (taken : t.swapcontext save load (.code frame after) = some next) :
    Lost threadFiber mainFiber next :=
  overwritten.swapcontext other (fun _ _ => code_ne_entry) self taken

end Overwritten

namespace Lost

variable {useCaller : Bool} {op : Op F K}

omit [DecidableEq F] in
theorem goTo (overwritten : Overwritten threadFiber mainFiber t) {frame : Frame F} {k : K}
    (running : owner threadFiber (.code frame k) ≠ some mainFiber) :
    Lost threadFiber mainFiber (t.goTo (.code frame k)) :=
  ⟨⟨overwritten.contexts, overwritten.main⟩, running, fun _ entered => absurd entered code_ne_entry⟩

theorem leave {cur : F} {ended : Fiber F K → Fiber F K}
    (overwritten : Overwritten threadFiber mainFiber t) (other : cur ≠ mainFiber)
    (taken : t.leave threadFiber mainFiber useCaller cur ended = some next)
    (same : ∀ fiber, (ended fiber).ctx = fiber.ctx) : Lost threadFiber mainFiber next := by
  simp only [Thread.leave, bind, Option.bind_eq_some_iff] at taken
  obtain ⟨fiber, found, taken⟩ := taken
  have kept : Overwritten threadFiber mainFiber (t.setFiber cur (ended fiber)) := by
    refine overwritten.setFiber ?_ fun main => absurd main other
    rw [same]
    exact overwritten.contexts cur fiber found
  have nobody : owner threadFiber (.neverReach : Ctx F K) ≠ some mainFiber :=
    (Option.some_ne_none mainFiber).symm
  split at taken
  · exact (kept.setThis threadFiber).swapcontext nobody (fun main => absurd main other) rfl taken
  · exact (kept.setThis mainFiber).swapcontext nobody (fun main => absurd main other) rfl taken

theorem yiledTo {state : FiberState} {frame : Frame F} {after : K}
    (overwritten : Overwritten threadFiber mainFiber t)
    (other : owner threadFiber (.code frame after) ≠ some mainFiber)
    (waits : state = .hold ∨ state = .ready)
    (taken : t.yiledTo mainFiber state (.code frame after) = some next) :
    Lost threadFiber mainFiber next := by
  simp only [Thread.yiledTo, bind, Option.bind_eq_some_iff, Option.ite_none_right_eq_some] at taken
  obtain ⟨cur, found, -, taken⟩ := taken
  have marked := overwritten.setState found fun _ => .inr waits
  exact (marked.setThis mainFiber).swapcontext_code other rfl taken

omit [DecidableEq F] in
theorem ended_ne {cur : F} {k : K}
    (other : owner threadFiber (.code (.callback useCaller cur) k) ≠ some mainFiber) :
    cur ≠ mainFiber := fun same => other (congrArg some same)

/-- Nothing brings the code of the scheduler back. -/
theorem step (lost : Lost threadFiber mainFiber t)
    (taken : t.step threadFiber mainFiber op = some next) : Lost threadFiber mainFiber next := by
  obtain ⟨overwritten, running, enters⟩ := lost
  rcases code : t.code with useCaller | ⟨frame, k⟩ | -
  · cases op with
    | enter =>
        have other := enters useCaller code
        simp only [Thread.step, code, bind, Option.bind_eq_some_iff] at taken
        obtain ⟨cur, found, taken⟩ := taken
        split at taken
        · cases taken
          exact goTo overwritten fun main => other (Option.some.inj main)
        · exact leave overwritten other taken fun _ => rfl
    | _ =>
        simp only [Thread.step, code] at taken
        cases taken
  · have here : ∀ after : K, owner threadFiber (.code frame after) ≠ some mainFiber := by
      rw [code] at running
      intro after
      cases frame <;> exact running
    cases op with
    | enter =>
        simp only [Thread.step, code] at taken
        cases taken
    | create f cb useCaller after =>
        simp only [Thread.step, code, Option.map_eq_some_iff, Thread.create,
          Option.ite_none_left_eq_some, Option.some.injEq] at taken
        obtain ⟨_, ⟨new, rfl⟩, rfl⟩ := taken
        have other : f ≠ mainFiber := by
          rintro rfl
          obtain ⟨old, found, -⟩ := overwritten.main
          rw [found] at new
          exact absurd rfl new
        exact goTo (overwritten.renew other rfl) (here after)
    | reset f cb after =>
        simp only [Thread.step, code, Option.map_eq_some_iff, Thread.reset, bind,
          Option.bind_eq_some_iff, Option.ite_none_right_eq_some, Option.some.injEq] at taken
        obtain ⟨_, ⟨fiber, found, ⟨-, resettable⟩, rfl⟩, rfl⟩ := taken
        have other : f ≠ mainFiber := by
          rintro rfl
          obtain ⟨old, found', state, -⟩ := overwritten.main
          cases found.symm.trans found'
          rcases state with state | state | state
          all_goals
            rw [state] at resettable
            exact absurd resettable (by decide)
        exact goTo (overwritten.renew other rfl) (here after)
    | swapIn f after =>
        simp only [Thread.step, code, Thread.swapIn, bind, Option.bind_eq_some_iff,
          Option.ite_none_left_eq_some] at taken
        obtain ⟨fiber, found, -, taken⟩ := taken
        have marked := (overwritten.setThis f).setState found fun _ => .inl rfl
        exact marked.swapcontext_code (here after) rfl taken
    | call f after =>
        simp only [Thread.step, code, Thread.call, bind, Option.bind_eq_some_iff] at taken
        obtain ⟨fiber, found, taken⟩ := taken
        have marked := (overwritten.setThis f).setState found fun _ => .inl rfl
        exact marked.swapcontext_code (here after) rfl taken
    | yiledToReady after =>
        simp only [Thread.step, code] at taken
        exact yiledTo overwritten (here after) (.inr rfl) taken
    | yiledToHold after =>
        simp only [Thread.step, code] at taken
        exact yiledTo overwritten (here after) (.inl rfl) taken
    | swapOut after =>
        simp only [Thread.step, code] at taken
        exact (overwritten.setThis mainFiber).swapcontext_code (here after) rfl taken
    | hold f after =>
        simp only [Thread.step, code, Option.map_eq_some_iff, Thread.hold, bind,
          Option.bind_eq_some_iff] at taken
        obtain ⟨held, ⟨fiber, found, taken⟩, rfl⟩ := taken
        split at taken
        · cases taken
          exact goTo overwritten (here after)
        · cases taken
          exact goTo (overwritten.setState found fun _ => .inr (.inl rfl)) (here after)
    | proceed after =>
        simp only [Thread.step, code, Option.some.injEq] at taken
        subst taken
        exact goTo overwritten (here after)
    | finish =>
        simp only [Thread.step, code] at taken
        split at taken
        · cases taken
        · exact leave overwritten (ended_ne (here k)) taken fun _ => rfl
    | throw =>
        simp only [Thread.step, code] at taken
        split at taken
        · cases taken
        · exact leave overwritten (ended_ne (here k)) taken fun _ => rfl
  · simp only [Thread.step, code] at taken
    cases taken

end Lost

/-- A fiber that the scheduler swapped in swaps another one in. -/
theorem Agrees.lost {s : Coroutines F K} {f : F} {after : K}
    (agrees : Agrees threadFiber mainFiber t s) (other : t.tFiber ≠ mainFiber)
    (inside : t.tFiber ≠ threadFiber)
    (taken : t.step threadFiber mainFiber (.swapIn f after) = some next) :
    (∃ fiber k, t.fibers mainFiber = some fiber ∧
        fiber.ctx = .code (frame threadFiber mainFiber mainFiber) k) ∧
      Lost threadFiber mainFiber next := by
  obtain ⟨active, suspended⟩ := s
  obtain ⟨k, waiting, self, rfl, -, code | ⟨entry, -⟩⟩ := agrees.head
  case inr =>
    simp only [Thread.step, entry] at taken
    cases taken
  obtain ⟨rest, split, chain⟩ := agrees.chain.of_task other inside
  obtain ⟨⟨g, there⟩, below, rfl, same, -⟩ := List.map_eq_cons_iff.mp split
  subst same
  obtain ⟨parent, parent_⟩ := Option.ne_none_iff_exists'.mp (agrees.exist g (.inr (.inr rfl)))
  have waits := agrees.stands g parent parent_
  have executing : parent.state = .exec :=
    waits.executing (List.mem_cons_of_mem _ List.mem_cons_self)
  refine ⟨⟨parent, there, parent_, waits.waiting there List.mem_cons_self⟩, ?_⟩
  simp only [Thread.step, code, Thread.swapIn, bind, Option.bind_eq_some_iff,
    Option.ite_none_left_eq_some] at taken
  obtain ⟨fiber, found, state, taken⟩ := taken
  have apart : f ≠ g := by
    rintro rfl
    cases found.symm.trans parent_
    exact state executing
  rw [Thread.swapcontext_resume apart parent_] at taken
  cases taken
  have foreign : ∀ h, h ≠ g → ∀ old, t.fibers h = some old → owner threadFiber old.ctx ≠ some g :=
    fun h differs old found main => differs ((agrees.stands h old found).own g main).symm
  have here : owner threadFiber (.code (frame threadFiber g t.tFiber) after) ≠ some g := by
    rw [owner_code]
    exact fun main => other (Option.some.inj main)
  refine ⟨⟨?_, ?_⟩, foreign f apart fiber found, fun _ _ => apart⟩
  · refine Thread.forall_setFiber here fun h differs => ?_
    have marked : ∀ h old, ((t.setThis f).setFiber f { fiber with state := .exec }).fibers h =
        some old → h ≠ g → owner threadFiber old.ctx ≠ some g :=
      Thread.forall_setFiber (fun _ => foreign f apart fiber found)
        fun h _ old found differs => foreign h differs old found
    exact fun old found => marked h old found differs
  · exact ⟨_, Thread.setFiber_self .., .inl executing, fun _ => code_ne_entry⟩

namespace Thread

/-- A fiber that swaps another one in loses the scheduler. In a disciplined run the loop of `run`
waits in the context of the main fiber while a fiber runs; when that fiber swaps another one in,
the loop is in no context, and whatever the code does after that, it never runs again. -/
theorem nested_swapIn_lost {here run after : K} {ops more : List (Op F K)} {f : F}
    {final : Thread F K}
    (disciplined : Guarded (step threadFiber mainFiber) (Disciplined threadFiber mainFiber)
      (initial threadFiber mainFiber here run) ops)
    (ran : exec (step threadFiber mainFiber) (initial threadFiber mainFiber here run) ops = some t)
    (other : t.tFiber ≠ mainFiber) (inside : t.tFiber ≠ threadFiber)
    (nested : t.step threadFiber mainFiber (.swapIn f after) = some next)
    (continued : exec (step threadFiber mainFiber) next more = some final) :
    (∃ fiber k, t.fibers mainFiber = some fiber ∧
        fiber.ctx = .code (frame threadFiber mainFiber mainFiber) k) ∧
      owner threadFiber final.code ≠ some mainFiber ∧
      ∀ g fiber, final.fibers g = some fiber → owner threadFiber fiber.ctx ≠ some mainFiber := by
  obtain ⟨s, -, agrees⟩ := refines_coroutines disciplined ran
  obtain ⟨kept, lost⟩ := agrees.lost other inside nested
  have still : Lost threadFiber mainFiber final :=
    (along_of_preserved Lost.step lost more).exec continued
  exact ⟨kept, still.running, still.contexts⟩

section Runs

/-- The scheduler of a thread that only runs it swaps in a fiber that creates another one. -/
def creates : List (Op (Fin 3) Nat) :=
  [.create 1 10 false 1, .swapIn 1 2, .enter, .create 2 20 false 11]

/-- The inner fiber ends, and the outer one tries to yield. -/
def yields : List (Op (Fin 3) Nat) := [.enter, .finish, .yiledToHold 13, .proceed 14]

theorem nested_swapIn_lost_yields : ∃ t next final,
    exec (step 0 0) (initial 0 0 0 0) creates = some t ∧ t.step 0 0 (.swapIn 2 12) = some next ∧
      exec (step 0 0) next yields = some final ∧
      (∃ fiber k, t.fibers 0 = some fiber ∧ fiber.ctx = .code (frame 0 0 0) k) ∧
      owner 0 final.code ≠ some 0 ∧
      ∀ g fiber, final.fibers g = some fiber → owner 0 fiber.ctx ≠ some 0 := by
  have runs : ((exec (step 0 0) (initial 0 0 0 0) creates).any fun t => t.tFiber ≠ 0 ∧
      ((t.step 0 0 (.swapIn 2 12)).any fun next => (exec (step 0 0) next yields).isSome)) = true := by
    decide
  obtain ⟨t, ran, holds⟩ := (Option.any_eq_true ..).mp runs
  obtain ⟨other, holds⟩ := of_decide_eq_true holds
  obtain ⟨next, nested, holds⟩ := (Option.any_eq_true ..).mp holds
  obtain ⟨final, continued⟩ := Option.isSome_iff_exists.mp holds
  exact ⟨t, next, final, ran, nested, continued,
    nested_swapIn_lost (by decide) ran other other nested continued⟩

end Runs

end Thread

end Sylar.Fiber
