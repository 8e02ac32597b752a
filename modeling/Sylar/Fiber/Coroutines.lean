import Sylar.Fiber.Model
import Sylar.Library.Coroutine
import Mathlib.Tactic.SplitIfs

/-!
# Fibers are coroutines

`swapIn` and `swapOut` always save in and load from the main fiber of the scheduler, and
`call` and `back` those of the thread. When only the scheduler swaps fibers in, only
the thread calls the scheduler, and only fibers that were swapped in yield, these
two variables are all the stack that is needed.
-/

namespace Sylar.Fiber

open Library

variable {F K : Type} [DecidableEq F]

/-- What an operation asks of the coroutines. -/
def Op.request : Op F K → Option (Coroutines.Request F K)
  | .enter => none
  | .create f cb _ next | .reset f cb next => some (.create f cb next)
  | .swapIn f next | .call f next => some (.resume f next)
  | .yiledToReady next | .yiledToHold next | .swapOut next => some (.yield next)
  | .hold _ next | .proceed next => some (.proceed next)
  | .finish | .throw => some .finish

section

variable (threadFiber mainFiber : F)

/-- The code of a fiber. -/
def frame (f : F) : Frame F :=
  if f = threadFiber then .thread else .callback (f = mainFiber) f

/-- A context goes on with the code of the fiber at `k`, or enters it there. -/
def Continues (f : F) (k : K) (cb : Option K) (ctx : Ctx F K) : Prop :=
  ctx = .code (frame threadFiber mainFiber f) k ∨
    ctx = .entry (f = mainFiber) ∧ f ≠ threadFiber ∧ cb = some k

/-- Who can wait for whom: a fiber for none, the scheduler for a fiber, the thread for the
scheduler. -/
inductive Chain : List F → Prop where
  | thread : Chain [threadFiber]
  | called (own : mainFiber ≠ threadFiber) : Chain [mainFiber, threadFiber]
  | swappedIn {f : F} {waiting : List F} (other : f ≠ mainFiber) (inside : f ≠ threadFiber)
      (chain : Chain (mainFiber :: waiting)) : Chain (f :: mainFiber :: waiting)

/-- How the scheduler uses the operations. -/
def Disciplined (t : Thread F K) : Op F K → Prop
  | .create _ _ useCaller _ => useCaller = false
  | .reset f _ _ => f ≠ mainFiber
  | .swapIn f _ => t.tFiber = mainFiber ∧
      ∀ fiber ∈ t.fibers f, fiber.state ≠ .term ∧ fiber.state ≠ .except
  | .call f _ => t.tFiber = threadFiber ∧ f = mainFiber ∧ mainFiber ≠ threadFiber ∧
      ∀ fiber ∈ t.fibers f, fiber.state ≠ .term ∧ fiber.state ≠ .except
  | .yiledToReady _ | .yiledToHold _ | .swapOut _ => t.tFiber ≠ mainFiber ∧ t.tFiber ≠ threadFiber
  | .hold f _ => f ≠ t.tFiber ∧ f ≠ mainFiber ∧ f ≠ threadFiber
  | _ => True

/-- The fiber whose code a context is in. -/
def owner : Ctx F K → Option F
  | .code .thread _ => some threadFiber
  | .code (.callback _ cur) _ => some cur
  | _ => none

/-- A fiber object is what its coroutine needs it to be. -/
structure Stands (s : Coroutines F K) (f : F) (fiber : Fiber F K) : Prop where
  executing : f ∈ s.active.map Prod.fst → fiber.state = .exec
  waiting : ∀ k, (f, k) ∈ s.active.tail → fiber.ctx = .code (frame threadFiber mainFiber f) k
  suspended : ∀ k, s.suspended f = some k →
    Continues threadFiber mainFiber f k fiber.cb fiber.ctx
  gone : f ∉ s.active.map Prod.fst → s.suspended f = none →
    fiber.state = .term ∨ fiber.state = .except
  own : ∀ g ∈ owner threadFiber fiber.ctx, g = f

instance (t : Thread F K) (op : Op F K) : Decidable (Disciplined threadFiber mainFiber t op) := by
  unfold Disciplined
  split <;> infer_instance

/-- A thread does what the coroutines do: the code of the running one runs, `GetThis` is its
fiber, and the contexts of the others are where they go on. -/
structure Agrees (t : Thread F K) (s : Coroutines F K) : Prop where
  chain : Chain threadFiber mainFiber (s.active.map Prod.fst)
  separate : s.Separate
  exist : ∀ f, f ∈ s.active.map Prod.fst ∨ s.suspended f ≠ none ∨ f = mainFiber → t.fibers f ≠ none
  stands : ∀ f fiber, t.fibers f = some fiber → Stands threadFiber mainFiber s f fiber
  running : ∀ f k, s.active.head? = some (f, k) → t.tFiber = f ∧
    ∀ fiber, t.fibers f = some fiber → Continues threadFiber mainFiber f k fiber.cb t.code

end

variable {threadFiber mainFiber : F} {t next : Thread F K}

namespace Chain

variable {f : F} {waiting : List F}

omit [DecidableEq F] in
theorem ne_nil (chain : Chain threadFiber mainFiber waiting) : waiting ≠ [] := by
  cases chain <;> exact List.cons_ne_nil _ _

omit [DecidableEq F] in
theorem thread_mem (chain : Chain threadFiber mainFiber waiting) : threadFiber ∈ waiting := by
  induction chain with
  | thread => exact List.mem_singleton_self _
  | called => exact List.mem_cons_of_mem _ (List.mem_singleton_self _)
  | swappedIn _ _ _ inductionHypothesis => exact List.mem_cons_of_mem _ inductionHypothesis

omit [DecidableEq F] in
/-- The fibers that run or wait are the one that runs, the scheduler and the thread. -/
theorem mem_cases {g : F} (chain : Chain threadFiber mainFiber (f :: waiting))
    (member : g ∈ f :: waiting) : g = f ∨ g = mainFiber ∨ g = threadFiber := by
  cases chain with
  | thread => exact .inl (List.mem_singleton.mp member)
  | called =>
      rcases List.mem_cons.mp member with rfl | member
      · exact .inl rfl
      · exact .inr (.inr (List.mem_singleton.mp member))
  | swappedIn _ _ chain =>
      rcases List.mem_cons.mp member with rfl | member
      · exact .inl rfl
      · cases chain with
        | thread => exact .inr (.inr (List.mem_singleton.mp member))
        | called =>
            rcases List.mem_cons.mp member with rfl | member
            · exact .inr (.inl rfl)
            · exact .inr (.inr (List.mem_singleton.mp member))
        | swappedIn other => exact absurd rfl other

omit [DecidableEq F] in
/-- A fiber that is neither the thread's nor the scheduler's runs for the scheduler. -/
theorem of_task (chain : Chain threadFiber mainFiber (f :: waiting)) (other : f ≠ mainFiber)
    (inside : f ≠ threadFiber) : ∃ rest, waiting = mainFiber :: rest ∧
      Chain threadFiber mainFiber (mainFiber :: rest) := by
  cases chain with
  | thread => exact absurd rfl inside
  | called => exact absurd rfl other
  | swappedIn _ _ chain => exact ⟨_, rfl, chain⟩

omit [DecidableEq F] in
/-- The scheduler, when it has a fiber of its own, runs for the thread. -/
theorem of_main (chain : Chain threadFiber mainFiber (mainFiber :: waiting))
    (own : mainFiber ≠ threadFiber) : waiting = [threadFiber] := by
  cases chain with
  | thread => exact absurd rfl own
  | called => rfl
  | swappedIn other => exact absurd rfl other

omit [DecidableEq F] in
theorem of_thread (chain : Chain threadFiber mainFiber (threadFiber :: waiting)) :
    waiting = [] := by
  cases chain with
  | thread => rfl
  | called own => exact absurd rfl own
  | swappedIn _ inside => exact absurd rfl inside

end Chain

namespace Thread

variable {f g : F} {fiber : Fiber F K}

theorem setFiber_self (t : Thread F K) (f : F) (fiber : Fiber F K) :
    (t.setFiber f fiber).fibers f = some fiber := Function.update_self ..

theorem setFiber_of_ne (t : Thread F K) (fiber : Fiber F K) (other : g ≠ f) :
    (t.setFiber f fiber).fibers g = t.fibers g := Function.update_of_ne other ..

/-- What holds of the changed fiber and of all others holds of all fibers. -/
theorem forall_setFiber {property : F → Fiber F K → Prop} (own : property f fiber)
    (others : ∀ g, g ≠ f → ∀ old, t.fibers g = some old → property g old) :
    ∀ g old, (t.setFiber f fiber).fibers g = some old → property g old := by
  intro g old found
  by_cases same : g = f
  · subst same
    rw [setFiber_self] at found
    exact Option.some.inj found ▸ own
  · rw [setFiber_of_ne t fiber same] at found
    exact others g same old found

theorem setFiber_ne_none (t : Thread F K) (fiber : Fiber F K) (exists_ : g ≠ f → t.fibers g ≠ none) :
    (t.setFiber f fiber).fibers g ≠ none := by
  by_cases same : g = f
  · subst same
    rw [setFiber_self]
    exact Option.some_ne_none _
  · rw [setFiber_of_ne t fiber same]
    exact exists_ same

theorem setFiber_eq_self (found : t.fibers f = some fiber) : t.setFiber f fiber = t := by
  rw [setFiber, ← found, Function.update_eq_self]

theorem setFiber_setFiber (t : Thread F K) (f : F) (first second : Fiber F K) :
    (t.setFiber f first).setFiber f second = t.setFiber f second := by
  rw [setFiber, setFiber, Function.update_idem, setFiber]

theorem swapcontext_eq {save load : F} {here : Ctx F K} {saved loaded : Fiber F K}
    (other : load ≠ save) (found : t.fibers save = some saved) (there : t.fibers load = some loaded) :
    t.swapcontext save load here =
      some ((t.setFiber save { saved with ctx := here }).goTo loaded.ctx) := by
  simp only [swapcontext, found, bind, Option.bind, setFiber_of_ne t _ other, there]

/-- A fiber that was changed gives control to the one that waits for it. -/
theorem swapcontext_release {here : Ctx F K} {parent : Fiber F K} (other : g ≠ f)
    (there : t.fibers g = some parent) :
    ((t.setFiber f fiber).setThis g).swapcontext f g here =
      some (((t.setThis g).setFiber f { fiber with ctx := here }).goTo parent.ctx) := by
  have saved : ((t.setFiber f fiber).setThis g).fibers f = some fiber := setFiber_self t f fiber
  have loaded : ((t.setFiber f fiber).setThis g).fibers g = some parent :=
    (setFiber_of_ne t fiber other).trans there
  rw [swapcontext_eq other saved loaded]
  exact congrArg (fun t : Thread F K => some (t.goTo parent.ctx))
    (setFiber_setFiber (t.setThis g) f fiber _)

/-- A fiber that was marked takes control from the one that resumes it. -/
theorem swapcontext_resume {here : Ctx F K} {parent : Fiber F K} (other : f ≠ g)
    (there : t.fibers g = some parent) :
    ((t.setThis f).setFiber f fiber).swapcontext g f here =
      some ((((t.setThis f).setFiber f fiber).setFiber g { parent with ctx := here }).goTo
        fiber.ctx) := by
  have saved : ((t.setThis f).setFiber f fiber).fibers g = some parent :=
    (setFiber_of_ne (t.setThis f) fiber other.symm).trans there
  exact swapcontext_eq other saved (setFiber_self (t.setThis f) f fiber)

end Thread

theorem owner_code (f : F) (k : K) :
    owner threadFiber (.code (frame threadFiber mainFiber f) k) = some f := by
  unfold frame
  split
  · rename_i same
    rw [same, owner]
  · rfl

theorem Continues.own {f : F} {k : K} {cb : Option K} {ctx : Ctx F K}
    (continues : Continues threadFiber mainFiber f k cb ctx) :
    ∀ g ∈ owner threadFiber ctx, g = f := by
  intro g member
  rcases continues with rfl | ⟨rfl, -⟩
  · rw [owner_code] at member
    exact (Option.some.inj member).symm
  · exact absurd member nofun

namespace Agrees

variable {s : Coroutines F K} {f g : F} {k there : K} {waiting : List (F × K)}
  {fiber parent : Fiber F K} {suspended : F → Option K}

/-- The running coroutine is that of `t_fiber`. -/
theorem head (agrees : Agrees threadFiber mainFiber t s) :
    ∃ k waiting fiber, s.active = (t.tFiber, k) :: waiting ∧ t.fibers t.tFiber = some fiber ∧
      Continues threadFiber mainFiber t.tFiber k fiber.cb t.code := by
  rcases active : s.active with - | ⟨⟨f, k⟩, waiting⟩
  · have chain := agrees.chain
    rw [active] at chain
    exact absurd rfl chain.ne_nil
  · obtain ⟨rfl, continues⟩ := agrees.running f k (by rw [active]; rfl)
    have inside : t.tFiber ∈ s.active.map Prod.fst := by
      rw [active]
      exact List.mem_cons_self
    obtain ⟨fiber, found⟩ := Option.ne_none_iff_exists'.mp (agrees.exist _ (.inl inside))
    exact ⟨k, waiting, fiber, rfl, found, continues fiber found⟩

/-- A fiber that neither ended nor runs nor waits is suspended. -/
theorem exists_suspended (agrees : Agrees threadFiber mainFiber t s)
    (found : t.fibers f = some fiber) (outside : f ∉ s.active.map Prod.fst)
    (alive : fiber.state ≠ .term ∧ fiber.state ≠ .except) : ∃ k, s.suspended f = some k := by
  rcases place : s.suspended f with - | k
  · rcases (agrees.stands f fiber found).gone outside place with term | except
    · exact absurd term alive.1
    · exact absurd except alive.2
  · exact ⟨k, rfl⟩

/-- A fiber that does not execute neither runs nor waits. -/
theorem notMem (agrees : Agrees threadFiber mainFiber t s) (found : t.fibers f = some fiber)
    (state : fiber.state ≠ .exec) : f ∉ s.active.map Prod.fst :=
  fun inside => state ((agrees.stands f fiber found).executing inside)

/-- The fiber of the thread is never suspended. -/
theorem ne_thread (agrees : Agrees threadFiber mainFiber t s)
    (outside : f ∉ s.active.map Prod.fst) : f ≠ threadFiber :=
  fun same => outside (same ▸ agrees.chain.thread_mem)

/-- The running coroutine goes on. -/
theorem proceed (agrees : Agrees threadFiber mainFiber t ⟨(f, k) :: waiting, suspended⟩) (there : K) :
    Agrees threadFiber mainFiber (t.goTo (.code (frame threadFiber mainFiber f) there))
      ⟨(f, there) :: waiting, suspended⟩ where
  chain := agrees.chain
  separate := ⟨agrees.separate.once, agrees.separate.apart⟩
  exist := agrees.exist
  stands g fiber found := { agrees.stands g fiber found with }
  running := by
    rintro g j ⟨⟩
    exact ⟨(agrees.running f k rfl).1, fun _ _ => .inl rfl⟩

/-- A fiber that neither runs nor waits is changed. -/
theorem alter (agrees : Agrees threadFiber mainFiber t ⟨(f, k) :: waiting, suspended⟩)
    (outside : g ∉ ((f, k) :: waiting).map Prod.fst) {place : Option K}
    (continues : ∀ there, place = some there →
      Continues threadFiber mainFiber g there fiber.cb fiber.ctx)
    (gone : place = none → fiber.state = .term ∨ fiber.state = .except)
    (own : ∀ h ∈ owner threadFiber fiber.ctx, h = g) :
    Agrees threadFiber mainFiber (t.setFiber g fiber)
      ⟨(f, k) :: waiting, Function.update suspended g place⟩ where
  chain := agrees.chain
  separate := ⟨agrees.separate.once, Coroutines.apart_update agrees.separate.apart outside place⟩
  exist h needed := by
    refine Thread.setFiber_ne_none t fiber fun other => agrees.exist h ?_
    simpa only [Function.update_of_ne other] using needed
  stands := by
    refine Thread.forall_setFiber
      ⟨fun inside => absurd inside outside, fun j member => ?_, ?_, ?_, own⟩
      fun h other old found => ?_
    · exact absurd (List.mem_cons_of_mem _ (List.mem_map_of_mem member)) outside
    · simpa only [Function.update_self] using continues
    · simpa only [Function.update_self] using fun _ => gone
    · obtain ⟨executing, waits, suspends, ended, owns⟩ := agrees.stands h old found
      refine ⟨executing, waits, ?_, ?_, owns⟩
      · simpa only [Function.update_of_ne other] using suspends
      · simpa only [Function.update_of_ne other] using ended
  running := by
    rintro h j ⟨⟩
    obtain ⟨self, continued⟩ := agrees.running f k rfl
    have other : f ≠ g := fun same => outside (same ▸ List.mem_cons_self)
    refine ⟨self, fun old found => continued old ?_⟩
    rwa [Thread.setFiber_of_ne t fiber other] at found

/-- The running coroutine resumes a suspended one and waits for it. -/
theorem resume (agrees : Agrees threadFiber mainFiber t ⟨(g, k) :: waiting, suspended⟩)
    (chain : Chain threadFiber mainFiber (f :: g :: waiting.map Prod.fst))
    (found : t.fibers f = some fiber) (place : suspended f = some there)
    (parent_ : t.fibers g = some parent) (after : K) :
    Agrees threadFiber mainFiber
      ((((t.setThis f).setFiber f { fiber with state := .exec }).setFiber g
        { parent with ctx := .code (frame threadFiber mainFiber g) after }).goTo fiber.ctx)
      ⟨(f, there) :: (g, after) :: waiting, Function.update suspended f none⟩ := by
  have took : Coroutines.step ⟨(g, k) :: waiting, suspended⟩ (.resume f after) =
      some ⟨(f, there) :: (g, after) :: waiting, Function.update suspended f none⟩ :=
    Option.map_eq_some_iff.mpr ⟨there, place, rfl⟩
  have separate := agrees.separate.step took
  have once : (f :: g :: waiting.map Prod.fst).Nodup := separate.once
  obtain ⟨outside, onceBelow⟩ := List.nodup_cons.mp once
  have new := (List.nodup_cons.mp onceBelow).1
  have other : f ≠ g := fun same => outside (same ▸ List.mem_cons_self)
  refine ⟨chain, separate, ?_, ?_, ?_⟩
  · intro h needed
    refine Thread.setFiber_ne_none _ _ fun second => Thread.setFiber_ne_none _ _ fun first => ?_
    apply agrees.exist h
    simpa only [Function.update_of_ne first, List.map_cons, List.mem_cons, first, second,
      false_or] using needed
  · have stands := agrees.stands
    have inner : ∀ h old, ((t.setThis f).setFiber f { fiber with state := .exec }).fibers h =
        some old → h ≠ g → Stands threadFiber mainFiber
          ⟨(f, there) :: (g, after) :: waiting, Function.update suspended f none⟩ h old := by
      refine Thread.forall_setFiber (fun _ => ?_) fun h first old found' second => ?_
      · refine ⟨fun _ => rfl, fun j member => ?_, fun j place_ => ?_, fun notMem => ?_,
          (stands f fiber found).own⟩
        · have inside : f ∈ g :: waiting.map Prod.fst := List.mem_map_of_mem (f := Prod.fst) member
          exact absurd inside outside
        · simp only [Function.update_self] at place_
          exact absurd place_ nofun
        · exact absurd List.mem_cons_self notMem
      · obtain ⟨executing, waits, suspends, ended, owns⟩ := stands h old found'
        refine ⟨fun inside => executing ?_, fun j member => waits j ?_, ?_, fun notMem => ?_, owns⟩
        · exact (List.mem_cons.mp inside).resolve_left first
        · rcases List.mem_cons.mp member with same | below
          · cases same
            exact absurd rfl second
          · exact below
        · simpa only [Function.update_of_ne first] using suspends
        · simp only [Function.update_of_ne first]
          exact ended fun inside => notMem (List.mem_cons_of_mem _ inside)
    refine Thread.forall_setFiber ?_ fun h second old found' => inner h old found' second
    have exec : parent.state = .exec := (stands g parent parent_).executing List.mem_cons_self
    have here : Continues threadFiber mainFiber g after parent.cb
        (.code (frame threadFiber mainFiber g) after) := .inl rfl
    refine ⟨fun _ => exec, fun j member => ?_, fun j place_ => ?_, fun notMem => ?_, here.own⟩
    · rcases List.mem_cons.mp member with same | below
      · cases same
        rfl
      · exact absurd (List.mem_map_of_mem below) new
    · rw [separate.apart g (List.mem_cons_of_mem _ List.mem_cons_self)] at place_
      exact absurd place_ nofun
    · exact absurd (List.mem_cons_of_mem _ List.mem_cons_self) notMem
  · rintro h j ⟨⟩
    refine ⟨rfl, fun old found' => ?_⟩
    have own := (Thread.setFiber_of_ne _ _ other).symm.trans found'
    rw [Thread.setFiber_self] at own
    cases own
    exact (agrees.stands f fiber found).suspended there place

/-- The running coroutine gives control back to the one that waits for it. -/
theorem release (agrees : Agrees threadFiber mainFiber t ⟨(f, k) :: (g, there) :: waiting, suspended⟩)
    (chain : Chain threadFiber mainFiber (g :: waiting.map Prod.fst))
    (parent_ : t.fibers g = some parent) {place : Option K}
    (continues : ∀ after, place = some after →
      Continues threadFiber mainFiber f after fiber.cb fiber.ctx)
    (gone : place = none → fiber.state = .term ∨ fiber.state = .except)
    (own : ∀ h ∈ owner threadFiber fiber.ctx, h = f) :
    Agrees threadFiber mainFiber (((t.setThis g).setFiber f fiber).goTo parent.ctx)
      ⟨(g, there) :: waiting, Function.update suspended f place⟩ := by
  obtain ⟨once, apart⟩ := agrees.separate
  obtain ⟨new, onceBelow⟩ := List.nodup_cons.mp once
  have newBelow := (List.nodup_cons.mp onceBelow).1
  have other : g ≠ f := fun same => new (same ▸ List.mem_cons_self)
  refine ⟨chain, ⟨onceBelow, ?_⟩, ?_, ?_, ?_⟩
  · exact Coroutines.apart_update (List.forall_mem_cons.mp apart).2 new place
  · intro h needed
    refine Thread.setFiber_ne_none _ _ fun first => agrees.exist h ?_
    simp only [Function.update_of_ne first] at needed
    exact needed.imp_left (List.mem_cons_of_mem _)
  · refine Thread.forall_setFiber
      ⟨fun inside => absurd inside new, fun j member => ?_, ?_, ?_, own⟩ fun h first old found => ?_
    · exact absurd (List.mem_cons_of_mem _ (List.mem_map_of_mem member)) new
    · simpa only [Function.update_self] using continues
    · simpa only [Function.update_self] using fun _ => gone
    · obtain ⟨executing, waits, suspends, ended, owns⟩ := agrees.stands h old found
      refine ⟨fun inside => executing (List.mem_cons_of_mem _ inside), fun j member => waits j ?_,
        ?_, fun notMem => ?_, owns⟩
      · exact List.mem_cons_of_mem _ member
      · simpa only [Function.update_of_ne first] using suspends
      · simp only [Function.update_of_ne first]
        exact ended fun inside => notMem ((List.mem_cons.mp inside).resolve_left first)
  · rintro h j ⟨⟩
    refine ⟨rfl, fun old found => ?_⟩
    have own : t.fibers g = some old :=
      (Thread.setFiber_of_ne (t.setThis g) fiber other).symm.trans found
    cases parent_.symm.trans own
    exact .inl ((agrees.stands g parent parent_).waiting there List.mem_cons_self)

section Steps

variable {next : Thread F K} {self : Fiber F K}

/-- Where the running coroutine yields to the one that waits for it, its fiber is suspended. -/
theorem yields (agrees : Agrees threadFiber mainFiber t ⟨(t.tFiber, k) :: waiting, suspended⟩)
    (other : t.tFiber ≠ mainFiber)
    (inside : t.tFiber ≠ threadFiber) (state : FiberState) (after : K)
    (taken : (t.setFiber t.tFiber { self with state := state }).swapOut mainFiber t.tFiber
      (.code (frame threadFiber mainFiber t.tFiber) after) = some next) :
    ∃ s, Coroutines.step ⟨(t.tFiber, k) :: waiting, suspended⟩ (.yield after) = some s ∧
      Agrees threadFiber mainFiber next s := by
  obtain ⟨rest, split, chain⟩ := agrees.chain.of_task other inside
  obtain ⟨⟨g, there⟩, below, rfl, rfl, rfl⟩ := List.map_eq_cons_iff.mp split
  obtain ⟨parent, parent_⟩ := Option.ne_none_iff_exists'.mp
    (agrees.exist g (.inl (List.mem_cons_of_mem _ List.mem_cons_self)))
  rw [Thread.swapOut, Thread.swapcontext_release other.symm parent_] at taken
  cases taken
  have here : ∀ j, some after = some j → Continues threadFiber g t.tFiber j self.cb
      (.code (frame threadFiber g t.tFiber) after) := by
    rintro _ ⟨⟩
    exact .inl rfl
  exact ⟨_, rfl, agrees.release chain parent_ here nofun (here after rfl).own⟩

/-- When its callback ends, the fiber gives control back to the one that waits for it. -/
theorem leaves (agrees : Agrees threadFiber mainFiber t ⟨(t.tFiber, k) :: waiting, suspended⟩)
    (found : t.fibers t.tFiber = some self) (inside : t.tFiber ≠ threadFiber)
    {ended : Fiber F K → Fiber F K} (gone : (ended self).state = .term ∨ (ended self).state = .except)
    (taken : t.leave threadFiber mainFiber (t.tFiber = mainFiber) t.tFiber ended = some next) :
    ∃ s, Coroutines.step ⟨(t.tFiber, k) :: waiting, suspended⟩ .finish = some s ∧
      Agrees threadFiber mainFiber next s := by
  have nowhere : Function.update suspended t.tFiber none = suspended := by
    have apart : suspended t.tFiber = none := agrees.separate.apart _ List.mem_cons_self
    rw [← apart, Function.update_eq_self]
  simp only [Thread.leave, found, bind, Option.bind, decide_eq_true_eq] at taken
  obtain ⟨g, there, below, rfl, chain, other, taken⟩ : ∃ g there below, waiting = (g, there) :: below ∧
      Chain threadFiber mainFiber (g :: below.map Prod.fst) ∧ g ≠ t.tFiber ∧
      ((t.setFiber t.tFiber (ended self)).setThis g).swapcontext t.tFiber g .neverReach =
        some next := by
    by_cases own : t.tFiber = mainFiber
    · rw [if_pos own] at taken
      have chain := agrees.chain
      rw [List.map_cons, own] at chain
      have split := chain.of_main (own ▸ inside)
      obtain ⟨⟨g, there⟩, below, rfl, rfl, nothing⟩ := List.map_eq_cons_iff.mp split
      refine ⟨g, there, below, rfl, ?_, inside.symm, taken⟩
      rw [nothing]
      exact .thread
    · rw [if_neg own] at taken
      obtain ⟨rest, split, chain⟩ := agrees.chain.of_task own inside
      obtain ⟨⟨g, there⟩, below, rfl, rfl, rfl⟩ := List.map_eq_cons_iff.mp split
      exact ⟨g, there, below, rfl, chain, fun same => own same.symm, taken⟩
  obtain ⟨parent, parent_⟩ := Option.ne_none_iff_exists'.mp
    (agrees.exist g (.inl (List.mem_cons_of_mem _ List.mem_cons_self)))
  rw [Thread.swapcontext_release other parent_] at taken
  cases taken
  refine ⟨⟨(g, there) :: below, suspended⟩, rfl, ?_⟩
  rw [← nowhere]
  exact agrees.release chain parent_ nofun (fun _ => gone) nofun

/-- The running coroutine resumes a fiber that neither ended nor runs nor waits. -/
theorem resumes (agrees : Agrees threadFiber mainFiber t ⟨(t.tFiber, k) :: waiting, suspended⟩)
    (self_ : t.fibers t.tFiber = some self) (found : t.fibers f = some fiber)
    (outside : f ∉ t.tFiber :: waiting.map Prod.fst)
    (alive : fiber.state ≠ .term ∧ fiber.state ≠ .except)
    (chain : Chain threadFiber mainFiber (f :: t.tFiber :: waiting.map Prod.fst)) (after : K)
    (taken : ((t.setThis f).setFiber f { fiber with state := .exec }).swapcontext t.tFiber f
      (.code (frame threadFiber mainFiber t.tFiber) after) = some next) :
    ∃ s, Coroutines.step ⟨(t.tFiber, k) :: waiting, suspended⟩ (.resume f after) = some s ∧
      Agrees threadFiber mainFiber next s := by
  obtain ⟨there, place⟩ := agrees.exists_suspended found outside alive
  have other : f ≠ t.tFiber := fun same => outside (same ▸ List.mem_cons_self)
  rw [Thread.swapcontext_resume other self_] at taken
  cases taken
  exact ⟨_, Option.map_eq_some_iff.mpr ⟨there, place, rfl⟩,
    agrees.resume chain found place self_ after⟩

/-- The first line of a fiber calls its callback. -/
theorem enters (agrees : Agrees threadFiber mainFiber t ⟨(t.tFiber, k) :: waiting, suspended⟩)
    (found : t.fibers t.tFiber = some self) (inside : t.tFiber ≠ threadFiber)
    (cb : self.cb = some k) (code : t.code = .entry (t.tFiber = mainFiber)) {op : Op F K}
    (taken : t.step threadFiber mainFiber op = some next) :
    op = .enter ∧ Agrees threadFiber mainFiber next ⟨(t.tFiber, k) :: waiting, suspended⟩ := by
  cases op with
  | enter =>
      simp only [Thread.step, code, found, cb, bind, Option.bind, Option.some.injEq] at taken
      subst taken
      have agreed := agrees.proceed k
      rw [frame, if_neg inside] at agreed
      exact ⟨rfl, agreed⟩
  | _ =>
      simp only [Thread.step, code] at taken
      exact absurd taken nofun

/-- A fiber that neither runs nor waits gets a callback. -/
theorem creates (agrees : Agrees threadFiber mainFiber t ⟨(t.tFiber, k) :: waiting, suspended⟩)
    (outside : f ∉ t.tFiber :: waiting.map Prod.fst) (other : f ≠ mainFiber)
    (starts : fiber.ctx = .entry false ∧ fiber.cb = some there) (after : K) :
    ∃ s, Coroutines.step ⟨(t.tFiber, k) :: waiting, suspended⟩ (.create f there after) = some s ∧
      Agrees threadFiber mainFiber ((t.setFiber f fiber).goTo
        (.code (frame threadFiber mainFiber t.tFiber) after)) s := by
  have continues : ∀ start, some there = some start →
      Continues threadFiber mainFiber f start fiber.cb fiber.ctx := by
    rintro _ ⟨⟩
    refine .inr ⟨?_, agrees.ne_thread outside, starts.2⟩
    rw [starts.1, decide_eq_false other]
  have own := (continues there rfl).own
  exact ⟨_, if_neg outside, (agrees.alter outside continues nofun own).proceed after⟩

/-- What the thread does for a disciplined operation, the coroutines do for its request. -/
theorem step {op : Op F K} (agrees : Agrees threadFiber mainFiber t s)
    (disciplined : Disciplined threadFiber mainFiber t op)
    (taken : t.step threadFiber mainFiber op = some next) :
    ∃ after, op.request.elim (some s) s.step = some after ∧
      Agrees threadFiber mainFiber next after := by
  obtain ⟨active, suspended⟩ := s
  obtain ⟨k, waiting, self, rfl, found, code | ⟨entry, inside, cb⟩⟩ := agrees.head
  case inr =>
    obtain ⟨rfl, agreed⟩ := agrees.enters found inside cb entry taken
    exact ⟨_, rfl, agreed⟩
  have executing : self.state = .exec :=
    (agrees.stands t.tFiber self found).executing List.mem_cons_self
  cases op with
  | enter =>
      simp only [Thread.step, code] at taken
      exact absurd taken nofun
  | create f cb useCaller after =>
      simp only [Thread.step, code, Option.map_eq_some_iff, Thread.create,
        Option.ite_none_left_eq_some, Option.some.injEq] at taken
      obtain ⟨_, ⟨new, rfl⟩, rfl⟩ := taken
      have missing : t.fibers f = none := Option.not_isSome_iff_eq_none.mp new
      have outside : f ∉ t.tFiber :: waiting.map Prod.fst :=
        fun member => agrees.exist f (.inl member) missing
      have other : f ≠ mainFiber := fun same => agrees.exist f (.inr (.inr same)) missing
      obtain rfl : useCaller = false := disciplined
      exact agrees.creates outside other ⟨rfl, rfl⟩ after
  | reset f cb after =>
      simp only [Thread.step, code, Option.map_eq_some_iff, Thread.reset, bind,
        Option.bind_eq_some_iff, Option.ite_none_right_eq_some, Option.some.injEq] at taken
      obtain ⟨_, ⟨fiber, found', ⟨-, resettable⟩, rfl⟩, rfl⟩ := taken
      have outside := agrees.notMem found' fun exec => by
        rw [exec] at resettable
        exact absurd resettable (by decide)
      exact agrees.creates outside disciplined ⟨rfl, rfl⟩ after
  | swapIn f after =>
      simp only [Thread.step, code, Thread.swapIn, bind, Option.bind_eq_some_iff,
        Option.ite_none_left_eq_some] at taken
      obtain ⟨fiber, found', state, taken⟩ := taken
      obtain ⟨main, alive⟩ := disciplined
      have outside := agrees.notMem found' state
      have other : f ≠ mainFiber := fun same => outside (same ▸ main ▸ List.mem_cons_self)
      have chain := agrees.chain
      rw [List.map_cons, main] at chain
      have longer : Chain threadFiber mainFiber (f :: t.tFiber :: waiting.map Prod.fst) := by
        rw [main]
        exact chain.swappedIn other (agrees.ne_thread outside)
      refine agrees.resumes found found' outside (alive fiber found') longer after ?_
      rw [main] at taken ⊢
      exact taken
  | call f after =>
      simp only [Thread.step, code, Thread.call, bind, Option.bind_eq_some_iff] at taken
      obtain ⟨fiber, found', taken⟩ := taken
      obtain ⟨thread, rfl, own, alive⟩ := disciplined
      have chain := agrees.chain
      rw [List.map_cons, thread] at chain
      have nothing := chain.of_thread
      have outside : f ∉ t.tFiber :: waiting.map Prod.fst := by
        rw [nothing, thread]
        exact fun member => own (List.mem_singleton.mp member)
      have longer : Chain threadFiber f (f :: t.tFiber :: waiting.map Prod.fst) := by
        rw [nothing, thread]
        exact .called own
      refine agrees.resumes found found' outside (alive fiber found') longer after ?_
      rw [thread] at taken ⊢
      exact taken
  | yiledToReady after | yiledToHold after =>
      simp only [Thread.step, code, Thread.yiledTo, found, bind, Option.bind, executing,
        if_pos] at taken
      exact agrees.yields disciplined.1 disciplined.2 _ after taken
  | swapOut after =>
      simp only [Thread.step, code] at taken
      rw [← Thread.setFiber_eq_self found] at taken
      exact agrees.yields disciplined.1 disciplined.2 self.state after taken
  | hold f after =>
      simp only [Thread.step, code, Option.map_eq_some_iff, Thread.hold, bind,
        Option.bind_eq_some_iff] at taken
      obtain ⟨held, ⟨fiber, found', taken⟩, rfl⟩ := taken
      obtain ⟨self_, main, thread⟩ := disciplined
      have outside : f ∉ t.tFiber :: waiting.map Prod.fst := by
        intro member
        rcases agrees.chain.mem_cases member with same | same | same
        · exact self_ same
        · exact main same
        · exact thread same
      split at taken
      · cases taken
        exact ⟨_, rfl, agrees.proceed after⟩
      · rename_i alive
        cases taken
        have stands := agrees.stands f fiber found'
        have agreed : Agrees threadFiber mainFiber (t.setFiber f { fiber with state := .hold })
            ⟨(t.tFiber, k) :: waiting, Function.update suspended f (suspended f)⟩ :=
          agrees.alter outside stands.suspended
            (fun nowhere => absurd (stands.gone outside nowhere) alive) stands.own
        rw [Function.update_eq_self] at agreed
        exact ⟨_, rfl, agreed.proceed after⟩
  | proceed after =>
      simp only [Thread.step, code, Option.some.injEq] at taken
      subst taken
      exact ⟨_, rfl, agrees.proceed after⟩
  | finish =>
      by_cases inside : t.tFiber = threadFiber
      · simp only [Thread.step, code, frame, if_pos inside] at taken
        exact absurd taken nofun
      · simp only [Thread.step, code, frame, if_neg inside] at taken
        exact agrees.leaves found inside (.inl rfl) taken
  | throw =>
      by_cases inside : t.tFiber = threadFiber
      · simp only [Thread.step, code, frame, if_pos inside] at taken
        exact absurd taken nofun
      · simp only [Thread.step, code, frame, if_neg inside] at taken
        exact agrees.leaves found inside (.inr rfl) taken

end Steps

/-- What the thread does in a disciplined run, the coroutines do for its requests. -/
theorem exec {ops : List (Op F K)} {final : Thread F K} (agrees : Agrees threadFiber mainFiber t s)
    (disciplined : Guarded (Thread.step threadFiber mainFiber) (Disciplined threadFiber mainFiber)
      t ops)
    (ran : Library.exec (Thread.step threadFiber mainFiber) t ops = some final) :
    ∃ after, Library.exec Coroutines.step s (ops.filterMap Op.request) = some after ∧
      Agrees threadFiber mainFiber final after := by
  induction ops generalizing t s with
  | nil =>
      cases ran
      exact ⟨s, rfl, agrees⟩
  | cons op rest inductionHypothesis =>
      obtain ⟨next, taken, onward⟩ := Option.bind_eq_some_iff.mp ran
      obtain ⟨middle, took, agreed⟩ := agrees.step disciplined.1 taken
      obtain ⟨after, reached, agreed⟩ := inductionHypothesis agreed (disciplined.2 next taken) onward
      refine ⟨after, ?_, agreed⟩
      rcases requests : op.request with - | request
      · rw [requests] at took
        cases took
        rw [List.filterMap_cons_none requests]
        exact reached
      · rw [requests] at took
        rw [List.filterMap_cons_some requests, Library.exec, show s.step request = _ from took]
        exact reached

end Agrees

namespace Thread

/-- The code of the thread runs, and the scheduler is at its start when it has a fiber of its
own. -/
def coroutines (threadFiber mainFiber : F) (here run : K) : Coroutines F K where
  active := [(threadFiber, here)]
  suspended f := if f = threadFiber then none else if f = mainFiber then some run else none

theorem initial_fibers (threadFiber mainFiber : F) (here run : K) (f : F) :
    (initial threadFiber mainFiber here run).fibers f =
      if f = threadFiber then some ⟨.exec, .code .thread here, false, none⟩
      else if f = mainFiber then some ⟨.init, .entry true, true, some run⟩
      else none := rfl

theorem agrees_initial (threadFiber mainFiber : F) (here run : K) :
    Agrees threadFiber mainFiber (initial threadFiber mainFiber here run)
      (coroutines threadFiber mainFiber here run) where
  chain := .thread
  separate := by
    refine ⟨List.nodup_singleton _, fun f member => ?_⟩
    rw [List.mem_singleton.mp member]
    exact if_pos rfl
  exist f needed := by
    rw [initial_fibers]
    split_ifs with thread main
    · exact Option.some_ne_none _
    · exact Option.some_ne_none _
    · rcases needed with member | suspended | same
      · exact absurd (List.mem_singleton.mp member) thread
      · exact absurd ((if_neg thread).trans (if_neg main)) suspended
      · exact absurd same main
  stands f fiber found := by
    rw [initial_fibers] at found
    split_ifs at found with thread main
    · subst thread
      cases found
      have nowhere : (coroutines f mainFiber here run).suspended f = none := if_pos rfl
      refine ⟨fun _ => rfl, nofun, fun k place => ?_, fun outside => ?_, ?_⟩
      · rw [nowhere] at place
        exact absurd place nofun
      · exact absurd (List.mem_singleton_self f) outside
      · rintro _ ⟨⟩
        rfl
    · cases found
      have start : (coroutines threadFiber mainFiber here run).suspended f = some run :=
        (if_neg thread).trans (if_pos main)
      refine ⟨fun inside => ?_, nofun, fun k place => ?_, fun _ nowhere => ?_, nofun⟩
      · exact absurd (List.mem_singleton.mp inside) thread
      · refine .inr ⟨?_, thread, start.symm.trans place⟩
        rw [decide_eq_true main]
      · rw [start] at nowhere
        exact absurd nowhere nofun
  running := by
    rintro f k ⟨⟩
    refine ⟨rfl, fun fiber found => .inl ?_⟩
    rw [frame, if_pos rfl, initial]

/-- Fibers are coroutines. In every run in which only the scheduler swaps fibers in, only the
thread calls the scheduler and only fibers that were swapped in yield, the thread does what
coroutines do whose chain of resumed ones is as long as needed. -/
theorem refines_coroutines {here run : K} {ops : List (Op F K)} {final : Thread F K}
    (disciplined : Guarded (step threadFiber mainFiber) (Disciplined threadFiber mainFiber)
      (initial threadFiber mainFiber here run) ops)
    (ran : exec (step threadFiber mainFiber) (initial threadFiber mainFiber here run) ops =
      some final) :
    ∃ s, exec Coroutines.step (coroutines threadFiber mainFiber here run)
        (ops.filterMap Op.request) = some s ∧ Agrees threadFiber mainFiber final s :=
  (agrees_initial threadFiber mainFiber here run).exec disciplined ran

section Runs

/-- The thread creates a fiber and calls the scheduler, which swaps it in twice. -/
def twice : List (Op (Fin 3) Nat) :=
  [.create 2 20 false 1, .call 1 2, .enter, .swapIn 2 11, .enter, .yiledToHold 21, .hold 2 12,
    .swapIn 2 13, .finish, .proceed 14, .finish]

theorem refines_coroutines_twice : ∃ final,
    exec (step 0 1) (initial 0 1 0 10) twice = some final ∧
      ∃ s, exec Coroutines.step (coroutines 0 1 0 10) (twice.filterMap Op.request) = some s ∧
        Agrees 0 1 final s := by
  have runs : (exec (step 0 1) (initial 0 1 0 10) twice).isSome = true := by decide
  obtain ⟨final, ran⟩ := Option.isSome_iff_exists.mp runs
  exact ⟨final, ran, refines_coroutines (by decide) ran⟩

end Runs

end Thread

end Sylar.Fiber
