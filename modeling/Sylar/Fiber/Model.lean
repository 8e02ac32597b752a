import Sylar.Library.Transition
import Sylar.Scheduler.Model
import Mathlib.Logic.Function.Basic

/-!
# Fibers on one thread

`fiber.cpp` with the contexts that `makecontext` and `swapcontext` write. The code that
runs is not modelled; it asks for one operation after another, and a context is
whose code it is in and where that code goes on.
-/

namespace Sylar

/-- Whose code a context is in. -/
inductive Frame (F : Type) where
  /-- The code of the thread, on its own stack. -/
  | thread
  /-- The callback that `MainFunc`, or `CallMainFunc` for `useCaller`, called for `cur`. -/
  | callback (useCaller : Bool) (cur : F)
deriving DecidableEq, Repr

/-- `ucontext_t`: where a context goes on. -/
inductive Ctx (F K : Type) where
  /-- At the first line of `MainFunc`, or of `CallMainFunc` for `useCaller`. -/
  | entry (useCaller : Bool)
  | code (frame : Frame F) (next : K)
  /-- Behind the last switch of these functions, at `never reach fiber`. -/
  | neverReach
deriving DecidableEq, Repr

/-- `Fiber`: `stack` says whether there is an `m_stack`. -/
structure Fiber (F K : Type) where
  state : FiberState
  ctx : Ctx F K
  stack : Bool
  cb : Option K
deriving DecidableEq, Repr

namespace Fiber

/-- A thread: the fibers that exist, its `t_fiber`, and the code it runs. -/
structure Thread (F K : Type) where
  fibers : F → Option (Fiber F K)
  tFiber : F
  code : Ctx F K

/-- What the code that runs asks for; `next` is where it goes on after that. -/
inductive Op (F K : Type) where
  /-- The first lines of `MainFunc` and `CallMainFunc`. -/
  | enter
  /-- `Fiber::Fiber` with a callback. -/
  | create (f : F) (cb : K) (useCaller : Bool) (next : K)
  | reset (f : F) (cb : K) (next : K)
  | swapIn (f : F) (next : K)
  | call (f : F) (next : K)
  | yiledToReady (next : K)
  | yiledToHold (next : K)
  /-- `swapOut` of the fiber that `GetThis` returns, as in `IOManager::idle`. -/
  | swapOut (next : K)
  /-- What `Scheduler::run` does to a fiber that came back: `m_state = HOLD` unless it ended. -/
  | hold (f : F) (next : K)
  /-- The callback does something else. -/
  | proceed (next : K)
  /-- The callback returns. -/
  | finish
  /-- The callback throws. -/
  | throw
deriving DecidableEq, Repr

namespace Thread

variable {F K : Type} [DecidableEq F]

/-- Change one fiber. -/
def setFiber (t : Thread F K) (f : F) (fiber : Fiber F K) : Thread F K :=
  { t with fibers := Function.update t.fibers f (some fiber) }

/-- `Fiber::SetThis`. -/
def setThis (t : Thread F K) (f : F) : Thread F K := { t with tFiber := f }

/-- The code goes on. -/
def goTo (here : Ctx F K) (t : Thread F K) : Thread F K := { t with code := here }

/-- `swapcontext(&save->m_ctx, &load->m_ctx)`. -/
def swapcontext (t : Thread F K) (save load : F) (here : Ctx F K) : Option (Thread F K) := do
  let saved ← t.fibers save
  let stored := t.setFiber save { saved with ctx := here }
  let loaded ← stored.fibers load
  some (stored.goTo loaded.ctx)

section

variable (threadFiber mainFiber : F)

/-- `Fiber::swapIn`; `mainFiber` is `Scheduler::GetMainFiber()`. -/
def swapIn (t : Thread F K) (f : F) (here : Ctx F K) : Option (Thread F K) := do
  let fiber ← t.fibers f
  if fiber.state = .exec then none
  else ((t.setThis f).setFiber f { fiber with state := .exec }).swapcontext mainFiber f here

/-- `Fiber::swapOut`. -/
def swapOut (t : Thread F K) (f : F) (here : Ctx F K) : Option (Thread F K) :=
  (t.setThis mainFiber).swapcontext f mainFiber here

/-- `Fiber::call`; `threadFiber` is `t_threadFiber`. -/
def call (t : Thread F K) (f : F) (here : Ctx F K) : Option (Thread F K) := do
  let fiber ← t.fibers f
  ((t.setThis f).setFiber f { fiber with state := .exec }).swapcontext threadFiber f here

/-- `Fiber::back`. -/
def back (t : Thread F K) (f : F) (here : Ctx F K) : Option (Thread F K) :=
  (t.setThis threadFiber).swapcontext f threadFiber here

/-- `Fiber::YiledToReady` and `Fiber::YiledToHold`. -/
def yiledTo (state : FiberState) (t : Thread F K) (here : Ctx F K) : Option (Thread F K) := do
  let cur ← t.fibers t.tFiber
  if cur.state = .exec then
    (t.setFiber t.tFiber { cur with state := state }).swapOut mainFiber t.tFiber here
  else none

/-- The end of `Fiber::MainFunc` and `Fiber::CallMainFunc`. -/
def leave (t : Thread F K) (useCaller : Bool) (cur : F) (ended : Fiber F K → Fiber F K) :
    Option (Thread F K) := do
  let fiber ← t.fibers cur
  let marked := t.setFiber cur (ended fiber)
  if useCaller then marked.back threadFiber cur .neverReach
  else marked.swapOut mainFiber cur .neverReach

/-- `m_cb = nullptr` and `m_state = TERM`. -/
def terminated (fiber : Fiber F K) : Fiber F K := { fiber with state := .term, cb := none }

/-- `m_state = EXCEPT`. -/
def excepted (fiber : Fiber F K) : Fiber F K := { fiber with state := .except }

/-- The constructor of a fiber with a function. -/
def create (t : Thread F K) (f : F) (cb : K) (useCaller : Bool) : Option (Thread F K) :=
  if (t.fibers f).isSome then none
  else some (t.setFiber f ⟨.init, .entry useCaller, true, some cb⟩)

/-- `Fiber::reset`. -/
def reset (t : Thread F K) (f : F) (cb : K) : Option (Thread F K) := do
  let fiber ← t.fibers f
  if fiber.stack ∧ (fiber.state = .term ∨ fiber.state = .except ∨ fiber.state = .init) then
    some (t.setFiber f { fiber with state := .init, ctx := .entry false, cb := some cb })
  else none

/-- `run` sets a fiber that has not ended to `HOLD`. -/
def hold (t : Thread F K) (f : F) : Option (Thread F K) := do
  let fiber ← t.fibers f
  if fiber.state = .term ∨ fiber.state = .except then some t
  else some (t.setFiber f { fiber with state := .hold })

/-- The thread does what its code asks for; an assertion that fails ends the process. -/
def step (t : Thread F K) (op : Op F K) : Option (Thread F K) :=
  match t.code with
  | .neverReach => none
  | .entry useCaller =>
      match op with
      | .enter => do
          let cur ← t.fibers t.tFiber
          match cur.cb with
          | some start => some (t.goTo (.code (.callback useCaller t.tFiber) start))
          -- an empty callback throws `std::bad_function_call`
          | none => t.leave threadFiber mainFiber useCaller t.tFiber excepted
      | _ => none
  | .code frame _ =>
      match op with
      | .enter => none
      | .create f cb useCaller next => (t.create f cb useCaller).map (goTo (.code frame next))
      | .reset f cb next => (t.reset f cb).map (goTo (.code frame next))
      | .swapIn f next => t.swapIn mainFiber f (.code frame next)
      | .call f next => t.call threadFiber f (.code frame next)
      | .yiledToReady next => t.yiledTo mainFiber .ready (.code frame next)
      | .yiledToHold next => t.yiledTo mainFiber .hold (.code frame next)
      | .swapOut next => t.swapOut mainFiber t.tFiber (.code frame next)
      | .hold f next => (t.hold f).map (goTo (.code frame next))
      | .proceed next => some (t.goTo (.code frame next))
      | .finish =>
          match frame with
          | .thread => none
          | .callback useCaller cur => t.leave threadFiber mainFiber useCaller cur terminated
      | .throw =>
          match frame with
          | .thread => none
          | .callback useCaller cur => t.leave threadFiber mainFiber useCaller cur excepted

/-- The thread after its first `GetThis`. When its scheduler has a fiber of its own, as the
thread that built the scheduler has with `use_caller`, that fiber is going to run `run`. -/
def initial (here run : K) : Thread F K where
  fibers f :=
    if f = threadFiber then some ⟨.exec, .code .thread here, false, none⟩
    else if f = mainFiber then some ⟨.init, .entry true, true, some run⟩
    else none
  tFiber := threadFiber
  code := .code .thread here

end

end Thread

end Fiber

end Sylar
