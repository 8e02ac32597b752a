import Sylar.Library.OrderedSet
import Sylar.Library.Transition
import Mathlib.Logic.Function.Basic

/-!
# Timers

`Timer` and `TimerManager` of `timer.cpp`, one locked section at a time. What is
read without the lock is an argument: the clock, and the period that `reset` and
the set that `listExpiredCb` look at before they lock. `m_timers` is ordered by
a comparison that reads the timers through their pointers, so that writing
`m_next` of a timer in the set, and erasing `end()`, are faults.
-/

namespace Sylar

/-- `Timer`, with the address it is at. -/
structure Timer (A C : Type) where
  address : A
  recurring : Bool
  ms : UInt64
  next : UInt64
  /-- `none` is an empty function. -/
  cb : Option C

/-- `Timer::Comparator`. -/
def Timer.comparator {A C : Type} [LinearOrder A] (lhs rhs : Option (Timer A C)) : Bool :=
  match lhs, rhs with
  | none, none => false
  | none, some _ => true
  | some _, none => false
  | some lhs, some rhs =>
      if lhs.next < rhs.next then true
      else if lhs.next > rhs.next then false
      else lhs.address < rhs.address

namespace TimerManager

/-- What the code must not do. -/
inductive Fault where
  /-- `erase(end())`. -/
  | eraseEnd
  /-- `m_next` is written while the timer is in the set. -/
  | keyWritten
  /-- A null pointer is dereferenced. -/
  | nullTimer
deriving DecidableEq, Repr

/-- One entry of the history of timers. -/
inductive Mark (T C : Type) where
  /-- `listExpiredCb` handed the callback of `t` out. -/
  | handed (t : T) (cb : Option C)
  /-- `cancle` of `t` returned true. -/
  | cancled (t : T)
deriving DecidableEq, Repr

/-- A `TimerManager` and all timers that were made. -/
structure State (T A C : Type) where
  timer : T → Option (Timer A C)
  /-- The timers that callers hold a pointer to. Others are destroyed when they
  leave the set. -/
  held : List T
  /-- `m_timers`, in its order. -/
  timers : List T
  tickled : Bool
  history : List (Mark T C)

/-- A call of a thread. -/
inductive Action (T A C : Type) where
  /-- The constructor puts the timer `t` at `address`. -/
  | addTimer (t : T) (address : A) (ms : UInt64) (cb : C) (recurring : Bool) (now : UInt64)
  | cancle (t : T)
  | refresh (t : T) (now : UInt64)
  /-- `seen` is the period read before the lock. -/
  | reset (t : T) (ms : UInt64) (fromNow : Bool) (seen now : UInt64)
  | getNextTimer (now : UInt64)
  /-- `seenEmpty` is what the test under the read lock found, `probe` the address of
  the timer that stands for the current time. -/
  | listExpiredCb (seenEmpty : Bool) (now : UInt64) (probe : A)
  /-- A caller lets its pointer go. -/
  | release (t : T)
deriving DecidableEq, Repr

namespace State

open Library

variable {T A C : Type} [DecidableEq T] [LinearOrder A]

/-- The comparison of the set. -/
def less (s : State T A C) (t u : T) : Bool := Timer.comparator (s.timer t) (s.timer u)

/-- `m_timers.find`. -/
def find (s : State T A C) (t : T) : Option T := OrderedSet.find s.less t s.timers

/-- `m_timers.insert`. -/
def insert (s : State T A C) (t : T) : State T A C :=
  { s with timers := OrderedSet.insert s.less t s.timers }

/-- `m_timers.erase`. -/
def erase (s : State T A C) (it : Option T) : Except Fault (State T A C) :=
  match it with
  | none => throw .eraseEnd
  | some u => return { s with timers := s.timers.erase u }

/-- Write to a timer. -/
def write (s : State T A C) (t : T) (change : Timer A C → Timer A C) : State T A C :=
  { s with timer := Function.update s.timer t ((s.timer t).map change) }

/-- Write `m_next`. -/
def writeNext (s : State T A C) (t : T) (next : UInt64) : Except Fault (State T A C) :=
  if t ∈ s.timers then throw .keyWritten else return s.write t fun timer => { timer with next }

/-- The timer has a callback. -/
def hasCb (s : State T A C) (t : T) : Bool := ((s.timer t).bind Timer.cb).isSome

/-- `addTimer` under the lock, and whether `onTimerInsertedAtFront` is called. -/
def addTimerLocked (s : State T A C) (t : T) : Bool × State T A C :=
  let s := s.insert t
  let atFront := decide (s.find t = s.timers.head?) && !s.tickled
  (atFront, if atFront then { s with tickled := true } else s)

/-- `addTimer`, with the clock that the constructor read. -/
def addTimer (s : State T A C) (t : T) (address : A) (ms : UInt64) (cb : C) (recurring : Bool)
    (now : UInt64) : Bool × State T A C :=
  let timer := { address, recurring, ms, next := now + ms, cb := some cb }
  addTimerLocked
    { s with timer := Function.update s.timer t (some timer), held := t :: s.held } t

def cancle (s : State T A C) (t : T) : Except Fault (Bool × State T A C) :=
  if s.hasCb t then do
    let s := s.write t fun timer => { timer with cb := none }
    let s ← s.erase (s.find t)
    return (true, { s with history := s.history ++ [.cancled t] })
  else return (false, s)

def refresh (s : State T A C) (t : T) (now : UInt64) : Except Fault (Bool × State T A C) := do
  match s.timer t with
  | none => throw .nullTimer
  | some timer =>
      if !s.hasCb t then return (false, s)
      else if s.find t = none then return (false, s)
      else
        let s ← s.erase (s.find t)
        let s ← s.writeNext t (now + timer.ms)
        return (true, s.insert t)

/-- The answer, whether `onTimerInsertedAtFront` is called, and the state. -/
def reset (s : State T A C) (t : T) (ms : UInt64) (fromNow : Bool) (seen now : UInt64) :
    Except Fault (Bool × Bool × State T A C) := do
  if ms = seen ∧ !fromNow then return (true, false, s)
  else
    match s.timer t with
    | none => throw .nullTimer
    | some timer =>
        if !s.hasCb t then return (false, false, s)
        else if s.find t = none then return (false, false, s)
        else
          let s ← s.erase (s.find t)
          let start := if fromNow then now else timer.next - timer.ms
          let s := s.write t fun timer => { timer with ms }
          let s ← s.writeNext t (start + ms)
          return (true, s.addTimerLocked t)

/-- `getNextTimer`; the largest number is no timer. -/
def getNextTimer (s : State T A C) (now : UInt64) : UInt64 × State T A C :=
  let s := { s with tickled := false }
  match s.timers.head?.bind s.timer with
  | none => (~~~0, s)
  | some next => (if now ≥ next.next then 0 else next.next - now, s)

/-- An expired timer hands its callback out, and begins again if it is recurring. -/
def deliver (now : UInt64) (s : State T A C) (t : T) : Except Fault (State T A C) :=
  match s.timer t with
  | none => throw .nullTimer
  | some timer => do
      let s := { s with history := s.history ++ [Mark.handed t timer.cb] }
      if timer.recurring then
        let s ← s.writeNext t (now + timer.ms)
        return s.insert t
      else return s.write t fun timer => { timer with cb := none }

/-- The timers that `listExpiredCb` takes out: up to `lower_bound` of a timer that
stands for the current time, and those behind with that very time. -/
def expired (s : State T A C) (now : UInt64) (probe : A) : List T :=
  let nowTimer : Timer A C := ⟨probe, false, 0, now, none⟩
  let due := s.timers.takeWhile fun t => Timer.comparator (s.timer t) (some nowTimer)
  due ++ (s.timers.drop due.length).takeWhile fun t => (s.timer t).map Timer.next = some now

/-- The callbacks are those that the history gains. -/
def listExpiredCb (s : State T A C) (seenEmpty : Bool) (now : UInt64) (probe : A) :
    Except Fault (State T A C) :=
  if seenEmpty ∨ s.timers = [] then return s
  else
    let expired := s.expired now probe
    expired.foldlM (deliver now) { s with timers := s.timers.drop expired.length }

/-- `hasTimer`. -/
def hasTimer (s : State T A C) : Bool := !s.timers.isEmpty

/-- What a call does. -/
def call (s : State T A C) : Action T A C → Except Fault (State T A C)
  | .addTimer t address ms cb recurring now => return (s.addTimer t address ms cb recurring now).2
  | .cancle t => return (← s.cancle t).2
  | .refresh t now => return (← s.refresh t now).2
  | .reset t ms fromNow seen now => return (← s.reset t ms fromNow seen now).2.2
  | .getNextTimer now => return (s.getNextTimer now).2
  | .listExpiredCb seenEmpty now probe => s.listExpiredCb seenEmpty now probe
  | .release t => return { s with held := s.held.erase t }

/-- A caller holds the timer it calls, and a new timer is at an address of its own. -/
def Enabled (s : State T A C) : Action T A C → Prop
  | .addTimer t address _ _ _ _ =>
      (s.timer t).isNone = true ∧
        ∀ u ∈ s.held ++ s.timers, (s.timer u).map Timer.address ≠ some address
  | .cancle t | .refresh t _ | .reset t _ _ _ _ | .release t => t ∈ s.held
  | .getNextTimer _ => True
  | .listExpiredCb _ _ probe =>
      ∀ u ∈ s.held ++ s.timers, (s.timer u).map Timer.address ≠ some probe

instance (s : State T A C) (action : Action T A C) : Decidable (s.Enabled action) := by
  cases action <;> unfold Enabled <;> infer_instance

/-- A step; a fault ends the run. -/
def step (s : State T A C) (action : Action T A C) : Option (State T A C) :=
  if s.Enabled action then (s.call action).toOption else none

/-- No timers. -/
def initial : State T A C where
  timer _ := none
  held := []
  timers := []
  tickled := false
  history := []

end State

end TimerManager

end Sylar
