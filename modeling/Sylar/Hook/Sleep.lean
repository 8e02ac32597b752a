import Mathlib.Algebra.Group.Nat.Defs
import Mathlib.Algebra.Ring.Int.Defs
import Sylar.Timer.Model

/-!
# Hooked sleeps

`sleep`, `usleep` and `nanosleep` of `hook.cpp`: each arms a timer whose callback
schedules the fiber again, and yields. `sleep` multiplies in 32 bits, `nanosleep`
keeps its milliseconds in an `int`.
-/

namespace Sylar.Hook

section Model

variable {T A C : Type} [DecidableEq T] [LinearOrder A]

/-- `sleep`: the state with its timer `t`, or `none` where the original function is
called. `schedule` is the bound callback. -/
def sleep (t_hook_enable : Bool) (s : TimerManager.State T A C) (t : T) (address : A)
    (schedule : C) (now : UInt64) (seconds : UInt32) : Option (TimerManager.State T A C) :=
  if !t_hook_enable then none
  else some (s.addTimer t address (seconds * 1000).toUInt64 schedule false now).2

/-- `usleep`. -/
def usleep (t_hook_enable : Bool) (s : TimerManager.State T A C) (t : T) (address : A)
    (schedule : C) (now : UInt64) (usec : UInt32) : Option (TimerManager.State T A C) :=
  if !t_hook_enable then none
  else some (s.addTimer t address (usec / 1000).toUInt64 schedule false now).2

/-- `struct timespec`. -/
structure Timespec where
  tv_sec : Int64
  tv_nsec : Int64
  deriving DecidableEq

/-- `nanosleep`. -/
def nanosleep (t_hook_enable : Bool) (s : TimerManager.State T A C) (t : T) (address : A)
    (schedule : C) (now : UInt64) (req : Timespec) : Option (TimerManager.State T A C) :=
  if !t_hook_enable then none
  else
    let timeout_ms : Int32 := (req.tv_sec * 1000 + req.tv_nsec / 1000 / 1000).toInt32
    some (s.addTimer t address timeout_ms.toInt64.toUInt64 schedule false now).2

/-- A call of one of the functions. -/
inductive Request where
  | sleep (seconds : UInt32)
  | usleep (usec : UInt32)
  | nanosleep (req : Timespec)
  deriving DecidableEq

/-- The call, with hooks enabled. -/
def Request.call (request : Request) (s : TimerManager.State T A C) (t : T) (address : A)
    (schedule : C) (now : UInt64) : Option (TimerManager.State T A C) :=
  match request with
  | .sleep seconds => Hook.sleep true s t address schedule now seconds
  | .usleep usec => Hook.usleep true s t address schedule now usec
  | .nanosleep req => Hook.nanosleep true s t address schedule now req

/-- The requested duration, in whole milliseconds. -/
def Request.duration : Request → Nat
  | .sleep seconds => seconds.toNat * 1000
  | .usleep usec => usec.toNat / 1000
  | .nanosleep req => req.tv_sec.toInt.toNat * 1000 + req.tv_nsec.toInt.toNat / 1000000

/-- A `timespec` is a time of at most `2 ^ 40` seconds. -/
def Request.Admitted : Request → Prop
  | .sleep _ => True
  | .usleep _ => True
  | .nanosleep req =>
      0 ≤ req.tv_sec.toInt ∧ req.tv_sec.toInt ≤ 2 ^ 40 ∧
        0 ≤ req.tv_nsec.toInt ∧ req.tv_nsec.toInt ≤ 999999999

/-- The timer armed by the call is not due before `duration` has passed. -/
def Request.Sleeps (request : Request) (s : TimerManager.State T A C) (t : T) (address : A)
    (schedule : C) (now : UInt64) : Prop :=
  ∃ later timer, request.call s t address schedule now = some later ∧
    later.timer t = some timer ∧ now.toNat + request.duration ≤ timer.next.toNat

end Model

/-- The period with which a call arms its timer. -/
def Request.ms : Request → UInt64
  | .sleep seconds => (seconds * 1000).toUInt64
  | .usleep usec => (usec / 1000).toUInt64
  | .nanosleep req =>
      (req.tv_sec * 1000 + req.tv_nsec / 1000 / 1000).toInt32.toInt64.toUInt64

section Deadlines

variable {T A C : Type} [DecidableEq T] [LinearOrder A]

theorem timer_addTimer (s : TimerManager.State T A C) (t : T) (address : A) (ms : UInt64) (cb : C)
    (recurring : Bool) (now : UInt64) :
    (s.addTimer t address ms cb recurring now).2.timer t =
      some { address, recurring, ms, next := now + ms, cb := some cb } := by
  unfold TimerManager.State.addTimer TimerManager.State.addTimerLocked
  dsimp only
  split <;> simp [TimerManager.State.insert]

theorem sleeps_iff_ms {request : Request} (s : TimerManager.State T A C) (t : T) (address : A)
    (schedule : C) (now : UInt64) :
    request.Sleeps s t address schedule now ↔
      now.toNat + request.duration ≤ (now + request.ms).toNat := by
  have armed : request.call s t address schedule now =
      some (s.addTimer t address request.ms schedule false now).2 := by
    cases request <;> rfl
  have timer := timer_addTimer s t address request.ms schedule false now
  constructor
  · rintro ⟨later, armedTimer, returns, known, late⟩
    rw [armed] at returns
    obtain rfl := Option.some.inj returns
    rw [timer] at known
    obtain rfl := Option.some.inj known
    exact late
  · intro late
    exact ⟨_, _, armed, timer, late⟩

end Deadlines

/-- When a call sleeps long enough: the milliseconds of `sleep` fit in 32 bits, and
those of `nanosleep` in an `int`, or what is cut off leaves a negative period that
takes the deadline before the start of the clock, which is never. -/
def Request.Fits (now : UInt64) : Request → Prop
  | .sleep seconds => seconds.toNat * 1000 < 2 ^ 32
  | .usleep _ => True
  | .nanosleep req =>
      let total := req.tv_sec.toInt.toNat * 1000 + req.tv_nsec.toInt.toNat / 1000000
      total < 2 ^ 31 ∨ 2 ^ 31 ≤ total % 2 ^ 32 ∧ now.toNat + total % 2 ^ 32 < 2 ^ 32

theorem toInt_milliseconds {req : Timespec} (admitted : (Request.nanosleep req).Admitted) :
    (req.tv_sec * 1000 + req.tv_nsec / 1000 / 1000).toInt =
      ((Request.nanosleep req).duration : Int) := by
  obtain ⟨sec, secBound, nsec, nsecBound⟩ := admitted
  have thousand : (1000 : Int64).toInt = 1000 := rfl
  have micro : (req.tv_nsec / 1000).toInt = req.tv_nsec.toInt / 1000 := by
    rw [Int64.toInt_div_of_ne_right _ _ (by decide), thousand, Int.tdiv_eq_ediv_of_nonneg nsec]
  have milli : (req.tv_nsec / 1000 / 1000).toInt = req.tv_nsec.toInt / 1000000 := by
    rw [Int64.toInt_div_of_ne_right _ _ (by decide), micro, thousand,
      Int.tdiv_eq_ediv_of_nonneg (by omega)]
    omega
  have product : (req.tv_sec * 1000).toInt = req.tv_sec.toInt * 1000 := by
    rw [Int64.toInt_mul, thousand]
    exact Int.bmod_eq_of_le (by omega) (by omega)
  rw [Int64.toInt_add, product, milli, Int.bmod_eq_of_le (by omega) (by omega)]
  simp only [Request.duration]
  omega

/-- A negative `int` becomes a number close to `2 ^ 64`. -/
theorem toNat_toUInt64 (value : Int64) :
    (value.toUInt64.toNat : Int) = value.toInt % 2 ^ 64 := by
  have condition := BitVec.toInt_eq_toNat_cond value.toBitVec
  have bound := value.toBitVec.isLt
  change value.toInt = _ at condition
  change (value.toBitVec.toNat : Int) = _
  split at condition <;> omega

theorem toNat_ms_nanosleep {req : Timespec} (admitted : (Request.nanosleep req).Admitted) :
    let total := (Request.nanosleep req).duration
    (Request.nanosleep req).ms.toNat =
      if total % 2 ^ 32 < 2 ^ 31 then total % 2 ^ 32 else 2 ^ 64 - 2 ^ 32 + total % 2 ^ 32 := by
  intro total
  have milliseconds := toInt_milliseconds admitted
  have unsigned := toNat_toUInt64
    (req.tv_sec * 1000 + req.tv_nsec / 1000 / 1000).toInt32.toInt64
  rw [Int32.toInt_toInt64, Int64.toInt_toInt32, milliseconds, Int.bmod_def] at unsigned
  change ((Request.nanosleep req).ms.toNat : Int) = _ at unsigned
  change _ = ite _ _ _
  split at unsigned <;> split <;> omega

theorem toNat_ms_sleep (seconds : UInt32) :
    (Request.sleep seconds).ms.toNat = seconds.toNat * 1000 % 2 ^ 32 := by
  rw [Request.ms, UInt32.toNat_toUInt64, UInt32.toNat_mul]
  rfl

theorem toNat_ms_usleep (usec : UInt32) :
    (Request.usleep usec).ms.toNat = (Request.usleep usec).duration := by
  rw [Request.ms, UInt32.toNat_toUInt64, UInt32.toNat_div]
  rfl

theorem sleeps_iff {T A C : Type} [DecidableEq T] [LinearOrder A] (request : Request)
    (s : TimerManager.State T A C) (t : T) (address : A) (schedule : C) (now : UInt64)
    (clock : now.toNat < 2 ^ 62) (admitted : request.Admitted) :
    request.Sleeps s t address schedule now ↔ request.Fits now := by
  rw [sleeps_iff_ms, UInt64.toNat_add]
  cases request with
  | sleep seconds =>
      rw [toNat_ms_sleep]
      have fits : now.toNat + seconds.toNat * 1000 % 2 ^ 32 < 2 ^ 64 := by omega
      rw [Nat.mod_eq_of_lt fits]
      change now.toNat + seconds.toNat * 1000 ≤ _ ↔ seconds.toNat * 1000 < 2 ^ 32
      omega
  | usleep usec =>
      rw [toNat_ms_usleep]
      have bound := usec.toNat_lt
      have duration : (Request.usleep usec).duration = usec.toNat / 1000 := rfl
      rw [duration]
      exact iff_of_true (by omega) trivial
  | nanosleep req =>
      rw [toNat_ms_nanosleep admitted]
      obtain ⟨sec, secBound, nsec, nsecBound⟩ := admitted
      have duration : (Request.nanosleep req).duration =
        req.tv_sec.toInt.toNat * 1000 + req.tv_nsec.toInt.toNat / 1000000 := rfl
      have bound : (Request.nanosleep req).duration < 2 ^ 51 := by omega
      have fits : (Request.nanosleep req).Fits now ↔
          (Request.nanosleep req).duration < 2 ^ 31 ∨
            2 ^ 31 ≤ (Request.nanosleep req).duration % 2 ^ 32 ∧
              now.toNat + (Request.nanosleep req).duration % 2 ^ 32 < 2 ^ 32 := Iff.rfl
      rw [fits]
      split <;> omega

theorem sleeps_iff_day :
    (Request.sleep 86400).Sleeps (T := Nat) (A := Nat) (C := Unit)
        { timer := fun _ => none, held := [], timers := [], tickled := false, history := [] }
        0 0 () 1000 ↔
      (Request.sleep 86400).Fits 1000 :=
  sleeps_iff _ _ _ _ _ _ (by decide) trivial

/-- `sleep(4294968)`, for 50 days, is due after 704 milliseconds. -/
theorem sleep_wraps :
    ¬∀ (request : Request) (s : TimerManager.State Nat Nat Unit) (t address : Nat) (now : UInt64),
      now.toNat < 2 ^ 62 → request.Admitted → request.Sleeps s t address () now := by
  intro sleeps
  have early := sleeps (.sleep 4294968)
    { timer := fun _ => none, held := [], timers := [], tickled := false, history := [] }
    0 0 0 (by decide) trivial
  rw [sleeps_iff_ms] at early
  exact absurd early (by decide)

end Sylar.Hook
