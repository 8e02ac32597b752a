import Sylar.Manager.TimerWakeups

/-!
# Timeouts of idle waits

The loop around `epoll_wait` in `IOManager::idle`, which begins again when it is interrupted.
The time to the next timer is converted to `int` for the comparison with `MAX_TIMEOUT` and for
the call, where its upper half is lost.
-/

namespace Sylar.Manager

open Library

set_option linter.unusedSectionVars false

variable {T A C : Type} [DecidableEq T] [LinearOrder A]

section Model

/-- What `epoll_wait` returns, and `errno` after it. -/
structure EpollResult where
  rt : ℤ
  errno : ℤ
deriving DecidableEq, Repr

/-- `EINTR`. -/
def eintr : ℤ := 4

/-- The timeouts that `epoll_wait` is called with, one for each of its results. -/
def epollTimeouts (next_timeout : UInt64) : List EpollResult → List ℤ
  | [] => []
  | result :: results =>
      let next_timeout := clampTimeout next_timeout
      toInt next_timeout ::
        if result.rt < 0 ∧ result.errno = eintr then epollTimeouts next_timeout results else []

/-- A round of `idle` up to the end of its wait. -/
def idleTimeouts (timers : TimerManager.State T A C) (now : UInt64) (pendingEventCount : Nat)
    (schedulerStopping : Bool) (results : List EpollResult) : List ℤ :=
  let next_timeout := (timers.getNextTimer now).1
  -- `IOManager::stopping(uint64_t&)`
  if next_timeout = ~~~0 ∧ pendingEventCount = 0 ∧ schedulerStopping then []
  else epollTimeouts next_timeout results

end Model

/-- Every wait of a round of `idle` is bounded by 3000 and by the time to the next timer. -/
def WaitsBounded (timers : TimerManager.State T A C) (now : UInt64) : Prop :=
  ∀ pendingEventCount schedulerStopping results,
    ∀ timeout ∈ idleTimeouts timers now pendingEventCount schedulerStopping results,
      0 ≤ timeout ∧ timeout ≤ 3000 ∧
        (timers.timers ≠ [] → timeout ≤ (timers.getNextTimer now).1.toNat)

/-- The time to the first timer is not negative as an `int`, or is taken for that of no
timer. -/
def FirstFits (timers : TimerManager.State T A C) (now : UInt64) : Prop :=
  ∀ first, timers.timers.head?.bind timers.timer = some first →
    (first.next.toNat - now.toNat) % 2 ^ 32 < 2 ^ 31 ∨
      first.next.toNat - now.toNat = 2 ^ 64 - 1

variable {timers : TimerManager.State T A C} {now next : UInt64}

/-- The conversion keeps the lower half, with a sign. -/
theorem toInt_eq (timeout : UInt64) :
    toInt timeout = if timeout.toNat % 2 ^ 32 < 2 ^ 31 then (timeout.toNat % 2 ^ 32 : ℤ)
      else (timeout.toNat % 2 ^ 32 : ℤ) - 2 ^ 32 := by
  have narrow : timeout.toUInt32.toBitVec.toNat = timeout.toNat % 2 ^ 32 :=
    timeout.toNat_toUInt32
  have signed : toInt timeout = timeout.toUInt32.toBitVec.toInt := rfl
  rw [signed, BitVec.toInt_eq_toNat_cond, narrow]
  split <;> split <;> omega

/-- What a wait is called with, for a time to the next timer that is not negative. -/
theorem toInt_clampTimeout (fits : next = ~~~0 ∨ 0 ≤ toInt next) :
    0 ≤ toInt (clampTimeout next) ∧ toInt (clampTimeout next) ≤ 3000 ∧
      toInt (clampTimeout next) ≤ next.toNat := by
  have whole : toInt maxTimeout = 3000 := by decide
  have below := toInt_le next
  unfold clampTimeout
  split
  · rename_i timed
    have positive := fits.resolve_left timed
    split
    · omega
    · omega
  · rename_i last
    have largest : (~~~0 : UInt64).toNat = 2 ^ 64 - 1 := by decide
    rw [not_not.mp last] at below ⊢
    omega

/-- A time to the next timer that is negative is passed on. -/
theorem toInt_clampTimeout_neg (timed : next ≠ ~~~0) (negative : toInt next < 0) :
    toInt (clampTimeout next) < 0 := by
  unfold clampTimeout
  rw [if_pos timed, if_neg (by omega)]
  exact negative

/-- An interrupted wait is called again with the same timeout. -/
theorem epollTimeouts_all (next : UInt64) (results : List EpollResult) :
    ∀ timeout ∈ epollTimeouts next results, timeout = toInt (clampTimeout next) := by
  induction results generalizing next with
  | nil => exact fun _ member => absurd member List.not_mem_nil
  | cons result results inductionHypothesis =>
      intro timeout member
      rcases List.mem_cons.mp member with rfl | later
      · rfl
      · split at later
        · rw [inductionHypothesis _ timeout later, clampTimeout_clampTimeout]
        · cases later

theorem getNextTimer_of_none (none : timers.timers.head?.bind timers.timer = none) :
    (timers.getNextTimer now).1 = ~~~0 := by
  simp only [TimerManager.State.getNextTimer]
  rw [none]

/-- The condition in terms of what `getNextTimer` tells. -/
theorem firstFits_iff :
    FirstFits timers now ↔
      ((timers.getNextTimer now).1 = ~~~0 ∨ 0 ≤ toInt (timers.getNextTimer now).1) := by
  cases head : timers.timers.head?.bind timers.timer with
  | none =>
      refine iff_of_true (fun first known => ?_) (.inl (getNextTimer_of_none head))
      rw [head] at known
      cases known
  | some first =>
      have exact' := TimerManager.State.getNextTimer_toNat head now
      have largest : (timers.getNextTimer now).1 = ~~~0 ↔
          first.next.toNat - now.toNat = 2 ^ 64 - 1 := by
        rw [← exact', ← UInt64.toNat_inj]
        exact Iff.rfl
      have signed : 0 ≤ toInt (timers.getNextTimer now).1 ↔
          (first.next.toNat - now.toNat) % 2 ^ 32 < 2 ^ 31 := by
        rw [toInt_eq, exact']
        split <;> omega
      rw [largest, signed, FirstFits, head, or_comm]
      simp

/-- The waits are bounded if and only if the time to the first timer fits. -/
theorem waitsBounded_iff (timers : TimerManager.State T A C) (now : UInt64) :
    WaitsBounded timers now ↔ FirstFits timers now := by
  rw [firstFits_iff]
  constructor
  · intro bounded
    by_contra unfit
    push Not at unfit
    have waits : idleTimeouts timers now 0 false [⟨0, 0⟩] =
        [toInt (clampTimeout (timers.getNextTimer now).1)] := by
      rw [idleTimeouts, if_neg (fun stops => unfit.1 stops.1)]
      rfl
    have wait := bounded 0 false [⟨0, 0⟩] _ (waits ▸ List.mem_singleton_self _)
    exact absurd wait.1 (not_le.mpr (toInt_clampTimeout_neg unfit.1 unfit.2))
  · intro fits pendingEventCount schedulerStopping results timeout member
    rw [idleTimeouts] at member
    split at member
    · cases member
    · obtain ⟨positive, bounded, inTime⟩ := toInt_clampTimeout fits
      rw [epollTimeouts_all _ _ timeout member]
      exact ⟨positive, bounded, fun _ => inTime⟩

/-- A timer set for 2^31 milliseconds, some 25 days. -/
theorem not_waitsBounded_days :
    ¬ WaitsBounded (T := Nat) (A := Nat) (C := Nat)
      (TimerManager.State.initial.addTimer 0 0 (2 ^ 31) 0 false 1700000000000).2 1700000000000 := by
  intro bounded
  have wait := bounded 0 false [⟨0, 0⟩] (-2 ^ 31) (by decide +kernel)
  exact absurd wait.1 (by decide)

end Sylar.Manager
