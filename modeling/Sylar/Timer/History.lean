import Sylar.Timer.Model

/-!
# What calls add to the history of timers

A call only adds to the history, and callbacks are handed out by `listExpiredCb`
alone.
-/

namespace Sylar.TimerManager

open Library

set_option linter.unusedSectionVars false

variable {T A C : Type} [DecidableEq T] [LinearOrder A]

/-- The callback that `listExpiredCb` handed out. -/
def Mark.handedCb : Mark T C → Option (Option C)
  | .handed _ cb => some cb
  | .cancled _ => none

/-- The two steps that a result comes from. -/
theorem of_bind_ok {α β : Type} {first : Except Fault α} {second : α → Except Fault β} {result : β}
    (ran : first >>= second = .ok result) :
    ∃ middle, first = .ok middle ∧ second middle = .ok result := by
  cases first with
  | error fault => cases ran
  | ok middle => exact ⟨middle, rfl, ran⟩

namespace State

variable {s next : State T A C} {t : T}

theorem history_writeNext {deadline : UInt64} (written : s.writeNext t deadline = .ok next) :
    next.history = s.history := by
  unfold writeNext at written
  split at written
  · cases written
  · cases written
    rfl

theorem history_erase {it : Option T} (erased : s.erase it = .ok next) :
    next.history = s.history := by
  cases it with
  | none => cases erased
  | some u =>
      cases erased
      rfl

theorem history_lock (s : State T A C) (t : T) : (s.addTimerLocked t).2.history = s.history := by
  simp only [addTimerLocked]
  split <;> rfl

theorem handed_cancle {answer : Bool} (ran : s.cancle t = .ok (answer, next)) :
    next.history.filterMap Mark.handedCb = s.history.filterMap Mark.handedCb := by
  unfold cancle at ran
  split at ran
  · obtain ⟨erased, erases, result⟩ := of_bind_ok ran
    cases result
    have kept := history_erase erases
    show (erased.history ++ [_]).filterMap Mark.handedCb = _
    rw [kept, List.filterMap_append]
    exact List.append_nil _
  · cases ran
    rfl

theorem history_refresh {now : UInt64} {answer : Bool} (ran : s.refresh t now = .ok (answer, next)) :
    next.history = s.history := by
  unfold refresh at ran
  split at ran
  · cases ran
  · split at ran
    · cases ran
      rfl
    · split at ran
      · cases ran
        rfl
      · obtain ⟨erased, erases, ran⟩ := of_bind_ok ran
        obtain ⟨written, writes, ran⟩ := of_bind_ok ran
        cases ran
        exact (history_writeNext writes).trans (history_erase erases)

theorem history_reset {ms seen now : UInt64} {fromNow : Bool} {answer : Bool × Bool × State T A C}
    (ran : s.reset t ms fromNow seen now = .ok answer) : answer.2.2.history = s.history := by
  unfold reset at ran
  split at ran
  · cases ran
    rfl
  · split at ran
    · cases ran
    · split at ran
      · cases ran
        rfl
      · split at ran
        · cases ran
          rfl
        · obtain ⟨erased, erases, ran⟩ := of_bind_ok ran
          obtain ⟨written, writes, ran⟩ := of_bind_ok ran
          cases ran
          have changed := history_writeNext writes
          have kept := history_erase erases
          exact (history_lock written t).trans (changed.trans kept)

theorem history_getNextTimer (s : State T A C) (now : UInt64) :
    (s.getNextTimer now).2.history = s.history := by
  simp only [getNextTimer]
  split <;> rfl

theorem history_deliver {now : UInt64} (delivered : s.deliver now t = .ok next) :
    ∃ mark, next.history = s.history ++ [mark] := by
  unfold deliver at delivered
  split at delivered
  · cases delivered
  · rename_i timer known
    split at delivered
    · obtain ⟨written, writes, delivered⟩ := of_bind_ok delivered
      cases delivered
      exact ⟨.handed t timer.cb, history_writeNext writes⟩
    · cases delivered
      exact ⟨.handed t timer.cb, rfl⟩

theorem history_deliverAll {now : UInt64} {due : List T}
    (delivered : due.foldlM (deliver now) s = .ok next) :
    ∃ marks, next.history = s.history ++ marks := by
  induction due generalizing s with
  | nil =>
      cases delivered
      exact ⟨[], (List.append_nil _).symm⟩
  | cons t rest inductionHypothesis =>
      rw [List.foldlM_cons] at delivered
      obtain ⟨middle, first, others⟩ := of_bind_ok delivered
      obtain ⟨mark, marked⟩ := history_deliver first
      obtain ⟨marks, history⟩ := inductionHypothesis others
      refine ⟨mark :: marks, ?_⟩
      rw [history, marked, List.append_assoc, List.singleton_append]

/-- `listExpiredCb` only adds to the history. -/
theorem history_listExpiredCb {seenEmpty : Bool} {now : UInt64} {probe : A}
    (listed : s.listExpiredCb seenEmpty now probe = .ok next) :
    ∃ marks, next.history = s.history ++ marks := by
  unfold listExpiredCb at listed
  split at listed
  · cases listed
    exact ⟨[], (List.append_nil _).symm⟩
  · exact history_deliverAll (s := { s with timers := s.timers.drop _ }) listed

end State

end Sylar.TimerManager
