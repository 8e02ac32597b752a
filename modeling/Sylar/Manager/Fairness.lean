import Sylar.Library.Progress
import Sylar.Manager.Steps

/-!
# The queue is served in turn

`run` takes the first entry from the front that the thread may run, and what is
scheduled goes to the end. An entry is passed by those in front of it alone, and
each scan that could have taken it takes it or shortens what is in front.
-/

namespace Sylar.Manager

open Library

set_option linter.unusedSectionVars false

variable {F C W T A : Type} [DecidableEq F] [DecidableEq C] [DecidableEq W] [DecidableEq T]
  [LinearOrder A]

namespace Shared

/-- The thread `w` may take the entry: it is for this thread or any, and no fiber that
runs. -/
def mayTake (s : Shared F C W T A) (w : W) (entry : FiberAndThread F C W) : Bool :=
  (entry.thread = none ∨ entry.thread = some w) && !s.executing entry

/-- The scan took the entry between `ahead` and `behind`. -/
structure Takes (s : Shared F C W T A) (w : W) (entry : FiberAndThread F C W)
    (ahead behind : List (FiberAndThread F C W)) : Prop where
  found : (s.scanList w (ahead ++ entry :: behind)).found = some entry
  left : (s.scanList w (ahead ++ entry :: behind)).left = ahead ++ behind

/-- The scan passed the entry, and left no more in front of it than there was. -/
def Passes (s : Shared F C W T A) (w : W) (entry : FiberAndThread F C W)
    (ahead behind : List (FiberAndThread F C W)) : Prop :=
  ∃ ahead' behind', (s.scanList w (ahead ++ entry :: behind)).left = ahead' ++ entry :: behind' ∧
    ahead'.Sublist ahead ∧ (s.mayTake w entry = true → ahead'.length < ahead.length)

section Scan

variable (s : Shared F C W T A) (w : W) (entry : FiberAndThread F C W)
  (behind : List (FiberAndThread F C W))

theorem scanList_of_mayTake (may : s.mayTake w entry = true) :
    s.scanList w (entry :: behind) = ⟨some entry, !behind.isEmpty, behind⟩ := by
  simp only [mayTake, Bool.and_eq_true, decide_eq_true_eq, Bool.not_eq_true'] at may
  obtain ⟨suits, rests⟩ := may
  have mine : ¬(entry.thread ≠ none ∧ entry.thread ≠ some w) := by tauto
  rw [scanList, if_neg mine, if_neg (by simp [rests])]

theorem scanList_of_not_mayTake (may : s.mayTake w entry = false) :
    (s.scanList w (entry :: behind)).found = (s.scanList w behind).found ∧
      (s.scanList w (entry :: behind)).left = entry :: (s.scanList w behind).left := by
  by_cases others : entry.thread ≠ none ∧ entry.thread ≠ some w
  · rw [scanList, if_pos others]
    exact ⟨rfl, rfl⟩
  · have suits : entry.thread = none ∨ entry.thread = some w := by tauto
    simp only [mayTake, suits, decide_true, Bool.true_and, Bool.not_eq_false'] at may
    rw [scanList, if_neg others, if_pos may]
    exact ⟨rfl, rfl⟩

/-- A scan takes an entry of the queue or passes it. -/
theorem takes_or_passes (ahead : List (FiberAndThread F C W)) :
    s.Takes w entry ahead behind ∨ s.Passes w entry ahead behind := by
  induction ahead with
  | nil =>
      cases may : s.mayTake w entry with
      | true =>
          have scanned := s.scanList_of_mayTake w entry behind may
          refine .inl ⟨?_, ?_⟩
          · rw [List.nil_append, scanned]
          · rw [List.nil_append, scanned]
            rfl
      | false =>
          obtain ⟨-, left⟩ := s.scanList_of_not_mayTake w entry behind may
          exact .inr ⟨[], _, left, List.Sublist.refl [], fun may' => absurd (may.symm.trans may')
            Bool.false_ne_true⟩
  | cons first rest inductionHypothesis =>
      cases may : s.mayTake w first with
      | true =>
          -- The first entry is taken, and all behind it is left.
          have scanned := s.scanList_of_mayTake w first (rest ++ entry :: behind) may
          refine .inr ⟨rest, behind, ?_, List.sublist_cons_self first rest, fun _ => ?_⟩
          · rw [List.cons_append, scanned]
          · exact Nat.lt_succ_self rest.length
      | false =>
          obtain ⟨found, left⟩ := s.scanList_of_not_mayTake w first (rest ++ entry :: behind) may
          rcases inductionHypothesis with takes | ⟨ahead', behind', passed, kept, shorter⟩
          · refine .inl ⟨?_, ?_⟩
            · rw [List.cons_append, found, takes.found]
            · rw [List.cons_append, left, takes.left, List.cons_append]
          · refine .inr ⟨first :: ahead', behind', ?_, kept.cons_cons first, fun may' => ?_⟩
            · rw [List.cons_append, left, passed, List.cons_append]
            · exact Nat.succ_lt_succ (shorter may')

end Scan

end Shared

/-- A call only adds to the end of the queue. -/
theorem Calls.queue {s next : Shared F C W T A} {self : Option F} {call : Call F C W T A}
    {wanted : Bool} (calls : Calls s self call wanted next) :
    ∃ added, next.fibers = s.fibers ++ added := by
  cases calls with
  | @schedule entry =>
      obtain ⟨created, asked, same⟩ := s.ask_eq entry
      rw [same]
      exact ⟨_, rfl⟩
  | @scheduleAll tasks =>
      obtain ⟨created, asked, same⟩ := s.askAll_eq tasks
      rw [same]
      exact ⟨_, rfl⟩
  | cancleEvent => exact ⟨_, rfl⟩
  | timer | addEvent | addEventFails | delEvent => exact ⟨[], (List.append_nil _).symm⟩

/-- A step of a worker other than the scan only adds to the end of the queue. -/
theorem Performs.queue {s next : Shared F C W T A} {w : W} {worker after : Worker F C W}
    {move : Move F C W T A} (performs : Performs s w worker move next after)
    (other : move ≠ .scan) : ∃ added, next.fibers = s.fibers ++ added := by
  cases performs with
  | scan scanned => exact absurd rfl other
  | call called => exact (Shared.calls_of_call called).queue
  | requeue | scheduleExpired | trigger => exact ⟨_, rfl⟩
  | rest idle rests kept =>
      rcases rests with rfl | ⟨state, _, rfl⟩
      · exact ⟨[], (List.append_nil _).symm⟩
      · exact ⟨[], (List.append_nil _).symm⟩
  | _ => exact ⟨[], (List.append_nil _).symm⟩

theorem Performs.scan_left {s next : Shared F C W T A} {w : W} {worker after : Worker F C W}
    (performs : Performs s w worker .scan next after) :
    next.fibers = (s.scanList w s.fibers).left := by
  cases performs with
  | scan scanned =>
      subst scanned
      rfl

namespace State

variable [Fintype W] {s next : State F C W T A} {action : Action F C W T A}

/-- A step takes an entry by a scan, or changes the queue behind the entry and shortens
what is in front of it. -/
theorem queue_of_step (taken : s.step action = some next) :
    (∃ w, action = .worker w .scan ∧
        next.shared.fibers = (s.shared.scanList w s.shared.fibers).left) ∨
      (∀ w, action ≠ .worker w .scan) ∧ ∃ added, next.shared.fibers = s.shared.fibers ++ added := by
  cases steps_of_step taken with
  | @worker w move shared worker performs =>
      by_cases scans : move = .scan
      · subst scans
        exact .inl ⟨w, rfl, performs.scan_left⟩
      · refine .inr ⟨?_, performs.queue scans⟩
        rintro v ⟨⟩
        exact scans rfl
  | outside calls => exact .inr ⟨nofun, calls.queue⟩
  | stopper tickles stops =>
      refine .inr ⟨?_, [], (List.append_nil _).symm⟩
      rintro v rfl
      rcases stops with stops | stops
      · cases stops
      · cases stops
  | _ => exact .inr ⟨nofun, [], (List.append_nil _).symm⟩

/-- A worker that may take the entry scans the queue. -/
def Offered (entry : FiberAndThread F C W) (s : State F C W T A) : Action F C W T A → Prop
  | .worker w .scan => s.shared.mayTake w entry = true
  | _ => False

instance (entry : FiberAndThread F C W) (s : State F C W T A) (action : Action F C W T A) :
    Decidable (s.Offered entry action) := by
  unfold Offered
  split <;> infer_instance

/-- The entry is in the queue behind `rank` of the entries in `first`, and no others. -/
def Waits (entry : FiberAndThread F C W) (first : List (FiberAndThread F C W)) (rank : Nat)
    (s : State F C W T A) : Prop :=
  ∃ ahead behind, s.shared.fibers = ahead ++ entry :: behind ∧ ahead.Sublist first ∧
    ahead.length = rank

/-- A worker takes the entry, and what is in front of it is left of `first`. -/
def Dequeues (entry : FiberAndThread F C W) (first : List (FiberAndThread F C W))
    (s : State F C W T A) (action : Action F C W T A) (next : State F C W T A) : Prop :=
  ∃ w ahead behind, action = .worker w .scan ∧ s.shared.fibers = ahead ++ entry :: behind ∧
    ahead.Sublist first ∧ (s.shared.scanList w s.shared.fibers).found = some entry ∧
    next.shared.fibers = ahead ++ behind

theorem Waits.step {entry : FiberAndThread F C W} {first : List (FiberAndThread F C W)} {rank : Nat}
    (waits : s.Waits entry first rank) (taken : s.step action = some next) :
    Dequeues entry first s action next ∨
      ∃ lower, lower + (if s.Offered entry action then 1 else 0) ≤ rank ∧
        next.Waits entry first lower := by
  obtain ⟨ahead, behind, queue, kept, rfl⟩ := waits
  rcases queue_of_step taken with ⟨w, rfl, left⟩ | ⟨other, added, queue'⟩
  · rcases s.shared.takes_or_passes w entry behind ahead with takes | passes
    · refine .inl ⟨w, ahead, behind, rfl, queue, kept, ?_, ?_⟩
      · rw [queue]
        exact takes.found
      · rw [left, queue]
        exact takes.left
    · obtain ⟨ahead', behind', passed, fewer, shorter⟩ := passes
      refine .inr ⟨ahead'.length, ?_, ahead', behind', ?_, fewer.trans kept, rfl⟩
      · split
        · rename_i offered
          exact shorter offered
        · exact fewer.length_le
      · rw [left, queue]
        exact passed
  · have unoffered : ¬s.Offered entry action := by
      unfold Offered
      split
      · exact absurd rfl (other _)
      · exact not_false
    refine .inr ⟨ahead.length, ?_, ahead, behind ++ added, ?_, kept, rfl⟩
    · rw [if_neg unoffered]
      exact le_rfl
    · rw [queue', queue, List.append_assoc, List.cons_append]

/-- No entry of the queue is passed for ever. In every run, whatever the threads do in
between, an entry is taken before workers that could have taken it have scanned the queue
more often than there were entries in front of it, and nothing scheduled later gets in
front. -/
theorem dequeued_in_turn {entry : FiberAndThread F C W} {ahead behind : List (FiberAndThread F C W)}
    (queue : s.shared.fibers = ahead ++ entry :: behind) {actions : List (Action F C W T A)}
    (often : ahead.length < occurrences step (Offered entry) s actions) :
    ∃ before action after last next, actions = before ++ action :: after ∧
      exec step s before = some last ∧ step last action = some next ∧
      occurrences step (Offered entry) s before ≤ ahead.length ∧
      Dequeues entry ahead last action next := by
  have waits : s.Waits entry ahead ahead.length := ⟨ahead, behind, queue, List.Sublist.refl _, rfl⟩
  obtain ⟨before, action, after, last, next, lower, split, reached, taken, -, below, dequeues⟩ :=
    exists_end (fun rank s => s.Waits entry ahead rank) Waits.step waits often
  exact ⟨before, action, after, last, next, split, reached, taken, by omega, dequeues⟩

/-- Two callbacks wait for two workers. -/
def twoWaiting : State (Fin 1) (Fin 2) (Fin 2) (Fin 1) (Fin 1) :=
  let empty : State (Fin 1) (Fin 2) (Fin 2) (Fin 1) (Fin 1) := initial none 0
  { empty with shared := empty.shared.push [⟨some (.cb 0), none⟩, ⟨some (.cb 1), none⟩] }

theorem dequeued_in_turn_twoWaiting : ∃ before action after last next,
    [.worker 1 .scan, .worker 0 .scan] = before ++ action :: after ∧
      exec step twoWaiting before = some last ∧ step last action = some next ∧
      occurrences step (Offered ⟨some (.cb 1), none⟩) twoWaiting before ≤ 1 ∧
      Dequeues ⟨some (.cb 1), none⟩ [⟨some (.cb 0), none⟩] last action next := by
  have queue : twoWaiting.shared.fibers = [⟨some (.cb 0), none⟩] ++ ⟨some (.cb 1), none⟩ :: [] := rfl
  exact dequeued_in_turn queue (by decide)

end State

end Sylar.Manager
