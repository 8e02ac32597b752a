import Sylar.Timer.Store

/-!
# The earliest deadline

What the calls of timers do to the deadline of the first timer. It becomes earlier
only when a timer is put in front, and `addTimer` and `reset` tell so unless
`m_tickled` is set.
-/

namespace Sylar.TimerManager.State

open Library

set_option linter.unusedSectionVars false

variable {T A C : Type} [DecidableEq T] [LinearOrder A] {s later : State T A C} {t : T}

/-- When the first timer expires. -/
def deadline (s : State T A C) : Option Nat :=
  (s.timers.head?.bind s.timer).map fun timer => timer.next.toNat

theorem deadline_getNextTimer (s : State T A C) (now : UInt64) :
    (s.getNextTimer now).2.deadline = s.deadline := by
  unfold getNextTimer
  dsimp only
  split <;> rfl

/-- The time to the first timer is exact. -/
theorem getNextTimer_toNat {first : Timer A C}
    (head : s.timers.head?.bind s.timer = some first) (now : UInt64) :
    (s.getNextTimer now).1.toNat = first.next.toNat - now.toNat := by
  have answer : (s.getNextTimer now).1 = if now ≥ first.next then 0 else first.next - now := by
    simp only [getNextTimer]
    rw [head]
  rw [answer]
  split
  · rename_i passed
    have before : first.next.toNat ≤ now.toNat := UInt64.le_iff_toNat_le.mp passed
    rw [Nat.sub_eq_zero_of_le before]
    rfl
  · rename_i ahead
    have later : now.toNat < first.next.toNat :=
      UInt64.lt_iff_toNat_lt.mp (UInt64.not_le.mp ahead)
    exact UInt64.toNat_sub_of_le _ _ (UInt64.le_iff_toNat_le.mpr later.le)

/-- The earliest deadline has not become earlier. -/
def Postponed (s later : State T A C) : Prop :=
  ∀ d ∈ later.deadline, ∃ e ∈ s.deadline, e ≤ d

theorem Postponed.refl (s : State T A C) : Postponed s s := fun d is => ⟨d, is, le_rfl⟩

theorem postponed_of_eq (same : later.deadline = s.deadline) : Postponed s later :=
  fun d is => ⟨d, same ▸ is, le_rfl⟩

/-- The first timer is the earliest. -/
theorem Holds.deadline_le (holds : Holds s []) {timer : Timer A C} (member : t ∈ s.timers)
    (known : s.timer t = some timer) : ∃ e ∈ s.deadline, e ≤ timer.next.toNat := by
  cases set : s.timers with
  | nil =>
      rw [set] at member
      cases member
  | cons u rest =>
      have inside : u ∈ s.timers := by
        rw [set]
        exact List.mem_cons_self
      obtain ⟨first, knownFirst⟩ :=
        Option.isSome_iff_exists.mp (hasCb_isSome ((holds.pending u).mp inside).1)
      refine ⟨first.next.toNat, by simp [deadline, set, knownFirst], ?_⟩
      have sorted := holds.sorted
      rw [set] at member sorted
      rcases List.mem_cons.mp member with rfl | behind
      · rw [known] at knownFirst
        cases knownFirst
        exact le_rfl
      · have below := (List.pairwise_cons.mp sorted).1 t behind
        simp only [less, knownFirst, known, Timer.comparator] at below
        split at below
        · rename_i earlier
          exact (UInt64.lt_iff_toNat_lt.mp earlier).le
        · split at below
          · cases below
          · rename_i notLater
            exact not_lt.mp fun above => notLater (UInt64.lt_iff_toNat_lt.mpr above)

/-- Timers that leave the set make no deadline earlier. -/
theorem Holds.postponed (holds : Holds s []) (timers : later.timers ⊆ s.timers)
    (same : ∀ u ∈ later.timers, later.timer u = s.timer u) : Postponed s later := by
  intro d is
  obtain ⟨timer, first, rfl⟩ := Option.map_eq_some_iff.mp is
  obtain ⟨u, head, known⟩ := Option.bind_eq_some_iff.mp first
  have member := List.mem_of_mem_head? (Option.mem_def.mpr head)
  rw [same u member] at known
  exact holds.deadline_le (timers member) known

/-- A timer that is inserted is the first, or the first stays so. -/
theorem deadline_insert (s : State T A C) (t : T) :
    (s.insert t).timers.head? = some t ∨ (s.insert t).deadline = s.deadline := by
  have head : (s.insert t).timers.head? = some t ∨
      (s.insert t).timers.head? = s.timers.head? := by
    simp only [State.insert, OrderedSet.insert]
    split
    · exact .inr rfl
    · cases set : s.timers with
      | nil => exact .inl rfl
      | cons u rest =>
          by_cases below : s.less u t = true
          · exact .inr (by simp [below])
          · exact .inl (by simp [below, OrderedSet.lowerBound])
  refine head.imp_right fun same => ?_
  rw [deadline, same]
  rfl

/-- `addTimer` under the lock tells of a new first timer unless `m_tickled` is set. -/
theorem Holds.deadline_addTimerLocked {out : List T} (holds : Holds s (t :: out))
    {next : UInt64} (key : (s.timer t).map Timer.next = some next) :
    (s.addTimerLocked t).1 = true ∨ (s.addTimerLocked t).2.deadline = s.deadline ∨
      s.tickled = true ∧ (s.addTimerLocked t).2.deadline = some next.toNat := by
  have same : (s.addTimerLocked t).2.deadline = (s.insert t).deadline := by
    simp only [State.addTimerLocked]
    split <;> rfl
  rw [same]
  rcases s.deadline_insert t with first | unchanged
  · have inside : t ∈ (s.insert t).timers :=
      List.mem_of_mem_head? (Option.mem_def.mpr first)
    have found := holds.insert.found inside
    cases quiet : s.tickled with
    | false =>
        refine .inl ?_
        have tickled : (s.insert t).tickled = false := quiet
        simp [State.addTimerLocked, found, first, tickled]
    | true =>
        refine .inr (.inr ⟨rfl, ?_⟩)
        obtain ⟨timer, known, rfl⟩ := Option.map_eq_some_iff.mp key
        have known : (s.insert t).timer t = some timer := known
        simp [deadline, first, known]
  · exact .inr (.inl unchanged)

/-- What a call does to the earliest deadline: it tells, or nothing gets earlier, or it puts the
deadline `k` in front and does not tell. -/
def Moves (s later : State T A C) (front : Bool) (silent : Option UInt64) : Prop :=
  front = true ∨ Postponed s later ∨ ∃ k ∈ silent, later.deadline = some k.toNat

theorem Holds.moves_addTimer (holds : Holds s []) {address : A} {ms : UInt64} {cb : C}
    {recurring : Bool} {now : UInt64}
    (enabled : s.Enabled (.addTimer t address ms cb recurring now)) :
    Moves s (s.addTimer t address ms cb recurring now).2
      (s.addTimer t address ms cb recurring now).1
      (if s.tickled then some (now + ms) else none) := by
  let timer : Timer A C := { address, recurring, ms, next := now + ms, cb := some cb }
  have made : Holds (s.construct t timer) [t] := (holds.construct enabled.1 rfl enabled.2).1
  have same : (s.construct t timer).deadline = s.deadline := by
    have old : ∀ u ∈ s.timers, u ≠ t := by
      rintro u member rfl
      have known := hasCb_isSome ((holds.pending u).mp member).1
      rw [Option.isNone_iff_eq_none.mp enabled.1] at known
      cases known
    unfold deadline
    congr 1
    refine Option.bind_congr fun u head => ?_
    exact construct_of_ne s timer (old u (List.mem_of_mem_head? (Option.mem_def.mpr head)))
  rcases made.deadline_addTimerLocked (congrArg _ (s.construct_self t timer)) with
    told | unchanged | ⟨quiet, first⟩
  · exact .inl told
  · exact .inr (.inl (postponed_of_eq (unchanged.trans same)))
  · have quiet : s.tickled = true := quiet
    exact .inr (.inr ⟨now + ms, by simp [quiet], first⟩)

theorem TakenOut.postponed (holds : Holds s []) {next : UInt64} (out : TakenOut s t next later) :
    Postponed s later := by
  refine holds.postponed ?_ fun u inside => out.others u ?_
  · rw [out.timers]
    exact List.erase_subset
  · rintro rfl
    rw [out.timers] at inside
    exact (holds.sorted.nodup s.compares).not_mem_erase inside

theorem TakenOut.moves_insert (holds : Holds s []) {next : UInt64}
    (out : TakenOut s t next later) : Moves s (later.insert t) false (some next) := by
  rcases later.deadline_insert t with first | unchanged
  · obtain ⟨timer, known, key⟩ := Option.map_eq_some_iff.mp out.key
    have known : (later.insert t).timer t = some timer := known
    exact .inr (.inr ⟨next, rfl, by simp [deadline, first, known, key]⟩)
  · refine .inr (.inl fun d is => ?_)
    rw [unchanged] at is
    exact out.postponed holds d is

theorem TakenOut.moves_addTimerLocked (holds : Holds s []) {next : UInt64}
    (out : TakenOut s t next later) (ready : Holds later [t]) :
    Moves s (later.addTimerLocked t).2 (later.addTimerLocked t).1
      (if s.tickled then some next else none) := by
  rcases ready.deadline_addTimerLocked out.key with told | unchanged | ⟨quiet, first⟩
  · exact .inl told
  · refine .inr (.inl fun d is => ?_)
    rw [unchanged] at is
    exact out.postponed holds d is
  · rw [out.tickled] at quiet
    exact .inr (.inr ⟨next, by simp [quiet], first⟩)

/-- The deadline of a timer that a call may put in front without telling. -/
def silentDeadline (s : State T A C) : Action T A C → Option UInt64
  | .addTimer _ _ ms _ _ now => if s.tickled then some (now + ms) else none
  | .reset t ms fromNow seen now =>
      if ¬(ms = seen ∧ !fromNow) ∧ t ∈ s.timers ∧ s.tickled = true then
        (s.timer t).map fun timer => (if fromNow then now else timer.next - timer.ms) + ms
      else none
  | .refresh t now =>
      if t ∈ s.timers then (s.timer t).map fun timer => now + timer.ms else none
  | _ => none

theorem Holds.moves_refresh (holds : Holds s []) {now : UInt64} {answer : Bool}
    (isHeld : t ∈ s.held) (ran : s.refresh t now = .ok (answer, later)) :
    Moves s later false (s.silentDeadline (.refresh t now)) := by
  cases has : s.hasCb t with
  | false =>
      rw [refresh_spent (holds.known t isHeld) has] at ran
      cases ran
      exact .inr (.inl (Postponed.refl s))
  | true =>
      obtain ⟨timer, out, known, refreshed, _, takenOut, _⟩ := holds.refresh has now
      rw [refreshed] at ran
      cases ran
      have member := (holds.pending t).mpr ⟨has, List.not_mem_nil⟩
      have silent : s.silentDeadline (.refresh t now) = some (now + timer.ms) := by
        simp [silentDeadline, member, known]
      rw [silent]
      exact takenOut.moves_insert holds

theorem Holds.moves_reset (holds : Holds s []) {ms seen now : UInt64} {fromNow answer front : Bool}
    (isHeld : t ∈ s.held) (ran : s.reset t ms fromNow seen now = .ok (answer, front, later)) :
    Moves s later front (s.silentDeadline (.reset t ms fromNow seen now)) := by
  rcases holds.reset (holds.known t isHeld) ms fromNow seen now with
    ⟨_, unchanged⟩ | ⟨timer, out, known, changes, member, changed, ready, takenOut, _⟩
  · rw [unchanged] at ran
    cases ran
    exact .inr (.inl (Postponed.refl s))
  · rw [changed] at ran
    cases ran
    have silent : s.silentDeadline (.reset t ms fromNow seen now) = if s.tickled then
        some ((if fromNow then now else timer.next - timer.ms) + ms) else none := by
      by_cases quiet : s.tickled = true
      · rw [if_pos quiet]
        exact (if_pos ⟨changes, member, quiet⟩).trans (by rw [known]; rfl)
      · rw [if_neg quiet]
        exact if_neg fun conditions => quiet conditions.2.2
    rw [silent]
    exact takenOut.moves_addTimerLocked holds ready

theorem Holds.postponed_cancle (holds : Holds s []) {answer : Bool}
    (ran : s.cancle t = .ok (answer, later)) : Postponed s later := by
  cases has : s.hasCb t with
  | false =>
      rw [cancle_spent has] at ran
      cases ran
      exact Postponed.refl s
  | true =>
      obtain ⟨next, cancelled, _, _, _, _, timers, others⟩ := holds.cancle has
      rw [cancelled] at ran
      cases ran
      refine holds.postponed ?_ fun u inside => others u ?_
      · rw [timers]
        exact List.erase_subset
      · rintro rfl
        rw [timers] at inside
        exact (holds.sorted.nodup s.compares).not_mem_erase inside

end Sylar.TimerManager.State
