import Sylar.Manager.TaskWakeups
import Sylar.Timer.Deadline
import Mathlib.Tactic.FinCases

/-!
# Wake-ups for timers

Every worker that goes to sleep asks for the next timer first, and a timer that is
inserted in front makes a tickle, which wakes one worker. That worker may take a task
and leave the others asleep with an old deadline. `timers_prompt` proves that no timer
is overslept as long as a worker that takes a task or cannot wait for the timer, and a
timer that is put in front without a tickle, leave somebody who wakes in time.
-/

namespace Sylar.Manager

open Library

set_option linter.unusedSectionVars false

variable {F C W T A : Type} [DecidableEq F] [DecidableEq C] [DecidableEq W] [DecidableEq T]
  [LinearOrder A]

theorem toInt_le (timeout : UInt64) : toInt timeout ≤ timeout.toNat := by
  have low : (timeout.toUInt32.toBitVec.toNat : ℤ) ≤ timeout.toNat := by
    have narrow := timeout.toNat_toUInt32
    simp only [UInt32.toNat] at narrow
    omega
  have signed : timeout.toUInt32.toBitVec.toInt ≤ timeout.toUInt32.toBitVec.toNat := by
    rw [BitVec.toInt_eq_toNat_cond]
    split <;> omega
  exact signed.trans low

theorem clampTimeout_clampTimeout (timeout : UInt64) :
    clampTimeout (clampTimeout timeout) = clampTimeout timeout := by
  unfold clampTimeout
  split
  · split
    · decide
    · rfl
  · decide

/-- A wait that begins at `clock` ends, and at `bound` or before. -/
def InTime (timeout clock : UInt64) (bound : Nat) : Prop :=
  0 ≤ toInt timeout ∧ clock.toNat + (toInt timeout).toNat ≤ bound

instance (timeout clock : UInt64) (bound : Nat) : Decidable (InTime timeout clock bound) :=
  inferInstanceAs (Decidable (_ ∧ _))

/-- A worker that asks for the next timer does not sleep past it. -/
theorem inTime_of_next (timers : TimerManager.State T A C) (clock : UInt64) {d : Nat}
    (first : d ∈ timers.deadline)
    (fits : (timers.getNextTimer clock).1 = ~~~0 ∨ 0 ≤ toInt (timers.getNextTimer clock).1) :
    InTime (clampTimeout (timers.getNextTimer clock).1) clock (max d clock.toNat) := by
  obtain ⟨timer, head, rfl⟩ := Option.map_eq_some_iff.mp first
  have difference := TimerManager.State.getNextTimer_toNat head clock
  generalize (timers.getNextTimer clock).1 = answer at fits difference
  by_cases passed : timer.next.toNat ≤ clock.toNat
  · have none_ : answer = 0 := by
      rw [← UInt64.toNat_inj, difference]
      exact Nat.sub_eq_zero_of_le passed
    have instant : toInt (clampTimeout 0) = 0 := by decide
    rw [none_]
    refine ⟨instant.ge, ?_⟩
    simp only [instant]
    exact le_max_right _ _
  · have below := toInt_le answer
    have whole : toInt maxTimeout = 3000 := by decide
    unfold clampTimeout
    split
    · rename_i some_
      have positive := fits.resolve_left some_
      split
      · rename_i long
        refine ⟨by rw [whole]; decide, le_max_of_le_left ?_⟩
        simp only [whole]
        omega
      · refine ⟨positive, le_max_of_le_left ?_⟩
        show clock.toNat + (toInt answer).toNat ≤ timer.next.toNat
        omega
    · rename_i last
      have last : answer = ~~~0 := not_not.mp last
      rw [last] at difference
      have largest : (~~~0 : UInt64).toNat = 2 ^ 64 - 1 := by decide
      refine ⟨by rw [whole]; decide, le_max_of_le_left ?_⟩
      simp only [whole]
      omega

/-- The worker is counted as idle when it goes on. -/
def After.idle : After F C W → Bool
  | .events _ | .triggered _ => true
  | _ => false

@[simp] theorem idle_afterCall (callback : Bool) (f : F) (call : Call F C W T A) :
    (Worker.afterCall callback f call).idle = false := by
  cases call <;> rfl

namespace Stage

/-- The worker goes to sleep, or sleeps. -/
def asleep : Stage F C W → Bool
  | .counted | .timed .. | .quiet _ | .waiting .. | .blocked .. => true
  | _ => false

/-- The wait of the worker ends at `bound` or before, if it begins when the clock is read. -/
def EndsBy (bound : Nat) : Stage F C W → Prop
  | .timed timeout reading => InTime (clampTimeout timeout) reading bound
  | .quiet reading => InTime (clampTimeout (~~~0)) reading bound
  | .waiting timeout reading => InTime timeout reading bound
  | .blocked _ _ deadline => ∃ e ∈ deadline, e ≤ bound
  | _ => False

instance (bound : Nat) (stage : Stage F C W) : Decidable (stage.EndsBy bound) := by
  cases stage <;> unfold EndsBy <;> infer_instance

/-- The worker neither sleeps, nor has a task. -/
def free : Stage F C W → Bool
  | .scanned (some _) | .inside .. | .cancled .. => false
  | .timed .. | .quiet _ | .waiting .. | .blocked .. => false
  | _ => true

/-- The worker is counted in `m_idleThreadCount`. -/
def idle : Stage F C W → Bool
  | .tickling after | .writing after => after.idle
  | .counted | .timed .. | .quiet _ | .waiting .. | .blocked .. => true
  | .woken _ | .expired .. | .handling _ | .triggered _ | .leaving => true
  | _ => false

/-- In `epoll_wait`, and until when. -/
def blockedUntil : Stage F C W → Option (Option Nat)
  | .blocked _ _ deadline => some deadline
  | _ => none

/-- A wait is one that `idle` makes of a time to the next timer, and begins no earlier than
the clock is read. -/
def Sound (clock : UInt64) : Stage F C W → Prop
  | .timed _ reading | .quiet reading => reading ≤ clock
  | .waiting timeout reading => clampTimeout timeout = timeout ∧ reading ≤ clock
  | .blocked timeout reading deadline => (clampTimeout timeout = timeout ∧ reading ≤ clock) ∧
      ∀ e ∈ deadline, InTime timeout reading e
  | _ => True

@[simp] theorem idle_stage (after : After F C W) : after.stage.idle = after.idle := by
  cases after <;> rfl

@[simp] theorem idle_tickleIf (after : After F C W) (wanted : Bool) :
    (after.tickleIf wanted).idle = after.idle := by
  cases wanted
  · exact idle_stage after
  · rfl

theorem sound_stage (clock : UInt64) (after : After F C W) : after.stage.Sound clock := by
  cases after <;> trivial

theorem sound_tickleIf (clock : UInt64) (after : After F C W) (wanted : Bool) :
    (after.tickleIf wanted).Sound clock := by
  cases wanted
  · exact sound_stage clock after
  · trivial

theorem Sound.later {clock clock' : UInt64} {stage : Stage F C W} (sound : stage.Sound clock)
    (later : clock ≤ clock') : stage.Sound clock' := by
  cases stage with
  | timed | quiet => exact UInt64.le_trans sound later
  | waiting => exact ⟨sound.1, UInt64.le_trans sound.2 later⟩
  | blocked => exact ⟨⟨sound.1.1, UInt64.le_trans sound.1.2 later⟩, sound.2⟩
  | _ => trivial

theorem EndsBy.mono {bound bound' : Nat} {stage : Stage F C W} (ends : stage.EndsBy bound)
    (later : bound ≤ bound') : stage.EndsBy bound' := by
  cases stage with
  | timed | quiet | waiting => exact ⟨ends.1, ends.2.trans later⟩
  | blocked =>
      obtain ⟨e, is, before⟩ := ends
      exact ⟨e, is, before.trans later⟩
  | _ => cases ends

/-- A worker that goes on without a task is free. -/
theorem free_tickleIf {after : After F C W} (free : after.stage.free = true) (wanted : Bool) :
    (after.tickleIf wanted).free = true := by
  cases wanted
  · exact free
  · rfl

theorem asleep_stage (after : After F C W) : after.stage.asleep = false := by
  cases after <;> rfl

theorem idle_of_asleep {stage : Stage F C W} (asleep : stage.asleep = true) :
    stage.idle = true := by
  cases stage <;> first | rfl | cases asleep

theorem blocked_of_blockedUntil {stage : Stage F C W} {deadline : Option Nat}
    (blocked : stage.blockedUntil = some deadline) :
    ∃ timeout reading, stage = .blocked timeout reading deadline := by
  cases stage with
  | blocked timeout reading until_ =>
      cases blocked
      exact ⟨timeout, reading, rfl⟩
  | _ => cases blocked

/-- A worker in a task is free only in a call that wants a tickle. -/
theorem watches_of_inTask {stage : Stage F C W} (inTask : stage.inTask = true)
    (free : stage.free = true) : stage.watches = true := by
  cases stage with
  | inside | cancled => cases free
  | tickling | writing => rfl
  | _ => cases inTask

theorem not_endsBy_of_inTask {stage : Stage F C W} (inTask : stage.inTask = true) (bound : Nat) :
    ¬stage.EndsBy bound := by
  cases stage <;> first | exact id | cases inTask

end Stage

/-- 1 for a worker that is counted as idle. -/
def Worker.idleWeight (worker : Worker F C W) : UInt64 := if worker.stage.idle then 1 else 0

theorem idleWeight_eq (stage : Stage F C W) (cbFiber : Option F) (idleTerm : Bool) :
    (⟨stage, cbFiber, idleTerm⟩ : Worker F C W).idleWeight = if stage.idle then 1 else 0 := rfl

/-- A step counts the thread as idle as long as it is. -/
theorem Performs.idle {s next : Shared F C W T A} {w : W} {worker after : Worker F C W}
    {move : Move F C W T A} (performs : Performs s w worker move next after) :
    next.idleThreadCount + worker.idleWeight = s.idleThreadCount + after.idleWeight := by
  cases performs with
  | scan =>
      rw [idleWeight_eq, idleWeight_eq, Stage.idle_tickleIf]
      rfl
  | drop | write =>
      rw [idleWeight_eq, idleWeight_eq, Stage.idle_stage]
      rfl
  | call called =>
      obtain ⟨_, _, _, _, _, _, _, _, rfl⟩ := (Shared.calls_of_call called).frame
      rw [idleWeight_eq, idleWeight_eq, Stage.idle_tickleIf, idle_afterCall]
      rfl
  | requeue | scheduleExpired | trigger =>
      rw [idleWeight_eq, idleWeight_eq, Stage.idle_tickleIf]
      rfl
  | rest idle rests kept =>
      rcases rests with rfl | ⟨state, _, rfl⟩
      · rfl
      · rfl
  | enterIdle => exact add_zero (s.idleThreadCount + 1)
  | leaveIdle =>
      rw [idleWeight_eq, idleWeight_eq]
      exact (sub_add_cancel s.idleThreadCount 1).trans (add_zero _).symm
  | _ => rfl

theorem ok_of_toOption {ε α : Type} {result : Except ε α} {value : α}
    (is : result.toOption = some value) : result = .ok value := by
  cases result with
  | error fault => cases is
  | ok answer =>
      cases is
      rfl

/-- Only a call of a timer changes the timers. -/
theorem Calls.timers {s next : Shared F C W T A} {self : Option F} {call : Call F C W T A}
    {wanted : Bool} (calls : Calls s self call wanted next) :
    (∃ action, call = .timer action ∧ s.callTimer action = some (wanted, next)) ∨
      next.timers = s.timers := by
  cases calls with
  | @schedule entry =>
      obtain ⟨created, asked, same⟩ := s.ask_eq entry
      rw [same]
      exact .inr rfl
  | @scheduleAll tasks =>
      obtain ⟨created, asked, same⟩ := s.askAll_eq tasks
      rw [same]
      exact .inr rfl
  | timer called => exact .inl ⟨_, rfl, called⟩
  | addEvent | addEventFails | delEvent | cancleEvent => exact .inr rfl

namespace Shared

open TimerManager.State

variable {s next : Shared F C W T A} {action : TimerManager.Action T A C} {wanted : Bool}

/-- A call of a timer keeps the set of timers sound, and tells what it does to the first. -/
theorem callTimer_moves (consistent : s.timers.Consistent)
    (called : s.callTimer action = some (wanted, next)) :
    next.timers.Consistent ∧
      Moves s.timers next.timers wanted (s.timers.silentDeadline action) := by
  unfold callTimer at called
  split at called
  · rename_i allowed
    have enabled := allowed.1
    have reach : ∀ {timers}, s.timers.call action = .ok timers → timers.Consistent := by
      intro timers ran
      obtain ⟨after, same, kept⟩ := consistent.call enabled
      rw [ran] at same
      cases same
      exact kept
    split at called
    · cases called
      exact ⟨reach rfl, consistent.1.moves_addTimer enabled⟩
    · obtain ⟨answer, ran, result⟩ := Option.map_eq_some_iff.mp called
      cases result
      have ran := ok_of_toOption ran
      refine ⟨reach (by rw [TimerManager.State.call, ran]; rfl), .inr (.inl ?_)⟩
      exact consistent.1.postponed_cancle ran
    · obtain ⟨answer, ran, result⟩ := Option.map_eq_some_iff.mp called
      cases result
      have ran := ok_of_toOption ran
      refine ⟨reach (by rw [TimerManager.State.call, ran]; rfl), ?_⟩
      exact consistent.1.moves_refresh enabled ran
    · obtain ⟨answer, ran, result⟩ := Option.map_eq_some_iff.mp called
      cases result
      have ran := ok_of_toOption ran
      refine ⟨reach (by rw [TimerManager.State.call, ran]; rfl), ?_⟩
      exact consistent.1.moves_reset enabled ran
    · cases called
      exact ⟨reach rfl, .inr (.inl (Postponed.refl s.timers))⟩
    · cases called
    · cases called
  · cases called

end Shared

namespace State

variable [Fintype W] {s next : State F C W T A} {action : Action F C W T A}

/-- The worker is in `epoll_wait` and its time is not over. -/
def Blocked (s : State F C W T A) (w : W) : Prop :=
  ∃ deadline ∈ (s.worker w).stage.blockedUntil, ∀ e ∈ deadline, s.shared.clock.toNat < e

/-- The wait of the worker ends after `d`. -/
def Outlasts (s : State F C W T A) (w : W) (d : Nat) : Prop :=
  ∀ deadline ∈ (s.worker w).stage.blockedUntil, ∀ e ∈ deadline, d < e

/-- A timer is pending, some worker is blocked, the waits of all blocked workers end after the
earliest deadline, no byte is in the pipe, and all other workers are in a task. -/
def LostTimer (s : State F C W T A) : Prop :=
  ∃ d ∈ s.shared.timers.deadline, (∃ w, s.Blocked w) ∧ (∀ w, s.Blocked w → s.Outlasts w d) ∧
    s.shared.pipe = 0 ∧ ∀ w, ¬s.Blocked w → (s.worker w).stage.inTask = true

/-- No worker is asleep, or a wake-up is on its way, or a worker other than `but` is going to
ask for the next timer, or wakes by `d`, or at once. -/
def Relieved (s : State F C W T A) (but : Option W) (d : Nat) : Prop :=
  (∀ v, (s.worker v).stage.asleep = false) ∨ 0 < s.shared.pipe ∨ 0 < s.shared.outsideTickling ∨
    0 < s.shared.outsideWriting ∨ ∃ v, but ≠ some v ∧ ((s.worker v).stage.free = true ∨
      (s.worker v).stage.EndsBy (max d s.shared.clock.toNat))

/-- The worker that gets a time to the next timer which is negative as an `int`. -/
def asksFar (s : State F C W T A) : Action F C W T A → Option W
  | .worker w .getNextTimer =>
      let next := (s.shared.timers.getNextTimer s.shared.clock).1
      if (s.worker w).stage = .counted ∧ next ≠ ~~~0 ∧ toInt next < 0 then some w else none
  | _ => none

/-- The worker that calls `epoll_wait` later than it read the clock, and its timeout. -/
def waitsLate (s : State F C W T A) : Action F C W T A → Option (W × UInt64)
  | .worker w .epollWait =>
      match (s.worker w).stage with
      | .waiting timeout reading =>
          if s.shared.clock = reading then none else some (w, timeout)
      | _ => none
  | _ => none

/-- The worker that takes a task and does not tickle. -/
def leavesFor (s : State F C W T A) : Action F C W T A → Option W
  | .worker w .scan =>
      let scan := s.shared.scanList w s.shared.fibers
      if (s.worker w).stage = .polling ∧ scan.found.isSome ∧ scan.tickleMe = false then some w
      else none
  | _ => none

/-- The deadline that a call puts in front and does not tickle for. -/
def silentTimer (s : State F C W T A) : Action F C W T A → Option UInt64
  | .outside (.timer action) | .worker _ (.call (.timer action)) =>
      s.shared.timers.silentDeadline action
  | _ => none

/-- Somebody wakes in time for the first timer whenever a worker takes a task without a
tickle, gets a time that is negative as an `int`, or begins a late wait that does not end in
time, and whenever a timer is put in front without a tickle. -/
structure Prompt (s : State F C W T A) (action : Action F C W T A) : Prop where
  leaves : ∀ w ∈ s.leavesFor action, ∀ d ∈ s.shared.timers.deadline, s.Relieved (some w) d
  fits : ∀ w ∈ s.asksFar action, ∀ d ∈ s.shared.timers.deadline, s.Relieved (some w) d
  atOnce : ∀ late ∈ s.waitsLate action, ∀ d ∈ s.shared.timers.deadline,
    InTime late.2 s.shared.clock (max d s.shared.clock.toNat) ∨ s.Relieved (some late.1) d
  silent : ∀ k ∈ s.silentTimer action,
    (∃ d ∈ s.shared.timers.deadline, d ≤ k.toNat) ∨ s.Relieved none k.toNat

instance (s : State F C W T A) (but : Option W) (d : Nat) : Decidable (s.Relieved but d) :=
  inferInstanceAs (Decidable (_ ∨ _))

instance (s : State F C W T A) (action : Action F C W T A) : Decidable (s.Prompt action) :=
  decidable_of_iff
    ((∀ w ∈ s.leavesFor action, ∀ d ∈ s.shared.timers.deadline, s.Relieved (some w) d) ∧
      (∀ w ∈ s.asksFar action, ∀ d ∈ s.shared.timers.deadline, s.Relieved (some w) d) ∧
      (∀ late ∈ s.waitsLate action, ∀ d ∈ s.shared.timers.deadline,
        InTime late.2 s.shared.clock (max d s.shared.clock.toNat) ∨ s.Relieved (some late.1) d) ∧
      ∀ k ∈ s.silentTimer action,
        (∃ d ∈ s.shared.timers.deadline, d ≤ k.toNat) ∨ s.Relieved none k.toNat)
    ⟨fun ⟨leaves, fits, atOnce, silent⟩ => ⟨leaves, fits, atOnce, silent⟩,
      fun prompt => ⟨prompt.leaves, prompt.fits, prompt.atOnce, prompt.silent⟩⟩

/-- The invariant of prompt runs. -/
structure OnTime (s : State F C W T A) : Prop where
  consistent : s.shared.timers.Consistent
  counted : s.shared.idleThreadCount = tally Worker.idleWeight s.worker
  sound : ∀ w, (s.worker w).stage.Sound s.shared.clock
  relieved : ∀ d ∈ s.shared.timers.deadline, s.Relieved none d

theorem OnTime.not_lost (onTime : s.OnTime) (settled : s.Settled) : ¬s.LostTimer := by
  rintro ⟨d, first, ⟨sleeper, blocked⟩, past, empty, others⟩
  obtain ⟨noTickle, noWrite, noCall⟩ := settled
  rcases onTime.relieved d first with nobody | bytes | tickles | writes | ⟨v, _, wakes⟩
  · obtain ⟨deadline, until_, _⟩ := blocked
    obtain ⟨timeout, reading, here⟩ := Stage.blocked_of_blockedUntil until_
    have awake := nobody sleeper
    rw [here] at awake
    cases awake
  · omega
  · omega
  · omega
  · by_cases blocked : s.Blocked v
    · obtain ⟨deadline, until_, ahead⟩ := blocked
      have later := past v ⟨deadline, until_, ahead⟩ deadline until_
      obtain ⟨timeout, reading, here⟩ := Stage.blocked_of_blockedUntil until_
      rw [here] at wakes
      rcases wakes with free | ⟨e, is, ends⟩
      · cases free
      · have behind := later e is
        have now := ahead e is
        omega
    · have inTask := others v blocked
      rcases wakes with free | ends
      · have inCall := Stage.inCall_of_inTask inTask (Stage.watches_of_inTask inTask free)
        rw [noCall v] at inCall
        cases inCall
      · exact Stage.not_endsBy_of_inTask inTask _ ends

/-- Whatever is enough stays enough for a later deadline. -/
theorem Relieved.mono {but : Option W} {d e : Nat} (relieved : s.Relieved but d) (later : d ≤ e) :
    s.Relieved but e := by
  rcases relieved with nobody | bytes | tickles | writes | ⟨v, other, free | ends⟩
  · exact .inl nobody
  · exact .inr (.inl bytes)
  · exact .inr (.inr (.inl tickles))
  · exact .inr (.inr (.inr (.inl writes)))
  · exact .inr (.inr (.inr (.inr ⟨v, other, .inl free⟩)))
  · exact .inr (.inr (.inr (.inr ⟨v, other, .inr (ends.mono (max_le_max_right _ later))⟩)))

/-- When no worker is counted as idle, none is asleep. -/
theorem OnTime.nobody (onTime : s.OnTime) (few : Fintype.card W < 2 ^ 64)
    (idle : s.shared.idleThreadCount = 0) (v : W) : (s.worker v).stage.asleep = false := by
  have count : (tally Worker.idleWeight s.worker).toNat =
      (Finset.univ.filter fun v => (s.worker v).stage.idle = true).card :=
    Tally.toNat_counter s.worker few
  rw [← onTime.counted, idle] at count
  have none_ := Finset.card_eq_zero.mp count.symm
  by_contra asleep
  have inside : v ∈ Finset.univ.filter fun v => (s.worker v).stage.idle = true := by
    simp [Stage.idle_of_asleep (Bool.eq_true_of_not_eq_false asleep)]
  rw [none_] at inside
  cases inside

section Worker

variable {w : W} {move : Move F C W T A} {shared : Shared F C W T A} {worker : Worker F C W}

theorem relieved_of_free (free : worker.stage.free = true) (d : Nat) :
    (s.moved w shared worker).Relieved none d :=
  .inr (.inr (.inr (.inr ⟨w, nofun, .inl (by rwa [moved_worker_self])⟩)))

theorem relieved_of_endsBy {d : Nat}
    (ends : worker.stage.EndsBy (max d shared.clock.toNat)) :
    (s.moved w shared worker).Relieved none d :=
  .inr (.inr (.inr (.inr ⟨w, nofun, .inr (by rwa [moved_worker_self])⟩)))

/-- What relieved before the step of `w` relieves behind it. -/
theorem Relieved.moved {but : Option W} {d : Nat} (relieved : s.Relieved but d)
    (pipe : s.shared.pipe = shared.pipe)
    (tickling : s.shared.outsideTickling = shared.outsideTickling)
    (writing : s.shared.outsideWriting = shared.outsideWriting)
    (clock : s.shared.clock = shared.clock)
    (asleep : (∀ v, (s.worker v).stage.asleep = false) → worker.stage.asleep = false)
    (own : but = some w ∨ (s.worker w).stage.free = false ∧ ∀ bound,
      (s.worker w).stage.EndsBy bound → worker.stage.EndsBy bound) :
    (s.moved w shared worker).Relieved none d := by
  rcases relieved with nobody | bytes | tickles | writes | ⟨v, other, wakes⟩
  · refine .inl fun v => ?_
    by_cases same : v = w
    · subst same
      rw [moved_worker_self]
      exact asleep nobody
    · rw [moved_worker_of_ne _ _ _ _ same]
      exact nobody v
  · exact .inr (.inl (pipe ▸ bytes))
  · exact .inr (.inr (.inl (tickling ▸ tickles)))
  · exact .inr (.inr (.inr (.inl (writing ▸ writes))))
  · refine .inr (.inr (.inr (.inr ⟨v, nofun, ?_⟩)))
    rw [moved_shared, ← clock]
    by_cases same : v = w
    · subst same
      rw [moved_worker_self]
      rcases own with same | ⟨busy, ends⟩
      · exact absurd same other
      · refine .inr (ends _ (wakes.resolve_left ?_))
        rw [busy]
        exact Bool.false_ne_true
    · rwa [moved_worker_of_ne _ _ _ _ same]

/-- A call that wants no tickle leaves somebody who wakes in time. -/
theorem OnTime.relieved_call (onTime : s.OnTime) {self : Option F} {call : Call F C W T A}
    {next : Shared F C W T A} (calls : Calls s.shared self call false next)
    (silent : ∀ timer, call = .timer timer → ∀ k ∈ s.shared.timers.silentDeadline timer,
      (∃ d ∈ s.shared.timers.deadline, d ≤ k.toNat) ∨ s.Relieved none k.toNat)
    {d : Nat} (first : d ∈ next.timers.deadline) : s.Relieved none d := by
  rcases calls.timers with ⟨timer, rfl, called⟩ | same
  · rcases (Shared.callTimer_moves onTime.consistent called).2 with
      told | postponed | ⟨k, put, front⟩
    · cases told
    · obtain ⟨e, earlier, below⟩ := postponed d first
      exact (onTime.relieved e earlier).mono below
    · rw [front] at first
      cases first
      rcases silent timer rfl k put with ⟨e, earlier, below⟩ | relieved
      · exact (onTime.relieved e earlier).mono below
      · exact relieved
  · rw [same] at first
    exact onTime.relieved d first

theorem relieved_worker (few : Fintype.card W < 2 ^ 64) (onTime : s.OnTime)
    (prompt : s.Prompt (.worker w move))
    (performs : Performs s.shared w (s.worker w) move shared worker) {d : Nat}
    (first : d ∈ shared.timers.deadline) : (s.moved w shared worker).Relieved none d := by
  have sound := onTime.sound w
  generalize here : s.worker w = before at performs sound
  have nobodyBut (asleep : before.stage.asleep = true) {result : Prop}
      (nobody : ∀ v, (s.worker v).stage.asleep = false) : result := by
    have awake := nobody w
    rw [here, asleep] at awake
    cases awake
  cases performs with
  | @scan cbFiber idleTerm scan scanned =>
      subst scanned
      cases wanted : (s.shared.scanList w s.shared.fibers).tickleMe with
      | true => exact relieved_of_free rfl d
      | false =>
          cases found : (s.shared.scanList w s.shared.fibers).found with
          | none => exact relieved_of_free rfl d
          | some entry =>
              have leaves : w ∈ s.leavesFor (.worker w .scan) := by
                simp [leavesFor, here, wanted, found]
              exact (prompt.leaves w leaves d first).moved rfl rfl rfl rfl (fun _ => rfl) (.inl rfl)
  | @drop cbFiber idleTerm after nobody =>
      refine .inl fun v => ?_
      by_cases same : v = w
      · subst same
        rw [moved_worker_self]
        exact Stage.asleep_stage after
      · rw [moved_worker_of_ne _ _ _ _ same]
        exact onTime.nobody few nobody v
  | write => exact .inr (.inl (Nat.succ_pos _))
  | @call cbFiber idleTerm callback wanted f call next called =>
      have calls := Shared.calls_of_call called
      cases wanted with
      | true => exact relieved_of_free rfl d
      | false =>
          have relieved : s.Relieved none d := by
            refine onTime.relieved_call calls ?_ first
            rintro timer rfl k put
            exact prompt.silent k put
          obtain ⟨_, _, _, _, _, _, _, _, frame⟩ := calls.frame
          rw [frame]
          refine relieved.moved rfl rfl rfl rfl (fun _ => Stage.asleep_stage _) (.inr ?_)
          rw [here]
          exact ⟨rfl, fun _ => False.elim⟩
  | getNextTimer =>
      rw [TimerManager.State.deadline_getNextTimer] at first
      by_cases far : (s.shared.timers.getNextTimer s.shared.clock).1 ≠ ~~~0 ∧
          toInt (s.shared.timers.getNextTimer s.shared.clock).1 < 0
      · have asks : w ∈ s.asksFar (.worker w .getNextTimer) :=
          if_pos ⟨congrArg Worker.stage here, far⟩
        exact (prompt.fits w asks d first).moved rfl rfl rfl rfl (nobodyBut rfl) (.inl rfl)
      · have fits : (s.shared.timers.getNextTimer s.shared.clock).1 = ~~~0 ∨
            0 ≤ toInt (s.shared.timers.getNextTimer s.shared.clock).1 := by
          by_contra neither
          push Not at neither
          exact far neither
        exact relieved_of_endsBy (inTime_of_next s.shared.timers s.shared.clock first fits)
  | @epollWait cbFiber idleTerm timeout reading =>
      have relieved := onTime.relieved d first
      have begins {clock : UInt64} {bound : Nat} (inTime : InTime timeout clock bound) :
          ∃ e ∈ if toInt timeout < 0 then none else some (clock.toNat + (toInt timeout).toNat),
            e ≤ bound := by
        rw [if_neg inTime.1.not_gt]
        exact ⟨_, rfl, inTime.2⟩
      by_cases atOnce : s.shared.clock = reading
      · refine relieved.moved rfl rfl rfl rfl (nobodyBut rfl) (.inr ?_)
        rw [here]
        refine ⟨rfl, fun bound inTime => ?_⟩
        rw [atOnce]
        exact begins inTime
      · have late : (w, timeout) ∈ s.waitsLate (.worker w .epollWait) := by
          simp [waitsLate, here, atOnce]
        rcases prompt.atOnce _ late d first with inTime | others
        · exact relieved_of_endsBy (begins inTime)
        · exact others.moved rfl rfl rfl rfl (nobodyBut rfl) (.inl rfl)
  | interrupt =>
      refine (onTime.relieved d first).moved rfl rfl rfl rfl (nobodyBut rfl) (.inr ?_)
      rw [here]
      refine ⟨rfl, ?_⟩
      rintro bound ⟨e, is, before⟩
      have inTime := sound.2 e is
      rw [← sound.1.1] at inTime
      exact ⟨inTime.1, inTime.2.trans before⟩
  | quiet | wait | stay =>
      refine (onTime.relieved d first).moved rfl rfl rfl rfl (nobodyBut rfl) (.inr ?_)
      rw [here]
      exact ⟨rfl, fun _ => id⟩
  | resume | reuse | begin | uncountCancled =>
      refine (onTime.relieved d first).moved rfl rfl rfl rfl (fun _ => rfl) (.inr ?_)
      rw [here]
      exact ⟨rfl, fun _ => False.elim⟩
  | scheduleExpired | requeue | trigger =>
      exact relieved_of_free (Stage.free_tickleIf rfl _) d
  | _ => exact relieved_of_free rfl d

theorem consistent_worker (consistent : s.shared.timers.Consistent)
    (performs : Performs s.shared w (s.worker w) move shared worker) :
    shared.timers.Consistent := by
  generalize s.worker w = before at performs
  cases performs with
  | call called =>
      rcases (Shared.calls_of_call called).timers with ⟨timer, rfl, ran⟩ | same
      · exact (Shared.callTimer_moves consistent ran).1
      · rwa [same]
  | getNextTimer =>
      obtain ⟨after, ran, kept⟩ : ∃ next,
          s.shared.timers.call (.getNextTimer s.shared.clock) = .ok next ∧ next.Consistent :=
        consistent.call trivial
      cases ran
      exact kept
  | listExpiredCb timely enabled listed =>
      obtain ⟨after, ran, kept⟩ := consistent.call enabled
      have same := listed.symm.trans ran
      cases same
      exact kept
  | rest idle rests kept =>
      rcases rests with rfl | ⟨state, _, rfl⟩
      · exact consistent
      · exact consistent
  | _ => exact consistent

theorem sound_worker (sound : ∀ v, (s.worker v).stage.Sound s.shared.clock)
    (performs : Performs s.shared w (s.worker w) move shared worker) :
    worker.stage.Sound s.shared.clock := by
  have before := sound w
  generalize s.worker w = worker' at performs before
  cases performs with
  | getNextTimer => exact UInt64.le_refl _
  | quiet => exact before
  | wait | stay => exact ⟨clampTimeout_clampTimeout _, before⟩
  | epollWait =>
      refine ⟨before, fun e is => ?_⟩
      split at is
      · cases is
      · rename_i finite
        cases is
        exact ⟨not_lt.mp finite, Nat.add_le_add_right (UInt64.le_iff_toNat_le.mp before.2) _⟩
  | interrupt => exact ⟨clampTimeout_clampTimeout _, before.1.2⟩
  | scan | call | requeue | scheduleExpired | trigger => exact Stage.sound_tickleIf _ _ _
  | drop | write => exact Stage.sound_stage _ _
  | _ => trivial

/-- A worker does not change the clock. -/
theorem Performs.clock (performs : Performs s.shared w (s.worker w) move shared worker) :
    shared.clock = s.shared.clock := by
  generalize s.worker w = before at performs
  cases performs with
  | call called =>
      obtain ⟨_, _, _, _, _, _, _, _, rfl⟩ := (Shared.calls_of_call called).frame
      rfl
  | rest idle rests kept =>
      rcases rests with rfl | ⟨state, _, rfl⟩
      · rfl
      · rfl
  | _ => rfl

theorem onTime_worker (few : Fintype.card W < 2 ^ 64) (onTime : s.OnTime)
    (prompt : s.Prompt (.worker w move))
    (performs : Performs s.shared w (s.worker w) move shared worker) :
    (s.moved w shared worker).OnTime where
  consistent := consistent_worker onTime.consistent performs
  counted := Tally.counter onTime.counted performs.idle
  sound v := by
    rw [moved_shared, Performs.clock performs]
    by_cases same : v = w
    · subst same
      rw [moved_worker_self]
      exact sound_worker onTime.sound performs
    · rw [moved_worker_of_ne _ _ _ _ same]
      exact onTime.sound v
  relieved d first := relieved_worker few onTime prompt performs first

end Worker

/-- What every other thread does leaves somebody who wakes in time, too. -/
theorem onTime_step (few : Fintype.card W < 2 ^ 64) (onTime : s.OnTime) (prompt : s.Prompt action)
    (taken : s.step action = some next) : next.OnTime := by
  cases steps_of_step taken with
  | worker performs => exact onTime_worker few onTime prompt performs
  | @outside call wanted shared calls =>
      have consistent : shared.timers.Consistent := by
        rcases calls.timers with ⟨timer, rfl, ran⟩ | same
        · exact (Shared.callTimer_moves onTime.consistent ran).1
        · rw [same]
          exact onTime.consistent
      have frame := calls.frame
      refine ⟨consistent, ?_, ?_, ?_⟩
      · obtain ⟨_, _, _, _, _, _, _, _, rfl⟩ := frame
        exact onTime.counted
      · obtain ⟨_, _, _, _, _, _, _, _, rfl⟩ := frame
        exact onTime.sound
      · intro d first
        cases wanted with
        | true => exact .inr (.inr (.inl (Nat.succ_pos _)))
        | false =>
            have relieved : s.Relieved none d := by
              refine onTime.relieved_call calls ?_ first
              rintro timer rfl k put
              exact prompt.silent k put
            obtain ⟨_, _, _, _, _, _, _, _, rfl⟩ := frame
            exact relieved
  | outsideDrop nobody =>
      exact ⟨onTime.consistent, onTime.counted, onTime.sound,
        fun _ _ => .inl (onTime.nobody few nobody)⟩
  | outsideTickle =>
      exact ⟨onTime.consistent, onTime.counted, onTime.sound,
        fun _ _ => .inr (.inr (.inr (.inl (Nat.succ_pos _))))⟩
  | outsideWrite =>
      exact ⟨onTime.consistent, onTime.counted, onTime.sound,
        fun _ _ => .inr (.inl (Nat.succ_pos _))⟩
  | outsideUncount =>
      exact ⟨onTime.consistent, onTime.counted, onTime.sound, onTime.relieved⟩
  | advance later =>
      refine ⟨onTime.consistent, onTime.counted, fun v => (onTime.sound v).later later,
        fun d first => ?_⟩
      rcases onTime.relieved d first with nobody | bytes | tickles | writes | ⟨v, _, free | ends⟩
      · exact .inl nobody
      · exact .inr (.inl bytes)
      · exact .inr (.inr (.inl tickles))
      · exact .inr (.inr (.inr (.inl writes)))
      · exact .inr (.inr (.inr (.inr ⟨v, nofun, .inl free⟩)))
      · have slower := max_le_max_left d (UInt64.le_iff_toNat_le.mp later)
        exact .inr (.inr (.inr (.inr ⟨v, nofun, .inr (ends.mono slower)⟩)))
  | stopper tickles stops =>
      refine ⟨onTime.consistent, onTime.counted, onTime.sound, fun d first => ?_⟩
      rcases onTime.relieved d first with nobody | bytes | ticklings | others
      · exact .inl nobody
      · exact .inr (.inl bytes)
      · exact .inr (.inr (.inl (Nat.add_pos_left ticklings tickles)))
      · exact .inr (.inr (.inr others))
  | @start root rests =>
      have idle : s.shared.idleThreadCount + (s.worker root).idleWeight =
          s.shared.idleThreadCount + ((s.worker root).goto .polling).idleWeight := by
        unfold Worker.idleWeight
        rw [rests]
        rfl
      refine ⟨onTime.consistent, Tally.counter onTime.counted idle, fun v => ?_, fun d _ => ?_⟩
      · show ((s.moved root s.shared ((s.worker root).goto .polling)).worker v).stage.Sound _
        by_cases same : v = root
        · subst same
          rw [moved_worker_self]
          trivial
        · rw [moved_worker_of_ne _ _ _ _ same]
          exact onTime.sound v
      · have free : (s.moved root s.shared ((s.worker root).goto .polling)).Relieved none d :=
          relieved_of_free rfl d
        exact free

theorem onTime_initial (root : Option W) (clock : UInt64) :
    (initial root clock : State F C W T A).OnTime where
  consistent := TimerManager.State.consistent_initial
  counted := by
    refine (Finset.sum_eq_zero fun w _ => ?_).symm
    simp only [initial, Worker.idleWeight]
    split <;> rfl
  sound w := by
    simp only [initial]
    split <;> trivial
  relieved d first := by cases first

/-- No timer is overslept in any run in which somebody wakes in time whenever the one who would
does something else. -/
theorem timers_prompt (threads : UInt64) {root : Option (Fin threads.toNat)} {clock : UInt64}
    {actions : List (Action F C (Fin threads.toNat) T A)}
    (prompt : Guarded step Prompt (initial root clock) actions) :
    Along step (fun s => s.Settled → ¬s.LostTimer) (initial root clock) actions := by
  have few : Fintype.card (Fin threads.toNat) < 2 ^ 64 := by
    rw [Fintype.card_fin]
    exact threads.toNat_lt
  exact (along_of_guarded (onTime_step few) (onTime_initial root clock) prompt).mono
    fun _ onTime settled => onTime.not_lost settled

section Runs

/-- A manager with two workers, as small as the runs below need it. -/
abbrev TwoSleepers := Action (Fin 1) (Fin 1) (Fin 2) (Fin 1) (Fin 2)

/-- The steps of `w` from the head of `idle` into `epoll_wait`, with a timer or without. -/
def waitForTimer (w : Fin 2) : List TwoSleepers :=
  [.worker w .scan, .worker w (.branch 0), .worker w .getNextTimer, .worker w .checkPending,
    .worker w .epollWait]

/-- The same without a timer. -/
def waitWithout (w : Fin 2) : List TwoSleepers :=
  [.worker w .scan, .worker w (.branch 0), .worker w .getNextTimer, .worker w .checkPending,
    .worker w .checkStopping, .worker w .epollWait]

/-- The steps of worker 0 out of `epoll_wait` that take the bytes from the pipe. -/
def takeTickle : List TwoSleepers :=
  [.worker 0 (.wake true), .worker 0 (.listExpiredCb false 0 1), .worker 0 .scheduleExpired,
    .worker 0 .drain, .worker 0 .swapOut, .worker 0 .leaveIdle]

/-- Both workers sleep when a timer of 100 ms is added. -/
def addedAsleep : List TwoSleepers :=
  waitWithout 0 ++ waitWithout 1 ++
    [.outside (.timer (.addTimer 0 0 100 0 false 0)), .outsideTickle, .outsideWrite]

/-- Worker 0 wakes and asks for the timer. -/
def heard : List TwoSleepers := addedAsleep ++ takeTickle ++ waitForTimer 0

/-- Worker 0 wakes and takes a task that was scheduled in the meantime. -/
def unheard : List TwoSleepers :=
  addedAsleep ++
    [.outside (.schedule ⟨some (.cb 0), none⟩), .outsideTickle, .outsideWrite] ++ takeTickle ++
      [.worker 0 .scan, .worker 0 (.branch 0)]

theorem timers_prompt_heard :
    (exec step (initial (none : Option (Fin 2)) 0) heard).isSome = true ∧
      Along step (fun s => s.Settled → ¬s.LostTimer) (initial (none : Option (Fin 2)) 0) heard :=
  ⟨by decide, timers_prompt 2 (by decide)⟩

/-- Worker 1 sleeps until 3000 although the timer expires at 100. -/
theorem timer_lost : ¬Along step (fun s => s.Settled → ¬s.LostTimer)
    (initial (none : Option (Fin 2)) 0) unheard := by
  intro along
  have ends : (exec step (initial (none : Option (Fin 2)) 0) unheard).isSome = true := by decide
  have final := along.exec (Option.some_get ends).symm
  have ahead : (0 : UInt64).toNat < 3000 := by decide
  refine final ⟨rfl, rfl, fun w => ?_⟩ ⟨100, rfl, ⟨1, some 3000, rfl, ?_⟩, ?_, rfl, ?_⟩
  · fin_cases w <;> rfl
  · rintro e ⟨⟩
    exact ahead
  · rintro w - deadline until_ e is
    fin_cases w
    · cases until_
    · cases until_
      cases is
      decide
  · intro w awake
    fin_cases w
    · rfl
    · refine absurd ⟨some 3000, rfl, ?_⟩ awake
      rintro e ⟨⟩
      exact ahead

end Runs

end State

end Sylar.Manager
