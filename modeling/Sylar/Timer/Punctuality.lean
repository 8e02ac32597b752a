import Mathlib.Algebra.Group.Nat.Defs
import Sylar.Timer.Batch
import Sylar.Timer.Deadline

/-!
# Timers that are not early

A timer is armed from a reading of the clock on, for its interval. `m_next` is the sum of the two
modulo 2^64. As long as no sum wraps, callbacks are not handed out before it, and the time to the
next timer is exact. A sum that wraps has passed at once.
-/

namespace Sylar.TimerManager

open Library

set_option linter.unusedSectionVars false

variable {T A C : Type} [DecidableEq T] [LinearOrder A]

section Model

/-- The clock as the call reads it. -/
def Action.reading : Action T A C → Option UInt64
  | .addTimer _ _ _ _ _ now | .refresh _ now | .getNextTimer now | .listExpiredCb _ now _ =>
      some now
  | .reset _ _ fromNow _ now => if fromNow then some now else none
  | .cancle _ | .release _ => none

/-- The timers whose callbacks were handed out between two states. -/
def State.handedOut (s next : State T A C) : List T :=
  (next.history.drop s.history.length).filterMap fun mark =>
    match mark with
    | .handed t _ => some t
    | .cancled _ => none

/-- A state with what its timers were armed with. -/
structure Clocked (T A C : Type) where
  state : State T A C
  /-- The reading from which the interval of a timer counts. -/
  armed : T → UInt64
  /-- The last reading. -/
  clock : UInt64

namespace Clocked

/-- When the callback may be handed out, which is not limited to 64 bits. -/
def expiry (c : Clocked T A C) (t : T) : Nat :=
  (c.armed t).toNat + ((c.state.timer t).map fun timer => timer.ms.toNat).getD 0

/-- The call arms the timer `t`: from which reading on, and with what interval. A `reset` that is
not from now changes the interval only. -/
def arming (c : Clocked T A C) (action : Action T A C) (t : T) : Option (UInt64 × UInt64) :=
  match action with
  | .addTimer u _ ms _ _ now => if t = u then some (now, ms) else none
  | .refresh u now =>
      if t = u ∧ t ∈ c.state.timers then (c.state.timer t).map fun timer => (now, timer.ms)
      else none
  | .reset u ms fromNow seen now =>
      if t = u ∧ t ∈ c.state.timers ∧ ¬(ms = seen ∧ !fromNow) then
        some (if fromNow then now else c.armed t, ms)
      else none
  | .listExpiredCb seenEmpty now _ =>
      if seenEmpty = false ∧ t ∈ c.state.timers ∧ c.state.due now t ∧ c.state.recurs t then
        (c.state.timer t).map fun timer => (now, timer.ms)
      else none
  | .cancle _ | .getNextTimer _ | .release _ => none

/-- A step, of readings that are admitted after the last one. -/
def step (admits : UInt64 → UInt64 → Bool) (c : Clocked T A C) (action : Action T A C) :
    Option (Clocked T A C) :=
  if ∀ now ∈ action.reading, admits c.clock now = true then
    (c.state.step action).map fun next =>
      { state := next
        armed := fun t => ((c.arming action t).map Prod.fst).getD (c.armed t)
        clock := action.reading.getD c.clock }
  else none

/-- No timers, and the first reading is still to come. -/
def initial : Clocked T A C := ⟨State.initial, fun _ => 0, 0⟩

end Clocked

end Model

section Claims

/-- The readings do not decrease, and are below 2^63. -/
def nonDecreasing (clock now : UInt64) : Bool := clock ≤ now && now.toNat < 2 ^ 63

/-- Any readings: threads read the clock before they lock, and lock in another order. -/
def anyOrder (_ _ : UInt64) : Bool := true

namespace Clocked

/-- At any reading that may come next, no callback is handed out early, and the time to the
earliest timer is exact. -/
structure Punctual (admits : UInt64 → UInt64 → Bool) (c : Clocked T A C) : Prop where
  notEarly : ∀ now, admits c.clock now = true → ∀ seenEmpty probe next,
    c.state.listExpiredCb seenEmpty now probe = .ok next →
      ∀ t ∈ c.state.handedOut next, c.expiry t ≤ now.toNat
  exact : ∀ now, admits c.clock now = true → c.state.timers ≠ [] →
    ∃ t ∈ c.state.timers, (∀ u ∈ c.state.timers, c.expiry t ≤ c.expiry u) ∧
      (c.state.getNextTimer now).1.toNat = c.expiry t - now.toNat

/-- No timer is armed for 2^64 or later, by a call that is made. -/
def Unwrapped (admits : UInt64 → UInt64 → Bool) (c : Clocked T A C) (action : Action T A C) :
    Prop :=
  (c.step admits action).isSome = true →
    ∀ t, ∀ arming ∈ c.arming action t, arming.1.toNat + arming.2.toNat < 2 ^ 64

end Clocked

end Claims

namespace State

variable {s next : State T A C} {t u : T}

theorem timer_write {timer : Timer A C} (known : s.timer t = some timer)
    (change : Timer A C → Timer A C) :
    (s.write t change).timer = Function.update s.timer t (some (change timer)) := by
  rw [State.write, known, Option.map_some]

theorem writeNext_eq {deadline : UInt64} (ran : s.writeNext t deadline = .ok next) :
    next = s.write t fun timer => { timer with next := deadline } := by
  unfold writeNext at ran
  split at ran <;> cases ran
  rfl

/-- `erase` changes the set only. -/
theorem timer_erase {it : Option T} (ran : s.erase it = .ok next) : next.timer = s.timer := by
  cases it with
  | none => cases ran
  | some u =>
      cases ran
      rfl

/-- The timer was erased, changed and written to. -/
theorem timer_rekeyed {timer : Timer A C} {deadline : UInt64} {result : Type}
    (known : s.timer t = some timer) (change : Timer A C → Timer A C)
    {finish : State T A C → result} {answer : result}
    (ran : (do
      let s ← s.erase (s.find t)
      let s ← (s.write t change).writeNext t deadline
      return finish s) = Except.ok answer) :
    ∃ later, answer = finish later ∧ later.timer =
      Function.update s.timer t (some { change timer with next := deadline }) := by
  cases out : s.erase (s.find t) with
  | error fault =>
      rw [out] at ran
      cases ran
  | ok erased =>
      rw [out] at ran
      have same := timer_erase out
      cases written : (erased.write t change).writeNext t deadline with
      | error fault =>
          simp only [bind, Except.bind, written] at ran
          cases ran
      | ok later =>
          simp only [bind, Except.bind, written] at ran
          cases ran
          refine ⟨later, rfl, ?_⟩
          have knownErased : (erased.write t change).timer t = some (change timer) := by
            rw [timer_write (same ▸ known), Function.update_self]
          rw [writeNext_eq written, timer_write knownErased, timer_write (same ▸ known), same,
            Function.update_idem]

/-- `refresh` of a timer in the set writes its `m_next`. -/
theorem timer_refresh {timer : Timer A C} {now : UInt64} {answer : Bool}
    (known : s.timer t = some timer) (has : s.hasCb t = true) (found : s.find t ≠ none)
    (ran : s.refresh t now = .ok (answer, next)) :
    next.timer = Function.update s.timer t (some { timer with next := now + timer.ms }) := by
  simp only [State.refresh, known, has, Bool.not_true, Bool.false_eq_true, if_false,
    if_neg found] at ran
  have whole := @timer_rekeyed _ _ _ _ _ s t _ (now + timer.ms) _ known id
    (fun s => (true, s.insert t)) _ (by simpa only [write_id] using ran)
  obtain ⟨later, same, timers⟩ := whole
  cases same
  exact timers

theorem timer_addTimerLocked (s : State T A C) (t : T) :
    (s.addTimerLocked t).2.timer = s.timer := by
  simp only [addTimerLocked]
  split <;> rfl

/-- `reset` of a timer in the set writes its `m_ms` and `m_next`, unless it does nothing. -/
theorem timer_reset {timer : Timer A C} {ms seen now : UInt64} {fromNow answer front : Bool}
    (known : s.timer t = some timer) (has : s.hasCb t = true) (found : s.find t ≠ none)
    (changes : ¬(ms = seen ∧ !fromNow))
    (ran : s.reset t ms fromNow seen now = .ok (answer, front, next)) :
    next.timer = Function.update s.timer t (some { timer with
      ms := ms, next := (if fromNow then now else timer.next - timer.ms) + ms }) := by
  simp only [State.reset, known, has, Bool.not_true, Bool.false_eq_true, if_false, if_neg found,
    if_neg changes] at ran
  obtain ⟨later, same, timers⟩ := timer_rekeyed known (fun timer => { timer with ms }) ran
  have reached : next = (later.addTimerLocked t).2 := congrArg (fun answer => answer.2.2) same
  rw [reached, timer_addTimerLocked, timers]

/-- `reset` of a timer without a callback does nothing. -/
theorem reset_spent (known : (s.timer t).isSome = true) (spent : s.hasCb t = false)
    (ms : UInt64) (fromNow : Bool) (seen now : UInt64) :
    ∃ answer, s.reset t ms fromNow seen now = .ok (answer, false, s) := by
  obtain ⟨timer, known⟩ := Option.isSome_iff_exists.mp known
  unfold State.reset
  split
  · exact ⟨true, rfl⟩
  · exact ⟨false, by simp only [known, spent, Bool.not_false, if_true]; rfl⟩

/-- A timer with a callback is in the set. -/
theorem Holds.present (holds : Holds s []) (has : s.hasCb t = true) :
    ∃ timer, s.timer t = some timer ∧ timer.cb.isSome = true ∧ t ∈ s.timers ∧
      s.find t ≠ none := by
  have member := (holds.pending t).mpr ⟨has, List.not_mem_nil⟩
  obtain ⟨timer, known⟩ := Option.isSome_iff_exists.mp (hasCb_isSome has)
  refine ⟨timer, known, ?_, member, ?_⟩
  · simpa [hasCb, known] using has
  · rw [holds.found member]
    exact Option.some_ne_none t

/-- A call of `listExpiredCb` finds no timers, or hands out those that are due. -/
theorem WellFormed.listExpiredCb (wf : s.WellFormed) {seenEmpty : Bool} {now : UInt64} {probe : A}
    (ran : s.listExpiredCb seenEmpty now probe = .ok next) :
    (next = s ∧ (seenEmpty = true ∨ s.timers = [])) ∨ (seenEmpty = false ∧ s.Batch now next) := by
  cases seenEmpty with
  | true =>
      rw [State.listExpiredCb, if_pos (.inl rfl)] at ran
      cases ran
      exact .inl ⟨rfl, .inl rfl⟩
  | false =>
      obtain ⟨after, done, batch⟩ := listExpiredCb_batch wf false nofun now probe
      rw [ran] at done
      cases done
      exact .inr ⟨rfl, batch⟩

theorem handedOut_of_eq (same : next.history = s.history) : s.handedOut next = [] := by
  rw [handedOut, same, List.drop_length]
  rfl

theorem Batch.handedOut_eq {now : UInt64} (batch : s.Batch now next) :
    s.handedOut next = s.timers.filter (s.due now) := by
  rw [handedOut, batch.handed, List.drop_left, List.filterMap_map]
  exact List.filterMap_some

end State

namespace Clocked

variable {c : Clocked T A C} {next : State T A C} {action : Action T A C} {t : T}

/-- The timer `t` after a call that arms it so, or does not arm it. -/
def Arrives (before after : State T A C) (t : T) : Option (UInt64 × UInt64) → Prop
  | some (start, ms) => ∃ timer, after.timer t = some timer ∧ timer.cb.isSome = true ∧
      timer.ms = ms ∧ timer.next = start + ms
  | none => after.timer t = before.timer t ∨ after.hasCb t = false

/-- What `m_next` of the timers in the set is. -/
def Keyed (c : Clocked T A C) : Prop :=
  ∀ t ∈ c.state.timers, ∀ timer, c.state.timer t = some timer →
    timer.next = c.armed t + timer.ms

theorem Arrives.unarmed {before after : State T A C}
    (same : after.timer t = before.timer t ∨ after.hasCb t = false) : Arrives before after t none :=
  same

/-- The timer was written to. -/
theorem Arrives.self {before after : State T A C} {timer : Timer A C} {start : UInt64}
    (updated : after.timer = Function.update before.timer t (some timer))
    (has : timer.cb.isSome = true) (key : timer.next = start + timer.ms) :
    Arrives before after t (some (start, timer.ms)) := by
  refine ⟨timer, ?_, has, rfl, key⟩
  rw [updated, Function.update_self]

/-- Another timer was written to. -/
theorem Arrives.other {before after : State T A C} {u : T} {timer : Option (Timer A C)}
    (updated : after.timer = Function.update before.timer u timer) (apart : t ≠ u) :
    Arrives before after t none := by
  refine Arrives.unarmed (.inl ?_)
  rw [updated, Function.update_of_ne apart]

/-- What `refresh` does to a timer. -/
theorem arrives_refresh (holds : c.state.Holds []) {u : T} {now : UInt64} {answer : Bool}
    (isHeld : u ∈ c.state.held) (ran : c.state.refresh u now = .ok (answer, next)) (t : T) :
    Arrives c.state next t (c.arming (.refresh u now) t) := by
  have pending := (holds.pending u).trans (and_iff_left List.not_mem_nil)
  cases has : c.state.hasCb u with
  | false =>
      rw [State.refresh_spent (holds.known u isHeld) has] at ran
      cases ran
      rw [arming, if_neg]
      · exact Arrives.unarmed (.inl rfl)
      · rintro ⟨rfl, inside⟩
        rw [pending.1 inside] at has
        cases has
  | true =>
      obtain ⟨timer, known, called, member, found⟩ := holds.present has
      have updated := State.timer_refresh known has found ran
      by_cases same : t = u
      · subst same
        have arrived := fun has key => @Arrives.self _ _ _ _ _ _ _ _ _ now updated has key
        rw [arming, if_pos ⟨rfl, member⟩, known, Option.map_some]
        exact arrived called rfl
      · rw [arming, if_neg fun both => same both.1]
        exact Arrives.other updated same

/-- What `reset` does to a timer. One that is not from now leaves the reading that the interval
counts from. -/
theorem arrives_reset (holds : c.state.Holds []) (keyed : c.Keyed) {u : T}
    {ms seen now : UInt64} {fromNow answer front : Bool} (isHeld : u ∈ c.state.held)
    (ran : c.state.reset u ms fromNow seen now = .ok (answer, front, next)) (t : T) :
    Arrives c.state next t (c.arming (.reset u ms fromNow seen now) t) := by
  have pending := (holds.pending u).trans (and_iff_left List.not_mem_nil)
  by_cases changes : ¬(ms = seen ∧ !fromNow)
  · cases has : c.state.hasCb u with
    | false =>
        obtain ⟨answer', same⟩ :=
          State.reset_spent (holds.known u isHeld) has ms fromNow seen now
        rw [same] at ran
        cases ran
        rw [arming, if_neg]
        · exact Arrives.unarmed (.inl rfl)
        · rintro ⟨rfl, inside, -⟩
          rw [pending.1 inside] at has
          cases has
    | true =>
        obtain ⟨timer, known, called, member, found⟩ := holds.present has
        have updated := State.timer_reset known has found changes ran
        by_cases same : t = u
        · subst same
          rw [arming, if_pos ⟨rfl, member, changes⟩]
          refine Arrives.self updated called ?_
          rw [keyed t member timer known, UInt64.add_sub_cancel]
        · rw [arming, if_neg fun all => same all.1]
          exact Arrives.other updated same
  · rw [State.reset, if_pos (not_not.1 changes)] at ran
    cases ran
    rw [arming, if_neg fun all => changes all.2.2]
    exact Arrives.unarmed (.inl rfl)

/-- What `listExpiredCb` does to a timer. -/
theorem arrives_listExpiredCb (holds : c.state.Holds []) {seenEmpty : Bool} {now : UInt64}
    {probe : A} (ran : c.state.listExpiredCb seenEmpty now probe = .ok next) (t : T) :
    Arrives c.state next t (c.arming (.listExpiredCb seenEmpty now probe) t) := by
  have pending := (holds.pending t).trans (and_iff_left List.not_mem_nil)
  rcases holds.wellFormed.listExpiredCb ran with ⟨rfl, nothing⟩ | ⟨rfl, batch⟩
  · rw [arming, if_neg]
    · exact Arrives.unarmed (.inl rfl)
    · rintro ⟨looked, inside, -⟩
      rcases nothing with seen | empty
      · rw [looked] at seen
        cases seen
      · rw [empty] at inside
        cases inside
  · by_cases expired : t ∈ c.state.timers ∧ c.state.due now t = true
    · obtain ⟨member, due⟩ := expired
      obtain ⟨timer, known, called, -⟩ := holds.present (pending.1 member)
      have recurs : c.state.recurs t = timer.recurring := by
        rw [State.recurs, known, Option.any_some]
      cases again : timer.recurring with
      | true =>
          rw [arming, if_pos ⟨rfl, member, due, recurs.trans again⟩, known, Option.map_some]
          exact ⟨_, batch.again t member due timer known again, called, rfl, rfl⟩
      | false =>
          rw [arming, if_neg fun all => by simp [recurs, again] at all]
          refine Arrives.unarmed (.inr ?_)
          rw [State.hasCb, batch.spent t member due timer known again]
          rfl
    · rw [arming, if_neg fun all => expired ⟨all.2.1, all.2.2.1⟩]
      exact Arrives.unarmed (.inl (batch.unchanged t expired))

/-- What a call does to a timer. -/
theorem arrives (consistent : c.state.Consistent) (keyed : c.Keyed)
    (enabled : c.state.Enabled action) (ran : c.state.call action = .ok next) (t : T) :
    Arrives c.state next t (c.arming action t) := by
  have holds := consistent.1
  cases action with
  | addTimer u address ms cb recurring now =>
      have updated : (c.state.addTimer u address ms cb recurring now).2.timer =
          Function.update c.state.timer u
            (some ⟨address, recurring, ms, now + ms, some cb⟩) := State.timer_addTimerLocked ..
      cases ran
      by_cases same : t = u
      · subst same
        rw [arming, if_pos rfl]
        exact Arrives.self updated rfl rfl
      · rw [arming, if_neg same]
        exact Arrives.other updated same
  | cancle u =>
      refine Arrives.unarmed ?_
      cases has : c.state.hasCb u with
      | false =>
          rw [State.call, State.cancle_spent has] at ran
          cases ran
          exact .inl rfl
      | true =>
          obtain ⟨after, cancelled, -, -, spent, -, -, others⟩ := holds.cancle has
          rw [State.call, cancelled] at ran
          cases ran
          by_cases same : t = u
          · exact .inr (same ▸ spent)
          · exact .inl (others t same)
  | refresh u now =>
      rw [State.call] at ran
      cases refreshed : c.state.refresh u now with
      | error fault =>
          rw [refreshed] at ran
          cases ran
      | ok answered =>
          rw [refreshed] at ran
          cases ran
          exact arrives_refresh holds enabled refreshed t
  | reset u ms fromNow seen now =>
      rw [State.call] at ran
      cases changed : c.state.reset u ms fromNow seen now with
      | error fault =>
          rw [changed] at ran
          cases ran
      | ok answered =>
          rw [changed] at ran
          cases ran
          exact arrives_reset holds keyed enabled changed t
  | getNextTimer now =>
      cases ran
      refine Arrives.unarmed (.inl ?_)
      simp only [State.getNextTimer]
      split <;> rfl
  | listExpiredCb seenEmpty now probe => exact arrives_listExpiredCb holds ran t
  | release u =>
      cases ran
      exact Arrives.unarmed (.inl rfl)

/-! ### Runs -/

variable {admits : UInt64 → UInt64 → Bool} {later : Clocked T A C}

/-- What a step is. -/
theorem step_call (taken : c.step admits action = some later) :
    (∀ now ∈ action.reading, admits c.clock now = true) ∧ c.state.Enabled action ∧
      c.state.call action = .ok later.state ∧
      (∀ t, later.armed t = ((c.arming action t).map Prod.fst).getD (c.armed t)) ∧
      later.clock = action.reading.getD c.clock := by
  unfold step at taken
  split at taken
  · rename_i admitted
    obtain ⟨next, moved, rfl⟩ := Option.map_eq_some_iff.1 taken
    unfold State.step at moved
    split at moved
    · rename_i enabled
      refine ⟨admitted, enabled, ?_, fun _ => rfl, rfl⟩
      cases ran : c.state.call action with
      | error fault =>
          rw [ran] at moved
          cases moved
      | ok after =>
          rw [ran] at moved
          cases moved
          rfl
    · cases moved
  · cases taken

theorem step_consistent (consistent : c.state.Consistent)
    (taken : c.step admits action = some later) : later.state.Consistent := by
  obtain ⟨-, enabled, ran, -⟩ := step_call taken
  obtain ⟨next, same, after⟩ := consistent.call enabled
  rw [ran] at same
  cases same
  exact after

theorem mem_timers_iff (consistent : c.state.Consistent) (t : T) :
    t ∈ c.state.timers ↔ c.state.hasCb t = true :=
  (consistent.1.pending t).trans (and_iff_left List.not_mem_nil)

theorem expiry_eq {timer : Timer A C} (known : c.state.timer t = some timer) :
    c.expiry t = (c.armed t).toNat + timer.ms.toNat := by
  rw [expiry, known]
  rfl

/-- A timer that is in the set after a step was armed by it, or is as it was. -/
theorem step_pending (consistent : c.state.Consistent) (keyed : c.Keyed)
    (taken : c.step admits action = some later) {timer : Timer A C}
    (member : t ∈ later.state.timers) (known : later.state.timer t = some timer) :
    (∃ start, c.arming action t = some (start, timer.ms) ∧ later.armed t = start ∧
        timer.next = start + timer.ms) ∨
      (c.arming action t = none ∧ t ∈ c.state.timers ∧ c.state.timer t = some timer ∧
        later.armed t = c.armed t) := by
  obtain ⟨-, enabled, ran, armed, -⟩ := step_call taken
  have after := step_consistent consistent taken
  have has := (mem_timers_iff after t).1 member
  have arrived := arrives consistent keyed enabled ran t
  have armedHere := armed t
  cases armings : c.arming action t with
  | some pair =>
      obtain ⟨start, ms⟩ := pair
      rw [armings] at arrived armedHere
      obtain ⟨timer', known', -, rfl, key⟩ := arrived
      rw [known] at known'
      cases known'
      exact .inl ⟨start, rfl, armedHere, key⟩
  | none =>
      rw [armings] at arrived armedHere
      rcases arrived with unchanged | spent
      · rw [known] at unchanged
        refine .inr ⟨rfl, (mem_timers_iff consistent t).2 ?_, unchanged.symm, armedHere⟩
        rw [State.hasCb, ← unchanged, ← known]
        exact has
      · rw [spent] at has
        cases has

/-- A timer that a step arms is in the set after it. -/
theorem step_armed (consistent : c.state.Consistent) (keyed : c.Keyed)
    (taken : c.step admits action = some later) {start ms : UInt64}
    (armings : c.arming action t = some (start, ms)) :
    t ∈ later.state.timers ∧ later.expiry t = start.toNat + ms.toNat := by
  obtain ⟨-, enabled, ran, armed, -⟩ := step_call taken
  have after := step_consistent consistent taken
  have arrived := arrives consistent keyed enabled ran t
  rw [armings] at arrived
  obtain ⟨timer, known, has, rfl, -⟩ := arrived
  refine ⟨(mem_timers_iff after t).2 ?_, ?_⟩
  · rw [State.hasCb, known]
    exact has
  · rw [expiry_eq known, armed t, armings]
    rfl

/-- No timer in the set is due at 2^64 or later. -/
def Fits (c : Clocked T A C) : Prop := ∀ t ∈ c.state.timers, c.expiry t < 2 ^ 64

/-- What holds in runs of any readings. -/
structure Exact (c : Clocked T A C) : Prop where
  consistent : c.state.Consistent
  keyed : c.Keyed
  fits : c.Fits

theorem Exact.initial : (Clocked.initial : Clocked T A C).Exact where
  consistent := State.consistent_initial
  keyed := nofun
  fits := nofun

/-- `m_next` stays what it is, also where the sum wraps. -/
theorem Keyed.step (consistent : c.state.Consistent) (keyed : c.Keyed)
    (taken : c.step admits action = some later) : later.Keyed := by
  intro t member timer known
  rcases step_pending consistent keyed taken member known with
    ⟨start, -, armed, key⟩ | ⟨-, before, unchanged, armed⟩
  · rw [key, armed]
  · rw [armed]
    exact keyed t before timer unchanged

theorem Exact.step (exact_ : c.Exact) (unwrapped : c.Unwrapped admits action)
    (taken : c.step admits action = some later) : later.Exact where
  consistent := step_consistent exact_.consistent taken
  keyed := exact_.keyed.step exact_.consistent taken
  fits t member := by
    have after := step_consistent exact_.consistent taken
    obtain ⟨timer, known⟩ :=
      Option.isSome_iff_exists.mp (State.hasCb_isSome ((mem_timers_iff after t).1 member))
    rcases step_pending exact_.consistent exact_.keyed taken member known with
      ⟨start, armings, armed, -⟩ | ⟨-, before, unchanged, armed⟩
    · rw [expiry_eq known, armed]
      exact unwrapped (Option.isSome_iff_exists.2 ⟨later, taken⟩) t _ armings
    · rw [expiry_eq known, armed, ← expiry_eq unchanged]
      exact exact_.fits t before

theorem exists_timer (consistent : c.state.Consistent) (member : t ∈ c.state.timers) :
    ∃ timer, c.state.timer t = some timer :=
  Option.isSome_iff_exists.mp (State.hasCb_isSome ((mem_timers_iff consistent t).1 member))

/-- `m_next` is when the callback may be handed out. -/
theorem Exact.toNat_next (exact_ : c.Exact) (member : t ∈ c.state.timers) {timer : Timer A C}
    (known : c.state.timer t = some timer) : timer.next.toNat = c.expiry t := by
  have fits := exact_.fits t member
  rw [expiry_eq known] at fits
  rw [exact_.keyed t member timer known, expiry_eq known, UInt64.toNat_add, Nat.mod_eq_of_lt fits]

/-- No callback is handed out early as long as no sum wraps, at any reading. -/
theorem Exact.punctual (exact_ : c.Exact) : c.Punctual admits where
  notEarly now _ seenEmpty probe next ran t handed := by
    have holds := exact_.consistent.1
    rcases holds.wellFormed.listExpiredCb ran with ⟨rfl, -⟩ | ⟨-, batch⟩
    · rw [State.handedOut_of_eq rfl] at handed
      cases handed
    · rw [batch.handedOut_eq, List.mem_filter] at handed
      obtain ⟨member, due⟩ := handed
      obtain ⟨timer, known⟩ := exists_timer exact_.consistent member
      rw [State.due, known, Option.any_some, decide_eq_true_iff] at due
      rw [← exact_.toNat_next member known]
      exact UInt64.le_iff_toNat_le.mp due
  exact now _ some_ := by
    obtain ⟨t, rest, set⟩ := List.exists_cons_of_ne_nil some_
    have member : t ∈ c.state.timers := by
      rw [set]
      exact List.mem_cons_self
    obtain ⟨timer, known⟩ := exists_timer exact_.consistent member
    have head : c.state.timers.head?.bind c.state.timer = some timer := by
      rw [set]
      exact known
    refine ⟨t, member, fun u other => ?_, ?_⟩
    · obtain ⟨timerU, knownU⟩ := exists_timer exact_.consistent other
      obtain ⟨e, first, below⟩ := exact_.consistent.1.deadline_le other knownU
      rw [State.deadline, head] at first
      cases first
      rw [← exact_.toNat_next member known, ← exact_.toNat_next other knownU]
      exact below
    · rw [State.getNextTimer_toNat head now, exact_.toNat_next member known]

/-- The readings so far are not ahead of the clock. -/
structure Past (c : Clocked T A C) : Prop where
  armed : ∀ t ∈ c.state.timers, c.armed t ≤ c.clock
  clock : c.clock.toNat < 2 ^ 63

theorem Past.initial : (Clocked.initial : Clocked T A C).Past where
  armed := nofun
  clock := by
    show (0 : UInt64).toNat < 2 ^ 63
    decide

/-- A timer is armed from the reading of the call on, or from the one it had. -/
theorem arming_start {start ms : UInt64} (armings : c.arming action t = some (start, ms)) :
    action.reading = some start ∨ t ∈ c.state.timers ∧ start = c.armed t := by
  cases action with
  | addTimer u address ms' cb recurring now =>
      simp only [arming] at armings
      split at armings <;> cases armings
      exact .inl rfl
  | cancle u => cases armings
  | refresh u now =>
      simp only [arming] at armings
      split at armings
      · obtain ⟨timer, -, same⟩ := Option.map_eq_some_iff.1 armings
        cases same
        exact .inl rfl
      · cases armings
  | reset u ms' fromNow seen now =>
      simp only [arming] at armings
      split at armings
      · rename_i conditions
        cases armings
        cases fromNow with
        | true => exact .inl rfl
        | false => exact .inr ⟨conditions.2.1, rfl⟩
      · cases armings
  | getNextTimer now => cases armings
  | listExpiredCb seenEmpty now probe =>
      simp only [arming] at armings
      split at armings
      · obtain ⟨timer, -, same⟩ := Option.map_eq_some_iff.1 armings
        cases same
        exact .inl rfl
      · cases armings
  | release u => cases armings

theorem Past.step (exact_ : c.Exact) (past : c.Past)
    (taken : c.step nonDecreasing action = some later) : later.Past := by
  obtain ⟨admitted, -, -, -, clock⟩ := step_call taken
  have ahead : c.clock ≤ later.clock ∧ later.clock.toNat < 2 ^ 63 ∧
      ∀ now, action.reading = some now → later.clock = now := by
    cases reading : action.reading with
    | none =>
        rw [clock, reading]
        exact ⟨UInt64.le_refl _, past.clock, nofun⟩
    | some now =>
        have inOrder := admitted now reading
        simp only [nonDecreasing, Bool.and_eq_true, decide_eq_true_iff] at inOrder
        rw [clock, reading]
        exact ⟨inOrder.1, inOrder.2, fun _ same => Option.some.inj same⟩
  refine ⟨fun t member => ?_, ahead.2.1⟩
  obtain ⟨timer, known⟩ := exists_timer (step_consistent exact_.consistent taken) member
  rcases step_pending exact_.consistent exact_.keyed taken member known with
    ⟨start, armings, armed, -⟩ | ⟨-, before, -, armed⟩
  · rw [armed]
    rcases arming_start armings with reading | ⟨before, rfl⟩
    · exact UInt64.le_of_eq (ahead.2.2 start reading).symm
    · exact UInt64.le_trans (past.armed t before) ahead.1
  · rw [armed]
    exact UInt64.le_trans (past.armed t before) ahead.1

/-- A sum that wraps has passed, so that the callback is handed out at once. -/
theorem Past.fits_of_punctual (past : c.Past) (consistent : c.state.Consistent) (keyed : c.Keyed)
    (punctual : c.Punctual nonDecreasing) : c.Fits := by
  intro t member
  obtain ⟨timer, known⟩ := exists_timer consistent member
  by_contra wraps
  have start := UInt64.le_iff_toNat_le.mp (past.armed t member)
  have bound := past.clock
  have interval := timer.ms.toNat_lt
  have key : timer.next.toNat = (c.armed t).toNat + timer.ms.toNat - 2 ^ 64 := by
    rw [expiry_eq known] at wraps
    rw [keyed t member timer known, UInt64.toNat_add]
    omega
  have due : c.state.due c.clock t = true := by
    rw [State.due, known, Option.any_some, decide_eq_true_iff, UInt64.le_iff_toNat_le]
    omega
  have present : nonDecreasing c.clock c.clock = true := by
    simp only [nonDecreasing, Bool.and_eq_true, decide_eq_true_iff]
    exact ⟨UInt64.le_refl _, past.clock⟩
  have looked : false = true → c.state.timers = [] := fun seen => absurd seen Bool.false_ne_true
  obtain ⟨next, ran, batch⟩ :=
    State.listExpiredCb_batch consistent.1.wellFormed false looked c.clock timer.address
  have handed : t ∈ c.state.handedOut next := by
    rw [batch.handedOut_eq]
    exact List.mem_filter.2 ⟨member, due⟩
  have early := punctual.notEarly c.clock present false timer.address next ran t handed
  omega

/-- With readings that do not decrease, timers are punctual in all states of a run if and only if
no call of it arms a timer for 2^64 or later. With readings in any order they are so if none
does. -/
theorem punctual_iff (actions : List (Action T A C)) :
    (Along (step nonDecreasing) (Punctual nonDecreasing) initial actions ↔
      Guarded (step nonDecreasing) (Unwrapped nonDecreasing) initial actions) ∧
    (Guarded (step anyOrder) (Unwrapped anyOrder) initial actions →
      Along (step anyOrder) (Punctual anyOrder) initial actions) := by
  constructor
  · let invariant := fun c : Clocked T A C => c.Exact ∧ c.Past
    have start : invariant initial := ⟨Exact.initial, Past.initial⟩
    refine along_iff_guarded (fun c holds => holds.1.punctual) (fun holds unwrapped taken =>
      ⟨holds.1.step unwrapped taken, holds.2.step holds.1 taken⟩) ?_ start
    intro c action holds wraps
    simp only [Unwrapped, not_forall] at wraps
    obtain ⟨some_, t, pair, armings, wraps⟩ := wraps
    obtain ⟨later, taken⟩ := Option.isSome_iff_exists.1 some_
    refine ⟨later, taken, fun punctual => ?_⟩
    obtain ⟨member, expiry⟩ := step_armed holds.1.consistent holds.1.keyed taken armings
    have keyed := holds.1.keyed.step holds.1.consistent taken
    have fits := (holds.2.step holds.1 taken).fits_of_punctual
      (step_consistent holds.1.consistent taken) keyed punctual t member
    rw [expiry] at fits
    exact wraps fits
  · intro guarded
    exact (along_of_guarded (fun holds unwrapped taken => Exact.step holds unwrapped taken)
      Exact.initial guarded).mono fun c holds => holds.punctual

/-- A timer with the longest interval, made at the reading 1, is due at the reading 0. -/
theorem not_punctual_longest :
    ¬ ∀ actions : List (Action Nat Nat Nat),
      Along (step nonDecreasing) (Punctual nonDecreasing) initial actions := by
  intro punctual
  have along := punctual [.addTimer 0 0 (~~~0) 7 false 1]
  have later := (along.2 _ rfl).notEarly 1 (by decide) false 9 _ rfl 0 (by decide)
  exact absurd later (by decide)

end Clocked

end Sylar.TimerManager
