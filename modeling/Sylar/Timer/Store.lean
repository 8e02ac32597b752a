import Sylar.Timer.Model
import Mathlib.Order.WithBot
import Mathlib.Data.Prod.Lex

/-!
# The set of timers

A timer is in `m_timers` exactly while it has a callback. Each operation takes
the timer out before it writes `m_next`; `Holds` is what is true in between, with
the timers that are out.
-/

namespace Sylar.TimerManager

open Library

set_option linter.unusedSectionVars false

variable {T A C : Type} [LinearOrder A]

/-- What a timer is ordered by. -/
def keyOf (timer : Option (Timer A C)) : WithBot (ℕ ×ₗ A) :=
  timer.map fun timer => toLex (timer.next.toNat, timer.address)

theorem comparator_iff (lhs rhs : Option (Timer A C)) :
    Timer.comparator lhs rhs = true ↔ keyOf lhs < keyOf rhs := by
  match lhs, rhs with
  | none, none => simp [Timer.comparator]
  | none, some rhs => exact iff_of_true rfl (WithBot.bot_lt_coe _)
  | some lhs, none => exact iff_of_false Bool.false_ne_true not_lt_bot
  | some lhs, some rhs =>
      have keys : keyOf (some lhs) < keyOf (some rhs) ↔ lhs.next.toNat < rhs.next.toNat ∨
          lhs.next.toNat = rhs.next.toNat ∧ lhs.address < rhs.address :=
        WithBot.coe_lt_coe.trans Prod.Lex.toLex_lt_toLex
      rw [keys]
      simp only [Timer.comparator, gt_iff_lt, UInt64.lt_iff_toNat_lt]
      split
      · rename_i below
        simp [below]
      · rename_i notBelow
        split
        · rename_i above
          simp only [Bool.false_eq_true, false_iff]
          omega
        · rename_i notAbove
          have same : lhs.next.toNat = rhs.next.toNat := by omega
          simp [same]

namespace State

variable {s : State T A C} {t u : T} {out : List T}

theorem compares (s : State T A C) : OrderedSet.Compares s.less fun t => keyOf (s.timer t) :=
  fun _ _ => comparator_iff _ _

section

variable [DecidableEq T]

/-- A timer that can be reached. -/
def Living (s : State T A C) (t : T) : Prop := t ∈ s.held ∨ s.hasCb t = true

/-- The set while the timers `out` are taken out of it. -/
structure Holds (s : State T A C) (out : List T) : Prop where
  sorted : OrderedSet.Sorted s.less s.timers
  pending : ∀ t, t ∈ s.timers ↔ s.hasCb t = true ∧ t ∉ out
  taken : ∀ t ∈ out, s.hasCb t = true
  outNodup : out.Nodup
  known : ∀ t ∈ s.held, (s.timer t).isSome = true
  apart : ∀ t u, s.Living t → s.Living u →
    (s.timer t).map Timer.address = (s.timer u).map Timer.address → t = u

theorem hasCb_isSome (has : s.hasCb t = true) : (s.timer t).isSome = true := by
  unfold hasCb at has
  cases known : s.timer t with
  | none => simp [known] at has
  | some timer => rfl

theorem Holds.isSome (holds : Holds s out) (living : s.Living t) :
    (s.timer t).isSome = true :=
  living.elim (holds.known t) hasCb_isSome

/-- Living timers have keys of their own. -/
theorem Holds.key_apart (holds : Holds s out) (first : s.Living t) (second : s.Living u)
    (same : keyOf (s.timer t) = keyOf (s.timer u)) : t = u := by
  obtain ⟨left, knownLeft⟩ := Option.isSome_iff_exists.mp (holds.isSome first)
  obtain ⟨right, knownRight⟩ := Option.isSome_iff_exists.mp (holds.isSome second)
  rw [knownLeft, knownRight] at same
  have keys := toLex.injective (WithBot.coe_injective same)
  refine holds.apart t u first second ?_
  rw [knownLeft, knownRight, Option.map_some, Option.map_some, (Prod.mk.inj keys).2]

theorem Holds.found (holds : Holds s out) (member : t ∈ s.timers) : s.find t = some t :=
  OrderedSet.find_of_mem s.compares holds.sorted member

/-- Whatever is not about the set and its timers does not matter. -/
theorem Holds.setHistory (holds : Holds s out) (history : List (Mark T C)) :
    Holds { s with history } out :=
  ⟨holds.sorted, holds.pending, holds.taken, holds.outNodup, holds.known, holds.apart⟩

theorem Holds.setTickled (holds : Holds s out) (tickled : Bool) : Holds { s with tickled } out :=
  ⟨holds.sorted, holds.pending, holds.taken, holds.outNodup, holds.known, holds.apart⟩

/-- `erase` of a timer that was found. -/
theorem Holds.erase (holds : Holds s []) (member : t ∈ s.timers) :
    Holds { s with timers := s.timers.erase t } [t] where
  sorted := holds.sorted.erase t
  pending u := by
    have nodup := holds.sorted.nodup s.compares
    rw [List.mem_singleton]
    show u ∈ s.timers.erase t ↔ s.hasCb u = true ∧ u ≠ t
    rw [nodup.mem_erase_iff, holds.pending u]
    simp only [List.not_mem_nil, not_false_eq_true, and_true]
    exact and_comm
  taken u same := by
    rw [List.mem_singleton.mp same]
    exact ((holds.pending t).mp member).1
  outNodup := List.pairwise_singleton _ t
  known := holds.known
  apart := holds.apart

/-- The first timers are taken out. -/
theorem Holds.drop (holds : Holds s []) (count : Nat) :
    Holds { s with timers := s.timers.drop count } (s.timers.take count) where
  sorted := holds.sorted.sublist (List.drop_sublist count s.timers)
  pending u := by
    have nodup := holds.sorted.nodup s.compares
    have whole := holds.pending u
    rw [← List.take_append_drop count s.timers, List.nodup_append] at nodup
    rw [← List.take_append_drop count s.timers, List.mem_append] at whole
    show u ∈ s.timers.drop count ↔ s.hasCb u = true ∧ u ∉ s.timers.take count
    constructor
    · intro later
      exact ⟨(whole.mp (.inr later)).1, fun earlier => nodup.2.2 u earlier u later rfl⟩
    · rintro ⟨has, notEarlier⟩
      exact (whole.mpr ⟨has, List.not_mem_nil⟩).resolve_left notEarlier
  taken u earlier := ((holds.pending u).mp (List.take_subset count s.timers earlier)).1
  outNodup := (holds.sorted.nodup s.compares).sublist (List.take_sublist count s.timers)
  known := holds.known
  apart := holds.apart

/-- Nothing is read of a timer that is out. -/
theorem less_write (change : Timer A C → Timer A C) {x y : T} (notX : x ≠ t) (notY : y ≠ t) :
    (s.write t change).less x y = s.less x y := by
  simp only [less, write, Function.update_of_ne notX, Function.update_of_ne notY]

theorem hasCb_write_of_ne (change : Timer A C → Timer A C) (apart : u ≠ t) :
    (s.write t change).hasCb u = s.hasCb u := by
  simp only [hasCb, write, Function.update_of_ne apart]

theorem hasCb_write (change : Timer A C → Timer A C)
    (keeps : ∀ timer, (change timer).cb = timer.cb) (u : T) :
    (s.write t change).hasCb u = s.hasCb u := by
  by_cases same : u = t
  · subst same
    simp only [hasCb, write, Function.update_self]
    cases s.timer u with
    | none => rfl
    | some timer => simp [keeps timer]
  · exact hasCb_write_of_ne change same

theorem isSome_write (change : Timer A C → Timer A C) (u : T) :
    ((s.write t change).timer u).isSome = (s.timer u).isSome := by
  by_cases same : u = t
  · subst same
    simp [write]
  · simp only [write, Function.update_of_ne same]

theorem address_write (change : Timer A C → Timer A C)
    (keeps : ∀ timer, (change timer).address = timer.address) (u : T) :
    ((s.write t change).timer u).map Timer.address = (s.timer u).map Timer.address := by
  by_cases same : u = t
  · subst same
    simp only [write, Function.update_self, Option.map_map]
    exact congrArg (Option.map · (s.timer u)) (funext keeps)
  · simp only [write, Function.update_of_ne same]

/-- A timer that is out can be written to. -/
theorem Holds.write (holds : Holds s out) (member : t ∈ out) (change : Timer A C → Timer A C)
    (cb : ∀ timer, (change timer).cb = timer.cb)
    (address : ∀ timer, (change timer).address = timer.address) :
    Holds (s.write t change) out where
  sorted := by
    have outside : ∀ x ∈ s.timers, x ≠ t := by
      rintro x inside rfl
      exact ((holds.pending x).mp inside).2 member
    exact holds.sorted.congr fun x memberX y memberY =>
      less_write change (outside x memberX) (outside y memberY)
  pending u := by
    rw [hasCb_write change cb]
    exact holds.pending u
  taken u outside := by
    rw [hasCb_write change cb]
    exact holds.taken u outside
  outNodup := holds.outNodup
  known u isHeld := by
    rw [isSome_write]
    exact holds.known u isHeld
  apart u v := by
    simp only [Living, hasCb_write change cb, address_write change address]
    exact holds.apart u v

/-- A timer that is out loses its callback for good. -/
theorem Holds.clear (holds : Holds s (t :: out)) :
    Holds (s.write t fun timer => { timer with cb := none }) out where
  sorted := by
    have outside : ∀ x ∈ s.timers, x ≠ t := by
      rintro x inside rfl
      exact ((holds.pending x).mp inside).2 List.mem_cons_self
    exact holds.sorted.congr fun x memberX y memberY =>
      less_write _ (outside x memberX) (outside y memberY)
  pending u := by
    have now := holds.pending u
    rw [List.mem_cons] at now
    show u ∈ s.timers ↔ _
    rw [now]
    by_cases same : u = t
    · subst same
      have gone : (s.write u fun timer => { timer with cb := none }).hasCb u = false := by
        simp only [hasCb, State.write, Function.update_self]
        cases s.timer u <;> rfl
      simp [gone]
    · rw [hasCb_write_of_ne _ same]
      simp [same]
  taken u outside := by
    have apart : u ≠ t := by
      rintro rfl
      exact (List.nodup_cons.mp holds.outNodup).1 outside
    rw [hasCb_write_of_ne _ apart]
    exact holds.taken u (List.mem_cons_of_mem _ outside)
  outNodup := (List.nodup_cons.mp holds.outNodup).2
  known u isHeld := by
    rw [isSome_write]
    exact holds.known u isHeld
  apart u v first second := by
    have before :
        ∀ w, (s.write t fun timer => { timer with cb := none }).Living w → s.Living w := by
      intro w living
      by_cases same : w = t
      · subst same
        exact .inr (holds.taken w List.mem_cons_self)
      · rwa [Living, hasCb_write_of_ne _ same] at living
    have address : ∀ w, ((s.write t fun timer => { timer with cb := none }).timer w).map
        Timer.address = (s.timer w).map Timer.address := address_write _ fun _ => rfl
    rw [address u, address v]
    exact holds.apart u v (before u first) (before v second)

/-- `insert` of a timer that is out. -/
theorem Holds.insert (holds : Holds s (t :: out)) : Holds (s.insert t) out := by
  have has := holds.taken t List.mem_cons_self
  have apart : ∀ y ∈ s.timers, keyOf (s.timer y) ≠ keyOf (s.timer t) := by
    intro y inside same
    have pending := (holds.pending y).mp inside
    exact pending.2 (holds.key_apart (.inr pending.1) (.inr has) same ▸ List.mem_cons_self)
  exact {
    sorted := OrderedSet.sorted_insert s.compares holds.sorted apart
    pending u := by
      have now := holds.pending u
      rw [List.mem_cons] at now
      show u ∈ OrderedSet.insert s.less t s.timers ↔ s.hasCb u = true ∧ u ∉ out
      rw [OrderedSet.mem_insert s.compares apart, now]
      by_cases same : u = t
      · subst same
        simp [has, (List.nodup_cons.mp holds.outNodup).1]
      · simp [same]
    taken u outside := holds.taken u (List.mem_cons_of_mem _ outside)
    outNodup := (List.nodup_cons.mp holds.outNodup).2
    known := holds.known
    apart := holds.apart }

/-- No timer gets a callback it did not have, or becomes recurring or one-shot. -/
def Keeps (s next : State T A C) : Prop :=
  ∀ t timer, s.timer t = some timer → ∃ later, next.timer t = some later ∧
    later.recurring = timer.recurring ∧ (timer.cb = none → later.cb = none)

theorem Keeps.refl (s : State T A C) : Keeps s s := fun _ timer known => ⟨timer, known, rfl, id⟩

theorem Keeps.trans {first second third : State T A C} (left : Keeps first second)
    (right : Keeps second third) : Keeps first third := by
  intro t timer known
  obtain ⟨middle, knownMiddle, recurringMiddle, cbMiddle⟩ := left t timer known
  obtain ⟨later, knownLater, recurringLater, cbLater⟩ := right t middle knownMiddle
  exact ⟨later, knownLater, recurringLater.trans recurringMiddle, cbLater ∘ cbMiddle⟩

theorem keeps_write (s : State T A C) (t : T) {change : Timer A C → Timer A C}
    (recurring : ∀ timer, (change timer).recurring = timer.recurring)
    (cb : ∀ timer, timer.cb = none → (change timer).cb = none) : Keeps s (s.write t change) := by
  intro u timer known
  by_cases same : u = t
  · subst same
    refine ⟨change timer, ?_, recurring timer, cb timer⟩
    simp [State.write, known]
  · refine ⟨timer, ?_, rfl, id⟩
    simpa only [State.write, Function.update_of_ne same] using known

section Calls

variable {timer : Timer A C}

/-- Clearing the callback of a timer leaves the order alone. -/
theorem less_clear (s : State T A C) (t : T) :
    (s.write t fun timer => { timer with cb := none }).less = s.less := by
  have keys : ∀ u, keyOf ((s.write t fun timer => { timer with cb := none }).timer u) =
      keyOf (s.timer u) := by
    intro u
    by_cases same : u = t
    · subst same
      simp only [State.write, Function.update_self]
      cases s.timer u <;> rfl
    · simp only [State.write, Function.update_of_ne same]
  funext x y
  rw [Bool.eq_iff_iff]
  exact (comparator_iff _ _).trans ((by rw [keys, keys] : _ ↔ _).trans (comparator_iff _ _).symm)

/-- `cancle` of a timer that has a callback takes it out for good. -/
theorem Holds.cancle (holds : Holds s []) (has : s.hasCb t = true) :
    ∃ next, s.cancle t = .ok (true, next) ∧ Holds next [] ∧ Keeps s next ∧
      next.hasCb t = false ∧ next.history = s.history ++ [.cancled t] ∧
        next.timers = s.timers.erase t ∧ ∀ u, u ≠ t → next.timer u = s.timer u := by
  have member := (holds.pending t).mpr ⟨has, List.not_mem_nil⟩
  let cleared := s.write t fun timer => { timer with cb := none }
  have erased : cleared.erase (cleared.find t) =
      .ok { cleared with timers := s.timers.erase t } := by
    have found : cleared.find t = some t := by
      rw [find, less_clear]
      exact holds.found member
    rw [found]
    rfl
  refine ⟨_, ?_, ((holds.erase member).clear).setHistory (s.history ++ [.cancled t]), ?_, ?_, rfl,
    rfl, fun u apart => ?_⟩
  · rw [State.cancle, if_pos has]
    change (cleared.erase (cleared.find t)).bind _ = _
    rw [erased]
    rfl
  · exact keeps_write s t (fun _ => rfl) fun _ _ => rfl
  · simp only [hasCb, State.write, Function.update_self]
    cases s.timer t <;> rfl
  · simp only [State.write, Function.update_of_ne apart]

theorem write_id (s : State T A C) (t : T) : s.write t id = s := by
  rw [State.write, Option.map_id, id, Function.update_eq_self]

/-- The timer `t` is out of the set and expires at `next`; the others stay as they are. -/
structure TakenOut (s : State T A C) (t : T) (next : UInt64) (later : State T A C) : Prop where
  timers : later.timers = s.timers.erase t
  others : ∀ u, u ≠ t → later.timer u = s.timer u
  key : (later.timer t).map Timer.next = some next
  tickled : later.tickled = s.tickled

/-- A timer that was found is taken out and written to. -/
theorem Holds.rekey (holds : Holds s []) (has : s.hasCb t = true)
    (change : Timer A C → Timer A C) (cb : ∀ timer, (change timer).cb = timer.cb)
    (address : ∀ timer, (change timer).address = timer.address)
    (recurring : ∀ timer, (change timer).recurring = timer.recurring) (next : UInt64) :
    s.find t = some t ∧ ∃ later,
      State.writeNext (({ s with timers := s.timers.erase t } : State T A C).write t change) t next =
        .ok later ∧ Holds later [t] ∧ TakenOut s t next later ∧ Keeps s later ∧
          later.history = s.history := by
  have member := (holds.pending t).mpr ⟨has, List.not_mem_nil⟩
  obtain ⟨timer, known⟩ := Option.isSome_iff_exists.mp (hasCb_isSome has)
  have out := (holds.erase member).write List.mem_cons_self change cb address
  have outside : t ∉ s.timers.erase t := (holds.sorted.nodup s.compares).not_mem_erase
  refine ⟨holds.found member, _, if_neg outside,
    out.write List.mem_cons_self _ (fun _ => rfl) fun _ => rfl, ⟨rfl, ?_, ?_, rfl⟩, ?_, rfl⟩
  · intro u apart
    simp only [State.write, Function.update_of_ne apart]
  · simp [State.write, known]
  refine Keeps.trans ?_ (keeps_write _ t (fun _ => rfl) fun _ none_ => none_)
  exact keeps_write s t recurring fun timer none_ => (cb timer).trans none_

/-- `refresh` of a timer that has a callback puts it back in its place. -/
theorem Holds.refresh (holds : Holds s []) (has : s.hasCb t = true) (now : UInt64) :
    ∃ timer later, s.timer t = some timer ∧ s.refresh t now = .ok (true, later.insert t) ∧
      Holds later [t] ∧ TakenOut s t (now + timer.ms) later ∧ Keeps s later ∧
        later.history = s.history := by
  obtain ⟨timer, known⟩ := Option.isSome_iff_exists.mp (hasCb_isSome has)
  obtain ⟨found, later, written, out, takenOut, keeps, history⟩ := holds.rekey has id
    (fun _ => rfl) (fun _ => rfl) (fun _ => rfl) (now + timer.ms)
  rw [write_id] at written
  refine ⟨timer, later, known, ?_, out, takenOut, keeps, history⟩
  simp only [State.refresh, known, has, found, Bool.not_true, Bool.false_eq_true, if_false,
    reduceCtorEq]
  change (State.writeNext { s with timers := s.timers.erase t } t (now + timer.ms)).bind _ = _
  rw [written]
  rfl

/-- A timer without a callback is left alone. -/
theorem refresh_spent (known : (s.timer t).isSome = true) (spent : s.hasCb t = false)
    (now : UInt64) : s.refresh t now = .ok (false, s) := by
  obtain ⟨timer, known⟩ := Option.isSome_iff_exists.mp known
  simp only [State.refresh, known, spent, Bool.not_false, if_true]
  rfl

theorem cancle_spent (spent : s.hasCb t = false) : s.cancle t = .ok (false, s) := by
  rw [State.cancle, spent]
  rfl

/-- `addTimer` under the lock, of a timer that is not in the set. -/
theorem Holds.addTimerLocked (holds : Holds s (t :: out)) :
    Holds (s.addTimerLocked t).2 out ∧ Keeps s (s.addTimerLocked t).2 ∧
      (s.addTimerLocked t).2.history = s.history := by
  simp only [State.addTimerLocked]
  split
  · exact ⟨holds.insert.setTickled true, Keeps.refl s, rfl⟩
  · exact ⟨holds.insert, Keeps.refl s, rfl⟩

/-- `reset` of a timer, whatever its period was when it was first looked at. -/
theorem Holds.reset (holds : Holds s []) (known : (s.timer t).isSome = true) (ms : UInt64)
    (fromNow : Bool) (seen now : UInt64) :
    (∃ answer, s.reset t ms fromNow seen now = .ok (answer, false, s)) ∨
      ∃ timer later, s.timer t = some timer ∧ ¬(ms = seen ∧ !fromNow) ∧ t ∈ s.timers ∧
        s.reset t ms fromNow seen now = .ok (true, later.addTimerLocked t) ∧ Holds later [t] ∧
          TakenOut s t ((if fromNow then now else timer.next - timer.ms) + ms) later ∧
            Keeps s later ∧ later.history = s.history := by
  obtain ⟨timer, known⟩ := Option.isSome_iff_exists.mp known
  unfold State.reset
  split
  · exact .inl ⟨true, rfl⟩
  · rename_i changes
    cases has : s.hasCb t with
    | false =>
        refine .inl ⟨false, ?_⟩
        simp only [known, Bool.not_false, if_true]
        rfl
    | true =>
        obtain ⟨found, later, written, out, takenOut, keeps, history⟩ := holds.rekey has
          (fun timer => { timer with ms }) (fun _ => rfl) (fun _ => rfl) (fun _ => rfl)
          ((if fromNow then now else timer.next - timer.ms) + ms)
        have member := (holds.pending t).mpr ⟨has, List.not_mem_nil⟩
        refine .inr ⟨timer, later, known, changes, member, ?_, out, takenOut, keeps, history⟩
        simp only [known, found, Bool.not_true, Bool.false_eq_true, if_false, reduceCtorEq]
        change (State.writeNext _ t _).bind _ = _
        rw [written]
        rfl

/-- A timer is constructed, and its caller holds it. -/
def construct (s : State T A C) (t : T) (timer : Timer A C) : State T A C :=
  { s with timer := Function.update s.timer t (some timer), held := t :: s.held }

@[simp] theorem construct_self (s : State T A C) (t : T) (timer : Timer A C) :
    (s.construct t timer).timer t = some timer := by
  simp only [construct, Function.update_self]

theorem construct_of_ne (s : State T A C) (timer : Timer A C) (apart : u ≠ t) :
    (s.construct t timer).timer u = s.timer u := by
  simp only [construct, Function.update_of_ne apart]

/-- A new timer at an address that no living timer has. -/
theorem Holds.construct (holds : Holds s []) {timer : Timer A C}
    (fresh : (s.timer t).isNone = true) (has : timer.cb.isSome = true)
    (alone : ∀ u ∈ s.held ++ s.timers, (s.timer u).map Timer.address ≠ some timer.address) :
    Holds (s.construct t timer) [t] ∧ Keeps s (s.construct t timer) := by
  have old : ∀ u, (s.timer u).isSome = true → u ≠ t := by
    rintro u known rfl
    rw [Option.isNone_iff_eq_none.mp fresh] at known
    cases known
  have sameCb : ∀ u, u ≠ t → (s.construct t timer).hasCb u = s.hasCb u := fun u apart => by
    simp only [hasCb, construct_of_ne s timer apart]
  have has : (s.construct t timer).hasCb t = true := by
    rw [hasCb, construct_self]
    exact has
  have lives : ∀ u, u ≠ t → (s.construct t timer).Living u → s.Living u := by
    rintro u apart (isHeld | hasIt)
    · exact .inl ((List.mem_cons.mp isHeld).resolve_left apart)
    · exact .inr (sameCb u apart ▸ hasIt)
  have elsewhere : ∀ u, u ≠ t → (s.construct t timer).Living u →
      ((s.construct t timer).timer u).map Timer.address ≠
        ((s.construct t timer).timer t).map Timer.address := by
    intro u apart living
    rw [construct_of_ne s timer apart, construct_self]
    refine alone u (List.mem_append.mpr ?_)
    rcases lives u apart living with isHeld | hasIt
    · exact .inl isHeld
    · exact .inr ((holds.pending u).mpr ⟨hasIt, List.not_mem_nil⟩)
  refine ⟨?_, fun u other known => ?_⟩
  · exact {
      sorted := by
        have inside : ∀ x ∈ s.timers, x ≠ t := fun x member =>
          old x (hasCb_isSome ((holds.pending x).mp member).1)
        refine holds.sorted.congr fun x memberX y memberY => ?_
        simp only [less, construct_of_ne s timer (inside x memberX),
          construct_of_ne s timer (inside y memberY)]
      pending u := by
        rw [List.mem_singleton]
        show u ∈ s.timers ↔ _
        rw [holds.pending u]
        by_cases new : u = t
        · subst new
          have noCb : s.hasCb u = false := by
            simp [hasCb, Option.isNone_iff_eq_none.mp fresh]
          simp [noCb]
        · simp [sameCb u new, new]
      taken u new := by rw [List.mem_singleton.mp new, has]
      outNodup := List.pairwise_singleton _ t
      known u isHeld := by
        by_cases new : u = t
        · subst new
          exact hasCb_isSome has
        · rw [construct_of_ne s timer new]
          exact holds.known u ((List.mem_cons.mp isHeld).resolve_left new)
      apart u v first second equal := by
        by_cases newU : u = t
        · subst newU
          by_contra apart
          exact elsewhere v (Ne.symm apart) second equal.symm
        · by_cases newV : v = t
          · subst newV
            exact absurd equal (elsewhere u newU first)
          · rw [construct_of_ne s timer newU, construct_of_ne s timer newV] at equal
            exact holds.apart u v (lives u newU first) (lives v newV second) equal }
  · have apart := old u (by rw [known]; rfl)
    exact ⟨other, (construct_of_ne s timer apart).trans known, rfl, id⟩

theorem Holds.addTimer (holds : Holds s []) {address : A} {ms : UInt64} {cb : C}
    {recurring : Bool} {now : UInt64}
    (enabled : s.Enabled (.addTimer t address ms cb recurring now)) :
    Holds (s.addTimer t address ms cb recurring now).2 [] ∧
      Keeps s (s.addTimer t address ms cb recurring now).2 ∧
        (s.addTimer t address ms cb recurring now).2.history = s.history := by
  let timer : Timer A C := { address, recurring, ms, next := now + ms, cb := some cb }
  have made : Holds (s.construct t timer) [t] ∧ Keeps s (s.construct t timer) :=
    holds.construct enabled.1 rfl enabled.2
  have put := made.1.addTimerLocked
  exact ⟨put.1, made.2.trans put.2.1, put.2.2⟩

/-- What `listExpiredCb` does to a timer: its callback is handed out, and it has
none any more unless it is recurring. -/
theorem Holds.deliver (holds : Holds s (t :: out)) (now : UInt64) :
    ∃ cb next, s.deliver now t = .ok next ∧ Holds next out ∧ Keeps s next ∧
      next.history = s.history ++ [.handed t cb] ∧
      ∀ timer, s.timer t = some timer → timer.recurring = false → next.hasCb t = false := by
  have has := holds.taken t List.mem_cons_self
  obtain ⟨timer, known⟩ := Option.isSome_iff_exists.mp (hasCb_isSome has)
  have outside : t ∉ s.timers := fun inside => ((holds.pending t).mp inside).2 List.mem_cons_self
  let told : State T A C := { s with history := s.history ++ [.handed t timer.cb] }
  have ready : Holds told (t :: out) := holds.setHistory _
  cases again : timer.recurring with
  | true =>
      have written : told.writeNext t (now + timer.ms) =
          .ok (told.write t fun timer' => { timer' with next := now + timer.ms }) := if_neg outside
      refine ⟨timer.cb, _, ?_,
        (ready.write List.mem_cons_self (fun timer' => { timer' with next := now + timer.ms })
          (fun _ => rfl) fun _ => rfl).insert, ?_, rfl, ?_⟩
      · simp only [State.deliver, known, again, if_true]
        change (told.writeNext t (now + timer.ms)).bind _ = _
        rw [written]
        rfl
      · exact keeps_write s t (fun _ => rfl) fun _ none_ => none_
      · intro other same oneShot
        rw [known] at same
        cases same
        rw [again] at oneShot
        cases oneShot
  | false =>
      refine ⟨timer.cb, told.write t fun timer => { timer with cb := none }, ?_, ready.clear, ?_, rfl,
        fun _ _ _ => ?_⟩
      · simp only [State.deliver, known, again, Bool.false_eq_true, if_false]
        rfl
      · exact keeps_write s t (fun _ => rfl) fun _ _ => rfl
      · simp only [hasCb, State.write, Function.update_self]
        cases told.timer t <;> rfl

end Calls

section History

/-- What the history tells about the timers. -/
structure Recorded (s : State T A C) : Prop where
  handed : ∀ t cb, .handed t cb ∈ s.history → ∃ timer, s.timer t = some timer ∧
    (timer.recurring = false → timer.cb = none)
  cancled : ∀ t, .cancled t ∈ s.history → ∃ timer, s.timer t = some timer ∧ timer.cb = none
  once : ∀ t timer, s.timer t = some timer → timer.recurring = false →
    ∀ before cb after, s.history = before ++ .handed t cb :: after →
      ∀ again, .handed t again ∉ after
  silent : ∀ t before after, s.history = before ++ .cancled t :: after →
    ∀ cb, .handed t cb ∉ after

theorem recorded_initial : (initial : State T A C).Recorded where
  handed _ _ member := absurd member List.not_mem_nil
  cancled _ member := absurd member List.not_mem_nil
  once _ _ known := by cases known
  silent _ _ _ split := by simp [initial] at split

/-- A call that hands nothing out and cancels nothing. -/
theorem Recorded.quiet {next : State T A C} (recorded : s.Recorded) (keeps : Keeps s next)
    (history : next.history = s.history) : next.Recorded where
  handed t cb member := by
    rw [history] at member
    obtain ⟨timer, known, spent⟩ := recorded.handed t cb member
    obtain ⟨later, knownLater, same, none_⟩ := keeps t timer known
    exact ⟨later, knownLater, fun oneShot => none_ (spent (same.symm.trans oneShot))⟩
  cancled t member := by
    rw [history] at member
    obtain ⟨timer, known, spent⟩ := recorded.cancled t member
    obtain ⟨later, knownLater, _, none_⟩ := keeps t timer known
    exact ⟨later, knownLater, none_ spent⟩
  once t later knownLater oneShot before cb after split := by
    rw [history] at split
    obtain ⟨timer, known, _⟩ := recorded.handed t cb (by rw [split]; simp)
    obtain ⟨later', knownLater', same, _⟩ := keeps t timer known
    rw [knownLater] at knownLater'
    cases knownLater'
    exact recorded.once t timer known (same.symm.trans oneShot) before cb after split
  silent t before after split := by
    rw [history] at split
    exact recorded.silent t before after split

/-- An entry of a history is its last one or stands before it. -/
theorem append_singleton_split {α : Type} {entries before after : List α} {last entry : α}
    (split : entries ++ [last] = before ++ entry :: after) :
    (entries = before ∧ last = entry ∧ after = []) ∨
      ∃ more, after = more ++ [last] ∧ entries = before ++ entry :: more := by
  rcases List.eq_nil_or_concat' after with rfl | ⟨more, final, rfl⟩
  · obtain ⟨same, ends⟩ := List.append_inj' split rfl
    cases ends
    exact .inl ⟨same, rfl, rfl⟩
  · rw [← List.cons_append, ← List.append_assoc] at split
    obtain ⟨same, ends⟩ := List.append_inj' split rfl
    cases ends
    exact .inr ⟨more, rfl, same⟩

/-- A timer that has a callback was not cancelled, and if it is one-shot its
callback was not handed out. -/
theorem Recorded.pending (recorded : s.Recorded) (has : s.hasCb t = true) :
    .cancled t ∉ s.history ∧ ∀ timer, s.timer t = some timer → timer.recurring = false →
      ∀ cb, .handed t cb ∉ s.history := by
  constructor
  · intro member
    obtain ⟨timer, known, none_⟩ := recorded.cancled t member
    simp [hasCb, known, none_] at has
  · intro timer known oneShot cb member
    obtain ⟨timer', known', none_⟩ := recorded.handed t cb member
    rw [known] at known'
    cases known'
    simp [hasCb, known, none_ oneShot] at has

theorem cb_none_of_spent {timer : Timer A C} (known : s.timer t = some timer)
    (spent : s.hasCb t = false) : timer.cb = none := by
  simpa [hasCb, known] using spent

/-- A call that adds an entry to the history. -/
theorem Recorded.append {next : State T A C} (recorded : s.Recorded) (keeps : Keeps s next)
    {mark : Mark T C} (history : next.history = s.history ++ [mark])
    (handed : ∀ t cb, mark = .handed t cb → s.hasCb t = true ∧
      ∀ timer, s.timer t = some timer → timer.recurring = false → next.hasCb t = false)
    (cancled : ∀ t, mark = .cancled t → s.hasCb t = true ∧ next.hasCb t = false) :
    next.Recorded := by
  have old : Recorded { next with history := s.history } := recorded.quiet keeps rfl
  constructor
  · intro t cb member
    rw [history, List.mem_append, List.mem_singleton] at member
    rcases member with earlier | new
    · exact old.handed t cb earlier
    · obtain ⟨has, spent⟩ := handed t cb new.symm
      obtain ⟨timer, known⟩ := Option.isSome_iff_exists.mp (hasCb_isSome has)
      obtain ⟨later, knownLater, same, _⟩ := keeps t timer known
      exact ⟨later, knownLater, fun oneShot =>
        cb_none_of_spent knownLater (spent timer known (same.symm.trans oneShot))⟩
  · intro t member
    rw [history, List.mem_append, List.mem_singleton] at member
    rcases member with earlier | new
    · exact old.cancled t earlier
    · obtain ⟨has, spent⟩ := cancled t new.symm
      obtain ⟨timer, known⟩ := Option.isSome_iff_exists.mp (hasCb_isSome has)
      obtain ⟨later, knownLater, _⟩ := keeps t timer known
      exact ⟨later, knownLater, cb_none_of_spent knownLater spent⟩
  · intro t later knownLater oneShot before cb after split again
    rw [history] at split
    rcases append_singleton_split split with ⟨_, _, rfl⟩ | ⟨more, rfl, earlier⟩
    · exact List.not_mem_nil
    · rw [List.mem_append, List.mem_singleton]
      rintro (inside | new)
      · exact old.once t later knownLater oneShot before cb more earlier again inside
      · have first : Mark.handed t cb ∈ s.history := by
          rw [earlier]
          simp
        obtain ⟨timer, known, _⟩ := recorded.handed t cb first
        obtain ⟨later', knownLater', same, _⟩ := keeps t timer known
        rw [knownLater] at knownLater'
        cases knownLater'
        exact (recorded.pending (handed t again new.symm).1).2 timer known
          (same.symm.trans oneShot) cb first
  · intro t before after split cb
    rw [history] at split
    rcases append_singleton_split split with ⟨_, _, rfl⟩ | ⟨more, rfl, earlier⟩
    · exact List.not_mem_nil
    · rw [List.mem_append, List.mem_singleton]
      rintro (inside | new)
      · exact old.silent t before more earlier cb inside
      · refine (recorded.pending (handed t cb new.symm).1).1 ?_
        rw [earlier]
        simp

end History

section Runs

/-- The timers that were taken out are delivered one after the other. -/
theorem Holds.deliverAll (holds : Holds s out) (recorded : s.Recorded) (now : UInt64) :
    ∃ next, out.foldlM (State.deliver now) s = .ok next ∧ Holds next [] ∧ next.Recorded := by
  induction out generalizing s with
  | nil => exact ⟨s, rfl, holds, recorded⟩
  | cons t out inductionHypothesis =>
      have has := holds.taken t List.mem_cons_self
      obtain ⟨cb, middle, delivered, holdsMiddle, keeps, history, spent⟩ := holds.deliver now
      have handed : ∀ u cb', Mark.handed t cb = .handed u cb' → s.hasCb u = true ∧
          ∀ timer, s.timer u = some timer → timer.recurring = false → middle.hasCb u = false := by
        rintro u cb' ⟨⟩
        exact ⟨has, spent⟩
      obtain ⟨next, others, rest⟩ :=
        inductionHypothesis holdsMiddle (recorded.append keeps history handed nofun)
      refine ⟨next, ?_, rest⟩
      rw [List.foldlM_cons, delivered]
      exact others

/-- The timers that are taken out are the first of the set. -/
theorem expired_eq_take (s : State T A C) (now : UInt64) (probe : A) :
    s.expired now probe = s.timers.take (s.expired now probe).length := by
  refine List.prefix_iff_eq_take.mp ?_
  have first := List.takeWhile_prefix (l := s.timers) fun t =>
    Timer.comparator (s.timer t) (some ⟨probe, false, 0, now, none⟩)
  have second : s.expired now probe <+: _ ++ s.timers.drop _ :=
    (List.prefix_append_right_inj _).mpr (List.takeWhile_prefix _)
  exact List.prefix_iff_eq_append.mp first ▸ second

theorem Holds.listExpiredCb (holds : Holds s []) (recorded : s.Recorded) (seenEmpty : Bool)
    (now : UInt64) (probe : A) :
    ∃ next, s.listExpiredCb seenEmpty now probe = .ok next ∧ Holds next [] ∧ next.Recorded := by
  unfold State.listExpiredCb
  split
  · exact ⟨s, rfl, holds, recorded⟩
  · have out := holds.drop (s.expired now probe).length
    rw [← expired_eq_take] at out
    exact out.deliverAll (recorded.quiet (Keeps.refl s) rfl) now

/-- The set and the history between two calls. -/
def Consistent (s : State T A C) : Prop := Holds s [] ∧ s.Recorded

theorem Consistent.call (consistent : s.Consistent) {action : Action T A C}
    (enabled : s.Enabled action) : ∃ next, s.call action = .ok next ∧ next.Consistent := by
  obtain ⟨holds, recorded⟩ := consistent
  cases action with
  | addTimer t address ms cb recurring now =>
      obtain ⟨added, keeps, history⟩ := holds.addTimer enabled
      exact ⟨_, rfl, added, recorded.quiet keeps history⟩
  | cancle t =>
      cases has : s.hasCb t with
      | false => exact ⟨s, by rw [State.call, cancle_spent has]; rfl, holds, recorded⟩
      | true =>
          obtain ⟨next, cancelled, after, keeps, spent, history, _⟩ := holds.cancle has
          have cancled : ∀ u, Mark.cancled t = (.cancled u : Mark T C) →
              s.hasCb u = true ∧ next.hasCb u = false := by
            rintro u ⟨⟩
            exact ⟨has, spent⟩
          refine ⟨next, ?_, after, recorded.append keeps history nofun cancled⟩
          rw [State.call, cancelled]
          rfl
  | refresh t now =>
      cases has : s.hasCb t with
      | false =>
          refine ⟨s, ?_, holds, recorded⟩
          rw [State.call, refresh_spent (holds.known t enabled) has]
          rfl
      | true =>
          obtain ⟨_, later, _, refreshed, out, _, keeps, history⟩ := holds.refresh has now
          refine ⟨later.insert t, ?_, out.insert, recorded.quiet keeps history⟩
          rw [State.call, refreshed]
          rfl
  | reset t ms fromNow seen now =>
      rcases holds.reset (holds.known t enabled) ms fromNow seen now with
        ⟨answer, ran⟩ | ⟨_, later, _, _, _, ran, out, _, keeps, history⟩
      · refine ⟨s, ?_, holds, recorded⟩
        rw [State.call, ran]
        rfl
      · have put := out.addTimerLocked
        refine ⟨(later.addTimerLocked t).2, ?_, put.1,
          recorded.quiet (keeps.trans put.2.1) (put.2.2.trans history)⟩
        rw [State.call, ran]
        rfl
  | getNextTimer now =>
      refine ⟨_, rfl, ?_⟩
      simp only [State.getNextTimer]
      split
      · exact ⟨holds.setTickled false, recorded.quiet (Keeps.refl s) rfl⟩
      · exact ⟨holds.setTickled false, recorded.quiet (Keeps.refl s) rfl⟩
  | listExpiredCb seenEmpty now probe => exact holds.listExpiredCb recorded seenEmpty now probe
  | release t =>
      refine ⟨_, rfl, ?_, recorded.quiet (Keeps.refl s) rfl⟩
      exact {
        sorted := holds.sorted
        pending := holds.pending
        taken := holds.taken
        outNodup := holds.outNodup
        known u isHeld := holds.known u (List.erase_subset isHeld)
        apart u v first second := holds.apart u v (first.imp_left (List.erase_subset ·))
          (second.imp_left (List.erase_subset ·)) }

theorem Consistent.step (consistent : s.Consistent) {action : Action T A C} {next : State T A C}
    (taken : s.step action = some next) : next.Consistent := by
  unfold State.step at taken
  split at taken
  · rename_i enabled
    obtain ⟨after, ran, kept⟩ := consistent.call enabled
    rw [ran] at taken
    cases taken
    exact kept
  · cases taken

theorem consistent_initial : (initial : State T A C).Consistent := by
  refine ⟨?_, recorded_initial⟩
  constructor
  · exact List.Pairwise.nil
  · intro t
    simp [initial, hasCb]
  · exact nofun
  · exact List.nodup_nil
  · exact nofun
  · rintro t u (isHeld | has)
    · cases isHeld
    · simp [initial, hasCb] at has

/-- What the set of timers is for. It is in the order of the comparison, without
duplicates; a timer is in it exactly while it has a callback, and is then found;
no call erases `end()` or writes the key of a timer in the set; `cancle` and
`refresh` return true exactly for a timer that is in it; and the callback of a
one-shot timer is handed out at most once, and that of a cancelled timer no more. -/
structure Sound (s : State T A C) : Prop where
  ordered : s.timers.Pairwise fun t u => s.less t u = true
  noDuplicates : s.timers.Nodup
  pending : ∀ t, t ∈ s.timers ↔ s.hasCb t = true
  found : ∀ t, s.hasCb t = true → s.find t = some t
  faultless : ∀ action, s.Enabled action → ∃ next, s.call action = .ok next
  cancle : ∀ t ∈ s.held, ∃ next, s.cancle t = .ok (decide (t ∈ s.timers), next)
  refresh : ∀ t ∈ s.held, ∀ now, ∃ next, s.refresh t now = .ok (decide (t ∈ s.timers), next)
  once : ∀ t timer, s.timer t = some timer → timer.recurring = false →
    ∀ before cb after, s.history = before ++ .handed t cb :: after →
      ∀ again, .handed t again ∉ after
  silent : ∀ t before after, s.history = before ++ .cancled t :: after →
    ∀ cb, .handed t cb ∉ after

theorem Consistent.sound (consistent : s.Consistent) : s.Sound := by
  obtain ⟨holds, recorded⟩ := consistent
  have pending : ∀ t, t ∈ s.timers ↔ s.hasCb t = true := fun t => by
    simpa using holds.pending t
  have answer : ∀ t, decide (t ∈ s.timers) = s.hasCb t := fun t => by
    rw [Bool.eq_iff_iff, decide_eq_true_iff]
    exact pending t
  constructor
  · exact holds.sorted
  · exact holds.sorted.nodup s.compares
  · exact pending
  · exact fun t has => holds.found ((pending t).mpr has)
  · exact fun action enabled => (Consistent.call ⟨holds, recorded⟩ enabled).imp fun _ => And.left
  · intro t _
    rw [answer]
    cases has : s.hasCb t with
    | false => exact ⟨s, cancle_spent has⟩
    | true => exact (holds.cancle has).imp fun _ => And.left
  · intro t isHeld now
    rw [answer]
    cases has : s.hasCb t with
    | false => exact ⟨s, refresh_spent (holds.known t isHeld) has now⟩
    | true =>
        obtain ⟨_, later, _, refreshed, _⟩ := holds.refresh has now
        exact ⟨later.insert t, refreshed⟩
  · exact recorded.once
  · exact recorded.silent

end Runs

end

end State

end Sylar.TimerManager
