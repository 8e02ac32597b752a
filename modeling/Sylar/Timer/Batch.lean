import Sylar.Timer.Store
import Mathlib.Data.List.TakeWhile

/-!
# The timers that expire together

`listExpiredCb` splits the set at `lower_bound` of a probe and goes on over the timers with the
very deadline, so that the address of the probe does not matter. The timers taken out are then
renewed or spent one after the other, and the renewed ones go back into the set.
-/

namespace Sylar.TimerManager.State

open Library

set_option linter.unusedSectionVars false

variable {T A C : Type} [DecidableEq T] [LinearOrder A] {s next : State T A C} {t u : T}
  {now : UInt64} {out : List T}

/-- The set is in order, and its timers are there, each at an address of its own. -/
structure WellFormed (s : State T A C) : Prop where
  sorted : OrderedSet.Sorted s.less s.timers
  known : ∀ t ∈ s.timers, (s.timer t).isSome = true
  apart : ∀ t ∈ s.timers, ∀ u ∈ s.timers,
    (s.timer t).map Timer.address = (s.timer u).map Timer.address → t = u

/-- What holds between any two calls is enough. -/
theorem Holds.wellFormed (holds : Holds s []) : s.WellFormed where
  sorted := holds.sorted
  known t member := hasCb_isSome ((holds.pending t).mp member).1
  apart t member u other := holds.apart t u (.inr ((holds.pending t).mp member).1)
    (.inr ((holds.pending u).mp other).1)

/-- The timer has expired. -/
def due (s : State T A C) (now : UInt64) (t : T) : Bool :=
  (s.timer t).any fun timer => timer.next ≤ now

/-- A timer after its callback was handed out. -/
def renewed (now : UInt64) (timer : Timer A C) : Timer A C :=
  if timer.recurring then { timer with next := now + timer.ms } else { timer with cb := none }

/-- The entry of the history for a timer that expires. -/
def handing (s : State T A C) (t : T) : Mark T C := .handed t ((s.timer t).bind Timer.cb)

/-- The timer is one that begins again. -/
def recurs (s : State T A C) (t : T) : Bool := (s.timer t).any Timer.recurring

/-- What delivering the timers `out`, which are out of the set, does. -/
structure Delivered (s : State T A C) (now : UInt64) (out : List T) (next : State T A C) : Prop where
  history : next.history = s.history ++ out.map s.handing
  inside : ∀ t ∈ out, next.timer t = (s.timer t).map (renewed now)
  outside : ∀ t, t ∉ out → next.timer t = s.timer t
  timers : ∀ t, t ∈ next.timers ↔ t ∈ s.timers ∨ t ∈ out ∧ s.recurs t = true
  sorted : OrderedSet.Sorted next.less next.timers
  held : next.held = s.held

/-- The timers of the set and those that are out of it. -/
structure Walking (s : State T A C) (out : List T) : Prop where
  sorted : OrderedSet.Sorted s.less s.timers
  nodup : out.Nodup
  disjoint : ∀ t ∈ out, t ∉ s.timers
  known : ∀ t ∈ out ++ s.timers, (s.timer t).isSome = true
  apart : ∀ t ∈ out ++ s.timers, ∀ u ∈ out ++ s.timers,
    (s.timer t).map Timer.address = (s.timer u).map Timer.address → t = u

/-- The state in which one timer was handed out and renewed, before it goes back into the set. -/
def handOut (s : State T A C) (now : UInt64) (t : T) : State T A C :=
  { s with
    history := s.history ++ [s.handing t]
    timer := Function.update s.timer t ((s.timer t).map (renewed now)) }

theorem deliver_eq {timer : Timer A C} (known : s.timer t = some timer) (outside : t ∉ s.timers) :
    s.deliver now t =
      .ok (if s.recurs t then (s.handOut now t).insert t else s.handOut now t) := by
  obtain ⟨address, recurring, ms, deadline, cb⟩ := timer
  simp only [State.deliver, known, handOut, handing, recurs, Option.any_some, Option.bind_some,
    Option.map_some, renewed]
  cases recurring with
  | true =>
      simp only [if_true, writeNext, if_neg outside, State.write, known, Option.map_some]
      rfl
  | false =>
      simp only [Bool.false_eq_true, if_false, State.write, known, Option.map_some]
      rfl

theorem handOut_self (s : State T A C) (now : UInt64) (t : T) :
    (s.handOut now t).timer t = (s.timer t).map (renewed now) := Function.update_self ..

theorem handOut_of_ne (s : State T A C) (now : UInt64) (different : u ≠ t) :
    (s.handOut now t).timer u = s.timer u := Function.update_of_ne different ..

/-- Addresses never change. -/
theorem handOut_address (s : State T A C) (now : UInt64) (t u : T) :
    ((s.handOut now t).timer u).map Timer.address = (s.timer u).map Timer.address := by
  by_cases same : u = t
  · subst same
    rw [handOut_self, Option.map_map]
    refine congrArg (Option.map · (s.timer u)) (funext fun timer => ?_)
    simp only [Function.comp_apply, renewed]
    split <;> rfl
  · rw [handOut_of_ne s now same]

theorem handOut_isSome (s : State T A C) (now : UInt64) (t u : T) :
    ((s.handOut now t).timer u).isSome = (s.timer u).isSome := by
  have same := congrArg Option.isSome (handOut_address s now t u)
  rwa [Option.isSome_map, Option.isSome_map] at same

theorem address_of_keyOf {timer other : Option (Timer A C)} (some_ : timer.isSome = true)
    (same : keyOf timer = keyOf other) : timer.map Timer.address = other.map Timer.address := by
  obtain ⟨timer, rfl⟩ := Option.isSome_iff_exists.mp some_
  cases other with
  | none => cases same
  | some other =>
      have keys := toLex.injective (WithBot.coe_injective same)
      exact congrArg some (Prod.mk.inj keys).2

/-- The order only depends on the timers. -/
theorem less_eq (same : next.timer = s.timer) : next.less = s.less := by
  funext x y
  rw [less, less, same]

/-- Delivering one timer. -/
theorem Walking.deliver (walking : Walking s (t :: out)) (now : UInt64) :
    ∃ next, s.deliver now t = .ok next ∧ Delivered s now [t] next ∧ Walking next out := by
  have outside : t ∉ s.timers := walking.disjoint t List.mem_cons_self
  have aside : t ∉ out := (List.nodup_cons.mp walking.nodup).1
  obtain ⟨timer, known⟩ := Option.isSome_iff_exists.mp (walking.known t List.mem_cons_self)
  have member {u : T} (inside : u ∈ s.timers) : u ∈ t :: out ++ s.timers :=
    List.mem_append_right _ inside
  have sorted : OrderedSet.Sorted (s.handOut now t).less s.timers := by
    refine walking.sorted.congr fun x insideX y insideY => ?_
    have notX : x ≠ t := fun same => outside (same ▸ insideX)
    have notY : y ≠ t := fun same => outside (same ▸ insideY)
    rw [less, less, handOut_of_ne s now notX, handOut_of_ne s now notY]
  have apart : ∀ y ∈ s.timers,
      keyOf ((s.handOut now t).timer y) ≠ keyOf ((s.handOut now t).timer t) := by
    intro y inside same
    have some_ : ((s.handOut now t).timer y).isSome = true := by
      rw [handOut_isSome]
      exact walking.known y (member inside)
    have addresses := address_of_keyOf some_ same
    rw [handOut_address, handOut_address] at addresses
    exact outside (walking.apart y (member inside) t List.mem_cons_self addresses ▸ inside)
  -- the timers of the set afterwards
  have inserted : ∀ u, u ∈ ((s.handOut now t).insert t).timers ↔ u = t ∨ u ∈ s.timers := fun u =>
    OrderedSet.mem_insert (s.handOut now t).compares apart
  have into : OrderedSet.Sorted (s.handOut now t).less ((s.handOut now t).insert t).timers :=
    OrderedSet.sorted_insert (s.handOut now t).compares sorted apart
  have timers : ∀ u, u ∈ (if s.recurs t then (s.handOut now t).insert t
      else s.handOut now t).timers ↔ u ∈ s.timers ∨ u ∈ [t] ∧ s.recurs u = true := by
    intro u
    rw [List.mem_singleton]
    cases again : s.recurs t with
    | true =>
        rw [if_pos rfl, inserted u]
        constructor
        · rintro (rfl | inside)
          · exact .inr ⟨rfl, again⟩
          · exact .inl inside
        · rintro (inside | ⟨same, _⟩)
          · exact .inr inside
          · exact .inl same
    | false =>
        rw [if_neg Bool.false_ne_true]
        constructor
        · exact .inl
        · rintro (inside | ⟨rfl, recurring⟩)
          · exact inside
          · rw [again] at recurring
            cases recurring
  have timer_ : (if s.recurs t then (s.handOut now t).insert t else s.handOut now t).timer =
      (s.handOut now t).timer := by split <;> rfl
  have within {u : T} (there : u ∈ out ++ (if s.recurs t then (s.handOut now t).insert t
      else s.handOut now t).timers) : u ∈ t :: out ++ s.timers := by
    rcases List.mem_append.mp there with left_ | there
    · exact List.mem_append_left _ (List.mem_cons_of_mem _ left_)
    · rcases (timers u).mp there with inside | ⟨same, _⟩
      · exact member inside
      · rw [List.mem_singleton.mp same]
        exact List.mem_cons_self
  have sorted_ : OrderedSet.Sorted (s.handOut now t).less
      (if s.recurs t then (s.handOut now t).insert t else s.handOut now t).timers := by
    split
    · exact into
    · exact sorted
  refine ⟨_, deliver_eq known outside, ?_, ?_⟩
  · exact {
      history := by split <;> rfl
      inside := fun u same => by
        rw [timer_, List.mem_singleton.mp same, handOut_self]
      outside := fun u different => by
        rw [timer_, handOut_of_ne s now (fun same => different (List.mem_singleton.mpr same))]
      timers := timers
      sorted := by
        rw [less_eq timer_]
        exact sorted_
      held := by split <;> rfl }
  · exact {
      sorted := by
        rw [less_eq timer_]
        exact sorted_
      nodup := (List.nodup_cons.mp walking.nodup).2
      disjoint := fun u left_ there => by
        rcases (timers u).mp there with inside | ⟨same, _⟩
        · exact walking.disjoint u (List.mem_cons_of_mem _ left_) inside
        · exact aside (List.mem_singleton.mp same ▸ left_)
      known := fun u there => by
        rw [timer_, handOut_isSome]
        exact walking.known u (within there)
      apart := fun u there v other same => by
        rw [timer_, handOut_address, handOut_address] at same
        exact walking.apart u (within there) v (within other) same }

/-- Delivering the timers that were taken out, one after the other. -/
theorem Walking.deliverAll (walking : Walking s out) (now : UInt64) :
    ∃ next, out.foldlM (State.deliver now) s = .ok next ∧ Delivered s now out next := by
  induction out generalizing s with
  | nil =>
      exact ⟨s, rfl, {
        history := by simp
        inside := fun t member => by cases member
        outside := fun _ _ => rfl
        timers := by simp
        sorted := walking.sorted
        held := rfl }⟩
  | cons t out inductionHypothesis =>
      obtain ⟨middle, first, delivered, onward⟩ := walking.deliver now
      obtain ⟨next, others, rest⟩ := inductionHypothesis onward
      have aside : t ∉ out := (List.nodup_cons.mp walking.nodup).1
      have untouched : ∀ u ∈ out, middle.timer u = s.timer u := fun u member =>
        delivered.outside u fun same => aside (List.mem_singleton.mp same ▸ member)
      refine ⟨next, ?_, ?_⟩
      · rw [List.foldlM_cons, first]
        exact others
      · exact {
          history := by
            rw [rest.history, delivered.history, List.append_assoc]
            refine congrArg (s.history ++ ·) (congrArg (s.handing t :: ·) ?_)
            refine List.map_congr_left fun u member => ?_
            rw [handing, handing, untouched u member]
          inside := fun u member => by
            rcases List.mem_cons.mp member with rfl | later
            · rw [rest.outside u aside, delivered.inside u List.mem_cons_self]
            · rw [rest.inside u later, untouched u later]
          outside := fun u absent => by
            rw [rest.outside u fun later => absent (List.mem_cons_of_mem _ later)]
            exact delivered.outside u fun same =>
              absent (List.mem_singleton.mp same ▸ List.mem_cons_self)
          timers := fun u => by
            rw [rest.timers u, delivered.timers u, List.mem_singleton, List.mem_cons]
            have recurring : u ∈ out → middle.recurs u = s.recurs u := fun member => by
              rw [recurs, recurs, untouched u member]
            constructor
            · rintro ((inside | ⟨same, again⟩) | ⟨later, again⟩)
              · exact .inl inside
              · exact .inr ⟨.inl same, again⟩
              · exact .inr ⟨.inr later, recurring later ▸ again⟩
            · rintro (inside | ⟨same | later, again⟩)
              · exact .inl (.inl inside)
              · exact .inl (.inr ⟨same, again⟩)
              · exact .inr ⟨later, (recurring later).trans again⟩
          sorted := rest.sorted
          held := rest.held.trans delivered.held }

/-- Deadlines do not decrease along the set. -/
theorem next_le_of_less {timer later : Timer A C} (known : s.timer t = some timer)
    (knownLater : s.timer u = some later) (before : s.less t u = true) :
    timer.next ≤ later.next := by
  rw [less, known, knownLater] at before
  simp only [Timer.comparator] at before
  split at before
  · rename_i earlier
    exact UInt64.le_of_lt earlier
  · split at before
    · cases before
    · rename_i notLater
      exact UInt64.not_lt.mp notLater

/-- What is left of a list behind its first elements of a kind. -/
theorem drop_takeWhile {α : Type} (p : α → Bool) (entries : List α) :
    entries.drop (entries.takeWhile p).length = entries.dropWhile p := by
  have whole := List.takeWhile_append_dropWhile (p := p) (l := entries)
  calc entries.drop (entries.takeWhile p).length
      = (entries.takeWhile p ++ entries.dropWhile p).drop (entries.takeWhile p).length := by rw [whole]
    _ = entries.dropWhile p := List.drop_left

/-- A timer below the probe has expired. -/
theorem due_of_below {probe : A}
    (below : Timer.comparator (s.timer t) (some ⟨probe, false, 0, now, none⟩) = true)
    (known : (s.timer t).isSome = true) : s.due now t = true := by
  obtain ⟨timer, known⟩ := Option.isSome_iff_exists.mp known
  simp only [known, Timer.comparator, due, Option.any_some, decide_eq_true_eq] at below ⊢
  split at below
  · rename_i earlier
    exact UInt64.le_of_lt earlier
  · split at below
    · cases below
    · rename_i notLater
      exact UInt64.not_lt.mp notLater

/-- An earlier timer is below the probe. -/
theorem below_of_lt {timer : Timer A C} (known : s.timer t = some timer) (earlier : timer.next < now)
    (probe : A) : Timer.comparator (s.timer t) (some ⟨probe, false, 0, now, none⟩) = true := by
  simp only [known, Timer.comparator, if_pos earlier]

/-- The timers that are taken out are the expired ones, whatever the address of the probe is. -/
theorem WellFormed.expired (wf : s.WellFormed) (now : UInt64) (probe : A) :
    (∀ t ∈ s.expired now probe, s.due now t = true) ∧
      ∀ t ∈ s.timers.drop (s.expired now probe).length, s.due now t = false := by
  -- the timers below the probe, those at its deadline, and those behind
  let below (t : T) : Bool := Timer.comparator (s.timer t) (some ⟨probe, false, 0, now, none⟩)
  let present (t : T) : Bool := (s.timer t).map Timer.next = some now
  have taken : s.expired now probe =
      s.timers.takeWhile below ++ (s.timers.dropWhile below).takeWhile present := by
    rw [← drop_takeWhile below]
    rfl
  have whole : s.timers = s.timers.takeWhile below ++
      ((s.timers.dropWhile below).takeWhile present ++
        (s.timers.dropWhile below).dropWhile present) := by
    rw [List.takeWhile_append_dropWhile, List.takeWhile_append_dropWhile]
  have behind : s.timers.drop (s.expired now probe).length =
      (s.timers.dropWhile below).dropWhile present := by
    conv_lhs => rw [whole, ← List.append_assoc, taken]
    exact List.drop_left
  have known (t : T) (member : t ∈ s.timers) : ∃ timer, s.timer t = some timer :=
    Option.isSome_iff_exists.mp (wf.known t member)
  have presentNext {t : T} (at_ : t ∈ (s.timers.dropWhile below).takeWhile present) :
      ∃ timer, s.timer t = some timer ∧ timer.next = now := by
    have deadline : present t = true := List.mem_takeWhile_imp at_
    exact Option.map_eq_some_iff.mp (of_decide_eq_true deadline)
  constructor
  · intro t member
    rw [taken] at member
    rcases List.mem_append.mp member with earlier | at_
    · have inside : t ∈ s.timers := (List.takeWhile_prefix below).subset earlier
      have lower : below t = true := List.mem_takeWhile_imp earlier
      exact due_of_below lower (wf.known t inside)
    · obtain ⟨timer, known, same⟩ := presentNext at_
      simp [due, known, same]
  · rw [behind]
    have sorted := wf.sorted
    rw [OrderedSet.Sorted, whole, List.pairwise_append, List.pairwise_append] at sorted
    obtain ⟨-, ⟨-, lateSorted, ahead⟩, -⟩ := sorted
    have suffix_ : (s.timers.dropWhile below).dropWhile present <:+ s.timers :=
      (List.dropWhile_suffix present).trans (List.dropWhile_suffix below)
    cases late : (s.timers.dropWhile below).dropWhile present with
    | nil => simp
    | cons first rest =>
        rw [late] at lateSorted ahead suffix_
        obtain ⟨timer, knownFirst⟩ := known first (suffix_.subset List.mem_cons_self)
        have notPresent : present first = false := by
          have head := List.head?_dropWhile_not present (s.timers.dropWhile below)
          rw [late] at head
          simpa using head
        have later : now < timer.next := by
          by_contra notLater
          have different : timer.next ≠ now := fun same => by
            rw [show present first = decide ((s.timer first).map Timer.next = some now) from rfl,
              knownFirst, Option.map_some, same, decide_eq_true rfl] at notPresent
            cases notPresent
          have earlier : timer.next < now :=
            UInt64.lt_of_le_of_ne (UInt64.not_lt.mp notLater) different
          cases middle : (s.timers.dropWhile below).takeWhile present with
          | nil =>
              have start := List.takeWhile_append_dropWhile (p := present)
                (l := s.timers.dropWhile below)
              rw [middle, late, List.nil_append] at start
              have head := List.head?_dropWhile_not below s.timers
              rw [← start] at head
              have notBelow : below first = false := by simpa using head
              rw [show below first = _ from below_of_lt knownFirst earlier probe] at notBelow
              cases notBelow
          | cons u more =>
              have at_ : u ∈ (s.timers.dropWhile below).takeWhile present := by
                rw [middle]
                exact List.mem_cons_self
              obtain ⟨other, knownOther, same⟩ := presentNext at_
              have order := next_le_of_less knownOther knownFirst
                (ahead u at_ first List.mem_cons_self)
              rw [same] at order
              exact notLater (absurd earlier (UInt64.not_lt.mpr order))
        refine List.forall_mem_cons.mpr ⟨?_, fun t member => ?_⟩
        · simp only [due, knownFirst, Option.any_some, decide_eq_false_iff_not]
          exact UInt64.not_le.mpr later
        · obtain ⟨other, knownOther⟩ :=
            known t (suffix_.subset (List.mem_cons_of_mem _ member))
          have order := next_le_of_less knownFirst knownOther
            ((List.pairwise_cons.mp lateSorted).1 t member)
          simp only [due, knownOther, Option.any_some, decide_eq_false_iff_not]
          exact UInt64.not_le.mpr (UInt64.lt_of_lt_of_le later order)

/-- What a call of `listExpiredCb` does. -/
structure Batch (s : State T A C) (now : UInt64) (next : State T A C) : Prop where
  /-- The callbacks of the expired timers are appended, in the order of the set. -/
  handed : next.history = s.history ++ (s.timers.filter (s.due now)).map s.handing
  increasing : (s.timers.filter (s.due now)).Pairwise fun t u => keyOf (s.timer t) < keyOf (s.timer u)
  /-- The set holds the timers that have not expired, and the expired ones that recur. -/
  timers : ∀ t, t ∈ next.timers ↔
    t ∈ s.timers ∧ (s.due now t = false ∨ s.due now t = true ∧ s.recurs t = true)
  sorted : OrderedSet.Sorted next.less next.timers
  again : ∀ t ∈ s.timers, s.due now t = true → ∀ timer, s.timer t = some timer →
    timer.recurring = true → next.timer t = some { timer with next := now + timer.ms }
  spent : ∀ t ∈ s.timers, s.due now t = true → ∀ timer, s.timer t = some timer →
    timer.recurring = false → next.timer t = some { timer with cb := none }
  unchanged : ∀ t, ¬(t ∈ s.timers ∧ s.due now t = true) → next.timer t = s.timer t
  held : next.held = s.held

theorem Delivered.batch (wf : s.WellFormed) (probe : A)
    (delivered : Delivered { s with timers := s.timers.drop (s.expired now probe).length } now
      (s.expired now probe) next) : s.Batch now next := by
  obtain ⟨taken, left_⟩ := wf.expired now probe
  have whole : s.expired now probe ++ s.timers.drop (s.expired now probe).length = s.timers := by
    conv_lhs => rw [expired_eq_take s now probe, ← expired_eq_take s now probe]
    conv_rhs => rw [← List.take_append_drop (s.expired now probe).length s.timers,
      ← expired_eq_take s now probe]
  have filtered : s.timers.filter (s.due now) = s.expired now probe := by
    conv_lhs => rw [← whole]
    rw [List.filter_append, List.filter_eq_self.mpr taken, List.filter_eq_nil_iff.mpr, List.append_nil]
    intro t member
    rw [left_ t member]
    exact Bool.false_ne_true
  have member : ∀ t, t ∈ s.expired now probe ↔ t ∈ s.timers ∧ s.due now t = true := by
    intro t
    rw [← filtered, List.mem_filter]
  have remaining : ∀ t, t ∈ s.timers.drop (s.expired now probe).length ↔
      t ∈ s.timers ∧ s.due now t = false := by
    intro t
    constructor
    · intro behind
      exact ⟨List.mem_of_mem_drop behind, left_ t behind⟩
    · rintro ⟨inside, pending⟩
      rw [← whole] at inside
      refine (List.mem_append.mp inside).resolve_left fun expired => ?_
      rw [taken t expired] at pending
      cases pending
  exact {
    handed := by
      rw [delivered.history, filtered]
      rfl
    increasing := by
      refine (wf.sorted.sublist List.filter_sublist).imp fun {t u} before => ?_
      exact (s.compares t u).mp before
    timers := fun t => by
      rw [delivered.timers t, remaining t, member t]
      rw [and_assoc, and_or_left]
      rfl
    sorted := delivered.sorted
    again := fun t inside expired timer known recurring => by
      rw [delivered.inside t ((member t).mpr ⟨inside, expired⟩)]
      simp only [known, Option.map_some, renewed, recurring, if_true]
    spent := fun t inside expired timer known recurring => by
      rw [delivered.inside t ((member t).mpr ⟨inside, expired⟩)]
      simp only [known, Option.map_some, renewed, recurring, Bool.false_eq_true, if_false]
    unchanged := fun t different => delivered.outside t fun expired => different ((member t).mp expired)
    held := delivered.held }

/-- The timers that were taken out, and the set without them. -/
theorem WellFormed.walking (wf : s.WellFormed) (now : UInt64) (probe : A) :
    Walking { s with timers := s.timers.drop (s.expired now probe).length }
      (s.expired now probe) := by
  have nodup := wf.sorted.nodup s.compares
  have split := List.take_append_drop (s.expired now probe).length s.timers
  rw [← expired_eq_take s now probe] at split
  rw [← split, List.nodup_append] at nodup
  have inside : ∀ t, t ∈ s.expired now probe ++ s.timers.drop (s.expired now probe).length →
      t ∈ s.timers := fun t member => split ▸ member
  exact {
    sorted := wf.sorted.sublist (List.drop_sublist _ _)
    nodup := nodup.1
    disjoint := fun t taken behind => nodup.2.2 t taken t behind rfl
    known := fun t member => wf.known t (inside t member)
    apart := fun t member u other => wf.apart t (inside t member) u (inside u other) }

/-- `listExpiredCb` hands out the callbacks of exactly the expired timers, in the order of the
set and each once, whatever the address of the probe is, and renews or spends them. -/
theorem listExpiredCb_batch (wf : s.WellFormed) (seenEmpty : Bool)
    (seen : seenEmpty = true → s.timers = []) (now : UInt64) (probe : A) :
    ∃ next, s.listExpiredCb seenEmpty now probe = .ok next ∧ s.Batch now next := by
  unfold State.listExpiredCb
  split
  · rename_i nothing
    have empty : s.timers = [] := nothing.elim seen id
    refine ⟨s, rfl, ?_⟩
    exact {
      handed := by simp [empty]
      increasing := by simp [empty]
      timers := by simp [empty]
      sorted := wf.sorted
      again := by simp [empty]
      spent := by simp [empty]
      unchanged := fun _ _ => rfl
      held := rfl }
  · obtain ⟨next, ran, delivered⟩ := (wf.walking now probe).deliverAll now
    exact ⟨next, ran, delivered.batch wf probe⟩

/-- A recurring timer, a one-shot one at the time of the clock, and one that has not expired. -/
def threeTimers : State Nat Nat Nat where
  timer
    | 0 => some ⟨0, true, 10, 5, some 70⟩
    | 1 => some ⟨4, false, 3, 7, some 71⟩
    | 2 => some ⟨2, false, 9, 9, some 72⟩
    | _ => none
  held := []
  timers := [0, 1, 2]
  tickled := false
  history := []

theorem threeTimers_wellFormed : threeTimers.WellFormed where
  sorted := by
    unfold OrderedSet.Sorted
    decide
  known := by decide
  apart := by decide

theorem listExpiredCb_threeTimers :
    ∃ next, threeTimers.listExpiredCb false 7 3 = .ok next ∧ threeTimers.Batch 7 next :=
  listExpiredCb_batch threeTimers_wellFormed false (by decide) 7 3

end Sylar.TimerManager.State
