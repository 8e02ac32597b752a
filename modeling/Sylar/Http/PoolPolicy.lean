import Sylar.Http.ConnectionPool

/-!
# How long a pooled connection lives

`m_maxAliveTime`, `m_maxRequest` and `m_maxSize` under a clock that does not go back. The pool
records no time of creation, so the time is kept beside it.
-/

namespace Sylar.Http

open Library

/-- The pool, the last time that was read, and when each connection was created. -/
structure ClockedPool where
  pool : HttpConnectionPool
  clock : UInt64
  born : Nat → UInt64

namespace ClockedPool

open HttpConnectionPool (Sound)

/-- A call of the pool, and the times in it. -/
inductive Action where
  /-- `made` is the time at which a new connection is made, when none is found. -/
  | getConnection (now : UInt64) (connected : Nat → Bool) (made : Option UInt64)
  | releasePtr (ptr : Nat) (now : UInt64) (connected : Bool)

/-- The constructor. -/
def new (limits : PoolLimits) : ClockedPool := ⟨.new limits, 0, fun _ => 0⟩

/-- The clock does not go back. -/
def Possible (s : ClockedPool) : Action → Prop
  | .getConnection now _ made => s.clock ≤ now ∧ ∀ time ∈ made, now ≤ time
  | .releasePtr ptr now _ => s.clock ≤ now ∧ ptr ∈ s.pool.outstanding

instance (s : ClockedPool) : DecidablePred s.Possible
  | .getConnection .. => inferInstanceAs (Decidable (_ ∧ _))
  | .releasePtr .. => inferInstanceAs (Decidable (_ ∧ _))

/-- The pool behind a call. -/
def after (s : ClockedPool) : Action → ClockedPool
  | .getConnection now connected made =>
      { pool := s.pool.getConnection now connected made.isSome
        clock := made.getD now
        born := Function.update s.born s.pool.created (made.getD now) }
  | .releasePtr ptr now connected =>
      { s with pool := s.pool.releasePtr ptr now connected, clock := now }

/-- A call at a time that can be. -/
def step (s : ClockedPool) (action : Action) : Option ClockedPool :=
  if s.Possible action then some (s.after action) else none

/-- Less than `m_maxAliveTime` has passed since the connection was created. -/
def Young (s : ClockedPool) (ptr : Nat) (now : UInt64) : Prop :=
  now.toNat - (s.born ptr).toNat < s.pool.maxAliveTime.toNat

instance (s : ClockedPool) (ptr : Nat) (now : UInt64) : Decidable (s.Young ptr now) :=
  inferInstanceAs (Decidable (_ < _))

/-- What the limits of the pool are for, over one call. -/
def Lawful (s : ClockedPool) (action : Action) : Prop :=
  s.Possible action →
    (s.after action).pool.total.toInt ≤ s.pool.maxSize.toNat ∧
      match action with
      | .getConnection now connected _ =>
          (∀ ptr ∈ s.pool.conns, ptr ∈ (s.after action).pool.outstanding → s.Young ptr now) ∧
          ∀ ptr ∈ s.pool.conns, connected ptr → s.Young ptr now →
            (s.pool.connection ptr).request.toNat < s.pool.maxRequest.toNat →
              ptr ∉ (s.after action).pool.deleted ∧
                ∃ reused ∈ s.pool.conns, reused ∈ (s.after action).pool.outstanding
      | .releasePtr ptr now connected =>
          connected → s.Young ptr now →
            (s.pool.connection ptr).request.toNat + 1 < s.pool.maxRequest.toNat →
              ptr ∉ (s.after action).pool.deleted ∧ ptr ∈ (s.after action).pool.conns

/-- The calls that the pool treats as its limits ask. -/
def Harmless (s : ClockedPool) (action : Action) : Prop :=
  s.Possible action →
    match action with
    | .getConnection now connected made =>
        match s.pool.conns.find? connected with
        | some ptr => s.pool.maxAliveTime.toNat ≤ now.toNat ∧ s.Young ptr now
        | none => made.isSome → s.pool.outstanding.length < s.pool.maxSize.toNat ∨
            2 ^ 31 - 1 ≤ s.pool.maxSize.toNat
    | .releasePtr ptr now connected =>
        connected → (s.pool.connection ptr).request.toNat + 1 < s.pool.maxRequest.toNat →
          now.toNat ≤ s.pool.maxAliveTime.toNat → ¬s.Young ptr now

/-- Nothing writes `m_createTime`, and the pool has not grown past its limit. -/
structure Within (s : ClockedPool) : Prop where
  sound : s.pool.Sound
  unset : ∀ ptr, (s.pool.connection ptr).createTime = 0
  past : ∀ ptr, s.born ptr ≤ s.clock
  bounded : s.pool.conns.length + s.pool.outstanding.length ≤ s.pool.maxSize.toNat ∨
    2 ^ 31 - 1 ≤ s.pool.maxSize.toNat

theorem within_new (limits : PoolLimits) : (new limits).Within :=
  ⟨HttpConnectionPool.sound_new limits, fun _ => rfl, fun _ => Nat.zero_le _,
    .inl (Nat.zero_le _)⟩

end ClockedPool

namespace HttpConnectionPool

variable {pool : HttpConnectionPool} {ptr : Nat} {now : UInt64} {connected : Nat → Bool}

/-- An idle connection is not anywhere else. -/
theorem Sound.waiting (sound : pool.Sound) (member : ptr ∈ pool.conns) :
    ptr ∉ pool.outstanding ∧ ptr ∉ pool.deleted := by
  have counted := sound.count ptr
  have present := List.count_pos_iff.mpr member
  rw [if_pos (sound.known (.inl member))] at counted
  exact ⟨List.count_eq_zero.mp (by omega), List.count_eq_zero.mp (by omega)⟩

/-- `m_total` against `m_maxSize`, when the pool is at most one connection too large. -/
theorem Sound.total_le_iff (sound : pool.Sound)
    (near : pool.conns.length + pool.outstanding.length ≤ pool.maxSize.toNat + 1 ∨
      2 ^ 31 - 1 ≤ pool.maxSize.toNat) :
    pool.total.toInt ≤ pool.maxSize.toNat ↔
      pool.conns.length + pool.outstanding.length ≤ pool.maxSize.toNat ∨
        2 ^ 31 - 1 ≤ pool.maxSize.toNat := by
  by_cases large : 2 ^ 31 - 1 ≤ pool.maxSize.toNat
  · have below := BitVec.toInt_lt (x := pool.total)
    exact iff_of_true (by omega) (.inr large)
  · rw [or_iff_left large] at near ⊢
    rw [sound.accounted.exact (by omega)]
    omega

/-- Without a time of creation the age of a connection is that of the clock. -/
theorem recent_iff (unset : ∀ ptr, (pool.connection ptr).createTime = 0) (ptr : Nat) :
    (pool.connection ptr).createTime + pool.maxAliveTime.toUInt64 > now ↔
      now.toNat < pool.maxAliveTime.toNat := by
  rw [unset, UInt64.zero_add, gt_iff_lt, UInt64.lt_iff_toNat_lt, UInt32.toNat_toUInt64]

/-- The loop goes through all of `m_conns`. -/
theorem take_none (unset : ∀ ptr, (pool.connection ptr).createTime = 0) {conns : List Nat}
    (none_ : now.toNat < pool.maxAliveTime.toNat ∨ conns.find? connected = none) :
    pool.take now connected conns = (conns, none, []) := by
  induction conns with
  | nil => rfl
  | cons conn conns inductionHypothesis =>
      rw [List.find?_cons] at none_
      cases lost : connected conn with
      | false =>
          rw [lost] at none_
          rw [take, if_pos (by rw [lost]; rfl), inductionHypothesis none_]
      | true =>
          have young := none_.resolve_right (by simp [lost])
          rw [take, if_neg (by simp [lost]), if_pos ((recent_iff unset conn).mpr young),
            inductionHypothesis (.inl young)]

/-- The loop ends at the first connection that is still connected. -/
theorem take_some (unset : ∀ ptr, (pool.connection ptr).createTime = 0) {conns : List Nat}
    (old : pool.maxAliveTime.toNat ≤ now.toNat) (found : conns.find? connected = some ptr) :
    ∃ invalid rest, pool.take now connected conns = (invalid, some ptr, rest) ∧
      ∀ conn ∈ invalid, connected conn = false := by
  induction conns with
  | nil => cases found
  | cons conn conns inductionHypothesis =>
      rw [List.find?_cons] at found
      cases lost : connected conn with
      | false =>
          rw [lost] at found
          obtain ⟨invalid, rest, taken, dropped⟩ := inductionHypothesis found
          refine ⟨conn :: invalid, rest, ?_, List.forall_mem_cons.mpr ⟨lost, dropped⟩⟩
          rw [take, if_pos (by rw [lost]; rfl), taken]
      | true =>
          rw [lost] at found
          cases found
          refine ⟨[], conns, ?_, fun conn member => absurd member List.not_mem_nil⟩
          rw [take, if_neg (by simp [lost]),
            if_neg fun recent => Nat.not_lt.mpr old ((recent_iff unset ptr).mp recent)]

/-- `getConnection` when no idle connection passes its tests. -/
theorem getConnection_none (now : UInt64) (unset : ∀ ptr, (pool.connection ptr).createTime = 0)
    (none_ : now.toNat < pool.maxAliveTime.toNat ∨ pool.conns.find? connected = none)
    (connects : Bool) :
    (pool.getConnection now connected connects).conns = [] ∧
      (pool.getConnection now connected connects).deleted = pool.deleted ++ pool.conns ∧
      (pool.getConnection now connected connects).outstanding =
        pool.outstanding ++ (if connects then [pool.created] else []) := by
  rw [getConnection, take_none unset none_]
  cases connects with
  | false => exact ⟨rfl, rfl, (List.append_nil _).symm⟩
  | true => exact ⟨rfl, rfl, rfl⟩

theorem getConnection_some (unset : ∀ ptr, (pool.connection ptr).createTime = 0)
    (old : pool.maxAliveTime.toNat ≤ now.toNat) (found : pool.conns.find? connected = some ptr)
    (connects : Bool) :
    ∃ invalid rest, pool.conns = invalid ++ (ptr :: rest) ∧
      (∀ conn ∈ invalid, connected conn = false) ∧
      (pool.getConnection now connected connects).conns = rest ∧
      (pool.getConnection now connected connects).deleted = pool.deleted ++ invalid ∧
      (pool.getConnection now connected connects).outstanding = pool.outstanding ++ [ptr] := by
  obtain ⟨invalid, rest, taken, dropped⟩ := take_some unset old found
  refine ⟨invalid, rest, take_eq pool now connected pool.conns taken, dropped, ?_⟩
  rw [getConnection, taken]
  exact ⟨rfl, rfl, rfl⟩

/-- Whether a released connection goes back to `m_conns`. -/
theorem releasePtr_cases (now : UInt64) (sound : pool.Sound) (member : ptr ∈ pool.outstanding)
    (unset : ∀ ptr, (pool.connection ptr).createTime = 0) (still : Bool) :
    (pool.releasePtr ptr now still).outstanding = pool.outstanding.erase ptr ∧
      if still ∧ pool.maxAliveTime.toNat < now.toNat ∧
          (pool.connection ptr).request.toNat + 1 < pool.maxRequest.toNat
      then (pool.releasePtr ptr now still).conns = pool.conns ++ [ptr] ∧
        (pool.releasePtr ptr now still).deleted = pool.deleted
      else (pool.releasePtr ptr now still).conns = pool.conns ∧
        (pool.releasePtr ptr now still).deleted = pool.deleted ++ [ptr] := by
  obtain ⟨served, bounded⟩ := sound.outside ptr member
  have small := pool.maxRequest.toNat_lt
  have once : ((pool.connection ptr).request + 1).toNat =
      (pool.connection ptr).request.toNat + 1 := by
    rw [UInt64.toNat_add]
    exact Nat.mod_eq_of_lt (by simp; omega)
  have drops : (!still || decide ((pool.connection ptr).createTime +
        pool.maxAliveTime.toUInt64 ≥ now) ||
      decide ((pool.connection ptr).request + 1 ≥ pool.maxRequest.toUInt64)) = true ↔
      ¬(still ∧ pool.maxAliveTime.toNat < now.toNat ∧
        (pool.connection ptr).request.toNat + 1 < pool.maxRequest.toNat) := by
    rw [unset, UInt64.zero_add, Bool.or_eq_true, Bool.or_eq_true, decide_eq_true_eq,
      decide_eq_true_eq, ge_iff_le, ge_iff_le, UInt64.le_iff_toNat_le, UInt64.le_iff_toNat_le,
      once, UInt32.toNat_toUInt64, UInt32.toNat_toUInt64]
    cases still
    · simp
    · simp
      omega
  rw [releasePtr]
  split
  · rename_i dropped
    rw [if_neg (drops.mp dropped)]
    exact ⟨rfl, rfl, rfl⟩
  · rename_i kept
    rw [if_pos (Classical.not_not.mp fun no => kept (drops.mpr no))]
    exact ⟨rfl, rfl, rfl⟩

end HttpConnectionPool

namespace ClockedPool

open HttpConnectionPool

variable {s next : ClockedPool} {action : Action} {now : UInt64} {connected : Nat → Bool}
  {made : Option UInt64} {ptr : Nat}

/-- The limits do not change. -/
theorem after_limits (s : ClockedPool) (action : Action) :
    (s.after action).pool.toPoolLimits = s.pool.toPoolLimits := by
  cases action with
  | getConnection now connected made =>
      simp only [after, getConnection]
      split
      · rfl
      · split <;> rfl
  | releasePtr ptr now connected =>
      simp only [after, releasePtr]
      split <;> rfl

theorem after_sound (sound : s.pool.Sound) (possible : s.Possible action) :
    (s.after action).pool.Sound := by
  cases action with
  | getConnection now connected made =>
      have taken : s.pool.step (.getConnection now connected made.isSome) =
          some (s.pool.getConnection now connected made.isSome) := rfl
      exact sound.step taken
  | releasePtr ptr now connected =>
      have taken : s.pool.step (.releasePtr ptr now connected) =
          some (s.pool.releasePtr ptr now connected) := if_pos possible.2
      exact sound.step taken

/-- The pool grows by one connection at most. -/
theorem after_length (possible : s.Possible action) :
    (s.after action).pool.conns.length + (s.after action).pool.outstanding.length ≤
      s.pool.conns.length + s.pool.outstanding.length + 1 := by
  cases action with
  | getConnection now connected made =>
      rw [after, getConnection]
      split
      rename_i invalid ptr rest found
      have taken := take_eq s.pool now connected s.pool.conns found
      have lengths := congrArg List.length taken
      rw [List.length_append, List.length_append] at lengths
      cases ptr with
      | some ptr =>
          simp only [handOut, List.length_append, List.length_singleton]
          simp only [Option.toList, List.length_singleton] at lengths
          omega
      | none =>
          simp only
          split
          · simp only [handOut, create, List.length_append, List.length_singleton]
            omega
          · simp only
            omega
  | releasePtr ptr now still =>
      have erased : s.pool.outstanding.length = (s.pool.outstanding.erase ptr).length + 1 :=
        (List.perm_cons_erase possible.2).length_eq
      rw [after, releasePtr]
      split
      · simp only
        omega
      · simp only [List.length_append, List.length_singleton]
        omega

theorem after_unset (unset : ∀ ptr, (s.pool.connection ptr).createTime = 0) (action : Action)
    (ptr : Nat) : ((s.after action).pool.connection ptr).createTime = 0 := by
  cases action with
  | getConnection now connected made =>
      simp only [after, getConnection]
      split
      · exact unset ptr
      · split
        · by_cases same : ptr = s.pool.created
          · simp [handOut, create, same]
          · simpa [handOut, create, same] using unset ptr
        · exact unset ptr
  | releasePtr other now still =>
      have same : ((Function.update s.pool.connection other
          { s.pool.connection other with request := (s.pool.connection other).request + 1 })
            ptr).createTime = 0 := by
        by_cases same : ptr = other
        · simp [same, unset]
        · simp [same, unset]
      simp only [after, releasePtr]
      split
      · exact same
      · exact same

/-- With no connected idle connection the call is lawful when there is room for a new one. -/
theorem Within.lawful_none (within : s.Within) (found : s.pool.conns.find? connected = none)
    (possible : s.Possible (.getConnection now connected made)) :
    s.Lawful (.getConnection now connected made) ↔
      s.Harmless (.getConnection now connected made) := by
  have sound := after_sound within.sound possible
  have limits := after_limits s (.getConnection now connected made)
  obtain ⟨conns, -, outstanding⟩ := getConnection_none now within.unset (.inr found)
    made.isSome
  change (s.after (.getConnection now connected made)).pool.conns = [] at conns
  change (s.after (.getConnection now connected made)).pool.outstanding = _ at outstanding
  have sized := sound.total_le_iff
  rw [Lawful, Harmless, imp_iff_right possible, imp_iff_right possible]
  generalize s.after (.getConnection now connected made) = next at *
  rw [limits, conns, outstanding] at sized
  have room := within.bounded
  simp only [found]
  have idle : ∀ ptr ∈ s.pool.conns, ptr ∉ next.pool.outstanding := by
    intro ptr member
    have known := within.sound.known (.inl member)
    rw [outstanding, List.mem_append, not_or]
    refine ⟨(within.sound.waiting member).1, fun new_ => ?_⟩
    split at new_
    · exact absurd (List.mem_singleton.mp new_) (Nat.ne_of_lt known)
    · exact absurd new_ List.not_mem_nil
  have lost : ∀ ptr ∈ s.pool.conns, ¬connected ptr := List.find?_eq_none.mp found
  rw [and_iff_left ⟨fun ptr member out => absurd out (idle ptr member),
    fun ptr member still => absurd still (lost ptr member)⟩]
  cases made with
  | none =>
      rw [sized (by simp; omega)]
      simp
      omega
  | some time =>
      rw [sized (by simp; omega), Option.isSome_some, if_pos rfl, imp_iff_right rfl,
        List.length_append, List.length_nil, List.length_singleton, Nat.zero_add, Nat.succ_le_iff]

/-- The first connected idle connection is handed out at any age from `m_maxAliveTime` on of the
clock, and is deleted before. -/
theorem Within.lawful_some (within : s.Within) (found : s.pool.conns.find? connected = some ptr)
    (possible : s.Possible (.getConnection now connected made)) :
    s.Lawful (.getConnection now connected made) ↔
      s.Harmless (.getConnection now connected made) := by
  have member := List.mem_of_find?_eq_some found
  have still := List.find?_some found
  have sound := after_sound within.sound possible
  have limits := after_limits s (.getConnection now connected made)
  have sized := sound.total_le_iff
  have room := within.bounded
  rw [Lawful, Harmless, imp_iff_right possible, imp_iff_right possible]
  simp only [found]
  by_cases old : s.pool.maxAliveTime.toNat ≤ now.toNat
  · rw [and_iff_right old]
    obtain ⟨invalid, rest, split_, dropped, conns, deleted, outstanding⟩ :=
      getConnection_some within.unset old found made.isSome
    change (s.after (.getConnection now connected made)).pool.conns = rest at conns
    change (s.after (.getConnection now connected made)).pool.outstanding = _ at outstanding
    change (s.after (.getConnection now connected made)).pool.deleted = _ at deleted
    generalize s.after (.getConnection now connected made) = next at *
    have handed : ptr ∈ next.pool.outstanding := by
      rw [outstanding]
      exact List.mem_append_right _ List.mem_cons_self
    constructor
    · rintro ⟨-, young, -⟩
      exact young ptr member handed
    · intro young
      refine ⟨?_, ?_, ?_⟩
      · rw [limits, conns, outstanding] at sized
        rw [split_] at room
        simp only [List.length_append, List.length_cons, List.length_nil] at sized room
        exact (sized (by omega)).mpr (by omega)
      · intro other idle out
        rw [outstanding, List.mem_append] at out
        have same := out.resolve_left (within.sound.waiting idle).1
        rw [List.mem_singleton.mp same]
        exact young
      · intro other idle connects _ _
        refine ⟨?_, ptr, member, handed⟩
        rw [deleted, List.mem_append, not_or]
        refine ⟨(within.sound.waiting idle).2, fun discarded => ?_⟩
        rw [dropped other discarded] at connects
        cases connects
  · refine iff_of_false ?_ (fun harmless => old harmless.1)
    rintro ⟨-, -, kept⟩
    have young : s.Young ptr now := by
      rw [Young]
      omega
    have few := within.sound.idle ptr member
    refine (kept ptr member still young (few.1 ▸ few.2)).1 ?_
    have early : now.toNat < s.pool.maxAliveTime.toNat ∨ s.pool.conns.find? connected = none :=
      .inl (Nat.lt_of_not_le old)
    have deleted := (getConnection_none now within.unset early made.isSome).2.1
    change (s.after (.getConnection now connected made)).pool.deleted = _ at deleted
    rw [deleted]
    exact List.mem_append_right _ member

/-- A connection that comes back stays only after `m_maxAliveTime` of the clock. -/
theorem Within.lawful_release (within : s.Within) {still : Bool}
    (possible : s.Possible (.releasePtr ptr now still)) :
    s.Lawful (.releasePtr ptr now still) ↔ s.Harmless (.releasePtr ptr now still) := by
  have sound := after_sound within.sound possible
  have limits := after_limits s (.releasePtr ptr now still)
  have sized := sound.total_le_iff
  have room := within.bounded
  have erased : s.pool.outstanding.length = (s.pool.outstanding.erase ptr).length + 1 :=
    (List.perm_cons_erase possible.2).length_eq
  obtain ⟨notIdle, notGone, -⟩ := within.sound.released possible.2
  obtain ⟨outstanding, placed⟩ :=
    releasePtr_cases now within.sound possible.2 within.unset still
  change (s.after (.releasePtr ptr now still)).pool.outstanding = _ at outstanding
  rw [Lawful, Harmless, imp_iff_right possible, imp_iff_right possible]
  split at placed
  · rename_i kept
    obtain ⟨conns, deleted⟩ := placed
    change (s.after (.releasePtr ptr now still)).pool.conns = _ at conns
    change (s.after (.releasePtr ptr now still)).pool.deleted = _ at deleted
    generalize s.after (.releasePtr ptr now still) = next at *
    rw [limits, conns, outstanding, List.length_append, List.length_singleton] at sized
    refine iff_of_true ⟨(sized (by omega)).mpr (by omega), fun _ _ _ => ?_⟩
      fun _ _ early => absurd kept.2.1 (Nat.not_lt.mpr early)
    exact ⟨deleted ▸ notGone, conns ▸ List.mem_append_right _ List.mem_cons_self⟩
  · rename_i dropped
    obtain ⟨conns, deleted⟩ := placed
    change (s.after (.releasePtr ptr now still)).pool.conns = _ at conns
    change (s.after (.releasePtr ptr now still)).pool.deleted = _ at deleted
    generalize s.after (.releasePtr ptr now still) = next at *
    rw [limits, conns, outstanding] at sized
    have gone : ptr ∈ next.pool.deleted := deleted ▸ List.mem_append_right _ List.mem_cons_self
    rw [and_iff_right ((sized (by omega)).mpr (by omega))]
    constructor
    · intro kept connects few _ young
      exact (kept connects young few).1 gone
    · intro harmless connects young few
      refine absurd young (harmless connects few ?_)
      exact Nat.le_of_not_lt fun late => dropped ⟨connects, late, few⟩

theorem Within.lawful_iff (within : s.Within) : s.Lawful action ↔ s.Harmless action := by
  by_cases possible : s.Possible action
  · cases action with
    | getConnection now connected made =>
        cases found : s.pool.conns.find? connected with
        | none => exact within.lawful_none found possible
        | some ptr => exact within.lawful_some found possible
    | releasePtr ptr now still => exact within.lawful_release possible
  · exact iff_of_true (fun can => absurd can possible) (fun can => absurd can possible)

theorem Within.step (within : s.Within) (lawful : s.Lawful action)
    (taken : s.step action = some next) : next.Within := by
  rw [ClockedPool.step] at taken
  split at taken
  case isFalse => cases taken
  rename_i possible
  cases taken
  have sound := after_sound within.sound possible
  have limits := after_limits s action
  have grown := after_length possible
  have room := within.bounded
  refine ⟨sound, after_unset within.unset action, fun ptr => ?_, ?_⟩
  · cases action with
    | getConnection now connected made =>
        have later : s.clock ≤ made.getD now := by
          cases made with
          | none => exact possible.1
          | some time => exact UInt64.le_trans possible.1 (possible.2 time rfl)
        by_cases same : ptr = s.pool.created
        · simp [after, same]
        · simpa [after, same] using UInt64.le_trans (within.past ptr) later
    | releasePtr other now still => exact UInt64.le_trans (within.past ptr) possible.1
  · have total := (lawful possible).1
    rw [← limits] at total room
    exact (sound.total_le_iff (by omega)).mp total

/-- A run under a clock that does not go back keeps to the limits of the pool, if and only if
every one of its calls is harmless. -/
theorem policy_kept (limits : PoolLimits) (actions : List Action) :
    Guarded step Lawful (new limits) actions ↔ Guarded step Harmless (new limits) actions := by
  constructor
  · exact Guarded.mono Within.step (fun within => within.lawful_iff.mp) (within_new limits)
  · exact Guarded.mono (fun within harmless => within.step (within.lawful_iff.mpr harmless))
      (fun within => within.lawful_iff.mpr) (within_new limits)

/-- A connection made at 100000 comes back at once. At 200000 it is a hundred times as old as
`m_maxAliveTime`, and is handed out. -/
theorem policy_broken :
    ¬Guarded step Lawful (new ⟨1, 1000, 10⟩)
      [.getConnection 100000 (fun _ => true) (some 100000), .releasePtr 0 100000 true,
        .getConnection 200000 (fun _ => true) none] := by
  rintro ⟨-, later⟩
  obtain ⟨-, later⟩ := later _ (if_pos (by decide))
  obtain ⟨lawful, -⟩ := later _ (if_pos (by decide))
  have young := (lawful (by decide)).2.1 0 (by decide) (by decide)
  exact absurd young (by decide)

end ClockedPool

end Sylar.Http
