import Mathlib.Data.BitVec
import Mathlib.Data.List.Count
import Mathlib.Logic.Function.Basic
import Mathlib.Tactic.Common
import Sylar.Library.Transition

/-!
# The connection pool

`HttpConnectionPool` of `http_connection.cpp`. A connection is handed out as a shared
pointer whose deleter is `ReleasePtr`; in between it waits in `m_conns`. What the
lookup, the connect, the clock and `isConnected` answer are arguments of the calls.
-/

namespace Sylar.Http

open Library

/-- The members of `HttpConnection` that the pool uses. -/
structure HttpConnection where
  createTime : UInt64
  request : UInt64
deriving DecidableEq, Repr

/-- What no call changes. -/
structure PoolLimits where
  maxSize : UInt32
  maxAliveTime : UInt32
  maxRequest : UInt32
deriving DecidableEq, Repr

/-- Connections are known by their addresses; `created` is the next one. The last three members
are not in the source: the handles that were not released yet, and in order the connections that
were deleted and that were handed out. -/
structure HttpConnectionPool extends PoolLimits where
  connection : Nat → HttpConnection
  created : Nat
  conns : List Nat
  /-- An `int32_t`. -/
  total : BitVec 32
  outstanding : List Nat
  deleted : List Nat
  handedOut : List Nat

namespace HttpConnectionPool

/-- A call of the pool. -/
inductive Action where
  /-- `now` is the time at the start of the call, and `connects` whether a new connection is
  made when none is found. -/
  | getConnection (now : UInt64) (connected : Nat → Bool) (connects : Bool)
  /-- The last copy of the handle goes, at the time `now`. -/
  | releasePtr (ptr : Nat) (now : UInt64) (connected : Bool)

/-- The constructor. -/
def new (limits : PoolLimits) : HttpConnectionPool where
  toPoolLimits := limits
  connection _ := ⟨0, 0⟩
  created := 0
  conns := []
  total := 0
  outstanding := []
  deleted := []
  handedOut := []

/-- The loop of `getConnection` under the lock: `invalid_conns`, `ptr`, and what is left of
`m_conns`. -/
def take (pool : HttpConnectionPool) (now : UInt64) (connected : Nat → Bool) :
    List Nat → List Nat × Option Nat × List Nat
  | [] => ([], none, [])
  | conn :: conns =>
      if !connected conn then
        let (invalid, ptr, rest) := pool.take now connected conns
        (conn :: invalid, ptr, rest)
      else if (pool.connection conn).createTime + pool.maxAliveTime.toUInt64 > now then
        let (invalid, ptr, rest) := pool.take now connected conns
        (conn :: invalid, ptr, rest)
      else ([], some conn, conns)

/-- The handle that is returned. -/
def handOut (pool : HttpConnectionPool) (ptr : Nat) : HttpConnectionPool :=
  { pool with
    outstanding := pool.outstanding ++ [ptr]
    handedOut := pool.handedOut ++ [ptr] }

/-- `new HttpConnection(sock)` and `++m_total`. -/
def create (pool : HttpConnectionPool) : HttpConnectionPool :=
  { pool with
    connection := Function.update pool.connection pool.created ⟨0, 0⟩
    created := pool.created + 1
    total := pool.total + 1 }

def getConnection (pool : HttpConnectionPool) (now : UInt64) (connected : Nat → Bool)
    (connects : Bool) : HttpConnectionPool :=
  let (invalid, ptr, rest) := pool.take now connected pool.conns
  let pool := { pool with
    conns := rest
    deleted := pool.deleted ++ invalid
    total := pool.total - BitVec.ofNat 32 invalid.length }
  match ptr with
  | some ptr => pool.handOut ptr
  | none => if connects then pool.create.handOut pool.created else pool

/-- `ReleasePtr`. -/
def releasePtr (pool : HttpConnectionPool) (ptr : Nat) (now : UInt64) (connected : Bool) :
    HttpConnectionPool :=
  let conn := pool.connection ptr
  let conn := { conn with request := conn.request + 1 }
  let pool := { pool with
    connection := Function.update pool.connection ptr conn
    outstanding := pool.outstanding.erase ptr }
  if !connected || decide (conn.createTime + pool.maxAliveTime.toUInt64 ≥ now) ||
      decide (conn.request ≥ pool.maxRequest.toUInt64) then
    { pool with deleted := pool.deleted ++ [ptr], total := pool.total - 1 }
  else { pool with conns := pool.conns ++ [ptr] }

/-- Only a handle that is outstanding can be released. -/
def step (pool : HttpConnectionPool) : Action → Option HttpConnectionPool
  | .getConnection now connected connects => some (pool.getConnection now connected connects)
  | .releasePtr ptr now connected =>
      if ptr ∈ pool.outstanding then some (pool.releasePtr ptr now connected) else none

/-- The accounts of the pool are right. -/
structure Accounted (pool : HttpConnectionPool) : Prop where
  /-- `m_total` counts what is idle and what is outstanding, as an `int32_t`. -/
  total : pool.total = BitVec.ofNat 32 (pool.conns.length + pool.outstanding.length)
  exact : pool.conns.length + pool.outstanding.length < 2 ^ 31 →
    pool.total.toInt = pool.conns.length + pool.outstanding.length
  /-- A live connection is in one of the two places, and there once. -/
  live : ∀ ptr < pool.created, ptr ∉ pool.deleted →
    pool.conns.count ptr + pool.outstanding.count ptr = 1
  /-- A connection is deleted once, and is in neither place then. -/
  dead : ∀ ptr ∈ pool.deleted, ptr < pool.created ∧ pool.deleted.count ptr = 1 ∧
    pool.conns.count ptr + pool.outstanding.count ptr = 0
  handedOut : ∀ ptr, pool.handedOut.count ptr ≤ max 1 pool.maxRequest.toNat

/-- Every connection is in one place, and has served a request for each time it came back. -/
structure Sound (pool : HttpConnectionPool) : Prop where
  places : (pool.conns ++ pool.outstanding ++ pool.deleted).Perm (List.range pool.created)
  total : pool.total = BitVec.ofNat 32 (pool.conns.length + pool.outstanding.length)
  idle : ∀ ptr ∈ pool.conns, (pool.connection ptr).request.toNat = pool.handedOut.count ptr ∧
    pool.handedOut.count ptr < pool.maxRequest.toNat
  outside : ∀ ptr ∈ pool.outstanding,
    (pool.connection ptr).request.toNat + 1 = pool.handedOut.count ptr ∧
      pool.handedOut.count ptr ≤ max 1 pool.maxRequest.toNat
  gone : ∀ ptr ∈ pool.deleted, pool.handedOut.count ptr ≤ max 1 pool.maxRequest.toNat
  fresh : ∀ ptr, pool.created ≤ ptr → pool.handedOut.count ptr = 0

variable {pool next : HttpConnectionPool} {ptr : Nat}

theorem sound_new (limits : PoolLimits) : (new limits).Sound :=
  ⟨.refl _, rfl, nofun, nofun, nofun, fun _ _ => rfl⟩

namespace Sound

theorem count (sound : pool.Sound) (ptr : Nat) :
    pool.conns.count ptr + pool.outstanding.count ptr + pool.deleted.count ptr =
      if ptr < pool.created then 1 else 0 := by
  rw [← List.count_append, ← List.count_append, sound.places.count_eq]
  by_cases known : ptr < pool.created
  · rw [if_pos known]
    exact List.count_eq_one_of_mem List.nodup_range (List.mem_range.mpr known)
  · rw [if_neg known]
    exact List.count_eq_zero.mpr fun member => known (List.mem_range.mp member)

theorem known (sound : pool.Sound)
    (somewhere : ptr ∈ pool.conns ∨ ptr ∈ pool.outstanding ∨ ptr ∈ pool.deleted) :
    ptr < pool.created := by
  rw [← List.mem_range, ← sound.places.mem_iff, List.mem_append, List.mem_append, or_assoc]
  exact somewhere

theorem accounted (sound : pool.Sound) : pool.Accounted where
  total := sound.total
  exact few := by
    rw [sound.total, BitVec.toInt_ofNat', Int.bmod_def]
    split <;> omega
  live ptr known kept := by
    have counted := sound.count ptr
    rw [if_pos known, List.count_eq_zero.mpr kept] at counted
    exact counted
  dead ptr member := by
    have known := sound.known (.inr (.inr member))
    have counted := sound.count ptr
    have present := List.count_pos_iff.mpr member
    rw [if_pos known] at counted
    exact ⟨known, by omega, by omega⟩
  handedOut ptr := by
    by_cases known : ptr < pool.created
    · have counted := sound.count ptr
      rw [if_pos known] at counted
      rcases Nat.eq_zero_or_pos (pool.conns.count ptr) with none_ | some_
      · rcases Nat.eq_zero_or_pos (pool.outstanding.count ptr) with inside | out
        · exact sound.gone ptr (List.count_pos_iff.mp (by omega))
        · exact (sound.outside ptr (List.count_pos_iff.mp out)).2
      · have few := (sound.idle ptr (List.count_pos_iff.mp some_)).2
        omega
    · rw [sound.fresh ptr (Nat.le_of_not_lt known)]
      exact Nat.zero_le _

/-- Idle connections are discarded. -/
theorem discard (sound : pool.Sound) {invalid rest : List Nat}
    (taken : pool.conns = invalid ++ rest) :
    Sound { pool with
      conns := rest
      deleted := pool.deleted ++ invalid
      total := pool.total - BitVec.ofNat 32 invalid.length } where
  places := by
    refine List.Perm.trans ?_ sound.places
    rw [taken, List.perm_iff_count]
    intro ptr
    simp only [List.count_append]
    omega
  total := by
    rw [sound.total, taken, List.length_append, Nat.add_assoc, BitVec.ofNat_add, BitVec.ofNat_add,
      add_sub_cancel_left]
  idle ptr member := sound.idle ptr (taken ▸ List.mem_append_right _ member)
  outside := sound.outside
  gone ptr member := by
    rcases List.mem_append.mp member with before | now
    · exact sound.gone ptr before
    · have few := (sound.idle ptr (taken ▸ List.mem_append_left _ now)).2
      exact Nat.le_trans (Nat.le_of_lt few) (Nat.le_max_right ..)
  fresh := sound.fresh

/-- The first idle connection is handed out. -/
theorem reuse (sound : pool.Sound) {rest : List Nat} (taken : pool.conns = ptr :: rest) :
    (handOut { pool with conns := rest } ptr).Sound := by
  have member : ptr ∈ pool.conns := taken ▸ List.mem_cons_self
  have counted := sound.count ptr
  rw [if_pos (sound.known (.inl member)), taken, List.count_cons_self] at counted
  obtain ⟨served, few⟩ := sound.idle ptr member
  have others : ∀ {other}, other ≠ ptr →
      (pool.handedOut ++ [ptr]).count other = pool.handedOut.count other := by
    intro other apart
    have absent : [ptr].count other = 0 := List.count_eq_zero.mpr (by simpa using apart)
    rw [List.count_append, absent, Nat.add_zero]
  constructor
  · refine List.Perm.trans ?_ sound.places
    rw [taken, List.perm_iff_count]
    intro other
    simp only [handOut, List.count_append, List.count_cons, List.count_nil]
    omega
  · simp only [handOut, sound.total, taken, List.length_cons, List.length_append, List.length_nil]
    congr 1
    omega
  · intro other present
    have apart : other ≠ ptr := by
      rintro rfl
      have some_ := List.count_pos_iff.mpr present
      change 0 < rest.count other at some_
      omega
    simp only [handOut, others apart]
    exact sound.idle other (taken ▸ List.mem_cons_of_mem _ present)
  · intro other present
    by_cases same : other = ptr
    · subst same
      simp only [handOut, List.count_append, List.count_singleton_self]
      omega
    · simp only [handOut, others same]
      have before : other ∈ pool.outstanding := by
        simpa [handOut, same] using present
      exact sound.outside other before
  · intro other present
    have apart : other ≠ ptr := by
      rintro rfl
      have some_ := List.count_pos_iff.mpr present
      change 0 < pool.deleted.count other at some_
      omega
    simp only [handOut, others apart]
    exact sound.gone other present
  · intro other unknown
    have apart : other ≠ ptr := by
      rintro rfl
      exact absurd (sound.known (.inl member)) (Nat.not_lt.mpr unknown)
    simp only [handOut, others apart]
    exact sound.fresh other unknown

/-- A new connection is handed out. -/
theorem create (sound : pool.Sound) : (pool.create.handOut pool.created).Sound := by
  have older : ∀ {ptr}, ptr < pool.created →
      Function.update pool.connection pool.created ⟨0, 0⟩ ptr = pool.connection ptr ∧
        (pool.handedOut ++ [pool.created]).count ptr = pool.handedOut.count ptr := by
    intro ptr known
    refine ⟨Function.update_of_ne (Nat.ne_of_lt known) .., ?_⟩
    have absent : [pool.created].count ptr = 0 :=
      List.count_eq_zero.mpr (by simpa using Nat.ne_of_lt known)
    rw [List.count_append, absent, Nat.add_zero]
  constructor
  · have places := (sound.places.append_right [pool.created])
    rw [← List.range_succ] at places
    refine List.Perm.trans ?_ places
    rw [List.perm_iff_count]
    intro ptr
    simp only [handOut, HttpConnectionPool.create, List.count_append]
    omega
  · simp only [handOut, HttpConnectionPool.create, sound.total, List.length_append,
      List.length_singleton]
    rw [← Nat.add_assoc, BitVec.ofNat_add _ 1]
    rfl
  · intro ptr present
    obtain ⟨same, counted⟩ := older (sound.known (.inl present))
    simp only [handOut, HttpConnectionPool.create, same, counted]
    exact sound.idle ptr present
  · intro ptr present
    by_cases new_ : ptr = pool.created
    · subst new_
      simp only [handOut, HttpConnectionPool.create, Function.update_self, List.count_append,
        sound.fresh pool.created (Nat.le_refl _), List.count_singleton_self]
      exact ⟨rfl, Nat.le_max_left ..⟩
    · have before : ptr ∈ pool.outstanding := by
        simpa [handOut, HttpConnectionPool.create, new_] using present
      obtain ⟨same, counted⟩ := older (sound.known (.inr (.inl before)))
      simp only [handOut, HttpConnectionPool.create, same, counted]
      exact sound.outside ptr before
  · intro ptr present
    simp only [handOut, HttpConnectionPool.create, (older (sound.known (.inr (.inr present)))).2]
    exact sound.gone ptr present
  · intro ptr unknown
    have later : pool.created < ptr := unknown
    simp only [handOut, HttpConnectionPool.create, List.count_append,
      sound.fresh ptr (Nat.le_of_lt later)]
    rw [List.count_eq_zero.mpr (by simpa using Nat.ne_of_gt later)]

/-- Once it is released there is no second handle of a connection. -/
theorem released (sound : pool.Sound) (member : ptr ∈ pool.outstanding) :
    ptr ∉ pool.conns ∧ ptr ∉ pool.deleted ∧
      ∀ other, other ∈ pool.outstanding.erase ptr ↔ other ∈ pool.outstanding ∧ other ≠ ptr := by
  have counted := sound.count ptr
  have present := List.count_pos_iff.mpr member
  rw [if_pos (sound.known (.inr (.inl member)))] at counted
  refine ⟨List.count_eq_zero.mp (by omega), List.count_eq_zero.mp (by omega), fun other => ?_⟩
  by_cases same : other = ptr
  · subst same
    have gone : (pool.outstanding.erase other).count other = 0 := by
      rw [List.count_erase_self]
      omega
    simp [List.count_eq_zero.mp gone]
  · simp [List.mem_erase_of_ne same, same]

/-- A released connection is deleted. -/
theorem retire (sound : pool.Sound) (member : ptr ∈ pool.outstanding) (conn : HttpConnection) :
    Sound { pool with
      connection := Function.update pool.connection ptr conn
      outstanding := pool.outstanding.erase ptr
      deleted := pool.deleted ++ [ptr]
      total := pool.total - 1 } := by
  obtain ⟨notIdle, notGone, others⟩ := sound.released member
  have apart : ∀ {places : List Nat} {other}, ptr ∉ places → other ∈ places →
      Function.update pool.connection ptr conn other = pool.connection other := by
    intro places other outside present
    refine Function.update_of_ne ?_ ..
    rintro rfl
    exact outside present
  have erased := List.perm_cons_erase member
  constructor
  · refine List.Perm.trans ?_ sound.places
    rw [List.perm_iff_count]
    intro other
    have counted := erased.count_eq other
    simp only [List.count_append, List.count_cons, List.count_nil] at counted ⊢
    omega
  · have shorter : pool.outstanding.length = (pool.outstanding.erase ptr).length + 1 :=
      erased.length_eq
    rw [sound.total, shorter, ← Nat.add_assoc, BitVec.ofNat_add _ 1]
    exact add_sub_cancel_right ..
  · intro other present
    simp only [apart notIdle present]
    exact sound.idle other present
  · intro other present
    obtain ⟨before, differs⟩ := (others other).mp present
    simp only [Function.update_of_ne differs]
    exact sound.outside other before
  · intro other present
    rcases List.mem_append.mp present with before | now
    · exact sound.gone other before
    · rw [List.mem_singleton.mp now]
      exact (sound.outside ptr member).2
  · exact sound.fresh

/-- A released connection waits in `m_conns`, when it has served few requests. -/
theorem keep (sound : pool.Sound) (member : ptr ∈ pool.outstanding)
    (few : ¬(pool.connection ptr).request + 1 ≥ pool.maxRequest.toUInt64) :
    Sound { pool with
      connection := Function.update pool.connection ptr
        { pool.connection ptr with request := (pool.connection ptr).request + 1 }
      outstanding := pool.outstanding.erase ptr
      conns := pool.conns ++ [ptr] } := by
  obtain ⟨notIdle, notGone, others⟩ := sound.released member
  obtain ⟨served, bounded⟩ := sound.outside ptr member
  have erased := List.perm_cons_erase member
  have small := pool.maxRequest.toNat_lt
  have once : ((pool.connection ptr).request + 1).toNat =
      (pool.connection ptr).request.toNat + 1 := by
    rw [UInt64.toNat_add]
    exact Nat.mod_eq_of_lt (by simp; omega)
  constructor
  · refine List.Perm.trans ?_ sound.places
    rw [List.perm_iff_count]
    intro other
    have counted := erased.count_eq other
    simp only [List.count_append, List.count_cons, List.count_nil] at counted ⊢
    omega
  · have shorter : pool.outstanding.length = (pool.outstanding.erase ptr).length + 1 :=
      erased.length_eq
    simp only [sound.total, shorter, List.length_append, List.length_singleton]
    congr 1
    omega
  · intro other present
    by_cases same : other = ptr
    · subst same
      rw [ge_iff_le, UInt64.le_iff_toNat_le, once, served, UInt32.toNat_toUInt64] at few
      simp only [Function.update_self, once, served]
      exact ⟨trivial, Nat.lt_of_not_le few⟩
    · simp only [Function.update_of_ne same]
      have before : other ∈ pool.conns := by
        simpa [same] using present
      exact sound.idle other before
  · intro other present
    obtain ⟨before, differs⟩ := (others other).mp present
    simp only [Function.update_of_ne differs]
    exact sound.outside other before
  · exact sound.gone
  · exact sound.fresh

end Sound

/-- What the loop takes from the front of `m_conns`. -/
theorem take_eq (pool : HttpConnectionPool) (now : UInt64) (connected : Nat → Bool)
    (conns : List Nat) {invalid rest : List Nat} {ptr : Option Nat}
    (taken : pool.take now connected conns = (invalid, ptr, rest)) :
    conns = invalid ++ (ptr.toList ++ rest) := by
  induction conns generalizing invalid with
  | nil =>
      cases taken
      rfl
  | cons conn conns inductionHypothesis =>
      rw [take] at taken
      split at taken
      · cases taken
        rw [List.cons_append, ← inductionHypothesis rfl]
      · split at taken
        · cases taken
          rw [List.cons_append, ← inductionHypothesis rfl]
        · cases taken
          rfl

/-- One call keeps the pool sound. -/
theorem Sound.step (sound : pool.Sound) {action : Action} (taken : pool.step action = some next) :
    next.Sound := by
  cases action with
  | getConnection now connected connects =>
      cases taken
      rw [getConnection]
      split
      rename_i invalid ptr rest found
      have taken := take_eq pool now connected pool.conns found
      have discarded := sound.discard taken
      cases ptr with
      | some ptr => exact discarded.reuse rfl
      | none =>
          cases connects with
          | true => exact discarded.create
          | false => exact discarded
  | releasePtr ptr now connected =>
      rw [HttpConnectionPool.step] at taken
      split at taken
      case isFalse => cases taken
      rename_i member
      cases taken
      rw [releasePtr]
      split
      · exact sound.retire member _
      · rename_i kept
        simp only [Bool.or_eq_true, decide_eq_true_eq, not_or] at kept
        exact sound.keep member kept.2

end HttpConnectionPool

end Sylar.Http
