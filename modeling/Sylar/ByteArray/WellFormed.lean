import Sylar.ByteArray.Chain
import Sylar.Library.CursorBuffer
import Mathlib.Algebra.Order.Group.Nat

/-!
# The invariant of the byte array and the effect of each operation

`WellFormed` ties the redundant members together: the capacity to the chain and
`m_cur` to the position. Each operation gets one lemma that says it does not
fail, keeps the invariant, and what it does to `contents`, the bytes below
`m_size`. Later modules use these lemmas and never unfold an operation again.
-/

namespace Sylar.ByteArray

open Library

/-- The bytes below `m_size`. -/
def contents (ba : ByteArray) : List UInt8 := (bytesOf ba.nodes).take ba.size

/-- What holds of the members between calls. -/
structure WellFormed (ba : ByteArray) : Prop where
  basePositive : 0 < ba.baseSize
  uniform : Uniform ba.baseSize ba.nodes
  rooted : ba.nodes ≠ []
  capacityEq : ba.capacity = ba.baseSize * ba.nodes.length
  positionLe : ba.position ≤ ba.size
  sizeLe : ba.size ≤ ba.capacity
  curEq : ba.cur = pointerTo ba.nodes.length (ba.position / ba.baseSize)

/-- Whole nodes are reserved, and at least one. -/
def blocks (baseSize : Nat) (positive : 0 < baseSize) : Growth where
  reserve demand := baseSize * max 1 (nodeCount demand baseSize)
  covers demand := by
    have rounded : demand ≤ baseSize * nodeCount demand baseSize := by
      have division := Nat.div_add_mod (demand + baseSize - 1) baseSize
      have remainder := Nat.mod_lt (demand + baseSize - 1) positive
      simp only [nodeCount]
      omega
    exact Nat.le_trans rounded (Nat.mul_le_mul_left _ (Nat.le_max_right _ _))

theorem new_wellFormed {baseSize : Nat} (positive : 0 < baseSize) (heap : Nat → Nat → UInt8) :
    WellFormed (new baseSize heap) where
  basePositive := positive
  uniform := by simp [new, Uniform, Node.new]
  rooted := by simp [new]
  capacityEq := by simp [new]
  positionLe := Nat.le_refl _
  sizeLe := Nat.zero_le _
  curEq := by simp [new, pointerTo]

namespace WellFormed

variable {ba : ByteArray}

theorem length_bytesOf (wf : WellFormed ba) : (bytesOf ba.nodes).length = ba.capacity := by
  rw [ByteArray.length_bytesOf wf.uniform, wf.capacityEq]

@[simp] theorem length_contents (wf : WellFormed ba) : ba.contents.length = ba.size := by
  have bound := wf.sizeLe
  rw [contents, List.length_take, wf.length_bytesOf]
  omega

/-- `m_cur` is null exactly at the end of the chain. -/
theorem cur_eq_none_iff (wf : WellFormed ba) : ba.cur = none ↔ ba.position = ba.capacity := by
  have positionBound : ba.position ≤ ba.baseSize * ba.nodes.length :=
    wf.capacityEq ▸ Nat.le_trans wf.positionLe wf.sizeLe
  have division : ba.position / ba.baseSize < ba.nodes.length ↔
      ba.position < ba.baseSize * ba.nodes.length := by
    rw [Nat.div_lt_iff_lt_mul wf.basePositive, Nat.mul_comm]
  rw [wf.curEq, pointerTo, wf.capacityEq]
  by_cases inside : ba.position / ba.baseSize < ba.nodes.length
  · have := division.mp inside
    simp only [if_pos inside, reduceCtorEq, false_iff]
    omega
  · have := mt division.mpr inside
    simp only [if_neg inside, true_iff]
    omega

/-- Before the end of the chain `m_cur` is the node of the position. -/
theorem cur_eq_some (wf : WellFormed ba) (inside : ba.position < ba.capacity) :
    ba.cur = some (ba.position / ba.baseSize) ∧ ba.position / ba.baseSize < ba.nodes.length := by
  have bound : ba.position / ba.baseSize < ba.nodes.length := by
    rw [Nat.div_lt_iff_lt_mul wf.basePositive, Nat.mul_comm, ← wf.capacityEq]
    exact inside
  rw [wf.curEq, pointerTo, if_pos bound]
  exact ⟨rfl, bound⟩

/-- Following `m_cur` before the end of the chain yields the chain from the node
of the position on. -/
theorem fromCur_run (wf : WellFormed ba) (inside : ba.position < ba.capacity) :
    ∃ node following, EStateM.run fromCur ba =
        .ok (ba.position / ba.baseSize, node, following) ba ∧
      node :: following = ba.nodes.drop (ba.position / ba.baseSize) := by
  obtain ⟨cur, bound⟩ := wf.cur_eq_some inside
  have nonempty : ba.nodes.drop (ba.position / ba.baseSize) ≠ [] := by
    intro empty
    have := congrArg List.length empty
    simp only [List.length_drop, List.length_nil] at this
    omega
  obtain ⟨node, following, chain⟩ := List.exists_cons_of_ne_nil nonempty
  refine ⟨node, following, ?_, chain.symm⟩
  simp only [fromCur, EStateM.run_bind, EStateM.run_get, cur, chain, EStateM.run_pure]

/-- At the end of the chain following `m_cur` is a null dereference. -/
theorem fromCur_run_null (wf : WellFormed ba) (atEnd : ba.position = ba.capacity) :
    EStateM.run fromCur ba = .error .nullNode ba := by
  have cur := wf.cur_eq_none_iff.mpr atEnd
  simp only [fromCur, EStateM.run_bind, EStateM.run_get, cur]
  rfl

end WellFormed

/-- Rounding up commutes with whole nodes that are already there. -/
theorem nodeCount_sub {baseSize : Nat} (positive : 0 < baseSize) (present demand : Nat) :
    nodeCount (demand - baseSize * present) baseSize = nodeCount demand baseSize - present := by
  by_cases needed : baseSize * present ≤ demand
  · have split : demand - baseSize * present + baseSize - 1 =
        demand + baseSize - 1 - baseSize * present := by omega
    rw [nodeCount, nodeCount, split, Nat.sub_mul_div]
  · have few : nodeCount demand baseSize ≤ present := by
      rw [nodeCount, Nat.div_le_iff_le_mul positive, Nat.mul_comm]
      omega
    have none : demand - baseSize * present = 0 := by omega
    rw [none, nodeCount, Nat.zero_add, Nat.div_eq_of_lt (by omega)]
    omega

/-- What an operation that adds capacity leaves alone, and what it reaches. -/
structure Extended (demand : Nat) (before after : ByteArray) : Prop where
  wellFormed : WellFormed after
  room : before.position + demand ≤ after.capacity
  capacity : after.capacity = max before.capacity
    (before.baseSize * max 1 (nodeCount (before.position + demand) before.baseSize))
  bytes : (bytesOf after.nodes).take before.capacity = bytesOf before.nodes
  position : after.position = before.position
  size : after.size = before.size
  baseSize : after.baseSize = before.baseSize
  endian : after.endian = before.endian

namespace WellFormed

variable {ba : ByteArray}

/-- The capacity covers a demand exactly when it covers the whole nodes for it. -/
theorem capacity_covers (wf : WellFormed ba) {demand : Nat} (enough : demand ≤ ba.capacity) :
    ba.baseSize * max 1 (nodeCount demand ba.baseSize) ≤ ba.capacity := by
  have present : 0 < ba.nodes.length := List.length_pos_iff.mpr wf.rooted
  have few : nodeCount demand ba.baseSize ≤ ba.nodes.length := by
    have positive := wf.basePositive
    rw [wf.capacityEq] at enough
    rw [nodeCount, Nat.div_le_iff_le_mul positive, Nat.mul_comm]
    omega
  rw [wf.capacityEq]
  exact Nat.mul_le_mul_left _ (by omega)

theorem addCapacity_run (wf : WellFormed ba) {demand : Nat} (wanted : demand ≠ 0) :
    ∃ after, EStateM.run (addCapacity demand) ba = .ok () after ∧ Extended demand ba after := by
  have positionLe : ba.position ≤ ba.capacity := Nat.le_trans wf.positionLe wf.sizeLe
  have free : ba.getCapacity = ba.capacity - ba.position := rfl
  by_cases fits : ba.getCapacity ≥ demand
  · have room : ba.position + demand ≤ ba.capacity := by omega
    refine ⟨ba, ?_, wf, room, ?_, ?_, rfl, rfl, rfl, rfl⟩
    · simp only [addCapacity, EStateM.run_modify, if_neg wanted, if_pos fits]
    · exact (Nat.max_eq_left (wf.capacity_covers room)).symm
    · rw [← wf.length_bytesOf, List.take_length]
  · have shortage : demand - (ba.getCapacity) =
        ba.position + demand - ba.baseSize * ba.nodes.length := by
      rw [← wf.capacityEq, free]
      omega
    have counted : nodeCount (demand - (ba.getCapacity)) ba.baseSize =
        nodeCount (ba.position + demand) ba.baseSize - ba.nodes.length := by
      rw [shortage, nodeCount_sub wf.basePositive]
    have covered := (blocks ba.baseSize wf.basePositive).covers (ba.position + demand)
    have present : 0 < ba.nodes.length := List.length_pos_iff.mpr wf.rooted
    have more : ba.nodes.length < nodeCount (ba.position + demand) ba.baseSize := by
      by_contra few
      have bounded : max 1 (nodeCount (ba.position + demand) ba.baseSize) ≤ ba.nodes.length := by
        omega
      have := Nat.mul_le_mul_left ba.baseSize bounded
      have := wf.capacityEq
      simp only [blocks] at covered
      omega
    obtain ⟨added, uniform, length, grown⟩ := appendNodes_eq
      (nodeCount (demand - (ba.getCapacity)) ba.baseSize) ba
    rw [counted] at length
    have total : ba.nodes.length + added.length =
        nodeCount (ba.position + demand) ba.baseSize := by omega
    have newCapacity : ba.capacity +
        nodeCount (demand - (ba.getCapacity)) ba.baseSize * ba.baseSize =
          ba.baseSize * nodeCount (ba.position + demand) ba.baseSize := by
      rw [counted, ← length, wf.capacityEq, Nat.mul_comm added.length, ← Nat.mul_add, total]
    have atLeastOne : max 1 (nodeCount (ba.position + demand) ba.baseSize) =
        nodeCount (ba.position + demand) ba.baseSize := by omega
    have room : ba.position + demand ≤
        ba.baseSize * nodeCount (ba.position + demand) ba.baseSize := by
      simpa only [blocks, atLeastOne] using covered
    have increase : ba.capacity ≤ ba.baseSize * nodeCount (ba.position + demand) ba.baseSize := by
      rw [wf.capacityEq]
      exact Nat.mul_le_mul_left _ (Nat.le_of_lt more)
    -- m_cur was null exactly when the position was at the end of the old chain
    have cursor : (if ba.getCapacity = 0 then some ba.nodes.length else ba.cur) =
        pointerTo (ba.nodes ++ added).length (ba.position / ba.baseSize) := by
      rw [List.length_append, total]
      by_cases atEnd : ba.position = ba.capacity
      · have quotient : ba.position / ba.baseSize = ba.nodes.length := by
          rw [atEnd, wf.capacityEq, Nat.mul_div_cancel_left _ wf.basePositive]
        rw [if_pos (by omega), quotient, pointerTo, if_pos more]
      · obtain ⟨cur, bound⟩ := wf.cur_eq_some (by omega)
        rw [if_neg (by omega), cur, pointerTo, if_pos (by omega)]
    refine ⟨{ ba with
        nodes := ba.nodes ++ added
        capacity := ba.baseSize * nodeCount (ba.position + demand) ba.baseSize
        allocated := ba.allocated +
          nodeCount (demand - (ba.getCapacity)) ba.baseSize
        cur := pointerTo (ba.nodes ++ added).length (ba.position / ba.baseSize) }, ?_, ?_⟩
    · have counting : nodeCount (demand - (ba.getCapacity)) ba.baseSize ≠ 0 := by
        omega
      simp only [addCapacity, EStateM.run_modify, if_neg wanted]
      rw [if_neg fits, if_neg counting, grown, newCapacity, ← cursor]
      split <;> rfl
    · exact {
        wellFormed := {
          basePositive := wf.basePositive
          uniform := wf.uniform.append uniform
          rooted := by simp [wf.rooted]
          capacityEq := by simp only [List.length_append, total]
          positionLe := wf.positionLe
          sizeLe := Nat.le_trans wf.sizeLe increase
          curEq := rfl }
        room := room
        capacity := by
          rw [atLeastOne]
          exact (Nat.max_eq_right increase).symm
        bytes := by
          rw [bytesOf_append, ← wf.length_bytesOf, List.take_left]
        position := rfl
        size := rfl
        baseSize := rfl
        endian := rfl }

end WellFormed

end Sylar.ByteArray
