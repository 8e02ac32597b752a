import Sylar.ByteArray.WellFormed

/-!
# The effect of write, read, setPosition, clear and toString

One lemma for each operation, over `contents` and the position only.
-/

namespace Sylar.ByteArray

open Library

/-- The effect of `write`. -/
structure Written (buf : List UInt8) (before after : ByteArray) : Prop where
  wellFormed : WellFormed after
  contents : after.contents = overwrite before.contents before.position buf
  position : after.position = before.position + buf.length
  capacity : after.capacity = max before.capacity
    (before.baseSize * max 1 (nodeCount (before.position + buf.length) before.baseSize))
  baseSize : after.baseSize = before.baseSize
  endian : after.endian = before.endian

/-- The effect of an operation that moves the position and nothing else. -/
structure Moved (position : Nat) (before after : ByteArray) : Prop where
  wellFormed : WellFormed after
  contents : after.contents = before.contents
  position : after.position = position
  capacity : after.capacity = before.capacity
  baseSize : after.baseSize = before.baseSize
  endian : after.endian = before.endian

/-- The byte array after `setPosition(v)` within the capacity. -/
def movedTo (ba : ByteArray) (v : Nat) : ByteArray :=
  { ba with
    position := v
    size := max ba.size v
    cur := pointerTo ba.nodes.length (v / ba.baseSize) }

namespace WellFormed

variable {ba : ByteArray}

/-- The node of the position and the offset in it make up the position. -/
theorem position_split (ba : ByteArray) :
    ba.baseSize * (ba.position / ba.baseSize) + ba.position % ba.baseSize = ba.position :=
  Nat.div_add_mod _ _

/-- The chain before the node of the position holds the bytes before that node. -/
theorem length_bytesOf_take (wf : WellFormed ba) (inside : ba.position < ba.capacity) :
    (bytesOf (ba.nodes.take (ba.position / ba.baseSize))).length =
      ba.baseSize * (ba.position / ba.baseSize) := by
  obtain ⟨_, bound⟩ := wf.cur_eq_some inside
  rw [ByteArray.length_bytesOf (wf.uniform.take _), List.length_take, Nat.min_eq_left (by omega)]

/-- The bytes behind the position lie in the chain from its node on. -/
theorem bytes_behind (wf : WellFormed ba) (inside : ba.position < ba.capacity) :
    (bytesOf ba.nodes).drop ba.position =
      (bytesOf (ba.nodes.drop (ba.position / ba.baseSize))).drop (ba.position % ba.baseSize) := by
  obtain ⟨_, bound⟩ := wf.cur_eq_some inside
  have behind := wf.uniform.drop_bytesOf (Nat.le_of_lt bound) (ba.position % ba.baseSize)
  rwa [position_split] at behind

/-- Bytes behind the position up to the capacity lie in the chain from the node
of the position on. -/
theorem chain_room (wf : WellFormed ba) (inside : ba.position < ba.capacity) {amount : Nat}
    (room : ba.position + amount ≤ ba.capacity) :
    ba.position % ba.baseSize + amount ≤
      ba.baseSize * (ba.nodes.drop (ba.position / ba.baseSize)).length := by
  obtain ⟨_, bound⟩ := wf.cur_eq_some inside
  have split := position_split ba
  rw [wf.capacityEq] at room
  rw [List.length_drop, Nat.mul_sub]
  omega

/-- The node reached after `amount` bytes is the node of the new position. -/
theorem pointerTo_advance (wf : WellFormed ba) (inside : ba.position < ba.capacity)
    (amount : Nat) :
    pointerTo (ba.position / ba.baseSize + (ba.nodes.drop (ba.position / ba.baseSize)).length)
        (ba.position / ba.baseSize + (ba.position % ba.baseSize + amount) / ba.baseSize) =
      pointerTo ba.nodes.length ((ba.position + amount) / ba.baseSize) := by
  obtain ⟨_, bound⟩ := wf.cur_eq_some inside
  have quotient : (ba.position + amount) / ba.baseSize =
      ba.position / ba.baseSize + (ba.position % ba.baseSize + amount) / ba.baseSize := by
    conv_lhs => rw [← position_split ba, Nat.add_assoc, Nat.mul_add_div wf.basePositive]
  rw [quotient, List.length_drop]
  congr 1
  omega

theorem write_run (wf : WellFormed ba) (buf : List UInt8) :
    ∃ after, EStateM.run (write buf) ba = .ok () after ∧ Written buf ba after := by
  by_cases empty : buf = []
  · subst empty
    have covered := wf.capacity_covers (Nat.le_trans wf.positionLe wf.sizeLe)
    exact ⟨ba, by simp [write], wf, (overwrite_nil _ _).symm, rfl,
      (Nat.max_eq_left (by simpa using covered)).symm, rfl, rfl⟩
  have bufLength : buf.length ≠ 0 := by simpa using empty
  obtain ⟨grown, ran, extended⟩ := wf.addCapacity_run bufLength
  have wfGrown := extended.wellFormed
  have roomGrown : grown.position + buf.length ≤ grown.capacity := by
    rw [extended.position]
    exact extended.room
  have inside : grown.position < grown.capacity := by omega
  obtain ⟨node, following, fetched, chain⟩ := wfGrown.fromCur_run inside
  have uniform : Uniform grown.baseSize (node :: following) := by
    rw [chain]
    exact wfGrown.uniform.drop _
  obtain ⟨stored, loopEq, storedUniform, storedLength, storedBytes⟩ :=
    writeLoop_eq wfGrown.basePositive uniform (grown.position / grown.baseSize)
      (grown.position % grown.baseSize) buf (Nat.mod_lt _ wfGrown.basePositive) empty
      (by rw [chain]; exact wfGrown.chain_room inside roomGrown)
  rw [chain, wfGrown.pointerTo_advance inside] at loopEq
  rw [chain] at storedLength storedBytes
  obtain ⟨_, bound⟩ := wfGrown.cur_eq_some inside
  have nodesLength : (grown.nodes.take (grown.position / grown.baseSize) ++ stored).length =
      grown.nodes.length := by
    rw [List.length_append, storedLength, List.length_take, List.length_drop]
    omega
  have newBytes : bytesOf (grown.nodes.take (grown.position / grown.baseSize) ++ stored) =
      overwrite (bytesOf grown.nodes) grown.position buf := by
    rw [bytesOf_append, storedBytes, ← overwrite_append_right, ← bytesOf_append,
      List.take_append_drop, wfGrown.length_bytesOf_take inside, position_split]
  have newSize : (if grown.position + buf.length > grown.size then grown.position + buf.length
      else grown.size) = max ba.size (ba.position + buf.length) := by
    rw [extended.position, extended.size]
    split <;> omega
  refine ⟨{ grown with
      nodes := grown.nodes.take (grown.position / grown.baseSize) ++ stored
      cur := pointerTo grown.nodes.length ((grown.position + buf.length) / grown.baseSize)
      position := grown.position + buf.length
      size := max ba.size (ba.position + buf.length) }, ?_, ?_⟩
  · simp only [write, if_neg bufLength, EStateM.run_bind, ran, EStateM.run_get, fetched]
    rw [chain] at uniform
    rw [show node.size = grown.baseSize from uniform node (chain ▸ List.mem_cons_self), chain,
      loopEq, newSize]
    rfl
  · have sizeLe := wf.sizeLe
    have sizeGrown : ba.size ≤ grown.capacity := by
      rw [extended.capacity]
      exact Nat.le_trans sizeLe (Nat.le_max_left _ _)
    exact {
      wellFormed := {
        basePositive := wfGrown.basePositive
        uniform := (wfGrown.uniform.take _).append storedUniform
        rooted := by
          rw [ne_eq, ← List.length_eq_zero_iff, nodesLength, List.length_eq_zero_iff]
          exact wfGrown.rooted
        capacityEq := by rw [nodesLength]; exact wfGrown.capacityEq
        positionLe := by
          rw [extended.position]
          exact Nat.le_max_right _ _
        sizeLe := by
          rw [extended.position] at roomGrown
          exact Nat.max_le.mpr ⟨sizeGrown, roomGrown⟩
        curEq := by rw [nodesLength] }
      contents := by
        have oldBytes : (bytesOf grown.nodes).take ba.size = ba.contents := by
          rw [contents, ← extended.bytes, List.take_take, Nat.min_eq_left sizeLe]
        have grownLength := wfGrown.length_bytesOf
        simp only [contents]
        rw [newBytes, extended.position, take_max_overwrite wf.positionLe (by omega), oldBytes]
        rfl
      position := by rw [extended.position]
      capacity := extended.capacity
      baseSize := extended.baseSize
      endian := extended.endian }

/-- Moving the position and `m_cur` together keeps the invariant. -/
theorem moved (wf : WellFormed ba) {position : Nat} (bounded : position ≤ ba.size) :
    Moved position ba
      { ba with
        position := position
        cur := pointerTo ba.nodes.length (position / ba.baseSize) } where
  wellFormed := {
    basePositive := wf.basePositive
    uniform := wf.uniform
    rooted := wf.rooted
    capacityEq := wf.capacityEq
    positionLe := bounded
    sizeLe := wf.sizeLe
    curEq := rfl }
  contents := rfl
  position := rfl
  capacity := rfl
  baseSize := rfl
  endian := rfl

/-- The copy loop started at the position of the byte array returns the bytes
behind it. -/
theorem readLoop_run (wf : WellFormed ba) (inside : ba.position < ba.capacity) {size : Nat}
    (nonempty : size ≠ 0) (room : ba.position + size ≤ ba.size) {node : Node}
    {following : List Node}
    (chain : node :: following = ba.nodes.drop (ba.position / ba.baseSize)) :
    readLoop (ba.position / ba.baseSize) (node :: following) (ba.position % ba.baseSize)
        (node.size - ba.position % ba.baseSize) size =
      .ok ((ba.contents.drop ba.position).take size,
        pointerTo ba.nodes.length ((ba.position + size) / ba.baseSize)) := by
  have sizeLe := wf.sizeLe
  have uniform : Uniform ba.baseSize (node :: following) := by
    rw [chain]
    exact wf.uniform.drop _
  have loopEq := readLoop_eq wf.basePositive uniform (ba.position / ba.baseSize)
    (ba.position % ba.baseSize) size (Nat.mod_lt _ wf.basePositive) nonempty
    (by rw [chain]; exact wf.chain_room inside (by omega))
  -- the loop starts in the middle of the chain, the contents at its root
  have sameBytes : ((bytesOf (ba.nodes.drop (ba.position / ba.baseSize))).drop
      (ba.position % ba.baseSize)).take size = (ba.contents.drop ba.position).take size := by
    rw [contents, List.drop_take, List.take_take, wf.bytes_behind inside, Nat.min_eq_left (by omega)]
  rw [uniform.head, loopEq, chain, wf.pointerTo_advance inside, sameBytes]

/-- A read moves the position over the bytes it returns. -/
theorem read_run_movedTo (wf : WellFormed ba) {size : Nat} (nonempty : size ≠ 0)
    (available : size ≤ ba.getReadSize) :
    EStateM.run (read size) ba =
      .ok ((ba.contents.drop ba.position).take size) (ba.movedTo (ba.position + size)) := by
  have unread : ba.getReadSize = ba.size - ba.position := rfl
  have positionLe := wf.positionLe
  have sizeLe := wf.sizeLe
  have inside : ba.position < ba.capacity := by omega
  obtain ⟨node, following, fetched, chain⟩ := wf.fromCur_run inside
  have loopEq := wf.readLoop_run inside nonempty (by omega) chain
  have sameSize : max ba.size (ba.position + size) = ba.size := by omega
  simp only [read, EStateM.run_bind, EStateM.run_get, if_neg (Nat.not_lt.mpr available),
    fetched, loopEq, EStateM.run_set, EStateM.run_pure, movedTo, sameSize]

theorem read_run (wf : WellFormed ba) {size : Nat} (nonempty : size ≠ 0)
    (available : size ≤ ba.getReadSize) :
    ∃ after, EStateM.run (read size) ba =
        .ok ((ba.contents.drop ba.position).take size) after ∧
      Moved (ba.position + size) ba after := by
  have unread : ba.getReadSize = ba.size - ba.position := rfl
  have bounded : ba.position + size ≤ ba.size := by
    have positionLe := wf.positionLe
    omega
  refine ⟨_, wf.read_run_movedTo nonempty available, ?_⟩
  rw [movedTo, Nat.max_eq_left bounded]
  exact wf.moved bounded

/-- A read of nothing leaves everything as it is, provided there is a node to
look at. -/
theorem read_zero_run (wf : WellFormed ba) (inside : ba.position < ba.capacity) :
    EStateM.run (read 0) ba = .ok [] ba := by
  obtain ⟨cur, _⟩ := wf.cur_eq_some inside
  obtain ⟨node, following, fetched, _⟩ := wf.fromCur_run inside
  simp only [read, EStateM.run_bind, EStateM.run_get, Nat.not_lt_zero, if_false, fetched, readLoop,
    if_true, EStateM.run_set, EStateM.run_pure, Nat.add_zero, gt_iff_lt]
  rw [← cur]

/-- At the end of the chain even a read of nothing follows the null `m_cur`. -/
theorem read_zero_run_null (wf : WellFormed ba) (atEnd : ba.position = ba.capacity) :
    EStateM.run (read 0) ba = .error .nullNode ba := by
  simp only [read, EStateM.run_bind, EStateM.run_get, gt_iff_lt, Nat.not_lt_zero, if_false,
    wf.fromCur_run_null atEnd]

theorem setPosition_run (wf : WellFormed ba) {v : Nat} (bounded : v ≤ ba.capacity) :
    EStateM.run (setPosition v) ba = .ok () (ba.movedTo v) := by
  have found := seekLoop_eq wf.basePositive wf.uniform wf.rooted 0 v
    (by rw [← wf.capacityEq]; exact bounded)
  have newSize : (if v > ba.size then v else ba.size) = max ba.size v := by
    split <;> omega
  simp only [Nat.zero_add] at found
  simp only [setPosition, EStateM.run_bind, EStateM.run_get, if_neg (Nat.not_lt.mpr bounded),
    found, newSize, EStateM.run_set, movedTo]

/-- A move within the contents leaves them alone. -/
theorem setPosition_inside (wf : WellFormed ba) {v : Nat} (bounded : v ≤ ba.size) :
    ∃ after, EStateM.run (setPosition v) ba = .ok () after ∧ Moved v ba after := by
  have sizeLe := wf.sizeLe
  refine ⟨_, wf.setPosition_run (by omega), ?_⟩
  rw [movedTo, Nat.max_eq_left bounded]
  exact wf.moved bounded

/-- Any move within the capacity keeps the invariant; it extends the contents by
the bytes found in the chain. -/
theorem setPosition_wellFormed (wf : WellFormed ba) {v : Nat} (bounded : v ≤ ba.capacity) :
    WellFormed (ba.movedTo v) where
  basePositive := wf.basePositive
  uniform := wf.uniform
  rooted := wf.rooted
  capacityEq := wf.capacityEq
  positionLe := Nat.le_max_right _ _
  sizeLe := Nat.max_le.mpr ⟨wf.sizeLe, bounded⟩
  curEq := rfl

theorem clear_wellFormed (wf : WellFormed ba) :
    ∃ after, EStateM.run clear ba = .ok () after ∧ WellFormed after ∧ after.contents = [] ∧
      after.position = 0 ∧ after.capacity = ba.baseSize ∧ after.baseSize = ba.baseSize ∧
      after.endian = ba.endian := by
  have oneNode : (ba.nodes.take 1).length = 1 := by
    have present : 0 < ba.nodes.length := List.length_pos_iff.mpr wf.rooted
    rw [List.length_take]
    omega
  refine ⟨_, rfl, ?_, ?_, rfl, rfl, rfl, rfl⟩
  · exact {
      basePositive := wf.basePositive
      uniform := wf.uniform.take 1
      rooted := by
        show ba.nodes.take 1 ≠ []
        rw [← List.length_pos_iff, oneNode]
        exact Nat.one_pos
      capacityEq := by rw [oneNode, Nat.mul_one]
      positionLe := Nat.le_refl _
      sizeLe := Nat.zero_le _
      curEq := by simp [pointerTo, oneNode] }
  · simp [contents]

theorem toString_run (wf : WellFormed ba) :
    EStateM.run toString ba = .ok (ba.contents.drop ba.position) ba := by
  have unread : ba.getReadSize = ba.size - ba.position := rfl
  have positionLe := wf.positionLe
  have sizeLe := wf.sizeLe
  have length := wf.length_contents
  by_cases empty : ba.getReadSize = 0
  · have nothing : ba.contents.drop ba.position = [] := List.drop_eq_nil_of_le (by omega)
    simp only [toString, EStateM.run_bind, EStateM.run_get, if_pos empty, EStateM.run_pure, nothing]
  · have inside : ba.position < ba.capacity := by omega
    obtain ⟨node, following, fetched, chain⟩ := wf.fromCur_run inside
    have loopEq := wf.readLoop_run inside empty (by omega) chain
    have whole : (ba.contents.drop ba.position).take ba.getReadSize =
        ba.contents.drop ba.position := List.take_of_length_le (by rw [List.length_drop]; omega)
    have allowed : ¬ba.getReadSize > ba.size - ba.position := by omega
    simp only [toString, readAt, EStateM.run_bind, EStateM.run_get, if_neg empty, if_neg allowed,
      fetched, loopEq, EStateM.run_pure, whole]

end WellFormed

/-- A read beyond the contents throws and changes nothing. -/
theorem read_run_outOfRange {ba : ByteArray} {size : Nat} (beyond : ba.getReadSize < size) :
    EStateM.run (read size) ba = .error .outOfRange ba := by
  simp only [read, EStateM.run_bind, EStateM.run_get, gt_iff_lt, if_pos beyond]
  rfl

/-- A move beyond the capacity throws and changes nothing. -/
theorem setPosition_run_outOfRange {ba : ByteArray} {v : Nat} (beyond : ba.capacity < v) :
    EStateM.run (setPosition v) ba = .error .outOfRange ba := by
  simp only [setPosition, EStateM.run_bind, EStateM.run_get, gt_iff_lt, if_pos beyond]
  rfl

end Sylar.ByteArray
