import Sylar.ByteArray.ZeroCopy

/-!
# Access at a position

`read(buf, size, position)` looks up the offset of `position` in the node of the cursor, and
`getReadBuffers(buffers, len, position)` cuts the length to what is unread behind the cursor.
Both are right when the cursor happens to suit the position.
-/

namespace Sylar.ByteArray

open Library

/-- `read(buf, size, position)` yields the bytes at `position`, or throws when there are too
few, and leaves everything as it is. -/
def ReadAtRight (ba : ByteArray) (size position : Nat) : Prop :=
  if size ≤ ba.size - position then
    EStateM.run (readAt size position) ba = .ok ((ba.contents.drop position).take size) ba
  else EStateM.run (readAt size position) ba = .error .outOfRange ba

/-- The segments of `getReadBuffers(buffers, len, position)` hold the bytes from `position` on,
and everything is left as it is. -/
def BuffersAtRight (ba : ByteArray) (len position : Nat) : Prop :=
  ∃ buffers returned, EStateM.run (getReadBuffersAt len position) ba = .ok (buffers, returned) ba ∧
    gather ba.nodes buffers =
      .ok ((ba.contents.drop position).take (min len (ba.size - position)))

/-- Where the bytes of `read(buf, size, position)` are taken from: the offset of `position` in
the node of the cursor. -/
def fetchedFrom (ba : ByteArray) (position : Nat) : Nat :=
  ba.baseSize * (ba.position / ba.baseSize) + position % ba.baseSize

/-- The copy loop leaves a chain that is too short by a null node. -/
theorem readLoop_null {baseSize : Nat} {chain : List Node} (uniform : Uniform baseSize chain)
    (index npos size : Nat) (short : baseSize * chain.length < npos + size)
    (inside : npos < baseSize) :
    readLoop index chain npos (baseSize - npos) size = .error .nullNode ∨ size = 0 := by
  by_cases empty : size = 0
  · exact .inr empty
  refine .inl ?_
  induction chain generalizing index npos size with
  | nil => rw [readLoop, if_neg empty]
  | cons node following inductionHypothesis =>
      have nodeSize : node.size = baseSize := uniform.head
      rw [List.length_cons, Nat.mul_succ] at short
      by_cases fits : baseSize - npos ≥ size
      · have whole := Nat.zero_le (baseSize * following.length)
        omega
      · rw [readLoop, if_neg empty, if_neg fits, node.load_eq npos (baseSize - npos) (by omega)]
        cases following with
        | nil => rfl
        | cons next later =>
            have nextSize : next.size = baseSize := uniform.tail.head
            have loopEq := inductionHypothesis uniform.tail (index + 1) 0
              (size - (baseSize - npos)) (by omega) (by omega) (by omega)
            rw [Nat.sub_zero] at loopEq
            simp only [bind, Except.bind, nextSize, loopEq]

theorem bufferLoop_null {baseSize : Nat} {chain : List Node} (uniform : Uniform baseSize chain)
    (index npos len : Nat) (short : baseSize * chain.length < npos + len)
    (inside : npos < baseSize) (nonempty : len ≠ 0) :
    bufferLoop index chain npos (baseSize - npos) len = .error .nullNode := by
  induction chain generalizing index npos len with
  | nil => rw [bufferLoop, if_neg nonempty]
  | cons node following inductionHypothesis =>
      rw [List.length_cons, Nat.mul_succ] at short
      by_cases fits : baseSize - npos ≥ len
      · have whole := Nat.zero_le (baseSize * following.length)
        omega
      · cases following with
        | nil =>
            rw [bufferLoop, if_neg nonempty, if_neg fits]
            rfl
        | cons next later =>
            have nextSize : next.size = baseSize := uniform.tail.head
            have loopEq := inductionHypothesis uniform.tail (index + 1) 0
              (len - (baseSize - npos)) (by omega) (by omega) (by omega)
            rw [Nat.sub_zero] at loopEq
            rw [bufferLoop, if_neg nonempty, if_neg fits]
            simp only [nextSize, loopEq]
            rfl

section

variable {ba : ByteArray} {position : Nat}

/-- In the node of the cursor the right bytes are fetched. -/
theorem fetchedFrom_eq (same : position / ba.baseSize = ba.position / ba.baseSize) :
    ba.fetchedFrom position = position := by
  rw [fetchedFrom, ← same, Nat.div_add_mod]

theorem readAt_run (wf : WellFormed ba) {size : Nat} (available : size ≤ ba.size - position)
    (inside : ba.position < ba.capacity) :
    EStateM.run (readAt size position) ba =
      if ba.fetchedFrom position + size ≤ ba.capacity then
        .ok (((bytesOf ba.nodes).drop (ba.fetchedFrom position)).take size) ba
      else .error .nullNode ba := by
  obtain ⟨node, following, fetched, chain⟩ := wf.fromCur_run inside
  obtain ⟨_, bound⟩ := wf.cur_eq_some inside
  have uniform : Uniform ba.baseSize (node :: following) := by
    rw [chain]
    exact wf.uniform.drop _
  have offset : position % ba.baseSize < ba.baseSize := Nat.mod_lt _ wf.basePositive
  have length : ba.baseSize * (node :: following).length =
      ba.capacity - ba.baseSize * (ba.position / ba.baseSize) := by
    rw [chain, List.length_drop, Nat.mul_sub, wf.capacityEq]
  have before : ba.baseSize * (ba.position / ba.baseSize + 1) ≤ ba.capacity := by
    rw [wf.capacityEq]
    exact Nat.mul_le_mul_left _ bound
  rw [Nat.mul_succ] at before
  have behind : (bytesOf ba.nodes).drop (ba.fetchedFrom position) =
      (bytesOf (node :: following)).drop (position % ba.baseSize) := by
    rw [chain, fetchedFrom, wf.uniform.drop_bytesOf (Nat.le_of_lt bound)]
  have start : ba.fetchedFrom position =
      ba.baseSize * (ba.position / ba.baseSize) + position % ba.baseSize := rfl
  have size_ : node.size = ba.baseSize := uniform.head
  simp only [readAt, EStateM.run_bind, EStateM.run_get, if_neg (Nat.not_lt.mpr available),
    gt_iff_lt, fetched, size_]
  by_cases room : ba.fetchedFrom position + size ≤ ba.capacity
  · rw [if_pos room, behind]
    by_cases empty : size = 0
    · subst empty
      simp only [readLoop, if_true, EStateM.run_pure, List.take_zero]
    · rw [readLoop_eq wf.basePositive uniform _ _ _ offset empty (by omega)]
      rfl
  · rw [if_neg room]
    rcases readLoop_null uniform (ba.position / ba.baseSize) (position % ba.baseSize) size
      (by omega) offset with null | empty
    · rw [null]
      rfl
    · omega

theorem readAtRight_iff (wf : WellFormed ba) {size : Nat} :
    ReadAtRight ba size position ↔
      (size ≤ ba.size - position → ba.position < ba.capacity ∧
        ba.fetchedFrom position + size ≤ ba.capacity ∧
        ((bytesOf ba.nodes).drop (ba.fetchedFrom position)).take size =
          (ba.contents.drop position).take size) := by
  rw [ReadAtRight]
  by_cases available : size ≤ ba.size - position
  · rw [if_pos available]
    simp only [available, true_imp_iff]
    by_cases inside : ba.position < ba.capacity
    · rw [readAt_run wf available inside]
      by_cases room : ba.fetchedFrom position + size ≤ ba.capacity
      · rw [if_pos room]
        simp only [EStateM.Result.ok.injEq, and_true, inside, room, true_and]
      · rw [if_neg room]
        simp only [reduceCtorEq, room, false_and, and_false]
    · have positionLe := wf.positionLe
      have sizeLe := wf.sizeLe
      have null := wf.fromCur_run_null (by omega)
      simp only [readAt, EStateM.run_bind, EStateM.run_get, if_neg (Nat.not_lt.mpr available),
        gt_iff_lt, null, reduceCtorEq, inside, false_and]
  · rw [if_neg available]
    simp only [available, false_imp_iff, iff_true]
    simp only [readAt, EStateM.run_bind, EStateM.run_get, gt_iff_lt,
      if_pos (Nat.not_le.mp available)]
    rfl

/-- Segments that reach beyond the capacity are not collected. -/
theorem getReadBuffersAt_null (wf : WellFormed ba) {len : Nat}
    {result : List IoVec × Nat} {after : ByteArray} (nonempty : min len ba.getReadSize ≠ 0)
    (beyond : ba.capacity < position + min len ba.getReadSize) :
    EStateM.run (getReadBuffersAt len position) ba ≠ .ok result after := by
  have positive := wf.basePositive
  have cut : (if len > ba.getReadSize then ba.getReadSize else len) = min len ba.getReadSize := by
    split <;> omega
  intro ran
  cases chain : ba.nodes.drop (position / ba.baseSize) with
  | nil =>
      simp only [getReadBuffersAt, EStateM.run_bind, EStateM.run_get, cut, if_neg nonempty,
        chain] at ran
      cases ran
  | cons node following =>
      have uniform : Uniform ba.baseSize (node :: following) := by
        rw [← chain]
        exact wf.uniform.drop _
      have whole : ba.baseSize * (position / ba.baseSize) + position % ba.baseSize = position :=
        Nat.div_add_mod _ _
      have short : ba.baseSize * (node :: following).length <
          position % ba.baseSize + min len ba.getReadSize := by
        rw [← chain, List.length_drop, Nat.mul_sub, ← wf.capacityEq]
        omega
      have loopEq := bufferLoop_null uniform (position / ba.baseSize) (position % ba.baseSize)
        (min len ba.getReadSize) short (Nat.mod_lt _ positive) nonempty
      simp only [getReadBuffersAt, EStateM.run_bind, EStateM.run_get, cut, if_neg nonempty, chain,
        uniform.head, loopEq] at ran
      cases ran

theorem buffersAtRight_iff (wf : WellFormed ba) (bounded : position ≤ ba.size) {len : Nat} :
    BuffersAtRight ba len position ↔
      min len (ba.size - ba.position) = min len (ba.size - position) := by
  have unread : ba.getReadSize = ba.size - ba.position := rfl
  have sizeLe := wf.sizeLe
  have cut : (if len > ba.getReadSize then ba.getReadSize else len) = min len ba.getReadSize := by
    split <;> omega
  have expected : ((ba.contents.drop position).take (min len (ba.size - position))).length =
      min len (ba.size - position) := by
    rw [List.length_take, List.length_drop, wf.length_contents]
    omega
  rw [BuffersAtRight, ← unread]
  by_cases empty : min len ba.getReadSize = 0
  · have ran : EStateM.run (getReadBuffersAt len position) ba = .ok ([], 0) ba := by
      simp only [getReadBuffersAt, EStateM.run_bind, EStateM.run_get, cut, empty, if_true,
        EStateM.run_pure]
    rw [ran, empty]
    constructor
    · rintro ⟨buffers, returned, same, gathered⟩
      cases same
      have nothing := congrArg List.length (Except.ok.inj gathered)
      rw [expected] at nothing
      exact nothing
    · intro same
      refine ⟨[], 0, rfl, ?_⟩
      rw [← same]
      rfl
  · by_cases room : position + min len ba.getReadSize ≤ ba.capacity
    · obtain ⟨node, following, buffers, chain, nodeSize, loopEq, tiles⟩ :=
        wf.bufferLoop_run empty room
      have gathered := gather_eq wf.uniform tiles (by rw [← wf.capacityEq]; exact room)
      have ran : EStateM.run (getReadBuffersAt len position) ba =
          .ok (buffers, min len ba.getReadSize) ba := by
        simp only [getReadBuffersAt, EStateM.run_bind, EStateM.run_get, cut, if_neg empty, chain,
          nodeSize, loopEq, EStateM.run_pure]
      rw [ran]
      constructor
      · rintro ⟨_, _, same, contents⟩
        cases same
        rw [gathered] at contents
        have lengths := congrArg List.length (Except.ok.inj contents)
        rw [expected, List.length_take, List.length_drop, wf.length_bytesOf] at lengths
        omega
      · intro same
        refine ⟨buffers, _, rfl, ?_⟩
        rw [← same]
        exact gather_contents wf tiles (by omega)
    · refine iff_of_false ?_ (by omega)
      rintro ⟨buffers, returned, ran, -⟩
      exact getReadBuffersAt_null wf empty (Nat.not_le.mp room) ran

/-- Positioned access is right exactly when the cursor suits the position: for `read`, the node
of the cursor holds the wanted bytes at the offset of `position`, as the node of `position`
does; for `getReadBuffers`, the length is cut to the same number behind the cursor. -/
theorem positioned_iff (wf : WellFormed ba) (bounded : position ≤ ba.size) (size len : Nat) :
    (ReadAtRight ba size position ↔
      (size ≤ ba.size - position → ba.position < ba.capacity ∧
        ba.fetchedFrom position + size ≤ ba.capacity ∧
        ((bytesOf ba.nodes).drop (ba.fetchedFrom position)).take size =
          (ba.contents.drop position).take size)) ∧
    (BuffersAtRight ba len position ↔
      min len (ba.size - ba.position) = min len (ba.size - position)) ∧
    (ba.position < ba.capacity → position / ba.baseSize = ba.position / ba.baseSize →
      ReadAtRight ba size position) := by
  refine ⟨readAtRight_iff wf, buffersAtRight_iff wf bounded, fun inside same => ?_⟩
  refine (readAtRight_iff wf).mpr fun available => ⟨inside, ?_, ?_⟩
  · have sizeLe := wf.sizeLe
    rw [fetchedFrom_eq same]
    omega
  · rw [fetchedFrom_eq same, contents, List.drop_take, List.take_take, Nat.min_eq_left available]

end

/-- A node of one byte. -/
def Node.single (byte : UInt8) : Node := ⟨[byte], 1, List.length_singleton⟩

/-- Two nodes of one byte, with the position behind the first one. -/
def halfRead : ByteArray where
  baseSize := 1
  position := 1
  capacity := 2
  size := 2
  endian := .big
  nodes := [.single 7, .single 8]
  cur := some 1
  heap := fun _ _ => 0
  allocated := 2

theorem halfRead_wellFormed : WellFormed halfRead where
  basePositive := by decide
  uniform := by simp [halfRead, Node.single, Uniform]
  rooted := by simp [halfRead]
  capacityEq := rfl
  positionLe := by decide
  sizeLe := by decide
  curEq := by simp [halfRead, pointerTo]

theorem positioned_halfRead :
    ReadAtRight halfRead 1 1 ∧ BuffersAtRight halfRead 1 1 ∧ ¬ReadAtRight halfRead 1 0 := by
  have here := positioned_iff halfRead_wellFormed (show 1 ≤ halfRead.size by decide) 1 1
  have root := positioned_iff halfRead_wellFormed (show 0 ≤ halfRead.size by decide) 1 1
  refine ⟨here.2.2 (by decide) (by decide), here.2.1.mpr (by decide), ?_⟩
  rw [root.1]
  decide

/-- From the second node, the byte at position 0 is the one of the second node. -/
theorem readAt_halfRead :
    ¬∀ (ba : ByteArray) (size len position : Nat), WellFormed ba → position ≤ ba.size →
      ReadAtRight ba size position ∧ BuffersAtRight ba len position := by
  intro claimed
  have right := (claimed halfRead 1 1 0 halfRead_wellFormed (by decide)).1
  rw [ReadAtRight, if_pos (by decide)] at right
  cases right

end Sylar.ByteArray
