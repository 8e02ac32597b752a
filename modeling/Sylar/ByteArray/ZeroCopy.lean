import Sylar.ByteArray.Buffers

/-!
# The buffers and the copying functions agree

Sending from the segments of `getReadBuffers` and moving the position is `read`, and receiving
into the segments of `getWriteBuffers` and moving the position is `write`. Only `read` of
nothing at the end of the chain is different: it follows the null `m_cur`.
-/

namespace Sylar.ByteArray

open Library

/-- `send` of the first `rt` bytes of the segments, and the position moved over them. -/
def sendBuffers (len rt : Nat) : Program (List UInt8) := do
  let (buffers, _) ← getReadBuffers len
  let ba ← get
  match gather ba.nodes buffers with
  | .error fault => throw fault
  | .ok bytes =>
      setPosition (ba.position + rt)
      return bytes.take rt

/-- `recv` of bytes into the segments, and the position moved over them. -/
def receiveBuffers (len : Nat) (bytes : List UInt8) : Program Unit := do
  let (buffers, _) ← getWriteBuffers len
  receive buffers bytes
  let ba ← get
  setPosition (ba.position + bytes.length)

/-- The two byte arrays cannot be told apart by what they hold and where they are. -/
def Alike (first second : ByteArray) : Prop :=
  first.contents = second.contents ∧ first.size = second.size ∧ first.position = second.position

section

variable {ba : ByteArray}

/-- The loop over the segments, from the node of an offset on, tiles the bytes from that offset
on, if they are there. -/
theorem WellFormed.bufferLoop_run (wf : WellFormed ba) {start len : Nat} (wanted : len ≠ 0)
    (room : start + len ≤ ba.capacity) :
    ∃ node following buffers, ba.nodes.drop (start / ba.baseSize) = node :: following ∧
      node.size = ba.baseSize ∧
      bufferLoop (start / ba.baseSize) (node :: following) (start % ba.baseSize)
        (ba.baseSize - start % ba.baseSize) len = .ok buffers ∧
      Tiles ba.baseSize start len buffers := by
  have positive := wf.basePositive
  have split : ba.baseSize * (start / ba.baseSize) + start % ba.baseSize = start :=
    Nat.div_add_mod _ _
  have bound : start / ba.baseSize < ba.nodes.length := by
    rw [Nat.div_lt_iff_lt_mul positive, Nat.mul_comm, ← wf.capacityEq]
    omega
  have chain := List.drop_eq_getElem_cons bound
  have uniform := wf.uniform.drop (start / ba.baseSize)
  have fits : start % ba.baseSize + len ≤
      ba.baseSize * (ba.nodes.drop (start / ba.baseSize)).length := by
    rw [List.length_drop, Nat.mul_sub, ← wf.capacityEq]
    omega
  obtain ⟨buffers, loopEq, tiles⟩ := bufferLoop_eq positive uniform (start / ba.baseSize)
    (start % ba.baseSize) len (Nat.mod_lt _ positive) wanted fits
  rw [split] at tiles
  rw [chain] at uniform loopEq
  exact ⟨_, _, buffers, chain, uniform.head, loopEq, tiles⟩

/-- `getReadBuffers` tiles the unread bytes. -/
theorem getReadBuffers_run (wf : WellFormed ba) (len : Nat) :
    ∃ buffers, EStateM.run (getReadBuffers len) ba = .ok (buffers, min len ba.getReadSize) ba ∧
      Tiles ba.baseSize ba.position (min len ba.getReadSize) buffers := by
  have unread : ba.getReadSize = ba.size - ba.position := rfl
  have positionLe := wf.positionLe
  have sizeLe := wf.sizeLe
  have cut : (if len > ba.getReadSize then ba.getReadSize else len) = min len ba.getReadSize := by
    split <;> omega
  by_cases empty : min len ba.getReadSize = 0
  · refine ⟨[], ?_, empty⟩
    simp only [getReadBuffers, EStateM.run_bind, EStateM.run_get, cut, empty, if_true,
      EStateM.run_pure]
  · have inside : ba.position < ba.capacity := by omega
    obtain ⟨node, following, fetched, chain⟩ := wf.fromCur_run inside
    have room : ba.position + min len ba.getReadSize ≤ ba.capacity := by omega
    obtain ⟨_, _, buffers, there, nodeSize, loopEq, tiles⟩ := wf.bufferLoop_run empty room
    obtain ⟨rfl, rfl⟩ := List.cons.inj (chain.trans there)
    refine ⟨buffers, ?_, tiles⟩
    simp only [getReadBuffers, EStateM.run_bind, EStateM.run_get, cut, if_neg empty, fetched,
      nodeSize, loopEq, EStateM.run_pure]

/-- Going through a tiling of bytes below the size yields those bytes. -/
theorem gather_contents (wf : WellFormed ba) {start len : Nat} {buffers : List IoVec}
    (tiles : Tiles ba.baseSize start len buffers) (bounded : start + len ≤ ba.size) :
    gather ba.nodes buffers = .ok ((ba.contents.drop start).take len) := by
  have sizeLe := wf.sizeLe
  have room : start + len ≤ ba.baseSize * ba.nodes.length := by
    rw [← wf.capacityEq]
    omega
  rw [gather_eq wf.uniform tiles room, contents, List.drop_take, List.take_take,
    Nat.min_eq_left (by omega)]

/-- `getWriteBuffers` makes room and tiles it. -/
theorem getWriteBuffers_run (wf : WellFormed ba) {len : Nat} (wanted : len ≠ 0) :
    ∃ buffers grown, EStateM.run (getWriteBuffers len) ba = .ok (buffers, len) grown ∧
      Extended len ba grown ∧ Tiles grown.baseSize ba.position len buffers := by
  obtain ⟨grown, ran, extended⟩ := wf.addCapacity_run wanted
  have wfGrown := extended.wellFormed
  have room : grown.position + len ≤ grown.capacity := by
    rw [extended.position]
    exact extended.room
  have inside : grown.position < grown.capacity := by omega
  obtain ⟨node, following, fetched, chain⟩ := wfGrown.fromCur_run inside
  obtain ⟨_, _, buffers, there, nodeSize, loopEq, tiles⟩ := wfGrown.bufferLoop_run wanted room
  obtain ⟨rfl, rfl⟩ := List.cons.inj (chain.trans there)
  rw [extended.position] at tiles
  refine ⟨buffers, grown, ?_, extended, tiles⟩
  simp only [getWriteBuffers, if_neg wanted, EStateM.run_bind, ran, EStateM.run_get, fetched,
    nodeSize, loopEq, EStateM.run_pure]

/-- The byte array after bytes were received into the segments. -/
theorem receive_run (wf : WellFormed ba) {start len : Nat} {buffers : List IoVec}
    (tiles : Tiles ba.baseSize start len buffers) (room : start + len ≤ ba.capacity)
    {bytes : List UInt8} (fits : bytes.length ≤ len) :
    ∃ nodes, EStateM.run (receive buffers bytes) ba = .ok () { ba with nodes := nodes } ∧
      WellFormed { ba with nodes := nodes } ∧
      bytesOf nodes = overwrite (bytesOf ba.nodes) start bytes := by
  obtain ⟨nodes, ran, uniform, length, filled⟩ :=
    scatter_eq wf.uniform tiles (wf.capacityEq ▸ room) fits
  refine ⟨nodes, ?_, ?_, filled⟩
  · simp only [receive, EStateM.run_bind, EStateM.run_get, ran, EStateM.run_set]
  · exact {
      basePositive := wf.basePositive
      uniform := uniform
      rooted := by
        rw [ne_eq, ← List.length_eq_zero_iff, length, List.length_eq_zero_iff]
        exact wf.rooted
      capacityEq := by rw [length]; exact wf.capacityEq
      positionLe := wf.positionLe
      sizeLe := wf.sizeLe
      curEq := by rw [length]; exact wf.curEq }

/-- The chain is overwritten from the position on, and the position moved over that. -/
theorem Extended.overwritten (wf : WellFormed ba) {len : Nat} {grown : ByteArray}
    (extended : Extended len ba grown) {nodes : List Node} {bytes : List UInt8}
    (filled : bytesOf nodes = overwrite (bytesOf grown.nodes) ba.position bytes) :
    (({ grown with nodes := nodes } : ByteArray).movedTo (ba.position + bytes.length)).contents =
      overwrite ba.contents ba.position bytes := by
  have sizeLe := wf.sizeLe
  have sizeGrown : ba.size ≤ grown.capacity := by
    rw [extended.capacity]
    exact Nat.le_trans sizeLe (Nat.le_max_left _ _)
  have oldBytes : (bytesOf grown.nodes).take ba.size = ba.contents := by
    rw [contents, ← extended.bytes, List.take_take, Nat.min_eq_left sizeLe]
  have total := extended.wellFormed.length_bytesOf
  simp only [contents, movedTo, filled, extended.size]
  rw [take_max_overwrite wf.positionLe (by omega), oldBytes]
  rfl

/-- What receiving leaves is what `write` leaves. -/
theorem receiveBuffers_run (wf : WellFormed ba) {len : Nat} (wanted : len ≠ 0)
    {bytes : List UInt8} (fits : bytes.length ≤ len) :
    ∃ after, EStateM.run (receiveBuffers len bytes) ba = .ok () after ∧
      after.contents = overwrite ba.contents ba.position bytes ∧
      after.position = ba.position + bytes.length ∧
      after.size = max ba.size (ba.position + bytes.length) := by
  obtain ⟨buffers, grown, ran, extended, tiles⟩ := getWriteBuffers_run wf wanted
  obtain ⟨nodes, received, wfFilled, filled⟩ :=
    receive_run extended.wellFormed tiles extended.room fits
  have room := extended.room
  have bounded : ba.position + bytes.length ≤ grown.capacity := by omega
  have moved := wfFilled.setPosition_run (v := ba.position + bytes.length) bounded
  refine ⟨({ grown with nodes := nodes } : ByteArray).movedTo (ba.position + bytes.length),
    ?_, extended.overwritten wf filled, rfl, ?_⟩
  · have same : grown.position + bytes.length = ba.position + bytes.length := by
      rw [extended.position]
    simp only [receiveBuffers, EStateM.run_bind, ran, received, EStateM.run_get, same]
    exact moved
  · simp only [movedTo, extended.size]

theorem Written.size {buf : List UInt8} {after : ByteArray} (wf : WellFormed ba)
    (written : Written buf ba after) : after.size = max ba.size (ba.position + buf.length) := by
  have positionLe := wf.positionLe
  rw [← written.wellFormed.length_contents, written.contents, length_overwrite, wf.length_contents]
  rw [wf.length_contents]
  exact positionLe

/-- Sending `rt` bytes of the segments is reading them. -/
def SendAgrees (ba : ByteArray) (len rt : Nat) : Prop :=
  ∃ bytes sent other, EStateM.run (sendBuffers len rt) ba = .ok bytes sent ∧
    EStateM.run (read rt) ba = .ok bytes other ∧ Alike sent other

/-- Receiving bytes into the segments is writing them. -/
def ReceiveAgrees (ba : ByteArray) (len : Nat) (bytes : List UInt8) : Prop :=
  ∃ received written, EStateM.run (receiveBuffers len bytes) ba = .ok () received ∧
    EStateM.run (write bytes) ba = .ok () written ∧ Alike received written

theorem sendBuffers_run (wf : WellFormed ba) {len rt : Nat}
    (bounded : rt ≤ min len ba.getReadSize) :
    EStateM.run (sendBuffers len rt) ba =
      .ok ((ba.contents.drop ba.position).take rt) (ba.movedTo (ba.position + rt)) := by
  have unread : ba.getReadSize = ba.size - ba.position := rfl
  have positionLe := wf.positionLe
  have sizeLe := wf.sizeLe
  obtain ⟨buffers, ran, tiles⟩ := getReadBuffers_run wf len
  have gathered := gather_contents wf tiles (by omega)
  have moved := wf.setPosition_run (v := ba.position + rt) (by omega)
  simp only [sendBuffers, EStateM.run_bind, ran, EStateM.run_get, gathered, moved, EStateM.run_pure,
    List.take_take, Nat.min_eq_left bounded]

theorem sendAgrees_iff (wf : WellFormed ba) {len rt : Nat} (bounded : rt ≤ min len ba.getReadSize) :
    SendAgrees ba len rt ↔ ¬(rt = 0 ∧ ba.position = ba.capacity) := by
  have sending := sendBuffers_run wf bounded
  constructor
  · rintro ⟨bytes, sent, other, -, ran, -⟩ ⟨rfl, atEnd⟩
    rw [wf.read_zero_run_null atEnd] at ran
    cases ran
  · intro present
    rcases Nat.eq_zero_or_pos rt with rfl | some_
    · have positionLe := wf.positionLe
      have sizeLe := wf.sizeLe
      have inside : ba.position < ba.capacity := by omega
      have same : ba.movedTo (ba.position + 0) = ba := by
        rw [movedTo, Nat.add_zero, Nat.max_eq_left positionLe, ← wf.curEq]
      rw [same] at sending
      exact ⟨_, _, _, sending, wf.read_zero_run inside, rfl, rfl, rfl⟩
    · exact ⟨_, _, _, sending, wf.read_run_movedTo (Nat.ne_of_gt some_) (by omega), rfl, rfl, rfl⟩

theorem receiveAgrees (wf : WellFormed ba) {len : Nat} (wanted : len ≠ 0) {bytes : List UInt8}
    (fits : bytes.length ≤ len) : ReceiveAgrees ba len bytes := by
  obtain ⟨received, ran, contents, position, size⟩ := receiveBuffers_run wf wanted fits
  obtain ⟨after, wrote, written⟩ := wf.write_run bytes
  exact ⟨received, after, ran, wrote, contents.trans written.contents.symm,
    size.trans (written.size wf).symm, position.trans written.position.symm⟩

/-- The segments of `getReadBuffers` hold the unread bytes, and sending from them is reading,
unless nothing is read at the end of the chain. The segments of `getWriteBuffers` are disjoint
and tile the bytes from the position on, and receiving into them is writing. -/
theorem buffers_agree_iff (wf : WellFormed ba) (len : Nat) :
    (∃ buffers, EStateM.run (getReadBuffers len) ba = .ok (buffers, min len ba.getReadSize) ba ∧
      gather ba.nodes buffers =
        .ok ((ba.contents.drop ba.position).take (min len ba.getReadSize))) ∧
    (∀ rt ≤ min len ba.getReadSize,
      (SendAgrees ba len rt ↔ ¬(rt = 0 ∧ ba.position = ba.capacity))) ∧
    (0 < len → ∃ buffers grown,
      EStateM.run (getWriteBuffers len) ba = .ok (buffers, len) grown ∧
      buffers.Pairwise IoVec.Apart ∧ (buffers.map IoVec.length).sum = len ∧
      Tiles grown.baseSize ba.position len buffers ∧ ba.position + len ≤ grown.capacity) ∧
    (0 < len → ∀ bytes : List UInt8, bytes.length ≤ len → ReceiveAgrees ba len bytes) := by
  have unread : ba.getReadSize = ba.size - ba.position := rfl
  have positionLe := wf.positionLe
  refine ⟨?_, fun rt bounded => sendAgrees_iff wf bounded, fun wanted => ?_,
    fun wanted bytes fits => receiveAgrees wf (Nat.ne_of_gt wanted) fits⟩
  · obtain ⟨buffers, ran, tiles⟩ := getReadBuffers_run wf len
    exact ⟨buffers, ran, gather_contents wf tiles (by omega)⟩
  · obtain ⟨buffers, grown, ran, extended, tiles⟩ := getWriteBuffers_run wf (Nat.ne_of_gt wanted)
    exact ⟨buffers, grown, ran, tiles.apart, tiles.length_eq, tiles, extended.room⟩

end

/-- Three bytes from the middle of a fresh byte array with nodes of two bytes. -/
theorem buffers_agree_fresh : ReceiveAgrees (new 2 fun _ _ => 0) 3 [7, 8] ∧
    SendAgrees (new 2 fun _ _ => 0) 0 0 := by
  have agree := buffers_agree_iff (new_wellFormed (show 0 < 2 by decide) fun _ _ => 0)
  refine ⟨(agree 3).2.2.2 (by decide) [7, 8] (by decide), ((agree 0).2.1 0 (by decide)).mpr ?_⟩
  decide

/-- A byte array whose only node is full and read: nothing is left to send, and reading nothing
follows the null `m_cur`. -/
def exhausted : ByteArray where
  baseSize := 1
  position := 1
  capacity := 1
  size := 1
  endian := .big
  nodes := [⟨[7], 1, rfl⟩]
  cur := none
  heap := fun _ _ => 0
  allocated := 1

theorem exhausted_wellFormed : WellFormed exhausted where
  basePositive := by decide
  uniform := by simp [exhausted, Uniform]
  rooted := by simp [exhausted]
  capacityEq := rfl
  positionLe := by decide
  sizeLe := by decide
  curEq := by simp [exhausted, pointerTo]

theorem sendAgrees_exhausted :
    ¬∀ (ba : ByteArray) (len rt : Nat), WellFormed ba → rt ≤ min len ba.getReadSize →
      SendAgrees ba len rt := by
  intro claimed
  obtain ⟨bytes, sent, other, -, ran, -⟩ :=
    claimed exhausted 1 0 exhausted_wellFormed (Nat.zero_le _)
  cases ran

end Sylar.ByteArray
