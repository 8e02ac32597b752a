import Mathlib.Algebra.GroupWithZero.Nat
import Sylar.ByteArray.Operations

/-!
# Buffers into a byte array

`getReadBuffers` and `getWriteBuffers` hand out segments of the chain, which `SocketStream` gives
to `send` and `recv`. The segments tile a range of the bytes of the chain, whatever the chunk
boundaries are, so that going through them is reading or overwriting that range.
-/

namespace Sylar.ByteArray

open Library

/-- An `iovec` into the block of a node. -/
structure IoVec where
  node : Nat
  offset : Nat
  length : Nat
deriving DecidableEq, Repr

/-- The loop that the three functions share, over the chain from a node on. -/
def bufferLoop (index : Nat) : List Node → (npos ncap len : Nat) → Except Fault (List IoVec)
  | [], _, _, len => if len = 0 then .ok [] else .error .nullNode
  | _ :: following, npos, ncap, len =>
      if len = 0 then .ok []
      else if ncap ≥ len then .ok [⟨index, npos, len⟩]
      else
        match following with
        | [] => throw .nullNode
        | next :: _ => do
            let buffers ← bufferLoop (index + 1) following 0 next.size (len - ncap)
            return ⟨index, npos, ncap⟩ :: buffers

/-- `getReadBuffers(buffers, len)`: the segments pushed, and the value returned. -/
def getReadBuffers (len : Nat) : Program (List IoVec × Nat) := do
  let ba ← get
  let len := if len > ba.getReadSize then ba.getReadSize else len
  if len = 0 then return ([], 0)
  else
    let npos := ba.position % ba.baseSize
    let (index, node, following) ← fromCur
    let ncap := node.size - npos
    match bufferLoop index (node :: following) npos ncap len with
    | .error fault => throw fault
    | .ok buffers => return (buffers, len)

/-- `getReadBuffers(buffers, len, position)`. The length is cut to what is unread behind the
cursor, and the node is found from the root. -/
def getReadBuffersAt (len position : Nat) : Program (List IoVec × Nat) := do
  let ba ← get
  let len := if len > ba.getReadSize then ba.getReadSize else len
  if len = 0 then return ([], 0)
  else
    let npos := position % ba.baseSize
    let count := position / ba.baseSize
    match ba.nodes.drop count with
    | [] => throw .nullNode
    | node :: following =>
        let ncap := node.size - npos
        match bufferLoop count (node :: following) npos ncap len with
        | .error fault => throw fault
        | .ok buffers => return (buffers, len)

/-- `getWriteBuffers`, which makes room first. -/
def getWriteBuffers (len : Nat) : Program (List IoVec × Nat) := do
  if len = 0 then return ([], 0)
  else
    addCapacity len
    let ba ← get
    let npos := ba.position % ba.baseSize
    let (index, node, following) ← fromCur
    let ncap := node.size - npos
    match bufferLoop index (node :: following) npos ncap len with
    | .error fault => throw fault
    | .ok buffers => return (buffers, len)

/-- The bytes of the segments, one after the other. -/
def gather (nodes : List Node) : List IoVec → Except Fault (List UInt8)
  | [] => .ok []
  | iov :: buffers =>
      match nodes[iov.node]? with
      | none => .error .nullNode
      | some node => do
          let bytes ← node.load iov.offset iov.length
          let others ← gather nodes buffers
          return bytes ++ others

/-- Fill the segments, one after the other, until there are no more bytes. -/
def scatter : List IoVec → List UInt8 → List Node → Except Fault (List Node)
  | [], _, nodes => .ok nodes
  | iov :: buffers, bytes, nodes =>
      match nodes[iov.node]? with
      | none => .error .nullNode
      | some node => do
          let stored ← node.store iov.offset (bytes.take iov.length)
          scatter buffers (bytes.drop iov.length) (nodes.set iov.node stored)

/-- `recv` into the segments. -/
def receive (buffers : List IoVec) (bytes : List UInt8) : Program Unit := do
  let ba ← get
  match scatter buffers bytes ba.nodes with
  | .error fault => throw fault
  | .ok nodes => set { ba with nodes := nodes }

/-- The segments follow each other in the bytes of the chain, from `start` on, and have `len`
bytes together. -/
def Tiles (baseSize : Nat) : (start len : Nat) → List IoVec → Prop
  | _, len, [] => len = 0
  | start, len, iov :: buffers =>
      baseSize * iov.node + iov.offset = start ∧ iov.offset + iov.length ≤ baseSize ∧
        0 < iov.length ∧ iov.length ≤ len ∧
        Tiles baseSize (start + iov.length) (len - iov.length) buffers

/-- Two segments have no byte in common. -/
def IoVec.Apart (first second : IoVec) : Prop :=
  first.node ≠ second.node ∨ first.offset + first.length ≤ second.offset ∨
    second.offset + second.length ≤ first.offset

section Chain

variable {baseSize : Nat} {nodes : List Node} {buffers : List IoVec} {start len : Nat}

/-- The loop tiles the range it was asked for. -/
theorem bufferLoop_eq (positive : 0 < baseSize) {chain : List Node}
    (uniform : Uniform baseSize chain) (index npos len : Nat) (inside : npos < baseSize)
    (nonempty : len ≠ 0) (room : npos + len ≤ baseSize * chain.length) :
    ∃ buffers, bufferLoop index chain npos (baseSize - npos) len = .ok buffers ∧
      Tiles baseSize (baseSize * index + npos) len buffers := by
  induction chain generalizing index npos len with
  | nil =>
      simp only [List.length_nil] at room
      omega
  | cons node following inductionHypothesis =>
      by_cases fits : baseSize - npos ≥ len
      · have within : npos + len ≤ baseSize := by omega
        refine ⟨[⟨index, npos, len⟩], ?_, rfl, within, Nat.pos_of_ne_zero nonempty, Nat.le_refl _,
          Nat.sub_self _⟩
        rw [bufferLoop.eq_def]
        simp only [if_neg nonempty, if_pos fits]
      · have restRoom : 0 + (len - (baseSize - npos)) ≤ baseSize * following.length := by
          simp only [List.length_cons, Nat.mul_succ] at room
          omega
        obtain ⟨buffers, loopEq, tiles⟩ := inductionHypothesis uniform.tail (index + 1) 0
          (len - (baseSize - npos)) positive (by omega) restRoom
        obtain ⟨next, later, rfl⟩ : ∃ next later, following = next :: later := by
          cases following with
          | nil =>
              simp only [List.length_nil, Nat.mul_zero] at restRoom
              omega
          | cons next later => exact ⟨next, later, rfl⟩
        have nextSize : next.size = baseSize := uniform.tail.head
        have behind : baseSize * (index + 1) + 0 = baseSize * index + npos + (baseSize - npos) := by
          rw [Nat.mul_succ]
          omega
        refine ⟨⟨index, npos, baseSize - npos⟩ :: buffers, ?_, rfl, by simp only; omega,
          by simp only; omega, by simp only; omega, ?_⟩
        · rw [Nat.sub_zero] at loopEq
          rw [bufferLoop, if_neg nonempty, if_neg fits]
          simp only [nextSize, loopEq]
          rfl
        · rw [behind] at tiles
          exact tiles

/-- The bytes of one segment are a range of the bytes of the chain. -/
theorem load_segment (uniform : Uniform baseSize nodes) {index offset length : Nat}
    (inside : offset + length ≤ baseSize) (bounded : index < nodes.length) :
    nodes[index].load offset length =
      .ok (((bytesOf nodes).drop (baseSize * index + offset)).take length) := by
  have size : nodes[index].size = baseSize := uniform _ (List.getElem_mem bounded)
  have ptrLength : nodes[index].ptr.length = baseSize := nodes[index].allocated.trans size
  have front : (bytesOf (nodes.take index)).length = baseSize * index := by
    rw [length_bytesOf (uniform.take _), List.length_take, Nat.min_eq_left (by omega)]
  have whole : bytesOf nodes =
      bytesOf (nodes.take index) ++ (nodes[index].ptr ++ bytesOf (nodes.drop (index + 1))) := by
    rw [← bytesOf_cons, ← bytesOf_append, List.getElem_cons_drop, List.take_append_drop]
  rw [Node.load_eq _ _ _ (by omega), whole, ← front, List.drop_length_add_append,
    List.drop_append_of_le_length (by omega),
    List.take_append_of_le_length (by rw [List.length_drop]; omega)]

/-- Storing into one segment overwrites a range of the bytes of the chain. -/
theorem store_segment (uniform : Uniform baseSize nodes) {index offset : Nat} {source : List UInt8}
    (inside : offset + source.length ≤ baseSize) (bounded : index < nodes.length) :
    ∃ stored, nodes[index].store offset source = .ok stored ∧
      Uniform baseSize (nodes.set index stored) ∧
      bytesOf (nodes.set index stored) =
        overwrite (bytesOf nodes) (baseSize * index + offset) source := by
  have size : nodes[index].size = baseSize := uniform _ (List.getElem_mem bounded)
  have ptrLength : nodes[index].ptr.length = baseSize := nodes[index].allocated.trans size
  obtain ⟨stored, storeEq, storedSize, storedBytes⟩ :=
    nodes[index].store_eq offset source (by omega)
  have front : (bytesOf (nodes.take index)).length = baseSize * index := by
    rw [length_bytesOf (uniform.take _), List.length_take, Nat.min_eq_left (by omega)]
  have whole : bytesOf nodes =
      bytesOf (nodes.take index) ++ (nodes[index].ptr ++ bytesOf (nodes.drop (index + 1))) := by
    rw [← bytesOf_cons, ← bytesOf_append, List.getElem_cons_drop, List.take_append_drop]
  have replaced : nodes.set index stored =
      nodes.take index ++ stored :: nodes.drop (index + 1) := List.set_eq_take_append_cons_drop ▸ by
    simp [bounded]
  refine ⟨stored, storeEq, ?_, ?_⟩
  · rw [replaced]
    exact (uniform.take _).append ((uniform.drop _).cons (storedSize.trans size))
  · rw [replaced, bytesOf_append, bytesOf_cons, storedBytes, whole, ← front,
      overwrite_append_right, overwrite_append_left (by omega)]

/-- A segment of a tiling lies in a node. -/
theorem Tiles.node_lt {iov : IoVec}
    (tiles : Tiles baseSize start len (iov :: buffers))
    (room : start + len ≤ baseSize * nodes.length) : iov.node < nodes.length := by
  obtain ⟨address, _, some_, within, _⟩ := tiles
  by_contra outside
  have beyond := Nat.mul_le_mul_left baseSize (Nat.not_lt.mp outside)
  omega

/-- Going through the segments is reading the range. -/
theorem gather_eq (uniform : Uniform baseSize nodes)
    (tiles : Tiles baseSize start len buffers) (room : start + len ≤ baseSize * nodes.length) :
    gather nodes buffers = .ok (((bytesOf nodes).drop start).take len) := by
  induction buffers generalizing start len with
  | nil =>
      obtain rfl : len = 0 := tiles
      simp [gather]
  | cons iov buffers inductionHypothesis =>
      have bounded := tiles.node_lt room
      obtain ⟨address, inside, _, within, rest⟩ := tiles
      have others := inductionHypothesis rest (by omega)
      rw [gather, List.getElem?_eq_getElem bounded]
      simp only [load_segment uniform inside bounded, others, address]
      have split : len = iov.length + (len - iov.length) := by omega
      conv_rhs => rw [split, List.take_add, List.drop_drop]
      rfl

/-- Filling the segments is overwriting the range from its start on. -/
theorem scatter_eq (uniform : Uniform baseSize nodes)
    (tiles : Tiles baseSize start len buffers) (room : start + len ≤ baseSize * nodes.length)
    {bytes : List UInt8} (fits : bytes.length ≤ len) :
    ∃ filled, scatter buffers bytes nodes = .ok filled ∧ Uniform baseSize filled ∧
      filled.length = nodes.length ∧ bytesOf filled = overwrite (bytesOf nodes) start bytes := by
  induction buffers generalizing start len bytes nodes with
  | nil =>
      obtain rfl : len = 0 := tiles
      obtain rfl := List.length_eq_zero_iff.mp (Nat.le_zero.mp fits)
      exact ⟨nodes, rfl, uniform, rfl, (overwrite_nil _ _).symm⟩
  | cons iov buffers inductionHypothesis =>
      have bounded := tiles.node_lt room
      obtain ⟨address, inside, _, within, rest⟩ := tiles
      have taken : (bytes.take iov.length).length = min iov.length bytes.length :=
        List.length_take
      obtain ⟨stored, storeEq, storedUniform, storedBytes⟩ :=
        store_segment uniform
          (show iov.offset + (bytes.take iov.length).length ≤ baseSize by omega) bounded
      obtain ⟨filled, ran, filledUniform, filledLength, filledBytes⟩ :=
        inductionHypothesis storedUniform rest (by rw [List.length_set]; omega)
          (show (bytes.drop iov.length).length ≤ len - iov.length by
            rw [List.length_drop]
            omega)
      have total := length_bytesOf uniform
      refine ⟨filled, ?_, filledUniform, filledLength.trans List.length_set, ?_⟩
      · rw [scatter, List.getElem?_eq_getElem bounded]
        simp only [storeEq]
        exact ran
      · rw [filledBytes, storedBytes, address]
        by_cases short : bytes.length ≤ iov.length
        · rw [List.drop_eq_nil_of_le short, List.take_of_length_le short, overwrite_nil]
        · have inside : start ≤ (bytesOf nodes).length := by omega
          have joined : overwrite (overwrite (bytesOf nodes) start (bytes.take iov.length))
              (start + (bytes.take iov.length).length) (bytes.drop iov.length) = _ :=
            overwrite_overwrite inside
          rw [taken, Nat.min_eq_left (by omega), List.take_append_drop] at joined
          exact joined

/-- All segments of a tiling begin at its start or behind it. -/
theorem Tiles.start_le (tiles : Tiles baseSize start len buffers) :
    ∀ iov ∈ buffers, start ≤ baseSize * iov.node + iov.offset := by
  induction buffers generalizing start len with
  | nil => simp
  | cons first buffers inductionHypothesis =>
      obtain ⟨address, _, _, _, rest⟩ := tiles
      refine List.forall_mem_cons.mpr ⟨Nat.le_of_eq address.symm, fun iov member => ?_⟩
      exact Nat.le_trans (Nat.le_add_right _ _) (inductionHypothesis rest iov member)

theorem Tiles.apart (tiles : Tiles baseSize start len buffers) :
    buffers.Pairwise IoVec.Apart := by
  induction buffers generalizing start len with
  | nil => exact List.Pairwise.nil
  | cons first buffers inductionHypothesis =>
      obtain ⟨address, _, _, _, rest⟩ := tiles
      refine List.Pairwise.cons (fun second member => ?_) (inductionHypothesis rest)
      have behind := rest.start_le second member
      by_cases same : first.node = second.node
      · rw [← same] at behind
        exact .inr (.inl (by omega))
      · exact .inl same

/-- A segment of a tiling is no longer than a node. -/
theorem Tiles.length_le (tiles : Tiles baseSize start len buffers) :
    ∀ iov ∈ buffers, iov.length ≤ baseSize := by
  induction buffers generalizing start len with
  | nil => simp
  | cons first buffers inductionHypothesis =>
      obtain ⟨_, within, _, _, rest⟩ := tiles
      exact List.forall_mem_cons.mpr ⟨by omega, inductionHypothesis rest⟩

theorem Tiles.length_eq (tiles : Tiles baseSize start len buffers) :
    (buffers.map IoVec.length).sum = len := by
  induction buffers generalizing start len with
  | nil => exact tiles.symm
  | cons first buffers inductionHypothesis =>
      obtain ⟨_, _, _, within, rest⟩ := tiles
      rw [List.map_cons, List.sum_cons, inductionHypothesis rest]
      omega

end Chain

end Sylar.ByteArray
