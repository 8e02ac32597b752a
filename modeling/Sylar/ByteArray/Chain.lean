import Sylar.ByteArray.Model
import Sylar.Library.Overwrite
import Mathlib.Tactic.Common

/-!
# What the copy loops do to a chain of equal nodes

The chain is read as one run of bytes, `bytesOf`. Each loop lemma says that the
loop stays inside the chain and gives its effect on that run and the node it
leaves `m_cur` at.
-/

namespace Sylar.ByteArray

open Library

/-- The bytes of a chain, node after node. -/
def bytesOf (nodes : List Node) : List UInt8 := nodes.flatMap Node.ptr

/-- Every node of the chain has the same size. -/
def Uniform (baseSize : Nat) (nodes : List Node) : Prop := ∀ node ∈ nodes, node.size = baseSize

/-- The pointer to the node of a given index in a chain of `count` nodes, null
behind the last. -/
def pointerTo (count index : Nat) : Option Nat := if index < count then some index else none

@[simp] theorem bytesOf_nil : bytesOf [] = [] := rfl

@[simp] theorem bytesOf_cons (node : Node) (nodes : List Node) :
    bytesOf (node :: nodes) = node.ptr ++ bytesOf nodes := rfl

@[simp] theorem bytesOf_append (first second : List Node) :
    bytesOf (first ++ second) = bytesOf first ++ bytesOf second := by
  simp [bytesOf]

theorem Uniform.head {baseSize : Nat} {node : Node} {nodes : List Node}
    (uniform : Uniform baseSize (node :: nodes)) : node.size = baseSize :=
  uniform node List.mem_cons_self

theorem Uniform.tail {baseSize : Nat} {node : Node} {nodes : List Node}
    (uniform : Uniform baseSize (node :: nodes)) : Uniform baseSize nodes :=
  fun other member => uniform other (List.mem_cons_of_mem _ member)

theorem Uniform.cons {baseSize : Nat} {node : Node} {nodes : List Node}
    (size : node.size = baseSize) (uniform : Uniform baseSize nodes) :
    Uniform baseSize (node :: nodes) := by
  intro other member
  rcases List.mem_cons.mp member with rfl | member
  · exact size
  · exact uniform other member

theorem Uniform.append {baseSize : Nat} {first second : List Node}
    (left : Uniform baseSize first) (right : Uniform baseSize second) :
    Uniform baseSize (first ++ second) := by
  intro node member
  rcases List.mem_append.mp member with member | member
  · exact left node member
  · exact right node member

theorem Uniform.take {baseSize : Nat} {nodes : List Node} (uniform : Uniform baseSize nodes)
    (count : Nat) : Uniform baseSize (nodes.take count) :=
  fun node member => uniform node (List.mem_of_mem_take member)

theorem Uniform.drop {baseSize : Nat} {nodes : List Node} (uniform : Uniform baseSize nodes)
    (count : Nat) : Uniform baseSize (nodes.drop count) :=
  fun node member => uniform node (List.mem_of_mem_drop member)

theorem length_bytesOf {baseSize : Nat} {nodes : List Node} (uniform : Uniform baseSize nodes) :
    (bytesOf nodes).length = baseSize * nodes.length := by
  induction nodes with
  | nil => simp
  | cons node rest inductionHypothesis =>
      rw [bytesOf_cons, List.length_append, inductionHypothesis uniform.tail, node.allocated,
        uniform.head, List.length_cons, Nat.mul_succ, Nat.add_comm]

/-- The bytes from an offset in a node on lie in the chain from that node on. -/
theorem Uniform.drop_bytesOf {baseSize : Nat} {nodes : List Node} (uniform : Uniform baseSize nodes)
    {index : Nat} (bound : index ≤ nodes.length) (npos : Nat) :
    (bytesOf nodes).drop (baseSize * index + npos) = (bytesOf (nodes.drop index)).drop npos := by
  have front : (bytesOf (nodes.take index)).length = baseSize * index := by
    rw [length_bytesOf (uniform.take index), List.length_take, Nat.min_eq_left bound]
  have whole : bytesOf nodes = bytesOf (nodes.take index) ++ bytesOf (nodes.drop index) := by
    rw [← bytesOf_append, List.take_append_drop]
  rw [whole, ← front, List.drop_length_add_append]

theorem nextPointer_eq (index : Nat) (following : List Node) :
    nextPointer index following = pointerTo (index + 1 + following.length) (index + 1) := by
  cases following with
  | nil => simp [nextPointer, pointerTo]
  | cons next rest => simp [nextPointer, pointerTo]

theorem Node.store_eq (node : Node) (offset : Nat) (source : List UInt8)
    (fits : offset + source.length ≤ node.size) :
    ∃ stored, node.store offset source = .ok stored ∧ stored.size = node.size ∧
      stored.ptr = overwrite node.ptr offset source := by
  simp only [Node.store, dif_pos fits]
  exact ⟨_, rfl, rfl, rfl⟩

/-- The pointer after `amount` bytes from offset `npos` of the node at `index`,
when they end in that node. -/
theorem pointerTo_inside {baseSize npos amount : Nat} (index count : Nat)
    (positive : 0 < baseSize) (fits : npos + amount ≤ baseSize) :
    (if baseSize = npos + amount then pointerTo (index + 1 + count) (index + 1) else some index) =
      pointerTo (index + (count + 1)) (index + (npos + amount) / baseSize) := by
  by_cases full : baseSize = npos + amount
  · rw [if_pos full, ← full, Nat.div_self positive]
    congr 1
    omega
  · rw [if_neg full, Nat.div_eq_of_lt (by omega), pointerTo, if_pos (by omega), Nat.add_zero]

/-- The copy loop of `write` overwrites the run of bytes in place. -/
theorem writeLoop_eq {baseSize : Nat} (positive : 0 < baseSize) {chain : List Node}
    (uniform : Uniform baseSize chain) (index npos : Nat) (source : List UInt8)
    (inside : npos < baseSize) (nonempty : source ≠ [])
    (room : npos + source.length ≤ baseSize * chain.length) :
    ∃ stored, writeLoop index chain npos (baseSize - npos) source =
        .ok (stored, pointerTo (index + chain.length)
          (index + (npos + source.length) / baseSize)) ∧
      Uniform baseSize stored ∧ stored.length = chain.length ∧
      bytesOf stored = overwrite (bytesOf chain) npos source := by
  induction chain generalizing index npos source with
  | nil =>
      have sourceLength : source.length ≠ 0 := by simpa using nonempty
      simp only [List.length_nil] at room
      omega
  | cons node following inductionHypothesis =>
      have sourceLength : source.length ≠ 0 := by simpa using nonempty
      have size : node.size = baseSize := uniform.head
      have ptrLength : node.ptr.length = baseSize := node.allocated.trans size
      by_cases fits : baseSize - npos ≥ source.length
      · obtain ⟨stored, storeEq, storedSize, storedBytes⟩ :=
          node.store_eq npos source (by omega)
        refine ⟨stored :: following, ?_, uniform.tail.cons (storedSize.trans size), rfl, ?_⟩
        · simp only [writeLoop, if_neg sourceLength, if_pos fits, storeEq, size]
          rw [nextPointer_eq, pointerTo_inside _ _ positive (by omega)]
          rfl
        · rw [bytesOf_cons, bytesOf_cons, storedBytes,
            overwrite_append_left (by omega)]
      · have headLength : (source.take (baseSize - npos)).length = baseSize - npos := by
          simp only [List.length_take]
          omega
        obtain ⟨stored, storeEq, storedSize, storedBytes⟩ :=
          node.store_eq npos (source.take (baseSize - npos)) (by omega)
        have restNonempty : source.drop (baseSize - npos) ≠ [] := by
          intro empty
          have := congrArg List.length empty
          simp only [List.length_drop, List.length_nil] at this
          omega
        have restRoom : 0 + (source.drop (baseSize - npos)).length ≤
            baseSize * following.length := by
          simp only [List.length_drop, List.length_cons, Nat.mul_succ] at room ⊢
          omega
        obtain ⟨rest, loopEq, restUniform, restLength, restBytes⟩ :=
          inductionHypothesis uniform.tail (index + 1) 0 _ positive restNonempty restRoom
        obtain ⟨next, later, rfl⟩ : ∃ next later, following = next :: later := by
          cases following with
          | nil =>
              simp only [List.length_nil, Nat.mul_zero, List.length_drop] at restRoom
              omega
          | cons next later => exact ⟨next, later, rfl⟩
        have nextSize : next.size = baseSize := uniform.tail.head
        have quotient : (npos + source.length) / baseSize =
            (0 + (source.drop (baseSize - npos)).length) / baseSize + 1 := by
          have total : npos + source.length =
              0 + (source.drop (baseSize - npos)).length + baseSize := by
            simp only [List.length_drop]
            omega
          rw [total, Nat.add_div_right _ positive]
        refine ⟨stored :: rest, ?_, restUniform.cons (storedSize.trans size),
          by simp only [List.length_cons, restLength], ?_⟩
        · rw [Nat.sub_zero] at loopEq
          rw [writeLoop, if_neg sourceLength, if_neg fits, storeEq]
          simp only [bind, Except.bind, nextSize]
          rw [loopEq, quotient]
          simp only [pure, Except.pure, List.length_cons]
          congr 3 <;> omega
        · rw [bytesOf_cons, bytesOf_cons, storedBytes, restBytes,
            overwrite_append_straddle (by omega) (by omega), ptrLength]

theorem Node.load_eq (node : Node) (offset count : Nat) (fits : offset + count ≤ node.size) :
    node.load offset count = .ok ((node.ptr.drop offset).take count) := by
  rw [Node.load, if_pos fits]

/-- A read that starts in the first segment and empties it continues at the
beginning of the rest. -/
private theorem take_drop_straddle {first rest : List UInt8} {offset count : Nat}
    (starts : offset ≤ first.length) (empties : first.length ≤ offset + count) :
    ((first ++ rest).drop offset).take count =
      (first.drop offset).take (first.length - offset) ++
        rest.take (count - (first.length - offset)) := by
  have dropLength : (first.drop offset).length = first.length - offset := by simp
  have whole : (first.drop offset).take (first.length - offset) = first.drop offset :=
    List.take_of_length_le (by omega)
  rw [List.drop_append_of_le_length starts, List.take_append, dropLength, whole,
    List.take_of_length_le (by omega)]

/-- The copy loop of `read` returns the run of bytes it was asked for. -/
theorem readLoop_eq {baseSize : Nat} (positive : 0 < baseSize) {chain : List Node}
    (uniform : Uniform baseSize chain) (index npos size : Nat) (inside : npos < baseSize)
    (nonempty : size ≠ 0) (room : npos + size ≤ baseSize * chain.length) :
    readLoop index chain npos (baseSize - npos) size =
      .ok (((bytesOf chain).drop npos).take size,
        pointerTo (index + chain.length) (index + (npos + size) / baseSize)) := by
  induction chain generalizing index npos size with
  | nil =>
      simp only [List.length_nil] at room
      omega
  | cons node following inductionHypothesis =>
      have nodeSize : node.size = baseSize := uniform.head
      have ptrLength : node.ptr.length = baseSize := node.allocated.trans nodeSize
      by_cases fits : baseSize - npos ≥ size
      · rw [readLoop, if_neg nonempty, if_pos fits, node.load_eq npos size (by omega), nodeSize]
        simp only [bind, Except.bind, pure, Except.pure]
        rw [nextPointer_eq, pointerTo_inside _ _ positive (by omega), bytesOf_cons,
          List.drop_append_of_le_length (by omega),
          List.take_append_of_le_length (by rw [List.length_drop]; omega), List.length_cons]
      · have restRoom : 0 + (size - (baseSize - npos)) ≤ baseSize * following.length := by
          simp only [List.length_cons, Nat.mul_succ] at room
          omega
        have loopEq := inductionHypothesis uniform.tail (index + 1) 0
          (size - (baseSize - npos)) positive (by omega) restRoom
        obtain ⟨next, later, rfl⟩ : ∃ next later, following = next :: later := by
          cases following with
          | nil =>
              simp only [List.length_nil, Nat.mul_zero] at restRoom
              omega
          | cons next later => exact ⟨next, later, rfl⟩
        have nextSize : next.size = baseSize := uniform.tail.head
        have quotient : (npos + size) / baseSize =
            (0 + (size - (baseSize - npos))) / baseSize + 1 := by
          have total : npos + size = 0 + (size - (baseSize - npos)) + baseSize := by omega
          rw [total, Nat.add_div_right _ positive]
        rw [Nat.sub_zero] at loopEq
        rw [readLoop, if_neg nonempty, if_neg fits,
          node.load_eq npos (baseSize - npos) (by omega)]
        simp only [bind, Except.bind, nextSize]
        rw [loopEq, quotient, bytesOf_cons node,
          take_drop_straddle (by omega) (by omega), ptrLength]
        simp only [pure, Except.pure, List.length_cons, List.drop_zero]
        congr 3 <;> omega

/-- The loop of `setPosition` finds the node of every offset up to the end. -/
theorem seekLoop_eq {baseSize : Nat} (positive : 0 < baseSize) {chain : List Node}
    (uniform : Uniform baseSize chain) (nonempty : chain ≠ []) (index v : Nat)
    (room : v ≤ baseSize * chain.length) :
    seekLoop index chain v = .ok (pointerTo (index + chain.length) (index + v / baseSize)) := by
  induction chain generalizing index v with
  | nil => exact absurd rfl nonempty
  | cons node following inductionHypothesis =>
      have nodeSize : node.size = baseSize := uniform.head
      rw [seekLoop, nodeSize]
      by_cases beyond : v > baseSize
      · have restRoom : v - baseSize ≤ baseSize * following.length := by
          simp only [List.length_cons, Nat.mul_succ] at room
          omega
        have followingNonempty : following ≠ [] := by
          rintro rfl
          simp only [List.length_nil, Nat.mul_zero] at restRoom
          omega
        have quotient : v / baseSize = (v - baseSize) / baseSize + 1 := by
          have total : v = v - baseSize + baseSize := by omega
          conv_lhs => rw [total, Nat.add_div_right _ positive]
        rw [if_pos beyond, inductionHypothesis uniform.tail followingNonempty (index + 1)
          (v - baseSize) restRoom, quotient, List.length_cons]
        congr 2 <;> omega
      · have found := pointerTo_inside index following.length positive
          (show 0 + v ≤ baseSize by omega)
        rw [if_neg beyond, nextPointer_eq, List.length_cons]
        simp only [Nat.zero_add, eq_comm] at found ⊢
        split_ifs <;> simp_all

/-- The `for` loop of `addCapacity` only adds nodes of the base size behind the
chain. -/
theorem appendNodes_eq (count : Nat) (ba : ByteArray) :
    ∃ added, Uniform ba.baseSize added ∧ added.length = count ∧
      appendNodes count ba =
        { ba with
          nodes := ba.nodes ++ added
          capacity := ba.capacity + count * ba.baseSize
          allocated := ba.allocated + count } := by
  induction count generalizing ba with
  | zero => exact ⟨[], by simp [Uniform], rfl, by simp [appendNodes]⟩
  | succ count inductionHypothesis =>
      obtain ⟨added, uniform, length, equal⟩ := inductionHypothesis
        { ba with
          nodes := ba.nodes ++ [Node.new ba.baseSize (ba.heap ba.allocated)]
          capacity := ba.capacity + ba.baseSize
          allocated := ba.allocated + 1 }
      refine ⟨Node.new ba.baseSize (ba.heap ba.allocated) :: added, uniform.cons rfl, by simp [length],
        ?_⟩
      rw [appendNodes, equal]
      simp only [List.append_assoc, List.singleton_append, Nat.succ_mul]
      congr 1 <;> omega

end Sylar.ByteArray
