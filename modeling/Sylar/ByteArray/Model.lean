import Mathlib.Data.List.Basic
import Mathlib.Logic.Function.Basic

/-!
# The chunked byte array

`ByteArray` of `bytearray.h`: a chain of equally sized nodes, a position in it
and the pointer `m_cur` to the node of that position. The chain is the list of
its nodes and `m_cur` is an index into it, `none` being the null pointer.
Sizes are natural numbers, so the model speaks about sizes that fit `size_t`.

A call runs in `Program`: it ends in a value or in a `Fault`, and the byte array
a throwing call leaves behind is kept. Dereferencing a null node and copying
outside a block are faults of their own, since C++ gives them no meaning.
-/

namespace Sylar

/-- Byte order of a `ByteArray`, and of the machine. -/
inductive Endian where
  | little
  | big
deriving DecidableEq, Repr

namespace ByteArray

/-- How a call can fail. -/
inductive Fault where
  /-- A null `Node*` was dereferenced. -/
  | nullNode
  /-- `memcpy` left the block of a node. -/
  | outOfBounds
  /-- A local array was indexed past its end. -/
  | arrayIndex
  /-- `std::out_of_range` was thrown. -/
  | outOfRange
  /-- `std::length_error` was thrown. -/
  | lengthError
  /-- `std::bad_alloc` was thrown. -/
  | badAlloc
  /-- A stream was asked to write a negative number of bytes. -/
  | negativeLength
deriving DecidableEq, Repr

/-- A memory block of `size` bytes. -/
structure Node where
  ptr : List UInt8
  size : Nat
  allocated : ptr.length = size

namespace Node

/-- A new block holds whatever the allocator finds there. -/
def new (size : Nat) (found : Nat → UInt8) : Node where
  ptr := (List.range size).map found
  size := size
  allocated := by simp

/-- `memcpy(ptr + offset, source, source.size)`. -/
def store (node : Node) (offset : Nat) (source : List UInt8) : Except Fault Node :=
  if fits : offset + source.length ≤ node.size then
    .ok { ptr := node.ptr.take offset ++ source ++ node.ptr.drop (offset + source.length)
          size := node.size
          allocated := by
            have total := node.allocated
            simp only [List.length_append, List.length_take, List.length_drop]
            omega }
  else .error .outOfBounds

/-- `memcpy(target, ptr + offset, count)`. -/
def load (node : Node) (offset count : Nat) : Except Fault (List UInt8) :=
  if offset + count ≤ node.size then .ok ((node.ptr.drop offset).take count)
  else .error .outOfBounds

end Node

end ByteArray

/-- The members of `ByteArray`. `heap` and `allocated` are the allocator: what
the blocks it hands out contain, and how many it has handed out. -/
structure ByteArray where
  baseSize : Nat
  position : Nat
  capacity : Nat
  size : Nat
  endian : Endian
  nodes : List ByteArray.Node
  cur : Option Nat
  heap : Nat → Nat → UInt8
  allocated : Nat

namespace ByteArray

/-- A member function: it reads and changes the members and may fail. -/
abbrev Program := EStateM Fault ByteArray

/-- `ByteArray(size_t base_size)`. -/
def new (baseSize : Nat) (heap : Nat → Nat → UInt8) : ByteArray where
  baseSize := baseSize
  position := 0
  capacity := baseSize
  size := 0
  endian := .big
  nodes := [Node.new baseSize (heap 0)]
  cur := some 0
  heap := heap
  allocated := 1

/-- What is left to read. -/
def getReadSize (ba : ByteArray) : Nat := ba.size - ba.position

/-- What can be written without a new node. -/
def getCapacity (ba : ByteArray) : Nat := ba.capacity - ba.position

def isLittleEndian (ba : ByteArray) : Bool := ba.endian = .little

def setIsLittleEndian (val : Bool) : Program Unit :=
  modify fun ba => { ba with endian := if val then .little else .big }

/-- `next` of the node at `index`, the nodes behind it being `following`. -/
def nextPointer (index : Nat) (following : List Node) : Option Nat :=
  match following with
  | [] => none
  | _ :: _ => some (index + 1)

/-- The `for` loop of `addCapacity`: one new node behind the last for each turn. -/
def appendNodes : Nat → ByteArray → ByteArray
  | 0, ba => ba
  | count + 1, ba => appendNodes count
      { ba with
        nodes := ba.nodes ++ [Node.new ba.baseSize (ba.heap ba.allocated)]
        capacity := ba.capacity + ba.baseSize
        allocated := ba.allocated + 1 }

/-- `ceil(1.0 * size / m_baseSize)`, exact for sizes below `2 ^ 53`. -/
def nodeCount (size baseSize : Nat) : Nat := (size + baseSize - 1) / baseSize

/-- `addCapacity`. The cursor is set when nothing was free before. -/
def addCapacity (size : Nat) : Program Unit := modify fun ba =>
  if size = 0 then ba
  else
    let oldCap := ba.getCapacity
    if oldCap ≥ size then ba
    else
      let count := nodeCount (size - oldCap) ba.baseSize
      let first := if count = 0 then none else some ba.nodes.length
      let grown := appendNodes count ba
      if oldCap = 0 then { grown with cur := first } else grown

/-- Follow `m_cur`: its index, its node and the nodes behind. -/
def fromCur : Program (Nat × Node × List Node) := do
  let ba ← get
  match ba.cur with
  | none => throw .nullNode
  | some index =>
      match ba.nodes.drop index with
      | [] => throw .nullNode
      | node :: following => return (index, node, following)

/-- The copy loop of `write` over the chain from `m_cur` on. The result is the
rewritten chain and the new `m_cur`. -/
def writeLoop (index : Nat) :
    List Node → (npos ncap : Nat) → List UInt8 → Except Fault (List Node × Option Nat)
  | [], _, _, source => if source.length = 0 then .ok ([], none) else .error .nullNode
  | node :: following, npos, ncap, source =>
      if source.length = 0 then .ok (node :: following, some index)
      else if ncap ≥ source.length then do
        let stored ← node.store npos source
        -- the node is full: move on to the next one, if any
        let cur := if node.size = npos + source.length then nextPointer index following
          else some index
        return (stored :: following, cur)
      else do
        let stored ← node.store npos (source.take ncap)
        match following with
        | [] => throw .nullNode
        | next :: _ =>
            let (rest, cur) ← writeLoop (index + 1) following 0 next.size (source.drop ncap)
            return (stored :: rest, cur)

/-- `write` at the position. -/
def write (buf : List UInt8) : Program Unit := do
  if buf.length = 0 then return ()
  else
    addCapacity buf.length
    let ba ← get
    let npos := ba.position % ba.baseSize
    let (index, node, following) ← fromCur
    let ncap := node.size - npos
    match writeLoop index (node :: following) npos ncap buf with
    | .error fault => throw fault
    | .ok (chain, cur) =>
        -- the turns of the loop together move m_position by the size of buf
        let position := ba.position + buf.length
        set { ba with
          nodes := ba.nodes.take index ++ chain
          cur := cur
          position := position
          size := if position > ba.size then position else ba.size }

/-- The copy loop of the two `read` functions over the chain from a node on:
the bytes copied and the node reached. -/
def readLoop (index : Nat) :
    List Node → (npos ncap size : Nat) → Except Fault (List UInt8 × Option Nat)
  | [], _, _, size => if size = 0 then .ok ([], none) else .error .nullNode
  | node :: following, npos, ncap, size =>
      if size = 0 then .ok ([], some index)
      else if ncap ≥ size then do
        let bytes ← node.load npos size
        let cur := if node.size = npos + size then nextPointer index following else some index
        return (bytes, cur)
      else do
        let bytes ← node.load npos ncap
        match following with
        | [] => throw .nullNode
        | next :: _ =>
            let (rest, cur) ← readLoop (index + 1) following 0 next.size (size - ncap)
            return (bytes ++ rest, cur)

/-- `read(void* buf, size_t size)`, which moves the position. -/
def read (size : Nat) : Program (List UInt8) := do
  let ba ← get
  if size > ba.getReadSize then throw .outOfRange
  else
    let npos := ba.position % ba.baseSize
    let (index, node, following) ← fromCur
    let ncap := node.size - npos
    match readLoop index (node :: following) npos ncap size with
    | .error fault => throw fault
    | .ok (bytes, cur) =>
        set { ba with cur := cur, position := ba.position + size }
        return bytes

/-- `read(void* buf, size_t size, size_t position) const`, which starts in the
node of the cursor whatever `position` is. -/
def readAt (size position : Nat) : Program (List UInt8) := do
  let ba ← get
  if size > ba.size - position then throw .outOfRange
  else
    let npos := position % ba.baseSize
    let (index, node, following) ← fromCur
    let ncap := node.size - npos
    match readLoop index (node :: following) npos ncap size with
    | .error fault => throw fault
    | .ok (bytes, _) => return bytes

/-- The loop of `setPosition` that finds the node of offset `v`. -/
def seekLoop (index : Nat) : List Node → Nat → Except Fault (Option Nat)
  | [], _ => .error .nullNode
  | node :: following, v =>
      if v > node.size then seekLoop (index + 1) following (v - node.size)
      else if v = node.size then .ok (nextPointer index following)
      else .ok (some index)

/-- `setPosition`, which may move the size but not the capacity. -/
def setPosition (v : Nat) : Program Unit := do
  let ba ← get
  if v > ba.capacity then throw .outOfRange
  else
    match seekLoop 0 ba.nodes v with
    | .error fault => throw fault
    | .ok cur =>
        set { ba with
          position := v
          size := if v > ba.size then v else ba.size
          cur := cur }

/-- `clear` keeps the root node only. -/
def clear : Program Unit := modify fun ba =>
  { ba with
    position := 0
    size := 0
    capacity := ba.baseSize
    nodes := ba.nodes.take 1
    cur := some 0 }

/-- `toString`, what is left to read. -/
def toString : Program (List UInt8) := do
  let ba ← get
  if ba.getReadSize = 0 then return []
  else readAt ba.getReadSize ba.position

end ByteArray

end Sylar
