import Sylar.ByteArray.Stream

/-!
# Byte arrays and files

`writeToFile` takes the number of bytes of a node as what is left, or a whole node, less the
offset in the node. That is right unless the position is inside a node and less than a node is
unread. A file is the list of its bytes.
-/

namespace Sylar.ByteArray

open Library

/-- The loop of `writeToFile` over the chain from `cur` on: the bytes written. `diff` is an
`int`. -/
def fileLoop (baseSize : Nat) : List Node → (pos readSize : Nat) → Except Fault (List UInt8)
  | [], _, readSize => if readSize = 0 then .ok [] else .error .nullNode
  | node :: following, pos, readSize =>
      if readSize = 0 then .ok []
      else
        let diff : Int := (BitVec.ofNat 32 (pos % baseSize)).toInt
        let len : Int := (if readSize > baseSize then baseSize else readSize : Nat) - diff
        if len < 0 then throw .negativeLength
        else if diff < 0 then throw .outOfBounds
        else do
          let bytes ← node.load diff.toNat len.toNat
          let others ← fileLoop baseSize following (pos + len.toNat) (readSize - len.toNat)
          return bytes ++ others

/-- The chain from `m_cur` on. -/
def fromCursor (ba : ByteArray) : List Node :=
  match ba.cur with
  | none => []
  | some index => ba.nodes.drop index

/-- What `writeToFile` writes. -/
def fileBytes (ba : ByteArray) : Except Fault (List UInt8) :=
  fileLoop ba.baseSize ba.fromCursor ba.position ba.getReadSize

/-- `writeToFile`: the value returned, and what the file holds when it could be opened. -/
def writeToFile : (opens : Bool) → Program (Bool × List UInt8)
  | false => return (false, [])
  | true => do
      let ba ← get
      match ba.fileBytes with
      | .error fault => throw fault
      | .ok file => return (true, file)

/-- The loop of `readFromFile`, at most so many turns of it. The result is whether it ended: the
end of the file is only noticed when fewer bytes are left than were asked for. -/
def readFileLoop (baseSize : Nat) : (turns : Nat) → (file : List UInt8) → Program Bool
  | 0, _ => return false
  | turns + 1, file => do
      write (file.take baseSize)
      if file.length < baseSize then return true
      else readFileLoop baseSize turns (file.drop baseSize)

/-- `readFromFile` of a file that can be opened. -/
def readFromFile (turns : Nat) (file : List UInt8) : Program Bool := do
  let ba ← get
  readFileLoop ba.baseSize turns file

/-- `readFromFile` into a byte array, `setPosition(0)` and `toString()`; `none` when so many
turns do not do. -/
def importFile (turns : Nat) (file : List UInt8) : Program (Option (List UInt8)) := do
  let ended ← readFromFile turns file
  setPosition 0
  let text ← toString
  return if ended then some text else none

/-- What `writeToFile` is for: the file holds the unread bytes, so that reading it into any
fresh byte array yields the same text. -/
structure Exported (ba : ByteArray) : Prop where
  written : EStateM.run (writeToFile true) ba = .ok (true, ba.contents.drop ba.position) ba
  readBack : ∀ file, EStateM.run (writeToFile true) ba = .ok (true, file) ba →
    ∀ (otherBase : Nat) (heap : Nat → Nat → UInt8) (turns : Nat), 0 < otherBase →
      file.length < turns →
      ∃ text other, EStateM.run (importFile turns file) (new otherBase heap) =
          .ok (some text) other ∧
        EStateM.run toString ba = .ok text ba

section Loop

variable {baseSize : Nat}

theorem diff_eq {pos : Nat} (small : pos % baseSize < 2 ^ 31) :
    (BitVec.ofNat 32 (pos % baseSize)).toInt = (pos % baseSize : Nat) := by
  rw [BitVec.toInt_eq_toNat_of_lt] <;> rw [BitVec.toNat_ofNat, Nat.mod_eq_of_lt (by omega)]
  omega

theorem fileLoop_zero {chain : List Node} {pos : Nat} : fileLoop baseSize chain pos 0 = .ok [] := by
  cases chain <;> rfl

/-- One turn: the bytes of the node from the offset on. -/
theorem fileLoop_step {node : Node} {following : List Node} {pos readSize : Nat}
    (size : node.size = baseSize) (some_ : readSize ≠ 0) (small : pos % baseSize < 2 ^ 31)
    (ahead : pos % baseSize ≤ min baseSize readSize) :
    fileLoop baseSize (node :: following) pos readSize = (do
      let others ← fileLoop baseSize following
        (pos + (min baseSize readSize - pos % baseSize))
        (readSize - (min baseSize readSize - pos % baseSize))
      return (node.ptr.drop (pos % baseSize)).take (min baseSize readSize - pos % baseSize) ++
        others) := by
  have diff := diff_eq small
  have len : ((if readSize > baseSize then baseSize else readSize : Nat) : Int) -
      (pos % baseSize : Nat) = (min baseSize readSize - pos % baseSize : Nat) := by
    split <;> omega
  rw [fileLoop, if_neg some_]
  simp only [diff, len, Int.toNat_natCast]
  rw [if_neg (by omega), if_neg (by omega), node.load_eq _ _ (by omega)]
  rfl

/-- Less is left than the offset in the node. -/
theorem fileLoop_negative {node : Node} {following : List Node} {pos readSize : Nat}
    (some_ : readSize ≠ 0) (small : pos % baseSize < 2 ^ 31)
    (behind : min baseSize readSize < pos % baseSize) :
    fileLoop baseSize (node :: following) pos readSize = .error .negativeLength := by
  have diff := diff_eq small
  rw [fileLoop, if_neg some_]
  simp only [diff]
  rw [if_pos]
  · rfl
  · split <;> omega

/-- An offset that is negative as an `int`. -/
theorem fileLoop_outOfBounds {node : Node} {following : List Node} {pos readSize : Nat}
    (some_ : readSize ≠ 0) (wrapped : (BitVec.ofNat 32 (pos % baseSize)).toInt < 0) :
    fileLoop baseSize (node :: following) pos readSize = .error .outOfBounds := by
  rw [fileLoop, if_neg some_]
  simp only
  rw [if_neg, if_pos wrapped]
  · rfl
  · split <;> omega

/-- From the beginning of a node on, every node is written as far as it is needed. -/
theorem fileLoop_aligned {chain : List Node} (uniform : Uniform baseSize chain)
    {pos readSize : Nat} (aligned : pos % baseSize = 0)
    (room : readSize ≤ baseSize * chain.length) :
    fileLoop baseSize chain pos readSize = .ok ((bytesOf chain).take readSize) := by
  induction chain generalizing pos readSize with
  | nil =>
      obtain rfl : readSize = 0 := by simpa using room
      rfl
  | cons node following inductionHypothesis =>
      have nodeSize : node.size = baseSize := uniform.head
      have ptrLength : node.ptr.length = baseSize := node.allocated.trans nodeSize
      rw [List.length_cons, Nat.mul_succ] at room
      by_cases done : readSize = 0
      · rw [done, fileLoop_zero, List.take_zero]
      · rw [fileLoop_step nodeSize done (by omega) (by omega), aligned, Nat.sub_zero, List.drop_zero,
          bytesOf_cons]
        rcases Nat.le_or_le readSize baseSize with last | more
        · rw [Nat.min_eq_right last, Nat.sub_self, fileLoop_zero,
            List.take_append_of_le_length (by omega)]
          simp only [bind, Except.bind, pure, Except.pure, List.append_nil]
        · have whole : node.ptr.take readSize = node.ptr := List.take_of_length_le (by omega)
          have block : node.ptr.take baseSize = node.ptr := List.take_of_length_le (by omega)
          rw [Nat.min_eq_left more,
            inductionHypothesis uniform.tail (by rw [Nat.add_mod_right, aligned]) (by omega),
            List.take_append, ptrLength, whole, block]
          rfl

/-- From inside a node on, when a whole node or more is left. -/
theorem fileLoop_inside {node : Node} {following : List Node}
    (uniform : Uniform baseSize (node :: following)) {pos readSize : Nat}
    (positive : 0 < baseSize) (small : pos % baseSize < 2 ^ 31) (enough : baseSize ≤ readSize)
    (room : pos % baseSize + readSize ≤ baseSize * (node :: following).length) :
    fileLoop baseSize (node :: following) pos readSize =
      .ok (((bytesOf (node :: following)).drop (pos % baseSize)).take readSize) := by
  have nodeSize : node.size = baseSize := uniform.head
  have ptrLength : node.ptr.length = baseSize := node.allocated.trans nodeSize
  have offset : pos % baseSize < baseSize := Nat.mod_lt _ positive
  have aligned : (pos + (baseSize - pos % baseSize)) % baseSize = 0 := by
    have whole := Nat.div_add_mod pos baseSize
    have total : pos + (baseSize - pos % baseSize) = baseSize * (pos / baseSize + 1) := by
      rw [Nat.mul_succ]
      omega
    rw [total, Nat.mul_mod_right]
  rw [List.length_cons, Nat.mul_succ] at room
  have dropped : (node.ptr.drop (pos % baseSize)).length = baseSize - pos % baseSize := by
    rw [List.length_drop, ptrLength]
  have whole : (node.ptr.drop (pos % baseSize)).take readSize = node.ptr.drop (pos % baseSize) :=
    List.take_of_length_le (by omega)
  have block : (node.ptr.drop (pos % baseSize)).take (baseSize - pos % baseSize) =
      node.ptr.drop (pos % baseSize) := List.take_of_length_le (by omega)
  rw [fileLoop_step nodeSize (by omega) small (by omega), Nat.min_eq_left enough,
    fileLoop_aligned uniform.tail aligned (by omega), bytesOf_cons,
    List.drop_append_of_le_length (by omega), List.take_append, dropped, whole, block]
  rfl

/-- When as much is left as the offset in the node, nothing is written and nothing changes from
turn to turn, until there is no node any more. -/
theorem fileLoop_stuck {chain : List Node} (uniform : Uniform baseSize chain) {pos readSize : Nat}
    (same : pos % baseSize = readSize) (some_ : readSize ≠ 0) (few : readSize < baseSize)
    (small : readSize < 2 ^ 31) : fileLoop baseSize chain pos readSize = .error .nullNode := by
  induction chain with
  | nil => rw [fileLoop, if_neg some_]
  | cons node following inductionHypothesis =>
      have nothing : min baseSize readSize - pos % baseSize = 0 := by omega
      rw [fileLoop_step uniform.head some_ (by omega) (by omega), nothing, Nat.add_zero,
        Nat.sub_zero, inductionHypothesis uniform.tail]
      rfl

/-- From inside a node on, when less than a node is left. -/
theorem fileLoop_fails {node : Node} {following : List Node}
    (uniform : Uniform baseSize (node :: following)) {pos readSize : Nat}
    (positive : 0 < baseSize) (wide : baseSize ≤ 2 ^ 32) (inside : pos % baseSize ≠ 0)
    (some_ : readSize ≠ 0) (few : readSize < baseSize ∨ 2 ^ 31 ≤ pos % baseSize) :
    ∃ fault, fileLoop baseSize (node :: following) pos readSize = .error fault := by
  have nodeSize : node.size = baseSize := uniform.head
  have offset : pos % baseSize < baseSize := Nat.mod_lt _ positive
  have wrap {offset : Nat} (bound : offset < 2 ^ 32) (large : 2 ^ 31 ≤ offset) :
      (BitVec.ofNat 32 offset).toInt < 0 := by
    rw [BitVec.toInt_eq_toNat_cond, BitVec.toNat_ofNat, Nat.mod_eq_of_lt bound, if_neg (by omega)]
    omega
  rcases Nat.lt_or_ge (pos % baseSize) (2 ^ 31) with small | large
  · have short : readSize < baseSize := by omega
    rcases Nat.lt_or_ge readSize (pos % baseSize) with behind | ahead
    · exact ⟨_, fileLoop_negative some_ small (by omega)⟩
    · -- the second turn starts in the next node, at the offset where the first one ended
      have second : (pos + (readSize - pos % baseSize)) % baseSize = readSize := by
        have whole := Nat.div_add_mod pos baseSize
        have total : pos + (readSize - pos % baseSize) = readSize + baseSize * (pos / baseSize) := by
          omega
        rw [total, Nat.add_mul_mod_self_left, Nat.mod_eq_of_lt short]
      rw [fileLoop_step nodeSize some_ small (by omega), Nat.min_eq_right (Nat.le_of_lt short)]
      have left_ : readSize - (readSize - pos % baseSize) = pos % baseSize := by omega
      rw [left_]
      have fails : ∃ fault, fileLoop baseSize following (pos + (readSize - pos % baseSize))
          (pos % baseSize) = .error fault := by
        cases following with
        | nil => exact ⟨.nullNode, by rw [fileLoop, if_neg inside]⟩
        | cons next later =>
            rcases Nat.lt_or_ge readSize (2 ^ 31) with little | much
            · rcases Nat.lt_or_ge (pos % baseSize) readSize with less | same
              · exact ⟨_, fileLoop_negative inside (by rw [second]; exact little)
                  (by rw [second]; omega)⟩
              · have none_ : readSize - pos % baseSize = 0 := by omega
                rw [none_] at second ⊢
                refine ⟨_, fileLoop_stuck uniform.tail ?_ inside (by omega) (by omega)⟩
                rw [Nat.add_zero]
            · exact ⟨_, fileLoop_outOfBounds inside (by rw [second]; exact wrap (by omega) much)⟩
      obtain ⟨fault, failed⟩ := fails
      rw [failed]
      exact ⟨fault, rfl⟩
  · exact ⟨_, fileLoop_outOfBounds some_ (wrap (by omega) large)⟩

end Loop

/-- `readFromFile` appends the file, whatever the base size. -/
theorem readFileLoop_run {baseSize : Nat} {endian : Endian} (positive : 0 < baseSize)
    {turns : Nat} {file held : List UInt8} {ba : ByteArray}
    (filled : Filled baseSize endian held ba) (enough : file.length < turns) :
    ∃ after, EStateM.run (readFileLoop baseSize turns file) ba = .ok true after ∧
      Filled baseSize endian (held ++ file) after := by
  induction turns generalizing file held ba with
  | zero => omega
  | succ turns inductionHypothesis =>
      obtain ⟨next, wrote, appended⟩ := appends_write (file.take baseSize) filled
      simp only [readFileLoop, EStateM.run_bind, wrote]
      by_cases last : file.length < baseSize
      · rw [if_pos last]
        rw [List.take_of_length_le (Nat.le_of_lt last)] at appended
        exact ⟨next, rfl, appended⟩
      · rw [if_neg last]
        obtain ⟨after, ran, whole⟩ := inductionHypothesis appended
          (show (file.drop baseSize).length < turns by
            rw [List.length_drop]
            omega)
        rw [List.append_assoc, List.take_append_drop] at whole
        exact ⟨after, ran, whole⟩

theorem importFile_run {otherBase turns : Nat} (positive : 0 < otherBase)
    (heap : Nat → Nat → UInt8) {file : List UInt8} (enough : file.length < turns) :
    ∃ other, EStateM.run (importFile turns file) (new otherBase heap) = .ok (some file) other := by
  obtain ⟨filled, ran, holds⟩ := readFileLoop_run positive (filled_new positive heap) enough
  obtain ⟨rewound, back, moved⟩ := holds.rewind_run
  have text := moved.wellFormed.toString_run
  rw [moved.contents, moved.position, holds.contents, List.nil_append, List.drop_zero] at text
  refine ⟨rewound, ?_⟩
  have base : (new otherBase heap).baseSize = otherBase := rfl
  simp only [importFile, readFromFile, EStateM.run_bind, EStateM.run_get, base, ran, back, text,
    if_true, EStateM.run_pure]

section

variable {ba : ByteArray}

theorem exported_iff (wf : WellFormed ba) : Exported ba ↔
    EStateM.run (writeToFile true) ba = .ok (true, ba.contents.drop ba.position) ba := by
  constructor
  · intro exported
    exact exported.written
  · intro written
    refine ⟨written, fun file wrote otherBase heap turns positive enough => ?_⟩
    rw [written] at wrote
    cases wrote
    obtain ⟨other, ran⟩ := importFile_run positive heap enough
    exact ⟨_, other, ran, wf.toString_run⟩

/-- `writeToFile` changes nothing. -/
theorem writeToFile_run (ba : ByteArray) (file : List UInt8) :
    EStateM.run (writeToFile true) ba = .ok (true, file) ba ↔ ba.fileBytes = .ok file := by
  rw [writeToFile, EStateM.run_bind, EStateM.run_get]
  dsimp only
  cases ba.fileBytes with
  | error fault =>
      constructor
      · rintro ⟨⟩
      · rintro ⟨⟩
  | ok bytes =>
      simp only [EStateM.run_pure, EStateM.Result.ok.injEq, Prod.mk.injEq, true_and, and_true,
        Except.ok.injEq]

/-- The loop begins in the node of the position. -/
theorem fileBytes_eq (wf : WellFormed ba) (some_ : ba.getReadSize ≠ 0) :
    ∃ node following, Uniform ba.baseSize (node :: following) ∧
      ba.position % ba.baseSize + ba.getReadSize ≤ ba.baseSize * (node :: following).length ∧
      (bytesOf (node :: following)).drop (ba.position % ba.baseSize) =
        (bytesOf ba.nodes).drop ba.position ∧
      ba.fileBytes = fileLoop ba.baseSize (node :: following) ba.position ba.getReadSize := by
  have unread : ba.getReadSize = ba.size - ba.position := rfl
  have sizeLe := wf.sizeLe
  have inside : ba.position < ba.capacity := by omega
  obtain ⟨cur, bound⟩ := wf.cur_eq_some inside
  have chain := List.drop_eq_getElem_cons bound
  have room := wf.chain_room inside (show ba.position + ba.getReadSize ≤ ba.capacity by omega)
  refine ⟨ba.nodes[ba.position / ba.baseSize], ba.nodes.drop (ba.position / ba.baseSize + 1),
    ?_, ?_, ?_, ?_⟩
  · rw [← chain]
    exact wf.uniform.drop _
  · rw [← chain]
    exact room
  · rw [← chain]
    exact (wf.bytes_behind inside).symm
  · rw [← chain, fileBytes, fromCursor, cur]

/-- A byte array is exported when nothing is unread, when the position is at the beginning of a
node, or when a whole node or more is unread; with nodes of at most 4 GiB, only then. -/
theorem exported_of_position (wf : WellFormed ba) :
    ((ba.getReadSize = 0 ∨ ba.position % ba.baseSize = 0 ∨
        ba.baseSize ≤ ba.getReadSize ∧ ba.position % ba.baseSize < 2 ^ 31) → Exported ba) ∧
      (ba.baseSize ≤ 2 ^ 32 → Exported ba → ba.getReadSize = 0 ∨
        ba.position % ba.baseSize = 0 ∨
          ba.baseSize ≤ ba.getReadSize ∧ ba.position % ba.baseSize < 2 ^ 31) := by
  have unread : ba.getReadSize = ba.size - ba.position := rfl
  have wanted : ba.contents.drop ba.position =
      ((bytesOf ba.nodes).drop ba.position).take ba.getReadSize := by
    rw [contents, List.drop_take]
    rfl
  rw [exported_iff wf, writeToFile_run]
  by_cases empty : ba.getReadSize = 0
  · refine ⟨fun _ => ?_, fun _ _ => .inl empty⟩
    rw [fileBytes, empty, fileLoop_zero, wanted, empty, List.take_zero]
  · obtain ⟨node, following, uniform, room, behind, bytes⟩ := fileBytes_eq wf empty
    rw [bytes, wanted, ← behind]
    constructor
    · rintro (none_ | aligned | ⟨enough, small⟩)
      · exact absurd none_ empty
      · rw [fileLoop_aligned uniform aligned (by omega), aligned, List.drop_zero]
      · exact fileLoop_inside uniform wf.basePositive small enough room
    · intro wide written
      by_contra neither
      obtain ⟨-, neither⟩ := not_or.mp neither
      obtain ⟨inside, few⟩ := not_or.mp neither
      obtain ⟨fault, failed⟩ := fileLoop_fails uniform wf.basePositive wide inside empty (by omega)
      rw [failed] at written
      cases written

end

/-- Two bytes in a node of four, the first of them read. -/
def midNode : ByteArray where
  baseSize := 4
  position := 1
  capacity := 4
  size := 2
  endian := .big
  nodes := [⟨[7, 8, 0, 0], 4, rfl⟩]
  cur := some 0
  heap := fun _ _ => 0
  allocated := 1

theorem midNode_wellFormed : WellFormed midNode where
  basePositive := by decide
  uniform := by simp [midNode, Uniform]
  rooted := by simp [midNode]
  capacityEq := rfl
  positionLe := by decide
  sizeLe := by decide
  curEq := by simp [midNode, pointerTo]

/-- A fresh byte array has nothing to write. The one in the middle of a node cannot be written. -/
theorem exported_new : Exported (new 3 fun _ _ => 0) ∧ ¬Exported midNode := by
  constructor
  · exact (exported_of_position (new_wellFormed (by decide) fun _ _ => 0)).1 (.inl rfl)
  · intro exported
    have position := (exported_of_position midNode_wellFormed).2 (by decide) exported
    exact absurd position (by decide)

/-- One byte is unread behind the offset 1: no byte is written, and the next node is null. -/
theorem not_exported_midNode :
    EStateM.run (writeToFile true) midNode = .error .nullNode midNode ∧
      ¬∀ ba : ByteArray, WellFormed ba → Exported ba := by
  refine ⟨rfl, fun claimed => ?_⟩
  have written := (claimed midNode midNode_wellFormed).written
  cases written

end Sylar.ByteArray
