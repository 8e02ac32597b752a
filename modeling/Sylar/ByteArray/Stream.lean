import Sylar.ByteArray.Operations

/-!
# Programs that append to a byte array and programs that read it back

`Appends` and `Reads` are the two triples the codecs are proved with. Both hold
of every state of the byte array, so they compose along `do` blocks.
-/

namespace Sylar.ByteArray

open Library

/-- A byte array that holds `held`, has its position behind it, and was filled
by appending. -/
structure Filled (baseSize : Nat) (endian : Endian) (held : List UInt8) (ba : ByteArray) :
    Prop where
  wellFormed : WellFormed ba
  contents : ba.contents = held
  position : ba.position = held.length
  capacity : ba.capacity = baseSize * max 1 (nodeCount held.length baseSize)
  baseSize : ba.baseSize = baseSize
  endian : ba.endian = endian

/-- `program` appends `bytes`, which may depend on the byte order asked for. -/
def Appends (program : Program Unit) (bytes : Endian → List UInt8) : Prop :=
  ∀ ⦃baseSize : Nat⦄ ⦃endian : Endian⦄ ⦃held : List UInt8⦄ ⦃ba : ByteArray⦄,
    Filled baseSize endian held ba →
      ∃ after, EStateM.run program ba = .ok () after ∧
        Filled baseSize endian (held ++ bytes endian) after

/-- `program` reads `value` from `bytes` at the position and moves over them. -/
def Reads {α : Type} (program : Program α) (bytes : Endian → List UInt8) (value : α) : Prop :=
  ∀ ⦃ba : ByteArray⦄ ⦃rest : List UInt8⦄, WellFormed ba →
    ba.contents.drop ba.position = bytes ba.endian ++ rest →
      ∃ after, EStateM.run program ba = .ok value after ∧
        Moved (ba.position + (bytes ba.endian).length) ba after

theorem filled_new {baseSize : Nat} (positive : 0 < baseSize) (heap : Nat → Nat → UInt8) :
    Filled baseSize .big [] (new baseSize heap) where
  wellFormed := new_wellFormed positive heap
  contents := by simp [contents, new]
  position := rfl
  capacity := by
    have none : nodeCount 0 baseSize = 0 := by
      rw [nodeCount, Nat.zero_add, Nat.div_eq_of_lt (by omega)]
    simp [none, new]
  baseSize := rfl
  endian := rfl

namespace Filled

variable {baseSize : Nat} {endian : Endian} {held : List UInt8} {ba : ByteArray}

theorem size (filled : Filled baseSize endian held ba) : ba.size = held.length := by
  rw [← filled.wellFormed.length_contents, filled.contents]

/-- The byte order can be chosen at any time. -/
theorem setIsLittleEndian_run (filled : Filled baseSize endian held ba) (val : Bool) :
    ∃ after, EStateM.run (setIsLittleEndian val) ba = .ok () after ∧
      Filled baseSize (if val then .little else .big) held after :=
  ⟨_, rfl, {
    wellFormed := {
      basePositive := filled.wellFormed.basePositive
      uniform := filled.wellFormed.uniform
      rooted := filled.wellFormed.rooted
      capacityEq := filled.wellFormed.capacityEq
      positionLe := filled.wellFormed.positionLe
      sizeLe := filled.wellFormed.sizeLe
      curEq := filled.wellFormed.curEq }
    contents := filled.contents
    position := filled.position
    capacity := filled.capacity
    baseSize := filled.baseSize
    endian := rfl }⟩

/-- Back to the beginning, where everything is unread. -/
theorem rewind_run (filled : Filled baseSize endian held ba) :
    ∃ after, EStateM.run (setPosition 0) ba = .ok () after ∧ Moved 0 ba after :=
  filled.wellFormed.setPosition_inside (Nat.zero_le _)

end Filled

/-- `write` at the end appends. -/
theorem appends_write (buf : List UInt8) : Appends (write buf) fun _ => buf := by
  intro baseSize endian held ba filled
  obtain ⟨after, ran, written⟩ := filled.wellFormed.write_run buf
  refine ⟨after, ran, ?_⟩
  exact {
    wellFormed := written.wellFormed
    contents := by
      rw [written.contents, filled.contents, filled.position, overwrite_length]
    position := by rw [written.position, filled.position, List.length_append]
    capacity := by
      have monotone : nodeCount held.length baseSize ≤
          nodeCount (held.length + buf.length) baseSize :=
        Nat.div_le_div_right (by omega)
      rw [written.capacity, filled.capacity, filled.position, filled.baseSize, List.length_append]
      exact Nat.max_eq_right (Nat.mul_le_mul_left _ (by omega))
    baseSize := written.baseSize.trans filled.baseSize
    endian := written.endian.trans filled.endian }

theorem Appends.bind {first second : Program Unit} {firstBytes secondBytes : Endian → List UInt8}
    (left : Appends first firstBytes) (right : Appends second secondBytes) :
    Appends (do first; second) fun endian => firstBytes endian ++ secondBytes endian := by
  intro baseSize endian held ba filled
  obtain ⟨middle, ranFirst, filledMiddle⟩ := left filled
  obtain ⟨after, ranSecond, filledAfter⟩ := right filledMiddle
  refine ⟨after, ?_, ?_⟩
  · rw [EStateM.run_bind, ranFirst]
    exact ranSecond
  · rw [List.append_assoc] at filledAfter
    exact filledAfter

theorem appends_nothing : Appends (pure ()) fun _ => [] := by
  intro baseSize endian held ba filled
  exact ⟨ba, rfl, by rw [List.append_nil]; exact filled⟩

/-- A program that looks at the byte order first appends what it appends once
the byte order is known. -/
theorem appends_endian {program : Endian → Program Unit} {bytes : Endian → List UInt8}
    (known : ∀ endian, Appends (program endian) fun _ => bytes endian) :
    Appends (do let ba ← get; program ba.endian) bytes := by
  intro baseSize endian held ba filled
  obtain ⟨after, ran, filledAfter⟩ := known endian filled
  refine ⟨after, ?_, filledAfter⟩
  rw [EStateM.run_bind, EStateM.run_get]
  simp only [filled.endian]
  exact ran

section Reading

variable {α β : Type}

theorem Moved.refl {ba : ByteArray} (wf : WellFormed ba) : Moved ba.position ba ba := by
  have moved := wf.moved wf.positionLe
  rw [← wf.curEq] at moved
  exact moved

theorem reads_pure (value : α) : Reads (pure value) (fun _ => []) value := by
  intro ba rest wf _
  exact ⟨ba, rfl, Moved.refl wf⟩

theorem Moved.trans {first second : Nat} {before middle after : ByteArray}
    (left : Moved first before middle) (right : Moved second middle after) :
    Moved second before after where
  wellFormed := right.wellFormed
  contents := right.contents.trans left.contents
  position := right.position
  capacity := right.capacity.trans left.capacity
  baseSize := right.baseSize.trans left.baseSize
  endian := right.endian.trans left.endian

/-- What is unread after a read. -/
theorem Moved.unread {ba after : ByteArray} {bytes rest : List UInt8}
    (moved : Moved (ba.position + bytes.length) ba after)
    (unread : ba.contents.drop ba.position = bytes ++ rest) :
    after.contents.drop after.position = rest := by
  rw [moved.contents, moved.position, ← List.drop_drop, unread, List.drop_left]

theorem Reads.bind {first : Program α} {second : α → Program β} {value : α} {result : β}
    {firstBytes secondBytes : Endian → List UInt8} (left : Reads first firstBytes value)
    (right : Reads (second value) secondBytes result) :
    Reads (do let read ← first; second read)
      (fun endian => firstBytes endian ++ secondBytes endian) result := by
  intro ba rest wf unread
  rw [List.append_assoc] at unread
  obtain ⟨middle, ranFirst, movedFirst⟩ := left wf unread
  have unreadMiddle := movedFirst.unread unread
  rw [← movedFirst.endian] at unreadMiddle
  obtain ⟨after, ranSecond, movedSecond⟩ := right movedFirst.wellFormed unreadMiddle
  refine ⟨after, ?_, ?_⟩
  · rw [EStateM.run_bind, ranFirst]
    exact ranSecond
  · rw [movedFirst.endian, movedFirst.position, Nat.add_assoc, ← List.length_append] at movedSecond
    exact movedFirst.trans movedSecond

/-- Computing with the value read. -/
theorem Reads.map {program : Program α} {bytes : Endian → List UInt8} {value : α}
    (reads : Reads program bytes value) (f : α → β) :
    Reads (do let read ← program; return f read) bytes (f value) := by
  have whole : Reads (do let read ← program; return f read) (fun endian => bytes endian ++ [])
      (f value) := reads.bind (reads_pure (f value))
  simpa only [List.append_nil] using whole

/-- `read` of bytes that are there. -/
theorem reads_read {bytes : List UInt8} (nonempty : bytes ≠ []) :
    Reads (read bytes.length) (fun _ => bytes) bytes := by
  intro ba rest wf unread
  have present : ba.size - ba.position = bytes.length + rest.length := by
    rw [← wf.length_contents, ← List.length_drop, unread, List.length_append]
  have length : bytes.length ≠ 0 := by simpa using nonempty
  obtain ⟨after, ran, moved⟩ := wf.read_run length (show bytes.length ≤ ba.size - ba.position by
    omega)
  refine ⟨after, ?_, moved⟩
  rw [ran, unread, List.take_left]

end Reading

end Sylar.ByteArray
