import Sylar.ByteArray.Operations

/-!
# The byte array refines a growable array with a cursor

A client drives a `ByteArray` with commands and looks at the reply, the
position, the size and `toString()` after each. `run_refines` says that it sees
what a single array with a cursor shows, whatever the base size, except that a
move of the position is refused beyond the nodes allocated so far.
-/

namespace Sylar.ByteArray

open Library CursorBuffer

/-- The member function behind a command. -/
def call : Command UInt8 → Program (Reply UInt8)
  | .write buf => do
      write buf
      return .done
  | .read size => do
      let bytes ← read size
      return .data bytes
  | .seek v => do
      setPosition v
      return .done
  | .clear => do
      clear
      return .done

/-- A client that catches `std::out_of_range` and goes on. -/
def perform (ba : ByteArray) (command : Command UInt8) : Except Fault (ByteArray × Reply UInt8) :=
  match EStateM.run (call command) ba with
  | .ok reply after => .ok (after, reply)
  | .error .outOfRange after => .ok (after, .outOfRange)
  | .error fault _ => .error fault

/-- What the client sees after a command. -/
def observe (ba : ByteArray) (reply : Reply UInt8) : Except Fault (Observation UInt8) :=
  match EStateM.run toString ba with
  | .ok unread _ => .ok ⟨reply, ba.position, ba.size, unread⟩
  | .error fault _ => .error fault

/-- A whole run: the byte array it leaves and what was seen on the way. -/
def run : ByteArray → List (Command UInt8) →
    Except Fault (ByteArray × List (Observation UInt8))
  | ba, [] => .ok (ba, [])
  | ba, command :: rest => do
      let (next, reply) ← ba.perform command
      let observed ← next.observe reply
      let (after, later) ← run next rest
      return (after, observed :: later)

/-- The abstract buffer describes the byte array. -/
structure Simulates (baseSize : Nat) (buffer : CursorBuffer UInt8) (ba : ByteArray) : Prop where
  wellFormed : WellFormed ba
  baseSize : ba.baseSize = baseSize
  contents : Describes buffer.contents ba.contents
  cursor : buffer.cursor = ba.position
  reserved : buffer.reserved = ba.capacity

variable {baseSize : Nat}

theorem Simulates.size {buffer : CursorBuffer UInt8} {ba : ByteArray}
    (same : Simulates baseSize buffer ba) : buffer.contents.length = ba.size := by
  rw [same.contents.length_eq, same.wellFormed.length_contents]

theorem Simulates.unread {buffer : CursorBuffer UInt8} {ba : ByteArray}
    (same : Simulates baseSize buffer ba) :
    Describes buffer.unread (ba.contents.drop ba.position) := by
  rw [CursorBuffer.unread, same.cursor]
  exact same.contents.drop _

theorem simulates_new (positive : 0 < baseSize) (heap : Nat → Nat → UInt8) :
    Simulates baseSize (CursorBuffer.empty (blocks baseSize positive)) (new baseSize heap) where
  wellFormed := new_wellFormed positive heap
  baseSize := rfl
  contents := by simp [CursorBuffer.empty, ByteArray.contents, new, Describes]
  cursor := rfl
  reserved := by
    have none : nodeCount 0 baseSize = 0 := by
      rw [nodeCount, Nat.zero_add, Nat.div_eq_of_lt (by omega)]
    simp [CursorBuffer.empty, blocks, none, new]

theorem simulates_moved {buffer : CursorBuffer UInt8} {ba after : ByteArray} {count : Nat}
    (same : Simulates baseSize buffer ba) (moved : Moved (ba.position + count) ba after)
    (bounded : count ≤ buffer.contents.length - buffer.cursor) :
    Simulates baseSize (buffer.advance count bounded) after where
  wellFormed := moved.wellFormed
  baseSize := moved.baseSize.trans same.baseSize
  contents := by
    rw [moved.contents]
    exact same.contents
  cursor := by
    show buffer.cursor + count = after.position
    rw [moved.position, same.cursor]
  reserved := by rw [moved.capacity]; exact same.reserved

/-- A move within the reservation extends the contents by bytes nobody wrote. -/
theorem simulates_moveTo {buffer : CursorBuffer UInt8} {ba : ByteArray} {v : Nat}
    (same : Simulates baseSize buffer ba) (bounded : v ≤ buffer.reserved) :
    Simulates baseSize (buffer.moveTo v bounded) (ba.movedTo v) where
  wellFormed := same.wellFormed.setPosition_wellFormed (same.reserved ▸ bounded)
  baseSize := same.baseSize
  contents := by
    have capacity := same.reserved ▸ bounded
    have sizeLe := same.wellFormed.sizeLe
    have total := same.wellFormed.length_bytesOf
    have split : (bytesOf ba.nodes).take (max ba.size v) =
        ba.contents ++ ((bytesOf ba.nodes).drop ba.size).take (v - ba.size) := by
      have sum : max ba.size v = ba.size + (v - ba.size) := by omega
      rw [sum, List.take_add, contents]
    have extra : (((bytesOf ba.nodes).drop ba.size).take (v - ba.size)).length =
        v - buffer.contents.length := by
      rw [same.size, List.length_take, List.length_drop]
      omega
    have unknown := Describes.unknown (((bytesOf ba.nodes).drop ba.size).take (v - ba.size))
    rw [extra] at unknown
    show Describes (buffer.contents ++ List.replicate (v - buffer.contents.length) none)
      ((bytesOf ba.nodes).take (max ba.size v))
    rw [split]
    exact same.contents.append unknown
  cursor := rfl
  reserved := same.reserved

theorem simulates_write (positive : 0 < baseSize) {buffer : CursorBuffer UInt8}
    {ba after : ByteArray} {buf : List UInt8}
    (same : Simulates baseSize buffer ba) (written : Written buf ba after) :
    Simulates baseSize (buffer.write (blocks baseSize positive) buf) after where
  wellFormed := written.wellFormed
  baseSize := written.baseSize.trans same.baseSize
  contents := by
    rw [written.contents, ← same.cursor]
    exact same.contents.overwrite _ _
  cursor := by
    show buffer.cursor + buf.length = after.position
    rw [written.position, same.cursor]
  reserved := by
    rw [written.capacity, ← same.reserved, ← same.cursor, same.baseSize]
    rfl

/-- One command of the client is one command of the abstract buffer. -/
theorem perform_simulates (positive : 0 < baseSize) {buffer : CursorBuffer UInt8} {ba : ByteArray}
    (same : Simulates baseSize buffer ba) {command : Command UInt8}
    (valid : command ≠ .read 0) :
    ∃ after reply, ba.perform command = .ok (after, reply) ∧
      Simulates baseSize (buffer.perform (blocks baseSize positive) command).1 after ∧
      (buffer.perform (blocks baseSize positive) command).2.Describes reply := by
  have wf := same.wellFormed
  cases command with
  | write buf =>
      obtain ⟨after, ran, written⟩ := wf.write_run buf
      refine ⟨after, .done, ?_, ?_, trivial⟩
      · simp only [perform, call, EStateM.run_bind, ran, EStateM.run_pure]
      · by_cases empty : buf = []
        · subst empty
          have unchanged : after = ba := by
            simp only [write, List.length_nil, if_true, EStateM.run_pure] at ran
            cases ran
            rfl
          rw [unchanged]
          exact same
        · simp only [CursorBuffer.perform, if_neg empty]
          exact simulates_write positive same written
  | read size =>
      have nonempty : size ≠ 0 := fun zero => valid (by rw [zero])
      have unread : ba.getReadSize = buffer.contents.length - buffer.cursor := by
        rw [same.size, same.cursor]
        rfl
      by_cases available : size ≤ buffer.contents.length - buffer.cursor
      · obtain ⟨after, ran, moved⟩ := wf.read_run nonempty (unread ▸ available)
        refine ⟨after, .data ((ba.contents.drop ba.position).take size), ?_, ?_, ?_⟩
        · simp only [perform, call, EStateM.run_bind, ran, EStateM.run_pure]
        · simp only [CursorBuffer.perform, dif_pos available]
          exact simulates_moved same moved available
        · simp only [CursorBuffer.perform, dif_pos available]
          exact same.unread.take size
      · have ran : EStateM.run (read size) ba = _ := read_run_outOfRange (by omega)
        refine ⟨ba, .outOfRange, ?_, ?_, ?_⟩
        · simp only [perform, call, EStateM.run_bind, ran]
        · simp only [CursorBuffer.perform, dif_neg available]
          exact same
        · simp only [CursorBuffer.perform, dif_neg available, Reply.Describes]
  | seek v =>
      by_cases bounded : v ≤ buffer.reserved
      · have ran := wf.setPosition_run (same.reserved ▸ bounded)
        refine ⟨ba.movedTo v, .done, ?_, ?_, ?_⟩
        · simp only [perform, call, EStateM.run_bind, ran, EStateM.run_pure]
        · simp only [CursorBuffer.perform, dif_pos bounded]
          exact simulates_moveTo same bounded
        · simp only [CursorBuffer.perform, dif_pos bounded, Reply.Describes]
      · have ran : EStateM.run (setPosition v) ba = _ :=
          setPosition_run_outOfRange (by rw [← same.reserved]; omega)
        refine ⟨ba, .outOfRange, ?_, ?_, ?_⟩
        · simp only [perform, call, EStateM.run_bind, ran]
        · simp only [CursorBuffer.perform, dif_neg bounded]
          exact same
        · simp only [CursorBuffer.perform, dif_neg bounded, Reply.Describes]
  | clear =>
      obtain ⟨after, ran, wellFormed, contents, position, capacity, base, _⟩ := wf.clear_wellFormed
      refine ⟨after, .done, ?_, ?_, trivial⟩
      · simp only [perform, call, EStateM.run_bind, ran, EStateM.run_pure]
      · have fresh := (simulates_new positive ba.heap).reserved
        exact {
          wellFormed := wellFormed
          baseSize := base.trans same.baseSize
          contents := by
            rw [contents]
            exact List.Forall₂.nil
          cursor := position.symm
          reserved := by
            rw [capacity, same.baseSize]
            exact fresh }

/-- What the client sees is what the abstract buffer shows. -/
theorem observe_simulates {buffer : CursorBuffer UInt8} {ba : ByteArray}
    (same : Simulates baseSize buffer ba) {expected : Reply (Option UInt8)} {reply : Reply UInt8}
    (described : expected.Describes reply) :
    ∃ observed, ba.observe reply = .ok observed ∧
      (buffer.observe expected).Describes observed := by
  refine ⟨⟨reply, ba.position, ba.size, ba.contents.drop ba.position⟩, ?_, ?_⟩
  · simp only [observe, same.wellFormed.toString_run]
  · exact ⟨described, same.cursor, same.size, same.unread⟩

/-- Every run is simulated by the abstract buffer. -/
theorem run_simulates (positive : 0 < baseSize) {buffer : CursorBuffer UInt8} {ba : ByteArray}
    (same : Simulates baseSize buffer ba) {commands : List (Command UInt8)}
    (valid : .read 0 ∉ commands) :
    ∃ after observed, ba.run commands = .ok (after, observed) ∧
      Simulates baseSize (buffer.after (blocks baseSize positive) commands) after ∧
      List.Forall₂ Observation.Describes
        (buffer.observations (blocks baseSize positive) commands) observed := by
  induction commands generalizing buffer ba with
  | nil => exact ⟨ba, [], rfl, same, List.Forall₂.nil⟩
  | cons command rest inductionHypothesis =>
      have commandValid : command ≠ .read 0 := fun equal => valid (equal ▸ List.mem_cons_self)
      obtain ⟨next, reply, performed, sameNext, described⟩ :=
        perform_simulates positive same commandValid
      obtain ⟨observed, seen, agrees⟩ := observe_simulates sameNext described
      obtain ⟨after, later, ran, sameAfter, laterAgrees⟩ :=
        inductionHypothesis sameNext (fun member => valid (List.mem_cons_of_mem _ member))
      refine ⟨after, observed :: later, ?_, sameAfter, List.Forall₂.cons agrees laterAgrees⟩
      simp only [run, performed, bind, Except.bind, seen, ran, pure, Except.pure]

/-- A fresh byte array shows the client what an array with a cursor shows whose
reservation is made of whole nodes: the same positions, sizes, refusals and
bytes, where those were written. The members stay tied together on the way, so
that `m_cur` is null only at the end of the chain. On runs that never move the
position past the size, another base size and other memory show the same. -/
theorem run_refines (positive : 0 < baseSize) (heap : Nat → Nat → UInt8)
    (commands : List (Command UInt8)) (valid : .read 0 ∉ commands) :
    ∃ after observed, (new baseSize heap).run commands = .ok (after, observed) ∧
      List.Forall₂ Observation.Describes
        (CursorBuffer.observations (blocks baseSize positive)
          (CursorBuffer.empty (blocks baseSize positive)) commands) observed ∧
      (after.position ≤ after.size ∧ after.size ≤ after.capacity ∧
        after.capacity = baseSize * after.nodes.length ∧
        (after.cur = none ↔ after.position = after.capacity) ∧
        (after.position ≠ after.capacity → after.cur = some (after.position / baseSize) ∧
          after.position / baseSize < after.nodes.length)) ∧
      ∀ otherBase (_ : 0 < otherBase) otherHeap,
        SeeksInside (blocks baseSize positive)
          (CursorBuffer.empty (blocks baseSize positive)) commands →
        ∃ otherAfter, (new otherBase otherHeap).run commands = .ok (otherAfter, observed) := by
  obtain ⟨after, observed, ran, same, described⟩ :=
    run_simulates positive (simulates_new positive heap) valid
  have wf := same.wellFormed
  refine ⟨after, observed, ran, described, ⟨wf.positionLe, wf.sizeLe, ?_, wf.cur_eq_none_iff, ?_⟩,
    ?_⟩
  · rw [wf.capacityEq, same.baseSize]
  · intro before
    have positionLe := wf.positionLe
    have sizeLe := wf.sizeLe
    rw [← same.baseSize]
    exact wf.cur_eq_some (by omega)
  · intro otherBase otherPositive otherHeap inside
    obtain ⟨otherAfter, otherObserved, otherRan, _, otherDescribed⟩ :=
      run_simulates otherPositive (simulates_new otherPositive otherHeap) valid
    have complete := observations_complete (blocks baseSize positive)
      (show Complete (CursorBuffer.empty (blocks baseSize positive)).contents from
        List.not_mem_nil) inside
    have alike := observe_independent (blocks baseSize positive)
      (blocks otherBase otherPositive)
      (show SameContents (CursorBuffer.empty (blocks baseSize positive))
        (CursorBuffer.empty (blocks otherBase otherPositive)) from ⟨rfl, rfl⟩) inside
    rw [← alike] at otherDescribed
    refine ⟨otherAfter, ?_⟩
    rw [otherRan, observations_unique complete described otherDescribed]

/-- Nodes of two bytes, with overwriting, a read across a node and a refusal. -/
theorem run_refines_twoByteNodes :
    ∃ after observed, (new 2 fun _ _ => 0).run
        [.write [1, 2, 3], .seek 1, .write [9], .seek 0, .read 3, .read 1, .seek 5, .clear] =
      .ok (after, observed) ∧ after.position ≤ after.size := by
  obtain ⟨after, observed, ran, _, bounds, _⟩ := run_refines (show 0 < 2 by decide)
    (fun _ _ => 0)
    [.write [1, 2, 3], .seek 1, .write [9], .seek 0, .read 3, .read 1, .seek 5, .clear]
    (by decide)
  exact ⟨after, observed, ran, bounds.1⟩

/-- Whether `setPosition` throws depends on the base size: on fresh byte arrays
position 2 is refused with nodes of one byte and reached with nodes of two. -/
theorem setPosition_depends_on_baseSize :
    ((new 1 fun _ _ => 0).run [.seek 2]).map (fun shown => shown.2.map (·.reply)) =
        .ok [.outOfRange] ∧
      ((new 2 fun _ _ => 0).run [.seek 2]).map (fun shown => shown.2.map (·.reply)) =
        .ok [.done] ∧
      ¬∃ replies : List (Command UInt8) → List (Reply UInt8), ∀ baseSize, 0 < baseSize →
        ∀ heap commands, .read 0 ∉ commands →
          ((new baseSize heap).run commands).map (fun shown => shown.2.map (·.reply)) =
            .ok (replies commands) := by
  refine ⟨rfl, rfl, ?_⟩
  rintro ⟨replies, same⟩
  have one := same 1 (by decide) (fun _ _ => 0) [.seek 2] (by decide)
  have two := same 2 (by decide) (fun _ _ => 0) [.seek 2] (by decide)
  exact absurd (one.trans two.symm) (by decide)

end Sylar.ByteArray
