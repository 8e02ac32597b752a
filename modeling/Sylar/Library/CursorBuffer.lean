import Sylar.Library.Overwrite
import Mathlib.Order.Basic

/-!
# A growable array with a cursor

The abstract byte store: one array, one cursor inside it, and a reservation the
cursor may move through. Elements that were reserved but never written are
`none`. How much a demand reserves is a parameter; `observe_independent` shows
that only a move beyond the contents can tell two growth policies apart.
-/

namespace Sylar.Library

universe u

/-- How much an array that has to hold `demand` elements reserves. -/
structure Growth where
  reserve : Nat → Nat
  covers : ∀ demand, demand ≤ reserve demand

/-- An array with a cursor and a reservation, all in bounds. -/
structure CursorBuffer (α : Type u) where
  contents : List (Option α)
  cursor : Nat
  reserved : Nat
  cursorBound : cursor ≤ contents.length
  contentsBound : contents.length ≤ reserved

/-- The four commands of a cursor buffer. -/
inductive Command (α : Type u) where
  | write (source : List α)
  | read (count : Nat)
  | seek (position : Nat)
  | clear
deriving DecidableEq, Repr

/-- What a command answers; elements read are of type `β`. -/
inductive Reply (β : Type u) where
  | done
  | data (elements : List β)
  | outOfRange
deriving DecidableEq, Repr

namespace CursorBuffer

variable {α : Type u}

/-- An empty array that has reserved what no demand reserves. -/
def empty (growth : Growth) : CursorBuffer α where
  contents := []
  cursor := 0
  reserved := growth.reserve 0
  cursorBound := Nat.le_refl _
  contentsBound := growth.covers 0

/-- Overwrite from the cursor on, growing the reservation when it is too small. -/
def write (growth : Growth) (buffer : CursorBuffer α) (source : List α) : CursorBuffer α where
  contents := overwrite buffer.contents buffer.cursor (source.map some)
  cursor := buffer.cursor + source.length
  reserved := max buffer.reserved (growth.reserve (buffer.cursor + source.length))
  cursorBound := by
    rw [length_overwrite buffer.cursorBound, List.length_map]
    omega
  contentsBound := by
    have bound := buffer.contentsBound
    have covers := growth.covers (buffer.cursor + source.length)
    rw [length_overwrite buffer.cursorBound, List.length_map]
    omega

/-- The elements from the cursor to the end. -/
def unread (buffer : CursorBuffer α) : List (Option α) := buffer.contents.drop buffer.cursor

@[simp] theorem length_unread (buffer : CursorBuffer α) :
    buffer.unread.length = buffer.contents.length - buffer.cursor := by
  simp [unread]

/-- Move the cursor over `count` elements that are there. -/
def advance (buffer : CursorBuffer α) (count : Nat)
    (bounded : count ≤ buffer.contents.length - buffer.cursor) : CursorBuffer α where
  contents := buffer.contents
  cursor := buffer.cursor + count
  reserved := buffer.reserved
  cursorBound := by
    have inside := buffer.cursorBound
    omega
  contentsBound := buffer.contentsBound

/-- Move the cursor within the reservation; a move past the contents extends
them by elements nobody wrote. -/
def moveTo (buffer : CursorBuffer α) (position : Nat)
    (bounded : position ≤ buffer.reserved) : CursorBuffer α where
  contents := buffer.contents ++ List.replicate (position - buffer.contents.length) none
  cursor := position
  reserved := buffer.reserved
  cursorBound := by
    simp only [List.length_append, List.length_replicate]
    omega
  contentsBound := by
    have inside := buffer.contentsBound
    simp only [List.length_append, List.length_replicate]
    omega

/-- Perform one command. -/
def perform (growth : Growth) (buffer : CursorBuffer α) :
    Command α → CursorBuffer α × Reply (Option α)
  | .write source =>
      (if source = [] then buffer else buffer.write growth source, .done)
  | .read count =>
      if bounded : count ≤ buffer.contents.length - buffer.cursor then
        (buffer.advance count bounded, .data (buffer.unread.take count))
      else (buffer, .outOfRange)
  | .seek position =>
      if bounded : position ≤ buffer.reserved then (buffer.moveTo position bounded, .done)
      else (buffer, .outOfRange)
  | .clear => (empty growth, .done)

/-- What can be seen of a buffer after a command: the reply, the cursor, the
length and the unread elements. -/
structure Observation (β : Type u) where
  reply : Reply β
  position : Nat
  size : Nat
  unread : List β
deriving DecidableEq, Repr

/-- The observation a buffer offers together with the last reply. -/
def observe (buffer : CursorBuffer α) (reply : Reply (Option α)) : Observation (Option α) where
  reply := reply
  position := buffer.cursor
  size := buffer.contents.length
  unread := buffer.unread

/-- The observations of a sequence of commands, one for each. -/
def observations (growth : Growth) : CursorBuffer α → List (Command α) →
    List (Observation (Option α))
  | _, [] => []
  | buffer, command :: rest =>
      let (next, reply) := buffer.perform growth command
      next.observe reply :: observations growth next rest

/-- The buffer a sequence of commands leads to. -/
def after (growth : Growth) (buffer : CursorBuffer α) (commands : List (Command α)) :
    CursorBuffer α :=
  commands.foldl (fun current command => (current.perform growth command).1) buffer

/-- Every move of the cursor stays within the contents of that moment. -/
def SeeksInside (growth : Growth) : CursorBuffer α → List (Command α) → Prop
  | _, [] => True
  | buffer, command :: rest =>
      (∀ position, command = .seek position → position ≤ buffer.contents.length) ∧
        SeeksInside growth (buffer.perform growth command).1 rest

/-- Two buffers that differ at most in their reservation. -/
def SameContents (left right : CursorBuffer α) : Prop :=
  left.contents = right.contents ∧ left.cursor = right.cursor

/-- One command cannot tell two growth policies apart unless it moves the
cursor past the contents. -/
theorem perform_sameContents (first second : Growth) {left right : CursorBuffer α}
    (same : SameContents left right) {command : Command α}
    (inside : ∀ position, command = .seek position → position ≤ left.contents.length) :
    SameContents (left.perform first command).1 (right.perform second command).1 ∧
      (left.perform first command).2 = (right.perform second command).2 := by
  obtain ⟨contents, cursor⟩ := same
  cases command with
  | write source =>
      refine ⟨?_, rfl⟩
      simp only [perform]
      split
      · exact ⟨contents, cursor⟩
      · exact ⟨by simp only [write, contents, cursor], by simp only [write, cursor]⟩
  | read count =>
      simp only [perform, unread, ← contents, ← cursor]
      split
      · exact ⟨⟨contents, by simp only [advance, cursor]⟩, rfl⟩
      · exact ⟨⟨contents, cursor⟩, rfl⟩
  | seek position =>
      have position_le := inside position rfl
      have leftBound : position ≤ left.reserved := Nat.le_trans position_le left.contentsBound
      have rightBound : position ≤ right.reserved :=
        Nat.le_trans (contents ▸ position_le) right.contentsBound
      simp only [perform, dif_pos leftBound, dif_pos rightBound]
      exact ⟨⟨by simp only [moveTo, contents], rfl⟩, trivial⟩
  | clear => exact ⟨⟨rfl, rfl⟩, rfl⟩

/-- A run whose moves stay inside the contents is observed alike under any two
growth policies. -/
theorem observe_independent (first second : Growth) {left right : CursorBuffer α}
    (same : SameContents left right) {commands : List (Command α)}
    (inside : SeeksInside first left commands) :
    left.observations first commands = right.observations second commands := by
  induction commands generalizing left right with
  | nil => rfl
  | cons command rest inductionHypothesis =>
      obtain ⟨now, later⟩ := inside
      obtain ⟨next, reply⟩ := perform_sameContents first second same now
      simp only [observations]
      rw [inductionHypothesis next later, reply]
      congr 1
      simp only [observe, unread, next.1, next.2]

end CursorBuffer

/-- A reply whose elements are described by the known ones. -/
def Reply.Describes {α : Type u} : Reply (Option α) → Reply α → Prop
  | .done, .done => True
  | .data known, .data actual => Library.Describes known actual
  | .outOfRange, .outOfRange => True
  | _, _ => False

namespace CursorBuffer

variable {α : Type u}

/-- An actual observation agrees with one of which only some elements are known. -/
structure Observation.Describes (known : Observation (Option α)) (actual : Observation α) :
    Prop where
  reply : known.reply.Describes actual.reply
  position : known.position = actual.position
  size : known.size = actual.size
  unread : Library.Describes known.unread actual.unread

/-- No element is unknown. -/
def Complete (elements : List (Option α)) : Prop := none ∉ elements

/-- An observation without unknown elements. -/
def Observation.Complete (observed : Observation (Option α)) : Prop :=
  (∀ elements, observed.reply = .data elements → CursorBuffer.Complete elements) ∧
    CursorBuffer.Complete observed.unread

theorem Complete.unique {known : List (Option α)} (complete : Complete known)
    {left right : List α} (first : Library.Describes known left)
    (second : Library.Describes known right) : left = right := by
  induction first generalizing right with
  | nil =>
      cases second
      rfl
  | @cons expected found _ _ same _ inductionHypothesis =>
      cases second with
      | cons same' rest' =>
          have rest := inductionHypothesis
            (fun member => complete (List.mem_cons_of_mem _ member)) rest'
          cases expected with
          | none => exact absurd List.mem_cons_self complete
          | some value => rw [← same value rfl, ← same' value rfl, rest]

/-- Complete observations have one actual reading. -/
theorem Observation.Complete.unique {known : Observation (Option α)}
    (complete : known.Complete) {left right : Observation α}
    (first : known.Describes left) (second : known.Describes right) : left = right := by
  obtain ⟨knownReply, knownPosition, knownSize, knownUnread⟩ := known
  obtain ⟨leftReply, leftPosition, leftSize, leftUnread⟩ := left
  obtain ⟨rightReply, rightPosition, rightSize, rightUnread⟩ := right
  obtain ⟨reply, position, size, unread⟩ := first
  obtain ⟨reply', position', size', unread'⟩ := second
  have unreadEq : leftUnread = rightUnread :=
    CursorBuffer.Complete.unique complete.2 unread unread'
  have replyEq : leftReply = rightReply := by
    cases knownReply with
    | done => cases leftReply <;> cases rightReply <;> simp_all [Reply.Describes]
    | outOfRange => cases leftReply <;> cases rightReply <;> simp_all [Reply.Describes]
    | data elements =>
        cases leftReply with
        | data found =>
            cases rightReply with
            | data found' => rw [CursorBuffer.Complete.unique (complete.1 _ rfl) reply reply']
            | done => exact reply'.elim
            | outOfRange => exact reply'.elim
        | done => exact reply.elim
        | outOfRange => exact reply.elim
  simp only at position size position' size'
  rw [replyEq, unreadEq, ← position, ← position', ← size, ← size']

/-- Sequences of complete observations have one actual reading. -/
theorem observations_unique {known : List (Observation (Option α))}
    (complete : ∀ observed ∈ known, observed.Complete) {left right : List (Observation α)}
    (first : List.Forall₂ Observation.Describes known left)
    (second : List.Forall₂ Observation.Describes known right) : right = left := by
  induction first generalizing right with
  | nil =>
      cases second
      rfl
  | cons same _ inductionHypothesis =>
      cases second with
      | cons same' rest' =>
          rw [Observation.Complete.unique (complete _ List.mem_cons_self) same' same,
            inductionHypothesis (fun observed member =>
              complete observed (List.mem_cons_of_mem _ member)) rest']

/-- A move inside the contents reveals nothing unwritten. -/
theorem perform_complete (growth : Growth) {buffer : CursorBuffer α}
    (complete : Complete buffer.contents) {command : Command α}
    (inside : ∀ position, command = .seek position → position ≤ buffer.contents.length) :
    Complete (buffer.perform growth command).1.contents ∧
      ((buffer.perform growth command).1.observe (buffer.perform growth command).2).Complete := by
  have dropped {elements : List (Option α)} (whole : Complete elements) (count : Nat) :
      Complete (elements.drop count) := fun member => whole (List.mem_of_mem_drop member)
  suffices kept : Complete (buffer.perform growth command).1.contents ∧
      ∀ elements, (buffer.perform growth command).2 = .data elements → Complete elements from
    ⟨kept.1, kept.2, dropped kept.1 _⟩
  cases command with
  | write source =>
      refine ⟨?_, fun _ same => by cases same⟩
      simp only [perform]
      split
      · exact complete
      · intro member
        simp only [write, overwrite, List.mem_append, List.mem_map, reduceCtorEq, and_false,
          exists_false, or_false] at member
        rcases member with member | member
        · exact complete (List.mem_of_mem_take member)
        · exact dropped complete _ member
  | read count =>
      simp only [perform]
      split
      · refine ⟨complete, fun elements same member => ?_⟩
        cases same
        exact dropped complete _ (List.mem_of_mem_take member)
      · exact ⟨complete, fun _ same => by cases same⟩
  | seek position =>
      have bounded : position ≤ buffer.reserved :=
        Nat.le_trans (inside position rfl) buffer.contentsBound
      refine ⟨?_, fun _ same => ?_⟩
      · simp only [perform, dif_pos bounded, moveTo]
        rw [Nat.sub_eq_zero_of_le (inside position rfl), List.replicate_zero, List.append_nil]
        exact complete
      · simp only [perform, dif_pos bounded] at same
        cases same
  | clear => exact ⟨List.not_mem_nil, fun _ same => by cases same⟩

theorem observations_complete (growth : Growth) {buffer : CursorBuffer α}
    (complete : Complete buffer.contents) {commands : List (Command α)}
    (inside : SeeksInside growth buffer commands) :
    ∀ observed ∈ buffer.observations growth commands, observed.Complete := by
  induction commands generalizing buffer with
  | nil => exact fun _ member => absurd member List.not_mem_nil
  | cons command rest inductionHypothesis =>
      obtain ⟨now, later⟩ := inside
      obtain ⟨next, shown⟩ := perform_complete growth complete now
      intro observed member
      rcases List.mem_cons.mp member with rfl | member
      · exact shown
      · exact inductionHypothesis next later observed member

end CursorBuffer

end Sylar.Library
