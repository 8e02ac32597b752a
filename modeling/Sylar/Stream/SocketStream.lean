import Mathlib.Data.List.SplitLengths
import Sylar.ByteArray.ZeroCopy
import Sylar.Stream.Vectored

/-!
# Reading from TLS into a byte array

`SocketStream::read` of a byte array receives into the segments of `getWriteBuffers` and moves
the position over what was received.
-/

namespace Sylar.SocketStream

open Library Sylar.Stream SSLSocket Sylar.ByteArray

variable {σ : Type}

/-- `read(ba, length)`. `recv` is given what the segments hold, and they are written back. -/
def read (connected ssl : Bool) (reader : Reader σ) (length : Nat) (s : σ) :
    Program (Outcome σ) := do
  if !connected then return ⟨-1, [], [], s⟩
  else
    let (iovs, _) ← getWriteBuffers length
    let ba ← get
    match gather ba.nodes iovs with
    | .error fault => throw fault
    | .ok memory =>
        let outcome := recv ssl reader ((iovs.map IoVec.length).splitLengths memory) s
        receive iovs outcome.buffers.flatten
        if outcome.result > 0 then setPosition (ba.position + outcome.result.toNat)
        return outcome

/-- The results lose nothing of what is received into the segments of `getWriteBuffers`. -/
def ReadLossless (reader : Reader σ) (ba : ByteArray) (length : Nat) (s : σ) : Prop :=
  ∀ iovs len grown, EStateM.run (getWriteBuffers length) ba = .ok (iovs, len) grown →
    Lossless (readCounts reader) 0 (iovs.map IoVec.length) s

/-- All bytes that were received are in the byte array, in front of its position. -/
def KeepsReceived (connected ssl : Bool) (reader : Reader σ) (ba : ByteArray) (length : Nat)
    (s : σ) : Prop :=
  ∃ outcome after, EStateM.run (read connected ssl reader length s) ba = .ok outcome after ∧
    after.contents = overwrite ba.contents ba.position outcome.moved ∧
    after.position = ba.position + outcome.moved.length

/-- `ReadLossless` where something is received. -/
def Undropped (connected ssl : Bool) (reader : Reader σ) (ba : ByteArray) (length : Nat)
    (s : σ) : Prop :=
  connected = true → length ≠ 0 → ssl = true → ReadLossless reader ba length s

variable {ba grown : ByteArray} {reader : Reader σ} {s : σ} {length : Nat} {ssl : Bool}
  {iovs : List IoVec}

/-- `setPosition` moves the position there, if it returns. -/
theorem position_of_setPosition {v : Nat} {before after : ByteArray}
    (ran : EStateM.run (setPosition v) before = .ok () after) : after.position = v := by
  by_cases outside : v > before.capacity
  · simp [setPosition, outside] at ran
  · cases found : seekLoop 0 before.nodes v with
    | error fault => simp [setPosition, outside, found] at ran
    | ok cur =>
        simp only [setPosition, EStateM.run_bind, EStateM.run_get, if_neg outside, found,
          EStateM.run_set] at ran
        cases ran
        rfl

/-- The segments keep their lengths in `recv`. -/
theorem map_length_recv (ssl : Bool) (reader : Reader σ) (segments : List (List UInt8)) (s : σ) :
    (recv ssl reader segments s).buffers.map List.length = segments.map List.length := by
  cases ssl with
  | false => rfl
  | true => exact map_length_vectorLoop (follows_read reader) segments 0 s

theorem length_moved_recv (ssl : Bool) (reader : Reader σ) (segments : List (List UInt8))
    (s : σ) :
    (recv ssl reader segments s).moved.length ≤ segments.flatten.length := by
  cases ssl with
  | false => exact Nat.zero_le _
  | true => exact length_moved_le (follows_read reader) segments 0 s

/-- What `recv` leaves in the segments. -/
theorem flatten_recv {lengths : List Nat} {segments : List (List UInt8)}
    (shape : segments.map List.length = lengths)
    (lossless : ssl = true → Lossless (readCounts reader) 0 lengths s) :
    (recv ssl reader segments s).buffers.flatten = (recv ssl reader segments s).moved ++
      segments.flatten.drop (recv ssl reader segments s).moved.length := by
  cases ssl with
  | false => rfl
  | true =>
      subst shape
      exact flatten_of_lossless (follows_read reader) 0 (lossless rfl)

/-- Reading nothing leaves the byte array as it is. -/
theorem read_zero_run (connected ssl : Bool) (reader : Reader σ) (ba : ByteArray) (s : σ) :
    ∃ outcome, EStateM.run (read connected ssl reader 0 s) ba = .ok outcome ba ∧
      outcome.moved = [] := by
  cases connected with
  | false => exact ⟨_, rfl, rfl⟩
  | true =>
      cases ssl with
      | false => exact ⟨_, rfl, rfl⟩
      | true => exact ⟨_, rfl, rfl⟩

/-- What is received goes into segments of the chain, and the position is moved over it. -/
theorem read_run (ssl : Bool) (reader : Reader σ) (s : σ) (wf : WellFormed ba)
    (wanted : length ≠ 0) :
    ∃ iovs grown segments nodes,
      EStateM.run (getWriteBuffers length) ba = .ok (iovs, length) grown ∧
      Extended length ba grown ∧ Tiles grown.baseSize ba.position length iovs ∧
      segments.map List.length = iovs.map IoVec.length ∧
      segments.flatten = ((bytesOf grown.nodes).drop ba.position).take length ∧
      WellFormed { grown with nodes := nodes } ∧
      bytesOf nodes = overwrite (bytesOf grown.nodes) ba.position
        (recv ssl reader segments s).buffers.flatten ∧
      EStateM.run (read true ssl reader length s) ba =
        EStateM.run (do
          if (recv ssl reader segments s).result > 0 then
            setPosition (ba.position + (recv ssl reader segments s).result.toNat)
          return recv ssl reader segments s) { grown with nodes := nodes } := by
  obtain ⟨iovs, grown, ran, extended, tiles⟩ := getWriteBuffers_run wf wanted
  have room := extended.room
  have wfGrown := extended.wellFormed
  have inside : ba.position + length ≤ grown.baseSize * grown.nodes.length := by
    rw [← wfGrown.capacityEq]
    exact room
  have gathered := gather_eq wfGrown.uniform tiles inside
  have total := wfGrown.length_bytesOf
  generalize held : ((bytesOf grown.nodes).drop ba.position).take length = memory at gathered
  have size : memory.length = (iovs.map IoVec.length).sum := by
    rw [tiles.length_eq, ← held, List.length_take, List.length_drop]
    omega
  have shape := List.map_splitLengths_length _ _ size.ge
  have joined := List.flatten_splitLengths _ _ size.le
  generalize cut : (iovs.map IoVec.length).splitLengths memory = segments at shape joined
  have kept := map_length_recv ssl reader segments s
  generalize received : recv ssl reader segments s = outcome at kept
  have fits : outcome.buffers.flatten.length ≤ length := by
    rw [List.length_flatten, kept, shape, tiles.length_eq]
  obtain ⟨nodes, stored, wfFilled, filled⟩ := receive_run wfGrown tiles room fits
  refine ⟨iovs, grown, segments, nodes, ran, extended, tiles, shape, joined.trans held.symm,
    wfFilled, received ▸ filled, ?_⟩
  simp only [read, Bool.not_true, Bool.false_eq_true, if_false, EStateM.run_bind, ran,
    EStateM.run_get, gathered, cut, received, stored, extended.position]

/-- Nothing that is received into the segments is lost if the results lose nothing. -/
theorem keepsReceived_of_lossless (wf : WellFormed ba) (wanted : length ≠ 0)
    (lossless : ssl = true → ReadLossless reader ba length s) :
    KeepsReceived true ssl reader ba length s := by
  obtain ⟨iovs, grown, segments, nodes, ran, extended, tiles, shape, joined, wfFilled, filled,
    reading⟩ := read_run ssl reader s wf wanted
  have room := extended.room
  have total := extended.wellFormed.length_bytesOf
  have whole : segments.flatten.length = length := by
    rw [List.length_flatten, shape, tiles.length_eq]
  have few := length_moved_recv ssl reader segments s
  have losslessHere := fun on => lossless on iovs length grown ran
  have flatten := flatten_recv shape losslessHere
  have reports := (recvReports_iff ssl reader _ s).2 losslessHere ⟨segments, shape⟩
  simp only at reports
  generalize recv ssl reader segments s = outcome at few flatten reports filled reading
  rw [flatten, joined, overwrite_append_rest (by omega) (by omega)] at filled
  have contents := extended.overwritten wf filled
  by_cases some_ : 0 < outcome.result
  · have count : outcome.moved.length = outcome.result.toNat :=
      ((reports.positive_iff outcome.result.toNat (by omega)).1 (by omega)).1
    have after := wfFilled.setPosition_run (v := ba.position + outcome.moved.length) (by
      have capacity : ({ grown with nodes := nodes } : ByteArray).capacity = grown.capacity := rfl
      omega)
    refine ⟨outcome, _, ?_, contents, rfl⟩
    rw [reading, if_pos some_, ← count]
    simp only [EStateM.run_bind, after, EStateM.run_pure]
  · have nothing := reports.nonpositive (Int.not_lt.1 some_)
    refine ⟨outcome, { grown with nodes := nodes }, ?_, ?_, ?_⟩
    · rw [reading, if_neg some_]
      rfl
    · rw [← contents, nothing, List.length_nil, Nat.add_zero]
      simp only [movedTo, ByteArray.contents, extended.size, Nat.max_eq_left wf.positionLe]
    · rw [nothing]
      exact extended.position

/-- What is received is kept only if the results lose nothing, when a node is no longer than an
`int`. -/
theorem lossless_of_keepsReceived (wf : WellFormed ba) (wanted : length ≠ 0)
    (small : ba.baseSize < 2 ^ 31) (kept : KeepsReceived true true reader ba length s) :
    ReadLossless reader ba length s := by
  obtain ⟨iovs, grown, segments, nodes, ran, extended, tiles, shape, -, -, -, reading⟩ :=
    read_run true reader s wf wanted
  obtain ⟨outcome, after, finished, -, position⟩ := kept
  rw [reading] at finished
  have int : ∀ iov_len ∈ segments.map List.length, iov_len < 2 ^ 31 := by
    rw [shape, List.forall_mem_map]
    intro iov listed
    have inNode := tiles.length_le iov listed
    rw [extended.baseSize] at inNode
    omega
  have front := take_flatten_vectorLoop (follows_read reader) segments 0 s int
  have agrees : Agrees 0 (recv true reader segments s) := by
    by_cases some_ : 0 < (recv true reader segments s).result
    · rw [if_pos some_, EStateM.run_bind] at finished
      split at finished
      · rename_i moved there
        have count := position_of_setPosition there
        cases finished
        exact .inl ⟨by omega, front⟩
      · cases finished
    · rw [if_neg some_] at finished
      cases finished
      have unmoved := extended.position.symm.trans position
      exact .inr ⟨Int.not_lt.1 some_, rfl, List.length_eq_zero_iff.1 (by omega)⟩
  intro iovs' len grown' ran'
  rw [ran] at ran'
  cases ran'
  rw [← shape]
  exact (agrees_iff_int (follows_read reader) 0 int).1 agrees

/-- `recv` and `send` of segments report what they moved if and only if no call fails after
bytes were moved, as `Lossless` says. Then the byte array keeps all that is received, and with
nodes no longer than an `int` only then. -/
theorem vectored_iff (ssl : Bool) (reader : Reader σ) (accept : Acceptor σ) (s : σ) :
    (∀ lengths, RecvReports ssl reader lengths s ↔
      (ssl = true → Lossless (readCounts reader) 0 lengths s)) ∧
    (∀ lengths, SendReports ssl accept lengths s ↔
      (ssl = true → Lossless (acceptCounts accept) 0 lengths s)) ∧
    ∀ connected ba length, WellFormed ba →
      (Undropped connected ssl reader ba length s →
        KeepsReceived connected ssl reader ba length s) ∧
      (ba.baseSize < 2 ^ 31 → KeepsReceived connected ssl reader ba length s →
        Undropped connected ssl reader ba length s) := by
  refine ⟨fun lengths => recvReports_iff ssl reader lengths s,
    fun lengths => sendReports_iff ssl accept lengths s, fun connected ba length wf => ⟨?_, ?_⟩⟩
  · intro undropped
    by_cases wanted : length = 0
    · obtain ⟨outcome, ran, nothing⟩ := read_zero_run connected ssl reader ba s
      refine ⟨outcome, ba, wanted ▸ ran, ?_, ?_⟩
      · rw [nothing, overwrite_nil]
      · rw [nothing]
        rfl
    · cases connected with
      | false =>
          refine ⟨⟨-1, [], [], s⟩, ba, rfl, (overwrite_nil _ _).symm, rfl⟩
      | true => exact keepsReceived_of_lossless wf wanted (undropped rfl wanted)
  · intro small kept open_ wanted on
    subst open_ on
    exact lossless_of_keepsReceived wf wanted small kept

/-- One byte, and then a failure. -/
def oneByte : Reader Bool := fun s requested =>
  if first : s = true ∧ requested ≠ 0 then
    (.data [7] (by decide) (Nat.pos_of_ne_zero first.2) (by decide), false)
  else (.failed (-1) (by decide) (by decide), false)

/-- A send that takes one byte, and fails from then on. -/
def acceptOne : Acceptor Bool := fun s requested =>
  if first : s = true ∧ requested ≠ 0 then
    (.accepted 1 (by decide) (Nat.pos_of_ne_zero first.2) (by decide), false)
  else (.failed (-1) (by decide) (by decide), false)

theorem vectored_iff_fresh :
    ¬ RecvReports true oneByte [1, 1] true ∧ SendReports true acceptOne [1] true ∧
      KeepsReceived true true oneByte (new 2 fun _ _ => 0) 2 true := by
  have all := vectored_iff true oneByte acceptOne true
  have wf := new_wellFormed (show 0 < 2 by decide) fun _ _ => 0
  refine ⟨fun reports => ?_, (all.2.1 [1]).2 fun _ => ?_,
    (all.2.2 true (new 2 fun _ _ => 0) 2 wf).1 fun _ _ _ => ?_⟩
  · exact absurd ((all.1 [1, 1]).1 reports rfl) (by decide)
  · decide
  · intro iovs len grown ran
    cases ran
    decide

/-- Of two segments of one byte the first is filled. The failure behind it is returned, and the
byte is neither reported nor kept. -/
theorem not_recvReports_oneByte : ¬ RecvReports true oneByte [1, 1] true := by
  intro reports
  have nothing := (reports ⟨[[0], [0]], rfl⟩).nonpositive (by decide)
  cases nothing

end Sylar.SocketStream
