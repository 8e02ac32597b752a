import Sylar.Stream.FixedSize

/-!
# Vectored transfers over TLS

`SSLSocket::recv` and `send` of an array of `iovec`, with the results of `SSL_read` and
`SSL_write` as a stream. The two go from one segment to the next while a segment is full. A
failure behind a full segment is returned in place of the bytes that were moved before it.
-/

namespace Sylar.SSLSocket

open Library Sylar.Stream

variable {σ : Type}

section Model

/-- What one call of `SSL_read` or `SSL_write` returns, what the segment holds then, and the
bytes that were moved. -/
structure Call (σ : Type) where
  tmp : Int
  buffer : List UInt8
  moved : List UInt8
  stream : σ

/-- What is returned, what the segments hold then, and all bytes that were moved. -/
structure Outcome (σ : Type) where
  result : Int
  buffers : List (List UInt8)
  moved : List UInt8
  stream : σ

/-- The loop that `recv` and `send` share. An `int` that overflows is taken to wrap. -/
def vectorLoop (call : List UInt8 → σ → Call σ) : List (List UInt8) → Int → σ → Outcome σ
  | [], total, s => ⟨total, [], [], s⟩
  | buffer :: buffers, total, s =>
      let answer := call buffer s
      if answer.tmp ≤ 0 then ⟨answer.tmp, answer.buffer :: buffers, answer.moved, answer.stream⟩
      else
        let total := toInt (total + answer.tmp)
        if answer.tmp ≠ toInt buffer.length then
          ⟨total, answer.buffer :: buffers, answer.moved, answer.stream⟩
        else
          let rest := vectorLoop call buffers total answer.stream
          ⟨rest.result, answer.buffer :: rest.buffers, answer.moved ++ rest.moved, rest.stream⟩

/-- The length that is asked for, an `int`. A negative one cannot be met. -/
def requested (iov_len : Nat) : Nat := (toInt iov_len).toNat

/-- `SSL_read` into a segment. -/
def sslRead (read : Reader σ) (buffer : List UInt8) (s : σ) : Call σ :=
  match read s (requested buffer.length) with
  | (.failed len _ _, stream) => ⟨len, buffer, [], stream⟩
  | (.data bytes _ _ _, stream) => ⟨bytes.length, overwrite buffer 0 bytes, bytes, stream⟩

/-- The results of `SSL_write`. -/
abbrev Acceptor (σ : Type) := σ → (requested : Nat) → WriteResult requested × σ

/-- `SSL_write` of a segment. -/
def sslWrite (accept : Acceptor σ) (buffer : List UInt8) (s : σ) : Call σ :=
  match accept s (requested buffer.length) with
  | (.failed len _ _, stream) => ⟨len, buffer, [], stream⟩
  | (.accepted count _ _ _, stream) => ⟨count, buffer, buffer.take count, stream⟩

/-- `recv(iovec* buffers, size_t length, int flags)`. `ssl` tells whether there is an `m_ssl`. -/
def recv (ssl : Bool) (read : Reader σ) (buffers : List (List UInt8)) (s : σ) : Outcome σ :=
  if !ssl then ⟨-1, buffers, [], s⟩ else vectorLoop (sslRead read) buffers 0 s

/-- `send(const iovec* buffers, size_t length, int flags)`. -/
def send (ssl : Bool) (accept : Acceptor σ) (buffers : List (List UInt8)) (s : σ) : Outcome σ :=
  if !ssl then ⟨-1, buffers, [], s⟩ else vectorLoop (sslWrite accept) buffers 0 s

end Model

section Claims

/-- A positive result is the number of bytes that were moved, which are the first bytes of the
segments, and any other tells that none was. -/
structure Reports (outcome : Outcome σ) : Prop where
  positive_iff : ∀ n : Nat, 0 < n → (outcome.result = n ↔
    outcome.moved.length = n ∧ outcome.buffers.flatten.take n = outcome.moved)
  nonpositive : outcome.result ≤ 0 → outcome.moved = []

/-- Segments of some lengths. -/
abbrev Segments (lengths : List Nat) :=
  { buffers : List (List UInt8) // buffers.map List.length = lengths }

/-- How many bytes each call moves, and `none` for a failure. -/
abbrev Counts (σ : Type) := σ → Nat → Option Nat × σ

/-- How many bytes the calls of `recv` give. -/
def readCounts (read : Reader σ) : Counts σ := fun s requested =>
  match read s requested with
  | (.failed _ _ _, stream) => (none, stream)
  | (.data bytes _ _ _, stream) => (some bytes.length, stream)

/-- How many bytes the calls of `send` take. -/
def acceptCounts (accept : Acceptor σ) : Counts σ := fun s requested =>
  match accept s requested with
  | (.failed _ _ _, stream) => (none, stream)
  | (.accepted count _ _ _, stream) => (some count, stream)

/-- No call fails after bytes were moved, these are fewer than 2^31, and a segment that is not
filled as it is longer than an `int` is the last. `total` bytes were moved before. -/
def Lossless (counts : Counts σ) : (total : Nat) → List Nat → σ → Prop
  | total, [], _ => total < 2 ^ 31
  | total, iov_len :: lengths, s =>
      match counts s (requested iov_len) with
      | (none, _) => total = 0
      | (some count, t) =>
          if (count : Int) = toInt iov_len then
            (lengths ≠ [] → iov_len < 2 ^ 31) ∧ Lossless counts (total + count) lengths t
          else total + count < 2 ^ 31

instance decidableLossless (counts : Counts σ) :
    ∀ total lengths s, Decidable (Lossless counts total lengths s)
  | total, [], _ => inferInstanceAs (Decidable (total < 2 ^ 31))
  | total, iov_len :: lengths, s =>
      match answer : counts s (requested iov_len) with
      | (none, _) => decidable_of_iff (total = 0) (by rw [Lossless, answer])
      | (some count, t) =>
          have := decidableLossless counts (total + count) lengths t
          decidable_of_iff (if (count : Int) = toInt iov_len then
            (lengths ≠ [] → iov_len < 2 ^ 31) ∧ Lossless counts (total + count) lengths t
            else total + count < 2 ^ 31) (by rw [Lossless, answer])

end Claims

/-! ### One call -/

/-- A call moves as many bytes as `counts` says, to or from the front of its segment. -/
structure Follows (counts : Counts σ) (call : List UInt8 → σ → Call σ) : Prop where
  failed : ∀ {buffer s t}, counts s (requested buffer.length) = (none, t) →
    ∃ len ≤ 0, call buffer s = ⟨len, buffer, [], t⟩
  moved : ∀ {buffer s t count}, counts s (requested buffer.length) = (some count, t) →
    (0 < count ∧ count ≤ buffer.length) ∧ ∃ front : List UInt8, front.length = count ∧
      call buffer s = ⟨count, front ++ buffer.drop count, front, t⟩

theorem requested_le (iov_len : Nat) : requested iov_len ≤ iov_len := by
  unfold requested toInt
  rw [Int.bmod_def]
  omega

theorem follows_read (read : Reader σ) : Follows (readCounts read) (sslRead read) where
  failed {buffer s t} counted := by
    unfold readCounts at counted
    unfold sslRead
    split at counted
    · rename_i len nonpositive _ stream answer
      cases counted
      rw [answer]
      exact ⟨len, nonpositive, rfl⟩
    · cases counted
  moved {buffer s t count} counted := by
    unfold readCounts at counted
    unfold sslRead
    split at counted
    · cases counted
    · rename_i bytes nonempty fits _ stream answer
      cases counted
      rw [answer]
      have inside := Nat.le_trans fits (requested_le buffer.length)
      refine ⟨⟨List.length_pos_iff.2 nonempty, inside⟩, bytes, rfl, ?_⟩
      simp only [overwrite, List.take_zero, List.nil_append, Nat.zero_add]

theorem follows_accept (accept : Acceptor σ) : Follows (acceptCounts accept) (sslWrite accept) where
  failed {buffer s t} counted := by
    unfold acceptCounts at counted
    unfold sslWrite
    split at counted
    · rename_i len nonpositive _ stream answer
      cases counted
      rw [answer]
      exact ⟨len, nonpositive, rfl⟩
    · cases counted
  moved {buffer s t count} counted := by
    unfold acceptCounts at counted
    unfold sslWrite
    split at counted
    · cases counted
    · rename_i number nonzero fits _ stream answer
      cases counted
      rw [answer]
      have inside := Nat.le_trans fits (requested_le buffer.length)
      refine ⟨⟨Nat.pos_of_ne_zero nonzero, inside⟩, buffer.take count, ?_, ?_⟩
      · rw [List.length_take, Nat.min_eq_left inside]
      · simp only [List.take_append_drop]

/-! ### The loop -/

/-- What the rest of the loop does after `total` bytes agrees with what it returns. -/
def Agrees (total : Nat) (outcome : Outcome σ) : Prop :=
  (outcome.result = (total + outcome.moved.length : Nat) ∧
      outcome.buffers.flatten.take outcome.moved.length = outcome.moved) ∨
    (outcome.result ≤ 0 ∧ total = 0 ∧ outcome.moved = [])

theorem reports_iff (outcome : Outcome σ) : Reports outcome ↔ Agrees 0 outcome := by
  constructor
  · rintro ⟨positive, nonpositive⟩
    by_cases some_ : 0 < outcome.result
    · have whole : (outcome.result.toNat : Int) = outcome.result :=
        Int.toNat_of_nonneg (Int.le_of_lt some_)
      obtain ⟨length, front⟩ := (positive outcome.result.toNat (by omega)).1 whole.symm
      rw [← length] at front whole
      exact .inl ⟨by omega, front⟩
    · exact .inr ⟨Int.not_lt.1 some_, rfl, nonpositive (Int.not_lt.1 some_)⟩
  · rintro (⟨result, front⟩ | ⟨nonpositive, -, nothing⟩)
    · refine ⟨fun n some_ => ⟨fun same => ?_, fun same => by omega⟩, fun nonpositive => ?_⟩
      · have length : outcome.moved.length = n := by omega
        exact ⟨length, length ▸ front⟩
      · exact List.length_eq_zero_iff.1 (by omega)
    · refine ⟨fun n some_ => ⟨fun same => by omega, fun same => ?_⟩, fun _ => nothing⟩
      rw [nothing, List.length_nil] at same
      omega

theorem toInt_natCast_eq (n : Nat) : toInt n = n ↔ n < 2 ^ 31 := by
  unfold toInt
  rw [Int.bmod_def]
  omega

theorem toInt_add (total count : Nat) :
    toInt (toInt total + count) = toInt (total + count : Nat) := by
  unfold toInt
  rw [Int.bmod_add_bmod, Nat.cast_add]

variable {counts : Counts σ} {call : List UInt8 → σ → Call σ} {total iov_len count : Nat}
  {buffer : List UInt8} {buffers : List (List UInt8)} {lengths : List Nat} {s t : σ}

/-- A round that fails. -/
theorem agrees_failed (follows : Follows counts call)
    (counted : counts s (requested buffer.length) = (none, t)) :
    Agrees total (vectorLoop call (buffer :: buffers) (toInt total) s) ↔ total = 0 := by
  obtain ⟨len, nonpositive, answer⟩ := follows.failed counted
  simp only [vectorLoop, answer, if_pos nonpositive, Agrees, List.length_nil, Nat.add_zero]
  constructor
  · rintro (⟨same, -⟩ | ⟨-, none_, -⟩)
    · omega
    · exact none_
  · rintro rfl
    exact .inr ⟨nonpositive, rfl, trivial⟩

/-- A round that is the last to move bytes. -/
theorem agrees_last {front rest : List UInt8} (some_ : 0 < front.length) :
    Agrees total ⟨toInt (total + front.length : Nat), (front ++ rest) :: buffers, front, t⟩ ↔
      total + front.length < 2 ^ 31 := by
  have taken : ((front ++ rest) :: buffers).flatten.take front.length = front := by
    rw [List.flatten_cons, List.append_assoc, List.take_left]
  simp only [Agrees, toInt_natCast_eq, taken, and_true]
  constructor
  · rintro (bounded | ⟨-, -, empty⟩)
    · exact bounded
    · rw [empty, List.length_nil] at some_
      omega
  · exact .inl

theorem agrees_short (follows : Follows counts call)
    (counted : counts s (requested buffer.length) = (some count, t))
    (short : (count : Int) ≠ toInt buffer.length) :
    Agrees total (vectorLoop call (buffer :: buffers) (toInt total) s) ↔
      total + count < 2 ^ 31 := by
  obtain ⟨⟨some_, inside⟩, front, rfl, answer⟩ := follows.moved counted
  have going : ¬ (front.length : Int) ≤ 0 := by omega
  simp only [vectorLoop, answer, if_neg going, if_pos short, toInt_add]
  exact agrees_last some_

/-- What a round that goes on returns. -/
theorem vectorLoop_full {front : List UInt8} {sum : Int} (some_ : 0 < front.length)
    (answer : call buffer s = ⟨front.length, front ++ buffer.drop front.length, front, t⟩)
    (full : (front.length : Int) = toInt buffer.length) :
    vectorLoop call (buffer :: buffers) sum s =
      let rest := vectorLoop call buffers (toInt (sum + front.length)) t
      ⟨rest.result, (front ++ buffer.drop front.length) :: rest.buffers, front ++ rest.moved,
        rest.stream⟩ := by
  have going : ¬ (front.length : Int) ≤ 0 := by omega
  simp only [vectorLoop, answer, if_neg going, if_neg (not_not.2 full)]

/-- What one round does: it fails, it is the last to move bytes, or it fills its segment. -/
theorem vectorLoop_cons (follows : Follows counts call) (buffer : List UInt8)
    (buffers : List (List UInt8)) (sum : Int) (s : σ) :
    (∃ len ≤ 0, ∃ t, counts s (requested buffer.length) = (none, t) ∧
      vectorLoop call (buffer :: buffers) sum s = ⟨len, buffer :: buffers, [], t⟩) ∨
    ∃ front : List UInt8, (0 < front.length ∧ front.length ≤ buffer.length) ∧
      ∃ t, counts s (requested buffer.length) = (some front.length, t) ∧
        (((front.length : Int) ≠ toInt buffer.length ∧
            vectorLoop call (buffer :: buffers) sum s =
              ⟨toInt (sum + front.length), (front ++ buffer.drop front.length) :: buffers, front,
                t⟩) ∨
          ((front.length : Int) = toInt buffer.length ∧
            vectorLoop call (buffer :: buffers) sum s =
              let rest := vectorLoop call buffers (toInt (sum + front.length)) t
              ⟨rest.result, (front ++ buffer.drop front.length) :: rest.buffers,
                front ++ rest.moved, rest.stream⟩)) := by
  cases counted : counts s (requested buffer.length) with
  | mk answer t =>
      cases answer with
      | none =>
          obtain ⟨len, nonpositive, answer⟩ := follows.failed counted
          refine .inl ⟨len, nonpositive, t, rfl, ?_⟩
          simp only [vectorLoop, answer, if_pos nonpositive]
      | some count =>
          obtain ⟨bounds, front, rfl, answer⟩ := follows.moved counted
          refine .inr ⟨front, bounds, t, rfl, ?_⟩
          have going : ¬ (front.length : Int) ≤ 0 := by omega
          by_cases full : (front.length : Int) = toInt buffer.length
          · exact .inr ⟨full, vectorLoop_full bounds.1 answer full⟩
          · refine .inl ⟨full, ?_⟩
            simp only [vectorLoop, answer, if_neg going, if_pos full]

/-- A segment that is filled leaves the rest of the loop to agree. -/
theorem agrees_full (follows : Follows counts call)
    (counted : counts s (requested buffer.length) = (some count, t))
    (full : (count : Int) = toInt buffer.length) (int : buffer.length < 2 ^ 31) :
    Agrees total (vectorLoop call (buffer :: buffers) (toInt total) s) ↔
      Agrees (total + count) (vectorLoop call buffers (toInt (total + count : Nat)) t) := by
  obtain ⟨⟨some_, inside⟩, front, rfl, answer⟩ := follows.moved counted
  have whole : buffer.drop front.length = [] := by
    rw [(toInt_natCast_eq _).2 int] at full
    exact List.drop_eq_nil_of_le (by omega)
  rw [vectorLoop_full some_ answer full, toInt_add, whole, List.append_nil]
  generalize vectorLoop call buffers (toInt (total + front.length : Nat)) t = rest
  simp only [Agrees, List.length_append, List.flatten_cons, List.take_length_add_append,
    List.append_cancel_left_eq, Nat.add_assoc, List.append_eq_nil_iff, Nat.add_eq_zero_iff,
    List.length_eq_zero_iff]
  have nonempty : front ≠ [] := List.length_pos_iff.1 some_
  simp only [nonempty, false_and, and_false, or_false]

/-- A round over segments moves something, or fails. -/
theorem vectorLoop_nothing (follows : Follows counts call) (sum : Int) (s : σ)
    (some_ : buffers ≠ []) (nothing : (vectorLoop call buffers sum s).moved = []) :
    (vectorLoop call buffers sum s).result ≤ 0 := by
  obtain ⟨buffer, buffers, rfl⟩ := List.exists_cons_of_ne_nil some_
  rcases vectorLoop_cons follows buffer buffers sum s with
    ⟨len, nonpositive, t, -, ran⟩ | ⟨front, ⟨positive, -⟩, t, -, ⟨-, ran⟩ | ⟨-, ran⟩⟩
  · rw [ran]
    exact nonpositive
  · rw [ran] at nothing
    exact absurd nothing (List.length_pos_iff.1 positive)
  · rw [ran] at nothing
    exact absurd (List.append_eq_nil_iff.1 nothing).1 (List.length_pos_iff.1 positive)

/-- A segment that is taken for filled may hold other bytes than those that come next. -/
theorem not_agrees_gap (total : Nat) (follows : Follows counts call)
    (counted : counts s (requested iov_len) = (some count, t)) (gap : count < iov_len)
    (full : (count : Int) = toInt iov_len) (some_ : buffers ≠ []) :
    ∃ buffer : List UInt8, buffer.length = iov_len ∧
      ¬ Agrees total (vectorLoop call (buffer :: buffers) (toInt total) s) := by
  -- What the loop does behind the segment does not depend on what the segment holds.
  have nothing := vectorLoop_nothing follows (toInt (total + count : Nat)) t some_
  generalize behind : vectorLoop call buffers (toInt (total + count : Nat)) t = rest at nothing
  have filled (buffer : List UInt8) (length : buffer.length = iov_len) :
      ∃ front : List UInt8, (0 < front.length ∧ front.length = count) ∧
        vectorLoop call (buffer :: buffers) (toInt total) s =
          ⟨rest.result, (front ++ buffer.drop front.length) :: rest.buffers,
            front ++ rest.moved, rest.stream⟩ := by
    rw [← length] at counted full
    obtain ⟨⟨positive, inside⟩, front, rfl, answer⟩ := follows.moved counted
    rw [vectorLoop_full positive answer full, toInt_add, behind]
    exact ⟨front, ⟨positive, rfl⟩, rfl⟩
  cases moved : rest.moved with
  | nil =>
      refine ⟨List.replicate iov_len 0, List.length_replicate, ?_⟩
      obtain ⟨front, ⟨positive, -⟩, ran⟩ := filled _ List.length_replicate
      rw [ran, Agrees, moved, List.append_nil]
      have failed := nothing moved
      rintro (⟨same, -⟩ | ⟨-, -, empty⟩)
      · simp only at same
        omega
      · rw [List.length_eq_zero_iff.2 empty] at positive
        omega
  | cons byte more =>
      refine ⟨List.replicate iov_len (byte + 1), List.length_replicate, ?_⟩
      obtain ⟨front, ⟨positive, length⟩, ran⟩ := filled _ List.length_replicate
      rw [ran, Agrees, moved]
      rintro (⟨-, same⟩ | ⟨-, -, empty⟩)
      · have room : iov_len - front.length = iov_len - front.length - 1 + 1 := by omega
        simp only [List.flatten_cons, List.append_assoc, List.length_append,
          List.take_length_add_append, List.append_cancel_left_eq, List.length_cons,
          List.drop_replicate] at same
        rw [room, List.replicate_succ, List.cons_append, List.take_succ_cons] at same
        exact add_one_ne byte (List.cons.inj same).1
      · exact absurd (List.append_eq_nil_iff.1 empty).2 (List.cons_ne_nil _ _)

/-- Segments of zeros. -/
def zeroSegments (lengths : List Nat) : Segments lengths :=
  ⟨lengths.map (List.replicate · 0), by simp [Function.comp_def]⟩

theorem forall_segments_cons (property : List (List UInt8) → Prop) :
    (∀ segments : Segments (iov_len :: lengths), property segments.1) ↔
      ∀ buffer, buffer.length = iov_len → ∀ segments : Segments lengths,
        property (buffer :: segments.1) := by
  constructor
  · rintro all buffer rfl ⟨segments, rfl⟩
    exact all ⟨buffer :: segments, rfl⟩
  · rintro all ⟨segments, shape⟩
    obtain ⟨buffer, buffers, rfl, length, rest⟩ := List.map_eq_cons_iff.1 shape
    exact all buffer length ⟨buffers, rest⟩

/-- What does not depend on the segments holds of all if and only if it holds. -/
theorem forall_segments_iff (property : List (List UInt8) → Prop) {condition : Prop}
    (each : ∀ buffer, buffer.length = iov_len → ∀ segments : Segments lengths,
      (property (buffer :: segments.1) ↔ condition)) :
    (∀ segments : Segments (iov_len :: lengths), property segments.1) ↔ condition := by
  rw [forall_segments_cons]
  constructor
  · intro all
    have length : (List.replicate iov_len (0 : UInt8)).length = iov_len := List.length_replicate
    exact (each _ length (zeroSegments lengths)).1 (all _ length (zeroSegments lengths))
  · intro holds buffer length segments
    exact (each buffer length segments).2 holds

/-- A segment that is longer than an `int` and taken for filled is to be the last. -/
theorem agrees_long (follows : Follows counts call)
    (counted : counts s (requested iov_len) = (some count, t))
    (full : (count : Int) = toInt iov_len) (long : ¬ iov_len < 2 ^ 31) :
    (∀ segments : Segments (iov_len :: lengths),
        Agrees total (vectorLoop call segments.1 (toInt total) s)) ↔
      (lengths ≠ [] → iov_len < 2 ^ 31) ∧ Lossless counts (total + count) lengths t := by
  let agrees := fun buffers => Agrees total (vectorLoop call buffers (toInt total) s)
  by_cases last : lengths = []
  · subst last
    rw [and_iff_right fun more => absurd rfl more]
    refine forall_segments_iff agrees fun buffer length segments => ?_
    rw [← length] at counted full
    obtain ⟨⟨some_, -⟩, front, rfl, answer⟩ := follows.moved counted
    have only : segments.1 = [] := List.map_eq_nil_iff.1 segments.2
    simp only [agrees, only]
    rw [vectorLoop_full some_ answer full, toInt_add]
    simp only [vectorLoop, List.append_nil]
    exact agrees_last some_
  · refine iff_of_false (fun all => ?_) fun lossless => long (lossless.1 last)
    have short : count < iov_len := by
      have below : toInt iov_len < 2 ^ 31 := by
        unfold toInt
        rw [Int.bmod_def]
        omega
      omega
    have more : (zeroSegments lengths).1 ≠ [] := by
      simpa [zeroSegments] using last
    obtain ⟨buffer, length, gap⟩ := not_agrees_gap total follows counted short full more
    exact gap (((forall_segments_cons agrees).1 all) buffer length (zeroSegments lengths))

/-- The loop agrees with what it does on all segments of some lengths if and only if the results
lose nothing. -/
theorem agrees_iff_lossless (follows : Follows counts call) (total : Nat) (lengths : List Nat)
    (s : σ) :
    (∀ segments : Segments lengths, Agrees total (vectorLoop call segments.1 (toInt total) s)) ↔
      Lossless counts total lengths s := by
  induction lengths generalizing total s with
  | nil =>
      have only : ∀ segments : Segments [], segments.1 = [] := fun segments =>
        List.map_eq_nil_iff.1 segments.2
      simp only [only, vectorLoop, Lossless, Agrees, List.length_nil, Nat.add_zero,
        toInt_natCast_eq, List.take_zero, and_true]
      refine ⟨fun agrees => ?_, fun bounded _ => .inl bounded⟩
      rcases agrees ⟨[], rfl⟩ with bounded | ⟨-, rfl⟩
      · exact bounded
      · decide
  | cons iov_len lengths inductionHypothesis =>
      let agrees := fun buffers => Agrees total (vectorLoop call buffers (toInt total) s)
      rw [Lossless]
      cases counted : counts s (requested iov_len) with
      | mk answer t =>
          cases answer with
          | none =>
              refine forall_segments_iff agrees fun buffer length segments => ?_
              rw [← length] at counted
              exact agrees_failed follows counted
          | some count =>
              simp only
              by_cases full : (count : Int) = toInt iov_len
              · rw [if_pos full]
                by_cases int : iov_len < 2 ^ 31
                · have each (buffer : List UInt8) (length : buffer.length = iov_len)
                      (segments : Segments lengths) := by
                    rw [← length] at counted full int
                    exact @agrees_full _ _ _ total _ _ segments.1 _ _ follows counted full int
                  have size : (List.replicate iov_len (0 : UInt8)).length = iov_len :=
                    List.length_replicate
                  rw [and_iff_right fun _ => int, ← inductionHypothesis,
                    forall_segments_cons agrees]
                  exact ⟨fun all segments => (each _ size segments).1 (all _ size segments),
                    fun all buffer length segments => (each buffer length segments).2
                      (all segments)⟩
                · exact agrees_long follows counted full int
              · rw [if_neg full]
                refine forall_segments_iff agrees fun buffer length segments => ?_
                rw [← length] at counted full
                exact agrees_short follows counted full

theorem length_moved_le (follows : Follows counts call) (buffers : List (List UInt8)) (sum : Int)
    (s : σ) : (vectorLoop call buffers sum s).moved.length ≤ buffers.flatten.length := by
  induction buffers generalizing sum s with
  | nil => exact Nat.le_refl _
  | cons buffer buffers inductionHypothesis =>
      rw [List.flatten_cons, List.length_append]
      rcases vectorLoop_cons follows buffer buffers sum s with
        ⟨len, -, t, -, ran⟩ | ⟨front, ⟨-, inside⟩, t, -, ⟨-, ran⟩ | ⟨-, ran⟩⟩
      · rw [ran]
        exact Nat.zero_le _
      · rw [ran]
        simp only
        omega
      · have behind := inductionHypothesis (toInt (sum + front.length)) t
        rw [ran]
        simp only [List.length_append]
        omega

/-- The segments keep their lengths. -/
theorem map_length_vectorLoop (follows : Follows counts call) (buffers : List (List UInt8))
    (sum : Int) (s : σ) :
    (vectorLoop call buffers sum s).buffers.map List.length = buffers.map List.length := by
  induction buffers generalizing sum s with
  | nil => rfl
  | cons buffer buffers inductionHypothesis =>
      rcases vectorLoop_cons follows buffer buffers sum s with
        ⟨len, -, t, -, ran⟩ | ⟨front, ⟨-, inside⟩, t, -, last⟩
      · rw [ran]
      · have kept : (front ++ buffer.drop front.length).length = buffer.length := by
          rw [List.length_append, List.length_drop]
          omega
        rcases last with ⟨-, ran⟩ | ⟨-, ran⟩
        · simp only [ran, List.map_cons, kept]
        · simp only [ran, List.map_cons, kept, inductionHypothesis]

/-- Behind the bytes that were moved the segments hold what they held. -/
theorem flatten_of_lossless (follows : Follows counts call) (sum : Int)
    (lossless : Lossless counts total (buffers.map List.length) s) :
    (vectorLoop call buffers sum s).buffers.flatten =
      (vectorLoop call buffers sum s).moved ++
        buffers.flatten.drop (vectorLoop call buffers sum s).moved.length := by
  induction buffers generalizing total sum s with
  | nil => rfl
  | cons buffer buffers inductionHypothesis =>
      rw [List.map_cons, Lossless] at lossless
      rcases vectorLoop_cons follows buffer buffers sum s with
        ⟨len, -, t, -, ran⟩ | ⟨front, ⟨-, inside⟩, t, counted, ⟨-, ran⟩ | ⟨full, ran⟩⟩
      · rw [ran]
        rfl
      · simp only [ran, List.flatten_cons, List.drop_append_of_le_length inside,
          List.append_assoc]
      · rw [counted] at lossless
        simp only [if_pos full] at lossless
        have behind := inductionHypothesis (toInt (sum + front.length)) lossless.2
        simp only [ran, List.flatten_cons, behind, List.append_assoc, List.length_append]
        cases buffers with
        | nil => simp [vectorLoop]
        | cons next more =>
            have int := lossless.1 (List.cons_ne_nil _ _)
            rw [(toInt_natCast_eq _).2 int] at full
            have whole : buffer.length = front.length := by omega
            rw [List.drop_eq_nil_of_le (Nat.le_of_eq whole), ← whole, List.drop_length_add_append]
            rfl

/-- What was moved is at the front of the segments, when no segment is longer than an `int`. -/
theorem take_flatten_vectorLoop (follows : Follows counts call) (buffers : List (List UInt8))
    (sum : Int) (s : σ) (int : ∀ iov_len ∈ buffers.map List.length, iov_len < 2 ^ 31) :
    (vectorLoop call buffers sum s).buffers.flatten.take
      (vectorLoop call buffers sum s).moved.length = (vectorLoop call buffers sum s).moved := by
  induction buffers generalizing sum s with
  | nil => rfl
  | cons buffer buffers inductionHypothesis =>
      rw [List.map_cons, List.forall_mem_cons] at int
      rcases vectorLoop_cons follows buffer buffers sum s with
        ⟨len, -, t, -, ran⟩ | ⟨front, ⟨-, inside⟩, t, -, ⟨-, ran⟩ | ⟨full, ran⟩⟩
      · simp only [ran, List.length_nil, List.take_zero]
      · simp only [ran, List.flatten_cons, List.append_assoc, List.take_left]
      · have behind := inductionHypothesis (toInt (sum + front.length)) t int.2
        rw [(toInt_natCast_eq _).2 int.1] at full
        rw [ran, List.drop_eq_nil_of_le (by omega), List.append_nil]
        simp only [List.flatten_cons, List.length_append, List.take_length_add_append]
        rw [behind]

/-- Over segments that are no longer than an `int` the loop agrees with what it does, whatever
they hold, if and only if the results lose nothing. -/
theorem agrees_iff_int (follows : Follows counts call) (total : Nat)
    (int : ∀ iov_len ∈ buffers.map List.length, iov_len < 2 ^ 31) :
    Agrees total (vectorLoop call buffers (toInt total) s) ↔
      Lossless counts total (buffers.map List.length) s := by
  induction buffers generalizing total s with
  | nil =>
      simp only [vectorLoop, List.map_nil, Lossless, Agrees, List.length_nil, Nat.add_zero,
        toInt_natCast_eq, List.take_zero, and_true]
      refine ⟨fun agrees => ?_, .inl⟩
      rcases agrees with bounded | ⟨-, rfl⟩
      · exact bounded
      · decide
  | cons buffer buffers inductionHypothesis =>
      rw [List.map_cons, List.forall_mem_cons] at int
      rw [List.map_cons, Lossless]
      cases counted : counts s (requested buffer.length) with
      | mk answer t =>
          cases answer with
          | none => exact agrees_failed follows counted
          | some count =>
              simp only
              by_cases full : (count : Int) = toInt buffer.length
              · rw [if_pos full, and_iff_right fun _ => int.1, ← inductionHypothesis _ int.2]
                exact agrees_full follows counted full int.1
              · rw [if_neg full]
                exact agrees_short follows counted full

/-! ### Receiving and sending -/

/-- `recv` reports what it received, for every content of the segments. -/
def RecvReports (ssl : Bool) (read : Reader σ) (lengths : List Nat) (s : σ) : Prop :=
  ∀ segments : Segments lengths, Reports (recv ssl read segments.1 s)

/-- `send` reports what it sent, for every content of the segments. -/
def SendReports (ssl : Bool) (accept : Acceptor σ) (lengths : List Nat) (s : σ) : Prop :=
  ∀ segments : Segments lengths, Reports (send ssl accept segments.1 s)

/-- Without a connection nothing is moved. -/
theorem reports_closed (buffers : List (List UInt8)) (s : σ) :
    Reports (⟨-1, buffers, [], s⟩ : Outcome σ) where
  positive_iff n some_ := by
    refine ⟨fun same => by simp only at same; omega, fun same => ?_⟩
    simp only [List.length_nil] at same
    omega
  nonpositive _ := rfl

theorem recvReports_iff (ssl : Bool) (read : Reader σ) (lengths : List Nat) (s : σ) :
    RecvReports ssl read lengths s ↔ (ssl = true → Lossless (readCounts read) 0 lengths s) := by
  rw [RecvReports, ← agrees_iff_lossless (follows_read read)]
  cases ssl with
  | false => exact iff_of_true (fun segments => reports_closed segments.1 s) nofun
  | true =>
      simp only [true_imp_iff, reports_iff]
      rfl

theorem sendReports_iff (ssl : Bool) (accept : Acceptor σ) (lengths : List Nat) (s : σ) :
    SendReports ssl accept lengths s ↔
      (ssl = true → Lossless (acceptCounts accept) 0 lengths s) := by
  rw [SendReports, ← agrees_iff_lossless (follows_accept accept)]
  cases ssl with
  | false => exact iff_of_true (fun segments => reports_closed segments.1 s) nofun
  | true =>
      simp only [true_imp_iff, reports_iff]
      rfl

end Sylar.SSLSocket
