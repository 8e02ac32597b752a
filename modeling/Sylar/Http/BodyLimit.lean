import Sylar.Http.CutQueries
import Sylar.Http.Segmentation
import Sylar.Http.StreamHeads

/-!
# The limit of bodies

`HttpSession::recvRequest` with the `resize` of the body, which is given what the
header tells where the results of `read` cut it. `GetHttpRequestMaxBodySize()` is
not asked.
-/

namespace Sylar.Http

variable {σ : Type} (machine : Machine Act σ) (lexicalCast : List UInt8 → Option UInt64)

/-- The length of the body that a stream declares: the whole text of the field in the head that the
stream begins with, as a number, and 0 without that field. `none` when there is no head, or the text
is no number of 64 bits. -/
def declaredLength (stream : List UInt8) : Option Nat :=
  (machine.firstHead 0 machine.start .new stream).bind fun head =>
    let request := head.2.foldl (Token.apply (stream.take head.1) fun _ => 0) .new
    match request.headers[bytes "content-length"]? with
    | none => some 0
    | some text => (lexicalCast text).map UInt64.toNat

variable (buffSize maxSize limit : Nat)

/-- What is promised of a call with the limit of `GetHttpRequestMaxBodySize()`: no length beyond it
is given to `resize`, and the session is closed or the body has the length that is declared. -/
structure Bounded (connection : Connection) : Prop where
  resized : ∀ n, (recvRequestResized machine lexicalCast buffSize maxSize connection).resized =
    some n → n ≤ limit
  result :
    (recvRequestResized machine lexicalCast buffSize maxSize connection).result =
        .ok (none, []) ∨
      ∃ request rest n,
        (recvRequestResized machine lexicalCast buffSize maxSize connection).result =
          .ok (some request, rest) ∧
        declaredLength machine lexicalCast connection.flatten = some n ∧
        request.body.length = n ∧ n ≤ limit

/-- What the results of `read` leave of the head tells of a length within the limit that `resize`
takes, or of one that is negative as an `int64_t`; and the body that there is of this length has the
length that the stream declares. -/
def LengthKept (connection : Connection) : Prop :=
  ∀ left ∈ leftHead machine connection,
    let told := left.2.toldLength lexicalCast
    let available := connection.flatten.drop left.1
    (told < 2 ^ 63 → told ≤ limit ∧ told ≤ maxSize) ∧
      (BodyFound told ((skip left.1 connection).headD []).length available.length →
        declaredLength machine lexicalCast connection.flatten =
          some (foundBody told available).length)

instance (connection : Connection) :
    Decidable (LengthKept machine lexicalCast maxSize limit connection) :=
  inferInstanceAs (Decidable (∀ left ∈ leftHead machine connection, _))

variable {machine lexicalCast buffSize maxSize limit}

/-- Behind a head that is received, all depends on the length that is left of it. -/
theorem bounded_behind_iff {connection rest : Connection} {stop : Nat} {request : HttpRequest}
    {parser : HttpParser σ} {extra : List UInt8}
    (nonempty : ∀ result ∈ connection, result ≠ [])
    (left : leftHead machine connection = some (stop, request)) (empty : request.body = [])
    (skipped : skip stop connection = extra :: rest)
    (received : recvHead machine buffSize [] (.new machine) connection =
      .ok (some (⟨⟨request, 0⟩, parser⟩, extra), rest))
    (fits : (recvRequestResized machine lexicalCast buffSize maxSize connection).result ≠
      .error .overrun) :
    Bounded machine lexicalCast buffSize maxSize limit connection ↔
      LengthKept machine lexicalCast maxSize limit connection := by
  obtain ⟨n, told⟩ : ∃ n, request.toldLength lexicalCast = n := ⟨_, rfl⟩
  have length : ((⟨⟨request, 0⟩, parser⟩ : HttpRequestParser σ).getContentLength
      lexicalCast).toNat = n := told
  have word : n < 2 ^ 64 := told ▸ UInt64.toNat_lt _
  obtain ⟨available, behind⟩ : ∃ available, connection.flatten.drop stop = available := ⟨_, rfl⟩
  have stream : extra ++ rest.flatten = available := by
    rw [← behind, ← skip_flatten, skipped, List.flatten_cons]
  have others : ∀ result ∈ rest, result ≠ [] := fun result member =>
    nonempty result (List.mem_of_mem_tail ((skip_tail skipped).subset member))
  have call : recvRequestResized machine lexicalCast buffSize maxSize connection =
      { resized := if 0 < n ∧ n < 2 ^ 63 then some n else none
        result :=
          if maxSize < n ∧ n < 2 ^ 63 then .error .lengthError
          else recvContent request extra rest (Int.bmod n (2 ^ 64)) } :=
    (recvRequestResized_some received).trans (recvBodyResized_eq length)
  have kept : LengthKept machine lexicalCast maxSize limit connection ↔
      (n < 2 ^ 63 → n ≤ limit ∧ n ≤ maxSize) ∧
        (BodyFound n extra.length available.length →
          declaredLength machine lexicalCast connection.flatten =
            some (foundBody n available).length) := by
    unfold LengthKept
    rw [left]
    simp only [Option.mem_some_iff, forall_eq', skipped, List.headD_cons, told, behind]
  rw [kept]
  rw [call] at fits
  dsimp only at fits
  constructor
  · intro bounded
    have resized := bounded.resized
    have result := bounded.result
    rw [call] at resized result
    dsimp only at resized result
    have takes : ¬(maxSize < n ∧ n < 2 ^ 63) := by
      intro large
      rw [if_pos large] at result
      rcases result with closed | ⟨_, _, _, returned, _⟩
      · cases closed
      · cases returned
    rw [if_neg takes] at fits result
    refine ⟨fun small => ⟨?_, by omega⟩, fun found => ?_⟩
    · rcases Nat.eq_zero_or_pos n with rfl | positive
      · exact Nat.zero_le limit
      · exact resized n (if_pos ⟨positive, small⟩)
    · rcases recvContent_answer empty word others stream fits with
        ⟨_, after, ran⟩ | ⟨lost, _⟩
      · rw [ran] at result
        rcases result with closed | ⟨_, _, m, returned, declared, whole, _⟩
        · cases closed
        · cases returned
          rw [HttpRequest.init_body] at whole
          rw [declared, ← whole]
          rfl
      · exact absurd found lost
  · rintro ⟨within, declared⟩
    have takes : ¬(maxSize < n ∧ n < 2 ^ 63) := fun large =>
      Nat.not_le.mpr large.1 (within large.2).2
    rw [if_neg takes] at fits
    refine ⟨?_, ?_⟩
    · rw [call]
      dsimp only
      split
      · rename_i positive
        rintro _ ⟨⟩
        exact (within positive.2).1
      · exact nofun
    · rw [call]
      dsimp only
      rw [if_neg takes]
      rcases recvContent_answer empty word others stream fits with ⟨found, after, ran⟩ | ⟨_, closed⟩
      · refine .inr ⟨_, after, _, ran, declared found, ?_, ?_⟩
        · rw [HttpRequest.init_body]
          rfl
        · unfold foundBody
          split
          · rename_i small
            exact (List.length_take_le n available).trans (within small).1
          · exact Nat.zero_le limit
      · exact .inl closed

/-- A call closes the session or returns a body of the declared length, within the limit, if and
only if no query in the head ends in front of its start and the results of `read` keep the length
of the body. -/
theorem bounded_iff {known : σ → Marks → Prop} (orderly : OrderlyHeads machine known)
    (size : buffSize < 2 ^ 31) {connection : Connection}
    (nonempty : ∀ result ∈ connection, result ≠ [])
    (short : ∀ result ∈ connection, result.length < 2 ^ 63)
    (fits : (recvRequestResized machine lexicalCast buffSize maxSize connection).result ≠
      .error .overrun) :
    Bounded machine lexicalCast buffSize maxSize limit connection ↔
      cutsQuery machine buffSize (.new machine) connection = false ∧
        LengthKept machine lexicalCast maxSize limit connection := by
  have headFits := recvHead_fits_resized fits
  have throws := recvHead_throws_iff machine connection (by omega) (p := .new machine) rfl
    (by rintro start ⟨⟩) headFits
  rcases recvHead_left orderly size nonempty short headFits with
    ⟨stop, request, parser, extra, rest, left, empty, skipped, received⟩ |
    ⟨left, ⟨fault, thrown⟩ | closed⟩
  · rw [received] at throws
    have uncut := Bool.eq_false_iff.mpr (mt throws.mpr (not_error _))
    rw [uncut, eq_self, true_and]
    exact bounded_behind_iff nonempty left empty skipped received fits
  · have cut := throws.mp ⟨fault, thrown⟩
    rw [cut]
    refine iff_of_false (fun bounded => ?_) fun met => absurd met.1.symm Bool.false_ne_true
    have result := bounded.result
    simp only [recvRequestResized, thrown] at result
    rcases result with closed | ⟨_, _, _, returned, _⟩
    · cases closed
    · cases returned
  · rw [closed] at throws
    have uncut := Bool.eq_false_iff.mpr (mt throws.mpr (not_error _))
    have call : recvRequestResized machine lexicalCast buffSize maxSize connection =
        ⟨none, .ok (none, [])⟩ := by simp only [recvRequestResized, closed]
    refine iff_of_true ⟨?_, ?_⟩ ⟨uncut, ?_⟩
    · rw [call]
      rintro resized ⟨⟩
    · rw [call]
      exact .inl rfl
    · rw [LengthKept, left]
      rintro _ ⟨⟩

/-- A body of two bytes, under the default limit, with a read for the head and one for the body. -/
theorem bounded_iff_two :
    Bounded headMachine HttpConnection.decimal 4096 4611686018427387903 67108864
        [bytes "POST / HTTP/1.1\r\ncontent-length: 2\r\n\r\n", bytes "ab"] ∧
      cutsQuery headMachine 4096 (.new headMachine)
        [bytes "POST / HTTP/1.1\r\ncontent-length: 2\r\n\r\n", bytes "ab"] = false ∧
      LengthKept headMachine HttpConnection.decimal 4611686018427387903 67108864
        [bytes "POST / HTTP/1.1\r\ncontent-length: 2\r\n\r\n", bytes "ab"] := by
  have met : cutsQuery headMachine 4096 (.new headMachine)
        [bytes "POST / HTTP/1.1\r\ncontent-length: 2\r\n\r\n", bytes "ab"] = false ∧
      LengthKept headMachine HttpConnection.decimal 4611686018427387903 67108864
        [bytes "POST / HTTP/1.1\r\ncontent-length: 2\r\n\r\n", bytes "ab"] := by decide
  exact ⟨(bounded_iff headMachine_orderly (by decide) (by decide) (by decide) (by decide)).mpr met,
    met⟩

/-- The name of the field is cut, so that no length is told. -/
example : ¬LengthKept headMachine HttpConnection.decimal 4611686018427387903 67108864
    [bytes "POST / HTTP/1.1\r\nContent-Len", bytes "gth: 2\r\n\r\nab"] := by decide

/-- One byte more than the default limit, of which nothing was sent. -/
theorem unbounded_head :
    ¬Bounded headMachine HttpConnection.decimal 4096 4611686018427387903 67108864
      [bytes "POST / HTTP/1.1\r\ncontent-length: 67108865\r\n\r\n"] := by
  intro bounded
  have within : 67108865 ≤ 67108864 := bounded.resized 67108865 (by decide)
  exact absurd within (by decide)

end Sylar.Http
