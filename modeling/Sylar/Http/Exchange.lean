import Mathlib.Data.List.Forall2
import Sylar.Http.ResponseRoundTrip

/-!
# The exchange on one connection

`HttpServer::handleClient`, which answers the requests of a connection in their order until
one of them closes it, and what the client makes of the answers.
-/

namespace Sylar.Http

namespace HttpServer

/-- The response to a request. The call of the dispatcher is a comment in the source. -/
def respond (name : List UInt8) (request : HttpRequest) : HttpResponse :=
  (HttpResponse.new.setVersion request.version).setHeader (bytes "Server") name

/-- `m_close` of the response. -/
def closes (keepalive : Bool) (request : HttpRequest) : Bool := request.close || !keepalive

/-- The text that `sendResponse` writes. -/
def sendResponse (keepalive : Bool) (name : List UInt8) (request : HttpRequest) : List UInt8 :=
  (respond name request).dump (closes keepalive request) false []

section

variable {σ : Type} (machine : Machine Act σ) (lexicalCast : List UInt8 → Option UInt64)
  (buffSize : Nat) (keepalive : Bool) (name : List UInt8)

/-- `handleClient`: the texts that are sent, in at most as many rounds as `fuel`. The result of
`sendResponse` is not looked at. -/
def handleClient : Nat → Connection → Except Fault (List (List UInt8))
  | 0, _ => throw .outOfFuel
  | fuel + 1, connection => do
      match ← recvRequest machine lexicalCast buffSize connection with
      | (none, _) => return []
      | (some request, connection) =>
          let sent := sendResponse keepalive name request
          if !keepalive || request.close then return [sent]
          else return sent :: (← handleClient fuel connection)

end

/-- The requests up to the first one that closes the connection. -/
def served (keepalive : Bool) : List HttpRequest → List HttpRequest
  | [] => []
  | request :: rest =>
      if closes keepalive request then [request] else request :: served keepalive rest

/-- A request and the results of `read` in which it arrives. The head comes with the first of them,
and of the body no more is left than `readFixSize` can read. -/
structure Arrives (buffSize : Nat) (request : HttpRequest) (block : Connection) : Prop where
  stream : block.flatten = request.dump false
  nonempty : ∀ result ∈ block, result ≠ []
  whole : (request.dumpHead false).length ≤ (block.headD []).length
  fitsBuffer : (request.dumpHead false).length ≤ buffSize
  body : request.body = [] ∨ request.body.length < 2 ^ 63 ∧
    (block.tail = [] ∨ 0 < toInt block.tail.flatten.length)

end HttpServer

/-- What is skipped with the last result of a block is empty. -/
theorem skip_block {block : Connection} (some_ : block ≠ [])
    (nonempty : ∀ result ∈ block, result ≠ []) (later : Connection) :
    skip block.flatten.length (block ++ later) = [] :: later := by
  induction block with
  | nil => exact absurd rfl some_
  | cons result rest inductionHypothesis =>
      obtain ⟨_, others⟩ := List.forall_mem_cons.mp nonempty
      rw [List.flatten_cons, List.length_append, List.cons_append, skip]
      cases rest with
      | nil =>
          rw [List.flatten_nil, List.length_nil, Nat.add_zero, if_pos (Nat.le_refl _),
            List.drop_length, List.nil_append]
      | cons next rest =>
          have more := List.length_pos_iff.mpr (others next List.mem_cons_self)
          rw [List.flatten_cons, List.length_append, if_neg (by omega), Nat.add_sub_cancel_left,
            ← List.length_append, ← List.flatten_cons]
          exact inductionHypothesis (List.cons_ne_nil _ _) others

namespace HttpServer

variable {σ τ : Type} {machine : Machine Act σ} {client : Machine ClientAct τ}
  {lexicalCast : List UInt8 → Option UInt64} {buffSize : Nat} {keepalive : Bool}
  {name : List UInt8} {request : HttpRequest} {block : Connection}

/-- The body is read. -/
theorem Arrives.bodyRead {first : List UInt8} {rest : Connection}
    (arrives : Arrives buffSize request (first :: rest)) :
    BodyRead request.body.length (first.length - (request.dumpHead false).length) := by
  have lengths := congrArg List.length arrives.stream
  have whole : (request.dumpHead false).length ≤ first.length := arrives.whole
  rw [List.flatten_cons, List.length_append, HttpRequest.dump, List.length_append] at lengths
  have left : request.body.length - (first.length - (request.dumpHead false).length) =
      rest.flatten.length := by omega
  rw [BodyRead, left]
  rcases arrives.body with empty | ⟨signed, done | more⟩
  · exact .inl (List.length_eq_zero_iff.mpr empty)
  · refine .inr ⟨signed, .inl ?_⟩
    have done : rest = [] := done
    rw [done, List.flatten_nil, List.length_nil] at lengths
    omega
  · exact .inr ⟨signed, .inr more⟩

/-- A request that arrives is received, and nothing of what comes later is touched. -/
theorem Arrives.received (arrives : Arrives buffSize request block)
    (sendable : request.Sendable) (splits : SplitsHeads machine)
    (casts : HttpRequest.CastsNumbers lexicalCast) (size : buffSize < 2 ^ 31)
    {later : Connection} (nonempty : ∀ result ∈ later, result ≠ [])
    (fits : recvRequest machine lexicalCast buffSize (block ++ later) ≠ .error .overrun) :
    recvRequest machine lexicalCast buffSize (block ++ later) =
      .ok (some { request with headers := request.dumpHeaders }, later) := by
  have text : (request.dumpHead false).length =
      (sendable.toMessage splits casts).chars.length :=
    congrArg _ sendable.dumpHead_eq
  have stream : (block ++ later).flatten =
      (sendable.toMessage splits casts).encode ++ later.flatten := by
    rw [List.flatten_append, arrives.stream, sendable.encode_eq splits casts]
  have all : ∀ result ∈ block ++ later, result ≠ [] := by
    intro result member
    rcases List.mem_append.mp member with own | other
    · exact arrives.nonempty result own
    · exact nonempty result other
  have some_ : block ≠ [] := by
    rintro rfl
    have positive := List.length_pos_iff.mpr (sendable.toMessage splits casts).some_
    have whole := arrives.whole
    rw [text, List.headD_nil, List.length_nil] at whole
    omega
  obtain ⟨first, rest, rfl⟩ := List.exists_cons_of_ne_nil some_
  have whole : (sendable.toMessage splits casts).chars.length ≤ first.length := by
    rw [← text]
    exact arrives.whole
  have intact : (sendable.toMessage splits casts).Intact (first :: rest ++ later) := by
    refine ⟨?_, ?_⟩
    · refine Message.cut_of_together (show Message.Together ([] ++ _) _ _ from ?_)
      have inside : (sendable.toMessage splits casts).chars.length - 1 < first.length := by
        have positive := List.length_pos_iff.mpr (sendable.toMessage splits casts).some_
        omega
      rw [Message.Together, List.flatten_nil, List.length_nil, Nat.zero_add, List.nil_append,
        List.cons_append, readStart, if_pos inside]
    · have buffered : ((skip (sendable.toMessage splits casts).chars.length
          (first :: rest ++ later)).headD []).length =
          first.length - (request.dumpHead false).length := by
        rw [List.cons_append, skip, if_pos whole, List.headD_cons, List.length_drop, text]
      rw [buffered]
      exact arrives.bodyRead
  obtain ⟨lost, after, skipped, received⟩ := Message.recvRequest_of_intact size
    (text ▸ arrives.fitsBuffer) all stream fits intact
  have length : (sendable.toMessage splits casts).encode.length =
      (first :: rest).flatten.length := by
    rw [arrives.stream, sendable.encode_eq splits casts]
  rw [length, skip_block some_ arrives.nonempty] at skipped
  cases skipped
  rw [received, sendable.sent_eq]

section Runs

open HttpRequest (post post_sendable post_body post_dumpHead)

/-- A request that leaves the connection open. -/
def keep : HttpRequest := { post 0 with close := false }

end Runs

end HttpServer

end Sylar.Http
