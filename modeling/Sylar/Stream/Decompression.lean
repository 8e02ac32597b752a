import Sylar.Stream.ZlibStream

/-!
# What the calls report

The calls of a `ZlibStream` return `Z_OK`, unless zlib returns `Z_STREAM_ERROR` in them. No
other error is reported, and neither is a stream that does not end.
-/

namespace Sylar.ZlibStream

variable {σ : Type}

section Claims

/-- No error was returned, and the end of the stream was reached. -/
structure Complete (results : List ZResult) : Prop where
  fine : ∀ result ∈ results, result = .ok ∨ result = .streamEnd
  ended : .streamEnd ∈ results

/-- All calls return `Z_OK` only if what they decompressed is complete. -/
def Reported (transcript : Transcript σ) : Prop :=
  (∀ ret ∈ transcript.returned, ret = .ok) → Complete transcript.results

end Claims

/-- What a call returns is told by the results of zlib. -/
def Classified (ret : ZResult) (results : List ZResult) : Prop :=
  (ret = .ok ∧ .streamError ∉ results) ∨ (ret = .streamError ∧ .streamError ∈ results)

variable {code : Coder σ} {flush : ZFlush} {finish : Bool} {fuel : Nat} {input : List UInt8}
  {v : List (List UInt8)} {stream : ZlibStream σ} {outcome : Outcome σ}

theorem Classified.prepend {ret : ZResult} {first rest : List ZResult}
    (unseen : .streamError ∉ first) (classified : Classified ret rest) :
    Classified ret (first ++ rest) := by
  rcases classified with ⟨ok, none_⟩ | ⟨failed, some_⟩
  · exact .inl ⟨ok, fun listed => (List.mem_append.1 listed).elim unseen none_⟩
  · exact .inr ⟨failed, List.mem_append_right _ some_⟩

theorem Classified.ok_iff {ret : ZResult} {results : List ZResult}
    (classified : Classified ret results) : ret = .ok ↔ .streamError ∉ results := by
  rcases classified with ⟨ok, none_⟩ | ⟨failed, some_⟩
  · exact iff_of_true ok none_
  · refine iff_of_false (fun ok => ?_) fun none_ => none_ some_
    rw [failed] at ok
    cases ok

theorem fillBuffers_classified (ran : fillBuffers code flush fuel input stream = some outcome) :
    Classified outcome.ret outcome.results := by
  induction fuel generalizing input stream outcome with
  | zero => cases ran
  | succ fuel inductionHypothesis =>
      by_cases failed : (code stream.zstream flush input stream.availOut).ret = .streamError
      · simp only [fillBuffers, if_pos failed] at ran
        cases ran
        exact .inr ⟨failed, failed ▸ List.mem_singleton_self _⟩
      · have unseen : .streamError ∉
            [(code stream.zstream flush input stream.availOut).ret] := fun listed =>
          failed (List.mem_singleton.1 listed).symm
        by_cases full : (code stream.zstream flush input stream.availOut).produced.length =
            stream.availOut
        · rw [fillBuffers_again failed full] at ran
          obtain ⟨rest, again, rfl⟩ := Option.map_eq_some_iff.1 ran
          exact (inductionHypothesis again).prepend unseen
        · rw [fillBuffers_last failed full] at ran
          cases ran
          exact .inl ⟨rfl, unseen⟩

theorem feedSegments_classified
    (ran : feedSegments code finish fuel v stream = some outcome) :
    Classified outcome.ret outcome.results := by
  induction v generalizing stream outcome with
  | nil =>
      cases ran
      exact .inl ⟨rfl, List.not_mem_nil⟩
  | cons segment segments inductionHypothesis =>
      rw [feedSegments] at ran
      split at ran
      · cases ran
      · rename_i first filled
        have classified := fillBuffers_classified filled
        split at ran
        · cases ran
          exact classified
        · rename_i open_
          obtain ⟨rest, again, rfl⟩ := Option.map_eq_some_iff.1 ran
          rcases classified with ⟨-, unseen⟩ | ⟨failed, -⟩
          · exact (inductionHypothesis again).prepend unseen
          · exact absurd failed open_

theorem transform_classified {codeEnd : σ → σ}
    (ran : transform code codeEnd fuel v finish stream = some outcome) :
    Classified outcome.ret outcome.results := by
  obtain ⟨fed, feeding, rfl⟩ := Option.map_eq_some_iff.1 ran
  have classified := feedSegments_classified feeding
  split <;> exact classified

variable {zlib : Zlib σ}

theorem perform_classified {request : Request}
    (ran : perform zlib fuel request stream = some outcome) :
    Classified outcome.ret outcome.results := by
  cases request with
  | write buffers =>
      rw [perform, write] at ran
      split at ran <;> exact transform_classified ran
  | flush =>
      rw [perform, ZlibStream.flush] at ran
      split at ran <;> exact transform_classified ran

/-- All calls return `Z_OK` if and only if zlib returned no `Z_STREAM_ERROR`. -/
theorem session_ok_iff {requests : List Request} {transcript : Transcript σ}
    (ran : session zlib fuel requests stream = some transcript) :
    (∀ ret ∈ transcript.returned, ret = .ok) ↔ .streamError ∉ transcript.results := by
  induction requests generalizing stream transcript with
  | nil =>
      cases ran
      simp
  | cons request requests inductionHypothesis =>
      obtain ⟨outcome, performed, ran⟩ := Option.bind_eq_some_iff.1 ran
      obtain ⟨rest, again, rfl⟩ := Option.map_eq_some_iff.1 ran
      rw [List.forall_mem_cons, (perform_classified performed).ok_iff, inductionHypothesis again,
        List.mem_append, not_or]

/-- What was decompressed is reported if and only if zlib returned `Z_STREAM_ERROR`, or it is
complete. -/
theorem reported_iff {requests : List Request} {transcript : Transcript σ}
    (ran : session zlib fuel requests stream = some transcript) :
    Reported transcript ↔
      .streamError ∈ transcript.results ∨ Complete transcript.results := by
  rw [Reported, session_ok_iff ran, imp_iff_not_or, not_not]

end Sylar.ZlibStream
