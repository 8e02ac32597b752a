import Sylar.Http.Messages

/-!
# What a call consumes

Whatever comes from the connection, a call of `recvRequest` that returns a request
has consumed some results of `read`, with more bytes than the body of the request
has. Nothing here depends on the automaton.
-/

namespace Sylar.Http

variable {σ : Type} {machine : Machine Act σ}

section Untouched

variable {parsed after : Parsed}

theorem call_body {callback : Element} {chars : List UInt8} {length : Nat}
    (called : callback.call chars length parsed = .ok after) :
    after.data.body = parsed.data.body := by
  cases callback with
  | requestMethod =>
      simp only [Element.call, onRequestMethod] at called
      split at called <;> cases called <;> rfl
  | requestUri =>
      cases called
      rfl
  | fragment | requestPath =>
      obtain ⟨_, _, same⟩ := bind_ok called
      cases same
      rfl
  | httpVersion =>
      simp only [Element.call, onRequestVersion] at called
      split at called
      · cases called
        rfl
      · split at called <;> cases called <;> rfl

theorem onRequestHttpField_body {field value : List UInt8} {flen vlen : Nat}
    (called : onRequestHttpField field flen value vlen parsed = .ok after) :
    after.data.body = parsed.data.body := by
  unfold onRequestHttpField at called
  split at called
  · cases called
    rfl
  · obtain ⟨_, _, next⟩ := bind_ok called
    obtain ⟨_, _, same⟩ := bind_ok next
    cases same
    rfl

variable {buffer : List UInt8} {p q : HttpRequestParser σ}

/-- No action sets the body. -/
theorem act_body {fpc : Nat} {act : Act} (ran : p.act buffer fpc act = .ok q) :
    q.data.body = p.data.body := by
  cases act with
  | mark | startField | writeField | startValue | startQuery =>
      cases ran
      rfl
  | writeValue =>
      obtain ⟨_, called, same⟩ := bind_ok ran
      cases same
      exact onRequestHttpField_body called
  | queryString =>
      simp only [HttpRequestParser.act] at ran
      split at ran
      · cases ran
      · obtain ⟨_, called, same⟩ := bind_ok ran
        obtain ⟨_, _, updated⟩ := bind_ok called
        cases updated
        cases same
        rfl
  | element callback =>
      obtain ⟨_, called, same⟩ := bind_ok ran
      cases same
      exact call_body called

theorem acts_body {fpc : Nat} {actions : List Act}
    (ran : actions.foldlM (HttpRequestParser.act buffer fpc) p = .ok q) :
    q.data.body = p.data.body := by
  induction actions generalizing p with
  | nil =>
      cases ran
      rfl
  | cons act rest inductionHypothesis =>
      rw [List.foldlM_cons] at ran
      obtain ⟨middle, first, others⟩ := bind_ok ran
      exact (inductionHypothesis others).trans (act_body first)

/-- The loop leaves the body as it is. -/
theorem exec_body {left : List UInt8} {fpc offset : Nat}
    (ran : HttpRequestParser.exec machine buffer fpc left p = .ok (q, offset)) :
    q.data.body = p.data.body ∧ fpc ≤ offset := by
  induction left generalizing fpc p with
  | nil =>
      cases ran
      exact ⟨rfl, Nat.le_refl _⟩
  | cons byte rest inductionHypothesis =>
      rw [HttpRequestParser.exec] at ran
      split at ran
      · cases ran
        exact ⟨rfl, Nat.le_refl _⟩
      · obtain ⟨middle, acted, onward⟩ := bind_ok ran
        have same := acts_body acted
        dsimp only at onward
        split at onward
        · cases onward
          exact ⟨same, Nat.le_succ _⟩
        · obtain ⟨body, further⟩ := inductionHypothesis onward
          exact ⟨body.trans same, Nat.le_of_succ_le further⟩

/-- A parser without an error has gone past the first byte. -/
theorem exec_progress {byte : UInt8} {rest : List UInt8} {fpc offset : Nat}
    (ran : HttpRequestParser.exec machine buffer fpc (byte :: rest) p = .ok (q, offset))
    (healthy : q.hasError = false) : fpc < offset := by
  rw [HttpRequestParser.exec] at ran
  split at ran
  · cases ran
    simp [HttpRequestParser.hasError] at healthy
  · obtain ⟨middle, _, onward⟩ := bind_ok ran
    dsimp only at onward
    split at onward
    · cases onward
      exact Nat.lt_succ_self _
    · exact (exec_body onward).2

/-- `execute` leaves fewer bytes than it got, unless there is an error. -/
theorem execute_consumes {offset : Nat} {data : List UInt8} (some_ : buffer ≠ [])
    (ran : p.execute machine buffer = .ok (q, offset, data)) :
    q.data.body = p.data.body ∧ (q.hasError = false → data.length < buffer.length) := by
  obtain ⟨⟨last, stop⟩, executed, moved⟩ := bind_ok ran
  cases moved
  rw [HttpRequestParser.httpParserExecute, if_neg some_] at executed
  refine ⟨(exec_body executed).1, fun healthy => ?_⟩
  cases buffer with
  | nil => exact absurd rfl some_
  | cons byte rest =>
      have further := exec_progress executed healthy
      rw [List.length_drop, List.length_cons]
      omega

end Untouched

section Consumed

variable {buffSize : Nat} {lexicalCast : List UInt8 → Option UInt64}
  {connection rest : Connection}

theorem recvHead_consumes {data extra : List UInt8} {p q : HttpRequestParser σ}
    (ran : recvHead machine buffSize data p connection = .ok (some (q, extra), rest)) :
    q.data.body = p.data.body ∧ rest <:+ connection ∧
      extra.length + rest.flatten.length < data.length + connection.flatten.length := by
  induction connection generalizing data p with
  | nil => cases ran
  | cons result more inductionHypothesis =>
      rw [recvHead] at ran
      split at ran
      · cases ran
      · split at ran
        · cases ran
        · rename_i some_
          obtain ⟨⟨middle, offset, left⟩, executed, onward⟩ := bind_ok ran
          obtain ⟨body, consumed⟩ :=
            execute_consumes (List.append_ne_nil_of_right_ne_nil data some_) executed
          dsimp only at onward
          split at onward
          · cases onward
          · rename_i healthy
            have fewer := consumed (Bool.eq_false_iff.mpr healthy)
            rw [List.length_append] at fewer
            rw [List.flatten_cons, List.length_append]
            split at onward
            · cases onward
            · split at onward
              · cases onward
                exact ⟨body, List.suffix_cons result rest, by omega⟩
              · obtain ⟨same, suffix_, later⟩ := inductionHypothesis onward
                exact ⟨same.trans body, suffix_.trans (List.suffix_cons result more), by omega⟩

theorem readLeft_consumes {left : Nat} {text : List UInt8}
    (ran : readLeft left connection = .ok (some text, rest)) :
    rest <:+ connection ∧ text.length + rest.flatten.length = connection.flatten.length := by
  induction connection generalizing left text with
  | nil =>
      rw [readLeft] at ran
      split at ran
      · cases ran
        exact ⟨List.suffix_refl _, rfl⟩
      · cases ran
  | cons result more inductionHypothesis =>
      rw [readLeft] at ran
      split at ran
      · cases ran
        exact ⟨List.suffix_refl _, Nat.zero_add _⟩
      · split at ran
        · cases ran
        · split at ran
          · cases ran
          · obtain ⟨⟨others, later⟩, onward, same⟩ := bind_ok ran
            cases others with
            | none => cases same
            | some others =>
                cases same
                obtain ⟨suffix_, counted⟩ := inductionHypothesis onward
                refine ⟨suffix_.trans (List.suffix_cons result more), ?_⟩
                rw [List.flatten_cons, List.length_append, List.length_append]
                omega

theorem recvContent_consumes {request received : HttpRequest} {data : List UInt8} {length : Int}
    (empty : request.body = [])
    (ran : recvContent request data connection length = .ok (some received, rest)) :
    rest <:+ connection ∧
      received.body.length + rest.flatten.length ≤ data.length + connection.flatten.length := by
  have copied :
      (if length ≥ data.length then data else data.take length.toNat).length ≤ data.length := by
    split
    · exact Nat.le_refl _
    · exact List.length_take_le' _ _
  unfold recvContent at ran
  split at ran
  · dsimp only at ran
    split at ran
    · obtain ⟨⟨result, more, later⟩, fixed, same⟩ := bind_ok ran
      dsimp only at same
      split at same
      · cases same
      · rename_i positive
        cases same
        rcases readFixSize_cases (length - data.length).toNat connection with
          ⟨_, _, failed⟩ | ⟨_, _, closed⟩ | ⟨_, bytes, _, _, read, fine⟩
        · rw [failed] at fixed
          cases fixed
        · rw [closed] at fixed
          cases fixed
          exact absurd (Int.le_refl 0) positive
        · rw [fine] at fixed
          cases fixed
          obtain ⟨suffix_, counted⟩ := readLeft_consumes read
          refine ⟨suffix_, ?_⟩
          rw [HttpRequest.init_body, HttpRequest.setBody, List.length_append]
          omega
    · cases ran
      refine ⟨List.suffix_refl _, ?_⟩
      rw [HttpRequest.init_body]
      exact Nat.add_le_add_right copied _
  · cases ran
    refine ⟨List.suffix_refl _, ?_⟩
    rw [HttpRequest.init_body, empty, List.length_nil]
    omega

/-- What a call of `recvRequest` leaves. -/
theorem recvRequest_consumes {received : HttpRequest}
    (ran : recvRequest machine lexicalCast buffSize connection = .ok (some received, rest)) :
    rest <:+ connection ∧
      received.body.length + rest.flatten.length < connection.flatten.length := by
  obtain ⟨⟨found, more⟩, head, content⟩ := bind_ok ran
  cases found with
  | none => cases content
  | some found =>
      obtain ⟨parser, data⟩ := found
      obtain ⟨empty, suffix_, fewer⟩ := recvHead_consumes head
      obtain ⟨later, counted⟩ := recvContent_consumes empty content
      rw [List.length_nil, Nat.zero_add] at fewer
      exact ⟨later.trans suffix_, by omega⟩

end Consumed

end Sylar.Http
