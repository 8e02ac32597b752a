import Sylar.Stream.ZlibStream

/-!
# Compressing does not depend on the buffers

If `deflate` computes a function of streams, which it leaves only for want of space or of input,
then the buffers hold what that function gives, whatever their size is and however the input is
split. All buffers but the last are full.
-/

namespace Sylar.ZlibStream

variable {σ : Type}

section Claims

/-- A function of streams: what comes out until more input is wanted, and the state then. -/
structure StreamFunction (σ : Type) where
  whole : σ → ZFlush → List UInt8 → List UInt8
  after : σ → ZFlush → List UInt8 → σ

/-- What comes out for one input after another. -/
def StreamFunction.output (function : StreamFunction σ) :
    σ → List (ZFlush × List UInt8) → List UInt8
  | _, [] => []
  | s, (flush, input) :: inputs =>
      function.whole s flush input ++ function.output (function.after s flush input) inputs

/-- The state after one input after another. -/
def StreamFunction.final (function : StreamFunction σ) (s : σ)
    (inputs : List (ZFlush × List UInt8)) : σ :=
  inputs.foldl (fun s input => function.after s input.1 input.2) s

/-- Calls in the state `s` go on with the output where the last one stopped, and lead to one of the
states `next`. They stop when the space is full, or else when the input is consumed and nothing is
to come. -/
structure Continues (code : Coder σ) (next : σ → Prop) (function : StreamFunction σ)
    (flush : ZFlush) (s : σ) (input : List UInt8) : Prop where
  consistent : ∀ availOut, (code s flush input availOut).ret ≠ .streamError
  stays : ∀ availOut, next (code s flush input availOut).state
  goes_on : ∀ availOut, function.whole s flush input =
    (code s flush input availOut).produced ++
      function.whole (code s flush input availOut).state flush
        (input.drop (code s flush input availOut).consumed)
  resumes : ∀ availOut, function.after s flush input =
    function.after (code s flush input availOut).state flush
      (input.drop (code s flush input availOut).consumed)
  stops : ∀ availOut, (code s flush input availOut).produced.length < availOut →
    (code s flush input availOut).consumed = input.length ∧
      function.whole (code s flush input availOut).state flush [] = [] ∧
      function.after (code s flush input availOut).state flush [] =
        (code s flush input availOut).state

/-- What is assumed of `deflate`: that it takes input with `Z_NO_FLUSH` in the states `live`, those
between `deflateInit2` and the first `Z_FINISH`, and that from there on `Z_FINISH` without further
input brings out the rest. `ending` are the states behind a `Z_FINISH`. -/
structure Computes (code : Coder σ) (live ending : σ → Prop) (function : StreamFunction σ) :
    Prop where
  takes : ∀ {s input}, live s → Continues code live function .noFlush s input
  finishes : ∀ {s}, live s ∨ ending s → Continues code ending function .finish s []

/-- All segments but the last are full. -/
structure Packed (capacity : Nat) (segments : List (List UInt8)) : Prop where
  full : ∀ segment ∈ segments.dropLast, segment.length = capacity
  fits : ∀ segment ∈ segments, segment.length ≤ capacity

/-- A function of streams that does not see where its input is split. -/
structure Indivisible (function : StreamFunction σ) : Prop where
  whole_append : ∀ s first second, function.whole s .noFlush (first ++ second) =
    function.whole s .noFlush first ++
      function.whole (function.after s .noFlush first) .noFlush second
  after_append : ∀ s first second, function.after s .noFlush (first ++ second) =
    function.after (function.after s .noFlush first) .noFlush second

end Claims

variable {code : Coder σ} {live ending : σ → Prop} {function : StreamFunction σ} {flush : ZFlush}
  {stream : ZlibStream σ}

/-! ### The buffers -/

theorem Packed.append {capacity : Nat} {stored : List (List UInt8)} {back : List UInt8}
    (full : ∀ segment ∈ stored, segment.length = capacity) (fits : back.length ≤ capacity) :
    Packed capacity (stored ++ [back]) where
  full segment listed := by
    rw [List.dropLast_concat] at listed
    exact full segment listed
  fits segment listed := by
    rcases List.mem_append.1 listed with before | last
    · exact Nat.le_of_eq (full segment before)
    · rw [List.mem_singleton.1 last]
      exact fits

/-- The buffer that is filled next has space, and those before it are full. -/
theorem openBuffer_packed (positive : 0 < stream.buffSize)
    (packed : Packed stream.buffSize stream.buffs) :
    (∀ segment ∈ stream.openBuffer.1, segment.length = stream.buffSize) ∧
      stream.openBuffer.2.length < stream.buffSize ∧
      stream.openBuffer.1.flatten ++ stream.openBuffer.2 = stream.getResult := by
  unfold openBuffer getResult
  cases last : stream.buffs.getLast? with
  | none =>
      rw [List.getLast?_eq_none_iff] at last
      rw [last]
      exact ⟨by simp, positive, rfl⟩
  | some back =>
      obtain ⟨stored, split⟩ := List.getLast?_eq_some_iff.1 last
      have stored_full := packed.full
      have back_fits := packed.fits back (by rw [split]; simp)
      rw [split, List.dropLast_concat] at stored_full
      by_cases room : back.length ≠ stream.buffSize
      · simp only [if_pos room, split, List.dropLast_concat]
        refine ⟨stored_full, by omega, ?_⟩
        rw [List.flatten_append, List.flatten_singleton]
      · simp only [if_neg room]
        refine ⟨fun segment listed => ?_, positive, List.append_nil _⟩
        rw [split] at listed
        rcases List.mem_append.1 listed with before | here
        · exact stored_full segment before
        · rw [List.mem_singleton.1 here]
          omega

/-- The bytes `out` came behind those in the buffers. -/
structure Extends (before after : ZlibStream σ) (out : List UInt8) : Prop where
  result : after.getResult = before.getResult ++ out
  packed : Packed after.buffSize after.buffs
  buffSize : after.buffSize = before.buffSize
  isEncode : after.isEncode = before.isEncode

theorem Extends.refl (packed : Packed stream.buffSize stream.buffs) :
    Extends stream stream [] where
  result := (List.append_nil _).symm
  packed := packed
  buffSize := rfl
  isEncode := rfl

theorem Extends.trans {before middle after : ZlibStream σ} {first second : List UInt8}
    (left : Extends before middle first) (right : Extends middle after second) :
    Extends before after (first ++ second) where
  result := by rw [right.result, left.result, List.append_assoc]
  packed := right.packed
  buffSize := right.buffSize.trans left.buffSize
  isEncode := right.isEncode.trans left.isEncode

/-- One call of `deflate` puts what it produces into the buffer that is open. -/
theorem extends_store (positive : 0 < stream.buffSize)
    (packed : Packed stream.buffSize stream.buffs) {produced : List UInt8} (zstream : σ)
    (fits : produced.length ≤ stream.availOut) :
    Extends stream (stream.store zstream produced) produced := by
  obtain ⟨full, room, result⟩ := openBuffer_packed positive packed
  refine ⟨?_, Packed.append full ?_, rfl, rfl⟩
  · rw [getResult, store, List.flatten_append, List.flatten_singleton, ← List.append_assoc, result]
  · rw [availOut] at fits
    rw [List.length_append]
    simp only [store]
    omega

/-! ### The loops -/

/-- The loop over the buffers takes the input, and gives what the function of streams gives, where
the calls continue in the states `here`, and for every rest of the input. -/
theorem fillBuffers_run {here : σ → Prop} {input : List UInt8}
    (continues : ∀ {s} count, here s → Continues code here function flush s (input.drop count))
    (positive : 0 < stream.buffSize) (packed : Packed stream.buffSize stream.buffs)
    (alive : here stream.zstream) :
    ∃ outcome, (∀ fuel > (function.whole stream.zstream flush input).length,
        fillBuffers code flush fuel input stream = some outcome) ∧
      outcome.ret = .ok ∧ here outcome.stream.zstream ∧
      outcome.stream.zstream = function.after stream.zstream flush input ∧
      Extends stream outcome.stream (function.whole stream.zstream flush input) := by
  -- What is still to come gets shorter in every round, as the open buffer has space.
  induction size : (function.whole stream.zstream flush input).length using Nat.strongRecOn
    generalizing input stream with
  | _ left inductionHypothesis =>
      obtain ⟨-, room, -⟩ := openBuffer_packed positive packed
      have space : 0 < stream.availOut := Nat.sub_pos_of_lt room
      have call : Continues code here function flush stream.zstream input := by
        simpa using continues 0 alive
      have consistent := call.consistent stream.availOut
      have stays := call.stays stream.availOut
      have goes_on := call.goes_on stream.availOut
      have resumes := call.resumes stream.availOut
      have stops := call.stops stream.availOut
      have again := @fillBuffers_again _ code flush input stream consistent
      have last := @fillBuffers_last _ code flush input stream consistent
      generalize code stream.zstream flush input stream.availOut = answer at *
      have stored := extends_store positive packed answer.state answer.fits
      have length := congrArg List.length goes_on
      rw [List.length_append, size] at length
      by_cases full : answer.produced.length = stream.availOut
      · have shorter : (function.whole (stream.store answer.state answer.produced).zstream flush
            (input.drop answer.consumed)).length < left := by
          rw [store_zstream]
          omega
        have rests : ∀ {s} count, here s →
            Continues code here function flush s ((input.drop answer.consumed).drop count) := by
          intro s count inside
          rw [List.drop_drop]
          exact continues _ inside
        obtain ⟨outcome, ran, ret, alive', state, more⟩ :=
          @inductionHypothesis _ shorter (stream.store answer.state answer.produced)
            (input.drop answer.consumed) rests (stored.buffSize ▸ positive) stored.packed stays rfl
        refine ⟨{ outcome with results := answer.ret :: outcome.results }, ?_, ret, alive', ?_, ?_⟩
        · intro fuel enough
          obtain ⟨fuel, rfl⟩ := Nat.exists_eq_add_one_of_ne_zero (Nat.ne_zero_of_lt enough)
          rw [again full fuel, ran fuel (by omega)]
          rfl
        · exact state.trans resumes.symm
        · rw [goes_on]
          exact stored.trans more
      · obtain ⟨consumed, nothing, state⟩ := stops (Nat.lt_of_le_of_ne answer.fits full)
        rw [consumed, List.drop_length] at goes_on resumes
        refine ⟨⟨.ok, stream.store answer.state answer.produced, [answer.ret]⟩, ?_, rfl, stays,
          ?_, ?_⟩
        · intro fuel enough
          obtain ⟨fuel, rfl⟩ := Nat.exists_eq_add_one_of_ne_zero (Nat.ne_zero_of_lt enough)
          exact last full fuel
        · rw [resumes, state]
          rfl
        · rw [goes_on, nothing, List.append_nil]
          exact stored

/-- The states may be more than those a call leads to. -/
theorem Continues.mono {next here : σ → Prop} {s : σ} {input : List UInt8}
    (continues : Continues code next function flush s input) (more : ∀ {s}, next s → here s) :
    Continues code here function flush s input where
  consistent := continues.consistent
  stays availOut := more (continues.stays availOut)
  goes_on := continues.goes_on
  resumes := continues.resumes
  stops := continues.stops

theorem StreamFunction.output_append (function : StreamFunction σ) (s : σ)
    (first second : List (ZFlush × List UInt8)) :
    function.output s (first ++ second) =
      function.output s first ++ function.output (function.final s first) second := by
  induction first generalizing s with
  | nil => rfl
  | cons input inputs inductionHypothesis =>
      rw [List.cons_append, output, output, inductionHypothesis, List.append_assoc]
      rfl

/-- The loop over the segments of a `write` gives what the function of streams gives for one after
another. -/
theorem feedSegments_run (computes : Computes code live ending function)
    {v : List (List UInt8)} (small : ∀ segment ∈ v, segment.length < 2 ^ 32)
    (positive : 0 < stream.buffSize) (packed : Packed stream.buffSize stream.buffs)
    (alive : live stream.zstream) :
    ∃ bound outcome, (∀ fuel > bound, feedSegments code false fuel v stream = some outcome) ∧
      outcome.ret = .ok ∧ live outcome.stream.zstream ∧
      outcome.stream.zstream = function.final stream.zstream (v.map (ZFlush.noFlush, ·)) ∧
      Extends stream outcome.stream
        (function.output stream.zstream (v.map (ZFlush.noFlush, ·))) := by
  induction v generalizing stream with
  | nil => exact ⟨0, ⟨.ok, stream, []⟩, fun _ _ => rfl, rfl, alive, rfl, Extends.refl packed⟩
  | cons segment segments inductionHypothesis =>
      rw [List.forall_mem_cons] at small
      have whole : segment.take (segment.length % 2 ^ 32) = segment := by
        rw [Nat.mod_eq_of_lt small.1, List.take_length]
      have unfinished : ¬ (false = true ∧ segments = []) := fun both =>
        Bool.false_ne_true both.1
      obtain ⟨first, ran, ret, firstAlive, state, extends_⟩ :=
        @fillBuffers_run _ _ _ _ _ live segment (fun _ inside => computes.takes inside) positive
          packed alive
      generalize List.length _ = boundFirst at ran
      obtain ⟨bound, rest, ranRest, retRest, restAlive, stateRest, extendsRest⟩ :=
        inductionHypothesis small.2 (extends_.buffSize ▸ positive) extends_.packed firstAlive
      refine ⟨max bound boundFirst, { rest with results := first.results ++ rest.results },
        fun fuel enough => ?_, retRest, restAlive, ?_, ?_⟩
      · have open_ : first.ret ≠ .streamError := by
          rw [ret]
          decide
        rw [feedSegments, whole]
        simp only [if_neg unfinished]
        rw [ran fuel (Nat.lt_of_le_of_lt (Nat.le_max_right _ _) enough)]
        simp only [if_neg open_]
        rw [ranRest fuel (Nat.lt_of_le_of_lt (Nat.le_max_left _ _) enough)]
        rfl
      · rw [stateRest, state]
        rfl
      · rw [List.map_cons, StreamFunction.output, ← state]
        exact extends_.trans extendsRest

/-- A call of `encode` for a `write`. -/
theorem encode_run {zlib : Zlib σ} (computes : Computes zlib.deflate live ending function)
    {v : List (List UInt8)} (small : ∀ segment ∈ v, segment.length < 2 ^ 32)
    (positive : 0 < stream.buffSize) (packed : Packed stream.buffSize stream.buffs)
    (alive : live stream.zstream) :
    ∃ bound outcome, (∀ fuel > bound, encode zlib fuel v false stream = some outcome) ∧
      outcome.ret = .ok ∧ live outcome.stream.zstream ∧
      outcome.stream.zstream = function.final stream.zstream (v.map (ZFlush.noFlush, ·)) ∧
      Extends stream outcome.stream
        (function.output stream.zstream (v.map (ZFlush.noFlush, ·))) := by
  obtain ⟨bound, outcome, ran, rest⟩ := feedSegments_run computes small positive packed alive
  have open_ : ¬ (outcome.ret ≠ .streamError ∧ false = true ∧ v ≠ []) := fun all =>
    Bool.false_ne_true all.2.1
  refine ⟨bound, outcome, fun fuel enough => ?_, rest⟩
  rw [encode, transform, ran fuel enough, Option.map_some, if_neg open_]

/-- The call of `encode` for a `flush` brings out what is to come. -/
theorem encode_finish {zlib : Zlib σ} (computes : Computes zlib.deflate live ending function)
    (positive : 0 < stream.buffSize) (packed : Packed stream.buffSize stream.buffs)
    (alive : live stream.zstream) :
    ∃ bound outcome, (∀ fuel > bound, encode zlib fuel [[]] true stream = some outcome) ∧
      outcome.ret = .ok ∧
      Extends stream outcome.stream (function.whole stream.zstream .finish []) := by
  obtain ⟨outcome, ran, ret, -, -, extends_⟩ :=
    @fillBuffers_run _ zlib.deflate _ _ _ (fun s => live s ∨ ending s) []
      (fun count inside => by
        rw [List.drop_nil]
        exact (computes.finishes inside).mono .inr)
      positive packed (.inl alive)
  generalize List.length _ = bound at ran
  have open_ : outcome.ret ≠ .streamError := by
    rw [ret]
    decide
  refine ⟨bound, ⟨.ok, { outcome.stream with
    zstream := zlib.deflateEnd outcome.stream.zstream }, outcome.results ++ []⟩,
    fun fuel enough => ?_, rfl, extends_.result, extends_.packed, extends_.buffSize,
    extends_.isEncode⟩
  have fed : feedSegments zlib.deflate true fuel [[]] stream =
      some ⟨.ok, outcome.stream, outcome.results ++ []⟩ := by
    simp only [feedSegments, and_self, if_true, List.take_nil, ran fuel enough, if_neg open_,
      Option.map_some]
  rw [encode, transform, fed]
  rfl

/-- The inputs of the calls `write` and of the `flush` behind them. -/
def inputs (writes : List (List (List UInt8))) : List (ZFlush × List UInt8) :=
  writes.flatten.map (ZFlush.noFlush, ·) ++ [(.finish, [])]

/-- Calls of `write` and a `flush`. -/
theorem session_run {zlib : Zlib σ} (computes : Computes zlib.deflate live ending function)
    {writes : List (List (List UInt8))}
    (small : ∀ v ∈ writes, ∀ segment ∈ v, segment.length < 2 ^ 32)
    (isEncode : stream.isEncode = true) (positive : 0 < stream.buffSize)
    (packed : Packed stream.buffSize stream.buffs) (alive : live stream.zstream) :
    ∃ bound transcript, (∀ fuel > bound,
        session zlib fuel (writes.map .write ++ [.flush]) stream = some transcript) ∧
      (∀ ret ∈ transcript.returned, ret = .ok) ∧
      Extends stream transcript.stream (function.output stream.zstream (inputs writes)) := by
  induction writes generalizing stream with
  | nil =>
      obtain ⟨bound, outcome, ran, ret, extends_⟩ := encode_finish computes positive packed alive
      refine ⟨bound, ⟨[outcome.ret], outcome.stream, outcome.results ++ []⟩, fun fuel enough => ?_,
        by simp [ret], ?_⟩
      · simp only [List.map_nil, List.nil_append, session, perform, flush, isEncode, if_true,
          ran fuel enough, Option.bind_some, Option.map_some]
      · have whole : function.output stream.zstream (inputs []) =
            function.whole stream.zstream .finish [] := List.append_nil _
        rw [whole]
        exact extends_
  | cons v writes inductionHypothesis =>
      rw [List.forall_mem_cons] at small
      obtain ⟨bound, outcome, ran, ret, stays, state, extends_⟩ :=
        encode_run computes small.1 positive packed alive
      obtain ⟨boundRest, rest, ranRest, okRest, extendsRest⟩ := inductionHypothesis small.2
        (extends_.isEncode.trans isEncode) (extends_.buffSize ▸ positive) extends_.packed stays
      refine ⟨max bound boundRest, ⟨outcome.ret :: rest.returned, rest.stream,
        outcome.results ++ rest.results⟩, fun fuel enough => ?_, ?_, ?_⟩
      · rw [List.map_cons, List.cons_append, session, perform, write, if_pos isEncode,
          ran fuel (Nat.lt_of_le_of_lt (Nat.le_max_left _ _) enough), Option.bind_some,
          ranRest fuel (Nat.lt_of_le_of_lt (Nat.le_max_right _ _) enough)]
        rfl
      · exact List.forall_mem_cons.2 ⟨ret, okRest⟩
      · have split : inputs (v :: writes) = v.map (ZFlush.noFlush, ·) ++ inputs writes := by
          rw [inputs, List.flatten_cons, List.map_append, List.append_assoc]
          rfl
        rw [split, StreamFunction.output_append, ← state]
        exact extends_.trans extendsRest

/-- A function that does not see the splitting gives for all segments what it gives for one. -/
theorem Indivisible.output_eq (indivisible : Indivisible function) (s : σ)
    {segments : List (List UInt8)} (some_ : segments ≠ [])
    (behind : List (ZFlush × List UInt8)) :
    function.output s (segments.map (ZFlush.noFlush, ·) ++ behind) =
      function.whole s .noFlush segments.flatten ++
        function.output (function.after s .noFlush segments.flatten) behind := by
  obtain ⟨segment, segments, rfl⟩ := List.exists_cons_of_ne_nil some_
  induction segments generalizing s segment with
  | nil =>
      rw [List.flatten_singleton]
      rfl
  | cons next segments inductionHypothesis =>
      have rest := inductionHypothesis (function.after s .noFlush segment) next
        (List.cons_ne_nil _ _)
      rw [List.map_cons, List.cons_append, StreamFunction.output, rest, ← List.append_assoc,
        ← indivisible.whole_append, ← indivisible.after_append]
      rfl

/-- A new stream that encodes gives, after any calls of `write` and a `flush`, what the function
of streams gives, in buffers of which all but the last are full. -/
theorem encode_transparent {zlib : Zlib σ}
    (computes : Computes zlib.deflate live ending function)
    (isEncode : stream.isEncode = true) (empty : stream.buffs = [])
    (positive : 0 < stream.buffSize) (alive : live stream.zstream)
    {writes : List (List (List UInt8))}
    (small : ∀ v ∈ writes, ∀ segment ∈ v, segment.length < 2 ^ 32) :
    ∃ bound transcript, (∀ fuel > bound,
        session zlib fuel (writes.map .write ++ [.flush]) stream = some transcript) ∧
      (∀ ret ∈ transcript.returned, ret = .ok) ∧
      transcript.stream.getResult = function.output stream.zstream (inputs writes) ∧
      Packed stream.buffSize transcript.stream.buffs ∧
      (Indivisible function → writes.flatten ≠ [] →
        transcript.stream.getResult =
          function.whole stream.zstream .noFlush writes.flatten.flatten ++
            function.whole (function.after stream.zstream .noFlush writes.flatten.flatten)
              .finish []) := by
  have packed : Packed stream.buffSize stream.buffs := by
    rw [empty]
    exact ⟨by simp, by simp⟩
  obtain ⟨bound, transcript, ran, ok, extends_⟩ :=
    session_run computes small isEncode positive packed alive
  have result : transcript.stream.getResult = function.output stream.zstream (inputs writes) := by
    rw [extends_.result, getResult, empty]
    rfl
  refine ⟨bound, transcript, ran, ok, result, extends_.buffSize ▸ extends_.packed,
    fun indivisible some_ => ?_⟩
  rw [result, inputs, indivisible.output_eq _ some_]
  simp only [StreamFunction.output, List.append_nil]

/-! ### Blocks that are stored -/

/-- The input that was taken, or what is left to come out. -/
inductive Storing where
  | taking (taken : List UInt8)
  | finishing (rest : List UInt8)

namespace Storing

/-- One stored block, the last, of fewer than 2^16 bytes. -/
def block (data : List UInt8) : List UInt8 :=
  let low := UInt8.ofNat data.length
  let high := UInt8.ofNat (data.length / 256)
  [1, low, high, ~~~low, ~~~high] ++ data

/-- What comes out when no more input follows. -/
def pending : Storing → List UInt8
  | taking taken => block taken
  | finishing rest => rest

/-- An answer to a call that is refused. -/
def refuse (ret : ZResult) (s : Storing) {availIn availOut : Nat} :
    ZAnswer Storing availIn availOut :=
  ⟨ret, 0, [], s, Nat.zero_le _, Nat.zero_le _⟩

/-- `deflate` without compression, of little input: it comes out when it is finished. Behind a
`Z_FINISH` there is only another one, without input. -/
def deflate : Coder Storing
  | taking taken, .noFlush, input, _ => .all .ok input [] (taking (taken ++ input)) (Nat.zero_le _)
  | taking taken, .finish, input, availOut =>
      let whole := block (taken ++ input)
      .all (if whole.length ≤ availOut then .streamEnd else .ok) input (whole.take availOut)
        (finishing (whole.drop availOut)) (List.length_take_le _ _)
  | finishing rest, .noFlush, _, _ => refuse .streamError (finishing rest)
  | finishing rest, .finish, [], availOut =>
      .all (if rest.length ≤ availOut then .streamEnd else .ok) [] (rest.take availOut)
        (finishing (rest.drop availOut)) (List.length_take_le _ _)
  | finishing rest, .finish, _ :: _, _ => refuse .bufError (finishing rest)

/-- Input only comes out when it is finished. -/
def streamFunction : StreamFunction Storing where
  whole
    | _, .noFlush, _ => []
    | s, .finish, _ => s.pending
  after
    | taking taken, .noFlush, input => taking (taken ++ input)
    | finishing rest, .noFlush, _ => finishing rest
    | _, .finish, _ => finishing []

/-- No `Z_FINISH` came yet. -/
def Live (s : Storing) : Prop := ∃ taken, s = taking taken

/-- A `Z_FINISH` came. -/
def Finishing (s : Storing) : Prop := ∃ rest, s = finishing rest

theorem deflate_finish (s : Storing) (availOut : Nat) : deflate s .finish [] availOut =
    .all (if s.pending.length ≤ availOut then .streamEnd else .ok) [] (s.pending.take availOut)
      (finishing (s.pending.drop availOut)) (List.length_take_le _ _) := by
  cases s with
  | taking taken =>
      simp only [deflate, List.append_nil]
      rfl
  | finishing rest => rfl

theorem computes : Computes deflate Live Finishing streamFunction where
  takes {s input} alive := by
    obtain ⟨taken, rfl⟩ := alive
    exact {
      consistent := fun _ => by simp only [deflate, ZAnswer.all, ne_eq, reduceCtorEq, not_false_iff]
      stays := fun _ => ⟨taken ++ input, rfl⟩
      goes_on := fun _ => rfl
      resumes := fun _ => by simp [deflate, ZAnswer.all, streamFunction]
      stops := fun _ _ => by simp [deflate, ZAnswer.all, streamFunction] }
  finishes {s} _ := {
    consistent := fun availOut => by
      rw [deflate_finish]
      simp only [ZAnswer.all]
      split <;> decide
    stays := fun availOut => by
      rw [deflate_finish]
      exact ⟨_, rfl⟩
    goes_on := fun availOut => by
      rw [deflate_finish]
      exact (List.take_append_drop availOut s.pending).symm
    resumes := fun availOut => by
      rw [deflate_finish]
      cases s <;> rfl
    stops := fun availOut space => by
      rw [deflate_finish] at space ⊢
      have nothing : s.pending.drop availOut = [] := by
        simp only [ZAnswer.all, List.length_take] at space
        exact List.drop_eq_nil_of_le (by omega)
      simp only [ZAnswer.all, streamFunction, nothing]
      exact ⟨trivial, rfl, trivial⟩ }

/-- A zlib that stores what it is given. -/
def zlib : Zlib Storing := ⟨deflate, id, deflate, id⟩

end Storing

/-- Four bytes in two calls, through buffers of two bytes. -/
theorem encode_transparent_storing :
    ∃ bound transcript, (∀ fuel > bound,
        session Storing.zlib fuel [.write [[1, 2], [3]], .write [[4]], .flush]
          ⟨.taking [], 2, true, []⟩ = some transcript) ∧
      transcript.stream.getResult = [1, 4, 0, 251, 255, 1, 2, 3, 4] := by
  obtain ⟨bound, transcript, ran, -, result, -⟩ :=
    @encode_transparent _ _ _ _ ⟨.taking [], 2, true, []⟩ Storing.zlib Storing.computes rfl rfl
      (by decide) ⟨[], rfl⟩ [[[1, 2], [3]], [[4]]] (by decide)
  exact ⟨bound, transcript, ran, result⟩

end Sylar.ZlibStream
