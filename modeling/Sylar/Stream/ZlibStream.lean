import Mathlib.Algebra.Group.Nat.Defs
import Mathlib.Data.List.Basic

/-!
# Compressed streams

`ZlibStream` over the functions of zlib, which are parameters: `deflate` and `inflate` map the
state that is behind a `z_stream`, some input and the space that is left to what is consumed and
produced. `encode` and `decode` are one function of these.
-/

namespace Sylar

/-- What zlib returns. -/
inductive ZResult where
  | ok
  | streamEnd
  | needDict
  | errno
  | streamError
  | dataError
  | memError
  | bufError
  | versionError
deriving DecidableEq, Repr

/-- `Z_NO_FLUSH` and `Z_FINISH`. -/
inductive ZFlush where
  | noFlush
  | finish
deriving DecidableEq, Repr

/-- One call of `deflate` or `inflate`. -/
structure ZAnswer (σ : Type) (availIn availOut : Nat) where
  ret : ZResult
  consumed : Nat
  produced : List UInt8
  state : σ
  within : consumed ≤ availIn
  fits : produced.length ≤ availOut

/-- An answer that leaves no input. -/
def ZAnswer.all {σ : Type} {availOut : Nat} (ret : ZResult) (input produced : List UInt8)
    (state : σ) (fits : produced.length ≤ availOut) : ZAnswer σ input.length availOut :=
  ⟨ret, input.length, produced, state, Nat.le_refl _, fits⟩

/-- `deflate` or `inflate`, of the input that is left and the space that is left. -/
abbrev Coder (σ : Type) :=
  σ → ZFlush → (input : List UInt8) → (availOut : Nat) → ZAnswer σ input.length availOut

/-- The functions of zlib. -/
structure Zlib (σ : Type) where
  deflate : Coder σ
  deflateEnd : σ → σ
  inflate : Coder σ
  inflateEnd : σ → σ

/-- `buffs` holds of each `iovec` the `iov_len` bytes that are in use. -/
structure ZlibStream (σ : Type) where
  zstream : σ
  buffSize : Nat
  isEncode : Bool
  buffs : List (List UInt8)

namespace ZlibStream

variable {σ : Type}

section Model

/-- What a function returns, the stream after it, and what the calls of zlib returned in it. -/
structure Outcome (σ : Type) where
  ret : ZResult
  stream : ZlibStream σ
  results : List ZResult

/-- The buffers before the one that is filled next, and what is in that one: the last, or a new
one if that is full. -/
def openBuffer (stream : ZlibStream σ) : List (List UInt8) × List UInt8 :=
  match stream.buffs.getLast? with
  | none => (stream.buffs, [])
  | some back =>
      if back.length ≠ stream.buffSize then (stream.buffs.dropLast, back) else (stream.buffs, [])

/-- The space in that buffer, `avail_out`. -/
def availOut (stream : ZlibStream σ) : Nat :=
  stream.buffSize - stream.openBuffer.2.length

/-- What was produced is put into that buffer. -/
def store (stream : ZlibStream σ) (zstream : σ) (produced : List UInt8) : ZlibStream σ :=
  { stream with
    zstream := zstream
    buffs := stream.openBuffer.1 ++ [stream.openBuffer.2 ++ produced] }

/-- The loop over the output buffers, in at most as many rounds as `fuel`. -/
def fillBuffers (code : Coder σ) (flush : ZFlush) :
    (fuel : Nat) → List UInt8 → ZlibStream σ → Option (Outcome σ)
  | 0, _, _ => none
  | fuel + 1, input, stream =>
      let answer := code stream.zstream flush input stream.availOut
      -- `iov_len` is not set before the return
      if answer.ret = .streamError then
        some ⟨answer.ret, stream.store answer.state [], [answer.ret]⟩
      else
        let next := stream.store answer.state answer.produced
        if answer.produced.length = stream.availOut then
          (fillBuffers code flush fuel (input.drop answer.consumed) next).map fun rest =>
            { rest with results := answer.ret :: rest.results }
        else some ⟨.ok, next, [answer.ret]⟩

/-- The loop over the segments. `avail_in` has 32 bits. -/
def feedSegments (code : Coder σ) (finish : Bool) (fuel : Nat) :
    List (List UInt8) → ZlibStream σ → Option (Outcome σ)
  | [], stream => some ⟨.ok, stream, []⟩
  | segment :: segments, stream =>
      let flush := if finish ∧ segments = [] then .finish else .noFlush
      match fillBuffers code flush fuel (segment.take (segment.length % 2 ^ 32)) stream with
      | none => none
      | some outcome =>
          if outcome.ret = .streamError then some outcome
          else
            (feedSegments code finish fuel segments outcome.stream).map fun rest =>
              { rest with results := outcome.results ++ rest.results }

/-- What `encode` and `decode` share. -/
def transform (code : Coder σ) (codeEnd : σ → σ) (fuel : Nat) (v : List (List UInt8))
    (finish : Bool) (stream : ZlibStream σ) : Option (Outcome σ) :=
  (feedSegments code finish fuel v stream).map fun outcome =>
    if outcome.ret ≠ .streamError ∧ finish ∧ v ≠ [] then
      { outcome with stream :=
          { outcome.stream with zstream := codeEnd outcome.stream.zstream } }
    else outcome

variable (zlib : Zlib σ)

def encode : Nat → List (List UInt8) → Bool → ZlibStream σ → Option (Outcome σ) :=
  transform zlib.deflate zlib.deflateEnd

def decode : Nat → List (List UInt8) → Bool → ZlibStream σ → Option (Outcome σ) :=
  transform zlib.inflate zlib.inflateEnd

/-- Both functions `write`: of one segment, and of those that `getReadBuffers` gives. -/
def write (fuel : Nat) (buffers : List (List UInt8)) (stream : ZlibStream σ) :
    Option (Outcome σ) :=
  if stream.isEncode then encode zlib fuel buffers false stream
  else decode zlib fuel buffers false stream

/-- `flush`, which `close` is as well. -/
def flush (fuel : Nat) (stream : ZlibStream σ) : Option (Outcome σ) :=
  if stream.isEncode then encode zlib fuel [[]] true stream
  else decode zlib fuel [[]] true stream

/-- `getResult`, all buffers one behind the other. -/
def getResult (stream : ZlibStream σ) : List UInt8 :=
  stream.buffs.flatten

/-- The calls of a user. -/
inductive Request where
  | write (buffers : List (List UInt8))
  | flush

/-- A call of the stream. -/
def perform (fuel : Nat) : Request → ZlibStream σ → Option (Outcome σ)
  | .write buffers, stream => write zlib fuel buffers stream
  | .flush, stream => flush zlib fuel stream

/-- What the calls returned, the stream after them, and what the calls of zlib returned. -/
structure Transcript (σ : Type) where
  returned : List ZResult
  stream : ZlibStream σ
  results : List ZResult

/-- Calls one after another, whatever they return. -/
def session (fuel : Nat) : List Request → ZlibStream σ → Option (Transcript σ)
  | [], stream => some ⟨[], stream, []⟩
  | request :: requests, stream =>
      (perform zlib fuel request stream).bind fun outcome =>
        (session fuel requests outcome.stream).map fun rest =>
          ⟨outcome.ret :: rest.returned, rest.stream, outcome.results ++ rest.results⟩

end Model

variable {code : Coder σ} {flush : ZFlush} {input : List UInt8} {stream : ZlibStream σ}

@[simp] theorem store_zstream (zstream : σ) (produced : List UInt8) :
    (stream.store zstream produced).zstream = zstream := rfl

/-- A round that fills the open buffer is followed by another. -/
theorem fillBuffers_again
    (consistent : (code stream.zstream flush input stream.availOut).ret ≠ .streamError)
    (full : (code stream.zstream flush input stream.availOut).produced.length = stream.availOut)
    (fuel : Nat) :
    let answer := code stream.zstream flush input stream.availOut
    fillBuffers code flush (fuel + 1) input stream =
      (fillBuffers code flush fuel (input.drop answer.consumed)
        (stream.store answer.state answer.produced)).map fun rest =>
          { rest with results := answer.ret :: rest.results } := by
  simp only [fillBuffers, if_neg consistent, if_pos full]

/-- A round that leaves space is the last. -/
theorem fillBuffers_last
    (consistent : (code stream.zstream flush input stream.availOut).ret ≠ .streamError)
    (space : (code stream.zstream flush input stream.availOut).produced.length ≠ stream.availOut)
    (fuel : Nat) :
    let answer := code stream.zstream flush input stream.availOut
    fillBuffers code flush (fuel + 1) input stream =
      some ⟨.ok, stream.store answer.state answer.produced, [answer.ret]⟩ := by
  simp only [fillBuffers, if_neg consistent, if_neg space]

end ZlibStream

end Sylar
