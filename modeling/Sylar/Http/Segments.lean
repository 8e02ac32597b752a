import Sylar.Http.Session

/-!
# Streams and the results of `read`

A stream that comes in several results of `read`, without the bytes that were
consumed.
-/

namespace Sylar.Http

theorem toInt_of_lt {buffSize : Nat} (size : buffSize < 2 ^ 31) : toInt buffSize = buffSize := by
  unfold toInt
  rw [Int.bmod_def]
  split <;> omega

/-- A stream without its first `count` bytes, cut where it was cut. -/
def skip : Nat → Connection → Connection
  | _, [] => []
  | count, result :: rest =>
      if count ≤ result.length then result.drop count :: rest
      else skip (count - result.length) rest

theorem skip_flatten (count : Nat) (reads : Connection) :
    (skip count reads).flatten = reads.flatten.drop count := by
  induction reads generalizing count with
  | nil => simp [skip]
  | cons result rest inductionHypothesis =>
      rw [skip, List.flatten_cons]
      split
      · rename_i within
        rw [List.flatten_cons, List.drop_append_of_le_length within]
      · rename_i beyond
        have nothing : result.drop count = [] := List.drop_eq_nil_of_le (by omega)
        rw [inductionHypothesis, List.drop_append, nothing, List.nil_append]

/-- Skipping leaves later results as they are. -/
theorem skip_tail {count : Nat} {reads rest : Connection} {left : List UInt8}
    (skipped : skip count reads = left :: rest) : rest <:+ reads.tail := by
  induction reads generalizing count with
  | nil => cases skipped
  | cons result more inductionHypothesis =>
      rw [skip] at skipped
      split at skipped
      · cases skipped
        exact List.suffix_refl _
      · exact (inductionHypothesis skipped).trans (List.tail_suffix more)

/-- Bytes are skipped in two steps. -/
theorem skip_skip {first second : Nat} {reads left : Connection} {head : List UInt8}
    (skipped : skip first reads = head :: left) (further : 0 < second) :
    skip second (head :: left) = skip (first + second) reads := by
  induction reads generalizing first with
  | nil => cases skipped
  | cons result rest inductionHypothesis =>
      rw [skip] at skipped
      split at skipped
      · cases skipped
        rename_i within
        rw [skip, skip, List.length_drop]
        split
        · rw [if_pos (by omega), List.drop_drop]
        · rw [if_neg (by omega)]
          congr 1
          omega
      · rename_i beyond
        rw [inductionHypothesis skipped]
        conv_rhs => rw [skip, if_neg (by omega)]
        congr 1
        omega

end Sylar.Http
