import Mathlib.Data.List.TakeWhile

/-!
# Lines that end in CR LF

A text as the lines that are written one behind the other, and as a reader sees it
who takes lines up to the first empty one.
-/

namespace Sylar.Library

/-- The end of a line. -/
def lineEnd : List UInt8 := [13, 10]

/-- The lines of a text, of which `line` is the beginning of the first. -/
def splitLines (line : List UInt8) : List UInt8 → List (List UInt8)
  | [] => [line]
  | 13 :: 10 :: rest => line :: splitLines [] rest
  | byte :: rest => splitLines (line ++ [byte]) rest

/-- The lines before the first empty one, and what is behind it. -/
def readHead (line : List UInt8) : List UInt8 → Option (List (List UInt8) × List UInt8)
  | [] => none
  | 13 :: 10 :: rest =>
      if line = [] then some ([], rest)
      else (readHead [] rest).map fun head => (line :: head.1, head.2)
  | byte :: rest => readHead (line ++ [byte]) rest

/-- What `readHead` makes of lines with more behind them. -/
def readLines (more : List UInt8) : List (List UInt8) → Option (List (List UInt8) × List UInt8)
  | [] => readHead [] more
  | line :: rest =>
      if line = [] then some ([], rest.flatMap (· ++ lineEnd) ++ more)
      else (readLines more rest).map fun head => (line :: head.1, head.2)

/-- The lines of a text, with their ends, are the text. -/
theorem flatMap_splitLines (line text : List UInt8) :
    (splitLines line text).flatMap (· ++ lineEnd) = line ++ (text ++ lineEnd) := by
  fun_induction splitLines line text with
  | case1 line => simp
  | case2 line rest inductionHypothesis =>
      rw [List.flatMap_cons, inductionHypothesis]
      simp [lineEnd]
  | case3 line byte rest other inductionHypothesis =>
      rw [inductionHypothesis]
      simp

/-- A text without an end of a line is one line. -/
theorem splitLines_of_notMem {line text : List UInt8} (single : 13 ∉ text) :
    splitLines line text = [line ++ text] := by
  fun_induction splitLines line text with
  | case1 line => rw [List.append_nil]
  | case2 line rest => exact absurd List.mem_cons_self single
  | case3 line byte rest other inductionHypothesis =>
      rw [inductionHypothesis fun later => single (List.mem_cons_of_mem byte later),
        List.append_assoc]
      rfl

theorem readHead_append (line text more : List UInt8) :
    readHead line (text ++ (lineEnd ++ more)) = readLines more (splitLines line text) := by
  fun_induction splitLines line text with
  | case1 line =>
      change (if line = [] then _ else _) = if line = [] then _ else _
      rfl
  | case2 line rest inductionHypothesis =>
      change (if line = [] then some ([], rest ++ (lineEnd ++ more)) else _) = _
      rw [readLines, flatMap_splitLines, ← inductionHypothesis, List.nil_append, List.append_assoc]
      rfl
  | case3 line byte rest other inductionHypothesis =>
      rw [← inductionHypothesis, List.cons_append, readHead]
      intro behind isReturn newline
      cases rest with
      | nil => cases newline
      | cons next rest =>
          cases newline
          exact other rest isReturn rfl

/-- Lines in front of a text that is read as lines itself. -/
theorem readLines_append {first second : List (List UInt8)} {more text : List UInt8}
    (written : text = second.flatMap (· ++ lineEnd) ++ more)
    (read : readHead [] text = readLines more second) :
    readLines text first = readLines more (first ++ second) := by
  induction first with
  | nil => exact read
  | cons line rest inductionHypothesis =>
      rw [List.cons_append, readLines, readLines, inductionHypothesis, written,
        List.flatMap_append, List.append_assoc]

theorem flatMap_flatMap_splitLines (texts : List (List UInt8)) :
    (texts.flatMap (splitLines [])).flatMap (· ++ lineEnd) = texts.flatMap (· ++ lineEnd) := by
  rw [List.flatMap_assoc]
  simp only [flatMap_splitLines, List.nil_append]

/-- Texts one behind the other, each ended as a line. -/
theorem readHead_flatMap (texts : List (List UInt8)) (more : List UInt8) :
    readHead [] (texts.flatMap (· ++ lineEnd) ++ more) =
      readLines more (texts.flatMap (splitLines [])) := by
  induction texts with
  | nil => rfl
  | cons text texts inductionHypothesis =>
      rw [List.flatMap_cons, List.flatMap_cons, List.append_assoc, List.append_assoc,
        readHead_append]
      refine readLines_append ?_ inductionHypothesis
      rw [flatMap_flatMap_splitLines]

/-- Without an empty line all lines are read. -/
theorem readLines_of_notMem {more : List UInt8} {lines : List (List UInt8)} (whole : [] ∉ lines) :
    readLines more lines =
      (readHead [] more).map fun head => (lines ++ head.1, head.2) := by
  induction lines with
  | nil => simp [readLines]
  | cons line rest inductionHypothesis =>
      obtain ⟨some_, whole⟩ := not_or.mp (fun empty => whole (List.mem_cons.mpr empty))
      rw [readLines, if_neg (Ne.symm some_), inductionHypothesis whole, Option.map_map]
      rfl

/-- With an empty line only the lines in front of it are read. -/
theorem readLines_of_mem {more : List UInt8} {lines : List (List UInt8)} (blank : [] ∈ lines) :
    readLines more lines = some (lines.takeWhile (· ≠ []),
      (lines.dropWhile (· ≠ [])).tail.flatMap (· ++ lineEnd) ++ more) := by
  induction lines with
  | nil => cases blank
  | cons line rest inductionHypothesis =>
      rw [readLines]
      by_cases empty : line = []
      · rw [if_pos empty, List.takeWhile_cons_of_neg (by simpa using empty),
          List.dropWhile_cons_of_neg (by simpa using empty)]
        rfl
      · have later := (List.mem_cons.mp blank).resolve_left (Ne.symm empty)
        rw [if_neg empty, inductionHypothesis later,
          List.takeWhile_cons_of_pos (by simpa using empty),
          List.dropWhile_cons_of_pos (by simpa using empty)]
        rfl

end Sylar.Library
