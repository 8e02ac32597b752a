import Mathlib.Data.List.ReduceOption
import Mathlib.Tactic.Common
import Sylar.Log.Formatter

/-!
# Definitions of logs

`LogDefine` of `log.cpp` and its two `LexicalCast`s. A definition is written as a YAML node and
read back from one; emitting and loading the text are parameters.
-/

namespace Sylar.Log

open Http (bytes)

/-- A YAML node. -/
inductive Yaml where
  | null
  | scalar (value : Text)
  | sequence (nodes : List Yaml)
  | map (entries : List (Text × Yaml))

namespace Yaml

/-- A node whose keys were assigned one after the other. -/
def ofEntries : List (Text × Yaml) → Yaml
  | [] => null
  | entries => map entries

/-- `node[key]`: the inner option is empty where it is not `IsDefined`, and the outer one where the
subscript throws. -/
def subscript (key : Text) : Yaml → Option (Option Yaml)
  | scalar _ => none
  | map entries => some (entries.lookup key)
  | _ => some none

/-- `as<std::string>`, which throws unless the node is a scalar. -/
def asString : Yaml → Option Text
  | scalar value => some value
  | _ => none

/-- `node[0]`, `node[1]` and so on up to `node.size()`. -/
def elements : Yaml → List Yaml
  | sequence nodes => nodes
  | map entries => (List.range entries.length).map fun x =>
      (entries.lookup (bytes (ToString.toString x))).getD null
  | _ => []

/-- A string that may be missing, which is then empty. -/
def optionalString (key : Text) (node : Yaml) : Option Text := do
  match ← node.subscript key with
  | none => some []
  | some value => value.asString

end Yaml

structure LogAppenderDefine where
  /-- 1 for a file and 2 for the standard output. -/
  type : Int
  level : LogLevel
  formatter : Text
  file : Text
deriving DecidableEq, Repr

structure LogDefine where
  name : Text
  level : LogLevel
  formatter : Text
  appenders : List LogAppenderDefine
deriving DecidableEq, Repr

/-- An entry that is left out when the value is the default. -/
def entryUnless (default : Bool) (key value : Text) : List (Text × Yaml) :=
  if default then [] else [(key, .scalar value)]

namespace LogAppenderDefine

/-- The node `na`. -/
def toYaml (a : LogAppenderDefine) : Yaml :=
  .ofEntries
    ((if a.type = 1 then
        [(bytes "type", .scalar (bytes "FileLogAppender")), (bytes "file", .scalar a.file)]
      else if a.type = 2 then [(bytes "type", .scalar (bytes "StdoutAppender"))]
      else []) ++
    entryUnless (a.level = .unknow) (bytes "level") a.level.toString ++
    entryUnless (a.formatter = []) (bytes "formatter") a.formatter)

/-- One round of the loop over the appenders: the inner option is empty where it continues with the
next one, and the outer one where it throws. -/
def ofYaml (a : Yaml) : Option (Option LogAppenderDefine) := do
  match ← a.subscript (bytes "type") with
  | none => some none
  | some type =>
      let type ← type.asString
      if type = bytes "FileLogAppender" then
        match ← a.subscript (bytes "file") with
        | none => some none
        | some file =>
            let file ← file.asString
            let formatter ← a.optionalString (bytes "formatter")
            some (some ⟨1, .unknow, formatter, file⟩)
      else if type = bytes "StdoutLogAppender" then
        let formatter ← a.optionalString (bytes "formatter")
        some (some ⟨2, .unknow, formatter, []⟩)
      else some none

end LogAppenderDefine

namespace LogDefine

def isValid (i : LogDefine) : Bool := i.name ≠ []

/-- The node that is written. -/
def toYaml (i : LogDefine) : Yaml :=
  .ofEntries
    ((bytes "name", .scalar i.name) ::
      (entryUnless (i.level = .unknow) (bytes "level") i.level.toString ++
        entryUnless (i.formatter = []) (bytes "formatter") i.formatter ++
        if i.appenders = [] then []
        else [(bytes "appenders", .sequence (i.appenders.map LogAppenderDefine.toYaml))]))

/-- What is read from a node, unless it throws. -/
def ofYaml (n : Yaml) : Option LogDefine := do
  let name ← (← n.subscript (bytes "name")).bind Yaml.asString
  let level ← n.optionalString (bytes "level")
  let formatter ← n.optionalString (bytes "formatter")
  let appenders ← match ← n.subscript (bytes "appenders") with
    | none => some []
    | some appenders => appenders.elements.mapM LogAppenderDefine.ofYaml
  some ⟨name, LogLevel.fromString level, formatter, appenders.reduceOption⟩

/-- `LexicalCast<std::string, LogDefine>`. -/
def decode (load : Text → Option Yaml) (v : Text) : Option LogDefine := (load v).bind ofYaml

/-- `LexicalCast<LogDefine, std::string>`. -/
def encode (emit : Yaml → Text) (i : LogDefine) : Text := emit i.toYaml

end LogDefine

@[simp]
theorem LogLevel.fromString_toString (level : LogLevel) : fromString level.toString = level := by
  cases level <;> decide

namespace Yaml

variable {key other value : Text} {entries : List (Text × Yaml)} {default : Bool}

@[simp]
theorem subscript_ofEntries : (ofEntries entries).subscript key = some (entries.lookup key) := by
  cases entries <;> rfl

theorem optionalString_ofEntries (default : Bool)
    (found : entries.lookup key = (entryUnless default key value).lookup key)
    (empty : default = true → value = []) :
    (ofEntries entries).optionalString key = some value := by
  rw [optionalString, subscript_ofEntries, found]
  cases default with
  | true =>
      rw [empty rfl]
      rfl
  | false =>
      simp [entryUnless, asString]

theorem lookup_entryUnless_ne (apart : key ≠ other) :
    (entryUnless default other value).lookup key = none := by
  cases default with
  | true => rfl
  | false => simp [entryUnless, List.lookup_cons, beq_false_of_ne apart]

/-- Entries with other keys are passed over. -/
theorem lookup_behind {first rest : List (Text × Yaml)} (missing : first.lookup key = none) :
    (first ++ rest).lookup key = rest.lookup key := by
  rw [List.lookup_append, missing, Option.none_or]

end Yaml

section

open Yaml

/-- What is left of an appender: a file appender loses its level, and any other one is dropped. -/
def LogAppenderDefine.readBack (a : LogAppenderDefine) : Option LogAppenderDefine :=
  if a.type = 1 then some { a with level := .unknow } else none

theorem LogAppenderDefine.ofYaml_toYaml (a : LogAppenderDefine) :
    ofYaml a.toYaml = some a.readBack := by
  rw [readBack]
  obtain ⟨type, level, formatter, file⟩ := a
  have unnamed : ∀ {key}, key ≠ bytes "level" → key ≠ bytes "formatter" →
      (entryUnless (level = .unknow) (bytes "level") level.toString ++
        entryUnless (formatter = []) (bytes "formatter") formatter).lookup key = none := by
    intro key first second
    rw [lookup_behind (lookup_entryUnless_ne first), lookup_entryUnless_ne second]
  by_cases isFile : type = 1
  · have format : optionalString (bytes "formatter")
        (toYaml ⟨type, level, formatter, file⟩) = some formatter := by
      refine optionalString_ofEntries (decide (formatter = [])) ?_ of_decide_eq_true
      rw [List.append_assoc, lookup_behind (by rw [if_pos isFile]; rfl),
        lookup_behind (lookup_entryUnless_ne (by decide))]
    rw [ofYaml, format]
    simp only [toYaml, if_pos isFile, subscript_ofEntries, List.append_assoc]
    subst isFile
    rfl
  · rw [if_neg isFile, ofYaml, toYaml]
    simp only [if_neg isFile, subscript_ofEntries, List.append_assoc]
    by_cases isStdout : type = 2
    · rw [if_pos isStdout]
      rfl
    · rw [if_neg isStdout, List.nil_append, unnamed (by decide) (by decide)]
      rfl

/-- Only appenders of the two kinds are read. -/
theorem LogAppenderDefine.ofYaml_type {node : Yaml} {a : LogAppenderDefine}
    (read : ofYaml node = some (some a)) : a.type = 1 ∨ a.type = 2 := by
  obtain ⟨type?, _, read⟩ := Option.bind_eq_some_iff.mp read
  cases type? with
  | none => cases read
  | some type =>
      obtain ⟨name, _, read⟩ := Option.bind_eq_some_iff.mp read
      split at read
      · obtain ⟨file?, _, read⟩ := Option.bind_eq_some_iff.mp read
        cases file? with
        | none => cases read
        | some file =>
            obtain ⟨file, _, read⟩ := Option.bind_eq_some_iff.mp read
            obtain ⟨formatter, _, read⟩ := Option.bind_eq_some_iff.mp read
            cases read
            exact .inl rfl
      · split at read
        · obtain ⟨formatter, _, read⟩ := Option.bind_eq_some_iff.mp read
          cases read
          exact .inr rfl
        · cases read

namespace LogDefine

theorem mem_of_mapM {nodes : List Yaml} {appenders : List (Option LogAppenderDefine)}
    (read : nodes.mapM LogAppenderDefine.ofYaml = some appenders) {a : LogAppenderDefine}
    (member : some a ∈ appenders) : ∃ node, LogAppenderDefine.ofYaml node = some (some a) := by
  induction nodes generalizing appenders with
  | nil =>
      cases read
      cases member
  | cons node nodes inductionHypothesis =>
      rw [List.mapM_cons] at read
      obtain ⟨first, here, read⟩ := Option.bind_eq_some_iff.mp read
      obtain ⟨rest, there, read⟩ := Option.bind_eq_some_iff.mp read
      cases read
      rcases List.mem_cons.mp member with rfl | later
      · exact ⟨node, here⟩
      · exact inductionHypothesis there later

theorem decode_type {load : Text → Option Yaml} {v : Text} {i : LogDefine}
    (read : decode load v = some i) : ∀ a ∈ i.appenders, a.type = 1 ∨ a.type = 2 := by
  obtain ⟨node, _, read⟩ := Option.bind_eq_some_iff.mp read
  obtain ⟨name, _, read⟩ := Option.bind_eq_some_iff.mp read
  obtain ⟨name, _, read⟩ := Option.bind_eq_some_iff.mp read
  obtain ⟨level, _, read⟩ := Option.bind_eq_some_iff.mp read
  obtain ⟨formatter, _, read⟩ := Option.bind_eq_some_iff.mp read
  obtain ⟨appenders?, _, read⟩ := Option.bind_eq_some_iff.mp read
  intro a member
  cases appenders? with
  | none =>
      cases read
      cases member
  | some nodes =>
      obtain ⟨appenders, inside, read⟩ := Option.bind_eq_some_iff.mp read
      cases read
      have present : some a ∈ appenders := List.reduceOption_mem_iff.mp member
      obtain ⟨node, made⟩ := mem_of_mapM inside present
      exact LogAppenderDefine.ofYaml_type made

theorem mapM_ofYaml (appenders : List LogAppenderDefine) :
    (appenders.map LogAppenderDefine.toYaml).mapM LogAppenderDefine.ofYaml =
      some (appenders.map LogAppenderDefine.readBack) := by
  induction appenders with
  | nil => rfl
  | cons a appenders inductionHypothesis =>
      rw [List.map_cons, List.mapM_cons, LogAppenderDefine.ofYaml_toYaml, inductionHypothesis]
      rfl

/-- The name, the level and the format are read back, and of each appender what is left of it. -/
theorem ofYaml_toYaml (i : LogDefine) :
    ofYaml i.toYaml =
      some { i with appenders := i.appenders.filterMap LogAppenderDefine.readBack } := by
  obtain ⟨name, level, formatter, appenders⟩ := i
  have named : ∀ {key} {rest : List (Text × Yaml)}, key ≠ bytes "name" →
      ((bytes "name", .scalar name) :: rest).lookup key = rest.lookup key := by
    intro key rest apart
    rw [List.lookup_cons, beq_false_of_ne apart]
  have last : ∀ {key : Text}, key ≠ bytes "appenders" →
      (if appenders = [] then []
        else [(bytes "appenders", Yaml.sequence (appenders.map LogAppenderDefine.toYaml))]).lookup
          key = none := by
    intro key apart
    split
    · rfl
    · rw [List.lookup_cons, beq_false_of_ne apart]
      rfl
  have levels : optionalString (bytes "level") (toYaml ⟨name, level, formatter, appenders⟩) =
      some (if level = .unknow then [] else level.toString) := by
    refine optionalString_ofEntries (decide (level = .unknow)) ?_ fun unset => ?_
    · rw [named (by decide), List.append_assoc, List.lookup_append,
        lookup_behind (lookup_entryUnless_ne (by decide)), last (by decide), Option.or_none]
      cases level <;> rfl
    · rw [if_pos (by simpa using unset)]
  have format : optionalString (bytes "formatter") (toYaml ⟨name, level, formatter, appenders⟩) =
      some formatter := by
    refine optionalString_ofEntries (decide (formatter = [])) ?_ of_decide_eq_true
    rw [named (by decide), List.append_assoc, lookup_behind (lookup_entryUnless_ne (by decide)),
      List.lookup_append, last (by decide), Option.or_none]
  rw [ofYaml, levels, format]
  simp only [toYaml, subscript_ofEntries, List.lookup_cons_self]
  rw [named (by decide), lookup_behind (by
    rw [lookup_behind (lookup_entryUnless_ne (by decide)), lookup_entryUnless_ne (by decide)])]
  have read : LogLevel.fromString (if level = .unknow then [] else level.toString) = level := by
    cases level <;> decide
  by_cases alone : appenders = []
  · subst alone
    simp [asString, read, List.reduceOption]
  · simp [-List.mapM_map, asString, read, alone, elements, mapM_ofYaml, List.reduceOption,
      List.filterMap_map]

/-- Nothing is dropped or changed, if and only if nothing is in any of the members. -/
theorem filterMap_readBack_eq_self {appenders : List LogAppenderDefine} :
    appenders.filterMap LogAppenderDefine.readBack = appenders ↔
      ∀ a ∈ appenders, a.type = 1 ∧ a.level = .unknow := by
  induction appenders with
  | nil => exact iff_of_true rfl nofun
  | cons a appenders inductionHypothesis =>
      rw [List.forall_mem_cons, ← inductionHypothesis]
      by_cases isFile : a.type = 1
      · have left : a.readBack = some { a with level := .unknow } := if_pos isFile
        rw [List.filterMap_cons_some left, List.cons.injEq, and_iff_right isFile]
        refine and_congr_left fun _ => ⟨fun same => ?_, fun unset => ?_⟩
        · rw [← same]
        · rw [← unset]
      · have dropped : a.readBack = none := if_neg isFile
        rw [List.filterMap_cons_none dropped]
        refine iff_of_false (fun same => ?_) (fun kept => isFile kept.1.1)
        have shorter := List.length_filterMap_le LogAppenderDefine.readBack appenders
        rw [same, List.length_cons] at shorter
        omega

/-- A definition is read back as it was written, if and only if all its appenders are file
appenders without a level. -/
theorem decode_encode {emit : Yaml → Text} {load : Text → Option Yaml} (i : LogDefine)
    (preserved : load (emit i.toYaml) = some i.toYaml) :
    decode load (encode emit i) = some i ↔
      ∀ a ∈ i.appenders, a.type = 1 ∧ a.level = .unknow := by
  rw [decode, encode, preserved, Option.bind_some, ofYaml_toYaml, ← filterMap_readBack_eq_self]
  obtain ⟨name, level, formatter, appenders⟩ := i
  simp

/-- A definition with one file appender, and its text. -/
def toFile : LogDefine := ⟨bytes "root", .info, [], [⟨1, .unknow, [], bytes "log.txt"⟩]⟩

/-- A logger that writes to a file, as a text. -/
def toFileText : Text :=
  bytes "name: root\nlevel: INFO\nappenders:\n  - type: FileLogAppender\n    file: log.txt"

theorem decode_encode_toFile :
    decode (fun v => if v = toFileText then some toFile.toYaml else none)
      (encode (fun _ => toFileText) toFile) = some toFile :=
  (decode_encode toFile (if_pos rfl)).mpr (by decide)

/-- The writer calls the class `StdoutAppender` and the reader `StdoutLogAppender`. -/
theorem stdout_lost :
    ¬∃ (emit : Yaml → Text) (load : Text → Option Yaml),
      load (emit (toYaml ⟨bytes "root", .info, [], [⟨2, .unknow, [], []⟩]⟩)) =
        some (toYaml ⟨bytes "root", .info, [], [⟨2, .unknow, [], []⟩]⟩) ∧
      decode load (encode emit ⟨bytes "root", .info, [], [⟨2, .unknow, [], []⟩]⟩) =
        some ⟨bytes "root", .info, [], [⟨2, .unknow, [], []⟩]⟩ := by
  rintro ⟨emit, load, preserved, same⟩
  rw [decode, encode, preserved, Option.bind_some, ofYaml_toYaml, Option.some.injEq] at same
  exact absurd same (by decide)

end LogDefine

end

end Sylar.Log
