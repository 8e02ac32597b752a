import Mathlib.Tactic.Common
import Sylar.Library.Transition
import Sylar.Log.Formatter

/-!
# Log files

`FileLogAppender` of `log.cpp`. Opening the stream truncates the file, and `log` opens
it again when an event comes three seconds or more after the last time. What was
written is kept exactly in those runs in which this happens to an empty file only.
-/

namespace Sylar.Log

open Http (bytes)
open Library

/-- The members of `LogAppender`. -/
structure LogAppender where
  level : LogLevel
  hasFormatter : Bool
  formatter : Option LogFormatter
deriving DecidableEq, Repr

namespace LogAppender

/-- A new appender, without a format of its own. -/
def new : LogAppender := ⟨.debug, false, none⟩

def setLevel (appender : LogAppender) (val : LogLevel) : LogAppender :=
  { appender with level := val }

/-- `setFormatter`, which tells whether the appender has one of its own. -/
def setFormatter (appender : LogAppender) (val : Option LogFormatter) : LogAppender :=
  { appender with formatter := val, hasFormatter := val.isSome }

end LogAppender

/-- `contents` is what the file holds; what is still in the buffer of the stream counts as
written. -/
structure FileLogAppender extends LogAppender where
  filename : Text
  lastTime : UInt64
  contents : Text
deriving DecidableEq, Repr

namespace FileLogAppender

/-- `reopen`, which closes the stream and opens the file, and so truncates it. -/
def reopen (appender : FileLogAppender) : FileLogAppender := { appender with contents := [] }

/-- The constructor. -/
def new (filename : Text) : FileLogAppender := (⟨.new, filename, 0, []⟩ : FileLogAppender).reopen

/-- A call of `log`, by a logger that calls it with the level `level`. -/
structure Call where
  level : LogLevel
  event : LogEvent
deriving DecidableEq, Repr

section

variable (strftime : Text → UInt64 → Text)

/-- `log`; `none` when `m_formatter` is null. -/
def log (appender : FileLogAppender) (call : Call) : Option FileLogAppender :=
  if appender.level.toNat ≤ call.level.toNat then
    let now := call.event.time
    let appender :=
      if appender.lastTime + 3 ≤ now then { appender.reopen with lastTime := now } else appender
    appender.formatter.map fun formatter =>
      { appender with
        contents := appender.contents ++ formatter.format strftime call.level call.event }
  else some appender

/-- The text of a call. -/
def text (formatter : LogFormatter) (call : Call) : Text :=
  formatter.format strftime call.level call.event

/-- An appender as it is set up: opened, with a level and a format. -/
def setUp (filename : Text) (level : LogLevel) (formatter : LogFormatter) : FileLogAppender :=
  { new filename with
    toLogAppender := ((new filename).toLogAppender.setLevel level).setFormatter (some formatter) }

/-- When the file was opened again for the last time, after some calls. -/
def lastReopened (calls : List Call) : UInt64 :=
  calls.foldl (fun last call => if last + 3 ≤ call.event.time then call.event.time else last) 0

/-- After each of the calls the file holds the texts of all so far. -/
def Kept (filename : Text) (level : LogLevel) (formatter : LogFormatter) (calls : List Call) :
    Prop :=
  ∀ before after, calls = before ++ after →
    (exec (log strftime) (setUp filename level formatter) before).map (·.contents) =
      some (before.flatMap (text strftime formatter))

variable {strftime} {level : LogLevel} {formatter : LogFormatter}

theorem lastReopened_append (calls : List Call) (call : Call) :
    lastReopened (calls ++ [call]) =
      if lastReopened calls + 3 ≤ call.event.time then call.event.time else lastReopened calls :=
  List.foldl_append

/-- What a call at or above the level does. -/
theorem log_eq {appender : FileLogAppender} {call : Call}
    (enough : appender.level.toNat ≤ call.level.toNat)
    (has : appender.formatter = some formatter) :
    log strftime appender call = some { appender with
      lastTime := if appender.lastTime + 3 ≤ call.event.time then call.event.time
        else appender.lastTime
      contents := (if appender.lastTime + 3 ≤ call.event.time then [] else appender.contents) ++
        text strftime formatter call } := by
  unfold log
  rw [if_pos enough]
  by_cases late : appender.lastTime + 3 ≤ call.event.time
  · simp only [if_pos late, reopen, has, Option.map_some]
    rfl
  · simp only [if_neg late, has, Option.map_some]
    rfl

/-- An appender after some calls. -/
structure Reached (level : LogLevel) (formatter : LogFormatter) (calls : List Call)
    (appender : FileLogAppender) : Prop where
  level : appender.level = level
  formatter : appender.formatter = some formatter
  lastTime : appender.lastTime = lastReopened calls

variable (strftime) in
theorem Reached.log {calls : List Call} {call : Call} {appender : FileLogAppender}
    (reached : Reached level formatter calls appender)
    (enough : level.toNat ≤ call.level.toNat) :
    ∃ next, log strftime appender call = some next ∧ Reached level formatter (calls ++ [call]) next ∧
      next.contents = (if lastReopened calls + 3 ≤ call.event.time then [] else appender.contents) ++
        text strftime formatter call := by
  have enough : appender.level.toNat ≤ call.level.toNat := reached.level ▸ enough
  have logged : FileLogAppender.log strftime appender call = _ := log_eq enough reached.formatter
  refine ⟨_, logged, ⟨reached.level, reached.formatter, ?_⟩, ?_⟩
  · rw [lastReopened_append, ← reached.lastTime]
  · rw [← reached.lastTime]

/-- The calls that follow some calls after which the file held all texts. -/
theorem kept_from (past : List Call) {calls : List Call} {appender : FileLogAppender}
    (levels : ∀ call ∈ calls, level.toNat ≤ call.level.toNat)
    (reached : Reached level formatter past appender)
    (contents : appender.contents = past.flatMap (text strftime formatter)) :
    (∀ before after, calls = before ++ after →
      (exec (FileLogAppender.log strftime) appender before).map (·.contents) =
        some ((past ++ before).flatMap (text strftime formatter))) ↔
      ∀ before call after, calls = before ++ call :: after →
        lastReopened (past ++ before) + 3 ≤ call.event.time →
          (past ++ before).flatMap (text strftime formatter) = [] := by
  induction calls generalizing past appender with
  | nil =>
      refine iff_of_true ?_ (by simp)
      intro before after split
      obtain ⟨rfl, rfl⟩ := List.append_eq_nil_iff.mp split.symm
      rw [List.append_nil, exec, Option.map_some, contents]
  | cons first rest inductionHypothesis =>
      obtain ⟨next, logged, further, written⟩ :=
        Reached.log strftime reached (levels first List.mem_cons_self)
      have later : next.contents = (past ++ [first]).flatMap (text strftime formatter) ↔
          (lastReopened past + 3 ≤ first.event.time →
            past.flatMap (text strftime formatter) = []) := by
        rw [written, List.flatMap_append, List.flatMap_singleton, List.append_left_inj]
        by_cases late : lastReopened past + 3 ≤ first.event.time
        · rw [if_pos late, eq_comm]
          exact ⟨fun empty _ => empty, fun empty => empty late⟩
        · rw [if_neg late]
          exact iff_of_true contents fun reopened => absurd reopened late
      have onward := fun same => inductionHypothesis (past ++ [first])
        (fun call member => levels call (List.mem_cons_of_mem _ member)) further same
      have steps : ∀ before, exec (FileLogAppender.log strftime) appender (first :: before) =
          exec (FileLogAppender.log strftime) next before := by
        intro before
        rw [exec, logged, Option.bind_some]
      constructor
      · intro kept
        have same : next.contents = (past ++ [first]).flatMap (text strftime formatter) := by
          have now := kept [first] rest rfl
          rw [steps, exec, Option.map_some] at now
          exact Option.some.inj now
        have others := (onward same).mp fun before after split => by
          have now := kept (first :: before) after (by rw [split]; rfl)
          rwa [steps, List.append_cons] at now
        intro before call after split late
        cases before with
        | nil =>
            cases split
            rw [List.append_nil] at late ⊢
            exact later.mp same late
        | cons other before =>
            cases split
            have empty := others before call after rfl (by rwa [List.append_assoc])
            rwa [List.append_assoc] at empty
      · intro empties
        have same := later.mpr fun late => by
          have empty := empties [] first rest rfl (by rwa [List.append_nil])
          rwa [List.append_nil] at empty
        have others := (onward same).mpr fun before call after split late => by
          have empty := empties (first :: before) call after (by rw [split]; rfl)
            (by rwa [List.append_cons])
          rwa [List.append_cons] at empty
        intro before after split
        cases before with
        | nil => rw [List.append_nil, exec, Option.map_some, contents]
        | cons other before =>
            cases split
            rw [steps, List.append_cons]
            exact others before after rfl

/-- The file holds the texts of all calls at any time, if and only if no call that comes three
seconds or more after the file was last opened finds something written in it. -/
theorem file_logs_kept (filename : Text) {calls : List Call}
    (levels : ∀ call ∈ calls, level.toNat ≤ call.level.toNat) :
    Kept strftime filename level formatter calls ↔
      ∀ before call after, calls = before ++ call :: after →
        lastReopened before + 3 ≤ call.event.time →
          before.flatMap (text strftime formatter) = [] :=
  kept_from [] levels ⟨rfl, rfl, rfl⟩ rfl

end

section Runs

/-- A message at a time. -/
def message (time : UInt64) (content : String) : Call :=
  ⟨.info, ⟨[], 0, 0, 0, 0, time, [], bytes content, bytes "root", .info⟩⟩

/-- Two messages within three seconds. -/
theorem file_logs_kept_together :
    Kept (fun _ _ => []) (bytes "log.txt") .info (.new (bytes "%m%n"))
      [message 10 "a", message 12 "b"] := by
  refine (file_logs_kept _ (by decide)).mpr fun before call after split late => ?_
  match before with
  | [] => rfl
  | [first] =>
      cases split
      exact absurd late (by decide)
  | first :: second :: more =>
      have lengths := congrArg List.length split
      simp at lengths

/-- The second message is three seconds after the first one. -/
theorem file_logs_lost :
    ¬Kept (fun _ _ => []) (bytes "log.txt") .info (.new (bytes "%m%n"))
      [message 10 "a", message 13 "b"] := by
  intro kept
  have now := kept [message 10 "a", message 13 "b"] [] rfl
  exact absurd now (by decide)

end Runs

end FileLogAppender

end Sylar.Log
