import Sylar.Log.Logger

/-!
# What the loggers keep of earlier definitions

A logger that is defined again gets a new level and new appenders, and a new format only when
its definition has a valid one. Neither that nor its removal brings the default format back.
-/

namespace Sylar.Log

open Http (bytes)
open Library

/-- A pattern that is set: there is one, and it is valid. -/
def Formatted (pattern : Text) : Prop := pattern ≠ [] ∧ !(LogFormatter.new pattern).isError

instance : DecidablePred Formatted := fun _ => inferInstanceAs (Decidable (_ ∧ _))

/-- The appender of a definition, in a logger with a format. -/
def LogAppenderDefine.made (formatter : LogFormatter) (a : LogAppenderDefine) : Appender where
  level := a.level
  hasFormatter := Formatted a.formatter
  formatter := some (if Formatted a.formatter then .new a.formatter else formatter)
  filename := if a.type = 1 then some a.file else none

/-- What a definition makes of a logger, with the pattern it has then. -/
def LogDefine.configured (i : LogDefine) (name pattern : Text) : Logger where
  name := name
  level := i.level
  formatter := .new pattern
  appenders := i.appenders.map (LogAppenderDefine.made (.new pattern))

namespace LogIniter

theorem appender_eq {a : LogAppenderDefine} (type : a.type = 1 ∨ a.type = 2) (logger : Logger) :
    (appender a).map logger.addAppender =
      some { logger with appenders := logger.appenders ++ [a.made logger.formatter] } := by
  have kind : reset a = some ⟨.new, if a.type = 1 then some a.file else none⟩ := by
    rw [reset]
    rcases type with file | stdout
    · rw [if_pos file, if_pos file]
    · rw [if_neg (by omega), if_pos stdout, if_neg (by omega)]
  rw [appender, kind, Option.map_some, Option.map_some]
  by_cases formatted : Formatted a.formatter
  · simp only [if_pos (show a.formatter ≠ [] ∧ _ from formatted)]
    simp [Logger.addAppender, LogAppender.setFormatter, LogAppender.setLevel,
      LogAppenderDefine.made, formatted]
  · simp only [if_neg (show ¬(a.formatter ≠ [] ∧ _) from formatted)]
    simp [Logger.addAppender, LogAppender.new, LogAppender.setLevel,
      LogAppenderDefine.made, formatted]

/-- The appenders are made one after the other. -/
theorem foldlM_appender {appenders : List LogAppenderDefine}
    (types : ∀ a ∈ appenders, a.type = 1 ∨ a.type = 2) (logger : Logger) :
    appenders.foldlM (fun logger a => (appender a).map logger.addAppender) logger =
      some { logger with
        appenders := logger.appenders ++ appenders.map (LogAppenderDefine.made logger.formatter) } := by
  induction appenders generalizing logger with
  | nil => simp
  | cons a appenders inductionHypothesis =>
      rw [List.forall_mem_cons] at types
      rw [List.foldlM_cons, appender_eq types.1]
      change List.foldlM _ _ _ = _
      rw [inductionHypothesis types.2, List.append_assoc]
      rfl

theorem configure_eq {i : LogDefine} (types : ∀ a ∈ i.appenders, a.type = 1 ∨ a.type = 2)
    {logger : Logger} {pattern : Text} (before : logger.formatter = .new pattern) :
    configure i logger =
      some (i.configured logger.name (if Formatted i.formatter then i.formatter else pattern)) := by
  rw [configure]
  simp only [foldlM_appender types]
  by_cases formatted : Formatted i.formatter
  · obtain ⟨some_, valid⟩ := formatted
    have noError : ¬(LogFormatter.new i.formatter).isError = true := by simpa using valid
    rw [if_pos some_, if_pos ⟨some_, valid⟩, Logger.setFormatterString, if_neg noError]
    simp [Logger.clearAppenders, Logger.setFormatter, Logger.setLevel, LogDefine.configured]
  · have same : (if i.formatter ≠ [] then (logger.setLevel i.level).setFormatterString i.formatter
        else logger.setLevel i.level) = logger.setLevel i.level := by
      split
      · rename_i some_
        rw [Logger.setFormatterString, if_pos]
        by_contra noError
        exact formatted ⟨some_, by simpa using noError⟩
      · rfl
    rw [same, if_neg formatted]
    simp [Logger.clearAppenders, Logger.setLevel, LogDefine.configured, before]

end LogIniter

namespace LogDefine

variable {set : List LogDefine} {i : LogDefine}

theorem compares : OrderedSet.Compares less fun i => i.name.map UInt8.toNat :=
  fun _ _ => decide_eq_true_iff

theorem same_name {x y : LogDefine} :
    x.name.map UInt8.toNat = y.name.map UInt8.toNat ↔ x.name = y.name :=
  (List.map_injective_iff.mpr fun _ _ => UInt8.toNat_inj.mp).eq_iff

/-- A definition is looked up by its name. -/
theorem find_eq (sorted : OrderedSet.Sorted less set) (i : LogDefine) :
    OrderedSet.find less i set = set.find? (·.name = i.name) := by
  simp only [OrderedSet.find_eq_find? compares sorted, same_name]

theorem find?_of_mem (sorted : OrderedSet.Sorted less set) (member : i ∈ set) :
    set.find? (·.name = i.name) = some i := by
  rw [← find_eq sorted, OrderedSet.find_of_mem compares sorted member]

end LogDefine

namespace LogIniter

theorem exists_configure {i : LogDefine} (types : ∀ a ∈ i.appenders, a.type = 1 ∨ a.type = 2)
    (logger : Logger) : ∃ after, configure i logger = some after :=
  ⟨_, foldlM_appender types _⟩

/-- What the first loop does with the logger of a definition. -/
def added (old_value : List LogDefine) (i : LogDefine) (logger : Option Logger) : Option Logger :=
  if old_value.find? (·.name = i.name) = some i then logger
  else configure i (logger.getD (.new i.name))

/-- What the second loop does with the logger of a definition. -/
def removed (new_value : List LogDefine) (i : LogDefine) (logger : Option Logger) : Option Logger :=
  match new_value.find? (·.name = i.name) with
  | none => some (retire (logger.getD (.new i.name)))
  | some _ => logger

theorem inNew_eq (old_value : LogDefines) {i : LogDefine}
    (types : ∀ a ∈ i.appenders, a.type = 1 ∨ a.type = 2) (manager : LoggerManager) :
    inNew old_value.defines manager i =
      some (Function.update manager i.name (added old_value.defines i (manager i.name))) := by
  obtain ⟨after, configured⟩ := exists_configure types (manager.getLogger i.name)
  have changed : manager.change i.name (configure i) = some (Function.update manager i.name
      (configure i ((manager i.name).getD (.new i.name)))) := by
    rw [LoggerManager.change, configured]
    exact congrArg (some <| Function.update manager i.name ·) configured.symm
  rw [inNew, added, LogDefine.find_eq old_value.sorted]
  cases found : old_value.defines.find? (·.name = i.name) with
  | none => exact changed
  | some it =>
      by_cases same : i = it
      · subst same
        rw [if_pos rfl]
        simp
      · simp only [if_neg same, changed]
        rw [if_neg fun equal => same (Option.some.inj equal).symm]

theorem inOld_eq (new_value : LogDefines) (i : LogDefine) (manager : LoggerManager) :
    inOld new_value.defines manager i =
      some (Function.update manager i.name (removed new_value.defines i (manager i.name))) := by
  rw [inOld, removed, LogDefine.find_eq new_value.sorted]
  cases found : new_value.defines.find? (·.name = i.name) with
  | none => rfl
  | some it => simp

/-- What the listener does with the logger of one name. -/
def entry (old_value new_value : List LogDefine) (name : Text) (logger : Option Logger) :
    Option Logger :=
  match new_value.find? (·.name = name) with
  | some i =>
      if old_value.find? (·.name = name) = some i then logger
      else configure i (logger.getD (.new name))
  | none =>
      match old_value.find? (·.name = name) with
      | some _ => some (retire (logger.getD (.new name)))
      | none => logger

/-- The listener works on each name by itself. -/
theorem listener_eq (old_value new_value : LogDefines) (manager : LoggerManager) :
    ∃ after, listener old_value.defines new_value.defines manager = some after ∧
      ∀ name, after name = entry old_value.defines new_value.defines name (manager name) := by
  obtain ⟨middle, first, configured⟩ := OrderedSet.foldlM_update LogDefine.compares
    new_value.sorted (fun _ _ => LogDefine.same_name.mpr)
    (fun i member => inNew_eq old_value (new_value.types i member)) manager
  obtain ⟨after, second, retired⟩ := OrderedSet.foldlM_update LogDefine.compares
    old_value.sorted (fun _ _ => LogDefine.same_name.mpr)
    (fun i _ => inOld_eq new_value i) middle
  refine ⟨after, by rw [listener, first, Option.bind_some, second], fun name => ?_⟩
  rw [retired name, configured name, entry]
  cases inside : new_value.defines.find? (·.name = name) with
  | none =>
      cases before : old_value.defines.find? (·.name = name) with
      | none => rfl
      | some i =>
          have named : i.name = name := by simpa using List.find?_some before
          simp only [removed, named, inside]
  | some i =>
      have named : i.name = name := by simpa using List.find?_some inside
      cases before : old_value.defines.find? (·.name = name) with
      | none => simp only [added, named, before]
      | some j =>
          have other : j.name = name := by simpa using List.find?_some before
          simp only [added, removed, named, other, inside, before]

end LogIniter

/-- The pattern of a logger after values were set: that of the last definition with its name that
has a valid one. -/
def prevailing (name : Text) (values : List LogDefines) : Text :=
  values.foldl (fun pattern value =>
    match value.defines.find? (·.name = name) with
    | some i => if Formatted i.formatter then i.formatter else pattern
    | none => pattern) Logger.defaultPattern

theorem prevailing_append (name : Text) (values : List LogDefines) (value : LogDefines) :
    prevailing name (values ++ [value]) =
      match value.defines.find? (·.name = name) with
      | some i => if Formatted i.formatter then i.formatter else prevailing name values
      | none => prevailing name values :=
  List.foldl_append

namespace LogConfig

/-- What the loggers are after some values. -/
structure Follows (values : List LogDefines) (s : LogConfig) : Prop where
  pattern : ∀ name, (s.manager.getLogger name).formatter = .new (prevailing name values)
  name : ∀ name, (s.manager.getLogger name).name = name
  defined : ∀ i ∈ s.val.defines,
    s.manager i.name = some (i.configured i.name (prevailing i.name values))
  settled : ∀ i ∈ s.val.defines, Formatted i.formatter → prevailing i.name values = i.formatter

theorem follows_new : Follows [] new := by
  have root : ∀ name, (LoggerManager.new.getLogger name).formatter = .new Logger.defaultPattern ∧
      (LoggerManager.new.getLogger name).name = name := by
    intro name
    rw [LoggerManager.getLogger, LoggerManager.new]
    by_cases same : name = bytes "root"
    · subst same
      exact ⟨rfl, rfl⟩
    · have apart : name ≠ ((Logger.new (bytes "root")).addAppender ⟨.new, none⟩).name := same
      rw [Function.update_of_ne apart]
      exact ⟨rfl, rfl⟩
  exact ⟨fun name => (root name).1, fun name => (root name).2, nofun, nofun⟩

/-- A value that is set again changes nothing. -/
theorem Follows.same {values : List LogDefines} {s : LogConfig} (follows : Follows values s)
    {v : LogDefines} (same : v.defines = s.val.defines) : Follows (values ++ [v]) s := by
  have unchanged : ∀ name, prevailing name (values ++ [v]) = prevailing name values := by
    intro name
    rw [prevailing_append, same]
    cases found : s.val.defines.find? (·.name = name) with
    | none => rfl
    | some i =>
        have named : i.name = name := by simpa using List.find?_some found
        simp only
        split
        · rename_i formatted
          rw [← named, follows.settled i (List.mem_of_find?_eq_some found) formatted]
        · rfl
  constructor
  · simpa only [unchanged] using follows.pattern
  · exact follows.name
  · simpa only [unchanged] using follows.defined
  · simpa only [unchanged] using follows.settled

/-- The logger of a definition is configured by it, in this round or before. -/
theorem Follows.entry_some {values : List LogDefines} {s : LogConfig}
    (follows : Follows values s) {v : LogDefines} {i : LogDefine} {name : Text}
    (found : v.defines.find? (·.name = name) = some i) :
    LogIniter.entry s.val.defines v.defines name (s.manager name) =
      some (i.configured name (prevailing name (values ++ [v]))) := by
  have named : i.name = name := by simpa using List.find?_some found
  have member := List.mem_of_find?_eq_some found
  rw [LogIniter.entry, prevailing_append, found]
  by_cases kept : s.val.defines.find? (·.name = name) = some i
  · have earlier := List.mem_of_find?_eq_some kept
    have before := follows.defined i earlier
    rw [named] at before
    simp only [if_pos kept, before]
    split
    · rename_i formatted
      rw [← named, follows.settled i earlier formatted]
    · rfl
  · simp only [if_neg kept]
    have configured := LogIniter.configure_eq (v.types i member) (follows.pattern name)
    rw [follows.name name] at configured
    exact configured

/-- Without a definition the logger keeps its format. -/
theorem Follows.entry_none {values : List LogDefines} {s : LogConfig}
    (follows : Follows values s) {v : LogDefines} {name : Text}
    (missing : v.defines.find? (·.name = name) = none) {manager : LoggerManager}
    (became : manager name = LogIniter.entry s.val.defines v.defines name (s.manager name)) :
    (manager.getLogger name).formatter = .new (prevailing name (values ++ [v])) ∧
      (manager.getLogger name).name = name := by
  have unchanged : prevailing name (values ++ [v]) = prevailing name values := by
    rw [prevailing_append, missing]
  rw [LoggerManager.getLogger, became, LogIniter.entry, missing, unchanged, ← follows.pattern name]
  cases before : s.val.defines.find? (·.name = name) with
  | none => exact ⟨rfl, follows.name name⟩
  | some i => exact ⟨rfl, follows.name name⟩

theorem Follows.setValue {values : List LogDefines} {s : LogConfig} (follows : Follows values s)
    (v : LogDefines) : ∃ next, s.setValue v = some next ∧ next.val.defines = v.defines ∧
      Follows (values ++ [v]) next := by
  rw [LogConfig.setValue]
  by_cases same : v.defines = s.val.defines
  · rw [if_pos same]
    exact ⟨s, rfl, same.symm, follows.same same⟩
  · rw [if_neg same]
    obtain ⟨manager, ran, entries⟩ := LogIniter.listener_eq s.val v s.manager
    have written : ∀ {i name}, v.defines.find? (·.name = name) = some i →
        manager name = some (i.configured name (prevailing name (values ++ [v]))) := by
      intro i name found
      rw [entries name, follows.entry_some found]
    have known : ∀ name, (manager.getLogger name).formatter =
        .new (prevailing name (values ++ [v])) ∧ (manager.getLogger name).name = name := by
      intro name
      cases found : v.defines.find? (·.name = name) with
      | none => exact follows.entry_none found (entries name)
      | some i =>
          rw [LoggerManager.getLogger, written found]
          exact ⟨rfl, rfl⟩
    refine ⟨⟨v, manager⟩, by rw [ran, Option.map_some], rfl, ?_⟩
    refine ⟨fun name => (known name).1, fun name => (known name).2, ?_, ?_⟩
    · intro i member
      exact written (LogDefine.find?_of_mem v.sorted member)
    · intro i member formatted
      rw [prevailing_append, LogDefine.find?_of_mem v.sorted member]
      exact if_pos formatted

/-- Every sequence of values is carried out. -/
theorem exists_exec {before : List LogDefines} {s : LogConfig} (follows : Follows before s)
    (values : List LogDefines) :
    ∃ after, exec LogConfig.setValue s values = some after ∧ Follows (before ++ values) after := by
  induction values generalizing before s with
  | nil => exact ⟨s, rfl, by rwa [List.append_nil]⟩
  | cons v values inductionHypothesis =>
      obtain ⟨next, taken, -, nextFollows⟩ := follows.setValue v
      obtain ⟨after, ran, afterFollows⟩ := inductionHypothesis nextFollows
      refine ⟨after, by rw [exec, taken, Option.bind_some, ran], ?_⟩
      rwa [List.append_assoc] at afterFollows

/-- After the values were set every logger of the last one is configured by it. -/
theorem managerAfter_eq (earlier : List LogDefines) (last : LogDefines) :
    ∃ manager, managerAfter (earlier ++ [last]) = some manager ∧ ∀ i ∈ last.defines,
      manager i.name = some (i.configured i.name (prevailing i.name (earlier ++ [last]))) := by
  obtain ⟨s, ran, follows⟩ := exists_exec follows_new earlier
  obtain ⟨final, taken, same, finalFollows⟩ := follows.setValue last
  refine ⟨final.manager, ?_, ?_⟩
  · rw [managerAfter, exec_append, ran, Option.bind_some, exec, taken]
    rfl
  · rw [← same]
    exact finalFollows.defined

end LogConfig

/-- What is compared of a logger: its level, the pattern of its format, and of each appender the
kind and file, the level and the pattern. -/
def Logger.shown (logger : Logger) :
    LogLevel × Text × List (Option Text × LogLevel × Option Text) :=
  (logger.level, logger.formatter.getPattern, logger.appenders.map fun appender =>
    (appender.filename, appender.level, appender.formatter.map LogFormatter.getPattern))

/-- The loggers of the last value are as if only that value had been set. -/
def Converges (earlier : List LogDefines) (last : LogDefines) : Prop :=
  ∃ manager fresh, LogConfig.managerAfter (earlier ++ [last]) = some manager ∧
    LogConfig.managerAfter [last] = some fresh ∧
    ∀ i ∈ last.defines, (manager i.name).map Logger.shown = (fresh i.name).map Logger.shown

theorem converges_iff_prevailing (earlier : List LogDefines) (last : LogDefines) :
    Converges earlier last ↔ ∀ i ∈ last.defines,
      prevailing i.name (earlier ++ [last]) = prevailing i.name [last] := by
  obtain ⟨manager, ran, configured⟩ := LogConfig.managerAfter_eq earlier last
  obtain ⟨fresh, alone, only⟩ := LogConfig.managerAfter_eq [] last
  constructor
  · rintro ⟨_, _, again, onlyAgain, same⟩ i member
    cases ran.symm.trans again
    cases alone.symm.trans onlyAgain
    have shown := same i member
    rw [configured i member, only i member] at shown
    exact congrArg (fun shown => shown.2.1) (Option.some.inj shown)
  · intro same
    refine ⟨manager, fresh, ran, alone, fun i member => ?_⟩
    rw [configured i member, only i member, same i member]
    rfl

/-- The configuration of the loggers converges, if and only if each definition has a valid format,
or comes after definitions of its name that leave the default one. -/
theorem converges_iff (earlier : List LogDefines) (last : LogDefines) :
    Converges earlier last ↔ ∀ i ∈ last.defines,
      Formatted i.formatter ∨ prevailing i.name earlier = Logger.defaultPattern := by
  rw [converges_iff_prevailing]
  refine forall₂_congr fun i member => ?_
  have alone := prevailing_append i.name [] last
  rw [List.nil_append] at alone
  rw [prevailing_append, alone, LogDefine.find?_of_mem last.sorted member]
  by_cases formatted : Formatted i.formatter
  · simp [formatted]
  · simp only [formatted, false_or]
    rfl

/-- The definition of a logger with a format, and then without one. -/
theorem not_converges :
    ¬Converges [⟨[⟨bytes "system", .info, bytes "%m%n", []⟩], List.pairwise_singleton .., by decide⟩]
      ⟨[⟨bytes "system", .info, [], []⟩], List.pairwise_singleton .., by decide⟩ := by
  rw [converges_iff_prevailing]
  intro same
  exact absurd (same _ List.mem_cons_self) (by decide)

end Sylar.Log
