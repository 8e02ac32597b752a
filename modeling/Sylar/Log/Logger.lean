import Mathlib.Data.List.Lex
import Sylar.Library.OrderedSet
import Sylar.Library.Transition
import Sylar.Log.Define
import Sylar.Log.FileLog

/-!
# Loggers and their configuration

`Logger`, `LoggerManager` and the listener of `LogIniter`, which brings the loggers in line with
the definitions when these change.
-/

namespace Sylar.Log

open Http (bytes)
open Library

/-- The appenders that a definition can make. -/
structure Appender extends LogAppender where
  /-- The name of a `FileLogAppender`; a `StdoutLogAppender` has none. -/
  filename : Option Text
deriving DecidableEq, Repr

/-- The members of `Logger`, but for `m_root`. -/
structure Logger where
  name : Text
  level : LogLevel
  formatter : LogFormatter
  appenders : List Appender
deriving DecidableEq, Repr

namespace Logger

/-- The pattern of a new logger. -/
def defaultPattern : Text :=
  bytes "%d{%Y-%m-%d %H:%M:%S}%T%t%T%N%T%F%T[%p]%T[%c]%T<%f:%l>%T%m%n"

def new (name : Text) : Logger := ⟨name, .debug, .new defaultPattern, []⟩

def setLevel (logger : Logger) (val : LogLevel) : Logger := { logger with level := val }

/-- `setFormatter` of a formatter, which the appenders without one of their own follow. -/
def setFormatter (logger : Logger) (val : LogFormatter) : Logger :=
  { logger with
    formatter := val
    appenders := logger.appenders.map fun i =>
      if i.hasFormatter then i else { i with formatter := some val } }

/-- `setFormatter` of a pattern; an invalid one is ignored. -/
def setFormatterString (logger : Logger) (val : Text) : Logger :=
  if (LogFormatter.new val).isError then logger else logger.setFormatter (.new val)

/-- `addAppender`, which gives its formatter to an appender without one. -/
def addAppender (logger : Logger) (appender : Appender) : Logger :=
  let appender :=
    if appender.formatter = none then { appender with formatter := some logger.formatter }
    else appender
  { logger with appenders := logger.appenders ++ [appender] }

def clearAppenders (logger : Logger) : Logger := { logger with appenders := [] }

end Logger

/-- `m_loggers`. -/
abbrev LoggerManager := Text → Option Logger

namespace LoggerManager

def new : LoggerManager :=
  let root := (Logger.new (bytes "root")).addAppender ⟨.new, none⟩
  Function.update (fun _ => none) root.name (some root)

/-- The logger that `getLogger` returns. -/
def getLogger (manager : LoggerManager) (name : Text) : Logger :=
  (manager name).getD (.new name)

/-- `getLogger`, which keeps a new logger, and calls on what it returns. -/
def change (manager : LoggerManager) (name : Text) (calls : Logger → Option Logger) :
    Option LoggerManager :=
  (calls (manager.getLogger name)).map fun logger => Function.update manager name (some logger)

end LoggerManager

/-- `operator<`, by the bytes of the names. -/
def LogDefine.less (x y : LogDefine) : Bool :=
  x.name.map UInt8.toNat < y.name.map UInt8.toNat

/-- `std::set<LogDefine>`. The kinds of appenders are those that `LexicalCast` makes. -/
structure LogDefines where
  defines : List LogDefine
  sorted : OrderedSet.Sorted LogDefine.less defines
  types : ∀ i ∈ defines, ∀ a ∈ i.appenders, a.type = 1 ∨ a.type = 2

namespace LogIniter

/-- `ap.reset`; `none` when the pointer stays null and is then dereferenced. -/
def reset (a : LogAppenderDefine) : Option Appender :=
  if a.type = 1 then some ⟨.new, some a.file⟩
  else if a.type = 2 then some ⟨.new, none⟩
  else none

/-- The appender `ap` of a definition. -/
def appender (a : LogAppenderDefine) : Option Appender :=
  (reset a).map fun ap =>
    let base := ap.toLogAppender.setLevel a.level
    if a.formatter ≠ [] ∧ !(LogFormatter.new a.formatter).isError then
      ⟨base.setFormatter (some (.new a.formatter)), ap.filename⟩
    else ⟨base, ap.filename⟩

/-- What is done with the logger of a new or changed definition. -/
def configure (i : LogDefine) (logger : Logger) : Option Logger :=
  let logger := logger.setLevel i.level
  let logger := if i.formatter ≠ [] then logger.setFormatterString i.formatter else logger
  i.appenders.foldlM (fun logger a => (appender a).map logger.addAppender) logger.clearAppenders

/-- What is done with the logger of a definition that is gone. -/
def retire (logger : Logger) : Logger := (logger.setLevel .unknow).clearAppenders

/-- A round of the loop over the new value: a definition is added, changed or as it was. -/
def inNew (old_value : List LogDefine) (manager : LoggerManager) (i : LogDefine) :
    Option LoggerManager :=
  match OrderedSet.find LogDefine.less i old_value with
  | none => manager.change i.name (configure i)
  | some it => if i = it then some manager else manager.change i.name (configure i)

/-- A round of the loop over the old value. -/
def inOld (new_value : List LogDefine) (manager : LoggerManager) (i : LogDefine) :
    Option LoggerManager :=
  match OrderedSet.find LogDefine.less i new_value with
  | none => manager.change i.name fun logger => some (retire logger)
  | some _ => some manager

/-- The listener. -/
def listener (old_value new_value : List LogDefine) (manager : LoggerManager) :
    Option LoggerManager :=
  (new_value.foldlM (inNew old_value) manager).bind fun manager =>
    old_value.foldlM (inOld new_value) manager

end LogIniter

/-- The variable `logs`, and the loggers. -/
structure LogConfig where
  val : LogDefines
  manager : LoggerManager

namespace LogConfig

def new : LogConfig := ⟨⟨[], .nil, nofun⟩, .new⟩

/-- `setValue` of the variable, with the listener. -/
def setValue (config : LogConfig) (v : LogDefines) : Option LogConfig :=
  if v.defines = config.val.defines then some config
  else (LogIniter.listener config.val.defines v.defines config.manager).map (⟨v, ·⟩)

/-- The loggers after the values were set one after the other. -/
def managerAfter (values : List LogDefines) : Option LoggerManager :=
  (exec setValue new values).map (·.manager)

end LogConfig

end Sylar.Log
