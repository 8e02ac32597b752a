import Sylar.Http.Request

/-!
# Log events and their format

`LogLevel`, `LogEvent` and `LogFormatter` of `log.cpp`. A pattern is compiled to a
list of items, each of which writes a part of the event. The local time comes from a
parameter that stands for `localtime_r` and `strftime`.
-/

namespace Sylar.Log

open Http (bytes)

/-- A `std::string`. -/
abbrev Text := List UInt8

/-- `LogLevel::Level`. -/
inductive LogLevel where
  | unknow | debug | info | warn | error | fatal
deriving DecidableEq, Repr

namespace LogLevel

/-- The value of the enumeration. -/
def toNat : LogLevel → Nat
  | unknow => 0
  | debug => 1
  | info => 2
  | warn => 3
  | error => 4
  | fatal => 5

/-- `ToString`. -/
def toString : LogLevel → Text
  | unknow => bytes "UNKNOW"
  | debug => bytes "DEBUG"
  | info => bytes "INFO"
  | warn => bytes "WARN"
  | error => bytes "ERROR"
  | fatal => bytes "FATAL"

/-- `LogLevel::FromString`. -/
def fromString (str : Text) : LogLevel :=
  if str = bytes "debug" then debug
  else if str = bytes "info" then info
  else if str = bytes "warn" then warn
  else if str = bytes "error" then error
  else if str = bytes "fatal" then fatal
  else if str = bytes "DEBUG" then debug
  else if str = bytes "INFO" then info
  else if str = bytes "WARN" then warn
  else if str = bytes "ERROR" then error
  else if str = bytes "FATAL" then fatal
  else unknow

end LogLevel

structure LogEvent where
  file : Text
  line : Int
  elapse : UInt32
  threadId : UInt32
  fiberId : UInt32
  time : UInt64
  threadName : Text
  /-- What was written to `m_ss`. -/
  content : Text
  /-- The name of `m_logger`. -/
  loggerName : Text
  level : LogLevel
deriving DecidableEq, Repr

/-- The classes derived from `FormatItem`. -/
inductive FormatItem where
  | message
  | level
  | elapse
  | name
  | threadId
  | newLine
  | dateTime (format : Text)
  | fileName
  | line
  | tab
  | fiberId
  | threadName
  | string (str : Text)
deriving DecidableEq, Repr

/-- The constructor of `DateTimeFormatItem`. -/
def FormatItem.newDateTime (format : Text) : FormatItem :=
  .dateTime (if format = [] then bytes "%Y-%m-%d %H:%M:%S" else format)

/-- What an item writes. `level` is the level of the call. -/
def FormatItem.format (strftime : Text → UInt64 → Text) (level : LogLevel) (event : LogEvent) :
    FormatItem → Text
  | .message => event.content
  | .level => level.toString
  | .elapse => bytes (ToString.toString event.elapse.toNat)
  | .name => event.loggerName
  | .threadId => bytes (ToString.toString event.threadId.toNat)
  | .newLine => bytes "\n"
  | .dateTime format => strftime format event.time
  | .fileName => event.file
  | .line => bytes (ToString.toString event.line)
  | .tab => bytes "\t"
  | .fiberId => bytes (ToString.toString event.fiberId.toNat)
  | .threadName => event.threadName
  | .string str => str

/-- An element of `vec` in `LogFormatter::init`: plain text, or a key with its argument. -/
inductive Piece where
  | text (str : Text)
  | key (str fmt : Text)
deriving DecidableEq, Repr

/-- `isalpha` in the C locale. -/
def isalpha (byte : UInt8) : Bool := (65 ≤ byte && byte ≤ 90) || (97 ≤ byte && byte ≤ 122)

namespace LogFormatter

/-- The rest of an argument, up to the closing brace; `none` when there is none. -/
def scanArgument (fmt : Text) : Text → Option (Text × Text)
  | [] => none
  | char :: rest =>
      if char = 125 then some (fmt, rest) else scanArgument (fmt ++ [char]) rest

/-- The inner loop of `init` behind a percent sign: the key, its argument and what is left. -/
def scanKey (str : Text) : Text → Option (Text × Text × Text)
  | [] => some (str, [], [])
  | char :: rest =>
      if !isalpha char && char ≠ 123 && char ≠ 125 then some (str, [], char :: rest)
      else if char = 123 then (scanArgument [] rest).map fun (fmt, rest) => (str, fmt, rest)
      else scanKey (str ++ [char]) rest

/-- `vec.push_back` of the plain text before a key, if there is any. -/
def flush (nstr : Text) : List Piece := if nstr = [] then [] else [.text nstr]

/-- The outer loop of `init`, with the plain text that is not stored yet. Each round takes a byte,
so that as much `fuel` as there are bytes is enough. The result tells whether an argument was left
open. -/
def scan : Nat → Text → Text → List Piece × Bool
  | 0, nstr, _ => (flush nstr, false)
  | _ + 1, nstr, [] => (flush nstr, false)
  | fuel + 1, nstr, char :: rest =>
      if char ≠ 37 then scan fuel (nstr ++ [char]) rest
      else
        match rest with
        | 37 :: rest => scan fuel (nstr ++ [37]) rest
        | rest =>
            match scanKey [] rest with
            | some (str, fmt, rest) =>
                let (pieces, error) := scan fuel [] rest
                (flush nstr ++ .key str fmt :: pieces, error)
            | none =>
                -- only the percent sign is passed over
                let (pieces, _) := scan fuel nstr rest
                (.text (bytes "<<pattern_error>>") :: pieces, true)

/-- `s_format_items`. -/
def formatItem (str fmt : Text) : Option FormatItem :=
  if str = bytes "m" then some .message
  else if str = bytes "p" then some .level
  else if str = bytes "r" then some .elapse
  else if str = bytes "c" then some .name
  else if str = bytes "t" then some .threadId
  else if str = bytes "n" then some .newLine
  else if str = bytes "d" then some (.newDateTime fmt)
  else if str = bytes "f" then some .fileName
  else if str = bytes "l" then some .line
  else if str = bytes "T" then some .tab
  else if str = bytes "F" then some .fiberId
  else if str = bytes "N" then some .threadName
  else none

/-- The item of a piece; an unknown key is written out. -/
def item : Piece → FormatItem
  | .text str => .string str
  | .key str fmt =>
      (formatItem str fmt).getD (.string (bytes "<<error_format %" ++ str ++ bytes ">>"))

/-- A key that is not in `s_format_items`. -/
def unknown : Piece → Bool
  | .text _ => false
  | .key str fmt => (formatItem str fmt).isNone

end LogFormatter

structure LogFormatter where
  pattern : Text
  items : List FormatItem
  error : Bool
deriving DecidableEq, Repr

namespace LogFormatter

/-- The constructor, with `init`. -/
def new (pattern : Text) : LogFormatter :=
  let (vec, error) := scan pattern.length [] pattern
  ⟨pattern, vec.map item, error || vec.any unknown⟩

def isError (formatter : LogFormatter) : Bool := formatter.error

def getPattern (formatter : LogFormatter) : Text := formatter.pattern

/-- `format`, item by item. -/
def format (strftime : Text → UInt64 → Text) (formatter : LogFormatter) (level : LogLevel)
    (event : LogEvent) : Text :=
  formatter.items.flatMap (FormatItem.format strftime level event)

end LogFormatter

end Sylar.Log
