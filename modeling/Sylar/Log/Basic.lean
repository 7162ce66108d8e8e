import Mathlib.Data.List.Basic

/- Levels, formatters, appenders, loggers and the logger manager of `sylar/log.cc`.

   Correspondence (C++ ↔ Lean):
     the scan of `LogFormatter::init`   ↔ `Scan.step`, one character at a time
     the rest of `LogFormatter::init`   ↔ `LogFormatter.init`
     `Logger::setFormatter(string)`     ↔ `Logger.setFormatter`
     `Logger::addAppender`              ↔ `Logger.addAppender`
     `LoggerManager::getLogger`         ↔ `LoggerManager.getLogger`

   A formatter is known by its pattern, from which its items follow. An appender is
   owned by one logger here: the configuration makes each one it adds. -/
namespace Sylar.Log

inductive Level where
  | UNKNOW | DEBUG | INFO | WARN | ERROR | FATAL
  deriving DecidableEq, Repr

def Level.toNat : Level → Nat
  | .UNKNOW => 0
  | .DEBUG => 1
  | .INFO => 2
  | .WARN => 3
  | .ERROR => 4
  | .FATAL => 5

abbrev Text := List UInt8

def text (s : String) : Text := s.toUTF8.data.toList

/-! ## Formatters -/

/-- Where the scan of a pattern is: in literal text, behind a `%`, behind `%d`, or between the
braces of `%d{`. -/
inductive Place where
  | literal | letter | date | braces
  deriving DecidableEq, Repr

/-- An entry of `patterns`: literal text (0) or a letter (1). -/
inductive Piece where
  | literal (s : Text)
  | letter (c : UInt8)
  deriving DecidableEq, Repr

structure Scan where
  patterns : List Piece
  tmp : Text
  dateformat : Text
  place : Place
  deriving DecidableEq, Repr

def Scan.start : Scan := { patterns := [], tmp := [], dateformat := [], place := .literal }

/-- The literal text so far becomes an entry, unless there is none. -/
def Scan.flush (s : Scan) : Scan :=
  { s with patterns := if s.tmp = [] then s.patterns else s.patterns ++ [.literal s.tmp], tmp := [] }

/-- A character with `parsing_string` set. -/
def Scan.literal (s : Scan) (c : UInt8) : Scan :=
  if c = 0x25 then { s.flush with place := .letter }
  else { s with tmp := s.tmp ++ [c], place := .literal }

def Scan.step (s : Scan) (c : UInt8) : Scan :=
  match s.place with
  | .literal => s.literal c
  | .letter => { s with
      patterns := s.patterns ++ [.letter c]
      place := if c = 0x64 then .date else .literal }
  -- without a brace the character is read again, as literal text
  | .date => if c = 0x7b then { s with place := .braces } else s.literal c
  | .braces =>
    if c = 0x7d then { s with place := .literal } else { s with dateformat := s.dateformat ++ [c] }

/-- What a formatter prints. -/
inductive FormatItem where
  | string (s : Text)
  | message | level | elapse | logName | threadId | newLine | filename | line | tab | fiberId | threadName
  | dateTime (format : Text)
  deriving DecidableEq, Repr

/-- `s_format_items`, without `d`, which takes the scan's date format. -/
def formatItem (c : UInt8) : Option FormatItem :=
  if c = 0x6d then some .message
  else if c = 0x70 then some .level
  else if c = 0x72 then some .elapse
  else if c = 0x63 then some .logName
  else if c = 0x74 then some .threadId
  else if c = 0x6e then some .newLine
  else if c = 0x66 then some .filename
  else if c = 0x6c then some .line
  else if c = 0x54 then some .tab
  else if c = 0x46 then some .fiberId
  else if c = 0x4e then some .threadName
  else none

def Piece.item (dateformat : Text) : Piece → Option FormatItem
  | .literal s => some (.string s)
  | .letter c => if c = 0x64 then some (.dateTime dateformat) else formatItem c

inductive LogFormatter.Init where
  | ok (items : List FormatItem)
  /-- `m_error`. -/
  | error
  /-- The pattern ends in `%d`: the loop reads behind the string's terminator. -/
  | beyond
  deriving DecidableEq, Repr

def LogFormatter.init (pattern : Text) : LogFormatter.Init :=
  let s := pattern.foldl Scan.step Scan.start
  match s.place with
  | .braces => .error
  | .date => .beyond
  | _ =>
    match s.flush.patterns.mapM (Piece.item s.dateformat) with
    | some items => .ok items
    | none => .error

/-- The pattern is one a formatter can be made of. -/
def LogFormatter.accepts (pattern : Text) : Bool :=
  match LogFormatter.init pattern with
  | .ok _ => true
  | _ => false

/-! ## Appenders and loggers -/

inductive Target where
  | file (name : Text)
  | stdout
  deriving DecidableEq, Repr

structure LogAppender where
  target : Target
  level : Level
  hasFormatter : Bool
  formatter : Option Text
  deriving DecidableEq, Repr

def LogAppender.new (target : Target) : LogAppender :=
  { target := target, level := .DEBUG, hasFormatter := false, formatter := none }

def LogAppender.setFormatter (a : LogAppender) (val : Option Text) : LogAppender :=
  { a with formatter := val, hasFormatter := val.isSome }

structure Logger where
  name : Text
  level : Level
  formatter : Text
  appenders : List LogAppender
  deriving DecidableEq, Repr

/-- The pattern of the constructor, `"%d{%Y-%m-%d %H:%M:%S}%T%t%T%N%T%F%T[%p]%T[%c]%T%f:%l%T%m%n"`. -/
def defaultPattern : Text :=
  text "%d\x7b%Y-%m-%d %H:%M:%S\x7d%T%t%T%N%T%F%T[%p]%T[%c]%T%f:%l%T%m%n"

def Logger.new (name : Text) : Logger :=
  { name := name, level := .DEBUG, formatter := defaultPattern, appenders := [] }

def Logger.setLevel (l : Logger) (level : Level) : Logger := { l with level := level }

/-- Appenders without a formatter of their own follow the logger's. -/
def Logger.setFormatter (l : Logger) (val : Text) : Logger :=
  if LogFormatter.accepts val then
    { l with
      formatter := val
      appenders := l.appenders.map fun a => if a.hasFormatter then a else { a with formatter := some val } }
  else l

def Logger.addAppender (l : Logger) (a : LogAppender) : Logger :=
  { l with appenders := l.appenders ++
      [if a.formatter.isNone then { a with formatter := some l.formatter } else a] }

def Logger.clearAppenders (l : Logger) : Logger := { l with appenders := [] }

/-- `m_loggers`, by name. -/
abbrev LoggerManager := Text → Option Logger

def rootName : Text := text "root"

/-- The constructor's logger: `root`, with an appender to the standard output. -/
def Logger.root : Logger := (Logger.new rootName).addAppender (LogAppender.new .stdout)

/-- A process before any configuration: `root`, and the loggers its initialisers have asked for. -/
def LoggerManager.fresh (named : List Text) : LoggerManager := fun name =>
  if name = rootName then some Logger.root
  else if name ∈ named then some (Logger.new name)
  else none

/-- The logger of a name, made if there is none. -/
def LoggerManager.getLogger (m : LoggerManager) (name : Text) : Logger := (m name).getD (Logger.new name)

def LoggerManager.set (m : LoggerManager) (name : Text) (l : Logger) : LoggerManager := fun n =>
  if n = name then some l else m n

/-- `f` done to the logger of a name. -/
def LoggerManager.on (m : LoggerManager) (name : Text) (f : Logger → Logger) : LoggerManager :=
  m.set name (f (m.getLogger name))

section
variable {m : LoggerManager} {name other : Text} {f : Logger → Logger}

@[simp] theorem getLogger_on_same : (m.on name f).getLogger name = f (m.getLogger name) := by
  simp [LoggerManager.on, LoggerManager.set, LoggerManager.getLogger]

theorem getLogger_on_other (h : other ≠ name) : (m.on name f).getLogger other = m.getLogger other := by
  simp [LoggerManager.on, LoggerManager.set, LoggerManager.getLogger, h]

end

/-- A logger that nothing has configured: only `root` has an appender. -/
theorem getLogger_fresh (named : List Text) (name : Text) :
    (LoggerManager.fresh named).getLogger name = if name = rootName then Logger.root else Logger.new name := by
  unfold LoggerManager.getLogger LoggerManager.fresh
  by_cases hroot : name = rootName
  · simp [hroot]
  · by_cases hnamed : name ∈ named
    · simp [hroot, hnamed]
    · simp [hroot, hnamed]

theorem formatter_fresh (named : List Text) (name : Text) :
    ((LoggerManager.fresh named).getLogger name).formatter = defaultPattern := by
  rw [getLogger_fresh]
  by_cases hroot : name = rootName
  · rw [if_pos hroot]
    rfl
  · rw [if_neg hroot]
    rfl

end Sylar.Log
