import Mathlib.Data.List.Basic
import Sylar.Log.Basic
import Sylar.Log.Pattern
import Sylar.Log.Define
import Sylar.Log.Codec
import Sylar.Log.FileAppender

/- From the `logs` configuration to the text that is written: `Logger::log`, the appenders and the
   format items of `sylar/log.cc`.

   An event passes the level of its logger and of each appender. A logger without appenders
   hands it to `root`, where it passes the level of `root` too. What an appender writes is the
   text of its formatter, which is its own, or the logger's, or the constructor's.

   `LogDefines.asks` says from the definitions alone with which pattern and where an event is
   written. `log_writes` says that the loggers which the listener has configured write the text
   of that pattern, unless a date is too long for the buffer of its item. The text of a date is
   left to the `strftime` of the C library. -/
namespace Sylar.Log

structure LogEvent where
  file : Text
  line : Int
  elapse : Nat
  threadId : Nat
  fiberId : Nat
  time : UInt64
  threadName : Text
  /-- `getLogger()->getName()`. -/
  logger : Text
  level : Level
  content : Text
  deriving DecidableEq, Repr

section
-- the text that a date format stands for at a time, of any length
variable (strftime : Text → UInt64 → Text)

/-- The date as a whole, by `m_format.c_str()`. -/
def DateTimeFormatItem.text (m_format : Text) (time : UInt64) : Text :=
  strftime ((if m_format = [] then defaultDateFormat else m_format).takeWhile (· ≠ 0)) time

/-- `DateTimeFormatItem::format`. The result of `strftime` is not looked at: where the date and its
NUL do not fit into `char buf[64]`, what it holds is not determined. -/
def DateTimeFormatItem.format (m_format : Text) (time : UInt64) : Option Text :=
  let date := DateTimeFormatItem.text strftime m_format time
  if date.length < 64 then some date else none

/-- What each item class stands for. -/
def FormatItem.text (level : Level) (event : LogEvent) : FormatItem → Text
  | .string s => s
  | .message => event.content
  | .level => level.string
  | .elapse => Log.text (toString event.elapse)
  | .logName => event.logger
  | .threadId => Log.text (toString event.threadId)
  | .newLine => Log.text "\n"
  | .filename => event.file
  | .line => Log.text (toString event.line)
  | .tab => Log.text "\t"
  | .fiberId => Log.text (toString event.fiberId)
  | .threadName => event.threadName
  | .dateTime m_format => DateTimeFormatItem.text strftime m_format event.time

/-- What the `format` of each item class prints, where it is determined. -/
def FormatItem.format (level : Level) (event : LogEvent) : FormatItem → Option Text
  | .dateTime m_format => DateTimeFormatItem.format strftime m_format event.time
  | item => some (item.text strftime level event)

/-- `LogFormatter::format`, for a formatter without an error. -/
def LogFormatter.format (pattern : Text) (level : Level) (event : LogEvent) : Option Text :=
  match LogFormatter.init pattern with
  | .ok items => (items.mapM (FormatItem.format strftime level event)).map List.flatten
  | _ => none

/-- `StdoutLogAppender::log`: where it writes, and what. Without a formatter there is no text. -/
def StdoutLogAppender.log (a : LogAppender) (level : Level) (event : LogEvent) : List (Target × Option Text) :=
  if level.toNat ≥ a.level.toNat then
    [(.stdout, a.formatter.bind fun pattern => LogFormatter.format strftime pattern level event)]
  else []

/-- `FileLogAppender::log`, as the lines its stream is given; that `reopen` may have emptied the file
before is the matter of `FileLogAppender.log`. -/
def FileLogAppender.lines (a : LogAppender) (m_filename : Text) (level : Level) (event : LogEvent) :
    List (Target × Option Text) :=
  if level.toNat ≥ a.level.toNat then
    [(.file m_filename, a.formatter.bind fun pattern => LogFormatter.format strftime pattern level event)]
  else []

/-- `LogAppender::log`, which is virtual. -/
def LogAppender.log (a : LogAppender) (level : Level) (event : LogEvent) : List (Target × Option Text) :=
  match a.target with
  | .stdout => StdoutLogAppender.log strftime a level event
  | .file m_filename => FileLogAppender.lines strftime a m_filename level event

/-- `Logger::log`, with `m_root`, which `root` itself has not. -/
def Logger.log (l : Logger) (m_root : Option Logger) (level : Level) (event : LogEvent) :
    List (Target × Option Text) :=
  if level.toNat ≥ l.level.toNat then
    if l.appenders ≠ [] then l.appenders.flatMap fun a => a.log strftime level event
    else
      match m_root with
      | some root =>
        if level.toNat ≥ root.level.toNat then root.appenders.flatMap fun a => a.log strftime level event else []
      | none => []
  else []

/-- `SYLAR_LOG_LEVEL` on the logger of a name, where the destructor of `LogEventWrap` logs. -/
def LoggerManager.log (m : LoggerManager) (event : LogEvent) : List (Target × Option Text) :=
  let logger := m.getLogger event.logger
  if logger.level.toNat ≤ event.level.toNat then
    logger.log strftime (if event.logger = rootName then none else some (m.getLogger rootName)) event.level event
  else []

/-! ## What a configuration asks for -/

/-- The pattern of an appender: its own, or the logger's, or that of the constructor. -/
def LogAppenderDefine.pattern (d : LogDefine) (a : LogAppenderDefine) : Text :=
  if a.formatter ≠ [] then a.formatter else if d.formatter ≠ [] then d.formatter else defaultPattern

def LogAppenderDefine.target (a : LogAppenderDefine) : Target := if a.type = 1 then .file a.file else .stdout

/-- What a logger's own appenders are asked for: where to write, with which pattern. -/
def LogDefine.asks (d : LogDefine) (event : LogEvent) : List (Target × Text) :=
  if event.level.toNat ≥ d.level.toNat then
    (d.appenders.filter fun a => event.level.toNat ≥ a.level.toNat).map fun a => (a.target, a.pattern d)
  else []

def LogDefines.named (c : LogDefines) (name : Text) : Option LogDefine := c.list.find? fun d => d.name = name

/-- What `root` is asked for; without a definition it writes to the standard output. -/
def LogDefines.rootAsks (c : LogDefines) (event : LogEvent) : List (Target × Text) :=
  match c.named rootName with
  | some d => d.asks event
  | none => if event.level.toNat ≥ Level.DEBUG.toNat then [(.stdout, defaultPattern)] else []

def LogDefines.asks (c : LogDefines) (event : LogEvent) : List (Target × Text) :=
  if event.logger = rootName then c.rootAsks event
  else
    match c.named event.logger with
    | some d =>
      if d.appenders ≠ [] then d.asks event
      else if event.level.toNat ≥ d.level.toNat then c.rootAsks event
      else []
    | none => if event.level.toNat ≥ Level.DEBUG.toNat then c.rootAsks event else []

/-- An answer to what is asked for. -/
def answer (event : LogEvent) (w : Target × Text) : Target × Option Text :=
  (w.1, LogFormatter.format strftime w.2 event.level event)

def LogDefines.writes (c : LogDefines) (event : LogEvent) : List (Target × Option Text) :=
  (c.asks event).map (answer strftime event)

/-- The text that a pattern stands for. -/
def LogFormatter.text (pattern : Text) (level : Level) (event : LogEvent) : Text :=
  match LogFormatter.init pattern with
  | .ok items => items.flatMap (FormatItem.text strftime level event)
  | _ => []

/-- A date leaves room for its NUL in the buffer. -/
def FormatItem.fits (time : UInt64) : FormatItem → Bool
  | .dateTime m_format => (DateTimeFormatItem.text strftime m_format time).length < 64
  | _ => true

/-- Every date of the pattern does. -/
def LogFormatter.fits (pattern : Text) (time : UInt64) : Bool :=
  match LogFormatter.init pattern with
  | .ok items => items.all (FormatItem.fits strftime time)
  | _ => false

end

/-! ## The text of a pattern -/

section
variable {strftime : Text → UInt64 → Text} {level : Level} {event : LogEvent}

theorem format_item_eq (item : FormatItem) : item.format strftime level event =
    if item.fits strftime event.time = true then some (item.text strftime level event) else none := by
  cases item with
  | dateTime m_format =>
    simp only [FormatItem.format, DateTimeFormatItem.format, FormatItem.fits, FormatItem.text, decide_eq_true_eq]
  | _ => rfl

theorem mapM_format_eq : ∀ items : List FormatItem, items.mapM (FormatItem.format strftime level event) =
    if items.all (FormatItem.fits strftime event.time) = true then
      some (items.map (FormatItem.text strftime level event))
    else none
  | [] => rfl
  | item :: rest => by
    rw [List.mapM_cons, mapM_format_eq rest, format_item_eq, List.all_cons]
    cases item.fits strftime event.time with
    | false => simp
    | true =>
      cases rest.all (FormatItem.fits strftime event.time) with
      | false => simp
      | true => simp

/-- A formatter gives the text of its pattern exactly when every date fits its buffer. -/
theorem format_eq {pattern : Text} (h : LogFormatter.accepts pattern = true) (level : Level) (event : LogEvent) :
    LogFormatter.format strftime pattern level event =
      if LogFormatter.fits strftime pattern event.time = true then
        some (LogFormatter.text strftime pattern level event)
      else none := by
  unfold LogFormatter.accepts at h
  unfold LogFormatter.fits LogFormatter.format LogFormatter.text
  cases hinit : LogFormatter.init pattern with
  | ok items =>
    dsimp only
    rw [mapM_format_eq, apply_ite (Option.map List.flatten), Option.map_some, Option.map_none, List.flatMap_def]
  | error =>
    rw [hinit] at h
    cases h
  | beyond =>
    rw [hinit] at h
    cases h

/-- Either appender writes to its target. -/
theorem LogAppender.log_eq (a : LogAppender) : a.log strftime level event =
    if level.toNat ≥ a.level.toNat then
      [(a.target, a.formatter.bind fun pattern => LogFormatter.format strftime pattern level event)]
    else [] := by
  unfold LogAppender.log
  cases a.target with
  | stdout => rfl
  | file m_filename => rfl

/-- What the stream of a file is given is what the appender puts behind the file, emptied or not. -/
theorem file_log_lines {f : FileLogAppender} {a : LogAppender} (hlevel : f.level = a.level)
    {pattern m_filename t : Text} (hformatter : a.formatter = some pattern) (ht : LogFormatter.format strftime pattern level event = some t) :
    (f.log { level := level, time := event.time, text := t }).file =
      (if level.toNat ≥ a.level.toNat ∧ event.time ≥ f.lastTime + 3 then [] else f.file) ++
        ((FileLogAppender.lines strftime a m_filename level event).filterMap Prod.snd).flatten := by
  unfold FileLogAppender.lines
  rw [hformatter, Option.bind_some, ht, ← hlevel]
  by_cases hpass : level.toNat ≥ f.level.toNat
  · by_cases hfar : event.time ≥ f.lastTime + 3
    · rw [log_reopen hpass hfar, if_pos ⟨hpass, hfar⟩, if_pos hpass]
      simp
    · rw [log_append hpass hfar, if_neg fun h => hfar h.2, if_pos hpass]
      simp
  · rw [log_skip hpass, if_neg fun h => hpass h.1, if_neg hpass]
    simp

end

/-! ## The configured loggers -/

/-- The appender that a definition becomes in its logger. -/
def LogAppenderDefine.installed (pattern : Text) (a : LogAppenderDefine) : LogAppender where
  target := a.target
  level := a.level
  hasFormatter := decide (a.formatter ≠ [])
  formatter := some (if a.formatter ≠ [] then a.formatter else pattern)

theorem appenders_foldl : ∀ (as : List LogAppender) (l : Logger),
    as.foldl Logger.addAppender l = { l with appenders := l.appenders ++ as.map fun a =>
      if a.formatter.isNone then { a with formatter := some l.formatter } else a } := by
  intro as
  induction as with
  | nil => intro l; simp
  | cons a rest ih =>
    intro l
    rw [List.foldl_cons, ih]
    simp [Logger.addAppender]

/-- The appender of a valid definition, once it has its formatter. -/
theorem installed_appender {a : LogAppenderDefine} (htype : a.type = 1 ∨ a.type = 2)
    (hformatter : a.formatter = [] ∨ LogFormatter.accepts a.formatter = true) (pattern : Text) :
    ∃ ap, a.appender = some ap ∧
      (if ap.formatter.isNone then { ap with formatter := some pattern } else ap) = a.installed pattern := by
  unfold LogAppenderDefine.appender LogAppenderDefine.installed LogAppenderDefine.target
  by_cases hempty : a.formatter = []
  · rcases htype with htype | htype
    · simp [htype, hempty, LogAppender.new]
    · simp [htype, hempty, LogAppender.new]
  · have haccepts := hformatter.resolve_left hempty
    rcases htype with htype | htype
    · simp [htype, hempty, haccepts, LogAppender.new, LogAppender.setFormatter]
    · simp [htype, hempty, haccepts, LogAppender.new, LogAppender.setFormatter]

theorem installed_appenders (pattern : Text) : ∀ as : List LogAppenderDefine, (∀ a ∈ as, a.type = 1 ∨ a.type = 2) →
    (∀ a ∈ as, a.formatter = [] ∨ LogFormatter.accepts a.formatter = true) →
    ((as.filterMap LogAppenderDefine.appender).map fun a =>
      if a.formatter.isNone then { a with formatter := some pattern } else a) =
      as.map (LogAppenderDefine.installed pattern)
  | [], _, _ => rfl
  | a :: rest, htypes, hformatters => by
    obtain ⟨htype, htypes⟩ := List.forall_mem_cons.mp htypes
    obtain ⟨hformatter, hformatters⟩ := List.forall_mem_cons.mp hformatters
    obtain ⟨ap, hap, hinstalled⟩ := installed_appender htype hformatter pattern
    rw [List.filterMap_cons_some hap, List.map_cons, List.map_cons, hinstalled,
      installed_appenders pattern rest htypes hformatters]

/-- A configured logger: its level, its pattern, and an appender for each definition. -/
theorem configure_eq {d : LogDefine} (hd : d.Valid) (l : Logger) :
    (d.configure l).level = d.level ∧
      (d.configure l).appenders = d.appenders.map
        (LogAppenderDefine.installed (if d.formatter ≠ [] then d.formatter else l.formatter)) := by
  unfold LogDefine.configure
  dsimp only
  rw [appenders_foldl]
  by_cases hempty : d.formatter = []
  · simp only [hempty, ne_eq, not_true_eq_false, if_false]
    refine ⟨rfl, ?_⟩
    simp only [Logger.clearAppenders, Logger.setLevel, List.nil_append]
    exact installed_appenders l.formatter d.appenders hd.types hd.formatters
  · have haccepts := hd.formatter.resolve_left hempty
    simp only [hempty, ne_eq, not_false_eq_true, if_true, Logger.setFormatter, haccepts]
    refine ⟨rfl, ?_⟩
    simp only [Logger.clearAppenders, List.nil_append]
    exact installed_appenders d.formatter d.appenders hd.types hd.formatters

section
variable {strftime : Text → UInt64 → Text} {c : LogDefines} {d : LogDefine} {name : Text} {event : LogEvent}

theorem LogDefines.of_named (h : c.named name = some d) : d ∈ c.list ∧ d.name = name :=
  ⟨List.mem_of_find?_eq_some h, by simpa using List.find?_some h⟩

theorem LogDefines.named_eq_none (h : c.named name = none) : ∀ d ∈ c.list, d.name ≠ name := by
  simpa [LogDefines.named] using h

/-- What the installed appenders of a definition write. -/
theorem log_installed (level : Level) (pattern : Text) : ∀ as : List LogAppenderDefine,
    ((as.map (LogAppenderDefine.installed pattern)).flatMap fun a => a.log strftime level event) =
      (as.filter fun a => level.toNat ≥ a.level.toNat).map fun a =>
        (a.target, LogFormatter.format strftime (if a.formatter ≠ [] then a.formatter else pattern) level event)
  | [] => rfl
  | a :: rest => by
    rw [List.map_cons, List.flatMap_cons, log_installed level pattern rest, List.filter_cons]
    have hsame : (a.installed pattern).level = a.level := rfl
    by_cases hlevel : level.toNat ≥ a.level.toNat
    · rw [if_pos (decide_eq_true hlevel), List.map_cons, LogAppender.log_eq, hsame, if_pos hlevel]
      rfl
    · rw [if_neg (by simpa using hlevel), LogAppender.log_eq, hsame, if_neg hlevel]
      rfl

/-- The logger of a definition, in a process that had no other. -/
theorem getLogger_named (named : List Text) (hc : c.Valid) (h : c.named name = some d) :
    let logger := ((Process.fresh named).setValue c).loggers.getLogger name
    logger.level = d.level ∧ logger.appenders = d.appenders.map
      (LogAppenderDefine.installed (if d.formatter ≠ [] then d.formatter else defaultPattern)) := by
  obtain ⟨hd, rfl⟩ := c.of_named h
  have hconfigured := configure_eq (hc d hd) ((LoggerManager.fresh named).getLogger d.name)
  rw [formatter_fresh] at hconfigured
  dsimp only
  rw [getLogger_setValue_fresh named hd]
  exact hconfigured

/-- A logger without a definition is as it was. -/
theorem getLogger_unnamed (named : List Text) (h : c.named name = none) :
    ((Process.fresh named).setValue c).loggers.getLogger name =
      if name = rootName then Logger.root else Logger.new name := by
  rw [getLogger_setValue_other (fun e he => by cases he) (c.named_eq_none h)]
  exact getLogger_fresh named name

/-- What the appenders of a definition's logger write, past its level. -/
theorem log_named (strftime : Text → UInt64 → Text) (event : LogEvent) {l : Logger} (hlevel : l.level = d.level)
    (happenders : l.appenders = d.appenders.map
      (LogAppenderDefine.installed (if d.formatter ≠ [] then d.formatter else defaultPattern))) :
    (if event.level.toNat ≥ l.level.toNat then l.appenders.flatMap fun a => a.log strftime event.level event
      else []) = (d.asks event).map (answer strftime event) := by
  rw [hlevel, happenders, log_installed, LogDefine.asks]
  by_cases hpass : event.level.toNat ≥ d.level.toNat
  · rw [if_pos hpass, if_pos hpass, List.map_map]
    rfl
  · rw [if_neg hpass, if_neg hpass, List.map_nil]

theorem log_root (strftime : Text → UInt64 → Text) (event : LogEvent) (named : List Text) (hc : c.Valid) :
    let root := ((Process.fresh named).setValue c).loggers.getLogger rootName
    (if event.level.toNat ≥ root.level.toNat then root.appenders.flatMap fun a => a.log strftime event.level event
      else []) = (c.rootAsks event).map (answer strftime event) := by
  dsimp only
  rw [LogDefines.rootAsks]
  cases hnamed : c.named rootName with
  | some d =>
    obtain ⟨hlevel, happenders⟩ := getLogger_named named hc hnamed
    exact log_named strftime event hlevel happenders
  | none =>
    rw [getLogger_unnamed named hnamed, if_pos rfl]
    by_cases hlevel : event.level.toNat ≥ Level.DEBUG.toNat
    · rw [if_pos hlevel]
      have hroot : event.level.toNat ≥ Logger.root.level.toNat := hlevel
      rw [if_pos hroot]
      have happenders : Logger.root.appenders =
          [{ target := .stdout, level := .DEBUG, hasFormatter := false, formatter := some defaultPattern }] := rfl
      rw [happenders, List.flatMap_singleton, LogAppender.log_eq, if_pos hlevel]
      rfl
    · have hroot : ¬ event.level.toNat ≥ Logger.root.level.toNat := hlevel
      rw [if_neg hlevel, if_neg hroot]
      rfl

/-- The macro's test is the one that `Logger::log` makes. -/
theorem LoggerManager.log_eq (m : LoggerManager) : m.log strftime event = (m.getLogger event.logger).log strftime
    (if event.logger = rootName then none else some (m.getLogger rootName)) event.level event := by
  unfold LoggerManager.log
  by_cases hlevel : (m.getLogger event.logger).level.toNat ≤ event.level.toNat
  · exact if_pos hlevel
  · rw [Logger.log.eq_def]
    exact (if_neg hlevel).trans (if_neg hlevel).symm

theorem Logger.log_none (l : Logger) (level : Level) : l.log strftime none level event =
    if level.toNat ≥ l.level.toNat then l.appenders.flatMap fun a => a.log strftime level event else [] := by
  unfold Logger.log
  by_cases hempty : l.appenders = []
  · simp [hempty]
  · simp [hempty]

theorem defaultPattern_accepted : LogFormatter.accepts defaultPattern = true := by decide +kernel

theorem pattern_accepted (hd : d.Valid) {a : LogAppenderDefine} (ha : a ∈ d.appenders) :
    LogFormatter.accepts (a.pattern d) = true := by
  unfold LogAppenderDefine.pattern
  split
  · rename_i hown
    exact (hd.formatters a ha).resolve_left hown
  · split
    · rename_i hlogger
      exact hd.formatter.resolve_left hlogger
    · exact defaultPattern_accepted

/-- Every pattern that is asked for is one that a formatter accepts. -/
theorem LogDefine.asks_accepted (hd : d.Valid) : ∀ w ∈ d.asks event, LogFormatter.accepts w.2 = true := by
  intro w hw
  unfold LogDefine.asks at hw
  split at hw
  · obtain ⟨a, ha, rfl⟩ := List.mem_map.mp hw
    exact pattern_accepted hd (List.mem_filter.mp ha).1
  · cases hw

theorem LogDefines.rootAsks_accepted (hc : c.Valid) : ∀ w ∈ c.rootAsks event, LogFormatter.accepts w.2 = true := by
  intro w hw
  unfold LogDefines.rootAsks at hw
  split at hw
  · rename_i d hnamed
    exact LogDefine.asks_accepted (hc d (c.of_named hnamed).1) w hw
  · split at hw
    · cases List.mem_singleton.mp hw
      exact defaultPattern_accepted
    · cases hw

theorem LogDefines.asks_accepted (hc : c.Valid) : ∀ w ∈ c.asks event, LogFormatter.accepts w.2 = true := by
  intro w hw
  unfold LogDefines.asks at hw
  split at hw
  · exact rootAsks_accepted hc w hw
  · split at hw
    · rename_i d hnamed
      split at hw
      · exact LogDefine.asks_accepted (hc d (c.of_named hnamed).1) w hw
      · split at hw
        · exact rootAsks_accepted hc w hw
        · cases hw
    · split at hw
      · exact rootAsks_accepted hc w hw
      · cases hw

/-- The loggers that the listener has configured from `c` write what `c` asks for. -/
theorem setValue_log (strftime : Text → UInt64 → Text) (named : List Text) (hc : c.Valid) (event : LogEvent) :
    ((Process.fresh named).setValue c).loggers.log strftime event = c.writes strftime event := by
  have hroot := log_root strftime event named hc
  dsimp only at hroot
  rw [LoggerManager.log_eq, LogDefines.writes, LogDefines.asks]
  by_cases hname : event.logger = rootName
  · rw [if_pos hname, if_pos hname, Logger.log_none, hname]
    exact hroot
  · rw [if_neg hname, if_neg hname, Logger.log.eq_def]
    dsimp only
    rw [hroot]
    cases hnamed : c.named event.logger with
    | none =>
      rw [getLogger_unnamed named hnamed, if_neg hname]
      dsimp only
      rw [apply_ite (List.map (answer strftime event)), List.map_nil]
      rfl
    | some d =>
      obtain ⟨hlevel, happenders⟩ := getLogger_named named hc hnamed
      have hown := log_named strftime event hlevel happenders
      have hempty : (((Process.fresh named).setValue c).loggers.getLogger event.logger).appenders ≠ [] ↔
          d.appenders ≠ [] := by
        rw [happenders, ne_eq, List.map_eq_nil_iff]
      dsimp only
      by_cases hsome : d.appenders ≠ []
      · rw [if_pos hsome, if_pos (hempty.mpr hsome)]
        exact hown
      · rw [if_neg hsome, if_neg (fun h => hsome (hempty.mp h)), hlevel,
          apply_ite (List.map (answer strftime event)), List.map_nil]

/-- **From the configuration to the output**: in a process that has loaded the definitions `c`, a log call
writes to the targets that `c` asks for, in their order, the text of the pattern that `c` asks for; only where
a date of the pattern does not fit its buffer is it not determined what is written. -/
theorem log_writes (strftime : Text → UInt64 → Text) (named : List Text) (c : LogDefines) (hc : c.Valid)
    (event : LogEvent) :
    ((Process.fresh named).setValue c).loggers.log strftime event = (c.asks event).map fun w =>
      (w.1, if LogFormatter.fits strftime w.2 event.time = true then
        some (LogFormatter.text strftime w.2 event.level event)
      else none) := by
  rw [setValue_log strftime named hc event]
  refine List.map_congr_left fun w hw => ?_
  exact Prod.ext rfl (format_eq (LogDefines.asks_accepted hc w hw) event.level event)

end

/-- The logger `http` to the standard output with a pattern of its own: a line with a short date is whole, and of
a line with a date of 64 characters nothing is certain. -/
theorem log_writes_http :
    let c := single { toStdout .INFO (text "%p%T%d{%y}%T%m%n") with name := text "http" }
    let event : LogEvent :=
      { file := text "a.cc", line := 7, elapse := 0, threadId := 1, fiberId := 0, time := 0, threadName := text "main"
        logger := text "http", level := .WARN, content := text "slow" }
    ((Process.fresh []).setValue c).loggers.log (fun _ _ => text "70") event =
        [(.stdout, some (text "WARN\t70\tslow\n"))] ∧
      ((Process.fresh []).setValue c).loggers.log (fun _ _ => List.replicate 64 0x20) event = [(.stdout, none)] := by
  intro c event
  have hvalid : c.Valid := by
    intro d hd
    cases List.mem_singleton.mp hd
    exact ⟨by decide +kernel, .inr (by decide +kernel), by decide, by decide⟩
  rw [log_writes (fun _ _ => text "70") [] c hvalid event,
    log_writes (fun _ _ => List.replicate 64 0x20) [] c hvalid event]
  decide +kernel

end Sylar.Log
