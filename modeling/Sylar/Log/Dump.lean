import Mathlib.Data.List.Basic
import Sylar.Config.Cast
import Sylar.Log.Codec
import Sylar.Log.Output

/- `LoggerManager::toYamlString` of `sylar/log.cc`, and its text as the value of `logs`.

   Each appender and each logger is streamed, loaded again and put into the tree above it.
   What an appender writes of itself has its level, which the decoder of `LogDefine` does not
   read. So a process that loads the text has the same loggers with the same patterns, targets and
   order, and appenders that take every level. `dump_restores_iff` says when that shows: when
   an appender keeps back what its logger lets pass. -/
namespace Sylar.Log
open Sylar.Lib
open Sylar.Config (Node Entries Cast StdSet setCast)

/-! ## Dump -/

/-- The tree of `FileLogAppender::toYamlString` and `StdoutLogAppender::toYamlString`. -/
def LogAppender.toNode (a : LogAppender) : Node :=
  let node :=
    match a.target with
    | .file m_filename =>
      put (text "file") (.scalar m_filename) (put (text "type") (.scalar (text "FileLogAppender")) .nil)
    | .stdout => put (text "type") (.scalar (text "StdoutLogAppender")) .nil
  let node := if a.level ≠ .UNKNOW then put (text "level") (.scalar a.level.string) node else node
  .map (match a.hasFormatter, a.formatter with
    | true, some m_formatter => put (text "formatter") (.scalar m_formatter) node
    | _, _ => node)

section
variable (emit : Node → Text) (load : Text → Except CastError Node)

def LogAppender.toYamlString (a : LogAppender) : Text := emit a.toNode

/-- The loop over `m_appenders`. -/
def pushAppenders : List LogAppender → Entries → Except CastError Entries
  | [], node => .ok node
  | i :: rest, node => do
    let a ← load (i.toYamlString emit)
    pushAppenders rest (pushBack (text "appenders") a node)

/-- The tree of `Logger::toYamlString`. `m_formatter` is never null. -/
def Logger.toNode (l : Logger) : Except CastError Node :=
  let node := put (text "name") (.scalar l.name) .nil
  let node := if l.level ≠ .UNKNOW then put (text "level") (.scalar l.level.string) node else node
  let node := put (text "formatter") (.scalar l.formatter) node
  (pushAppenders emit load l.appenders node).map .map

def Logger.toYamlString (l : Logger) : Except CastError Text := (l.toNode emit load).map emit

/-- The loop over `m_loggers`, with the keys of the map. -/
def LoggerManager.nodes (m : LoggerManager) : List Text → Except CastError (List Node)
  | [] => .ok []
  | name :: rest => do
    let v ← (m.getLogger name).toYamlString emit load
    let node ← load v
    let nodes ← LoggerManager.nodes m rest
    return node :: nodes

def LoggerManager.toYamlString (m : LoggerManager) (names : List Text) : Except CastError Text :=
  (m.nodes emit load names).map fun nodes => emit (.sequence nodes)

/-! ## Load -/

/-- `operator<` of `LogDefine`. -/
def defineOrder : WeakOrder LogDefine where
  less := LogDefine.lt
  irrefl d := Sylar.Http.stringOrder.irrefl d.name
  trans a b c := Sylar.Http.stringOrder.trans a.name b.name c.name
  cotrans a b c := Sylar.Http.stringOrder.cotrans a.name b.name c.name

def LogDefines.ofSet (s : StdSet defineOrder) : LogDefines where
  list := s.entries.map Prod.fst
  sorted := List.pairwise_map.mpr s.inOrder

/-- The casts of one definition. -/
def defineCast : Cast LogDefine where
  toString d := some (encode emit d)
  fromString v := (decode load v).toOption

/-- `LexicalCast<std::string, std::set<LogDefine> >`, which `fromString` of `logs` calls. -/
def loadLogs (v : Text) : Option LogDefines :=
  ((setCast (fun v => (load v).toOption) emit defineOrder (defineCast emit load)).fromString v).map LogDefines.ofSet

/-- Every tree that is streamed is loaded from its own text. -/
structure DumpLoads (m : LoggerManager) (names : List Text) : Prop where
  appenders : ∀ name ∈ names, ∀ a ∈ (m.getLogger name).appenders, load (emit a.toNode) = .ok a.toNode
  loggers : ∀ name ∈ names, ∀ node, (m.getLogger name).toNode emit load = .ok node → load (emit node) = .ok node
  all : ∀ nodes, m.nodes emit load names = .ok nodes → load (emit (.sequence nodes)) = .ok (.sequence nodes)

end

/-! ## What the text says of a logger -/

/-- The definition that reads as the appender does. -/
def LogAppender.define (a : LogAppender) : LogAppenderDefine where
  type := match a.target with | .file _ => 1 | .stdout => 2
  level := a.level
  formatter := if a.hasFormatter then a.formatter.getD [] else []
  file := match a.target with | .file m_filename => m_filename | .stdout => []

def Logger.define (l : Logger) : LogDefine where
  name := l.name
  level := l.level
  formatter := l.formatter
  appenders := l.appenders.map LogAppender.define

/-- The logger has a pattern, and so has every formatter of an appender's own. -/
structure Logger.Plain (l : Logger) : Prop where
  formatter : l.formatter ≠ []
  own : ∀ a ∈ l.appenders, a.hasFormatter = true → ∃ p, p ≠ [] ∧ a.formatter = some p

theorem toNode_appender {a : LogAppender} (h : a.hasFormatter = true → ∃ p, p ≠ [] ∧ a.formatter = some p) :
    a.toNode = .map a.define.entries := by
  obtain ⟨target, level, hasFormatter, formatter⟩ := a
  cases hasFormatter with
  | false => cases target <;> simp [LogAppender.toNode, LogAppender.define, LogAppenderDefine.entries]
  | true =>
    obtain ⟨p, hp, rfl⟩ := h rfl
    cases target <;> simp [LogAppender.toNode, LogAppender.define, LogAppenderDefine.entries, hp]

theorem define_known (a : LogAppender) : a.define.Known := by
  cases htarget : a.target with
  | file name => exact .inl (by simp [LogAppender.define, htarget])
  | stdout => exact .inr (by simp [LogAppender.define, htarget])

section
variable {emit : Node → Text} {load : Text → Except CastError Node}

theorem pushAppenders_eq : ∀ (l : List LogAppender) (node : Entries),
    (∀ a ∈ l, load (emit a.toNode) = .ok a.toNode) →
    pushAppenders emit load l node =
      .ok ((l.map LogAppender.toNode).foldl (fun n a => pushBack (text "appenders") a n) node)
  | [], _, _ => rfl
  | a :: rest, node, h => by
    obtain ⟨ha, hrest⟩ := List.forall_mem_cons.mp h
    simp only [pushAppenders, LogAppender.toYamlString, ha, bind, Except.bind]
    exact pushAppenders_eq rest _ hrest

/-- A logger writes the tree that its definition does. -/
theorem toNode_logger {l : Logger} (hl : l.Plain) (hload : ∀ a ∈ l.appenders, load (emit a.toNode) = .ok a.toNode) :
    l.toNode emit load = .ok l.define.toNode := by
  have hnodes : l.appenders.map LogAppender.toNode = (l.define.appenders.map fun a => Node.map a.entries) := by
    rw [Logger.define, List.map_map]
    exact List.map_congr_left fun a ha => toNode_appender (hl.own a ha)
  rw [Logger.toNode, pushAppenders_eq _ _ hload, hnodes, List.foldl_map]
  have hformatter : l.define.formatter ≠ [] := hl.formatter
  rw [LogDefine.toNode, LogDefine.entries]
  simp only [if_pos hformatter]
  rfl

/-- What comes back of a definition: the levels of its appenders are lost. -/
def LogDefine.forgetful (d : LogDefine) : LogDefine :=
  { d with appenders := d.appenders.map fun a => { a with level := .UNKNOW } }

variable {m : LoggerManager} {names : List Text}

theorem nodes_eq : ∀ names : List Text, (∀ name ∈ names, (m.getLogger name).Plain) →
    (∀ name ∈ names, ∀ a ∈ (m.getLogger name).appenders, load (emit a.toNode) = .ok a.toNode) →
    (∀ name ∈ names, ∀ node, (m.getLogger name).toNode emit load = .ok node → load (emit node) = .ok node) →
    m.nodes emit load names = .ok (names.map fun name => (m.getLogger name).define.toNode)
  | [], _, _, _ => rfl
  | name :: rest, hplain, happenders, hloggers => by
    obtain ⟨hl, hplain⟩ := List.forall_mem_cons.mp hplain
    obtain ⟨ha, happenders⟩ := List.forall_mem_cons.mp happenders
    obtain ⟨hnode, hloggers⟩ := List.forall_mem_cons.mp hloggers
    have htree := toNode_logger hl ha
    have hrest := nodes_eq rest hplain happenders hloggers
    simp only [LoggerManager.nodes, Logger.toYamlString, htree, Except.map, hnode _ htree, hrest, bind, Except.bind,
      pure, Except.pure, List.map_cons]

/-- The decoder's loop over the trees of definitions. -/
theorem readAll_defines (emit : Node → Text) (load : Text → Except CastError Node) :
    ∀ l : List LogDefine, (∀ d ∈ l, ∀ a ∈ d.appenders, a.Known) →
    (∀ d ∈ l, load (emit d.toNode) = .ok d.toNode) →
    (defineCast emit load).readAll emit (l.map LogDefine.toNode) = some (l.map LogDefine.forgetful)
  | [], _, _ => rfl
  | d :: rest, hknown, hload => by
    obtain ⟨hd, hknown⟩ := List.forall_mem_cons.mp hknown
    obtain ⟨hfirst, hload⟩ := List.forall_mem_cons.mp hload
    have hread : (defineCast emit load).read emit d.toNode = some d.forgetful := by
      simp only [Cast.read, defineCast, decode, hfirst, bind, Except.bind, ofNode_toNode d hd]
      rfl
    rw [List.map_cons, Cast.readAll, hread, readAll_defines emit load rest hknown hload]
    rfl

/-- Definitions in the order of their names are inserted as they are. -/
theorem ofSet_fill (c : LogDefines) :
    LogDefines.ofSet (OrderedMap.empty.fill (c.list.map fun d => (d, ()))) = c := by
  have horder : OrderedMap.InOrder defineOrder (c.list.map fun d => (d, ())) := List.pairwise_map.mpr c.sorted
  have hfill : (OrderedMap.empty : StdSet defineOrder).fill (c.list.map fun d => (d, ())) = ⟨_, horder⟩ :=
    (OrderedMap.fill_eq_iff ⟨_, horder⟩ rfl).mpr (List.Perm.refl _)
  rw [hfill, LogDefines.ofSet]
  cases c
  simp [Function.comp_def]

/-- The text of the loggers is that of their definitions. -/
theorem loadLogs_dump {c : LogDefines} (hplain : ∀ name ∈ names, (m.getLogger name).Plain)
    (hyaml : DumpLoads emit load m names) (hc : c.list = names.map fun name => (m.getLogger name).define.forgetful) :
    ∃ v, m.toYamlString emit load names = .ok v ∧ loadLogs emit load v = some c := by
  have hnodes := nodes_eq names hplain hyaml.appenders hyaml.loggers
  refine ⟨emit (.sequence (names.map fun name => (m.getLogger name).define.toNode)), ?_, ?_⟩
  · rw [LoggerManager.toYamlString, hnodes]
    rfl
  · have htrees : names.map (fun name => (m.getLogger name).define.toNode) =
        (names.map fun name => (m.getLogger name).define).map LogDefine.toNode := by
      rw [List.map_map]
      rfl
    have hread := readAll_defines emit load (names.map fun name => (m.getLogger name).define)
      (by
        intro d hd a ha
        obtain ⟨name, _, rfl⟩ := List.mem_map.mp hd
        obtain ⟨b, _, rfl⟩ := List.mem_map.mp ha
        exact define_known b)
      (by
        intro d hd
        obtain ⟨name, hname, rfl⟩ := List.mem_map.mp hd
        exact hyaml.loggers name hname _ (toNode_logger (hplain name hname) (hyaml.appenders name hname)))
    have hlist : (names.map fun name => (m.getLogger name).define).map LogDefine.forgetful = c.list := by
      rw [hc, List.map_map]
      rfl
    simp only [loadLogs, setCast, hyaml.all _ hnodes, Except.toOption, Option.bind_some, items]
    rw [htrees, hread, hlist, Option.map_some, Option.map_some, ofSet_fill]

end

/-! ## What the loggers of a process say -/

section
variable {c : LogDefines} {d : LogDefine} {name : Text}

/-- The pattern of a logger with the definition. -/
def LogDefine.pattern (d : LogDefine) : Text := if d.formatter ≠ [] then d.formatter else defaultPattern

/-- The definitions, all written out, as far as they come back. -/
def LogAppenderDefine.restored (a : LogAppenderDefine) : LogAppenderDefine where
  type := if a.type = 1 then 1 else 2
  level := .UNKNOW
  formatter := a.formatter
  file := if a.type = 1 then a.file else []

def LogDefine.restored (d : LogDefine) : LogDefine where
  name := d.name
  level := d.level
  formatter := d.pattern
  appenders := d.appenders.map LogAppenderDefine.restored

theorem configure_name (d : LogDefine) (l : Logger) : (d.configure l).name = l.name := by
  unfold LogDefine.configure
  dsimp only
  rw [appenders_foldl]
  by_cases hempty : d.formatter = []
  · simp [hempty, Logger.clearAppenders, Logger.setLevel]
  · by_cases haccepts : LogFormatter.accepts d.formatter = true
    · simp [hempty, haccepts, Logger.clearAppenders, Logger.setLevel, Logger.setFormatter]
    · simp [hempty, haccepts, Logger.clearAppenders, Logger.setLevel, Logger.setFormatter]

theorem pattern_ne_nil (d : LogDefine) : d.pattern ≠ [] := by
  unfold LogDefine.pattern
  split
  · assumption
  · decide

/-- The logger of a definition. -/
theorem logger_of_named (named : List Text) (hc : c.Valid) (h : c.named name = some d) :
    ((Process.fresh named).setValue c).loggers.getLogger name =
      { name := name, level := d.level, formatter := d.pattern
        appenders := d.appenders.map (LogAppenderDefine.installed d.pattern) } := by
  obtain ⟨hd, rfl⟩ := c.of_named h
  have hvalid := hc d hd
  have hview := view_configure hvalid ((LoggerManager.fresh named).getLogger d.name)
  have hformatter := congrArg LoggerView.formatter hview
  obtain ⟨hlevel, happenders⟩ := configure_eq hvalid ((LoggerManager.fresh named).getLogger d.name)
  have hname : (d.configure ((LoggerManager.fresh named).getLogger d.name)).name = d.name := by
    rw [configure_name, getLogger_fresh]
    split
    · exact (‹d.name = rootName›).symm
    · rfl
  rw [formatter_fresh] at hformatter happenders
  rw [getLogger_setValue_fresh named hd]
  generalize d.configure ((LoggerManager.fresh named).getLogger d.name) = l at hlevel happenders hname hformatter ⊢
  obtain ⟨name, level, formatter, appenders⟩ := l
  have hpattern : formatter = d.pattern := by
    have hview : formatter = if d.formatter = [] then defaultPattern else d.formatter := hformatter
    rw [hview, LogDefine.pattern]
    by_cases hempty : d.formatter = [] <;> simp [hempty]
  have happenders : appenders = d.appenders.map (LogAppenderDefine.installed d.pattern) := happenders
  rw [hpattern, happenders]
  exact congrArg₂ (fun n lv => Logger.mk n lv _ _) hname hlevel

theorem define_installed (a : LogAppenderDefine) (pattern : Text) :
    { (a.installed pattern).define with level := .UNKNOW } = a.restored := by
  unfold LogAppenderDefine.installed LogAppender.define LogAppenderDefine.target LogAppenderDefine.restored
  by_cases htype : a.type = 1
  · by_cases hempty : a.formatter = [] <;> simp [htype, hempty]
  · by_cases hempty : a.formatter = [] <;> simp [htype, hempty]

/-- The definition that a process with the configuration `c` writes for a logger, as it comes back. -/
def LogDefines.stated (c : LogDefines) (name : Text) : LogDefine :=
  match c.named name with
  | some d => d.restored
  | none =>
    { name := name, level := .DEBUG, formatter := defaultPattern
      appenders := if name = rootName then [⟨2, .UNKNOW, [], []⟩] else [] }

theorem define_getLogger (named : List Text) (hc : c.Valid) (name : Text) :
    (((Process.fresh named).setValue c).loggers.getLogger name).define.forgetful = c.stated name := by
  rw [LogDefines.stated]
  cases hnamed : c.named name with
  | some d =>
    obtain ⟨-, hname⟩ := c.of_named hnamed
    rw [logger_of_named named hc hnamed]
    simp only [Logger.define, LogDefine.forgetful, LogDefine.restored, List.map_map, hname]
    congr 1
    exact List.map_congr_left fun a _ => define_installed a d.pattern
  | none =>
    rw [getLogger_unnamed named hnamed]
    by_cases hroot : name = rootName
    · simp only [hroot, if_true]
      rfl
    · simp only [hroot, if_false]
      rfl

/-- The loggers of a process have patterns. -/
theorem plain_getLogger (named : List Text) (hc : c.Valid) (name : Text) :
    (((Process.fresh named).setValue c).loggers.getLogger name).Plain := by
  cases hnamed : c.named name with
  | some d =>
    rw [logger_of_named named hc hnamed]
    refine ⟨pattern_ne_nil d, ?_⟩
    intro a ha hown
    obtain ⟨b, _, rfl⟩ := List.mem_map.mp ha
    have hb : b.formatter ≠ [] := by simpa [LogAppenderDefine.installed] using hown
    exact ⟨b.formatter, hb, by simp [LogAppenderDefine.installed, hb]⟩
  | none =>
    rw [getLogger_unnamed named hnamed]
    split
    · refine ⟨by decide, ?_⟩
      intro a ha hown
      obtain rfl : a = _ := List.mem_singleton.mp ha
      cases hown
    · exact ⟨(by decide : defaultPattern ≠ []), fun a ha => nomatch ha⟩

/-! ## What is written after the levels are lost -/

variable {event : LogEvent}

theorem filter_forgetful (level : Level) (f : LogAppenderDefine → LogAppenderDefine)
    (hf : ∀ a, (f a).level = .UNKNOW) (as : List LogAppenderDefine) :
    (as.map f).filter (fun a => level.toNat ≥ a.level.toNat) = as.map f := by
  apply List.filter_eq_self.mpr
  intro a ha
  obtain ⟨b, _, rfl⟩ := List.mem_map.mp ha
  rw [hf b]
  exact decide_eq_true (Nat.zero_le _)

/-- An appender that has lost its level writes whatever its logger lets pass. -/
theorem asks_forgetful (d : LogDefine) :
    d.forgetful.asks event =
      if event.level.toNat ≥ d.level.toNat then d.appenders.map fun a => (a.target, a.pattern d) else [] := by
  unfold LogDefine.asks LogDefine.forgetful
  dsimp only
  rw [filter_forgetful _ _ fun _ => rfl, List.map_map]
  rfl

/-- What is written out in full says the same. -/
theorem asks_restored (hd : d.Valid) : d.restored.asks event = d.forgetful.asks event := by
  rw [asks_forgetful]
  unfold LogDefine.asks LogDefine.restored
  dsimp only
  rw [filter_forgetful _ _ fun _ => rfl, List.map_map]
  congr 1
  refine List.map_congr_left fun a ha => ?_
  have htarget : a.restored.target = a.target := by
    unfold LogAppenderDefine.target LogAppenderDefine.restored
    rcases hd.types a ha with htype | htype <;> simp [htype]
  have hpattern : a.restored.pattern d.restored = a.pattern d := by
    have hformatter : d.restored.formatter ≠ [] := pattern_ne_nil d
    unfold LogAppenderDefine.pattern
    rw [if_pos hformatter]
    rfl
  exact Prod.ext htarget hpattern

/-- An event of a logger at a level. -/
def anEvent (logger : Text) (level : Level) : LogEvent where
  file := []
  line := 0
  elapse := 0
  threadId := 0
  fiberId := 0
  time := 0
  threadName := []
  logger := logger
  level := level
  content := []

/-- Without levels above that of the logger it makes no difference that they are lost. -/
theorem asks_forgetful_of_le (h : ∀ a ∈ d.appenders, a.level.toNat ≤ d.level.toNat) :
    d.forgetful.asks event = d.asks event := by
  rw [asks_forgetful, LogDefine.asks]
  by_cases hlevel : event.level.toNat ≥ d.level.toNat
  · have hall : (d.appenders.filter fun a => event.level.toNat ≥ a.level.toNat) = d.appenders :=
      List.filter_eq_self.mpr fun a ha => decide_eq_true (Nat.le_trans (h a ha) hlevel)
    rw [if_pos hlevel, if_pos hlevel, hall]
  · rw [if_neg hlevel, if_neg hlevel]

/-- At the level of the logger every level above shows. -/
theorem le_of_asks_forgetful (hevent : event.level = d.level)
    (h : (d.forgetful.asks event).length = (d.asks event).length) :
    ∀ a ∈ d.appenders, a.level.toNat ≤ d.level.toNat := by
  have hlevel : event.level.toNat ≥ d.level.toNat := by rw [hevent]
  rw [asks_forgetful, LogDefine.asks, if_pos hlevel, if_pos hlevel, List.length_map, List.length_map] at h
  intro a ha
  have hpass := List.length_filter_eq_length_iff.mp h.symm a ha
  rw [hevent] at hpass
  exact of_decide_eq_true hpass

/-! ## Two processes -/

/-- The definitions with the levels of the appenders lost. -/
def LogDefines.forgetful (c : LogDefines) : LogDefines where
  list := c.list.map LogDefine.forgetful
  sorted := List.pairwise_map.mpr (c.sorted.imp fun hlt => hlt)

theorem named_forgetful (c : LogDefines) (name : Text) :
    c.forgetful.named name = (c.named name).map LogDefine.forgetful := by
  unfold LogDefines.named LogDefines.forgetful
  rw [List.find?_map]
  rfl

/-- What a logger with appenders of its own writes. -/
theorem asks_of_named (hnamed : c.named event.logger = some d) (happenders : d.appenders ≠ []) :
    c.asks event = d.asks event := by
  unfold LogDefines.asks
  by_cases hroot : event.logger = rootName
  · rw [if_pos hroot, LogDefines.rootAsks, ← hroot, hnamed]
  · rw [if_neg hroot, hnamed]
    exact if_pos happenders

theorem stated_name (c : LogDefines) (name : Text) : (c.stated name).name = name := by
  unfold LogDefines.stated
  cases hnamed : c.named name with
  | some d => exact (c.of_named hnamed).2
  | none => rfl

theorem valid_stated (hc : c.Valid) (hname : name ≠ []) : (c.stated name).Valid := by
  unfold LogDefines.stated
  cases hnamed : c.named name with
  | none =>
    refine ⟨hname, .inr defaultPattern_accepted, ?_, ?_⟩
    · intro a ha
      dsimp only at ha
      split at ha
      · exact .inr (by rw [List.mem_singleton.mp ha])
      · cases ha
    · intro a ha
      dsimp only at ha
      split at ha
      · exact .inl (by rw [List.mem_singleton.mp ha])
      · cases ha
  | some d =>
    have hd := hc d (c.of_named hnamed).1
    refine ⟨hd.named, .inr ?_, ?_, ?_⟩
    · show LogFormatter.accepts d.pattern = true
      unfold LogDefine.pattern
      split
      · exact hd.formatter.resolve_left ‹_›
      · exact defaultPattern_accepted
    · intro a ha
      obtain ⟨b, _, rfl⟩ := List.mem_map.mp ha
      show (if b.type = 1 then 1 else 2) = 1 ∨ (if b.type = 1 then 1 else 2) = 2
      split
      · exact .inl rfl
      · exact .inr rfl
    · intro a ha
      obtain ⟨b, hb, rfl⟩ := List.mem_map.mp ha
      exact hd.formatters b hb

/-- The definitions that come back write what `c` asks for but for the levels of the appenders. -/
theorem asks_stated {c' : LogDefines} {names : List Text} (hc : c.Valid) (hroot : rootName ∈ names)
    (hnames : ∀ d ∈ c.list, d.name ∈ names)
    (hnamed : ∀ name, c'.named name = if name ∈ names then some (c.stated name) else none) :
    c'.asks event = c.forgetful.asks event := by
  have hrootAsks : c'.rootAsks event = c.forgetful.rootAsks event := by
    rw [LogDefines.rootAsks, LogDefines.rootAsks, hnamed, if_pos hroot, named_forgetful, LogDefines.stated]
    cases h : c.named rootName with
    | some d => exact asks_restored (hc d (c.of_named h).1)
    | none =>
      dsimp only [Option.map_none]
      rw [if_pos rfl, LogDefine.asks]
      rfl
  rw [LogDefines.asks, LogDefines.asks, hrootAsks, hnamed, named_forgetful, LogDefines.stated]
  by_cases hname : event.logger = rootName
  · rw [if_pos hname, if_pos hname]
  · simp only [if_neg hname]
    cases h : c.named event.logger with
    | some d =>
      obtain ⟨hd, heq⟩ := c.of_named h
      have happenders : d.restored.appenders ≠ [] ↔ d.forgetful.appenders ≠ [] := by
        simp [LogDefine.restored, LogDefine.forgetful]
      simp only [if_pos (heq ▸ hnames d hd), Option.map_some, happenders, asks_restored (hc d hd)]
      rfl
    | none =>
      by_cases hin : event.logger ∈ names
      · simp only [if_pos hin, Option.map_none, ne_eq, not_true_eq_false, if_false]
      · simp only [if_neg hin, Option.map_none]

theorem LogDefines.named_of_mem (hd : d ∈ c.list) : c.named d.name = some d := by
  cases hnamed : c.named d.name with
  | none => exact absurd rfl (LogDefines.named_eq_none hnamed d hd)
  | some e =>
    obtain ⟨he, hname⟩ := c.of_named hnamed
    rw [LogDefines.eq_of_name he hd hname]

/-- The levels that are lost show in some event, if and only if an appender has one above its logger's. -/
theorem writes_lost_iff (strftime : Text → UInt64 → Text) (c : LogDefines) :
    (∀ event, c.forgetful.writes strftime event = c.writes strftime event) ↔
      ∀ d ∈ c.list, ∀ a ∈ d.appenders, a.level.toNat ≤ d.level.toNat := by
  constructor
  · intro h d hd a ha
    have hnamed : c.named (anEvent d.name d.level).logger = some d := c.named_of_mem hd
    have hsome : d.appenders ≠ [] := List.ne_nil_of_mem ha
    have hforgetful : c.forgetful.named (anEvent d.name d.level).logger = some d.forgetful := by
      rw [named_forgetful, hnamed]
      rfl
    have hlength := congrArg List.length (h (anEvent d.name d.level))
    rw [LogDefines.writes, LogDefines.writes, List.length_map, List.length_map, asks_of_named hnamed hsome,
      asks_of_named hforgetful (by simpa [LogDefine.forgetful] using hsome)] at hlength
    exact le_of_asks_forgetful rfl hlength a ha
  · intro h event
    have hsame : ∀ name, ∀ d, c.named name = some d → d.forgetful.asks event = d.asks event :=
      fun name d hd => asks_forgetful_of_le (h d (c.of_named hd).1)
    have hrootAsks : c.forgetful.rootAsks event = c.rootAsks event := by
      rw [LogDefines.rootAsks, LogDefines.rootAsks, named_forgetful]
      cases hd : c.named rootName with
      | none => rfl
      | some d => exact hsame rootName d hd
    rw [LogDefines.writes, LogDefines.writes, LogDefines.asks, LogDefines.asks, hrootAsks, named_forgetful]
    cases hd : c.named event.logger with
    | none => rfl
    | some d =>
      have happenders : d.forgetful.appenders ≠ [] ↔ d.appenders ≠ [] := by simp [LogDefine.forgetful]
      simp only [Option.map_some, happenders, hsame event.logger d hd]
      rfl

/-! ## The loggers there are -/

/-- A change to one logger leaves all that are there, and puts that one there. -/
theorem isSome_each (upd : LogDefine → Option (Logger → Logger)) :
    ∀ (l : List LogDefine) (m : LoggerManager) (name : Text),
    ((m.each upd l) name).isSome = true ↔
      (m name).isSome = true ∨ ∃ d ∈ l, d.name = name ∧ (upd d).isSome = true := by
  intro l
  induction l with
  | nil => intro m name; simp [LoggerManager.each]
  | cons d rest ih =>
    intro m name
    rw [each_cons, ih]
    have hone : ((m.each upd [d]) name).isSome = true ↔
        (m name).isSome = true ∨ d.name = name ∧ (upd d).isSome = true := by
      unfold LoggerManager.each
      cases hupd : upd d with
      | none => simp [hupd]
      | some f =>
        by_cases hname : name = d.name
        · simp [hupd, LoggerManager.on, LoggerManager.set, hname]
        · simp [hupd, LoggerManager.on, LoggerManager.set, hname, Ne.symm hname]
    rw [hone]
    simp [or_assoc]

/-- The loggers of a configured process. -/
theorem isSome_setValue (named : List Text) (c : LogDefines) (name : Text) :
    (((Process.fresh named).setValue c).loggers name).isSome = true ↔
      name = rootName ∨ name ∈ named ∨ ∃ d ∈ c.list, d.name = name := by
  have hfresh : ((LoggerManager.fresh named) name).isSome = true ↔ name = rootName ∨ name ∈ named := by
    unfold LoggerManager.fresh
    by_cases hroot : name = rootName
    · simp [hroot]
    · by_cases hin : name ∈ named <;> simp [hroot, hin]
  unfold Process.setValue
  split
  · rename_i heq
    obtain ⟨list, sorted⟩ := c
    cases list with
    | nil => simpa [Process.fresh] using hfresh
    | cons d rest => cases heq
  · have hlistener : (Process.fresh named).loggers.listener (Process.fresh named).val c =
        (LoggerManager.fresh named).each (LogDefine.change LogDefines.empty) c.list := rfl
    have hchange : ∀ d, (LogDefine.change LogDefines.empty d).isSome = true := fun d => rfl
    dsimp only
    rw [hlistener, isSome_each, hfresh, or_assoc]
    simp [hchange]

end

/-- **Dumping and loading the loggers.** The text that `toYamlString` gives for the loggers of a process with the
configuration `c`, as the value of `logs` of another fresh process, makes it write the same for every event if and
only if no appender of `c` has a level above that of its logger. -/
theorem dump_restores_iff {emit : Node → Text} {load : Text → Except CastError Node}
    (strftime : Text → UInt64 → Text) {named : List Text} (named' : List Text) (hnamed : [] ∉ named) {c : LogDefines}
    (hc : c.Valid) {names : List Text} (hsorted : names.Pairwise (· < ·))
    (hnames : ∀ name, name ∈ names ↔ (((Process.fresh named).setValue c).loggers name).isSome = true)
    (hyaml : DumpLoads emit load ((Process.fresh named).setValue c).loggers names) :
    ∃ v c', ((Process.fresh named).setValue c).loggers.toYamlString emit load names = .ok v ∧
      loadLogs emit load v = some c' ∧
      ((∀ event, ((Process.fresh named').setValue c').loggers.log strftime event =
          ((Process.fresh named).setValue c).loggers.log strftime event) ↔
        ∀ d ∈ c.list, ∀ a ∈ d.appenders, a.level.toNat ≤ d.level.toNat) := by
  have hsays : names.map (fun name => (((Process.fresh named).setValue c).loggers.getLogger name).define.forgetful) =
      names.map c.stated := List.map_congr_left fun name _ => define_getLogger named hc name
  have horder : (names.map c.stated).Pairwise fun a b => a.lt b = true := by
    refine List.pairwise_map.mpr (hsorted.imp fun hlt => ?_)
    simpa [LogDefine.lt, stated_name] using hlt
  obtain ⟨v, hdump, hload⟩ := loadLogs_dump (c := ⟨names.map c.stated, horder⟩)
    (fun name _ => plain_getLogger named hc name) hyaml hsays.symm
  refine ⟨v, _, hdump, hload, ?_⟩
  have hvalid : LogDefines.Valid ⟨names.map c.stated, horder⟩ := by
    intro d hd
    obtain ⟨name, hname, rfl⟩ := List.mem_map.mp hd
    apply valid_stated hc
    rintro rfl
    rcases (isSome_setValue named c []).mp ((hnames []).mp hname) with hroot | hin | ⟨d, hd, hempty⟩
    · exact absurd hroot (by decide)
    · exact hnamed hin
    · exact (hc d hd).named hempty
  have hfind : ∀ name, LogDefines.named ⟨names.map c.stated, horder⟩ name =
      if name ∈ names then some (c.stated name) else none := by
    intro name
    split
    · rename_i hin
      have hmem : c.stated name ∈ (⟨names.map c.stated, horder⟩ : LogDefines).list := List.mem_map_of_mem hin
      have hsome := LogDefines.named_of_mem hmem
      rwa [stated_name] at hsome
    · rename_i hout
      apply List.find?_eq_none.mpr
      intro d hd
      obtain ⟨other, hother, rfl⟩ := List.mem_map.mp hd
      rw [stated_name]
      simpa using fun heq : other = name => hout (heq ▸ hother)
  have hroot : rootName ∈ names := (hnames rootName).mpr ((isSome_setValue named c rootName).mpr (.inl rfl))
  have hdefined : ∀ d ∈ c.list, d.name ∈ names := fun d hd =>
    (hnames d.name).mpr ((isSome_setValue named c d.name).mpr (.inr (.inr ⟨d, hd, rfl⟩)))
  rw [← writes_lost_iff strftime]
  refine forall_congr' fun event => ?_
  rw [setValue_log strftime named' hvalid event, setValue_log strftime named hc event, LogDefines.writes,
    asks_stated hc hroot hdefined hfind, ← LogDefines.writes]

/-- `root` to the standard output, at a level that its appender has too, and the texts of its trees. -/
def rootDefine : LogDefine := { toStdout .INFO (text "%m%n") with name := rootName, appenders := [⟨2, .INFO, [], []⟩] }

def rootAppenderText : Text := text "type: StdoutLogAppender\nlevel: INFO"

def rootText : Text :=
  text "name: root\nlevel: INFO\nformatter: \"%m%n\"\nappenders:\n  - type: StdoutLogAppender\n    level: INFO"

def loggersText : Text :=
  text "- name: root\n  level: INFO\n  formatter: \"%m%n\"\n  appenders:\n" ++
    text "    - type: StdoutLogAppender\n      level: INFO"

def rootAppender : LogAppender := ⟨.stdout, .INFO, false, some (text "%m%n")⟩

def rootEmit : Node → Text
  | .map entries => if (find (text "name") entries).isSome then rootText else rootAppenderText
  | _ => loggersText

def rootLoad (v : Text) : Except CastError Node :=
  if v = rootAppenderText then .ok rootAppender.toNode
  else if v = rootText then .ok rootDefine.toNode
  else if v = loggersText then .ok (.sequence [rootDefine.toNode])
  else .error .parser

theorem rootDefine_logger :
    ((Process.fresh []).setValue (single rootDefine)).loggers.getLogger rootName =
      ⟨rootName, .INFO, text "%m%n", [rootAppender]⟩ := by
  decide +kernel

theorem rootDefine_loads :
    DumpLoads rootEmit rootLoad ((Process.fresh []).setValue (single rootDefine)).loggers [rootName] := by
  have happender : rootLoad (rootEmit rootAppender.toNode) = .ok rootAppender.toNode := rfl
  have hlogger : Logger.toNode rootEmit rootLoad ⟨rootName, .INFO, text "%m%n", [rootAppender]⟩ =
      .ok rootDefine.toNode := rfl
  have hload : rootLoad (rootEmit rootDefine.toNode) = .ok rootDefine.toNode := rfl
  constructor
  · intro name hname a ha
    rw [List.mem_singleton.mp hname, rootDefine_logger] at ha
    rw [List.mem_singleton.mp ha]
    exact happender
  · intro name hname node hnode
    rw [List.mem_singleton.mp hname, rootDefine_logger, hlogger] at hnode
    cases hnode
    exact hload
  · intro nodes hnodes
    have hsame : nodes = [rootDefine.toNode] := by
      simp only [LoggerManager.nodes, Logger.toYamlString, rootDefine_logger, hlogger, Except.map, bind, Except.bind,
        hload, pure, Except.pure, Except.ok.injEq] at hnodes
      exact hnodes.symm
    rw [hsame]
    rfl

theorem dump_restores_iff_root : ∃ v c',
    ((Process.fresh []).setValue (single rootDefine)).loggers.toYamlString rootEmit rootLoad [rootName] = .ok v ∧
      loadLogs rootEmit rootLoad v = some c' ∧
      ∀ event, ((Process.fresh []).setValue c').loggers.log (fun _ _ => []) event =
        ((Process.fresh []).setValue (single rootDefine)).loggers.log (fun _ _ => []) event := by
  have hvalid : LogDefines.Valid (single rootDefine) := by
    intro d hd
    cases List.mem_singleton.mp hd
    exact ⟨by decide, .inr (by decide +kernel), by decide, by decide⟩
  have hnames : ∀ name, name ∈ [rootName] ↔
      (((Process.fresh []).setValue (single rootDefine)).loggers name).isSome = true := by
    intro name
    rw [isSome_setValue]
    simp [single, rootDefine, eq_comm]
  obtain ⟨v, c', hdump, hload, hiff⟩ := dump_restores_iff (fun _ _ => []) [] (by simp) hvalid
    (List.pairwise_singleton _ _) hnames rootDefine_loads
  refine ⟨v, c', hdump, hload, hiff.mpr ?_⟩
  intro d hd a ha
  cases List.mem_singleton.mp hd
  cases List.mem_singleton.mp ha
  exact Nat.le_refl _

end Sylar.Log
