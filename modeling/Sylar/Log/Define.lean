import Mathlib.Data.List.Basic
import Mathlib.Data.List.Nodup
import Sylar.Log.Basic

/- The `logs` variable of `sylar/log.cc` and the listener that configures the loggers.

   A change goes through three comparisons: `setValue` compares the whole sets, the
   listener looks a definition up by its name, and compares it with the one it finds.
   `LogDefine::operator==` compares `appenders` with itself, so two definitions that
   differ only there count as the same, and such an edit is not seen. A definition
   without a formatter leaves the logger the one it has. `history_free_iff` says for
   which pairs of values neither matters.

   Correspondence (C++ ↔ Lean):
     `LogDefine::operator==`, `operator<`    ↔ `LogDefine.eqv`, `LogDefine.lt`
     `std::set<LogDefine>`, `find`, `==`     ↔ `LogDefines`, `LogDefines.find`, `LogDefines.eqv`
     the loop's body in `LogIniter`          ↔ `LogDefine.configure`, `LogDefine.remove`
     `ConfigVar::setValue`                   ↔ `Process.setValue`, no other thread about -/
namespace Sylar.Log

structure LogAppenderDefine where
  /-- 1 is a file, 2 the standard output. -/
  type : Int
  level : Level
  formatter : Text
  file : Text
  deriving DecidableEq, Repr

structure LogDefine where
  name : Text
  level : Level
  formatter : Text
  appenders : List LogAppenderDefine
  deriving DecidableEq, Repr

/-- `operator==`, with `appenders == appenders` as it stands. -/
def LogDefine.eqv (d oth : LogDefine) : Bool :=
  d.name == oth.name && d.level == oth.level && d.formatter == oth.formatter && d.appenders == d.appenders

def LogDefine.lt (d oth : LogDefine) : Bool := decide (d.name < oth.name)

/-- `std::set<LogDefine>`: in the order of the names. -/
structure LogDefines where
  list : List LogDefine
  sorted : list.Pairwise fun a b => a.lt b = true

def LogDefines.empty : LogDefines := { list := [], sorted := List.Pairwise.nil }

def LogDefines.find (c : LogDefines) (i : LogDefine) : Option LogDefine :=
  c.list.find? fun d => !d.lt i && !i.lt d

def LogDefines.eqv (c oth : LogDefines) : Bool := c.list.isEqv oth.list LogDefine.eqv

/-! ## The listener -/

def LogAppenderDefine.appender (a : LogAppenderDefine) : Option LogAppender :=
  let ap :=
    if a.type = 1 then some (LogAppender.new (.file a.file))
    else if a.type = 2 then some (LogAppender.new .stdout)
    else none
  ap.map fun ap =>
    let ap := { ap with level := a.level }
    if a.formatter ≠ [] ∧ LogFormatter.accepts a.formatter then ap.setFormatter (some a.formatter) else ap

def LogDefine.configure (i : LogDefine) (logger : Logger) : Logger :=
  let logger := logger.setLevel i.level
  let logger := if i.formatter ≠ [] then logger.setFormatter i.formatter else logger
  (i.appenders.filterMap LogAppenderDefine.appender).foldl Logger.addAppender logger.clearAppenders

def LogDefine.remove (logger : Logger) : Logger := (logger.setLevel .UNKNOW).clearAppenders

/-- What is done to the logger of `i`, where anything is. -/
def LogDefine.change (old : LogDefines) (i : LogDefine) : Option (Logger → Logger) :=
  match old.find i with
  | none => some i.configure
  | some d => if i.eqv d then none else some i.configure

def LogDefine.drop (new : LogDefines) (i : LogDefine) : Option (Logger → Logger) :=
  match new.find i with
  | none => some LogDefine.remove
  | some _ => none

/-- A loop over definitions that does something to the loggers of some of them. -/
def LoggerManager.each (m : LoggerManager) (upd : LogDefine → Option (Logger → Logger))
    (l : List LogDefine) : LoggerManager :=
  l.foldl (fun m i =>
    match upd i with
    | some f => m.on i.name f
    | none => m) m

def LoggerManager.listener (m : LoggerManager) (old new : LogDefines) : LoggerManager :=
  (m.each (LogDefine.change old) new.list).each (LogDefine.drop new) old.list

/-- The value of `logs` and the loggers. -/
structure Process where
  val : LogDefines
  loggers : LoggerManager

def Process.fresh (named : List Text) : Process :=
  { val := LogDefines.empty, loggers := LoggerManager.fresh named }

def Process.setValue (p : Process) (v : LogDefines) : Process :=
  if v.eqv p.val then p
  else { val := v, loggers := p.loggers.listener p.val v }

/-! ## Looking up by name -/

theorem names_eq_iff (d e : LogDefine) : (!d.lt e && !e.lt d) = true ↔ d.name = e.name := by
  simp only [LogDefine.lt, Bool.and_eq_true, Bool.not_eq_true', decide_eq_false_iff_not]
  constructor
  · intro h
    exact List.le_antisymm h.2 h.1
  · intro h
    rw [h]
    exact ⟨List.lt_irrefl _, List.lt_irrefl _⟩

section
variable {c c' : LogDefines} {d e i : LogDefine}

theorem LogDefines.nodup (c : LogDefines) : (c.list.map LogDefine.name).Nodup := by
  refine List.pairwise_map.mpr (c.sorted.imp ?_)
  intro a b hlt heq
  have hname : a.name < b.name := by simpa [LogDefine.lt] using hlt
  rw [heq] at hname
  exact List.lt_irrefl _ hname

theorem LogDefines.eq_of_name (hd : d ∈ c.list) (he : e ∈ c.list) (h : d.name = e.name) : d = e :=
  List.inj_on_of_nodup_map c.nodup hd he h

theorem LogDefines.find_eq_none : c.find i = none ↔ ∀ d ∈ c.list, d.name ≠ i.name := by
  simp only [LogDefines.find, List.find?_eq_none, names_eq_iff, ne_eq]

theorem LogDefines.of_find (h : c.find i = some d) : d ∈ c.list ∧ d.name = i.name := by
  unfold LogDefines.find at h
  have hequiv := List.find?_some h
  exact ⟨List.mem_of_find?_eq_some h, (names_eq_iff d i).mp hequiv⟩

theorem LogDefines.find_of_mem (hd : d ∈ c.list) (hname : d.name = i.name) : c.find i = some d := by
  cases h : c.find i with
  | none => exact absurd hname (LogDefines.find_eq_none.mp h d hd)
  | some e =>
    obtain ⟨he, hei⟩ := LogDefines.of_find h
    rw [LogDefines.eq_of_name hd he (hname.trans hei.symm)]

theorem eqv_iff : d.eqv e = true ↔ d.name = e.name ∧ d.level = e.level ∧ d.formatter = e.formatter := by
  simp [LogDefine.eqv, and_assoc]

/-- What `operator==` sees of a definition. -/
def LogDefine.seen (d : LogDefine) : Text × Level × Text := (d.name, d.level, d.formatter)

theorem eqv_iff_seen : d.eqv e = true ↔ d.seen = e.seen := by
  simp [eqv_iff, LogDefine.seen]

theorem map_seen_eq : ∀ {l l' : List LogDefine}, l.isEqv l' LogDefine.eqv = true →
    l.map LogDefine.seen = l'.map LogDefine.seen
  | [], [], _ => rfl
  | [], _ :: _, h => by cases h
  | _ :: _, [], h => by cases h
  | _ :: _, _ :: _, h => by
    simp only [List.isEqv, Bool.and_eq_true] at h
    rw [List.map_cons, List.map_cons, eqv_iff_seen.mp h.1, map_seen_eq h.2]

/-- Lists that compare equal have a partner for each definition, on either side. -/
theorem exists_eqv_right {l l' : List LogDefine} (h : l.isEqv l' LogDefine.eqv = true) (hd : d ∈ l) :
    ∃ e ∈ l', d.eqv e = true := by
  have hmem : d.seen ∈ l'.map LogDefine.seen := by
    rw [← map_seen_eq h]
    exact List.mem_map_of_mem hd
  obtain ⟨e, he, hseen⟩ := List.mem_map.mp hmem
  exact ⟨e, he, eqv_iff_seen.mpr hseen.symm⟩

theorem exists_eqv_left {l l' : List LogDefine} (h : l.isEqv l' LogDefine.eqv = true) (he : e ∈ l') :
    ∃ d ∈ l, d.eqv e = true := by
  have hmem : e.seen ∈ l.map LogDefine.seen := by
    rw [map_seen_eq h]
    exact List.mem_map_of_mem he
  obtain ⟨d, hd, hseen⟩ := List.mem_map.mp hmem
  exact ⟨d, hd, eqv_iff_seen.mpr hseen⟩

end

/-! ## The loops over the definitions -/

section
variable {m : LoggerManager} (upd : LogDefine → Option (Logger → Logger)) {name : Text}

theorem each_cons (d : LogDefine) (rest : List LogDefine) :
    m.each upd (d :: rest) = (m.each upd [d]).each upd rest := rfl

theorem getLogger_each_one (d : LogDefine) :
    (m.each upd [d]).getLogger d.name = (upd d).elim id id (m.getLogger d.name) := by
  unfold LoggerManager.each
  cases h : upd d with
  | none => simp [h]
  | some f => simp [h]

theorem getLogger_each_one_other {d : LogDefine} (hne : name ≠ d.name) :
    (m.each upd [d]).getLogger name = m.getLogger name := by
  unfold LoggerManager.each
  cases h : upd d with
  | none => simp [h]
  | some f => simp [h, getLogger_on_other hne]

/-- A logger that no definition names is left alone. -/
theorem getLogger_each_other : ∀ (l : List LogDefine) (m : LoggerManager), (∀ d ∈ l, d.name ≠ name) →
    (m.each upd l).getLogger name = m.getLogger name := by
  intro l
  induction l with
  | nil => intro m _; rfl
  | cons d rest ih =>
    intro m hnames
    rw [each_cons, ih _ (fun e he => hnames e (List.mem_cons_of_mem _ he))]
    exact getLogger_each_one_other upd (hnames d List.mem_cons_self).symm

/-- With one definition for each name, a logger gets what its own definition says. -/
theorem getLogger_each_mem : ∀ (l : List LogDefine) (m : LoggerManager), (l.map LogDefine.name).Nodup →
    ∀ d ∈ l, (m.each upd l).getLogger d.name = (upd d).elim id id (m.getLogger d.name) := by
  intro l
  induction l with
  | nil => intro m _ d hd; cases hd
  | cons e rest ih =>
    intro m hnodup d hd
    obtain ⟨hnot, hrest⟩ := List.nodup_cons.mp hnodup
    rw [each_cons]
    rcases List.mem_cons.mp hd with rfl | hd
    · -- the definitions behind it have other names
      have hothers : ∀ x ∈ rest, x.name ≠ d.name := by
        intro x hx heq
        exact hnot (heq ▸ List.mem_map_of_mem hx)
      rw [getLogger_each_other upd rest _ hothers]
      exact getLogger_each_one upd d
    · have hne : d.name ≠ e.name := fun heq => hnot (heq ▸ List.mem_map_of_mem hd)
      rw [ih _ hrest d hd, getLogger_each_one_other upd hne]

end

/-! ## One `setValue` -/

section
variable {p : Process} {v : LogDefines} {d : LogDefine}

/-- A definition of the new value, whether `setValue` returns at once or not. -/
theorem getLogger_setValue (hd : d ∈ v.list) :
    (p.setValue v).loggers.getLogger d.name = (d.change p.val).elim id id (p.loggers.getLogger d.name) := by
  unfold Process.setValue
  by_cases heq : v.eqv p.val = true
  · rw [if_pos heq]
    obtain ⟨e, he, hde⟩ := exists_eqv_right heq hd
    have hfind := LogDefines.find_of_mem he (eqv_iff.mp hde).1.symm
    simp [LogDefine.change, hfind, hde]
  · rw [if_neg heq]
    have hchange := getLogger_each_mem (LogDefine.change p.val) v.list p.loggers v.nodup d hd
    refine Eq.trans ?_ hchange
    -- the second loop passes it by: the new value names it
    by_cases hold : ∃ e ∈ p.val.list, e.name = d.name
    · obtain ⟨e, he, hname⟩ := hold
      have hkeep : e.drop v = none := by
        unfold LogDefine.drop
        rw [LogDefines.find_of_mem hd hname.symm]
      have hsecond := getLogger_each_mem (LogDefine.drop v) p.val.list
        (p.loggers.each (LogDefine.change p.val) v.list) p.val.nodup e he
      rw [hkeep, hname] at hsecond
      exact hsecond
    · exact getLogger_each_other _ _ _ (fun e he hname => hold ⟨e, he, hname⟩)

/-- A definition that the new value drops. -/
theorem appenders_setValue_gone (hd : d ∈ p.val.list) (hgone : ∀ e ∈ v.list, e.name ≠ d.name) :
    ((p.setValue v).loggers.getLogger d.name).appenders = [] := by
  unfold Process.setValue
  by_cases heq : v.eqv p.val = true
  · -- equal sets have the same names
    obtain ⟨e, he, hed⟩ := exists_eqv_left heq hd
    exact absurd (eqv_iff.mp hed).1 (hgone e he)
  · rw [if_neg heq]
    have hremove : d.drop v = some LogDefine.remove := by
      unfold LogDefine.drop
      rw [LogDefines.find_eq_none.mpr hgone]
    have hsecond := getLogger_each_mem (LogDefine.drop v) p.val.list
      (p.loggers.each (LogDefine.change p.val) v.list) p.val.nodup d hd
    rw [hremove] at hsecond
    exact congrArg Logger.appenders hsecond

theorem getLogger_setValue_other {name : Text} (hold : ∀ e ∈ p.val.list, e.name ≠ name)
    (hnew : ∀ e ∈ v.list, e.name ≠ name) :
    (p.setValue v).loggers.getLogger name = p.loggers.getLogger name := by
  unfold Process.setValue
  by_cases heq : v.eqv p.val = true
  · rw [if_pos heq]
  · rw [if_neg heq]
    refine Eq.trans (getLogger_each_other _ _ _ hold) ?_
    exact getLogger_each_other _ _ _ hnew

/-- The value after the first configuration of a process is that configuration. -/
theorem val_setValue_fresh (named : List Text) (v : LogDefines) :
    ((Process.fresh named).setValue v).val = v := by
  unfold Process.setValue
  by_cases heq : v.eqv (Process.fresh named).val = true
  · rw [if_pos heq]
    obtain ⟨list, sorted⟩ := v
    cases list with
    | nil => rfl
    | cons d rest => cases heq
  · rw [if_neg heq]

/-- In a fresh process every definition is a new one. -/
theorem getLogger_setValue_fresh (named : List Text) (hd : d ∈ v.list) :
    ((Process.fresh named).setValue v).loggers.getLogger d.name =
      d.configure ((LoggerManager.fresh named).getLogger d.name) := by
  rw [getLogger_setValue hd]
  rfl

end

/-! ## What a definition makes of a logger -/

/-- The formatters are empty or patterns, and the appenders' types are the two there are. -/
structure LogDefine.Valid (d : LogDefine) : Prop where
  named : d.name ≠ []
  formatter : d.formatter = [] ∨ LogFormatter.accepts d.formatter = true
  types : ∀ a ∈ d.appenders, a.type = 1 ∨ a.type = 2
  formatters : ∀ a ∈ d.appenders, a.formatter = [] ∨ LogFormatter.accepts a.formatter = true

def LogDefines.Valid (c : LogDefines) : Prop := ∀ d ∈ c.list, d.Valid

/-- An appender as a configuration sees it: type and file, level, own formatter or not. -/
structure AppenderView where
  target : Target
  level : Level
  hasFormatter : Bool
  deriving DecidableEq, Repr

def LogAppender.view (a : LogAppender) : AppenderView :=
  { target := a.target, level := a.level, hasFormatter := a.hasFormatter }

structure LoggerView where
  level : Level
  formatter : Text
  appenders : List AppenderView
  deriving DecidableEq, Repr

def Logger.view (l : Logger) : LoggerView :=
  { level := l.level, formatter := l.formatter, appenders := l.appenders.map LogAppender.view }

/-- The part of an appender's definition that its appender shows: the standard output has no file,
and of a formatter only whether there is one. -/
def LogAppenderDefine.shown (a : LogAppenderDefine) : AppenderView :=
  { target := if a.type = 1 then .file a.file else .stdout
    level := a.level
    hasFormatter := decide (a.formatter ≠ []) }

theorem addAppender_eq (l : Logger) (a : LogAppender) : ∃ b : LogAppender, b.view = a.view ∧
    l.addAppender a = { l with appenders := l.appenders ++ [b] } := by
  unfold Logger.addAppender
  by_cases h : a.formatter.isNone = true
  · exact ⟨{ a with formatter := some l.formatter }, rfl, by rw [if_pos h]⟩
  · exact ⟨a, rfl, by rw [if_neg h]⟩

theorem view_foldl_addAppender : ∀ (as : List LogAppender) (l : Logger),
    (as.foldl Logger.addAppender l).view =
      { l.view with appenders := l.view.appenders ++ as.map LogAppender.view } := by
  intro as
  induction as with
  | nil => intro l; simp [Logger.view]
  | cons a rest ih =>
    intro l
    obtain ⟨b, hb, heq⟩ := addAppender_eq l a
    rw [List.foldl_cons, ih, heq]
    simp [Logger.view, hb]

/-- A valid definition makes the appender it shows. -/
theorem appender_shown {a : LogAppenderDefine} (htype : a.type = 1 ∨ a.type = 2)
    (hformatter : a.formatter = [] ∨ LogFormatter.accepts a.formatter = true) :
    ∃ ap, a.appender = some ap ∧ ap.view = a.shown := by
  unfold LogAppenderDefine.appender LogAppenderDefine.shown
  by_cases hempty : a.formatter = []
  · rcases htype with htype | htype
    · simp [htype, hempty, LogAppender.view, LogAppender.new]
    · simp [htype, hempty, LogAppender.view, LogAppender.new]
  · have haccepts := hformatter.resolve_left hempty
    rcases htype with htype | htype
    · simp [htype, hempty, haccepts, LogAppender.view, LogAppender.new, LogAppender.setFormatter]
    · simp [htype, hempty, haccepts, LogAppender.view, LogAppender.new, LogAppender.setFormatter]

theorem view_appenders : ∀ (as : List LogAppenderDefine), (∀ a ∈ as, a.type = 1 ∨ a.type = 2) →
    (∀ a ∈ as, a.formatter = [] ∨ LogFormatter.accepts a.formatter = true) →
    (as.filterMap LogAppenderDefine.appender).map LogAppender.view = as.map LogAppenderDefine.shown := by
  intro as
  induction as with
  | nil => intro _ _; rfl
  | cons a rest ih =>
    intro htypes hformatters
    obtain ⟨htype, htypes⟩ := List.forall_mem_cons.mp htypes
    obtain ⟨hformatter, hformatters⟩ := List.forall_mem_cons.mp hformatters
    obtain ⟨ap, hap, hview⟩ := appender_shown htype hformatter
    rw [List.filterMap_cons_some hap, List.map_cons, List.map_cons, hview, ih htypes hformatters]

/-- A configured logger keeps of its past only the formatter, and only without a new one. -/
theorem view_configure {d : LogDefine} (hd : d.Valid) (l : Logger) :
    (d.configure l).view =
      { level := d.level
        formatter := if d.formatter = [] then l.formatter else d.formatter
        appenders := d.appenders.map LogAppenderDefine.shown } := by
  unfold LogDefine.configure
  rw [view_foldl_addAppender, view_appenders d.appenders hd.types hd.formatters]
  by_cases hempty : d.formatter = []
  · simp [hempty, Logger.view, Logger.setLevel, Logger.clearAppenders]
  · have haccepts := hd.formatter.resolve_left hempty
    simp [hempty, haccepts, Logger.view, Logger.setLevel, Logger.setFormatter, Logger.clearAppenders]

/-! ## Two values in a row -/

/-- Setting `c1` and then `c2` leaves the loggers as `c2` alone does. -/
def HistoryFree (named : List Text) (c1 c2 : LogDefines) : Prop :=
  (∀ d ∈ c2.list,
    ((((Process.fresh named).setValue c1).setValue c2).loggers.getLogger d.name).view =
      (((Process.fresh named).setValue c2).loggers.getLogger d.name).view) ∧
  ∀ d ∈ c1.list, (∀ e ∈ c2.list, e.name ≠ d.name) →
    ((((Process.fresh named).setValue c1).setValue c2).loggers.getLogger d.name).appenders = []

/-- What `d1` before `d2`, of one name, does not change about `d2`: with the same level and formatter
they show the same appenders, and a `d2` without a formatter comes after none but the default one. -/
def LogDefine.LeavesNothing (d1 d2 : LogDefine) : Prop :=
  (d1.level = d2.level → d1.formatter = d2.formatter →
    d1.appenders.map LogAppenderDefine.shown = d2.appenders.map LogAppenderDefine.shown) ∧
  (d2.formatter = [] → d1.formatter = [] ∨ d1.formatter = defaultPattern)

/-- A logger that both values define. -/
theorem view_both_iff {c1 c2 : LogDefines} {d1 d2 : LogDefine} (named : List Text) (h1 : d1.Valid) (h2 : d2.Valid)
    (hd1 : d1 ∈ c1.list) (hd2 : d2 ∈ c2.list) (hname : d1.name = d2.name) :
    ((((Process.fresh named).setValue c1).setValue c2).loggers.getLogger d2.name).view =
        (((Process.fresh named).setValue c2).loggers.getLogger d2.name).view ↔
      d1.LeavesNothing d2 := by
  have hfind : ((Process.fresh named).setValue c1).val.find d2 = some d1 := by
    rw [val_setValue_fresh]
    exact LogDefines.find_of_mem hd1 hname
  have hfirst := getLogger_setValue_fresh named hd1
  rw [hname] at hfirst
  rw [getLogger_setValue hd2, getLogger_setValue_fresh named hd2, view_configure h2, formatter_fresh, hfirst]
  unfold LogDefine.change LogDefine.LeavesNothing
  rw [hfind]
  dsimp only
  have hformatter : (d1.configure ((LoggerManager.fresh named).getLogger d2.name)).formatter =
      if d1.formatter = [] then defaultPattern else d1.formatter := by
    have hview := congrArg LoggerView.formatter (view_configure h1 ((LoggerManager.fresh named).getLogger d2.name))
    rw [formatter_fresh] at hview
    exact hview
  by_cases heqv : d2.eqv d1 = true
  · -- the edit is not seen: the logger is as the first value left it
    obtain ⟨-, hlevel, hfmt⟩ := eqv_iff.mp heqv
    rw [if_pos heqv]
    show (d1.configure _).view = _ ↔ _
    rw [view_configure h1, formatter_fresh, hlevel, hfmt]
    simp only [LoggerView.mk.injEq, true_and, forall_const]
    exact (and_iff_left Or.inl).symm
  · -- the logger is configured anew, over the pattern that the first value left it
    rw [if_neg heqv]
    show (d2.configure _).view = _ ↔ _
    rw [view_configure h2, hformatter]
    have hdiffer : ¬ (d1.level = d2.level ∧ d1.formatter = d2.formatter) :=
      fun h => heqv (eqv_iff.mpr ⟨hname.symm, h.1.symm, h.2.symm⟩)
    by_cases hempty : d2.formatter = []
    · by_cases hempty1 : d1.formatter = []
      · simp_all
      · simp_all
    · simp_all

/-- **Two values in a row leave the loggers as the second alone does exactly when no definition of the
first leaves something behind**: a logger named in both values, with the same level and formatter in
both, keeps its appenders, and one whose new definition has no formatter keeps its pattern; every
other logger ends as in a fresh process. Loggers named only in the first end without appenders. -/
theorem history_free_iff (named : List Text) (c1 c2 : LogDefines) (h1 : c1.Valid) (h2 : c2.Valid) :
    HistoryFree named c1 c2 ↔
      ∀ d1 ∈ c1.list, ∀ d2 ∈ c2.list, d1.name = d2.name → d1.LeavesNothing d2 := by
  constructor
  · rintro ⟨hsame, -⟩ d1 hd1 d2 hd2 hname
    exact (view_both_iff named (h1 d1 hd1) (h2 d2 hd2) hd1 hd2 hname).mp (hsame d2 hd2)
  · intro hall
    have hval := val_setValue_fresh named c1
    refine ⟨?_, ?_⟩
    · intro d2 hd2
      by_cases hboth : ∃ d1 ∈ c1.list, d1.name = d2.name
      · obtain ⟨d1, hd1, hname⟩ := hboth
        exact (view_both_iff named (h1 d1 hd1) (h2 d2 hd2) hd1 hd2 hname).mpr (hall d1 hd1 d2 hd2 hname)
      · -- only the second value names it: the first leaves it as it was
        have hnew : ∀ d1 ∈ c1.list, d1.name ≠ d2.name := fun d1 hd1 hname => hboth ⟨d1, hd1, hname⟩
        have hchange : d2.change ((Process.fresh named).setValue c1).val = some d2.configure := by
          unfold LogDefine.change
          rw [hval, LogDefines.find_eq_none.mpr hnew]
        rw [getLogger_setValue hd2, hchange, getLogger_setValue_fresh named hd2]
        show (d2.configure _).view = _
        rw [getLogger_setValue_other (fun e he => absurd he List.not_mem_nil) hnew]
        rfl
    · intro d1 hd1 hgone
      refine appenders_setValue_gone ?_ hgone
      rw [hval]
      exact hd1

/-- One logger with one definition. -/
def single (d : LogDefine) : LogDefines := { list := [d], sorted := List.pairwise_singleton _ _ }

def toStdout (level : Level) (formatter : Text) : LogDefine :=
  { name := text "http", level := level, formatter := formatter
    appenders := [{ type := 2, level := .DEBUG, formatter := [], file := [] }] }

def toFile (level : Level) (formatter : Text) : LogDefine :=
  { name := text "http", level := level, formatter := formatter
    appenders := [{ type := 1, level := .DEBUG, formatter := [], file := text "http.log" }] }

theorem history_free_level :
    HistoryFree [] (single (toStdout .INFO (text "%m"))) (single (toFile .WARN (text "%m%n"))) := by
  refine (history_free_iff [] _ _ ?_ ?_).mpr ?_
  · intro d hd
    rw [List.mem_singleton.mp hd]
    exact ⟨by decide +kernel, Or.inr (by decide +kernel), by decide +kernel, by decide +kernel⟩
  · intro d hd
    rw [List.mem_singleton.mp hd]
    exact ⟨by decide +kernel, Or.inr (by decide +kernel), by decide +kernel, by decide +kernel⟩
  · intro d1 hd1 d2 hd2 _
    rw [List.mem_singleton.mp hd1, List.mem_singleton.mp hd2]
    exact ⟨fun hlevel => absurd hlevel (by decide +kernel), fun hempty => absurd hempty (by decide +kernel)⟩

/-- From the standard output to a file, and nothing else: the logger still writes to the standard output. -/
theorem appenders_kept :
    (single (toStdout .INFO [])).Valid ∧ (single (toFile .INFO [])).Valid ∧
      ¬ HistoryFree [] (single (toStdout .INFO [])) (single (toFile .INFO [])) := by
  refine ⟨?_, ?_, ?_⟩
  · intro d hd
    rw [List.mem_singleton.mp hd]
    exact ⟨by decide +kernel, Or.inl rfl, by decide +kernel, by decide +kernel⟩
  · intro d hd
    rw [List.mem_singleton.mp hd]
    exact ⟨by decide +kernel, Or.inl rfl, by decide +kernel, by decide +kernel⟩
  · rintro ⟨hsame, -⟩
    have hviews := hsame _ List.mem_cons_self
    exact absurd hviews (by decide +kernel)

end Sylar.Log
