import Mathlib.Logic.Function.Basic
import Sylar.Log.Basic

/- Formatters that appenders inherit from their loggers, in `sylar/log.cc`.

   Here loggers and appenders are objects: an appender may be in several loggers, or leave
   one and enter another, and `m_formatter` is a pointer. What is own and what is inherited
   is kept in `m_hasFormatter`; the logger writes its formatter into appenders when they are
   added, and when it gets another one.

   Three calls can leave an appender that does not follow: dropping the own formatter of an
   appender that a logger has, adding one that still has the formatter of a former logger,
   and a new formatter for one of two loggers that share an appender. `inherits_iff` says
   that runs without these (`Keeps`), and no others, keep the rule.

   With one logger for each appender the operations are those on values of `Log/Basic`
   (`view_addAppender`, `view_setFormatter`). -/
namespace Sylar.Log

/-! ## Model -/

/-- `LogAppender`; `F` is a pointer to a formatter. -/
structure Appender (F : Type) where
  target : Target
  level : Level
  hasFormatter : Bool
  formatter : Option F

/-- `Logger`, whose formatter is never null: the constructor makes one. -/
structure LoggerObject (F : Type) where
  name : Text
  level : Level
  formatter : F
  appenders : List Nat

/-- The objects by address. -/
structure Objects (F : Type) where
  loggers : Nat → LoggerObject F
  appenders : Nat → Appender F

section
variable {F : Type}

/-- Loggers and appenders as their constructors leave them. -/
structure Fresh (s : Objects F) : Prop where
  empty : ∀ l, (s.loggers l).appenders = []
  unset : ∀ a, (s.appenders a).hasFormatter = false ∧ (s.appenders a).formatter = none

namespace Objects

def setLogger (s : Objects F) (l : Nat) (logger : LoggerObject F) : Objects F :=
  { s with loggers := Function.update s.loggers l logger }

def setAppender (s : Objects F) (a : Nat) (appender : Appender F) : Objects F :=
  { s with appenders := Function.update s.appenders a appender }

/-- `Logger::addAppender`. -/
def addAppender (s : Objects F) (l a : Nat) : Objects F :=
  let s' :=
    if (s.appenders a).formatter.isNone then
      s.setAppender a { s.appenders a with formatter := some (s.loggers l).formatter }
    else s
  s'.setLogger l { s.loggers l with appenders := (s.loggers l).appenders ++ [a] }

/-- `Logger::delAppender`. -/
def delAppender (s : Objects F) (l a : Nat) : Objects F :=
  s.setLogger l { s.loggers l with appenders := (s.loggers l).appenders.erase a }

/-- `Logger::clearAppenders`. -/
def clearAppenders (s : Objects F) (l : Nat) : Objects F :=
  s.setLogger l { s.loggers l with appenders := [] }

/-- One turn of the loop of `Logger::setFormatter`. -/
def follow (val : F) (s : Objects F) (a : Nat) : Objects F :=
  if (s.appenders a).hasFormatter = false then s.setAppender a { s.appenders a with formatter := some val } else s

/-- `Logger::setFormatter(LogFormatter::ptr)`. -/
def setFormatter (s : Objects F) (l : Nat) (val : F) : Objects F :=
  (s.loggers l).appenders.foldl (follow val) (s.setLogger l { s.loggers l with formatter := val })

/-- `Logger::setFormatter(const std::string&)`; `new` is the formatter made of the pattern. -/
def setPattern (s : Objects F) (l : Nat) (val : Text) (new : F) : Objects F :=
  if LogFormatter.accepts val then s.setFormatter l new else s

/-- `LogAppender::setFormatter`. -/
def setOwn (s : Objects F) (a : Nat) (val : Option F) : Objects F :=
  s.setAppender a { s.appenders a with formatter := val, hasFormatter := val.isSome }

end Objects

inductive FormatterOp (F : Type) where
  | addAppender (l a : Nat)
  | delAppender (l a : Nat)
  | clearAppenders (l : Nat)
  | setFormatter (l : Nat) (val : F)
  | setPattern (l : Nat) (val : Text) (new : F)
  | setOwn (a : Nat) (val : Option F)

def Objects.step (s : Objects F) : FormatterOp F → Objects F
  | .addAppender l a => s.addAppender l a
  | .delAppender l a => s.delAppender l a
  | .clearAppenders l => s.clearAppenders l
  | .setFormatter l val => s.setFormatter l val
  | .setPattern l val new => s.setPattern l val new
  | .setOwn a val => s.setOwn a val

def Objects.run (s : Objects F) (ops : List (FormatterOp F)) : Objects F := ops.foldl Objects.step s

/-- How `FileLogAppender::log` and `StdoutLogAppender::log` go with the formatter. -/
inductive LogOutcome (F : Type) where
  /-- The event is below the appender's level. -/
  | skipped
  | formatted (f : F)
  /-- `m_formatter->format` through a null pointer. -/
  | nullFormatter

def Appender.log (a : Appender F) (level : Level) : LogOutcome F :=
  if level.toNat ≥ a.level.toNat then
    match a.formatter with
    | some f => .formatted f
    | none => .nullFormatter
  else .skipped

/-! ## The rule -/

/-- Every appender of a logger has a formatter, the logger's unless it has its own. -/
structure Inherits (s : Objects F) : Prop where
  some_formatter : ∀ l, ∀ a ∈ (s.loggers l).appenders, (s.appenders a).formatter ≠ none
  follows : ∀ l, ∀ a ∈ (s.loggers l).appenders, (s.appenders a).hasFormatter = false →
    (s.appenders a).formatter = some (s.loggers l).formatter
  logs : ∀ l, ∀ a ∈ (s.loggers l).appenders, ∀ level, (s.appenders a).log level ≠ .nullFormatter

/-- What each call must find: an added appender that has no formatter, its own, or already the
logger's; a dropped formatter on an appender of no logger; and for a new formatter, that no
other logger with another formatter shares an inheriting appender. -/
def Keeps (s : Objects F) : FormatterOp F → Prop
  | .addAppender l a => (s.appenders a).formatter = none ∨ (s.appenders a).hasFormatter = true ∨
      (s.appenders a).formatter = some (s.loggers l).formatter
  | .setOwn a val => val = none → ∀ l, a ∉ (s.loggers l).appenders
  | .setFormatter l val => ∀ a ∈ (s.loggers l).appenders, (s.appenders a).hasFormatter = false →
      ∀ l', l' ≠ l → a ∈ (s.loggers l').appenders → (s.loggers l').formatter = val
  | .setPattern l val new => LogFormatter.accepts val = true →
      ∀ a ∈ (s.loggers l).appenders, (s.appenders a).hasFormatter = false →
        ∀ l', l' ≠ l → a ∈ (s.loggers l').appenders → (s.loggers l').formatter = new
  | .delAppender _ _ | .clearAppenders _ => True

/-! ## What each call changes -/

section
variable {s : Objects F} {l l' a b : Nat}

theorem setLogger_appenders (logger : LoggerObject F) : (s.setLogger l logger).appenders = s.appenders := rfl

theorem loggers_setLogger (logger : LoggerObject F) :
    (s.setLogger l logger).loggers l' = if l' = l then logger else s.loggers l' := by
  simp [Objects.setLogger, Function.update_apply]

theorem appenders_setAppender (appender : Appender F) :
    (s.setAppender a appender).appenders b = if b = a then appender else s.appenders b := by
  simp [Objects.setAppender, Function.update_apply]

theorem loggers_addAppender : (s.addAppender l a).loggers l'
    = if l' = l then { s.loggers l with appenders := (s.loggers l).appenders ++ [a] } else s.loggers l' := by
  simp only [Objects.addAppender]
  split
  · rw [loggers_setLogger]; rfl
  · rw [loggers_setLogger]

/-- An added appender gets the logger's formatter if it has none. -/
theorem appenders_addAppender : (s.addAppender l a).appenders b
    = if b = a ∧ (s.appenders a).formatter = none then
        { s.appenders a with formatter := some (s.loggers l).formatter }
      else s.appenders b := by
  simp only [Objects.addAppender]
  by_cases hnone : (s.appenders a).formatter = none
  · rw [if_pos (by simp [hnone]), setLogger_appenders, appenders_setAppender]
    simp [hnone]
  · rw [if_neg (by simpa using hnone), setLogger_appenders]
    simp [hnone]

theorem loggers_foldl_follow (val : F) (L : List Nat) (s : Objects F) :
    (L.foldl (Objects.follow val) s).loggers = s.loggers := by
  induction L generalizing s with
  | nil => rfl
  | cons a L ih =>
    rw [List.foldl_cons, ih, Objects.follow]
    split
    · rfl
    · rfl

/-- The loop reaches every appender without a formatter of its own. -/
theorem appenders_foldl_follow (val : F) (L : List Nat) (s : Objects F) (b : Nat) :
    (L.foldl (Objects.follow val) s).appenders b
      = if b ∈ L ∧ (s.appenders b).hasFormatter = false then { s.appenders b with formatter := some val }
        else s.appenders b := by
  induction L generalizing s with
  | nil => simp
  | cons a L ih =>
    rw [List.foldl_cons, ih, Objects.follow]
    by_cases ha : (s.appenders a).hasFormatter = false
    · rw [if_pos ha, appenders_setAppender]
      by_cases hb : b = a
      · subst hb
        simp [ha]
      · simp [hb]
    · rw [if_neg ha]
      by_cases hb : b = a
      · subst hb
        simp [ha]
      · simp [hb]

theorem loggers_setFormatter (val : F) : (s.setFormatter l val).loggers l'
    = if l' = l then { s.loggers l with formatter := val } else s.loggers l' := by
  rw [Objects.setFormatter, loggers_foldl_follow, loggers_setLogger]

theorem appenders_setFormatter (val : F) : (s.setFormatter l val).appenders b
    = if b ∈ (s.loggers l).appenders ∧ (s.appenders b).hasFormatter = false then
        { s.appenders b with formatter := some val }
      else s.appenders b := by
  rw [Objects.setFormatter, appenders_foldl_follow, setLogger_appenders]

end

/-! ## Steps -/

section
variable {s : Objects F}

theorem inherits_of (hsome : ∀ l, ∀ a ∈ (s.loggers l).appenders, (s.appenders a).formatter ≠ none)
    (hfollows : ∀ l, ∀ a ∈ (s.loggers l).appenders, (s.appenders a).hasFormatter = false →
      (s.appenders a).formatter = some (s.loggers l).formatter) : Inherits s where
  some_formatter := hsome
  follows := hfollows
  logs l a ha level := by
    obtain ⟨f, hf⟩ := Option.ne_none_iff_exists'.mp (hsome l a ha)
    rw [Appender.log]
    split
    · rw [hf]
      exact fun h => nomatch h
    · exact fun h => nomatch h

theorem addAppender_iff (h : Inherits s) (l a : Nat) :
    Inherits (s.addAppender l a) ↔ Keeps s (.addAppender l a) := by
  constructor
  · intro h'
    by_cases hnone : (s.appenders a).formatter = none
    · exact Or.inl hnone
    · by_cases hown : (s.appenders a).hasFormatter = true
      · exact Or.inr (Or.inl hown)
      · have hmem : a ∈ ((s.addAppender l a).loggers l).appenders := by simp [loggers_addAppender]
        have hfollows := h'.follows l a hmem
        simp only [appenders_addAppender, loggers_addAppender, hnone, and_false, if_false, if_true] at hfollows
        exact Or.inr (Or.inr (hfollows (by simpa using hown)))
  · intro hkeeps
    -- An appender of some logger has a formatter, so it is not given one.
    have hgiven : ∀ l', ∀ b ∈ (s.loggers l').appenders, ¬ (b = a ∧ (s.appenders a).formatter = none) := by
      rintro l' b hb ⟨rfl, hnone⟩
      exact h.some_formatter l' b hb hnone
    have hmem : ∀ l', ∀ b ∈ ((s.addAppender l a).loggers l').appenders,
        b ∈ (s.loggers l').appenders ∨ (l' = l ∧ b = a) := by
      intro l' b hb
      rw [loggers_addAppender] at hb
      split at hb
      · next heq => simpa [heq] using hb
      · exact Or.inl hb
    have hlogger : ∀ l', ((s.addAppender l a).loggers l').formatter = (s.loggers l').formatter := by
      intro l'
      rw [loggers_addAppender]
      split
      · next heq => rw [heq]
      · rfl
    apply inherits_of
    · intro l' b hb
      rw [appenders_addAppender]
      split
      · simp
      · next hsame =>
        rcases hmem l' b hb with hb | ⟨rfl, rfl⟩
        · exact h.some_formatter l' b hb
        · exact fun hnone => hsame ⟨rfl, hnone⟩
    · intro l' b hb hinherits
      rw [hlogger]
      rw [appenders_addAppender] at hinherits ⊢
      rcases hmem l' b hb with hb | ⟨rfl, rfl⟩
      · rw [if_neg (hgiven l' b hb)] at hinherits ⊢
        exact h.follows l' b hb hinherits
      · by_cases hnone : (s.appenders b).formatter = none
        · simp [hnone]
        · simp only [hnone, and_false, if_false] at hinherits ⊢
          rcases hkeeps with hnone' | hown | hsame
          · exact absurd hnone' hnone
          · rw [hown] at hinherits
            cases hinherits
          · exact hsame

theorem setFormatter_iff (h : Inherits s) (l : Nat) (val : F) :
    Inherits (s.setFormatter l val) ↔ Keeps s (.setFormatter l val) := by
  have hmem : ∀ l', ((s.setFormatter l val).loggers l').appenders = (s.loggers l').appenders := by
    intro l'
    rw [loggers_setFormatter]
    split
    · next heq => rw [heq]
    · rfl
  constructor
  · intro h' a ha hinherits l' hne ha'
    have hfollows := h'.follows l' a (by rw [hmem]; exact ha')
    simp only [appenders_setFormatter, ha, hinherits, and_self, if_true, loggers_setFormatter, if_neg hne,
      Option.some.injEq, forall_const] at hfollows
    exact hfollows.symm
  · intro hkeeps
    apply inherits_of
    · intro l' b hb
      rw [hmem] at hb
      rw [appenders_setFormatter]
      split
      · simp
      · exact h.some_formatter l' b hb
    · intro l' b hb hinherits
      rw [hmem] at hb
      rw [appenders_setFormatter] at hinherits ⊢
      by_cases hfollow : b ∈ (s.loggers l).appenders ∧ (s.appenders b).hasFormatter = false
      · rw [if_pos hfollow, loggers_setFormatter]
        split
        · rfl
        · next hne => rw [hkeeps b hfollow.1 hfollow.2 l' hne hb]
      · rw [if_neg hfollow] at hinherits ⊢
        have hne : l' ≠ l := by
          rintro rfl
          exact hfollow ⟨hb, hinherits⟩
        rw [loggers_setFormatter, if_neg hne]
        exact h.follows l' b hb hinherits

theorem setOwn_iff (h : Inherits s) (a : Nat) (val : Option F) :
    Inherits (s.setOwn a val) ↔ Keeps s (.setOwn a val) := by
  constructor
  · intro h' hval l ha
    subst hval
    have hsome := h'.some_formatter l a ha
    simp [Objects.setOwn, appenders_setAppender] at hsome
  · intro hkeeps
    apply inherits_of
    · intro l b hb
      rw [Objects.setOwn, appenders_setAppender]
      split
      · next heq =>
        subst heq
        exact fun hnone => hkeeps hnone l hb
      · exact h.some_formatter l b hb
    · intro l b hb hinherits
      rw [Objects.setOwn, appenders_setAppender] at hinherits ⊢
      split at hinherits
      · next heq =>
        subst heq
        have hnone : val = none := by simpa using hinherits
        exact absurd hb (hkeeps hnone l)
      · next hne =>
        rw [if_neg hne]
        exact h.follows l b hb hinherits

/-- A logger that loses appenders keeps the rule for the others. -/
theorem Inherits.setLogger (h : Inherits s) (l : Nat) (L : List Nat)
    (hsub : ∀ a ∈ L, a ∈ (s.loggers l).appenders) :
    Inherits (s.setLogger l { s.loggers l with appenders := L }) := by
  apply inherits_of
  · intro l' b hb
    rw [loggers_setLogger] at hb
    split at hb
    · next heq => exact h.some_formatter l b (hsub b hb)
    · exact h.some_formatter l' b hb
  · intro l' b hb hinherits
    rw [loggers_setLogger] at hb ⊢
    split at hb
    · next heq =>
      rw [if_pos heq]
      exact h.follows l b (hsub b hb) hinherits
    · next hne =>
      rw [if_neg hne]
      exact h.follows l' b hb hinherits

/-- One call keeps the rule if and only if it finds what it must. -/
theorem step_inherits_iff (h : Inherits s) (op : FormatterOp F) : Inherits (s.step op) ↔ Keeps s op := by
  cases op with
  | addAppender l a => exact addAppender_iff h l a
  | delAppender l a =>
    exact iff_of_true (h.setLogger l _ (fun b hb => List.mem_of_mem_erase hb)) trivial
  | clearAppenders l => exact iff_of_true (h.setLogger l [] (fun b hb => nomatch hb)) trivial
  | setFormatter l val => exact setFormatter_iff h l val
  | setPattern l val new =>
    simp only [Objects.step, Objects.setPattern, Keeps]
    split
    · next haccepts => simpa [haccepts, Keeps] using setFormatter_iff h l new
    · next hrejects => exact iff_of_true h (fun haccepts => absurd haccepts hrejects)
  | setOwn a val => exact setOwn_iff h a val

end

/-! ## Runs -/

theorem Fresh.inherits {s : Objects F} (h : Fresh s) : Inherits s := by
  apply inherits_of
  · intro l a ha
    rw [h.empty] at ha
    cases ha
  · intro l a ha
    rw [h.empty] at ha
    cases ha

theorem run_take_succ (s : Objects F) (ops : List (FormatterOp F)) {n : Nat} {op : FormatterOp F}
    (hop : ops[n]? = some op) : s.run (ops.take (n + 1)) = (s.run (ops.take n)).step op := by
  rw [List.take_add_one, hop]
  simp [Objects.run]

/-- From fresh loggers and appenders, the rule holds in every state of a run if and only if every
call of it finds what it must. -/
theorem inherits_iff (s : Objects F) (hfresh : Fresh s) (ops : List (FormatterOp F)) :
    (∀ n, Inherits (s.run (ops.take n))) ↔ ∀ n op, ops[n]? = some op → Keeps (s.run (ops.take n)) op := by
  constructor
  · intro h n op hop
    have hnext := h (n + 1)
    rw [run_take_succ s ops hop] at hnext
    exact (step_inherits_iff (h n) op).mp hnext
  · intro hkeeps n
    induction n with
    | zero => exact hfresh.inherits
    | succ n ih =>
      cases hop : ops[n]? with
      | none =>
        have hlen : ops.length ≤ n := List.getElem?_eq_none_iff.mp hop
        rw [List.take_of_length_le hlen] at ih
        rw [List.take_of_length_le (by omega)]
        exact ih
      | some op =>
        rw [run_take_succ s ops hop]
        exact (step_inherits_iff ih op).mpr (hkeeps n op hop)

end

/-! ## One logger for each appender -/

section
variable {F : Type} (pattern : F → Text)

def Appender.view (a : Appender F) : LogAppender :=
  { target := a.target, level := a.level, hasFormatter := a.hasFormatter, formatter := a.formatter.map pattern }

/-- A logger with its appenders in it. -/
def Objects.view (s : Objects F) (l : Nat) : Logger where
  name := (s.loggers l).name
  level := (s.loggers l).level
  formatter := pattern (s.loggers l).formatter
  appenders := (s.loggers l).appenders.map fun a => (s.appenders a).view pattern

theorem view_addAppender (s : Objects F) (l a : Nat)
    (hnew : (s.appenders a).formatter = none → a ∉ (s.loggers l).appenders) :
    (s.addAppender l a).view pattern l = (s.view pattern l).addAppender ((s.appenders a).view pattern) := by
  have hothers : ∀ b ∈ (s.loggers l).appenders, (s.addAppender l a).appenders b = s.appenders b := by
    intro b hb
    rw [appenders_addAppender, if_neg]
    rintro ⟨rfl, hnone⟩
    exact hnew hnone hb
  have hlast : ((s.addAppender l a).appenders a).view pattern
      = if (((s.appenders a).view pattern).formatter).isNone then
          { (s.appenders a).view pattern with formatter := some (pattern (s.loggers l).formatter) }
        else (s.appenders a).view pattern := by
    rw [appenders_addAppender]
    cases hformatter : (s.appenders a).formatter with
    | none => simp [Appender.view, hformatter]
    | some f => simp [Appender.view, hformatter]
  simp only [Objects.view, Logger.addAppender, loggers_addAppender, if_true, List.map_append, List.map_singleton,
    hlast]
  congr 2
  apply List.map_congr_left
  intro b hb
  rw [hothers b hb]

theorem view_setFormatter (s : Objects F) (l : Nat) (val : Text) (new : F) (hpattern : pattern new = val) :
    (s.setPattern l val new).view pattern l = (s.view pattern l).setFormatter val := by
  rw [Objects.setPattern, Logger.setFormatter]
  by_cases haccepts : LogFormatter.accepts val = true
  · rw [if_pos haccepts, if_pos haccepts]
    simp only [Objects.view, loggers_setFormatter, if_true, hpattern, List.map_map]
    congr 1
    apply List.map_congr_left
    intro b hb
    rw [appenders_setFormatter]
    cases hown : (s.appenders b).hasFormatter with
    | false => simp [Appender.view, hb, hown, hpattern]
    | true => simp [Appender.view, hown]
  · rw [if_neg haccepts, if_neg haccepts]

end

/-! ## Two runs -/

/-- Two loggers with the formatters 0 and 1, and appenders to the standard output. -/
def twoLoggers : Objects Nat where
  loggers := fun l => ⟨text "root", .DEBUG, l, []⟩
  appenders := fun _ => ⟨.stdout, .DEBUG, false, none⟩

theorem twoLoggers_fresh : Fresh twoLoggers := ⟨fun _ => rfl, fun _ => ⟨rfl, rfl⟩⟩

/-- An appender gets a formatter of its own while it moves from one logger to the other. -/
def movedWithOwn : List (FormatterOp Nat) :=
  [.addAppender 0 0, .setOwn 0 (some 9), .delAppender 0 0, .addAppender 1 0, .setFormatter 1 7]

theorem inherits_movedWithOwn :
    Fresh twoLoggers ∧ ∀ n, Inherits (twoLoggers.run (movedWithOwn.take n)) := by
  refine ⟨twoLoggers_fresh, (inherits_iff twoLoggers twoLoggers_fresh movedWithOwn).mpr ?_⟩
  intro n op hop
  match n, hop with
  | 0, hop => cases hop; exact Or.inl rfl
  | 1, hop => cases hop; exact fun h => nomatch h
  | 2, hop => cases hop; trivial
  | 3, hop => cases hop; exact Or.inr (Or.inl rfl)
  | 4, hop =>
    cases hop
    intro a ha hinherits
    have hmem : a ∈ [0] := ha
    rw [List.mem_singleton] at hmem
    subst hmem
    have hown : true = false := hinherits
    cases hown
  | n + 5, hop => cases hop

/-- An appender of a logger loses its formatter and the next event is formatted through a null
pointer; an appender that moves without a formatter of its own keeps its former logger's. -/
theorem formatter_lost :
    (¬ ∀ n, Inherits (twoLoggers.run (([.addAppender 0 0, .setOwn 0 none] : List (FormatterOp Nat)).take n))) ∧
      ¬ ∀ n, Inherits (twoLoggers.run
        (([.addAppender 0 0, .delAppender 0 0, .addAppender 1 0] : List (FormatterOp Nat)).take n)) := by
  constructor
  · intro h
    exact (h 2).logs 0 0 (by decide) .ERROR rfl
  · intro h
    have hfollows := (h 3).follows 1 0 (by decide) rfl
    revert hfollows
    decide

end Sylar.Log
