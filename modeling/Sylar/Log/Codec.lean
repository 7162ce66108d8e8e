import Sylar.Config.Yaml
import Sylar.Log.Define

/- `LexicalCast` between `LogDefine` and `std::string` of `sylar/log.cc`.

   The encoder writes a tree and streams it, the decoder loads a text and reads the tree.
   What yaml-cpp does between the two is a parameter; of it only that a tree comes back
   as it was written is used, and only for the tree at hand.

   The two list the fields apart from each other. The encoder writes the level of an
   appender and the decoder does not read it, so an appender comes back with `UNKNOW`:
   `log_define_round_trip_iff` says that this is the only loss.

   Correspondence (C++ ↔ Lean):
     `LogLevel::ToString`, `FromString`        ↔ `Level.string`, `Level.fromString`
     `n[key]`, `IsDefined()`, `as<string>()`   ↔ `sub`, `stringAt`, `asString`
     `n[key] = v`, `n[key].push_back(v)`       ↔ `Entries.put`, `Entries.pushBack`
     `LexicalCast<LogDefine, std::string>`     ↔ `LogDefine.toNode`, then `emit`
     `LexicalCast<std::string, LogDefine>`     ↔ `load`, then `LogDefine.ofNode` -/
namespace Sylar.Log

open Sylar.Config (Node Entries)

/-! ## Levels -/

/-- `LogLevel::ToString`. -/
def Level.string : Level → Text
  | .DEBUG => text "DEBUG"
  | .INFO => text "INFO"
  | .WARN => text "WARN"
  | .ERROR => text "ERROR"
  | .FATAL => text "FATAL"
  | .UNKNOW => text "UNKNOW"

/-- `LogLevel::FromString`. -/
def Level.fromString (str : Text) : Level :=
  if str = text "debug" then .DEBUG
  else if str = text "info" then .INFO
  else if str = text "warn" then .WARN
  else if str = text "error" then .ERROR
  else if str = text "fatal" then .FATAL
  else if str = text "DEBUG" then .DEBUG
  else if str = text "INFO" then .INFO
  else if str = text "WARN" then .WARN
  else if str = text "ERROR" then .ERROR
  else if str = text "FATAL" then .FATAL
  else .UNKNOW

theorem fromString_string (l : Level) : Level.fromString l.string = l := by
  cases l <;> decide

/-! ## Trees -/

/-- What the casts throw. -/
inductive CastError where
  /-- `std::logic_error("log config name is null")`. -/
  | nameIsNull
  /-- `YAML::BadSubscript`: a key looked up in a scalar. -/
  | badSubscript
  /-- `YAML::TypedBadConversion`: a string asked of what is no scalar. -/
  | badConversion
  /-- `YAML::ParserException`. -/
  | parser
  deriving DecidableEq, Repr

/-- The value under a key. -/
def find (key : Text) : Entries → Option Node
  | .nil => none
  | .cons k v rest => if k = key then some v else find key rest

/-- `n[key] = v`: the old value replaced, or a pair appended. -/
def put (key : Text) (v : Node) : Entries → Entries
  | .nil => .cons key v .nil
  | .cons k w rest => if k = key then .cons k v rest else .cons k w (put key v rest)

/-- `n[key].push_back(v)`: a key that was not there becomes a sequence. -/
def pushBack (key : Text) (v : Node) (n : Entries) : Entries :=
  match find key n with
  | some (.sequence items) => put key (.sequence (items ++ [v])) n
  | _ => put key (.sequence [v]) n

theorem find_put (key : Text) (v : Node) (k : Text) (n : Entries) :
    find k (put key v n) = if k = key then some v else find k n := by
  cases n with
  | nil => simp only [put, find, eq_comm]
  | cons k' w rest =>
    have ih := find_put key v k rest
    by_cases hk : k' = key
    · subst hk
      simp only [put, if_true, find]
      by_cases hkk : k' = k
      · simp [hkk]
      · simp [hkk, Ne.symm hkk]
    · simp only [put, if_neg hk, find, ih]
      by_cases hkk : k' = k
      · subst hkk
        simp [hk]
      · simp [hkk]

/-- `n[key]`, where it is defined. -/
def sub (n : Node) (key : Text) : Except CastError (Option Node) :=
  match n with
  | .scalar _ => .error .badSubscript
  | .sequence _ => .ok none
  | .map entries => .ok (find key entries)

/-- `as<std::string>()`. -/
def asString : Node → Except CastError Text
  | .scalar s => .ok s
  | _ => .error .badConversion

/-- `n[key].as<std::string>()`, where it is defined. -/
def stringAt (n : Node) (key : Text) : Except CastError (Option Text) := do
  match ← sub n key with
  | none => return none
  | some v => return some (← asString v)

/-- `n[x]` for `x` below `n.size()`. A map has its items under the keys `0`, `1`, ..., which
nothing writes. -/
def items : Node → List Node
  | .sequence items => items
  | _ => []

/-! ## The two casts -/

/-- The pairs of `na` after one turn of the encoder's loop. -/
def LogAppenderDefine.entries (a : LogAppenderDefine) : Entries :=
  let na :=
    if a.type = 1 then put (text "file") (.scalar a.file) (put (text "type") (.scalar (text "FileLogAppender")) .nil)
    else if a.type = 2 then put (text "type") (.scalar (text "StdoutLogAppender")) .nil
    else .nil
  let na := if a.level ≠ .UNKNOW then put (text "level") (.scalar a.level.string) na else na
  if a.formatter ≠ [] then put (text "formatter") (.scalar a.formatter) na else na

/-- The pairs of `n` before the encoder's loop. -/
def LogDefine.entries (i : LogDefine) : Entries :=
  let n := put (text "name") (.scalar i.name) .nil
  let n := if i.level ≠ .UNKNOW then put (text "level") (.scalar i.level.string) n else n
  if i.formatter ≠ [] then put (text "formatter") (.scalar i.formatter) n else n

def LogDefine.toNode (i : LogDefine) : Node :=
  .map (i.appenders.foldl (fun n a => pushBack (text "appenders") (.map a.entries) n) i.entries)

/-- One turn of the decoder's loop; `none` is a `continue`. `lad.level` is not assigned. -/
def LogAppenderDefine.ofNode (a : Node) : Except CastError (Option LogAppenderDefine) := do
  match ← stringAt a (text "type") with
  | none => return none
  | some type =>
    if type = text "FileLogAppender" then
      match ← stringAt a (text "file") with
      | none => return none
      | some file =>
        let formatter := (← stringAt a (text "formatter")).getD []
        return some { type := 1, level := .UNKNOW, formatter := formatter, file := file }
    else if type = text "StdoutLogAppender" then
      let formatter := (← stringAt a (text "formatter")).getD []
      return some { type := 2, level := .UNKNOW, formatter := formatter, file := [] }
    else return none

/-- The decoder's loop. -/
def appendersOf : List Node → Except CastError (List LogAppenderDefine)
  | [] => .ok []
  | a :: rest => do
    let lad ← LogAppenderDefine.ofNode a
    let lads ← appendersOf rest
    return lad.toList ++ lads

def LogDefine.ofNode (n : Node) : Except CastError LogDefine := do
  match ← stringAt n (text "name") with
  | none => throw .nameIsNull
  | some name =>
    let level := Level.fromString ((← stringAt n (text "level")).getD [])
    let formatter := (← stringAt n (text "formatter")).getD []
    match ← sub n (text "appenders") with
    | none => return { name := name, level := level, formatter := formatter, appenders := [] }
    | some appenders =>
      return { name := name, level := level, formatter := formatter, appenders := ← appendersOf (items appenders) }

section
variable (emit : Node → Text) (load : Text → Except CastError Node)

/-- `LexicalCast<LogDefine, std::string>`. -/
def encode (d : LogDefine) : Text := emit d.toNode

/-- `LexicalCast<std::string, LogDefine>`. -/
def decode (v : Text) : Except CastError LogDefine := load v >>= LogDefine.ofNode

end

/-! ## Round trip -/

/-- The appenders the casts are for: a file, or the standard output without one. -/
def LogAppenderDefine.Known (a : LogAppenderDefine) : Prop := a.type = 1 ∨ (a.type = 2 ∧ a.file = [])

theorem stringAt_none {n : Entries} {key : Text} (h : find key n = none) : stringAt (.map n) key = .ok none := by
  simp only [stringAt, sub, h]
  rfl

theorem stringAt_scalar {n : Entries} {key s : Text} (h : find key n = some (.scalar s)) :
    stringAt (.map n) key = .ok (some s) := by
  simp only [stringAt, sub, h]
  rfl

/-- A text that is written only where it is not empty reads back as it was. -/
theorem stringAt_optional {n : Entries} {key s : Text}
    (h : find key n = if s ≠ [] then some (.scalar s) else none) :
    ∃ o, stringAt (.map n) key = .ok o ∧ o.getD [] = s := by
  by_cases hs : s = []
  · refine ⟨none, stringAt_none ?_, ?_⟩
    · simpa [hs] using h
    · simp [hs]
  · refine ⟨some s, stringAt_scalar ?_, rfl⟩
    simpa [hs] using h

/-- An appender comes back without its level. -/
theorem ofNode_entries (a : LogAppenderDefine) (ha : a.Known) :
    LogAppenderDefine.ofNode (.map a.entries) = .ok (some { a with level := .UNKNOW }) := by
  obtain ⟨type, level, formatter, file⟩ := a
  have hformatter : find (text "formatter") (LogAppenderDefine.entries ⟨type, level, formatter, file⟩)
      = if formatter ≠ [] then some (.scalar formatter) else none := by
    simp +decide [LogAppenderDefine.entries, find_put, find, apply_ite (find _)]
  obtain ⟨o, ho, hback⟩ := stringAt_optional hformatter
  rcases ha with htype | ⟨htype, hfile⟩
  · simp only at htype
    subst htype
    have htype : stringAt (.map (LogAppenderDefine.entries ⟨1, level, formatter, file⟩)) (text "type")
        = .ok (some (text "FileLogAppender")) := by
      apply stringAt_scalar
      simp +decide [LogAppenderDefine.entries, find_put, apply_ite (find _)]
    have hfile : stringAt (.map (LogAppenderDefine.entries ⟨1, level, formatter, file⟩)) (text "file")
        = .ok (some file) := by
      apply stringAt_scalar
      simp +decide [LogAppenderDefine.entries, find_put, apply_ite (find _)]
    simp only [LogAppenderDefine.ofNode, htype, hfile, ho, hback, bind, Except.bind, pure, Except.pure, if_true]
  · simp only at htype hfile
    subst htype hfile
    have htype : stringAt (.map (LogAppenderDefine.entries ⟨2, level, formatter, []⟩)) (text "type")
        = .ok (some (text "StdoutLogAppender")) := by
      apply stringAt_scalar
      simp +decide [LogAppenderDefine.entries, find_put, apply_ite (find _)]
    have hne : text "StdoutLogAppender" ≠ text "FileLogAppender" := by decide
    simp only [LogAppenderDefine.ofNode, htype, ho, hback, bind, Except.bind, pure, Except.pure, if_neg hne, if_true]

theorem appendersOf_entries : ∀ l : List LogAppenderDefine, (∀ a ∈ l, a.Known) →
    appendersOf (l.map fun a => .map a.entries) = .ok (l.map fun a => { a with level := .UNKNOW })
  | [], _ => rfl
  | a :: rest, h => by
    have ha := ofNode_entries a (h a List.mem_cons_self)
    have hrest := appendersOf_entries rest (fun b hb => h b (List.mem_cons_of_mem a hb))
    simp only [List.map_cons, appendersOf, ha, hrest, bind, Except.bind, pure, Except.pure, Option.toList_some,
      List.singleton_append]

/-- The sequence under a key. -/
def sequenceAt (key : Text) (n : Entries) : List Node := ((find key n).map items).getD []

theorem find_pushBack (key : Text) (v : Node) (k : Text) (n : Entries) :
    find k (pushBack key v n) = if k = key then some (.sequence (sequenceAt key n ++ [v])) else find k n := by
  unfold pushBack sequenceAt
  split
  · next l hfind => rw [find_put, hfind]; rfl
  · next hother =>
    rw [find_put]
    cases hfind : find key n with
    | none => rfl
    | some w =>
      cases w with
      | scalar s => rfl
      | sequence l => exact absurd hfind (hother l)
      | map e => rfl

/-- The loop adds a sequence under its key and nothing else. -/
theorem find_pushAll (key : Text) : ∀ (l : List Node) (n : Entries),
    (∀ k, k ≠ key → find k (l.foldl (fun n v => pushBack key v n) n) = find k n) ∧
      sequenceAt key (l.foldl (fun n v => pushBack key v n) n) = sequenceAt key n ++ l := by
  intro l
  induction l with
  | nil => intro n; simp
  | cons v rest ih =>
    intro n
    have hat : sequenceAt key (pushBack key v n) = sequenceAt key n ++ [v] := by
      rw [sequenceAt, find_pushBack, if_pos rfl]
      rfl
    obtain ⟨hothers, hseq⟩ := ih (pushBack key v n)
    rw [List.foldl_cons]
    refine ⟨?_, ?_⟩
    · intro k hk
      rw [hothers k hk, find_pushBack, if_neg hk]
    · rw [hseq, hat, List.append_assoc, List.singleton_append]

/-- A definition comes back with its appenders' levels lost. -/
theorem ofNode_toNode (d : LogDefine) (hknown : ∀ a ∈ d.appenders, a.Known) :
    LogDefine.ofNode d.toNode
      = .ok { d with appenders := d.appenders.map fun a => { a with level := .UNKNOW } } := by
  obtain ⟨name, level, formatter, appenders⟩ := d
  obtain ⟨hothers, hseq⟩ := find_pushAll (text "appenders") (appenders.map fun a => .map a.entries)
    (LogDefine.entries ⟨name, level, formatter, appenders⟩)
  rw [List.foldl_map] at hothers hseq
  rw [LogDefine.toNode]
  -- The tree by what is found in it.
  generalize appenders.foldl (fun n a => pushBack (text "appenders") (.map a.entries) n)
    (LogDefine.entries ⟨name, level, formatter, appenders⟩) = n at hothers hseq ⊢
  have hname : stringAt (.map n) (text "name") = .ok (some name) := by
    apply stringAt_scalar
    rw [hothers _ (by decide)]
    simp +decide [LogDefine.entries, find_put, apply_ite (find _)]
  have hlevel : ∃ o, stringAt (.map n) (text "level") = .ok o ∧ Level.fromString (o.getD []) = level := by
    have hfind : find (text "level") n = if level ≠ .UNKNOW then some (.scalar level.string) else none := by
      rw [hothers _ (by decide)]
      simp +decide [LogDefine.entries, find_put, find, apply_ite (find _)]
    by_cases hunknow : level = .UNKNOW
    · rw [if_neg (by simpa using hunknow)] at hfind
      exact ⟨none, stringAt_none hfind, by rw [hunknow]; decide⟩
    · rw [if_pos hunknow] at hfind
      exact ⟨some level.string, stringAt_scalar hfind, fromString_string level⟩
  have hformatter : find (text "formatter") n = if formatter ≠ [] then some (.scalar formatter) else none := by
    rw [hothers _ (by decide)]
    simp +decide [LogDefine.entries, find_put, find, apply_ite (find _)]
  have hempty : sequenceAt (text "appenders") (LogDefine.entries ⟨name, level, formatter, appenders⟩) = [] := by
    simp +decide [sequenceAt, LogDefine.entries, find_put, find, apply_ite (find _)]
  rw [hempty, List.nil_append] at hseq
  obtain ⟨o₁, hread₁, hback₁⟩ := hlevel
  obtain ⟨o₂, hread₂, hback₂⟩ := stringAt_optional hformatter
  have happenders := appendersOf_entries appenders hknown
  simp only [LogDefine.ofNode, hname, hread₁, hback₁, hread₂, hback₂, sub, bind, Except.bind, pure, Except.pure]
  cases hfind : find (text "appenders") n with
  | none =>
    rw [sequenceAt, hfind] at hseq
    have hnil : appenders = [] := by simpa using hseq.symm
    simp [hnil]
  | some w =>
    rw [sequenceAt, hfind] at hseq
    simp only [Option.map_some, Option.getD_some] at hseq
    simp only [hseq, happenders]

section
variable {emit : Node → Text} {load : Text → Except CastError Node}

/-- A definition whose tree yaml-cpp loads back comes back as it was if and only if no appender
has a level. -/
theorem log_define_round_trip_iff (d : LogDefine) (hknown : ∀ a ∈ d.appenders, a.Known)
    (hyaml : load (emit d.toNode) = .ok d.toNode) :
    decode load (encode emit d) = .ok d ↔ ∀ a ∈ d.appenders, a.level = .UNKNOW := by
  have hdecode : decode load (encode emit d)
      = .ok { d with appenders := d.appenders.map fun a => { a with level := .UNKNOW } } := by
    rw [decode, encode, hyaml]
    exact ofNode_toNode d hknown
  rw [hdecode]
  obtain ⟨name, level, formatter, appenders⟩ := d
  simp only [Except.ok.injEq, LogDefine.mk.injEq, true_and]
  constructor
  · intro heq a ha
    have hmap : appenders.map (fun a => { a with level := Level.UNKNOW }) = appenders.map id := by simpa using heq
    have hsame := (List.map_inj_left.mp hmap) a ha
    rw [id_eq] at hsame
    rw [← hsame]
  · intro hall
    have hmap : appenders.map (fun a => { a with level := Level.UNKNOW }) = appenders.map id := by
      apply List.map_congr_left
      intro a ha
      rw [id_eq, ← hall a ha]
    simpa using hmap

end

/-- A logger with a file and the standard output, no level on either, and the text of its tree. -/
def plainDefine : LogDefine where
  name := text "system"
  level := .INFO
  formatter := text "%d%m%n"
  appenders := [⟨1, .UNKNOW, [], text "system.log"⟩, ⟨2, .UNKNOW, text "%m%n", []⟩]

def plainText : Text :=
  text "name: system\nlevel: INFO\nformatter: \"%d%m%n\"\nappenders:\n" ++
    text "  - type: FileLogAppender\n    file: system.log\n" ++
    text "  - type: StdoutLogAppender\n    formatter: \"%m%n\""

theorem plainDefine_round_trip :
    decode (fun _ => .ok plainDefine.toNode) (encode (fun _ => plainText) plainDefine) = .ok plainDefine := by
  apply (log_define_round_trip_iff plainDefine _ rfl).mpr
  · decide
  · intro a ha
    simp only [plainDefine, List.mem_cons, List.not_mem_nil, or_false] at ha
    rcases ha with rfl | rfl
    · exact Or.inl rfl
    · exact Or.inr ⟨rfl, rfl⟩

/-- A logger whose one appender is for errors, and the text of its tree. -/
def errorDefine : LogDefine where
  name := text "system"
  level := .INFO
  formatter := []
  appenders := [⟨2, .ERROR, [], []⟩]

def errorText : Text := text "name: system\nlevel: INFO\nappenders:\n  - type: StdoutLogAppender\n    level: ERROR"

theorem errorDefine_level_lost :
    decode (fun _ => .ok errorDefine.toNode) (encode (fun _ => errorText) errorDefine) ≠ .ok errorDefine := by
  have hknown : ∀ a ∈ errorDefine.appenders, a.Known := by
    intro a ha
    rw [errorDefine, List.mem_singleton] at ha
    subst ha
    exact Or.inr ⟨rfl, rfl⟩
  have hback : decode (fun _ => .ok errorDefine.toNode) (encode (fun _ => errorText) errorDefine)
      = .ok { errorDefine with appenders := [⟨2, .UNKNOW, [], []⟩] } := ofNode_toNode errorDefine hknown
  rw [hback]
  decide

end Sylar.Log
