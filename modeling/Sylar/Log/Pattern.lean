import Mathlib.Data.List.Basic
import Mathlib.Data.List.GetD
import Sylar.Log.Basic

/- `LogFormatter::init` with its index.

   `initLoop` is the loop of the source, which reads `m_pattern` by position and may read
   at the terminator. `initIndexed_eq` says that it computes what the scan of `Log.Basic`,
   one character at a time, computes; where the scan ends behind `%d`, the loop reads
   behind the string. -/
namespace Sylar.Log

/-! ## The loop -/

/-- `DateTimeFormatItem::m_format` by default. -/
def defaultDateFormat : Text := text "%Y-%m-%d %H:%M:%S"

/-- `DateTimeFormatItem(format)`. -/
def dateTimeFormatItem (format : Text) : FormatItem :=
  .dateTime (if format = [] then defaultDateFormat else format)

/-- An entry of `patterns` in the second pass. -/
def Piece.made (dateformat : Text) : Piece → Option FormatItem
  | .literal s => some (.string s)
  | .letter c => if c = 0x64 then some (dateTimeFormatItem dateformat) else formatItem c

structure Parse where
  patterns : List Piece
  tmp : Text
  dateformat : Text
  parsing_string : Bool
  i : Nat
  deriving DecidableEq, Repr

def Parse.start : Parse where
  patterns := []
  tmp := []
  dateformat := []
  parsing_string := true
  i := 0

section
variable (m_pattern : Text)

/-- `m_pattern[i]`, which is defined up to the terminator. -/
def charAt (i : Nat) : Option UInt8 :=
  if i < m_pattern.length then m_pattern[i]? else if i = m_pattern.length then some 0 else none

/-- The loop between the braces: where it ends, and the date format. -/
def dateLoop (i : Nat) (dateformat : Text) : Nat × Text :=
  if i < m_pattern.length ∧ m_pattern.getD i 0 ≠ 0x7d then
    dateLoop (i + 1) (dateformat ++ [m_pattern.getD i 0])
  else (i, dateformat)
termination_by m_pattern.length - i

theorem le_dateLoop (i : Nat) (dateformat : Text) : i ≤ (dateLoop m_pattern i dateformat).1 := by
  fun_induction dateLoop m_pattern i dateformat with
  | case1 i dateformat _ ih => omega
  | case2 i dateformat _ => exact Nat.le_refl i

/-- `if (!tmp.empty()) patterns.push_back(..)`. -/
def Parse.flushed (s : Parse) : List Piece :=
  if s.tmp = [] then s.patterns else s.patterns ++ [.literal s.tmp]

/-- The loop of `LogFormatter::init`, with the outcome where it ends early. -/
def initLoop (s : Parse) : Except LogFormatter.Init Parse :=
  if h : s.i < m_pattern.length then
    let c := m_pattern[s.i]
    if c = 0x25 then
      if s.parsing_string then
        initLoop { s with patterns := s.flushed, tmp := [], parsing_string := false, i := s.i + 1 }
      else
        initLoop { s with patterns := s.patterns ++ [.letter c], parsing_string := true, i := s.i + 1 }
    else if s.parsing_string then initLoop { s with tmp := s.tmp ++ [c], i := s.i + 1 }
    else
      let patterns := s.patterns ++ [.letter c]
      if c ≠ 0x64 then initLoop { s with patterns := patterns, parsing_string := true, i := s.i + 1 }
      else
        let i := s.i + 1
        if i < m_pattern.length ∧ m_pattern.getD i 0 ≠ 0x7b then
          initLoop { s with patterns := patterns, parsing_string := true, i := i }
        else
          -- also where the pattern ends behind `%d`
          let i := i + 1
          let date := dateLoop m_pattern i s.dateformat
          match charAt m_pattern date.1 with
          | none => .error .beyond
          | some close =>
            if close ≠ 0x7d then .error .error
            else
              initLoop { s with
                patterns := patterns, parsing_string := true, dateformat := date.2, i := date.1 + 1 }
  else .ok s
termination_by m_pattern.length - s.i
decreasing_by
  · omega
  · omega
  · omega
  · omega
  · omega
  · have := le_dateLoop m_pattern (s.i + 1 + 1) s.dateformat
    omega

/-- `LogFormatter::init`. -/
def LogFormatter.initIndexed : LogFormatter.Init :=
  match initLoop m_pattern Parse.start with
  | .error outcome => outcome
  | .ok s =>
    match s.flushed.mapM (Piece.made s.dateformat) with
    | some items => .ok items
    | none => .error

end

/-! ## The loop and the scan -/

/-- The scan at the head of the loop. -/
def Parse.scan (s : Parse) : Scan where
  patterns := s.patterns
  tmp := s.tmp
  dateformat := s.dateformat
  place := if s.parsing_string then .literal else .letter

/-- What the end of the scan comes to: the entries and the date format. -/
def Scan.outcome (s : Scan) : Except LogFormatter.Init (List Piece × Text) :=
  match s.place with
  | .braces => .error .error
  | .date => .error .beyond
  | _ => .ok (s.flush.patterns, s.dateformat)

section
variable {m_pattern : Text}

theorem dateLoop_scan (patterns : List Piece) (tmp : Text) (i : Nat) (dateformat : Text) (hi : i ≤ m_pattern.length) :
    let date := dateLoop m_pattern i dateformat
    let scanned := (m_pattern.drop i).foldl Scan.step ⟨patterns, tmp, dateformat, .braces⟩
    (date.1 < m_pattern.length ∧ m_pattern[date.1]? = some 0x7d ∧
      scanned = (m_pattern.drop (date.1 + 1)).foldl Scan.step ⟨patterns, tmp, date.2, .literal⟩) ∨
    (date.1 = m_pattern.length ∧ scanned.place = .braces) := by
  fun_induction dateLoop m_pattern i dateformat with
  | case1 i dateformat h ih =>
    obtain ⟨hlt, hopen⟩ := h
    rw [List.getD_eq_getElem _ _ hlt] at hopen ih
    rw [List.drop_eq_getElem_cons hlt, List.foldl_cons, List.getD_eq_getElem _ _ hlt]
    have hstep : Scan.step ⟨patterns, tmp, dateformat, .braces⟩ m_pattern[i] =
        ⟨patterns, tmp, dateformat ++ [m_pattern[i]], .braces⟩ := by
      simp [Scan.step, hopen]
    rw [hstep]
    exact ih hlt
  | case2 i dateformat h =>
    by_cases hlt : i < m_pattern.length
    · left
      have hclose : m_pattern[i] = 0x7d := by
        by_contra hne
        exact h ⟨hlt, by rwa [List.getD_eq_getElem _ _ hlt]⟩
      refine ⟨hlt, by rw [List.getElem?_eq_getElem hlt, hclose], ?_⟩
      rw [List.drop_eq_getElem_cons hlt, List.foldl_cons, hclose]
      rfl
    · right
      have heq : i = m_pattern.length := by omega
      refine ⟨heq, ?_⟩
      rw [heq, List.drop_length]
      rfl

/-- Behind `%d`, unless a character that is no brace follows. -/
theorem date_scan (patterns : List Piece) (tmp dateformat : Text) {i : Nat} (hi : i ≤ m_pattern.length)
    (hbrace : ¬ (i < m_pattern.length ∧ m_pattern.getD i 0 ≠ 0x7b)) {date : Nat × Text}
    (hdate : dateLoop m_pattern (i + 1) dateformat = date) {scanned : Scan}
    (hscanned : (m_pattern.drop i).foldl Scan.step ⟨patterns, tmp, dateformat, .date⟩ = scanned) :
    (charAt m_pattern date.1 = none ∧ scanned.place = .date) ∨
    (charAt m_pattern date.1 = some 0 ∧ scanned.place = .braces) ∨
    (charAt m_pattern date.1 = some 0x7d ∧
      scanned = (m_pattern.drop (date.1 + 1)).foldl Scan.step ⟨patterns, tmp, date.2, .literal⟩) := by
  by_cases hlt : i < m_pattern.length
  · have hopen : m_pattern[i] = 0x7b := by
      by_contra hne
      exact hbrace ⟨hlt, by rwa [List.getD_eq_getElem _ _ hlt]⟩
    rw [List.drop_eq_getElem_cons hlt, List.foldl_cons, hopen] at hscanned
    have hloop := dateLoop_scan patterns tmp (i + 1) dateformat hlt
    rw [hdate] at hloop
    rcases hloop with ⟨hin, hclose, heq⟩ | ⟨hend, hplace⟩
    · refine Or.inr (Or.inr ⟨?_, hscanned.symm.trans heq⟩)
      rw [charAt, if_pos hin, hclose]
    · refine Or.inr (Or.inl ⟨?_, hscanned ▸ hplace⟩)
      rw [charAt, if_neg (by omega), if_pos hend]
  · -- the pattern ends here, and the loop looks behind its terminator
    rw [dateLoop, if_neg (by omega)] at hdate
    rw [List.drop_eq_nil_of_le (by omega)] at hscanned
    refine Or.inl ⟨?_, hscanned ▸ rfl⟩
    rw [← hdate, charAt, if_neg (by omega), if_neg (by omega)]

/-- Behind `%d`, a character that is no brace is read as literal text. -/
theorem scan_date_of_ne {c : UInt8} (hc : c ≠ 0x7b) (patterns : List Piece) (tmp dateformat : Text) :
    Scan.step ⟨patterns, tmp, dateformat, .date⟩ c = Scan.step ⟨patterns, tmp, dateformat, .literal⟩ c := by
  simp [Scan.step, hc, Scan.literal, Scan.flush]

/-- The scan of `%d`. -/
theorem scan_letter_date {s : Parse} (h : s.i < m_pattern.length) (hletter : ¬ s.parsing_string = true)
    (hd : ¬ m_pattern[s.i] ≠ 0x64) :
    (m_pattern.drop s.i).foldl Scan.step s.scan =
      (m_pattern.drop (s.i + 1)).foldl Scan.step
        ⟨s.patterns ++ [.letter m_pattern[s.i]], s.tmp, s.dateformat, .date⟩ := by
  rw [List.drop_eq_getElem_cons h, List.foldl_cons]
  simp [Parse.scan, Scan.step, hletter, not_not.mp hd]

/-- The loop computes what the scan of the rest of the pattern does. -/
theorem initLoop_scan (s : Parse) :
    (initLoop m_pattern s).map (fun s => (s.flushed, s.dateformat)) =
      ((m_pattern.drop s.i).foldl Scan.step s.scan).outcome := by
  fun_induction initLoop m_pattern s with
  | case1 s h c hc hstring ih =>
    rw [ih, List.drop_eq_getElem_cons h, List.foldl_cons]
    simp [Parse.scan, Scan.step, Scan.literal, Scan.flush, hstring, c, hc, Parse.flushed]
  | case2 s h c hc hletter ih =>
    rw [ih, List.drop_eq_getElem_cons h, List.foldl_cons]
    simp [Parse.scan, Scan.step, hletter, c, hc]
  | case3 s h c hc hstring ih =>
    rw [ih, List.drop_eq_getElem_cons h, List.foldl_cons]
    simp [Parse.scan, Scan.step, Scan.literal, hstring, c, hc]
  | case4 s h c hc hletter patterns hd ih =>
    rw [ih, List.drop_eq_getElem_cons h, List.foldl_cons]
    simp [Parse.scan, Scan.step, hletter, hd, patterns, c]
  | case5 s h c hc hletter patterns hd i hbrace ih =>
    obtain ⟨hlt, hne⟩ := hbrace
    rw [List.getD_eq_getElem _ _ hlt] at hne
    rw [ih, scan_letter_date h hletter hd, List.drop_eq_getElem_cons hlt, List.foldl_cons, List.foldl_cons,
      scan_date_of_ne hne]
    rfl
  | case6 s h c hc hletter hd i hbrace i' date hnone =>
    rw [scan_letter_date h hletter hd]
    rcases date_scan (s.patterns ++ [.letter c]) s.tmp s.dateformat (i := i) h hbrace rfl rfl with
      ⟨-, hplace⟩ | ⟨hchar, -⟩ | ⟨hchar, -⟩
    · rw [Scan.outcome, hplace]
      rfl
    · cases hnone.symm.trans hchar
    · cases hnone.symm.trans hchar
  | case7 s h c hc hletter hd i hbrace i' date close hsome hclose =>
    rw [scan_letter_date h hletter hd]
    rcases date_scan (s.patterns ++ [.letter c]) s.tmp s.dateformat (i := i) h hbrace rfl rfl with
      ⟨hchar, -⟩ | ⟨-, hplace⟩ | ⟨hchar, -⟩
    · cases hsome.symm.trans hchar
    · rw [Scan.outcome, hplace]
      rfl
    · cases hsome.symm.trans hchar
      exact absurd rfl hclose
  | case8 s h c hc hletter patterns hd i hbrace i' date close hsome hclose ih =>
    rw [ih, scan_letter_date h hletter hd]
    rcases date_scan (s.patterns ++ [.letter c]) s.tmp s.dateformat (i := i) h hbrace rfl rfl with
      ⟨hchar, -⟩ | ⟨hchar, -⟩ | ⟨-, heq⟩
    · cases hsome.symm.trans hchar
    · cases hsome.symm.trans hchar
      exact absurd (by decide) hclose
    · exact congrArg Scan.outcome heq.symm
  | case9 s h =>
    rw [List.drop_eq_nil_of_le (by omega), List.foldl_nil]
    unfold Scan.outcome Parse.scan
    cases hs : s.parsing_string <;> rfl

/-- The second pass, over what the scan comes to. -/
def secondPass : Except LogFormatter.Init (List Piece × Text) → LogFormatter.Init
  | .error outcome => outcome
  | .ok (patterns, dateformat) =>
    match patterns.mapM (Piece.made dateformat) with
    | some items => .ok items
    | none => .error

theorem initIndexed_eq (m_pattern : Text) :
    LogFormatter.initIndexed m_pattern = secondPass (m_pattern.foldl Scan.step Scan.start).outcome := by
  have hscan : (initLoop m_pattern Parse.start).map (fun s => (s.flushed, s.dateformat)) =
      ((m_pattern.drop Parse.start.i).foldl Scan.step Parse.start.scan).outcome := initLoop_scan Parse.start
  rw [show Parse.start.i = 0 from rfl, List.drop_zero, show Parse.start.scan = Scan.start from rfl] at hscan
  rw [← hscan]
  unfold LogFormatter.initIndexed
  cases initLoop m_pattern Parse.start <;> rfl

end

end Sylar.Log
