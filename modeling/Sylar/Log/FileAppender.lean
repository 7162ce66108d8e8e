import Mathlib.Data.List.Basic
import Sylar.Log.Basic

/- `FileLogAppender` of `sylar/log.cc`, on a file system where opening and writing succeed.

   `std::ofstream::open(name)` opens for writing and truncates. `reopen` therefore empties
   the file, and `log` calls it whenever an event is three seconds or more behind the last
   one that did. What was written before is lost exactly then (`no_line_lost_iff`). -/
namespace Sylar.Log

/-- A call of `log`: its level, the time of its event in seconds, and the text its formatter gives. -/
structure Line where
  level : Level
  time : UInt64
  text : Text
  deriving DecidableEq, Repr

/-- The appender, with the content of its file. -/
structure FileLogAppender where
  level : Level
  lastTime : UInt64
  file : Text
  deriving DecidableEq, Repr

/-- `close` and `open`: the file is empty after it. -/
def FileLogAppender.reopen (a : FileLogAppender) : FileLogAppender := { a with file := [] }

/-- The constructor, on a file with any content; `setLevel` is the caller's. -/
def FileLogAppender.new (level : Level) (content : Text) : FileLogAppender :=
  FileLogAppender.reopen { level := level, lastTime := 0, file := content }

def FileLogAppender.log (a : FileLogAppender) (line : Line) : FileLogAppender :=
  if line.level.toNat ≥ a.level.toNat then
    let a := if line.time ≥ a.lastTime + 3 then { a.reopen with lastTime := line.time } else a
    { a with file := a.file ++ line.text }
  else a

def FileLogAppender.logs (a : FileLogAppender) (lines : List Line) : FileLogAppender :=
  lines.foldl FileLogAppender.log a

/-! ## What should be there -/

/-- The texts of the lines with the level, in call order. -/
def written (level : Level) (lines : List Line) : Text :=
  (lines.filter fun line => line.level.toNat ≥ level.toNat).flatMap Line.text

/-- When the last of the lines came that was three seconds or more behind the one before it of that
kind; 0 when there was none. -/
def lastReopened (level : Level) (lines : List Line) : UInt64 :=
  lines.foldl (fun t line =>
    if line.level.toNat ≥ level.toNat ∧ line.time ≥ t + 3 then line.time else t) 0

/-! ## One call -/

section
variable {a : FileLogAppender} {line : Line}

theorem log_skip (h : ¬ line.level.toNat ≥ a.level.toNat) : a.log line = a := if_neg h

theorem log_append (h : line.level.toNat ≥ a.level.toNat) (hnear : ¬ line.time ≥ a.lastTime + 3) :
    a.log line = { a with file := a.file ++ line.text } := by
  simp only [FileLogAppender.log, if_pos h, if_neg hnear]

theorem log_reopen (h : line.level.toNat ≥ a.level.toNat) (hfar : line.time ≥ a.lastTime + 3) :
    a.log line = { a with lastTime := line.time, file := line.text } := by
  simp only [FileLogAppender.log, if_pos h, if_pos hfar, FileLogAppender.reopen, List.nil_append]

@[simp] theorem log_level (a : FileLogAppender) (line : Line) : (a.log line).level = a.level := by
  unfold FileLogAppender.log
  split
  · dsimp only
    split <;> rfl
  · rfl

theorem written_cons (level : Level) (line : Line) (lines : List Line) :
    written level (line :: lines) =
      (if line.level.toNat ≥ level.toNat then line.text else []) ++ written level lines := by
  unfold written
  by_cases h : line.level.toNat ≥ level.toNat
  · simp [h]
  · simp [h]

/-- No call makes the file longer than what was written. -/
theorem length_logs_le : ∀ (lines : List Line) (a : FileLogAppender),
    (a.logs lines).file.length ≤ a.file.length + (written a.level lines).length := by
  intro lines
  induction lines with
  | nil => intro a; exact Nat.le_add_right _ _
  | cons line rest ih =>
    intro a
    have hrest := ih (a.log line)
    rw [log_level] at hrest
    rw [written_cons, List.length_append]
    have hlen : (a.log line).file.length ≤
        a.file.length + (if line.level.toNat ≥ a.level.toNat then line.text else []).length := by
      by_cases h : line.level.toNat ≥ a.level.toNat
      · rw [if_pos h]
        by_cases hfar : line.time ≥ a.lastTime + 3
        · rw [log_reopen h hfar]
          exact Nat.le_add_left _ _
        · rw [log_append h hfar]
          exact Nat.le_of_eq List.length_append
      · rw [if_neg h, log_skip h]
        exact Nat.le_add_right _ _
    have hrun : (a.logs (line :: rest)).file = ((a.log line).logs rest).file := rfl
    rw [hrun]
    omega

end

/-! ## Sequences of calls -/

/-- A statement about every place in a list, by its first place and the rest. -/
theorem forall_split_cons {α : Type} {x : α} {rest : List α} {P : List α → α → Prop} :
    (∀ before y after, x :: rest = before ++ y :: after → P before y) ↔
      P [] x ∧ ∀ before y after, rest = before ++ y :: after → P (x :: before) y := by
  constructor
  · intro h
    exact ⟨h [] x rest rfl, fun before y after heq => h (x :: before) y after (by rw [heq]; rfl)⟩
  · rintro ⟨hfirst, hrest⟩ before y after heq
    cases before with
    | nil =>
      obtain ⟨rfl, -⟩ := List.cons.inj heq
      exact hfirst
    | cons z before =>
      obtain ⟨rfl, htail⟩ := List.cons.inj heq
      exact hrest before y after htail

theorem lastTime_logs : ∀ (lines : List Line) (a : FileLogAppender),
    (a.logs lines).lastTime = lines.foldl (fun t line =>
      if line.level.toNat ≥ a.level.toNat ∧ line.time ≥ t + 3 then line.time else t) a.lastTime := by
  intro lines
  induction lines with
  | nil => intro a; rfl
  | cons line rest ih =>
    intro a
    have hrest := ih (a.log line)
    rw [log_level] at hrest
    have hlast : (a.log line).lastTime =
        if line.level.toNat ≥ a.level.toNat ∧ line.time ≥ a.lastTime + 3 then line.time else a.lastTime := by
      by_cases h : line.level.toNat ≥ a.level.toNat
      · by_cases hfar : line.time ≥ a.lastTime + 3
        · rw [log_reopen h hfar, if_pos ⟨h, hfar⟩]
        · rw [log_append h hfar, if_neg (fun hboth => hfar hboth.2)]
      · rw [log_skip h, if_neg (fun hboth => h hboth.1)]
    rw [List.foldl_cons, ← hlast]
    exact hrest

/-- The file is what it was and what is written exactly when it is empty, and would have been, at
every line that reopens it. -/
theorem file_logs_iff : ∀ (lines : List Line) (a : FileLogAppender),
    (a.logs lines).file = a.file ++ written a.level lines ↔
      ∀ before line after, lines = before ++ line :: after → line.level.toNat ≥ a.level.toNat →
        line.time ≥ (a.logs before).lastTime + 3 → a.file ++ written a.level before = [] := by
  intro lines
  induction lines with
  | nil =>
    intro a
    refine iff_of_true (List.append_nil _).symm ?_
    intro before line after heq
    simp at heq
  | cons line rest ih =>
    intro a
    have hrest := ih (a.log line)
    rw [log_level] at hrest
    rw [forall_split_cons (P := fun before line => line.level.toNat ≥ a.level.toNat →
      line.time ≥ (a.logs before).lastTime + 3 → a.file ++ written a.level before = [])]
    have hrun : ∀ lines, a.logs (line :: lines) = (a.log line).logs lines := fun _ => rfl
    simp only [hrun, written_cons]
    by_cases h : line.level.toNat ≥ a.level.toNat
    · rw [if_pos h]
      by_cases hfar : line.time ≥ a.lastTime + 3
      · by_cases hempty : a.file = []
        · -- an empty file loses nothing
          rw [log_reopen h hfar] at hrest ⊢
          rw [hempty, List.nil_append, hrest]
          simp only [List.nil_append]
          exact ⟨fun hall => ⟨fun _ _ => rfl, hall⟩, And.right⟩
        · -- what was in the file is gone for good
          refine iff_of_false ?_ ?_
          · intro heq
            have hlen := length_logs_le rest (a.log line)
            have hfile : (a.log line).file = line.text := by rw [log_reopen h hfar]
            rw [heq, log_level, hfile, List.length_append, List.length_append] at hlen
            exact hempty (List.eq_nil_of_length_eq_zero (by omega))
          · rintro ⟨hfirst, -⟩
            have hnil := hfirst h hfar
            exact hempty (List.append_eq_nil_iff.mp hnil).1
      · -- the line is appended; whether a later one reopens is for the rest to say
        rw [log_append h hfar] at hrest ⊢
        rw [← List.append_assoc, hrest]
        simp only [List.append_assoc]
        exact ⟨fun hall => ⟨fun _ hfar' => absurd hfar' hfar, hall⟩, And.right⟩
    · rw [if_neg h, List.nil_append]
      rw [log_skip h] at hrest ⊢
      rw [hrest]
      simp only [List.nil_append]
      exact ⟨fun hall => ⟨fun h' => absurd h' h, hall⟩, And.right⟩

/-- **No log line is lost exactly when no line reopens a file that has something in it**: the content
at the end is the content after the construction and the texts of the lines with the level, if and
only if every line with the level that comes three seconds or more behind the last reopening finds
nothing written. -/
theorem no_line_lost_iff (level : Level) (content : Text) (lines : List Line) :
    ((FileLogAppender.new level content).logs lines).file =
        (FileLogAppender.new level content).file ++ written level lines ↔
      ∀ before line after, lines = before ++ line :: after → line.level.toNat ≥ level.toNat →
        line.time ≥ lastReopened level before + 3 → written level before = [] := by
  have hiff := file_logs_iff lines (FileLogAppender.new level content)
  simp only [lastTime_logs] at hiff
  exact hiff

/-- Two lines five seconds apart. -/
def fiveApart : List Line := [⟨.INFO, 1000, [0x61]⟩, ⟨.INFO, 1005, [0x62]⟩]

/-- The first of them is gone. -/
theorem line_lost :
    ((FileLogAppender.new .DEBUG []).logs fiveApart).file = [0x62] ∧
      ((FileLogAppender.new .DEBUG []).logs fiveApart).file ≠
        (FileLogAppender.new .DEBUG []).file ++ written .DEBUG fiveApart := by
  decide

end Sylar.Log
