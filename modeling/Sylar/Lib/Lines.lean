import Mathlib.Data.List.Basic

/- Texts that start with lines and an empty line.

   A line ends with two marks, `cr` and `lf`, that do not stand for an end apart. What
   `readLines` reads are the lines up to the first empty one and what is behind it; it
   reads back what was written of lines that are not empty and hold no `cr`
   (`readLines_lines`). -/
namespace Sylar.Lib

variable {α : Type} [DecidableEq α] (cr lf : α)

/-- Lines as they are written. -/
def endLines (lines : List (List α)) : List α := lines.flatMap fun line => line ++ [cr, lf]

/-- Reads up to the empty line; `line` is what has been read of the line the text goes on with. -/
def readLines (line : List α) : List α → Option (List (List α) × List α)
  | c :: d :: rest =>
    if c = cr ∧ d = lf then
      if line = [] then some ([], rest)
      else (readLines [] rest).map fun read => (line :: read.1, read.2)
    else readLines (line ++ [c]) (d :: rest)
  | _ => none

variable {cr lf}

/-- What is left of a line is read with it. -/
theorem readLines_append {more : List α} (h : cr ∉ more) (line rest : List α) :
    readLines cr lf line (more ++ cr :: lf :: rest) =
      if line ++ more = [] then some ([], rest)
      else (readLines cr lf [] rest).map fun read => ((line ++ more) :: read.1, read.2) := by
  induction more generalizing line with
  | nil => simp [readLines]
  | cons c more ih =>
    obtain ⟨hc, hmore⟩ : ¬ cr = c ∧ cr ∉ more := by simpa using h
    -- a symbol that is not `cr` ends no line, whatever comes behind it
    have hstep : readLines cr lf line (c :: more ++ cr :: lf :: rest) =
        readLines cr lf (line ++ [c]) (more ++ cr :: lf :: rest) := by
      have hend : ∀ d : α, ¬(c = cr ∧ d = lf) := by
        intro d hcd
        exact hc hcd.1.symm
      cases more with
      | nil => simp [readLines, hend]
      | cons d more => simp [readLines, hend]
    rw [hstep, ih hmore]
    simp

theorem readLines_lines {lines : List (List α)} (h : ∀ line ∈ lines, line ≠ [] ∧ cr ∉ line) (body : List α) :
    readLines cr lf [] (endLines cr lf lines ++ cr :: lf :: body) = some (lines, body) := by
  induction lines with
  | nil => simp [endLines, readLines]
  | cons line lines ih =>
    obtain ⟨⟨hne, hcr⟩, hrest⟩ := List.forall_mem_cons.mp h
    have hsplit : endLines cr lf (line :: lines) ++ cr :: lf :: body =
        line ++ cr :: lf :: (endLines cr lf lines ++ cr :: lf :: body) := by
      simp [endLines]
    rw [hsplit, readLines_append hcr, ih hrest]
    simp [hne]

end Sylar.Lib
