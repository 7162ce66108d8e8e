import Sylar.Util.Trim

/- The laws of trimming.

   `TrimLeft` leaves the longest suffix that starts with no delimiter
   (`trimLeft_longest`), and it and `Trim` change nothing when they are called again.
   The search of `TrimRight` finds the last byte that is no delimiter, and
   `substr(0, end)` leaves that byte out, where `Trim` takes `end - begin + 1` bytes. So
   a text that is not all delimiters loses one byte too many (`trimRight_longest_iff`), by
   either composition too (`trimLeft_trimRight`, `trimRight_trimLeft`), and one more at
   every further call (`trimRight_trimRight_iff`). -/
namespace Sylar.Util

open Sylar.Http (Bytes ascii)
open Sylar.Lib

/-- What the three functions promise of a text. -/
structure TrimLaws (str delimit : Bytes) : Prop where
  left : LongestSuffix (StartsNot (· ∈ delimit)) str (trimLeft str delimit)
  right : LongestPrefix (EndsNot (· ∈ delimit)) str (trimRight str delimit)
  left_of_right : trim str delimit = trimLeft (trimRight str delimit) delimit
  right_of_left : trim str delimit = trimRight (trimLeft str delimit) delimit
  trim_again : trim (trim str delimit) delimit = trim str delimit
  left_again : trimLeft (trimLeft str delimit) delimit = trimLeft str delimit
  right_again : trimRight (trimRight str delimit) delimit = trimRight str delimit

/-! ## What holds of every text -/

theorem trimLeft_longest (str delimit : Bytes) :
    LongestSuffix (StartsNot (· ∈ delimit)) str (trimLeft str delimit) :=
  longestSuffix_iff.mpr (trimLeft_eq str delimit)

theorem trimLeft_trimLeft (str delimit : Bytes) : trimLeft (trimLeft str delimit) delimit = trimLeft str delimit := by
  simp only [trimLeft_eq]
  exact List.dropWhile_idempotent _ _

theorem trim_trim (str delimit : Bytes) : trim (trim str delimit) delimit = trim str delimit := by
  have hleft : (trimmed delimit str).dropWhile (· ∈ delimit) = trimmed delimit str := by
    rw [trimmed_comm]
    exact List.dropWhile_idempotent _ _
  simp only [trim_eq]
  calc trimmed delimit (trimmed delimit str)
      = (trimmed delimit str).rdropWhile (· ∈ delimit) := by rw [trimmed, hleft]
    _ = trimmed delimit str := List.rdropWhile_idempotent _ _

/-! ## The byte that `TrimRight` leaves out -/

/-- Only texts of delimiters are trimmed to nothing. -/
theorem trimmed_eq_nil_iff (delimit str : Bytes) : trimmed delimit str = [] ↔ ∀ c ∈ str, c ∈ delimit := by
  constructor
  · intro h
    rcases all_or_split delimit str with hall | ⟨w, c, t, rfl, -, hc⟩
    · exact hall
    · rw [trimmed_append hc] at h
      simp at h
  · intro hall
    rw [trimmed, dropWhile_delimits hall, List.rdropWhile_nil]

/-- Of a text that is not all delimiters the longest prefix is one byte longer. -/
theorem trimRight_longest_iff (str delimit : Bytes) :
    LongestPrefix (EndsNot (· ∈ delimit)) str (trimRight str delimit) ↔ ∀ c ∈ str, c ∈ delimit := by
  rw [longestPrefix_iff, trimRight_eq, dropLast_eq_self_iff, List.rdropWhile_eq_nil_iff]
  simp

theorem trimLeft_trimRight (str delimit : Bytes) :
    trimLeft (trimRight str delimit) delimit = (trim str delimit).dropLast := by
  rw [trimLeft_eq, trimRight_eq, dropWhile_dropLast, trim_eq, trimmed_comm]

theorem trimRight_trimLeft (str delimit : Bytes) :
    trimRight (trimLeft str delimit) delimit = (trim str delimit).dropLast := by
  rw [trimRight_eq, trimLeft_eq, trim_eq, trimmed]

/-- Not even a text without delimiters stays as it is. -/
theorem trimRight_eq_self_iff (str delimit : Bytes) : trimRight str delimit = str ↔ str = [] := by
  rw [trimRight_eq]
  constructor
  · intro h
    have hlen := congrArg List.length h
    rw [List.length_dropLast] at hlen
    have hle := (List.rdropWhile_prefix (fun c => decide (c ∈ delimit)) str).length_le
    exact List.length_eq_zero_iff.mp (by omega)
  · rintro rfl
    rfl

/-- A second call takes one more byte away, if there is one. -/
theorem trimRight_trimRight_iff (str delimit : Bytes) :
    trimRight (trimRight str delimit) delimit = trimRight str delimit ↔
      (str.rdropWhile (· ∈ delimit)).length ≤ 1 := by
  rw [trimRight_eq_self_iff, trimRight_eq, ← List.length_eq_zero_iff, List.length_dropLast]
  omega

/-! ## All laws together -/

/-- The laws hold of the texts of delimiters and of no other. -/
theorem trim_laws_iff (str delimit : Bytes) : TrimLaws str delimit ↔ ∀ c ∈ str, c ∈ delimit := by
  constructor
  · intro h
    exact (trimRight_longest_iff str delimit).mp h.right
  · intro hall
    have hnil : trim str delimit = [] := by
      rw [trim_eq]
      exact (trimmed_eq_nil_iff delimit str).mpr hall
    refine {
      left := trimLeft_longest str delimit
      right := (trimRight_longest_iff str delimit).mpr hall
      left_of_right := ?_
      right_of_left := ?_
      trim_again := trim_trim str delimit
      left_again := trimLeft_trimLeft str delimit
      right_again := (trimRight_trimRight_iff str delimit).mpr ?_ }
    · rw [trimLeft_trimRight, hnil, List.dropLast_nil]
    · rw [trimRight_trimLeft, hnil, List.dropLast_nil]
    · rw [rdropWhile_delimits hall]
      exact Nat.zero_le 1

/-- A blank behind two letters takes the second one with it. -/
theorem trimRight_takes_a_letter :
    trimRight (ascii "ab ") blanks = ascii "a" ∧ trim (ascii "ab ") blanks = ascii "ab" ∧
      ¬ ∀ str delimit, TrimLaws str delimit := by
  refine ⟨by decide, by decide, ?_⟩
  intro h
  have hboth : trim (ascii "ab ") blanks = trimRight (trimLeft (ascii "ab ") blanks) blanks :=
    (h (ascii "ab ") blanks).right_of_left
  have hshort : trim (ascii "ab ") blanks ≠ trimRight (trimLeft (ascii "ab ") blanks) blanks := by decide
  exact hshort hboth

end Sylar.Util
