import Mathlib.Data.List.Basic
import Mathlib.Data.Nat.Digits.Defs
import Sylar.Lib.Splitter

/- Numbers written with the digits of a base.

   A number is its digits from the highest on, 0 a single one. `value` reads single digits;
   a numeral reads back as its number (`readNumeral_numeral`). -/
namespace Sylar.Lib

variable {α : Type}

def numeral (b : Nat) (digit : Nat → α) (n : Nat) : List α :=
  if n = 0 then [digit 0] else (Nat.digits b n).reverse.map digit

def readNumeral (b : Nat) (value : α → Option Nat) (s : List α) : Option Nat :=
  if s = [] then none else (s.mapM value).map fun ds => Nat.ofDigits b ds.reverse

section
variable {b : Nat} {digit : Nat → α} (hb : 1 < b)
include hb

omit hb in
theorem numeral_ne_nil (b : Nat) (digit : Nat → α) (n : Nat) : numeral b digit n ≠ [] := by
  unfold numeral
  by_cases hn : n = 0
  · rw [if_pos hn]
    exact List.cons_ne_nil _ _
  · rw [if_neg hn]
    simp [Nat.digits_ne_nil_iff_ne_zero.mpr hn]

/-- A numeral is made of digits. -/
theorem mem_numeral {n : Nat} {c : α} (hc : c ∈ numeral b digit n) : ∃ d < b, c = digit d := by
  unfold numeral at hc
  by_cases hn : n = 0
  · rw [if_pos hn] at hc
    exact ⟨0, by omega, List.mem_singleton.mp hc⟩
  · rw [if_neg hn] at hc
    obtain ⟨d, hd, rfl⟩ := List.mem_map.mp hc
    exact ⟨d, Nat.digits_lt_base hb (List.mem_reverse.mp hd), rfl⟩

theorem readNumeral_numeral {value : α → Option Nat} (hvalue : ∀ d < b, value (digit d) = some d) (n : Nat) :
    readNumeral b value (numeral b digit n) = some n := by
  rw [readNumeral, if_neg (numeral_ne_nil b digit n), numeral]
  by_cases hn : n = 0
  · rw [if_pos hn, hn, (mapM_eq_some_iff value [digit 0] [0]).mpr (by simp [hvalue 0 (by omega)])]
    rfl
  · have hdigits : ((Nat.digits b n).reverse.map digit).mapM value = some (Nat.digits b n).reverse := by
      apply (mapM_eq_some_iff _ _ _).mpr
      rw [List.map_map]
      apply List.map_congr_left
      intro d hd
      exact hvalue d (Nat.digits_lt_base hb (List.mem_reverse.mp hd))
    rw [if_neg hn, hdigits, Option.map_some, List.reverse_reverse, Nat.ofDigits_digits]

end

end Sylar.Lib
