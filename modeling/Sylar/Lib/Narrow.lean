import Mathlib.Data.List.Basic
import Mathlib.Algebra.Order.Ring.Nat

/- 64-bit words, `int`s and `long`s.

   `narrowed` takes the low half of a word for a signed number, `widened` repeats the sign
   of an `int` in the high half. `narrowed_cases` says what a word reads as, and
   `narrowed_widened` that narrowing undoes widening.

   A sum or product of `long`s that does not fit is undefined (`addLong`, `mulLong`). -/
namespace Sylar.Lib

/-- `(int)v`. -/
def narrowed (v : UInt64) : Int32 := v.toUInt32.toInt32

/-- An `int` assigned to a `uint64_t`. -/
def widened (i : Int32) : UInt64 := i.toInt64.toUInt64

theorem narrowed_toInt (v : UInt64) : (narrowed v).toInt = (v.toNat : Int).bmod (2 ^ 32) := by
  show v.toUInt32.toBitVec.toInt = (v.toNat : Int).bmod (2 ^ 32)
  rw [UInt64.toBitVec_toUInt32, BitVec.toInt_setWidth]
  rfl

/-- The low half of a value that an `int` widens to is the `int`. -/
theorem bmod_low {n : Nat} {i : Int} (h : (n : Int).bmod (2 ^ 64) = i) (hlo : -2 ^ 31 ≤ i) (hhi : i < 2 ^ 31) :
    (n : Int).bmod (2 ^ 32) = i := by
  rw [Int.bmod_def] at h ⊢
  split at h <;> split <;> omega

/-- Narrowing undoes widening, whatever the sign. -/
theorem narrowed_widened (i : Int32) : narrowed (widened i) = i := by
  rw [← Int32.toInt_inj, narrowed_toInt]
  apply bmod_low
  · calc ((widened i).toNat : Int).bmod (2 ^ 64) = i.toInt64.toInt :=
          (BitVec.toInt_eq_toNat_bmod i.toInt64.toBitVec).symm
      _ = i.toInt := Int32.toInt_toInt64 i
  · exact Int32.le_toInt i
  · exact Int32.toInt_lt i

/-- An `int` that is not negative keeps its value. -/
theorem widened_toNat {i : Int32} (h : 0 ≤ i.toInt) : (widened i).toNat = i.toInt.toNat := by
  have hle : (0 : Int64) ≤ i.toInt64 := by
    rw [Int64.le_iff_toInt_le, Int32.toInt_toInt64]
    exact h
  calc (widened i).toNat = i.toInt64.toNatClampNeg := Int64.toNat_toUInt64_of_le hle
    _ = i.toInt64.toInt.toNat := rfl
    _ = i.toInt.toNat := by rw [Int32.toInt_toInt64]

/-- What the low half of a word reads as. -/
theorem narrowed_cases (v : UInt64) :
    (v.toNat % 2 ^ 32 < 2 ^ 31 ∧ (narrowed v).toInt = (v.toNat % 2 ^ 32 : Nat)) ∨
      (2 ^ 31 ≤ v.toNat % 2 ^ 32 ∧ (narrowed v).toInt < 0) := by
  rw [narrowed_toInt, Int.bmod_def]
  split <;> omega

/-- What a `long` is as a word: its residue. -/
theorem toUInt64_toNat_emod (x : Int64) : (x.toUInt64.toNat : Int) = x.toInt % 2 ^ 64 := by
  have hlt := x.toUInt64.toNat_lt
  have hbmod : x.toInt = (x.toUInt64.toNat : Int).bmod (2 ^ 64) := BitVec.toInt_eq_toNat_bmod x.toBitVec
  rw [hbmod, Int.bmod_def]
  split <;> omega

/-- What an `int` is as a word. -/
theorem widened_toNat_emod (i : Int32) : ((widened i).toNat : Int) = i.toInt % 2 ^ 64 := by
  rw [widened, toUInt64_toNat_emod, Int32.toInt_toInt64]

/-- A `long` narrowed to `int` and widened to a word. -/
theorem widened_toInt32 (x : Int64) :
    ((widened x.toInt32).toNat : Int) =
      if x.toInt % 2 ^ 32 < 2 ^ 31 then x.toInt % 2 ^ 32 else 2 ^ 64 - 2 ^ 32 + x.toInt % 2 ^ 32 := by
  have hres : x.toInt32.toInt = x.toInt.bmod (2 ^ 32) := Int64.toInt_toInt32 x
  rw [widened_toNat_emod, hres, Int.bmod_def]
  split <;> split <;> omega

/-! ## Arithmetic on `long`s -/

/-- A result as a `long`, where it fits. -/
def long (x : Int) : Option Int64 :=
  if -2 ^ 63 ≤ x ∧ x < 2 ^ 63 then some (Int64.ofInt x) else none

def addLong (a b : Int64) : Option Int64 := long (a.toInt + b.toInt)

def mulLong (a b : Int64) : Option Int64 := long (a.toInt * b.toInt)

theorem long_eq_none_iff {x : Int} : long x = none ↔ x < -2 ^ 63 ∨ 2 ^ 63 ≤ x := by
  unfold long
  split <;> simp <;> omega

theorem long_eq_some_iff {x : Int} {v : Int64} : long x = some v ↔ v.toInt = x := by
  have hlo := v.le_toInt
  have hhi := v.toInt_lt
  unfold long
  constructor
  · intro h
    split at h
    · rename_i hfits
      cases h
      exact Int64.toInt_ofInt_of_le hfits.1 hfits.2
    · cases h
  · intro h
    rw [if_pos ⟨by omega, by omega⟩, ← h, Int64.ofInt_toInt]

end Sylar.Lib
