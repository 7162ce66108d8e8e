import Mathlib.Data.List.Basic
import Mathlib.Data.Nat.Bitwise
import Sylar.Lib.Bytes

/- The bits of a number and of its bytes.

   A bit of the number that bytes spell is a bit of one of the bytes (`testBit_ofLeBytes`),
   so reversing the bytes of a number moves its bits by whole bytes (`testBit_swap`).
   `byte_ext` compares bytes bit by bit. -/
namespace Sylar.Lib

theorem testBit_ofLeBytes (bs : List UInt8) (i : Nat) :
    (ofLeBytes bs).testBit i = (bs.getD (i / 8) 0).toNat.testBit (i % 8) := by
  induction bs generalizing i with
  | nil => simp [ofLeBytes]
  | cons b bs ih =>
    have hb : b.toNat < 2 ^ 8 := b.toNat_lt
    have hcons : ofLeBytes (b :: bs) = 2 ^ 8 * ofLeBytes bs + b.toNat := by
      rw [ofLeBytes]
      omega
    rw [hcons, Nat.testBit_two_pow_mul_add _ hb]
    by_cases hi : i < 8
    · rw [if_pos hi, Nat.div_eq_of_lt hi, Nat.mod_eq_of_lt hi]
      rfl
    · obtain ⟨j, rfl⟩ : ∃ j, i = j + 8 := ⟨i - 8, by omega⟩
      rw [if_neg hi, Nat.add_sub_cancel, ih, Nat.add_mod_right, Nat.add_div_right j (by decide)]
      rfl

theorem testBit_leBytes {n k : Nat} (v : Nat) (hk : k < n) {j : Nat} (hj : j < 8) :
    ((leBytes n v).getD k 0).toNat.testBit j = v.testBit (8 * k + j) := by
  have hbits := testBit_ofLeBytes (leBytes n v) (8 * k + j)
  rw [ofLeBytes_leBytes, show (256 : Nat) ^ n = 2 ^ (8 * n) by rw [Nat.pow_mul], Nat.testBit_mod_two_pow,
    decide_eq_true (show 8 * k + j < 8 * n by omega), Bool.true_and] at hbits
  rw [hbits, show (8 * k + j) / 8 = k by omega, show (8 * k + j) % 8 = j by omega]

/-- Where the bits go when the bytes are reversed. -/
theorem testBit_swap {n i : Nat} (v : Nat) (hi : i < 8 * n) :
    (ofLeBytes (leBytes n v).reverse).testBit i = v.testBit (8 * (n - 1 - i / 8) + i % 8) := by
  have hk : i / 8 < (leBytes n v).reverse.length := by
    rw [List.length_reverse, leBytes_length]
    omega
  have hget : (leBytes n v).reverse.getD (i / 8) 0 = (leBytes n v).getD (n - 1 - i / 8) 0 := by
    rw [List.getD_eq_getElem?_getD, List.getD_eq_getElem?_getD, List.getElem?_reverse (by simpa using hk),
      leBytes_length]
  rw [testBit_ofLeBytes, hget, testBit_leBytes v (by omega) (Nat.mod_lt i (by decide))]

/-- Bytes with the same bits. -/
theorem byte_ext {b c : UInt8} (h : ∀ j < 8, b.toNat.testBit j = c.toNat.testBit j) : b = c := by
  apply UInt8.toNat_inj.mp
  apply Nat.eq_of_testBit_eq
  intro j
  by_cases hj : j < 8
  · exact h j hj
  · have hpow : 2 ^ 8 ≤ 2 ^ j := Nat.pow_le_pow_right (by decide) (by omega)
    rw [Nat.testBit_lt_two_pow (Nat.lt_of_lt_of_le b.toNat_lt hpow),
      Nat.testBit_lt_two_pow (Nat.lt_of_lt_of_le c.toNat_lt hpow)]

end Sylar.Lib
