import Mathlib.Data.List.Basic
import Mathlib.Algebra.Order.Ring.Nat

/- Numbers as bytes: fixed width, least significant byte first (`leBytes`,
   `ofLeBytes`), and the zigzag map between signed and unsigned words.

   `ofLeBytes_leBytes` is the fixed-width round trip, `ofLeBytes_reverse_swap`
   the one through a byte swap, and `unzigzag_zigzag` says that zigzag decoding
   inverts zigzag encoding at every width, the least word included. What holds of
   each of the 256 bytes holds of every byte (`forall_byte`). -/
namespace Sylar.Lib

theorem forall_byte {p : UInt8 → Prop} (h : ∀ n : Fin 256, p (UInt8.ofNat n)) (c : UInt8) : p c := by
  have hc := h ⟨c.toNat, c.toNat_lt⟩
  rwa [UInt8.ofNat_toNat] at hc

/-- The `n` low bytes of `v`, least significant first. -/
def leBytes : Nat → Nat → List UInt8
  | 0, _ => []
  | n + 1, v => UInt8.ofNat v :: leBytes n (v / 256)

/-- The number a byte string spells, least significant byte first. -/
def ofLeBytes : List UInt8 → Nat
  | [] => 0
  | b :: bs => b.toNat + 256 * ofLeBytes bs

@[simp] theorem leBytes_length : ∀ n v : Nat, (leBytes n v).length = n
  | 0, _ => rfl
  | n + 1, v => by simp [leBytes, leBytes_length n]

theorem ofLeBytes_lt : ∀ bs : List UInt8, ofLeBytes bs < 256 ^ bs.length
  | [] => by simp [ofLeBytes]
  | b :: bs => by
    have ih := ofLeBytes_lt bs
    have hb := b.toNat_lt
    rw [ofLeBytes, List.length_cons, Nat.pow_succ]
    omega

theorem ofLeBytes_leBytes : ∀ n v : Nat, ofLeBytes (leBytes n v) = v % 256 ^ n
  | 0, v => by simp [leBytes, ofLeBytes, Nat.mod_one]
  | n + 1, v => by
    rw [leBytes, ofLeBytes, ofLeBytes_leBytes n, Nat.pow_succ, Nat.mul_comm (256 ^ n),
      Nat.mod_mul, UInt8.toNat_ofNat']

/-- The bytes of the number a byte string spells are that string. -/
theorem leBytes_ofLeBytes : ∀ bs : List UInt8, leBytes bs.length (ofLeBytes bs) = bs
  | [] => rfl
  | b :: bs => by
    have hb := b.toNat_lt
    have hdiv : (b.toNat + 256 * ofLeBytes bs) / 256 = ofLeBytes bs := by omega
    have hmod : UInt8.ofNat (b.toNat + 256 * ofLeBytes bs) = b := by
      apply UInt8.toNat_inj.mp
      rw [UInt8.toNat_ofNat']; omega
    rw [List.length_cons, leBytes, ofLeBytes, hdiv, hmod, leBytes_ofLeBytes bs]

/-- Reading the reversed bytes of `v` and reversing again gives `v` back. -/
theorem ofLeBytes_reverse_swap (n v : Nat) :
    ofLeBytes (leBytes n (ofLeBytes (leBytes n v).reverse)).reverse = v % 256 ^ n := by
  have h := leBytes_ofLeBytes (leBytes n v).reverse
  rw [List.length_reverse, leBytes_length] at h
  rw [h, List.reverse_reverse, ofLeBytes_leBytes]

/-! ## Zigzag -/

section
variable {w : Nat}

/-- Non-negative words to the even, negative ones to the odd words. -/
def zigzag (x : BitVec w) : BitVec w := if x.slt 0#w then -x * 2#w - 1#w else x * 2#w

def unzigzag (v : BitVec w) : BitVec w := (v >>> 1) ^^^ -(v &&& 1#w)

/-- A word is negative when its number is in the upper half. -/
theorem slt_zero_iff (x : BitVec (w + 1)) : x.slt 0#(w + 1) = true ↔ 2 ^ w ≤ x.toNat := by
  rw [BitVec.slt_zero_iff_msb_cond, BitVec.msb_eq_decide]
  simp

theorem and_one (v : BitVec (w + 1)) : v &&& 1#(w + 1) = BitVec.ofNat (w + 1) (v.toNat % 2) := by
  apply BitVec.eq_of_toNat_eq
  have h1 : 1 < 2 ^ (w + 1) := Nat.one_lt_two_pow (by omega)
  rw [BitVec.toNat_and, BitVec.toNat_ofNat, BitVec.toNat_ofNat, Nat.mod_eq_of_lt h1,
    Nat.and_one_is_mod]
  exact (Nat.mod_eq_of_lt (by omega)).symm

theorem unzigzag_even {v : BitVec (w + 1)} (h : v.toNat % 2 = 0) :
    (unzigzag v).toNat = v.toNat / 2 := by
  simp [unzigzag, and_one, h, Nat.shiftRight_one]

theorem unzigzag_odd {v : BitVec (w + 1)} (h : v.toNat % 2 = 1) :
    (unzigzag v).toNat = 2 ^ (w + 1) - 1 - v.toNat / 2 := by
  have hneg : -(v &&& 1#(w + 1)) = BitVec.allOnes (w + 1) := by
    rw [and_one, h]; exact BitVec.neg_one_eq_allOnes
  rw [unzigzag, hneg, BitVec.xor_allOnes, BitVec.toNat_not, BitVec.toNat_ushiftRight,
    Nat.shiftRight_one]

/-- The word a non-negative number is sent to. -/
theorem zigzag_nonneg {x : BitVec (w + 1)} (h : x.toNat < 2 ^ w) :
    (zigzag x).toNat = 2 * x.toNat := by
  have hpow : 2 ^ (w + 1) = 2 * 2 ^ w := by rw [Nat.pow_succ, Nat.mul_comm]
  have hs : ¬ x.slt 0#(w + 1) = true := by rw [slt_zero_iff]; omega
  rw [zigzag, if_neg hs, BitVec.toNat_mul, BitVec.toNat_ofNat, Nat.mul_mod_mod,
    Nat.mod_eq_of_lt (by omega), Nat.mul_comm]

/-- The word a negative number is sent to, the least one included. -/
theorem zigzag_neg {x : BitVec (w + 1)} (h : 2 ^ w ≤ x.toNat) :
    (zigzag x).toNat = 2 * (2 ^ (w + 1) - x.toNat) - 1 := by
  have hx := x.isLt
  have hpow : 2 ^ (w + 1) = 2 * 2 ^ w := by rw [Nat.pow_succ, Nat.mul_comm]
  have hone : 1 % 2 ^ (w + 1) = 1 := Nat.mod_eq_of_lt (Nat.one_lt_two_pow (by omega))
  have hw : 0 < 2 ^ w := Nat.two_pow_pos w
  have hneg : (2 ^ (w + 1) - x.toNat) % 2 ^ (w + 1) = 2 ^ (w + 1) - x.toNat :=
    Nat.mod_eq_of_lt (by omega)
  rw [zigzag, if_pos ((slt_zero_iff x).mpr h), BitVec.toNat_sub, BitVec.toNat_mul,
    BitVec.toNat_neg, BitVec.toNat_ofNat, BitVec.toNat_ofNat, Nat.mul_mod_mod, hone, hneg]
  -- doubling wraps exactly at the least word, where `- 1` wraps back
  by_cases hmin : x.toNat = 2 ^ w
  · have hd : (2 ^ (w + 1) - x.toNat) * 2 = 2 ^ (w + 1) := by omega
    rw [hd, Nat.mod_self, Nat.add_zero, Nat.mod_eq_of_lt (by omega)]
    omega
  · have hd : (2 ^ (w + 1) - x.toNat) * 2 < 2 ^ (w + 1) := by omega
    have hsum : 2 ^ (w + 1) - 1 + (2 ^ (w + 1) - x.toNat) * 2 =
        (2 * (2 ^ (w + 1) - x.toNat) - 1) + 2 ^ (w + 1) := by omega
    rw [Nat.mod_eq_of_lt hd, hsum, Nat.add_mod_right, Nat.mod_eq_of_lt (by omega)]

theorem unzigzag_zigzag (x : BitVec (w + 1)) : unzigzag (zigzag x) = x := by
  have hx := x.isLt
  have hpow : 2 ^ (w + 1) = 2 * 2 ^ w := by rw [Nat.pow_succ, Nat.mul_comm]
  apply BitVec.eq_of_toNat_eq
  by_cases h : x.toNat < 2 ^ w
  · have hz := zigzag_nonneg h
    rw [unzigzag_even (by omega), hz]; omega
  · have hz := zigzag_neg (x := x) (by omega)
    rw [unzigzag_odd (by omega), hz]; omega

theorem zigzag_unzigzag (v : BitVec (w + 1)) : zigzag (unzigzag v) = v := by
  have hv := v.isLt
  have hpow : 2 ^ (w + 1) = 2 * 2 ^ w := by rw [Nat.pow_succ, Nat.mul_comm]
  apply BitVec.eq_of_toNat_eq
  by_cases h : v.toNat % 2 = 0
  · have hhalf := unzigzag_even h
    rw [zigzag_nonneg (by omega), hhalf]
    omega
  · have hhalf := unzigzag_odd (v := v) (by omega)
    rw [zigzag_neg (by omega), hhalf]
    omega

end

end Sylar.Lib
