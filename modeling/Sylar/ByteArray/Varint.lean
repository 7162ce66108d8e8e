import Mathlib.Data.List.Basic
import Mathlib.Data.Nat.Log
import Mathlib.Order.Bounds.Basic
import Sylar.ByteArray.RoundTrip

/- How many bytes the base-128 numbers of `sylar/bytearray.cc` take.

   A signed number goes through zigzag to an unsigned one, which is below `128 ^ k` when the
   signed one has `7 k` bits with its sign (`zigzag_lt_iff`). The loop writes as many bytes
   as there are digits, so that no shorter text would do, and `tmp` is long enough for
   every number. Reading stops behind the fifth or the tenth byte, whatever the bytes are. -/
namespace Sylar.ByteArray
open Sylar.Lib

/-- All bytes but the last say that another one follows. -/
def Marked (bs : List UInt8) : Prop := ∃ init last, bs = init ++ [last] ∧ (∀ b ∈ init, 0x80 ≤ b) ∧ last < 0x80

/-- A signed number of `7 k` bits. -/
def Fits (v : Int) (k : Nat) : Prop := -2 ^ (7 * k - 1) ≤ v ∧ v < 2 ^ (7 * k - 1)

/-- The bytes of `v`, as few as can be of `limit` at most. -/
structure Minimal (limit : Nat) (v : Int) (bs : List UInt8) : Prop where
  least : IsLeast {k | 1 ≤ k ∧ k ≤ limit ∧ Fits v k} bs.length
  marked : Marked bs

/-! ## Numbers -/

/-- How far zigzag goes. -/
theorem zigzag_lt_iff {w : Nat} (x : BitVec (w + 1)) {k : Nat} (hk : 1 ≤ k) :
    (zigzag x).toNat < 128 ^ k ↔ Fits x.toInt k := by
  have hx := x.isLt
  have hpow : 2 ^ (w + 1) = 2 * 2 ^ w := by rw [Nat.pow_succ, Nat.mul_comm]
  have hreach : (128 : Nat) ^ k = 2 * 2 ^ (7 * k - 1) := by
    rw [← Nat.pow_succ', show (128 : Nat) = 2 ^ 7 from rfl, ← Nat.pow_mul]
    congr 1
    omega
  have hcast : (2 : Int) ^ (7 * k - 1) = ((2 ^ (7 * k - 1) : Nat) : Int) := by norm_cast
  have hpos := Nat.two_pow_pos (7 * k - 1)
  rw [hreach, Fits, hcast, BitVec.toInt_eq_toNat_cond]
  generalize 2 ^ (7 * k - 1) = reach at hpos
  by_cases h : x.toNat < 2 ^ w
  · rw [zigzag_nonneg h, if_pos (by omega)]
    omega
  · rw [zigzag_neg (by omega), if_neg (by omega)]
    omega

/-! ## Bytes -/

theorem varintLoop_marked : ∀ (k v : Nat) (bs : List UInt8), varintLoop k v = .ok bs → Marked bs := by
  intro k
  induction k with
  | zero =>
    intro v bs h
    cases h
  | succ k ih =>
    intro v bs h
    rcases varintLoop_cases h with ⟨hsmall, rfl⟩ | ⟨-, rest, hrest, rfl⟩
    · refine ⟨[], UInt8.ofNat v, rfl, fun b hb => absurd hb List.not_mem_nil, ?_⟩
      rw [UInt8.lt_iff_toNat_lt, toNat_lastByte hsmall]
      exact hsmall
    · obtain ⟨init, last, rfl, hinit, hlast⟩ := ih (v / 128) rest hrest
      refine ⟨UInt8.ofNat (v % 128 + 128) :: init, last, rfl, ?_, hlast⟩
      intro b hb
      rcases List.mem_cons.mp hb with rfl | hb
      · rw [UInt8.le_iff_toNat_le, toNat_markedByte]
        exact Nat.le_add_left 128 _
      · exact hinit b hb

/-- The bytes of a number that `tmp` has room for. -/
theorem varint_minimal_of_lt {w k : Nat} {x : BitVec (w + 1)} (h : (zigzag x).toNat < 128 ^ (k + 1)) :
    Minimal (k + 1) x.toInt (varintBytes (k + 1) (zigzag x).toNat) := by
  have hlength := varintBytes_length h
  have hlog : Nat.log 128 (zigzag x).toNat < k + 1 := Nat.log_lt_of_lt_pow' (Nat.succ_ne_zero k) h
  refine ⟨⟨?_, ?_⟩, varintLoop_marked _ _ _ (varintLoop_eq h)⟩
  · rw [hlength]
    refine ⟨by omega, by omega, ?_⟩
    apply (zigzag_lt_iff x (Nat.le_add_left 1 _)).mp
    exact Nat.lt_pow_succ_log_self (by decide) _
  · rintro k' ⟨hone, -, hfits⟩
    have hlt := (zigzag_lt_iff x hone).mpr hfits
    rw [hlength]
    exact Nat.log_lt_of_lt_pow' (by omega) hlt

/-! ## Reads of any bytes -/

section
variable (ba : ByteArray)

/-- A read takes what it was asked for or nothing. -/
theorem read_position (n : Nat) :
    ((read n).on ba).2.position = ba.position ∨ ((read n).on ba).2.position = ba.position + n := by
  by_cases hshort : getReadSize ba < n
  · rw [read_short hshort]
    exact Or.inl rfl
  · rw [read, on_bind_ok _ (on_get ba), if_neg hshort]
    cases hcur : ba.cur with
    | none => exact Or.inl rfl
    | some i =>
      by_cases hzero : n = 0
      · exact Or.inl (by simp [hzero])
      · simp only [hzero, if_false, on_bind, on_lift, on_pure]
        cases walk i (ba.nodes.drop i) (ba.position % ba.baseSize) n with
        | error e => exact Or.inl rfl
        | ok r =>
          obtain ⟨iovs, cur⟩ := r
          dsimp only
          cases gather ba.nodes iovs with
          | error e => exact Or.inl rfl
          | ok bytes => exact Or.inr rfl

theorem readFuint8_position :
    ((readFuint8).on ba).2.position = ba.position ∨ ((readFuint8).on ba).2.position = ba.position + 1 := by
  have hread := read_position ba 1
  rw [readFuint8, on_bind]
  split
  · next heq =>
    rw [heq] at hread
    exact hread
  · next heq =>
    rw [heq] at hread
    exact hread

end

/-- `x` takes `k` bytes at most, whether it returns or throws. -/
def Takes {α : Type} (k : Nat) (x : M α) : Prop :=
  ∀ ba : ByteArray, ba.position ≤ (x.on ba).2.position ∧ (x.on ba).2.position ≤ ba.position + k

theorem takes_pure {α : Type} (a : α) : Takes 0 (pure a) := fun _ => ⟨Nat.le_refl _, Nat.le_refl _⟩

theorem Takes.bind {α β : Type} {x : M α} {f : α → M β} {j k : Nat} (hx : Takes j x) (hf : ∀ a, Takes k (f a)) :
    Takes (j + k) (x >>= f) := by
  intro ba
  have hfirst := hx ba
  rw [on_bind]
  split
  · next a s heq =>
    rw [heq] at hfirst
    have hsecond := hf a s
    dsimp only at hfirst
    exact ⟨hfirst.1.trans hsecond.1, hsecond.2.trans (by omega)⟩
  · next e s heq =>
    rw [heq] at hfirst
    exact ⟨hfirst.1, hfirst.2.trans (Nat.add_le_add_left (Nat.le_add_right j k) _)⟩

theorem readFuint8_takes : Takes 1 readFuint8 := by
  intro ba
  rcases readFuint8_position ba with h | h <;> omega

theorem readVarint_takes (w : Nat) : ∀ (k i : Nat) (result : BitVec w), Takes k (readVarint w k i result) := by
  intro k
  induction k with
  | zero =>
    intro i result
    exact takes_pure result
  | succ k ih =>
    intro i result
    rw [readVarint, Nat.add_comm]
    apply readFuint8_takes.bind
    intro b ba
    split
    · exact ⟨Nat.le_refl _, Nat.le_add_right _ _⟩
    · exact ih _ _ ba

theorem readUint32_takes : Takes 5 readUint32 :=
  (readVarint_takes 32 5 0 0).bind fun v => takes_pure (UInt32.ofBitVec v)

theorem readUint64_takes : Takes 10 readUint64 :=
  (readVarint_takes 64 10 0 0).bind fun v => takes_pure (UInt64.ofBitVec v)

/-! ## The numbers of the source -/

/-- `x` writes `v` as `value` through a `tmp` of `limit` bytes: the loop that fills it stays inside, and the
bytes it puts there, which are as few as can be, are written. -/
def WritesMinimal (limit : Nat) (v : Int) (value : Nat) (x : (Nat → Nat → UInt8) → M Unit) : Prop :=
  ∃ bs, varintLoop limit value = .ok bs ∧ Minimal limit v bs ∧
    ∀ heap ba, Inv ba → ∃ ba', (x heap).on ba = (.ok (), ba') ∧ Inv ba' ∧
      ba'.position = ba.position + bs.length ∧ slice (content ba'.nodes) ba.position bs.length = bs

theorem writesMinimal_of_lt {w k : Nat} {x : BitVec (w + 1)} (h : (zigzag x).toNat < 128 ^ (k + 1)) :
    WritesMinimal (k + 1) x.toInt (zigzag x).toNat fun heap => writeVarint heap (k + 1) (zigzag x).toNat := by
  refine ⟨varintBytes (k + 1) (zigzag x).toNat, varintLoop_eq h, varint_minimal_of_lt h, ?_⟩
  intro heap ba hinv
  obtain ⟨ba', junk, hrun, hinv', -, -, hpos, hcontent, hroom, -⟩ :=
    write_content heap hinv (varintBytes (k + 1) (zigzag x).toNat)
  refine ⟨ba', (writeVarint_eq h).trans hrun, hinv', hpos, ?_⟩
  rw [hcontent, slice_splice_same hroom]

theorem writeInt32_minimal (v : Int32) :
    WritesMinimal 5 v.toInt (encodeZigzag32 v).toNat fun heap => writeInt32 heap v := by
  have hlt := (zigzag v.toBitVec).isLt
  exact writesMinimal_of_lt (w := 31) (k := 4) (x := v.toBitVec) (by omega)

theorem writeInt64_minimal (v : Int64) :
    WritesMinimal 10 v.toInt (encodeZigzag64 v).toNat fun heap => writeInt64 heap v := by
  have hlt := (zigzag v.toBitVec).isLt
  exact writesMinimal_of_lt (w := 63) (k := 9) (x := v.toBitVec) (by omega)

theorem encodeZigzag32_decodeZigzag32 (v : UInt32) : encodeZigzag32 (decodeZigzag32 v) = v :=
  congrArg UInt32.ofBitVec (zigzag_unzigzag (w := 31) v.toBitVec)

theorem encodeZigzag64_decodeZigzag64 (v : UInt64) : encodeZigzag64 (decodeZigzag64 v) = v :=
  congrArg UInt64.ofBitVec (zigzag_unzigzag (w := 63) v.toBitVec)

/-- **Signed numbers take as few bytes as can be**: `k` for a number of `7 k` bits, all but the last marked, and
none outside `tmp`; zigzag loses nothing either way; and what is read takes no more than 5 or 10 bytes. -/
theorem varint_minimal :
    (∀ v : Int64, WritesMinimal 10 v.toInt (encodeZigzag64 v).toNat fun heap => writeInt64 heap v) ∧
      (∀ v : Int32, WritesMinimal 5 v.toInt (encodeZigzag32 v).toNat fun heap => writeInt32 heap v) ∧
      (∀ v : Int64, decodeZigzag64 (encodeZigzag64 v) = v) ∧ (∀ v : UInt64, encodeZigzag64 (decodeZigzag64 v) = v) ∧
      (∀ v : Int32, decodeZigzag32 (encodeZigzag32 v) = v) ∧ (∀ v : UInt32, encodeZigzag32 (decodeZigzag32 v) = v) ∧
      Takes 5 readUint32 ∧ Takes 10 readUint64 :=
  ⟨writeInt64_minimal, writeInt32_minimal, decodeZigzag64_encodeZigzag64, encodeZigzag64_decodeZigzag64,
    decodeZigzag32_encodeZigzag32, encodeZigzag32_decodeZigzag32, readUint32_takes, readUint64_takes⟩

end Sylar.ByteArray
