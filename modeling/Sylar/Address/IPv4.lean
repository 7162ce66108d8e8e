import Mathlib.Data.List.Basic
import Sylar.Lib.Bits
import Sylar.ByteArray.Typed

/- `CreateMask` and the prefix arithmetic of `IPv4Address` in `sylar/address.cc`.

   The host is little-endian, so `byteswapOnLittleEndian` swaps the bytes; `s_addr` and
   `sin_port` are kept in the order of the network. What moves the bytes moves the bits
   (`getLsbD_byteswap`) and so goes through `&`, `|` and `~`.

   `1 << n` is an `int`: from 31 on it is not one, and shifting by 32 or more is undefined
   whatever comes out. That is where the prefixes 0 and 1 fall, and in `subnetMask`, which
   does not look at the length, all above 32. -/
namespace Sylar.Address
open Sylar.Lib Sylar.ByteArray

/-- What one of the functions comes to. -/
inductive Made (α : Type) where
  /-- It does what the language leaves undefined. -/
  | undefined
  | nullptr
  | made (a : α)
  deriving DecidableEq, Repr

/-- `(1 << (sizeof(T) * 8 - bits)) - 1` for a `T` of `n` bytes, where it is defined. -/
def createMask (n : Nat) (bits : UInt32) : Option (BitVec (8 * n)) :=
  let count : UInt64 := UInt64.ofNat (n * 8) - bits.toUInt64
  -- `1 << 31` is no `int`, and the least one minus 1 is none either
  if count.toNat < 31 then some (BitVec.ofNat (8 * n) (2 ^ count.toNat - 1)) else none

/-- `sockaddr_in`. -/
structure IPv4Address where
  family : UInt16
  port : BitVec 16
  s_addr : BitVec 32
  deriving DecidableEq, Repr

def AF_INET : UInt16 := 2

/-- `IPv4Address(address, port)`. -/
def IPv4Address.new (address : BitVec 32) (port : BitVec 16) : IPv4Address where
  family := AF_INET
  port := byteswap (n := 2) port
  s_addr := byteswap (n := 4) address

section
variable (a : IPv4Address) (prefix_len : UInt32)

def IPv4Address.getPort : BitVec 16 := byteswap (n := 2) a.port

def IPv4Address.broadcastAddress : Made IPv4Address :=
  if prefix_len > 32 then .nullptr
  else
    match createMask 4 prefix_len with
    | none => .undefined
    | some mask => .made { a with s_addr := a.s_addr ||| byteswap (n := 4) mask }

def IPv4Address.networkAddress : Made IPv4Address :=
  if prefix_len > 32 then .nullptr
  else
    match createMask 4 prefix_len with
    | none => .undefined
    | some mask => .made { a with s_addr := a.s_addr &&& byteswap (n := 4) (~~~mask) }

/-- The length is not tested here. -/
def IPv4Address.subnetMask : Made IPv4Address :=
  match createMask 4 prefix_len with
  | none => .undefined
  | some mask => .made { family := AF_INET, port := 0, s_addr := ~~~(byteswap (n := 4) mask) }

/-- The address as a number, its first bit the highest. -/
def IPv4Address.address : BitVec 32 := byteswap (n := 4) a.s_addr

end

/-! ## Bytes and bits -/

section
variable {n : Nat}

theorem getLsbD_byteswap (v : BitVec (8 * n)) {i : Nat} (hi : i < 8 * n) :
    (byteswap v).getLsbD i = v.getLsbD (8 * (n - 1 - i / 8) + i % 8) := by
  rw [byteswap, BitVec.getLsbD_ofNat, decide_eq_true hi, Bool.true_and, testBit_swap _ hi]
  rfl

theorem byteswap_and (v w : BitVec (8 * n)) : byteswap (v &&& w) = byteswap v &&& byteswap w := by
  apply BitVec.eq_of_getLsbD_eq
  intro i hi
  simp only [BitVec.getLsbD_and, getLsbD_byteswap _ hi]

theorem byteswap_or (v w : BitVec (8 * n)) : byteswap (v ||| w) = byteswap v ||| byteswap w := by
  apply BitVec.eq_of_getLsbD_eq
  intro i hi
  simp only [BitVec.getLsbD_or, getLsbD_byteswap _ hi]

theorem byteswap_not (v : BitVec (8 * n)) : byteswap (~~~v) = ~~~(byteswap v) := by
  apply BitVec.eq_of_getLsbD_eq
  intro i hi
  have hmoved : 8 * (n - 1 - i / 8) + i % 8 < 8 * n := by omega
  simp only [BitVec.getLsbD_not, getLsbD_byteswap _ hi, hi, hmoved]

theorem byteswap_byteswap (v : BitVec (8 * n)) : byteswap (byteswap v) = v := by
  apply BitVec.eq_of_getLsbD_eq
  intro i hi
  rw [getLsbD_byteswap _ hi, getLsbD_byteswap _ (by omega)]
  congr 1
  omega

end

/-! ## The mask -/

/-- How far the 1 is shifted. -/
theorem shift_toNat {n : Nat} {bits : UInt32} (hn : 8 * n < 2 ^ 64) (hbits : bits.toNat ≤ 8 * n) :
    (UInt64.ofNat (n * 8) - bits.toUInt64).toNat = 8 * n - bits.toNat := by
  have hwidth : (UInt64.ofNat (n * 8)).toNat = 8 * n := by
    rw [UInt64.toNat_ofNat_of_lt' (show n * 8 < 2 ^ 64 by omega), Nat.mul_comm]
  rw [UInt64.toNat_sub_of_le, hwidth, UInt32.toNat_toUInt64]
  rw [UInt64.le_iff_toNat_le, hwidth, UInt32.toNat_toUInt64]
  exact hbits

theorem createMask_of_le {n : Nat} {bits : UInt32} (hn : 8 * n < 2 ^ 64) (hbits : bits.toNat ≤ 8 * n) :
    createMask n bits =
      if 8 * n - bits.toNat < 31 then some (BitVec.ofNat (8 * n) (2 ^ (8 * n - bits.toNat) - 1)) else none := by
  rw [createMask, shift_toNat hn hbits]

/-- The low bits are set that the prefix leaves over. -/
theorem getLsbD_mask {w k i : Nat} (hi : i < w) : (BitVec.ofNat w (2 ^ k - 1)).getLsbD i = decide (i < k) := by
  rw [BitVec.getLsbD_ofNat, decide_eq_true hi, Bool.true_and, Nat.testBit_two_pow_sub_one]

/-- The mask of an IPv4 prefix. -/
theorem createMask_four (bits : UInt32) :
    createMask 4 bits =
      if 2 ≤ bits.toNat ∧ bits.toNat ≤ 32 then some (BitVec.ofNat 32 (2 ^ (32 - bits.toNat) - 1)) else none := by
  by_cases hbits : bits.toNat ≤ 32
  · rw [createMask_of_le (by decide) hbits]
    by_cases htwo : 2 ≤ bits.toNat
    · rw [if_pos (by omega), if_pos ⟨htwo, hbits⟩]
    · rw [if_neg (by omega), if_neg (by omega)]
  · -- the count wraps around
    have hcount : 31 ≤ (UInt64.ofNat (4 * 8) - bits.toUInt64).toNat := by
      have hlt := bits.toNat_lt
      have hwidth : (UInt64.ofNat (4 * 8)).toNat = 32 := by decide
      rw [UInt64.toNat_sub, UInt32.toNat_toUInt64, hwidth]
      omega
    rw [createMask, if_neg (by omega), if_neg (by omega)]

/-! ## Prefixes -/

/-- What is promised of a prefix: up to 32 the network, broadcast and mask are what they should be, above
there is none of them. -/
def IPv4Address.PrefixRight (a : IPv4Address) (p : UInt32) : Prop :=
  if p.toNat ≤ 32 then
    ∃ network broadcast mask,
      a.networkAddress p = .made network ∧ a.broadcastAddress p = .made broadcast ∧
      IPv4Address.subnetMask p = .made mask ∧
      (∀ i < 32, network.address.getLsbD i = (decide (32 - p.toNat ≤ i) && a.address.getLsbD i)) ∧
      (∀ i < 32, broadcast.address.getLsbD i = (decide (i < 32 - p.toNat) || a.address.getLsbD i)) ∧
      (∀ i < 32, mask.address.getLsbD i = decide (32 - p.toNat ≤ i)) ∧
      network.getPort = a.getPort ∧ broadcast.getPort = a.getPort ∧
      network.address = a.address &&& mask.address ∧ broadcast.address = network.address ||| ~~~mask.address
  else a.networkAddress p = .nullptr ∧ a.broadcastAddress p = .nullptr ∧ IPv4Address.subnetMask p = .nullptr

theorem prefixRight_of_defined (a : IPv4Address) {p : UInt32} (htwo : 2 ≤ p.toNat) (hp : p.toNat ≤ 32) :
    a.PrefixRight p := by
  have hmask := createMask_four p
  rw [if_pos ⟨htwo, hp⟩] at hmask
  have hle : ¬ p > 32 := by
    intro hgt
    have hlt := UInt32.lt_iff_toNat_lt.mp hgt
    exact absurd hlt (by simpa using hp)
  generalize hm : BitVec.ofNat 32 (2 ^ (32 - p.toNat) - 1) = m at hmask
  have hbits : ∀ i < 32, m.getLsbD i = decide (i < 32 - p.toNat) := by
    intro i hi
    rw [← hm, getLsbD_mask hi]
  have hkept : ∀ i < 32, (~~~m).getLsbD i = decide (32 - p.toNat ≤ i) := by
    intro i hi
    rw [BitVec.getLsbD_not, hbits i hi, decide_eq_true hi, Bool.true_and, ← decide_not, decide_eq_decide]
    omega
  have hnetwork : byteswap (n := 4) (a.s_addr &&& byteswap (n := 4) (~~~m)) = a.address &&& ~~~m := by
    rw [byteswap_and, byteswap_byteswap]
    rfl
  have hbroadcast : byteswap (n := 4) (a.s_addr ||| byteswap (n := 4) m) = a.address ||| m := by
    rw [byteswap_or, byteswap_byteswap]
    rfl
  have hsubnet : byteswap (n := 4) (~~~(byteswap (n := 4) m)) = ~~~m := by
    rw [byteswap_not, byteswap_byteswap]
  rw [IPv4Address.PrefixRight, if_pos hp]
  refine ⟨{ a with s_addr := a.s_addr &&& byteswap (n := 4) (~~~m) },
    { a with s_addr := a.s_addr ||| byteswap (n := 4) m },
    { family := AF_INET, port := 0, s_addr := ~~~(byteswap (n := 4) m) }, ?_, ?_, ?_, ?_, ?_, ?_, rfl, rfl, ?_, ?_⟩
  · rw [IPv4Address.networkAddress, if_neg hle, hmask]
  · rw [IPv4Address.broadcastAddress, if_neg hle, hmask]
  · rw [IPv4Address.subnetMask, hmask]
  · intro i hi
    show (byteswap (n := 4) (a.s_addr &&& byteswap (n := 4) (~~~m))).getLsbD i = _
    rw [hnetwork, BitVec.getLsbD_and, hkept i hi, Bool.and_comm]
  · intro i hi
    show (byteswap (n := 4) (a.s_addr ||| byteswap (n := 4) m)).getLsbD i = _
    rw [hbroadcast, BitVec.getLsbD_or, hbits i hi, Bool.or_comm]
  · intro i hi
    show (byteswap (n := 4) (~~~(byteswap (n := 4) m))).getLsbD i = _
    rw [hsubnet, hkept i hi]
  · show byteswap (n := 4) (a.s_addr &&& byteswap (n := 4) (~~~m)) = a.address &&& byteswap (n := 4) (~~~(byteswap (n := 4) m))
    rw [hnetwork, hsubnet]
  · show byteswap (n := 4) (a.s_addr ||| byteswap (n := 4) m) =
      byteswap (n := 4) (a.s_addr &&& byteswap (n := 4) (~~~m)) ||| ~~~byteswap (n := 4) (~~~(byteswap (n := 4) m))
    rw [hbroadcast, hnetwork, hsubnet, BitVec.not_not]
    -- what the mask clears it sets again
    apply BitVec.eq_of_getLsbD_eq
    intro i hi
    simp only [BitVec.getLsbD_or, BitVec.getLsbD_and, BitVec.getLsbD_not, hi, decide_true, Bool.true_and]
    cases a.address.getLsbD i <;> cases m.getLsbD i <;> rfl

/-- **IPv4 prefixes** are right, with every shift defined, if and only if they are between 2 and 32 bits
long. -/
theorem ipv4_prefix_iff (a : IPv4Address) (p : UInt32) : a.PrefixRight p ↔ 2 ≤ p.toNat ∧ p.toNat ≤ 32 := by
  constructor
  · intro h
    by_contra hout
    have hsubnet : IPv4Address.subnetMask p = .undefined := by
      rw [IPv4Address.subnetMask, createMask_four, if_neg hout]
    unfold IPv4Address.PrefixRight at h
    split at h
    · obtain ⟨_, _, _, _, _, hmade, _⟩ := h
      cases hsubnet.symm.trans hmade
    · cases hsubnet.symm.trans h.2.2
  · rintro ⟨htwo, hp⟩
    exact prefixRight_of_defined a htwo hp

/-- For no prefix at all the shift is by 32, for one bit it leaves `int`, and `subnetMask(33)` shifts by
2^64 - 1. -/
theorem ipv4_prefix_undefined :
    (IPv4Address.new 0xC0A80001 80).networkAddress 0 = .undefined ∧
      (IPv4Address.new 0xC0A80001 80).broadcastAddress 1 = .undefined ∧
      IPv4Address.subnetMask 33 = .undefined ∧ ¬ ∀ (a : IPv4Address) (p : UInt32), a.PrefixRight p := by
  refine ⟨by decide, by decide, by decide, ?_⟩
  intro h
  exact absurd ((ipv4_prefix_iff (IPv4Address.new 0xC0A80001 80) 0).mp (h _ 0)) (by decide)

end Sylar.Address
