import Mathlib.Data.List.Basic
import Mathlib.Data.List.GetD
import Sylar.Lib.Bits
import Sylar.Address.IPv4

/- The prefix arithmetic of `IPv6Address` in `sylar/address.cc`.

   The three functions work on the byte the prefix ends in, with the mask of `CreateMask`,
   and on the whole bytes behind or before it. That byte is `s6_addr[prefix_len / 8]`, which
   for a prefix of 128 bits is none of the sixteen; and `networkAddress` keeps with `&` the
   bits the other two take for the rest. -/
namespace Sylar.Address
open Sylar.Lib Sylar.ByteArray

/-- `sockaddr_in6`. -/
structure IPv6Address where
  family : UInt16
  port : BitVec 16
  flowinfo : BitVec 32
  s6_addr : List UInt8
  scope_id : BitVec 32
  sixteen : s6_addr.length = 16
  deriving DecidableEq, Repr

def AF_INET6 : UInt16 := 10

/-- `IPv6Address(address, port)`. -/
def IPv6Address.new (address : List UInt8) (port : BitVec 16) (sixteen : address.length = 16) : IPv6Address where
  family := AF_INET6
  port := byteswap (n := 2) port
  flowinfo := 0
  s6_addr := address
  scope_id := 0
  sixteen := sixteen

/-- `for (; i < stop; ++i) bytes[i] = v`. -/
def fillLoop (v : UInt8) (stop i : Nat) (bytes : List UInt8) : List UInt8 :=
  if i < stop then fillLoop v stop (i + 1) (bytes.set i v) else bytes
termination_by stop - i

@[simp] theorem length_fillLoop (v : UInt8) (stop i : Nat) (bytes : List UInt8) :
    (fillLoop v stop i bytes).length = bytes.length := by
  fun_induction fillLoop v stop i bytes with
  | case1 i bytes _ ih => rw [ih, List.length_set]
  | case2 i bytes _ => rfl

/-- `CreateMask<uint8_t>`. -/
def createMask8 (bits : UInt32) : Option UInt8 := (createMask 1 bits).map UInt8.ofBitVec

section
variable (a : IPv6Address) (prefix_len : UInt32)

/-- The byte of the prefix's end combined with the mask, and `v` in the bytes behind it. -/
def IPv6Address.withRest (combine : UInt8 → UInt8 → UInt8) (v : UInt8) : Made IPv6Address :=
  let i := (prefix_len / 8).toNat
  if i < 16 then
    match createMask8 (prefix_len % 8) with
    | none => .undefined
    | some mask => .made { a with
        s6_addr := fillLoop v 16 (i + 1) (a.s6_addr.set i (combine (a.s6_addr.getD i 0) mask))
        sixteen := by rw [length_fillLoop, List.length_set, a.sixteen] }
  else .undefined

def IPv6Address.broadcastAddress : Made IPv6Address := a.withRest prefix_len (· ||| ·) 0xff

def IPv6Address.networkAddress : Made IPv6Address := a.withRest prefix_len (· &&& ·) 0x00

def IPv6Address.subnetMask : Made IPv6Address :=
  let i := (prefix_len / 8).toNat
  if i < 16 then
    match createMask8 (prefix_len % 8) with
    | none => .undefined
    | some mask => .made {
        family := AF_INET6
        port := 0
        flowinfo := 0
        s6_addr := fillLoop 0xff i 0 ((List.replicate 16 0).set i (~~~mask))
        scope_id := 0
        sixteen := by rw [length_fillLoop, List.length_set, List.length_replicate] }
  else .undefined

/-- Bit `j` of the address, the first one first. -/
def IPv6Address.bit (j : Nat) : Bool := (a.s6_addr.getD (j / 8) 0).toNat.testBit (7 - j % 8)

end

/-! ## Bytes -/

theorem getD_fillLoop (v : UInt8) (stop i : Nat) (bytes : List UInt8) {k : Nat} (hk : k < bytes.length) :
    (fillLoop v stop i bytes).getD k 0 = if i ≤ k ∧ k < stop then v else bytes.getD k 0 := by
  fun_induction fillLoop v stop i bytes with
  | case1 i bytes h ih =>
    rw [ih (by rwa [List.length_set])]
    by_cases hik : k = i
    · subst hik
      simp [h, hk]
    · have hset : (bytes.set i v).getD k 0 = bytes.getD k 0 := by
        simp [List.getD_eq_getElem?_getD, List.getElem?_set_ne (Ne.symm hik)]
      rw [hset]
      by_cases hlt : i + 1 ≤ k ∧ k < stop
      · rw [if_pos hlt, if_pos (by omega)]
      · rw [if_neg hlt, if_neg (by omega)]
  | case2 i bytes h => rw [if_neg (by omega)]

theorem getD_set (bytes : List UInt8) (i : Nat) (v : UInt8) {k : Nat} (hk : k < bytes.length) :
    (bytes.set i v).getD k 0 = if k = i then v else bytes.getD k 0 := by
  by_cases hik : k = i
  · subst hik
    simp [hk]
  · simp [List.getD_eq_getElem?_getD, List.getElem?_set_ne (Ne.symm hik), hik]

/-- The mask of the byte is always defined. -/
theorem createMask8_rest (p : UInt32) :
    createMask8 (p % 8) = some (UInt8.ofNat (2 ^ (8 - p.toNat % 8) - 1)) := by
  have hrest : (p % 8).toNat = p.toNat % 8 := UInt32.toNat_mod p 8
  have hlt : p.toNat % 8 < 8 := Nat.mod_lt _ (by decide)
  rw [createMask8, createMask_of_le (by decide) (by omega), if_pos (by omega), hrest]
  rfl

theorem testBit_mask8 (r : Nat) {t : Nat} (ht : t < 8) :
    (UInt8.ofNat (2 ^ (8 - r) - 1)).toNat.testBit t = decide (t < 8 - r) := by
  rw [UInt8.toNat_ofNat', Nat.testBit_mod_two_pow, decide_eq_true ht, Bool.true_and, Nat.testBit_two_pow_sub_one]

/-! ## Prefixes -/

section
variable (a : IPv6Address) {p : UInt32}

theorem prefix_index (p : UInt32) : (p / 8).toNat = p.toNat / 8 := UInt32.toNat_div p 8

/-- The bytes of `networkAddress` and `broadcastAddress`. -/
theorem withRest_made (combine : UInt8 → UInt8 → UInt8) (v : UInt8) (hp : p.toNat < 128) :
    ∃ b, a.withRest p combine v = .made b ∧ ∀ k < 16, b.s6_addr.getD k 0 =
      if k < p.toNat / 8 then a.s6_addr.getD k 0
      else if k = p.toNat / 8 then combine (a.s6_addr.getD k 0) (UInt8.ofNat (2 ^ (8 - p.toNat % 8) - 1))
      else v := by
  have hindex : p.toNat / 8 < 16 := by omega
  unfold IPv6Address.withRest
  simp only [prefix_index, if_pos hindex, createMask8_rest]
  refine ⟨_, rfl, ?_⟩
  intro k hk
  have hlen : k < (a.s6_addr.set (p.toNat / 8)
      (combine (a.s6_addr.getD (p.toNat / 8) 0) (UInt8.ofNat (2 ^ (8 - p.toNat % 8) - 1)))).length := by
    rw [List.length_set, a.sixteen]
    exact hk
  rw [getD_fillLoop _ _ _ _ hlen, getD_set _ _ _ (by rw [a.sixteen]; exact hk)]
  by_cases hlt : k < p.toNat / 8
  · rw [if_pos hlt, if_neg (by omega), if_neg (by omega)]
  · rw [if_neg hlt]
    by_cases heq : k = p.toNat / 8
    · rw [if_pos heq, if_neg (by omega), if_pos heq, heq]
    · rw [if_pos (by omega), if_neg heq]

theorem subnetMask_made (hp : p.toNat < 128) :
    ∃ b, IPv6Address.subnetMask p = .made b ∧ ∀ k < 16, b.s6_addr.getD k 0 =
      if k < p.toNat / 8 then 0xff
      else if k = p.toNat / 8 then ~~~(UInt8.ofNat (2 ^ (8 - p.toNat % 8) - 1))
      else 0 := by
  have hindex : p.toNat / 8 < 16 := by omega
  unfold IPv6Address.subnetMask
  simp only [prefix_index, if_pos hindex, createMask8_rest]
  refine ⟨_, rfl, ?_⟩
  intro k hk
  rw [getD_fillLoop _ _ _ _ (by rw [List.length_set, List.length_replicate]; exact hk),
    getD_set _ _ _ (by rw [List.length_replicate]; exact hk)]
  by_cases hlt : k < p.toNat / 8
  · rw [if_pos ⟨by omega, hlt⟩, if_pos hlt]
  · have hzero : ∀ k < 16, (List.replicate 16 (0 : UInt8)).getD k 0 = 0 := by decide
    rw [if_neg (by omega), if_neg hlt, hzero k hk]

/-- The broadcast address is right as long as the prefix ends within the address. -/
theorem broadcast_right (hp : p.toNat < 128) :
    ∃ b, a.broadcastAddress p = .made b ∧
      ∀ j < 128, b.bit j = (decide (p.toNat ≤ j) || a.bit j) := by
  obtain ⟨b, hb, hbytes⟩ := withRest_made a (· ||| ·) 0xff hp
  refine ⟨b, hb, ?_⟩
  intro j hj
  have ht : 7 - j % 8 < 8 := by omega
  rw [IPv6Address.bit, hbytes (j / 8) (by omega), IPv6Address.bit]
  by_cases hlt : j / 8 < p.toNat / 8
  · rw [if_pos hlt, decide_eq_false (by omega), Bool.false_or]
  · rw [if_neg hlt]
    by_cases heq : j / 8 = p.toNat / 8
    · rw [if_pos heq, UInt8.toNat_or, Nat.testBit_or, testBit_mask8 _ ht, Bool.or_comm]
      congr 1
      rw [decide_eq_decide]
      omega
    · have hff : ∀ t < 8, (0xff : UInt8).toNat.testBit t = true := by decide
      rw [if_neg heq, hff _ ht, decide_eq_true (by omega), Bool.true_or]

theorem subnet_right (hp : p.toNat < 128) :
    ∃ b, IPv6Address.subnetMask p = .made b ∧ ∀ j < 128, b.bit j = decide (j < p.toNat) := by
  obtain ⟨b, hb, hbytes⟩ := subnetMask_made hp
  refine ⟨b, hb, ?_⟩
  intro j hj
  have ht : 7 - j % 8 < 8 := by omega
  have hff : ∀ t < 8, (0xff : UInt8).toNat.testBit t = true := by decide
  rw [IPv6Address.bit, hbytes (j / 8) (by omega)]
  by_cases hlt : j / 8 < p.toNat / 8
  · rw [if_pos hlt, hff _ ht, decide_eq_true (by omega)]
  · rw [if_neg hlt]
    by_cases heq : j / 8 = p.toNat / 8
    · have hnot : ∀ (m : UInt8) (t : Nat), t < 8 → (~~~m).toNat.testBit t = !m.toNat.testBit t := by
        intro m t hbit
        rw [← UInt8.toNat_toBitVec, UInt8.toBitVec_not, BitVec.testBit_toNat, BitVec.getLsbD_not,
          decide_eq_true hbit, Bool.true_and]
        rfl
      rw [if_pos heq, hnot _ _ ht, testBit_mask8 _ ht, ← decide_not, decide_eq_decide]
      omega
    · rw [if_neg heq, decide_eq_false (by omega)]
      exact Nat.zero_testBit _

/-- What `networkAddress` makes of the bits: behind the whole bytes of the prefix it keeps the end of the
next byte. -/
theorem network_bits (hp : p.toNat < 128) :
    ∃ b, a.networkAddress p = .made b ∧ ∀ j < 128, b.bit j =
      (decide (j / 8 < p.toNat / 8 ∨ (j / 8 = p.toNat / 8 ∧ p.toNat ≤ j)) && a.bit j) := by
  obtain ⟨b, hb, hbytes⟩ := withRest_made a (· &&& ·) 0x00 hp
  refine ⟨b, hb, ?_⟩
  intro j hj
  have ht : 7 - j % 8 < 8 := by omega
  rw [IPv6Address.bit, hbytes (j / 8) (by omega), IPv6Address.bit]
  by_cases hlt : j / 8 < p.toNat / 8
  · rw [if_pos hlt, decide_eq_true (Or.inl hlt), Bool.true_and]
  · rw [if_neg hlt]
    by_cases heq : j / 8 = p.toNat / 8
    · rw [if_pos heq, UInt8.toNat_and, Nat.testBit_and, testBit_mask8 _ ht, Bool.and_comm]
      congr 1
      rw [decide_eq_decide]
      omega
    · rw [if_neg heq, decide_eq_false (by omega), Bool.false_and]
      exact Nat.zero_testBit _

/-- What is promised of a prefix. -/
def IPv6Address.PrefixRight (p : UInt32) : Prop :=
  ∃ network broadcast mask,
    a.networkAddress p = .made network ∧ a.broadcastAddress p = .made broadcast ∧
    IPv6Address.subnetMask p = .made mask ∧
    ∀ j < 128, network.bit j = (decide (j < p.toNat) && a.bit j) ∧
      broadcast.bit j = (decide (p.toNat ≤ j) || a.bit j) ∧ mask.bit j = decide (j < p.toNat)

end

/-- **IPv6 prefixes** of up to 128 bits are right, with every access inside the address, if and only if the
prefix ends within the address, in a byte that is 0. -/
theorem ipv6_prefix_iff (a : IPv6Address) (p : UInt32) (hp : p.toNat ≤ 128) :
    a.PrefixRight p ↔ p.toNat < 128 ∧ a.s6_addr.getD (p.toNat / 8) 0 = 0 := by
  constructor
  · rintro ⟨network, _, _, hnetwork, -, -, hbits⟩
    have hlt : p.toNat < 128 := by
      by_contra hge
      have hindex : ¬ p.toNat / 8 < 16 := by omega
      have hundefined : a.networkAddress p = .undefined := by
        unfold IPv6Address.networkAddress IPv6Address.withRest
        simp only [prefix_index, if_neg hindex]
      cases hundefined.symm.trans hnetwork
    refine ⟨hlt, ?_⟩
    obtain ⟨b, hb, hkept⟩ := network_bits a hlt
    cases hb.symm.trans hnetwork
    -- a bit of this byte is kept by both or by neither only when it is not set
    apply byte_ext
    intro t ht
    have hj : (p.toNat / 8 * 8 + (7 - t)) / 8 = p.toNat / 8 := by omega
    have hjt : 7 - (p.toNat / 8 * 8 + (7 - t)) % 8 = t := by omega
    have hbit : a.bit (p.toNat / 8 * 8 + (7 - t)) = (a.s6_addr.getD (p.toNat / 8) 0).toNat.testBit t := by
      rw [IPv6Address.bit, hj, hjt]
    have hboth := (hkept (p.toNat / 8 * 8 + (7 - t)) (by omega)).symm.trans
      (hbits (p.toNat / 8 * 8 + (7 - t)) (by omega)).1
    rw [hbit, hj] at hboth
    rw [UInt8.toNat_zero, Nat.zero_testBit]
    by_cases hless : p.toNat / 8 * 8 + (7 - t) < p.toNat
    · rw [decide_eq_true hless, decide_eq_false (by omega), Bool.false_and, Bool.true_and] at hboth
      exact hboth.symm
    · rw [decide_eq_false hless, decide_eq_true (Or.inr ⟨rfl, by omega⟩), Bool.true_and, Bool.false_and] at hboth
      exact hboth
  · rintro ⟨hlt, hzero⟩
    obtain ⟨network, hnetwork, hkept⟩ := network_bits a hlt
    obtain ⟨broadcast, hbroadcast, hset⟩ := broadcast_right a hlt
    obtain ⟨mask, hmask, hlead⟩ := subnet_right hlt
    refine ⟨network, broadcast, mask, hnetwork, hbroadcast, hmask, fun j hj => ⟨?_, hset j hj, hlead j hj⟩⟩
    rw [hkept j hj]
    by_cases hbyte : j / 8 = p.toNat / 8
    · have hclear : a.bit j = false := by
        rw [IPv6Address.bit, hbyte, hzero]
        exact Nat.zero_testBit _
      rw [hclear, Bool.and_false, Bool.and_false]
    · congr 1
      rw [decide_eq_decide]
      omega

/-- `2001:db8:0:7::`, of which the first 64 bits are the network. -/
theorem ipv6_prefix_site :
    (IPv6Address.new [0x20, 0x01, 0x0d, 0xb8, 0, 0, 0, 7, 0, 0, 0, 0, 0, 0, 0, 0] 80 rfl).PrefixRight 64 :=
  (ipv6_prefix_iff _ 64 (by decide)).mpr ⟨by decide, by decide⟩

/-- Of the first four bits of `20 01 ...` the network of four bits has lost the one that is set, and 128 bits
end in the byte behind the address. -/
theorem ipv6_prefix_wrong :
    let site := IPv6Address.new [0x20, 0x01, 0x0d, 0xb8, 0, 0, 0, 7, 0, 0, 0, 0, 0, 0, 0, 0] 80 rfl
    site.bit 2 = true ∧ (∃ network, site.networkAddress 4 = .made network ∧ network.bit 2 = false) ∧
      site.broadcastAddress 128 = .undefined ∧
      ¬ ∀ (a : IPv6Address) (p : UInt32), p.toNat ≤ 128 → a.PrefixRight p := by
  intro site
  refine ⟨by decide, ?_, by decide, ?_⟩
  · obtain ⟨network, hmade, hbits⟩ := network_bits site (p := 4) (by decide)
    refine ⟨network, hmade, ?_⟩
    rw [hbits 2 (by decide)]
    decide
  · intro h
    have hzero := ((ipv6_prefix_iff site 4 (by decide)).mp (h site 4 (by decide))).2
    exact absurd hzero (by decide)

end Sylar.Address
