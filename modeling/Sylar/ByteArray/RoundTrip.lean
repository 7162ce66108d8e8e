import Mathlib.Data.List.Basic
import Mathlib.Data.Nat.Log
import Sylar.ByteArray.Reach

/- Numbers that are written are read back.

   `Behind ba p bs`: the bytes `bs` were written from position `p` on and the
   position stands behind them. `Ahead ba bs`: the next bytes to read are `bs`.
   A write takes `Behind` to `Behind` (`write_behind`), going back to `p` turns
   `Behind` into `Ahead` (`setPosition_ahead`), and a read takes the bytes it
   asked for off the front of `Ahead` (`read_ahead`). Each typed write is the
   write of a byte string that its read consumes exactly, so a list of them reads
   back by induction (`numeric_round_trip`). -/
namespace Sylar.ByteArray
open Sylar.Lib

/-! ## Bytes behind and ahead of the position -/

/-- `bs` stands at `p`, and the position behind it. -/
structure Behind (ba : ByteArray) (p : Nat) (bs : List UInt8) : Prop where
  inv : Inv ba
  position_eq : ba.position = p + bs.length
  read_back : slice (content ba.nodes) p bs.length = bs

/-- The next bytes are `bs`. -/
structure Ahead (ba : ByteArray) (bs : List UInt8) : Prop where
  inv : Inv ba
  room : ba.position + bs.length ≤ ba.size
  front : slice (content ba.nodes) ba.position bs.length = bs

/-- `n` bytes were read. -/
structure Moved (ba : ByteArray) (n : Nat) (ba' : ByteArray) : Prop where
  position_eq : ba'.position = ba.position + n
  capacity_eq : ba'.capacity = ba.capacity
  endian_eq : ba'.endian = ba.endian

theorem Moved.trans {a b c : ByteArray} {m n : Nat} (h₁ : Moved a m b) (h₂ : Moved b n c) :
    Moved a (m + n) c :=
  ⟨by rw [h₂.position_eq, h₁.position_eq, Nat.add_assoc], h₂.capacity_eq.trans h₁.capacity_eq,
    h₂.endian_eq.trans h₁.endian_eq⟩

/-- Bytes were written: the chain grew only if it had to, and then by less than a block
beyond the new position. -/
structure Grown (ba ba' : ByteArray) : Prop where
  base_eq : ba'.baseSize = ba.baseSize
  endian_eq : ba'.endian = ba.endian
  position_le : ba.position ≤ ba'.position
  capacity_le : ba.capacity ≤ ba'.capacity
  tight : ba'.capacity = ba.capacity ∨ ba'.capacity < ba'.position + ba.baseSize

theorem Grown.refl (ba : ByteArray) : Grown ba ba :=
  ⟨rfl, rfl, Nat.le_refl _, Nat.le_refl _, Or.inl rfl⟩

theorem Grown.trans {a b c : ByteArray} (h₁ : Grown a b) (h₂ : Grown b c) : Grown a c := by
  have hb := h₁.base_eq
  have hp := h₂.position_le
  refine ⟨h₂.base_eq.trans hb, h₂.endian_eq.trans h₁.endian_eq, Nat.le_trans h₁.position_le hp,
    Nat.le_trans h₁.capacity_le h₂.capacity_le, ?_⟩
  have ht₁ := h₁.tight
  have ht₂ := h₂.tight
  omega

section
variable {heap : Nat → Nat → UInt8} {ba : ByteArray}

theorem Inv.behind (h : Inv ba) : Behind ba ba.position [] :=
  ⟨h, rfl, by simp⟩

theorem Inv.abs_capacity (h : Inv ba) : (abs ba).capacity = ba.capacity := h.content_len

theorem Inv.abs_position_le (h : Inv ba) : (abs ba).position ≤ (abs ba).capacity := by
  rw [h.abs_capacity]; exact Nat.le_trans h.position_le h.size_le

/-- What a write leaves: the bytes written, at the position, in a chain that grew only if
it had to and then by less than a block beyond what was needed. -/
theorem write_content (heap : Nat → Nat → UInt8) (h : Inv ba) (buf : List UInt8) :
    ∃ ba' junk, (write heap buf).on ba = (.ok (), ba') ∧ Inv ba' ∧
      ba'.baseSize = ba.baseSize ∧ ba'.endian = ba.endian ∧
      ba'.position = ba.position + buf.length ∧
      content ba'.nodes = splice (content ba.nodes ++ junk) ba.position buf ∧
      ba.position + buf.length ≤ (content ba.nodes ++ junk).length ∧
      ba'.capacity = (content ba.nodes ++ junk).length ∧
      (ba'.capacity = ba.capacity ∨ ba'.capacity < ba'.position + ba.baseSize) := by
  obtain ⟨ba', hrun, hs⟩ := write_spec heap h buf
  have hpos : ba'.position = ba.position + buf.length := congrArg Flat.position hs.abs_eq
  have hroom := units_room (n := buf.length) h.base_pos h.abs_position_le
  have hlen := grow_length heap (abs ba) ba.baseSize buf.length
  have hc : content ba'.nodes = splice ((abs ba).grow heap ba.baseSize buf.length).bytes
      ba.position buf := congrArg Flat.bytes hs.abs_eq
  have hcap : ba'.capacity = ((abs ba).grow heap ba.baseSize buf.length).bytes.length := by
    rw [← hs.inv.content_len, hc, splice_length (by rw [hlen]; exact hroom)]
  refine ⟨ba', _, hrun, hs.inv, hs.base_eq, hs.endian_eq, hpos, hc, by rw [← hlen] at hroom; exact hroom,
    hcap, ?_⟩
  rw [hlen, h.abs_capacity] at hcap
  by_cases hfull : ba.capacity < ba.position + buf.length
  · right
    have htight := units_tight (n := buf.length) h.base_pos h.abs_position_le
      (by rw [h.abs_capacity]; exact hfull)
    rw [h.abs_capacity, show (abs ba).position = ba.position from rfl] at htight
    omega
  · left
    rw [hcap, units_zero h.base_pos (by rw [h.abs_capacity]; exact Nat.le_of_not_lt hfull)]
    omega

theorem write_behind (heap : Nat → Nat → UInt8) {p : Nat} {bs : List UInt8}
    (h : Behind ba p bs) (xs : List UInt8) :
    ∃ ba', (write heap xs).on ba = (.ok (), ba') ∧ Behind ba' p (bs ++ xs) ∧ Grown ba ba' := by
  obtain ⟨ba', junk, hrun, hinv, hbase, hend, hpos, hc, hroom, hcap, htight⟩ :=
    write_content heap h.inv xs
  have hp := h.position_eq
  have hlen := h.inv.content_len
  have hpc := Nat.le_trans h.inv.position_le h.inv.size_le
  refine ⟨ba', hrun, ⟨hinv, ?_, ?_⟩, ⟨hbase, hend, by omega, ?_, htight⟩⟩
  · rw [hpos, hp, List.length_append, Nat.add_assoc]
  · -- the old bytes lie before the write, the new ones are what was written
    rw [List.length_append, slice_add, ← hp, hc, slice_splice_same hroom,
      slice_splice_before (by omega) (by rw [List.length_append]; omega),
      slice_append_left (by omega), h.read_back]
  · rw [hcap, List.length_append]; omega

/-- Back to where the bytes begin. -/
theorem setPosition_ahead {p : Nat} {bs : List UInt8} (h : Behind ba p bs) :
    ∃ ba', (setPosition p).on ba = (.ok (), ba') ∧ Ahead ba' bs ∧ ba'.position = p ∧
      ba'.capacity = ba.capacity ∧ ba'.baseSize = ba.baseSize ∧ ba'.endian = ba.endian := by
  obtain ⟨ba', hrun, hs⟩ := setPosition_spec h.inv p
  have hcap : (abs ba).capacity = ba.capacity := h.inv.content_len
  have hp := h.position_eq
  have hps := h.inv.position_le
  have hsc := h.inv.size_le
  have hsmall : ¬ p > (abs ba).capacity := by rw [hcap]; omega
  have hmax : max ba.size p = ba.size := Nat.max_eq_left (by omega)
  simp only [Flat.setPosition, if_neg hsmall] at hrun hs
  have hc : content ba'.nodes = content ba.nodes := congrArg Flat.bytes hs.abs_eq
  have hpos : ba'.position = p := congrArg Flat.position hs.abs_eq
  have hsize : ba'.size = ba.size := (congrArg Flat.size hs.abs_eq).trans hmax
  have hcap' : ba'.capacity = ba.capacity := by
    rw [← hs.inv.content_len, hc, h.inv.content_len]
  refine ⟨ba', hrun, ⟨hs.inv, by omega, ?_⟩, hpos, hcap', hs.base_eq, hs.endian_eq⟩
  rw [hc, hpos]; exact h.read_back

theorem read_ahead (xs : List UInt8) {ys : List UInt8} (h : Ahead ba (xs ++ ys)) (hx : 1 ≤ xs.length) :
    ∃ ba', (read xs.length).on ba = (.ok xs, ba') ∧ Ahead ba' ys ∧ Moved ba xs.length ba' := by
  obtain ⟨ba', hrun, hs⟩ := read_spec h.inv hx
  have hroom := h.room
  rw [List.length_append] at hroom
  have hsmall : ¬ xs.length > (abs ba).readSize := by
    simp only [Flat.readSize, abs]; omega
  simp only [Flat.read, if_neg hsmall] at hrun hs
  have hfront := h.front
  rw [List.length_append, slice_add] at hfront
  have hlen : (slice (content ba.nodes) ba.position xs.length).length = xs.length :=
    slice_length (by rw [h.inv.content_len]; have := h.inv.size_le; omega)
  obtain ⟨hxs, hys⟩ := List.append_inj hfront hlen
  have hc : content ba'.nodes = content ba.nodes := congrArg Flat.bytes hs.abs_eq
  have hpos : ba'.position = ba.position + xs.length := congrArg Flat.position hs.abs_eq
  have hsize : ba'.size = ba.size := congrArg Flat.size hs.abs_eq
  refine ⟨ba', ?_, ⟨hs.inv, by omega, ?_⟩, hpos, ?_, hs.endian_eq⟩
  · rw [hrun]; exact congrArg (fun l => (Except.ok l, ba')) hxs
  · rw [hc, hpos]; exact hys
  · rw [← hs.inv.content_len, hc, h.inv.content_len]

theorem on_setIsLittleEndian (val : Bool) : (setIsLittleEndian val).on ba =
    (.ok (), { ba with endian := if val then .little else .big }) := rfl

theorem setIsLittleEndian_behind {p : Nat} {bs : List UInt8} (h : Behind ba p bs) (val : Bool) :
    Behind { ba with endian := if val then .little else .big } p bs :=
  ⟨⟨h.inv.base_pos, h.inv.position_le, h.inv.size_le, h.inv.blocks, h.inv.root, h.inv.capacity_eq,
    h.inv.cur_eq⟩, h.position_eq, h.read_back⟩

theorem setIsLittleEndian_ahead {bs : List UInt8} (h : Ahead ba bs) (val : Bool) :
    Ahead { ba with endian := if val then .little else .big } bs :=
  ⟨⟨h.inv.base_pos, h.inv.position_le, h.inv.size_le, h.inv.blocks, h.inv.root, h.inv.capacity_eq,
    h.inv.cur_eq⟩, h.room, h.front⟩

end

/-! ## Words of fixed width -/

theorem two_pow_eight (n : Nat) : 2 ^ (8 * n) = 256 ^ n := by rw [Nat.pow_mul]

theorem byteswap_toNat {n : Nat} (v : BitVec (8 * n)) :
    (byteswap v).toNat = ofLeBytes (leBytes n v.toNat).reverse := by
  have hlt := ofLeBytes_lt (leBytes n v.toNat).reverse
  rw [List.length_reverse, leBytes_length, ← two_pow_eight] at hlt
  rw [byteswap, BitVec.toNat_ofNat, Nat.mod_eq_of_lt hlt]

theorem byteswap_byteswap {n : Nat} (v : BitVec (8 * n)) : byteswap (byteswap v) = v := by
  apply BitVec.eq_of_toNat_eq
  have hv := v.isLt
  rw [two_pow_eight] at hv
  rw [byteswap_toNat, byteswap_toNat, ofLeBytes_reverse_swap, Nat.mod_eq_of_lt hv]

/-- The bytes `writeFixed` writes in byte order `e`. -/
def fixedBytes (e : Endian) (n : Nat) (v : BitVec (8 * n)) : List UInt8 :=
  leBytes n (if e ≠ byteOrder then byteswap v else v).toNat

@[simp] theorem fixedBytes_length (e : Endian) (n : Nat) (v : BitVec (8 * n)) :
    (fixedBytes e n v).length = n := leBytes_length _ _

theorem ofNat_leBytes {n : Nat} (v : BitVec (8 * n)) :
    BitVec.ofNat (8 * n) (ofLeBytes (leBytes n v.toNat)) = v := by
  apply BitVec.eq_of_toNat_eq
  have hv := v.isLt
  rw [ofLeBytes_leBytes, ← two_pow_eight, BitVec.toNat_ofNat, Nat.mod_mod, Nat.mod_eq_of_lt hv]

section
variable {heap : Nat → Nat → UInt8} {ba : ByteArray}

theorem writeFixed_eq (n : Nat) (v : BitVec (8 * n)) :
    (writeFixed heap n v).on ba = (write heap (fixedBytes ba.endian n v)).on ba := by
  rw [writeFixed, on_bind_ok _ (on_get ba)]
  rfl

theorem readFixed_ahead {n : Nat} (hn : 1 ≤ n) {v : BitVec (8 * n)} {ys : List UInt8}
    (h : Ahead ba (fixedBytes ba.endian n v ++ ys)) :
    ∃ ba', (readFixed n).on ba = (.ok v, ba') ∧ Ahead ba' ys ∧ Moved ba n ba' := by
  obtain ⟨ba', hrun, ha, hm⟩ := read_ahead _ h (by rw [fixedBytes_length]; exact hn)
  rw [fixedBytes_length] at hrun hm
  refine ⟨ba', ?_, ha, hm⟩
  rw [readFixed, on_bind_ok _ hrun, on_bind_ok _ (on_get ba'), on_pure, hm.endian_eq]
  congr 2
  by_cases he : ba.endian = byteOrder
  · rw [if_pos he, fixedBytes, if_neg (not_not_intro he), ofNat_leBytes]
  · rw [if_neg he, fixedBytes, if_pos he, ofNat_leBytes, byteswap_byteswap]

theorem readFuint8_ahead {b : UInt8} {ys : List UInt8} (h : Ahead ba (b :: ys)) :
    ∃ ba', readFuint8.on ba = (.ok b, ba') ∧ Ahead ba' ys ∧ Moved ba 1 ba' := by
  obtain ⟨ba', hrun, ha, hm⟩ := read_ahead [b] h (Nat.le_refl 1)
  have hone : (read 1).on ba = (.ok [b], ba') := hrun
  refine ⟨ba', ?_, ha, hm⟩
  rw [readFuint8, on_bind_ok _ hone, on_pure]
  simp [ofLeBytes]

end

/-! ## Base-128 numbers -/

theorem varintLoop_small {k v : Nat} (h : v < 128) : varintLoop (k + 1) v = .ok [UInt8.ofNat v] := by
  rw [varintLoop, if_neg (by omega)]

theorem varintLoop_big {k v : Nat} (h : 128 ≤ v) {rest : List UInt8}
    (hr : varintLoop k (v / 128) = .ok rest) :
    varintLoop (k + 1) v = .ok (UInt8.ofNat (v % 128 + 128) :: rest) := by
  have hshift : v >>> 7 = v / 128 := Nat.shiftRight_eq_div_pow v 7
  have hmask : (v &&& 0x7F) ||| 0x80 = v % 128 + 128 := by
    rw [show (0x7F : Nat) = 2 ^ 7 - 1 from rfl, Nat.and_two_pow_sub_one_eq_mod]
    have hor := Nat.two_pow_add_eq_or_of_lt (i := 7) (show v % 2 ^ 7 < 2 ^ 7 by omega) 1
    rw [Nat.or_comm, show (0x80 : Nat) = 2 ^ 7 * 1 from rfl, ← hor]
    omega
  rw [varintLoop, if_pos h, hshift, hr, hmask]
  rfl

/-- A loop that ends writes a last byte, or a marked one and then the digits above it. -/
theorem varintLoop_cases {k v : Nat} {bs : List UInt8} (h : varintLoop (k + 1) v = .ok bs) :
    (v < 128 ∧ bs = [UInt8.ofNat v]) ∨
      128 ≤ v ∧ ∃ rest, varintLoop k (v / 128) = .ok rest ∧ bs = UInt8.ofNat (v % 128 + 128) :: rest := by
  by_cases hsmall : v < 128
  · rw [varintLoop_small hsmall, Except.ok.injEq] at h
    exact Or.inl ⟨hsmall, h.symm⟩
  · have hbig : 128 ≤ v := Nat.not_lt.mp hsmall
    cases hrest : varintLoop k (v / 128) with
    | error e =>
      rw [varintLoop, if_pos hbig, Nat.shiftRight_eq_div_pow, hrest] at h
      cases h
    | ok rest =>
      rw [varintLoop_big hbig hrest, Except.ok.injEq] at h
      exact Or.inr ⟨hbig, rest, rfl, h.symm⟩

theorem toNat_lastByte {v : Nat} (h : v < 128) : (UInt8.ofNat v).toNat = v := by
  rw [UInt8.toNat_ofNat', Nat.mod_eq_of_lt (by omega)]

theorem toNat_markedByte (v : Nat) : (UInt8.ofNat (v % 128 + 128)).toNat = v % 128 + 128 := by
  rw [UInt8.toNat_ofNat', Nat.mod_eq_of_lt (by omega)]

/-- Without its mark a byte is the digit. -/
theorem toNat_unmarked (v : Nat) : (UInt8.ofNat (v % 128 + 128) &&& 0x7f).toNat = v % 128 := by
  rw [UInt8.toNat_and, toNat_markedByte, show (0x7f : UInt8).toNat = 2 ^ 7 - 1 from rfl,
    Nat.and_two_pow_sub_one_eq_mod]
  omega

/-- A `tmp` of `k` bytes is enough below `128 ^ k`, and the number of bytes used is the
number of base-128 digits. -/
theorem varintLoop_ok : ∀ (k v : Nat), v < 128 ^ (k + 1) →
    ∃ bs, varintLoop (k + 1) v = .ok bs ∧ bs.length = Nat.log 128 v + 1 := by
  intro k
  induction k with
  | zero =>
    intro v h
    rw [Nat.zero_add, Nat.pow_one] at h
    exact ⟨_, varintLoop_small h, by rw [Nat.log_of_lt h]; rfl⟩
  | succ k ih =>
    intro v h
    by_cases hv : v < 128
    · exact ⟨_, varintLoop_small hv, by rw [Nat.log_of_lt hv]; rfl⟩
    · have hdiv : v / 128 < 128 ^ (k + 1) := by
        rw [Nat.div_lt_iff_lt_mul (by decide), ← Nat.pow_succ]; exact h
      obtain ⟨rest, hr, hl⟩ := ih (v / 128) hdiv
      have hlog : Nat.log 128 v = Nat.log 128 (v / 128) + 1 :=
        Nat.log_of_one_lt_of_le (by decide) (by omega)
      refine ⟨_, varintLoop_big (by omega) hr, ?_⟩
      rw [List.length_cons, hl, hlog]

/-- The bytes `writeVarint` writes. -/
def varintBytes (k v : Nat) : List UInt8 := (varintLoop k v).toOption.getD []

theorem varintLoop_eq {k v : Nat} (h : v < 128 ^ (k + 1)) :
    varintLoop (k + 1) v = .ok (varintBytes (k + 1) v) := by
  obtain ⟨bs, hbs, _⟩ := varintLoop_ok k v h
  rw [varintBytes, hbs]; rfl

theorem varintBytes_length {k v : Nat} (h : v < 128 ^ (k + 1)) :
    (varintBytes (k + 1) v).length = Nat.log 128 v + 1 := by
  obtain ⟨bs, hbs, hl⟩ := varintLoop_ok k v h
  rw [varintBytes, hbs]; exact hl

/-- Adding a digit above the bits already there. -/
theorem or_shift {w i : Nat} {result d : BitVec w} (hr : result.toNat < 2 ^ i)
    (hd : result.toNat + d.toNat * 2 ^ i < 2 ^ w) :
    result ||| (d <<< i) = BitVec.ofNat w (result.toNat + d.toNat * 2 ^ i) := by
  apply BitVec.eq_of_toNat_eq
  have hor := Nat.shiftLeft_add_eq_or_of_lt hr d.toNat
  rw [Nat.shiftLeft_eq] at hor
  rw [BitVec.toNat_or, BitVec.toNat_shiftLeft, BitVec.toNat_ofNat, Nat.shiftLeft_eq,
    Nat.mod_eq_of_lt (show d.toNat * 2 ^ i < 2 ^ w by omega), Nat.or_comm, ← hor, Nat.add_comm,
    Nat.mod_eq_of_lt hd]

/-- A number at a shift is its lowest digit there and the others seven bits further up. -/
theorem digits_shift (v i : Nat) : v * 2 ^ i = v % 128 * 2 ^ i + v / 128 * 2 ^ (i + 7) := by
  rw [Nat.pow_add, show 2 ^ 7 = 128 from rfl, ← Nat.mul_assoc, Nat.mul_right_comm, ← Nat.add_mul]
  congr 1
  omega

/-- A digit above `i` bits stays below seven more. -/
theorem add_digit_lt {n i : Nat} (h : n < 2 ^ i) (v : Nat) : n + v % 128 * 2 ^ i < 2 ^ (i + 7) := by
  have hmul : (v % 128 + 1) * 2 ^ i ≤ 128 * 2 ^ i := Nat.mul_le_mul_right _ (by omega)
  rw [Nat.add_mul, Nat.one_mul] at hmul
  rw [Nat.pow_add, show 2 ^ 7 = 128 from rfl, Nat.mul_comm (2 ^ i)]
  omega

section
variable {ba : ByteArray}

/-- The loop adds the number it reads at its shift. -/
theorem readVarint_ahead {w : Nat} (hw : 8 ≤ w) : ∀ (k v i : Nat) (bs ys : List UInt8)
    (result : BitVec w) (ba : ByteArray), varintLoop k v = .ok bs → Ahead ba (bs ++ ys) →
    result.toNat < 2 ^ i → result.toNat + v * 2 ^ i < 2 ^ w →
    ∃ ba', (readVarint w k i result).on ba =
        (.ok (BitVec.ofNat w (result.toNat + v * 2 ^ i)), ba') ∧
      Ahead ba' ys ∧ Moved ba bs.length ba' := by
  intro k
  induction k with
  | zero => intro v i bs ys result ba hv; cases hv
  | succ k ih =>
    intro v i bs ys result ba hv ha hr hfit
    have h8 : 2 ^ 8 ≤ 2 ^ w := Nat.pow_le_pow_right (by decide) hw
    rcases varintLoop_cases hv with ⟨hsmall, rfl⟩ | ⟨-, rest, hrest, rfl⟩
    · -- the last byte
      obtain ⟨ba', hrun, ha', hm⟩ := readFuint8_ahead ha
      have hlt : UInt8.ofNat v < 0x80 := by
        rw [UInt8.lt_iff_toNat_lt, toNat_lastByte hsmall]
        exact hsmall
      have hd : ((UInt8.ofNat v).toBitVec.setWidth w).toNat = v := by
        rw [BitVec.toNat_setWidth, UInt8.toNat_toBitVec, toNat_lastByte hsmall, Nat.mod_eq_of_lt (by omega)]
      refine ⟨ba', ?_, ha', hm⟩
      rw [readVarint, on_bind_ok _ hrun, if_pos hlt, on_pure,
        or_shift hr (by rw [hd]; exact hfit), hd]
    · -- seven bits, then the rest of the number seven bits further up
      obtain ⟨ba₁, hrun, ha₁, hm₁⟩ := readFuint8_ahead ha
      have hge : ¬ UInt8.ofNat (v % 128 + 128) < 0x80 := by
        rw [UInt8.lt_iff_toNat_lt, toNat_markedByte]
        simp
      have hd : ((UInt8.ofNat (v % 128 + 128) &&& 0x7f).toBitVec.setWidth w).toNat = v % 128 := by
        rw [BitVec.toNat_setWidth, UInt8.toNat_toBitVec, toNat_unmarked, Nat.mod_eq_of_lt (by omega)]
      have hsplit := digits_shift v i
      have hsum : (BitVec.ofNat w (result.toNat + v % 128 * 2 ^ i)).toNat =
          result.toNat + v % 128 * 2 ^ i := by
        rw [BitVec.toNat_ofNat, Nat.mod_eq_of_lt (by omega)]
      obtain ⟨ba₂, hrun₂, ha₂, hm₂⟩ := ih (v / 128) (i + 7) rest ys
        (BitVec.ofNat w (result.toNat + v % 128 * 2 ^ i)) ba₁ hrest ha₁ (by rw [hsum]; exact add_digit_lt hr v)
        (by rw [hsum]; omega)
      have hval : result.toNat + v % 128 * 2 ^ i + v / 128 * 2 ^ (i + 7) =
          result.toNat + v * 2 ^ i := by omega
      rw [hsum, hval] at hrun₂
      refine ⟨ba₂, ?_, ha₂, ?_⟩
      · rw [readVarint, on_bind_ok _ hrun, if_neg hge,
          or_shift hr (by rw [hd]; omega), hd, hrun₂]
      · rw [List.length_cons, Nat.add_comm]
        exact hm₁.trans hm₂

theorem readUint32_ahead {v : UInt32} {ys : List UInt8} (h : Ahead ba (varintBytes 5 v.toNat ++ ys)) :
    ∃ ba', readUint32.on ba = (.ok v, ba') ∧ Ahead ba' ys ∧
      Moved ba (varintBytes 5 v.toNat).length ba' := by
  have hv := v.toNat_lt
  obtain ⟨ba', hrun, ha, hm⟩ := readVarint_ahead (w := 32) (by decide) 5 v.toNat 0 _ ys 0 ba
    (varintLoop_eq (by omega)) h (by decide) (by simp; omega)
  refine ⟨ba', ?_, ha, hm⟩
  rw [readUint32, on_bind_ok _ hrun, on_pure]
  simp

theorem readUint64_ahead {v : UInt64} {ys : List UInt8}
    (h : Ahead ba (varintBytes 10 v.toNat ++ ys)) :
    ∃ ba', readUint64.on ba = (.ok v, ba') ∧ Ahead ba' ys ∧
      Moved ba (varintBytes 10 v.toNat).length ba' := by
  have hv := v.toNat_lt
  obtain ⟨ba', hrun, ha, hm⟩ := readVarint_ahead (w := 64) (by decide) 10 v.toNat 0 _ ys 0 ba
    (varintLoop_eq (by omega)) h (by decide) (by simp; omega)
  refine ⟨ba', ?_, ha, hm⟩
  rw [readUint64, on_bind_ok _ hrun, on_pure]
  simp

end

/-! ## Lists of numbers -/

/-- The bytes a number is written as in byte order `e`. -/
def NumVal.bytes (e : Endian) : NumVal → List UInt8
  | .fint8 v => [v.toUInt8]
  | .fuint8 v => [v]
  | .fint16 v => fixedBytes e 2 v.toBitVec
  | .fuint16 v => fixedBytes e 2 v.toBitVec
  | .fint32 v => fixedBytes e 4 v.toBitVec
  | .fuint32 v => fixedBytes e 4 v.toBitVec
  | .fint64 v => fixedBytes e 8 v.toBitVec
  | .fuint64 v => fixedBytes e 8 v.toBitVec
  | .int32 v => varintBytes 5 (encodeZigzag32 v).toNat
  | .uint32 v => varintBytes 5 v.toNat
  | .int64 v => varintBytes 10 (encodeZigzag64 v).toNat
  | .uint64 v => varintBytes 10 v.toNat
  | .float bits => fixedBytes e 4 bits.toBitVec
  | .double bits => fixedBytes e 8 bits.toBitVec

theorem decodeZigzag32_encodeZigzag32 (v : Int32) : decodeZigzag32 (encodeZigzag32 v) = v := by
  rw [decodeZigzag32, encodeZigzag32, unzigzag_zigzag (w := 31) v.toBitVec]
  rfl

theorem decodeZigzag64_encodeZigzag64 (v : Int64) : decodeZigzag64 (encodeZigzag64 v) = v := by
  rw [decodeZigzag64, encodeZigzag64, unzigzag_zigzag (w := 63) v.toBitVec]
  rfl

section
variable {heap : Nat → Nat → UInt8} {ba : ByteArray}

theorem writeVarint_eq {k v : Nat} (hv : v < 128 ^ (k + 1)) :
    (writeVarint heap (k + 1) v).on ba = (write heap (varintBytes (k + 1) v)).on ba := by
  have hlift : (lift (varintLoop (k + 1) v)).on ba = (.ok (varintBytes (k + 1) v), ba) := by
    rw [on_lift, varintLoop_eq hv]
  rw [writeVarint, on_bind_ok _ hlift]

theorem writeUint32_eq (v : UInt32) :
    (writeUint32 heap v).on ba = (write heap (varintBytes 5 v.toNat)).on ba := by
  have hv := v.toNat_lt
  exact writeVarint_eq (by omega)

theorem writeUint64_eq (v : UInt64) :
    (writeUint64 heap v).on ba = (write heap (varintBytes 10 v.toNat)).on ba := by
  have hv := v.toNat_lt
  exact writeVarint_eq (by omega)

/-- Every typed write is the write of its bytes. -/
theorem numWrite_eq (ba : ByteArray) (v : NumVal) :
    (v.write heap).on ba = (write heap (v.bytes ba.endian)).on ba := by
  cases v with
  | fint8 v => rfl
  | fuint8 v => rfl
  | fint16 v => exact writeFixed_eq 2 _
  | fuint16 v => exact writeFixed_eq 2 _
  | fint32 v => exact writeFixed_eq 4 _
  | fuint32 v => exact writeFixed_eq 4 _
  | fint64 v => exact writeFixed_eq 8 _
  | fuint64 v => exact writeFixed_eq 8 _
  | int32 v => exact writeUint32_eq _
  | uint32 v => exact writeUint32_eq _
  | int64 v => exact writeUint64_eq _
  | uint64 v => exact writeUint64_eq _
  | float v => exact writeFixed_eq 4 _
  | double v => exact writeFixed_eq 8 _

/-- Reading and then wrapping the result. -/
theorem on_map {α β : Type} {x : M α} {f : α → β} {a : α} {s : ByteArray}
    (h : x.on ba = (.ok a, s)) : (do return f (← x) : M β).on ba = (.ok (f a), s) := by
  rw [on_bind_ok _ h, on_pure]

/-- The matching read takes exactly the bytes of the number. -/
theorem numRead_ahead (v : NumVal) {ys : List UInt8} (h : Ahead ba (v.bytes ba.endian ++ ys)) :
    ∃ ba', v.kind.read.on ba = (.ok v, ba') ∧ Ahead ba' ys ∧
      Moved ba (v.bytes ba.endian).length ba' := by
  have fixed : ∀ {β : Type} (n : Nat) (hn : 1 ≤ n) (w : BitVec (8 * n)) (f : BitVec (8 * n) → β),
      Ahead ba (fixedBytes ba.endian n w ++ ys) →
      ∃ ba', (do return f (← readFixed n) : M β).on ba = (.ok (f w), ba') ∧ Ahead ba' ys ∧
        Moved ba (fixedBytes ba.endian n w).length ba' := by
    intro β n hn w f ha
    obtain ⟨ba', hrun, ha', hm⟩ := readFixed_ahead hn ha
    exact ⟨ba', on_map hrun, ha', by rw [fixedBytes_length]; exact hm⟩
  cases v with
  | fint8 v =>
    obtain ⟨ba', hrun, ha, hm⟩ := read_ahead [v.toUInt8] h (Nat.le_refl 1)
    have hone : (read 1).on ba = (.ok [v.toUInt8], ba') := hrun
    have hread : readFint8.on ba = (.ok v, ba') := by
      rw [readFint8, on_bind_ok _ hone, on_pure]
      simp [ofLeBytes]
    exact ⟨ba', on_map hread, ha, hm⟩
  | fuint8 v =>
    obtain ⟨ba', hrun, ha, hm⟩ := readFuint8_ahead h
    exact ⟨ba', on_map hrun, ha, hm⟩
  | fint16 v =>
    obtain ⟨ba', hrun, ha, hm⟩ := fixed 2 (by decide) _ (fun w => (⟨⟨w⟩⟩ : Int16)) h
    exact ⟨ba', on_map hrun, ha, hm⟩
  | fuint16 v =>
    obtain ⟨ba', hrun, ha, hm⟩ := fixed 2 (by decide) _ (fun w => (⟨w⟩ : UInt16)) h
    exact ⟨ba', on_map hrun, ha, hm⟩
  | fint32 v =>
    obtain ⟨ba', hrun, ha, hm⟩ := fixed 4 (by decide) _ (fun w => (⟨⟨w⟩⟩ : Int32)) h
    exact ⟨ba', on_map hrun, ha, hm⟩
  | fuint32 v =>
    obtain ⟨ba', hrun, ha, hm⟩ := fixed 4 (by decide) _ (fun w => (⟨w⟩ : UInt32)) h
    exact ⟨ba', on_map hrun, ha, hm⟩
  | fint64 v =>
    obtain ⟨ba', hrun, ha, hm⟩ := fixed 8 (by decide) _ (fun w => (⟨⟨w⟩⟩ : Int64)) h
    exact ⟨ba', on_map hrun, ha, hm⟩
  | fuint64 v =>
    obtain ⟨ba', hrun, ha, hm⟩ := fixed 8 (by decide) _ (fun w => (⟨w⟩ : UInt64)) h
    exact ⟨ba', on_map hrun, ha, hm⟩
  | int32 v =>
    obtain ⟨ba', hrun, ha, hm⟩ := readUint32_ahead h
    have hread : readInt32.on ba = (.ok v, ba') := by
      rw [readInt32, on_map hrun, decodeZigzag32_encodeZigzag32]
    exact ⟨ba', on_map hread, ha, hm⟩
  | uint32 v =>
    obtain ⟨ba', hrun, ha, hm⟩ := readUint32_ahead h
    exact ⟨ba', on_map hrun, ha, hm⟩
  | int64 v =>
    obtain ⟨ba', hrun, ha, hm⟩ := readUint64_ahead h
    have hread : readInt64.on ba = (.ok v, ba') := by
      rw [readInt64, on_map hrun, decodeZigzag64_encodeZigzag64]
    exact ⟨ba', on_map hread, ha, hm⟩
  | uint64 v =>
    obtain ⟨ba', hrun, ha, hm⟩ := readUint64_ahead h
    exact ⟨ba', on_map hrun, ha, hm⟩
  | float v =>
    obtain ⟨ba', hrun, ha, hm⟩ := fixed 4 (by decide) _ (fun w => (⟨w⟩ : UInt32)) h
    exact ⟨ba', on_map hrun, ha, hm⟩
  | double v =>
    obtain ⟨ba', hrun, ha, hm⟩ := fixed 8 (by decide) _ (fun w => (⟨w⟩ : UInt64)) h
    exact ⟨ba', on_map hrun, ha, hm⟩

end

/-- The writes of a list of numbers, each after its `setIsLittleEndian`. -/
def writeNums (heap : Nat → Nat → UInt8) : List (Bool × NumVal) → M Unit
  | [] => pure ()
  | (little, v) :: rest => do
    setIsLittleEndian little
    v.write heap
    writeNums heap rest

/-- The matching reads. -/
def readNums : List (Bool × NumKind) → M (List NumVal)
  | [] => pure []
  | (little, k) :: rest => do
    setIsLittleEndian little
    let v ← k.read
    let vs ← readNums rest
    return v :: vs

/-- What the writes of a list of numbers put into the buffer. -/
def numBytes : List (Bool × NumVal) → List UInt8
  | [] => []
  | (little, v) :: rest => v.bytes (if little then .little else .big) ++ numBytes rest

section
variable (heap : Nat → Nat → UInt8)

theorem writeNums_behind : ∀ (ws : List (Bool × NumVal)) (ba : ByteArray) (p : Nat)
    (bs : List UInt8), Behind ba p bs →
    ∃ ba', (writeNums heap ws).on ba = (.ok (), ba') ∧ Behind ba' p (bs ++ numBytes ws) := by
  intro ws
  induction ws with
  | nil =>
    intro ba p bs h
    exact ⟨ba, rfl, by rw [numBytes, List.append_nil]; exact h⟩
  | cons w rest ih =>
    obtain ⟨little, v⟩ := w
    intro ba p bs h
    have hset := setIsLittleEndian_behind h little
    obtain ⟨ba₁, hrun₁, h₁, -⟩ := write_behind heap hset
      (v.bytes (if little then .little else .big))
    rw [← numWrite_eq { ba with endian := if little then .little else .big } v] at hrun₁
    obtain ⟨ba₂, hrun₂, h₂⟩ := ih ba₁ p _ h₁
    refine ⟨ba₂, ?_, by rw [numBytes, ← List.append_assoc]; exact h₂⟩
    rw [writeNums, on_bind_ok _ (on_setIsLittleEndian little), on_bind_ok _ hrun₁, hrun₂]

theorem readNums_ahead : ∀ (ws : List (Bool × NumVal)) (ba : ByteArray),
    Ahead ba (numBytes ws) →
    ∃ ba', (readNums (ws.map fun w => (w.1, w.2.kind))).on ba = (.ok (ws.map Prod.snd), ba') ∧
      ba'.position = ba.position + (numBytes ws).length := by
  intro ws
  induction ws with
  | nil => intro ba _; exact ⟨ba, rfl, rfl⟩
  | cons w rest ih =>
    obtain ⟨little, v⟩ := w
    intro ba h
    have hset := setIsLittleEndian_ahead h little
    obtain ⟨ba₁, hrun₁, h₁, hm⟩ := numRead_ahead v hset
    obtain ⟨ba₂, hrun₂, hpos⟩ := ih ba₁ h₁
    refine ⟨ba₂, ?_, ?_⟩
    · rw [List.map_cons, readNums, on_bind_ok _ (on_setIsLittleEndian little), on_bind_ok _ hrun₁,
        on_bind_ok _ hrun₂, on_pure, List.map_cons]
    · rw [hpos, hm.position_eq, numBytes, List.length_append, Nat.add_assoc]

end

/-- **Numbers read back.** Whatever numbers are written, in whatever byte orders, from any
reachable state: no write throws, and going back to where they began, the matching reads
return them in order, throw nothing, and end where the writes ended. -/
theorem numeric_round_trip (heap : Nat → Nat → UInt8) (base : Nat) (hb : 1 ≤ base)
    (ba : ByteArray) (r : Reachable heap base ba) (ws : List (Bool × NumVal)) :
    ∃ ba₁ ba₂ ba₃,
      (writeNums heap ws).on ba = (.ok (), ba₁) ∧
      (setPosition ba.position).on ba₁ = (.ok (), ba₂) ∧
      (readNums (ws.map fun w => (w.1, w.2.kind))).on ba₂ = (.ok (ws.map Prod.snd), ba₃) ∧
      ba₃.position = ba₁.position := by
  have hinv := (r.inv hb).1
  obtain ⟨ba₁, hwrite, h₁⟩ := writeNums_behind heap ws ba _ _ hinv.behind
  obtain ⟨ba₂, hset, h₂, hpos₂, -⟩ := setPosition_ahead h₁
  obtain ⟨ba₃, hread, hpos₃⟩ := readNums_ahead ws ba₂ h₂
  refine ⟨ba₁, ba₂, ba₃, hwrite, hset, hread, ?_⟩
  rw [hpos₃, hpos₂, h₁.position_eq, List.nil_append]

/-- Blocks of one byte: a big-endian word, then the least 32-bit number as a varint. -/
theorem numeric_round_trip_mixed :
    ∃ ba₁ ba₂ ba₃,
      (writeNums (fun _ _ => 0) [(false, .fuint16 0x1234), (true, .int32 (-2147483648))]).on
        (new (fun _ _ => 0) 1) = (.ok (), ba₁) ∧
      (setPosition 0).on ba₁ = (.ok (), ba₂) ∧
      (readNums [(false, .fuint16), (true, .int32)]).on ba₂ =
        (.ok [.fuint16 0x1234, .int32 (-2147483648)], ba₃) ∧
      ba₃.position = ba₁.position :=
  numeric_round_trip (fun _ _ => 0) 1 (by decide) _ Reachable.new
    [(false, .fuint16 0x1234), (true, .int32 (-2147483648))]

end Sylar.ByteArray
