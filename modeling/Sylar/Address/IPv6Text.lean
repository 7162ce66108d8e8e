import Mathlib.Data.List.Basic
import Sylar.Lib.Elided
import Sylar.Lib.Numeral
import Sylar.Http.Tables
import Sylar.Address.IPv6

/- `IPv6Address::insert` in `sylar/address.cc` and the reading of what it writes.

   One loop writes the eight groups. It skips groups of zeros until it has used `::` for
   them, and it knows that it skipped some from the group before the one it writes; zeros at
   the end are found behind the loop. What comes out are the groups without their first run
   of zeros (`insert_eq`), so that reading gives the address and the port again. -/
namespace Sylar.Address
open Sylar.Lib Sylar.ByteArray Sylar.Http

/-- A digit as a stream writes it, of any base up to 16. -/
def digit (d : Nat) : UInt8 := if d < 10 then chr '0' + UInt8.ofNat d else chr 'a' + UInt8.ofNat (d - 10)

/-- A group as `std::hex` writes it. -/
def hexGroup (g : BitVec 16) : Bytes := numeral 16 digit g.toNat

section
variable (addr : Nat → BitVec 16)

/-- The loop, from group `i` on. -/
def insertLoop (i : Nat) (os : Bytes) (used_zeros : Bool) : Bytes × Bool :=
  if i < 8 then
    if addr i = 0 ∧ ¬ used_zeros then insertLoop (i + 1) os used_zeros
    else
      let skipped := i ≠ 0 ∧ addr (i - 1) = 0 ∧ ¬ used_zeros
      let os := if skipped then os ++ ascii ":" else os
      let used_zeros := if skipped then true else used_zeros
      let os := if i ≠ 0 then os ++ ascii ":" else os
      insertLoop (i + 1) (os ++ hexGroup (byteswap (n := 2) (addr i))) used_zeros
  else (os, used_zeros)
termination_by 8 - i

/-- What stands behind the loop. -/
def insertEnd (r : Bytes × Bool) : Bytes := if ¬ r.2 ∧ addr 7 = 0 then r.1 ++ ascii "::" else r.1

end

section
variable (a : IPv6Address)

/-- `((uint16_t *)s6_addr)[i]`. -/
def IPv6Address.addr (i : Nat) : BitVec 16 := BitVec.ofNat 16 (ofLeBytes ((a.s6_addr.drop (2 * i)).take 2))

def IPv6Address.getPort : BitVec 16 := byteswap (n := 2) a.port

def IPv6Address.insert : Bytes :=
  insertEnd a.addr (insertLoop a.addr 0 (ascii "[") false) ++ ascii "]:" ++ numeral 10 digit a.getPort.toNat

/-- Group `i`, as a number. -/
def IPv6Address.group (i : Nat) : BitVec 16 := byteswap (n := 2) (a.addr i)

def IPv6Address.groups : List (BitVec 16) := (List.range' 0 8).map a.group

end

/-! ## Reading -/

/-- The value of a digit, of any base up to 16. -/
def digitValue (c : UInt8) : Option Nat :=
  if chr '0' ≤ c ∧ c ≤ chr '9' then some (c - chr '0').toNat
  else if chr 'a' ≤ c ∧ c ≤ chr 'f' then some ((c - chr 'a').toNat + 10)
  else none

def digitOf (b : Nat) (c : UInt8) : Option Nat := (digitValue c).filter (· < b)

/-- A number of 16 bits. -/
def readWord (b : Nat) (s : Bytes) : Option (BitVec 16) :=
  (readNumeral b (digitOf b) s).bind fun n =>
    if n < 2 ^ 16 then some (BitVec.ofNat 16 n) else none

/-- A group in the order of the network. -/
def groupBytes (g : BitVec 16) : List UInt8 := [UInt8.ofNat (g.toNat / 256), UInt8.ofNat (g.toNat % 256)]

/-- `[groups]:port`, the groups hexadecimal and with one `::` for missing zeros, the port decimal. -/
def decode (text : Bytes) : Option (List UInt8 × BitVec 16) :=
  match text with
  | [] => none
  | c :: rest =>
    if c = chr '[' then
      (cut (chr ']') rest).bind fun (inside, behind) =>
        if behind.head? = some (chr ':') then
          (readElided (chr ':') (readWord 16) 0 8 inside).bind fun gs =>
            (readWord 10 behind.tail).map fun port => (gs.flatMap groupBytes, port)
        else none
    else none

/-! ## Digits -/

theorem digitOf_digit {b d : Nat} (hb : b ≤ 16) (hd : d < b) : digitOf b (digit d) = some d := by
  have hdigits : ∀ n : Fin 16, digitValue (digit n) = some n.val := by decide
  rw [digitOf, hdigits ⟨d, by omega⟩]
  simp [hd]

theorem readWord_numeral {b : Nat} (hb : 1 < b) (hle : b ≤ 16) (v : BitVec 16) :
    readWord b (numeral b digit v.toNat) = some v := by
  rw [readWord, readNumeral_numeral hb (fun d hd => digitOf_digit hle hd), Option.bind_some, if_pos v.isLt, BitVec.ofNat_toNat, BitVec.setWidth_eq]

/-- No digit is a character that separates. -/
theorem not_mem_numeral {b : Nat} (hb : 1 < b) (hle : b ≤ 16) {c : UInt8} (hc : digitValue c = none) (n : Nat) :
    c ∉ numeral b digit n := by
  intro hmem
  obtain ⟨d, hd, rfl⟩ := mem_numeral hb hmem
  have hvalue := digitOf_digit hle hd
  rw [digitOf, hc] at hvalue
  cases hvalue

theorem entries : Entries (chr ':') hexGroup (readWord 16) where
  ne_nil g := numeral_ne_nil 16 digit g.toNat
  not_mem g := not_mem_numeral (by decide) (by decide) (by decide) g.toNat
  dec_enc g := readWord_numeral (by decide) (by decide) g

/-! ## Groups and bytes -/

theorem groupBytes_swap (x y : UInt8) :
    groupBytes (byteswap (n := 2) (BitVec.ofNat 16 (ofLeBytes [x, y]))) = [x, y] := by
  have hx := x.toNat_lt
  have hy := y.toNat_lt
  have hlt : ofLeBytes [x, y] < 2 ^ 16 := by
    simp only [ofLeBytes]
    omega
  have hword : (BitVec.ofNat 16 (ofLeBytes [x, y])).toNat = ofLeBytes [x, y] := Nat.mod_eq_of_lt hlt
  have hbytes : leBytes 2 (ofLeBytes [x, y]) = [x, y] := leBytes_ofLeBytes [x, y]
  have hswap : ofLeBytes [y, x] = 256 * x.toNat + y.toNat := by
    simp only [ofLeBytes]
    omega
  have hgroup : (byteswap (n := 2) (BitVec.ofNat 16 (ofLeBytes [x, y]))).toNat = 256 * x.toNat + y.toNat := by
    rw [byteswap, hword, hbytes, List.reverse_cons, List.reverse_singleton, List.singleton_append, hswap]
    exact Nat.mod_eq_of_lt (by omega)
  rw [groupBytes, hgroup, show (256 * x.toNat + y.toNat) / 256 = x.toNat by omega,
    show (256 * x.toNat + y.toNat) % 256 = y.toNat by omega, UInt8.ofNat_toNat, UInt8.ofNat_toNat]

/-- Words of two bytes have all of a text of even length. -/
theorem flatMap_words : ∀ (k : Nat) (bytes : List UInt8), bytes.length = 2 * k →
    (List.range' 0 k).flatMap (fun i => groupBytes (byteswap (n := 2)
      (BitVec.ofNat 16 (ofLeBytes ((bytes.drop (2 * i)).take 2))))) = bytes := by
  intro k
  induction k with
  | zero =>
    intro bytes h
    exact (List.length_eq_zero_iff.mp h).symm
  | succ k ih =>
    intro bytes h
    match bytes, h with
    | x :: y :: bytes, h =>
      have hrest := ih bytes (by simp only [List.length_cons] at h; omega)
      have hmoved : ∀ i, (x :: y :: bytes).drop (2 * (i + 1)) = bytes.drop (2 * i) := by
        intro i
        rw [Nat.mul_succ, List.drop_succ_cons, List.drop_succ_cons]
      rw [List.range'_succ, List.flatMap_cons, List.range'_succ_left, List.flatMap_map]
      simp only [hmoved]
      rw [hrest]
      exact congrArg (· ++ bytes) (groupBytes_swap x y)

/-- The groups have all of the address. -/
theorem groups_flatMap (a : IPv6Address) : a.groups.flatMap groupBytes = a.s6_addr := by
  rw [IPv6Address.groups, List.flatMap_map]
  exact flatMap_words 8 a.s6_addr a.sixteen

theorem group_eq_zero_iff (a : IPv6Address) (i : Nat) : a.group i = 0 ↔ a.addr i = 0 := by
  have hzero : byteswap (n := 2) 0 = 0 := by decide
  constructor
  · intro h
    have hback := congrArg (byteswap (n := 2)) h
    rw [IPv6Address.group, byteswap_byteswap, hzero] at hback
    exact hback
  · intro h
    rw [IPv6Address.group, h, hzero]

/-! ## The loop -/

section
variable (a : IPv6Address) {i : Nat} (os : Bytes)

/-- The groups from `i` on. -/
def IPv6Address.groupsFrom (i : Nat) : List (BitVec 16) := (List.range' i (8 - i)).map a.group

theorem groupsFrom_cons (hi : i < 8) : a.groupsFrom i = a.group i :: a.groupsFrom (i + 1) := by
  rw [IPv6Address.groupsFrom, show 8 - i = (8 - (i + 1)) + 1 by omega, List.range'_succ]
  rfl

theorem groupsFrom_eight : a.groupsFrom 8 = [] := rfl

theorem insertLoop_skip (hi : i < 8) (hzero : a.addr i = 0) :
    insertLoop a.addr i os false = insertLoop a.addr (i + 1) os false := by
  rw [insertLoop, if_pos hi, if_pos ⟨hzero, by decide⟩]

/-- A group behind zeros that were skipped. -/
theorem insertLoop_resume (hi : i < 8) (hpos : i ≠ 0) (hgroup : a.addr i ≠ 0) (hskipped : a.addr (i - 1) = 0) :
    insertLoop a.addr i os false =
      insertLoop a.addr (i + 1) (os ++ ascii ":" ++ ascii ":" ++ hexGroup (a.group i)) true := by
  rw [insertLoop, if_pos hi, if_neg (fun h => hgroup h.1)]
  simp only [hpos, hskipped, ne_eq, not_false_eq_true, Bool.false_eq_true, and_self, if_true]
  rfl

/-- A group behind a group that was written. -/
theorem insertLoop_next (hi : i < 8) (hpos : i ≠ 0) (hgroup : a.addr i ≠ 0) (hwritten : a.addr (i - 1) ≠ 0) :
    insertLoop a.addr i os false = insertLoop a.addr (i + 1) (os ++ ascii ":" ++ hexGroup (a.group i)) false := by
  rw [insertLoop, if_pos hi, if_neg (fun h => hgroup h.1)]
  simp only [hpos, hwritten, ne_eq, not_false_eq_true, false_and, and_false, if_false, if_true]
  rfl

/-- Once zeros are used every group is written. -/
theorem insertLoop_used (hi : i < 8) (hpos : i ≠ 0) :
    insertLoop a.addr i os true = insertLoop a.addr (i + 1) (os ++ ascii ":" ++ hexGroup (a.group i)) true := by
  rw [insertLoop, if_pos hi, if_neg (fun h => h.2 rfl)]
  simp only [hpos, ne_eq, not_true_eq_false, not_false_eq_true, and_false, if_false, if_true]
  rfl

/-- All groups, each behind a colon. -/
theorem insertEnd_used (k : Nat) : ∀ {i : Nat} (os : Bytes), i + k = 8 → i ≠ 0 →
    insertEnd a.addr (insertLoop a.addr i os true) =
      os ++ (a.groupsFrom i).flatMap fun g => chr ':' :: hexGroup g := by
  induction k with
  | zero =>
    intro i os hi _
    obtain rfl : i = 8 := hi
    rw [insertLoop, if_neg (by decide), insertEnd, if_neg (fun h => h.1 rfl), groupsFrom_eight, List.flatMap_nil,
      List.append_nil]
  | succ k ih =>
    intro i os hi hpos
    rw [insertLoop_used a os (by omega) hpos, ih _ (by omega) (Nat.succ_ne_zero i),
      groupsFrom_cons a (show i < 8 by omega), List.flatMap_cons]
    simp [ascii]

/-- Behind skipped zeros: what is left of their run is skipped too, and `::` stands for it. -/
theorem insertEnd_skipped (k : Nat) : ∀ {i : Nat} (os : Bytes), i + k = 8 → i ≠ 0 → a.addr (i - 1) = 0 →
    insertEnd a.addr (insertLoop a.addr i os false) =
      os ++ chr ':' :: chr ':' :: joined (chr ':') hexGroup ((a.groupsFrom i).dropWhile (· = 0)) := by
  induction k with
  | zero =>
    intro i os hi _ hzero
    obtain rfl : i = 8 := hi
    rw [insertLoop, if_neg (by decide), insertEnd, if_pos ⟨Bool.false_ne_true, hzero⟩, groupsFrom_eight]
    rfl
  | succ k ih =>
    intro i os hi hpos hzero
    rw [groupsFrom_cons a (by omega)]
    by_cases hgroup : a.addr i = 0
    · have hcons := (group_eq_zero_iff a i).mpr hgroup
      rw [insertLoop_skip a os (by omega) hgroup, ih os (by omega) (Nat.succ_ne_zero i) hgroup,
        List.dropWhile_cons_of_pos (by simpa using hcons)]
    · have hcons := mt (group_eq_zero_iff a i).mp hgroup
      rw [insertLoop_resume a os (by omega) hpos hgroup hzero, insertEnd_used a k _ (by omega) (Nat.succ_ne_zero i),
        List.dropWhile_cons_of_neg (by simpa using hcons), joined_cons]
      simp [ascii]

/-- Behind a group that was written, with no zeros used: the groups up to the first zero, and `::` for its run
if there is one. -/
theorem insertEnd_written (k : Nat) : ∀ {i : Nat} (os : Bytes), i + k = 8 → i ≠ 0 → a.addr (i - 1) ≠ 0 →
    insertEnd a.addr (insertLoop a.addr i os false) =
      os ++ (((a.groupsFrom i).takeWhile (· ≠ 0)).flatMap fun g => chr ':' :: hexGroup g) ++
        if 0 ∈ a.groupsFrom i then
          chr ':' :: chr ':' :: joined (chr ':') hexGroup (((a.groupsFrom i).dropWhile (· ≠ 0)).dropWhile (· = 0))
        else [] := by
  induction k with
  | zero =>
    intro i os hi _ hwritten
    obtain rfl : i = 8 := hi
    rw [insertLoop, if_neg (by decide), insertEnd, if_neg (fun h => hwritten h.2), groupsFrom_eight]
    simp
  | succ k ih =>
    intro i os hi hpos hwritten
    rw [groupsFrom_cons a (show i < 8 by omega)]
    by_cases hgroup : a.addr i = 0
    · have hcons := (group_eq_zero_iff a i).mpr hgroup
      rw [insertLoop_skip a os (by omega) hgroup, insertEnd_skipped a k os (by omega) (Nat.succ_ne_zero i) hgroup,
        hcons]
      simp
    · have hcons := mt (group_eq_zero_iff a i).mp hgroup
      rw [insertLoop_next a os (by omega) hpos hgroup hwritten, ih _ (by omega) (Nat.succ_ne_zero i) hgroup,
        List.takeWhile_cons_of_pos (by simpa using hcons), List.dropWhile_cons_of_pos (by simpa using hcons)]
      have hmem : 0 ∈ a.group i :: a.groupsFrom (i + 1) ↔ 0 ∈ a.groupsFrom (i + 1) := by
        rw [List.mem_cons, or_iff_right (fun h => hcons h.symm)]
      simp only [hmem, List.flatMap_cons]
      simp [ascii]

/-- What is written between the brackets: the groups without their first run of zeros. -/
theorem insertEnd_eq : insertEnd a.addr (insertLoop a.addr 0 os false) =
    os ++ elided (chr ':') hexGroup 0 a.groups := by
  have hgroups : a.groups = a.group 0 :: a.groupsFrom 1 := groupsFrom_cons a (i := 0) (by decide)
  rw [hgroups, elided]
  by_cases hgroup : a.addr 0 = 0
  · have hcons := (group_eq_zero_iff a 0).mpr hgroup
    rw [insertLoop_skip a os (by decide) hgroup, insertEnd_skipped a 7 os rfl (by decide) hgroup, hcons]
    simp [joined]
  · have hcons := mt (group_eq_zero_iff a 0).mp hgroup
    have hfirst : insertLoop a.addr 0 os false = insertLoop a.addr 1 (os ++ hexGroup (a.group 0)) false := by
      rw [insertLoop, if_pos (by decide), if_neg (fun h => hgroup h.1)]
      rfl
    rw [hfirst, insertEnd_written a 7 _ rfl (by decide) hgroup]
    by_cases hzero : 0 ∈ a.groupsFrom 1
    · rw [if_pos hzero, if_pos (List.mem_cons_of_mem _ hzero), List.takeWhile_cons_of_pos (by simpa using hcons),
        List.dropWhile_cons_of_pos (by simpa using hcons), joined_cons]
      simp
    · have hall : (a.groupsFrom 1).takeWhile (· ≠ 0) = a.groupsFrom 1 := by
        apply List.takeWhile_eq_self_iff.mpr
        intro g hg
        simpa using fun h : g = 0 => hzero (h ▸ hg)
      have hmem : 0 ∉ a.group 0 :: a.groupsFrom 1 := by
        rw [List.mem_cons, or_iff_right (fun h => hcons h.symm)]
        exact hzero
      rw [if_neg hzero, if_neg hmem, hall, joined_cons]
      simp

theorem insert_eq : a.insert =
    ascii "[" ++ elided (chr ':') hexGroup 0 a.groups ++ ascii "]:" ++ numeral 10 digit a.getPort.toNat := by
  rw [IPv6Address.insert, insertEnd_eq]

end

example : (IPv6Address.new [0x20, 0x01, 0x0d, 0xb8, 0, 0, 0, 7, 0, 0, 0, 0, 0, 0, 0, 0] 80 rfl).insert =
    ascii "[2001:db8::7:0:0:0:0]:80" := by
  rw [insert_eq]
  decide

/-! ## The text -/

/-- What is promised of the text of an address: its form, one `::` at most, and that it reads back. -/
structure TextFaithful (a : IPv6Address) : Prop where
  form : ∃ inside, a.insert = ascii "[" ++ inside ++ ascii "]:" ++ numeral 10 digit a.getPort.toNat ∧
    ∀ c ∈ inside, c = chr ':' ∨ (digitValue c).isSome = true
  once : occurrences (ascii "::") a.insert ≤ 1
  decodes : decode a.insert = some (a.s6_addr, a.getPort)

theorem mem_joined {xs : List (BitVec 16)} {c : UInt8} (hc : c ∈ joined (chr ':') hexGroup xs) :
    c = chr ':' ∨ (digitValue c).isSome = true := by
  have hdigit : ∀ g, c ∈ hexGroup g → (digitValue c).isSome = true := by
    intro g hg
    apply Option.isSome_iff_ne_none.mpr
    intro hnone
    exact not_mem_numeral (by decide) (by decide) hnone g.toNat hg
  cases xs with
  | nil => cases hc
  | cons g gs =>
    rw [joined_cons, List.mem_append] at hc
    rcases hc with hc | hc
    · exact Or.inr (hdigit g hc)
    · obtain ⟨g', -, hg'⟩ := List.mem_flatMap.mp hc
      rcases List.mem_cons.mp hg' with hcolon | hg'
      · exact Or.inl hcolon
      · exact Or.inr (hdigit g' hg')

theorem mem_inside {gs : List (BitVec 16)} {c : UInt8} (hc : c ∈ elided (chr ':') hexGroup 0 gs) :
    c = chr ':' ∨ (digitValue c).isSome = true := by
  unfold elided at hc
  split at hc
  · rw [List.mem_append, List.mem_cons, List.mem_cons] at hc
    rcases hc with hc | hc | hc | hc
    · exact mem_joined hc
    · exact Or.inl hc
    · exact Or.inl hc
    · exact mem_joined hc
  · exact mem_joined hc

theorem decode_insert (a : IPv6Address) : decode a.insert = some (a.s6_addr, a.getPort) := by
  have hbracket : chr ']' ∉ elided (chr ':') hexGroup 0 a.groups := by
    intro hmem
    exact absurd (mem_inside hmem) (by decide)
  have hlength : a.groups.length = 8 := by
    rw [IPv6Address.groups, List.length_map, List.length_range']
  have hread := entries.readElided_elided 0 a.groups
  rw [hlength] at hread
  have htext : a.insert = chr '[' :: (elided (chr ':') hexGroup 0 a.groups ++
      chr ']' :: (chr ':' :: numeral 10 digit a.getPort.toNat)) := by
    rw [insert_eq]
    simp [ascii]
  rw [htext, decode, if_pos rfl, cut_append hbracket, Option.bind_some]
  simp only [List.head?_cons, if_true, hread, Option.bind_some, List.tail_cons,
    readWord_numeral (b := 10) (by decide) (by decide), Option.map_some, groups_flatMap]

theorem textFaithful (a : IPv6Address) : TextFaithful a where
  form := ⟨elided (chr ':') hexGroup 0 a.groups, insert_eq a, fun _ hc => mem_inside hc⟩
  once := by
    have hport : NoDouble (chr ':') (ascii "]:" ++ numeral 10 digit a.getPort.toNat) := by
      have hdigits := not_mem_numeral (b := 10) (c := chr ':') (by decide) (by decide) (by decide) a.getPort.toNat
      have hclose : NoDouble (chr ':') (ascii "]:") := List.isChain_pair.mpr (by decide)
      apply hclose.append (noDouble_of_not_mem hdigits)
      right
      intro hhead
      exact hdigits (List.mem_of_head? hhead)
    rw [insert_eq, List.append_assoc]
    exact entries.occurrences_elided_le 0 a.groups (List.isChain_singleton _) (by decide) hport (by simp [ascii]; decide)
  decodes := decode_insert a

/-- **The text of an IPv6 address** has all of the address and its port: of the form `[groups]:port` with one
`::` at most it reads back as what it was written from, and two have the same text only if they are the
same. -/
theorem ipv6_text_faithful :
    (∀ a : IPv6Address, TextFaithful a) ∧
      ∀ a b : IPv6Address, a.insert = b.insert ↔ a.s6_addr = b.s6_addr ∧ a.getPort = b.getPort := by
  refine ⟨textFaithful, ?_⟩
  intro a b
  constructor
  · intro htext
    have hboth := (decode_insert a).symm.trans ((congrArg decode htext).trans (decode_insert b))
    simpa using hboth
  · rintro ⟨hbytes, hport⟩
    have haddr : a.addr = b.addr := by
      funext i
      rw [IPv6Address.addr, IPv6Address.addr, hbytes]
    rw [IPv6Address.insert, IPv6Address.insert, haddr, hport]

end Sylar.Address
