import Mathlib.Algebra.Order.Ring.Nat
import Mathlib.Data.List.Basic
import Sylar.ByteArray.Safety

/- `writeToFile`, and when it agrees with `toString` and `getReadBuffers`.

   Its loop takes `min(read_size, m_baseSize) - diff` bytes of a block, where `diff` is the
   offset in the block. From the start of a block on, that is the block or what is left
   (`fileLoop_aligned`). In the first block it is right only when what is left reaches the
   end of the block: with less the length is too short by `diff`, the loop goes on to the
   next block with a position still in the old one, and the length there is negative.
   `exports_agree` says which states are which.

   `read_size`, `pos` and `len` are `int64_t` and hold every size; `diff` is an `int`, and
   an offset from 2^31 on does not fit. -/
namespace Sylar.ByteArray
open Sylar.Lib

/-- The arguments of an `ofs.write`: `len` bytes from `off` on in block `node`. -/
structure FileWrite where
  node : Nat
  off : Int
  len : Int
  deriving DecidableEq, Repr

/-- A value as an `int`. -/
def toInt (v : Int) : Int := v.bmod 0x100000000

/-- The loop of `writeToFile` over the chain from the current block on. -/
def fileLoop (baseSize : Nat) : Nat → List Node → Int → Int → Except Err (List FileWrite)
  | _, [], _, read_size => if read_size > 0 then .error .nullNode else .ok []
  | i, _ :: rest, pos, read_size =>
    if read_size > 0 then do
      let diff := toInt (pos % baseSize)
      let len := (if read_size > baseSize then (baseSize : Int) else read_size) - diff
      let writes ← fileLoop baseSize (i + 1) rest (pos + len) (read_size - len)
      pure (⟨i, diff, len⟩ :: writes)
    else .ok []

/-- `ByteArray::writeToFile`: what it returns and what it passes to `ofs.write`. -/
def writeToFile (opened : Bool) : M (Bool × List FileWrite) := do
  if !opened then return (false, [])
  let ba ← get
  let (i, cur) := match ba.cur with
    | none => (ba.nodes.length, [])
    | some i => (i, ba.nodes.drop i)
  let writes ← lift (fileLoop ba.baseSize i cur ba.position (getReadSize ba))
  return (true, writes)

/-- The bytes an `ofs.write` puts in the file: none for a length that is not positive. -/
def FileWrite.bytes (nodes : List Node) (w : FileWrite) : Except Err (List UInt8) :=
  if w.len ≤ 0 then .ok []
  else if w.off < 0 then .error .badAccess
  else (⟨w.node, w.off.toNat, w.len.toNat⟩ : Iovec).load nodes

/-- The file. -/
def fileBytes (nodes : List Node) : List FileWrite → Except Err (List UInt8)
  | [] => .ok []
  | w :: rest => do
    let bs ← w.bytes nodes
    let tl ← fileBytes nodes rest
    pure (bs ++ tl)

/-! ## The loop -/

theorem toInt_of_lt {n : Nat} (h : n < 2 ^ 31) : toInt n = n := by
  unfold toInt
  rw [Int.bmod_eq_of_le] <;> omega

/-- From 2^31 to 2^32 the offset comes out negative. -/
theorem toInt_neg {n : Nat} (h : 2 ^ 31 ≤ n) (h' : n < 2 ^ 32) : toInt n < 0 := by
  unfold toInt
  rw [Int.bmod_def]
  omega

theorem fileLoop_done {b : Nat} (i : Nat) (chain : List Node) (pos : Int) {read_size : Int} (h : read_size ≤ 0) :
    fileLoop b i chain pos read_size = .ok [] := by
  cases chain with
  | nil => rw [fileLoop, if_neg (by omega)]
  | cons n rest => rw [fileLoop, if_neg (by omega)]

theorem fileLoop_cons {b : Nat} (i : Nat) (n : Node) (rest : List Node) (pos : Int) {read_size : Int}
    (h : 0 < read_size) {diff len : Int} (hdiff : toInt (pos % b) = diff)
    (hlen : (if read_size > b then (b : Int) else read_size) - diff = len) :
    fileLoop b i (n :: rest) pos read_size =
      (fileLoop b (i + 1) rest (pos + len) (read_size - len) >>= fun writes => pure (⟨i, diff, len⟩ :: writes)) := by
  subst hdiff hlen
  rw [fileLoop, if_pos h]

theorem bytes_head (pre : List Node) (n : Node) (rest : List Node) (off : Nat) {len : Nat} (hlen : 0 < len)
    (h : off + len ≤ n.size) :
    (⟨pre.length, off, len⟩ : FileWrite).bytes (pre ++ n :: rest) = .ok (slice n.ptr off len) := by
  have hpos : ¬ ((len : Int) ≤ 0) := by omega
  have hoff : ¬ ((off : Int) < 0) := by omega
  simp only [FileWrite.bytes, if_neg hpos, if_neg hoff, Int.toNat_natCast]
  exact load_head pre n rest off len h

/-- A write up to the end of the first block, and the writes behind it. -/
theorem fileBytes_cross {b i : Nat} {n : Node} (hn : n.ptr.length = b) (pre rest : List Node) {d size : Nat}
    (hd : d < b) (hbig : b - d ≤ size) {writes : List FileWrite}
    (hfile : ∀ pre : List Node, pre.length = i + 1 →
      fileBytes (pre ++ rest) writes = .ok (slice (content rest) 0 (size - (b - d)))) (hpre : pre.length = i) :
    fileBytes (pre ++ n :: rest) (⟨i, d, ((b - d : Nat) : Int)⟩ :: writes) =
      .ok (slice (content (n :: rest)) d size) := by
  subst hpre
  have hbehind := hfile (pre ++ [n]) (by simp)
  rw [List.append_assoc, List.singleton_append] at hbehind
  have hcross : slice (n.ptr ++ content rest) d size =
      slice n.ptr d (n.ptr.length - d) ++ slice (content rest) 0 (size - (n.ptr.length - d)) :=
    slice_append_cross (by omega) (by omega)
  rw [hn] at hcross
  rw [fileBytes, hbehind, content_cons, hcross, bytes_head pre n rest d (by omega) (by rw [Node.size]; omega)]
  rfl

/-- From the start of a block on, the loop writes what is left, each time at least a byte. -/
theorem fileLoop_aligned {b : Nat} (hb : 0 < b) : ∀ (chain : List Node) (i size : Nat) (pos : Int), Blocks b chain →
    pos % b = 0 → size ≤ b * chain.length →
    ∃ writes, fileLoop b i chain pos size = .ok writes ∧ (∀ w ∈ writes, 0 < w.len) ∧
      ∀ pre : List Node, pre.length = i →
        fileBytes (pre ++ chain) writes = .ok (slice (content chain) 0 size) := by
  intro chain
  induction chain with
  | nil =>
    intro i size pos _ _ hroom
    have hz : size = 0 := by simpa using hroom
    subst hz
    exact ⟨[], rfl, by simp, fun _ _ => rfl⟩
  | cons n rest ih =>
    intro i size pos hB halign hroom
    have hn : n.ptr.length = b := hB.head
    rw [List.length_cons, Nat.mul_succ] at hroom
    by_cases hz : size = 0
    · subst hz
      refine ⟨[], fileLoop_done i _ pos (Int.le_refl 0), by simp, ?_⟩
      intro pre _
      rw [slice_zero]
      rfl
    · have hdiff : toInt (pos % b) = 0 := by
        rw [halign]
        rfl
      by_cases hbig : (size : Int) > b
      · -- the whole block
        obtain ⟨writes, hloop, hpos, hfile⟩ := ih (i + 1) (size - b) (pos + b) hB.tail
          (by rw [Int.add_emod_right, halign]) (by omega)
        have hcast : ((size - b : Nat) : Int) = size - b := by omega
        refine ⟨⟨i, 0, b⟩ :: writes, ?_, ?_, ?_⟩
        · rw [fileLoop_cons i n rest pos (by omega) hdiff (show _ = (b : Int) by rw [if_pos hbig, Int.sub_zero]),
            ← hcast, hloop]
          rfl
        · simp only [List.forall_mem_cons]
          exact ⟨by omega, hpos⟩
        · intro pre hpre
          exact fileBytes_cross hn pre rest hb (by omega) hfile hpre
      · -- the rest of the data, in this block
        refine ⟨[⟨i, 0, size⟩], ?_, ?_, ?_⟩
        · rw [fileLoop_cons i n rest pos (by omega) hdiff (show _ = (size : Int) by rw [if_neg hbig, Int.sub_zero]),
            fileLoop_done _ _ _ (by omega)]
          rfl
        · intro w hw
          obtain rfl := List.mem_singleton.mp hw
          exact Int.natCast_pos.mpr (Nat.pos_of_ne_zero hz)
        · intro pre hpre
          subst hpre
          have hhead : (⟨pre.length, 0, size⟩ : FileWrite).bytes (pre ++ n :: rest) = .ok (slice n.ptr 0 size) :=
            bytes_head pre n rest 0 (Nat.pos_of_ne_zero hz) (by rw [Node.size]; omega)
          rw [fileBytes, hhead, content_cons, slice_append_left (by omega)]
          simp [fileBytes, bind, Except.bind, pure, Except.pure]

/-- Within a block the loop is right when the data reaches the end of the block. -/
theorem fileLoop_inside {b : Nat} {n : Node} {rest : List Node} {i d size : Nat} {pos : Int}
    (hB : Blocks b (n :: rest)) (hd : d < b) (hint : d < 2 ^ 31) (hpos : pos % b = d) (hbig : b ≤ size)
    (hroom : d + size ≤ b * (rest.length + 1)) :
    ∃ writes, fileLoop b i (n :: rest) pos size = .ok writes ∧ (∀ w ∈ writes, 0 < w.len) ∧
      ∀ pre : List Node, pre.length = i →
        fileBytes (pre ++ n :: rest) writes = .ok (slice (content (n :: rest)) d size) := by
  have hn : n.ptr.length = b := hB.head
  rw [Nat.mul_succ] at hroom
  have hdiff : toInt (pos % b) = d := by rw [hpos, toInt_of_lt hint]
  have hlen : (if (size : Int) > b then (b : Int) else size) - d = ((b - d : Nat) : Int) := by
    split <;> omega
  -- behind this write the position is at the start of the next block
  have hnext : (pos + ((b - d : Nat) : Int)) % b = 0 := by
    have hcast : ((b - d : Nat) : Int) = b - d := by omega
    have hdm := Int.emod_add_mul_ediv pos b
    have hsum : pos + ((b - d : Nat) : Int) = b * (pos / b + 1) := by
      rw [hcast, Int.mul_add, Int.mul_one]
      omega
    rw [hsum, Int.mul_emod_right]
  obtain ⟨writes, hloop, hwpos, hfile⟩ := fileLoop_aligned (by omega) rest (i + 1) (size - (b - d))
    (pos + ((b - d : Nat) : Int)) hB.tail hnext (by omega)
  refine ⟨⟨i, d, ((b - d : Nat) : Int)⟩ :: writes, ?_, ?_, ?_⟩
  · have hcast : (size : Int) - ((b - d : Nat) : Int) = ((size - (b - d) : Nat) : Int) := by omega
    rw [fileLoop_cons i n rest pos (by omega) hdiff hlen, hcast, hloop]
    rfl
  · simp only [List.forall_mem_cons]
    exact ⟨by omega, hwpos⟩
  · intro pre hpre
    exact fileBytes_cross hn pre rest hd (by omega) hfile hpre

/-- A loop that ended has made its first write. -/
theorem fileLoop_ok {b i : Nat} {n : Node} {rest : List Node} {pos read_size : Int} {writes : List FileWrite}
    (h : 0 < read_size) {diff len : Int} (hdiff : toInt (pos % b) = diff)
    (hlen : (if read_size > b then (b : Int) else read_size) - diff = len)
    (hloop : fileLoop b i (n :: rest) pos read_size = .ok writes) :
    ∃ later, writes = ⟨i, diff, len⟩ :: later ∧
      fileLoop b (i + 1) rest (pos + len) (read_size - len) = .ok later := by
  rw [fileLoop_cons i n rest pos h hdiff hlen] at hloop
  cases hlater : fileLoop b (i + 1) rest (pos + len) (read_size - len) with
  | error e =>
    rw [hlater] at hloop
    cases hloop
  | ok later =>
    rw [hlater] at hloop
    cases hloop
    exact ⟨later, rfl, rfl⟩

theorem fileBytes_later {nodes : List Node} {w : FileWrite} {later : List FileWrite} {bs : List UInt8}
    (h : fileBytes nodes (w :: later) = .ok bs) : ∃ tl, fileBytes nodes later = .ok tl := by
  rw [fileBytes] at h
  cases hw : w.bytes nodes with
  | error e =>
    rw [hw] at h
    cases h
  | ok hd =>
    rw [hw] at h
    cases htl : fileBytes nodes later with
    | error e =>
      rw [htl] at h
      cases h
    | ok tl => exact ⟨tl, rfl⟩

/-- A write in front of its block is no write of the data. -/
theorem fileBytes_negative {nodes : List Node} {i : Nat} {off len : Int} {later : List FileWrite} (hlen : 0 < len)
    (hoff : off < 0) : fileBytes nodes (⟨i, off, len⟩ :: later) = .error .badAccess := by
  have hpos : ¬ len ≤ 0 := by omega
  simp only [fileBytes, FileWrite.bytes, if_neg hpos, if_pos hoff]
  rfl

/-- Within a block whose end the data does not reach, some length is not positive, or an offset is not in its
block, or the loop meets the null block. -/
theorem fileLoop_short {b : Nat} {nodes : List Node} {n : Node} {rest : List Node} {i d size : Nat} {pos : Int}
    {writes : List FileWrite} {bs : List UInt8} (hb : b ≤ 2 ^ 32) (hd : d < b) (hz : 0 < d) (hpos : pos % b = d)
    (hsize : 0 < size) (hshort : 2 ^ 31 ≤ d ∨ size < b) (hloop : fileLoop b i (n :: rest) pos size = .ok writes)
    (hall : ∀ w ∈ writes, 0 < w.len) : fileBytes nodes writes ≠ .ok bs := by
  intro hfile
  by_cases hint : d < 2 ^ 31
  · -- the first length is short by `d`
    have hlt : size < b := by omega
    have hdiff : toInt (pos % b) = d := by rw [hpos, toInt_of_lt hint]
    have hlen : (if (size : Int) > b then (b : Int) else size) - d = size - d := by
      rw [if_neg (by omega)]
    obtain ⟨later, rfl, hlater⟩ := fileLoop_ok (by omega) hdiff hlen hloop
    have hfirst : (0 : Int) < size - d := hall _ List.mem_cons_self
    have hleft : (size : Int) - (size - d) = d := by omega
    have hmod : (pos + (size - d)) % b = size := by
      have hdm := Int.emod_add_mul_ediv pos b
      have hsum : pos + ((size : Int) - d) = size + b * (pos / b) := by omega
      rw [hsum, Int.add_mul_emod_self_left, Int.emod_eq_of_lt (by omega) (by omega)]
    rw [hleft] at hlater
    cases rest with
    | nil =>
      rw [fileLoop, if_pos (by omega)] at hlater
      cases hlater
    | cons m rest =>
      obtain ⟨last, rfl, -⟩ := fileLoop_ok (by omega) (congrArg toInt hmod) rfl hlater
      have hsecond := hall _ (List.mem_cons_of_mem _ List.mem_cons_self)
      dsimp only at hsecond
      obtain ⟨tl, htl⟩ := fileBytes_later hfile
      by_cases hint' : size < 2 ^ 31
      · rw [toInt_of_lt hint', if_neg (by omega)] at hsecond
        omega
      · have hneg : toInt size < 0 := toInt_neg (Nat.not_lt.mp hint') (by omega)
        rw [fileBytes_negative hsecond hneg] at htl
        cases htl
  · obtain ⟨later, rfl, -⟩ := fileLoop_ok (by omega) (congrArg toInt hpos) rfl hloop
    have hneg : toInt d < 0 := toInt_neg (Nat.not_lt.mp hint) (by omega)
    have hfirst := hall _ List.mem_cons_self
    dsimp only at hfirst
    rw [fileBytes_negative hfirst hneg] at hfile
    cases hfile

/-! ## Agreement -/

/-- The file, the string and the buffers hold `content[position, size)`; every length passed to `ofs.write` is
positive, the loop ends without touching a null node, and the object is as it was. -/
def ExportsAgree (ba : ByteArray) : Prop :=
  (∃ writes, (writeToFile true).on ba = (.ok (true, writes), ba) ∧ (∀ w ∈ writes, 0 < w.len) ∧
    fileBytes ba.nodes writes = .ok (readable ba)) ∧
  toString.on ba = (.ok (readable ba), ba) ∧
  ∀ len, getReadSize ba ≤ len → ∃ iovs, (getReadBuffers len).on ba = (.ok (getReadSize ba, iovs), ba) ∧
    gather ba.nodes iovs = .ok (readable ba)

/-- There is nothing to write, or the position is at the start of a block, or its offset is an `int` and the
readable bytes are at least a block. -/
def FileFits (ba : ByteArray) : Prop :=
  getReadSize ba = 0 ∨ ba.position % ba.baseSize = 0 ∨
    (ba.position % ba.baseSize < 2 ^ 31 ∧ ba.baseSize ≤ getReadSize ba)

section
variable {ba : ByteArray}

/-- The string and the buffers are right in every state. -/
theorem exportsAgree_iff_file (h : Inv ba) :
    ExportsAgree ba ↔ ∃ writes, (writeToFile true).on ba = (.ok (true, writes), ba) ∧ (∀ w ∈ writes, 0 < w.len) ∧
      fileBytes ba.nodes writes = .ok (readable ba) := by
  constructor
  · intro hagree
    exact hagree.1
  · intro hfile
    refine ⟨hfile, toString_spec h, ?_⟩
    intro len hlen
    obtain ⟨iovs, hrun, hg⟩ := getReadBuffers_spec h len
    have hmin : min len (abs ba).readSize = getReadSize ba := Nat.min_eq_right hlen
    rw [hmin] at hrun hg
    exact ⟨iovs, hrun, hg⟩

/-- With something to read, the loop starts in the block of the position. -/
theorem writeToFile_run (h : Inv ba) (hz : getReadSize ba ≠ 0) :
    (writeToFile true).on ba =
      ((fileLoop ba.baseSize (ba.position / ba.baseSize) (ba.nodes.drop (ba.position / ba.baseSize)) ba.position
        (getReadSize ba)).map fun writes => (true, writes), ba) := by
  have hs := h.size_le
  have hrs : getReadSize ba = ba.size - ba.position := rfl
  rw [writeToFile]
  simp only [Bool.not_true, Bool.false_eq_true, if_false]
  rw [on_bind_ok _ (on_get ba), h.cur_some (by omega)]
  simp only [on_bind, on_lift]
  cases fileLoop ba.baseSize (ba.position / ba.baseSize) (ba.nodes.drop (ba.position / ba.baseSize)) ba.position
    (getReadSize ba) with
  | error e => rfl
  | ok writes => rfl

/-- The chain from the block of the position on. -/
theorem Inv.chain_at (h : Inv ba) (hp : ba.position < ba.capacity) :
    ∃ n rest, ba.nodes.drop (ba.position / ba.baseSize) = n :: rest ∧ Blocks ba.baseSize (n :: rest) ∧
      ba.position % ba.baseSize + (ba.capacity - ba.position) = ba.baseSize * (rest.length + 1) ∧
      ∀ size, slice (content ba.nodes) ba.position size =
        slice (content (n :: rest)) (ba.position % ba.baseSize) size := by
  have hlt := h.index_lt hp
  have hafter := h.after_len hp
  have hsplit := h.position_split
  cases hdrop : ba.nodes.drop (ba.position / ba.baseSize) with
  | nil =>
    have hlen := congrArg List.length hdrop
    rw [List.length_drop, List.length_nil] at hlen
    omega
  | cons n rest =>
    rw [hdrop, List.length_cons] at hafter
    refine ⟨n, rest, rfl, hdrop ▸ h.blocks.drop _, by omega, ?_⟩
    intro size
    have hat := slice_append_at (content (n :: rest)) (ba.position % ba.baseSize) size (h.before_len hp)
    rw [hsplit, ← hdrop, ← h.content_split] at hat
    rw [hat, hdrop]

theorem exportsAgree_of_fits (h : Inv ba) (hfits : FileFits ba) : ExportsAgree ba := by
  have hs := h.size_le
  have hrs : getReadSize ba = ba.size - ba.position := rfl
  rw [exportsAgree_iff_file h]
  by_cases hz : getReadSize ba = 0
  · refine ⟨[], ?_, by simp, ?_⟩
    · rw [writeToFile]
      simp only [Bool.not_true, Bool.false_eq_true, if_false]
      rw [on_bind_ok _ (on_get ba), hz]
      simp only [on_bind, on_lift, fileLoop_done _ _ _ (show ((0 : Nat) : Int) ≤ 0 from Int.le_refl 0), on_pure]
    · rw [readable, hz, slice_zero]
      rfl
  · obtain ⟨n, rest, hdrop, hB, hroom, hslice⟩ := h.chain_at (by omega)
    have hmod : (ba.position : Int) % ba.baseSize = ((ba.position % ba.baseSize : Nat) : Int) := by omega
    have hd : ba.position % ba.baseSize < ba.baseSize := Nat.mod_lt _ h.base_pos
    have hloop : ∃ writes, fileLoop ba.baseSize (ba.position / ba.baseSize) (n :: rest) ba.position (getReadSize ba) =
        .ok writes ∧ (∀ w ∈ writes, 0 < w.len) ∧ ∀ pre : List Node, pre.length = ba.position / ba.baseSize →
          fileBytes (pre ++ n :: rest) writes =
            .ok (slice (content (n :: rest)) (ba.position % ba.baseSize) (getReadSize ba)) := by
      rcases hfits with hz' | hstart | ⟨hint, hbig⟩
      · exact absurd hz' hz
      · rw [hstart]
        exact fileLoop_aligned h.base_pos _ _ _ _ hB (by rw [hmod, hstart]; rfl) (by rw [List.length_cons]; omega)
      · exact fileLoop_inside hB hd hint hmod hbig (by omega)
    obtain ⟨writes, hrun, hall, hfile⟩ := hloop
    have hfile' := hfile (ba.nodes.take (ba.position / ba.baseSize)) (by
      have hlt := h.index_lt (by omega)
      rw [List.length_take]
      omega)
    rw [← hdrop, List.take_append_drop] at hfile'
    refine ⟨writes, ?_, hall, ?_⟩
    · rw [writeToFile_run h hz, hdrop, hrun]
      rfl
    · rw [hfile', readable, hslice, hdrop]

theorem fits_of_exportsAgree (h : Inv ba) (hb : ba.baseSize ≤ 2 ^ 32) (hagree : ExportsAgree ba) : FileFits ba := by
  have hs := h.size_le
  have hrs : getReadSize ba = ba.size - ba.position := rfl
  by_contra hnot
  simp only [FileFits, not_or, not_and] at hnot
  obtain ⟨hz, hd, hshort⟩ := hnot
  obtain ⟨writes, hrun, hall, hfile⟩ := (exportsAgree_iff_file h).mp hagree
  obtain ⟨n, rest, hdrop, -, -, -⟩ := h.chain_at (by omega)
  rw [writeToFile_run h hz, hdrop] at hrun
  have hmod : (ba.position : Int) % ba.baseSize = ((ba.position % ba.baseSize : Nat) : Int) := by omega
  cases hloop : fileLoop ba.baseSize (ba.position / ba.baseSize) (n :: rest) ba.position (getReadSize ba) with
  | error e =>
    rw [hloop] at hrun
    cases hrun
  | ok ws =>
    rw [hloop] at hrun
    cases hrun
    exact fileLoop_short hb (Nat.mod_lt _ h.base_pos) (Nat.pos_of_ne_zero hd) hmod (Nat.pos_of_ne_zero hz) (by omega)
      hloop hall hfile

end

/-- **Export paths**: in every reachable state, the file, the string and the buffers agree on `content[position, size)`
when there is nothing to read, the position is at the start of a block, or a block's worth of bytes is readable at an
offset that is an `int`; and with blocks of up to 2^32 bytes in no other state. -/
theorem exports_agree (heap : Nat → Nat → UInt8) (base : Nat) (hb : 1 ≤ base) (ba : ByteArray)
    (r : Reachable heap base ba) :
    (FileFits ba → ExportsAgree ba) ∧ (base ≤ 2 ^ 32 → ExportsAgree ba → FileFits ba) := by
  obtain ⟨h, hbase⟩ := r.inv hb
  subst hbase
  exact ⟨exportsAgree_of_fits h, fits_of_exportsAgree h⟩

/-- Three bytes in blocks of two. -/
theorem exports_agree_start : ExportsAgree (holding [1, 2, 3]) :=
  (exports_agree (fun _ _ => 0) 2 (by decide) _ (reachable_holding [1, 2, 3] rfl)).1 (Or.inr (Or.inl (by decide)))

/-- A block of four bytes with three in it, from the second on: the first write is one byte short, and the next block
is null. -/
theorem exports_disagree :
    ∃ ba, Reachable (fun _ _ => 0) 4 ba ∧ readable ba = [2, 3] ∧ (toString.on ba).1 = .ok [2, 3] ∧
      ((writeToFile true).on ba).1 = .error .nullNode ∧ ¬ ExportsAgree ba := by
  have hwrite : Reachable (fun _ _ => 0) 4 (((Op.write [1, 2, 3]).call fun _ _ => 0).on (new (fun _ _ => 0) 4)).2 :=
    Reachable.new.of_ok (.write [1, 2, 3]) (by rfl)
  refine ⟨_, hwrite.of_ok (.setPosition 1) (by rfl), by rfl, by rfl, by rfl, ?_⟩
  intro hagree
  obtain ⟨writes, hrun, -⟩ := hagree.1
  cases congrArg Prod.fst hrun

end Sylar.ByteArray
