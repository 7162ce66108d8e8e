import Mathlib.Data.List.Basic
import Sylar.Lib.Machine
import Sylar.ByteArray.Flat

/- The block buffer refines the flat one.

   One specification for each operation of the source (`write_spec`, `read_spec`,
   `setPosition_spec`, `clear_spec`, `toString_spec`, `getReadBuffers_spec`,
   `getWriteBuffers_spec`), then the whole-run result: from a new object, every
   finite sequence of operations is observed exactly as on the flat buffer. -/
namespace Sylar.ByteArray
open Sylar.Lib

section
variable {heap : Nat → Nat → UInt8} {ba : ByteArray}

theorem Inv.cur_some (h : Inv ba) (hp : ba.position < ba.capacity) :
    ba.cur = some (ba.position / ba.baseSize) := by
  rw [h.cur_eq, if_pos hp]

theorem Inv.cur_none (h : Inv ba) (hp : ba.position = ba.capacity) : ba.cur = none := by
  rw [h.cur_eq, if_neg (by omega)]

theorem Inv.cur_none_iff (h : Inv ba) : ba.cur = none ↔ ba.position = ba.capacity := by
  constructor
  · intro hnone
    have hp := h.position_le
    have hs := h.size_le
    by_contra hne
    rw [h.cur_some (by omega)] at hnone
    cases hnone
  · exact h.cur_none

/-- Writing where there is room. -/
theorem copyIn_spec (h : Inv ba) (buf : List UInt8) (hn : 0 < buf.length)
    (hroom : ba.position + buf.length ≤ ba.capacity) :
    ∃ ba', (copyIn buf).on ba = (.ok (), ba') ∧
      Shows ba { abs ba with
        bytes := splice (content ba.nodes) ba.position buf
        position := ba.position + buf.length
        size := max ba.size (ba.position + buf.length) } ba' := by
  obtain ⟨chain, hw, hB, hl, hc⟩ := writeLoop_at h hn hroom
  have hmax : (if ba.position + buf.length > ba.size then ba.position + buf.length else ba.size) =
      max ba.size (ba.position + buf.length) := by
    rw [Nat.max_def]; split <;> split <;> omega
  refine ⟨{ ba with
    nodes := ba.nodes.take (ba.position / ba.baseSize) ++ chain
    cur := if ba.position + buf.length < ba.capacity
      then some ((ba.position + buf.length) / ba.baseSize) else none
    position := ba.position + buf.length
    size := max ba.size (ba.position + buf.length) }, ?_, ?_⟩
  · rw [copyIn, on_bind_ok _ (on_get ba), h.cur_some (by omega)]
    simp only [hw, ← hmax]
    rfl
  · have hle := h.size_le
    refine ⟨⟨h.base_pos, Nat.le_max_right _ _, Nat.max_le.mpr ⟨hle, hroom⟩, hB, ?_, ?_, rfl⟩,
      by simp only [abs, hc], rfl, rfl⟩
    · intro hnil
      apply h.root
      apply List.eq_nil_of_length_eq_zero
      rw [← hl]; exact congrArg List.length hnil
    · simp only [hl]; exact h.capacity_eq

theorem write_spec (heap : Nat → Nat → UInt8) (h : Inv ba) (buf : List UInt8) :
    ∃ ba', (write heap buf).on ba = (.ok (), ba') ∧
      Shows ba ((abs ba).write heap ba.baseSize buf) ba' := by
  by_cases hz : buf.length = 0
  · -- nothing to write: neither side grows
    have hnil : buf = [] := List.eq_nil_of_length_eq_zero hz
    subst hnil
    refine ⟨ba, by simp [write], h, ?_, rfl, rfl⟩
    have hcap : (abs ba).capacity = ba.capacity := h.content_len
    have hp := h.position_le
    have hs := h.size_le
    have hroom : (abs ba).position + 0 ≤ (abs ba).capacity := by
      rw [hcap]; exact Nat.le_trans hp hs
    simp only [Flat.write, List.length_nil, grow_of_room h.base_pos hroom]
    simp [abs, splice, hp]
  · obtain ⟨hs, hroom, hpos⟩ := addCapacity_spec heap h buf.length
    obtain ⟨ba', hrun, hs'⟩ := copyIn_spec hs.inv buf (by omega) (by omega)
    refine ⟨ba', ?_, ?_⟩
    · rw [← hrun]
      simp only [write, if_neg hz]
      rw [on_bind_ok ba (on_modify ba _)]
    · have hg := hs.trans hs'
      refine ⟨hg.inv, ?_, hg.base_eq, hg.endian_eq⟩
      rw [hg.abs_eq, Flat.write, ← hs.abs_eq]
      rfl

/-- The object with the position `n` bytes further, and the block it then lies in. -/
def advance (n : Nat) (ba : ByteArray) : ByteArray :=
  { ba with
    position := ba.position + n
    cur := if ba.position + n < ba.capacity then some ((ba.position + n) / ba.baseSize) else none }

theorem Inv.advance (h : Inv ba) {n : Nat} (hn : n ≤ getReadSize ba) : Inv (advance n ba) := by
  have hp := h.position_le
  have hroom : ba.position + n ≤ ba.size := by
    unfold getReadSize at hn
    omega
  exact ⟨h.base_pos, hroom, h.size_le, h.blocks, h.root, h.capacity_eq, rfl⟩

/-- A read of more than there is. -/
theorem read_short {n : Nat} (hn : getReadSize ba < n) :
    (read n).on ba = (.error (.outOfRange "not enough len"), ba) := by
  rw [read, on_bind_ok _ (on_get ba), if_pos hn, on_bind_error _ (on_throw ba _)]

/-- A read of no more than there is. -/
theorem Inv.read_enough (h : Inv ba) {n : Nat} (hn : 1 ≤ n) (hle : n ≤ getReadSize ba) :
    (read n).on ba = (.ok (slice (content ba.nodes) ba.position n), ByteArray.advance n ba) := by
  have hsize := h.size_le
  have hroom : ba.position + n ≤ ba.size := by
    unfold getReadSize at hle
    omega
  obtain ⟨iovs, hw, hg⟩ := walk_at h hn (by omega)
  have hnot : ¬ n > getReadSize ba := Nat.not_lt.mpr hle
  rw [read, on_bind_ok _ (on_get ba), if_neg hnot, h.cur_some (by omega)]
  simp only [if_neg (show ¬ n = 0 by omega), hw]
  simp only [on_bind, on_lift, on_set, on_pure, hg]
  rfl

theorem read_spec (h : Inv ba) {n : Nat} (hn : 1 ≤ n) :
    ∃ ba', (read n).on ba = (((abs ba).read n).1, ba') ∧ Shows ba ((abs ba).read n).2 ba' := by
  have hrs : (abs ba).readSize = getReadSize ba := rfl
  by_cases hbig : n > getReadSize ba
  · refine ⟨ba, ?_, ?_⟩
    · simp only [Flat.read, hrs, if_pos hbig]
      exact read_short hbig
    · simp only [Flat.read, hrs, if_pos hbig]
      exact h.shows
  · have hle : n ≤ getReadSize ba := Nat.not_lt.mp hbig
    refine ⟨advance n ba, ?_, ?_⟩
    · simp only [Flat.read, hrs, if_neg hbig]
      exact h.read_enough hn hle
    · simp only [Flat.read, hrs, if_neg hbig]
      exact ⟨h.advance hle, rfl, rfl, rfl⟩

theorem setPosition_spec (h : Inv ba) (v : Nat) :
    ∃ ba', (setPosition v).on ba = (((abs ba).setPosition v).1, ba') ∧
      Shows ba ((abs ba).setPosition v).2 ba' := by
  have hcap : (abs ba).capacity = ba.capacity := h.content_len
  by_cases hbig : v > ba.capacity
  · refine ⟨ba, ?_, ?_⟩
    · simp only [Flat.setPosition, hcap, if_pos hbig, setPosition]
      rw [on_bind_ok _ (on_get ba), if_pos hbig, on_bind_error _ (on_throw ba _)]
    · simp only [Flat.setPosition, hcap, if_pos hbig]; exact h.shows
  · have hv : v ≤ ba.baseSize * ba.nodes.length := by have := h.capacity_eq; omega
    have hseek := seek_spec h.base_pos ba.nodes 0 v h.blocks h.root hv
    have hmax : (if v > ba.size then v else ba.size) = max ba.size v := by
      rw [Nat.max_def]; split <;> split <;> omega
    have hle := h.size_le
    have hvc : v ≤ ba.capacity := by omega
    refine ⟨{ ba with position := v, size := max ba.size v,
                      cur := cursor ba.baseSize 0 ba.nodes.length v }, ?_, ?_⟩
    · simp only [Flat.setPosition, hcap, if_neg hbig, setPosition]
      rw [on_bind_ok _ (on_get ba), if_neg hbig, hmax]
      simp only [on_bind, on_lift, on_set, hseek]
    · simp only [Flat.setPosition, hcap, if_neg hbig]
      refine ⟨⟨h.base_pos, Nat.le_max_right _ _, Nat.max_le.mpr ⟨hle, hvc⟩, h.blocks, h.root,
        h.capacity_eq, ?_⟩, rfl, rfl, rfl⟩
      simp only [cursor, ← h.capacity_eq, Nat.zero_add]

theorem clear_spec (h : Inv ba) :
    ∃ ba', clear.on ba = (.ok (), ba') ∧ Shows ba ((abs ba).clear ba.baseSize) ba' := by
  obtain ⟨n, rest, hnodes⟩ : ∃ n rest, ba.nodes = n :: rest := by
    cases hn : ba.nodes with
    | nil => exact absurd hn h.root
    | cons n rest => exact ⟨n, rest, rfl⟩
  have hB := h.blocks
  rw [hnodes] at hB
  have hlen : n.ptr.length = ba.baseSize := hB.head
  refine ⟨_, on_modify ba _, ⟨h.base_pos, Nat.le_refl 0, Nat.zero_le _, h.blocks.take 1, ?_, ?_, ?_⟩,
    ?_, rfl, rfl⟩
  · simp [hnodes]
  · simp [hnodes]
  · simp [h.base_pos]
  · have hc : content (ba.nodes.take 1) = (content ba.nodes).take ba.baseSize := by
      rw [hnodes, content_cons, ← hlen, List.take_left']
      · simp [content]
      · rfl
    simp only [abs, Flat.clear, hc]

theorem toString_spec (h : Inv ba) : toString.on ba = (.ok (abs ba).toString, ba) := by
  have hle := h.size_le
  have hrs : getReadSize ba = ba.size - ba.position := rfl
  by_cases hz : getReadSize ba = 0
  · rw [toString, on_bind_ok _ (on_get ba), if_pos hz, on_pure]
    simp only [Flat.toString, show (abs ba).readSize = 0 from hz, slice_zero]
  · obtain ⟨iovs, hw, hg⟩ := walk_at h (n := getReadSize ba) (by omega) (by omega)
    have hsub : sizeSub ba.size ba.position = getReadSize ba := if_pos h.position_le
    rw [toString, on_bind_ok _ (on_get ba), if_neg hz, readAt, on_bind_ok _ (on_get ba), hsub,
      if_neg (Nat.lt_irrefl _), h.cur_some (by omega)]
    simp only [if_neg hz, hw, on_bind, on_lift, hg]
    rfl

/-- The pieces of the next `n` bytes, where there are that many. -/
theorem buffers_spec (h : Inv ba) {n : Nat} (hn : 0 < n) (hroom : ba.position + n ≤ ba.capacity) :
    ∃ iovs, (buffers n).on ba = (.ok (n, iovs), ba) ∧
      gather ba.nodes iovs = .ok (slice (content ba.nodes) ba.position n) := by
  obtain ⟨iovs, hw, hg⟩ := walk_at h hn hroom
  refine ⟨iovs, ?_, hg⟩
  rw [buffers, on_bind_ok _ (on_get ba), h.cur_some (by omega)]
  simp only [hw]
  rfl

theorem getReadBuffers_spec (h : Inv ba) (len : Nat) :
    ∃ iovs, (getReadBuffers len).on ba = (.ok (min len (abs ba).readSize, iovs), ba) ∧
      gather ba.nodes iovs =
        .ok (slice (content ba.nodes) ba.position (min len (abs ba).readSize)) := by
  have hle := h.size_le
  have hrs : (abs ba).readSize = getReadSize ba := rfl
  have hrs' : getReadSize ba = ba.size - ba.position := rfl
  have hmin : (if len > getReadSize ba then getReadSize ba else len) = min len (abs ba).readSize := by
    rw [Nat.min_def, hrs]; split <;> split <;> omega
  rw [getReadBuffers, on_bind_ok _ (on_get ba)]
  simp only [hmin]
  by_cases hz : min len (abs ba).readSize = 0
  · refine ⟨[], ?_, ?_⟩
    · rw [if_pos hz, on_pure, hz]
    · rw [hz, slice_zero]; rfl
  · rw [if_neg hz]
    have hroom : min len (abs ba).readSize ≤ (abs ba).readSize := Nat.min_le_right _ _
    exact buffers_spec h (by omega) (by omega)

theorem getWriteBuffers_spec (heap : Nat → Nat → UInt8) (h : Inv ba) (len : Nat) :
    ∃ ba' iovs, (getWriteBuffers heap len).on ba = (.ok (len, iovs), ba') ∧
      Shows ba ((abs ba).grow heap ba.baseSize len) ba' ∧
      gather ba'.nodes iovs = .ok (slice (content ba'.nodes) ba.position len) := by
  by_cases hz : len = 0
  · have hcap : (abs ba).capacity = ba.capacity := h.content_len
    have hroom : (abs ba).position + len ≤ (abs ba).capacity := by
      rw [hcap, hz]; exact Nat.le_trans h.position_le h.size_le
    refine ⟨ba, [], ?_, ?_, ?_⟩
    · rw [getWriteBuffers, if_pos hz, on_pure, hz]
    · rw [grow_of_room h.base_pos hroom]; exact h.shows
    · rw [hz, slice_zero]; rfl
  · obtain ⟨hs, hroom, hpos⟩ := addCapacity_spec heap h len
    obtain ⟨iovs, hrun, hg⟩ := buffers_spec hs.inv (n := len) (by omega) (by omega)
    refine ⟨_, iovs, ?_, hs, ?_⟩
    · rw [getWriteBuffers, if_neg hz, on_bind_ok ba (on_modify ba _), hrun]
    · rw [hg, hpos]

end

/-! ## Whole runs -/

/-- The operations of the refinement. -/
inductive BufOp where
  | write (buf : List UInt8)
  | read (n : Nat)
  | setPosition (v : Nat)
  | clear
  | toString
  | getReadBuffers (len : Nat)
  | getWriteBuffers (len : Nat)

/-- Reads ask for at least one byte. -/
def BufOp.Asks : BufOp → Prop
  | .read n => 1 ≤ n
  | _ => True

/-- What a caller sees of a call: the number and the bytes it returns (the bytes the
`iovec`s name, for the two `get…Buffers`) or what it throws, and the getters after it. -/
structure Obs where
  out : Except Err (Nat × List UInt8)
  position : Nat
  size : Nat
  readSize : Nat
  capacity : Nat

section
variable (heap : Nat → Nat → UInt8)

/-- An operation of the source, its results made uniform. -/
def BufOp.call : BufOp → M (Nat × List UInt8)
  | .write buf => do ByteArray.write heap buf; return (0, [])
  | .read n => do return (n, ← ByteArray.read n)
  | .setPosition v => do ByteArray.setPosition v; return (0, [])
  | .clear => do ByteArray.clear; return (0, [])
  | .toString => do return (0, ← ByteArray.toString)
  | .getReadBuffers len => do
    let (n, iovs) ← ByteArray.getReadBuffers len
    let ba ← get
    return (n, ← lift (gather ba.nodes iovs))
  | .getWriteBuffers len => do
    let (n, iovs) ← ByteArray.getWriteBuffers heap len
    let ba ← get
    return (n, ← lift (gather ba.nodes iovs))

/-- The same operation on the flat buffer. -/
noncomputable def BufOp.flat (base : Nat) (f : Flat) : BufOp → Except Err (Nat × List UInt8) × Flat
  | .write buf => (.ok (0, []), f.write heap base buf)
  | .read n => ((f.read n).1.map (n, ·), (f.read n).2)
  | .setPosition v => ((f.setPosition v).1.map fun _ => (0, []), (f.setPosition v).2)
  | .clear => (.ok (0, []), f.clear base)
  | .toString => (.ok (0, f.toString), f)
  | .getReadBuffers len =>
    (.ok (min len f.readSize, slice f.bytes f.position (min len f.readSize)), f)
  | .getWriteBuffers len =>
    (.ok (len, slice (f.grow heap base len).bytes f.position len), f.grow heap base len)

def step (op : BufOp) (ba : ByteArray) : Obs × ByteArray :=
  let r := (op.call heap).on ba
  ({ out := r.1, position := getPosition r.2, size := getSize r.2, readSize := getReadSize r.2,
     capacity := r.2.capacity }, r.2)

noncomputable def flatStep (base : Nat) (op : BufOp) (f : Flat) : Obs × Flat :=
  let r := op.flat heap base f
  ({ out := r.1, position := r.2.position, size := r.2.size, readSize := r.2.readSize,
     capacity := r.2.capacity }, r.2)

end

section
variable {heap : Nat → Nat → UInt8} {ba : ByteArray}

/-- One call refines the flat one. -/
theorem call_spec (heap : Nat → Nat → UInt8) (h : Inv ba) (op : BufOp)
    (hop : op.Asks) :
    ∃ ba', (op.call heap).on ba = ((op.flat heap ba.baseSize (abs ba)).1, ba') ∧
      Shows ba (op.flat heap ba.baseSize (abs ba)).2 ba' := by
  cases op with
  | write buf =>
    obtain ⟨ba', hrun, hs⟩ := write_spec heap h buf
    exact ⟨ba', by rw [BufOp.call, on_bind_ok _ hrun]; rfl, hs⟩
  | read n =>
    obtain ⟨ba', hrun, hs⟩ := read_spec h hop
    refine ⟨ba', ?_, hs⟩
    simp only [BufOp.call, BufOp.flat]
    rw [on_bind, hrun]
    cases ((abs ba).read n).1 <;> rfl
  | setPosition v =>
    obtain ⟨ba', hrun, hs⟩ := setPosition_spec h v
    refine ⟨ba', ?_, hs⟩
    simp only [BufOp.call, BufOp.flat]
    rw [on_bind, hrun]
    cases ((abs ba).setPosition v).1 <;> rfl
  | clear =>
    obtain ⟨ba', hrun, hs⟩ := clear_spec h
    exact ⟨ba', by rw [BufOp.call, on_bind_ok _ hrun]; rfl, hs⟩
  | toString =>
    exact ⟨ba, by rw [BufOp.call, on_bind_ok _ (toString_spec h)]; rfl, h.shows⟩
  | getReadBuffers len =>
    obtain ⟨iovs, hrun, hg⟩ := getReadBuffers_spec h len
    refine ⟨ba, ?_, h.shows⟩
    simp only [BufOp.call, BufOp.flat]
    rw [on_bind_ok _ hrun]
    simp only [on_bind, on_get, on_lift, hg]
    rfl
  | getWriteBuffers len =>
    obtain ⟨ba', iovs, hrun, hs, hg⟩ := getWriteBuffers_spec heap h len
    refine ⟨ba', ?_, hs⟩
    simp only [BufOp.call, BufOp.flat, ← hs.abs_eq]
    rw [on_bind_ok _ hrun]
    simp only [on_bind, on_get, on_lift, hg]
    rfl

/-- One observed call, seen from the flat side. -/
theorem step_sim {f : Flat} {base : Nat} (op : BufOp) (hop : op.Asks)
    (h : Inv ba ∧ abs ba = f ∧ ba.baseSize = base) :
    (step heap op ba).1 = (flatStep heap base op f).1 ∧
      (Inv (step heap op ba).2 ∧ abs (step heap op ba).2 = (flatStep heap base op f).2 ∧
        (step heap op ba).2.baseSize = base) := by
  obtain ⟨hinv, rfl, rfl⟩ := h
  obtain ⟨ba', hrun, hs⟩ := call_spec heap hinv op hop
  simp only [step, flatStep, hrun, ← hs.abs_eq]
  refine ⟨?_, hs.inv, trivial, hs.base_eq⟩
  simp only [Obs.mk.injEq]
  exact ⟨trivial, rfl, rfl, rfl, hs.inv.content_len.symm⟩

end

/-- **The block buffer is a flat buffer.** From a new object, every finite sequence
of calls is observed exactly as on one flat byte vector with a position and a size,
whatever the allocator leaves in new memory. -/
theorem byteArray_refines_flat (heap : Nat → Nat → UInt8) (base : Nat) (hb : 1 ≤ base)
    (ops : List BufOp) (hops : ∀ op ∈ ops, op.Asks) :
    trace (step heap) ops (new heap base) = trace (flatStep heap base) ops (Flat.new heap base) := by
  apply trace_eq_of_sim BufOp.Asks
    (R := fun ba f => Inv ba ∧ abs ba = f ∧ ba.baseSize = base)
  · intro op ba f hop h
    exact step_sim op hop h
  · exact hops
  · refine ⟨inv_new hb, ?_, rfl⟩
    simp [abs, new, Flat.new, Flat.fresh, content, newNode]

/-- Two blocks of two bytes: a write over the block boundary, read back from the start. -/
theorem byteArray_refines_flat_two :
    trace (step fun _ _ => 0) [.write [1, 2, 3], .setPosition 0, .read 3, .read 1]
        (new (fun _ _ => 0) 2) =
      trace (flatStep (fun _ _ => 0) 2) [.write [1, 2, 3], .setPosition 0, .read 3, .read 1]
        (Flat.new (fun _ _ => 0) 2) :=
  byteArray_refines_flat (fun _ _ => 0) 2 (by decide) _ (by simp [BufOp.Asks])

end Sylar.ByteArray
