import Mathlib.Data.List.Basic
import Mathlib.Algebra.Order.Ring.Nat
import Sylar.ByteArray.Basic

/- The representation invariant of the block buffer, and what the loops over
   the chain do in a state that satisfies it.

   `Inv` says that every block has `m_baseSize` bytes, that the capacity is the
   number of bytes in the chain, that position ≤ size ≤ capacity, and that
   `m_cur` is the block the position lies in, null exactly at full capacity.

   `walk_spec`, `writeLoop_spec` and `seek_spec` say what the three loops of the
   source compute over a chain of equal blocks, in terms of the bytes of the
   chain laid end to end (`content`): a slice, a splice, and the block an offset
   lies in. Nothing below unfolds a loop again. -/
namespace Sylar.ByteArray
open Sylar.Lib

/-! ## Running a member function -/

section Run
variable {α β : Type} (ba : ByteArray)

@[simp] theorem on_pure (a : α) : (pure a : M α).on ba = (.ok a, ba) := rfl

@[simp] theorem on_throw (e : Err) : (throw e : M α).on ba = (.error e, ba) := rfl

@[simp] theorem on_lift (x : Except Err α) : (lift x).on ba = (x, ba) := rfl

@[simp] theorem on_get : (get : M ByteArray).on ba = (.ok ba, ba) := rfl

@[simp] theorem on_set (s : ByteArray) : (set s : M Unit).on ba = (.ok (), s) := rfl

@[simp] theorem on_modify (f : ByteArray → ByteArray) :
    (modify f : M Unit).on ba = (.ok (), f ba) := rfl

/-- A sequence runs its second part on the state the first one leaves, unless
the first one threw. -/
theorem on_bind (x : M α) (f : α → M β) :
    (x >>= f).on ba =
      match x.on ba with
      | (.ok a, s) => (f a).on s
      | (.error e, s) => (.error e, s) := by
  change ExceptT.run (x >>= f) ba = _
  simp only [ExceptT.run_bind, M.on]
  change (StateT.bind (ExceptT.run x) _) ba = _
  simp only [StateT.bind]
  cases h : ExceptT.run x ba with
  | mk r s =>
    cases r with
    | ok a => rfl
    | error e => rfl

theorem on_bind_ok {x : M α} {f : α → M β} {a : α} {s : ByteArray} (h : x.on ba = (.ok a, s)) :
    (x >>= f).on ba = (f a).on s := by
  rw [on_bind, h]

theorem on_bind_error {x : M α} {f : α → M β} {e : Err} {s : ByteArray}
    (h : x.on ba = (.error e, s)) : (x >>= f).on ba = (.error e, s) := by
  rw [on_bind, h]

end Run

/-! ## The loops over a chain of equal blocks -/

/-- The bytes of a chain laid end to end. -/
def content (nodes : List Node) : List UInt8 := (nodes.map Node.ptr).flatten

/-- Where the cursor stands at offset `off` of a chain of `L` blocks of `b` bytes
whose first block has index `i`. -/
def cursor (b i L off : Nat) : Option Nat := if off < b * L then some (i + off / b) else none

/-- Every block has `b` bytes. -/
def Blocks (b : Nat) (nodes : List Node) : Prop := ∀ n ∈ nodes, n.size = b

theorem Blocks.tail {b : Nat} {n : Node} {rest : List Node} (h : Blocks b (n :: rest)) :
    Blocks b rest := fun m hm => h m (List.mem_cons_of_mem n hm)

theorem Blocks.head {b : Nat} {n : Node} {rest : List Node} (h : Blocks b (n :: rest)) :
    n.ptr.length = b := h n List.mem_cons_self

theorem Blocks.append {b : Nat} {xs ys : List Node} (hx : Blocks b xs) (hy : Blocks b ys) :
    Blocks b (xs ++ ys) := by
  intro n hn
  rcases List.mem_append.mp hn with h | h
  · exact hx n h
  · exact hy n h

theorem Blocks.cons {b : Nat} {n : Node} {rest : List Node} (hn : n.size = b)
    (h : Blocks b rest) : Blocks b (n :: rest) := by
  intro m hm
  rcases List.mem_cons.mp hm with rfl | hm
  · exact hn
  · exact h m hm

theorem Blocks.take {b : Nat} {xs : List Node} (h : Blocks b xs) (k : Nat) : Blocks b (xs.take k) :=
  fun n hn => h n (List.mem_of_mem_take hn)

theorem Blocks.drop {b : Nat} {xs : List Node} (h : Blocks b xs) (k : Nat) : Blocks b (xs.drop k) :=
  fun n hn => h n (List.mem_of_mem_drop hn)

@[simp] theorem content_cons (n : Node) (rest : List Node) :
    content (n :: rest) = n.ptr ++ content rest := rfl

@[simp] theorem content_append (xs ys : List Node) :
    content (xs ++ ys) = content xs ++ content ys := by simp [content]

theorem content_length {b : Nat} : ∀ {nodes : List Node}, Blocks b nodes →
    (content nodes).length = b * nodes.length
  | [], _ => by simp [content]
  | n :: rest, h => by
    rw [content_cons, List.length_append, h.head, content_length h.tail, List.length_cons,
      Nat.mul_succ, Nat.add_comm]

/-- `m_cur = m_cur->next` at the end of a block. -/
theorem next_eq_cursor {b : Nat} (hb : 0 < b) (i : Nat) (rest : List Node) :
    next i rest = cursor b i (rest.length + 1) b := by
  cases rest with
  | nil => simp [next, cursor]
  | cons m tl =>
    have hlt : b < b * (tl.length + 1 + 1) := by
      rw [Nat.mul_succ, Nat.mul_succ]; omega
    simp only [next, List.isEmpty_cons, cursor, List.length_cons, if_pos hlt, Nat.div_self hb]
    simp

/-- The cursor inside the first block. -/
theorem cursor_first {b off : Nat} (i : Nat) (rest : List Node) (h : off < b) :
    cursor b i (rest.length + 1) off = some i := by
  have hlt : off < b * (rest.length + 1) := by
    rw [Nat.mul_succ]; omega
  rw [cursor, if_pos hlt, Nat.div_eq_of_lt h, Nat.add_zero]

/-- The cursor beyond the first block is the one of the rest of the chain. -/
theorem cursor_rest {b : Nat} (hb : 0 < b) (i L off : Nat) :
    cursor b i (L + 1) (b + off) = cursor b (i + 1) L off := by
  have hdiv : (b + off) / b = off / b + 1 := by rw [Nat.add_comm, Nat.add_div_right off hb]
  have hiff : b + off < b * (L + 1) ↔ off < b * L := by rw [Nat.mul_succ]; omega
  simp only [cursor, hdiv, hiff, Nat.add_assoc, Nat.add_comm 1]

theorem load_head (pre : List Node) (n : Node) (rest : List Node) (off len : Nat)
    (h : off + len ≤ n.size) :
    Iovec.load (pre ++ n :: rest) ⟨pre.length, off, len⟩ = .ok (slice n.ptr off len) := by
  simp [Iovec.load, memcpyFrom, h]

/-- The loop of `read` and of the two `get…Buffers`: the pieces are the bytes from
`npos` on, and the cursor is left where they end. -/
theorem walk_spec {b : Nat} (hb : 0 < b) : ∀ (chain : List Node) (i npos size : Nat),
    Blocks b chain → npos < b → 0 < size → npos + size ≤ b * chain.length →
    ∃ iovs, walk i chain npos size = .ok (iovs, cursor b i chain.length (npos + size)) ∧
      ∀ pre : List Node, pre.length = i →
        gather (pre ++ chain) iovs = .ok (slice (content chain) npos size) := by
  intro chain
  induction chain with
  | nil => intro i npos size _ _ hs hroom; rw [List.length_nil, Nat.mul_zero] at hroom; omega
  | cons n rest ih =>
    intro i npos size hB hnpos hsize hroom
    have hn : n.ptr.length = b := hB.head
    have hlen := content_length hB.tail
    rw [List.length_cons, Nat.mul_succ] at hroom
    by_cases hfit : b - npos ≥ size
    · -- the range ends in this block
      refine ⟨[⟨i, npos, size⟩], ?_, ?_⟩
      · simp only [walk, Node.size, hn, if_pos hfit]
        congr 2
        by_cases hend : b = npos + size
        · rw [if_pos hend, ← hend, next_eq_cursor hb, List.length_cons]
        · rw [if_neg hend, List.length_cons, cursor_first i rest (by omega)]
      · rintro pre rfl
        have hin : npos + size ≤ n.ptr.length := by omega
        simp only [gather, load_head pre n rest npos size hin, content_cons,
          slice_append_left hin]
        simp [bind, Except.bind, pure, Except.pure]
    · -- this block to its end, then the rest of the chain
      obtain ⟨iovs, hw, hg⟩ := ih (i + 1) 0 (size - (b - npos)) hB.tail hb (by omega) (by omega)
      refine ⟨⟨i, npos, b - npos⟩ :: iovs, ?_, ?_⟩
      · have hcur : cursor b (i + 1) rest.length (0 + (size - (b - npos))) =
            cursor b i (rest.length + 1) (npos + size) := by
          rw [← cursor_rest hb]; congr 1; omega
        simp only [walk, Node.size, hn, if_neg hfit, hw, hcur, List.length_cons]
        rfl
      · rintro pre rfl
        have hg' := hg (pre ++ [n]) (by simp)
        rw [List.append_assoc, List.singleton_append] at hg'
        have hin : npos + (b - npos) ≤ n.ptr.length := by omega
        have hcross : slice (n.ptr ++ content rest) npos size =
            slice n.ptr npos (n.ptr.length - npos) ++
              slice (content rest) 0 (size - (n.ptr.length - npos)) :=
          slice_append_cross (by omega) (by omega)
        rw [hn] at hcross
        simp only [gather, load_head pre n rest npos (b - npos) hin, hg', content_cons, hcross]
        rfl

/-- The loop of `write`: the chain holds `buf` from `npos` on and is otherwise
as it was, and the cursor is left where `buf` ends. -/
theorem writeLoop_spec {b : Nat} (hb : 0 < b) : ∀ (chain : List Node) (i npos : Nat)
    (buf : List UInt8), Blocks b chain → npos < b → 0 < buf.length →
    npos + buf.length ≤ b * chain.length →
    ∃ chain', writeLoop i chain npos buf =
        .ok (chain', cursor b i chain.length (npos + buf.length)) ∧
      Blocks b chain' ∧ chain'.length = chain.length ∧
      content chain' = splice (content chain) npos buf := by
  intro chain
  induction chain with
  | nil => intro i npos buf _ _ hs hroom; rw [List.length_nil, Nat.mul_zero] at hroom; omega
  | cons n rest ih =>
    intro i npos buf hB hnpos hsize hroom
    have hn : n.ptr.length = b := hB.head
    have hlen := content_length hB.tail
    rw [List.length_cons, Nat.mul_succ] at hroom
    by_cases hfit : b - npos ≥ buf.length
    · have hin : npos + buf.length ≤ n.ptr.length := by omega
      refine ⟨⟨splice n.ptr npos buf⟩ :: rest, ?_, ?_, by simp, ?_⟩
      · have hcur : (if b = npos + buf.length then next i rest else some i) =
            cursor b i (rest.length + 1) (npos + buf.length) := by
          by_cases hend : b = npos + buf.length
          · rw [if_pos hend, ← hend, next_eq_cursor hb]
          · rw [if_neg hend, cursor_first i rest (by omega)]
        rw [hn] at hin
        simp only [writeLoop, memcpyTo, Node.size, hn, if_pos hfit, if_pos hin, hcur,
          List.length_cons]
        rfl
      · exact Blocks.cons (by rw [Node.size, splice_length hin, hn]) hB.tail
      · rw [content_cons, content_cons, splice_append_left hin]
    · have htake : (buf.take (b - npos)).length = b - npos := by rw [List.length_take]; omega
      have hdrop : (buf.drop (b - npos)).length = buf.length - (b - npos) := List.length_drop
      have hin : npos + (buf.take (b - npos)).length ≤ n.ptr.length := by omega
      obtain ⟨rest', hw, hB', hl', hc'⟩ :=
        ih (i + 1) 0 (buf.drop (b - npos)) hB.tail hb (by omega) (by omega)
      refine ⟨⟨splice n.ptr npos (buf.take (b - npos))⟩ :: rest', ?_, ?_, by simp [hl'], ?_⟩
      · have hcur : cursor b (i + 1) rest.length (0 + (buf.drop (b - npos)).length) =
            cursor b i (rest.length + 1) (npos + buf.length) := by
          rw [← cursor_rest hb]; congr 1; omega
        rw [hn] at hin
        simp only [writeLoop, memcpyTo, Node.size, hn, if_neg hfit, if_pos hin, hw, hcur,
          List.length_cons]
        rfl
      · exact Blocks.cons (by rw [Node.size, splice_length hin, hn]) hB'
      · rw [content_cons, content_cons, hc',
          splice_append_cross (k := b - npos) (by omega) (by omega) (by omega)]

/-- The search of `setPosition` finds the block `v` lies in, null at the end. -/
theorem seek_spec {b : Nat} (hb : 0 < b) : ∀ (chain : List Node) (i v : Nat),
    Blocks b chain → chain ≠ [] → v ≤ b * chain.length →
    seek i chain v = .ok (cursor b i chain.length v) := by
  intro chain
  induction chain with
  | nil => intro i v _ hne; exact absurd rfl hne
  | cons n rest ih =>
    intro i v hB _ hv
    have hn : n.ptr.length = b := hB.head
    rw [List.length_cons, Nat.mul_succ] at hv
    by_cases hgt : v > b
    · have hne : rest ≠ [] := by
        rintro rfl
        simp at hv; omega
      have hrest : v = b + (v - b) := by omega
      simp only [seek, Node.size, hn, if_pos hgt]
      rw [ih (i + 1) (v - b) hB.tail hne (by omega), List.length_cons, ← cursor_rest hb, ← hrest]
    · simp only [seek, Node.size, hn, if_neg hgt, List.length_cons]
      by_cases hend : v = b
      · rw [if_pos hend, hend, next_eq_cursor hb]
      · rw [if_neg hend, cursor_first i rest (by omega)]

/-! ## The invariant -/

/-- The representation invariant. -/
structure Inv (ba : ByteArray) : Prop where
  base_pos : 0 < ba.baseSize
  position_le : ba.position ≤ ba.size
  size_le : ba.size ≤ ba.capacity
  blocks : Blocks ba.baseSize ba.nodes
  root : ba.nodes ≠ []
  capacity_eq : ba.capacity = ba.baseSize * ba.nodes.length
  cur_eq : ba.cur = if ba.position < ba.capacity then some (ba.position / ba.baseSize) else none

namespace Inv
variable {ba : ByteArray}

theorem content_len (h : Inv ba) : (content ba.nodes).length = ba.capacity := by
  rw [content_length h.blocks, h.capacity_eq]

/-- Below the capacity the cursor is a block of the chain. -/
theorem index_lt (h : Inv ba) (hp : ba.position < ba.capacity) :
    ba.position / ba.baseSize < ba.nodes.length := by
  rw [Nat.div_lt_iff_lt_mul h.base_pos, Nat.mul_comm, ← h.capacity_eq]; exact hp

/-- The blocks before the cursor hold the bytes before the position's block. -/
theorem before_len (h : Inv ba) (hp : ba.position < ba.capacity) :
    (content (ba.nodes.take (ba.position / ba.baseSize))).length =
      ba.baseSize * (ba.position / ba.baseSize) := by
  have hlt := h.index_lt hp
  rw [content_length (h.blocks.take _), List.length_take, Nat.min_eq_left (by omega)]

/-- The blocks before a block and the ones from it on make up the chain. -/
theorem drop_len (h : Inv ba) {i : Nat} (hi : i ≤ ba.nodes.length) :
    ba.baseSize * i + ba.baseSize * (ba.nodes.drop i).length = ba.capacity := by
  rw [List.length_drop, ← Nat.mul_add, h.capacity_eq, Nat.add_sub_cancel' hi]

/-- What is left of the chain from the position's block on. -/
theorem after_len (h : Inv ba) (hp : ba.position < ba.capacity) :
    ba.baseSize * (ba.position / ba.baseSize) +
      ba.baseSize * (ba.nodes.drop (ba.position / ba.baseSize)).length = ba.capacity :=
  h.drop_len (Nat.le_of_lt (h.index_lt hp))

/-- The cursor of the whole chain from the one of its tail. -/
theorem cursor_tail (h : Inv ba) (hp : ba.position < ba.capacity) (n : Nat) :
    cursor ba.baseSize (ba.position / ba.baseSize) (ba.nodes.drop (ba.position / ba.baseSize)).length
        (ba.position % ba.baseSize + n) =
      if ba.position + n < ba.capacity then some ((ba.position + n) / ba.baseSize) else none := by
  have hal := h.after_len hp
  have hdm := Nat.div_add_mod ba.position ba.baseSize
  have hdiv : (ba.position + n) / ba.baseSize =
      ba.position / ba.baseSize + (ba.position % ba.baseSize + n) / ba.baseSize := by
    rw [← Nat.mul_add_div h.base_pos, ← Nat.add_assoc, hdm]
  have hiff : ba.position % ba.baseSize + n <
      ba.baseSize * (ba.nodes.drop (ba.position / ba.baseSize)).length ↔
      ba.position + n < ba.capacity := by omega
  simp only [cursor, hiff, hdiv]

/-- A slice or a splice at the position is one in the tail of the chain. -/
theorem content_split (_h : Inv ba) :
    content ba.nodes = content (ba.nodes.take (ba.position / ba.baseSize)) ++
      content (ba.nodes.drop (ba.position / ba.baseSize)) := by
  rw [← content_append, List.take_append_drop]

theorem position_split (_h : Inv ba) :
    ba.baseSize * (ba.position / ba.baseSize) + ba.position % ba.baseSize = ba.position :=
  Nat.div_add_mod ba.position ba.baseSize

end Inv

/-- The loop from any block on, as far as the chain goes. -/
theorem walk_from {ba : ByteArray} (h : Inv ba) {i npos n : Nat} (hnpos : npos < ba.baseSize) (hn : 0 < n)
    (hroom : ba.baseSize * i + npos + n ≤ ba.capacity) :
    ∃ iovs, walk i (ba.nodes.drop i) npos n =
        .ok (iovs, cursor ba.baseSize i (ba.nodes.drop i).length (npos + n)) ∧
      gather ba.nodes iovs = .ok (slice (content ba.nodes) (ba.baseSize * i + npos) n) := by
  have hlt : i < ba.nodes.length := by
    have hcap := h.capacity_eq
    apply Nat.lt_of_mul_lt_mul_left (a := ba.baseSize)
    omega
  have hlen := h.drop_len (Nat.le_of_lt hlt)
  obtain ⟨iovs, hw, hg⟩ := walk_spec h.base_pos (ba.nodes.drop i) i npos n (h.blocks.drop i) hnpos hn (by omega)
  refine ⟨iovs, hw, ?_⟩
  have hbefore : (content (ba.nodes.take i)).length = ba.baseSize * i := by
    rw [content_length (h.blocks.take i), List.length_take, Nat.min_eq_left (Nat.le_of_lt hlt)]
  have hsplit : content ba.nodes = content (ba.nodes.take i) ++ content (ba.nodes.drop i) := by
    rw [← content_append, List.take_append_drop]
  have hg' := hg (ba.nodes.take i) (by rw [List.length_take]; omega)
  rw [List.take_append_drop] at hg'
  rw [hg', hsplit, slice_append_at _ npos n hbefore]

/-- Beyond the end of the chain the loop meets the null block. -/
theorem walk_beyond {b : Nat} : ∀ (chain : List Node) (i npos size : Nat), Blocks b chain → npos < b →
    0 < size → b * chain.length < npos + size → walk i chain npos size = .error .nullNode := by
  intro chain
  induction chain with
  | nil => intro i npos size _ _ _ _; rfl
  | cons n rest ih =>
    intro i npos size hB hnpos hsize hout
    have hn : n.ptr.length = b := hB.head
    rw [List.length_cons, Nat.mul_succ] at hout
    have hfit : ¬ b - npos ≥ size := by omega
    have hrest := ih (i + 1) 0 (size - (b - npos)) hB.tail (by omega) (by omega) (by omega)
    simp only [walk, Node.size, hn, if_neg hfit, hrest]
    rfl

/-- The loop from the cursor on, in a state that satisfies the invariant: `n` bytes
at the position, and the cursor `n` bytes further. -/
theorem walk_at {ba : ByteArray} (h : Inv ba) {n : Nat} (hn : 0 < n)
    (hroom : ba.position + n ≤ ba.capacity) :
    ∃ iovs, walk (ba.position / ba.baseSize) (ba.nodes.drop (ba.position / ba.baseSize))
        (ba.position % ba.baseSize) n =
      .ok (iovs, if ba.position + n < ba.capacity then some ((ba.position + n) / ba.baseSize)
        else none) ∧
      gather ba.nodes iovs = .ok (slice (content ba.nodes) ba.position n) := by
  have hdm := h.position_split
  obtain ⟨iovs, hw, hg⟩ := walk_from h (i := ba.position / ba.baseSize)
    (Nat.mod_lt ba.position h.base_pos) hn (by omega)
  rw [hdm] at hg
  exact ⟨iovs, by rw [hw, h.cursor_tail (by omega)], hg⟩

/-- The loop of `write` from the cursor on. -/
theorem writeLoop_at {ba : ByteArray} (h : Inv ba) {buf : List UInt8} (hn : 0 < buf.length)
    (hroom : ba.position + buf.length ≤ ba.capacity) :
    ∃ chain, writeLoop (ba.position / ba.baseSize) (ba.nodes.drop (ba.position / ba.baseSize))
        (ba.position % ba.baseSize) buf =
      .ok (chain, if ba.position + buf.length < ba.capacity
        then some ((ba.position + buf.length) / ba.baseSize) else none) ∧
      Blocks ba.baseSize (ba.nodes.take (ba.position / ba.baseSize) ++ chain) ∧
      (ba.nodes.take (ba.position / ba.baseSize) ++ chain).length = ba.nodes.length ∧
      content (ba.nodes.take (ba.position / ba.baseSize) ++ chain) =
        splice (content ba.nodes) ba.position buf := by
  have hp : ba.position < ba.capacity := by omega
  have hal := h.after_len hp
  have hdm := h.position_split
  have hlt := h.index_lt hp
  obtain ⟨chain, hw, hB, hl, hc⟩ := writeLoop_spec h.base_pos
    (ba.nodes.drop (ba.position / ba.baseSize)) (ba.position / ba.baseSize)
    (ba.position % ba.baseSize) buf (h.blocks.drop _) (Nat.mod_lt _ h.base_pos) hn (by omega)
  refine ⟨chain, by rw [hw, h.cursor_tail hp], (h.blocks.take _).append hB, ?_, ?_⟩
  · rw [List.length_append, hl, List.length_take, List.length_drop]; omega
  · have hat := splice_append_at (content (ba.nodes.drop (ba.position / ba.baseSize))) buf
      (ba.position % ba.baseSize) (h.before_len hp)
    rw [hdm, ← h.content_split] at hat
    rw [content_append, hc, hat]

end Sylar.ByteArray
