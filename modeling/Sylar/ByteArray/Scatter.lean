import Mathlib.Data.List.Basic
import Sylar.ByteArray.Safety

/- Receiving into the buffers of `getWriteBuffers`, as `SocketStream::read` does.

   The buffers are pieces of the blocks from the position on (`walk_pieces`): on different
   blocks, each inside its block, and together as long as was asked for. What the kernel
   stores into them in order is what `write` would have copied there (`scatter_walk`), and
   `setPosition` then does for the cursor what `write` does. The two differ in how far they
   grow the chain, since the one asks for `len` bytes and the other for those that came. -/
namespace Sylar.ByteArray
open Sylar.Lib

/-- The bytes `src` put where an `iovec` points. -/
def Iovec.store (nodes : List Node) (v : Iovec) (src : List UInt8) : Except Err (List Node) :=
  match nodes[v.node]? with
  | none => .error .nullNode
  | some n => do
    let n' ← memcpyTo n v.off src
    pure (nodes.set v.node n')

/-- `readv` and `recvmsg`: the buffers are filled one after another, as far as `d` goes. -/
def scatter (nodes : List Node) : List Iovec → List UInt8 → Except Err (List Node)
  | [], _ => .ok nodes
  | v :: rest, d => do
    let nodes ← v.store nodes (d.take v.len)
    scatter nodes rest (d.drop v.len)

/-- `SocketStream::read(ba, length)`, where `m_socket->recv` stores `d` and returns its length, or returns an
error. -/
def streamRead (heap : Nat → Nat → UInt8) (connected : Bool) (length : Nat) (recv : Option (List UInt8)) : M Int := do
  if !connected then return -1
  let (_, iovs) ← getWriteBuffers heap length
  match recv with
  | none => return -1
  | some d =>
    let ba ← get
    let nodes ← lift (scatter ba.nodes iovs d)
    set { ba with nodes }
    if d.length > 0 then
      let ba ← get
      setPosition (getPosition ba + d.length)
    return d.length

/-! ## The buffers -/

/-- Two pieces of the chain without a byte in common. -/
def Iovec.Disjoint (v w : Iovec) : Prop :=
  v.node = w.node → v.off + v.len ≤ w.off ∨ w.off + w.len ≤ v.off

/-- A loop that ended has taken one piece, or the end of the first block and pieces of the next ones. -/
theorem walk_cons_cases {i npos size : Nat} {n : Node} {rest : List Node} {iovs : List Iovec} {cur : Option Nat}
    (hwalk : walk i (n :: rest) npos size = .ok (iovs, cur)) :
    (n.size - npos ≥ size ∧ iovs = [⟨i, npos, size⟩]) ∨
    (n.size - npos < size ∧ ∃ later, iovs = ⟨i, npos, n.size - npos⟩ :: later ∧
      walk (i + 1) rest 0 (size - (n.size - npos)) = .ok (later, cur)) := by
  by_cases hfit : n.size - npos ≥ size
  · simp only [walk, if_pos hfit, Except.ok.injEq, Prod.mk.injEq] at hwalk
    exact Or.inl ⟨hfit, hwalk.1.symm⟩
  · simp only [walk, if_neg hfit] at hwalk
    cases hrest : walk (i + 1) rest 0 (size - (n.size - npos)) with
    | error e =>
      rw [hrest] at hwalk
      cases hwalk
    | ok p =>
      rw [hrest] at hwalk
      cases hwalk
      exact Or.inr ⟨Nat.not_le.mp hfit, p.1, rfl, rfl⟩

/-- The pieces the loop takes are in different blocks and make up the length. -/
theorem walk_pieces : ∀ (chain : List Node) (i npos size : Nat) (iovs : List Iovec) (cur : Option Nat),
    walk i chain npos size = .ok (iovs, cur) →
    (∀ v ∈ iovs, i ≤ v.node) ∧ iovs.Pairwise (fun v w => v.node < w.node) ∧ (iovs.map Iovec.len).sum = size := by
  intro chain
  induction chain with
  | nil => intro i npos size iovs cur hwalk; cases hwalk
  | cons n rest ih =>
    intro i npos size iovs cur hwalk
    rcases walk_cons_cases hwalk with ⟨_, rfl⟩ | ⟨hlt, later, rfl, hlater⟩
    · simp
    · obtain ⟨hge, hpair, hsum⟩ := ih (i + 1) 0 _ later cur hlater
      refine ⟨?_, List.pairwise_cons.mpr ⟨?_, hpair⟩, ?_⟩
      · rw [List.forall_mem_cons]
        exact ⟨Nat.le_refl i, fun v hv => Nat.le_of_succ_le (hge v hv)⟩
      · intro v hv
        exact hge v hv
      · rw [List.map_cons, List.sum_cons, hsum]
        show n.size - npos + (size - (n.size - npos)) = size
        omega

theorem disjoint_of_increasing {iovs : List Iovec} (h : iovs.Pairwise fun v w => v.node < w.node) :
    iovs.Pairwise Iovec.Disjoint := by
  apply h.imp
  intro v w hlt heq
  omega

theorem store_head (pre : List Node) (n : Node) (rest : List Node) (off len : Nat) (src : List UInt8)
    (h : off + src.length ≤ n.size) :
    Iovec.store (pre ++ n :: rest) ⟨pre.length, off, len⟩ src = .ok (pre ++ ⟨splice n.ptr off src⟩ :: rest) := by
  simp [Iovec.store, memcpyTo, h, bind, Except.bind, pure, Except.pure]

/-- What is stored in the pieces is what a write from `npos` on puts there. -/
theorem scatter_walk {b : Nat} (hb : 0 < b) : ∀ (chain : List Node) (i npos size : Nat) (d : List UInt8)
    (iovs : List Iovec) (cur : Option Nat), Blocks b chain → npos < b → d.length ≤ size →
    npos + size ≤ b * chain.length → walk i chain npos size = .ok (iovs, cur) →
    ∃ chain', Blocks b chain' ∧ chain'.length = chain.length ∧
      content chain' = splice (content chain) npos d ∧
      ∀ pre : List Node, pre.length = i → scatter (pre ++ chain) iovs d = .ok (pre ++ chain') := by
  intro chain
  induction chain with
  | nil => intro i npos size d iovs cur _ _ _ _ hwalk; cases hwalk
  | cons n rest ih =>
    intro i npos size d iovs cur hB hnpos hd hroom hwalk
    have hn : n.ptr.length = b := hB.head
    have hlen := content_length hB.tail
    rw [List.length_cons, Nat.mul_succ] at hroom
    have hsize : n.size = b := hn
    rcases walk_cons_cases hwalk with ⟨hfit, rfl⟩ | ⟨hlt, later, rfl, hlater⟩
    · -- one piece
      have hin : npos + d.length ≤ n.ptr.length := by omega
      refine ⟨⟨splice n.ptr npos d⟩ :: rest, Blocks.cons ?_ hB.tail, by simp, ?_, ?_⟩
      · rw [Node.size, splice_length hin, hn]
      · rw [content_cons, content_cons, splice_append_left hin]
      · intro pre hpre
        subst hpre
        rw [scatter, List.take_of_length_le hd, store_head pre n rest npos size d hin]
        rfl
    · rw [hsize] at hlt hlater ⊢
      have htake : (d.take (b - npos)).length ≤ b - npos := by
        rw [List.length_take]
        exact Nat.min_le_left _ _
      have hin : npos + (d.take (b - npos)).length ≤ n.ptr.length := by omega
      obtain ⟨rest', hB', hl', hc', hs'⟩ := ih (i + 1) 0 _ (d.drop (b - npos)) later cur hB.tail hb
        (by rw [List.length_drop]; omega) (by omega) hlater
      refine ⟨⟨splice n.ptr npos (d.take (b - npos))⟩ :: rest', Blocks.cons ?_ hB', by simp [hl'], ?_, ?_⟩
      · rw [Node.size, splice_length hin, hn]
      · rw [content_cons, content_cons, hc']
        by_cases hcross : b - npos ≤ d.length
        · rw [splice_append_cross (k := b - npos) (by omega) hcross (by omega)]
        · -- what came ends in this block
          have hall : d.take (b - npos) = d := List.take_of_length_le (by omega)
          have hnone : d.drop (b - npos) = [] := List.drop_of_length_le (by omega)
          rw [hall, hnone, splice_nil, splice_append_left (by omega)]
      · intro pre hpre
        subst hpre
        have hbehind := hs' (pre ++ [⟨splice n.ptr npos (d.take (b - npos))⟩]) (by simp)
        rw [List.append_assoc, List.append_assoc, List.singleton_append, List.singleton_append] at hbehind
        rw [scatter, store_head pre n rest npos (b - npos) _ hin]
        exact hbehind

section
variable {heap : Nat → Nat → UInt8} {ba : ByteArray}

/-- The buffers of `getWriteBuffers` are the pieces of the loop over the grown chain. -/
theorem getWriteBuffers_run (heap : Nat → Nat → UInt8) (h : Inv ba) {len : Nat} (hlen : 1 ≤ len) :
    ∃ g iovs cur, (getWriteBuffers heap len).on ba = (.ok (len, iovs), g) ∧
      Shows ba ((abs ba).grow heap ba.baseSize len) g ∧ g.position = ba.position ∧
      g.position + len ≤ g.capacity ∧
      walk (g.position / g.baseSize) (g.nodes.drop (g.position / g.baseSize)) (g.position % g.baseSize) len =
        .ok (iovs, cur) := by
  obtain ⟨hs, hroom, hpos⟩ := addCapacity_spec heap h len
  have hroom' : (addCapacity heap len ba).position + len ≤ (addCapacity heap len ba).capacity := by omega
  obtain ⟨iovs, hw, -⟩ := walk_at hs.inv hlen hroom'
  refine ⟨_, iovs, _, ?_, hs, hpos, hroom', hw⟩
  rw [getWriteBuffers, if_neg (by omega), on_bind_ok ba (on_modify ba _), buffers, on_bind_ok _ (on_get _),
    hs.inv.cur_some (by omega)]
  simp only [hw]
  rfl

/-- Storing into the buffers from the position on splices the bytes in, and nothing else changes. -/
theorem scatter_at (h : Inv ba) {len : Nat} {d : List UInt8} {iovs : List Iovec} {cur : Option Nat}
    (hlen : 1 ≤ len) (hd : d.length ≤ len) (hroom : ba.position + len ≤ ba.capacity)
    (hwalk : walk (ba.position / ba.baseSize) (ba.nodes.drop (ba.position / ba.baseSize))
      (ba.position % ba.baseSize) len = .ok (iovs, cur)) :
    ∃ nodes, scatter ba.nodes iovs d = .ok nodes ∧
      Shows ba { abs ba with bytes := splice (content ba.nodes) ba.position d } { ba with nodes } := by
  have hp : ba.position < ba.capacity := by omega
  have hafter := h.after_len hp
  have hsplit := h.position_split
  have hlt := h.index_lt hp
  obtain ⟨chain, hB, hl, hc, hscatter⟩ := scatter_walk h.base_pos _ _ _ _ d iovs cur (h.blocks.drop _)
    (Nat.mod_lt _ h.base_pos) hd (by omega) hwalk
  have hrun := hscatter (ba.nodes.take (ba.position / ba.baseSize)) (by rw [List.length_take]; omega)
  rw [List.take_append_drop] at hrun
  have hlength : (ba.nodes.take (ba.position / ba.baseSize) ++ chain).length = ba.nodes.length := by
    rw [List.length_append, hl, List.length_take, List.length_drop]
    omega
  refine ⟨_, hrun, ⟨h.base_pos, h.position_le, h.size_le, (h.blocks.take _).append hB, ?_, ?_, h.cur_eq⟩, ?_, rfl, rfl⟩
  · intro hnil
    have hz := congrArg List.length hnil
    exact h.root (List.eq_nil_of_length_eq_zero (hlength.symm.trans hz))
  · show ba.capacity = _
    rw [hlength, h.capacity_eq]
  · have hat := splice_append_at (content (ba.nodes.drop (ba.position / ba.baseSize))) d
      (ba.position % ba.baseSize) (h.before_len hp)
    rw [hsplit, ← h.content_split] at hat
    simp only [abs, content_append, hc, hat]

/-- Storing into the pieces and moving the position behind what came. -/
theorem receive_spec (h : Inv ba) {len : Nat} {d : List UInt8} {iovs : List Iovec} {cur : Option Nat}
    (hlen : 1 ≤ len) (hd : d.length ≤ len) (hroom : ba.position + len ≤ ba.capacity)
    (hwalk : walk (ba.position / ba.baseSize) (ba.nodes.drop (ba.position / ba.baseSize))
      (ba.position % ba.baseSize) len = .ok (iovs, cur)) :
    ∃ nodes ba', scatter ba.nodes iovs d = .ok nodes ∧
      (setPosition (ba.position + d.length)).on { ba with nodes } = (.ok (), ba') ∧
      Shows ba { abs ba with
        bytes := splice (content ba.nodes) ba.position d
        position := ba.position + d.length
        size := max ba.size (ba.position + d.length) } ba' := by
  obtain ⟨nodes, hscatter, hs⟩ := scatter_at h hlen hd hroom hwalk
  obtain ⟨ba', hset, hs'⟩ := setPosition_spec hs.inv (ba.position + d.length)
  have hcap : (abs { ba with nodes }).capacity = ba.capacity := hs.inv.content_len
  rw [Flat.setPosition, if_neg (by rw [hcap]; omega), hs.abs_eq] at hset hs'
  exact ⟨nodes, ba', hscatter, hset, hs.trans hs'⟩

end

/-! ## Two ways in -/

/-- The two objects differ at most in spare capacity. -/
structure SameData (a b : ByteArray) : Prop where
  position : a.position = b.position
  size : a.size = b.size
  content : (ByteArray.content a.nodes).take a.size = (ByteArray.content b.nodes).take b.size
  readable : ByteArray.readable a = ByteArray.readable b

theorem readable_eq (ba : ByteArray) :
    readable ba = ((content ba.nodes).take ba.size).drop ba.position := by
  rw [readable, slice, getReadSize, List.drop_take]

section
variable {heap : Nat → Nat → UInt8} {ba : ByteArray}

/-- `SocketStream::read` splices what came into the grown chain. -/
theorem streamRead_spec (heap : Nat → Nat → UInt8) (h : Inv ba) {len : Nat} {d : List UInt8} (hd : 1 ≤ d.length)
    (hle : d.length ≤ len) :
    ∃ ba', (streamRead heap true len (some d)).on ba = (.ok d.length, ba') ∧
      Shows ba { (abs ba).grow heap ba.baseSize len with
        bytes := splice ((abs ba).grow heap ba.baseSize len).bytes ba.position d
        position := ba.position + d.length
        size := max ba.size (ba.position + d.length) } ba' := by
  obtain ⟨g, iovs, cur, hrun, hs, hpos, hroom, hwalk⟩ := getWriteBuffers_run heap h (Nat.le_trans hd hle)
  obtain ⟨nodes, ba', hscatter, hset, hs'⟩ := receive_spec hs.inv (Nat.le_trans hd hle) hle hroom hwalk
  refine ⟨ba', ?_, ?_⟩
  · rw [streamRead]
    simp only [Bool.not_true, Bool.false_eq_true, if_false]
    rw [on_bind_ok _ hrun]
    simp only [on_bind, on_get, on_lift, on_set, hscatter]
    rw [if_pos (by omega)]
    simp only [on_bind, on_get, getPosition, hset, on_pure]
  · have hall := hs.trans hs'
    refine ⟨hall.inv, ?_, hall.base_eq, hall.endian_eq⟩
    have hbytes : content g.nodes = ((abs ba).grow heap ba.baseSize len).bytes := congrArg Flat.bytes hs.abs_eq
    have hsize : g.size = ba.size := congrArg Flat.size hs.abs_eq
    have hallocs : g.allocs = ((abs ba).grow heap ba.baseSize len).allocs := congrArg Flat.allocs hs.abs_eq
    rw [hall.abs_eq, hbytes, hpos, hsize]
    simp only [abs, hallocs]

/-- However far the chain grows for it, a write at the position leaves the same data. -/
theorem take_splice_grow (h : Inv ba) (heap : Nat → Nat → UInt8) (len : Nat) (d : List UInt8) :
    (splice ((abs ba).grow heap ba.baseSize len).bytes ba.position d).take (max ba.size (ba.position + d.length)) =
      (splice (content ba.nodes) ba.position d).take (max ba.size (ba.position + d.length)) := by
  have hp := h.position_le
  have hs := h.size_le
  have hlen : (abs ba).bytes.length = ba.capacity := h.content_len
  exact take_splice_append (by omega) (Nat.le_max_right _ _) (by omega)

theorem sameData_of_shows {a b : ByteArray} {f g : Flat} (ha : Shows ba f a) (hb : Shows ba g b)
    (hposition : f.position = g.position) (hsize : f.size = g.size)
    (hbytes : f.bytes.take f.size = g.bytes.take g.size) : SameData a b := by
  have ha' := ha.abs_eq
  have hb' := hb.abs_eq
  subst ha' hb'
  refine ⟨hposition, hsize, hbytes, ?_⟩
  have hcontent : (content a.nodes).take a.size = (content b.nodes).take b.size := hbytes
  have hpos : a.position = b.position := hposition
  rw [readable_eq, readable_eq, hcontent, hpos]

end

/-- **The scatter path equals `write`**: from every reachable state, receiving `d` into the buffers of
`getWriteBuffers(iovs, len)` as `SocketStream::read` does leaves the same data as `write(d)`; the buffers have no byte
in common and are `len` bytes together. -/
theorem scatter_eq_write (heap : Nat → Nat → UInt8) (base : Nat) (hb : 1 ≤ base) (ba : ByteArray)
    (r : Reachable heap base ba) (len : Nat) (d : List UInt8) (hd : 1 ≤ d.length) (hle : d.length ≤ len) :
    (∃ iovs g, (getWriteBuffers heap len).on ba = (.ok (len, iovs), g) ∧ iovs.Pairwise Iovec.Disjoint ∧
      (iovs.map Iovec.len).sum = len) ∧
    ∃ ba₁ ba₂, (streamRead heap true len (some d)).on ba = (.ok d.length, ba₁) ∧
      (write heap d).on ba = (.ok (), ba₂) ∧ SameData ba₁ ba₂ := by
  have h := (r.inv hb).1
  constructor
  · obtain ⟨g, iovs, cur, hrun, -, -, -, hwalk⟩ := getWriteBuffers_run heap h (Nat.le_trans hd hle)
    obtain ⟨-, hpair, hsum⟩ := walk_pieces _ _ _ _ iovs cur hwalk
    exact ⟨iovs, g, hrun, disjoint_of_increasing hpair, hsum⟩
  · obtain ⟨ba₁, hrun₁, hs₁⟩ := streamRead_spec heap h hd hle
    obtain ⟨ba₂, hrun₂, hs₂⟩ := write_spec heap h d
    refine ⟨ba₁, ba₂, hrun₁, hrun₂, sameData_of_shows hs₁ hs₂ rfl rfl ?_⟩
    exact (take_splice_grow h heap len d).trans (take_splice_grow h heap d.length d).symm

/-- Three bytes received into four, in blocks of two. -/
theorem scatter_eq_write_three :
    (∃ iovs g, (getWriteBuffers (fun _ _ => 0) 4).on (new (fun _ _ => 0) 2) = (.ok (4, iovs), g) ∧
      iovs.Pairwise Iovec.Disjoint ∧ (iovs.map Iovec.len).sum = 4) ∧
    ∃ ba₁ ba₂, (streamRead (fun _ _ => 0) true 4 (some [1, 2, 3])).on (new (fun _ _ => 0) 2) = (.ok 3, ba₁) ∧
      (write (fun _ _ => 0) [1, 2, 3]).on (new (fun _ _ => 0) 2) = (.ok (), ba₂) ∧ SameData ba₁ ba₂ :=
  scatter_eq_write (fun _ _ => 0) 2 (by decide) _ Reachable.new 4 [1, 2, 3] (by decide) (by decide)

end Sylar.ByteArray
