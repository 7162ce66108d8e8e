import Mathlib.Algebra.Order.Ring.Nat
import Mathlib.Data.List.Basic
import Sylar.ByteArray.Safety

/- The two functions that are given a position: `read(buf, size, position)` and
   `getReadBuffers(buffers, len, position)`.

   Neither is independent of the cursor. The first takes the offset in the block from its
   argument and the block from `m_cur` (`readAt_run`), and its bound `m_size - position`
   goes around at the end of `size_t`. `toString` passes the position of the cursor, where
   none of this shows. The second finds its own block, but bounds the length by what is
   readable at the cursor (`getReadBuffersAt_run`).

   `positional_read_iff` and `positional_buffers_iff` say for which arguments they keep
   what their headers promise. -/
namespace Sylar.ByteArray
open Sylar.Lib

/-! ## `read` at a position -/

section
variable {ba : ByteArray}

/-- The bytes `readAt` looks at: from the offset of `position` in the block of the cursor. -/
def cursorOffset (ba : ByteArray) (position : Nat) : Nat :=
  ba.baseSize * (ba.position / ba.baseSize) + position % ba.baseSize

/-- What the positional `read` does. -/
theorem readAt_run (h : Inv ba) (size position : Nat) :
    (readAt size position).on ba =
      (if size > sizeSub ba.size position then .error (.outOfRange "not enough len")
      else if ba.position = ba.capacity then .error .nullNode
      else if size = 0 then .ok []
      else if cursorOffset ba position + size ≤ ba.capacity then
        .ok (slice (content ba.nodes) (cursorOffset ba position) size)
      else .error .nullNode, ba) := by
  rw [readAt, on_bind_ok _ (on_get ba)]
  by_cases hbig : size > sizeSub ba.size position
  · rw [if_pos hbig, if_pos hbig, on_bind_error _ (on_throw ba _)]
  · rw [if_neg hbig, if_neg hbig]
    by_cases hend : ba.position = ba.capacity
    · rw [if_pos hend, h.cur_none hend]
      rfl
    · have hp := h.position_le
      have hs := h.size_le
      have hnpos : position % ba.baseSize < ba.baseSize := Nat.mod_lt _ h.base_pos
      rw [if_neg hend, h.cur_some (by omega)]
      by_cases hz : size = 0
      · rw [if_pos hz]
        simp only [if_pos hz]
        rfl
      · rw [if_neg hz]
        simp only [if_neg hz]
        by_cases hroom : cursorOffset ba position + size ≤ ba.capacity
        · obtain ⟨iovs, hw, hg⟩ := walk_from h hnpos (Nat.pos_of_ne_zero hz) hroom
          rw [if_pos hroom, cursorOffset, ← hg]
          simp only [hw]
          rfl
        · have hafter := h.after_len (by omega)
          have hout : ba.baseSize * (ba.nodes.drop (ba.position / ba.baseSize)).length <
              position % ba.baseSize + size := by
            unfold cursorOffset at hroom
            omega
          rw [if_neg hroom]
          simp only [walk_beyond _ _ _ _ (h.blocks.drop _) hnpos (Nat.pos_of_ne_zero hz) hout]
          rfl

end

/-- The call throws exactly when the range runs over the end of the data, and else returns the bytes of the
range; the object is as it was. -/
structure PositionalRead (ba : ByteArray) (size position : Nat) : Prop where
  throws : ba.size < position + size →
    (readAt size position).on ba = (.error (.outOfRange "not enough len"), ba)
  returns : position + size ≤ ba.size →
    (readAt size position).on ba = (.ok (slice (content ba.nodes) position size), ba)

/-- A position behind the data is one where the bound does not come around; for a range inside the data there
is a current block, and it is the block of the position, or has the same bytes at the same place. -/
def ReadsAtCursor (ba : ByteArray) (size position : Nat) : Prop :=
  (ba.size < position → ba.size + 2 ^ 64 < position + size) ∧
    (position + size ≤ ba.size → ba.position < ba.capacity ∧
      (position / ba.baseSize = ba.position / ba.baseSize ∨
        slice (content ba.nodes) (cursorOffset ba position) size = slice (content ba.nodes) position size))

section
variable {ba : ByteArray}

theorem cursorOffset_same {position : Nat} (h : position / ba.baseSize = ba.position / ba.baseSize) :
    cursorOffset ba position = position := by
  rw [cursorOffset, ← h]
  exact Nat.div_add_mod position ba.baseSize

/-- The range lies behind the data. -/
theorem readAt_behind (h : Inv ba) {size position : Nat} (hpos : position < 2 ^ 64)
    (hout : ba.size < position + size) :
    (readAt size position).on ba = (.error (.outOfRange "not enough len"), ba) ↔
      (ba.size < position → ba.size + 2 ^ 64 < position + size) := by
  have hsub : size > sizeSub ba.size position ↔ (ba.size < position → ba.size + 2 ^ 64 < position + size) := by
    unfold sizeSub
    split <;> omega
  rw [readAt_run h, ← hsub]
  constructor
  · intro hrun
    by_contra hbig
    rw [if_neg hbig] at hrun
    have hfst := congrArg Prod.fst hrun
    simp only at hfst
    split at hfst
    · cases hfst
    · split at hfst
      · cases hfst
      · split at hfst <;> cases hfst
  · intro hbig
    rw [if_pos hbig]

/-- The range lies in the data. -/
theorem readAt_inside (h : Inv ba) {size position : Nat} (hin : position + size ≤ ba.size) :
    (readAt size position).on ba = (.ok (slice (content ba.nodes) position size), ba) ↔
      ba.position < ba.capacity ∧
      (position / ba.baseSize = ba.position / ba.baseSize ∨
        slice (content ba.nodes) (cursorOffset ba position) size = slice (content ba.nodes) position size) := by
  have hp := h.position_le
  have hs := h.size_le
  have hsub : ¬ size > sizeSub ba.size position := by
    unfold sizeSub
    split <;> omega
  rw [readAt_run h, if_neg hsub]
  by_cases hend : ba.position = ba.capacity
  · rw [if_pos hend]
    refine iff_of_false ?_ (fun hc => absurd hc.1 (by omega))
    intro hrun
    cases congrArg Prod.fst hrun
  · have hlt : ba.position < ba.capacity := by omega
    rw [if_neg hend]
    by_cases hz : size = 0
    · simp [hz, hlt]
    · -- the block is not the one of the position: only equal bytes help
      have hsame : (position / ba.baseSize = ba.position / ba.baseSize ∨
          slice (content ba.nodes) (cursorOffset ba position) size = slice (content ba.nodes) position size) ↔
          slice (content ba.nodes) (cursorOffset ba position) size = slice (content ba.nodes) position size := by
        constructor
        · intro hor
          rcases hor with hblock | heq
          · rw [cursorOffset_same hblock]
          · exact heq
        · exact Or.inr
      rw [if_neg hz, hsame]
      by_cases hroom : cursorOffset ba position + size ≤ ba.capacity
      · rw [if_pos hroom]
        simp [hlt]
      · rw [if_neg hroom]
        refine iff_of_false ?_ ?_
        · intro hrun
          cases congrArg Prod.fst hrun
        · intro hc
          have hlen := h.content_len
          exact slice_ne_of_beyond (by omega) (by omega) (by omega) hc.2

end

/-- **Positional read**: in every reachable state and for every size and position, the call keeps its contract
exactly when it reads at the cursor's block (or the same bytes are there) and its bound does not go around. -/
theorem positional_read_iff (heap : Nat → Nat → UInt8) (base : Nat) (hb : 1 ≤ base) (ba : ByteArray)
    (r : Reachable heap base ba) (size position : UInt64) :
    PositionalRead ba size.toNat position.toNat ↔ ReadsAtCursor ba size.toNat position.toNat := by
  have h := (r.inv hb).1
  have hpos : position.toNat < 2 ^ 64 := position.toNat_lt
  by_cases hin : position.toNat + size.toNat ≤ ba.size
  · have hbehind : ba.size < position.toNat → ba.size + 2 ^ 64 < position.toNat + size.toNat := by omega
    constructor
    · intro hread
      exact ⟨hbehind, fun _ => (readAt_inside h hin).mp (hread.returns hin)⟩
    · intro hcond
      exact ⟨by omega, fun _ => (readAt_inside h hin).mpr (hcond.2 hin)⟩
  · have hout : ba.size < position.toNat + size.toNat := Nat.not_le.mp hin
    constructor
    · intro hread
      exact ⟨(readAt_behind h hpos hout).mp (hread.throws hout), fun hc => absurd hc hin⟩
    · intro hcond
      exact ⟨fun _ => (readAt_behind h hpos hout).mpr hcond.1, fun hc => absurd hc hin⟩

/-- Three bytes in blocks of two, read from the start over the boundary. -/
theorem positional_read_first :
    ((readAt 2 1).on (holding [1, 2, 3])).1 = .ok [2, 3] ∧ PositionalRead (holding [1, 2, 3]) 2 1 := by
  refine ⟨by rfl, ?_⟩
  apply (positional_read_iff (fun _ _ => 0) 2 (by decide) _ (reachable_holding [1, 2, 3] rfl) 2 1).mpr
  exact ⟨fun hlt => absurd hlt (by decide), fun _ => ⟨by decide, Or.inl (by decide)⟩⟩

/-- The third byte, asked for while the cursor is in the first block, comes out as the first one; behind the data
a read of nothing returns; and at full capacity a read of what is there meets the null block. -/
theorem positional_read_fails :
    (Reachable (fun _ _ => 0) 2 (holding [1, 2, 3]) ∧ ((readAt 1 2).on (holding [1, 2, 3])).1 = .ok [1] ∧
      ¬ PositionalRead (holding [1, 2, 3]) 1 2) ∧
    (((readAt 0 4).on (holding [1, 2, 3])).1 = .ok [] ∧ ¬ PositionalRead (holding [1, 2, 3]) 0 4) ∧
    Reachable (fun _ _ => 0) 2 fullBlock ∧ ((readAt 1 0).on fullBlock).1 = .error .nullNode ∧
      ¬ PositionalRead fullBlock 1 0 := by
  refine ⟨⟨reachable_holding [1, 2, 3] rfl, by rfl, ?_⟩, ⟨by rfl, ?_⟩, reachable_fullBlock, by rfl, ?_⟩
  · intro hread
    have hrun := congrArg Prod.fst (hread.returns (by decide))
    cases hrun
  · intro hread
    have hrun := congrArg Prod.fst (hread.throws (by decide))
    cases hrun
  · intro hread
    have hrun := congrArg Prod.fst (hread.returns (by decide))
    cases hrun

/-! ## `getReadBuffers` at a position -/

/-- `cur = cur->next`, `count` times: the chain from there on. -/
def skip : Nat → List Node → Except Err (List Node)
  | 0, chain => .ok chain
  | _ + 1, [] => .error .nullNode
  | count + 1, _ :: rest => skip count rest

/-- `ByteArray::getReadBuffers(buffers, len, position)`. -/
def getReadBuffersAt (len position : Nat) : M (Nat × List Iovec) := do
  let ba ← get
  let len := if len > getReadSize ba then getReadSize ba else len
  if len = 0 then return (0, [])
  let npos := position % ba.baseSize
  let count := position / ba.baseSize
  let chain ← lift (skip count ba.nodes)
  let (iovs, _) ← lift (walk count chain npos len)
  return (len, iovs)

theorem skip_eq : ∀ (count : Nat) (chain : List Node), count ≤ chain.length →
    skip count chain = .ok (chain.drop count) := by
  intro count
  induction count with
  | zero => intro chain _; rfl
  | succ count ih =>
    intro chain hle
    cases chain with
    | nil => cases hle
    | cons n rest => exact ih rest (Nat.le_of_succ_le_succ hle)

section
variable {ba : ByteArray}

/-- What the positional `getReadBuffers` does for a position in the data. -/
theorem getReadBuffersAt_run (h : Inv ba) (len : Nat) {position : Nat} (hpos : position ≤ ba.size) :
    (min len (getReadSize ba) = 0 ∧ (getReadBuffersAt len position).on ba = (.ok (0, []), ba)) ∨
    (0 < min len (getReadSize ba) ∧ position + min len (getReadSize ba) ≤ ba.capacity ∧
      ∃ iovs, (getReadBuffersAt len position).on ba = (.ok (min len (getReadSize ba), iovs), ba) ∧
        gather ba.nodes iovs = .ok (slice (content ba.nodes) position (min len (getReadSize ba)))) ∨
    (ba.capacity < position + min len (getReadSize ba) ∧
      (getReadBuffersAt len position).on ba = (.error .nullNode, ba)) := by
  have hs := h.size_le
  have hmin : (if len > getReadSize ba then getReadSize ba else len) = min len (getReadSize ba) := by
    rw [Nat.min_def]
    split <;> split <;> omega
  have hdm := Nat.div_add_mod position ba.baseSize
  have hnpos : position % ba.baseSize < ba.baseSize := Nat.mod_lt _ h.base_pos
  have hcount : position / ba.baseSize ≤ ba.nodes.length := by
    rw [Nat.div_le_iff_le_mul_add_pred h.base_pos, ← h.capacity_eq]
    omega
  rw [getReadBuffersAt, on_bind_ok _ (on_get ba)]
  simp only [hmin]
  by_cases hz : min len (getReadSize ba) = 0
  · refine Or.inl ⟨hz, ?_⟩
    rw [if_pos hz, on_pure]
  · right
    rw [if_neg hz, on_bind_ok _ (show (lift (skip (position / ba.baseSize) ba.nodes)).on ba = (.ok _, ba) by
      rw [on_lift, skip_eq _ _ hcount])]
    by_cases hroom : position + min len (getReadSize ba) ≤ ba.capacity
    · obtain ⟨iovs, hw, hg⟩ := walk_from h (i := position / ba.baseSize) hnpos (Nat.pos_of_ne_zero hz) (by omega)
      rw [hdm] at hg
      refine Or.inl ⟨Nat.pos_of_ne_zero hz, hroom, iovs, ?_, hg⟩
      simp only [hw]
      rfl
    · refine Or.inr ⟨Nat.not_le.mp hroom, ?_⟩
      have hlen := h.drop_len hcount
      simp only [walk_beyond _ _ _ _ (h.blocks.drop _) hnpos (Nat.pos_of_ne_zero hz)
        (show ba.baseSize * (ba.nodes.drop (position / ba.baseSize)).length < _ by omega)]
      rfl

end

/-- The call returns a length that is no more than was asked for and than there is from the position on, and
buffers with the bytes there; it stays on the chain and the object is as it was. -/
def PositionalBuffers (ba : ByteArray) (len position : Nat) : Prop :=
  ∃ n iovs, (getReadBuffersAt len position).on ba = (.ok (n, iovs), ba) ∧ n ≤ len ∧ position + n ≤ ba.size ∧
    gather ba.nodes iovs = .ok (slice (content ba.nodes) position n)

/-- **Positional `getReadBuffers`**: in every reachable state, for every length and every position in the data, the
call keeps its contract exactly when the position is not ahead of the cursor or the whole range is data. -/
theorem positional_buffers_iff (heap : Nat → Nat → UInt8) (base : Nat) (hb : 1 ≤ base) (ba : ByteArray)
    (r : Reachable heap base ba) (len position : Nat) (hpos : position ≤ ba.size) :
    PositionalBuffers ba len position ↔ position ≤ ba.position ∨ position + len ≤ ba.size := by
  have h := (r.inv hb).1
  have hp := h.position_le
  have hs := h.size_le
  have hrs : getReadSize ba = ba.size - ba.position := rfl
  rcases getReadBuffersAt_run h len hpos with ⟨hz, hrun⟩ | ⟨hn, hroom, iovs, hrun, hg⟩ | ⟨hout, hrun⟩
  · refine iff_of_true ⟨0, [], hrun, Nat.zero_le _, hpos, ?_⟩ (by omega)
    rw [slice_zero]
    rfl
  · constructor
    · intro ⟨n, iovs', hrun', _, hin, _⟩
      rw [hrun] at hrun'
      cases hrun'
      omega
    · intro hcond
      exact ⟨_, iovs, hrun, Nat.min_le_left _ _, by omega, hg⟩
  · refine iff_of_false ?_ (by omega)
    intro ⟨n, iovs', hrun', _⟩
    rw [hrun] at hrun'
    cases hrun'

/-- The bytes before the cursor. -/
theorem positional_buffers_behind :
    PositionalBuffers (holding [1, 2, 3]) 2 0 :=
  (positional_buffers_iff (fun _ _ => 0) 2 (by decide) _ (reachable_holding [1, 2, 3] rfl) 2 0 (by decide)).mpr
    (Or.inl (by decide))

/-- Three readable bytes at the cursor, asked for from the second one on: the fourth one, which is no data, comes
along. From the third on, the walk leaves the chain. -/
theorem positional_buffers_fail :
    Reachable (fun _ _ => 0) 2 (holding [1, 2, 3]) ∧
      ((getReadBuffersAt 3 1).on (holding [1, 2, 3])).1 = .ok (3, [⟨0, 1, 1⟩, ⟨1, 0, 2⟩]) ∧
      ¬ PositionalBuffers (holding [1, 2, 3]) 3 1 ∧
      ((getReadBuffersAt 3 2).on (holding [1, 2, 3])).1 = .error .nullNode ∧
      ¬ PositionalBuffers (holding [1, 2, 3]) 3 2 := by
  refine ⟨reachable_holding [1, 2, 3] rfl, by rfl, ?_, by rfl, ?_⟩
  · intro ⟨n, iovs, hrun, _, hin, _⟩
    cases congrArg Prod.fst hrun
    exact absurd hin (by decide)
  · intro ⟨n, iovs, hrun, _⟩
    cases congrArg Prod.fst hrun

end Sylar.ByteArray
