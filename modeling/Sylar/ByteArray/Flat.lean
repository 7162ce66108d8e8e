import Mathlib.Data.List.Basic
import Mathlib.Order.Lattice.Nat
import Sylar.ByteArray.Invariant

/- The buffer as its users see it: one flat vector of bytes, a position and a
   size. This is the meaning the block buffer is meant to have; nothing here
   knows of blocks beyond the unit the capacity grows by.

   `abs` reads the flat buffer off a block buffer. Each operation of the source
   refines the flat operation of the same name: in a state that satisfies `Inv`
   it returns what the flat one returns, throws where the flat one throws, and
   leaves a state that satisfies `Inv` again and whose `abs` is the flat one's. -/
namespace Sylar.ByteArray
open Sylar.Lib

/-- The flat buffer. `allocs` counts the units its capacity has grown by. -/
structure Flat where
  bytes : List UInt8
  position : Nat
  size : Nat
  allocs : Nat

namespace Flat

def capacity (f : Flat) : Nat := f.bytes.length

def readSize (f : Flat) : Nat := f.size - f.position

section
variable (heap : Nat → Nat → UInt8) (base : Nat)

/-- Bytes nobody has written yet: `k` units from allocation `a` on. -/
def fresh (a k : Nat) : List UInt8 := ((List.range k).map fun j => (List.range base).map (heap (a + j))).flatten

def new : Flat := { bytes := fresh heap base 0 1, position := 0, size := 0, allocs := 1 }

/-- The least number of units that makes room for `n` bytes at the position. -/
noncomputable def units (n : Nat) (f : Flat) : Nat :=
  sInf {k | f.position + n ≤ f.capacity + k * base}

/-- The capacity grown by the least number of units that makes room for `n` bytes. -/
noncomputable def grow (n : Nat) (f : Flat) : Flat :=
  { f with bytes := f.bytes ++ fresh heap base f.allocs (f.units base n)
           allocs := f.allocs + f.units base n }

/-- Overwrite at the position, growing where the capacity does not suffice. -/
noncomputable def write (buf : List UInt8) (f : Flat) : Flat :=
  let g := f.grow heap base buf.length
  { g with bytes := splice g.bytes g.position buf
           position := g.position + buf.length
           size := max g.size (g.position + buf.length) }

end

/-- `n` bytes from the position on, which moves behind them. -/
def read (n : Nat) (f : Flat) : Except Err (List UInt8) × Flat :=
  if n > f.readSize then (.error (.outOfRange "not enough len"), f)
  else (.ok (slice f.bytes f.position n), { f with position := f.position + n })

def setPosition (v : Nat) (f : Flat) : Except Err Unit × Flat :=
  if v > f.capacity then (.error (.outOfRange "set_position out of range"), f)
  else (.ok (), { f with position := v, size := max f.size v })

/-- Back to an empty buffer of one unit. -/
def clear (base : Nat) (f : Flat) : Flat :=
  { f with bytes := f.bytes.take base, position := 0, size := 0 }

def toString (f : Flat) : List UInt8 := slice f.bytes f.position f.readSize

end Flat

/-- The flat buffer a block buffer stands for. -/
def abs (ba : ByteArray) : Flat :=
  { bytes := content ba.nodes, position := ba.position, size := ba.size, allocs := ba.allocs }

/-- A state that satisfies the invariant, with the block size and the byte order of
`ba`, and standing for the flat buffer `f`. -/
structure Shows (ba : ByteArray) (f : Flat) (ba' : ByteArray) : Prop where
  inv : Inv ba'
  abs_eq : abs ba' = f
  base_eq : ba'.baseSize = ba.baseSize
  endian_eq : ba'.endian = ba.endian

theorem Inv.shows {ba : ByteArray} (h : Inv ba) : Shows ba (abs ba) ba := ⟨h, rfl, rfl, rfl⟩

theorem Shows.trans {a b c : ByteArray} {f g : Flat} (h₁ : Shows a f b) (h₂ : Shows b g c) :
    Shows a g c :=
  ⟨h₂.inv, h₂.abs_eq, h₂.base_eq.trans h₁.base_eq, h₂.endian_eq.trans h₁.endian_eq⟩

section
variable {heap : Nat → Nat → UInt8} {ba : ByteArray}

/-! ## Growth -/

theorem newNode_size (s k : Nat) : (newNode heap s k).size = s := by
  simp [newNode, Node.size]

theorem newNodes_blocks (s k count : Nat) : Blocks s (newNodes heap s k count) := by
  intro n hn
  obtain ⟨j, _, rfl⟩ := List.mem_map.mp hn
  exact newNode_size s (k + j)

theorem content_newNodes (s k count : Nat) :
    content (newNodes heap s k count) = Flat.fresh heap s k count := by
  simp [content, newNodes, newNode, Flat.fresh, Function.comp_def]

theorem inv_new {base : Nat} (hb : 0 < base) : Inv (new heap base) where
  base_pos := hb
  position_le := Nat.le_refl 0
  size_le := Nat.zero_le _
  blocks := by
    intro n hn
    rw [new, List.mem_singleton] at hn
    rw [hn]; exact newNode_size base 0
  root := by simp [new]
  capacity_eq := by simp [new]
  cur_eq := by simp [new, hb]

/-- The ceiling the code takes is the least number of units that makes room. -/
theorem units_eq {base n : Nat} {f : Flat} (hb : 0 < base) (hp : f.position ≤ f.capacity) :
    f.units base n = (n - (f.capacity - f.position) + base - 1) / base := by
  have hleast : IsLeast {k | f.position + n ≤ f.capacity + k * base}
      ((n - (f.capacity - f.position) + base - 1) / base) := by
    constructor
    · -- the ceiling makes room
      have hceil := Nat.lt_div_mul_add hb (a := n - (f.capacity - f.position) + base - 1)
      simp only [Set.mem_ofPred_eq]
      omega
    · -- and nothing smaller does
      intro k hk
      simp only [Set.mem_ofPred_eq] at hk
      apply Nat.le_of_lt_succ
      rw [Nat.div_lt_iff_lt_mul hb, Nat.succ_mul]
      omega
  exact hleast.csInf_eq

/-- Growth makes room. -/
theorem units_room {base n : Nat} {f : Flat} (hb : 0 < base) (hp : f.position ≤ f.capacity) :
    f.position + n ≤ f.capacity + f.units base n * base := by
  have hceil := Nat.lt_div_mul_add hb (a := n - (f.capacity - f.position) + base - 1)
  rw [units_eq hb hp]
  omega

/-- Growth leaves less than a unit to spare. -/
theorem units_tight {base n : Nat} {f : Flat} (hb : 0 < base) (hp : f.position ≤ f.capacity)
    (hfull : f.capacity < f.position + n) :
    f.capacity + f.units base n * base < f.position + n + base := by
  have hle := Nat.div_mul_le_self (n - (f.capacity - f.position) + base - 1) base
  rw [units_eq hb hp]
  omega

theorem grow_length (heap : Nat → Nat → UInt8) (f : Flat) (base n : Nat) :
    (f.grow heap base n).bytes.length = f.capacity + f.units base n * base := by
  simp [Flat.grow, Flat.fresh, Flat.capacity, Function.comp_def]

theorem units_zero {base n : Nat} {f : Flat} (hb : 0 < base) (h : f.position + n ≤ f.capacity) :
    f.units base n = 0 := by
  rw [units_eq hb (by omega)]
  apply Nat.div_eq_of_lt
  omega

theorem grow_of_room {base n : Nat} {f : Flat} (hb : 0 < base)
    (h : f.position + n ≤ f.capacity) : f.grow heap base n = f := by
  simp [Flat.grow, units_zero hb h, Flat.fresh]

/-- `addCapacity` grows the chain as the flat buffer grows, and makes room. -/
theorem addCapacity_spec (heap : Nat → Nat → UInt8) (h : Inv ba) (n : Nat) :
    Shows ba ((abs ba).grow heap ba.baseSize n) (addCapacity heap n ba) ∧
      ba.position + n ≤ (addCapacity heap n ba).capacity ∧
      (addCapacity heap n ba).position = ba.position := by
  have hpc : ba.position ≤ ba.capacity := Nat.le_trans h.position_le h.size_le
  have hcap : (abs ba).capacity = ba.capacity := h.content_len
  have hpos : (abs ba).position = ba.position := rfl
  by_cases hroom : ba.position + n ≤ ba.capacity
  · -- there is room: neither changes
    have hsame : addCapacity heap n ba = ba := by
      have hge : getCapacity ba ≥ n := by unfold getCapacity; omega
      simp only [addCapacity, if_pos hge, ite_self]
    rw [hsame, grow_of_room h.base_pos (by rw [hcap, hpos]; exact hroom)]
    exact ⟨h.shows, hroom, rfl⟩
  · have hn : n ≠ 0 := by omega
    have hgc : getCapacity ba = ba.capacity - ba.position := rfl
    have hsmall : ¬ getCapacity ba ≥ n := by omega
    have hunits := units_eq (n := n) (f := abs ba) h.base_pos (by rw [hcap, hpos]; exact hpc)
    rw [hcap, hpos, ← hgc] at hunits
    have hcount : 0 < (abs ba).units ba.baseSize n := by
      rw [hunits]
      exact Nat.div_pos (by omega) h.base_pos
    have hmakes := units_room (n := n) (f := abs ba) h.base_pos (by rw [hcap, hpos]; exact hpc)
    rw [hcap, hpos] at hmakes
    have heq : addCapacity heap n ba = { ba with
        nodes := ba.nodes ++ newNodes heap ba.baseSize ba.allocs ((abs ba).units ba.baseSize n)
        capacity := ba.capacity + (abs ba).units ba.baseSize n * ba.baseSize
        allocs := ba.allocs + (abs ba).units ba.baseSize n
        cur := if getCapacity ba = 0 then some ba.nodes.length else ba.cur } := by
      simp only [addCapacity, if_neg hn, if_neg hsmall, ← hunits,
        if_neg (Nat.ne_of_gt hcount)]
    rw [heq]
    refine ⟨⟨⟨h.base_pos, h.position_le, ?_, ?_, ?_, ?_, ?_⟩, ?_, rfl, rfl⟩, hmakes, rfl⟩
    · have := h.size_le
      simp only; omega
    · exact h.blocks.append (newNodes_blocks _ _ _)
    · simp [h.root]
    · simp only [List.length_append, newNodes, List.length_map, List.length_range, Nat.mul_add,
        ← h.capacity_eq, Nat.mul_comm]
    · -- the cursor: the first new block when the old chain was full, else the old one
      have hlt : ba.position < ba.capacity + (abs ba).units ba.baseSize n * ba.baseSize := by omega
      simp only [if_pos hlt]
      by_cases hfull : getCapacity ba = 0
      · have hp : ba.position = ba.baseSize * ba.nodes.length := by
          have := h.capacity_eq; omega
        rw [if_pos hfull, hp, Nat.mul_div_cancel_left _ h.base_pos]
      · rw [if_neg hfull, h.cur_eq, if_pos (by omega)]
    · simp only [abs, Flat.grow, content_append, content_newNodes]

end

end Sylar.ByteArray
