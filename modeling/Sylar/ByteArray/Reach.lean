import Mathlib.Data.List.Basic
import Sylar.ByteArray.Refine
import Sylar.ByteArray.Typed

/- The states a `ByteArray` reaches, and that each of them satisfies the
   representation invariant.

   `Keeps x` says that a member function run in a state that satisfies `Inv` ends
   in one, whether it returns or throws `std::out_of_range`, unless it touches a
   null block or memory outside a block on the way. It composes over sequencing
   (`Keeps.bind`), so the typed operations need no argument of their own beyond
   what they are made of. -/
namespace Sylar.ByteArray
open Sylar.Lib

/-- Undefined behaviour, as opposed to a thrown exception. -/
def Err.Fault : Err → Prop
  | .outOfRange _ => False
  | .nullNode => True
  | .badAccess => True

/-- The call ran into undefined behaviour. -/
def Faults {α : Type} (r : Except Err α) : Prop := ∃ e : Err, r = .error e ∧ e.Fault

/-- The member function keeps the invariant and the block size. -/
def Keeps {α : Type} (x : M α) : Prop :=
  ∀ ba, Inv ba → Faults (x.on ba).1 ∨ (Inv (x.on ba).2 ∧ (x.on ba).2.baseSize = ba.baseSize)

namespace Keeps
variable {α β : Type}

theorem pure' (a : α) : Keeps (pure a : M α) := fun _ h => Or.inr ⟨h, rfl⟩

theorem lift' (x : Except Err α) : Keeps (lift x) := fun _ h => Or.inr ⟨h, rfl⟩

theorem get' : Keeps (get : M ByteArray) := fun _ h => Or.inr ⟨h, rfl⟩

theorem bind {x : M α} {f : α → M β} (hx : Keeps x) (hf : ∀ a, Keeps (f a)) : Keeps (x >>= f) := by
  intro ba h
  rw [on_bind]
  cases hr : x.on ba with
  | mk r s =>
    have hk := hx ba h
    rw [hr] at hk
    cases r with
    | error e =>
      -- the first part threw: its outcome is the whole outcome
      rcases hk with ⟨e', he, hf'⟩ | hk
      · cases he; exact Or.inl ⟨e, rfl, hf'⟩
      · exact Or.inr hk
    | ok a =>
      rcases hk with ⟨e', he, _⟩ | ⟨hinv, hbase⟩
      · cases he
      · rcases hf a s hinv with hfault | ⟨hinv', hbase'⟩
        · exact Or.inl hfault
        · exact Or.inr ⟨hinv', hbase'.trans hbase⟩

theorem ite' {c : Prop} [Decidable c] {x y : M α} (hx : Keeps x) (hy : Keeps y) :
    Keeps (if c then x else y) := by
  split
  · exact hx
  · exact hy

/-- A function specified by a flat operation keeps the invariant. -/
theorem of_shows {x : M α} (hx : ∀ ba, Inv ba → ∃ r f ba', x.on ba = (r, ba') ∧ Shows ba f ba') :
    Keeps x := by
  intro ba h
  obtain ⟨r, f, ba', hrun, hs⟩ := hx ba h
  rw [hrun]
  exact Or.inr ⟨hs.inv, hs.base_eq⟩

end Keeps

section
variable (heap : Nat → Nat → UInt8)

theorem write_keeps (buf : List UInt8) : Keeps (write heap buf) := by
  apply Keeps.of_shows
  intro ba h
  obtain ⟨ba', hrun, hs⟩ := write_spec heap h buf
  exact ⟨_, _, ba', hrun, hs⟩

/-- A read of nothing moves nothing, but reads a field of the current block. -/
theorem read_zero {ba : ByteArray} :
    (read 0).on ba = (if ba.cur = none then .error .nullNode else .ok [], ba) := by
  rw [read, on_bind_ok _ (on_get ba), if_neg (Nat.not_lt_zero _)]
  cases ba.cur <;> rfl

theorem read_keeps (n : Nat) : Keeps (read n) := by
  intro ba h
  by_cases hn : n = 0
  · subst hn
    rw [read_zero]
    split
    · exact Or.inl ⟨_, rfl, trivial⟩
    · exact Or.inr ⟨h, rfl⟩
  · obtain ⟨ba', hrun, hs⟩ := read_spec h (n := n) (by omega)
    rw [hrun]
    exact Or.inr ⟨hs.inv, hs.base_eq⟩

theorem setPosition_keeps (v : Nat) : Keeps (setPosition v) := by
  apply Keeps.of_shows
  intro ba h
  obtain ⟨ba', hrun, hs⟩ := setPosition_spec h v
  exact ⟨_, _, ba', hrun, hs⟩

theorem clear_keeps : Keeps clear := by
  apply Keeps.of_shows
  intro ba h
  obtain ⟨ba', hrun, hs⟩ := clear_spec h
  exact ⟨_, _, ba', hrun, hs⟩

theorem toString_keeps : Keeps toString := by
  apply Keeps.of_shows
  intro ba h
  exact ⟨_, _, ba, toString_spec h, h.shows⟩

theorem getReadBuffers_keeps (len : Nat) : Keeps (getReadBuffers len) := by
  apply Keeps.of_shows
  intro ba h
  obtain ⟨iovs, hrun, _⟩ := getReadBuffers_spec h len
  exact ⟨_, _, ba, hrun, h.shows⟩

theorem getWriteBuffers_keeps (len : Nat) : Keeps (getWriteBuffers heap len) := by
  apply Keeps.of_shows
  intro ba h
  obtain ⟨ba', iovs, hrun, hs, _⟩ := getWriteBuffers_spec heap h len
  exact ⟨_, _, ba', hrun, hs⟩

theorem setIsLittleEndian_keeps (val : Bool) : Keeps (setIsLittleEndian val) := by
  intro ba h
  rw [setIsLittleEndian, on_modify]
  exact Or.inr ⟨⟨h.base_pos, h.position_le, h.size_le, h.blocks, h.root, h.capacity_eq, h.cur_eq⟩, rfl⟩

/-! ## The typed operations -/

theorem writeFixed_keeps (n : Nat) (value : BitVec (8 * n)) : Keeps (writeFixed heap n value) :=
  Keeps.bind Keeps.get' fun _ => write_keeps heap _

theorem writeVarint_keeps (k value : Nat) : Keeps (writeVarint heap k value) :=
  Keeps.bind (Keeps.lift' _) fun _ => write_keeps heap _

theorem readFuint8_keeps : Keeps readFuint8 := Keeps.bind (read_keeps 1) fun _ => Keeps.pure' _

theorem readFixed_keeps (n : Nat) : Keeps (readFixed n) :=
  Keeps.bind (read_keeps n) fun _ => Keeps.bind Keeps.get' fun _ => Keeps.pure' _

theorem readVarint_keeps (w : Nat) : ∀ (k i : Nat) (result : BitVec w),
    Keeps (readVarint w k i result)
  | 0, _, result => Keeps.pure' result
  | k + 1, i, _ =>
    Keeps.bind readFuint8_keeps fun _ => Keeps.ite' (Keeps.pure' _) (readVarint_keeps w k (i + 7) _)

theorem writeBlocks_keeps : ∀ blocks : List (List UInt8), Keeps (writeBlocks heap blocks)
  | [] => Keeps.pure' ()
  | block :: rest => Keeps.bind (write_keeps heap block) fun _ => writeBlocks_keeps rest

theorem readFromFile_keeps (file : Option (List UInt8)) : Keeps (readFromFile heap file) := by
  cases file with
  | none => exact Keeps.pure' false
  | some bytes =>
    exact Keeps.bind Keeps.get' fun _ => Keeps.bind (writeBlocks_keeps heap _) fun _ => Keeps.pure' _

end

/-! ## Numbers and strings as data -/

/-- A value with the function that writes it. -/
inductive NumVal where
  | fint8 (v : Int8)
  | fuint8 (v : UInt8)
  | fint16 (v : Int16)
  | fuint16 (v : UInt16)
  | fint32 (v : Int32)
  | fuint32 (v : UInt32)
  | fint64 (v : Int64)
  | fuint64 (v : UInt64)
  | int32 (v : Int32)
  | uint32 (v : UInt32)
  | int64 (v : Int64)
  | uint64 (v : UInt64)
  | float (bits : UInt32)
  | double (bits : UInt64)
  deriving DecidableEq

/-- The function that reads a value. -/
inductive NumKind where
  | fint8 | fuint8 | fint16 | fuint16 | fint32 | fuint32 | fint64 | fuint64
  | int32 | uint32 | int64 | uint64 | float | double
  deriving DecidableEq, Repr

def NumVal.kind : NumVal → NumKind
  | .fint8 _ => .fint8
  | .fuint8 _ => .fuint8
  | .fint16 _ => .fint16
  | .fuint16 _ => .fuint16
  | .fint32 _ => .fint32
  | .fuint32 _ => .fuint32
  | .fint64 _ => .fint64
  | .fuint64 _ => .fuint64
  | .int32 _ => .int32
  | .uint32 _ => .uint32
  | .int64 _ => .int64
  | .uint64 _ => .uint64
  | .float _ => .float
  | .double _ => .double

section
variable (heap : Nat → Nat → UInt8)

def NumVal.write : NumVal → M Unit
  | .fint8 v => writeFint8 heap v
  | .fuint8 v => writeFuint8 heap v
  | .fint16 v => writeFint16 heap v
  | .fuint16 v => writeFuint16 heap v
  | .fint32 v => writeFint32 heap v
  | .fuint32 v => writeFuint32 heap v
  | .fint64 v => writeFint64 heap v
  | .fuint64 v => writeFuint64 heap v
  | .int32 v => writeInt32 heap v
  | .uint32 v => writeUint32 heap v
  | .int64 v => writeInt64 heap v
  | .uint64 v => writeUint64 heap v
  | .float v => writeFloat heap v
  | .double v => writeDouble heap v

end

def NumKind.read : NumKind → M NumVal
  | .fint8 => do return .fint8 (← readFint8)
  | .fuint8 => do return .fuint8 (← readFuint8)
  | .fint16 => do return .fint16 (← readFint16)
  | .fuint16 => do return .fuint16 (← readFuint16)
  | .fint32 => do return .fint32 (← readFint32)
  | .fuint32 => do return .fuint32 (← readFuint32)
  | .fint64 => do return .fint64 (← readFint64)
  | .fuint64 => do return .fuint64 (← readFuint64)
  | .int32 => do return .int32 (← readInt32)
  | .uint32 => do return .uint32 (← readUint32)
  | .int64 => do return .int64 (← readInt64)
  | .uint64 => do return .uint64 (← readUint64)
  | .float => do return .float (← readFloat)
  | .double => do return .double (← readDouble)

theorem numWrite_keeps (heap : Nat → Nat → UInt8) (v : NumVal) : Keeps (v.write heap) := by
  cases v with
  | fint8 v => exact write_keeps heap _
  | fuint8 v => exact write_keeps heap _
  | fint16 v => exact writeFixed_keeps heap 2 _
  | fuint16 v => exact writeFixed_keeps heap 2 _
  | fint32 v => exact writeFixed_keeps heap 4 _
  | fuint32 v => exact writeFixed_keeps heap 4 _
  | fint64 v => exact writeFixed_keeps heap 8 _
  | fuint64 v => exact writeFixed_keeps heap 8 _
  | int32 v => exact writeVarint_keeps heap 5 _
  | uint32 v => exact writeVarint_keeps heap 5 _
  | int64 v => exact writeVarint_keeps heap 10 _
  | uint64 v => exact writeVarint_keeps heap 10 _
  | float v => exact writeFixed_keeps heap 4 _
  | double v => exact writeFixed_keeps heap 8 _

theorem readUint32_keeps : Keeps readUint32 :=
  Keeps.bind (readVarint_keeps 32 5 0 0) fun _ => Keeps.pure' _

theorem readUint64_keeps : Keeps readUint64 :=
  Keeps.bind (readVarint_keeps 64 10 0 0) fun _ => Keeps.pure' _

theorem numRead_keeps (k : NumKind) : Keeps k.read := by
  have fixed : ∀ {β : Type} (n : Nat) (f : BitVec (8 * n) → β),
      Keeps (do return f (← readFixed n) : M β) :=
    fun n f => Keeps.bind (readFixed_keeps n) fun _ => Keeps.pure' _
  cases k with
  | fint8 =>
    exact Keeps.bind (Keeps.bind (read_keeps 1) fun _ => Keeps.pure' _) fun _ => Keeps.pure' _
  | fuint8 => exact Keeps.bind readFuint8_keeps fun _ => Keeps.pure' _
  | fint16 => exact Keeps.bind (fixed 2 _) fun _ => Keeps.pure' _
  | fuint16 => exact Keeps.bind (fixed 2 _) fun _ => Keeps.pure' _
  | fint32 => exact Keeps.bind (fixed 4 _) fun _ => Keeps.pure' _
  | fuint32 => exact Keeps.bind (fixed 4 _) fun _ => Keeps.pure' _
  | fint64 => exact Keeps.bind (fixed 8 _) fun _ => Keeps.pure' _
  | fuint64 => exact Keeps.bind (fixed 8 _) fun _ => Keeps.pure' _
  | int32 =>
    exact Keeps.bind (Keeps.bind readUint32_keeps fun _ => Keeps.pure' _) fun _ => Keeps.pure' _
  | uint32 => exact Keeps.bind readUint32_keeps fun _ => Keeps.pure' _
  | int64 =>
    exact Keeps.bind (Keeps.bind readUint64_keeps fun _ => Keeps.pure' _) fun _ => Keeps.pure' _
  | uint64 => exact Keeps.bind readUint64_keeps fun _ => Keeps.pure' _
  | float => exact Keeps.bind (fixed 4 _) fun _ => Keeps.pure' _
  | double => exact Keeps.bind (fixed 8 _) fun _ => Keeps.pure' _

theorem writeString_keeps (heap : Nat → Nat → UInt8) (enc : StrEnc) (value : List UInt8) :
    Keeps (writeString heap enc value) := by
  apply Keeps.bind _ fun _ => write_keeps heap value
  cases enc with
  | f16 => exact writeFixed_keeps heap 2 _
  | f32 => exact writeFixed_keeps heap 4 _
  | f64 => exact writeFixed_keeps heap 8 _
  | vint => exact writeVarint_keeps heap 10 _

theorem readString_keeps (enc : StrEnc) : Keeps (readString enc) := by
  apply Keeps.bind _ fun _ => read_keeps _
  cases enc with
  | f16 =>
    exact Keeps.bind (Keeps.bind (readFixed_keeps 2) fun _ => Keeps.pure' _) fun _ => Keeps.pure' _
  | f32 =>
    exact Keeps.bind (Keeps.bind (readFixed_keeps 4) fun _ => Keeps.pure' _) fun _ => Keeps.pure' _
  | f64 =>
    exact Keeps.bind (Keeps.bind (readFixed_keeps 8) fun _ => Keeps.pure' _) fun _ => Keeps.pure' _
  | vint => exact Keeps.bind readUint64_keeps fun _ => Keeps.pure' _

/-! ## Reachable states -/

/-- The public operations. -/
inductive Op where
  | write (buf : List UInt8)
  | read (n : Nat)
  | setPosition (v : Nat)
  | clear
  | toString
  | getReadBuffers (len : Nat)
  | getWriteBuffers (len : Nat)
  | readFromFile (file : Option (List UInt8))
  | setIsLittleEndian (val : Bool)
  | writeNum (v : NumVal)
  | readNum (k : NumKind)
  | writeString (enc : StrEnc) (value : List UInt8)
  | readString (enc : StrEnc)

/-- The call of an operation, its result dropped. -/
def Op.call (heap : Nat → Nat → UInt8) : Op → M Unit
  | .write buf => ByteArray.write heap buf
  | .read n => discard (ByteArray.read n)
  | .setPosition v => ByteArray.setPosition v
  | .clear => ByteArray.clear
  | .toString => discard ByteArray.toString
  | .getReadBuffers len => discard (ByteArray.getReadBuffers len)
  | .getWriteBuffers len => discard (ByteArray.getWriteBuffers heap len)
  | .readFromFile file => discard (ByteArray.readFromFile heap file)
  | .setIsLittleEndian val => ByteArray.setIsLittleEndian val
  | .writeNum v => v.write heap
  | .readNum k => discard k.read
  | .writeString enc value => ByteArray.writeString heap enc value
  | .readString enc => discard (ByteArray.readString enc)

theorem Keeps.discard' {α : Type} {x : M α} (hx : Keeps x) : Keeps (discard x : M Unit) :=
  Keeps.bind hx fun _ => Keeps.pure' ()

theorem call_keeps (heap : Nat → Nat → UInt8) (op : Op) : Keeps (op.call heap) := by
  cases op with
  | write buf => exact write_keeps heap buf
  | read n => exact (read_keeps n).discard'
  | setPosition v => exact setPosition_keeps v
  | clear => exact clear_keeps
  | toString => exact toString_keeps.discard'
  | getReadBuffers len => exact (getReadBuffers_keeps len).discard'
  | getWriteBuffers len => exact (getWriteBuffers_keeps heap len).discard'
  | readFromFile file => exact (readFromFile_keeps heap file).discard'
  | setIsLittleEndian val => exact setIsLittleEndian_keeps val
  | writeNum v => exact numWrite_keeps heap v
  | readNum k => exact (numRead_keeps k).discard'
  | writeString enc value => exact writeString_keeps heap enc value
  | readString enc => exact (readString_keeps enc).discard'

/-- The states an object with blocks of `base` bytes reaches: the new one, and what any
operation leaves that returns or throws `std::out_of_range`. -/
inductive Reachable (heap : Nat → Nat → UInt8) (base : Nat) : ByteArray → Prop where
  | new : Reachable heap base (new heap base)
  | call {ba : ByteArray} (op : Op) : Reachable heap base ba →
      ¬ Faults ((op.call heap).on ba).1 → Reachable heap base ((op.call heap).on ba).2

theorem Reachable.inv {heap : Nat → Nat → UInt8} {base : Nat} (hb : 0 < base) {ba : ByteArray}
    (r : Reachable heap base ba) : Inv ba ∧ ba.baseSize = base := by
  induction r with
  | new => exact ⟨inv_new hb, rfl⟩
  | call op _ hreturns ih =>
    rcases call_keeps heap op _ ih.1 with hfault | ⟨hinv, hbase⟩
    · exact absurd hfault hreturns
    · exact ⟨hinv, hbase.trans ih.2⟩

/-- **The representation invariant.** In every state an object reaches through operations
that return or throw: position ≤ size ≤ capacity, every block has `base` bytes, the
capacity is the chain's, and the cached block is the one the position lies in, null
exactly at full capacity. -/
theorem reachable_representation (heap : Nat → Nat → UInt8) (base : Nat) (hb : 1 ≤ base)
    (ba : ByteArray) (r : Reachable heap base ba) :
    ba.position ≤ ba.size ∧ ba.size ≤ ba.capacity ∧
    (∀ n ∈ ba.nodes, n.size = base) ∧ ba.capacity = base * ba.nodes.length ∧
    (ba.position < ba.capacity →
      ba.cur = some (ba.position / base) ∧ ba.position / base < ba.nodes.length) ∧
    (ba.cur = none ↔ ba.position = ba.capacity) := by
  obtain ⟨h, rfl⟩ := r.inv hb
  refine ⟨h.position_le, h.size_le, h.blocks, h.capacity_eq, ?_, h.cur_none_iff⟩
  intro hp
  exact ⟨h.cur_some hp, h.index_lt hp⟩

/-- One block of two bytes, written full: the position is at the capacity and the cached
block is null. -/
theorem reachable_representation_full :
    ((Op.write [1, 2]).call (fun _ _ => 0)).on (new (fun _ _ => 0) 2) |>.2.cur = none := by
  have hreturns : ¬ Faults (((Op.write [1, 2]).call fun _ _ => 0).on (new (fun _ _ => 0) 2)).1 := by
    rintro ⟨e, he, _⟩
    cases he
  have h := reachable_representation (fun _ _ => 0) 2 (by decide) _
    (Reachable.call (.write [1, 2]) Reachable.new hreturns)
  exact h.2.2.2.2.2.mpr (by decide)

end Sylar.ByteArray
