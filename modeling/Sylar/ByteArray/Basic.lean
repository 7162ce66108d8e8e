import Mathlib.Data.List.Basic
import Sylar.Lib.Segment

/- The block buffer of `sylar/bytearray.cc`: a chain of blocks of `m_baseSize`
   bytes, a position, a size, a capacity and a cached pointer to the block the
   position lies in.

   Correspondence (C++ ↔ Lean):
     the chain from `m_root` through `next`   ↔ `nodes`
     `m_cur` (a node, or null)                ↔ `cur : Option Nat`, an index
                                                into `nodes`
     `new char[s]`                            ↔ `heap k`, the `k`-th allocation:
                                                its bytes are whatever `heap`
                                                says until they are written
     a thrown `std::out_of_range`             ↔ `Err.outOfRange`
     reading a field of a null node           ↔ `Err.nullNode`
     a `memcpy` outside a block               ↔ `Err.badAccess`

   An operation is a function of the state to a result and the state it leaves,
   so that a call that throws half way keeps what it did before the throw.
   `size_t` is `Nat`: the differences the code takes (`m_capacity - m_position`,
   `m_size - m_position`, `m_cur->size - npos`) never go below zero in a state
   that satisfies `Inv` (see `Sylar.ByteArray.Invariant`), and memory is
   unbounded, so no sum wraps. The one difference with an argument of the caller
   in it, in the `read` that is given a position, is the one of `size_t`
   (`sizeSub`). `ceil(1.0 * size / m_baseSize)` in `addCapacity` is the exact
   ceiling. -/
namespace Sylar
open Sylar.Lib

namespace ByteArray

/-- What a call can end with other than a result. -/
inductive Err where
  | outOfRange (what : String)
  | nullNode
  | badAccess
  deriving DecidableEq, Repr

inductive Endian where
  | little
  | big
  deriving DecidableEq, Repr

/-- A block: `ptr` is its memory, and `size` the number of bytes of it. -/
structure Node where
  ptr : List UInt8
  deriving DecidableEq, Repr

def Node.size (n : Node) : Nat := n.ptr.length

/-- An `iovec` into the chain: `len` bytes from `off` on in block `node`. -/
structure Iovec where
  node : Nat
  off : Nat
  len : Nat
  deriving DecidableEq, Repr

end ByteArray

open Sylar.ByteArray in
/-- The fields of a `ByteArray`. `allocs` counts the blocks allocated so far, so
that every block gets a `heap` of its own. -/
structure ByteArray where
  baseSize : Nat
  position : Nat
  capacity : Nat
  size : Nat
  endian : Endian
  nodes : List Node
  cur : Option Nat
  allocs : Nat
  deriving DecidableEq, Repr

namespace ByteArray

/-- A member function: a result or an error, and the state it leaves. -/
abbrev M (α : Type) : Type := ExceptT Err (StateM ByteArray) α

/-- Run a member function on an object. -/
def M.on {α : Type} (x : M α) (ba : ByteArray) : Except Err α × ByteArray := x.run ba

/-- A computation on the chain that does not touch the fields. -/
def lift {α : Type} (x : Except Err α) : M α := fun ba => (x, ba)

/-- `m_cur->next` for the block at index `i` followed by `rest`. -/
def next (i : Nat) (rest : List Node) : Option Nat := if rest.isEmpty then none else some (i + 1)

/-- `memcpy` into a block. -/
def memcpyTo (n : Node) (off : Nat) (src : List UInt8) : Except Err Node :=
  if off + src.length ≤ n.size then .ok ⟨splice n.ptr off src⟩ else .error .badAccess

/-- `memcpy` out of a block. -/
def memcpyFrom (n : Node) (off len : Nat) : Except Err (List UInt8) :=
  if off + len ≤ n.size then .ok (slice n.ptr off len) else .error .badAccess

/-- The bytes an `iovec` names. -/
def Iovec.load (nodes : List Node) (v : Iovec) : Except Err (List UInt8) :=
  match nodes[v.node]? with
  | none => .error .nullNode
  | some n => memcpyFrom n v.off v.len

/-- The bytes a list of `iovec`s names, in order. -/
def gather (nodes : List Node) : List Iovec → Except Err (List UInt8)
  | [] => .ok []
  | v :: rest => do
    let bs ← v.load nodes
    let tl ← gather nodes rest
    pure (bs ++ tl)

/-- The `while(size > 0)` loop of `read`, `getReadBuffers` and `getWriteBuffers`
over the chain from the current block on: the pieces it takes, and the block the
cursor is left on. The last piece moves the cursor on when it ends its block. -/
def walk : Nat → List Node → Nat → Nat → Except Err (List Iovec × Option Nat)
  | _, [], _, _ => .error .nullNode
  | i, n :: rest, npos, size =>
    let ncap := n.size - npos
    if ncap ≥ size then
      .ok ([⟨i, npos, size⟩], if n.size = npos + size then next i rest else some i)
    else do
      let (iovs, cur) ← walk (i + 1) rest 0 (size - ncap)
      pure (⟨i, npos, ncap⟩ :: iovs, cur)

/-- The `while(size > 0)` loop of `write`: the chain from the current block on
with `buf` copied into it, and the block the cursor is left on. -/
def writeLoop : Nat → List Node → Nat → List UInt8 → Except Err (List Node × Option Nat)
  | _, [], _, _ => .error .nullNode
  | i, n :: rest, npos, buf =>
    let ncap := n.size - npos
    if ncap ≥ buf.length then do
      let n' ← memcpyTo n npos buf
      pure (n' :: rest, if n.size = npos + buf.length then next i rest else some i)
    else do
      let n' ← memcpyTo n npos (buf.take ncap)
      let (rest', cur) ← writeLoop (i + 1) rest 0 (buf.drop ncap)
      pure (n' :: rest', cur)

/-- The search of `setPosition` for the block position `v` lies in. -/
def seek : Nat → List Node → Nat → Except Err (Option Nat)
  | _, [], _ => .error .nullNode
  | i, n :: rest, v =>
    if v > n.size then seek (i + 1) rest (v - n.size)
    else .ok (if v = n.size then next i rest else some i)

section
variable (heap : Nat → Nat → UInt8)

/-- `new Node(s)`, the `k`-th allocation. -/
def newNode (s k : Nat) : Node := ⟨(List.range s).map (heap k)⟩

/-- `ByteArray::ByteArray`. -/
def new (base_size : Nat) : ByteArray :=
  { baseSize := base_size, position := 0, capacity := base_size, size := 0, endian := .big,
    nodes := [newNode heap base_size 0], cur := some 0, allocs := 1 }

/-- `getCapacity`: what can be written from the position on without growing. -/
def getCapacity (ba : ByteArray) : Nat := ba.capacity - ba.position

def getReadSize (ba : ByteArray) : Nat := ba.size - ba.position

def getPosition (ba : ByteArray) : Nat := ba.position

def getSize (ba : ByteArray) : Nat := ba.size

def isLittleEndian (ba : ByteArray) : Bool := ba.endian == .little

def setIsLittleEndian (val : Bool) : M Unit :=
  modify fun ba => { ba with endian := if val then .little else .big }

/-- `count` fresh blocks, the first being allocation `k`. -/
def newNodes (s k count : Nat) : List Node := (List.range count).map fun j => newNode heap s (k + j)

/-- `ByteArray::addCapacity`. -/
def addCapacity (size : Nat) (ba : ByteArray) : ByteArray :=
  if size = 0 then ba
  else
    let old_cap := getCapacity ba
    if old_cap ≥ size then ba
    else
      let size := size - old_cap
      let count := (size + ba.baseSize - 1) / ba.baseSize
      { ba with
        nodes := ba.nodes ++ newNodes heap ba.baseSize ba.allocs count
        capacity := ba.capacity + count * ba.baseSize
        allocs := ba.allocs + count
        -- `first` is the first new block
        cur := if old_cap = 0 then (if count = 0 then none else some ba.nodes.length) else ba.cur }

/-- `ByteArray::write` once there is room: the loop, then `m_size`. -/
def copyIn (buf : List UInt8) : M Unit := do
  let ba ← get
  match ba.cur with
  | none => throw .nullNode
  | some i =>
    let (chain, cur) ← lift (writeLoop i (ba.nodes.drop i) (ba.position % ba.baseSize) buf)
    let position := ba.position + buf.length
    set { ba with
      nodes := ba.nodes.take i ++ chain, cur, position,
      size := if position > ba.size then position else ba.size }

/-- `ByteArray::write`. -/
def write (buf : List UInt8) : M Unit := do
  if buf.length = 0 then return ()
  modify (addCapacity heap buf.length)
  copyIn buf

/-- `ByteArray::read(void*, size_t)`. The first `m_cur->size` is read even when
`size` is 0. -/
def read (size : Nat) : M (List UInt8) := do
  let ba ← get
  if size > getReadSize ba then throw (.outOfRange "not enough len")
  match ba.cur with
  | none => throw .nullNode
  | some i =>
    if size = 0 then return []
    let (iovs, cur) ← lift (walk i (ba.nodes.drop i) (ba.position % ba.baseSize) size)
    let bytes ← lift (gather ba.nodes iovs)
    set { ba with position := ba.position + size, cur }
    return bytes

/-- `a - b` in `size_t`. -/
def sizeSub (a b : Nat) : Nat := if b ≤ a then a - b else a + 0x10000000000000000 - b

/-- `ByteArray::read(void*, size_t, size_t) const`: as `read`, from `position`
within the current block, and the object unchanged. -/
def readAt (size position : Nat) : M (List UInt8) := do
  let ba ← get
  if size > sizeSub ba.size position then throw (.outOfRange "not enough len")
  match ba.cur with
  | none => throw .nullNode
  | some i =>
    if size = 0 then return []
    let (iovs, _) ← lift (walk i (ba.nodes.drop i) (position % ba.baseSize) size)
    lift (gather ba.nodes iovs)

/-- `ByteArray::setPosition`. -/
def setPosition (v : Nat) : M Unit := do
  let ba ← get
  if v > ba.capacity then throw (.outOfRange "set_position out of range")
  let cur ← lift (seek 0 ba.nodes v)
  set { ba with position := v, size := if v > ba.size then v else ba.size, cur }

/-- `ByteArray::clear`: every block but the first is freed. -/
def clear : M Unit :=
  modify fun ba => { ba with
    position := 0, size := 0, capacity := ba.baseSize, nodes := ba.nodes.take 1, cur := some 0 }

/-- `ByteArray::toString`. -/
def toString : M (List UInt8) := do
  let ba ← get
  if getReadSize ba = 0 then return []
  readAt (getReadSize ba) ba.position

/-- The loop `getReadBuffers` and `getWriteBuffers` share: the pieces of the
next `len` bytes, the object unchanged. -/
def buffers (len : Nat) : M (Nat × List Iovec) := do
  let ba ← get
  match ba.cur with
  | none => throw .nullNode
  | some i =>
    let (iovs, _) ← lift (walk i (ba.nodes.drop i) (ba.position % ba.baseSize) len)
    return (len, iovs)

/-- `ByteArray::getReadBuffers(buffers, len)`: the length it returns and the
buffers it appends. -/
def getReadBuffers (len : Nat) : M (Nat × List Iovec) := do
  let ba ← get
  let len := if len > getReadSize ba then getReadSize ba else len
  if len = 0 then return (0, [])
  buffers len

/-- `ByteArray::getWriteBuffers`. -/
def getWriteBuffers (len : Nat) : M (Nat × List Iovec) := do
  if len = 0 then return (0, [])
  modify (addCapacity heap len)
  buffers len

end

end ByteArray

end Sylar
