import Mathlib.Data.List.Basic
import Sylar.Lib.Bytes
import Sylar.ByteArray.Basic

/- The typed reads and writes of `sylar/bytearray.cc`.

   The host is little-endian: the memory of a word is its bytes least significant
   first, and `SYLAR_BYTE_ORDER` is `SYLAR_LITTLE_ENDIAN`. Signed words are read
   and written as the unsigned words of the same bits, and a float or a double is
   its bit pattern, as the `memcpy` of `writeFloat` and `readFloat` has it.

   The functions of one shape are one definition with the width as a parameter
   (`writeFixed`, `readFixed`, `writeVarint`, `readVarint`, `writeString`,
   `readString`); each function of the source is that definition at its own
   width. `writeFint8` and `writeFuint8` never swap, and neither do their reads. -/
namespace Sylar.ByteArray
open Sylar.Lib

/-- `SYLAR_BYTE_ORDER`. -/
def byteOrder : Endian := .little

/-- `byteswap` on a word of `n` bytes. -/
def byteswap {n : Nat} (value : BitVec (8 * n)) : BitVec (8 * n) :=
  BitVec.ofNat _ (ofLeBytes (leBytes n value.toNat).reverse)

def encodeZigzag32 (v : Int32) : UInt32 := ⟨zigzag v.toBitVec⟩

def encodeZigzag64 (v : Int64) : UInt64 := ⟨zigzag v.toBitVec⟩

def decodeZigzag32 (v : UInt32) : Int32 := ⟨⟨unzigzag v.toBitVec⟩⟩

def decodeZigzag64 (v : UInt64) : Int64 := ⟨⟨unzigzag v.toBitVec⟩⟩

/-- The loop of `writeUint32` and `writeUint64` with `k` bytes of `tmp` left: the
bytes it puts there. -/
def varintLoop : Nat → Nat → Except Err (List UInt8)
  | 0, _ => .error .badAccess
  | k + 1, value =>
    if value ≥ 0x80 then do
      let rest ← varintLoop k (value >>> 7)
      pure (UInt8.ofNat ((value &&& 0x7F) ||| 0x80) :: rest)
    else .ok [UInt8.ofNat value]

section
variable (heap : Nat → Nat → UInt8)

/-! ## Writes -/

def writeFint8 (value : Int8) : M Unit := write heap [value.toUInt8]

def writeFuint8 (value : UInt8) : M Unit := write heap [value]

/-- A word of `n` bytes, swapped unless the byte order is the host's. -/
def writeFixed (n : Nat) (value : BitVec (8 * n)) : M Unit := do
  let ba ← get
  let value := if ba.endian ≠ byteOrder then byteswap value else value
  write heap (leBytes n value.toNat)

def writeFint16 (value : Int16) : M Unit := writeFixed heap 2 value.toBitVec

def writeFuint16 (value : UInt16) : M Unit := writeFixed heap 2 value.toBitVec

def writeFint32 (value : Int32) : M Unit := writeFixed heap 4 value.toBitVec

def writeFuint32 (value : UInt32) : M Unit := writeFixed heap 4 value.toBitVec

def writeFint64 (value : Int64) : M Unit := writeFixed heap 8 value.toBitVec

def writeFuint64 (value : UInt64) : M Unit := writeFixed heap 8 value.toBitVec

/-- A base-128 number through a `tmp` of `k` bytes. -/
def writeVarint (k value : Nat) : M Unit := do
  let tmp ← lift (varintLoop k value)
  write heap tmp

def writeUint32 (value : UInt32) : M Unit := writeVarint heap 5 value.toNat

def writeInt32 (value : Int32) : M Unit := writeUint32 heap (encodeZigzag32 value)

def writeUint64 (value : UInt64) : M Unit := writeVarint heap 10 value.toNat

def writeInt64 (value : Int64) : M Unit := writeUint64 heap (encodeZigzag64 value)

/-- `writeFloat`, on the bits of the float. -/
def writeFloat (bits : UInt32) : M Unit := writeFuint32 heap bits

/-- `writeDouble`, on the bits of the double. -/
def writeDouble (bits : UInt64) : M Unit := writeFuint64 heap bits

end

/-! ## Reads -/

def readFuint8 : M UInt8 := do
  let v ← read 1
  return UInt8.ofNat (ofLeBytes v)

def readFint8 : M Int8 := do
  let v ← read 1
  return (UInt8.ofNat (ofLeBytes v)).toInt8

def readFixed (n : Nat) : M (BitVec (8 * n)) := do
  let bytes ← read n
  let v : BitVec (8 * n) := BitVec.ofNat _ (ofLeBytes bytes)
  let ba ← get
  return if ba.endian = byteOrder then v else byteswap v

def readFint16 : M Int16 := do return ⟨⟨← readFixed 2⟩⟩

def readFuint16 : M UInt16 := do return ⟨← readFixed 2⟩

def readFint32 : M Int32 := do return ⟨⟨← readFixed 4⟩⟩

def readFuint32 : M UInt32 := do return ⟨← readFixed 4⟩

def readFint64 : M Int64 := do return ⟨⟨← readFixed 8⟩⟩

def readFuint64 : M UInt64 := do return ⟨← readFixed 8⟩

/-- The loop of `readUint32` and `readUint64` with `k` iterations left, at shift `i`. -/
def readVarint (w : Nat) : Nat → Nat → BitVec w → M (BitVec w)
  | 0, _, result => pure result
  | k + 1, i, result => do
    let b ← readFuint8
    if b < 0x80 then return result ||| (b.toBitVec.setWidth w <<< i)
    else readVarint w k (i + 7) (result ||| ((b &&& 0x7f).toBitVec.setWidth w <<< i))

/-- Shifts 0, 7, 14, 21 and 28. -/
def readUint32 : M UInt32 := do return ⟨← readVarint 32 5 0 0⟩

def readInt32 : M Int32 := do return decodeZigzag32 (← readUint32)

/-- Shifts 0, 7, …, 63. -/
def readUint64 : M UInt64 := do return ⟨← readVarint 64 10 0 0⟩

def readInt64 : M Int64 := do return decodeZigzag64 (← readUint64)

def readFloat : M UInt32 := readFuint32

def readDouble : M UInt64 := readFuint64

/-! ## Strings -/

/-- The four length prefixes. -/
inductive StrEnc where
  | f16
  | f32
  | f64
  | vint
  deriving DecidableEq, Repr

section
variable (heap : Nat → Nat → UInt8)

/-- `value.size()` as each `writeString…` passes it on: narrowed to the type of the
prefix. -/
def writeLength (size : Nat) : StrEnc → M Unit
  | .f16 => writeFuint16 heap (UInt16.ofNat size)
  | .f32 => writeFuint32 heap (UInt32.ofNat size)
  | .f64 => writeFuint64 heap (UInt64.ofNat size)
  | .vint => writeUint64 heap (UInt64.ofNat size)

def writeString (enc : StrEnc) (value : List UInt8) : M Unit := do
  writeLength heap value.length enc
  write heap value

def writeStringF16 (value : List UInt8) : M Unit := writeString heap .f16 value

def writeStringF32 (value : List UInt8) : M Unit := writeString heap .f32 value

def writeStringF64 (value : List UInt8) : M Unit := writeString heap .f64 value

def writeStringVint (value : List UInt8) : M Unit := writeString heap .vint value

def writeStringWithoutLength (value : List UInt8) : M Unit := write heap value

end

def readLength : StrEnc → M Nat
  | .f16 => do return (← readFuint16).toNat
  | .f32 => do return (← readFuint32).toNat
  | .f64 => do return (← readFuint64).toNat
  | .vint => do return (← readUint64).toNat

/-- `read(&buff[0], len)` is called for `len` 0 too. -/
def readString (enc : StrEnc) : M (List UInt8) := do
  let len ← readLength enc
  read len

def readStringF16 : M (List UInt8) := readString .f16

def readStringF32 : M (List UInt8) := readString .f32

def readStringF64 : M (List UInt8) := readString .f64

def readStringVint : M (List UInt8) := readString .vint

/-! ## Files -/

/-- What the successive `ifs.read(buff, m_baseSize)` of `readFromFile` deliver: full
blocks, then the one that meets the end of the file (empty when the file ends with a
full block). -/
def fileBlocks (base : Nat) (bytes : List UInt8) : List (List UInt8) :=
  if _h : base = 0 ∨ bytes.length < base then [bytes]
  else bytes.take base :: fileBlocks base (bytes.drop base)
termination_by bytes.length
decreasing_by rw [List.length_drop]; omega

section
variable (heap : Nat → Nat → UInt8)

def writeBlocks : List (List UInt8) → M Unit
  | [] => pure ()
  | block :: rest => do
    write heap block
    writeBlocks rest

/-- `ByteArray::readFromFile`: `none` is a file that cannot be opened. -/
def readFromFile : Option (List UInt8) → M Bool
  | none => pure false
  | some bytes => do
    let ba ← get
    writeBlocks heap (fileBlocks ba.baseSize bytes)
    return true

end

end Sylar.ByteArray
