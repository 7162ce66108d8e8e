import Mathlib.Data.List.Basic
import Sylar.ByteArray.Reach

/- The typed reads over the readable bytes.

   A read that returns takes bytes from the front of the readable ones and moves the
   position behind them, and one that throws may have done so before (`Reads`). What a
   read takes and returns is a function of the readable bytes and of the byte order
   alone (`scanFixed`, `scanVarint`, `scanLength`), and what it has taken when it throws
   is nothing for a word of fixed width, and all there was for a base-128 number. The
   blocks do not show. -/
namespace Sylar.ByteArray
open Sylar.Lib

/-! ## Moving along the readable bytes -/

/-- `content[position, size)`. -/
def readable (ba : ByteArray) : List UInt8 := slice (content ba.nodes) ba.position (getReadSize ba)

section
variable {ba : ByteArray}

theorem Inv.readable_length (h : Inv ba) : (readable ba).length = getReadSize ba := by
  have hp := h.position_le
  have hs := h.size_le
  rw [readable, slice_length]
  rw [h.content_len, getReadSize]
  omega

theorem Inv.advance_zero (h : Inv ba) : ByteArray.advance 0 ba = ba := by
  obtain ⟨baseSize, position, capacity, size, endian, nodes, cur, allocs⟩ := ba
  have hcur := h.cur_eq
  simp only at hcur
  simp only [ByteArray.advance, Nat.add_zero, hcur]

theorem advance_add (m n : Nat) : advance n (advance m ba) = advance (m + n) ba := by
  simp [advance, Nat.add_assoc]

theorem readSize_advance (n : Nat) : getReadSize (advance n ba) = getReadSize ba - n := by
  simp only [getReadSize, advance]
  omega

theorem Inv.readable_advance (_h : Inv ba) {n : Nat} (hn : n ≤ getReadSize ba) :
    readable (ByteArray.advance n ba) = (readable ba).drop n := by
  obtain ⟨m, hm⟩ := Nat.exists_eq_add_of_le hn
  have hsub : getReadSize ba - n = m := by omega
  simp only [readable, readSize_advance, hsub]
  show slice (content ba.nodes) (ba.position + n) m = _
  rw [hm, slice]
  simp [slice, List.drop_take, List.drop_drop]

/-- The position moves only when it moves somewhere. -/
theorem Inv.advance_eq_self_iff (h : Inv ba) (n : Nat) : ByteArray.advance n ba = ba ↔ n = 0 := by
  constructor
  · intro heq
    have hp : ba.position + n = ba.position := congrArg ByteArray.position heq
    omega
  · intro hn
    rw [hn]
    exact h.advance_zero

end

/-! ## What is taken of the readable bytes -/

/-- A word of `n` bytes in byte order `e` at the front. -/
def scanFixed (n : Nat) (e : Endian) (bs : List UInt8) : Option (BitVec (8 * n) × List UInt8) :=
  if bs.length < n then none
  else
    let v : BitVec (8 * n) := BitVec.ofNat _ (ofLeBytes (bs.take n))
    some (if e = byteOrder then v else byteswap v, bs.drop n)

/-- A base-128 number at the front, of `k` bytes at most. -/
def scanVarint (w : Nat) : Nat → Nat → BitVec w → List UInt8 → Option (BitVec w × List UInt8)
  | 0, _, result, bs => some (result, bs)
  | _ + 1, _, _, [] => none
  | k + 1, i, result, b :: bs =>
    if b < 0x80 then some (result ||| (b.toBitVec.setWidth w <<< i), bs)
    else scanVarint w k (i + 7) (result ||| ((b &&& 0x7f).toBitVec.setWidth w <<< i)) bs

/-- The length in front of a string. -/
def scanLength (e : Endian) : StrEnc → List UInt8 → Option (Nat × List UInt8)
  | .f16, bs => (scanFixed 2 e bs).map fun p => (p.1.toNat, p.2)
  | .f32, bs => (scanFixed 4 e bs).map fun p => (p.1.toNat, p.2)
  | .f64, bs => (scanFixed 8 e bs).map fun p => (p.1.toNat, p.2)
  | .vint, bs => (scanVarint 64 10 0 0 bs).map fun p => (p.1.toNat, p.2)

/-- A word of `n` bytes, or a base-128 number of at most `k`. -/
inductive Form where
  | fixed (n : Nat)
  | varint (k : Nat)
  deriving DecidableEq, Repr

def NumKind.form : NumKind → Form
  | .fint8 => .fixed 1
  | .fuint8 => .fixed 1
  | .fint16 => .fixed 2
  | .fuint16 => .fixed 2
  | .fint32 => .fixed 4
  | .fuint32 => .fixed 4
  | .fint64 => .fixed 8
  | .fuint64 => .fixed 8
  | .int32 => .varint 5
  | .uint32 => .varint 5
  | .int64 => .varint 10
  | .uint64 => .varint 10
  | .float => .fixed 4
  | .double => .fixed 8

def StrEnc.form : StrEnc → Form
  | .f16 => .fixed 2
  | .f32 => .fixed 4
  | .f64 => .fixed 8
  | .vint => .varint 10

/-- The bytes end inside the number. -/
def Form.Truncated : Form → List UInt8 → Prop
  | .fixed n, bs => bs.length < n
  | .varint k, bs => bs.length < k ∧ ∀ b ∈ bs, ¬ b < 0x80

/-- How many bytes are gone when the bytes end inside the number. -/
def Form.lost : Form → List UInt8 → Nat
  | .fixed _, _ => 0
  | .varint _, bs => bs.length

/-- `x` returns what `scan` makes of the readable bytes and takes all but those `scan` leaves. Where the
bytes end inside the number `scan` makes nothing of them, and `x` throws. -/
structure Reads {α : Type} (x : M α) (form : Form) (scan : Endian → List UInt8 → Option (α × List UInt8)) :
    Prop where
  truncated : ∀ e bs, scan e bs = none ↔ form.Truncated bs
  returns : ∀ ba, Inv ba → ∀ v rest, scan ba.endian (readable ba) = some (v, rest) →
    ∃ n ≤ getReadSize ba, rest = (readable ba).drop n ∧ x.on ba = (.ok v, advance n ba)
  throws : ∀ ba, Inv ba → form.Truncated (readable ba) →
    x.on ba = (.error (.outOfRange "not enough len"), advance (form.lost (readable ba)) ba)

section
variable {α β : Type}

/-- A read whose result is converted. -/
theorem Reads.map {x : M α} {form : Form} {scan : Endian → List UInt8 → Option (α × List UInt8)}
    (h : Reads x form scan) (f : α → β) :
    Reads (do return f (← x)) form fun e bs => (scan e bs).map fun p => (f p.1, p.2) := by
  refine ⟨?_, ?_, ?_⟩
  · intro e bs
    rw [Option.map_eq_none_iff]
    exact h.truncated e bs
  · intro ba hinv v rest hscan
    obtain ⟨p, hp, heq⟩ := Option.map_eq_some_iff.mp hscan
    obtain ⟨n, hn, hrest, hrun⟩ := h.returns ba hinv p.1 p.2 hp
    cases heq
    exact ⟨n, hn, hrest, by rw [on_bind_ok _ hrun, on_pure]⟩
  · intro ba hinv hshort
    rw [on_bind_error _ (h.throws ba hinv hshort)]

end

/-- `read(&v, n)` of a word. -/
theorem read_reads {n : Nat} (hn : 1 ≤ n) :
    Reads (read n) (.fixed n) fun _ bs => if bs.length < n then none else some (bs.take n, bs.drop n) := by
  refine ⟨?_, ?_, ?_⟩
  · intro e bs
    simp [Form.Truncated]
  · intro ba hinv v rest hscan
    rw [hinv.readable_length] at hscan
    split at hscan
    · cases hscan
    · rename_i hlen
      cases hscan
      have hle : n ≤ getReadSize ba := Nat.not_lt.mp hlen
      refine ⟨n, hle, rfl, ?_⟩
      rw [hinv.read_enough hn hle, readable]
      simp [slice, List.take_take, Nat.min_eq_left hle]
  · intro ba hinv hshort
    have hlt : getReadSize ba < n := by
      rw [← hinv.readable_length]
      exact hshort
    rw [read_short hlt]
    simp only [Form.lost, hinv.advance_zero]

theorem readFixed_reads {n : Nat} (hn : 1 ≤ n) : Reads (readFixed n) (.fixed n) (scanFixed n) := by
  refine ⟨?_, ?_, ?_⟩
  · intro e bs
    simp [scanFixed, Form.Truncated]
  · intro ba hinv v rest hscan
    rw [scanFixed] at hscan
    split at hscan
    · cases hscan
    · rename_i hlen
      cases hscan
      obtain ⟨m, hm, hrest, hrun⟩ := (read_reads hn).returns ba hinv ((readable ba).take n) ((readable ba).drop n)
        (if_neg hlen)
      refine ⟨m, hm, hrest, ?_⟩
      rw [readFixed, on_bind_ok _ hrun, on_bind_ok _ (on_get _), on_pure]
      rfl
  · intro ba hinv hshort
    rw [readFixed, on_bind_error _ ((read_reads hn).throws ba hinv hshort)]

/-- One byte. -/
theorem readFuint8_cons {ba : ByteArray} (h : Inv ba) {b : UInt8} {bs : List UInt8} (hbs : readable ba = b :: bs) :
    readFuint8.on ba = (.ok b, advance 1 ba) ∧ Inv (advance 1 ba) ∧ readable (advance 1 ba) = bs := by
  have hle : 1 ≤ getReadSize ba := by
    rw [← h.readable_length, hbs, List.length_cons]
    exact Nat.le_add_left 1 _
  have hone : slice (content ba.nodes) ba.position 1 = [b] := by
    obtain ⟨m, hm⟩ := Nat.exists_eq_add_of_le hle
    rw [readable, hm, slice_add] at hbs
    have hlen : (slice (content ba.nodes) ba.position 1).length = 1 := by
      rw [slice_length]
      have hs := h.size_le
      rw [h.content_len]
      unfold getReadSize at hle
      omega
    have htake := congrArg (List.take 1) hbs
    rw [List.take_append_of_le_length (Nat.le_of_eq hlen.symm), List.take_of_length_le (Nat.le_of_eq hlen)] at htake
    exact htake
  refine ⟨?_, h.advance hle, ?_⟩
  · rw [readFuint8, on_bind_ok _ (h.read_enough (Nat.le_refl 1) hle), on_pure, hone]
    simp [ofLeBytes]
  · rw [h.readable_advance hle, hbs]
    rfl

theorem readFuint8_nil {ba : ByteArray} (h : Inv ba) (hbs : readable ba = []) :
    readFuint8.on ba = (.error (.outOfRange "not enough len"), ba) := by
  have hlt : getReadSize ba < 1 := by
    rw [← h.readable_length, hbs]
    exact Nat.one_pos
  rw [readFuint8, on_bind_error _ (read_short hlt)]

/-- A base-128 number ends at its first byte below 0x80 or with its last byte. -/
theorem scanVarint_eq_none_iff (w : Nat) : ∀ (k i : Nat) (result : BitVec w) (bs : List UInt8),
    scanVarint w k i result bs = none ↔ (Form.varint k).Truncated bs := by
  intro k
  induction k with
  | zero =>
    intro i result bs
    simp [scanVarint, Form.Truncated]
  | succ k ih =>
    intro i result bs
    cases bs with
    | nil => simp [scanVarint, Form.Truncated]
    | cons b bs =>
      by_cases hb : b < 0x80
      · simp [scanVarint, Form.Truncated, hb]
      · have htail := ih (i + 7) (result ||| ((b &&& 0x7f).toBitVec.setWidth w <<< i)) bs
        simp only [Form.Truncated] at htail
        have hge := UInt8.not_lt.mp hb
        rw [scanVarint, if_neg hb, htail]
        simp [Form.Truncated, hge]

theorem readVarint_returns (w : Nat) : ∀ (k i : Nat) (result : BitVec w) (ba : ByteArray), Inv ba →
    ∀ v rest, scanVarint w k i result (readable ba) = some (v, rest) →
      ∃ n ≤ getReadSize ba, rest = (readable ba).drop n ∧
        (readVarint w k i result).on ba = (.ok v, advance n ba) := by
  intro k
  induction k with
  | zero =>
    intro i result ba hinv v rest hscan
    cases hscan
    exact ⟨0, Nat.zero_le _, rfl, by rw [readVarint, on_pure, hinv.advance_zero]⟩
  | succ k ih =>
    intro i result ba hinv v rest hscan
    cases hbs : readable ba with
    | nil =>
      rw [hbs] at hscan
      cases hscan
    | cons b bs =>
      obtain ⟨hrun, hinv', hbs'⟩ := readFuint8_cons hinv hbs
      have hle : 1 ≤ getReadSize ba := by
        rw [← hinv.readable_length, hbs, List.length_cons]
        exact Nat.le_add_left 1 _
      rw [hbs] at hscan
      by_cases hb : b < 0x80
      · simp only [scanVarint, if_pos hb, Option.some.injEq, Prod.mk.injEq] at hscan
        refine ⟨1, hle, hscan.2.symm, ?_⟩
        rw [readVarint, on_bind_ok _ hrun, if_pos hb, on_pure, hscan.1]
      · simp only [scanVarint, if_neg hb] at hscan
        rw [← hbs'] at hscan
        obtain ⟨n, hn, hrest, hrun'⟩ := ih (i + 7) _ (advance 1 ba) hinv' v rest hscan
        rw [readSize_advance] at hn
        refine ⟨1 + n, by omega, ?_, ?_⟩
        · rw [hrest, hbs', Nat.add_comm, List.drop_succ_cons]
        · rw [readVarint, on_bind_ok _ hrun, if_neg hb, hrun', advance_add]

/-- Where the bytes end inside the number, all of them are taken before the loop throws. -/
theorem readVarint_throws (w : Nat) : ∀ (k i : Nat) (result : BitVec w) (ba : ByteArray), Inv ba →
    (Form.varint k).Truncated (readable ba) →
      (readVarint w k i result).on ba =
        (.error (.outOfRange "not enough len"), advance ((Form.varint k).lost (readable ba)) ba) := by
  intro k
  induction k with
  | zero =>
    intro i result ba hinv hshort
    exact absurd hshort.1 (Nat.not_lt_zero _)
  | succ k ih =>
    intro i result ba hinv hshort
    cases hbs : readable ba with
    | nil =>
      rw [readVarint, on_bind_error _ (readFuint8_nil hinv hbs)]
      simp only [Form.lost, List.length_nil, hinv.advance_zero]
    | cons b bs =>
      obtain ⟨hrun, hinv', hbs'⟩ := readFuint8_cons hinv hbs
      rw [hbs] at hshort
      obtain ⟨hlen, hall⟩ := hshort
      obtain ⟨hb, hrest⟩ := List.forall_mem_cons.mp hall
      have htail : (Form.varint k).Truncated (readable (advance 1 ba)) := by
        rw [hbs']
        exact ⟨Nat.lt_of_succ_lt_succ hlen, hrest⟩
      rw [readVarint, on_bind_ok _ hrun, if_neg hb, ih (i + 7) _ (advance 1 ba) hinv' htail, hbs', advance_add]
      simp only [Form.lost, List.length_cons, Nat.add_comm]

/-- The loop of `readUint32` and `readUint64`, along the readable bytes. -/
theorem readVarint_reads (w k i : Nat) (result : BitVec w) :
    Reads (readVarint w k i result) (.varint k) fun _ => scanVarint w k i result where
  truncated _ := scanVarint_eq_none_iff w k i result
  returns := readVarint_returns w k i result
  throws := readVarint_throws w k i result

/-! ## Numbers and lengths -/

theorem numRead_reads (k : NumKind) : ∃ scan, Reads k.read k.form scan := by
  cases k with
  | fint8 => exact ⟨_, ((read_reads (Nat.le_refl 1)).map _).map _⟩
  | fuint8 => exact ⟨_, ((read_reads (Nat.le_refl 1)).map _).map _⟩
  | fint16 => exact ⟨_, ((readFixed_reads (n := 2) (by decide)).map _).map _⟩
  | fuint16 => exact ⟨_, ((readFixed_reads (n := 2) (by decide)).map _).map _⟩
  | fint32 => exact ⟨_, ((readFixed_reads (n := 4) (by decide)).map _).map _⟩
  | fuint32 => exact ⟨_, ((readFixed_reads (n := 4) (by decide)).map _).map _⟩
  | fint64 => exact ⟨_, ((readFixed_reads (n := 8) (by decide)).map _).map _⟩
  | fuint64 => exact ⟨_, ((readFixed_reads (n := 8) (by decide)).map _).map _⟩
  | int32 => exact ⟨_, (((readVarint_reads 32 5 0 0).map _).map _).map _⟩
  | uint32 => exact ⟨_, ((readVarint_reads 32 5 0 0).map _).map _⟩
  | int64 => exact ⟨_, (((readVarint_reads 64 10 0 0).map _).map _).map _⟩
  | uint64 => exact ⟨_, ((readVarint_reads 64 10 0 0).map _).map _⟩
  | float => exact ⟨_, ((readFixed_reads (n := 4) (by decide)).map _).map _⟩
  | double => exact ⟨_, ((readFixed_reads (n := 8) (by decide)).map _).map _⟩

theorem readLength_reads (enc : StrEnc) : Reads (readLength enc) enc.form fun e => scanLength e enc := by
  cases enc with
  | f16 =>
    have h := ((readFixed_reads (n := 2) (by decide)).map UInt16.ofBitVec).map UInt16.toNat
    simp only [Option.map_map, Function.comp_def] at h
    exact h
  | f32 =>
    have h := ((readFixed_reads (n := 4) (by decide)).map UInt32.ofBitVec).map UInt32.toNat
    simp only [Option.map_map, Function.comp_def] at h
    exact h
  | f64 =>
    have h := ((readFixed_reads (n := 8) (by decide)).map UInt64.ofBitVec).map UInt64.toNat
    simp only [Option.map_map, Function.comp_def] at h
    exact h
  | vint =>
    have h := ((readVarint_reads 64 10 0 0).map UInt64.ofBitVec).map UInt64.toNat
    simp only [Option.map_map, Function.comp_def] at h
    exact h

theorem scanFixed_shortens {n : Nat} (hn : 1 ≤ n) {e : Endian} {bs : List UInt8} {p : BitVec (8 * n) × List UInt8}
    (h : scanFixed n e bs = some p) : p.2.length < bs.length := by
  rw [scanFixed] at h
  split at h
  · cases h
  · cases h
    rw [List.length_drop]
    omega

theorem scanVarint_shortens {w : Nat} : ∀ (k i : Nat) (result : BitVec w) (bs : List UInt8)
    (p : BitVec w × List UInt8), scanVarint w (k + 1) i result bs = some p → p.2.length < bs.length := by
  intro k
  induction k with
  | zero =>
    intro i result bs p h
    cases bs with
    | nil => cases h
    | cons b bs =>
      rw [scanVarint] at h
      split at h <;> cases h <;> exact Nat.lt_succ_self _
  | succ k ih =>
    intro i result bs p h
    cases bs with
    | nil => cases h
    | cons b bs =>
      rw [scanVarint] at h
      split at h
      · cases h
        exact Nat.lt_succ_self _
      · exact Nat.lt_succ_of_lt (ih _ _ bs p h)

/-- A length takes at least one byte. -/
theorem scanLength_shortens {e : Endian} {enc : StrEnc} {bs rest : List UInt8} {len : Nat}
    (h : scanLength e enc bs = some (len, rest)) : rest.length < bs.length := by
  cases enc with
  | f16 =>
    obtain ⟨p, hp, heq⟩ := Option.map_eq_some_iff.mp h
    cases heq
    exact scanFixed_shortens (by decide) hp
  | f32 =>
    obtain ⟨p, hp, heq⟩ := Option.map_eq_some_iff.mp h
    cases heq
    exact scanFixed_shortens (by decide) hp
  | f64 =>
    obtain ⟨p, hp, heq⟩ := Option.map_eq_some_iff.mp h
    cases heq
    exact scanFixed_shortens (by decide) hp
  | vint =>
    obtain ⟨p, hp, heq⟩ := Option.map_eq_some_iff.mp h
    cases heq
    exact scanVarint_shortens 9 0 0 bs p hp

/-- A string: its length could not be read, or there are not that many bytes behind it, or the bytes behind it
are read. -/
theorem readString_cases {ba : ByteArray} (h : Inv ba) (enc : StrEnc) :
    (enc.form.Truncated (readable ba) ∧ scanLength ba.endian enc (readable ba) = none ∧
      (readString enc).on ba =
        (.error (.outOfRange "not enough len"), advance (enc.form.lost (readable ba)) ba)) ∨
    ∃ len rest n, scanLength ba.endian enc (readable ba) = some (len, rest) ∧ n ≤ getReadSize ba ∧
      rest = (readable ba).drop n ∧ ¬ enc.form.Truncated (readable ba) ∧
      (readString enc).on ba = (read len).on (advance n ba) := by
  have hlen := readLength_reads enc
  cases hscan : scanLength ba.endian enc (readable ba) with
  | none =>
    have hshort := (hlen.truncated ba.endian (readable ba)).mp hscan
    refine Or.inl ⟨hshort, rfl, ?_⟩
    rw [readString, on_bind_error _ (hlen.throws ba h hshort)]
  | some p =>
    obtain ⟨len, rest⟩ := p
    obtain ⟨n, hn, hrest, hrun⟩ := hlen.returns ba h len rest hscan
    refine Or.inr ⟨len, rest, n, rfl, hn, hrest, ?_, ?_⟩
    · intro hshort
      have hnone := (hlen.truncated ba.endian (readable ba)).mpr hshort
      simp only [hscan] at hnone
      cases hnone
    · rw [readString, on_bind_ok _ hrun]

end Sylar.ByteArray
