import Mathlib.Data.List.Basic
import Sylar.ByteArray.Reader
import Sylar.ByteArray.Strings

/- Which calls read a field of a null node, and which calls that throw have taken bytes.

   At full capacity there is no current block, and `read` looks at it before it looks
   whether there is anything to read. So a read of nothing there is the one fault of the
   sequential operations, made by the caller or by a string read whose length is 0 and is
   the last thing in the last block (`calls_safe_iff`).

   A read of a fixed width looks at the length first and takes nothing when it throws. The
   others are made of several reads: a base-128 number that ends too early has taken the
   bytes there were, and a string whose bytes are not all there has taken its length
   (`atomic_iff`). -/
namespace Sylar.ByteArray
open Sylar.Lib

/-! ## Faults -/

theorem not_faults_ok {α : Type} (a : α) : ¬ Faults (.ok a : Except Err α) := by
  intro ⟨e, he, _⟩
  cases he

theorem not_faults_outOfRange {α : Type} (what : String) :
    ¬ Faults (.error (.outOfRange what) : Except Err α) := by
  intro ⟨e, he, hf⟩
  cases he
  exact hf

/-- The member function returns or throws. -/
def Safe {α : Type} (x : M α) : Prop := ∀ ba, Inv ba → ¬ Faults (x.on ba).1

namespace Safe
variable {α β : Type}

theorem pure' (a : α) : Safe (pure a : M α) := fun _ _ => not_faults_ok a

theorem of_ok {x : M α} (hx : ∀ ba, Inv ba → ∃ a ba', x.on ba = (.ok a, ba')) : Safe x := by
  intro ba h
  obtain ⟨a, ba', hrun⟩ := hx ba h
  rw [hrun]
  exact not_faults_ok a

theorem bind {x : M α} {f : α → M β} (hk : Keeps x) (hx : Safe x) (hf : ∀ a, Safe (f a)) : Safe (x >>= f) := by
  intro ba h
  have hinv := (hk ba h).resolve_left (hx ba h)
  have hnot := hx ba h
  rw [on_bind]
  cases hr : x.on ba with
  | mk r s =>
    rw [hr] at hinv hnot
    cases r with
    | ok a => exact hf a s hinv.1
    | error e =>
      intro ⟨e', he, hfault⟩
      cases he
      exact hnot ⟨e, rfl, hfault⟩

end Safe

/-- A call whose result is dropped. -/
theorem on_discard {α : Type} (x : M α) (ba : ByteArray) :
    (discard x : M Unit).on ba = ((x.on ba).1.map fun _ => (), (x.on ba).2) := by
  show (x >>= fun _ => pure ()).on ba = _
  rw [on_bind]
  cases x.on ba with
  | mk r s =>
    cases r with
    | ok a => rfl
    | error e => rfl

theorem faults_discard {α : Type} (x : M α) (ba : ByteArray) :
    Faults ((discard x : M Unit).on ba).1 ↔ Faults (x.on ba).1 := by
  rw [on_discard]
  cases (x.on ba).1 with
  | ok a => simp [Except.map, not_faults_ok]
  | error e => simp [Except.map, Faults]

section
variable (heap : Nat → Nat → UInt8)

theorem write_safe (buf : List UInt8) : Safe (write heap buf) := by
  apply Safe.of_ok
  intro ba h
  obtain ⟨ba', hrun, -⟩ := write_spec heap h buf
  exact ⟨(), ba', hrun⟩

theorem numWrite_safe (v : NumVal) : Safe (v.write heap) := by
  intro ba h
  rw [numWrite_eq]
  exact write_safe heap _ ba h

theorem writeString_safe (enc : StrEnc) (value : List UInt8) : Safe (writeString heap enc value) := by
  intro ba h
  have hlen : (writeString heap enc value).on ba =
      (do write heap (lengthBytes ba.endian value.length enc); write heap value : M Unit).on ba := by
    rw [writeString, on_bind, on_bind, writeLength_eq]
  rw [hlen]
  exact Safe.bind (write_keeps heap _) (write_safe heap _) (fun _ => write_safe heap _) ba h

theorem writeBlocks_safe : ∀ blocks : List (List UInt8), Safe (writeBlocks heap blocks) := by
  intro blocks
  induction blocks with
  | nil => exact Safe.pure' ()
  | cons block rest ih => exact Safe.bind (write_keeps heap block) (write_safe heap block) fun _ => ih

theorem readFromFile_safe (file : Option (List UInt8)) : Safe (readFromFile heap file) := by
  cases file with
  | none => exact Safe.pure' false
  | some bytes =>
    have hget : Safe (get : M ByteArray) := Safe.of_ok fun ba _ => ⟨ba, ba, rfl⟩
    apply Safe.bind Keeps.get' hget
    intro ba
    exact Safe.bind (writeBlocks_keeps heap _) (writeBlocks_safe heap _) fun _ => Safe.pure' true

end

section
variable {ba : ByteArray}

theorem read_faults_iff (h : Inv ba) (n : Nat) :
    Faults ((read n).on ba).1 ↔ n = 0 ∧ ba.position = ba.capacity := by
  by_cases hn : n = 0
  · subst hn
    rw [read_zero, ← h.cur_none_iff]
    by_cases hcur : ba.cur = none
    · simp [hcur, Faults, Err.Fault]
    · simp [hcur, not_faults_ok]
  · have hnot : ¬ Faults ((read n).on ba).1 := by
      by_cases hle : n ≤ getReadSize ba
      · rw [h.read_enough (Nat.one_le_iff_ne_zero.mpr hn) hle]
        exact not_faults_ok _
      · rw [read_short (Nat.not_le.mp hle)]
        exact not_faults_outOfRange _
    simp [hn, hnot]

theorem numRead_safe (k : NumKind) : Safe k.read := by
  obtain ⟨scan, hreads⟩ := numRead_reads k
  intro ba h
  cases hscan : scan ba.endian (readable ba) with
  | none =>
    rw [hreads.throws ba h ((hreads.truncated _ _).mp hscan)]
    exact not_faults_outOfRange _
  | some p =>
    obtain ⟨n, -, -, hrun⟩ := hreads.returns ba h p.1 p.2 hscan
    rw [hrun]
    exact not_faults_ok _

/-- A string read faults when its length is 0 and ends the data at full capacity. -/
theorem readString_faults_iff (h : Inv ba) (enc : StrEnc) :
    Faults ((readString enc).on ba).1 ↔
      scanLength ba.endian enc (readable ba) = some (0, []) ∧ ba.size = ba.capacity := by
  have hp := h.position_le
  have hs := h.size_le
  rcases readString_cases h enc with ⟨-, hscan, hrun⟩ | ⟨len, rest, n, hscan, hn, hrest, -, hrun⟩
  · rw [hrun, hscan]
    simp [not_faults_outOfRange]
  · rw [hrun, read_faults_iff (h.advance hn), hscan]
    have hlen : rest.length = getReadSize ba - n := by rw [hrest, List.length_drop, h.readable_length]
    have hrs : getReadSize ba = ba.size - ba.position := rfl
    have hend : (advance n ba).position = (advance n ba).capacity ↔ rest = [] ∧ ba.size = ba.capacity := by
      show ba.position + n = ba.capacity ↔ _
      rw [← List.length_eq_zero_iff]
      omega
    rw [hend]
    simp [and_assoc]

end

/-- The call reads nothing where the data ends at full capacity. -/
def Op.ReadsAtEnd (ba : ByteArray) : Op → Prop
  | .read n => n = 0 ∧ ba.position = ba.capacity
  | .readString enc => scanLength ba.endian enc (readable ba) = some (0, []) ∧ ba.size = ba.capacity
  | _ => False

theorem call_faults_iff (heap : Nat → Nat → UInt8) {ba : ByteArray} (h : Inv ba) (op : Op) :
    Faults ((op.call heap).on ba).1 ↔ op.ReadsAtEnd ba := by
  have safe : ∀ {α : Type} {x : M α}, Safe x → (Faults (x.on ba).1 ↔ False) :=
    fun hx => iff_false_intro (hx ba h)
  cases op with
  | write buf => exact safe (write_safe heap buf)
  | read n => exact (faults_discard _ ba).trans (read_faults_iff h n)
  | setPosition v =>
    refine safe fun ba h => ?_
    obtain ⟨ba', hrun, -⟩ := setPosition_spec h v
    rw [Op.call, hrun, Flat.setPosition]
    split
    · exact not_faults_outOfRange _
    · exact not_faults_ok _
  | clear =>
    refine safe (Safe.of_ok fun ba h => ?_)
    obtain ⟨ba', hrun, -⟩ := clear_spec h
    exact ⟨(), ba', hrun⟩
  | toString =>
    exact (faults_discard _ ba).trans (safe (Safe.of_ok fun ba h => ⟨_, ba, toString_spec h⟩))
  | getReadBuffers len =>
    refine (faults_discard _ ba).trans (safe (Safe.of_ok fun ba h => ?_))
    obtain ⟨iovs, hrun, -⟩ := getReadBuffers_spec h len
    exact ⟨_, ba, hrun⟩
  | getWriteBuffers len =>
    refine (faults_discard _ ba).trans (safe (Safe.of_ok fun ba h => ?_))
    obtain ⟨ba', iovs, hrun, -⟩ := getWriteBuffers_spec heap h len
    exact ⟨_, ba', hrun⟩
  | readFromFile file => exact (faults_discard _ ba).trans (safe (readFromFile_safe heap file))
  | setIsLittleEndian val => exact safe (Safe.of_ok fun ba _ => ⟨(), _, rfl⟩)
  | writeNum v => exact safe (numWrite_safe heap v)
  | readNum k => exact (faults_discard _ ba).trans (safe (numRead_safe k))
  | writeString enc value => exact safe (writeString_safe heap enc value)
  | readString enc => exact (faults_discard _ ba).trans (readString_faults_iff h enc)

/-- **Sequential operations are safe**: in every reachable state, a call returns or throws, touching no null node
and no byte outside a block, exactly when it does not read nothing where the data ends at full capacity. -/
theorem calls_safe_iff (heap : Nat → Nat → UInt8) (base : Nat) (hb : 1 ≤ base) (ba : ByteArray)
    (r : Reachable heap base ba) (op : Op) :
    ¬ Faults ((op.call heap).on ba).1 ↔ ¬ op.ReadsAtEnd ba :=
  not_congr (call_faults_iff heap (r.inv hb).1 op)

theorem Reachable.of_ok {heap : Nat → Nat → UInt8} {base : Nat} {ba : ByteArray} (r : Reachable heap base ba)
    (op : Op) (hok : ((op.call heap).on ba).1 = .ok ()) : Reachable heap base ((op.call heap).on ba).2 := by
  apply r.call op
  rw [hok]
  exact not_faults_ok ()

/-- Blocks of two bytes with `bs` in them, from the start. -/
def holding (bs : List UInt8) : ByteArray :=
  (((Op.setPosition 0).call fun _ _ => 0).on (((Op.write bs).call fun _ _ => 0).on (new (fun _ _ => 0) 2)).2).2

theorem reachable_holding (bs : List UInt8)
    (hset : (((Op.setPosition 0).call fun _ _ => 0).on
      (((Op.write bs).call fun _ _ => 0).on (new (fun _ _ => 0) 2)).2).1 = .ok ()) :
    Reachable (fun _ _ => 0) 2 (holding bs) := by
  have hinv : Inv (new (fun _ _ => 0) 2) := inv_new (by decide)
  obtain ⟨ba', hrun, -⟩ := write_spec (fun _ _ => 0) hinv bs
  have hwrite : (((Op.write bs).call fun _ _ => 0).on (new (fun _ _ => 0) 2)).1 = .ok () := congrArg Prod.fst hrun
  exact (Reachable.new.of_ok (.write bs) hwrite).of_ok (.setPosition 0) hset

/-- Four of five bytes are read, over the ends of two blocks. -/
theorem calls_safe_filled : (((Op.read 4).call fun _ _ => 0).on (holding [1, 2, 3, 4, 5])).2.position = 4 ∧
    ¬ Faults (((Op.read 4).call fun _ _ => 0).on (holding [1, 2, 3, 4, 5])).1 := by
  have hfilled := reachable_holding [1, 2, 3, 4, 5] rfl
  refine ⟨by rfl, (calls_safe_iff (fun _ _ => 0) 2 (by decide) _ hfilled (.read 4)).mpr ?_⟩
  intro hend
  exact absurd hend.1 (by decide)

/-- One block of two bytes, filled by the length of an empty string. -/
def fullBlock : ByteArray := (((Op.writeString .f16 []).call fun _ _ => 0).on (new (fun _ _ => 0) 2)).2

theorem reachable_fullBlock : Reachable (fun _ _ => 0) 2 fullBlock := Reachable.new.of_ok _ (by rfl)

/-- A read of nothing at the end of the full block, and the read of the empty string from its start. -/
theorem calls_fault_at_end :
    Reachable (fun _ _ => 0) 2 fullBlock ∧ ((read 0).on fullBlock).1 = .error .nullNode ∧
      ∃ ba, (setPosition 0).on fullBlock = (.ok (), ba) ∧ Reachable (fun _ _ => 0) 2 ba ∧
        (readStringF16.on ba).1 = .error .nullNode := by
  refine ⟨reachable_fullBlock, by rfl, _, by rfl, ?_, by rfl⟩
  exact reachable_fullBlock.of_ok (.setPosition 0) (by rfl)

/-! ## Throws -/

/-- The typed reads. -/
inductive TypedRead where
  | num (k : NumKind)
  | str (enc : StrEnc)
  deriving DecidableEq, Repr

def TypedRead.call : TypedRead → M Unit
  | .num k => discard k.read
  | .str enc => discard (readString enc)

/-- When the call throws `std::out_of_range`, it leaves the object as it was. -/
def Atomic (x : M Unit) (ba : ByteArray) : Prop :=
  ∀ what ba', x.on ba = (.error (.outOfRange what), ba') → ba' = ba

/-- The number is a word; or there is no byte of it, or all of it. -/
def Form.Whole : Form → List UInt8 → Prop
  | .fixed _, _ => True
  | .varint k, bs => bs = [] ∨ k ≤ bs.length ∨ ∃ b ∈ bs, b < 0x80

/-- The number, or the length of the string, does not end too early inside a base-128 number; and a string
whose length is there is there. -/
def TypedRead.Whole (ba : ByteArray) : TypedRead → Prop
  | .num k => k.form.Whole (readable ba)
  | .str enc => enc.form.Whole (readable ba) ∧
      ∀ len rest, scanLength ba.endian enc (readable ba) = some (len, rest) → len ≤ rest.length

theorem Form.whole_iff (form : Form) (bs : List UInt8) :
    form.Whole bs ↔ (form.Truncated bs → form.lost bs = 0) := by
  cases form with
  | fixed n => simp [Form.Whole, Form.lost]
  | varint k =>
    simp only [Form.Whole, Form.Truncated, Form.lost, List.length_eq_zero_iff]
    constructor
    · intro h htruncated
      obtain ⟨hlen, hall⟩ := htruncated
      rcases h with hnil | hle | ⟨b, hb, hlt⟩
      · exact hnil
      · omega
      · exact absurd hlt (hall b hb)
    · intro h
      by_cases hle : k ≤ bs.length
      · exact Or.inr (Or.inl hle)
      · by_cases hall : ∀ b ∈ bs, ¬ b < 0x80
        · exact Or.inl (h ⟨Nat.not_le.mp hle, hall⟩)
        · simp only [not_forall, not_not] at hall
          obtain ⟨b, hb, hlt⟩ := hall
          exact Or.inr (Or.inr ⟨b, hb, hlt⟩)

section
variable {ba : ByteArray} {α : Type} {x : M α}

/-- A call that throws. -/
theorem atomic_error {what : String} {ba' : ByteArray} (hrun : x.on ba = (.error (.outOfRange what), ba')) :
    Atomic (discard x) ba ↔ ba' = ba := by
  have hd : (discard x : M Unit).on ba = (.error (.outOfRange what), ba') := by
    rw [on_discard, hrun]
    rfl
  constructor
  · intro h
    exact h what ba' hd
  · intro heq what' ba'' hrun'
    rw [hd] at hrun'
    cases hrun'
    exact heq

/-- A call that does not. -/
theorem atomic_of_not_throw (hnot : ∀ what ba', x.on ba ≠ (.error (.outOfRange what), ba')) :
    Atomic (discard x) ba := by
  intro what ba' hrun
  rw [on_discard] at hrun
  exfalso
  cases hx : x.on ba with
  | mk r s =>
    rw [hx] at hrun
    cases r with
    | ok a => cases hrun
    | error e =>
      cases hrun
      exact hnot what s hx

theorem atomic_num (h : Inv ba) (k : NumKind) :
    Atomic (TypedRead.num k).call ba ↔ (TypedRead.num k).Whole ba := by
  obtain ⟨scan, hreads⟩ := numRead_reads k
  simp only [TypedRead.call, TypedRead.Whole, Form.whole_iff]
  by_cases hshort : k.form.Truncated (readable ba)
  · rw [atomic_error (hreads.throws ba h hshort), h.advance_eq_self_iff]
    simp [hshort]
  · refine iff_of_true (atomic_of_not_throw ?_) (fun hs => absurd hs hshort)
    intro what ba' hrun
    cases hscan : scan ba.endian (readable ba) with
    | none => exact hshort ((hreads.truncated _ _).mp hscan)
    | some p =>
      obtain ⟨n, -, -, hok⟩ := hreads.returns ba h p.1 p.2 hscan
      rw [hok] at hrun
      cases hrun

theorem atomic_str (h : Inv ba) (enc : StrEnc) :
    Atomic (TypedRead.str enc).call ba ↔ (TypedRead.str enc).Whole ba := by
  simp only [TypedRead.call, TypedRead.Whole, Form.whole_iff]
  rcases readString_cases h enc with ⟨hshort, hscan, hrun⟩ | ⟨len, rest, n, hscan, hn, hrest, hshort, hrun⟩
  · rw [atomic_error hrun, h.advance_eq_self_iff, hscan]
    simp [hshort]
  · have hrs : rest.length = getReadSize (advance n ba) := by
      rw [hrest, List.length_drop, h.readable_length, readSize_advance]
    have hwhole : ((∀ l r, scanLength ba.endian enc (readable ba) = some (l, r) → l ≤ r.length) ↔
        len ≤ rest.length) := by
      rw [hscan]
      constructor
      · intro hall
        exact hall len rest rfl
      · intro hle l r heq
        cases heq
        exact hle
    rw [hwhole]
    by_cases hle : len ≤ rest.length
    · -- the bytes are there: the read returns, or faults on the null block
      refine iff_of_true (atomic_of_not_throw ?_) ⟨fun hs => absurd hs hshort, hle⟩
      intro what ba' hthrow
      rw [hrun] at hthrow
      by_cases hlen : len = 0
      · subst hlen
        rw [read_zero] at hthrow
        have hfst := congrArg Prod.fst hthrow
        simp only at hfst
        split at hfst <;> cases hfst
      · rw [(h.advance hn).read_enough (Nat.one_le_iff_ne_zero.mpr hlen) (by omega)] at hthrow
        cases hthrow
    · -- the length is taken, at least one byte
      have hgone : n ≠ 0 := by
        intro hz
        have hlt := scanLength_shortens hscan
        rw [hrest, hz, List.drop_zero] at hlt
        omega
      rw [read_short (by omega)] at hrun
      rw [atomic_error hrun, h.advance_eq_self_iff]
      exact iff_of_false hgone fun hw => hle hw.2

end

/-- **When a failed read is atomic**: in every reachable state, a typed read that throws leaves the object as it was
exactly when no base-128 number ends too early behind its first byte and no string behind its length. -/
theorem atomic_iff (heap : Nat → Nat → UInt8) (base : Nat) (hb : 1 ≤ base) (ba : ByteArray)
    (r : Reachable heap base ba) (t : TypedRead) : Atomic t.call ba ↔ t.Whole ba := by
  have h := (r.inv hb).1
  cases t with
  | num k => exact atomic_num h k
  | str enc => exact atomic_str h enc

/-- Of a word of eight bytes five are there, in three blocks. -/
theorem atomic_word : (readFuint64.on (holding [1, 2, 3, 4, 5])).1 = .error (.outOfRange "not enough len") ∧
    Atomic (TypedRead.num .fuint64).call (holding [1, 2, 3, 4, 5]) := by
  have hfilled := reachable_holding [1, 2, 3, 4, 5] rfl
  exact ⟨by rfl, (atomic_iff (fun _ _ => 0) 2 (by decide) _ hfilled (.num .fuint64)).mpr trivial⟩

/-- The first byte of a base-128 number is taken though the number is not all there; and so is the length of a
string of which no byte is there. -/
theorem read_takes_before_throw :
    (Reachable (fun _ _ => 0) 2 (holding [0x80]) ∧ (holding [0x80]).position = 0 ∧
      (readUint32.on (holding [0x80])).1 = .error (.outOfRange "not enough len") ∧
      (readUint32.on (holding [0x80])).2.position = 1 ∧ ¬ Atomic (TypedRead.num .uint32).call (holding [0x80])) ∧
    Reachable (fun _ _ => 0) 2 (holding [0, 5]) ∧ (holding [0, 5]).position = 0 ∧
      (readStringF16.on (holding [0, 5])).1 = .error (.outOfRange "not enough len") ∧
      (readStringF16.on (holding [0, 5])).2.position = 2 ∧
      ¬ Atomic (TypedRead.str .f16).call (holding [0, 5]) := by
  refine ⟨⟨?_, by rfl, by rfl, by rfl, ?_⟩, ?_, by rfl, by rfl, by rfl, ?_⟩
  · exact reachable_holding [0x80] rfl
  · intro hatomic
    have heq := congrArg ByteArray.position (hatomic "not enough len" _ rfl)
    exact absurd heq (by decide)
  · exact reachable_holding [0, 5] rfl
  · intro hatomic
    have heq := congrArg ByteArray.position (hatomic "not enough len" _ rfl)
    exact absurd heq (by decide)

end Sylar.ByteArray
