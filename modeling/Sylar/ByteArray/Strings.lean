import Mathlib.Data.List.Basic
import Sylar.ByteArray.RoundTrip

/- When strings that are written are read back.

   A string is written as its length, narrowed to the type of the prefix, and its
   bytes. The reads return the strings exactly when every length fits its prefix
   and the last string, if it is empty, does not end at full capacity
   (`string_round_trip_iff`): `read` dereferences the current block also for a
   length of 0, and there is none at full capacity. An empty string that is not
   the last one has the prefix of the next one behind it, so it is never there.

   The capacity after the writes is computed from the state before them:
   `Grown` bounds it to less than a block beyond the end of the strings. -/
namespace Sylar.ByteArray
open Sylar.Lib

/-! ## One string -/

/-- The lengths that the type of the length prefix holds. -/
def StrEnc.limit : StrEnc → Nat
  | .f16 => 2 ^ 16
  | .f32 => 2 ^ 32
  | .f64 => 2 ^ 64
  | .vint => 2 ^ 64

/-- The bytes the length `n` takes. -/
def StrEnc.width (n : Nat) : StrEnc → Nat
  | .f16 => 2
  | .f32 => 4
  | .f64 => 8
  | .vint => Nat.log 128 n + 1

/-- What `writeLength` writes for the length `n` in byte order `e`. -/
def lengthBytes (e : Endian) (n : Nat) : StrEnc → List UInt8
  | .f16 => fixedBytes e 2 (UInt16.ofNat n).toBitVec
  | .f32 => fixedBytes e 4 (UInt32.ofNat n).toBitVec
  | .f64 => fixedBytes e 8 (UInt64.ofNat n).toBitVec
  | .vint => varintBytes 10 (UInt64.ofNat n).toNat

theorem uint64_toNat_lt_varint (v : UInt64) : v.toNat < 128 ^ (9 + 1) := by
  have hv := v.toNat_lt
  omega

theorem lengthBytes_pos (e : Endian) (n : Nat) (enc : StrEnc) :
    1 ≤ (lengthBytes e n enc).length := by
  cases enc with
  | f16 => rw [lengthBytes, fixedBytes_length]; decide
  | f32 => rw [lengthBytes, fixedBytes_length]; decide
  | f64 => rw [lengthBytes, fixedBytes_length]; decide
  | vint =>
    rw [lengthBytes, varintBytes_length (uint64_toNat_lt_varint _)]
    exact Nat.le_add_left 1 _

theorem lengthBytes_length (e : Endian) {n : Nat} {enc : StrEnc} (h : n < enc.limit) :
    (lengthBytes e n enc).length = enc.width n := by
  cases enc with
  | f16 => exact fixedBytes_length e 2 _
  | f32 => exact fixedBytes_length e 4 _
  | f64 => exact fixedBytes_length e 8 _
  | vint =>
    have hn : (UInt64.ofNat n).toNat = n := by
      rw [UInt64.toNat_ofNat']; exact Nat.mod_eq_of_lt h
    rw [lengthBytes, varintBytes_length (uint64_toNat_lt_varint _), hn]
    rfl

section
variable {heap : Nat → Nat → UInt8} {ba : ByteArray}

theorem writeLength_eq (n : Nat) (enc : StrEnc) :
    (writeLength heap n enc).on ba = (write heap (lengthBytes ba.endian n enc)).on ba := by
  cases enc with
  | f16 => exact writeFixed_eq 2 _
  | f32 => exact writeFixed_eq 4 _
  | f64 => exact writeFixed_eq 8 _
  | vint => exact writeUint64_eq _

/-- The length comes back modulo what its prefix holds. -/
theorem readLength_ahead {n : Nat} {enc : StrEnc} {ys : List UInt8}
    (h : Ahead ba (lengthBytes ba.endian n enc ++ ys)) :
    ∃ ba', (readLength enc).on ba = (.ok (n % enc.limit), ba') ∧ Ahead ba' ys ∧
      Moved ba (lengthBytes ba.endian n enc).length ba' := by
  cases enc with
  | f16 =>
    obtain ⟨ba', hrun, ha, hm⟩ := readFixed_ahead (n := 2) (by decide) h
    have hread : readFuint16.on ba = (.ok (UInt16.ofNat n), ba') := on_map hrun
    refine ⟨ba', ?_, ha, by rw [lengthBytes, fixedBytes_length]; exact hm⟩
    rw [readLength, on_map hread, UInt16.toNat_ofNat']
    rfl
  | f32 =>
    obtain ⟨ba', hrun, ha, hm⟩ := readFixed_ahead (n := 4) (by decide) h
    have hread : readFuint32.on ba = (.ok (UInt32.ofNat n), ba') := on_map hrun
    refine ⟨ba', ?_, ha, by rw [lengthBytes, fixedBytes_length]; exact hm⟩
    rw [readLength, on_map hread, UInt32.toNat_ofNat']
    rfl
  | f64 =>
    obtain ⟨ba', hrun, ha, hm⟩ := readFixed_ahead (n := 8) (by decide) h
    have hread : readFuint64.on ba = (.ok (UInt64.ofNat n), ba') := on_map hrun
    refine ⟨ba', ?_, ha, by rw [lengthBytes, fixedBytes_length]; exact hm⟩
    rw [readLength, on_map hread, UInt64.toNat_ofNat']
    rfl
  | vint =>
    obtain ⟨ba', hrun, ha, hm⟩ := readUint64_ahead h
    refine ⟨ba', ?_, ha, hm⟩
    rw [readLength, on_map hrun, UInt64.toNat_ofNat']
    rfl

/-- A read that returns, returns as many bytes as it was asked for. -/
theorem read_length {n : Nat} {xs : List UInt8} {ba' : ByteArray} (h : Inv ba)
    (hrun : (read n).on ba = (.ok xs, ba')) : xs.length = n := by
  by_cases hn : n = 0
  · subst hn
    rw [read_zero] at hrun
    split at hrun
    · cases hrun
    · cases hrun; rfl
  · obtain ⟨s, hs, -⟩ := read_spec h (n := n) (by omega)
    rw [hs, Flat.read] at hrun
    split at hrun
    · cases hrun
    · rename_i hle
      cases hrun
      have hsz := h.size_le
      have hpos := h.position_le
      rw [slice_length (by rw [show (abs ba).bytes = content ba.nodes from rfl, h.content_len];
                           simp only [Flat.readSize, abs] at hle ⊢; omega)]

/-- What `writeString` writes. -/
def stringBytes (e : Endian) (enc : StrEnc) (value : List UInt8) : List UInt8 :=
  lengthBytes e value.length enc ++ value

theorem writeString_behind (heap : Nat → Nat → UInt8) {p : Nat} {bs : List UInt8}
    (h : Behind ba p bs) (enc : StrEnc) (value : List UInt8) :
    ∃ ba', (writeString heap enc value).on ba = (.ok (), ba') ∧
      Behind ba' p (bs ++ stringBytes ba.endian enc value) ∧ Grown ba ba' := by
  obtain ⟨ba₁, hrun₁, h₁, hg₁⟩ := write_behind heap h
    (lengthBytes ba.endian value.length enc)
  obtain ⟨ba₂, hrun₂, h₂, hg₂⟩ := write_behind heap h₁ value
  refine ⟨ba₂, ?_, by rw [stringBytes, ← List.append_assoc]; exact h₂, hg₁.trans hg₂⟩
  rw [writeString, on_bind_ok _ ((writeLength_eq _ enc).trans hrun₁), hrun₂]

/-- A length that does not fit comes back smaller, and so does the string. -/
theorem readString_short {enc : StrEnc} {value ys : List UInt8}
    (h : Ahead ba (stringBytes ba.endian enc value ++ ys)) (hlong : ¬ value.length < enc.limit) :
    ((readString enc).on ba).1 ≠ .ok value := by
  rw [stringBytes, List.append_assoc] at h
  obtain ⟨ba₁, hrun₁, h₁, -⟩ := readLength_ahead h
  have hlim : 0 < enc.limit := by cases enc <;> decide
  intro hok
  rw [readString, on_bind_ok _ hrun₁] at hok
  have hlen := read_length h₁.inv (Prod.ext hok rfl)
  have hlt := Nat.mod_lt value.length hlim
  omega

/-- A length that fits comes back, and the string with it, unless it is empty and the
position behind the prefix is at full capacity. -/
theorem readString_ahead {enc : StrEnc} {value ys : List UInt8}
    (h : Ahead ba (stringBytes ba.endian enc value ++ ys)) (hfit : value.length < enc.limit) :
    ∃ ba', Ahead ba' ys ∧ Moved ba (stringBytes ba.endian enc value).length ba' ∧
      (readString enc).on ba =
        (if value = [] ∧ ba'.position = ba'.capacity then .error .nullNode else .ok value, ba') := by
  rw [stringBytes, List.append_assoc] at h
  obtain ⟨ba₁, hrun₁, h₁, hm₁⟩ := readLength_ahead h
  rw [Nat.mod_eq_of_lt hfit] at hrun₁
  rw [stringBytes, List.length_append]
  cases value with
  | nil =>
    refine ⟨ba₁, h₁, hm₁, ?_⟩
    have hcur : (ba₁.cur = none) ↔ ba₁.position = ba₁.capacity := h₁.inv.cur_none_iff
    rw [readString, on_bind_ok _ hrun₁, List.length_nil, read_zero]
    simp only [hcur, true_and]
  | cons b bs =>
    obtain ⟨ba₂, hrun₂, h₂, hm₂⟩ := read_ahead _ h₁ (Nat.le_add_left 1 bs.length)
    refine ⟨ba₂, h₂, hm₁.trans hm₂, ?_⟩
    rw [readString, on_bind_ok _ hrun₁, hrun₂, if_neg (fun hnil => by cases hnil.1)]

end

/-! ## Lists of strings -/

def writeStrings (heap : Nat → Nat → UInt8) : List (StrEnc × List UInt8) → M Unit
  | [] => pure ()
  | (enc, value) :: rest => do
    writeString heap enc value
    writeStrings heap rest

def readStrings : List StrEnc → M (List (List UInt8))
  | [] => pure []
  | enc :: rest => do
    let value ← readString enc
    let values ← readStrings rest
    return value :: values

/-- What the writes of a list of strings put into the buffer. -/
def stringsBytes (e : Endian) : List (StrEnc × List UInt8) → List UInt8
  | [] => []
  | (enc, value) :: rest => stringBytes e enc value ++ stringsBytes e rest

/-- The length of every string fits its prefix. -/
def LengthsFit (ws : List (StrEnc × List UInt8)) : Prop := ∀ w ∈ ws, w.2.length < w.1.limit

/-- There is a last string and it is empty. -/
def LastEmpty (ws : List (StrEnc × List UInt8)) : Prop := ∃ w, ws.getLast? = some w ∧ w.2 = []

/-- The bytes a list of strings takes whose lengths fit. -/
def encodedLength (ws : List (StrEnc × List UInt8)) : Nat :=
  (ws.map fun w => w.1.width w.2.length + w.2.length).sum

/-- The strings end at a block boundary that the chain does not reach beyond. -/
def EndsFull (ba : ByteArray) (ws : List (StrEnc × List UInt8)) : Prop :=
  ba.capacity ≤ ba.position + encodedLength ws ∧ ba.baseSize ∣ ba.position + encodedLength ws

theorem stringsBytes_length (e : Endian) : ∀ ws : List (StrEnc × List UInt8), LengthsFit ws →
    (stringsBytes e ws).length = encodedLength ws := by
  intro ws
  induction ws with
  | nil => intro _; rfl
  | cons w rest ih =>
    obtain ⟨enc, value⟩ := w
    intro hfit
    have hhead : value.length < enc.limit := hfit (enc, value) List.mem_cons_self
    have htail := ih fun w hw => hfit w (List.mem_cons_of_mem _ hw)
    rw [stringsBytes, List.length_append, htail, stringBytes, List.length_append,
      lengthBytes_length e hhead]
    rfl

theorem stringsBytes_eq_nil {e : Endian} {ws : List (StrEnc × List UInt8)} :
    stringsBytes e ws = [] → ws = [] := by
  cases ws with
  | nil => intro _; rfl
  | cons w rest =>
    obtain ⟨enc, value⟩ := w
    intro h
    have hlen := congrArg List.length h
    have hpos := lengthBytes_pos e value.length enc
    rw [stringsBytes, stringBytes, List.length_append, List.length_append, List.length_nil] at hlen
    omega

section
variable (heap : Nat → Nat → UInt8)

theorem writeStrings_behind : ∀ (ws : List (StrEnc × List UInt8)) (ba : ByteArray) (p : Nat)
    (bs : List UInt8), Behind ba p bs →
    ∃ ba', (writeStrings heap ws).on ba = (.ok (), ba') ∧
      Behind ba' p (bs ++ stringsBytes ba.endian ws) ∧ Grown ba ba' := by
  intro ws
  induction ws with
  | nil =>
    intro ba p bs h
    exact ⟨ba, rfl, by rw [stringsBytes, List.append_nil]; exact h, Grown.refl ba⟩
  | cons w rest ih =>
    obtain ⟨enc, value⟩ := w
    intro ba p bs h
    obtain ⟨ba₁, hrun₁, h₁, hg₁⟩ := writeString_behind heap h enc value
    obtain ⟨ba₂, hrun₂, h₂, hg₂⟩ := ih ba₁ p _ h₁
    rw [hg₁.endian_eq] at h₂
    refine ⟨ba₂, ?_, by rw [stringsBytes, ← List.append_assoc]; exact h₂, hg₁.trans hg₂⟩
    rw [writeStrings, on_bind_ok _ hrun₁, hrun₂]

end

/-- The reads return a list exactly when the first returns its head and the others its tail. -/
theorem readStrings_cons {ba : ByteArray} {enc : StrEnc} {encs : List StrEnc}
    {value : List UInt8} {values : List (List UInt8)} :
    ((readStrings (enc :: encs)).on ba).1 = .ok (value :: values) ↔
      ((readString enc).on ba).1 = .ok value ∧
        ((readStrings encs).on ((readString enc).on ba).2).1 = .ok values := by
  rw [readStrings, on_bind]
  rcases (readString enc).on ba with ⟨e | v, s⟩
  · simp
  · simp only [on_bind]
    rcases (readStrings encs).on s with ⟨e | vs, s'⟩
    · simp
    · simp [on_pure]

theorem lengthsFit_cons {w : StrEnc × List UInt8} {rest : List (StrEnc × List UInt8)} :
    LengthsFit (w :: rest) ↔ w.2.length < w.1.limit ∧ LengthsFit rest :=
  List.forall_mem_cons

theorem not_lastEmpty_nil : ¬ LastEmpty [] := by
  intro h
  obtain ⟨w, hw, -⟩ := h
  cases hw

theorem lastEmpty_singleton {w : StrEnc × List UInt8} : LastEmpty [w] ↔ w.2 = [] := by
  simp [LastEmpty]

/-- The reads return the strings exactly when the lengths fit and no empty string ends the
list at full capacity. -/
theorem readStrings_iff : ∀ (ws : List (StrEnc × List UInt8)) (ba : ByteArray),
    Ahead ba (stringsBytes ba.endian ws) →
    (((readStrings (ws.map Prod.fst)).on ba).1 = .ok (ws.map Prod.snd) ↔
      LengthsFit ws ∧ ¬ (LastEmpty ws ∧
        ba.position + (stringsBytes ba.endian ws).length = ba.capacity)) := by
  intro ws
  induction ws with
  | nil =>
    intro ba _
    have hfit : LengthsFit [] := by
      intro w hw
      cases hw
    exact ⟨fun _ => ⟨hfit, fun h => not_lastEmpty_nil h.1⟩, fun _ => rfl⟩
  | cons w rest ih =>
    obtain ⟨enc, value⟩ := w
    intro ba h
    rw [List.map_cons, List.map_cons, readStrings_cons, lengthsFit_cons]
    by_cases hfit : value.length < enc.limit
    · obtain ⟨ba₁, h₁, hm, hrun⟩ := readString_ahead h hfit
      have hend : ba.position + (stringsBytes ba.endian ((enc, value) :: rest)).length =
          ba₁.position + (stringsBytes ba₁.endian rest).length := by
        rw [hm.position_eq, hm.endian_eq, stringsBytes, List.length_append, Nat.add_assoc]
      rw [hend, ← hm.capacity_eq, hrun]
      rw [← hm.endian_eq] at h₁
      by_cases hnull : value = [] ∧ ba₁.position = ba₁.capacity
      · -- nothing can follow: what follows would take bytes beyond the capacity
        have hroom := h₁.room
        have hsz := h₁.inv.size_le
        have hrest : rest = [] := by
          apply stringsBytes_eq_nil (e := ba₁.endian)
          rw [← List.length_eq_zero_iff]
          omega
        subst hrest
        rw [if_pos hnull, lastEmpty_singleton]
        refine ⟨fun hok => ?_, fun hc => absurd ⟨hnull.1, hnull.2⟩ hc.2⟩
        cases hok.1
      · have hlast : (LastEmpty ((enc, value) :: rest) ∧
              ba₁.position + (stringsBytes ba₁.endian rest).length = ba₁.capacity) ↔
            (LastEmpty rest ∧
              ba₁.position + (stringsBytes ba₁.endian rest).length = ba₁.capacity) := by
          cases rest with
          | nil =>
            -- the last string itself: the case excluded above
            rw [lastEmpty_singleton]
            exact iff_of_false hnull fun h => not_lastEmpty_nil h.1
          | cons w' rest' => rfl
        rw [if_neg hnull, hlast, ih ba₁ h₁]
        simp only [hfit, true_and]
    · exact iff_of_false (fun hok => readString_short h hfit hok.1) fun hc => hfit hc.1.1

/-- Whether the strings end at full capacity can be told before they are written. -/
theorem endsFull_iff {ba ba' : ByteArray} {ws : List (StrEnc × List UInt8)} (h : Inv ba')
    (hb : 0 < ba.baseSize) (hg : Grown ba ba')
    (hpos : ba'.position = ba.position + encodedLength ws) :
    ba.position + encodedLength ws = ba'.capacity ↔ EndsFull ba ws := by
  have hcap := h.capacity_eq
  rw [hg.base_eq] at hcap
  have hle := Nat.le_trans h.position_le h.size_le
  rw [EndsFull, ← hpos]
  constructor
  · intro heq
    exact ⟨heq ▸ hg.capacity_le, heq ▸ hcap ▸ Nat.dvd_mul_right _ _⟩
  · rintro ⟨hfull, k, hk⟩
    rcases hg.tight with hsame | htight
    · omega
    · -- two multiples of the block size less than a block apart
      rw [hk, hcap] at hle htight
      rw [hk, hcap]
      have hlt : ba'.nodes.length < k + 1 := by
        rw [← Nat.mul_succ] at htight
        exact Nat.lt_of_mul_lt_mul_left htight
      have hge : k ≤ ba'.nodes.length := Nat.le_of_mul_le_mul_left hle hb
      rw [show k = ba'.nodes.length by omega]

/-- Writing the strings, going back and reading them returns them. -/
def StringsReadBack (heap : Nat → Nat → UInt8) (ba : ByteArray)
    (ws : List (StrEnc × List UInt8)) : Prop :=
  ∃ ba₁ ba₂ ba₃,
    (writeStrings heap ws).on ba = (.ok (), ba₁) ∧
    (setPosition ba.position).on ba₁ = (.ok (), ba₂) ∧
    (readStrings (ws.map Prod.fst)).on ba₂ = (.ok (ws.map Prod.snd), ba₃)

theorem stringsReadBack_iff {heap : Nat → Nat → UInt8} {ba : ByteArray} (hinv : Inv ba)
    (ws : List (StrEnc × List UInt8)) :
    StringsReadBack heap ba ws ↔ LengthsFit ws ∧ ¬ (LastEmpty ws ∧ EndsFull ba ws) := by
  obtain ⟨ba₁, hwrite, h₁, hg⟩ := writeStrings_behind heap ws ba _ _ hinv.behind
  rw [List.nil_append] at h₁
  obtain ⟨ba₂, hset, h₂, hpos₂, hcap₂, -, hend₂⟩ := setPosition_ahead h₁
  have hend : ba₂.endian = ba.endian := hend₂.trans hg.endian_eq
  have hread := readStrings_iff ws ba₂ (by rw [hend]; exact h₂)
  have hback : StringsReadBack heap ba ws ↔
      ((readStrings (ws.map Prod.fst)).on ba₂).1 = .ok (ws.map Prod.snd) := by
    constructor
    · rintro ⟨s₁, s₂, s₃, hw, hs, hr⟩
      rw [hwrite] at hw; cases hw
      rw [hset] at hs; cases hs
      rw [hr]
    · intro hok
      exact ⟨ba₁, ba₂, _, hwrite, hset, Prod.ext hok rfl⟩
  rw [hback, hread, hpos₂, hcap₂, hend]
  apply and_congr_right
  intro hfit
  rw [stringsBytes_length _ ws hfit, endsFull_iff h₁.inv hinv.base_pos hg
    (by rw [h₁.position_eq, stringsBytes_length _ ws hfit])]

/-- **When strings read back.** From any reachable state: exactly when every length fits
the type of its prefix and the last string is not an empty one that ends at full capacity. -/
theorem string_round_trip_iff (heap : Nat → Nat → UInt8) (base : Nat) (hb : 1 ≤ base)
    (ba : ByteArray) (r : Reachable heap base ba) (ws : List (StrEnc × List UInt8)) :
    StringsReadBack heap ba ws ↔ LengthsFit ws ∧ ¬ (LastEmpty ws ∧ EndsFull ba ws) :=
  stringsReadBack_iff (r.inv hb).1 ws

/-- Three strings in blocks of two bytes, an empty one between the others. -/
theorem string_round_trip_three :
    StringsReadBack (fun _ _ => 0) (new (fun _ _ => 0) 2) [(.f16, [1]), (.vint, []), (.f32, [2, 3])] := by
  apply (string_round_trip_iff (fun _ _ => 0) 2 (by decide) _ Reachable.new _).mpr
  simp [LengthsFit, LastEmpty, StrEnc.limit]

/-- An empty string whose prefix fills the only block: the read of its bytes goes through
the null block. A string of 65536 bytes behind a 16-bit length: it reads back empty. -/
theorem string_round_trip_fails :
    ¬ StringsReadBack (fun _ _ => 0) (new (fun _ _ => 0) 2) [(.f16, [])] ∧
    ¬ StringsReadBack (fun _ _ => 0) (new (fun _ _ => 0) 2) [(.f16, List.replicate 65536 7)] := by
  constructor
  · rintro ⟨ba₁, ba₂, ba₃, hwrite, hset, hread⟩
    have h₁ : ba₁ = ((writeStrings (fun _ _ => 0) [(.f16, [])]).on (new (fun _ _ => 0) 2)).2 := by
      rw [hwrite]
    subst h₁
    have h₂ : ba₂ = ((setPosition 0).on
        ((writeStrings (fun _ _ => 0) [(.f16, [])]).on (new (fun _ _ => 0) 2)).2).2 := by
      rw [show (0 : Nat) = (new (fun _ _ => 0) 2).position from rfl, hset]
    subst h₂
    have hnull : ((readStrings [.f16]).on ((setPosition 0).on
        ((writeStrings (fun _ _ => 0) [(.f16, [])]).on (new (fun _ _ => 0) 2)).2).2).1 =
          .error .nullNode := by rfl
    have hok := congrArg Prod.fst hread
    rw [List.map_cons, List.map_nil, hnull] at hok
    cases hok
  · rw [stringsReadBack_iff (inv_new (by decide))]
    intro h
    have hfit := h.1 _ List.mem_cons_self
    rw [List.length_replicate] at hfit
    exact absurd hfit (by decide)

end Sylar.ByteArray
