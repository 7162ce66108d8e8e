import Mathlib.Data.List.Basic
import Mathlib.Algebra.Order.Ring.Nat
import Sylar.Lib.Narrow
import Sylar.Lib.Transfer
import Sylar.ByteArray.Scatter

/- `Stream::readFixSize` and `Stream::writeFixSize` of `sylar/stream.cc`, both overloads,
   over the `read` and `write` of `sylar/streams/socket_stream.cc`.

   The four loops are one (`whileLeft`): ask for what is left, stop at a result that is
   not positive. A `Wire` says how each call goes: whether the socket is connected, and
   what `recv` or `send` then returns. The peer sends the bytes of a stream, and keeps
   what it is sent.

   `left` is an `int64_t` and the result of a complete transfer is `(int)length`. From
   2^63 on the loop is not entered at all, and a length whose low half is no positive
   `int` is reported as closed or as an error although everything was moved. -/
namespace Sylar.Stream
open Sylar.Lib Sylar.ByteArray

/-! ## The loop -/

/-- `while(left > 0)`, with the number of the call; `offset` is what was moved. -/
def whileLeft {τ : Type} (op : Nat → Nat → Nat → τ → Except Err Int × τ) (call offset : Nat) (left : Int)
    (t : τ) : Ended Err τ :=
  if 0 < left then
    match op call offset left.toNat t with
    | (.error e, t) => { result := .error e, state := t, calls := call + 1 }
    | (.ok len, t) =>
      if len ≤ 0 then { result := .ok (some len), state := t, calls := call + 1 }
      else whileLeft op (call + 1) (offset + len.toNat) (left - len) t
  else { result := .ok none, state := t, calls := call }
termination_by left.toNat
decreasing_by omega

/-- What a call returns, with the state it leaves and the number of calls it made. -/
structure Fixed (τ : Type) where
  ret : Except Err Int
  state : τ
  calls : Nat

/-- The four functions: `int64_t left = length`, the loop, and `return length`. -/
def fixSize {τ : Type} (op : Nat → Nat → Nat → τ → Except Err Int × τ) (length : UInt64) (t : τ) : Fixed τ :=
  let r := whileLeft op 0 0 length.toInt64.toInt t
  { ret := r.result.map fun stopped => stopped.getD (narrowed length).toInt
    state := r.state
    calls := r.calls }

/-! ## The socket -/

/-- How the calls on the socket go. -/
structure Wire where
  connected : Nat → Bool
  io : Script

/-- What the calls of `read` or `write` return: -1 where the socket is not connected. -/
def Wire.script (w : Wire) : Script where
  result call n := if w.connected call then w.io.result call n else -1
  le call n := by
    have hle := w.io.le call n
    split <;> omega

/-- `k` bytes of the peer's stream from `q` on. -/
def bytesFrom (stream : Nat → UInt8) (q k : Nat) : List UInt8 := (List.range k).map fun i => stream (q + i)

/-- `SocketStream::read(buffer + offset, n)`, on the buffer and what was read of the stream. -/
def readBuffer (w : Wire) (stream : Nat → UInt8) (call offset n : Nat) (t : List UInt8 × Nat) :
    Except Err Int × (List UInt8 × Nat) :=
  let rt := w.script.result call n
  (.ok rt, (splice t.1 offset (bytesFrom stream t.2 rt.toNat), t.2 + rt.toNat))

/-- `SocketStream::write(buffer + offset, n)`, on what the peer has got. -/
def writeBuffer (w : Wire) (buffer : List UInt8) (call offset n : Nat) (received : List UInt8) :
    Except Err Int × List UInt8 :=
  let rt := w.script.result call n
  (.ok rt, received ++ slice buffer offset rt.toNat)

/-- `SocketStream::read(ba, n)`, where `recv` returns `rt` and stores `d`. -/
def socketRead (heap : Nat → Nat → UInt8) (connected : Bool) (n : Nat) (rt : Int) (d : List UInt8) : M Int := do
  if !connected then return -1
  let (_, iovs) ← getWriteBuffers heap n
  let ba ← get
  let nodes ← lift (scatter ba.nodes iovs d)
  set { ba with nodes }
  if rt > 0 then
    let ba ← get
    setPosition (getPosition ba + rt.toNat)
  return rt

/-- `SocketStream::write(ba, n)`, where `send` returns `rt`, with what it took. -/
def socketWrite (connected : Bool) (n : Nat) (rt : Int) : M (Int × List UInt8) := do
  if !connected then return (-1, [])
  let (_, iovs) ← getReadBuffers n
  let ba ← get
  let bytes ← lift (gather ba.nodes iovs)
  if rt > 0 then setPosition (getPosition ba + rt.toNat)
  return (rt, bytes.take rt.toNat)

/-- The call of `read` on the ByteArray, with what was read of the stream. -/
def readInto (heap : Nat → Nat → UInt8) (w : Wire) (stream : Nat → UInt8) (call _offset n : Nat)
    (t : ByteArray × Nat) : Except Err Int × (ByteArray × Nat) :=
  let moved := (w.script.result call n).toNat
  let (r, ba) := (socketRead heap (w.connected call) n (w.io.result call n) (bytesFrom stream t.2 moved)).on t.1
  (r, (ba, t.2 + moved))

/-- The call of `write` on the ByteArray, with what the peer has got. -/
def writeFrom (w : Wire) (call _offset n : Nat) (t : ByteArray × List UInt8) :
    Except Err Int × (ByteArray × List UInt8) :=
  match (socketWrite (w.connected call) n (w.io.result call n)).on t.1 with
  | (.ok (rt, bytes), ba) => (.ok rt, (ba, t.2 ++ bytes))
  | (.error e, ba) => (.error e, (ba, t.2))

/-! ## The four functions -/

/-- `readFixSize(void*, size_t)`. -/
def readFixSize (w : Wire) (stream : Nat → UInt8) (buffer : List UInt8) (q : Nat) (length : UInt64) :
    Fixed (List UInt8 × Nat) :=
  fixSize (readBuffer w stream) length (buffer, q)

/-- `readFixSize(ByteArray::ptr, size_t)`. -/
def readFixSizeInto (heap : Nat → Nat → UInt8) (w : Wire) (stream : Nat → UInt8) (ba : ByteArray) (q : Nat)
    (length : UInt64) : Fixed (ByteArray × Nat) :=
  fixSize (readInto heap w stream) length (ba, q)

/-- `writeFixSize(const void*, size_t)`. -/
def writeFixSize (w : Wire) (buffer received : List UInt8) (length : UInt64) : Fixed (List UInt8) :=
  fixSize (writeBuffer w buffer) length received

/-- `writeFixSize(ByteArray::ptr, size_t)`. -/
def writeFixSizeFrom (w : Wire) (ba : ByteArray) (received : List UInt8) (length : UInt64) :
    Fixed (ByteArray × List UInt8) :=
  fixSize (writeFrom w) length (ba, received)

/-! ## The outcome of a transfer -/

/-- What a fixed-size transfer is to do, `P m` saying that `m` units were moved in order: it
returns a positive value with all of them moved, and otherwise the first result that is not
positive with those before it moved. -/
def Completes {τ : Type} (s : Script) (length : Nat) (P : Nat → τ → Prop) (r : Fixed τ) : Prop :=
  ∃ amounts ret, Answers s 0 length amounts ∧ r.ret = .ok ret ∧ P amounts.sum r.state ∧
    ((0 < ret ∧ amounts.sum = length ∧ r.calls = amounts.length) ∨
      (ret ≤ 0 ∧ amounts.sum < length ∧ s.result amounts.length (length - amounts.sum) = ret ∧
        r.calls = amounts.length + 1))

/-- The length is one that `int64_t` holds, and its low half is a positive `int` unless the
transfer stops short. -/
def Reportable (s : Script) (length : Nat) : Prop :=
  length < 2 ^ 63 ∧ ((0 < length % 2 ^ 32 ∧ length % 2 ^ 32 < 2 ^ 31) ∨ StopsShort s length)

section
variable {τ : Type} {op : Nat → Nat → Nat → τ → Except Err Int × τ}

/-- The loop on `int64_t` asks as long as something is left. -/
theorem whileLeft_eq_resume (op : Nat → Nat → Nat → τ → Except Err Int × τ) :
    ∀ (n : Nat) (call offset : Nat) (left : Int) (t : τ), left.toNat = n →
      whileLeft op call offset left t = resume op call offset n t := by
  intro n
  induction n using Nat.strongRecOn with
  | ind n ih =>
    intro call offset left t hleft
    rw [whileLeft, resume, hleft]
    by_cases hpos : 0 < left
    · rw [if_pos hpos, if_pos (by omega)]
      cases op call offset n t with
      | mk r t' =>
        cases r with
        | error e => simp
        | ok len =>
          dsimp only
          by_cases hstop : len ≤ 0
          · rw [if_pos hstop, if_pos hstop]
          · rw [if_neg hstop, if_neg hstop]
            exact ih (n - len.toNat) (by omega) _ _ _ _ (by omega)
    · rw [if_neg hpos, if_neg (by omega)]

theorem toInt64_toInt (length : UInt64) :
    (length.toNat < 2 ^ 63 ∧ length.toInt64.toInt = length.toNat) ∨
      (2 ^ 63 ≤ length.toNat ∧ length.toInt64.toInt < 0) := by
  have hlt := length.toNat_lt
  have hbmod : length.toInt64.toInt = (length.toNat : Int).bmod (2 ^ 64) :=
    BitVec.toInt_eq_toNat_bmod length.toBitVec
  rw [hbmod, Int.bmod_def]
  split <;> omega

theorem narrowed_pos_iff (length : UInt64) :
    0 < (narrowed length).toInt ↔ 0 < length.toNat % 2 ^ 32 ∧ length.toNat % 2 ^ 32 < 2 ^ 31 := by
  rcases narrowed_cases length with ⟨hlow, hval⟩ | ⟨hhigh, hval⟩
  · omega
  · omega

/-- A length that `int64_t` holds is asked for. -/
theorem fixSize_eq {length : UInt64} (hsmall : length.toNat < 2 ^ 63) (t : τ) :
    fixSize op length t =
      { ret := (resume op 0 0 length.toNat t).result.map fun stopped => stopped.getD (narrowed length).toInt
        state := (resume op 0 0 length.toNat t).state
        calls := (resume op 0 0 length.toNat t).calls } := by
  have hleft : length.toInt64.toInt.toNat = length.toNat := by
    have hcases := toInt64_toInt length
    omega
  simp [fixSize, whileLeft_eq_resume op _ 0 0 _ t hleft]

/-- From 2^63 on the loop is not entered: no call was made that could have answered. -/
theorem not_completes_of_big {s : Script} {length : UInt64} {P : Nat → τ → Prop} {t : τ}
    (hbig : 2 ^ 63 ≤ length.toNat) : ¬ Completes s length.toNat P (fixSize op length t) := by
  have hcalls : (fixSize op length t).calls = 0 := by
    have hcases := toInt64_toInt length
    rw [fixSize, whileLeft, if_neg (by omega)]
  intro h
  obtain ⟨amounts, ret, -, -, -, hend⟩ := h
  rw [hcalls] at hend
  rcases hend with ⟨-, hsum, hzero⟩ | ⟨-, -, -, hzero⟩
  · rw [List.eq_nil_of_length_eq_zero hzero.symm, List.sum_nil] at hsum
    omega
  · omega

/-- When the four functions do what they are to do, for any operation that asks once. -/
theorem completes_iff {s : Script} {length : UInt64} {P : Nat → τ → Prop} {t : τ}
    (hop : Asks s length.toNat P op) (hP : P 0 t)
    (hinj : ∀ m m' t, m ≤ length.toNat → m' ≤ length.toNat → P m t → P m' t → m = m') :
    Completes s length.toNat P (fixSize op length t) ↔ Reportable s length.toNat := by
  by_cases hsmall : length.toNat < 2 ^ 63
  · rw [fixSize_eq hsmall]
    cases resume_spec hop hP with
    | all amounts hanswers hsum hPend hresult hcalls =>
      rw [hresult, hcalls]
      constructor
      · intro h
        obtain ⟨amounts', ret, hanswers', hret', hP', hend⟩ := h
        cases hret'
        rcases hend with ⟨hpos, -, -⟩ | ⟨-, hlt, -, -⟩
        · exact ⟨hsmall, Or.inl ((narrowed_pos_iff length).mp hpos)⟩
        · -- all was moved, so the amounts are not fewer
          have heq := hinj _ _ _ (Nat.le_of_lt hlt) (Nat.le_refl _) hP' hPend
          omega
      · intro h
        rcases h.2 with hlow | hshort
        · exact ⟨amounts, _, hanswers, rfl, by rw [hsum]; exact hPend,
            Or.inl ⟨(narrowed_pos_iff length).mpr hlow, hsum, rfl⟩⟩
        · exact absurd hshort (hanswers.not_stopsShort hsum)
    | stopped amounts hanswers hsum hPend hstop hresult hcalls =>
      rw [hresult, hcalls]
      constructor
      · intro _
        exact ⟨hsmall, Or.inr ⟨amounts, hanswers, hsum, hstop⟩⟩
      · intro _
        exact ⟨amounts, _, hanswers, rfl, hPend, Or.inr ⟨hstop, hsum, rfl, rfl⟩⟩
  · constructor
    · intro h
      exact absurd h (not_completes_of_big (by omega))
    · intro h
      exact absurd h.1 hsmall

end

/-! ## Buffers -/

section
variable {w : Wire} {stream : Nat → UInt8} {buffer received : List UInt8} {q : Nat} {length : UInt64}

@[simp] theorem bytesFrom_length (stream : Nat → UInt8) (q k : Nat) : (bytesFrom stream q k).length = k := by
  simp [bytesFrom]

theorem bytesFrom_zero (stream : Nat → UInt8) (q : Nat) : bytesFrom stream q 0 = [] := by
  simp [bytesFrom]

theorem bytesFrom_add (stream : Nat → UInt8) (q m k : Nat) :
    bytesFrom stream q (m + k) = bytesFrom stream q m ++ bytesFrom stream (q + m) k := by
  unfold bytesFrom
  rw [List.range_add, List.map_append, List.map_map]
  congr 1
  apply List.map_congr_left
  intro i _
  simp [Nat.add_assoc]

/-- The first `m` bytes of the stream stand at the start of the buffer, and are used up. -/
def ReadBuffer (stream : Nat → UInt8) (buffer : List UInt8) (q m : Nat) (t : List UInt8 × Nat) : Prop :=
  t = (splice buffer 0 (bytesFrom stream q m), q + m)

/-- The peer has got the first `m` bytes of the buffer. -/
def WrittenBuffer (buffer received : List UInt8) (m : Nat) (t : List UInt8) : Prop :=
  t = received ++ buffer.take m

theorem asks_readBuffer (w : Wire) (stream : Nat → UInt8) (buffer : List UInt8) (q n : Nat) :
    Asks w.script n (ReadBuffer stream buffer q) (readBuffer w stream) := by
  intro call moved t _ hP
  subst hP
  refine ⟨_, rfl, ?_⟩
  have hnext := splice_splice_append (bytesFrom stream q moved)
    (bytesFrom stream (q + moved) (w.script.result call (n - moved)).toNat) (Nat.zero_le buffer.length)
  rw [bytesFrom_length, Nat.zero_add, ← bytesFrom_add] at hnext
  unfold ReadBuffer
  dsimp only
  rw [hnext, Nat.add_assoc]

theorem asks_writeBuffer (w : Wire) (buffer received : List UInt8) (n : Nat) :
    Asks w.script n (WrittenBuffer buffer received) (writeBuffer w buffer) := by
  intro call moved t _ hP
  subst hP
  refine ⟨_, rfl, ?_⟩
  unfold WrittenBuffer
  rw [List.append_assoc, slice, List.take_add]

theorem readFixSize_iff :
    Completes w.script length.toNat (ReadBuffer stream buffer q) (readFixSize w stream buffer q length) ↔
      Reportable w.script length.toNat := by
  refine completes_iff (asks_readBuffer w stream buffer q _) ?_ ?_
  · simp [ReadBuffer, bytesFrom_zero]
  · intro m m' t _ _ h h'
    have heq := congrArg Prod.snd (h.symm.trans h')
    dsimp only at heq
    omega

theorem writeFixSize_iff (hroom : length.toNat ≤ buffer.length) :
    Completes w.script length.toNat (WrittenBuffer buffer received) (writeFixSize w buffer received length) ↔
      Reportable w.script length.toNat := by
  refine completes_iff (asks_writeBuffer w buffer received _) ?_ ?_
  · simp [WrittenBuffer]
  · intro m m' t hm hm' h h'
    have heq := congrArg List.length (h.symm.trans h')
    simp only [List.length_append, List.length_take] at heq
    omega

end

/-! ## ByteArrays -/

/-- What a ByteArray holds. -/
def dataOf (ba : ByteArray) : List UInt8 := (content ba.nodes).take ba.size

/-- The first `m` bytes of the stream stand in `ba` from its position on, which is behind them. -/
structure ReadInto (ba : ByteArray) (stream : Nat → UInt8) (q m : Nat) (t : ByteArray × Nat) : Prop where
  inv : Inv t.1
  position : t.1.position = ba.position + m
  data : dataOf t.1 = splice (dataOf ba) ba.position (bytesFrom stream q m)
  used : t.2 = q + m

/-- The peer has got the first `m` readable bytes of `ba`, whose position is behind them. -/
structure WrittenFrom (ba : ByteArray) (received : List UInt8) (m : Nat) (t : ByteArray × List UInt8) : Prop where
  inv : Inv t.1
  position : t.1.position = ba.position + m
  data : dataOf t.1 = dataOf ba
  received : t.2 = received ++ (readable ba).take m

section
variable {heap : Nat → Nat → UInt8} {ba : ByteArray}

theorem dataOf_length (h : Inv ba) : (dataOf ba).length = ba.size := by
  have hcap := h.content_len
  have hsize := h.size_le
  rw [dataOf, List.length_take]
  omega

/-- The data of a splice into a larger vector. -/
theorem take_splice_max {xs ys : List UInt8} {p n : Nat} (hp : p ≤ n) (hn : n ≤ xs.length) :
    (splice xs p ys).take (max n (p + ys.length)) = splice (xs.take n) p ys := by
  have hpre : (xs.take p ++ ys).length = p + ys.length := by
    rw [List.length_append, List.length_take]
    omega
  have hmax : max n (p + ys.length) - (p + ys.length) = n - (p + ys.length) := by omega
  rw [splice, List.take_append, hpre, hmax, List.take_of_length_le (by rw [hpre]; omega), splice, List.take_take,
    Nat.min_eq_left hp, List.drop_take]

/-- Growing leaves the data as it was. -/
theorem take_grow (heap : Nat → Nat → UInt8) (h : Inv ba) (n : Nat) :
    ((abs ba).grow heap ba.baseSize n).bytes.take ba.size = dataOf ba := by
  have hcap := h.content_len
  have hsize := h.size_le
  rw [dataOf, Flat.grow, Sylar.ByteArray.abs]
  dsimp only
  rw [List.take_append_of_le_length (by omega)]

/-- A `recv` that stored something is the one of the scatter path. -/
theorem socketRead_moved (heap : Nat → Nat → UInt8) (h : Inv ba) {n : Nat} {rt : Int} {d : List UInt8} (hrt : rt = d.length)
    (hd : 1 ≤ d.length) (hle : d.length ≤ n) :
    ∃ ba', (socketRead heap true n rt d).on ba = (.ok rt, ba') ∧ Inv ba' ∧
      ba'.position = ba.position + d.length ∧ dataOf ba' = splice (dataOf ba) ba.position d := by
  obtain ⟨ba', hrun, hs⟩ := streamRead_spec heap h hd hle
  have hsame : socketRead heap true n rt d = streamRead heap true n (some d) := by
    subst hrt
    unfold socketRead streamRead
    simp only [gt_iff_lt, Int.natCast_pos, Int.toNat_natCast]
  refine ⟨ba', ?_, hs.inv, ?_, ?_⟩
  · rw [hsame, hrun, hrt]
  · exact congrArg Flat.position hs.abs_eq
  · have hbytes : content ba'.nodes = splice ((abs ba).grow heap ba.baseSize n).bytes ba.position d :=
      congrArg Flat.bytes hs.abs_eq
    have hsize : ba'.size = max ba.size (ba.position + d.length) := congrArg Flat.size hs.abs_eq
    have hlong : ba.size ≤ ((abs ba).grow heap ba.baseSize n).bytes.length := by
      have hlen := congrArg List.length (take_grow heap h n)
      rw [dataOf_length h, List.length_take] at hlen
      omega
    rw [dataOf, hbytes, hsize, take_splice_max h.position_le hlong, take_grow heap h n]

/-- One that stored nothing may have grown the chain, which the data does not show. -/
theorem socketRead_stopped (heap : Nat → Nat → UInt8) (h : Inv ba) {n : Nat} (hn : 1 ≤ n) {rt : Int} (hrt : rt ≤ 0) :
    ∃ ba', (socketRead heap true n rt []).on ba = (.ok rt, ba') ∧ Inv ba' ∧
      ba'.position = ba.position ∧ dataOf ba' = dataOf ba := by
  obtain ⟨g, iovs, cur, hrun, hs, hpos, hroom, hwalk⟩ := getWriteBuffers_run heap h hn
  obtain ⟨nodes, hscatter, hs'⟩ := scatter_at (d := []) hs.inv hn (by simp) hroom hwalk
  refine ⟨{ g with nodes }, ?_, hs'.inv, hpos, ?_⟩
  · unfold socketRead
    simp only [Bool.not_true, Bool.false_eq_true, if_false]
    rw [on_bind_ok _ hrun]
    simp only [on_bind, on_get, on_lift, on_set, hscatter]
    rw [if_neg (by omega)]
    rfl
  · have hnodes : content nodes = content g.nodes := by
      have hbytes := congrArg Flat.bytes hs'.abs_eq
      rw [splice_nil] at hbytes
      exact hbytes
    have hbytes : content g.nodes = ((abs ba).grow heap ba.baseSize n).bytes := congrArg Flat.bytes hs.abs_eq
    have hsize : g.size = ba.size := congrArg Flat.size hs.abs_eq
    have hdata := take_grow heap h n
    rw [← hbytes, ← hnodes, ← hsize] at hdata
    exact hdata

theorem asks_readInto (heap : Nat → Nat → UInt8) (w : Wire) (stream : Nat → UInt8) (ba : ByteArray) (q n : Nat)
    (hba : Inv ba) : Asks w.script n (ReadInto ba stream q) (readInto heap w stream) := by
  intro call moved t hlt hP
  obtain ⟨hinv, hpos, hdata, hused⟩ := hP
  have hle := w.script.le call (n - moved)
  generalize hrt : w.script.result call (n - moved) = rt at hle ⊢
  -- the next bytes of the stream continue the splice
  have hnext : ∀ k, splice (dataOf t.1) t.1.position (bytesFrom stream t.2 k) =
      splice (dataOf ba) ba.position (bytesFrom stream q (moved + k)) := by
    intro k
    have happend := splice_splice_append (bytesFrom stream q moved) (bytesFrom stream (q + moved) k)
      (show ba.position ≤ (dataOf ba).length by rw [dataOf_length hba]; exact hba.position_le)
    rw [bytesFrom_length, ← bytesFrom_add] at happend
    rw [hdata, hpos, hused, happend]
  cases hconn : w.connected call with
  | false =>
    have hminus : rt = -1 := by simpa [Wire.script, hconn] using hrt.symm
    refine ⟨_, ?_, hinv, ?_, ?_, ?_⟩
    · simp [readInto, socketRead, hconn, hrt, hminus]
    · rw [hpos, hminus]; simp
    · rw [hdata, hminus]; simp
    · rw [hused, hminus]; simp
  | true =>
    have hio : w.io.result call (n - moved) = rt := by simpa [Wire.script, hconn] using hrt
    by_cases hstop : rt ≤ 0
    · have hzero : rt.toNat = 0 := Int.toNat_of_nonpos hstop
      obtain ⟨ba', hrun, hinv', hpos', hdata'⟩ :=
        socketRead_stopped heap hinv (n := n - moved) (by omega) hstop
      refine ⟨(ba', t.2 + rt.toNat), ?_, hinv', ?_, ?_, ?_⟩
      · simp [readInto, hconn, hrt, hio, hzero, bytesFrom_zero, hrun]
      · rw [hpos', hpos, hzero, Nat.add_zero]
      · rw [hdata', hdata, hzero, Nat.add_zero]
      · dsimp only
        rw [hused, hzero, Nat.add_zero, Nat.add_zero]
    · have hlen : rt = (bytesFrom stream t.2 rt.toNat).length := by
        rw [bytesFrom_length]
        omega
      obtain ⟨ba', hrun, hinv', hpos', hdata'⟩ :=
        socketRead_moved heap hinv (n := n - moved) hlen (by rw [bytesFrom_length]; omega)
          (by rw [bytesFrom_length]; omega)
      refine ⟨(ba', t.2 + rt.toNat), ?_, hinv', ?_, ?_, ?_⟩
      · simp [readInto, hconn, hrt, hio, hrun]
      · rw [hpos', hpos, bytesFrom_length, Nat.add_assoc]
      · rw [hdata', hnext]
      · rw [hused, Nat.add_assoc]

/-- The readable bytes are the data from the position on. -/
theorem readable_dataOf (ba : ByteArray) : readable ba = (dataOf ba).drop ba.position := readable_eq ba

theorem socketWrite_run (h : Inv ba) {n : Nat} (hn : ba.position + n ≤ ba.size) {rt : Int} (hle : rt ≤ n) :
    ∃ ba', (socketWrite true n rt).on ba = (.ok (rt, ((dataOf ba).drop ba.position).take rt.toNat), ba') ∧
      Inv ba' ∧ ba'.position = ba.position + rt.toNat ∧ dataOf ba' = dataOf ba := by
  obtain ⟨iovs, hrun, hgather⟩ := getReadBuffers_spec h n
  have hmin : min n (abs ba).readSize = n := by
    show min n (ba.size - ba.position) = n
    omega
  rw [hmin] at hrun hgather
  have hbytes : (slice (content ba.nodes) ba.position n).take rt.toNat =
      ((dataOf ba).drop ba.position).take rt.toNat := by
    rw [slice, dataOf, List.drop_take, List.take_take, List.take_take, Nat.min_eq_left (by omega),
      Nat.min_eq_left (by omega)]
  by_cases hpos : rt > 0
  · obtain ⟨ba', hset, hs⟩ := setPosition_spec h (ba.position + rt.toNat)
    have hcap : (abs ba).capacity = ba.capacity := h.content_len
    have hsize := h.size_le
    rw [Flat.setPosition, if_neg (by rw [hcap]; omega)] at hset hs
    refine ⟨ba', ?_, hs.inv, congrArg Flat.position hs.abs_eq, ?_⟩
    · unfold socketWrite
      simp only [Bool.not_true, Bool.false_eq_true, if_false]
      rw [on_bind_ok _ hrun]
      simp only [on_bind, on_get, on_lift, hgather]
      rw [if_pos hpos]
      simp only [on_bind, getPosition, hset, on_pure, hbytes]
    · have hcontent : content ba'.nodes = content ba.nodes := congrArg Flat.bytes hs.abs_eq
      have hsize' : ba'.size = max ba.size (ba.position + rt.toNat) := congrArg Flat.size hs.abs_eq
      rw [dataOf, dataOf, hcontent, hsize', Nat.max_eq_left (by omega)]
  · have hzero : rt.toNat = 0 := by omega
    refine ⟨ba, ?_, h, by rw [hzero, Nat.add_zero], rfl⟩
    unfold socketWrite
    simp only [Bool.not_true, Bool.false_eq_true, if_false]
    rw [on_bind_ok _ hrun]
    simp only [on_bind, on_get, on_lift, hgather]
    rw [if_neg hpos]
    simp only [on_pure, hbytes]

theorem asks_writeFrom (w : Wire) (ba : ByteArray) (received : List UInt8) {n : Nat} (hba : Inv ba)
    (hroom : n ≤ getReadSize ba) : Asks w.script n (WrittenFrom ba received) (writeFrom w) := by
  intro call moved t hlt hP
  obtain ⟨hinv, hpos, hdata, hreceived⟩ := hP
  have hle := w.script.le call (n - moved)
  generalize hrt : w.script.result call (n - moved) = rt at hle ⊢
  cases hconn : w.connected call with
  | false =>
    have hminus : rt = -1 := by simpa [Wire.script, hconn] using hrt.symm
    refine ⟨t, ?_, hinv, ?_, hdata, ?_⟩
    · simp [writeFrom, socketWrite, hconn, hminus]
    · rw [hpos, hminus]; simp
    · rw [hreceived, hminus]; simp
  | true =>
    have hio : w.io.result call (n - moved) = rt := by simpa [Wire.script, hconn] using hrt
    have hsize : t.1.size = ba.size := by
      rw [← dataOf_length hinv, hdata, dataOf_length hba]
    have hread : getReadSize ba = ba.size - ba.position := rfl
    obtain ⟨ba', hrun, hinv', hpos', hdata'⟩ :=
      socketWrite_run hinv (n := n - moved) (by rw [hsize, hpos]; omega) hle
    refine ⟨(ba', t.2 ++ ((dataOf t.1).drop t.1.position).take rt.toNat), ?_, hinv', ?_, hdata'.trans hdata, ?_⟩
    · simp [writeFrom, hconn, hio, hrun]
    · rw [hpos', hpos, Nat.add_assoc]
    · dsimp only
      rw [hreceived, hdata, hpos, List.append_assoc, readable_dataOf, List.take_add, List.drop_drop]

end

/-! ## The four functions -/

/-- **Fixed-size transfers.** Over every wire, each of the four functions does what it is to do if
and only if its length is one that `int64_t` holds and the low half of the length is a
positive `int`, or the transfer stops short. -/
theorem fixSize_completes_iff (heap : Nat → Nat → UInt8) (w : Wire) (stream : Nat → UInt8)
    (length : UInt64) :
    (∀ (buffer : List UInt8) (q : Nat), length.toNat ≤ buffer.length →
      (Completes w.script length.toNat (ReadBuffer stream buffer q) (readFixSize w stream buffer q length) ↔
        Reportable w.script length.toNat)) ∧
    (∀ (base : Nat) (ba : ByteArray) (q : Nat), 1 ≤ base → Reachable heap base ba →
      (Completes w.script length.toNat (ReadInto ba stream q) (readFixSizeInto heap w stream ba q length) ↔
        Reportable w.script length.toNat)) ∧
    (∀ buffer received : List UInt8, length.toNat ≤ buffer.length →
      (Completes w.script length.toNat (WrittenBuffer buffer received) (writeFixSize w buffer received length) ↔
        Reportable w.script length.toNat)) ∧
    (∀ (base : Nat) (ba : ByteArray) (received : List UInt8), 1 ≤ base → Reachable heap base ba →
      length.toNat ≤ getReadSize ba →
      (Completes w.script length.toNat (WrittenFrom ba received) (writeFixSizeFrom w ba received length) ↔
        Reportable w.script length.toNat)) := by
  refine ⟨?_, ?_, ?_, ?_⟩
  · intro buffer q _
    exact readFixSize_iff
  · intro base ba q hbase r
    have hba := (r.inv hbase).1
    refine completes_iff (asks_readInto heap w stream ba q _ hba) ⟨hba, rfl, ?_, rfl⟩ ?_
    · rw [bytesFrom_zero, splice_nil]
    · intro m m' t _ _ h h'
      have := h.position
      have := h'.position
      omega
  · intro buffer received hroom
    exact writeFixSize_iff hroom
  · intro base ba received hbase r hroom
    have hba := (r.inv hbase).1
    refine completes_iff (asks_writeFrom w ba received hba hroom) ⟨hba, rfl, rfl, by simp⟩ ?_
    intro m m' t _ _ h h'
    have := h.position
    have := h'.position
    omega

/-- A wire on which each call moves at most `most` bytes. -/
def atMost (most : Nat) : Wire where
  connected _ := true
  io := { result := fun _ n => min n most, le := fun _ n => by omega }

/-- Three bytes, two at a time. -/
theorem fixSize_completes_three :
    Completes (atMost 2).script 3 (ReadBuffer (fun i => UInt8.ofNat i) [9, 9, 9, 9] 7)
      (readFixSize (atMost 2) (fun i => UInt8.ofNat i) [9, 9, 9, 9] 7 3) := by
  refine ((fixSize_completes_iff (fun _ _ => 0) (atMost 2) _ 3).1 [9, 9, 9, 9] 7 (by decide)).mpr ?_
  exact ⟨by decide, Or.inl (by decide)⟩

/-- 4 GiB read in parts of a megabyte: everything is there, and the result says that the
stream was closed. -/
theorem four_gigabytes_read_as_closed :
    ¬ Completes (atMost 0x100000).script (0x100000000 : UInt64).toNat
      (ReadBuffer (fun _ => 0) (List.replicate 0x100000000 0) 0)
      (readFixSize (atMost 0x100000) (fun _ => 0) (List.replicate 0x100000000 0) 0 0x100000000) := by
  rw [readFixSize_iff]
  intro h
  rcases h.2 with hlow | hshort
  · exact absurd hlow.1 (by decide)
  · -- no call on this wire moves nothing
    obtain ⟨amounts, -, hlt, hstop⟩ := hshort
    simp only [Wire.script, atMost, if_true] at hstop
    omega

end Sylar.Stream
