import Mathlib.Data.List.Basic
import Sylar.Http.Parsers
import Sylar.Http.Resume
import Sylar.Lib.Bytes
import Sylar.Lib.Stream

/- How `http_parser_execute` reads the header lines of a message.

   A line `name: value` leads the loop from the start of a line to a state that the next
   byte, unless it folds the line, finds as the start of the next one: the header has
   been set, the bytes of the line have been counted against the limit on the head, and
   of the flags only those about the connection can have changed (`readsLine_ordinary`).
   Of the names that decide how long the body is or what protocol follows,
   `readsLine_length` has `content-length`. Lines compose (`ReadsLine.append`), and
   `reads_lines` is about any number of them. -/
namespace Sylar.Http
open Sylar.Lib

/-! ## Marks and counting -/

def noMarks : Mark → Option Bytes := fun _ => none

def oneMark (m : Mark) (d : Bytes) : Mark → Option Bytes := fun k => if k = m then some d else none

section
variable {σ : Type} {l : Loop σ} {st : Settings σ} {ch : UInt8}

theorem advance_noMarks (h : l.marks = noMarks) : l.advance ch = l := by
  unfold Loop.advance
  rw [h]
  cases l
  simp only at h
  subst h
  rfl

theorem advance_oneMark {m : Mark} {d : Bytes} (h : l.marks = oneMark m d) :
    l.advance ch = { l with marks := oneMark m (d ++ [ch]) } := by
  unfold Loop.advance
  rw [h]
  congr 1
  funext k
  unfold oneMark
  split <;> rfl

theorem mark_noMarks {m : Mark} (h : l.marks = noMarks) :
    l.mark m = { l with marks := oneMark m [] } := by
  unfold Loop.mark Loop.setMark
  rw [h]
  rfl

theorem callback_oneMark {m : Mark} {d : Bytes} {u : σ} (h : l.marks = oneMark m d)
    (hcb : st.onData m l.toFields d l.user = (0, u)) (n : Nat) :
    l.callback st m n = .ok { l with marks := noMarks, user := u } := by
  unfold Loop.callback Loop.setMark
  rw [h]
  simp only [oneMark, if_true, hcb]
  congr 2
  funext k
  split <;> rfl

/-- The bytes of the head that have been counted, with `n` more. -/
theorem nread_add {l : Loop σ} {n : Nat} (h : l.nread.toNat + n ≤ maxHeaderSize.toNat) :
    (l.nread + UInt32.ofNat n).toNat = l.nread.toNat + n := by
  have hmax : maxHeaderSize.toNat = 81920 := rfl
  rw [UInt32.toNat_add, UInt32.toNat_ofNat']
  omega

theorem countHeaderSize_ok {n : Nat} (h : l.nread.toNat + n ≤ maxHeaderSize.toNat) :
    l.countHeaderSize n = .ok { l with nread := l.nread + UInt32.ofNat n } := by
  unfold Loop.countHeaderSize
  refine if_neg ?_
  rw [UInt32.lt_iff_toNat_lt, nread_add h]
  omega

theorem countByte_counted (hs : l.state.parsingHeader = true) (hrun : l.run = 0)
    (hroom : l.nread.toNat + 1 ≤ maxHeaderSize.toNat) : l.countByte = .ok l.counted :=
  (if_pos ⟨hs, hrun⟩).trans (countHeaderSize_ok hroom)

/-- A byte of the head outside the inner loops is counted and dispatched. -/
theorem step_head {l' : Loop σ} (hs : l.state.parsingHeader = true) (hrun : l.run = 0)
    (hroom : l.nread.toNat + 1 ≤ maxHeaderSize.toNat) (h : dispatch st ch l.counted = .ok l')
    (hm : l'.marks = noMarks) : step st ch l = .ok l' := by
  rw [step, countByte_counted hs hrun hroom]
  exact (congrArg (fun r => r >>= fun l => Except.ok (l.advance ch)) h).trans
    (congrArg Except.ok (advance_noMarks hm))

theorem step_head_marked {l' : Loop σ} {m : Mark} {d : Bytes} (hs : l.state.parsingHeader = true)
    (hrun : l.run = 0) (hroom : l.nread.toNat + 1 ≤ maxHeaderSize.toNat)
    (h : dispatch st ch l.counted = .ok l') (hm : l'.marks = oneMark m d) :
    step st ch l = .ok { l' with marks := oneMark m (d ++ [ch]) } := by
  rw [step, countByte_counted hs hrun hroom]
  exact (congrArg (fun r => r >>= fun l => Except.ok (l.advance ch)) h).trans
    (congrArg Except.ok (advance_oneMark hm))

/-- A byte that an inner loop takes is not counted. -/
theorem step_run {l' : Loop σ} (hrun : l.run ≠ 0) (h : dispatch st ch l = .ok l')
    (hm : l'.marks = noMarks) : step st ch l = .ok l' := by
  have hcount : l.countByte = .ok l := if_neg fun hc => hrun hc.2
  rw [step, hcount]
  exact (congrArg (fun r => r >>= fun l => Except.ok (l.advance ch)) h).trans
    (congrArg Except.ok (advance_noMarks hm))

theorem step_run_marked {l' : Loop σ} {m : Mark} {d : Bytes} (hrun : l.run ≠ 0)
    (h : dispatch st ch l = .ok l') (hm : l'.marks = oneMark m d) :
    step st ch l = .ok { l' with marks := oneMark m (d ++ [ch]) } := by
  have hcount : l.countByte = .ok l := if_neg fun hc => hrun hc.2
  rw [step, hcount]
  exact (congrArg (fun r => r >>= fun l => Except.ok (l.advance ch)) h).trans
    (congrArg Except.ok (advance_oneMark hm))

end

/-! ## Names -/

section
variable {σ : Type} {l : Loop σ}

/-- The name of a header: a token. -/
def IsName (name : Bytes) : Prop := name ≠ [] ∧ ∀ c ∈ name, token c ≠ 0

instance (name : Bytes) : Decidable (IsName name) := @instDecidableAnd _ _ _ (List.decidableBAll _ _)

/-- What a byte of a name does to the header state and its index. -/
def fieldStep (s : HeaderState × Nat) (c : UInt8) : HeaderState × Nat :=
  let l : Loop Unit := fieldChar c
    { type := .HTTP_REQUEST, state := .s_header_field, headerState := s.1, index := s.2, user := ()
      marks := noMarks }
  (l.headerState, l.index)

/-- Matching a name changes nothing but the header state and the index. -/
theorem fieldChar_eq (c : UInt8) (l : Loop σ) :
    fieldChar c l = { l with
      headerState := (fieldStep (l.headerState, l.index) c).1
      index := (fieldStep (l.headerState, l.index) c).2 } := by
  obtain ⟨⟨type, flags, state, hs, i⟩, u, m, r, s⟩ := l
  cases hs
  case h_connection | h_content_length | h_transfer_encoding | h_upgrade =>
    simp only [fieldStep, fieldChar]
    split <;> rfl
  all_goals rfl

/-- A proper beginning of `word`, up to index `i`. -/
def Partly (word : String) (i : Nat) (pre : Bytes) : Prop :=
  i + 1 < (ascii word).length ∧ pre = (ascii word).take (i + 1)

/-- What a header state and its index say of the name so far, `pre` being its lower case. -/
def Matched (hs : HeaderState) (i : Nat) (pre : Bytes) : Prop :=
  match hs with
  | .h_general => True
  | .h_C => pre = ascii "c" ∧ i = 0
  | .h_CO => pre = ascii "co" ∧ i = 1
  | .h_CON => pre = ascii "con" ∧ i = 2
  | .h_matching_connection => Partly "connection" i pre
  | .h_matching_proxy_connection => Partly "proxy-connection" i pre
  | .h_matching_content_length => Partly "content-length" i pre
  | .h_matching_transfer_encoding => Partly "transfer-encoding" i pre
  | .h_matching_upgrade => Partly "upgrade" i pre
  | .h_connection => True
  | .h_content_length => pre = ascii "content-length"
  | .h_transfer_encoding => pre = ascii "transfer-encoding"
  | .h_upgrade => pre = ascii "upgrade"
  | _ => False

theorem length_ascii (word : String) : (ascii word).length = word.length := by
  rw [ascii, List.length_map, String.length_toList]

theorem partly_matching {word : String} (c : UInt8) (found other : HeaderState) {pre : Bytes}
    (h : Partly word l.index pre) :
    (l.matching word c found other).headerState = other ∨
    ((l.matching word c found other).headerState = found ∧ pre ++ [c] = ascii word) ∨
    ((l.matching word c found other).headerState = l.headerState ∧
      Partly word (l.matching word c found other).index (pre ++ [c])) := by
  obtain ⟨hi, rfl⟩ := h
  have hlen := length_ascii word
  unfold Loop.matching
  dsimp only
  by_cases hc : word.length < l.index + 1 ∨ c ≠ (ascii word).getD (l.index + 1) 0
  · exact Or.inl (if_pos hc)
  · have htake : (ascii word).take (l.index + 1) ++ [c] = (ascii word).take (l.index + 2) := by
      have hget := not_or.mp hc
      rw [List.take_succ_eq_append_getElem (i := l.index + 1) hi]
      congr 2
      have h := not_not.mp hget.2
      rwa [List.getD_eq_getElem?_getD, List.getElem?_eq_getElem hi, Option.getD_some] at h
    rw [if_neg hc, htake]
    by_cases hend : l.index + 1 = word.length - 1
    · rw [if_pos hend]
      exact Or.inr (Or.inl ⟨rfl, List.take_of_length_le (by omega)⟩)
    · rw [if_neg hend]
      exact Or.inr (Or.inr ⟨rfl, by omega, rfl⟩)

/-- A character that a word is matched with, by what the word and a part of it stand for. -/
theorem matching_matched {word : String} {c : UInt8} {found : HeaderState} {pre : Bytes}
    (h : Partly word l.index pre) (hfound : ∀ i, pre ++ [c] = ascii word → Matched found i (pre ++ [c]))
    (hmore : ∀ i, Partly word i (pre ++ [c]) → Matched l.headerState i (pre ++ [c])) :
    Matched (l.matching word c found .h_general).headerState (l.matching word c found .h_general).index
      (pre ++ [c]) := by
  rcases partly_matching c found .h_general h with h | h | h
  · rw [h]
    trivial
  · rw [h.1]
    exact hfound _ h.2
  · rw [h.1]
    exact hmore _ h.2

theorem fieldChar_matched {c : UInt8} {pre : Bytes} (hc : token c ≠ 0)
    (h : Matched l.headerState l.index pre) :
    Matched (fieldChar c l).headerState (fieldChar c l).index (pre ++ [token c]) := by
  have hblank : c ≠ chr ' ' := by
    rintro rfl
    exact hc (by decide)
  unfold fieldChar
  dsimp only
  split
  case h_1 hs =>
    rw [hs] at h
    obtain ⟨rfl, hi⟩ := h
    by_cases ho : token c = chr 'o'
    · rw [if_pos ho]
      exact ⟨by rw [ho]; rfl, by rw [hi]⟩
    · rw [if_neg ho]
      trivial
  case h_2 hs =>
    rw [hs] at h
    obtain ⟨rfl, hi⟩ := h
    by_cases hn : token c = chr 'n'
    · rw [if_pos hn]
      exact ⟨by rw [hn]; rfl, by rw [hi]⟩
    · rw [if_neg hn]
      trivial
  case h_3 hs =>
    rw [hs] at h
    obtain ⟨rfl, hi⟩ := h
    by_cases hn : token c = chr 'n'
    · rw [if_pos hn]
      exact ⟨by rw [hi]; exact (by decide : 4 < (ascii "connection").length), by rw [hn, hi]; rfl⟩
    · by_cases ht : token c = chr 't'
      · rw [if_neg hn, if_pos ht]
        exact ⟨by rw [hi]; exact (by decide : 4 < (ascii "content-length").length), by rw [ht, hi]; rfl⟩
      · rw [if_neg hn, if_neg ht]
        trivial
  -- `connection` and `proxy-connection` say nothing about the name once they are found
  case h_4 hs | h_5 hs =>
    rw [hs] at h
    refine matching_matched h (fun _ _ => trivial) ?_
    intro i hmore
    rw [hs]
    exact hmore
  case h_6 hs | h_7 hs | h_8 hs =>
    rw [hs] at h
    refine matching_matched h (fun _ hfound => hfound) ?_
    intro i hmore
    rw [hs]
    exact hmore
  case h_13 =>
    cases hs : l.headerState <;> simp_all [Matched]
  all_goals
    rw [if_pos hblank]
    trivial

theorem foldl_fieldStep_matched : ∀ (cs : Bytes) (s : HeaderState × Nat) (pre : Bytes),
    (∀ c ∈ cs, token c ≠ 0) → Matched s.1 s.2 pre →
    Matched (cs.foldl fieldStep s).1 (cs.foldl fieldStep s).2 (pre ++ cs.map token)
  | [], s, pre, _, h => by rw [List.map_nil, List.append_nil]; exact h
  | c :: cs, s, pre, hcs, h => by
    have hc : Matched (fieldStep s c).1 (fieldStep s c).2 (pre ++ [token c]) :=
      fieldChar_matched (hcs c List.mem_cons_self) h
    have hrest := foldl_fieldStep_matched cs _ _ (fun c hc => hcs c (List.mem_cons_of_mem _ hc)) hc
    rw [List.append_assoc] at hrest
    exact hrest

theorem firstHeaderState_matched (c : UInt8) : Matched (firstHeaderState c) 0 [c] := by
  unfold firstHeaderState
  split
  · rename_i h; exact ⟨by rw [h]; rfl, rfl⟩
  · split
    · rename_i h; exact ⟨by decide, by rw [h]; rfl⟩
    · split
      · rename_i h; exact ⟨by decide, by rw [h]; rfl⟩
      · split
        · rename_i h; exact ⟨by decide, by rw [h]; rfl⟩
        · trivial

/-- The header states in which a name may end that decides nothing about the body. -/
def HeaderState.named : HeaderState → Bool
  | .h_general | .h_C | .h_CO | .h_CON | .h_matching_connection | .h_matching_proxy_connection
  | .h_matching_content_length | .h_matching_transfer_encoding | .h_matching_upgrade
  | .h_connection => true
  | _ => false

/-- A name that decides nothing about the body or the protocol after the head. -/
def Ordinary (name : Bytes) : Prop :=
  name.map token ∉ [ascii "content-length", ascii "transfer-encoding", ascii "upgrade"]

instance (name : Bytes) : Decidable (Ordinary name) := inferInstanceAs (Decidable (¬ _))

/-- The header state and its index at the end of a name. -/
def nameState : Bytes → HeaderState × Nat
  | [] => (.h_general, 0)
  | c :: cs => cs.foldl fieldStep (firstHeaderState (token c), 0)

theorem nameState_named {name : Bytes} (hn : IsName name) (ho : Ordinary name) :
    (nameState name).1.named = true := by
  obtain ⟨c, cs, rfl⟩ := List.exists_cons_of_ne_nil hn.1
  have h := foldl_fieldStep_matched cs (firstHeaderState (token c), 0) [token c]
    (fun c' hc => hn.2 c' (List.mem_cons_of_mem c hc)) (firstHeaderState_matched (token c))
  have hmap : (c :: cs).map token = [token c] ++ cs.map token := rfl
  unfold Ordinary at ho
  rw [hmap] at ho
  revert h
  show Matched (nameState (c :: cs)).1 _ _ → _
  cases (nameState (c :: cs)).1 <;> simp_all [Matched, HeaderState.named]

theorem token_token (c : UInt8) : token (token c) = token c :=
  forall_byte (p := fun c => token (token c) = token c) (by decide +kernel) c

/-- Names are matched without regard to case. -/
theorem fieldStep_token (s : HeaderState × Nat) {c : UInt8} (hc : token c ≠ 0) :
    fieldStep s (token c) = fieldStep s c := by
  have hblank : ∀ a : UInt8, token a ≠ 0 → a ≠ chr ' ' := by
    rintro a ha rfl
    exact ha (by decide)
  have hc' : token (token c) ≠ 0 := by rw [token_token]; exact hc
  unfold fieldStep fieldChar
  simp only [token_token, if_pos (hblank c hc), if_pos (hblank _ hc')]

theorem nameState_map_token : ∀ {name : Bytes}, (∀ c ∈ name, token c ≠ 0) →
    nameState (name.map token) = nameState name
  | [], _ => rfl
  | c :: cs, h => by
    rw [List.map_cons, nameState, nameState, List.foldl_map, token_token]
    have hcs : ∀ (s : HeaderState × Nat), cs.foldl (fun s c => fieldStep s (token c)) s =
        cs.foldl fieldStep s := by
      intro s
      exact List.foldl_ext _ _ s fun s c hc => fieldStep_token s (h c (List.mem_cons_of_mem _ hc))
    exact hcs _

theorem nameState_contentLength {name : Bytes} (hn : IsName name)
    (h : name.map token = ascii "content-length") : (nameState name).1 = .h_content_length := by
  rw [← nameState_map_token hn.2, h]
  decide

end

/-! ## Reading a name -/

section
variable {δ : Type} {l : Loop (Handler δ)} {st : Settings (Handler δ)} {setHeader : δ → Bytes → Bytes → δ}

/-- No message has been completed. -/
def Unfinished (l : Loop (Handler δ)) : Prop := l.user.finished = false

/-- The bytes lead from one state of the loop to another, and complete no message before the last. -/
abbrev Reads (st : Settings (Handler δ)) : Bytes → Loop (Handler δ) → Loop (Handler δ) → Prop :=
  Leads (step st) Unfinished

/-- The callbacks for headers are those of the parsers. -/
structure TakesHeaders (st : Settings (Handler δ)) (setHeader : δ → Bytes → Bytes → δ) : Prop where
  field : st.onData .header_field = onHeaderField
  value : st.onData .header_value = onHeaderValue setHeader

theorem dispatch_headerField (st : Settings (Handler δ)) {c : UInt8} (hs : l.state = .s_header_field)
    (hc : token c ≠ 0) :
    dispatch st c l = .ok { l with
      headerState := (fieldStep (l.headerState, l.index) c).1
      index := (fieldStep (l.headerState, l.index) c).2
      run := l.run + 1 } := by
  have hd : dispatch st c l = headerField st c l := by rw [dispatch, hs]
  rw [hd, headerField, if_pos hc, fieldChar_eq]

/-- The inner loop of `s_header_field`, once it runs. -/
theorem reads_fieldChars (st : Settings (Handler δ)) : ∀ (cs d : Bytes) (l : Loop (Handler δ)), Unfinished l →
    (∀ c ∈ cs, token c ≠ 0) → l.state = .s_header_field → l.marks = oneMark .header_field d →
    l.run ≠ 0 →
    Reads st cs l { l with
      headerState := (cs.foldl fieldStep (l.headerState, l.index)).1
      index := (cs.foldl fieldStep (l.headerState, l.index)).2
      run := l.run + cs.length
      marks := oneMark .header_field (d ++ cs) }
  | [], d, l, _, _, _, hm, _ => by
    rw [List.append_nil, ← hm]
    exact Leads.nil
  | c :: cs, d, l, hp, hcs, hs, hm, hrun => by
    have hrest := reads_fieldChars st cs (d ++ [c])
      { l with
        headerState := (fieldStep (l.headerState, l.index) c).1
        index := (fieldStep (l.headerState, l.index) c).2
        run := l.run + 1, marks := oneMark .header_field (d ++ [c]) }
      hp (fun c hc => hcs c (List.mem_cons_of_mem _ hc)) hs rfl (Nat.succ_ne_zero l.run)
    rw [List.append_assoc, Nat.add_assoc, Nat.add_comm 1] at hrest
    exact Leads.cons hp
      (step_run_marked hrun (dispatch_headerField st hs (hcs c List.mem_cons_self)) hm) hrest

theorem add_ofNat (n : UInt32) (a b : Nat) :
    n + UInt32.ofNat a + UInt32.ofNat b = n + UInt32.ofNat (a + b) := by
  rw [UInt32.add_assoc, ← UInt32.ofNat_add]

/-- The colon behind a name hands the name over. -/
theorem dispatch_colon (hst : TakesHeaders st setHeader) {d : Bytes} {n : UInt32}
    (hs : l.state = .s_header_field) (hm : l.marks = oneMark .header_field d)
    (hroom : l.nread.toNat + l.run ≤ maxHeaderSize.toNat) (hn : l.nread + UInt32.ofNat l.run = n) :
    dispatch st (chr ':') l = .ok { l with
      state := .s_header_value_discard_ws, nread := n, run := 0
      user := { l.user with field := d }, marks := noMarks } := by
  have hd : dispatch st (chr ':') l = headerField st (chr ':') l := by rw [dispatch, hs]
  have hcount : ({ l with run := 0 } : Loop (Handler δ)).countHeaderSize l.run =
      .ok { l with run := 0, nread := n } := by
    rw [← hn]
    exact countHeaderSize_ok hroom
  rw [hd, headerField, if_neg (by decide), hcount]
  simp only [bind, Except.bind, if_pos]
  refine callback_oneMark (d := d) (by exact hm) ?_ 0
  rw [hst.field]
  rfl

/-- The rest of a name and the colon. -/
theorem reads_fieldRest (hst : TakesHeaders st setHeader) {cs d : Bytes} (hp : Unfinished l)
    (hcs : ∀ c ∈ cs, token c ≠ 0) (hs : l.state = .s_header_field)
    (hm : l.marks = oneMark .header_field d) (hrun : l.run = 0)
    (hroom : l.nread.toNat + (cs.length + 1) ≤ maxHeaderSize.toNat) :
    Reads st (cs ++ [chr ':']) l { l with
      state := .s_header_value_discard_ws
      headerState := (cs.foldl fieldStep (l.headerState, l.index)).1
      index := (cs.foldl fieldStep (l.headerState, l.index)).2
      nread := l.nread + UInt32.ofNat (cs.length + 1), run := 0
      user := { l.user with field := d ++ cs }, marks := noMarks } := by
  have hsucc : (l.nread + 1).toNat = l.nread.toNat + 1 := nread_succ (by omega)
  cases cs with
  | nil =>
    rw [List.append_nil]
    refine Leads.single hp (step_head (by rw [hs]; rfl) hrun hroom (dispatch_colon hst hs hm ?_ ?_) rfl)
    · show (l.nread + 1).toNat + l.run ≤ maxHeaderSize.toNat
      rw [hrun, hsucc]
      exact hroom
    · show l.nread + 1 + UInt32.ofNat l.run = _
      rw [hrun]
      exact add_ofNat l.nread 1 0
  | cons c cs =>
    -- the first byte is counted at once, the others when the inner loop ends
    have hfirst := dispatch_headerField st (l := l.counted) hs (hcs c List.mem_cons_self)
    have hchars := reads_fieldChars st cs (d ++ [c])
      { l with
        headerState := (fieldStep (l.headerState, l.index) c).1
        index := (fieldStep (l.headerState, l.index) c).2
        nread := l.nread + 1, run := l.run + 1, marks := oneMark .header_field (d ++ [c]) }
      hp (fun c hc => hcs c (List.mem_cons_of_mem _ hc)) hs rfl (Nat.succ_ne_zero l.run)
    rw [List.append_assoc] at hchars
    refine Leads.cons hp (step_head_marked (by rw [hs]; rfl) hrun (by omega) hfirst hm)
      (hchars.append (Leads.single hp (step_run ?_ (dispatch_colon hst hs rfl ?_ ?_) rfl)))
    · exact fun h => absurd (Nat.add_eq_zero_iff.mp h).1 (Nat.succ_ne_zero l.run)
    · show (l.nread + 1).toNat + (l.run + 1 + cs.length) ≤ maxHeaderSize.toNat
      rw [hsucc, hrun]
      rw [List.length_cons] at hroom
      omega
    · show l.nread + 1 + UInt32.ofNat (l.run + 1 + cs.length) = _
      rw [hrun]
      refine (add_ofNat l.nread 1 (0 + 1 + cs.length)).trans ?_
      congr 2
      rw [List.length_cons]
      omega

/-- The loop at the start of a header line. -/
structure AtLine {σ : Type} (l : Loop σ) : Prop where
  state : l.state = .s_header_field_start
  marks : l.marks = noMarks
  run : l.run = 0
  scanned : l.scanned = 0
  lenient : l.lenientHttpHeaders = false

theorem dispatch_headerFieldStart (st : Settings (Handler δ)) {c : UInt8}
    (hs : l.state = .s_header_field_start) (hm : l.marks = noMarks) (hc : token c ≠ 0) :
    dispatch st c l = .ok { l with
      state := .s_header_field, headerState := firstHeaderState (token c), index := 0
      marks := oneMark .header_field [] } := by
  have hcr : c ≠ CR := by
    rintro rfl
    exact hc (by decide)
  have hlf : c ≠ LF := by
    rintro rfl
    exact hc (by decide)
  have hd : dispatch st c l = headerFieldStart st c l := by rw [dispatch, hs]
  rw [hd, headerFieldStart, if_neg hcr, if_neg hlf, if_neg hc, mark_noMarks hm]

/-- The loop behind the name of a header line that began at `l`, `n` bytes of which have been read. -/
def Loop.afterName (l : Loop (Handler δ)) (s : State) (name : Bytes) (n : Nat) : Loop (Handler δ) :=
  { l with
    state := s
    headerState := (nameState name).1, index := (nameState name).2
    nread := l.nread + UInt32.ofNat n, run := 0
    user := { l.user with field := name }, marks := noMarks }

theorem ofNat_succ_add (n : UInt32) (a : Nat) :
    n + UInt32.ofNat (a + 1) = n + 1 + UInt32.ofNat a := by
  rw [Nat.add_comm a 1]
  exact (add_ofNat n 1 a).symm

/-- A name and its colon, from the start of a line. -/
theorem reads_name (hst : TakesHeaders st setHeader) (h : AtLine l) (hp : Unfinished l) {name : Bytes}
    (hn : IsName name) (hroom : l.nread.toNat + (name.length + 1) ≤ maxHeaderSize.toNat) :
    Reads st (name ++ [chr ':']) l (l.afterName .s_header_value_discard_ws name (name.length + 1)) := by
  obtain ⟨c, cs, rfl⟩ := List.exists_cons_of_ne_nil hn.1
  rw [List.length_cons] at hroom
  have hsucc : (l.nread + 1).toNat = l.nread.toNat + 1 := nread_succ (by omega)
  have hfirst := dispatch_headerFieldStart st (l := l.counted) h.state h.marks
    (hn.2 c List.mem_cons_self)
  have hrest := reads_fieldRest hst (d := [c])
    (l := { l with
      state := .s_header_field, headerState := firstHeaderState (token c), index := 0
      nread := l.nread + 1, marks := oneMark .header_field [c] })
    hp (fun c' hc => hn.2 c' (List.mem_cons_of_mem c hc)) rfl rfl h.run
    (by show (l.nread + 1).toNat + _ ≤ _; omega)
  refine Leads.cons hp (step_head_marked (by rw [h.state]; rfl) h.run (by omega) hfirst rfl) ?_
  rw [Loop.afterName, List.length_cons, ofNat_succ_add]
  exact hrest

theorem afterName_counted (s : State) (name : Bytes) (n : Nat) :
    (l.afterName s name n).counted = l.afterName s name (n + 1) := by
  unfold Loop.counted Loop.afterName
  rw [← add_ofNat l.nread n 1]
  rfl

theorem reads_blanks (st : Settings (Handler δ)) (hp : Unfinished l) (name : Bytes) :
    ∀ (bs : Bytes) (n : Nat), (∀ b ∈ bs, b = chr ' ' ∨ b = 9) →
    l.nread.toNat + (n + bs.length) ≤ maxHeaderSize.toNat →
    Reads st bs (l.afterName .s_header_value_discard_ws name n)
      (l.afterName .s_header_value_discard_ws name (n + bs.length))
  | [], n, _, _ => Leads.nil
  | b :: bs, n, hbs, hroom => by
    rw [List.length_cons] at hroom
    have hn : (l.nread + UInt32.ofNat n).toNat = l.nread.toNat + n := nread_add (by omega)
    have hrest := reads_blanks st hp name bs (n + 1) (fun b hb => hbs b (List.mem_cons_of_mem _ hb)) (by omega)
    have hfirst : dispatch st b (l.afterName .s_header_value_discard_ws name n).counted =
        .ok (l.afterName .s_header_value_discard_ws name (n + 1)) := by
      rw [afterName_counted]
      exact if_pos (hbs b List.mem_cons_self)
    rw [Nat.add_assoc, Nat.add_comm 1, ← List.length_cons (a := b)] at hrest
    exact Leads.cons hp (step_head rfl rfl (by show (l.nread + UInt32.ofNat n).toNat + 1 ≤ _; omega)
      hfirst rfl) hrest

end

/-! ## Reading a value -/

/-- What the bytes of a value can change. -/
structure ValueState where
  headerState : HeaderState
  index : Nat
  flags : Flags
  contentLength : UInt64
  scanned : Nat

section
variable {σ : Type}

def Loop.inValue (l : Loop σ) (v : ValueState) : Loop σ :=
  { l with
    headerState := v.headerState, index := v.index, flags := v.flags, contentLength := v.contentLength
    scanned := v.scanned }

/-- The bytes of `value` keep `Q`, which is about those read so far. -/
def Follows (σ : Type) (value : Bytes) (Q : Bytes → ValueState → Prop) : Prop :=
  ∀ (l : Loop σ) (pre : Bytes) (c : UInt8) (post : Bytes) (v : ValueState), value = pre ++ c :: post →
    Q pre v → ∃ v', valueChar c (l.inValue v) = .ok (l.inValue v') ∧ Q (pre ++ [c]) v' ∧
      v'.scanned ≤ v.scanned + 1

/-- A byte that may stand in a value. -/
def ValueChar (c : UInt8) : Prop := isHeaderChar c = true ∧ c ≠ CR ∧ c ≠ LF

instance (c : UInt8) : Decidable (ValueChar c) := inferInstanceAs (Decidable (_ ∧ _ ∧ _))

theorem dispatch_headerValue (st : Settings σ) {l l' : Loop σ} {c : UInt8} (hs : l.state = .s_header_value)
    (hl : l.lenientHttpHeaders = false) (hscan : l.scanned < maxHeaderSize.toNat) (hc : ValueChar c)
    (h : valueChar c l = .ok l') : dispatch st c l = .ok { l' with run := l'.run + 1 } := by
  have hd : dispatch st c l = headerValue st c l := by rw [dispatch, hs]
  rw [hd, headerValue, if_neg (Nat.ne_of_lt hscan), if_neg hc.2.1, if_neg hc.2.2,
    if_neg (by simp [hl, hc.1]), h]
  rfl

end

section
variable {δ : Type} {l : Loop (Handler δ)} {st : Settings (Handler δ)} {setHeader : δ → Bytes → Bytes → δ}

/-- The inner loop of `s_header_value`, once it runs. -/
theorem reads_valueChars (st : Settings (Handler δ)) {value : Bytes} {Q : Bytes → ValueState → Prop}
    (hf : Follows (Handler δ) value Q) (hv : ∀ c ∈ value, ValueChar c) :
    ∀ (cs pre : Bytes) (v : ValueState) (l : Loop (Handler δ)), value = pre ++ cs → Q pre v →
      Unfinished l → l.state = .s_header_value → l.lenientHttpHeaders = false →
      l.marks = oneMark .header_value pre → l.run ≠ 0 →
      v.scanned + cs.length < maxHeaderSize.toNat →
      ∃ v', Q value v' ∧ v'.scanned ≤ v.scanned + cs.length ∧
        Reads st cs (l.inValue v)
          ({ l with run := l.run + cs.length, marks := oneMark .header_value value }.inValue v')
  | [], pre, v, l, hval, hq, _, _, _, hm, _, _ => by
    rw [List.append_nil] at hval
    subst hval
    refine ⟨v, hq, Nat.le_refl _, ?_⟩
    rw [← hm]
    exact Leads.nil
  | c :: cs, pre, v, l, hval, hq, hp, hs, hl, hm, hrun, hscan => by
    rw [List.length_cons] at hscan
    obtain ⟨v₁, hrun₁, hq₁, hscan₁⟩ := hf l pre c cs v hval hq
    obtain ⟨v', hq', hscan', hrest⟩ := reads_valueChars st hf hv cs (pre ++ [c]) v₁
      { l with run := l.run + 1, marks := oneMark .header_value (pre ++ [c]) }
      (by rw [hval, List.append_assoc]; rfl) hq₁ hp hs hl rfl (Nat.succ_ne_zero l.run) (by omega)
    refine ⟨v', hq', by rw [List.length_cons]; omega, ?_⟩
    have hd : dispatch st c (l.inValue v) = .ok { l.inValue v₁ with run := l.run + 1 } :=
      dispatch_headerValue st hs hl (Nat.lt_of_le_of_lt (Nat.le_add_right _ _) hscan)
        (hv c (by rw [hval]; simp)) hrun₁
    rw [Nat.add_assoc, Nat.add_comm 1] at hrest
    exact Leads.cons hp (step_run_marked hrun hd hm) hrest

/-- What the callbacks for a header have done to the parser object. -/
def withHeader (setHeader : δ → Bytes → Bytes → δ) (u : Handler δ) (name value : Bytes) : Handler δ :=
  { u with field := name, data := setHeader u.data name value }

/-- The CR behind a value hands the value over. -/
theorem dispatch_valueCr (hst : TakesHeaders st setHeader) {d : Bytes} {n : UInt32}
    (hs : l.state = .s_header_value) (hm : l.marks = oneMark .header_value d)
    (hscan : l.scanned < maxHeaderSize.toNat)
    (hroom : l.nread.toNat + l.run ≤ maxHeaderSize.toNat) (hn : l.nread + UInt32.ofNat l.run = n) :
    dispatch st CR l = .ok { l with
      state := .s_header_almost_done, nread := n, run := 0, scanned := 0
      user := withHeader setHeader l.user l.user.field d, marks := noMarks } := by
  have hd : dispatch st CR l = headerValue st CR l := by rw [dispatch, hs]
  have hcb : ({ l with state := .s_header_almost_done, run := 0, scanned := 0 } :
      Loop (Handler δ)).callback st .header_value 0 = .ok { l with
        state := .s_header_almost_done, run := 0, scanned := 0
        user := withHeader setHeader l.user l.user.field d, marks := noMarks } := by
    refine callback_oneMark (d := d) (by exact hm) ?_ 0
    rw [hst.value]
    rfl
  rw [hd, headerValue, if_neg (Nat.ne_of_lt hscan), if_pos rfl]
  dsimp only
  rw [hcb]
  refine (countHeaderSize_ok (by exact hroom)).trans ?_
  rw [← hn]

/-- The rest of a value and its CR. -/
theorem reads_valueRest (hst : TakesHeaders st setHeader) {value : Bytes} {Q : Bytes → ValueState → Prop}
    (hf : Follows (Handler δ) value Q) (hv : ∀ c ∈ value, ValueChar c) (pre cs : Bytes) {v : ValueState}
    (hval : value = pre ++ cs) (hq : Q pre v) (hp : Unfinished l) (hs : l.state = .s_header_value)
    (hl : l.lenientHttpHeaders = false) (hm : l.marks = oneMark .header_value pre) (hrun : l.run = 0)
    (hscan : v.scanned = 0) (hroom : l.nread.toNat + (cs.length + 1) ≤ maxHeaderSize.toNat) :
    ∃ v', Q value v' ∧ Reads st (cs ++ [CR]) (l.inValue v)
      ({ l with
        state := .s_header_almost_done, nread := l.nread + UInt32.ofNat (cs.length + 1), run := 0
        user := withHeader setHeader l.user l.user.field value
        marks := noMarks }.inValue { v' with scanned := 0 }) := by
  have hsucc : (l.nread + 1).toNat = l.nread.toNat + 1 := nread_succ (by omega)
  have hzero : v.scanned < maxHeaderSize.toNat := by omega
  cases cs with
  | nil =>
    rw [List.append_nil] at hval
    subst hval
    refine ⟨v, hq, Leads.single hp
      (step_head (by rw [show (l.inValue v).state = _ from hs]; rfl) hrun hroom
        (dispatch_valueCr hst hs hm hzero ?_ ?_) rfl)⟩
    · show (l.nread + 1).toNat + l.run ≤ _
      rw [hrun, hsucc]
      exact hroom
    · show l.nread + 1 + UInt32.ofNat l.run = _
      rw [hrun]
      exact add_ofNat l.nread 1 0
  | cons c cs =>
    rw [List.length_cons] at hroom
    obtain ⟨v₁, hrun₁, hq₁, hscan₁⟩ := hf l.counted pre c cs v hval hq
    have hfirst : dispatch st c (l.inValue v).counted =
        .ok { l.counted.inValue v₁ with run := l.run + 1 } :=
      dispatch_headerValue st hs hl hzero (hv c (by rw [hval]; simp)) hrun₁
    obtain ⟨v', hq', hscan', hchars⟩ := reads_valueChars st hf hv cs (pre ++ [c]) v₁
      { l with nread := l.nread + 1, run := l.run + 1, marks := oneMark .header_value (pre ++ [c]) }
      (by rw [hval, List.append_assoc]; rfl) hq₁ hp hs hl rfl (Nat.succ_ne_zero l.run) (by omega)
    have hend : v'.scanned < maxHeaderSize.toNat := by omega
    refine ⟨v', hq', Leads.cons hp (step_head_marked (by rw [show (l.inValue v).state = _ from hs]; rfl)
      hrun (by show l.nread.toNat + 1 ≤ _; omega) hfirst hm)
      (hchars.append (Leads.single hp (step_run ?_ (dispatch_valueCr hst hs rfl hend ?_ ?_) rfl)))⟩
    · exact fun h => absurd (Nat.add_eq_zero_iff.mp h).1 (Nat.succ_ne_zero l.run)
    · show (l.nread + 1).toNat + (l.run + 1 + cs.length) ≤ maxHeaderSize.toNat
      omega
    · show l.nread + 1 + UInt32.ofNat (l.run + 1 + cs.length) = _
      refine (add_ofNat l.nread 1 (l.run + 1 + cs.length)).trans ?_
      congr 2
      rw [List.length_cons]
      omega

/-- The first byte of a value, behind a name that has left `hs`, starts what `Q` says. -/
def Starts (σ : Type) (hs : HeaderState) (flags : Flags) (contentLength : UInt64) (c : UInt8)
    (Q : Bytes → ValueState → Prop) : Prop :=
  ∀ l : Loop σ, l.headerState = hs → l.flags = flags → l.contentLength = contentLength →
    l.marks = noMarks → ∃ v, Q [c] v ∧ v.scanned = l.scanned ∧
      headerValueStart c l =
        .ok ({ l with state := .s_header_value, marks := oneMark .header_value [] }.inValue v)

/-- A header line. -/
def headerLine (name blanks value : Bytes) : Bytes := name ++ [chr ':'] ++ blanks ++ value ++ [CR, LF]

theorem headerLine_length (name blanks value : Bytes) :
    (headerLine name blanks value).length = name.length + blanks.length + value.length + 3 := by
  simp [headerLine]
  omega

/-- The first byte of a value. -/
theorem step_valueStart (st : Settings (Handler δ)) {name : Bytes} {c : UInt8} {n : Nat}
    {Q : Bytes → ValueState → Prop} (hc : ¬(c = chr ' ' ∨ c = 9)) (hv : ValueChar c)
    (hstart : Starts (Handler δ) (nameState name).1 l.flags l.contentLength c Q)
    (hroom : l.nread.toNat + (n + 1) ≤ maxHeaderSize.toNat) :
    ∃ v, Q [c] v ∧ v.scanned = l.scanned ∧
      step st c (l.afterName .s_header_value_discard_ws name n) = .ok (Loop.inValue
        { l.afterName .s_header_value name (n + 1) with marks := oneMark .header_value [c] } v) := by
  have hn : (l.nread + UInt32.ofNat n).toNat = l.nread.toNat + n := nread_add (by omega)
  obtain ⟨v, hq, hscan, hrun⟩ := hstart (l.afterName .s_header_value_discard_ws name (n + 1)) rfl rfl rfl rfl
  refine ⟨v, hq, hscan, ?_⟩
  have hd : dispatch st c (l.afterName .s_header_value_discard_ws name n).counted =
      headerValueDiscardWs c (l.afterName .s_header_value_discard_ws name (n + 1)) := by
    rw [afterName_counted]
    rfl
  rw [headerValueDiscardWs, if_neg hc, if_neg hv.2.1, if_neg hv.2.2, hrun] at hd
  exact step_head_marked rfl rfl (by show (l.nread + UInt32.ofNat n).toNat + 1 ≤ _; omega) hd rfl

theorem dispatch_headerAlmostDone (st : Settings (Handler δ)) (hs : l.state = .s_header_almost_done) :
    dispatch st LF l = .ok { l with state := .s_header_value_lws } := by
  have hd : dispatch st LF l = headerAlmostDone LF l := by rw [dispatch, hs]
  rw [hd]
  rfl

/-- A line whose value is not empty, up to its end. -/
theorem reads_valueLine (hst : TakesHeaders st setHeader) (h : AtLine l) (hp : Unfinished l)
    {name blanks cs : Bytes} {c : UInt8} {Q : Bytes → ValueState → Prop} (hn : IsName name)
    (hb : ∀ b ∈ blanks, b = chr ' ' ∨ b = 9) (hc : ¬(c = chr ' ' ∨ c = 9))
    (hv : ∀ c' ∈ c :: cs, ValueChar c')
    (hstart : Starts (Handler δ) (nameState name).1 l.flags l.contentLength c Q)
    (hf : Follows (Handler δ) (c :: cs) Q)
    (hroom : l.nread.toNat + (headerLine name blanks (c :: cs)).length ≤ maxHeaderSize.toNat) :
    ∃ v, Q (c :: cs) v ∧ Reads st (headerLine name blanks (c :: cs)) l
      ({ l with
        state := .s_header_value_lws
        nread := l.nread + UInt32.ofNat (headerLine name blanks (c :: cs)).length, run := 0
        user := withHeader setHeader l.user name (c :: cs)
        marks := noMarks }.inValue { v with scanned := 0 }) := by
  have hlen := headerLine_length name blanks (c :: cs)
  rw [List.length_cons] at hlen
  have hname := reads_name hst h hp hn (by omega)
  have hblanks := reads_blanks st hp name blanks (name.length + 1) hb (by omega)
  obtain ⟨v₀, hq₀, hscan₀, hfirst⟩ := step_valueStart st (n := name.length + 1 + blanks.length) hc
    (hv c List.mem_cons_self) hstart (by omega)
  have hcount : (l.nread + UInt32.ofNat (name.length + 1 + blanks.length + 1)).toNat =
      l.nread.toNat + (name.length + 1 + blanks.length + 1) := nread_add (by omega)
  obtain ⟨v, hq, hrest⟩ := reads_valueRest hst hf hv [c] cs rfl hq₀ hp rfl h.lenient rfl rfl
    (hscan₀.trans h.scanned)
    (l := { l.afterName .s_header_value name (name.length + 1 + blanks.length + 1) with
        marks := oneMark .header_value [c] })
    (by
      show (l.nread + UInt32.ofNat (name.length + 1 + blanks.length + 1)).toNat + _ ≤ _
      omega)
  refine ⟨v, hq, ?_⟩
  have hline : headerLine name blanks (c :: cs) =
      name ++ [chr ':'] ++ (blanks ++ ([c] ++ (cs ++ [CR] ++ [LF]))) := by simp [headerLine]
  have hnread : l.nread + UInt32.ofNat (headerLine name blanks (c :: cs)).length =
      l.nread + UInt32.ofNat (name.length + 1 + blanks.length + 1) + UInt32.ofNat (cs.length + 1) + 1 := by
    refine Eq.trans ?_ (add_ofNat _ _ 1).symm
    rw [add_ofNat, hlen]
    congr 2
    omega
  rw [hnread, hline]
  refine hname.append (hblanks.append ((Leads.single (by exact hp) hfirst).append (hrest.append
    (Leads.single (by exact hp) (step_head rfl rfl ?_ (dispatch_headerAlmostDone st rfl) rfl)))))
  show (l.nread + UInt32.ofNat (name.length + 1 + blanks.length + 1) + UInt32.ofNat (cs.length + 1)).toNat
    + 1 ≤ _
  rw [add_ofNat, nread_add (by omega)]
  omega

/-- The next byte, unless it is a blank, finds `m` as if it were `l`. -/
def Joins (st : Settings (Handler δ)) (m l : Loop (Handler δ)) : Prop :=
  ∀ ch, ¬(ch = chr ' ' ∨ ch = 9) → m.nread.toNat + 1 ≤ maxHeaderSize.toNat → step st ch m = step st ch l

theorem joins_of_dispatch {m l : Loop (Handler δ)} (hm : m.state.parsingHeader = true)
    (hl : l.state.parsingHeader = true) (hmr : m.run = 0) (hlr : l.run = 0) (hn : l.nread = m.nread)
    (h : ∀ ch, ¬(ch = chr ' ' ∨ ch = 9) → dispatch st ch m.counted = dispatch st ch l.counted) :
    Joins st m l := by
  intro ch hch hroom
  rw [step, step, countByte_counted hm hmr hroom, countByte_counted hl hlr (by rw [hn]; exact hroom)]
  exact congrArg (fun r => r >>= fun l => Except.ok (l.advance ch)) (h ch hch)

/-- Behind a line with a value: the flag that the value has earned is set. -/
theorem joins_lws {m : Loop (Handler δ)} (hs : m.state = .s_header_value_lws) (hrun : m.run = 0) :
    Joins st m { m with state := .s_header_field_start, flags := headerFlags m } := by
  refine joins_of_dispatch (by rw [hs]; rfl) rfl hrun hrun rfl ?_
  intro ch hch
  have hl : dispatch st ch m.counted = headerValueLws st ch m.counted := by
    rw [dispatch, show m.counted.state = _ from hs]
  rw [hl, headerValueLws, if_neg hch]
  rfl

/-- Behind a line without a value: the empty value is handed over as well. -/
theorem joins_discardLws (hst : TakesHeaders st setHeader) {m : Loop (Handler δ)}
    (hs : m.state = .s_header_value_discard_lws) (hrun : m.run = 0) (hm : m.marks = noMarks)
    (hh : m.headerState ≠ .h_content_length) :
    Joins st m { m with
      state := .s_header_field_start, flags := headerFlags m
      user := withHeader setHeader m.user m.user.field [], marks := noMarks } := by
  refine joins_of_dispatch (by rw [hs]; rfl) rfl hrun hrun rfl ?_
  intro ch hch
  have hl : dispatch st ch m.counted = headerValueDiscardLws st ch m.counted := by
    rw [dispatch, show m.counted.state = _ from hs]
  have hcb : (Loop.mark { m.counted with flags := headerFlags m.counted, state := .s_header_field_start }
      .header_value).callback st .header_value 1 = .ok (Loop.counted { m with
        state := .s_header_field_start, flags := headerFlags m
        user := withHeader setHeader m.user m.user.field [], marks := noMarks }) := by
    rw [mark_noMarks (by exact hm)]
    refine callback_oneMark rfl ?_ 1
    rw [hst.value]
    rfl
  rw [hl, headerValueDiscardLws, if_neg hch, if_neg (show m.counted.headerState ≠ _ from hh), hcb]
  rfl

end

/-! ## Lines that decide nothing about the body -/

/-- The same flags, those about the connection apart. -/
structure Flags.SameBody (a b : Flags) : Prop where
  chunked : a.chunked = b.chunked
  trailing : a.trailing = b.trailing
  upgrade : a.upgrade = b.upgrade
  skipbody : a.skipbody = b.skipbody
  contentlength : a.contentlength = b.contentlength

theorem Flags.SameBody.refl (a : Flags) : a.SameBody a := ⟨rfl, rfl, rfl, rfl, rfl⟩

/-- The header states of a value that decides nothing about the body. -/
def HeaderState.plain : HeaderState → Bool
  | .h_general | .h_matching_connection_token_start | .h_matching_connection_keep_alive
  | .h_matching_connection_close | .h_matching_connection_upgrade | .h_matching_connection_token
  | .h_connection_keep_alive | .h_connection_close | .h_connection_upgrade => true
  | _ => false

/-- What such a value keeps. -/
structure Plain (flags : Flags) (contentLength : UInt64) (v : ValueState) : Prop where
  plain : v.headerState.plain = true
  flags_same : v.flags.SameBody flags
  length_eq : v.contentLength = contentLength

section
variable {σ : Type} {flags : Flags} {n : UInt64}

theorem headerFlags_sameBody {l : Loop σ} (hp : l.headerState.plain = true) (hf : l.flags.SameBody flags) :
    (headerFlags l).SameBody flags := by
  obtain ⟨h₁, h₂, h₃, h₄, h₅⟩ := hf
  unfold headerFlags
  split
  · exact ⟨h₁, h₂, h₃, h₄, h₅⟩
  · exact ⟨h₁, h₂, h₃, h₄, h₅⟩
  · rename_i hs
    rw [hs] at hp
    cases hp
  · exact ⟨h₁, h₂, h₃, h₄, h₅⟩
  · exact ⟨h₁, h₂, h₃, h₄, h₅⟩

/-- A value that is matched with a word stays plain. -/
theorem matching_plain (l : Loop σ) {v : ValueState} (word : String) (c : UInt8)
    (found other : HeaderState) (hfound : found.plain = true) (hother : other.plain = true)
    (h : Plain flags n v) :
    ∃ v', (l.inValue v).matching word c found other = l.inValue v' ∧ Plain flags n v' ∧
      v'.scanned ≤ v.scanned + 1 := by
  refine ⟨{ v with
    headerState := ((l.inValue v).matching word c found other).headerState
    index := ((l.inValue v).matching word c found other).index },
    rfl, ⟨?_, h.flags_same, h.length_eq⟩, Nat.le_succ _⟩
  unfold Loop.matching
  dsimp only
  split
  · exact hother
  · split
    · exact hfound
    · exact h.plain

/-- The bytes of a plain value neither fail nor decide anything about the body. -/
theorem follows_plain (value : Bytes) : Follows σ value fun _ => Plain flags n := by
  intro l pre c post v _ h
  have hplain := h.plain
  have hearned := headerFlags_sameBody (l := l.inValue v) h.plain h.flags_same
  obtain ⟨hs, i, fl, cl, s⟩ := v
  have hkeep : ∀ hs' i', HeaderState.plain hs' = true → Plain flags n ⟨hs', i', fl, cl, s⟩ :=
    fun _ _ h' => ⟨h', h.flags_same, h.length_eq⟩
  cases hs
  case h_general =>
    exact ⟨⟨.h_general, i, fl, cl, s + 1⟩, rfl, ⟨rfl, h.flags_same, h.length_eq⟩, Nat.le_refl _⟩
  case h_matching_connection_token_start =>
    unfold valueChar
    dsimp only [Loop.inValue]
    split_ifs
    all_goals exact ⟨⟨_, i, fl, cl, s⟩, rfl, hkeep _ _ rfl, Nat.le_succ _⟩
  case h_matching_connection_keep_alive =>
    obtain ⟨v', hv, hp, hscan⟩ := matching_plain l "keep-alive" (lower c) .h_connection_keep_alive
      .h_matching_connection_token rfl rfl h
    exact ⟨v', congrArg Except.ok hv, hp, hscan⟩
  case h_matching_connection_close =>
    obtain ⟨v', hv, hp, hscan⟩ := matching_plain l "close" (lower c) .h_connection_close
      .h_matching_connection_token rfl rfl h
    exact ⟨v', congrArg Except.ok hv, hp, hscan⟩
  case h_matching_connection_upgrade =>
    obtain ⟨v', hv, hp, hscan⟩ := matching_plain l "upgrade" (lower c) .h_connection_upgrade
      .h_matching_connection_token rfl rfl h
    exact ⟨v', congrArg Except.ok hv, hp, hscan⟩
  case h_matching_connection_token =>
    unfold valueChar
    dsimp only [Loop.inValue]
    split_ifs
    all_goals exact ⟨⟨_, _, fl, cl, s⟩, rfl, hkeep _ _ rfl, Nat.le_succ _⟩
  case h_connection_keep_alive | h_connection_close | h_connection_upgrade =>
    unfold valueChar
    dsimp only [Loop.inValue]
    split_ifs
    · exact ⟨⟨_, _, _, cl, s⟩, rfl, ⟨rfl, hearned, h.length_eq⟩, Nat.le_succ _⟩
    all_goals exact ⟨⟨_, _, fl, cl, s⟩, rfl, hkeep _ _ rfl, Nat.le_succ _⟩
  all_goals cases hplain

theorem starts_plain {hs : HeaderState} (hn : hs.named = true) (c : UInt8) :
    Starts σ hs flags n c fun _ => Plain flags n := by
  intro l hh hf hl hm
  have hkeep : ∀ hs', HeaderState.plain hs' = true → Plain flags n ⟨hs', 0, l.flags, l.contentLength, l.scanned⟩ :=
    fun _ h' => ⟨h', by rw [hf]; exact Flags.SameBody.refl flags, hl⟩
  unfold headerValueStart
  rw [mark_noMarks hm]
  dsimp only
  subst hh
  split
  case h_1 h | h_2 h | h_3 h | h_4 h | h_6 h =>
    rw [h] at hn
    cases hn
  case h_5 =>
    split_ifs
    all_goals exact ⟨⟨_, 0, l.flags, l.contentLength, l.scanned⟩, hkeep _ rfl, rfl, rfl⟩
  case h_7 =>
    exact ⟨⟨_, 0, l.flags, l.contentLength, l.scanned⟩, hkeep _ rfl, rfl, rfl⟩

end

section
variable {δ : Type} {l : Loop (Handler δ)} {st : Settings (Handler δ)} {setHeader : δ → Bytes → Bytes → δ}

/-- The value of a header as it is sent: without blanks in front. -/
def IsValue (value : Bytes) : Prop :=
  (∀ c ∈ value, ValueChar c) ∧ ∀ c ∈ value.head?, ¬(c = chr ' ' ∨ c = 9)

instance (value : Bytes) : Decidable (IsValue value) :=
  @instDecidableAnd _ _ (List.decidableBAll _ _) (Option.decidableForallMem _)

/-- The line `bytes` leads from the start of a line, `l`, to the start of the next one, `l'`. -/
def ReadsLine (st : Settings (Handler δ)) (bytes : Bytes) (l l' : Loop (Handler δ)) : Prop :=
  ∃ m, Reads st bytes l m ∧ Unfinished m ∧ m.nread = l'.nread ∧ Joins st m l'

/-- The start of the line behind one of `n` bytes that began at `l`. -/
def Loop.nextLine (l : Loop (Handler δ)) (v : ValueState) (n : Nat) (u : Handler δ) : Loop (Handler δ) :=
  Loop.inValue { l with
    state := .s_header_field_start, nread := l.nread + UInt32.ofNat n, run := 0, user := u
    marks := noMarks } { v with scanned := 0 }

theorem AtLine.nextLine (h : AtLine l) (v : ValueState) (n : Nat) (u : Handler δ) :
    AtLine (l.nextLine v n u) := ⟨rfl, rfl, rfl, rfl, h.lenient⟩

/-- A line with a value, as far as `Q` says what the value does. -/
theorem readsLine_value (hst : TakesHeaders st setHeader) (h : AtLine l) (hp : Unfinished l)
    {name blanks cs : Bytes} {c : UInt8} {Q : Bytes → ValueState → Prop} (hn : IsName name)
    (hb : ∀ b ∈ blanks, b = chr ' ' ∨ b = 9) (hv : IsValue (c :: cs))
    (hstart : Starts (Handler δ) (nameState name).1 l.flags l.contentLength c Q)
    (hf : Follows (Handler δ) (c :: cs) Q)
    (hroom : l.nread.toNat + (headerLine name blanks (c :: cs)).length ≤ maxHeaderSize.toNat) :
    ∃ v, Q (c :: cs) v ∧ ReadsLine st (headerLine name blanks (c :: cs)) l
      (l.nextLine { v with flags := headerFlags (l.inValue v) }
        (headerLine name blanks (c :: cs)).length (withHeader setHeader l.user name (c :: cs))) := by
  obtain ⟨v, hq, hrun⟩ := reads_valueLine hst h hp hn hb (hv.2 c rfl) hv.1 hstart hf hroom
  exact ⟨v, hq, _, hrun, hp, rfl, joins_lws rfl rfl⟩

/-- A byte behind the name that only moves the state. -/
theorem step_afterName (st : Settings (Handler δ)) (l : Loop (Handler δ)) (s s' : State) (ch : UInt8)
    (name : Bytes) (n : Nat) (hs : s.parsingHeader = true)
    (h : dispatch st ch (l.afterName s name (n + 1)) = .ok (l.afterName s' name (n + 1)))
    (hroom : l.nread.toNat + (n + 1) ≤ maxHeaderSize.toNat) :
    step st ch (l.afterName s name n) = .ok (l.afterName s' name (n + 1)) := by
  refine step_head hs rfl ?_ (by rw [afterName_counted]; exact h) rfl
  show (l.nread + UInt32.ofNat n).toNat + 1 ≤ _
  rw [nread_add (by omega)]
  exact hroom

theorem headerFlags_named {σ : Type} {l : Loop σ} (h : l.headerState.named = true) :
    headerFlags l = l.flags := by
  unfold headerFlags
  split
  case h_5 => rfl
  all_goals
    rename_i hs
    rw [hs] at h
    cases h

/-- A line without a value. -/
theorem readsLine_empty (hst : TakesHeaders st setHeader) (h : AtLine l) (hp : Unfinished l)
    {name blanks : Bytes} (hn : IsName name) (hnamed : (nameState name).1.named = true)
    (hb : ∀ b ∈ blanks, b = chr ' ' ∨ b = 9)
    (hroom : l.nread.toNat + (headerLine name blanks []).length ≤ maxHeaderSize.toNat) :
    ReadsLine st (headerLine name blanks []) l
      (l.nextLine ⟨(nameState name).1, (nameState name).2, l.flags, l.contentLength, 0⟩
        (headerLine name blanks []).length (withHeader setHeader l.user name [])) := by
  have hlen := headerLine_length name blanks []
  rw [List.length_nil] at hlen
  have hname := reads_name hst h hp hn (by omega)
  have hblanks := reads_blanks st hp name blanks (name.length + 1) hb (by omega)
  have hcr := step_afterName st l .s_header_value_discard_ws .s_header_value_discard_ws_almost_done CR name
    (name.length + 1 + blanks.length) rfl rfl (by omega)
  have hlf := step_afterName st l .s_header_value_discard_ws_almost_done .s_header_value_discard_lws LF name
    (name.length + 1 + blanks.length + 1) rfl rfl (by omega)
  have hh : (nameState name).1 ≠ .h_content_length := by
    intro h
    rw [h] at hnamed
    cases hnamed
  have hjoin := joins_discardLws hst
    (m := l.afterName .s_header_value_discard_lws name (name.length + 1 + blanks.length + 2)) rfl rfl rfl hh
  have hline : headerLine name blanks [] = name ++ [chr ':'] ++ (blanks ++ ([CR] ++ [LF])) := by
    simp [headerLine]
  refine ⟨l.afterName .s_header_value_discard_lws name (name.length + 1 + blanks.length + 2), ?_, hp, ?_, ?_⟩
  · rw [hline]
    exact hname.append (hblanks.append ((Leads.single (by exact hp) hcr).append
      (Leads.single (by exact hp) hlf)))
  · show l.nread + UInt32.ofNat _ = l.nread + UInt32.ofNat _
    rw [hlen]
    congr 2
    omega
  · have hflags : headerFlags (l.afterName .s_header_value_discard_lws name
        (name.length + 1 + blanks.length + 2)) = l.flags := headerFlags_named hnamed
    rw [hflags] at hjoin
    convert hjoin using 1
    unfold Loop.nextLine Loop.inValue Loop.afterName
    rw [h.scanned, hlen, show name.length + blanks.length + 0 + 3 =
      name.length + 1 + blanks.length + 2 by omega]
    rfl

/-- A line that decides nothing about the body sets its header. -/
theorem readsLine_ordinary (hst : TakesHeaders st setHeader) (h : AtLine l) (hp : Unfinished l)
    {name blanks value : Bytes} (hn : IsName name) (ho : Ordinary name)
    (hb : ∀ b ∈ blanks, b = chr ' ' ∨ b = 9) (hv : IsValue value)
    (hroom : l.nread.toNat + (headerLine name blanks value).length ≤ maxHeaderSize.toNat) :
    ∃ v, v.flags.SameBody l.flags ∧ v.contentLength = l.contentLength ∧
      ReadsLine st (headerLine name blanks value) l
        (l.nextLine v (headerLine name blanks value).length (withHeader setHeader l.user name value)) := by
  have hnamed := nameState_named hn ho
  cases value with
  | cons c cs =>
    obtain ⟨v, hq, hrun⟩ := readsLine_value hst h hp hn hb hv (starts_plain hnamed c)
      (follows_plain _) hroom
    exact ⟨{ v with flags := headerFlags (l.inValue v) },
      headerFlags_sameBody (l := l.inValue v) hq.plain hq.flags_same, hq.length_eq, hrun⟩
  | nil => exact ⟨_, Flags.SameBody.refl _, rfl, readsLine_empty hst h hp hn hnamed hb hroom⟩

end

/-! ## The length of the body -/

/-- The number that decimal digits stand for. -/
def decimal (ds : Bytes) : Nat := ds.foldl (fun n d => n * 10 + (d - chr '0').toNat) 0

theorem decimal_append (ds : Bytes) (d : UInt8) :
    decimal (ds ++ [d]) = decimal ds * 10 + (d - chr '0').toNat := by
  simp [decimal]

theorem decimal_le : ∀ ds es : Bytes, decimal ds ≤ decimal (ds ++ es)
  | ds, [] => by simp
  | ds, e :: es => by
    have h := decimal_le (ds ++ [e]) es
    rw [decimal_append, List.append_assoc] at h
    have hds : ds ++ ([e] ++ es) = ds ++ e :: es := rfl
    rw [← hds]
    omega

/-- The lengths that the parser takes for a body. -/
def maxContentLength : Nat := 18446744073709551609

/-- What the digits of a length leave. -/
structure Counts (flags : Flags) (pre : Bytes) (v : ValueState) : Prop where
  state : v.headerState = .h_content_length_num
  flags_eq : v.flags = { flags with contentlength := true }
  length_eq : v.contentLength.toNat = decimal pre

section
variable {σ : Type} {flags : Flags}

theorem digit_lt {d : UInt8} (hd : isNum d = true) : (d - chr '0').toNat < 10 := by
  revert hd
  exact forall_byte (p := fun d => isNum d = true → (d - chr '0').toNat < 10) (by decide +kernel) d

theorem starts_length {d : UInt8} {n : UInt64} (hd : isNum d = true) (hf : flags.contentlength = false) :
    Starts σ .h_content_length flags n d (Counts flags) := by
  intro l hh hfl _ hm
  refine ⟨⟨.h_content_length_num, 0, { flags with contentlength := true }, (d - chr '0').toUInt64, l.scanned⟩,
    ⟨rfl, rfl, ?_⟩, rfl, ?_⟩
  · rw [UInt8.toNat_toUInt64]
    simp [decimal]
  · unfold headerValueStart
    rw [mark_noMarks hm]
    simp only [hh, hd, hfl, hf]
    rfl

theorem follows_length {value : Bytes} (hv : ∀ d ∈ value, isNum d = true)
    (hmax : decimal value ≤ maxContentLength) : Follows σ value (Counts flags) := by
  intro l pre d post v hval h
  have hd := hv d (by rw [hval]; simp)
  have hle : decimal (pre ++ [d]) ≤ maxContentLength := by
    refine Nat.le_trans (decimal_le (pre ++ [d]) post) ?_
    rw [List.append_assoc]
    exact hval ▸ hmax
  rw [decimal_append] at hle
  have hlt := digit_lt hd
  unfold maxContentLength at hle
  obtain ⟨hs, i, fl, cl, s⟩ := v
  obtain ⟨hstate, hflags, hlen⟩ := h
  dsimp only at hstate hflags hlen
  subst hstate
  have hblank : d ≠ chr ' ' := by
    rintro rfl
    exact absurd hd (by decide)
  have hdigit : (d - chr '0').toUInt64.toNat = (d - chr '0').toNat := UInt8.toNat_toUInt64 _
  have hsmall : ¬ (ULLONG_MAX - 10) / 10 < cl := by
    rw [UInt64.lt_iff_toNat_lt, show ((ULLONG_MAX - 10) / 10).toNat = 1844674407370955160 by decide]
    omega
  refine ⟨⟨.h_content_length_num, i, fl, cl * 10 + (d - chr '0').toUInt64, s⟩, ?_, ⟨rfl, hflags, ?_⟩,
    Nat.le_succ s⟩
  · show contentLengthNum d _ = _
    rw [contentLengthNum, if_neg hblank, if_neg (by simp [hd])]
    exact if_neg hsmall
  · rw [decimal_append, ← hlen, ← hdigit, UInt64.toNat_add, UInt64.toNat_mul]
    rw [hlen, hdigit, show (10 : UInt64).toNat = 10 from rfl]
    omega

end

/-- A length as it is sent. -/
def IsLength (value : Bytes) : Prop := value ≠ [] ∧ ∀ d ∈ value, isNum d = true

theorem IsLength.isValue {value : Bytes} (h : IsLength value) : IsValue value := by
  have hdigit : ∀ d, isNum d = true → ValueChar d ∧ ¬(d = chr ' ' ∨ d = 9) := by
    apply forall_byte
    decide +kernel
  refine ⟨fun c hc => (hdigit c (h.2 c hc)).1, fun c hc => (hdigit c (h.2 c ?_)).2⟩
  exact List.mem_of_mem_head? hc

section
variable {δ : Type} {l : Loop (Handler δ)} {st : Settings (Handler δ)} {setHeader : δ → Bytes → Bytes → δ}

/-- The line with the length of the body, if there has been none. -/
theorem readsLine_length (hst : TakesHeaders st setHeader) (h : AtLine l) (hp : Unfinished l)
    {name blanks value : Bytes} (hn : IsName name) (hname : name.map token = ascii "content-length")
    (hb : ∀ b ∈ blanks, b = chr ' ' ∨ b = 9) (hv : IsLength value) (hf : l.flags.contentlength = false)
    (hmax : decimal value ≤ maxContentLength)
    (hroom : l.nread.toNat + (headerLine name blanks value).length ≤ maxHeaderSize.toNat) :
    ∃ v, v.flags = { l.flags with contentlength := true } ∧ v.contentLength.toNat = decimal value ∧
      ReadsLine st (headerLine name blanks value) l
        (l.nextLine v (headerLine name blanks value).length (withHeader setHeader l.user name value)) := by
  obtain ⟨d, ds, rfl⟩ := List.exists_cons_of_ne_nil hv.1
  have hstate := nameState_contentLength hn hname
  have hstart : Starts (Handler δ) (nameState name).1 l.flags l.contentLength d (Counts l.flags) := by
    rw [hstate]
    exact starts_length (hv.2 d List.mem_cons_self) hf
  obtain ⟨v, hq, hrun⟩ := readsLine_value hst h hp hn hb hv.isValue hstart (follows_length hv.2 hmax) hroom
  have hflags : headerFlags (l.inValue v) = v.flags := by
    unfold headerFlags
    rw [show (l.inValue v).headerState = .h_content_length_num from hq.state]
    rfl
  rw [hflags] at hrun
  exact ⟨v, hq.flags_eq, hq.length_eq, hrun⟩

/-! ## Several lines -/

/-- The bytes behind a line go on from the start of the next one. -/
theorem ReadsLine.reads {bytes rest : Bytes} {c : UInt8} {l l' t : Loop (Handler δ)} (h : ReadsLine st bytes l l')
    (hc : ¬(c = chr ' ' ∨ c = 9)) (hroom : l'.nread.toNat + 1 ≤ maxHeaderSize.toNat)
    (hrest : Reads st (c :: rest) l' t) : Reads st (bytes ++ c :: rest) l t := by
  obtain ⟨m, hm, hp, hnread, hjoin⟩ := h
  cases hrest with
  | cons _ hstep hrest =>
    refine hm.append (Leads.cons hp ?_ hrest)
    rw [hjoin c hc (by rw [hnread]; exact hroom)]
    exact hstep

theorem ReadsLine.append {bytes rest : Bytes} {c : UInt8} {l l' l'' : Loop (Handler δ)}
    (h : ReadsLine st bytes l l') (hc : ¬(c = chr ' ' ∨ c = 9)) (hroom : l'.nread.toNat + 1 ≤ maxHeaderSize.toNat)
    (hrest : ReadsLine st (c :: rest) l' l'') : ReadsLine st (bytes ++ c :: rest) l l'' := by
  obtain ⟨m, hm, hp, hnread, hjoin⟩ := hrest
  exact ⟨m, h.reads hc hroom hm, hp, hnread, hjoin⟩

/-- What the end of the head looks at, lines that decide nothing about the body apart. -/
structure SameHead {σ : Type} (l l' : Loop σ) : Prop where
  type_eq : l'.type = l.type
  method_eq : l'.method = l.method
  major_eq : l'.httpMajor = l.httpMajor
  minor_eq : l'.httpMinor = l.httpMinor
  status_eq : l'.statusCode = l.statusCode
  upgrade_eq : l'.upgrade = l.upgrade

theorem SameHead.trans {σ : Type} {l l' l'' : Loop σ} (h : SameHead l l') (h' : SameHead l' l'') : SameHead l l'' :=
  ⟨h'.type_eq.trans h.type_eq, h'.method_eq.trans h.method_eq, h'.major_eq.trans h.major_eq,
    h'.minor_eq.trans h.minor_eq, h'.status_eq.trans h.status_eq, h'.upgrade_eq.trans h.upgrade_eq⟩

theorem sameHead_nextLine (l : Loop (Handler δ)) (v : ValueState) (n : Nat) (u : Handler δ) :
    SameHead l (l.nextLine v n u) := ⟨rfl, rfl, rfl, rfl, rfl, rfl⟩

theorem Flags.SameBody.trans {a b c : Flags} (h : a.SameBody b) (h' : b.SameBody c) : a.SameBody c :=
  ⟨h.chunked.trans h'.chunked, h.trailing.trans h'.trailing, h.upgrade.trans h'.upgrade,
    h.skipbody.trans h'.skipbody, h.contentlength.trans h'.contentlength⟩

/-- A header that decides nothing about the body, as it may be sent. -/
structure IsHeader (kv : Bytes × Bytes) : Prop where
  name : IsName kv.1
  ordinary : Ordinary kv.1
  value : IsValue kv.2

/-- `name: value` with its end of line, as `dump` writes it. -/
def dumpLine (kv : Bytes × Bytes) : Bytes := headerLine kv.1 [chr ' '] kv.2

theorem dumpLine_head {kv : Bytes × Bytes} (h : IsName kv.1) :
    ∃ c rest, dumpLine kv = c :: rest ∧ ¬(c = chr ' ' ∨ c = 9) := by
  obtain ⟨c, cs, hname⟩ := List.exists_cons_of_ne_nil h.1
  refine ⟨c, cs ++ [chr ':'] ++ [chr ' '] ++ kv.2 ++ [CR, LF], by simp [dumpLine, headerLine, hname], ?_⟩
  have hc := h.2 c (by rw [hname]; exact List.mem_cons_self)
  rintro (rfl | rfl)
  · exact hc (by decide)
  · exact hc (by decide)

theorem dumpLine_length_pos (kv : Bytes × Bytes) : 0 < (dumpLine kv).length := by
  unfold dumpLine
  rw [headerLine_length]
  omega

theorem nextLine_nread {v : ValueState} {n : Nat} {u : Handler δ} (h : l.nread.toNat + n ≤ maxHeaderSize.toNat) :
    (l.nextLine v n u).nread.toNat = l.nread.toNat + n := nread_add h

/-- The lines of `kvs` lead from the start of a line, `l`, to the start of the next one, `l'`, set their
headers and decide nothing about the body. -/
structure ReadsHeaders (st : Settings (Handler δ)) (setHeader : δ → Bytes → Bytes → δ)
    (kvs : List (Bytes × Bytes)) (l l' : Loop (Handler δ)) : Prop where
  atLine : AtLine l'
  unfinished : Unfinished l'
  head : SameHead l l'
  flags_same : l'.flags.SameBody l.flags
  length_eq : l'.contentLength = l.contentLength
  nread_eq : l'.nread.toNat = l.nread.toNat + (kvs.flatMap dumpLine).length
  data_eq : l'.user.data = kvs.foldl (fun d x => setHeader d x.1 x.2) l.user.data
  lines : ReadsLine st (kvs.flatMap dumpLine) l l'

theorem readsHeaders_one (hst : TakesHeaders st setHeader) (h : AtLine l) (hp : Unfinished l)
    {kv : Bytes × Bytes} (hkv : IsHeader kv)
    (hroom : l.nread.toNat + (dumpLine kv).length ≤ maxHeaderSize.toNat) :
    ∃ l', ReadsHeaders st setHeader [kv] l l' := by
  have hblank : ∀ b ∈ [chr ' '], b = chr ' ' ∨ b = 9 := by simp
  obtain ⟨v, hflags, hlength, hline⟩ := readsLine_ordinary hst h hp hkv.name hkv.ordinary hblank
    hkv.value hroom
  have hlines : [kv].flatMap dumpLine = dumpLine kv := List.append_nil _
  refine ⟨l.nextLine v (dumpLine kv).length (withHeader setHeader l.user kv.1 kv.2), h.nextLine v _ _, hp,
    sameHead_nextLine l v _ _, hflags, hlength, ?_, rfl, ?_⟩
  · rw [hlines]
    exact nextLine_nread hroom
  · rw [hlines]
    exact hline

theorem ReadsHeaders.cons {kv kv' : Bytes × Bytes} {rest : List (Bytes × Bytes)} {l l' l'' : Loop (Handler δ)}
    (h : ReadsHeaders st setHeader [kv] l l') (hrest : ReadsHeaders st setHeader (kv' :: rest) l' l'')
    (hname : IsName kv'.1)
    (hroom : l.nread.toNat + ((kv :: kv' :: rest).flatMap dumpLine).length ≤ maxHeaderSize.toNat) :
    ReadsHeaders st setHeader (kv :: kv' :: rest) l l'' := by
  have hlen : ((kv :: kv' :: rest).flatMap dumpLine).length =
      ([kv].flatMap dumpLine).length + ((kv' :: rest).flatMap dumpLine).length := by simp
  have hpos : 0 < ((kv' :: rest).flatMap dumpLine).length := by
    have := dumpLine_length_pos kv'
    rw [List.flatMap_cons, List.length_append]
    omega
  have hnread := h.nread_eq
  refine ⟨hrest.atLine, hrest.unfinished, h.head.trans hrest.head, hrest.flags_same.trans h.flags_same,
    hrest.length_eq.trans h.length_eq, ?_, hrest.data_eq.trans (by rw [h.data_eq]; rfl), ?_⟩
  · rw [hrest.nread_eq, hnread, hlen]
    omega
  · obtain ⟨c, cs, hcs, hc⟩ := dumpLine_head hname
    have hcons : (kv' :: rest).flatMap dumpLine = c :: (cs ++ rest.flatMap dumpLine) := by
      rw [List.flatMap_cons, hcs]
      rfl
    have hboth : (kv :: kv' :: rest).flatMap dumpLine =
        [kv].flatMap dumpLine ++ c :: (cs ++ rest.flatMap dumpLine) := by
      rw [← hcons]
      simp
    have hlines := hrest.lines
    rw [hcons] at hlines
    rw [hboth]
    exact h.lines.append hc (by omega) hlines

/-- Lines that decide nothing about the body set their headers, one after another. The induction is
on the lines; each ends where the next one starts. -/
theorem reads_lines (hst : TakesHeaders st setHeader) : ∀ (kvs : List (Bytes × Bytes)) (kv : Bytes × Bytes)
    (l : Loop (Handler δ)), AtLine l → Unfinished l → (∀ x ∈ kv :: kvs, IsHeader x) →
    l.nread.toNat + ((kv :: kvs).flatMap dumpLine).length ≤ maxHeaderSize.toNat →
    ∃ l', ReadsHeaders st setHeader (kv :: kvs) l l' := by
  intro kvs
  induction kvs with
  | nil =>
    intro kv l h hp hkv hroom
    refine readsHeaders_one hst h hp (hkv kv List.mem_cons_self) ?_
    simpa using hroom
  | cons kv' rest ih =>
    intro kv l h hp hkv hroom
    obtain ⟨hone, hrest⟩ := List.forall_mem_cons.mp hkv
    have hlen : ((kv :: kv' :: rest).flatMap dumpLine).length =
        (dumpLine kv).length + ((kv' :: rest).flatMap dumpLine).length := by simp
    obtain ⟨l₁, h₁⟩ := readsHeaders_one hst h hp hone (by omega)
    have hnread := h₁.nread_eq
    have hlines : [kv].flatMap dumpLine = dumpLine kv := List.append_nil _
    rw [hlines] at hnread
    obtain ⟨l₂, h₂⟩ := ih kv' l₁ h₁.atLine h₁.unfinished hrest (by omega)
    exact ⟨l₂, h₁.cons h₂ (hrest kv' List.mem_cons_self).name hroom⟩

end

end Sylar.Http
