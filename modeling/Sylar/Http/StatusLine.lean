import Mathlib.Data.List.Basic
import Sylar.Http.StartLine

/- How `http_parser_execute` reads the line `HTTP/1.x STATUS REASON` that starts a response.

   The digits of the status are added up one by one and stay below 1000; the reason is
   marked from its first byte to the CR, where `on_response_status_cb` gets it and
   stores the number. -/
namespace Sylar.Http
open Sylar.Lib

section
variable {l : Loop (Handler HttpResponse)}

/-- The loop before the first byte of a response. -/
structure AtReply (l : Loop (Handler HttpResponse)) : Prop where
  state : l.state = .s_start_res
  marks : l.marks = noMarks
  run : l.run = 0
  scanned : l.scanned = 0
  lenient : l.lenientHttpHeaders = false

/-- What the first byte clears. -/
def Loop.replyBegun (l : Loop (Handler HttpResponse)) : Loop (Handler HttpResponse) :=
  { l with flags := {}, contentLength := ULLONG_MAX }

/-! ## The version -/

/-- `HTTP/1.x` and the blank behind it. -/
theorem reads_replyVersion (h : AtReply l) (hp : Unfinished l) {x : UInt8} (hx : isNum x = true)
    (hroom : l.nread.toNat + 9 ≤ maxHeaderSize.toNat) :
    Reads responseSettings (ascii "HTTP/1." ++ [x, chr ' ']) l
      ({ l.replyBegun with httpMajor := 1, httpMinor := (x - chr '0').toNat }.at .s_res_first_status_code 9) := by
  let l₀ := l.replyBegun
  let l₁ : Loop (Handler HttpResponse) := { l₀ with httpMajor := 1 }
  let l₂ : Loop (Handler HttpResponse) := { l₀ with httpMajor := 1, httpMinor := (x - chr '0').toNat }
  have hroom₀ : ∀ k, k < 9 → l₀.nread.toNat + (k + 1) ≤ maxHeaderSize.toNat := by
    intro k hk
    show l.nread.toNat + (k + 1) ≤ _
    omega
  have hm := h.marks
  have hrun := h.run
  have hH : Reads responseSettings [chr 'H'] l (l₀.at .s_res_H 1) := by
    refine Leads.single hp (step_head (by rw [h.state]; rfl) hrun (by omega) ?_ hm)
    have hd : dispatch responseSettings (chr 'H') l.counted = startRes responseSettings (chr 'H') l.counted := by
      rw [dispatch, show l.counted.state = _ from h.state]
    rw [hd]
    rfl
  have hT : Reads responseSettings [chr 'T'] (l₀.at .s_res_H 1) (l₀.at .s_res_HT 2) :=
    reads_at hp hrun hm rfl (hroom₀ 1 (by omega)) rfl
  have hTT : Reads responseSettings [chr 'T'] (l₀.at .s_res_HT 2) (l₀.at .s_res_HTT 3) :=
    reads_at hp hrun hm rfl (hroom₀ 2 (by omega)) rfl
  have hP : Reads responseSettings [chr 'P'] (l₀.at .s_res_HTT 3) (l₀.at .s_res_HTTP 4) :=
    reads_at hp hrun hm rfl (hroom₀ 3 (by omega)) rfl
  have hslash : Reads responseSettings [chr '/'] (l₀.at .s_res_HTTP 4) (l₀.at .s_res_http_major 5) :=
    reads_at hp hrun hm rfl (hroom₀ 4 (by omega)) rfl
  have hmajor : Reads responseSettings [chr '1'] (l₀.at .s_res_http_major 5) (l₁.at .s_res_http_dot 6) :=
    reads_at hp hrun hm rfl (hroom₀ 5 (by omega)) rfl
  have hdot : Reads responseSettings [chr '.'] (l₁.at .s_res_http_dot 6) (l₁.at .s_res_http_minor 7) :=
    reads_at hp hrun hm rfl (hroom₀ 6 (by omega)) rfl
  have hminor : Reads responseSettings [x] (l₁.at .s_res_http_minor 7) (l₂.at .s_res_http_end 8) :=
    reads_at hp hrun hm rfl (hroom₀ 7 (by omega)) (by exact if_neg (by simp [hx]))
  have hblank : Reads responseSettings [chr ' '] (l₂.at .s_res_http_end 8) (l₂.at .s_res_first_status_code 9) :=
    reads_at hp hrun hm rfl (hroom₀ 8 (by omega)) rfl
  exact hH.append (hT.append (hTT.append (hP.append (hslash.append (hmajor.append (hdot.append
    (hminor.append hblank)))))))

/-! ## The status -/

/-- A digit behind the first one. -/
theorem reads_digits (hp : Unfinished l) (hm : l.marks = noMarks) (hrun : l.run = 0) {all : Bytes}
    (hall : ∀ d ∈ all, isNum d = true) (hmax : decimal all ≤ 999) : ∀ (ds pre : Bytes) (k : Nat), pre ++ ds = all →
    l.nread.toNat + (k + ds.length) ≤ maxHeaderSize.toNat →
    Reads responseSettings ds ({ l with statusCode := decimal pre }.at .s_res_status_code k)
      ({ l with statusCode := decimal all }.at .s_res_status_code (k + ds.length)) := by
  intro ds
  induction ds with
  | nil =>
    intro pre k hpre _
    rw [List.append_nil] at hpre
    rw [hpre]
    exact Leads.nil
  | cons d ds ih =>
    intro pre k hpre hroom
    rw [List.length_cons] at hroom
    have hrest := ih (pre ++ [d]) (k + 1) (by rw [← hpre]; simp) (by omega)
    rw [Nat.add_assoc, Nat.add_comm 1] at hrest
    have hd : isNum d = true := hall d (by rw [← hpre]; simp)
    have hle : decimal (pre ++ [d]) ≤ 999 := by
      have happend := decimal_le (pre ++ [d]) ds
      rw [List.append_assoc, List.singleton_append, hpre] at happend
      omega
    rw [decimal_append] at hle hrest
    have hone : dispatch responseSettings d ({ l with statusCode := decimal pre }.at .s_res_status_code (k + 1)) =
        .ok ({ l with statusCode := decimal pre * 10 + (d - chr '0').toNat }.at .s_res_status_code (k + 1)) := by
      show resStatusCode responseSettings d _ = _
      unfold resStatusCode
      rw [if_neg (by simp [hd])]
      exact if_neg (Nat.not_lt.mpr hle)
    exact (reads_at (by exact hp) (by exact hrun) (by exact hm) rfl (by show l.nread.toNat + _ ≤ _; omega) hone).append
      hrest

/-- The status and the blank behind it. -/
theorem reads_status (hp : Unfinished l) (hm : l.marks = noMarks) (hrun : l.run = 0) {ds : Bytes}
    (hds : IsLength ds) (hmax : decimal ds ≤ 999) {k : Nat}
    (hroom : l.nread.toNat + (k + ds.length + 1) ≤ maxHeaderSize.toNat) :
    Reads responseSettings (ds ++ [chr ' ']) (l.at .s_res_first_status_code k)
      ({ l with statusCode := decimal ds }.at .s_res_status_start (k + ds.length + 1)) := by
  obtain ⟨d, rest, rfl⟩ := List.exists_cons_of_ne_nil hds.1
  have hd := hds.2 d List.mem_cons_self
  have hfirst : decimal [d] = (d - chr '0').toNat := by simp [decimal]
  have hone : dispatch responseSettings d (l.at .s_res_first_status_code (k + 1)) =
      .ok ({ l with statusCode := decimal [d] }.at .s_res_status_code (k + 1)) := by
    rw [hfirst]
    show resFirstStatusCode d _ = _
    unfold resFirstStatusCode
    exact if_neg (by simp [hd])
  have hrest := reads_digits hp hm hrun hds.2 hmax rest [d] (k + 1) rfl (by rw [List.length_cons] at hroom; omega)
  have hlen : k + 1 + rest.length = k + (d :: rest).length := by
    rw [List.length_cons]
    omega
  rw [hlen] at hrest
  have hblank : Reads responseSettings [chr ' ']
      ({ l with statusCode := decimal (d :: rest) }.at .s_res_status_code (k + (d :: rest).length))
      ({ l with statusCode := decimal (d :: rest) }.at .s_res_status_start (k + (d :: rest).length + 1)) :=
    reads_at (by exact hp) (by exact hrun) (by exact hm) rfl (by exact hroom) rfl
  have hstart := reads_at (s := .s_res_first_status_code) hp hrun (by exact hm) rfl (by omega) hone
  exact hstart.append (hrest.append hblank)

/-! ## The reason -/

/-- A byte that may stand in the reason. -/
def ReasonChar (c : UInt8) : Prop := c ≠ CR ∧ c ≠ LF

instance (c : UInt8) : Decidable (ReasonChar c) := inferInstanceAs (Decidable (_ ∧ _))

/-- The first byte of the reason. -/
theorem step_reasonStart (hm : l.marks = noMarks) (hrun : l.run = 0) {c : UInt8} (hc : ReasonChar c) {k : Nat}
    (hroom : l.nread.toNat + (k + 1) ≤ maxHeaderSize.toNat) :
    step responseSettings c (l.at .s_res_status_start k) =
      .ok ({ l with marks := oneMark .status [c], index := 0 }.at .s_res_status (k + 1)) := by
  have hchar : dispatch responseSettings c (l.at .s_res_status_start k).counted =
      .ok ({ l with marks := oneMark .status [], index := 0 }.at .s_res_status (k + 1)) := by
    rw [at_counted]
    show resStatusStart responseSettings c _ = _
    unfold resStatusStart
    rw [mark_noMarks (by exact hm)]
    exact if_neg fun hend => hend.elim hc.1 hc.2
  refine step_head_marked rfl (by exact hrun) ?_ hchar rfl
  show (l.nread + UInt32.ofNat k).toNat + 1 ≤ _
  rw [nread_add (by omega)]
  omega

/-- The bytes of the reason behind the first one. -/
theorem reads_reasonRest (hp : Unfinished l) (hrun : l.run = 0) : ∀ (cs pre : Bytes) (k : Nat),
    (∀ c ∈ cs, ReasonChar c) → l.nread.toNat + (k + cs.length) ≤ maxHeaderSize.toNat →
    Reads responseSettings cs ({ l with marks := oneMark .status pre }.at .s_res_status k)
      ({ l with marks := oneMark .status (pre ++ cs) }.at .s_res_status (k + cs.length)) := by
  intro cs
  induction cs with
  | nil =>
    intro pre k _ _
    rw [List.append_nil]
    exact Leads.nil
  | cons c cs ih =>
    intro pre k hcs hroom
    rw [List.length_cons] at hroom
    obtain ⟨hc, hrest⟩ := List.forall_mem_cons.mp hcs
    have hreads := ih (pre ++ [c]) (k + 1) hrest (by omega)
    rw [List.append_assoc, Nat.add_assoc, Nat.add_comm 1] at hreads
    have hchar : dispatch responseSettings c ({ l with marks := oneMark .status pre }.at .s_res_status k).counted =
        .ok ({ l with marks := oneMark .status pre }.at .s_res_status (k + 1)) := by
      rw [at_counted]
      show resStatus responseSettings c _ = _
      unfold resStatus
      rw [if_neg hc.1, if_neg hc.2]
    refine Leads.cons hp (step_head_marked rfl (by exact hrun) ?_ hchar rfl) hreads
    show (l.nread + UInt32.ofNat k).toNat + 1 ≤ _
    rw [nread_add (by omega)]
    omega

/-- What `on_response_status_cb` does to the parser object. -/
def withStatus (u : Handler HttpResponse) (n : Nat) : Handler HttpResponse :=
  { u with data := { u.data with status := n } }

/-- A reason and the end of its line. -/
theorem reads_reason (hp : Unfinished l) (hm : l.marks = noMarks) (hrun : l.run = 0) {reason : Bytes}
    (hne : reason ≠ []) (hreason : ∀ c ∈ reason, ReasonChar c) {k : Nat}
    (hroom : l.nread.toNat + (k + reason.length + 2) ≤ maxHeaderSize.toNat) :
    Reads responseSettings (reason ++ [CR, LF]) (l.at .s_res_status_start k)
      ({ l with index := 0, user := withStatus l.user l.statusCode, marks := noMarks }.at .s_header_field_start
        (k + reason.length + 2)) := by
  obtain ⟨c, cs, rfl⟩ := List.exists_cons_of_ne_nil hne
  obtain ⟨hc, hcs⟩ := List.forall_mem_cons.mp hreason
  have hlen : k + 1 + cs.length = k + (c :: cs).length := by
    rw [List.length_cons]
    omega
  have hfirst := step_reasonStart hm hrun hc (k := k) (by omega)
  have hrest := reads_reasonRest (l := { l with index := 0 }) hp hrun cs [c] (k + 1) hcs
    (by show l.nread.toNat + _ ≤ _; omega)
  rw [hlen] at hrest
  -- the CR hands the reason over
  have hcr : Reads responseSettings [CR]
      ({ l with index := 0, marks := oneMark .status (c :: cs) }.at .s_res_status (k + (c :: cs).length))
      ({ l with index := 0, user := withStatus l.user l.statusCode, marks := noMarks }.at .s_res_line_almost_done
        (k + (c :: cs).length + 1)) := by
    refine reads_at (by exact hp) (by exact hrun) rfl rfl (by show l.nread.toNat + _ ≤ _; omega) ?_
    show resStatus responseSettings CR _ = _
    unfold resStatus
    rw [if_pos rfl]
    exact callback_oneMark (by rfl) (by rfl) 0
  have hlf : Reads responseSettings [LF]
      ({ l with index := 0, user := withStatus l.user l.statusCode, marks := noMarks }.at .s_res_line_almost_done
        (k + (c :: cs).length + 1))
      ({ l with index := 0, user := withStatus l.user l.statusCode, marks := noMarks }.at .s_header_field_start
        (k + (c :: cs).length + 2)) :=
    reads_at (by exact hp) (by exact hrun) rfl rfl (by show l.nread.toNat + _ ≤ _; omega) rfl
  exact Leads.cons hp hfirst (hrest.append (hcr.append hlf))

/-! ## The line -/

/-- The line that starts a response, for a minor version with one digit. -/
def statusLine (x : UInt8) (status reason : Bytes) : Bytes :=
  ascii "HTTP/1." ++ [x, chr ' '] ++ (status ++ [chr ' '] ++ (reason ++ [CR, LF]))

theorem length_statusLine (x : UInt8) (status reason : Bytes) :
    (statusLine x status reason).length = status.length + reason.length + 12 := by
  have hword : (ascii "HTTP/1.").length = 7 := rfl
  simp only [statusLine, List.length_append, List.length_cons, List.length_nil, hword]
  omega

/-- What the first line leaves for the lines behind it. -/
structure Replied (l : Loop (Handler HttpResponse)) (minor status n : Nat) (l' : Loop (Handler HttpResponse)) :
    Prop where
  atLine : AtLine l'
  type_eq : l'.type = l.type
  flags_eq : l'.flags = {}
  length_eq : l'.contentLength = ULLONG_MAX
  method_eq : l'.method = l.method
  major_eq : l'.httpMajor = 1
  minor_eq : l'.httpMinor = minor
  status_eq : l'.statusCode = status
  user_eq : l'.user = withStatus l.user status
  nread_eq : l'.nread.toNat = l.nread.toNat + n

/-- A first line. -/
theorem reads_statusLine (h : AtReply l) (hp : Unfinished l) {x : UInt8} (hx : isNum x = true) {status reason : Bytes}
    (hs : IsLength status) (hmax : decimal status ≤ 999) (hne : reason ≠ [])
    (hreason : ∀ c ∈ reason, ReasonChar c)
    (hroom : l.nread.toNat + (statusLine x status reason).length ≤ maxHeaderSize.toNat) :
    ∃ l', Reads responseSettings (statusLine x status reason) l l' ∧
      Replied l (x - chr '0').toNat (decimal status) (statusLine x status reason).length l' := by
  have hlen := length_statusLine x status reason
  have hversion := reads_replyVersion h hp hx (by omega)
  have hstatus := reads_status (l := { l.replyBegun with httpMajor := 1, httpMinor := (x - chr '0').toNat }) hp
    h.marks h.run hs hmax (k := 9) (by show l.nread.toNat + _ ≤ _; omega)
  have hrest := reads_reason (l := { l.replyBegun with
    httpMajor := 1, httpMinor := (x - chr '0').toNat, statusCode := decimal status }) hp h.marks h.run hne hreason
    (k := 9 + status.length + 1) (by show l.nread.toNat + _ ≤ _; omega)
  refine ⟨_, hversion.append (hstatus.append hrest),
    ⟨⟨rfl, rfl, h.run, h.scanned, h.lenient⟩, rfl, rfl, rfl, rfl, rfl, rfl, rfl, rfl, ?_⟩⟩
  show (l.nread + UInt32.ofNat (9 + status.length + 1 + reason.length + 2)).toNat = _
  rw [nread_add (by omega)]
  omega

end

end Sylar.Http
