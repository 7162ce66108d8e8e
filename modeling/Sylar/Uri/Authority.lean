import Mathlib.Data.List.Basic
import Sylar.Uri.Frame

/- The authorities that `http_parse_host` accepts.

   An `Authority` is a host, plain or in brackets, with an optional user before it and an
   optional port after it. `httpParseHost_text` is what is left for one, `exists_authority`
   says that nothing else is accepted. -/
namespace Sylar.Uri
open Sylar.Http Sylar.Lib

/-- What `http_parse_host_char` takes between brackets: an address and, after `%`, a zone. -/
def Bracketed (host : Bytes) : Prop :=
  (∀ c ∈ host, c ≠ chr ']') ∧
    (host.foldl httpParseHostChar .s_http_host_v6_start = .s_http_host_v6 ∨
      host.foldl httpParseHostChar .s_http_host_v6_start = .s_http_host_v6_zone)

instance (host : Bytes) : Decidable (Bracketed host) := inferInstanceAs (Decidable (_ ∧ _))

/-- A host and the port that may follow it. -/
structure HostPort where
  opening : Bytes
  host : Bytes
  closing : Bytes
  port : Bytes
  host_ne : host ≠ []
  host_eq : (opening = [] ∧ closing = [] ∧ ∀ c ∈ host, isHostChar c = true) ∨
    (opening = [chr '['] ∧ closing = [chr ']'] ∧ Bracketed host)
  port_num : ∀ c ∈ port, isNum c = true

/-- A host with the user that may stand before it. -/
structure Authority extends HostPort where
  userinfo : Bytes
  sign : Bytes
  userinfo_chars : ∀ c ∈ userinfo, isUserinfoChar c = true
  sign_eq : sign = [] ∧ userinfo = [] ∨ sign = [chr '@']

def HostPort.tail (a : HostPort) : Bytes := a.opening ++ (a.host ++ (a.closing ++ urlPart ':' a.port))

namespace Authority

def text (a : Authority) : Bytes := a.userinfo ++ (a.sign ++ a.tail)

def hostAt (a : Authority) : Nat := a.userinfo.length + a.sign.length + a.opening.length

def portAt (a : Authority) : Nat := a.hostAt + a.host.length + a.closing.length + 1

end Authority

/-! ## Runs of a field -/

section
variable {u : HttpParserUrl} {uf : UrlField}

theorem hostLoop_cons {s t : HostState} {c : UInt8} (hc : httpParseHostChar s c = t) (hdead : t ≠ .s_http_host_dead)
    (i : UInt16) (rest : Bytes) :
    httpParseHostLoop s u i (c :: rest) = httpParseHostLoop t (u.host s t i) (i + 1) rest := by
  rw [httpParseHostLoop]
  simp only [hc, if_neg hdead]

theorem httpParseHostChar_dead {c : UInt8} : httpParseHostChar .s_http_host_dead c = .s_http_host_dead := rfl

theorem host_live {s : HostState} {c : UInt8} {cs : Bytes}
    (h : (c :: cs).foldl httpParseHostChar s ≠ .s_http_host_dead) : httpParseHostChar s c ≠ .s_http_host_dead :=
  live_step (fun _ => httpParseHostChar_dead) h

/-- Within a field every character makes it longer. -/
def Grows (uf : UrlField) (T : HostState → Prop) (P : UInt8 → Prop) : Prop :=
  ∀ s c, T s → P c → httpParseHostChar s c ≠ .s_http_host_dead →
    T (httpParseHostChar s c) ∧ ∀ u i, HttpParserUrl.host u s (httpParseHostChar s c) i = u.grow uf

theorem hostLoop_run {T : HostState → Prop} {P : UInt8 → Prop} (hgrow : Grows uf T P) (rest : Bytes)
    (off : UInt16) : ∀ (cs : Bytes) (s : HostState) (len i : UInt16), T s → (∀ c ∈ cs, P c) →
    cs.foldl httpParseHostChar s ≠ .s_http_host_dead →
    httpParseHostLoop s (u.put uf ⟨off, len⟩) i (cs ++ rest) =
      httpParseHostLoop (cs.foldl httpParseHostChar s) (u.put uf ⟨off, len + UInt16.ofNat cs.length⟩)
        (i + UInt16.ofNat cs.length) rest := by
  intro cs
  induction cs with
  | nil =>
    intro s len i _ _ _
    simp
  | cons c cs ih =>
    intro s len i hs h hlive
    obtain ⟨hc, hcs⟩ := List.forall_mem_cons.mp h
    have hstep := host_live hlive
    obtain ⟨hnext, hhost⟩ := hgrow s c hs hc hstep
    rw [List.cons_append, hostLoop_cons rfl hstep, hhost, grow_put, ih _ _ _ hnext hcs hlive, add_one_length,
      add_one_length, List.foldl_cons]

/-- A whole field, when it is there. -/
theorem hostLoop_putPart {T : HostState → Prop} {P : UInt8 → Prop} (hgrow : Grows uf T P) {part : Bytes}
    {s : HostState} (n : Nat)
    (hfirst : ∀ c ∈ part.head?, httpParseHostChar s c ≠ .s_http_host_dead → T (httpParseHostChar s c) ∧
      u.host s (httpParseHostChar s c) (UInt16.ofNat n) = u.put uf ⟨UInt16.ofNat n, 1⟩)
    (h : ∀ c ∈ part, P c) (hlive : part.foldl httpParseHostChar s ≠ .s_http_host_dead) (rest : Bytes) :
    httpParseHostLoop s u (UInt16.ofNat n) (part ++ rest) =
      httpParseHostLoop (part.foldl httpParseHostChar s) (putPart u uf n part) (UInt16.ofNat (n + part.length))
        rest := by
  cases part with
  | nil => rfl
  | cons c cs =>
    obtain ⟨-, hcs⟩ := List.forall_mem_cons.mp h
    have hstep := host_live hlive
    obtain ⟨hnext, hhost⟩ := hfirst c rfl hstep
    rw [List.cons_append, hostLoop_cons rfl hstep, hhost, hostLoop_run hgrow rest _ cs _ _ _ hnext hcs hlive,
      one_add_length c, add_one_length, putPart, if_neg (List.cons_ne_nil c cs), UInt16.ofNat_add]
    rfl

theorem grows_of_stay {t : HostState} {P : UInt8 → Prop} (hstay : ∀ c, P c → httpParseHostChar t c = t)
    (hhost : ∀ u i, HttpParserUrl.host u t t i = u.grow uf) : Grows uf (fun s => s = t) P := by
  intro s c hs hc _
  rw [hs, hstay c hc]
  exact ⟨rfl, hhost⟩

end

/-! ## What is left for an authority -/

section
variable {c : UInt8}

theorem hostChar_userinfo {s : HostState} (hs : s = .s_http_userinfo_start ∨ s = .s_http_userinfo)
    (h : isUserinfoChar c = true) : httpParseHostChar s c = .s_http_userinfo := by
  revert c
  rcases hs with rfl | rfl
  all_goals
    apply forall_byte
    decide +kernel

theorem hostChar_host {s : HostState} (hs : s = .s_http_host_start ∨ s = .s_http_host)
    (h : isHostChar c = true) : httpParseHostChar s c = .s_http_host := by
  revert c
  rcases hs with rfl | rfl
  all_goals
    apply forall_byte
    decide +kernel

theorem hostChar_port {s : HostState} (hs : s = .s_http_host_port_start ∨ s = .s_http_host_port)
    (h : isNum c = true) : httpParseHostChar s c = .s_http_host_port := by
  rcases hs with rfl | rfl
  all_goals exact if_pos h

/-- The states between brackets. -/
def InBrackets (s : HostState) : Prop :=
  s = .s_http_host_v6 ∨ s = .s_http_host_v6_zone_start ∨ s = .s_http_host_v6_zone

instance (s : HostState) : Decidable (InBrackets s) := inferInstanceAs (Decidable (_ ∨ _))

theorem hostChar_bracketed {s : HostState} (hs : InBrackets s) (hc : c ≠ chr ']')
    (hlive : httpParseHostChar s c ≠ .s_http_host_dead) : InBrackets (httpParseHostChar s c) := by
  revert c
  rcases hs with rfl | rfl | rfl
  all_goals
    apply forall_byte
    decide +kernel

theorem hostChar_v6_start (hlive : httpParseHostChar .s_http_host_v6_start c ≠ .s_http_host_dead) :
    httpParseHostChar .s_http_host_v6_start c = .s_http_host_v6 := by
  revert c
  apply forall_byte
  decide +kernel

end

theorem grows_userinfo :
    Grows .UF_USERINFO (fun s => s = .s_http_userinfo) (fun c => isUserinfoChar c = true) :=
  grows_of_stay (fun _ => hostChar_userinfo (Or.inr rfl)) (fun _ _ => rfl)

theorem grows_host : Grows .UF_HOST (fun s => s = .s_http_host) (fun c => isHostChar c = true) :=
  grows_of_stay (fun _ => hostChar_host (Or.inr rfl)) (fun _ _ => rfl)

theorem grows_port : Grows .UF_PORT (fun s => s = .s_http_host_port) (fun c => isNum c = true) :=
  grows_of_stay (fun _ => hostChar_port (Or.inr rfl)) (fun _ _ => rfl)

theorem grows_bracketed : Grows .UF_HOST InBrackets (fun c => c ≠ chr ']') := by
  intro s c hs hc hlive
  have hnext := hostChar_bracketed hs hc hlive
  refine ⟨hnext, ?_⟩
  intro u i
  rcases hnext with h | h | h
  · have hsame : s = .s_http_host_v6 := by
      revert c
      rcases hs with rfl | rfl | rfl
      all_goals
        apply forall_byte
        decide +kernel
    rw [h, hsame]
    rfl
  all_goals rw [h]; rfl

/-- The states in which `http_parse_host` may end. -/
def Ended (s : HostState) : Prop := s = .s_http_host ∨ s = .s_http_host_v6_end ∨ s = .s_http_host_port

section
variable {u : HttpParserUrl} {n : Nat}

theorem foldl_stay {t s : HostState} {P : UInt8 → Prop} {part : Bytes} (hne : part ≠ []) (h : ∀ c ∈ part, P c)
    (hstart : ∀ c, P c → httpParseHostChar s c = t) (hstay : ∀ c, P c → httpParseHostChar t c = t) :
    part.foldl httpParseHostChar s = t := by
  induction part generalizing s with
  | nil => exact absurd rfl hne
  | cons c cs ih =>
    obtain ⟨hc, hcs⟩ := List.forall_mem_cons.mp h
    rw [List.foldl_cons, hstart c hc]
    by_cases hnil : cs = []
    · rw [hnil]
      rfl
    · exact ih hnil hcs hstay

theorem foldl_userinfo {userinfo : Bytes} (h : ∀ c ∈ userinfo, isUserinfoChar c = true) :
    userinfo.foldl httpParseHostChar .s_http_userinfo_start = .s_http_userinfo_start ∨
      userinfo.foldl httpParseHostChar .s_http_userinfo_start = .s_http_userinfo := by
  by_cases hnil : userinfo = []
  · rw [hnil]
    exact Or.inl rfl
  · exact Or.inr (foldl_stay hnil h (fun _ => hostChar_userinfo (Or.inl rfl))
      (fun _ => hostChar_userinfo (Or.inr rfl)))

/-- The first character of a field that the others stay in. -/
theorem first_of_start {t s : HostState} {uf : UrlField} {P : UInt8 → Prop} {part : Bytes} {i : UInt16}
    (hstart : ∀ c, P c → httpParseHostChar s c = t) (h : ∀ c ∈ part, P c)
    (hput : u.host s t i = u.put uf ⟨i, 1⟩) : ∀ c ∈ part.head?, httpParseHostChar s c ≠ .s_http_host_dead →
    httpParseHostChar s c = t ∧ u.host s (httpParseHostChar s c) i = u.put uf ⟨i, 1⟩ := by
  intro c hc _
  rw [hstart c (h c (List.mem_of_mem_head? hc))]
  exact ⟨rfl, hput⟩

theorem hostLoop_port {s : HostState} (hs : s = .s_http_host ∨ s = .s_http_host_v6_end) {port : Bytes}
    (h : ∀ c ∈ port, isNum c = true) : ∃ t, Ended t ∧
      httpParseHostLoop s u (UInt16.ofNat n) (urlPart ':' port) = some (t, putPart u .UF_PORT (n + 1) port) := by
  by_cases hne : port = []
  · refine ⟨s, ?_, ?_⟩
    · rcases hs with rfl | rfl
      · exact Or.inl rfl
      · exact Or.inr (Or.inl rfl)
    · rw [hne]
      rfl
  · have hend : port.foldl httpParseHostChar .s_http_host_port_start = .s_http_host_port :=
      foldl_stay hne h (fun _ => hostChar_port (Or.inl rfl)) (fun _ => hostChar_port (Or.inr rfl))
    have hcolon : httpParseHostChar s (chr ':') = .s_http_host_port_start := by
      rcases hs with rfl | rfl
      all_goals rfl
    have hpart := hostLoop_putPart grows_port (n + 1)
      (first_of_start (fun _ => hostChar_port (Or.inl rfl)) h (grow_put u .UF_PORT _ 0)) h (by rw [hend]; decide) []
    refine ⟨.s_http_host_port, Or.inr (Or.inr rfl), ?_⟩
    rw [urlPart, if_neg hne, hostLoop_cons hcolon (by decide), ofNat16_add_one]
    rw [hend, List.append_nil] at hpart
    exact hpart

/-- The host starts with the length that was reset. -/
theorem host_first {s t : HostState} (ht : t = .s_http_host ∨ t = .s_http_host_v6) (hst : s ≠ t) {off i : UInt16}
    (hu : u.fields .UF_HOST = some ⟨off, 0⟩) : u.host s t i = u.put .UF_HOST ⟨i, 1⟩ := by
  have hgrow : u.host s t i = (u.put .UF_HOST ⟨i, ((u.fields .UF_HOST).getD ⟨0, 0⟩).len⟩).grow .UF_HOST := by
    rcases ht with rfl | rfl
    all_goals exact if_neg hst
  rw [hgrow, hu, grow_put]
  rfl

theorem HostPort.hostLoop_tail (a : HostPort) {off : UInt16} (hu : u.fields .UF_HOST = some ⟨off, 0⟩) :
    ∃ t, Ended t ∧ httpParseHostLoop .s_http_host_start u (UInt16.ofNat n) a.tail =
      some (t, putPart (putPart u .UF_HOST (n + a.opening.length) a.host) .UF_PORT
        (n + a.opening.length + a.host.length + a.closing.length + 1) a.port) := by
  unfold tail
  rcases a.host_eq with ⟨hopen, hclose, hhost⟩ | ⟨hopen, hclose, hinside, hend⟩
  · have hend : a.host.foldl httpParseHostChar .s_http_host_start = .s_http_host :=
      foldl_stay a.host_ne hhost (fun _ => hostChar_host (Or.inl rfl)) (fun _ => hostChar_host (Or.inr rfl))
    have hpart := hostLoop_putPart grows_host n (first_of_start (fun _ => hostChar_host (Or.inl rfl)) hhost
      (host_first (Or.inl rfl) (by decide) hu)) hhost (by rw [hend]; decide)
    obtain ⟨t, ht, hport⟩ := hostLoop_port (u := putPart u .UF_HOST n a.host) (n := n + a.host.length) (Or.inl rfl)
      a.port_num
    refine ⟨t, ht, ?_⟩
    rw [hopen, hclose, List.nil_append, List.nil_append, hpart, hend, hport]
    rfl
  · have hlive : a.host.foldl httpParseHostChar .s_http_host_v6_start ≠ .s_http_host_dead := by
      rcases hend with h | h
      all_goals rw [h]; decide
    have hclosing : httpParseHostChar (a.host.foldl httpParseHostChar .s_http_host_v6_start) (chr ']') =
        .s_http_host_v6_end := by
      rcases hend with h | h
      all_goals rw [h]; rfl
    have hfirst : ∀ c ∈ a.host.head?, httpParseHostChar .s_http_host_v6_start c ≠ .s_http_host_dead →
        InBrackets (httpParseHostChar .s_http_host_v6_start c) ∧
        u.host .s_http_host_v6_start (httpParseHostChar .s_http_host_v6_start c) (UInt16.ofNat (n + 1)) =
          u.put .UF_HOST ⟨UInt16.ofNat (n + 1), 1⟩ := by
      intro c _ hc
      rw [hostChar_v6_start hc]
      exact ⟨Or.inl rfl, host_first (Or.inr rfl) (by decide) hu⟩
    have hpart := hostLoop_putPart grows_bracketed (n + 1) hfirst hinside hlive
    obtain ⟨t, ht, hport⟩ := hostLoop_port (u := putPart u .UF_HOST (n + 1) a.host) (n := n + 1 + a.host.length + 1)
      (Or.inr rfl) a.port_num
    refine ⟨t, ht, ?_⟩
    rw [hopen, hclose, List.cons_append, List.nil_append, List.cons_append, List.nil_append,
      hostLoop_cons (t := .s_http_host_v6_start) rfl (by decide), ofNat16_add_one]
    change httpParseHostLoop _ u _ _ = _
    rw [hpart, hostLoop_cons hclosing (by decide), ofNat16_add_one]
    exact hport

end

theorem bracketed_chars {host : Bytes} (h : Bracketed host) : ∀ c ∈ host, isUserinfoChar c = true := by
  obtain ⟨hinside, hend⟩ := h
  have hlive : host.foldl httpParseHostChar .s_http_host_v6_start ≠ .s_http_host_dead := by
    rcases hend with h | h
    all_goals rw [h]; decide
  have hT : ∀ s c, (s = .s_http_host_v6_start ∨ InBrackets s) → c ≠ chr ']' →
      httpParseHostChar s c ≠ .s_http_host_dead →
      (httpParseHostChar s c = .s_http_host_v6_start ∨ InBrackets (httpParseHostChar s c)) ∧
        isUserinfoChar c = true := by
    intro s c hs
    revert c
    rcases hs with rfl | rfl | rfl | rfl
    all_goals
      apply forall_byte
      decide +kernel
  exact forall_of_live (fun _ => httpParseHostChar_dead) hT (Or.inl rfl) hinside hlive

theorem userinfoChar_ne {c : UInt8} (h : isUserinfoChar c = true) :
    ¬EndsAuthority c ∧ c ≠ chr '@' ∧ c ≠ chr '[' := by
  revert c
  apply forall_byte
  decide +kernel

theorem hostChar_userinfoChar {c : UInt8} (h : isHostChar c = true) : isUserinfoChar c = true := by
  revert c
  apply forall_byte
  decide +kernel

theorem num_userinfoChar {c : UInt8} (h : isNum c = true) : isUserinfoChar c = true := by
  revert c
  apply forall_byte
  decide +kernel

theorem HostPort.host_chars (a : HostPort) : ∀ c ∈ a.host, isUserinfoChar c = true := by
  rcases a.host_eq with ⟨-, -, h⟩ | ⟨-, -, h⟩
  · exact fun c hc => hostChar_userinfoChar (h c hc)
  · exact bracketed_chars h

theorem port_chars {port : Bytes} (h : ∀ c ∈ port, isNum c = true) :
    ∀ c ∈ urlPart ':' port, isUserinfoChar c = true := by
  unfold urlPart
  split
  · simp
  · exact List.forall_mem_cons.mpr ⟨by decide, fun c hc => num_userinfoChar (h c hc)⟩

theorem at_not_mem_chars {cs : Bytes} (h : ∀ c ∈ cs, isUserinfoChar c = true) : chr '@' ∉ cs :=
  fun hmem => (userinfoChar_ne (h _ hmem)).2.1 rfl

theorem HostPort.at_not_mem (a : HostPort) : chr '@' ∉ a.tail := by
  have hopen : chr '@' ∉ a.opening ∧ chr '@' ∉ a.closing := by
    rcases a.host_eq with ⟨ho, hc, -⟩ | ⟨ho, hc, -⟩
    all_goals
      rw [ho, hc]
      decide
  simp only [tail, List.mem_append, not_or]
  exact ⟨hopen.1, at_not_mem_chars a.host_chars, hopen.2, at_not_mem_chars (port_chars a.port_num)⟩

namespace Authority

/-- What `http_parse_host` leaves for an authority at an offset. -/
def slices (a : Authority) (u : HttpParserUrl) (n : Nat) : HttpParserUrl :=
  let u := u.put .UF_HOST ⟨UInt16.ofNat n, 0⟩
  let u := putPart u .UF_USERINFO n a.userinfo
  let u := putPart u .UF_HOST (n + a.hostAt) a.host
  putPart u .UF_PORT (n + a.portAt) a.port

theorem at_mem_iff (a : Authority) : chr '@' ∈ a.text ↔ a.sign = [chr '@'] := by
  rcases a.sign_eq with ⟨hsign, huser⟩ | hsign
  · simp [text, hsign, huser, a.toHostPort.at_not_mem]
  · simp [text, hsign]

theorem hostLoop_text (a : Authority) {u : HttpParserUrl} {n : Nat} {off : UInt16}
    (hu : u.fields .UF_HOST = some ⟨off, 0⟩) :
    ∃ t, Ended t ∧
      httpParseHostLoop (if chr '@' ∈ a.text then .s_http_userinfo_start else .s_http_host_start) u (UInt16.ofNat n)
          a.text =
        some (t, putPart (putPart (putPart u .UF_USERINFO n a.userinfo) .UF_HOST (n + a.hostAt) a.host) .UF_PORT
          (n + a.portAt) a.port) := by
  have hhost : (putPart u .UF_USERINFO n a.userinfo).fields .UF_HOST = some ⟨off, 0⟩ := by
    rw [putPart_fields_other (by decide), hu]
  obtain ⟨t, ht, htail⟩ := a.toHostPort.hostLoop_tail (n := n + a.userinfo.length + a.sign.length) hhost
  refine ⟨t, ht, ?_⟩
  have hassoc : n + a.userinfo.length + a.sign.length + a.opening.length = n + a.hostAt := by
    simp [hostAt, Nat.add_assoc]
  have hport : n + a.hostAt + a.host.length + a.closing.length + 1 = n + a.portAt := by
    simp [portAt, Nat.add_assoc]
  rw [hassoc, hport] at htail
  rcases a.sign_eq with ⟨hsign, huser⟩ | hsign
  · have hat : chr '@' ∉ a.text := by simp [at_mem_iff, hsign]
    rw [if_neg hat]
    simpa [text, hsign, huser] using htail
  · have hend := foldl_userinfo a.userinfo_chars
    have hnext : httpParseHostChar (a.userinfo.foldl httpParseHostChar .s_http_userinfo_start) (chr '@') =
        .s_http_host_start := by
      rcases hend with h | h
      all_goals rw [h]; rfl
    have hlive : a.userinfo.foldl httpParseHostChar .s_http_userinfo_start ≠ .s_http_host_dead := by
      rcases hend with h | h
      all_goals rw [h]; decide
    rw [hsign, List.length_singleton, ← ofNat16_add_one] at htail
    rw [if_pos (a.at_mem_iff.mpr hsign), text, hostLoop_putPart grows_userinfo n
      (first_of_start (fun _ => hostChar_userinfo (Or.inl rfl)) a.userinfo_chars (grow_put u .UF_USERINFO _ 0))
      a.userinfo_chars hlive, hsign, List.singleton_append, hostLoop_cons hnext (by decide)]
    exact htail

theorem httpParseHost_text (a : Authority) {buf : Bytes} {u : HttpParserUrl} {n : Nat} {len : UInt16}
    (hu : u.fields .UF_HOST = some ⟨UInt16.ofNat n, len⟩)
    (htext : (buf.drop (UInt16.ofNat n).toNat).take len.toNat = a.text) :
    httpParseHost buf u (decide (chr '@' ∈ a.text)) = some (a.slices u n) := by
  have hreset : (u.put .UF_HOST ⟨UInt16.ofNat n, 0⟩).fields .UF_HOST = some ⟨UInt16.ofNat n, 0⟩ := by
    simp [HttpParserUrl.put]
  obtain ⟨t, ht, hloop⟩ := a.hostLoop_text (n := n) hreset
  unfold httpParseHost
  simp only [hu, htext, decide_eq_true_eq, Option.bind_eq_bind, Option.bind_some, hloop]
  rcases ht with rfl | rfl | rfl
  all_goals rfl

end Authority

/-! ## Every authority that is accepted -/

theorem Ended.live {s : HostState} (h : Ended s) : s ≠ .s_http_host_dead := by
  rcases h with rfl | rfl | rfl
  all_goals decide

instance (s : HostState) : Decidable (Ended s) := inferInstanceAs (Decidable (_ ∨ _))

/-- The state in which the loop ends. -/
theorem foldl_of_hostLoop {t : HostState} {v : HttpParserUrl} : ∀ {xs : Bytes} {s : HostState} {u : HttpParserUrl}
    {i : UInt16}, s ≠ .s_http_host_dead → httpParseHostLoop s u i xs = some (t, v) →
    xs.foldl httpParseHostChar s = t ∧ t ≠ .s_http_host_dead := by
  intro xs
  induction xs with
  | nil =>
    intro s u i hs h
    cases h
    exact ⟨rfl, hs⟩
  | cons x xs ih =>
    intro s u i hs h
    rw [httpParseHostLoop] at h
    split at h
    · cases h
    · next hx => exact ih hx h

section
variable {c : UInt8}

theorem num_of_live {s : HostState} (hs : s = .s_http_host_port_start ∨ s = .s_http_host_port)
    (h : httpParseHostChar s c ≠ .s_http_host_dead) : isNum c = true := by
  revert c
  rcases hs with rfl | rfl
  all_goals
    apply forall_byte
    decide +kernel

theorem colon_of_hostLive {s : HostState} (hs : s = .s_http_host ∨ s = .s_http_host_v6_end)
    (h : httpParseHostChar s c ≠ .s_http_host_dead) (hc : isHostChar c = false ∨ s ≠ .s_http_host) :
    c = chr ':' := by
  revert c
  rcases hs with rfl | rfl
  all_goals
    apply forall_byte
    decide +kernel

theorem at_of_live {s : HostState} (hs : s = .s_http_userinfo_start ∨ s = .s_http_userinfo)
    (h : httpParseHostChar s c ≠ .s_http_host_dead) (hc : isUserinfoChar c = false) : c = chr '@' := by
  revert c
  rcases hs with rfl | rfl
  all_goals
    apply forall_byte
    decide +kernel

theorem host_of_live (h : httpParseHostChar .s_http_host_start c ≠ .s_http_host_dead) :
    c = chr '[' ∨ isHostChar c = true := by
  revert c
  apply forall_byte
  decide +kernel

end

theorem exists_port {s : HostState} (hs : s = .s_http_host ∨ s = .s_http_host_v6_end) {xs : Bytes}
    (hfirst : ∀ c ∈ xs.head?, isHostChar c = false ∨ s ≠ .s_http_host)
    (h : Ended (xs.foldl httpParseHostChar s)) : ∃ port, xs = urlPart ':' port ∧ ∀ c ∈ port, isNum c = true := by
  cases xs with
  | nil => exact ⟨[], rfl, by simp⟩
  | cons c cs =>
    have hcolon := colon_of_hostLive hs (host_live h.live) (hfirst c rfl)
    have hnext : httpParseHostChar s (chr ':') = .s_http_host_port_start := by
      rcases hs with rfl | rfl
      all_goals rfl
    rw [hcolon, List.foldl_cons, hnext] at h
    have hne : cs ≠ [] := by
      rintro rfl
      exact absurd h (by decide)
    refine ⟨cs, by rw [hcolon, urlPart, if_neg hne], ?_⟩
    refine forall_of_live (fun _ => httpParseHostChar_dead) (P := fun _ => True)
      (T := fun s => s = .s_http_host_port_start ∨ s = .s_http_host_port) ?_ (Or.inl rfl) (by simp) h.live
    intro s c hs _ hc
    have hnum := num_of_live hs hc
    exact ⟨Or.inr (hostChar_port hs hnum), hnum⟩

theorem bracket_closed (s : HostState) (c : UInt8) (hs : s = .s_http_host_v6_start ∨ InBrackets s)
    (hc : decide (c ≠ chr ']') = true) (hlive : httpParseHostChar s c ≠ .s_http_host_dead) :
    httpParseHostChar s c = .s_http_host_v6_start ∨ InBrackets (httpParseHostChar s c) := by
  rcases hs with rfl | hs
  · exact Or.inr (Or.inl (hostChar_v6_start hlive))
  · exact Or.inr (hostChar_bracketed hs (of_decide_eq_true hc) hlive)

theorem closing_of_live {s : HostState} (hs : s = .s_http_host_v6_start ∨ InBrackets s)
    (h : httpParseHostChar s (chr ']') ≠ .s_http_host_dead) :
    (s = .s_http_host_v6 ∨ s = .s_http_host_v6_zone) ∧ httpParseHostChar s (chr ']') = .s_http_host_v6_end := by
  revert h
  rcases hs with rfl | rfl | rfl | rfl
  all_goals decide

theorem exists_bracketed {xs : Bytes} (h : Ended (xs.foldl httpParseHostChar .s_http_host_v6_start)) :
    ∃ host port, xs = host ++ ([chr ']'] ++ urlPart ':' port) ∧ host ≠ [] ∧ Bracketed host ∧
      ∀ c ∈ port, isNum c = true := by
  obtain ⟨host, rest, rfl, hhost, hend, hrest⟩ := exists_run (fun _ => httpParseHostChar_dead)
    (fun c => decide (c ≠ chr ']')) bracket_closed xs .s_http_host_v6_start (Or.inl rfl) h.live
  rw [List.foldl_append] at h
  cases rest with
  | nil =>
    -- a host that is not closed does not end
    revert h
    rcases hend with he | he | he | he
    all_goals
      rw [he]
      intro h
      exact absurd h (by decide)
  | cons c cs =>
    have hc : c = chr ']' := by simpa using of_decide_eq_false (hrest c cs rfl)
    rw [hc] at h
    obtain ⟨hclose, hnext⟩ := closing_of_live hend (host_live h.live)
    rw [List.foldl_cons, hnext] at h
    obtain ⟨port, rfl, hport⟩ := exists_port (Or.inr rfl) (fun _ _ => Or.inr (by decide)) h
    refine ⟨host, port, by rw [hc]; rfl, ?_, ⟨fun c hc => of_decide_eq_true (hhost c hc), hclose⟩, hport⟩
    rintro rfl
    exact absurd hclose (by decide)

theorem exists_hostPort {xs : Bytes} (h : Ended (xs.foldl httpParseHostChar .s_http_host_start)) :
    ∃ a : HostPort, a.tail = xs := by
  cases xs with
  | nil => exact absurd h (by decide)
  | cons c cs =>
    rcases host_of_live (host_live h.live) with rfl | hc
    · have hbracket : Ended (cs.foldl httpParseHostChar .s_http_host_v6_start) := h
      obtain ⟨host, port, rfl, hne, hhost, hport⟩ := exists_bracketed hbracket
      exact ⟨⟨[chr '['], host, [chr ']'], port, hne, Or.inr ⟨rfl, rfl, hhost⟩, hport⟩, rfl⟩
    · rw [List.foldl_cons, hostChar_host (Or.inl rfl) hc] at h
      obtain ⟨host, rest, rfl, hhost, hsame, hrest⟩ := exists_run_stay (fun _ => httpParseHostChar_dead) isHostChar
        (fun _ => hostChar_host (Or.inr rfl)) h.live
      rw [hsame] at h
      have hfirst : ∀ c ∈ rest.head?, isHostChar c = false ∨ HostState.s_http_host ≠ .s_http_host :=
        fun c hc => Or.inl (hrest c _ (List.eq_cons_of_mem_head? hc))
      obtain ⟨port, rfl, hport⟩ := exists_port (Or.inl rfl) hfirst h
      exact ⟨⟨[], c :: host, [], port, List.cons_ne_nil c host,
        Or.inl ⟨rfl, rfl, List.forall_mem_cons.mpr ⟨hc, hhost⟩⟩, hport⟩, rfl⟩

theorem exists_userinfo {xs : Bytes} (h : Ended (xs.foldl httpParseHostChar .s_http_userinfo_start)) :
    ∃ a : Authority, a.text = xs := by
  have hT : ∀ s c, (s = .s_http_userinfo_start ∨ s = .s_http_userinfo) → isUserinfoChar c = true →
      httpParseHostChar s c ≠ .s_http_host_dead →
      httpParseHostChar s c = .s_http_userinfo_start ∨ httpParseHostChar s c = .s_http_userinfo :=
    fun s c hs hc _ => Or.inr (hostChar_userinfo hs hc)
  obtain ⟨userinfo, rest, rfl, huser, hend, hrest⟩ := exists_run (fun _ => httpParseHostChar_dead) isUserinfoChar hT
    xs .s_http_userinfo_start (Or.inl rfl) h.live
  rw [List.foldl_append] at h
  cases rest with
  | nil =>
    rcases hend with he | he
    all_goals
      rw [he] at h
      exact absurd h (by decide)
  | cons c cs =>
    have hc := at_of_live hend (host_live h.live) (hrest c cs rfl)
    have hnext : httpParseHostChar (userinfo.foldl httpParseHostChar .s_http_userinfo_start) (chr '@') =
        .s_http_host_start := by
      rcases hend with he | he
      all_goals rw [he]; rfl
    rw [hc, List.foldl_cons, hnext] at h
    obtain ⟨a, rfl⟩ := exists_hostPort h
    exact ⟨⟨a, userinfo, [chr '@'], huser, Or.inr rfl⟩, by rw [hc]; rfl⟩

/-- What `http_parse_host` accepts is an authority. -/
theorem exists_authority {buf : Bytes} {u v : HttpParserUrl} {d : Slice} {found_at : Bool}
    (hu : u.fields .UF_HOST = some d) (h : httpParseHost buf u found_at = some v) :
    ∃ a : Authority, a.text = (buf.drop d.off.toNat).take d.len.toNat := by
  have hended : Ended (((buf.drop d.off.toNat).take d.len.toNat).foldl httpParseHostChar
      (if found_at then .s_http_userinfo_start else .s_http_host_start)) := by
    unfold httpParseHost at h
    simp only [hu, Option.bind_eq_bind, Option.bind_some] at h
    obtain ⟨⟨t, w⟩, hloop, hend⟩ := Option.bind_eq_some_iff.mp h
    have hstart : (if found_at then HostState.s_http_userinfo_start else .s_http_host_start) ≠
        .s_http_host_dead := by
      split
      · decide
      · decide
    obtain ⟨hfoldl, hlive⟩ := foldl_of_hostLoop hstart hloop
    rw [hfoldl]
    cases t with
    | s_http_host | s_http_host_v6_end | s_http_host_port => decide
    | s_http_host_dead => exact absurd rfl hlive
    | _ => cases hend
  cases found_at with
  | true => exact exists_userinfo hended
  | false =>
    obtain ⟨a, ha⟩ := exists_hostPort hended
    exact ⟨⟨a, [], [], by simp, Or.inl ⟨rfl, rfl⟩⟩, ha⟩

end Sylar.Uri
