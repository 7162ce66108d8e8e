import Mathlib.Data.List.Basic
import Sylar.Uri.Basic
import Sylar.Uri.Authority

/- What `Uri::Create` makes of a URL with a scheme.

   An `Absolute` is a frame whose authority is one. `create_text` gives the URI that is read from
   its text, each part cut out at a 16-bit offset; `exists_absolute` says that a URL which
   is accepted has this form or is relative. -/
namespace Sylar.Uri
open Sylar.Http Sylar.Lib

structure Absolute extends Frame where
  server : Authority
  authority_eq : authority = server.text

namespace Absolute

/-- The offset of a part in the text, and the part. -/
def part (x : Absolute) : UrlField → Nat × Bytes
  | .UF_SCHEMA => (0, x.scheme)
  | .UF_USERINFO => (x.authorityAt, x.server.userinfo)
  | .UF_HOST => (x.authorityAt + x.server.hostAt, x.server.host)
  | .UF_PORT => (x.authorityAt + x.server.portAt, x.server.port)
  | .UF_PATH => (x.pathAt, x.path)
  | .UF_QUERY => (x.queryAt, x.query)
  | .UF_FRAGMENT => (x.fragmentAt, x.fragment)

/-- What `http_parser_parse_url` leaves for the text. -/
def slices (x : Absolute) : HttpParserUrl := x.server.slices x.toFrame.slices x.authorityAt

/-- A part as its slice gives it. -/
def got (x : Absolute) (uf : UrlField) : Bytes := sliced x.text (x.part uf).1 (x.part uf).2.length

/-- The port that `Uri::Create` takes. -/
def gotPort (x : Absolute) : Option Int :=
  if x.server.port = [] then some (defaultPort (x.got .UF_SCHEMA))
  else (parsePort 0 (x.got .UF_PORT)).bind fun _ => stoi (x.got .UF_PORT)

end Absolute

/-! ## Slices -/

section
variable {u : HttpParserUrl} {uf k : UrlField} {buf : Bytes}

theorem putPart_text (off : Nat) (part : Bytes) : (putPart u uf off part).text k buf =
    if k = uf then (if part = [] then u.text k buf else some (sliced buf off part.length)) else u.text k buf := by
  unfold putPart
  by_cases hpart : part = []
  · simp [hpart]
  · by_cases hk : k = uf
    · simp [hpart, hk, HttpParserUrl.text, HttpParserUrl.put, sliced, UInt16.toNat_ofNat']
    · simp [hpart, hk, HttpParserUrl.text, HttpParserUrl.put]

theorem put_text_other (h : k ≠ uf) (d : Slice) : (u.put uf d).text k buf = u.text k buf := by
  simp [HttpParserUrl.text, HttpParserUrl.put, h]

end

namespace Frame
variable (f : Frame)

theorem scheme_field : f.slices.fields .UF_SCHEMA = some ⟨0, UInt16.ofNat f.scheme.length⟩ := by
  unfold slices
  rw [putPart_fields_other (by decide), putPart_fields_other (by decide), putPart_fields_other (by decide),
    putPart_fields_other (by decide), putPart_fields_self f.scheme_ne]
  rfl

theorem host_field : f.slices.fields .UF_HOST =
    some ⟨UInt16.ofNat f.authorityAt, UInt16.ofNat f.authority.length⟩ := by
  unfold slices
  rw [putPart_fields_other (by decide), putPart_fields_other (by decide), putPart_fields_other (by decide),
    putPart_fields_self f.authority_ne]

/-- The host's slice is the authority when its offset and length fit. -/
theorem host_slice (hat : f.authorityAt < 65536) (hlen : f.authority.length < 65536) :
    (f.text.drop (UInt16.ofNat f.authorityAt).toNat).take (UInt16.ofNat f.authority.length).toNat =
      f.authority := by
  have hdrop : f.text.drop f.authorityAt = f.authority ++ f.tail := by
    have hbefore : (f.scheme ++ ascii "://").length = f.authorityAt := List.length_append
    rw [← hbefore, text, ← List.append_assoc, List.drop_left]
  rw [UInt16.toNat_ofNat_of_lt' hat, UInt16.toNat_ofNat_of_lt' hlen, hdrop, List.take_left]

/-- After the loop there are the host and the port to look at. -/
theorem parse_eq : httpParserParseUrl f.text false =
    (httpParseHost f.text f.slices (decide (chr '@' ∈ f.authority))).bind fun u =>
      match u.text .UF_PORT f.text with
      | none => some u
      | some digits => (parsePort 0 digits).map fun port => { u with port := port } := by
  have hne : f.text ≠ [] := by simp [text, f.scheme_ne]
  unfold httpParserParseUrl
  simp only [hne, if_false, Bool.false_eq_true, f.parseUrlLoop_text, f.scheme_field, f.host_field,
    Option.bind_eq_bind, Option.bind_some, Option.isSome_some, Option.isNone_some, if_true, false_and, and_false,
    Option.map_eq_bind]
  rfl

/-- The authority of a frame that is accepted is one. -/
theorem exists_server (hat : f.authorityAt < 65536) (hlen : f.authority.length < 65536) {u : HttpParserUrl}
    (h : httpParserParseUrl f.text false = some u) : ∃ a : Authority, f.authority = a.text := by
  rw [f.parse_eq] at h
  obtain ⟨v, hhost, -⟩ := Option.bind_eq_some_iff.mp h
  obtain ⟨a, ha⟩ := exists_authority f.host_field hhost
  rw [f.host_slice hat hlen] at ha
  exact ⟨a, ha.symm⟩

theorem authority_le : f.authorityAt + f.authority.length ≤ f.text.length := by
  simp only [text, authorityAt, ascii, List.length_append]
  have hsep : ("://".toList.map chr).length = 3 := rfl
  omega

end Frame

namespace Absolute
variable (x : Absolute)

theorem slices_text (uf : UrlField) : x.slices.text uf x.text =
    if (x.part uf).2 = [] then none else some (x.got uf) := by
  have hnone : ∀ k, ({} : HttpParserUrl).text k x.text = none := fun _ => rfl
  have hhost := x.server.host_ne
  have hscheme := x.scheme_ne
  unfold slices Authority.slices Frame.slices got
  cases uf with
  | UF_HOST => simp [putPart_text, part, hhost]
  | UF_SCHEMA => simp [putPart_text, put_text_other, part, hscheme]
  | _ =>
    simp [putPart_text, put_text_other, part, hnone]
    rfl

theorem getD_slices_text (uf : UrlField) : (x.slices.text uf x.text).getD [] = x.got uf := by
  rw [slices_text]
  split
  · next h => simp [got, h, sliced]
  · rfl

theorem parse_text (hat : x.authorityAt < 65536) (hlen : x.authority.length < 65536) :
    httpParserParseUrl x.text false =
      if x.server.port = [] then some x.slices
      else (parsePort 0 (x.got .UF_PORT)).map fun port => { x.slices with port := port } := by
  have hserver := x.server.httpParseHost_text x.host_field ((x.host_slice hat hlen).trans x.authority_eq)
  rw [← x.authority_eq] at hserver
  rw [x.parse_eq, hserver, Option.bind_some]
  have hport := x.slices_text .UF_PORT
  unfold slices at hport
  rw [hport]
  by_cases hnil : x.server.port = []
  · simp only [part, hnil, if_true]
    rfl
  · simp only [part, hnil, if_false]
    rfl

/-- The URI that is read from the text. -/
theorem create_text (hat : x.authorityAt < 65536) (hlen : x.authority.length < 65536) :
    create x.text = x.gotPort.map fun port =>
      { scheme := x.got .UF_SCHEMA
        userinfo := x.got .UF_USERINFO
        host := x.got .UF_HOST
        port := port
        path := x.got .UF_PATH
        query := x.got .UF_QUERY
        fragment := x.got .UF_FRAGMENT } := by
  have htext : ∀ (port : UInt16) (uf : UrlField), ({ x.slices with port := port } : HttpParserUrl).text uf x.text =
      x.slices.text uf x.text := fun _ _ => rfl
  have hport := x.slices_text .UF_PORT
  unfold create gotPort
  rw [x.parse_text hat hlen]
  by_cases hnil : x.server.port = []
  · simp [hnil, part, hport, getD_slices_text]
  · cases hparse : parsePort 0 (x.got .UF_PORT) with
    | none => simp [hnil]
    | some p => simp [hnil, htext, part, hport, getD_slices_text, Option.map_eq_bind]

/-- Where a part stands that is there. -/
theorem part_at {uf : UrlField} (h : (x.part uf).2 ≠ []) :
    ∃ before after, x.text = before ++ ((x.part uf).2 ++ after) ∧ before.length = (x.part uf).1 := by
  have hsep : (ascii "://").length = 3 := rfl
  have hserver := x.authority_eq
  cases uf with
  | UF_SCHEMA => exact ⟨[], _, rfl, rfl⟩
  | UF_USERINFO =>
    refine ⟨x.scheme ++ ascii "://", x.server.sign ++ (x.server.tail ++ x.tail), ?_, ?_⟩
    · simp only [Frame.text, part, hserver, Authority.text, List.append_assoc]
    · exact List.length_append
  | UF_HOST =>
    refine ⟨x.scheme ++ (ascii "://" ++ (x.server.userinfo ++ (x.server.sign ++ x.server.opening))),
      x.server.closing ++ (urlPart ':' x.server.port ++ x.tail), ?_, ?_⟩
    · simp only [Frame.text, part, hserver, Authority.text, HostPort.tail, List.append_assoc]
    · simp only [part, Frame.authorityAt, Authority.hostAt, List.length_append, hsep]
      omega
  | UF_PORT =>
    have hport : urlPart ':' x.server.port = [chr ':'] ++ x.server.port := if_neg h
    refine ⟨x.scheme ++ (ascii "://" ++ (x.server.userinfo ++ (x.server.sign ++ (x.server.opening ++
      (x.server.host ++ (x.server.closing ++ [chr ':'])))))), x.tail, ?_, ?_⟩
    · simp only [Frame.text, part, hserver, Authority.text, HostPort.tail, hport, List.append_assoc]
    · simp only [part, Frame.authorityAt, Authority.portAt, Authority.hostAt, List.length_append, hsep,
        List.length_singleton]
      omega
  | UF_PATH =>
    refine ⟨x.scheme ++ (ascii "://" ++ x.authority), x.toAfterPath.tail, ?_, ?_⟩
    · simp only [Frame.text, part, AfterAuthority.tail, List.append_assoc]
    · simp only [part, Frame.pathAt, Frame.authorityAt, List.length_append, hsep]
      omega
  | UF_QUERY =>
    refine ⟨x.scheme ++ (ascii "://" ++ (x.authority ++ (x.path ++ x.mark))), x.toAfterQuery.tail, ?_, ?_⟩
    · simp only [Frame.text, part, AfterAuthority.tail, AfterPath.tail, List.append_assoc]
    · simp only [part, Frame.queryAt, Frame.pathAt, Frame.authorityAt, List.length_append, hsep]
      omega
  | UF_FRAGMENT =>
    refine ⟨x.scheme ++ (ascii "://" ++ (x.authority ++ (x.path ++ (x.mark ++ (x.query ++ x.hashes))))), [], ?_, ?_⟩
    · simp only [Frame.text, part, AfterAuthority.tail, AfterPath.tail, AfterQuery.tail, List.append_assoc,
        List.append_nil]
    · simp only [part, Frame.fragmentAt, Frame.queryAt, Frame.pathAt, Frame.authorityAt, List.length_append, hsep]
      omega

/-- A part that starts before 64 Ki and is shorter is there as it is. -/
theorem fits_part {uf : UrlField} (hat : (x.part uf).1 < 65536) (hlen : (x.part uf).2.length < 65536) :
    Fits x.text (x.part uf).1 (x.part uf).2 := by
  by_cases hnil : (x.part uf).2 = []
  · rw [hnil]
    exact ⟨by decide, rfl⟩
  · obtain ⟨before, after, htext, hbefore⟩ := x.part_at hnil
    refine ⟨hlen, ?_⟩
    rw [Nat.mod_eq_of_lt hat, htext, ← hbefore, List.drop_left, List.take_left]

theorem part_le {uf : UrlField} (h : (x.part uf).2 ≠ []) :
    (x.part uf).1 + (x.part uf).2.length ≤ x.text.length := by
  obtain ⟨before, after, htext, hbefore⟩ := x.part_at h
  rw [htext, ← hbefore, List.length_append, List.length_append]
  omega

/-- In a text shorter than 64 KiB every part is there as it is. -/
theorem got_of_short (hs : x.text.length ≤ 65535) (uf : UrlField) : x.got uf = (x.part uf).2 := by
  by_cases hnil : (x.part uf).2 = []
  · simp [got, hnil, sliced]
  · have hle := x.part_le hnil
    exact (sliced_eq_iff _ _ _).mpr (x.fits_part (by omega) (by omega))

end Absolute

/-! ## Ports -/

section
variable {ds : Bytes}

theorem le_foldl_decimal (ds : Bytes) : ∀ v : Nat, v ≤ ds.foldl (fun n d => n * 10 + (d - chr '0').toNat) v := by
  induction ds with
  | nil =>
    intro v
    exact Nat.le_refl v
  | cons d ds ih =>
    intro v
    rw [List.foldl_cons]
    refine Nat.le_trans ?_ (ih _)
    omega

theorem digit_toInt {c : UInt8} (h : isNum c = true) : c.toInt8.toInt - 48 = ((c - chr '0').toNat : Int) := by
  revert c
  apply forall_byte
  decide +kernel

/-- A digit more. -/
theorem toNat_digit {v : UInt64} (hv : v.toNat ≤ 65535) {d : UInt8} (hd : isNum d = true) :
    (v * 10 + UInt64.ofInt (d.toInt8.toInt - 48)).toNat = v.toNat * 10 + (d - chr '0').toNat := by
  have hlt : (d - chr '0').toNat < 256 := UInt8.toNat_lt _
  have hdigit : (UInt64.ofInt (d.toInt8.toInt - 48)).toNat = (d - chr '0').toNat := by
    rw [digit_toInt hd, UInt64.ofInt, UInt64.toNat_ofNat']
    omega
  rw [UInt64.toNat_add, UInt64.toNat_mul, hdigit]
  simp only [UInt64.reduceToNat]
  omega

theorem parsePort_from_iff : ∀ (ds : Bytes) {v : UInt64}, (∀ d ∈ ds, isNum d = true) → v.toNat ≤ 65535 →
    ((∃ port, parsePort v ds = some port) ↔
      ds.foldl (fun n d => n * 10 + (d - chr '0').toNat) v.toNat ≤ 65535) := by
  intro ds
  induction ds with
  | nil =>
    intro v _ hv
    exact iff_of_true ⟨_, rfl⟩ hv
  | cons d ds ih =>
    intro v hnum hv
    have hnext := toNat_digit hv (hnum d List.mem_cons_self)
    have hrest : ∀ c ∈ ds, isNum c = true := fun c hc => hnum c (List.mem_cons_of_mem d hc)
    rw [parsePort, List.foldl_cons, ← hnext]
    split
    · next hbig =>
      have hle := le_foldl_decimal ds (v * 10 + UInt64.ofInt (d.toInt8.toInt - 48)).toNat
      have hbig := UInt64.lt_iff_toNat_lt.mp hbig
      simp only [UInt64.reduceToNat] at hbig
      refine iff_of_false (by simp) ?_
      omega
    · next hsmall =>
      rw [UInt64.lt_iff_toNat_lt] at hsmall
      simp only [UInt64.reduceToNat] at hsmall
      exact ih hrest (by omega)

/-- The conversion of a port fails above 65535 only. -/
theorem parsePort_eq_some_iff (hnum : ∀ d ∈ ds, isNum d = true) :
    (∃ port, parsePort 0 ds = some port) ↔ decimal ds ≤ 65535 := parsePort_from_iff ds hnum (by decide)

theorem num_not_blank {c : UInt8} (h : isNum c = true) : isSpace c = false ∧ c ≠ chr '-' ∧ c ≠ chr '+' := by
  revert c
  apply forall_byte
  decide +kernel

theorem alpha_not_blank {c : UInt8} (h : isAlpha c = true) :
    isSpace c = false ∧ c ≠ chr '-' ∧ c ≠ chr '+' ∧ isNum c = false := by
  revert c
  apply forall_byte
  decide +kernel

theorem stoi_digits (h : IsLength ds) (hmax : decimal ds ≤ 65535) : stoi ds = some (decimal ds : Int) := by
  obtain ⟨hne, hnum⟩ := h
  obtain ⟨d, rest, rfl⟩ := List.exists_cons_of_ne_nil hne
  obtain ⟨hblank, hminus, hplus⟩ := num_not_blank (hnum d List.mem_cons_self)
  have htake : (d :: rest).takeWhile isNum = d :: rest := List.takeWhile_eq_self_iff.mpr hnum
  unfold stoi
  simp only [List.dropWhile_cons, hblank, Bool.false_eq_true, if_false, List.head?_cons, Option.some.injEq, hminus,
    hplus, or_self, htake, List.cons_ne_nil, Int.one_mul]
  rw [if_neg (by omega)]

theorem stoi_alpha {c : UInt8} (h : isAlpha c = true) (rest : Bytes) : stoi (c :: rest) = none := by
  obtain ⟨hblank, hminus, hplus, hnum⟩ := alpha_not_blank h
  simp [stoi, hblank, hminus, hplus, hnum]

end

/-- The URI that a URL stands for. -/
def Absolute.uri (x : Absolute) : Uri :=
  { scheme := x.scheme
    userinfo := x.server.userinfo
    host := x.server.host
    port := if x.server.port = [] then defaultPort x.scheme else (decimal x.server.port : Int)
    path := x.path
    query := x.query
    fragment := x.fragment }

theorem Absolute.create_of_short (x : Absolute) (hs : x.text.length ≤ 65535) {u : Uri}
    (h : create x.text = some u) : u = x.uri ∧ decimal x.server.port ≤ 65535 := by
  have hlength := x.authority_le
  rw [x.create_text (by omega) (by omega)] at h
  unfold gotPort at h
  simp only [x.got_of_short hs, part] at h
  by_cases hnil : x.server.port = []
  · simp only [hnil, if_true, Option.map_some, Option.some.injEq] at h
    rw [hnil, ← h]
    simp [uri, hnil, decimal]
  · rw [if_neg hnil] at h
    obtain ⟨port, hport, rfl⟩ := Option.map_eq_some_iff.mp h
    obtain ⟨p, hparse, hstoi⟩ := Option.bind_eq_some_iff.mp hport
    have hmax : decimal x.server.port ≤ 65535 := (parsePort_eq_some_iff x.server.port_num).mp ⟨p, hparse⟩
    rw [stoi_digits ⟨hnil, x.server.port_num⟩ hmax] at hstoi
    cases hstoi
    refine ⟨?_, hmax⟩
    simp [uri, hnil]

/-! ## What is accepted -/

theorem parse_of_create {s : Bytes} {u : Uri} (h : create s = some u) :
    ∃ parser, httpParserParseUrl s false = some parser := by
  unfold create at h
  obtain ⟨parser, hparse, -⟩ := Option.bind_eq_some_iff.mp h
  exact ⟨parser, hparse⟩

/-- A URL that is accepted is relative or an absolute one. -/
theorem exists_absolute {s : Bytes} (hs : s.length ≤ 65535) {u : HttpParserUrl}
    (h : httpParserParseUrl s false = some u) :
    (∃ c ∈ s.head?, c = chr '/' ∨ c = chr '*') ∨ ∃ x : Absolute, x.text = s := by
  rcases exists_frame h with hrelative | ⟨f, rfl⟩
  · exact Or.inl hrelative
  · have hlength := f.authority_le
    obtain ⟨a, ha⟩ := f.exists_server (by omega) (by omega) h
    exact Or.inr ⟨⟨f, a, ha⟩, rfl⟩

/-- A relative URL has only a path, a query and a fragment. -/
theorem parseUrlLoop_relative {c : UInt8} (hc : parseUrlChar .s_req_spaces_before_url c = .s_req_path)
    {path : Bytes} (hpath : ∀ c ∈ path, PathChar c) (f : AfterPath) :
    ∃ v, parseUrlLoop .s_req_spaces_before_url none false {} 0 (c :: (path ++ f.tail)) = some (false, v) ∧
      ∀ uf, uf ≠ .UF_PATH → uf ≠ .UF_QUERY → uf ≠ .UF_FRAGMENT → v.fields uf = none := by
  have hstart := parseUrlLoop_start (s := .s_req_spaces_before_url) (t := .s_req_path) (u := {}) (a := false) rfl
    (by decide) (by decide) (by decide : (none : Option UrlField) ≠ some .UF_PATH) hc
    (fun c hc => parseUrlChar_path (hpath c hc)) 0 f.tail
  rw [UInt16.zero_add, List.cons_append] at hstart
  rw [hstart, f.parseUrlLoop_tail _ rfl (fun _ _ => rfl) (by decide) (by decide)]
  refine ⟨_, rfl, ?_⟩
  intro uf hp hq hf
  rw [putPart_fields_other hf, putPart_fields_other hq]
  simp [HttpParserUrl.put, hp]

/-- A relative URL has no scheme. -/
theorem scheme_of_relative {s : Bytes} {u : Uri} (hs : ∃ c ∈ s.head?, c = chr '/' ∨ c = chr '*')
    (h : create s = some u) : u.scheme = [] := by
  obtain ⟨c, hc, hrelative⟩ := hs
  obtain ⟨cs, rfl⟩ : ∃ cs, s = c :: cs := ⟨_, List.eq_cons_of_mem_head? hc⟩
  have hnext : parseUrlChar .s_req_spaces_before_url c = .s_req_path := by
    rcases hrelative with rfl | rfl
    all_goals rfl
  unfold create at h
  obtain ⟨v, hv, hu⟩ := Option.bind_eq_some_iff.mp h
  have hschema : v.fields .UF_SCHEMA = none := by
    cases hr : parseUrlLoop .s_req_spaces_before_url none false {} 0 (c :: cs) with
    | none => simp [httpParserParseUrl, hr] at hv
    | some r =>
      have hlive := live_of_parseUrlLoop (by decide) hr
      rw [List.foldl_cons, hnext] at hlive
      obtain ⟨path, f, rfl, hpath⟩ := exists_afterPath hlive
      obtain ⟨w, hloop, hfields⟩ := parseUrlLoop_relative hnext hpath f
      have hport : w.text .UF_PORT (c :: (path ++ f.tail)) = none := by
        simp [HttpParserUrl.text, hfields]
      simp [httpParserParseUrl, hloop, hfields, hport] at hv
      rw [← hv]
      exact (hfields _ (by decide) (by decide) (by decide))
  have hscheme : u.scheme = (v.text .UF_SCHEMA (c :: cs)).getD [] := by
    simp only at hu
    split at hu
    all_goals
      obtain ⟨port, -, heq⟩ := Option.bind_eq_some_iff.mp hu
      cases heq
      rfl
  rw [hscheme]
  simp [HttpParserUrl.text, hschema]

end Sylar.Uri
