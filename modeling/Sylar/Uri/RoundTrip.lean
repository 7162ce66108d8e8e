import Mathlib.Data.Nat.Digits.Lemmas
import Sylar.Uri.Absolute

/- `Uri::toString` after `Uri::Create`, and `Uri::Create` again.

   What is printed is a frame with one spelling for each part (`printedFrame`). It has the host
   without the brackets it came in, so its authority is an authority only when the host is
   plain; and it may be longer than the URL that was read, so that a part can stand at an offset
   that 16 bits do not hold. `uri_round_trip_iff` says that nothing else goes wrong. -/
namespace Sylar.Uri
open Sylar.Http Sylar.Lib

/-- The digits of the port in `toString`. -/
def portText (u : Uri) : Bytes := if u.isDefaultPort then [] else toText u.port

theorem decimal_lt {ds : Bytes} (h : ∀ d ∈ ds, isNum d = true) : decimal ds < 10 ^ ds.length := by
  induction ds using List.reverseRecOn with
  | nil => decide
  | append_singleton ds d ih =>
    have hds := ih fun c hc => h c (List.mem_append_left [d] hc)
    have hd := digit_lt (h d (by simp))
    rw [decimal_append, List.length_append, List.length_singleton, Nat.pow_succ]
    omega

theorem getPath_ne (u : Uri) : u.getPath ≠ [] := by
  unfold getPath
  split
  · decide
  · next h => exact h

theorem port_of_default {u : Uri} (h : u.isDefaultPort = true) : u.port = defaultPort u.scheme := by
  revert h
  unfold isDefaultPort defaultPort
  split
  · simp
  · split
    · simp
    · simp

/-! ## The printed frame -/

theorem parseUrlChar_userinfo {s : State} (hs : InAuthority s) {c : UInt8} (h : isUserinfoChar c = true) :
    parseUrlChar s c = .s_req_server := by
  revert c
  rcases hs with rfl | rfl | rfl
  all_goals
    apply forall_byte
    decide +kernel

theorem foldl_userinfoChars {cs : Bytes} (h : ∀ c ∈ cs, isUserinfoChar c = true) : ∀ {s : State}, InAuthority s →
    cs.foldl parseUrlChar s = s ∨ cs.foldl parseUrlChar s = .s_req_server := by
  induction cs with
  | nil =>
    intro s _
    exact Or.inl rfl
  | cons c cs ih =>
    intro s hs
    obtain ⟨hc, hcs⟩ := List.forall_mem_cons.mp h
    rw [List.foldl_cons, parseUrlChar_userinfo hs hc]
    exact Or.inr ((ih hcs (Or.inr (Or.inl rfl))).elim id id)

/-- User and host characters go through the authority, with one `@` between them at most. -/
theorem authority_live_of {before sign after : Bytes} (hbefore : ∀ c ∈ before, isUserinfoChar c = true)
    (hsign : sign = [] ∨ sign = [chr '@']) (hafter : ∀ c ∈ after, isUserinfoChar c = true) :
    (before ++ (sign ++ after)).foldl parseUrlChar .s_req_server_start ≠ .s_dead := by
  have hstart := foldl_userinfoChars hbefore (s := .s_req_server_start) (Or.inl rfl)
  have hmiddle : InAuthority (sign.foldl parseUrlChar (before.foldl parseUrlChar .s_req_server_start)) := by
    rcases hsign with rfl | rfl
    · exact hstart.imp_right Or.inl
    · rcases hstart with h | h
      all_goals
        rw [h]
        exact Or.inr (Or.inr rfl)
  rw [List.foldl_append, List.foldl_append]
  intro hdead
  rcases foldl_userinfoChars hafter hmiddle with h | h
  all_goals
    rw [h] at hdead
    revert hdead
  · rcases hmiddle with h | h | h
    all_goals
      rw [h]
      decide
  · decide

namespace Absolute
variable (x : Absolute)

/-- The port as a number without a sign. -/
def portNumber : Nat := if x.server.port = [] then (defaultPort x.scheme).toNat else decimal x.server.port

theorem port_eq : x.uri.port = x.portNumber := by
  unfold uri portNumber defaultPort
  by_cases hnil : x.server.port = []
  · simp only [hnil, if_true]
    split
    · rfl
    · split
      · rfl
      · rfl
  · simp [hnil]

theorem toText_port : toText x.uri.port = decimalText x.portNumber := by
  have hpos : ¬(x.portNumber : Int) < 0 := by omega
  rw [port_eq, toText, if_neg hpos]
  rfl

theorem toText_port_isLength : IsLength (toText x.uri.port) := by
  rw [toText_port]
  exact decimalText_isLength _

theorem portText_num : ∀ c ∈ portText x.uri, isNum c = true := by
  unfold portText
  split
  · simp
  · exact x.toText_port_isLength.2

/-- What `toString` writes after the authority. -/
def printedTail : AfterAuthority where
  toAfterPath := .written x.query x.fragment x.query_chars x.fragment_start x.fragment_chars
  path := x.uri.getPath
  path_start := by
    unfold getPath
    split
    · intro c hc
      exact (Option.some.inj hc).symm
    · exact x.path_start
  path_chars := by
    unfold getPath
    split
    · simp [ascii, PathChar]
      decide
    · exact x.path_chars
  hashes_after := by
    intro _
    exact Or.inl (getPath_ne x.uri)

theorem printedHost_chars : ∀ c ∈ x.server.host ++ urlPart ':' (portText x.uri), isUserinfoChar c = true := by
  intro c hc
  rcases List.mem_append.mp hc with h | h
  · exact x.server.host_chars c h
  · exact port_chars x.portText_num c h

/-- What `toString` writes for the authority; a host has lost its brackets. -/
def printedAuthority : Bytes :=
  x.server.userinfo ++ ((if x.server.userinfo = [] then [] else [chr '@']) ++
    (x.server.host ++ urlPart ':' (portText x.uri)))

theorem printedAuthority_chars : ∀ c ∈ x.printedAuthority, isUserinfoChar c = true ∨ c = chr '@' := by
  intro c hc
  unfold printedAuthority at hc
  rcases List.mem_append.mp hc with h | h
  · exact Or.inl (x.server.userinfo_chars c h)
  · rcases List.mem_append.mp h with h | h
    · split at h
      · cases h
      · exact Or.inr (List.mem_singleton.mp h)
    · exact Or.inl (x.printedHost_chars c h)

/-- What `toString` writes, as the loop of the parser sees it. -/
def printedFrame : Frame where
  toAfterAuthority := x.printedTail
  scheme := x.scheme
  authority := x.printedAuthority
  scheme_ne := x.scheme_ne
  scheme_alpha := x.scheme_alpha
  authority_ne := by simp [printedAuthority, x.server.host_ne]
  authority_inside := by
    intro c hc
    rcases x.printedAuthority_chars c hc with h | h
    · exact (userinfoChar_ne h).1
    · rw [h]
      decide
  authority_live := by
    refine authority_live_of x.server.userinfo_chars ?_ x.printedHost_chars
    split
    · exact Or.inl rfl
    · exact Or.inr rfl

theorem printedFrame_text : x.printedFrame.text = x.uri.toString := by
  have hport : (if x.uri.isDefaultPort then [] else ascii ":" ++ toText x.uri.port) =
      urlPart ':' (portText x.uri) := by
    unfold portText urlPart
    split
    · rfl
    · rw [if_neg x.toText_port_isLength.1]
      rfl
  simp only [Frame.text, AfterAuthority.tail, AfterPath.tail, AfterQuery.tail, printedFrame, printedTail,
    AfterPath.written, printedAuthority, toString, hport]
  simp only [List.append_assoc]
  rfl

/-! ## Where the printed parts stand -/

theorem portNumber_le (hp : decimal x.server.port ≤ 65535) : x.portNumber ≤ 65535 := by
  unfold portNumber defaultPort
  split
  · split
    · decide
    · split
      · decide
      · decide
  · exact hp

/-- The port is printed with at most the digits it was read from. -/
theorem toText_port_length (h : x.server.port ≠ []) : (toText x.uri.port).length ≤ x.server.port.length := by
  have hpos := List.length_pos_of_ne_nil h
  have hnumber : x.portNumber = decimal x.server.port := if_neg h
  rw [toText_port, hnumber, decimalText]
  split
  · exact hpos
  · rw [List.length_map, List.length_reverse, Nat.digits_length_le_iff (by decide)]
    exact decimal_lt x.server.port_num

/-- Without a port in the URL, the port is not printed or it is `0`. -/
theorem portText_of_nil (h : x.server.port = []) : portText x.uri = [] ∨ portText x.uri = [chr '0'] := by
  have hport : x.uri.port = defaultPort x.scheme := if_pos h
  unfold portText isDefaultPort
  rw [hport, defaultPort]
  by_cases hhttp : x.scheme = ascii "http" ∨ x.scheme = ascii "ws"
  · simp [uri, hhttp]
  · by_cases hhttps : x.scheme = ascii "https"
    · simp [uri, hhttps]
    · right
      simp [uri, hhttp, hhttps]
      rfl

theorem urlPart_portText_length :
    (urlPart ':' (portText x.uri)).length ≤ (urlPart ':' x.server.port).length + 2 := by
  by_cases hnil : x.server.port = []
  · rcases x.portText_of_nil hnil with h | h
    all_goals simp [urlPart, h]
  · have hlength := x.toText_port_length hnil
    have hprinted : (urlPart ':' (portText x.uri)).length ≤ (toText x.uri.port).length + 1 := by
      unfold urlPart portText
      split
      · simp
      · split
        · simp
        · simp
    rw [urlPart.eq_def _ x.server.port, if_neg hnil, List.length_cons]
    omega

theorem printedSign_length : (if x.server.userinfo = [] then [] else [chr '@']).length ≤ x.server.sign.length := by
  rcases x.server.sign_eq with ⟨hsign, huser⟩ | hsign
  · simp [huser]
  · rw [hsign]
    split
    · simp
    · simp

theorem printedAuthority_length : x.printedAuthority.length ≤ x.authority.length + 2 := by
  have hport := x.urlPart_portText_length
  have hsign := x.printedSign_length
  rw [x.authority_eq]
  simp only [printedAuthority, Authority.text, HostPort.tail, List.length_append]
  omega

theorem printed_short (hs : x.text.length ≤ 65535) :
    x.printedFrame.authorityAt < 65536 ∧ x.printedFrame.authority.length < 65536 := by
  have hle := x.authority_le
  have hscheme := List.length_pos_of_ne_nil x.scheme_ne
  have hlength := x.printedAuthority_length
  unfold Frame.authorityAt at hle
  change x.scheme.length + 3 < 65536 ∧ x.printedAuthority.length < 65536
  omega

/-- What `toString` writes when the host is plain. -/
def printed (hhost : ∀ c ∈ x.server.host, isHostChar c = true) : Absolute where
  toFrame := x.printedFrame
  server :=
    { opening := []
      host := x.server.host
      closing := []
      port := portText x.uri
      host_ne := x.server.host_ne
      host_eq := Or.inl ⟨rfl, rfl, hhost⟩
      port_num := x.portText_num
      userinfo := x.server.userinfo
      sign := if x.server.userinfo = [] then [] else [chr '@']
      userinfo_chars := x.server.userinfo_chars
      sign_eq := by
        split
        · next h => exact Or.inl ⟨rfl, h⟩
        · exact Or.inr rfl }
  authority_eq := by
    simp [printedFrame, printedAuthority, Authority.text, HostPort.tail]

/-- The URL has a plain host, and every part of what is printed for it stands where its 16-bit offset
points. -/
def Kept : Prop :=
  ∃ hhost : ∀ c ∈ x.server.host, isHostChar c = true, ∀ uf,
    Fits (x.printed hhost).text ((x.printed hhost).part uf).1 ((x.printed hhost).part uf).2

section
variable (hhost : ∀ c ∈ x.server.host, isHostChar c = true)

theorem create_printed (hs : x.text.length ≤ 65535) :
    create x.uri.toString = (x.printed hhost).gotPort.map fun port =>
      { scheme := (x.printed hhost).got .UF_SCHEMA
        userinfo := (x.printed hhost).got .UF_USERINFO
        host := (x.printed hhost).got .UF_HOST
        port := port
        path := (x.printed hhost).got .UF_PATH
        query := (x.printed hhost).got .UF_QUERY
        fragment := (x.printed hhost).got .UF_FRAGMENT } := by
  obtain ⟨hat, hlen⟩ := x.printed_short hs
  rw [← x.printedFrame_text]
  exact (x.printed hhost).create_text hat hlen

/-- The printed port is read back where it fits. -/
theorem gotPort_of_fits (hp : decimal x.server.port ≤ 65535)
    (h : ∀ uf, (x.printed hhost).got uf = ((x.printed hhost).part uf).2) :
    (x.printed hhost).gotPort = some x.uri.port := by
  unfold gotPort
  rw [h, h]
  change (if portText x.uri = [] then some (defaultPort x.scheme)
    else (parsePort 0 (portText x.uri)).bind fun _ => stoi (portText x.uri)) = _
  unfold portText
  by_cases hdefault : x.uri.isDefaultPort = true
  · rw [if_pos hdefault, if_pos rfl]
    exact congrArg some (port_of_default hdefault).symm
  · have hlength := x.toText_port_isLength
    have hdecimal : decimal (toText x.uri.port) = x.portNumber := by rw [toText_port, decimal_decimalText]
    have hmax : decimal (toText x.uri.port) ≤ 65535 := hdecimal ▸ x.portNumber_le hp
    obtain ⟨p, hparse⟩ := (parsePort_eq_some_iff hlength.2).mpr hmax
    rw [if_neg hdefault, if_neg hlength.1, hparse, Option.bind_some, stoi_digits hlength hmax, hdecimal, port_eq]

theorem roundTrips_of_fits (hs : x.text.length ≤ 65535) (hp : decimal x.server.port ≤ 65535)
    (hfits : ∀ uf, Fits (x.printed hhost).text ((x.printed hhost).part uf).1 ((x.printed hhost).part uf).2) :
    x.uri.RoundTrips := by
  have hgot : ∀ uf, (x.printed hhost).got uf = ((x.printed hhost).part uf).2 :=
    fun uf => (sliced_eq_iff _ _ _).mpr (hfits uf)
  have hpart : (x.printed hhost).got .UF_PATH = x.uri.getPath := hgot .UF_PATH
  have hcreate := x.create_printed hhost hs
  rw [x.gotPort_of_fits hhost hp hgot, Option.map_some] at hcreate
  refine ⟨_, hcreate, hgot _, hgot _, hgot _, ?_, ?_, hgot _, hgot _⟩
  · unfold getPort
    rw [hgot]
    rfl
  · change (if (x.printed hhost).got .UF_PATH = [] then ascii "/" else (x.printed hhost).got .UF_PATH) = _
    rw [hpart, if_neg (getPath_ne x.uri)]

theorem printed_portAt_le : ((x.printed hhost).part .UF_PORT).1 ≤ x.text.length + 1 := by
  have hle := x.authority_le
  have hsign := x.printedSign_length
  rw [x.authority_eq] at hle
  simp only [Authority.text, HostPort.tail, List.length_append, Frame.authorityAt] at hle
  simp only [part, Frame.authorityAt, Authority.portAt, Authority.hostAt, printed, printedFrame, List.length_nil]
  omega

/-- A port that is read back stood where its offset points: else a letter of the scheme is read. -/
theorem fits_port (hs : x.text.length ≤ 65535) {port : Int}
    (h : (x.printed hhost).gotPort = some port) :
    Fits (x.printed hhost).text ((x.printed hhost).part .UF_PORT).1 ((x.printed hhost).part .UF_PORT).2 := by
  have hlength : ((x.printed hhost).part .UF_PORT).2.length < 65536 := by
    have hle := x.printed_short hs
    change _ ∧ x.printedAuthority.length < 65536 at hle
    change (portText x.uri).length < 65536
    have hpart : (portText x.uri).length ≤ (urlPart ':' (portText x.uri)).length := by
      unfold urlPart
      split
      · next h => simp [h]
      · simp
    simp only [printedAuthority, List.length_append] at hle
    omega
  by_cases hat : ((x.printed hhost).part .UF_PORT).1 < 65536
  · exact (x.printed hhost).fits_part hat hlength
  · by_cases hnil : (x.printed hhost).server.port = []
    · have hpart : ((x.printed hhost).part .UF_PORT).2 = [] := hnil
      rw [hpart]
      exact ⟨by decide, rfl⟩
    · have hzero : ((x.printed hhost).part .UF_PORT).1 % 65536 = 0 := by
        have hle := x.printed_portAt_le hhost
        have hend : ((x.printed hhost).part .UF_PORT).1 = 65536 := by omega
        rw [hend]
      unfold gotPort at h
      rw [if_neg hnil] at h
      obtain ⟨p, -, hstoi⟩ := Option.bind_eq_some_iff.mp h
      obtain ⟨c, cs, hscheme⟩ := List.exists_cons_of_ne_nil x.scheme_ne
      have hpos : 0 < ((x.printed hhost).part .UF_PORT).2.length := List.length_pos_of_ne_nil hnil
      obtain ⟨n, hn⟩ : ∃ n, ((x.printed hhost).part .UF_PORT).2.length % 65536 = n + 1 :=
        ⟨((x.printed hhost).part .UF_PORT).2.length - 1, by omega⟩
      have htext : (x.printed hhost).text = c :: (cs ++ (ascii "://" ++ ((x.printed hhost).authority ++
          (x.printed hhost).tail))) := by
        rw [← List.cons_append, ← hscheme]
        rfl
      have halpha : isAlpha c = true := x.scheme_alpha c (by rw [hscheme]; exact List.mem_cons_self)
      rw [got, sliced, hzero, hn, List.drop_zero, htext, List.take_succ_cons, stoi_alpha halpha] at hstoi
      cases hstoi

theorem fits_path (hs : x.text.length ≤ 65535)
    (h : (if (x.printed hhost).got .UF_PATH = [] then ascii "/" else (x.printed hhost).got .UF_PATH) =
      x.uri.getPath) :
    Fits (x.printed hhost).text ((x.printed hhost).part .UF_PATH).1 ((x.printed hhost).part .UF_PATH).2 := by
  have hne : ((x.printed hhost).part .UF_PATH).2 ≠ [] := getPath_ne x.uri
  have hpos := List.length_pos_of_ne_nil hne
  have hle := (x.printed hhost).part_le hne
  have hlength : ((x.printed hhost).part .UF_PATH).2.length < 65536 := by
    change x.uri.getPath.length < 65536
    unfold getPath
    split
    · decide
    · next hpath =>
      have hne : (x.part .UF_PATH).2 ≠ [] := hpath
      have hpart : x.pathAt + x.path.length ≤ x.text.length := x.part_le hne
      change x.path.length < 65536
      omega
  have hmod := Nat.mod_le ((x.printed hhost).part .UF_PATH).1 65536
  have hgot : (x.printed hhost).got .UF_PATH ≠ [] := by
    apply List.ne_nil_of_length_pos
    rw [got, sliced, List.length_take, List.length_drop, Nat.mod_eq_of_lt hlength]
    omega
  rw [if_neg hgot] at h
  exact (sliced_eq_iff _ _ _).mp h

theorem fits_of_roundTrips (hs : x.text.length ≤ 65535) (h : x.uri.RoundTrips) (uf : UrlField) :
    Fits (x.printed hhost).text ((x.printed hhost).part uf).1 ((x.printed hhost).part uf).2 := by
  obtain ⟨v, hcreate, hscheme, huser, hhost', hport, hpath, hquery, hfragment⟩ := h
  rw [x.create_printed hhost hs] at hcreate
  obtain ⟨port, hgot, rfl⟩ := Option.map_eq_some_iff.mp hcreate
  cases uf with
  | UF_SCHEMA => exact (sliced_eq_iff _ _ _).mp hscheme
  | UF_USERINFO => exact (sliced_eq_iff _ _ _).mp huser
  | UF_HOST => exact (sliced_eq_iff _ _ _).mp hhost'
  | UF_PORT => exact x.fits_port hhost hs hgot
  | UF_PATH => exact x.fits_path hhost hs hpath
  | UF_QUERY => exact (sliced_eq_iff _ _ _).mp hquery
  | UF_FRAGMENT => exact (sliced_eq_iff _ _ _).mp hfragment

theorem printed_length : (x.printed hhost).text.length ≤ x.text.length + 3 := by
  have hauthority := x.printedAuthority_length
  have hpath : x.uri.getPath.length ≤ x.path.length + 1 := by
    unfold getPath
    split
    · exact Nat.le_add_left 1 _
    · exact Nat.le_add_right _ 1
  have hmark : (if x.query = [] then [] else [chr '?']).length ≤ x.mark.length := by
    rcases x.mark_eq with ⟨hm, hq⟩ | hm
    · simp [hq]
    · rw [hm]
      split
      · simp
      · simp
  have hhashes : (if x.fragment = [] then [] else [chr '#']).length ≤ x.hashes.length := by
    split
    · simp
    · next h => exact List.length_pos_of_ne_nil (x.fragment_after h)
  simp only [Frame.text, AfterAuthority.tail, AfterPath.tail, AfterQuery.tail, printed, printedFrame, printedTail,
    AfterPath.written, List.length_append]
  omega

end

/-- What is printed for a URL of up to 65532 bytes has room for every part. -/
theorem kept_of_short (hhost : ∀ c ∈ x.server.host, isHostChar c = true) (hs : x.text.length ≤ 65532) : x.Kept := by
  refine ⟨hhost, ?_⟩
  intro uf
  have hlength := x.printed_length hhost
  exact (sliced_eq_iff _ _ _).mp ((x.printed hhost).got_of_short (by omega) uf)

/-- What stands after the `@`, if there is one. -/
def afterAt (text : Bytes) : Bytes :=
  if chr '@' ∈ text then (text.dropWhile fun c => decide (c ≠ chr '@')).tail else text

theorem afterAt_eq {user sign rest : Bytes} (huser : chr '@' ∉ user) (hrest : chr '@' ∉ rest)
    (hsign : sign = [] ∧ user = [] ∨ sign = [chr '@']) : afterAt (user ++ (sign ++ rest)) = rest := by
  unfold afterAt
  rcases hsign with ⟨rfl, rfl⟩ | rfl
  · exact if_neg hrest
  · have hall : ∀ c ∈ user, decide (c ≠ chr '@') = true := by
      intro c hc
      apply decide_eq_true
      rintro rfl
      exact huser hc
    rw [if_pos (by simp), List.dropWhile_append_of_pos hall]
    rfl

/-- Any authority with the printed text has its host at the same place. -/
theorem hostAt_eq {a : Authority} (ha : x.printedFrame.authority = a.text) :
    a.userinfo.length + a.sign.length =
      x.server.userinfo.length + (if x.server.userinfo = [] then [] else [chr '@']).length := by
  have hsign : (if x.server.userinfo = [] then [] else [chr '@']) = [] ∧ x.server.userinfo = [] ∨
      (if x.server.userinfo = [] then [] else [chr '@']) = [chr '@'] := by
    split
    · next h => exact Or.inl ⟨rfl, h⟩
    · exact Or.inr rfl
  have hprinted : afterAt x.printedFrame.authority = x.server.host ++ urlPart ':' (portText x.uri) :=
    afterAt_eq (at_not_mem_chars x.server.userinfo_chars) (at_not_mem_chars x.printedHost_chars) hsign
  have htext : afterAt a.text = a.tail :=
    afterAt_eq (at_not_mem_chars a.userinfo_chars) a.toHostPort.at_not_mem a.sign_eq
  rw [ha, htext] at hprinted
  have hlength := congrArg List.length ha
  simp only [printedFrame, printedAuthority, Authority.text, hprinted, List.length_append] at hlength
  omega

/-- A host that comes back is plain: what is printed has no bracket. -/
theorem plain_of_roundTrips (hs : x.text.length ≤ 65535) (h : x.uri.RoundTrips) :
    ∀ c ∈ x.server.host, isHostChar c = true := by
  obtain ⟨v, hcreate, -, -, hhost, -⟩ := h
  obtain ⟨hat, hlen⟩ := x.printed_short hs
  rw [← x.printedFrame_text] at hcreate
  obtain ⟨w, hparse⟩ := parse_of_create hcreate
  obtain ⟨a, ha⟩ := x.printedFrame.exists_server hat hlen hparse
  have hplain : a.opening = [] ∧ a.closing = [] ∧ ∀ c ∈ a.host, isHostChar c = true := by
    refine a.host_eq.resolve_right ?_
    intro ⟨hopen, _⟩
    have hmem : chr '[' ∈ x.printedAuthority := by
      change chr '[' ∈ x.printedFrame.authority
      rw [ha]
      simp [Authority.text, HostPort.tail, hopen]
    rcases x.printedAuthority_chars _ hmem with h | h
    · exact (userinfoChar_ne h).2.2 rfl
    · exact absurd h (by decide)
  have hhostAt := x.hostAt_eq ha
  have hle := x.authority_le
  have hsign := x.printedSign_length
  rw [x.authority_eq] at hle
  simp only [Authority.text, HostPort.tail, List.length_append, Frame.authorityAt] at hle
  let y : Absolute := ⟨x.printedFrame, a, ha⟩
  have hgot : y.got .UF_HOST = a.host := by
    refine (sliced_eq_iff _ _ _).mpr (y.fits_part ?_ ?_)
    · change x.scheme.length + 3 + a.hostAt < 65536
      rw [Authority.hostAt, hplain.1, List.length_nil, hhostAt]
      omega
    · change a.host.length < 65536
      rw [ha] at hlen
      simp only [Authority.text, HostPort.tail, List.length_append] at hlen
      omega
  have hread := y.create_text hat hlen
  change create x.printedFrame.text = _ at hread
  rw [hread] at hcreate
  obtain ⟨port, -, rfl⟩ := Option.map_eq_some_iff.mp hcreate
  have hsame : a.host = x.server.host := hgot.symm.trans hhost
  rw [← hsame]
  exact hplain.2.2

end Absolute

/-- Without a scheme the text starts with a colon. -/
theorem create_of_no_scheme {u : Uri} (h : u.scheme = []) : create u.toString = none := by
  obtain ⟨rest, hrest⟩ : ∃ rest, u.toString = chr ':' :: rest := by
    unfold toString
    rw [h]
    exact ⟨_, rfl⟩
  rw [hrest, create]
  rfl

/-- The text of a URI that was read gives the URI back, when the URL it was read from is absolute, its host
is plain and the parts of the text are where their offsets point; and only then. -/
theorem uri_round_trip_iff {s : Bytes} (hs : s.length ≤ 65535) {u : Uri} (h : create s = some u) :
    u.RoundTrips ↔ ∃ x : Absolute, x.text = s ∧ x.Kept := by
  constructor
  · intro hround
    obtain ⟨parser, hparse⟩ := parse_of_create h
    rcases exists_absolute hs hparse with hrelative | ⟨x, rfl⟩
    · obtain ⟨v, hcreate, -⟩ := hround
      rw [create_of_no_scheme (scheme_of_relative hrelative h)] at hcreate
      cases hcreate
    · obtain ⟨rfl, hp⟩ := x.create_of_short hs h
      have hhost := x.plain_of_roundTrips hs hround
      exact ⟨x, rfl, hhost, x.fits_of_roundTrips hhost hs hround⟩
  · rintro ⟨x, rfl, hhost, hfits⟩
    obtain ⟨rfl, hp⟩ := x.create_of_short hs h
    exact x.roundTrips_of_fits hhost hs hp hfits

theorem forall_of_all {P : UInt8 → Prop} [DecidablePred P] {cs : Bytes}
    (h : cs.all (fun c => decide (P c)) = true) : ∀ c ∈ cs, P c :=
  fun c hc => of_decide_eq_true (List.all_eq_true.mp h c hc)

/-- `foo://user@sylar.com:8042/over/there?name=ferret#nose`. -/
def ferretUrl : Absolute where
  scheme := ascii "foo"
  authority := ascii "user@sylar.com:8042"
  path := ascii "/over/there"
  mark := ascii "?"
  query := ascii "name=ferret"
  hashes := ascii "#"
  fragment := ascii "nose"
  server :=
    { opening := []
      host := ascii "sylar.com"
      closing := []
      port := ascii "8042"
      host_ne := by decide
      host_eq := Or.inl ⟨rfl, rfl, List.all_eq_true.mp (by decide)⟩
      port_num := List.all_eq_true.mp (by decide)
      userinfo := ascii "user"
      sign := ascii "@"
      userinfo_chars := List.all_eq_true.mp (by decide)
      sign_eq := Or.inr (by decide) }
  scheme_ne := by decide
  scheme_alpha := List.all_eq_true.mp (by decide)
  authority_ne := by decide
  authority_inside := forall_of_all (by decide)
  authority_live := by decide
  path_start := fun c hc => (Option.some.inj hc).symm
  path_chars := forall_of_all (by decide)
  mark_eq := Or.inr (by decide)
  query_chars := forall_of_all (by decide)
  hashes_eq := forall_of_all (by decide)
  hashes_after := by decide
  fragment_start := fun c hc => Option.some.inj hc ▸ by decide
  fragment_chars := forall_of_all (by decide)
  fragment_after := by decide
  authority_eq := by decide

theorem ferretUrl_comes_back :
    RoundTrips
      { scheme := ascii "foo"
        userinfo := ascii "user"
        host := ascii "sylar.com"
        port := 8042
        path := ascii "/over/there"
        query := ascii "name=ferret"
        fragment := ascii "nose" } := by
  have hhost : ∀ c ∈ ferretUrl.server.host, isHostChar c = true := List.all_eq_true.mp (by decide)
  refine (uri_round_trip_iff (s := ascii "foo://user@sylar.com:8042/over/there?name=ferret#nose") ?_ ?_).mpr ?_
  · decide
  · decide
  · exact ⟨ferretUrl, by decide, ferretUrl.kept_of_short hhost (by decide)⟩

/-- The printed text of a relative URL starts with `://`, and a host that was in brackets is printed without
them. -/
theorem relative_and_bracketed_lost :
    (∃ u, create (ascii "/a") = some u ∧ ¬u.RoundTrips) ∧
      ∃ u, create (ascii "http://[::1]/") = some u ∧ ¬u.RoundTrips := by
  have hrelative : create (toString { path := ascii "/a" }) = none := by decide
  have hbracketed :
      create (toString { scheme := ascii "http", host := ascii "::1", port := 80, path := ascii "/" }) = none := by
    decide
  refine ⟨⟨{ path := ascii "/a" }, by decide, ?_⟩,
    ⟨{ scheme := ascii "http", host := ascii "::1", port := 80, path := ascii "/" }, by decide, ?_⟩⟩
  · intro hround
    obtain ⟨v, h, -⟩ := hround
    rw [hrelative] at h
    cases h
  · intro hround
    obtain ⟨v, h, -⟩ := hround
    rw [hbracketed] at h
    cases h

end Sylar.Uri
