import Mathlib.Data.List.Basic
import Sylar.Lib.Automaton
import Sylar.Http.UrlParts

/- The URLs that the loop of `http_parser_parse_url` accepts, before `http_parse_host` has
   looked at the authority.

   A URL starts with `/` or `*` and is relative, or it is a `Frame`: a scheme, an authority and
   what may follow. `parseUrlLoop_text` is what the loop leaves for a frame, `exists_frame`
   says that there is no other URL with a host. -/
namespace Sylar.Uri
open Sylar.Http Sylar.Lib

/-- A character that ends the authority. -/
def EndsAuthority (c : UInt8) : Prop := c = chr '/' ∨ c = chr '?'

instance (c : UInt8) : Decidable (EndsAuthority c) := inferInstanceAs (Decidable (_ ∨ _))

/-- What may follow an authority. -/
structure AfterAuthority extends AfterPath where
  path : Bytes
  path_start : ∀ c ∈ path.head?, c = chr '/'
  path_chars : ∀ c ∈ path, PathChar c
  hashes_after : hashes ≠ [] → path ≠ [] ∨ mark ≠ []

/-- A URL with a scheme. -/
structure Frame extends AfterAuthority where
  scheme : Bytes
  authority : Bytes
  scheme_ne : scheme ≠ []
  scheme_alpha : ∀ c ∈ scheme, isAlpha c = true
  authority_ne : authority ≠ []
  authority_inside : ∀ c ∈ authority, ¬EndsAuthority c
  authority_live : authority.foldl parseUrlChar .s_req_server_start ≠ .s_dead

def AfterAuthority.tail (f : AfterAuthority) : Bytes := f.path ++ f.toAfterPath.tail

namespace Frame

def text (f : Frame) : Bytes := f.scheme ++ (ascii "://" ++ (f.authority ++ f.tail))

def authorityAt (f : Frame) : Nat := f.scheme.length + 3

def pathAt (f : Frame) : Nat := f.authorityAt + f.authority.length

def queryAt (f : Frame) : Nat := f.pathAt + f.path.length + f.mark.length

def fragmentAt (f : Frame) : Nat := f.queryAt + f.query.length + f.hashes.length

end Frame

/-! ## Characters -/

section
variable {c : UInt8}

theorem parseUrlChar_scheme {s : State} (hs : s = .s_req_spaces_before_url ∨ s = .s_req_schema)
    (h : isAlpha c = true) : parseUrlChar s c = .s_req_schema := by
  revert c
  rcases hs with rfl | rfl
  all_goals
    apply forall_byte
    decide +kernel

theorem parseUrlChar_dead : parseUrlChar .s_dead c = .s_dead := by
  simp [parseUrlChar]

theorem url_live {s : State} {cs : Bytes} (h : (c :: cs).foldl parseUrlChar s ≠ .s_dead) :
    parseUrlChar s c ≠ .s_dead :=
  live_step (fun _ => parseUrlChar_dead) h

/-- The states of the authority. -/
def InAuthority (s : State) : Prop := s = .s_req_server_start ∨ s = .s_req_server ∨ s = .s_req_server_with_at

/-- What a step within the authority leaves. -/
structure AuthorityStep (c : UInt8) (t : State) : Prop where
  inside : t = .s_req_server ∨ t = .s_req_server_with_at
  field : t.urlField = some .UF_HOST
  live : t ≠ .s_dead
  at_eq : decide (t = .s_req_server_with_at) = decide (c = chr '@')

theorem authority_step {s : State} (hs : InAuthority s) (hc : ¬EndsAuthority c)
    (hlive : parseUrlChar s c ≠ .s_dead) : AuthorityStep c (parseUrlChar s c) := by
  have h : parseUrlChar s c = if c = chr '@' then .s_req_server_with_at else .s_req_server := by
    revert c
    rcases hs with rfl | rfl | rfl
    all_goals
      apply forall_byte
      decide +kernel
  rw [h]
  split
  · exact ⟨Or.inr rfl, rfl, by decide, by simp [*]⟩
  · exact ⟨Or.inl rfl, rfl, by decide, by simp [*]⟩

end

/-! ## What the loop leaves -/

/-- What the loop leaves for a frame. -/
def Frame.slices (f : Frame) : HttpParserUrl :=
  let u := putPart {} .UF_SCHEMA 0 f.scheme
  let u := putPart u .UF_HOST f.authorityAt f.authority
  let u := putPart u .UF_PATH f.pathAt f.path
  let u := putPart u .UF_QUERY f.queryAt f.query
  putPart u .UF_FRAGMENT f.fragmentAt f.fragment

section
variable {u : HttpParserUrl} {a : Bool}

/-- The authority, from its second character on. -/
theorem parseUrlLoop_authority (rest : Bytes) (off : UInt16) :
    ∀ (cs : Bytes) (s : State) (a : Bool) (len i : UInt16), s = .s_req_server ∨ s = .s_req_server_with_at →
    (∀ c ∈ cs, ¬EndsAuthority c) → cs.foldl parseUrlChar s ≠ .s_dead →
    parseUrlLoop s (some .UF_HOST) a (u.put .UF_HOST ⟨off, len⟩) i (cs ++ rest) =
      parseUrlLoop (cs.foldl parseUrlChar s) (some .UF_HOST) (a || decide (chr '@' ∈ cs))
        (u.put .UF_HOST ⟨off, len + UInt16.ofNat cs.length⟩) (i + UInt16.ofNat cs.length) rest := by
  intro cs
  induction cs with
  | nil =>
    intro s a len i _ _ _
    simp
  | cons c cs ih =>
    intro s a len i hs hin hlive
    obtain ⟨hc, hcs⟩ := List.forall_mem_cons.mp hin
    have hstep := authority_step (Or.inr hs) hc (url_live hlive)
    have hmem : (a || decide (c = chr '@') || decide (chr '@' ∈ cs)) = (a || decide (chr '@' ∈ c :: cs)) := by
      simp [Bool.or_assoc, eq_comm (a := c)]
    rw [List.cons_append, parseUrlLoop_grow hstep.field rfl hstep.live, ih _ _ _ _ hstep.inside hcs hlive,
      hstep.at_eq, hmem, add_one_length, add_one_length, List.foldl_cons]

theorem parseUrlLoop_authorityStart {auth : Bytes} (hne : auth ≠ []) (hin : ∀ c ∈ auth, ¬EndsAuthority c)
    (hlive : auth.foldl parseUrlChar .s_req_server_start ≠ .s_dead) {old : Option UrlField}
    (hold : old ≠ some .UF_HOST) (n : Nat) (rest : Bytes) :
    parseUrlLoop .s_req_server_start old false u (UInt16.ofNat n) (auth ++ rest) =
      parseUrlLoop (auth.foldl parseUrlChar .s_req_server_start) (some .UF_HOST) (decide (chr '@' ∈ auth))
        (putPart u .UF_HOST n auth) (UInt16.ofNat (n + auth.length)) rest := by
  obtain ⟨c, cs, rfl⟩ := List.exists_cons_of_ne_nil hne
  obtain ⟨hc, hcs⟩ := List.forall_mem_cons.mp hin
  have hstep := authority_step (Or.inl rfl) hc (url_live hlive)
  have hmem : (decide (c = chr '@') || decide (chr '@' ∈ cs)) = decide (chr '@' ∈ c :: cs) := by
    simp [eq_comm (a := c)]
  rw [List.cons_append, parseUrlLoop]
  simp only [if_neg hstep.live, hstep.field, if_neg hold, hstep.at_eq, Bool.false_or]
  rw [parseUrlLoop_authority rest _ cs _ _ 1 _ hstep.inside hcs hlive, one_add_length c, hmem, add_one_length,
    putPart, if_neg hne, UInt16.ofNat_add]
  rfl

theorem foldl_authority {auth : Bytes} (hne : auth ≠ []) : ∀ {s : State}, InAuthority s →
    (∀ c ∈ auth, ¬EndsAuthority c) → auth.foldl parseUrlChar s ≠ .s_dead →
    auth.foldl parseUrlChar s = .s_req_server ∨ auth.foldl parseUrlChar s = .s_req_server_with_at := by
  induction auth with
  | nil => exact absurd rfl hne
  | cons c cs ih =>
    intro s hs hin hlive
    obtain ⟨hc, hcs⟩ := List.forall_mem_cons.mp hin
    have hstep := authority_step hs hc (url_live hlive)
    by_cases hcs' : cs = []
    · rw [hcs']
      exact hstep.inside
    · exact ih hcs' (Or.inr hstep.inside) hcs hlive

end

section
variable {u : HttpParserUrl} {a : Bool} {s : State} {old : Option UrlField} (n : Nat)

theorem AfterAuthority.parseUrlLoop_tail (f : AfterAuthority) (hs : InAuthority s)
    (hold : old = some .UF_SCHEMA ∨ old = some .UF_HOST) :
    parseUrlLoop s old a u (UInt16.ofNat n) f.tail =
      some (a, putPart (putPart (putPart u .UF_PATH n f.path) .UF_QUERY (n + f.path.length + f.mark.length) f.query)
        .UF_FRAGMENT (n + f.path.length + f.mark.length + f.query.length + f.hashes.length) f.fragment) := by
  have hstart : ∀ c ∈ f.path.head?, parseUrlChar s c = .s_req_path := by
    intro c hc
    rw [f.path_start c hc]
    rcases hs with rfl | rfl | rfl
    all_goals rfl
  have hmark : parseUrlChar (if f.path = [] then s else .s_req_path) (chr '?') = .s_req_query_string_start := by
    split
    · rcases hs with rfl | rfl | rfl
      all_goals rfl
    · rfl
  have hhash : f.mark = [] → f.hashes ≠ [] →
      parseUrlChar (if f.path = [] then s else .s_req_path) (chr '#') = .s_req_fragment_start := by
    intro hm hh
    rw [if_neg ((f.hashes_after hh).resolve_right (fun h => h hm))]
    rfl
  have hbefore : ∀ uf, uf ≠ .UF_SCHEMA → uf ≠ .UF_HOST → uf ≠ .UF_PATH →
      (if f.path = [] then old else some UrlField.UF_PATH) ≠ some uf := by
    intro uf hscheme hhost hpath
    split
    · rcases hold with rfl | rfl
      · simp [hscheme.symm]
      · simp [hhost.symm]
    · simp [hpath.symm]
  have hpath : old ≠ some .UF_PATH := by
    rcases hold with rfl | rfl
    all_goals decide
  unfold tail
  rw [parseUrlLoop_putPart (t := .s_req_path) rfl (by decide) (by decide) hpath hstart
    (fun c hc => parseUrlChar_path (f.path_chars c hc))]
  exact f.toAfterPath.parseUrlLoop_tail _ hmark hhash (hbefore _ (by decide) (by decide) (by decide))
    (hbefore _ (by decide) (by decide) (by decide))

end

theorem parseUrlLoop_scheme {scheme : Bytes} (hne : scheme ≠ []) (h : ∀ c ∈ scheme, isAlpha c = true)
    (rest : Bytes) :
    parseUrlLoop .s_req_spaces_before_url none false {} 0 (scheme ++ rest) =
      parseUrlLoop .s_req_schema (some .UF_SCHEMA) false (putPart {} .UF_SCHEMA 0 scheme)
        (UInt16.ofNat scheme.length) rest := by
  have hpart := parseUrlLoop_putPart (u := {}) (a := false) (s := .s_req_spaces_before_url) (t := .s_req_schema) rfl
    (by decide) (by decide) (by decide : (none : Option UrlField) ≠ some .UF_SCHEMA)
    (fun c hc => parseUrlChar_scheme (Or.inl rfl) (h c (List.mem_of_mem_head? hc)))
    (fun c hc => parseUrlChar_scheme (Or.inr rfl) (h c hc)) 0 rest
  rw [if_neg hne, if_neg hne, Nat.zero_add] at hpart
  exact hpart

/-- What the loop leaves for a frame. -/
theorem Frame.parseUrlLoop_text (f : Frame) :
    parseUrlLoop .s_req_spaces_before_url none false {} 0 f.text =
      some (decide (chr '@' ∈ f.authority), f.slices) := by
  have hsep : ascii "://" = [chr ':', chr '/', chr '/'] := by decide
  have hstate := foldl_authority f.authority_ne (Or.inl rfl) f.authority_inside f.authority_live
  unfold text
  rw [parseUrlLoop_scheme f.scheme_ne f.scheme_alpha, hsep, List.cons_append, List.cons_append, List.cons_append,
    List.nil_append, parseUrlLoop_delim (t := .s_req_schema_slash) rfl (by decide) rfl,
    parseUrlLoop_delim (t := .s_req_schema_slash_slash) rfl (by decide) rfl,
    parseUrlLoop_delim (t := .s_req_server_start) rfl (by decide) rfl, ofNat16_add_one, ofNat16_add_one,
    ofNat16_add_one, parseUrlLoop_authorityStart f.authority_ne f.authority_inside f.authority_live (by decide),
    f.toAfterAuthority.parseUrlLoop_tail _ (Or.inr hstate) (Or.inr rfl)]
  rfl

/-! ## Every URL with a host is a frame -/

def AfterAuthority.nothing : AfterAuthority :=
  ⟨.nothing, [], by simp, by simp, by simp [AfterPath.nothing, AfterQuery.nothing]⟩

section
variable {c : UInt8}

theorem fragmentChar_of_live (h : parseUrlChar .s_req_fragment c ≠ .s_dead) : FragmentChar c := by
  revert c
  apply forall_byte
  decide +kernel

theorem queryChar_of_live (h : parseUrlChar .s_req_fragment_start c ≠ .s_dead) (hc : c ≠ chr '#') :
    QueryChar c := by
  revert c
  apply forall_byte
  decide +kernel

theorem start_of_live (h : parseUrlChar .s_req_spaces_before_url c ≠ .s_dead) :
    (c = chr '/' ∨ c = chr '*') ∨ isAlpha c = true := by
  revert c
  apply forall_byte
  decide +kernel

theorem colon_of_live (h : parseUrlChar .s_req_schema c ≠ .s_dead) (hc : isAlpha c = false) : c = chr ':' := by
  revert c
  apply forall_byte
  decide +kernel

theorem slash_of_live {s : State} (hs : s = .s_req_schema_slash ∨ s = .s_req_schema_slash_slash)
    (h : parseUrlChar s c ≠ .s_dead) : c = chr '/' := by
  revert c
  rcases hs with rfl | rfl
  all_goals
    apply forall_byte
    decide +kernel

theorem hash_of_live {s : State} (hs : s = .s_req_query_string_start ∨ s = .s_req_query_string)
    (h : parseUrlChar s c ≠ .s_dead) (hc : ¬QueryChar c) : c = chr '#' := by
  revert c
  rcases hs with rfl | rfl
  all_goals
    apply forall_byte
    decide +kernel

theorem mark_of_live (h : parseUrlChar .s_req_path c ≠ .s_dead) (hc : ¬PathChar c) :
    c = chr '?' ∨ c = chr '#' := by
  revert c
  apply forall_byte
  decide +kernel

end

/-- The loop is not in the dead state at the end of what it accepts. -/
theorem live_of_parseUrlLoop {r : Bool × HttpParserUrl} :
    ∀ {xs : Bytes} {s : State} {old : Option UrlField} {a : Bool} {u : HttpParserUrl} {i : UInt16}, s ≠ .s_dead →
    parseUrlLoop s old a u i xs = some r → xs.foldl parseUrlChar s ≠ .s_dead := by
  intro xs
  induction xs with
  | nil =>
    intro s old a u i hs _
    exact hs
  | cons x xs ih =>
    intro s old a u i hs h
    rw [parseUrlLoop] at h
    by_cases hx : parseUrlChar s x = .s_dead
    · simp [hx] at h
    · simp only [if_neg hx] at h
      split at h
      · exact ih hx h
      · exact ih hx h

theorem exists_afterQuery {xs : Bytes} (h : xs.foldl parseUrlChar .s_req_fragment_start ≠ .s_dead) :
    ∃ f : AfterQuery, f.tail = chr '#' :: xs := by
  obtain ⟨run, rest, rfl, hrun, hsame, hrest⟩ := exists_run_stay (fun _ => parseUrlChar_dead)
    (fun c => decide (c = chr '#')) (fun c hc => by rw [of_decide_eq_true hc]; rfl) h
  rw [hsame] at h
  have hhashes : ∀ c ∈ chr '#' :: run, c = chr '#' :=
    List.forall_mem_cons.mpr ⟨rfl, fun c hc => of_decide_eq_true (hrun c hc)⟩
  cases rest with
  | nil => exact ⟨⟨chr '#' :: run, [], hhashes, by simp, by simp, by simp⟩, rfl⟩
  | cons c cs =>
    have hc : c ≠ chr '#' := of_decide_eq_false (hrest c cs rfl)
    have hquery := queryChar_of_live (url_live h) hc
    rw [List.foldl_cons, parseUrlChar_fragment (Or.inl rfl) hquery] at h
    have hcs : ∀ c ∈ cs, FragmentChar c := by
      refine forall_of_live (fun _ => parseUrlChar_dead) (T := fun s => s = .s_req_fragment) (P := fun _ => True)
        ?_ rfl (by simp) h
      intro s c hs _ hc
      rw [hs] at hc ⊢
      have hchar := fragmentChar_of_live hc
      exact ⟨parseUrlChar_fragmentChar hchar, hchar⟩
    refine ⟨⟨chr '#' :: run, c :: cs, hhashes, ?_, List.forall_mem_cons.mpr ⟨Or.inl hquery, hcs⟩, by simp⟩, rfl⟩
    simpa using hc

theorem exists_query {s : State} (hs : s = .s_req_query_string_start ∨ s = .s_req_query_string) {xs : Bytes}
    (h : xs.foldl parseUrlChar s ≠ .s_dead) :
    ∃ f : AfterPath, f.mark = [chr '?'] ∧ f.tail = chr '?' :: xs := by
  have hT : ∀ s c, (s = .s_req_query_string_start ∨ s = .s_req_query_string) → decide (QueryChar c) = true →
      parseUrlChar s c ≠ .s_dead →
      parseUrlChar s c = .s_req_query_string_start ∨ parseUrlChar s c = .s_req_query_string := by
    intro s c hs hc _
    exact Or.inr (parseUrlChar_query hs (of_decide_eq_true hc))
  obtain ⟨query, rest, rfl, hquery, hend, hrest⟩ := exists_run (fun _ => parseUrlChar_dead)
    (fun c => decide (QueryChar c)) hT xs s hs h
  have hchars : ∀ c ∈ query, QueryChar c := fun c hc => of_decide_eq_true (hquery c hc)
  rw [List.foldl_append] at h
  cases rest with
  | nil =>
    refine ⟨⟨.nothing, [chr '?'], query, Or.inr rfl, hchars⟩, rfl, ?_⟩
    simp [AfterPath.tail, AfterQuery.nothing, AfterQuery.tail]
  | cons c cs =>
    have hc := hash_of_live hend (url_live h) (of_decide_eq_false (hrest c cs rfl))
    have hnext : parseUrlChar (query.foldl parseUrlChar s) (chr '#') = .s_req_fragment_start := by
      rcases hend with he | he
      all_goals rw [he]; rfl
    rw [hc, List.foldl_cons, hnext] at h
    obtain ⟨f, hf⟩ := exists_afterQuery h
    refine ⟨⟨f, [chr '?'], query, Or.inr rfl, hchars⟩, rfl, ?_⟩
    rw [hc, ← hf]
    rfl

theorem exists_afterPath {xs : Bytes} (h : xs.foldl parseUrlChar .s_req_path ≠ .s_dead) :
    ∃ (path : Bytes) (f : AfterPath), xs = path ++ f.tail ∧ ∀ c ∈ path, PathChar c := by
  obtain ⟨path, rest, rfl, hpath, hsame, hrest⟩ := exists_run_stay (fun _ => parseUrlChar_dead)
    (fun c => decide (PathChar c)) (fun c hc => parseUrlChar_path (of_decide_eq_true hc)) h
  rw [hsame] at h
  have hchars : ∀ c ∈ path, PathChar c := fun c hc => of_decide_eq_true (hpath c hc)
  cases rest with
  | nil => exact ⟨path, .nothing, rfl, hchars⟩
  | cons c cs =>
    rcases mark_of_live (url_live h) (of_decide_eq_false (hrest c cs rfl)) with
      rfl | rfl
    · obtain ⟨f, -, hf⟩ := exists_query (Or.inl rfl) h
      exact ⟨path, f, by rw [hf], hchars⟩
    · obtain ⟨f, hf⟩ := exists_afterQuery h
      exact ⟨path, ⟨f, [], [], Or.inl ⟨rfl, rfl⟩, by simp⟩, by rw [← hf]; rfl, hchars⟩

theorem exists_afterAuthority {xs : Bytes} (h : xs.foldl parseUrlChar .s_req_server_start ≠ .s_dead) :
    ∃ (auth : Bytes) (f : AfterAuthority), xs = auth ++ f.tail ∧ (∀ c ∈ auth, ¬EndsAuthority c) ∧
      auth.foldl parseUrlChar .s_req_server_start ≠ .s_dead := by
  have hT : ∀ s c, InAuthority s → decide (¬EndsAuthority c) = true → parseUrlChar s c ≠ .s_dead →
      InAuthority (parseUrlChar s c) := by
    intro s c hs hc hlive
    exact Or.inr (authority_step hs (of_decide_eq_true hc) hlive).inside
  obtain ⟨auth, rest, rfl, hauth, hend, hrest⟩ := exists_run (fun _ => parseUrlChar_dead)
    (fun c => decide (¬EndsAuthority c)) hT xs .s_req_server_start (Or.inl rfl) h
  have hinside : ∀ c ∈ auth, ¬EndsAuthority c := fun c hc => of_decide_eq_true (hauth c hc)
  have hlive : auth.foldl parseUrlChar .s_req_server_start ≠ .s_dead := by
    intro hdead
    rw [hdead] at hend
    exact absurd hend (by unfold InAuthority; decide)
  rw [List.foldl_append] at h
  cases rest with
  | nil => exact ⟨auth, .nothing, rfl, hinside, hlive⟩
  | cons c cs =>
    have hends : EndsAuthority c := Decidable.not_not.mp (of_decide_eq_false (hrest c cs rfl))
    rw [List.foldl_cons] at h
    rcases hends with rfl | rfl
    · have hnext : parseUrlChar (auth.foldl parseUrlChar .s_req_server_start) (chr '/') = .s_req_path := by
        rcases hend with he | he | he
        all_goals rw [he]; rfl
      rw [hnext] at h
      obtain ⟨path, f, rfl, hpath⟩ := exists_afterPath h
      have hchars : ∀ c ∈ chr '/' :: path, PathChar c := List.forall_mem_cons.mpr ⟨by decide, hpath⟩
      exact ⟨auth, ⟨f, chr '/' :: path, by simp, hchars, by simp⟩, rfl, hinside, hlive⟩
    · have hnext : parseUrlChar (auth.foldl parseUrlChar .s_req_server_start) (chr '?') =
          .s_req_query_string_start := by
        rcases hend with he | he | he
        all_goals rw [he]; rfl
      rw [hnext] at h
      obtain ⟨f, hmark, hf⟩ := exists_query (Or.inl rfl) h
      refine ⟨auth, ⟨f, [], by simp, by simp, fun _ => Or.inr ?_⟩, ?_, hinside, hlive⟩
      · simp [hmark]
      · rw [← hf]
        rfl

section
variable {u : HttpParserUrl} {uf k : UrlField} {part : Bytes} {off : Nat}

theorem putPart_fields_self (h : part ≠ []) :
    (putPart u uf off part).fields uf = some ⟨UInt16.ofNat off, UInt16.ofNat part.length⟩ := by
  simp [putPart, h, HttpParserUrl.put]

theorem putPart_fields_other (h : k ≠ uf) : (putPart u uf off part).fields k = u.fields k := by
  unfold putPart
  split
  · rfl
  · simp [HttpParserUrl.put, h]

end

theorem grow_fields_ne {u : HttpParserUrl} {k : UrlField} (uf : UrlField) (h : u.fields k ≠ none) :
    (u.grow uf).fields k ≠ none := by
  unfold HttpParserUrl.grow
  split
  · simp only [HttpParserUrl.put]
    split
    · simp
    · exact h
  · exact h

/-- A field that is set stays so. -/
theorem parseUrlLoop_fields_ne {r : Bool × HttpParserUrl} {k : UrlField} : ∀ {xs : Bytes} {s : State}
    {old : Option UrlField} {a : Bool} {u : HttpParserUrl} {i : UInt16}, u.fields k ≠ none →
    parseUrlLoop s old a u i xs = some r → r.2.fields k ≠ none := by
  intro xs
  induction xs with
  | nil =>
    intro s old a u i hu h
    cases h
    exact hu
  | cons x xs ih =>
    intro s old a u i hu h
    rw [parseUrlLoop] at h
    split at h
    · cases h
    · split at h
      · exact ih hu h
      · refine ih ?_ h
        split
        · exact grow_fields_ne _ hu
        · simp only [HttpParserUrl.put]
          split
          · simp
          · exact hu

/-- The loop with no host so far goes over the one delimiter that does not stop it. -/
theorem delim_of_host {s t : State} {d : UInt8} {old : Option UrlField} {a : Bool} {u : HttpParserUrl} {i : UInt16}
    {xs : Bytes} {r : Bool × HttpParserUrl} (h : parseUrlLoop s old a u i xs = some r)
    (hu : u.fields .UF_HOST = none) (hr : r.2.fields .UF_HOST ≠ none)
    (honly : ∀ c ∈ xs.head?, parseUrlChar s c ≠ .s_dead → c = d) (hd : parseUrlChar s d = t) (hdead : t ≠ .s_dead)
    (hnone : t.urlField = none) :
    ∃ rest, xs = d :: rest ∧ parseUrlLoop t old a u (i + 1) rest = some r := by
  cases xs with
  | nil =>
    cases h
    exact absurd hu hr
  | cons c cs =>
    have hlive : parseUrlChar s c ≠ .s_dead := by
      intro hc
      simp [parseUrlLoop, hc] at h
    have hc := honly c rfl hlive
    rw [hc, parseUrlLoop_delim hd hdead hnone] at h
    exact ⟨cs, by rw [hc], h⟩

theorem exists_frame_of_host {c : UInt8} {cs : Bytes} (hc : isAlpha c = true) {r : Bool × HttpParserUrl}
    (h : parseUrlLoop .s_req_spaces_before_url none false {} 0 (c :: cs) = some r)
    (hr : r.2.fields .UF_HOST ≠ none) : ∃ f : Frame, f.text = c :: cs := by
  have hlive := live_of_parseUrlLoop (by decide) h
  rw [List.foldl_cons, parseUrlChar_scheme (Or.inl rfl) hc] at hlive
  obtain ⟨scheme, rest, rfl, hscheme, -, hrest⟩ := exists_run_stay (fun _ => parseUrlChar_dead) isAlpha
    (fun c hc => parseUrlChar_scheme (Or.inr rfl) hc) hlive
  have halpha : ∀ d ∈ c :: scheme, isAlpha d = true := List.forall_mem_cons.mpr ⟨hc, hscheme⟩
  rw [← List.cons_append, parseUrlLoop_scheme (List.cons_ne_nil c scheme) halpha] at h
  have hhost : (putPart {} .UF_SCHEMA 0 (c :: scheme)).fields .UF_HOST = none := putPart_fields_other (by decide)
  obtain ⟨rest, rfl, hcolon⟩ := delim_of_host (t := .s_req_schema_slash) h hhost hr
    (fun d hd hlive => colon_of_live hlive (hrest d _ (List.eq_cons_of_mem_head? hd))) rfl (by decide) rfl
  obtain ⟨rest, rfl, hslash⟩ := delim_of_host (t := .s_req_schema_slash_slash) hcolon hhost hr
    (fun d _ hlive => slash_of_live (Or.inl rfl) hlive) rfl (by decide) rfl
  obtain ⟨rest, rfl, hserver⟩ := delim_of_host (t := .s_req_server_start) hslash hhost hr
    (fun d _ hlive => slash_of_live (Or.inr rfl) hlive) rfl (by decide) rfl
  obtain ⟨auth, f, rfl, hinside, hauth⟩ := exists_afterAuthority (live_of_parseUrlLoop (by decide) hserver)
  have hne : auth ≠ [] := by
    intro hnil
    rw [hnil, ofNat16_add_one, ofNat16_add_one, ofNat16_add_one, List.nil_append,
      f.parseUrlLoop_tail _ (Or.inl rfl) (Or.inl rfl)] at hserver
    cases hserver
    apply hr
    rw [putPart_fields_other (by decide), putPart_fields_other (by decide), putPart_fields_other (by decide)]
    exact hhost
  exact ⟨⟨f, c :: scheme, auth, List.cons_ne_nil c scheme, halpha, hne, hinside, hauth⟩, rfl⟩

/-- A URL that is accepted is relative or a frame. -/
theorem exists_frame {xs : Bytes} {u : HttpParserUrl} (h : httpParserParseUrl xs false = some u) :
    (∃ c ∈ xs.head?, c = chr '/' ∨ c = chr '*') ∨ ∃ f : Frame, f.text = xs := by
  cases xs with
  | nil => cases h
  | cons c cs =>
    unfold httpParserParseUrl at h
    cases hloop : parseUrlLoop .s_req_spaces_before_url none false {} 0 (c :: cs) with
    | none => simp [hloop] at h
    | some r =>
      have hfirst := start_of_live (url_live (live_of_parseUrlLoop (by decide) hloop))
      rcases hfirst with hrelative | halpha
      · exact Or.inl ⟨c, rfl, hrelative⟩
      · have hschema : r.2.fields .UF_SCHEMA ≠ none := by
          have hstep := hloop
          rw [parseUrlLoop, parseUrlChar_scheme (Or.inl rfl) halpha] at hstep
          exact parseUrlLoop_fields_ne (by simp [HttpParserUrl.put]) hstep
        refine Or.inr (exists_frame_of_host halpha hloop ?_)
        intro hhost
        simp [hloop, hhost, Option.isSome_iff_ne_none.mpr hschema] at h

end Sylar.Uri
