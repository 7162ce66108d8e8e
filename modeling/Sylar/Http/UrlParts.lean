import Mathlib.Data.List.Basic
import Sylar.Http.StartLine

/- What `http_parser_parse_url` makes of a URL of a path, a query and a fragment.

   The parts come out as slices of the URL with 16-bit offsets and lengths. `sliced`
   is the part that such a slice gives; it is the part that was put in when its length
   fits and it stands at the wrapped offset, which it does in every URL shorter than
   64 KiB (`sliced_eq_iff`). -/
namespace Sylar.Http
open Sylar.Lib

/-- A character of a path. -/
def PathChar (c : UInt8) : Prop := isUrlChar c = true

/-- A character of a query or a fragment. -/
def QueryChar (c : UInt8) : Prop := isUrlChar c = true ∨ c = chr '?'

/-- A character of a fragment; only the first one may not be `#`. -/
def FragmentChar (c : UInt8) : Prop := QueryChar c ∨ c = chr '#'

instance (c : UInt8) : Decidable (PathChar c) := inferInstanceAs (Decidable (_ = _))
instance (c : UInt8) : Decidable (QueryChar c) := inferInstanceAs (Decidable (_ ∨ _))
instance (c : UInt8) : Decidable (FragmentChar c) := inferInstanceAs (Decidable (_ ∨ _))

/-- A part of the URL and what stands before it. -/
def urlPart (sep : Char) (part : Bytes) : Bytes := if part = [] then [] else chr sep :: part

/-- A URL as `dump` writes it. -/
def urlOf (path query fragment : Bytes) : Bytes := path ++ (urlPart '?' query ++ urlPart '#' fragment)

/-- What may follow a query: the loop takes any number of `#` before the fragment. -/
structure AfterQuery where
  hashes : Bytes
  fragment : Bytes
  hashes_eq : ∀ c ∈ hashes, c = chr '#'
  fragment_start : ∀ c ∈ fragment.head?, c ≠ chr '#'
  fragment_chars : ∀ c ∈ fragment, FragmentChar c
  fragment_after : fragment ≠ [] → hashes ≠ []

/-- What may follow a path. -/
structure AfterPath extends AfterQuery where
  mark : Bytes
  query : Bytes
  mark_eq : mark = [] ∧ query = [] ∨ mark = [chr '?']
  query_chars : ∀ c ∈ query, QueryChar c

def AfterQuery.tail (f : AfterQuery) : Bytes := f.hashes ++ f.fragment

def AfterPath.tail (f : AfterPath) : Bytes := f.mark ++ (f.query ++ f.toAfterQuery.tail)

/-- Nothing follows. -/
def AfterQuery.nothing : AfterQuery := ⟨[], [], by simp, by simp, by simp, by simp⟩

def AfterPath.nothing : AfterPath := ⟨.nothing, [], [], by simp, by simp⟩

/-- A query and a fragment with one delimiter each. -/
def AfterPath.written (query fragment : Bytes) (hq : ∀ c ∈ query, QueryChar c)
    (hstart : ∀ c ∈ fragment.head?, c ≠ chr '#') (hf : ∀ c ∈ fragment, FragmentChar c) : AfterPath where
  mark := if query = [] then [] else [chr '?']
  query := query
  hashes := if fragment = [] then [] else [chr '#']
  fragment := fragment
  mark_eq := by
    split
    · next h => exact Or.inl ⟨rfl, h⟩
    · exact Or.inr rfl
  query_chars := hq
  hashes_eq := by
    split
    · simp
    · simp
  fragment_start := hstart
  fragment_chars := hf
  fragment_after := by
    intro h
    simp [h]

theorem AfterPath.tail_written (query fragment : Bytes) (hq : ∀ c ∈ query, QueryChar c)
    (hstart : ∀ c ∈ fragment.head?, c ≠ chr '#') (hf : ∀ c ∈ fragment, FragmentChar c) :
    (AfterPath.written query fragment hq hstart hf).tail = urlPart '?' query ++ urlPart '#' fragment := by
  by_cases hquery : query = []
  · by_cases hfragment : fragment = []
    · simp [written, tail, AfterQuery.tail, urlPart, hquery, hfragment]
    · simp [written, tail, AfterQuery.tail, urlPart, hquery, hfragment]
  · by_cases hfragment : fragment = []
    · simp [written, tail, AfterQuery.tail, urlPart, hquery, hfragment]
    · simp [written, tail, AfterQuery.tail, urlPart, hquery, hfragment]

/-! ## Characters -/

section
variable {c : UInt8}

theorem queryChar_visible (h : QueryChar c) : ¬(c = chr ' ' ∨ c = CR ∨ c = LF) ∧ ¬(c = 9 ∨ c = 12) := by
  revert c
  apply forall_byte
  decide +kernel

theorem queryChar_ne_hash (h : QueryChar c) : c ≠ chr '#' := by
  revert c
  apply forall_byte
  decide +kernel

theorem parseUrlChar_path (h : PathChar c) : parseUrlChar .s_req_path c = .s_req_path := by
  obtain ⟨hline, hblank⟩ := queryChar_visible (Or.inl h)
  unfold parseUrlChar
  rw [if_neg hline, if_neg hblank]
  exact if_pos h

theorem parseUrlChar_query {s : State} (hs : s = .s_req_query_string_start ∨ s = .s_req_query_string)
    (h : QueryChar c) : parseUrlChar s c = .s_req_query_string := by
  obtain ⟨hline, hblank⟩ := queryChar_visible h
  unfold parseUrlChar
  rw [if_neg hline, if_neg hblank]
  rcases hs with rfl | rfl
  all_goals
    rcases h with h | h
    · exact if_pos h
    · exact (if_neg (by rw [h]; decide)).trans (if_pos h)

theorem parseUrlChar_fragment {s : State} (hs : s = .s_req_fragment_start ∨ s = .s_req_fragment)
    (h : QueryChar c) : parseUrlChar s c = .s_req_fragment := by
  obtain ⟨hline, hblank⟩ := queryChar_visible h
  unfold parseUrlChar
  rw [if_neg hline, if_neg hblank]
  rcases hs with rfl | rfl
  · rcases h with h | h
    · exact if_pos h
    · exact (if_neg (by rw [h]; decide)).trans (if_pos h)
  · rcases h with h | h
    · exact if_pos h
    · exact (if_neg (by rw [h]; decide)).trans (if_pos (Or.inl h))

theorem parseUrlChar_fragmentChar (h : FragmentChar c) : parseUrlChar .s_req_fragment c = .s_req_fragment := by
  revert c
  apply forall_byte
  decide +kernel

end

/-! ## The request's loop over the URL -/

theorem urlRun_append (s : State) (us vs : Bytes) :
    urlRun s (us ++ vs) = (urlRun s us).bind fun t => urlRun t vs := by
  unfold urlRun
  rw [List.foldlM_append]
  rfl

theorem urlRun_cons {s t : State} {u : UInt8} (h : parseUrlChar s u = t) (ht : t.inUrl = true) (us : Bytes) :
    urlRun s (u :: us) = urlRun t us := by
  unfold urlRun
  rw [List.foldlM_cons, h, if_pos ht]
  rfl

/-- Characters that keep a state of the URL. -/
theorem urlRun_stay {t : State} (ht : t.inUrl = true) : ∀ (us : Bytes), (∀ u ∈ us, parseUrlChar t u = t) →
    urlRun t us = some t := by
  intro us
  induction us with
  | nil => intro _; rfl
  | cons u us ih =>
    intro h
    obtain ⟨hu, hus⟩ := List.forall_mem_cons.mp h
    rw [urlRun_cons hu ht]
    exact ih hus

/-- A part and its separator, when it is there. -/
theorem urlRun_part (s start t : State) (sep : Char) (hsep : parseUrlChar s (chr sep) = start)
    (hstart : start.inUrl = true) (ht : t.inUrl = true) (hchar : ∀ c, QueryChar c → parseUrlChar start c = t)
    (hstay : ∀ c, QueryChar c → parseUrlChar t c = t) {part : Bytes} (h : ∀ c ∈ part, QueryChar c) :
    urlRun s (urlPart sep part) = some (if part = [] then s else t) := by
  cases part with
  | nil => rfl
  | cons c cs =>
    obtain ⟨hc, hcs⟩ := List.forall_mem_cons.mp h
    rw [urlPart, if_neg (List.cons_ne_nil c cs), if_neg (List.cons_ne_nil c cs), urlRun_cons hsep hstart,
      urlRun_cons (hchar c hc) ht]
    exact urlRun_stay ht cs fun c hc => hstay c (hcs c hc)

/-- The loop accepts a URL of such parts. -/
theorem urlRun_urlOf {us query fragment : Bytes} (hp : ∀ c ∈ us, PathChar c) (hq : ∀ c ∈ query, QueryChar c)
    (hf : ∀ c ∈ fragment, QueryChar c) :
    ∃ s, urlRun .s_req_path (us ++ (urlPart '?' query ++ urlPart '#' fragment)) = some s := by
  have hpath := urlRun_stay (t := .s_req_path) rfl us fun c hc => parseUrlChar_path (hp c hc)
  have hquery := urlRun_part .s_req_path .s_req_query_string_start .s_req_query_string '?' rfl rfl rfl
    (fun c => parseUrlChar_query (Or.inl rfl)) (fun c => parseUrlChar_query (Or.inr rfl)) hq
  have hsep : parseUrlChar (if query = [] then .s_req_path else .s_req_query_string) (chr '#') =
      .s_req_fragment_start := by
    split
    · rfl
    · rfl
  have hfragment := urlRun_part _ .s_req_fragment_start .s_req_fragment '#' hsep rfl rfl
    (fun c => parseUrlChar_fragment (Or.inl rfl)) (fun c => parseUrlChar_fragment (Or.inr rfl)) hf
  refine ⟨if fragment = [] then (if query = [] then .s_req_path else .s_req_query_string) else .s_req_fragment, ?_⟩
  rw [urlRun_append, hpath, Option.bind_some, urlRun_append, hquery, Option.bind_some, hfragment]

/-! ## The slices -/

/-- A part that is there is put into its field. -/
def putPart (u : HttpParserUrl) (uf : UrlField) (off : Nat) (part : Bytes) : HttpParserUrl :=
  if part = [] then u else u.put uf ⟨UInt16.ofNat off, UInt16.ofNat part.length⟩

@[simp] theorem putPart_nil (u : HttpParserUrl) (uf : UrlField) (off : Nat) : putPart u uf off [] = u := rfl

section
variable {u : HttpParserUrl} {a : Bool}

theorem put_put (u : HttpParserUrl) (uf : UrlField) (d e : Slice) : (u.put uf d).put uf e = u.put uf e := by
  unfold HttpParserUrl.put
  congr 1
  funext k
  by_cases hk : k = uf
  · simp [hk]
  · simp [hk]

theorem grow_put (u : HttpParserUrl) (uf : UrlField) (off len : UInt16) :
    (u.put uf ⟨off, len⟩).grow uf = u.put uf ⟨off, len + 1⟩ := by
  have hfield : (u.put uf ⟨off, len⟩).fields uf = some ⟨off, len⟩ := if_pos rfl
  unfold HttpParserUrl.grow
  rw [hfield]
  exact put_put u uf _ _

theorem add_ofNat16 (i : UInt16) (a b : Nat) : i + UInt16.ofNat a + UInt16.ofNat b = i + UInt16.ofNat (a + b) := by
  rw [UInt16.add_assoc, ← UInt16.ofNat_add]

theorem ofNat16_add_one (n : Nat) : UInt16.ofNat n + 1 = UInt16.ofNat (n + 1) := by
  rw [UInt16.ofNat_add]
  rfl

/-- One character and then the others. -/
theorem add_one_length (n : UInt16) (c : UInt8) (cs : Bytes) :
    n + 1 + UInt16.ofNat cs.length = n + UInt16.ofNat (c :: cs).length := by
  rw [List.length_cons, Nat.add_comm]
  exact add_ofNat16 n 1 cs.length

theorem one_add_length (c : UInt8) (cs : Bytes) :
    (1 : UInt16) + UInt16.ofNat cs.length = UInt16.ofNat (c :: cs).length := by
  rw [List.length_cons, Nat.add_comm, UInt16.ofNat_add]
  rfl

/-- A delimiter. -/
theorem parseUrlLoop_delim {s t : State} {c : UInt8} (hc : parseUrlChar s c = t) (hdead : t ≠ .s_dead)
    (hnone : t.urlField = none) (old : Option UrlField) (i : UInt16) (rest : Bytes) :
    parseUrlLoop s old a u i (c :: rest) = parseUrlLoop t old a u (i + 1) rest := by
  rw [parseUrlLoop]
  simp only [hc, if_neg hdead, hnone]

/-- A step of the loop within a field. -/
theorem parseUrlLoop_grow {s t : State} {uf : UrlField} (ht : t.urlField = some uf) {c : UInt8}
    (hc : parseUrlChar s c = t) (hdead : t ≠ .s_dead) (off len i : UInt16) (rest : Bytes) :
    parseUrlLoop s (some uf) a (u.put uf ⟨off, len⟩) i (c :: rest) =
      parseUrlLoop t (some uf) (a || t = .s_req_server_with_at) (u.put uf ⟨off, len + 1⟩) (i + 1) rest := by
  rw [parseUrlLoop]
  simp only [hc, if_neg hdead, ht, if_true, grow_put]

/-- The rest of a field. -/
theorem parseUrlLoop_field {t : State} {uf : UrlField} (ht : t.urlField = some uf)
    (hat : t ≠ .s_req_server_with_at) (hdead : t ≠ .s_dead) (rest : Bytes) (off : UInt16) :
    ∀ (cs : Bytes) (len i : UInt16), (∀ c ∈ cs, parseUrlChar t c = t) →
    parseUrlLoop t (some uf) a (u.put uf ⟨off, len⟩) i (cs ++ rest) =
      parseUrlLoop t (some uf) a (u.put uf ⟨off, len + UInt16.ofNat cs.length⟩) (i + UInt16.ofNat cs.length)
        rest := by
  intro cs
  induction cs with
  | nil =>
    intro len i _
    simp
  | cons c cs ih =>
    intro len i h
    obtain ⟨hc, hcs⟩ := List.forall_mem_cons.mp h
    have ha : (a || decide (t = .s_req_server_with_at)) = a := by simp [hat]
    rw [List.cons_append, parseUrlLoop_grow ht hc hdead, ha, ih _ _ hcs, add_one_length, add_one_length]

/-- A whole field, from its first character on. -/
theorem parseUrlLoop_start {s t : State} {uf : UrlField} {old : Option UrlField} (ht : t.urlField = some uf)
    (hat : t ≠ .s_req_server_with_at) (hdead : t ≠ .s_dead) (hold : old ≠ some uf) {c : UInt8}
    (hc : parseUrlChar s c = t) {cs : Bytes} (hcs : ∀ c ∈ cs, parseUrlChar t c = t) (i : UInt16) (rest : Bytes) :
    parseUrlLoop s old a u i (c :: cs ++ rest) =
      parseUrlLoop t (some uf) a (u.put uf ⟨i, UInt16.ofNat (c :: cs).length⟩)
        (i + UInt16.ofNat (c :: cs).length) rest := by
  rw [List.cons_append, parseUrlLoop]
  simp only [hc, if_neg hdead, ht, if_neg hold, hat, decide_false, Bool.or_false]
  rw [parseUrlLoop_field ht hat hdead rest i cs 1 (i + 1) hcs, add_one_length, one_add_length c]

/-- A whole field, when it is there. -/
theorem parseUrlLoop_putPart {s t : State} {uf : UrlField} {old : Option UrlField} (ht : t.urlField = some uf)
    (hat : t ≠ .s_req_server_with_at) (hdead : t ≠ .s_dead) (hold : old ≠ some uf) {part : Bytes}
    (hstart : ∀ c ∈ part.head?, parseUrlChar s c = t) (hstay : ∀ c ∈ part, parseUrlChar t c = t) (n : Nat)
    (rest : Bytes) :
    parseUrlLoop s old a u (UInt16.ofNat n) (part ++ rest) =
      parseUrlLoop (if part = [] then s else t) (if part = [] then old else some uf) a (putPart u uf n part)
        (UInt16.ofNat (n + part.length)) rest := by
  cases part with
  | nil => rfl
  | cons c cs =>
    have hne := List.cons_ne_nil c cs
    have hcs : ∀ c ∈ cs, parseUrlChar t c = t := fun d hd => hstay d (List.mem_cons_of_mem c hd)
    rw [parseUrlLoop_start ht hat hdead hold (hstart c rfl) hcs, putPart, if_neg hne, if_neg hne, if_neg hne,
      UInt16.ofNat_add]

/-- Delimiters that keep a state. -/
theorem parseUrlLoop_delims {t : State} (hdead : t ≠ .s_dead) (hnone : t.urlField = none) (old : Option UrlField)
    (rest : Bytes) : ∀ (cs : Bytes) (n : Nat), (∀ c ∈ cs, parseUrlChar t c = t) →
    parseUrlLoop t old a u (UInt16.ofNat n) (cs ++ rest) =
      parseUrlLoop t old a u (UInt16.ofNat (n + cs.length)) rest := by
  intro cs
  induction cs with
  | nil =>
    intro n _
    rfl
  | cons c cs ih =>
    intro n h
    obtain ⟨hc, hcs⟩ := List.forall_mem_cons.mp h
    rw [List.cons_append, parseUrlLoop_delim hc hdead hnone, ofNat16_add_one, ih (n + 1) hcs, List.length_cons,
      Nat.add_assoc, Nat.add_comm 1]

end

section
variable {u : HttpParserUrl} {a : Bool} {s : State} {old : Option UrlField} (n : Nat)

theorem AfterQuery.parseUrlLoop_tail (f : AfterQuery)
    (hs : f.hashes ≠ [] → parseUrlChar s (chr '#') = .s_req_fragment_start)
    (hold : old ≠ some .UF_FRAGMENT) :
    parseUrlLoop s old a u (UInt16.ofNat n) f.tail =
      some (a, putPart u .UF_FRAGMENT (n + f.hashes.length) f.fragment) := by
  have hall := f.hashes_eq
  unfold tail
  cases hh : f.hashes with
  | nil =>
    have hfragment : f.fragment = [] := by
      by_contra hne
      exact f.fragment_after hne hh
    rw [hfragment]
    rfl
  | cons c cs =>
    rw [hh] at hs hall
    obtain ⟨rfl, hcs⟩ := List.forall_mem_cons.mp hall
    have hstart : ∀ c ∈ f.fragment.head?, parseUrlChar .s_req_fragment_start c = .s_req_fragment := by
      intro c hc
      have hchar := f.fragment_chars c (List.mem_of_mem_head? hc)
      exact parseUrlChar_fragment (Or.inl rfl) (hchar.resolve_right (f.fragment_start c hc))
    have hkeep : ∀ c ∈ cs, parseUrlChar .s_req_fragment_start c = .s_req_fragment_start := by
      intro c hc
      rw [hcs c hc]
      rfl
    have hpart := parseUrlLoop_putPart (u := u) (a := a) (t := .s_req_fragment) rfl (by decide) (by decide) hold
      hstart (fun c hc => parseUrlChar_fragmentChar (f.fragment_chars c hc)) (n + (chr '#' :: cs).length) []
    rw [List.append_nil] at hpart
    rw [List.cons_append, parseUrlLoop_delim (hs (List.cons_ne_nil _ _)) (by decide) rfl, ofNat16_add_one,
      parseUrlLoop_delims (by decide) rfl old f.fragment cs (n + 1) hkeep, Nat.add_assoc, Nat.add_comm 1,
      ← List.length_cons, hpart]
    rfl

theorem AfterPath.parseUrlLoop_tail (f : AfterPath)
    (hmark : parseUrlChar s (chr '?') = .s_req_query_string_start)
    (hhash : f.mark = [] → f.hashes ≠ [] → parseUrlChar s (chr '#') = .s_req_fragment_start)
    (hquery : old ≠ some .UF_QUERY) (hfragment : old ≠ some .UF_FRAGMENT) :
    parseUrlLoop s old a u (UInt16.ofNat n) f.tail =
      some (a, putPart (putPart u .UF_QUERY (n + f.mark.length) f.query) .UF_FRAGMENT
        (n + f.mark.length + f.query.length + f.hashes.length) f.fragment) := by
  unfold tail
  rcases f.mark_eq with ⟨hm, hq⟩ | hm
  · rw [hm, hq]
    exact f.toAfterQuery.parseUrlLoop_tail n (hhash hm) hfragment
  · have hstate : f.hashes ≠ [] → parseUrlChar (if f.query = [] then .s_req_query_string_start
        else .s_req_query_string) (chr '#') = .s_req_fragment_start := by
      intro _
      split
      · rfl
      · rfl
    have hold : (if f.query = [] then old else some .UF_QUERY) ≠ some .UF_FRAGMENT := by
      split
      · exact hfragment
      · decide
    rw [hm, List.cons_append, List.nil_append, parseUrlLoop_delim hmark (by decide) rfl, ofNat16_add_one,
      parseUrlLoop_putPart (t := .s_req_query_string) rfl (by decide) (by decide) hquery
        (fun c hc => parseUrlChar_query (Or.inl rfl) (f.query_chars c (List.mem_of_mem_head? hc)))
        (fun c hc => parseUrlChar_query (Or.inr rfl) (f.query_chars c hc)),
      f.toAfterQuery.parseUrlLoop_tail _ hstate hold]
    rfl

end

/-- What `http_parser_parse_url` leaves for such a URL. -/
def partSlices (path query fragment : Bytes) : HttpParserUrl :=
  let u := ({} : HttpParserUrl).put .UF_PATH ⟨0, UInt16.ofNat path.length⟩
  let u := if query = [] then u else u.put .UF_QUERY ⟨UInt16.ofNat (path.length + 1), UInt16.ofNat query.length⟩
  if fragment = [] then u
  else u.put .UF_FRAGMENT
    ⟨UInt16.ofNat (path.length + (urlPart '?' query).length + 1), UInt16.ofNat fragment.length⟩

theorem parseUrlLoop_urlOf {us query fragment : Bytes} (hp : ∀ c ∈ us, PathChar c) (hq : ∀ c ∈ query, QueryChar c)
    (hf : ∀ c ∈ fragment, QueryChar c) :
    parseUrlLoop .s_req_spaces_before_url none false {} 0 (urlOf (chr '/' :: us) query fragment) =
      some (false, partSlices (chr '/' :: us) query fragment) := by
  have hpath := parseUrlLoop_start (s := .s_req_spaces_before_url) (t := .s_req_path) (u := {}) (a := false) rfl
    (by decide) (by decide) (by decide : (none : Option UrlField) ≠ some .UF_PATH) (c := chr '/') rfl
    (fun c hc => parseUrlChar_path (hp c hc)) 0 (urlPart '?' query ++ urlPart '#' fragment)
  rw [UInt16.zero_add] at hpath
  have hstart : ∀ c ∈ fragment.head?, c ≠ chr '#' :=
    fun c hc => queryChar_ne_hash (hf c (List.mem_of_mem_head? hc))
  unfold urlOf
  rw [hpath, ← AfterPath.tail_written query fragment hq hstart fun c hc => Or.inl (hf c hc),
    AfterPath.parseUrlLoop_tail _ _ rfl (fun _ _ => rfl) (by decide) (by decide)]
  by_cases hquery : query = []
  · by_cases hfragment : fragment = []
    · simp [AfterPath.written, partSlices, putPart, hquery, hfragment]
    · simp [AfterPath.written, partSlices, putPart, urlPart, hquery, hfragment]
  · by_cases hfragment : fragment = []
    · simp [AfterPath.written, partSlices, putPart, hquery, hfragment]
    · have hoff : (chr '/' :: us).length + 1 + query.length + 1 =
          (chr '/' :: us).length + (chr '?' :: query).length + 1 := by
        rw [List.length_cons (a := chr '?'), Nat.add_assoc _ 1, Nat.add_comm 1]
      simp [AfterPath.written, partSlices, putPart, urlPart, hquery, hfragment, hoff, -List.length_cons,
        -UInt16.ofNat_add]

/-- The fields of such a URL. -/
theorem partSlices_fields (path query fragment : Bytes) (uf : UrlField) :
    (partSlices path query fragment).fields uf =
      match uf with
      | .UF_PATH => some ⟨0, UInt16.ofNat path.length⟩
      | .UF_QUERY =>
        if query = [] then none else some ⟨UInt16.ofNat (path.length + 1), UInt16.ofNat query.length⟩
      | .UF_FRAGMENT =>
        if fragment = [] then none
        else some ⟨UInt16.ofNat (path.length + (urlPart '?' query).length + 1), UInt16.ofNat fragment.length⟩
      | _ => none := by
  unfold partSlices HttpParserUrl.put
  by_cases hq : query = []
  · by_cases hf : fragment = []
    · cases uf <;> simp [hq, hf]
    · cases uf <;> simp [hq, hf]
  · by_cases hf : fragment = []
    · cases uf <;> simp [hq, hf]
    · cases uf <;> simp [hq, hf]

theorem parseUrl_urlOf {us query fragment : Bytes} (hp : ∀ c ∈ us, PathChar c) (hq : ∀ c ∈ query, QueryChar c)
    (hf : ∀ c ∈ fragment, QueryChar c) :
    httpParserParseUrl (urlOf (chr '/' :: us) query fragment) false =
      some (partSlices (chr '/' :: us) query fragment) := by
  have hne : urlOf (chr '/' :: us) query fragment ≠ [] := List.cons_ne_nil _ _
  have hschema := partSlices_fields (chr '/' :: us) query fragment .UF_SCHEMA
  have hhost := partSlices_fields (chr '/' :: us) query fragment .UF_HOST
  have hport : (partSlices (chr '/' :: us) query fragment).text .UF_PORT
      (urlOf (chr '/' :: us) query fragment) = none := by
    unfold HttpParserUrl.text
    rw [partSlices_fields]
    rfl
  unfold httpParserParseUrl
  simp [hne, parseUrlLoop_urlOf hp hq hf, hschema, hhost, hport]

/-! ## The parts -/

/-- The part of the URL at an offset, as 16-bit offsets and lengths give it. -/
def sliced (url : Bytes) (off len : Nat) : Bytes := (url.drop (off % 65536)).take (len % 65536)

theorem text_path (path query fragment url : Bytes) :
    (partSlices path query fragment).text .UF_PATH url = some (sliced url 0 path.length) := by
  unfold HttpParserUrl.text sliced
  rw [partSlices_fields]
  simp [UInt16.toNat_ofNat']

theorem text_query (path query fragment url : Bytes) :
    (partSlices path query fragment).text .UF_QUERY url =
      if query = [] then none else some (sliced url (path.length + 1) query.length) := by
  unfold HttpParserUrl.text sliced
  rw [partSlices_fields]
  by_cases hq : query = []
  · simp [hq]
  · simp [hq, UInt16.toNat_ofNat', -UInt16.ofNat_add]

theorem text_fragment (path query fragment url : Bytes) :
    (partSlices path query fragment).text .UF_FRAGMENT url =
      if fragment = [] then none
      else some (sliced url (path.length + (urlPart '?' query).length + 1) fragment.length) := by
  unfold HttpParserUrl.text sliced
  rw [partSlices_fields]
  by_cases hf : fragment = []
  · simp [hf]
  · simp [hf, UInt16.toNat_ofNat', -UInt16.ofNat_add]

/-- The part is shorter than 64 KiB and stands in the URL at its offset, modulo 64 Ki. -/
def Fits (url : Bytes) (off : Nat) (part : Bytes) : Prop :=
  part.length < 65536 ∧ (url.drop (off % 65536)).take part.length = part

instance (url : Bytes) (off : Nat) (part : Bytes) : Decidable (Fits url off part) :=
  inferInstanceAs (Decidable (_ ∧ _))

/-- A slice is the part it is meant to be exactly when the part fits. -/
theorem sliced_eq_iff (url : Bytes) (off : Nat) (part : Bytes) :
    sliced url off part.length = part ↔ Fits url off part := by
  unfold sliced Fits
  by_cases hlen : part.length < 65536
  · rw [Nat.mod_eq_of_lt hlen]
    exact (and_iff_right hlen).symm
  · refine iff_of_false ?_ (fun h => hlen h.1)
    intro heq
    have hlength := congrArg List.length heq
    rw [List.length_take] at hlength
    have hmod : part.length % 65536 < 65536 := Nat.mod_lt _ (by decide)
    omega

end Sylar.Http
