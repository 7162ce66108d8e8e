import Sylar.Http.Params

/- What is parsed from a query, a form and a `cookie` header.

   `reference` is the splitter one would expect: the text is split at the separator,
   segments without `=` are dropped, each other one is split at its first `=`, and the
   first of several keys that are equal ignoring case wins (`FirstWins`). The macro
   searches for `=` before it searches for the separator, so that a segment
   without `=` becomes part of the next key. `parse_splits` says that the two
   insert the same pairs exactly when no segment without `=` stands before one with `=`.

   `encodedQuery` is the text that is built with `UrlEncode`. The encoder leaves
   `=` as it is, which is the mark of the parser: `params_survive_iff` says that
   the parameters come back exactly when no key has one. -/
namespace Sylar.Http
open Sylar.Lib
open Sylar.Util

/-! ## The reference -/

/-- Split at the separator, dropped or cut at the first `=`, trimmed and decoded. -/
def reference (sep : UInt8) (trim : Bytes → Bytes) (text : Bytes) : List (Bytes × Bytes) :=
  ((text.splitOn sep).filterMap (cut (chr '='))).map (decodedPair trim)

/-- The map holds the first pair of each key, keys compared without their case. -/
def FirstWins (pairs : List (Bytes × Bytes)) (m : ParamMap) : Prop :=
  ∀ kv, kv ∈ m.entries ↔ (pairs.find? fun p => folded p.1 = folded kv.1) = some kv

/-- The pairs that the macro inserts: it run on a list that records them. -/
def inserted (sep : UInt8) (trim : Bytes → Bytes) (text : Bytes) : List (Bytes × Bytes) :=
  parseParam (fun pairs kv => pairs ++ [kv]) text sep trim 0 []

/-- No segment without `=` stands before one with `=`. -/
def NoGap (sep : UInt8) (text : Bytes) : Prop := Gapless (chr '=') (text.splitOn sep)

instance (sep : UInt8) (text : Bytes) : Decidable (NoGap sep text) :=
  inferInstanceAs (Decidable (Gapless (chr '=') (text.splitOn sep)))

/-- How a map filled by the macro, which trims keys with `trim`, compares with the reference, with `ref`. -/
structure Splits (sep : UInt8) (trim ref : Bytes → Bytes) (text : Bytes) (m : ParamMap) : Prop where
  /-- The loop ends: every round that goes on is nearer to the end of the text. -/
  ends : ∀ last kv pos, parseRound text sep trim last = some (kv, some pos) → last < pos ∧ pos ≤ text.length
  /-- Of what it inserts the first pair of each key is there. -/
  filled : FirstWins (inserted sep trim text) m
  /-- It inserts what the reference has exactly on the texts without a gap. -/
  exact : inserted sep trim text = reference sep ref text ↔ NoGap sep text
  /-- And then the map is that of the reference. -/
  splits : NoGap sep text → FirstWins (reference sep ref text) m
  /-- Unless an escaped separator or a NUL hides it, the map shows every gap. -/
  shows : chr '%' ∉ text → 0 ∉ text → FirstWins (reference sep ref text) m → NoGap sep text

theorem lookup_nameOrder (key : Bytes) (pairs : List (Bytes × Bytes)) :
    OrderedMap.lookup nameOrder key pairs = pairs.find? fun p => folded p.1 = folded key := by
  unfold OrderedMap.lookup
  congr 1
  funext p
  rw [Bool.eq_iff_iff, nameOrder_same, decide_eq_true_iff]
  exact eq_comm

theorem firstWins_fill (pairs : List (Bytes × Bytes)) : FirstWins pairs (OrderedMap.empty.fill pairs) := by
  intro kv
  rw [OrderedMap.mem_fill, lookup_nameOrder]

theorem foldl_record {α : Type} (l acc : List α) : l.foldl (fun pairs kv => pairs ++ [kv]) acc = acc ++ l := by
  induction l generalizing acc with
  | nil => simp
  | cons x l ih => simp [ih]

theorem inserted_eq {sep : UInt8} (hsep : sep ≠ chr '=') (trim : Bytes → Bytes) (text : Bytes) :
    inserted sep trim text = keyValues sep trim text := by
  rw [inserted, parseParam_eq _ hsep, foldl_record]
  simp

/-- What makes a byte a separator of keys that are trimmed of `delimit`. -/
structure Separator (delimit : Bytes) (sep : UInt8) : Prop where
  ne_mark : sep ≠ chr '='
  ne_space : sep ≠ chr ' '
  ne_zero : sep ≠ 0
  plain : PlainByte sep
  stays : sep ∉ delimit
  lower : ∀ c, tolower c = sep ↔ c = sep
  blank : ∀ c ∈ delimit, PlainByte c

section
variable {delimit : Bytes} {sep : UInt8} {text : Bytes}

/-- A key is never the same with a separator and a text in front of it. -/
theorem decodedPair_ne (hsep : Separator delimit sep) (pre k v : Bytes) :
    decodedPair (trimmed delimit) (pre ++ sep :: k, v) ≠ decodedPair (trimmed delimit) (k, v) := by
  intro heq
  have hlt := length_decoded_trimmed hsep.blank hsep.plain hsep.stays pre k
  rw [decodedPair, decodedPair, Prod.mk.injEq] at heq
  rw [heq.1] at hlt
  exact Nat.lt_irrefl _ hlt

/-- A text without escapes is decoded to its own bytes and spaces. -/
theorem mem_of_decodedPair {kv : Bytes × Bytes} (hesc : chr '%' ∉ kv.1) {c : UInt8}
    (hc : c ∈ (decodedPair (trimmed delimit) kv).1) : c ∈ kv.1 ∨ c = chr ' ' := by
  have htrimmed : chr '%' ∉ trimmed delimit kv.1 := fun h => hesc (mem_of_trimmed h)
  exact (mem_of_urlDecode htrimmed hc).imp_left mem_of_trimmed

/-- The bytes of a key that is inserted for a text without escapes and NULs. -/
theorem mem_of_keyValues (hsep : Separator delimit sep) (hesc : chr '%' ∉ text) (hnul : 0 ∉ text)
    {kv : Bytes × Bytes} (hkv : kv ∈ keyValues sep (trimmed delimit) text) : ∀ c ∈ kv.1, c ≠ 0 := by
  obtain ⟨raw, hraw, rfl⟩ := List.mem_map.mp hkv
  have hbytes : ∀ c ∈ raw.1, c = sep ∨ c ∈ text := by
    intro c hc
    rcases mem_glue_key hraw hc with hc | hc | ⟨s, hs, hc⟩
    · cases hc
    · exact Or.inl hc
    · exact Or.inr (mem_splitOn hs hc).1
  have hplain : chr '%' ∉ raw.1 := by
    intro hmem
    rcases hbytes _ hmem with heq | hmem
    · exact hsep.plain.2.1 heq.symm
    · exact hesc hmem
  intro c hc hzero
  rcases mem_of_decodedPair hplain hc with hc | hc
  · rcases hbytes c hc with heq | hc
    · exact hsep.ne_zero (heq ▸ hzero)
    · exact hnul (hzero ▸ hc)
  · rw [hc] at hzero
    exact absurd hzero (by decide)

/-- The bytes of a key of the reference: no separator is among them. -/
theorem mem_of_reference (hsep : Separator delimit sep) (hesc : chr '%' ∉ text) (hnul : 0 ∉ text)
    {kv : Bytes × Bytes} (hkv : kv ∈ reference sep (trimmed delimit) text) : ∀ c ∈ kv.1, c ≠ 0 ∧ c ≠ sep := by
  obtain ⟨raw, hraw, rfl⟩ := List.mem_map.mp hkv
  obtain ⟨s, hs, hcut⟩ := List.mem_filterMap.mp hraw
  have hbytes : ∀ c ∈ raw.1, c ∈ text ∧ c ≠ sep := fun c hc => mem_splitOn hs (mem_of_cut hcut hc)
  intro c hc
  rcases mem_of_decodedPair (fun hmem => hesc (hbytes _ hmem).1) hc with hc | hc
  · refine ⟨?_, (hbytes c hc).2⟩
    intro hzero
    exact hnul (hzero ▸ (hbytes c hc).1)
  · rw [hc]
    exact ⟨by decide, hsep.ne_space.symm⟩

/-- A gap puts a key into the map that the reference does not have. -/
theorem noGap_of_firstWins (hsep : Separator delimit sep) (hesc : chr '%' ∉ text) (hnul : 0 ∉ text) {m : ParamMap}
    (hfilled : FirstWins (keyValues sep (trimmed delimit) text) m)
    (href : FirstWins (reference sep (trimmed delimit) text) m) : NoGap sep text := by
  by_contra hgap
  obtain ⟨x, k, v, hmem⟩ := mem_glue_of_gap sep hgap
  have hglued := List.mem_map_of_mem (f := decodedPair (trimmed delimit)) hmem
  -- the pair that is there under the glued key
  obtain ⟨p, hp⟩ := Option.isSome_iff_exists.mp (List.find?_isSome
    (p := fun p => folded p.1 = folded (decodedPair (trimmed delimit) (x ++ sep :: k, v)).1) |>.mpr
      ⟨_, hglued, by simp⟩)
  have hkey : folded p.1 = folded (decodedPair (trimmed delimit) (x ++ sep :: k, v)).1 := by
    simpa using List.find?_some hp
  have hthere : p ∈ m.entries := (hfilled p).mpr (by rw [hkey]; exact hp)
  have hbytes := mem_of_reference hsep hesc hnul (List.mem_of_find?_eq_some ((href p).mp hthere))
  have hsepmem : sep ∈ (decodedPair (trimmed delimit) (x ++ sep :: k, v)).1 := by
    simp [decodedPair, trimmed_append hsep.stays, urlDecode_append hsep.plain]
  rw [folded_ascii p.1 (fun c hc => (hbytes c hc).1),
    folded_ascii _ (mem_of_keyValues hsep hesc hnul hglued)] at hkey
  have hlower : sep ∈ p.1.map tolower := by
    rw [hkey, List.mem_map]
    exact ⟨sep, hsepmem, (hsep.lower sep).mpr rfl⟩
  obtain ⟨c, hc, hcsep⟩ := List.mem_map.mp hlower
  exact (hbytes c hc).2 ((hsep.lower c).mp hcsep)

theorem splits_fill (hsep : Separator delimit sep) (text : Bytes) :
    Splits sep (trimmed delimit) (trimmed delimit) text
      (OrderedMap.empty.fill (keyValues sep (trimmed delimit) text)) := by
  have hinserted := inserted_eq hsep.ne_mark (trimmed delimit) text
  have hexact : keyValues sep (trimmed delimit) text = reference sep (trimmed delimit) text ↔ NoGap sep text :=
    glue_map_eq_iff (decodedPair_ne hsep) (text.splitOn sep)
  refine ⟨fun last kv pos => parseRound_lt, ?_, ?_, ?_, ?_⟩
  · rw [hinserted]
    exact firstWins_fill _
  · rw [hinserted]
    exact hexact
  · intro hgap
    rw [← hexact.mpr hgap]
    exact firstWins_fill _
  · intro hesc hnul href
    exact noGap_of_firstWins hsep hesc hnul (firstWins_fill _) href

end

/-! ## The three texts -/

theorem trimmed_nil : trimmed [] = id := by
  funext str
  have hleft : str.dropWhile (· ∈ ([] : Bytes)) = str := by
    cases str <;> simp
  rw [trimmed, hleft]
  exact List.rdropWhile_eq_self_iff.mpr (by simp)

theorem trim_blanks : (trim · blanks) = trimmed blanks := by
  funext str
  exact trim_eq str blanks

/-- Only these two bytes are themselves in lower case. -/
theorem tolower_separator (c : UInt8) :
    (tolower c = chr '&' ↔ c = chr '&') ∧ (tolower c = chr ';' ↔ c = chr ';') := by
  revert c
  apply forall_byte
  decide +kernel

theorem separator_amp : Separator [] (chr '&') where
  ne_mark := by decide
  ne_space := by decide
  ne_zero := by decide
  plain := by unfold PlainByte; decide
  stays := by simp
  lower c := (tolower_separator c).1
  blank := by simp

theorem separator_semicolon : Separator blanks (chr ';') where
  ne_mark := by decide
  ne_space := by decide
  ne_zero := by decide
  plain := by unfold PlainByte; decide
  stays := by decide
  lower c := (tolower_separator c).2
  blank := by unfold blanks PlainByte; decide +kernel

theorem splits_amp (text : Bytes) :
    Splits (chr '&') id id text (OrderedMap.empty.fill (keyValues (chr '&') id text)) := by
  have h := splits_fill separator_amp text
  rwa [trimmed_nil] at h

/-- Each of the three parsers, on an empty map, against the reference. -/
theorem parse_splits (r : LazyRequest) :
    (r.parserParamFlag &&& 0x1 = 0 → r.params = OrderedMap.empty →
      Splits (chr '&') id id r.query r.initQueryParam.params) ∧
    (r.parserParamFlag &&& 0x2 = 0 → r.isForm = true → r.params = OrderedMap.empty →
      Splits (chr '&') id id r.body r.initBodyParam.params) ∧
    (r.parserParamFlag &&& 0x4 = 0 → r.cookies = OrderedMap.empty →
      Splits (chr ';') (trim · blanks) (trimmed blanks) (r.getHeader (ascii "cookie")) r.initCookies.cookies) := by
  refine ⟨?_, ?_, ?_⟩
  · intro hflag hempty
    have hpending : r.pendingQuery = keyValues (chr '&') id r.query := if_neg (by simpa using hflag)
    rw [r.initQueryParam_eq, hpending, hempty]
    exact splits_amp r.query
  · intro hflag hform hempty
    have hpending : r.pendingBody = keyValues (chr '&') id r.body := if_neg (by simp [hflag, hform])
    rw [r.initBodyParam_eq, hpending, hempty]
    exact splits_amp r.body
  · intro hflag hempty
    have hpending : r.pendingCookies = keyValues (chr ';') (trim · blanks) (r.getHeader (ascii "cookie")) :=
      if_neg (by simpa using hflag)
    rw [r.initCookies_eq, hpending, hempty, trim_blanks]
    exact splits_fill separator_semicolon _

/-- A request with all three texts: a key twice, a segment without `=` at the end, blanks around a key. -/
def threeTexts : LazyRequest where
  query := ascii "a=1&A=2&b"
  body := ascii "c=x+y"
  headers :=
    [(ascii "content-type", ascii "application/x-www-form-urlencoded"), (ascii "cookie", ascii " k =v; w=1")]

theorem parse_splits_three :
    FirstWins (reference (chr '&') id (ascii "a=1&A=2&b")) threeTexts.initQueryParam.params ∧
    FirstWins (reference (chr '&') id (ascii "c=x+y")) threeTexts.initBodyParam.params ∧
    FirstWins (reference (chr ';') (trimmed blanks) (ascii " k =v; w=1")) threeTexts.initCookies.cookies := by
  obtain ⟨hquery, hbody, hcookies⟩ := parse_splits threeTexts
  have hcookie : threeTexts.getHeader (ascii "cookie") = ascii " k =v; w=1" := by decide +kernel
  rw [hcookie] at hcookies
  refine ⟨?_, ?_, ?_⟩
  · exact (hquery (by decide) rfl).splits (by decide +kernel)
  · exact (hbody (by decide) (by decide +kernel) rfl).splits (by decide +kernel)
  · exact (hcookies (by decide) rfl).splits (by decide +kernel)

/-- In `a&b=1` the segment `a` becomes part of the next key: there is no parameter `b`. -/
theorem parse_splits_fails :
    ¬ ∀ r : LazyRequest, r.parserParamFlag &&& 0x1 = 0 → r.params = OrderedMap.empty →
      FirstWins (reference (chr '&') id r.query) r.initQueryParam.params := by
  intro h
  have hmem := (h { query := ascii "a&b=1" } (by decide) rfl (ascii "b", ascii "1")).mpr (by decide +kernel)
  rw [LazyRequest.initQueryParam_eq] at hmem
  exact absurd ((firstWins_fill _ _).mp hmem) (by decide +kernel)

/-! ## Encoded parameters -/

/-- `UrlEncode(k1)=UrlEncode(v1)&...&UrlEncode(kn)=UrlEncode(vn)`. -/
def encodedQuery (spaceAsPlus : Bool) (kvs : List (Bytes × Bytes)) : Bytes :=
  [chr '&'].intercalate
    (kvs.map fun kv => urlEncode kv.1 spaceAsPlus ++ chr '=' :: urlEncode kv.2 spaceAsPlus)

/-- The parameters of the query are these pairs: each is found, and no other is there. -/
structure Survives (r : LazyRequest) (kvs : List (Bytes × Bytes)) : Prop where
  get : ∀ kv ∈ kvs, ∀ default, (r.getParam kv.1 default).1 = kv.2
  only : ∀ kv, kv ∈ r.initQueryParam.params.entries ↔ kv ∈ kvs
  others : r.isForm = false → ∀ key, (∀ kv ∈ kvs, nameOrder.same key kv.1 = false) →
    ∀ val, (r.hasParam key val).1.1 = false

/-- No byte is encoded with a `&`, and only `=` is encoded with a `=`. -/
theorem encodedByte_marks (c : UInt8) : chr '&' ∉ encodedByte true c ∧ chr '&' ∉ encodedByte false c ∧
    (c ≠ chr '=' → chr '=' ∉ encodedByte true c ∧ chr '=' ∉ encodedByte false c) := by
  revert c
  apply forall_byte
  decide +kernel

theorem amp_not_mem_urlEncode (str : Bytes) (b : Bool) : chr '&' ∉ urlEncode str b := by
  rw [urlEncode_eq, urlEncoded, List.mem_flatMap]
  intro h
  obtain ⟨c, _, hc⟩ := h
  cases b with
  | true => exact (encodedByte_marks c).1 hc
  | false => exact (encodedByte_marks c).2.1 hc

theorem mark_not_mem_urlEncode {str : Bytes} (h : chr '=' ∉ str) (b : Bool) : chr '=' ∉ urlEncode str b := by
  rw [urlEncode_eq, urlEncoded, List.mem_flatMap]
  intro hmem
  obtain ⟨c, hc, hmark⟩ := hmem
  have hplain := (encodedByte_marks c).2.2 (fun heq => h (heq ▸ hc))
  cases b with
  | true => exact hplain.1 hmark
  | false => exact hplain.2 hmark

/-- The mark of the parser is encoded as itself. -/
theorem urlEncode_mark (a c : Bytes) (b : Bool) :
    urlEncode (a ++ chr '=' :: c) b = urlEncode a b ++ chr '=' :: urlEncode c b := by
  have hmark : encodedByte b (chr '=') = [chr '='] := by
    rw [encodedByte, if_pos (by decide +kernel)]
  simp only [urlEncode_eq, urlEncoded, List.flatMap_append, List.flatMap_cons, hmark, List.singleton_append]

/-- A pair of the text is read as it would be from its key and value with a bare `=` between them. -/
theorem cut_urlEncode (kv : Bytes × Bytes) (b : Bool) :
    ((cut (chr '=') (urlEncode kv.1 b ++ chr '=' :: urlEncode kv.2 b)).map (decodedPair id)) =
      cut (chr '=') (kv.1 ++ chr '=' :: kv.2) := by
  obtain ⟨k, v, hsplit, hk⟩ : ∃ k v, kv.1 ++ chr '=' :: kv.2 = k ++ chr '=' :: v ∧ chr '=' ∉ k :=
    List.eq_append_cons_of_mem (by simp)
  rw [← urlEncode_mark, hsplit, urlEncode_mark, cut_append (mark_not_mem_urlEncode hk b), cut_append hk]
  simp only [Option.map_some, decodedPair, id, urlDecode_plus_urlEncode]

theorem splitOn_encodedQuery (b : Bool) {kvs : List (Bytes × Bytes)} (h : kvs ≠ []) :
    (encodedQuery b kvs).splitOn (chr '&') =
      kvs.map fun kv => urlEncode kv.1 b ++ chr '=' :: urlEncode kv.2 b := by
  apply List.splitOn_intercalate
  · intro l hl
    obtain ⟨kv, _, rfl⟩ := List.mem_map.mp hl
    have hne : chr '&' ≠ chr '=' := by decide
    simp [amp_not_mem_urlEncode, hne]
  · simpa using h

/-- What is parsed from an encoded query: each pair, joined with `=` and cut at the first one. -/
theorem keyValues_encodedQuery (b : Bool) (kvs : List (Bytes × Bytes)) :
    keyValues (chr '&') id (encodedQuery b kvs) =
      kvs.filterMap fun kv => cut (chr '=') (kv.1 ++ chr '=' :: kv.2) := by
  by_cases hnil : kvs = []
  · simp [hnil, encodedQuery, keyValues_nil]
  · have hgap : NoGap (chr '&') (encodedQuery b kvs) := by
      rw [NoGap, splitOn_encodedQuery b hnil]
      apply List.pairwise_of_forall_mem_list
      intro s hs t _ _
      obtain ⟨kv, _, rfl⟩ := List.mem_map.mp hs
      simp
    rw [← inserted_eq (by decide), (splits_amp _).exact.mpr hgap, reference, splitOn_encodedQuery b hnil,
      List.filterMap_map, List.map_filterMap]
    congr 1
    funext kv
    exact cut_urlEncode kv b

/-- A pair whose key has no `=` is read as it is; of any pair a key without `=` is read. -/
theorem cut_pair {kv p : Bytes × Bytes} (h : cut (chr '=') (kv.1 ++ chr '=' :: kv.2) = some p) :
    chr '=' ∉ p.1 ∧ (chr '=' ∉ kv.1 → p = kv) := by
  obtain ⟨k, v, hsplit, hk⟩ : ∃ k v, kv.1 ++ chr '=' :: kv.2 = k ++ chr '=' :: v ∧ chr '=' ∉ k :=
    List.eq_append_cons_of_mem (by simp)
  refine ⟨?_, ?_⟩
  · rw [hsplit, cut_append hk, Option.some.injEq] at h
    rw [← h]
    exact hk
  · intro hkey
    rw [cut_append hkey, Option.some.injEq] at h
    exact h.symm

section
variable {r : LazyRequest} {kvs : List (Bytes × Bytes)} {b : Bool}

theorem initQueryParam_encoded (hflag : r.parserParamFlag &&& 0x1 = 0) (hempty : r.params = OrderedMap.empty)
    (hquery : r.query = encodedQuery b kvs) :
    r.initQueryParam.params =
      OrderedMap.empty.fill (kvs.filterMap fun kv => cut (chr '=') (kv.1 ++ chr '=' :: kv.2)) := by
  have hpending : r.pendingQuery = keyValues (chr '&') id r.query := if_neg (by simpa using hflag)
  rw [r.initQueryParam_eq, hpending, hempty, hquery, keyValues_encodedQuery]

/-- The body is parsed after the query: what is there is kept. -/
theorem get_initBodyParam (r : LazyRequest) (key : Bytes) :
    r.initBodyParam.params.get key =
      (r.params.get key).or ((OrderedMap.lookup nameOrder key r.pendingBody).map Prod.snd) := by
  rw [r.initBodyParam_eq, OrderedMap.get_fill]

/-- The parameters of an encoded query come back exactly when no key has a `=`, which the encoder leaves as it is. -/
theorem params_survive_iff (hflag : r.parserParamFlag &&& 0x1 = 0) (hempty : r.params = OrderedMap.empty)
    (hquery : r.query = encodedQuery b kvs)
    (hkeys : kvs.Pairwise fun x y => nameOrder.same x.1 y.1 = false) :
    Survives r kvs ↔ ∀ kv ∈ kvs, chr '=' ∉ kv.1 := by
  have hparams := initQueryParam_encoded hflag hempty hquery
  constructor
  · intro h kv hkv
    -- what is parsed has no `=` in its key
    have hmem := (h.only kv).mpr hkv
    rw [hparams, OrderedMap.mem_fill] at hmem
    obtain ⟨x, _, hcut⟩ := List.mem_filterMap.mp (List.mem_of_find?_eq_some hmem)
    exact (cut_pair hcut).1
  · intro h
    have hread : (kvs.filterMap fun kv => cut (chr '=') (kv.1 ++ chr '=' :: kv.2)) = kvs := by
      calc (kvs.filterMap fun kv => cut (chr '=') (kv.1 ++ chr '=' :: kv.2))
          = kvs.filterMap some := List.filterMap_congr fun kv hkv => cut_append (h kv hkv) kv.2
        _ = kvs := List.filterMap_some
    rw [hread] at hparams
    have hget : ∀ key, r.initQueryParam.params.get key = (OrderedMap.lookup nameOrder key kvs).map Prod.snd := by
      intro key
      rw [hparams, OrderedMap.get_fill]
      simp
    refine ⟨?_, ?_, ?_⟩
    · intro kv hkv default
      have hfound := (OrderedMap.mem_iff_lookup hkeys kv).mp hkv
      simp [LazyRequest.getParam, get_initBodyParam, hget, hfound]
    · intro kv
      rw [hparams, OrderedMap.mem_fill, OrderedMap.mem_iff_lookup hkeys]
    · intro hform key hother val
      have hnone : OrderedMap.lookup nameOrder key kvs = none := by
        apply List.find?_eq_none.mpr
        intro kv hkv
        simp [hother kv hkv]
      have hpending : r.initQueryParam.pendingBody = [] := by
        rw [r.initQueryParam_eq]
        exact if_pos (Or.inr hform)
      simp [LazyRequest.hasParam, get_initBodyParam, hget, hnone, hpending]

end

/-- A key with a separator, a value with a `=`, and an empty pair. -/
theorem params_survive_three :
    Survives { query := ascii "a%26=x%3F&B=1=2&=" } [(ascii "a&", ascii "x?"), (ascii "B", ascii "1=2"), ([], [])] :=
  (params_survive_iff (b := true) (by decide) rfl (by decide +kernel) (by decide +kernel)).mpr (by decide +kernel)

/-- With the key `a=b` the query is `a=b=c`, and `a` is there instead. -/
theorem params_survive_fails :
    ¬ ∀ (r : LazyRequest) (kvs : List (Bytes × Bytes)), r.parserParamFlag &&& 0x1 = 0 →
      r.params = OrderedMap.empty → r.query = encodedQuery true kvs →
      (kvs.Pairwise fun x y => nameOrder.same x.1 y.1 = false) → Survives r kvs := by
  intro h
  have hsurvive := h { query := ascii "a=b=c" } [(ascii "a=b", ascii "c")] (by decide) rfl (by decide +kernel)
    (List.pairwise_singleton _ _)
  have hmem := (hsurvive.only (ascii "a=b", ascii "c")).mpr (by simp)
  rw [LazyRequest.initQueryParam_eq] at hmem
  exact absurd ((firstWins_fill _ _).mp hmem) (by decide +kernel)


end Sylar.Http
