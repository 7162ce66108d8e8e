import Mathlib.Algebra.Order.Ring.Nat
import Mathlib.Data.List.Basic
import Mathlib.Data.List.TakeWhile
import Mathlib.Data.Nat.Digits.Defs
import Sylar.Lib.OrderedSet
import Sylar.Http.UrlParts

/- `HttpRequest::dump` of `sylar/http/http.cc`, read back by `HttpRequestParser::execute`.

   `dump` writes the first line, `connection` by `m_close`, the headers in the order of
   the map without `connection`, and for a body its length and the body. Read back in one
   call, the text gives the request again (`dump_execute`), with one exception: the parts
   of the URL are cut out with 16-bit offsets and lengths, while the head may have
   80 KiB. `request_round_trip_iff` says for which URLs that does not show. -/
namespace Sylar.Http
open Sylar.Lib

/-- A number as a stream writes it. -/
def decimalText (n : Nat) : Bytes :=
  if n = 0 then [chr '0'] else (Nat.digits 10 n).reverse.map fun d => chr '0' + UInt8.ofNat d

/-- `strcasecmp(a, b) == 0`. -/
def sameName (a b : Bytes) : Bool := folded a = folded b

def HttpRequest.url (r : HttpRequest) : Bytes :=
  r.path ++ (if r.query = [] then [] else ascii "?") ++ r.query ++
    (if r.fragment = [] then [] else ascii "#") ++ r.fragment

/-- A header that the loop over `m_headers` does not skip. -/
def HttpRequest.dumps (r : HttpRequest) (kv : Bytes × Bytes) : Bool :=
  !(!r.websocket && sameName kv.1 (ascii "connection")) &&
    !(r.body ≠ [] && sameName kv.1 (ascii "content-length"))

def HttpRequest.dump (r : HttpRequest) : Bytes :=
  ascii r.method.string ++ ascii " " ++ r.url ++ ascii " HTTP/" ++ decimalText (r.version >>> 4).toNat ++
    ascii "." ++ decimalText (r.version &&& 0x0F).toNat ++ ascii "\r\n" ++
    (if !r.websocket then
      ascii "connection: " ++ ascii (if r.close then "close" else "keep-alive") ++ ascii "\r\n"
    else []) ++
    ((r.headers.filter r.dumps).flatMap fun kv => kv.1 ++ ascii ": " ++ kv.2 ++ ascii "\r\n") ++
    (if r.body ≠ [] then
      ascii "content-length: " ++ decimalText r.body.length ++ ascii "\r\n\r\n" ++ r.body
    else ascii "\r\n")

/-! ## Requests that can be sent -/

/-- The order of the map. -/
def keyLess (a b : Bytes × Bytes) : Bool := caseInsensitiveLess a.1 b.1

/-- A request whose text is HTTP behind the method: the parts are made of the characters that may stand in them,
no header decides about the body, and the head is not longer than the parser allows. A body is a string,
and so shorter than 2 ^ 63. -/
structure Legible (r : HttpRequest) : Prop where
  method : r.method ≠ .CONNECT
  version : r.version = 0x10 ∨ r.version = 0x11
  websocket : r.websocket = false
  path : ∃ us, r.path = chr '/' :: us ∧ ∀ c ∈ us, PathChar c
  query : ∀ c ∈ r.query, QueryChar c
  fragment : ∀ c ∈ r.fragment, QueryChar c
  sorted : OrderedSet.Sorted keyLess r.headers
  headers : ∀ kv ∈ r.headers, IsHeader kv
  head : r.dump.length - r.body.length ≤ maxHeaderSize.toNat
  body : r.body.length < 2 ^ 63

/-- Its method is one, too. -/
structure Sendable (r : HttpRequest) : Prop extends Legible r where
  known : r.method ≠ .INVALID_METHOD

/-! ## Numbers -/

theorem isNum_digit {d : Nat} (h : d < 10) : isNum (chr '0' + UInt8.ofNat d) = true := by
  have hdigits : ∀ n : Fin 10, isNum (chr '0' + UInt8.ofNat n) = true := by decide
  exact hdigits ⟨d, h⟩

theorem value_digit {d : Nat} (h : d < 10) : (chr '0' + UInt8.ofNat d - chr '0').toNat = d := by
  have hdigits : ∀ n : Fin 10, (chr '0' + UInt8.ofNat n - chr '0').toNat = n := by decide
  exact hdigits ⟨d, h⟩

theorem decimalText_isLength (n : Nat) : IsLength (decimalText n) := by
  unfold decimalText
  by_cases hn : n = 0
  · rw [if_pos hn]
    exact ⟨List.cons_ne_nil _ _, List.all_eq_true.mp (by decide)⟩
  · rw [if_neg hn]
    refine ⟨?_, ?_⟩
    · simp [Nat.digits_ne_nil_iff_ne_zero.mpr hn]
    · intro c hc
      obtain ⟨d, hd, rfl⟩ := List.mem_map.mp hc
      exact isNum_digit (Nat.digits_lt_base (by decide) (List.mem_reverse.mp hd))

/-- The digits of a number, from the last on, stand for it. -/
theorem decimal_reverse : ∀ ds : List Nat, (∀ d ∈ ds, d < 10) →
    decimal (ds.reverse.map fun d => chr '0' + UInt8.ofNat d) = Nat.ofDigits 10 ds := by
  intro ds
  induction ds with
  | nil => intro _; rfl
  | cons d rest ih =>
    intro h
    obtain ⟨hd, hrest⟩ := List.forall_mem_cons.mp h
    rw [List.reverse_cons, List.map_append, List.map_cons, List.map_nil, decimal_append, ih hrest, value_digit hd,
      Nat.ofDigits_cons]
    exact (Nat.add_comm _ _).trans (by rw [Nat.mul_comm])

theorem decimal_decimalText (n : Nat) : decimal (decimalText n) = n := by
  unfold decimalText
  by_cases hn : n = 0
  · rw [if_pos hn, hn]
    decide
  · rw [if_neg hn, decimal_reverse _ (fun d hd => Nat.digits_lt_base (by decide) hd), Nat.ofDigits_digits]

/-- The line with the length of the body, behind lines that gave none. -/
theorem reads_lengthLine {δ : Type} {st : Settings (Handler δ)} {setHeader : δ → Bytes → Bytes → δ}
    (hst : TakesHeaders st setHeader) {n : Nat} (hn : n < 2 ^ 63) {bytes : Bytes} {l₀ l : Loop (Handler δ)}
    (h : EndsLines l) (hline : ReadsLine st bytes l₀ l) (hflag : l.flags.contentlength = false)
    (hroom : l.nread.toNat + (dumpLine (ascii "content-length", decimalText n)).length ≤ maxHeaderSize.toNat) :
    ∃ l', EndsLines l' ∧ SameHead l l' ∧
      ReadsLine st (bytes ++ dumpLine (ascii "content-length", decimalText n)) l₀ l' ∧
      l'.contentLength.toNat = n ∧
      l'.nread.toNat = l.nread.toNat + (dumpLine (ascii "content-length", decimalText n)).length ∧
      l'.user.data = setHeader l.user.data (ascii "content-length") (decimalText n) := by
  have hblank : ∀ b ∈ [chr ' '], b = chr ' ' ∨ b = 9 := by simp
  have hname : IsName (ascii "content-length") := by decide
  have hword : (ascii "content-length").map token = ascii "content-length" := by decide
  have hmax : decimal (decimalText n) ≤ maxContentLength := by
    rw [decimal_decimalText]
    unfold maxContentLength
    omega
  obtain ⟨v, hvflags, hvlength, hone⟩ := readsLine_length hst h.atLine h.unfinished hname hword hblank
    (decimalText_isLength n) hflag hmax hroom
  refine ⟨l.nextLine v (dumpLine (ascii "content-length", decimalText n)).length
    (withHeader setHeader l.user (ascii "content-length") (decimalText n)), ?_, sameHead_nextLine l v _ _, ?_,
    hvlength.trans (decimal_decimalText n), nextLine_nread hroom, rfl⟩
  · have hflags : ∀ f : Flags → Bool, f { l.flags with contentlength := true } = f l.flags →
        f v.flags = f l.flags := by
      intro f hf
      rw [hvflags, hf]
    exact
      { atLine := h.atLine.nextLine v _ _
        unfinished := h.unfinished
        method := h.method
        chunked := (hflags Flags.chunked rfl).trans h.chunked
        trailing := (hflags Flags.trailing rfl).trans h.trailing
        upgrade := (hflags Flags.upgrade rfl).trans h.upgrade
        skipbody := (hflags Flags.skipbody rfl).trans h.skipbody }
  · obtain ⟨c, cs, hcs, hc⟩ : ∃ c cs, dumpLine (ascii "content-length", decimalText n) = c :: cs ∧
        ¬(c = chr ' ' ∨ c = 9) := dumpLine_head hname
    have hpos := dumpLine_length_pos (ascii "content-length", decimalText n)
    rw [hcs]
    refine hline.append hc (by omega) ?_
    rw [← hcs]
    exact hone

/-! ## The map of the headers -/

theorem keyLess_irrefl (a : Bytes × Bytes) : keyLess a a = false := by
  unfold keyLess caseInsensitiveLess
  exact decide_eq_false (List.lt_irrefl _)

theorem keyLess_trans (a b c : Bytes × Bytes) (hab : keyLess a b = true) (hbc : keyLess b c = true) :
    keyLess a c = true := by
  unfold keyLess caseInsensitiveLess at hab hbc ⊢
  exact decide_eq_true (List.lt_trans (of_decide_eq_true hab) (of_decide_eq_true hbc))

/-- Names that differ are in one order or the other. -/
theorem keyLess_of_ne {a b : Bytes × Bytes} (h : folded a.1 ≠ folded b.1) (hab : ¬ keyLess a b = true) :
    keyLess b a = true := by
  unfold keyLess caseInsensitiveLess at hab ⊢
  refine decide_eq_true ?_
  by_contra hba
  exact h (List.le_antisymm hba (fun hlt => hab (decide_eq_true hlt)))

/-- No key of the map is this one. -/
def Fresh (key : Bytes) (m : MapType) : Prop := ∀ kv ∈ m, folded kv.1 ≠ folded key

/-- A new key: the map has one element more. -/
theorem set_fresh (key val : Bytes) : ∀ {m : MapType}, OrderedSet.Sorted keyLess m → Fresh key m →
    OrderedSet.Sorted keyLess (m.set key val) ∧ ∀ kv, kv ∈ m.set key val ↔ kv = (key, val) ∨ kv ∈ m := by
  intro m
  induction m with
  | nil =>
    intro _ _
    exact ⟨List.pairwise_singleton _ _, fun kv => by simp [MapType.set]⟩
  | cons x rest ih =>
    intro hs hf
    obtain ⟨hx, hrest⟩ := List.pairwise_cons.mp hs
    obtain ⟨hfx, hfrest⟩ := List.forall_mem_cons.mp hf
    obtain ⟨k, v⟩ := x
    by_cases hlt : caseInsensitiveLess k key = true
    · obtain ⟨hsorted, hmem⟩ := ih hrest hfrest
      have hset : MapType.set key val ((k, v) :: rest) = (k, v) :: MapType.set key val rest := by
        rw [MapType.set, if_pos hlt]
      rw [hset]
      refine ⟨List.pairwise_cons.mpr ⟨?_, hsorted⟩, ?_⟩
      · intro kv hkv
        rcases (hmem kv).mp hkv with rfl | hkv
        · exact hlt
        · exact hx kv hkv
      · intro kv
        rw [List.mem_cons, hmem, List.mem_cons]
        exact or_left_comm
    · -- not before and not the same: the new key comes first
      have hgt : keyLess (key, val) (k, v) = true := keyLess_of_ne (a := (k, v)) (b := (key, val)) hfx hlt
      have hset : MapType.set key val ((k, v) :: rest) = (key, val) :: (k, v) :: rest := by
        rw [MapType.set, if_neg hlt]
        exact if_pos hgt
      rw [hset]
      refine ⟨List.pairwise_cons.mpr ⟨?_, hs⟩, fun kv => List.mem_cons⟩
      intro kv hkv
      rcases List.mem_cons.mp hkv with rfl | hkv
      · exact hgt
      · exact keyLess_trans _ _ _ hgt (hx kv hkv)

/-- Several new keys, one after another. -/
theorem foldl_set_fresh : ∀ (kvs m : MapType), OrderedSet.Sorted keyLess m →
    kvs.Pairwise (fun a b => folded a.1 ≠ folded b.1) → (∀ kv ∈ kvs, Fresh kv.1 m) →
    OrderedSet.Sorted keyLess (kvs.foldl (fun m kv => MapType.set kv.1 kv.2 m) m) ∧
      ∀ kv, kv ∈ kvs.foldl (fun m kv => MapType.set kv.1 kv.2 m) m ↔ kv ∈ kvs ∨ kv ∈ m := by
  intro kvs
  induction kvs with
  | nil => intro m hs _ _; exact ⟨hs, fun kv => by simp⟩
  | cons x rest ih =>
    intro m hs hp hf
    obtain ⟨hx, hrest⟩ := List.pairwise_cons.mp hp
    obtain ⟨hfx, hfrest⟩ := List.forall_mem_cons.mp hf
    obtain ⟨hsorted, hmem⟩ := set_fresh x.1 x.2 hs hfx
    have hfresh : ∀ kv ∈ rest, Fresh kv.1 (MapType.set x.1 x.2 m) := by
      intro kv hkv y hy
      rcases (hmem y).mp hy with rfl | hy
      · exact hx kv hkv
      · exact hfrest kv hkv y hy
    obtain ⟨hs', hm'⟩ := ih _ hsorted hrest hfresh
    refine ⟨hs', fun kv => ?_⟩
    rw [List.foldl_cons, hm', hmem, List.mem_cons]
    exact or_left_comm.trans or_assoc.symm

/-- The keys of a map differ. -/
theorem pairwise_ne {m : MapType} (hs : OrderedSet.Sorted keyLess m) :
    m.Pairwise (fun a b => folded a.1 ≠ folded b.1) := by
  refine List.Pairwise.imp ?_ hs
  intro a b hlt heq
  unfold keyLess caseInsensitiveLess at hlt
  rw [heq] at hlt
  exact List.lt_irrefl _ (of_decide_eq_true hlt)

/-! ## What is sent -/

def HttpRequest.connection (r : HttpRequest) : Bytes × Bytes :=
  (ascii "connection", ascii (if r.close then "close" else "keep-alive"))

def HttpRequest.contentLength (r : HttpRequest) : Bytes × Bytes :=
  (ascii "content-length", decimalText r.body.length)

/-- The headers that are not written anew. -/
def HttpRequest.others (r : HttpRequest) : MapType :=
  r.headers.filter fun kv => !sameName kv.1 (ascii "connection")

/-- The headers of the request that arrives: `connection` says whether it is to be closed, and with a
body `content-length` its size. -/
def HttpRequest.sentHeaders (r : HttpRequest) : MapType :=
  let h := r.others.set r.connection.1 r.connection.2
  if r.body = [] then h else h.set r.contentLength.1 r.contentLength.2

/-- The digit of the minor version. -/
def HttpRequest.minor (r : HttpRequest) : UInt8 := if r.version = 0x10 then chr '0' else chr '1'

/-- What stands behind the lines of the headers. -/
def HttpRequest.dumpEnd (r : HttpRequest) : Bytes :=
  if r.body = [] then [CR, LF] else dumpLine r.contentLength ++ ([CR, LF] ++ r.body)

section
variable {r : HttpRequest}

theorem folded_ascii (name : Bytes) (h : ∀ c ∈ name, c ≠ 0) : folded name = name.map tolower := by
  unfold folded
  rw [List.takeWhile_eq_self_iff.mpr]
  intro c hc
  simpa using h c hc

/-- A header that decides nothing about the body is not `content-length`. -/
theorem IsHeader.not_length {kv : Bytes × Bytes} (h : IsHeader kv) :
    folded kv.1 ≠ folded (ascii "content-length") := by
  have hchar : ∀ c, token c ≠ 0 → c ≠ 0 ∧ tolower c = token c := by
    apply forall_byte
    decide +kernel
  have hlower : folded kv.1 = kv.1.map token := by
    rw [folded_ascii _ fun c hc => (hchar c (h.name.2 c hc)).1]
    exact List.map_congr_left fun c hc => (hchar c (h.name.2 c hc)).2
  have hlength : folded (ascii "content-length") = ascii "content-length" := by decide
  rw [hlower, hlength]
  intro heq
  exact h.ordinary (by rw [heq]; exact List.mem_cons_self)

theorem filter_dumps (hw : r.websocket = false) (hh : ∀ kv ∈ r.headers, IsHeader kv) :
    r.headers.filter r.dumps = r.others := by
  refine List.filter_congr ?_
  intro kv hkv
  have hlength := (hh kv hkv).not_length
  simp [HttpRequest.dumps, hw, sameName, hlength]

theorem line_eq (kv : Bytes × Bytes) : kv.1 ++ ascii ": " ++ kv.2 ++ ascii "\r\n" = dumpLine kv := by
  have hcolon : ascii ": " = [chr ':'] ++ [chr ' '] := rfl
  unfold dumpLine headerLine
  rw [hcolon, ← List.append_assoc]
  rfl

theorem version_eq (hv : r.version = 0x10 ∨ r.version = 0x11) :
    ascii " HTTP/" ++ decimalText (r.version >>> 4).toNat ++ ascii "." ++ decimalText (r.version &&& 0x0F).toNat ++
      ascii "\r\n" = [chr ' '] ++ (ascii "HTTP/1." ++ [r.minor, CR, LF]) := by
  unfold HttpRequest.minor
  rcases hv with hv | hv
  · rw [hv]
    rfl
  · rw [hv]
    rfl

theorem dumpEnd_eq (body : Bytes) :
    (if body ≠ [] then
      ascii "content-length: " ++ decimalText body.length ++ ascii "\r\n\r\n" ++ body
    else ascii "\r\n") =
      if body = [] then [CR, LF]
      else dumpLine (ascii "content-length", decimalText body.length) ++ ([CR, LF] ++ body) := by
  by_cases hb : body = []
  · rw [if_neg (not_not.mpr hb), if_pos hb]
    rfl
  · have hname : ascii "content-length: " = ascii "content-length" ++ ascii ": " := rfl
    have hend : ascii "\r\n\r\n" = ascii "\r\n" ++ [CR, LF] := rfl
    rw [if_pos hb, if_neg hb, hname, hend, ← List.append_assoc, ← List.append_assoc]
    exact congrArg (fun line => line ++ [CR, LF] ++ body)
      (line_eq (ascii "content-length", decimalText body.length))

/-- The text of a request, line by line. -/
theorem dump_eq (hv : r.version = 0x10 ∨ r.version = 0x11) (hw : r.websocket = false)
    (hh : ∀ kv ∈ r.headers, IsHeader kv) :
    r.dump = startLine r.method r.url r.minor ++ ((r.connection :: r.others).flatMap dumpLine ++ r.dumpEnd) := by
  have hname : ascii "connection: " = ascii "connection" ++ ascii ": " := rfl
  have hconn : ascii "connection: " ++ ascii (if r.close then "close" else "keep-alive") ++ ascii "\r\n" =
      dumpLine r.connection := by
    rw [hname]
    exact line_eq r.connection
  have hlines : (fun kv : Bytes × Bytes => kv.1 ++ ascii ": " ++ kv.2 ++ ascii "\r\n") = dumpLine := funext line_eq
  have hstart : ascii r.method.string ++ ascii " " ++ r.url ++ ascii " HTTP/" ++
      decimalText (r.version >>> 4).toNat ++ ascii "." ++ decimalText (r.version &&& 0x0F).toNat ++ ascii "\r\n" =
        startLine r.method r.url r.minor := by
    have hversion := version_eq hv
    simp only [List.append_assoc] at hversion ⊢
    rw [hversion]
    simp only [startLine, List.append_assoc]
    rfl
  unfold HttpRequest.dump
  rw [hstart, if_pos (by simp [hw]), hconn, hlines, filter_dumps hw hh, dumpEnd_eq, List.flatMap_cons]
  simp only [List.append_assoc]
  rfl

theorem Sendable.dump_eq (h : Sendable r) :
    r.dump = startLine r.method r.url r.minor ++ ((r.connection :: r.others).flatMap dumpLine ++ r.dumpEnd) :=
  Sylar.Http.dump_eq h.version h.websocket h.headers

/-! ## Reading it back -/

theorem isHeader_connection (r : HttpRequest) : IsHeader r.connection := by
  have hboth : ∀ b : Bool, IsName (ascii "connection") ∧ Ordinary (ascii "connection") ∧
      IsValue (ascii (if b then "close" else "keep-alive")) := by decide +kernel
  obtain ⟨hname, hordinary, hvalue⟩ := hboth r.close
  exact ⟨hname, hordinary, hvalue⟩

theorem Sendable.isHeader (h : Sendable r) : ∀ kv ∈ r.connection :: r.others, IsHeader kv := by
  intro kv hkv
  rcases List.mem_cons.mp hkv with rfl | hkv
  · exact isHeader_connection r
  · exact h.headers kv (List.mem_filter.mp hkv).1

/-- The request parser's members when the first line and the headers of a request have been read. -/
def HttpRequest.arriving (r : HttpRequest) : HttpRequest :=
  { path := sliced r.url 0 r.path.length
    query := if r.query = [] then [] else sliced r.url (r.path.length + 1) r.query.length
    fragment :=
      if r.fragment = [] then []
      else sliced r.url (r.path.length + (urlPart '?' r.query).length + 1) r.fragment.length }

theorem url_eq (r : HttpRequest) : r.url = urlOf r.path r.query r.fragment := by
  unfold HttpRequest.url urlOf urlPart
  by_cases hq : r.query = []
  · by_cases hf : r.fragment = []
    · simp [hq, hf]
    · simp [hq, hf]; rfl
  · by_cases hf : r.fragment = []
    · simp [hq, hf]; rfl
    · simp [hq, hf]; rfl

/-- The callback for the URL. -/
theorem Sendable.onUrl (h : Sendable r) (p : Fields) :
    requestSettings.onData .url p r.url HttpRequestParser.new.toHandler =
      (0, { HttpRequestParser.new.toHandler with data := r.arriving }) := by
  obtain ⟨us, hpath, hus⟩ := h.path
  have hparse : httpParserParseUrl r.url false = some (partSlices r.path r.query r.fragment) := by
    rw [url_eq, hpath]
    exact parseUrl_urlOf hus h.query h.fragment
  show onRequestUrl p r.url _ = _
  unfold onRequestUrl
  rw [hparse]
  simp only [text_path, text_query, text_fragment]
  unfold HttpRequest.arriving
  by_cases hq : r.query = []
  · by_cases hf : r.fragment = []
    · simp only [hq, hf, if_true]; rfl
    · simp only [hq, hf, if_true, if_false]; rfl
  · by_cases hf : r.fragment = []
    · simp only [hq, hf, if_true, if_false]; rfl
    · simp only [hq, hf, if_false]; rfl

theorem foldl_setHeader : ∀ (kvs : MapType) (d : HttpRequest),
    kvs.foldl (fun d kv => d.setHeader kv.1 kv.2) d =
      { d with headers := kvs.foldl (fun m kv => MapType.set kv.1 kv.2 m) d.headers } := by
  intro kvs
  induction kvs with
  | nil => intro d; rfl
  | cons kv rest ih =>
    intro d
    rw [List.foldl_cons, ih]
    rfl

theorem others_sorted (h : Sendable r) : OrderedSet.Sorted keyLess r.others :=
  OrderedSet.sorted_of_sublist h.sorted List.filter_sublist

theorem others_fresh (r : HttpRequest) : Fresh r.connection.1 r.others := by
  intro kv hkv
  have hne := (List.mem_filter.mp hkv).2
  simp only [sameName, Bool.not_eq_true', decide_eq_false_iff_not] at hne
  exact hne

/-- The lines set the headers in the order they come in; the map does not show it. -/
theorem Sendable.foldl_lines (h : Sendable r) :
    (r.connection :: r.others).foldl (fun m kv => MapType.set kv.1 kv.2 m) [] =
      r.others.set r.connection.1 r.connection.2 := by
  have hsorted := others_sorted h
  have hfresh := others_fresh r
  have hpair : (r.connection :: r.others).Pairwise (fun a b => folded a.1 ≠ folded b.1) :=
    List.pairwise_cons.mpr ⟨fun kv hkv => (hfresh kv hkv).symm, pairwise_ne hsorted⟩
  -- two sorted maps with the same elements are the same
  obtain ⟨hs, hmem⟩ := foldl_set_fresh (r.connection :: r.others) [] List.Pairwise.nil hpair
    (fun kv _ x hx => absurd hx List.not_mem_nil)
  obtain ⟨hs', hmem'⟩ := set_fresh r.connection.1 r.connection.2 hsorted hfresh
  refine OrderedSet.sorted_ext keyLess_irrefl keyLess_trans hs hs' ?_
  intro kv
  rw [hmem, hmem', List.mem_cons]
  simp

/-- The loop before the first byte of the text. -/
def startLoop : Loop (Handler HttpRequest) :=
  enter HttpRequestParser.new.parser.toFields HttpRequestParser.new.toHandler

theorem startLoop_atStart : AtStart startLoop := ⟨rfl, rfl, rfl, rfl, rfl⟩

theorem minor_isNum (r : HttpRequest) : isNum r.minor = true := by
  unfold HttpRequest.minor
  split
  · decide
  · decide

/-- The version as the callback packs it. -/
theorem packVersion_minor {p : Fields} (hv : r.version = 0x10 ∨ r.version = 0x11) (hmajor : p.httpMajor = 1)
    (hminor : p.httpMinor = (r.minor - chr '0').toNat) : packVersion p = r.version := by
  unfold packVersion
  rw [hmajor, hminor, HttpRequest.minor]
  rcases hv with hv | hv
  · rw [hv]
    decide
  · rw [hv]
    decide

/-- The head of a request, up to the lines of its headers. -/
theorem Sendable.reads_head (h : Sendable r)
    (hroom : (startLine r.method r.url r.minor).length + ((r.connection :: r.others).flatMap dumpLine).length ≤
      maxHeaderSize.toNat) :
    ∃ l, EndsHead l ∧ ReadsLine requestSettings
        (startLine r.method r.url r.minor ++ (r.connection :: r.others).flatMap dumpLine) startLoop l ∧
      l.contentLength = ULLONG_MAX ∧ l.flags.contentlength = false ∧
      l.nread.toNat = (startLine r.method r.url r.minor).length +
        ((r.connection :: r.others).flatMap dumpLine).length ∧
      l.headData = { r.arriving with
        method := r.method, version := r.version, headers := r.others.set r.connection.1 r.connection.2 } := by
  obtain ⟨us, hpath, hus⟩ := h.path
  obtain ⟨s, hrun⟩ := urlRun_urlOf hus h.query h.fragment
  have hurl : r.url = chr '/' :: (us ++ (urlPart '?' r.query ++ urlPart '#' r.fragment)) := by
    rw [url_eq, hpath]
    rfl
  have hcb := h.onUrl
  rw [hurl] at hcb hroom ⊢
  have hzero : startLoop.nread.toNat = 0 := rfl
  obtain ⟨l₁, hstart, hstarted⟩ := reads_startLine requestSettings rfl startLoop_atStart rfl h.method h.known hrun
    hcb rfl (minor_isNum r) (by omega)
  have hnread := hstarted.nread_eq
  obtain ⟨l, hlines⟩ := reads_lines takesRequest r.others r.connection l₁ hstarted.atLine
    (by show l₁.user.finished = false; rw [hstarted.user_eq]; rfl) h.isHeader (by omega)
  have hflags := hlines.flags_same
  rw [hstarted.flags_eq] at hflags
  have hmethod : l.method = r.method := hlines.head.method_eq.trans hstarted.method_eq
  have hends : EndsHead l :=
    { atLine := hlines.atLine
      unfinished := hlines.unfinished
      request := hlines.head.type_eq.trans hstarted.type_eq
      method := by rw [hmethod]; exact h.method
      chunked := hflags.chunked
      trailing := hflags.trailing
      upgrade := hflags.upgrade
      skipbody := hflags.skipbody }
  refine ⟨l, hends, ?_, hlines.length_eq.trans hstarted.length_eq, hflags.contentlength, ?_, ?_⟩
  · obtain ⟨m, hm, hrest⟩ := hlines.lines
    exact ⟨m, hstart.append hm, hrest⟩
  · rw [hlines.nread_eq, hnread, hzero, Nat.zero_add]
  · have hmajor : l.httpMajor = 1 := hlines.head.major_eq.trans hstarted.major_eq
    have hminor' : l.httpMinor = (r.minor - chr '0').toNat := hlines.head.minor_eq.trans hstarted.minor_eq
    unfold Loop.headData
    rw [packVersion_minor h.version hmajor hminor', hmethod, hlines.data_eq, hstarted.user_eq,
      foldl_setHeader, ← h.foldl_lines]
    rfl

/-- The request that arrives. -/
def HttpRequest.arrived (r : HttpRequest) : HttpRequest :=
  { r.arriving with method := r.method, version := r.version, headers := r.sentHeaders, body := r.body }

/-- The length that the text gives is the body's. -/
theorem length_ne_max {n : UInt64} {k : Nat} (h : n.toNat = k) (hk : k < 2 ^ 63) : n ≠ ULLONG_MAX := by
  rintro rfl
  have hmax : ULLONG_MAX.toNat = 18446744073709551615 := rfl
  omega

/-- The line with the length, behind the other lines. -/
theorem Sendable.reads_length (h : Sendable r) {bytes : Bytes} {l₀ l : Loop (Handler HttpRequest)}
    (hends : EndsHead l) (hline : ReadsLine requestSettings bytes l₀ l) (hflag : l.flags.contentlength = false)
    (hroom : l.nread.toNat + (dumpLine r.contentLength).length ≤ maxHeaderSize.toNat) :
    ∃ l', EndsHead l' ∧ ReadsLine requestSettings (bytes ++ dumpLine r.contentLength) l₀ l' ∧
      l'.contentLength.toNat = r.body.length ∧
      l'.nread.toNat = l.nread.toNat + (dumpLine r.contentLength).length ∧
      l'.headData = l.headData.setHeader r.contentLength.1 r.contentLength.2 := by
  obtain ⟨l', hlines, hhead, hline', hlength, hnread, hdata⟩ :=
    reads_lengthLine takesRequest h.body hends.lines hline hflag hroom
  refine ⟨l', hlines.endsHead (hhead.type_eq.trans hends.request), hline', hlength, hnread, ?_⟩
  have hversion : packVersion l'.toFields = packVersion l.toFields := by
    unfold packVersion
    rw [hhead.major_eq, hhead.minor_eq]
  unfold Loop.headData
  rw [hdata, hversion, hhead.method_eq]
  rfl

/-- The whole text of a request that can be sent is read, and ends it. -/
theorem Sendable.reads_dump (h : Sendable r) :
    ∃ t, Reads requestSettings r.dump startLoop t ∧ Ends t r.arrived := by
  have hdump := h.dump_eq
  have hhead := h.head
  have hblank : ¬(CR = chr ' ' ∨ CR = 9) := by decide
  rw [hdump] at hhead ⊢
  rw [List.length_append, List.length_append] at hhead
  unfold HttpRequest.dumpEnd at hhead ⊢
  unfold HttpRequest.arrived HttpRequest.sentHeaders
  -- without a body the empty line ends the request, with one it is counted down to its last byte
  by_cases hbody : r.body = []
  · rw [if_pos hbody] at hhead ⊢
    rw [hbody, List.length_nil, List.length_cons, List.length_cons, List.length_nil] at hhead
    obtain ⟨l, hends, hline, hlength, -, hnread, hdata⟩ := h.reads_head (by omega)
    obtain ⟨t, hreads, hend⟩ := reads_end_empty hends hlength (by omega)
    refine ⟨t, ?_, ?_⟩
    · rw [← List.append_assoc]
      exact hline.reads hblank (by omega) hreads
    · rw [hdata] at hend
      simpa [hbody, HttpRequest.arriving] using hend
  · obtain ⟨b, bs, hcons⟩ := List.exists_cons_of_ne_nil hbody
    rw [if_neg hbody] at hhead ⊢
    rw [List.length_append, List.length_append, List.length_cons, List.length_cons, List.length_nil] at hhead
    obtain ⟨l, hends, hline, -, hflag, hnread, hdata⟩ := h.reads_head (by omega)
    obtain ⟨l', hends', hline', hlength, hnread', hdata'⟩ := h.reads_length hends hline hflag (by omega)
    have hmax := length_ne_max hlength h.body
    rw [hcons, List.length_cons] at hlength
    obtain ⟨t, hreads, hend⟩ := reads_end_body hends' (b := b) hlength hmax (by omega)
    refine ⟨t, ?_, ?_⟩
    · rw [← hcons] at hreads
      rw [← List.append_assoc, ← List.append_assoc]
      exact hline'.reads hblank (by omega) hreads
    · rw [hdata', hdata, ← hcons] at hend
      rw [if_neg hbody]
      exact hend

/-- `execute` of a new parser on bytes that end a request. -/
theorem execute_ends {data : Bytes} (hne : data ≠ []) {t : Loop (Handler HttpRequest)} {d : HttpRequest}
    (hreads : Reads requestSettings data startLoop t) (hend : Ends t d) :
    ∃ p, HttpRequestParser.execute HttpRequestParser.new data = (data.length, p) ∧
      p.hasError = false ∧ p.isFinished = true ∧ p.getData = d := by
  have hconsume : consume requestSettings data startLoop = (0, t.toFields.ok, t.user) := by
    unfold consume
    rw [hreads.scan_eq]
    dsimp only
    rw [leave_clear hend.clear]
  have herror : requestError t.toFields.ok .HPE_OK = .HPE_OK := by
    unfold requestError
    rw [if_neg (by show ¬ t.upgrade = true; rw [hend.upgrade]; decide)]
    rfl
  refine ⟨.after (0, t.toFields.ok, t.user) requestError, ?_, ?_, hend.finished, hend.data_eq⟩
  · unfold HttpRequestParser.execute
    rw [executeWith_eq rfl rfl hne]
    have hstart : enter HttpRequestParser.new.parser.toFields HttpRequestParser.new.toHandler = startLoop := rfl
    rw [hstart, hconsume, Nat.sub_zero]
  · unfold MessageParser.hasError MessageParser.after
    rw [herror]
    rfl

theorem Sendable.dump_ne_nil (h : Sendable r) : r.dump ≠ [] := by
  obtain ⟨c, cs, -, hmethod, -⟩ := methodStep_method h.known
  rw [h.dump_eq, startLine, hmethod]
  exact List.cons_ne_nil _ _

/-- `execute` on the whole text. -/
theorem Sendable.dump_execute (h : Sendable r) :
    ∃ p, HttpRequestParser.execute HttpRequestParser.new r.dump = (r.dump.length, p) ∧
      p.hasError = false ∧ p.isFinished = true ∧ p.getData = r.arrived := by
  obtain ⟨t, hreads, hend⟩ := h.reads_dump
  exact execute_ends h.dump_ne_nil hreads hend

end

/-! ## Round trips -/

/-- The text of the request, given to a new parser in one call, gives the request. -/
structure RoundTrips (r : HttpRequest) : Prop where
  noError : (HttpRequestParser.execute HttpRequestParser.new r.dump).2.hasError = false
  finished : (HttpRequestParser.execute HttpRequestParser.new r.dump).2.isFinished = true
  consumed : (HttpRequestParser.execute HttpRequestParser.new r.dump).1 = r.dump.length
  method : (HttpRequestParser.execute HttpRequestParser.new r.dump).2.getData.method = r.method
  version : (HttpRequestParser.execute HttpRequestParser.new r.dump).2.getData.version = r.version
  path : (HttpRequestParser.execute HttpRequestParser.new r.dump).2.getData.path = r.path
  query : (HttpRequestParser.execute HttpRequestParser.new r.dump).2.getData.query = r.query
  fragment : (HttpRequestParser.execute HttpRequestParser.new r.dump).2.getData.fragment = r.fragment
  body : (HttpRequestParser.execute HttpRequestParser.new r.dump).2.getData.body = r.body
  headers : (HttpRequestParser.execute HttpRequestParser.new r.dump).2.getData.headers = r.sentHeaders

/-- The parts of the URL fit into the slices: each is shorter than 64 KiB and stands where its wrapped
offset points, which it does when it starts before byte 65536. -/
structure HttpRequest.UrlFits (r : HttpRequest) : Prop where
  path : r.path.length < 65536
  query : r.query ≠ [] → Fits r.url (r.path.length + 1) r.query
  fragment : r.fragment ≠ [] → Fits r.url (r.path.length + (urlPart '?' r.query).length + 1) r.fragment

section
variable {r : HttpRequest}

theorem Sendable.roundTrips_iff (h : Sendable r) :
    RoundTrips r ↔ r.arrived.path = r.path ∧ r.arrived.query = r.query ∧ r.arrived.fragment = r.fragment := by
  obtain ⟨p, hexecute, herror, hfinished, hdata⟩ := h.dump_execute
  constructor
  · intro hr
    have hpath := hr.path
    have hquery := hr.query
    have hfragment := hr.fragment
    rw [hexecute, hdata] at hpath hquery hfragment
    exact ⟨hpath, hquery, hfragment⟩
  · rintro ⟨hpath, hquery, hfragment⟩
    constructor
    all_goals rw [hexecute]
    · exact herror
    · exact hfinished
    all_goals rw [hdata]
    · rfl
    · rfl
    · exact hpath
    · exact hquery
    · exact hfragment
    · rfl
    · rfl

theorem fits_path (r : HttpRequest) : Fits r.url 0 r.path ↔ r.path.length < 65536 := by
  refine and_iff_left ?_
  rw [url_eq, Nat.zero_mod, List.drop_zero, urlOf, List.take_left]

/-- The parts of the URL that arrive are the ones that were sent when they fit. -/
theorem arrived_url_iff (r : HttpRequest) :
    (r.arrived.path = r.path ∧ r.arrived.query = r.query ∧ r.arrived.fragment = r.fragment) ↔ r.UrlFits := by
  have hpath : r.arrived.path = r.path ↔ r.path.length < 65536 :=
    (sliced_eq_iff r.url 0 r.path).trans (fits_path r)
  have hquery : r.arrived.query = r.query ↔ (r.query ≠ [] → Fits r.url (r.path.length + 1) r.query) := by
    show (if r.query = [] then [] else _) = _ ↔ _
    by_cases hq : r.query = []
    · simp [hq]
    · rw [if_neg hq, sliced_eq_iff]
      exact ⟨fun hfits _ => hfits, fun hfits => hfits hq⟩
  have hfragment : r.arrived.fragment = r.fragment ↔
      (r.fragment ≠ [] → Fits r.url (r.path.length + (urlPart '?' r.query).length + 1) r.fragment) := by
    show (if r.fragment = [] then [] else _) = _ ↔ _
    by_cases hf : r.fragment = []
    · simp [hf]
    · rw [if_neg hf, sliced_eq_iff]
      exact ⟨fun hfits _ => hfits, fun hfits => hfits hf⟩
  rw [hpath, hquery, hfragment]
  exact ⟨fun ⟨hp, hq, hf⟩ => ⟨hp, hq, hf⟩, fun hr => ⟨hr.path, hr.query, hr.fragment⟩⟩

/-- The parser stops at the first byte of `<unknown>`. -/
theorem not_roundTrips_unknown (h : Legible r) (hmethod : r.method = .INVALID_METHOD) : ¬ RoundTrips r := by
  intro hr
  obtain ⟨rest, hcons⟩ : ∃ rest, r.dump = [chr '<'] ++ rest := by
    rw [dump_eq h.version h.websocket h.headers, hmethod]
    exact ⟨_, rfl⟩
  obtain ⟨s, n, hscan, hfails⟩ : ∃ s n, scan (step requestSettings) [chr '<']
      (enter HttpRequestParser.new.parser.toFields HttpRequestParser.new.toHandler) = .error (s, n) ∧
        requestError s.parser .HPE_OK ≠ .HPE_OK := ⟨_, _, rfl, by decide⟩
  have herror := hr.noError
  rw [hcons, HttpRequestParser.execute, executeWith_stopped requestError rfl rfl (List.cons_ne_nil _ _) hscan rest,
    MessageParser.hasError] at herror
  exact absurd herror (by simpa using hfails)

/-- **A request that can be written comes back as it was exactly when its method is one and the parts of its URL
fit into 16-bit slices.** -/
theorem request_round_trip_iff (r : HttpRequest) (h : Legible r) :
    RoundTrips r ↔ r.method ≠ .INVALID_METHOD ∧ r.UrlFits := by
  by_cases hmethod : r.method = .INVALID_METHOD
  · simp [hmethod, not_roundTrips_unknown h hmethod]
  · rw [(Sendable.mk h hmethod).roundTrips_iff, arrived_url_iff r, and_iff_right hmethod]

end

/-- `POST /a?x=1#f` with a header and a body. -/
def postRequest : HttpRequest where
  method := .POST
  path := ascii "/a"
  query := ascii "x=1"
  fragment := ascii "f"
  headers := [(ascii "Connection", ascii "upgrade"), (ascii "Host", ascii "h")]
  body := ascii "hi"

theorem postRequest_sendable : Sendable postRequest where
  method := by decide
  known := by decide
  version := by decide
  websocket := rfl
  path := ⟨ascii "a", rfl, List.all_eq_true.mp (by decide)⟩
  query := fun c hc => Or.inl (List.all_eq_true.mp (by decide : (ascii "x=1").all isUrlChar = true) c hc)
  fragment := fun c hc => Or.inl (List.all_eq_true.mp (by decide : (ascii "f").all isUrlChar = true) c hc)
  sorted := by unfold OrderedSet.Sorted; decide +kernel
  headers := by
    intro kv hkv
    rcases List.mem_cons.mp hkv with rfl | hkv
    · exact ⟨by decide, by decide, by decide⟩
    · rw [List.mem_singleton.mp hkv]
      exact ⟨by decide, by decide, by decide⟩
  head := by decide +kernel
  body := by decide

theorem postRequest_round_trip : RoundTrips postRequest := by
  refine (request_round_trip_iff postRequest postRequest_sendable.toLegible).mpr ⟨by decide, by decide, ?_, ?_⟩
  · intro _
    decide +kernel
  · intro _
    decide +kernel

/-- A request for a path and nothing else. -/
def pathRequest (path : Bytes) : HttpRequest := { path := path }

theorem length_dump_pathRequest (path : Bytes) : (pathRequest path).dump.length = path.length + 36 := by
  have hurl : (pathRequest path).url = path := by
    rw [url_eq]
    exact List.append_nil path
  have hdump := dump_eq (r := pathRequest path) (Or.inr rfl) rfl (fun kv hkv => absurd hkv List.not_mem_nil)
  have hlines : (((pathRequest path).connection :: (pathRequest path).others).flatMap dumpLine ++
      (pathRequest path).dumpEnd).length = 21 := by
    have hothers : (pathRequest path).others = [] := rfl
    have hend : (pathRequest path).dumpEnd = [CR, LF] := if_pos rfl
    have hname : (pathRequest path).connection.1.length = 10 := rfl
    have hvalue : (pathRequest path).connection.2.length = 5 := by
      have hclose : (pathRequest path).connection.2 = ascii "close" := congrArg ascii (if_pos rfl)
      rw [hclose]
      rfl
    rw [hothers, hend, List.flatMap_cons, List.flatMap_nil, List.append_nil, List.length_append, dumpLine,
      headerLine_length, hname, hvalue]
    rfl
  have hmethod : (ascii (pathRequest path).method.string).length = 3 := by
    show (ascii "GET").length = 3
    rfl
  rw [hdump, List.length_append, hlines, length_startLine, hmethod, hurl]
  omega

theorem not_roundTrips_long {path : Bytes} (h : Sendable (pathRequest path)) (hlen : 65536 ≤ path.length) :
    ¬ RoundTrips (pathRequest path) := by
  intro hr
  obtain ⟨hpath, -⟩ := h.roundTrips_iff.mp hr
  have hfits := (sliced_eq_iff (pathRequest path).url 0 path).mp hpath
  exact absurd hfits.1 (Nat.not_lt.mpr hlen)

/-- A path of 65536 bytes. -/
def longPath : Bytes := chr '/' :: List.replicate 65535 (chr 'a')

theorem length_longPath : longPath.length = 65536 := by
  rw [longPath, List.length_cons, List.length_replicate]

theorem longPath_sendable : Sendable (pathRequest longPath) where
  method := by decide
  known := by decide
  version := Or.inr rfl
  websocket := rfl
  path := ⟨_, rfl, fun c hc => by rw [List.eq_of_mem_replicate hc]; decide⟩
  query := fun c hc => absurd hc List.not_mem_nil
  fragment := fun c hc => absurd hc List.not_mem_nil
  sorted := List.Pairwise.nil
  headers := fun kv hkv => absurd hkv List.not_mem_nil
  head := by
    have hmax : maxHeaderSize.toNat = 81920 := rfl
    have hbody : (pathRequest longPath).body.length = 0 := rfl
    rw [length_dump_pathRequest, length_longPath]
    omega
  body := by decide

/-- Such a path does not come back. -/
theorem longPath_cut : Sendable (pathRequest longPath) ∧ ¬ RoundTrips (pathRequest longPath) :=
  ⟨longPath_sendable, not_roundTrips_long longPath_sendable (Nat.le_of_eq length_longPath.symm)⟩

end Sylar.Http
