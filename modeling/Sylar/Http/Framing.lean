import Sylar.Lib.Lines
import Sylar.Http.Params
import Sylar.Http.Response

/- The headers that say where a message ends (`HttpRequest::dump`, `HttpResponse::dump`).

   Both functions write `connection` by `m_close` and for a body its length, and skip
   headers of the map that would say it again: the request `connection`, and
   `content-length` when it has a body, the response `connection` only. They compare the
   whole key, while a reader of the text takes the name up to the first colon.

   A text is read as its lines to the empty one, each cut at its first colon (`readMessage`),
   and is `Framed` when it says its length at most once and right, and once what becomes of the
   connection. `framing_headers_iff` says for which messages, made by any sequence of the
   member functions, the text is. -/
namespace Sylar.Http
open Sylar.Lib
open Sylar.Util (trimmed trimmed_append trimmed_of_none)

/-! ## Messages -/

/-- `m.erase(key)`. -/
def MapType.erase (key : Bytes) (m : MapType) : MapType :=
  m.filter fun kv => caseInsensitiveLess kv.1 key || caseInsensitiveLess key kv.1

/-- A call of a member function that both messages have. -/
inductive MessageCall where
  | setHeader (key val : Bytes)
  | delHeader (key : Bytes)
  | setBody (v : Bytes)
  | appendBody (v : Bytes)
  | setClose (v : Bool)
  deriving DecidableEq, Repr

def HttpRequest.call (r : HttpRequest) : MessageCall → HttpRequest
  | .setHeader key val => r.setHeader key val
  | .delHeader key => { r with headers := r.headers.erase key }
  | .setBody v => { r with body := v }
  | .appendBody v => r.appendBody v
  | .setClose v => { r with close := v }

def HttpResponse.call (r : HttpResponse) : MessageCall → HttpResponse
  | .setHeader key val => r.setHeader key val
  | .delHeader key => { r with headers := r.headers.erase key }
  | .setBody v => { r with body := v }
  | .appendBody v => r.appendBody v
  | .setClose v => { r with close := v }

/-- Neither the name nor the value of a header breaks the line. -/
def MessageCall.Clean : MessageCall → Prop
  | .setHeader key val => (CR ∉ key ∧ LF ∉ key) ∧ CR ∉ val ∧ LF ∉ val
  | _ => True

/-! ## Texts -/

/-- The name and the value of a line, the value without blanks at its ends. -/
def fieldOf (line : Bytes) : Option (Bytes × Bytes) :=
  (cut (chr ':') line).map fun kv => (kv.1, trimmed (ascii " \t") kv.2)

/-- The fields of a message behind its first line, and the bytes behind the empty line. -/
def readMessage (text : Bytes) : Option (List (Bytes × Bytes) × Bytes) :=
  (readLines CR LF [] text).map fun read => (read.1.tail.filterMap fieldOf, read.2)

/-- The name, whatever its case. -/
def named (word : String) (field : Bytes × Bytes) : Bool := field.1.map tolower = ascii word

/-- A value that is the number `n`. -/
def IsNumber (n : Nat) (value : Bytes) : Prop := IsLength value ∧ decimal value = n

/-- The fields say at most once how many bytes follow, and right, and once what becomes of the connection. -/
structure FramedBy (fields : List (Bytes × Bytes)) (body : Bytes) : Prop where
  length_once : fields.countP (named "content-length") ≤ 1
  length_right : ∀ f ∈ fields, named "content-length" f = true → IsNumber body.length f.2
  connection_once : fields.countP (named "connection") = 1

/-- A message whose text says where it ends. -/
def Framed (text : Bytes) : Prop :=
  ∃ fields body, readMessage text = some (fields, body) ∧ FramedBy fields body

/-! ## The condition -/

/-- The key is `word`, whatever its case. -/
def spells (word : String) (key : Bytes) : Bool := key.map tolower = ascii word

/-- The key goes on behind `word` and a colon. -/
def forges (word : String) (key : Bytes) : Bool :=
  match cut (chr ':') key with
  | some kv => spells word kv.1
  | none => false

/-- No key goes on behind `connection` or `content-length` and a colon. -/
def NoForgedKey (m : MapType) : Prop :=
  ∀ kv ∈ m, forges "connection" kv.1 = false ∧ forges "content-length" kv.1 = false

/-- A request without a body keeps a `content-length` only when it is 0. -/
def HttpRequest.KeepsFraming (r : HttpRequest) : Prop :=
  NoForgedKey r.headers ∧ (r.body = [] → ∀ kv ∈ r.headers, spells "content-length" kv.1 = true →
    IsNumber 0 (trimmed (ascii " \t") kv.2))

/-- A response has no `content-length` of its own, except 0 without a body. -/
def HttpResponse.KeepsFraming (r : HttpResponse) : Prop :=
  NoForgedKey r.headers ∧ ∀ kv ∈ r.headers, spells "content-length" kv.1 = true →
    r.body = [] ∧ IsNumber 0 (trimmed (ascii " \t") kv.2)

/-! ## The text of a message -/

def headerText (kv : Bytes × Bytes) : Bytes := kv.1 ++ ascii ": " ++ kv.2

/-- The line with the length, when there is a body. -/
def lengthField (body : Bytes) : MapType :=
  if body = [] then [] else [(ascii "content-length", decimalText body.length)]

def HttpRequest.requestLine (r : HttpRequest) : Bytes :=
  ascii r.method.string ++ ascii " " ++ r.url ++ ascii " HTTP/" ++ decimalText (r.version >>> 4).toNat ++
    ascii "." ++ decimalText (r.version &&& 0x0F).toNat

def HttpResponse.replyLine (r : HttpResponse) : Bytes :=
  ascii "HTTP/" ++ decimalText (r.version >>> 4).toNat ++ ascii "." ++ decimalText (r.version &&& 0x0F).toNat ++
    ascii " " ++ decimalText r.status ++ ascii " " ++ r.reasonText

/-- The text of a message from its first line, its fields and its body. -/
def messageText (first : Bytes) (fields : MapType) (body : Bytes) : Bytes :=
  endLines CR LF (first :: fields.map headerText) ++ CR :: LF :: body

theorem endLines_fields (fields : MapType) :
    endLines CR LF (fields.map headerText) = fields.flatMap fun kv => kv.1 ++ ascii ": " ++ kv.2 ++ ascii "\r\n" := by
  have hend : ascii "\r\n" = [CR, LF] := rfl
  simp [endLines, List.flatMap_map, headerText, hend]

theorem dumpEnd_fields (body : Bytes) :
    (if body ≠ [] then
      ascii "content-length: " ++ decimalText body.length ++ ascii "\r\n\r\n" ++ body
    else ascii "\r\n") = endLines CR LF ((lengthField body).map headerText) ++ CR :: LF :: body := by
  rw [dumpEnd_eq]
  unfold lengthField
  split
  · rename_i hb
    simp [endLines, hb]
  · rw [endLines_fields, ← line_eq]
    simp

theorem request_dump_eq {r : HttpRequest} (hw : r.websocket = false) :
    r.dump = messageText r.requestLine (r.connection :: (r.headers.filter r.dumps ++ lengthField r.body)) r.body := by
  have hend : ascii "\r\n" = [CR, LF] := rfl
  have hname : ascii "connection: " = ascii "connection" ++ ascii ": " := rfl
  have hfields := endLines_fields (r.headers.filter r.dumps)
  have hlength := dumpEnd_fields r.body
  unfold HttpRequest.dump messageText HttpRequest.requestLine
  rw [hlength, ← hfields]
  simp [endLines, headerText, hw, hend, hname, HttpRequest.connection]

theorem response_dump_eq {r : HttpResponse} (hw : r.websocket = false) (hc : r.cookies = []) :
    r.dump = messageText r.replyLine (r.headers.filter r.dumps ++ r.connection :: lengthField r.body) r.body := by
  have hend : ascii "\r\n" = [CR, LF] := rfl
  have hname : ascii "connection: " = ascii "connection" ++ ascii ": " := rfl
  have hfields := endLines_fields (r.headers.filter r.dumps)
  have hlength := dumpEnd_fields r.body
  unfold HttpResponse.dump messageText HttpResponse.replyLine
  rw [hlength, ← hfields]
  simp [endLines, headerText, hw, hc, hend, hname, HttpResponse.connection]

/-! ## Reading a field -/

/-- How a reader takes what is written of a header. -/
def readAs (kv : Bytes × Bytes) : Bytes × Bytes :=
  match cut (chr ':') kv.1 with
  | none => (kv.1, trimmed (ascii " \t") kv.2)
  | some k => (k.1, trimmed (ascii " \t") (k.2 ++ ascii ": " ++ kv.2))

/-- A key is cut at its first colon, or has none. -/
theorem cut_cases (key : Bytes) : (chr ':' ∉ key ∧ cut (chr ':') key = none) ∨
    ∃ a b, key = a ++ chr ':' :: b ∧ cut (chr ':') key = some (a, b) := by
  by_cases hmark : chr ':' ∈ key
  · obtain ⟨a, b, hkey, ha⟩ := List.eq_append_cons_of_mem hmark
    refine Or.inr ⟨a, b, hkey, ?_⟩
    rw [hkey]
    exact cut_append ha b
  · exact Or.inl ⟨hmark, cut_of_not_mem hmark⟩

theorem cut_left {key a b : Bytes} (h : cut (chr ':') key = some (a, b)) : chr ':' ∉ a := by
  unfold cut at h
  split at h
  · cases h
    intro hmem
    simpa using List.mem_takeWhile_imp hmem
  · cases h

theorem fieldOf_headerText (kv : Bytes × Bytes) : fieldOf (headerText kv) = some (readAs kv) := by
  have hsep : ascii ": " = [chr ':', chr ' '] := rfl
  unfold fieldOf headerText readAs
  rcases cut_cases kv.1 with ⟨hnone, hcut⟩ | ⟨a, b, hkey, hcut⟩
  · have htext : kv.1 ++ ascii ": " ++ kv.2 = kv.1 ++ chr ':' :: (chr ' ' :: kv.2) := by simp [hsep]
    have hblank : trimmed (ascii " \t") (chr ' ' :: kv.2) = trimmed (ascii " \t") kv.2 := by
      have hmem : chr ' ' ∈ ascii " \t" := by decide
      simp [trimmed, hmem]
    rw [htext, cut_append hnone, hcut]
    simp [hblank]
  · have htext : kv.1 ++ ascii ": " ++ kv.2 = a ++ chr ':' :: (b ++ ascii ": " ++ kv.2) := by simp [hkey]
    rw [htext, cut_append (cut_left hcut), hcut]
    simp

/-- The text is read as the fields it was made of. -/
theorem readMessage_text {first : Bytes} (hne : first ≠ []) (hfirst : CR ∉ first) {fields : MapType}
    (hclean : ∀ kv ∈ fields, CR ∉ kv.1 ∧ CR ∉ kv.2) (body : Bytes) :
    readMessage (messageText first fields body) = some (fields.map readAs, body) := by
  have hlines : ∀ line ∈ first :: fields.map headerText, line ≠ [] ∧ CR ∉ line := by
    intro line hline
    rcases List.mem_cons.mp hline with hline | hline
    · rw [hline]
      exact ⟨hne, hfirst⟩
    · obtain ⟨kv, hkv, hline⟩ := List.mem_map.mp hline
      obtain ⟨hkey, hval⟩ := hclean kv hkv
      have hsep : CR ∉ ascii ": " ∧ ascii ": " ≠ [] := by decide
      rw [← hline]
      simp [headerText, hkey, hval, hsep]
  have hfields : (fields.map headerText).filterMap fieldOf = fields.map readAs := by
    simp [List.filterMap_map, fieldOf_headerText]
  unfold readMessage messageText
  rw [readLines_lines hlines]
  simp [hfields]

/-! ## Keys -/

section
variable {word : String} {key : Bytes}

/-- A key that is the word has no colon. -/
theorem colon_not_mem_of_spells (hword : chr ':' ∉ ascii word) (h : spells word key = true) : chr ':' ∉ key := by
  intro hkey
  have hcolon : tolower (chr ':') = chr ':' := by decide
  have hmem := List.mem_map_of_mem (f := tolower) hkey
  simp only [spells, decide_eq_true_eq] at h
  rw [hcolon, h] at hmem
  exact hword hmem

/-- What is read under a name was written under it, or under a key that goes on behind it. -/
theorem named_readAs (hword : chr ':' ∉ ascii word) (kv : Bytes × Bytes) :
    named word (readAs kv) = true ↔ forges word kv.1 = true ∨ spells word kv.1 = true := by
  unfold readAs forges
  rcases cut_cases kv.1 with ⟨-, hcut⟩ | ⟨a, b, hkey, hcut⟩
  · simp [hcut, named, spells]
  · -- the colon is in the key, so that the key is not the word
    have hspells : spells word kv.1 = false := by
      have hcolon : tolower (chr ':') = chr ':' := by decide
      have hmem : chr ':' ∈ kv.1.map tolower := by simp [hkey, hcolon]
      simp only [spells, decide_eq_false_iff_not]
      intro heq
      rw [heq] at hmem
      exact hword hmem
    rw [hspells]
    simp [hcut, named, spells]

/-- What is read under a longer key is no number. -/
theorem not_number_of_forges {kv : Bytes × Bytes} (h : forges word kv.1 = true) (n : Nat) :
    ¬ IsNumber n (readAs kv).2 := by
  intro hnumber
  unfold forges at h
  unfold readAs at hnumber
  rcases cut_cases kv.1 with ⟨-, hcut⟩ | ⟨a, b, -, hcut⟩
  · simp [hcut] at h
  · have hsep : ascii ": " = [chr ':', chr ' '] := rfl
    have htext : b ++ ascii ": " ++ kv.2 = b ++ chr ':' :: (chr ' ' :: kv.2) := by simp [hsep]
    rw [hcut] at hnumber
    dsimp only at hnumber
    rw [htext, trimmed_append (by decide)] at hnumber
    have hdigit := hnumber.1.2 (chr ':') (by simp)
    exact absurd hdigit (by decide)

theorem readAs_of_spells (hword : chr ':' ∉ ascii word) {kv : Bytes × Bytes} (h : spells word kv.1 = true) :
    readAs kv = (kv.1, trimmed (ascii " \t") kv.2) := by
  have hcut := cut_of_not_mem (colon_not_mem_of_spells hword h)
  unfold readAs
  rw [hcut]

/-- Without a NUL all of a text is compared. -/
theorem folded_append {a : Bytes} (ha : ∀ c ∈ a, c ≠ 0) (b : Bytes) :
    folded (a ++ b) = a.map tolower ++ folded b := by
  unfold folded
  rw [List.takeWhile_append_of_pos (by simpa using ha), List.map_append]

theorem ne_zero_of_spells (hword : (0 : UInt8) ∉ ascii word) (h : spells word key = true) : ∀ c ∈ key, c ≠ 0 := by
  simp only [spells, decide_eq_true_eq] at h
  intro c hc hzero
  have hmem : tolower c ∈ ascii word := by
    rw [← h]
    exact List.mem_map_of_mem hc
  rw [hzero] at hmem
  exact hword hmem

/-- The whole key is compared: it is the word. -/
theorem folded_of_spells (hword : (0 : UInt8) ∉ ascii word) (h : spells word key = true) :
    folded key = ascii word := by
  have hfold := folded_append (ne_zero_of_spells hword h) []
  simp only [spells, decide_eq_true_eq] at h
  rw [List.append_nil, h] at hfold
  rw [hfold]
  simp [folded]

/-- The whole key is compared: the colon is in it. -/
theorem colon_of_forges (hword : (0 : UInt8) ∉ ascii word) (h : forges word key = true) :
    chr ':' ∈ folded key := by
  unfold forges at h
  rcases cut_cases key with ⟨-, hcut⟩ | ⟨a, b, hkey, hcut⟩
  · simp [hcut] at h
  · simp only [hcut] at h
    have hcolon : folded (chr ':' :: b) = chr ':' :: folded b := by
      have hsame : tolower (chr ':') = chr ':' := by decide
      rw [folded, List.takeWhile_cons_of_pos (by decide), List.map_cons, hsame]
      simp [folded]
    rw [hkey, folded_append (ne_zero_of_spells hword h), hcolon]
    simp

end

/-! ## The fields of a message -/

theorem FramedBy.perm {fields fields' : List (Bytes × Bytes)} {body : Bytes} (h : FramedBy fields body)
    (hp : fields.Perm fields') : FramedBy fields' body where
  length_once := by
    rw [← hp.countP_eq]
    exact h.length_once
  length_right f hf := h.length_right f (hp.mem_iff.mpr hf)
  connection_once := by
    rw [← hp.countP_eq]
    exact h.connection_once

/-- A field that is written under a word is read under it. -/
theorem readAs_word {word : String} (hword : chr ':' ∉ ascii word) (v : Bytes) :
    readAs (ascii word, v) = (ascii word, trimmed (ascii " \t") v) := by
  unfold readAs
  rw [cut_of_not_mem hword]

/-- The line that is written for `m_close`. -/
theorem readAs_connection (v : Bytes) :
    named "connection" (readAs (ascii "connection", v)) = true ∧
      named "content-length" (readAs (ascii "connection", v)) = false := by
  rw [readAs_word (by decide)]
  have hword : (ascii "connection").map tolower = ascii "connection" ∧ ascii "connection" ≠ ascii "content-length" := by
    decide
  simp [named, hword]

/-- The line that is written for the length. -/
theorem readAs_length (n : Nat) :
    named "connection" (readAs (ascii "content-length", decimalText n)) = false ∧
      named "content-length" (readAs (ascii "content-length", decimalText n)) = true ∧
      IsNumber n (readAs (ascii "content-length", decimalText n)).2 := by
  have hdigits := decimalText_isLength n
  have hkeep : ∀ c ∈ decimalText n, c ∉ ascii " \t" := by
    intro c hc hblank
    have hnone : ∀ b ∈ ascii " \t", isNum b = false := by decide +kernel
    exact Bool.eq_false_iff.mp (hnone c hblank) (hdigits.2 c hc)
  have hword : (ascii "content-length").map tolower = ascii "content-length" ∧
      ascii "content-length" ≠ ascii "connection" := by
    decide
  rw [readAs_word (by decide), trimmed_of_none hkeep]
  exact ⟨by simp [named, hword], by simp [named, hword], hdigits, decimal_decimalText n⟩

section
variable {f : Bytes × Bytes} {fields : List (Bytes × Bytes)} {body : Bytes}

/-- Behind a field for the connection: the others say nothing of it. -/
theorem framedBy_cons (hconnection : named "connection" f = true) (hlength : named "content-length" f = false) :
    FramedBy (f :: fields) body ↔ (∀ g ∈ fields, named "connection" g = false) ∧
      fields.countP (named "content-length") ≤ 1 ∧
      ∀ g ∈ fields, named "content-length" g = true → IsNumber body.length g.2 := by
  have hnone : fields.countP (named "connection") = 0 ↔ ∀ g ∈ fields, named "connection" g = false := by
    simp [List.countP_eq_zero]
  constructor
  · intro h
    have honce := h.connection_once
    have hlen := h.length_once
    rw [List.countP_cons_of_pos hconnection] at honce
    rw [List.countP_cons_of_neg (by simp [hlength])] at hlen
    exact ⟨hnone.mp (by omega), hlen, fun g hg => h.length_right g (List.mem_cons_of_mem f hg)⟩
  · intro h
    obtain ⟨hfree, hlen, hright⟩ := h
    refine ⟨?_, ?_, ?_⟩
    · rwa [List.countP_cons_of_neg (by simp [hlength])]
    · intro g hg hnamed
      rcases List.mem_cons.mp hg with heq | hg
      · simp [heq, hlength] at hnamed
      · exact hright g hg hnamed
    · rw [List.countP_cons_of_pos hconnection, hnone.mpr hfree]

/-- Before a field with the right length: the others give none. -/
theorem length_concat {n : Nat} (hlength : named "content-length" f = true) (hnumber : IsNumber n f.2) :
    ((fields ++ [f]).countP (named "content-length") ≤ 1 ∧
      ∀ g ∈ fields ++ [f], named "content-length" g = true → IsNumber n g.2) ↔
    ∀ g ∈ fields, named "content-length" g = false := by
  have hcount : (fields ++ [f]).countP (named "content-length") = fields.countP (named "content-length") + 1 := by
    simp [hlength]
  have hnone : fields.countP (named "content-length") = 0 ↔ ∀ g ∈ fields, named "content-length" g = false := by
    simp [List.countP_eq_zero]
  rw [hcount]
  constructor
  · intro h
    exact hnone.mp (by omega)
  · intro hfree
    refine ⟨by rw [hnone.mpr hfree], ?_⟩
    intro g hg hnamed
    rcases List.mem_append.mp hg with hg | hg
    · rw [hfree g hg] at hnamed
      cases hnamed
    · rw [List.mem_singleton.mp hg]
      exact hnumber

end

/-- When the fields that were not skipped leave the framing to the two that are written. -/
theorem framedBy_iff (v body : Bytes) (others : MapType) :
    FramedBy (((ascii "connection", v) :: (others ++ lengthField body)).map readAs) body ↔
      (∀ kv ∈ others, named "connection" (readAs kv) = false) ∧
      if body = [] then
        (others.map readAs).countP (named "content-length") ≤ 1 ∧
          ∀ kv ∈ others, named "content-length" (readAs kv) = true → IsNumber 0 (readAs kv).2
      else ∀ kv ∈ others, named "content-length" (readAs kv) = false := by
  -- the line for the connection stands first, the one for the length last
  obtain ⟨hconnection, hother⟩ := readAs_connection v
  obtain ⟨hnot, hlength, hnumber⟩ := readAs_length body.length
  rw [List.map_cons, framedBy_cons hconnection hother]
  unfold lengthField
  split
  · rename_i hbody
    simp only [List.append_nil, List.forall_mem_map, hbody, List.length_nil]
  · rw [List.map_append, List.map_singleton, length_concat hlength hnumber]
    simp only [List.forall_mem_append, List.forall_mem_map, List.forall_mem_singleton, hnot, and_true]

/-! ## What is skipped -/

/-- A key that goes on behind a word is not compared equal to one without a colon. -/
theorem not_sameName_of_forges {word other : String} {key : Bytes} (hword : (0 : UInt8) ∉ ascii word)
    (hother : chr ':' ∉ folded (ascii other)) (h : forges word key = true) : sameName key (ascii other) = false := by
  simp only [sameName, decide_eq_false_iff_not]
  intro heq
  have hcolon := colon_of_forges hword h
  rw [heq] at hcolon
  exact hother hcolon

/-- Entries with the same name are one. -/
theorem countP_spelled {m : MapType} (hs : OrderedMap.InOrder nameOrder m) {p : Bytes × Bytes → Bool} (name : Bytes)
    (hp : ∀ kv ∈ m, p kv = true → folded kv.1 = name) : m.countP p ≤ 1 := by
  rw [List.countP_eq_length_filter]
  have horder : OrderedMap.InOrder nameOrder (m.filter p) := hs.filter p
  have hpair := horder.distinct
  cases hl : m.filter p with
  | nil => simp
  | cons a rest =>
    cases rest with
    | nil => simp
    | cons b rest =>
      rw [hl] at hpair
      have hmem : ∀ kv ∈ a :: b :: rest, folded kv.1 = name := by
        intro kv hkv
        rw [← hl, List.mem_filter] at hkv
        exact hp kv hkv.1 hkv.2
      have hab := (List.pairwise_cons.mp hpair).1 b List.mem_cons_self
      have hsame : nameOrder.same a.1 b.1 = true := by
        rw [nameOrder_same, hmem a List.mem_cons_self, hmem b (List.mem_cons_of_mem a List.mem_cons_self)]
      rw [hsame] at hab
      cases hab

section
variable {m : MapType} {keep : Bytes × Bytes → Bool}

/-- Where the word itself is skipped, only a longer key can be read as it. -/
theorem skipped_iff {word : String} (hcolon : chr ':' ∉ ascii word)
    (hskip : ∀ kv, keep kv = true → spells word kv.1 = false)
    (hforged : ∀ kv, forges word kv.1 = true → keep kv = true) :
    (∀ kv ∈ m.filter keep, named word (readAs kv) = false) ↔ ∀ kv ∈ m, forges word kv.1 = false := by
  constructor
  · intro h kv hkv
    by_contra hf
    rw [Bool.not_eq_false] at hf
    have hnamed := (named_readAs hcolon kv).mpr (Or.inl hf)
    rw [h kv (List.mem_filter.mpr ⟨hkv, hforged kv hf⟩)] at hnamed
    cases hnamed
  · intro h kv hkv
    obtain ⟨hmem, hkeep⟩ := List.mem_filter.mp hkv
    by_contra hn
    rw [Bool.not_eq_false, named_readAs hcolon, h kv hmem, hskip kv hkeep] at hn
    simp at hn

/-- Where it is not skipped, it can be read as itself too. -/
theorem kept_iff {word : String} (hcolon : chr ':' ∉ ascii word)
    (hkeep : ∀ kv, forges word kv.1 = true ∨ spells word kv.1 = true → keep kv = true) :
    (∀ kv ∈ m.filter keep, named word (readAs kv) = false) ↔
      ∀ kv ∈ m, forges word kv.1 = false ∧ spells word kv.1 = false := by
  constructor
  · intro h kv hkv
    have hnone : ¬(forges word kv.1 = true ∨ spells word kv.1 = true) := by
      intro hor
      have hnamed := (named_readAs hcolon kv).mpr hor
      rw [h kv (List.mem_filter.mpr ⟨hkv, hkeep kv hor⟩)] at hnamed
      cases hnamed
    simpa using hnone
  · intro h kv hkv
    obtain ⟨hf, hs⟩ := h kv (List.mem_filter.mp hkv).1
    by_contra hn
    rw [Bool.not_eq_false, named_readAs hcolon, hf, hs] at hn
    simp at hn

/-- Without a body the one key that is the length is read as such. -/
theorem unwritten_iff (hs : OrderedMap.InOrder nameOrder m)
    (hkeep : ∀ kv, forges "content-length" kv.1 = true ∨ spells "content-length" kv.1 = true → keep kv = true) :
    (((m.filter keep).map readAs).countP (named "content-length") ≤ 1 ∧
      ∀ kv ∈ m.filter keep, named "content-length" (readAs kv) = true → IsNumber 0 (readAs kv).2) ↔
    (∀ kv ∈ m, forges "content-length" kv.1 = false) ∧
      ∀ kv ∈ m, spells "content-length" kv.1 = true → IsNumber 0 (trimmed (ascii " \t") kv.2) := by
  have hcolon : chr ':' ∉ ascii "content-length" := by decide
  have hzero : (0 : UInt8) ∉ ascii "content-length" := by decide
  constructor
  · intro h
    obtain ⟨-, hright⟩ := h
    -- what is read as a length is a number, and that of a longer key is none
    have hread : ∀ kv ∈ m, forges "content-length" kv.1 = true ∨ spells "content-length" kv.1 = true →
        IsNumber 0 (readAs kv).2 := by
      intro kv hkv hor
      exact hright kv (List.mem_filter.mpr ⟨hkv, hkeep kv hor⟩) ((named_readAs hcolon kv).mpr hor)
    constructor
    · intro kv hkv
      by_contra hf
      rw [Bool.not_eq_false] at hf
      exact not_number_of_forges hf 0 (hread kv hkv (Or.inl hf))
    · intro kv hkv hspelled
      have hnumber := hread kv hkv (Or.inr hspelled)
      rwa [readAs_of_spells hcolon hspelled] at hnumber
  · intro h
    obtain ⟨hfree, hright⟩ := h
    have hspelled : ∀ kv ∈ m.filter keep, named "content-length" (readAs kv) = true →
        spells "content-length" kv.1 = true := by
      intro kv hkv hnamed
      rw [named_readAs hcolon, hfree kv (List.mem_filter.mp hkv).1] at hnamed
      simpa using hnamed
    constructor
    · rw [List.countP_map]
      apply countP_spelled (hs.filter keep) (ascii "content-length")
      intro kv hkv hnamed
      exact folded_of_spells hzero (hspelled kv hkv hnamed)
    · intro kv hkv hnamed
      have hword := hspelled kv hkv hnamed
      rw [readAs_of_spells hcolon hword]
      exact hright kv (List.mem_filter.mp hkv).1 hword

end

/-! ## Texts and messages -/

/-- The headers are in order, and none breaks its line. -/
structure CleanMap (m : MapType) : Prop where
  inOrder : OrderedMap.InOrder nameOrder m
  clean : ∀ kv ∈ m, CR ∉ kv.1 ∧ CR ∉ kv.2

theorem not_mem_decimalText {c : UInt8} (hc : isNum c = false) (n : Nat) : c ∉ decimalText n := by
  intro hmem
  exact Bool.eq_false_iff.mp hc ((decimalText_isLength n).2 c hmem)

theorem framed_messageText {first : Bytes} (hne : first ≠ []) (hfirst : CR ∉ first) {m : MapType} (hm : CleanMap m)
    (keep : Bytes × Bytes → Bool) (close : Bool) (body : Bytes) {fields : MapType}
    (hp : fields.Perm ((ascii "connection", ascii (if close then "close" else "keep-alive")) ::
      (m.filter keep ++ lengthField body))) :
    Framed (messageText first fields body) ↔
      (∀ kv ∈ m.filter keep, named "connection" (readAs kv) = false) ∧
      if body = [] then
        ((m.filter keep).map readAs).countP (named "content-length") ≤ 1 ∧
          ∀ kv ∈ m.filter keep, named "content-length" (readAs kv) = true → IsNumber 0 (readAs kv).2
      else ∀ kv ∈ m.filter keep, named "content-length" (readAs kv) = false := by
  have hclean : ∀ kv ∈ fields, CR ∉ kv.1 ∧ CR ∉ kv.2 := by
    intro kv hkv
    -- the line for the connection, a header of the map, or the line with the length
    rcases List.mem_cons.mp (hp.mem_iff.mp hkv) with heq | hkv
    · rw [heq]
      cases close with
      | false => decide
      | true => decide
    · rcases List.mem_append.mp hkv with hkv | hkv
      · exact hm.clean kv (List.mem_filter.mp hkv).1
      · unfold lengthField at hkv
        split at hkv
        · cases hkv
        · have hname : CR ∉ ascii "content-length" := by decide
          rw [List.mem_singleton.mp hkv]
          exact ⟨hname, not_mem_decimalText (by decide) _⟩
  have hread := readMessage_text hne hfirst hclean body
  rw [← framedBy_iff (ascii (if close then "close" else "keep-alive")) body (m.filter keep)]
  constructor
  · intro h
    obtain ⟨fields', body', hread', hframed⟩ := h
    cases hread.symm.trans hread'
    exact hframed.perm (hp.map readAs)
  · intro h
    exact ⟨_, _, hread, h.perm (hp.map readAs).symm⟩

section
variable {key : Bytes}

/-- Neither word is compared equal to a key that forges one of them. -/
theorem forged_kept (h : forges "connection" key = true ∨ forges "content-length" key = true) :
    sameName key (ascii "connection") = false ∧ sameName key (ascii "content-length") = false := by
  rcases h with h | h
  · exact ⟨not_sameName_of_forges (by decide) (by decide) h, not_sameName_of_forges (by decide) (by decide) h⟩
  · exact ⟨not_sameName_of_forges (by decide) (by decide) h, not_sameName_of_forges (by decide) (by decide) h⟩

theorem connection_skipped (h : sameName key (ascii "connection") = false) : spells "connection" key = false := by
  by_contra hs
  rw [Bool.not_eq_false] at hs
  have hfolded : folded (ascii "connection") = ascii "connection" := by decide
  simp [sameName, folded_of_spells (by decide) hs, hfolded] at h

theorem length_skipped (h : sameName key (ascii "content-length") = false) :
    spells "content-length" key = false := by
  by_contra hs
  rw [Bool.not_eq_false] at hs
  have hfolded : folded (ascii "content-length") = ascii "content-length" := by decide
  simp [sameName, folded_of_spells (by decide) hs, hfolded] at h

theorem length_kept (h : spells "content-length" key = true) : sameName key (ascii "connection") = false := by
  have hne : ascii "content-length" ≠ folded (ascii "connection") := by decide
  simp [sameName, folded_of_spells (by decide) h, hne]

end

theorem noForgedKey_iff (m : MapType) : NoForgedKey m ↔
    (∀ kv ∈ m, forges "connection" kv.1 = false) ∧ ∀ kv ∈ m, forges "content-length" kv.1 = false := by
  unfold NoForgedKey
  constructor
  · intro h
    exact ⟨fun kv hkv => (h kv hkv).1, fun kv hkv => (h kv hkv).2⟩
  · intro h kv hkv
    exact ⟨h.1 kv hkv, h.2 kv hkv⟩

theorem request_framed_iff {r : HttpRequest} (hw : r.websocket = false) (hne : r.requestLine ≠ [])
    (hline : CR ∉ r.requestLine) (hm : CleanMap r.headers) : Framed r.dump ↔ r.KeepsFraming := by
  have hcolon : chr ':' ∉ ascii "connection" ∧ chr ':' ∉ ascii "content-length" := by decide
  have hforged : ∀ kv, forges "connection" kv.1 = true ∨ forges "content-length" kv.1 = true → r.dumps kv = true := by
    intro kv h
    simp [HttpRequest.dumps, forged_kept h]
  have hskip : ∀ kv, r.dumps kv = true → spells "connection" kv.1 = false := by
    intro kv h
    apply connection_skipped
    simpa [HttpRequest.dumps, hw] using (Bool.and_eq_true_iff.mp h).1
  rw [request_dump_eq hw, HttpRequest.connection, framed_messageText hne hline hm r.dumps r.close r.body (List.Perm.refl _),
    skipped_iff hcolon.1 hskip fun kv h => hforged kv (Or.inl h)]
  unfold HttpRequest.KeepsFraming
  rw [noForgedKey_iff, and_assoc]
  apply and_congr_right
  intro _
  -- without a body the key itself is written, with one it is skipped
  by_cases hbody : r.body = []
  · rw [if_pos hbody, unwritten_iff hm.inOrder]
    · simp [hbody]
    · intro kv h
      rcases h with h | h
      · exact hforged kv (Or.inr h)
      · simp [HttpRequest.dumps, length_kept h, hbody]
  · rw [if_neg hbody, skipped_iff hcolon.2 ?_ fun kv h => hforged kv (Or.inr h)]
    · simp [hbody]
    · intro kv h
      apply length_skipped
      simpa [HttpRequest.dumps, hbody] using (Bool.and_eq_true_iff.mp h).2

theorem response_framed_iff {r : HttpResponse} (hw : r.websocket = false) (hcookies : r.cookies = [])
    (hne : r.replyLine ≠ []) (hline : CR ∉ r.replyLine) (hm : CleanMap r.headers) :
    Framed r.dump ↔ r.KeepsFraming := by
  have hcolon : chr ':' ∉ ascii "connection" ∧ chr ':' ∉ ascii "content-length" := by decide
  have hforged : ∀ kv, forges "connection" kv.1 = true ∨ forges "content-length" kv.1 = true → r.dumps kv = true := by
    intro kv h
    simp [HttpResponse.dumps, forged_kept h]
  have hskip : ∀ kv, r.dumps kv = true → spells "connection" kv.1 = false := by
    intro kv h
    apply connection_skipped
    simpa [HttpResponse.dumps, hw] using h
  have hlength : ∀ kv, forges "content-length" kv.1 = true ∨ spells "content-length" kv.1 = true →
      r.dumps kv = true := by
    intro kv h
    rcases h with h | h
    · exact hforged kv (Or.inr h)
    · simp [HttpResponse.dumps, length_kept h]
  rw [response_dump_eq hw hcookies, HttpResponse.connection,
    framed_messageText hne hline hm r.dumps r.close r.body List.perm_middle,
    skipped_iff hcolon.1 hskip fun kv h => hforged kv (Or.inl h)]
  unfold HttpResponse.KeepsFraming
  rw [noForgedKey_iff, and_assoc]
  apply and_congr_right
  intro _
  -- the key itself is written in both cases
  by_cases hbody : r.body = []
  · rw [if_pos hbody, unwritten_iff hm.inOrder hlength]
    simp [hbody]
  · rw [if_neg hbody, kept_iff hcolon.2 hlength]
    simp [hbody, forall_and]

/-! ## Every sequence of calls -/

theorem inOrder_erase (key : Bytes) {m : MapType} (h : OrderedMap.InOrder nameOrder m) :
    OrderedMap.InOrder nameOrder (m.erase key) :=
  h.filter _

/-- What holds of a new key and value and of all that are there holds of all afterwards. -/
theorem forall_set {P : Bytes → Prop} {key val : Bytes} (hkey : P key) (hval : P val) {m : MapType}
    (h : ∀ kv ∈ m, P kv.1 ∧ P kv.2) : ∀ kv ∈ m.set key val, P kv.1 ∧ P kv.2 := by
  induction m with
  | nil => simp [MapType.set, hkey, hval]
  | cons x rest ih =>
    obtain ⟨hx, hrest⟩ := List.forall_mem_cons.mp h
    rw [MapType.set]
    split
    · exact List.forall_mem_cons.mpr ⟨hx, ih hrest⟩
    · split
      · exact List.forall_mem_cons.mpr ⟨⟨hkey, hval⟩, h⟩
      · exact List.forall_mem_cons.mpr ⟨⟨hx.1, hval⟩, hrest⟩

theorem CleanMap.set {m : MapType} (h : CleanMap m) {key val : Bytes} (hkey : CR ∉ key) (hval : CR ∉ val) :
    CleanMap (m.set key val) where
  inOrder := inOrder_set key val h.inOrder
  clean := forall_set (P := fun s => CR ∉ s) hkey hval h.clean

theorem CleanMap.erase {m : MapType} (h : CleanMap m) (key : Bytes) : CleanMap (m.erase key) where
  inOrder := inOrder_erase key h.inOrder
  clean kv hkv := h.clean kv (List.mem_filter.mp hkv).1

/-- A request that the calls have made of a new one. -/
structure RequestBuilt (version : UInt8) (r : HttpRequest) : Prop where
  websocket : r.websocket = false
  line : r.requestLine = ({ version := version } : HttpRequest).requestLine
  headers : CleanMap r.headers

/-- A response that the calls have made of a new one. -/
structure ResponseBuilt (version : UInt8) (r : HttpResponse) : Prop where
  websocket : r.websocket = false
  cookies : r.cookies = []
  line : r.replyLine = ({ version := version } : HttpResponse).replyLine
  headers : CleanMap r.headers

theorem RequestBuilt.call {version : UInt8} {r : HttpRequest} (h : RequestBuilt version r) {c : MessageCall}
    (hc : c.Clean) : RequestBuilt version (r.call c) := by
  cases c with
  | setHeader key val => exact ⟨h.websocket, h.line, h.headers.set hc.1.1 hc.2.1⟩
  | delHeader key => exact ⟨h.websocket, h.line, h.headers.erase key⟩
  | setBody v => exact ⟨h.websocket, h.line, h.headers⟩
  | appendBody v => exact ⟨h.websocket, h.line, h.headers⟩
  | setClose v => exact ⟨h.websocket, h.line, h.headers⟩

theorem ResponseBuilt.call {version : UInt8} {r : HttpResponse} (h : ResponseBuilt version r) {c : MessageCall}
    (hc : c.Clean) : ResponseBuilt version (r.call c) := by
  cases c with
  | setHeader key val => exact ⟨h.websocket, h.cookies, h.line, h.headers.set hc.1.1 hc.2.1⟩
  | delHeader key => exact ⟨h.websocket, h.cookies, h.line, h.headers.erase key⟩
  | setBody v => exact ⟨h.websocket, h.cookies, h.line, h.headers⟩
  | appendBody v => exact ⟨h.websocket, h.cookies, h.line, h.headers⟩
  | setClose v => exact ⟨h.websocket, h.cookies, h.line, h.headers⟩

theorem cleanMap_nil : CleanMap [] := ⟨List.Pairwise.nil, by simp⟩

theorem requestBuilt_calls (version : UInt8) (close : Bool) {calls : List MessageCall} (hclean : ∀ c ∈ calls, c.Clean) :
    RequestBuilt version (calls.foldl HttpRequest.call { version := version, close := close }) := by
  apply List.foldlRecOn calls HttpRequest.call (motive := RequestBuilt version)
  · exact ⟨rfl, rfl, cleanMap_nil⟩
  · intro r h c hc
    exact h.call (hclean c hc)

theorem responseBuilt_calls (version : UInt8) (close : Bool) {calls : List MessageCall}
    (hclean : ∀ c ∈ calls, c.Clean) :
    ResponseBuilt version (calls.foldl HttpResponse.call { version := version, close := close }) := by
  apply List.foldlRecOn calls HttpResponse.call (motive := ResponseBuilt version)
  · exact ⟨rfl, rfl, rfl, cleanMap_nil⟩
  · intro r h c hc
    exact h.call (hclean c hc)

/-- The first line of a new request is one line. -/
theorem requestLine_new (version : UInt8) :
    ({ version := version } : HttpRequest).requestLine ≠ [] ∧ CR ∉ ({ version := version } : HttpRequest).requestLine := by
  have hfirst : ascii HttpMethod.GET.string ≠ [] := by decide
  have hwords : CR ∉ ascii HttpMethod.GET.string ∧ CR ∉ ascii " " ∧ CR ∉ ascii "/" ∧ CR ∉ ascii " HTTP/" ∧
      CR ∉ ascii "." := by
    decide
  have hdigits : ∀ n, CR ∉ decimalText n := not_mem_decimalText (by decide)
  unfold HttpRequest.requestLine HttpRequest.url
  constructor
  · simp [hfirst]
  · simp [hwords, hdigits]

theorem replyLine_new (version : UInt8) :
    ({ version := version } : HttpResponse).replyLine ≠ [] ∧ CR ∉ ({ version := version } : HttpResponse).replyLine := by
  have hfirst : ascii "HTTP/" ≠ [] := by decide
  have hwords : CR ∉ ascii "HTTP/" ∧ CR ∉ ascii "." ∧ CR ∉ ascii " " ∧ CR ∉ ascii (httpStatusToString 200) := by
    decide
  have hdigits : ∀ n, CR ∉ decimalText n := not_mem_decimalText (by decide)
  unfold HttpResponse.replyLine HttpResponse.reasonText
  constructor
  · simp [hfirst]
  · simp [hwords, hdigits]

/-- **The text of a request or a response that was made by clean calls is framed exactly when no key goes on
behind one of the two words and a colon, and no `content-length` of the map is written beside a length or
without a body.** -/
theorem framing_headers_iff (version : UInt8) (close : Bool) (calls : List MessageCall)
    (hclean : ∀ c ∈ calls, c.Clean) :
    (Framed (calls.foldl HttpRequest.call { version := version, close := close }).dump ↔
      (calls.foldl HttpRequest.call { version := version, close := close }).KeepsFraming) ∧
    (Framed (calls.foldl HttpResponse.call { version := version, close := close }).dump ↔
      (calls.foldl HttpResponse.call { version := version, close := close }).KeepsFraming) := by
  have hrequest := requestBuilt_calls version close hclean
  have hresponse := responseBuilt_calls version close hclean
  obtain ⟨hne, hline⟩ := requestLine_new version
  obtain ⟨hne', hline'⟩ := replyLine_new version
  rw [← hrequest.line] at hne hline
  rw [← hresponse.line] at hne' hline'
  exact ⟨request_framed_iff hrequest.websocket hne hline hrequest.headers,
    response_framed_iff hresponse.websocket hresponse.cookies hne' hline' hresponse.headers⟩

/-- A header and a body. -/
theorem framing_headers_body :
    Framed (HttpRequest.call (HttpRequest.call {} (.setHeader (ascii "x") (ascii "y"))) (.setBody (ascii "ab"))).dump ∧
      Framed (HttpResponse.call (HttpResponse.call {} (.setHeader (ascii "x") (ascii "y")))
        (.setBody (ascii "ab"))).dump := by
  have hiff := framing_headers_iff 0x11 true [.setHeader (ascii "x") (ascii "y"), .setBody (ascii "ab")] (by
    intro c hc
    rcases List.mem_cons.mp hc with hc | hc
    · rw [hc]
      exact ⟨⟨by decide, by decide⟩, by decide, by decide⟩
    · rw [List.mem_singleton.mp hc]
      exact trivial)
  refine ⟨hiff.1.mpr ⟨?_, ?_⟩, hiff.2.mpr ⟨?_, ?_⟩⟩
  · unfold NoForgedKey
    decide +kernel
  · intro hbody
    cases hbody
  · unfold NoForgedKey
    decide +kernel
  · intro kv hkv hspelled
    rw [List.mem_singleton.mp hkv] at hspelled
    exact absurd hspelled (by decide)

/-- A length and a body. -/
def lengthThenBody : List MessageCall := [.setHeader (ascii "content-length") (ascii "5"), .setBody (ascii "ab")]

/-- A response writes both lengths. -/
theorem two_lengths_written :
    (∀ c ∈ lengthThenBody, c.Clean) ∧ ¬ Framed (lengthThenBody.foldl HttpResponse.call {}).dump := by
  constructor
  · intro c hc
    rcases List.mem_cons.mp hc with hc | hc
    · rw [hc]
      exact ⟨⟨by decide, by decide⟩, by decide, by decide⟩
    · rw [List.mem_singleton.mp hc]
      exact trivial
  · intro h
    obtain ⟨fields, body, hread, hframed⟩ := h
    have htext : readMessage (lengthThenBody.foldl HttpResponse.call {}).dump =
        some ([(ascii "content-length", ascii "5"), (ascii "connection", ascii "close"),
          (ascii "content-length", ascii "2")], ascii "ab") := by
      decide +kernel
    cases htext.symm.trans hread
    exact absurd hframed.length_once (by decide +kernel)

end Sylar.Http
