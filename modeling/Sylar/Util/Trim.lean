import Sylar.Lib.Trimming
import Sylar.Util.UrlCode

/- `StringUtil::Trim`, `TrimLeft` and `TrimRight` of `util.cc`, and what trimming and
   `UrlDecode` do around a separator.

   `trim_eq` says that the two searches and the `substr` between them cut the
   delimiters off both ends, `trimLeft_eq` and `trimRight_eq` what one search does. A
   byte that is neither an escape nor part of one (`PlainByte`) splits a text for the
   decoder (`urlDecode_append`); so does a byte that is no delimiter for trimming
   (`trimmed_append`). Together: a text in front of a separator is never lost in the
   decoded key (`length_decoded_trimmed`). -/
namespace Sylar.Util

open Sylar.Http (Bytes chr ascii)
open Sylar.Lib

/-! ## Trimming -/

/-- `str.find_first_not_of(delimit)`, with `npos` as `none`. -/
def findFirstNotOf (str delimit : Bytes) : Option Nat := str.findIdx? fun c => c ∉ delimit

/-- `str.find_last_not_of(delimit)`. -/
def findLastNotOf (str delimit : Bytes) : Option Nat :=
  (str.reverse.findIdx? fun c => c ∉ delimit).map fun i => str.length - 1 - i

/-- `str.substr(pos, len)`. -/
def substr (str : Bytes) (pos len : Nat) : Bytes := (str.drop pos).take len

/-- The default of `delimit`. -/
def blanks : Bytes := ascii " \t\r\n"

/-- `StringUtil::Trim`. -/
def trim (str delimit : Bytes) : Bytes :=
  match findFirstNotOf str delimit with
  | none => []
  | some first =>
    -- where there is a first one there is a last one
    let last := (findLastNotOf str delimit).getD 0
    substr str first (last - first + 1)

/-- `StringUtil::TrimLeft`. -/
def trimLeft (str delimit : Bytes) : Bytes :=
  match findFirstNotOf str delimit with
  | none => []
  | some first => str.drop first

/-- `StringUtil::TrimRight`. -/
def trimRight (str delimit : Bytes) : Bytes :=
  match findLastNotOf str delimit with
  | none => []
  | some last => substr str 0 last

/-- Without the delimiters at its ends. -/
def trimmed (delimit str : Bytes) : Bytes := (str.dropWhile (· ∈ delimit)).rdropWhile (· ∈ delimit)

theorem findFirstNotOf_none {delimit str : Bytes} (h : ∀ c ∈ str, c ∈ delimit) :
    findFirstNotOf str delimit = none := by
  apply List.findIdx?_eq_none_iff.mpr
  simpa using h

theorem findLastNotOf_none {delimit str : Bytes} (h : ∀ c ∈ str, c ∈ delimit) :
    findLastNotOf str delimit = none := by
  rw [findLastNotOf, Option.map_eq_none_iff]
  apply List.findIdx?_eq_none_iff.mpr
  simpa using h

theorem findFirstNotOf_append {delimit w : Bytes} (hw : ∀ a ∈ w, a ∈ delimit) {c : UInt8} (hc : c ∉ delimit)
    (t : Bytes) : findFirstNotOf (w ++ c :: t) delimit = some w.length :=
  findIdx?_append_cons (by simpa using hw) (by simpa using hc) t

theorem findLastNotOf_append {delimit w : Bytes} (hw : ∀ a ∈ w, a ∈ delimit) {d : UInt8} (hd : d ∉ delimit)
    (x : Bytes) : findLastNotOf (x ++ d :: w) delimit = some x.length := by
  have hrev : (x ++ d :: w).reverse = w.reverse ++ d :: x.reverse := by simp
  rw [findLastNotOf, hrev, findIdx?_append_cons (by simpa using hw) (by simpa using hd), Option.map_some]
  congr 1
  simp only [List.length_append, List.length_cons, List.length_reverse]
  omega

/-- A text is all delimiters, or has a first byte that is none. -/
theorem all_or_split (delimit str : Bytes) : (∀ c ∈ str, c ∈ delimit) ∨
    ∃ w c t, str = w ++ c :: t ∧ (∀ a ∈ w, a ∈ delimit) ∧ c ∉ delimit := by
  simpa using all_or_first_not (fun c => decide (c ∈ delimit)) str

/-- Or a last one. -/
theorem all_or_last_split (delimit str : Bytes) : (∀ c ∈ str, c ∈ delimit) ∨
    ∃ x d w, str = x ++ d :: w ∧ (∀ a ∈ w, a ∈ delimit) ∧ d ∉ delimit := by
  simpa using all_or_last_not (fun c => decide (c ∈ delimit)) str

theorem dropWhile_delimits {delimit str : Bytes} (h : ∀ c ∈ str, c ∈ delimit) :
    str.dropWhile (· ∈ delimit) = [] := by
  apply List.dropWhile_eq_nil_iff.mpr
  simpa using h

theorem rdropWhile_delimits {delimit str : Bytes} (h : ∀ c ∈ str, c ∈ delimit) :
    str.rdropWhile (· ∈ delimit) = [] := by
  apply List.rdropWhile_eq_nil_iff.mpr
  simpa using h

theorem trim_eq (str delimit : Bytes) : trim str delimit = trimmed delimit str := by
  rcases all_or_split delimit str with hall | ⟨w, c, t, rfl, hw, hc⟩
  · simp [trim, findFirstNotOf_none hall, trimmed, dropWhile_delimits hall]
  · obtain hall | ⟨x, d, w', hsplit, hw', hd⟩ := all_or_last_split delimit (c :: t)
    · exact absurd (hall c List.mem_cons_self) hc
    have hlast : findLastNotOf (w ++ c :: t) delimit = some (w ++ x).length := by
      rw [hsplit, ← List.append_assoc]
      exact findLastNotOf_append hw' hd (w ++ x)
    have hdrop : (w ++ c :: t).dropWhile (· ∈ delimit) = x ++ d :: w' := by
      rw [dropWhile_append_cons _ (by simpa using hc), dropWhile_delimits hw, List.nil_append, ← hsplit]
    have hlen : (w ++ x).length - w.length + 1 = (x ++ [d]).length := by
      rw [List.length_append, List.length_append, List.length_singleton]
      omega
    have hsub : substr (w ++ c :: t) w.length (x ++ [d]).length = x ++ [d] := by
      have hbehind : x ++ d :: w' = (x ++ [d]) ++ w' := by simp
      rw [substr, List.drop_left, hsplit, hbehind]
      exact List.take_left
    simp only [trim, findFirstNotOf_append hw hc, hlast, Option.getD_some, hlen, hsub, trimmed, hdrop]
    rw [rdropWhile_append_cons _ (by simpa using hd), rdropWhile_delimits hw']

theorem trimLeft_eq (str delimit : Bytes) : trimLeft str delimit = str.dropWhile (· ∈ delimit) := by
  rcases all_or_split delimit str with hall | ⟨w, c, t, rfl, hw, hc⟩
  · simp [trimLeft, findFirstNotOf_none hall, dropWhile_delimits hall]
  · simp only [trimLeft, findFirstNotOf_append hw hc, List.drop_left]
    rw [dropWhile_append_cons _ (by simpa using hc), dropWhile_delimits hw, List.nil_append]

/-- `substr(0, end)` ends in front of the last byte that is no delimiter. -/
theorem trimRight_eq (str delimit : Bytes) :
    trimRight str delimit = (str.rdropWhile (· ∈ delimit)).dropLast := by
  rcases all_or_last_split delimit str with hall | ⟨x, d, w, rfl, hw, hd⟩
  · simp [trimRight, findLastNotOf_none hall, rdropWhile_delimits hall]
  · simp only [trimRight, findLastNotOf_append hw hd, substr, List.drop_zero, List.take_left]
    rw [rdropWhile_append_cons _ (by simpa using hd), rdropWhile_delimits hw, List.dropLast_concat]

/-- A byte that stays separates what is cut off in front of it from what is cut off behind it. -/
theorem trimmed_append {delimit : Bytes} {c : UInt8} (hc : c ∉ delimit) (a b : Bytes) :
    trimmed delimit (a ++ c :: b) = a.dropWhile (· ∈ delimit) ++ c :: b.rdropWhile (· ∈ delimit) := by
  rw [trimmed, dropWhile_append_cons _ (by simpa using hc), rdropWhile_append_cons _ (by simpa using hc)]

/-- A text without delimiters stays as it is. -/
theorem trimmed_of_none {delimit str : Bytes} (h : ∀ c ∈ str, c ∉ delimit) : trimmed delimit str = str := by
  have hleft : str.dropWhile (· ∈ delimit) = str := by
    cases str with
    | nil => simp
    | cons c t => simp [h c List.mem_cons_self]
  rw [trimmed, hleft, List.rdropWhile_eq_self_iff]
  intro hne
  simpa using h _ (List.getLast_mem hne)

/-- The two ends may be trimmed in either order. -/
theorem trimmed_comm (delimit str : Bytes) :
    trimmed delimit str = (str.rdropWhile (· ∈ delimit)).dropWhile (· ∈ delimit) :=
  rdropWhile_dropWhile_comm (fun c => decide (c ∈ delimit)) str

theorem mem_of_trimmed {delimit str : Bytes} {c : UInt8} (h : c ∈ trimmed delimit str) : c ∈ str := by
  apply (List.dropWhile_sublist _).subset
  exact (List.rdropWhile_prefix _ _).subset h

/-! ## Decoding around a separator -/

/-- Neither an escape nor a digit of one. -/
def PlainByte (c : UInt8) : Prop := c ≠ chr '+' ∧ c ≠ chr '%' ∧ isxdigit c = false

theorem urlDecoded_plain {c : UInt8} (hc : PlainByte c) (b : Bool) (rest : Bytes) :
    urlDecoded b 0 (c :: rest) = c :: urlDecoded b 0 rest := by
  rw [urlDecoded, if_neg (fun h => hc.1 h.1), escapeAt_ne hc.2.1]

/-- No escape reaches over a plain byte. -/
theorem escapeAt_append {c : UInt8} (hc : PlainByte c) (x : UInt8) (a b : Bytes) :
    escapeAt x (a ++ c :: b) = escapeAt x a := by
  match a with
  | [] => cases b with
    | nil => simp [escapeAt]
    | cons y b => simp [escapeAt, hc.2.2]
  | [y] => simp [escapeAt, hc.2.2]
  | y :: z :: a => simp [escapeAt]

theorem escapeAt_length {x y : UInt8} {a : Bytes} (h : escapeAt x a = some y) : 2 ≤ a.length := by
  match a with
  | [] => simp [escapeAt] at h
  | [y] => simp [escapeAt] at h
  | y :: z :: a => simp

theorem urlDecoded_append {c : UInt8} (hc : PlainByte c) (d : Bool) (a b : Bytes) (skip : Nat)
    (hskip : skip ≤ a.length) :
    urlDecoded d skip (a ++ c :: b) = urlDecoded d skip a ++ c :: urlDecoded d 0 b := by
  induction a generalizing skip with
  | nil =>
    obtain rfl : skip = 0 := by simpa using hskip
    rw [List.nil_append, urlDecoded_plain hc]
    simp [urlDecoded]
  | cons x a ih =>
    cases skip with
    | succ skip =>
      rw [List.cons_append, urlDecoded, urlDecoded]
      exact ih skip (by simpa using hskip)
    | zero =>
      rw [List.cons_append, urlDecoded, urlDecoded]
      split
      · rw [ih 0 (Nat.zero_le _)]
        simp
      · rw [escapeAt_append hc]
        cases he : escapeAt x a with
        | none => simp [ih 0 (Nat.zero_le _)]
        | some y => simp [ih 2 (escapeAt_length he)]

/-- A plain byte separates what is decoded before it from what is decoded behind it. -/
theorem urlDecode_append {c : UInt8} (hc : PlainByte c) (d : Bool) (a b : Bytes) :
    urlDecode (a ++ c :: b) d = urlDecode a d ++ c :: urlDecode b d := by
  simp only [urlDecode_eq]
  exact urlDecoded_append hc d a b 0 (Nat.zero_le _)

/-- Without escapes nothing but spaces is new in the decoded text. -/
theorem mem_of_urlDecode {str : Bytes} (h : chr '%' ∉ str) {d : Bool} {c : UInt8} (hc : c ∈ urlDecode str d) :
    c ∈ str ∨ c = chr ' ' := by
  rw [urlDecode_eq] at hc
  induction str with
  | nil => simp [urlDecoded] at hc
  | cons x str ih =>
    rw [List.mem_cons, not_or] at h
    rw [urlDecoded, escapeAt_ne (fun heq => h.1 heq.symm)] at hc
    split at hc
    · rcases List.mem_cons.mp hc with hc | hc
      · exact Or.inr hc
      · exact (ih h.2 hc).imp_left (List.mem_cons_of_mem x)
    · rcases List.mem_cons.mp hc with hc | hc
      · exact Or.inl (by simp [hc])
      · exact (ih h.2 hc).imp_left (List.mem_cons_of_mem x)

/-- Blanks are decoded to themselves, so trimming on the left takes bytes away from the decoded text. -/
theorem length_urlDecode_dropWhile (d : Bool) {delimit : Bytes} (hplain : ∀ c ∈ delimit, PlainByte c) (str : Bytes) :
    (urlDecode (str.dropWhile (· ∈ delimit)) d).length ≤ (urlDecode str d).length := by
  simp only [urlDecode_eq]
  induction str with
  | nil => simp
  | cons c str ih =>
    by_cases hc : c ∈ delimit
    · rw [List.dropWhile_cons_of_pos (by simpa using hc), urlDecoded_plain (hplain c hc)]
      exact Nat.le_succ_of_le ih
    · rw [List.dropWhile_cons_of_neg (by simpa using hc)]

/-- With a separator and anything before it in front, a decoded key gets longer, trimmed or not. -/
theorem length_decoded_trimmed {delimit : Bytes} {c : UInt8} (hplain : ∀ x ∈ delimit, PlainByte x) (hc : PlainByte c)
    (hstay : c ∉ delimit) (pre key : Bytes) :
    (urlDecode (trimmed delimit key) true).length <
      (urlDecode (trimmed delimit (pre ++ c :: key)) true).length := by
  rw [trimmed_append hstay, urlDecode_append hc, List.length_append, List.length_cons, trimmed_comm]
  have hle := length_urlDecode_dropWhile true hplain (key.rdropWhile (· ∈ delimit))
  omega

end Sylar.Util
