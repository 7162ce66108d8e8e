import Sylar.Http.Dump
import Sylar.Lib.OrderedMap
import Sylar.Lib.Splitter
import Sylar.Util.Trim

/- The parameters and cookies of `HttpRequest`, parsed on demand (`http.cc`).

   `m_params` and `m_cookies` are filled from the query, the body and the `cookie`
   header by the macro `PARSE_PARAM`, once each: three bits of `m_parserParamFlag` say
   which texts are done. `parseParam` is the macro's loop, over any container `m` with
   an `insert`; one round of it is `parseRound`, and `parseRound_lt` is why it ends.
   `parseParam_eq` says what it inserts: the pairs of `keyValues`, the glued reading
   of the text.

   A map of parameters is an `OrderedMap`, in the order of `CaseInsensitiveLess`, and so is
   the list of the headers as long as it is in that order (`get_set`). -/
namespace Sylar.Http
open Sylar.Lib
open Sylar.Util

/-! ## Maps -/

/-- The order of the keys of `MapType`. -/
def nameOrder : WeakOrder Bytes where
  less := caseInsensitiveLess
  irrefl a := keyLess_irrefl (a, [])
  trans a b c := keyLess_trans (a, []) (b, []) (c, [])
  cotrans a b c hac := by
    by_cases hab : caseInsensitiveLess a b = true
    · exact Or.inl hab
    · refine Or.inr ?_
      by_cases heq : folded a = folded b
      · simpa [caseInsensitiveLess, heq] using hac
      · have hba : caseInsensitiveLess b a = true :=
          keyLess_of_ne (a := (a, [])) (b := (b, [])) heq hab
        exact keyLess_trans (b, []) (a, []) (c, []) hba hac

/-- Two keys are the same when they are equal up to the first NUL, but for their case. -/
theorem nameOrder_same (a b : Bytes) : nameOrder.same a b = true ↔ folded a = folded b := by
  constructor
  · intro h
    obtain ⟨hab, hba⟩ := nameOrder.same_iff.mp h
    by_contra hne
    have hlt : caseInsensitiveLess b a = true :=
      keyLess_of_ne (a := (a, [])) (b := (b, [])) hne (Bool.eq_false_iff.mp hab)
    exact Bool.eq_false_iff.mp hba hlt
  · intro h
    have hleft : caseInsensitiveLess a b = false := by
      simp [caseInsensitiveLess, h]
    have hright : caseInsensitiveLess b a = false := by
      simp [caseInsensitiveLess, h]
    exact nameOrder.same_iff.mpr ⟨hleft, hright⟩

/-- `MapType` of `m_params` and `m_cookies`. -/
abbrev ParamMap := OrderedMap nameOrder Bytes

/-! ## Headers -/

theorem set_eq_upsert (key val : Bytes) (m : MapType) :
    m.set key val = OrderedMap.upsert nameOrder (fun _ => val) key val m := by
  induction m with
  | nil => simp [MapType.set, OrderedMap.upsert]
  | cons kv rest ih =>
    rw [MapType.set, OrderedMap.upsert, ih]
    rfl

theorem get_eq_lookup (key : Bytes) (m : MapType) :
    m.get key = (OrderedMap.lookup nameOrder key m).map Prod.snd := by
  unfold MapType.get OrderedMap.lookup
  congr 2
  funext kv
  simp [WeakOrder.same, nameOrder, Bool.and_comm]

theorem inOrder_set (key val : Bytes) {m : MapType} (h : OrderedMap.InOrder nameOrder m) :
    OrderedMap.InOrder nameOrder (m.set key val) := by
  rw [set_eq_upsert]
  exact OrderedMap.inOrder_upsert _ _ _ h

/-- What is found after a header was set. -/
theorem get_set (key val : Bytes) {m : MapType} (h : OrderedMap.InOrder nameOrder m) (k : Bytes) :
    (m.set key val).get k = if sameName k key then some val else m.get k := by
  have hsame : nameOrder.same k key = sameName k key := by
    rw [Bool.eq_iff_iff, nameOrder_same]
    simp [sameName]
  rw [get_eq_lookup, get_eq_lookup, set_eq_upsert, OrderedMap.lookup_upsert _ _ _ h, hsame]
  cases sameName k key with
  | false => simp
  | true => cases OrderedMap.lookup nameOrder k m with
    | none => simp
    | some kv => simp

/-! ## The macro -/

/-- `str.find(c, pos)`, with `npos` as `none`. -/
def find (str : Bytes) (c : UInt8) (pos : Nat) : Option Nat :=
  ((str.drop pos).findIdx? (· == c)).map (pos + ·)

/-- One round of `PARSE_PARAM` from `last`: the pair it inserts and where it goes on, unless it breaks. -/
def parseRound (str : Bytes) (flag : UInt8) (trim : Bytes → Bytes) (last : Nat) :
    Option ((Bytes × Bytes) × Option Nat) :=
  match find str (chr '=') last with
  | none => none
  | some key =>
    let name := urlDecode (trim (substr str last (key - last))) true
    match find str flag key with
    -- `pos - key - 1` wraps: the value is the rest of the text
    | none => some ((name, urlDecode (str.drop (key + 1)) true), none)
    | some pos => some ((name, urlDecode (substr str (key + 1) (pos - key - 1)) true), some (pos + 1))

theorem find_bounds {str : Bytes} {c : UInt8} {pos i : Nat} (h : find str c pos = some i) :
    pos ≤ i ∧ i < str.length := by
  rw [find, Option.map_eq_some_iff] at h
  obtain ⟨j, hj, hi⟩ := h
  have hlt := (List.findIdx?_eq_some_iff_findIdx_eq.mp hj).1
  rw [List.length_drop] at hlt
  omega

/-- A round that goes on has moved forward, and not beyond the end. -/
theorem parseRound_lt {str : Bytes} {flag : UInt8} {trim : Bytes → Bytes} {last pos : Nat} {kv : Bytes × Bytes}
    (h : parseRound str flag trim last = some (kv, some pos)) : last < pos ∧ pos ≤ str.length := by
  unfold parseRound at h
  cases hkey : find str (chr '=') last with
  | none => simp [hkey] at h
  | some key =>
    cases hpos : find str flag key with
    | none => simp [hkey, hpos] at h
    | some p =>
      have hfrom := find_bounds hkey
      have hto := find_bounds hpos
      simp only [hkey, hpos, Option.some.injEq, Prod.mk.injEq] at h
      omega

/-- `PARSE_PARAM(str, m, flag, trim)` from `last` on. -/
def parseParam {σ : Type} (insert : σ → Bytes × Bytes → σ) (str : Bytes) (flag : UInt8) (trim : Bytes → Bytes)
    (last : Nat) (m : σ) : σ :=
  match _h : parseRound str flag trim last with
  | none => m
  | some (kv, none) => insert m kv
  | some (kv, some pos) => parseParam insert str flag trim pos (insert m kv)
termination_by str.length - last
decreasing_by
  have hlt := parseRound_lt _h
  omega

/-! ## What the macro inserts -/

/-- The pair that is inserted for a key and a value of the text. -/
def decodedPair (trim : Bytes → Bytes) (kv : Bytes × Bytes) : Bytes × Bytes :=
  (urlDecode (trim kv.1) true, urlDecode kv.2 true)

/-- The pairs that are inserted for a text, in order. -/
def keyValues (flag : UInt8) (trim : Bytes → Bytes) (text : Bytes) : List (Bytes × Bytes) :=
  (glue (chr '=') flag [] (text.splitOn flag)).map (decodedPair trim)

theorem keyValues_nil (sep : UInt8) (trim : Bytes → Bytes) : keyValues sep trim [] = [] := by
  simp [keyValues, glue, cut]

theorem find_of_not_mem {str : Bytes} {c : UInt8} {pos : Nat} (h : c ∉ str.drop pos) : find str c pos = none := by
  rw [find, Option.map_eq_none_iff, List.findIdx?_eq_none_iff]
  intro x hx
  simpa using fun heq : x = c => h (heq ▸ hx)

theorem find_of_drop {str k t : Bytes} {c : UInt8} {pos : Nat} (hdrop : str.drop pos = k ++ c :: t) (hk : c ∉ k) :
    find str c pos = some (pos + k.length) := by
  have hfind : (k ++ c :: t).findIdx? (· == c) = some k.length := by
    apply findIdx?_append_cons
    · intro x hx
      simpa using fun heq : x = c => hk (heq ▸ hx)
    · simp
  rw [find, hdrop, hfind]
  simp

/-- Where the text from `last` on starts with a part, the rest of it stands behind that part. -/
theorem drop_behind {str rest : Bytes} (part : Bytes) {last : Nat} (h : str.drop last = part ++ rest) :
    str.drop (last + part.length) = rest := by
  rw [← List.drop_drop, h, List.drop_left]

/-- What one round does: it breaks without a mark, takes the last pair, or takes a pair and goes on. -/
theorem parseRound_cases {str : Bytes} {flag : UInt8} (hflag : flag ≠ chr '=') (trim : Bytes → Bytes) (last : Nat) :
    (chr '=' ∉ str.drop last ∧ parseRound str flag trim last = none) ∨
    (∃ k v, str.drop last = k ++ chr '=' :: v ∧ chr '=' ∉ k ∧ flag ∉ v ∧
      parseRound str flag trim last = some (decodedPair trim (k, v), none)) ∨
    (∃ k v rest pos, str.drop last = k ++ chr '=' :: (v ++ flag :: rest) ∧ chr '=' ∉ k ∧ flag ∉ v ∧
      parseRound str flag trim last = some (decodedPair trim (k, v), some pos) ∧ str.drop pos = rest) := by
  by_cases hmark : chr '=' ∈ str.drop last
  · obtain ⟨k, tail, hsplit, hk⟩ := List.eq_append_cons_of_mem hmark
    have hkey := find_of_drop hsplit hk
    have hname : substr str last (last + k.length - last) = k := by
      rw [substr, hsplit, Nat.add_sub_cancel_left]
      exact List.take_left
    have hat : str.drop (last + k.length) = chr '=' :: tail := drop_behind k hsplit
    have hbehind : str.drop (last + k.length + 1) = tail := drop_behind [chr '='] hat
    by_cases hsep : flag ∈ tail
    · obtain ⟨v, rest, hvalue, hv⟩ := List.eq_append_cons_of_mem hsep
      have hmarked : flag ∉ chr '=' :: v := by simp [hflag, hv]
      have hpos : find str flag (last + k.length) = some (last + k.length + (chr '=' :: v).length) :=
        find_of_drop (t := rest) (by rw [hat, hvalue]; simp) hmarked
      have htext : substr str (last + k.length + 1)
          (last + k.length + (chr '=' :: v).length - (last + k.length) - 1) = v := by
        have hlen : last + k.length + (chr '=' :: v).length - (last + k.length) - 1 = v.length := by
          rw [List.length_cons]
          omega
        rw [substr, hlen, hbehind, hvalue]
        exact List.take_left
      have hnext : str.drop (last + k.length + (chr '=' :: v).length + 1) = rest := by
        apply drop_behind [flag]
        apply drop_behind (chr '=' :: v)
        rw [hat, hvalue]
        simp
      refine Or.inr (Or.inr ⟨k, v, rest, _, by rw [hsplit, hvalue], hk, hv, ?_, hnext⟩)
      simp only [parseRound, hkey, hpos, hname, htext, decodedPair]
    · have hpos : find str flag (last + k.length) = none := by
        apply find_of_not_mem
        rw [hat]
        simp [hflag, hsep]
      refine Or.inr (Or.inl ⟨k, tail, hsplit, hk, hsep, ?_⟩)
      simp only [parseRound, hkey, hpos, hname, hbehind, decodedPair]
  · refine Or.inl ⟨hmark, ?_⟩
    simp only [parseRound, find_of_not_mem hmark]

section
variable {σ : Type} (insert : σ → Bytes × Bytes → σ) {str : Bytes} {flag : UInt8} {trim : Bytes → Bytes}
  {last pos : Nat} {kv : Bytes × Bytes}

theorem parseParam_break (h : parseRound str flag trim last = none) (m : σ) :
    parseParam insert str flag trim last m = m := by
  rw [parseParam]
  split
  · rfl
  · rename_i heq; rw [h] at heq; cases heq
  · rename_i heq; rw [h] at heq; cases heq

theorem parseParam_last (h : parseRound str flag trim last = some (kv, none)) (m : σ) :
    parseParam insert str flag trim last m = insert m kv := by
  rw [parseParam]
  split
  · rename_i heq; rw [h] at heq; cases heq
  · rename_i heq; rw [h] at heq; cases heq; rfl
  · rename_i heq; rw [h] at heq; cases heq

theorem parseParam_more (h : parseRound str flag trim last = some (kv, some pos)) (m : σ) :
    parseParam insert str flag trim last m = parseParam insert str flag trim pos (insert m kv) := by
  rw [parseParam]
  split
  · rename_i heq; rw [h] at heq; cases heq
  · rename_i heq; rw [h] at heq; cases heq
  · rename_i heq; rw [h] at heq; cases heq; rfl

/-- The loop inserts the pairs of the text that is left, one after another. -/
theorem parseParam_eq (hflag : flag ≠ chr '=') (trim : Bytes → Bytes) (last : Nat) (m : σ) :
    parseParam insert str flag trim last m = (keyValues flag trim (str.drop last)).foldl insert m := by
  induction hn : str.length - last using Nat.strong_induction_on generalizing last m with
  | _ n ih =>
    rw [keyValues]
    rcases parseRound_cases hflag trim last with ⟨hmark, hround⟩ | ⟨k, v, htext, hk, hv, hround⟩ |
      ⟨k, v, rest, pos, htext, hk, hv, hround, hrest⟩
    · rw [parseParam_break insert hround, glue_splitOn_of_not_mem hmark]
      simp
    · rw [parseParam_last insert hround, htext,
        glue_splitOn_mark hflag.symm hk (List.splitOn_eq_singleton hv)]
      simp [glue]
    · have hlt := parseRound_lt hround
      rw [parseParam_more insert hround, htext,
        glue_splitOn_mark hflag.symm hk (List.splitOn_append_cons_self_of_not_mem hv rest),
        ih (str.length - pos) (by omega) pos _ rfl, hrest, keyValues]
      simp

end

/-! ## The request -/

/-- `HttpRequest`, with the members that are filled on demand. -/
structure LazyRequest extends HttpRequest where
  parserParamFlag : UInt8 := 0
  params : ParamMap := OrderedMap.empty
  cookies : ParamMap := OrderedMap.empty

/-- `strcasestr(haystack, needle) != nullptr`. -/
def strcasestr (haystack needle : Bytes) : Bool := (folded haystack).tails.any (folded needle).isPrefixOf

namespace LazyRequest

/-- `HttpRequest::getHeader`, with the empty text as default. -/
def getHeader (r : LazyRequest) (key : Bytes) : Bytes := (r.headers.get key).getD []

/-- The body is one of parameters. -/
def isForm (r : LazyRequest) : Bool :=
  strcasestr (r.getHeader (ascii "content-type")) (ascii "application/x-www-form-urlencoded")

def initQueryParam (r : LazyRequest) : LazyRequest :=
  if r.parserParamFlag &&& 0x1 ≠ 0 then r
  else
    { r with
      params := parseParam OrderedMap.insert r.query (chr '&') id 0 r.params
      parserParamFlag := r.parserParamFlag ||| 0x1 }

def initBodyParam (r : LazyRequest) : LazyRequest :=
  if r.parserParamFlag &&& 0x2 ≠ 0 then r
  else if r.isForm = false then { r with parserParamFlag := r.parserParamFlag ||| 0x2 }
  else
    { r with
      params := parseParam OrderedMap.insert r.body (chr '&') id 0 r.params
      parserParamFlag := r.parserParamFlag ||| 0x2 }

def initCookies (r : LazyRequest) : LazyRequest :=
  if r.parserParamFlag &&& 0x4 ≠ 0 then r
  else
    let cookie := r.getHeader (ascii "cookie")
    if cookie = [] then { r with parserParamFlag := r.parserParamFlag ||| 0x4 }
    else
      { r with
        cookies := parseParam OrderedMap.insert cookie (chr ';') (trim · blanks) 0 r.cookies
        parserParamFlag := r.parserParamFlag ||| 0x4 }

def getParam (r : LazyRequest) (key default : Bytes) : Bytes × LazyRequest :=
  let r := r.initQueryParam.initBodyParam
  ((r.params.get key).getD default, r)

def getCookie (r : LazyRequest) (key default : Bytes) : Bytes × LazyRequest :=
  let r := r.initCookies
  ((r.cookies.get key).getD default, r)

def setParam (r : LazyRequest) (key val : Bytes) : LazyRequest := { r with params := r.params.set key val }

def setCookie (r : LazyRequest) (key val : Bytes) : LazyRequest := { r with cookies := r.cookies.set key val }

def delParam (r : LazyRequest) (key : Bytes) : LazyRequest := { r with params := r.params.erase key }

def delCookie (r : LazyRequest) (key : Bytes) : LazyRequest := { r with cookies := r.cookies.erase key }

/-- What `*val` is set to: nothing when the key is not found or `val` is null. -/
def written (found val : Option Bytes) : Option Bytes :=
  match found, val with
  | some v, some _ => some v
  | _, val => val

/-- `val` is what it points to, if it is not null. -/
def hasParam (r : LazyRequest) (key : Bytes) (val : Option Bytes) : (Bool × Option Bytes) × LazyRequest :=
  let r := r.initQueryParam.initBodyParam
  (((r.params.get key).isSome, written (r.params.get key) val), r)

def hasCookie (r : LazyRequest) (key : Bytes) (val : Option Bytes) : (Bool × Option Bytes) × LazyRequest :=
  let r := r.initCookies
  (((r.cookies.get key).isSome, written (r.cookies.get key) val), r)

/-! ## What is left to parse -/

/-- The pairs of the query, until they are parsed. -/
def pendingQuery (r : LazyRequest) : List (Bytes × Bytes) :=
  if r.parserParamFlag &&& 0x1 ≠ 0 then [] else keyValues (chr '&') id r.query

/-- The pairs of the body, if it is a form. -/
def pendingBody (r : LazyRequest) : List (Bytes × Bytes) :=
  if r.parserParamFlag &&& 0x2 ≠ 0 ∨ r.isForm = false then [] else keyValues (chr '&') id r.body

/-- The pairs of the `cookie` header. -/
def pendingCookies (r : LazyRequest) : List (Bytes × Bytes) :=
  if r.parserParamFlag &&& 0x4 ≠ 0 then []
  else keyValues (chr ';') (trim · blanks) (r.getHeader (ascii "cookie"))

/-- A bit that is set stays as it is. -/
theorem flag_or (f : UInt8) : (f &&& 0x1 ≠ 0 → f ||| 0x1 = f) ∧ (f &&& 0x2 ≠ 0 → f ||| 0x2 = f) ∧
    (f &&& 0x4 ≠ 0 → f ||| 0x4 = f) := by
  revert f
  apply forall_byte
  decide +kernel

/-- Parsing fills in what is left of the query, and marks it done. -/
theorem initQueryParam_eq (r : LazyRequest) :
    r.initQueryParam =
      { r with params := r.params.fill r.pendingQuery, parserParamFlag := r.parserParamFlag ||| 0x1 } := by
  rw [initQueryParam, pendingQuery]
  split
  · rename_i hset
    rw [(flag_or _).1 hset]
    rfl
  · rw [parseParam_eq _ (by decide)]
    rfl

theorem initBodyParam_eq (r : LazyRequest) :
    r.initBodyParam =
      { r with params := r.params.fill r.pendingBody, parserParamFlag := r.parserParamFlag ||| 0x2 } := by
  rw [initBodyParam, pendingBody]
  by_cases hset : r.parserParamFlag &&& 0x2 ≠ 0
  · rw [if_pos hset, if_pos (Or.inl hset), (flag_or _).2.1 hset]
    rfl
  · rw [if_neg hset]
    by_cases hform : r.isForm = false
    · rw [if_pos hform, if_pos (Or.inr hform)]
      rfl
    · rw [if_neg hform, if_neg (by simp [hset, hform]), parseParam_eq _ (by decide)]
      rfl

theorem initCookies_eq (r : LazyRequest) :
    r.initCookies =
      { r with cookies := r.cookies.fill r.pendingCookies, parserParamFlag := r.parserParamFlag ||| 0x4 } := by
  rw [initCookies, pendingCookies]
  by_cases hset : r.parserParamFlag &&& 0x4 ≠ 0
  · rw [if_pos hset, if_pos hset, (flag_or _).2.2 hset]
    rfl
  · rw [if_neg hset, if_neg hset]
    by_cases hcookie : r.getHeader (ascii "cookie") = []
    · simp only [hcookie, if_true, keyValues_nil]
      rfl
    · simp only [if_neg hcookie]
      rw [parseParam_eq _ (by decide)]
      rfl

end LazyRequest

end Sylar.Http
