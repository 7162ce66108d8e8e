import Sylar.Lib.Bytes
import Sylar.Http.Tables

/- `StringUtil::UrlEncode` and `StringUtil::UrlDecode` of `util.cc`.

   Both functions copy lazily: `ss` is null until the first byte that has to
   change, and only then takes over the bytes before it. The loops below keep
   `ss` as an option and the bytes before `c` as `before`, and
   `urlEncodeLoop_eager` and `urlDecodeLoop_eager` say that the laziness cannot
   be seen: what is returned is the text changed byte by byte (`urlEncoded`,
   `urlDecoded`). `urlDecode_urlEncode` is the round trip.

   A `char` is a byte. The decoder tests `isxdigit` on a signed `char` and
   indexes `xdigit_chars` with it; only the digits of the C locale pass the test,
   so the table is never read at a negative index. -/
namespace Sylar.Util

open Sylar.Http (Bytes chr ascii)
open Sylar.Lib (forall_byte)

/-! ## Tables -/

/-- `uri_chars`. -/
def uriChars : List Nat := [
  0, 0, 0, 0, 0, 0, 0, 0,   0, 0, 0, 0, 0, 0, 0, 0,
  0, 0, 0, 0, 0, 0, 0, 0,   0, 0, 0, 0, 0, 0, 0, 0,
  0, 0, 0, 0, 0, 0, 0, 0,   0, 0, 0, 0, 0, 1, 1, 0,
  1, 1, 1, 1, 1, 1, 1, 1,   1, 1, 0, 0, 0, 1, 0, 0,
  0, 1, 1, 1, 1, 1, 1, 1,   1, 1, 1, 1, 1, 1, 1, 1,
  1, 1, 1, 1, 1, 1, 1, 1,   1, 1, 1, 0, 0, 0, 0, 1,
  0, 1, 1, 1, 1, 1, 1, 1,   1, 1, 1, 1, 1, 1, 1, 1,
  1, 1, 1, 1, 1, 1, 1, 1,   1, 1, 1, 0, 0, 0, 1, 0] ++ List.replicate 128 0

/-- `xdigit_chars`. -/
def xdigitChars : List Nat := [
  0,0,0,0,0,0,0,0,0,0,0,0,0,0,0,0,
  0,0,0,0,0,0,0,0,0,0,0,0,0,0,0,0,
  0,0,0,0,0,0,0,0,0,0,0,0,0,0,0,0,
  0,1,2,3,4,5,6,7,8,9,0,0,0,0,0,0,
  0,10,11,12,13,14,15,0,0,0,0,0,0,0,0,0,
  0,0,0,0,0,0,0,0,0,0,0,0,0,0,0,0,
  0,10,11,12,13,14,15] ++ List.replicate 153 0

/-- `CHAR_IS_UNRESERVED`. -/
def charIsUnreserved (c : UInt8) : Bool := uriChars.getD c.toNat 0 != 0

def hexdigits : Bytes := ascii "0123456789ABCDEF"

/-- `isxdigit` of `<ctype.h>` in the C locale. -/
def isxdigit (c : UInt8) : Bool :=
  (chr '0' ≤ c && c ≤ chr '9') || (chr 'A' ≤ c && c ≤ chr 'F') || (chr 'a' ≤ c && c ≤ chr 'f')

/-- `(char)(xdigit_chars[x] << 4 | xdigit_chars[y])`. -/
def fromHex (x y : UInt8) : UInt8 :=
  UInt8.ofNat (xdigitChars.getD x.toNat 0 <<< 4 ||| xdigitChars.getD y.toNat 0)

/-! ## The two functions -/

/-- What the encoder appends for a byte that is not unreserved. -/
def escaped (spaceAsPlus : Bool) (c : UInt8) : Bytes :=
  if c = chr ' ' ∧ spaceAsPlus = true then [chr '+']
  else [chr '%', hexdigits.getD (c >>> 4).toNat 0, hexdigits.getD (c &&& 0xf).toNat 0]

/-- The loop of `UrlEncode` at `c`, with the bytes before `c` and the copy. -/
def urlEncodeLoop (spaceAsPlus : Bool) : Bytes → Option Bytes → Bytes → Option Bytes
  | _, ss, [] => ss
  | before, ss, c :: rest =>
    if charIsUnreserved c then
      -- Without a copy the byte is not appended anywhere.
      urlEncodeLoop spaceAsPlus (before ++ [c]) (ss.map (· ++ [c])) rest
    else
      urlEncodeLoop spaceAsPlus (before ++ [c]) (some (ss.getD before ++ escaped spaceAsPlus c)) rest

/-- `StringUtil::UrlEncode`. -/
def urlEncode (str : Bytes) (spaceAsPlus : Bool) : Bytes :=
  (urlEncodeLoop spaceAsPlus [] none str).getD str

/-- The byte an escape at `c` stands for, if `c` and the two bytes after it are one. -/
def escapeAt (c : UInt8) (rest : Bytes) : Option UInt8 :=
  match rest with
  | x :: y :: _ => if c = chr '%' ∧ isxdigit x = true ∧ isxdigit y = true then some (fromHex x y) else none
  | _ => none

/-- The loop of `UrlDecode` at `c`. `skip` counts the bytes that `c += 2` still jumps over. -/
def urlDecodeLoop (spaceAsPlus : Bool) : Nat → Bytes → Option Bytes → Bytes → Option Bytes
  | _, _, ss, [] => ss
  | skip + 1, before, ss, c :: rest => urlDecodeLoop spaceAsPlus skip (before ++ [c]) ss rest
  | 0, before, ss, c :: rest =>
    if c = chr '+' ∧ spaceAsPlus = true then
      urlDecodeLoop spaceAsPlus 0 (before ++ [c]) (some (ss.getD before ++ [chr ' '])) rest
    else match escapeAt c rest with
      | some d => urlDecodeLoop spaceAsPlus 2 (before ++ [c]) (some (ss.getD before ++ [d])) rest
      | none => urlDecodeLoop spaceAsPlus 0 (before ++ [c]) (ss.map (· ++ [c])) rest

/-- `StringUtil::UrlDecode`. -/
def urlDecode (str : Bytes) (spaceAsPlus : Bool) : Bytes :=
  (urlDecodeLoop spaceAsPlus 0 [] none str).getD str

/-! ## Without the copy -/

/-- What one byte of the text becomes. -/
def encodedByte (spaceAsPlus : Bool) (c : UInt8) : Bytes :=
  if charIsUnreserved c then [c] else escaped spaceAsPlus c

/-- The encoded text, byte by byte. -/
def urlEncoded (spaceAsPlus : Bool) (str : Bytes) : Bytes := str.flatMap (encodedByte spaceAsPlus)

/-- The decoded text, escape by escape. -/
def urlDecoded (spaceAsPlus : Bool) : Nat → Bytes → Bytes
  | _, [] => []
  | skip + 1, _ :: rest => urlDecoded spaceAsPlus skip rest
  | 0, c :: rest =>
    if c = chr '+' ∧ spaceAsPlus = true then chr ' ' :: urlDecoded spaceAsPlus 0 rest
    else match escapeAt c rest with
      | some d => d :: urlDecoded spaceAsPlus 2 rest
      | none => c :: urlDecoded spaceAsPlus 0 rest

/-- The copy, once there is one, is the encoded text; until then nothing had to change. -/
theorem urlEncodeLoop_eager (b : Bool) (before : Bytes) (ss : Option Bytes) (rest : Bytes) :
    (urlEncodeLoop b before ss rest).getD (before ++ rest) = ss.getD before ++ urlEncoded b rest := by
  induction rest generalizing before ss with
  | nil => simp [urlEncodeLoop, urlEncoded]
  | cons c rest ih =>
    have hbefore : before ++ c :: rest = (before ++ [c]) ++ rest := by simp
    rw [urlEncodeLoop, hbefore]
    by_cases hc : charIsUnreserved c = true
    · rw [if_pos hc, ih]
      cases ss with
      | none => simp [urlEncoded, encodedByte, hc]
      | some s => simp [urlEncoded, encodedByte, hc]
    · rw [if_neg hc, ih]
      simp [urlEncoded, encodedByte, hc]

/-- Once there is a copy, it takes every decoded byte. -/
theorem urlDecodeLoop_some (b : Bool) (skip : Nat) (before s rest : Bytes) :
    urlDecodeLoop b skip before (some s) rest = some (s ++ urlDecoded b skip rest) := by
  induction rest generalizing skip before s with
  | nil => simp [urlDecodeLoop, urlDecoded]
  | cons c rest ih =>
    cases skip with
    | succ skip => rw [urlDecodeLoop, ih, urlDecoded]
    | zero =>
      rw [urlDecodeLoop, urlDecoded]
      split
      · rw [ih]; simp
      · cases escapeAt c rest with
        | none => simp only [Option.map_some]; rw [ih]; simp
        | some d => simp only [Option.getD_some]; rw [ih]; simp

theorem urlDecodeLoop_eager (b : Bool) (before rest : Bytes) :
    (urlDecodeLoop b 0 before none rest).getD (before ++ rest) = before ++ urlDecoded b 0 rest := by
  induction rest generalizing before with
  | nil => simp [urlDecodeLoop, urlDecoded]
  | cons c rest ih =>
    have hbefore : before ++ c :: rest = (before ++ [c]) ++ rest := by simp
    rw [urlDecodeLoop, urlDecoded]
    split
    · rw [urlDecodeLoop_some]; simp
    · cases escapeAt c rest with
      | none => simp only [Option.map_none]; rw [hbefore, ih]; simp
      | some d => simp only [urlDecodeLoop_some]; simp

theorem urlEncode_eq (str : Bytes) (b : Bool) : urlEncode str b = urlEncoded b str := by
  simpa [urlEncode] using urlEncodeLoop_eager b [] none str

theorem urlDecode_eq (str : Bytes) (b : Bool) : urlDecode str b = urlDecoded b 0 str := by
  simpa [urlDecode] using urlDecodeLoop_eager b [] str

/-! ## Round trip -/

/-- A byte left as it is starts no escape and is no `+`. -/
theorem unreserved_plain : ∀ c : UInt8, charIsUnreserved c = true → c ≠ chr '+' ∧ c ≠ chr '%' := by
  apply forall_byte
  decide +kernel

/-- The two digits of an escape are digits, and of the byte they were made from. -/
theorem fromHex_digits : ∀ c : UInt8,
    isxdigit (hexdigits.getD (c >>> 4).toNat 0) = true ∧ isxdigit (hexdigits.getD (c &&& 0xf).toNat 0) = true ∧
      fromHex (hexdigits.getD (c >>> 4).toNat 0) (hexdigits.getD (c &&& 0xf).toNat 0) = c := by
  apply forall_byte
  decide +kernel

theorem escapeAt_ne {c : UInt8} (h : c ≠ chr '%') (rest : Bytes) : escapeAt c rest = none := by
  unfold escapeAt
  split
  · rw [if_neg (fun hc => h hc.1)]
  · rfl

/-- One byte, encoded in front of any text, is read back as that byte, if a `+` for a space is. -/
theorem urlDecoded_encodedByte {b d : Bool} (hd : b = true → d = true) (c : UInt8) (rest : Bytes) :
    urlDecoded d 0 (encodedByte b c ++ rest) = c :: urlDecoded d 0 rest := by
  rw [encodedByte]
  by_cases hc : charIsUnreserved c = true
  · have hplain := unreserved_plain c hc
    rw [if_pos hc, List.singleton_append, urlDecoded, if_neg (fun h => hplain.1 h.1), escapeAt_ne hplain.2]
  · rw [if_neg hc, escaped]
    by_cases hspace : c = chr ' ' ∧ b = true
    · rw [if_pos hspace, List.singleton_append, urlDecoded, if_pos ⟨rfl, hd hspace.2⟩, hspace.1]
    · obtain ⟨hhigh, hlow, hback⟩ := fromHex_digits c
      have hplus : ¬ (chr '%' = chr '+' ∧ d = true) := fun h => absurd h.1 (by decide)
      rw [if_neg hspace]
      simp only [List.cons_append, List.nil_append]
      rw [urlDecoded, if_neg hplus]
      simp only [escapeAt, hhigh, hlow, hback, and_self, if_true, urlDecoded]

theorem urlDecoded_urlEncoded {b d : Bool} (hd : b = true → d = true) (str : Bytes) :
    urlDecoded d 0 (urlEncoded b str) = str := by
  induction str with
  | nil => rfl
  | cons c str ih =>
    calc urlDecoded d 0 (urlEncoded b (c :: str))
        = urlDecoded d 0 (encodedByte b c ++ urlEncoded b str) := rfl
      _ = c :: urlDecoded d 0 (urlEncoded b str) := urlDecoded_encodedByte hd c _
      _ = c :: str := by rw [ih]

/-- Decoding what was encoded gives the text back, for every text and both meanings of `+`. -/
theorem urlDecode_urlEncode (str : Bytes) (spaceAsPlus : Bool) :
    urlDecode (urlEncode str spaceAsPlus) spaceAsPlus = str := by
  rw [urlEncode_eq, urlDecode_eq, urlDecoded_urlEncoded id]

/-- The parser of parameters reads `+` as a space, and so reads back either encoding. -/
theorem urlDecode_plus_urlEncode (str : Bytes) (spaceAsPlus : Bool) :
    urlDecode (urlEncode str spaceAsPlus) true = str := by
  rw [urlEncode_eq, urlDecode_eq, urlDecoded_urlEncoded (fun _ => rfl)]

-- A text that already looks escaped is escaped once more.
example : urlEncode (ascii "a %41+") true = ascii "a+%2541%2B" := by decide +kernel

end Sylar.Util
