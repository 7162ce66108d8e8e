import Mathlib.Data.List.Basic
import Sylar.Http.Url
import Sylar.Http.Dump

/- `sylar/uri.cc`: `Uri::Create`, which cuts a URL with `http_parser_parse_url`, and
   `Uri::toString`, which prints one.

   The members are what the setters left, the getters have the defaults. `std::stoi` throws
   where its argument has no number at the front; an exception and a null pointer are both
   `none`. -/
namespace Sylar
open Sylar.Http

structure Uri where
  scheme : Bytes := []
  userinfo : Bytes := []
  host : Bytes := []
  path : Bytes := []
  query : Bytes := []
  fragment : Bytes := []
  port : Int := 0
  deriving DecidableEq, Repr

namespace Uri

/-- `isspace`. -/
def isSpace (c : UInt8) : Bool := c = chr ' ' || (9 ≤ c && c ≤ 13)

/-- `std::stoi` in base 10. -/
def stoi (str : Bytes) : Option Int :=
  let str := str.dropWhile isSpace
  let sign : Int := if str.head? = some (chr '-') then -1 else 1
  let str := if str.head? = some (chr '-') ∨ str.head? = some (chr '+') then str.tail else str
  let digits := str.takeWhile isNum
  let v := sign * decimal digits
  if digits = [] then none
  else if v < -2147483648 ∨ 2147483647 < v then none
  else some v

/-- `std::to_string`. -/
def toText (v : Int) : Bytes := (if v < 0 then ascii "-" else []) ++ decimalText v.natAbs

/-- The port that `Uri::Create` takes for a scheme when the URL has none. -/
def defaultPort (scheme : Bytes) : Int :=
  if scheme = ascii "http" ∨ scheme = ascii "ws" then 80
  else if scheme = ascii "https" then 443
  else 0

/-- `Uri::Create`. -/
def create (urlstr : Bytes) : Option Uri := do
  let parser ← httpParserParseUrl urlstr false
  let scheme := (parser.text .UF_SCHEMA urlstr).getD []
  let port ←
    match parser.text .UF_PORT urlstr with
    | some digits => stoi digits
    | none => some (defaultPort scheme)
  some
    { scheme := scheme
      userinfo := (parser.text .UF_USERINFO urlstr).getD []
      host := (parser.text .UF_HOST urlstr).getD []
      port := port
      path := (parser.text .UF_PATH urlstr).getD []
      query := (parser.text .UF_QUERY urlstr).getD []
      fragment := (parser.text .UF_FRAGMENT urlstr).getD [] }

def getPort (u : Uri) : Int :=
  if u.port ≠ 0 then u.port
  else if u.scheme = ascii "http" ∨ u.scheme = ascii "ws" then 80
  else if u.scheme = ascii "https" ∨ u.scheme = ascii "wss" then 443
  else u.port

def getPath (u : Uri) : Bytes := if u.path = [] then ascii "/" else u.path

def isDefaultPort (u : Uri) : Bool :=
  if u.scheme = ascii "http" ∨ u.scheme = ascii "ws" then u.port = 80
  else if u.scheme = ascii "https" then u.port = 443
  else false

def toString (u : Uri) : Bytes :=
  u.scheme ++ ascii "://" ++ u.userinfo ++ (if u.userinfo = [] then [] else ascii "@") ++
    u.host ++ (if u.isDefaultPort then [] else ascii ":" ++ toText u.port) ++
    u.getPath ++
    (if u.query = [] then [] else ascii "?") ++ u.query ++
    (if u.fragment = [] then [] else ascii "#") ++ u.fragment

/-- The text of the URI gives a URI with the same parts. -/
def RoundTrips (u : Uri) : Prop :=
  ∃ v, create u.toString = some v ∧ v.scheme = u.scheme ∧ v.userinfo = u.userinfo ∧ v.host = u.host ∧
    v.getPort = u.getPort ∧ v.getPath = u.getPath ∧ v.query = u.query ∧ v.fragment = u.fragment

end Uri

end Sylar
