import Mathlib.Data.List.Basic
import Sylar.Http.Tables

/- The URL parser of `http-parser/http_parser.c`: `parse_url_char`, which
   `http_parser_execute` also uses to validate a request's URL byte by byte, and
   `http_parser_parse_url`, which cuts a whole URL into its fields.

   The offsets and lengths of `struct http_parser_url` are 16-bit and wrap; a URL of
   up to 80 KiB reaches here. A field is in `field_set` when its slice is `some`. -/
namespace Sylar.Http

def parseUrlChar (s : State) (ch : UInt8) : State :=
  if ch = chr ' ' ∨ ch = CR ∨ ch = LF then .s_dead
  else if ch = 9 ∨ ch = 12 then .s_dead
  else
    match s with
    | .s_req_spaces_before_url =>
      if ch = chr '/' ∨ ch = chr '*' then .s_req_path
      else if isAlpha ch then .s_req_schema
      else .s_dead
    | .s_req_schema =>
      if isAlpha ch then s
      else if ch = chr ':' then .s_req_schema_slash
      else .s_dead
    | .s_req_schema_slash => if ch = chr '/' then .s_req_schema_slash_slash else .s_dead
    | .s_req_schema_slash_slash => if ch = chr '/' then .s_req_server_start else .s_dead
    | .s_req_server_with_at | .s_req_server_start | .s_req_server =>
      if s = .s_req_server_with_at ∧ ch = chr '@' then .s_dead
      else if ch = chr '/' then .s_req_path
      else if ch = chr '?' then .s_req_query_string_start
      else if ch = chr '@' then .s_req_server_with_at
      else if isUserinfoChar ch ∨ ch = chr '[' ∨ ch = chr ']' then .s_req_server
      else .s_dead
    | .s_req_path =>
      if isUrlChar ch then s
      else if ch = chr '?' then .s_req_query_string_start
      else if ch = chr '#' then .s_req_fragment_start
      else .s_dead
    | .s_req_query_string_start | .s_req_query_string =>
      if isUrlChar ch then .s_req_query_string
      else if ch = chr '?' then .s_req_query_string
      else if ch = chr '#' then .s_req_fragment_start
      else .s_dead
    | .s_req_fragment_start =>
      if isUrlChar ch then .s_req_fragment
      else if ch = chr '?' then .s_req_fragment
      else if ch = chr '#' then s
      else .s_dead
    | .s_req_fragment =>
      if isUrlChar ch then s
      else if ch = chr '?' ∨ ch = chr '#' then s
      else .s_dead
    | _ => .s_dead

/-! ## Cutting a URL into its fields -/

/-- `enum http_parser_url_fields`. -/
inductive UrlField where
  | UF_SCHEMA | UF_HOST | UF_PORT | UF_PATH | UF_QUERY | UF_FRAGMENT | UF_USERINFO
  deriving DecidableEq, Repr

/-- An entry of `field_data`. -/
structure Slice where
  off : UInt16
  len : UInt16
  deriving DecidableEq, Repr

/-- `struct http_parser_url`. -/
structure HttpParserUrl where
  port : UInt16 := 0
  fields : UrlField → Option Slice := fun _ => none

def HttpParserUrl.put (u : HttpParserUrl) (uf : UrlField) (d : Slice) : HttpParserUrl :=
  { u with fields := fun k => if k = uf then some d else u.fields k }

/-- `field_data[uf].len++`. -/
def HttpParserUrl.grow (u : HttpParserUrl) (uf : UrlField) : HttpParserUrl :=
  match u.fields uf with
  | some d => u.put uf { d with len := d.len + 1 }
  | none => u

/-- The bytes of a field, as `std::string(buf + off, len)`. -/
def HttpParserUrl.text (u : HttpParserUrl) (uf : UrlField) (buf : Bytes) : Option Bytes :=
  (u.fields uf).map fun d => (buf.drop d.off.toNat).take d.len.toNat

/-- `enum http_host_state`. -/
inductive HostState where
  | s_http_host_dead
  | s_http_userinfo_start | s_http_userinfo
  | s_http_host_start | s_http_host_v6_start | s_http_host | s_http_host_v6 | s_http_host_v6_end
  | s_http_host_v6_zone_start | s_http_host_v6_zone
  | s_http_host_port_start | s_http_host_port
  deriving DecidableEq, Repr

def httpParseHostChar (s : HostState) (ch : UInt8) : HostState :=
  match s with
  | .s_http_userinfo | .s_http_userinfo_start =>
    if ch = chr '@' then .s_http_host_start
    else if isUserinfoChar ch then .s_http_userinfo
    else .s_http_host_dead
  | .s_http_host_start =>
    if ch = chr '[' then .s_http_host_v6_start
    else if isHostChar ch then .s_http_host
    else .s_http_host_dead
  | .s_http_host =>
    if isHostChar ch then .s_http_host
    else if ch = chr ':' then .s_http_host_port_start
    else .s_http_host_dead
  | .s_http_host_v6_end => if ch = chr ':' then .s_http_host_port_start else .s_http_host_dead
  | .s_http_host_v6 =>
    if ch = chr ']' then .s_http_host_v6_end
    else if isHex ch ∨ ch = chr ':' ∨ ch = chr '.' then .s_http_host_v6
    else if ch = chr '%' then .s_http_host_v6_zone_start
    else .s_http_host_dead
  | .s_http_host_v6_start =>
    if isHex ch ∨ ch = chr ':' ∨ ch = chr '.' then .s_http_host_v6 else .s_http_host_dead
  | .s_http_host_v6_zone =>
    if ch = chr ']' then .s_http_host_v6_end
    else if isAlphanum ch ∨ ch ∈ ascii "%.-_~" then .s_http_host_v6_zone
    else .s_http_host_dead
  | .s_http_host_v6_zone_start =>
    if isAlphanum ch ∨ ch ∈ ascii "%.-_~" then .s_http_host_v6_zone else .s_http_host_dead
  | .s_http_host_port | .s_http_host_port_start =>
    if isNum ch then .s_http_host_port else .s_http_host_dead
  | .s_http_host_dead => .s_http_host_dead

/-- What the loop of `http_parse_host` does at offset `i`, going from `s` to `new_s`. -/
def HttpParserUrl.host (u : HttpParserUrl) (s new_s : HostState) (i : UInt16) : HttpParserUrl :=
  -- a new field starts here unless the state says that it has started already
  let start (uf : UrlField) : HttpParserUrl := if s = new_s then u else u.put uf ⟨i, 0⟩
  match new_s with
  | .s_http_host | .s_http_host_v6 =>
    if s = new_s then u.grow .UF_HOST
    else (u.put .UF_HOST ⟨i, ((u.fields .UF_HOST).getD ⟨0, 0⟩).len⟩).grow .UF_HOST
  | .s_http_host_v6_zone_start | .s_http_host_v6_zone => u.grow .UF_HOST
  | .s_http_host_port => (start .UF_PORT).grow .UF_PORT
  | .s_http_userinfo => (start .UF_USERINFO).grow .UF_USERINFO
  | _ => u

/-- The loop of `http_parse_host`, from offset `i` on. -/
def httpParseHostLoop (s : HostState) (u : HttpParserUrl) (i : UInt16) :
    Bytes → Option (HostState × HttpParserUrl)
  | [] => some (s, u)
  | ch :: rest =>
    let new_s := httpParseHostChar s ch
    if new_s = .s_http_host_dead then none
    else httpParseHostLoop new_s (u.host s new_s i) (i + 1) rest

/-- `http_parse_host`; `none` is its nonzero result. -/
def httpParseHost (buf : Bytes) (u : HttpParserUrl) (found_at : Bool) : Option HttpParserUrl := do
  let d ← u.fields .UF_HOST
  let s := if found_at then .s_http_userinfo_start else .s_http_host_start
  let (s, u) ← httpParseHostLoop s (u.put .UF_HOST { d with len := 0 }) d.off
    ((buf.drop d.off.toNat).take d.len.toNat)
  -- the loop may not end somewhere unexpected
  match s with
  | .s_http_host_start | .s_http_host_v6_start | .s_http_host_v6 | .s_http_host_v6_zone_start
  | .s_http_host_v6_zone | .s_http_host_port_start | .s_http_userinfo | .s_http_userinfo_start => none
  | _ => some u

/-- The field a state of the URL belongs to; `none` at a delimiter. -/
def State.urlField : State → Option UrlField
  | .s_req_schema => some .UF_SCHEMA
  | .s_req_server_with_at | .s_req_server => some .UF_HOST
  | .s_req_path => some .UF_PATH
  | .s_req_query_string => some .UF_QUERY
  | .s_req_fragment => some .UF_FRAGMENT
  | _ => none

/-- The loop of `http_parser_parse_url`, from offset `i` on. -/
def parseUrlLoop (s : State) (old_uf : Option UrlField) (found_at : Bool) (u : HttpParserUrl)
    (i : UInt16) : Bytes → Option (Bool × HttpParserUrl)
  | [] => some (found_at, u)
  | ch :: rest =>
    let s := parseUrlChar s ch
    if s = .s_dead then none
    else
      match s.urlField with
      | none => parseUrlLoop s old_uf found_at u (i + 1) rest
      | some uf =>
        let found_at := found_at || s = .s_req_server_with_at
        let u := if old_uf = some uf then u.grow uf else u.put uf ⟨i, 1⟩
        parseUrlLoop s (some uf) found_at u (i + 1) rest

/-- The conversion of the digits of a port; `none` above 65535. -/
def parsePort (v : UInt64) : Bytes → Option UInt16
  | [] => some v.toUInt16
  | ch :: rest =>
    -- the difference is an `int`, below zero for a character before the digits
    let v := v * 10 + UInt64.ofInt (ch.toInt8.toInt - 48)
    if 0xffff < v then none else parsePort v rest

/-- `http_parser_parse_url`; `none` is its nonzero result. -/
def httpParserParseUrl (buf : Bytes) (is_connect : Bool) : Option HttpParserUrl := do
  if buf = [] then none
  let s := if is_connect then State.s_req_server_start else .s_req_spaces_before_url
  let (found_at, u) ← parseUrlLoop s none false {} 0 buf
  -- host must be present if there is a schema
  if (u.fields .UF_SCHEMA).isSome ∧ (u.fields .UF_HOST).isNone then none
  let u ← if (u.fields .UF_HOST).isSome then httpParseHost buf u found_at else some u
  -- CONNECT requests can only contain "hostname:port"
  if is_connect ∧ ¬ ∀ uf ∈ [UrlField.UF_SCHEMA, .UF_HOST, .UF_PORT, .UF_PATH, .UF_QUERY, .UF_FRAGMENT,
      .UF_USERINFO], (u.fields uf).isSome = (uf = .UF_HOST ∨ uf = .UF_PORT) then none
  match u.text .UF_PORT buf with
  | none => some u
  | some digits =>
    let port ← parsePort 0 digits
    some { u with port := port }

end Sylar.Http
