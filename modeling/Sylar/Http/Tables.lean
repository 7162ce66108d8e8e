import Mathlib.Data.List.Basic

/- The enumerations and character classes of `http-parser/http_parser.h` and
   `http-parser/http_parser.c`, as compiled in strict mode.

   A `char` is a byte. The source tests most classes on a signed `char` and some
   on an `unsigned char`; every class below answers alike for both, because none
   but `isHeaderChar` (which casts) holds of a byte from 128 on. The tables `tokens`,
   `unhex` and `normal_url_char` are written as the functions they tabulate. -/
namespace Sylar.Http

abbrev Bytes := List UInt8

/-- The code of an ASCII character. -/
def chr (c : Char) : UInt8 := UInt8.ofNat c.toNat

/-- The bytes of an ASCII text. -/
def ascii (s : String) : Bytes := s.toList.map chr

/-! ## Enumerations -/

/-- `enum http_parser_type`. -/
inductive ParserType where
  | HTTP_REQUEST
  | HTTP_RESPONSE
  | HTTP_BOTH
  deriving DecidableEq, Repr

/-- `HttpMethod`, `HTTP_METHOD_MAP` in its order; what stands before `INVALID_METHOD` is `enum http_method`. -/
inductive HttpMethod where
  | DELETE | GET | HEAD | POST | PUT
  | CONNECT | OPTIONS | TRACE
  | COPY | LOCK | MKCOL | MOVE | PROPFIND | PROPPATCH | SEARCH | UNLOCK | BIND | REBIND | UNBIND | ACL
  | REPORT | MKACTIVITY | CHECKOUT | MERGE
  | MSEARCH | NOTIFY | SUBSCRIBE | UNSUBSCRIBE
  | PATCH | PURGE
  | MKCALENDAR
  | LINK | UNLINK
  | SOURCE
  | INVALID_METHOD
  deriving DecidableEq, Repr

/-- `method_strings`, and `HttpMethodToString`. -/
def HttpMethod.string : HttpMethod → String
  | .DELETE => "DELETE" | .GET => "GET" | .HEAD => "HEAD" | .POST => "POST" | .PUT => "PUT"
  | .CONNECT => "CONNECT" | .OPTIONS => "OPTIONS" | .TRACE => "TRACE"
  | .COPY => "COPY" | .LOCK => "LOCK" | .MKCOL => "MKCOL" | .MOVE => "MOVE"
  | .PROPFIND => "PROPFIND" | .PROPPATCH => "PROPPATCH" | .SEARCH => "SEARCH" | .UNLOCK => "UNLOCK"
  | .BIND => "BIND" | .REBIND => "REBIND" | .UNBIND => "UNBIND" | .ACL => "ACL"
  | .REPORT => "REPORT" | .MKACTIVITY => "MKACTIVITY" | .CHECKOUT => "CHECKOUT" | .MERGE => "MERGE"
  | .MSEARCH => "M-SEARCH" | .NOTIFY => "NOTIFY" | .SUBSCRIBE => "SUBSCRIBE"
  | .UNSUBSCRIBE => "UNSUBSCRIBE"
  | .PATCH => "PATCH" | .PURGE => "PURGE"
  | .MKCALENDAR => "MKCALENDAR"
  | .LINK => "LINK" | .UNLINK => "UNLINK"
  | .SOURCE => "SOURCE"
  | .INVALID_METHOD => "<unknown>"

/-- The `F_*` values of `http_parser.flags`, one bit each. -/
structure Flags where
  chunked : Bool := false
  connectionKeepAlive : Bool := false
  connectionClose : Bool := false
  connectionUpgrade : Bool := false
  trailing : Bool := false
  upgrade : Bool := false
  skipbody : Bool := false
  contentlength : Bool := false
  deriving DecidableEq, Repr

/-- `enum http_errno`, in the order of `HTTP_ERRNO_MAP`. -/
inductive HttpErrno where
  | HPE_OK
  | HPE_CB_message_begin | HPE_CB_url | HPE_CB_header_field | HPE_CB_header_value
  | HPE_CB_headers_complete | HPE_CB_body | HPE_CB_message_complete | HPE_CB_status
  | HPE_CB_chunk_header | HPE_CB_chunk_complete
  | HPE_INVALID_EOF_STATE | HPE_HEADER_OVERFLOW | HPE_CLOSED_CONNECTION | HPE_INVALID_VERSION
  | HPE_INVALID_STATUS | HPE_INVALID_METHOD | HPE_INVALID_URL | HPE_INVALID_HOST | HPE_INVALID_PORT
  | HPE_INVALID_PATH | HPE_INVALID_QUERY_STRING | HPE_INVALID_FRAGMENT | HPE_LF_EXPECTED
  | HPE_INVALID_HEADER_TOKEN | HPE_INVALID_CONTENT_LENGTH | HPE_UNEXPECTED_CONTENT_LENGTH
  | HPE_INVALID_CHUNK_SIZE | HPE_INVALID_CONSTANT | HPE_INVALID_INTERNAL_STATE | HPE_STRICT
  | HPE_PAUSED | HPE_UNKNOWN
  deriving DecidableEq, Repr

/-- `enum state`. -/
inductive State where
  | s_dead
  | s_start_req_or_res | s_res_or_resp_H
  | s_start_res | s_res_H | s_res_HT | s_res_HTT | s_res_HTTP
  | s_res_http_major | s_res_http_dot | s_res_http_minor | s_res_http_end
  | s_res_first_status_code | s_res_status_code | s_res_status_start | s_res_status
  | s_res_line_almost_done
  | s_start_req
  | s_req_method | s_req_spaces_before_url
  | s_req_schema | s_req_schema_slash | s_req_schema_slash_slash
  | s_req_server_start | s_req_server | s_req_server_with_at
  | s_req_path | s_req_query_string_start | s_req_query_string
  | s_req_fragment_start | s_req_fragment
  | s_req_http_start | s_req_http_H | s_req_http_HT | s_req_http_HTT | s_req_http_HTTP
  | s_req_http_I | s_req_http_IC
  | s_req_http_major | s_req_http_dot | s_req_http_minor | s_req_http_end
  | s_req_line_almost_done
  | s_header_field_start | s_header_field
  | s_header_value_discard_ws | s_header_value_discard_ws_almost_done | s_header_value_discard_lws
  | s_header_value_start | s_header_value | s_header_value_lws
  | s_header_almost_done
  | s_chunk_size_start | s_chunk_size | s_chunk_parameters | s_chunk_size_almost_done
  | s_headers_almost_done | s_headers_done
  | s_chunk_data | s_chunk_data_almost_done | s_chunk_data_done
  | s_body_identity | s_body_identity_eof
  | s_message_done
  deriving DecidableEq, Repr

/-- `PARSING_HEADER`: the states up to `s_headers_done`. -/
def State.parsingHeader : State → Bool
  | .s_chunk_data | .s_chunk_data_almost_done | .s_chunk_data_done
  | .s_body_identity | .s_body_identity_eof | .s_message_done => false
  | _ => true

/-- `enum header_states`. -/
inductive HeaderState where
  | h_general | h_C | h_CO | h_CON
  | h_matching_connection | h_matching_proxy_connection | h_matching_content_length
  | h_matching_transfer_encoding | h_matching_upgrade
  | h_connection | h_content_length | h_content_length_num | h_content_length_ws
  | h_transfer_encoding | h_upgrade
  | h_matching_transfer_encoding_chunked
  | h_matching_connection_token_start | h_matching_connection_keep_alive
  | h_matching_connection_close | h_matching_connection_upgrade | h_matching_connection_token
  | h_transfer_encoding_chunked
  | h_connection_keep_alive | h_connection_close | h_connection_upgrade
  deriving DecidableEq, Repr

/-! ## Character classes -/

def CR : UInt8 := chr '\r'
def LF : UInt8 := chr '\n'

/-- `LOWER`. -/
def lower (c : UInt8) : UInt8 := c ||| 0x20

def isAlpha (c : UInt8) : Bool := chr 'a' ≤ lower c && lower c ≤ chr 'z'
def isNum (c : UInt8) : Bool := chr '0' ≤ c && c ≤ chr '9'
def isAlphanum (c : UInt8) : Bool := isAlpha c || isNum c
def isHex (c : UInt8) : Bool := isNum c || (chr 'a' ≤ lower c && lower c ≤ chr 'f')
def isMark (c : UInt8) : Bool := c ∈ ascii "-_.!~*'()"
def isUserinfoChar (c : UInt8) : Bool := isAlphanum c || isMark c || c ∈ ascii "%;:&=+$,"
def isHostChar (c : UInt8) : Bool := isAlphanum c || c = chr '.' || c = chr '-'

/-- `IS_URL_CHAR`, the table `normal_url_char`: the visible characters but `#` and `?`. -/
def isUrlChar (c : UInt8) : Bool := 32 < c && c < 127 && c != chr '#' && c != chr '?'

/-- `IS_HEADER_CHAR`. -/
def isHeaderChar (c : UInt8) : Bool := c = CR || c = LF || c = 9 || (31 < c && c != 127)

/-- `TOKEN`, the table `tokens` without the blank: the lower case of a character
that may stand in a token, 0 for any other. -/
def token (c : UInt8) : UInt8 :=
  if chr 'A' ≤ c && c ≤ chr 'Z' then lower c
  else if isAlphanum c || c ∈ ascii "!#$%&'*+-.^_`|~" then c
  else 0

/-- The table `unhex`, with `none` for -1. Only its first half is written out in the
source, so the bytes from 128 on have the value 0. -/
def unhex (c : UInt8) : Option UInt64 :=
  if isNum c then some (c - chr '0').toUInt64
  else if chr 'a' ≤ lower c && lower c ≤ chr 'f' then some (lower c - chr 'a' + 10).toUInt64
  else if 128 ≤ c then some 0
  else none

end Sylar.Http
