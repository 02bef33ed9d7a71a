import WsEngine.Ws.Handshake

/-! # The data of `http_parser`

The parser is the one of `http_parser_init(parser, HTTP_REQUEST)` in its strict build, with
`lenient_http_headers` left at 0. What only a response reaches is left out, and with it
`s_body_identity_eof`, since `http_message_needs_eof` is 0 for a request. The callbacks of the program
all return 0, so that none of them pauses the parser, fails or sets `F_SKIPBODY`. -/
set_option autoImplicit false

namespace WsEngine
namespace Http

def max_header_size : ℕ := 80 * 1024

def ULLONG_MAX : ℕ := 2 ^ 64 - 1

/-! ## Enumerations -/

inductive State
  | s_dead
  | s_start_req
  | s_req_method
  | s_req_spaces_before_url
  | s_req_schema
  | s_req_schema_slash
  | s_req_schema_slash_slash
  | s_req_server_start
  | s_req_server
  | s_req_server_with_at
  | s_req_path
  | s_req_query_string_start
  | s_req_query_string
  | s_req_fragment_start
  | s_req_fragment
  | s_req_http_start
  | s_req_http_H
  | s_req_http_HT
  | s_req_http_HTT
  | s_req_http_HTTP
  | s_req_http_I
  | s_req_http_IC
  | s_req_http_major
  | s_req_http_dot
  | s_req_http_minor
  | s_req_http_end
  | s_req_line_almost_done
  | s_header_field_start
  | s_header_field
  | s_header_value_discard_ws
  | s_header_value_discard_ws_almost_done
  | s_header_value_discard_lws
  | s_header_value_start
  | s_header_value
  | s_header_value_lws
  | s_header_almost_done
  | s_chunk_size_start
  | s_chunk_size
  | s_chunk_parameters
  | s_chunk_size_almost_done
  | s_headers_almost_done
  | s_headers_done
  | s_chunk_data
  | s_chunk_data_almost_done
  | s_chunk_data_done
  | s_body_identity
  | s_message_done
  deriving DecidableEq

/-- `state <= s_headers_done`. -/
def PARSING_HEADER : State → Bool
  | .s_chunk_data | .s_chunk_data_almost_done | .s_chunk_data_done | .s_body_identity
  | .s_message_done => false
  | _ => true

inductive HeaderState
  | h_general
  | h_C
  | h_CO
  | h_CON
  | h_matching_connection
  | h_matching_proxy_connection
  | h_matching_content_length
  | h_matching_transfer_encoding
  | h_matching_upgrade
  | h_connection
  | h_content_length
  | h_content_length_num
  | h_content_length_ws
  | h_transfer_encoding
  | h_upgrade
  | h_matching_transfer_encoding_chunked
  | h_matching_connection_token_start
  | h_matching_connection_keep_alive
  | h_matching_connection_close
  | h_matching_connection_upgrade
  | h_matching_connection_token
  | h_transfer_encoding_chunked
  | h_connection_keep_alive
  | h_connection_close
  | h_connection_upgrade
  deriving DecidableEq

inductive Errno
  | HPE_OK
  | HPE_INVALID_EOF_STATE
  | HPE_HEADER_OVERFLOW
  | HPE_CLOSED_CONNECTION
  | HPE_INVALID_VERSION
  | HPE_INVALID_METHOD
  | HPE_INVALID_URL
  | HPE_LF_EXPECTED
  | HPE_INVALID_HEADER_TOKEN
  | HPE_INVALID_CONTENT_LENGTH
  | HPE_UNEXPECTED_CONTENT_LENGTH
  | HPE_INVALID_CHUNK_SIZE
  | HPE_INVALID_CONSTANT
  | HPE_STRICT
  deriving DecidableEq

/-- `HTTP_METHOD_MAP`, in its order. -/
inductive Method
  | DELETE
  | GET
  | HEAD
  | POST
  | PUT
  | CONNECT
  | OPTIONS
  | TRACE
  | COPY
  | LOCK
  | MKCOL
  | MOVE
  | PROPFIND
  | PROPPATCH
  | SEARCH
  | UNLOCK
  | BIND
  | REBIND
  | UNBIND
  | ACL
  | REPORT
  | MKACTIVITY
  | CHECKOUT
  | MERGE
  | MSEARCH
  | NOTIFY
  | SUBSCRIBE
  | UNSUBSCRIBE
  | PATCH
  | PURGE
  | MKCALENDAR
  | LINK
  | UNLINK
  | SOURCE
  deriving DecidableEq

/-- The value of the enumeration. -/
def Method.number (method : Method) : ℕ := method.ctorIdx

def method_strings : Method → String
  | .DELETE => "DELETE"
  | .GET => "GET"
  | .HEAD => "HEAD"
  | .POST => "POST"
  | .PUT => "PUT"
  | .CONNECT => "CONNECT"
  | .OPTIONS => "OPTIONS"
  | .TRACE => "TRACE"
  | .COPY => "COPY"
  | .LOCK => "LOCK"
  | .MKCOL => "MKCOL"
  | .MOVE => "MOVE"
  | .PROPFIND => "PROPFIND"
  | .PROPPATCH => "PROPPATCH"
  | .SEARCH => "SEARCH"
  | .UNLOCK => "UNLOCK"
  | .BIND => "BIND"
  | .REBIND => "REBIND"
  | .UNBIND => "UNBIND"
  | .ACL => "ACL"
  | .REPORT => "REPORT"
  | .MKACTIVITY => "MKACTIVITY"
  | .CHECKOUT => "CHECKOUT"
  | .MERGE => "MERGE"
  | .MSEARCH => "M-SEARCH"
  | .NOTIFY => "NOTIFY"
  | .SUBSCRIBE => "SUBSCRIBE"
  | .UNSUBSCRIBE => "UNSUBSCRIBE"
  | .PATCH => "PATCH"
  | .PURGE => "PURGE"
  | .MKCALENDAR => "MKCALENDAR"
  | .LINK => "LINK"
  | .UNLINK => "UNLINK"
  | .SOURCE => "SOURCE"

/-- The `switch` over the first letter in `s_start_req`. -/
def methodOfLetter (ch : UInt8) : Option Method :=
  if ch = 'A'.toUInt8 then some .ACL
  else if ch = 'B'.toUInt8 then some .BIND
  else if ch = 'C'.toUInt8 then some .CONNECT
  else if ch = 'D'.toUInt8 then some .DELETE
  else if ch = 'G'.toUInt8 then some .GET
  else if ch = 'H'.toUInt8 then some .HEAD
  else if ch = 'L'.toUInt8 then some .LOCK
  else if ch = 'M'.toUInt8 then some .MKCOL
  else if ch = 'N'.toUInt8 then some .NOTIFY
  else if ch = 'O'.toUInt8 then some .OPTIONS
  else if ch = 'P'.toUInt8 then some .POST
  else if ch = 'R'.toUInt8 then some .REPORT
  else if ch = 'S'.toUInt8 then some .SUBSCRIBE
  else if ch = 'T'.toUInt8 then some .TRACE
  else if ch = 'U'.toUInt8 then some .UNLOCK
  else none

/-- The `switch` over method, position and letter in `s_req_method`. -/
def methodSwitch (method : Method) (pos : ℕ) (ch : UInt8) : Option Method :=
  let letter (c : Char) : Bool := ch == c.toUInt8
  match method, pos with
  | .POST, 1 =>
    if letter 'U' then some .PUT
    else if letter 'A' then some .PATCH
    else if letter 'R' then some .PROPFIND
    else none
  | .PUT, 2 => if letter 'R' then some .PURGE else none
  | .CONNECT, 1 => if letter 'H' then some .CHECKOUT else none
  | .CONNECT, 2 => if letter 'P' then some .COPY else none
  | .MKCOL, 1 =>
    if letter 'O' then some .MOVE
    else if letter 'E' then some .MERGE
    else if letter '-' then some .MSEARCH
    else none
  | .MKCOL, 2 => if letter 'A' then some .MKACTIVITY else none
  | .MKCOL, 3 => if letter 'A' then some .MKCALENDAR else none
  | .SUBSCRIBE, 1 =>
    if letter 'E' then some .SEARCH
    else if letter 'O' then some .SOURCE
    else none
  | .REPORT, 2 => if letter 'B' then some .REBIND else none
  | .PROPFIND, 4 => if letter 'P' then some .PROPPATCH else none
  | .LOCK, 1 => if letter 'I' then some .LINK else none
  | .UNLOCK, 2 =>
    if letter 'S' then some .UNSUBSCRIBE
    else if letter 'B' then some .UNBIND
    else none
  | .UNLOCK, 3 => if letter 'I' then some .UNLINK else none
  | _, _ => none

/-! ## Classes of characters -/

def CR : UInt8 := 13
def LF : UInt8 := 10
def SP : UInt8 := 32
def HT : UInt8 := 9
def FF : UInt8 := 12

def LOWER (ch : UInt8) : UInt8 := ch ||| 0x20

def IS_ALPHA (ch : UInt8) : Bool := 'a'.toUInt8 ≤ LOWER ch && LOWER ch ≤ 'z'.toUInt8

def IS_NUM (ch : UInt8) : Bool := '0'.toUInt8 ≤ ch && ch ≤ '9'.toUInt8

def IS_ALPHANUM (ch : UInt8) : Bool := IS_ALPHA ch || IS_NUM ch

def IS_MARK (ch : UInt8) : Bool := ch ∈ ascii "-_.!~*'()"

def IS_USERINFO_CHAR (ch : UInt8) : Bool := IS_ALPHANUM ch || IS_MARK ch || ch ∈ ascii "%;:&=+$,"

/-- `tokens[c]`, which is 0 for what is no token character, and `STRICT_TOKEN` for the blank. -/
def TOKEN (ch : UInt8) : UInt8 :=
  if IS_ALPHA ch then LOWER ch
  else if IS_NUM ch || ch ∈ ascii "!#$%&'*+-.^_`|~" then ch
  else 0

/-- `normal_url_char`: the visible characters other than those of a query and a fragment. -/
def IS_URL_CHAR (ch : UInt8) : Bool :=
  SP < ch && ch < 127 && ch != '#'.toUInt8 && ch != '?'.toUInt8

def IS_HEADER_CHAR (ch : UInt8) : Bool :=
  ch == CR || ch == LF || ch == HT || (31 < ch && ch != 127)

/-- The table `unhex`, whose second half has no initializers and holds 0. -/
def unhex (ch : UInt8) : Option ℕ :=
  if IS_NUM ch then some (ch.toNat - 48)
  else if 'a'.toUInt8 ≤ LOWER ch && LOWER ch ≤ 'f'.toUInt8 then some ((LOWER ch).toNat - 97 + 10)
  else if 128 ≤ ch then some 0
  else none

/-! ## The parser -/

structure Flags where
  F_CHUNKED : Bool
  F_CONNECTION_KEEP_ALIVE : Bool
  F_CONNECTION_CLOSE : Bool
  F_CONNECTION_UPGRADE : Bool
  F_TRAILING : Bool
  F_UPGRADE : Bool
  F_CONTENTLENGTH : Bool
  deriving DecidableEq

def Flags.zero : Flags := ⟨false, false, false, false, false, false, false⟩

structure Parser where
  flags : Flags
  state : State
  header_state : HeaderState
  index : ℕ
  nread : ℕ
  content_length : ℕ
  http_major : ℕ
  http_minor : ℕ
  method : Method
  http_errno : Errno
  upgrade : Bool
  deriving DecidableEq

/-- `http_parser_init` with `HTTP_REQUEST`, after the `memset`. -/
def http_parser_init : Parser where
  flags := .zero
  state := .s_start_req
  header_state := .h_general
  index := 0
  nread := 0
  content_length := 0
  http_major := 0
  http_minor := 0
  method := .DELETE
  http_errno := .HPE_OK
  upgrade := false

namespace Parser

/-- What a callback can read of the request. -/
def request (p : Parser) : RequestLine := ⟨p.method.number, p.http_major, p.http_minor⟩

def http_should_keep_alive (p : Parser) : Bool :=
  if p.http_major > 0 && p.http_minor > 0 then !p.flags.F_CONNECTION_CLOSE
  else p.flags.F_CONNECTION_KEEP_ALIVE

def NEW_MESSAGE (p : Parser) : State :=
  if p.http_should_keep_alive then .s_start_req else .s_dead

end Parser

/-! ## The URL parser -/

def parse_url_char (s : State) (ch : UInt8) : State :=
  if ch = SP ∨ ch = CR ∨ ch = LF then .s_dead
  else if ch = HT ∨ ch = FF then .s_dead
  else
    let is (c : Char) : Bool := ch == c.toUInt8
    let server : State :=
      if is '/' then .s_req_path
      else if is '?' then .s_req_query_string_start
      else if is '@' then .s_req_server_with_at
      else if IS_USERINFO_CHAR ch || is '[' || is ']' then .s_req_server
      else .s_dead
    match s with
    | .s_req_spaces_before_url =>
      if is '/' || is '*' then .s_req_path
      else if IS_ALPHA ch then .s_req_schema
      else .s_dead
    | .s_req_schema =>
      if IS_ALPHA ch then s
      else if is ':' then .s_req_schema_slash
      else .s_dead
    | .s_req_schema_slash => if is '/' then .s_req_schema_slash_slash else .s_dead
    | .s_req_schema_slash_slash => if is '/' then .s_req_server_start else .s_dead
    | .s_req_server_with_at => if is '@' then .s_dead else server
    | .s_req_server_start | .s_req_server => server
    | .s_req_path =>
      if IS_URL_CHAR ch then s
      else if is '?' then .s_req_query_string_start
      else if is '#' then .s_req_fragment_start
      else .s_dead
    | .s_req_query_string_start | .s_req_query_string =>
      if IS_URL_CHAR ch then .s_req_query_string
      else if is '?' then .s_req_query_string
      else if is '#' then .s_req_fragment_start
      else .s_dead
    | .s_req_fragment_start =>
      if IS_URL_CHAR ch then .s_req_fragment
      else if is '?' then .s_req_fragment
      else if is '#' then s
      else .s_dead
    | .s_req_fragment =>
      if IS_URL_CHAR ch then s
      else if is '?' || is '#' then s
      else .s_dead
    | _ => .s_dead

end Http
end WsEngine
