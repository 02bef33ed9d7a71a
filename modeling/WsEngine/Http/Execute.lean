import WsEngine.Http.Model
import WsEngine.Lib.Slices

/-! # `http_parser_execute`

A case of the `switch` yields the parser and what its macros did, in order; `REEXECUTE` is the case of
the state that was set just before. `p` is known by the bytes it has advanced over, and a
mark by the bytes between it and `p`. The loops inside the states `s_header_field` and
`s_header_value` are loops of their own, with the one inside `h_general` as a number of bytes that they
skip. -/
set_option autoImplicit false

namespace WsEngine
namespace Http
open Slices (advanced)

/-- What the marks are set for. -/
inductive Data
  | header_field
  | header_value
  | url
  | body
  deriving DecidableEq

inductive Notice
  | message_begin
  | headers_complete (request : RequestLine)
  | message_complete
  | chunk_header
  | chunk_complete

/-- A callback of `http_parser_settings`. -/
abbrev Call := Slices.Call Data UInt8 Notice

/-- What a macro does: `MARK`, `CALLBACK_DATA` up to `p` or through the byte at `p`, `CALLBACK_NOTIFY`
and `p++`. -/
abbrev Action := Slices.Action Data UInt8 Notice

/-! ## The macros -/

/-- How a pass of the loop ends: in `break`, in `goto error`, in `RETURN((p - data) + 1)`, or in an
assertion that fails. -/
inductive Flow
  | goes (p : Parser) (actions : List Action)
  | fails (p : Parser) (actions : List Action)
  | exits (p : Parser) (actions : List Action)
  | aborts

namespace Flow

def after (actions : List Action) : Flow → Flow
  | .goes p more => .goes p (actions ++ more)
  | .fails p more => .fails p (actions ++ more)
  | .exits p more => .exits p (actions ++ more)
  | .aborts => .aborts

def andThen (flow : Flow) (k : Parser → Flow) : Flow :=
  match flow with
  | .goes p actions => (k p).after actions
  | .fails p actions => .fails p actions
  | .exits p actions => .exits p actions
  | .aborts => .aborts

end Flow

/-- `SET_ERRNO(e); goto error`. -/
def Parser.error (p : Parser) (e : Errno) : Flow := .fails { p with http_errno := e } []

def STRICT_CHECK (p : Parser) (cond : Bool) (k : Flow) : Flow :=
  if cond then p.error .HPE_STRICT else k

/-- `assert(cond)`. -/
def assert (cond : Bool) (k : Flow) : Flow := if cond then k else .aborts

/-- With `nread` a `uint32_t`. -/
def COUNT_HEADER_SIZE (v : ℕ) (p : Parser) : Flow :=
  let p := { p with nread := (p.nread + v) % 2 ^ 32 }
  if p.nread > max_header_size then p.error .HPE_HEADER_OVERFLOW else .goes p []

/-- `UPDATE_STATE(state)` and `break`. -/
def Parser.to (p : Parser) (state : State) : Flow := .goes { p with state := state } []

/-! ## The request line -/

def startReq (p : Parser) (ch : UInt8) : Flow :=
  if ch = CR ∨ ch = LF then .goes p []
  else
    let p := { p with
      flags := .zero
      content_length := ULLONG_MAX }
    if !IS_ALPHA ch then p.error .HPE_INVALID_METHOD
    else
      match methodOfLetter ch with
      | none => { p with
          method := .DELETE
          index := 1 }.error .HPE_INVALID_METHOD
      | some method => .goes { p with
          method := method
          index := 1
          state := .s_req_method } [.notify .message_begin]

def reqMethod (p : Parser) (ch : UInt8) : Flow :=
  -- with the terminator of `method_strings[parser->method]`
  let matcher := (ascii (method_strings p.method)).getD p.index 0
  if ch = 0 then p.error .HPE_INVALID_METHOD
  else if ch = SP ∧ matcher = 0 then .goes { p with
    state := .s_req_spaces_before_url
    index := p.index + 1 } []
  else if ch = matcher then .goes { p with index := p.index + 1 } []
  else if ('A'.toUInt8 ≤ ch ∧ ch ≤ 'Z'.toUInt8) ∨ ch = '-'.toUInt8 then
    match methodSwitch p.method p.index ch with
    | none => p.error .HPE_INVALID_METHOD
    | some method => .goes { p with
        method := method
        index := p.index + 1 } []
  else p.error .HPE_INVALID_METHOD

/-- `UPDATE_STATE(parse_url_char(CURRENT_STATE(), ch))`, and the check that follows. -/
def updateUrl (p : Parser) (ch : UInt8) : Flow :=
  let p := { p with state := parse_url_char p.state ch }
  if p.state = .s_dead then p.error .HPE_INVALID_URL else .goes p []

def reqSpacesBeforeUrl (p : Parser) (ch : UInt8) : Flow :=
  if ch = SP then .goes p []
  else if p.method = .CONNECT then
    (updateUrl { p with state := .s_req_server_start } ch).after [.mark .url]
  else (updateUrl p ch).after [.mark .url]

/-- `s_req_schema`, `s_req_schema_slash`, `s_req_schema_slash_slash` and `s_req_server_start`. -/
def reqSchema (p : Parser) (ch : UInt8) : Flow :=
  if ch = SP ∨ ch = CR ∨ ch = LF then p.error .HPE_INVALID_URL else updateUrl p ch

/-- The other states inside the URL. -/
def reqUrl (p : Parser) (ch : UInt8) : Flow :=
  if ch = SP then .goes { p with state := .s_req_http_start } [.slice .url]
  else if ch = CR ∨ ch = LF then .goes { p with
    http_major := 0
    http_minor := 9
    state := if ch = CR then .s_req_line_almost_done else .s_header_field_start } [.slice .url]
  else updateUrl p ch

def reqHttpStart (p : Parser) (ch : UInt8) : Flow :=
  if ch = SP then .goes p []
  else if ch = 'H'.toUInt8 then p.to .s_req_http_H
  else if ch = 'I'.toUInt8 ∧ p.method = .SOURCE then p.to .s_req_http_I
  else p.error .HPE_INVALID_CONSTANT

/-- A letter of `HTTP` or `ICE`, and the slash. -/
def reqHttpLetter (p : Parser) (ch : UInt8) (letter : Char) (state : State) : Flow :=
  STRICT_CHECK p (ch != letter.toUInt8) (p.to state)

def reqHttpMajor (p : Parser) (ch : UInt8) : Flow :=
  if !IS_NUM ch then p.error .HPE_INVALID_VERSION
  else { p with http_major := ch.toNat - 48 }.to .s_req_http_dot

def reqHttpDot (p : Parser) (ch : UInt8) : Flow :=
  if ch ≠ '.'.toUInt8 then p.error .HPE_INVALID_VERSION else p.to .s_req_http_minor

def reqHttpMinor (p : Parser) (ch : UInt8) : Flow :=
  if !IS_NUM ch then p.error .HPE_INVALID_VERSION
  else { p with http_minor := ch.toNat - 48 }.to .s_req_http_end

def reqHttpEnd (p : Parser) (ch : UInt8) : Flow :=
  if ch = CR then p.to .s_req_line_almost_done
  else if ch = LF then p.to .s_header_field_start
  else p.error .HPE_INVALID_VERSION

def reqLineAlmostDone (p : Parser) (ch : UInt8) : Flow :=
  if ch ≠ LF then p.error .HPE_LF_EXPECTED else p.to .s_header_field_start

/-! ## The end of the headers, and of the message -/

/-- `UPDATE_STATE(NEW_MESSAGE()); CALLBACK_NOTIFY(message_complete)`. -/
def newMessage (p : Parser) : Flow :=
  .goes { p with state := p.NEW_MESSAGE } [.notify .message_complete]

/-- `RETURN((p - data) + 1)` where the flow would have gone on. -/
def Flow.return : Flow → Flow
  | .goes p actions => .exits p actions
  | flow => flow

def messageDone (p : Parser) : Flow :=
  if p.upgrade then (newMessage p).return else newMessage p

def hasBody (p : Parser) : Bool :=
  p.flags.F_CHUNKED || (p.content_length > 0 && p.content_length != ULLONG_MAX)

def headersDone (p : Parser) (ch : UInt8) : Flow :=
  STRICT_CHECK p (ch != LF) <|
    let p := { p with nread := 0 }
    if p.upgrade && (p.method == .CONNECT || !hasBody p) then (newMessage p).return
    else if p.flags.F_CHUNKED then p.to .s_chunk_size_start
    else if p.content_length = 0 then newMessage p
    else if p.content_length ≠ ULLONG_MAX then p.to .s_body_identity
    else newMessage p

def headersAlmostDone (p : Parser) (ch : UInt8) : Flow :=
  STRICT_CHECK p (ch != LF) <|
    if p.flags.F_TRAILING then
      (messageDone { p with state := .s_message_done }).after [.notify .chunk_complete]
    else if p.flags.F_CHUNKED && p.flags.F_CONTENTLENGTH then
      p.error .HPE_UNEXPECTED_CONTENT_LENGTH
    else
      let p := { p with
        state := .s_headers_done
        upgrade := (p.flags.F_UPGRADE && p.flags.F_CONNECTION_UPGRADE) || p.method == .CONNECT }
      (headersDone p ch).after [.notify (.headers_complete p.request)]

/-! ## The name of a header -/

/-- The first letter of the name, lowercased. -/
def headerStateOfLetter (c : UInt8) : HeaderState :=
  if c = 'c'.toUInt8 then .h_C
  else if c = 'p'.toUInt8 then .h_matching_proxy_connection
  else if c = 't'.toUInt8 then .h_matching_transfer_encoding
  else if c = 'u'.toUInt8 then .h_matching_upgrade
  else .h_general

def headerFieldStart (p : Parser) (ch : UInt8) : Flow :=
  if ch = CR then p.to .s_headers_almost_done
  else if ch = LF then headersAlmostDone { p with state := .s_headers_almost_done } ch
  else if TOKEN ch = 0 then p.error .HPE_INVALID_HEADER_TOKEN
  else .goes { p with
    index := 0
    state := .s_header_field
    header_state := headerStateOfLetter (TOKEN ch) } [.mark .header_field]

def CONNECTION : Bytes := ascii "connection"
def PROXY_CONNECTION : Bytes := ascii "proxy-connection"
def CONTENT_LENGTH : Bytes := ascii "content-length"
def TRANSFER_ENCODING : Bytes := ascii "transfer-encoding"
def UPGRADE : Bytes := ascii "upgrade"
def CHUNKED : Bytes := ascii "chunked"
def KEEP_ALIVE : Bytes := ascii "keep-alive"
def CLOSE : Bytes := ascii "close"

/-- Comparing with the next character of a word, at the `index` that was just increased: the header
state where it differs, where it is the last one, and otherwise. -/
def matchWord (word : Bytes) (index : ℕ) (c : UInt8) (differs ends goes : HeaderState) :
    HeaderState :=
  if index > word.length ∨ c ≠ word.getD index 0 then differs
  else if index = word.length - 1 then ends
  else goes

/-- The `switch` over `header_state`, with `c` the token character. -/
def fieldChar (p : Parser) (c : UInt8) : Option Parser :=
  let index := p.index + 1
  let matching (word : Bytes) (ends : HeaderState) : Option Parser := some { p with
    index := index
    header_state := matchWord word index c .h_general ends p.header_state }
  match p.header_state with
  | .h_general => some p
  | .h_C => some { p with
      index := index
      header_state := if c = 'o'.toUInt8 then .h_CO else .h_general }
  | .h_CO => some { p with
      index := index
      header_state := if c = 'n'.toUInt8 then .h_CON else .h_general }
  | .h_CON => some { p with
      index := index
      header_state :=
        if c = 'n'.toUInt8 then .h_matching_connection
        else if c = 't'.toUInt8 then .h_matching_content_length
        else .h_general }
  | .h_matching_connection => matching CONNECTION .h_connection
  | .h_matching_proxy_connection => matching PROXY_CONNECTION .h_connection
  | .h_matching_content_length => matching CONTENT_LENGTH .h_content_length
  | .h_matching_transfer_encoding => matching TRANSFER_ENCODING .h_transfer_encoding
  | .h_matching_upgrade => matching UPGRADE .h_upgrade
  | .h_connection | .h_content_length | .h_transfer_encoding | .h_upgrade =>
    -- `ch` is a token character, and no blank
    some { p with header_state := .h_general }
  -- `assert(0 && "Unknown header_state")`
  | _ => none

/-- `while (p+1 < pe && TOKEN(p[1])) p++`, with `rest` the bytes from `p+1` on. -/
def fieldSkip (rest : Bytes) : ℕ :=
  ((rest.take (max_header_size - 1)).takeWhile fun ch => TOKEN ch ≠ 0).length

/-- The loop of `s_header_field` up to what is no token character. -/
def fieldLoop : ℕ → Bytes → Parser → Flow
  | _, [], p => .goes p []
  | k + 1, ch :: rest, p => (fieldLoop k rest p).after [.advance ch]
  | 0, ch :: rest, p =>
    if TOKEN ch = 0 then .goes p []
    else
      match fieldChar p (TOKEN ch) with
      | none => .aborts
      | some p' =>
        (fieldLoop (if p.header_state = .h_general then fieldSkip rest else 0) rest p').after
          [.advance ch]

/-- What follows the loop, which stopped before `rest`. -/
def fieldStop (p : Parser) (taken : List Action) (rest : Bytes) : Flow :=
  match rest with
  -- `--p`
  | [] => (COUNT_HEADER_SIZE (taken.length - 1) p).after taken.dropLast
  | ch :: _ =>
    ((COUNT_HEADER_SIZE taken.length p).andThen fun p =>
      if ch = ':'.toUInt8 then
        .goes { p with state := .s_header_value_discard_ws } [.slice .header_field]
      else p.error .HPE_INVALID_HEADER_TOKEN).after taken

def headerField (p : Parser) (bytes : Bytes) : Flow :=
  match fieldLoop 0 bytes p with
  | .goes p taken => fieldStop p taken (bytes.drop taken.length)
  | flow => flow

/-! ## The value of a header -/

/-- The `switch` over the header state at the first character of the value. -/
def headerValueStart (p : Parser) (ch : UInt8) : Flow :=
  let p := { p with
    state := .s_header_value
    index := 0 }
  let c := LOWER ch
  let value (header_state : HeaderState) : Flow :=
    .goes { p with header_state := header_state } [.mark .header_value]
  match p.header_state with
  | .h_upgrade => .goes { p with
      flags := { p.flags with F_UPGRADE := true }
      header_state := .h_general } [.mark .header_value]
  | .h_transfer_encoding =>
    if c = 'c'.toUInt8 then value .h_matching_transfer_encoding_chunked else value .h_general
  | .h_content_length =>
    if !IS_NUM ch then (p.error .HPE_INVALID_CONTENT_LENGTH).after [.mark .header_value]
    else if p.flags.F_CONTENTLENGTH then
      (p.error .HPE_UNEXPECTED_CONTENT_LENGTH).after [.mark .header_value]
    else .goes { p with
      flags := { p.flags with F_CONTENTLENGTH := true }
      content_length := ch.toNat - 48
      header_state := .h_content_length_num } [.mark .header_value]
  | .h_content_length_ws => value .h_content_length_ws
  | .h_connection =>
    if c = 'k'.toUInt8 then value .h_matching_connection_keep_alive
    else if c = 'c'.toUInt8 then value .h_matching_connection_close
    else if c = 'u'.toUInt8 then value .h_matching_connection_upgrade
    else value .h_matching_connection_token
  | .h_matching_connection_token_start => value .h_matching_connection_token_start
  | _ => value .h_general

def headerValueDiscardWs (p : Parser) (ch : UInt8) : Flow :=
  if ch = SP ∨ ch = HT then .goes p []
  else if ch = CR then p.to .s_header_value_discard_ws_almost_done
  else if ch = LF then p.to .s_header_value_discard_lws
  else headerValueStart p ch

inductive Fault
  | errno (e : Errno)
  | assertion

/-- `h_content_length_num`, with `content_length` a `uint64_t`. -/
def contentLengthNum (p : Parser) (ch : UInt8) : Except Fault (HeaderState × Parser) :=
  if ch = SP then .ok (.h_content_length_ws, p)
  else if !IS_NUM ch then .error (.errno .HPE_INVALID_CONTENT_LENGTH)
  else if (ULLONG_MAX - 10) / 10 < p.content_length then
    .error (.errno .HPE_INVALID_CONTENT_LENGTH)
  else .ok (.h_content_length_num, { p with
    content_length := (p.content_length * 10 + (ch.toNat - 48)) % 2 ^ 64 })

/-- The flag that a connection token or a transfer coding sets when it is complete. -/
def setFlag (flags : Flags) : HeaderState → Flags
  | .h_connection_keep_alive => { flags with F_CONNECTION_KEEP_ALIVE := true }
  | .h_connection_close => { flags with F_CONNECTION_CLOSE := true }
  | .h_connection_upgrade => { flags with F_CONNECTION_UPGRADE := true }
  | .h_transfer_encoding_chunked => { flags with F_CHUNKED := true }
  | _ => flags

/-- The `switch` over `h_state` other than `h_general`. -/
def valueChar (h_state : HeaderState) (p : Parser) (ch : UInt8) :
    Except Fault (HeaderState × Parser) :=
  let c := LOWER ch
  let index := p.index + 1
  let matching (word : Bytes) (differs ends : HeaderState) : Except Fault (HeaderState × Parser) :=
    .ok (matchWord word index c differs ends h_state, { p with index := index })
  let listed : Except Fault (HeaderState × Parser) :=
    if ch = ','.toUInt8 then .ok (.h_matching_connection_token_start, { p with
      flags := setFlag p.flags h_state
      index := 0 })
    else if ch ≠ SP then .ok (.h_matching_connection_token, p)
    else .ok (h_state, p)
  match h_state with
  -- `assert(0 && "Shouldn't get here.")`
  | .h_connection | .h_transfer_encoding => .error .assertion
  | .h_content_length => if ch = SP then .ok (h_state, p) else contentLengthNum p ch
  | .h_content_length_num => contentLengthNum p ch
  | .h_content_length_ws =>
    if ch = SP then .ok (h_state, p) else .error (.errno .HPE_INVALID_CONTENT_LENGTH)
  | .h_matching_transfer_encoding_chunked =>
    matching CHUNKED .h_general .h_transfer_encoding_chunked
  | .h_matching_connection_token_start =>
    if c = 'k'.toUInt8 then .ok (.h_matching_connection_keep_alive, p)
    else if c = 'c'.toUInt8 then .ok (.h_matching_connection_close, p)
    else if c = 'u'.toUInt8 then .ok (.h_matching_connection_upgrade, p)
    else if TOKEN c ≠ 0 then .ok (.h_matching_connection_token, p)
    else if c = SP ∨ c = HT then .ok (h_state, p)
    else .ok (.h_general, p)
  | .h_matching_connection_keep_alive =>
    matching KEEP_ALIVE .h_matching_connection_token .h_connection_keep_alive
  | .h_matching_connection_close => matching CLOSE .h_matching_connection_token .h_connection_close
  | .h_matching_connection_upgrade =>
    matching UPGRADE .h_matching_connection_token .h_connection_upgrade
  | .h_matching_connection_token =>
    if ch = ','.toUInt8 then .ok (.h_matching_connection_token_start, { p with index := 0 })
    else .ok (h_state, p)
  | .h_transfer_encoding_chunked => if ch ≠ SP then .ok (.h_general, p) else .ok (h_state, p)
  | .h_connection_keep_alive | .h_connection_close | .h_connection_upgrade => listed
  | _ => .ok (.h_general, p)

/-- A character that the loop of `h_general` passes. -/
def passes (ch : UInt8) : Bool := ch != CR && ch != LF && IS_HEADER_CHAR ch

/-- `for (; p != pe; p++)` from `p` on: it stops at a line end or at the end of its window, and steps
back where the next round of the outer loop looks at the byte that stopped it. The byte behind a full
window is not looked at. Where the stop is a character that no header has, `none`. -/
def valueSkip (bytes : Bytes) : Option ℕ :=
  let window := bytes.take max_header_size
  let run := (window.takeWhile passes).length
  match window.drop run with
  | [] => if bytes.length ≤ max_header_size then some (run - 1) else some run
  | ch :: _ => if ch = CR ∨ ch = LF then some (run - 1) else none

/-- The loop of `s_header_value` up to a line end. `parser->header_state` is written when it ends, and
where `Content-Length` is wrong. -/
def valueLoop : ℕ → Bytes → HeaderState → Parser → Flow
  | _, [], h_state, p => .goes { p with header_state := h_state } []
  | k + 1, ch :: rest, h_state, p => (valueLoop k rest h_state p).after [.advance ch]
  | 0, ch :: rest, h_state, p =>
    if ch = CR ∨ ch = LF then .goes { p with header_state := h_state } []
    else if !IS_HEADER_CHAR ch then p.error .HPE_INVALID_HEADER_TOKEN
    else if h_state = .h_general then
      match valueSkip (ch :: rest) with
      | none => (p.error .HPE_INVALID_HEADER_TOKEN).after
          (((ch :: rest).takeWhile passes).map .advance)
      | some k => (valueLoop k rest h_state p).after [.advance ch]
    else
      match valueChar h_state p ch with
      | .ok (h_state, p) => (valueLoop 0 rest h_state p).after [.advance ch]
      | .error (.errno e) => { p with header_state := h_state }.error e
      | .error .assertion => .aborts

def headerAlmostDone (p : Parser) (ch : UInt8) : Flow :=
  if ch ≠ LF then p.error .HPE_LF_EXPECTED else p.to .s_header_value_lws

/-- What follows the loop, which left `h_state` and stopped before `rest`. -/
def valueStop (p : Parser) (h_state : HeaderState) (taken : List Action) (rest : Bytes) : Flow :=
  match rest with
  -- `--p`
  | [] => (COUNT_HEADER_SIZE (taken.length - 1) { p with header_state := h_state }).after
      taken.dropLast
  | ch :: _ =>
    let p := { p with state := .s_header_almost_done }
    if ch = CR then (COUNT_HEADER_SIZE taken.length { p with header_state := h_state }).after
      (taken ++ [.slice .header_value])
    -- at a line feed the count comes first
    else ((COUNT_HEADER_SIZE taken.length p).andThen fun p =>
      (headerAlmostDone { p with header_state := h_state } ch).after [.slice .header_value]).after
        taken

def headerValue (p : Parser) (bytes : Bytes) : Flow :=
  match valueLoop 0 bytes p.header_state p with
  | .goes q taken => valueStop { q with header_state := p.header_state } q.header_state taken
      (bytes.drop taken.length)
  | flow => flow

def headerValueLws (p : Parser) (ch : UInt8) : Flow :=
  if ch = SP ∨ ch = HT then
    headerValueStart { p with
      header_state := if p.header_state = .h_content_length_num then .h_content_length_ws
        else p.header_state
      state := .s_header_value_start } ch
  else headerFieldStart { p with
    flags := setFlag p.flags p.header_state
    state := .s_header_field_start } ch

def headerValueDiscardLws (p : Parser) (ch : UInt8) : Flow :=
  if ch = SP ∨ ch = HT then p.to .s_header_value_discard_ws
  else if p.header_state = .h_content_length then p.error .HPE_INVALID_CONTENT_LENGTH
  else (headerFieldStart { p with
    flags := setFlag p.flags p.header_state
    state := .s_header_field_start } ch).after [.mark .header_value, .slice .header_value]

/-! ## The body -/

/-- `p += to_read - 1`, which leaves `p` at the last byte that is read. -/
def readBody (p : Parser) (bytes : Bytes) (k : Parser → UInt8 → Flow) : Flow :=
  let to_read := min p.content_length bytes.length
  (k { p with content_length := p.content_length - to_read } (bytes.getD (to_read - 1) 0)).after
    (.mark .body :: (bytes.take (to_read - 1)).map .advance)

def bodyIdentity (p : Parser) (bytes : Bytes) : Flow :=
  assert (p.content_length != 0 && p.content_length != ULLONG_MAX) <|
    readBody p bytes fun p ch =>
      if p.content_length = 0 then
        (messageDone { p with state := .s_message_done }).after [.sliceThrough .body ch]
      else .goes p []

def chunkSizeStart (p : Parser) (ch : UInt8) : Flow :=
  assert (p.nread == 1) <| assert p.flags.F_CHUNKED <|
    match unhex ch with
    | none => p.error .HPE_INVALID_CHUNK_SIZE
    | some unhex_val => { p with content_length := unhex_val }.to .s_chunk_size

def chunkSize (p : Parser) (ch : UInt8) : Flow :=
  assert p.flags.F_CHUNKED <|
    if ch = CR then p.to .s_chunk_size_almost_done
    else
      match unhex ch with
      | none =>
        if ch = ';'.toUInt8 ∨ ch = SP then p.to .s_chunk_parameters
        else p.error .HPE_INVALID_CHUNK_SIZE
      | some unhex_val =>
        if (ULLONG_MAX - 16) / 16 < p.content_length then p.error .HPE_INVALID_CONTENT_LENGTH
        else .goes { p with content_length := (p.content_length * 16 + unhex_val) % 2 ^ 64 } []

def chunkParameters (p : Parser) (ch : UInt8) : Flow :=
  assert p.flags.F_CHUNKED <|
    if ch = CR then p.to .s_chunk_size_almost_done else .goes p []

def chunkSizeAlmostDone (p : Parser) (ch : UInt8) : Flow :=
  assert p.flags.F_CHUNKED <| STRICT_CHECK p (ch != LF) <|
    let p := { p with nread := 0 }
    if p.content_length = 0 then .goes { p with
      flags := { p.flags with F_TRAILING := true }
      state := .s_header_field_start } [.notify .chunk_header]
    else .goes { p with state := .s_chunk_data } [.notify .chunk_header]

def chunkData (p : Parser) (bytes : Bytes) : Flow :=
  assert p.flags.F_CHUNKED <| assert (p.content_length != 0 && p.content_length != ULLONG_MAX) <|
    readBody p bytes fun p _ =>
      if p.content_length = 0 then p.to .s_chunk_data_almost_done else .goes p []

def chunkDataAlmostDone (p : Parser) (ch : UInt8) : Flow :=
  assert p.flags.F_CHUNKED <| assert (p.content_length == 0) <| STRICT_CHECK p (ch != CR) <|
    .goes { p with state := .s_chunk_data_done } [.slice .body]

def chunkDataDone (p : Parser) (ch : UInt8) : Flow :=
  assert p.flags.F_CHUNKED <| STRICT_CHECK p (ch != LF) <|
    .goes { p with
      nread := 0
      state := .s_chunk_size_start } [.notify .chunk_complete]

/-! ## The loop -/

def dead (p : Parser) (ch : UInt8) : Flow :=
  if ch = CR ∨ ch = LF then .goes p [] else p.error .HPE_CLOSED_CONNECTION

/-- The `switch` over the state, with `bytes` the data from `p` on and `ch` the first of it. -/
def pass (p : Parser) (ch : UInt8) (bytes : Bytes) : Flow :=
  match p.state with
  | .s_dead => dead p ch
  | .s_start_req => startReq p ch
  | .s_req_method => reqMethod p ch
  | .s_req_spaces_before_url => reqSpacesBeforeUrl p ch
  | .s_req_schema | .s_req_schema_slash | .s_req_schema_slash_slash | .s_req_server_start =>
    reqSchema p ch
  | .s_req_server | .s_req_server_with_at | .s_req_path | .s_req_query_string_start
  | .s_req_query_string | .s_req_fragment_start | .s_req_fragment => reqUrl p ch
  | .s_req_http_start => reqHttpStart p ch
  | .s_req_http_H => reqHttpLetter p ch 'T' .s_req_http_HT
  | .s_req_http_HT => reqHttpLetter p ch 'T' .s_req_http_HTT
  | .s_req_http_HTT => reqHttpLetter p ch 'P' .s_req_http_HTTP
  | .s_req_http_I => reqHttpLetter p ch 'C' .s_req_http_IC
  | .s_req_http_IC => reqHttpLetter p ch 'E' .s_req_http_HTTP
  | .s_req_http_HTTP => reqHttpLetter p ch '/' .s_req_http_major
  | .s_req_http_major => reqHttpMajor p ch
  | .s_req_http_dot => reqHttpDot p ch
  | .s_req_http_minor => reqHttpMinor p ch
  | .s_req_http_end => reqHttpEnd p ch
  | .s_req_line_almost_done => reqLineAlmostDone p ch
  | .s_header_field_start => headerFieldStart p ch
  | .s_header_field => headerField p bytes
  | .s_header_value_discard_ws => headerValueDiscardWs p ch
  | .s_header_value_start => headerValueStart p ch
  | .s_header_value => headerValue p bytes
  | .s_header_almost_done => headerAlmostDone p ch
  | .s_header_value_lws => headerValueLws p ch
  | .s_header_value_discard_ws_almost_done =>
    STRICT_CHECK p (ch != LF) (p.to .s_header_value_discard_lws)
  | .s_header_value_discard_lws => headerValueDiscardLws p ch
  | .s_headers_almost_done => headersAlmostDone p ch
  | .s_headers_done => headersDone p ch
  | .s_body_identity => bodyIdentity p bytes
  | .s_message_done => messageDone p
  | .s_chunk_size_start => chunkSizeStart p ch
  | .s_chunk_size => chunkSize p ch
  | .s_chunk_parameters => chunkParameters p ch
  | .s_chunk_size_almost_done => chunkSizeAlmostDone p ch
  | .s_chunk_data => chunkData p bytes
  | .s_chunk_data_almost_done => chunkDataAlmostDone p ch
  | .s_chunk_data_done => chunkDataDone p ch

def round (p : Parser) (ch : UInt8) (bytes : Bytes) : Flow :=
  if PARSING_HEADER p.state then (COUNT_HEADER_SIZE 1 p).andThen fun p => pass p ch bytes
  else pass p ch bytes

/-- `for (p=data; p != data + len; p++)`, where the first `k` of the bytes are behind `p`. -/
def loop : ℕ → Bytes → Parser → Flow
  | _, [], p => .goes p []
  | k + 1, _ :: rest, p => loop k rest p
  | 0, ch :: rest, p =>
    match round p ch (ch :: rest) with
    | .goes p actions =>
      (loop (advanced actions) rest p).after
        (actions ++ [.advance ((ch :: rest).getD (advanced actions) 0)])
    | .exits p actions => .exits p (actions ++ [.advance ((ch :: rest).getD (advanced actions) 0)])
    | flow => flow

/-! ## Marks and callbacks -/

abbrev Marks := Slices.Marks Data UInt8

/-- The marks that are set at the first byte. -/
def Marks.entry (state : State) : Marks
  | .header_field => if state = .s_header_field then some [] else none
  | .header_value => if state = .s_header_value then some [] else none
  | .url =>
    match state with
    | .s_req_path | .s_req_schema | .s_req_schema_slash | .s_req_schema_slash_slash
    | .s_req_server_start | .s_req_server | .s_req_server_with_at | .s_req_query_string_start
    | .s_req_query_string | .s_req_fragment_start | .s_req_fragment => some []
    | _ => none
  | .body => none

/-- The callbacks for the marks that are left at the end of the data. -/
def leftover (marks : Marks) : List Call :=
  marks.report .header_field [] ++ marks.report .header_value [] ++ marks.report .url [] ++
    marks.report .body []

/-- The last assertion: at most one mark is left. -/
def atMostOne (marks : Marks) : Bool :=
  (marks .header_field).toList.length + (marks .header_value).toList.length +
    (marks .url).toList.length + (marks .body).toList.length ≤ 1

/-! ## The function -/

/-- Where the function returned. -/
inductive Return
  | len
  | upgraded
  | error
  deriving DecidableEq

structure Executed where
  calls : List Call
  nparsed : ℕ
  parser : Parser
  returned : Return

/-- `none` where an assertion fails. -/
def http_parser_execute (p : Parser) (data : Bytes) : Option Executed :=
  if p.http_errno ≠ .HPE_OK then some ⟨[], 0, p, .error⟩
  else if data = [] then
    match p.state with
    | .s_dead | .s_start_req => some ⟨[], 0, p, .len⟩
    | _ => some ⟨[], 1, { p with http_errno := .HPE_INVALID_EOF_STATE }, .error⟩
  else
    let entry := Marks.entry p.state
    match loop 0 data p with
    | .goes p actions =>
      let (marks, calls) := entry.run actions
      if atMostOne marks then some ⟨calls ++ leftover marks, data.length, p, .len⟩ else none
    | .fails p actions => some ⟨(entry.run actions).2, advanced actions, p, .error⟩
    | .exits p actions => some ⟨(entry.run actions).2, advanced actions, p, .upgraded⟩
    | .aborts => none

end Http
end WsEngine
