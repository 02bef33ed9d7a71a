import WsEngine.Http.Execute
import WsEngine.Lib.ControlFlow

/-! # What a pass can do

The states fall into zones, and every pass follows an edge from one zone to another, with what its
macros do besides advancing (`round_follows`). No assertion inside the loop fails, for the conditions
that the assertions want are an invariant of the parser at the head of the loop. -/
set_option autoImplicit false

namespace WsEngine
namespace Http
open Slices (advanced signs)

/-! ## Zones -/

inductive Zone
  | idle
  | method
  | url
  | version
  -- between two headers
  | start
  | field
  -- the name is complete, and then the value, which may go on in the next line
  | name
  | value
  | valued
  | chunk
  | body
  deriving DecidableEq

def zone : State → Zone
  | .s_dead | .s_start_req => .idle
  | .s_req_method | .s_req_spaces_before_url => .method
  | .s_req_schema | .s_req_schema_slash | .s_req_schema_slash_slash | .s_req_server_start
  | .s_req_server | .s_req_server_with_at | .s_req_path | .s_req_query_string_start
  | .s_req_query_string | .s_req_fragment_start | .s_req_fragment => .url
  | .s_req_http_start | .s_req_http_H | .s_req_http_HT | .s_req_http_HTT | .s_req_http_HTTP
  | .s_req_http_I | .s_req_http_IC | .s_req_http_major | .s_req_http_dot | .s_req_http_minor
  | .s_req_http_end | .s_req_line_almost_done => .version
  | .s_header_field_start | .s_headers_almost_done | .s_headers_done => .start
  | .s_header_field => .field
  | .s_header_value_discard_ws | .s_header_value_discard_ws_almost_done
  | .s_header_value_discard_lws => .name
  | .s_header_value => .value
  | .s_header_value_start | .s_header_value_lws | .s_header_almost_done => .valued
  | .s_chunk_size_start | .s_chunk_size | .s_chunk_parameters | .s_chunk_size_almost_done
  | .s_chunk_data_done => .chunk
  | .s_chunk_data | .s_chunk_data_almost_done | .s_body_identity | .s_message_done => .body

inductive Edge : Zone → List Action → Zone → Prop
  | idle : Edge .idle [] .idle
  | begins : Edge .idle [.notify .message_begin] .method
  | method : Edge .method [] .method
  | urlBegins : Edge .method [.mark .url] .url
  | url : Edge .url [] .url
  | urlEnds : Edge .url [.slice .url] .version
  -- a request line without a version
  | urlLast : Edge .url [.slice .url] .start
  | version : Edge .version [] .version
  | versionEnds : Edge .version [] .start
  | start : Edge .start [] .start
  | fieldBegins : Edge .start [.mark .header_field] .field
  | chunked (request : RequestLine) : Edge .start [.notify (.headers_complete request)] .chunk
  | sized (request : RequestLine) : Edge .start [.notify (.headers_complete request)] .body
  | bodiless (request : RequestLine) :
    Edge .start [.notify (.headers_complete request), .notify .message_complete] .idle
  | trailer : Edge .start [.notify .chunk_complete, .notify .message_complete] .idle
  | field : Edge .field [] .field
  | fieldEnds : Edge .field [.slice .header_field] .name
  | name : Edge .name [] .name
  | valueBegins : Edge .name [.mark .header_value] .value
  | valueEmpty {actions : List Action} {z : Zone} (h : Edge .start actions z) :
    Edge .name (.mark .header_value :: .slice .header_value :: actions) z
  | value : Edge .value [] .value
  | valueEnds : Edge .value [.slice .header_value] .valued
  | valued : Edge .valued [] .valued
  | valueFolds : Edge .valued [.mark .header_value] .value
  | headerEnds {actions : List Action} {z : Zone} (h : Edge .start actions z) :
    Edge .valued actions z
  | chunk : Edge .chunk [] .chunk
  | chunkBegins : Edge .chunk [.notify .chunk_header] .body
  | lastChunk : Edge .chunk [.notify .chunk_header] .start
  | chunkEnds : Edge .chunk [.notify .chunk_complete] .chunk
  | body : Edge .body [.mark .body] .body
  | bodyEnds (ch : UInt8) :
    Edge .body [.mark .body, .sliceThrough .body ch, .notify .message_complete] .idle
  | dataEnds : Edge .body [.slice .body] .chunk

theorem Edge.exists (z : Zone) : ∃ more z', Edge z more z' := by
  cases z with
  | idle => exact ⟨_, _, .idle⟩
  | method => exact ⟨_, _, .method⟩
  | url => exact ⟨_, _, .url⟩
  | version => exact ⟨_, _, .version⟩
  | start => exact ⟨_, _, .start⟩
  | field => exact ⟨_, _, .field⟩
  | name => exact ⟨_, _, .name⟩
  | value => exact ⟨_, _, .value⟩
  | valued => exact ⟨_, _, .valued⟩
  | chunk => exact ⟨_, _, .chunk⟩
  | body => exact ⟨_, _, .body⟩

/-! ## The invariant -/

/-- A header state in which the name is still read. -/
def Naming : HeaderState → Prop
  | .h_general | .h_C | .h_CO | .h_CON | .h_matching_connection | .h_matching_proxy_connection
  | .h_matching_content_length | .h_matching_transfer_encoding | .h_matching_upgrade
  | .h_connection | .h_content_length | .h_transfer_encoding | .h_upgrade => True
  | _ => False

/-- A header state in which a value is read. -/
def Valuing (h_state : HeaderState) : Prop :=
  h_state ≠ .h_connection ∧ h_state ≠ .h_transfer_encoding

namespace Parser

/-- What the assertions want of the state, with `nread` as it is when the size of a chunk begins.
`s_headers_done`, `s_message_done` and `s_header_value_start` are left with the byte that they are
entered with. -/
def Settled (p : Parser) (nread : ℕ) : Prop :=
  match p.state with
  | .s_headers_done | .s_message_done | .s_header_value_start => False
  | .s_header_field => Naming p.header_state
  | .s_header_value => Valuing p.header_state
  | .s_chunk_size_start => p.flags.F_CHUNKED = true ∧ p.nread = nread
  | .s_chunk_size | .s_chunk_parameters | .s_chunk_size_almost_done =>
    p.flags.F_CHUNKED = true ∧ p.content_length < ULLONG_MAX
  | .s_chunk_data =>
    p.flags.F_CHUNKED = true ∧ 0 < p.content_length ∧ p.content_length < ULLONG_MAX
  | .s_chunk_data_almost_done => p.flags.F_CHUNKED = true ∧ p.content_length = 0
  | .s_chunk_data_done => p.flags.F_CHUNKED = true
  | .s_body_identity => 0 < p.content_length ∧ p.content_length < ULLONG_MAX
  | _ => True

/-- The parser has found no error, and `content_length` is a `uint64_t`. -/
structure Sound (p : Parser) : Prop where
  errno : p.http_errno = .HPE_OK
  content_length : p.content_length ≤ ULLONG_MAX

/-- The parser at the head of the loop. -/
structure Coherent (p : Parser) : Prop extends Sound p where
  settled : p.Settled 0

theorem init_coherent : http_parser_init.Coherent := ⟨⟨rfl, Nat.zero_le _⟩, trivial⟩

end Parser

/-- A pass that begins in the zone keeps the invariant and follows an edge, or is on one where it
fails. -/
def Flow.Follows (z : Zone) : Flow → Prop
  | .goes p actions => p.Coherent ∧ Edge z (signs actions) (zone p.state)
  | .exits p actions => p.Coherent ∧ Edge z (signs actions) (zone p.state) ∧
    zone p.state = .idle ∧ p.upgrade = true
  | .fails p actions => p.http_errno ≠ .HPE_OK ∧ ∃ more z', Edge z (signs actions ++ more) z'
  | .aborts => False

section
variable {p : Parser} {ch : UInt8} {z : Zone} {actions : List Action}

@[simp] theorem Flow.after_nil (flow : Flow) : flow.after [] = flow := by
  cases flow <;> rfl

theorem Flow.after_after (flow : Flow) (first more : List Action) :
    (flow.after more).after first = flow.after (first ++ more) := by
  cases flow <;> simp [Flow.after]

theorem follows_error (z : Zone) {e : Errno} (he : e ≠ .HPE_OK) : (p.error e).Follows z :=
  ⟨he, Edge.exists z⟩

theorem follows_error_after {more : List Action} {z' : Zone}
    (hedge : Edge z (signs actions ++ more) z') {e : Errno} (he : e ≠ .HPE_OK) :
    ((p.error e).after actions).Follows z := by
  refine ⟨he, more, z', ?_⟩
  rwa [List.append_nil]

theorem follows_strict {cond : Bool} {k : Flow} (h : cond = false → k.Follows z) :
    (STRICT_CHECK p cond k).Follows z := by
  unfold STRICT_CHECK
  cases cond with
  | false => exact h rfl
  | true => exact follows_error z nofun

theorem follows_assert {cond : Bool} {k : Flow} (h : cond = true) (hk : k.Follows z) :
    (assert cond k).Follows z := by
  subst h
  exact hk

/-- The states of these zones have no conditions. -/
def Zone.Plain : Zone → Prop
  | .idle | .method | .url | .version | .name => True
  | _ => False

theorem settled_of_plain (h : (zone p.state).Plain) (n : ℕ) : p.Settled n := by
  unfold Parser.Settled
  cases hs : p.state <;> simp_all [zone, Zone.Plain]

theorem Parser.Sound.plain (h : p.Sound) (hz : (zone p.state).Plain) : p.Coherent :=
  ⟨h, settled_of_plain hz 0⟩

/-- The flow goes on, to a state that has no conditions. -/
theorem follows_goes (h : p.Sound) {z' : Zone} (hz : zone p.state = z') (hplain : z'.Plain)
    (hedge : Edge z (signs actions) z') : Flow.Follows z (.goes p actions) := by
  subst hz
  exact ⟨h.plain hplain, hedge⟩

/-- What was done before belongs to the same pass. -/
theorem Flow.Follows.after {flow : Flow} {z' : Zone} (h : flow.Follows z')
    (hvia : ∀ more z'', Edge z' more z'' → Edge z (signs actions ++ more) z'') :
    (flow.after actions).Follows z := by
  cases flow with
  | goes q more =>
    refine ⟨h.1, ?_⟩
    rw [Slices.signs_append]
    exact hvia _ _ h.2
  | fails q more =>
    obtain ⟨hq, rest, z'', hedge⟩ := h
    refine ⟨hq, rest, z'', ?_⟩
    rw [Slices.signs_append, List.append_assoc]
    exact hvia _ _ hedge
  | exits q more =>
    refine ⟨h.1, ?_, h.2.2⟩
    rw [Slices.signs_append]
    exact hvia _ _ h.2.1
  | aborts => exact h

/-! ## The request line -/

theorem dead_follows (h : p.Sound) (hp : p.state = .s_dead) : (dead p ch).Follows .idle := by
  unfold dead
  split
  · exact follows_goes h (congrArg zone hp) trivial .idle
  · exact follows_error _ nofun

theorem startReq_follows (h : p.Sound) (hp : p.state = .s_start_req) :
    (startReq p ch).Follows .idle := by
  unfold startReq
  dsimp only
  split
  · exact follows_goes h (congrArg zone hp) trivial .idle
  · split
    · exact follows_error _ nofun
    · split
      · exact follows_error _ nofun
      · exact follows_goes ⟨h.errno, le_rfl⟩ rfl trivial .begins

theorem reqMethod_follows (h : p.Sound) (hp : p.state = .s_req_method) :
    (reqMethod p ch).Follows .method := by
  have hstay (q : Parser) (hq : q.Sound) (hs : q.state = .s_req_method) :
      Flow.Follows .method (.goes q []) :=
    follows_goes hq (congrArg zone hs) trivial .method
  unfold reqMethod
  dsimp only
  split
  · exact follows_error _ nofun
  · split
    · exact follows_goes ⟨h.errno, h.content_length⟩ rfl trivial .method
    · split
      · exact hstay _ ⟨h.errno, h.content_length⟩ hp
      · split
        · split
          · exact follows_error _ nofun
          · exact hstay _ ⟨h.errno, h.content_length⟩ hp
        · exact follows_error _ nofun

/-- The URL parser stays in the URL, or fails. -/
theorem zone_parse_url_char (s : State) (ch : UInt8) :
    parse_url_char s ch = .s_dead ∨ zone (parse_url_char s ch) = .url := by
  unfold parse_url_char
  split
  · exact .inl rfl
  · split
    · exact .inl rfl
    · cases s <;> dsimp only
      all_goals first
        | exact .inl rfl
        | (split_ifs <;> first | exact .inl rfl | exact .inr rfl)

theorem updateUrl_follows (h : p.Sound) (hedge : Edge z (signs actions) .url) :
    ((updateUrl p ch).after actions).Follows z := by
  unfold updateUrl
  dsimp only
  split
  · next hdead => exact ⟨nofun, [], .url, by simpa using hedge⟩
  · next hdead =>
    have hz := (zone_parse_url_char p.state ch).resolve_left hdead
    rw [Flow.after, List.append_nil]
    exact follows_goes ⟨h.errno, h.content_length⟩ hz trivial hedge

theorem reqSpacesBeforeUrl_follows (h : p.Sound) (hp : p.state = .s_req_spaces_before_url) :
    (reqSpacesBeforeUrl p ch).Follows .method := by
  unfold reqSpacesBeforeUrl
  split
  · exact follows_goes h (congrArg zone hp) trivial .method
  · split
    · exact updateUrl_follows ⟨h.errno, h.content_length⟩ .urlBegins
    · exact updateUrl_follows h .urlBegins

theorem reqSchema_follows (h : p.Sound) : (reqSchema p ch).Follows .url := by
  unfold reqSchema
  split
  · exact follows_error _ nofun
  · have hurl : ((updateUrl p ch).after []).Follows .url := updateUrl_follows h .url
    rwa [Flow.after_nil] at hurl

theorem reqUrl_follows (h : p.Sound) : (reqUrl p ch).Follows .url := by
  unfold reqUrl
  split
  · exact follows_goes ⟨h.errno, h.content_length⟩ rfl trivial .urlEnds
  · split
    · by_cases hcr : ch = CR
      · rw [if_pos hcr]
        exact follows_goes ⟨h.errno, h.content_length⟩ rfl trivial .urlEnds
      · rw [if_neg hcr]
        exact ⟨⟨⟨h.errno, h.content_length⟩, trivial⟩, .urlLast⟩
    · have hurl : ((updateUrl p ch).after []).Follows .url := updateUrl_follows h .url
      rwa [Flow.after_nil] at hurl

theorem follows_version (h : p.Sound) {state : State} (hz : zone state = .version) :
    (p.to state).Follows .version := by
  unfold Parser.to
  exact follows_goes ⟨h.errno, h.content_length⟩ hz trivial .version

theorem follows_start (h : p.Sound) : (p.to .s_header_field_start).Follows .version :=
  ⟨⟨⟨h.errno, h.content_length⟩, trivial⟩, .versionEnds⟩

theorem reqHttpStart_follows (h : p.Sound) (hp : p.state = .s_req_http_start) :
    (reqHttpStart p ch).Follows .version := by
  unfold reqHttpStart
  split
  · exact follows_goes h (congrArg zone hp) trivial .version
  · split_ifs
    · exact follows_version h rfl
    · exact follows_version h rfl
    · exact follows_error _ nofun

theorem reqHttpLetter_follows (h : p.Sound) (letter : Char) {state : State}
    (hz : zone state = .version) : (reqHttpLetter p ch letter state).Follows .version :=
  follows_strict fun _ => follows_version h hz

theorem reqHttpMajor_follows (h : p.Sound) : (reqHttpMajor p ch).Follows .version := by
  unfold reqHttpMajor
  split
  · exact follows_error _ nofun
  · apply follows_version
    · exact ⟨h.errno, h.content_length⟩
    · rfl

theorem reqHttpDot_follows (h : p.Sound) : (reqHttpDot p ch).Follows .version := by
  unfold reqHttpDot
  split
  · exact follows_error _ nofun
  · exact follows_version h rfl

theorem reqHttpMinor_follows (h : p.Sound) : (reqHttpMinor p ch).Follows .version := by
  unfold reqHttpMinor
  split
  · exact follows_error _ nofun
  · apply follows_version
    · exact ⟨h.errno, h.content_length⟩
    · rfl

theorem reqHttpEnd_follows (h : p.Sound) : (reqHttpEnd p ch).Follows .version := by
  unfold reqHttpEnd
  split_ifs
  · exact follows_version h rfl
  · exact follows_start h
  · exact follows_error _ nofun

theorem reqLineAlmostDone_follows (h : p.Sound) : (reqLineAlmostDone p ch).Follows .version := by
  unfold reqLineAlmostDone
  split
  · exact follows_error _ nofun
  · exact follows_start h

/-! ## The end of the headers -/

theorem zone_newMessage (p : Parser) : zone p.NEW_MESSAGE = .idle := by
  unfold Parser.NEW_MESSAGE
  cases p.http_should_keep_alive <;> rfl

theorem newMessage_follows (h : p.Sound)
    (hedge : Edge z (signs actions ++ [.notify .message_complete]) .idle) :
    ((newMessage p).after actions).Follows z := by
  unfold newMessage Flow.after
  apply follows_goes
  · exact ⟨h.errno, h.content_length⟩
  · exact zone_newMessage p
  · trivial
  · rwa [Slices.signs_append]

theorem newMessage_return_follows (h : p.Sound) (hupgrade : p.upgrade = true)
    (hedge : Edge z (signs actions ++ [.notify .message_complete]) .idle) :
    ((newMessage p).return.after actions).Follows z := by
  have hz : zone { p with state := p.NEW_MESSAGE }.state = .idle := zone_newMessage p
  obtain ⟨hcoherent, hsigns⟩ := newMessage_follows h hedge
  exact ⟨hcoherent, hsigns, hz, hupgrade⟩

theorem messageDone_follows (h : p.Sound)
    (hedge : Edge z (signs actions ++ [.notify .message_complete]) .idle) :
    ((messageDone p).after actions).Follows z := by
  unfold messageDone
  split
  · next hupgrade => exact newMessage_return_follows h hupgrade hedge
  · exact newMessage_follows h hedge

theorem headersDone_follows (h : p.Sound) (request : RequestLine) :
    ((headersDone p ch).after [.notify (.headers_complete request)]).Follows .start := by
  have hsound : { p with nread := 0 }.Sound := ⟨h.errno, h.content_length⟩
  unfold headersDone STRICT_CHECK
  dsimp only
  split
  · exact follows_error_after (.bodiless request) nofun
  · split
    · next hupgrade =>
      have hup : p.upgrade = true := by
        simp only [Bool.and_eq_true] at hupgrade
        exact hupgrade.1
      exact newMessage_return_follows hsound hup (.bodiless request)
    · split
      · next hchunked =>
        exact ⟨⟨⟨h.errno, h.content_length⟩, hchunked, rfl⟩, .chunked request⟩
      · split
        · exact newMessage_follows hsound (.bodiless request)
        · next hzero =>
          split
          · next hmax =>
            exact ⟨⟨⟨h.errno, h.content_length⟩, Nat.pos_of_ne_zero hzero,
              Nat.lt_of_le_of_ne h.content_length hmax⟩, .sized request⟩
          · exact newMessage_follows hsound (.bodiless request)

theorem headersAlmostDone_follows (h : p.Sound) : (headersAlmostDone p ch).Follows .start := by
  apply follows_strict
  intro _
  split
  · exact messageDone_follows ⟨h.errno, h.content_length⟩ .trailer
  · split
    · exact follows_error _ nofun
    · apply headersDone_follows
      exact ⟨h.errno, h.content_length⟩

/-! ## The headers -/

theorem naming_ofLetter (c : UInt8) : Naming (headerStateOfLetter c) := by
  unfold headerStateOfLetter
  split_ifs <;> trivial

theorem headerFieldStart_follows (h : p.Sound) : (headerFieldStart p ch).Follows .start := by
  unfold headerFieldStart
  split_ifs
  · exact ⟨⟨⟨h.errno, h.content_length⟩, trivial⟩, .start⟩
  · exact headersAlmostDone_follows ⟨h.errno, h.content_length⟩
  · exact follows_error _ nofun
  · exact ⟨⟨⟨h.errno, h.content_length⟩, naming_ofLetter _⟩, .fieldBegins⟩

/-- Only `nread` is counted. -/
theorem count_cases (v : ℕ) (p : Parser) :
    (∃ nread, COUNT_HEADER_SIZE v p = .goes { p with nread := nread } []) ∨
      ∃ nread, COUNT_HEADER_SIZE v p =
        .fails { p with
          nread := nread
          http_errno := .HPE_HEADER_OVERFLOW } [] := by
  unfold COUNT_HEADER_SIZE
  dsimp only
  split
  · exact .inr ⟨_, rfl⟩
  · exact .inl ⟨_, rfl⟩

theorem count_follows (v : ℕ) {k : Parser → Flow} {more : List Action} {z' : Zone}
    (hfails : Edge z (signs actions ++ more) z')
    (hk : ∀ nread, ((k { p with nread := nread }).after actions).Follows z) :
    (((COUNT_HEADER_SIZE v p).andThen k).after actions).Follows z := by
  rcases count_cases v p with ⟨nread, hcount⟩ | ⟨nread, hcount⟩
  · rw [hcount, Flow.andThen, Flow.after_nil]
    exact hk nread
  · rw [hcount]
    refine ⟨nofun, more, z', ?_⟩
    rwa [List.append_nil]

/-- A loop went over the first bytes, and changed nothing but what the property is about. -/
def Flow.Took (bytes : Bytes) (P : Parser → Prop) : Flow → Prop
  | .goes p actions => (∃ n ≤ bytes.length, actions = (bytes.take n).map .advance) ∧ P p
  | .fails p actions => (∃ n < bytes.length, actions = (bytes.take n).map .advance) ∧
    p.http_errno ≠ .HPE_OK
  | .exits _ _ | .aborts => False

theorem Flow.Took.advance {rest : Bytes} {P : Parser → Prop} {flow : Flow}
    (h : flow.Took rest P) (ch : UInt8) : (flow.after [.advance ch]).Took (ch :: rest) P := by
  cases flow with
  | goes q actions =>
    obtain ⟨⟨n, hn, rfl⟩, hq⟩ := h
    exact ⟨⟨n + 1, Nat.succ_le_succ hn, rfl⟩, hq⟩
  | fails q actions =>
    obtain ⟨⟨n, hn, rfl⟩, hq⟩ := h
    exact ⟨⟨n + 1, Nat.succ_lt_succ hn, rfl⟩, hq⟩
  | exits q actions => exact h
  | aborts => exact h

theorem took_nothing (bytes : Bytes) {P : Parser → Prop} (h : P p) :
    Flow.Took bytes P (.goes p []) := ⟨⟨0, Nat.zero_le _, rfl⟩, h⟩

theorem took_error (ch : UInt8) (rest : Bytes) {P : Parser → Prop} {e : Errno}
    (he : e ≠ .HPE_OK) : (p.error e).Took (ch :: rest) P := ⟨⟨0, Nat.succ_pos _, rfl⟩, he⟩

/-! ### The name -/

theorem naming_matchWord {word : Bytes} {index : ℕ} {c : UInt8} {differs ends goes : HeaderState}
    (hdiffers : Naming differs) (hends : Naming ends) (hgoes : Naming goes) :
    Naming (matchWord word index c differs ends goes) := by
  unfold matchWord
  split_ifs <;> assumption

/-- While the name is read. -/
structure Parser.Named (p : Parser) : Prop extends p.Sound where
  state : p.state = .s_header_field
  naming : Naming p.header_state

theorem fieldChar_named (h : p.Named) (c : UInt8) : ∃ q, fieldChar p c = some q ∧ q.Named := by
  have hnamed {header_state : HeaderState} (hn : Naming header_state) (index : ℕ) :
      { p with
        index := index
        header_state := header_state }.Named := ⟨⟨h.errno, h.content_length⟩, h.state, hn⟩
  have hnaming := h.naming
  unfold fieldChar
  dsimp only
  split
  all_goals first
    | exact ⟨_, rfl, h⟩
    | (refine ⟨_, rfl, hnamed ?_ _⟩
       first
         | exact naming_matchWord trivial trivial hnaming
         | trivial
         | (split_ifs <;> trivial))
    | simp_all [Naming]

theorem fieldLoop_took (k : ℕ) (bytes : Bytes) (h : p.Named) :
    (fieldLoop k bytes p).Took bytes Parser.Named := by
  induction bytes generalizing k p with
  | nil =>
    cases k <;> exact took_nothing [] h
  | cons ch rest ih =>
    cases k with
    | succ k => exact (ih k h).advance ch
    | zero =>
      rw [fieldLoop]
      split
      · exact took_nothing _ h
      · obtain ⟨q, hq, hnamed⟩ := fieldChar_named h (TOKEN ch)
        rw [hq]
        exact (ih _ hnamed).advance ch

theorem signs_took (bytes : Bytes) (n : ℕ) (more : List Action) :
    signs ((bytes.take n).map .advance ++ more) = signs more := by
  rw [Slices.signs_append, Slices.signs_advances, List.nil_append]

/-- The loop went to the end of the data. -/
theorem count_last {bytes : Bytes} (v n : ℕ) (hk : ∀ nread, { p with nread := nread }.Coherent)
    (hz : zone p.state = z) (hedge : Edge z [] z) :
    ((COUNT_HEADER_SIZE v p).after ((bytes.take n).map .advance).dropLast).Follows z := by
  have hsigns : signs (((bytes.take n).map .advance).dropLast ++ []) = ([] : List Action) := by
    rw [← List.map_dropLast, Slices.signs_append, Slices.signs_advances]
    rfl
  rcases count_cases v p with ⟨nread, hcount⟩ | ⟨nread, hcount⟩
  · rw [hcount]
    subst hz
    refine ⟨hk nread, ?_⟩
    rw [hsigns]
    exact hedge
  · rw [hcount]
    refine ⟨nofun, [], z, ?_⟩
    rwa [hsigns]

theorem headerField_follows (h : p.Named) (bytes : Bytes) : (headerField p bytes).Follows .field := by
  have htook := fieldLoop_took 0 bytes h
  unfold headerField
  cases hloop : fieldLoop 0 bytes p with
  | aborts =>
    rw [hloop] at htook
    exact htook
  | exits q actions =>
    rw [hloop] at htook
    exact htook.elim
  | fails q actions =>
    rw [hloop] at htook
    obtain ⟨⟨n, -, rfl⟩, hq⟩ := htook
    refine ⟨hq, [], .field, ?_⟩
    rw [Slices.signs_advances]
    exact .field
  | goes q actions =>
    rw [hloop] at htook
    obtain ⟨⟨n, -, rfl⟩, hq⟩ := htook
    dsimp only
    unfold fieldStop
    split
    · apply count_last
      · intro nread
        refine ⟨⟨hq.errno, hq.content_length⟩, ?_⟩
        simpa [Parser.Settled, hq.state] using hq.naming
      · exact congrArg zone hq.state
      · exact .field
    · apply count_follows
      · rw [Slices.signs_advances, List.nil_append]
        exact .field
      · intro nread
        split
        · refine ⟨⟨⟨hq.errno, hq.content_length⟩, trivial⟩, ?_⟩
          rw [signs_took]
          exact .fieldEnds
        · apply follows_error_after
          · rw [Slices.signs_advances, List.nil_append]
            exact .field
          · exact nofun

/-! ### The value -/

theorem headerValueStart_follows (h : p.Sound) (hedge : Edge z [.mark .header_value] .value) :
    (headerValueStart p ch).Follows z := by
  have hvalue (q : Parser) (hq : q.Sound) (hs : q.state = .s_header_value)
      (hh : Valuing q.header_state) : Flow.Follows z (.goes q [.mark .header_value]) := by
    refine ⟨⟨hq, ?_⟩, ?_⟩
    · simp only [Parser.Settled, hs]
      exact hh
    · rw [hs]
      exact hedge
  have herror (q : Parser) {e : Errno} (he : e ≠ .HPE_OK) :
      ((q.error e).after [.mark .header_value]).Follows z := by
    apply follows_error_after _ he
    · exact []
    · exact .value
    · exact hedge
  unfold headerValueStart
  dsimp only
  split
  · exact hvalue _ ⟨h.errno, h.content_length⟩ rfl ⟨nofun, nofun⟩
  · split_ifs
    · exact hvalue _ ⟨h.errno, h.content_length⟩ rfl ⟨nofun, nofun⟩
    · exact hvalue _ ⟨h.errno, h.content_length⟩ rfl ⟨nofun, nofun⟩
  · split
    · exact herror _ nofun
    · split
      · exact herror _ nofun
      · refine hvalue _ ⟨h.errno, ?_⟩ rfl ⟨nofun, nofun⟩
        have hch := ch.toNat_lt
        change ch.toNat - 48 ≤ ULLONG_MAX
        unfold ULLONG_MAX
        omega
  · exact hvalue _ ⟨h.errno, h.content_length⟩ rfl ⟨nofun, nofun⟩
  · split_ifs
    · exact hvalue _ ⟨h.errno, h.content_length⟩ rfl ⟨nofun, nofun⟩
    · exact hvalue _ ⟨h.errno, h.content_length⟩ rfl ⟨nofun, nofun⟩
    · exact hvalue _ ⟨h.errno, h.content_length⟩ rfl ⟨nofun, nofun⟩
    · exact hvalue _ ⟨h.errno, h.content_length⟩ rfl ⟨nofun, nofun⟩
  · exact hvalue _ ⟨h.errno, h.content_length⟩ rfl ⟨nofun, nofun⟩
  · exact hvalue _ ⟨h.errno, h.content_length⟩ rfl ⟨nofun, nofun⟩

theorem headerValueDiscardWs_follows (h : p.Sound) (hp : p.state = .s_header_value_discard_ws) :
    (headerValueDiscardWs p ch).Follows .name := by
  unfold headerValueDiscardWs
  split
  · exact follows_goes h (congrArg zone hp) trivial .name
  · split
    · exact ⟨⟨⟨h.errno, h.content_length⟩, trivial⟩, .name⟩
    · split
      · exact ⟨⟨⟨h.errno, h.content_length⟩, trivial⟩, .name⟩
      · exact headerValueStart_follows h .valueBegins

/-- While the value is read. -/
structure Parser.Valued (p : Parser) : Prop extends p.Sound where
  state : p.state = .s_header_value

theorem contentLengthNum_valued (h : p.Valued) (ch : UInt8) :
    (contentLengthNum p ch).Ends (fun r => Valuing r.1 ∧ r.2.Valued)
      fun fault => ∃ e, fault = .errno e ∧ e ≠ .HPE_OK := by
  unfold contentLengthNum
  split_ifs
  · exact .ok ⟨⟨nofun, nofun⟩, h⟩
  · exact .error ⟨_, rfl, nofun⟩
  · exact .error ⟨_, rfl, nofun⟩
  · refine .ok ⟨⟨nofun, nofun⟩, ⟨h.errno, ?_⟩, h.state⟩
    change _ % 2 ^ 64 ≤ ULLONG_MAX
    have hlt := Nat.mod_lt (p.content_length * 10 + (ch.toNat - 48)) (Nat.two_pow_pos 64)
    unfold ULLONG_MAX
    omega

theorem valuing_matchWord {word : Bytes} {index : ℕ} {c : UInt8} {differs ends goes : HeaderState}
    (hdiffers : Valuing differs) (hends : Valuing ends) (hgoes : Valuing goes) :
    Valuing (matchWord word index c differs ends goes) := by
  unfold matchWord
  split_ifs <;> assumption

theorem valueChar_valued {h_state : HeaderState} (hh : Valuing h_state) (h : p.Valued) (ch : UInt8) :
    (valueChar h_state p ch).Ends (fun r => Valuing r.1 ∧ r.2.Valued)
      fun fault => ∃ e, fault = .errno e ∧ e ≠ .HPE_OK := by
  have hsame (index : ℕ) (flags : Flags) : { p with
      flags := flags
      index := index }.Valued := ⟨⟨h.errno, h.content_length⟩, h.state⟩
  unfold valueChar
  dsimp only
  split
  · exact absurd rfl hh.1
  · exact absurd rfl hh.2
  · split
    · exact .ok ⟨hh, h⟩
    · exact contentLengthNum_valued h ch
  · exact contentLengthNum_valued h ch
  · split
    · exact .ok ⟨hh, h⟩
    · exact .error ⟨_, rfl, nofun⟩
  · exact .ok ⟨valuing_matchWord (⟨nofun, nofun⟩) (⟨nofun, nofun⟩) hh, hsame _ _⟩
  · split_ifs
    all_goals exact .ok ⟨⟨nofun, nofun⟩, h⟩
  · exact .ok ⟨valuing_matchWord (⟨nofun, nofun⟩) (⟨nofun, nofun⟩) hh, hsame _ _⟩
  · exact .ok ⟨valuing_matchWord (⟨nofun, nofun⟩) (⟨nofun, nofun⟩) hh, hsame _ _⟩
  · exact .ok ⟨valuing_matchWord (⟨nofun, nofun⟩) (⟨nofun, nofun⟩) hh, hsame _ _⟩
  · split
    · exact .ok ⟨⟨nofun, nofun⟩, hsame _ _⟩
    · exact .ok ⟨hh, h⟩
  · split
    · exact .ok ⟨⟨nofun, nofun⟩, h⟩
    · exact .ok ⟨hh, h⟩
  all_goals first
    | exact .ok ⟨⟨nofun, nofun⟩, h⟩
    | (split_ifs
       · exact .ok ⟨⟨nofun, nofun⟩, hsame _ _⟩
       · exact .ok ⟨⟨nofun, nofun⟩, h⟩
       · exact .ok ⟨hh, h⟩)

/-- The loop of `h_general` fails in front of a byte. -/
theorem valueSkip_none {bytes : Bytes} (h : valueSkip bytes = none) :
    (bytes.takeWhile passes).length < bytes.length := by
  unfold valueSkip at h
  dsimp only at h
  have hlen := List.length_take_le' max_header_size bytes
  cases hdrop : (bytes.take max_header_size).drop
      ((bytes.take max_header_size).takeWhile passes).length with
  | nil =>
    rw [hdrop] at h
    dsimp only at h
    split at h <;> cases h
  | cons ch rest =>
    have hrun := congrArg List.length hdrop
    rw [List.length_drop, List.length_cons] at hrun
    have hne : ((bytes.take max_header_size).takeWhile passes).length ≠
        (bytes.take max_header_size).length := by omega
    have hsame : bytes.takeWhile passes = (bytes.take max_header_size).takeWhile passes := by
      conv_lhs => rw [← List.take_append_drop max_header_size bytes]
      rw [List.takeWhile_append, if_neg hne]
    rw [hsame]
    omega

theorem valueLoop_took (k : ℕ) (bytes : Bytes) {h_state : HeaderState} (hh : Valuing h_state)
    (h : p.Valued) :
    (valueLoop k bytes h_state p).Took bytes fun q => q.Valued ∧ Valuing q.header_state := by
  have hends {p : Parser} {h_state : HeaderState} (hh : Valuing h_state) (h : p.Valued) :
      { p with header_state := h_state }.Valued ∧ Valuing h_state :=
    ⟨⟨⟨h.errno, h.content_length⟩, h.state⟩, hh⟩
  induction bytes generalizing k p h_state with
  | nil =>
    cases k <;> exact took_nothing [] (hends hh h)
  | cons ch rest ih =>
    cases k with
    | succ k => exact (ih k hh h).advance ch
    | zero =>
      rw [valueLoop]
      split
      · exact took_nothing _ (hends hh h)
      · split
        · exact took_error _ _ nofun
        · split
          · split
            · next hnone =>
              refine ⟨⟨_, valueSkip_none hnone, ?_⟩, nofun⟩
              rw [List.append_nil]
              exact congrArg (List.map _) (List.prefix_iff_eq_take.mp (List.takeWhile_prefix _))
            · exact (ih _ hh h).advance ch
          · have hchar := valueChar_valued hh h ch
            cases hr : valueChar h_state p ch with
            | ok r =>
              rw [hr, Except.ends_ok] at hchar
              exact (ih 0 hchar.1 hchar.2).advance ch
            | error fault =>
              rw [hr, Except.ends_error] at hchar
              obtain ⟨e, rfl, he⟩ := hchar
              exact took_error _ _ he

theorem headerAlmostDone_follows (h : p.Sound) (hedge : Edge z (signs actions) .valued) :
    ((headerAlmostDone p ch).after actions).Follows z := by
  unfold headerAlmostDone
  split
  · refine ⟨nofun, [], .valued, ?_⟩
    rwa [List.append_nil, List.append_nil]
  · refine ⟨⟨⟨h.errno, h.content_length⟩, trivial⟩, ?_⟩
    rwa [List.append_nil]

theorem headerValue_follows (h : p.Valued) (hh : Valuing p.header_state) (bytes : Bytes) :
    (headerValue p bytes).Follows .value := by
  have htook := valueLoop_took 0 bytes hh h
  unfold headerValue
  cases hloop : valueLoop 0 bytes p.header_state p with
  | aborts =>
    rw [hloop] at htook
    exact htook
  | exits q actions =>
    rw [hloop] at htook
    exact htook.elim
  | fails q actions =>
    rw [hloop] at htook
    obtain ⟨⟨n, -, rfl⟩, hq⟩ := htook
    refine ⟨hq, [], .value, ?_⟩
    rw [Slices.signs_advances]
    exact .value
  | goes q actions =>
    rw [hloop] at htook
    obtain ⟨⟨n, -, rfl⟩, hq, hvaluing⟩ := htook
    dsimp only
    unfold valueStop
    split
    · apply count_last
      · intro nread
        refine ⟨⟨hq.errno, hq.content_length⟩, ?_⟩
        simpa [Parser.Settled, hq.state] using hvaluing
      · exact congrArg zone hq.state
      · exact .value
    · dsimp only
      split
      · rcases count_cases ((bytes.take n).map Slices.Action.advance : List Action).length { q with
            state := .s_header_almost_done } with ⟨nread, hcount⟩ | ⟨nread, hcount⟩
        · rw [hcount]
          refine ⟨⟨⟨hq.errno, hq.content_length⟩, trivial⟩, ?_⟩
          rw [List.append_nil, signs_took]
          exact .valueEnds
        · rw [hcount]
          refine ⟨nofun, [], .valued, ?_⟩
          rw [List.append_nil, List.append_nil, signs_took]
          exact .valueEnds
      · apply count_follows
        · rw [Slices.signs_advances, List.nil_append]
          exact .value
        · intro nread
          rw [Flow.after_after]
          apply headerAlmostDone_follows
          · exact ⟨hq.errno, hq.content_length⟩
          · rw [signs_took]
            exact .valueEnds

theorem headerValueLws_follows (h : p.Sound) : (headerValueLws p ch).Follows .valued := by
  unfold headerValueLws
  split
  · exact headerValueStart_follows ⟨h.errno, h.content_length⟩ .valueFolds
  · rw [← Flow.after_nil (headerFieldStart _ ch)]
    refine Flow.Follows.after (headerFieldStart_follows ?_) ?_
    · exact ⟨h.errno, h.content_length⟩
    · intro more z' hedge
      exact .headerEnds hedge

theorem headerValueDiscardLws_follows (h : p.Sound) :
    (headerValueDiscardLws p ch).Follows .name := by
  unfold headerValueDiscardLws
  split
  · exact ⟨⟨⟨h.errno, h.content_length⟩, trivial⟩, .name⟩
  · split
    · exact follows_error _ nofun
    · refine Flow.Follows.after (headerFieldStart_follows ?_) ?_
      · exact ⟨h.errno, h.content_length⟩
      · intro more z' hedge
        exact .valueEmpty hedge

/-! ## The body -/

/-- The mark is set, and `p` advances to the last byte that is read. -/
theorem readBody_follows {rest : Bytes} {k : Parser → UInt8 → Flow}
    (hk : ∀ content_length ch, content_length < p.content_length →
      ((k { p with content_length := content_length } ch).after [.mark .body]).Follows .body)
    (hpos : 0 < p.content_length) : (readBody p (ch :: rest) k).Follows .body := by
  unfold readBody
  dsimp only
  have hlt : p.content_length - min p.content_length (ch :: rest).length < p.content_length := by
    rw [List.length_cons]
    omega
  have hfollows := hk _ ((ch :: rest).getD (min p.content_length (ch :: rest).length - 1) 0) hlt
  generalize k _ _ = flow at hfollows ⊢
  generalize (ch :: rest).take _ = taken
  have hsigns (more : List Action) :
      signs (.mark .body :: taken.map .advance ++ more) = signs ([.mark .body] ++ more) := by
    rw [List.cons_append, ← List.singleton_append, Slices.signs_append, Slices.signs_append,
      Slices.signs_advances, List.nil_append, ← Slices.signs_append]
  cases flow with
  | goes q more =>
    refine ⟨hfollows.1, ?_⟩
    rw [hsigns]
    exact hfollows.2
  | fails q more =>
    obtain ⟨hq, rest, z', hedge⟩ := hfollows
    refine ⟨hq, rest, z', ?_⟩
    rwa [hsigns]
  | exits q more =>
    refine ⟨hfollows.1, ?_, hfollows.2.2⟩
    rw [hsigns]
    exact hfollows.2.1
  | aborts => exact hfollows

theorem bodyIdentity_follows {rest : Bytes} (h : p.Sound) (hp : p.state = .s_body_identity)
    (hpos : 0 < p.content_length) (hlt : p.content_length < ULLONG_MAX) :
    (bodyIdentity p (ch :: rest)).Follows .body := by
  apply follows_assert
  · rw [Bool.and_eq_true, bne_iff_ne, bne_iff_ne]
    omega
  · apply readBody_follows _ hpos
    intro content_length last hless
    have hle : content_length ≤ ULLONG_MAX := by omega
    split
    · rw [Flow.after_after]
      exact messageDone_follows ⟨h.errno, hle⟩ (.bodyEnds last)
    · next hne =>
      refine ⟨⟨⟨h.errno, hle⟩, ?_⟩, ?_⟩
      · simp only [Parser.Settled, hp]
        exact ⟨Nat.pos_of_ne_zero hne, by omega⟩
      · simp only [hp]
        exact .body

theorem chunkData_follows {rest : Bytes} (h : p.Sound) (hp : p.state = .s_chunk_data)
    (hchunked : p.flags.F_CHUNKED = true) (hpos : 0 < p.content_length)
    (hlt : p.content_length < ULLONG_MAX) : (chunkData p (ch :: rest)).Follows .body := by
  apply follows_assert hchunked
  apply follows_assert
  · rw [Bool.and_eq_true, bne_iff_ne, bne_iff_ne]
    omega
  · apply readBody_follows _ hpos
    intro content_length last hless
    have hle : content_length ≤ ULLONG_MAX := by omega
    split
    · next hzero => exact ⟨⟨⟨h.errno, hle⟩, hchunked, hzero⟩, .body⟩
    · next hne =>
      refine ⟨⟨⟨h.errno, hle⟩, ?_⟩, ?_⟩
      · simp only [Parser.Settled, hp]
        exact ⟨hchunked, Nat.pos_of_ne_zero hne, by omega⟩
      · simp only [hp]
        exact .body

theorem isNum_bounds {ch : UInt8} (h : IS_NUM ch = true) : 48 ≤ ch.toNat ∧ ch.toNat ≤ 57 := by
  unfold IS_NUM at h
  rw [Bool.and_eq_true, decide_eq_true_eq, decide_eq_true_eq, UInt8.le_iff_toNat_le,
    UInt8.le_iff_toNat_le] at h
  exact h

theorem unhex_lt {ch : UInt8} {n : ℕ} (h : unhex ch = some n) : n < 16 := by
  unfold unhex at h
  split_ifs at h with hnum hletter
  · cases h
    have hbounds := isNum_bounds hnum
    omega
  · cases h
    rw [Bool.and_eq_true, decide_eq_true_eq, decide_eq_true_eq, UInt8.le_iff_toNat_le,
      UInt8.le_iff_toNat_le] at hletter
    have hupper : (LOWER ch).toNat ≤ 102 := hletter.2
    omega
  · cases h
    decide

theorem chunkSizeStart_follows (h : p.Sound) (hchunked : p.flags.F_CHUNKED = true)
    (hnread : p.nread = 1) : (chunkSizeStart p ch).Follows .chunk := by
  apply follows_assert (beq_iff_eq.mpr hnread)
  apply follows_assert hchunked
  split
  · exact follows_error _ nofun
  · next n hn =>
    have hlt : n < ULLONG_MAX := lt_trans (unhex_lt hn) (by decide)
    exact ⟨⟨⟨h.errno, hlt.le⟩, hchunked, hlt⟩, .chunk⟩

theorem chunkSize_follows (h : p.Sound) (hp : p.state = .s_chunk_size)
    (hchunked : p.flags.F_CHUNKED = true) (hlt : p.content_length < ULLONG_MAX) :
    (chunkSize p ch).Follows .chunk := by
  apply follows_assert hchunked
  split
  · exact ⟨⟨⟨h.errno, h.content_length⟩, hchunked, hlt⟩, .chunk⟩
  · split
    · split
      · exact ⟨⟨⟨h.errno, h.content_length⟩, hchunked, hlt⟩, .chunk⟩
      · exact follows_error _ nofun
    · next n hn =>
      split
      · exact follows_error _ nofun
      · next hbound =>
        have hn' := unhex_lt hn
        have hnext : (p.content_length * 16 + n) % 2 ^ 64 < ULLONG_MAX := by
          unfold ULLONG_MAX at hbound ⊢
          omega
        refine ⟨⟨⟨h.errno, hnext.le⟩, ?_⟩, ?_⟩
        · simp only [Parser.Settled, hp]
          exact ⟨hchunked, hnext⟩
        · simp only [hp]
          exact .chunk

theorem chunkParameters_follows (h : p.Sound) (hp : p.state = .s_chunk_parameters)
    (hchunked : p.flags.F_CHUNKED = true) (hlt : p.content_length < ULLONG_MAX) :
    (chunkParameters p ch).Follows .chunk := by
  apply follows_assert hchunked
  split
  · exact ⟨⟨⟨h.errno, h.content_length⟩, hchunked, hlt⟩, .chunk⟩
  · refine ⟨⟨h, ?_⟩, ?_⟩
    · simp only [Parser.Settled, hp]
      exact ⟨hchunked, hlt⟩
    · simp only [hp]
      exact .chunk

theorem chunkSizeAlmostDone_follows (h : p.Sound) (hchunked : p.flags.F_CHUNKED = true)
    (hlt : p.content_length < ULLONG_MAX) : (chunkSizeAlmostDone p ch).Follows .chunk := by
  apply follows_assert hchunked
  apply follows_strict
  intro _
  dsimp only
  split
  · exact ⟨⟨⟨h.errno, h.content_length⟩, trivial⟩, .lastChunk⟩
  · next hne =>
    exact ⟨⟨⟨h.errno, h.content_length⟩, hchunked, Nat.pos_of_ne_zero hne, hlt⟩, .chunkBegins⟩

theorem chunkDataAlmostDone_follows (h : p.Sound) (hchunked : p.flags.F_CHUNKED = true)
    (hzero : p.content_length = 0) : (chunkDataAlmostDone p ch).Follows .body := by
  apply follows_assert hchunked
  apply follows_assert (beq_iff_eq.mpr hzero)
  apply follows_strict
  intro _
  exact ⟨⟨⟨h.errno, h.content_length⟩, hchunked⟩, .dataEnds⟩

theorem chunkDataDone_follows (h : p.Sound) (hchunked : p.flags.F_CHUNKED = true) :
    (chunkDataDone p ch).Follows .chunk := by
  apply follows_assert hchunked
  apply follows_strict
  intro _
  exact ⟨⟨⟨h.errno, h.content_length⟩, hchunked, rfl⟩, .chunkEnds⟩

/-! ## A pass, and a round with its count -/

theorem pass_follows {rest : Bytes} (h : p.Sound) (hsettled : p.Settled 1) :
    (pass p ch (ch :: rest)).Follows (zone p.state) := by
  unfold Parser.Settled at hsettled
  unfold pass
  cases hp : p.state <;> simp only [hp] at hsettled ⊢
  case s_dead => exact dead_follows h hp
  case s_start_req => exact startReq_follows h hp
  case s_req_method => exact reqMethod_follows h hp
  case s_req_spaces_before_url => exact reqSpacesBeforeUrl_follows h hp
  case s_req_schema | s_req_schema_slash | s_req_schema_slash_slash | s_req_server_start =>
    exact reqSchema_follows h
  case s_req_server | s_req_server_with_at | s_req_path | s_req_query_string_start
      | s_req_query_string | s_req_fragment_start | s_req_fragment => exact reqUrl_follows h
  case s_req_http_start => exact reqHttpStart_follows h hp
  case s_req_http_H | s_req_http_HT | s_req_http_HTT | s_req_http_HTTP | s_req_http_I
      | s_req_http_IC => exact reqHttpLetter_follows h _ rfl
  case s_req_http_major => exact reqHttpMajor_follows h
  case s_req_http_dot => exact reqHttpDot_follows h
  case s_req_http_minor => exact reqHttpMinor_follows h
  case s_req_http_end => exact reqHttpEnd_follows h
  case s_req_line_almost_done => exact reqLineAlmostDone_follows h
  case s_header_field_start => exact headerFieldStart_follows h
  case s_header_field => exact headerField_follows ⟨h, hp, hsettled⟩ _
  case s_header_value_discard_ws => exact headerValueDiscardWs_follows h hp
  case s_header_value_discard_ws_almost_done =>
    exact follows_strict fun _ => ⟨⟨⟨h.errno, h.content_length⟩, trivial⟩, .name⟩
  case s_header_value_discard_lws => exact headerValueDiscardLws_follows h
  case s_header_value => exact headerValue_follows ⟨h, hp⟩ hsettled _
  case s_header_value_lws => exact headerValueLws_follows h
  case s_header_almost_done =>
    rw [← Flow.after_nil (headerAlmostDone p ch)]
    exact headerAlmostDone_follows h .valued
  case s_chunk_size_start => exact chunkSizeStart_follows h hsettled.1 hsettled.2
  case s_chunk_size => exact chunkSize_follows h hp hsettled.1 hsettled.2
  case s_chunk_parameters => exact chunkParameters_follows h hp hsettled.1 hsettled.2
  case s_chunk_size_almost_done => exact chunkSizeAlmostDone_follows h hsettled.1 hsettled.2
  case s_headers_almost_done => exact headersAlmostDone_follows h
  case s_chunk_data => exact chunkData_follows h hp hsettled.1 hsettled.2.1 hsettled.2.2
  case s_chunk_data_almost_done => exact chunkDataAlmostDone_follows h hsettled.1 hsettled.2
  case s_chunk_data_done => exact chunkDataDone_follows h hsettled
  case s_body_identity => exact bodyIdentity_follows h hp hsettled.1 hsettled.2

/-- The condition on `nread` is about the one state that a count comes before. -/
theorem settled_count (hsettled : p.Settled 0) :
    { p with nread := (p.nread + 1) % 2 ^ 32 }.Settled 1 := by
  unfold Parser.Settled at hsettled ⊢
  cases hp : p.state <;> simp only [hp] at hsettled ⊢
  case s_chunk_size_start => exact ⟨hsettled.1, by simp [hsettled.2]⟩
  all_goals exact hsettled

theorem settled_body (hsettled : p.Settled 0) (hp : PARSING_HEADER p.state = false) :
    p.Settled 1 := by
  unfold Parser.Settled at hsettled ⊢
  cases hs : p.state <;> simp only [hs, PARSING_HEADER] at hsettled hp ⊢
  all_goals first
    | exact hsettled
    | cases hp

theorem round_follows (ch : UInt8) (rest : Bytes) (h : p.Coherent) :
    (round p ch (ch :: rest)).Follows (zone p.state) := by
  unfold round
  cases hp : PARSING_HEADER p.state with
  | false => exact pass_follows h.toSound (settled_body h.settled hp)
  | true =>
    rw [if_pos rfl]
    unfold COUNT_HEADER_SIZE
    dsimp only
    split
    · exact follows_error _ nofun
    · rw [Flow.andThen, Flow.after_nil]
      exact pass_follows ⟨h.errno, h.content_length⟩ (settled_count h.settled)

end
end Http
end WsEngine
