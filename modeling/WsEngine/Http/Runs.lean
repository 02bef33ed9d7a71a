import WsEngine.Http.Zones
import WsEngine.Lib.EventSystem

/-! # Runs of the parser

The rounds of a loop make a path through the zones (`loop_runs`), along which one mark is set at a
time, and between them they go over the data once (`loop_spans`). So `http_parser_execute` returns from
every call, has taken no more bytes than there are, and has taken all of them unless it met an error or
the end of an upgrade request. -/
set_option autoImplicit false

namespace WsEngine
namespace Http
open Slices (advanced signs items track)

/-! ## Paths -/

inductive Path : Zone → List Action → Zone → Prop
  | nil (z : Zone) : Path z [] z
  | cons {z z' z'' : Zone} {actions more : List Action} (h : Edge z actions z')
    (rest : Path z' more z'') : Path z (actions ++ more) z''

theorem Edge.path {z z' : Zone} {actions : List Action} (h : Edge z actions z') :
    Path z actions z' := by
  rw [← List.append_nil actions]
  exact .cons h (.nil z')

theorem Path.append {z z' z'' : Zone} {actions more : List Action} (h : Path z actions z')
    (rest : Path z' more z'') : Path z (actions ++ more) z'' := by
  induction h with
  | nil => exact rest
  | cons h _ ih =>
    rw [List.append_assoc]
    exact .cons h (ih rest)

/-- What `Follows` is for one pass. -/
def Flow.Runs (z : Zone) : Flow → Prop
  | .goes p actions => p.Coherent ∧ Path z (signs actions) (zone p.state)
  | .exits p actions => p.Coherent ∧ Path z (signs actions) (zone p.state) ∧
    zone p.state = .idle ∧ p.upgrade = true
  | .fails p actions => p.http_errno ≠ .HPE_OK ∧ ∃ more z', Path z (signs actions ++ more) z'
  | .aborts => False

theorem Flow.Runs.after {z z' : Zone} {actions : List Action} {flow : Flow} (h : flow.Runs z')
    (hpath : Path z (signs actions) z') : (flow.after actions).Runs z := by
  cases flow with
  | goes q more =>
    refine ⟨h.1, ?_⟩
    rw [Slices.signs_append]
    exact hpath.append h.2
  | fails q more =>
    obtain ⟨hq, rest, z'', hrest⟩ := h
    refine ⟨hq, rest, z'', ?_⟩
    rw [Slices.signs_append, List.append_assoc]
    exact hpath.append hrest
  | exits q more =>
    refine ⟨h.1, ?_, h.2.2⟩
    rw [Slices.signs_append]
    exact hpath.append h.2.1
  | aborts => exact h

theorem signs_concat_advance (actions : List Action) (ch : UInt8) :
    signs (actions ++ [.advance ch]) = signs actions := by
  rw [Slices.signs_append]
  exact List.append_nil _

theorem loop_runs (k : ℕ) (bytes : Bytes) {p : Parser} (h : p.Coherent) :
    (loop k bytes p).Runs (zone p.state) := by
  induction bytes generalizing k p with
  | nil =>
    cases k <;> exact ⟨h, .nil _⟩
  | cons ch rest ih =>
    cases k with
    | succ k => exact ih k h
    | zero =>
      have hround := round_follows ch rest h
      rw [loop]
      cases hflow : round p ch (ch :: rest) with
      | goes q actions =>
        rw [hflow] at hround
        apply (ih _ hround.1).after
        rw [signs_concat_advance]
        exact hround.2.path
      | exits q actions =>
        rw [hflow] at hround
        refine ⟨hround.1, ?_, hround.2.2⟩
        rw [signs_concat_advance]
        exact hround.2.1.path
      | fails q actions =>
        rw [hflow] at hround
        obtain ⟨hq, more, z', hedge⟩ := hround
        exact ⟨hq, more, z', hedge.path⟩
      | aborts =>
        rw [hflow] at hround
        exact hround

/-! ## One mark at a time -/

/-- The part that is open in a zone. -/
def Zone.part : Zone → Option Data
  | .url => some .url
  | .field => some .header_field
  | .value => some .header_value
  | _ => none

/-- In a body the mark may be set or not. -/
def Zone.Open (z : Zone) (part : Option Data) : Prop :=
  part = z.part ∨ z = .body ∧ part = some .body

theorem Edge.tracks {z z' : Zone} {actions : List Action} (h : Edge z actions z')
    {part : Option Data} (hopen : z.Open part) :
    ∃ part', track part actions = some part' ∧ z'.Open part' := by
  induction h generalizing part with
  | valueEmpty h ih =>
    obtain rfl | ⟨hz, -⟩ := hopen
    · exact ih (.inl rfl)
    · cases hz
  | headerEnds h ih =>
    obtain rfl | ⟨hz, -⟩ := hopen
    · exact ih (.inl rfl)
    · cases hz
  | body =>
    obtain rfl | ⟨-, rfl⟩ := hopen
    · exact ⟨_, rfl, .inr ⟨rfl, rfl⟩⟩
    · exact ⟨_, rfl, .inr ⟨rfl, rfl⟩⟩
  | bodyEnds ch =>
    obtain rfl | ⟨-, rfl⟩ := hopen
    · exact ⟨_, rfl, .inl rfl⟩
    · exact ⟨_, rfl, .inl rfl⟩
  | dataEnds =>
    obtain rfl | ⟨-, rfl⟩ := hopen
    · exact ⟨_, rfl, .inl rfl⟩
    · exact ⟨_, rfl, .inl rfl⟩
  | _ =>
    obtain rfl | ⟨hz, -⟩ := hopen
    · exact ⟨_, rfl, .inl rfl⟩
    · cases hz

theorem Path.tracks {z z' : Zone} {actions : List Action} (h : Path z actions z')
    {part : Option Data} (hopen : z.Open part) :
    ∃ part', track part actions = some part' ∧ z'.Open part' := by
  induction h generalizing part with
  | nil z => exact ⟨part, rfl, hopen⟩
  | cons h _ ih =>
    obtain ⟨part', htrack, hopen'⟩ := h.tracks hopen
    obtain ⟨part'', htrack', hopen''⟩ := ih hopen'
    exact ⟨part'', Slices.track_append_some htrack htrack', hopen''⟩

/-- The mark that is set at the first byte. -/
def entry (s : State) : Slices.Pending Data UInt8 := (zone s).part.map fun what => (what, [])

theorem part_entry (s : State) : (entry s).part = (zone s).part := by
  unfold entry Slices.Pending.part
  rw [Option.map_map]
  exact congrFun Option.map_id _

theorem marks_entry (s : State) : Marks.entry s = (entry s).marks := by
  funext what
  cases s <;> cases what <;> rfl

theorem run_entry {s : State} {actions : List Action} {z : Zone}
    (h : Path (zone s) (signs actions) z) :
    (Marks.entry s).run actions = (((entry s).run actions).1.marks, ((entry s).run actions).2) ∧
      z.Open ((entry s).run actions).1.part := by
  obtain ⟨part, htrack, hopen⟩ := h.tracks (.inl rfl)
  rw [Slices.track_signs, ← part_entry] at htrack
  obtain ⟨hrun, hpart⟩ := Slices.Pending.run_marks htrack
  rw [marks_entry, hrun, hpart]
  exact ⟨rfl, hopen⟩

theorem atMostOne_marks (pending : Slices.Pending Data UInt8) : atMostOne pending.marks = true := by
  cases pending with
  | none => rfl
  | some open_ =>
    obtain ⟨what, bytes⟩ := open_
    cases what <;> rfl

theorem leftover_marks (pending : Slices.Pending Data UInt8) :
    leftover pending.marks = pending.report [] := by
  cases pending with
  | none => rfl
  | some open_ =>
    obtain ⟨what, bytes⟩ := open_
    cases what <;> rfl

/-! ## The bytes that are passed -/

/-- `p` has not moved. -/
def Flow.Still : Flow → Prop
  | .goes _ actions | .fails _ actions | .exits _ actions => items actions = []
  | .aborts => True

theorem Flow.Still.after {flow : Flow} (h : flow.Still) {actions : List Action}
    (hactions : items actions = []) : (flow.after actions).Still := by
  cases flow with
  | aborts => trivial
  | _ => simpa [Flow.Still, Flow.after, hactions] using h

section
variable {p : Parser} {ch : UInt8}

theorem still_error (e : Errno) : (p.error e).Still := rfl

theorem still_strict {cond : Bool} {k : Flow} (h : k.Still) : (STRICT_CHECK p cond k).Still := by
  cases cond with
  | false => exact h
  | true => rfl

theorem still_assert {cond : Bool} {k : Flow} (h : k.Still) : (assert cond k).Still := by
  cases cond with
  | false => trivial
  | true => exact h

theorem still_updateUrl : (updateUrl p ch).Still := by
  unfold updateUrl
  dsimp only
  split <;> rfl

theorem still_messageDone : (messageDone p).Still := by
  unfold messageDone
  split <;> rfl

theorem still_headersDone : (headersDone p ch).Still := by
  apply still_strict
  dsimp only
  split_ifs <;> rfl

theorem still_headersAlmostDone : (headersAlmostDone p ch).Still := by
  apply still_strict
  split_ifs
  · exact still_messageDone.after rfl
  · rfl
  · exact still_headersDone.after rfl

theorem still_headerFieldStart : (headerFieldStart p ch).Still := by
  unfold headerFieldStart
  split_ifs
  · rfl
  · exact still_headersAlmostDone
  · rfl
  · rfl

theorem still_headerValueStart : (headerValueStart p ch).Still := by
  unfold headerValueStart
  dsimp only
  split
  all_goals first
    | rfl
    | (split_ifs <;> rfl)

/-- In all states but those that have loops of their own. -/
theorem still_pass {bytes : Bytes} (hfield : p.state ≠ .s_header_field)
    (hvalue : p.state ≠ .s_header_value) (hbody : p.state ≠ .s_body_identity)
    (hdata : p.state ≠ .s_chunk_data) : (pass p ch bytes).Still := by
  unfold pass
  cases hp : p.state <;> simp only [hp] at hfield hvalue hbody hdata ⊢
  case s_header_field | s_header_value | s_body_identity | s_chunk_data => contradiction
  case s_dead =>
    unfold dead
    split <;> rfl
  case s_start_req =>
    unfold startReq
    dsimp only
    split_ifs
    · rfl
    · rfl
    · split <;> rfl
  case s_req_method =>
    unfold reqMethod
    dsimp only
    split_ifs
    · rfl
    · rfl
    · rfl
    · split <;> rfl
    · rfl
  case s_req_spaces_before_url =>
    unfold reqSpacesBeforeUrl
    split_ifs
    · rfl
    · exact still_updateUrl.after rfl
    · exact still_updateUrl.after rfl
  case s_req_schema | s_req_schema_slash | s_req_schema_slash_slash | s_req_server_start =>
    unfold reqSchema
    split
    · rfl
    · exact still_updateUrl
  case s_req_server | s_req_server_with_at | s_req_path | s_req_query_string_start
      | s_req_query_string | s_req_fragment_start | s_req_fragment =>
    unfold reqUrl
    split_ifs
    · rfl
    · rfl
    · rfl
    · exact still_updateUrl
  case s_req_http_start =>
    unfold reqHttpStart
    split_ifs <;> rfl
  case s_req_http_H | s_req_http_HT | s_req_http_HTT | s_req_http_HTTP | s_req_http_I
      | s_req_http_IC => exact still_strict rfl
  case s_req_http_major =>
    unfold reqHttpMajor
    split <;> rfl
  case s_req_http_dot =>
    unfold reqHttpDot
    split <;> rfl
  case s_req_http_minor =>
    unfold reqHttpMinor
    split <;> rfl
  case s_req_http_end =>
    unfold reqHttpEnd
    split_ifs <;> rfl
  case s_req_line_almost_done =>
    unfold reqLineAlmostDone
    split <;> rfl
  case s_header_field_start => exact still_headerFieldStart
  case s_header_value_discard_ws =>
    unfold headerValueDiscardWs
    split_ifs
    · rfl
    · rfl
    · rfl
    · exact still_headerValueStart
  case s_header_value_discard_ws_almost_done => exact still_strict rfl
  case s_header_value_discard_lws =>
    unfold headerValueDiscardLws
    split_ifs
    · rfl
    · rfl
    · exact still_headerFieldStart.after rfl
  case s_header_value_start => exact still_headerValueStart
  case s_header_value_lws =>
    unfold headerValueLws
    split
    · exact still_headerValueStart
    · exact still_headerFieldStart
  case s_header_almost_done =>
    unfold headerAlmostDone
    split <;> rfl
  case s_headers_almost_done => exact still_headersAlmostDone
  case s_headers_done => exact still_headersDone
  case s_message_done => exact still_messageDone
  case s_chunk_size_start =>
    apply still_assert
    apply still_assert
    split <;> rfl
  case s_chunk_size =>
    apply still_assert
    split
    · rfl
    · split
      · split <;> rfl
      · split <;> rfl
  case s_chunk_parameters =>
    apply still_assert
    split <;> rfl
  case s_chunk_size_almost_done =>
    apply still_assert
    apply still_strict
    dsimp only
    split <;> rfl
  case s_chunk_data_almost_done =>
    apply still_assert
    apply still_assert
    exact still_strict rfl
  case s_chunk_data_done =>
    apply still_assert
    exact still_strict rfl

/-- `p` is at one of the bytes, and has gone over those before it. -/
def Flow.Spans (bytes : Bytes) : Flow → Prop
  | .goes _ actions | .fails _ actions | .exits _ actions =>
    ∃ n < bytes.length, items actions = bytes.take n
  | .aborts => True

theorem Flow.Still.spans {flow : Flow} (h : flow.Still) (ch : UInt8) (rest : Bytes) :
    flow.Spans (ch :: rest) := by
  cases flow with
  | aborts => trivial
  | _ => exact ⟨0, by rw [List.length_cons]; omega, h⟩

/-- The loop inside the state stopped in front of a byte. -/
theorem spans_stopped {bytes : Bytes} {n : ℕ} {stop : UInt8} {rest : Bytes}
    (hrest : bytes.drop ((bytes.take n).map (.advance : UInt8 → Action)).length = stop :: rest)
    {flow : Flow} (h : flow.Still) : (flow.after ((bytes.take n).map .advance)).Spans bytes := by
  have hlen := congrArg List.length hrest
  rw [List.length_drop, List.length_map, List.length_cons, List.length_take] at hlen
  have hspan (more : List Action) (hmore : items more = []) :
      ∃ m < bytes.length, items ((bytes.take n).map .advance ++ more) = bytes.take m := by
    refine ⟨n, by omega, ?_⟩
    rw [Slices.items_append, Slices.items_advances, hmore, List.append_nil]
  cases flow with
  | aborts => trivial
  | _ => exact hspan _ h

/-- It went to the end, and `p` steps back to the last byte. -/
theorem spans_last {ch : UInt8} {rest : Bytes} {n : ℕ}
    (hrest : (ch :: rest).drop (((ch :: rest).take n).map (.advance : UInt8 → Action)).length = [])
    (v : ℕ) (p : Parser) :
    ((COUNT_HEADER_SIZE v p).after (((ch :: rest).take n).map .advance).dropLast).Spans
      (ch :: rest) := by
  have hlen := congrArg List.length hrest
  rw [List.length_drop, List.length_map, List.length_nil, List.length_take] at hlen
  have hspan : ∃ m < (ch :: rest).length,
      items ((((ch :: rest).take n).map .advance).dropLast ++ [] : List Action) =
        (ch :: rest).take m := by
    refine ⟨rest.length, by simp, ?_⟩
    rw [List.append_nil, ← List.map_dropLast, Slices.items_advances,
      List.take_of_length_le (by omega), List.dropLast_eq_take, List.length_cons,
      Nat.add_sub_cancel]
  rcases count_cases v p with ⟨nread, hcount⟩ | ⟨nread, hcount⟩
  · rw [hcount]
    exact hspan
  · rw [hcount]
    exact hspan

theorem still_count (v : ℕ) {k : Parser → Flow} (hk : ∀ q, (k q).Still) :
    ((COUNT_HEADER_SIZE v p).andThen k).Still := by
  rcases count_cases v p with ⟨nread, hcount⟩ | ⟨nread, hcount⟩
  · rw [hcount, Flow.andThen, Flow.after_nil]
    exact hk _
  · rw [hcount]
    rfl

theorem spans_headerField {rest : Bytes} (h : p.Named) :
    (headerField p (ch :: rest)).Spans (ch :: rest) := by
  have htook := fieldLoop_took 0 (ch :: rest) h
  unfold headerField
  cases hloop : fieldLoop 0 (ch :: rest) p with
  | aborts => trivial
  | exits q actions =>
    rw [hloop] at htook
    exact htook.elim
  | fails q actions =>
    rw [hloop] at htook
    obtain ⟨⟨n, hn, rfl⟩, -⟩ := htook
    exact ⟨n, hn, Slices.items_advances _⟩
  | goes q actions =>
    rw [hloop] at htook
    obtain ⟨⟨n, -, rfl⟩, -⟩ := htook
    dsimp only
    unfold fieldStop
    split
    · next hrest => exact spans_last hrest _ _
    · next stop more hrest =>
      apply spans_stopped hrest
      apply still_count
      intro q
      split <;> rfl

theorem spans_headerValue {rest : Bytes} (h : p.Valued) (hh : Valuing p.header_state) :
    (headerValue p (ch :: rest)).Spans (ch :: rest) := by
  have htook := valueLoop_took 0 (ch :: rest) hh h
  unfold headerValue
  cases hloop : valueLoop 0 (ch :: rest) p.header_state p with
  | aborts => trivial
  | exits q actions =>
    rw [hloop] at htook
    exact htook.elim
  | fails q actions =>
    rw [hloop] at htook
    obtain ⟨⟨n, hn, rfl⟩, -⟩ := htook
    exact ⟨n, hn, Slices.items_advances _⟩
  | goes q actions =>
    rw [hloop] at htook
    obtain ⟨⟨n, -, rfl⟩, -⟩ := htook
    dsimp only
    unfold valueStop
    split
    · next hrest => exact spans_last hrest _ _
    · next stop more hrest =>
      dsimp only
      split
      · rw [← Flow.after_after]
        apply spans_stopped hrest
        apply Flow.Still.after _ rfl
        unfold COUNT_HEADER_SIZE
        dsimp only
        split <;> rfl
      · apply spans_stopped hrest
        apply still_count
        intro q
        apply Flow.Still.after _ rfl
        unfold headerAlmostDone
        split <;> rfl

theorem spans_readBody {rest : Bytes} {k : Parser → UInt8 → Flow}
    (hk : ∀ q last, (k q last).Still) : (readBody p (ch :: rest) k).Spans (ch :: rest) := by
  unfold readBody
  dsimp only
  have hflow := hk { p with content_length := p.content_length - min p.content_length (ch :: rest).length }
    ((ch :: rest).getD (min p.content_length (ch :: rest).length - 1) 0)
  generalize k _ _ = flow at hflow ⊢
  have hspan (more : List Action) (hmore : items more = []) :
      ∃ n < (ch :: rest).length, items (.mark .body ::
        ((ch :: rest).take (min p.content_length (ch :: rest).length - 1)).map .advance ++ more) =
          (ch :: rest).take n := by
    refine ⟨min p.content_length (ch :: rest).length - 1, ?_, ?_⟩
    · rw [List.length_cons]
      omega
    · rw [Slices.items_append, hmore, List.append_nil]
      exact Slices.items_advances _
  cases flow with
  | aborts => trivial
  | _ => exact hspan _ hflow

theorem spans_assert {cond : Bool} {bytes : Bytes} {k : Flow} (h : k.Spans bytes) :
    (assert cond k).Spans bytes := by
  cases cond with
  | false => trivial
  | true => exact h

theorem spans_pass {rest : Bytes} (h : p.Sound) (hsettled : p.Settled 1) :
    (pass p ch (ch :: rest)).Spans (ch :: rest) := by
  unfold Parser.Settled at hsettled
  by_cases hfield : p.state = .s_header_field
  · rw [hfield] at hsettled
    unfold pass
    rw [hfield]
    exact spans_headerField ⟨h, hfield, hsettled⟩
  by_cases hvalue : p.state = .s_header_value
  · rw [hvalue] at hsettled
    unfold pass
    rw [hvalue]
    exact spans_headerValue ⟨h, hvalue⟩ hsettled
  by_cases hbody : p.state = .s_body_identity
  · rw [hbody] at hsettled
    unfold pass
    rw [hbody]
    apply spans_assert
    apply spans_readBody
    intro q last
    split
    · exact still_messageDone.after rfl
    · rfl
  by_cases hdata : p.state = .s_chunk_data
  · rw [hdata] at hsettled
    unfold pass
    rw [hdata]
    apply spans_assert
    apply spans_assert
    apply spans_readBody
    intro q last
    split <;> rfl
  exact (still_pass hfield hvalue hbody hdata).spans ch rest

theorem round_spans (ch : UInt8) (rest : Bytes) (h : p.Coherent) :
    (round p ch (ch :: rest)).Spans (ch :: rest) := by
  unfold round
  cases hp : PARSING_HEADER p.state with
  | false => exact spans_pass h.toSound (settled_body h.settled hp)
  | true =>
    rw [if_pos rfl]
    unfold COUNT_HEADER_SIZE
    dsimp only
    split
    · exact (still_error _).spans ch rest
    · rw [Flow.andThen, Flow.after_nil]
      exact spans_pass ⟨h.errno, h.content_length⟩ (settled_count h.settled)

end

/-! ## The whole loop -/

theorem loop_drop (k : ℕ) (bytes : Bytes) (p : Parser) : loop k bytes p = loop 0 (bytes.drop k) p := by
  induction k generalizing bytes with
  | zero => rfl
  | succ k ih =>
    cases bytes with
    | nil => rfl
    | cons ch rest => exact ih rest

theorem loop_goes {p q : Parser} {ch : UInt8} {rest : Bytes} {actions : List Action}
    (h : round p ch (ch :: rest) = .goes q actions) :
    loop 0 (ch :: rest) p =
      (loop 0 ((ch :: rest).drop (advanced actions + 1)) q).after
        (actions ++ [.advance ((ch :: rest).getD (advanced actions) 0)]) := by
  rw [loop, h]
  dsimp only
  rw [loop_drop]
  rfl

/-- A loop that ends has gone over all the data, and one that is left early over the first of it. -/
def Flow.Covers (bytes : Bytes) : Flow → Prop
  | .goes _ actions => items actions = bytes
  | .fails _ actions => ∃ n < bytes.length, items actions = bytes.take n
  | .exits _ actions => ∃ n ≤ bytes.length, items actions = bytes.take n
  | .aborts => True

/-- The byte at `p`, where the flow goes on or returns, is passed as well. -/
theorem items_concat {bytes : Bytes} {actions : List Action} {n : ℕ} (hn : n < bytes.length)
    (hactions : items actions = bytes.take n) :
    items (actions ++ [.advance (bytes.getD (advanced actions) 0)]) = bytes.take (n + 1) := by
  have hadvanced : advanced actions = n := by
    rw [advanced, hactions, List.length_take]
    omega
  rw [Slices.items_append, hactions, hadvanced, List.take_add_one, List.getD_eq_getElem?_getD,
    List.getElem?_eq_getElem hn]
  rfl

theorem Flow.Covers.after {bytes : Bytes} {n : ℕ} {actions : List Action} {flow : Flow}
    (h : flow.Covers (bytes.drop n)) (hn : n ≤ bytes.length) (hactions : items actions = bytes.take n) :
    (flow.after actions).Covers bytes := by
  cases flow with
  | aborts => trivial
  | goes q more =>
    change items more = bytes.drop n at h
    change items (actions ++ more) = bytes
    rw [Slices.items_append, hactions, h, List.take_append_drop]
  | fails q more =>
    obtain ⟨m, hm, hmore⟩ := h
    rw [List.length_drop] at hm
    refine ⟨n + m, by omega, ?_⟩
    rw [Slices.items_append, hactions, hmore, List.take_add]
  | exits q more =>
    obtain ⟨m, hm, hmore⟩ := h
    rw [List.length_drop] at hm
    refine ⟨n + m, by omega, ?_⟩
    rw [Slices.items_append, hactions, hmore, List.take_add]

theorem loop_covers (bytes : Bytes) {p : Parser} (h : p.Coherent) : (loop 0 bytes p).Covers bytes := by
  induction hlen : bytes.length using Nat.strong_induction_on generalizing bytes p with
  | _ len ih =>
    cases bytes with
    | nil => rfl
    | cons ch rest =>
      have hspans := round_spans ch rest h
      have hfollows := round_follows ch rest h
      cases hflow : round p ch (ch :: rest) with
      | aborts =>
        rw [loop, hflow]
        trivial
      | fails q actions =>
        rw [hflow] at hspans
        rw [loop, hflow]
        exact hspans
      | exits q actions =>
        rw [hflow] at hspans
        rw [loop, hflow]
        obtain ⟨n, hn, hactions⟩ := hspans
        exact ⟨n + 1, hn, items_concat hn hactions⟩
      | goes q actions =>
        rw [hflow] at hspans hfollows
        obtain ⟨n, hn, hactions⟩ := hspans
        have hconcat := items_concat hn hactions
        have hadvanced : advanced actions = n := by
          rw [advanced, hactions, List.length_take]
          omega
        rw [loop_goes hflow, hadvanced]
        rw [hadvanced] at hconcat
        apply Flow.Covers.after _ hn hconcat
        have hless : ((ch :: rest).drop (n + 1)).length < len := by
          rw [List.length_drop]
          omega
        exact ih _ hless _ hfollows.1 rfl

/-! ## `http_parser_execute` -/

/-- The function after its loop, with the marks as the part that is open. -/
def Flow.executed (s : State) (data : Bytes) : Flow → Option Executed
  | .goes p actions => some ⟨(entry s).closed actions, data.length, p, .len⟩
  | .fails p actions => some ⟨((entry s).run actions).2, advanced actions, p, .error⟩
  | .exits p actions => some ⟨((entry s).run actions).2, advanced actions, p, .upgraded⟩
  | .aborts => none

theorem Path.prefix_run {s : State} {actions more : List Action} {z : Zone}
    (h : Path (zone s) (signs actions ++ more) z) :
    ((Marks.entry s).run actions).2 = ((entry s).run actions).2 := by
  obtain ⟨part, htrack, -⟩ := h.tracks (.inl rfl)
  rw [Slices.track_append, Slices.track_signs] at htrack
  obtain ⟨middle, hmiddle, -⟩ := Option.bind_eq_some_iff.mp htrack
  rw [← part_entry] at hmiddle
  rw [marks_entry, (Slices.Pending.run_marks hmiddle).1]

theorem http_parser_execute_ok {p : Parser} (h : p.Coherent) {data : Bytes} (hdata : data ≠ []) :
    http_parser_execute p data = (loop 0 data p).executed p.state data := by
  have hruns := loop_runs 0 data h
  unfold http_parser_execute
  rw [if_neg (not_not.mpr h.errno), if_neg hdata]
  dsimp only
  cases hflow : loop 0 data p with
  | aborts => rfl
  | goes q actions =>
    rw [hflow] at hruns
    dsimp only
    rw [(run_entry hruns.2).1]
    dsimp only
    rw [atMostOne_marks, if_pos rfl, leftover_marks]
    rfl
  | exits q actions =>
    rw [hflow] at hruns
    dsimp only
    rw [(run_entry hruns.2.1).1]
    rfl
  | fails q actions =>
    rw [hflow] at hruns
    obtain ⟨-, more, z, hpath⟩ := hruns
    dsimp only
    rw [hpath.prefix_run]
    rfl

/-- A parser that calls can leave: it has found an error, or is at the head of the loop. -/
def Parser.Lives (p : Parser) : Prop := p.http_errno = .HPE_OK → p.Coherent

/-- A call that returns, and says how much of the data it has taken. -/
structure Returns (p : Parser) (data : Bytes) (e : Executed) : Prop where
  atMost : data ≠ [] → e.nparsed ≤ data.length
  whole : e.returned = .len → e.nparsed = data.length
  stopped : data ≠ [] → e.returned = .error → e.nparsed < data.length
  error : e.returned = .error ↔ e.parser.http_errno ≠ .HPE_OK
  upgraded : e.returned = .upgraded → e.parser.upgrade = true ∧ zone e.parser.state = .idle
  dead : p.http_errno ≠ .HPE_OK → e.calls = [] ∧ e.nparsed = 0 ∧ e.parser = p

theorem advanced_lt {data : Bytes} {actions : List Action} {n : ℕ} (hn : n ≤ data.length)
    (h : items actions = data.take n) : advanced actions = n := by
  rw [advanced, h, List.length_take]
  omega

theorem http_parser_execute_returns {p : Parser} (h : p.Lives) (data : Bytes) :
    ∃ e, http_parser_execute p data = some e ∧ Returns p data e ∧ e.parser.Lives := by
  by_cases herrno : p.http_errno = .HPE_OK
  · have hcoherent := h herrno
    by_cases hdata : data = []
    · subst hdata
      unfold http_parser_execute
      rw [if_neg (not_not.mpr herrno), if_pos rfl]
      have hidle : ∃ e, some (⟨[], 0, p, .len⟩ : Executed) = some e ∧ Returns p [] e ∧
          e.parser.Lives :=
        ⟨_, rfl, ⟨fun hne => absurd rfl hne, fun _ => rfl, fun hne => absurd rfl hne,
          ⟨nofun, fun hne => absurd herrno hne⟩, nofun, fun hne => absurd herrno hne⟩, h⟩
      split
      · exact hidle
      · exact hidle
      · exact ⟨_, rfl, ⟨fun hne => absurd rfl hne, nofun, fun hne => absurd rfl hne,
          ⟨fun _ => nofun, fun _ => rfl⟩, nofun, fun hne => absurd herrno hne⟩, nofun⟩
    · have hruns := loop_runs 0 data hcoherent
      have hcovers := loop_covers data hcoherent
      rw [http_parser_execute_ok hcoherent hdata]
      cases hflow : loop 0 data p with
      | aborts =>
        rw [hflow] at hruns
        exact hruns.elim
      | goes q actions =>
        rw [hflow] at hruns
        exact ⟨_, rfl, ⟨fun _ => le_rfl, fun _ => rfl, nofun,
          ⟨nofun, fun hne => absurd hruns.1.errno hne⟩, nofun, fun hne => absurd herrno hne⟩,
          fun _ => hruns.1⟩
      | exits q actions =>
        rw [hflow] at hruns hcovers
        obtain ⟨n, hn, hitems⟩ := hcovers
        refine ⟨_, rfl, ⟨fun _ => ?_, nofun, nofun, ⟨nofun, fun hne => absurd hruns.1.errno hne⟩,
          fun _ => ⟨hruns.2.2.2, hruns.2.2.1⟩, fun hne => absurd herrno hne⟩, fun _ => hruns.1⟩
        change advanced actions ≤ data.length
        rw [advanced_lt hn hitems]
        exact hn
      | fails q actions =>
        rw [hflow] at hruns hcovers
        obtain ⟨n, hn, hitems⟩ := hcovers
        have hadvanced := advanced_lt hn.le hitems
        refine ⟨_, rfl, ⟨fun _ => ?_, nofun, fun _ _ => ?_, ⟨fun _ => hruns.1, fun _ => rfl⟩, nofun,
          fun hne => absurd herrno hne⟩, fun hok => absurd hok hruns.1⟩
        · change advanced actions ≤ data.length
          omega
        · change advanced actions < data.length
          omega
  · unfold http_parser_execute
    rw [if_pos herrno]
    exact ⟨_, rfl, ⟨fun _ => Nat.zero_le _, nofun, fun hne _ => List.length_pos_iff.mpr hne,
      ⟨fun _ => herrno, fun _ => rfl⟩, nofun, fun _ => ⟨rfl, rfl, rfl⟩⟩,
      fun hok => absurd hok herrno⟩

def Executed.leaves : Option Executed → Except Unit Parser
  | some e => .ok e.parser
  | none => .error ()

/-- Calls with one buffer after another, whatever the calls before returned. -/
def calls : EventSystem Parser Bytes Unit where
  enabled _ _ := True
  step p data := Executed.leaves (http_parser_execute p data)

theorem init_lives : http_parser_init.Lives := fun _ => Parser.init_coherent

theorem calls_step {p : Parser} (h : p.Lives) (data : Bytes) :
    (calls.step p data).Ends Parser.Lives fun _ => False := by
  obtain ⟨e, he, -, hlives⟩ := http_parser_execute_returns h data
  change (Executed.leaves (http_parser_execute p data)).Ends _ _
  rw [he]
  exact .ok hlives

theorem run_lives (datas : List Bytes) :
    (calls.run http_parser_init datas).Ends Parser.Lives fun _ => False :=
  calls.run_ends Parser.Lives (fun _ _ => True) (fun _ => False)
    (fun _ data hp _ _ => calls_step hp data) init_lives
    (calls.legal_of_enabled (fun _ _ => trivial) http_parser_init datas) fun _ _ => trivial

/-- Every call returns, also the calls after one that met an error, and takes what it says. -/
theorem every_call_returns (datas : List Bytes) :
    ((calls.run http_parser_init datas).Ends Parser.Lives fun _ => False) ∧
      ∀ c ∈ calls.steps http_parser_init datas,
        ∃ e, http_parser_execute c.1 c.2 = some e ∧ Returns c.1 c.2 e := by
  refine ⟨run_lives datas, ?_⟩
  intro c hc
  obtain ⟨hlives, -⟩ := calls.invariant_of_guard Parser.Lives (fun _ _ => True)
    (fun p data q hp _ _ hq => by
      have hends := calls_step hp data
      rw [hq, Except.ends_ok] at hends
      exact hends) init_lives (calls.legal_of_enabled (fun _ _ => trivial) http_parser_init datas)
    (fun _ _ => trivial) c hc
  obtain ⟨e, he, hreturns, -⟩ := http_parser_execute_returns hlives c.2
  exact ⟨e, he, hreturns⟩

end Http
end WsEngine
