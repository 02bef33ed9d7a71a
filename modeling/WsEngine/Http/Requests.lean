import WsEngine.Http.Lines

/-! # Requests without a body

Such a request is reported as it was written, however it is cut into reads, and the parser stops behind it
if it asks for an upgrade: not a byte of what follows is taken (`request_reported`). -/
set_option autoImplicit false

namespace WsEngine
namespace Http
open Slices (advanced signs items track Alike Same)

/-- A request that names neither a length nor a coding. -/
structure Request where
  method : Method
  url : Bytes
  http_major : Fin 10
  http_minor : Fin 10
  lines : List HeaderLine
  method_ne : method ≠ .CONNECT
  target : Target url
  bodiless : ∀ line ∈ lines, line.Bodiless

namespace Request

def bytes (r : Request) : Bytes :=
  (ascii (method_strings r.method) ++ [SP]) ++ ((r.url ++ [SP]) ++
    (versionBytes r.http_major r.http_minor ++ (r.lines.flatMap HeaderLine.bytes ++ [CR, LF])))

def requestLine (r : Request) : RequestLine := ⟨r.method.number, r.http_major, r.http_minor⟩

def calls (r : Request) : List Call :=
  .notify .message_begin :: .slice .url r.url :: (r.lines.flatMap HeaderLine.calls ++
    [.notify (.headers_complete r.requestLine), .notify .message_complete])

end Request

section
variable {p q : Parser}

/-! ## The header section -/

theorem Parser.Passes.refl (h : p.AtLine) : p.Passes [] p :=
  ⟨h, rfl, rfl, .refl _⟩

theorem Parser.Passes.trans {r : Parser} {lines more : List HeaderLine} (h : p.Passes lines q)
    (h' : q.Passes more r) : p.Passes (lines ++ more) r where
  atLine := h'.atLine
  nread := by
    rw [h'.nread, h.nread, List.flatMap_append, List.length_append, Nat.add_assoc]
  same := by
    rw [h'.same, h.same]
  flags := by
    rw [List.any_append, List.any_append]
    exact h.flags.trans h'.flags

theorem reads_lines {lines : List HeaderLine} (hbodiless : ∀ line ∈ lines, line.Bodiless)
    (h : p.AtLine)
    (hn : p.nread + (lines.flatMap HeaderLine.bytes).length ≤ max_header_size) :
    ∃ q calls, Reads (p, none) (lines.flatMap HeaderLine.bytes) calls (q, none) ∧
      calls ++ owed q = owed p ++ lines.flatMap HeaderLine.calls ∧ p.Passes lines q := by
  induction lines generalizing p with
  | nil => exact ⟨p, [], .nil _, (List.append_nil _).symm, .refl h⟩
  | cons line lines ih =>
    obtain ⟨hline, hlines⟩ := List.forall_mem_cons.mp hbodiless
    rw [List.flatMap_cons, List.length_append] at hn
    obtain ⟨q, calls, hreads, hcalls, hpasses⟩ := reads_line line hline h (by omega)
    have hnread := hpasses.nread
    rw [List.flatMap_singleton] at hnread
    obtain ⟨r, calls', hreads', hcalls', hpasses'⟩ := ih hlines hpasses.atLine (by omega)
    refine ⟨r, calls ++ calls', hreads.append hreads', ?_, hpasses.trans hpasses'⟩
    rw [List.append_assoc, hcalls', ← List.append_assoc, hcalls, List.append_assoc]
    rfl

/-- The first byte of the empty line. -/
theorem reads_emptyLine (h : p.AtLine) (hn : p.nread + 1 ≤ max_header_size) :
    Reads (p, none) [CR] (owed p) ({ p.atLine with
      state := .s_headers_almost_done
      nread := p.nread + 1 }, none) := by
  have hpass : pass { p with nread := p.nread + 1 } CR [CR] = .goes { p.atLine with
      state := .s_headers_almost_done
      nread := p.nread + 1 } (p.before ++ []) := by
    rw [pass_line (p := { p with nread := p.nread + 1 }) h (by decide), atLine_nread, headerFieldStart,
      if_pos rfl]
    rfl
  apply reads_byte (parsing_atLine h) hn hpass
  · rw [Slices.items_append, items_before]
    rfl
  · rw [List.append_assoc, run_before]
    simp [Slices.Pending.run, Slices.Pending.act]

/-- The parser behind a header section without a body. -/
def Parser.done (p : Parser) : Parser :=
  let p := { p with
    upgrade := p.flags.F_UPGRADE && p.flags.F_CONNECTION_UPGRADE
    nread := 0 }
  { p with state := p.NEW_MESSAGE }

theorem headersAlmostDone_bodiless (hmethod : p.method ≠ .CONNECT)
    (hchunked : p.flags.F_CHUNKED = false) (htrailing : p.flags.F_TRAILING = false)
    (hlength : p.content_length = ULLONG_MAX) :
    headersAlmostDone p LF =
      if p.done.upgrade then
        .exits p.done [.notify (.headers_complete p.request), .notify .message_complete]
      else .goes p.done [.notify (.headers_complete p.request), .notify .message_complete] := by
  have hconnect : (p.method == .CONNECT) = false := beq_eq_false_iff_ne.mpr hmethod
  have hzero : ULLONG_MAX ≠ 0 := by decide
  unfold headersAlmostDone headersDone STRICT_CHECK hasBody
  simp only [bne_self_eq_false, Bool.false_eq_true, if_false, htrailing, hchunked, hconnect, hlength,
    hzero, Bool.false_and, Bool.and_false, Bool.or_false, Bool.false_or, Bool.not_false,
    Bool.and_true, ne_eq, not_true_eq_false]
  by_cases hupgrade : (p.flags.F_UPGRADE && p.flags.F_CONNECTION_UPGRADE) = true
  · have hdone : p.done.upgrade = true := hupgrade
    rw [if_pos hupgrade, if_pos hdone, ← hlength]
    rfl
  · have hdone : ¬p.done.upgrade = true := hupgrade
    rw [if_neg hupgrade, if_neg hdone, ← hlength]
    rfl

/-- The last byte. -/
theorem loop_headersDone (hp : p.state = .s_headers_almost_done) (hmethod : p.method ≠ .CONNECT)
    (hchunked : p.flags.F_CHUNKED = false) (htrailing : p.flags.F_TRAILING = false)
    (hlength : p.content_length = ULLONG_MAX) (hn : p.nread + 1 ≤ max_header_size) :
    loop 0 [LF] p =
      if p.done.upgrade then .exits p.done
        [.notify (.headers_complete p.request), .notify .message_complete, .advance LF]
      else .goes p.done
        [.notify (.headers_complete p.request), .notify .message_complete, .advance LF] := by
  have hround : round p LF [LF] =
      if p.done.upgrade then
        .exits p.done [.notify (.headers_complete p.request), .notify .message_complete]
      else .goes p.done [.notify (.headers_complete p.request), .notify .message_complete] := by
    have hdone := headersAlmostDone_bodiless (p := { p with nread := p.nread + 1 }) hmethod hchunked
      htrailing hlength
    rw [round_header (by rw [hp]; rfl), count_eq hn, Flow.andThen, Flow.after_nil]
    unfold pass
    simp only [hp] at hdone ⊢
    rw [hdone]
    rfl
  by_cases hupgrade : p.done.upgrade = true
  · rw [if_pos hupgrade] at hround ⊢
    rw [loop, hround]
    rfl
  · rw [if_neg hupgrade] at hround ⊢
    rw [loop_goes_still hround rfl]
    rfl

end

/-! ## The whole request -/

namespace Request

/-- It has an `Upgrade` header and one that asks for it. -/
def upgrades (r : Request) : Prop :=
  r.lines.any HeaderLine.upgrades = true ∧ r.lines.any HeaderLine.connects = true

instance (r : Request) : Decidable r.upgrades := inferInstanceAs (Decidable (_ ∧ _))

/-- The parser in front of the headers. -/
def headed (r : Request) : Parser := { Parser.requested r.method with
  http_major := r.http_major
  http_minor := r.http_minor
  state := .s_header_field_start
  nread := (method_strings r.method).length + 1 + r.url.length + 1 + 10 }

theorem length_bytes (r : Request) : r.bytes.length =
    (method_strings r.method).length + 1 + r.url.length + 1 + 10 +
      (r.lines.flatMap HeaderLine.bytes).length + 2 := by
  have hmethod : (ascii (method_strings r.method)).length = (method_strings r.method).length := by
    rw [ascii, List.length_map]
    exact String.length_toList
  have hversion : (versionBytes r.http_major r.http_minor).length = 10 := rfl
  unfold bytes
  simp only [List.length_append, List.length_cons, List.length_nil, hmethod, hversion]
  omega

theorem reads_requestLine (r : Request) (hlen : r.bytes.length ≤ max_header_size) :
    Reads (http_parser_init, none)
      ((ascii (method_strings r.method) ++ [SP]) ++ ((r.url ++ [SP]) ++
        versionBytes r.http_major r.http_minor))
      [.notify .message_begin, .slice .url r.url] (r.headed, none) := by
  rw [length_bytes] at hlen
  have hurl := reads_url (p := .requested r.method) rfl r.method_ne r.target
    (show (method_strings r.method).length + 1 + r.url.length + 1 ≤ _ by omega)
  have hversion := reads_version (p := { Parser.requested r.method with
    state := .s_req_http_start
    nread := (method_strings r.method).length + 1 + r.url.length + 1 }) rfl r.http_major r.http_minor
    (show (method_strings r.method).length + 1 + r.url.length + 1 + 10 ≤ _ by omega)
  exact (reads_method r.method).append (hurl.append hversion)

/-- In front of the last byte. -/
structure Complete (r : Request) (p : Parser) : Prop where
  state : p.state = .s_headers_almost_done
  method : p.method = r.method
  request : p.request = r.requestLine
  chunked : p.flags.F_CHUNKED = false
  trailing : p.flags.F_TRAILING = false
  content_length : p.content_length = ULLONG_MAX
  nread : p.nread + 1 ≤ max_header_size
  upgrade : r.upgrades → (p.flags.F_UPGRADE && p.flags.F_CONNECTION_UPGRADE) = true

theorem reads_request (r : Request) (hlen : r.bytes.length ≤ max_header_size) :
    ∃ p bytes calls, Reads (http_parser_init, none) bytes calls (p, none) ∧ r.Complete p ∧
      r.bytes = bytes ++ [LF] ∧
      r.calls = calls ++ [.notify (.headers_complete r.requestLine), .notify .message_complete] := by
  have hline := r.reads_requestLine hlen
  rw [length_bytes] at hlen
  obtain ⟨q, calls, hlines, hcalls, hpasses⟩ := reads_lines (p := r.headed) r.bodiless trivial
    (show (method_strings r.method).length + 1 + r.url.length + 1 + 10 +
      (r.lines.flatMap HeaderLine.bytes).length ≤ _ by omega)
  have hnread : q.nread = (method_strings r.method).length + 1 + r.url.length + 1 + 10 +
      (r.lines.flatMap HeaderLine.bytes).length := hpasses.nread
  have hempty := reads_emptyLine hpasses.atLine (by omega)
  have hsame := hpasses.same
  have hflags := hpasses.flags
  refine ⟨_, _, _, hline.append (hlines.append hempty), ⟨rfl, ?_, ?_, ?_, ?_, ?_, ?_, ?_⟩, ?_, ?_⟩
  · change q.atLine.method = _
    rw [hsame]
    rfl
  · change q.atLine.request = _
    rw [hsame]
    rfl
  · change q.atLine.flags.F_CHUNKED = false
    rw [hflags.same]
    rfl
  · change q.atLine.flags.F_TRAILING = false
    rw [hflags.same]
    rfl
  · change q.atLine.content_length = ULLONG_MAX
    rw [hsame]
    rfl
  · change q.nread + 1 + 1 ≤ max_header_size
    omega
  · intro hupgrades
    change (q.atLine.flags.F_UPGRADE && q.atLine.flags.F_CONNECTION_UPGRADE) = true
    rw [Bool.and_eq_true]
    refine ⟨?_, hflags.kept (.inr hupgrades.2)⟩
    rw [hflags.same]
    dsimp only
    rw [hupgrades.1, Bool.or_true]
  · simp [bytes]
  · rw [hcalls]
    rfl

/-- Before its last byte a request has no complete header section. -/
theorem bytewise_unfinished (r : Request) (hlen : r.bytes.length ≤ max_header_size)
    {bytes rest : Bytes} (hbytes : bytes ++ rest = r.bytes) (hrest : rest ≠ []) :
    ∃ p actions, bytewise bytes http_parser_init = .goes p actions ∧
      ∀ request, .notify (.headers_complete request) ∉ Slices.Pending.closed none actions := by
  obtain ⟨p, whole, calls, ⟨actions, hwhole, -, hrun⟩, -, happend, hcalls⟩ := r.reads_request hlen
  obtain rfl | ⟨rest, last, rfl⟩ := List.eq_nil_or_concat rest
  · exact absurd rfl hrest
  rw [happend, List.concat_eq_append, ← List.append_assoc] at hbytes
  obtain ⟨rfl, -⟩ := List.append_inj' hbytes rfl
  rw [bytewise_append] at hwhole
  cases hbegin : bytewise bytes http_parser_init with
  | goes q before =>
    refine ⟨q, before, rfl, fun request hmem => ?_⟩
    rw [hbegin, Flow.andThen] at hwhole
    cases hmore : bytewise rest q with
    | goes q' after =>
      rw [hmore] at hwhole
      cases hwhole
      rw [Slices.Pending.run_append, Prod.mk.injEq] at hrun
      have hbefore : .notify (.headers_complete request) ∈ (Slices.Pending.run none before).2 := by
        rw [Slices.Pending.closed, List.mem_append] at hmem
        refine hmem.resolve_right fun hreport => ?_
        simp [Slices.Pending.report] at hreport
      have hin : .notify (.headers_complete request) ∈ calls := by
        rw [← hrun.2]
        exact List.mem_append_left _ hbefore
      have hheaders : calls = .notify .message_begin :: .slice .url r.url ::
          r.lines.flatMap HeaderLine.calls := by
        apply List.append_cancel_right (hcalls.symm.trans _)
        rfl
      rw [hheaders] at hin
      simp [HeaderLine.calls] at hin
    | _ =>
      rw [hmore] at hwhole
      cases hwhole
  | _ =>
    rw [hbegin] at hwhole
    cases hwhole

theorem request_unfinished (r : Request) (hlen : r.bytes.length ≤ max_header_size)
    {reads : List Bytes} (hreads : ∀ read ∈ reads, read ≠ [] ∧ read.length ≤ max_header_size)
    {rest : Bytes} (hflatten : reads.flatten ++ rest = r.bytes) (hrest : rest ≠ []) :
    ∃ e, executeAll reads http_parser_init = some e ∧ e.returned = .len ∧
      ∀ request, .notify (.headers_complete request) ∉ e.calls := by
  obtain ⟨p, actions, hbytes, hnone⟩ := r.bytewise_unfinished hlen hflatten hrest
  cases reads with
  | nil => exact ⟨_, rfl, rfl, fun request => List.not_mem_nil⟩
  | cons read reads =>
    obtain ⟨e, he, hmatches⟩ := executeAll_matches (List.cons_ne_nil read reads) hreads
      Parser.init_coherent
    rw [hbytes] at hmatches
    obtain ⟨hreturned, -, -, hsame⟩ := hmatches
    refine ⟨e, he, hreturned, fun request hmem => hnone request ?_⟩
    exact (hsame.mem_notify _).mp hmem

/-- One byte after another, the request is read to its end. -/
theorem bytewise_request (r : Request) (hlen : r.bytes.length ≤ max_header_size) :
    ∃ p actions, items actions = r.bytes ∧ Slices.Pending.run none actions = (none, r.calls) ∧
      zone p.state = .idle ∧ (r.upgrades → p.upgrade = true) ∧
      bytewise r.bytes http_parser_init =
        if p.upgrade then .exits p actions else .goes p actions := by
  obtain ⟨p, bytes, calls, ⟨actions, hbytes, hitems, hrun⟩, hcomplete, happend, hcalls⟩ :=
    r.reads_request hlen
  have hdone := loop_headersDone hcomplete.state (by rw [hcomplete.method]; exact r.method_ne)
    hcomplete.chunked hcomplete.trailing hcomplete.content_length hcomplete.nread
  rw [hcomplete.request] at hdone
  refine ⟨p.done, actions ++ [.notify (.headers_complete r.requestLine), .notify .message_complete,
    .advance LF], ?_, ?_, zone_newMessage _, hcomplete.upgrade, ?_⟩
  · rw [Slices.items_append, hitems, happend]
    rfl
  · rw [Slices.Pending.run_append, hrun, hcalls]
    rfl
  · rw [happend, bytewise_append, hbytes, Flow.andThen, bytewise, hdone]
    split
    · rfl
    · simp [Flow.andThen, Flow.after, bytewise]

/-- The request, and then no more if it asks for an upgrade. -/
theorem bytewise_tail (r : Request) (hlen : r.bytes.length ≤ max_header_size) {tail : Bytes}
    (htail : r.upgrades ∨ tail = []) :
    ∃ p actions, items actions = r.bytes ∧ Slices.Pending.run none actions = (none, r.calls) ∧
      zone p.state = .idle ∧ (r.upgrades → p.upgrade = true) ∧
      bytewise (r.bytes ++ tail) http_parser_init =
        if p.upgrade then .exits p actions else .goes p actions := by
  obtain ⟨p, actions, hitems, hrun, hz, hupgrades, hbytes⟩ := r.bytewise_request hlen
  refine ⟨p, actions, hitems, hrun, hz, hupgrades, ?_⟩
  rcases htail with hup | rfl
  · rw [bytewise_append, hbytes, if_pos (hupgrades hup)]
    rfl
  · rw [List.append_nil, hbytes]

theorem closed_calls {r : Request} {actions : List Action}
    (hrun : Slices.Pending.run none actions = (none, r.calls)) :
    (entry .s_start_req).closed actions = r.calls := by
  change Slices.Pending.closed none actions = _
  rw [Slices.Pending.closed, hrun]
  exact List.append_nil _

/-- In one read no slice is cut. -/
theorem request_whole (r : Request) {tail : Bytes} (hlen : (r.bytes ++ tail).length ≤ max_header_size)
    (htail : r.upgrades ∨ tail = []) :
    ∃ e, http_parser_execute http_parser_init (r.bytes ++ tail) = some e ∧ e.calls = r.calls ∧
      e.nparsed = r.bytes.length := by
  have hle : r.bytes.length ≤ max_header_size := by
    rw [List.length_append] at hlen
    omega
  obtain ⟨p, actions, hitems, hrun, -, -, hbytes⟩ := r.bytewise_tail hle htail
  have hagrees := loop_bytewise Parser.init_coherent hlen
  have hne : r.bytes ++ tail ≠ [] := by
    apply List.append_ne_nil_of_left_ne_nil
    rw [← List.length_pos_iff, length_bytes]
    omega
  obtain ⟨e, he, hyields⟩ := executed_yields Parser.init_coherent hne hagrees
  refine ⟨e, he, ?_⟩
  rw [hbytes] at hyields
  have hadvanced : advanced actions = r.bytes.length := congrArg List.length hitems
  split at hyields
  · rw [Flow.Yields] at hyields
    rw [hyields]
    exact ⟨closed_calls hrun, hadvanced⟩
  · rw [Flow.Yields] at hyields
    rw [hyields]
    exact ⟨closed_calls hrun, hadvanced⟩

/-- The calls of a request are in one piece each. -/
theorem joined_lines (lines : List HeaderLine) (rest : List Call)
    (hrest : ∀ value more, Slices.joined rest ≠ .slice .header_value value :: more) :
    Slices.joined (lines.flatMap HeaderLine.calls ++ rest) =
      lines.flatMap HeaderLine.calls ++ Slices.joined rest := by
  have hvalue {calls : List Call} (hcalls : ∀ value more, calls ≠ .slice .header_value value :: more)
      (line : HeaderLine) :
      Slices.joinOne (.slice .header_field line.name)
        (Slices.joinOne (.slice .header_value line.value) calls) = line.calls ++ calls := by
    have hone : Slices.joinOne (.slice .header_value line.value) calls =
        .slice .header_value line.value :: calls := by
      cases calls with
      | nil => rfl
      | cons call calls =>
        cases call with
        | notify notice => rfl
        | slice what items =>
          by_cases hw : Data.header_value = what
          · subst hw
            exact absurd rfl (hcalls items calls)
          · rw [Slices.joinOne, if_neg hw]
    rw [hone]
    rfl
  induction lines with
  | nil => rfl
  | cons line lines ih =>
    rw [List.flatMap_cons, List.append_assoc, List.append_assoc]
    change Slices.joinOne _ (Slices.joinOne _ (Slices.joined (lines.flatMap HeaderLine.calls ++ rest))) = _
    rw [ih]
    apply hvalue
    intro value more
    cases lines with
    | nil => exact hrest value more
    | cons next lines =>
      intro h
      cases h

theorem joined_calls (r : Request) : Slices.joined r.calls = r.calls := by
  have hnotices : Slices.joined [.notify (.headers_complete r.requestLine), .notify .message_complete] =
      ([.notify (.headers_complete r.requestLine), .notify .message_complete] : List Call) := rfl
  unfold calls
  have hlines := joined_lines r.lines [.notify (.headers_complete r.requestLine),
    .notify .message_complete] (by rw [hnotices]; exact nofun)
  rw [hnotices] at hlines
  unfold Slices.joined at hlines ⊢
  rw [List.foldr_cons, List.foldr_cons, hlines]
  cases r.lines with
  | nil => rfl
  | cons line lines => rfl

/-- Whatever the reads of a request, the calls are those of the request with its slices cut, and behind
one that asks for an upgrade the parser has stopped. -/
theorem request_reported (r : Request) (hlen : r.bytes.length ≤ max_header_size) {reads : List Bytes}
    (hreads : ∀ read ∈ reads, read ≠ [] ∧ read.length ≤ max_header_size) {tail : Bytes}
    (hflatten : reads.flatten = r.bytes ++ tail) (htail : r.upgrades ∨ tail = []) :
    ∃ e, executeAll reads http_parser_init = some e ∧ Slices.Cuts e.calls r.calls ∧
      e.nparsed = r.bytes.length ∧ e.returned ≠ .error ∧
      (r.upgrades → e.returned = .upgraded) := by
  obtain ⟨p, actions, hitems, hrun, hz, hupgrades, hbytes⟩ := r.bytewise_tail hlen htail
  have hne : reads ≠ [] := by
    rintro rfl
    have hlength := congrArg List.length hflatten
    rw [List.length_append, length_bytes] at hlength
    rw [List.flatten_nil, List.length_nil] at hlength
    omega
  obtain ⟨e, he, hmatches⟩ := executeAll_matches hne hreads Parser.init_coherent
  have hclosed := closed_calls hrun
  have hadvanced : advanced actions = r.bytes.length := congrArg List.length hitems
  have hcuts (hcalls : Same e.calls r.calls) : Slices.Cuts e.calls r.calls := by
    have hcut := Slices.cuts_joined e.calls
    rwa [hcalls, joined_calls] at hcut
  rw [hflatten, hbytes] at hmatches
  by_cases hupgrade : p.upgrade = true
  · rw [if_pos hupgrade] at hmatches
    obtain ⟨hreturned, -, hnparsed, hcalls⟩ := hmatches
    change Same e.calls ((entry .s_start_req).closed actions) at hcalls
    rw [hclosed] at hcalls
    exact ⟨e, he, hcuts hcalls, hnparsed.trans hadvanced, by rw [hreturned]; decide,
      fun _ => hreturned⟩
  · rw [if_neg hupgrade] at hmatches
    obtain ⟨hreturned, -, hnparsed, hcalls⟩ := hmatches
    change Same e.calls ((entry .s_start_req).closed actions) at hcalls
    rw [hclosed] at hcalls
    exact ⟨e, he, hcuts hcalls, hnparsed.trans hadvanced, by rw [hreturned]; decide,
      fun hup => absurd (hupgrades hup) hupgrade⟩

end Request
end Http
end WsEngine
