import WsEngine.Machine.Runs
import WsEngine.Ws.Answer
import WsEngine.Ws.Echo

/-! # From the request to the echo

A connection of the server of `main.cpp` from its accept on. The request of a client is answered with 101,
and what the client sends as frames behind it, from the same read on and cut in any way, comes back
as `echoes` says, as long as all of it is below `2^31` bytes. -/
set_option autoImplicit false

namespace WsEngine
open Http (Request http_parser_init max_header_size)

namespace Decoder

theorem feed_receive (d : Decoder) (tail bytes : Bytes) (chunks : List Bytes) :
    (d.receive tail).feed (bytes :: chunks) = d.feed ((tail ++ bytes) :: chunks) := by
  rw [feed, feed, receive_receive]

end Decoder

/-- `onConnection` of `main.cpp`. -/
def Greeting.echo : Greeting where
  message := some Application.echo.callback
  ping := some Application.echo.callback
  pong := some Application.echo.callback
  calls _ := []

theorem isClose_acceptance (sha1 : Bytes → Fin 5 → ℕ) (base64_encode : Bytes → Bytes)
    (headers : List (Bytes × Bytes)) :
    isClose (WebSocketConnection.acceptance sha1 base64_encode headers) = false := by
  have hhead : WebSocketConnection.UPGRADE_RESPONSE =
      0x48 :: WebSocketConnection.UPGRADE_RESPONSE.tail := by decide +kernel
  unfold WebSocketConnection.acceptance isClose
  rw [hhead]
  simp

namespace WebSocketConnection

/-- A connection that the handshake has left in `CONNECT`, with `tail` behind the request. -/
theorem greeted_at {ws : WebSocketConnection} {bytes tail : Bytes} (hb : isClose bytes = false)
    (hinput : ws.inputBuffer.readable = tail)
    (hws : ∃ inputBuffer headers_ lastHeaderField_, ws = Opening.greeted (some .echo) { initial with
      inputBuffer := inputBuffer
      headers_ := headers_
      lastHeaderField_ := lastHeaderField_
      status_ := .CONNECT
      trace := [.send bytes] }) :
    ∃ d : Decoder, d.At [] none [] ∧ d.trace = [.send bytes] ∧
      ws.abs = (d.receive tail).replying .echo ∧ ws.status_ ≠ .INITIAL := by
  have hlisten := ws.silent_listening
  have hruns : ws.Runs .echo := by
    obtain ⟨inputBuffer, headers, lastHeaderField, rfl⟩ := hws
    constructor <;> rintro callback ⟨⟩ <;> rfl
  refine ⟨{ ws.silent.abs with input := [] }, ?_, ?_, ?_, ?_⟩
  · obtain ⟨inputBuffer, headers, lastHeaderField, rfl⟩ := hws
    refine ⟨⟨rfl, ⟨hlisten.message, hlisten.ping, hlisten.pong⟩, .of_none rfl⟩,
      ⟨iff_of_true rfl rfl, iff_of_true (Buffer.readable_ofSize Buffer.kInitialSize) rfl, ?_⟩, rfl, rfl, rfl, rfl,
      Buffer.readable_ofSize 64, rfl⟩
    intro b hmem
    rw [List.mem_singleton.mp hmem]
    exact hb
  · obtain ⟨inputBuffer, headers, lastHeaderField, rfl⟩ := hws
    rfl
  · have htrace : Application.echo.replied ws.trace = ws.trace := by
      obtain ⟨inputBuffer, headers, lastHeaderField, rfl⟩ := hws
      rfl
    have hreceive : ws.silent.abs = Decoder.receive { ws.silent.abs with input := [] } tail := by
      rw [← hinput]
      rfl
    rw [hruns.abs htrace, ← hreceive]
  · obtain ⟨inputBuffer, headers, lastHeaderField, rfl⟩ := hws
    change Status.CONNECT ≠ .INITIAL
    decide

end WebSocketConnection

namespace Opening

/-! ## Where the reads of a handshake leave the indices -/

section

variable {π : Type} {P : HttpParser π} {sha1 : Bytes → Fin 5 → ℕ} {base64_encode : Bytes → Bytes}
  {connCb_ : Option Greeting}

theorem answer_input {s s' : Opening π} {bytes : Bytes} {accepted : Bool} {uv : ℤ}
    (h : s.answer bytes accepted uv = .ok s') : s'.ws.inputBuffer = s.ws.inputBuffer := by
  obtain ⟨tcp, -, hs⟩ := Except.bind_eq_ok.mp h
  cases hs
  rfl

theorem close_input {s s' : Opening π} (h : s.close = .ok s') :
    s'.ws.inputBuffer = s.ws.inputBuffer := by
  obtain ⟨tcp, -, hs⟩ := Except.bind_eq_ok.mp h
  cases hs
  rfl

theorem onHeaderComplete_input (hquiet : ∀ greeting ∈ connCb_, greeting.Quiet) {s s' : Opening π}
    {request : RequestLine} {uv : ℤ}
    (h : s.onHeaderComplete sha1 base64_encode connCb_ request uv = .ok s') :
    s'.ws.inputBuffer = s.ws.inputBuffer := by
  unfold onHeaderComplete at h
  dsimp only at h
  split at h
  · obtain ⟨s₁, h₁, h₂⟩ := Except.bind_eq_ok.mp h
    rw [handleConnection_quiet connCb_ s₁ hquiet uv] at h₂
    cases h₂
    have hanswer := answer_input h₁
    exact (greeted_input connCb_ _).trans hanswer
  · obtain ⟨s₁, h₁, h₂⟩ := Except.bind_eq_ok.mp h
    have hanswer := answer_input h₁
    exact (close_input h₂).trans hanswer

theorem reports_input (hquiet : ∀ greeting ∈ connCb_, greeting.Quiet) {s s' : Opening π}
    {rs : List Report} {uv : ℕ → ℤ} (h : s.reports sha1 base64_encode connCb_ uv rs = .ok s') :
    s'.ws.inputBuffer = s.ws.inputBuffer := by
  induction rs generalizing s with
  | nil =>
    cases h
    rfl
  | cons r rs ih =>
    obtain ⟨s₁, h₁, h₂⟩ := Except.bind_eq_ok.mp h
    rw [ih h₂]
    cases r with
    | header callback =>
      obtain ⟨w, hw, hs⟩ := Except.bind_eq_ok.mp h₁
      cases hs
      change w.inputBuffer = _
      rw [WebSocketConnection.onHeader_eq (Except.mapError_eq_ok.mp hw)]
    | headersComplete request => exact onHeaderComplete_input hquiet h₁

/-- **One read.** -/
theorem step_read_index (hquiet : ∀ greeting ∈ connCb_, greeting.Quiet) {s s' : Opening π}
    {bytes : Bytes} {uv : ℕ → ℤ} (hsmall : s.ws.inputBuffer.Small)
    (hroom : s.ws.inputBuffer.writeIndex_ + bytes.length < 2 ^ 31)
    (h : (system P sha1 base64_encode connCb_).step s (.read bytes uv) = .ok s') :
    s'.ws.inputBuffer.Small ∧
      s'.ws.inputBuffer.writeIndex_ ≤ s.ws.inputBuffer.writeIndex_ + bytes.length := by
  have hstart := s.ws.inputBuffer.start_le bytes.length
  have hlen : s.ws.inputBuffer.start bytes.length + bytes.length < 2 ^ 31 := by omega
  have hwrite := (Buffer.write_machine hsmall hlen).2
  have hindex := s.ws.inputBuffer.writeIndex_write bytes
  obtain ⟨tcp, -, hparse⟩ := Except.bind_eq_ok.mp h
  unfold parse at hparse
  split at hparse
  · cases hparse
    exact ⟨hwrite, hindex⟩
  · obtain ⟨s₁, h₁, h₂⟩ := Except.bind_eq_ok.mp hparse
    have hinput := reports_input hquiet h₁
    rw [hinput] at h₂
    split at h₂
    · next inputBuffer hretrieve =>
      cases h₂
      obtain ⟨-, heq⟩ := Buffer.retrieve_le hretrieve
      refine ⟨hwrite.retrieve hretrieve, ?_⟩
      change inputBuffer.writeIndex_ ≤ _
      rw [heq]
      exact hindex
    · cases h₂

/-- **All reads.** -/
theorem reads_index (hquiet : ∀ greeting ∈ connCb_, greeting.Quiet) {s s' : Opening π}
    {reads : List Bytes} {uv : ℕ → ℤ} (hsmall : s.ws.inputBuffer.Small)
    (hroom : s.ws.inputBuffer.writeIndex_ + reads.flatten.length < 2 ^ 31)
    (hrun : (system P sha1 base64_encode connCb_).run s (reads.map fun read => .read read uv) =
      .ok s') :
    s'.ws.inputBuffer.Small ∧
      s'.ws.inputBuffer.writeIndex_ ≤ s.ws.inputBuffer.writeIndex_ + reads.flatten.length := by
  induction reads generalizing s with
  | nil =>
    cases hrun
    exact ⟨hsmall, Nat.le_add_right _ _⟩
  | cons read reads ih =>
    rw [List.flatten_cons, List.length_append] at hroom ⊢
    rw [List.map_cons] at hrun
    cases hstep : (system P sha1 base64_encode connCb_).step s (.read read uv) with
    | error fault =>
      rw [EventSystem.run, hstep] at hrun
      cases hrun
    | ok s₁ =>
      rw [EventSystem.run_cons_ok _ _ hstep] at hrun
      obtain ⟨hsmall₁, hle⟩ := step_read_index hquiet hsmall (by omega) hstep
      obtain ⟨hsmall', hle'⟩ := ih hsmall₁ (by omega) hrun
      exact ⟨hsmall', by omega⟩

end

/-- A connection in `CONNECT` behind the handshake, with the indices that its reads have left. -/
theorem greeted_small {ws : WebSocketConnection} {trace : List Effect} {n : ℕ}
    (hinput : ws.inputBuffer.Small) (hroom : ws.inputBuffer.writeIndex_ + n < 2 ^ 31)
    (hws : ∃ inputBuffer headers_ lastHeaderField_, ws = greeted (some .echo)
      { WebSocketConnection.initial with
        inputBuffer := inputBuffer
        headers_ := headers_
        lastHeaderField_ := lastHeaderField_
        status_ := .CONNECT
        trace := trace }) :
    ws.Small 4 ∧ ws.Modest ∧ ws.HasRoom n := by
  have hecho : Callback.Modest (some Application.echo.callback) :=
    (WebSocketConnection.Runs.modest (WebSocketConnection.connected_runs .echo)
      Application.echo_modest).message
  have hsmall := WebSocketConnection.connected_small none none none
  obtain ⟨inputBuffer, headers, lastHeaderField, rfl⟩ := hws
  have hreadable := inputBuffer.read_le_write
  refine ⟨⟨hinput, hsmall.decode, hsmall.output⟩, ⟨hecho, hecho, hecho⟩, hroom, ?_⟩
  change inputBuffer.writeIndex_ + n < 2 ^ 31 at hroom
  change 0 + (inputBuffer.writeIndex_ - inputBuffer.readIndex_) + n < 2 ^ 31
  omega

variable (sha1 : Bytes → Fin 5 → ℕ) (base64_encode : Bytes → Bytes)

/-- **A session.** Where the reads of a request have ended in 101, what is sent from then on is the echo of the
frames behind the request, strays and all. Those in the last of the reads wait for another one. -/
theorem request_echoed (r : Request) (hlen : r.bytes.length ≤ max_header_size)
    {reads : List Bytes} {last tail : Bytes}
    (hreads : ∀ read ∈ reads, read ≠ [] ∧ read.length ≤ max_header_size) (hlast : last ≠ [])
    (hmax : (last ++ tail).length ≤ max_header_size) (hflatten : reads.flatten ++ last = r.bytes)
    (htail : r.upgrades ∨ tail = []) (uv : ℕ → ℤ) {s : Opening Live}
    (hrun : (system httpParser sha1 base64_encode (some .echo)).run opened
      ((reads.map fun read => .read read uv) ++ [.read (last ++ tail) uv]) = .ok s)
    (hanswers : s.answers = [true]) {fs : List Frame} (hf : Frame.Legal none fs)
    {chunks : List Bytes} (hne : ∀ b ∈ chunks, b ≠ [])
    (hframes : tail ++ chunks.flatten = fs.flatMap Frame.encode) (hmore : tail = [] ∨ chunks ≠ [])
    (hroom : r.bytes.length + (fs.flatMap Frame.encode).length < 2 ^ 31)
    (httpParserExecute : Machine.WebSocketConnection → Bytes → ℕ × Machine.WebSocketConnection) :
    ∃ headers, ∃ w : WebSocketConnection, verdict r.requestLine headers = true ∧
      (reads = [] → headers = r.headers) ∧
      s.ws.machine.feed httpParserExecute chunks = .returned w.machine ∧
      sends w.trace = WebSocketConnection.acceptance sha1 base64_encode headers ::
        (Frame.echoes [] none fs).map fun r => finalFrame r.1.opcode r.2 := by
  have hquiet : ∀ greeting ∈ some Greeting.echo, greeting.Quiet := by
    rintro greeting ⟨⟩ trace
    rfl
  obtain ⟨e, hs, he, hnparsed, hreports, -, hone⟩ :=
    request_fragments r hlen hreads hlast hmax hflatten htail
  obtain ⟨hok, herror⟩ := opened_untouched.answer sha1 base64_encode (some .echo) hquiet r hlen hreads
    hlast hflatten uv he hnparsed hreports
  by_cases haccepted : ∀ header ∈ hs, header.Accepted
  · obtain ⟨s', hrun', hanswered⟩ := hok haccepted
    cases hrun.symm.trans hrun'
    have hverdict : verdict r.requestLine (hs.map kept) = true := by
      have hlist := hanswers.symm.trans hanswered.answers
      exact (List.cons.inj hlist).1.symm
    obtain ⟨hws, -⟩ := hanswered.accepted hverdict
    have hread : (reads ++ [last ++ tail]).flatten.length + chunks.flatten.length < 2 ^ 31 := by
      have hlength := congrArg List.length hflatten
      have hstream := congrArg List.length hframes
      simp only [List.length_append, List.flatten_append, List.flatten_singleton] at hlength hstream ⊢
      omega
    have hopened : opened.ws.inputBuffer.writeIndex_ + (reads ++ [last ++ tail]).flatten.length <
        2 ^ 31 := by
      change 0 + _ < _
      omega
    have hsmall : opened.ws.inputBuffer.Small := Buffer.small_ofSize (by decide)
    have hall : (system httpParser sha1 base64_encode (some .echo)).run opened
        ((reads ++ [last ++ tail]).map fun read => .read read uv) = .ok s := by
      rw [List.map_append]
      exact hrun
    have hindex := reads_index hquiet hsmall hopened hall
    have hgreeted : s.ws.Small 4 ∧ s.ws.Modest ∧ s.ws.HasRoom chunks.flatten.length := by
      refine greeted_small hindex.1 ?_ hws
      have hle := hindex.2
      change _ ≤ 0 + _ at hle
      omega
    obtain ⟨d, hat, htrace, habs, hpast⟩ := WebSocketConnection.greeted_at
      (isClose_acceptance sha1 base64_encode (hs.map kept)) hanswered.input hws
    have hfeed : ∃ x : Decoder, s.ws.abs.feed chunks = .returned x ∧
        sends x.trace = WebSocketConnection.acceptance sha1 base64_encode (hs.map kept) ::
          (Frame.echoes [] none fs).map fun r => finalFrame r.1.opcode r.2 := by
      have hsends : sends (Application.echo.replied d.trace) =
          [WebSocketConnection.acceptance sha1 base64_encode (hs.map kept)] := by
        rw [htrace]
        rfl
      rw [habs]
      cases chunks with
      | nil =>
        cases hmore.resolve_right (fun h => h rfl)
        obtain ⟨x, hx, hxsends⟩ := hat.feed_echo hf hne hframes
        rw [hsends] at hxsends
        rw [Decoder.receive_nil]
        exact ⟨x, hx, hxsends⟩
      | cons bytes chunks =>
        have hne' : ∀ b ∈ (tail ++ bytes) :: chunks, b ≠ [] := by
          intro b hb
          rcases List.mem_cons.mp hb with rfl | hb
          · exact List.append_ne_nil_of_right_ne_nil tail (hne bytes List.mem_cons_self)
          · exact hne b (List.mem_cons_of_mem _ hb)
        rw [List.flatten_cons, ← List.append_assoc] at hframes
        obtain ⟨x, hx, hxsends⟩ := hat.feed_echo hf hne' hframes
        rw [hsends] at hxsends
        exact ⟨x, (Decoder.feed_receive (d.replying .echo) tail bytes chunks).trans hx, hxsends⟩
    obtain ⟨x, hx, hxsends⟩ := hfeed
    rw [← WebSocketConnection.abs_feed (fun ws _ => (0, ws)) hpast] at hx
    obtain ⟨w, hw, rfl⟩ := Call.map_eq_returned hx
    refine ⟨hs.map kept, w, hverdict, fun hnil => ?_, hgreeted.1.feed_returned _ httpParserExecute
      hgreeted.2.1 hpast hgreeted.2.2.roomFor hw, hxsends⟩
    rw [hone hnil]
    exact whole_kept r
  · obtain ⟨w, hw⟩ := herror haccepted
    cases hrun.symm.trans hw

/-- A request with the header of a text frame behind it, and the text in a second read. -/
theorem request_echoed_text :
    let M := system httpParser
      (fun _ => [0xb37a4f2c, 0xc0624f16, 0x90f64606, 0xcf385945, 0xb2bec4ea].get)
      (fun _ => ascii "s3pPLMBiTxaQ9kYGzzhZRbK+xOo=") (some .echo)
    ∃ s w, M.run opened [.read (Http.clientRequest.bytes ++ [0x81, 0x02]) fun _ => 0] = .ok s ∧
      s.ws.machine.feed (fun ws _ => (0, ws)) [[0x61, 0x62]] = .returned w ∧
      (sends w.trace).drop 1 = [[0x81, 0x02, 0x61, 0x62]] := by
  intro M
  let fs : List Frame :=
    [⟨true, .text, none, .short, [0x61, 0x62], by simp, by decide, by decide⟩]
  have hquiet : ∀ greeting ∈ some Greeting.echo, greeting.Quiet := by
    rintro greeting ⟨⟩ trace
    rfl
  have hbytes : Http.clientRequest.bytes ≠ [] := by decide +kernel
  have hlen : Http.clientRequest.bytes.length ≤ max_header_size := by decide +kernel
  have hmax : (Http.clientRequest.bytes ++ [0x81, 0x02]).length ≤ max_header_size := by decide +kernel
  obtain ⟨e, hs, he, hnparsed, hreports, -, hone⟩ := request_fragments Http.clientRequest hlen
    (show ∀ read ∈ ([] : List Bytes), _ by simp) hbytes hmax (List.nil_append _)
    (.inl Http.clientRequest_upgrades)
  obtain ⟨hok, -⟩ := opened_untouched.answer
    (fun _ => [0xb37a4f2c, 0xc0624f16, 0x90f64606, 0xcf385945, 0xb2bec4ea].get)
    (fun _ => ascii "s3pPLMBiTxaQ9kYGzzhZRbK+xOo=") (some .echo) hquiet Http.clientRequest hlen
    (show ∀ read ∈ ([] : List Bytes), _ by simp) hbytes (List.nil_append _) (fun _ => 0) he hnparsed
    hreports
  have haccepted := whole_accepted Http.clientRequest
  rw [← hone rfl] at haccepted
  obtain ⟨s, hrun, hanswered⟩ := hok haccepted
  have hverdict : verdict Http.clientRequest.requestLine Http.clientRequest.headers = true := by
    decide +kernel
  have hanswers : s.answers = [true] := by
    rw [hanswered.answers, hone rfl, whole_kept, hverdict]
    rfl
  have hsize : Http.clientRequest.bytes.length + (fs.flatMap Frame.encode).length < 2 ^ 31 := by
    decide +kernel
  obtain ⟨headers, w, -, -, hw, hsends⟩ := request_echoed _ _ Http.clientRequest hlen
    (show ∀ read ∈ ([] : List Bytes), _ by simp) hbytes hmax (List.nil_append _)
    (.inl Http.clientRequest_upgrades) (fun _ => 0) hrun hanswers (show Frame.Legal none fs by decide)
    (show ∀ b ∈ [[0x61, 0x62]], b ≠ [] by decide) (by decide +kernel) (.inr (by decide)) hsize
    fun ws _ => (0, ws)
  have hechoes : (Frame.echoes [] none fs).map (fun r => finalFrame r.1.opcode r.2) =
      [[0x81, 0x02, 0x61, 0x62]] := by decide +kernel
  refine ⟨s, w.machine, hrun, hw, ?_⟩
  change (sends w.trace).drop 1 = _
  rw [hsends]
  exact hechoes

end Opening
end WsEngine
