import WsEngine.Http.Splitting

/-! # Reading a request line

The bytes of a request are read part by part, each of them with the calls for it (`Reads`). The request
line is the method, the URL, which is reported in one piece, and the version. -/
set_option autoImplicit false

namespace WsEngine
namespace Http
open Slices (advanced signs items track Alike Same)

/-! ## Reading a part -/

/-- The parser between two bytes, with the part that is open. -/
abbrev Reader := Parser × Slices.Pending Data UInt8

/-- Over the bytes, one at a time, the reader makes the calls and ends up as the other. -/
def Reads (r : Reader) (bytes : Bytes) (calls : List Call) (r' : Reader) : Prop :=
  ∃ actions, bytewise bytes r.1 = .goes r'.1 actions ∧ items actions = bytes ∧
    r.2.run actions = (r'.2, calls)

namespace Reads

theorem nil (r : Reader) : Reads r [] [] r := ⟨[], rfl, rfl, rfl⟩

theorem append {r r' r'' : Reader} {bytes more : Bytes} {calls calls' : List Call}
    (h : Reads r bytes calls r') (h' : Reads r' more calls' r'') :
    Reads r (bytes ++ more) (calls ++ calls') r'' := by
  obtain ⟨actions, hbytes, hitems, hrun⟩ := h
  obtain ⟨actions', hmore, hitems', hrun'⟩ := h'
  refine ⟨actions ++ actions', ?_, ?_, ?_⟩
  · rw [bytewise_append, hbytes, Flow.andThen, hmore]
    rfl
  · rw [Slices.items_append, hitems, hitems']
  · rw [Slices.Pending.run_append, hrun, hrun']

theorem cons {r r' r'' : Reader} {ch : UInt8} {more : Bytes} {calls calls' : List Call}
    (h : Reads r [ch] calls r') (h' : Reads r' more calls' r'') :
    Reads r (ch :: more) (calls ++ calls') r'' := h.append h'

end Reads

section
variable {p q : Parser} {ch : UInt8} {actions : List Action}
  {pending pending' : Slices.Pending Data UInt8} {calls : List Call}

theorem reads_round (hround : round p ch [ch] = .goes q actions) (hstill : items actions = [])
    (hrun : pending.run (actions ++ [.advance ch]) = (pending', calls)) :
    Reads (p, pending) [ch] calls (q, pending') := by
  refine ⟨actions ++ [.advance ch], ?_, ?_, hrun⟩
  · rw [bytewise, loop_goes_still hround hstill]
    simp [loop, bytewise, Flow.andThen, Flow.after]
  · rw [Slices.items_append, hstill]
    rfl

/-- A byte of the header section, which is counted. -/
theorem reads_byte (hp : PARSING_HEADER p.state = true) (hn : p.nread + 1 ≤ max_header_size)
    (hpass : pass { p with nread := p.nread + 1 } ch [ch] = .goes q actions)
    (hstill : items actions = [])
    (hrun : pending.run (actions ++ [.advance ch]) = (pending', calls)) :
    Reads (p, pending) [ch] calls (q, pending') := by
  apply reads_round _ hstill hrun
  rw [round_header hp, count_eq hn, Flow.andThen, hpass]
  rfl

/-- A byte at which nothing is marked or reported. -/
theorem reads_quiet (hp : PARSING_HEADER p.state = true) (hn : p.nread + 1 ≤ max_header_size)
    (hpass : pass { p with nread := p.nread + 1 } ch [ch] = .goes q []) :
    Reads (p, none) [ch] [] (q, none) :=
  reads_byte hp hn hpass rfl rfl

end

/-! ## The method -/

/-- The parser behind a method and its blank. -/
def Parser.requested (method : Method) : Parser := { http_parser_init with
  content_length := ULLONG_MAX
  method := method
  index := (method_strings method).length + 1
  state := .s_req_spaces_before_url
  nread := (method_strings method).length + 1 }

theorem reads_method (method : Method) :
    Reads (http_parser_init, none) (ascii (method_strings method) ++ [SP])
      [.notify .message_begin] (.requested method, none) := by
  cases method
  all_goals exact ⟨_, rfl, rfl, rfl⟩

/-! ## The URL -/

/-- A state in which the URL may end. -/
def EndsUrl : State → Prop
  | .s_req_server | .s_req_server_with_at | .s_req_path | .s_req_query_string_start
  | .s_req_query_string | .s_req_fragment_start | .s_req_fragment => True
  | _ => False

/-- A URL that the URL parser takes. -/
def Target (url : Bytes) : Prop := EndsUrl (url.foldl parse_url_char .s_req_spaces_before_url)

theorem EndsUrl.zone {s : State} (h : EndsUrl s) : zone s = .url := by
  cases s <;> first
    | rfl
    | exact h.elim

theorem parsing_url {s : State} (h : zone s = .url) : PARSING_HEADER s = true := by
  cases s <;> first
    | rfl
    | cases h

theorem parse_url_char_dead (ch : UInt8) : parse_url_char .s_dead ch = .s_dead := by
  unfold parse_url_char
  split_ifs <;> rfl

theorem foldl_dead (url : Bytes) : url.foldl parse_url_char .s_dead = .s_dead := by
  induction url with
  | nil => rfl
  | cons ch url ih => rw [List.foldl_cons, parse_url_char_dead, ih]

/-- While the URL is good, no character of it is the last. -/
theorem alive_of_ends {s : State} {ch : UInt8} {url : Bytes}
    (h : EndsUrl ((ch :: url).foldl parse_url_char s)) : parse_url_char s ch ≠ .s_dead := by
  intro hdead
  rw [List.foldl_cons, hdead, foldl_dead] at h
  exact h

theorem notBlank_of_alive {s : State} {ch : UInt8} (h : parse_url_char s ch ≠ .s_dead) :
    ¬(ch = SP ∨ ch = CR ∨ ch = LF) := by
  intro hblank
  apply h
  unfold parse_url_char
  rw [if_pos hblank]

section
variable {p : Parser}

theorem updateUrl_alive {ch : UInt8} (h : parse_url_char p.state ch ≠ .s_dead) :
    updateUrl p ch = .goes { p with state := parse_url_char p.state ch } [] := if_neg h

theorem pass_url {ch : UInt8} (hz : zone p.state = .url) (h : parse_url_char p.state ch ≠ .s_dead)
    (bytes : Bytes) : pass p ch bytes = .goes { p with state := parse_url_char p.state ch } [] := by
  have hblank := notBlank_of_alive h
  have hschema : reqSchema p ch = .goes { p with state := parse_url_char p.state ch } [] := by
    rw [reqSchema, if_neg hblank, updateUrl_alive h]
  have hurl : reqUrl p ch = .goes { p with state := parse_url_char p.state ch } [] := by
    rw [not_or] at hblank
    rw [reqUrl, if_neg hblank.1, if_neg hblank.2, updateUrl_alive h]
  unfold pass
  cases hp : p.state <;> simp only [hp, zone, reduceCtorEq] at hz
  all_goals
    rw [hp] at hschema hurl
    first
      | exact hschema
      | exact hurl

theorem pass_url_ends {ch : UInt8} (h : EndsUrl p.state) (bytes : Bytes) :
    pass p ch bytes = reqUrl p ch := by
  unfold pass
  cases hp : p.state <;> rw [hp] at h <;> first
    | rfl
    | exact h.elim

theorem reads_url_rest {url : Bytes} (hz : zone p.state = .url)
    (h : EndsUrl (url.foldl parse_url_char p.state))
    (hn : p.nread + url.length + 1 ≤ max_header_size) (seen : Bytes) :
    Reads (p, some (.url, seen)) (url ++ [SP]) [.slice .url (seen ++ url)]
      ({ p with
        state := .s_req_http_start
        nread := p.nread + url.length + 1 }, none) := by
  induction url generalizing p seen with
  | nil =>
    apply reads_byte (parsing_url hz) hn
    · rw [pass_url_ends (p := { p with nread := p.nread + 1 }) h]
      rfl
    · rfl
    · rfl
  | cons ch url ih =>
    rw [List.length_cons] at hn ⊢
    have halive := alive_of_ends h
    have hzone := (zone_parse_url_char p.state ch).resolve_left halive
    have hrest := ih (p := { p with
      state := parse_url_char p.state ch
      nread := p.nread + 1 }) hzone h (show p.nread + 1 + url.length + 1 ≤ _ by omega) (seen ++ [ch])
    have hfirst : Reads (p, some (.url, seen)) [ch] [] ({ p with
        state := parse_url_char p.state ch
        nread := p.nread + 1 }, some (.url, seen ++ [ch])) := by
      apply reads_byte (parsing_url hz) (by omega)
      · exact pass_url (p := { p with nread := p.nread + 1 }) hz halive _
      · rfl
      · rfl
    have hall := hfirst.cons hrest
    rw [List.append_assoc] at hall
    rwa [Nat.add_right_comm p.nread 1, Nat.add_assoc p.nread] at hall

theorem reads_url {url : Bytes} (hp : p.state = .s_req_spaces_before_url)
    (hmethod : p.method ≠ .CONNECT) (h : Target url)
    (hn : p.nread + url.length + 1 ≤ max_header_size) :
    Reads (p, none) (url ++ [SP]) [.slice .url url] ({ p with
      state := .s_req_http_start
      nread := p.nread + url.length + 1 }, none) := by
  cases url with
  | nil => exact h.elim
  | cons ch url =>
    rw [List.length_cons] at hn ⊢
    have halive := alive_of_ends h
    have hzone := (zone_parse_url_char .s_req_spaces_before_url ch).resolve_left halive
    have hrest := reads_url_rest (p := { p with
      state := parse_url_char .s_req_spaces_before_url ch
      nread := p.nread + 1 }) hzone h (show p.nread + 1 + url.length + 1 ≤ _ by omega) [ch]
    have hfirst : Reads (p, none) [ch] [] ({ p with
        state := parse_url_char .s_req_spaces_before_url ch
        nread := p.nread + 1 }, some (.url, [ch])) := by
      apply reads_byte (by rw [hp]; rfl) (by omega)
      · unfold pass
        simp only [hp]
        have hblank := notBlank_of_alive halive
        rw [not_or] at hblank
        rw [reqSpacesBeforeUrl, if_neg hblank.1, if_neg hmethod, updateUrl_alive halive]
        rfl
      · rfl
      · rfl
    have hall := hfirst.cons hrest
    rwa [Nat.add_right_comm p.nread 1, Nat.add_assoc p.nread] at hall

/-! ## The version -/

/-- `HTTP/` with a digit, a dot and a digit, and the end of the line. -/
def versionBytes (http_major http_minor : Fin 10) : Bytes :=
  ascii "HTTP/" ++ [UInt8.ofNat (48 + http_major), 46, UInt8.ofNat (48 + http_minor), CR, LF]

theorem isNum_digit (d : Fin 10) : IS_NUM (UInt8.ofNat (48 + d)) = true := by
  revert d
  decide

theorem toNat_digit (d : Fin 10) : (UInt8.ofNat (48 + d)).toNat - 48 = d := by
  revert d
  decide

theorem reqHttpMajor_digit (d : Fin 10) :
    reqHttpMajor p (UInt8.ofNat (48 + d)) = { p with http_major := d }.to .s_req_http_dot := by
  rw [reqHttpMajor, isNum_digit, toNat_digit]
  rfl

theorem reqHttpMinor_digit (d : Fin 10) :
    reqHttpMinor p (UInt8.ofNat (48 + d)) = { p with http_minor := d }.to .s_req_http_end := by
  rw [reqHttpMinor, isNum_digit, toNat_digit]
  rfl

theorem reads_version (hp : p.state = .s_req_http_start) (http_major http_minor : Fin 10)
    (hn : p.nread + 10 ≤ max_header_size) :
    Reads (p, none) (versionBytes http_major http_minor) [] ({ p with
      http_major := http_major
      http_minor := http_minor
      state := .s_header_field_start
      nread := p.nread + 10 }, none) := by
  obtain ⟨flags, state, header_state, index, nread, content_length, major, minor, method, http_errno,
    upgrade⟩ := p
  cases hp
  dsimp only at hn ⊢
  have hstep {p q : Parser} {ch : UInt8} {rest : Bytes} {r : Reader}
      (hheader : PARSING_HEADER p.state = true) (hn : p.nread + 1 ≤ max_header_size)
      (hpass : pass { p with nread := p.nread + 1 } ch [ch] = .goes q [])
      (hrest : Reads (q, none) rest [] r) : Reads (p, none) (ch :: rest) [] r :=
    (reads_quiet hheader hn hpass).cons hrest
  unfold versionBytes
  -- `HTTP/`
  iterate 5 apply hstep rfl (by dsimp only; omega) rfl
  apply hstep rfl (by dsimp only; omega)
  · exact reqHttpMajor_digit http_major
  apply hstep rfl (by dsimp only; omega) rfl
  apply hstep rfl (by dsimp only; omega)
  · exact reqHttpMinor_digit http_minor
  -- the end of the line
  iterate 2 apply hstep rfl (by dsimp only; omega) rfl
  exact .nil _

end
end Http
end WsEngine
