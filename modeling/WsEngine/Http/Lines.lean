import WsEngine.Http.Names
import WsEngine.Http.Reading

/-! # Reading a header

A header line is reported with its name and its value in one piece each. It changes the flags as the
meaning of its name says (`reads_line`). The value is known to be complete only with the first byte of the next
line, so the flags and an empty value are owed until then (`Parser.atLine`, `owed`). -/
set_option autoImplicit false

namespace WsEngine
namespace Http
open Slices (advanced signs items track Alike Same)

/-! ## Values that are no lengths and no codings -/

/-- A header state in the value of `Connection`, or of a header that means nothing. -/
def Listing : HeaderState → Prop
  | .h_general | .h_matching_connection_token_start | .h_matching_connection_token
  | .h_matching_connection_keep_alive | .h_matching_connection_close
  | .h_matching_connection_upgrade | .h_connection_keep_alive | .h_connection_close
  | .h_connection_upgrade => True
  | _ => False

/-- Flags that differ in the tokens of `Connection` at most, and have the upgrade if they had it. -/
structure Flags.Listed (flags flags' : Flags) : Prop where
  same : flags' = { flags with
    F_CONNECTION_KEEP_ALIVE := flags'.F_CONNECTION_KEEP_ALIVE
    F_CONNECTION_CLOSE := flags'.F_CONNECTION_CLOSE
    F_CONNECTION_UPGRADE := flags'.F_CONNECTION_UPGRADE }
  kept : flags.F_CONNECTION_UPGRADE = true → flags'.F_CONNECTION_UPGRADE = true

theorem Flags.Listed.refl (flags : Flags) : flags.Listed flags := ⟨rfl, id⟩

theorem Flags.Listed.trans {flags flags' flags'' : Flags} (h : flags.Listed flags')
    (h' : flags'.Listed flags'') : flags.Listed flags'' := by
  refine ⟨?_, fun hkept => h'.kept (h.kept hkept)⟩
  rw [h'.same, h.same]

/-- Flags after headers, some of which are `Upgrade` headers and some ask for an upgrade. -/
structure Flags.Gains (upgrades connects : Bool) (flags flags' : Flags) : Prop where
  same : flags' = { flags with
    F_CONNECTION_KEEP_ALIVE := flags'.F_CONNECTION_KEEP_ALIVE
    F_CONNECTION_CLOSE := flags'.F_CONNECTION_CLOSE
    F_CONNECTION_UPGRADE := flags'.F_CONNECTION_UPGRADE
    F_UPGRADE := flags.F_UPGRADE || upgrades }
  kept : flags.F_CONNECTION_UPGRADE = true ∨ connects = true → flags'.F_CONNECTION_UPGRADE = true

theorem Flags.Gains.refl (flags : Flags) : flags.Gains false false flags :=
  ⟨by rw [Bool.or_false], fun h => h.elim id nofun⟩

theorem Flags.Gains.trans {upgrades upgrades' connects connects' : Bool} {flags flags' flags'' : Flags}
    (h : flags.Gains upgrades connects flags') (h' : flags'.Gains upgrades' connects' flags'') :
    flags.Gains (upgrades || upgrades') (connects || connects') flags'' := by
  constructor
  · rw [h'.same, h.same, Bool.or_assoc]
  · intro hkept
    apply h'.kept
    rw [Bool.or_eq_true] at hkept
    rcases hkept with hkept | hkept | hkept
    · exact .inl (h.kept (.inl hkept))
    · exact .inl (h.kept (.inr hkept))
    · exact .inr hkept

theorem Flags.Listed.gains {flags flags' : Flags} (h : flags.Listed flags') :
    flags.Gains false false flags' := by
  refine ⟨?_, fun hkept => h.kept (hkept.resolve_right nofun)⟩
  rw [Bool.or_false]
  exact h.same

theorem setFlag_listed (flags : Flags) {h_state : HeaderState} (h : Listing h_state) :
    flags.Listed (setFlag flags h_state) := by
  cases h_state <;> first
    | exact .refl flags
    | exact ⟨rfl, id⟩
    | exact ⟨rfl, fun _ => rfl⟩
    | exact h.elim

/-- The value, character by character. -/
def valueChars (h_state : HeaderState) (p : Parser) : Bytes → Except Fault (HeaderState × Parser)
  | [] => .ok (h_state, p)
  | ch :: rest => valueChar h_state p ch >>= fun r => valueChars r.1 r.2 rest

/-- What a value may change. -/
def Parser.ListedAs (p q : Parser) : Prop :=
  q = { p with
    index := q.index
    flags := q.flags } ∧ p.flags.Listed q.flags

theorem Parser.ListedAs.trans {p q r : Parser} (h : p.ListedAs q) (h' : q.ListedAs r) :
    p.ListedAs r := by
  refine ⟨?_, h.2.trans h'.2⟩
  rw [h'.1, h.1]

theorem listing_matchWord {word : Bytes} {index : ℕ} {c : UInt8} {differs ends goes : HeaderState}
    (hdiffers : Listing differs) (hends : Listing ends) (hgoes : Listing goes) :
    Listing (matchWord word index c differs ends goes) := by
  unfold matchWord
  split_ifs <;> assumption

theorem valueChar_listing {h_state : HeaderState} (h : Listing h_state) (p : Parser) (ch : UInt8) :
    ∃ h_state' q, valueChar h_state p ch = .ok (h_state', q) ∧ Listing h_state' ∧ p.ListedAs q := by
  have hsame : p.ListedAs p := ⟨rfl, .refl _⟩
  have hindex (index : ℕ) : p.ListedAs { p with index := index } := ⟨rfl, .refl _⟩
  have hset (index : ℕ) : p.ListedAs { p with
      flags := setFlag p.flags h_state
      index := index } := ⟨rfl, setFlag_listed _ h⟩
  unfold valueChar
  cases h_state
  all_goals dsimp only
  all_goals first
    | exact h.elim
    | exact ⟨_, _, rfl, trivial, hsame⟩
    | exact ⟨_, _, rfl, listing_matchWord trivial trivial trivial, hindex _⟩
    | (split_ifs
       all_goals first
         | exact ⟨_, _, rfl, trivial, hsame⟩
         | exact ⟨_, _, rfl, trivial, hindex _⟩
         | exact ⟨_, _, rfl, trivial, hset _⟩)

theorem valueChars_listing {h_state : HeaderState} (h : Listing h_state) (p : Parser) (value : Bytes) :
    ∃ h_state' q, valueChars h_state p value = .ok (h_state', q) ∧ Listing h_state' ∧ p.ListedAs q := by
  induction value generalizing h_state p with
  | nil => exact ⟨_, _, rfl, h, rfl, .refl _⟩
  | cons ch rest ih =>
    obtain ⟨h_state', q, hchar, hlisting, hlisted⟩ := valueChar_listing h p ch
    obtain ⟨h_state'', r, hrest, hlisting', hlisted'⟩ := ih hlisting q
    refine ⟨h_state'', r, ?_, hlisting', hlisted.trans hlisted'⟩
    rw [valueChars, hchar]
    exact hrest

/-- The rest of the token `upgrade`, in any case. -/
theorem valueChars_upgrade {p : Parser} {value : Bytes} (hindex : p.index + 1 < UPGRADE.length)
    (h : value.map LOWER = UPGRADE.drop (p.index + 1)) :
    ∃ q, valueChars .h_matching_connection_upgrade p value = .ok (.h_connection_upgrade, q) ∧
      p.ListedAs q := by
  induction value generalizing p with
  | nil =>
    have hlength := congrArg List.length h
    rw [List.map_nil, List.length_nil, List.length_drop] at hlength
    omega
  | cons ch rest ih =>
    rw [List.drop_eq_getElem_cons hindex, List.map_cons] at h
    obtain ⟨hch, hrest⟩ := List.cons.inj h
    have hgetD : UPGRADE.getD (p.index + 1) 0 = UPGRADE[p.index + 1] := by
      rw [List.getD_eq_getElem?_getD, List.getElem?_eq_getElem hindex]
      rfl
    have hmatches : ¬(p.index + 1 > UPGRADE.length ∨ LOWER ch ≠ UPGRADE.getD (p.index + 1) 0) := by
      rw [not_or, not_not, hgetD]
      exact ⟨by omega, hch⟩
    rw [valueChars]
    change ∃ q, (Except.ok (matchWord UPGRADE (p.index + 1) (LOWER ch) .h_matching_connection_token
      .h_connection_upgrade .h_matching_connection_upgrade, { p with index := p.index + 1 }) >>=
        fun r => valueChars r.1 r.2 rest) = _ ∧ _
    rw [matchWord, if_neg hmatches]
    by_cases hlast : p.index + 1 = UPGRADE.length - 1
    · have hnil : rest = [] := by
        rw [← List.map_eq_nil_iff (f := LOWER), hrest, List.drop_eq_nil_iff]
        omega
      subst hnil
      rw [if_pos hlast]
      exact ⟨_, rfl, rfl, .refl _⟩
    · rw [if_neg hlast]
      obtain ⟨q, hq, hlisted⟩ := ih (p := { p with index := p.index + 1 })
        (show p.index + 1 + 1 < _ by omega) hrest
      refine ⟨q, hq, ?_, hlisted.2⟩
      rw [hlisted.1]

/-! ## A header line -/

structure HeaderLine where
  name : Bytes
  blanks : Bytes
  value : Bytes
  name_ne : name ≠ []
  token : ∀ ch ∈ name, TOKEN ch ≠ 0
  blank : ∀ ch ∈ blanks, ch = SP ∨ ch = HT
  text : ∀ ch ∈ value, passes ch = true
  tight : ∀ ch ∈ value.head?, ch ≠ SP ∧ ch ≠ HT

namespace HeaderLine

def bytes (line : HeaderLine) : Bytes :=
  line.name ++ ':'.toUInt8 :: (line.blanks ++ (line.value ++ [CR, LF]))

def calls (line : HeaderLine) : List Call :=
  [.slice .header_field line.name, .slice .header_value line.value]

/-- The header says nothing about a body. -/
def Bodiless (line : HeaderLine) : Prop :=
  headerOf line.name ≠ .h_content_length ∧ headerOf line.name ≠ .h_transfer_encoding

instance (line : HeaderLine) : Decidable line.Bodiless := inferInstanceAs (Decidable (_ ∧ _))

/-- An `Upgrade` header. -/
def upgrades (line : HeaderLine) : Bool := headerOf line.name == .h_upgrade && line.value != []

/-- A `Connection` header with the one token `upgrade`. -/
def connects (line : HeaderLine) : Bool :=
  headerOf line.name == .h_connection && line.value.map LOWER == UPGRADE

end HeaderLine

section
variable {p q : Parser}

/-! ### The name -/

theorem fieldChars_nread (p : Parser) (n : ℕ) (word : Bytes) :
    fieldChars { p with nread := n } word = (fieldChars p word).map fun q => { q with nread := n } := by
  induction word generalizing p with
  | nil => rfl
  | cons c word ih =>
    rw [fieldChars, fieldChars, fieldChar_nread]
    cases fieldChar p c with
    | none => rfl
    | some q => exact ih q

theorem reads_name {name : Bytes} (hp : p.state = .s_header_field) (hnaming : Naming p.header_state)
    (htoken : ∀ ch ∈ name, TOKEN ch ≠ 0) (hq : fieldChars p (name.map TOKEN) = some q)
    (hn : p.nread + name.length ≤ max_header_size) (seen : Bytes) :
    Reads (p, some (.header_field, seen)) name [] ({ q with nread := p.nread + name.length },
      some (.header_field, seen ++ name)) := by
  induction name generalizing p q seen with
  | nil =>
    cases hq
    rw [List.append_nil]
    exact .nil _
  | cons ch rest ih =>
    rw [List.length_cons] at hn ⊢
    obtain ⟨hch, htoken⟩ := List.forall_mem_cons.mp htoken
    rw [List.map_cons, fieldChars] at hq
    obtain ⟨next, hnext, hrest⟩ := Option.bind_eq_some_iff.mp hq
    obtain ⟨next', hnext', hnaming', hsame⟩ := fieldChar_some hnaming (TOKEN ch)
    cases hnext.symm.trans hnext'
    have hstate : next.state = .s_header_field := by
      rw [hsame]
      exact hp
    have hchars : fieldChars { next with nread := p.nread + 1 } (rest.map TOKEN) =
        some { q with nread := p.nread + 1 } := by
      rw [fieldChars_nread, hrest]
      rfl
    have hone : p.nread + 1 ≤ max_header_size := by omega
    have hround : round p ch [ch] = .goes { next with nread := p.nread + 1 } [] := by
      rw [round_field _ hp, count_eq hone, Flow.andThen, Flow.after_nil]
      apply headerField_token hone hch
      rw [fieldChar_nread, hnext]
      rfl
    have hfirst : Reads (p, some (.header_field, seen)) [ch] []
        ({ next with nread := p.nread + 1 }, some (.header_field, seen ++ [ch])) :=
      reads_round hround rfl rfl
    have hothers := ih (p := { next with nread := p.nread + 1 }) hstate hnaming' htoken hchars
      (show p.nread + 1 + rest.length ≤ _ by omega) (seen ++ [ch])
    have hall := hfirst.cons hothers
    rw [List.append_assoc] at hall
    rwa [Nat.add_assoc, Nat.add_comm 1] at hall

theorem reads_colon (hp : p.state = .s_header_field) (hn : p.nread + 1 ≤ max_header_size)
    (name : Bytes) :
    Reads (p, some (.header_field, name)) [':'.toUInt8] [.slice .header_field name] ({ p with
      state := .s_header_value_discard_ws
      nread := p.nread + 1 }, none) := by
  have hround : round p ':'.toUInt8 [':'.toUInt8] = .goes { p with
      state := .s_header_value_discard_ws
      nread := p.nread + 1 } [.slice .header_field] := by
    have hnone := count_none (p := { p with nread := p.nread + 1 }) hn
    rw [round_field _ hp, count_eq hn, Flow.andThen, Flow.after_nil, headerField, fieldLoop,
      if_pos (by decide)]
    change (((COUNT_HEADER_SIZE 0 { p with nread := p.nread + 1 }).andThen _).after []) = _
    rw [hnone]
    rfl
  apply reads_round hround rfl
  simp [Slices.Pending.run, Slices.Pending.act, Slices.Pending.report]

/-! ### The value -/

theorem reads_blanks {blanks : Bytes} (hp : p.state = .s_header_value_discard_ws)
    (hblank : ∀ ch ∈ blanks, ch = SP ∨ ch = HT) (hn : p.nread + blanks.length ≤ max_header_size) :
    Reads (p, none) blanks [] ({ p with nread := p.nread + blanks.length }, none) := by
  induction blanks generalizing p with
  | nil => exact .nil _
  | cons ch rest ih =>
    rw [List.length_cons] at hn ⊢
    obtain ⟨hch, hblank⟩ := List.forall_mem_cons.mp hblank
    have hfirst : Reads (p, none) [ch] [] ({ p with nread := p.nread + 1 }, none) := by
      apply reads_quiet (by rw [hp]; rfl) (by omega)
      unfold pass
      simp only [hp]
      exact if_pos hch
    have hothers := ih (p := { p with nread := p.nread + 1 }) hp hblank
      (show p.nread + 1 + rest.length ≤ _ by omega)
    have hall := hfirst.cons hothers
    rwa [Nat.add_assoc, Nat.add_comm 1] at hall

theorem valueChars_aside (h_state : HeaderState) (p : Parser) (n : ℕ) (header_state : HeaderState)
    (value : Bytes) : valueChars h_state (p.aside n header_state) value =
      (valueChars h_state p value).map fun r => (r.1, r.2.aside n header_state) := by
  induction value generalizing h_state p with
  | nil => rfl
  | cons ch rest ih =>
    rw [valueChars, valueChars, valueChar_aside]
    cases valueChar h_state p ch with
    | error fault => rfl
    | ok r => exact ih r.1 r.2

/-- The value behind its first character, or all of it. -/
theorem reads_value {value : Bytes} {h_state : HeaderState} (hp : p.state = .s_header_value)
    (hlisting : Listing p.header_state) (htext : ∀ ch ∈ value, passes ch = true)
    (hq : valueChars p.header_state p value = .ok (h_state, q))
    (hn : p.nread + value.length ≤ max_header_size) (seen : Bytes) :
    Reads (p, some (.header_value, seen)) value [] ({ q with
      header_state := h_state
      nread := p.nread + value.length }, some (.header_value, seen ++ value)) := by
  induction value generalizing p q seen with
  | nil =>
    cases hq
    rw [List.append_nil]
    exact .nil _
  | cons ch rest ih =>
    rw [List.length_cons] at hn ⊢
    obtain ⟨hch, htext⟩ := List.forall_mem_cons.mp htext
    obtain ⟨next_state, next, hnext, hlisting', hlisted⟩ := valueChar_listing hlisting p ch
    rw [valueChars, hnext] at hq
    have hone : p.nread + 1 ≤ max_header_size := by omega
    have hcounted : valueChar p.header_state { p with nread := p.nread + 1 } ch =
        .ok (next_state, { next with
          nread := p.nread + 1
          header_state := p.header_state }) := by
      have haside := valueChar_aside p.header_state p (p.nread + 1) p.header_state ch
      rw [hnext] at haside
      exact haside
    have hround : round p ch [ch] = .goes { next with
        header_state := next_state
        nread := p.nread + 1 } [] := by
      rw [round_value _ hp, count_eq hone, Flow.andThen, Flow.after_nil]
      exact headerValue_passes (p := { p with nread := p.nread + 1 }) hone hch hcounted
    have hfirst : Reads (p, some (.header_value, seen)) [ch] [] ({ next with
        header_state := next_state
        nread := p.nread + 1 }, some (.header_value, seen ++ [ch])) := reads_round hround rfl rfl
    have hstate : next.state = .s_header_value := by
      rw [hlisted.1]
      exact hp
    have hrest : valueChars next_state (next.aside (p.nread + 1) next_state) rest =
        .ok (h_state, q.aside (p.nread + 1) next_state) := by
      rw [valueChars_aside]
      rw [show valueChars next_state next rest = .ok (h_state, q) from hq]
      rfl
    have hothers := ih (p := next.aside (p.nread + 1) next_state) hstate hlisting' htext hrest
      (show p.nread + 1 + rest.length ≤ _ by omega) (seen ++ [ch])
    have hall := hfirst.cons hothers
    rw [List.append_assoc] at hall
    rw [Nat.add_comm rest.length, ← Nat.add_assoc]
    exact hall

/-- The first character of a value, and what it makes of the header. -/
structure Parser.Starts (p : Parser) (meaning : HeaderState) (q : Parser) : Prop where
  same : q = { p with
    state := .s_header_value
    index := 0
    header_state := q.header_state
    flags := q.flags }
  listing : Listing q.header_state
  flags : q.flags = { p.flags with F_UPGRADE := p.flags.F_UPGRADE || meaning == .h_upgrade }
  general : meaning ≠ .h_connection → q.header_state = .h_general

theorem headerValueStart_starts (hnaming : Naming p.header_state)
    (hlength : p.header_state.meaning ≠ .h_content_length)
    (hcoding : p.header_state.meaning ≠ .h_transfer_encoding) (ch : UInt8) :
    ∃ q, headerValueStart p ch = .goes q [.mark .header_value] ∧
      p.Starts p.header_state.meaning q := by
  obtain ⟨⟨F_CHUNKED, F_CONNECTION_KEEP_ALIVE, F_CONNECTION_CLOSE, F_CONNECTION_UPGRADE, F_TRAILING,
    F_UPGRADE, F_CONTENTLENGTH⟩, state, header_state, index, nread, content_length, http_major,
    http_minor, method, http_errno, upgrade⟩ := p
  unfold headerValueStart
  dsimp only at hnaming hlength hcoding ⊢
  cases header_state
  all_goals first
    | exact hnaming.elim
    | exact absurd rfl hlength
    | exact absurd rfl hcoding
    | (refine ⟨_, rfl, rfl, trivial, ?_, fun _ => rfl⟩
       cases F_UPGRADE <;> rfl)
    | (dsimp only
       split_ifs
       all_goals
         refine ⟨_, rfl, rfl, trivial, ?_, fun h => absurd rfl h⟩
         cases F_UPGRADE <;> rfl)

theorem headerValueStart_upgrade (hmeaning : p.header_state = .h_connection) {ch : UInt8}
    (hch : LOWER ch = 'u'.toUInt8) : headerValueStart p ch = .goes { p with
      state := .s_header_value
      index := 0
      header_state := .h_matching_connection_upgrade } [.mark .header_value] := by
  unfold headerValueStart
  simp only [hmeaning, hch]
  rfl

/-! ### The beginning and the end of a line -/

namespace Parser

/-- In front of a line, which may still be one that goes on with the value before it. -/
def AtLine (p : Parser) : Prop :=
  match p.state with
  | .s_header_field_start | .s_header_value_lws => True
  | .s_header_value_discard_lws => p.header_state ≠ .h_content_length
  | _ => False

/-- The parser where the line turns out to be another one. -/
def atLine (p : Parser) : Parser :=
  match p.state with
  | .s_header_field_start => p
  | _ => { p with
    flags := setFlag p.flags p.header_state
    state := .s_header_field_start }

/-- What is done for an empty value there. -/
def before (p : Parser) : List Action :=
  match p.state with
  | .s_header_value_discard_lws => [.mark .header_value, .slice .header_value]
  | _ => []

end Parser

/-- The calls that are due there. -/
def owed (p : Parser) : List Call :=
  match p.state with
  | .s_header_value_discard_lws => [.slice .header_value []]
  | _ => []

theorem pass_line {ch : UInt8} (h : p.AtLine) (hblank : ¬(ch = SP ∨ ch = HT)) (bytes : Bytes) :
    pass p ch bytes = (headerFieldStart p.atLine ch).after p.before := by
  unfold Parser.AtLine at h
  unfold pass Parser.atLine Parser.before
  cases hp : p.state <;> simp only [hp] at h ⊢
  · rw [Flow.after_nil]
  · rw [headerValueDiscardLws, if_neg hblank, if_neg h]
  · rw [headerValueLws, if_neg hblank, Flow.after_nil]

theorem parsing_atLine (h : p.AtLine) : PARSING_HEADER p.state = true := by
  unfold Parser.AtLine at h
  cases hp : p.state <;> rw [hp] at h <;> first
    | rfl
    | exact h.elim

theorem state_atLine (h : p.AtLine) : p.atLine.state = .s_header_field_start := by
  unfold Parser.AtLine at h
  unfold Parser.atLine
  cases hp : p.state <;> simp only [hp] at h ⊢

theorem atLine_nread (p : Parser) (n : ℕ) :
    { p with nread := n }.atLine = { p.atLine with nread := n } := by
  obtain ⟨_, state, _, _, _, _, _, _, _, _, _⟩ := p
  cases state <;> rfl

theorem run_before (p : Parser) (more : List Action) :
    Slices.Pending.run none (p.before ++ more) =
      ((Slices.Pending.run none more).1, owed p ++ (Slices.Pending.run none more).2) := by
  unfold Parser.before owed
  cases p.state <;> rfl

theorem items_before (p : Parser) : items p.before = [] := by
  unfold Parser.before
  cases p.state <;> rfl

theorem token_plain {ch : UInt8} (h : TOKEN ch ≠ 0) :
    ch ≠ CR ∧ ch ≠ LF ∧ ¬(ch = SP ∨ ch = HT) := by
  refine ⟨?_, ?_, ?_⟩
  · rintro rfl
    exact h rfl
  · rintro rfl
    exact h rfl
  · rintro (rfl | rfl)
    · exact h rfl
    · exact h rfl

/-- The first character of a name. -/
theorem reads_letter {ch : UInt8} (h : p.AtLine) (htoken : TOKEN ch ≠ 0)
    (hn : p.nread + 1 ≤ max_header_size) :
    Reads (p, none) [ch] (owed p) ({ p.atLine.naming (TOKEN ch) with
      state := .s_header_field
      nread := p.nread + 1 }, some (.header_field, [ch])) := by
  obtain ⟨hcr, hlf, hblank⟩ := token_plain htoken
  have hpass : pass { p with nread := p.nread + 1 } ch [ch] = .goes { p.atLine.naming (TOKEN ch) with
      state := .s_header_field
      nread := p.nread + 1 } (p.before ++ [.mark .header_field]) := by
    rw [pass_line (p := { p with nread := p.nread + 1 }) h hblank, atLine_nread, headerFieldStart,
      if_neg hcr, if_neg hlf, if_neg htoken]
    rfl
  apply reads_byte (parsing_atLine h) hn hpass
  · rw [Slices.items_append, items_before]
    rfl
  · rw [List.append_assoc, run_before]
    simp [Slices.Pending.run, Slices.Pending.act]

/-- The end of a line with a value. -/
theorem reads_valueEnd (hp : p.state = .s_header_value) (hn : p.nread + 2 ≤ max_header_size)
    (value : Bytes) :
    Reads (p, some (.header_value, value)) [CR, LF] [.slice .header_value value] ({ p with
      state := .s_header_value_lws
      nread := p.nread + 2 }, none) := by
  have hround : round p CR [CR] = .goes { p with
      state := .s_header_almost_done
      nread := p.nread + 1 } [.slice .header_value] := by
    have hone : p.nread + 1 ≤ max_header_size := by omega
    have hnone := count_none (p := { p with
      state := .s_header_almost_done
      nread := p.nread + 1 }) hone
    have hends := valueLoop_ends (p := { p with nread := p.nread + 1 }) [] p.header_state
      (.inl (rfl : CR = CR))
    rw [round_value _ hp, count_eq hone, Flow.andThen, Flow.after_nil,
      headerValue_goes (p := { p with nread := p.nread + 1 }) hends]
    change (COUNT_HEADER_SIZE 0 { p with
      state := .s_header_almost_done
      nread := p.nread + 1 }).after _ = _
    rw [hnone]
    rfl
  have hcr : Reads (p, some (.header_value, value)) [CR] [.slice .header_value value] ({ p with
      state := .s_header_almost_done
      nread := p.nread + 1 }, none) := by
    apply reads_round hround rfl
    simp [Slices.Pending.run, Slices.Pending.act, Slices.Pending.report]
  apply hcr.cons
  exact reads_quiet rfl hn rfl

theorem reads_emptyEnd (hp : p.state = .s_header_value_discard_ws)
    (hn : p.nread + 2 ≤ max_header_size) :
    Reads (p, none) [CR, LF] [] ({ p with
      state := .s_header_value_discard_lws
      nread := p.nread + 2 }, none) := by
  have hcr : Reads (p, none) [CR] [] ({ p with
      state := .s_header_value_discard_ws_almost_done
      nread := p.nread + 1 }, none) := by
    apply reads_quiet (by rw [hp]; rfl) (by omega)
    unfold pass
    simp only [hp]
    rfl
  apply hcr.cons
  exact reads_quiet rfl hn rfl

/-! ### The whole line -/

/-- In front of the lines, and behind them. -/
structure Parser.Passes (p : Parser) (lines : List HeaderLine) (q : Parser) : Prop where
  atLine : q.AtLine
  nread : q.nread = p.nread + (lines.flatMap HeaderLine.bytes).length
  same : q.atLine = { p.atLine with
    index := q.atLine.index
    header_state := q.atLine.header_state
    nread := q.atLine.nread
    flags := q.atLine.flags }
  flags : p.atLine.flags.Gains (lines.any HeaderLine.upgrades) (lines.any HeaderLine.connects)
    q.atLine.flags

/-- Up to the value. -/
theorem reads_field {name blanks : Bytes} (h : p.AtLine) (hne : name ≠ [])
    (htoken : ∀ ch ∈ name, TOKEN ch ≠ 0) (hblank : ∀ ch ∈ blanks, ch = SP ∨ ch = HT)
    (hn : p.nread + (name.length + (blanks.length + 1)) ≤ max_header_size) :
    ∃ q, Reads (p, none) (name ++ ':'.toUInt8 :: blanks) (owed p ++ [.slice .header_field name])
        (q, none) ∧ Naming q.header_state ∧ q.header_state.meaning = headerOf name ∧
      q = { p.atLine with
        state := .s_header_value_discard_ws
        index := q.index
        header_state := q.header_state
        nread := p.nread + (name.length + (blanks.length + 1)) } := by
  obtain ⟨ch, rest, rfl⟩ := List.exists_cons_of_ne_nil hne
  obtain ⟨hch, htoken⟩ := List.forall_mem_cons.mp htoken
  rw [List.length_cons] at hn ⊢
  obtain ⟨q, hq, hnaming, hsame, hmeaning⟩ := headerOf_named { p.atLine with
    state := .s_header_field
    nread := p.nread + 1 } ch rest
  have hletter := reads_letter h hch (by omega)
  have hname := reads_name (p := { p.atLine.naming (TOKEN ch) with
    state := .s_header_field
    nread := p.nread + 1 }) rfl (naming_ofLetter _) htoken hq
    (show p.nread + 1 + rest.length ≤ _ by omega) [ch]
  have hstate : q.state = .s_header_field := by rw [hsame]
  have hcolon := reads_colon (p := { q with nread := p.nread + 1 + rest.length }) hstate
    (show p.nread + 1 + rest.length + 1 ≤ _ by omega) ([ch] ++ rest)
  have hblanks := reads_blanks (p := { q with
    state := .s_header_value_discard_ws
    nread := p.nread + 1 + rest.length + 1 }) rfl hblank
    (show p.nread + 1 + rest.length + 1 + blanks.length ≤ _ by omega)
  have hall := hletter.cons (hname.append (hcolon.cons hblanks))
  refine ⟨_, hall, hnaming, hmeaning, ?_⟩
  rw [hsame]
  dsimp only
  rw [show p.nread + 1 + rest.length + 1 + blanks.length =
    p.nread + (rest.length + 1 + (blanks.length + 1)) by omega]

/-- A value as it comes behind the name. -/
structure Parser.Ends (p : Parser) (value : Bytes) (q : Parser) : Prop where
  atLine : q.AtLine
  nread : q.nread = p.nread + (value.length + 2)
  same : q.atLine = { p with
    state := .s_header_field_start
    index := q.atLine.index
    header_state := q.atLine.header_state
    nread := q.atLine.nread
    flags := q.atLine.flags }
  flags : p.flags.Gains (p.header_state.meaning == .h_upgrade && value != [])
    (p.header_state.meaning == .h_connection && value.map LOWER == UPGRADE) q.atLine.flags

theorem setFlag_naming (flags : Flags) {header_state : HeaderState} (h : Naming header_state) :
    setFlag flags header_state = flags := by
  cases header_state <;> first
    | rfl
    | exact h.elim

theorem reads_empty (hp : p.state = .s_header_value_discard_ws) (hnaming : Naming p.header_state)
    (hlength : p.header_state.meaning ≠ .h_content_length) (hn : p.nread + 2 ≤ max_header_size) :
    ∃ q, Reads (p, none) [CR, LF] [] (q, none) ∧ owed q = [.slice .header_value []] ∧
      p.Ends [] q := by
  refine ⟨_, reads_emptyEnd hp hn, rfl, ?_, rfl, rfl, ?_⟩
  · intro h
    apply hlength
    rw [show p.header_state = .h_content_length from h]
    rfl
  · change Flags.Gains _ _ p.flags (setFlag p.flags p.header_state)
    rw [setFlag_naming _ hnaming]
    have hnone : (([] : Bytes).map LOWER == UPGRADE) = false := by decide
    rw [hnone, Bool.and_false, show (([] : Bytes) != []) = false from rfl, Bool.and_false]
    exact .refl _

theorem pass_discard {ch : UInt8} (hp : p.state = .s_header_value_discard_ws) (bytes : Bytes) :
    pass p ch bytes = headerValueDiscardWs p ch := by
  unfold pass
  rw [hp]

theorem meaning_connection {header_state : HeaderState}
    (h : header_state.meaning = .h_connection) : header_state = .h_connection := by
  cases header_state <;> first
    | rfl
    | cases h

/-- The token `upgrade` makes up the whole value. -/
theorem setFlag_upgrade {q r : Parser} {ch : UInt8} {rest : Bytes} {h_state : HeaderState}
    (hmeaning : p.header_state.meaning = .h_connection)
    (hvalue : (ch :: rest).map LOWER = UPGRADE)
    (hstart : headerValueStart p ch = .goes q [.mark .header_value])
    (hr : valueChars q.header_state q rest = .ok (h_state, r)) :
    (setFlag r.flags h_state).F_CONNECTION_UPGRADE = true := by
  have hupgrade : UPGRADE = 'u'.toUInt8 :: UPGRADE.drop 1 := by decide
  rw [hupgrade, List.map_cons] at hvalue
  obtain ⟨hch, hrest⟩ := List.cons.inj hvalue
  rw [headerValueStart_upgrade (meaning_connection hmeaning) hch] at hstart
  cases hstart
  obtain ⟨r', hr', -⟩ := valueChars_upgrade (p := { p with
    state := .s_header_value
    index := 0
    header_state := .h_matching_connection_upgrade }) (show 0 + 1 < UPGRADE.length by decide) hrest
  cases hr.symm.trans hr'
  rfl

theorem reads_text {ch : UInt8} {rest : Bytes} (hp : p.state = .s_header_value_discard_ws)
    (hnaming : Naming p.header_state) (hlength : p.header_state.meaning ≠ .h_content_length)
    (hcoding : p.header_state.meaning ≠ .h_transfer_encoding)
    (htext : ∀ c ∈ ch :: rest, passes c = true) (htight : ch ≠ SP ∧ ch ≠ HT)
    (hn : p.nread + ((ch :: rest).length + 2) ≤ max_header_size) :
    ∃ q, Reads (p, none) (ch :: rest ++ [CR, LF]) [.slice .header_value (ch :: rest)] (q, none) ∧
      owed q = [] ∧ p.Ends (ch :: rest) q := by
  rw [List.length_cons] at hn
  obtain ⟨hch, htext⟩ := List.forall_mem_cons.mp htext
  obtain ⟨hends, -⟩ := (passes_iff ch).mp hch
  rw [not_or] at hends
  obtain ⟨q, hstart, hstarts⟩ := headerValueStart_starts (p := { p with nread := p.nread + 1 })
    hnaming hlength hcoding ch
  obtain ⟨h_state, r, hr, hlisting, hlisted⟩ := valueChars_listing hstarts.listing q rest
  have hstate : q.state = .s_header_value := by rw [hstarts.same]
  have hnread : q.nread = p.nread + 1 := by rw [hstarts.same]
  have hpass : pass { p with nread := p.nread + 1 } ch [ch] = .goes q [.mark .header_value] := by
    rw [pass_discard (p := { p with nread := p.nread + 1 }) hp, headerValueDiscardWs,
      if_neg (not_or.mpr htight), if_neg hends.1, if_neg hends.2, hstart]
  have hfirst : Reads (p, none) [ch] [] (q, some (.header_value, [ch])) :=
    reads_byte (by rw [hp]; rfl) (by omega) hpass rfl rfl
  have hvalue := reads_value hstate hstarts.listing htext hr (by omega) [ch]
  have hstate' : r.state = .s_header_value := by
    rw [hlisted.1]
    exact hstate
  have hend := reads_valueEnd (p := { r with
    header_state := h_state
    nread := q.nread + rest.length }) hstate' (show q.nread + rest.length + 2 ≤ _ by omega)
    ([ch] ++ rest)
  refine ⟨_, hfirst.cons (hvalue.append hend), rfl, trivial, ?_, ?_, ?_, ?_⟩
  · change q.nread + rest.length + 2 = _
    rw [List.length_cons]
    omega
  · change { r with
      state := .s_header_field_start
      header_state := h_state
      nread := _
      flags := setFlag r.flags h_state } = _
    rw [hlisted.1, hstarts.same]
    rfl
  · have hupgrade : p.flags.Gains (p.header_state.meaning == .h_upgrade) false q.flags :=
      ⟨by rw [hstarts.flags], fun hkept => by
        rw [hstarts.flags]
        exact hkept.resolve_right nofun⟩
    have hgains := (hupgrade.trans hlisted.2.gains).trans (setFlag_listed r.flags hlisting).gains
    rw [show (ch :: rest != []) = true from rfl, Bool.and_true]
    rw [Bool.or_false, Bool.or_false] at hgains
    exact hgains.same
  · change _ → (setFlag r.flags h_state).F_CONNECTION_UPGRADE = true
    rintro (hkept | hconnects)
    · apply (setFlag_listed r.flags hlisting).kept
      apply hlisted.2.kept
      rw [hstarts.flags]
      exact hkept
    · rw [Bool.and_eq_true, beq_iff_eq, beq_iff_eq] at hconnects
      exact setFlag_upgrade (p := { p with nread := p.nread + 1 }) hconnects.1 hconnects.2 hstart hr

theorem reads_line (line : HeaderLine) (hbodiless : line.Bodiless) (h : p.AtLine)
    (hn : p.nread + line.bytes.length ≤ max_header_size) :
    ∃ q calls, Reads (p, none) line.bytes calls (q, none) ∧ calls ++ owed q = owed p ++ line.calls ∧
      p.Passes [line] q := by
  obtain ⟨name, blanks, value, hname, htoken, hblank, htext, htight⟩ := line
  unfold HeaderLine.Bodiless at hbodiless
  unfold HeaderLine.bytes at hn ⊢
  dsimp only at hbodiless hn ⊢
  have hlen : (name ++ ':'.toUInt8 :: (blanks ++ (value ++ [CR, LF]))).length =
      name.length + (blanks.length + 1) + (value.length + 2) := by
    simp only [List.length_append, List.length_cons, List.length_nil]
    omega
  rw [hlen] at hn
  obtain ⟨q, hfield, hnaming, hmeaning, hsame⟩ := reads_field h hname htoken hblank (by omega)
  have hnread : q.nread = p.nread + (name.length + (blanks.length + 1)) := by rw [hsame]
  have hstate : q.state = .s_header_value_discard_ws := by rw [hsame]
  rw [← hmeaning] at hbodiless
  have hvalue : ∃ r calls, Reads (q, none) (value ++ [CR, LF]) calls (r, none) ∧
      calls ++ owed r = [.slice .header_value value] ∧ q.Ends value r := by
    cases value with
    | nil =>
      obtain ⟨r, hreads, howed, hends⟩ := reads_empty hstate hnaming hbodiless.1 (by omega)
      exact ⟨r, [], hreads, howed, hends⟩
    | cons ch rest =>
      obtain ⟨r, hreads, howed, hends⟩ := reads_text hstate hnaming hbodiless.1 hbodiless.2 htext
        (htight ch rfl) (by omega)
      exact ⟨r, _, hreads, by rw [howed, List.append_nil], hends⟩
  obtain ⟨r, calls, hreads, hcalls, hends⟩ := hvalue
  refine ⟨r, owed p ++ [.slice .header_field name] ++ calls, ?_, ?_, hends.atLine, ?_, ?_, ?_⟩
  · have hall := hfield.append hreads
    rwa [List.append_assoc, List.cons_append] at hall
  · rw [List.append_assoc, hcalls, List.append_assoc]
    rfl
  · rw [hends.nread, hnread, List.flatMap_singleton]
    change _ = p.nread + (name ++ ':'.toUInt8 :: (blanks ++ (value ++ [CR, LF]))).length
    rw [hlen]
    omega
  · rw [hends.same, hsame, ← state_atLine h]
  · rw [List.any_cons, List.any_cons, List.any_nil, List.any_nil, Bool.or_false, Bool.or_false]
    have hflags := hends.flags
    rw [hmeaning] at hflags
    rw [hsame] at hflags
    exact hflags

end
end Http
end WsEngine
