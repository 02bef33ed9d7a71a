import WsEngine.Ws.Listening

/-! # How the bytes are split into reads

Nothing that `decode` does with a frame depends on the bytes behind it, and whether a header or a
payload is complete is not taken back when more bytes arrive. So an activation that completes a frame
may be made before or after a read, and one that waits is made again when there is enough. Two runs
over the same bytes differ at most after a close frame, which leaves a decoder whose header may or
may not be cleared. -/
set_option autoImplicit false

namespace WsEngine
namespace Decoder

/-! ## More bytes behind the frame -/

theorem receive_nil (d : Decoder) : d.receive [] = d := by
  unfold receive
  rw [List.append_nil]

theorem receive_receive (d : Decoder) (bytes more : Bytes) :
    (d.receive bytes).receive more = d.receive (bytes ++ more) := by
  unfold receive
  rw [List.append_assoc]

theorem readHeader_receive {d d' : Decoder} {h : Header} (hr : d.readHeader = .ok (h, d'))
    (more : Bytes) : (d.receive more).readHeader = .ok (h, d'.receive more) := by
  cases hh : d.header with
  | some h' =>
    rw [readHeader_some hh] at hr
    cases hr
    exact readHeader_some hh
  | none =>
    have hh' : (d.receive more).header = none := hh
    rw [readHeader_none hh] at hr
    rw [readHeader_none hh']
    unfold readFront at hr ⊢
    cases hf : front d.input with
    | nothing =>
      rw [hf] at hr
      cases hr
    | reserved =>
      rw [hf] at hr
      cases hr
    | short wanted =>
      rw [hf] at hr
      cases hr
    | full h' size code =>
      rw [hf] at hr
      cases hr
      obtain ⟨-, hsize⟩ := front_size hf
      have hf' : front (d.receive more).input = .full h size code := front_append_full hf more
      have hdrop : (d.receive more).input.drop size = d.input.drop size ++ more :=
        List.drop_append_of_le_length hsize
      simp only [hf', hdrop]
      rfl

theorem ahead_of_readHeader {d d' : Decoder} {h : Header} (hr : d.readHeader = .ok (h, d'))
    (hl : h.length ≤ d'.input.length) :
    d.ahead = some ⟨h, h.unmask (d'.input.take h.length), d'.take h⟩ := by
  unfold ahead
  rw [hr]
  exact if_neg (by omega)

theorem activate_waits {d d' : Decoder} {h : Header} (hr : d.readHeader = .ok (h, d'))
    (hl : d'.input.length < h.length) :
    d.activate = .returned { d' with wanted := h.length } := by
  unfold activate read
  simp only [hr, bind, Except.bind, body, if_pos hl]
  rfl

/-- The frame with `more` bytes behind it, and with a `wanted_` that its handling clears. -/
def Taken.grow (t : Taken) (more : Bytes) (wanted : ℕ) : Taken :=
  { t with state := { t.state.receive more with wanted := wanted } }

theorem ahead_receive {d : Decoder} {t : Taken} (ha : d.ahead = some t) (more : Bytes) :
    (d.receive more).ahead = some (t.grow more t.state.wanted) := by
  obtain ⟨h, d', hr, hl, rfl⟩ := ahead_some ha
  have htake : (d'.receive more).input.take h.length = d'.input.take h.length :=
    List.take_append_of_le_length hl
  have hdrop : (d'.receive more).input.drop h.length = d'.input.drop h.length ++ more :=
    List.drop_append_of_le_length hl
  have hlen : (d'.receive more).input.length = d'.input.length + more.length :=
    List.length_append
  rw [ahead_of_readHeader (readHeader_receive hr more) (by omega), htake]
  unfold take
  rw [htake, hdrop]
  rfl

theorem finish_receive (d : Decoder) (h : Header) (old payload more : Bytes) (wanted : ℕ) :
    { d.receive more with wanted := wanted }.finish h old payload =
      (d.finish h old payload).receive more := by
  unfold finish
  split
  · unfold pong
    split <;> rfl
  · rfl
  · rfl

theorem heard_grow (t : Taken) (old more : Bytes) (wanted : ℕ) :
    (t.grow more wanted).heard old = (t.heard old).receive more := by
  unfold Taken.heard
  rw [← finish_receive _ _ _ _ more wanted]
  congr 1
  unfold hear
  change (if (t.state.told t.header t.payload).1.isSome then _ else _) = _
  split <;> rfl

/-- **A frame that is handled with more bytes behind it.** -/
theorem result_grow (t : Taken) (old more : Bytes) (wanted : ℕ) :
    ((t.grow more wanted).result old).state.trace = (t.result old).state.trace ∧
      (Closed (t.result old).state.trace ∨
        (t.result old = (t.heard old).recurse ∧
          (t.grow more wanted).result old = ((t.heard old).receive more).recurse)) := by
  have hheard := heard_grow t old more wanted
  by_cases he : t.state.Erroneous t.header
  · rw [result_refused t old he, result_refused (t.grow more wanted) old he]
    exact ⟨rfl, .inl (closed_protocolError _)⟩
  · by_cases hop : t.header.opcode = 8
    · rw [result_close t old he hop, result_close (t.grow more wanted) old he hop, state_recurse,
        state_recurse]
      exact ⟨rfl, .inl ((closed_close t.state .NORMAL_CLOSE).mono (List.prefix_append _ _))⟩
    · rw [result_heard t old he hop, result_heard (t.grow more wanted) old he hop, hheard,
        state_recurse, state_recurse]
      exact ⟨rfl, .inr ⟨rfl, rfl⟩⟩

/-! ## Activations -/

/-- The same result, or in both cases a close frame and the same trace. -/
def Alike (r r' : Call Decoder) : Prop :=
  r = r' ∨ Closed r.state.trace ∧ r'.state.trace = r.state.trace

theorem activate_reserved {d : Decoder} (hh : d.header = none) (hf : front d.input = .reserved) :
    d.activate =
      .returned ({ d with input := d.input.drop 1 }.emit .frame).protocolError := by
  unfold activate read
  rw [readHeader_none hh]
  unfold readFront
  rw [hf]
  rfl

theorem activate_short {d : Decoder} {wanted : ℕ} (hh : d.header = none)
    (hf : front d.input = .short wanted) : d.activate = .returned { d with wanted := wanted } := by
  unfold activate read
  rw [readHeader_none hh]
  unfold readFront
  rw [hf]
  rfl

/-- Where no header is read, `wanted_` is not looked at. -/
theorem wanted_irrelevant {d : Decoder} (hh : d.header = none) (hi : d.input ≠ []) (wanted : ℕ) :
    Alike { d with wanted := wanted }.activate d.activate := by
  have hh' : { d with wanted := wanted }.header = none := hh
  cases hf : front d.input with
  | nothing => exact absurd (front_nothing hf) hi
  | reserved =>
    rw [activate_reserved hh hf, activate_reserved hh' hf]
    exact .inr ⟨closed_protocolError _, rfl⟩
  | short wanted' =>
    rw [activate_short hh hf, activate_short hh' hf]
    exact .inl rfl
  | full h size code =>
    unfold activate read
    rw [readHeader_none hh, readHeader_none hh']
    unfold readFront
    rw [hf]
    exact .inl rfl

/-- Nor is it where the header is read and the payload is there. -/
theorem waits_irrelevant {d d' : Decoder} (h : d.Calm) {header : Header}
    (hread : d.readHeader = .ok (header, d')) (hl : header.length ≤ d'.input.length) (wanted : ℕ) :
    Alike { d' with wanted := wanted }.activate d.activate := by
  obtain ⟨input, code, hd', -⟩ := readHeader_eq hread
  have hread' : { d' with wanted := wanted }.readHeader =
      .ok (header, { d' with wanted := wanted }) := by
    rw [hd']
    rfl
  have ha := ahead_of_readHeader hread hl
  have ha' := ahead_of_readHeader hread' hl
  have hlisten : { d' with wanted := wanted }.Listening := by
    rw [hd']
    exact h.listening.congr rfl rfl rfl
  have hstatus : { d' with wanted := wanted }.status = .CONNECT := by
    rw [hd']
    exact h.status
  have hassembly : d'.assembly = d.assembly := by rw [hd']
  rw [activate_eq h.listening h.status ha, activate_eq hlisten hstatus ha', ← hassembly]
  obtain ⟨htrace, hcases⟩ := result_grow ⟨header, header.unmask (d'.input.take header.length),
    { d' with wanted := wanted }.take header⟩ d'.assembly [] d'.wanted
  have hgrow : Taken.grow ⟨header, header.unmask (d'.input.take header.length),
      { d' with wanted := wanted }.take header⟩ [] d'.wanted =
      ⟨header, header.unmask (d'.input.take header.length), d'.take header⟩ := by
    unfold Taken.grow
    rw [receive_nil]
    rfl
  rw [hgrow] at htrace hcases
  obtain hclosed | ⟨hr, hr'⟩ := hcases
  · exact .inr ⟨hclosed, htrace⟩
  · rw [receive_nil] at hr'
    exact .inl (hr.trans hr'.symm)

theorem recurse_receive (x : Decoder) {more : Bytes} (hm : more ≠ []) :
    (x.receive more).recurse = .again (x.receive more) := by
  refine if_neg fun h => hm ?_
  exact (List.append_eq_nil_iff.mp h).2

/-- **An activation before a read and after it.** -/
theorem activate_receive {d : Decoder} (h : d.Calm) (hi : d.input ≠ []) {more : Bytes}
    (hm : more ≠ []) :
    d.activate.state.trace <+: (d.receive more).activate.state.trace ∧
      (Closed d.activate.state.trace ∨
        (∃ x : Decoder, d.activate = x.recurse ∧ x.wanted = 0 ∧
          (d.receive more).activate = .again (x.receive more)) ∨
        ∃ x : Decoder, d.activate = .returned x ∧ x.input.length ≤ d.input.length ∧
          ((x.receive more).input.length < x.wanted →
            (d.receive more).activate = .returned (x.receive more)) ∧
          (x.wanted ≤ (x.receive more).input.length →
            Alike (x.receive more).activate (d.receive more).activate)) := by
  have hcalm := h.receive more
  cases ha : d.ahead with
  | some t =>
    rw [activate_eq h.listening h.status ha,
      activate_eq hcalm.listening hcalm.status (ahead_receive ha more)]
    change (t.result d.assembly).state.trace <+:
      ((t.grow more t.state.wanted).result d.assembly).state.trace ∧ _
    obtain ⟨htrace, hcases⟩ := result_grow t d.assembly more t.state.wanted
    refine ⟨htrace ▸ List.prefix_rfl, ?_⟩
    obtain hclosed | ⟨hr, hr'⟩ := hcases
    · exact .inl hclosed
    · refine .inr (.inl ⟨_, hr, (finish_eq _ _ _ _).2.1, ?_⟩)
      rw [← recurse_receive _ hm, ← hr']
      rfl
  | none =>
    have hahead (t : Taken) : d.ahead ≠ some t := fun h => by
      rw [ha] at h
      cases h
    have ho := d.outcome
    generalize hr : d.activate = r at ho
    cases ho with
    | empty hh hnil => exact absurd hnil hi
    | reserved hres =>
      rw [activate_reserved (d := d.receive more) hres.1 (front_append_reserved hres.2 more)]
      exact ⟨List.prefix_rfl, .inl (closed_protocolError _)⟩
    | short wanted hh hf =>
      have hgrow := grows_outcome (d.receive more).outcome
      refine ⟨hgrow, .inr (.inr ⟨_, rfl, le_refl _, fun hlt => ?_, fun _ => ?_⟩)⟩
      · exact activate_short (d := d.receive more) hh (front_append_short hf hlt)
      · have hne : (d.receive more).input ≠ [] := fun hnil => hm (List.append_eq_nil_iff.mp hnil).2
        exact wanted_irrelevant (d := d.receive more) hh hne wanted
    | waits header d' hread hl =>
      obtain ⟨input, wanted, hd', hsize⟩ := readHeader_eq hread
      have hread' := readHeader_receive hread more
      have htrace : d'.trace = d.trace := by rw [hd']
      have hinput : d'.input.length ≤ d.input.length := by
        rw [hd']
        change input.length ≤ d.input.length
        obtain ⟨-, rfl⟩ | ⟨-, hlen⟩ := hsize
        · exact le_refl _
        · omega
      have hgrow : d'.trace <+: (d.receive more).activate.state.trace := by
        have hgrow := grows_outcome (d.receive more).outcome
        rw [htrace]
        exact hgrow
      refine ⟨hgrow, .inr (.inr ⟨_, rfl, hinput, fun hlt => activate_waits hread' hlt,
        fun hle => ?_⟩)⟩
      exact waits_irrelevant hcalm hread' hle header.length
    | refused t ha' he => exact absurd ha' (hahead t)
    | closed t ha' hop hs => exact absurd ha' (hahead t)
    | ignored t ha' hop hs => exact absurd ha' (hahead t)
    | failed t x ha' he hop hx => exact absurd ha' (hahead t)
    | told t x ha' he hop hx => exact absurd ha' (hahead t)

/-! ## Runs -/

/-- Two results agree: they have a close frame and all before it in common, or they are the same. -/
def Agree (r r' : Call Decoder) : Prop :=
  (∃ t, Closed t ∧ t <+: r.state.trace ∧ t <+: r'.state.trace) ∨
    ∃ d : Decoder, d.Calm ∧ r = .returned d ∧ r' = .returned d

theorem Agree.symm {r r' : Call Decoder} (h : Agree r r') : Agree r' r := by
  obtain ⟨t, ht, hr, hr'⟩ | ⟨d, hd, hr, hr'⟩ := h
  · exact .inl ⟨t, ht, hr', hr⟩
  · exact .inr ⟨d, hd, hr', hr⟩

theorem Agree.trans {r r' r'' : Call Decoder} (h : Agree r r') (h' : Agree r' r'') :
    Agree r r'' := by
  obtain ⟨t, ht, hr, hr'⟩ | ⟨d, hd, hr, hr'⟩ := h
  · obtain ⟨u, hu, hur', hur''⟩ | ⟨e, he, her', her''⟩ := h'
    · obtain htu | hut := List.prefix_or_prefix_of_prefix hr' hur'
      · exact .inl ⟨t, ht, hr, htu.trans hur''⟩
      · exact .inl ⟨u, hu, hut.trans hr, hur''⟩
    · rw [her''] 
      rw [her'] at hr'
      exact .inl ⟨t, ht, hr, hr'⟩
  · rw [hr, ← hr']
    exact h'

/-- Enough activations agree, and so do those of a decoder whose first activation is the same. -/
theorem agree_iterate {d e : Decoder} (h : d.Calm) (hi : d.input ≠ []) {n m : ℕ}
    (hn : d.input.length < n) (hm : d.input.length < m) (hact : e.activate = d.activate) :
    Agree (Call.iterate activate n d) (Call.iterate activate m e) := by
  induction n generalizing d e m with
  | zero => omega
  | succ n ih =>
    obtain ⟨m, rfl⟩ := Nat.exists_eq_succ_of_ne_zero (Nat.ne_zero_of_lt hm)
    obtain hclosed | ⟨x, hx, hcalm⟩ | ⟨x, hx, hcalm, hne, hlt⟩ := calm_activate h hi
    · refine .inl ⟨_, hclosed, grows_first (Nat.succ_pos n) d, ?_⟩
      rw [← hact]
      exact grows_first (Nat.succ_pos m) e
    · rw [Call.iterate_returned n hx, Call.iterate_returned m (hact.trans hx)]
      exact .inr ⟨x, hcalm, rfl, rfl⟩
    · rw [Call.iterate_again n hx, Call.iterate_again m (hact.trans hx)]
      exact ih hcalm hne (by omega) (by omega) rfl

theorem agree_parse_self {d : Decoder} (h : d.Calm) (hi : d.input ≠ []) :
    Agree d.parse d.parse := by
  unfold parse
  split
  · exact .inr ⟨d, h, rfl, rfl⟩
  · rw [h.status]
    exact agree_iterate h hi (by omega) (by omega) rfl

theorem parse_eq_iterate {d : Decoder} (h : d.Calm) (hw : d.wanted ≤ d.input.length) :
    d.parse = Call.iterate activate (d.input.length + 2) d := by
  unfold parse
  rw [if_neg (by omega), h.status]
  rfl

theorem grows_andThen (r : Call Decoder) {next : Decoder → Call Decoder}
    (h : ∀ x, x.trace <+: (next x).state.trace) : r.state.trace <+: (r.andThen next).state.trace := by
  cases r with
  | returned x => exact h x
  | again x => exact List.prefix_rfl
  | aborted x => exact List.prefix_rfl

theorem grows_receive (more : Bytes) (x : Decoder) : x.trace <+: (x.receive more).parse.state.trace :=
  grows_parse (x.receive more)

/-- **Activations before a read and after it.** -/
theorem agree_receive {d : Decoder} (h : d.Calm) (hi : d.input ≠ []) {more : Bytes}
    (hmore : more ≠ []) {n m : ℕ} (hn : d.input.length < n)
    (hm : d.input.length + more.length < m) :
    Agree ((Call.iterate activate n d).andThen fun x => (x.receive more).parse)
      (Call.iterate activate m (d.receive more)) := by
  induction n generalizing d m with
  | zero => omega
  | succ n ih =>
    obtain ⟨m, rfl⟩ := Nat.exists_eq_succ_of_ne_zero (Nat.ne_zero_of_lt hm)
    obtain ⟨hgrow, hcases⟩ := activate_receive h hi hmore
    have hlen (x : Decoder) : (x.receive more).input.length = x.input.length + more.length :=
      List.length_append
    have hne (x : Decoder) : (x.receive more).input ≠ [] := fun hnil =>
      hmore (List.append_eq_nil_iff.mp hnil).2
    have hpos : 0 < d.input.length := List.length_pos_iff.mpr hi
    by_cases hclosed : Closed d.activate.state.trace
    · refine .inl ⟨_, hclosed, ?_, hgrow.trans (grows_first (Nat.succ_pos m) _)⟩
      exact (grows_first (Nat.succ_pos n) d).trans (grows_andThen _ (grows_receive more))
    · have hstep := (calm_activate h hi).resolve_left hclosed
      obtain ⟨x, hx, hwanted, hx'⟩ | ⟨x, hx, hle, hshort, hfull⟩ := hcases.resolve_left hclosed
      · rw [Call.iterate_again m hx']
        by_cases hnil : x.input = []
        · have hret : d.activate = .returned x := hx.trans (if_pos hnil)
          have hcalm : x.Calm := by
            obtain ⟨y, hy, hcalm⟩ | ⟨y, hy, -⟩ := hstep
            · rw [hret] at hy
              cases hy
              exact hcalm
            · rw [hret] at hy
              cases hy
          rw [Call.iterate_returned n hret, Call.returned_andThen,
            parse_eq_iterate (hcalm.receive more) (by
              change x.wanted ≤ _
              omega)]
          have hx0 : x.input.length = 0 := List.length_eq_zero_iff.mpr hnil
          have := hlen x
          exact agree_iterate (hcalm.receive more) (hne x) (by omega) (by omega) rfl
        · have hagain : d.activate = .again x := hx.trans (if_neg hnil)
          obtain ⟨y, hy, -⟩ | ⟨y, hy, hcalm, -, hlt⟩ := hstep
          · rw [hagain] at hy
            cases hy
          · rw [hagain] at hy
            cases hy
            rw [Call.iterate_again n hagain]
            exact ih hcalm hnil (by omega) (by omega)
      · have hcalm : x.Calm := by
          obtain ⟨y, hy, hcalm⟩ | ⟨y, hy, -⟩ := hstep
          · rw [hx] at hy
            cases hy
            exact hcalm
          · rw [hx] at hy
            cases hy
        rw [Call.iterate_returned n hx, Call.returned_andThen]
        by_cases hw : (x.receive more).input.length < x.wanted
        · rw [Call.iterate_returned m (hshort hw)]
          exact .inr ⟨_, hcalm.receive more, if_pos hw, rfl⟩
        · rw [parse_eq_iterate (hcalm.receive more) (Nat.le_of_not_lt hw)]
          have hlenx := hlen x
          obtain hsame | ⟨hclosed', htrace⟩ := hfull (Nat.le_of_not_lt hw)
          · exact agree_iterate (hcalm.receive more) (hne x) (by omega) (by omega) hsame.symm
          · refine .inl ⟨_, hclosed', grows_first (by omega) _, ?_⟩
            rw [← htrace]
            exact grows_first (Nat.succ_pos m) _

/-- Two reads agree with one. -/
theorem agree_parse {d : Decoder} (h : d.Calm) {bytes more : Bytes} (hb : bytes ≠ [])
    (hm : more ≠ []) :
    Agree ((d.receive bytes).parse.andThen fun x => (x.receive more).parse)
      (d.receive (bytes ++ more)).parse := by
  have hcalm := h.receive bytes
  have hne : (d.receive bytes).input ≠ [] := fun hnil => hb (List.append_eq_nil_iff.mp hnil).2
  have hne' : (d.receive (bytes ++ more)).input ≠ [] := fun hnil =>
    hb (List.append_eq_nil_iff.mp (List.append_eq_nil_iff.mp hnil).2).1
  by_cases hw : (d.receive bytes).input.length < d.wanted
  · have hshort : (d.receive bytes).parse = .returned (d.receive bytes) := if_pos hw
    rw [hshort, Call.returned_andThen, receive_receive]
    exact agree_parse_self (h.receive _) hne'
  · have hlen : (d.receive (bytes ++ more)).input.length =
        (d.receive bytes).input.length + more.length := by
      rw [← receive_receive]
      exact List.length_append
    rw [parse_eq_iterate hcalm (Nat.le_of_not_lt hw), parse_eq_iterate (h.receive _) (by
      change d.wanted ≤ _
      omega), ← receive_receive]
    exact agree_receive hcalm hne hm (by omega) (by
      rw [receive_receive]
      omega)

def feed (d : Decoder) : List Bytes → Call Decoder
  | [] => .returned d
  | bytes :: chunks => (d.receive bytes).parse.andThen fun d => d.feed chunks

theorem grows_feed (chunks : List Bytes) (d : Decoder) : d.trace <+: (d.feed chunks).state.trace := by
  induction chunks generalizing d with
  | nil => exact List.prefix_rfl
  | cons bytes chunks ih => exact (grows_receive bytes d).trans (grows_andThen _ ih)

/-- **All reads** agree with one. -/
theorem agree_feed {d : Decoder} (h : d.Calm) {bytes : Bytes} {chunks : List Bytes}
    (hne : ∀ b ∈ bytes :: chunks, b ≠ []) :
    Agree (d.feed (bytes :: chunks)) (d.receive (bytes :: chunks).flatten).parse := by
  have hb : bytes ≠ [] := hne bytes List.mem_cons_self
  have hi : (d.receive bytes).input ≠ [] := fun hnil => hb (List.append_eq_nil_iff.mp hnil).2
  have hself := agree_parse_self (h.receive bytes) hi
  induction chunks generalizing d bytes with
  | nil =>
    have hone : d.feed [bytes] = (d.receive bytes).parse := by
      unfold feed
      cases (d.receive bytes).parse <;> rfl
    rw [hone, List.flatten_singleton]
    exact hself
  | cons more chunks ih =>
    have hm : more ≠ [] := hne more (by simp)
    have hflat : (more :: chunks).flatten ≠ [] := fun hnil => hm (List.append_eq_nil_iff.mp hnil).1
    have hnext (x : Decoder) : x.trace <+: (x.receive (more :: chunks).flatten).parse.state.trace :=
      grows_receive _ x
    refine Agree.trans ?_ (agree_parse h hb hflat)
    obtain ⟨t, ht, hr, -⟩ | ⟨x, hx, hr, -⟩ := hself
    · exact .inl ⟨t, ht, hr.trans (grows_andThen _ (grows_feed (more :: chunks))),
        hr.trans (grows_andThen _ hnext)⟩
    · unfold feed
      rw [hr, Call.returned_andThen, Call.returned_andThen]
      have hi' : (x.receive more).input ≠ [] := fun hnil => hm (List.append_eq_nil_iff.mp hnil).2
      exact ih hx (fun b hb' => hne b (List.mem_cons_of_mem _ hb')) hm hi'
        (agree_parse_self (hx.receive more) hi')

theorem agree_chunks {d : Decoder} (h : d.Calm) {chunks chunks' : List Bytes}
    (hne : ∀ b ∈ chunks, b ≠ []) (hne' : ∀ b ∈ chunks', b ≠ [])
    (hsame : chunks.flatten = chunks'.flatten) : Agree (d.feed chunks) (d.feed chunks') := by
  cases chunks with
  | nil =>
    cases chunks' with
    | nil => exact .inr ⟨d, h, rfl, rfl⟩
    | cons bytes' chunks' =>
      exact absurd (List.append_eq_nil_iff.mp hsame.symm).1 (hne' bytes' List.mem_cons_self)
  | cons bytes chunks =>
    cases chunks' with
    | nil => exact absurd (List.append_eq_nil_iff.mp hsame).1 (hne bytes List.mem_cons_self)
    | cons bytes' chunks' =>
      have h1 := agree_feed h hne
      rw [hsame] at h1
      exact h1.trans (agree_feed h hne').symm

/-! ## The handshake is not gone back to -/

theorem status_close (d : Decoder) (code : StatusCode) : (d.close code).status = .CLOSING := by
  unfold close
  split <;> rfl

/-- What sends may send a close frame, and changes the status in no other way. -/
def OrClosing (d d' : Decoder) : Prop := d'.status = d.status ∨ d'.status = .CLOSING

theorem OrClosing.trans {d d' d'' : Decoder} (h : d.OrClosing d') (h' : d'.OrClosing d'') :
    d.OrClosing d'' := by
  obtain hsame | hclosing := h'
  · obtain h | h := h
    · exact .inl (hsame.trans h)
    · exact .inr (hsame.trans h)
  · exact .inr hclosing

theorem OrClosing.past {d d' : Decoder} (h : d.OrClosing d') (hpast : d.status ≠ .INITIAL) :
    d'.status ≠ .INITIAL := by
  obtain hs | hs := h <;> rw [hs]
  · exact hpast
  · exact nofun

theorem orClosing_pong (d : Decoder) (message : Bytes) : d.OrClosing (d.pong message) := by
  unfold pong
  split
  · exact .inr (status_close _ _)
  · exact .inl rfl

theorem orClosing_call (d : Decoder) (c : ApiCall) : d.OrClosing (ended (d.call c)) := by
  have hmessage (data : Bytes) (isBinary : Bool) :
      d.OrClosing (ended (d.sendMessage data isBinary)) := by
    unfold sendMessage
    split <;> exact .inl rfl
  cases c with
  | sendMove data isBinary => exact hmessage data isBinary
  | sendMessage data isBinary => exact hmessage data isBinary
  | ping message =>
    change d.OrClosing (d.ping message)
    unfold ping
    split
    · exact .inr (status_close _ _)
    · exact .inl rfl
  | pong message => exact orClosing_pong d message
  | close code => exact .inr (status_close d code)

theorem orClosing_calls (d : Decoder) (cs : List ApiCall) : d.OrClosing (ended (d.calls cs)) := by
  induction cs generalizing d with
  | nil => exact .inl rfl
  | cons c cs ih =>
    have hc := orClosing_call d c
    unfold calls
    cases hr : d.call c with
    | error d' =>
      rw [hr] at hc
      exact hc
    | ok d' =>
      rw [hr] at hc
      exact hc.trans (ih d')

theorem orClosing_runCallback (d : Decoder) (callback : Option Callback) (effect : Effect) :
    d.OrClosing (ended (d.runCallback callback effect)) := by
  cases callback with
  | none => exact .inl rfl
  | some answer => exact orClosing_calls (d.emit effect) _

/-- The status after an activation: where it is closed, a close frame was ahead of a connection in
CONNECT, and its header is kept. -/
theorem status_outcome {d : Decoder} {r : Call Decoder} (ho : d.Outcome r) :
    d.OrClosing r.state ∨ d.status = .CONNECT ∧ r.state.status = .CLOSED ∧
      ∃ h, r.state.header = some h ∧ h.opcode = 8 := by
  have hahead (t : Taken) (ha : d.ahead = some t) : d.OrClosing t.state := .inl (status_ahead ha)
  have htold (t : Taken) (ha : d.ahead = some t) (r : Except Decoder Decoder)
      (hr : (t.state.handOver t.header).runCallback (t.state.told t.header t.payload).1
        (t.state.told t.header t.payload).2 = r) : d.OrClosing (ended r) := by
    rw [← hr]
    exact (hahead t ha).trans (orClosing_runCallback (t.state.handOver t.header) _ _)
  cases ho with
  | empty hh hi => exact .inl (.inl rfl)
  | reserved hr => exact .inl (.inr (status_close _ _))
  | short wanted hh hf => exact .inl (.inl rfl)
  | waits header d' hr hl =>
    obtain ⟨input, wanted, rfl, -⟩ := readHeader_eq hr
    exact .inl (.inl rfl)
  | refused t ha he => exact .inl (.inr (status_close _ _))
  | closed t ha hop hs =>
    rw [state_recurse]
    obtain ⟨output, status, more, hclose⟩ := sent_close t.state .NORMAL_CLOSE
    have hheader : (t.state.close .NORMAL_CLOSE).header = some t.header := by
      rw [hclose]
      exact header_ahead ha
    exact .inr ⟨(status_ahead ha).symm.trans hs, rfl, t.header, hheader, hop⟩
  | ignored t ha hop hs =>
    rw [state_recurse]
    exact .inl (hahead t ha)
  | failed t x ha he hop hx => exact .inl (htold t ha _ hx)
  | told t x ha he hop hx =>
    have hx' : d.OrClosing x := htold t ha _ hx
    rw [state_recurse]
    unfold finish
    split
    · have hpong := hx'.trans (orClosing_pong x t.payload)
      exact .inl (hpong.trans (.inl rfl))
    · exact .inl (hx'.trans (.inl rfl))
    · exact .inl (hx'.trans (.inl rfl))

theorem past_outcome {d : Decoder} (h : d.status ≠ .INITIAL) {r : Call Decoder}
    (ho : d.Outcome r) : r.state.status ≠ .INITIAL := by
  obtain hsent | ⟨-, hclosed, -⟩ := status_outcome ho
  · exact hsent.past h
  · rw [hclosed]
    exact nofun

theorem past_parse {d : Decoder} (h : d.status ≠ .INITIAL) : d.parse.state.status ≠ .INITIAL := by
  have hdecode : d.decode.state.status ≠ .INITIAL :=
    Call.iterate_rel (fun d d' : Decoder => d.status ≠ .INITIAL → d'.status ≠ .INITIAL)
      (fun _ => id) (fun _ _ _ h h' hd => h' (h hd)) (fun d hd => past_outcome hd d.outcome) _ d h
  unfold parse
  split
  · exact h
  · split
    · exact hdecode
    · exact hdecode
    · exact h

end Decoder

theorem Session.past_step {s s' : Session} {e : SessionEvent} (h : s.ws.status_ ≠ .INITIAL)
    (hs : s.step e = .ok s') : s'.ws.status_ ≠ .INITIAL := by
  have hmeet := step_meet hs
  change s'.ws.abs.status ≠ _
  rw [hmeet]
  cases e with
  | receive bytes => exact h
  | decode => exact Decoder.past_outcome (d := s.ws.abs) h s.ws.abs.outcome
  | call c => exact (Decoder.orClosing_call s.ws.abs c).past h

/-! ## What is seen -/

/-- A callback of the application, or a frame handed to `conn_->send`. -/
def Effect.isSeen : Effect → Bool
  | message _ _ | ping _ | pong _ | send _ => true
  | stopRead | closeTcp | frame | protocolError => false

/-- What is seen, up to and including the first close frame. -/
def observed : List Effect → List Effect
  | [] => []
  | e :: es => if e.closes then [e] else if e.isSeen then e :: observed es else observed es

theorem observed_of_closed {t t' : List Effect} (h : Closed t) (hp : t <+: t') :
    observed t' = observed t := by
  obtain ⟨more, rfl⟩ := hp
  induction t with
  | nil =>
    obtain ⟨e, he, -⟩ := h
    exact absurd he List.not_mem_nil
  | cons e es ih =>
    rw [List.cons_append, observed, observed]
    by_cases hc : e.closes = true
    · rw [if_pos hc, if_pos hc]
    · have hes : Closed es := by
        obtain ⟨e', he', hc'⟩ := h
        rcases List.mem_cons.mp he' with rfl | he'
        · exact absurd hc' hc
        · exact ⟨e', he', hc'⟩
      rw [if_neg hc, if_neg hc, ih hes]

namespace WebSocketConnection

/-- The callbacks make no calls on the connection. -/
structure Listening (ws : WebSocketConnection) : Prop where
  message : Listens ws.wsMessageCallback_
  ping : Listens ws.pingCallback_
  pong : Listens ws.pongCallback_

theorem Fresh.calm {ws : WebSocketConnection} (h : ws.Fresh) (hl : ws.Listening) : ws.abs.Calm :=
  ⟨h.status, ⟨hl.message, hl.ping, hl.pong⟩, .of_none (if_neg (by rw [h.header]; decide))⟩

/-- Nothing goes back to the handshake. -/
theorem parse_past (httpParserExecute : WebSocketConnection → Bytes → ℕ × WebSocketConnection)
    (ws : WebSocketConnection) (h : ws.status_ ≠ .INITIAL) :
    (ws.parse httpParserExecute).state.status_ ≠ .INITIAL := by
  have hpast := Decoder.past_parse (d := ws.abs) h
  rw [← abs_parse httpParserExecute ws h, Call.state_map] at hpast
  exact hpast

/-- A read for each of the chunks, each followed by `parse`. -/
def feed (httpParserExecute : WebSocketConnection → Bytes → ℕ × WebSocketConnection)
    (ws : WebSocketConnection) : List Bytes → Call WebSocketConnection
  | [] => .returned ws
  | bytes :: chunks =>
    ((ws.receive bytes).parse httpParserExecute).andThen fun ws => ws.feed httpParserExecute chunks

theorem abs_feed (httpParserExecute : WebSocketConnection → Bytes → ℕ × WebSocketConnection)
    {ws : WebSocketConnection} (h : ws.status_ ≠ .INITIAL) (chunks : List Bytes) :
    (ws.feed httpParserExecute chunks).map abs = ws.abs.feed chunks := by
  induction chunks generalizing ws with
  | nil => rfl
  | cons bytes chunks ih =>
    have hparse := abs_parse httpParserExecute (ws.receive bytes) h
    have hpast := parse_past httpParserExecute (ws.receive bytes) h
    rw [abs_receive] at hparse
    unfold feed Decoder.feed
    rw [← hparse]
    cases hr : (ws.receive bytes).parse httpParserExecute with
    | returned w =>
      rw [hr] at hpast
      exact ih hpast
    | again w => rfl
    | aborted w => rfl

/-- The same bytes to read, the same assembly, and the same header where one is read. -/
structure SameState (ws ws' : WebSocketConnection) : Prop where
  input : ws.inputBuffer.readable = ws'.inputBuffer.readable
  decodeBuf : ws.decodeBuf_.readable = ws'.decodeBuf_.readable
  fragmentedOpCode : ws.fragmentedOpCode_ = ws'.fragmentedOpCode_
  headerRead : ws.headerRead_ = ws'.headerRead_
  wanted : ws.wanted_ = ws'.wanted_
  header : ws.headerRead_ = true → ws.payloadLength_ = ws'.payloadLength_ ∧
    ws.opcode_ = ws'.opcode_ ∧ ws.isFin_ = ws'.isFin_ ∧ ws.masked_ = ws'.masked_ ∧
    (ws.masked_ = true → ws.maskKey_ = ws'.maskKey_)

theorem sameState_of_abs {ws ws' : WebSocketConnection} (h : ws.abs = ws'.abs) :
    ws.SameState ws' := by
  have hheader : ws.abs.header = ws'.abs.header := by rw [h]
  have hread : ws.headerRead_ = ws'.headerRead_ := by
    unfold abs at hheader
    cases hr : ws.headerRead_ <;> cases hr' : ws'.headerRead_ <;> simp_all
  refine ⟨congrArg Decoder.input h, congrArg Decoder.assembly h,
    congrArg Decoder.fragmentedOpCode h, hread, congrArg Decoder.wanted h, fun hr => ?_⟩
  have h1 : ws.abs.header = some ws.lastHeader := if_pos hr
  have h2 : ws'.abs.header = some ws'.lastHeader := if_pos (hread ▸ hr)
  rw [h1, h2] at hheader
  injection Option.some.inj hheader with hfin hop hmask hlen
  refine ⟨hlen, hop, hfin, ?_, fun hm => ?_⟩
  · cases hm : ws.masked_ <;> cases hm' : ws'.masked_ <;> simp_all
  · cases hm' : ws'.masked_ <;> simp_all

end WebSocketConnection
end WsEngine
