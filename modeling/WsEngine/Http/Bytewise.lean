import WsEngine.Http.Runs

/-! # One byte, then the rest

What the loop does with its data it does as well with the first byte alone and then with the rest
(`loop_peel`). The loops inside the states and the bodies may be interrupted behind every byte, as
long as the data fits into one window of the loop inside `h_general`. -/
set_option autoImplicit false

namespace WsEngine
namespace Http
open Slices (advanced signs items track Alike)

/-! ## Flows that agree -/

/-- They end in the same way and do the same, unless both fail. -/
inductive Flow.Agrees : Flow → Flow → Prop
  | goes {p : Parser} {actions more : List Action} (h : Alike actions more) :
    Agrees (.goes p actions) (.goes p more)
  | exits {p : Parser} {actions more : List Action} (h : Alike actions more) :
    Agrees (.exits p actions) (.exits p more)
  | fails {p q : Parser} {actions more : List Action} : Agrees (.fails p actions) (.fails q more)
  | aborts : Agrees .aborts .aborts

namespace Flow

variable {flow flow' : Flow}

theorem Agrees.refl (flow : Flow) : flow.Agrees flow := by
  cases flow with
  | goes p actions => exact .goes (.refl _)
  | exits p actions => exact .exits (.refl _)
  | fails p actions => exact .fails
  | aborts => exact .aborts

theorem Agrees.symm (h : flow.Agrees flow') : flow'.Agrees flow := by
  cases h with
  | goes h => exact .goes h.symm
  | exits h => exact .exits h.symm
  | fails => exact .fails
  | aborts => exact .aborts

theorem Agrees.trans {flow'' : Flow} (h : flow.Agrees flow') (h' : flow'.Agrees flow'') :
    flow.Agrees flow'' := by
  cases h with
  | goes h =>
    cases h' with
    | goes h' => exact .goes (h.trans h')
  | exits h =>
    cases h' with
    | exits h' => exact .exits (h.trans h')
  | fails =>
    cases h'
    exact .fails
  | aborts => exact h'

theorem Agrees.after {actions actions' : List Action} (h : flow.Agrees flow')
    (ha : Alike actions actions') : (flow.after actions).Agrees (flow'.after actions') := by
  cases h with
  | goes h => exact .goes (ha.append h)
  | exits h => exact .exits (ha.append h)
  | fails => exact .fails
  | aborts => exact .aborts

theorem Agrees.andThen {k k' : Parser → Flow} (h : flow.Agrees flow')
    (hk : ∀ q actions, flow = .goes q actions → (k q).Agrees (k' q)) :
    (flow.andThen k).Agrees (flow'.andThen k') := by
  cases h with
  | goes h => exact (hk _ _ rfl).after h
  | exits h => exact .exits h
  | fails => exact .fails
  | aborts => exact .aborts

theorem andThen_after (actions : List Action) (flow : Flow) (k : Parser → Flow) :
    (flow.after actions).andThen k = (flow.andThen k).after actions := by
  cases flow with
  | goes p more => exact (after_after (k p) actions more).symm
  | _ => rfl

theorem andThen_assoc (flow : Flow) (k k' : Parser → Flow) :
    (flow.andThen k).andThen k' = flow.andThen fun p => (k p).andThen k' := by
  cases flow with
  | goes p actions => exact andThen_after actions (k p) k'
  | _ => rfl

end Flow

/-! ## One byte, then the rest -/

section
variable {p : Parser} {ch : UInt8} {rest : Bytes}

theorem loop_goes_still {q : Parser} {actions : List Action}
    (h : round p ch (ch :: rest) = .goes q actions) (hstill : items actions = []) :
    loop 0 (ch :: rest) p = (loop 0 rest q).after (actions ++ [.advance ch]) := by
  have hzero : advanced actions = 0 := by rw [advanced, hstill, List.length_nil]
  rw [loop_goes h, hzero]
  rfl

/-- The first round looks at no more than the first byte. -/
theorem loop_peel_still (flow : Flow) (hround : ∀ bytes, round p ch (ch :: bytes) = flow)
    (hstill : flow.Still) :
    (loop 0 (ch :: rest) p).Agrees ((loop 0 [ch] p).andThen (loop 0 rest)) := by
  have hpeel : loop 0 (ch :: rest) p = (loop 0 [ch] p).andThen (loop 0 rest) := by
    cases flow with
    | goes q actions =>
      rw [loop_goes_still (hround rest) hstill, loop_goes_still (hround []) hstill]
      simp [loop, Flow.andThen, Flow.after]
    | _ => simp_all [loop, Flow.andThen, Flow.Still, advanced]
  rw [hpeel]
  exact .refl _

/-- The first round goes on where a round that sees the first byte alone would have stopped. -/
theorem loop_peel_inner {q : Parser} {actions : List Action} (hfirst : loop 0 [ch] p = .goes q actions)
    (hitems : items actions = [ch])
    (hround : ∀ c more, rest = c :: more →
      (round p ch (ch :: rest)).Agrees ((round q c rest).after actions)) :
    (loop 0 (ch :: rest) p).Agrees ((loop 0 [ch] p).andThen (loop 0 rest)) := by
  cases rest with
  | nil =>
    rw [hfirst]
    simp only [loop, Flow.andThen, Flow.after, List.append_nil]
    exact .refl _
  | cons c more =>
    have hround := hround c more rfl
    have hadvanced {actions' actions'' : List Action} (h : Alike actions' (actions ++ actions'')) :
        advanced actions' = advanced actions'' + 1 := by
      rw [advanced, h.1, Slices.items_append, hitems, List.length_append, advanced]
      exact Nat.add_comm ..
    rw [hfirst, Flow.andThen]
    cases hflow' : round q c (c :: more) with
    | goes q' actions'' =>
      rw [hflow'] at hround
      cases hflow : round p ch (ch :: c :: more) with
      | goes p' actions' =>
        rw [hflow] at hround
        cases hround with
        | goes h =>
          rw [loop_goes hflow, loop_goes hflow', hadvanced h, Flow.after_after, ← List.append_assoc]
          exact (Flow.Agrees.refl _).after (h.append (.refl _))
      | _ =>
        rw [hflow] at hround
        cases hround
    | exits q' actions'' =>
      rw [hflow'] at hround
      cases hflow : round p ch (ch :: c :: more) with
      | exits p' actions' =>
        rw [hflow] at hround
        cases hround with
        | exits h =>
          simp only [loop, hflow, hflow', Flow.after, hadvanced h]
          rw [← List.append_assoc]
          exact .exits (h.append (.refl _))
      | _ =>
        rw [hflow] at hround
        cases hround
    | fails q' actions'' =>
      rw [hflow'] at hround
      cases hflow : round p ch (ch :: c :: more) with
      | fails p' actions' =>
        simp only [loop, hflow, hflow', Flow.after]
        exact .fails
      | _ =>
        rw [hflow] at hround
        cases hround
    | aborts =>
      rw [hflow'] at hround
      cases hflow : round p ch (ch :: c :: more) with
      | aborts =>
        simp only [loop, hflow, hflow', Flow.after]
        exact .aborts
      | _ =>
        rw [hflow] at hround
        cases hround

/-! ## The name of a header -/

theorem count_add (v : ℕ) (p : Parser) :
    COUNT_HEADER_SIZE (v + 1) p = COUNT_HEADER_SIZE v { p with nread := p.nread + 1 } := by
  unfold COUNT_HEADER_SIZE
  dsimp only
  rw [Nat.add_right_comm, Nat.add_assoc]

theorem count_eq {v : ℕ} (h : p.nread + v ≤ max_header_size) :
    COUNT_HEADER_SIZE v p = .goes { p with nread := p.nread + v } [] := by
  have hmod : (p.nread + v) % 2 ^ 32 = p.nread + v := by
    apply Nat.mod_eq_of_lt
    unfold max_header_size at h
    omega
  unfold COUNT_HEADER_SIZE
  dsimp only
  rw [hmod, if_neg (by omega)]

/-- No sum of what is counted wraps around. -/
theorem count_fails {v : ℕ} (hp : p.nread ≤ max_header_size) (hv : v ≤ max_header_size)
    (h : max_header_size < p.nread + v) : ∃ q, COUNT_HEADER_SIZE v p = .fails q [] := by
  have hmod : (p.nread + v) % 2 ^ 32 = p.nread + v := by
    apply Nat.mod_eq_of_lt
    unfold max_header_size at hp hv
    omega
  unfold COUNT_HEADER_SIZE
  dsimp only
  rw [hmod, if_pos h]
  exact ⟨_, rfl⟩

theorem count_goes {v : ℕ} {q : Parser} {actions : List Action}
    (h : COUNT_HEADER_SIZE v p = .goes q actions) :
    q = { p with nread := q.nread } ∧ q.nread ≤ max_header_size ∧ actions = [] := by
  unfold COUNT_HEADER_SIZE at h
  dsimp only at h
  split at h
  · cases h
  · next hle =>
    cases h
    exact ⟨rfl, Nat.not_lt.mp hle, rfl⟩

/-- `nread` is of no account inside the loops. -/
def Flow.withNread (n : ℕ) : Flow → Flow
  | .goes p actions => .goes { p with nread := n } actions
  | .fails p actions => .fails { p with nread := n } actions
  | .exits p actions => .exits { p with nread := n } actions
  | .aborts => .aborts

theorem Flow.withNread_after (n : ℕ) (actions : List Action) (flow : Flow) :
    (flow.after actions).withNread n = (flow.withNread n).after actions := by
  cases flow <;> rfl

theorem fieldChar_nread (p : Parser) (n : ℕ) (c : UInt8) :
    fieldChar { p with nread := n } c = (fieldChar p c).map fun q => { q with nread := n } := by
  obtain ⟨_, _, header_state, _, _, _, _, _, _, _, _⟩ := p
  cases header_state <;> rfl

theorem fieldLoop_nread (k : ℕ) (bytes : Bytes) (p : Parser) (n : ℕ) :
    fieldLoop k bytes { p with nread := n } = (fieldLoop k bytes p).withNread n := by
  induction bytes generalizing k p with
  | nil => cases k <;> rfl
  | cons ch rest ih =>
    cases k with
    | succ k =>
      rw [fieldLoop, fieldLoop, ih, Flow.withNread_after]
    | zero =>
      rw [fieldLoop, fieldLoop, fieldChar_nread]
      split
      · rfl
      · cases fieldChar p (TOKEN ch) with
        | none => rfl
        | some q =>
          dsimp only [Option.map]
          rw [ih, Flow.withNread_after]

/-- The loop inside `h_general` passes what the loop around it would pass as well. -/
theorem fieldLoop_skip (hp : p.header_state = .h_general) {k : ℕ} {bytes : Bytes}
    (hk : k ≤ (bytes.takeWhile fun ch => TOKEN ch ≠ 0).length) :
    fieldLoop k bytes p = fieldLoop 0 bytes p := by
  induction bytes generalizing k with
  | nil => cases k <;> rfl
  | cons ch rest ih =>
    cases k with
    | zero => rfl
    | succ k =>
      by_cases htoken : TOKEN ch = 0
      · simp [htoken] at hk
      · have hk' : k ≤ (rest.takeWhile fun ch => TOKEN ch ≠ 0).length := by
          simpa [htoken] using hk
        have hskip : fieldSkip rest ≤ (rest.takeWhile fun ch => TOKEN ch ≠ 0).length := by
          unfold fieldSkip
          rw [← List.take_takeWhile, List.length_take]
          exact Nat.min_le_right ..
        have hchar : fieldChar p (TOKEN ch) = some p := by
          unfold fieldChar
          rw [hp]
        rw [fieldLoop, fieldLoop, if_neg htoken, hchar]
        dsimp only
        rw [if_pos hp, ih hk', ih hskip]

theorem fieldLoop_cons {q : Parser} (htoken : TOKEN ch ≠ 0) (hq : fieldChar p (TOKEN ch) = some q) :
    fieldLoop 0 (ch :: rest) p = (fieldLoop 0 rest q).after [.advance ch] := by
  rw [fieldLoop, if_neg htoken, hq]
  dsimp only
  split
  · next hp =>
    have hchar : fieldChar p (TOKEN ch) = some p := by
      unfold fieldChar
      rw [hp]
    rw [hchar] at hq
    cases hq
    rw [fieldLoop_skip hp]
    unfold fieldSkip
    rw [← List.take_takeWhile, List.length_take]
    exact Nat.min_le_right ..
  · rfl

theorem round_header (h : PARSING_HEADER p.state = true) (bytes : Bytes) :
    round p ch bytes = (COUNT_HEADER_SIZE 1 p).andThen fun p => pass p ch bytes := by
  unfold round
  rw [if_pos h]

/-- The first byte of a round in the name, with its count. -/
theorem round_field (ch : UInt8) (hp : p.state = .s_header_field) (bytes : Bytes) :
    round p ch bytes = (COUNT_HEADER_SIZE 1 p).andThen fun q => headerField q bytes := by
  rw [round_header (by rw [hp]; rfl)]
  rcases count_cases 1 p with ⟨nread, hcount⟩ | ⟨nread, hcount⟩
  · rw [hcount, Flow.andThen, Flow.andThen, pass]
    simp only [hp]
  · rw [hcount]
    rfl

theorem fieldStop_peel {taken : List Action} (h : rest = [] → taken ≠ []) :
    fieldStop p (.advance ch :: taken) rest =
      (fieldStop { p with nread := p.nread + 1 } taken rest).after [.advance ch] := by
  cases rest with
  | nil =>
    obtain ⟨first, others, rfl⟩ := List.exists_cons_of_ne_nil (h rfl)
    unfold fieldStop
    change (COUNT_HEADER_SIZE (others.length + 1) p).after (.advance ch :: (first :: others).dropLast) = _
    rw [count_add, Flow.after_after]
    rfl
  | cons c more =>
    unfold fieldStop
    dsimp only
    rw [List.length_cons, count_add, Flow.after_after]
    rfl

/-- More header bytes than the limit are an error, also where they are counted later. -/
theorem fieldStop_fails (ch : UInt8) {rest : Bytes} {taken : List Action} (hp : p.nread = max_header_size)
    (hlen : taken.length + 1 ≤ max_header_size) (h : rest = [] → taken ≠ []) :
    ∃ q actions, fieldStop p (.advance ch :: taken) rest = .fails q actions := by
  cases rest with
  | nil =>
    have hpos := List.length_pos_iff.mpr (h rfl)
    obtain ⟨q, hq⟩ := count_fails (p := p) (v := taken.length) hp.le (by omega) (by omega)
    unfold fieldStop
    change ∃ q actions, (COUNT_HEADER_SIZE taken.length p).after _ = .fails q actions
    rw [hq]
    exact ⟨_, _, rfl⟩
  | cons c more =>
    obtain ⟨q, hq⟩ := count_fails (p := p) (v := taken.length + 1) hp.le hlen (by omega)
    unfold fieldStop
    dsimp only
    rw [List.length_cons, hq]
    exact ⟨_, _, rfl⟩

theorem fieldLoop_keeps {k : ℕ} {bytes : Bytes} {p q : Parser} {actions : List Action}
    (h : fieldLoop k bytes p = .goes q actions) : q.nread = p.nread := by
  have hsame := fieldLoop_nread k bytes p p.nread
  rw [show { p with nread := p.nread } = p from rfl, h] at hsame
  simp only [Flow.withNread, Flow.goes.injEq] at hsame
  have hnread := congrArg Parser.nread hsame.1
  exact hnread

/-- What the rest of the name is for a round of its own, it is for the one that began before. -/
theorem headerField_peel {q : Parser} {c : UInt8} {more : Bytes} (hnamed : q.Named)
    (hnread : q.nread ≤ max_header_size) (htoken : TOKEN ch ≠ 0)
    (hq : fieldChar p (TOKEN ch) = some q) (hlen : (ch :: c :: more).length ≤ max_header_size) :
    (headerField p (ch :: c :: more)).Agrees ((round q c (c :: more)).after [.advance ch]) := by
  have htook := fieldLoop_took 0 (c :: more) hnamed
  rw [round_field c hnamed.state]
  unfold headerField
  rw [fieldLoop_cons htoken hq]
  cases hloop : fieldLoop 0 (c :: more) q with
  | aborts =>
    rw [hloop] at htook
    exact htook.elim
  | exits p' actions =>
    rw [hloop] at htook
    exact htook.elim
  | fails p' actions =>
    rcases count_cases 1 q with ⟨nread, hcount⟩ | ⟨nread, hcount⟩
    · rw [hcount, Flow.andThen, fieldLoop_nread, hloop]
      exact .fails
    · rw [hcount]
      exact .fails
  | goes p' taken =>
    have hkeeps := fieldLoop_keeps hloop
    rw [hloop] at htook
    obtain ⟨⟨n, hn, htaken⟩, -⟩ := htook
    have hlength : taken.length ≤ (c :: more).length := by
      rw [htaken, List.length_map, List.length_take]
      exact Nat.min_le_right ..
    have hrest : (c :: more).drop taken.length = [] → taken ≠ [] := by
      rintro hnil rfl
      cases hnil
    change (fieldStop p' (.advance ch :: taken) ((c :: more).drop taken.length)).Agrees _
    by_cases hone : q.nread + 1 ≤ max_header_size
    · rw [count_eq hone, Flow.andThen, Flow.after_nil, fieldLoop_nread, hloop, fieldStop_peel hrest,
        hkeeps]
      exact .refl _
    · obtain ⟨q', hcount⟩ := count_fails (p := q) (v := 1) hnread (by decide) (by omega)
      rw [hcount]
      rw [List.length_cons] at hlen
      obtain ⟨p'', actions, hfails⟩ := fieldStop_fails ch (p := p')
        (show p'.nread = _ by omega) (by omega) hrest
      rw [hfails]
      exact .fails

/-- `--p` behind the last byte: it is counted by the next round. -/
theorem count_none (h : p.nread ≤ max_header_size) : COUNT_HEADER_SIZE 0 p = .goes p [] := count_eq h

/-- The only byte of the data. -/
theorem headerField_token {q : Parser} (hnread : p.nread ≤ max_header_size) (htoken : TOKEN ch ≠ 0)
    (hq : fieldChar p (TOKEN ch) = some q) : headerField p [ch] = .goes q [] := by
  have hfirst : fieldLoop 0 [ch] p = .goes q [.advance ch] := by
    rw [fieldLoop_cons htoken hq]
    rfl
  rw [headerField, hfirst]
  change (COUNT_HEADER_SIZE 0 q).after [] = .goes q []
  rw [count_none]
  · rfl
  · rw [fieldLoop_keeps hfirst]
    exact hnread

theorem loop_field (hnamed : p.Named) (hlen : (ch :: rest).length ≤ max_header_size) :
    (loop 0 (ch :: rest) p).Agrees ((loop 0 [ch] p).andThen (loop 0 rest)) := by
  have hround (bytes : Bytes) := round_field ch hnamed.state bytes
  rcases count_cases 1 p with ⟨nread, hcount⟩ | ⟨nread, hcount⟩
  · have hcounted : { p with nread := nread }.Named :=
      ⟨⟨hnamed.errno, hnamed.content_length⟩, hnamed.state, hnamed.naming⟩
    have hle : nread ≤ max_header_size := (count_goes hcount).2.1
    simp only [hcount, Flow.andThen, Flow.after_nil] at hround
    by_cases htoken : TOKEN ch = 0
    · have hstops (bytes : Bytes) : round p ch (ch :: bytes) =
          fieldStop { p with nread := nread } [] [ch] := by
        rw [hround, headerField, fieldLoop, if_pos htoken]
        rfl
      apply loop_peel_still _ hstops
      apply Flow.Still.after _ rfl
      apply still_count
      intro q
      split <;> rfl
    · obtain ⟨q, hq, hqnamed⟩ := fieldChar_named hcounted (TOKEN ch)
      have hone : loop 0 [ch] p = .goes q [.advance ch] := by
        rw [loop_goes_still ((hround [ch]).trans (headerField_token hle htoken hq)) rfl]
        rfl
      have hfirst : fieldLoop 0 [ch] { p with nread := nread } = .goes q [.advance ch] := by
        rw [fieldLoop_cons htoken hq]
        rfl
      apply loop_peel_inner hone rfl
      rintro c more rfl
      rw [hround]
      exact headerField_peel hqnamed ((fieldLoop_keeps hfirst).trans_le hle) htoken hq hlen
  · apply loop_peel_still (.fails { p with
      nread := nread
      http_errno := .HPE_HEADER_OVERFLOW } [])
    · intro bytes
      rw [hround, hcount]
      rfl
    · rfl

/-! ## The value of a header -/

/-- Where the loop of `h_general` stops. -/
def generalStop (p : Parser) : Bytes → Flow
  | [] => .goes { p with header_state := .h_general } []
  | ch :: _ =>
    if ch = CR ∨ ch = LF then .goes { p with header_state := .h_general } []
    else p.error .HPE_INVALID_HEADER_TOKEN

theorem passes_iff (ch : UInt8) :
    passes ch = true ↔ ¬(ch = CR ∨ ch = LF) ∧ IS_HEADER_CHAR ch = true := by
  simp [passes, not_or]

theorem drop_passes (bytes : Bytes) :
    bytes.drop (bytes.takeWhile passes).length = bytes.dropWhile passes := by
  have hdrop : (bytes.takeWhile passes ++ bytes.dropWhile passes).drop
      (bytes.takeWhile passes).length = bytes.dropWhile passes := List.drop_left
  rwa [List.takeWhile_append_dropWhile] at hdrop

/-- In one window, `p` steps back at its end as at a line end. -/
theorem valueSkip_some {bytes : Bytes} (hlen : bytes.length ≤ max_header_size)
    (h : ∀ ch rest, bytes.dropWhile passes = ch :: rest → ch = CR ∨ ch = LF) :
    valueSkip bytes = some ((bytes.takeWhile passes).length - 1) := by
  unfold valueSkip
  dsimp only
  rw [List.take_of_length_le hlen, drop_passes]
  cases hdrop : bytes.dropWhile passes with
  | nil => exact if_pos hlen
  | cons ch rest => exact if_pos (h ch rest hdrop)

theorem valueSkip_fails {bytes : Bytes} (hlen : bytes.length ≤ max_header_size)
    (hdrop : bytes.dropWhile passes = ch :: rest) (hch : ¬(ch = CR ∨ ch = LF)) :
    valueSkip bytes = none := by
  unfold valueSkip
  dsimp only
  rw [List.take_of_length_le hlen, drop_passes, hdrop]
  exact if_neg hch

/-- The loop inside `h_general` and the one around it go over the same bytes. -/
theorem valueLoop_general {k : ℕ} {bytes : Bytes} (hk : k ≤ (bytes.takeWhile passes).length)
    (hlen : bytes.length ≤ max_header_size) (p : Parser) :
    valueLoop k bytes .h_general p = (generalStop p (bytes.dropWhile passes)).after
      ((bytes.takeWhile passes).map .advance) := by
  induction bytes generalizing k with
  | nil => cases k <;> rfl
  | cons ch rest ih =>
    have hlen' : rest.length ≤ max_header_size := by
      rw [List.length_cons] at hlen
      omega
    by_cases hpasses : passes ch = true
    · rw [List.takeWhile_cons_of_pos hpasses, List.dropWhile_cons_of_pos hpasses, List.map_cons,
        ← List.singleton_append (x := Slices.Action.advance ch), ← Flow.after_after]
      rw [List.takeWhile_cons_of_pos hpasses, List.length_cons] at hk
      cases k with
      | succ k => rw [valueLoop, ih (by omega) hlen']
      | zero =>
        obtain ⟨hends, hchar⟩ := (passes_iff ch).mp hpasses
        have htail : (ch :: rest).dropWhile passes = rest.dropWhile passes :=
          List.dropWhile_cons_of_pos hpasses
        have hrun : (ch :: rest).takeWhile passes = ch :: rest.takeWhile passes :=
          List.takeWhile_cons_of_pos hpasses
        rw [valueLoop, if_neg hends, hchar, if_neg (by decide), if_pos rfl]
        by_cases hstop : ∃ c more, rest.dropWhile passes = c :: more ∧ ¬(c = CR ∨ c = LF)
        · obtain ⟨c, more, hdrop, hc⟩ := hstop
          rw [valueSkip_fails hlen (htail.trans hdrop) hc, hdrop, generalStop, if_neg hc, hrun,
            Flow.after_after]
          rfl
        · have hends (c : UInt8) (more : Bytes) (hdrop : (ch :: rest).dropWhile passes = c :: more) :
              c = CR ∨ c = LF := by
            by_contra hc
            exact hstop ⟨c, more, htail.symm.trans hdrop, hc⟩
          rw [valueSkip_some hlen hends, hrun, List.length_cons, Nat.add_sub_cancel]
          dsimp only
          rw [ih le_rfl hlen']
    · rw [List.takeWhile_cons_of_neg hpasses, List.dropWhile_cons_of_neg hpasses, List.map_nil,
        Flow.after_nil]
      rw [List.takeWhile_cons_of_neg hpasses] at hk
      cases Nat.le_zero.mp hk
      rw [valueLoop, generalStop]
      split
      · rfl
      · next hends =>
        rw [passes_iff, not_and] at hpasses
        rw [Bool.eq_false_iff.mpr (hpasses hends)]
        rfl

theorem valueLoop_ends (rest : Bytes) (h_state : HeaderState) (h : ch = CR ∨ ch = LF) :
    valueLoop 0 (ch :: rest) h_state p = .goes { p with header_state := h_state } [] := by
  rw [valueLoop, if_pos h]

theorem valueLoop_invalid {h_state : HeaderState} (h : ¬(ch = CR ∨ ch = LF))
    (hchar : IS_HEADER_CHAR ch = false) :
    valueLoop 0 (ch :: rest) h_state p = p.error .HPE_INVALID_HEADER_TOKEN := by
  rw [valueLoop, if_neg h, hchar, if_pos Bool.not_false]

theorem valueLoop_error {h_state : HeaderState} {e : Errno} (hpasses : passes ch = true)
    (he : valueChar h_state p ch = .error (.errno e)) :
    valueLoop 0 (ch :: rest) h_state p = { p with header_state := h_state }.error e := by
  obtain ⟨hends, hchar⟩ := (passes_iff ch).mp hpasses
  have hgeneral : h_state ≠ .h_general := by
    rintro rfl
    cases he
  rw [valueLoop, if_neg hends, hchar, if_neg (by decide), if_neg hgeneral, he]

/-- The loop goes over one character and then over the others. -/
theorem valueLoop_cons {h_state h_state' : HeaderState} {q : Parser} (hpasses : passes ch = true)
    (hq : valueChar h_state p ch = .ok (h_state', q)) (hlen : (ch :: rest).length ≤ max_header_size) :
    valueLoop 0 (ch :: rest) h_state p = (valueLoop 0 rest h_state' q).after [.advance ch] := by
  by_cases hgeneral : h_state = .h_general
  · subst hgeneral
    cases hq
    have hlen' : rest.length ≤ max_header_size := by
      rw [List.length_cons] at hlen
      omega
    rw [valueLoop_general (Nat.zero_le _) hlen, valueLoop_general (Nat.zero_le _) hlen',
      List.takeWhile_cons_of_pos hpasses, List.dropWhile_cons_of_pos hpasses, Flow.after_after]
    rfl
  · obtain ⟨hends, hchar⟩ := (passes_iff ch).mp hpasses
    rw [valueLoop, if_neg hends, hchar, if_neg (by decide), if_neg hgeneral, hq]

/-- `parser->header_state` is of no account either, for the loop has its own. -/
def Parser.aside (p : Parser) (n : ℕ) (header_state : HeaderState) : Parser := { p with
  nread := n
  header_state := header_state }

theorem contentLengthNum_aside (p : Parser) (n : ℕ) (header_state : HeaderState) (ch : UInt8) :
    contentLengthNum (p.aside n header_state) ch =
      (contentLengthNum p ch).map fun r => (r.1, r.2.aside n header_state) := by
  unfold contentLengthNum Parser.aside
  dsimp only
  split_ifs <;> rfl

theorem valueChar_aside (h_state : HeaderState) (p : Parser) (n : ℕ) (header_state : HeaderState)
    (ch : UInt8) : valueChar h_state (p.aside n header_state) ch =
      (valueChar h_state p ch).map fun r => (r.1, r.2.aside n header_state) := by
  unfold valueChar
  cases h_state
  all_goals
    dsimp only
    first
      | rfl
      | exact contentLengthNum_aside p n header_state ch
      | (split_ifs
         all_goals first
           | rfl
           | exact contentLengthNum_aside p n header_state ch)

theorem valueLoop_aside (k : ℕ) (bytes : Bytes) (h_state : HeaderState) (p : Parser) (n : ℕ)
    (header_state : HeaderState) : (valueLoop k bytes h_state (p.aside n header_state)).Agrees
      ((valueLoop k bytes h_state p).withNread n) := by
  induction bytes generalizing k h_state p with
  | nil => cases k <;> exact .refl _
  | cons ch rest ih =>
    cases k with
    | succ k =>
      rw [valueLoop, valueLoop, Flow.withNread_after]
      exact (ih k h_state p).after (.refl _)
    | zero =>
      rw [valueLoop, valueLoop]
      split
      · exact .refl _
      · split
        · exact .fails
        · split
          · split
            · exact .fails
            · rw [Flow.withNread_after]
              exact (ih _ _ p).after (.refl _)
          · rw [valueChar_aside]
            cases valueChar h_state p ch with
            | ok r =>
              change ((valueLoop 0 rest r.1 (r.2.aside n header_state)).after [.advance ch]).Agrees
                (((valueLoop 0 rest r.1 r.2).after [.advance ch]).withNread n)
              rw [Flow.withNread_after]
              exact (ih 0 r.1 r.2).after (.refl _)
            | error fault =>
              cases fault with
              | errno e => exact .fails
              | assertion => exact .aborts

theorem valueStop_header_state (p : Parser) (header_state h_state : HeaderState)
    (taken : List Action) (rest : Bytes) :
    (valueStop { p with header_state := header_state } h_state taken rest).Agrees
      (valueStop p h_state taken rest) := by
  unfold valueStop
  split
  · exact .refl _
  · dsimp only
    split
    · exact .refl _
    · apply Flow.Agrees.after _ (.refl _)
      unfold COUNT_HEADER_SIZE
      dsimp only
      split
      · exact .fails
      · exact .refl _

theorem valueStop_peel {h_state : HeaderState} {taken : List Action} (h : rest = [] → taken ≠ []) :
    valueStop p h_state (.advance ch :: taken) rest =
      (valueStop { p with nread := p.nread + 1 } h_state taken rest).after [.advance ch] := by
  unfold valueStop
  cases rest with
  | nil =>
    obtain ⟨first, others, rfl⟩ := List.exists_cons_of_ne_nil (h rfl)
    change (COUNT_HEADER_SIZE (others.length + 1) _).after (.advance ch :: (first :: others).dropLast) = _
    rw [count_add, Flow.after_after]
    rfl
  | cons c more =>
    dsimp only
    split
    · rw [List.length_cons, count_add, Flow.after_after]
      rfl
    · rw [List.length_cons, count_add, Flow.after_after]
      rfl

theorem valueStop_fails (ch : UInt8) (h_state : HeaderState) {rest : Bytes} {taken : List Action} (hp : p.nread = max_header_size)
    (hlen : taken.length + 1 ≤ max_header_size) (h : rest = [] → taken ≠ []) :
    ∃ q actions, valueStop p h_state (.advance ch :: taken) rest = .fails q actions := by
  have hfails (header_state : HeaderState) (state : State) (v : ℕ) (hv : v ≤ max_header_size)
      (hpos : 0 < v) : ∃ q, COUNT_HEADER_SIZE v { p with
        state := state
        header_state := header_state } = .fails q [] := by
    have hlt : max_header_size < p.nread + v := by omega
    exact count_fails hp.le hv hlt
  unfold valueStop
  cases rest with
  | nil =>
    have hpos := List.length_pos_iff.mpr (h rfl)
    obtain ⟨q, hq⟩ := hfails h_state p.state taken.length (by omega) hpos
    change ∃ q actions, (COUNT_HEADER_SIZE taken.length _).after _ = .fails q actions
    rw [hq]
    exact ⟨_, _, rfl⟩
  | cons c more =>
    dsimp only
    split
    · obtain ⟨q, hq⟩ := hfails h_state .s_header_almost_done (taken.length + 1) hlen (by omega)
      rw [List.length_cons, hq]
      exact ⟨_, _, rfl⟩
    · obtain ⟨q, hq⟩ := hfails p.header_state .s_header_almost_done (taken.length + 1) hlen (by omega)
      rw [List.length_cons, hq]
      exact ⟨_, _, rfl⟩

theorem valueLoop_keeps {k : ℕ} {bytes : Bytes} {h_state : HeaderState} {p q : Parser}
    {actions : List Action} (h : valueLoop k bytes h_state p = .goes q actions) :
    q.nread = p.nread := by
  have hsame := valueLoop_aside k bytes h_state p p.nread p.header_state
  rw [show p.aside p.nread p.header_state = p from rfl, h] at hsame
  generalize hq : Flow.withNread p.nread (.goes q actions) = flow at hsame
  cases hsame with
  | goes h =>
    simp only [Flow.withNread, Flow.goes.injEq] at hq
    have hnread := congrArg Parser.nread hq.1
    exact hnread.symm

/-- The loop ends in the same way for what it does not look at. -/
theorem valueLoop_goes {bytes : Bytes} {h_state : HeaderState} (hh : Valuing h_state) (h : p.Valued)
    {q : Parser} {taken : List Action} (hloop : valueLoop 0 bytes h_state p = .goes q taken) (n : ℕ)
    (header_state : HeaderState) :
    valueLoop 0 bytes h_state (p.aside n header_state) = .goes { q with nread := n } taken := by
  have hsame := valueLoop_aside 0 bytes h_state p n header_state
  have haside : (p.aside n header_state).Valued := ⟨⟨h.errno, h.content_length⟩, h.state⟩
  have htook := valueLoop_took 0 bytes hh h
  have htook' := valueLoop_took 0 bytes hh haside
  rw [hloop] at hsame htook
  cases hflow : valueLoop 0 bytes h_state (p.aside n header_state) with
  | goes q' taken' =>
    rw [hflow] at hsame htook'
    obtain ⟨⟨m, -, rfl⟩, -⟩ := htook
    obtain ⟨⟨m', -, rfl⟩, -⟩ := htook'
    cases hsame with
    | goes h =>
      have hitems := h.1
      rw [Slices.items_advances, Slices.items_advances] at hitems
      rw [hitems]
  | _ =>
    rw [hflow] at hsame
    cases hsame

theorem valueLoop_fails {bytes : Bytes} {h_state : HeaderState} {q : Parser} {taken : List Action}
    (hloop : valueLoop 0 bytes h_state p = .fails q taken) (n : ℕ) (header_state : HeaderState) :
    ∃ q' taken', valueLoop 0 bytes h_state (p.aside n header_state) = .fails q' taken' := by
  have hsame := valueLoop_aside 0 bytes h_state p n header_state
  rw [hloop] at hsame
  cases hflow : valueLoop 0 bytes h_state (p.aside n header_state) with
  | fails q' taken' => exact ⟨q', taken', rfl⟩
  | _ =>
    rw [hflow] at hsame
    cases hsame

theorem round_value (ch : UInt8) (hp : p.state = .s_header_value) (bytes : Bytes) :
    round p ch bytes = (COUNT_HEADER_SIZE 1 p).andThen fun q => headerValue q bytes := by
  rw [round_header (by rw [hp]; rfl)]
  rcases count_cases 1 p with ⟨nread, hcount⟩ | ⟨nread, hcount⟩
  · rw [hcount, Flow.andThen, Flow.andThen, pass]
    simp only [hp]
  · rw [hcount]
    rfl

theorem headerValue_goes {bytes : Bytes} {q : Parser} {taken : List Action}
    (h : valueLoop 0 bytes p.header_state p = .goes q taken) :
    headerValue p bytes = valueStop { q with header_state := p.header_state } q.header_state taken
      (bytes.drop taken.length) := by
  rw [headerValue, h]

theorem headerValue_fails {bytes : Bytes} {q : Parser} {taken : List Action}
    (h : valueLoop 0 bytes p.header_state p = .fails q taken) :
    headerValue p bytes = .fails q taken := by
  rw [headerValue, h]

theorem headerValue_peel {q : Parser} {h_state : HeaderState} {c : UInt8} {more : Bytes}
    (hvalued : q.Valued) (hh : Valuing h_state) (hnread : q.nread ≤ max_header_size)
    (hpasses : passes ch = true) (hq : valueChar p.header_state p ch = .ok (h_state, q))
    (hlen : (ch :: c :: more).length ≤ max_header_size) :
    (headerValue p (ch :: c :: more)).Agrees
      ((round { q with header_state := h_state } c (c :: more)).after [.advance ch]) := by
  have htook := valueLoop_took 0 (c :: more) hh hvalued
  have hround := round_value (p := { q with header_state := h_state }) c hvalued.state
    (c :: more)
  have hcons := valueLoop_cons hpasses hq hlen
  rw [hround]
  cases hloop : valueLoop 0 (c :: more) h_state q with
  | aborts =>
    rw [hloop] at htook
    exact htook.elim
  | exits p' actions =>
    rw [hloop] at htook
    exact htook.elim
  | fails p' actions =>
    rw [hloop] at hcons
    rw [headerValue_fails hcons]
    rcases count_cases 1 { q with header_state := h_state } with ⟨nread, hcount⟩ | ⟨nread, hcount⟩
    · obtain ⟨q', taken', hfails⟩ := valueLoop_fails hloop nread h_state
      rw [hcount, Flow.andThen, headerValue_fails hfails]
      exact .fails
    · rw [hcount]
      exact .fails
  | goes p' taken =>
    have hkeeps := valueLoop_keeps hloop
    rw [hloop] at hcons htook
    obtain ⟨⟨n, hn, htaken⟩, -⟩ := htook
    have hlength : taken.length ≤ (c :: more).length := by
      rw [htaken, List.length_map, List.length_take]
      exact Nat.min_le_right ..
    have hrest : (c :: more).drop taken.length = [] → taken ≠ [] := by
      rintro hnil rfl
      cases hnil
    rw [headerValue_goes hcons]
    change (valueStop _ p'.header_state (.advance ch :: taken) ((c :: more).drop taken.length)).Agrees _
    by_cases hone : q.nread + 1 ≤ max_header_size
    · have hcount := count_eq (p := { q with header_state := h_state }) (v := 1) hone
      rw [hcount, Flow.andThen, Flow.after_nil, valueStop_peel hrest,
        headerValue_goes (valueLoop_goes hh hvalued hloop (q.nread + 1) h_state), ← hkeeps]
      apply Flow.Agrees.after _ (.refl _)
      exact (valueStop_header_state { p' with nread := p'.nread + 1 } _ _ _ _).trans
        (valueStop_header_state { p' with nread := p'.nread + 1 } _ _ _ _).symm
    · obtain ⟨q', hcount⟩ := count_fails (p := { q with header_state := h_state }) (v := 1) hnread
        (by decide) (Nat.not_le.mp hone)
      rw [hcount]
      rw [List.length_cons] at hlen
      obtain ⟨p'', actions, hfails⟩ := valueStop_fails (p := { p' with
        header_state := p.header_state }) ch p'.header_state (show p'.nread = _ by omega) (by omega) hrest
      rw [hfails]
      exact .fails

theorem headerValue_passes {q : Parser} {h_state : HeaderState} (hnread : p.nread ≤ max_header_size)
    (hpasses : passes ch = true) (hq : valueChar p.header_state p ch = .ok (h_state, q)) :
    headerValue p [ch] = .goes { q with header_state := h_state } [] := by
  have hfirst : valueLoop 0 [ch] p.header_state p =
      .goes { q with header_state := h_state } [.advance ch] := by
    rw [valueLoop_cons hpasses hq (Nat.succ_le_of_lt (by decide))]
    rfl
  have hnone := count_none (p := { q with header_state := h_state })
    ((valueLoop_keeps hfirst).trans_le hnread)
  rw [headerValue_goes hfirst]
  change (COUNT_HEADER_SIZE 0 { q with header_state := h_state }).after [] = _
  rw [hnone]
  rfl

theorem still_valueStop {h_state : HeaderState} {c : UInt8} {more : Bytes} :
    (valueStop p h_state [] (c :: more)).Still := by
  unfold valueStop
  dsimp only
  split
  · apply Flow.Still.after _ rfl
    unfold COUNT_HEADER_SIZE
    dsimp only
    split <;> rfl
  · apply Flow.Still.after _ rfl
    apply still_count
    intro q
    apply Flow.Still.after _ rfl
    unfold headerAlmostDone
    split <;> rfl

theorem loop_value (hvalued : p.Valued) (hh : Valuing p.header_state)
    (hlen : (ch :: rest).length ≤ max_header_size) :
    (loop 0 (ch :: rest) p).Agrees ((loop 0 [ch] p).andThen (loop 0 rest)) := by
  have hround (bytes : Bytes) := round_value ch hvalued.state bytes
  rcases count_cases 1 p with ⟨nread, hcount⟩ | ⟨nread, hcount⟩
  · have hcounted : { p with nread := nread }.Valued :=
      ⟨⟨hvalued.errno, hvalued.content_length⟩, hvalued.state⟩
    have hle : nread ≤ max_header_size := (count_goes hcount).2.1
    simp only [hcount, Flow.andThen, Flow.after_nil] at hround
    cases hpasses : passes ch with
    | false =>
      by_cases hends : ch = CR ∨ ch = LF
      · apply loop_peel_still (valueStop { p with nread := nread } p.header_state [] [ch])
        · intro bytes
          rw [hround, headerValue_goes (valueLoop_ends _ _ hends)]
          rfl
        · exact still_valueStop
      · have hchar : IS_HEADER_CHAR ch = false := by
          by_contra hchar
          rw [Bool.not_eq_false] at hchar
          rw [(passes_iff ch).mpr ⟨hends, hchar⟩] at hpasses
          cases hpasses
        apply loop_peel_still ({ p with nread := nread }.error .HPE_INVALID_HEADER_TOKEN)
        · intro bytes
          rw [hround]
          exact headerValue_fails (valueLoop_invalid hends hchar)
        · rfl
    | true =>
      have hvaluing := valueChar_valued hh hcounted ch
      cases hr : valueChar p.header_state { p with nread := nread } ch with
      | error fault =>
        rw [hr, Except.ends_error] at hvaluing
        obtain ⟨e, rfl, he⟩ := hvaluing
        apply loop_peel_still ({ p with nread := nread }.error e)
        · intro bytes
          rw [hround]
          exact headerValue_fails (valueLoop_error hpasses hr)
        · rfl
      | ok r =>
        obtain ⟨h_state, q⟩ := r
        rw [hr, Except.ends_ok] at hvaluing
        have hstops := (hround [ch]).trans (headerValue_passes hle hpasses hr)
        have hone : loop 0 [ch] p = .goes { q with header_state := h_state } [.advance ch] := by
          rw [loop_goes_still hstops rfl]
          rfl
        have hfirst : valueLoop 0 [ch] p.header_state { p with nread := nread } =
            .goes { q with header_state := h_state } [.advance ch] := by
          rw [valueLoop_cons hpasses hr (Nat.succ_le_of_lt (by decide))]
          rfl
        have hqnread : q.nread ≤ max_header_size := by
          have hkeeps := valueLoop_keeps hfirst
          exact hkeeps.trans_le hle
        apply loop_peel_inner hone rfl
        rintro c more rfl
        rw [hround]
        exact headerValue_peel hvaluing.2 hvaluing.1 hqnread hpasses hr hlen
  · apply loop_peel_still (.fails { p with
      nread := nread
      http_errno := .HPE_HEADER_OVERFLOW } [])
    · intro bytes
      rw [hround, hcount]
      rfl
    · rfl

/-! ## The body -/

theorem readBody_one {k : Parser → UInt8 → Flow} (h : p.content_length = 1) (bytes : Bytes) :
    readBody p (ch :: bytes) k = (k { p with content_length := 0 } ch).after [.mark .body] := by
  unfold readBody
  have hmin : min p.content_length (ch :: bytes).length = 1 := by
    rw [h, List.length_cons]
    omega
  rw [hmin, h]
  rfl

theorem readBody_peel {k : Parser → UInt8 → Flow} (h : 1 < p.content_length) (c : UInt8)
    (more : Bytes) : (readBody p (ch :: c :: more) k).Agrees
      ((readBody { p with content_length := p.content_length - 1 } (c :: more) k).after
        [.mark .body, .advance ch]) := by
  unfold readBody
  dsimp only
  have hmin : min p.content_length (ch :: c :: more).length =
      min (p.content_length - 1) (c :: more).length + 1 := by
    simp only [List.length_cons]
    omega
  obtain ⟨n, hn⟩ : ∃ n, min (p.content_length - 1) (c :: more).length = n + 1 := by
    refine ⟨min (p.content_length - 1) (c :: more).length - 1, ?_⟩
    rw [List.length_cons]
    omega
  rw [hmin, hn, Nat.sub_add_eq, Nat.sub_right_comm, Flow.after_after]
  exact (Flow.Agrees.refl _).after (Alike.mark Data.body ch _)

/-- In a state that reads a body, whatever it does when the last byte is read. -/
theorem loop_body {k : Parser → UInt8 → Flow}
    (hround : ∀ content_length c bytes, 0 < content_length → content_length < ULLONG_MAX →
      round { p with content_length := content_length } c bytes =
        readBody { p with content_length := content_length } bytes k)
    (hstill : ∀ q c, (k q c).Still) (hgoes : ∀ q c, 0 < q.content_length → k q c = .goes q [])
    (hpos : 0 < p.content_length) (hlt : p.content_length < ULLONG_MAX) :
    (loop 0 (ch :: rest) p).Agrees ((loop 0 [ch] p).andThen (loop 0 rest)) := by
  have hfirst (bytes : Bytes) := hround p.content_length ch bytes hpos hlt
  by_cases hone : p.content_length = 1
  · apply loop_peel_still _ fun bytes => (hfirst _).trans (readBody_one hone bytes)
    exact (hstill _ _).after rfl
  · have hmore : 1 < p.content_length := by omega
    have hmin : min p.content_length [ch].length = 1 := by
      rw [List.length_singleton]
      omega
    have hstops : round p ch [ch] =
        .goes { p with content_length := p.content_length - 1 } [.mark .body] := by
      rw [hfirst, readBody]
      dsimp only
      rw [hmin, hgoes _ _ (Nat.sub_pos_of_lt hmore)]
      rfl
    have hloop : loop 0 [ch] p = .goes { p with content_length := p.content_length - 1 }
        [.mark .body, .advance ch] := by
      rw [loop_goes_still hstops rfl]
      rfl
    apply loop_peel_inner hloop rfl
    rintro c more rfl
    rw [hround _ c _ (Nat.sub_pos_of_lt hmore) (by omega)]
    rw [hfirst]
    exact readBody_peel hmore c more

theorem loop_bodyIdentity (hp : p.state = .s_body_identity) (hpos : 0 < p.content_length)
    (hlt : p.content_length < ULLONG_MAX) :
    (loop 0 (ch :: rest) p).Agrees ((loop 0 [ch] p).andThen (loop 0 rest)) := by
  apply loop_body _ _ _ hpos hlt
  · exact fun p ch =>
      if p.content_length = 0 then
        (messageDone { p with state := .s_message_done }).after [.sliceThrough .body ch]
      else .goes p []
  · intro content_length c bytes hpos' hlt'
    have hassert : (content_length != 0 && content_length != ULLONG_MAX) = true := by
      rw [Bool.and_eq_true, bne_iff_ne, bne_iff_ne]
      omega
    unfold round pass
    simp only [hp]
    unfold bodyIdentity assert
    rw [if_neg (by decide), if_pos hassert]
  · intro q c
    split
    · exact still_messageDone.after rfl
    · rfl
  · intro q c hq
    exact if_neg hq.ne'

theorem loop_chunkData (hp : p.state = .s_chunk_data) (hchunked : p.flags.F_CHUNKED = true)
    (hpos : 0 < p.content_length) (hlt : p.content_length < ULLONG_MAX) :
    (loop 0 (ch :: rest) p).Agrees ((loop 0 [ch] p).andThen (loop 0 rest)) := by
  apply loop_body _ _ _ hpos hlt
  · exact fun p _ =>
      if p.content_length = 0 then p.to .s_chunk_data_almost_done else .goes p []
  · intro content_length c bytes hpos' hlt'
    have hassert : (content_length != 0 && content_length != ULLONG_MAX) = true := by
      rw [Bool.and_eq_true, bne_iff_ne, bne_iff_ne]
      omega
    unfold round pass
    simp only [hp]
    unfold chunkData assert
    rw [if_neg (by decide), if_pos hchunked, if_pos hassert]
  · intro q c
    split <;> rfl
  · intro q c hq
    exact if_neg hq.ne'

/-! ## Any byte -/

/-- The other states look at one byte. -/
theorem round_still (ch : UInt8) (hfield : p.state ≠ .s_header_field) (hvalue : p.state ≠ .s_header_value)
    (hbody : p.state ≠ .s_body_identity) (hdata : p.state ≠ .s_chunk_data) :
    ∃ flow, (∀ bytes, round p ch bytes = flow) ∧ flow.Still := by
  have hpass (q : Parser) (hq : q.state = p.state) (bytes : Bytes) : pass q ch bytes = pass q ch [] := by
    unfold pass
    cases hs : p.state <;> simp_all
  unfold round
  cases PARSING_HEADER p.state with
  | false =>
    exact ⟨pass p ch [], fun bytes => hpass p rfl bytes, still_pass hfield hvalue hbody hdata⟩
  | true =>
    rcases count_cases 1 p with ⟨nread, hcount⟩ | ⟨nread, hcount⟩
    · refine ⟨pass { p with nread := nread } ch [], fun bytes => ?_, still_pass hfield hvalue hbody hdata⟩
      rw [if_pos rfl, hcount, Flow.andThen, Flow.after_nil]
      exact hpass { p with nread := nread } rfl bytes
    · refine ⟨{ p with nread := nread }.error .HPE_HEADER_OVERFLOW, fun bytes => ?_, ?_⟩
      · rw [if_pos rfl, hcount]
        rfl
      · exact still_error _

/-- A read may end behind its first byte. -/
theorem loop_peel (h : p.Coherent) (hlen : (ch :: rest).length ≤ max_header_size) :
    (loop 0 (ch :: rest) p).Agrees ((loop 0 [ch] p).andThen (loop 0 rest)) := by
  have hsettled := h.settled
  unfold Parser.Settled at hsettled
  by_cases hfield : p.state = .s_header_field
  · rw [hfield] at hsettled
    exact loop_field ⟨h.toSound, hfield, hsettled⟩ hlen
  by_cases hvalue : p.state = .s_header_value
  · rw [hvalue] at hsettled
    exact loop_value ⟨h.toSound, hvalue⟩ hsettled hlen
  by_cases hbody : p.state = .s_body_identity
  · rw [hbody] at hsettled
    exact loop_bodyIdentity hbody hsettled.1 hsettled.2
  by_cases hdata : p.state = .s_chunk_data
  · rw [hdata] at hsettled
    exact loop_chunkData hdata hsettled.1 hsettled.2.1 hsettled.2.2
  obtain ⟨flow, hround, hstill⟩ := round_still ch hfield hvalue hbody hdata
  exact loop_peel_still flow (fun bytes => hround _) hstill

end
end Http
end WsEngine
