import WsEngine.Http.Bytewise

/-! # How a stream is cut into reads

Two ways to cut a stream into reads lead to the same parser, the same count and the same reports, but
for the slices that a part of the request comes in (`reads_alike`): both do what one byte at a
time does. Where the parser finds an error, it finds one either way. -/
set_option autoImplicit false

namespace WsEngine
namespace Http
open Slices (advanced signs items track Alike Same)

/-- The reads of a stream, up to one that the parser does not take as a whole. -/
def executeAll : List Bytes → Parser → Option Executed
  | [], p => some ⟨[], 0, p, .len⟩
  | data :: datas, p =>
    (http_parser_execute p data).bind fun e =>
      if e.returned = .len then
        (executeAll datas e.parser).map fun e' => { e' with
          calls := e.calls ++ e'.calls
          nparsed := e.nparsed + e'.nparsed }
      else some e

theorem executeAll_cons {read : Bytes} {reads : List Bytes} {p : Parser} {e : Executed}
    (he : executeAll (read :: reads) p = some e) (hlen : e.returned = .len) :
    ∃ first others, http_parser_execute p read = some first ∧ first.returned = .len ∧
      executeAll reads first.parser = some others ∧ others.returned = .len ∧
      e.calls = first.calls ++ others.calls ∧ e.parser = others.parser ∧
      e.nparsed = first.nparsed + others.nparsed := by
  obtain ⟨first, hfirst, hrest⟩ := Option.bind_eq_some_iff.mp he
  by_cases hreturned : first.returned = .len
  · rw [if_pos hreturned] at hrest
    obtain ⟨others, hothers, rfl⟩ := Option.map_eq_some_iff.mp hrest
    exact ⟨first, others, hfirst, hreturned, hothers, hlen, rfl, rfl, rfl⟩
  · rw [if_neg hreturned] at hrest
    cases hrest
    exact absurd hlen hreturned

theorem executeAll_whole {reads : List Bytes} {p : Parser} (h : p.Lives) {e : Executed}
    (he : executeAll reads p = some e) (hlen : e.returned = .len) :
    e.nparsed = reads.flatten.length := by
  induction reads generalizing p e with
  | nil =>
    cases he
    rfl
  | cons read reads ih =>
    obtain ⟨first, others, hfirst, hwhole, hothers, hlen', -, -, hnparsed⟩ := executeAll_cons he hlen
    obtain ⟨e', he', hreturns, hlives⟩ := http_parser_execute_returns h read
    cases hfirst.symm.trans he'
    rw [hnparsed, hreturns.whole hwhole, ih hlives hothers hlen', List.flatten_cons,
      List.length_append]

/-- The last read, behind reads that were taken. -/
theorem executeAll_concat {reads : List Bytes} (last : Bytes) {p : Parser} {e : Executed}
    (he : executeAll reads p = some e) (hlen : e.returned = .len) :
    executeAll (reads ++ [last]) p = (http_parser_execute e.parser last).map fun e' => { e' with
      calls := e.calls ++ e'.calls
      nparsed := e.nparsed + e'.nparsed } := by
  induction reads generalizing p e with
  | nil =>
    cases he
    rw [List.nil_append, executeAll]
    cases http_parser_execute p last with
    | none => rfl
    | some e' =>
      simp only [Option.bind_some, Option.map_some, executeAll, List.append_nil, Nat.add_zero,
        List.nil_append, Nat.zero_add]
      split
      · next hreturned => rw [← hreturned]
      · rfl
  | cons read reads ih =>
    obtain ⟨first, hfirst, hrest⟩ := Option.bind_eq_some_iff.mp he
    by_cases hreturned : first.returned = .len
    · rw [if_pos hreturned] at hrest
      obtain ⟨others, hothers, rfl⟩ := Option.map_eq_some_iff.mp hrest
      rw [List.cons_append, executeAll, hfirst, Option.bind_some, if_pos hreturned, ih hothers hlen,
        Option.map_map]
      refine congrArg (fun f => Option.map f _) (funext fun e' => ?_)
      simp only [Function.comp_apply, List.append_assoc, Nat.add_assoc]
    · rw [if_neg hreturned] at hrest
      cases hrest
      exact absurd hlen hreturned

/-- The same result, but for the slices; of a stream with an error, that it has one. -/
def Executed.Alike (e e' : Executed) : Prop :=
  e.returned = e'.returned ∧ (e.returned ≠ .error →
    e.nparsed = e'.nparsed ∧ e.parser = e'.parser ∧ Same e.calls e'.calls)

/-! ## One byte at a time -/

def bytewise : Bytes → Parser → Flow
  | [], p => .goes p []
  | ch :: rest, p => (loop 0 [ch] p).andThen (bytewise rest)

theorem bytewise_append (bytes more : Bytes) (p : Parser) :
    bytewise (bytes ++ more) p = (bytewise bytes p).andThen (bytewise more) := by
  induction bytes generalizing p with
  | nil => exact (Flow.after_nil _).symm
  | cons ch rest ih =>
    rw [List.cons_append, bytewise, bytewise, Flow.andThen_assoc]
    exact congrArg (Flow.andThen _) (funext ih)

theorem Flow.Runs.andThen {z : Zone} {flow : Flow} {k : Parser → Flow} (h : flow.Runs z)
    (hk : ∀ q, q.Coherent → (k q).Runs (zone q.state)) : (flow.andThen k).Runs z := by
  cases flow with
  | goes q actions => exact (hk q h.1).after h.2
  | _ => exact h

theorem bytewise_runs (bytes : Bytes) {p : Parser} (h : p.Coherent) :
    (bytewise bytes p).Runs (zone p.state) := by
  induction bytes generalizing p with
  | nil => exact ⟨h, .nil _⟩
  | cons ch rest ih => exact (loop_runs 0 [ch] h).andThen fun q hq => ih hq

theorem loop_bytewise {bytes : Bytes} {p : Parser} (h : p.Coherent)
    (hlen : bytes.length ≤ max_header_size) : (loop 0 bytes p).Agrees (bytewise bytes p) := by
  induction bytes generalizing p with
  | nil => exact .refl _
  | cons ch rest ih =>
    apply (loop_peel h hlen).trans
    apply (Flow.Agrees.refl _).andThen
    intro q actions hq
    have hruns := loop_runs 0 [ch] h
    rw [hq] at hruns
    rw [List.length_cons] at hlen
    exact ih hruns.1 (by omega)

/-! ## Bodies begin with their mark -/

/-- The mark of the body is set, or read, before anything else is done. -/
def Flow.Resumes : Flow → Prop
  | .goes _ actions | .exits _ actions => Slices.Pending.Resumes .body actions
  | .fails _ _ | .aborts => True

theorem resumes_after (flow : Flow) (actions : List Action) :
    (flow.after (.mark .body :: actions)).Resumes := by
  cases flow with
  | goes q more => exact rfl
  | exits q more => exact rfl
  | _ => trivial

theorem resumes_assert {cond : Bool} {k : Flow} (h : k.Resumes) : (assert cond k).Resumes := by
  cases cond with
  | false => trivial
  | true => exact h

theorem resumes_strict {p : Parser} {cond : Bool} {k : Flow} (h : k.Resumes) :
    (STRICT_CHECK p cond k).Resumes := by
  cases cond with
  | false => exact h
  | true => trivial

theorem round_resumes {p : Parser} (ch : UInt8) (rest : Bytes) (h : p.Coherent)
    (hz : zone p.state = .body) : (round p ch (ch :: rest)).Resumes := by
  have hsettled := h.settled
  unfold Parser.Settled at hsettled
  unfold round pass
  cases hp : p.state <;> simp only [hp, zone, reduceCtorEq] at hz hsettled ⊢
  case s_chunk_data =>
    apply resumes_assert
    apply resumes_assert
    exact resumes_after _ _
  case s_chunk_data_almost_done =>
    apply resumes_assert
    apply resumes_assert
    apply resumes_strict
    exact rfl
  case s_body_identity =>
    apply resumes_assert
    exact resumes_after _ _

theorem resumes_more {actions : List Action}
    (h : Slices.Pending.Resumes .body actions) (flow : Flow) : (flow.after actions).Resumes := by
  cases flow with
  | goes q more => exact h.append more
  | exits q more => exact h.append more
  | _ => trivial

theorem loop_resumes {p : Parser} (ch : UInt8) (rest : Bytes) (h : p.Coherent)
    (hz : zone p.state = .body) : (loop 0 (ch :: rest) p).Resumes := by
  have hround := round_resumes ch rest h hz
  rw [loop]
  cases hflow : round p ch (ch :: rest) with
  | goes q actions =>
    rw [hflow] at hround
    exact resumes_more (hround.append _) _
  | exits q actions =>
    rw [hflow] at hround
    exact hround.append _
  | _ => trivial

theorem bytewise_resumes {p : Parser} {ch : UInt8} {rest : Bytes} (h : p.Coherent)
    (hz : zone p.state = .body) : (bytewise (ch :: rest) p).Resumes := by
  have hloop := loop_resumes ch [] h hz
  rw [bytewise]
  cases hflow : loop 0 [ch] p with
  | goes q actions =>
    rw [hflow] at hloop
    exact resumes_more hloop _
  | exits q actions =>
    rw [hflow] at hloop
    exact hloop
  | _ => trivial

/-! ## Reads -/

/-- What the calls for the reads come to. -/
def Flow.Matches (s : State) (e : Executed) : Flow → Prop
  | .goes q actions => e.returned = .len ∧ e.parser = q ∧ e.nparsed = advanced actions ∧
    Same e.calls ((entry s).closed actions)
  | .exits q actions => e.returned = .upgraded ∧ e.parser = q ∧ e.nparsed = advanced actions ∧
    Same e.calls ((entry s).closed actions)
  | .fails _ _ => e.returned = .error
  | .aborts => False

theorem Alike.advanced {actions more : List Action} (h : Alike actions more) :
    advanced actions = advanced more := congrArg List.length h.1

theorem Alike.closed {actions more : List Action} (h : Alike actions more)
    (pending : Slices.Pending Data UInt8) : pending.closed actions = pending.closed more := by
  rw [Slices.Pending.closed, Slices.Pending.closed, h.2]

/-- After an upgrade no part is open. -/
theorem closed_idle {s : State} {actions : List Action} {z : Zone}
    (h : Path (zone s) (signs actions) z) (hz : z = .idle) :
    (entry s).closed actions = ((entry s).run actions).2 := by
  subst hz
  obtain ⟨-, hopen⟩ := run_entry h
  have hpart : ((entry s).run actions).1.part = none := by
    rcases hopen with hpart | ⟨hz, -⟩
    · exact hpart
    · cases hz
  rw [Slices.Pending.closed, Option.map_eq_none_iff.mp hpart]
  exact List.append_nil _

/-- What one call comes to. -/
def Flow.Yields (s : State) (e : Executed) : Flow → Prop
  | .goes q actions => e = ⟨(entry s).closed actions, advanced actions, q, .len⟩
  | .exits q actions => e = ⟨(entry s).closed actions, advanced actions, q, .upgraded⟩
  | .fails _ _ => e.returned = .error
  | .aborts => False

theorem executed_yields {p : Parser} {data : Bytes} (h : p.Coherent) (hdata : data ≠ [])
    {flow : Flow} (hflow : (loop 0 data p).Agrees flow) :
    ∃ e, http_parser_execute p data = some e ∧ flow.Yields p.state e := by
  have hruns := loop_runs 0 data h
  have hcovers := loop_covers data h
  rw [http_parser_execute_ok h hdata]
  cases hloop : loop 0 data p with
  | goes q actions =>
    rw [hloop] at hflow hcovers
    cases hflow with
    | @goes _ _ more halike =>
      have hlength : data.length = advanced more := by
        rw [← Alike.advanced halike, advanced, hcovers]
      refine ⟨_, rfl, ?_⟩
      rw [Flow.Yields, hlength, Alike.closed halike]
  | exits q actions =>
    rw [hloop] at hflow hruns
    cases hflow with
    | exits halike =>
      refine ⟨_, rfl, ?_⟩
      rw [Flow.Yields, Alike.advanced halike, ← Alike.closed halike, closed_idle hruns.2.1 hruns.2.2.1]
  | fails q actions =>
    rw [hloop] at hflow
    cases hflow
    exact ⟨_, rfl, rfl⟩
  | aborts =>
    rw [hloop] at hruns
    exact hruns.elim

theorem Flow.Yields.matches {s : State} {e : Executed} {flow : Flow} (h : flow.Yields s e) :
    flow.Matches s e := by
  cases flow with
  | goes q actions =>
    rw [Yields] at h
    rw [h]
    exact ⟨rfl, rfl, rfl, .refl _⟩
  | exits q actions =>
    rw [Yields] at h
    rw [h]
    exact ⟨rfl, rfl, rfl, .refl _⟩
  | fails q actions => exact h
  | aborts => exact h

/-- A part that is open between two reads is reported by the first of them, and goes on with the mark
that the second sets. -/
theorem closed_resumes {p q : Parser} {actions more : List Action} {z : Zone}
    (hpath : Path (zone p.state) (signs actions) (zone q.state))
    (hmore : Path (zone q.state) (signs more) z)
    (hresumes : zone q.state = .body → Slices.Pending.Resumes .body more) :
    Same ((entry p.state).closed actions ++ (entry q.state).closed more)
      ((entry p.state).closed (actions ++ more)) := by
  obtain ⟨-, hopen⟩ := run_entry hpath
  obtain ⟨last, htrack, -⟩ := hmore.tracks hopen
  rw [Slices.track_signs] at htrack
  have hagain : entry q.state = ((entry p.state).run actions).1.map (fun open_ => (open_.1, [])) ∨
      entry q.state = none ∧ ∀ what, ((entry p.state).run actions).1.part = some what →
        Slices.Pending.Resumes what more := by
    rcases hopen with hpart | ⟨hz, hpart⟩
    · left
      unfold entry
      rw [← hpart, Slices.Pending.part, Option.map_map]
      rfl
    · right
      constructor
      · unfold entry
        rw [hz]
        rfl
      · intro what hwhat
        rw [hpart] at hwhat
        cases hwhat
        exact hresumes hz
  have hsame := Slices.Pending.same_resume htrack hagain
  have happend : (entry p.state).closed (actions ++ more) =
      ((entry p.state).run actions).2 ++ ((entry p.state).run actions).1.closed more := by
    rw [Slices.Pending.closed, Slices.Pending.run_append, List.append_assoc]
    rfl
  rw [happend, Slices.Pending.closed, List.append_assoc]
  exact ((Same.refl _).append hsame).symm

theorem Executed.matches_after {p q : Parser} {actions : List Action} {e : Executed} {flow : Flow}
    (hpath : Path (zone p.state) (signs actions) (zone q.state)) (hflow : flow.Runs (zone q.state))
    (hresumes : zone q.state = .body → flow.Resumes) (h : flow.Matches q.state e)
    {calls : List Call} (hcalls : Same calls ((entry p.state).closed actions)) {nparsed : ℕ}
    (hnparsed : nparsed = advanced actions) :
    (flow.after actions).Matches p.state { e with
      calls := calls ++ e.calls
      nparsed := nparsed + e.nparsed } := by
  have hadvanced (more : List Action) : advanced actions + advanced more = advanced (actions ++ more) := by
    rw [advanced, advanced, advanced, Slices.items_append, List.length_append]
  cases flow with
  | goes q' more =>
    obtain ⟨hreturned, hparser, hn, hsame⟩ := h
    refine ⟨hreturned, hparser, ?_, ?_⟩
    · rw [hnparsed, hn, hadvanced]
    · exact (hcalls.append hsame).trans (closed_resumes hpath hflow.2 hresumes)
  | exits q' more =>
    obtain ⟨hreturned, hparser, hn, hsame⟩ := h
    refine ⟨hreturned, hparser, ?_, ?_⟩
    · rw [hnparsed, hn, hadvanced]
    · exact (hcalls.append hsame).trans (closed_resumes hpath hflow.2.1 hresumes)
  | fails q' more => exact h
  | aborts => exact h

/-- The reads do what one byte at a time does. -/
theorem executeAll_matches {reads : List Bytes} (hne : reads ≠ [])
    (hreads : ∀ read ∈ reads, read ≠ [] ∧ read.length ≤ max_header_size) {p : Parser}
    (h : p.Coherent) :
    ∃ e, executeAll reads p = some e ∧ (bytewise reads.flatten p).Matches p.state e := by
  induction reads generalizing p with
  | nil => exact absurd rfl hne
  | cons read reads ih =>
    obtain ⟨hread, hreads⟩ := List.forall_mem_cons.mp hreads
    have hagrees := loop_bytewise h hread.2
    obtain ⟨e, he, hyields⟩ := executed_yields h hread.1 hagrees
    have hmatches := hyields.matches
    have hruns := bytewise_runs read h
    rw [executeAll, he, Option.bind_some, List.flatten_cons, bytewise_append]
    cases hflow : bytewise read p with
    | goes q actions =>
      rw [hflow] at hmatches hruns
      obtain ⟨hreturned, rfl, hnparsed, hcalls⟩ := hmatches
      rw [if_pos hreturned]
      cases reads with
      | nil =>
        refine ⟨_, rfl, rfl, rfl, ?_, ?_⟩
        · rw [List.append_nil]
          exact hnparsed
        · change Same (e.calls ++ []) _
          rw [List.append_nil, List.append_nil]
          exact hcalls
      | cons next reads =>
        obtain ⟨e', he', hmatches'⟩ := ih nofun hreads hruns.1
        refine ⟨_, by rw [he']; rfl, ?_⟩
        apply Executed.matches_after hruns.2 (bytewise_runs _ hruns.1) _ hmatches' hcalls hnparsed
        intro hz
        obtain ⟨ch, rest, hcons⟩ := List.exists_cons_of_ne_nil (hreads next List.mem_cons_self).1
        rw [List.flatten_cons, hcons]
        exact bytewise_resumes hruns.1 hz
    | exits q actions =>
      rw [hflow] at hmatches
      exact ⟨e, if_neg (by rw [hmatches.1]; decide), hmatches⟩
    | fails q actions =>
      rw [hflow] at hmatches
      have hreturned : e.returned = .error := hmatches
      exact ⟨e, if_neg (by rw [hreturned]; decide), hreturned⟩
    | aborts =>
      rw [hflow] at hruns
      exact hruns.elim

theorem Flow.Matches.alike {s : State} {flow : Flow} {e e' : Executed} (h : flow.Matches s e)
    (h' : flow.Matches s e') : e.Alike e' := by
  cases flow with
  | goes q actions =>
    obtain ⟨hreturned, hparser, hnparsed, hcalls⟩ := h
    obtain ⟨hreturned', hparser', hnparsed', hcalls'⟩ := h'
    exact ⟨hreturned.trans hreturned'.symm, fun _ =>
      ⟨hnparsed.trans hnparsed'.symm, hparser.trans hparser'.symm, hcalls.trans hcalls'.symm⟩⟩
  | exits q actions =>
    obtain ⟨hreturned, hparser, hnparsed, hcalls⟩ := h
    obtain ⟨hreturned', hparser', hnparsed', hcalls'⟩ := h'
    exact ⟨hreturned.trans hreturned'.symm, fun _ =>
      ⟨hnparsed.trans hnparsed'.symm, hparser.trans hparser'.symm, hcalls.trans hcalls'.symm⟩⟩
  | fails q actions =>
    have hreturned : e.returned = .error := h
    have hreturned' : e'.returned = .error := h'
    exact ⟨hreturned.trans hreturned'.symm, fun hne => absurd hreturned hne⟩
  | aborts => exact h.elim

theorem flatten_eq_nil {reads : List Bytes} (h : ∀ read ∈ reads, read ≠ [])
    (hflatten : reads.flatten = []) : reads = [] := by
  cases reads with
  | nil => rfl
  | cons read reads =>
    rw [List.flatten_cons, List.append_eq_nil_iff] at hflatten
    exact absurd hflatten.1 (h read List.mem_cons_self)

theorem executeAll_dead {p : Parser} (h : p.http_errno ≠ .HPE_OK) {reads : List Bytes}
    (hne : reads ≠ []) : executeAll reads p = some ⟨[], 0, p, .error⟩ := by
  obtain ⟨read, reads, rfl⟩ := List.exists_cons_of_ne_nil hne
  rw [executeAll, http_parser_execute, if_pos h]
  rfl

/-- However a stream is cut into reads, whatever was read before: the parser takes as much of it, ends
up the same and reports the same, or finds an error. -/
theorem reads_alike {datas : List Bytes} {p : Parser} (hp : calls.run http_parser_init datas = .ok p)
    {reads reads' : List Bytes} (hreads : ∀ read ∈ reads, read ≠ [] ∧ read.length ≤ max_header_size)
    (hreads' : ∀ read ∈ reads', read ≠ [] ∧ read.length ≤ max_header_size)
    (hflatten : reads.flatten = reads'.flatten) :
    ∃ e e', executeAll reads p = some e ∧ executeAll reads' p = some e' ∧ e.Alike e' := by
  have hlives := run_lives datas
  rw [hp, Except.ends_ok] at hlives
  by_cases hne : reads = []
  · subst hne
    cases flatten_eq_nil (fun read hread => (hreads' read hread).1) hflatten.symm
    exact ⟨_, _, rfl, rfl, rfl, fun _ => ⟨rfl, rfl, .refl _⟩⟩
  · have hne' : reads' ≠ [] := by
      rintro rfl
      exact hne (flatten_eq_nil (fun read hread => (hreads read hread).1) hflatten)
    by_cases herrno : p.http_errno = .HPE_OK
    · obtain ⟨e, he, hmatches⟩ := executeAll_matches hne hreads (hlives herrno)
      obtain ⟨e', he', hmatches'⟩ := executeAll_matches hne' hreads' (hlives herrno)
      rw [← hflatten] at hmatches'
      exact ⟨e, e', he, he', hmatches.alike hmatches'⟩
    · refine ⟨_, _, executeAll_dead herrno hne, executeAll_dead herrno hne', rfl, fun _ => ?_⟩
      exact ⟨rfl, rfl, .refl _⟩

/-- A chunked message in one read and in three, which cut a header name and a chunk. -/
theorem reads_alike_chunked :
    let stream := ascii "POST /a HTTP/1.1\r\nTransfer-Encoding: chunked\r\n\r\n3\r\nabc\r\n0\r\n\r\n"
    let reads := [stream.take 22, (stream.take 53).drop 22, stream.drop 53]
    ∃ e e', executeAll [stream] http_parser_init = some e ∧
      executeAll reads http_parser_init = some e' ∧ e.Alike e' := by
  intro stream reads
  have hstream : ∀ read ∈ [stream], read ≠ [] ∧ read.length ≤ max_header_size := by decide +kernel
  have hreads : ∀ read ∈ reads, read ≠ [] ∧ read.length ≤ max_header_size := by decide +kernel
  have hflatten : [stream].flatten = reads.flatten := by decide +kernel
  exact reads_alike (show calls.run http_parser_init [] = .ok http_parser_init from rfl) hstream hreads
    hflatten

end Http
end WsEngine
