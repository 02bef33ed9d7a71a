import WsEngine.Ws.Connection

/-! # The handshake headers

`http_parser` hands out every header name and every header value in fragments: it calls
`on_header_field` one or more times, then `on_header_value` one or more times. The handlers keep the
last fragment of the name only, and forget it with the first fragment of the value, so the map they
build is the right one only when the fragments happen to fall right (`assembles_iff`). The verdict
of `onHeaderComplete` reads the map by its names. -/
set_option autoImplicit false

namespace WsEngine

/-- `headers_.insert`, which keeps the value that is there. -/
def insertHeader (headers : List (Bytes × Bytes)) (name value : Bytes) : List (Bytes × Bytes) :=
  if (headers.lookup name).isSome then headers else headers ++ [(name, value)]

theorem lookup_insertHeader (headers : List (Bytes × Bytes)) (name value k : Bytes) :
    (insertHeader headers name value).lookup k =
      (headers.lookup k).or ([(name, value)].lookup k) := by
  unfold insertHeader
  by_cases h : (headers.lookup name).isSome = true
  · rw [if_pos h]
    by_cases hk : k = name
    · subst hk
      rw [Option.or_of_isSome h]
    · have hnone : [(name, value)].lookup k = none := by
        rw [List.lookup_cons, beq_eq_false_iff_ne.mpr hk, List.lookup_nil]
      rw [hnone, Option.or_none]
  · rw [if_neg h, List.lookup_append]

inductive HeaderCallback
  | field (bytes : Bytes)
  | value (bytes : Bytes)

/-- A header as `http_parser` reports it. -/
structure FragmentedHeader where
  nameParts : List Bytes
  valueParts : List Bytes
  nameParts_ne : nameParts ≠ []
  valueParts_ne : valueParts ≠ []
  name_ne : nameParts.flatten ≠ []

namespace FragmentedHeader

def name (h : FragmentedHeader) : Bytes := h.nameParts.flatten
def value (h : FragmentedHeader) : Bytes := h.valueParts.flatten

def callbacks (h : FragmentedHeader) : List HeaderCallback :=
  h.nameParts.map .field ++ h.valueParts.map .value

def lastPart (h : FragmentedHeader) : Bytes := h.nameParts.getLast h.nameParts_ne

/-- The handlers take the header without a failed assertion. -/
def Accepted (h : FragmentedHeader) : Prop := h.valueParts.length = 1 ∧ h.lastPart ≠ []

instance (h : FragmentedHeader) : Decidable h.Accepted := inferInstanceAs (Decidable (_ ∧ _))

end FragmentedHeader

/-- What the parser knows of a request apart from its headers. -/
structure RequestLine where
  method : ℕ
  http_major : ℕ
  http_minor : ℕ

def HTTP_GET : ℕ := 1

def ascii (text : String) : Bytes := text.toList.map fun c => UInt8.ofNat c.toNat

/-- `boost::to_lower_copy`. -/
def toLower (bytes : Bytes) : Bytes :=
  bytes.map fun byte => if 65 ≤ byte.toNat ∧ byte.toNat ≤ 90 then byte + 32 else byte

/-- The checks of `onHeaderComplete`, in order: is the request answered with 101 rather than 400? -/
def verdict (request : RequestLine) (headers : List (Bytes × Bytes)) : Bool :=
  if request.method ≠ HTTP_GET then false
  else if request.http_major ≤ 1 ∧ request.http_minor < 1 then false
  else if headers.lookup (ascii "Host") = none ∨ headers.lookup (ascii "Host") = some [] then false
  else
    match headers.lookup (ascii "Upgrade") with
    | none => false
    | some upgrade =>
      if toLower upgrade ≠ ascii "websocket" then false
      else if headers.lookup (ascii "Connection") ≠ some (ascii "Upgrade") then false
      else if headers.lookup (ascii "Sec-WebSocket-Version") ≠ some (ascii "13") then false
      else
        match headers.lookup (ascii "Sec-WebSocket-Key") with
        | none => false
        | some key => key.length = 24

theorem verdict_congr {headers headers' : List (Bytes × Bytes)} (request : RequestLine)
    (h : ∀ name, headers.lookup name = headers'.lookup name) :
    verdict request headers = verdict request headers' := by
  unfold verdict
  simp only [h]

namespace WebSocketConnection

def setLastHeaderField (ws : WebSocketConnection) (field : Bytes) : WebSocketConnection :=
  { ws with lastHeaderField_ := field }

def setHeaderValue (ws : WebSocketConnection) (value : Bytes) :
    Except WebSocketConnection WebSocketConnection :=
  if ws.lastHeaderField_ = [] then .error ws
  else .ok { ws with
    headers_ := insertHeader ws.headers_ ws.lastHeaderField_ value
    lastHeaderField_ := [] }

/-- `on_header_field` and `on_header_value`. -/
def onHeader (ws : WebSocketConnection) :
    HeaderCallback → Except WebSocketConnection WebSocketConnection
  | .field bytes => .ok (ws.setLastHeaderField bytes)
  | .value bytes => ws.setHeaderValue bytes

def onHeaders (ws : WebSocketConnection) :
    List HeaderCallback → Except WebSocketConnection WebSocketConnection
  | [] => .ok ws
  | c :: cs => do
    let ws ← ws.onHeader c
    ws.onHeaders cs

/-- No assertion fails, and the map is the one of the whole headers, with the same verdict. -/
def Assembles (ws : WebSocketConnection) (hs : List FragmentedHeader) : Prop :=
  ∃ w, ws.onHeaders (hs.flatMap FragmentedHeader.callbacks) = .ok w ∧
    (∀ name, w.headers_.lookup name = (hs.map fun h => (h.name, h.value)).lookup name) ∧
    ∀ request, verdict request w.headers_ = verdict request (hs.map fun h => (h.name, h.value))

/-! ## One header -/

theorem onHeaders_append (ws : WebSocketConnection) (cs cs' : List HeaderCallback) :
    ws.onHeaders (cs ++ cs') = ws.onHeaders cs >>= fun ws => ws.onHeaders cs' := by
  induction cs generalizing ws with
  | nil => rfl
  | cons c cs ih =>
    rw [List.cons_append, onHeaders, onHeaders]
    cases ws.onHeader c with
    | error e => rfl
    | ok w => exact ih w

theorem onHeaders_fields (ws : WebSocketConnection) {parts : List Bytes} (h : parts ≠ []) :
    ws.onHeaders (parts.map .field) = .ok (ws.setLastHeaderField (parts.getLast h)) := by
  induction parts generalizing ws with
  | nil => exact absurd rfl h
  | cons part parts ih =>
    cases parts with
    | nil => rfl
    | cons next parts =>
      rw [List.getLast_cons (List.cons_ne_nil next parts)]
      exact ih (ws.setLastHeaderField part) (List.cons_ne_nil next parts)

theorem setHeaderValue_eq {ws : WebSocketConnection} (value : Bytes) (h : ws.lastHeaderField_ ≠ []) :
    ws.setHeaderValue value = .ok { ws with
      headers_ := insertHeader ws.headers_ ws.lastHeaderField_ value
      lastHeaderField_ := [] } := if_neg h

theorem onHeaders_accepted (ws : WebSocketConnection) {h : FragmentedHeader} (ha : h.Accepted) :
    ws.onHeaders h.callbacks = .ok { ws with
      headers_ := insertHeader ws.headers_ h.lastPart h.value
      lastHeaderField_ := [] } := by
  obtain ⟨value, hvalue⟩ := List.length_eq_one_iff.mp ha.1
  have hflat : h.value = value := by
    rw [FragmentedHeader.value, hvalue, List.flatten_singleton]
  have hset : (ws.setLastHeaderField h.lastPart).setHeaderValue value = _ :=
    setHeaderValue_eq value ha.2
  rw [FragmentedHeader.callbacks, onHeaders_append, onHeaders_fields ws h.nameParts_ne, hvalue, hflat]
  simp only [List.map_cons, List.map_nil, bind, Except.bind, onHeaders, onHeader]
  rw [show ws.setLastHeaderField (h.nameParts.getLast h.nameParts_ne) =
    ws.setLastHeaderField h.lastPart from rfl, hset]
  rfl

theorem onHeaders_refused (ws : WebSocketConnection) {h : FragmentedHeader} (ha : ¬ h.Accepted) :
    ∃ w, ws.onHeaders h.callbacks = .error w := by
  rw [FragmentedHeader.callbacks, onHeaders_append, onHeaders_fields ws h.nameParts_ne]
  simp only [bind, Except.bind]
  generalize hw : ws.setLastHeaderField (h.nameParts.getLast h.nameParts_ne) = w
  have hlast : w.lastHeaderField_ = h.lastPart := by
    rw [← hw]
    rfl
  cases hparts : h.valueParts with
  | nil => exact absurd hparts h.valueParts_ne
  | cons first rest =>
    simp only [List.map_cons, onHeaders, onHeader]
    by_cases hname : h.lastPart = []
    · exact ⟨w, by simp only [setHeaderValue, if_pos (hlast.trans hname), bind, Except.bind]⟩
    · rw [setHeaderValue_eq first (by rwa [hlast])]
      cases rest with
      | nil => exact absurd ⟨by rw [hparts, List.length_singleton], hname⟩ ha
      | cons second rest =>
        simp only [List.map_cons, onHeaders, onHeader, bind, Except.bind, setHeaderValue, if_true]
        exact ⟨_, rfl⟩

/-! ## All headers -/

theorem onHeaders_all (ws : WebSocketConnection) {hs : List FragmentedHeader}
    (ha : ∀ h ∈ hs, h.Accepted) :
    ∃ w, ws.onHeaders (hs.flatMap FragmentedHeader.callbacks) = .ok w ∧
      ∀ k, w.headers_.lookup k =
        (ws.headers_.lookup k).or ((hs.map fun h => (h.lastPart, h.value)).lookup k) := by
  induction hs generalizing ws with
  | nil => exact ⟨ws, rfl, fun k => (Option.or_none).symm⟩
  | cons h hs ih =>
    obtain ⟨w, hw, hlookup⟩ := ih { ws with
      headers_ := insertHeader ws.headers_ h.lastPart h.value
      lastHeaderField_ := [] } fun h' hh => ha h' (List.mem_cons_of_mem _ hh)
    refine ⟨w, ?_, fun k => ?_⟩
    · rw [List.flatMap_cons, onHeaders_append, onHeaders_accepted ws (ha h (List.mem_cons_self ..))]
      exact hw
    · rw [hlookup k, lookup_insertHeader, Option.or_assoc, ← List.lookup_append]
      rfl

theorem onHeaders_any (ws : WebSocketConnection) {hs : List FragmentedHeader}
    (ha : ¬ ∀ h ∈ hs, h.Accepted) :
    ∃ w, ws.onHeaders (hs.flatMap FragmentedHeader.callbacks) = .error w := by
  induction hs generalizing ws with
  | nil => exact absurd (fun h hh => nomatch hh) ha
  | cons h hs ih =>
    rw [List.flatMap_cons, onHeaders_append]
    by_cases hh : h.Accepted
    · rw [onHeaders_accepted ws hh]
      refine ih _ fun hall => ha fun h' hmem => ?_
      rcases List.mem_cons.mp hmem with rfl | hmem
      · exact hh
      · exact hall h' hmem
    · obtain ⟨w, hw⟩ := onHeaders_refused ws hh
      rw [hw]
      exact ⟨w, rfl⟩

/-- **Header assembly.** The map is the right one iff every header comes with a single value fragment
and a last name fragment that is not empty, and the last name fragments have the same first values
as the names. -/
theorem assembles_iff {ws : WebSocketConnection} (hempty : ws.headers_ = [])
    (hs : List FragmentedHeader) :
    ws.Assembles hs ↔ (∀ h ∈ hs, h.Accepted) ∧
      ∀ k, (hs.map fun h => (h.lastPart, h.value)).lookup k =
        (hs.map fun h => (h.name, h.value)).lookup k := by
  by_cases ha : ∀ h ∈ hs, h.Accepted
  · obtain ⟨w, hw, hlookup⟩ := onHeaders_all ws ha
    simp only [hempty, List.lookup_nil, Option.none_or] at hlookup
    constructor
    · rintro ⟨w', hw', hmap, -⟩
      cases Except.ok.inj (hw.symm.trans hw')
      exact ⟨ha, fun k => (hlookup k).symm.trans (hmap k)⟩
    · rintro ⟨-, hsame⟩
      have hmap (k : Bytes) : w.headers_.lookup k =
          (hs.map fun h => (h.name, h.value)).lookup k := (hlookup k).trans (hsame k)
      exact ⟨w, hw, hmap, fun request => verdict_congr request hmap⟩
  · obtain ⟨w, hw⟩ := onHeaders_any ws ha
    constructor
    · rintro ⟨w', hw', -⟩
      rw [hw] at hw'
      cases hw'
    · intro h
      exact absurd h.1 ha

/-- A name that arrives in an empty and a full fragment, with its value in one. -/
theorem assembles_iff_empty_part :
    initial.Assembles [⟨[[], ascii "Host"], [ascii "a"], by decide, by decide, by decide⟩] :=
  (assembles_iff rfl _).mpr ⟨by decide, fun _ => rfl⟩

/-- A value that a read boundary cuts in two. -/
theorem not_assembles_split_value :
    ¬ initial.Assembles
      [⟨[ascii "Host"], [ascii "a", ascii "b"], by decide, by decide, by decide⟩] := by
  rintro ⟨w, hw, -⟩
  obtain ⟨e, he⟩ := onHeaders_any initial (show ¬ ∀ h ∈ [(⟨[ascii "Host"], [ascii "a", ascii "b"],
    by decide, by decide, by decide⟩ : FragmentedHeader)], h.Accepted by decide)
  rw [he] at hw
  cases hw

end WebSocketConnection
end WsEngine
