import WsEngine.Server.Model
import WsEngine.Tcp.Disconnecting
import WsEngine.Ws.Acceptance

/-! # What the registries hold

`connectionMap_` is the connections that were not told of a disconnect, and `wsConns_` is among them.
Both callbacks of a disconnect are needed for that: a connection on which `onClose` was called has
another close callback, and stays in `connectionMap_` for good. A connection that disconnects a second
time is not in the map any more, which the assertion of `closeConnection` finds. So the registries
are consistent exactly as long as neither happens. -/
set_option autoImplicit false

namespace WsEngine
namespace Server

/-! ## The specification -/

structure Consistent (s : Server) : Prop where
  registered : ∀ id ∈ s.wsConns_, id ∈ s.connectionMap_
  connections : ∀ id p, s.connectionMap_.lookup id = some p →
    ∃ conn, s.conns[p]? = some conn ∧ conn.id_ = id
  peers : ∀ id peer, s.wsConns_.lookup id = some peer →
    ∃ conn, s.conns[peer.conn_]? = some conn ∧ conn.id_ = id
  released : ∀ conn ∈ s.conns, conn.tcp.state_ = .kDisconnected →
    conn.id_ ∉ s.connectionMap_ ∧ conn.id_ ∉ s.wsConns_

/-- The assertion of `closeConnection` holds. -/
def Asserted : ServerFault → Prop
  | .closeConnection => False
  | .tcp _ | .ws _ => True

/-- What disconnects has the close callback that the server gave it, and does so for the first
time. -/
def Hooked (s : Server) : ServerEvent → Prop
  | .tcp p e => ∀ conn, s.conns[p]? = some conn → conn.tcp.Disconnects e →
    conn.closeCallback_ = .closeConnection ∧ conn.tcp.notified = 0
  | .connection _ | .receive _ _ | .onClose _ | .onMessage _ _ => True

instance (s : Server) : (e : ServerEvent) → Decidable (s.Hooked e)
  | .tcp p e => inferInstanceAs (Decidable (∀ conn ∈ s.conns[p]?, conn.tcp.Disconnects e →
    conn.closeCallback_ = .closeConnection ∧ conn.tcp.notified = 0))
  | .connection _ | .receive _ _ | .onClose _ | .onMessage _ _ => isTrue trivial

/-! ## The invariant -/

end Server

/-- The connection at a position. A connection that was told of its disconnect reads no more, and keeps
the close callback of the server. -/
structure ServerConnection.Inv (conn : ServerConnection) (p : ℕ) : Prop where
  id : conn.id_ = p
  told : conn.tcp.notified ≠ 0 → conn.closeCallback_ = .closeConnection ∧ conn.tcp.reading = false
  disconnected : conn.tcp.state_ = .kDisconnected → conn.tcp.notified ≠ 0

theorem ServerConnection.Inv.untold {conn : ServerConnection} {p : ℕ} (h : conn.Inv p)
    {tcp : TcpConnection} (huntold : conn.tcp.Untold tcp) :
    ({ conn with tcp := tcp } : ServerConnection).Inv p where
  id := h.id
  told := by
    intro hn
    obtain ⟨hcallback, hreading⟩ := h.told (huntold.notified ▸ hn)
    refine ⟨hcallback, ?_⟩
    by_contra hr
    have hread := huntold.reading (by simpa using hr)
    rw [hreading] at hread
    cases hread
  disconnected := fun hs => huntold.notified ▸ h.disconnected (huntold.state hs)

namespace Server

/-- The connection was made, and not told of a disconnect. -/
def Live (s : Server) (p : ℕ) : Prop := ∃ conn, s.conns[p]? = some conn ∧ conn.tcp.notified = 0

structure Inv (s : Server) : Prop where
  next : s.id_ = s.conns.length
  conns : ∀ (p : ℕ) (conn : ServerConnection), s.conns[p]? = some conn → conn.Inv p
  connections : ∀ id p, s.connectionMap_.lookup id = some p ↔ p = id ∧ s.Live id
  peers : ∀ id peer, s.wsConns_.lookup id = some peer → peer.conn_ = id ∧ s.Live id

theorem Inv.mem_connectionMap {s : Server} (h : s.Inv) (id : ℕ) :
    id ∈ s.connectionMap_ ↔ s.Live id := by
  rw [← AList.lookup_isSome, Option.isSome_iff_exists]
  constructor
  · rintro ⟨p, hp⟩
    exact ((h.connections id p).mp hp).2
  · intro hlive
    exact ⟨id, (h.connections id id).mpr ⟨rfl, hlive⟩⟩

theorem Inv.live_of_mem {s : Server} (h : s.Inv) {id : ℕ} (hmem : id ∈ s.wsConns_) : s.Live id := by
  rw [← AList.lookup_isSome, Option.isSome_iff_exists] at hmem
  obtain ⟨peer, hpeer⟩ := hmem
  exact (h.peers id peer hpeer).2

theorem Inv.consistent {s : Server} (h : s.Inv) : s.Consistent where
  registered := by
    intro id hmem
    rw [h.mem_connectionMap]
    exact h.live_of_mem hmem
  connections := by
    intro id p hp
    obtain ⟨rfl, conn, hconn, -⟩ := (h.connections id p).mp hp
    exact ⟨conn, hconn, (h.conns p conn hconn).id⟩
  peers := by
    intro id peer hpeer
    obtain ⟨rfl, conn, hconn, -⟩ := h.peers id peer hpeer
    exact ⟨conn, hconn, (h.conns _ conn hconn).id⟩
  released := by
    intro conn hmem hstate
    obtain ⟨p, hp⟩ := List.mem_iff_getElem?.mp hmem
    have hconn := h.conns p conn hp
    have hdead : ¬ s.Live conn.id_ := by
      rintro ⟨conn', hp', hzero⟩
      rw [hconn.id, hp] at hp'
      cases hp'
      exact hconn.disconnected hstate hzero
    refine ⟨fun hin => hdead ((h.mem_connectionMap _).mp hin), fun hin => hdead (h.live_of_mem hin)⟩

theorem initial_inv : initial.Inv where
  next := rfl
  conns := by simp [initial]
  connections := by simp [initial, Live]
  peers := by simp [initial]

/-! ## Changing one connection -/

theorem live_setConn {s : Server} {p : ℕ} {conn conn' : ServerConnection}
    (hp : s.conns[p]? = some conn) (id : ℕ) :
    (s.setConn p conn').Live id ↔ if id = p then conn'.tcp.notified = 0 else s.Live id := by
  have hlt : p < s.conns.length := (List.getElem?_eq_some_iff.mp hp).1
  unfold Live setConn
  simp only [List.getElem?_set]
  by_cases hid : id = p
  · subst hid
    simp [hlt]
  · simp [hid, Ne.symm hid]

/-- The registries are not concerned. -/
theorem Inv.setConn {s : Server} (h : s.Inv) {p : ℕ} {conn conn' : ServerConnection}
    (hp : s.conns[p]? = some conn) (hconn : conn'.Inv p)
    (hsame : conn'.tcp.notified = conn.tcp.notified) : (s.setConn p conn').Inv := by
  have hlive (id : ℕ) : (s.setConn p conn').Live id ↔ s.Live id := by
    rw [live_setConn hp]
    by_cases hid : id = p
    · subst hid
      rw [if_pos rfl, hsame]
      simp [Live, hp]
    · rw [if_neg hid]
  refine ⟨?_, ?_, ?_, ?_⟩
  · simp only [Server.setConn, List.length_set]
    exact h.next
  · intro q conn'' hq
    simp only [Server.setConn, List.getElem?_set] at hq
    split at hq
    · next heq =>
      subst heq
      split at hq
      · cases hq
        exact hconn
      · cases hq
    · exact h.conns q conn'' hq
  · intro id q
    rw [hlive]
    exact h.connections id q
  · intro id peer hpeer
    rw [hlive]
    exact h.peers id peer hpeer

/-- The connection leaves both registries. -/
theorem Inv.release {s : Server} (h : s.Inv) {p : ℕ} {conn conn' : ServerConnection}
    (hp : s.conns[p]? = some conn) (hconn : conn'.Inv p) (htold : conn'.tcp.notified ≠ 0) :
    ({ s.setConn p conn' with
      connectionMap_ := s.connectionMap_.erase p
      wsConns_ := s.wsConns_.erase p } : Server).Inv := by
  have hlive (id : ℕ) : (s.setConn p conn').Live id ↔ id ≠ p ∧ s.Live id := by
    rw [live_setConn hp]
    by_cases hid : id = p
    · simp [hid, htold]
    · simp [hid]
  refine ⟨?_, ?_, ?_, ?_⟩
  · simp only [Server.setConn, List.length_set]
    exact h.next
  · intro q conn'' hq
    simp only [Server.setConn, List.getElem?_set] at hq
    split at hq
    · next heq =>
      subst heq
      split at hq
      · cases hq
        exact hconn
      · cases hq
    · exact h.conns q conn'' hq
  · intro id q
    change (s.connectionMap_.erase p).lookup id = some q ↔ q = id ∧ (s.setConn p conn').Live id
    rw [hlive]
    by_cases hid : id = p
    · subst hid
      simp [AList.lookup_erase]
    · rw [AList.lookup_erase_ne hid, h.connections]
      simp [hid]
  · intro id peer hpeer
    change (s.wsConns_.erase p).lookup id = some peer at hpeer
    change _ ∧ (s.setConn p conn').Live id
    rw [hlive]
    by_cases hid : id = p
    · subst hid
      simp [AList.lookup_erase] at hpeer
    · rw [AList.lookup_erase_ne hid] at hpeer
      obtain ⟨hconn_, hlive'⟩ := h.peers id peer hpeer
      exact ⟨hconn_, hid, hlive'⟩

theorem Inv.insertPeer {s : Server} (h : s.Inv) {id : ℕ} {peer : WebSocketPeer}
    (hpeer : peer.conn_ = id) (hlive : s.Live id) :
    ({ s with wsConns_ := s.wsConns_.insert id peer } : Server).Inv where
  next := h.next
  conns := h.conns
  connections := h.connections
  peers := by
    intro id' peer' hlookup
    by_cases hid : id' = id
    · subst hid
      rw [AList.lookup_insert] at hlookup
      cases hlookup
      exact ⟨hpeer, hlive⟩
    · rw [AList.lookup_insert_ne hid] at hlookup
      exact h.peers id' peer' hlookup

/-! ## The events -/

theorem live_append {s s' : Server} {conn : ServerConnection}
    (hs' : s'.conns = s.conns ++ [conn]) (hconn : conn.tcp.notified = 0) (id : ℕ) :
    s'.Live id ↔ id = s.conns.length ∨ s.Live id := by
  unfold Live
  rw [hs']
  rcases lt_trichotomy id s.conns.length with hlt | rfl | hgt
  · rw [List.getElem?_append_left hlt]
    simp [hlt.ne]
  · simp [hconn]
  · rw [List.getElem?_eq_none (by simp; omega), List.getElem?_eq_none (by omega)]
    simp [hgt.ne']

theorem Inv.onUvConnection {s : Server} (h : s.Inv) (status : ℤ) : (s.onUvConnection status).Inv := by
  unfold Server.onUvConnection
  by_cases hs : status < 0
  · rw [if_pos hs]
    exact h
  · rw [if_neg hs]
    have hnone : ¬ s.Live s.conns.length := by
      rintro ⟨conn, hconn, -⟩
      simp at hconn
    refine ⟨?_, ?_, ?_, ?_⟩
    · simp [h.next]
    · intro p conn hp
      rw [List.getElem?_append] at hp
      split at hp
      · exact h.conns p conn hp
      · next hge =>
        have hzero : p - s.conns.length = 0 := by
          have hlt := (List.getElem?_eq_some_iff.mp hp).1
          simp only [List.length_singleton] at hlt
          omega
        rw [hzero] at hp
        cases hp
        have hp' : s.id_ = p := by
          have hnext := h.next
          omega
        exact ⟨hp', nofun, nofun⟩
    · intro id p
      rw [live_append rfl rfl]
      by_cases hid : id = s.id_
      · subst hid
        rw [AList.lookup_insert, h.next]
        simp [eq_comm]
      · rw [AList.lookup_insert_ne hid, h.connections]
        rw [h.next] at hid
        simp [hid]
    · intro id peer hpeer
      obtain ⟨hconn_, hl⟩ := h.peers id peer hpeer
      rw [live_append rfl rfl]
      exact ⟨hconn_, .inr hl⟩

theorem handleConnection_disconnected {s : Server} {conn : ServerConnection}
    (h : conn.tcp.state_ = .kDisconnected) :
    s.handleConnection conn = { s with wsConns_ := s.wsConns_.erase conn.id_ } := if_pos h

/-- An event that does not disconnect leaves the registries alone. -/
theorem Inv.onTcp_untold {s : Server} (h : s.Inv) {p : ℕ} {conn : ServerConnection} {e : TcpEvent}
    (hp : s.conns[p]? = some conn) (possible : conn.tcp.Possible e)
    (hd : ¬ conn.tcp.Disconnects e) :
    (s.onTcp p conn e).Ends (fun s' => s'.Inv ∧ s'.wsConns_ = s.wsConns_ ∧
      ∀ id, s'.Live id ↔ s.Live id) Asserted := by
  have hconn := h.conns p conn hp
  have htcp : (conn.tcp.step e).Ends conn.tcp.Untold fun _ => True :=
    .of_ok (fun _ hs => TcpConnection.step_untold possible hd hs) fun _ => trivial
  apply (htcp.mapError (f := ServerFault.tcp) fun _ _ => trivial).bind
  intro tcp huntold
  have hconn' := hconn.untold huntold
  have hlt : ¬ conn.tcp.notified < tcp.notified := by
    rw [huntold.notified]
    omega
  rw [if_neg hlt]
  refine .ok ⟨h.setConn hp hconn' huntold.notified, rfl, fun id => ?_⟩
  rw [live_setConn hp]
  by_cases hid : id = p
  · subst hid
    rw [if_pos rfl]
    change tcp.notified = 0 ↔ _
    simp [huntold.notified, Live, hp]
  · rw [if_neg hid]

/-- An event that disconnects runs both callbacks. -/
theorem onTcp_told {s : Server} {p : ℕ} {conn : ServerConnection} {e : TcpEvent}
    (possible : conn.tcp.Possible e) (hd : conn.tcp.Disconnects e) :
    ∃ tcp, conn.tcp.Told tcp ∧
      s.onTcp p conn e = (s.setConn p { conn with tcp := tcp }).tell { conn with tcp := tcp } := by
  obtain ⟨tcp, hstep, htold⟩ := TcpConnection.step_told possible hd
  have hlt : conn.tcp.notified < tcp.notified := by
    rw [htold.notified]
    omega
  refine ⟨tcp, htold, ?_⟩
  unfold onTcp
  rw [hstep]
  exact if_pos hlt

theorem tell_closeConnection (s : Server) (conn : ServerConnection)
    (hstate : conn.tcp.state_ = .kDisconnected) (hcallback : conn.closeCallback_ = .closeConnection) :
    s.tell conn = if conn.id_ ∈ s.connectionMap_ then
      .ok { s with
        connectionMap_ := s.connectionMap_.erase conn.id_
        wsConns_ := s.wsConns_.erase conn.id_ }
    else .error .closeConnection := by
  unfold tell
  rw [handleConnection_disconnected hstate, hcallback]
  rfl

theorem tell_handleClose (s : Server) (conn : ServerConnection)
    (hstate : conn.tcp.state_ = .kDisconnected) (hcallback : conn.closeCallback_ = .handleClose) :
    s.tell conn = .ok { s with wsConns_ := s.wsConns_.erase conn.id_ } := by
  unfold tell
  rw [handleConnection_disconnected hstate, hcallback]

theorem Inv.onTcp {s : Server} (h : s.Inv) {p : ℕ} {conn : ServerConnection} {e : TcpEvent}
    (hp : s.conns[p]? = some conn) (possible : conn.tcp.Possible e)
    (hooked : conn.tcp.Disconnects e →
      conn.closeCallback_ = .closeConnection ∧ conn.tcp.notified = 0) :
    (s.onTcp p conn e).Ends Inv Asserted := by
  by_cases hd : conn.tcp.Disconnects e
  · obtain ⟨hcallback, hzero⟩ := hooked hd
    obtain ⟨tcp, htold, heq⟩ := onTcp_told (s := s) (p := p) possible hd
    have hconn := h.conns p conn hp
    have hmem : conn.id_ ∈ s.connectionMap_ := by
      rw [h.mem_connectionMap, hconn.id]
      exact ⟨conn, hp, hzero⟩
    have hnotified : tcp.notified ≠ 0 := by
      rw [htold.notified]
      omega
    have hconn' : ({ conn with tcp := tcp } : ServerConnection).Inv p :=
      ⟨hconn.id, fun _ => ⟨hcallback, htold.reading⟩, fun _ => hnotified⟩
    rw [heq, tell_closeConnection _ { conn with tcp := tcp } htold.state hcallback,
      if_pos (by exact hmem)]
    refine .ok ?_
    have hrelease := h.release hp hconn' hnotified
    rw [← hconn.id] at hrelease ⊢
    exact hrelease
  · exact (h.onTcp_untold hp possible hd).mono (fun _ hs => hs.1) fun _ => id

/-- A disconnect with another close callback leaves the connection in `connectionMap_`, and a second
one fails the assertion. -/
theorem Inv.not_hooked {s : Server} (h : s.Inv) {p : ℕ} {conn : ServerConnection} {e : TcpEvent}
    (hp : s.conns[p]? = some conn) (possible : conn.tcp.Possible e) (hd : conn.tcp.Disconnects e)
    (hooked : ¬ (conn.closeCallback_ = .closeConnection ∧ conn.tcp.notified = 0)) :
    ¬ (s.onTcp p conn e).Ends Consistent Asserted := by
  obtain ⟨tcp, htold, heq⟩ := onTcp_told (s := s) (p := p) possible hd
  have hconn := h.conns p conn hp
  have hlive : conn.id_ ∈ s.connectionMap_ ↔ conn.tcp.notified = 0 := by
    rw [h.mem_connectionMap, hconn.id]
    simp [Live, hp]
  cases hcallback : conn.closeCallback_ with
  | closeConnection =>
    have hgone : conn.id_ ∉ s.connectionMap_ := fun hmem => hooked ⟨hcallback, hlive.mp hmem⟩
    rw [heq, tell_closeConnection _ { conn with tcp := tcp } htold.state hcallback,
      if_neg (by exact hgone)]
    simp [Asserted]
  | handleClose =>
    have hzero : conn.tcp.notified = 0 := by
      by_contra hn
      have hold := (hconn.told hn).1
      rw [hcallback] at hold
      cases hold
    rw [heq, tell_handleClose _ { conn with tcp := tcp } htold.state hcallback,
      Except.ends_ok]
    intro hconsistent
    have hlt := (List.getElem?_eq_some_iff.mp hp).1
    have hmem : ({ conn with tcp := tcp } : ServerConnection) ∈
        s.conns.set p { conn with tcp := tcp } := List.mem_set hlt _
    exact (hconsistent.released _ hmem htold.state).1 (hlive.mpr hzero)

theorem Inv.onReceive {s : Server} (h : s.Inv)
    (httpParserExecute : WebSocketConnection → Bytes → ℕ × WebSocketConnection) {p : ℕ}
    {conn : ServerConnection} {bytes : Bytes} (hp : s.conns[p]? = some conn)
    (possible : conn.tcp.Possible (.readData bytes)) :
    (s.onReceive httpParserExecute p conn bytes).Ends Inv Asserted := by
  have hconn := h.conns p conn hp
  have hlive : s.Live p := by
    refine ⟨conn, hp, ?_⟩
    by_contra hn
    have hreading := possible.1
    rw [(hconn.told hn).2] at hreading
    cases hreading
  apply (h.onTcp_untold hp possible id).bind
  rintro s' ⟨hs', hpeers, hsame⟩
  have hpeer : ((s'.wsConns_.lookup conn.id_).getD ⟨p, .initial⟩).conn_ = p := by
    cases hlookup : s'.wsConns_.lookup conn.id_ with
    | none => rfl
    | some peer => exact (hs'.peers _ peer hlookup).1.trans hconn.id
  unfold handleMessage
  dsimp only
  split
  · refine .ok (hs'.insertPeer (hpeer.trans hconn.id.symm) ?_)
    rw [hconn.id, hsame]
    exact hlive
  · exact .error trivial
  · exact .error trivial

theorem Inv.onClose {s : Server} (h : s.Inv) {id : ℕ} {peer : WebSocketPeer}
    (hpeer : s.wsConns_.lookup id = some peer) : (s.onClose peer).Inv := by
  obtain ⟨rfl, conn, hp, hzero⟩ := h.peers id peer hpeer
  have hconn := h.conns _ conn hp
  unfold Server.onClose
  rw [hp]
  refine h.setConn hp ⟨hconn.id, fun hn => absurd hzero hn, hconn.disconnected⟩ rfl

variable (httpParserExecute : WebSocketConnection → Bytes → ℕ × WebSocketConnection)

theorem Inv.step {s : Server} (h : s.Inv) {e : ServerEvent} (possible : s.Possible e)
    (hooked : s.Hooked e) : (s.step httpParserExecute e).Ends Inv Asserted := by
  cases e with
  | connection status => exact .ok (h.onUvConnection status)
  | receive p bytes =>
    obtain ⟨conn, hp, hread⟩ := possible
    simp only [Server.step, hp]
    exact h.onReceive httpParserExecute hp hread
  | tcp p e =>
    obtain ⟨-, conn, hp, he⟩ := possible
    simp only [Server.step, hp]
    exact h.onTcp hp he (hooked conn hp)
  | onClose id =>
    obtain ⟨peer, hpeer, -⟩ := possible
    simp only [Server.step, hpeer]
    exact .ok (h.onClose hpeer)
  | onMessage id callback =>
    obtain ⟨peer, hpeer, -⟩ := possible
    obtain ⟨hconn_, hlive⟩ := h.peers id peer hpeer
    simp only [Server.step, hpeer]
    exact .ok (h.insertPeer hconn_ hlive)

/-- **The registries stay consistent** in every step of a run, and the assertion of `closeConnection`
holds, exactly when no connection is disconnected on which `onClose` was called, and none for the
second time. -/
theorem consistent_iff {events : List ServerEvent}
    (legal : (system httpParserExecute).Legal initial events) :
    (∀ p ∈ (system httpParserExecute).steps initial events,
      (p.1.step httpParserExecute p.2).Ends Consistent Asserted) ↔
      ∀ p ∈ (system httpParserExecute).steps initial events, p.1.Hooked p.2 := by
  refine (system httpParserExecute).forall_steps_iff Inv Hooked
    (fun s e => (s.step httpParserExecute e).Ends Consistent Asserted) ?_ ?_ initial_inv legal
  · intro s e s' hinv possible hooked hs
    have hends := hinv.step httpParserExecute possible hooked
    rw [show s.step httpParserExecute e = .ok s' from hs, Except.ends_ok] at hends
    exact hends
  · intro s e hinv possible
    constructor
    · intro hsafe
      cases e with
      | tcp p e =>
        intro conn hp hd
        by_contra hnot
        obtain ⟨-, conn', hp', he⟩ := possible
        cases hp.symm.trans hp'
        simp only [Server.step, hp] at hsafe
        exact hinv.not_hooked hp he hd hnot hsafe
      | connection status => trivial
      | receive p bytes => trivial
      | onClose id => trivial
      | onMessage id callback => trivial
    · intro hooked
      exact (hinv.step httpParserExecute possible hooked).mono (fun _ hs => hs.consistent) fun _ => id

def request : Bytes :=
  ascii "GET / HTTP/1.1\r\nHost: a\r\nUpgrade: websocket\r\nConnection: Upgrade\r\n" ++
    ascii "Sec-WebSocket-Version: 13\r\nSec-WebSocket-Key: dGhlIHNhbXBsZSBub25jZQ==\r\n\r\n"

def response : Bytes :=
  WebSocketConnection.UPGRADE_RESPONSE ++
    ascii "Sec-WebSocket-Accept: s3pPLMBiTxaQ9kYGzzhZRbK+xOo=\r\n\r\n"

/-- `http_parser_execute` on that request. -/
def execute (ws : WebSocketConnection) (bytes : Bytes) : ℕ × WebSocketConnection :=
  if bytes = request then (bytes.length, { ws with status_ := .CONNECT }) else (0, ws)

/-- An accept, a handshake, the write of the answer, and the end of the stream. -/
theorem consistent_iff_handshake :
    let events := [ServerEvent.connection 0, .receive 0 request, .tcp 0 (.send response 0),
      .tcp 0 (.writeDone 0 0), .tcp 0 (.readEnd (-4095))]
    (system execute).Legal initial events ∧
      ((system execute).run initial (events.take 2)).Ends (fun s => 0 ∈ s.wsConns_) (fun _ => False) ∧
      ∀ p ∈ (system execute).steps initial events,
        (p.1.step execute p.2).Ends Consistent Asserted := by
  intro events
  have legal : (system execute).Legal initial events := by decide +kernel
  exact ⟨legal, by decide +kernel, (consistent_iff execute legal).mpr (by decide +kernel)⟩

/-- An accept, a handshake, `onClose`, and the end of the stream. -/
theorem not_consistent_onClose :
    let events := [ServerEvent.connection 0, .receive 0 request, .tcp 0 (.send response 0),
      .onClose 0, .tcp 0 (.writeDone 0 0), .tcp 0 (.readEnd (-4095))]
    (system execute).Legal initial events ∧
      ¬ ∀ p ∈ (system execute).steps initial events,
        (p.1.step execute p.2).Ends Consistent Asserted := by
  intro events
  refine ⟨by decide +kernel, fun hsafe => ?_⟩
  have hrun : ((system execute).run initial events).Ends (fun s => 0 ∈ s.connectionMap_ ∧
      ∃ conn ∈ s.conns, conn.id_ = 0 ∧ conn.tcp.state_ = .kDisconnected) fun _ => False := by
    decide +kernel
  obtain ⟨s, hs, hmem, conn, hconn, hid, hstate⟩ := hrun.exists_ok
  have hends := (system execute).ends_of_steps initial_inv.consistent hsafe
  rw [hs, Except.ends_ok] at hends
  have hreleased := (hends.released conn hconn hstate).1
  rw [hid] at hreleased
  exact hreleased hmem

end Server
end WsEngine
