import WsEngine.Lib.Product
import WsEngine.Server.Model

/-! # Connections side by side

What the server has of one connection is its TCP connection, whether `connectionMap_` has its id, and what
`wsConns_` has under it. All that the server does to it is a function of these and of its own events
(`Member.step`). So the server is its connections side by side (`run_members`), whatever state the
registries are in: neither the order in which events of different connections come nor
anything that happens on the others is seen by one. -/
set_option autoImplicit false

namespace WsEngine

/-- What the server has of a connection. -/
structure Member where
  conn : ServerConnection
  registered : Bool
  peer : Option WebSocketPeer

inductive MemberEvent
  | accept (id : ℕ)
  | receive (bytes : Bytes)
  | tcp (e : TcpEvent)
  | onClose
  | onMessage (callback : Callback)

namespace Member

variable (httpParserExecute : WebSocketConnection → Bytes → ℕ × WebSocketConnection)

/-! ## One connection -/

def accepted (id : ℕ) : Member := ⟨⟨id, .fresh, .closeConnection⟩, true, none⟩

def closeConnection (m : Member) : Except ServerFault Member :=
  if m.registered then .ok { m with registered := false } else .error .closeConnection

def handleConnection (m : Member) : Member :=
  if m.conn.tcp.state_ = .kDisconnected then { m with peer := none } else m

def tell (m : Member) : Except ServerFault Member :=
  match m.conn.closeCallback_ with
  | .closeConnection => m.handleConnection.closeConnection
  | .handleClose => .ok m.handleConnection

def setTcp (m : Member) (tcp : TcpConnection) : Member := { m with conn := { m.conn with tcp := tcp } }

def onTcp (m : Member) (e : TcpEvent) : Except ServerFault Member := do
  let tcp ← (m.conn.tcp.step e).mapError .tcp
  if m.conn.tcp.notified < tcp.notified then (m.setTcp tcp).tell else return m.setTcp tcp

def handleMessage (m : Member) (bytes : Bytes) : Except ServerFault Member :=
  let peer := m.peer.getD ⟨m.conn.id_, .initial⟩
  match (peer.ws.receive bytes).parse httpParserExecute with
  | .returned ws => .ok { m with peer := some { peer with ws := ws } }
  | .again ws | .aborted ws => .error (.ws ws)

def onReceive (m : Member) (bytes : Bytes) : Except ServerFault Member := do
  let m ← m.onTcp (.readData bytes)
  m.handleMessage httpParserExecute bytes

def onClose (m : Member) : Member :=
  match m.peer with
  | some _ => { m with conn := { m.conn with closeCallback_ := .handleClose } }
  | none => m

def onMessage (m : Member) (callback : Callback) : Member :=
  { m with peer := m.peer.map fun peer => { peer with
    ws := { peer.ws with wsMessageCallback_ := some callback } } }

/-- A connection that was not accepted yet has no other events. -/
def step : Option Member → MemberEvent → Except ServerFault (Option Member)
  | none, .accept id => .ok (some (accepted id))
  | some m, .receive bytes => (m.onReceive httpParserExecute bytes).map some
  | some m, .tcp e => (m.onTcp e).map some
  | some m, .onClose => .ok (some m.onClose)
  | some m, .onMessage callback => .ok (some (m.onMessage callback))
  | m, _ => .ok m

def system : EventSystem (Option Member) MemberEvent ServerFault := ⟨fun _ _ => True, step httpParserExecute⟩

end Member

namespace Server

/-! ## The server -/

def member (s : Server) (p : ℕ) : Option Member :=
  s.conns[p]?.map fun conn => ⟨conn, decide (p ∈ s.connectionMap_), s.wsConns_.lookup p⟩

/-- Ids are positions, and the registries know no others. -/
structure Indexed (s : Server) : Prop where
  next : s.id_ = s.conns.length
  ids : ∀ (p : ℕ) (conn : ServerConnection), s.conns[p]? = some conn → conn.id_ = p
  connections : ∀ id ∈ s.connectionMap_, id < s.conns.length
  peers : ∀ id peer, s.wsConns_.lookup id = some peer → peer.conn_ = id ∧ id < s.conns.length

theorem initial_indexed : initial.Indexed where
  next := rfl
  ids := by simp [initial]
  connections := by simp [initial]
  peers := by simp [initial]

/-- `s'` is `s` but for the connection at `p`, of which it has `m`. -/
structure Local (s : Server) (p : ℕ) (m : Member) (s' : Server) : Prop where
  next : s'.id_ = s.id_
  length : s'.conns.length = s.conns.length
  conn : s'.conns[p]? = some m.conn
  registered : decide (p ∈ s'.connectionMap_) = m.registered
  peer : s'.wsConns_.lookup p = m.peer
  id : m.conn.id_ = p
  owner : ∀ peer ∈ m.peer, peer.conn_ = p
  conns : ∀ q ≠ p, s'.conns[q]? = s.conns[q]?
  connections : ∀ q ≠ p, q ∈ s'.connectionMap_ ↔ q ∈ s.connectionMap_
  peers : ∀ q ≠ p, s'.wsConns_.lookup q = s.wsConns_.lookup q

namespace Local

variable {s s' s'' : Server} {p : ℕ} {m m' : Member}

theorem trans (h : Local s p m s') (h' : Local s' p m' s'') : Local s p m' s'' where
  next := h'.next.trans h.next
  length := h'.length.trans h.length
  conn := h'.conn
  registered := h'.registered
  peer := h'.peer
  id := h'.id
  owner := h'.owner
  conns := fun q hq => (h'.conns q hq).trans (h.conns q hq)
  connections := fun q hq => (h'.connections q hq).trans (h.connections q hq)
  peers := fun q hq => (h'.peers q hq).trans (h.peers q hq)

theorem lt_length (h : Local s p m s') : p < s.conns.length := by
  rw [← h.length]
  exact (List.getElem?_eq_some_iff.mp h.conn).1

theorem indexed (h : Local s p m s') (hs : s.Indexed) : s'.Indexed where
  next := by rw [h.next, hs.next, h.length]
  ids := by
    intro q conn hq
    by_cases hqp : q = p
    · subst hqp
      cases h.conn.symm.trans hq
      exact h.id
    · rw [h.conns q hqp] at hq
      exact hs.ids q conn hq
  connections := by
    intro q hq
    rw [h.length]
    by_cases hqp : q = p
    · exact hqp ▸ h.lt_length
    · exact hs.connections q ((h.connections q hqp).mp hq)
  peers := by
    intro q peer hq
    rw [h.length]
    by_cases hqp : q = p
    · subst hqp
      rw [h.peer] at hq
      exact ⟨h.owner peer hq, h.lt_length⟩
    · rw [h.peers q hqp] at hq
      exact hs.peers q peer hq

theorem member (h : Local s p m s') : s'.member = Function.update s.member p (some m) := by
  funext q
  unfold Server.member
  by_cases hqp : q = p
  · subst hqp
    rw [Function.update_self, h.conn, h.registered, h.peer]
    rfl
  · rw [Function.update_of_ne hqp, h.conns q hqp, h.peers q hqp]
    simp only [h.connections q hqp]

end Local

/-- The connection at `p` as the server has it. -/
theorem Indexed.local {s : Server} (h : s.Indexed) {p : ℕ} {m : Member} (hm : s.member p = some m) :
    Local s p m s := by
  obtain ⟨conn, hconn, rfl⟩ := Option.map_eq_some_iff.mp hm
  exact ⟨rfl, rfl, hconn, rfl, rfl, h.ids p conn hconn, fun peer hpeer => (h.peers p peer hpeer).1,
    fun _ _ => rfl, fun _ _ => .rfl, fun _ _ => rfl⟩

theorem Local.refl {s s₀ : Server} {p : ℕ} {m : Member} (h : Local s₀ p m s) : Local s p m s where
  next := rfl
  length := rfl
  conn := h.conn
  registered := h.registered
  peer := h.peer
  id := h.id
  owner := h.owner
  conns := fun _ _ => rfl
  connections := fun _ _ => .rfl
  peers := fun _ _ => rfl

/-- The server does to the connection what is done to it alone, and nothing to the others. -/
inductive Acts (s : Server) (p : ℕ) : Except ServerFault Server → Except ServerFault Member → Prop
  | ok {s' : Server} {m : Member} (h : Local s p m s') : Acts s p (.ok s') (.ok m)
  | error (f : ServerFault) : Acts s p (.error f) (.error f)

theorem Acts.after {s s' : Server} {p : ℕ} {m : Member} {r : Except ServerFault Server}
    {r' : Except ServerFault Member} (h : Local s p m s') (hact : Acts s' p r r') : Acts s p r r' := by
  cases hact with
  | ok h' => exact .ok (h.trans h')
  | error f => exact .error f

theorem Acts.bind {s : Server} {p : ℕ} {r : Except ServerFault Server} {r' : Except ServerFault Member}
    {k : Server → Except ServerFault Server} {k' : Member → Except ServerFault Member}
    (h : Acts s p r r') (hk : ∀ s' m, Local s p m s' → Acts s' p (k s') (k' m)) :
    Acts s p (r >>= k) (r' >>= k') := by
  cases h with
  | ok h => exact .after h (hk _ _ h)
  | error f => exact .error f

/-! ## What is done to one connection -/

section
variable {s : Server} {p : ℕ} {m : Member}

theorem Local.setTcp (h : Local s p m s) (tcp : TcpConnection) :
    Local s p (m.setTcp tcp) (s.setConn p { m.conn with tcp := tcp }) where
  next := rfl
  length := List.length_set
  conn := by
    have hlt := h.lt_length
    simp [Server.setConn, Member.setTcp, hlt]
  registered := h.registered
  peer := h.peer
  id := h.id
  owner := h.owner
  conns := fun q hq => List.getElem?_set_ne (Ne.symm hq)
  connections := fun _ _ => .rfl
  peers := fun _ _ => rfl

theorem Local.handleConnection (h : Local s p m s) :
    Local s p m.handleConnection (s.handleConnection m.conn) := by
  unfold Member.handleConnection Server.handleConnection
  by_cases hstate : m.conn.tcp.state_ = .kDisconnected
  · rw [if_pos hstate, if_pos hstate, h.id]
    exact ⟨rfl, rfl, h.conn, h.registered, AList.lookup_erase .., h.id, nofun, fun _ _ => rfl,
      fun _ _ => .rfl, fun q hq => AList.lookup_erase_ne hq⟩
  · rw [if_neg hstate, if_neg hstate]
    exact h

theorem conn_handleConnection (m : Member) : m.handleConnection.conn = m.conn := by
  unfold Member.handleConnection
  split <;> rfl

theorem Local.closeConnection (h : Local s p m s) :
    Acts s p (s.closeConnection m.conn) m.closeConnection := by
  have hregistered : m.registered = true ↔ p ∈ s.connectionMap_ := by
    rw [← h.registered, decide_eq_true_iff]
  unfold Server.closeConnection Member.closeConnection
  rw [h.id]
  by_cases hin : p ∈ s.connectionMap_
  · rw [if_pos hin, if_pos (hregistered.mpr hin)]
    exact .ok ⟨rfl, rfl, h.conn, by simp, h.peer, h.id, h.owner, fun _ _ => rfl,
      fun q hq => by simp [AList.mem_erase, hq], fun _ _ => rfl⟩
  · rw [if_neg hin, if_neg fun hr => hin (hregistered.mp hr)]
    exact .error _

theorem Local.tell (h : Local s p m s) : Acts s p (s.tell m.conn) m.tell := by
  have hconnection := h.handleConnection
  unfold Server.tell Member.tell
  cases m.conn.closeCallback_ with
  | handleClose => exact .ok hconnection
  | closeConnection =>
    have hclose := hconnection.refl.closeConnection
    rw [conn_handleConnection] at hclose
    exact .after hconnection hclose

theorem Local.onTcp (h : Local s p m s) (e : TcpEvent) : Acts s p (s.onTcp p m.conn e) (m.onTcp e) := by
  unfold Server.onTcp Member.onTcp
  cases m.conn.tcp.step e with
  | error f => exact .error _
  | ok tcp =>
    have htcp := h.setTcp tcp
    change Acts s p (if m.conn.tcp.notified < tcp.notified then _ else _)
      (if m.conn.tcp.notified < tcp.notified then _ else _)
    by_cases htold : m.conn.tcp.notified < tcp.notified
    · rw [if_pos htold, if_pos htold]
      exact .after htcp htcp.refl.tell
    · rw [if_neg htold, if_neg htold]
      exact .ok htcp

variable {httpParserExecute : WebSocketConnection → Bytes → ℕ × WebSocketConnection}

theorem Local.insertPeer (h : Local s p m s) (peer : WebSocketPeer) (hpeer : peer.conn_ = p) :
    Local s p { m with peer := some peer } { s with wsConns_ := s.wsConns_.insert p peer } where
  next := rfl
  length := rfl
  conn := h.conn
  registered := h.registered
  peer := AList.lookup_insert _
  id := h.id
  owner := by
    intro peer' hmem
    cases hmem
    exact hpeer
  conns := fun _ _ => rfl
  connections := fun _ _ => .rfl
  peers := fun q hq => AList.lookup_insert_ne hq

theorem Local.handleMessage (h : Local s p m s) {conn : ServerConnection} (hconn : conn.id_ = p)
    (bytes : Bytes) : Acts s p (s.handleMessage httpParserExecute p conn bytes)
      (m.handleMessage httpParserExecute bytes) := by
  unfold Server.handleMessage Member.handleMessage
  rw [hconn, h.peer, h.id]
  have howner : (m.peer.getD ⟨p, .initial⟩).conn_ = p := by
    cases hpeer : m.peer with
    | none => rfl
    | some peer => exact h.owner peer hpeer
  dsimp only
  cases ((m.peer.getD ⟨p, .initial⟩).ws.receive bytes).parse httpParserExecute with
  | returned ws => exact .ok (h.insertPeer _ howner)
  | again ws => exact .error _
  | aborted ws => exact .error _

theorem Local.onReceive (h : Local s p m s) (bytes : Bytes) :
    Acts s p (s.onReceive httpParserExecute p m.conn bytes) (m.onReceive httpParserExecute bytes) :=
  (h.onTcp _).bind fun _ _ h' => h'.refl.handleMessage h.id bytes

theorem Local.onClose (h : Local s p m s) {peer : WebSocketPeer} (hpeer : m.peer = some peer) :
    Local s p m.onClose (s.onClose peer) := by
  have hlt := h.lt_length
  obtain ⟨conn, registered, found⟩ := m
  cases hpeer
  have hconn : s.conns[peer.conn_]? = some conn := by
    rw [h.owner peer rfl]
    exact h.conn
  unfold Server.onClose
  rw [hconn, h.owner peer rfl]
  exact ⟨rfl, List.length_set, by simp [Server.setConn, Member.onClose, hlt], h.registered, h.peer,
    h.id, h.owner, fun q hq => List.getElem?_set_ne (Ne.symm hq), fun _ _ => .rfl, fun _ _ => rfl⟩

theorem Local.onMessage (h : Local s p m s) {peer : WebSocketPeer} (hpeer : m.peer = some peer)
    (callback : Callback) : Local s p (m.onMessage callback) (s.onMessage p peer callback) := by
  have hinsert := h.insertPeer { peer with
    ws := { peer.ws with wsMessageCallback_ := some callback } } (h.owner peer hpeer)
  unfold Server.onMessage Member.onMessage
  rw [hpeer]
  exact hinsert

end

/-! ## Runs -/

/-- The event as one of a connection, where `next` connections were accepted before. -/
def tag (next : ℕ) : ServerEvent → Option (ℕ × MemberEvent)
  | .connection status => if status < 0 then none else some (next, .accept next)
  | .receive p bytes => some (p, .receive bytes)
  | .tcp p e => some (p, .tcp e)
  | .onClose p => some (p, .onClose)
  | .onMessage p callback => some (p, .onMessage callback)

/-- How many are accepted behind the event. -/
def acceptedBy (next : ℕ) : ServerEvent → ℕ
  | .connection status => if status < 0 then next else next + 1
  | .receive _ _ | .tcp _ _ | .onClose _ | .onMessage _ _ => next

def tagged : ℕ → List ServerEvent → List (ℕ × MemberEvent)
  | _, [] => []
  | next, e :: es => (tag next e).toList ++ tagged (acceptedBy next e) es

theorem onUvConnection_members {s : Server} (h : s.Indexed) {status : ℤ} (hstatus : ¬status < 0) :
    (s.onUvConnection status).Indexed ∧
      (s.onUvConnection status).conns.length = s.conns.length + 1 ∧
      (s.onUvConnection status).member =
        Function.update s.member s.conns.length (some (Member.accepted s.conns.length)) := by
  have hnone : s.wsConns_.lookup s.conns.length = none := by
    cases hlookup : s.wsConns_.lookup s.conns.length with
    | none => rfl
    | some peer => exact absurd (h.peers _ peer hlookup).2 (lt_irrefl _)
  unfold onUvConnection
  rw [if_neg hstatus, h.next]
  refine ⟨⟨by simp, ?_, ?_, ?_⟩, by simp, ?_⟩
  · intro p conn hp
    rcases lt_trichotomy p s.conns.length with hlt | rfl | hgt
    · rw [List.getElem?_append_left hlt] at hp
      exact h.ids p conn hp
    · simp at hp
      rw [← hp]
    · simp [List.getElem?_append_right hgt.le, show p - s.conns.length ≠ 0 by omega] at hp
  · intro id hid
    simp only [AList.mem_insert] at hid
    simp only [List.length_append, List.length_singleton]
    rcases hid with rfl | hid
    · omega
    · exact Nat.lt_succ_of_lt (h.connections id hid)
  · intro id peer hpeer
    obtain ⟨howner, hlt⟩ := h.peers id peer hpeer
    exact ⟨howner, by simpa using Nat.lt_succ_of_lt hlt⟩
  · funext p
    unfold member
    by_cases hp : p = s.conns.length
    · subst hp
      simp [hnone, Member.accepted]
    · rw [Function.update_of_ne hp]
      rcases Nat.lt_or_gt_of_ne hp with hlt | hgt
      · rw [List.getElem?_append_left hlt]
        simp [hp]
      · rw [List.getElem?_eq_none (by simp; omega), List.getElem?_eq_none hgt.le]
        rfl

variable (httpParserExecute : WebSocketConnection → Bytes → ℕ × WebSocketConnection)

/-- The step of the server is the step of one connection. -/
def Steps (s : Server) (e : ServerEvent) (r : Except ServerFault Server) : Prop :=
  r.Ends (fun s' => s'.Indexed ∧ s'.conns.length = acceptedBy s.conns.length e ∧
      (Member.system httpParserExecute).product.run s.member (tag s.conns.length e).toList =
        .ok s'.member)
    fun f => (Member.system httpParserExecute).product.run s.member (tag s.conns.length e).toList =
      .error f

variable {httpParserExecute}

/-- An event of a connection that was accepted. -/
theorem Acts.steps {s : Server} (h : s.Indexed) {p : ℕ} {m : Member} (hm : s.member p = some m)
    {e : ServerEvent} (e' : MemberEvent) (htag : ∀ next, tag next e = some (p, e'))
    (haccepted : ∀ next, acceptedBy next e = next) {r : Except ServerFault Server}
    {r' : Except ServerFault Member} (hact : Acts s p r r')
    (hstep : Member.step httpParserExecute (some m) e' = r'.map some) :
    Steps httpParserExecute s e r := by
  have hproduct : (Member.system httpParserExecute).step (s.member p) e' = r'.map some := by
    rw [hm]
    exact hstep
  unfold Steps
  rw [htag, haccepted]
  cases hact with
  | @ok s' m' hlocal =>
    refine .ok ⟨hlocal.indexed h, hlocal.length, ?_⟩
    have hone := (Member.system httpParserExecute).product_step_ok (e := (p, e')) hproduct
    rw [Option.toList_some, EventSystem.run_cons_ok _ _ hone, hlocal.member]
    rfl
  | error f =>
    refine .error ?_
    have hone := (Member.system httpParserExecute).product_step_error (e := (p, e')) hproduct
    simp only [Option.toList_some, EventSystem.run, hone]

/-- An event of no connection. -/
theorem steps_none {s : Server} (h : s.Indexed) {p : ℕ} (hm : s.member p = none) {e : ServerEvent}
    (e' : MemberEvent) (htag : ∀ next, tag next e = some (p, e'))
    (haccepted : ∀ next, acceptedBy next e = next)
    (hstep : Member.step httpParserExecute none e' = .ok none) :
    Steps httpParserExecute s e (.ok s) := by
  have hproduct : (Member.system httpParserExecute).step (s.member p) e' = .ok (s.member p) := by
    rw [hm]
    exact hstep
  unfold Steps
  rw [htag, haccepted]
  refine .ok ⟨h, rfl, ?_⟩
  have hone := (Member.system httpParserExecute).product_step_ok (e := (p, e')) hproduct
  rw [Function.update_eq_self] at hone
  rw [Option.toList_some, EventSystem.run_cons_ok _ _ hone]
  rfl

theorem member_none {s : Server} {p : ℕ} (h : s.conns[p]? = none) : s.member p = none := by
  rw [member, h, Option.map_none]

theorem member_some {s : Server} {p : ℕ} {conn : ServerConnection} (h : s.conns[p]? = some conn) :
    ∃ m, s.member p = some m ∧ m.conn = conn ∧ m.peer = s.wsConns_.lookup p := by
  refine ⟨⟨conn, decide (p ∈ s.connectionMap_), s.wsConns_.lookup p⟩, ?_, rfl, rfl⟩
  rw [member, h, Option.map_some]

theorem Indexed.exists_member {s : Server} (h : s.Indexed) {id : ℕ} {peer : WebSocketPeer}
    (hpeer : s.wsConns_.lookup id = some peer) : ∃ m, s.member id = some m ∧ m.peer = some peer := by
  obtain ⟨-, hlt⟩ := h.peers id peer hpeer
  obtain ⟨m, hm, -, hfound⟩ := member_some (List.getElem?_eq_getElem hlt)
  exact ⟨m, hm, hfound.trans hpeer⟩

/-- **One step.** -/
theorem Indexed.step {s : Server} (h : s.Indexed) (e : ServerEvent) :
    Steps httpParserExecute s e (s.step httpParserExecute e) := by
  have hunknown {id : ℕ} (hpeer : s.wsConns_.lookup id = none) {m : Member} (hm : s.member id = some m) :
      m.peer = none := by
    obtain ⟨conn, hconn, rfl⟩ := Option.map_eq_some_iff.mp hm
    exact hpeer
  cases e with
  | connection status =>
    by_cases hstatus : status < 0
    · have hstep : s.step httpParserExecute (.connection status) = .ok s :=
        congrArg Except.ok (if_pos hstatus)
      have htag : tag s.conns.length (.connection status) = none := if_pos hstatus
      have haccepted : acceptedBy s.conns.length (.connection status) = s.conns.length := if_pos hstatus
      unfold Steps
      rw [hstep, htag, haccepted]
      exact .ok ⟨h, rfl, rfl⟩
    · obtain ⟨hindexed, hlength, hmember⟩ := onUvConnection_members h hstatus
      have hproduct : (Member.system httpParserExecute).step (s.member s.conns.length)
          (.accept s.conns.length) = .ok (some (Member.accepted s.conns.length)) := by
        rw [member_none (List.getElem?_eq_none le_rfl)]
        rfl
      have hone := (Member.system httpParserExecute).product_step_ok
        (e := (s.conns.length, MemberEvent.accept s.conns.length)) hproduct
      have htag : tag s.conns.length (.connection status) =
          some (s.conns.length, .accept s.conns.length) := if_neg hstatus
      have haccepted : acceptedBy s.conns.length (.connection status) = s.conns.length + 1 :=
        if_neg hstatus
      unfold Steps
      rw [htag, haccepted]
      refine .ok ⟨hindexed, hlength, ?_⟩
      rw [Option.toList_some, EventSystem.run_cons_ok _ _ hone, hmember]
      rfl
  | receive p bytes =>
    cases hp : s.conns[p]? with
    | none =>
      have hstep : s.step httpParserExecute (.receive p bytes) = .ok s := by
        simp only [Server.step, hp]
      rw [hstep]
      exact steps_none h (member_none hp) (.receive bytes) (fun _ => rfl) (fun _ => rfl) rfl
    | some conn =>
      obtain ⟨m, hm, rfl, -⟩ := member_some hp
      have hstep : s.step httpParserExecute (.receive p bytes) =
          s.onReceive httpParserExecute p m.conn bytes := by simp only [Server.step, hp]
      rw [hstep]
      exact Acts.steps h hm (.receive bytes) (fun _ => rfl) (fun _ => rfl)
        ((h.local hm).onReceive bytes) rfl
  | tcp p e =>
    cases hp : s.conns[p]? with
    | none =>
      have hstep : s.step httpParserExecute (.tcp p e) = .ok s := by simp only [Server.step, hp]
      rw [hstep]
      exact steps_none h (member_none hp) (.tcp e) (fun _ => rfl) (fun _ => rfl) rfl
    | some conn =>
      obtain ⟨m, hm, rfl, -⟩ := member_some hp
      have hstep : s.step httpParserExecute (.tcp p e) = s.onTcp p m.conn e := by
        simp only [Server.step, hp]
      rw [hstep]
      exact Acts.steps h hm (.tcp e) (fun _ => rfl) (fun _ => rfl) ((h.local hm).onTcp e) rfl
  | onClose id =>
    cases hpeer : s.wsConns_.lookup id with
    | none =>
      have hstep : s.step httpParserExecute (.onClose id) = .ok s := by simp only [Server.step, hpeer]
      rw [hstep]
      cases hm : s.member id with
      | none => exact steps_none h hm .onClose (fun _ => rfl) (fun _ => rfl) rfl
      | some m =>
        have hsame : m.onClose = m := by
          rw [Member.onClose, hunknown hpeer hm]
        refine Acts.steps h hm .onClose (fun _ => rfl) (fun _ => rfl) (.ok (h.local hm)) ?_
        rw [Member.step, hsame]
        rfl
    | some peer =>
      have hstep : s.step httpParserExecute (.onClose id) = .ok (s.onClose peer) := by
        simp only [Server.step, hpeer]
      rw [hstep]
      obtain ⟨m, hm, hfound⟩ := h.exists_member hpeer
      exact Acts.steps h hm .onClose (fun _ => rfl) (fun _ => rfl) (.ok ((h.local hm).onClose hfound))
        rfl
  | onMessage id callback =>
    cases hpeer : s.wsConns_.lookup id with
    | none =>
      have hstep : s.step httpParserExecute (.onMessage id callback) = .ok s := by
        simp only [Server.step, hpeer]
      rw [hstep]
      cases hm : s.member id with
      | none => exact steps_none h hm (.onMessage callback) (fun _ => rfl) (fun _ => rfl) rfl
      | some m =>
        have hsame : m.onMessage callback = m := by
          obtain ⟨conn, registered, found⟩ := m
          cases hunknown hpeer hm
          rfl
        refine Acts.steps h hm (.onMessage callback) (fun _ => rfl) (fun _ => rfl) (.ok (h.local hm)) ?_
        rw [Member.step, hsame]
        rfl
    | some peer =>
      have hstep : s.step httpParserExecute (.onMessage id callback) =
          .ok (s.onMessage id peer callback) := by simp only [Server.step, hpeer]
      rw [hstep]
      obtain ⟨m, hm, hfound⟩ := h.exists_member hpeer
      exact Acts.steps h hm (.onMessage callback) (fun _ => rfl) (fun _ => rfl)
        (.ok ((h.local hm).onMessage hfound callback)) rfl

/-- **Runs.** -/
theorem run_members {s : Server} (h : s.Indexed) (events : List ServerEvent) :
    ((system httpParserExecute).run s events).Ends
      (fun s' => (Member.system httpParserExecute).product.run s.member
        (tagged s.conns.length events) = .ok s'.member)
      fun f => (Member.system httpParserExecute).product.run s.member
        (tagged s.conns.length events) = .error f := by
  induction events generalizing s with
  | nil => exact .ok rfl
  | cons e events ih =>
    have hsteps : Steps httpParserExecute s e (s.step httpParserExecute e) := h.step e
    unfold Steps at hsteps
    cases hstep : s.step httpParserExecute e with
    | error f =>
      rw [hstep, Except.ends_error] at hsteps
      have hserver : (system httpParserExecute).step s e = .error f := hstep
      simp only [EventSystem.run, hserver]
      exact .error (EventSystem.run_append_error _ _ hsteps)
    | ok s' =>
      rw [hstep, Except.ends_ok] at hsteps
      obtain ⟨hindexed, hlength, hproduct⟩ := hsteps
      have hserver : (system httpParserExecute).step s e = .ok s' := hstep
      rw [EventSystem.run_cons_ok _ _ hserver, tagged, EventSystem.run_append _ _ hproduct, ← hlength]
      exact ih hindexed

variable (httpParserExecute)

/-- **No interference.** What a run leaves of a connection is what its own events make of it, from its accept
on, whatever happens on the others and in between; and the process ends where the events of
some connection alone would end it. -/
theorem connections_isolated (events : List ServerEvent) :
    ((system httpParserExecute).run initial events).Ends
      (fun s => ∀ p, (Member.system httpParserExecute).run none
        (EventSystem.share p (tagged 0 events)) = .ok (s.member p))
      fun f => ∃ p, (Member.system httpParserExecute).run none
        (EventSystem.share p (tagged 0 events)) = .error f := by
  have hproduct := (Member.system httpParserExecute).product_run initial.member (tagged 0 events)
  apply (run_members initial_indexed events).mono
  · intro s hs
    have hs' : (Member.system httpParserExecute).product.run initial.member (tagged 0 events) =
      .ok s.member := hs
    rw [hs', Except.ends_ok] at hproduct
    exact hproduct
  · intro f hf
    have hf' : (Member.system httpParserExecute).product.run initial.member (tagged 0 events) =
      .error f := hf
    rw [hf', Except.ends_error] at hproduct
    exact hproduct

end Server
end WsEngine
