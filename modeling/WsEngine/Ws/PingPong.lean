import WsEngine.Machine.Overflow
import WsEngine.Ws.Reassembly

/-! # Pings and their pongs

The payload of a control frame is read back out of `decodeBuf_` behind all that is held there. What
is sent is one pong for each ping, with its payload, and what the two callbacks are told is the
payloads in order, wherever the control frames stand and whatever is left in `decodeBuf_` before
them, as long as the indices have room for what is received. -/
set_option autoImplicit false

namespace WsEngine

def pings (trace : List Effect) : List Bytes :=
  trace.filterMap fun
    | .ping payload => some payload
    | _ => none

def pongs (trace : List Effect) : List Bytes :=
  trace.filterMap fun
    | .pong payload => some payload
    | _ => none

theorem pings_append (trace more : List Effect) : pings (trace ++ more) = pings trace ++ pings more :=
  List.filterMap_append

theorem pongs_append (trace more : List Effect) : pongs (trace ++ more) = pongs trace ++ pongs more :=
  List.filterMap_append

namespace Frame

/-- The payloads of the frames of a kind. -/
def payloads (kind : FrameKind) (fs : List Frame) : List Bytes :=
  (fs.filter (·.kind = kind)).map payload

theorem payloads_cons (kind : FrameKind) (f : Frame) (fs : List Frame) :
    payloads kind (f :: fs) =
      (if f.kind = kind then [f.payload] else []) ++ payloads kind fs := by
  unfold payloads
  rw [List.filter_cons]
  by_cases hk : f.kind = kind
  · rw [if_pos (decide_eq_true hk), if_pos hk]
    rfl
  · rw [if_neg (by simpa using hk), if_neg hk]
    rfl

end Frame

/-- The pong frame that answers a ping. -/
def pongFrame (payload : Bytes) : Bytes := 0x8a :: UInt8.ofNat payload.length :: payload

namespace Decoder

theorem pings_effects (d : Decoder) (m : Progress) (f : Frame) :
    pings (d.effects m f) = if d.pingCallback.isSome then
      if f.kind = .ping then [f.payload] else [] else [] := by
  unfold effects
  cases f.kind with
  | continuation | text | binary =>
    dsimp only
    split <;> simp [pings]
  | ping =>
    dsimp only
    split <;> rfl
  | pong =>
    dsimp only
    split <;> simp [pings]

theorem pongs_effects (d : Decoder) (m : Progress) (f : Frame) :
    pongs (d.effects m f) = if d.pongCallback.isSome then
      if f.kind = .pong then [f.payload] else [] else [] := by
  unfold effects
  cases f.kind with
  | continuation | text | binary =>
    dsimp only
    split <;> simp [pongs]
  | ping =>
    dsimp only
    split <;> simp [pongs]
  | pong =>
    dsimp only
    split <;> rfl

/-- **All frames.** -/
theorem afterAll_correspond (d : Decoder) (m : Progress) (fs : List Frame) :
    sends (d.afterAll m fs).trace =
        sends d.trace ++ (Frame.payloads .ping fs).map pongFrame ∧
      pings (d.afterAll m fs).trace =
        pings d.trace ++ (if d.pingCallback.isSome then Frame.payloads .ping fs else []) ∧
      pongs (d.afterAll m fs).trace =
        pongs d.trace ++ (if d.pongCallback.isSome then Frame.payloads .pong fs else []) := by
  induction fs generalizing d m with
  | nil =>
    refine ⟨(List.append_nil _).symm, ?_, ?_⟩
    · split <;> exact (List.append_nil _).symm
    · split <;> exact (List.append_nil _).symm
  | cons f fs ih =>
    obtain ⟨hsends, hpings, hpongs⟩ := ih (d.after m f (fs.flatMap Frame.encode)) (Frame.advance m f)
    have htrace : (d.after m f (fs.flatMap Frame.encode)).trace =
        d.trace ++ ([.frame] ++ d.effects m f) := rfl
    rw [afterAll, hsends, hpings, hpongs, htrace]
    refine ⟨?_, ?_, ?_⟩
    · rw [sends_append, sends_append, sends_effects, Frame.payloads_cons, List.map_append,
        List.append_assoc]
      congr 1
      split <;> rfl
    · change pings _ ++ (if d.pingCallback.isSome then _ else []) = _
      rw [pings_append, pings_append, pings_effects, Frame.payloads_cons, List.append_assoc]
      congr 1
      split <;> rfl
    · change pongs _ ++ (if d.pongCallback.isSome then _ else []) = _
      rw [pongs_append, pongs_append, pongs_effects, Frame.payloads_cons, List.append_assoc]
      congr 1
      split <;> rfl

end Decoder

namespace WebSocketConnection

theorem Fresh.between {ws : WebSocketConnection} (h : ws.Fresh) (hl : ws.Listening)
    (hinput : ws.inputBuffer.readable = []) : ws.abs.Between none [] :=
  ⟨h.calm hl, h.wire, if_neg (by rw [h.header]; decide), h.wanted, hinput, h.fragmented⟩

/-- What is sent and told over naturals. -/
theorem feed_answered {ws : WebSocketConnection} (h : ws.Fresh) (hl : ws.Listening)
    (hinput : ws.inputBuffer.readable = [])
    (httpParserExecute : WebSocketConnection → Bytes → ℕ × WebSocketConnection) {fs : List Frame}
    (hf : Frame.Legal none fs) {chunks : List Bytes} (hne : ∀ b ∈ chunks, b ≠ [])
    (hchunks : chunks.flatten = fs.flatMap Frame.encode) :
    ∃ w, ws.feed httpParserExecute chunks = .returned w ∧
      sends w.trace = (Frame.payloads .ping fs).map pongFrame ∧
      pings w.trace = (if ws.pingCallback_.isSome then Frame.payloads .ping fs else []) ∧
      pongs w.trace = if ws.pongCallback_.isSome then Frame.payloads .pong fs else [] := by
  have hpast : ws.status_ ≠ .INITIAL := by
    rw [h.status]
    exact nofun
  have hx := (h.between hl hinput).reads hf hne hchunks
  rw [← abs_feed httpParserExecute hpast] at hx
  obtain ⟨w, hw, hwx⟩ := Call.map_eq_returned hx
  have hall := Decoder.afterAll_correspond (ws.abs.receive (fs.flatMap Frame.encode)) none fs
  have htrace : (ws.abs.receive (fs.flatMap Frame.encode)).trace = [] := h.trace
  rw [← hwx, htrace] at hall
  exact ⟨w, hw, hall⟩

/-- **Pings and pongs.** Over every stream that the indices have room for, the frames that are sent
are the pongs of the pings, and the callbacks that are set are told the payloads of the pings and of
the pongs. -/
theorem pings_answered {ws : WebSocketConnection} (h : ws.Fresh) (hl : ws.Listening)
    (hsmall : ws.Small 4) (hinput : ws.inputBuffer.readable = [])
    (httpParserExecute : Machine.WebSocketConnection → Bytes → ℕ × Machine.WebSocketConnection)
    {fs : List Frame} (hf : Frame.Legal none fs) {chunks : List Bytes} (hne : ∀ b ∈ chunks, b ≠ [])
    (hchunks : chunks.flatten = fs.flatMap Frame.encode) (hroom : ws.RoomFor chunks) :
    ∃ m, ws.machine.feed httpParserExecute chunks = .returned m ∧
      sends m.trace = (Frame.payloads .ping fs).map pongFrame ∧
      pings m.trace = (if ws.pingCallback_.isSome then Frame.payloads .ping fs else []) ∧
      pongs m.trace = if ws.pongCallback_.isSome then Frame.payloads .pong fs else [] := by
  have hpast : ws.status_ ≠ .INITIAL := by
    rw [h.status]
    exact nofun
  obtain ⟨w, hw, hall⟩ := feed_answered h hl hinput (fun ws _ => (0, ws)) hf hne hchunks
  exact ⟨w.machine, hsmall.feed_returned (fun ws _ => (0, ws)) httpParserExecute hl.modest hpast hroom hw,
    hall⟩

/-- A masked ping between the fragments of a message, a pong and an empty ping, in two reads. -/
theorem pings_answered_fragments :
    let chunks : List Bytes := [
      [0x01, 0x01, 0x61, 0x89, 0x82, 1, 2, 3],
      [4, 0x71, 0x73, 0x80, 0x00, 0x8a, 0x01, 0x72, 0x89, 0x00]]
    ∃ m, (connected none (some fun _ => []) (some fun _ => [])).machine.feed (fun ws _ => (0, ws))
        chunks = .returned m ∧
      sends m.trace = [[0x8a, 0x02, 0x70, 0x71], [0x8a, 0x00]] ∧ pings m.trace = [[0x70, 0x71], []] ∧
      pongs m.trace = [[0x72]] := by
  intro chunks
  let fs : List Frame := [
    ⟨false, .text, none, .short, [0x61], by simp, by decide, by decide⟩,
    ⟨true, .ping, some [1, 2, 3, 4], .short, [0x70, 0x71], by simp, by decide, by decide⟩,
    ⟨true, .continuation, none, .short, [], by simp, by decide, by decide⟩,
    ⟨true, .pong, none, .short, [0x72], by simp, by decide, by decide⟩,
    ⟨true, .ping, none, .short, [], by simp, by decide, by decide⟩]
  have hl : (connected none (some fun _ => []) (some fun _ => [])).Listening := by
    refine ⟨nofun, ?_, ?_⟩
    · rintro answer ⟨⟩ trace
      rfl
    · rintro answer ⟨⟩ trace
      rfl
  have hchunks : chunks.flatten = fs.flatMap Frame.encode := by decide +kernel
  have hroom : (connected none (some fun _ => []) (some fun _ => [])).HasRoom chunks.flatten.length :=
    connected_hasRoom _ _ _ (by decide)
  exact pings_answered (connected_fresh _ _ _) hl (connected_small _ _ _) (Buffer.readable_ofSize _) _
    (show Frame.Legal none fs by decide) (show ∀ b ∈ chunks, b ≠ [] by decide) hchunks hroom.roomFor

/-- An unmasked binary message of `2^31` zeros. -/
def zeros : Frame where
  isFin := true
  kind := .binary
  mask := none
  form := .long
  payload := List.replicate (2 ^ 31) 0
  mask_length := no_key
  fits := by
    rw [List.length_replicate]
    exact Nat.pow_lt_pow_right (by decide) (by decide)
  control := nofun

theorem length_zeros : zeros.payload.length = 2 ^ 31 := List.length_replicate

theorem encodeHeader_zeros : zeros.encodeHeader = [0x82, 0x7f, 0, 0, 0, 0, 0x80, 0, 0, 0] := by
  unfold Frame.encodeHeader Frame.second
  rw [length_zeros]
  decide

/-- A read of 512 zeros. -/
def zeroRead : Bytes := List.replicate 512 0

theorem length_zeroRead : zeroRead.length = 512 := List.length_replicate

theorem zeroRead_ne_nil : zeroRead ≠ [] := List.cons_ne_nil _ _

theorem flatten_zeroRead (n : ℕ) :
    (List.replicate n zeroRead).flatten ++ zeroRead = List.replicate ((n + 1) * 512) 0 := by
  unfold zeroRead
  rw [List.flatten_replicate_replicate, List.replicate_append_replicate, Nat.add_mul, Nat.one_mul]

theorem unmask_zeros : zeros.header.unmask zeros.payload = List.replicate (2 ^ 31) 0 := by
  have hmask : zeros.header.mask = none := rfl
  unfold Header.unmask
  rw [hmask]
  unfold zeros
  with_reducible rfl

theorem flatten_zeros : (List.replicate (2 ^ 22 - 1) zeroRead).flatten ++ zeroRead =
    zeros.header.unmask zeros.payload := by
  have hsize : (2 ^ 22 - 1 + 1) * 512 = 2 ^ 31 := by decide
  rw [flatten_zeroRead, hsize, unmask_zeros]

theorem encode_zeros : zeros.encode = [0x82, 0x7f, 0, 0, 0, 0, 0x80, 0, 0, 0] ++
    ((List.replicate (2 ^ 22 - 1) zeroRead).flatten ++ zeroRead) := by
  rw [flatten_zeros, ← encodeHeader_zeros, Frame.encode]

/-- The header and all of the payload but its last read stay within the range. -/
theorem length_zeros_read :
    (zeros.encodeHeader :: List.replicate (2 ^ 22 - 1) zeroRead).flatten.length < 2 ^ 31 := by
  have hall := congrArg List.length flatten_zeros
  rw [Header.length_unmask, length_zeros, List.length_append, length_zeroRead] at hall
  have hheader : zeros.encodeHeader.length = 10 := congrArg List.length encodeHeader_zeros
  have hlt (n : ℕ) (hn : n + 512 = 2 ^ 31) : 10 + n < 2 ^ 31 := by omega
  rw [List.flatten_cons, List.length_append, hheader]
  exact hlt _ hall

/-- The frame in reads of 512 bytes, and then an empty ping: the connection is aborted with the last
read of the payload, and the ping is not answered. -/
theorem not_pings_answered_zeros :
    let ping : Frame := ⟨true, .ping, none, .short, [], by simp, by decide, by decide⟩
    let chunks : List Bytes := [0x82, 0x7f, 0, 0, 0, 0, 0x80, 0, 0, 0] ::
      List.replicate (2 ^ 22 - 1) zeroRead ++ [zeroRead, [0x89, 0x00]]
    Frame.Legal none [zeros, ping] ∧ (∀ b ∈ chunks, b ≠ []) ∧
      chunks.flatten = [zeros, ping].flatMap Frame.encode ∧
      Frame.payloads .ping [zeros, ping] = [[]] ∧
      (∃ m, (connected none none none).machine.feed (fun ws _ => (0, ws)) chunks = .aborted m ∧
        sends m.trace = []) ∧
      ¬ ∃ m, (connected none none none).machine.feed (fun ws _ => (0, ws)) chunks = .returned m ∧
        sends m.trace = (Frame.payloads .ping [zeros, ping]).map pongFrame ∧
        pings m.trace = [] ∧ pongs m.trace = [] := by
  intro ping chunks
  have hl : (connected none none none).Listening := ⟨nofun, nofun, nofun⟩
  have hroom := (connected_hasRoom none none none length_zeros_read).roomFor
  obtain ⟨m, haborted, htrace⟩ := (connected_small none none none).feed_aborted
    (connected_fresh _ _ _) hl (Buffer.readable_ofSize _) length_zeros flatten_zeros zeroRead_ne_nil
    (length_zeroRead.trans_le (by decide)) hroom (fun ws _ => (0, ws)) [[0x89, 0x00]]
  rw [encodeHeader_zeros] at haborted
  have hpayloads : Frame.payloads .ping [zeros, ping] = [[]] := by
    simp only [Frame.payloads_cons]
    rfl
  refine ⟨⟨rfl, trivial, trivial⟩, ?_, ?_, hpayloads, ⟨m, haborted, by rw [htrace]; rfl⟩, ?_⟩
  · intro b hb
    rcases List.mem_append.mp hb with hb | hb
    · rcases List.mem_cons.mp hb with rfl | hb
      · exact List.cons_ne_nil _ _
      · rw [List.eq_of_mem_replicate hb]
        exact zeroRead_ne_nil
    · rcases List.mem_pair.mp hb with rfl | rfl
      · exact zeroRead_ne_nil
      · exact List.cons_ne_nil _ _
  · have hping : ping.encode = [0x89, 0x00] := by decide
    rw [List.flatMap_cons, List.flatMap_singleton, hping, encode_zeros, List.flatten_append,
      List.flatten_cons, List.flatten_cons, List.flatten_singleton]
    simp only [List.append_assoc]
  · rintro ⟨m', hm, -⟩
    cases haborted.symm.trans hm

end WebSocketConnection
end WsEngine
