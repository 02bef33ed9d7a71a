import WsEngine.Http.Zones

/-! # The names that the parser knows

While a name is read, `header_state` and `index` say how much of which word it has been so far
(`Spells`). So the value is read as that of a connection, of a length, of a coding or of an upgrade
exactly if the whole name is such a word, in any case (`headerOf_named`). -/
set_option autoImplicit false

namespace WsEngine
namespace Http

/-- A header state as the value takes it: where no word is complete, it is a general one. -/
def HeaderState.meaning : HeaderState → HeaderState
  | .h_connection => .h_connection
  | .h_content_length => .h_content_length
  | .h_transfer_encoding => .h_transfer_encoding
  | .h_upgrade => .h_upgrade
  | _ => .h_general

/-- What a name means. -/
def headerOf (name : Bytes) : HeaderState :=
  let word := name.map TOKEN
  if word = CONNECTION ∨ word = PROXY_CONNECTION then .h_connection
  else if word = CONTENT_LENGTH then .h_content_length
  else if word = TRANSFER_ENCODING then .h_transfer_encoding
  else if word = UPGRADE then .h_upgrade
  else .h_general

/-- Token characters of a name, one after another. -/
def fieldChars (p : Parser) : Bytes → Option Parser
  | [] => some p
  | c :: word => (fieldChar p c).bind fun q => fieldChars q word

/-- The parser behind the first character of a name. -/
def Parser.naming (p : Parser) (c : UInt8) : Parser := { p with
  index := 0
  header_state := headerStateOfLetter c }

/-! ## What is spelled -/

/-- The word up to the `index`, which is not the last one. -/
def Begun (word s : Bytes) (index : ℕ) : Prop := index + 1 < word.length ∧ s = word.take (index + 1)

/-- What the name has been so far. -/
def Spells (s : Bytes) (header_state : HeaderState) (index : ℕ) : Prop :=
  match header_state with
  | .h_C => s = ascii "c" ∧ index = 0
  | .h_CO => s = ascii "co" ∧ index = 1
  | .h_CON => s = ascii "con" ∧ index = 2
  | .h_matching_connection => Begun CONNECTION s index
  | .h_matching_proxy_connection => Begun PROXY_CONNECTION s index
  | .h_matching_content_length => Begun CONTENT_LENGTH s index
  | .h_matching_transfer_encoding => Begun TRANSFER_ENCODING s index
  | .h_matching_upgrade => Begun UPGRADE s index
  | .h_connection => s = CONNECTION ∨ s = PROXY_CONNECTION
  | .h_content_length => s = CONTENT_LENGTH
  | .h_transfer_encoding => s = TRANSFER_ENCODING
  | .h_upgrade => s = UPGRADE
  | _ => True

/-- Another character of a word. -/
theorem Begun.next {word s : Bytes} {index : ℕ} {c : UInt8} (h : Begun word s index)
    (hc : c = word.getD (index + 1) 0) : s ++ [c] = word.take (index + 2) := by
  obtain ⟨hlt, rfl⟩ := h
  rw [hc, List.take_add_one (i := index + 1), List.getD_eq_getElem?_getD,
    List.getElem?_eq_getElem hlt]
  rfl

theorem spells_matchWord {word s : Bytes} {index : ℕ} {c : UInt8} {ends goes : HeaderState}
    (hgoes : ∀ s index, Begun word s index → Spells s goes index)
    (hends : ∀ index, Spells word ends index) (h : Begun word s index) :
    Spells (s ++ [c]) (matchWord word (index + 1) c .h_general ends goes) (index + 1) := by
  have hlt := h.1
  unfold matchWord
  split
  · trivial
  · next hmatches =>
    rw [not_or, not_not] at hmatches
    have hnext := h.next hmatches.2
    split
    · next hlast =>
      rw [hnext, List.take_of_length_le (by omega)]
      exact hends _
    · next hlast => exact hgoes _ _ ⟨by omega, hnext⟩

theorem Spells.fieldChar {s : Bytes} {p q : Parser} {c : UInt8}
    (h : Spells s p.header_state p.index) (hq : fieldChar p c = some q) :
    Spells (s ++ [c]) q.header_state q.index := by
  unfold Http.fieldChar at hq
  dsimp only at hq
  cases hp : p.header_state <;> simp only [hp] at h hq <;> cases hq
  case h_general =>
    rw [hp]
    trivial
  case h_C =>
    obtain ⟨rfl, hi⟩ := h
    dsimp only
    split
    · next hc =>
      subst hc
      rw [hi]
      exact ⟨by decide, rfl⟩
    · trivial
  case h_CO =>
    obtain ⟨rfl, hi⟩ := h
    dsimp only
    split
    · next hc =>
      subst hc
      rw [hi]
      exact ⟨by decide, rfl⟩
    · trivial
  case h_CON =>
    obtain ⟨rfl, hi⟩ := h
    dsimp only
    rw [hi]
    split_ifs with hn ht
    · subst hn
      exact ⟨by decide, by decide⟩
    · subst ht
      exact ⟨by decide, by decide⟩
    · trivial
  case h_matching_connection =>
    exact spells_matchWord (fun _ _ => id) (fun _ => .inl rfl) h
  case h_matching_proxy_connection =>
    exact spells_matchWord (fun _ _ => id) (fun _ => .inr rfl) h
  case h_matching_content_length => exact spells_matchWord (fun _ _ => id) (fun _ => rfl) h
  case h_matching_transfer_encoding => exact spells_matchWord (fun _ _ => id) (fun _ => rfl) h
  case h_matching_upgrade => exact spells_matchWord (fun _ _ => id) (fun _ => rfl) h
  case h_connection | h_content_length | h_transfer_encoding | h_upgrade => trivial

theorem Spells.fieldChars {s word : Bytes} {p q : Parser} (h : Spells s p.header_state p.index)
    (hq : fieldChars p word = some q) : Spells (s ++ word) q.header_state q.index := by
  induction word generalizing s p with
  | nil =>
    cases hq
    rwa [List.append_nil]
  | cons c word ih =>
    obtain ⟨next, hnext, hrest⟩ := Option.bind_eq_some_iff.mp hq
    have hword := ih (h.fieldChar hnext) hrest
    rwa [List.append_assoc] at hword

theorem spells_letter (c : UInt8) : Spells [c] (headerStateOfLetter c) 0 := by
  unfold headerStateOfLetter
  split_ifs with hc hp ht hu
  · subst hc
    exact ⟨by decide, rfl⟩
  · subst hp
    exact ⟨by decide, by decide⟩
  · subst ht
    exact ⟨by decide, by decide⟩
  · subst hu
    exact ⟨by decide, by decide⟩
  · trivial

/-! ## What is recognized -/

/-- Only `header_state` and `index` tell where the name is. -/
theorem fieldChar_some {p : Parser} (h : Naming p.header_state) (c : UInt8) :
    ∃ q, fieldChar p c = some q ∧ Naming q.header_state ∧
      q = { p with
        index := q.index
        header_state := q.header_state } := by
  obtain ⟨flags, state, header_state, index, nread, content_length, http_major, http_minor, method,
    http_errno, upgrade⟩ := p
  cases header_state <;> first
    | exact ⟨_, rfl, naming_matchWord trivial trivial trivial, rfl⟩
    | exact ⟨_, rfl, trivial, rfl⟩
    | (refine ⟨_, rfl, ?_, rfl⟩
       dsimp only
       split_ifs <;> trivial)
    | exact h.elim

theorem fieldChars_some {p : Parser} (h : Naming p.header_state) (word : Bytes) :
    ∃ q, fieldChars p word = some q ∧ Naming q.header_state ∧
      q = { p with
        index := q.index
        header_state := q.header_state } := by
  induction word generalizing p with
  | nil => exact ⟨p, rfl, h, rfl⟩
  | cons c word ih =>
    obtain ⟨next, hnext, hnaming, hsame⟩ := fieldChar_some h c
    obtain ⟨q, hq, hqnaming, hqsame⟩ := ih hnaming
    refine ⟨q, Option.bind_eq_some_iff.mpr ⟨next, hnext, hq⟩, hqnaming, ?_⟩
    rw [hqsame, hsame]

/-- A word that is complete, by the state it ends in. -/
theorem spells_meaning {s : Bytes} {header_state : HeaderState} {index : ℕ}
    (h : Spells s header_state index) (hne : header_state.meaning ≠ .h_general) :
    s ∈ [CONNECTION, PROXY_CONNECTION, CONTENT_LENGTH, TRANSFER_ENCODING, UPGRADE] := by
  cases header_state <;> first
    | exact absurd rfl hne
    | (rcases h with h | h <;> simp [h])
    | (rw [h]; simp)

/-- What a name means is what the parser takes it for at the colon. -/
theorem headerOf_named (p : Parser) (ch : UInt8) (rest : Bytes) :
    ∃ q, fieldChars (p.naming (TOKEN ch)) (rest.map TOKEN) = some q ∧ Naming q.header_state ∧
      q = { p with
        index := q.index
        header_state := q.header_state } ∧
      q.header_state.meaning = headerOf (ch :: rest) := by
  obtain ⟨q, hq, hnaming, hsame⟩ :=
    fieldChars_some (p := p.naming (TOKEN ch)) (naming_ofLetter _) (rest.map TOKEN)
  refine ⟨q, hq, hnaming, hsame, ?_⟩
  have hspells := Spells.fieldChars (spells_letter (TOKEN ch)) hq
  have hword {word tail : Bytes} {c : UInt8} {ends : HeaderState} (hcons : word = c :: tail)
      (hends : (fieldChars (p.naming c) tail).map Parser.header_state = some ends)
      (h : (ch :: rest).map TOKEN = word) : q.header_state = ends := by
    rw [hcons, List.map_cons] at h
    obtain ⟨hc, htail⟩ := List.cons.inj h
    rw [← hc, ← htail, hq] at hends
    exact Option.some.inj hends
  unfold headerOf
  dsimp only
  split_ifs with hconnection hlength hcoding hupgrade
  · rcases hconnection with h | h
    · rw [hword rfl rfl h]
      rfl
    · rw [hword rfl rfl h]
      rfl
  · rw [hword rfl rfl hlength]
    rfl
  · rw [hword rfl rfl hcoding]
    rfl
  · rw [hword rfl rfl hupgrade]
    rfl
  · by_contra hne
    have hmem := spells_meaning hspells hne
    simp only [List.mem_cons, List.not_mem_nil, or_false] at hmem
    rw [not_or] at hconnection
    rcases hmem with h | h | h | h | h
    · exact hconnection.1 h
    · exact hconnection.2 h
    · exact hlength h
    · exact hcoding h
    · exact hupgrade h

end Http
end WsEngine
