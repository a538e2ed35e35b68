/-
The handshake of a STUN ping.

A connection of the port P pings a candidate of the port Q: the user name of the
request is Q's fragment and then P's, and the response carries it back.  Q looks
for its fragment at the front of a request, P for its own at the end of a
response (`getStunMessage_request_of_front`, `getStunMessage_response_of_end`).

The lengths of a user name and of a message are 16 bits, so **`ping_handshake`**
holds as long as the response fits, up to 65516 bytes of user name;
**`long_response_dropped`** is what happens above.
-/
import Jingle.P2p.Connection
import Jingle.Relay.Wire
import Jingle.Stun.Request

namespace Jingle.P2p

open StunMessage StunAttribute

/-! ### What is returned to the caller -/

/-- **A message that is returned** is the whole packet, and has the port's fragment
at the front of a request's user name or at the end of a response's. -/
theorem getStunMessage_message {usernameFrag data remoteUsername : List Byte} {msg : StunMessage}
    (h : getStunMessage usernameFrag data = .message msg remoteUsername) :
    StunMessage.new.read data = .ok (msg, []) ∧
      ((msg.type = StunMessageType.bindingRequest.code ∧
          msg.getByteString .username = some (usernameFrag ++ remoteUsername)) ∨
        ((msg.type = StunMessageType.bindingResponse.code ∨
            msg.type = StunMessageType.bindingErrorResponse.code) ∧
          msg.getByteString .username = some (remoteUsername ++ usernameFrag))) := by
  by_cases ht : msg.type = StunMessageType.bindingRequest.code
  · obtain ⟨hread, hu⟩ := getStunMessage_request h ht
    exact ⟨hread, .inl ⟨ht, hu⟩⟩
  · rw [getStunMessage] at h
    rcases hread : StunMessage.new.read data with e | ⟨m, rest⟩
    · simp [hread] at h
    · rcases hu : m.getByteString .username with _ | username
      · simp only [hread, hu] at h
        split at h <;> cases h
      · simp only [hread, hu] at h
        split_ifs at h with h₁ h₂ h₃ h₄ h₅ h₆ h₇ h₈ <;> cases h
        · exact absurd h₂ ht
        · refine ⟨by rw [not_not.1 h₁], .inr ⟨h₅, ?_⟩⟩
          have hend := not_not.1 h₇
          have hall := List.take_append_drop (username.length - usernameFrag.length) username
          rw [hend] at hall
          rw [hu, hall]

theorem getStunMessage_request_of_front {usernameFrag remoteUsername data : List Byte}
    {msg : StunMessage} (hread : StunMessage.new.read data = .ok (msg, []))
    (ht : msg.type = StunMessageType.bindingRequest.code)
    (hu : msg.getByteString .username = some (usernameFrag ++ remoteUsername)) :
    getStunMessage usernameFrag data = .message msg remoteUsername := by
  have hlen : ¬ (usernameFrag ++ remoteUsername).length < usernameFrag.length := by
    rw [List.length_append]
    omega
  rw [getStunMessage, hread]
  simp only [hu]
  rw [if_neg (by simp), if_pos ht, if_neg hlen, List.take_left, if_neg (by simp), List.drop_left]

theorem getStunMessage_response_of_end {usernameFrag remoteUsername data : List Byte}
    {msg : StunMessage} (hread : StunMessage.new.read data = .ok (msg, []))
    (ht : msg.type = StunMessageType.bindingResponse.code)
    (hu : msg.getByteString .username = some (remoteUsername ++ usernameFrag)) :
    getStunMessage usernameFrag data = .message msg remoteUsername := by
  have hlen : ¬ (remoteUsername ++ usernameFrag).length < usernameFrag.length := by
    rw [List.length_append]
    omega
  have hrem : (remoteUsername ++ usernameFrag).length - usernameFrag.length =
      remoteUsername.length := by
    rw [List.length_append]
    omega
  rw [getStunMessage, hread]
  simp only [hu]
  rw [if_neg (by simp), if_neg (by rw [ht]; decide), if_pos (.inl ht), if_neg hlen, hrem,
    List.drop_left, if_neg (by simp), if_neg (by rw [ht]; exact fun h => absurd h.1 (by decide)),
    List.take_left]

/-! ### The two messages on the wire -/

variable {p q id : List Byte}

/-- The bounds on a user name: whole words, and a request that fits. -/
structure NameFits (name : List Byte) : Prop where
  words : name.length % 4 = 0
  le : name.length ≤ 65528

/-- The longest user name whose response fits. -/
def maxUsername : ℕ := 65516

theorem NameFits.attr {name : List Byte} (h : NameFits name) :
    byteStringAttr .username name =
      { type := .username, length := BitVec.ofNat 16 name.length, body := .byteString name } :=
  byteStringAttr_eq rfl (by have := h.le; omega)

theorem NameFits.documented {name : List Byte} (h : NameFits name) :
    (byteStringAttr .username name).Documented := by
  rw [h.attr]
  refine ⟨?_, trivial⟩
  show BitVec.ofNat 16 name.length % 4 = 0
  have hle := h.le
  have hw := h.words
  have hnat : (BitVec.ofNat 16 name.length).toNat = name.length := by
    rw [BitVec.toNat_ofNat, Nat.mod_eq_of_lt (by omega)]
  apply BitVec.eq_of_toNat_eq
  show (BitVec.ofNat 16 name.length).toNat % 4 = 0
  rw [hnat]
  exact hw

theorem length_writeBody_username {name : List Byte} (h : name.length < 2 ^ 16) :
    (byteStringAttr .username name).writeBody.length = name.length := by
  rw [byteStringAttr_eq rfl h]
  show (name.take (BitVec.ofNat 16 name.length).toNat).length = name.length
  rw [BitVec.toNat_ofNat, Nat.mod_eq_of_lt h, List.take_length]

theorem bindingRequest_built (hid : id.length = kStunTransactionIdLength) :
    (bindingRequest id q p).Built :=
  .addAttribute (.setType _ (.setTransactionID .new (by rw [isValidTransactionId, hid]; rfl)))
    (byteStringAttr_built _ _)

theorem read_bindingRequest (hid : id.length = kStunTransactionIdLength)
    (hn : NameFits (q ++ p)) :
    StunMessage.new.read (bindingRequest id q p).write = .ok (bindingRequest id q p, []) := by
  have hbody : (bindingRequest id q p).bodyLength < 2 ^ 16 := by
    have hle := hn.le
    show ((([] : List StunAttribute) ++ [byteStringAttr .username (q ++ p)]).map
      fun a => 4 + a.writeBody.length).sum < 2 ^ 16
    rw [List.nil_append, List.map_singleton, List.sum_singleton,
      length_writeBody_username (by omega)]
    omega
  have hd : ∀ a ∈ (bindingRequest id q p).attrs, a.Documented := by
    intro a ha
    rw [List.mem_singleton.mp ha]
    exact hn.documented
  have h := read_write_built (bindingRequest_built hid)
    (show StunMessageType.bindingRequest.code < 0x8000 by decide) (.inl hid) hd hbody
    StunMessage.new []
  rwa [List.append_nil] at h

theorem getByteString_bindingRequest (hn : NameFits (q ++ p)) :
    (bindingRequest id q p).getByteString .username = some (q ++ p) := by
  rw [bindingRequest, hn.attr]
  rfl

theorem bindingResponse_built {request : StunMessage} {name : List Byte}
    (hid : request.transactionId.length = kStunTransactionIdLength) (addr : SocketAddress) :
    (bindingResponse request name addr).Built :=
  .addAttribute (.addAttribute (.setTransactionID (.setType _ .new)
    (by rw [isValidTransactionId, hid]; rfl)) (byteStringAttr_built _ _))
    (addressAttr_built _ _)

theorem bodyLength_bindingResponse {request : StunMessage} {name : List Byte}
    (h : name.length < 2 ^ 16) (addr : SocketAddress) :
    (bindingResponse request name addr).bodyLength = 16 + name.length := by
  show ([byteStringAttr .username name,
    addressAttr .mappedAddress { ip := addr.ip, port := addr.port }].map
      fun a => 4 + a.writeBody.length).sum = 16 + name.length
  rw [List.map_cons, List.map_singleton, List.sum_cons, List.sum_singleton,
    length_writeBody_username h, addressAttr_eq rfl]
  show 4 + name.length + (4 + 8) = 16 + name.length
  omega

theorem read_bindingResponse {request : StunMessage} {name : List Byte}
    (hid : request.transactionId.length = kStunTransactionIdLength) (hn : NameFits name)
    (hmax : name.length ≤ maxUsername) (addr : SocketAddress) :
    StunMessage.new.read (bindingResponse request name addr).write =
      .ok (bindingResponse request name addr, []) := by
  have hle : name.length ≤ 65516 := hmax
  have hbody : (bindingResponse request name addr).bodyLength < 2 ^ 16 := by
    rw [bodyLength_bindingResponse (by omega)]
    omega
  have hd : ∀ a ∈ (bindingResponse request name addr).attrs, a.Documented := by
    intro a ha
    rcases List.mem_cons.mp ha with rfl | ha
    · exact hn.documented
    · rw [List.mem_singleton.mp ha]
      exact ⟨trivial, trivial⟩
  have h := read_write_built (bindingResponse_built hid addr)
    (show StunMessageType.bindingResponse.code < 0x8000 by decide) (.inl hid) hd hbody StunMessage.new []
  rwa [List.append_nil] at h

theorem getByteString_bindingResponse {request : StunMessage} {name : List Byte}
    (hn : NameFits name) (addr : SocketAddress) :
    (bindingResponse request name addr).getByteString .username = some name := by
  rw [bindingResponse, hn.attr]
  rfl

/-! ### The handshake -/

/-- A response is matched to the pending request with this id, and to no other. -/
structure MatchedBy (response : StunMessage) (id : List Byte) : Prop where
  pending : ∀ (m : Stun.StunRequestManager) (i : ℕ) (ops : List Stun.Op), m.find id = some i →
    (m.request i).type = StunMessageType.bindingRequest.code →
      m.checkResponse response ops = (true, ((m.record i .response).performAll ops).delete i)
  absent : ∀ (m : Stun.StunRequestManager) (ops : List Stun.Op), m.find id = none →
    m.checkResponse response ops = (false, m)

theorem bindingResponse_matchedBy {request : StunMessage} (name : List Byte)
    (addr : SocketAddress) :
    MatchedBy (bindingResponse request name addr) request.transactionId where
  pending := by
    intro m i ops hf ht
    have hid : (bindingResponse request name addr).transactionId = request.transactionId := rfl
    have htype : (bindingResponse request name addr).type =
        (getStunResponseType StunMessageType.bindingRequest.code).code := rfl
    rw [Stun.StunRequestManager.checkResponse, hid, hf]
    simp only
    rw [ht, htype, if_pos rfl]
  absent := by
    intro m ops hf
    have hid : (bindingResponse request name addr).transactionId = request.transactionId := rfl
    rw [Stun.StunRequestManager.checkResponse, hid, hf]

theorem onReadPacket_request {usernameFrag data username : List Byte} {request : StunMessage}
    (d : Connection) (now : Word)
    (h : getStunMessage usernameFrag data = .message request d.remoteCandidate.username)
    (ht : request.type = StunMessageType.bindingRequest.code)
    (hu : request.getByteString .username = some username) :
    (d.onReadPacket usernameFrag data now).reply =
      some (bindingResponse request username d.remoteCandidate.address) := by
  rw [Connection.onReadPacket, h]
  simp only
  rw [if_neg (by simp), if_pos ht, Connection.sendBindingResponse, hu]

theorem onReadPacket_response {usernameFrag data : List Byte} {response : StunMessage}
    (c : Connection) (now : Word)
    (h : getStunMessage usernameFrag data = .message response c.remoteCandidate.username)
    (ht : response.type = StunMessageType.bindingResponse.code) :
    c.onReadPacket usernameFrag data now =
      { conn :=
          match c.requests.find? fun request => request.id = response.transactionId with
          | none => c
          | some request => (c.onConnectionRequestResponse request now).remove request.id
        reply := none
        data := none } := by
  have htype : response.type =
      (getStunResponseType StunMessageType.bindingRequest.code).code := ht
  rw [Connection.onReadPacket, h]
  simp only
  rw [if_neg (by simp), if_neg (by rw [ht]; decide), Connection.checkResponse]
  cases c.requests.find? fun request => request.id = response.transactionId with
  | none => rfl
  | some request =>
    simp only
    rw [if_pos htype]

/-- **The handshake of a ping.**  The request of a connection of P to a candidate of
Q is accepted by Q with P's fragment, and answered; the answer is accepted by P with
Q's fragment and matched to the request by its id.  No port ever returns a message
that has the wrong fragment in its user name or is not the whole packet. -/
theorem ping_handshake (p q id : List Byte) (hid : id.length = kStunTransactionIdLength)
    (hwords : (p.length + q.length) % 4 = 0) (hle : p.length + q.length ≤ maxUsername) :
    (getStunMessage q (bindingRequest id q p).write = .message (bindingRequest id q p) p ∧
      (∀ (d : Connection) now, d.remoteCandidate.username = p →
        (d.onReadPacket q (bindingRequest id q p).write now).reply =
          some (bindingResponse (bindingRequest id q p) (q ++ p) d.remoteCandidate.address)) ∧
      ∀ addr, ∃ response, response = bindingResponse (bindingRequest id q p) (q ++ p) addr ∧
        getStunMessage p response.write = .message response q ∧ MatchedBy response id ∧
        ∀ (c : Connection) now, c.remoteCandidate.username = q →
          c.onReadPacket p response.write now =
            { conn :=
                match c.requests.find? fun request => request.id = id with
                | none => c
                | some request => (c.onConnectionRequestResponse request now).remove request.id
              reply := none
              data := none }) ∧
    ∀ usernameFrag data msg remoteUsername,
      getStunMessage usernameFrag data = .message msg remoteUsername →
        StunMessage.new.read data = .ok (msg, []) ∧
        ((msg.type = StunMessageType.bindingRequest.code ∧
            msg.getByteString .username = some (usernameFrag ++ remoteUsername)) ∨
          ((msg.type = StunMessageType.bindingResponse.code ∨
              msg.type = StunMessageType.bindingErrorResponse.code) ∧
            msg.getByteString .username = some (remoteUsername ++ usernameFrag))) := by
  have hmax : (q ++ p).length ≤ maxUsername := by
    rw [List.length_append]
    omega
  have hn : NameFits (q ++ p) := by
    refine ⟨?_, hmax.trans (by decide)⟩
    rw [List.length_append]
    omega
  have hrequest : getStunMessage q (bindingRequest id q p).write =
      .message (bindingRequest id q p) p :=
    getStunMessage_request_of_front (read_bindingRequest hid hn) rfl
      (getByteString_bindingRequest hn)
  refine ⟨⟨hrequest, fun d now hd => ?_, fun addr => ⟨_, rfl, ?_⟩⟩,
    fun usernameFrag data msg remoteUsername => getStunMessage_message⟩
  · exact onReadPacket_request d now (by rw [hd]; exact hrequest) rfl
      (getByteString_bindingRequest hn)
  · have hresponse : getStunMessage p
        (bindingResponse (bindingRequest id q p) (q ++ p) addr).write =
          .message (bindingResponse (bindingRequest id q p) (q ++ p) addr) q :=
      getStunMessage_response_of_end (read_bindingResponse hid hn hmax addr) rfl
        (getByteString_bindingResponse hn addr)
    refine ⟨hresponse, bindingResponse_matchedBy _ _, fun c now hc => ?_⟩
    exact onReadPacket_response c now (by rw [hc]; exact hresponse) rfl

/-- Two fragments of the example, and an id. -/
def fragP : List Byte := List.replicate 16 0x61
def fragQ : List Byte := List.replicate 16 0x62
def pingId : List Byte := List.replicate 12 7

theorem ping_handshake_example :
    (getStunMessage fragQ (bindingRequest pingId fragQ fragP).write =
        .message (bindingRequest pingId fragQ fragP) fragP ∧
      (∀ (d : Connection) now, d.remoteCandidate.username = fragP →
        (d.onReadPacket fragQ (bindingRequest pingId fragQ fragP).write now).reply =
          some (bindingResponse (bindingRequest pingId fragQ fragP) (fragQ ++ fragP)
            d.remoteCandidate.address)) ∧
      ∀ addr, ∃ response,
        response = bindingResponse (bindingRequest pingId fragQ fragP) (fragQ ++ fragP) addr ∧
        getStunMessage fragP response.write = .message response fragQ ∧
        MatchedBy response pingId ∧
        ∀ (c : Connection) now, c.remoteCandidate.username = fragQ →
          c.onReadPacket fragP response.write now =
            { conn :=
                match c.requests.find? fun request => request.id = pingId with
                | none => c
                | some request => (c.onConnectionRequestResponse request now).remove request.id
              reply := none
              data := none }) ∧
    ∀ usernameFrag data msg remoteUsername,
      getStunMessage usernameFrag data = .message msg remoteUsername →
        StunMessage.new.read data = .ok (msg, []) ∧
        ((msg.type = StunMessageType.bindingRequest.code ∧
            msg.getByteString .username = some (usernameFrag ++ remoteUsername)) ∨
          ((msg.type = StunMessageType.bindingResponse.code ∨
              msg.type = StunMessageType.bindingErrorResponse.code) ∧
            msg.getByteString .username = some (remoteUsername ++ usernameFrag))) :=
  ping_handshake fragP fragQ pingId rfl rfl (by decide)

theorem response_notStun {request : StunMessage} {name : List Byte} (usernameFrag : List Byte)
    (hid : request.transactionId.length = kStunTransactionIdLength)
    (hlen : name.length = maxUsername + 4) (addr : SocketAddress) :
    getStunMessage usernameFrag (bindingResponse request name addr).write = .notStun := by
  have hsmall : name.length < 2 ^ 16 := by
    rw [hlen]
    decide
  have hzero : (bindingResponse request name addr).length = 0 := by
    show (0 : BitVec 16) + ((byteStringAttr .username name).length + 4) +
      ((addressAttr .mappedAddress { ip := addr.ip, port := addr.port }).length + 4) = 0
    rw [byteStringAttr_eq rfl hsmall, addressAttr_eq rfl, hlen]
    show (0 : BitVec 16) + (BitVec.ofNat 16 (maxUsername + 4) + 4) + (8 + 4) = 0
    decide
  have hhead := @read_write_header (bindingResponse request name addr) []
    (show StunMessageType.bindingResponse.code &&& 0x8000 = 0 by decide) (.inl hid) StunMessage.new
  -- no attribute is read, and the attributes are left over
  obtain ⟨b, tail, hbody⟩ : ∃ b tail,
      (bindingResponse request name addr).attrs.flatMap StunAttribute.write = b :: tail :=
    ⟨_, _, rfl⟩
  rw [List.append_nil, List.append_nil, hbody] at hhead
  have hread : StunMessage.new.read (bindingResponse request name addr).write =
      .ok ({ bindingResponse request name addr with attrs := [] }, b :: tail) := by
    have hnat : (0 : BitVec 16).toNat = 0 := rfl
    rw [hhead, StunMessage.readBody]
    simp only [hzero, hnat]
    rw [if_neg (Nat.not_lt_zero _), Nat.sub_zero, List.length_cons, readAttrs,
      if_pos (by rw [List.length_cons])]
    simp
  rw [getStunMessage, hread]
  simp

/-- Two fragments of together 65520 bytes. -/
def longFrag : List Byte := List.replicate 65504 0x62

/-- **A handshake that fails**: the request is accepted and the response is not. -/
theorem long_response_dropped :
    (fragP.length + longFrag.length) % 4 = 0 ∧
    getStunMessage longFrag (bindingRequest pingId longFrag fragP).write =
      .message (bindingRequest pingId longFrag fragP) fragP ∧
    ∀ addr, getStunMessage fragP (bindingResponse (bindingRequest pingId longFrag fragP)
      (longFrag ++ fragP) addr).write = .notStun := by
  have hlong : longFrag.length = 65504 := List.length_replicate ..
  have hlen : (longFrag ++ fragP).length = 65520 := by
    rw [List.length_append, hlong]
    rfl
  have hn : NameFits (longFrag ++ fragP) := ⟨by rw [hlen], by rw [hlen]; decide⟩
  refine ⟨by rw [hlong]; rfl, ?_, fun addr => response_notStun fragP rfl hlen addr⟩
  exact getStunMessage_request_of_front (read_bindingRequest rfl hn) rfl
    (getByteString_bindingRequest hn)

end Jingle.P2p
