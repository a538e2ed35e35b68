/-
The messages between the client and the relay server, as the other side reads
them.

A data indication is unwrapped to the packet and the address it was made from.
A send request is read as a request for its
own destination, with the lock it asks for, or not at all (`sendRequest_sendMessage`):
a user name whose length is no multiple of four makes the message unreadable.
-/
import Jingle.Relay.Effects
import Jingle.Relay.Port
import Jingle.Stun.Consistency

namespace Jingle

open StunMessage StunAttribute

/-! ### Attributes -/

theorem byteStringAttr_built (t : StunAttributeType) (bytes : List Byte) :
    (byteStringAttr t bytes).Built := by
  refine .call (.createNew t) ?_
  show (BitVec.ofNat 16 bytes.length).toNat ≤ bytes.length
  rw [BitVec.toNat_ofNat]
  exact Nat.mod_le _ _

theorem addressAttr_built (t : StunAttributeType) (addr : SocketAddress) :
    (addressAttr t addr).Built :=
  .call (.call (.call (.createNew t) trivial) trivial) trivial

theorem uint32Attr_built (t : StunAttributeType) (value : Word) : (uint32Attr t value).Built :=
  .call (.createNew t) trivial

theorem byteStringAttr_eq {t : StunAttributeType} (ht : t.cls = .byteString) {bytes : List Byte}
    (h : bytes.length < 2 ^ 16) :
    byteStringAttr t bytes =
      { type := t, length := BitVec.ofNat 16 bytes.length, body := .byteString bytes } := by
  have hlen : (BitVec.ofNat 16 bytes.length).toNat = bytes.length := by
    rw [BitVec.toNat_ofNat, Nat.mod_eq_of_lt h]
  simp only [byteStringAttr, createNew, ht, AttrClass.blank, AttrClass.startLength,
    StunAttribute.call, hlen, List.take_length]

theorem addressAttr_eq {t : StunAttributeType} (ht : t.cls = .address) (addr : SocketAddress) :
    addressAttr t addr =
      { type := t, length := 8, body := .address { family := 1, port := addr.port, ip := addr.ip } } := by
  simp only [addressAttr, createNew, ht, AttrClass.blank, AttrClass.startLength,
    StunAttribute.call]

theorem documented_magicCookie : magicCookieAttr.Documented :=
  ⟨show (4 : BitVec 16) % 4 = 0 by decide, trivial⟩

/-! ### Data indications -/

theorem dataIndication_built (bytes : List Byte) (fromAddr : SocketAddress) :
    (dataIndication bytes fromAddr).Built :=
  .addAttribute (.addAttribute (.addAttribute (.setType _ .new) (byteStringAttr_built _ _))
    (addressAttr_built _ _)) (byteStringAttr_built _ _)

/-- The largest payload of a UDP packet. -/
def maxPayload : ℕ := 65507

theorem read_dataIndication {bytes : List Byte} (h : bytes.length ≤ maxPayload)
    (fromAddr : SocketAddress) (m₀ : StunMessage) :
    m₀.read (dataIndication bytes fromAddr).write = .ok (dataIndication bytes fromAddr, []) := by
  have hsmall : bytes.length < 2 ^ 16 := h.trans_lt (by decide)
  have hlen : (dataIndication bytes fromAddr).bodyLength < 2 ^ 16 := by
    have hb : bytes.length ≤ 65507 := h
    simp only [dataIndication, turnMessage, magicCookieAttr,
      byteStringAttr_eq (t := .magicCookie) rfl (show turnMagicCookieValue.length < 2 ^ 16 by decide),
      addressAttr_eq (t := .sourceAddress2) rfl, byteStringAttr_eq (t := .data) rfl hsmall]
    simp [bodyLength, addAttribute, setType, StunMessage.new, writeBody, StunAddress.write,
      turnMagicCookieValue, length_be16, length_be32]
    omega
  have hd : ∀ a ∈ (dataIndication bytes fromAddr).attrs, a.Documented := by
    intro a ha
    simp only [dataIndication, turnMessage, addAttribute, setType, StunMessage.new,
      List.nil_append, List.cons_append, List.mem_cons, List.not_mem_nil, or_false] at ha
    rcases ha with rfl | rfl | rfl
    · exact documented_magicCookie
    · exact ⟨trivial, trivial⟩
    · rw [byteStringAttr_eq (t := .data) rfl hsmall]
      exact ⟨trivial, trivial⟩
  have hread : m₀.read ((dataIndication bytes fromAddr).write ++ []) =
      .ok (dataIndication bytes fromAddr, []) :=
    read_write (show StunMessageType.dataIndication.code &&& 0x8000 = 0 by decide)
      (.inl (List.length_replicate ..)) ((dataIndication_built bytes fromAddr).writable hd hlen)
      ((dataIndication_built bytes fromAddr).length_toNat hlen) m₀
  rwa [List.append_nil] at hread

theorem hasMagicCookie_dataIndication (bytes : List Byte) (fromAddr : SocketAddress) :
    hasMagicCookie (dataIndication bytes fromAddr).write = true := by
  have hwrite : ∃ tail, (dataIndication bytes fromAddr).write =
      be16 StunMessageType.dataIndication.code ++ (be16 (dataIndication bytes fromAddr).length ++
        (kStunMagicCookie ++ (List.replicate 12 0x30 ++ (be16 StunAttributeType.magicCookie.code ++
          (be16 4 ++ (turnMagicCookieValue ++ tail)))))) := by
    refine ⟨((addressAttr .sourceAddress2 fromAddr).write ++ (byteStringAttr .data bytes).write), ?_⟩
    have hcookie : magicCookieAttr.write =
        be16 StunAttributeType.magicCookie.code ++ (be16 4 ++ turnMagicCookieValue) := rfl
    have hattrs : (dataIndication bytes fromAddr).attrs =
        [magicCookieAttr, addressAttr .sourceAddress2 fromAddr, byteStringAttr .data bytes] := rfl
    rw [StunMessage.write, hattrs, List.flatMap_cons, List.flatMap_cons, List.flatMap_cons,
      List.flatMap_nil, hcookie, List.append_nil]
    simp only [List.append_assoc]
    rfl
  obtain ⟨tail, hwrite⟩ := hwrite
  rw [hwrite]
  simp [hasMagicCookie, be16, kStunMagicCookie, turnMagicCookieValue]

namespace Relay

/-- The packet and the address that an entry takes from a data indication. -/
def unwrapped (bytes : List Byte) : Option (List Byte × SocketAddress) :=
  match StunMessage.new.read bytes with
  | .error _ => none
  | .ok (msg, _) =>
    if msg.type = StunMessageType.dataIndication.code then RelayEntry.indicated msg else none

theorem unwrapped_dataIndication {bytes : List Byte} (h : bytes.length ≤ maxPayload)
    (fromAddr : SocketAddress) :
    unwrapped (dataIndication bytes fromAddr).write = some (bytes, fromAddr) := by
  have hsmall : bytes.length < 2 ^ 16 := h.trans_lt (by decide)
  have hattrs : (dataIndication bytes fromAddr).attrs =
      [magicCookieAttr, addressAttr .sourceAddress2 fromAddr, byteStringAttr .data bytes] := rfl
  have htype : (dataIndication bytes fromAddr).type = StunMessageType.dataIndication.code := rfl
  rw [unwrapped, read_dataIndication h]
  simp only [htype, if_true, RelayEntry.indicated, getAddress, getByteString, getAttribute, hattrs,
    addressAttr_eq (t := .sourceAddress2) rfl, byteStringAttr_eq (t := .data) rfl hsmall]
  rfl

/-- **What an entry passes on**: an unwrapped packet with the cookie is taken for a
message, and only a data indication has something to pass on. -/
theorem onReadPacket_passes (e : RelayEntry) (bytes : List Byte) :
    (e.onReadPacket bytes).2 =
      if hasMagicCookie bytes then unwrapped bytes
      else if e.locked then some (bytes, e.extAddr) else none := by
  unfold RelayEntry.onReadPacket unwrapped
  cases hasMagicCookie bytes with
  | false => simp only [Bool.not_false, if_true, Bool.false_eq_true, if_false]; split <;> rfl
  | true =>
    simp only [Bool.not_true, Bool.false_eq_true, if_false, if_true]
    cases StunMessage.new.read bytes with
    | error _ => rfl
    | ok r =>
      obtain ⟨msg, rest⟩ := r
      dsimp only
      by_cases hdata : msg.type = StunMessageType.dataIndication.code
      · -- the type of an indication is no response's
        have hcheck : (e.checkResponse msg).2 = false := by
          unfold RelayEntry.checkResponse
          rw [hdata]
          split
          · rfl
          · rw [if_neg (by decide), if_neg (by decide)]
        have hsend : StunMessageType.dataIndication.code ≠ StunMessageType.sendResponse.code := by
          decide
        rcases hr : e.checkResponse msg with ⟨e', ok⟩
        rw [hr] at hcheck
        obtain rfl : ok = false := hcheck
        simp only [hdata, if_neg hsend, ne_eq, not_true_eq_false, if_false, if_true]
      · rw [if_neg hdata]
        split
        · rfl
        · split
          · split
            · rfl
            · split <;> rfl
          · rfl

/-! ### Send requests -/

theorem sendMessage_built (username id data : List Byte) (addr : SocketAddress) (lock : Bool)
    (hid : id.length = kStunTransactionIdLength) :
    (sendMessage username id data addr lock).Built := by
  have hvalid : isValidTransactionId id := by simp [isValidTransactionId, hid]
  have h : ((((StunMessage.new.setType StunMessageType.sendRequest.code).setTransactionID
      id).addAttribute magicCookieAttr).addAttribute (byteStringAttr .username username)).Built :=
    .addAttribute (.addAttribute (.setTransactionID (.setType _ .new) hvalid)
      (byteStringAttr_built _ _)) (byteStringAttr_built _ _)
  have h := StunMessage.Built.addAttribute h (addressAttr_built .destinationAddress addr)
  cases lock with
  | false => exact .addAttribute h (byteStringAttr_built _ _)
  | true => exact .addAttribute (.addAttribute h (uint32Attr_built _ _)) (byteStringAttr_built _ _)

theorem sendMessage_attrs (username id data : List Byte) (addr : SocketAddress) (lock : Bool) :
    (sendMessage username id data addr lock).attrs =
      [magicCookieAttr] ++ byteStringAttr .username username ::
        addressAttr .destinationAddress addr ::
        ((if lock then [uint32Attr .options 0x1] else []) ++ [byteStringAttr .data data]) := by
  cases lock <;> rfl

theorem sendMessage_type (username id data : List Byte) (addr : SocketAddress) (lock : Bool) :
    (sendMessage username id data addr lock).type = StunMessageType.sendRequest.code := by
  cases lock <;> rfl

theorem sendMessage_transactionId (username id data : List Byte) (addr : SocketAddress)
    (lock : Bool) : (sendMessage username id data addr lock).transactionId = id := by
  cases lock <;> rfl

theorem length_write_message {m : StunMessage}
    (hid : m.transactionId.length = kStunTransactionIdLength) :
    m.write.length = 20 + m.bodyLength := by
  have hleg : m.isLegacy = false := by
    rw [isLegacy, hid]
    rfl
  rw [StunMessage.write, hleg, List.length_append, length_flatMap_write]
  simp only [List.length_append, length_be16, hid, Bool.false_eq_true, if_false, bodyLength]
  rfl

theorem read_sendMessage_refused {username id data : List Byte} {addr : SocketAddress}
    {lock : Bool} (hid : id.length = kStunTransactionIdLength)
    (hlen : (sendMessage username id data addr lock).bodyLength < 2 ^ 16)
    (hname : admits .username (byteStringAttr .username username).length = false)
    (m₀ : StunMessage) :
    ∃ m, m₀.read (sendMessage username id data addr lock).write = .error m := by
  have hb := sendMessage_built username id data addr lock hid
  have htype := sendMessage_type username id data addr lock
  have hids := sendMessage_transactionId username id data addr lock
  have hattrs := sendMessage_attrs username id data addr lock
  have hsize : ((sendMessage username id data addr lock).attrs.flatMap
      StunAttribute.write).length = (sendMessage username id data addr lock).length.toNat := by
    rw [hb.length_toNat hlen, length_flatMap_write, bodyLength]
  generalize sendMessage username id data addr lock = m at *
  have hread : m₀.read (m.write ++ []) = StunMessage.readBody { m with attrs := m₀.attrs }
      (m.attrs.flatMap StunAttribute.write ++ []) :=
    read_write_header (by rw [htype]; decide) (.inl (by rw [hids, hid])) m₀
  rw [List.append_nil, List.append_nil, StunMessage.readBody,
    if_neg (by rw [hsize]; exact lt_irrefl _)] at hread
  have hcookie : Writable [magicCookieAttr] := by
    intro a ha
    rw [List.mem_singleton.mp ha]
    exact ⟨(byteStringAttr_built _ _).fits, documented_magicCookie, by decide⟩
  have hloop : readAttrs m.length.toNat 0 [] (m.attrs.flatMap StunAttribute.write) =
      .error ([] ++ [magicCookieAttr]) := by
    rw [hattrs, List.flatMap_append, List.flatMap_cons]
    refine readAttrs_refused hcookie [] hname ?_ ?_
    · rw [← hsize, hattrs, List.flatMap_append, List.length_append]
      exact Nat.lt_add_right _ (by decide)
    · rw [List.length_append, length_write]
      omega
  simp only [hsize, Nat.sub_self, hloop] at hread
  exact ⟨_, hread⟩

/-- **A send request is read as it was meant, or not at all**: what asks to lock the
connection was made to ask for it and names its own destination. -/
theorem sendRequest_sendMessage {name username id data sent : List Byte}
    {addr dest : SocketAddress} {lock : Bool} (hid : id.length = kStunTransactionIdLength)
    (hlen : (sendMessage username id data addr lock).write.length ≤ maxPacketSize)
    (h : sendRequest name (sendMessage username id data addr lock).write = some (dest, sent, true)) :
    dest = addr ∧ lock = true := by
  have hb := sendMessage_built username id data addr lock hid
  have htype := sendMessage_type username id data addr lock
  have hids := sendMessage_transactionId username id data addr lock
  have hattrs := sendMessage_attrs username id data addr lock
  have hbody : (sendMessage username id data addr lock).bodyLength < 2 ^ 16 := by
    have hle : _ ≤ 65535 := hlen
    rw [length_write_message (by rw [hids, hid])] at hle
    omega
  cases hname : admits .username (byteStringAttr .username username).length with
  | false =>
    obtain ⟨m, hm⟩ := read_sendMessage_refused hid hbody hname StunMessage.new
    rw [sendRequest, hm] at h
    exact absurd h (by simp)
  | true =>
    have hd : ∀ a ∈ (sendMessage username id data addr lock).attrs, a.Documented := by
      intro a ha
      rw [hattrs] at ha
      simp only [List.cons_append, List.nil_append, List.mem_cons, List.mem_append,
        List.not_mem_nil, or_false] at ha
      rcases ha with rfl | rfl | rfl | ha | rfl
      · exact documented_magicCookie
      · exact ⟨show _ % 4 = 0 from of_decide_eq_true hname, trivial⟩
      · exact ⟨trivial, trivial⟩
      · cases lock with
        | false => exact absurd ha (by simp)
        | true =>
          rw [List.mem_singleton.mp ha]
          exact ⟨trivial, trivial⟩
      · exact ⟨trivial, trivial⟩
    have hread : StunMessage.new.read ((sendMessage username id data addr lock).write ++ []) =
        .ok (sendMessage username id data addr lock, []) :=
      read_write (by rw [htype]; decide) (.inl (by rw [hids, hid])) (hb.writable hd hbody)
        (hb.length_toNat hbody) _
    have haddr : (sendMessage username id data addr lock).getAddress .destinationAddress =
        some { family := 1, port := addr.port, ip := addr.ip } := by
      rw [getAddress, getAttribute, hattrs, addressAttr_eq (t := .destinationAddress) rfl]
      rfl
    have hopt : lock = false →
        (sendMessage username id data addr lock).getUInt32 .options = none := by
      rintro rfl
      rw [getUInt32, getAttribute, hattrs]
      rfl
    rw [List.append_nil] at hread
    rw [sendRequest, hread] at h
    dsimp only at h
    rw [haddr] at h
    split at h
    · split at h
      · rename_i _ _ haddr' _
        obtain rfl := Option.some.inj haddr'
        simp only [Option.some.injEq, Prod.mk.injEq] at h
        obtain ⟨rfl, -, hl⟩ := h
        refine ⟨rfl, ?_⟩
        cases lock with
        | true => rfl
        | false =>
          rw [hopt rfl] at hl
          exact absurd hl (by simp)
      · exact absurd h (by simp)
    · exact absurd h (by simp)

theorem sendRequest_allocateMessage (name username id : List Byte) :
    sendRequest name (allocateMessage username id).write = none := by
  rw [sendRequest]
  split
  · rfl
  rename_i msg _ hread
  obtain ⟨cookie, id', body, hbytes, -⟩ := read_ok hread
  have htype : msg.type = StunMessageType.allocateRequest.code := by
    rw [StunMessage.write, List.append_assoc, List.append_assoc, List.append_assoc] at hbytes
    exact (be16_append_inj hbytes).1.symm
  rw [if_neg]
  rintro ⟨-, hsend⟩
  exact absurd (htype.symm.trans hsend) (by decide)

end Relay

end Jingle
