/-
The client of a relay server.

A `RelayPort` has one `RelayEntry` for each address it sends to.  An entry has a
socket of its own, known by its local address, so that the server sees each
entry as a connection that it can lock to the entry's address.  Until then the
packets of an entry are wrapped in send requests and what comes back is wrapped
in data indications.

The server's addresses and the timers of the requests are choices of the
environment: `connect` is told which socket it gets.
-/
import Jingle.Relay.Server

namespace Jingle

def SocketAddress.isAny (a : SocketAddress) : Bool := a.ip = 0

def getStunResponseType (type : BitVec 16) : StunMessageType :=
  if type = StunMessageType.sharedSecretRequest.code then .sharedSecretResponse
  else if type = StunMessageType.allocateRequest.code then .allocateResponse
  else if type = StunMessageType.sendRequest.code then .sendResponse
  else .bindingResponse

namespace Relay

/-- `RelayEntry`: the address it is for, the socket of its current connection and
the ids of the allocate requests that are not answered yet. -/
structure RelayEntry where
  extAddr : SocketAddress
  connected : Bool
  locked : Bool
  socket : Option SocketAddress
  requests : List (List Byte)

/-- A packet that an entry sends: where from, and whether it is an application's
packet as it is. -/
structure Upstream where
  source : SocketAddress
  bytes : List Byte
  raw : Bool

/-- No socket sends a packet of more bytes. -/
def maxPacketSize : ℕ := 65535

/-- The request that carries a packet to an address; it asks to lock the
connection if `lock` is set. -/
def sendMessage (username id data : List Byte) (addr : SocketAddress) (lock : Bool) :
    StunMessage :=
  let request := (((StunMessage.new.setType StunMessageType.sendRequest.code).setTransactionID
    id).addAttribute magicCookieAttr).addAttribute (byteStringAttr .username username)
  let request := request.addAttribute (addressAttr .destinationAddress addr)
  let request := if lock then request.addAttribute (uint32Attr .options 0x1) else request
  request.addAttribute (byteStringAttr .data data)

/-- The message of an `AllocateRequest`. -/
def allocateMessage (username id : List Byte) : StunMessage :=
  (((StunMessage.new.setTransactionID id).setType
    StunMessageType.allocateRequest.code).addAttribute magicCookieAttr).addAttribute
      (byteStringAttr .username username)

namespace RelayEntry

variable (e : RelayEntry)

/-- A new entry. -/
def new (extAddr : SocketAddress) : RelayEntry where
  extAddr := extAddr
  connected := false
  locked := false
  socket := none
  requests := []

/-- `Connect`: the connection is replaced by one with the socket it gets, if any. -/
def connect (socket : Option SocketAddress) : RelayEntry :=
  if e.connected then e else { e with socket, requests := [] }

def sendPacket (bytes : List Byte) (raw : Bool) : List Upstream :=
  match e.socket with
  | none => []
  | some source => if bytes.length ≤ maxPacketSize then [{ source, bytes, raw }] else []

def sendTo (username id data : List Byte) (addr : SocketAddress) : List Upstream :=
  if e.locked && e.extAddr = addr then e.sendPacket data true
  else e.sendPacket (sendMessage username id data addr (e.extAddr = addr)).write false

/-- `SendAllocateRequest`, and the message that it posts. -/
def sendAllocateRequest (username id : List Byte) : RelayEntry × List Upstream :=
  match e.socket with
  | none => (e, [])
  | some _ =>
    ({ e with requests := id :: e.requests }, e.sendPacket (allocateMessage username id).write false)

def onResponse (msg : StunMessage) : RelayEntry :=
  match msg.getAddress .mappedAddress with
  | none => e
  | some addr => if addr.family ≠ 1 then e else { e with connected := true }

/-- `CheckResponse`: whether the message answers a request. -/
def checkResponse (msg : StunMessage) : RelayEntry × Bool :=
  if msg.transactionId ∉ e.requests then (e, false)
  else
    let answered := { e with requests := e.requests.filter (· ≠ msg.transactionId) }
    let request := StunMessageType.allocateRequest.code
    if msg.type = (getStunResponseType request).code then (answered.onResponse msg, true)
    else if msg.type = (getStunErrorResponseType request).code then (answered, true)
    else (e, false)

/-- The packet and the address in a data indication. -/
def indicated (msg : StunMessage) : Option (List Byte × SocketAddress) :=
  match msg.getAddress .sourceAddress2 with
  | none => none
  | some addr =>
    if addr.family ≠ 1 then none
    else
      match msg.getByteString .data with
      | none => none
      | some data => some (data, { ip := addr.ip, port := addr.port })

/-- `RelayEntry::OnReadPacket`: the entry after it and what it passes to
`RelayPort::OnReadPacket`. -/
def onReadPacket (bytes : List Byte) : RelayEntry × Option (List Byte × SocketAddress) :=
  if !hasMagicCookie bytes then
    -- an unwrapped packet is from the address of the entry
    if e.locked then (e, some (bytes, e.extAddr)) else (e, none)
  else
    match StunMessage.new.read bytes with
    | .error _ => (e, none)
    | .ok (msg, _) =>
      match e.checkResponse msg with
      | (e, true) => (e, none)
      | (e, false) =>
        if msg.type = StunMessageType.sendResponse.code then
          match msg.getUInt32 .options with
          | none => (e, none)
          | some value => if value &&& 0x1 = 0 then (e, none) else ({ e with locked := true }, none)
        else if msg.type ≠ StunMessageType.dataIndication.code then (e, none)
        else (e, indicated msg)

end RelayEntry

structure RelayPort where
  username : List Byte
  entries : List RelayEntry

namespace RelayPort

variable (p : RelayPort)

/-- A new port; its first entry has no address yet. -/
def new (username : List Byte) : RelayPort where
  username := username
  entries := [.new .nil]

/-- The test of `SendTo` for an entry of an address. -/
def takes (addr : SocketAddress) (payload : Bool) (e : RelayEntry) : Bool :=
  (e.extAddr.isAny && payload) || e.extAddr = addr

/-- An entry without an address gets the one of the first payload. -/
def assign (addr : SocketAddress) (payload : Bool) (e : RelayEntry) : RelayEntry :=
  if e.extAddr.isAny && payload then { e with extAddr := addr } else e

/-- The entry that is sent on: the one found if it is connected, else the first. -/
def usable (i : Option ℕ) : Option RelayEntry :=
  match (i.bind fun i => p.entries[i]?).filter fun e => e.connected with
  | some e => some e
  | none => p.entries.head?.filter fun e => e.connected

/-- The entries after the search of `SendTo` and the position of the one found or
made; a new entry connects with `socket`. -/
def entryFor (addr : SocketAddress) (payload : Bool) (socket : Option SocketAddress) :
    RelayPort × Option ℕ :=
  match p.entries.findIdx? (takes addr payload) with
  | some i => ({ p with entries := p.entries.modify i (assign addr payload) }, some i)
  | none =>
    if payload then
      ({ p with entries := p.entries ++ [(RelayEntry.new addr).connect socket] },
        some p.entries.length)
    else (p, none)

def sendTo (id data : List Byte) (addr : SocketAddress) (payload : Bool)
    (socket : Option SocketAddress) : RelayPort × List Upstream :=
  let r := p.entryFor addr payload socket
  match r.1.usable r.2 with
  | none => (r.1, [])
  | some e => (r.1, e.sendTo p.username id data addr)

end RelayPort

end Relay

end Jingle
