/-
The relay server.

Connections and bindings are objects with an identity, kept in the tables `conn`
and `binding`; `connections` and `bindings` are the server's maps from address
pairs and user names to them.  A socket is known by its local address.

What the server sends and where one of its own assertions does not hold is
written to `log`; after a failed assertion it goes on as a release build does.
`step` is one event: a packet on an internal or an external socket, the lifetime
timer of a binding, or the deletion of a binding that has timed out.
-/
import Jingle.Stun.Codec

namespace Jingle

/-- An address and a port. -/
structure SocketAddress where
  ip : Word
  port : BitVec 16
  deriving DecidableEq, Repr

/-- A default-constructed address. -/
def SocketAddress.nil : SocketAddress where
  ip := 0
  port := 0

/-- A remote address and the local address it was received on. -/
structure SocketAddressPair where
  source : SocketAddress
  dest : SocketAddress
  deriving DecidableEq, Repr

/-- The cookie that tells TURN packets from other traffic. -/
def turnMagicCookieValue : List Byte := [0x72, 0xC6, 0x4B, 0xC6]

/-- `HasMagicCookie`, the test of the server and of the client. -/
def hasMagicCookie (bytes : List Byte) : Bool :=
  if bytes.length < 24 + turnMagicCookieValue.length then false
  else (bytes.drop 24).take turnMagicCookieValue.length = turnMagicCookieValue

/-- By default a binding lives fifteen minutes after its last use. -/
def maxLifetime : Word := 15 * 60 * 1000

/-- The number of bytes in each of the usernames. -/
def usernameLength : ℕ := 16

/-! ### Messages -/

/-- `CreateByteString` and `CopyBytes` with a length of 16 bits. -/
def byteStringAttr (t : StunAttributeType) (bytes : List Byte) : StunAttribute :=
  (StunAttribute.createNew t).call (.copyBytes bytes (BitVec.ofNat 16 bytes.length))

/-- `CreateAddress` with family 1. -/
def addressAttr (t : StunAttributeType) (addr : SocketAddress) : StunAttribute :=
  (((StunAttribute.createNew t).call (.setFamily 1)).call (.setIP addr.ip)).call (.setPort addr.port)

/-- `CreateUInt32` and `SetValue`. -/
def uint32Attr (t : StunAttributeType) (value : Word) : StunAttribute :=
  (StunAttribute.createNew t).call (.setValue value)

/-- The attribute that carries the cookie. -/
def magicCookieAttr : StunAttribute := byteStringAttr .magicCookie turnMagicCookieValue

/-- A new message of a type with the cookie as its first attribute. -/
def turnMessage (type : StunMessageType) : StunMessage :=
  (StunMessage.new.setType type.code).addAttribute magicCookieAttr

/-- The indication that carries a packet from an external address. -/
def dataIndication (bytes : List Byte) (fromAddr : SocketAddress) : StunMessage :=
  ((turnMessage .dataIndication).addAttribute (addressAttr .sourceAddress2 fromAddr)).addAttribute
    (byteStringAttr .data bytes)

/-- The message of `SendStunError`. -/
def errorResponse (request : StunMessage) (code : ℕ) (desc : String) : StunMessage :=
  let attr := (((StunAttribute.createNew .errorCode).call
    (.setErrorClass (BitVec.ofNat 8 (code / 100)))).call
      (.setNumber (BitVec.ofNat 8 (code % 100)))).call (.setReason (textBytes desc))
  ((turnMessage (getStunErrorResponseType request.type)).setTransactionID
    request.transactionId).addAttribute attr

/-- The answer to an allocate request. -/
def allocateResponse (request : StunMessage) (extAddr : SocketAddress) (lifetime : Word) :
    StunMessage :=
  ((((turnMessage .allocateResponse).setTransactionID request.transactionId).addAttribute
    (addressAttr .mappedAddress extAddr))).addAttribute (uint32Attr .lifetime (lifetime / 1000))

/-- The answer to a send request that locks the connection. -/
def sendResponse (request : StunMessage) : StunMessage :=
  ((turnMessage .sendResponse).setTransactionID request.transactionId).addAttribute
    (uint32Attr .options 0x01)

/-! ### The state -/

namespace Relay

/-- `RelayServerConnection`. -/
structure Connection where
  binding : ℕ
  addrPair : SocketAddressPair
  socket : SocketAddress
  locked : Bool
  defaultDest : SocketAddress

/-- `RelayServerBinding`; `timer` says that a lifetime check is posted and
`disposed` that the deletion is. -/
structure Binding where
  username : List Byte
  lifetime : Word
  lastUsed : Word
  internal : List ℕ
  external : List ℕ
  timer : Bool
  disposed : Bool

/-- The assertions that can fail, and the accesses they guard. -/
inductive Fault
  | duplicateConnection | missingConnection | missingBinding | noInternalConnection
  | severalExternalSockets
  deriving DecidableEq, Repr

/-- What a step does to the outside. -/
inductive Output
  | sent (socket dest : SocketAddress) (bytes : List Byte)
  | fault (f : Fault)
  deriving DecidableEq, Repr

/-- The server: its external sockets, its two maps, the live objects and the
output of the step. -/
structure Server where
  externalSocket : SocketAddress
  otherSockets : List SocketAddress
  bindings : List Byte → Option ℕ
  connections : SocketAddressPair → Option ℕ
  conn : ℕ → Option Connection
  binding : ℕ → Option Binding
  nextConn : ℕ
  nextBinding : ℕ
  log : List Output

/-- The readings of a step: the clock and `rand`. -/
structure Env where
  now : Word
  rand : ℕ

namespace Server

variable (s : Server)

def externalSockets : List SocketAddress := s.externalSocket :: s.otherSockets

def emit (o : Output) : Server := { s with log := s.log ++ [o] }

/-- Change a live connection. -/
def modifyConn (c : ℕ) (f : Connection → Connection) : Server :=
  { s with conn := Function.update s.conn c ((s.conn c).map f) }

/-- Change a live binding. -/
def modifyBinding (b : ℕ) (f : Binding → Binding) : Server :=
  { s with binding := Function.update s.binding b ((s.binding b).map f) }

/-! ### Connections and bindings -/

def noteUsed (env : Env) (b : ℕ) : Server :=
  s.modifyBinding b fun bn => { bn with lastUsed := env.now }

/-- The constructor of a connection, which starts out unlocked. -/
def newConnection (env : Env) (b : ℕ) (ap : SocketAddressPair) (socket : SocketAddress) : Server :=
  noteUsed
    { s with
      conn := Function.update s.conn s.nextConn
        (some { binding := b, addrPair := ap, socket, locked := false, defaultDest := .nil })
      nextConn := s.nextConn + 1 } env b

def addInternalConnection (b c : ℕ) : Server :=
  s.modifyBinding b fun bn => { bn with internal := bn.internal ++ [c] }

def addExternalConnection (b c : ℕ) : Server :=
  s.modifyBinding b fun bn => { bn with external := bn.external ++ [c] }

/-- `AddConnection`: the entry of the address pair is overwritten. -/
def addConnection (c : ℕ) (ap : SocketAddressPair) : Server :=
  let s := if s.connections ap = none then s else s.emit (.fault .duplicateConnection)
  { s with connections := Function.update s.connections ap (some c) }

def removeConnection (ap : SocketAddressPair) : Server :=
  if s.connections ap = none then s.emit (.fault .missingConnection)
  else { s with connections := Function.update s.connections ap none }

def lock (c : ℕ) : Server := s.modifyConn c fun cn => { cn with locked := true }

def setDefaultDestination (c : ℕ) (addr : SocketAddress) : Server :=
  s.modifyConn c fun cn => { cn with defaultDest := addr }

/-- The test of `GetInternalConnection` for a connection locked to an address. -/
def lockedTo (ext : SocketAddress) (c : ℕ) : Bool :=
  match s.conn c with
  | some cn => cn.locked && cn.defaultDest = ext
  | none => false

/-- The test of `GetExternalConnection`. -/
def hasSource (ext : SocketAddress) (c : ℕ) : Bool :=
  match s.conn c with
  | some cn => cn.addrPair.source = ext
  | none => false

/-- `GetInternalConnection`: one that is locked to the address, else the first. -/
def getInternalConnection (b : ℕ) (ext : SocketAddress) : Option ℕ :=
  match s.binding b with
  | none => none
  | some bn =>
    match bn.internal.find? (s.lockedTo ext) with
    | some c => some c
    | none => bn.internal.head?

def getExternalConnection (b : ℕ) (ext : SocketAddress) : Option ℕ :=
  match s.binding b with
  | none => none
  | some bn => bn.external.find? (s.hasSource ext)

/-! ### Sending -/

/-- `RelayServerConnection::Send` and `SendStun`: the use of the binding is noted. -/
def send (env : Env) (c : ℕ) (bytes : List Byte) : Server :=
  match s.conn c with
  | none => s
  | some cn => (s.noteUsed env cn.binding).emit (.sent cn.socket cn.addrPair.source bytes)

/-- `RelayServerConnection::Send` with the address the packet is from. -/
def sendFrom (env : Env) (c : ℕ) (bytes : List Byte) (fromAddr : SocketAddress) : Server :=
  if s.lockedTo fromAddr c then s.send env c bytes
  else s.send env c (dataIndication bytes fromAddr).write

/-- `SendStunError` on a socket. -/
def sendStunError (request : StunMessage) (socket dest : SocketAddress) (code : ℕ) (desc : String) :
    Server :=
  s.emit (.sent socket dest (errorResponse request code desc).write)

/-- `RelayServerConnection::SendStunError`. -/
def connStunError (c : ℕ) (request : StunMessage) (code : ℕ) (desc : String) : Server :=
  match s.conn c with
  | none => s
  | some cn => s.sendStunError request cn.socket cn.addrPair.source code desc

/-! ### Requests -/

/-- `HandleStun`: the request and its user name, or an error reply. -/
def handleStun (bytes : List Byte) (remote socket : SocketAddress) :
    Server × Option (StunMessage × List Byte) :=
  match StunMessage.new.read bytes with
  | .error msg => (s.sendStunError msg socket remote 400 "Bad Request", none)
  | .ok (msg, _) =>
    match msg.getByteString .username with
    | none => (s.sendStunError msg socket remote 432 "Missing Username", none)
    | some username => (s, some (msg, username))

/-- `HandleStunAllocate` for a connection. -/
def handleStunAllocate (env : Env) (c : ℕ) (request : StunMessage) : Server :=
  match s.conn c with
  | none => s
  | some cn =>
    match s.binding cn.binding with
    | none => s
    | some bn =>
      let extAddr := s.externalSockets.getD (env.rand % s.externalSockets.length) .nil
      s.send env c (allocateResponse request extAddr bn.lifetime).write

/-- The lifetime of a new binding. -/
def requestLifetime (request : StunMessage) : Word :=
  match request.getUInt32 .lifetime with
  | none => maxLifetime
  | some value => minOf maxLifetime (value * 1000)

/-- A new binding for a user name. -/
def newBinding (env : Env) (username : List Byte) (lifetime : Word) : Server :=
  { s with
    binding := Function.update s.binding s.nextBinding
      (some { username, lifetime, lastUsed := env.now, internal := [], external := []
              timer := true, disposed := false })
    bindings := Function.update s.bindings username (some s.nextBinding)
    nextBinding := s.nextBinding + 1 }

/-- The binding of a user name, made if there is none. -/
def findOrCreateBinding (env : Env) (username : List Byte) (request : StunMessage) : Server × ℕ :=
  match s.bindings username with
  | some b => (s, b)
  | none => (s.newBinding env username (requestLifetime request), s.nextBinding)

/-- `HandleStunAllocate` for a packet that belongs to no connection. -/
def handleFirstPacket (env : Env) (bytes : List Byte) (ap : SocketAddressPair)
    (socket : SocketAddress) : Server :=
  match s.handleStun bytes ap.source socket with
  | (s, none) => s
  | (s, some (request, username)) =>
    if request.type ≠ StunMessageType.allocateRequest.code then
      s.sendStunError request socket ap.source 600 "Operation Not Supported"
    else
      let r := s.findOrCreateBinding env username request
      let c := r.1.nextConn
      let s := ((r.1.newConnection env r.2 ap socket).addInternalConnection r.2 c).addConnection c ap
      s.handleStunAllocate env c request

/-- The external connection of a binding for an address, made if there is none. -/
def findOrCreateExternal (env : Env) (b : ℕ) (ext : SocketAddress) : Server × ℕ :=
  match s.getExternalConnection b ext with
  | some e => (s, e)
  | none =>
    let s := if s.otherSockets = [] then s else s.emit (.fault .severalExternalSockets)
    let ap : SocketAddressPair := { source := ext, dest := s.externalSocket }
    let e := s.nextConn
    (((s.newConnection env b ap s.externalSocket).addExternalConnection b e).addConnection e ap, e)

def isLocked (c : ℕ) : Bool :=
  match s.conn c with
  | some cn => cn.locked
  | none => false

/-- `HandleStunSend`: a request of the binding `b`, on its connection `c`. -/
def handleStunSend (env : Env) (c b : ℕ) (request : StunMessage) : Server :=
  match request.getAddress .destinationAddress with
  | none => s.connStunError c request 400 "Bad Request"
  | some addr =>
    match request.getByteString .data with
    | none => s.connStunError c request 400 "Bad Request"
    | some data =>
      let extAddr : SocketAddress := { ip := addr.ip, port := addr.port }
      let r := s.findOrCreateExternal env b extAddr
      -- if this connection has pinged us, then allow outgoing traffic
      let s := if r.1.isLocked r.2 then r.1.send env r.2 data else r.1
      match request.getUInt32 .options with
      | none => s
      | some value =>
        if value &&& 0x01 = 0 then s
        else
          let s := (s.setDefaultDestination c extAddr).lock c
          s.send env c (sendResponse request).write

/-- `HandleStun` for a connection: the request goes to its handler. -/
def handleStunRequest (env : Env) (c : ℕ) (bytes : List Byte) : Server :=
  match s.conn c with
  | none => s
  | some cn =>
    match s.binding cn.binding with
    | none => s
    | some bn =>
      match s.handleStun bytes cn.addrPair.source cn.socket with
      | (s, none) => s
      | (s, some (request, username)) =>
        if username ≠ bn.username then s.connStunError c request 430 "Stale Credentials"
        else if request.type = StunMessageType.sendRequest.code then
          s.handleStunSend env c cn.binding request
        else if request.type = StunMessageType.allocateRequest.code then
          s.handleStunAllocate env c request
        else s.connStunError c request 600 "Operation Not Supported"

/-! ### Packets -/

/-- A raw packet of an internal client goes to the address it is locked to. -/
def forwardRaw (env : Env) (cn : Connection) (bytes : List Byte) : Server :=
  if !cn.locked then s
  else
    match s.getExternalConnection cn.binding cn.defaultDest with
    | none => s
    | some e => if s.isLocked e then s.send env e bytes else s

def onInternalPacket (env : Env) (socket remote : SocketAddress) (bytes : List Byte) : Server :=
  let ap : SocketAddressPair := { source := remote, dest := socket }
  match s.connections ap with
  | none => s.handleFirstPacket env bytes ap socket
  | some c =>
    if hasMagicCookie bytes then s.handleStunRequest env c bytes
    else
      match s.conn c with
      | none => s
      | some cn => s.forwardRaw env cn bytes

/-- Deliver an external packet to the internal client of a binding. -/
def deliver (env : Env) (b : ℕ) (bytes : List Byte) (fromAddr : SocketAddress) : Server :=
  match s.getInternalConnection b fromAddr with
  | none => s.emit (.fault .noInternalConnection)
  | some i => s.sendFrom env i bytes fromAddr

/-- A binding's new connection for an external address, locked from the beginning. -/
def admitPeer (env : Env) (b : ℕ) (ap : SocketAddressPair) (socket : SocketAddress) : Server :=
  let e := s.nextConn
  (((s.newConnection env b ap socket).addExternalConnection b e).addConnection e ap).lock e

/-- The binding that the first packet of an external address names. -/
def namedBinding (bytes : List Byte) : Option ℕ :=
  match StunMessage.new.read bytes with
  | .error _ => none
  | .ok (msg, _) =>
    match msg.getByteString .username with
    | none => none
    | some username => s.bindings (username.take usernameLength)

def onExternalPacket (env : Env) (socket remote : SocketAddress) (bytes : List Byte) : Server :=
  let ap : SocketAddressPair := { source := remote, dest := socket }
  match s.connections ap with
  | some e =>
    match s.conn e with
    | none => s
    | some cn => (s.deliver env cn.binding bytes cn.addrPair.source).lock e
  | none =>
    match s.namedBinding bytes with
    | none => s
    | some b => (s.admitPeer env b ap socket).deliver env b bytes ap.source

/-! ### Expiry -/

/-- The lifetime check of a binding. -/
def onLifetimeTimer (env : Env) (b : ℕ) : Server :=
  s.modifyBinding b fun bn =>
    if bn.lastUsed + bn.lifetime ≤ env.now then { bn with timer := false, disposed := true }
    else bn

/-- The destructor of a connection. -/
def deleteConnection (c : ℕ) : Server :=
  match s.conn c with
  | none => s
  | some cn => { s.removeConnection cn.addrPair with conn := Function.update s.conn c none }

def removeBinding (username : List Byte) : Server :=
  if s.bindings username = none then s.emit (.fault .missingBinding)
  else { s with bindings := Function.update s.bindings username none }

/-- The destructor of a binding: its connections, then its name. -/
def deleteBinding (b : ℕ) : Server :=
  match s.binding b with
  | none => s
  | some bn =>
    let s := (bn.internal ++ bn.external).foldl deleteConnection s
    { s.removeBinding bn.username with binding := Function.update s.binding b none }

end Server

/-! ### Runs -/

/-- The events of the server. -/
inductive Event
  | internalPacket (socket remote : SocketAddress) (bytes : List Byte)
  | externalPacket (socket remote : SocketAddress) (bytes : List Byte)
  | lifetimeTimer (b : ℕ)
  | dispose (b : ℕ)

/-- The events that can happen: packets arrive on the sockets of their kind, a
timer is one that was posted and a deletion one that was asked for. -/
def Event.Enabled (s : Server) : Event → Prop
  | .internalPacket socket _ _ => socket ∉ s.externalSockets
  | .externalPacket socket _ _ => socket ∈ s.externalSockets
  | .lifetimeTimer b => ∃ bn, s.binding b = some bn ∧ bn.timer
  | .dispose b => ∃ bn, s.binding b = some bn ∧ bn.disposed

/-- One event; the log is that of this event. -/
def step (env : Env) (e : Event) (s : Server) : Server :=
  let s := { s with log := [] }
  match e with
  | .internalPacket socket remote bytes => s.onInternalPacket env socket remote bytes
  | .externalPacket socket remote bytes => s.onExternalPacket env socket remote bytes
  | .lifetimeTimer b => s.onLifetimeTimer env b
  | .dispose b => s.deleteBinding b

/-- A server with its external sockets. -/
def Server.start (externalSocket : SocketAddress) (otherSockets : List SocketAddress) : Server where
  externalSocket := externalSocket
  otherSockets := otherSockets
  bindings := fun _ => none
  connections := fun _ => none
  conn := fun _ => none
  binding := fun _ => none
  nextConn := 0
  nextBinding := 0
  log := []

end Relay

end Jingle
