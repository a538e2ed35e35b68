/-
The SOCKS5 proxy protocol: the client's socket and the server's.

Both sides parse what a `BufferedReadAdapter` holds.  The client waits for the
whole of a reply; the server takes a message that has not arrived whole for an
error.  The functions below return the new socket together with what it did on the
way: bytes sent, signals raised, the connection closed.

* `authRequest_wellFormed_iff`, `connectRequest_wellFormed_iff` — when the length bytes
  of the client's requests are the lengths of their fields.
-/
import Jingle.Lib.ByteReader
import Jingle.Proxy.BufferedReadAdapter

namespace Jingle.Proxy

structure SocketAddress where
  hostname : List Byte
  ip : Word
  port : BitVec 16

/-- There is a name and no address. -/
def SocketAddress.isUnresolved (addr : SocketAddress) : Bool :=
  addr.ip = 0 ∧ addr.hostname ≠ []

def SocketAddress.clear : SocketAddress := ⟨[], 0, 0⟩

/-- What a socket does to the outside. -/
inductive SocketEffect
  | send (bytes : List Byte)
  | close
  | signalConnectEvent
  | signalReadEvent
  | signalCloseEvent (error : ℕ)
  | signalConnectRequest (ip : Word) (port : BitVec 16)
  deriving DecidableEq

def SOCKET_EACCES : ℕ := 13

/-! ### The client's requests -/

/-- The messages of a client, with their length bytes apart from their fields. -/
inductive Request
  | hello (count : Byte) (methods : List Byte)
  | auth (userLen : Byte) (user : List Byte) (passLen : Byte) (pass : List Byte)
  | connectName (nameLen : Byte) (hostname : List Byte) (port : BitVec 16)
  | connectIp (ip : Word) (port : BitVec 16)

namespace Request

def bytes : Request → List Byte
  | hello count methods => 5 :: count :: methods
  | auth userLen user passLen pass => 1 :: userLen :: user ++ passLen :: pass
  | connectName nameLen hostname port => 5 :: 1 :: 0 :: 3 :: nameLen :: hostname ++ be16 port
  | connectIp ip port => 5 :: 1 :: 0 :: 1 :: be32 ip ++ be16 port

/-- The length bytes are the lengths of the fields. -/
def WellFormed : Request → Prop
  | hello count methods => count.toNat = methods.length
  | auth userLen user passLen pass => userLen.toNat = user.length ∧ passLen.toNat = pass.length
  | connectName nameLen hostname _ => nameLen.toNat = hostname.length
  | connectIp _ _ => True

end Request

/-! ### The client -/

inductive SocksState
  | init
  | hello
  | auth
  | connect
  | tunnel
  | error
  deriving DecidableEq

structure AsyncSocksProxySocket where
  adapter : BufferedReadAdapter
  state : SocksState
  dest : SocketAddress
  user : List Byte
  pass : List Byte

namespace AsyncSocksProxySocket

/-- A socket on which `Connect` was called. -/
def connecting (user pass : List Byte) (dest : SocketAddress) : AsyncSocksProxySocket :=
  ⟨(BufferedReadAdapter.create 1024).bufferInput true, .init, dest, user, pass⟩

def helloRequest (c : AsyncSocksProxySocket) : Request :=
  if c.user = [] then .hello 1 [0] else .hello 2 [0, 2]

/-- The password is sent as a C string. -/
def authRequest (c : AsyncSocksProxySocket) : Request :=
  .auth (BitVec.ofNat 8 c.user.length) c.user (BitVec.ofNat 8 c.pass.length)
    (c.pass.takeWhile (· ≠ 0))

def connectRequest (c : AsyncSocksProxySocket) : Request :=
  if c.dest.isUnresolved then
    .connectName (BitVec.ofNat 8 c.dest.hostname.length) c.dest.hostname c.dest.port
  else .connectIp c.dest.ip c.dest.port

def sendHello (c : AsyncSocksProxySocket) : AsyncSocksProxySocket × List SocketEffect :=
  ({ c with state := .hello }, [.send c.helloRequest.bytes])

def sendAuth (c : AsyncSocksProxySocket) : AsyncSocksProxySocket × List SocketEffect :=
  ({ c with state := .auth }, [.send c.authRequest.bytes])

def sendConnect (c : AsyncSocksProxySocket) : AsyncSocksProxySocket × List SocketEffect :=
  ({ c with state := .connect }, [.send c.connectRequest.bytes])

def onConnectEvent (c : AsyncSocksProxySocket) : AsyncSocksProxySocket × List SocketEffect :=
  c.sendHello

def onError (c : AsyncSocksProxySocket) (error : ℕ) :
    AsyncSocksProxySocket × List SocketEffect :=
  ({ c with state := .error, adapter := c.adapter.bufferInput false, dest := .clear },
    [.close, .signalCloseEvent error])

/-- The bytes that are left become the buffer. -/
def leave (rest : ByteBuffer) (r : AsyncSocksProxySocket × List SocketEffect) :
    AsyncSocksProxySocket × List SocketEffect :=
  ({ r.1 with adapter := { r.1.adapter with buffer := rest } }, r.2)

/-- The bound address of a reply, which is skipped: no result while it has not
arrived, and none inside for an address type that is not known. -/
def readBound (atyp : Byte) (response : ByteBuffer) : Option (Option ByteBuffer) :=
  if atyp = 1 then do
    let (_, response) ← readUInt32 response
    let (_, response) ← readUInt16 response
    return some response
  else if atyp = 3 then do
    let (len, response) ← readUInt8 response
    let (_, response) ← readBytes len.toNat response
    let (_, response) ← readUInt16 response
    return some response
  else if atyp = 4 then do
    let (_, response) ← readBytes 16 response
    let (_, response) ← readUInt16 response
    return some response
  else some none

/-- The tunnel is open: the rest of the buffer is the application's. -/
def opened (c : AsyncSocksProxySocket) (rest : ByteBuffer) :
    AsyncSocksProxySocket × List SocketEffect :=
  ({ c with state := .tunnel, adapter := { c.adapter with buffer := rest, buffering := false } },
    if rest = [] then [.signalConnectEvent] else [.signalConnectEvent, .signalReadEvent])

/-- The first two bytes, of which every reply has at least that many. -/
def readTwo (response : ByteBuffer) : Option (Byte × Byte × ByteBuffer) := do
  let (a, response) ← readUInt8 response
  let (b, response) ← readUInt8 response
  return (a, b, response)

def processInput (c : AsyncSocksProxySocket) : AsyncSocksProxySocket × List SocketEffect :=
  match c.state with
  | .hello =>
    match readTwo c.adapter.buffer with
    | none => (c, [])
    | some (ver, method, rest) =>
      if ver ≠ 5 then c.onError 0
      else if method = 0 then leave rest c.sendConnect
      else if method = 2 then leave rest c.sendAuth
      else c.onError 0
  | .auth =>
    match readTwo c.adapter.buffer with
    | none => (c, [])
    | some (ver, status, rest) =>
      if ver ≠ 1 ∨ status ≠ 0 then c.onError SOCKET_EACCES
      else leave rest c.sendConnect
  | .connect =>
    match readTwo c.adapter.buffer with
    | none => (c, [])
    | some (ver, rep, response) =>
      match readTwo response with
      | none => (c, [])
      | some (_, atyp, response) =>
        if ver ≠ 5 ∨ rep ≠ 0 then c.onError 0
        else match readBound atyp response with
          | none => (c, [])
          | some none => c.onError 0
          | some (some rest) => c.opened rest
  -- no message is expected: the buffer is left as it is
  | _ => (c, [])

/-- A read event of the socket below. -/
def onReadEvent (c : AsyncSocksProxySocket) (socket : Incoming) (res : Option ℕ) :
    AsyncSocksProxySocket × Incoming × List SocketEffect :=
  match c.adapter.onReadEvent socket res with
  | (a, socket, false) => ({ c with adapter := a }, socket, [])
  | (a, socket, true) =>
    let r := { c with adapter := a }.processInput
    (r.1, socket, r.2)

/-! ### The length bytes of the requests -/

theorem toNat_length_iff (n : ℕ) : (BitVec.ofNat 8 n).toNat = n ↔ n < 256 := by
  rw [BitVec.toNat_ofNat]
  constructor
  · intro h
    rw [← h]
    exact Nat.mod_lt n (by omega)
  · exact fun h => Nat.mod_eq_of_lt h

theorem helloRequest_wellFormed (c : AsyncSocksProxySocket) : c.helloRequest.WellFormed := by
  rw [helloRequest]
  split <;> rfl

theorem authRequest_wellFormed_iff (c : AsyncSocksProxySocket) :
    c.authRequest.WellFormed ↔
      c.user.length < 256 ∧ c.pass.length % 256 = (c.pass.takeWhile (· ≠ 0)).length := by
  rw [authRequest, Request.WellFormed, toNat_length_iff, BitVec.toNat_ofNat]

theorem connectRequest_wellFormed_iff (c : AsyncSocksProxySocket) :
    c.connectRequest.WellFormed ↔
      (c.dest.isUnresolved = true → c.dest.hostname.length < 256) := by
  rw [connectRequest]
  split_ifs with h
  · rw [Request.WellFormed, toNat_length_iff]
    exact ⟨fun hlt _ => hlt, fun hlt => hlt h⟩
  · exact iff_of_true trivial fun h' => absurd h' h

end AsyncSocksProxySocket

/-! ### The server -/

inductive SocksServerState
  | hello
  | auth
  | connect
  | connectPending
  | tunnel
  | error
  deriving DecidableEq

structure AsyncSocksProxyServerSocket where
  adapter : BufferedReadAdapter
  state : SocksServerState

namespace AsyncSocksProxyServerSocket

def kBufferSize : ℕ := 1024

def create : AsyncSocksProxyServerSocket :=
  ⟨(BufferedReadAdapter.create kBufferSize).bufferInput true, .hello⟩

def onError (s : AsyncSocksProxyServerSocket) (error : ℕ) :
    AsyncSocksProxyServerSocket × List SocketEffect :=
  ({ s with state := .error, adapter := s.adapter.bufferInput false },
    [.close, .signalCloseEvent error])

/-- The bytes that are left become the buffer. -/
def leave (rest : ByteBuffer) (r : AsyncSocksProxyServerSocket × List SocketEffect) :
    AsyncSocksProxyServerSocket × List SocketEffect :=
  ({ r.1 with adapter := { r.1.adapter with buffer := rest } }, r.2)

def helloReply (method : Byte) : List Byte := [5, method]

def authReply (result : Byte) : List Byte := [1, result]

/-- A read that has to succeed.  The reads before it are not undone when it fails. -/
def need {α : Type} (read : ByteBuffer → Option (α × ByteBuffer)) (request : ByteBuffer) :
    Except ByteBuffer (α × ByteBuffer) :=
  match read request with
  | none => .error request
  | some r => .ok r

def readHello (request : ByteBuffer) : Except ByteBuffer (Byte × Byte × ByteBuffer) := do
  let (ver, request) ← need readUInt8 request
  let (num_methods, request) ← need readUInt8 request
  return (ver, num_methods, request)

/-- The first method of the list, which is the one that the server takes; the others
are not read. -/
def readMethod (num_methods : Byte) (request : ByteBuffer) :
    Except ByteBuffer (Byte × ByteBuffer) :=
  if num_methods = 0 then .ok (0xFF, request) else need readUInt8 request

def handleHello (s : AsyncSocksProxyServerSocket) (request : ByteBuffer) :
    AsyncSocksProxyServerSocket × List SocketEffect :=
  match readHello request with
  | .error rest => leave rest (s.onError 0)
  | .ok (ver, num_methods, request) =>
    if ver ≠ 5 then leave request (s.onError 0)
    else match readMethod num_methods request with
      | .error rest => leave rest (s.onError 0)
      | .ok (method, rest) =>
        let state : SocksServerState :=
          if method = 0 then .connect else if method = 2 then .auth else .error
        leave rest ({ s with state := state }, [.send (helloReply method)])

/-- The credentials, which nobody checks. -/
def readAuth (request : ByteBuffer) : Except ByteBuffer ByteBuffer := do
  let (_, request) ← need readUInt8 request
  let (user_len, request) ← need readUInt8 request
  let (_, request) ← need (readBytes user_len.toNat) request
  let (pass_len, request) ← need readUInt8 request
  let (_, request) ← need (readBytes pass_len.toNat) request
  return request

def handleAuth (s : AsyncSocksProxyServerSocket) (request : ByteBuffer) :
    AsyncSocksProxyServerSocket × List SocketEffect :=
  match readAuth request with
  | .error rest => leave rest (s.onError 0)
  | .ok rest => leave rest ({ s with state := .connect }, [.send (authReply 0)])

/-- The fields of a connect message, up to the address and the port. -/
def readConnect (request : ByteBuffer) :
    Except ByteBuffer ((Byte × Byte × Byte × Byte) × Word × BitVec 16 × ByteBuffer) := do
  let (ver, request) ← need readUInt8 request
  let (command, request) ← need readUInt8 request
  let (reserved, request) ← need readUInt8 request
  let (addr_type, request) ← need readUInt8 request
  let (ip, request) ← need readUInt32 request
  let (port, request) ← need readUInt16 request
  return ((ver, command, reserved, addr_type), ip, port, request)

def handleConnect (s : AsyncSocksProxyServerSocket) (request : ByteBuffer) :
    AsyncSocksProxyServerSocket × List SocketEffect :=
  match readConnect request with
  | .error rest => leave rest (s.onError 0)
  | .ok ((ver, command, reserved, addr_type), ip, port, rest) =>
    if ver ≠ 5 ∨ command ≠ 1 ∨ reserved ≠ 0 ∨ addr_type ≠ 1 then leave rest (s.onError 0)
    else leave rest ({ s with state := .connectPending }, [.signalConnectRequest ip port])

def processInput (s : AsyncSocksProxyServerSocket) :
    AsyncSocksProxyServerSocket × List SocketEffect :=
  match s.state with
  | .hello => s.handleHello s.adapter.buffer
  | .auth => s.handleAuth s.adapter.buffer
  | .connect => s.handleConnect s.adapter.buffer
  | _ => (s, [])

def connectReply (result : ℕ) (addr : SocketAddress) : List Byte :=
  5 :: (if result ≠ 0 then 1 else 0) :: 0 :: 1 :: be32 addr.ip ++ be16 addr.port

def sendConnectResult (s : AsyncSocksProxyServerSocket) (result : ℕ) (addr : SocketAddress) :
    AsyncSocksProxyServerSocket × List SocketEffect :=
  if s.state ≠ .connectPending then (s, [])
  else ({ s with state := .tunnel, adapter := s.adapter.bufferInput false },
    [.send (connectReply result addr)])

def onReadEvent (s : AsyncSocksProxyServerSocket) (socket : Incoming) (res : Option ℕ) :
    AsyncSocksProxyServerSocket × Incoming × List SocketEffect :=
  match s.adapter.onReadEvent socket res with
  | (a, socket, false) => ({ s with adapter := a }, socket, [])
  | (a, socket, true) =>
    let r := { s with adapter := a }.processInput
    (r.1, socket, r.2)

end AsyncSocksProxyServerSocket

end Jingle.Proxy
