/-
The channel over several ports.

`Channel` is a `P2PTransportChannel` with everything it reaches: the ports, known
by number, and the connections, objects with an identity kept in `conn`.  The
map of a port from addresses to connections is read off the channel's list
(`getConnection`): a connection enters both in `createConnection` and leaves
both when it is destroyed.  The allocator sessions are the environment: a port
comes with `onPortReady`.

Whether a port makes a connection to a candidate is up to its class.  `Dial`
says it: nothing, or a connection that is connected at once or not yet.  One
event is handled at one time `now`.
-/
import Jingle.P2p.Connection

namespace Jingle.P2p

/-- What a channel reads of a port. -/
structure Port where
  usernameFragment : List Byte
  preference : ℚ
  generation : Word
  network : ℕ

/-- `RemoteCandidate`: a candidate and the port on which it was found. -/
structure RemoteCandidate where
  candidate : Candidate
  originPort : Option ℕ

/-- `Port::CreateConnection`. -/
abbrev Dial := ℕ → Candidate → Option Bool

/-- The least improvement of the round trip time that is worth a change. -/
def kMinImprovement : ℕ := 10

/-- A current connection is pinged at least this often. -/
def maxCurrentWritableDelay : Word := 900

/-- `P2PTransportChannel`. -/
structure Channel where
  port : ℕ → Port
  conn : ℕ → Connection
  nextConn : ℕ
  ports : List ℕ
  connections : List ℕ
  bestConnection : Option ℕ
  remoteCandidates : List RemoteCandidate
  incomingOnly : Bool
  waitingForSignaling : Bool
  pingingStarted : Bool
  wasWritable : Bool
  wasTimedOut : Bool
  readable : Bool
  writable : Bool

/-- The order of the write states: better ones first. -/
def WriteState.rank : WriteState → ℕ
  | .writable => 0
  | .writeConnect => 1
  | .writeTimeout => 2

namespace Channel

/-- A new channel. -/
def new (port : ℕ → Port) (conn : ℕ → Connection) (incomingOnly : Bool) : Channel where
  port := port
  conn := conn
  nextConn := 0
  ports := []
  connections := []
  bestConnection := none
  remoteCandidates := []
  incomingOnly := incomingOnly
  waitingForSignaling := false
  pingingStarted := false
  wasWritable := false
  wasTimedOut := true
  readable := false
  writable := false

variable (ch : Channel)

/-- A change of one connection. -/
def set (i : ℕ) (c : Connection) : Channel :=
  { ch with conn := fun j => if j = i then c else ch.conn j }

/-- A new connection at the end of the list. -/
def addConnection (c : Connection) : Channel :=
  { ch with
    nextConn := ch.nextConn + 1
    connections := ch.connections ++ [ch.nextConn]
    conn := fun j => if j = ch.nextConn then c else ch.conn j }

/-- A change of every connection in the list. -/
def mapConnections (f : ℕ → Connection → Connection) : Channel :=
  { ch with conn := fun j => if j ∈ ch.connections then f j (ch.conn j) else ch.conn j }

def getConnection (p : ℕ) (addr : SocketAddress) : Option ℕ :=
  ch.connections.find? fun i =>
    (ch.conn i).port = p ∧ (ch.conn i).remoteCandidate.address.eqv addr

/-! ### Comparing connections -/

/-- The product of the preferences of both sides. -/
def preferenceOf (c : Connection) : ℚ :=
  (ch.port c.port).preference * c.remoteCandidate.preference

/-- The generations of both sides, added up. -/
def generationOf (c : Connection) : Word :=
  c.remoteCandidate.generation + (ch.port c.port).generation

def compareConnectionCandidates (a b : Connection) : ℤ :=
  if ch.preferenceOf b < ch.preferenceOf a then 1
  else if ch.preferenceOf a < ch.preferenceOf b then -1
  else (ch.generationOf a - ch.generationOf b).toInt

def compareConnections (a b : Connection) : ℤ :=
  if a.writeState.rank < b.writeState.rank then 1
  else if b.writeState.rank < a.writeState.rank then -1
  else ch.compareConnectionCandidates a b

/-- `ConnectionCompare`: whether the first is sorted before the second. -/
def connectionCompare (a b : Connection) : Bool :=
  let cmp := ch.compareConnections a b
  if 0 < cmp then true
  else if cmp < 0 then false
  else a.rtt < b.rtt

def shouldSwitch (a b : Option ℕ) : Bool :=
  if a = b then false
  else
    match a, b with
    | some a, some b =>
      let prefsCmp := ch.compareConnections (ch.conn a) (ch.conn b)
      if prefsCmp < 0 then true
      else if 0 < prefsCmp then false
      else (ch.conn b).rtt.toNat ≤ (ch.conn a).rtt.toNat + kMinImprovement
    | _, _ => true

/-! ### Sorting -/

def allocate : Channel := { ch with waitingForSignaling := true }

def updateConnectionStates (now : Word) : Channel :=
  ch.mapConnections fun _ c => c.updateState now

/-- The first connection of the list on a network. -/
def topOnNetwork (network : ℕ) : Option ℕ :=
  ch.connections.find? fun i => (ch.port (ch.conn i).port).network = network

def getBestConnectionOnNetwork (network : ℕ) : Option ℕ :=
  match ch.bestConnection with
  | some b =>
    if (ch.port (ch.conn b).port).network = network then some b else ch.topOnNetwork network
  | none => ch.topOnNetwork network

/-- The connections of one network that are no better than its writable premier
are pruned. -/
def pruneNetwork (network : ℕ) : Channel :=
  match ch.getBestConnectionOnNetwork network with
  | none => ch
  | some premier =>
    if (ch.conn premier).writeState ≠ .writable then ch
    else
      ch.mapConnections fun i c =>
        if i ≠ premier ∧ (ch.port c.port).network = network ∧
            0 ≤ ch.compareConnectionCandidates (ch.conn premier) c then c.prune
        else c

def handleWritable : Channel :=
  { ch with wasWritable := true, wasTimedOut := false, writable := true }

def handleNotWritable : Channel :=
  let ch := if ch.wasWritable then { ch with wasWritable := false }.allocate else ch
  { ch with wasTimedOut := false, writable := false }

def handleAllTimedOut : Channel :=
  let ch := if !ch.wasTimedOut then ch.allocate else ch
  { ch with wasTimedOut := true, wasWritable := false, writable := false }

/-- The number of connections in a write state. -/
def count (state : WriteState) : ℕ := ch.connections.countP fun i => (ch.conn i).writeState = state

def updateChannelState : Channel :=
  { ch with readable := ch.connections.any fun i => (ch.conn i).readState = .readable }

/-- The best connection is chosen again from the sorted list. -/
def chooseBest : Channel :=
  -- a stable sort
  let connections := ch.connections.insertionSort fun i j =>
    ¬ch.connectionCompare (ch.conn j) (ch.conn i)
  let top := connections.head?
  { ch with
    connections
    bestConnection := if ch.shouldSwitch ch.bestConnection top then top else ch.bestConnection }

def sortConnections (now : Word) : Channel :=
  let ch := ch.updateConnectionStates now
  let networks := (ch.connections.map fun i => (ch.port (ch.conn i).port).network).dedup
  let ch := networks.foldl pruneNetwork ch.chooseBest
  let ch :=
    if 0 < ch.count .writable then ch.handleWritable
    else if 0 < ch.count .writeConnect then ch.handleNotWritable
    else ch.handleAllTimedOut
  ch.updateChannelState

/-! ### Making connections -/

/-- `CreateConnection`: whether there is a connection to the candidate. -/
def createConnection (dial : Dial) (now : Word) (p : ℕ) (remote : Candidate)
    (originPort : Option ℕ) (readable : Bool) : Bool × Channel :=
  match ch.getConnection p remote.address with
  | some i =>
    if !remote.isEquivalent (ch.conn i).remoteCandidate then (false, ch)
    else (true, if readable then ch.set i ((ch.conn i).receivedPing now) else ch)
  | none =>
    -- a candidate from a message is not called when only incoming ones are allowed
    if originPort = none ∧ ch.incomingOnly then (false, ch)
    else
      match dial p remote with
      | none => (false, ch)
      | some connected =>
        let c := Connection.new p remote connected
        (true, ch.addConnection (if readable then c.receivedPing now else c))

def rememberRemoteCandidate (remote : Candidate) (originPort : Option ℕ) : Channel :=
  let kept := ch.remoteCandidates.filter fun rc =>
    ¬rc.candidate.generation < remote.generation
  if kept.any fun rc => rc.candidate.isEquivalent remote then { ch with remoteCandidates := kept }
  else
    { ch with
      remoteCandidates := kept ++ [{ candidate := remote, originPort }]
      pingingStarted := true }

/-- The loop of `CreateConnections` over ports. -/
def createOn (dial : Dial) (now : Word) (remote : Candidate) (originPort : Option ℕ)
    (readable : Bool) : List ℕ → Bool × Channel → Bool × Channel
  | [], acc => acc
  | p :: ps, (created, ch) =>
    let (ok, ch) := ch.createConnection dial now p remote originPort readable
    createOn dial now remote originPort readable ps (created || (ok && some p = originPort), ch)

/-- `CreateConnections`: whether the origin port has a connection now. -/
def createConnections (dial : Dial) (now : Word) (remote : Candidate) (originPort : Option ℕ)
    (readable : Bool) : Bool × Channel :=
  let (created, ch') := createOn dial now remote originPort readable ch.ports.reverse (false, ch)
  let (created, ch') :=
    match originPort with
    | none => (created, ch')
    | some p =>
      if p ∈ ch.ports then (created, ch')
      else createOn dial now remote originPort readable [p] (created, ch')
  (created, ch'.rememberRemoteCandidate remote originPort)

/-- `Port::SendBindingResponse`: the connection to the address, if there is one,
becomes readable. -/
def sendBindingResponse (p : ℕ) (request : StunMessage) (addr : SocketAddress) (now : Word) :
    Channel × Option StunMessage :=
  match request.getByteString .username with
  | none => (ch, none)
  | some username =>
    let reply := some (bindingResponse request username addr)
    match ch.getConnection p addr with
    | none => (ch, reply)
    | some i => (ch.set i ((ch.conn i).receivedPing now), reply)

/-! ### Events -/

/-- The candidate with a remote username, moved to another address. -/
def knownAs (remoteUsername : List Byte) (addr : SocketAddress) : Option Candidate :=
  (ch.remoteCandidates.find? fun rc => rc.candidate.username = remoteUsername).map fun rc =>
    { rc.candidate with address := addr }

/-- `OnUnknownAddress`: the channel after it and the port's answer. -/
def onUnknownAddress (dial : Dial) (now : Word) (p : ℕ) (addr : SocketAddress)
    (request : StunMessage) (remoteUsername : List Byte) : Channel × Option StunMessage :=
  match ch.knownAs remoteUsername addr with
  | none => (ch, bindingErrorResponse request stunErrorStaleCredentials "STALE CREDENTIALS")
  | some remote =>
    let (created, ch) := ch.createConnections dial now remote (some p) true
    if created then
      let (ch, reply) := ch.sendBindingResponse p request addr now
      (ch.sortConnections now, reply)
    else (ch, bindingErrorResponse request stunErrorServerError "SERVER ERROR")

/-- `Port::OnReadPacket`: a packet that is not one of a connection. -/
def onPortPacket (dial : Dial) (now : Word) (p : ℕ) (addr : SocketAddress) (data : List Byte) :
    Channel × Option StunMessage :=
  match getStunMessage (ch.port p).usernameFragment data with
  | .notStun => (ch, none)
  | .handled reply => (ch, reply)
  | .message msg remoteUsername =>
    if msg.type = StunMessageType.bindingRequest.code then
      ch.onUnknownAddress dial now p addr msg remoteUsername
    else (ch, none)

/-- A packet from the remote address of a connection. -/
def onConnectionPacket (now : Word) (i : ℕ) (data : List Byte) : Channel :=
  let c := ch.conn i
  ch.set i (c.onReadPacket (ch.port c.port).usernameFragment data now).conn

/-- The loop of `OnPortReady` over the remote candidates. -/
def createFrom (dial : Dial) (now : Word) (p : ℕ) : List RemoteCandidate → Channel → Channel
  | [], ch => ch
  | rc :: rcs, ch =>
    createFrom dial now p rcs (ch.createConnection dial now p rc.candidate rc.originPort false).2

def onPortReady (dial : Dial) (now : Word) (p : ℕ) : Channel :=
  (createFrom dial now p ch.remoteCandidates { ch with ports := ch.ports ++ [p] }).sortConnections
    now

def onCandidate (dial : Dial) (now : Word) (remote : Candidate) : Channel :=
  (ch.createConnections dial now remote none false).2.sortConnections now

def onConnectionDestroyed (i : ℕ) : Channel :=
  { ch with
    connections := ch.connections.erase i
    bestConnection := if ch.bestConnection = some i then none else ch.bestConnection }

def onPortDestroyed (p : ℕ) : Channel := { ch with ports := ch.ports.erase p }

/-- `OnSignalingReady` and `AddAllocatorSession`: candidates are for new ports only. -/
def onSignalingReady : Channel :=
  if ch.waitingForSignaling then { ch with waitingForSignaling := false, ports := [] } else ch

/-- `Reset`; `connectRequested` is the transport's. -/
def reset (connectRequested : Bool) : Channel :=
  { ch with
    ports := []
    connections := []
    bestConnection := none
    remoteCandidates := []
    readable := false
    writable := false
    waitingForSignaling := connectRequested
    pingingStarted := false
    wasWritable := false
    wasTimedOut := true }

/-! ### Pinging -/

def isPingable (c : Connection) : Bool :=
  if !c.connected then false
  else if ch.writable then c.writeState ≠ .writeTimeout
  else c.writeState ≠ .writeTimeout ∨ c.readState ≠ .readTimeout

/-- The loop of `FindNextPingableConnection`: the oldest one so far and its time. -/
def findOldest : List ℕ → Option ℕ × Word → Option ℕ × Word
  | [], acc => acc
  | i :: is, (oldest, time) =>
    if ch.isPingable (ch.conn i) ∧ (ch.conn i).lastPingSent < time then
      findOldest is (some i, (ch.conn i).lastPingSent)
    else findOldest is (oldest, time)

def findNextPingableConnection (now : Word) : Option ℕ :=
  match ch.bestConnection with
  | some b =>
    if (ch.conn b).writeState = .writable ∧
        (ch.conn b).lastPingSent + maxCurrentWritableDelay ≤ now then some b
    else (ch.findOldest ch.connections (none, 0xFFFFFFFF)).1
  | none => (ch.findOldest ch.connections (none, 0xFFFFFFFF)).1

/-- `OnPing`; `id` is the random id of the request. -/
def onPing (id : List Byte) (now : Word) : Channel :=
  let ch := ch.updateConnectionStates now
  match ch.findNextPingableConnection now with
  | none => ch
  | some i => ch.set i ((ch.conn i).ping id now)

end Channel

end Jingle.P2p
