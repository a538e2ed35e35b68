/-
Transports and their proxies.

A session talks to a transport through a `TransportProxy`, which exists before
the transport is negotiated.  Its channels are stand-ins: `impl` is the channel
of the transport behind one, known by number.  `connects` is the history of the
channels of the transport on which `Connect` was called, `handed` that of the
candidates it was given, `posted` that of its messages to the signaling thread.

The maps from names to channels are lists; an assertion that fails is passed
over, as in a release build.
-/
import Jingle.P2p.Candidate

namespace Jingle.Signaling

open P2p (Candidate)

/-- What a transport posts to the signaling thread. -/
inductive TransportMessage
  | connecting | candidateReady | writeState
  deriving DecidableEq, Repr

/-- A `TransportChannelImpl`. -/
structure ChannelImpl where
  id : ℕ
  name : List Byte
  contentType : List Byte
  deriving DecidableEq, Repr

structure Transport where
  type : List Byte
  channels : List ChannelImpl
  connectRequested : Bool
  destroyed : Bool
  nextImpl : ℕ
  connects : List ℕ
  handed : List Candidate
  posted : List TransportMessage

namespace Transport

/-- A new transport. -/
def new (type : List Byte) : Transport where
  type := type
  channels := []
  connectRequested := false
  destroyed := false
  nextImpl := 0
  connects := []
  handed := []
  posted := []

variable (t : Transport)

def getChannel (name : List Byte) : Option ChannelImpl :=
  t.channels.find? fun impl => impl.name = name

def createChannel (name contentType : List Byte) : ChannelImpl × Transport :=
  let impl : ChannelImpl := { id := t.nextImpl, name, contentType }
  let t : Transport := { t with
    nextImpl := t.nextImpl + 1
    channels := (t.channels.filter fun impl => impl.name ≠ name) ++ [impl]
    destroyed := false }
  if t.connectRequested then
    (impl, { t with
      connects := t.connects ++ [impl.id]
      posted := if t.channels.length = 1 then t.posted ++ [.connecting] else t.posted })
  else (impl, t)

def destroyChannel (name : List Byte) : Transport :=
  match t.getChannel name with
  | none => t
  | some _ =>
    let channels := t.channels.filter fun impl => impl.name ≠ name
    let connecting : List TransportMessage :=
      if t.connectRequested && channels.isEmpty then [.connecting] else []
    { t with channels, posted := t.posted ++ connecting ++ [.writeState] }

def connectChannels : Transport :=
  if t.connectRequested || t.channels.isEmpty then t
  else
    { t with
      connectRequested := true
      connects := t.connects ++ t.channels.map (·.id)
      posted := t.posted ++ [.candidateReady, .connecting] }

/-- `OnRemoteCandidate`: only a candidate of a known channel is handed on. -/
def onRemoteCandidate (candidate : Candidate) : Transport :=
  if t.destroyed then t
  else if (t.getChannel candidate.name).isNone then t
  else { t with handed := t.handed ++ [candidate] }

def onRemoteCandidates (candidates : List Candidate) : Transport :=
  candidates.foldl onRemoteCandidate t

end Transport

/-- `TransportChannelProxy`. -/
structure ChannelProxy where
  name : List Byte
  contentType : List Byte
  impl : Option ℕ
  deriving DecidableEq, Repr

/-- The states of a `TransportProxy`. -/
inductive ProxyState
  | init | connecting | negotiated
  deriving DecidableEq, Repr

structure TransportProxy where
  contentName : List Byte
  transport : Transport
  state : ProxyState
  channels : List ChannelProxy
  sentCandidates : List Candidate
  unsentCandidates : List Candidate

namespace TransportProxy

/-- A new proxy. -/
def new (contentName type : List Byte) : TransportProxy where
  contentName := contentName
  transport := .new type
  state := .init
  channels := []
  sentCandidates := []
  unsentCandidates := []

variable (p : TransportProxy)

def negotiated : Bool := p.state = .negotiated

def getProxy (name : List Byte) : Option ChannelProxy := p.channels.find? fun ch => ch.name = name

def getOrCreateImpl (name contentType : List Byte) : ChannelImpl × TransportProxy :=
  match p.transport.getChannel name with
  | some impl => (impl, p)
  | none =>
    let (impl, transport) := p.transport.createChannel name contentType
    (impl, { p with transport })

def setProxyImpl (name contentType : List Byte) : TransportProxy :=
  let (impl, p) := p.getOrCreateImpl name contentType
  { p with
    channels := p.channels.map fun ch =>
      if ch.name = name then { ch with impl := some impl.id } else ch }

def createChannel (name contentType : List Byte) : TransportProxy :=
  let ch : ChannelProxy := { name, contentType, impl := none }
  let p : TransportProxy :=
    { p with channels := (p.channels.filter fun ch => ch.name ≠ name) ++ [ch] }
  match p.state with
  | .negotiated => p.setProxyImpl name contentType
  | .connecting => (p.getOrCreateImpl name contentType).2
  | .init => p

/-- `DestroyChannel`, with the destructor of the channel. -/
def destroyChannel (name : List Byte) : TransportProxy :=
  match p.getProxy name with
  | none => p
  | some ch =>
    let p : TransportProxy := { p with channels := p.channels.filter fun ch => ch.name ≠ name }
    if ch.impl.isSome then { p with transport := p.transport.destroyChannel name } else p

/-- The loop of `SpeculativelyConnectChannels`. -/
def createImpls : List ChannelProxy → TransportProxy → TransportProxy
  | [], p => p
  | ch :: chs, p => createImpls chs (p.getOrCreateImpl ch.name ch.contentType).2

/-- The loop of `CompleteNegotiation`. -/
def setImpls : List ChannelProxy → TransportProxy → TransportProxy
  | [], p => p
  | ch :: chs, p => setImpls chs (p.setProxyImpl ch.name ch.contentType)

/-- The channels of the transport are connected. -/
def connectChannels : TransportProxy := { p with transport := p.transport.connectChannels }

def speculativelyConnectChannels : TransportProxy :=
  (createImpls p.channels { p with state := .connecting }).connectChannels

def completeNegotiation : TransportProxy :=
  if p.state ≠ .negotiated then
    (setImpls p.channels { p with state := .negotiated }).connectChannels
  else p

def addSentCandidates (candidates : List Candidate) : TransportProxy :=
  { p with sentCandidates := p.sentCandidates ++ candidates }

def addUnsentCandidates (candidates : List Candidate) : TransportProxy :=
  { p with unsentCandidates := p.unsentCandidates ++ candidates }

def clearSentCandidates : TransportProxy := { p with sentCandidates := [] }

def clearUnsentCandidates : TransportProxy := { p with unsentCandidates := [] }

end TransportProxy

end Jingle.Signaling
