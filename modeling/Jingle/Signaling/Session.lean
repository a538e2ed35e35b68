/-
The session.

`Session` is a session of the signaling thread.  `queue` are its messages in the
queue of that thread, in order, and `timeouts` the delayed ones; `entered` is the
history of the states it has entered, `sent` that of what it has sent, and
`destroys` counts the calls of `DestroySession` for it.  The manager has the
session in its map, so such a call deletes it: it is not `alive` any more and its
messages are cleared.

`SetState` and `SetError` tell the listeners before they return, and a listener
may call the session.  What the listeners of one such signal do is a `Reaction`:
a list of calls, each with the reaction to the change that the call makes.
Sending a message only hands it over.

Whether the contents of a description can be written is up to the client;
`written` says it.  A null description has no contents.
-/
import Jingle.Signaling.Message
import Jingle.Tunnel.Session

namespace Jingle.Signaling

open P2p (Candidate)
open Tunnel (SessionState)

/-- `BaseSession::Error`. -/
inductive SessionError
  | none | time | response | network | content
  deriving DecidableEq, Repr

/-- The messages that a session posts to itself at once. -/
inductive Posted
  | error | state
  deriving DecidableEq, Repr

structure Session where
  localName : Text
  remoteName : Text
  initiatorName : Text
  sid : Text
  contentType : Text
  state : SessionState
  error : SessionError
  localDescription : Option (List ContentInfo)
  remoteDescription : Option (List ContentInfo)
  initiator : Bool
  initiateAcked : Bool
  allowLocalIps : Bool
  currentProtocol : SignalingProtocol
  transports : List TransportProxy
  queue : List Posted
  timeouts : ℕ
  entered : List SessionState
  sent : List Outgoing
  destroys : ℕ
  alive : Bool

/-- What the code around a session decides: the addresses of this host, and which
names have the same bare JID. -/
structure Env where
  isLocalIP : P2p.SocketAddress → Bool
  bareJidsEqual : Text → Text → Bool

/-- The calls that a client makes. -/
inductive Call
  | initiate (to_ : Text) (sdesc : List ContentInfo) (written : Bool)
  | accept (sdesc : List ContentInfo) (written : Bool)
  | reject
  | terminateWithReason (reason : Text)
  | setError (error : SessionError)
  | createChannel (contentName channelName : Text)
  | destroyChannel (contentName channelName : Text)

/-- The calls that listeners make on one signal. -/
inductive Reaction
  | done
  | call (c : Call) (inner rest : Reaction)

namespace Session

/-- A new session. -/
def new (localName initiatorName sid contentType : Text) : Session where
  localName := localName
  remoteName := []
  initiatorName := initiatorName
  sid := sid
  contentType := contentType
  state := .init
  error := .none
  localDescription := none
  remoteDescription := none
  initiator := false
  initiateAcked := false
  allowLocalIps := false
  currentProtocol := .hybrid
  transports := []
  queue := []
  timeouts := 0
  entered := []
  sent := []
  destroys := 0
  alive := true

variable (s : Session) (react : Session → Session)

/-! ### State and error -/

def setState (state : SessionState) : Session :=
  if state ≠ s.state then
    let s := react { s with state, entered := s.entered ++ [state] }
    { s with queue := s.queue ++ [.state] }
  else s

def setError (error : SessionError) : Session :=
  let s := if error ≠ s.error then react { s with error } else s
  if s.error ≠ .none then { s with queue := s.queue ++ [.error] } else s

/-- A message to the other side. -/
def send (action : Action) : Session :=
  { s with sent := s.sent ++ [{ to_ := s.remoteName, protocol := s.currentProtocol, action }] }

/-! ### Transports -/

def getTransportProxy (contentName : Text) : Option TransportProxy :=
  s.transports.find? fun p => p.contentName = contentName

/-- A change of the proxy of a content. -/
def updateProxy (contentName : Text) (f : TransportProxy → TransportProxy) : Session :=
  { s with
    transports := s.transports.map fun p => if p.contentName = contentName then f p else p }

def getOrCreateTransportProxy (contentName : Text) : Session :=
  match s.getTransportProxy contentName with
  | some _ => s
  | none => { s with transports := s.transports ++ [.new contentName nsGingleP2p] }

/-- `CreateTransportProxies`: the first unsupported transport ends it. -/
def createTransportProxies : List TransportInfo → Session → Bool × Session
  | [], s => (true, s)
  | info :: infos, s =>
    if info.transportType ≠ nsGingleP2p then (false, s)
    else createTransportProxies infos (s.getOrCreateTransportProxy info.contentName)

def getEmptyTransportInfos (contents : List ContentInfo) : List TransportInfo :=
  contents.map fun content =>
    { contentName := content.name, transportType := nsGingleP2p, candidates := [] }

def speculativelyConnectAllTransportChannels : Session :=
  { s with transports := s.transports.map TransportProxy.speculativelyConnectChannels }

def createChannel (contentName channelName : Text) : Session :=
  (s.getOrCreateTransportProxy contentName).updateProxy contentName fun p =>
    p.createChannel channelName s.contentType

def destroyChannel (contentName channelName : Text) : Session :=
  s.updateProxy contentName fun p => p.destroyChannel channelName

def sendTransportInfoMessage (contentName : Text) (candidates : List Candidate) : Session :=
  s.send (.transportInfo { contentName, transportType := nsGingleP2p, candidates })

/-- The loop of the next two: the candidates that a proxy keeps are sent and cleared. -/
def flush (candidates : TransportProxy → List Candidate)
    (clear : TransportProxy → TransportProxy) : List TransportProxy → Session → Session
  | [], s => s
  | p :: ps, s =>
    if candidates p = [] then flush candidates clear ps s
    else
      flush candidates clear ps
        ((s.sendTransportInfoMessage p.contentName (candidates p)).updateProxy p.contentName clear)

def resendAllTransportInfoMessages : Session :=
  flush TransportProxy.sentCandidates TransportProxy.clearSentCandidates s.transports s

def sendAllUnsentTransportInfoMessages : Session :=
  flush TransportProxy.unsentCandidates TransportProxy.clearUnsentCandidates s.transports s

def onTransportCandidatesReady (contentName : Text) (candidates : List Candidate) : Session :=
  match s.getTransportProxy contentName with
  | none => s
  | some p =>
    if s.initiator && !s.initiateAcked then
      s.updateProxy contentName fun p => p.addUnsentCandidates candidates
    else
      let s :=
        if !p.negotiated then s.updateProxy contentName fun p => p.addSentCandidates candidates
        else s
      s.sendTransportInfoMessage contentName candidates

/-- `OnTransportConnecting` and `OnTransportWritable`, with what the transport says. -/
def onTransportWritable (hasChannels writable : Bool) : Session :=
  { s with timeouts := if hasChannels && !writable then 1 else 0 }

/-! ### Calls -/

def sendInitiateMessage (sdesc : List ContentInfo) (written : Bool) : Bool × Session :=
  if written then
    (true, s.send (.initiate { contents := sdesc, transports := getEmptyTransportInfos sdesc }))
  else (false, s)

def initiate (to_ : Text) (sdesc : List ContentInfo) (written : Bool) : Session :=
  if s.state ≠ .init then s
  else
    let s := { s with remoteName := to_, initiator := true, localDescription := some sdesc }
    match createTransportProxies (getEmptyTransportInfos sdesc) s with
    | (false, s) => s
    | (true, s) =>
      match s.sendInitiateMessage sdesc written with
      | (false, s) => s
      | (true, s) => (s.setState react .sentInitiate).speculativelyConnectAllTransportChannels

def accept (sdesc : List ContentInfo) (written : Bool) : Session :=
  if s.state ≠ .receivedInitiate then s
  else
    let s := { s with initiator := false, localDescription := some sdesc }
    if !written then s
    else
      (s.send (.accept { contents := sdesc, transports := getEmptyTransportInfos sdesc })).setState
        react .sentAccept

def reject : Session :=
  if s.state ≠ .receivedInitiate ∧ s.state ≠ .receivedModify then s
  else ({ s with initiator := false }.send .reject).setState react .sentReject

/-- `TerminateWithReason`: a reject makes the message needless. -/
def terminateWithReason (reason : Text) : Session :=
  match s.state with
  | .sentTerminate | .receivedTerminate => s
  | .sentReject | .receivedReject => s.setState react .sentTerminate
  | _ => (s.send (.terminate reason)).setState react .sentTerminate

/-- One call. -/
def call : Call → Session
  | .initiate to_ sdesc written => s.initiate react to_ sdesc written
  | .accept sdesc written => s.accept react sdesc written
  | .reject => s.reject react
  | .terminateWithReason reason => s.terminateWithReason react reason
  | .setError error => s.setError react error
  | .createChannel contentName channelName => s.createChannel contentName channelName
  | .destroyChannel contentName channelName => s.destroyChannel contentName channelName

/-- What the listeners of a signal do to the session. -/
def run : Reaction → Session → Session
  | .done, s => s
  | .call c inner rest, s => run rest (s.call (run inner) c)

/-! ### Incoming messages -/

def checkState (state : SessionState) : Bool := s.state = state

def isPrivateIP (addr : P2p.SocketAddress) : Bool :=
  addr.ip >>> 24 = 127 ∨ addr.ip >>> 24 = 10 ∨ addr.ip >>> 20 = 2753 ∨ addr.ip >>> 16 = 49320 ∨
    addr.ip >>> 16 = 43518

def verifyCandidate (env : Env) (cand : Candidate) : Except Text Unit :=
  if env.isLocalIP cand.address && !s.allowLocalIps then
    .error (textBytes "candidate has local IP address")
  else if cand.address.ip = 0 then .error (textBytes "candidate has address of zero")
  else if cand.address.port < 1024 then
    if cand.address.port ≠ 80 ∧ cand.address.port ≠ 443 then
      .error (textBytes "candidate has port below 1024, but not 80 or 443")
    else if isPrivateIP cand.address then
      .error (textBytes "candidate has port of 80 or 443 with private IP address")
    else .ok ()
  else .ok ()

/-- The checks of `OnRemoteCandidates` on the candidates of one content. -/
def verifyCandidates (env : Env) (p : TransportProxy) : List Candidate → Except Text Unit
  | [] => .ok ()
  | cand :: cands =>
    match s.verifyCandidate env cand with
    | .error text => .error text
    | .ok () =>
      if (p.transport.getChannel cand.name).isNone then
        .error (textBytes "channel named in candidate does not exist: " ++ cand.name ++
          textBytes " for content: " ++ p.contentName)
      else verifyCandidates env p cands

def onRemoteCandidates (env : Env) : List TransportInfo → Session → Except Text Unit × Session
  | [], s => (.ok (), s)
  | info :: infos, s =>
    match s.getTransportProxy info.contentName with
    | none => (.error (textBytes "Unknown content name: " ++ info.contentName), s)
    | some p =>
      -- candidates need the implementations of the channels
      let s := s.updateProxy info.contentName TransportProxy.completeNegotiation
      match s.verifyCandidates env p.completeNegotiation info.candidates with
      | .error text => (.error text, s)
      | .ok () =>
        onRemoteCandidates env infos (s.updateProxy info.contentName fun p =>
          { p with transport := p.transport.onRemoteCandidates info.candidates })

def onInitiateAcked : Session :=
  if !s.initiateAcked then { s with initiateAcked := true }.sendAllUnsentTransportInfoMessages
  else s

/-- `BadMessage` of `CheckState`. -/
def notAllowed : Text := textBytes "message not allowed in current state"

variable {ε : Type} (parsers : Parsers ε) (env : Env)

def onInitiateMessage (msg : SessionMessage ε) : Except Text Unit × Session :=
  if !s.checkState .init then (.error notAllowed, s)
  else
    match parsers.parseSessionInitiate msg.protocol msg.actionElem with
    | .error text => (.error text, s)
    | .ok init =>
      match createTransportProxies init.transports s with
      | (false, s) => (.error (textBytes "No supported transport in offer."), s)
      | (true, s) =>
        let s := { s with
          initiator := false
          remoteName := msg.from_
          remoteDescription := some init.contents }
        let s := s.setState react .receivedInitiate
        if s.state ≠ .sentReject then onRemoteCandidates env init.transports s else (.ok (), s)

def onAcceptMessage (msg : SessionMessage ε) : Except Text Unit × Session :=
  if !s.checkState .sentInitiate then (.error notAllowed, s)
  else
    match parsers.parseSessionAccept msg.protocol msg.actionElem with
    | .error text => (.error text, s)
    | .ok accept =>
      let s := { s.onInitiateAcked with remoteDescription := some accept.contents }
      let s := s.setState react .receivedAccept
      if s.state ≠ .sentReject then onRemoteCandidates env accept.transports s else (.ok (), s)

def onRejectMessage : Except Text Unit × Session :=
  if !s.checkState .sentInitiate then (.error notAllowed, s)
  else (.ok (), s.setState react .receivedReject)

/-- `OnTerminateMessage`; `heard` is the reaction to the reason. -/
def onTerminateMessage (heard : Session → Session) (msg : SessionMessage ε) :
    Except Text Unit × Session :=
  match parsers.parseSessionTerminate msg.protocol msg.actionElem with
  | .error text => (.error text, s)
  | .ok _ => (.ok (), (heard s).setState react .receivedTerminate)

def initiatorDescription : Option (List ContentInfo) :=
  if s.initiator then s.localDescription else s.remoteDescription

def onTransportInfoMessage (msg : SessionMessage ε) : Except Text Unit × Session :=
  match parsers.parseTransportInfos msg.protocol msg.actionElem
      (s.initiatorDescription.getD []) with
  | .error text => (.error text, s)
  | .ok tinfos => onRemoteCandidates env tinfos s

/-- `OnUpdateMessage`: all updates are checked before one is merged. -/
def onUpdateMessage (heard : Session → Session) (msg : SessionMessage ε) :
    Except Text Unit × Session :=
  if !s.checkState .inProgress then (.error notAllowed, s)
  else
    match parsers.parseDescriptionInfo msg.protocol msg.actionElem with
    | .error text => (.error text, s)
    | .ok updated =>
      let contents := s.remoteDescription.getD []
      if updated.any fun content => (getContentByName contents content.name).isNone then
        (.error [], s)
      else
        let merged := updated.foldl (fun contents content =>
          removeContentByName contents content.name ++ [content]) contents
        (.ok (), heard { s with remoteDescription := some merged })

/-- A session that speaks both protocols goes on in that of the first message. -/
def chooseProtocol (protocol : SignalingProtocol) : Session :=
  if s.currentProtocol = .hybrid then
    { s with currentProtocol := if protocol = .gingle then .gingle else .jingle }
  else s

/-- `OnIncomingMessage`: the error that it answers with, if the message is not
valid, and the session after it. -/
def onIncomingMessage (heard : Session → Session) (msg : SessionMessage ε) :
    Except Text Unit × Session :=
  let s := s.chooseProtocol msg.protocol
  match msg.type with
  | .sessionInitiate => s.onInitiateMessage react parsers env msg
  | .sessionInfo => (.ok (), heard s)
  | .sessionAccept => s.onAcceptMessage react parsers env msg
  | .sessionReject => s.onRejectMessage react
  | .sessionTerminate => s.onTerminateMessage react parsers heard msg
  | .transportInfo => s.onTransportInfoMessage parsers env msg
  | .transportAccept => (.ok (), s)
  | .update => s.onUpdateMessage parsers heard msg
  | .unknown => (.error (textBytes "unknown session message type"), s)

/-! ### Responses to sent messages -/

def onIncomingResponse (type : ActionType) : Session :=
  if type = .sessionInitiate then s.onInitiateAcked else s

/-- `OnRedirectError`: the session goes on with the new target. -/
def onRedirectError (target : Text) (written : Bool) : Bool × Session :=
  if !s.checkState .sentInitiate then (false, s)
  else if !env.bareJidsEqual s.remoteName target then (false, s)
  else
    match { s with remoteName := target }.sendInitiateMessage (s.localDescription.getD [])
        written with
    | (false, s) => (false, s)
    | (true, s) => (true, s.resendAllTransportInfoMessages)

/-- `OnFailedSend` of a message of a type: the error names a redirect, or a kind
of error, or nothing. -/
def onFailedSend (type : ActionType) (redirect : Option Text) (errorType : Option Text)
    (written : Bool) : Session :=
  match redirect with
  | some target =>
    match s.onRedirectError env target written with
    | (true, s) => s
    | (false, s) => s.setError react .response
  | none =>
    match errorType with
    | none => s
    | some errorType =>
      if type = .transportInfo then s
      else if errorType ≠ textBytes "continue" ∧ errorType ≠ textBytes "wait" then
        s.setError react .response
      else s

/-! ### Posted messages -/

def destroySession : Session :=
  { s with destroys := s.destroys + 1, alive := false, queue := [], timeouts := 0 }

/-- `BaseSession::OnMessage` for `MSG_STATE`. -/
def onStateMessage : Session :=
  match s.state with
  | .sentAccept | .receivedAccept => s.setState react .inProgress
  | .sentReject | .receivedReject => s.terminateWithReason react strTerminateSuccess
  | _ => s

/-- `Session::OnMessage`: the state before the message decides about the deletion. -/
def onMessage : Posted → Session
  | .state =>
    if s.state.isTerminated then (s.onStateMessage react).destroySession
    else s.onStateMessage react
  | .error => s.terminateWithReason react strTerminateError

/-- `OnMessage` for `MSG_TIMEOUT`. -/
def onTimeout : Session := s.setError react .time

end Session

/-! ### Events -/

/-- What can happen to a session, with what its listeners do then. -/
inductive Event (ε : Type)
  | call (c : Call) (reaction : Reaction)
  | incomingMessage (msg : SessionMessage ε) (reaction heard : Reaction)
  | incomingResponse (type : ActionType)
  | failedSend (type : ActionType) (redirect errorType : Option Text) (written : Bool)
      (reaction : Reaction)
  | transportCandidatesReady (contentName : Text) (candidates : List Candidate)
  | transportWritable (hasChannels writable : Bool)
  | message (reaction : Reaction)
  | timeout (reaction : Reaction)

namespace Session

variable {ε : Type} (parsers : Parsers ε) (env : Env)

/-- The session after an event; `message` is the first one of its queue. -/
def act (s : Session) : Event ε → Session
  | .call c reaction => s.call (run reaction) c
  | .incomingMessage msg reaction heard =>
    (s.onIncomingMessage (run reaction) parsers env (run heard) msg).2
  | .incomingResponse type => s.onIncomingResponse type
  | .failedSend type redirect errorType written reaction =>
    s.onFailedSend (run reaction) env type redirect errorType written
  | .transportCandidatesReady contentName candidates =>
    s.onTransportCandidatesReady contentName candidates
  | .transportWritable hasChannels writable => s.onTransportWritable hasChannels writable
  | .message reaction =>
    match s.queue with
    | [] => s
    | p :: ps => { s with queue := ps }.onMessage (run reaction) p
  | .timeout reaction =>
    if s.timeouts = 0 then s else { s with timeouts := s.timeouts - 1 }.onTimeout (run reaction)

/-- The session after a sequence of events; nothing happens to one that is deleted. -/
def acts (s : Session) (es : List (Event ε)) : Session :=
  es.foldl (fun s e => if s.alive then s.act parsers env e else s) s

end Session

end Jingle.Signaling
