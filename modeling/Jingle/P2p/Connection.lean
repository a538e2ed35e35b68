/-
Connections between a port and a remote candidate.

`getStunMessage` is the test that a port makes on every packet: a STUN message
whose username has the port's fragment at the right end.  `Connection` is one
link: it is readable while the other side pings it and writable while it answers
pings.  `CheckTimeout` posts the message that deletes a connection once both
have timed out; `deletes` counts those that are posted and not handled yet.

The requests of a connection are those of its `StunRequestManager`, each with
one timer message of its own in the queue.  `now` is `talk_base::Time()`.
-/
import Jingle.P2p.Candidate
import Jingle.Relay.Port

namespace Jingle.P2p

/-! ### STUN messages of a port -/

def stunErrorBadRequest : Word := 400
def stunErrorUnauthorized : Word := 401
def stunErrorUnknownAttribute : Word := 420
def stunErrorStaleCredentials : Word := 430
def stunErrorServerError : Word := 500
def stunErrorGlobalFailure : Word := 600

/-- `GetErrorCode` and `error_code`: the class is the upper byte. -/
def errorCodeIn (msg : StunMessage) : Option Word :=
  match msg.getAttribute .errorCode with
  | some { body := .errorCode eclass number _, .. } =>
    some ((eclass.setWidth 32 <<< 8) ||| number.setWidth 32)
  | _ => none

/-- `ConnectionRequest::Prepare`. -/
def bindingRequest (id remoteUsername usernameFrag : List Byte) : StunMessage :=
  ((StunMessage.new.setTransactionID id).setType
    StunMessageType.bindingRequest.code).addAttribute
      (byteStringAttr .username (remoteUsername ++ usernameFrag))

/-- The message of `SendBindingResponse`. -/
def bindingResponse (request : StunMessage) (username : List Byte) (addr : SocketAddress) :
    StunMessage :=
  (((StunMessage.new.setType StunMessageType.bindingResponse.code).setTransactionID
    request.transactionId).addAttribute (byteStringAttr .username username)).addAttribute
      (addressAttr .mappedAddress { ip := addr.ip, port := addr.port })

/-- The message of `SendBindingErrorResponse`, unless the request has no username. -/
def bindingErrorResponse (request : StunMessage) (code : Word) (reason : String) :
    Option StunMessage :=
  (request.getByteString .username).map fun username =>
    let attr := ((StunAttribute.createNew .errorCode).call (.setErrorCode code)).call
      (.setReason (textBytes reason))
    (((StunMessage.new.setType StunMessageType.bindingErrorResponse.code).setTransactionID
      request.transactionId).addAttribute (byteStringAttr .username username)).addAttribute attr

/-- What `GetStunMessage` finds in a packet: no STUN message, one that it has
dealt with, or one for the caller with the remote part of its username. -/
inductive StunPacket
  | notStun
  | handled (reply : Option StunMessage)
  | message (msg : StunMessage) (remoteUsername : List Byte)

/-- `Port::GetStunMessage`.  A message without a username is dropped; with an
empty fragment the source would look into the attribute all the same. -/
def getStunMessage (usernameFrag data : List Byte) : StunPacket :=
  match StunMessage.new.read data with
  | .error _ => .notStun
  | .ok (msg, rest) =>
    if rest ≠ [] then .notStun
    else
      match msg.getByteString .username with
      | none => .handled none
      | some username =>
        let remoteFragLen := username.length - usernameFrag.length
        if msg.type = StunMessageType.bindingRequest.code then
          if username.length < usernameFrag.length then .handled none
          else if username.take usernameFrag.length ≠ usernameFrag then
            .handled (bindingErrorResponse msg stunErrorBadRequest "BAD REQUEST")
          else .message msg (username.drop usernameFrag.length)
        else if msg.type = StunMessageType.bindingResponse.code ∨
            msg.type = StunMessageType.bindingErrorResponse.code then
          if username.length < usernameFrag.length then .handled none
          else if username.drop remoteFragLen ≠ usernameFrag then .handled none
          else if msg.type = StunMessageType.bindingErrorResponse.code ∧
              errorCodeIn msg = none then .handled none
          else .message msg (username.take remoteFragLen)
        else .handled none

theorem getStunMessage_request {usernameFrag data remoteUsername : List Byte} {msg : StunMessage}
    (h : getStunMessage usernameFrag data = .message msg remoteUsername)
    (ht : msg.type = StunMessageType.bindingRequest.code) :
    StunMessage.new.read data = .ok (msg, []) ∧
      msg.getByteString .username = some (usernameFrag ++ remoteUsername) := by
  rw [getStunMessage] at h
  rcases hread : StunMessage.new.read data with e | ⟨m, rest⟩
  · simp [hread] at h
  · rcases hu : m.getByteString .username with _ | username
    · simp only [hread, hu] at h
      split at h <;> cases h
    · simp only [hread, hu] at h
      split_ifs at h with h₁ h₂ h₃ h₄ h₅ h₆ h₇ h₈ <;> cases h
      · refine ⟨by rw [not_not.1 h₁], ?_⟩
        rw [hu, ← not_not.1 h₄, List.length_take, min_eq_left (by omega), List.take_append_drop]
      · exact absurd ht h₂

/-! ### Judging the pings -/

def connectionReadTimeout : Word := 30 * 1000
def connectionWriteTimeout : Word := 15 * 1000
def connectionWriteConnectTimeout : Word := 5 * 1000
def connectionWriteConnectFailures : ℕ := 5

def minimumRtt : Word := 100
def maximumRtt : Word := 3000
def defaultRtt : Word := maximumRtt

/-- `TooManyFailures`: the given number of pings had the time to be answered. -/
def tooManyFailures (pings : List Word) (maximumFailures : ℕ) (rttEstimate now : Word) : Bool :=
  if pings.length < maximumFailures then false
  else pings.getD (maximumFailures - 1) 0 + rttEstimate < now

def tooLongWithoutResponse (pings : List Word) (maximumTime now : Word) : Bool :=
  match pings with
  | [] => false
  | ping :: _ => ping + maximumTime < now

def conservativeRTTEstimate (rtt : Word) : Word := maxOf minimumRtt (minOf maximumRtt (2 * rtt))

/-- The weight of the old round trip time against a new one. -/
def rttRatio : Word := 3

/-! ### The state -/

inductive ReadState
  | readable | readTimeout
  deriving DecidableEq, Repr

inductive WriteState
  | writable | writeConnect | writeTimeout
  deriving DecidableEq, Repr

/-- A `ConnectionRequest`: its id, when it was sent, and whether it was. -/
structure ConnectionRequest where
  id : List Byte
  tstamp : Word
  timeout : Bool
  deriving DecidableEq, Repr

/-- `Connection`; `port` says which port it belongs to. -/
structure Connection where
  port : ℕ
  remoteCandidate : Candidate
  readState : ReadState
  writeState : WriteState
  connected : Bool
  pruned : Bool
  requests : List ConnectionRequest
  rtt : Word
  lastPingSent : Word
  lastPingReceived : Word
  lastDataReceived : Word
  pingsSinceLastResponse : List Word
  deletes : ℕ

/-- What a connection does with a packet besides its own change: the reply to
the remote address and the data for the application. -/
structure Handled where
  conn : Connection
  reply : Option StunMessage
  data : Option (List Byte)

namespace Connection

/-- The constructor; an outgoing TCP connection is not `connected` yet. -/
def new (port : ℕ) (remoteCandidate : Candidate) (connected : Bool) : Connection where
  port := port
  remoteCandidate := remoteCandidate
  readState := .readTimeout
  writeState := .writeConnect
  connected := connected
  pruned := false
  requests := []
  rtt := defaultRtt
  lastPingSent := 0
  lastPingReceived := 0
  lastDataReceived := 0
  pingsSinceLastResponse := []
  deletes := 0

variable (c : Connection)

/-- Both directions have timed out. -/
def TimedOut : Prop := c.readState = .readTimeout ∧ c.writeState = .writeTimeout

instance : Decidable c.TimedOut := inferInstanceAs (Decidable (_ ∧ _))

def checkTimeout : Connection := if c.TimedOut then { c with deletes := c.deletes + 1 } else c

def setReadState (value : ReadState) : Connection :=
  if value ≠ c.readState then { c with readState := value }.checkTimeout else c

def setWriteState (value : WriteState) : Connection :=
  if value ≠ c.writeState then { c with writeState := value }.checkTimeout else c

def receivedPing (now : Word) : Connection :=
  { c with lastPingReceived := now }.setReadState .readable

def onConnectionRequestResponse (request : ConnectionRequest) (now : Word) : Connection :=
  let rtt := now - request.tstamp
  { c.setWriteState .writable with
    pingsSinceLastResponse := []
    rtt := (rttRatio * c.rtt + rtt) / (rttRatio + 1) }

/-- `OnConnectionRequestErrorResponse`: some errors are worth another try. -/
def onConnectionRequestErrorResponse (response : StunMessage) : Connection :=
  let errorCode := (errorCodeIn response).getD stunErrorGlobalFailure
  if errorCode = stunErrorUnknownAttribute ∨ errorCode = stunErrorServerError ∨
      errorCode = stunErrorUnauthorized then c
  else if errorCode = stunErrorStaleCredentials then c
  else c.setWriteState .writeTimeout

/-- The manager forgets a request. -/
def remove (id : List Byte) : Connection :=
  { c with requests := c.requests.filter fun request => request.id ≠ id }

def checkResponse (msg : StunMessage) (now : Word) : Connection :=
  match c.requests.find? fun request => request.id = msg.transactionId with
  | none => c
  | some request =>
    let type := StunMessageType.bindingRequest.code
    if msg.type = (getStunResponseType type).code then
      (c.onConnectionRequestResponse request now).remove request.id
    else if msg.type = (getStunErrorResponseType type).code then
      (c.onConnectionRequestErrorResponse msg).remove request.id
    else c

/-- If the writability checks have timed out, they start again. -/
def retryWriting : Connection :=
  if !c.pruned ∧ c.writeState = .writeTimeout then c.setWriteState .writeConnect else c

/-- `SendBindingResponse` to the remote address: the port finds this connection
there and it becomes readable. -/
def sendBindingResponse (request : StunMessage) (now : Word) : Handled :=
  match request.getByteString .username with
  | none => { conn := c, reply := none, data := none }
  | some username =>
    { conn := c.receivedPing now
      reply := some (bindingResponse request username c.remoteCandidate.address)
      data := none }

/-- `OnReadPacket` of a connection of the port with this username fragment. -/
def onReadPacket (usernameFrag data : List Byte) (now : Word) : Handled :=
  match getStunMessage usernameFrag data with
  | .notStun =>
    if c.readState = .readable then
      { conn := { c with lastDataReceived := now }.retryWriting, reply := none, data := some data }
    else { conn := c, reply := none, data := none }
  | .handled reply => { conn := c, reply, data := none }
  | .message msg remoteUsername =>
    if remoteUsername ≠ c.remoteCandidate.username then
      if msg.type = StunMessageType.bindingRequest.code then
        { conn := c
          reply := bindingErrorResponse msg stunErrorBadRequest "BAD REQUEST"
          data := none }
      else { conn := c, reply := none, data := none }
    else if msg.type = StunMessageType.bindingRequest.code then
      let h := c.sendBindingResponse msg now
      { h with conn := h.conn.retryWriting }
    else { conn := c.checkResponse msg now, reply := none, data := none }

def prune : Connection :=
  if !c.pruned then { c with pruned := true, requests := [] }.setWriteState .writeTimeout else c

def destroy : Connection := (c.setReadState .readTimeout).setWriteState .writeTimeout

/-- The first part of `UpdateState`. -/
def updateReadState (now : Word) : Connection :=
  if c.readState = .readable ∧ c.lastPingReceived + connectionReadTimeout ≤ now then
    c.setReadState .readTimeout
  else c

/-- The second part: too many pings are not answered. -/
def updateWritable (now : Word) : Connection :=
  if c.writeState = .writable ∧
      tooManyFailures c.pingsSinceLastResponse connectionWriteConnectFailures
        (conservativeRTTEstimate c.rtt) now ∧
      tooLongWithoutResponse c.pingsSinceLastResponse connectionWriteConnectTimeout now then
    c.setWriteState .writeConnect
  else c

/-- The third part: no ping is answered for too long. -/
def updateConnect (now : Word) : Connection :=
  if c.writeState = .writeConnect ∧
      tooLongWithoutResponse c.pingsSinceLastResponse connectionWriteTimeout now then
    c.setWriteState .writeTimeout
  else c

def updateState (now : Word) : Connection :=
  ((c.updateReadState now).updateWritable now).updateConnect now

/-- `Ping`; `id` is the random id of the request. -/
def ping (id : List Byte) (now : Word) : Connection :=
  { c with
    lastPingSent := now
    pingsSinceLastResponse := c.pingsSinceLastResponse ++ [now]
    requests := c.requests ++ [{ id, tstamp := 0, timeout := false }] }

/-- The timer message of a request: it is sent once, and removed by the second
message. -/
def onRequestMessage (id : List Byte) (now : Word) : Connection :=
  match c.requests.find? fun request => request.id = id with
  | none => c
  | some request =>
    if request.timeout then c.remove id
    else
      { c with
        requests := c.requests.map fun request =>
          if request.id = id then { request with tstamp := now, timeout := true } else request }

def onConnect : Connection := { c with connected := true }

def onClose : Connection := { c with connected := false }.setWriteState .writeTimeout

/-! ### What the setters change -/

section Setters

variable {c : Connection} {r : ReadState} {w : WriteState}

@[simp] theorem checkTimeout_readState : c.checkTimeout.readState = c.readState := by
  rw [checkTimeout]
  split <;> rfl

@[simp] theorem checkTimeout_writeState : c.checkTimeout.writeState = c.writeState := by
  rw [checkTimeout]
  split <;> rfl

@[simp] theorem setReadState_readState : (c.setReadState r).readState = r := by
  rw [setReadState]
  split
  · simp
  · next h => exact (not_not.1 h).symm

@[simp] theorem setReadState_writeState : (c.setReadState r).writeState = c.writeState := by
  rw [setReadState]
  split <;> simp

@[simp] theorem setWriteState_readState : (c.setWriteState w).readState = c.readState := by
  rw [setWriteState]
  split <;> simp

@[simp] theorem setWriteState_writeState : (c.setWriteState w).writeState = w := by
  rw [setWriteState]
  split
  · simp
  · next h => exact (not_not.1 h).symm

theorem setReadState_eq : ∃ n, c.setReadState r = { c with readState := r, deletes := n } := by
  rw [setReadState, checkTimeout]
  split_ifs with h
  · exact ⟨_, rfl⟩
  · exact ⟨_, rfl⟩
  · exact ⟨c.deletes, by rw [not_not.1 h]⟩

theorem setWriteState_eq : ∃ n, c.setWriteState w = { c with writeState := w, deletes := n } := by
  rw [setWriteState, checkTimeout]
  split_ifs with h
  · exact ⟨_, rfl⟩
  · exact ⟨_, rfl⟩
  · exact ⟨c.deletes, by rw [not_not.1 h]⟩

end Setters

end Connection

end Jingle.P2p
