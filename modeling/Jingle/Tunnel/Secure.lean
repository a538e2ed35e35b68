/-
Secure tunnels.

`SecureTunnel` is a session of the secure tunnel client with its
`SecureTunnelSession`: the state of the session, the description of the peer,
the SSL streams that were made for the tunnel and the reference that
`MakeSecureStream` keeps for `OnAccept`.  All of it lives on the signaling
thread, so `step` runs an event to its end.  The state signal calls back into
the tunnel, which may reject the session while the signal is raised.

Parsing of certificates is not part of the repository and is a parameter.
-/
import Jingle.Tunnel.Session

namespace Jingle

namespace Tunnel

/-! ### Descriptions -/

/-- A content of a session description, with the fields of
`SecureTunnelContentDescription`. -/
structure ContentInfo where
  name : String
  type : String
  description : String
  clientPemCertificate : String
  serverPemCertificate : String
  deriving DecidableEq, Repr

abbrev SessionDescription := List ContentInfo

def nsSecureTunnel : String := "http://www.google.com/talk/securetunnel"

def findSecureTunnelContent (sdesc : SessionDescription) : Option ContentInfo :=
  sdesc.find? fun c => c.type = nsSecureTunnel

/-- The certificate of the peer, which is the server for the initiator. -/
def ContentInfo.peerPem (role : Role) (c : ContentInfo) : String :=
  match role with
  | .initiator => c.serverPemCertificate
  | .responder => c.clientPemCertificate

/-- The merge of `OnUpdateMessage`: contents are replaced by name, if all names are known. -/
def mergeContents (updated : List ContentInfo) (sdesc : SessionDescription) : SessionDescription :=
  if updated.all fun u => sdesc.any fun c => c.name = u.name then
    updated.foldl (fun d u => d.eraseP (fun c => c.name = u.name) ++ [u]) sdesc
  else sdesc

/-! ### The tunnel -/

/-- What the tunnel does. -/
inductive SecureEvent (Cert : Type)
  /-- `SetPeerCertificate` on an SSL stream. -/
  | setPeerCertificate (stream : ℕ) (cert : Cert)
  /-- `Connect` on the channel. -/
  | connect (contentName : String)
  /-- The user is asked to accept the tunnel. -/
  | signalIncomingTunnel (description : String)
  /-- A use of `ssl_stream_reference_` while it is empty. -/
  | nullReference
  /-- A use of the description of the peer, or of its tunnel content, while there is none. -/
  | nullContent
  | assertFailed
  deriving DecidableEq, Repr

/-- A `Session` and its `SecureTunnelSession`. -/
structure SecureTunnel (Cert : Type) where
  role : Role
  state : SessionState := .init
  remoteDescription : Option SessionDescription := none
  /-- The `MSG_STATE` messages that are queued. -/
  posted : ℕ := 0
  /-- The session has not been destroyed. -/
  alive : Bool := true
  /-- The transport channel exists. -/
  channel : Bool := false
  /-- `ssl_stream_reference_`, as the number of the stream. -/
  reference : Option ℕ := none
  /-- The SSL streams that were made, with the certificate they expect. -/
  streams : List (Option Cert) := []
  log : List (SecureEvent Cert) := []

/-- The events of the signaling thread.  Messages are those that were parsed. -/
inductive SecureOp
  | onInitiateMessage (sdesc : SessionDescription)
  | onAcceptMessage (sdesc : SessionDescription)
  | onRejectMessage
  | onTerminateMessage
  | onUpdateMessage (updated : List ContentInfo)
  /-- `AcceptTunnel`; the accept message may fail to be written. -/
  | acceptTunnel (sent : Bool)
  | declineTunnel
  | findSessionByStream
  /-- `TerminateWithReason`, by the user, a timeout, an error or the channel. -/
  | terminate
  /-- A queued `MSG_STATE` is handled. -/
  | onMessage
  | destroySession
  deriving DecidableEq, Repr

namespace SecureTunnel

variable {Cert : Type} (fromPEMString : String → Option Cert)

def note (e : SecureEvent Cert) (s : SecureTunnel Cert) : SecureTunnel Cert :=
  { s with log := s.log ++ [e] }

def parseCertificate (pem : String) : Option Cert := if pem = "" then none else fromPEMString pem

/-- The certificate that a description announces for the peer. -/
def peerCertificate (role : Role) (sdesc : SessionDescription) : Option Cert :=
  (findSecureTunnelContent sdesc).bind fun c => parseCertificate fromPEMString (c.peerPem role)

/-- `SetState` to a state on whose signal the tunnel does nothing. -/
def enter (st : SessionState) (s : SecureTunnel Cert) : SecureTunnel Cert :=
  if st = s.state then s else { s with state := st, posted := s.posted + 1 }

def reject (s : SecureTunnel Cert) : SecureTunnel Cert :=
  if s.state.canReject then s.enter .sentReject else s

/-- `SecureTunnelSession::GetStream` and `MakeSecureStream`. -/
def getStream (s : SecureTunnel Cert) : SecureTunnel Cert :=
  let s := if s.reference = none then s else s.note .assertFailed
  { s with reference := some s.streams.length, streams := s.streams ++ [none] }

def onIncomingTunnel (s : SecureTunnel Cert) : SecureTunnel Cert :=
  match s.remoteDescription.bind findSecureTunnelContent with
  | none => s.note .nullContent
  | some content =>
    match parseCertificate fromPEMString content.clientPemCertificate with
    | none => s.reject
    | some _ => s.note (.signalIncomingTunnel content.description)

/-- `PseudoTcpChannel::Connect`, as far as the tunnel depends on it. -/
def connect (contentName : String) (s : SecureTunnel Cert) : SecureTunnel Cert :=
  if s.channel then s.note .assertFailed else { s with channel := true }.note (.connect contentName)

def onAccept (s : SecureTunnel Cert) : SecureTunnel Cert :=
  match s.remoteDescription with
  | none => s.note .nullContent
  | some sdesc =>
    match findSecureTunnelContent sdesc with
    | none => s.reject
    | some content =>
      match parseCertificate fromPEMString (content.peerPem s.role) with
      | none => if s.role = .initiator then s.reject else (s.note .assertFailed).reject
      | some cert =>
        match s.reference with
        | none => s.note .nullReference
        | some k =>
          connect content.name
            ({ s with streams := s.streams.set k (some cert), reference := none }.note
              (.setPeerCertificate k cert))

/-- `TunnelSession::OnSessionState`.  `OnTerminate` concerns the channel only. -/
def onSessionState (st : SessionState) (s : SecureTunnel Cert) : SecureTunnel Cert :=
  match st with
  | .receivedInitiate => s.onIncomingTunnel fromPEMString
  | .sentAccept | .receivedAccept => s.onAccept fromPEMString
  | _ => s

def setState (st : SessionState) (s : SecureTunnel Cert) : SecureTunnel Cert :=
  if st = s.state then s
  else
    let s := onSessionState fromPEMString st { s with state := st }
    { s with posted := s.posted + 1 }

def accept (sent : Bool) (s : SecureTunnel Cert) : SecureTunnel Cert :=
  if s.state.canAccept ∧ sent then s.setState fromPEMString .sentAccept else s

/-- `Session::TerminateWithReason`. -/
def terminate (s : SecureTunnel Cert) : SecureTunnel Cert :=
  if s.state.canTerminate then s.setState fromPEMString .sentTerminate else s

/-- `AcceptTunnel`.  The answer is made if the description has a tunnel content. -/
def acceptTunnel (sent : Bool) (s : SecureTunnel Cert) : SecureTunnel Cert :=
  match s.remoteDescription with
  | none => s.note .nullContent
  | some sdesc =>
    if (findSecureTunnelContent sdesc).isSome then (s.accept fromPEMString sent).getStream else s

/-- `Session::OnMessage` for `MSG_STATE`. -/
def onMessage (s : SecureTunnel Cert) : SecureTunnel Cert :=
  if s.posted = 0 then s
  else
    let origState := s.state
    let s := { s with posted := s.posted - 1 }
    let s := match origState.completed with
      | some .sentTerminate => s.terminate fromPEMString
      | some st => s.setState fromPEMString st
      | none => s
    if origState.isTerminated then { s with alive := false } else s

/-- One event on the signaling thread. -/
def handle (op : SecureOp) (s : SecureTunnel Cert) : SecureTunnel Cert :=
  match op with
  | .onInitiateMessage sdesc =>
    if s.state = .init then
      { s with remoteDescription := some sdesc }.setState fromPEMString .receivedInitiate
    else s
  | .onAcceptMessage sdesc =>
    if s.state = .sentInitiate then
      { s with remoteDescription := some sdesc }.setState fromPEMString .receivedAccept
    else s
  | .onRejectMessage =>
    if s.state = .sentInitiate then s.setState fromPEMString .receivedReject else s
  | .onTerminateMessage => s.setState fromPEMString .receivedTerminate
  | .onUpdateMessage updated =>
    if s.state = .inProgress then
      { s with remoteDescription := s.remoteDescription.map (mergeContents updated) }
    else s
  | .acceptTunnel sent => s.acceptTunnel fromPEMString sent
  | .declineTunnel => s.reject
  | .findSessionByStream => s.getStream
  | .terminate => s.terminate fromPEMString
  | .onMessage => s.onMessage fromPEMString
  | .destroySession => { s with alive := false }

/-- One event, from an empty log; nothing reaches a session that was destroyed. -/
def step (op : SecureOp) (s : SecureTunnel Cert) : SecureTunnel Cert :=
  if s.alive = true then handle fromPEMString op { s with log := [] } else { s with log := [] }

/-- A session that was created for an incoming message. -/
def received : SecureTunnel Cert := { role := .responder }

/-- `MSG_CREATE_TUNNEL`; the initiate message may fail to be written. -/
def createTunnel (sent : Bool) : SecureTunnel Cert :=
  let s : SecureTunnel Cert := { role := .initiator }
  (if sent then s.setState fromPEMString .sentInitiate else s).getStream

def IsStart (s : SecureTunnel Cert) : Prop :=
  s = received ∨ ∃ sent, s = createTunnel fromPEMString sent

/-! ### What the tunnel promises -/

/-- `Connect` comes right after `SetPeerCertificate` on the only SSL stream of the tunnel,
with the certificate that the peer announced, and the reference is there when it is used. -/
structure Safe (s : SecureTunnel Cert) : Prop where
  pinned : ∀ name, .connect name ∈ s.log → ∃ sdesc cert, s.remoteDescription = some sdesc ∧
    peerCertificate fromPEMString s.role sdesc = some cert ∧
    s.log = [.setPeerCertificate 0 cert, .connect name] ∧ s.streams = [some cert]
  referenced : .nullReference ∉ s.log

/-- The session has been rejected or terminated, and will be destroyed. -/
def Ended (s : SecureTunnel Cert) : Prop :=
  s.alive = false ∨ ((s.state = .sentReject ∨ s.state = .sentTerminate ∨
    s.state = .receivedTerminate) ∧ s.posted ≠ 0)

/-- The message is taken up and announces no certificate that can be parsed. -/
def Unannounced (op : SecureOp) (s : SecureTunnel Cert) : Prop :=
  s.alive = true ∧
    ((∃ sdesc, op = .onInitiateMessage sdesc ∧ s.state = .init ∧
      peerCertificate fromPEMString .responder sdesc = none) ∨
    ∃ sdesc, op = .onAcceptMessage sdesc ∧ s.state = .sentInitiate ∧
      peerCertificate fromPEMString .initiator sdesc = none)

/-- The events on which the code keeps its promise: an initiate message has a tunnel
content, an accept message announces a certificate, a tunnel is not accepted, and no
stream is made for a tunnel that has one. -/
def Expected (op : SecureOp) (s : SecureTunnel Cert) : Prop :=
  match op with
  | .onInitiateMessage sdesc => s.state = .init → (findSecureTunnelContent sdesc).isSome
  | .onAcceptMessage sdesc => s.state = .sentInitiate →
      (peerCertificate fromPEMString .initiator sdesc).isSome
  | .acceptTunnel sent => (s.remoteDescription.bind findSecureTunnelContent).isSome →
      (s.state.canAccept = true → sent = false) ∧ s.streams = []
  | .findSessionByStream => s.streams = []
  | _ => True

end SecureTunnel

/-- A tunnel and whether a message without a certificate has been taken up. -/
structure SecureRun (Cert : Type) where
  tunnel : SecureTunnel Cert
  refused : Prop

namespace SecureRun

variable {Cert : Type} (fromPEMString : String → Option Cert)

def IsStart (r : SecureRun Cert) : Prop :=
  SecureTunnel.IsStart fromPEMString r.tunnel ∧ r.refused = False

/-- The run goes on with an event. -/
def next (op : SecureOp) (r : SecureRun Cert) : SecureRun Cert where
  tunnel := r.tunnel.step fromPEMString op
  refused := r.refused ∨ r.tunnel.Unannounced fromPEMString op

/-- One event that meets `ok`. -/
def Next (ok : SecureOp → SecureTunnel Cert → Prop) (r r' : SecureRun Cert) : Prop :=
  ∃ op, ok op r.tunnel ∧ r' = r.next fromPEMString op

def Reachable (ok : SecureOp → SecureTunnel Cert → Prop) : SecureRun Cert → Prop :=
  Reach (IsStart fromPEMString) (Next fromPEMString ok)

end SecureRun

namespace SecureTunnel

variable {Cert : Type} {fromPEMString : String → Option Cert} {s : SecureTunnel Cert}

/-! ### The invariant -/

/-- The stream and the channel of a tunnel. -/
structure Kept (s : SecureTunnel Cert) : Prop where
  /-- Before the tunnel is connected it has no stream, or one without a certificate. -/
  unconnected : s.channel = false →
    (s.streams = [] ∧ s.reference = none) ∨ (s.streams = [none] ∧ s.reference = some 0)
  connected : s.channel = true → s.streams ≠ []
  /-- A tunnel that waits for an answer has its stream. -/
  waiting : s.state = .sentInitiate → s.role = .initiator ∧ s.channel = false ∧ s.streams ≠ []
  /-- A session waits for its user only before the tunnel is connected. -/
  asked : s.state = .init → s.channel = false

theorem setState_quiet {st : SessionState} (h₁ : st ≠ .receivedInitiate) (h₂ : st ≠ .sentAccept)
    (h₃ : st ≠ .receivedAccept) : s.setState fromPEMString st = s.enter st := by
  rw [setState, enter]
  split
  · rfl
  · cases st <;> first | rfl | exact absurd rfl h₁ | exact absurd rfl h₂ | exact absurd rfl h₃

theorem terminate_eq : s.terminate fromPEMString =
    if s.state.canTerminate then s.enter .sentTerminate else s := by
  rw [terminate, setState_quiet (by simp) (by simp) (by simp)]

/-! ### Changes of the state -/

theorem enter_state (st : SessionState) : (s.enter st).state = st := by
  rw [enter]
  split
  · exact Eq.symm ‹_›
  · rfl

theorem enter_frame (st : SessionState) : (s.enter st).streams = s.streams ∧
    (s.enter st).reference = s.reference ∧ (s.enter st).channel = s.channel ∧
    (s.enter st).log = s.log ∧ (s.enter st).alive = s.alive ∧ s.posted ≤ (s.enter st).posted := by
  rw [enter]
  split
  · exact ⟨rfl, rfl, rfl, rfl, rfl, le_rfl⟩
  · exact ⟨rfl, rfl, rfl, rfl, rfl, Nat.le_succ _⟩

theorem enter_posted {st : SessionState} (h : st ≠ s.state) : (s.enter st).posted = s.posted + 1 := by
  rw [enter, if_neg h]

theorem Kept.enter (h : Kept s) {st : SessionState} (h₁ : st ≠ .sentInitiate) (h₂ : st ≠ .init) :
    Kept (s.enter st) := by
  obtain ⟨hs, hr, hc, -⟩ := enter_frame (s := s) st
  refine ⟨?_, ?_, fun hst => absurd ((enter_state st).symm.trans hst) h₁,
    fun hst => absurd ((enter_state st).symm.trans hst) h₂⟩
  · rw [hs, hr, hc]
    exact h.unconnected
  · rw [hs, hc]
    exact h.connected

theorem Kept.reject (h : Kept s) : Kept s.reject := by
  rw [SecureTunnel.reject]
  split
  · exact h.enter (by simp) (by simp)
  · exact h

theorem Kept.terminate (h : Kept s) : Kept (s.terminate fromPEMString) := by
  rw [terminate_eq]
  split
  · exact h.enter (by simp) (by simp)
  · exact h

theorem Kept.congr {t : SecureTunnel Cert} (h : Kept s) (h₁ : t.streams = s.streams)
    (h₂ : t.reference = s.reference) (h₃ : t.channel = s.channel) (h₄ : t.state = s.state)
    (h₅ : t.role = s.role) : Kept t := by
  refine ⟨?_, ?_, ?_, ?_⟩
  · rw [h₁, h₂, h₃]
    exact h.unconnected
  · rw [h₁, h₃]
    exact h.connected
  · rw [h₁, h₃, h₄, h₅]
    exact h.waiting
  · rw [h₃, h₄]
    exact h.asked

theorem Kept.of_nil (h : Kept s) (hs : s.streams = []) : s.channel = false ∧ s.reference = none := by
  have hc : s.channel = false := by
    by_contra hc
    exact h.connected (by simpa using hc) hs
  rcases h.unconnected hc with ⟨-, hr⟩ | ⟨hs', -⟩
  · exact ⟨hc, hr⟩
  · exact absurd (hs.symm.trans hs') (by simp)

theorem Kept.getStream (h : Kept s) (hs : s.streams = []) : Kept s.getStream := by
  obtain ⟨hc, hr⟩ := h.of_nil hs
  rw [SecureTunnel.getStream, if_pos hr, hs]
  exact ⟨fun _ => .inr ⟨rfl, rfl⟩, fun _ => by simp, fun hst => absurd hs (h.waiting hst).2.2,
    fun _ => hc⟩

theorem Safe.of_quiet (h₁ : ∀ name, .connect name ∉ s.log) (h₂ : .nullReference ∉ s.log) :
    Safe fromPEMString s :=
  ⟨fun name hn => absurd hn (h₁ name), h₂⟩

theorem Safe.of_nil (h : s.log = []) : Safe fromPEMString s :=
  .of_quiet (by simp [h]) (by simp [h])

theorem Ended.enter (h : Ended s) {st : SessionState}
    (hst : st = .sentTerminate ∨ st = .receivedTerminate) : Ended (s.enter st) := by
  obtain ⟨-, -, -, -, ha, hp⟩ := enter_frame (s := s) st
  rcases h with hd | ⟨-, hne⟩
  · exact .inl (ha.trans hd)
  · refine .inr ⟨?_, by omega⟩
    rw [enter_state]
    exact .inr hst

theorem Ended.terminate (h : Ended s) : Ended (s.terminate fromPEMString) := by
  rw [terminate_eq]
  split
  · exact h.enter (.inl rfl)
  · exact h

theorem Ended.ne (h : Ended s) (ha : s.alive = true) {st : SessionState} (h₁ : st ≠ .sentReject)
    (h₂ : st ≠ .sentTerminate) (h₃ : st ≠ .receivedTerminate) : s.state ≠ st := by
  rcases h with hd | ⟨hst, -⟩
  · exact absurd (hd.symm.trans ha) (by simp)
  · rcases hst with hst | hst | hst
    · exact fun h => h₁ (h.symm.trans hst)
    · exact fun h => h₂ (h.symm.trans hst)
    · exact fun h => h₃ (h.symm.trans hst)

/-! ### Messages of the peer -/

theorem onInitiateMessage_spec (fromPEMString : String → Option Cert) {sdesc : SessionDescription}
    {content : ContentInfo} (h : Kept s) (hlog : s.log = []) (hst : s.state = .init)
    (hc : findSecureTunnelContent sdesc = some content) :
    let t := { s with remoteDescription := some sdesc }.setState fromPEMString .receivedInitiate
    Kept t ∧ Safe fromPEMString t ∧
      (peerCertificate fromPEMString .responder sdesc = none → Ended t) := by
  intro t
  have hk : Kept { s with remoteDescription := some sdesc, state := .receivedInitiate } :=
    ⟨h.unconnected, h.connected, fun hs => absurd hs (by simp), fun hs => absurd hs (by simp)⟩
  have hpeer : peerCertificate fromPEMString .responder sdesc =
      parseCertificate fromPEMString content.clientPemCertificate := by
    rw [peerCertificate, hc]
    rfl
  cases hp : parseCertificate fromPEMString content.clientPemCertificate with
  | none =>
    have ht : t = { s with remoteDescription := some sdesc, state := .sentReject
                           posted := s.posted + 1 + 1 } := by
      simp [t, setState, hst, onSessionState, onIncomingTunnel, hc, hp, reject,
        SessionState.canReject, SecureTunnel.enter]
    rw [ht]
    refine ⟨?_, .of_nil hlog, fun _ => .inr ⟨.inl rfl, by simp⟩⟩
    exact ⟨h.unconnected, h.connected, fun hs => absurd hs (by simp), fun hs => absurd hs (by simp)⟩
  | some cert =>
    have ht : t = { s with remoteDescription := some sdesc, state := .receivedInitiate
                           posted := s.posted + 1
                           log := [.signalIncomingTunnel content.description] } := by
      simp [t, setState, hst, onSessionState, onIncomingTunnel, hc, hp, note, hlog]
    rw [ht, hpeer, hp]
    exact ⟨hk.congr rfl rfl rfl rfl rfl, .of_quiet (by simp) (by simp), fun hn => absurd hn (by simp)⟩

theorem onAcceptMessage_spec {sdesc : SessionDescription} {cert : Cert} (h : Kept s)
    (hlog : s.log = []) (hst : s.state = .sentInitiate)
    (hc : peerCertificate fromPEMString .initiator sdesc = some cert) :
    let t := { s with remoteDescription := some sdesc }.setState fromPEMString .receivedAccept
    Kept t ∧ Safe fromPEMString t := by
  intro t
  obtain ⟨hrole, hchan, hne⟩ := h.waiting hst
  obtain ⟨hstreams, href⟩ := (h.unconnected hchan).resolve_left fun hn => hne hn.1
  obtain ⟨content, hfind, hparse⟩ : ∃ content, findSecureTunnelContent sdesc = some content ∧
      parseCertificate fromPEMString (content.peerPem .initiator) = some cert :=
    Option.bind_eq_some_iff.mp hc
  have ht : t = { s with remoteDescription := some sdesc, state := .receivedAccept
                         posted := s.posted + 1, streams := [some cert], reference := none
                         channel := true
                         log := [.setPeerCertificate 0 cert, .connect content.name] } := by
    simp [t, setState, hst, onSessionState, onAccept, hfind, hrole, hparse, href, hstreams, note,
      connect, hchan, hlog]
  rw [ht]
  refine ⟨⟨fun hf => absurd hf (by simp), fun _ => by simp, fun hs => absurd hs (by simp),
    fun hs => absurd hs (by simp)⟩, ⟨fun name hn => ⟨sdesc, cert, rfl, ?_, ?_, rfl⟩, by simp⟩⟩
  · rw [hrole]
    exact hc
  · have hname : name = content.name := by simpa using hn
    rw [hname]

/-! ### Events -/

/-- What the step lemma says of each event. -/
structure StepSpec (fromPEMString : String → Option Cert) (op : SecureOp) (s t : SecureTunnel Cert) :
    Prop where
  kept : Kept t
  safe : Safe fromPEMString t
  ended : Ended s → Ended t
  refused : s.Unannounced fromPEMString op → Ended t

theorem StepSpec.of_other {op : SecureOp} {t : SecureTunnel Cert} (hk : Kept t) (hlog : t.log = [])
    (he : Ended s → Ended t) (h₁ : ∀ sdesc, op ≠ .onInitiateMessage sdesc)
    (h₂ : ∀ sdesc, op ≠ .onAcceptMessage sdesc) : StepSpec fromPEMString op s t := by
  refine ⟨hk, .of_nil hlog, he, fun hu => ?_⟩
  rcases hu.2 with ⟨sdesc, hop, -⟩ | ⟨sdesc, hop, -⟩
  · exact absurd hop (h₁ sdesc)
  · exact absurd hop (h₂ sdesc)

theorem getStream_frame (hr : s.reference = none) : s.getStream.log = s.log ∧
    s.getStream.state = s.state ∧ s.getStream.posted = s.posted ∧ s.getStream.alive = s.alive := by
  rw [getStream, if_pos hr]
  exact ⟨rfl, rfl, rfl, rfl⟩

theorem StepSpec.getStream {op : SecureOp} (h : Kept s) (hlog : s.log = []) (hs : s.streams = [])
    (h₁ : ∀ sdesc, op ≠ .onInitiateMessage sdesc) (h₂ : ∀ sdesc, op ≠ .onAcceptMessage sdesc) :
    StepSpec fromPEMString op s s.getStream := by
  obtain ⟨hl, hst, hp, ha⟩ := getStream_frame (h.of_nil hs).2
  refine .of_other (h.getStream hs) (hl.trans hlog) (fun he => ?_) h₁ h₂
  rw [Ended, hst, hp, ha]
  exact he

theorem onMessage_spec (h : Kept s) (hlog : s.log = []) :
    StepSpec fromPEMString .onMessage s (s.onMessage fromPEMString) := by
  have hk : Kept { s with posted := s.posted - 1 } := h.congr rfl rfl rfl rfl rfl
  have hlogEnter : ∀ st, (({ s with posted := s.posted - 1 } : SecureTunnel Cert).enter st).log = [] :=
    fun st => (enter_frame st).2.2.2.1.trans hlog
  rw [onMessage]
  by_cases hp : s.posted = 0
  · rw [if_pos hp]
    exact .of_other h hlog id (by simp) (by simp)
  rw [if_neg hp]
  dsimp only
  by_cases hterm : s.state.isTerminated
  · -- the session is destroyed
    have hnone : s.state.completed = none := by
      simp only [SessionState.isTerminated, decide_eq_true_eq] at hterm
      rcases hterm with hst | hst <;> rw [hst] <;> rfl
    rw [if_pos hterm, hnone]
    exact .of_other (hk.congr rfl rfl rfl rfl rfl) hlog (fun _ => .inl rfl) (by simp) (by simp)
  rw [if_neg hterm]
  by_cases hrej : s.state = .sentReject ∨ s.state = .receivedReject
  · have hcomp : s.state.completed = some .sentTerminate := by
      rcases hrej with hst | hst <;> rw [hst] <;> rfl
    have hcan : s.state.canTerminate = true := by
      rcases hrej with hst | hst <;> rw [hst] <;> rfl
    rw [hcomp]
    refine .of_other hk.terminate ?_ (fun he => ?_) (by simp) (by simp)
    · rw [terminate_eq, if_pos hcan]
      exact hlogEnter _
    · rw [terminate_eq, if_pos hcan]
      rcases he with hd | -
      · exact .inl ((enter_frame _).2.2.2.2.1.trans hd)
      · refine .inr ⟨?_, ?_⟩
        · rw [enter_state]
          exact .inr (.inl rfl)
        · rw [enter_posted]
          · omega
          · rcases hrej with hst | hst <;> simp [hst]
  · -- no other state belongs to an ended session
    have hend : Ended s → s.alive = false := by
      rintro (hd | ⟨hst, -⟩)
      · exact hd
      · simp only [SessionState.isTerminated, decide_eq_true_eq] at hterm
        rcases hst with hst | hst
        · exact absurd (.inl hst) hrej
        · exact absurd hst hterm
    by_cases hacc : s.state = .sentAccept ∨ s.state = .receivedAccept
    · have hcomp : s.state.completed = some .inProgress := by
        rcases hacc with hst | hst <;> rw [hst] <;> rfl
      rw [hcomp]
      dsimp only
      rw [setState_quiet (by simp) (by simp) (by simp)]
      exact .of_other (hk.enter (by simp) (by simp)) (hlogEnter _)
        (fun he => .inl ((enter_frame _).2.2.2.2.1.trans (hend he))) (by simp) (by simp)
    · have hcomp : s.state.completed = none := by
        generalize s.state = st at hrej hacc
        cases st <;> simp_all [SessionState.completed]
      rw [hcomp]
      exact .of_other hk hlog (fun he => .inl (hend he)) (by simp) (by simp)

theorem handle_spec (h : Kept s) (hlog : s.log = []) (ha : s.alive = true) {op : SecureOp}
    (hop : s.Expected fromPEMString op) : StepSpec fromPEMString op s (s.handle fromPEMString op) := by
  have hlogEnter : ∀ st, (s.enter st).log = [] := fun st => (enter_frame st).2.2.2.1.trans hlog
  cases op with
  | onInitiateMessage sdesc =>
    rw [handle]
    split
    · rename_i hst
      obtain ⟨content, hc⟩ := Option.isSome_iff_exists.mp (hop hst)
      obtain ⟨hk, hs, hu⟩ := onInitiateMessage_spec fromPEMString h hlog hst hc
      refine ⟨hk, hs, fun he => absurd hst (he.ne ha (by simp) (by simp) (by simp)), fun hun => ?_⟩
      rcases hun.2 with ⟨d, hd, -, hn⟩ | ⟨d, hd, -⟩
      · obtain rfl := SecureOp.onInitiateMessage.inj hd
        exact hu hn
      · exact absurd hd (by simp)
    · rename_i hst
      refine ⟨h, .of_nil hlog, id, fun hun => ?_⟩
      rcases hun.2 with ⟨d, -, hi, -⟩ | ⟨d, hd, -⟩
      · exact absurd hi hst
      · exact absurd hd (by simp)
  | onAcceptMessage sdesc =>
    rw [handle]
    split
    · rename_i hst
      obtain ⟨cert, hc⟩ := Option.isSome_iff_exists.mp (hop hst)
      obtain ⟨hk, hs⟩ := onAcceptMessage_spec h hlog hst hc
      refine ⟨hk, hs, fun he => absurd hst (he.ne ha (by simp) (by simp) (by simp)), fun hun => ?_⟩
      rcases hun.2 with ⟨d, hd, -⟩ | ⟨d, hd, -, hn⟩
      · exact absurd hd (by simp)
      · obtain rfl := SecureOp.onAcceptMessage.inj hd
        exact absurd (hc.symm.trans hn) (by simp)
    · rename_i hst
      refine ⟨h, .of_nil hlog, id, fun hun => ?_⟩
      rcases hun.2 with ⟨d, hd, -⟩ | ⟨d, -, hi, -⟩
      · exact absurd hd (by simp)
      · exact absurd hi hst
  | onRejectMessage =>
    rw [handle]
    split
    · rename_i hst
      rw [setState_quiet (by simp) (by simp) (by simp)]
      exact .of_other (h.enter (by simp) (by simp)) (hlogEnter _)
        (fun he => absurd hst (he.ne ha (by simp) (by simp) (by simp))) (by simp) (by simp)
    · exact .of_other h hlog id (by simp) (by simp)
  | onTerminateMessage =>
    rw [handle, setState_quiet (by simp) (by simp) (by simp)]
    exact .of_other (h.enter (by simp) (by simp)) (hlogEnter _) (fun he => he.enter (.inr rfl))
      (by simp) (by simp)
  | onUpdateMessage updated =>
    rw [handle]
    split
    · exact .of_other (h.congr rfl rfl rfl rfl rfl) hlog id (by simp) (by simp)
    · exact .of_other h hlog id (by simp) (by simp)
  | acceptTunnel sent =>
    rw [handle, SecureTunnel.acceptTunnel]
    split
    · -- the description is missing, and the call is over
      refine ⟨h.congr rfl rfl rfl rfl rfl, .of_quiet (by simp [note, hlog]) (by simp [note, hlog]),
        id, ?_⟩
      rintro ⟨-, ⟨d, hd, -⟩ | ⟨d, hd, -⟩⟩ <;> exact absurd hd (by simp)
    · rename_i sdesc hd
      split
      · rename_i hc
        obtain ⟨hacc, hs⟩ := hop (by rw [hd]; exact hc)
        have hnot : ¬ (s.state.canAccept = true ∧ sent = true) :=
          fun hn => absurd ((hacc hn.1).symm.trans hn.2) (by simp)
        rw [accept, if_neg hnot]
        exact .getStream h hlog hs (by simp) (by simp)
      · exact .of_other h hlog id (by simp) (by simp)
  | declineTunnel =>
    rw [handle]
    refine .of_other h.reject ?_ (fun he => ?_) (by simp) (by simp)
    · rw [reject]
      split
      · exact hlogEnter _
      · exact hlog
    · have hno : s.state.canReject = false := by
        simp [SessionState.canReject, he.ne ha]
      rw [reject, if_neg (by simp [hno])]
      exact he
  | findSessionByStream =>
    rw [handle]
    exact .getStream h hlog hop (by simp) (by simp)
  | terminate =>
    rw [handle]
    refine .of_other h.terminate ?_ (fun he => he.terminate) (by simp) (by simp)
    rw [terminate_eq]
    split
    · exact hlogEnter _
    · exact hlog
  | onMessage =>
    rw [handle]
    exact onMessage_spec h hlog
  | destroySession =>
    rw [handle]
    exact .of_other (h.congr rfl rfl rfl rfl rfl) hlog (fun _ => .inl rfl) (by simp) (by simp)

theorem step_spec (h : Kept s) {op : SecureOp} (hop : s.Expected fromPEMString op) :
    StepSpec fromPEMString op s (s.step fromPEMString op) := by
  have h₀ : Kept { s with log := [] } := h.congr rfl rfl rfl rfl rfl
  rw [step]
  split
  · rename_i ha
    have hs := handle_spec (s := { s with log := [] }) h₀ rfl ha hop
    exact ⟨hs.kept, hs.safe, hs.ended, hs.refused⟩
  · rename_i ha
    exact ⟨h₀, .of_nil rfl, id, fun hu => absurd hu.1 ha⟩

theorem isStart_kept (h : IsStart fromPEMString s) : Kept s ∧ s.log = [] := by
  rcases h with rfl | ⟨sent, rfl⟩
  · exact ⟨⟨fun _ => .inl ⟨rfl, rfl⟩, fun hc => absurd hc (by simp [received]),
      fun hst => absurd hst (by simp [received]), fun _ => rfl⟩, rfl⟩
  · cases sent with
    | false =>
      exact ⟨⟨fun _ => .inr ⟨rfl, rfl⟩, fun _ => by simp [createTunnel, getStream],
        fun hst => absurd hst (by simp [createTunnel, getStream]), fun _ => rfl⟩, rfl⟩
    | true =>
      refine ⟨⟨fun _ => .inr ⟨rfl, rfl⟩, fun hc => absurd hc ?_, fun _ => ⟨rfl, rfl, ?_⟩, fun _ => rfl⟩,
        rfl⟩
      · simp [createTunnel, setState, onSessionState, getStream]
      · simp [createTunnel, setState, onSessionState, getStream]

/-- **A secure tunnel connects only to the peer that was announced**, in every run of
expected events: the only SSL stream expects the announced certificate before `Connect`,
the reference to it is there when it is used, and a session without a certificate ends. -/
theorem connects_to_announced {r : SecureRun Cert}
    (h : SecureRun.Reachable fromPEMString (fun op s => s.Expected fromPEMString op) r) :
    r.tunnel.Safe fromPEMString ∧ (r.refused → r.tunnel.Ended) := by
  have hinv : Kept r.tunnel ∧ r.tunnel.Safe fromPEMString ∧ (r.refused → r.tunnel.Ended) := by
    refine Reach.invariant (I := fun r : SecureRun Cert =>
      Kept r.tunnel ∧ r.tunnel.Safe fromPEMString ∧ (r.refused → r.tunnel.Ended)) ?_ ?_ r h
    · rintro r ⟨hs, hr⟩
      obtain ⟨hk, hl⟩ := isStart_kept hs
      exact ⟨hk, .of_nil hl, fun hf => absurd (hr ▸ hf) id⟩
    · rintro r r' - ⟨hk, -, hr⟩ ⟨op, hop, rfl⟩
      have hs := step_spec hk hop
      exact ⟨hs.kept, hs.safe, fun hf => hf.elim (fun hf => hs.ended (hr hf)) hs.refused⟩
  exact hinv.2

/-! ### Runs -/

/-- A parser that knows certificates by their first line. -/
def firstLine (pem : String) : Option String :=
  if pem.startsWith "-----BEGIN CERTIFICATE-----" then some pem else none

/-- The certificate of the peer, and a description with it. -/
def peerPem : String := "-----BEGIN CERTIFICATE-----\nMIIB\n-----END CERTIFICATE-----"

def peerDescription (clientPem serverPem : String) : SessionDescription :=
  [{ name := "securetunnel", type := nsSecureTunnel, description := "send:file"
     clientPemCertificate := clientPem, serverPemCertificate := serverPem }]

/-- The start of the initiator and of the responder. -/
def initiated : SecureRun String where
  tunnel := createTunnel firstLine true
  refused := False

def contacted : SecureRun String where
  tunnel := received
  refused := False

/-- The initiator connects after an accept message with a certificate. -/
theorem connects_to_announced_initiator :
    SecureRun.Reachable firstLine (fun op s => s.Expected firstLine op)
        (initiated.next firstLine (.onAcceptMessage (peerDescription "" peerPem))) ∧
      ∃ cert, (initiated.next firstLine
        (.onAcceptMessage (peerDescription "" peerPem))).tunnel.streams = [some cert] := by
  have h₀ : SecureRun.Reachable firstLine (fun op s => s.Expected firstLine op) initiated :=
    Reach.init ⟨.inr ⟨true, rfl⟩, rfl⟩
  have h₁ := Reach.step h₀ ⟨.onAcceptMessage (peerDescription "" peerPem),
    fun _ => by decide +kernel, rfl⟩
  refine ⟨h₁, ?_⟩
  obtain ⟨sdesc, cert, -, -, -, hs⟩ :=
    (connects_to_announced h₁).1.pinned "securetunnel" (by decide +kernel)
  exact ⟨cert, hs⟩

/-- The responder accepts the session before it has made its stream; the initiator
cannot reject an accept message without a certificate, and the session goes on; a
look-up of streams makes a second stream, and the first one never expects the peer. -/
theorem connects_unannounced :
    (.nullReference ∈ ((contacted.next firstLine (.onInitiateMessage (peerDescription peerPem ""))).next
      firstLine (.acceptTunnel true)).tunnel.log) ∧
    (((initiated.next firstLine (.onAcceptMessage (peerDescription "" ""))).next
        firstLine .onMessage).refused ∧
      ((initiated.next firstLine (.onAcceptMessage (peerDescription "" ""))).next
        firstLine .onMessage).tunnel.alive = true ∧
      (((initiated.next firstLine (.onAcceptMessage (peerDescription "" ""))).next
        firstLine .onMessage).next firstLine .onMessage).tunnel.state = .inProgress) ∧
    ((initiated.next firstLine .findSessionByStream).next firstLine
      (.onAcceptMessage (peerDescription "" peerPem))).tunnel.streams = [none, some peerPem] := by
  refine ⟨by decide +kernel, ⟨.inl (.inr ⟨rfl, .inr ⟨_, rfl, by decide +kernel, by decide +kernel⟩⟩),
    by decide +kernel, by decide +kernel⟩, by decide +kernel⟩

end SecureTunnel

end Tunnel

end Jingle
