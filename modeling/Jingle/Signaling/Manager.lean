/-
The session manager.

Sessions are known by number, in the order of their creation; `sessionMap` is the
map from session ids to sessions.  A stanza finds a session only if it comes from
the session's own peer.  An initiate that finds none creates a session under its
id, even if the id is taken by a session with another peer, which is then no
longer in the map.

`isolation` says that nothing else a peer sends touches the session of another,
and that without such an initiate no event of one session does.
-/
import Jingle.Signaling.Session
import Jingle.Lib.Reach

namespace Jingle.Signaling

/-- `Jid`, if it is valid. -/
structure Jid where
  node : Text
  domain : Text
  resource : Text
  deriving DecidableEq, Repr

/-- `SessionManager`: `clients` are the content types that have a client. -/
structure SessionManager where
  sessions : List Session
  sessionMap : List (Text × ℕ)
  clients : List Text

/-- What the code around the manager decides. -/
structure ManagerEnv (ε : Type) extends Env where
  jid : Text → Option Jid
  parsers : Parsers ε
  parseContentType : SignalingProtocol → ε → Except Text Text

namespace SessionManager

/-- A manager without sessions. -/
def new : SessionManager := ⟨[], [], []⟩

variable (m : SessionManager)

def getSession (sid : Text) : Option ℕ :=
  (m.sessionMap.find? fun entry => entry.1 = sid).map (·.2)

def addClient (contentType : Text) : SessionManager :=
  { m with clients := m.clients ++ [contentType] }

def removeClient (contentType : Text) : SessionManager :=
  { m with clients := m.clients.filter fun c => c ≠ contentType }

/-- A change of one session. -/
def updateSession (id : ℕ) (f : Session → Session) : SessionManager :=
  { m with sessions := m.sessions.modify id f }

/-- `CreateSession`; `created` is what its listeners do. -/
def createSession (localName initiatorName sid contentType : Text) (created : Reaction) :
    ℕ × SessionManager :=
  let session := Session.run created (.new localName initiatorName sid contentType)
  (m.sessions.length,
    { m with
      sessions := m.sessions ++ [session]
      sessionMap := (m.sessionMap.filter fun entry => entry.1 ≠ sid) ++ [(sid, m.sessions.length)] })

variable {ε : Type} (env : ManagerEnv ε)

def findSession (sid remoteName : Text) : Option ℕ :=
  match m.getSession sid with
  | none => none
  | some id =>
    match m.sessions[id]? with
    | none => none
    | some session => if env.jid remoteName ≠ env.jid session.remoteName then none else some id

/-- A message for a session. -/
def deliver (id : ℕ) (msg : SessionMessage ε) (reaction heard : Reaction) :
    Except Text Unit × SessionManager :=
  match m.sessions[id]? with
  | none => (.ok (), m)
  | some session =>
    let r := session.onIncomingMessage (Session.run reaction) env.parsers env.toEnv
      (Session.run heard) msg
    (r.1, m.updateSession id fun _ => r.2)

/-- `OnIncomingMessage`: the error it answers with, and the manager after it. -/
def onIncomingMessage (stanza : Except Text (SessionMessage ε))
    (created reaction heard : Reaction) : Except Text Unit × SessionManager :=
  match stanza with
  | .error text => (.error text, m)
  | .ok msg =>
    match m.findSession env msg.sid msg.from_ with
    | some id => m.deliver env id msg reaction heard
    | none =>
      if msg.type ≠ .sessionInitiate then (.error (textBytes "unknown session"), m)
      else
        match env.parseContentType msg.protocol msg.actionElem with
        | .error text => (.error text, m)
        | .ok contentType =>
          if contentType ∉ m.clients then
            (.error (textBytes "unknown content type: " ++ contentType), m)
          else
            let (id, m) := m.createSession msg.to_ msg.initiator msg.sid contentType created
            m.deliver env id msg reaction heard

/-- An event of a session; `DestroySession` deletes it only if its id is in the map. -/
def actSession (id : ℕ) (e : Event ε) : SessionManager :=
  match m.sessions[id]? with
  | none => m
  | some session =>
    if !session.alive then m
    else
      let session' := session.act env.parsers env.toEnv e
      if session'.alive then m.updateSession id fun _ => session'
      else
        match m.getSession session.sid with
        | none =>
          m.updateSession id fun s => { s with queue := s.queue.tail, destroys := s.destroys + 1 }
        | some _ =>
          { m.updateSession id fun _ => session' with
            sessionMap := m.sessionMap.filter fun entry => entry.1 ≠ session.sid }

end SessionManager

end Jingle.Signaling
