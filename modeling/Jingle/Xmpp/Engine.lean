/-
The XMPP engine and its login task.

The engine parses the server's bytes and gives the elements to the login task until
that is done, afterwards to the handlers.  What it prints is kept in `output` until
the outermost call returns; `calls` is what the output handler was told.  A call
made within another, from a callback, is a `Reaction`: the calls that the user's
code makes while one element is handled, and whether it handles the element.
`OnStateChange` is the last thing a call does, so that what is done there is the
next event; `stateChanges` is what it was told.

`history` is what happened: the pieces that were printed, the elements that the
login task took, `StartTls`, and the change to `STATE_OPEN`; `accepted` are the
stanzas for which `SendStanza` answered `XMPP_RETURN_OK`.
-/
import Jingle.Xmllite.Printer
import Jingle.Xmpp.StanzaParser
import Jingle.Xmpp.Jid

namespace Jingle.Xmpp

open Signaling (Text QName)
open Xmllite

/-! ### Names -/

def nsClient : Text := textBytes "jabber:client"
def nsStream : Text := textBytes "http://etherx.jabber.org/streams"
def nsTls : Text := textBytes "urn:ietf:params:xml:ns:xmpp-tls"
def nsSasl : Text := textBytes "urn:ietf:params:xml:ns:xmpp-sasl"
def nsBind : Text := textBytes "urn:ietf:params:xml:ns:xmpp-bind"
def nsSession : Text := textBytes "urn:ietf:params:xml:ns:xmpp-session"
def nsStanza : Text := textBytes "urn:ietf:params:xml:ns:xmpp-stanzas"

def qnStreamStream : QName := ⟨nsStream, textBytes "stream"⟩
def qnStreamFeatures : QName := ⟨nsStream, textBytes "features"⟩
def qnStreamError : QName := ⟨nsStream, textBytes "error"⟩
def qnTlsStarttls : QName := ⟨nsTls, textBytes "starttls"⟩
def qnTlsProceed : QName := ⟨nsTls, textBytes "proceed"⟩
def qnSaslMechanisms : QName := ⟨nsSasl, textBytes "mechanisms"⟩
def qnSaslMechanism : QName := ⟨nsSasl, textBytes "mechanism"⟩
def qnSaslChallenge : QName := ⟨nsSasl, textBytes "challenge"⟩
def qnSaslSuccess : QName := ⟨nsSasl, textBytes "success"⟩
def qnBindBind : QName := ⟨nsBind, textBytes "bind"⟩
def qnBindResource : QName := ⟨nsBind, textBytes "resource"⟩
def qnBindJid : QName := ⟨nsBind, textBytes "jid"⟩
def qnSessionSession : QName := ⟨nsSession, textBytes "session"⟩
def qnStanzaFeatureNotImplemented : QName := ⟨nsStanza, textBytes "feature-not-implemented"⟩
def qnIq : QName := ⟨nsClient, textBytes "iq"⟩
def qnError : QName := ⟨nsClient, textBytes "error"⟩
def qnVersion : QName := ⟨[], textBytes "version"⟩
def qnType : QName := ⟨[], textBytes "type"⟩
def qnId : QName := ⟨[], textBytes "id"⟩
def qnTo : QName := ⟨[], textBytes "to"⟩
def qnFrom : QName := ⟨[], textBytes "from"⟩
def qnCode : QName := ⟨[], textBytes "code"⟩

def xmppClientNamespaces : List (Text × Text) := [(textBytes "stream", nsStream), ([], nsClient)]

/-! ### The state -/

inductive State
  | start | opening | open_ | closed
  deriving DecidableEq, Repr

/-- `XmppEngine::Error`, but for `ERROR_NONE`. -/
inductive Error
  | xml | stream | version | unauthorized | tls | auth | bind | connectionClosed
  | documentClosed | socket
  deriving DecidableEq, Repr

inductive LoginTaskState
  | init | streamstartSent | startedXmpp | tlsInit | authInit | bindInit | tlsRequested
  | saslRunning | bindRequested | sessionRequested | done
  deriving DecidableEq, Repr

/-- `SaslHandler` with the mechanisms that it creates. -/
structure SaslHandler where
  Mechanism : Type
  chooseBestSaslMechanism : List Text → Bool → Text
  createSaslMechanism : Text → Option Mechanism
  startSaslAuth : Mechanism → Option XmlElement × Mechanism
  handleSaslChallenge : Mechanism → XmlElement → Option XmlElement × Mechanism

/-- What is printed. -/
inductive Piece
  | streamStart (to_ lang : Text)
  | starttls
  | saslAuth (auth : XmlElement)
  | saslResponse (response : XmlElement)
  | bindIq (id resource : Text)
  | sessionIq (id : Text)
  | stanza (stanza : XmlElement)
  | raw (text : Text)
  | streamEnd
  deriving DecidableEq, Repr

/-- An iq of the login task. -/
def setIq (id : Text) (child : XmlElement) : XmlElement :=
  (((XmlElement.new qnIq).addAttr qnType (textBytes "set")).addAttr qnId id).addElement child

/-- The bind element; the resource is added if one is asked for. -/
def bindElement (resource : Text) : XmlElement :=
  if resource ≠ [] then
    (XmlElement.newDefaultNs qnBindBind).addElement
      ((XmlElement.new qnBindResource).addText resource)
  else .newDefaultNs qnBindBind

/-- `InternalSendStanza`. -/
def printStanza (e : XmlElement) : Text := printXml xmppClientNamespaces e

/-- The bytes of a piece. -/
def Piece.text : Piece → Text
  | streamStart to_ lang =>
    textBytes "<stream:stream to=\"" ++ to_ ++ textBytes "\" xml:lang=\"" ++ lang ++
      textBytes "\" version=\"1.0\" xmlns:stream=\"http://etherx.jabber.org/streams\" " ++
      textBytes "xmlns=\"jabber:client\">\r\n"
  | starttls => printStanza (.newDefaultNs qnTlsStarttls)
  | saslAuth auth => printStanza auth
  | saslResponse response => printStanza response
  | bindIq id resource => printStanza (setIq id (bindElement resource))
  | sessionIq id => printStanza (setIq id (.newDefaultNs qnSessionSession))
  | stanza e => printStanza e
  | raw text => text
  | streamEnd => textBytes "</stream:stream>"

/-- What happened. -/
inductive Mark
  | out (piece : Piece)
  | taken (element : XmlElement)
  | startTls
  | opened
  deriving DecidableEq, Repr

/-- The calls of `XmppOutputHandler`. -/
inductive HandlerCall
  | writeOutput (bytes : Text)
  | startTls (domain : Text)
  | closeConnection
  deriving DecidableEq, Repr

structure XmppLoginTask (S : SaslHandler) where
  authNeeded : Bool
  state : LoginTaskState
  pelStanza : Option XmlElement
  isStart : Bool
  iqId : Text
  pelFeatures : Option XmlElement
  fullJid : Jid
  streamId : Text
  queuedStanzas : List XmlElement
  saslMech : Option S.Mechanism

/-- A new login task. -/
def XmppLoginTask.new (S : SaslHandler) : XmppLoginTask S where
  authNeeded := true
  state := .init
  pelStanza := none
  isStart := false
  iqId := []
  pelFeatures := none
  fullJid := ⟨none⟩
  streamId := []
  queuedStanzas := []
  saslMech := none

/-- What is set before the engine connects. -/
structure Settings where
  userJid : Jid
  requestedResource : Text
  tlsServerHostname : Text
  tlsServerDomain : Text
  lang : Text

structure XmppIqEntry where
  id : Text
  to_ : Text
  deriving DecidableEq, Repr

structure XmppEngineImpl (E : Expat) (S : SaslHandler) where
  settings : Settings
  stanzaParser : Parsing E
  engineEntered : ℕ
  tlsNeeded : Bool
  loginTask : Option (XmppLoginTask S)
  nextId : ℕ
  boundJid : Jid
  state : State
  encrypted : Bool
  errorCode : Option Error
  subcode : ℤ
  streamError : Option XmlElement
  raisedReset : Bool
  outputHandler : Bool
  sessionHandler : Bool
  iqEntries : List XmppIqEntry
  output : Text
  calls : List HandlerCall
  stateChanges : List State
  accepted : List XmlElement
  history : List Mark

/-- A call that the user makes. -/
inductive UserCall
  | sendStanza (element : XmlElement)
  | sendIq (element : XmlElement)
  | sendRaw (text : Text)
  | disconnect
  | connectionClosed (subcode : ℤ)

/-- What the user's code does while an element is handled. -/
structure Reaction where
  calls : List UserCall
  handled : Bool

namespace XmppEngineImpl

variable {E : Expat} {S : SaslHandler}

/-- An engine that has not connected. -/
def new (settings : Settings) (tlsNeeded outputHandler : Bool) : XmppEngineImpl E S where
  settings := settings
  stanzaParser := .new
  engineEntered := 0
  tlsNeeded := tlsNeeded
  loginTask := some (.new S)
  nextId := 0
  boundJid := ⟨none⟩
  state := .start
  encrypted := false
  errorCode := none
  subcode := 0
  streamError := none
  raisedReset := false
  outputHandler := outputHandler
  sessionHandler := false
  iqEntries := []
  output := []
  calls := []
  stateChanges := []
  accepted := []
  history := []

variable (e : XmppEngineImpl E S)

def setSessionHandler : XmppEngineImpl E S :=
  if e.state ≠ .start then e else { e with sessionHandler := true }

/-! ### Output -/

/-- Something is printed. -/
def print (p : Piece) : XmppEngineImpl E S :=
  { e with output := e.output ++ p.text, history := e.history ++ [.out p] }

/-- The output handler is told something. -/
def tell (call : HandlerCall) : XmppEngineImpl E S := { e with calls := e.calls ++ [call] }

def internalSendStart (to_ : Text) : XmppEngineImpl E S :=
  e.print (.streamStart
    (if e.settings.tlsServerHostname = [] then to_ else e.settings.tlsServerHostname)
    (if e.settings.lang = [] then textBytes "*" else e.settings.lang))

/-! ### Entering and leaving -/

/-- The constructor of `EnterExit`. -/
def enter : XmppEngineImpl E S := { e with engineEntered := e.engineEntered + 1 }

/-- The flush of the destructor of `EnterExit`. -/
def flush (closing : Bool) : XmppEngineImpl E S :=
  let e := if e.output.length > 0 then e.tell (.writeOutput e.output) else e
  let e := { e with output := [] }
  if closing then { e.tell .closeConnection with outputHandler := false } else e

/-- The destructor of `EnterExit`, made in the given state. -/
def exit (entry : State) : XmppEngineImpl E S :=
  let e := { e with engineEntered := e.engineEntered - 1 }
  let closing := e.state ≠ entry ∧ e.state = .closed
  let flushing := closing ∨ e.engineEntered = 0
  let e := if e.outputHandler ∧ flushing then e.flush closing else e
  if e.engineEntered ≠ 0 then e
  else
    let e : XmppEngineImpl E S :=
      if e.raisedReset then { e with stanzaParser := .new, raisedReset := false } else e
    if e.sessionHandler ∧ e.state ≠ entry then
      { e with stateChanges := e.stateChanges ++ [e.state] }
    else e

/-! ### Signals -/

def hasError : Bool := e.errorCode.isSome

def signalError (err : Error) (subcode : ℤ) : XmppEngineImpl E S :=
  if e.state ≠ .closed then { e with errorCode := some err, subcode, state := .closed } else e

def signalStreamError (stanza : XmlElement) : XmppEngineImpl E S :=
  if e.state ≠ .closed then { e with streamError := some stanza }.signalError .stream 0 else e

def signalBound (fullJid : Jid) : XmppEngineImpl E S :=
  if e.state = .opening then
    { e with boundJid := fullJid, state := .open_, history := e.history ++ [.opened] }
  else e

/-- The id that `NextId` gives. -/
def nextIdText : Text := Numeral.decimal e.nextId

/-! ### The user's calls -/

/-- A change of the login task. -/
def modifyLogin (f : XmppLoginTask S → XmppLoginTask S) : XmppEngineImpl E S :=
  { e with loginTask := e.loginTask.map f }

/-- A stanza is accepted. -/
def accept (element : XmlElement) : XmppEngineImpl E S :=
  { e with accepted := e.accepted ++ [element] }

/-- `SendStanza`: until the login is done, stanzas are queued. -/
def sendStanza (element : XmlElement) : XmppEngineImpl E S :=
  if e.state = .closed then e
  else
    let entry := e.state
    let e := e.enter.accept element
    let e :=
      if e.loginTask.isSome then
        e.modifyLogin fun t => { t with queuedStanzas := t.queuedStanzas ++ [element] }
      else e.print (.stanza element)
    e.exit entry

def sendIq (element : XmlElement) : XmppEngineImpl E S :=
  if e.state = .closed then e
  else if element.name ≠ qnIq then e
  else if element.attr qnType ≠ textBytes "get" ∧ element.attr qnType ≠ textBytes "set" then e
  else if !element.hasAttr qnId then e
  else
    let e : XmppEngineImpl E S :=
      { e with
        iqEntries := e.iqEntries ++ [{ id := element.attr qnId, to_ := element.attr qnTo }] }
    e.sendStanza element

def sendRaw (text : Text) : XmppEngineImpl E S :=
  if e.state = .closed ∨ e.loginTask.isSome then e
  else (e.enter.print (.raw text)).exit e.state

def disconnect : XmppEngineImpl E S :=
  if e.state ≠ .closed then
    let entry := e.state
    let e := e.enter
    let e := if e.state = .open_ then e.print .streamEnd else e
    { e with state := .closed }.exit entry
  else e

def connectionClosed (subcode : ℤ) : XmppEngineImpl E S :=
  if e.state ≠ .closed then
    (if subcode ≠ 0 then e.enter.signalError .socket subcode
      else e.enter.signalError .connectionClosed 0).exit e.state
  else e

/-- One call of the user. -/
def userCall : UserCall → XmppEngineImpl E S
  | .sendStanza element => e.sendStanza element
  | .sendIq element => e.sendIq element
  | .sendRaw text => e.sendRaw text
  | .disconnect => e.disconnect
  | .connectionClosed subcode => e.connectionClosed subcode

/-- The calls that the user makes in a callback. -/
def userCalls (calls : List UserCall) : XmppEngineImpl E S := calls.foldl userCall e

/-- `SendStanzaError` with `XSE_FEATURE_NOT_IMPLEMENTED` and no text. -/
def sendFeatureNotImplemented (stanza : XmlElement) : XmppEngineImpl E S :=
  if e.state = .closed then e
  else
    let attrs := stanza.attrs.filterMap fun a =>
      if a.1 = qnTo then none
      else if a.1 = qnFrom then some (qnTo, a.2)
      else if a.1 = qnType then none
      else some a
    let error := (((XmlElement.new qnError).addAttr qnCode (textBytes "501")).addAttr qnType
      (textBytes "cancel")).addElement (.newDefaultNs qnStanzaFeatureNotImplemented)
    e.sendStanza
      ({ XmlElement.new stanza.name with
        attrs := (qnType, textBytes "error") :: attrs
        children := stanza.children }.addElement error)

/-- `StartTls`; the user's code may call the engine from the handler. -/
def startTls (domain : Text) (calls : List UserCall) : XmppEngineImpl E S :=
  if e.outputHandler then
    let domain := if e.settings.tlsServerDomain = [] then domain else e.settings.tlsServerDomain
    let e := e.tell (.startTls domain)
    let e : XmppEngineImpl E S := { e with history := e.history ++ [.startTls] }
    { e.userCalls calls with encrypted := true }
  else e

/-! ### The login task -/

def failure (err : Error) : XmppEngineImpl E S :=
  (e.modifyLogin fun t => { t with state := .done }).signalError err 0

/-- `NextStanza` took this element. -/
def take (element : XmlElement) : XmppEngineImpl E S :=
  { e.modifyLogin fun t => { t with pelStanza := none } with
    history := e.history ++ [.taken element] }

/-- The login task goes to a state. -/
def goto (state : LoginTaskState) : XmppEngineImpl E S := e.modifyLogin fun t => { t with state }

/-- `HandleStartStream`. -/
def acceptsStart (element : XmlElement) : Bool :=
  element.name = qnStreamStream ∧ element.attr qnXmlns = nsClient ∧
    element.attr qnVersion = textBytes "1.0" ∧ element.hasAttr qnId

/-- An iq that answers the one with this id. -/
def answers (element : XmlElement) (id : Text) : Bool :=
  element.name = qnIq ∧ element.attr qnId = id ∧
    element.attr qnType ≠ textBytes "get" ∧ element.attr qnType ≠ textBytes "set"

/-- The JID of a bind result, if it is one. -/
def boundJidOf (element : XmlElement) : Option Jid :=
  if element.attr qnType ≠ textBytes "result" then none
  else
    match element.firstElement with
    | none => none
    | some child =>
      if child.name ≠ qnBindBind then none
      else
        let jid := Jid.ofString (child.textNamed qnBindJid)
        if jid.isFull then some jid else none

/-- The authentication starts: the best mechanism that the features offer. -/
def authInit (t : XmppLoginTask S) : Option (XmlElement × S.Mechanism) := do
  let mechanisms ← t.pelFeatures.bind fun f => f.firstNamed qnSaslMechanisms
  let names := (mechanisms.elementsNamed qnSaslMechanism).map XmlElement.bodyText
  let choice := S.chooseBestSaslMechanism names e.encrypted
  if choice = [] then none
  else
    let mech ← S.createSaslMechanism choice
    let (auth, mech) := S.startSaslAuth mech
    auth.map fun auth => (auth, mech)

/-- One turn of `Advance`, and whether the loop goes on. -/
def advanceStep (t : XmppLoginTask S) (calls : List UserCall) : XmppEngineImpl E S × Bool :=
  let domain := (e.settings.userJid.data.map Jid.Data.domain).getD []
  match t.state with
  | .init =>
    (({ e with raisedReset := true }.modifyLogin fun t =>
      { t with pelFeatures := none }).internalSendStart domain |>.goto .streamstartSent, true)
  | .streamstartSent =>
    match t.pelStanza with
    | none => (e, false)
    | some element =>
      let e := e.take element
      if !t.isStart || !acceptsStart element then (e.failure .version, false)
      else
        (e.modifyLogin fun t =>
          { t with streamId := element.attr qnId, state := .startedXmpp }, false)
  | .startedXmpp =>
    match t.pelStanza with
    | none => (e, false)
    | some element =>
      let e := e.take element
      if element.name ≠ qnStreamFeatures then (e.failure .version, false)
      else
        let e := e.modifyLogin fun t => { t with pelFeatures := some element }
        if e.tlsNeeded ∨ (element.firstNamed qnTlsStarttls).isSome then (e.goto .tlsInit, true)
        else if t.authNeeded then (e.goto .authInit, true)
        else (e.goto .bindInit, true)
  | .tlsInit =>
    match t.pelFeatures.bind fun f => f.firstNamed qnTlsStarttls with
    | none => (e.failure .tls, false)
    | some _ => ((e.print .starttls).goto .tlsRequested, true)
  | .tlsRequested =>
    match t.pelStanza with
    | none => (e, false)
    | some element =>
      let e := e.take element
      if element.name ≠ qnTlsProceed then (e.failure .tls, false)
      else ({ e.startTls domain calls with tlsNeeded := false }.goto .init, true)
  | .authInit =>
    match e.authInit t with
    | none => (e.failure .auth, false)
    | some (auth, mech) =>
      ((e.print (.saslAuth auth)).modifyLogin fun t =>
        { t with saslMech := some mech, state := .saslRunning }, true)
  | .saslRunning =>
    match t.pelStanza with
    | none => (e, false)
    | some element =>
      let e := e.take element
      if element.name.namespace_ ≠ nsSasl then (e.failure .auth, false)
      else if element.name = qnSaslChallenge then
        match t.saslMech.map fun mech => S.handleSaslChallenge mech element with
        | some (some response, mech) =>
          ((e.print (.saslResponse response)).modifyLogin fun t =>
            { t with saslMech := some mech, state := .saslRunning }, true)
        | _ => (e.failure .auth, false)
      else if element.name ≠ qnSaslSuccess then (e.failure .unauthorized, false)
      else (e.modifyLogin fun t => { t with authNeeded := false, state := .init }, true)
  | .bindInit =>
    match (t.pelFeatures.bind fun f => f.firstNamed qnBindBind),
        (t.pelFeatures.bind fun f => f.firstNamed qnSessionSession) with
    | some _, some _ =>
      let id := e.nextIdText
      (({ e with nextId := e.nextId + 1 }.print (.bindIq id e.settings.requestedResource)
        ).modifyLogin fun t => { t with iqId := id, state := .bindRequested }, true)
    | _, _ => (e.failure .bind, false)
  | .bindRequested =>
    match t.pelStanza with
    | none => (e, false)
    | some element =>
      let e := e.take element
      if !answers element t.iqId then (e, false)
      else
        match boundJidOf element with
        | none => (e.failure .bind, false)
        | some jid =>
          let id := e.nextIdText
          (({ e with nextId := e.nextId + 1 }.print (.sessionIq id)).modifyLogin fun t =>
            { t with fullJid := jid, iqId := id, state := .sessionRequested }, true)
  | .sessionRequested =>
    match t.pelStanza with
    | none => (e, false)
    | some element =>
      let e := e.take element
      if !answers element t.iqId then (e, false)
      else if element.attr qnType ≠ textBytes "result" then (e.failure .bind, false)
      else
        let e := e.signalBound t.fullJid
        let e := t.queuedStanzas.foldl (fun e stanza => e.print (.stanza stanza)) e
        (e.modifyLogin fun t => { t with queuedStanzas := [], state := .done }, false)
  | .done => (e, false)

/-- `Advance`; a turn that goes on without an element is followed by one that stops,
so that four turns are enough (`advance_enough`). -/
def advance (calls : List UserCall) : ℕ → XmppEngineImpl E S → XmppEngineImpl E S
  | 0, e => e
  | fuel + 1, e =>
    match e.loginTask with
    | none => e
    | some t =>
      match e.advanceStep t calls with
      | (e, true) => advance calls fuel e
      | (e, false) => e

/-- The login task is deleted when it is done. -/
def resetDone : XmppEngineImpl E S :=
  if e.loginTask.any fun t => t.state = .done then { e with loginTask := none } else e

/-- `XmppLoginTask::IncomingStanza`, and the deletion of a task that is done. -/
def loginIncoming (element : Option XmlElement) (isStart : Bool) (calls : List UserCall) :
    XmppEngineImpl E S :=
  let e := e.modifyLogin fun t => { t with pelStanza := element, isStart }
  let e := advance calls 4 e
  (e.modifyLogin fun t => { t with pelStanza := none, isStart := false }).resetDone

/-! ### Input -/

def incomingStart (element : XmlElement) (r : Reaction) : XmppEngineImpl E S :=
  if e.hasError || e.raisedReset then e
  else if e.loginTask.isSome then e.loginIncoming (some element) true r.calls
  else e.signalError .xml 0

/-- The entry that `HandleIqResponse` finds. -/
def iqEntryFor (stanza : XmlElement) : Option XmppIqEntry :=
  if stanza.name ≠ qnIq then none
  else if stanza.attr qnType ≠ textBytes "result" ∧ stanza.attr qnType ≠ textBytes "error" then none
  else if !stanza.hasAttr qnId then none
  else e.iqEntries.find? fun entry =>
    entry.id = stanza.attr qnId ∧ entry.to_ = stanza.attr qnFrom

def incomingStanza (stanza : XmlElement) (r : Reaction) : XmppEngineImpl E S :=
  if e.hasError || e.raisedReset then e
  else if stanza.name = qnStreamError then e.signalStreamError stanza
  else if e.loginTask.isSome then e.loginIncoming (some stanza) false r.calls
  else
    match e.iqEntryFor stanza with
    | some entry => { e with iqEntries := e.iqEntries.erase entry }.userCalls r.calls
    | none =>
      let e := e.userCalls r.calls
      if r.handled then e
      else if stanza.name = qnIq ∧ stanza.attr qnType ≠ textBytes "error" ∧
          stanza.attr qnType ≠ textBytes "result" then e.sendFeatureNotImplemented stanza
      else e

def incomingEnd (isError : Bool) : XmppEngineImpl E S :=
  if e.hasError || e.raisedReset then e
  else e.signalError (if isError then .xml else .documentClosed) 0

/-- `StanzaParseHandler`. -/
def incoming (event : StanzaEvent) (r : Reaction) : XmppEngineImpl E S :=
  match event with
  | .startStream stream => e.incomingStart stream r
  | .stanza stanza => e.incomingStanza stanza r
  | .endStream => e.incomingEnd false
  | .xmlError => e.incomingEnd true

/-- What the parser delivers from one chunk, each with the reaction to it. -/
def incomingAll (e : XmppEngineImpl E S) (events : List (StanzaEvent × Reaction)) :
    XmppEngineImpl E S :=
  events.foldl (fun e ev => e.incoming ev.1 ev.2) e

/-- `HandleInput`; the `k`-th event of the chunk meets the `k`-th reaction. -/
def handleInput (bytes : List Byte) (reaction : ℕ → Reaction) : XmppEngineImpl E S :=
  if e.state ≠ .opening ∧ e.state ≠ .open_ then e
  else
    let entry := e.state
    let (parsing, events) := e.stanzaParser.parse bytes false
    let e := e.enter.incomingAll (events.mapIdx fun k event => (event, reaction k))
    -- only the outermost exit looks at the parser again
    { e with stanzaParser := parsing }.exit entry

def connect : XmppEngineImpl E S :=
  if e.state ≠ .start then e
  else ({ e.enter with state := .opening }.loginIncoming none false []).exit e.state

/-! ### Runs -/

/-- What can happen to an engine. -/
inductive Event
  | connect
  | handleInput (bytes : List Byte) (reaction : ℕ → Reaction)
  | user (call : UserCall)

/-- The engine after an event. -/
def act : Event → XmppEngineImpl E S
  | .connect => e.connect
  | .handleInput bytes reaction => e.handleInput bytes reaction
  | .user call => e.userCall call

end XmppEngineImpl

end Jingle.Xmpp
