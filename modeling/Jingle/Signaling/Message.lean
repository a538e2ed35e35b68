/-
The messages of a session.

A text is the list of its bytes.  What a message says beyond its header is
parsed by the functions of `Parsers`; `ε` is the type of the XML elements they
look at.  The description of a content is known by the text it was written as.
-/
import Jingle.Signaling.Proxy

namespace Jingle.Signaling

open P2p (Candidate)

/-- A text. -/
abbrev Text := List Byte

inductive SignalingProtocol
  | jingle | gingle | hybrid
  deriving DecidableEq, Repr

inductive ActionType
  | unknown | sessionInitiate | sessionInfo | sessionAccept | sessionReject | sessionTerminate
  | transportInfo | transportAccept | update
  deriving DecidableEq, Repr

structure ContentInfo where
  name : Text
  type : Text
  description : Text
  deriving DecidableEq, Repr

structure TransportInfo where
  contentName : Text
  transportType : Text
  candidates : List Candidate
  deriving DecidableEq

/-- `ContentMessage`: the body of an initiate or an accept. -/
structure ContentMessage where
  contents : List ContentInfo
  transports : List TransportInfo
  deriving DecidableEq

structure SessionTerminate where
  reason : Text
  debugReason : Text
  deriving DecidableEq, Repr

structure SessionMessage (ε : Type) where
  from_ : Text
  to_ : Text
  protocol : SignalingProtocol
  type : ActionType
  sid : Text
  initiator : Text
  actionElem : ε

/-- The functions that parse the body of a message; the error is its text. -/
structure Parsers (ε : Type) where
  parseSessionInitiate : SignalingProtocol → ε → Except Text ContentMessage
  parseSessionAccept : SignalingProtocol → ε → Except Text ContentMessage
  parseSessionTerminate : SignalingProtocol → ε → Except Text SessionTerminate
  parseTransportInfos : SignalingProtocol → ε → List ContentInfo → Except Text (List TransportInfo)
  parseDescriptionInfo : SignalingProtocol → ε → Except Text (List ContentInfo)

/-- The parsers that accept nothing. -/
def Parsers.refusing : Parsers Unit where
  parseSessionInitiate _ _ := .error []
  parseSessionAccept _ _ := .error []
  parseSessionTerminate _ _ := .error []
  parseTransportInfos _ _ _ := .error []
  parseDescriptionInfo _ _ := .error []

/-- What a session tells the other side. -/
inductive Action
  | initiate (body : ContentMessage)
  | accept (body : ContentMessage)
  | reject
  | terminate (reason : Text)
  | transportInfo (info : TransportInfo)
  deriving DecidableEq

/-- A message that a session has sent. -/
structure Outgoing where
  to_ : Text
  protocol : SignalingProtocol
  action : Action
  deriving DecidableEq

/-- `NS_GINGLE_P2P`, the only type of transport. -/
def nsGingleP2p : Text := textBytes "http://www.google.com/transport/p2p"

def strTerminateSuccess : Text := textBytes "success"

def strTerminateError : Text := textBytes "general-error"

def getContentByName (contents : List ContentInfo) (name : Text) : Option ContentInfo :=
  contents.find? fun content => content.name = name

/-- `RemoveContentByName`: the first content of the name. -/
def removeContentByName (contents : List ContentInfo) (name : Text) : List ContentInfo :=
  contents.eraseP fun content => content.name = name

end Jingle.Signaling
