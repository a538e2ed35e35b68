/-
The transport infos of a message, as elements.

In the Jingle layout every transport info is a `content` element with a
`transport` of the candidates in it.  In the Gingle layout the candidates of all
the infos stand in one list, and the reader divides them by the names of their
channels, if the session has audio or video; otherwise all of them belong to the
content `cnOther`.  The preference of a candidate is written and read by the
functions of `PreferenceText`.
-/
import Jingle.Signaling.Xml
import Jingle.P2p.AddressText

namespace Jingle.Signaling

open P2p Numeral

/-! ### Constants -/

def nsJingle : Text := textBytes "urn:xmpp:jingle:1"

def nsGingle : Text := textBytes "http://www.google.com/session"

def cnAudio : Text := textBytes "audio"

def cnVideo : Text := textBytes "video"

def cnOther : Text := textBytes "main"

def lnInitiator : Text := textBytes "initiator"

def lnTransport : Text := textBytes "transport"

def lnCandidate : Text := textBytes "candidate"

/-- A name without a namespace. -/
def qn (localPart : String) : QName := { namespace_ := [], localPart := textBytes localPart }

def qnName : QName := qn "name"

def qnType : QName := qn "type"

def qnAddress : QName := qn "address"

def qnPort : QName := qn "port"

def qnUsername : QName := qn "username"

def qnPassword : QName := qn "password"

def qnPreference : QName := qn "preference"

def qnProtocol : QName := qn "protocol"

def qnGeneration : QName := qn "generation"

def qnNetwork : QName := qn "network"

def qnCreator : QName := qn "creator"

def qnXmlns : QName := qn "xmlns"

def qnJingleContent : QName := { namespace_ := nsJingle, localPart := textBytes "content" }

def qnJingleContentName : QName := qn "name"

def qnGingleCandidate : QName := { namespace_ := nsGingle, localPart := lnCandidate }

def qnGingleP2pCandidate : QName := { namespace_ := nsGingleP2p, localPart := lnCandidate }

def gingleCandidateNameRtp : Text := textBytes "rtp"

def gingleCandidateNameRtcp : Text := textBytes "rtcp"

def gingleCandidateNameVideoRtp : Text := textBytes "video_rtp"

def gingleCandidateNameVideoRtcp : Text := textBytes "video_rtcp"

/-! ### Candidates -/

/-- How a preference is written and read. -/
structure PreferenceText where
  preferenceStr : ℚ → Text
  setPreferenceStr : Text → ℚ

def isBase64Char (ch : Byte) : Bool :=
  (65 ≤ ch.toNat ∧ ch.toNat ≤ 90) ∨ (97 ≤ ch.toNat ∧ ch.toNat ≤ 122) ∨
    (48 ≤ ch.toNat ∧ ch.toNat ≤ 57) ∨ ch.toNat = 43 ∨ ch.toNat = 47

def isBase64Encoded (str : Text) : Bool := str.all isBase64Char

def kMaxUsernameSize : ℕ := 16

def verifyUsernameFormat (username : Text) : Except Text Unit :=
  if kMaxUsernameSize < username.length then .error (textBytes "candidate username is too long")
  else if ¬isBase64Encoded username then
    .error (textBytes "candidate username has non-base64 encoded characters")
  else .ok ()

def parseAddress (elem : XmlElement) (addressName portName : QName) :
    Except Text P2p.SocketAddress :=
  if ¬elem.hasAttr addressName then
    .error (textBytes "address does not have " ++ addressName.localPart)
  else if ¬elem.hasAttr portName then
    .error (textBytes "address does not have " ++ portName.localPart)
  else
    let address : P2p.SocketAddress := { hostname := [], ip := 0, port := 0 }
    .ok ((address.setIP (elem.attr addressName)).setPort (extractInt (elem.attr portName)))

/-- The attributes that every candidate has. -/
def requiredAttrs : List QName :=
  [qnName, qnAddress, qnPort, qnUsername, qnPreference, qnProtocol, qnGeneration]

def parseCandidate (pt : PreferenceText) (elem : XmlElement) : Except Text Candidate :=
  if ¬requiredAttrs.all elem.hasAttr then .error (textBytes "candidate missing required attribute")
  else do
    let address ← parseAddress elem qnAddress qnPort
    let candidate : Candidate := {
      name := elem.attr qnName
      address := address
      username := elem.attr qnUsername
      preference := pt.setPreferenceStr (elem.attr qnPreference)
      protocol := elem.attr qnProtocol
      generation := extractUnsigned (elem.attr qnGeneration)
      -- An attribute that is missing reads as the empty text of a new candidate.
      password := elem.attr qnPassword
      type := elem.attr qnType
      networkName := elem.attr qnNetwork }
    verifyUsernameFormat candidate.username
    pure candidate

/-- `SetAttr` of a text that is not empty. -/
def XmlElement.setAttrIfAny (e : XmlElement) (name : QName) (value : Text) : XmlElement :=
  if value ≠ [] then e.setAttr name value else e

/-- `WriteCandidate`, which never fails. -/
def writeCandidate (pt : PreferenceText) (candidate : Candidate) (elem : XmlElement) :
    XmlElement :=
  (((((((((elem.setAttr qnName candidate.name).setAttr qnAddress
    candidate.address.ipAsString).setAttr qnPort candidate.address.portAsString).setAttr
    qnPreference (pt.preferenceStr candidate.preference)).setAttr
    qnUsername candidate.username).setAttr qnProtocol candidate.protocol).setAttr
    qnGeneration (decimal candidate.generation.toNat)).setAttrIfAny
    qnPassword candidate.password).setAttrIfAny qnType candidate.type).setAttrIfAny
    qnNetwork candidate.networkName

def getCandidateQName : SignalingProtocol → QName
  | .gingle => qnGingleCandidate
  | _ => qnGingleP2pCandidate

structure TransportParser where
  parseCandidates : SignalingProtocol → XmlElement → Except Text (List Candidate)
  writeCandidates : SignalingProtocol → List Candidate → Except Text (List XmlElement)

def p2pTransportParser (pt : PreferenceText) : TransportParser where
  parseCandidates _ elem :=
    (elem.children.filter fun child => child.name.localPart = lnCandidate).mapM (parseCandidate pt)
  writeCandidates protocol candidates :=
    .ok (candidates.map fun candidate =>
      writeCandidate pt candidate (.new (getCandidateQName protocol)))

/-! ### Transport infos -/

abbrev TransportParserMap := Text → Option TransportParser

def getTransportParsers (pt : PreferenceText) : TransportParserMap := fun transportType =>
  if transportType = nsGingleP2p then some (p2pTransportParser pt) else none

def unknownTransportType (transportType : Text) : Text :=
  textBytes "unknown transport type: " ++ transportType

def parseCandidates (protocol : SignalingProtocol) (elem : XmlElement)
    (transParsers : TransportParserMap) (transportType : Text) : Except Text (List Candidate) :=
  match transParsers transportType with
  | none => .error (unknownTransportType transportType)
  | some parser => parser.parseCandidates protocol elem

def writeCandidates (protocol : SignalingProtocol) (transType : Text)
    (candidates : List Candidate) (transParsers : TransportParserMap) :
    Except Text (List XmlElement) :=
  match transParsers transType with
  | none => .error (unknownTransportType transType)
  | some parser => parser.writeCandidates protocol candidates

/-- A channel of the audio. -/
def isAudioName (name : Text) : Bool :=
  name = gingleCandidateNameRtp ∨ name = gingleCandidateNameRtcp

/-- A channel of the video. -/
def isVideoName (name : Text) : Bool :=
  name = gingleCandidateNameVideoRtp ∨ name = gingleCandidateNameVideoRtcp

/-- A transport info of the only type of transport in Gingle. -/
def gingleInfo (contentName : Text) (candidates : List Candidate) : TransportInfo :=
  { contentName := contentName, transportType := nsGingleP2p, candidates := candidates }

def parseGingleTransportInfos (actionElem : XmlElement) (contents : List ContentInfo)
    (transParsers : TransportParserMap) : Except Text (List TransportInfo) := do
  let candidates ← parseCandidates .gingle actionElem transParsers nsGingleP2p
  let hasAudio := (getContentByName contents cnAudio).isSome
  let hasVideo := (getContentByName contents cnVideo).isSome
  if ¬hasAudio ∧ ¬hasVideo then
    return [gingleInfo cnOther candidates]
  let audio := gingleInfo cnAudio (candidates.filter fun cand => isAudioName cand.name)
  let video := gingleInfo cnVideo (candidates.filter fun cand =>
    ¬isAudioName cand.name ∧ isVideoName cand.name)
  return (if hasAudio then [audio] else []) ++ (if hasVideo then [video] else [])

def parseJingleTransportInfo (transElem : XmlElement) (content : ContentInfo)
    (transParsers : TransportParserMap) : Except Text TransportInfo := do
  let transportType := transElem.name.namespace_
  let candidates ← parseCandidates .jingle transElem transParsers transportType
  return { contentName := content.name, transportType := transportType, candidates := candidates }

/-- The body of the loop of `ParseJingleTransportInfos`. -/
def parseJingleContentPair (pairElem : XmlElement) (contents : List ContentInfo)
    (transParsers : TransportParserMap) : Except Text TransportInfo := do
  let contentName ← requireXmlAttr pairElem qnJingleContentName
  match getContentByName contents contentName with
  | none => .error (textBytes "Unknown content name: " ++ contentName)
  | some content =>
    let transElem ← requireXmlChild pairElem lnTransport
    parseJingleTransportInfo transElem content transParsers

def parseJingleTransportInfos (jingle : XmlElement) (contents : List ContentInfo)
    (transParsers : TransportParserMap) : Except Text (List TransportInfo) :=
  (jingle.childrenNamed qnJingleContent).mapM fun pairElem =>
    parseJingleContentPair pairElem contents transParsers

def newTransportElement (name : Text) : XmlElement :=
  (XmlElement.new { namespace_ := name, localPart := lnTransport }).setAttr qnXmlns name

def writeGingleTransportInfos (tinfos : List TransportInfo) (transParsers : TransportParserMap) :
    Except Text (List XmlElement) := do
  let elems ← tinfos.mapM fun tinfo =>
    writeCandidates .gingle tinfo.transportType tinfo.candidates transParsers
  return elems.flatten

def writeJingleTransportInfo (tinfo : TransportInfo) (transParsers : TransportParserMap) :
    Except Text XmlElement := do
  let candidateElems ← writeCandidates .jingle tinfo.transportType tinfo.candidates transParsers
  return (newTransportElement tinfo.transportType).addXmlChildren candidateElems

def writeJingleContentPair (name : Text) (pairElems : List XmlElement) : XmlElement :=
  (((XmlElement.new qnJingleContent).setAttr qnJingleContentName name).setAttr
    qnCreator lnInitiator).addXmlChildren pairElems

def writeJingleTransportInfos (tinfos : List TransportInfo) (transParsers : TransportParserMap) :
    Except Text (List XmlElement) :=
  tinfos.mapM fun tinfo => do
    let transElem ← writeJingleTransportInfo tinfo transParsers
    return writeJingleContentPair tinfo.contentName [transElem]

def parseTransportInfos (protocol : SignalingProtocol) (actionElem : XmlElement)
    (contents : List ContentInfo) (transParsers : TransportParserMap) :
    Except Text (List TransportInfo) :=
  if protocol = .gingle then parseGingleTransportInfos actionElem contents transParsers
  else parseJingleTransportInfos actionElem contents transParsers

def writeTransportInfos (protocol : SignalingProtocol) (tinfos : List TransportInfo)
    (transParsers : TransportParserMap) : Except Text (List XmlElement) :=
  if protocol = .gingle then writeGingleTransportInfos tinfos transParsers
  else writeJingleTransportInfos tinfos transParsers

end Jingle.Signaling
