/-
STUN/TURN messages.

`StunMessage.read` is the parser: the header, then attributes until the number
of bytes left falls to what follows the message.  A failed read leaves the
message as far as it was read, which is what a caller's error reply is made
from, so the error of `read` is that message.

`readAttrs` is the attribute loop.  Each turn takes at least the four bytes of
an attribute header, so the length of the buffer is enough fuel.
-/
import Jingle.Stun.Attribute

namespace Jingle

/-- The message types. -/
inductive StunMessageType
  | bindingRequest | bindingResponse | bindingErrorResponse
  | sharedSecretRequest | sharedSecretResponse | sharedSecretErrorResponse
  | allocateRequest | allocateResponse | allocateErrorResponse
  | sendRequest | sendResponse | sendErrorResponse | dataIndication
  deriving DecidableEq, Repr

/-- The number of a message type on the wire. -/
def StunMessageType.code : StunMessageType → BitVec 16
  | bindingRequest => 0x0001
  | bindingResponse => 0x0101
  | bindingErrorResponse => 0x0111
  | sharedSecretRequest => 0x0002
  | sharedSecretResponse => 0x0102
  | sharedSecretErrorResponse => 0x0112
  | allocateRequest => 0x0003
  | allocateResponse => 0x0103
  | allocateErrorResponse => 0x0113
  | sendRequest => 0x0004
  | sendResponse => 0x0104
  | sendErrorResponse => 0x0114
  | dataIndication => 0x0115

/-- The cookie of RFC 5389 messages. -/
def kStunMagicCookie : List Byte := [0x21, 0x12, 0xA4, 0x42]

def kStunMagicCookieLength : ℕ := 4

def kStunTransactionIdLength : ℕ := 12

def kStunLegacyTransactionIdLength : ℕ := 16

/-- A message: its type, its length field, its transaction id and its attributes. -/
structure StunMessage where
  type : BitVec 16
  length : BitVec 16
  transactionId : List Byte
  attrs : List StunAttribute
  deriving DecidableEq, Repr

namespace StunMessage

/-- A new message. -/
def new : StunMessage where
  type := 0
  length := 0
  transactionId := List.replicate 12 0x30
  attrs := []

def isValidTransactionId (id : List Byte) : Bool :=
  id.length = kStunTransactionIdLength || id.length = kStunLegacyTransactionIdLength

/-- `IsLegacy`: the transaction id is one of RFC 3489. -/
def isLegacy (m : StunMessage) : Bool := m.transactionId.length = kStunLegacyTransactionIdLength

def setType (m : StunMessage) (type : BitVec 16) : StunMessage := { m with type }

def setTransactionID (m : StunMessage) (transactionId : List Byte) : StunMessage :=
  { m with transactionId }

/-- `AddAttribute`: the length field grows by the attribute and its header. -/
def addAttribute (m : StunMessage) (a : StunAttribute) : StunMessage :=
  { m with attrs := m.attrs ++ [a], length := m.length + (a.length + 4) }

/-- `GetAttribute`: the first attribute of a type. -/
def getAttribute (m : StunMessage) (t : StunAttributeType) : Option StunAttribute :=
  m.attrs.find? fun a => a.type = t

def getByteString (m : StunMessage) (t : StunAttributeType) : Option (List Byte) :=
  match m.getAttribute t with
  | some { body := .byteString bytes, .. } => some bytes
  | _ => none

def getAddress (m : StunMessage) (t : StunAttributeType) : Option StunAddress :=
  match m.getAttribute t with
  | some { body := .address addr, .. } => some addr
  | _ => none

def getUInt32 (m : StunMessage) (t : StunAttributeType) : Option Word :=
  match m.getAttribute t with
  | some { body := .uint32 bits, .. } => some bits
  | _ => none

/-! ### Writing -/

def write (m : StunMessage) : List Byte :=
  be16 m.type ++ be16 m.length ++ (if m.isLegacy then [] else kStunMagicCookie) ++
    m.transactionId ++ m.attrs.flatMap StunAttribute.write

/-! ### Reading -/

/-- The attribute loop: read while more than `rest` bytes are left.  The error
is the list of the attributes read before it. -/
def readAttrs (fuel rest : ℕ) (attrs : List StunAttribute) (buf : ByteBuffer) :
    Except (List StunAttribute) (List StunAttribute × ByteBuffer) :=
  match fuel with
  | 0 => .ok (attrs, buf)
  | fuel + 1 =>
    if buf.length ≤ rest then .ok (attrs, buf)
    else
      match readUInt16 buf with
      | none => .error attrs
      | some (type, buf) =>
        match readUInt16 buf with
        | none => .error attrs
        | some (length, buf) =>
          match StunAttribute.create type length with
          | none => .error attrs
          | some attr =>
            match attr.read buf with
            | none => .error attrs
            | some (attr, buf) => readAttrs fuel rest (attrs ++ [attr]) buf

/-- The transaction id of a message with these two header fields: without the
cookie the message is one of RFC 3489 and the first field is part of the id. -/
def idOf (magicCookie transactionId : List Byte) : List Byte :=
  if magicCookie ≠ kStunMagicCookie then magicCookie ++ transactionId else transactionId

/-- The body of a message whose header has been read. -/
def readBody (m : StunMessage) (buf : ByteBuffer) :
    Except StunMessage (StunMessage × ByteBuffer) :=
  if buf.length < m.length.toNat then .error m
  else
    let rest := buf.length - m.length.toNat
    match readAttrs buf.length rest [] buf with
    | .error attrs => .error { m with attrs }
    | .ok (attrs, buf) =>
      if buf.length ≠ rest then .error { m with attrs } else .ok ({ m with attrs }, buf)

def read (m : StunMessage) (buf : ByteBuffer) : Except StunMessage (StunMessage × ByteBuffer) :=
  match readUInt16 buf with
  | none => .error m
  | some (type, buf) =>
    -- rtp and rtcp set the top bit of the first byte
    if type &&& 0x8000 ≠ 0 then .error { m with type }
    else
      match readUInt16 buf with
      | none => .error { m with type }
      | some (length, buf) =>
        match readBytes kStunMagicCookieLength buf with
        | none => .error { m with type, length }
        | some (magicCookie, buf) =>
          match readBytes kStunTransactionIdLength buf with
          | none => .error { m with type, length }
          | some (id, buf) =>
            readBody { m with type, length, transactionId := idOf magicCookie id } buf

/-! ### Messages built through the interface -/

/-- The messages made by the constructor and the calls that change one; an
attribute is finished when it is added. -/
inductive Built : StunMessage → Prop
  | new : Built .new
  | setType {m : StunMessage} (type : BitVec 16) : Built m → Built (m.setType type)
  | setTransactionID {m : StunMessage} {id : List Byte} :
      Built m → isValidTransactionId id → Built (m.setTransactionID id)
  | addAttribute {m : StunMessage} {a : StunAttribute} :
      Built m → a.Built → Built (m.addAttribute a)

end StunMessage

/-! ### Response types -/

def getStunErrorResponseType (type : BitVec 16) : StunMessageType :=
  if type = StunMessageType.sharedSecretRequest.code then .sharedSecretErrorResponse
  else if type = StunMessageType.allocateRequest.code then .allocateErrorResponse
  else if type = StunMessageType.sendRequest.code then .sendErrorResponse
  else .bindingErrorResponse

end Jingle
