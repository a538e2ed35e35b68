/-
STUN/TURN attributes.

An attribute has a type, a length field and a body of one of six classes; the
type fixes the class (`StunAttributeType.cls`).  `create` is the table that
admits a type and a length from the wire, `readBody` and `writeBody` are the
virtual `Read` and `Write`.

`StunAddress.read` can fail half way and then leaves what it has read so far.
That matters in one place: the transport preferences read their address with it
and do not look at its result.

The setters of the public interface are `AttrCall`; `StunAttribute.Built` are
the attributes that creation and any calls of them can make.
-/
import Jingle.Lib.ByteReader

namespace Jingle

/-- The attribute types. -/
inductive StunAttributeType
  | mappedAddress | responseAddress | changeRequest | sourceAddress | changedAddress
  | username | password | messageIntegrity | errorCode | unknownAttributes | reflectedFrom
  | transportPreferences | lifetime | alternateServer | magicCookie | bandwidth
  | destinationAddress | sourceAddress2 | data | options
  deriving DecidableEq, Repr

namespace StunAttributeType

/-- The number of a type on the wire. -/
def code : StunAttributeType → BitVec 16
  | mappedAddress => 0x0001
  | responseAddress => 0x0002
  | changeRequest => 0x0003
  | sourceAddress => 0x0004
  | changedAddress => 0x0005
  | username => 0x0006
  | password => 0x0007
  | messageIntegrity => 0x0008
  | errorCode => 0x0009
  | unknownAttributes => 0x000a
  | reflectedFrom => 0x000b
  | transportPreferences => 0x000c
  | lifetime => 0x000d
  | alternateServer => 0x000e
  | magicCookie => 0x000f
  | bandwidth => 0x0010
  | destinationAddress => 0x0011
  | sourceAddress2 => 0x0012
  | data => 0x0013
  | options => 0x8001

/-- Every type. -/
def all : List StunAttributeType :=
  [mappedAddress, responseAddress, changeRequest, sourceAddress, changedAddress, username,
    password, messageIntegrity, errorCode, unknownAttributes, reflectedFrom,
    transportPreferences, lifetime, alternateServer, magicCookie, bandwidth,
    destinationAddress, sourceAddress2, data, options]

/-- The type with a number, if there is one. -/
def ofCode (c : BitVec 16) : Option StunAttributeType := all.find? fun t => t.code = c

@[simp] theorem ofCode_code (t : StunAttributeType) : ofCode t.code = some t := by
  cases t <;> decide

theorem code_of_ofCode {c : BitVec 16} {t : StunAttributeType} (h : ofCode c = some t) :
    t.code = c := by
  simpa using List.find?_some h

end StunAttributeType

/-- The class that implements a type. -/
inductive AttrClass
  | address | uint32 | byteString | errorCode | uint16List | transportPrefs
  deriving DecidableEq, Repr

/-- The classes as `stun.h` lists them. -/
def StunAttributeType.cls : StunAttributeType → AttrClass
  | changeRequest | lifetime | bandwidth | options => .uint32
  | username | password | messageIntegrity | magicCookie | data => .byteString
  | errorCode => .errorCode
  | unknownAttributes => .uint16List
  | transportPreferences => .transportPrefs
  | mappedAddress | responseAddress | sourceAddress | changedAddress | reflectedFrom
  | alternateServer | destinationAddress | sourceAddress2 => .address

/-- The value of an address attribute. -/
structure StunAddress where
  family : Byte
  port : BitVec 16
  ip : Word
  deriving DecidableEq, Repr

/-- The fields of the six attribute classes. -/
inductive AttrBody
  | address (addr : StunAddress)
  | uint32 (bits : Word)
  | byteString (bytes : List Byte)
  | errorCode (eclass number : Byte) (reason : List Byte)
  | uint16List (types : List (BitVec 16))
  | transportPrefs (preallocate : Bool) (prefs : Byte) (addr : Option StunAddress)
  deriving DecidableEq, Repr

/-- An attribute: the type, the length field and the class's own fields. -/
structure StunAttribute where
  type : StunAttributeType
  length : BitVec 16
  body : AttrBody
  deriving DecidableEq, Repr

/-! ### Addresses -/

/-- A new address attribute. -/
def StunAddress.zero : StunAddress where
  family := 0
  port := 0
  ip := 0

/-- `StunAddressAttribute::Read`: the fields are read one by one, and a failure
keeps those before it. -/
def StunAddress.read (a : StunAddress) (buf : ByteBuffer) : Bool × StunAddress × ByteBuffer :=
  match readUInt8 buf with
  | none => (false, a, buf)
  | some (_, buf) =>
    match readUInt8 buf with
    | none => (false, a, buf)
    | some (family, buf) =>
      match readUInt16 buf with
      | none => (false, { a with family }, buf)
      | some (port, buf) =>
        match readUInt32 buf with
        | none => (false, { a with family, port }, buf)
        | some (ip, buf) => (true, { family, port, ip }, buf)

def StunAddress.write (a : StunAddress) : List Byte :=
  [0, a.family] ++ be16 a.port ++ be32 a.ip

/-! ### Creation -/

namespace AttrClass

/-- The fields of a new attribute of a class. -/
def blank : AttrClass → AttrBody
  | address => .address .zero
  | uint32 => .uint32 0
  | byteString => .byteString []
  | errorCode => .errorCode 0 0 []
  | uint16List => .uint16List []
  | transportPrefs => .transportPrefs false 0 none

/-- The length with which `CreateAddress`, `CreateUInt32` and the others start. -/
def startLength : AttrClass → BitVec 16
  | address => 8
  | uint32 => 4
  | byteString => 0
  | errorCode => 4
  | uint16List => 0
  | transportPrefs => 4

end AttrClass

namespace StunAttribute

/-- The lengths `StunAttribute::Create` admits for a type. -/
def admits (t : StunAttributeType) (length : BitVec 16) : Bool :=
  match t with
  | .username | .password | .magicCookie => length % 4 = 0
  | .messageIntegrity => length = 20
  | .data => true
  | .errorCode => !(length < 4)
  | .unknownAttributes => length % 2 = 0
  | .transportPreferences => length = 4 || length = 12
  | .changeRequest | .lifetime | .bandwidth | .options => length = 4
  | .mappedAddress | .responseAddress | .sourceAddress | .changedAddress | .reflectedFrom
  | .alternateServer | .destinationAddress | .sourceAddress2 => length = 8

/-- `StunAttribute::Create`: an attribute for a type and a length from the wire. -/
def create (type length : BitVec 16) : Option StunAttribute :=
  match StunAttributeType.ofCode type with
  | none => none
  | some t => if admits t length then some { type := t, length, body := t.cls.blank } else none

/-- `CreateAddress`, `CreateUInt32`, `CreateByteString`, `CreateErrorCode`,
`CreateUnknownAttributes` and `CreateTransportPrefs`: a new attribute of the
smallest length. -/
def createNew (t : StunAttributeType) : StunAttribute where
  type := t
  length := t.cls.startLength
  body := t.cls.blank

/-! ### Reading and writing a body -/

/-- The list of types of an UNKNOWN-ATTRIBUTES body. -/
def readTypes : ℕ → ByteBuffer → Option (List (BitVec 16) × ByteBuffer)
  | 0, buf => some ([], buf)
  | n + 1, buf =>
    match readUInt16 buf with
    | none => none
    | some (attr, buf) =>
      match readTypes n buf with
      | none => none
      | some (attrs, buf) => some (attr :: attrs, buf)

/-- `SetErrorCode`: the class of an error code. -/
def errorClassOf (code : Word) : Byte := ((code >>> 8) &&& 0x7).setWidth 8

/-- `SetErrorCode`: the number of an error code. -/
def errorNumberOf (code : Word) : Byte := (code &&& 0xff).setWidth 8

/-- `StunTransportPrefsAttribute::Read`.  The address is read without a look at
whether that succeeded. -/
def readPrefs (length : BitVec 16) (buf : ByteBuffer) : Option (AttrBody × ByteBuffer) :=
  match readUInt32 buf with
  | none => none
  | some (val, buf) =>
    let preallocate : Bool := (val >>> 2) &&& 0x1 ≠ 0
    let prefs : Byte := (val &&& 0x3).setWidth 8
    if !preallocate then
      if length ≠ 4 then none else some (.transportPrefs false prefs none, buf)
    else
      if length ≠ 4 + 8 then none
      else
        let r := StunAddress.zero.read buf
        some (.transportPrefs true prefs (some r.2.1), r.2.2)

/-- `Read` of an attribute with the given length field. -/
def readBody (length : BitVec 16) (body : AttrBody) (buf : ByteBuffer) :
    Option (AttrBody × ByteBuffer) :=
  match body with
  | .address a =>
    match a.read buf with
    | (true, a, buf) => some (.address a, buf)
    | (false, _, _) => none
  | .uint32 _ =>
    match readUInt32 buf with
    | none => none
    | some (bits, buf) => some (.uint32 bits, buf)
  | .byteString _ =>
    match readBytes length.toNat buf with
    | none => none
    | some (bytes, buf) => some (.byteString bytes, buf)
  | .errorCode _ _ reason =>
    match readUInt32 buf with
    | none => none
    | some (val, buf) =>
      -- a negative count is converted to one larger than any buffer
      if length.toNat < 4 then none
      else
        match readBytes (length.toNat - 4) buf with
        | none => none
        | some (bytes, buf) =>
          some (.errorCode (errorClassOf val) (errorNumberOf val) (reason ++ bytes), buf)
  | .uint16List types =>
    match readTypes (length.toNat / 2) buf with
    | none => none
    | some (attrs, buf) => some (.uint16List (types ++ attrs), buf)
  | .transportPrefs _ _ _ => readPrefs length buf

/-- `Read` of an attribute. -/
def read (a : StunAttribute) (buf : ByteBuffer) : Option (StunAttribute × ByteBuffer) :=
  match readBody a.length a.body buf with
  | none => none
  | some (body, buf) => some ({ a with body }, buf)

/-- `error_code`. -/
def errorCodeOf (eclass number : Byte) : Word := (eclass.setWidth 32 <<< 8) ||| number.setWidth 32

/-- `Write` of an attribute. -/
def writeBody (a : StunAttribute) : List Byte :=
  match a.body with
  | .address addr => addr.write
  | .uint32 bits => be32 bits
  | .byteString bytes => bytes.take a.length.toNat
  | .errorCode eclass number reason => be32 (errorCodeOf eclass number) ++ reason
  | .uint16List types => types.flatMap be16
  | .transportPrefs preallocate prefs addr =>
    be32 ((if preallocate then 4 else 0) ||| prefs.setWidth 32) ++
      match preallocate, addr with
      | true, some addr => addr.write
      | _, _ => []

/-- An attribute in a message: its type, its length and its body. -/
def write (a : StunAttribute) : List Byte := be16 a.type.code ++ be16 a.length ++ a.writeBody

end StunAttribute

/-! ### The setters -/

/-- The calls that change an attribute. -/
inductive AttrCall
  | setFamily (family : Byte)
  | setIP (ip : Word)
  | setPort (port : BitVec 16)
  | setValue (bits : Word)
  | setBit (index : ℕ) (value : Bool)
  | copyBytes (bytes : List Byte) (length : BitVec 16)
  | setByte (index : ℕ) (value : Byte)
  | setErrorCode (code : Word)
  | setErrorClass (eclass : Byte)
  | setNumber (number : Byte)
  | setReason (reason : List Byte)
  | addType (value : BitVec 16)
  | setTypeAt (index : ℕ) (value : BitVec 16)
  | setPreferenceType (prefs : Byte)
  | setPreallocateAddress (addr : Option StunAddress)

namespace StunAttribute

/-- What a call does to an attribute of its class.  The other classes do not
have the method. -/
def call (c : AttrCall) (a : StunAttribute) : StunAttribute :=
  match c, a.body with
  | .setFamily family, .address addr => { a with body := .address { addr with family } }
  | .setIP ip, .address addr => { a with body := .address { addr with ip } }
  | .setPort port, .address addr => { a with body := .address { addr with port } }
  | .setValue bits, .uint32 _ => { a with body := .uint32 bits }
  | .setBit index value, .uint32 bits =>
    let cleared := bits &&& ~~~((1 : Word) <<< index)
    { a with body := .uint32 (cleared ||| if value then (1 : Word) <<< index else 0) }
  | .copyBytes bytes length, .byteString _ =>
    { a with length, body := .byteString (bytes.take length.toNat) }
  | .setByte index value, .byteString bytes =>
    { a with body := .byteString (bytes.set index value) }
  | .setErrorCode code, .errorCode _ _ reason =>
    { a with body := .errorCode (errorClassOf code) (errorNumberOf code) reason }
  | .setErrorClass eclass, .errorCode _ number reason =>
    { a with body := .errorCode eclass number reason }
  | .setNumber number, .errorCode eclass _ reason =>
    { a with body := .errorCode eclass number reason }
  | .setReason reason, .errorCode eclass number _ =>
    { a with length := 4 + BitVec.ofNat 16 reason.length
             body := .errorCode eclass number reason }
  | .addType value, .uint16List types =>
    { a with length := BitVec.ofNat 16 ((types ++ [value]).length * 2)
             body := .uint16List (types ++ [value]) }
  | .setTypeAt index value, .uint16List types =>
    { a with body := .uint16List (types.set index value) }
  | .setPreferenceType prefs, .transportPrefs preallocate _ addr =>
    { a with body := .transportPrefs preallocate prefs addr }
  | .setPreallocateAddress none, .transportPrefs _ prefs _ =>
    { a with length := 4, body := .transportPrefs false prefs none }
  | .setPreallocateAddress (some addr), .transportPrefs _ prefs _ =>
    { a with length := 12, body := .transportPrefs true prefs (some addr) }
  | _, _ => a

/-- A call that keeps to its documented arguments: the bytes to copy are there. -/
def CallOk : AttrCall → Prop
  | .copyBytes bytes length => length.toNat ≤ bytes.length
  | _ => True

/-- The attributes made by creation and setters. -/
inductive Built : StunAttribute → Prop
  | createNew (t : StunAttributeType) : Built (createNew t)
  | call {a : StunAttribute} {c : AttrCall} : Built a → CallOk c → Built (a.call c)

end StunAttribute

end Jingle
