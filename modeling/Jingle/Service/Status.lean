/-
Presence stanzas.

`fillStatus` makes a `Status` of a presence stanza, `processPresence` is what
`PresencePushTask` does with one that it has queued.  Indexing a text may fail in the
source; here it gives no result, and `exists_fillStatus` says that it does not happen.
-/
import Jingle.Xmpp.Engine

namespace Jingle.Service

open Signaling (Text QName)
open Xmllite Xmpp

/-! ### Names -/

def nsCaps : Text := textBytes "http://jabber.org/protocol/caps"
def nsNickname : Text := textBytes "http://jabber.org/protocol/nick"
def nsDelay : Text := textBytes "jabber:x:delay"
def nsMucUser : Text := textBytes "http://jabber.org/protocol/muc#user"

def qnPresence : QName := ⟨nsClient, textBytes "presence"⟩
def qnShow : QName := ⟨nsClient, textBytes "show"⟩
def qnStatus : QName := ⟨nsClient, textBytes "status"⟩
def qnPriority : QName := ⟨nsClient, textBytes "priority"⟩
def qnCapsC : QName := ⟨nsCaps, textBytes "c"⟩
def qnNode : QName := ⟨[], textBytes "node"⟩
def qnVer : QName := ⟨[], textBytes "ver"⟩
def qnExt : QName := ⟨[], textBytes "ext"⟩
def qnDelayX : QName := ⟨nsDelay, textBytes "x"⟩
def qnStamp : QName := ⟨[], textBytes "stamp"⟩
def qnNickname : QName := ⟨nsNickname, textBytes "nick"⟩
def qnMucUserX : QName := ⟨nsMucUser, textBytes "x"⟩
def qnMucUserStatus : QName := ⟨nsMucUser, textBytes "status"⟩

def googleClientNode : Text := textBytes "http://www.google.com/xmpp/client/caps"

/-! ### The status -/

inductive Show
  | none | offline | xa | away | dnd | online | chat
  deriving DecidableEq, Repr

/-- `Status`, with what `FillStatus` sets. -/
structure Status where
  jid : Jid
  pri : ℤ
  show_ : Show
  status : Text
  available : Bool
  knowCapabilities : Bool
  voiceCapability : Bool
  videoCapability : Bool
  isGoogleClient : Bool
  version : Text
  sentTime : Text
  nick : Text
  deriving DecidableEq

/-- A new status. -/
def Status.new : Status where
  jid := ⟨none⟩
  pri := 0
  show_ := .none
  status := []
  available := false
  knowCapabilities := false
  voiceCapability := false
  videoCapability := false
  isGoogleClient := false
  version := []
  sentTime := []
  nick := []

def isXmlSpace (ch : Byte) : Bool := ch = 0x20#8 || ch = 0x0A#8 || ch = 0x0D#8 || ch = 0x09#8

/-- `list.find(token)`: where the token begins for the first time. -/
def find (token : Text) : Text → Option ℕ
  | [] => if token = [] then some 0 else none
  | ch :: list =>
    if token.isPrefixOf (ch :: list) then some 0 else (find token list).map (· + 1)

def listContainsToken (list token : Text) : Bool :=
  match find token list with
  | none => false
  | some i =>
    if token = [] then false
    else
      (i = 0 || list[i - 1]?.any isXmlSpace) &&
        (i = list.length - token.length || list[i + token.length]?.any isXmlSpace)

def isUtf8FirstByte (c : Byte) : Bool := c &&& 0x80#8 = 0#8 || c - 0xC0#8 < 0x3E#8

/-- The longest status text. -/
def maxStatus : ℕ := 300

/-- The loop that looks for the beginning of a character; nothing if it leaves the
text. -/
def firstByteBefore (status : Text) : ℕ → Option ℕ
  | 0 => status[0]?.map fun _ => 0
  | len + 1 =>
    match status[len + 1]? with
    | none => none
    | some c => if !isUtf8FirstByte c then firstByteBefore status len else some (len + 1)

/-- A status text that is not too long. -/
def truncateStatus (status : Text) : Option Text :=
  if status.length > maxStatus then
    (firstByteBefore status maxStatus).map fun len => status.take len
  else some status

/-- `FromString` of an integer: nothing if the stream fails. -/
def fromStringInt (s : Text) : Option ℤ :=
  match Numeral.extract s with
  | none => none
  | some (negative, n) =>
    let pri : ℤ := if negative then -n else n
    if -2 ^ 31 ≤ pri ∧ pri ≤ 2 ^ 31 - 1 then some pri else none

/-- `atoi` of the text up to its first null byte. -/
def atoi (s : Text) : ℤ :=
  match Numeral.extract (s.takeWhile (· ≠ 0)) with
  | none => 0
  | some (negative, n) => if negative then -n else n

/-- The `show` element. -/
def showOf (show_ : Option XmlElement) : Show :=
  match show_ with
  | none => .online
  | some e =>
    if e.children = .nil then .online
    else if e.bodyText = textBytes "away" then .away
    else if e.bodyText = textBytes "xa" then .xa
    else if e.bodyText = textBytes "dnd" then .dnd
    else if e.bodyText = textBytes "chat" then .chat
    else .online

/-- What the `c` element says. -/
def fillCaps (caps : Option XmlElement) (s : Status) : Status :=
  match caps with
  | none => s
  | some e =>
    let s := { s with knowCapabilities := true }
    let s :=
      if e.attr qnNode = googleClientNode then
        { s with isGoogleClient := true, version := e.attr qnVer }
      else s
    let s :=
      if listContainsToken (e.attr qnExt) (textBytes "voice-v1") then
        { s with voiceCapability := true }
      else s
    if listContainsToken (e.attr qnExt) (textBytes "video-v1") then
      { s with videoCapability := true }
    else s

/-- The text of the `status` element. -/
def statusText (status : Option XmlElement) : Option Text :=
  match status with
  | none => some []
  | some e => truncateStatus e.bodyText

/-- The number of the `priority` element. -/
def fillPriority (priority : Option XmlElement) (s : Status) : Status :=
  match priority.bind fun e => fromStringInt e.bodyText with
  | none => s
  | some pri => { s with pri }

/-- The time of the `x` element. -/
def fillDelay (delay : Option XmlElement) (s : Status) : Status :=
  match delay with
  | none => s
  | some e => { s with sentTime := e.attr qnStamp }

/-- The text of the `nick` element. -/
def fillNick (nick : Option XmlElement) (s : Status) : Status :=
  match nick with
  | none => s
  | some e => { s with nick := e.bodyText }

def fillStatus (from_ : Jid) (stanza : XmlElement) : Option Status :=
  let s := { Status.new with jid := from_ }
  if stanza.attr qnType = textBytes "unavailable" then some { s with available := false }
  else
    (statusText (stanza.firstNamed qnStatus)).map fun status =>
      let s := { s with available := true, status }
      let s := fillPriority (stanza.firstNamed qnPriority) s
      let s := { s with show_ := showOf (stanza.firstNamed qnShow) }
      let s := fillCaps (stanza.firstNamed qnCapsC) s
      let s := fillDelay (stanza.firstNamed qnDelayX) s
      fillNick (stanza.firstNamed qnNickname) s

/-! ### `PresencePushTask` -/

/-- `Muc`, with what is asked of it. -/
structure Muc where
  jid : Jid
  localJid : Jid

/-- The signals of `PresencePushTask`. -/
inductive PresenceSignal
  | statusUpdate (status : Status)
  | mucJoined (muc : Jid)
  | mucLeft (muc : Jid) (error : ℤ)
  | mucStatusUpdate (muc : Jid) (status : Status)
  deriving DecidableEq

def handlePresence (from_ : Jid) (stanza : XmlElement) : Option (List PresenceSignal) :=
  if stanza.attr qnType = textBytes "error" then some []
  else (fillStatus from_ stanza).map fun s => [.statusUpdate s]

def handleMucPresence (muc : Muc) (from_ : Jid) (stanza : XmlElement) :
    Option (List PresenceSignal) :=
  if from_.eqv muc.localJid then
    if !stanza.hasAttr qnType then
      let elem := (stanza.firstNamed qnMucUserX).bind fun e => e.firstNamed qnMucUserStatus
      if elem.any fun e => e.attr qnCode = textBytes "110" || e.attr qnCode = textBytes "100" then
        some [.mucJoined muc.jid]
      else some []
    else
      let error :=
        if stanza.attr qnType = textBytes "error" then
          match stanza.firstNamed qnError with
          | none => 0
          | some e => if e.hasAttr qnCode then atoi (e.attr qnCode) else 0
        else 0
      some [.mucLeft muc.jid error]
  else (fillStatus from_ stanza).map fun s => [.mucStatusUpdate muc.jid s]

/-- `PresencePushTask::ProcessStart` with a stanza. -/
def processPresence (mucs : List (Jid × Muc)) (stanza : XmlElement) :
    Option (List PresenceSignal) :=
  let from_ := Jid.ofString (stanza.attr qnFrom)
  match mucs.find? fun m => m.1.eqv from_.bareJid with
  | none => handlePresence from_ stanza
  | some m => handleMucPresence m.2 from_ stanza

/-! ### No index leaves its text -/

theorem exists_firstByteBefore {status : Text} (len : ℕ) (h : len < status.length) :
    ∃ n, firstByteBefore status len = some n := by
  induction len with
  | zero =>
    rw [firstByteBefore, List.getElem?_eq_getElem h]
    exact ⟨0, rfl⟩
  | succ len ih =>
    rw [firstByteBefore, List.getElem?_eq_getElem h]
    dsimp only
    split_ifs
    · exact ih (by omega)
    · exact ⟨len + 1, rfl⟩

theorem exists_truncateStatus (status : Text) : ∃ t, truncateStatus status = some t := by
  unfold truncateStatus
  split_ifs with h
  · obtain ⟨n, hn⟩ := exists_firstByteBefore maxStatus h
    exact ⟨_, by rw [hn]; rfl⟩
  · exact ⟨status, rfl⟩

theorem exists_statusText (status : Option XmlElement) : ∃ t, statusText status = some t := by
  cases status with
  | none => exact ⟨[], rfl⟩
  | some e => exact exists_truncateStatus e.bodyText

theorem exists_fillStatus (from_ : Jid) (stanza : XmlElement) :
    ∃ s, fillStatus from_ stanza = some s := by
  obtain ⟨t, ht⟩ := exists_statusText (stanza.firstNamed qnStatus)
  unfold fillStatus
  split_ifs
  · exact ⟨_, rfl⟩
  · rw [ht]
    exact ⟨_, rfl⟩

theorem exists_processPresence (mucs : List (Jid × Muc)) (stanza : XmlElement) :
    ∃ signals, processPresence mucs stanza = some signals := by
  obtain ⟨s, hs⟩ := exists_fillStatus (Jid.ofString (stanza.attr qnFrom)) stanza
  unfold processPresence
  dsimp only
  split
  · unfold handlePresence
    rw [hs]
    split_ifs
    all_goals exact ⟨_, rfl⟩
  · unfold handleMucPresence
    dsimp only
    rw [hs]
    split_ifs
    all_goals exact ⟨_, rfl⟩

end Jingle.Service
