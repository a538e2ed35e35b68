/-
The stanza handlers of the client.

`Tasks` is the client with its roster, presence and jingle info tasks, their queues,
and the tasks that ask the server and wait for its answer.  `deliver` offers a stanza
to the handlers, a step of a task takes one from its queue.

* **`tolerates_iff`** — a stanza is tolerated by all handlers, unless it is a chat message
  without a body, or jingle info that leaves no relay address.
* **`filtered_run`** — the iq stanzas of strangers do not change the roster and the jingle
  info, if none of them is taken by the roster task or the jingle info task.
-/
import Jingle.Service.Roster
import Jingle.Service.JingleInfo

namespace Jingle.Service

open Signaling (Text QName)
open Xmllite Xmpp

/-! ### Messages -/

def qnMessage : QName := ⟨nsClient, textBytes "message"⟩
def qnBody : QName := ⟨nsClient, textBytes "body"⟩

def mesgChat : Text := textBytes "chat"

/-- `XmppMessage::HandleStanza`: whether it takes the stanza, and the text and the sender
that it signals; nothing if the body is missing. -/
def handleMessage (stanza : XmlElement) : Option (Bool × List (Text × Text)) :=
  if stanza.name ≠ qnMessage then some (false, [])
  else if stanza.attr qnType = mesgChat then
    let from_ := stanza.attr qnFrom
    (stanza.firstNamed qnBody).map fun body => (true, [(body.bodyText, from_)])
  else some (true, [])

/-- A message of type chat. -/
def isChat (stanza : XmlElement) : Bool :=
  stanza.name = qnMessage && stanza.attr qnType = mesgChat

/-- The text and the sender of a chat message that has a body. -/
def chatOf (stanza : XmlElement) : List (Text × Text) :=
  if isChat stanza then
    ((stanza.firstNamed qnBody).map fun body => (body.bodyText, stanza.attr qnFrom)).toList
  else []

/-! ### Stanzas that are tolerated -/

/-- All handlers run to their ends with a stanza, and the chat messages that have a body
are signalled. -/
structure Tolerates (c : TalkClient) (t : JingleInfoTask) (stanza : XmlElement) : Prop where
  message : ∃ taken, handleMessage stanza = some (taken, chatOf stanza)
  presence : ∃ signals, processPresence c.mucs stanza = some signals
  roster : ∃ c', c.arrive (.roster stanza) = some c'
  info : ∃ t', t.processStart stanza = some t'

theorem handleMessage_iff (stanza : XmlElement) :
    (∃ taken, handleMessage stanza = some (taken, chatOf stanza)) ↔
      (isChat stanza → stanza.firstNamed qnBody ≠ none) := by
  unfold handleMessage chatOf isChat
  by_cases hname : stanza.name = qnMessage
  · by_cases htype : stanza.attr qnType = mesgChat
    · cases hbody : stanza.firstNamed qnBody with
      | none => simp [hname, htype]
      | some body => simp [hname, htype]
    · simp [hname, htype]
  · simp [hname]

theorem resolveFirst_iff (t : JingleInfoTask) :
    (∃ t', t.resolveFirst = some t') ↔ t.relayHosts ≠ [] := by
  unfold JingleInfoTask.resolveFirst
  cases t.relayHosts with
  | nil => simp
  | cons first rest =>
    dsimp only
    split_ifs <;> simp

theorem processStart_iff (t : JingleInfoTask) (stanza : XmlElement) :
    (∃ t', t.processStart stanza = some t') ↔
      ∀ query ∈ stanza.firstNamed qnJingleInfoQuery,
        t.relayHosts ≠ [] ∨ statedAddresses query ≠ [] := by
  unfold JingleInfoTask.processStart
  cases stanza.firstNamed qnJingleInfoQuery with
  | none => simp
  | some query =>
    dsimp only
    rw [resolveFirst_iff, takeRelay_relayHosts, takeStun_relayHosts]
    constructor
    · intro hne query' hquery
      cases hquery
      by_contra hboth
      push Not at hboth
      exact hne (by rw [hboth.1, hboth.2]; rfl)
    · intro h hnil
      obtain ⟨hhosts, hstated⟩ := List.append_eq_nil_iff.mp hnil
      rcases h query rfl with hne | hne
      · exact hne hhosts
      · exact hne hstated

/-- **What is tolerated**: a chat message has a body, and a query leaves at least one relay
address. -/
theorem tolerates_iff (c : TalkClient) (t : JingleInfoTask) (stanza : XmlElement) :
    Tolerates c t stanza ↔
      (isChat stanza → stanza.firstNamed qnBody ≠ none) ∧
        ∀ query ∈ stanza.firstNamed qnJingleInfoQuery,
          t.relayHosts ≠ [] ∨ statedAddresses query ≠ [] := by
  constructor
  · intro h
    exact ⟨(handleMessage_iff stanza).mp h.message, (processStart_iff t stanza).mp h.info⟩
  · rintro ⟨hchat, hinfo⟩
    exact {
      message := (handleMessage_iff stanza).mpr hchat
      presence := exists_processPresence c.mucs stanza
      roster := ⟨_, rfl⟩
      info := (processStart_iff t stanza).mpr hinfo }

/-- A chat message without a body. -/
def sampleChat : XmlElement := (XmlElement.new qnMessage).addAttr qnType mesgChat

/-- Jingle info with a token only. -/
def sampleToken : XmlElement :=
  (XmlElement.new qnIq).addElement ((XmlElement.new qnJingleInfoQuery).addElement
    (XmlElement.new qnJingleInfoRelay))

/-- **Two stanzas that are not tolerated.** -/
theorem not_tolerates :
    ¬ Tolerates (.new sampleUser) .new sampleChat ∧
      ¬ Tolerates (.new sampleUser) .new sampleToken := by
  constructor
  · intro h
    exact (handleMessage_iff sampleChat).mp h.message (by decide) (by decide)
  · intro h
    have hfault : JingleInfoTask.new.processStart sampleToken = none := by decide
    obtain ⟨t', ht'⟩ := h.info
    rw [hfault] at ht'
    cases ht'

/-! ### The tasks -/

/-- `RosterPullTask` or `JingleInfoGetTask`. -/
inductive PullKind
  | roster | info
  deriving DecidableEq, Repr

/-- A task that has asked the server. -/
structure PullTask where
  kind : PullKind
  id : Text
  done : Bool

/-- The client with its tasks. -/
structure Tasks where
  client : TalkClient
  info : JingleInfoTask
  pulls : List PullTask
  rosterQueue : List XmlElement
  presenceQueue : List XmlElement
  infoQueue : List XmlElement
  nextId : ℕ

/-- `MatchStanzaFrom` for the server. -/
def matchStanzaFrom (me : Jid) (stanza : XmlElement) : Bool :=
  let from_ := Jid.ofString (stanza.attr qnFrom)
  from_.eqv ⟨none⟩ || from_.eqv (.ofString me.domain) || from_.eqv me.bareJid

/-- `MatchResponseIq` for the server. -/
def matchResponseIq (me : Jid) (stanza : XmlElement) (id : Text) : Bool :=
  stanza.name = qnIq && stanza.attr qnId = id && matchStanzaFrom me stanza

def matchRequestIq (stanza : XmlElement) (type : Text) (qn : QName) : Bool :=
  stanza.name = qnIq && stanza.attr qnType = type && (stanza.firstNamed qn).isSome

/-- `HandleStanza` of a task that has asked: whether it takes the stanza. -/
def PullTask.takes (p : PullTask) (me : Jid) (stanza : XmlElement) : Bool :=
  matchResponseIq me stanza p.id && stanza.attr qnType = textBytes "result"

/-- `RosterGetTask::HandleStanza`: whether it takes the stanza. -/
def rosterTakes (stanza : XmlElement) : Bool :=
  matchRequestIq stanza (textBytes "result") qnRosterQuery

/-- `JingleInfoTask::HandleStanza`: whether it takes the stanza. -/
def infoTakes (me : Jid) (stanza : XmlElement) : Bool :=
  let from_ := Jid.ofString (stanza.attr qnFrom)
  matchRequestIq stanza (textBytes "set") qnJingleInfoQuery &&
    (from_.eqv ⟨none⟩ || from_.bareEquals me || from_.eqv (.ofString me.domain))

namespace Tasks

/-- A client that has logged in. -/
def new (jid : Jid) : Tasks where
  client := .new jid
  info := .new
  pulls := []
  rosterQueue := []
  presenceQueue := []
  infoQueue := []
  nextId := 0

variable (t : Tasks)

/-- A stanza is queued for the parent of a task that has asked. -/
def queue (stanza : XmlElement) : PullKind → Tasks
  | .roster => { t with rosterQueue := t.rosterQueue ++ [stanza] }
  | .info => { t with infoQueue := t.infoQueue ++ [stanza] }

/-- The task that has asked with this id is done. -/
def setDone (id : Text) : Tasks :=
  { t with pulls := t.pulls.map fun p => if p.id = id then { p with done := true } else p }

/-- A stanza is offered to the handlers: the tasks that have asked come first. -/
def deliver (stanza : XmlElement) : Tasks :=
  match t.pulls.find? fun p => p.takes t.client.jid stanza with
  | some p => (t.queue stanza p.kind).setDone p.id
  | none =>
    if rosterTakes stanza then t.queue stanza .roster
    else if stanza.name = qnPresence then
      { t with presenceQueue := t.presenceQueue ++ [stanza] }
    else if infoTakes t.client.jid stanza then t.queue stanza .info
    else t

/-- `RefreshRosterInfoNow` or `RefreshJingleInfoNow`. -/
def refresh (kind : PullKind) : Tasks :=
  { t with
    pulls := t.pulls ++ [{ kind, id := Numeral.decimal t.nextId, done := false }]
    nextId := t.nextId + 1 }

/-- The tasks that are done have stopped. -/
def stopDone : Tasks := { t with pulls := t.pulls.filter fun p => !p.done }

/-- The roster task takes a stanza from its queue. -/
def stepRoster : Tasks :=
  match t.rosterQueue with
  | [] => t
  | stanza :: rest => { t with client := t.client.processRoster stanza, rosterQueue := rest }

/-- The presence task takes a stanza from its queue. -/
def stepPresence : Option Tasks :=
  match t.presenceQueue with
  | [] => some t
  | stanza :: rest =>
    (t.client.processPresence stanza).map fun client => { t with client, presenceQueue := rest }

/-- The jingle info task takes a stanza from its queue. -/
def stepInfo : Option Tasks :=
  match t.infoQueue with
  | [] => some t
  | stanza :: rest =>
    (t.info.processStart stanza).map fun info => { t with info, infoQueue := rest }

/-- What can happen to the tasks. -/
inductive Event
  | deliver (stanza : XmlElement)
  | refresh (kind : PullKind)
  | stopDone
  | stepRoster
  | stepPresence
  | stepInfo
  | resolved (k : ℕ) (error : ℤ) (result : Option Word)

/-- The tasks after an event. -/
def act : Event → Option Tasks
  | .deliver stanza => some (t.deliver stanza)
  | .refresh kind => some (t.refresh kind)
  | .stopDone => some t.stopDone
  | .stepRoster => some t.stepRoster
  | .stepPresence => t.stepPresence
  | .stepInfo => t.stepInfo
  | .resolved k error result => some { t with info := t.info.onResolveResult k error result }

/-- The tasks after some events. -/
def run (t : Tasks) : List Event → Option Tasks
  | [] => some t
  | e :: es => (t.act e).bind fun t => t.run es

/-- What the tasks have told: the roster, and what was signalled. -/
def told : RosterInfoMap × List JingleInfo := (t.client.roster, t.info.signals)

end Tasks

/-! ### The stanzas of strangers -/

/-- An iq stanza that comes neither from the server nor from the user's own bare JID. -/
def isForeign (me : Jid) (stanza : XmlElement) : Bool :=
  stanza.name = qnIq && !matchStanzaFrom me stanza

/-- The events that are left when the iq stanzas of strangers are removed. -/
def isKept (me : Jid) : Tasks.Event → Bool
  | .deliver stanza => !isForeign me stanza
  | _ => true

/-- An event that is not an iq stanza of a stranger that the roster task or the jingle info
task takes. -/
def NotTaken (me : Jid) : Tasks.Event → Prop
  | .deliver stanza => isForeign me stanza → rosterTakes stanza = false ∧ infoTakes me stanza = false
  | _ => True

theorem not_takes_of_isForeign {me : Jid} {stanza : XmlElement} (h : isForeign me stanza)
    (p : PullTask) : p.takes me stanza = false := by
  have hfrom : matchStanzaFrom me stanza = false := by
    simp only [isForeign, Bool.and_eq_true, Bool.not_eq_true'] at h
    exact h.2
  rw [PullTask.takes, matchResponseIq, hfrom, Bool.and_false, Bool.false_and]

theorem deliver_of_isForeign {t : Tasks} {stanza : XmlElement}
    (h : isForeign t.client.jid stanza) (hroster : rosterTakes stanza = false)
    (hinfo : infoTakes t.client.jid stanza = false) : t.deliver stanza = t := by
  have hname : stanza.name ≠ qnPresence := by
    simp only [isForeign, Bool.and_eq_true, decide_eq_true_eq] at h
    rw [h.1]
    decide
  have hpulls : (t.pulls.find? fun p => p.takes t.client.jid stanza) = none :=
    List.find?_eq_none.mpr fun p _ => by simp [not_takes_of_isForeign h p]
  unfold Tasks.deliver
  rw [hpulls]
  simp [hroster, hinfo, hname]

/-! ### The JID of the client stays -/

theorem jid_addRosterInfo (c : TalkClient) (info : RosterInfo) :
    (c.addRosterInfo info).jid = c.jid := by
  unfold TalkClient.addRosterInfo
  split_ifs
  · rfl
  · split <;> rfl

theorem jid_processRoster (c : TalkClient) (stanza : XmlElement) :
    (c.processRoster stanza).jid = c.jid := by
  unfold TalkClient.processRoster
  induction TalkClient.rosterItems stanza generalizing c with
  | nil => rfl
  | cons info items ih => rw [List.foldl_cons, ih, jid_addRosterInfo]

theorem jid_onPresenceSignal (c : TalkClient) (signal : PresenceSignal) :
    (c.onPresenceSignal signal).jid = c.jid := by
  cases signal with
  | statusUpdate status =>
    unfold TalkClient.onPresenceSignal TalkClient.onStatusUpdate
    dsimp only
    split_ifs <;> rfl
  | mucJoined muc => rfl
  | mucLeft muc error => rfl
  | mucStatusUpdate muc status => rfl

theorem jid_processPresence {c c' : TalkClient} {stanza : XmlElement}
    (h : c.processPresence stanza = some c') : c'.jid = c.jid := by
  obtain ⟨signals, -, rfl⟩ := Option.map_eq_some_iff.mp h
  clear h
  induction signals generalizing c with
  | nil => rfl
  | cons signal signals ih => rw [List.foldl_cons, ih, jid_onPresenceSignal]

theorem jid_act {t t' : Tasks} {e : Tasks.Event} (h : t.act e = some t') :
    t'.client.jid = t.client.jid := by
  cases e with
  | deliver stanza =>
    cases h
    unfold Tasks.deliver
    split
    next p _ => cases hk : p.kind <;> rfl
    · split_ifs <;> rfl
  | refresh kind =>
    cases h
    rfl
  | stopDone =>
    cases h
    rfl
  | stepRoster =>
    cases h
    unfold Tasks.stepRoster
    split
    · rfl
    · exact jid_processRoster _ _
  | stepPresence =>
    have h : t.stepPresence = some t' := h
    unfold Tasks.stepPresence at h
    split at h
    · cases h
      rfl
    · obtain ⟨client, hclient, rfl⟩ := Option.map_eq_some_iff.mp h
      exact jid_processPresence hclient
  | stepInfo =>
    have h : t.stepInfo = some t' := h
    unfold Tasks.stepInfo at h
    split at h
    · cases h
      rfl
    · obtain ⟨info, -, rfl⟩ := Option.map_eq_some_iff.mp h
      rfl
  | resolved k error result =>
    cases h
    rfl

/-! ### Two runs -/

theorem run_filter (es : List Tasks.Event) : ∀ t : Tasks,
    (∀ e ∈ es, NotTaken t.client.jid e) →
      t.run (es.filter (isKept t.client.jid)) = t.run es := by
  induction es with
  | nil => exact fun t _ => rfl
  | cons e es ih =>
    intro t h
    obtain ⟨he, hes⟩ := List.forall_mem_cons.mp h
    by_cases hk : isKept t.client.jid e = true
    · rw [List.filter_cons_of_pos hk, Tasks.run, Tasks.run]
      cases hact : t.act e with
      | none => rfl
      | some t' =>
        rw [← jid_act hact] at hes ⊢
        exact ih t' hes
    · rw [List.filter_cons_of_neg hk, ih t hes]
      -- the event that is removed changes nothing
      cases e with
      | deliver stanza =>
        have hforeign : isForeign t.client.jid stanza = true := by
          simpa [isKept] using hk
        obtain ⟨hroster, hinfo⟩ := he hforeign
        have hact : t.act (.deliver stanza) = some t :=
          congrArg some (deliver_of_isForeign hforeign hroster hinfo)
        rw [Tasks.run, hact, Option.bind_some]
      | _ => exact absurd rfl hk

/-- **Only the server tells**: without the iq stanzas of strangers the roster and the
signals are the same, in every run in which none of these stanzas is taken. -/
theorem filtered_run (jid : Jid) (es : List Tasks.Event) (h : ∀ e ∈ es, NotTaken jid e) :
    ((Tasks.new jid).run (es.filter (isKept jid))).map Tasks.told =
      ((Tasks.new jid).run es).map Tasks.told :=
  congrArg (Option.map Tasks.told) (run_filter es (.new jid) h)

/-- A result that is not sent by the server. -/
def sampleForeign (type from_ : Text) (query : QName) : XmlElement :=
  (((XmlElement.new qnIq).addAttr qnType type).addAttr qnFrom from_).addElement
    (XmlElement.new query)

theorem filtered_sample :
    ((Tasks.new sampleUser).run (([.deliver (sampleForeign (textBytes "set") (textBytes "b@z/r")
      qnRosterQuery), .stepRoster] : List Tasks.Event).filter (isKept sampleUser))).map
        Tasks.told =
    ((Tasks.new sampleUser).run [.deliver (sampleForeign (textBytes "set") (textBytes "b@z/r")
      qnRosterQuery), .stepRoster]).map Tasks.told := by
  refine filtered_run sampleUser _ fun e he => ?_
  rcases List.mem_cons.mp he with rfl | he
  · intro _
    constructor <;> decide
  · rw [List.mem_singleton.mp he]
    trivial

/-- A result with a roster of a stranger. -/
def strangeRoster : XmlElement :=
  (sampleRoster.addAttr qnType (textBytes "result")).addAttr qnFrom (textBytes "b@z/r")

/-- Jingle info of another resource of the user. -/
def strangeInfo : XmlElement :=
  ((sampleInfo (textBytes "h") [qnJingleInfoUdp]).addAttr qnType (textBytes "set")).addAttr
    qnFrom (textBytes "me@y/there")

/-- The stranger's roster is taken. -/
def strangeRosterEvents : List Tasks.Event := [.deliver strangeRoster, .stepRoster]

/-- The jingle info of the other resource is taken. -/
def strangeInfoEvents : List Tasks.Event :=
  [.deliver strangeInfo, .stepInfo, .resolved 0 0 (some 7)]

/-- **A stranger tells**: the roster task does not look at the sender of a result, and the
jingle info task takes what another resource of the user sends. -/
theorem not_filtered :
    ((Tasks.new sampleUser).run (strangeRosterEvents.filter (isKept sampleUser))).map
        Tasks.told ≠ ((Tasks.new sampleUser).run strangeRosterEvents).map Tasks.told ∧
      ((Tasks.new sampleUser).run (strangeInfoEvents.filter (isKept sampleUser))).map
        Tasks.told ≠ ((Tasks.new sampleUser).run strangeInfoEvents).map Tasks.told := by
  constructor
  · intro heq
    have hwith : (((Tasks.new sampleUser).run strangeRosterEvents).map Tasks.told).map
        (fun told => (told.1 (textBytes "a@x")).isSome) = some true := by decide
    have hwithout : (((Tasks.new sampleUser).run (strangeRosterEvents.filter
        (isKept sampleUser))).map Tasks.told).map
        (fun told => (told.1 (textBytes "a@x")).isSome) = some false := by decide
    rw [heq, hwith] at hwithout
    cases hwithout
  · intro heq
    have hwith : (((Tasks.new sampleUser).run strangeInfoEvents).map Tasks.told).map
        (fun told => told.2.length) = some 1 := by decide
    have hwithout : (((Tasks.new sampleUser).run (strangeInfoEvents.filter
        (isKept sampleUser))).map Tasks.told).map (fun told => told.2.length) = some 0 := by
      decide
    rw [heq, hwith] at hwithout
    cases hwithout

end Jingle.Service
