/-
What the engine's steps leave alone.

`EnterExit` changes nothing but what was printed and told, and closes the handler of
an engine that is closed.  A call of the user leaves the login task where it is, but
for the stanzas that it queues (`UserFrame`).  A turn of `Advance` that goes on has a
task of smaller rank, so that the loop of `Advance` ends.

* **`userCalls_frame`** — what the user's calls leave alone.
* **`advance_enough`** — four turns are enough.
-/
import Jingle.Xmpp.Engine

namespace Jingle.Xmpp.XmppEngineImpl

open Signaling (Text QName)
open Xmllite

variable {E : Expat} {S : SaslHandler} {e e' : XmppEngineImpl E S}

/-! ### Entering and leaving -/

/-- What a flush tells the output handler. -/
def flushed (e : XmppEngineImpl E S) (closing : Bool) : List HandlerCall :=
  (if e.output.length > 0 then [.writeOutput e.output] else []) ++
    if closing then [.closeConnection] else []

theorem flush_eq (closing : Bool) :
    e.flush closing =
      { e with
        output := []
        calls := e.calls ++ e.flushed closing
        outputHandler := e.outputHandler && !closing } := by
  cases closing <;> by_cases h : e.output.length > 0 <;> simp [flush, tell, flushed, h]

/-- A flush is made when the call closes the engine or is the outermost one. -/
def Flushes (e : XmppEngineImpl E S) (entry : State) : Prop :=
  (e.state ≠ entry ∧ e.state = .closed) ∨ e.engineEntered - 1 = 0

instance (entry : State) : Decidable (e.Flushes entry) := by unfold Flushes; infer_instance

theorem exit_eq (entry : State) :
    e.exit entry =
      let closing := e.state ≠ entry ∧ e.state = .closed
      let reset := e.engineEntered - 1 = 0 ∧ e.raisedReset
      let flushes := e.outputHandler ∧ e.Flushes entry
      { e with
        engineEntered := e.engineEntered - 1
        output := if flushes then [] else e.output
        calls := e.calls ++ if flushes then e.flushed closing else []
        outputHandler := e.outputHandler && !closing
        stanzaParser := if reset then .new else e.stanzaParser
        raisedReset := if reset then false else e.raisedReset
        stateChanges := e.stateChanges ++
          if e.engineEntered - 1 = 0 ∧ e.sessionHandler ∧ e.state ≠ entry then [e.state]
          else [] } := by
  unfold exit Flushes
  by_cases ho : e.outputHandler = true
  · by_cases hs : e.state = .closed
    · by_cases he : State.closed = entry <;> by_cases hn : e.engineEntered - 1 = 0 <;>
        by_cases hr : e.raisedReset = true <;> by_cases hh : e.sessionHandler = true <;>
        simp [ho, hs, he, hn, hr, hh, flush_eq, flushed]
    · by_cases hn : e.engineEntered - 1 = 0 <;> by_cases hr : e.raisedReset = true <;>
        by_cases hh : e.sessionHandler = true ∧ ¬e.state = entry <;>
        simp [ho, hs, hn, hr, hh, flush_eq, flushed]
  · -- without a handler nothing is flushed
    by_cases hn : e.engineEntered - 1 = 0 <;> by_cases hr : e.raisedReset = true <;>
      by_cases hh : e.sessionHandler = true ∧ ¬e.state = entry <;>
      simp [ho, hn, hr, hh]

@[simp] theorem exit_engineEntered (entry : State) :
    (e.exit entry).engineEntered = e.engineEntered - 1 := by rw [exit_eq]

@[simp] theorem exit_history (entry : State) : (e.exit entry).history = e.history := by
  rw [exit_eq]

@[simp] theorem exit_state (entry : State) : (e.exit entry).state = e.state := by rw [exit_eq]

@[simp] theorem exit_loginTask (entry : State) : (e.exit entry).loginTask = e.loginTask := by
  rw [exit_eq]

@[simp] theorem exit_tlsNeeded (entry : State) : (e.exit entry).tlsNeeded = e.tlsNeeded := by
  rw [exit_eq]

@[simp] theorem exit_hasError (entry : State) : (e.exit entry).hasError = e.hasError := by
  rw [exit_eq]
  rfl

theorem exit_raisedReset {entry : State} (h : 1 < e.engineEntered) :
    (e.exit entry).raisedReset = e.raisedReset := by
  rw [exit_eq]
  exact if_neg fun hr => by omega

theorem exit_outputHandler {entry : State} (h : e.outputHandler = true) :
    (e.exit entry).outputHandler = true ∨ (e.exit entry).state = .closed := by
  rw [exit_eq]
  by_cases hs : e.state = .closed
  · exact .inr hs
  · exact .inl (by simp [h, hs])

/-! ### The user's calls -/

/-- What a call of the user leaves alone: the login task only queues stanzas. -/
structure UserFrame (e e' : XmppEngineImpl E S) : Prop where
  entered : e'.engineEntered = e.engineEntered
  history : e.history <+: e'.history
  login : ∃ l, e'.loginTask =
    e.loginTask.map fun t => { t with queuedStanzas := t.queuedStanzas ++ l }
  state : e'.state = e.state ∨ e'.state = .closed
  raised : 0 < e.engineEntered → e'.raisedReset = e.raisedReset
  tlsNeeded : e'.tlsNeeded = e.tlsNeeded

theorem UserFrame.refl (e : XmppEngineImpl E S) : UserFrame e e :=
  ⟨rfl, List.prefix_rfl, ⟨[], by simp⟩, .inl rfl, fun _ => rfl, rfl⟩

theorem UserFrame.trans {e'' : XmppEngineImpl E S} (h : UserFrame e e')
    (h' : UserFrame e' e'') : UserFrame e e'' where
  entered := h'.entered.trans h.entered
  history := h.history.trans h'.history
  login := by
    obtain ⟨l, hl⟩ := h.login
    obtain ⟨l', hl'⟩ := h'.login
    refine ⟨l ++ l', ?_⟩
    rw [hl', hl, Option.map_map]
    congr 1
    funext t
    simp
  state := by
    rcases h'.state with hs | hs
    · rw [hs]; exact h.state
    · exact .inr hs
  raised := fun hp => (h'.raised (h.entered ▸ hp)).trans (h.raised hp)
  tlsNeeded := h'.tlsNeeded.trans h.tlsNeeded

theorem UserFrame.closed (h : UserFrame e e') (hc : e.state = .closed) :
    e'.state = .closed := by
  rcases h.state with hs | hs
  · exact hs.trans hc
  · exact hs

theorem sendStanza_frame (element : XmlElement) : UserFrame e (e.sendStanza element) := by
  unfold sendStanza
  by_cases hc : e.state = .closed
  · rw [if_pos hc]
    exact .refl e
  · rw [if_neg hc]
    by_cases hl : e.loginTask.isSome = true
    · refine ⟨?_, ?_, ⟨[element], ?_⟩, ?_, fun hp => ?_, ?_⟩ <;>
        simp [enter, accept, modifyLogin, exit_raisedReset, *]
    · refine ⟨?_, ?_, ⟨[], ?_⟩, ?_, fun hp => ?_, ?_⟩ <;>
        simp [enter, accept, print, exit_raisedReset, *]

theorem sendIq_frame (element : XmlElement) : UserFrame e (e.sendIq element) := by
  unfold sendIq
  split_ifs
  iterate 4 exact .refl e
  have hq (l : List XmppIqEntry) : UserFrame e { e with iqEntries := l } :=
    ⟨rfl, List.prefix_rfl, ⟨[], by simp⟩, .inl rfl, fun _ => rfl, rfl⟩
  exact (hq _).trans (sendStanza_frame element)

theorem sendRaw_frame (text : Text) : UserFrame e (e.sendRaw text) := by
  unfold sendRaw
  split_ifs with h
  · exact .refl e
  · refine ⟨?_, ?_, ⟨[], ?_⟩, ?_, fun hp => ?_, ?_⟩ <;>
      simp [enter, print, exit_raisedReset, *]

theorem disconnect_frame : UserFrame e e.disconnect := by
  unfold disconnect
  split_ifs with h
  · by_cases ho : e.state = .open_
    · refine ⟨?_, ?_, ⟨[], ?_⟩, ?_, fun hp => ?_, ?_⟩ <;>
        simp [enter, print, exit_raisedReset, *]
    · refine ⟨?_, ?_, ⟨[], ?_⟩, ?_, fun hp => ?_, ?_⟩ <;>
        simp [enter, exit_raisedReset, *]
  · exact .refl e

theorem connectionClosed_frame (subcode : ℤ) : UserFrame e (e.connectionClosed subcode) := by
  unfold connectionClosed
  split_ifs with h hs
  · refine ⟨?_, ?_, ⟨[], ?_⟩, ?_, fun hp => ?_, ?_⟩ <;>
      simp [enter, signalError, exit_raisedReset, *]
  · refine ⟨?_, ?_, ⟨[], ?_⟩, ?_, fun hp => ?_, ?_⟩ <;>
      simp [enter, signalError, exit_raisedReset, *]
  · exact .refl e

theorem userCall_frame (call : UserCall) : UserFrame e (e.userCall call) := by
  cases call with
  | sendStanza element => exact sendStanza_frame element
  | sendIq element => exact sendIq_frame element
  | sendRaw text => exact sendRaw_frame text
  | disconnect => exact disconnect_frame
  | connectionClosed subcode => exact connectionClosed_frame subcode

theorem userCalls_frame (calls : List UserCall) : UserFrame e (e.userCalls calls) := by
  induction calls generalizing e with
  | nil => exact .refl e
  | cons call calls ih => exact (userCall_frame call).trans ih

/-! ### The loop of `Advance` -/

/-- The domain of the user, which names the server. -/
def domain (e : XmppEngineImpl E S) : Text :=
  (e.settings.userJid.data.map Jid.Data.domain).getD []

/-- The states in which the task waits for an element. -/
def Waits (state : LoginTaskState) : Prop :=
  state ∈ [LoginTaskState.streamstartSent, .startedXmpp, .tlsRequested, .saslRunning,
    .bindRequested, .sessionRequested]

/-- What a turn of `Advance` can do. -/
inductive Turn (e : XmppEngineImpl E S) (t : XmppLoginTask S) (calls : List UserCall) :
    XmppEngineImpl E S × Bool → Prop
  /-- The task waits for an element, or it is done. -/
  | wait : (Waits t.state ∧ t.pelStanza = none) ∨ t.state = .done → Turn e t calls (e, false)
  /-- A stream is started. -/
  | start : t.state = .init →
      Turn e t calls ((({ e with raisedReset := true }.modifyLogin fun t =>
        { t with pelFeatures := none }).internalSendStart e.domain).goto .streamstartSent, true)
  /-- The login fails without an element. -/
  | fail (err : Error) : ¬ Waits t.state → Turn e t calls (e.failure err, false)
  /-- The login fails on an element. -/
  | reject (el : XmlElement) (err : Error) : t.pelStanza = some el →
      Turn e t calls ((e.take el).failure err, false)
  /-- The server's stream has started. -/
  | started (el : XmlElement) : t.state = .streamstartSent → t.pelStanza = some el →
      t.isStart = true → acceptsStart el = true →
      Turn e t calls ((e.take el).modifyLogin fun t =>
        { t with streamId := el.attr qnId, state := .startedXmpp }, false)
  /-- The server's features. -/
  | features (el : XmlElement) (next : LoginTaskState) : t.state = .startedXmpp →
      t.pelStanza = some el → el.name = qnStreamFeatures →
      (next = .tlsInit ∨ (e.tlsNeeded = false ∧
        (next = .authInit ∨ (next = .bindInit ∧ t.authNeeded = false)))) →
      Turn e t calls
        (((e.take el).modifyLogin fun t => { t with pelFeatures := some el }).goto next, true)
  /-- TLS is asked for. -/
  | askTls : t.state = .tlsInit →
      (t.pelFeatures.bind fun f => f.firstNamed qnTlsStarttls).isSome = true →
      Turn e t calls ((e.print .starttls).goto .tlsRequested, true)
  /-- TLS starts. -/
  | proceed (el : XmlElement) : t.state = .tlsRequested → t.pelStanza = some el →
      el.name = qnTlsProceed →
      Turn e t calls
        ({ (e.take el).startTls e.domain calls with tlsNeeded := false }.goto .init, true)
  /-- The authentication starts. -/
  | auth (auth : XmlElement) (mech : S.Mechanism) : t.state = .authInit →
      Turn e t calls ((e.print (.saslAuth auth)).modifyLogin fun t =>
        { t with saslMech := some mech, state := .saslRunning }, true)
  /-- A challenge is answered. -/
  | respond (el response : XmlElement) (mech : S.Mechanism) : t.state = .saslRunning →
      t.pelStanza = some el →
      Turn e t calls (((e.take el).print (.saslResponse response)).modifyLogin fun t =>
        { t with saslMech := some mech, state := .saslRunning }, true)
  /-- The authentication succeeded. -/
  | success (el : XmlElement) : t.state = .saslRunning → t.pelStanza = some el →
      el.name = qnSaslSuccess →
      Turn e t calls ((e.take el).modifyLogin fun t =>
        { t with authNeeded := false, state := .init }, true)
  /-- A resource is asked for. -/
  | askBind : t.state = .bindInit →
      Turn e t calls (({ e with nextId := e.nextId + 1 }.print
        (.bindIq e.nextIdText e.settings.requestedResource)).modifyLogin fun t =>
          { t with iqId := e.nextIdText, state := .bindRequested }, true)
  /-- An element that is not the answer is passed over. -/
  | skip (el : XmlElement) : t.state = .bindRequested ∨ t.state = .sessionRequested →
      t.pelStanza = some el → Turn e t calls (e.take el, false)
  /-- The resource is bound, and a session is asked for. -/
  | bound (el : XmlElement) (jid : Jid) : t.state = .bindRequested → t.pelStanza = some el →
      answers el t.iqId = true → boundJidOf el = some jid →
      Turn e t calls (({ e.take el with nextId := e.nextId + 1 }.print
        (.sessionIq e.nextIdText)).modifyLogin fun t =>
          { t with fullJid := jid, iqId := e.nextIdText, state := .sessionRequested }, true)
  /-- The session is open, and what was queued is sent. -/
  | session (el : XmlElement) : t.state = .sessionRequested → t.pelStanza = some el →
      answers el t.iqId = true → el.attr qnType = textBytes "result" →
      Turn e t calls ((t.queuedStanzas.foldl (fun e stanza => e.print (.stanza stanza))
        ((e.take el).signalBound t.fullJid)).modifyLogin fun t =>
          { t with queuedStanzas := [], state := .done }, false)

theorem advanceStep_turn (t : XmppLoginTask S) (calls : List UserCall) :
    Turn e t calls (e.advanceStep t calls) := by
  unfold advanceStep
  split
  next h => exact .start h
  next h =>
    split
    next hel => exact .wait (.inl ⟨by simp [Waits, h], hel⟩)
    next el hel =>
      dsimp only
      split
      next => exact .reject el .version hel
      next hn =>
        have hn : t.isStart = true ∧ acceptsStart el = true := by simpa using hn
        exact .started el h hel hn.1 hn.2
  next h =>
    split
    next hel => exact .wait (.inl ⟨by simp [Waits, h], hel⟩)
    next el hel =>
      dsimp only
      split
      next => exact .reject el .version hel
      next hn =>
        have hn : el.name = qnStreamFeatures := by simpa using hn
        split
        next => exact .features el .tlsInit h hel hn (.inl rfl)
        next htls =>
          have htls : e.tlsNeeded = false := by
            cases htn : e.tlsNeeded with
            | false => rfl
            | true => exact absurd (.inl htn) htls
          split
          next => exact .features el .authInit h hel hn (.inr ⟨htls, .inl rfl⟩)
          next ha =>
            exact .features el .bindInit h hel hn (.inr ⟨htls, .inr ⟨rfl, by simpa using ha⟩⟩)
  next h =>
    split
    next => exact .fail .tls (by simp [Waits, h])
    next _ hf => exact .askTls h (by rw [hf]; rfl)
  next h =>
    split
    next hel => exact .wait (.inl ⟨by simp [Waits, h], hel⟩)
    next el hel =>
      dsimp only
      split
      next => exact .reject el .tls hel
      next hn => exact .proceed el h hel (by simpa using hn)
  next h =>
    split
    next => exact .fail .auth (by simp [Waits, h])
    next auth mech _ => exact .auth auth mech h
  next h =>
    split
    next hel => exact .wait (.inl ⟨by simp [Waits, h], hel⟩)
    next el hel =>
      dsimp only
      split
      next => exact .reject el .auth hel
      next =>
        split
        next =>
          split
          next response mech _ => exact .respond el response mech h hel
          next => exact .reject el .auth hel
        next =>
          split
          next => exact .reject el .unauthorized hel
          next hn => exact .success el h hel (by simpa using hn)
  next h =>
    split
    next => exact .askBind h
    next => exact .fail .bind (by simp [Waits, h])
  next h =>
    split
    next hel => exact .wait (.inl ⟨by simp [Waits, h], hel⟩)
    next el hel =>
      dsimp only
      split
      next => exact .skip el (.inl h) hel
      next hans =>
        have hans : answers el t.iqId = true := by simpa using hans
        split
        next => exact .reject el .bind hel
        next jid hjid => exact .bound el jid h hel hans hjid
  next h =>
    split
    next hel => exact .wait (.inl ⟨by simp [Waits, h], hel⟩)
    next el hel =>
      dsimp only
      split
      next => exact .skip el (.inr h) hel
      next hans =>
        have hans : answers el t.iqId = true := by simpa using hans
        split
        next => exact .reject el .bind hel
        next hres => exact .session el h hel hans (by simpa using hres)
  next h => exact .wait (.inr h)

/-- How many turns `Advance` can still make. -/
def rank (t : XmppLoginTask S) : ℕ :=
  match t.pelStanza, t.state with
  | _, .init => 2
  | none, .tlsInit | none, .authInit | none, .bindInit => 2
  | none, _ => 1
  | some _, .startedXmpp | some _, .tlsRequested | some _, .saslRunning
  | some _, .bindInit => 3
  | some _, .tlsInit | some _, .authInit => 4
  | some _, .bindRequested => 2
  | some _, _ => 1

theorem rank_le (t : XmppLoginTask S) : rank t ≤ 4 := by
  unfold rank
  split <;> omega

theorem rank_pos (t : XmppLoginTask S) : 0 < rank t := by
  unfold rank
  split <;> omega

/-- The output handler is told to start TLS. -/
def toldTls (e : XmppEngineImpl E S) (dom : Text) : XmppEngineImpl E S :=
  { e.tell (.startTls dom) with history := e.history ++ [.startTls] }

theorem startTls_eq (dom : Text) (calls : List UserCall) :
    e.startTls dom calls =
      if e.outputHandler then
        { (e.toldTls (if e.settings.tlsServerDomain = [] then dom
            else e.settings.tlsServerDomain)).userCalls calls with encrypted := true }
      else e := rfl

theorem startTls_login (dom : Text) (calls : List UserCall) :
    ∃ l, (e.startTls dom calls).loginTask =
      e.loginTask.map fun t => { t with queuedStanzas := t.queuedStanzas ++ l } := by
  rw [startTls_eq]
  by_cases ho : e.outputHandler = true
  · rw [if_pos ho]
    exact (userCalls_frame (e := e.toldTls _) calls).login
  · rw [if_neg ho]
    exact ⟨[], by simp⟩

theorem Turn.rank_lt {t : XmppLoginTask S} {calls : List UserCall}
    {r : XmppEngineImpl E S × Bool} (h : Turn e t calls r) (ht : e.loginTask = some t)
    (hgo : r.2 = true) : ∃ t', r.1.loginTask = some t' ∧ rank t' < rank t := by
  cases h with
  | wait | fail | reject | started | skip | session => cases hgo
  | start hs =>
    refine ⟨_, by simp [goto, modifyLogin, internalSendStart, print, ht]; rfl, ?_⟩
    cases hp : t.pelStanza <;> simp [rank, hs, hp]
  | features el next hs hp hn hnext =>
    refine ⟨_, by simp [goto, modifyLogin, take, ht]; rfl, ?_⟩
    rcases hnext with rfl | ⟨-, rfl | ⟨rfl, -⟩⟩ <;> simp [rank, hs, hp]
  | askTls hs hf =>
    refine ⟨_, by simp [goto, modifyLogin, print, ht]; rfl, ?_⟩
    cases hp : t.pelStanza <;> simp [rank, hs, hp]
  | proceed el hs hp hn =>
    obtain ⟨l, hl⟩ := startTls_login (e := e.take el) e.domain calls
    refine ⟨{ t with pelStanza := none, queuedStanzas := t.queuedStanzas ++ l, state := .init },
      ?_, by simp [rank, hs, hp]⟩
    show ((e.take el).startTls e.domain calls).loginTask.map _ = _
    rw [hl]
    simp [take, modifyLogin, ht]
  | auth auth mech hs =>
    refine ⟨_, by simp [modifyLogin, print, ht]; rfl, ?_⟩
    cases hp : t.pelStanza <;> simp [rank, hs, hp]
  | respond el response mech hs hp =>
    refine ⟨_, by simp [modifyLogin, print, take, ht]; rfl, ?_⟩
    simp [rank, hs, hp]
  | success el hs hp hn =>
    refine ⟨_, by simp [modifyLogin, take, ht]; rfl, ?_⟩
    simp [rank, hs, hp]
  | askBind hs =>
    refine ⟨_, by simp [modifyLogin, print, ht]; rfl, ?_⟩
    cases hp : t.pelStanza <;> simp [rank, hs, hp]
  | bound el jid hs hp hans hjid =>
    refine ⟨_, by simp [modifyLogin, print, take, ht]; rfl, ?_⟩
    simp [rank, hs, hp]

theorem take_login {t : XmppLoginTask S} (ht : e.loginTask = some t) (el : XmlElement) :
    (e.take el).loginTask = some { t with pelStanza := none } := by
  show e.loginTask.map _ = _
  rw [ht]
  rfl

theorem failure_login {t : XmppLoginTask S} (ht : e.loginTask = some t) (err : Error) :
    (e.failure err).loginTask = some { t with state := .done } := by
  unfold failure signalError
  split_ifs <;> simp [modifyLogin, ht]

theorem prints_login (l : List XmlElement) :
    (l.foldl (fun e stanza => e.print (.stanza stanza)) e).loginTask = e.loginTask := by
  induction l generalizing e with
  | nil => rfl
  | cons x l ih => exact ih

theorem signalBound_login (jid : Jid) : (e.signalBound jid).loginTask = e.loginTask := by
  unfold signalBound
  split_ifs <;> rfl

/-- A task at which `Advance` stops: it is done or waits for an element. -/
def Stopped (t : XmppLoginTask S) : Prop :=
  t.state = .done ∨ (Waits t.state ∧ t.pelStanza = none)

theorem Turn.stopped {t : XmppLoginTask S} {calls : List UserCall}
    {r : XmppEngineImpl E S × Bool} (h : Turn e t calls r) (ht : e.loginTask = some t)
    (hstop : r.2 = false) : ∃ t', r.1.loginTask = some t' ∧ Stopped t' := by
  cases h with
  | start | features | askTls | proceed | auth | respond | success | askBind | bound =>
    cases hstop
  | wait hw => exact ⟨t, ht, hw.symm⟩
  | fail err hw => exact ⟨_, failure_login ht err, .inl rfl⟩
  | reject el err hp => exact ⟨_, failure_login (take_login ht el) err, .inl rfl⟩
  | started el hs hp hst hacc =>
    refine ⟨{ t with pelStanza := none, streamId := el.attr qnId, state := .startedXmpp }, ?_,
      .inr ⟨by simp [Waits], rfl⟩⟩
    simp [modifyLogin, take, ht]
  | skip el hs hp =>
    refine ⟨_, take_login ht el, .inr ⟨?_, rfl⟩⟩
    rcases hs with hs | hs <;> simp [Waits, hs]
  | session el hs hp hans hres =>
    refine ⟨{ t with pelStanza := none, queuedStanzas := [], state := .done }, ?_, .inl rfl⟩
    show Option.map _ _ = _
    rw [prints_login, signalBound_login, take_login ht]
    rfl

theorem advance_succ {t : XmppLoginTask S} (ht : e.loginTask = some t) (calls : List UserCall)
    (fuel : ℕ) :
    advance calls (fuel + 1) e =
      if (e.advanceStep t calls).2 = true then advance calls fuel (e.advanceStep t calls).1
      else (e.advanceStep t calls).1 := by
  rw [advance, ht]
  rcases h : e.advanceStep t calls with ⟨e', go⟩
  cases go <;> simp [h]

theorem advance_rank (calls : List UserCall) {t : XmppLoginTask S} (ht : e.loginTask = some t)
    {n m : ℕ} (hn : rank t ≤ n) (hm : rank t ≤ m) : advance calls n e = advance calls m e := by
  induction n generalizing e t m with
  | zero => exact absurd hn (by have := rank_pos t; omega)
  | succ n ih =>
    obtain ⟨m, rfl⟩ : ∃ k, m = k + 1 := ⟨m - 1, by have := rank_pos t; omega⟩
    rw [advance_succ ht, advance_succ ht]
    split
    next hgo =>
      obtain ⟨t', ht', hlt⟩ := (advanceStep_turn t calls).rank_lt ht hgo
      exact ih ht' (by omega) (by omega)
    next => rfl

/-- **Four turns are enough.** -/
theorem advance_enough (calls : List UserCall) {n : ℕ} (hn : 4 ≤ n) :
    advance calls n e = advance calls 4 e := by
  cases hl : e.loginTask with
  | none =>
    obtain ⟨m, rfl⟩ : ∃ k, n = k + 1 := ⟨n - 1, by omega⟩
    simp [advance, hl]
  | some t => exact advance_rank calls hl ((rank_le t).trans hn) (rank_le t)

theorem advance_stopped {t : XmppLoginTask S} {calls : List UserCall} {fuel : ℕ}
    (hfuel : rank t ≤ fuel) (ht : e.loginTask = some t) :
    ∃ t', (advance calls fuel e).loginTask = some t' ∧ Stopped t' := by
  induction fuel generalizing e t with
  | zero => exact absurd hfuel (by have := rank_pos t; omega)
  | succ fuel ih =>
    have hturn := advanceStep_turn (e := e) t calls
    rw [advance_succ ht]
    split
    next hgo =>
      obtain ⟨t', ht', hlt⟩ := hturn.rank_lt ht hgo
      exact ih (by omega) ht'
    next hgo => exact hturn.stopped ht (by simpa using hgo)

/-- The login task has an element to take. -/
def offer (e : XmppEngineImpl E S) (element : Option XmlElement) (isStart : Bool) :
    XmppEngineImpl E S := e.modifyLogin fun t => { t with pelStanza := element, isStart }

/-- And has it no more. -/
def clear (e : XmppEngineImpl E S) : XmppEngineImpl E S :=
  e.modifyLogin fun t => { t with pelStanza := none, isStart := false }

theorem offer_login {t : XmppLoginTask S} (ht : e.loginTask = some t)
    (element : Option XmlElement) (isStart : Bool) :
    (e.offer element isStart).loginTask = some { t with pelStanza := element, isStart } := by
  simp [offer, modifyLogin, ht]

theorem clear_login {t : XmppLoginTask S} (ht : e.loginTask = some t) :
    e.clear.loginTask = some { t with pelStanza := none, isStart := false } := by
  simp [clear, modifyLogin, ht]

theorem loginIncoming_cases {t : XmppLoginTask S} (ht : e.loginTask = some t)
    (element : Option XmlElement) (isStart : Bool) (calls : List UserCall) :
    ∃ t', (advance calls 4 (e.offer element isStart)).loginTask = some t' ∧
      ((t'.state = .done ∧ e.loginIncoming element isStart calls =
          { (advance calls 4 (e.offer element isStart)).clear with loginTask := none }) ∨
        (Waits t'.state ∧ t'.pelStanza = none ∧ e.loginIncoming element isStart calls =
          (advance calls 4 (e.offer element isStart)).clear)) := by
  obtain ⟨t', ht', hstop⟩ := @advance_stopped E S _ _ calls _ (rank_le _)
    (offer_login ht element isStart)
  refine ⟨t', ht', ?_⟩
  have hin : e.loginIncoming element isStart calls =
      (advance calls 4 (e.offer element isStart)).clear.resetDone := rfl
  rw [hin, resetDone, clear_login ht']
  rcases hstop with hd | ⟨hw, hp⟩
  · exact .inl ⟨hd, if_pos (by simp [hd])⟩
  · have hnd : t'.state ≠ .done := fun hd => by simp [Waits, hd] at hw
    exact .inr ⟨hw, hp, if_neg (by simp [hnd])⟩

/-! ### What every step leaves alone -/

/-- What every step within a call leaves alone: how deep the engine is entered, what
already happened, the reset that was raised, and that an open engine says so. -/
structure Frame (e e' : XmppEngineImpl E S) : Prop where
  entered : e'.engineEntered = e.engineEntered
  history : e.history <+: e'.history
  raised : 0 < e.engineEntered → e.raisedReset = true → e'.raisedReset = true
  state : e'.state = e.state ∨ e'.state = .closed ∨ (e'.state = .open_ ∧ .opened ∈ e'.history)

theorem Frame.refl (e : XmppEngineImpl E S) : Frame e e :=
  ⟨rfl, List.prefix_rfl, fun _ => id, .inl rfl⟩

theorem Frame.trans {e'' : XmppEngineImpl E S} (h : Frame e e') (h' : Frame e' e'') :
    Frame e e'' where
  entered := h'.entered.trans h.entered
  history := h.history.trans h'.history
  raised := fun hp hr => h'.raised (h.entered ▸ hp) (h.raised hp hr)
  state := by
    rcases h'.state with hs | hs
    · rw [hs]
      exact h.state.imp_right fun hr => hr.imp_right fun ho => ⟨ho.1, h'.history.subset ho.2⟩
    · exact .inr hs

theorem Frame.opened (h : Frame e e') (ho : e'.state = .open_) :
    e.state = .open_ ∨ .opened ∈ e'.history := by
  rcases h.state with hs | hs | hs
  · exact .inl (hs ▸ ho)
  · rw [hs] at ho
    cases ho
  · exact .inr hs.2

theorem UserFrame.frame (h : UserFrame e e') : Frame e e' where
  entered := h.entered
  history := h.history
  raised := fun hp hr => (h.raised hp).trans hr
  state := h.state.imp_right .inl

theorem print_frame (p : Piece) : Frame e (e.print p) :=
  ⟨rfl, List.prefix_append _ _, fun _ => id, .inl rfl⟩

theorem prints_frame (l : List XmlElement) :
    Frame e (l.foldl (fun e stanza => e.print (.stanza stanza)) e) := by
  induction l generalizing e with
  | nil => exact .refl e
  | cons x l ih => exact (print_frame (.stanza x)).trans ih

theorem take_frame (el : XmlElement) : Frame e (e.take el) :=
  ⟨rfl, List.prefix_append _ _, fun _ => id, .inl rfl⟩

theorem signalError_frame (err : Error) (subcode : ℤ) : Frame e (e.signalError err subcode) := by
  unfold signalError
  split_ifs
  · exact ⟨rfl, List.prefix_rfl, fun _ => id, .inr (.inl rfl)⟩
  · exact .refl e

theorem modifyLogin_frame (f : XmppLoginTask S → XmppLoginTask S) : Frame e (e.modifyLogin f) :=
  ⟨rfl, List.prefix_rfl, fun _ => id, .inl rfl⟩

theorem failure_frame (err : Error) : Frame e (e.failure err) :=
  (modifyLogin_frame _).trans (signalError_frame err 0)

theorem signalBound_frame (jid : Jid) : Frame e (e.signalBound jid) := by
  unfold signalBound
  split_ifs
  · exact ⟨rfl, List.prefix_append _ _, fun _ => id,
      .inr (.inr ⟨rfl, List.mem_append_right _ (List.mem_singleton_self _)⟩)⟩
  · exact .refl e

theorem startTls_frame (dom : Text) (calls : List UserCall) :
    Frame e (e.startTls dom calls) := by
  rw [startTls_eq]
  by_cases ho : e.outputHandler = true
  · rw [if_pos ho]
    have ht (d : Text) : Frame e (e.toldTls d) := ⟨rfl, List.prefix_append _ _, fun _ => id, .inl rfl⟩
    have hu (d : Text) : Frame e ((e.toldTls d).userCalls calls) :=
      (ht d).trans (userCalls_frame calls).frame
    exact ⟨(hu _).entered, (hu _).history, (hu _).raised, (hu _).state⟩
  · rw [if_neg ho]
    exact .refl e

theorem Turn.frame {t : XmppLoginTask S} {calls : List UserCall}
    {r : XmppEngineImpl E S × Bool} (h : Turn e t calls r) : Frame e r.1 := by
  cases h with
  | wait hw => exact .refl e
  | start hs => exact ⟨rfl, List.prefix_append _ _, fun _ _ => rfl, .inl rfl⟩
  | fail err hw => exact failure_frame err
  | reject el err hp => exact (take_frame el).trans (failure_frame err)
  | started el hs hp hst hacc => exact (take_frame el).trans (modifyLogin_frame _)
  | features el next hs hp hn hnext =>
    exact ((take_frame el).trans (modifyLogin_frame _)).trans (modifyLogin_frame _)
  | askTls hs hf => exact (print_frame _).trans (modifyLogin_frame _)
  | proceed el hs hp hn =>
    have hf := (take_frame (e := e) el).trans (startTls_frame e.domain calls)
    exact ⟨hf.entered, hf.history, hf.raised, hf.state⟩
  | auth auth mech hs => exact (print_frame _).trans (modifyLogin_frame _)
  | respond el response mech hs hp =>
    exact ((take_frame el).trans (print_frame _)).trans (modifyLogin_frame _)
  | success el hs hp hn => exact (take_frame el).trans (modifyLogin_frame _)
  | askBind hs => exact ⟨rfl, List.prefix_append _ _, fun _ => id, .inl rfl⟩
  | skip el hs hp => exact take_frame el
  | bound el jid hs hp hans hjid =>
    refine (take_frame el).trans ?_
    exact ⟨rfl, List.prefix_append _ _, fun _ => id, .inl rfl⟩
  | session el hs hp hans hres =>
    exact (((take_frame el).trans (signalBound_frame _)).trans (prints_frame _)).trans
      (modifyLogin_frame _)

theorem advance_frame (calls : List UserCall) (fuel : ℕ) : Frame e (advance calls fuel e) := by
  induction fuel generalizing e with
  | zero => exact .refl e
  | succ fuel ih =>
    cases hl : e.loginTask with
    | none =>
      rw [advance, hl]
      exact .refl e
    | some t =>
      have ht := (advanceStep_turn (e := e) t calls).frame
      rw [advance_succ hl]
      split
      · exact ht.trans ih
      · exact ht

theorem resetDone_frame : Frame e e.resetDone := by
  unfold resetDone
  split_ifs
  · exact ⟨rfl, List.prefix_rfl, fun _ => id, .inl rfl⟩
  · exact .refl e

theorem loginIncoming_frame (element : Option XmlElement) (isStart : Bool)
    (calls : List UserCall) : Frame e (e.loginIncoming element isStart calls) :=
  (((modifyLogin_frame _).trans (advance_frame calls 4)).trans (modifyLogin_frame _)).trans
    resetDone_frame

theorem sendFeatureNotImplemented_frame (stanza : XmlElement) :
    Frame e (e.sendFeatureNotImplemented stanza) := by
  unfold sendFeatureNotImplemented
  split_ifs
  · exact .refl e
  · exact (sendStanza_frame _).frame

theorem signalStreamError_frame (stanza : XmlElement) : Frame e (e.signalStreamError stanza) := by
  unfold signalStreamError
  split_ifs
  · have hs : Frame e { e with streamError := some stanza } :=
      ⟨rfl, List.prefix_rfl, fun _ => id, .inl rfl⟩
    exact hs.trans (signalError_frame _ _)
  · exact .refl e

/-- What an event of the parser can do. -/
inductive Delivery (e : XmppEngineImpl E S) (r : Reaction) (event : StanzaEvent) :
    XmppEngineImpl E S → Prop
  /-- After an error, and before a reset, nothing is heard. -/
  | ignored : e.hasError = true ∨ e.raisedReset = true → Delivery e r event e
  | login (el : XmlElement) (isStart : Bool) : e.hasError = false → e.raisedReset = false →
      e.loginTask.isSome = true →
      event = (if isStart = true then .startStream el else .stanza el) →
      Delivery e r event (e.loginIncoming (some el) isStart r.calls)
  | error (err : Error) : Delivery e r event (e.signalError err 0)
  | streamError (stanza : XmlElement) : Delivery e r event (e.signalStreamError stanza)
  /-- The user's code handles the stanza. -/
  | user (entries : List XmppIqEntry) : e.hasError = false → e.loginTask = none →
      Delivery e r event ({ e with iqEntries := entries }.userCalls r.calls)
  /-- The user's code has seen the stanza, and nobody has handled it. -/
  | refuse (stanza : XmlElement) : e.hasError = false → e.loginTask = none →
      Delivery e r event ((e.userCalls r.calls).sendFeatureNotImplemented stanza)

theorem incoming_delivery (event : StanzaEvent) (r : Reaction) :
    Delivery e r event (e.incoming event r) := by
  have hears (h : ¬(e.hasError || e.raisedReset) = true) :
      e.hasError = false ∧ e.raisedReset = false := by simpa using h
  have hend (isError : Bool) : Delivery e r event (e.incomingEnd isError) := by
    unfold incomingEnd
    split
    next h => exact .ignored (by simpa using h)
    next => exact .error _
  cases event with
  | startStream stream =>
    show Delivery e r _ (e.incomingStart stream r)
    unfold incomingStart
    split_ifs with h hl
    · exact .ignored (by simpa using h)
    · exact .login stream true (hears h).1 (hears h).2 hl rfl
    · exact .error _
  | stanza stanza =>
    show Delivery e r _ (e.incomingStanza stanza r)
    unfold incomingStanza
    by_cases h : (e.hasError || e.raisedReset) = true
    · rw [if_pos h]
      exact .ignored (by simpa using h)
    rw [if_neg h]
    by_cases hn : stanza.name = qnStreamError
    · rw [if_pos hn]
      exact .streamError stanza
    rw [if_neg hn]
    by_cases hl : e.loginTask.isSome = true
    · rw [if_pos hl]
      exact .login stanza false (hears h).1 (hears h).2 hl rfl
    rw [if_neg hl]
    have hl : e.loginTask = none := Option.not_isSome_iff_eq_none.mp hl
    split
    next => exact .user _ (hears h).1 hl
    next =>
      dsimp only
      split_ifs
      · exact .user e.iqEntries (hears h).1 hl
      · exact .refuse stanza (hears h).1 hl
      · exact .user e.iqEntries (hears h).1 hl
  | endStream => exact hend false
  | xmlError => exact hend true

theorem Delivery.frame {r : Reaction} {event : StanzaEvent} (h : Delivery e r event e') :
    Frame e e' := by
  cases h with
  | ignored _ => exact .refl e
  | login el isStart _ _ _ _ => exact loginIncoming_frame _ _ _
  | error err => exact signalError_frame _ _
  | streamError stanza => exact signalStreamError_frame stanza
  | user entries _ _ =>
    have hq : Frame e { e with iqEntries := entries } := ⟨rfl, List.prefix_rfl, fun _ => id, .inl rfl⟩
    exact hq.trans (userCalls_frame _).frame
  | refuse stanza _ _ =>
    exact (userCalls_frame _).frame.trans (sendFeatureNotImplemented_frame stanza)

theorem incomingAll_frame (events : List (StanzaEvent × Reaction)) :
    Frame e (e.incomingAll events) := by
  induction events generalizing e with
  | nil => exact .refl e
  | cons ev events ih => exact (incoming_delivery ev.1 ev.2).frame.trans ih

end Jingle.Xmpp.XmppEngineImpl
