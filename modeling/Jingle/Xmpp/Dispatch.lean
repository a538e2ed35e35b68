/-
Stanza handlers and iq handlers.

`Dispatcher` is the engine with the handlers that are registered with it, which
`XmppEngineImpl` leaves out.  A handler may call the engine again while it is called;
what it does is a `HandlerReaction`, and the reactions of the handlers that are called for a
stanza are given in their order.

* **`dispatched_iff`** — the handlers that stay registered are offered a stanza in their
  order, none left out, exactly if no callback removes handlers up to its own while one
  that stays moves up to their places (`Clear`).
-/
import Jingle.Lib.IndexLoop
import Jingle.Xmpp.Engine

namespace Jingle.Xmpp

open Signaling (Text QName)
open Xmllite

/-! ### The handlers -/

inductive HandlerLevel
  | none | peek | single | sender | type | all
  deriving DecidableEq, Repr

namespace HandlerLevel

/-- The number of a level. -/
def rank : HandlerLevel → ℕ
  | none => 0
  | peek => 1
  | single => 2
  | sender => 3
  | type => 4
  | all => 5

/-- The levels that take turns until one handles the stanza. -/
def precedence : List HandlerLevel := [single, sender, type, all]

end HandlerLevel

/-- A handler in `stanza_handlers_`: its address, and the number of its registration. -/
structure Registration where
  handler : ℕ
  nr : ℕ
  deriving DecidableEq, Repr

/-- An `XmppIqEntry` with its address and its handler, and the number of its
registration. -/
structure IqRegistration extends XmppIqEntry where
  cookie : ℕ
  handler : ℕ
  nr : ℕ
  deriving DecidableEq, Repr

/-- A call of the engine. -/
inductive EngineCall
  | sendStanza (element : XmlElement)
  | sendRaw (text : Text)
  | disconnect
  | connectionClosed (subcode : ℤ)
  | sendIq (element : XmlElement) (handler cookie : ℕ)
  | removeIqHandler (cookie : ℕ)
  | addStanzaHandler (handler : ℕ) (level : HandlerLevel)
  | removeStanzaHandler (handler : ℕ)
  deriving DecidableEq

/-- What a handler does: its calls of the engine, and what it returns. -/
structure HandlerReaction where
  calls : List EngineCall
  handled : Bool

/-- What happened to the handlers; `n` is the number of the stanza. -/
inductive DispatchMark
  | registered (entry : IqRegistration) (element : XmlElement)
  | removed (entry : IqRegistration)
  | called (entry : IqRegistration) (stanza : XmlElement) (n : ℕ)
  | offered (level : HandlerLevel) (reg : Registration) (n : ℕ)
  | replied (n : ℕ)
  deriving DecidableEq

/-- The engine and its handlers. -/
structure Dispatcher (E : Expat) (S : SaslHandler) where
  engine : XmppEngineImpl E S
  stanzaHandlers : HandlerLevel → List Registration
  iqEntries : List IqRegistration
  nextNr : ℕ
  received : ℕ
  history : List DispatchMark

namespace Dispatcher

variable {E : Expat} {S : SaslHandler}

/-- An engine without handlers. -/
def new (engine : XmppEngineImpl E S) : Dispatcher E S where
  engine := { engine with iqEntries := [] }
  stanzaHandlers := fun _ => []
  iqEntries := []
  nextNr := 0
  received := 0
  history := []

variable (d : Dispatcher E S)

/-- Something happened. -/
def mark (m : DispatchMark) : Dispatcher E S := { d with history := d.history ++ [m] }

/-- The engine has changed. -/
def withEngine (engine : XmppEngineImpl E S) : Dispatcher E S := { d with engine }

/-- The entries have changed. -/
def withEntries (iqEntries : List IqRegistration) : Dispatcher E S :=
  { d with
    iqEntries
    engine := { d.engine with iqEntries := iqEntries.map IqRegistration.toXmppIqEntry } }

/-! ### Calls of the engine -/

/-- The entry for a request, allocated at `cookie`. -/
def entryOf (element : XmlElement) (handler cookie : ℕ) : IqRegistration where
  id := element.attr qnId
  to_ := element.attr qnTo
  cookie := cookie
  handler := handler
  nr := d.nextNr

/-- An entry is added. -/
def register (entry : IqRegistration) (element : XmlElement) : Dispatcher E S :=
  { (d.withEntries (d.iqEntries ++ [entry])).mark (.registered entry element) with
    nextNr := d.nextNr + 1 }

/-- `SendIq` with a handler. -/
def sendIq (element : XmlElement) (handler cookie : ℕ) : Dispatcher E S :=
  if d.engine.state = .closed then d
  else if element.name ≠ qnIq then d
  else if element.attr qnType ≠ textBytes "get" ∧ element.attr qnType ≠ textBytes "set" then d
  else if !element.hasAttr qnId then d
  else
    let d := d.register (d.entryOf element handler cookie) element
    d.withEngine (d.engine.sendStanza element)

def removeIqHandler (cookie : ℕ) : Dispatcher E S :=
  match d.iqEntries.find? fun entry => entry.cookie = cookie with
  | none => d
  | some entry =>
    (d.withEntries (d.iqEntries.eraseP fun entry => entry.cookie = cookie)).mark (.removed entry)

def addStanzaHandler (handler : ℕ) (level : HandlerLevel) : Dispatcher E S :=
  if d.engine.state = .closed then d
  else
    { d with
      stanzaHandlers := Function.update d.stanzaHandlers level
        (d.stanzaHandlers level ++ [{ handler, nr := d.nextNr }])
      nextNr := d.nextNr + 1 }

def removeStanzaHandler (handler : ℕ) : Dispatcher E S :=
  { d with
    stanzaHandlers := fun level => (d.stanzaHandlers level).filter fun reg => reg.handler ≠ handler }

/-- One call. -/
def call : EngineCall → Dispatcher E S
  | .sendStanza element => d.withEngine (d.engine.sendStanza element)
  | .sendRaw text => d.withEngine (d.engine.sendRaw text)
  | .disconnect => d.withEngine d.engine.disconnect
  | .connectionClosed subcode => d.withEngine (d.engine.connectionClosed subcode)
  | .sendIq element handler cookie => d.sendIq element handler cookie
  | .removeIqHandler cookie => d.removeIqHandler cookie
  | .addStanzaHandler handler level => d.addStanzaHandler handler level
  | .removeStanzaHandler handler => d.removeStanzaHandler handler

/-- The calls of a callback. -/
def calls (calls : List EngineCall) : Dispatcher E S := calls.foldl call d

/-! ### A stanza -/

/-- The entry that `HandleIqResponse` finds. -/
def entryFor (stanza : XmlElement) : Option IqRegistration :=
  if stanza.name ≠ qnIq then none
  else if stanza.attr qnType ≠ textBytes "result" ∧ stanza.attr qnType ≠ textBytes "error" then none
  else if !stanza.hasAttr qnId then none
  else d.iqEntries.find? fun entry =>
    entry.id = stanza.attr qnId ∧ entry.to_ = stanza.attr qnFrom

/-- `HandleIqResponse`, when it has found an entry: that is erased before its handler is
called, and deleted afterwards. -/
def respond (entry : IqRegistration) (stanza : XmlElement) (cb : HandlerReaction) : Dispatcher E S :=
  ((d.withEntries (d.iqEntries.eraseP fun entry =>
    entry.id = stanza.attr qnId ∧ entry.to_ = stanza.attr qnFrom)).mark
      (.called entry stanza d.received)).calls cb.calls

/-- A stanza handler is called. -/
def offer (level : HandlerLevel) (d : Dispatcher E S) (reg : Registration) (cb : HandlerReaction) :
    Dispatcher E S :=
  (d.mark (.offered level reg d.received)).calls cb.calls

/-- A turn of one of the loops over the handlers. -/
abbrev Turn := IndexLoop.Turn Registration HandlerReaction

/-- The loop over the handlers of a level: it stops when one handles the stanza, but not
at those that peek. -/
def scan (level : HandlerLevel) (cbs : List HandlerReaction) :
    Option (List Turn × Dispatcher E S × List HandlerReaction) :=
  IndexLoop.loop (fun d => d.stanzaHandlers level) (offer level)
    (fun cb => level ≠ .peek && cb.handled) cbs 0 d

/-- The loops over the levels, until a handler handles the stanza. -/
def scanLevels : List HandlerLevel → List HandlerReaction → Dispatcher E S →
    Option (List (HandlerLevel × Turn) × Dispatcher E S × List HandlerReaction)
  | [], cbs, d => some ([], d, cbs)
  | level :: levels, cbs, d =>
    (d.scan level cbs).bind fun r =>
      let turns := r.1.map (Prod.mk level)
      if r.1.any fun t => t.callback.handled then some (turns, r.2)
      else (scanLevels levels r.2.2 r.2.1).map fun r' => (turns ++ r'.1, r'.2)

/-- An iq that asks for something. -/
def isRequest (stanza : XmlElement) : Bool :=
  stanza.name = qnIq ∧ stanza.attr qnType ≠ textBytes "error" ∧
    stanza.attr qnType ≠ textBytes "result"

/-- The reply to a request that nobody handles. -/
def reply (stanza : XmlElement) : Dispatcher E S :=
  if isRequest stanza then
    (d.mark (.replied d.received)).withEngine (d.engine.sendFeatureNotImplemented stanza)
  else d

/-- The stanza is offered to the handlers; the callbacks are those that are made.  Also the
turns of the loops, each with its level. -/
def dispatch (stanza : XmlElement) (cbs : List HandlerReaction) :
    Option (List (HandlerLevel × Turn) × Dispatcher E S) :=
  (d.scan .peek cbs).bind fun r =>
    (scanLevels HandlerLevel.precedence r.2.2 r.2.1).bind fun r' =>
      if !r'.2.2.isEmpty then none
      else
        let handled := r'.1.any fun t => t.2.callback.handled
        some (r.1.map (Prod.mk .peek) ++ r'.1, if handled then r'.2.1 else r'.2.1.reply stanza)

def incomingStanza (stanza : XmlElement) (cbs : List HandlerReaction) : Option (Dispatcher E S) :=
  if d.engine.hasError || d.engine.raisedReset then some d
  else
    let d := { d with received := d.received + 1 }
    if stanza.name = qnStreamError then some (d.withEngine (d.engine.signalStreamError stanza))
    else if d.engine.loginTask.isSome then
      some (d.withEngine (d.engine.loginIncoming (some stanza) false []))
    else
      match d.entryFor stanza with
      | some entry =>
        match cbs with
        | [cb] => some (d.respond entry stanza cb)
        | _ => none
      | none => (d.dispatch stanza cbs).map Prod.snd

/-! ### Runs -/

/-- `StanzaParseHandler`. -/
def incoming (event : StanzaEvent) (cbs : List HandlerReaction) : Option (Dispatcher E S) :=
  match event with
  | .startStream stream => some (d.withEngine (d.engine.incomingStart stream ⟨[], false⟩))
  | .stanza stanza => d.incomingStanza stanza cbs
  | .endStream => some (d.withEngine (d.engine.incomingEnd false))
  | .xmlError => some (d.withEngine (d.engine.incomingEnd true))

/-- What the parser delivers from one chunk, each with the callbacks that it leads to. -/
def incomingAll : List (StanzaEvent × List HandlerReaction) → Dispatcher E S → Option (Dispatcher E S)
  | [], d => some d
  | ev :: evs, d => (d.incoming ev.1 ev.2).bind (incomingAll evs)

/-- `HandleInput`; the `k`-th event of the chunk leads to the `k`-th callbacks. -/
def handleInput (bytes : List Byte) (cbs : ℕ → List HandlerReaction) : Option (Dispatcher E S) :=
  if d.engine.state ≠ .opening ∧ d.engine.state ≠ .open_ then some d
  else
    let entry := d.engine.state
    let r := d.engine.stanzaParser.parse bytes false
    (incomingAll (r.2.mapIdx fun k event => (event, cbs k)) (d.withEngine d.engine.enter)).map
      fun d => d.withEngine ({ d.engine with stanzaParser := r.1 }.exit entry)

/-- What can happen to an engine. -/
inductive Event
  | connect
  | handleInput (bytes : List Byte) (cbs : ℕ → List HandlerReaction)
  | call (call : EngineCall)

/-- The engine after an event. -/
def act : Event → Option (Dispatcher E S)
  | .connect => some (d.withEngine d.engine.connect)
  | .handleInput bytes cbs => d.handleInput bytes cbs
  | .call call => some (d.call call)

/-- The engine after some events; nothing if the callbacks are not those that are made. -/
def run (d : Dispatcher E S) : List Event → Option (Dispatcher E S)
  | [] => some d
  | e :: es => (d.act e).bind fun d => d.run es

/-! ### The engine without its handlers -/

section Engine

variable {d : Dispatcher E S}
  (he : d.engine.iqEntries = d.iqEntries.map IqRegistration.toXmppIqEntry)

include he

end Engine

/-! ### What the calls do to the handlers -/

variable {d : Dispatcher E S}

/-- The registrations that a callback keeps. -/
def keeps (cb : HandlerReaction) (reg : Registration) : Bool :=
  cb.calls.all fun c => c ≠ .removeStanzaHandler reg.handler

theorem sendIq_cases (d : Dispatcher E S) (element : XmlElement) (handler cookie : ℕ) :
    d.sendIq element handler cookie = d ∨
      element.hasAttr qnId ∧ ∃ engine, d.sendIq element handler cookie =
        (d.register (d.entryOf element handler cookie) element).withEngine engine := by
  unfold sendIq
  split_ifs with h1 h2 h3 h4
  · exact .inl rfl
  · exact .inl rfl
  · exact .inl rfl
  · exact .inl rfl
  · exact .inr ⟨by simpa using h4, _, rfl⟩

theorem removeIqHandler_cases (d : Dispatcher E S) (cookie : ℕ) :
    d.removeIqHandler cookie = d ∨
      ∃ entry, d.iqEntries.find? (fun entry => entry.cookie = cookie) = some entry ∧
        d.removeIqHandler cookie =
          (d.withEntries (d.iqEntries.eraseP fun entry => entry.cookie = cookie)).mark
            (.removed entry) := by
  unfold removeIqHandler
  cases hf : d.iqEntries.find? fun entry => entry.cookie = cookie with
  | none => exact .inl rfl
  | some entry => exact .inr ⟨entry, rfl, rfl⟩

theorem call_split (d : Dispatcher E S) (c : EngineCall) (level : HandlerLevel) :
    ∃ added, (d.call c).stanzaHandlers level =
        ((d.stanzaHandlers level).filter fun reg => c ≠ .removeStanzaHandler reg.handler) ++
          added ∧
      (added = [] ∨ ∃ handler, added = [⟨handler, d.nextNr⟩] ∧
        (d.call c).nextNr = d.nextNr + 1 ∧ c = .addStanzaHandler handler level) ∧
      d.nextNr ≤ (d.call c).nextNr := by
  cases c with
  | sendStanza element => exact ⟨[], by simp [call, withEngine]⟩
  | sendRaw text => exact ⟨[], by simp [call, withEngine]⟩
  | disconnect => exact ⟨[], by simp [call, withEngine]⟩
  | connectionClosed subcode => exact ⟨[], by simp [call, withEngine]⟩
  | sendIq element handler cookie =>
    refine ⟨[], ?_⟩
    rw [call]
    rcases sendIq_cases d element handler cookie with h | ⟨-, engine, h⟩
    · rw [h]
      simp
    · rw [h]
      simp [withEngine, register, withEntries, mark]
  | removeIqHandler cookie =>
    refine ⟨[], ?_⟩
    rw [call]
    rcases removeIqHandler_cases d cookie with h | ⟨entry, -, h⟩
    · rw [h]
      simp
    · rw [h]
      simp [withEntries, mark]
  | addStanzaHandler handler level' =>
    unfold call addStanzaHandler
    split_ifs
    · exact ⟨[], by simp⟩
    · by_cases hl : level = level'
      · subst hl
        exact ⟨[⟨handler, d.nextNr⟩], by simp⟩
      · exact ⟨[], by simp [Function.update_of_ne hl]⟩
  | removeStanzaHandler handler =>
    refine ⟨[], ?_⟩
    simp [call, removeStanzaHandler, eq_comm]

theorem calls_split (cs : List EngineCall) : ∀ (d : Dispatcher E S) (level : HandlerLevel),
    ∃ added, (d.calls cs).stanzaHandlers level =
        ((d.stanzaHandlers level).filter fun reg =>
          cs.all fun c => c ≠ .removeStanzaHandler reg.handler) ++ added ∧
      added.Pairwise (fun x y => x.nr < y.nr) ∧
      (∀ x ∈ added, d.nextNr ≤ x.nr ∧ x.nr < (d.calls cs).nextNr) ∧
      d.nextNr ≤ (d.calls cs).nextNr := by
  induction cs with
  | nil => exact fun d level => ⟨[], by simp [calls]⟩
  | cons c cs ih =>
    intro d level
    obtain ⟨one, hone, hnew, hle⟩ := call_split d c level
    obtain ⟨added, hadded, hsorted, hnr, hle'⟩ := ih (d.call c) level
    refine ⟨(one.filter fun reg => cs.all fun c => c ≠ .removeStanzaHandler reg.handler) ++ added,
      ?_, ?_, ?_, hle.trans hle'⟩
    · show ((d.call c).calls cs).stanzaHandlers level = _
      rw [hadded, hone, List.filter_append, List.filter_filter, List.append_assoc]
      simp only [List.all_cons, Bool.and_comm]
    · refine List.pairwise_append.mpr ⟨?_, hsorted, fun x hx y hy => ?_⟩
      · rcases hnew with rfl | ⟨handler, rfl, -⟩
        · exact List.Pairwise.nil
        · exact (List.pairwise_singleton _ _).filter _
      · have hy' := (hnr y hy).1
        rcases hnew with rfl | ⟨handler, rfl, hnext, -⟩
        · cases hx
        · have hxe := List.mem_singleton.mp (List.mem_filter.mp hx).1
          rw [hxe]
          show d.nextNr < y.nr
          omega
    · intro x hx
      rcases List.mem_append.mp hx with hx | hx
      · rcases hnew with rfl | ⟨handler, rfl, hnext, -⟩
        · cases hx
        · have hxe := List.mem_singleton.mp (List.mem_filter.mp hx).1
          rw [hxe]
          show d.nextNr ≤ d.nextNr ∧ d.nextNr < ((d.call c).calls cs).nextNr
          omega
      · obtain ⟨h1, h2⟩ := hnr x hx
        exact ⟨hle.trans h1, h2⟩

theorem changes (level level' : HandlerLevel) :
    IndexLoop.Changes (fun d : Dispatcher E S => d.stanzaHandlers level') (offer level) keeps
      Registration.nr nextNr where
  split d reg cb := by
    obtain ⟨added, h, hsorted, hnr, -⟩ := calls_split cb.calls (d.mark _) level'
    exact ⟨added, h, hsorted, hnr⟩
  mono d reg cb := by
    obtain ⟨_, -, -, -, hle⟩ := calls_split cb.calls (d.mark _) level'
    exact hle

/-! ### Invariants of a run -/

/-- `P` holds between the stanzas, and `Q` while one is offered to the handlers. -/
structure Keeps (P Q : Dispatcher E S → Prop) : Prop where
  engine : ∀ d engine, P d → P (d.withEngine engine)
  call : ∀ d c, P d → P (d.call c)
  receive : ∀ d, P d → Q { d with received := d.received + 1 }
  done : ∀ d, Q d → P d
  offering : ∀ d c, Q d → Q (d.call c)
  offer : ∀ d level reg, Q d → Q (d.mark (.offered level reg d.received))
  reply : ∀ d engine, Q d → Q ((d.mark (.replied d.received)).withEngine engine)
  answer : ∀ d stanza entry, P d → d.entryFor stanza = some entry →
    P (({ d with received := d.received + 1 }.withEntries (d.iqEntries.eraseP fun entry =>
      entry.id = stanza.attr qnId ∧ entry.to_ = stanza.attr qnFrom)).mark
        (.called entry stanza (d.received + 1)))

theorem calls_invariant {P : Dispatcher E S → Prop} (hcall : ∀ d c, P d → P (d.call c))
    (cs : List EngineCall) : ∀ d, P d → P (d.calls cs) := by
  induction cs with
  | nil => exact fun d h => h
  | cons c cs ih => exact fun d h => ih _ (hcall d c h)

theorem scanLevels_invariant {P : Dispatcher E S → Prop} {Q : HandlerReaction → Prop}
    (hoffer : ∀ level d reg cb, Q cb → P d → P (offer level d reg cb))
    (levels : List HandlerLevel) : ∀ {cbs : List HandlerReaction} {d : Dispatcher E S} {r},
      scanLevels levels cbs d = some r → (∀ t ∈ r.1, Q t.2.callback) → P d → P r.2.1 := by
  induction levels with
  | nil =>
    intro cbs d r h _ hP
    cases h
    exact hP
  | cons level levels ih =>
    intro cbs d r h hQ hP
    obtain ⟨⟨ts, d₁, cbs₁⟩, hscan, h⟩ := Option.bind_eq_some_iff.mp h
    dsimp only at h
    have hstep : (∀ t ∈ ts, Q t.callback) → P d₁ := fun hts =>
      IndexLoop.loop_invariant (hoffer level) hscan hts hP
    split_ifs at h
    · cases h
      exact hstep fun t ht => hQ (level, t) (List.mem_map_of_mem ht)
    · obtain ⟨r', hr', rfl⟩ := Option.map_eq_some_iff.mp h
      show P r'.2.1
      refine ih hr' (fun t ht => hQ t (List.mem_append_right _ ht)) (hstep fun t ht => ?_)
      exact hQ (level, t) (List.mem_append_left _ (List.mem_map_of_mem ht))

theorem dispatch_invariant {P : Dispatcher E S → Prop}
    (hoffer : ∀ level d reg cb, P d → P (offer level d reg cb))
    (hreply : ∀ d stanza, P d → P (reply d stanza)) {stanza : XmlElement} {cbs : List HandlerReaction}
    {r : List (HandlerLevel × Turn) × Dispatcher E S} (h : d.dispatch stanza cbs = some r)
    (hP : P d) : P r.2 := by
  obtain ⟨⟨peeks, d₁, cbs₁⟩, hpeek, h⟩ := Option.bind_eq_some_iff.mp h
  obtain ⟨⟨turns, d₂, cbs₂⟩, hlevels, h⟩ := Option.bind_eq_some_iff.mp h
  have h₁ : P d₁ := IndexLoop.loop_invariant (Q := fun _ => True)
    (fun d reg cb _ => hoffer .peek d reg cb) hpeek (fun _ _ => trivial) hP
  have h₂ : P d₂ := scanLevels_invariant (Q := fun _ => True)
    (fun level d reg cb _ => hoffer level d reg cb) _ hlevels (fun _ _ => trivial) h₁
  dsimp only at h
  split_ifs at h with hrest hhandled
  · cases h
    exact h₂
  · cases h
    exact hreply d₂ stanza h₂

variable {P Q : Dispatcher E S → Prop}

theorem Keeps.incomingStanza (hk : Keeps P Q) {d d' : Dispatcher E S} {stanza : XmlElement}
    {cbs : List HandlerReaction} (h : d.incomingStanza stanza cbs = some d') (hP : P d) : P d' := by
  unfold Dispatcher.incomingStanza at h
  have hQ := hk.receive d hP
  set d₀ : Dispatcher E S := { d with received := d.received + 1 } with hd₀
  by_cases herr : (d.engine.hasError || d.engine.raisedReset) = true
  · rw [if_pos herr] at h
    cases h
    exact hP
  rw [if_neg herr] at h
  dsimp only at h
  by_cases hname : stanza.name = qnStreamError
  · rw [if_pos hname] at h
    cases h
    exact hk.engine _ _ (hk.done _ hQ)
  rw [if_neg hname] at h
  by_cases hlogin : d₀.engine.loginTask.isSome = true
  · rw [if_pos hlogin] at h
    cases h
    exact hk.engine _ _ (hk.done _ hQ)
  rw [if_neg hlogin] at h
  split at h
  next entry hentry =>
    split at h
    next cb =>
      cases h
      exact calls_invariant hk.call cb.calls _ (hk.answer d stanza entry hP hentry)
    · cases h
  · obtain ⟨r, hr, rfl⟩ := Option.map_eq_some_iff.mp h
    refine hk.done _ (dispatch_invariant (P := Q) ?_ ?_ hr hQ)
    · intro level d reg cb hQ
      exact calls_invariant hk.offering cb.calls _ (hk.offer d level reg hQ)
    · intro d stanza hQ
      unfold Dispatcher.reply
      split_ifs
      · exact hk.reply d _ hQ
      · exact hQ

theorem Keeps.incomingAll (hk : Keeps P Q) (evs : List (StanzaEvent × List HandlerReaction)) :
    ∀ {d d' : Dispatcher E S}, incomingAll evs d = some d' → P d → P d' := by
  induction evs with
  | nil =>
    intro d d' h hP
    cases h
    exact hP
  | cons ev evs ih =>
    intro d d' h hP
    obtain ⟨d₁, h₁, h⟩ := Option.bind_eq_some_iff.mp h
    refine ih h ?_
    obtain ⟨event, cbs⟩ := ev
    cases event with
    | startStream stream =>
      cases h₁
      exact hk.engine _ _ hP
    | stanza stanza => exact hk.incomingStanza h₁ hP
    | endStream =>
      cases h₁
      exact hk.engine _ _ hP
    | xmlError =>
      cases h₁
      exact hk.engine _ _ hP

theorem Keeps.run (hk : Keeps P Q) (es : List Event) : ∀ {d d' : Dispatcher E S},
    d.run es = some d' → P d → P d' := by
  induction es with
  | nil =>
    intro d d' h hP
    cases h
    exact hP
  | cons e es ih =>
    intro d d' h hP
    obtain ⟨d₁, h₁, h⟩ := Option.bind_eq_some_iff.mp h
    refine ih h ?_
    cases e with
    | connect =>
      cases h₁
      exact hk.engine _ _ hP
    | call c =>
      cases h₁
      exact hk.call d c hP
    | handleInput bytes cbs =>
      have h₁ : d.handleInput bytes cbs = some d₁ := h₁
      unfold handleInput at h₁
      split_ifs at h₁
      · cases h₁
        exact hP
      · obtain ⟨d₂, h₂, rfl⟩ := Option.map_eq_some_iff.mp h₁
        exact hk.engine _ _ (hk.incomingAll _ h₂ (hk.engine _ _ hP))

/-- The registrations of every level have their numbers in order. -/
def Ordered (d : Dispatcher E S) : Prop :=
  ∀ level, IndexLoop.Numbered (fun d : Dispatcher E S => d.stanzaHandlers level)
    Registration.nr nextNr d

theorem Ordered.of_eq {d d' : Dispatcher E S} (h : Ordered d)
    (hs : d'.stanzaHandlers = d.stanzaHandlers) (hn : d'.nextNr = d.nextNr) : Ordered d' :=
  fun level => ⟨by rw [hs]; exact (h level).sorted, by rw [hs, hn]; exact (h level).bounded⟩

theorem Ordered.calls {d : Dispatcher E S} (h : Ordered d) (cs : List EngineCall) :
    Ordered (d.calls cs) := by
  intro level
  obtain ⟨added, hadded, hsorted, hnr, hle⟩ := calls_split cs d level
  refine ⟨?_, fun x hx => ?_⟩
  · rw [hadded]
    refine List.pairwise_append.mpr ⟨(h level).sorted.filter _, hsorted, fun x hx y hy => ?_⟩
    exact ((h level).bounded x (List.mem_filter.mp hx).1).trans_le (hnr y hy).1
  · rw [hadded] at hx
    rcases List.mem_append.mp hx with hx | hx
    · exact ((h level).bounded x (List.mem_filter.mp hx).1).trans_le hle
    · exact (hnr x hx).2

theorem Ordered.offer {d : Dispatcher E S} (h : Ordered d) (level : HandlerLevel)
    (reg : Registration) (cb : HandlerReaction) : Ordered (offer level d reg cb) :=
  Ordered.calls (d := d.mark (.offered level reg d.received)) (h.of_eq rfl rfl) cb.calls

theorem ordered_run (engine : XmppEngineImpl E S) (es : List Event) {d : Dispatcher E S}
    (h : (new engine).run es = some d) : Ordered d := by
  have hk : Keeps (E := E) (S := S) Ordered Ordered := {
    engine := fun d engine h => h.of_eq rfl rfl
    call := fun d c h => h.calls [c]
    receive := fun d h => h.of_eq rfl rfl
    done := fun d h => h
    offering := fun d c h => h.calls [c]
    offer := fun d level reg h => h.of_eq rfl rfl
    reply := fun d engine h => h.of_eq rfl rfl
    answer := fun d stanza entry h _ => h.of_eq rfl rfl }
  refine hk.run es h fun level => ⟨List.Pairwise.nil, fun x hx => by cases hx⟩

/-! ### Who is offered a stanza -/

/-- A registration that is there when a stanza comes, and that no callback removes. -/
def Stays (d : Dispatcher E S) (cbs : List HandlerReaction) (level : HandlerLevel)
    (reg : Registration) : Prop :=
  reg ∈ d.stanzaHandlers level ∧ ∀ cb ∈ cbs, keeps cb reg = true

/-- A turn that ends the dispatch. -/
def Ends (t : HandlerLevel × Turn) : Prop := t.1 ≠ .peek ∧ t.2.callback.handled = true

/-- The order of the handlers: by their levels, and by their registrations. -/
def Precedes (t : HandlerLevel × Turn) (level : HandlerLevel) (reg : Registration) : Prop :=
  t.1.rank < level.rank ∨ t.1 = level ∧ t.2.item.nr < reg.nr

/-- The handlers that are offered the stanza at a level. -/
def offeredAt (level : HandlerLevel) (turns : List (HandlerLevel × Turn)) :
    List Registration :=
  (turns.filter fun t => t.1 = level).map fun t => t.2.item

/-- **The stanza is dispatched as it should be**: the handlers that stay are offered it in
their order, those that peek once each, the others until one handles it, and there is an
error reply only to a request that none of them handles. -/
structure Dispatched (d : Dispatcher E S) (stanza : XmlElement) (cbs : List HandlerReaction)
    (turns : List (HandlerLevel × Turn)) (d' : Dispatcher E S) : Prop where
  peeked : ∀ reg, Stays d cbs .peek reg → (offeredAt .peek turns).count reg = 1
  offered : ∀ level ∈ HandlerLevel.precedence, ∀ reg, Stays d cbs level reg →
    reg ∈ offeredAt level turns ∨ ∃ t ∈ turns, Ends t ∧ Precedes t level reg
  ordered : turns.Pairwise fun t t' => Precedes t t'.1 t'.2.item
  ended : ∀ t ∈ turns.dropLast, ¬ Ends t
  replied : ∃ marks, d'.history = d.history ++ marks ∧
    ∀ n, .replied n ∈ marks → isRequest stanza ∧ ∀ t ∈ turns, ¬ Ends t

/-- No callback, but the one that ends the dispatch, removes registrations up to its own
while one that stays is among as many after it. -/
def Clear (d : Dispatcher E S) (cbs : List HandlerReaction) (turns : List (HandlerLevel × Turn)) :
    Prop :=
  ∀ t ∈ turns, ¬ Ends t → ∀ reg ∈ t.2.overtaken keeps, ¬ Stays d cbs t.1 reg

theorem mem_offeredAt {level : HandlerLevel} {turns : List (HandlerLevel × Turn)}
    {reg : Registration} :
    reg ∈ offeredAt level turns ↔ ∃ t ∈ turns, t.1 = level ∧ t.2.item = reg := by
  simp only [offeredAt, List.mem_map, List.mem_filter, decide_eq_true_eq, and_assoc]

theorem mem_offer {d : Dispatcher E S} {level level' : HandlerLevel} {reg item : Registration}
    {cb : HandlerReaction} (hk : keeps cb reg = true) (h : reg ∈ d.stanzaHandlers level') :
    reg ∈ (offer level d item cb).stanzaHandlers level' := by
  obtain ⟨added, hadded, -⟩ := (changes level level').split d item cb
  rw [hadded]
  exact List.mem_append_left _ (List.mem_filter.mpr ⟨h, hk⟩)

/-! ### One level -/

section Level

variable {d d' : Dispatcher E S} {level : HandlerLevel} {cbs rest : List HandlerReaction}
  {ts : List Turn}

theorem Ordered.scan (hd : Ordered d) (h : d.scan level cbs = some (ts, d', rest)) :
    Ordered d' :=
  IndexLoop.loop_invariant (Q := fun _ => True) (fun _ reg cb _ hd => hd.offer level reg cb) h
    (fun _ _ => trivial) hd

theorem mem_scan (h : d.scan level cbs = some (ts, d', rest)) {level' : HandlerLevel}
    {reg : Registration} (hk : ∀ t ∈ ts, keeps t.callback reg = true)
    (hreg : reg ∈ d.stanzaHandlers level') : reg ∈ d'.stanzaHandlers level' :=
  IndexLoop.loop_invariant (P := fun d : Dispatcher E S => reg ∈ d.stanzaHandlers level')
    (Q := fun cb => keeps cb reg = true) (fun _ _ _ hk hreg => mem_offer hk hreg) h hk hreg

theorem pairwise_scan (hd : Ordered d) (h : d.scan level cbs = some (ts, d', rest)) :
    (ts.map (Prod.mk level)).Pairwise fun t t' => Precedes t t'.1 t'.2.item := by
  refine List.pairwise_map.mpr ?_
  exact (IndexLoop.pairwise_items (changes level level) (hd level) h).imp fun hlt =>
    .inr ⟨rfl, hlt⟩

theorem dropLast_scan (hl : level ≠ .peek) (h : d.scan level cbs = some (ts, d', rest)) :
    ∀ t ∈ ts.dropLast, t.callback.handled = false := by
  intro t ht
  simpa [hl] using IndexLoop.stop_last h t ht

/-- At one level, a handler that stays is offered the stanza, or it ends before, exactly if
it is overtaken in no turn. -/
theorem offered_scan_iff (hd : Ordered d) (hl : level ≠ .peek)
    (h : d.scan level cbs = some (ts, d', rest)) {reg : Registration}
    (hreg : reg ∈ d.stanzaHandlers level) (hk : ∀ t ∈ ts, keeps t.callback reg = true) :
    ((∃ t ∈ ts, t.item = reg) ∨ ∃ t ∈ ts, t.callback.handled = true ∧ t.item.nr < reg.nr) ↔
      ∀ t ∈ ts, t.callback.handled = false → reg ∉ t.overtaken keeps := by
  have hiff := IndexLoop.met_iff (changes level level) (hd level) h
    (by simpa using hreg) hk
  simpa [hl] using hiff

theorem peeked_scan_iff (hd : Ordered d) (h : d.scan .peek cbs = some (ts, d', rest))
    {reg : Registration} (hreg : reg ∈ d.stanzaHandlers .peek)
    (hk : ∀ t ∈ ts, keeps t.callback reg = true) :
    (∃ t ∈ ts, t.item = reg) ↔ ∀ t ∈ ts, reg ∉ t.overtaken keeps := by
  have hiff := IndexLoop.met_iff (changes .peek .peek) (hd .peek) h
    (by simpa using hreg) hk
  simpa using hiff

end Level

/-! ### The levels -/

section Levels

variable {d d' : Dispatcher E S} {levels : List HandlerLevel} {cbs rest : List HandlerReaction}
  {turns : List (HandlerLevel × Turn)}

theorem scanLevels_cons {level : HandlerLevel}
    (h : scanLevels (level :: levels) cbs d = some (turns, d', rest)) :
    ∃ ts d₁ cbs₁, d.scan level cbs = some (ts, d₁, cbs₁) ∧
      (((∃ t ∈ ts, t.callback.handled = true) ∧ turns = ts.map (Prod.mk level) ∧ d' = d₁ ∧
          rest = cbs₁) ∨
        ((∀ t ∈ ts, t.callback.handled = false) ∧ ∃ turns', turns = ts.map (Prod.mk level) ++ turns' ∧
          scanLevels levels cbs₁ d₁ = some (turns', d', rest))) := by
  obtain ⟨⟨ts, d₁, cbs₁⟩, hscan, h⟩ := Option.bind_eq_some_iff.mp h
  refine ⟨ts, d₁, cbs₁, hscan, ?_⟩
  dsimp only at h
  by_cases hany : (ts.any fun t => t.callback.handled) = true
  · rw [if_pos hany] at h
    cases h
    exact .inl ⟨List.any_eq_true.mp hany, rfl, rfl, rfl⟩
  · rw [if_neg hany] at h
    obtain ⟨⟨turns', r'⟩, hr', heq⟩ := Option.map_eq_some_iff.mp h
    cases heq
    refine .inr ⟨fun t ht => ?_, turns', rfl, hr'⟩
    exact Bool.eq_false_iff.mpr fun hh => hany (List.any_eq_true.mpr ⟨t, ht, hh⟩)

theorem callbacks_scanLevels : ∀ {levels : List HandlerLevel} {d : Dispatcher E S}
    {cbs : List HandlerReaction} {turns : List (HandlerLevel × Turn)},
    scanLevels levels cbs d = some (turns, d', rest) →
      cbs = turns.map (fun t => t.2.callback) ++ rest
  | [], _, _, _, h => by
    cases h
    rfl
  | level :: levels, _, _, _, h => by
    obtain ⟨ts, d₁, cbs₁, hscan, hcase⟩ := scanLevels_cons h
    have hcbs := IndexLoop.callbacks_eq hscan
    rcases hcase with ⟨-, rfl, -, rfl⟩ | ⟨-, turns', rfl, h'⟩
    · rw [hcbs, List.map_map]
      rfl
    · rw [hcbs, callbacks_scanLevels h', List.map_append, List.map_map, List.append_assoc]
      rfl

theorem level_mem_of_scanLevels : ∀ {levels : List HandlerLevel} {d : Dispatcher E S}
    {cbs : List HandlerReaction} {turns : List (HandlerLevel × Turn)},
    scanLevels levels cbs d = some (turns, d', rest) → ∀ t ∈ turns, t.1 ∈ levels
  | [], _, _, _, h, t, ht => by
    cases h
    cases ht
  | level :: levels, _, _, _, h, t, ht => by
    obtain ⟨ts, d₁, cbs₁, -, hcase⟩ := scanLevels_cons h
    rcases hcase with ⟨-, rfl, -, -⟩ | ⟨-, turns', rfl, h'⟩
    · obtain ⟨t, -, rfl⟩ := List.mem_map.mp ht
      exact List.mem_cons_self
    · rcases List.mem_append.mp ht with ht | ht
      · obtain ⟨t, -, rfl⟩ := List.mem_map.mp ht
        exact List.mem_cons_self
      · exact List.mem_cons_of_mem _ (level_mem_of_scanLevels h' t ht)

theorem mem_dropLast_append {l l' : List (HandlerLevel × Turn)} {t : HandlerLevel × Turn}
    (h : t ∈ (l ++ l').dropLast) : t ∈ l ∨ t ∈ l'.dropLast := by
  rw [List.dropLast_append] at h
  split_ifs at h
  · exact .inl (List.mem_of_mem_dropLast h)
  · exact List.mem_append.mp h

/-- Levels in their order, without the one that peeks. -/
def Ascending (levels : List HandlerLevel) : Prop :=
  levels.Pairwise (fun l l' => l.rank < l'.rank) ∧ HandlerLevel.peek ∉ levels

theorem Ascending.tail {level : HandlerLevel} (h : Ascending (level :: levels)) :
    Ascending levels :=
  ⟨h.1.of_cons, fun hmem => h.2 (List.mem_cons_of_mem _ hmem)⟩

theorem pairwise_scanLevels : ∀ {levels : List HandlerLevel} {d : Dispatcher E S}
    {cbs : List HandlerReaction} {turns : List (HandlerLevel × Turn)}, Ascending levels → Ordered d →
    scanLevels levels cbs d = some (turns, d', rest) →
      turns.Pairwise fun t t' => Precedes t t'.1 t'.2.item
  | [], _, _, _, _, _, h => by
    cases h
    exact List.Pairwise.nil
  | level :: levels, _, _, _, hl, hd, h => by
    obtain ⟨ts, d₁, cbs₁, hscan, hcase⟩ := scanLevels_cons h
    rcases hcase with ⟨-, rfl, -, -⟩ | ⟨-, turns', rfl, h'⟩
    · exact pairwise_scan hd hscan
    · refine List.pairwise_append.mpr ⟨pairwise_scan hd hscan,
        pairwise_scanLevels hl.tail (hd.scan hscan) h', fun t ht t' ht' => ?_⟩
      obtain ⟨t, -, rfl⟩ := List.mem_map.mp ht
      exact .inl (List.rel_of_pairwise_cons hl.1 (level_mem_of_scanLevels h' t' ht'))

theorem dropLast_scanLevels : ∀ {levels : List HandlerLevel} {d : Dispatcher E S}
    {cbs : List HandlerReaction} {turns : List (HandlerLevel × Turn)}, Ascending levels →
    scanLevels levels cbs d = some (turns, d', rest) →
      ∀ t ∈ turns.dropLast, t.2.callback.handled = false
  | [], _, _, _, _, h, t, ht => by
    cases h
    cases ht
  | level :: levels, _, _, _, hl, h, t, ht => by
    have hpeek : level ≠ .peek := fun heq => hl.2 (heq ▸ List.mem_cons_self)
    obtain ⟨ts, d₁, cbs₁, hscan, hcase⟩ := scanLevels_cons h
    rcases hcase with ⟨-, rfl, -, -⟩ | ⟨hnone, turns', rfl, h'⟩
    · rw [← List.map_dropLast] at ht
      obtain ⟨t', ht', rfl⟩ := List.mem_map.mp ht
      exact dropLast_scan hpeek hscan t' ht'
    · have hts : ∀ t ∈ ts.map (Prod.mk level), t.2.callback.handled = false := by
        intro t ht
        obtain ⟨t', ht', rfl⟩ := List.mem_map.mp ht
        exact hnone t' ht'
      rcases mem_dropLast_append ht with ht | ht
      · exact hts t ht
      · exact dropLast_scanLevels hl.tail h' t ht

theorem offeredAt_append (level : HandlerLevel) (turns turns' : List (HandlerLevel × Turn)) :
    offeredAt level (turns ++ turns') = offeredAt level turns ++ offeredAt level turns' := by
  simp [offeredAt]

theorem offered_turns_iff {level : HandlerLevel} {ts : List Turn} (hd : Ordered d)
    (hl : level ≠ .peek) (h : d.scan level cbs = some (ts, d', rest)) {reg : Registration}
    (hreg : reg ∈ d.stanzaHandlers level)
    (hk : ∀ t ∈ ts.map (Prod.mk level), keeps t.2.callback reg = true) :
    (reg ∈ offeredAt level (ts.map (Prod.mk level)) ∨
        ∃ t ∈ ts.map (Prod.mk level), t.2.callback.handled = true ∧ Precedes t level reg) ↔
      ∀ t ∈ ts.map (Prod.mk level), t.1 = level → t.2.callback.handled = false →
        reg ∉ t.2.overtaken keeps := by
  have hiff := offered_scan_iff hd hl h hreg fun t ht => hk (level, t) (List.mem_map_of_mem ht)
  rw [mem_offeredAt]
  simpa [Precedes] using hiff

/-- **At all levels**, a handler that stays is offered the stanza, or it ends before, exactly
if it is overtaken in no turn at its level. -/
theorem offered_scanLevels_iff : ∀ {levels : List HandlerLevel} {d : Dispatcher E S}
    {cbs : List HandlerReaction} {turns : List (HandlerLevel × Turn)}, Ascending levels → Ordered d →
    scanLevels levels cbs d = some (turns, d', rest) → ∀ level ∈ levels, ∀ reg,
      reg ∈ d.stanzaHandlers level → (∀ t ∈ turns, keeps t.2.callback reg = true) →
      ((reg ∈ offeredAt level turns ∨
          ∃ t ∈ turns, t.2.callback.handled = true ∧ Precedes t level reg) ↔
        ∀ t ∈ turns, t.1 = level → t.2.callback.handled = false → reg ∉ t.2.overtaken keeps)
  | [], _, _, _, _, _, _, level, hlevel, _, _, _ => by cases hlevel
  | first :: levels, d, cbs, turns, hl, hd, h, level, hlevel, reg, hreg, hk => by
    have hpeek : first ≠ .peek := fun heq => hl.2 (heq ▸ List.mem_cons_self)
    obtain ⟨ts, d₁, cbs₁, hscan, hcase⟩ := scanLevels_cons h
    have hlt : ∀ l ∈ levels, first.rank < l.rank := fun l hl' =>
      List.rel_of_pairwise_cons hl.1 hl'
    by_cases hlevel' : level = first
    · subst hlevel'
      rcases hcase with ⟨-, rfl, -, -⟩ | ⟨hnone, turns', rfl, h'⟩
      · exact offered_turns_iff hd hpeek hscan hreg hk
      · -- the turns at the later levels say nothing about this one
        have hlater : ∀ t ∈ turns', level.rank < t.1.rank := fun t ht =>
          hlt _ (level_mem_of_scanLevels h' t ht)
        have hkts : ∀ t ∈ ts.map (Prod.mk level), keeps t.2.callback reg = true := fun t ht =>
          hk t (List.mem_append_left _ ht)
        have hiff := offered_turns_iff hd hpeek hscan hreg hkts
        rw [offeredAt_append, List.mem_append]
        constructor
        · rintro ((hmem | hmem) | ⟨t, ht, hh, hprec⟩) t' ht' heq
          · rcases List.mem_append.mp ht' with ht' | ht'
            · exact hiff.mp (.inl hmem) t' ht' heq
            · exact absurd (hlater t' ht') (by rw [heq]; exact lt_irrefl _)
          · obtain ⟨t, ht, hte, -⟩ := mem_offeredAt.mp hmem
            exact absurd (hlater t ht) (by rw [hte]; exact lt_irrefl _)
          · rcases List.mem_append.mp ht with ht | ht
            · obtain ⟨u, hu, rfl⟩ := List.mem_map.mp ht
              rw [hnone u hu] at hh
              cases hh
            · have hrank := hlater t ht
              rcases hprec with hprec | ⟨hprec, -⟩
              · exact absurd hrank (lt_asymm hprec)
              · exact absurd hrank (by rw [hprec]; exact lt_irrefl _)
        · intro hall
          rcases hiff.mpr fun t ht => hall t (List.mem_append_left _ ht) with hmem | ⟨t, ht, hh⟩
          · exact .inl (.inl hmem)
          · exact .inr ⟨t, List.mem_append_left _ ht, hh⟩
    · have hmem : level ∈ levels := (List.mem_cons.mp hlevel).resolve_left hlevel'
      rcases hcase with ⟨⟨t, ht, hh⟩, rfl, -, -⟩ | ⟨hnone, turns', rfl, h'⟩
      · -- an earlier level has handled the stanza
        refine iff_of_true (.inr ⟨(first, t), List.mem_map_of_mem ht, hh, .inl (hlt level hmem)⟩)
          fun t' ht' heq => ?_
        obtain ⟨u, -, rfl⟩ := List.mem_map.mp ht'
        exact absurd heq.symm hlevel'
      · have hkts : ∀ t ∈ ts, keeps t.callback reg = true := fun t ht =>
          hk (first, t) (List.mem_append_left _ (List.mem_map_of_mem ht))
        have hiff := offered_scanLevels_iff hl.tail (hd.scan hscan) h' level hmem reg
          (mem_scan hscan hkts hreg) fun t ht => hk t (List.mem_append_right _ ht)
        have hfirst : ∀ t ∈ ts.map (Prod.mk first), t.1 ≠ level ∧ t.2.callback.handled = false := by
          intro t ht
          obtain ⟨u, hu, rfl⟩ := List.mem_map.mp ht
          exact ⟨fun heq => hlevel' heq.symm, hnone u hu⟩
        rw [offeredAt_append, List.mem_append]
        constructor
        · rintro ((hmem | hmem) | ⟨t, ht, hh, hprec⟩) t' ht' heq
          · obtain ⟨t, ht, hte, -⟩ := mem_offeredAt.mp hmem
            exact absurd hte (hfirst t ht).1
          · rcases List.mem_append.mp ht' with ht' | ht'
            · exact absurd heq (hfirst t' ht').1
            · exact hiff.mp (.inl hmem) t' ht' heq
          · rcases List.mem_append.mp ht with ht | ht
            · rw [(hfirst t ht).2] at hh
              cases hh
            · rcases List.mem_append.mp ht' with ht' | ht'
              · exact absurd heq (hfirst t' ht').1
              · exact hiff.mp (.inr ⟨t, ht, hh, hprec⟩) t' ht' heq
        · intro hall
          rcases hiff.mpr fun t ht => hall t (List.mem_append_right _ ht) with hmem | ⟨t, ht, hh⟩
          · exact .inl (.inr hmem)
          · exact .inr ⟨t, List.mem_append_right _ ht, hh⟩

end Levels

/-! ### The whole dispatch -/

theorem call_history (d : Dispatcher E S) (c : EngineCall) :
    ∃ marks, (d.call c).history = d.history ++ marks ∧ ∀ n, .replied n ∉ marks := by
  cases c with
  | sendIq element handler cookie =>
    rw [call]
    rcases sendIq_cases d element handler cookie with h | ⟨-, engine, h⟩
    · exact ⟨[], by rw [h]; simp⟩
    · exact ⟨_, by rw [h]; rfl, by simp⟩
  | removeIqHandler cookie =>
    rw [call]
    rcases removeIqHandler_cases d cookie with h | ⟨entry, -, h⟩
    · exact ⟨[], by rw [h]; simp⟩
    · exact ⟨_, by rw [h]; rfl, by simp⟩
  | addStanzaHandler handler level =>
    refine ⟨[], ?_, by simp⟩
    unfold call addStanzaHandler
    split_ifs <;> simp
  | _ => exact ⟨[], (List.append_nil _).symm, by simp⟩

/-- The history has grown without an error reply. -/
def Silent (h : List DispatchMark) (d : Dispatcher E S) : Prop :=
  ∃ marks, d.history = h ++ marks ∧ ∀ n, .replied n ∉ marks

theorem Silent.offer {h : List DispatchMark} {d : Dispatcher E S} (hs : Silent h d)
    (level : HandlerLevel) (reg : Registration) (cb : HandlerReaction) :
    Silent h (offer level d reg cb) := by
  refine calls_invariant (fun d c hs => ?_) cb.calls _ ?_
  · obtain ⟨marks, hm, hno⟩ := hs
    obtain ⟨more, hmore, hno'⟩ := call_history d c
    refine ⟨marks ++ more, by rw [hmore, hm, List.append_assoc], fun n hn => ?_⟩
    exact (List.mem_append.mp hn).elim (hno n) (hno' n)
  · obtain ⟨marks, hm, hno⟩ := hs
    refine ⟨marks ++ [.offered level reg d.received], ?_, fun n hn => ?_⟩
    · show d.history ++ _ = _
      rw [hm, List.append_assoc]
    · simp [hno n] at hn

theorem dispatch_some {d d' : Dispatcher E S} {stanza : XmlElement} {cbs : List HandlerReaction}
    {turns : List (HandlerLevel × Turn)} (h : d.dispatch stanza cbs = some (turns, d')) :
    ∃ peeks d₁ cbs₁ turns₂ d₂, d.scan .peek cbs = some (peeks, d₁, cbs₁) ∧
      scanLevels HandlerLevel.precedence cbs₁ d₁ = some (turns₂, d₂, []) ∧
      turns = peeks.map (Prod.mk .peek) ++ turns₂ ∧
      d' = if turns₂.any fun t => t.2.callback.handled then d₂ else d₂.reply stanza := by
  obtain ⟨⟨peeks, d₁, cbs₁⟩, hpeek, h⟩ := Option.bind_eq_some_iff.mp h
  obtain ⟨⟨turns₂, d₂, cbs₂⟩, hlevels, h⟩ := Option.bind_eq_some_iff.mp h
  dsimp only at h hlevels
  cases cbs₂ with
  | nil =>
    cases h
    exact ⟨peeks, d₁, cbs₁, turns₂, d₂, hpeek, hlevels, rfl, rfl⟩
  | cons cb cbs₂ => cases h

theorem dispatch_replied {d d₁ d₂ : Dispatcher E S} {stanza : XmlElement}
    {cbs cbs₁ : List HandlerReaction} {peeks : List Turn} {turns₂ : List (HandlerLevel × Turn)}
    (hpeek : d.scan .peek cbs = some (peeks, d₁, cbs₁))
    (hlevels : scanLevels HandlerLevel.precedence cbs₁ d₁ = some (turns₂, d₂, []))
    (hends : ∀ t ∈ peeks.map (Prod.mk HandlerLevel.peek) ++ turns₂, Ends t →
      t ∈ turns₂ ∧ t.2.callback.handled = true) :
    ∃ marks, (if turns₂.any fun t => t.2.callback.handled then d₂ else d₂.reply stanza).history =
        d.history ++ marks ∧
      ∀ n, .replied n ∈ marks → isRequest stanza ∧
        ∀ t ∈ peeks.map (Prod.mk HandlerLevel.peek) ++ turns₂, ¬ Ends t := by
  have h₁ : Silent d.history d₁ := IndexLoop.loop_invariant (Q := fun _ => True)
    (fun _ reg cb _ hs => hs.offer .peek reg cb) hpeek (fun _ _ => trivial)
    ⟨[], (List.append_nil _).symm, by simp⟩
  obtain ⟨marks, hm, hno⟩ : Silent d.history d₂ := scanLevels_invariant (Q := fun _ => True)
    (fun level _ reg cb _ hs => hs.offer level reg cb) _ hlevels (fun _ _ => trivial) h₁
  by_cases hany : (turns₂.any fun t => t.2.callback.handled) = true
  · rw [if_pos hany]
    exact ⟨marks, hm, fun n hn => absurd hn (hno n)⟩
  rw [if_neg hany]
  by_cases hreq : isRequest stanza = true
  · refine ⟨marks ++ [.replied d₂.received], ?_, fun n _ => ⟨hreq, fun t ht hend => hany ?_⟩⟩
    · rw [reply, if_pos hreq]
      show d₂.history ++ _ = _
      rw [hm, List.append_assoc]
    · obtain ⟨ht, hh⟩ := hends t ht hend
      exact List.any_eq_true.mpr ⟨t, ht, hh⟩
  · rw [reply, if_neg hreq]
    exact ⟨marks, hm, fun n hn => absurd hn (hno n)⟩

theorem ascending_precedence : Ascending HandlerLevel.precedence := by
  unfold Ascending
  decide

theorem dispatched_iff_of_ordered {d d' : Dispatcher E S} (hd : Ordered d) {stanza : XmlElement}
    {cbs : List HandlerReaction} {turns : List (HandlerLevel × Turn)}
    (h : d.dispatch stanza cbs = some (turns, d')) :
    Dispatched d stanza cbs turns d' ↔ Clear d cbs turns := by
  obtain ⟨peeks, d₁, cbs₁, turns₂, d₂, hpeek, hlevels, rfl, rfl⟩ := dispatch_some h
  have hd₁ := hd.scan hpeek
  -- the callbacks are those of the turns
  have hcbs : cbs = (peeks.map (Prod.mk HandlerLevel.peek) ++ turns₂).map
      fun t => t.2.callback := by
    rw [IndexLoop.callbacks_eq hpeek, callbacks_scanLevels hlevels, List.append_nil,
      List.map_append, List.map_map]
    rfl
  have hkept : ∀ {level reg}, Stays d cbs level reg → ∀ t ∈
      peeks.map (Prod.mk HandlerLevel.peek) ++ turns₂, keeps t.2.callback reg = true := by
    intro level reg hs t ht
    refine hs.2 _ ?_
    rw [hcbs]
    exact List.mem_map_of_mem ht
  have hkpeeks : ∀ {level reg}, Stays d cbs level reg →
      ∀ t ∈ peeks, keeps t.callback reg = true := fun hs t ht =>
    hkept hs (.peek, t) (List.mem_append_left _ (List.mem_map_of_mem ht))
  have hkturns : ∀ {level reg}, Stays d cbs level reg →
      ∀ t ∈ turns₂, keeps t.2.callback reg = true := fun hs t ht =>
    hkept hs t (List.mem_append_right _ ht)
  have hlevel : ∀ t ∈ turns₂, t.1 ∈ HandlerLevel.precedence := level_mem_of_scanLevels hlevels
  have hne : ∀ t ∈ turns₂, t.1 ≠ .peek := fun t ht heq =>
    ascending_precedence.2 (heq ▸ hlevel t ht)
  have hpeekfst : ∀ t ∈ peeks.map (Prod.mk HandlerLevel.peek), t.1 = .peek := by
    intro t ht
    obtain ⟨u, -, rfl⟩ := List.mem_map.mp ht
    rfl
  have hends : ∀ t ∈ peeks.map (Prod.mk HandlerLevel.peek) ++ turns₂, Ends t →
      t ∈ turns₂ ∧ t.2.callback.handled = true := by
    intro t ht hend
    rcases List.mem_append.mp ht with ht | ht
    · exact absurd (hpeekfst t ht) hend.1
    · exact ⟨ht, hend.2⟩
  -- what the levels before the others are offered
  have hatPeek : ∀ reg, reg ∈ offeredAt .peek (peeks.map (Prod.mk HandlerLevel.peek) ++ turns₂) ↔
      ∃ t ∈ peeks, t.item = reg := by
    intro reg
    rw [mem_offeredAt]
    constructor
    · rintro ⟨t, ht, hte, hitem⟩
      rcases List.mem_append.mp ht with ht | ht
      · obtain ⟨u, hu, rfl⟩ := List.mem_map.mp ht
        exact ⟨u, hu, hitem⟩
      · exact absurd hte (hne t ht)
    · rintro ⟨t, ht, hitem⟩
      exact ⟨(.peek, t), List.mem_append_left _ (List.mem_map_of_mem ht), rfl, hitem⟩
  have hatLevel : ∀ level ∈ HandlerLevel.precedence, offeredAt level
      (peeks.map (Prod.mk HandlerLevel.peek) ++ turns₂) = offeredAt level turns₂ := by
    intro level hl
    rw [offeredAt_append]
    have hnil : offeredAt level (peeks.map (Prod.mk HandlerLevel.peek)) = [] := by
      refine List.eq_nil_iff_forall_not_mem.mpr fun reg hreg => ?_
      obtain ⟨t, ht, hte, -⟩ := mem_offeredAt.mp hreg
      rw [hpeekfst t ht] at hte
      exact ascending_precedence.2 (hte ▸ hl)
    rw [hnil, List.nil_append]
  have hordered : (peeks.map (Prod.mk HandlerLevel.peek) ++ turns₂).Pairwise
      fun t t' => Precedes t t'.1 t'.2.item := by
    refine List.pairwise_append.mpr ⟨pairwise_scan hd hpeek,
      pairwise_scanLevels ascending_precedence hd₁ hlevels, fun t ht t' ht' => .inl ?_⟩
    rw [hpeekfst t ht]
    have hrank : ∀ l ∈ HandlerLevel.precedence, HandlerLevel.peek.rank < l.rank := by decide
    exact hrank _ (hlevel t' ht')
  have hpeekIff : ∀ reg, Stays d cbs .peek reg →
      ((∃ t ∈ peeks, t.item = reg) ↔ ∀ t ∈ peeks, reg ∉ t.overtaken keeps) := fun reg hs =>
    peeked_scan_iff hd hpeek hs.1 (hkpeeks hs)
  have hlevelIff : ∀ level ∈ HandlerLevel.precedence, ∀ reg, Stays d cbs level reg → _ :=
    fun level hl reg hs => offered_scanLevels_iff ascending_precedence hd₁ hlevels level hl reg
      (mem_scan hpeek (hkpeeks hs) hs.1) (hkturns hs)
  constructor
  · intro hdisp t ht hend reg hover hs
    rcases List.mem_append.mp ht with ht | ht
    · have hp := hpeekfst t ht
      obtain ⟨u, hu, rfl⟩ := List.mem_map.mp ht
      have hone := hdisp.peeked reg hs
      have hmem : reg ∈ offeredAt .peek (peeks.map (Prod.mk HandlerLevel.peek) ++ turns₂) :=
        List.count_pos_iff.mp (by omega)
      exact (hpeekIff reg hs).mp ((hatPeek reg).mp hmem) u hu hover
    · have hl := hlevel t ht
      refine (hlevelIff t.1 hl reg hs).mp ?_ t ht rfl ?_ hover
      · rcases hdisp.offered t.1 hl reg hs with hmem | ⟨t', ht', hend', hprec⟩
        · rw [hatLevel t.1 hl] at hmem
          exact .inl hmem
        · exact .inr ⟨t', (hends t' ht' hend').1, hend'.2, hprec⟩
      · exact Bool.eq_false_iff.mpr fun hh => hend ⟨hne t ht, hh⟩
  · intro hclear
    refine ⟨fun reg hs => ?_, fun level hl reg hs => ?_, hordered, ?_, ?_⟩
    · have hmem := (hatPeek reg).mpr ((hpeekIff reg hs).mpr fun t ht hover =>
        hclear (.peek, t) (List.mem_append_left _ (List.mem_map_of_mem ht))
          (fun hend => hend.1 rfl) reg hover hs)
      refine List.count_eq_one_of_mem ?_ hmem
      refine List.pairwise_map.mpr ((hordered.filter _).imp_of_mem fun {t t'} ht ht' hprec heq => ?_)
      have h1 : t.1 = .peek := of_decide_eq_true (List.mem_filter.mp ht).2
      have h2 : t'.1 = .peek := of_decide_eq_true (List.mem_filter.mp ht').2
      rcases hprec with hprec | ⟨-, hprec⟩
      · rw [h1, h2] at hprec
        exact lt_irrefl _ hprec
      · rw [heq] at hprec
        exact lt_irrefl _ hprec
    · rcases (hlevelIff level hl reg hs).mpr fun t ht hte hh hover =>
        hclear t (List.mem_append_right _ ht) (fun hend => Bool.eq_false_iff.mp hh hend.2) reg
          hover (hte ▸ hs) with hmem | ⟨t, ht, hh, hprec⟩
      · exact .inl ((hatLevel level hl).symm ▸ hmem)
      · exact .inr ⟨t, List.mem_append_right _ ht, ⟨hne t ht, hh⟩, hprec⟩
    · intro t ht hend
      obtain ⟨-, hh⟩ := hends t (List.mem_of_mem_dropLast ht) hend
      rcases mem_dropLast_append ht with ht | ht
      · exact hend.1 (hpeekfst t ht)
      · rw [dropLast_scanLevels ascending_precedence hlevels t ht] at hh
        cases hh
    · exact dispatch_replied hpeek hlevels hends

theorem incomingStanza_dispatch {d : Dispatcher E S} {stanza : XmlElement}
    {cbs : List HandlerReaction} (hok : (d.engine.hasError || d.engine.raisedReset) = false)
    (hname : stanza.name ≠ qnStreamError) (hlogin : d.engine.loginTask = none)
    (hiq : d.entryFor stanza = none) :
    d.incomingStanza stanza cbs =
      ({ d with received := d.received + 1 }.dispatch stanza cbs).map Prod.snd := by
  have hiq : Dispatcher.entryFor { d with received := d.received + 1 } stanza = none := hiq
  have hlogin' : ({ d with received := d.received + 1 } : Dispatcher E S).engine.loginTask.isSome =
    false := by rw [hlogin]; rfl
  unfold incomingStanza
  rw [hok, if_neg Bool.false_ne_true]
  dsimp only
  rw [if_neg hname, hlogin', if_neg Bool.false_ne_true, hiq]

/-- **The dispatch in a run**: the handlers that stay registered are offered a stanza as
they should be, exactly if no reaction removes registrations up to its own while one that
stays moves up to their places. -/
theorem dispatched_iff (engine : XmppEngineImpl E S) (es : List Event) {d d' : Dispatcher E S}
    (hrun : (new engine).run es = some d) {stanza : XmlElement} {cbs : List HandlerReaction}
    (hok : (d.engine.hasError || d.engine.raisedReset) = false)
    (hname : stanza.name ≠ qnStreamError) (hlogin : d.engine.loginTask = none)
    (hiq : d.entryFor stanza = none) (h : d.incomingStanza stanza cbs = some d') :
    ∃ turns, { d with received := d.received + 1 }.dispatch stanza cbs = some (turns, d') ∧
      (Dispatched d stanza cbs turns d' ↔ Clear d cbs turns) := by
  rw [incomingStanza_dispatch hok hname hlogin hiq] at h
  obtain ⟨⟨turns, d₁⟩, hturns, rfl⟩ := Option.map_eq_some_iff.mp h
  refine ⟨turns, hturns, ?_⟩
  have hd : Ordered ({ d with received := d.received + 1 } : Dispatcher E S) :=
    (ordered_run engine es hrun).of_eq rfl rfl
  have hiff := dispatched_iff_of_ordered hd hturns
  exact ⟨fun hd => hiff.mp ⟨hd.peeked, hd.offered, hd.ordered, hd.ended, hd.replied⟩,
    fun hc => ⟨(hiff.mpr hc).peeked, (hiff.mpr hc).offered, (hiff.mpr hc).ordered,
      (hiff.mpr hc).ended, (hiff.mpr hc).replied⟩⟩

end Dispatcher

/-! ### Samples -/

/-- A parser that parses nothing. -/
def idleExpat : Expat where
  State := Unit
  init := ()
  parse := fun s _ _ => (s, [], none)

/-- A SASL handler without a mechanism. -/
def idleSasl : SaslHandler where
  Mechanism := Unit
  chooseBestSaslMechanism := fun _ _ => []
  createSaslMechanism := fun _ => none
  startSaslAuth := fun m => (none, m)
  handleSaslChallenge := fun m _ => (none, m)

/-- An engine whose login is done. -/
def openEngine : XmppEngineImpl idleExpat idleSasl :=
  { (XmppEngineImpl.new ⟨⟨none⟩, [], [], [], []⟩ false true : XmppEngineImpl idleExpat idleSasl) with
    state := .open_
    loginTask := none }

/-- Two handlers are added. -/
def sampleHandlers : List Dispatcher.Event :=
  [.call (.addStanzaHandler 1 .type), .call (.addStanzaHandler 2 .type)]

/-- The engine with the two handlers. -/
def twoHandlers : Dispatcher idleExpat idleSasl :=
  ((Dispatcher.new openEngine).call (.addStanzaHandler 1 .type)).call (.addStanzaHandler 2 .type)

/-- A request. -/
def sampleRequest : XmlElement := (XmlElement.new qnIq).addAttr qnType (textBytes "get")

/-- The second handler removes itself. -/
def secondRemoves : List HandlerReaction := [⟨[], false⟩, ⟨[.removeStanzaHandler 2], false⟩]

/-- The first handler removes itself. -/
def firstRemoves : List HandlerReaction := [⟨[.removeStanzaHandler 1], false⟩]

namespace Dispatcher

theorem dispatched_sample : ∃ d', twoHandlers.incomingStanza sampleRequest secondRemoves = some d' ∧
    ∃ turns, { twoHandlers with received := 1 }.dispatch sampleRequest secondRemoves =
        some (turns, d') ∧
      (Dispatched twoHandlers sampleRequest secondRemoves turns d' ↔
        Clear twoHandlers secondRemoves turns) := by
  have hsome : (twoHandlers.incomingStanza sampleRequest secondRemoves).isSome = true := by
    decide
  obtain ⟨d', hd'⟩ := Option.isSome_iff_exists.mp hsome
  exact ⟨d', hd', dispatched_iff openEngine sampleHandlers rfl rfl (by decide) rfl
    (by decide) hd'⟩

/-- **A handler is left out**: the first one removes itself, the second one is not offered the
stanza, and there is an error reply. -/
theorem not_dispatched : ∃ turns d',
    twoHandlers.dispatch sampleRequest firstRemoves = some (turns, d') ∧
      ¬ Dispatched twoHandlers sampleRequest firstRemoves turns d' := by
  have hmap : (twoHandlers.dispatch sampleRequest firstRemoves).map (fun r =>
      (offeredAt .type r.1, r.1.any fun t => t.2.callback.handled)) =
      some ([⟨1, 0⟩], false) := by decide
  obtain ⟨⟨turns, d'⟩, hdispatch, heq⟩ := Option.map_eq_some_iff.mp hmap
  obtain ⟨hoffered, hany⟩ := Prod.mk.inj heq
  refine ⟨turns, d', hdispatch, fun h => ?_⟩
  have hstays : Stays twoHandlers firstRemoves .type ⟨2, 1⟩ := by
    refine ⟨by decide, fun cb hcb => ?_⟩
    rw [List.mem_singleton.mp hcb]
    decide
  rcases h.offered .type (by decide) ⟨2, 1⟩ hstays with hmem | ⟨t, ht, hend, -⟩
  · rw [hoffered] at hmem
    exact absurd hmem (by decide)
  · exact List.any_eq_false.mp hany t ht hend.2

end Dispatcher

end Jingle.Xmpp
