/-
TLS in the order of the output.

What the engine produces and the calls of `StartTls` are one sequence (`produced`);
what the output handler is told is another (`written`).  The engine keeps the first
in order, but it passes bytes on only when the outermost call returns, and `StartTls`
at once.  `Wired` says that the second sequence, with what is still kept in the
output, is the first: every step keeps it, but for a `StartTls` while something is
kept.

That happens when one chunk brings both the features that `<starttls/>` answers and
the `<proceed/>` (`Together`), and in no other run.

* **`tls_boundary`** — the boundary holds in every run without such a chunk.
* **`starttls_after_tls`** — and is missed with one.
-/
import Jingle.Xmpp.Login

namespace Jingle.Xmpp

open Signaling (Text QName)
open Xmllite

/-! ### What is produced and what is written -/

/-- The bytes that the output handler got, with `StartTls` as a mark among them. -/
def written (calls : List HandlerCall) : List (Option Byte) :=
  calls.flatMap fun call =>
    match call with
    | .writeOutput bytes => bytes.map some
    | .startTls _ => [none]
    | .closeConnection => []

/-- The bytes that were printed, with `StartTls` as a mark among them. -/
def produced (history : List Mark) : List (Option Byte) :=
  history.flatMap fun mark =>
    match mark with
    | .out p => p.text.map some
    | .startTls => [none]
    | .taken _ | .opened => []

@[simp] theorem written_append (l l' : List HandlerCall) :
    written (l ++ l') = written l ++ written l' := List.flatMap_append

@[simp] theorem produced_append (l l' : List Mark) :
    produced (l ++ l') = produced l ++ produced l' := List.flatMap_append

@[simp] theorem produced_out (p : Piece) : produced [.out p] = p.text.map some := by
  simp [produced]

@[simp] theorem produced_taken (el : XmlElement) : produced [.taken el] = [] := rfl

@[simp] theorem produced_opened : produced [.opened] = [] := rfl

@[simp] theorem written_startTls (dom : Text) : written [.startTls dom] = [none] := rfl

namespace XmppEngineImpl

variable {E : Expat} {S : SaslHandler} {e e' : XmppEngineImpl E S}

@[simp] theorem written_flushed (closing : Bool) :
    written (e.flushed closing) = e.output.map some := by
  rcases h : e.output with _ | ⟨b, bytes⟩ <;> cases closing <;> simp [flushed, written, h]

/-- **The TLS boundary**: what the output handler was told is a beginning of what was
produced, `StartTls` included, and as long as there is a handler it is all of it. -/
structure TlsBoundary (e : XmppEngineImpl E S) : Prop where
  ordered : written e.calls <+: produced e.history
  passed : e.outputHandler = true → written e.calls = produced e.history

/-- What was told and what is kept is what was produced. -/
structure Wired (e : XmppEngineImpl E S) : Prop where
  ordered : written e.calls <+: produced e.history
  kept : e.outputHandler = true → written e.calls ++ e.output.map some = produced e.history

/-- Nothing is kept from a handler. -/
def Clean (e : XmppEngineImpl E S) : Prop := e.outputHandler = true → e.output = []

theorem Wired.boundary (h : e.Wired) (hc : e.Clean) : e.TlsBoundary where
  ordered := h.ordered
  passed := fun ho => by
    have hk := h.kept ho
    rwa [hc ho, List.map_nil, List.append_nil] at hk

/-! ### Small steps -/

theorem Wired.congr (h : e.Wired) (hh : e'.history = e.history) (hc : e'.calls = e.calls)
    (ho : e'.output = e.output) (hn : e'.outputHandler = e.outputHandler) : e'.Wired where
  ordered := by rw [hh, hc]; exact h.ordered
  kept := by rw [hh, hc, ho, hn]; exact h.kept

theorem Wired.mark (h : e.Wired) {m : Mark} (hm : produced [m] = [])
    (hh : e'.history = e.history ++ [m]) (hc : e'.calls = e.calls)
    (ho : e'.output = e.output) (hn : e'.outputHandler = e.outputHandler) : e'.Wired where
  ordered := by
    rw [hh, hc, produced_append, hm, List.append_nil]
    exact h.ordered
  kept := by
    rw [hh, hc, ho, hn, produced_append, hm, List.append_nil]
    exact h.kept

theorem Wired.print (h : e.Wired) (p : Piece) : (e.print p).Wired where
  ordered := by
    show _ <+: produced (e.history ++ [.out p])
    rw [produced_append]
    exact h.ordered.trans (List.prefix_append _ _)
  kept := fun ho => by
    show written e.calls ++ (e.output ++ p.text).map some = produced (e.history ++ [.out p])
    rw [List.map_append, ← List.append_assoc, h.kept ho, produced_append, produced_out]

theorem Wired.prints (h : e.Wired) (l : List XmlElement) :
    (l.foldl (fun e stanza => e.print (.stanza stanza)) e).Wired := by
  induction l generalizing e with
  | nil => exact h
  | cons x l ih => exact ih (h.print _)

theorem Wired.exit (h : e.Wired) (entry : State) : (e.exit entry).Wired := by
  rw [exit_eq]
  by_cases hf : e.outputHandler = true ∧ e.Flushes entry
  · refine ⟨?_, fun _ => ?_⟩
    · simp only [if_pos hf, written_append, written_flushed, h.kept hf.1]
      exact List.prefix_rfl
    · simp [if_pos hf, h.kept hf.1]
  · refine ⟨?_, fun ho => ?_⟩
    · simp only [if_neg hf, List.append_nil]
      exact h.ordered
    · have ho : e.outputHandler = true := by
        simp only [Bool.and_eq_true] at ho
        exact ho.1
      simp only [if_neg hf, List.append_nil]
      exact h.kept ho

theorem exit_clean (h : e.engineEntered ≤ 1) (entry : State) : (e.exit entry).Clean := by
  intro ho
  rw [exit_eq] at ho ⊢
  have ho : e.outputHandler = true := by
    simp only [Bool.and_eq_true] at ho
    exact ho.1
  exact if_pos ⟨ho, .inr (by omega)⟩

/-! ### The user's calls -/

theorem Wired.enter (h : e.Wired) : e.enter.Wired := h.congr rfl rfl rfl rfl

theorem Wired.signalError (h : e.Wired) (err : Error) (subcode : ℤ) :
    (e.signalError err subcode).Wired := by
  unfold XmppEngineImpl.signalError
  split_ifs
  · exact h.congr rfl rfl rfl rfl
  · exact h

theorem Wired.sendStanza (h : e.Wired) (element : XmlElement) : (e.sendStanza element).Wired := by
  unfold XmppEngineImpl.sendStanza
  by_cases hc : e.state = .closed
  · rw [if_pos hc]
    exact h
  · rw [if_neg hc]
    refine Wired.exit ?_ _
    have ha : (e.enter.accept element).Wired := h.congr rfl rfl rfl rfl
    by_cases hl : (e.enter.accept element).loginTask.isSome = true
    · rw [if_pos hl]
      exact ha.congr rfl rfl rfl rfl
    · rw [if_neg hl]
      exact ha.print _

theorem Wired.sendIq (h : e.Wired) (element : XmlElement) : (e.sendIq element).Wired := by
  unfold XmppEngineImpl.sendIq
  split_ifs
  iterate 4 exact h
  have hq (l : List XmppIqEntry) : Wired { e with iqEntries := l } := h.congr rfl rfl rfl rfl
  exact (hq _).sendStanza element

theorem Wired.sendRaw (h : e.Wired) (text : Text) : (e.sendRaw text).Wired := by
  unfold XmppEngineImpl.sendRaw
  split_ifs
  · exact h
  · exact (h.enter.print _).exit _

theorem Wired.disconnect (h : e.Wired) : e.disconnect.Wired := by
  unfold XmppEngineImpl.disconnect
  by_cases hne : e.state ≠ .closed
  · rw [if_pos hne]
    have hp : (if e.enter.state = .open_ then e.enter.print .streamEnd else e.enter).Wired := by
      split_ifs
      · exact h.enter.print _
      · exact h.enter
    refine Wired.exit ?_ _
    exact hp.congr rfl rfl rfl rfl
  · rw [if_neg hne]
    exact h

theorem Wired.connectionClosed (h : e.Wired) (subcode : ℤ) :
    (e.connectionClosed subcode).Wired := by
  unfold XmppEngineImpl.connectionClosed
  split_ifs
  · exact (h.enter.signalError _ _).exit _
  · exact (h.enter.signalError _ _).exit _
  · exact h

theorem Wired.userCall (h : e.Wired) (call : UserCall) : (e.userCall call).Wired := by
  cases call with
  | sendStanza element => exact h.sendStanza element
  | sendIq element => exact h.sendIq element
  | sendRaw text => exact h.sendRaw text
  | disconnect => exact h.disconnect
  | connectionClosed subcode => exact h.connectionClosed subcode

theorem Wired.userCalls (h : e.Wired) (calls : List UserCall) : (e.userCalls calls).Wired := by
  induction calls generalizing e with
  | nil => exact h
  | cons call calls ih => exact ih (h.userCall call)

theorem sendStanza_clean (hent : e.engineEntered = 0) (h : e.Clean) (element : XmlElement) :
    (e.sendStanza element).Clean := by
  unfold sendStanza
  by_cases hc : e.state = .closed
  · rw [if_pos hc]
    exact h
  · rw [if_neg hc]
    refine exit_clean ?_ _
    split_ifs
    · exact (congrArg (· + 1) hent).le
    · exact (congrArg (· + 1) hent).le

theorem userCall_clean (hent : e.engineEntered = 0) (h : e.Clean) (call : UserCall) :
    (e.userCall call).Clean := by
  have hone : e.enter.engineEntered ≤ 1 := (congrArg (· + 1) hent).le
  cases call with
  | sendStanza element => exact sendStanza_clean hent h element
  | sendIq element =>
    show (e.sendIq element).Clean
    unfold sendIq
    split_ifs
    iterate 4 exact h
    have hq (l : List XmppIqEntry) : ({ e with iqEntries := l }.sendStanza element).Clean :=
      sendStanza_clean (e := { e with iqEntries := l }) hent h element
    exact hq _
  | sendRaw text =>
    show (e.sendRaw text).Clean
    unfold sendRaw
    split_ifs
    · exact h
    · exact exit_clean (e := e.enter.print (.raw text)) hone _
  | disconnect =>
    show e.disconnect.Clean
    unfold disconnect
    by_cases hne : e.state ≠ .closed
    · rw [if_pos hne]
      refine exit_clean ?_ _
      split_ifs
      · exact hone
      · exact hone
    · rw [if_neg hne]
      exact h
  | connectionClosed subcode =>
    show (e.connectionClosed subcode).Clean
    have herr (err : Error) (n : ℤ) : (e.enter.signalError err n).engineEntered ≤ 1 := by
      rw [(signalError_frame err n).entered]
      exact hone
    unfold connectionClosed
    split_ifs
    · exact exit_clean (herr _ _) _
    · exact exit_clean (herr _ _) _
    · exact h

/-! ### The login task -/

theorem Wired.take (h : e.Wired) (el : XmlElement) : (e.take el).Wired :=
  h.mark (produced_taken el) rfl rfl rfl rfl

theorem Wired.modifyLogin (h : e.Wired) (f : XmppLoginTask S → XmppLoginTask S) :
    (e.modifyLogin f).Wired := h.congr rfl rfl rfl rfl

theorem Wired.failure (h : e.Wired) (err : Error) : (e.failure err).Wired :=
  (h.modifyLogin _).signalError err 0

theorem Wired.signalBound (h : e.Wired) (jid : Jid) : (e.signalBound jid).Wired := by
  unfold XmppEngineImpl.signalBound
  split_ifs
  · exact h.mark produced_opened rfl rfl rfl rfl
  · exact h

theorem Wired.startTls (h : e.Wired) (hc : e.Clean) (dom : Text) (calls : List UserCall) :
    (e.startTls dom calls).Wired := by
  rw [startTls_eq]
  by_cases ho : e.outputHandler = true
  · rw [if_pos ho]
    have hall : written e.calls = produced e.history := (h.boundary hc).passed ho
    have ht (d : Text) : (e.toldTls d).Wired := by
      have heq : written (e.toldTls d).calls = produced (e.toldTls d).history := by
        show written (e.calls ++ [.startTls d]) = produced (e.history ++ [.startTls])
        rw [written_append, produced_append, hall]
        rfl
      have hout : (e.toldTls d).output = [] := hc ho
      exact ⟨heq ▸ List.prefix_rfl, fun _ => by rw [hout, heq]; simp⟩
    exact ((ht _).userCalls calls).congr rfl rfl rfl rfl
  · rw [if_neg ho]
    exact h

theorem Turn.wired {t : XmppLoginTask S} {calls : List UserCall}
    {r : XmppEngineImpl E S × Bool} (hr : Turn e t calls r) (h : e.Wired)
    (hc : ∀ el, t.state = .tlsRequested → t.pelStanza = some el → el.name = qnTlsProceed →
      e.Clean) : r.1.Wired := by
  cases hr with
  | wait hw => exact h
  | start hs =>
    have h₁ : Wired { e with raisedReset := true } := h.congr rfl rfl rfl rfl
    exact ((h₁.modifyLogin _).print _).modifyLogin _
  | fail err hw => exact h.failure err
  | reject el err hp => exact (h.take el).failure err
  | started el hs hp hst hacc => exact (h.take el).modifyLogin _
  | features el next hs hp hn hnext => exact ((h.take el).modifyLogin _).modifyLogin _
  | askTls hs hf => exact (h.print _).modifyLogin _
  | proceed el hs hp hn =>
    have hcl : (e.take el).Clean := hc el hs hp hn
    exact ((h.take el).startTls hcl e.domain calls).congr rfl rfl rfl rfl
  | auth auth mech hs => exact (h.print _).modifyLogin _
  | respond el response mech hs hp => exact ((h.take el).print _).modifyLogin _
  | success el hs hp hn => exact (h.take el).modifyLogin _
  | askBind hs =>
    have h₁ : Wired { e with nextId := e.nextId + 1 } := h.congr rfl rfl rfl rfl
    exact (h₁.print _).modifyLogin _
  | skip el hs hp => exact h.take el
  | bound el jid hs hp hans hjid =>
    have h₁ : Wired { e.take el with nextId := e.nextId + 1 } :=
      (h.take el).congr rfl rfl rfl rfl
    exact (h₁.print _).modifyLogin _
  | session el hs hp hans hres =>
    exact (((h.take el).signalBound _).prints _).modifyLogin _

end XmppEngineImpl

/-! ### Chunks -/

/-- The element that an event brings. -/
def StanzaEvent.element : StanzaEvent → Option XmlElement
  | .startStream el => some el
  | .stanza el => some el
  | .endStream | .xmlError => none

/-- `<proceed/>` comes first. -/
def ProceedFirst : List StanzaEvent → Prop
  | [] => False
  | ev :: _ => ∃ el ∈ ev.element, el.name = qnTlsProceed

/-- The features come first, with `<starttls/>`, and then `<proceed/>`. -/
def FeaturesFirst : List StanzaEvent → Prop
  | [] => False
  | ev :: post => (∃ el ∈ ev.element, el.name = qnStreamFeatures ∧
      (el.firstNamed qnTlsStarttls).isSome = true) ∧ ProceedFirst post

/-- The start of the stream comes first, and then these two. -/
def StreamFirst : List StanzaEvent → Prop
  | .startStream el :: post => XmppEngineImpl.acceptsStart el = true ∧ FeaturesFirst post
  | _ => False

instance : DecidablePred ProceedFirst := fun events => by
  unfold ProceedFirst
  split <;> infer_instance

instance : DecidablePred FeaturesFirst := fun events => by
  unfold FeaturesFirst
  split <;> infer_instance

instance : DecidablePred StreamFirst := fun events => by
  unfold StreamFirst
  split <;> infer_instance

namespace XmppEngineImpl

variable {E : Expat} {S : SaslHandler} {e e' : XmppEngineImpl E S}

/-- **A chunk that misses the boundary**: it brings the features that `<starttls/>`
answers and the `<proceed/>`. -/
def Together (e : XmppEngineImpl E S) (bytes : List Byte) : Prop :=
  (e.state = .opening ∨ e.state = .open_) ∧
    ∃ t ∈ e.loginTask,
      ((t.state = .streamstartSent ∧ StreamFirst (e.stanzaParser.parse bytes false).2) ∨
        (t.state = .startedXmpp ∧ FeaturesFirst (e.stanzaParser.parse bytes false).2))

instance (bytes : List Byte) : Decidable (e.Together bytes) := by
  unfold Together
  infer_instance

/-- What the events that are still to come may be: a `<proceed/>` that is taken finds
nothing kept. -/
def Stage (e : XmppEngineImpl E S) (t : XmppLoginTask S) (events : List StanzaEvent) : Prop :=
  match t.state with
  | .streamstartSent => e.Clean ∧ ¬ StreamFirst events
  | .startedXmpp => e.Clean ∧ ¬ FeaturesFirst events
  | .tlsInit =>
    e.Clean ∧ ((t.pelFeatures.bind fun f => f.firstNamed qnTlsStarttls).isSome = true →
      ¬ ProceedFirst events)
  | .tlsRequested => e.Clean ∨ ¬ ProceedFirst events
  | _ => True

/-- The login task in the midst of `Advance`. -/
def Midst (e : XmppEngineImpl E S) (t : XmppLoginTask S) (events : List StanzaEvent) : Prop :=
  match t.pelStanza with
  | some el =>
    e.state ≠ .closed ∧ Waits t.state ∧ ∃ ev : StanzaEvent, ev.element = some el ∧
      (t.isStart = true → ev = .startStream el) ∧ Stage e t (ev :: events)
  | none =>
    (e.raisedReset = true ∧ t.state = .streamstartSent) ∨ t.state = .init ∨ t.state = .done ∨
      (e.state ≠ .closed ∧ Stage e t events)

theorem midst_some {t : XmppLoginTask S} {el : XmlElement} {events : List StanzaEvent}
    (hp : t.pelStanza = some el) :
    e.Midst t events ↔ e.state ≠ .closed ∧ Waits t.state ∧ ∃ ev : StanzaEvent,
      ev.element = some el ∧ (t.isStart = true → ev = .startStream el) ∧
        Stage e t (ev :: events) := by
  unfold Midst
  rw [hp]

theorem midst_none {t : XmppLoginTask S} {events : List StanzaEvent} (hp : t.pelStanza = none) :
    e.Midst t events ↔ (e.raisedReset = true ∧ t.state = .streamstartSent) ∨ t.state = .init ∨
      t.state = .done ∨ (e.state ≠ .closed ∧ Stage e t events) := by
  unfold Midst
  rw [hp]

theorem Midst.pelStanza_none {t : XmppLoginTask S} {events : List StanzaEvent}
    (h : e.Midst t events) (hw : ¬ Waits t.state) : t.pelStanza = none := by
  cases hp : t.pelStanza with
  | none => rfl
  | some el => exact absurd ((midst_some hp).mp h).2.1 hw

theorem Midst.stage {t : XmppLoginTask S} {el : XmlElement} {events : List StanzaEvent}
    (h : e.Midst t events) (hp : t.pelStanza = some el) :
    e.state ≠ .closed ∧ ∃ ev : StanzaEvent, ev.element = some el ∧
      (t.isStart = true → ev = .startStream el) ∧ Stage e t (ev :: events) :=
  ⟨((midst_some hp).mp h).1, ((midst_some hp).mp h).2.2⟩

theorem midst_of_free {t : XmppLoginTask S} {events : List StanzaEvent}
    (hp : t.pelStanza = none) (hne : e.state ≠ .closed)
    (hs : t.state ∈ [LoginTaskState.authInit, .bindInit, .saslRunning, .bindRequested,
      .sessionRequested]) : e.Midst t events := by
  refine (midst_none hp).mpr (.inr (.inr (.inr ⟨hne, ?_⟩)))
  simp only [List.mem_cons, List.not_mem_nil, or_false] at hs
  rcases hs with hs | hs | hs | hs | hs <;> simp [Stage, hs]

theorem midst_done {t : XmppLoginTask S} {events : List StanzaEvent} (hs : t.state = .done)
    (hp : t.pelStanza = none) : e.Midst t events :=
  (midst_none hp).mpr (.inr (.inr (.inl hs)))

theorem Turn.midst {t : XmppLoginTask S} {calls : List UserCall}
    {r : XmppEngineImpl E S × Bool} {events : List StanzaEvent} (hr : Turn e t calls r)
    (ht : e.loginTask = some t) (h : e.Midst t events) :
    ∃ t', r.1.loginTask = some t' ∧ r.1.Midst t' events := by
  -- a state that does not wait has its stage
  have hstage (hw : ¬ Waits t.state) (hs : t.state ≠ .init) (hd : t.state ≠ .done)
      (hss : t.state ≠ .streamstartSent) : e.state ≠ .closed ∧ Stage e t events := by
    rcases (midst_none (h.pelStanza_none hw)).mp h with ⟨-, hq⟩ | hq | hq | hq
    · exact absurd hq hss
    · exact absurd hq hs
    · exact absurd hq hd
    · exact hq
  cases hr with
  | wait hw => exact ⟨t, ht, h⟩
  | start hs =>
    have hp : t.pelStanza = none := h.pelStanza_none (by simp [Waits, hs])
    refine ⟨{ t with pelFeatures := none, state := .streamstartSent }, ?_, ?_⟩
    · simp [goto, modifyLogin, internalSendStart, print, ht]
    · exact (midst_none (by exact hp)).mpr (.inl ⟨rfl, rfl⟩)
  | fail err hw =>
    exact ⟨_, failure_login ht err, midst_done rfl (h.pelStanza_none hw)⟩
  | reject el err hp =>
    exact ⟨_, failure_login (take_login ht el) err, midst_done rfl rfl⟩
  | started el hs hp hst hacc =>
    obtain ⟨hne, ev, hev, hstart, hstg⟩ := h.stage hp
    have hstg : e.Clean ∧ ¬ StreamFirst (ev :: events) := by simpa [Stage, hs] using hstg
    refine ⟨{ t with pelStanza := none, streamId := el.attr qnId, state := .startedXmpp }, ?_, ?_⟩
    · simp [modifyLogin, take, ht]
    · refine (midst_none (by rfl)).mpr (.inr (.inr (.inr ⟨hne, hstg.1, fun hf => ?_⟩)))
      rw [hstart hst] at hstg
      exact hstg.2 ⟨hacc, hf⟩
  | features el next hs hp hn hnext =>
    obtain ⟨hne, ev, hev, -, hstg⟩ := h.stage hp
    have hstg : e.Clean ∧ ¬ FeaturesFirst (ev :: events) := by simpa [Stage, hs] using hstg
    refine ⟨{ t with pelStanza := none, pelFeatures := some el, state := next }, ?_, ?_⟩
    · simp [goto, modifyLogin, take, ht]
    · rcases hnext with rfl | ⟨-, rfl | ⟨rfl, -⟩⟩
      · refine (midst_none (by rfl)).mpr (.inr (.inr (.inr ⟨hne, hstg.1, fun htls hf => ?_⟩)))
        exact hstg.2 ⟨⟨el, hev, hn, htls⟩, hf⟩
      · exact midst_of_free rfl hne (by simp)
      · exact midst_of_free rfl hne (by simp)
  | askTls hs hf =>
    have hw : ¬ Waits t.state := by simp [Waits, hs]
    obtain ⟨hne, hstg⟩ := hstage hw (by simp [hs]) (by simp [hs]) (by simp [hs])
    have hstg : e.Clean ∧ ((t.pelFeatures.bind fun f => f.firstNamed qnTlsStarttls).isSome =
        true → ¬ ProceedFirst events) := by simpa only [Stage, hs] using hstg
    refine ⟨{ t with state := .tlsRequested }, ?_, ?_⟩
    · simp [goto, modifyLogin, print, ht]
    · refine (midst_none (by exact h.pelStanza_none hw)).mpr (.inr (.inr (.inr ⟨hne, ?_⟩)))
      exact .inr (hstg.2 hf)
  | proceed el hs hp hn =>
    obtain ⟨l, hl⟩ := startTls_login (e := e.take el) e.domain calls
    refine ⟨{ t with pelStanza := none, state := .init, queuedStanzas := t.queuedStanzas ++ l },
      ?_, (midst_none (by rfl)).mpr (.inr (.inl rfl))⟩
    show ((e.take el).startTls e.domain calls).loginTask.map _ = _
    rw [hl, take_login ht]
    rfl
  | auth auth mech hs =>
    have hw : ¬ Waits t.state := by simp [Waits, hs]
    obtain ⟨hne, -⟩ := hstage hw (by simp [hs]) (by simp [hs]) (by simp [hs])
    refine ⟨{ t with saslMech := some mech, state := .saslRunning }, ?_,
      midst_of_free (h.pelStanza_none hw) hne (by simp)⟩
    simp [modifyLogin, print, ht]
  | respond el response mech hs hp =>
    refine ⟨{ t with pelStanza := none, saslMech := some mech, state := .saslRunning }, ?_,
      midst_of_free rfl (h.stage hp).1 (by simp)⟩
    simp [modifyLogin, print, take, ht]
  | success el hs hp hn =>
    refine ⟨{ t with pelStanza := none, authNeeded := false, state := .init }, ?_,
      (midst_none (by rfl)).mpr (.inr (.inl rfl))⟩
    simp [modifyLogin, take, ht]
  | askBind hs =>
    have hw : ¬ Waits t.state := by simp [Waits, hs]
    obtain ⟨hne, -⟩ := hstage hw (by simp [hs]) (by simp [hs]) (by simp [hs])
    refine ⟨{ t with iqId := e.nextIdText, state := .bindRequested }, ?_,
      midst_of_free (h.pelStanza_none hw) hne (by simp)⟩
    simp [modifyLogin, print, ht]
  | skip el hs hp =>
    refine ⟨{ t with pelStanza := none }, take_login ht el,
      midst_of_free rfl (h.stage hp).1 ?_⟩
    rcases hs with hs | hs <;> simp [hs]
  | bound el jid hs hp hans hjid =>
    refine ⟨{ t with
      pelStanza := none, fullJid := jid, iqId := e.nextIdText, state := .sessionRequested }, ?_,
      midst_of_free rfl (h.stage hp).1 (by simp)⟩
    simp [modifyLogin, print, take, ht]
  | session el hs hp hans hres =>
    refine ⟨{ t with pelStanza := none, queuedStanzas := [], state := .done }, ?_,
      midst_done rfl rfl⟩
    show Option.map _ _ = _
    rw [prints_login, signalBound_login, take_login ht]
    rfl

theorem Midst.advance {t : XmppLoginTask S} {calls : List UserCall} {events : List StanzaEvent}
    {fuel : ℕ} (hfuel : rank t ≤ fuel) (h : e.Midst t events) (ht : e.loginTask = some t)
    (hw : e.Wired) :
    (XmppEngineImpl.advance calls fuel e).Wired ∧
      ∃ t', (XmppEngineImpl.advance calls fuel e).loginTask = some t' ∧ Stopped t' ∧
        (XmppEngineImpl.advance calls fuel e).Midst t' events := by
  induction fuel generalizing e t with
  | zero => exact absurd hfuel (by have := rank_pos t; omega)
  | succ fuel ih =>
    have hturn := advanceStep_turn (e := e) t calls
    have hw' : (e.advanceStep t calls).1.Wired := by
      refine hturn.wired hw fun el hs hp hn => ?_
      obtain ⟨-, ev, hev, -, hstg⟩ := h.stage hp
      have hstg : e.Clean ∨ ¬ ProceedFirst (ev :: events) := by simpa [Stage, hs] using hstg
      exact hstg.resolve_right fun hno => hno ⟨el, hev, hn⟩
    rw [advance_succ ht]
    split
    next hgo =>
      obtain ⟨t', ht', hlt⟩ := hturn.rank_lt ht hgo
      obtain ⟨t'', ht'', hm⟩ := hturn.midst ht h
      rw [ht'] at ht''
      cases ht''
      exact ih (by omega) hm ht' hw'
    next hgo =>
      obtain ⟨t', ht', hstop⟩ := hturn.stopped ht (by simpa using hgo)
      obtain ⟨t'', ht'', hm⟩ := hturn.midst ht h
      rw [ht'] at ht''
      cases ht''
      exact ⟨hw', t', ht', hstop, hm⟩

/-- Between two events of a chunk: nothing more is heard, the login is done, or the
login task waits for what comes. -/
def Ready (e : XmppEngineImpl E S) (events : List StanzaEvent) : Prop :=
  (e.hasError = true ∨ e.raisedReset = true) ∨ e.loginTask = none ∨
    (e.state ≠ .closed ∧ ∃ t, e.loginTask = some t ∧ Waits t.state ∧ Stage e t events)

theorem Wired.loginIncoming {t : XmppLoginTask S} {events : List StanzaEvent} {ev : StanzaEvent}
    {el : XmlElement} {isStart : Bool} (hw : e.Wired) (ht : e.loginTask = some t)
    (hne : e.state ≠ .closed) (hwait : Waits t.state) (hstg : Stage e t (ev :: events))
    (hev : ev = if isStart = true then .startStream el else .stanza el) (calls : List UserCall) :
    (e.loginIncoming (some el) isStart calls).Wired ∧
      (e.loginIncoming (some el) isStart calls).Ready events := by
  have hm₁ : (e.offer (some el) isStart).Midst { t with pelStanza := some el, isStart } events := by
    refine (midst_some (by rfl)).mpr ⟨hne, hwait, ev, ?_, fun hs => ?_, hstg⟩
    · rw [hev]
      cases isStart <;> rfl
    · rw [hev]
      exact if_pos hs
  obtain ⟨hw₂, t₂, ht₂, -, hm₂⟩ := @Midst.advance E S _ _ calls _ _ (rank_le _) hm₁
    (offer_login ht _ _) (hw.modifyLogin _)
  obtain ⟨t₃, ht₃, hcases⟩ := loginIncoming_cases ht (some el) isStart calls
  rw [ht₂] at ht₃
  cases ht₃
  have hw₃ : (XmppEngineImpl.advance calls 4 (e.offer (some el) isStart)).clear.Wired :=
    hw₂.modifyLogin _
  rcases hcases with ⟨-, hin⟩ | ⟨hwait', hp, hin⟩
  · rw [hin]
    exact ⟨hw₃.congr rfl rfl rfl rfl, .inr (.inl rfl)⟩
  · rw [hin]
    refine ⟨hw₃, ?_⟩
    rcases (midst_none hp).mp hm₂ with ⟨hr, -⟩ | hi | hd | ⟨hne', hs'⟩
    · exact .inl (.inr hr)
    · simp [Waits, hi] at hwait'
    · simp [Waits, hd] at hwait'
    · exact .inr (.inr ⟨hne', _, clear_login ht₂, hwait', hs'⟩)

theorem signalError_ready (err : Error) (subcode : ℤ) {ev : StanzaEvent}
    {events : List StanzaEvent} (h : e.Ready (ev :: events)) :
    (e.signalError err subcode).Ready events := by
  unfold signalError
  split_ifs with hc
  · exact .inl (.inl rfl)
  · rcases h with hd | hn | ⟨hne, -⟩
    · exact .inl hd
    · exact .inr (.inl hn)
    · exact absurd hne hc

theorem userCalls_ready (calls : List UserCall) {events : List StanzaEvent}
    (hn : e.loginTask = none) : (e.userCalls calls).Ready events := by
  obtain ⟨l, hl⟩ := (userCalls_frame (e := e) calls).login
  exact .inr (.inl (by rw [hl, hn]; rfl))

theorem Delivery.wired {r : Reaction} {ev : StanzaEvent} {events : List StanzaEvent}
    (hd : Delivery e r ev e') (hw : e.Wired) (h : e.Ready (ev :: events)) :
    e'.Wired ∧ e'.Ready events := by
  cases hd with
  | ignored hdeaf => exact ⟨hw, .inl hdeaf⟩
  | login el isStart herr hreset hsome hev =>
    rcases h with hdeaf | hn | ⟨hne, t, ht, hwait, hstg⟩
    · rcases hdeaf with hq | hq
      · rw [herr] at hq
        cases hq
      · rw [hreset] at hq
        cases hq
    · rw [hn] at hsome
      cases hsome
    · exact hw.loginIncoming ht hne hwait hstg hev r.calls
  | error err => exact ⟨hw.signalError _ _, signalError_ready err 0 h⟩
  | streamError stanza =>
    unfold signalStreamError
    split_ifs with hc
    · have hw₁ : Wired { e with streamError := some stanza } := hw.congr rfl rfl rfl rfl
      exact ⟨hw₁.signalError _ _, signalError_ready (e := { e with streamError := some stanza })
        _ _ h⟩
    · have hs := signalError_ready .stream 0 h
      rw [signalError, if_neg hc] at hs
      exact ⟨hw, hs⟩
  | user entries herr hn =>
    have hw₁ : Wired { e with iqEntries := entries } := hw.congr rfl rfl rfl rfl
    exact ⟨hw₁.userCalls _, userCalls_ready (e := { e with iqEntries := entries }) _ hn⟩
  | refuse stanza herr hn =>
    have hlog : (e.userCalls r.calls).loginTask = none := by
      obtain ⟨l, hl⟩ := (userCalls_frame (e := e) r.calls).login
      rw [hl, hn]
      rfl
    unfold sendFeatureNotImplemented
    split_ifs
    · exact ⟨hw.userCalls _, .inr (.inl hlog)⟩
    · refine ⟨(hw.userCalls _).sendStanza _, .inr (.inl ?_)⟩
      obtain ⟨l, hl⟩ := (sendStanza_frame (e := e.userCalls r.calls) _).login
      rw [hl, hlog]
      rfl

theorem Wired.incomingAll (events : List (StanzaEvent × Reaction)) (hw : e.Wired)
    (h : e.Ready (events.map Prod.fst)) : (e.incomingAll events).Wired := by
  induction events generalizing e with
  | nil => exact hw
  | cons ev events ih =>
    obtain ⟨hw', h'⟩ := (incoming_delivery (e := e) ev.1 ev.2).wired hw h
    exact ih hw' h'

/-! ### Runs -/

/-- The login task waits, if there is one. -/
def Waiting (e : XmppEngineImpl E S) : Prop := ∀ t, e.loginTask = some t → Waits t.state

theorem UserFrame.waiting (h : UserFrame e e') (hw : e.Waiting) : e'.Waiting := by
  obtain ⟨l, hl⟩ := h.login
  intro t' ht'
  rw [hl] at ht'
  obtain ⟨t, ht, rfl⟩ := Option.map_eq_some_iff.mp ht'
  exact hw t ht

theorem loginIncoming_waiting {t : XmppLoginTask S} (ht : e.loginTask = some t)
    (element : Option XmlElement) (isStart : Bool) (calls : List UserCall) :
    (e.loginIncoming element isStart calls).Waiting := by
  obtain ⟨t₂, ht₂, hcases⟩ := loginIncoming_cases ht element isStart calls
  rcases hcases with ⟨-, hin⟩ | ⟨hw, -, hin⟩
  · rw [hin]
    exact fun _ hq => by cases hq
  · rw [hin]
    intro t' ht'
    rw [clear_login ht₂] at ht'
    cases ht'
    exact hw

theorem signalError_login (err : Error) (subcode : ℤ) :
    (e.signalError err subcode).loginTask = e.loginTask := by
  unfold signalError
  split_ifs <;> rfl

theorem Delivery.waiting {r : Reaction} {ev : StanzaEvent} (hd : Delivery e r ev e')
    (h : e.Waiting) : e'.Waiting := by
  cases hd with
  | ignored _ => exact h
  | login el isStart _ _ hsome _ =>
    obtain ⟨t, ht⟩ := Option.isSome_iff_exists.mp hsome
    exact loginIncoming_waiting ht _ _ _
  | error err =>
    intro t ht
    rw [signalError_login] at ht
    exact h t ht
  | streamError stanza =>
    intro t ht
    unfold signalStreamError at ht
    split_ifs at ht
    · rw [signalError_login] at ht
      exact h t ht
    · exact h t ht
  | user entries _ _ =>
    have hq : Waiting { e with iqEntries := entries } := h
    exact (userCalls_frame _).waiting hq
  | refuse stanza _ _ =>
    have hu := (userCalls_frame r.calls).waiting h
    unfold sendFeatureNotImplemented
    split_ifs
    · exact hu
    · exact (sendStanza_frame _).waiting hu

theorem incomingAll_waiting (events : List (StanzaEvent × Reaction)) (h : e.Waiting) :
    (e.incomingAll events).Waiting := by
  induction events generalizing e with
  | nil => exact h
  | cons ev events ih => exact ih ((incoming_delivery ev.1 ev.2).waiting h)

/-- **The invariant between two events.** -/
structure Rest (e : XmppEngineImpl E S) : Prop where
  wired : e.Wired
  clean : e.Clean
  notEntered : e.engineEntered = 0
  settled : (e.state = .start ∧ ∃ t, e.loginTask = some t ∧ t.state = .init) ∨
    e.state = .closed ∨ (e.state ≠ .start ∧ e.Waiting)

theorem Rest.boundary (h : e.Rest) : e.TlsBoundary := h.wired.boundary h.clean

theorem Rest.userCall (h : e.Rest) (call : UserCall) : (e.userCall call).Rest where
  wired := h.wired.userCall call
  clean := userCall_clean h.notEntered h.clean call
  notEntered := (userCall_frame call).entered.trans h.notEntered
  settled := by
    have hf := userCall_frame (e := e) call
    rcases h.settled with ⟨hs, t, ht, hi⟩ | hc | hw
    · rcases hf.state with hs' | hs'
      · obtain ⟨l, hl⟩ := hf.login
        refine .inl ⟨hs'.trans hs, { t with queuedStanzas := t.queuedStanzas ++ l }, ?_, hi⟩
        rw [hl, ht]
        rfl
      · exact .inr (.inl hs')
    · exact .inr (.inl (hf.closed hc))
    · rcases hf.state with hs' | hs'
      · exact .inr (.inr ⟨hs' ▸ hw.1, hf.waiting hw.2⟩)
      · exact .inr (.inl hs')

theorem Wired.loginStart {t : XmppLoginTask S} (hw : e.Wired) (ht : e.loginTask = some t)
    (hi : t.state = .init) : (e.loginIncoming none false []).Wired := by
  have hm : (e.offer none false).Midst { t with pelStanza := none, isStart := false } [] :=
    (midst_none (by rfl)).mpr (.inr (.inl hi))
  obtain ⟨hw', -⟩ := @Midst.advance E S _ _ [] _ _ (rank_le _) hm (offer_login ht _ _)
    (hw.modifyLogin _)
  have hw'' : (XmppEngineImpl.advance [] 4 (e.offer none false)).clear.Wired := hw'.modifyLogin _
  obtain ⟨t', -, ⟨-, hin⟩ | ⟨-, -, hin⟩⟩ := loginIncoming_cases ht none false []
  · rw [hin]
    exact hw''.congr rfl rfl rfl rfl
  · rw [hin]
    exact hw''

theorem Rest.connect (h : e.Rest) : e.connect.Rest := by
  unfold XmppEngineImpl.connect
  split_ifs with hs
  · exact h
  · have hs : e.state = .start := not_not.mp hs
    obtain ⟨t, ht, hi⟩ : ∃ t, e.loginTask = some t ∧ t.state = .init := by
      rcases h.settled with ⟨-, ht⟩ | hc | hw
      · exact ht
      · rw [hs] at hc
        cases hc
      · exact absurd hs hw.1
    set e₁ : XmppEngineImpl E S := { e.enter with state := .opening } with he₁
    have hw₁ : e₁.Wired := h.wired.congr rfl rfl rfl rfl
    have hf := loginIncoming_frame (e := e₁) none false []
    have hwired : (e₁.loginIncoming none false []).Wired := hw₁.loginStart ht hi
    have hone : (e₁.loginIncoming none false []).engineEntered = 1 := by
      rw [hf.entered]
      exact congrArg (· + 1) h.notEntered
    refine ⟨hwired.exit _, exit_clean hone.le _, ?_, .inr (.inr ⟨?_, ?_⟩)⟩
    · rw [exit_engineEntered, hone]
    · rw [exit_state]
      show (e₁.loginIncoming none false []).state ≠ .start
      rcases hf.state with hs' | hs' | hs'
      · exact fun hq => by cases hs'.symm.trans hq
      · exact fun hq => by cases hs'.symm.trans hq
      · exact fun hq => by cases hs'.1.symm.trans hq
    · intro t' ht'
      rw [exit_loginTask] at ht'
      exact loginIncoming_waiting (e := e₁) ht none false [] t' ht'

theorem Rest.handleInput (h : e.Rest) {bytes : List Byte} (hb : ¬ e.Together bytes)
    (reaction : ℕ → Reaction) : (e.handleInput bytes reaction).Rest := by
  unfold XmppEngineImpl.handleInput
  by_cases hs : e.state ≠ .opening ∧ e.state ≠ .open_
  · rw [if_pos hs]
    exact h
  rw [if_neg hs]
  have hopen : e.state = .opening ∨ e.state = .open_ := by
    by_contra hn
    exact hs (not_or.mp hn)
  have hne : e.state ≠ .closed ∧ e.state ≠ .start := by rcases hopen with ho | ho <;> simp [ho]
  have hwait : e.Waiting := by
    rcases h.settled with ⟨hs', -⟩ | hc | hw
    · exact absurd hs' hne.2
    · exact absurd hc hne.1
    · exact hw.2
  dsimp only
  generalize hevents : ((e.stanzaParser.parse bytes false).2.mapIdx
    fun k event => (event, reaction k)) = events
  have hfst : events.map Prod.fst = (e.stanzaParser.parse bytes false).2 := by
    rw [← hevents]
    exact List.ext_getElem (by simp) (by simp)
  have hready : e.enter.Ready (events.map Prod.fst) := by
    rw [hfst]
    cases ht : e.loginTask with
    | none => exact .inr (.inl ht)
    | some t =>
      refine .inr (.inr ⟨hne.1, t, ht, hwait t ht, ?_⟩)
      have hclean : e.enter.Clean := h.clean
      unfold Stage
      split
      next hst => exact ⟨hclean, fun hf => hb ⟨hopen, t, ht, .inl ⟨hst, hf⟩⟩⟩
      next hst => exact ⟨hclean, fun hf => hb ⟨hopen, t, ht, .inr ⟨hst, hf⟩⟩⟩
      next hst => exact absurd (hwait t ht) (by simp [Waits, hst])
      next => exact .inl hclean
      next => trivial
  have hf := incomingAll_frame (e := e.enter) events
  have hone : (e.enter.incomingAll events).engineEntered = 1 := by
    rw [hf.entered]
    exact congrArg (· + 1) h.notEntered
  have hwired := h.wired.enter.incomingAll events hready
  refine ⟨Wired.exit ?_ _, exit_clean ?_ _, ?_, .inr (.inr ⟨?_, ?_⟩)⟩
  · exact hwired.congr rfl rfl rfl rfl
  · exact hone.le
  · rw [exit_engineEntered]
    show (e.enter.incomingAll events).engineEntered - 1 = 0
    rw [hone]
  · rw [exit_state]
    rcases hf.state with hs' | hs' | hs'
    · exact fun hq => hne.2 (hs'.symm.trans hq)
    · exact fun hq => by cases hs'.symm.trans hq
    · exact fun hq => by cases hs'.1.symm.trans hq
  · intro t ht
    rw [exit_loginTask] at ht
    exact incomingAll_waiting events (e := e.enter) hwait t ht

theorem Rest.new (settings : Settings) (tlsNeeded : Bool) :
    (XmppEngineImpl.new settings tlsNeeded true : XmppEngineImpl E S).Rest where
  wired := ⟨List.prefix_rfl, fun _ => rfl⟩
  clean := fun _ => rfl
  notEntered := rfl
  settled := .inl ⟨rfl, _, rfl, rfl⟩

/-- A new engine with an output handler. -/
def WithHandler (e : XmppEngineImpl E S) : Prop := ∃ settings tlsNeeded, e = .new settings tlsNeeded true

/-- One event of a run, that is no chunk with the features and `<proceed/>` together. -/
def SeparateStep (e e' : XmppEngineImpl E S) : Prop :=
  ∃ event, e' = e.act event ∧
    ∀ bytes reaction, event = .handleInput bytes reaction → ¬ e.Together bytes

/-- **The TLS boundary** is kept in every run that brings the features and `<proceed/>`
in different chunks. -/
theorem tls_boundary (h : Reach WithHandler SeparateStep e) : e.TlsBoundary := by
  have hrest : e.Rest := by
    refine Reach.invariant (fun e h₀ => ?_) ?_ e h
    · obtain ⟨settings, tlsNeeded, rfl⟩ := h₀
      exact .new settings tlsNeeded
    · rintro e _ - hr ⟨event, rfl, hsep⟩
      cases event with
      | connect => exact hr.connect
      | handleInput bytes reaction => exact hr.handleInput (hsep bytes reaction rfl) reaction
      | user call => exact hr.userCall call
  exact hrest.boundary

end XmppEngineImpl

/-- The login of `tlsLogin`, in which they come in different chunks. -/
theorem tls_boundary_sample : tlsLogin.TlsBoundary := by
  refine XmppEngineImpl.tls_boundary (.step (.step (.step (.step
    (.init ⟨sampleSettings, true, rfl⟩) ⟨.connect, rfl, ?_⟩)
    ⟨.handleInput (serverStart ++ serverFeatures) quiet, rfl, ?_⟩)
    ⟨.user (.sendStanza (.new qnIq)), rfl, ?_⟩) ⟨.handleInput serverProceed quiet, rfl, ?_⟩)
  · exact fun _ _ hq => by cases hq
  · intro bytes reaction hq
    cases hq
    decide +kernel
  · exact fun _ _ hq => by cases hq
  · intro bytes reaction hq
    cases hq
    decide +kernel

/-- The same server, whose features and `<proceed/>` come in one chunk. -/
def hastyLogin : XmppEngineImpl tlsServer.expat noSasl :=
  connected.act (.handleInput (serverStart ++ serverFeatures ++ serverProceed) quiet)

/-- **`<starttls/>` is written after `StartTls`**, when the features and `<proceed/>`
come in one chunk. -/
theorem starttls_after_tls :
    Reach XmppEngineImpl.WithHandler XmppEngineImpl.Step hastyLogin ∧ ¬ hastyLogin.TlsBoundary := by
  refine ⟨.step (.step (.init ⟨sampleSettings, true, rfl⟩) ⟨_, rfl⟩) ⟨_, rfl⟩, fun h => ?_⟩
  exact absurd h.ordered (by decide +kernel)

end Jingle.Xmpp
