/-
Stanzas in order.

While the login runs, `SendStanza` queues stanzas in the login task; the session
result prints the queue, and the task is deleted.  `Standing` says at which of these
places the accepted stanzas are, and `Told` what the handlers have been told of it.
An engine that is closed has told so and prints nothing more.

The output handler is taken not to call the engine (`Undisturbed`): what the user's
code does in a stanza or iq handler is free.

* **`delivered_run`** — the stanzas of every run, what is written, and the changes
  of the state that are told.
-/
import Jingle.Xmpp.TlsBoundary

namespace Jingle.Xmpp

open Signaling (Text QName)
open Xmllite

/-! ### Histories -/

/-- The stanza of a mark. -/
def Mark.stanza? : Mark → Option XmlElement
  | .out (.stanza x) => some x
  | _ => none

/-- The bytes of a mark. -/
def Mark.bytes : Mark → Text
  | .out p => p.text
  | _ => []

/-- The stanzas that were printed. -/
def stanzasOf (h : List Mark) : List XmlElement := h.filterMap Mark.stanza?

/-- The bytes that were printed. -/
def printed (h : List Mark) : Text := h.flatMap Mark.bytes

/-- The bytes that `WriteOutput` was given. -/
def handed (calls : List HandlerCall) : Text :=
  calls.flatMap fun call =>
    match call with
    | .writeOutput bytes => bytes
    | .startTls _ | .closeConnection => []

/-- The session result has been taken: the last mark is an iq result with the id of
the session request. -/
def SessionGiven (h : List Mark) : Prop :=
  ∃ (a : List Mark) (r : XmlElement) (id : Text), h = a ++ [.taken r] ∧
    .out (.sessionIq id) ∈ a ∧ XmppEngineImpl.answers r id = true ∧
    r.attr qnType = textBytes "result"

/-- Stanzas are printed after the session result. -/
structure InOrder (h : List Mark) : Prop where
  after : ∀ a m b, h = a ++ m :: b → m.stanza?.isSome = true → .opened ∈ a
  opened : ∀ a b, h = a ++ .opened :: b → SessionGiven a

@[simp] theorem stanzasOf_append (h h' : List Mark) :
    stanzasOf (h ++ h') = stanzasOf h ++ stanzasOf h' := List.filterMap_append

@[simp] theorem printed_append (h h' : List Mark) :
    printed (h ++ h') = printed h ++ printed h' := List.flatMap_append

@[simp] theorem printed_one (m : Mark) : printed [m] = m.bytes := by simp [printed]

@[simp] theorem handed_append (calls calls' : List HandlerCall) :
    handed (calls ++ calls') = handed calls ++ handed calls' := List.flatMap_append

@[simp] theorem handed_startTls (dom : Text) : handed [.startTls dom] = [] := rfl

theorem InOrder.snoc {h : List Mark} (ho : InOrder h) {m : Mark}
    (hm : m.stanza?.isSome = true → .opened ∈ h) (hs : m = .opened → SessionGiven h) :
    InOrder (h ++ [m]) where
  after := fun a x b hab hx => by
    rcases snoc_eq_append_cons hab with ⟨b', hb⟩ | ⟨rfl, rfl⟩
    · exact ho.after a x b' hb hx
    · exact hm hx
  opened := fun a b hab => by
    rcases snoc_eq_append_cons hab with ⟨b', hb⟩ | ⟨rfl, rfl⟩
    · exact ho.opened a b' hb
    · exact hs rfl

theorem InOrder.plain {h : List Mark} (ho : InOrder h) {m : Mark} (hm : m.stanza? = none)
    (hs : m ≠ .opened) : InOrder (h ++ [m]) :=
  ho.snoc (fun hx => by simp [hm] at hx) fun he => absurd he hs

namespace XmppEngineImpl

variable {E : Expat} {S : SaslHandler} {e e' : XmppEngineImpl E S}
variable {n : ℕ} {c : List State} {t : XmppLoginTask S}

@[simp] theorem handed_flushed (closing : Bool) : handed (e.flushed closing) = e.output := by
  rcases h : e.output with _ | ⟨b, bytes⟩ <;> cases closing <;> simp [flushed, handed, h]

theorem flushed_closing (e : XmppEngineImpl E S) :
    e.flushed true = e.flushed false ++ [.closeConnection] := by simp [flushed]

theorem flushed_open (e : XmppEngineImpl E S) : .closeConnection ∉ e.flushed false := by
  by_cases ho : e.output.length > 0 <;> simp [flushed, ho]

/-! ### What the handlers are told -/

/-- Within `n` calls, with the session handler told of the changes `c`: what was
printed is handed over or kept, and a handler that is gone was told to close last. -/
structure Told (n : ℕ) (c : List State) (e : XmppEngineImpl E S) : Prop where
  entered : e.engineEntered = n
  changes : e.stateChanges = c
  session : e.sessionHandler = true
  bytes : handed e.calls ++ e.output = printed e.history
  there : e.outputHandler = true → .closeConnection ∉ e.calls
  gone : e.outputHandler = false → e.state = .closed ∧ e.output = [] ∧
    ∃ calls, e.calls = calls ++ [.closeConnection] ∧ .closeConnection ∉ calls

theorem Told.handler (h : e.Told n c) (hs : e.state ≠ .closed) : e.outputHandler = true := by
  by_contra hn
  exact hs (h.gone (by simpa using hn)).1

theorem Told.congr (h : e.Told n c) (hent : e'.engineEntered = e.engineEntered)
    (hch : e'.stateChanges = e.stateChanges) (hse : e'.sessionHandler = e.sessionHandler)
    (hca : e'.calls = e.calls) (hout : e'.output = e.output) (hhi : e'.history = e.history)
    (hoh : e'.outputHandler = e.outputHandler)
    (hst : e'.state = e.state ∨ e'.state = .closed) : e'.Told n c where
  entered := hent.trans h.entered
  changes := hch.trans h.changes
  session := hse.trans h.session
  bytes := by rw [hca, hout, hhi]; exact h.bytes
  there := by rw [hoh, hca]; exact h.there
  gone := fun hn => by
    obtain ⟨hs, ho, hcs⟩ := h.gone (hoh ▸ hn)
    refine ⟨?_, hout.trans ho, hca ▸ hcs⟩
    rcases hst with hst | hst
    · exact hst.trans hs
    · exact hst

theorem Told.enter (h : e.Told n c) : e.enter.Told (n + 1) c :=
  ⟨congrArg (· + 1) h.entered, h.changes, h.session, h.bytes, h.there, h.gone⟩

theorem Told.print (h : e.Told n c) (ho : e.outputHandler = true) (p : Piece) :
    (e.print p).Told n c where
  entered := h.entered
  changes := h.changes
  session := h.session
  bytes := by
    show handed e.calls ++ (e.output ++ p.text) = printed (e.history ++ [.out p])
    rw [← List.append_assoc, h.bytes, printed_append, printed_one]
    rfl
  there := h.there
  gone := fun hn => absurd (hn.symm.trans ho) (by simp)

theorem Told.prints (h : e.Told n c) (ho : e.outputHandler = true) (l : List XmlElement) :
    (l.foldl (fun e stanza => e.print (.stanza stanza)) e).Told n c := by
  induction l generalizing e with
  | nil => exact h
  | cons x l ih => exact ih (h.print ho _) ho

theorem Told.mark (h : e.Told n c) {m : Mark} (hm : m.bytes = []) :
    Told n c { e with history := e.history ++ [m] } :=
  ⟨h.entered, h.changes, h.session, by simpa [hm] using h.bytes, h.there, h.gone⟩

theorem Told.modifyLogin (h : e.Told n c) (f : XmppLoginTask S → XmppLoginTask S) :
    (e.modifyLogin f).Told n c := h.congr rfl rfl rfl rfl rfl rfl rfl (.inl rfl)

theorem Told.signalError (h : e.Told n c) (err : Error) (subcode : ℤ) :
    (e.signalError err subcode).Told n c := by
  unfold XmppEngineImpl.signalError
  split_ifs
  · exact h.congr rfl rfl rfl rfl rfl rfl rfl (.inr rfl)
  · exact h

theorem Told.toldTls (h : e.Told n c) (ho : e.outputHandler = true) (dom : Text) :
    (e.toldTls dom).Told n c where
  entered := h.entered
  changes := h.changes
  session := h.session
  bytes := by
    show handed (e.calls ++ [.startTls dom]) ++ e.output = printed (e.history ++ [.startTls])
    simpa [Mark.bytes] using h.bytes
  there := fun _ => by
    show HandlerCall.closeConnection ∉ e.calls ++ [.startTls dom]
    simpa using h.there ho
  gone := fun hn => absurd (hn.symm.trans ho) (by simp)

/-- The change that an exit tells. -/
def change (n : ℕ) (entry state : State) : List State :=
  if n = 0 ∧ state ≠ entry then [state] else []

theorem Told.exit (h : e.Told (n + 1) c) (entry : State) :
    (e.exit entry).Told n (c ++ change n entry e.state) := by
  have hent : e.engineEntered - 1 = n := by rw [h.entered]; rfl
  refine ⟨by rw [exit_engineEntered, hent], ?_, by rw [exit_eq]; exact h.session, ?_, ?_, ?_⟩
  · rw [exit_eq]
    show e.stateChanges ++ _ = _
    simp only [hent, h.changes, h.session, change, true_and]
  · rw [exit_eq]
    by_cases hf : e.outputHandler = true ∧ e.Flushes entry
    · simp only [if_pos hf, handed_append, handed_flushed, List.append_nil]
      exact h.bytes
    · simp only [if_neg hf, List.append_nil]
      exact h.bytes
  · rw [exit_eq]
    intro ho
    -- the handler stays, so that it is not told to close
    have ho : e.outputHandler = true ∧ decide (e.state ≠ entry ∧ e.state = .closed) = false := by
      rwa [Bool.and_eq_true, Bool.not_eq_true'] at ho
    simp only [ho.2, List.mem_append, not_or]
    refine ⟨h.there ho.1, ?_⟩
    split_ifs
    · exact e.flushed_open
    · exact List.not_mem_nil
  · rw [exit_eq]
    intro hn
    by_cases ho : e.outputHandler = true
    · -- the handler is dropped here
      have hcl : e.state ≠ entry ∧ e.state = .closed := by simpa [ho] using hn
      have hf : e.outputHandler = true ∧ e.Flushes entry := ⟨ho, .inl hcl⟩
      refine ⟨hcl.2, if_pos hf, e.calls ++ e.flushed false, ?_, ?_⟩
      · simp only [if_pos hf, decide_eq_true hcl, flushed_closing, List.append_assoc]
      · rw [List.mem_append, not_or]
        exact ⟨h.there ho, e.flushed_open⟩
    · have hno : ¬(e.outputHandler = true ∧ e.Flushes entry) := fun hf => ho hf.1
      obtain ⟨hs, hout, hcs⟩ := h.gone (by simpa using ho)
      refine ⟨hs, ?_, ?_⟩
      · simp only [if_neg hno]
        exact hout
      · simpa only [if_neg hno, List.append_nil] using hcs

/-! ### Where the stanzas are -/

/-- The login task has all stanzas, and the session result has not come. -/
structure Pending (e : XmppEngineImpl E S) (t : XmppLoginTask S) : Prop where
  running : t.state ≠ .done
  notOpened : .opened ∉ e.history
  notOpen : e.state ≠ .open_
  unsent : stanzasOf e.history = []
  queued : t.queuedStanzas = e.accepted
  asked : t.state = .sessionRequested → .out (.sessionIq t.iqId) ∈ e.history

/-- The login is over: all stanzas have been printed, or none and none will be. -/
def Ended (e : XmppEngineImpl E S) : Prop :=
  (.opened ∈ e.history ∧ stanzasOf e.history = e.accepted) ∨
    (e.state = .closed ∧ .opened ∉ e.history ∧ stanzasOf e.history = [])

/-- The stanzas are in the login task or printed, in order. -/
structure Standing (e : XmppEngineImpl E S) : Prop where
  order : InOrder e.history
  pending : ∀ t, e.loginTask = some t → e.Pending t
  ended : e.loginTask = none → e.Ended

theorem Ended.congr (h : e.Ended) (hhi : e'.history = e.history)
    (hac : e'.accepted = e.accepted) (hst : e'.state = e.state ∨ e'.state = .closed) :
    e'.Ended := by
  unfold Ended at h ⊢
  rw [hhi, hac]
  refine h.imp_right fun hl => ⟨?_, hl.2⟩
  rcases hst with hst | hst
  · exact hst.trans hl.1
  · exact hst

theorem Pending.congr (h : e.Pending t) (hhi : e'.history = e.history)
    (hac : e'.accepted = e.accepted) (hst : e'.state = e.state ∨ e'.state = .closed) :
    e'.Pending t where
  running := h.running
  notOpened := hhi ▸ h.notOpened
  notOpen := by
    rcases hst with hst | hst
    · exact hst ▸ h.notOpen
    · simp [hst]
  unsent := hhi ▸ h.unsent
  queued := h.queued.trans hac.symm
  asked := hhi ▸ h.asked

theorem Standing.congr (h : e.Standing) (hhi : e'.history = e.history)
    (hac : e'.accepted = e.accepted) (hlo : e'.loginTask = e.loginTask)
    (hst : e'.state = e.state ∨ e'.state = .closed) : e'.Standing where
  order := hhi ▸ h.order
  pending := fun t ht => (h.pending t (hlo ▸ ht)).congr hhi hac hst
  ended := fun hn => (h.ended (hlo ▸ hn)).congr hhi hac hst

theorem Standing.exit (h : e.Standing) (entry : State) : (e.exit entry).Standing :=
  h.congr (exit_history entry) (by rw [exit_eq]) (exit_loginTask entry) (.inl (exit_state entry))

theorem Standing.print (h : e.Standing) {p : Piece} (hp : (Mark.out p).stanza? = none)
    (hn : e.loginTask = none) : (e.print p).Standing where
  order := h.order.plain hp (by simp)
  pending := fun t ht => absurd (hn.symm.trans ht) (by simp)
  ended := fun _ => by
    show (Mark.opened ∈ e.history ++ [.out p] ∧ stanzasOf (e.history ++ [.out p]) = e.accepted) ∨
      (e.state = .closed ∧ Mark.opened ∉ e.history ++ [.out p] ∧
        stanzasOf (e.history ++ [.out p]) = [])
    have hst : stanzasOf [.out p] = [] := by simp [stanzasOf, hp]
    rw [stanzasOf_append, hst, List.append_nil]
    simpa [Ended] using h.ended hn

theorem Standing.signalError (h : e.Standing) (err : Error) (subcode : ℤ) :
    (e.signalError err subcode).Standing := by
  unfold XmppEngineImpl.signalError
  split_ifs
  · exact h.congr rfl rfl rfl (.inr rfl)
  · exact h

/-! ### The user's calls -/

/-- What a call of the user can do: nothing, or something within an `EnterExit`. -/
inductive Within (e : XmppEngineImpl E S) : XmppEngineImpl E S → Prop
  /-- The login task takes the stanza. -/
  | queue (entries : List XmppIqEntry) (element : XmlElement) : e.loginTask.isSome = true →
      Within e (({ e with iqEntries := entries }.enter.accept element).modifyLogin fun t =>
        { t with queuedStanzas := t.queuedStanzas ++ [element] })
  /-- The stanza is printed. -/
  | send (entries : List XmppIqEntry) (element : XmlElement) : e.loginTask = none →
      Within e (({ e with iqEntries := entries }.enter.accept element).print (.stanza element))
  | raw (text : Text) : e.loginTask = none → Within e (e.enter.print (.raw text))
  | finish : e.state = .open_ → Within e { e.enter.print .streamEnd with state := .closed }
  | abandon : e.state ≠ .open_ → Within e { e.enter with state := .closed }
  | error (err : Error) (subcode : ℤ) : Within e (e.enter.signalError err subcode)

theorem sendStanza_within (hs : e.state ≠ .closed) (entries : List XmppIqEntry)
    (element : XmlElement) :
    ∃ d, Within e d ∧ { e with iqEntries := entries }.sendStanza element = d.exit e.state := by
  unfold sendStanza
  rw [if_neg hs]
  by_cases hl : e.loginTask.isSome = true
  · exact ⟨_, .queue entries element hl, by simp only [enter, accept, hl, if_true]⟩
  · have hn : e.loginTask = none := Option.not_isSome_iff_eq_none.mp hl
    exact ⟨_, .send entries element hn, by simp [enter, accept, hn]⟩

theorem userCall_within (e : XmppEngineImpl E S) (call : UserCall) :
    e.userCall call = e ∨
      (e.state ≠ .closed ∧ ∃ d, Within e d ∧ e.userCall call = d.exit e.state) := by
  by_cases hs : e.state = .closed
  · refine .inl ?_
    cases call <;> simp [userCall, sendStanza, sendIq, sendRaw, disconnect, connectionClosed, hs]
  cases call with
  | sendStanza element => exact .inr ⟨hs, sendStanza_within hs e.iqEntries element⟩
  | sendIq element =>
    show e.sendIq element = e ∨ (e.state ≠ .closed ∧ ∃ d, Within e d ∧ e.sendIq element = _)
    unfold sendIq
    rw [if_neg hs]
    split_ifs
    iterate 3 exact .inl rfl
    exact .inr ⟨hs, sendStanza_within hs _ element⟩
  | sendRaw text =>
    show e.sendRaw text = e ∨ (e.state ≠ .closed ∧ ∃ d, Within e d ∧ e.sendRaw text = _)
    unfold sendRaw
    split_ifs with hl
    · exact .inl rfl
    · have hn : e.loginTask = none := Option.not_isSome_iff_eq_none.mp fun h => hl (.inr h)
      exact .inr ⟨hs, _, .raw text hn, rfl⟩
  | disconnect =>
    refine .inr ⟨hs, ?_⟩
    show ∃ d, Within e d ∧ e.disconnect = _
    unfold disconnect
    rw [if_pos hs]
    by_cases ho : e.state = .open_
    · refine ⟨_, .finish ho, ?_⟩
      have ho' : e.enter.state = .open_ := ho
      simp only [ho', if_true]
    · refine ⟨_, .abandon ho, ?_⟩
      have ho' : ¬e.enter.state = .open_ := ho
      simp only [ho', if_false]
  | connectionClosed subcode =>
    refine .inr ⟨hs, ?_⟩
    show ∃ d, Within e d ∧ e.connectionClosed subcode = _
    unfold connectionClosed
    rw [if_pos hs]
    split_ifs
    · exact ⟨_, .error _ _, rfl⟩
    · exact ⟨_, .error _ _, rfl⟩

theorem Within.told {d : XmppEngineImpl E S} (hd : Within e d) (h : e.Told n c)
    (hs : e.state ≠ .closed) : d.Told (n + 1) c := by
  have hent := h.enter
  have ho := h.handler hs
  cases hd with
  | queue entries element hl => exact hent.congr rfl rfl rfl rfl rfl rfl rfl (.inl rfl)
  | send entries element hn =>
    have ha : Told (n + 1) c ({ e with iqEntries := entries }.enter.accept element) :=
      hent.congr rfl rfl rfl rfl rfl rfl rfl (.inl rfl)
    exact ha.print ho _
  | raw text hn => exact hent.print ho _
  | finish _ => exact (hent.print ho _).congr rfl rfl rfl rfl rfl rfl rfl (.inr rfl)
  | abandon _ => exact hent.congr rfl rfl rfl rfl rfl rfl rfl (.inr rfl)
  | error err subcode => exact hent.signalError err subcode

theorem Within.standing {d : XmppEngineImpl E S} (hd : Within e d) (h : e.Standing)
    (hs : e.state ≠ .closed) : d.Standing := by
  have hent : e.enter.Standing := h.congr rfl rfl rfl (.inl rfl)
  cases hd with
  | queue entries element hl =>
    obtain ⟨t, ht⟩ := Option.isSome_iff_exists.mp hl
    have hp := h.pending t ht
    refine ⟨h.order, fun t' ht' => ?_, fun hn => ?_⟩
    · obtain rfl : { t with queuedStanzas := t.queuedStanzas ++ [element] } = t' := by
        simpa [modifyLogin, accept, enter, ht] using ht'
      exact ⟨hp.running, hp.notOpened, hp.notOpen, hp.unsent,
        congrArg (· ++ [element]) hp.queued, hp.asked⟩
    · simp [modifyLogin, accept, enter, ht] at hn
  | send entries element hn =>
    -- the login is over and the engine is not closed, so that it has opened
    obtain ⟨hopened, hsent⟩ := (h.ended hn).resolve_right fun hl => hs hl.1
    refine ⟨h.order.snoc (fun _ => hopened) (fun he => by cases he), fun t ht => ?_,
      fun _ => .inl ⟨List.mem_append_left _ hopened, ?_⟩⟩
    · exact absurd (hn.symm.trans ht) (by simp)
    · show stanzasOf (e.history ++ [.out (.stanza element)]) = e.accepted ++ [element]
      rw [stanzasOf_append, hsent]
      rfl
  | raw text hn => exact hent.print rfl hn
  | finish ho =>
    have hn : e.loginTask = none := by
      by_contra hl
      obtain ⟨t, ht⟩ := Option.ne_none_iff_exists'.mp hl
      exact (h.pending t ht).notOpen ho
    have hpr : (e.enter.print .streamEnd).Standing := hent.print rfl hn
    exact hpr.congr rfl rfl rfl (.inr rfl)
  | abandon _ => exact hent.congr rfl rfl rfl (.inr rfl)
  | error err subcode => exact hent.signalError err subcode

theorem Standing.userCall (h : e.Standing) (hw : e.Told n c) (call : UserCall) :
    (e.userCall call).Standing ∧
      (e.userCall call).Told n (c ++ change n e.state (e.userCall call).state) := by
  rcases userCall_within e call with hu | ⟨hs, d, hd, hu⟩
  · have hc : change n e.state e.state = [] := if_neg (by simp)
    rw [hu, hc, List.append_nil]
    exact ⟨h, hw⟩
  · rw [hu, exit_state]
    exact ⟨(hd.standing h hs).exit _, (hd.told hw hs).exit _⟩

theorem change_nested (hn : n ≠ 0) (entry state : State) : change n entry state = [] :=
  if_neg fun hc => hn hc.1

theorem Standing.userCalls (h : e.Standing) (hn : n ≠ 0) (hw : e.Told n c)
    (calls : List UserCall) : (e.userCalls calls).Standing ∧ (e.userCalls calls).Told n c := by
  induction calls generalizing e with
  | nil => exact ⟨h, hw⟩
  | cons call calls ih =>
    obtain ⟨h', hw'⟩ := h.userCall hw call
    rw [change_nested hn, List.append_nil] at hw'
    exact ih h' hw'

/-! ### The login task -/

/-- The login task is at work. -/
structure Advancing (n : ℕ) (c : List State) (t : XmppLoginTask S) (e : XmppEngineImpl E S) :
    Prop where
  login : e.loginTask = some t
  told : e.Told n c
  order : InOrder e.history
  pending : e.Pending t
  opening : e.state = .opening

/-- The login task is done. -/
structure Finished (n : ℕ) (c : List State) (e : XmppEngineImpl E S) : Prop where
  done : ∃ t, e.loginTask = some t ∧ t.state = .done
  told : e.Told n c
  order : InOrder e.history
  ended : e.Ended

theorem Advancing.handler (h : e.Advancing n c t) : e.outputHandler = true :=
  h.told.handler (by simp [h.opening])

theorem Pending.mark (h : e.Pending t) {m : Mark} (hm : m.stanza? = none) (ho : m ≠ .opened) :
    Pending { e with history := e.history ++ [m] } t where
  running := h.running
  notOpened := by simpa [ho.symm] using h.notOpened
  notOpen := h.notOpen
  unsent := by
    have hst : stanzasOf [m] = [] := by simp [stanzasOf, hm]
    show stanzasOf (e.history ++ [m]) = []
    rw [stanzasOf_append, h.unsent, hst, List.append_nil]
  queued := h.queued
  asked := fun hs => List.mem_append_left _ (h.asked hs)

theorem Advancing.print (h : e.Advancing n c t) {p : Piece} (hp : (Mark.out p).stanza? = none) :
    (e.print p).Advancing n c t where
  login := h.login
  told := h.told.print h.handler p
  order := h.order.plain hp (by simp)
  pending := (h.pending.mark hp (by simp)).congr rfl rfl (.inl rfl)
  opening := h.opening

theorem Advancing.modify (h : e.Advancing n c t) {f : XmppLoginTask S → XmppLoginTask S}
    (hd : (f t).state ≠ .done) (hq : (f t).queuedStanzas = t.queuedStanzas)
    (ha : (f t).state = .sessionRequested → .out (.sessionIq (f t).iqId) ∈ e.history) :
    (e.modifyLogin f).Advancing n c (f t) where
  login := by rw [modifyLogin, h.login]; rfl
  told := h.told.modifyLogin f
  order := h.order
  pending := ⟨hd, h.pending.notOpened, h.pending.notOpen, h.pending.unsent,
    hq.trans h.pending.queued, ha⟩
  opening := h.opening

theorem Advancing.take (h : e.Advancing n c t) (el : XmlElement) :
    (e.take el).Advancing n c { t with pelStanza := none } := by
  have hm := h.modify (f := fun t => { t with pelStanza := none }) h.pending.running rfl
    h.pending.asked
  exact ⟨hm.login, hm.told.mark rfl, hm.order.plain rfl (by simp),
    hm.pending.mark rfl (by simp), hm.opening⟩

theorem Advancing.failure (h : e.Advancing n c t) (err : Error) :
    (e.failure err).Finished n c where
  done := ⟨_, failure_login h.login err, rfl⟩
  told := (h.told.modifyLogin _).signalError err 0
  order := by rw [failure_history]; exact h.order
  ended := .inr ⟨failure_state err, by rw [failure_history]; exact h.pending.notOpened,
    by rw [failure_history]; exact h.pending.unsent⟩

theorem Advancing.startTls (h : e.Advancing n c t) (dom : Text) :
    (e.startTls dom []).Advancing n c t := by
  rw [startTls_eq, if_pos h.handler]
  have ht := h.told.toldTls h.handler
    (if e.settings.tlsServerDomain = [] then dom else e.settings.tlsServerDomain)
  have hp := h.pending.mark (m := .startTls) rfl (by simp)
  exact ⟨h.login, ht.congr rfl rfl rfl rfl rfl rfl rfl (.inl rfl),
    h.order.plain rfl (by simp), hp.congr rfl rfl (.inl rfl), h.opening⟩

theorem prints_accepted (l : List XmlElement) :
    (l.foldl (fun e stanza => e.print (.stanza stanza)) e).accepted = e.accepted := by
  induction l generalizing e with
  | nil => rfl
  | cons x l ih => exact ih

theorem prints_sent (l : List XmlElement) :
    stanzasOf (l.foldl (fun e stanza => e.print (.stanza stanza)) e).history =
      stanzasOf e.history ++ l := by
  induction l generalizing e with
  | nil => exact (List.append_nil _).symm
  | cons x l ih =>
    have hone : stanzasOf (e.print (.stanza x)).history = stanzasOf e.history ++ [x] := by
      show stanzasOf (e.history ++ [.out (.stanza x)]) = _
      rw [stanzasOf_append]
      rfl
    rw [List.foldl_cons, ih, hone, List.append_assoc]
    rfl

theorem prints_order (h : InOrder e.history) (ho : .opened ∈ e.history) (l : List XmlElement) :
    InOrder (l.foldl (fun e stanza => e.print (.stanza stanza)) e).history := by
  induction l generalizing e with
  | nil => exact h
  | cons x l ih =>
    have hone : InOrder (e.print (.stanza x)).history :=
      h.snoc (fun _ => ho) fun he => by cases he
    exact ih hone (List.mem_append_left _ ho)

theorem Advancing.session (h : e.Advancing n c t) (hs : t.state = .sessionRequested)
    {el : XmlElement} (hans : answers el t.iqId = true)
    (hres : el.attr qnType = textBytes "result") :
    Finished n c ((t.queuedStanzas.foldl (fun e stanza => e.print (.stanza stanza))
      ((e.take el).signalBound t.fullJid)).modifyLogin fun t =>
        { t with queuedStanzas := [], state := .done }) := by
  have ht := h.take el
  have hgiven : SessionGiven (e.take el).history :=
    ⟨e.history, el, t.iqId, rfl, h.pending.asked hs, hans, hres⟩
  -- the engine after `SignalBound`
  have hb : (e.take el).signalBound t.fullJid = { e.take el with
      boundJid := t.fullJid, state := .open_, history := (e.take el).history ++ [.opened] } :=
    if_pos ht.opening
  rw [hb]
  have horder : InOrder ((e.take el).history ++ [.opened]) :=
    ht.order.snoc (fun hx => by cases hx) fun _ => hgiven
  have htold : Told n c { e.take el with
      boundJid := t.fullJid, state := .open_, history := (e.take el).history ++ [.opened] } := by
    have hm := ht.told.mark (m := .opened) rfl
    exact ⟨hm.entered, hm.changes, hm.session, hm.bytes, hm.there,
      fun hn => absurd (hn.symm.trans ht.handler) (by simp)⟩
  have hopened : Mark.opened ∈ (e.take el).history ++ [.opened] := by simp
  refine ⟨⟨{ t with pelStanza := none, queuedStanzas := [], state := .done }, ?_, rfl⟩,
    (htold.prints ht.handler _).modifyLogin _, prints_order horder hopened _, .inl ⟨?_, ?_⟩⟩
  · rw [modifyLogin, prints_login]
    show Option.map _ (e.take el).loginTask = _
    rw [ht.login]
    rfl
  · exact (prints_frame _).history.subset hopened
  · refine (prints_sent _).trans (Eq.trans ?_ (prints_accepted _).symm)
    show stanzasOf ((e.take el).history ++ [.opened]) ++ t.queuedStanzas = e.accepted
    rw [stanzasOf_append, ht.pending.unsent, h.pending.queued]
    rfl

theorem Turn.advancing {r : XmppEngineImpl E S × Bool} (hturn : Turn e t [] r)
    (h : e.Advancing n c t) : (∃ t', r.1.Advancing n c t') ∨ (r.2 = false ∧ r.1.Finished n c) := by
  cases hturn with
  | wait hw => exact .inl ⟨t, h⟩
  | start hs =>
    have hr : Advancing n c t { e with raisedReset := true } :=
      ⟨h.login, h.told.congr rfl rfl rfl rfl rfl rfl rfl (.inl rfl), h.order,
        h.pending.congr rfl rfl (.inl rfl), h.opening⟩
    have hf := hr.modify (f := fun t => { t with pelFeatures := none }) h.pending.running rfl
      h.pending.asked
    have hp := hf.print (p := .streamStart
      (if e.settings.tlsServerHostname = [] then e.domain else e.settings.tlsServerHostname)
      (if e.settings.lang = [] then textBytes "*" else e.settings.lang)) rfl
    exact .inl ⟨_, hp.modify (f := fun t => { t with state := .streamstartSent }) (by simp) rfl
      (fun hs => by cases hs)⟩
  | fail err hw => exact .inr ⟨rfl, h.failure err⟩
  | reject el err hp => exact .inr ⟨rfl, (h.take el).failure err⟩
  | started el hs hp hst hacc =>
    exact .inl ⟨_, (h.take el).modify (f := fun t =>
      { t with streamId := el.attr qnId, state := .startedXmpp }) (by simp) rfl
        (fun hs => by cases hs)⟩
  | features el next hs hp hn hnext =>
    have hne : next ≠ .done ∧ next ≠ .sessionRequested := by
      rcases hnext with rfl | ⟨-, rfl | ⟨rfl, -⟩⟩ <;> simp
    have hf := (h.take el).modify (f := fun t => { t with pelFeatures := some el })
      h.pending.running rfl (h.take el).pending.asked
    exact .inl ⟨_, hf.modify (f := fun t => { t with state := next }) hne.1 rfl
      (fun hs => absurd hs hne.2)⟩
  | askTls hs hf =>
    exact .inl ⟨_, (h.print (p := .starttls) rfl).modify
      (f := fun t => { t with state := .tlsRequested }) (by simp) rfl (fun hs => by cases hs)⟩
  | proceed el hs hp hn =>
    have ht := (h.take el).startTls e.domain
    have hn : Advancing n c { t with pelStanza := none }
        { (e.take el).startTls e.domain [] with tlsNeeded := false } :=
      ⟨ht.login, ht.told.congr rfl rfl rfl rfl rfl rfl rfl (.inl rfl), ht.order,
        ht.pending.congr rfl rfl (.inl rfl), ht.opening⟩
    exact .inl ⟨_, hn.modify (f := fun t => { t with state := .init }) (by simp) rfl
      (fun hs => by cases hs)⟩
  | auth auth mech hs =>
    exact .inl ⟨_, (h.print (p := .saslAuth auth) rfl).modify
      (f := fun t => { t with saslMech := some mech, state := .saslRunning }) (by simp) rfl
        (fun hs => by cases hs)⟩
  | respond el response mech hs hp =>
    exact .inl ⟨_, ((h.take el).print (p := .saslResponse response) rfl).modify
      (f := fun t => { t with saslMech := some mech, state := .saslRunning }) (by simp) rfl
        (fun hs => by cases hs)⟩
  | success el hs hp hn =>
    exact .inl ⟨_, (h.take el).modify
      (f := fun t => { t with authNeeded := false, state := .init }) (by simp) rfl
        (fun hs => by cases hs)⟩
  | askBind hs =>
    have hid : Advancing n c t { e with nextId := e.nextId + 1 } :=
      ⟨h.login, h.told.congr rfl rfl rfl rfl rfl rfl rfl (.inl rfl), h.order,
        h.pending.congr rfl rfl (.inl rfl), h.opening⟩
    exact .inl ⟨_, (hid.print (p := .bindIq e.nextIdText e.settings.requestedResource) rfl).modify
      (f := fun t => { t with iqId := e.nextIdText, state := .bindRequested }) (by simp) rfl
        (fun hs => by cases hs)⟩
  | skip el hs hp => exact .inl ⟨_, h.take el⟩
  | bound el jid hs hp hans hjid =>
    have ht := h.take el
    have hid : Advancing n c { t with pelStanza := none }
        { e.take el with nextId := e.nextId + 1 } :=
      ⟨ht.login, ht.told.congr rfl rfl rfl rfl rfl rfl rfl (.inl rfl), ht.order,
        ht.pending.congr rfl rfl (.inl rfl), ht.opening⟩
    refine .inl ⟨_, (hid.print (p := .sessionIq e.nextIdText) rfl).modify (f := fun t =>
      { t with fullJid := jid, iqId := e.nextIdText, state := .sessionRequested }) (by simp) rfl
        (fun _ => ?_)⟩
    exact List.mem_append_right _ (List.mem_singleton_self _)
  | session el hs hp hans hres => exact .inr ⟨rfl, h.session hs hans hres⟩

theorem Advancing.advance (h : e.Advancing n c t) (fuel : ℕ) :
    (∃ t', (advance [] fuel e).Advancing n c t') ∨ (advance [] fuel e).Finished n c := by
  induction fuel generalizing e t with
  | zero => exact .inl ⟨t, h⟩
  | succ fuel ih =>
    have hturn := (advanceStep_turn (e := e) t []).advancing h
    rw [advance_succ h.login]
    split
    next hgo =>
      obtain ⟨t', ht'⟩ := hturn.resolve_right fun hf => by simp [hf.1] at hgo
      exact ih ht'
    next hgo => exact hturn.imp_right And.right

/-- Within a call: as long as the login task is there, the engine is opening, or it has
an error. -/
structure Heard (n : ℕ) (c : List State) (e : XmppEngineImpl E S) : Prop where
  told : e.Told n c
  standing : e.Standing
  live : ∀ t, e.loginTask = some t → e.state = .opening ∨ e.hasError = true

theorem Advancing.incoming (h : e.Advancing n c t) (element : Option XmlElement)
    (isStart : Bool) : (e.loginIncoming element isStart []).Heard n c := by
  have hoffer : (e.offer element isStart).Advancing n c
      { t with pelStanza := element, isStart := isStart } :=
    h.modify (f := fun t => { t with pelStanza := element, isStart := isStart })
      h.pending.running rfl h.pending.asked
  have hadv := hoffer.advance 4
  obtain ⟨t', ht', ⟨hd, heq⟩ | ⟨hw, hp, heq⟩⟩ := loginIncoming_cases h.login element isStart []
  · -- the task is done and deleted
    obtain ⟨_, htold, horder, hended⟩ := hadv.resolve_left fun hf => by
      obtain ⟨t'', hadv'⟩ := hf
      have hsame : t' = t'' := Option.some.inj (ht'.symm.trans hadv'.login)
      exact hadv'.pending.running (hsame ▸ hd)
    rw [heq]
    refine ⟨htold.congr rfl rfl rfl rfl rfl rfl rfl (.inl rfl),
      ⟨horder, fun t ht => (by cases ht), fun _ => hended.congr rfl rfl (.inl rfl)⟩,
      fun t ht => by cases ht⟩
  · obtain ⟨t'', hadv'⟩ := hadv.resolve_right fun hf => by
      obtain ⟨t'', ht'', hd⟩ := hf.done
      have hsame : t' = t'' := Option.some.inj (ht'.symm.trans ht'')
      simp [hsame, hd, Waits] at hw
    have hclear := hadv'.modify (f := fun t => { t with pelStanza := none, isStart := false })
      hadv'.pending.running rfl hadv'.pending.asked
    rw [heq]
    refine ⟨hclear.told, ⟨hclear.order, fun t ht => ?_, fun hn => ?_⟩,
      fun t ht => .inl hclear.opening⟩
    · have hsame := Option.some.inj (ht.symm.trans hclear.login)
      rw [hsame]
      exact hclear.pending
    · exact absurd (hn.symm.trans hclear.login) (by simp)

/-! ### Chunks -/

/-- The output handler does not call the engine: until the login is done the user's code
is reached through `StartTls` only. -/
def Undisturbed : XmppEngineImpl E S → List (StanzaEvent × Reaction) → Prop
  | _, [] => True
  | e, ev :: events =>
    (e.loginTask.isSome = true → ev.2.calls = []) ∧ Undisturbed (e.incoming ev.1 ev.2) events

instance instDecidableUndisturbed : ∀ (e : XmppEngineImpl E S) (events : List (StanzaEvent × Reaction)),
    Decidable (e.Undisturbed events)
  | _, [] => .isTrue trivial
  | e, ev :: events =>
    have := instDecidableUndisturbed (e.incoming ev.1 ev.2) events
    inferInstanceAs (Decidable (_ ∧ _))

theorem Heard.signalError (h : e.Heard n c) (err : Error) (subcode : ℤ) :
    (e.signalError err subcode).Heard n c where
  told := h.told.signalError err subcode
  standing := h.standing.signalError err subcode
  live := by
    unfold XmppEngineImpl.signalError
    split_ifs
    · exact fun _ _ => .inr rfl
    · exact h.live

theorem Delivery.heard {r : Reaction} {event : StanzaEvent} (hd : Delivery e r event e')
    (h : e.Heard n c) (hn : n ≠ 0) (hr : e.loginTask.isSome = true → r.calls = []) :
    e'.Heard n c := by
  -- once the login is done, it stays so
  have hover {d d' : XmppEngineImpl E S} (hf : UserFrame d d') (hl : d.loginTask = none) :
      d'.loginTask = none := by
    obtain ⟨l, hl'⟩ := hf.login
    rw [hl', hl]
    rfl
  have hfree {d : XmppEngineImpl E S} (hl : d.loginTask = none) (t : XmppLoginTask S)
      (ht : d.loginTask = some t) : d.state = .opening ∨ d.hasError = true :=
    absurd (hl.symm.trans ht) (by simp)
  cases hd with
  | ignored _ => exact h
  | login el isStart herr hreset hl hev =>
    obtain ⟨t, ht⟩ := Option.isSome_iff_exists.mp hl
    have hopening : e.state = .opening := (h.live t ht).resolve_right (by simp [herr])
    rw [hr hl]
    exact Advancing.incoming ⟨ht, h.told, h.standing.order, h.standing.pending t ht, hopening⟩ _ _
  | error err => exact h.signalError err 0
  | streamError stanza =>
    unfold signalStreamError
    split_ifs
    · have hs : Heard n c { e with streamError := some stanza } :=
        ⟨h.told.congr rfl rfl rfl rfl rfl rfl rfl (.inl rfl),
          h.standing.congr rfl rfl rfl (.inl rfl), h.live⟩
      exact hs.signalError _ _
    · exact h
  | user entries herr hl =>
    have hs : Standing { e with iqEntries := entries } := h.standing.congr rfl rfl rfl (.inl rfl)
    have ht : Told n c { e with iqEntries := entries } :=
      h.told.congr rfl rfl rfl rfl rfl rfl rfl (.inl rfl)
    obtain ⟨hs', ht'⟩ := hs.userCalls hn ht r.calls
    exact ⟨ht', hs', hfree (hover (userCalls_frame _) hl)⟩
  | refuse stanza herr hl =>
    obtain ⟨hs, ht⟩ := h.standing.userCalls hn h.told r.calls
    have hl' := hover (userCalls_frame r.calls) hl
    unfold sendFeatureNotImplemented
    split_ifs
    · exact ⟨ht, hs, hfree hl'⟩
    · have hcall (x : XmlElement) : Heard n c ((e.userCalls r.calls).sendStanza x) := by
        obtain ⟨hs', ht'⟩ := hs.userCall ht (.sendStanza x)
        rw [change_nested hn, List.append_nil] at ht'
        exact ⟨ht', hs', hfree (hover (sendStanza_frame x) hl')⟩
      exact hcall _

theorem Heard.incomingAll (hn : n ≠ 0) (events : List (StanzaEvent × Reaction))
    (h : e.Heard n c) (hu : e.Undisturbed events) : (e.incomingAll events).Heard n c := by
  induction events generalizing e with
  | nil => exact h
  | cons ev events ih => exact ih ((incoming_delivery ev.1 ev.2).heard h hn hu.1) hu.2

/-! ### Runs -/

/-- Between two events. -/
structure AtRest (c : List State) (e : XmppEngineImpl E S) : Prop where
  told : e.Told 0 c
  standing : e.Standing
  clean : e.Clean
  shut : e.state = .closed → e.outputHandler = false

theorem exit_shut {entry : State} (hne : entry ≠ .closed) (hs : (e.exit entry).state = .closed) :
    (e.exit entry).outputHandler = false := by
  rw [exit_state] at hs
  rw [exit_eq]
  have hcl : e.state ≠ entry ∧ e.state = .closed := ⟨fun he => hne (he.symm.trans hs), hs⟩
  show (e.outputHandler && !decide (e.state ≠ entry ∧ e.state = .closed)) = false
  rw [decide_eq_true hcl, Bool.not_true, Bool.and_false]

theorem Heard.exit (h : e.Heard 1 c) {entry : State} (hne : entry ≠ .closed) :
    (e.exit entry).AtRest (c ++ change 0 entry e.state) where
  told := h.told.exit entry
  standing := h.standing.exit entry
  clean := exit_clean h.told.entered.le entry
  shut := exit_shut hne

/-- What the output handler does in an event. -/
def Quiet (e : XmppEngineImpl E S) : Event → Prop
  | .handleInput bytes reaction => e.enter.Undisturbed
      ((e.stanzaParser.parse bytes false).2.mapIdx fun k event => (event, reaction k))
  | .connect | .user _ => True

instance (event : Event) : Decidable (e.Quiet event) :=
  match event with
  | .connect | .user _ => .isTrue trivial
  | .handleInput _ _ => inferInstanceAs (Decidable (e.enter.Undisturbed _))

theorem loginIncoming_none (hl : e.loginTask = none) (element : Option XmlElement)
    (isStart : Bool) (calls : List UserCall) : e.loginIncoming element isStart calls = e := by
  have hm (f : XmppLoginTask S → XmppLoginTask S) : e.modifyLogin f = e := by
    show { e with loginTask := e.loginTask.map f } = e
    rw [hl, Option.map_none, ← hl]
  unfold loginIncoming
  dsimp only
  rw [hm, advance, hl]
  dsimp only
  rw [hm, resetDone, hl]
  rfl

theorem AtRest.connect (h : e.AtRest c) :
    e.connect.AtRest (c ++ change 0 e.state e.connect.state) := by
  unfold XmppEngineImpl.connect
  by_cases hs : e.state = .start
  · rw [if_neg (not_not.mpr hs), exit_state]
    have htold : Told 1 c { e.enter with state := .opening } := by
      have hent := h.told.enter
      refine ⟨hent.entered, hent.changes, hent.session, hent.bytes, hent.there, fun hn => ?_⟩
      have hcl : e.state = .closed := (h.told.gone hn).1
      simp [hs] at hcl
    refine Heard.exit ?_ (by simp [hs])
    cases hl : e.loginTask with
    | none =>
      rw [loginIncoming_none (e := { e.enter with state := .opening }) hl]
      refine ⟨htold, ⟨h.standing.order, fun t ht => ?_, fun _ => .inl ?_⟩, fun _ _ => .inl rfl⟩
      · exact absurd (hl.symm.trans ht) (by simp)
      · exact (h.standing.ended hl).resolve_right fun hlost => by simp [hs] at hlost
    | some t =>
      have hp := h.standing.pending t hl
      have hadv : Advancing 1 c t { e.enter with state := .opening } :=
        ⟨hl, htold, h.standing.order,
          ⟨hp.running, hp.notOpened, by simp, hp.unsent, hp.queued, hp.asked⟩, rfl⟩
      exact hadv.incoming none false
  · rw [if_pos hs, change, if_neg (by simp), List.append_nil]
    exact h

theorem AtRest.handleInput (h : e.AtRest c) {bytes : List Byte} {reaction : ℕ → Reaction}
    (hq : e.Quiet (.handleInput bytes reaction)) :
    (e.handleInput bytes reaction).AtRest
      (c ++ change 0 e.state (e.handleInput bytes reaction).state) := by
  unfold XmppEngineImpl.handleInput
  split_ifs with hs
  · rw [change, if_neg (by simp), List.append_nil]
    exact h
  · have hs : e.state = .opening ∨ e.state = .open_ := by
      by_contra hn
      exact hs (not_or.mp hn)
    have hent : e.enter.Heard 1 c :=
      ⟨h.told.enter, h.standing.congr rfl rfl rfl (.inl rfl),
        fun t ht => .inl (hs.resolve_right (h.standing.pending t ht).notOpen)⟩
    have hall := hent.incomingAll one_ne_zero _ hq
    dsimp only
    rw [exit_state]
    refine Heard.exit ?_ (by rcases hs with hs | hs <;> simp [hs])
    exact ⟨hall.told.congr rfl rfl rfl rfl rfl rfl rfl (.inl rfl),
      hall.standing.congr rfl rfl rfl (.inl rfl), hall.live⟩

theorem AtRest.userCall (h : e.AtRest c) (call : UserCall) :
    (e.userCall call).AtRest (c ++ change 0 e.state (e.userCall call).state) := by
  obtain ⟨hs, ht⟩ := h.standing.userCall h.told call
  refine ⟨ht, hs, userCall_clean h.told.entered h.clean call, ?_⟩
  rcases userCall_within e call with hu | ⟨hne, d, -, hu⟩
  · rw [hu]
    exact h.shut
  · rw [hu]
    exact exit_shut hne

theorem AtRest.act (h : e.AtRest c) (event : Event) (hq : e.Quiet event) :
    (e.act event).AtRest (c ++ change 0 e.state (e.act event).state) := by
  cases event with
  | connect => exact h.connect
  | handleInput bytes reaction => exact h.handleInput hq
  | user call => exact h.userCall call

theorem act_closed (hs : e.state = .closed) (event : Event) : e.act event = e := by
  cases event with
  | connect => simp [act, connect, hs]
  | handleInput bytes reaction => simp [act, handleInput, hs]
  | user call =>
    rcases userCall_within e call with hu | ⟨hne, -⟩
    · exact hu
    · exact absurd hs hne

theorem reach_closed (hs : e.state = .closed) {d : XmppEngineImpl E S}
    (h : Reach (· = e) Step d) : d = e := by
  induction h with
  | init hi => exact hi
  | step _ hn ih =>
    obtain ⟨event, rfl⟩ := hn
    rw [ih, act_closed hs]

/-- A new engine with both handlers. -/
def Prepared (e : XmppEngineImpl E S) : Prop :=
  ∃ settings tlsNeeded, e = (new settings tlsNeeded true).setSessionHandler

/-- One event of a run in which the output handler does not call the engine. -/
def QuietStep (e e' : XmppEngineImpl E S) : Prop := ∃ event, e.Quiet event ∧ e' = e.act event

/-- A run in which the output handler does not call the engine. -/
def QuietRun : XmppEngineImpl E S → List Event → Prop
  | _, [] => True
  | e, event :: events => e.Quiet event ∧ QuietRun (e.act event) events

instance instDecidableQuietRun : ∀ (e : XmppEngineImpl E S) (events : List Event),
    Decidable (e.QuietRun events)
  | _, [] => .isTrue trivial
  | e, event :: events =>
    have := instDecidableQuietRun (e.act event) events
    inferInstanceAs (Decidable (_ ∧ _))

theorem QuietRun.reach {events : List Event} (hq : e.QuietRun events)
    (h : Reach Prepared QuietStep e) : Reach Prepared QuietStep (events.foldl act e) := by
  induction events generalizing e with
  | nil => exact h
  | cons event events ih => exact ih hq.2 (h.step ⟨event, hq.1, rfl⟩)

theorem Prepared.atRest (h : e.Prepared) : e.AtRest [] := by
  obtain ⟨settings, tlsNeeded, rfl⟩ := h
  have hset : (new (E := E) (S := S) settings tlsNeeded true).setSessionHandler =
      { new settings tlsNeeded true with sessionHandler := true } := rfl
  rw [hset]
  refine ⟨⟨rfl, rfl, rfl, rfl, fun _ => List.not_mem_nil, fun hn => by cases hn⟩,
    ⟨⟨fun a m b hab => absurd hab (by simp [new]), fun a b hab => absurd hab (by simp [new])⟩,
      fun t ht => ?_, fun hn => by cases hn⟩, fun _ => rfl, fun hs => by cases hs⟩
  cases ht
  exact ⟨by simp [XmppLoginTask.new], List.not_mem_nil, by simp [new], rfl, rfl,
    fun hs => by cases hs⟩

/-- **Stanzas in order**, between two events of a run. -/
structure Delivered (e : XmppEngineImpl E S) : Prop where
  /-- Stanzas are printed after the engine was opened, -/
  after : ∀ a x b, e.history = a ++ .out (.stanza x) :: b → .opened ∈ a
  /-- which it was by the session result. -/
  opened : ∀ a b, e.history = a ++ .opened :: b → SessionGiven a
  /-- From then on the stanzas that were printed are those that were accepted. -/
  sent : .opened ∈ e.history → stanzasOf e.history = e.accepted
  /-- Until then the login task has them. -/
  queued : .opened ∉ e.history → e.state ≠ .closed →
    ∃ t, e.loginTask = some t ∧ t.queuedStanzas = e.accepted
  /-- None is ever printed when the engine is closed before. -/
  lost : .opened ∉ e.history → e.state = .closed →
    ∀ d, Reach (· = e) Step d → stanzasOf d.history = []
  /-- The output handler was given what was printed. -/
  written : handed e.calls = printed e.history
  /-- It was not told to close, -/
  unclosed : e.state ≠ .closed → .closeConnection ∉ e.calls
  /-- or it was told so once, and last. -/
  closed : e.state = .closed → ∀ d, Reach (· = e) Step d → handed d.calls = printed e.history ∧
    ∃ calls, d.calls = calls ++ [.closeConnection] ∧ .closeConnection ∉ calls
  /-- An event that changes the state tells so once. -/
  changes : ∀ event, e.Quiet event → (e.act event).stateChanges = e.stateChanges ++
    if (e.act event).state ≠ e.state then [(e.act event).state] else []

theorem AtRest.delivered (h : e.AtRest c) : e.Delivered := by
  -- a closed engine is the end of the run, and nothing is kept in the output
  have hended (hn : .opened ∉ e.history) (hs : e.state = .closed) :
      stanzasOf e.history = [] := by
    cases hl : e.loginTask with
    | none => exact ((h.standing.ended hl).resolve_left fun ho => hn ho.1).2.2
    | some t => exact (h.standing.pending t hl).unsent
  have hout : e.output = [] := by
    cases ho : e.outputHandler with
    | true => exact h.clean ho
    | false => exact (h.told.gone ho).2.1
  have hwritten : handed e.calls = printed e.history := by
    have hb := h.told.bytes
    rwa [hout, List.append_nil] at hb
  refine ⟨fun a x b hab => h.standing.order.after a _ b hab rfl, h.standing.order.opened,
    fun ho => ?_, fun hn hs => ?_, fun hn hs d hd => ?_, hwritten, fun hs => ?_, fun hs d hd => ?_,
    fun event hq => ?_⟩
  · cases hl : e.loginTask with
    | none => exact ((h.standing.ended hl).resolve_right fun hlost => hlost.2.1 ho).2
    | some t => exact absurd ho (h.standing.pending t hl).notOpened
  · cases hl : e.loginTask with
    | none =>
      rcases h.standing.ended hl with hsent | hlost
      · exact absurd hsent.1 hn
      · exact absurd hlost.1 hs
    | some t => exact ⟨t, rfl, (h.standing.pending t hl).queued⟩
  · rw [reach_closed hs hd]
    exact hended hn hs
  · exact h.told.there (h.told.handler hs)
  · rw [reach_closed hs hd]
    exact ⟨hwritten, (h.told.gone (h.shut hs)).2.2⟩
  · have hact := (h.act event hq).told.changes
    rw [hact, h.told.changes]
    simp only [change, true_and]

/-- **Stanzas sent during the login** are neither lost nor sent twice nor reordered, in
every run. -/
theorem delivered_run (h : Reach Prepared QuietStep e) : e.Delivered := by
  have hinv : ∃ c, e.AtRest c := by
    refine Reach.invariant (I := fun e => ∃ c, e.AtRest c) (fun e hp => ⟨[], hp.atRest⟩) ?_ e h
    rintro e _ - ⟨c, hr⟩ ⟨event, hq, rfl⟩
    exact ⟨_, hr.act event hq⟩
  obtain ⟨c, hr⟩ := hinv
  exact hr.delivered

end XmppEngineImpl

/-! ### A login -/

/-- An expat for chunks that are known. -/
def tableExpat (table : List (Text × List Callback)) : Expat where
  State := Unit
  init := ()
  parse := fun _ data _ =>
    match table.find? fun row => row.1 = data with
    | some row => ((), row.2, none)
    | none => ((), [], some 4)

/-- The server's stream and its features. -/
def helloChunk : Text × List Callback :=
  (serverStart ++ textBytes "<stream:features>" ++
      textBytes "<mechanisms xmlns='urn:ietf:params:xml:ns:xmpp-sasl'/>" ++
      textBytes "<bind xmlns='urn:ietf:params:xml:ns:xmpp-bind'/>" ++
      textBytes "<session xmlns='urn:ietf:params:xml:ns:xmpp-session'/></stream:features>",
    [.startElement (textBytes "stream:stream")
      [(textBytes "xmlns:stream", nsStream), (textBytes "xmlns", nsClient),
        (textBytes "version", textBytes "1.0"), (textBytes "id", textBytes "1")],
      .startElement (textBytes "stream:features") [],
      .startElement (textBytes "mechanisms") [(textBytes "xmlns", nsSasl)],
      .endElement (textBytes "mechanisms"),
      .startElement (textBytes "bind") [(textBytes "xmlns", nsBind)],
      .endElement (textBytes "bind"),
      .startElement (textBytes "session") [(textBytes "xmlns", nsSession)],
      .endElement (textBytes "session"),
      .endElement (textBytes "stream:features")])

/-- The authentication succeeded. -/
def successChunk : Text × List Callback :=
  (textBytes "<success xmlns='urn:ietf:params:xml:ns:xmpp-sasl'/>",
    [.startElement (textBytes "success") [(textBytes "xmlns", nsSasl)],
      .endElement (textBytes "success")])

/-- The resource is bound. -/
def boundChunk : Text × List Callback :=
  (textBytes "<iq type='result' id='0'><bind xmlns='urn:ietf:params:xml:ns:xmpp-bind'>" ++
      textBytes "<jid>user@example.com/r</jid></bind></iq>",
    [.startElement (textBytes "iq")
      [(textBytes "type", textBytes "result"), (textBytes "id", textBytes "0")],
      .startElement (textBytes "bind") [(textBytes "xmlns", nsBind)],
      .startElement (textBytes "jid") [], .characterData (textBytes "user@example.com/r"),
      .endElement (textBytes "jid"), .endElement (textBytes "bind"),
      .endElement (textBytes "iq")])

/-- The session is open, and the first message comes. -/
def sessionChunk : Text × List Callback :=
  (textBytes "<iq type='result' id='1'/><message/>",
    [.startElement (textBytes "iq")
      [(textBytes "type", textBytes "result"), (textBytes "id", textBytes "1")],
      .endElement (textBytes "iq"), .startElement (textBytes "message") [],
      .endElement (textBytes "message")])

/-- A SASL handler with one mechanism. -/
def plainSasl : SaslHandler where
  Mechanism := Unit
  chooseBestSaslMechanism := fun _ _ => textBytes "PLAIN"
  createSaslMechanism := fun _ => some ()
  startSaslAuth := fun m => (some (.newDefaultNs ⟨nsSasl, textBytes "auth"⟩), m)
  handleSaslChallenge := fun m _ => (none, m)

/-- A message that the user sends. -/
def sampleMessage (id : String) : XmlElement :=
  (XmlElement.new ⟨nsClient, textBytes "message"⟩).addAttr qnId (textBytes id)

/-- When the first message comes, the user answers it and leaves. -/
def answerAndLeave : ℕ → Reaction
  | 1 => { calls := [.sendStanza (sampleMessage "c"), .disconnect], handled := true }
  | _ => { calls := [], handled := false }

/-- The events of a login with a message before it, one in it and one after it. -/
def loginEvents : List XmppEngineImpl.Event :=
  [.user (.sendStanza (sampleMessage "a")), .connect, .handleInput helloChunk.1 quiet,
    .user (.sendStanza (sampleMessage "b")), .handleInput successChunk.1 quiet,
    .handleInput helloChunk.1 quiet, .handleInput boundChunk.1 quiet,
    .handleInput sessionChunk.1 answerAndLeave]

/-- An engine before it. -/
def prepared : XmppEngineImpl
    (tableExpat [helloChunk, successChunk, boundChunk, sessionChunk]) plainSasl :=
  (XmppEngineImpl.new sampleSettings false true).setSessionHandler

theorem delivered_sample :
    (loginEvents.foldl XmppEngineImpl.act prepared).Delivered ∧
      stanzasOf (loginEvents.foldl XmppEngineImpl.act prepared).history =
        [sampleMessage "a", sampleMessage "b", sampleMessage "c"] :=
  ⟨XmppEngineImpl.delivered_run (XmppEngineImpl.QuietRun.reach (by decide +kernel)
    (.init ⟨sampleSettings, false, rfl⟩)), by decide +kernel⟩

end Jingle.Xmpp
