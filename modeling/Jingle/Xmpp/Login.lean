/-
Nothing leaks before TLS.

`Guard` is the invariant of the engine: what must not be seen in the clear was
printed after `StartTls`, and what the login task has reached is in the history, in
order.  Each of the engine's small steps keeps it (`Guard.print`, `Guard.take`,
`Guard.failure`, `Guard.userCall`), and with them a turn of `Advance`, the handling
of an element, a chunk and a call.

Before `StartTls` a closed engine has an error (`Sound`), so that the rest of the
chunk is ignored: only then is the output handler sure to be there when the login
task calls `StartTls`.

* **`login_guarded`** — the three properties of a login.
-/
import Jingle.Lib.Reach
import Jingle.Xmpp.Chunking
import Jingle.Xmpp.Frames

namespace Jingle.Xmpp

open Signaling (Text QName)
open Xmllite

/-- What may only be printed under TLS: authentication, bind and session requests
and the user's stanzas. -/
def Piece.IsSecret : Piece → Prop
  | .streamStart .. | .starttls | .streamEnd => False
  | .saslAuth _ | .saslResponse _ | .bindIq .. | .sessionIq _ | .stanza _ | .raw _ => True

/-! ### Histories -/

/-- `StartTls` has been called. -/
def Secured (h : List Mark) : Prop := .startTls ∈ h

/-- Secrets are printed after `StartTls`. -/
def Guarded (h : List Mark) : Prop :=
  ∀ a p b, h = a ++ .out p :: b → p.IsSecret → Secured a

/-- The server accepted the authentication under TLS. -/
def Authenticated (h : List Mark) : Prop :=
  ∃ s : XmlElement, s.name = qnSaslSuccess ∧ [Mark.startTls, .taken s].Sublist h

/-- After that, a resource was asked for. -/
def BindAsked (id : Text) (h : List Mark) : Prop :=
  ∃ (s : XmlElement) (r : Text), s.name = qnSaslSuccess ∧
    [Mark.startTls, .taken s, .out (.bindIq id r)].Sublist h

/-- After that, the bind result came, and a session was asked for. -/
def SessionAsked (id : Text) (jid : Jid) (h : List Mark) : Prop :=
  ∃ (s b : XmlElement) (bindId r : Text), s.name = qnSaslSuccess ∧
    XmppEngineImpl.answers b bindId = true ∧ XmppEngineImpl.boundJidOf b = some jid ∧
    [Mark.startTls, .taken s, .out (.bindIq bindId r), .taken b, .out (.sessionIq id)].Sublist h

/-- **A whole login**: `StartTls`, the success of the authentication, the bind request
and its result with a full JID, the session request and its result. -/
def LoggedIn (h : List Mark) : Prop :=
  ∃ (s b r : XmlElement) (bindId resource sessionId : Text) (jid : Jid),
    s.name = qnSaslSuccess ∧
    XmppEngineImpl.answers b bindId = true ∧ XmppEngineImpl.boundJidOf b = some jid ∧
    XmppEngineImpl.answers r sessionId = true ∧ r.attr qnType = textBytes "result" ∧
    [Mark.startTls, .taken s, .out (.bindIq bindId resource), .taken b,
      .out (.sessionIq sessionId), .taken r].Sublist h

variable {h h' : List Mark}

theorem Secured.mono (hs : Secured h) (hsub : h.Sublist h') : Secured h' := hsub.subset hs

theorem Authenticated.mono (ha : Authenticated h) (hsub : h.Sublist h') : Authenticated h' := by
  obtain ⟨s, hs, hl⟩ := ha
  exact ⟨s, hs, hl.trans hsub⟩

theorem BindAsked.mono {id : Text} (hb : BindAsked id h) (hsub : h.Sublist h') :
    BindAsked id h' := by
  obtain ⟨s, r, hs, hl⟩ := hb
  exact ⟨s, r, hs, hl.trans hsub⟩

theorem SessionAsked.mono {id : Text} {jid : Jid} (hq : SessionAsked id jid h)
    (hsub : h.Sublist h') : SessionAsked id jid h' := by
  obtain ⟨s, b, bindId, r, hs, hb, hj, hl⟩ := hq
  exact ⟨s, b, bindId, r, hs, hb, hj, hl.trans hsub⟩

theorem Authenticated.secured (ha : Authenticated h) : Secured h := by
  obtain ⟨s, -, hl⟩ := ha
  exact hl.subset (by simp)

theorem BindAsked.secured {id : Text} (hb : BindAsked id h) : Secured h := by
  obtain ⟨s, r, -, hl⟩ := hb
  exact hl.subset (by simp)

theorem SessionAsked.secured {id : Text} {jid : Jid} (hq : SessionAsked id jid h) :
    Secured h := by
  obtain ⟨s, b, bindId, r, -, -, -, hl⟩ := hq
  exact hl.subset (by simp)

theorem sublist_snoc {l : List Mark} (hl : l.Sublist h) (m : Mark) :
    (l ++ [m]).Sublist (h ++ [m]) := hl.append (List.Sublist.refl _)

theorem Secured.authenticated {s : XmlElement} (hs : Secured h) (hn : s.name = qnSaslSuccess) :
    Authenticated (h ++ [.taken s]) :=
  ⟨s, hn, sublist_snoc (List.singleton_sublist.mpr hs) _⟩

theorem Authenticated.bindAsked (ha : Authenticated h) (id r : Text) :
    BindAsked id (h ++ [.out (.bindIq id r)]) := by
  obtain ⟨s, hs, hl⟩ := ha
  exact ⟨s, r, hs, sublist_snoc hl _⟩

theorem BindAsked.sessionAsked {bindId : Text} (hb : BindAsked bindId h) {b : XmlElement}
    {jid : Jid} (hans : XmppEngineImpl.answers b bindId = true)
    (hjid : XmppEngineImpl.boundJidOf b = some jid) (id : Text) :
    SessionAsked id jid (h ++ [.taken b] ++ [.out (.sessionIq id)]) := by
  obtain ⟨s, r, hs, hl⟩ := hb
  exact ⟨s, b, bindId, r, hs, hans, hjid, sublist_snoc (sublist_snoc hl _) _⟩

theorem SessionAsked.loggedIn {id : Text} {jid : Jid} (hq : SessionAsked id jid h)
    {r : XmlElement} (hans : XmppEngineImpl.answers r id = true)
    (hres : r.attr qnType = textBytes "result") : LoggedIn (h ++ [.taken r]) := by
  obtain ⟨s, b, bindId, resource, hs, hb, hj, hl⟩ := hq
  exact ⟨s, b, r, bindId, resource, id, jid, hs, hb, hj, hans, hres, sublist_snoc hl _⟩

theorem snoc_eq_append_cons {l a b : List Mark} {m x : Mark} (h : l ++ [m] = a ++ x :: b) :
    (∃ b', l = a ++ x :: b') ∨ (l = a ∧ m = x) := by
  rcases List.eq_nil_or_concat b with rfl | ⟨b', y, rfl⟩
  · obtain ⟨hl, hm⟩ := List.append_inj' h rfl
    exact .inr ⟨hl, by simpa using hm⟩
  · refine .inl ⟨b', ?_⟩
    rw [List.concat_eq_append, ← List.cons_append, ← List.append_assoc] at h
    exact (List.append_inj' h rfl).1

theorem Guarded.snoc (hg : Guarded h) {m : Mark}
    (hm : ∀ p, m = .out p → p.IsSecret → Secured h) : Guarded (h ++ [m]) := by
  intro a p b hab hp
  rcases snoc_eq_append_cons hab with ⟨b', rfl⟩ | ⟨rfl, rfl⟩
  · exact hg a p b' rfl hp
  · exact hm p rfl hp

namespace XmppEngineImpl

variable {E : Expat} {S : SaslHandler}

/-- What the login task has reached is in the history. -/
structure TaskSafe (t : XmppLoginTask S) (h : List Mark) (state : State) : Prop where
  auth : t.authNeeded = false → Authenticated h
  secured : t.state = .authInit ∨ t.state = .saslRunning → Secured h
  bindInit : t.state = .bindInit → t.authNeeded = false
  bindRequested : t.state = .bindRequested → BindAsked t.iqId h
  sessionRequested : t.state = .sessionRequested → SessionAsked t.iqId t.fullJid h
  done : t.state = .done → Secured h ∨ state = .closed

/-- **The invariant of the engine.** -/
structure Guard (e : XmppEngineImpl E S) : Prop where
  guarded : Guarded e.history
  tls : e.tlsNeeded = false → Secured e.history
  handler : Secured e.history ∨ e.outputHandler = true ∨ e.state = .closed
  task : ∀ t, e.loginTask = some t → TaskSafe t e.history e.state
  finished : e.loginTask = none → Secured e.history ∨ e.state = .closed
  opened : ∀ a b, e.history = a ++ .opened :: b → LoggedIn a

/-- Before `StartTls` the engine is not closed. -/
def Alive (e : XmppEngineImpl E S) : Prop := Secured e.history ∨ e.state ≠ .closed

/-- Before `StartTls` a closed engine has an error. -/
def Sound (e : XmppEngineImpl E S) : Prop :=
  Secured e.history ∨ (e.state = .closed → e.hasError = true)

theorem Alive.sound {e : XmppEngineImpl E S} (h : e.Alive) : e.Sound :=
  h.imp_right fun hne hc => absurd hc hne

variable {e e' : XmppEngineImpl E S}

theorem TaskSafe.mono {t : XmppLoginTask S} {h h' : List Mark} {s s' : State}
    (ht : TaskSafe t h s) (hsub : h.Sublist h') (hs : s = .closed → s' = .closed) :
    TaskSafe t h' s' where
  auth := fun ha => (ht.auth ha).mono hsub
  secured := fun ha => (ht.secured ha).mono hsub
  bindInit := ht.bindInit
  bindRequested := fun ha => (ht.bindRequested ha).mono hsub
  sessionRequested := fun ha => (ht.sessionRequested ha).mono hsub
  done := fun ha => (ht.done ha).imp (fun h => h.mono hsub) hs

theorem Guard.congr (h : e.Guard) (hh : e'.history = e.history)
    (ht : e'.tlsNeeded = e.tlsNeeded) (hl : e'.loginTask = e.loginTask)
    (hs : e.state = .closed → e'.state = .closed)
    (ho : e.outputHandler = true → e'.outputHandler = true ∨ e'.state = .closed) : e'.Guard where
  guarded := by rw [hh]; exact h.guarded
  tls := by rw [hh, ht]; exact h.tls
  handler := by
    rw [hh]
    rcases h.handler with hsec | ho' | hc
    · exact .inl hsec
    · exact .inr (ho ho')
    · exact .inr (.inr (hs hc))
  task := by
    rw [hh, hl]
    intro t htask
    exact (h.task t htask).mono (List.Sublist.refl _) hs
  finished := by
    rw [hh, hl]
    exact fun hn => (h.finished hn).imp_right hs
  opened := by rw [hh]; exact h.opened

theorem Guard.snoc (h : e.Guard) {m : Mark} (hh : e'.history = e.history ++ [m])
    (hm : ∀ p, m = .out p → p.IsSecret → Secured e.history)
    (hopen : m = .opened → LoggedIn e.history)
    (ht : e'.tlsNeeded = e.tlsNeeded) (hl : e'.loginTask = e.loginTask)
    (hs : e.state = .closed → e'.state = .closed)
    (ho : e'.outputHandler = e.outputHandler) : e'.Guard where
  guarded := by rw [hh]; exact h.guarded.snoc hm
  tls := by
    rw [hh, ht]
    exact fun hn => (h.tls hn).mono (List.sublist_append_left _ _)
  handler := by
    rw [hh, ho]
    exact h.handler.imp (fun hsec => hsec.mono (List.sublist_append_left _ _))
      fun hr => hr.imp_right hs
  task := by
    rw [hh, hl]
    intro t htask
    exact (h.task t htask).mono (List.sublist_append_left _ _) hs
  finished := by
    rw [hh, hl]
    exact fun hn => (h.finished hn).imp (fun hsec => hsec.mono (List.sublist_append_left _ _)) hs
  opened := by
    rw [hh]
    intro a b hab
    rcases snoc_eq_append_cons hab with ⟨b', hb⟩ | ⟨rfl, hmo⟩
    · exact h.opened a b' hb
    · exact hopen hmo

theorem Guard.modifyLogin (h : e.Guard) {f : XmppLoginTask S → XmppLoginTask S}
    (hf : ∀ t, e.loginTask = some t → TaskSafe (f t) e.history e.state) :
    (e.modifyLogin f).Guard where
  guarded := h.guarded
  tls := h.tls
  handler := h.handler
  task := by
    intro t ht
    obtain ⟨t', ht', rfl⟩ := Option.map_eq_some_iff.mp ht
    exact hf t' ht'
  finished := fun hn => h.finished (Option.map_eq_none_iff.mp hn)
  opened := h.opened

theorem Guard.print (h : e.Guard) {p : Piece} (hp : p.IsSecret → Secured e.history) :
    (e.print p).Guard :=
  h.snoc (m := .out p) rfl (fun _ hq hs => hp (by cases hq; exact hs)) (fun hq => by cases hq)
    rfl rfl id rfl

theorem Guard.prints (h : e.Guard) (hs : Secured e.history) (l : List XmlElement) :
    (l.foldl (fun e stanza => e.print (.stanza stanza)) e).Guard ∧
      Secured (l.foldl (fun e stanza => e.print (.stanza stanza)) e).history := by
  induction l generalizing e with
  | nil => exact ⟨h, hs⟩
  | cons x l ih =>
    exact ih (h.print fun _ => hs) (hs.mono (List.sublist_append_left _ _))

/-! ### The user's calls -/

theorem TaskSafe.congr {t t' : XmppLoginTask S} {h : List Mark} {s : State}
    (ht : TaskSafe t h s) (ha : t'.authNeeded = t.authNeeded) (hs : t'.state = t.state)
    (hi : t'.iqId = t.iqId) (hj : t'.fullJid = t.fullJid) : TaskSafe t' h s where
  auth := by rw [ha]; exact ht.auth
  secured := by rw [hs]; exact ht.secured
  bindInit := by rw [hs, ha]; exact ht.bindInit
  bindRequested := by rw [hs, hi]; exact ht.bindRequested
  sessionRequested := by rw [hs, hi, hj]; exact ht.sessionRequested
  done := by rw [hs]; exact ht.done

theorem TaskSafe.plain {t t' : XmppLoginTask S} {h : List Mark} {s : State}
    (ht : TaskSafe t h s) (ha : t'.authNeeded = t.authNeeded)
    (hs : t'.state ∈ [LoginTaskState.init, .streamstartSent, .startedXmpp, .tlsInit,
      .tlsRequested]) : TaskSafe t' h s where
  auth := by rw [ha]; exact ht.auth
  secured := by rintro (hq | hq) <;> simp [hq] at hs
  bindInit := fun hq => by simp [hq] at hs
  bindRequested := fun hq => by simp [hq] at hs
  sessionRequested := fun hq => by simp [hq] at hs
  done := fun hq => by simp [hq] at hs

theorem TaskSafe.running {t t' : XmppLoginTask S} {h : List Mark} {s : State}
    (ht : TaskSafe t h s) (ha : t'.authNeeded = t.authNeeded) (hsec : Secured h)
    (hs : t'.state = .authInit ∨ t'.state = .saslRunning) : TaskSafe t' h s where
  auth := by rw [ha]; exact ht.auth
  secured := fun _ => hsec
  bindInit := fun hq => by simp [hq] at hs
  bindRequested := fun hq => by simp [hq] at hs
  sessionRequested := fun hq => by simp [hq] at hs
  done := fun hq => by simp [hq] at hs

theorem TaskSafe.finish {t t' : XmppLoginTask S} {h : List Mark} {s : State}
    (ht : TaskSafe t h s) (ha : t'.authNeeded = t.authNeeded) (hs : t'.state = .done)
    (hd : Secured h ∨ s = .closed) : TaskSafe t' h s where
  auth := by rw [ha]; exact ht.auth
  secured := by rintro (hq | hq) <;> simp [hq] at hs
  bindInit := fun hq => by simp [hq] at hs
  bindRequested := fun hq => by simp [hq] at hs
  sessionRequested := fun hq => by simp [hq] at hs
  done := fun _ => hd

theorem Guard.setTask (h : e.Guard) {t : XmppLoginTask S} (ht : e.loginTask = some t)
    {f : XmppLoginTask S → XmppLoginTask S} (hf : TaskSafe (f t) e.history e.state) :
    (e.modifyLogin f).Guard := by
  refine h.modifyLogin fun t' ht' => ?_
  rw [ht] at ht'
  cases ht'
  exact hf

theorem Guard.enter (h : e.Guard) : e.enter.Guard := h.congr rfl rfl rfl id .inl

theorem Guard.exit (h : e.Guard) (entry : State) : (e.exit entry).Guard :=
  h.congr (exit_history entry) (exit_tlsNeeded entry) (exit_loginTask entry)
    (fun hc => (exit_state entry).trans hc) exit_outputHandler

theorem Guard.signalError (h : e.Guard) (err : Error) (subcode : ℤ) :
    (e.signalError err subcode).Guard := by
  unfold XmppEngineImpl.signalError
  split_ifs
  · exact h.congr rfl rfl rfl (fun _ => rfl) .inl
  · exact h

theorem Guard.sendStanza (h : e.Guard) (element : XmlElement) : (e.sendStanza element).Guard := by
  unfold XmppEngineImpl.sendStanza
  by_cases hc : e.state = .closed
  · rw [if_pos hc]
    exact h
  · rw [if_neg hc]
    refine Guard.exit ?_ _
    have ha : (e.enter.accept element).Guard := h.enter.congr rfl rfl rfl id .inl
    by_cases hl : (e.enter.accept element).loginTask.isSome = true
    · rw [if_pos hl]
      exact ha.modifyLogin fun t ht => (ha.task t ht).congr rfl rfl rfl rfl
    · -- the login is done, so that the stanza is printed under TLS
      rw [if_neg hl]
      refine ha.print fun _ => ?_
      have hn : e.loginTask = none := Option.not_isSome_iff_eq_none.mp hl
      exact (h.finished hn).resolve_right hc

theorem Guard.sendIq (h : e.Guard) (element : XmlElement) : (e.sendIq element).Guard := by
  unfold XmppEngineImpl.sendIq
  split_ifs
  iterate 4 exact h
  have hq (l : List XmppIqEntry) : Guard { e with iqEntries := l } :=
    h.congr rfl rfl rfl id .inl
  exact (hq _).sendStanza element

theorem Guard.sendRaw (h : e.Guard) (text : Text) : (e.sendRaw text).Guard := by
  unfold XmppEngineImpl.sendRaw
  split_ifs with hc
  · exact h
  · obtain ⟨hne, hl⟩ := not_or.mp hc
    have hn : e.loginTask = none := Option.not_isSome_iff_eq_none.mp hl
    exact Guard.exit (h.enter.print fun _ => (h.finished hn).resolve_right hne) _

theorem Guard.disconnect (h : e.Guard) : e.disconnect.Guard := by
  unfold XmppEngineImpl.disconnect
  by_cases hne : e.state ≠ .closed
  · rw [if_pos hne]
    have hp : (if e.enter.state = .open_ then e.enter.print .streamEnd else e.enter).Guard := by
      split_ifs
      · exact h.enter.print fun hs => hs.elim
      · exact h.enter
    refine Guard.exit ?_ _
    exact hp.congr rfl rfl rfl (fun _ => rfl) .inl
  · rw [if_neg hne]
    exact h

theorem Guard.connectionClosed (h : e.Guard) (subcode : ℤ) :
    (e.connectionClosed subcode).Guard := by
  unfold XmppEngineImpl.connectionClosed
  split_ifs
  · exact (h.enter.signalError _ _).exit _
  · exact (h.enter.signalError _ _).exit _
  · exact h

theorem Guard.userCall (h : e.Guard) (call : UserCall) : (e.userCall call).Guard := by
  cases call with
  | sendStanza element => exact h.sendStanza element
  | sendIq element => exact h.sendIq element
  | sendRaw text => exact h.sendRaw text
  | disconnect => exact h.disconnect
  | connectionClosed subcode => exact h.connectionClosed subcode

theorem Guard.userCalls (h : e.Guard) (calls : List UserCall) : (e.userCalls calls).Guard := by
  induction calls generalizing e with
  | nil => exact h
  | cons call calls ih => exact ih (h.userCall call)

/-! ### The login task -/

theorem Guard.take (h : e.Guard) (el : XmlElement) : (e.take el).Guard := by
  have hm : (e.modifyLogin fun t => { t with pelStanza := none }).Guard :=
    h.modifyLogin fun t ht => (h.task t ht).congr rfl rfl rfl rfl
  exact hm.snoc (m := .taken el) rfl (fun _ hq => by cases hq) (fun hq => by cases hq)
    rfl rfl id rfl

theorem failure_state (err : Error) : (e.failure err).state = .closed := by
  unfold failure signalError
  split_ifs with hc
  · rfl
  · exact not_not.mp hc

theorem failure_history (err : Error) : (e.failure err).history = e.history := by
  unfold failure signalError
  split_ifs <;> rfl

theorem Guard.failure (h : e.Guard) (err : Error) : (e.failure err).Guard := by
  have hc : (e.failure err).state = .closed := failure_state err
  have hh : (e.failure err).history = e.history := failure_history err
  have ht : (e.failure err).tlsNeeded = e.tlsNeeded := by
    unfold XmppEngineImpl.failure XmppEngineImpl.signalError
    split_ifs <;> rfl
  have hl : (e.failure err).loginTask = e.loginTask.map fun t => { t with state := .done } := by
    unfold XmppEngineImpl.failure XmppEngineImpl.signalError
    split_ifs <;> rfl
  refine ⟨hh ▸ h.guarded, ?_, .inr (.inr hc), ?_, fun _ => .inr hc, hh ▸ h.opened⟩
  · rw [ht, hh]
    exact h.tls
  · intro t' ht'
    rw [hl] at ht'
    obtain ⟨t, hst, rfl⟩ := Option.map_eq_some_iff.mp ht'
    have hm : TaskSafe t (e.failure err).history (e.failure err).state :=
      (h.task t hst).mono (by rw [hh]) fun _ => hc
    exact hm.finish rfl rfl (.inr hc)

theorem Sound.failure (h : e.Sound) (err : Error) : (e.failure err).Sound := by
  refine h.imp (fun hs => by rwa [failure_history]) fun hs _ => ?_
  unfold XmppEngineImpl.failure XmppEngineImpl.signalError
  split_ifs with hc
  · rfl
  · exact hs (not_not.mp hc)

theorem Alive.of (h : e.Alive) (hp : e.history <+: e'.history) (hs : e'.state = e.state) :
    e'.Alive := by
  unfold Alive at *
  rw [hs]
  exact h.imp_left fun hsec => hsec.mono hp.sublist

theorem Guard.startTls (h : e.Guard) (ha : e.Alive) (dom : Text) (calls : List UserCall) :
    (e.startTls dom calls).Guard ∧ Secured (e.startTls dom calls).history := by
  rw [startTls_eq]
  by_cases ho : e.outputHandler = true
  · rw [if_pos ho]
    have ht (d : Text) : (e.tell (.startTls d)).Guard := h.congr rfl rfl rfl id .inl
    have hm (d : Text) : (e.toldTls d).Guard :=
      (ht d).snoc (m := .startTls) rfl (fun _ hq => by cases hq) (fun hq => by cases hq)
        rfl rfl id rfl
    refine ⟨((hm _).userCalls calls).congr rfl rfl rfl id .inl, ?_⟩
    have hsec (d : Text) : Secured (e.toldTls d).history :=
      List.mem_append_right _ (List.mem_singleton_self _)
    exact (hsec _).mono (userCalls_frame calls).history.sublist
  · rw [if_neg ho]
    refine ⟨h, ?_⟩
    rcases h.handler with hs | hs | hs
    · exact hs
    · exact absurd hs ho
    · exact ha.resolve_right fun hne => hne hs

theorem Guard.printTask (h : e.Guard) {t : XmppLoginTask S} (ht : e.loginTask = some t)
    {p : Piece} (hp : p.IsSecret → Secured e.history)
    {f : XmppLoginTask S → XmppLoginTask S}
    (hf : TaskSafe t (e.history ++ [.out p]) e.state →
      TaskSafe (f t) (e.history ++ [.out p]) e.state) : ((e.print p).modifyLogin f).Guard :=
  (h.print hp).setTask ht (hf ((h.task t ht).mono (List.sublist_append_left _ _) id))

theorem Guard.signalBound (h : e.Guard) (jid : Jid) (hin : LoggedIn e.history) :
    (e.signalBound jid).Guard := by
  unfold XmppEngineImpl.signalBound
  split_ifs with hs
  · exact h.snoc (m := .opened) rfl (fun _ hq => by cases hq) (fun _ => hin) rfl rfl
      (fun hc => by rw [hs] at hc; cases hc) rfl
  · exact h

theorem Turn.guard {t : XmppLoginTask S} {calls : List UserCall}
    {r : XmppEngineImpl E S × Bool} (hr : Turn e t calls r) (h : e.Guard)
    (ht : e.loginTask = some t) (ha : e.Alive) : r.1.Guard := by
  have htask : TaskSafe t e.history e.state := h.task t ht
  -- the task after its element is taken
  have htake (el : XmlElement) : TaskSafe { t with pelStanza := none } (e.take el).history
      (e.take el).state := (h.take el).task _ (take_login ht el)
  have hsub (el : XmlElement) : e.history.Sublist (e.take el).history :=
    (take_frame el).history.sublist
  cases hr with
  | wait hw => exact h
  | start hs =>
    have h₁ : Guard { e with raisedReset := true } := h.congr rfl rfl rfl id .inl
    have h₂ := h₁.setTask ht (f := fun t => { t with pelFeatures := none })
      (htask.congr rfl rfl rfl rfl)
    have h₃ (to_ lang : Text) := h₂.print (p := .streamStart to_ lang) fun hs => False.elim hs
    exact (h₃ _ _).modifyLogin fun t' ht' => ((h₃ _ _).task t' ht').plain rfl (by simp)
  | fail err hw => exact h.failure err
  | reject el err hp => exact (h.take el).failure err
  | started el hs hp hst hacc =>
    exact (h.take el).setTask (take_login ht el) ((htake el).plain rfl (by simp))
  | features el next hs hp hn hnext =>
    have h₁ := (h.take el).setTask (take_login ht el)
      (f := fun t => { t with pelFeatures := some el }) ((htake el).congr rfl rfl rfl rfl)
    have hl : ((e.take el).modifyLogin fun t => { t with pelFeatures := some el }).loginTask =
        some { t with pelStanza := none, pelFeatures := some el } := by
      show (e.take el).loginTask.map _ = _
      rw [take_login ht el]
      rfl
    refine h₁.setTask hl ?_
    rcases hnext with rfl | ⟨htls, rfl | ⟨rfl, hauth⟩⟩
    · exact (htake el).plain rfl (by simp)
    · exact (htake el).running rfl ((h.tls htls).mono (hsub el)) (.inl rfl)
    · exact
        { auth := (htake el).auth
          secured := by rintro (hq | hq) <;> cases hq
          bindInit := fun _ => hauth
          bindRequested := fun hq => by cases hq
          sessionRequested := fun hq => by cases hq
          done := fun hq => by cases hq }
  | askTls hs hf =>
    have hp : Piece.starttls.IsSecret → Secured e.history := fun hs => False.elim hs
    exact h.printTask ht hp fun hm => hm.plain rfl (by simp)
  | proceed el hs hp hn =>
    obtain ⟨hg, hsec⟩ := (h.take el).startTls (ha.of (take_frame el).history rfl) e.domain calls
    have h₁ : Guard { (e.take el).startTls e.domain calls with tlsNeeded := false } :=
      ⟨hg.guarded, fun _ => hsec, hg.handler, hg.task, hg.finished, hg.opened⟩
    exact h₁.modifyLogin fun t' ht' => (h₁.task t' ht').plain rfl (by simp)
  | auth auth mech hs =>
    have hsec : Secured e.history := htask.secured (.inl hs)
    exact h.printTask ht (fun _ => hsec) fun hm =>
      hm.running rfl (hsec.mono (List.sublist_append_left _ _)) (.inr rfl)
  | respond el response mech hs hp =>
    have hsec : Secured (e.take el).history := (htask.secured (.inr hs)).mono (hsub el)
    exact (h.take el).printTask (take_login ht el) (fun _ => hsec) fun hm =>
      hm.running rfl (hsec.mono (List.sublist_append_left _ _)) (.inr rfl)
  | success el hs hp hn =>
    have hauth : Authenticated (e.take el).history :=
      (htask.secured (.inr hs)).authenticated hn
    refine (h.take el).setTask (take_login ht el) ?_
    exact
      { auth := fun _ => hauth
        secured := by rintro (hq | hq) <;> cases hq
        bindInit := fun hq => by cases hq
        bindRequested := fun hq => by cases hq
        sessionRequested := fun hq => by cases hq
        done := fun hq => by cases hq }
  | askBind hs =>
    have hauth : Authenticated e.history := htask.auth (htask.bindInit hs)
    have h₁ : Guard { e with nextId := e.nextId + 1 } := h.congr rfl rfl rfl id .inl
    refine h₁.printTask ht (fun _ => hauth.secured) fun hm => ?_
    exact
      { auth := hm.auth
        secured := by rintro (hq | hq) <;> cases hq
        bindInit := fun hq => by cases hq
        bindRequested := fun _ => hauth.bindAsked _ _
        sessionRequested := fun hq => by cases hq
        done := fun hq => by cases hq }
  | skip el hs hp => exact h.take el
  | bound el jid hs hp hans hjid =>
    have hask : BindAsked t.iqId e.history := htask.bindRequested hs
    have h₁ : Guard { e.take el with nextId := e.nextId + 1 } :=
      (h.take el).congr rfl rfl rfl id .inl
    refine h₁.printTask (take_login ht el) (fun _ => hask.secured.mono (hsub el)) fun hm => ?_
    exact
      { auth := hm.auth
        secured := by rintro (hq | hq) <;> cases hq
        bindInit := fun hq => by cases hq
        bindRequested := fun hq => by cases hq
        sessionRequested := fun _ => hask.sessionAsked hans hjid _
        done := fun hq => by cases hq }
  | session el hs hp hans hres =>
    have hask : SessionAsked t.iqId t.fullJid e.history := htask.sessionRequested hs
    have hsec : Secured (e.take el).history := hask.secured.mono (hsub el)
    have h₁ := (h.take el).signalBound t.fullJid (hask.loggedIn hans hres)
    obtain ⟨h₂, hsec₂⟩ := h₁.prints (hsec.mono (signalBound_frame _).history.sublist) t.queuedStanzas
    exact h₂.modifyLogin fun t' ht' => (h₂.task t' ht').finish rfl rfl (.inl hsec₂)

/-- A turn that goes on leaves the engine open, or TLS has started; one that stops
without TLS leaves an error behind. -/
theorem Turn.sound {t : XmppLoginTask S} {calls : List UserCall}
    {r : XmppEngineImpl E S × Bool} (hr : Turn e t calls r) (h : e.Guard)
    (ht : e.loginTask = some t) (ha : e.Alive) :
    r.1.Sound ∧ (r.2 = true → r.1.Alive) := by
  have htask : TaskSafe t e.history e.state := h.task t ht
  have hala (el : XmlElement) : (e.take el).Alive := ha.of (take_frame el).history rfl
  have hf : Frame e r.1 := hr.frame
  cases hr with
  | wait hw => exact ⟨ha.sound, fun hgo => by cases hgo⟩
  | fail err hw => exact ⟨ha.sound.failure err, fun hgo => by cases hgo⟩
  | reject el err hp => exact ⟨(hala el).sound.failure err, fun hgo => by cases hgo⟩
  | started el hs hp hst hacc => exact ⟨(hala el).sound, fun hgo => by cases hgo⟩
  | skip el hs hp => exact ⟨(hala el).sound, fun hgo => by cases hgo⟩
  | session el hs hp hans hres =>
    have hsec := (htask.sessionRequested hs).secured.mono hf.history.sublist
    exact ⟨.inl hsec, fun _ => .inl hsec⟩
  | proceed el hs hp hn =>
    have hsec := ((h.take el).startTls (hala el) e.domain calls).2
    exact ⟨.inl hsec, fun _ => .inl hsec⟩
  | start | features | askTls | auth | respond | success | askBind | bound =>
    have hal := ha.of hf.history rfl
    exact ⟨hal.sound, fun _ => hal⟩

theorem Guard.advance (calls : List UserCall) (fuel : ℕ) (h : e.Guard) (ha : e.Alive) :
    (XmppEngineImpl.advance calls fuel e).Guard ∧
      (XmppEngineImpl.advance calls fuel e).Sound := by
  induction fuel generalizing e with
  | zero => exact ⟨h, ha.sound⟩
  | succ fuel ih =>
    cases hl : e.loginTask with
    | none =>
      rw [XmppEngineImpl.advance, hl]
      exact ⟨h, ha.sound⟩
    | some t =>
      have ht := advanceStep_turn (e := e) t calls
      obtain ⟨hs, hal⟩ := ht.sound h hl ha
      rw [advance_succ hl]
      split
      next hgo => exact ih (ht.guard h hl ha) (hal hgo)
      next => exact ⟨ht.guard h hl ha, hs⟩

theorem Guard.resetDone (h : e.Guard) : e.resetDone.Guard := by
  unfold XmppEngineImpl.resetDone
  split_ifs with hd
  · cases hl : e.loginTask with
    | none => simp [hl] at hd
    | some t =>
      have hs : t.state = .done := by simpa [hl] using hd
      exact ⟨h.guarded, h.tls, h.handler, fun _ hq => (by cases hq),
        fun _ => (h.task t hl).done hs, h.opened⟩
  · exact h

theorem Guard.loginIncoming (h : e.Guard) (ha : e.Alive) (element : Option XmlElement)
    (isStart : Bool) (calls : List UserCall) :
    (e.loginIncoming element isStart calls).Guard ∧
      (e.loginIncoming element isStart calls).Sound := by
  have h₁ : (e.modifyLogin fun t => { t with pelStanza := element, isStart }).Guard :=
    h.modifyLogin fun t ht => (h.task t ht).congr rfl rfl rfl rfl
  obtain ⟨h₂, hs⟩ := h₁.advance calls 4 ha
  have h₃ := h₂.modifyLogin (f := fun t => { t with pelStanza := none, isStart := false })
    fun t ht => (h₂.task t ht).congr rfl rfl rfl rfl
  refine ⟨h₃.resetDone, ?_⟩
  unfold XmppEngineImpl.loginIncoming XmppEngineImpl.resetDone
  dsimp only
  split_ifs
  · exact hs
  · exact hs

theorem Sound.signalError (h : e.Sound) (err : Error) (subcode : ℤ) :
    (e.signalError err subcode).Sound := by
  unfold XmppEngineImpl.signalError
  split_ifs
  · exact .inr fun _ => rfl
  · exact h

theorem Sound.alive (h : e.Sound) (herr : e.hasError = false) : e.Alive :=
  h.imp_right fun hs hc => by simp [hs hc] at herr

theorem Delivery.guard {r : Reaction} {event : StanzaEvent} (hd : Delivery e r event e')
    (h : e.Guard) (hs : e.Sound) : e'.Guard ∧ e'.Sound := by
  -- the login is done, so that what the user's code does is done under TLS
  have hsec (herr : e.hasError = false) (hn : e.loginTask = none) : Secured e.history :=
    (h.finished hn).elim id fun hc => (hs.alive herr).resolve_right fun hne => hne hc
  have hf : Frame e e' := hd.frame
  cases hd with
  | ignored _ => exact ⟨h, hs⟩
  | login el isStart herr _ _ _ => exact h.loginIncoming (hs.alive herr) _ _ _
  | error err => exact ⟨h.signalError _ _, hs.signalError _ _⟩
  | streamError stanza =>
    unfold signalStreamError
    split_ifs
    · have h₁ : Guard { e with streamError := some stanza } := h.congr rfl rfl rfl id .inl
      have hs₁ : Sound { e with streamError := some stanza } := hs
      exact ⟨h₁.signalError _ _, hs₁.signalError _ _⟩
    · exact ⟨h, hs⟩
  | user entries herr hn =>
    have h₁ : Guard { e with iqEntries := entries } := h.congr rfl rfl rfl id .inl
    exact ⟨h₁.userCalls _, .inl ((hsec herr hn).mono hf.history.sublist)⟩
  | refuse stanza herr hn =>
    refine ⟨?_, .inl ((hsec herr hn).mono hf.history.sublist)⟩
    unfold sendFeatureNotImplemented
    split_ifs
    · exact h.userCalls _
    · exact (h.userCalls _).sendStanza _

theorem Guard.incomingAll (h : e.Guard) (hs : e.Sound) (events : List (StanzaEvent × Reaction)) :
    (e.incomingAll events).Guard := by
  induction events generalizing e with
  | nil => exact h
  | cons ev events ih =>
    obtain ⟨h', hs'⟩ := (incoming_delivery (e := e) ev.1 ev.2).guard h hs
    exact ih h' hs'

theorem Guard.act (h : e.Guard) (event : Event) : (e.act event).Guard := by
  cases event with
  | connect =>
    show e.connect.Guard
    unfold XmppEngineImpl.connect
    split_ifs with hs
    · exact h
    · have hs : e.state = .start := not_not.mp hs
      have h₁ : Guard { e.enter with state := .opening } :=
        h.enter.congr rfl rfl rfl (fun hc => by cases hs.symm.trans hc) .inl
      have ha : Alive { e.enter with state := .opening } := .inr (by simp)
      exact (h₁.loginIncoming ha none false []).1.exit _
  | handleInput bytes reaction =>
    show (e.handleInput bytes reaction).Guard
    unfold XmppEngineImpl.handleInput
    split_ifs with hs
    · exact h
    · have hne : e.enter.Sound := .inr fun hc => by
        have hc : e.state = .closed := hc
        exact absurd ⟨by simp [hc], by simp [hc]⟩ hs
      have h₁ := h.enter.incomingAll hne
      refine Guard.exit ?_ _
      exact (h₁ _).congr rfl rfl rfl id .inl
  | user call => exact h.userCall call

/-! ### Behind `<proceed/>` -/

/-- The login task waits for this element to start TLS. -/
structure AwaitsProceed (e : XmppEngineImpl E S) (el : XmlElement) : Prop where
  noError : e.hasError = false
  noReset : e.raisedReset = false
  requested : ∃ t, e.loginTask = some t ∧ t.state = .tlsRequested
  isProceed : el.name = qnTlsProceed

theorem incoming_of_raised (h : e.raisedReset = true) (event : StanzaEvent) (r : Reaction) :
    e.incoming event r = e := by
  cases event <;> simp [incoming, incomingStart, incomingStanza, incomingEnd, h]

theorem incomingAll_of_raised (h : e.raisedReset = true)
    (events : List (StanzaEvent × Reaction)) : e.incomingAll events = e := by
  induction events with
  | nil => rfl
  | cons ev events ih =>
    show (e.incoming ev.1 ev.2).incomingAll events = e
    rw [incoming_of_raised h]
    exact ih

theorem advance_init {t : XmppLoginTask S} (ht : e.loginTask = some t) (hs : t.state = .init)
    (hin : 0 < e.engineEntered) (calls : List UserCall) (fuel : ℕ) :
    (advance calls (fuel + 1) e).raisedReset = true := by
  have hstep : (e.advanceStep t calls).1.raisedReset = true ∧
      (e.advanceStep t calls).2 = true := by
    simp [advanceStep, hs, goto, internalSendStart, print, modifyLogin]
  have hent : (e.advanceStep t calls).1.engineEntered = e.engineEntered :=
    (advanceStep_turn t calls).frame.entered
  rw [advance_succ ht, if_pos hstep.2]
  exact (advance_frame calls fuel).raised (by omega) hstep.1

theorem advance_proceed {t : XmppLoginTask S} {el : XmlElement} (ht : e.loginTask = some t)
    (hs : t.state = .tlsRequested) (hp : t.pelStanza = some el) (hn : el.name = qnTlsProceed)
    (hin : 0 < e.engineEntered) (calls : List UserCall) :
    (advance calls 4 e).raisedReset = true := by
  have hstep : e.advanceStep t calls =
      ({ (e.take el).startTls e.domain calls with tlsNeeded := false }.goto .init, true) := by
    simp [advanceStep, hs, hp, hn, domain]
  have hturn := advanceStep_turn (e := e) t calls
  rw [hstep] at hturn
  obtain ⟨l, hl⟩ := startTls_login (e := e.take el) e.domain calls
  have hinit : ({ (e.take el).startTls e.domain calls with tlsNeeded := false }.goto
      .init).loginTask = some { t with
        pelStanza := none, state := .init, queuedStanzas := t.queuedStanzas ++ l } := by
    show ((e.take el).startTls e.domain calls).loginTask.map _ = _
    rw [hl, take_login ht]
    rfl
  rw [advance_succ ht, hstep, if_pos rfl]
  exact advance_init hinit rfl (hturn.frame.entered ▸ hin) calls 2

theorem AwaitsProceed.raises {el : XmlElement} (h : e.AwaitsProceed el)
    (hin : 0 < e.engineEntered) (r : Reaction) :
    (e.incoming (.stanza el) r).raisedReset = true := by
  obtain ⟨t, ht, hs⟩ := h.requested
  have hne : el.name ≠ qnStreamError := by
    rw [h.isProceed]
    decide
  have hlogin : e.incoming (.stanza el) r = e.loginIncoming (some el) false r.calls := by
    simp [incoming, incomingStanza, h.noError, h.noReset, hne, ht]
  have h₁ : (e.modifyLogin fun t => { t with pelStanza := some el, isStart := false }).loginTask =
      some { t with pelStanza := some el, isStart := false } := by simp [modifyLogin, ht]
  have h₂ := advance_proceed h₁ hs rfl h.isProceed hin r.calls
  rw [hlogin]
  unfold loginIncoming resetDone
  dsimp only
  split_ifs
  · exact h₂
  · exact h₂

theorem incomingAll_append (l l' : List (StanzaEvent × Reaction)) :
    e.incomingAll (l ++ l') = (e.incomingAll l).incomingAll l' := List.foldl_append

theorem incomingAll_cons (ev : StanzaEvent × Reaction) (l : List (StanzaEvent × Reaction)) :
    e.incomingAll (ev :: l) = (e.incoming ev.1 ev.2).incomingAll l := rfl

theorem exit_forgets (hent : e.engineEntered ≤ 1) (hr : e.raisedReset = true) (entry : State)
    (p q : Parsing E) :
    { e with stanzaParser := p }.exit entry = { e with stanzaParser := q }.exit entry := by
  have h0 : e.engineEntered - 1 = 0 := by omega
  rw [exit_eq, exit_eq]
  simp [h0, hr, Flushes, flushed]

theorem handleInput_proceed (hent : e.engineEntered = 0) (hopen : e.state = .opening ∨
      e.state = .open_) {pre post : List StanzaEvent} {el : XmlElement} {bytes : List Byte}
    {reaction : ℕ → Reaction}
    (hev : (e.stanzaParser.parse bytes false).2 = pre ++ .stanza el :: post)
    (hpre : (e.enter.incomingAll (pre.mapIdx fun k event => (event, reaction k))).AwaitsProceed
      el) :
    e.handleInput bytes reaction =
      { (e.enter.incomingAll (pre.mapIdx fun k event => (event, reaction k))).incoming (.stanza el)
          (reaction pre.length) with stanzaParser := .new }.exit e.state := by
  set e₁ := e.enter.incomingAll (pre.mapIdx fun k event => (event, reaction k)) with he₁
  have hin : 0 < e₁.engineEntered := by
    rw [he₁, (incomingAll_frame _).entered]
    exact Nat.succ_pos _
  have hraised := hpre.raises hin (reaction pre.length)
  have hone : (e₁.incoming (.stanza el) (reaction pre.length)).engineEntered = 1 := by
    rw [(incoming_delivery _ _).frame.entered, he₁, (incomingAll_frame _).entered]
    exact congrArg (· + 1) hent
  have hall : e.enter.incomingAll ((pre ++ .stanza el :: post).mapIdx
      fun k event => (event, reaction k)) = e₁.incoming (.stanza el) (reaction pre.length) := by
    rw [List.mapIdx_append, incomingAll_append, ← he₁, List.mapIdx_cons, incomingAll_cons]
    simp only [Nat.zero_add]
    exact incomingAll_of_raised hraised _
  unfold handleInput
  rw [if_neg (by rcases hopen with hs | hs <;> simp [hs])]
  dsimp only
  rw [hev, hall]
  exact exit_forgets hone.le hraised _ _ _

/-! ### Runs -/

/-- One event of a run. -/
def Step (e e' : XmppEngineImpl E S) : Prop := ∃ event, e' = e.act event

/-- A new engine that needs TLS and has an output handler. -/
def Fresh (e : XmppEngineImpl E S) : Prop := ∃ settings, e = .new settings true true

theorem Fresh.guard (h : e.Fresh) : e.Guard := by
  obtain ⟨settings, rfl⟩ := h
  refine ⟨fun a p b hab => ?_, fun hn => (by cases hn), .inr (.inl rfl), fun t ht => ?_,
    fun hn => (by cases hn), fun a b hab => ?_⟩
  · exact absurd hab (by simp [new])
  · cases ht
    exact ⟨fun hq => (by cases hq), fun hq => (by rcases hq with hq | hq <;> cases hq),
      fun hq => (by cases hq), fun hq => (by cases hq), fun hq => (by cases hq),
      fun hq => (by cases hq)⟩
  · exact absurd hab (by simp [new])

/-- Between two events the engine is not entered, and an open one says so. -/
structure Idle (e : XmppEngineImpl E S) : Prop where
  notEntered : e.engineEntered = 0
  opened : e.state = .open_ → .opened ∈ e.history

theorem Idle.of_frame (h : e.Idle) (hf : Frame e e') : e'.Idle where
  notEntered := hf.entered.trans h.notEntered
  opened := fun ho => (hf.opened ho).elim (fun ho' => hf.history.subset (h.opened ho')) id

theorem Idle.call (h : e.Idle) {d : XmppEngineImpl E S} (hent : d.engineEntered = 1)
    (hhist : d.history = e.history) (hs : d.state = .open_ → e.state = .open_)
    (hf : Frame d e') (entry : State) : (e'.exit entry).Idle where
  notEntered := by rw [exit_engineEntered, hf.entered, hent]
  opened := fun ho => by
    rw [exit_state] at ho
    rw [exit_history]
    refine (hf.opened ho).elim (fun ho' => hf.history.subset ?_) id
    rw [hhist]
    exact h.opened (hs ho')

theorem Idle.act (h : e.Idle) (event : Event) : (e.act event).Idle := by
  cases event with
  | connect =>
    show e.connect.Idle
    unfold XmppEngineImpl.connect
    split_ifs
    · exact h
    · exact h.call (d := { e.enter with state := .opening }) (congrArg (· + 1) h.notEntered) rfl
        (fun ho => by cases ho) (loginIncoming_frame _ _ _) _
  | handleInput bytes reaction =>
    show (e.handleInput bytes reaction).Idle
    unfold XmppEngineImpl.handleInput
    split_ifs
    · exact h
    · have hf := incomingAll_frame (e := e.enter)
        ((e.stanzaParser.parse bytes false).2.mapIdx fun k event => (event, reaction k))
      refine h.call (d := e.enter) (congrArg (· + 1) h.notEntered) rfl id ?_ _
      exact ⟨hf.entered, hf.history, hf.raised, hf.state⟩
  | user call => exact h.of_frame (userCall_frame call).frame

/-- What holds of every login. -/
structure LoginGuarded (e : XmppEngineImpl E S) : Prop where
  /-- Nothing secret is printed before `StartTls`. -/
  secret : Guarded e.history
  /-- What follows `<proceed/>` in a chunk has no effect. -/
  proceed : ∀ (pre post post' : List StanzaEvent) (el : XmlElement) (bytes bytes' : List Byte)
    (reaction : ℕ → Reaction),
    (e.stanzaParser.parse bytes false).2 = pre ++ .stanza el :: post →
    (e.stanzaParser.parse bytes' false).2 = pre ++ .stanza el :: post' →
    (e.enter.incomingAll (pre.mapIdx fun k event => (event, reaction k))).AwaitsProceed el →
    e.handleInput bytes reaction = e.handleInput bytes' reaction
  /-- An engine that is open has been opened, -/
  opened : e.state = .open_ → .opened ∈ e.history
  /-- and was opened after a whole login. -/
  loggedIn : ∀ a b, e.history = a ++ .opened :: b → LoggedIn a

/-- **Nothing leaks before TLS**, in every run of an engine that needs TLS. -/
theorem login_guarded (h : Reach Fresh Step e) : e.LoginGuarded := by
  have hinv : e.Guard ∧ e.Idle := by
    refine Reach.invariant (I := fun e => e.Guard ∧ e.Idle) (fun e hf => ⟨hf.guard, ?_⟩) ?_ e h
    · obtain ⟨settings, rfl⟩ := hf
      exact ⟨rfl, fun ho => by cases ho⟩
    · rintro e _ - ⟨hg, hi⟩ ⟨event, rfl⟩
      exact ⟨hg.act event, hi.act event⟩
  obtain ⟨hg, hi⟩ := hinv
  refine ⟨hg.guarded, ?_, hi.opened, hg.opened⟩
  intro pre post post' el bytes bytes' reaction hev hev' hpre
  by_cases hs : e.state ≠ .opening ∧ e.state ≠ .open_
  · unfold handleInput
    rw [if_pos hs, if_pos hs]
  · have hs : e.state = .opening ∨ e.state = .open_ := by
      by_contra hn
      exact hs (not_or.mp hn)
    rw [handleInput_proceed hi.notEntered hs hev hpre,
      handleInput_proceed hi.notEntered hs hev' hpre]

end XmppEngineImpl

/-! ### A server -/

/-- The bytes of a tag, and the callbacks that its last byte completes. -/
def Script.tag (text : Text) (cs : List Callback) : Script :=
  text.dropLast.map (fun b => (b, [])) ++ text.getLast?.toList.map fun b => (b, cs)

/-- What the server sends first: the start of its stream. -/
def serverStart : Text :=
  textBytes "<stream:stream xmlns:stream='http://etherx.jabber.org/streams' " ++
    textBytes "xmlns='jabber:client' version='1.0' id='1'>"

/-- Its features: TLS. -/
def serverFeatures : Text :=
  textBytes "<stream:features><starttls xmlns='urn:ietf:params:xml:ns:xmpp-tls'/></stream:features>"

/-- And what starts TLS. -/
def serverProceed : Text := textBytes "<proceed xmlns='urn:ietf:params:xml:ns:xmpp-tls'/>"

/-- A server that starts TLS. -/
def tlsServer : Script :=
  .tag serverStart [.startElement (textBytes "stream:stream")
    [(textBytes "xmlns:stream", nsStream), (textBytes "xmlns", nsClient),
      (textBytes "version", textBytes "1.0"), (textBytes "id", textBytes "1")]] ++
  .tag serverFeatures [.startElement (textBytes "stream:features") [],
    .startElement (textBytes "starttls") [(textBytes "xmlns", nsTls)],
    .endElement (textBytes "starttls"), .endElement (textBytes "stream:features")] ++
  .tag serverProceed [.startElement (textBytes "proceed") [(textBytes "xmlns", nsTls)],
    .endElement (textBytes "proceed")]

/-- A SASL handler that knows no mechanism. -/
def noSasl : SaslHandler where
  Mechanism := Unit
  chooseBestSaslMechanism := fun _ _ => []
  createSaslMechanism := fun _ => none
  startSaslAuth := fun m => (none, m)
  handleSaslChallenge := fun m _ => (none, m)

/-- A user at `example.com`. -/
def sampleSettings : Settings where
  userJid := .ofString (textBytes "user@example.com")
  requestedResource := []
  tlsServerHostname := []
  tlsServerDomain := []
  lang := []

/-- The user's code does nothing. -/
def quiet : ℕ → Reaction := fun _ => { calls := [], handled := true }

/-- An engine that has connected. -/
def connected : XmppEngineImpl tlsServer.expat noSasl :=
  (XmppEngineImpl.new sampleSettings true true).act .connect

/-- A login up to `<proceed/>`, with a stanza that the user has sent before. -/
def tlsLogin : XmppEngineImpl tlsServer.expat noSasl :=
  ((connected.act (.handleInput (serverStart ++ serverFeatures) quiet)).act
    (.user (.sendStanza (.new qnIq)))).act (.handleInput serverProceed quiet)

theorem login_guarded_sample : tlsLogin.LoginGuarded ∧ .startTls ∈ tlsLogin.history :=
  ⟨XmppEngineImpl.login_guarded
    (.step (.step (.step (.step (.init ⟨sampleSettings, rfl⟩) ⟨_, rfl⟩) ⟨_, rfl⟩) ⟨_, rfl⟩)
      ⟨_, rfl⟩), by decide +kernel⟩

end Jingle.Xmpp
