/-
The sessions of different peers.

`isolation` is about one stanza in any state of the manager: a registered session
with another peer than its sender stays registered and as it is, unless the stanza
is an initiate that creates a session under its id.  And in a run without such an
initiate every session that is not deleted stays registered, whatever happens to
the others, their destruction included.
-/
import Jingle.Signaling.LifeCycle
import Jingle.Signaling.Manager

namespace Jingle.Signaling

namespace SessionManager

variable {m : SessionManager} {ε : Type} (env : ManagerEnv ε)

/-! ### The map -/

theorem find_erased (entries : List (Text × ℕ)) (sid sid' : Text) :
    (entries.filter fun entry => entry.1 ≠ sid).find? (fun entry => entry.1 = sid') =
      if sid' = sid then none else entries.find? fun entry => entry.1 = sid' := by
  split
  · next h =>
    refine List.find?_eq_none.2 fun entry hentry => ?_
    simpa [h] using (List.mem_filter.1 hentry).2
  · next h =>
    rw [List.find?_filter]
    congr 1
    funext entry
    by_cases hentry : entry.1 = sid'
    · simp [hentry, h]
    · simp [hentry]

theorem getSession_create (localName initiatorName sid contentType : Text) (created : Reaction)
    (sid' : Text) :
    (m.createSession localName initiatorName sid contentType created).2.getSession sid' =
      if sid' = sid then some m.sessions.length else m.getSession sid' := by
  rw [getSession, createSession]
  dsimp only
  rw [List.find?_append, find_erased]
  split
  · next h => simp [h]
  · next h =>
    rw [getSession]
    rcases hfind : m.sessionMap.find? fun entry => decide (entry.1 = sid') with _ | entry
    · simp [hfind, Ne.symm h]
    · rw [hfind]
      rfl

theorem getSession_erase (sid sid' : Text) :
    ({ m with sessionMap := m.sessionMap.filter fun entry => entry.1 ≠ sid } :
      SessionManager).getSession sid' = if sid' = sid then none else m.getSession sid' := by
  rw [getSession, getSession]
  dsimp only
  rw [find_erased]
  split <;> rfl

theorem sessions_create (localName initiatorName sid contentType : Text) (created : Reaction) :
    (m.createSession localName initiatorName sid contentType created).2.sessions =
      m.sessions ++ [Session.run created (.new localName initiatorName sid contentType)] := rfl

theorem sessions_update (id id' : ℕ) (f : Session → Session) :
    (m.updateSession id f).sessions[id']? =
      if id = id' then (m.sessions[id']?).map f else m.sessions[id']? := by
  rw [updateSession, List.getElem?_modify]
  split
  · rfl
  · exact congrFun Option.map_id _

/-- The session is in the map under its own id. -/
def Registered (m : SessionManager) (id : ℕ) (session : Session) : Prop :=
  m.sessions[id]? = some session ∧ m.getSession session.sid = some id

theorem Registered.update {id id' : ℕ} {session : Session} (h : m.Registered id session)
    (hne : id' ≠ id) (f : Session → Session) : (m.updateSession id' f).Registered id session :=
  ⟨by rw [sessions_update, if_neg hne]; exact h.1, h.2⟩

theorem Registered.deliver {id id' : ℕ} {session : Session} (h : m.Registered id session)
    (hne : id' ≠ id) (msg : SessionMessage ε) (reaction heard : Reaction) :
    (m.deliver env id' msg reaction heard).2.Registered id session := by
  rw [SessionManager.deliver]
  split
  · exact h
  · exact h.update hne _

theorem Registered.create {id : ℕ} {session : Session} (h : m.Registered id session)
    {localName initiatorName sid contentType : Text} (created : Reaction)
    (hne : session.sid ≠ sid) :
    (m.createSession localName initiatorName sid contentType created).2.Registered id session := by
  refine ⟨?_, by rw [getSession_create, if_neg hne]; exact h.2⟩
  rw [sessions_create]
  exact List.getElem?_append_left (List.getElem?_eq_some_iff.1 h.1).1 ▸ h.1

/-! ### One stanza -/

/-- **Isolation**: a stanza touches no registered session with another peer. -/
def Isolated (m : SessionManager) (stanza : Except Text (SessionMessage ε))
    (created reaction heard : Reaction) : Prop :=
  ∀ id session, m.Registered id session →
    (∀ msg, stanza = .ok msg → env.jid session.remoteName ≠ env.jid msg.from_) →
      (m.onIncomingMessage env stanza created reaction heard).2.Registered id session

/-- The message is an initiate for a client of the manager, under the id of a
registered session with another peer. -/
def Collides (m : SessionManager) (msg : SessionMessage ε) : Prop :=
  msg.type = .sessionInitiate ∧
    (∃ contentType ∈ m.clients,
      env.parseContentType msg.protocol msg.actionElem = .ok contentType) ∧
    ∃ id session, m.Registered id session ∧ session.sid = msg.sid ∧
      env.jid session.remoteName ≠ env.jid msg.from_

theorem findSession_eq_some {sid remoteName : Text} {id : ℕ}
    (h : m.findSession env sid remoteName = some id) :
    m.getSession sid = some id ∧ ∃ session, m.sessions[id]? = some session ∧
      env.jid remoteName = env.jid session.remoteName := by
  rw [findSession] at h
  split at h
  · cases h
  · next id' hid =>
    split at h
    · cases h
    · next session hs =>
      split at h
      · cases h
      · next hj =>
        obtain rfl := Option.some.inj h
        exact ⟨hid, session, hs, not_not.1 hj⟩

theorem findSession_registered {id : ℕ} {session : Session} (h : m.Registered id session)
    {remoteName : Text} (hj : env.jid session.remoteName ≠ env.jid remoteName) :
    m.findSession env session.sid remoteName = none := by
  rw [findSession, h.2]
  dsimp only
  rw [h.1]
  exact if_pos hj.symm

theorem isolated_iff (m : SessionManager) (stanza : Except Text (SessionMessage ε))
    (created reaction heard : Reaction) :
    m.Isolated env stanza created reaction heard ↔
      ∀ msg, stanza = .ok msg → ¬m.Collides env msg := by
  rcases stanza with text | msg
  · exact iff_of_true (fun id session h _ => h) (by simp)
  · have hmsg : (∀ msg', (.ok msg : Except Text (SessionMessage ε)) = .ok msg' →
        ¬m.Collides env msg') ↔ ¬m.Collides env msg :=
      ⟨fun h => h msg rfl, fun h msg' heq => Except.ok.inj heq ▸ h⟩
    rw [hmsg, Isolated, onIncomingMessage]
    dsimp only
    rcases hf : m.findSession env msg.sid msg.from_ with _ | id'
    · dsimp only
      by_cases ht : msg.type = .sessionInitiate
      · rw [if_neg (not_not.2 ht)]
        rcases hparse : env.parseContentType msg.protocol msg.actionElem with text | contentType
        · refine iff_of_true (fun id session h _ => h) ?_
          rintro ⟨-, ⟨contentType, -, hct⟩, -⟩
          rw [hparse] at hct
          cases hct
        · dsimp only
          by_cases hc : contentType ∈ m.clients
          · rw [if_neg (not_not.2 hc)]
            constructor
            · -- the session under the id is not registered any more
              rintro h ⟨-, -, id, session, hreg, hsid, hj⟩
              have hlt := (List.getElem?_eq_some_iff.1 hreg.1).1
              have hafter := (h id session hreg fun msg' heq => Except.ok.inj heq ▸ hj).2
              rw [deliver] at hafter
              split at hafter
              all_goals
                have hget := hafter.symm.trans
                  (getSession_create msg.to_ msg.initiator msg.sid contentType created session.sid)
                rw [if_pos hsid] at hget
                exact absurd (Option.some.inj hget) hlt.ne
            · intro h id session hreg hj
              have hne : session.sid ≠ msg.sid := fun hsid =>
                h ⟨ht, ⟨contentType, hc, hparse⟩, id, session, hreg, hsid, hj msg rfl⟩
              refine (hreg.create created hne).deliver env ?_ msg reaction heard
              exact (List.getElem?_eq_some_iff.1 hreg.1).1.ne'
          · rw [if_pos hc]
            refine iff_of_true (fun id session h _ => h) ?_
            rintro ⟨-, ⟨contentType', hc', hct⟩, -⟩
            rw [hparse] at hct
            exact hc (Except.ok.inj hct ▸ hc')
      · rw [if_pos ht]
        exact iff_of_true (fun id session h _ => h) fun h => ht h.1
    · obtain ⟨hget, session', hs', hj'⟩ := findSession_eq_some env hf
      refine iff_of_true (fun id session hreg hj => hreg.deliver env ?_ msg reaction heard) ?_
      · rintro rfl
        rw [hreg.1] at hs'
        exact hj msg rfl (Option.some.inj hs' ▸ hj'.symm)
      · rintro ⟨-, -, id, session, hreg, hsid, hj⟩
        have hnone := findSession_registered env hreg hj
        rw [hsid, hf] at hnone
        cases hnone

/-! ### Runs -/

/-- What can happen to the manager. -/
inductive Event (ε : Type)
  | stanza (stanza : Except Text (SessionMessage ε)) (created reaction heard : Reaction)
  | createSession (localName sid contentType : Text) (created : Reaction)
  | session (id : ℕ) (e : Signaling.Event ε)
  | addClient (contentType : Text)
  | removeClient (contentType : Text)

/-- The manager after an event. -/
def act (m : SessionManager) : Event ε → SessionManager
  | .stanza stanza created reaction heard => (m.onIncomingMessage env stanza created reaction heard).2
  | .createSession localName sid contentType created =>
    (m.createSession localName localName sid contentType created).2
  | .session id e => m.actSession env id e
  | .addClient contentType => m.addClient contentType
  | .removeClient contentType => m.removeClient contentType

/-- No stanza collides, and the ids that the manager draws are new. -/
def Meets (m : SessionManager) : Event ε → Prop
  | .stanza stanza _ _ _ => ∀ msg, stanza = .ok msg → ¬m.Collides env msg
  | .createSession _ sid _ _ => m.getSession sid = none
  | _ => True

/-- The event is not one of the session: not a stanza of its peer and not its own. -/
def Other (id : ℕ) (session : Session) : Event ε → Prop
  | .stanza stanza _ _ _ =>
    ∀ msg, stanza = .ok msg → env.jid session.remoteName ≠ env.jid msg.from_
  | .session id' _ => id' ≠ id
  | _ => True

/-- One event under the condition. -/
def Next (m m' : SessionManager) : Prop := ∃ e : Event ε, m.Meets env e ∧ m' = m.act env e

/-- What holds in every run under the condition. -/
structure Sound (m : SessionManager) : Prop where
  registered : ∀ id session, m.sessions[id]? = some session → session.alive →
    m.getSession session.sid = some id
  entry : ∀ sid id, m.getSession sid = some id →
    ∃ session, m.sessions[id]? = some session ∧ session.sid = sid

theorem Sound.new : SessionManager.new.Sound where
  registered id session h := by simp [SessionManager.new] at h
  entry sid id h := by simp [SessionManager.new, getSession] at h

end SessionManager

namespace Session

variable {ε : Type} (parsers : Parsers ε) (env : Env)

theorem act_sid (s : Session) (e : Event ε) : (s.act parsers env e).sid = s.sid := by
  rcases he : e.isMessage with _ | _
  · exact (s.act_evolves parsers env he).sid
  · cases e with
    | message reaction =>
      rw [act]
      split
      · rfl
      · rcases onMessage_cases _ reaction _ with ⟨-, -, t, ht, heq⟩ | ⟨-, ht⟩
        · rw [heq]
          exact ht.sid
        · exact ht.sid
    | _ => cases he

end Session

namespace SessionManager

variable {m : SessionManager} {ε : Type} (env : ManagerEnv ε)

theorem Sound.update (h : m.Sound) (id : ℕ) {f : Session → Session}
    (hsid : ∀ session, m.sessions[id]? = some session → (f session).sid = session.sid)
    (halive : ∀ session, m.sessions[id]? = some session → (f session).alive → session.alive) :
    (m.updateSession id f).Sound := by
  constructor
  · intro id' session hs ha
    rw [sessions_update] at hs
    split at hs
    · next hid =>
      subst hid
      obtain ⟨session₀, hs₀, rfl⟩ := Option.map_eq_some_iff.1 hs
      rw [hsid session₀ hs₀]
      exact h.registered id session₀ hs₀ (halive session₀ hs₀ ha)
    · exact h.registered id' session hs ha
  · intro sid id' hget
    obtain ⟨session, hs, rfl⟩ := h.entry sid id' hget
    rw [sessions_update]
    split
    · next hid =>
      subst hid
      exact ⟨f session, by rw [hs]; rfl, hsid session hs⟩
    · exact ⟨session, hs, rfl⟩

theorem Sound.create (h : m.Sound) {localName initiatorName sid contentType : Text}
    (created : Reaction) (hnew : m.getSession sid = none) :
    (m.createSession localName initiatorName sid contentType created).2.Sound := by
  have hsid : (Session.run created (.new localName initiatorName sid contentType)).sid = sid :=
    (Session.run_evolves created _).sid
  constructor
  · intro id session hs ha
    rw [sessions_create] at hs
    rw [getSession_create]
    rcases Nat.lt_or_ge id m.sessions.length with hlt | hge
    · rw [List.getElem?_append_left hlt] at hs
      have hget := h.registered id session hs ha
      split
      · next heq =>
        rw [heq, hnew] at hget
        cases hget
      · exact hget
    · rw [List.getElem?_append_right hge] at hs
      obtain ⟨hlt, heq⟩ := List.getElem?_eq_some_iff.1 hs
      have hid : id = m.sessions.length := by
        simp only [List.length_singleton] at hlt
        omega
      rw [List.getElem_singleton] at heq
      rw [← heq, hsid, if_pos rfl, hid]
  · intro sid' id hget
    rw [getSession_create] at hget
    rw [sessions_create]
    split at hget
    · next heq =>
      obtain rfl := Option.some.inj hget
      exact ⟨_, List.getElem?_concat_length, hsid.trans heq.symm⟩
    · obtain ⟨session, hs, heq⟩ := h.entry sid' id hget
      exact ⟨session, List.getElem?_append_left (List.getElem?_eq_some_iff.1 hs).1 ▸ hs, heq⟩

theorem Sound.deliver (h : m.Sound) (id : ℕ) (msg : SessionMessage ε)
    (reaction heard : Reaction) : (m.deliver env id msg reaction heard).2.Sound := by
  rw [SessionManager.deliver]
  split
  · exact h
  · next session hs =>
    have he := Session.onIncomingMessage_evolves env.parsers env.toEnv
      (Session.run_evolves reaction) (Session.run_evolves heard) session msg
    refine h.update id (fun session' hs' => ?_) fun session' hs' ha => ?_
    · rw [he.sid, Option.some.inj (hs.symm.trans hs')]
    · rwa [he.alive, Option.some.inj (hs.symm.trans hs')] at ha

theorem Sound.stanza (h : m.Sound) (stanza : Except Text (SessionMessage ε))
    (created reaction heard : Reaction) (hm : ∀ msg, stanza = .ok msg → ¬m.Collides env msg) :
    (m.onIncomingMessage env stanza created reaction heard).2.Sound := by
  rcases stanza with text | msg
  · exact h
  · replace hm := hm msg rfl
    rw [onIncomingMessage]
    dsimp only
    rcases hf : m.findSession env msg.sid msg.from_ with _ | id
    · dsimp only
      split
      · exact h
      · next ht =>
        rcases hparse : env.parseContentType msg.protocol msg.actionElem with text | contentType
        · exact h
        · dsimp only
          split
          · exact h
          · next hc =>
            refine (h.create created ?_).deliver env _ msg reaction heard
            rcases hget : m.getSession msg.sid with _ | id
            · rfl
            · exfalso
              obtain ⟨session, hs, hsid⟩ := h.entry msg.sid id hget
              have hreg : m.Registered id session := ⟨hs, by rw [hsid]; exact hget⟩
              refine hm ⟨not_not.1 ht, ⟨contentType, not_not.1 hc, hparse⟩, id, session, hreg,
                hsid, fun hj => ?_⟩
              rw [findSession, hget] at hf
              dsimp only at hf
              rw [hs] at hf
              exact absurd hf (by simp [hj])
    · exact h.deliver env id msg reaction heard

theorem Sound.ne (h : m.Sound) {id id' : ℕ} {session session' : Session}
    (hs : m.sessions[id]? = some session) (hs' : m.sessions[id']? = some session')
    (ha : session.alive) (ha' : session'.alive) (hne : id' ≠ id) : session.sid ≠ session'.sid := by
  intro hsid
  have hget := h.registered id session hs ha
  rw [hsid, h.registered id' session' hs' ha'] at hget
  exact hne (Option.some.inj hget)

theorem Sound.session (h : m.Sound) (id : ℕ) (e : Signaling.Event ε) :
    (m.actSession env id e).Sound := by
  rw [actSession]
  split
  · exact h
  · next session hs =>
    split
    · exact h
    · next ha =>
      have halive : session.alive = true := by simpa using ha
      have hself : ∀ session', m.sessions[id]? = some session' → session' = session :=
        fun session' hs' => Option.some.inj (hs'.symm.trans hs)
      dsimp only
      split
      · refine h.update id (fun session' hs' => ?_) fun session' hs' _ => ?_
        · rw [Session.act_sid, hself session' hs']
        · rw [hself session' hs', halive]
      · next hdead =>
        split
        · exact h.update id (fun _ _ => rfl) fun _ _ ha => ha
        · constructor
          · intro id' session' hs' ha'
            dsimp only at hs'
            rw [sessions_update] at hs'
            split at hs'
            · obtain ⟨_, -, rfl⟩ := Option.map_eq_some_iff.1 hs'
              exact absurd ha' hdead
            · next hne =>
              have hsid := h.ne hs hs' halive ha' (Ne.symm hne)
              exact (getSession_erase _ _).trans
                ((if_neg hsid.symm).trans (h.registered id' session' hs' ha'))
          · intro sid id' hget
            replace hget := (getSession_erase session.sid sid).symm.trans hget
            split at hget
            · cases hget
            · next hsid =>
              obtain ⟨session', hs', heq⟩ := h.entry sid id' hget
              refine ⟨session', ?_, heq⟩
              dsimp only
              rw [sessions_update, if_neg]
              · exact hs'
              · rintro rfl
                exact hsid (heq.symm.trans (congrArg Session.sid (hself session' hs')))

theorem Sound.act (h : m.Sound) (e : Event ε) (hm : m.Meets env e) : (m.act env e).Sound := by
  cases e with
  | stanza stanza created reaction heard => exact h.stanza env stanza created reaction heard hm
  | createSession localName sid contentType created => exact h.create created hm
  | session id e => exact h.session env id e
  | addClient contentType => exact ⟨h.registered, h.entry⟩
  | removeClient contentType => exact ⟨h.registered, h.entry⟩

theorem Sound.other (h : m.Sound) {id : ℕ} {session : Session}
    (hs : m.sessions[id]? = some session) (ha : session.alive) (e : Event ε)
    (hm : m.Meets env e) (ho : Other env id session e) : (m.act env e).Registered id session := by
  have hreg : m.Registered id session := ⟨hs, h.registered id session hs ha⟩
  cases e with
  | stanza stanza created reaction heard =>
    exact (isolated_iff env m stanza created reaction heard).2 hm id session hreg ho
  | createSession localName sid contentType created =>
    refine hreg.create created ?_
    rintro rfl
    exact absurd (hreg.2.symm.trans hm) (by simp)
  | session id' e =>
    rw [SessionManager.act, actSession]
    split
    · exact hreg
    · next session' hs' =>
      split
      · exact hreg
      · next ha' =>
        dsimp only
        split
        · exact hreg.update ho _
        · split
          · exact hreg.update ho _
          · refine ⟨(hreg.update ho _).1, (getSession_erase _ _).trans ((if_neg ?_).trans hreg.2)⟩
            exact h.ne hs hs' ha (by simpa using ha') ho
  | addClient contentType => exact hreg
  | removeClient contentType => exact hreg

/-- **Sessions of different peers**: a stanza touches no registered session with
another peer, in any state of the manager, if and only if it does not collide; and in a
run without collisions a session that is not deleted stays registered and as it is in
every event that is neither a stanza of its peer nor its own. -/
theorem isolation :
    (∀ (m : SessionManager) (stanza : Except Text (SessionMessage ε))
        (created reaction heard : Reaction),
      m.Isolated env stanza created reaction heard ↔
        ∀ msg, stanza = .ok msg → ¬m.Collides env msg) ∧
      ∀ m, Reach (· = new) (Next env) m → ∀ id session, m.sessions[id]? = some session →
        session.alive → m.Registered id session ∧
          ∀ e, m.Meets env e → Other env id session e → (m.act env e).Registered id session := by
  refine ⟨isolated_iff env, fun m hm => ?_⟩
  have hs : m.Sound := by
    refine Reach.invariant (I := Sound) ?_ ?_ m hm
    · rintro _ rfl
      exact .new
    · rintro m _ - h ⟨e, hm, rfl⟩
      exact h.act env e hm
  exact fun id session hid ha =>
    ⟨⟨hid, hs.registered id session hid ha⟩, fun e hm ho => hs.other env hid ha e hm ho⟩

/-- **A session that is replaced**: another peer sends an initiate with its id. -/
theorem not_isolated :
    ¬∀ (env : ManagerEnv Unit) (m : SessionManager) (stanza : Except Text (SessionMessage Unit))
        (created reaction heard : Reaction), m.Isolated env stanza created reaction heard := by
  intro h
  have hiso := h
    { isLocalIP := fun _ => false
      bareJidsEqual := fun _ _ => false
      jid := fun text => some ⟨[], text, []⟩
      parsers := .refusing
      parseContentType := fun _ _ => .ok [7] }
    ⟨[{ Session.new [] [] [1] [7] with remoteName := [2] }], [([1], 0)], [[7]]⟩
    (.ok ⟨[3], [], .jingle, .sessionInitiate, [1], [], ()⟩) .done .done .done
    0 { Session.new [] [] [1] [7] with remoteName := [2] } ⟨rfl, rfl⟩ (fun msg heq => by
      obtain rfl := Except.ok.inj heq
      decide)
  exact absurd hiso.2 (by decide)

end SessionManager

end Jingle.Signaling
