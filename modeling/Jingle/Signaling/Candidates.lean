/-
The candidates of an initiating session.

Every candidate that a transport reports should have been sent to the peer, or
wait in the unsent list of its proxy.  A redirect makes another resource the
peer, which has been sent nothing yet; `OnRedirectError` sends it the candidates
in the sent lists, and these are not all that have been sent: `OnInitiateAcked`
sends the unsent ones without listing them, a negotiated proxy lists no more, and
a redirect clears the lists.

`Carries` is what every other operation does to the candidates.  `none_lost` says
that nothing is lost as long as each redirect finds in the sent lists all that it
has to send again, and that any other redirect loses something.
-/
import Jingle.Signaling.Connect
import Jingle.Signaling.LifeCycle
import Jingle.Lib.Reach

namespace Jingle.Signaling

open P2p (Candidate)
open Tunnel (SessionState)

/-! ### Candidate lists of a proxy -/

namespace TransportProxy

/-- The candidates that the proxy keeps, for its content. -/
def lists (p : TransportProxy) : Text × List Candidate × List Candidate :=
  (p.contentName, p.sentCandidates, p.unsentCandidates)

theorem getOrCreateImpl_lists (p : TransportProxy) (name contentType : Text) :
    (p.getOrCreateImpl name contentType).2.lists = p.lists := by
  rw [(p.getOrCreateImpl_spec name contentType).1]
  rfl

theorem setProxyImpl_lists (p : TransportProxy) (name contentType : Text) :
    (p.setProxyImpl name contentType).lists = p.lists := by
  rw [setProxyImpl_eq]
  rfl

theorem createChannel_lists (p : TransportProxy) (name contentType : Text) :
    (p.createChannel name contentType).lists = p.lists := by
  rw [createChannel]
  dsimp only
  split
  · exact setProxyImpl_lists _ _ _
  · exact getOrCreateImpl_lists _ _ _
  · rfl

theorem destroyChannel_lists (p : TransportProxy) (name : Text) :
    (p.destroyChannel name).lists = p.lists := by
  rw [destroyChannel]
  split
  · rfl
  · dsimp only
    split <;> rfl

theorem createImpls_lists (chs : List ChannelProxy) (p : TransportProxy) :
    (createImpls chs p).lists = p.lists := by
  induction chs generalizing p with
  | nil => rfl
  | cons ch chs ih => exact (ih _).trans (getOrCreateImpl_lists _ _ _)

theorem setImpls_lists (chs : List ChannelProxy) (p : TransportProxy) :
    (setImpls chs p).lists = p.lists := by
  induction chs generalizing p with
  | nil => rfl
  | cons ch chs ih => exact (ih _).trans (setProxyImpl_lists _ _ _)

theorem speculativelyConnectChannels_lists (p : TransportProxy) :
    p.speculativelyConnectChannels.lists = p.lists :=
  createImpls_lists p.channels { p with state := .connecting }

theorem completeNegotiation_lists (p : TransportProxy) : p.completeNegotiation.lists = p.lists := by
  rw [completeNegotiation]
  split
  · exact setImpls_lists p.channels { p with state := .negotiated }
  · rfl

end TransportProxy

namespace Session

/-! ### Where a candidate is -/

/-- The transport-infos that the session has sent, with their receivers. -/
def infos (s : Session) : List (Text × TransportInfo) :=
  s.sent.filterMap fun o =>
    match o.action with
    | .transportInfo info => some (o.to_, info)
    | _ => none

/-- The candidate of a content was sent to a receiver. -/
def Told (s : Session) (receiver : Text) (r : Text × Candidate) : Prop :=
  ∃ info, (receiver, info) ∈ s.infos ∧ info.contentName = r.1 ∧ r.2 ∈ info.candidates

/-- The candidate is in one of the lists of the proxy of its content. -/
def Holds (s : Session) (get : TransportProxy → List Candidate) (r : Text × Candidate) : Prop :=
  ∃ p ∈ s.transports, p.contentName = r.1 ∧ r.2 ∈ get p

/-- The candidate is in the unsent list. -/
def Unsent (s : Session) (r : Text × Candidate) : Prop :=
  s.Holds TransportProxy.unsentCandidates r

/-- The candidate is in the sent list. -/
def Listed (s : Session) (r : Text × Candidate) : Prop :=
  s.Holds TransportProxy.sentCandidates r

theorem holds_congr {s s' : Session}
    (hl : s'.transports.map TransportProxy.lists = s.transports.map TransportProxy.lists)
    (get : Text × List Candidate × List Candidate → List Candidate) (r : Text × Candidate) :
    s'.Holds (fun p => get p.lists) r ↔ s.Holds (fun p => get p.lists) r := by
  have hmap : ∀ s : Session, s.Holds (fun p => get p.lists) r ↔
      ∃ l ∈ s.transports.map TransportProxy.lists, l.1 = r.1 ∧ r.2 ∈ get l := fun s => by
    constructor
    · rintro ⟨p, hp, hr⟩
      exact ⟨p.lists, List.mem_map_of_mem hp, hr⟩
    · rintro ⟨l, hl, hr⟩
      obtain ⟨p, hp, rfl⟩ := List.mem_map.1 hl
      exact ⟨p, hp, hr⟩
  rw [hmap, hmap, hl]

theorem holds_updateProxy (s : Session) (contentName : Text) (f : TransportProxy → TransportProxy)
    (get : TransportProxy → List Candidate) {added : List Candidate}
    (hname : ∀ p, (f p).contentName = p.contentName) (hget : ∀ p, get (f p) = get p ++ added)
    (r : Text × Candidate) :
    (s.updateProxy contentName f).Holds get r ↔
      s.Holds get r ∨
        (∃ p ∈ s.transports, p.contentName = contentName) ∧ r.1 = contentName ∧ r.2 ∈ added := by
  constructor
  · rintro ⟨p', hp', hn, hr⟩
    obtain ⟨p, hp, rfl⟩ := List.mem_map.1 hp'
    by_cases hc : p.contentName = contentName
    · rw [if_pos hc] at hn hr
      rw [hname] at hn
      rw [hget] at hr
      rcases List.mem_append.1 hr with hr | hr
      · exact .inl ⟨p, hp, hn, hr⟩
      · exact .inr ⟨⟨p, hp, hc⟩, hn.symm.trans hc, hr⟩
    · rw [if_neg hc] at hn hr
      exact .inl ⟨p, hp, hn, hr⟩
  · rintro (⟨p, hp, hn, hr⟩ | ⟨⟨p, hp, hc⟩, hr₁, hr⟩) <;>
      refine ⟨_, List.mem_map_of_mem hp, ?_, ?_⟩
    · split
      · exact (hname p).trans hn
      · exact hn
    · split
      · rw [hget]
        exact List.mem_append_left _ hr
      · exact hr
    · rw [if_pos hc, hname, hc, hr₁]
    · rw [if_pos hc, hget]
      exact List.mem_append_right _ hr

theorem holds_updateProxy_self (s : Session) (contentName : Text)
    (f : TransportProxy → TransportProxy) (get : TransportProxy → List Candidate)
    (hname : ∀ p, (f p).contentName = p.contentName) (hget : ∀ p, get (f p) = get p)
    (r : Text × Candidate) : (s.updateProxy contentName f).Holds get r ↔ s.Holds get r := by
  rw [s.holds_updateProxy contentName f get hname fun p => (hget p).trans (List.append_nil _).symm]
  simp

theorem told_send (s : Session) (contentName : Text) (candidates : List Candidate) (t : Text)
    (r : Text × Candidate) :
    (s.sendTransportInfoMessage contentName candidates).Told t r ↔
      s.Told t r ∨ t = s.remoteName ∧ contentName = r.1 ∧ r.2 ∈ candidates := by
  have hinfos : (s.sendTransportInfoMessage contentName candidates).infos =
      s.infos ++ [(s.remoteName, ⟨contentName, nsGingleP2p, candidates⟩)] := by
    simp [infos, sendTransportInfoMessage, send]
  rw [Told, hinfos, Told]
  constructor
  · rintro ⟨info, hmem, hr⟩
    rcases List.mem_append.1 hmem with hmem | hmem
    · exact .inl ⟨info, hmem, hr⟩
    · obtain ⟨rfl, rfl⟩ := Prod.mk.inj (List.mem_singleton.1 hmem)
      exact .inr ⟨rfl, hr⟩
  · rintro (⟨info, hmem, hr⟩ | ⟨rfl, hr⟩)
    · exact ⟨info, List.mem_append_left _ hmem, hr⟩
    · exact ⟨_, List.mem_append_right _ List.mem_cons_self, hr⟩

/-- From `s` to `s'` the peer stays, and unsent candidates are sent to it or kept. -/
structure Carries (s s' : Session) : Prop where
  remoteName : s'.remoteName = s.remoteName
  told : ∀ t r, s.Told t r → s'.Told t r
  told_of : ∀ t r, s'.Told t r → s.Told t r ∨ s.Unsent r
  unsent : ∀ r, s.Unsent r → s'.Told s'.remoteName r ∨ s'.Unsent r
  unsent_of : ∀ r, s'.Unsent r → s.Unsent r
  listed_of : ∀ r, s'.Listed r → s.Listed r

theorem Carries.trans {s t u : Session} (h : Carries s t) (h' : Carries t u) : Carries s u where
  remoteName := h'.remoteName.trans h.remoteName
  told n r hr := h'.told n r (h.told n r hr)
  told_of n r hr := (h'.told_of n r hr).elim (h.told_of n r) fun hu => .inr (h.unsent_of r hu)
  unsent r hr := by
    rcases h.unsent r hr with ht | hu
    · rw [h'.remoteName]
      exact .inl (h'.told _ r ht)
    · exact h'.unsent r hu
  unsent_of r hr := h.unsent_of r (h'.unsent_of r hr)
  listed_of r hr := h.listed_of r (h'.listed_of r hr)

theorem Carries.of_eq {s s' : Session} (hn : s'.remoteName = s.remoteName)
    (hi : s'.infos = s.infos)
    (hl : s'.transports.map TransportProxy.lists = s.transports.map TransportProxy.lists) :
    Carries s s' where
  remoteName := hn
  told t r hr := by rwa [Told, hi]
  told_of t r hr := .inl (by rwa [Told, hi] at hr)
  unsent r hr := .inr ((holds_congr hl (fun l => l.2.2) r).2 hr)
  unsent_of r hr := (holds_congr hl (fun l => l.2.2) r).1 hr
  listed_of r hr := (holds_congr hl (fun l => l.2.1) r).1 hr

theorem Carries.refl (s : Session) : Carries s s := .of_eq rfl rfl rfl

theorem Carries.after {s s₁ t : Session} (h : Carries s₁ t) (hn : s₁.remoteName = s.remoteName)
    (hi : s₁.infos = s.infos)
    (hl : s₁.transports.map TransportProxy.lists = s.transports.map TransportProxy.lists) :
    Carries s t :=
  .trans (.of_eq hn hi hl) h

theorem Carries.lost_iff {s s' : Session} (h : Carries s s') (r : Text × Candidate) :
    s'.Told s'.remoteName r ∨ s'.Unsent r ↔ s.Told s.remoteName r ∨ s.Unsent r := by
  constructor
  · rintro (ht | hu)
    · exact h.remoteName ▸ h.told_of _ r ht
    · exact .inr (h.unsent_of r hu)
  · rintro (ht | hu)
    · exact .inl (h.remoteName ▸ h.told _ r ht)
    · exact h.unsent r hu

/-! ### Changes of proxies -/

theorem updateProxy_lists (s : Session) (contentName : Text) {f : TransportProxy → TransportProxy}
    (hf : ∀ p, (f p).lists = p.lists) :
    (s.updateProxy contentName f).transports.map TransportProxy.lists =
      s.transports.map TransportProxy.lists := by
  rw [updateProxy, List.map_map]
  refine List.map_congr_left fun p _ => ?_
  dsimp only [Function.comp_apply]
  split
  · exact hf p
  · rfl

theorem getOrCreateTransportProxy_carries (s : Session) (contentName : Text) :
    Carries s (s.getOrCreateTransportProxy contentName) := by
  rw [getOrCreateTransportProxy]
  split
  · exact .refl s
  · have hnew : ∀ {get : TransportProxy → List Candidate} (r : Text × Candidate),
        get (.new contentName nsGingleP2p) = [] →
        (({ s with transports := s.transports ++ [.new contentName nsGingleP2p] } : Session).Holds
          get r ↔ s.Holds get r) := by
      intro get r hget
      rw [Holds, Holds]
      simp only [List.mem_append, List.mem_singleton, or_and_right, exists_or, exists_eq_left,
        hget, List.not_mem_nil, and_false, or_false]
    exact ⟨rfl, fun _ _ => id, fun _ _ => .inl, fun r hr => .inr ((hnew r rfl).2 hr),
      fun r hr => (hnew r rfl).1 hr, fun r hr => (hnew r rfl).1 hr⟩

theorem speculativelyConnect_carries (s : Session) :
    Carries s s.speculativelyConnectAllTransportChannels := by
  refine .of_eq rfl rfl ?_
  rw [speculativelyConnectAllTransportChannels, List.map_map]
  exact List.map_congr_left fun p _ => p.speculativelyConnectChannels_lists

theorem onRemoteCandidates_lists (env : Env) (infos : List TransportInfo) (s : Session) :
    (onRemoteCandidates env infos s).2.transports.map TransportProxy.lists =
      s.transports.map TransportProxy.lists := by
  induction infos generalizing s with
  | nil => rfl
  | cons info infos ih =>
    rw [onRemoteCandidates]
    have hcomplete := s.updateProxy_lists info.contentName
      TransportProxy.completeNegotiation_lists
    split
    · rfl
    · dsimp only
      split
      · exact hcomplete
      · refine (ih _).trans (.trans ?_ hcomplete)
        exact updateProxy_lists _ _ fun _ => rfl

theorem onRemoteCandidates_carries (env : Env) (infos : List TransportInfo) (s : Session) :
    Carries s (onRemoteCandidates env infos s).2 := by
  have hl := onRemoteCandidates_lists env infos s
  rw [onRemoteCandidates_eq] at hl ⊢
  exact .of_eq rfl rfl hl

/-! ### Sending lists -/

theorem flush_transports (candidates : TransportProxy → List Candidate)
    {clear : TransportProxy → TransportProxy} (hc : ∀ p, clear (clear p) = clear p)
    (ps : List TransportProxy) (s : Session) :
    ∃ g : TransportProxy → TransportProxy, (∀ p, g p = p ∨ g p = clear p) ∧
      (flush candidates clear ps s).transports = s.transports.map g := by
  induction ps generalizing s with
  | nil => exact ⟨id, fun p => .inl rfl, (List.map_id _).symm⟩
  | cons p ps ih =>
    rw [flush]
    split
    · exact ih s
    · obtain ⟨g, hg, heq⟩ := ih
        ((s.sendTransportInfoMessage p.contentName (candidates p)).updateProxy p.contentName clear)
      refine ⟨fun q => g (if q.contentName = p.contentName then clear q else q), fun q => ?_, ?_⟩
      · dsimp only
        split
        · rcases hg (clear q) with h | h
          · exact .inr h
          · exact .inr (h.trans (hc q))
        · exact hg q
      · rw [heq, updateProxy, List.map_map]
        rfl

theorem flush_told (candidates : TransportProxy → List Candidate)
    (clear : TransportProxy → TransportProxy) (ps : List TransportProxy) (s : Session) (t : Text)
    (r : Text × Candidate) :
    (flush candidates clear ps s).Told t r ↔
      s.Told t r ∨ t = s.remoteName ∧ ∃ p ∈ ps, p.contentName = r.1 ∧ r.2 ∈ candidates p := by
  have hinfos : (flush candidates clear ps s).infos = s.infos ++
      (ps.filter fun p => candidates p ≠ []).map fun p =>
        (s.remoteName, ⟨p.contentName, nsGingleP2p, candidates p⟩) := by
    rw [flush_eq, infos, infos, List.filterMap_append, flushed, List.filterMap_map,
      ← List.filterMap_eq_map]
    rfl
  rw [Told, hinfos, Told]
  simp only [List.mem_append, or_and_right, exists_or]
  refine or_congr Iff.rfl ⟨?_, ?_⟩
  · rintro ⟨info, hmem, hname, hr⟩
    obtain ⟨p, hp, heq⟩ := List.mem_map.1 hmem
    obtain ⟨rfl, rfl⟩ := Prod.mk.inj heq
    exact ⟨rfl, p, List.mem_of_mem_filter hp, hname, hr⟩
  · rintro ⟨rfl, p, hp, hname, hr⟩
    refine ⟨⟨p.contentName, nsGingleP2p, candidates p⟩, List.mem_map_of_mem ?_, hname, hr⟩
    exact List.mem_filter.2 ⟨hp, by simpa using List.ne_nil_of_mem hr⟩

theorem onInitiateAcked_carries (s : Session) : Carries s s.onInitiateAcked := by
  rw [onInitiateAcked]
  split
  · rw [sendAllUnsentTransportInfoMessages]
    generalize hs₁ : ({ s with initiateAcked := true } : Session) = s₁
    have hstart : Carries s s₁ := hs₁ ▸ .of_eq rfl rfl rfl
    refine hstart.trans ?_
    obtain ⟨g, hg, heq⟩ := flush_transports TransportProxy.unsentCandidates
      (fun p : TransportProxy => (rfl : p.clearUnsentCandidates.clearUnsentCandidates = _))
      s₁.transports s₁
    have hname : (flush TransportProxy.unsentCandidates TransportProxy.clearUnsentCandidates
        s₁.transports s₁).remoteName = s₁.remoteName := by rw [flush_eq]
    refine ⟨hname, fun t r hr => (flush_told _ _ _ _ t r).2 (.inl hr), fun t r hr => ?_,
      fun r hr => .inl ?_, ?_, ?_⟩
    · refine ((flush_told _ _ _ _ t r).1 hr).imp_right fun h => ?_
      exact h.2
    · exact (flush_told _ _ _ _ _ r).2 (.inr ⟨hname, hr⟩)
    all_goals
      rintro r ⟨p', hp', hn, hr⟩
      rw [heq] at hp'
      obtain ⟨p, hp, rfl⟩ := List.mem_map.1 hp'
      rcases hg p with h | h <;> rw [h] at hn hr
      · exact ⟨p, hp, hn, hr⟩
    · exact absurd hr List.not_mem_nil
    · exact ⟨p, hp, hn, hr⟩
  · exact .refl s

/-! ### Calls and messages -/

/-- No initiate and no modify of the peer waits for an answer, and none was sent back. -/
def Initiating (state : SessionState) : Prop :=
  state ≠ .init ∧ state ≠ .receivedInitiate ∧ state ≠ .receivedModify

theorem initiating_sentInitiate : Initiating .sentInitiate := ⟨by simp, by simp, by simp⟩

theorem Initiating.turn {a b : SessionState} {answer : Option Action} (h : Turn a answer b)
    (ha : Initiating a) : Initiating b := by
  cases h with
  | initiated => exact absurd rfl ha.1
  | _ => exact ⟨by simp, by simp, by simp⟩

section

variable {react heard : Session → Session} (hr : ∀ s : Session, Initiating s.state → Carries s (react s))
include hr

theorem setState_carries {s : Session} {state : SessionState}
    (hstate : Initiating state) : Carries s (s.setState react state) := by
  rw [setState]
  split
  · have h : Carries s (react { s with state, entered := s.entered ++ [state] }) :=
      (hr _ hstate).after rfl rfl rfl
    exact h.trans (.of_eq rfl rfl rfl)
  · exact .refl s

theorem setError_carries {s : Session} (h : Initiating s.state) (error : SessionError) :
    Carries s (s.setError react error) := by
  have hc : Carries s (if error ≠ s.error then react { s with error } else s) := by
    split
    · exact (hr { s with error } h).after rfl rfl rfl
    · exact .refl s
  have hpost : ∀ t, Carries s t →
      Carries s (if t.error ≠ .none then { t with queue := t.queue ++ [.error] } else t) := by
    intro t ht
    split
    · exact ht.trans (.of_eq rfl rfl rfl)
    · exact ht
  exact hpost _ hc

theorem terminateWithReason_carries (s : Session) (reason : Text) :
    Carries s (s.terminateWithReason react reason) := by
  have hstate : Initiating .sentTerminate := ⟨by simp, by simp, by simp⟩
  rw [terminateWithReason]
  split
  · exact .refl s
  · exact .refl s
  · exact setState_carries hr hstate
  · exact setState_carries hr hstate
  · refine (setState_carries hr hstate).after rfl ?_ rfl
    simp [infos, send]

theorem call_carries {s : Session} (h : Initiating s.state) (c : Call) : Carries s (s.call react c) := by
  cases c with
  | initiate to_ sdesc written =>
    rw [call, initiate, if_pos h.1]
    exact .refl s
  | accept sdesc written =>
    rw [call, accept, if_pos h.2.1]
    exact .refl s
  | reject =>
    rw [call, reject, if_pos h.2]
    exact .refl s
  | terminateWithReason reason => exact terminateWithReason_carries hr s reason
  | setError error => exact setError_carries hr h error
  | createChannel contentName channelName =>
    refine (s.getOrCreateTransportProxy_carries contentName).trans (.of_eq rfl rfl ?_)
    exact updateProxy_lists _ _ fun p => p.createChannel_lists _ _
  | destroyChannel contentName channelName =>
    exact .of_eq rfl rfl (s.updateProxy_lists _ fun p => p.destroyChannel_lists _)

end

theorem run_carries (reaction : Reaction) {s : Session} (h : Initiating s.state) :
    Carries s (run reaction s) := by
  induction reaction generalizing s with
  | done => exact .refl s
  | call c inner rest ihi ihr =>
    exact (call_carries (fun _ => ihi) h c).trans
      (ihr (Life.moves_state Initiating.turn (call_evolves (run_evolves inner) s c).life h))

section

variable {ε : Type} (parsers : Parsers ε) (env : Env) (reaction heard : Reaction)

theorem onStateMessage_carries (s : Session) : Carries s (s.onStateMessage (run reaction)) := by
  have hr : ∀ s : Session, Initiating s.state → Carries s (run reaction s) := fun _ => run_carries reaction
  rw [onStateMessage]
  split
  · exact setState_carries hr ⟨by simp, by simp, by simp⟩
  · exact setState_carries hr ⟨by simp, by simp, by simp⟩
  · exact terminateWithReason_carries hr s _
  · exact terminateWithReason_carries hr s _
  · exact .refl s

theorem onMessage_carries (s : Session) (p : Posted) :
    Carries s (s.onMessage (run reaction) p) := by
  cases p with
  | state =>
    rw [onMessage]
    split
    · exact (onStateMessage_carries reaction s).trans (.of_eq rfl rfl rfl)
    · exact onStateMessage_carries reaction s
  | error => exact terminateWithReason_carries (fun _ => run_carries reaction) s _

theorem onIncomingMessage_carries {s : Session} (h : Initiating s.state) (msg : SessionMessage ε) :
    Carries s (s.onIncomingMessage (run reaction) parsers env (run heard) msg).2 := by
  have hr : ∀ s : Session, Initiating s.state → Carries s (run reaction s) := fun _ => run_carries reaction
  have hchoose : Carries s (s.chooseProtocol msg.protocol) ∧
      Initiating (s.chooseProtocol msg.protocol).state := by
    rw [chooseProtocol]
    split
    · exact ⟨.of_eq rfl rfl rfl, h⟩
    · exact ⟨.refl s, h⟩
  rw [onIncomingMessage]
  refine hchoose.1.trans ?_
  replace h := hchoose.2
  generalize s.chooseProtocol msg.protocol = s at h ⊢
  cases msg.type with
  | sessionInitiate =>
    dsimp only
    rw [onInitiateMessage, if_pos (by simpa [checkState] using h.1)]
    exact .refl s
  | sessionInfo => exact run_carries heard h
  | sessionAccept =>
    dsimp only
    rw [onAcceptMessage]
    split
    · exact .refl s
    · split
      · exact .refl s
      · have hstate : Initiating .receivedAccept := ⟨by simp, by simp, by simp⟩
        refine s.onInitiateAcked_carries.trans ?_
        dsimp only
        split
        · refine .trans ?_ (onRemoteCandidates_carries env _ _)
          exact (setState_carries hr hstate).after rfl rfl rfl
        · exact (setState_carries hr hstate).after rfl rfl rfl
  | sessionReject =>
    dsimp only
    rw [onRejectMessage]
    split
    · exact .refl s
    · exact setState_carries hr ⟨by simp, by simp, by simp⟩
  | sessionTerminate =>
    dsimp only
    rw [onTerminateMessage]
    split
    · exact .refl s
    · exact (run_carries heard h).trans (setState_carries hr ⟨by simp, by simp, by simp⟩)
  | transportInfo =>
    dsimp only
    rw [onTransportInfoMessage]
    split
    · exact .refl s
    · exact onRemoteCandidates_carries env _ s
  | transportAccept => exact .refl s
  | update =>
    dsimp only
    rw [onUpdateMessage]
    split
    · exact .refl s
    · split
      · exact .refl s
      · dsimp only
        split
        · exact .refl s
        · refine Carries.after (run_carries heard ?_) rfl rfl rfl
          exact h
  | unknown => exact .refl s

end

end Session

namespace Session

/-! ### Reports and redirects -/

/-- **An accepted redirect**: the listed candidates are sent to the new target,
if the initiate can be written. -/
theorem onFailedSend_redirect (s : Session) (env : Env) (type : ActionType) (target : Text)
    (errorType : Option Text) (written : Bool) (reaction : Reaction)
    (hs : s.state = .sentInitiate) (hb : env.bareJidsEqual s.remoteName target) :
    ∃ s₁ : Session, Carries s₁ (s.onFailedSend (run reaction) env type (some target) errorType
        written) ∧ s₁.remoteName = target ∧
      (∀ t r, s₁.Told t r ↔ s.Told t r ∨ t = target ∧ written ∧ s.Listed r) ∧
      (∀ r, s₁.Unsent r ↔ s.Unsent r) ∧ ∀ r, s₁.Listed r → s.Listed r := by
  have hstate : s.checkState .sentInitiate = true := by simpa [checkState] using hs
  rw [onFailedSend, onRedirectError]
  cases written with
  | false =>
    refine ⟨{ s with remoteName := target }, ?_, rfl, fun t r => ?_, fun r => Iff.rfl,
      fun r => id⟩
    · simp only [hstate, hb, sendInitiateMessage, Bool.not_true, Bool.false_eq_true, reduceIte]
      refine setError_carries (fun _ => run_carries reaction) ?_ _
      exact hs ▸ ⟨by simp, by simp, by simp⟩
    · exact (or_iff_left fun h => Bool.false_ne_true h.2.1).symm
  | true =>
    simp only [hstate, hb, sendInitiateMessage, Bool.not_true, Bool.false_eq_true, reduceIte,
      resendAllTransportInfoMessages]
    generalize hs₂ : ({ s with remoteName := target }.send
      (.initiate ⟨s.localDescription.getD [], getEmptyTransportInfos _⟩) : Session) = s₂
    obtain ⟨g, hg, heq⟩ := flush_transports TransportProxy.sentCandidates
      (fun p : TransportProxy => (rfl : p.clearSentCandidates.clearSentCandidates = _))
      s₂.transports s₂
    have hn₂ : s₂.remoteName = target := hs₂ ▸ rfl
    have ht₂ : s₂.transports = s.transports := hs₂ ▸ rfl
    have hi₂ : s₂.infos = s.infos := by
      rw [← hs₂]
      simp [infos, send]
    refine ⟨_, .refl _, by rw [flush_eq]; exact hn₂, fun t r => ?_, fun r => ?_, fun r hr => ?_⟩
    · rw [flush_told, Told, hi₂, hn₂, ht₂]
      rw [← ht₂, Listed, Holds, ht₂]
      exact or_congr Iff.rfl (and_congr_right fun _ => (and_iff_right trivial).symm)
    · rw [Unsent, Unsent, Holds, Holds, heq, ht₂]
      constructor
      · rintro ⟨p', hp', hname, hr⟩
        obtain ⟨p, hp, rfl⟩ := List.mem_map.1 hp'
        rcases hg p with h | h <;> rw [h] at hname hr <;> exact ⟨p, hp, hname, hr⟩
      · rintro ⟨p, hp, hname, hr⟩
        refine ⟨g p, List.mem_map_of_mem hp, ?_⟩
        rcases hg p with h | h <;> rw [h] <;> exact ⟨hname, hr⟩
    · obtain ⟨p', hp', hname, hr⟩ := hr
      rw [heq, ht₂] at hp'
      obtain ⟨p, hp, rfl⟩ := List.mem_map.1 hp'
      rcases hg p with h | h <;> rw [h] at hname hr
      · exact ⟨p, hp, hname, hr⟩
      · exact absurd hr List.not_mem_nil

end Session

/-! ### Runs -/

/-- A session and the candidates that its transports have reported so far. -/
structure Gathering where
  session : Session
  reported : List (Text × Candidate)

namespace Gathering

variable {ε : Type} (parsers : Parsers ε) (env : Env)

/-- What is reported in an event. -/
def reports (s : Session) : Event ε → List (Text × Candidate)
  | .transportCandidatesReady contentName candidates =>
    if (s.getTransportProxy contentName).isSome then candidates.map (contentName, ·) else []
  | _ => []

/-- An event of the session. -/
def act (g : Gathering) (e : Event ε) : Gathering :=
  ⟨g.session.act parsers env e, g.reported ++ reports g.session e⟩

/-- `Initiate` starts a session that has gathered nothing. -/
def Start (g : Gathering) : Prop :=
  ∃ (s : Session) (to_ : Text) (sdesc : List ContentInfo) (reaction : Reaction),
    s.state = .init ∧ s.infos = [] ∧
      (∀ p ∈ s.transports, p.sentCandidates = [] ∧ p.unsentCandidates = []) ∧
      g = ⟨s.initiate (Session.run reaction) to_ sdesc true, []⟩

/-- **No candidate is lost**: each was sent to the peer or is unsent. -/
def NoneLost (g : Gathering) : Prop :=
  ∀ r ∈ g.reported, g.session.Told g.session.remoteName r ∨ g.session.Unsent r

/-- A redirect to another resource finds every candidate that the peer was sent in
a sent list, and its initiate is written; or the candidate need not be sent again. -/
def Meets (g : Gathering) : Event ε → Prop
  | .failedSend _ (some target) _ written _ =>
    g.session.state = .sentInitiate → env.bareJidsEqual g.session.remoteName target →
      ∀ r, g.session.Told g.session.remoteName r →
        g.session.Told target r ∨ g.session.Unsent r ∨ written ∧ g.session.Listed r
  | _ => True

/-- One event under the condition. -/
def Next (g g' : Gathering) : Prop := ∃ e : Event ε, g.Meets env e ∧ g' = g.act parsers env e

/-- What holds in every run under the condition. -/
structure Sound (g : Gathering) : Prop where
  initiating : Session.Initiating g.session.state
  kept : g.NoneLost
  told : ∀ t r, g.session.Told t r → r ∈ g.reported
  unsent : ∀ r, g.session.Unsent r → r ∈ g.reported
  listed : ∀ r, g.session.Listed r → r ∈ g.reported

theorem Sound.carries {g : Gathering} (h : g.Sound) {s : Session} (hc : g.session.Carries s)
    (hs : Session.Initiating s.state) : Sound ⟨s, g.reported⟩ where
  initiating := hs
  kept r hr := (hc.lost_iff r).2 (h.kept r hr)
  told t r hr := (hc.told_of t r hr).elim (h.told t r) (h.unsent r)
  unsent r hr := h.unsent r (hc.unsent_of r hr)
  listed r hr := h.listed r (hc.listed_of r hr)

theorem act_initiating {s : Session} (h : Session.Initiating s.state) (e : Event ε) :
    Session.Initiating (s.act parsers env e).state := by
  rcases he : e.isMessage with _ | _
  · exact Life.moves_state Session.Initiating.turn (s.act_evolves parsers env he).life h
  · cases e with
    | message reaction =>
      rw [Session.act]
      split
      · exact h
      · rcases Session.onMessage_cases _ reaction _ with ⟨-, -, t, ht, heq⟩ | ⟨-, ht⟩
        · rw [heq]
          exact Life.moves_state Session.Initiating.turn ht.life h
        · exact Life.moves_state Session.Initiating.turn ht.life h
    | _ => cases he

theorem Sound.report {g : Gathering} (h : g.Sound) (contentName : Text)
    (candidates : List Candidate) :
    (g.act parsers env (.transportCandidatesReady contentName candidates)).Sound := by
  have hstate := act_initiating parsers env h.initiating
    (.transportCandidatesReady contentName candidates)
  obtain ⟨s, reported⟩ := g
  rw [act, reports]
  dsimp only [Session.act] at hstate ⊢
  rw [Session.onTransportCandidatesReady] at hstate ⊢
  rcases hp : s.getTransportProxy contentName with _ | p <;> rw [hp] at hstate
  · rw [Option.isSome_none, if_neg Bool.false_ne_true, List.append_nil]
    exact h
  · rw [Option.isSome_some, if_pos rfl]
    dsimp only at hstate ⊢
    have hex : ∃ p ∈ s.transports, p.contentName = contentName :=
      ⟨p, List.mem_of_find?_eq_some hp, by simpa using List.find?_some hp⟩
    have hnew : ∀ r : Text × Candidate,
        r ∈ candidates.map (contentName, ·) ↔ r.1 = contentName ∧ r.2 ∈ candidates := by
      rintro ⟨name, c⟩
      simp [and_comm, eq_comm]
    split <;> rename_i hw <;> simp only [hw] at hstate
    · -- the initiate is not acknowledged, so the candidates wait
      have hun : ∀ r, (s.updateProxy contentName fun p => p.addUnsentCandidates candidates).Unsent r
          ↔ _ := s.holds_updateProxy contentName (fun p => p.addUnsentCandidates candidates)
        TransportProxy.unsentCandidates (fun _ => rfl) fun _ => rfl
      have hli : ∀ r, (s.updateProxy contentName fun p => p.addUnsentCandidates candidates).Listed r
          ↔ s.Listed r := s.holds_updateProxy_self contentName
        (fun p => p.addUnsentCandidates candidates) TransportProxy.sentCandidates (fun _ => rfl)
        fun _ => rfl
      refine ⟨hstate, fun r hr => ?_, fun t r hr => List.mem_append_left _ (h.told t r hr),
        fun r hr => ?_, fun r hr => List.mem_append_left _ (h.listed r ((hli r).1 hr))⟩
      · rcases List.mem_append.1 hr with hr | hr
        · exact (h.kept r hr).imp_right fun hu => (hun r).2 (.inl hu)
        · exact .inr ((hun r).2 (.inr ⟨hex, (hnew r).1 hr⟩))
      · rcases (hun r).1 hr with hu | ⟨-, hu⟩
        · exact List.mem_append_left _ (h.unsent r hu)
        · exact List.mem_append_right _ ((hnew r).2 hu)
    · -- they are sent, and listed if the proxy is not negotiated
      obtain ⟨s₁, hs₁⟩ : ∃ s₁, s₁ = if !p.negotiated then
          s.updateProxy contentName fun p => p.addSentCandidates candidates else s := ⟨_, rfl⟩
      have hfacts : s₁.remoteName = s.remoteName ∧ s₁.infos = s.infos ∧
          (∀ r, s₁.Unsent r ↔ s.Unsent r) ∧
          ∀ r, s₁.Listed r → s.Listed r ∨ r.1 = contentName ∧ r.2 ∈ candidates := by
        rw [hs₁]
        split
        · refine ⟨rfl, rfl, s.holds_updateProxy_self contentName
            (fun p => p.addSentCandidates candidates) TransportProxy.unsentCandidates (fun _ => rfl)
            fun _ => rfl, fun r hr => ?_⟩
          have hli := (s.holds_updateProxy contentName (fun p => p.addSentCandidates candidates)
            TransportProxy.sentCandidates (fun _ => rfl) (fun _ => rfl) r).1 hr
          exact hli.imp_right And.right
        · exact ⟨rfl, rfl, fun _ => Iff.rfl, fun _ => .inl⟩
      obtain ⟨hname, hinfos, hun, hli⟩ := hfacts
      rw [← hs₁] at hstate ⊢
      have htold : ∀ t r, (s₁.sendTransportInfoMessage contentName candidates).Told t r ↔
          s.Told t r ∨ t = s.remoteName ∧ r ∈ candidates.map (contentName, ·) := fun t r => by
        rw [Session.told_send, Session.Told, hinfos, hname, hnew, eq_comm (a := r.1)]
        rfl
      refine ⟨hstate, fun r hr => ?_, fun t r hr => ?_, fun r hr => ?_, fun r hr => ?_⟩
      · rcases List.mem_append.1 hr with hr | hr
        · refine (h.kept r hr).imp (fun ht => ?_) (hun r).2
          exact (htold _ r).2 (.inl (by rw [← hname] at ht; exact ht))
        · exact .inl ((htold _ r).2 (.inr ⟨hname, hr⟩))
      · rcases (htold t r).1 hr with ht | ⟨-, ht⟩
        · exact List.mem_append_left _ (h.told t r ht)
        · exact List.mem_append_right _ ht
      · exact List.mem_append_left _ (h.unsent r ((hun r).1 hr))
      · rcases hli r hr with hl | hl
        · exact List.mem_append_left _ (h.listed r hl)
        · exact List.mem_append_right _ ((hnew r).2 hl)

theorem act_carries {s : Session} (h : Session.Initiating s.state) {e : Event ε}
    (hr : ∀ contentName candidates, e ≠ .transportCandidatesReady contentName candidates)
    (hf : ∀ type target errorType written reaction,
      e = .failedSend type (some target) errorType written reaction →
        s.state = .sentInitiate → env.bareJidsEqual s.remoteName target = false) :
    s.Carries (s.act parsers env e) := by
  have hrun : ∀ reaction, ∀ s : Session, Session.Initiating s.state →
      s.Carries (Session.run reaction s) := fun reaction _ => Session.run_carries reaction
  cases e with
  | call c reaction => exact Session.call_carries (hrun reaction) h c
  | incomingMessage msg reaction heard =>
    exact Session.onIncomingMessage_carries parsers env reaction heard h msg
  | incomingResponse type =>
    rw [Session.act, Session.onIncomingResponse]
    split
    · exact s.onInitiateAcked_carries
    · exact .refl s
  | failedSend type redirect errorType written reaction =>
    rw [Session.act]
    unfold Session.onFailedSend
    cases redirect with
    | some target =>
      have hno : s.onRedirectError env target written = (false, s) := by
        rw [Session.onRedirectError]
        split
        · rfl
        · next hs =>
          have hs' : s.state = .sentInitiate := by simpa [Session.checkState] using hs
          rw [hf type target errorType written reaction rfl hs']
          rfl
      simp only [hno]
      exact Session.setError_carries (hrun reaction) h _
    | none =>
      dsimp only
      split
      · exact .refl s
      · split
        · exact .refl s
        · split
          · exact Session.setError_carries (hrun reaction) h _
          · exact .refl s
  | transportCandidatesReady contentName candidates => exact absurd rfl (hr _ _)
  | transportWritable hasChannels writable => exact .of_eq rfl rfl rfl
  | message reaction =>
    rw [Session.act]
    split
    · exact .refl s
    · exact (Session.onMessage_carries reaction _ _).after rfl rfl rfl
  | timeout reaction =>
    rw [Session.act]
    split
    · exact .refl s
    · rw [Session.onTimeout]
      refine (Session.setError_carries (hrun reaction) ?_ _).after rfl rfl rfl
      exact h

/-- **An event** loses a candidate exactly if it is a redirect that does not find
all that was sent in the sent lists. -/
theorem Sound.act {g : Gathering} (h : g.Sound) (e : Event ε) :
    ((g.act parsers env e).NoneLost ↔ g.Meets env e) ∧
      (g.Meets env e → (g.act parsers env e).Sound) := by
  have hstate := act_initiating parsers env h.initiating e
  have hcarried : g.session.Carries (g.session.act parsers env e) → reports g.session e = [] →
      (g.act parsers env e).Sound := by
    intro hc hno
    have hs := h.carries hc hstate
    rw [Gathering.act, hno, List.append_nil]
    exact hs
  by_cases hreport : ∃ contentName candidates, e = .transportCandidatesReady contentName candidates
  · obtain ⟨contentName, candidates, rfl⟩ := hreport
    have hs := h.report parsers env contentName candidates
    exact ⟨iff_of_true hs.kept trivial, fun _ => hs⟩
  · by_cases hredirect : ∃ type target errorType written reaction,
      e = .failedSend type (some target) errorType written reaction ∧
        g.session.state = .sentInitiate ∧ env.bareJidsEqual g.session.remoteName target
    · obtain ⟨type, target, errorType, written, reaction, rfl, hsent, hb⟩ := hredirect
      obtain ⟨s₁, hc, hname, htold, hunsent, hlisted⟩ :=
        g.session.onFailedSend_redirect env type target errorType written reaction hsent hb
      have hlost : ∀ r, _ ↔ g.session.Told target r ∨ g.session.Unsent r ∨
          written ∧ g.session.Listed r := fun r => (hc.lost_iff r).trans (by
        rw [hname, htold, hunsent]
        tauto)
      have hkept : g.Meets env
          (.failedSend type (some target) errorType written reaction : Event ε) → (g.act parsers env
            (.failedSend type (some target) errorType written reaction)).NoneLost := by
        intro hm r hr
        replace hr : r ∈ g.reported := by simpa [Gathering.act, reports] using hr
        refine (hlost r).2 ?_
        rcases h.kept r hr with ht | hu
        · exact hm hsent hb r ht
        · exact .inr (.inl hu)
      refine ⟨⟨fun hn _ _ r ht => (hlost r).1 (hn r ?_), hkept⟩, fun hm => ⟨hstate, hkept hm,
        fun t r ht => ?_, fun r hu => ?_, fun r hl => ?_⟩⟩
      · exact List.mem_append_left _ (h.told _ r ht)
      all_goals refine List.mem_append_left _ ?_
      · rcases hc.told_of t r ht with ht | hu
        · rcases (htold t r).1 ht with ht | ⟨-, -, hl⟩
          · exact h.told t r ht
          · exact h.listed r hl
        · exact h.unsent r ((hunsent r).1 hu)
      · exact h.unsent r ((hunsent r).1 (hc.unsent_of r hu))
      · exact h.listed r (hlisted r (hc.listed_of r hl))
    · have hc := act_carries parsers env h.initiating
        (fun contentName candidates he => hreport ⟨contentName, candidates, he⟩)
        fun type target errorType written reaction he hsent => by
          simpa using fun hb => hredirect ⟨type, target, errorType, written, reaction, he, hsent, hb⟩
      have hs : (g.act parsers env e).Sound := hcarried hc (by
        cases e with
        | transportCandidatesReady contentName candidates => exact absurd ⟨_, _, rfl⟩ hreport
        | _ => rfl)
      refine ⟨iff_of_true hs.kept ?_, fun _ => hs⟩
      rw [Meets.eq_def]
      split
      · next type target errorType written reaction =>
        exact fun hsent hb =>
          absurd ⟨type, target, errorType, written, reaction, rfl, hsent, hb⟩ hredirect
      · trivial

theorem Start.sound {g : Gathering} (h : g.Start) : g.Sound := by
  obtain ⟨s, to_, sdesc, reaction, hs, hinfos, hempty, rfl⟩ := h
  have hsupported : ∀ (contents : List ContentInfo) (s : Session), ∃ s',
      Session.createTransportProxies (Session.getEmptyTransportInfos contents) s = (true, s') ∧
        s.Carries s' := by
    intro contents
    induction contents with
    | nil => exact fun s => ⟨s, rfl, .refl s⟩
    | cons content contents ih =>
      intro s
      obtain ⟨s', heq, hc⟩ := ih (s.getOrCreateTransportProxy content.name)
      refine ⟨s', ?_, (s.getOrCreateTransportProxy_carries content.name).trans hc⟩
      rw [← heq, Session.getEmptyTransportInfos, List.map_cons, Session.createTransportProxies,
        if_neg (by simp)]
      rfl
  have hrun : ∀ s : Session, Session.Initiating s.state → s.Carries (Session.run reaction s) :=
    fun _ => Session.run_carries reaction
  obtain ⟨s₁, heq, hc⟩ := hsupported sdesc
    { s with remoteName := to_, initiator := true, localDescription := some sdesc }
  have hstate : s₁.state = .init := by
    have h₁ := Session.createTransportProxies_eq (Session.getEmptyTransportInfos sdesc)
      { s with remoteName := to_, initiator := true, localDescription := some sdesc }
    rw [heq] at h₁
    exact (congrArg Session.state h₁).trans hs
  rw [Session.initiate, if_neg (by simpa using hs)]
  simp only [heq, Session.sendInitiateMessage, reduceIte]
  generalize hs₂ : s₁.send (.initiate ⟨sdesc, Session.getEmptyTransportInfos sdesc⟩) = s₂
  have hc₂ : s₁.Carries s₂ := by
    rw [← hs₂]
    exact .of_eq rfl (by simp [Session.infos, Session.send]) rfl
  have hc₃ : s₂.Carries (s₂.setState (Session.run reaction) .sentInitiate) :=
    Session.setState_carries hrun Session.initiating_sentInitiate
  have hc₄ := ((hc.trans hc₂).trans hc₃).trans (Session.speculativelyConnect_carries _)
  refine ⟨?_, fun r hr => absurd hr List.not_mem_nil, fun t r ht => ?_, fun r hu => ?_, fun r hl => ?_⟩
  · have hne : SessionState.sentInitiate ≠ s₂.state := by
      rw [← hs₂]
      exact hstate ▸ (by simp)
    show Session.Initiating (s₂.setState (Session.run reaction) .sentInitiate).state
    rw [Session.setState, if_pos hne]
    refine Life.moves_state Session.Initiating.turn
      (Session.run_evolves reaction { s₂ with
        state := .sentInitiate, entered := s₂.entered ++ [.sentInitiate] }).life ?_
    exact Session.initiating_sentInitiate
  all_goals exfalso
  · rcases hc₄.told_of t r ht with ⟨info, hmem, -⟩ | ⟨p, hp, -, hr⟩
    · exact List.not_mem_nil (hinfos ▸ hmem : (t, info) ∈ [])
    · exact List.not_mem_nil ((hempty p hp).2 ▸ hr)
  · obtain ⟨p, hp, -, hr⟩ := hc₄.unsent_of r hu
    exact List.not_mem_nil ((hempty p hp).2 ▸ hr)
  · obtain ⟨p, hp, -, hr⟩ := hc₄.listed_of r hl
    exact List.not_mem_nil ((hempty p hp).1 ▸ hr)

/-- **Candidates in every run** of an initiating session: none is lost in a run whose
redirects meet the condition, and an event after it loses one exactly if it does not. -/
theorem none_lost :
    ∀ g, Reach Start (Next parsers env) g →
      g.NoneLost ∧ ∀ e, (g.act parsers env e).NoneLost ↔ g.Meets env e := by
  intro g hg
  have hs : g.Sound := by
    refine Reach.invariant (I := Sound) (fun g hg => hg.sound) ?_ g hg
    rintro g _ - h ⟨e, hm, rfl⟩
    exact (h.act parsers env e).2 hm
  exact ⟨hs.kept, fun e => (hs.act parsers env e).1⟩

/-- A candidate that a transport may report. -/
def gathered : Candidate where
  name := [2]
  protocol := []
  address := ⟨[], 1, 1⟩
  preference := 0
  username := []
  password := []
  type := []
  networkName := []
  generation := 0

/-- A session with one channel that has been initiated. -/
def started : Gathering :=
  ⟨((Session.new [] [] [] []).createChannel [1] [2]).initiate (Session.run .done) [3]
    [⟨[1], [], []⟩] true, []⟩

theorem started_start : started.Start :=
  ⟨(Session.new [] [] [] []).createChannel [1] [2], [3], [⟨[1], [], []⟩], .done, rfl, rfl,
    by decide, rfl⟩

/-- Every redirect is to the same bare address. -/
def anyone : Env := ⟨fun _ => false, fun _ _ => true⟩

/-- The events of a session on which the candidate is sent after the acknowledgement. -/
def afterAck : Gathering :=
  (started.act .refusing anyone (.incomingResponse .sessionInitiate)).act .refusing anyone
    (.transportCandidatesReady [1] [gathered])

/-- A redirect sends the candidate again. -/
theorem none_lost_redirect :
    (afterAck.act .refusing anyone (.failedSend .sessionInitiate (some [4]) none true .done)).NoneLost
    := by
  have hreach : Reach Start (Next Parsers.refusing anyone) afterAck :=
    .step (.step (.init started_start) ⟨.incomingResponse .sessionInitiate, trivial, rfl⟩)
      ⟨.transportCandidatesReady [1] [gathered], trivial, rfl⟩
  refine (none_lost .refusing anyone _ (.step hreach
    ⟨.failedSend .sessionInitiate (some [4]) none true .done, fun _ _ r hr => ?_, rfl⟩)).1
  obtain ⟨info, hmem, hname, hr⟩ := hr
  have hinfos : afterAck.session.infos = [([3], ⟨[1], nsGingleP2p, [gathered]⟩)] := by
    decide
  rw [hinfos, List.mem_singleton] at hmem
  obtain rfl := (Prod.mk.inj hmem).2
  obtain rfl : r = ([1], gathered) := Prod.ext hname.symm (List.mem_singleton.1 hr)
  have hex : ∃ p ∈ afterAck.session.transports,
      p.contentName = [1] ∧ gathered ∈ p.sentCandidates := by decide
  exact .inr (.inr ⟨rfl, hex⟩)

/-- **A candidate is lost**: it is reported before the acknowledgement, which sends it
to the old peer without listing it. -/
theorem lost_redirect :
    ¬∀ g, Reach Start (fun g g' => ∃ e : Event Unit, g' = g.act .refusing anyone e) g →
      g.NoneLost := by
  intro h
  obtain ⟨g, hg⟩ : ∃ g, g = ((started.act .refusing anyone
    (.transportCandidatesReady [1] [gathered])).act .refusing anyone
    (.incomingResponse .sessionInitiate)).act .refusing anyone
    (.failedSend .sessionInitiate (some [4]) none true .done) := ⟨_, rfl⟩
  have hlost := h g (hg ▸ .step (.step (.step (.init started_start) ⟨_, rfl⟩) ⟨_, rfl⟩) ⟨_, rfl⟩)
    ([1], gathered) (hg ▸ by decide)
  have hinfos : g.session.remoteName = [4] ∧
      g.session.infos = [([3], ⟨[1], nsGingleP2p, [gathered]⟩)] ∧
      ∀ p ∈ g.session.transports, p.unsentCandidates = [] := hg ▸ by decide
  rcases hlost with ⟨info, hmem, -⟩ | ⟨p, hp, -, hr⟩
  · rw [hinfos.1, hinfos.2.1, List.mem_singleton] at hmem
    exact absurd (Prod.mk.inj hmem).1 (by decide)
  · rw [hinfos.2.2 p hp] at hr
    cases hr

end Gathering

end Jingle.Signaling
