/-
The life cycle of a session.

`Life` is a session as its life cycle sees it: the state, the states entered so
far, and the answers it has sent.  A `Turn` is one change of the state.  Whatever
is called or comes in, and whatever the listeners do meanwhile, is a sequence of
turns (`Evolves`), and each of them posts the message of its state; the two kinds
of posted messages then act on the state they find.

`life_cycle` collects what follows for every sequence of events.  The two
terminate states are not each absorbing: a terminate that comes in is taken in
any state, so a session may go from one of them to the other.
-/
import Jingle.Signaling.Effects

namespace Jingle

namespace Signaling

open Tunnel (SessionState)
open Relation (ReflTransGen)

/-- An accept, a reject or a terminate. -/
def Action.isAnswer : Action → Bool
  | .accept _ | .reject | .terminate _ => true
  | .initiate _ | .transportInfo _ => false

def Action.isAccept : Action → Bool
  | .accept _ => true
  | _ => false

def Action.isTerminate : Action → Bool
  | .terminate _ => true
  | _ => false

/-- The event is the delivery of a posted message. -/
def Event.isMessage {ε : Type} : Event ε → Bool
  | .message _ => true
  | _ => false

/-! ### Turns -/

/-- One change of the state, with the answer that is sent before it. -/
inductive Turn : SessionState → Option Action → SessionState → Prop
  | initiate : Turn .init none .sentInitiate
  | initiated : Turn .init none .receivedInitiate
  | accept (body : ContentMessage) : Turn .receivedInitiate (some (.accept body)) .sentAccept
  | reject {a : SessionState} :
      a = .receivedInitiate ∨ a = .receivedModify → Turn a (some .reject) .sentReject
  | accepted : Turn .sentInitiate none .receivedAccept
  | rejected : Turn .sentInitiate none .receivedReject
  | progress {a : SessionState} : a = .sentAccept ∨ a = .receivedAccept → Turn a none .inProgress
  | clean {a : SessionState} : a = .sentReject ∨ a = .receivedReject → Turn a none .sentTerminate
  | terminate {a : SessionState} (reason : Text) :
      a.isTerminated = false → Turn a (some (.terminate reason)) .sentTerminate
  | terminated {a : SessionState} : a ≠ .receivedTerminate → Turn a none .receivedTerminate

theorem Turn.ne {a b : SessionState} {answer : Option Action} (h : Turn a answer b) : b ≠ a := by
  cases h <;> grind [SessionState.isTerminated]

theorem Turn.isTerminated {a b : SessionState} {answer : Option Action} (h : Turn a answer b)
    (ha : a.isTerminated) : b.isTerminated := by
  cases h <;> grind [SessionState.isTerminated]

theorem Turn.of_isAccept {a b : SessionState} {answer : Option Action} (h : Turn a answer b)
    (hacc : answer.toList.any Action.isAccept) : a = .receivedInitiate ∧ b = .sentAccept := by
  cases h <;> simp_all [Action.isAccept]

theorem Turn.of_reject {a b : SessionState} {answer : Option Action} (h : Turn a answer b)
    (hrej : .reject ∈ answer.toList) :
    (a = .receivedInitiate ∨ a = .receivedModify) ∧ b = .sentReject := by
  cases h <;> simp_all

theorem Turn.after_accept {a b : SessionState} {answer : Option Action} (h : Turn a answer b)
    (ha : a = .sentAccept ∨ a = .inProgress ∨ a.isTerminated) :
    b = .inProgress ∨ b.isTerminated := by
  cases h <;> grind [SessionState.isTerminated]

theorem Turn.after_reject {a b : SessionState} {answer : Option Action} (h : Turn a answer b)
    (ha : a = .sentReject ∨ a.isTerminated) : b.isTerminated := by
  cases h <;> grind [SessionState.isTerminated]

theorem Turn.terminates {a b : SessionState} {answer : Option Action} (h : Turn a answer b) :
    answer.toList.countP Action.isTerminate + (if a.isTerminated then 1 else 0) ≤
      if b.isTerminated then 1 else 0 := by
  cases h with
  | reject ha => rcases ha with rfl | rfl <;> decide
  | progress ha => rcases ha with rfl | rfl <;> decide
  | clean ha => rcases ha with rfl | rfl <;> decide
  | terminate reason ha =>
    rw [ha]
    rfl
  | terminated ha =>
    rw [Option.toList_none, List.countP_nil]
    split <;> decide
  | _ => exact Nat.zero_le _

/-- A session as its life cycle sees it. -/
structure Life where
  state : SessionState
  entered : List SessionState
  answers : List Action

namespace Life

/-- One turn of the life cycle. -/
def Move (l l' : Life) : Prop :=
  ∃ answer state, Turn l.state answer state ∧
    l' = ⟨state, l.entered ++ [state], l.answers ++ answer.toList⟩

/-- What holds after any sequence of turns. -/
structure Sound (l : Life) : Prop where
  chain : List.IsChain (fun a b => ∃ answer, Turn a answer b) (.init :: l.entered)
  current : (SessionState.init :: l.entered).getLast? = some l.state
  accepted : l.answers.any Action.isAccept →
    l.state = .sentAccept ∨ l.state = .inProgress ∨ l.state.isTerminated
  rejected : .reject ∈ l.answers → l.state = .sentReject ∨ l.state.isTerminated
  exclusive : l.answers.any Action.isAccept → .reject ∉ l.answers
  terminated : l.answers.countP Action.isTerminate ≤ if l.state.isTerminated then 1 else 0

theorem Sound.move {l l' : Life} (h : l.Sound) (hm : l.Move l') : l'.Sound := by
  obtain ⟨answer, state, ht, rfl⟩ := hm
  refine ⟨?_, ?_, fun hacc => ?_, fun hrej => ?_, fun hacc hrej => ?_, ?_⟩
  · show List.IsChain _ ((.init :: l.entered) ++ [state])
    refine List.isChain_append.2 ⟨h.chain, List.isChain_singleton _, fun a ha b hb => ?_⟩
    rw [h.current, Option.mem_some_iff] at ha
    rw [List.head?_cons, Option.mem_some_iff] at hb
    exact ⟨answer, by rwa [← ha, ← hb]⟩
  · show ((SessionState.init :: l.entered) ++ [state]).getLast? = some state
    exact List.getLast?_concat
  · rw [List.any_append, Bool.or_eq_true] at hacc
    rcases hacc with hacc | hacc
    · exact .inr (ht.after_accept (h.accepted hacc))
    · exact .inl (ht.of_isAccept hacc).2
  · rcases List.mem_append.1 hrej with hrej | hrej
    · exact .inr (ht.after_reject (h.rejected hrej))
    · exact .inl (ht.of_reject hrej).2
  · -- the state before the turn allows one of the two answers at most
    rw [List.any_append, Bool.or_eq_true] at hacc
    rcases hacc with hacc | hacc <;> rcases List.mem_append.1 hrej with hrej | hrej
    · exact h.exclusive hacc hrej
    · have ha := h.accepted hacc
      rcases (ht.of_reject hrej).1 with hs | hs <;> rw [hs] at ha <;>
        exact absurd ha (by decide)
    · have ha := h.rejected hrej
      rw [(ht.of_isAccept hacc).1] at ha
      exact absurd ha (by decide)
    · have ha := (ht.of_isAccept hacc).2
      rw [(ht.of_reject hrej).2] at ha
      cases ha
  · rw [List.countP_append]
    exact (Nat.add_le_add_right h.terminated _).trans (Nat.add_comm _ _ ▸ ht.terminates)

theorem Sound.moves {l l' : Life} (h : l.Sound) (hm : ReflTransGen Move l l') : l'.Sound := by
  induction hm with
  | refl => exact h
  | tail _ hm ih => exact ih.move hm

theorem moves_state {P : SessionState → Prop}
    (hP : ∀ {a b answer}, Turn a answer b → P a → P b) {l l' : Life}
    (hm : ReflTransGen Move l l') (h : P l.state) : P l'.state := by
  induction hm with
  | refl => exact h
  | tail _ hm ih =>
    obtain ⟨answer, state, ht, rfl⟩ := hm
    exact hP ht ih

end Life

namespace Session

/-- The accepts, rejects and terminates that the session has sent. -/
def answers (s : Session) : List Action := (s.sent.map (·.action)).filter Action.isAnswer

/-- The life cycle of the session. -/
def life (s : Session) : Life := ⟨s.state, s.entered, s.answers⟩

/-! ### What the operations do to the life cycle -/

/-- From `s` to `s'` the session makes turns and posts the messages of their states. -/
structure Evolves (s s' : Session) : Prop where
  life : ReflTransGen Life.Move s.life s'.life
  posted : ∃ more, s'.queue = s.queue ++ more ∧ (s'.state ≠ s.state → .state ∈ more)
  destroys : s'.destroys = s.destroys
  alive : s'.alive = s.alive
  sid : s'.sid = s.sid

theorem Evolves.of_eq {s s' : Session} (hl : s'.life = s.life) (hq : s'.queue = s.queue)
    (hd : s'.destroys = s.destroys) (ha : s'.alive = s.alive) (hsid : s'.sid = s.sid) :
    Evolves s s' :=
  ⟨hl ▸ .refl, ⟨[], by rw [hq, List.append_nil], fun h => absurd (congrArg Life.state hl) h⟩,
    hd, ha, hsid⟩

theorem Evolves.refl (s : Session) : Evolves s s := .of_eq rfl rfl rfl rfl rfl

theorem Evolves.trans {s t u : Session} (h : Evolves s t) (h' : Evolves t u) : Evolves s u := by
  obtain ⟨hl, ⟨more, hq, hs⟩, hd, ha, hsid⟩ := h
  obtain ⟨hl', ⟨more', hq', hs'⟩, hd', ha', hsid'⟩ := h'
  refine ⟨hl.trans hl', ⟨more ++ more', by rw [hq', hq, List.append_assoc], fun hne => ?_⟩,
    hd'.trans hd, ha'.trans ha, hsid'.trans hsid⟩
  by_cases hu : u.state = t.state
  · exact List.mem_append_left _ (hs (hu ▸ hne))
  · exact List.mem_append_right _ (hs' hu)

theorem Evolves.after {s s₁ t : Session} (h : Evolves s₁ t) (hl : s₁.life = s.life)
    (hq : s₁.queue = s.queue) (hd : s₁.destroys = s.destroys) (ha : s₁.alive = s.alive)
    (hsid : s₁.sid = s.sid) : Evolves s t :=
  .trans (.of_eq hl hq hd ha hsid) h

theorem Evolves.post {s s' : Session} (h : Evolves s s') (p : Posted) :
    Evolves s { s' with queue := s'.queue ++ [p] } := by
  obtain ⟨hl, ⟨more, hq, hs⟩, hd, ha, hsid⟩ := h
  exact ⟨hl, ⟨more ++ [p], by rw [hq, List.append_assoc],
    fun hne => List.mem_append_left _ (hs hne)⟩, hd, ha, hsid⟩

theorem speculativelyConnect_evolves (s : Session) :
    Evolves s s.speculativelyConnectAllTransportChannels := .of_eq rfl rfl rfl rfl rfl

section

variable {react heard : Session → Session} (hr : ∀ s, Evolves s (react s))
  (hh : ∀ s, Evolves s (heard s))
include hr

theorem turn_evolves {s₀ s : Session} {answer : Option Action} {state : SessionState}
    (ht : Turn s₀.state answer state) (hstate : s.state = s₀.state)
    (hentered : s.entered = s₀.entered) (hanswers : s.answers = s₀.answers ++ answer.toList)
    (hqueue : s.queue = s₀.queue) (hdestroys : s.destroys = s₀.destroys)
    (halive : s.alive = s₀.alive) (hsid : s.sid = s₀.sid) :
    Evolves s₀ (s.setState react state) := by
  rw [setState, if_pos (hstate ▸ ht.ne)]
  obtain ⟨hl, ⟨more, hq, -⟩, hd, ha, hid⟩ := hr { s with state, entered := s.entered ++ [state] }
  refine ⟨.head ⟨answer, state, ht, ?_⟩ hl, ⟨more ++ [.state], ?_, fun _ => by simp⟩,
    hd.trans hdestroys, ha.trans halive, hid.trans hsid⟩
  · rw [life, life, ← hentered, ← hanswers]
    rfl
  · dsimp only at hq ⊢
    rw [hq, hqueue, List.append_assoc]

theorem setState_evolves {s : Session} {state : SessionState}
    (ht : s.state ≠ state → Turn s.state none state) : Evolves s (s.setState react state) := by
  by_cases hne : s.state = state
  · rw [setState, if_neg (not_not.2 hne.symm)]
    exact .refl s
  · exact turn_evolves hr (ht hne) rfl rfl (by simp) rfl rfl rfl rfl

theorem setError_evolves (s : Session) (error : SessionError) :
    Evolves s (s.setError react error) := by
  have h : Evolves s (if error ≠ s.error then react { s with error } else s) := by
    split
    · exact (hr { s with error }).after rfl rfl rfl rfl rfl
    · exact .refl s
  have hpost : ∀ t, Evolves s t →
      Evolves s (if t.error ≠ .none then { t with queue := t.queue ++ [.error] } else t) := by
    intro t ht
    split
    · exact ht.post _
    · exact ht
  exact hpost _ h

theorem initiate_evolves (s : Session) (to_ : Text) (sdesc : List ContentInfo) (written : Bool) :
    Evolves s (s.initiate react to_ sdesc written) := by
  rw [initiate]
  split
  · exact .refl s
  · next hs =>
    rw [not_not] at hs
    dsimp only
    rcases hc : createTransportProxies _ _ with ⟨_ | _, s₁⟩ <;>
      obtain rfl : s₁ = _ := (congrArg Prod.snd hc).symm.trans (createTransportProxies_eq _ _)
    · exact .of_eq rfl rfl rfl rfl rfl
    · have ht : Turn s.state none .sentInitiate := hs ▸ .initiate
      cases written <;> simp only [sendInitiateMessage, Bool.false_eq_true, reduceIte]
      · exact .of_eq rfl rfl rfl rfl rfl
      · refine .trans ?_ (speculativelyConnect_evolves _)
        refine turn_evolves hr ht rfl rfl ?_ rfl rfl rfl rfl
        simp [answers, send, Action.isAnswer]

theorem accept_evolves (s : Session) (sdesc : List ContentInfo) (written : Bool) :
    Evolves s (s.accept react sdesc written) := by
  rw [accept]
  split
  · exact .refl s
  · next hs =>
    rw [not_not] at hs
    have ht : Turn s.state (some (.accept ⟨sdesc, getEmptyTransportInfos sdesc⟩)) .sentAccept :=
      hs ▸ .accept _
    cases written
    · exact .of_eq rfl rfl rfl rfl rfl
    · refine turn_evolves hr ht rfl rfl ?_ rfl rfl rfl rfl
      simp [answers, send, Action.isAnswer]

theorem reject_evolves (s : Session) : Evolves s (s.reject react) := by
  rw [reject]
  split
  · exact .refl s
  · next hs =>
    refine turn_evolves hr (.reject (by tauto : s.state = _ ∨ s.state = _)) rfl rfl ?_ rfl rfl rfl rfl
    simp [answers, send, Action.isAnswer]

theorem terminateWithReason_evolves (s : Session) (reason : Text) :
    Evolves s (s.terminateWithReason react reason) := by
  rw [terminateWithReason]
  split
  · exact .refl s
  · exact .refl s
  · next hs => exact setState_evolves hr fun _ => .clean (.inl hs)
  · next hs => exact setState_evolves hr fun _ => .clean (.inr hs)
  · next h₁ h₂ h₃ h₄ =>
    have hs : s.state.isTerminated = false := by
      simpa [SessionState.isTerminated] using ⟨h₁, h₂⟩
    refine turn_evolves hr (.terminate reason hs) rfl rfl ?_ rfl rfl rfl rfl
    simp [answers, send, Action.isAnswer]

theorem call_evolves (s : Session) (c : Call) : Evolves s (s.call react c) := by
  cases c with
  | initiate to_ sdesc written => exact initiate_evolves hr s to_ sdesc written
  | accept sdesc written => exact accept_evolves hr s sdesc written
  | reject => exact reject_evolves hr s
  | terminateWithReason reason => exact terminateWithReason_evolves hr s reason
  | setError error => exact setError_evolves hr s error
  | createChannel contentName channelName =>
    rw [call, createChannel_eq]
    exact .of_eq rfl rfl rfl rfl rfl
  | destroyChannel contentName channelName => exact .of_eq rfl rfl rfl rfl rfl

end

theorem run_evolves (reaction : Reaction) (s : Session) : Evolves s (run reaction s) := by
  induction reaction generalizing s with
  | done => exact .refl s
  | call c inner rest ihi ihr => exact (call_evolves ihi s c).trans (ihr _)

theorem onRemoteCandidates_evolves (env : Env) (infos : List TransportInfo) (s : Session) :
    Evolves s (onRemoteCandidates env infos s).2 := by
  rw [onRemoteCandidates_eq]
  exact .of_eq rfl rfl rfl rfl rfl

theorem flush_evolves (candidates : TransportProxy → List P2p.Candidate)
    (clear : TransportProxy → TransportProxy) (ps : List TransportProxy) (s : Session) :
    Evolves s (flush candidates clear ps s) := by
  rw [flush_eq]
  have hnone : (s.flushed candidates ps).filter (fun o => o.action.isAnswer) = [] := by
    refine List.filter_eq_nil_iff.2 fun o ho => ?_
    obtain ⟨p, -, rfl⟩ := List.mem_map.1 ho
    exact Bool.false_ne_true
  refine .of_eq ?_ rfl rfl rfl rfl
  simp only [life, answers, List.map_append, List.filter_append, List.filter_map,
    Function.comp_def, hnone, List.map_nil, List.append_nil]

theorem onInitiateAcked_evolves (s : Session) : Evolves s s.onInitiateAcked := by
  rw [onInitiateAcked]
  split
  · rw [sendAllUnsentTransportInfoMessages]
    exact (flush_evolves _ _ _ _).after rfl rfl rfl rfl rfl
  · exact .refl s

theorem onTransportCandidatesReady_evolves (s : Session) (contentName : Text)
    (candidates : List P2p.Candidate) :
    Evolves s (s.onTransportCandidatesReady contentName candidates) := by
  rw [onTransportCandidatesReady]
  split
  · exact .refl s
  · split
    · exact .of_eq rfl rfl rfl rfl rfl
    · refine .of_eq ?_ ?_ ?_ ?_ ?_ <;> split <;>
        simp [life, answers, sendTransportInfoMessage, send, updateProxy, Action.isAnswer]

section

variable {ε : Type} (parsers : Parsers ε) (env : Env) {react heard : Session → Session}
  (hr : ∀ s, Evolves s (react s)) (hh : ∀ s, Evolves s (heard s))
include hr

theorem onInitiateMessage_evolves (s : Session) (msg : SessionMessage ε) :
    Evolves s (s.onInitiateMessage react parsers env msg).2 := by
  rw [onInitiateMessage]
  split
  · exact .refl s
  · next hs =>
    have hs' : s.state = .init := by simpa [checkState] using hs
    split
    · exact .refl s
    · next init _ =>
      rcases hc : createTransportProxies _ _ with ⟨_ | _, s₁⟩ <;>
        obtain rfl : s₁ = _ := (congrArg Prod.snd hc).symm.trans (createTransportProxies_eq _ _)
      · exact .of_eq rfl rfl rfl rfl rfl
      · have ht : Turn s.state none .receivedInitiate := hs' ▸ .initiated
        dsimp only
        split
        · refine .trans ?_ (onRemoteCandidates_evolves env _ _)
          exact turn_evolves hr ht rfl rfl (by simp [answers]) rfl rfl rfl rfl
        · exact turn_evolves hr ht rfl rfl (by simp [answers]) rfl rfl rfl rfl

theorem onAcceptMessage_evolves (s : Session) (msg : SessionMessage ε) :
    Evolves s (s.onAcceptMessage react parsers env msg).2 := by
  rw [onAcceptMessage]
  split
  · exact .refl s
  · next hs =>
    have hs' : s.state = .sentInitiate := by simpa [checkState] using hs
    split
    · exact .refl s
    · next accept _ =>
      have hacked : s.onInitiateAcked.state = s.state := by
        rw [onInitiateAcked]
        split
        · rw [sendAllUnsentTransportInfoMessages, flush_eq]
        · rfl
      have ht : Turn s.onInitiateAcked.state none .receivedAccept := hacked ▸ hs' ▸ .accepted
      refine .trans (onInitiateAcked_evolves s) ?_
      dsimp only
      split
      · refine .trans ?_ (onRemoteCandidates_evolves env _ _)
        exact turn_evolves hr ht rfl rfl (by simp [answers]) rfl rfl rfl rfl
      · exact turn_evolves hr ht rfl rfl (by simp [answers]) rfl rfl rfl rfl

theorem onRejectMessage_evolves (s : Session) : Evolves s (s.onRejectMessage react).2 := by
  rw [onRejectMessage]
  split
  · exact .refl s
  · next hs =>
    have hs' : s.state = .sentInitiate := by simpa [checkState] using hs
    exact setState_evolves hr fun _ => hs' ▸ .rejected

theorem onFailedSend_evolves (s : Session) (type : ActionType) (redirect errorType : Option Text)
    (written : Bool) : Evolves s (s.onFailedSend react env type redirect errorType written) := by
  have hredirect : ∀ target, Evolves s (s.onRedirectError env target written).2 := by
    intro target
    rw [onRedirectError]
    split
    · exact .refl s
    · split
      · exact .refl s
      · cases written
        · exact .of_eq rfl rfl rfl rfl rfl
        · simp only [sendInitiateMessage, resendAllTransportInfoMessages, reduceIte]
          refine (flush_evolves _ _ _ _).after ?_ rfl rfl rfl rfl
          simp [life, answers, send, Action.isAnswer]
  unfold onFailedSend
  cases redirect with
  | some target =>
    have h := hredirect target
    dsimp only
    rcases ho : s.onRedirectError env target written with ⟨_ | _, s₁⟩ <;> rw [ho] at h
    · exact h.trans (setError_evolves hr _ _)
    · exact h
  | none =>
    dsimp only
    split
    · exact .refl s
    · split
      · exact .refl s
      · split
        · exact setError_evolves hr s _
        · exact .refl s

include hh

theorem onIncomingMessage_evolves (s : Session) (msg : SessionMessage ε) :
    Evolves s (s.onIncomingMessage react parsers env heard msg).2 := by
  have hchoose : Evolves s (s.chooseProtocol msg.protocol) := by
    rw [chooseProtocol]
    split
    · exact .of_eq rfl rfl rfl rfl rfl
    · exact .refl s
  rw [onIncomingMessage]
  refine hchoose.trans ?_
  generalize s.chooseProtocol msg.protocol = s
  cases msg.type with
  | sessionInitiate => exact onInitiateMessage_evolves parsers env hr s msg
  | sessionInfo => exact hh s
  | sessionAccept => exact onAcceptMessage_evolves parsers env hr s msg
  | sessionReject => exact onRejectMessage_evolves hr s
  | sessionTerminate =>
    dsimp only
    rw [onTerminateMessage]
    split
    · exact .refl s
    · exact (hh s).trans (setState_evolves hr .terminated)
  | transportInfo =>
    dsimp only
    rw [onTransportInfoMessage]
    split
    · exact .refl s
    · exact onRemoteCandidates_evolves env _ s
  | transportAccept => exact .refl s
  | update =>
    dsimp only
    rw [onUpdateMessage]
    split
    · exact .refl s
    · split
      · exact .refl s
      · dsimp only
        split
        · exact .refl s
        · exact (hh _).after rfl rfl rfl rfl rfl
  | unknown => exact .refl s

end

/-! ### Events -/

section

variable {ε : Type} (parsers : Parsers ε) (env : Env)

theorem act_evolves (s : Session) {e : Event ε} (h : e.isMessage = false) :
    Evolves s (s.act parsers env e) := by
  cases e with
  | call c reaction => exact call_evolves (run_evolves reaction) s c
  | incomingMessage msg reaction heard =>
    exact onIncomingMessage_evolves parsers env (run_evolves reaction) (run_evolves heard) s msg
  | incomingResponse type =>
    rw [act, onIncomingResponse]
    split
    · exact onInitiateAcked_evolves s
    · exact .refl s
  | failedSend type redirect errorType written reaction =>
    exact onFailedSend_evolves env (run_evolves reaction) s type redirect errorType written
  | transportCandidatesReady contentName candidates =>
    exact onTransportCandidatesReady_evolves s contentName candidates
  | transportWritable hasChannels writable => exact .of_eq rfl rfl rfl rfl rfl
  | message reaction => cases h
  | timeout reaction =>
    rw [act]
    split
    · exact .refl s
    · rw [onTimeout]
      exact (setError_evolves (run_evolves reaction) _ _).after rfl rfl rfl rfl rfl

theorem onStateMessage_evolves {react : Session → Session} (hr : ∀ s, Evolves s (react s))
    (s : Session) : Evolves s (s.onStateMessage react) := by
  rw [onStateMessage]
  split
  · next hs => exact setState_evolves hr fun _ => .progress (.inl hs)
  · next hs => exact setState_evolves hr fun _ => .progress (.inr hs)
  · exact terminateWithReason_evolves hr s _
  · exact terminateWithReason_evolves hr s _
  · exact .refl s

theorem onMessage_cases (s : Session) (reaction : Reaction) (p : Posted) :
    (p = .state ∧ s.state.isTerminated ∧
        ∃ t, Evolves s t ∧ s.onMessage (run reaction) p = t.destroySession) ∨
      (p = .state → s.state.isTerminated = false) ∧ Evolves s (s.onMessage (run reaction) p) := by
  cases p with
  | state =>
    have h := onStateMessage_evolves (run_evolves reaction) s
    rw [onMessage]
    split
    · next hs => exact .inl ⟨rfl, hs, _, h, rfl⟩
    · next hs => exact .inr ⟨fun _ => by simpa using hs, h⟩
  | error => exact .inr ⟨by simp, terminateWithReason_evolves (run_evolves reaction) s _⟩

/-! ### Runs -/

/-- What holds after every sequence of events. -/
structure Kept (s : Session) : Prop where
  sound : s.life.Sound
  destroys : s.destroys = if s.alive then 0 else 1
  posted : s.alive → s.state.isTerminated → .state ∈ s.queue

theorem Kept.new (localName initiatorName sid contentType : Text) :
    (Session.new localName initiatorName sid contentType).Kept where
  sound := ⟨List.isChain_singleton _, rfl, fun h => absurd h Bool.false_ne_true,
    fun h => absurd h List.not_mem_nil, fun h => absurd h Bool.false_ne_true, Nat.le_refl _⟩
  destroys := rfl
  posted _ h := absurd h Bool.false_ne_true

theorem Kept.evolves {s s' : Session} (h : s.Kept) (he : Evolves s s') : s'.Kept := by
  obtain ⟨hl, ⟨more, hq, hs⟩, hd, ha, -⟩ := he
  refine ⟨h.sound.moves hl, by rw [hd, ha, h.destroys], fun halive hterm => ?_⟩
  rw [hq, List.mem_append]
  by_cases hne : s'.state = s.state
  · exact .inl (h.posted (ha ▸ halive) (hne ▸ hterm))
  · exact .inr (hs hne)

/-- The message of the state is among the first `n`, if the session is not deleted. -/
def Due (n : ℕ) (s : Session) : Prop :=
  s.state.isTerminated ∧ (s.alive → .state ∈ s.queue.take n)

theorem Due.evolves {n : ℕ} {s s' : Session} (h : s.Due n) (he : Evolves s s') : s'.Due n := by
  obtain ⟨hl, ⟨more, hq, -⟩, -, ha, -⟩ := he
  refine ⟨Life.moves_state Turn.isTerminated hl h.1, fun halive => ?_⟩
  have hmem := h.2 (ha ▸ halive)
  rw [hq]
  exact ((List.prefix_append s.queue more).take n).subset hmem

theorem act_kept {s : Session} (h : s.Kept) (halive : s.alive) (e : Event ε) :
    (s.act parsers env e).Kept ∧
      ∀ n, s.Due n → (s.act parsers env e).Due (if e.isMessage then n - 1 else n) := by
  cases he : e.isMessage with
  | false =>
    have hev := s.act_evolves parsers env he
    exact ⟨h.evolves hev, fun n hn => hn.evolves hev⟩
  | true =>
    cases e with
    | message reaction =>
      rw [act]
      split
      · next hq =>
        exact ⟨h, fun n hn => absurd (hn.2 halive) (by simp [hq])⟩
      · next p ps hq =>
        rcases onMessage_cases { s with queue := ps } reaction p with
          ⟨-, -, t, ht, heq⟩ | ⟨hp, hev⟩
        · rw [heq]
          refine ⟨⟨h.sound.moves ht.life, ?_, fun hd => absurd hd Bool.false_ne_true⟩,
            fun n hn => ⟨Life.moves_state Turn.isTerminated ht.life hn.1,
              fun hd => absurd hd Bool.false_ne_true⟩⟩
          show t.destroys + 1 = _
          rw [ht.destroys, h.destroys, if_pos halive]
          rfl
        · have hkept : Kept { s with queue := ps } := by
            refine ⟨h.sound, h.destroys, fun ha hterm => ?_⟩
            have hmem := h.posted ha hterm
            rw [hq, List.mem_cons] at hmem
            refine hmem.resolve_left fun hstate => ?_
            exact absurd hterm (by simp [hp hstate.symm])
          refine ⟨hkept.evolves hev, fun n hn => ?_⟩
          refine Due.evolves (s := { s with queue := ps }) ⟨hn.1, fun ha => ?_⟩ hev
          have hmem := hn.2 ha
          rw [hq] at hmem
          rcases n with _ | n
          · cases hmem
          · rw [List.take_succ_cons, List.mem_cons] at hmem
            refine hmem.resolve_left fun hstate => ?_
            exact absurd hn.1 (by simp [hp hstate.symm])
    | _ => cases he

theorem acts_cons (s : Session) (e : Event ε) (es : List (Event ε)) :
    s.acts parsers env (e :: es) =
      (if s.alive then s.act parsers env e else s).acts parsers env es := rfl

theorem acts_kept {s : Session} (h : s.Kept) (es : List (Event ε)) :
    (s.acts parsers env es).Kept := by
  induction es generalizing s with
  | nil => exact h
  | cons e es ih =>
    rw [acts_cons]
    split
    · next halive => exact ih (act_kept parsers env h halive e).1
    · exact ih h

theorem Due.acts {n : ℕ} {s : Session} (hk : s.Kept) (h : s.Due n) {es : List (Event ε)}
    (hn : n ≤ es.countP Event.isMessage) : (s.acts parsers env es).alive = false := by
  induction es generalizing s n with
  | nil =>
    rw [List.countP_nil, Nat.le_zero] at hn
    subst hn
    show s.alive = false
    by_contra halive
    exact absurd (h.2 (by simpa using halive)) (by simp)
  | cons e es ih =>
    rw [acts_cons]
    rw [List.countP_cons] at hn
    split
    · next halive =>
      obtain ⟨hk', hd⟩ := act_kept parsers env hk halive e
      refine ih hk' (hd n h) ?_
      split at hn <;> simp_all
    · next halive =>
      exact ih hk ⟨h.1, fun ha => absurd ha halive⟩ (Nat.zero_le _)

/-- The session has entered the second state from the first one. -/
def Follows (s : Session) (a b : SessionState) : Prop := [a, b] <:+: .init :: s.entered

/-- **The order of states and answers.** -/
structure Orderly (s : Session) : Prop where
  current : (SessionState.init :: s.entered).getLast? = some s.state
  terminating : ∀ b, s.Follows .sentTerminate b → b = .receivedTerminate
  terminated : ∀ b, ¬s.Follows .receivedTerminate b
  progress : ∀ a, s.Follows a .inProgress → a = .sentAccept ∨ a = .receivedAccept
  terminates : s.answers.countP Action.isTerminate ≤ 1
  exclusive : s.answers.any Action.isAccept → .reject ∉ s.answers

theorem Kept.orderly {s : Session} (h : s.Kept) : s.Orderly := by
  have hturn : ∀ {a b}, s.Follows a b → ∃ answer, Turn a answer b := fun hf =>
    List.isChain_pair.1 <| List.IsChain.infix h.sound.chain hf
  refine ⟨h.sound.current, fun b hf => ?_, fun b hf => ?_, fun a hf => ?_, ?_, h.sound.exclusive⟩
  · obtain ⟨answer, ht⟩ := hturn hf
    cases ht <;> simp_all [SessionState.isTerminated]
  · obtain ⟨answer, ht⟩ := hturn hf
    cases ht <;> simp_all [SessionState.isTerminated]
  · obtain ⟨answer, ht⟩ := hturn hf
    cases ht
    assumption
  · refine h.sound.terminated.trans ?_
    split <;> omega

/-- **The life cycle of a session**, for every sequence of events: the two
terminate states are left only by the deletion, except that a terminate comes in
after one was sent; at most one terminate is sent, and never both an accept and a
reject; a session is in progress only after an accept; and once terminated it is
destroyed exactly once, when the messages in the queue have been delivered. -/
theorem life_cycle (localName initiatorName sid contentType : Text) (es es' : List (Event ε)) :
    let s := (new localName initiatorName sid contentType).acts parsers env es
    s.Orderly ∧ s.destroys ≤ 1 ∧
      (s.state.isTerminated → s.queue.length ≤ es'.countP Event.isMessage →
        (s.acts parsers env es').destroys = 1) := by
  intro s
  have hk : s.Kept := acts_kept parsers env
    (.new localName initiatorName sid contentType) es
  refine ⟨hk.orderly, ?_, fun hterm hlen => ?_⟩
  · rw [hk.destroys]
    split <;> omega
  · have hdue : s.Due s.queue.length :=
      ⟨hterm, fun halive => by simpa using hk.posted halive hterm⟩
    rw [(acts_kept parsers env hk es').destroys, hdue.acts parsers env hk hlen]
    rfl

end

/-- **A terminate state is left**: a terminate comes in after one was sent. -/
theorem terminate_left :
    ¬∀ (parsers : Parsers Unit) (env : Env) (es : List (Event Unit)) (a b : SessionState),
      a.isTerminated → ¬((new [] [] [] []).acts parsers env es).Follows a b := by
  intro h
  refine h
    { parseSessionInitiate := fun _ _ => .error []
      parseSessionAccept := fun _ _ => .error []
      parseSessionTerminate := fun _ _ => .ok ⟨[], []⟩
      parseTransportInfos := fun _ _ _ => .error []
      parseDescriptionInfo := fun _ _ => .error [] }
    ⟨fun _ => false, fun _ _ => false⟩
    [.call (.terminateWithReason []) .done,
      .incomingMessage ⟨[], [], .jingle, .sessionTerminate, [], [], ()⟩ .done .done]
    .sentTerminate .receivedTerminate rfl ?_
  exact ⟨[.init], [], rfl⟩

end Session

end Signaling

end Jingle
