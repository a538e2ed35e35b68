/-
What the operations of a session change.

Each lemma gives the session after an operation as the session before it with new
values in some fields; whatever is not named stays.  The lemmas on `react` say
nothing of the listeners: these are behind `setState` and `setError`, which the
lemmas leave as they are.
-/
import Jingle.Signaling.Session

namespace Jingle.Signaling

open P2p (Candidate)

namespace Session

/-! ### Transports -/

theorem getOrCreateTransportProxy_eq (s : Session) (contentName : Text) :
    s.getOrCreateTransportProxy contentName =
      { s with transports := (s.getOrCreateTransportProxy contentName).transports } := by
  rw [getOrCreateTransportProxy]
  split <;> rfl

theorem createTransportProxies_eq (infos : List TransportInfo) (s : Session) :
    (createTransportProxies infos s).2 =
      { s with transports := (createTransportProxies infos s).2.transports } := by
  induction infos generalizing s with
  | nil => rfl
  | cons info infos ih =>
    rw [createTransportProxies]
    split
    · rfl
    · rw [ih, getOrCreateTransportProxy_eq]

theorem createChannel_eq (s : Session) (contentName channelName : Text) :
    s.createChannel contentName channelName =
      { s with transports := (s.createChannel contentName channelName).transports } := by
  rw [createChannel, updateProxy, getOrCreateTransportProxy_eq]

theorem onRemoteCandidates_eq (env : Env) (infos : List TransportInfo) (s : Session) :
    (onRemoteCandidates env infos s).2 =
      { s with transports := (onRemoteCandidates env infos s).2.transports } := by
  induction infos generalizing s with
  | nil => rfl
  | cons info infos ih =>
    rw [onRemoteCandidates]
    split
    · rfl
    · dsimp only
      split
      · rfl
      · rw [ih]
        rfl

/-- What a flush sends. -/
def flushed (s : Session) (candidates : TransportProxy → List Candidate)
    (ps : List TransportProxy) : List Outgoing :=
  (ps.filter fun p => candidates p ≠ []).map fun p =>
    { to_ := s.remoteName
      protocol := s.currentProtocol
      action := .transportInfo
        { contentName := p.contentName
          transportType := nsGingleP2p
          candidates := candidates p } }

theorem flush_eq (candidates : TransportProxy → List Candidate)
    (clear : TransportProxy → TransportProxy) (ps : List TransportProxy) (s : Session) :
    flush candidates clear ps s =
      { s with
        transports := (flush candidates clear ps s).transports
        sent := s.sent ++ s.flushed candidates ps } := by
  induction ps generalizing s with
  | nil => simp [flush, flushed]
  | cons p ps ih =>
    rw [flush]
    split
    · next h =>
      rw [ih, flushed, flushed, List.filter_cons_of_neg (by simpa using h)]
    · next h =>
      rw [ih]
      simp [flushed, sendTransportInfoMessage, send, updateProxy, h]

end Session

end Jingle.Signaling
