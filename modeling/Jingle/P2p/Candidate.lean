/-
Candidates: the addresses at which a peer may be reached.

A text is the list of its bytes.  An address keeps the host name that it was
made from beside the number it was resolved to; two addresses are the same
when number and port are, and the name counts only without a number
(`SocketAddress.eqv`).  The preference of a candidate is a number of its own
and its generation a word from the wire.
-/
import Jingle.Relay.Server

namespace Jingle.P2p

/-- `talk_base::SocketAddress` with the host name. -/
structure SocketAddress where
  hostname : List Byte
  ip : Word
  port : BitVec 16
  deriving DecidableEq, Repr

namespace SocketAddress

def equalIPs (a b : SocketAddress) : Bool := a.ip = b.ip ∧ (a.ip ≠ 0 ∨ a.hostname = b.hostname)

/-- `operator==`, which is also the equality of `operator<`. -/
def eqv (a b : SocketAddress) : Bool := a.equalIPs b ∧ a.port = b.port

def isNil (a : SocketAddress) : Bool := a.hostname = [] ∧ a.ip = 0 ∧ a.port = 0

@[simp] theorem eqv_refl (a : SocketAddress) : a.eqv a := by simp [eqv, equalIPs]

theorem eqv_symm {a b : SocketAddress} (h : a.eqv b) : b.eqv a := by
  simp only [eqv, equalIPs, decide_eq_true_eq] at *
  obtain ⟨⟨hip, hname⟩, hport⟩ := h
  exact ⟨⟨hip.symm, hname.imp (hip ▸ ·) Eq.symm⟩, hport.symm⟩

theorem eqv_trans {a b c : SocketAddress} (h : a.eqv b) (h' : b.eqv c) : a.eqv c := by
  simp only [eqv, equalIPs, decide_eq_true_eq] at *
  obtain ⟨⟨hip, hname⟩, hport⟩ := h
  obtain ⟨⟨hip', hname'⟩, hport'⟩ := h'
  refine ⟨⟨hip.trans hip', ?_⟩, hport.trans hport'⟩
  rcases hname with h | h
  · exact .inl h
  · exact hname'.imp (hip ▸ ·) h.trans

end SocketAddress

structure Candidate where
  name : List Byte
  protocol : List Byte
  address : SocketAddress
  preference : ℚ
  username : List Byte
  password : List Byte
  type : List Byte
  networkName : List Byte
  generation : Word
  deriving DecidableEq

namespace Candidate

/-- `IsEquivalent`: network name and preference are ignored. -/
def isEquivalent (a b : Candidate) : Bool :=
  a.name = b.name ∧ a.protocol = b.protocol ∧ a.address.eqv b.address ∧ a.username = b.username ∧
    a.password = b.password ∧ a.type = b.type ∧ a.generation = b.generation

theorem isEquivalent_iff {a b : Candidate} :
    a.isEquivalent b ↔ a.name = b.name ∧ a.protocol = b.protocol ∧ a.address.eqv b.address ∧
      a.username = b.username ∧ a.password = b.password ∧ a.type = b.type ∧
      a.generation = b.generation := by
  simp only [isEquivalent, decide_eq_true_eq]

@[simp] theorem isEquivalent_refl (a : Candidate) : a.isEquivalent a := by
  simp [isEquivalent_iff]

end Candidate

end Jingle.P2p
