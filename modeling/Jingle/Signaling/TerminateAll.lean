/-
Terminating all sessions.

`TerminateAll` takes the first session of the map and terminates it, until the map
is empty.  A call of `Terminate` leaves the map alone: it enters the terminated
state and posts the message of that state, and only the dispatch of this message,
which does not happen inside of the loop, deletes the session.  So the first
session stays the first one: **`terminatesAll_iff`**, the loop ends if and only if
there is no session.
-/
import Jingle.Signaling.Manager
import Jingle.Signaling.LifeCycle
import Mathlib.Data.List.MinMax

namespace Jingle.Signaling

open Tunnel (SessionState)

namespace SessionManager

variable (m : SessionManager)

/-! ### The loop -/

/-- `session_map_.begin()`: ids are ordered as strings. -/
def begin_ : Option (Text × ℕ) := m.sessionMap.argmin fun entry => entry.1.map BitVec.toNat

/-- The body of the loop: `Terminate` for the first session; `reaction` is what the listeners
of that session do then. -/
def terminateFirst (reaction : Reaction) : SessionManager :=
  match m.begin_ with
  | none => m
  | some entry =>
    m.updateSession entry.2 fun session =>
      session.terminateWithReason (Session.run reaction) strTerminateSuccess

/-- The manager after `n` rounds of the loop, or at its end if that comes before. -/
def terminateAll (reactions : ℕ → Reaction) : ℕ → SessionManager
  | 0 => m
  | n + 1 => (terminateAll reactions n).terminateFirst (reactions n)

/-- The loop ends, and then every session that was registered is terminated. -/
def TerminatesAll (reactions : ℕ → Reaction) : Prop :=
  ∃ n, (m.terminateAll reactions n).sessionMap = [] ∧
    ∀ entry ∈ m.sessionMap, ∀ session,
      (m.terminateAll reactions n).sessions[entry.2]? = some session → session.state.isTerminated

/-! ### One round -/

@[simp] theorem sessionMap_terminateFirst (reaction : Reaction) :
    (m.terminateFirst reaction).sessionMap = m.sessionMap := by
  rw [terminateFirst]
  split <;> rfl

/-! ### All rounds -/

@[simp] theorem sessionMap_terminateAll (reactions : ℕ → Reaction) (n : ℕ) :
    (m.terminateAll reactions n).sessionMap = m.sessionMap := by
  induction n with
  | zero => rfl
  | succ n ih => rw [terminateAll, sessionMap_terminateFirst, ih]

/-- **The loop ends** if and only if no session is registered. -/
theorem terminatesAll_iff (reactions : ℕ → Reaction) :
    m.TerminatesAll reactions ↔ m.sessionMap = [] := by
  constructor
  · rintro ⟨n, hempty, -⟩
    rwa [sessionMap_terminateAll] at hempty
  · intro h
    exact ⟨0, h, fun entry hentry => absurd hentry (by rw [h]; exact List.not_mem_nil)⟩

/-- A manager with one session, in any state, and listeners that do nothing. -/
theorem not_terminatesAll :
    ¬∀ (m : SessionManager) (reactions : ℕ → Reaction), m.TerminatesAll reactions := by
  intro h
  obtain ⟨n, hempty, -⟩ := h (new.createSession [] [] [] [] .done).2 fun _ => .done
  rw [sessionMap_terminateAll] at hempty
  exact List.cons_ne_nil _ _ hempty

end SessionManager

end Jingle.Signaling
