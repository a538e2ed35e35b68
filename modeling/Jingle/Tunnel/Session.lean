/-
The states of a session and the guards of `Session`.

A tunnel is carried by a session, whose state decides what the tunnel does: the
session signals every change of its state before it returns, and posts itself a
message that completes the change later.  The functions here are the guards of
`Session`; the tunnels that listen to the signal are modelled in the modules
that use them.
-/
import Jingle.Lib.Reach

namespace Jingle

namespace Tunnel

/-- `BaseSession::State`. -/
inductive SessionState
  | init | sentInitiate | receivedInitiate | sentAccept | receivedAccept | sentModify
  | receivedModify | sentReject | receivedReject | sentRedirect | sentTerminate
  | receivedTerminate | inProgress | deinit
  deriving DecidableEq, Repr

/-- The ends of a session. -/
inductive Role
  | initiator | responder
  deriving DecidableEq, Repr

namespace SessionState

/-- `Initiate` goes on only from here. -/
def canInitiate (st : SessionState) : Bool := st = init

/-- `Accept` goes on only from here. -/
def canAccept (st : SessionState) : Bool := st = receivedInitiate

/-- `Reject` goes on only from here. -/
def canReject (st : SessionState) : Bool := st = receivedInitiate ∨ st = receivedModify

/-- `TerminateWithReason` goes on only from here. -/
def canTerminate (st : SessionState) : Bool := st ≠ sentTerminate ∧ st ≠ receivedTerminate

/-- The state that `BaseSession::OnMessage` sets on `MSG_STATE`, if any. -/
def completed : SessionState → Option SessionState
  | sentAccept | receivedAccept => some inProgress
  | sentReject | receivedReject => some sentTerminate
  | _ => none

/-- `Session::OnMessage` destroys a session that was in this state. -/
def isTerminated (st : SessionState) : Bool := st = sentTerminate ∨ st = receivedTerminate

end SessionState

end Tunnel

end Jingle
