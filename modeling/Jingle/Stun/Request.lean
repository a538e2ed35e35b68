/-
STUN requests and their manager.

A `StunRequest` is an object known by its number.  The manager keeps the requests
under their transaction ids, and the thread's queue holds a timer message for each
of them; a message taken from the queue either sends the request again or ends it.

The methods that a request calls may call the manager again: what its callbacks
and the listeners of `SignalSendPacket` do is a list of `Op`s.  `log` is the
history: what was sent, called back and removed.
-/
import Jingle.Relay.Port
import Jingle.Lib.Reach

namespace Jingle.Stun

def kStunTransactionIdOffset : ℕ := 8

def MAX_SENDS : ℕ := 9

def DELAY_UNIT : ℕ := 100

def DELAY_MAX_FACTOR : ℕ := 16

/-- The timeout of a connection request. -/
def CONNECTION_RESPONSE_TIMEOUT : ℕ := 5 * 1000

/-- The classes of requests. -/
inductive RequestClass
  | stunRequest | allocateRequest | connectionRequest
  deriving DecidableEq, Repr

/-- `StunRequest`; `type` is the one that `Prepare` gives the message. -/
structure StunRequest where
  cls : RequestClass
  id : List Byte
  type : BitVec 16
  count : ℕ
  timeout : Bool
  deriving DecidableEq, Repr

namespace StunRequest

/-- A new request. -/
def new (cls : RequestClass) (id : List Byte) (type : BitVec 16) : StunRequest :=
  { cls, id, type, count := 0, timeout := false }

variable (r : StunRequest)

/-- The requests whose number of sends is counted: the next delay and the count at
which they time out. -/
def countSend (delay maxSends : ℕ) : ℕ × StunRequest :=
  (delay, { r with count := r.count + 1, timeout := r.timeout || r.count + 1 = maxSends })

/-- `GetNextDelay` of each class. -/
def getNextDelay : ℕ × StunRequest :=
  match r.cls with
  | .stunRequest => r.countSend (DELAY_UNIT * min (1 <<< r.count) DELAY_MAX_FACTOR) MAX_SENDS
  | .allocateRequest => r.countSend (100 * max (1 <<< r.count) 2) 5
  -- sent once; after a single delay, the request will time out
  | .connectionRequest => (CONNECTION_RESPONSE_TIMEOUT, { r with timeout := true })

end StunRequest

/-- What happens to a request. -/
inductive Mark
  | sent | response | errorResponse | timedOut | removed
  deriving DecidableEq, Repr

/-- `StunRequestManager` with the requests it was given, the timer messages in the
thread's queue (each with its delay), and the history. -/
structure StunRequestManager where
  requests : List (List Byte × ℕ)
  request : ℕ → StunRequest
  next : ℕ
  timers : List (ℕ × ℕ)
  log : List (ℕ × Mark)

/-- What a callback may do: hand over another request, remove one or all. -/
inductive Op
  | send (cls : RequestClass) (id : List Byte) (type : BitVec 16) (delay : ℕ)
  | remove (i : ℕ)
  | clear

namespace StunRequestManager

/-- A new manager. -/
def new (request : ℕ → StunRequest) : StunRequestManager :=
  { requests := [], request, next := 0, timers := [], log := [] }

variable (m : StunRequestManager)

/-- `requests_.find`. -/
def find (id : List Byte) : Option ℕ := m.requests.lookup id

/-- A line of the history. -/
def record (i : ℕ) (mark : Mark) : StunRequestManager := { m with log := m.log ++ [(i, mark)] }

/-- `Thread::Clear` of a request. -/
def clearTimers (i : ℕ) : StunRequestManager :=
  { m with timers := m.timers.filter fun t => t.1 ≠ i }

def postDelayed (delay i : ℕ) : StunRequestManager := { m with timers := m.timers ++ [(i, delay)] }

/-- `SendDelayed` of a new request; no other one with its id may be there. -/
def sendDelayed (cls : RequestClass) (id : List Byte) (type : BitVec 16) (delay : ℕ) :
    StunRequestManager :=
  let i := m.next
  { m with
    requests := m.requests ++ [(id, i)]
    request := fun j => if j = i then .new cls id type else m.request j
    next := i + 1 }.postDelayed delay i

def remove (i : ℕ) : StunRequestManager :=
  match m.find (m.request i).id with
  | none => m
  | some _ =>
    { m with requests := m.requests.filter fun e => e.1 ≠ (m.request i).id }.clearTimers i

/-- A call of `Remove`. -/
def onRemove (i : ℕ) : StunRequestManager := (m.remove i).record i .removed

def clear : StunRequestManager :=
  (m.requests.map Prod.snd).foldl (fun m i => m.onRemove i) m

/-- The destructor of a request. -/
def delete (i : ℕ) : StunRequestManager := (m.remove i).clearTimers i

/-- One call of the manager; a request of the same id is not handed over twice, and
only requests that there are can be removed. -/
def perform : Op → StunRequestManager
  | .send cls id type delay =>
    if (m.find id).isSome then m else m.sendDelayed cls id type delay
  | .remove i => if i < m.next then m.onRemove i else m
  | .clear => m.clear

/-- What a callback does. -/
def performAll (ops : List Op) : StunRequestManager := ops.foldl perform m

/-- `OnMessage` of a request, whose message has been taken from the queue; `ops` is
what `OnTimeout` or the listener of `SignalSendPacket` does. -/
def onMessage (i : ℕ) (ops : List Op) : StunRequestManager :=
  if (m.request i).timeout then ((m.record i .timedOut).performAll ops).delete i
  else
    let m := (m.record i .sent).performAll ops
    let (delay, r) := (m.request i).getNextDelay
    { m with request := fun j => if j = i then r else m.request j }.postDelayed delay i

/-- `CheckResponse` of a message; `ops` is what the callback does. -/
def checkResponse (msg : StunMessage) (ops : List Op) : Bool × StunRequestManager :=
  match m.find msg.transactionId with
  | none => (false, m)
  | some i =>
    if msg.type = (getStunResponseType (m.request i).type).code then
      (true, ((m.record i .response).performAll ops).delete i)
    else if msg.type = (getStunErrorResponseType (m.request i).type).code then
      (true, ((m.record i .errorResponse).performAll ops).delete i)
    else (false, m)

/-- `CheckResponse` of the bytes of a packet. -/
def checkResponseData (data : List Byte) (ops : List Op) : Bool × StunRequestManager :=
  if data.length < 20 then (false, m)
  else
    let id := (data.drop kStunTransactionIdOffset).take kStunTransactionIdLength
    match m.find id with
    | none => (false, m)
    | some _ =>
      match StunMessage.new.read data with
      | .error _ => (false, m)
      | .ok (msg, _) => m.checkResponse msg ops

/-! ### Runs -/

/-- What can happen to a manager from outside. -/
inductive Event
  | op (op : Op)
  | timer (k : ℕ) (ops : List Op)
  | response (msg : StunMessage) (ops : List Op)
  | packet (data : List Byte) (ops : List Op)

/-- The manager after an event; any of the timer messages may be the next. -/
def act : Event → StunRequestManager
  | .op op => m.perform op
  | .timer k ops =>
    match m.timers[k]? with
    | none => m
    | some t => { m with timers := m.timers.eraseIdx k }.onMessage t.1 ops
  | .response msg ops => (m.checkResponse msg ops).2
  | .packet data ops => (m.checkResponseData data ops).2

end StunRequestManager

end Jingle.Stun
