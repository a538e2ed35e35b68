/-
The receiving half of `PseudoTcp`: `process`, cut along its own comments.

`processControl` handles the control byte, `processAck` the acknowledgement
(round-trip time, freeing of the send list, congestion control, fast
retransmit), `processData` the payload (trimming, out-of-order list, recovery);
`process` puts them in the order of the source and ends with `attemptSend`.
-/
import Jingle.PseudoTcp.Transmit

namespace Jingle

/-! ### Acknowledgements -/

/-- The loop that frees `nFree` acknowledged bytes from the front of the send
list.  The results are the list, the largest segment seen, and whether the list
was long enough. -/
def freeAcked : Word → Word → List SSegment → List SSegment × Word × Bool
  | nFree, largest, [] => ([], largest, nFree = 0)
  | nFree, largest, g :: rest =>
    if nFree = 0 then (g :: rest, largest, true)
    else if nFree < g.len then ({ g with len := g.len - nFree } :: rest, largest, true)
    else freeAcked (nFree - g.len) (if largest < g.len then g.len else largest) rest

namespace Timers

/-- The round-trip estimate after a measurement `rtt ≥ 0`. -/
def measure (rtt : ℤ) (t : Timers) : Timers :=
  let rttvar : Word :=
    if t.rxSrtt = 0 then BitVec.ofInt 32 (rtt / 2)
    else BitVec.ofNat 32 (((3 * t.rxRttvar).toNat + (rtt - t.rxSrtt.toNat).natAbs) / 4)
  let srtt : Word :=
    if t.rxSrtt = 0 then BitVec.ofInt 32 rtt
    else BitVec.ofNat 32 (((7 * t.rxSrtt).toNat + rtt.toNat) / 8)
  { t with
    rxRttvar := rttvar
    rxSrtt := srtt
    rxRto := bound minRto (srtt + maxOf 1 (4 * rttvar)) maxRto }

end Timers

namespace Outgoing

/-- The send queue after the bytes below `ack` are acknowledged. -/
def acknowledge (ack : Word) (wnd : BitVec 16) (largest : Word) (o : Outgoing) : Outgoing :=
  let nAcked := ack - o.sndUna
  { o with
    sndWnd := wnd.setWidth 32
    sndUna := ack
    slen := o.slen - nAcked
    sbuf := o.sbuf.move nAcked.toNat (o.slen - nAcked).toNat
    slist := (freeAcked nAcked largest o.slist).1 }

end Outgoing

namespace PseudoTcp

/-- Calculate the round-trip time from an echoed timestamp. -/
def updateRtt (env : Env) (tsecr : Word) (s : PseudoTcp) : PseudoTcp :=
  if tsecr = 0 then s
  else
    let rtt := timeDiff env.now tsecr
    if 0 ≤ rtt then { s with tm := s.tm.measure rtt }
    else s.note (.assertFailed .negativeRtt)

/-- The part of a valuable acknowledgement that moves `m_snd_una` and frees the
acknowledged bytes. -/
def ackAdvance (env : Env) (seg : Segment) (s : PseudoTcp) : PseudoTcp :=
  let s := s.updateRtt env seg.tsecr
  let freed := freeAcked (seg.ack - s.out.sndUna) s.cc.largest s.out.slist
  { s with
    out := s.out.acknowledge seg.ack seg.wnd s.cc.largest
    cc := { s.cc with largest := freed.2.1 }
    tm := { s.tm with rtoBase := if seg.ack = s.out.sndNxt then 0 else env.now } }.assert
      freed.2.2 .ackedInList

/-- Congestion control on a valuable acknowledgement.  `false` is the return
after a failed recovery retransmit. -/
def ackCongestion (env : Env) (nAcked : Word) (s : PseudoTcp) : Bool × PseudoTcp :=
  if 3 ≤ s.cc.dupAcks then
    if s.cc.recover ≤ s.out.sndUna then
      (true, { s with cc := { s.cc with
        cwnd := minOf s.cc.ssthresh (s.inFlight + s.cc.mss), dupAcks := 0 } })
    else
      match transmit env 0 env.now s with
      | (false, s) => (false, s.closedown .econnaborted)
      | (true, s) =>
        (true, { s with cc := { s.cc with
          cwnd := s.cc.cwnd + (s.cc.mss - minOf nAcked s.cc.cwnd) } })
  else if s.cc.cwnd < s.cc.ssthresh then
    (true, { s with cc := { s.cc with dupAcks := 0, cwnd := s.cc.cwnd + s.cc.mss } })
  else
    let s := if s.cc.cwnd = 0 then s.note .divByZero else s
    (true, { s with cc := { s.cc with
      dupAcks := 0, cwnd := s.cc.cwnd + maxOf 1 (s.cc.mss * s.cc.mss / s.cc.cwnd) } })

/-- The responder is open once its control byte is acknowledged. -/
def openOnAck (bConnect : Bool) (s : PseudoTcp) : PseudoTcp :=
  if s.state = .synReceived ∧ bConnect = false then
    ({ s with state := .established }.adjustMTU).note .onTcpOpen
  else s

def kIdealRefillSize : Word := (kSndBufSize + kRcvBufSize) / 2

/-- Notify the user of room in the send queue. -/
def notifyWriteable (s : PseudoTcp) : PseudoTcp :=
  if s.bWriteEnable = true ∧ s.out.slen < kIdealRefillSize then
    { s with bWriteEnable := false }.note .onTcpWriteable
  else s

/-- An acknowledgement of nothing new: open the window, count duplicates, and
retransmit on the third one. -/
def duplicateAck (env : Env) (seg : Segment) (s : PseudoTcp) : Bool × PseudoTcp :=
  let s := { s with out := { s.out with sndWnd := seg.wnd.setWidth 32 } }
  if 0 < seg.len then (true, s)
  else if s.out.sndUna ≠ s.out.sndNxt then
    let s := { s with cc := { s.cc with dupAcks := s.cc.dupAcks + 1 } }
    if s.cc.dupAcks = 3 then
      match transmit env 0 env.now s with
      | (false, s) => (false, s.closedown .econnaborted)
      | (true, s) =>
        let ssthresh := maxOf (s.inFlight / 2) (2 * s.cc.mss)
        (true, { s with cc := { s.cc with
          recover := s.out.sndNxt, ssthresh := ssthresh, cwnd := ssthresh + 3 * s.cc.mss } })
    else if 3 < s.cc.dupAcks then
      (true, { s with cc := { s.cc with cwnd := s.cc.cwnd + s.cc.mss } })
    else (true, s)
  else (true, { s with cc := { s.cc with dupAcks := 0 } })

/-- The acknowledgement of a segment.  `false` is an early return. -/
def processAck (env : Env) (bConnect : Bool) (seg : Segment) (s : PseudoTcp) :
    Bool × PseudoTcp :=
  if s.out.sndUna < seg.ack ∧ seg.ack ≤ s.out.sndNxt then
    match ackCongestion env (seg.ack - s.out.sndUna) (s.ackAdvance env seg) with
    | (false, s) => (false, s)
    | (true, s) => (true, (s.openOnAck bConnect).notifyWriteable)
  else if seg.ack = s.out.sndUna then duplicateAck env seg s
  else (true, s)

end PseudoTcp

/-! ### Payload -/

namespace Incoming

/-- Drop the part of a segment that was received before. -/
def trimFront (i : Incoming) (seg : Segment) : Segment :=
  if seg.seq < i.rcvNxt then
    let nAdjust := i.rcvNxt - seg.seq
    if nAdjust < seg.len then
      { seg with seq := seg.seq + nAdjust, data := seg.data.drop nAdjust.toNat,
                 len := seg.len - nAdjust }
    else { seg with len := 0 }
  else seg

/-- Drop the part of a segment that does not fit the receive buffer. -/
def trimBack (i : Incoming) (seg : Segment) : Segment :=
  if i.getReceiveBufferSpace < seg.seq + seg.len - i.rcvNxt then
    let nAdjust := seg.seq + seg.len - i.rcvNxt - i.getReceiveBufferSpace
    if nAdjust < seg.len then { seg with len := seg.len - nAdjust } else { seg with len := 0 }
  else seg

/-- Adjust the incoming segment to fit the receive buffer. -/
def trim (i : Incoming) (seg : Segment) : Segment := i.trimBack (i.trimFront seg)

/-- Consolidate the buffer if `need` bytes do not fit at its end. -/
def makeRoom (need : Word) (i : Incoming) : Incoming :=
  if i.getReceiveBufferConsecutiveSpace < need then i.consolidateReceiveBufferSpace else i

/-- Copy the payload of a segment to its offset from `m_rlen`. -/
def place (seg : Segment) (i : Incoming) : Incoming :=
  { i with
    rbuf := i.rbuf.write (i.rlen.toNat + (seg.seq - i.rcvNxt).toNat)
      (seg.data.take seg.len.toNat) }

/-- Take over `n` further bytes of the buffer. -/
def advance (n : Word) (i : Incoming) : Incoming :=
  { i with rlen := i.rlen + n, rcvNxt := i.rcvNxt + n, rcvWnd := i.rcvWnd - n }

/-- The loop over the out-of-order list that recovers what has become
consecutive.  The flag says whether anything was recovered. -/
def recoverFrom : List RSegment → Incoming → Bool → Incoming × Bool
  | [], i, b => ({ i with rlist := [] }, b)
  | r :: rest, i, b =>
    if r.seq ≤ i.rcvNxt then
      if i.rcvNxt < r.seq + r.len then
        recoverFrom rest (i.advance (r.seq + r.len - i.rcvNxt)) true
      else recoverFrom rest i b
    else ({ i with rlist := r :: rest }, b)

/-- Insert a segment into the out-of-order list, before the first one that does
not precede it. -/
def insertSegment (r : RSegment) : List RSegment → List RSegment
  | [] => [r]
  | e :: rest => if e.seq < r.seq then e :: insertSegment r rest else r :: e :: rest

end Incoming

namespace PseudoTcp

/-- Which acknowledgement a segment asks for. -/
def ackFlags (seg : Segment) (s : PseudoTcp) : SendFlags :=
  if seg.seq ≠ s.inc.rcvNxt then .immediateAck
  else if seg.len ≠ 0 then (if s.ackDelay = 0 then .immediateAck else .delayedAck)
  else .none

/-- Store a trimmed segment.  The results are the acknowledgement to send and
whether there is new data to read. -/
def storeSegment (seg : Segment) (sflags : SendFlags) (s : PseudoTcp) :
    SendFlags × Bool × PseudoTcp :=
  let need := seg.len + (seg.seq - s.inc.rcvNxt)
  let i := s.inc.makeRoom need
  let s := s.assert (need ≤ i.getReceiveBufferConsecutiveSpace) .consecutiveSpace
  let s := s.note (.rbufWrite (i.rlen.toNat + (seg.seq - i.rcvNxt).toNat) seg.len.toNat
    i.rlen.toNat)
  let i := i.place seg
  if seg.seq = i.rcvNxt then
    let (i, recovered) := Incoming.recoverFrom i.rlist (i.advance seg.len) false
    (if recovered then .immediateAck else sflags, true, { s with inc := i })
  else
    let rseg : RSegment := { seq := seg.seq, len := seg.len }
    (sflags, false, { s with inc := { i with rlist := Incoming.insertSegment rseg i.rlist } })

/-- The payload of a segment. -/
def processData (seg : Segment) (s : PseudoTcp) : SendFlags × Bool × PseudoTcp :=
  let sflags := s.ackFlags seg
  let seg := s.inc.trim seg
  if seg.len = 0 then (sflags, false, s)
  else if seg.flags &&& flagCtl ≠ 0 ∨ s.shutdown ≠ .none then
    if seg.seq = s.inc.rcvNxt then
      (sflags, false, { s with inc := { s.inc with rcvNxt := s.inc.rcvNxt + seg.len } })
    else (sflags, false, s)
  else s.storeSegment seg sflags

/-! ### `process` -/

/-- The control byte.  `none` is an early return; otherwise the flag is
`bConnect`. -/
def processControl (seg : Segment) (s : PseudoTcp) : Option (Bool × PseudoTcp) :=
  if seg.flags &&& flagCtl = 0 then some (false, s)
  else if seg.len = 0 then none
  else if seg.data.getD 0 0 = ctlConnect then
    if s.state = .listen then
      some (true, ({ s with state := .synReceived }.queue [ctlConnect] 1 true).2)
    else if s.state = .synSent then
      some (true, ({ s with state := .established }.adjustMTU).note .onTcpOpen)
    else some (true, s)
  else none

/-- Update the timestamp to echo. -/
def updateTimestamp (seg : Segment) (s : PseudoTcp) : PseudoTcp :=
  if seg.seq ≤ s.tm.tsLastack ∧ s.tm.tsLastack < seg.seq + seg.len then
    { s with tm := { s.tm with tsRecent := seg.tsval } }
  else s

/-- Notify the user of new data. -/
def notifyReadable (bNewData : Bool) (s : PseudoTcp) : PseudoTcp :=
  if bNewData = true ∧ s.bReadEnable = true then
    { s with bReadEnable := false }.note .onTcpReadable
  else s

/-- A segment of the right conversation has arrived. -/
def touch (env : Env) (s : PseudoTcp) : PseudoTcp :=
  { s with tm := { s.tm with lasttraffic := env.now, lastrecv := env.now }, bOutgoing := false }

/-- `process` after the control byte. -/
def processBody (env : Env) (bConnect : Bool) (seg : Segment) (s : PseudoTcp) :
    Bool × PseudoTcp :=
  match processAck env bConnect seg (s.updateTimestamp seg) with
  | (false, s) => (false, s)
  | (true, s) =>
    let (sflags, bNewData, s) := s.processData seg
    (true, (s.attemptSend env sflags).notifyReadable bNewData)

theorem processBody_of_ack {env : Env} {seg : Segment} {s : PseudoTcp} {bConnect bNewData : Bool}
    {sflags : SendFlags} {v w : PseudoTcp}
    (h : processAck env bConnect seg (s.updateTimestamp seg) = (true, v))
    (hd : v.processData seg = (sflags, bNewData, w)) :
    processBody env bConnect seg s
      = (true, (w.attemptSend env sflags).notifyReadable bNewData) := by
  -- the match on the pair, for any continuation, so that none is computed here
  have hmatch : ∀ F : PseudoTcp → Bool × PseudoTcp, (match ((true, v) : Bool × PseudoTcp) with
      | (false, s) => (false, s)
      | (true, s) => F s) = F v := fun _ => rfl
  rw [processBody, h, hmatch fun s => match s.processData seg with
    | (sflags, bNewData, s) => (true, (s.attemptSend env sflags).notifyReadable bNewData), hd]

def process (env : Env) (seg : Segment) (s : PseudoTcp) : Bool × PseudoTcp :=
  if seg.conv ≠ s.conv then (false, s)
  else
    let s := s.touch env
    if s.state = .closed then (false, s)
    else if seg.flags &&& flagRst ≠ 0 then (false, s.closedown .econnreset)
    else
      match s.processControl seg with
      | none => (false, s)
      | some (bConnect, s) => processBody env bConnect seg s

end PseudoTcp

end Jingle
