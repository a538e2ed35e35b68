/-
The sending half of `PseudoTcp`: `queue`, `packet`, `transmit`, `attemptSend`,
and the small helpers `closedown` and `adjustMTU`.

Iterators into the send list are indices.  The two loops without a bound in the
source, around `packet` in `transmit` and in `attemptSend`, recurse on fuel:
`transmit` lowers the MSS level at least once in every further round, so the
length of the level table is enough, and every round of `attemptSend` takes at
least one byte, or one segment, off the unsent part of the list (`sendWork`).
-/
import Jingle.PseudoTcp.Header

namespace Jingle

namespace Outgoing

/-- How many of `len` bytes fit the send buffer. -/
def fit (len : Word) (o : Outgoing) : Word :=
  if kSndBufSize - o.slen < len then kSndBufSize - o.slen else len

/-- The send list after `len` bytes are queued: they are concatenated to the
last segment if it is of the same type and has not been transmitted yet. -/
def extend (len : Word) (bCtrl : Bool) (o : Outgoing) : List SSegment :=
  match o.slist.getLast? with
  | some g =>
    if g.bCtrl = bCtrl ∧ g.xmit = 0 then o.slist.dropLast ++ [{ g with len := g.len + len }]
    else o.slist ++ [{ seq := o.sndUna + o.slen, len := len, xmit := 0, bCtrl := bCtrl }]
  | none => [{ seq := o.sndUna + o.slen, len := len, xmit := 0, bCtrl := bCtrl }]

/-- `queue` once `len` is known to fit. -/
def enqueue (data : List Byte) (len : Word) (bCtrl : Bool) (o : Outgoing) : Outgoing :=
  { o with
    slist := o.extend len bCtrl
    sbuf := o.sbuf.write o.slen.toNat (data.take len.toNat)
    slen := o.slen + len }

/-- `transmit` after a successful write of the first `n` bytes of segment `i`:
the rest becomes a segment of its own, and a first transmission moves
`m_snd_nxt`. -/
def transmitted (i : ℕ) (seg : SSegment) (n : Word) (o : Outgoing) : Outgoing :=
  let subseg : List SSegment :=
    if n < seg.len then
      [{ seq := seg.seq + n, len := seg.len - n, xmit := seg.xmit, bCtrl := seg.bCtrl }]
    else []
  let seg' : SSegment := { seg with len := if n < seg.len then n else seg.len }
  { o with
    slist := o.slist.take i ++ { seg' with xmit := seg.xmit + 1 } :: subseg
      ++ o.slist.drop (i + 1)
    sndNxt := if seg.xmit = 0 then o.sndNxt + seg'.len else o.sndNxt }

/-- `attemptSend` breaks a segment that is larger than what may be sent. -/
def breakSegment (i : ℕ) (nAvailable : Word) (o : Outgoing) : Outgoing :=
  match o.slist[i]? with
  | none => o
  | some seg =>
    if nAvailable < seg.len then
      { o with
        slist := o.slist.take i ++ { seg with len := nAvailable }
          :: { seq := seg.seq + nAvailable, len := seg.len - nAvailable, xmit := 0,
               bCtrl := seg.bCtrl } :: o.slist.drop (i + 1) }
    else o

/-- The first segment that has not been transmitted. -/
def firstUnsent (o : Outgoing) : ℕ := o.slist.findIdx fun g => g.xmit = 0

/-- An upper bound for the rounds of `attemptSend`. -/
def sendWork (o : Outgoing) : ℕ :=
  ((o.slist.filter fun g => g.xmit = 0).map fun g => g.len.toNat + 1).sum

end Outgoing

namespace PseudoTcp

/-- `queue`.  The result is the number of bytes taken. -/
def queue (data : List Byte) (len : Word) (bCtrl : Bool) (s : PseudoTcp) : Word × PseudoTcp :=
  let n := s.out.fit len
  let s := if kSndBufSize - s.out.slen < len then s.assert (!bCtrl) .controlFits else s
  (n, { s with out := s.out.enqueue data n bCtrl })

/-- The bytes `packet` hands to `TcpWritePacket`. -/
def packetBytes (seq : Word) (flags : Byte) (data : List Byte) (now : Word) (s : PseudoTcp) :
    List Byte :=
  header s.conv seq s.inc.rcvNxt flags (s.inc.rcvWnd.setWidth 16) now s.tm.tsRecent ++ data

/-- `packet` after `TcpWritePacket` has taken the packet. -/
def packetSent (len now : Word) (s : PseudoTcp) : PseudoTcp :=
  { s with
    tm := { s.tm with
      tAck := 0
      lastsend := if 0 < len then now else s.tm.lastsend
      lasttraffic := now }
    bOutgoing := true }

/-- `packet`.  `data` is `none` for the null pointer of a pure acknowledgement,
whose write result is ignored. -/
def packet (env : Env) (seq : Word) (flags : Byte) (data : Option (List Byte)) (s : PseudoTcp) :
    WriteResult × PseudoTcp :=
  let len : Word := BitVec.ofNat 32 (data.getD []).length
  let s := s.assert (headerSize + len ≤ maxPacket) .packetSize
  let now := env.packetNow s.log.length
  let bytes := s.packetBytes seq flags (data.getD []) now
  let wres := env.write s.log.length
  let s := { s with tm := { s.tm with tsLastack := s.inc.rcvNxt } }.note
    (.tcpWritePacket bytes wres)
  if wres ≠ .success ∧ data.isSome then (wres, s)
  else (.success, s.packetSent len now)

/-- The inner loop of `transmit`: go down the MSS levels until a packet of
`nTransmit` bytes would shrink.  `false` is the end of the table. -/
def lowerMss (nTransmit : Word) : ℕ → Congestion → Bool × Congestion
  | 0, c => (false, c)
  | fuel + 1, c =>
    if packetMaximum (c.msslevel + 1) = 0 then (false, c)
    else
      let mss := packetMaximum (c.msslevel + 1) - packetOverhead
      let c := { c with msslevel := c.msslevel + 1, mss := mss, cwnd := 2 * mss }
      if c.mss < nTransmit then (true, c) else lowerMss nTransmit fuel c

/-- The outer loop of `transmit`: write the first `nTransmit` bytes of `seg`,
fewer as long as the packet is too large.  `none` is a failure. -/
def writeSegment (env : Env) (seg : SSegment) : ℕ → Word → PseudoTcp → Option Word × PseudoTcp
  | 0, _, s => (none, s)
  | fuel + 1, nTransmit, s =>
    let off := seg.seq - s.out.sndUna
    let s := s.note (.sbufRead off nTransmit s.out.slen)
    match packet env seg.seq (if seg.bCtrl then flagCtl else 0)
        (some (s.out.sbuf.read off.toNat nTransmit.toNat)) s with
    | (.success, s) => (some nTransmit, s)
    | (.fail, s) => (none, s)
    | (.tooLarge, s) =>
      match lowerMss nTransmit packetMaximums.length s.cc with
      | (false, c) => (none, { s with cc := c })
      | (true, c) => writeSegment env seg fuel c.mss { s with cc := c }

/-- How often a segment is transmitted before `transmit` gives up. -/
def maxXmit (st : TcpState) : Byte := if st = .established then 15 else 30

/-- `transmit` of the segment at index `i`. -/
def transmit (env : Env) (i : ℕ) (now : Word) (s : PseudoTcp) : Bool × PseudoTcp :=
  match s.out.slist[i]? with
  | none => (false, s.note .derefEnd)
  | some seg =>
    if maxXmit s.state ≤ seg.xmit then (false, s)
    else
      match writeSegment env seg packetMaximums.length (minOf seg.len s.cc.mss) s with
      | (none, s) => (false, s)
      | (some n, s) =>
        (true, { s with
          out := s.out.transmitted i seg n
          tm := { s.tm with rtoBase := if s.tm.rtoBase = 0 then now else s.tm.rtoBase } })

/-- The usable window of `attemptSend`: `min(m_snd_wnd, cwnd)`, with `cwnd`
enlarged during limited transmit. -/
def window (s : PseudoTcp) : Word :=
  minOf s.out.sndWnd
    (if s.cc.dupAcks = 1 ∨ s.cc.dupAcks = 2 then
      s.cc.cwnd + s.cc.dupAcks.setWidth 32 * s.cc.mss
    else s.cc.cwnd)

/-- The bytes in flight. -/
def inFlight (s : PseudoTcp) : Word := s.out.sndNxt - s.out.sndUna

/-- `nUseable`: what is left of the window. -/
def useable (s : PseudoTcp) : Word :=
  if s.inFlight < s.window then s.window - s.inFlight else 0

/-- `nAvailable`: how many bytes the next segment may have. -/
def available (s : PseudoTcp) : Word :=
  let n := minOf (s.out.slen - s.inFlight) s.cc.mss
  if s.useable < n then (if s.useable * 4 < s.window then 0 else s.useable) else n

/-- Nagle's algorithm holds back a segment that is not full while data is in
flight. -/
def nagleHolds (s : PseudoTcp) : Bool :=
  s.useNagling && s.out.sndUna < s.out.sndNxt && s.available < s.cc.mss

/-- The acknowledgement `attemptSend` owes when it has nothing to send. -/
def sendAck (env : Env) (sflags : SendFlags) (s : PseudoTcp) : PseudoTcp :=
  match sflags with
  | .none => s
  | .immediateAck => (packet env s.out.sndNxt 0 none s).2
  | .delayedAck =>
    if s.tm.tAck ≠ 0 then (packet env s.out.sndNxt 0 none s).2
    else { s with tm := { s.tm with tAck := env.ackNow } }

/-- The loop of `attemptSend`. -/
def sendLoop (env : Env) : ℕ → SendFlags → PseudoTcp → PseudoTcp
  | 0, _, s => s
  | fuel + 1, sflags, s =>
    if s.available = 0 then sendAck env sflags s
    else if s.nagleHolds then s
    else
      let i := s.out.firstUnsent
      match transmit env i env.sendNow { s with out := s.out.breakSegment i s.available } with
      | (false, s) => s
      | (true, s) => sendLoop env fuel .none s

/-- `attemptSend` restarts with a window of one segment after an idle period. -/
def restartIdle (env : Env) (s : PseudoTcp) : PseudoTcp :=
  if timeDiff env.sendNow s.tm.lastsend > s.tm.rxRto.toNat then
    { s with cc := { s.cc with cwnd := s.cc.mss } }
  else s

def attemptSend (env : Env) (sflags : SendFlags) (s : PseudoTcp) : PseudoTcp :=
  sendLoop env (s.out.sendWork + 1) sflags (s.restartIdle env)

def closedown (err : Errno) (s : PseudoTcp) : PseudoTcp :=
  { s with out := { s.out with slen := 0 }, state := .closed }.note (.onTcpClosed err)

/-- The first level whose MTU is not above the advised one, or the last. -/
def mtuLevel (mtuAdvise : Word) : ℕ → Word → Word
  | 0, level => level
  | fuel + 1, level =>
    if 0 < packetMaximum (level + 1) then
      if packetMaximum level ≤ mtuAdvise then level else mtuLevel mtuAdvise fuel (level + 1)
    else level

def adjustMTU (s : PseudoTcp) : PseudoTcp :=
  let mss := s.cc.mtuAdvise - packetOverhead
  { s with cc := { s.cc with
      msslevel := mtuLevel s.cc.mtuAdvise packetMaximums.length 0
      mss := mss
      ssthresh := maxOf s.cc.ssthresh (2 * mss)
      cwnd := maxOf s.cc.cwnd mss } }

end PseudoTcp

end Jingle
