/-
The data model of `PseudoTcp` (talk/p2p/base/pseudotcp.{h,cc}).

`uint32` is `Word`, `uint8` is `Byte`; `long` and `size_t` have 64 bits.  The
members of the class are grouped as its header groups them: `Incoming` and
`Outgoing` data, the segment-size and congestion variables (`Congestion`), the
clocks (`Timers`) and the TCB proper (`PseudoTcp`).

The object talks to its owner through `m_notify`.  `log` records, in order, the
calls made on it during the current API call, together with the accesses to the
two buffers, the assertions that fail and the operations that C++ leaves
undefined, so that a property of any of these is a property of the log.

What the outside decides is an `Env`: the readings of `Now()` and the results
of `TcpWritePacket`.
-/
import Jingle.Lib.Mem

namespace Jingle

/-! ### talk_base -/

/-- `talk_base::TimeDiff`: the signed 32-bit distance between two times. -/
def timeDiff (later earlier : Word) : ℤ := (later - earlier).toInt

/-- `bound`: `middle` moved into `[lower, upper]`. -/
def bound (lower middle upper : Word) : Word := minOf (maxOf lower middle) upper

/-! ### Constants -/

/-- Standard MTUs, largest first, with the end-of-list marker. -/
def packetMaximums : List Word := [65535, 32000, 17914, 8166, 4352, 2002, 1492, 1006, 508, 296, 0]

/-- `PACKET_MAXIMUMS[level]`. -/
def packetMaximum (level : Word) : Word := packetMaximums.getD level.toNat 0

def maxPacket : Word := 65535
def minPacket : Word := 296
def headerSize : Word := 24
/-- `HEADER_SIZE + UDP_HEADER_SIZE + IP_HEADER_SIZE + JINGLE_HEADER_SIZE`. -/
def packetOverhead : Word := 24 + 8 + 20 + 64

def minRto : Word := 250
def defRto : Word := 3000
def maxRto : Word := 60000
def defAckDelay : Word := 100

def flagCtl : Byte := 0x02
def flagRst : Byte := 0x04
def ctlConnect : Byte := 0

def defaultTimeout : ℤ := 4000
def closedTimeout : ℤ := 60 * 1000

/-- `sizeof(m_rbuf)`. -/
def kRcvBufSize : Word := 61440
/-- `sizeof(m_sbuf)`. -/
def kSndBufSize : Word := 92160

/-! ### Types -/

inductive TcpState
  | listen | synSent | synReceived | established | closed
  deriving DecidableEq, Repr

inductive Shutdown
  | none | graceful | forceful
  deriving DecidableEq, Repr

inductive SendFlags
  | none | delayedAck | immediateAck
  deriving DecidableEq, Repr

inductive WriteResult
  | success | tooLarge | fail
  deriving DecidableEq, Repr

/-- The error codes the object stores or reports. -/
inductive Errno
  | none | einval | enotconn | ewouldblock | econnaborted | econnreset
  deriving DecidableEq, Repr

inductive SockOption
  | noDelay | ackDelay
  deriving DecidableEq, Repr

/-- A parsed packet.  `data` is the memory from the data pointer on; the
payload is its first `len` bytes. -/
structure Segment where
  conv : Word
  seq : Word
  ack : Word
  flags : Byte
  wnd : BitVec 16
  data : List Byte
  len : Word
  tsval : Word
  tsecr : Word
  deriving DecidableEq, Repr

/-- A segment of the send queue. -/
structure SSegment where
  seq : Word
  len : Word
  xmit : Byte
  bCtrl : Bool
  deriving DecidableEq, Repr

/-- A segment received out of order. -/
structure RSegment where
  seq : Word
  len : Word
  deriving DecidableEq, Repr

/-- The assertions of the source that depend on the state. -/
inductive Assertion
  | packetSize        -- HEADER_SIZE + len <= MAX_PACKET, in packet
  | controlFits       -- !bCtrl, in queue
  | emptyRetransmit   -- false, in NotifyClock with an empty send list
  | ackedInList       -- !m_slist.empty(), while freeing acknowledged segments
  | negativeRtt       -- false, on a negative round-trip time
  | consecutiveSpace  -- consecutive space after consolidation, in process
  | readPosition      -- m_rpos <= m_rlen, in Recv
  deriving DecidableEq, Repr

/-- What the object does to its surroundings, and what goes wrong. -/
inductive Event
  | tcpWritePacket (bytes : List Byte) (result : WriteResult)
  | onTcpOpen
  | onTcpReadable
  | onTcpWriteable
  | onTcpClosed (err : Errno)
  /-- `memcpy` of `len` bytes to `m_rbuf + dst`, with `m_rlen` at that time. -/
  | rbufWrite (dst len rlen : ℕ)
  /-- `transmit` reads `len` bytes of `m_sbuf` from `off` on, with `m_slen`. -/
  | sbufRead (off len slen : Word)
  | assertFailed (which : Assertion)
  | divByZero
  /-- An iterator is dereferenced at the end of its list. -/
  | derefEnd
  /-- A packet is read past its end. -/
  | readPastEnd
  deriving DecidableEq, Repr

/-- Incoming data. -/
structure Incoming where
  rlist : List RSegment
  rbuf : Mem
  rcvNxt : Word
  rcvWnd : Word
  rpos : Word
  rlen : Word

/-- Outgoing data. -/
structure Outgoing where
  slist : List SSegment
  sbuf : Mem
  sndNxt : Word
  sndWnd : Word
  slen : Word
  sndUna : Word

/-- Maximum segment size, congestion avoidance, fast retransmit and recovery. -/
structure Congestion where
  mss : Word
  msslevel : Word
  largest : Word
  mtuAdvise : Word
  ssthresh : Word
  cwnd : Word
  dupAcks : Byte
  recover : Word
  deriving DecidableEq, Repr

/-- Times of the last traffic, retransmit timer, timestamps, round-trip
calculation and delayed acknowledgement. -/
structure Timers where
  lasttraffic : Word
  lastrecv : Word
  lastsend : Word
  rtoBase : Word
  tsRecent : Word
  tsLastack : Word
  rxRttvar : Word
  rxSrtt : Word
  rxRto : Word
  tAck : Word
  deriving DecidableEq, Repr

/-- A `PseudoTcp` object. -/
structure PseudoTcp where
  shutdown : Shutdown
  error : Errno
  state : TcpState
  conv : Word
  bReadEnable : Bool
  bWriteEnable : Bool
  bOutgoing : Bool
  useNagling : Bool
  ackDelay : Word
  inc : Incoming
  out : Outgoing
  cc : Congestion
  tm : Timers
  log : List Event

/-- The outside during one API call.  `now` is read at the head of `process`
(and by the constructor), `sendNow` at the head of `attemptSend`, `ackNow` when
a delayed acknowledgement is armed.  `packetNow` and `write` are the clock
reading and the write result of each `packet` of the call, indexed by the
length of the log at that point; these lengths are distinct, so the readings
and results are independent of each other. -/
structure Env where
  now : Word
  sendNow : Word
  ackNow : Word
  packetNow : ℕ → Word
  write : ℕ → WriteResult

namespace PseudoTcp

/-- Append to the log. -/
def note (e : Event) (s : PseudoTcp) : PseudoTcp := { s with log := s.log ++ [e] }

/-- `ASSERT(p)`: a failure is recorded and the code goes on, as it does with
assertions compiled out. -/
def assert (p : Bool) (which : Assertion) (s : PseudoTcp) : PseudoTcp :=
  if p then s else s.note (.assertFailed which)

/-- The constructor.  The contents of the two buffers are not initialised. -/
def init (rbuf sbuf : Mem) (now conv : Word) : PseudoTcp where
  shutdown := .none
  error := .none
  state := .listen
  conv := conv
  bReadEnable := true
  bWriteEnable := false
  bOutgoing := false
  useNagling := true
  ackDelay := defAckDelay
  inc := { rlist := [], rbuf := rbuf, rcvNxt := 0, rcvWnd := kRcvBufSize, rpos := 0, rlen := 0 }
  out := { slist := [], sbuf := sbuf, sndNxt := 0, sndWnd := 1, slen := 0, sndUna := 0 }
  cc := { mss := minPacket - packetOverhead, msslevel := 0, largest := 0,
          mtuAdvise := maxPacket, ssthresh := kRcvBufSize,
          cwnd := 2 * (minPacket - packetOverhead), dupAcks := 0, recover := 0 }
  tm := { lasttraffic := now, lastrecv := now, lastsend := now, rtoBase := 0,
          tsRecent := 0, tsLastack := 0, rxRttvar := 0, rxSrtt := 0, rxRto := defRto,
          tAck := 0 }
  log := []

end PseudoTcp

namespace Incoming

/-- `getReceiveBufferSpace`: the free bytes of the receive buffer. -/
def getReceiveBufferSpace (i : Incoming) : Word := kRcvBufSize - i.rlen + i.rpos

/-- `getReceiveBufferConsecutiveSpace`: the free bytes at its end. -/
def getReceiveBufferConsecutiveSpace (i : Incoming) : Word := kRcvBufSize - i.rlen

def consolidateReceiveBufferSpace (i : Incoming) : Incoming :=
  { i with
    rbuf := i.rbuf.move i.rpos.toNat (kRcvBufSize - i.rpos).toNat
    rlen := i.rlen - i.rpos
    rpos := 0 }

end Incoming

end Jingle
