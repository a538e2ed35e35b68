/-
Packets over a stream.

A packet is sent with its length before it, in two bytes.  While a part of a packet is
not written yet the packets after it are dropped whole; the peer takes the packets out of
the bytes that it has received so far.

`Link` is a socket, the stream and the socket of the peer.  The results of the calls of
the operating system are those of the events; it takes no more bytes than it is given.

* `framing` — **the packets delivered are some of those sent, in their order**, as long as
  no packet of 65536 bytes gets into the stream, and the input buffer never overflows.
* `not_framing_65536` — such a packet is accepted, and its length is written as 0.
-/
import Jingle.Lib.ByteReader

namespace Jingle.Base

def maxPacketSize : ℕ := 64 * 1024

def pktLenSize : ℕ := 2

def bufSize : ℕ := maxPacketSize + pktLenSize

structure AsyncTCPSocket where
  /-- The first `inpos_` bytes of the input buffer. -/
  inbuf : List Byte
  /-- The first `outpos_` bytes of the output buffer. -/
  outbuf : List Byte

namespace AsyncTCPSocket

def init : AsyncTCPSocket := ⟨[], []⟩

/-- `Flush`, where the stream returns `res`: the result, and what was written. -/
def flush (s : AsyncTCPSocket) (res : ℤ) : ℤ × AsyncTCPSocket × List Byte :=
  let res := min res s.outbuf.length
  if res ≤ 0 then (res, s, [])
  else (res, { s with outbuf := s.outbuf.drop res.toNat }, s.outbuf.take res.toNat)

def send (s : AsyncTCPSocket) (pv : List Byte) (res : ℤ) : ℤ × AsyncTCPSocket × List Byte :=
  if pv.length > maxPacketSize then (-1, s, [])
  else if s.outbuf ≠ [] then (pv.length, s, [])
  else
    let s := { s with outbuf := be16 (BitVec.ofNat 16 pv.length) ++ pv }
    let r := s.flush res
    if r.1 ≤ 0 then (r.1, { r.2.1 with outbuf := [] }, r.2.2) else (pv.length, r.2)

def onWriteEvent (s : AsyncTCPSocket) (res : ℤ) : AsyncTCPSocket × List Byte :=
  if s.outbuf ≠ [] then (s.flush res).2 else (s, [])

/-- The loop of `ProcessInput`: the packets, and what is left.  It takes two bytes or more
each time. -/
def processInput : ℕ → List Byte → List (List Byte) × List Byte
  | 0, data => ([], data)
  | n + 1, data =>
    match data with
    | a :: b :: rest =>
      let pkt_len := (ofBe16 a b).toNat
      if rest.length < pkt_len then ([], data)
      else
        let r := processInput n (rest.drop pkt_len)
        (rest.take pkt_len :: r.1, r.2)
    | _ => ([], data)

/-- `OnReadEvent` with the bytes that `Recv` has read: the packets, and whether the buffer
overflows. -/
def onReadEvent (s : AsyncTCPSocket) (data : List Byte) :
    List (List Byte) × Bool × AsyncTCPSocket :=
  let r := processInput (s.inbuf ++ data).length (s.inbuf ++ data)
  if r.2.length ≥ bufSize then (r.1, true, { s with inbuf := [] })
  else (r.1, false, { s with inbuf := r.2 })

end AsyncTCPSocket

/-- A socket, the stream from it, and the socket at the other end. -/
structure Link where
  sender : AsyncTCPSocket
  stream : List Byte
  receiver : AsyncTCPSocket
  sent : List (List Byte)
  delivered : List (List Byte)
  overflow : Bool

inductive LinkEvent
  | send (pv : List Byte) (res : ℤ)
  | writeEvent (res : ℤ)
  /-- `Recv` reads so many bytes, if there are as many and if they fit. -/
  | readEvent (len : ℕ)

namespace Link

def init : Link := ⟨.init, [], .init, [], [], false⟩

def step (w : Link) : LinkEvent → Link
  | .send pv res =>
    let r := w.sender.send pv res
    { w with
      sender := r.2.1
      stream := w.stream ++ r.2.2
      sent := if pv.length > maxPacketSize then w.sent else w.sent ++ [pv] }
  | .writeEvent res =>
    let r := w.sender.onWriteEvent res
    { w with sender := r.1, stream := w.stream ++ r.2 }
  | .readEvent len =>
    let n := min len (bufSize - w.receiver.inbuf.length)
    let r := w.receiver.onReadEvent (w.stream.take n)
    { w with
      stream := w.stream.drop n
      delivered := w.delivered ++ r.1
      overflow := w.overflow || r.2.1
      receiver := r.2.2 }

def run (w : Link) (es : List LinkEvent) : Link := es.foldl step w

end Link

/-! ### Frames -/

/-- A packet with its length. -/
def frame (p : List Byte) : List Byte := be16 (BitVec.ofNat 16 p.length) ++ p

/-- The length of a packet is that which is written. -/
def Framed (p : List Byte) : Prop := p.length < 2 ^ 16

@[simp] theorem length_frame (p : List Byte) : (frame p).length = 2 + p.length := by
  rw [frame, List.length_append, length_be16]

theorem frame_take {a b : Byte} {rest : List Byte} (h : (ofBe16 a b).toNat ≤ rest.length) :
    a :: b :: rest =
      frame (rest.take (ofBe16 a b).toNat) ++ rest.drop (ofBe16 a b).toNat := by
  have hlen : (rest.take (ofBe16 a b).toNat).length = (ofBe16 a b).toNat := by
    rw [List.length_take, Nat.min_eq_left h]
  rw [frame, hlen, BitVec.ofNat_toNat, BitVec.setWidth_eq, be16_ofBe16, List.append_assoc,
    List.take_append_drop]
  rfl

theorem frame_inj {p q x y : List Byte} (hp : Framed p) (hq : Framed q)
    (h : frame p ++ x = frame q ++ y) : p = q ∧ x = y := by
  rw [frame, frame, List.append_assoc, List.append_assoc] at h
  obtain ⟨hlen, hrest⟩ := List.append_inj h rfl
  have hnumber := congrArg (fun bs : List Byte => readUInt16 (bs ++ [])) hlen
  simp only [readUInt16_be16] at hnumber
  have hnat := congrArg BitVec.toNat (Prod.mk.inj (Option.some.inj hnumber)).1
  rw [BitVec.toNat_ofNat, BitVec.toNat_ofNat, Nat.mod_eq_of_lt hp, Nat.mod_eq_of_lt hq] at hnat
  exact List.append_inj hrest hnat

theorem prefix_of_frames {ds fs : List (List Byte)} {x : List Byte} (hd : ∀ d ∈ ds, Framed d)
    (hf : ∀ f ∈ fs, Framed f) (h : ds.flatMap frame ++ x = fs.flatMap frame) : ds <+: fs := by
  induction ds generalizing fs with
  | nil => exact List.nil_prefix
  | cons d ds ih =>
    obtain ⟨hd, hds⟩ := List.forall_mem_cons.mp hd
    cases fs with
    | nil =>
      have hlen := congrArg List.length h
      rw [List.flatMap_cons, List.length_append, List.length_append, length_frame] at hlen
      simp only [List.flatMap_nil, List.length_nil] at hlen
      omega
    | cons f fs =>
      obtain ⟨hf, hfs⟩ := List.forall_mem_cons.mp hf
      rw [List.flatMap_cons, List.flatMap_cons, List.append_assoc] at h
      obtain ⟨rfl, hrest⟩ := frame_inj hd hf h
      exact List.cons_prefix_cons.mpr ⟨rfl, ih hds hfs hrest⟩

/-! ### Both ends -/

namespace AsyncTCPSocket

variable {s : AsyncTCPSocket}

theorem flush_spec (s : AsyncTCPSocket) (res : ℤ) :
    (s.flush res).2.1.inbuf = s.inbuf ∧ (s.flush res).2.2 ++ (s.flush res).2.1.outbuf = s.outbuf ∧
      ((s.flush res).1 ≤ 0 → (s.flush res).2.2 = []) := by
  rw [flush]
  split_ifs with hres
  · exact ⟨rfl, rfl, fun _ => rfl⟩
  · exact ⟨rfl, List.take_append_drop _ _, fun hle => absurd hle hres⟩

theorem send_spec (s : AsyncTCPSocket) (pv : List Byte) (res : ℤ) :
    (s.send pv res).2.1.inbuf = s.inbuf ∧
      ((s.send pv res).2.2 ++ (s.send pv res).2.1.outbuf = s.outbuf ∨
        (pv.length ≤ maxPacketSize ∧ s.outbuf = [] ∧ 0 < res ∧
          (s.send pv res).2.2 ++ (s.send pv res).2.1.outbuf = frame pv)) := by
  rw [send]
  split_ifs with hlen hout
  · exact ⟨rfl, .inl rfl⟩
  · exact ⟨rfl, .inl rfl⟩
  · have hempty : s.outbuf = [] := not_not.mp hout
    obtain ⟨hin, hwritten, hnone⟩ :=
      flush_spec { s with outbuf := be16 (BitVec.ofNat 16 pv.length) ++ pv } res
    have hres : ({ s with outbuf := be16 (BitVec.ofNat 16 pv.length) ++ pv } : AsyncTCPSocket).flush
        res = flush { s with outbuf := be16 (BitVec.ofNat 16 pv.length) ++ pv } res := rfl
    by_cases hno : (flush { s with outbuf := be16 (BitVec.ofNat 16 pv.length) ++ pv } res).1 ≤ 0
    · simp only [if_pos hno]
      refine ⟨hin, .inl ?_⟩
      rw [hnone hno, hempty]
      rfl
    · simp only [if_neg hno]
      refine ⟨hin, .inr ⟨Nat.not_lt.mp hlen, hempty, ?_, hwritten⟩⟩
      by_contra hle
      apply hno
      rw [flush]
      dsimp only
      rw [if_pos (by omega)]
      omega

theorem processInput_spec (n : ℕ) (data : List Byte) (hn : data.length ≤ n) :
    data = (processInput n data).1.flatMap frame ++ (processInput n data).2 ∧
      (∀ p ∈ (processInput n data).1, Framed p) ∧ (processInput n data).2.length < bufSize - 1 := by
  induction n generalizing data with
  | zero =>
    rw [List.length_eq_zero_iff.mp (Nat.le_zero.mp hn), processInput]
    exact ⟨rfl, fun _ hp => absurd hp List.not_mem_nil, by decide⟩
  | succ n ih =>
    cases data with
    | nil => exact ⟨rfl, fun _ hp => absurd hp List.not_mem_nil, show 0 < 65537 by omega⟩
    | cons a data =>
    cases data with
    | nil => exact ⟨rfl, fun _ hp => absurd hp List.not_mem_nil, show 1 < 65537 by omega⟩
    | cons b rest =>
      rw [processInput]
      have hlt := (ofBe16 a b).isLt
      by_cases hshort : rest.length < (ofBe16 a b).toNat
      · simp only [if_pos hshort]
        refine ⟨rfl, fun _ hp => absurd hp List.not_mem_nil, ?_⟩
        rw [List.length_cons, List.length_cons]
        show rest.length + 1 + 1 < 65537
        omega
      · simp only [if_neg hshort]
        have hle := Nat.not_lt.mp hshort
        obtain ⟨hdata, hframed, hleft⟩ := ih (rest.drop (ofBe16 a b).toNat) (by
          rw [List.length_drop]
          rw [List.length_cons, List.length_cons] at hn
          omega)
        refine ⟨?_, List.forall_mem_cons.mpr ⟨?_, hframed⟩, hleft⟩
        · rw [List.flatMap_cons, List.append_assoc, ← hdata]
          exact frame_take hle
        · rw [Framed, List.length_take, Nat.min_eq_left hle]
          exact hlt

theorem onReadEvent_spec (s : AsyncTCPSocket) (data : List Byte) :
    (s.onReadEvent data).2.1 = false ∧ (s.onReadEvent data).2.2.outbuf = s.outbuf ∧
      s.inbuf ++ data =
        (s.onReadEvent data).1.flatMap frame ++ (s.onReadEvent data).2.2.inbuf ∧
      ∀ p ∈ (s.onReadEvent data).1, Framed p := by
  obtain ⟨hdata, hframed, hleft⟩ := processInput_spec _ (s.inbuf ++ data) (Nat.le_refl _)
  rw [onReadEvent]
  have hno : ¬(processInput (s.inbuf ++ data).length (s.inbuf ++ data)).2.length ≥ bufSize := by
    omega
  simp only [if_neg hno]
  exact ⟨trivial, trivial, hdata, hframed⟩

end AsyncTCPSocket

namespace Link

variable {w : Link}

/-- All that was written and not taken out yet, with what was delivered, is packets in
their order. -/
structure Framing (w : Link) : Prop where
  frames : ∃ fs : List (List Byte), fs.Sublist w.sent ∧ (∀ f ∈ fs, Framed f) ∧
    w.delivered.flatMap frame ++ (w.receiver.inbuf ++ (w.stream ++ w.sender.outbuf)) =
      fs.flatMap frame
  delivered : ∀ p ∈ w.delivered, Framed p

/-- No packet of the greatest size gets into the stream. -/
def Regular (w : Link) : LinkEvent → Prop
  | .send pv res => pv.length = maxPacketSize → w.sender.outbuf ≠ [] ∨ res ≤ 0
  | _ => True

def RegularRun : Link → List LinkEvent → Prop
  | _, [] => True
  | w, e :: es => w.Regular e ∧ RegularRun (w.step e) es

theorem framing_step (h : w.Framing) {e : LinkEvent} (he : w.Regular e) : (w.step e).Framing := by
  obtain ⟨⟨fs, hsub, hframed, heq⟩, hdelivered⟩ := h
  cases e with
  | send pv res =>
    obtain ⟨-, hcase⟩ := AsyncTCPSocket.send_spec w.sender pv res
    have hkeep : fs.Sublist (if pv.length > maxPacketSize then w.sent else w.sent ++ [pv]) := by
      split_ifs
      · exact hsub
      · exact hsub.trans (List.sublist_append_left _ _)
    rcases hcase with hdrop | ⟨hlen, hempty, hres, hframe⟩
    · refine ⟨⟨fs, hkeep, hframed, ?_⟩, hdelivered⟩
      rw [← heq]
      show w.delivered.flatMap frame ++ (w.receiver.inbuf ++ ((w.stream ++ (w.sender.send pv
        res).2.2) ++ (w.sender.send pv res).2.1.outbuf)) = _
      rw [List.append_assoc w.stream, hdrop]
    · -- the packet is the last of the stream
      have hpv : Framed pv := by
        have hne : pv.length ≠ maxPacketSize := fun hmax => by
          rcases he hmax with hout | hle
          · exact hout hempty
          · omega
        show pv.length < 65536
        have hmax : pv.length ≤ 65536 := hlen
        have hne' : pv.length ≠ 65536 := hne
        omega
      refine ⟨⟨fs ++ [pv], ?_, ?_, ?_⟩, hdelivered⟩
      · show (fs ++ [pv]).Sublist (if pv.length > maxPacketSize then w.sent else w.sent ++ [pv])
        rw [if_neg (Nat.not_lt.mpr hlen)]
        exact hsub.append_right [pv]
      · exact fun f hf => (List.mem_append.mp hf).elim (hframed f) fun hf =>
          List.mem_singleton.mp hf ▸ hpv
      · rw [hempty, List.append_nil] at heq
        rw [List.flatMap_append, ← heq]
        show w.delivered.flatMap frame ++ (w.receiver.inbuf ++ ((w.stream ++ (w.sender.send pv
          res).2.2) ++ (w.sender.send pv res).2.1.outbuf)) = _
        rw [List.append_assoc w.stream, hframe]
        simp only [List.append_assoc, List.flatMap_cons, List.flatMap_nil, List.append_nil]
  | writeEvent res =>
    have hsame : (w.sender.onWriteEvent res).2 ++ (w.sender.onWriteEvent res).1.outbuf =
        w.sender.outbuf := by
      rw [AsyncTCPSocket.onWriteEvent]
      split_ifs
      · exact (AsyncTCPSocket.flush_spec w.sender res).2.1
      · rfl
    refine ⟨⟨fs, hsub, hframed, ?_⟩, hdelivered⟩
    rw [← heq]
    show w.delivered.flatMap frame ++ (w.receiver.inbuf ++ ((w.stream ++ (w.sender.onWriteEvent
      res).2) ++ (w.sender.onWriteEvent res).1.outbuf)) = _
    rw [List.append_assoc w.stream, hsame]
  | readEvent len =>
    set n := min len (bufSize - w.receiver.inbuf.length) with hn
    obtain ⟨-, -, hdata, hnew⟩ := AsyncTCPSocket.onReadEvent_spec w.receiver (w.stream.take n)
    refine ⟨⟨fs, hsub, hframed, ?_⟩, fun p hp => (List.mem_append.mp hp).elim (hdelivered p)
      (hnew p)⟩
    rw [← heq]
    show (w.delivered ++ (w.receiver.onReadEvent (w.stream.take n)).1).flatMap frame ++
      ((w.receiver.onReadEvent (w.stream.take n)).2.2.inbuf ++ (w.stream.drop n ++
        w.sender.outbuf)) = _
    rw [List.flatMap_append, List.append_assoc, ← List.append_assoc _ _ (w.stream.drop n ++ _),
      ← hdata, List.append_assoc, ← List.append_assoc (w.stream.take n), List.take_append_drop]

theorem framing_run {es : List LinkEvent} (h : w.Framing) (hes : w.RegularRun es) :
    (w.run es).Framing := by
  induction es generalizing w with
  | nil => exact h
  | cons e es ih => exact ih (framing_step h hes.1) hes.2

theorem overflow_step (h : w.overflow = false) (e : LinkEvent) : (w.step e).overflow = false := by
  cases e with
  | send pv res => exact h
  | writeEvent res => exact h
  | readEvent len =>
    rw [step]
    dsimp only
    rw [h, (AsyncTCPSocket.onReadEvent_spec _ _).1]
    rfl

theorem overflow_run (es : List LinkEvent) (h : w.overflow = false) :
    (w.run es).overflow = false := by
  induction es generalizing w with
  | nil => exact h
  | cons e es ih => exact ih (overflow_step h e)

/-- **The packets delivered are some of those sent**, each whole and in their order, if
none of the greatest size gets into the stream; the input buffer never overflows. -/
theorem framing (es : List LinkEvent) : (init.run es).overflow = false ∧
    (init.RegularRun es → (init.run es).delivered.Sublist (init.run es).sent) := by
  refine ⟨overflow_run es rfl, fun hes => ?_⟩
  have hinit : init.Framing := ⟨⟨[], List.Sublist.refl _, fun _ hf => absurd hf List.not_mem_nil,
    rfl⟩, fun _ hp => absurd hp List.not_mem_nil⟩
  obtain ⟨⟨fs, hsub, hframed, heq⟩, hdelivered⟩ := framing_run hinit hes
  exact (prefix_of_frames hdelivered hframed heq).sublist.trans hsub

/-- Two packets, the second of which is dropped, and the first read in two parts. -/
def splitRun : List LinkEvent :=
  [.send [7, 8] 3, .send [9] 3, .readEvent 1, .writeEvent 5, .readEvent 9]

theorem framing_split : (init.run splitRun).delivered.Sublist (init.run splitRun).sent ∧
    (init.run splitRun).delivered = [[7, 8]] := by
  refine ⟨(framing splitRun).2 ⟨?_, ?_, trivial, trivial, trivial, trivial⟩, by decide⟩
  · exact fun hlen => absurd hlen (by decide)
  · exact fun hlen => absurd hlen (by decide)

/-- **A packet of 65536 bytes** is delivered as an empty one. -/
theorem not_framing_65536 : ¬∀ es, (init.run es).delivered.Sublist (init.run es).sent := by
  intro h
  obtain ⟨p, hp⟩ : ∃ p : List Byte, p.length = 65536 := ⟨_, List.length_replicate (n := 65536) (a := 0)⟩
  -- the first two bytes of the packet are a length of 0
  have hflush : AsyncTCPSocket.flush ⟨[], 0 :: 0 :: p⟩ 2 = (2, ⟨[], p⟩, [0, 0]) := by
    have hmin : min (2 : ℤ) ((0 :: 0 :: p : List Byte).length : ℤ) = 2 := by
      rw [List.length_cons, List.length_cons, hp]
      rfl
    rw [AsyncTCPSocket.flush, hmin]
    rfl
  have hsend : AsyncTCPSocket.init.send p 2 = (65536, ⟨[], p⟩, [0, 0]) := by
    have hframe : be16 (BitVec.ofNat 16 p.length) ++ p = 0 :: 0 :: p := by
      rw [hp]
      rfl
    have hout : ¬AsyncTCPSocket.init.outbuf ≠ [] := not_not.mpr rfl
    rw [AsyncTCPSocket.send, if_neg (by rw [hp]; decide), if_neg hout, hframe]
    show (if (AsyncTCPSocket.flush ⟨[], 0 :: 0 :: p⟩ 2).1 ≤ 0 then _ else
      ((p.length : ℤ), (AsyncTCPSocket.flush ⟨[], 0 :: 0 :: p⟩ 2).2)) = _
    rw [hflush, hp]
    rfl
  have hrun : (init.run [.send p 2, .readEvent 2]).delivered = [[]] ∧
      (init.run [.send p 2, .readEvent 2]).sent = [p] := by
    have hstep : init.step (.send p 2) = ⟨⟨[], p⟩, [0, 0], .init, [p], [], false⟩ := by
      rw [step]
      show Link.mk (AsyncTCPSocket.init.send p 2).2.1 ([] ++ (AsyncTCPSocket.init.send p 2).2.2) _
        (if p.length > maxPacketSize then [] else [p]) _ _ = _
      rw [hsend, hp]
      rfl
    rw [run, List.foldl_cons, hstep]
    exact ⟨rfl, rfl⟩
  have hsub := h [.send p 2, .readEvent 2]
  rw [hrun.1, hrun.2, List.singleton_sublist, List.mem_singleton] at hsub
  rw [← hsub] at hp
  cases hp

end Link

end Jingle.Base
