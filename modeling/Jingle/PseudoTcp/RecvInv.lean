/-
The receive buffer over whole runs.

Sending, acknowledgement and the clock leave the incoming data alone
(`RecvFrame`), so `process_recv` says all that a packet does to it, and the
properties of `RecvBuffer` are lifted to runs with one case for packets and one
for `Recv`.
-/
import Jingle.PseudoTcp.Moves
import Jingle.PseudoTcp.RecvBuffer

namespace Jingle

namespace PseudoTcp

variable {env : Env} {now : Word} {seg : Segment} {s t u : PseudoTcp}

/-! ### What does not touch the incoming data -/

/-- The events that are not accesses to the incoming data. -/
def SendEvent : Event → Prop
  | .rbufWrite _ _ _ => False
  | .assertFailed .consecutiveSpace => False
  | .assertFailed .readPosition => False
  | .readPastEnd => False
  | _ => True

/-- The incoming data is left alone. -/
structure RecvFrame (s t : PseudoTcp) : Prop where
  inc : t.inc = s.inc
  shutdown : t.shutdown = s.shutdown
  conv : t.conv = s.conv
  log : LogAdds SendEvent s t

namespace RecvFrame

theorem refl (s : PseudoTcp) : RecvFrame s s := ⟨rfl, rfl, rfl, .refl s⟩

theorem trans (h₁ : RecvFrame s t) (h₂ : RecvFrame t u) : RecvFrame s u :=
  ⟨h₂.inc.trans h₁.inc, h₂.shutdown.trans h₁.shutdown, h₂.conv.trans h₁.conv,
    h₁.log.trans h₂.log⟩

theorem of_send (h : SendFrame s t) (hl : LogAdds SendEvent s t) : RecvFrame s t :=
  ⟨h.inc, h.shutdown, h.conv, hl⟩

end RecvFrame

theorem transmit_recvFrame (env : Env) (i : ℕ) (now : Word) (s : PseudoTcp) :
    RecvFrame s (transmit env i now s).2 := by
  refine .of_send (transmit_frame env i now s) ?_
  have hev : ∀ (g : SSegment) (n : Word) (e : Event), TryEvent s g n e → SendEvent e := by
    intro g n e he
    cases he <;> trivial
  rcases h : transmit env i now s with ⟨b, t⟩
  cases transmit_cases h with
  | noSegment => exact .note trivial
  | tooMany => exact .refl s
  | failed g _ _ _ hw _ => exact hw.log.mono (hev g _)
  | sent g _ _ _ _ hw _ => exact (hw.log.mono (hev g _)).trans (.of_log_eq rfl)

theorem Move.recvFrame (h : Move env now s t) : RecvFrame s t := by
  cases h with
  | idle => exact ⟨rfl, rfl, rfl, .of_log_eq rfl⟩
  | pureAck seq =>
    have hp := packet_spec env seq 0 none s
    refine .of_send hp.frame (hp.log.mono fun e he => ?_)
    cases he <;> trivial
  | armAck => exact ⟨rfl, rfl, rfl, .of_log_eq rfl⟩
  | sendNext _ =>
    exact RecvFrame.trans (t := s.breakNext) ⟨rfl, rfl, rfl, .of_log_eq rfl⟩
      (transmit_recvFrame env _ _ _)
  | retransmit _ => exact transmit_recvFrame env _ _ _
  | closedown err =>
    exact ⟨rfl, rfl, rfl, ⟨[.onTcpClosed err], rfl, by simp [SendEvent]⟩⟩
  | exitRecovery => exact ⟨rfl, rfl, rfl, .of_log_eq rfl⟩
  | setDup n => exact ⟨rfl, rfl, rfl, .of_log_eq rfl⟩
  | enterRecovery => exact ⟨rfl, rfl, rfl, .of_log_eq rfl⟩
  | opened _ _ => exact ⟨rfl, rfl, rfl, ⟨[.onTcpOpen], rfl, by simp [SendEvent]⟩⟩
  | writeable =>
    rw [notifyWriteable]
    split
    · exact ⟨rfl, rfl, rfl, ⟨[.onTcpWriteable], rfl, by simp [SendEvent]⟩⟩
    · exact .refl s
  | readable b =>
    rw [notifyReadable]
    split
    · exact ⟨rfl, rfl, rfl, ⟨[.onTcpReadable], rfl, by simp [SendEvent]⟩⟩
    · exact .refl s
  | emptyRetransmit _ _ =>
    exact ⟨rfl, rfl, rfl, ⟨[.assertFailed .emptyRetransmit], rfl, by simp [SendEvent]⟩⟩
  | backOff _ => exact ⟨rfl, rfl, rfl, .of_log_eq rfl⟩
  | probed => exact ⟨rfl, rfl, rfl, .of_log_eq rfl⟩

theorem Grow.recvFrame (h : Grow s t) : RecvFrame s t := by
  cases h with
  | deflate _ => exact ⟨rfl, rfl, rfl, .of_log_eq rfl⟩
  | inflate => exact ⟨rfl, rfl, rfl, .of_log_eq rfl⟩
  | slowStart => exact ⟨rfl, rfl, rfl, .of_log_eq rfl⟩
  | avoid =>
    split
    · exact ⟨rfl, rfl, rfl, ⟨[.divByZero], rfl, by simp [SendEvent]⟩⟩
    · exact ⟨rfl, rfl, rfl, .of_log_eq rfl⟩

theorem Moves.recvFrame (h : Moves env now s t) : RecvFrame s t :=
  h.invariant (P := RecvFrame s) (fun _ _ hs _ hm => hs.trans hm.recvFrame) (.refl s)

theorem Controls.recvFrame (h : Controls env now s t) : RecvFrame s t :=
  h.invariant (P := RecvFrame s) (fun _ _ hs _ hm => hs.trans hm.recvFrame)
    (fun _ _ hs _ hg => hs.trans hg.recvFrame) (.refl s)

theorem AckRun.recvFrame (h : AckRun env seg s t) : RecvFrame s t := by
  cases h with
  | ignored => exact .refl s
  | valuable _ _ _ hc =>
    obtain ⟨rttvar, srtt, rto, es, hadv, hes, -⟩ := ackAdvance_spec env seg s
    refine RecvFrame.trans ?_ hc.recvFrame
    rw [hadv]
    refine ⟨rfl, rfl, rfl, ⟨es, rfl, fun e he => ?_⟩⟩
    rcases hes e he with rfl | ⟨rfl, -⟩ <;> trivial
  | duplicate _ _ hc =>
    exact RecvFrame.trans (t := s.setWindow seg.wnd) ⟨rfl, rfl, rfl, .of_log_eq rfl⟩ hc.recvFrame

theorem queue_recvFrame (data : List Byte) (len : Word) (bCtrl : Bool) (s : PseudoTcp) :
    RecvFrame s (s.queue data len bCtrl).2 := by
  obtain ⟨l, hq, hl⟩ := queue_spec data len bCtrl s
  rw [hq]
  rcases hl with rfl | ⟨rfl, -, -⟩
  · exact ⟨rfl, rfl, rfl, .of_log_eq rfl⟩
  · exact ⟨rfl, rfl, rfl, ⟨[.assertFailed .controlFits], rfl, by simp [SendEvent]⟩⟩

theorem ControlCase.recvFrame {b : Bool} (h : ControlCase seg s b t) : RecvFrame s t := by
  cases h with
  | data => exact .refl s
  | again => exact .refl s
  | accept =>
    exact RecvFrame.trans (t := { s with state := .synReceived }) ⟨rfl, rfl, rfl, .of_log_eq rfl⟩
      (queue_recvFrame _ _ _ _)
  | connected => exact ⟨rfl, rfl, rfl, ⟨[.onTcpOpen], rfl, by simp [SendEvent]⟩⟩

/-! ### What a packet does to the incoming data -/

/-- Data is counted but not stored. -/
def ignoresData (seg : Segment) (s : PseudoTcp) : Bool :=
  seg.flags &&& flagCtl ≠ 0 ∨ s.shutdown ≠ .none

/-- What may be recorded while a segment is received. -/
def RecvEvent (s : PseudoTcp) (seg : Segment) (e : Event) : Prop :=
  SendEvent e ∨ StoreEvent s.inc (s.inc.trim seg) e ∧ (s.inc.trim seg).len ≠ 0

theorem process_recv {b : Bool} (h : ProcessRun env seg s b t) :
    RecvFrame s t ∨ s.TakesUp seg ∧ t.inc = s.inc.receive (s.ignoresData seg) seg ∧
      t.shutdown = s.shutdown ∧ t.conv = s.conv ∧ LogAdds (RecvEvent s seg) s t := by
  have htouch : RecvFrame s (s.touch env) := ⟨rfl, rfl, rfl, .of_log_eq rfl⟩
  have hts : ∀ u : PseudoTcp, RecvFrame u (u.updateTimestamp seg) := by
    intro u
    obtain ⟨ts, hts⟩ := updateTimestamp_frame seg u
    rw [hts]
    exact ⟨rfl, rfl, rfl, .of_log_eq rfl⟩
  cases h with
  | wrongConv _ => exact .inl (.refl s)
  | touched _ => exact .inl htouch
  | reset _ _ _ =>
    have hm : Move env env.now (s.touch env) ((s.touch env).closedown .econnreset) := .closedown _
    exact .inl (htouch.trans hm.recvFrame)
  | failed bConnect u _ _ hctl hack _ =>
    exact .inl ((htouch.trans hctl.recvFrame).trans ((hts u).trans hack.recvFrame))
  | done bConnect u v _ htake hctl hack _ hm =>
    have hv : RecvFrame s v := (htouch.trans hctl.recvFrame).trans ((hts u).trans hack.recvFrame)
    obtain ⟨es, hd, hev⟩ := processData_spec seg v
    have hmf := hm.recvFrame
    rw [hd] at hmf
    refine .inr ⟨htake, ?_, hmf.shutdown.trans hv.shutdown, hmf.conv.trans hv.conv, ?_⟩
    · rw [hmf.inc, ignoresData, ← hv.shutdown, ← hv.inc]
    · refine (hv.log.mono fun e he => .inl he).trans (LogAdds.trans ⟨es, rfl, fun e he => ?_⟩
        (hmf.log.mono fun e he => .inl he))
      rw [hv.inc] at hev
      exact .inr ⟨(hev e he).1, (hev e he).2.1⟩

/-! ### The bounds of the receive buffer -/

end PseudoTcp

namespace Incoming

variable {i : Incoming} {seg : Segment} {ignore : Bool}

theorem trim_len_zero (h : seg.len = 0) : (i.trim seg).len = 0 := by
  have hz : ∀ f : Segment, f.len = 0 → (i.trimBack f).len = 0 := by
    intro f hf
    simp only [trimBack]
    split
    · rw [if_neg (by rw [hf]; bv_omega)]
    · exact hf
  refine hz _ ?_
  simp only [trimFront]
  split
  · rw [if_neg (by rw [h]; bv_omega)]
  · exact h

theorem Bounded.receive (h : Bounded i) (hwrap : seg.len ≠ 0 → seg.stop < 2 ^ 32) :
    Bounded (i.receive ignore seg) := by
  rw [Incoming.receive]
  split
  · exact h
  · rename_i h0
    have hstop := hwrap fun hz => h0 (trim_len_zero hz)
    have ht := trim_spec hstop h0
    have hle := ht.stop_le
    split
    · split
      · rename_i heq
        rw [Segment.stop] at hle
        refine h.withNxt ?_
        rw [← heq]
        bv_omega
      · exact h
    · exact h.store ht.next_le (by omega) ht.fits

theorem Windowed.receive (hw : Windowed i) (h : Bounded i)
    (hwrap : seg.len ≠ 0 → seg.stop < 2 ^ 32 ∧
      (seg.stop ≤ i.rcvNxt.toNat + i.rcvWnd.toNat ∨ i.rcvWnd = i.getReceiveBufferSpace)) :
    Windowed (i.receive ignore seg) := by
  rw [Incoming.receive]
  split
  · exact hw
  · rename_i h0
    obtain ⟨hstop, hwnd⟩ := hwrap fun hz => h0 (trim_len_zero hz)
    have ht := trim_spec hstop h0
    have hle := ht.stop_le
    split
    · split
      · rename_i heq
        rw [Segment.stop] at hle
        refine hw.withNxt ?_
        rw [← heq]
        bv_omega
      · exact hw
    · refine hw.store h ht.next_le (by omega) ?_
      rcases hwnd with hwnd | hwnd
      · omega
      · rw [hwnd]
        exact ht.fits

theorem Bounded.storeEvent (h : Bounded i) (hstop : seg.stop < 2 ^ 32)
    (h0 : (i.trim seg).len ≠ 0) {e : Event} (he : PseudoTcp.StoreEvent i (i.trim seg) e) :
    ∃ dst len rlen, e = .rbufWrite dst len rlen ∧ rlen ≤ dst ∧ dst + len ≤ kRcvBufSize.toNat := by
  have ht := trim_spec hstop h0
  have hle := ht.stop_le
  have hfit := ht.fits
  obtain ⟨hneed, hoff⟩ := need_toNat ht.next_le (by omega)
  obtain ⟨-, hroom, -⟩ := h.makeRoom (n := i.need (i.trim seg)) (by omega)
  have hnext := ht.next_le
  cases he with
  | noRoom hno =>
    refine absurd ?_ hno
    rw [kRcvBufSize_toNat] at hroom
    rw [getReceiveBufferConsecutiveSpace, kRcvBufSize]
    bv_omega
  | write =>
    refine ⟨_, _, _, rfl, Nat.le_add_right _ _, ?_⟩
    rw [hoff]
    rw [hneed, Segment.stop] at hroom
    omega

theorem Bounded.taken (h : Bounded i) {n : Word} (hn : n ≤ i.rlen - i.rpos) :
    Bounded { i with rpos := i.rpos + n } := by
  have h₁ := h.rpos_le
  have h₂ := h.rlen_le
  rw [kRcvBufSize_toNat] at h₂
  refine ⟨?_, h.rlen_le, h.saved⟩
  show (i.rpos + n).toNat ≤ i.rlen.toNat
  bv_omega

theorem Windowed.taken (hw : Windowed i) (h : Bounded i) {n : Word} (hn : n ≤ i.rlen - i.rpos) :
    Windowed { i with rpos := i.rpos + n } := by
  have h₁ := h.rpos_le
  have h₂ := h.rlen_le
  have hle := hw.wnd_le
  have hs := h.space
  rw [kRcvBufSize_toNat] at h₂
  refine ⟨?_, hw.saved⟩
  have hs' := (h.taken hn).space
  have hpos : (i.rpos + n).toNat = i.rpos.toNat + n.toNat := by bv_omega
  show i.rcvWnd ≤ _
  rw [BitVec.le_def] at hle ⊢
  simp only [hpos] at hs'
  omega

theorem Windowed.withWnd (hw : Windowed i) {w : Word} (hwide : i.rcvWnd ≤ w)
    (hfree : w ≤ i.getReceiveBufferSpace) : Windowed { i with rcvWnd := w } := by
  refine ⟨hfree, fun r hr => ?_⟩
  have hsaved := hw.saved r hr
  rw [BitVec.le_def] at hwide
  show _ ≤ i.rcvNxt.toNat + w.toNat
  omega

theorem Windowed.opened (hw : Windowed i) :
    Windowed { i with rcvWnd := i.getReceiveBufferSpace } :=
  hw.withWnd hw.wnd_le (BitVec.le_refl _)

theorem Bounded.withWnd (h : Bounded i) (w : Word) : Bounded { i with rcvWnd := w } :=
  ⟨h.rpos_le, h.rlen_le, h.saved⟩

end Incoming

namespace PseudoTcp

theorem readLen_le (len : ℕ) (s : PseudoTcp) : s.readLen len ≤ s.inc.rlen - s.inc.rpos := by
  rw [readLen, BitVec.le_def, toNat_minOf]
  exact Nat.min_le_right _ _

/-- The writes to the receive buffer, and the assertions about it. -/
def BufferEvent : Event → Prop
  | .rbufWrite dst len rlen => rlen ≤ dst ∧ dst + len ≤ kRcvBufSize.toNat
  | .assertFailed .consecutiveSpace => False
  | .assertFailed .readPosition => False
  | _ => True

/-- The invariant of the receive buffer. -/
structure BufferSafe (s : PseudoTcp) : Prop where
  log : ∀ e ∈ s.log, BufferEvent e
  bounded : s.inc.Bounded
  windowed : s.inc.Windowed

/-- A segment with data does not wrap around, and stays in the advertised
window or finds all the free space advertised. -/
def InWindow (s : PseudoTcp) (seg : Segment) : Prop :=
  seg.len ≠ 0 → seg.stop < 2 ^ 32 ∧
    (seg.stop ≤ s.inc.rcvNxt.toNat + s.inc.rcvWnd.toNat ∨
      s.inc.rcvWnd = s.inc.getReceiveBufferSpace)

/-- Every packet that `process` takes up is in the window. -/
def PacketInWindow (s : PseudoTcp) (op : Op) : Prop :=
  ∀ buffer seg, op = .notifyPacket buffer → buffer.length ≤ maxPacket.toNat →
    parseSegment buffer = some seg → s.TakesUp seg → s.InWindow seg

theorem SendEvent.buffer {e : Event} (h : SendEvent e) : BufferEvent e := by
  cases e with
  | assertFailed a => cases a <;> trivial
  | rbufWrite => exact h.elim
  | _ => trivial

theorem BufferSafe.frame (h : BufferSafe s) (hf : RecvFrame s t) : BufferSafe t := by
  refine ⟨fun e he => ?_, by rw [hf.inc]; exact h.bounded, by rw [hf.inc]; exact h.windowed⟩
  rcases hf.log.mem he with he | he
  · exact h.log e he
  · exact he.buffer

theorem BufferSafe.process {b : Bool} (h : BufferSafe s) (hin : s.TakesUp seg → s.InWindow seg)
    (hr : ProcessRun env seg s b t) : BufferSafe t := by
  rcases process_recv hr with hf | ⟨htake, hinc, -, -, hlog⟩
  · exact h.frame hf
  · have hw := hin htake
    refine ⟨fun e he => ?_, ?_, ?_⟩
    · rcases hlog.mem he with he | he | ⟨he, h0⟩
      · exact h.log e he
      · exact he.buffer
      · have hne : seg.len ≠ 0 := fun hz => h0 (Incoming.trim_len_zero hz)
        obtain ⟨dst, len, rlen, rfl, h₁, h₂⟩ := h.bounded.storeEvent (hw hne).1 h0 he
        exact ⟨h₁, h₂⟩
    · rw [hinc]
      exact h.bounded.receive fun hne => (hw hne).1
    · rw [hinc]
      exact h.windowed.receive h.bounded hw

theorem init_bufferSafe (h : IsInit s) : BufferSafe s := by
  obtain ⟨rbuf, sbuf, now, conv, rfl⟩ := h
  refine ⟨by simp [init], ⟨by simp [init], by simp [init], by simp [init]⟩,
    ⟨?_, by simp [init]⟩⟩
  show kRcvBufSize ≤ kRcvBufSize - 0 + 0
  decide

theorem step_bufferSafe {op : Op} (h : BufferSafe s) (hok : PacketInWindow s op) :
    BufferSafe (step env op s).2 := by
  set s₀ : PseudoTcp := { s with log := [] } with hs₀
  have h₀ : BufferSafe s₀ := ⟨by simp [hs₀], h.bounded, h.windowed⟩
  have hquiet : ∀ {t : PseudoTcp}, t.inc = s₀.inc → t.log = s₀.log → BufferSafe t :=
    fun hi hl => ⟨by rw [hl]; exact h₀.log, by rw [hi]; exact h₀.bounded,
      by rw [hi]; exact h₀.windowed⟩
  have hcall := step_call env op s
  rw [← hs₀] at hcall
  generalize (step env op s).1 = r at hcall
  generalize (step env op s).2 = t at hcall ⊢
  cases hcall with
  | connectAgain _ => exact hquiet rfl rfl
  | connect _ _ hm =>
    exact BufferSafe.frame (s := { s₀ with state := .synSent }) (hquiet rfl rfl)
      ((queue_recvFrame _ _ _ _).trans hm.recvFrame)
  | sendNot _ _ => exact hquiet rfl rfl
  | sendFull _ _ _ => exact hquiet rfl rfl
  | send _ _ _ hm => exact h₀.frame ((queue_recvFrame _ _ _ _).trans hm.recvFrame)
  | recvNot _ _ => exact hquiet rfl rfl
  | recvEmpty _ _ _ => exact hquiet rfl rfl
  | recv len l _ _ _ hl ht =>
    -- the assertion of `Recv` holds
    obtain rfl : l = s₀.log := by
      rcases hl with hl | ⟨-, hno⟩
      · exact hl
      · exact absurd (BitVec.le_def.mpr h₀.bounded.rpos_le) hno
    have hn := readLen_le len s₀
    have htaken : BufferSafe (s₀.taken (s₀.readLen len)) :=
      ⟨h₀.log, h₀.bounded.taken hn, h₀.windowed.taken h₀.bounded hn⟩
    rcases ht with rfl | hm
    · exact htaken
    · refine BufferSafe.frame ?_ hm.recvFrame
      exact ⟨htaken.log, htaken.bounded.withWnd _, htaken.windowed.opened⟩
  | close _ => exact hquiet rfl rfl
  | setOption opt _ => cases opt <;> exact hquiet rfl rfl
  | notifyMTU mtu =>
    rw [PseudoTcp.notifyMTU]
    dsimp only
    split <;> exact hquiet rfl rfl
  | notifyClock _ _ hm => exact h₀.frame hm.recvFrame
  | badLength _ _ => exact h₀
  | shortHeader _ _ =>
    refine ⟨fun e he => ?_, h₀.bounded, h₀.windowed⟩
    rcases List.mem_append.mp he with he | he
    · exact h₀.log e he
    · rw [List.mem_singleton.mp he]
      trivial
  | packet buffer seg b _ hlen hp hrun => exact h₀.process (hok buffer seg rfl hlen hp) hrun

/-- **The receive buffer in every run.**  As long as the segments that are taken
up stay in the window, every write goes behind `m_rlen` and inside `m_rbuf`, the
positions are in order, and the window is backed by free space. -/
theorem recvBuffer_bounds {s : PseudoTcp} (h : Reachable (fun s _ op => PacketInWindow s op) s) :
    (∀ dst len rlen, .rbufWrite dst len rlen ∈ s.log →
      rlen ≤ dst ∧ dst + len ≤ kRcvBufSize.toNat) ∧
      s.inc.rpos ≤ s.inc.rlen ∧ s.inc.rlen ≤ kRcvBufSize ∧
      s.inc.rcvWnd ≤ s.inc.getReceiveBufferSpace := by
  have hsafe : BufferSafe s := by
    refine Reach.invariant (I := BufferSafe) (fun s hs => init_bufferSafe hs)
      (fun s t _ hs hn => ?_) s h
    obtain ⟨env, op, hok, rfl⟩ := hn
    exact step_bufferSafe hs hok
  exact ⟨fun dst len rlen hmem => hsafe.log _ hmem, hsafe.bounded.rpos_le, hsafe.bounded.rlen_le,
    hsafe.windowed.wnd_le⟩

/-- A packet with two bytes at the expected sequence number. -/
theorem recvBuffer_bounds_data :
    PacketInWindow (.fresh 1 7) (.notifyPacket (header 7 0 0 0 1000 1 0 ++ [10, 20])) ∧
      (run [(.steady 1, .notifyPacket (header 7 0 0 0 1000 1 0 ++ [10, 20]))]
        (.fresh 1 7)).inc.rlen ≤ kRcvBufSize := by
  have hok : PacketInWindow (.fresh 1 7) (.notifyPacket (header 7 0 0 0 1000 1 0 ++ [10, 20])) := by
    intro buffer seg hop _ hp _ _
    obtain rfl := Op.notifyPacket.inj hop
    have hseg : parseSegment (header 7 0 0 0 1000 1 0 ++ [10, 20])
        = some { conv := 7, seq := 0, ack := 0, flags := 0, wnd := 1000, data := [10, 20],
                 len := 2, tsval := 1, tsecr := 0 } := by decide
    obtain rfl := Option.some.inj (hseg.symm.trans hp)
    exact ⟨by decide, .inl (by decide)⟩
  have h : Reachable (fun s _ op => PacketInWindow s op)
      (run [(.steady 1, .notifyPacket (header 7 0 0 0 1000 1 0 ++ [10, 20]))] (.fresh 1 7)) :=
    reachable_run _ _ (reachable_fresh 1 7) ⟨hok, trivial⟩
  exact ⟨hok, (recvBuffer_bounds h).2.2.1⟩

/-- A segment whose end wraps around to the expected sequence number passes the
trimming and is written far outside of the buffer. -/
theorem recvBuffer_wrapped_segment :
    Reachable (fun _ _ op => WholePacket op)
        (run [(.steady 1, .notifyPacket (header 7 0xFFFFFFFF 0 0 1000 1 0 ++ [10, 20]))]
          (.fresh 1 7)) ∧
      .rbufWrite 4294967295 2 0 ∈
        (run [(.steady 1, .notifyPacket (header 7 0xFFFFFFFF 0 0 1000 1 0 ++ [10, 20]))]
          (.fresh 1 7)).log := by
  refine ⟨reachable_run _ _ (reachable_fresh 1 7) ?_, by decide⟩
  simp [Meets, WholePacket, header]

end PseudoTcp

end Jingle
