/-
Two endpoints and the packets between them.

A packet that was sent can be delivered at any time, any number of times, in any order, or never.
Each endpoint sends its stream to the other one: the control byte and what its user gives to
`Send`.  The invariant `Half` of one direction says that the packets of the sender are cut from
its stream, that the receiver has put together a beginning of it, and that what the receiver has
acknowledged is a cut of the stream inside the window that it has advertised.

* **`endToEnd`** — what one user has received is a beginning of what the other one has sent, and
  an acknowledged byte has been received.
* **`wire_sound`** — a packet on the wire is cut from the stream and fits the window of the other
  end, whenever it arrives.
-/
import Jingle.PseudoTcp.SendStream

namespace Jingle

/-! ### What a segment changes at the receiver -/

namespace Incoming

variable {i j k : Incoming} {seg : Segment} {ignore : Bool} {stops : ℕ → Prop}

/-- The receiver goes on: to the end of a segment that it has saved, or of one that arrives. -/
structure Receives (stops : ℕ → Prop) (i j : Incoming) : Prop where
  next_le : i.rcvNxt.toNat ≤ j.rcvNxt.toNat
  edge_le : i.rcvNxt.toNat + i.rcvWnd.toNat ≤ j.rcvNxt.toNat + j.rcvWnd.toNat
  next : j.rcvNxt = i.rcvNxt ∨ (∃ r ∈ i.rlist, j.rcvNxt.toNat = r.stop) ∨ stops j.rcvNxt.toNat
  saved : ∀ r ∈ j.rlist, r ∈ i.rlist ∨ stops r.stop

theorem Receives.refl (i : Incoming) : Receives stops i i :=
  ⟨le_refl _, le_refl _, .inl rfl, fun _ hr => .inl hr⟩

theorem Receives.congr (h : Receives stops i j) (hnext : k.rcvNxt = j.rcvNxt)
    (hwnd : j.rcvWnd.toNat ≤ k.rcvWnd.toNat) (hlist : k.rlist = j.rlist) : Receives stops i k where
  next_le := hnext ▸ h.next_le
  edge_le := by
    rw [hnext]
    exact h.edge_le.trans (Nat.add_le_add_left hwnd _)
  next := hnext ▸ h.next
  saved := hlist ▸ h.saved

theorem Receives.withList (h : Receives stops i j) {l : List RSegment}
    (hl : ∀ r ∈ l, r ∈ i.rlist ∨ stops r.stop) : Receives stops i { j with rlist := l } :=
  ⟨h.next_le, h.edge_le, h.next, hl⟩

theorem Receives.advance (h : Receives stops i j) {n : Word} (hn : n ≤ j.rcvWnd)
    (hlt : j.rcvNxt.toNat + n.toNat < 2 ^ 32)
    (hend : (∃ r ∈ i.rlist, j.rcvNxt.toNat + n.toNat = r.stop) ∨
      stops (j.rcvNxt.toNat + n.toNat)) : Receives stops i (j.advance n) := by
  have hnext : (j.rcvNxt + n).toNat = j.rcvNxt.toNat + n.toNat := by bv_omega
  have hwnd : (j.rcvWnd - n).toNat = j.rcvWnd.toNat - n.toNat := by bv_omega
  have hn' : n.toNat ≤ j.rcvWnd.toNat := hn
  refine ⟨?_, ?_, .inr ?_, h.saved⟩
  · have := h.next_le
    rw [advance_rcvNxt, hnext]
    omega
  · have := h.edge_le
    rw [advance_rcvNxt, advance_rcvWnd, hnext, hwnd]
    omega
  · rw [advance_rcvNxt, hnext]
    exact hend

theorem Receives.store (hw : Windowed i) (h : Bounded i) (h₁ : i.rcvNxt.toNat ≤ seg.seq.toNat)
    (hstop : seg.stop < 2 ^ 32) (hwnd : seg.stop ≤ i.rcvNxt.toNat + i.rcvWnd.toNat) :
    Receives (· = seg.stop) i (i.store seg) := by
  have hle : i.rcvWnd.toNat ≤ i.getReceiveBufferSpace.toNat := hw.wnd_le
  obtain ⟨hneed, -⟩ := need_toNat h₁ hstop
  obtain ⟨hb, hroom, hspace⟩ := h.makeRoom (n := i.need seg) (by omega)
  have hnxt := i.makeRoom_rcvNxt (i.need seg)
  have hlist := i.makeRoom_rlist (i.need seg)
  have hwn := i.makeRoom_rcvWnd (i.need seg)
  simp only [Incoming.store]
  generalize i.makeRoom (i.need seg) = j at hb hroom hnxt hlist hspace hwn ⊢
  have hj : Receives (· = seg.stop) i (j.place seg) :=
    (Receives.refl i).congr (by rw [place_rcvNxt, hnxt]) (by rw [place_rcvWnd, hwn])
      (by rw [place_rlist, hlist])
  have hp := hb.place seg
  have hpw : Windowed (j.place seg) := by
    refine hw.congr (fun r hr => ?_) ?_ ?_ ?_
    · rwa [place_rlist, hlist] at hr
    · rw [place_rcvWnd, hwn]
    · rw [← hspace, getReceiveBufferSpace, place_rlen, place_rpos, getReceiveBufferSpace]
    · rw [place_rcvNxt, hnxt]
      exact BitVec.le_refl _
  split
  · rename_i heq
    rw [place_rcvNxt] at heq
    have hn : seg.len ≤ j.rcvWnd := by
      rw [Segment.stop, heq, hnxt] at hwnd
      rw [hwn, BitVec.le_def]
      omega
    have hn' : seg.len ≤ (j.place seg).rcvWnd := by
      rw [place_rcvWnd]
      exact hn
    have hlen : j.rlen.toNat + seg.len.toNat ≤ kRcvBufSize.toNat := by
      rw [hneed, Segment.stop, heq, hnxt] at hroom
      omega
    have hstop' : (j.place seg).rcvNxt.toNat + seg.len.toNat = seg.stop := by
      rw [place_rcvNxt, Segment.stop, heq]
    have hall := recoverFrom_induct
      (P := fun k => Bounded k ∧ Windowed k ∧ k.rlist ⊆ i.rlist ∧ Receives (· = seg.stop) i k)
      (fun k l hk hl => ⟨hk.1.dropList hl, hk.2.1.dropList hl, fun r hr => hk.2.2.1 (hl hr),
        hk.2.2.2.next_le, hk.2.2.2.edge_le, hk.2.2.2.next, fun r hr => hk.2.2.2.saved r (hl hr)⟩)
      (fun k r hk hr _ hlt => by
        obtain ⟨hkb, hkw, hkl, hkr⟩ := hk
        obtain ⟨hst, -⟩ := hkb.saved r hr
        obtain ⟨hn, hpos⟩ := recovered_toNat hst hlt
        have hwd := hkw.saved r hr
        have hnw : r.seq + r.len - k.rcvNxt ≤ k.rcvWnd := by
          rw [BitVec.le_def]
          omega
        exact ⟨hkb.recovered hr hlt, hkw.advance hkb hnw (by omega), hkl,
          hkr.advance hnw (by omega) (.inl ⟨r, hkl hr, by omega⟩)⟩)
      (j.place seg).rlist ((j.place seg).advance seg.len) false
      ⟨hp.advance (by rw [place_rlen]; exact hlen) (by rw [hstop']; exact hstop),
        hpw.advance hp hn' (by rw [hstop']; exact hstop),
        by rw [advance_rlist, place_rlist, hlist]; exact fun _ hx => hx,
        hj.advance hn' (by rw [hstop']; exact hstop) (.inr hstop')⟩
      (by rw [advance_rlist]; exact fun _ hx => hx)
    exact hall.2.2.2
  · refine hj.withList fun r hr => ?_
    obtain rfl | hr := mem_insertSegment hr
    · exact .inr rfl
    · exact hj.saved r hr

theorem Receives.receive (ignore : Bool) (hw : Windowed i) (h : Bounded i)
    (hin : seg.len ≠ 0 → seg.stop < 2 ^ 32 ∧ seg.stop ≤ i.rcvNxt.toNat + i.rcvWnd.toNat) :
    Receives (fun n => seg.len ≠ 0 ∧ n = seg.stop) i (i.receive ignore seg) := by
  have hle : i.rcvWnd.toNat ≤ i.getReceiveBufferSpace.toNat := hw.wnd_le
  rw [Incoming.receive]
  split
  · exact .refl i
  · rename_i h0
    have hne : seg.len ≠ 0 := fun hz => h0 (trim_len_zero hz)
    obtain ⟨hstop, hwnd⟩ := hin hne
    have ht := trim_spec hstop h0
    have hwhole := ht.whole (by omega)
    split
    · split
      · rename_i heq
        rw [Segment.stop, heq] at hwhole
        have hnext : (i.rcvNxt + (i.trim seg).len).toNat = seg.stop := by
          rw [← hwhole] at hstop ⊢
          bv_omega
        refine ⟨?_, ?_, .inr (.inr ⟨hne, hnext⟩), fun _ hr => .inl hr⟩
        · dsimp only
          omega
        · dsimp only
          omega
      · exact .refl i
    · have hst := Receives.store hw h ht.next_le (by omega) (by omega)
      rw [hwhole] at hst
      exact ⟨hst.next_le, hst.edge_le, hst.next.imp_right (.imp_right fun he => ⟨hne, he⟩),
        fun r hr => (hst.saved r hr).imp_right fun he => ⟨hne, he⟩⟩

theorem receive_control_next (hw : Windowed i) (h : Bounded i) (hseq : seg.seq = 0)
    (hlen : seg.len = 1) (hwnd : seg.stop ≤ i.rcvNxt.toNat + i.rcvWnd.toNat) :
    (i.receive true seg).rcvNxt ≠ 0 := by
  have hstop : seg.stop = 1 := by
    rw [Segment.stop, hseq, hlen]
    rfl
  by_cases h0 : i.rcvNxt = 0
  · have hle : i.rcvWnd.toNat ≤ i.getReceiveBufferSpace.toNat := hw.wnd_le
    have hz : (0 : Word).toNat = 0 := rfl
    rw [hstop, h0, hz] at hwnd
    have hfront : i.trimFront seg = seg := by
      rw [trimFront, h0, hseq]
      exact if_neg (by decide)
    have hback : i.trimBack seg = seg := by
      rw [trimBack, h0, hseq, hlen]
      refine if_neg ?_
      bv_omega
    have htrim : i.trim seg = seg := by rw [trim, hfront, hback]
    have hone : (1 : Word) ≠ 0 := by decide
    rw [receive, htrim, if_neg (by rw [hlen]; exact hone), if_pos rfl,
      if_pos (by rw [hseq, h0])]
    dsimp only
    rw [h0, hlen]
    decide
  · have hr := Receives.receive true hw h fun _ => ⟨by omega, hwnd⟩
    intro hz
    have := hr.next_le
    rw [hz] at this
    exact h0 (by bv_omega)

end Incoming

/-! ### What a call changes for the other side -/

/-- How much an endpoint has queued: the control byte and the data of its user. -/
def TcpState.queued (st : TcpState) (sent : List Byte) : ℕ :=
  if st = .listen then 0 else 1 + sent.length

/-- The stream has the control byte and then the data. -/
def Spells (stream : ℕ → Byte) (sent : List Byte) : Prop :=
  stream 0 = ctlConnect ∧ ∀ i (hi : i < sent.length), stream (1 + i) = sent[i]

/-- A stream that a list spells. -/
def spelled (sent : List Byte) : ℕ → Byte := fun p => (ctlConnect :: sent).getD p 0

theorem spells_spelled (sent : List Byte) : Spells (spelled sent) sent := by
  refine ⟨rfl, fun i hi => ?_⟩
  rw [spelled, Nat.add_comm, List.getD_cons_succ, List.getD_eq_getElem?_getD,
    List.getElem?_eq_getElem hi, Option.getD_some]

theorem Spells.start {stream : ℕ → Byte} {sent more : List Byte}
    (h : Spells stream (sent ++ more)) : Spells stream sent := by
  refine ⟨h.1, fun i hi => ?_⟩
  rw [h.2 i (by rw [List.length_append]; omega), List.getElem_append_left hi]

/-- The bytes a call takes from the user. -/
def accepted : Op → Ret → List Byte
  | .send _, .bytes _ data => data
  | _, _ => []

theorem accepted_send (data bytes : List Byte) (value : ℤ) :
    accepted (.send data) (.bytes value bytes) = bytes := rfl

namespace PseudoTcp

variable {env : Env} {now : Word} {seg : Segment} {s t u : PseudoTcp} {op : Op}

/-- How the state of a connection goes on without its control byte. -/
def Onward (st st' : TcpState) : Prop :=
  st' = .closed ∨ st' = st ∨ st = .synReceived ∧ st' = .established

theorem Onward.trans {st st' st'' : TcpState} (h₁ : Onward st st') (h₂ : Onward st' st'') :
    Onward st st'' := by
  obtain rfl | rfl | ⟨rfl, rfl⟩ := h₁
  · obtain h | h | ⟨h, -⟩ := h₂
    · exact .inl h
    · exact .inl h
    · exact absurd h (by decide)
  · exact h₂
  · obtain h | h | ⟨h, -⟩ := h₂
    · exact .inl h
    · exact .inr (.inr ⟨rfl, h⟩)
    · exact absurd h (by decide)

/-- A packet carries the acknowledgement and the window of the incoming data. -/
def Stamped (i : Incoming) (e : Event) : Prop :=
  ∀ b r, e = .tcpWritePacket b r → ∃ seg, parseSegment b = some seg ∧ seg.ack = i.rcvNxt ∧
    seg.wnd = i.rcvWnd.setWidth 16

theorem stamped_packet (seq : Word) (flags : Byte) (data : List Byte) (now : Word)
    (r : WriteResult) (s : PseudoTcp) :
    Stamped s.inc (.tcpWritePacket (s.packetBytes seq flags data now) r) := by
  rintro b r' he
  obtain ⟨rfl, -⟩ := Event.tcpWritePacket.inj he
  exact ⟨_, parseSegment_header _ _ _ _ _ _ _ _, rfl, rfl⟩

theorem stamped_of_ne {i : Incoming} {e : Event} (h : ∀ b r, e ≠ .tcpWritePacket b r) :
    Stamped i e :=
  fun b r he => absurd he (h b r)

theorem stamped_of_store {i i' : Incoming} {e : Event} (h : StoreEvent i' seg e) : Stamped i e := by
  cases h <;> exact stamped_of_ne (by simp)

/-- The incoming data is left alone and acknowledged. -/
structure Outward (s t : PseudoTcp) : Prop where
  inc : t.inc = s.inc
  state : Onward s.state t.state
  log : LogAdds (Stamped s.inc) s t

namespace Outward

theorem trans (h₁ : Outward s t) (h₂ : Outward t u) : Outward s u :=
  ⟨h₂.inc.trans h₁.inc, h₁.state.trans h₂.state, h₁.log.trans (h₁.inc ▸ h₂.log)⟩

theorem quiet (hinc : t.inc = s.inc) (hst : t.state = s.state) (hlog : t.log = s.log) :
    Outward s t :=
  ⟨hinc, .inr (.inl hst), .of_log_eq hlog⟩

theorem refl (s : PseudoTcp) : Outward s s := .quiet rfl rfl rfl

theorem noted {e : Event} (hinc : t.inc = s.inc) (hst : Onward s.state t.state)
    (hlog : t.log = s.log ++ [e]) (he : ∀ b r, e ≠ .tcpWritePacket b r) : Outward s t :=
  ⟨hinc, hst, [e], hlog, fun x hx => by
    rw [List.mem_singleton.1 hx]
    exact stamped_of_ne he⟩

theorem transmit (env : Env) (i : ℕ) (now : Word) (s : PseudoTcp) :
    Outward s (transmit env i now s).2 := by
  have hfr := transmit_frame env i now s
  refine ⟨hfr.inc, .inr (.inl hfr.state), ?_⟩
  have hev : ∀ (g : SSegment) (n : Word) (e : Event), TryEvent s g n e → Stamped s.inc e := by
    intro g n e he
    cases he with
    | read => exact stamped_of_ne (by simp)
    | oversize => exact stamped_of_ne (by simp)
    | write => exact stamped_packet _ _ _ _ _ _
  rcases h : PseudoTcp.transmit env i now s with ⟨b, t⟩
  cases transmit_cases h with
  | noSegment => exact .note (stamped_of_ne (by simp))
  | tooMany => exact .refl s
  | failed g _ _ _ hw _ => exact hw.log.mono (hev g _)
  | sent g _ _ _ _ hw _ => exact (hw.log.mono (hev g _)).trans (.of_log_eq rfl)

theorem move (h : Move env now s t) : Outward s t := by
  cases h with
  | idle => exact .quiet rfl rfl rfl
  | pureAck seq =>
    have hp := packet_spec env seq 0 none s
    refine ⟨hp.frame.inc, .inr (.inl hp.frame.state), hp.log.mono fun e he => ?_⟩
    cases he with
    | oversize => exact stamped_of_ne (by simp)
    | write => exact stamped_packet _ _ _ _ _ _
  | armAck => exact .quiet rfl rfl rfl
  | sendNext _ => exact Outward.trans (t := s.breakNext) (.quiet rfl rfl rfl) (.transmit env _ _ _)
  | retransmit _ => exact .transmit env _ _ _
  | closedown err => exact .noted (e := .onTcpClosed err) rfl (.inl rfl) rfl (by simp)
  | exitRecovery => exact .quiet rfl rfl rfl
  | setDup n => exact .quiet rfl rfl rfl
  | enterRecovery => exact .quiet rfl rfl rfl
  | opened hst _ => exact .noted (e := .onTcpOpen) rfl (.inr (.inr ⟨hst, rfl⟩)) rfl (by simp)
  | writeable =>
    rw [notifyWriteable]
    split
    · exact .noted (e := .onTcpWriteable) rfl (.inr (.inl rfl)) rfl (by simp)
    · exact .refl s
  | readable b =>
    rw [notifyReadable]
    split
    · exact .noted (e := .onTcpReadable) rfl (.inr (.inl rfl)) rfl (by simp)
    · exact .refl s
  | emptyRetransmit _ _ =>
    exact .noted (e := .assertFailed .emptyRetransmit) rfl (.inr (.inl rfl)) rfl (by simp)
  | backOff _ => exact .quiet rfl rfl rfl
  | probed => exact .quiet rfl rfl rfl

theorem grow (h : Grow s t) : Outward s t := by
  cases h with
  | deflate _ => exact .quiet rfl rfl rfl
  | inflate => exact .quiet rfl rfl rfl
  | slowStart => exact .quiet rfl rfl rfl
  | avoid =>
    split
    · exact .noted (e := .divByZero) rfl (.inr (.inl rfl)) rfl (by simp)
    · exact .quiet rfl rfl rfl

theorem moves (h : Moves env now s t) : Outward s t :=
  h.invariant (P := Outward s) (fun _ _ hs _ hm => hs.trans (.move hm)) (.refl s)

theorem controls (h : Controls env now s t) : Outward s t :=
  h.invariant (P := Outward s) (fun _ _ hs _ hm => hs.trans (.move hm))
    (fun _ _ hs _ hg => hs.trans (.grow hg)) (.refl s)

theorem ackRun (h : AckRun env seg s t) : Outward s t := by
  cases h with
  | ignored => exact .refl s
  | valuable _ _ _ hc =>
    obtain ⟨rttvar, srtt, rto, es, hadv, hes, -⟩ := ackAdvance_spec env seg s
    refine Outward.trans ?_ (.controls hc)
    rw [hadv]
    refine ⟨rfl, .inr (.inl rfl), es, rfl, fun e he => ?_⟩
    obtain rfl | ⟨rfl, -⟩ := hes e he <;> exact stamped_of_ne (by simp)
  | duplicate _ _ hc =>
    exact Outward.trans (t := s.setWindow seg.wnd) (.quiet rfl rfl rfl) (.controls hc)

theorem queue (data : List Byte) (len : Word) (bCtrl : Bool) (s : PseudoTcp) :
    Outward s (s.queue data len bCtrl).2 := by
  obtain ⟨l, hq, hl⟩ := queue_spec data len bCtrl s
  rw [hq]
  obtain rfl | ⟨rfl, -, -⟩ := hl
  · exact .quiet rfl rfl rfl
  · exact .noted (e := .assertFailed .controlFits) rfl (.inr (.inl rfl)) rfl (by simp)

theorem control {b : Bool} (h : ControlCase seg s b t) :
    ∃ st, Outward { s with state := st } t ∧ (st = s.state ∨
      (seg.flags &&& flagCtl ≠ 0 ∧ seg.len ≠ 0) ∧
        (s.state = .listen ∧ st = .synReceived ∨ s.state = .synSent ∧ st = .established)) := by
  cases h with
  | data => exact ⟨_, .refl s, .inl rfl⟩
  | again => exact ⟨_, .refl s, .inl rfl⟩
  | accept hf hl hst => exact ⟨.synReceived, .queue _ _ _ _, .inr ⟨⟨hf, hl⟩, .inl ⟨hst, rfl⟩⟩⟩
  | connected hf hl hst =>
    exact ⟨.established, .noted (e := .onTcpOpen) rfl (.inr (.inl rfl)) rfl (by simp),
      .inr ⟨⟨hf, hl⟩, .inr ⟨hst, rfl⟩⟩⟩

end Outward

/-- What a packet changes for the other side. -/
structure Replied (seg : Segment) (s t : PseudoTcp) : Prop where
  inc : t.inc = s.inc ∨ s.TakesUp seg ∧ ∃ ignore, t.inc = s.inc.receive ignore seg
  log : LogAdds (fun e => Stamped s.inc e ∨ Stamped t.inc e) s t
  state : Onward s.state t.state ∨
    (s.TakesUp seg ∧ seg.flags &&& flagCtl ≠ 0 ∧ seg.len ≠ 0) ∧
      (t.state = .closed ∨ t.inc = s.inc.receive true seg) ∧
      (s.state = .listen ∧ Onward .synReceived t.state ∨
        s.state = .synSent ∧ Onward .established t.state)

theorem Outward.replied (h : Outward s t) : Replied seg s t :=
  ⟨.inl h.inc, h.log.mono fun _ he => .inl he, .inl h.state⟩

theorem process_replied {b : Bool} (h : ProcessRun env seg s b t) : Replied seg s t := by
  have htouch : Outward s (s.touch env) := .quiet rfl rfl rfl
  -- up to the acknowledgement only the control byte changes the state
  have hmid : ∀ bConnect u v, ControlCase seg (s.touch env) bConnect u →
      AckRun env seg (u.updateTimestamp seg) v → ∃ st, Outward { s with state := st } v ∧
        (st = s.state ∨ (seg.flags &&& flagCtl ≠ 0 ∧ seg.len ≠ 0) ∧
          (s.state = .listen ∧ st = .synReceived ∨ s.state = .synSent ∧ st = .established)) := by
    intro bConnect u v hctl hack
    obtain ⟨st, hout, hst⟩ := Outward.control hctl
    obtain ⟨ts, hts⟩ := updateTimestamp_frame seg u
    have hu : Outward u (u.updateTimestamp seg) := by
      rw [hts]
      exact .quiet rfl rfl rfl
    have h₀ : Outward { s with state := st } { s.touch env with state := st } := .quiet rfl rfl rfl
    exact ⟨st, ((h₀.trans hout).trans hu).trans (.ackRun hack), hst⟩
  cases h with
  | wrongConv _ => exact (Outward.refl s).replied
  | touched _ => exact htouch.replied
  | reset _ _ _ =>
    have hm : Move env env.now (s.touch env) ((s.touch env).closedown .econnreset) := .closedown _
    exact (htouch.trans (.move hm)).replied
  | failed bConnect u _ htake hctl hack hcl =>
    obtain ⟨st, hv, -⟩ := hmid bConnect u _ hctl hack
    have hlog : LogAdds (Stamped s.inc) s t := hv.log
    exact ⟨.inl hv.inc, hlog.mono fun _ he => .inl he, .inl (.inl hcl)⟩
  | done bConnect u v _ htake hctl hack _ hm =>
    obtain ⟨st, hv, hst⟩ := hmid bConnect u v hctl hack
    have hvinc : v.inc = s.inc := hv.inc
    have hvlog : LogAdds (Stamped s.inc) s v := hv.log
    have hvst : Onward st v.state := hv.state
    obtain ⟨es, hd, hev⟩ := processData_spec seg v
    obtain ⟨i, hi⟩ : ∃ i, i = v.inc.receive (seg.flags &&& flagCtl ≠ 0 ∨ v.shutdown ≠ .none) seg :=
      ⟨_, rfl⟩
    rw [← hi] at hd
    have hwinc : (v.processData seg).2.2.inc = i := by rw [hd]
    have hwst : (v.processData seg).2.2.state = v.state := by rw [hd]
    have hwlog : LogAdds (Stamped s.inc) v (v.processData seg).2.2 := by
      exact ⟨es, by rw [hd], fun e he => stamped_of_store (hev e he).1⟩
    generalize (v.processData seg).2.2 = w at hm hwinc hwst hwlog
    have hmv := Outward.moves hm
    have hinc : t.inc = s.inc.receive (seg.flags &&& flagCtl ≠ 0 ∨ v.shutdown ≠ .none) seg := by
      rw [hmv.inc, hwinc, hi, hvinc]
    have hstate : Onward st t.state := hvst.trans (hwst ▸ hmv.state)
    refine ⟨.inr ⟨htake, _, hinc⟩, ((hvlog.trans hwlog).mono fun _ he => .inl he).trans
      (hmv.log.mono fun e he => .inr ?_), ?_⟩
    · rw [hmv.inc]
      exact he
    · obtain rfl | ⟨⟨hctl', hlen⟩, hcase⟩ := hst
      · exact .inl hstate
      · refine .inr ⟨⟨htake, hctl', hlen⟩, .inr ?_, ?_⟩
        · rw [hinc, decide_eq_true (.inl hctl')]
        · obtain ⟨hs, rfl⟩ | ⟨hs, rfl⟩ := hcase
          · exact .inl ⟨hs, hstate⟩
          · exact .inr ⟨hs, hstate⟩

/-! ### Calls -/

/-- The window is the only field that is changed.  Its value is kept apart, since the fields of
the two objects are compared only when it is not computed. -/
theorem windowOpened_eq (s : PseudoTcp) :
    ∃ w, w = s.inc.getReceiveBufferSpace ∧
      s.windowOpened = { s with inc := { s.inc with rcvWnd := w } } :=
  ⟨_, rfl, rfl⟩

/-- The end of a segment with data that a call takes up. -/
def TakenStop (s : PseudoTcp) (op : Op) (n : ℕ) : Prop :=
  ∃ buffer seg, op = .notifyPacket buffer ∧ parseSegment buffer = some seg ∧ s.TakesUp seg ∧
    seg.len ≠ 0 ∧ n = seg.stop

/-- What a call changes for the other side. -/
structure Answers (op : Op) (s t : PseudoTcp) : Prop where
  receives : Incoming.Receives (s.TakenStop op) s.inc t.inc
  log : ∀ e ∈ t.log, Stamped s.inc e ∨ Stamped t.inc e
  closed : s.state = .closed → t.state = .closed

/-- A segment with data that a call takes up ends inside the window. -/
def StopsInside (s : PseudoTcp) (op : Op) : Prop :=
  ∀ n, s.TakenStop op n → n < 2 ^ 32 ∧ n ≤ s.inc.rcvNxt.toNat + s.inc.rcvWnd.toNat

theorem Onward.closed {st : TcpState} (h : Onward .closed st) : st = .closed := by
  obtain h | h | ⟨h, -⟩ := h
  · exact h
  · exact h
  · exact absurd h (by decide)

theorem Outward.answers (h : Outward s t) (hs : s.log = []) : Answers op s t where
  receives := h.inc ▸ .refl _
  log e he := by
    obtain he | he := h.log.mem he
    · rw [hs] at he
      exact absurd he (by simp)
    · exact .inl he
  closed hc := (hc ▸ h.state).closed

theorem answers_quiet (hinc : t.inc = s.inc) (hst : t.state = s.state) (hlog : t.log = [])
    (hs : s.log = []) : Answers op s t :=
  (Outward.quiet hinc hst (hlog.trans hs.symm)).answers hs

theorem step_answers (env : Env) (hb : BufferSafe s) (hin : StopsInside s op) :
    Answers op s (step env op s).2 := by
  set s₀ : PseudoTcp := { s with log := [] } with hs₀
  have hlog : s₀.log = [] := rfl
  suffices h : Answers op s₀ (step env op s).2 from ⟨h.receives, h.log, h.closed⟩
  have hcall := step_call env op s
  rw [← hs₀] at hcall
  generalize (step env op s).1 = r at hcall
  generalize (step env op s).2 = t at hcall ⊢
  have hw : s₀.inc.Windowed := hb.windowed
  have hbd : s₀.inc.Bounded := hb.bounded
  cases hcall with
  | connectAgain _ => exact answers_quiet rfl rfl rfl rfl
  | connect _ hl hm =>
    have h₁ := (Outward.queue [ctlConnect] 1 true { s₀ with state := .synSent }).trans (.moves hm)
    have h₂ : Answers .connect { s₀ with state := .synSent } t := h₁.answers rfl
    refine ⟨?_, h₂.log, fun hc => absurd (hl.symm.trans hc) (by decide)⟩
    rw [h₁.inc]
    exact .refl s₀.inc
  | sendNot _ _ => exact answers_quiet rfl rfl rfl rfl
  | sendFull _ _ _ => exact answers_quiet rfl rfl rfl rfl
  | send _ _ _ hm => exact ((Outward.queue _ _ _ s₀).trans (.moves hm)).answers rfl
  | recvNot _ _ => exact answers_quiet rfl rfl rfl rfl
  | recvEmpty _ _ _ => exact answers_quiet rfl rfl rfl rfl
  | recv len l _ hst _ hl ht =>
    have hl₀ : l = [] := by
      obtain hl | ⟨-, hno⟩ := hl
      · exact hl
      · exact absurd (BitVec.le_def.mpr hbd.rpos_le) hno
    subst hl₀
    obtain rfl | hm := ht
    · exact ⟨(Incoming.Receives.refl s₀.inc).congr rfl (le_refl _) rfl, by simp [taken],
        fun hc => absurd (hst.symm.trans hc) (by decide)⟩
    · -- the window is opened to the free space, which it was part of
      have hn := readLen_le len s₀
      have hopen := (hw.taken hbd hn).wnd_le
      obtain ⟨w, hwnd, hopened⟩ := windowOpened_eq
        ({ s₀ with log := [] }.taken (s₀.readLen len))
      change _ ≤ (s₀.taken (s₀.readLen len)).inc.getReceiveBufferSpace.toNat at hopen
      rw [hopened] at hm
      have hout := Outward.moves hm
      refine ⟨?_, fun e he => ?_, fun hc => absurd (hst.symm.trans hc) (by decide)⟩
      · rw [hout.inc]
        exact (Incoming.Receives.refl s₀.inc).congr rfl (hwnd ▸ hopen) rfl
      · obtain he | he := hout.log.mem he
        · exact absurd he (by simp [taken])
        · rw [hout.inc]
          exact .inr he
  | close _ => exact answers_quiet rfl rfl rfl rfl
  | setOption opt _ => cases opt <;> exact answers_quiet rfl rfl rfl rfl
  | notifyMTU mtu =>
    rw [PseudoTcp.notifyMTU]
    dsimp only
    split <;> exact answers_quiet rfl rfl rfl rfl
  | notifyClock _ _ hm => exact (Outward.moves hm).answers rfl
  | badLength _ _ => exact answers_quiet rfl rfl rfl rfl
  | shortHeader _ _ =>
    have hnote : Outward s₀ (s₀.note .readPastEnd) :=
      .noted (e := .readPastEnd) rfl (.inr (.inl rfl)) rfl (by simp)
    exact hnote.answers rfl
  | packet buffer seg b _ _ hp hrun =>
    obtain ⟨hinc, hl, hst⟩ := process_replied hrun
    refine ⟨?_, fun e he => ?_, fun hc => ?_⟩
    · obtain hinc | ⟨htake, ignore, hinc⟩ := hinc
      · rw [hinc]
        exact .refl _
      · have hr := Incoming.Receives.receive ignore hw hbd fun hne =>
          hin seg.stop ⟨buffer, seg, rfl, hp, htake, hne, rfl⟩
        rw [hinc]
        exact ⟨hr.next_le, hr.edge_le, hr.next.imp_right (.imp_right fun hn =>
          ⟨buffer, seg, rfl, hp, htake, hn⟩), fun r hr' => (hr.saved r hr').imp_right fun hn =>
          ⟨buffer, seg, rfl, hp, htake, hn⟩⟩
    · obtain he | he := hl.mem he
      · exact absurd he (by simp [hs₀])
      · exact he
    · obtain hst | ⟨⟨htake, -⟩, -⟩ := hst
      · exact (hc ▸ hst).closed
      · exact absurd hc htake.2.1

/-- How a call changes the state of the connection. -/
inductive StateStep (s t : PseudoTcp) : Op → Prop
  | onward (op : Op) : Onward s.state t.state → StateStep s t op
  | connect : s.state = .listen → Onward .synSent t.state → StateStep s t .connect
  | control (buffer : List Byte) (seg : Segment) : parseSegment buffer = some seg →
      s.TakesUp seg → seg.flags &&& flagCtl ≠ 0 → seg.len ≠ 0 →
      (t.state = .closed ∨ t.inc = s.inc.receive true seg) →
      (s.state = .listen ∧ Onward .synReceived t.state ∨
        s.state = .synSent ∧ Onward .established t.state) → StateStep s t (.notifyPacket buffer)

theorem step_state (env : Env) (op : Op) (s : PseudoTcp) : StateStep s (step env op s).2 op := by
  have hcall := step_call env op s
  generalize (step env op s).1 = r at hcall
  generalize (step env op s).2 = t at hcall ⊢
  cases hcall with
  | connect _ hl hm => exact .connect hl ((Outward.queue _ _ _ _).trans (.moves hm)).state
  | send _ _ _ hm => exact .onward _ ((Outward.queue _ _ _ _).trans (.moves hm)).state
  | recv len l _ hst _ hl ht =>
    obtain rfl | hm := ht
    · exact .onward _ (.inr (.inl rfl))
    · obtain ⟨w, -, hopened⟩ := windowOpened_eq
        ({ ({ s with log := [] } : PseudoTcp) with log := l }.taken
          (({ s with log := [] } : PseudoTcp).readLen len))
      rw [hopened] at hm
      exact .onward _ (Outward.moves hm).state
  | notifyMTU mtu =>
    refine .onward _ (.inr (.inl ?_))
    rw [PseudoTcp.notifyMTU]
    dsimp only
    split <;> rfl
  | notifyClock _ _ hm => exact .onward _ (Outward.moves hm).state
  | packet buffer seg b _ _ hp hrun =>
    obtain ⟨-, -, hst⟩ := process_replied hrun
    obtain hst | ⟨⟨htake, hctl, hlen⟩, hinc, hst⟩ := hst
    · exact .onward _ hst
    · exact .control buffer seg hp htake hctl hlen hinc hst
  | setOption opt _ => cases opt <;> exact .onward _ (.inr (.inl rfl))
  | _ => exact .onward _ (.inr (.inl rfl))

/-- The end that does not call `Connect`: it leaves `listen` with the control byte. -/
structure Passive (s : PseudoTcp) : Prop where
  state : s.state ≠ .synSent
  next : s.state = .listen ∨ s.state = .closed ∨ s.inc.rcvNxt ≠ 0

theorem step_passive (env : Env) (h : Passive s) (hb : BufferSafe s) (hin : StopsInside s op)
    (hop : op ≠ .connect)
    (hctl : ∀ buffer seg, op = .notifyPacket buffer → parseSegment buffer = some seg →
      s.TakesUp seg → seg.flags &&& flagCtl ≠ 0 → seg.len ≠ 0 → seg.seq = 0 ∧ seg.len = 1) :
    Passive (step env op s).2 := by
  have hans := step_answers env hb hin
  have hstate := step_state env op s
  generalize (step env op s).2 = t at hans hstate ⊢
  have hnext : s.inc.rcvNxt ≠ 0 → t.inc.rcvNxt ≠ 0 := by
    intro h0 hz
    have := hans.receives.next_le
    rw [hz] at this
    exact h0 (by bv_omega)
  cases hstate with
  | onward _ hst =>
    refine ⟨fun hs => ?_, ?_⟩
    · obtain hst | hst | ⟨-, hst⟩ := hst
      · exact absurd (hst.symm.trans hs) (by decide)
      · exact h.state (hst.symm.trans hs)
      · exact absurd (hst.symm.trans hs) (by decide)
    · obtain hl | hc | h0 := h.next
      · obtain hst | hst | ⟨hst, -⟩ := hst
        · exact .inr (.inl hst)
        · exact .inl (hst.trans hl)
        · exact absurd (hl.symm.trans hst) (by decide)
      · exact .inr (.inl (hans.closed hc))
      · exact .inr (.inr (hnext h0))
  | connect _ _ => exact absurd rfl hop
  | control buffer seg hp htake hf hlen hinc hst =>
    obtain ⟨-, hst⟩ | ⟨hs, -⟩ := hst
    · obtain ⟨hseq, hone⟩ := hctl buffer seg rfl hp htake hf hlen
      refine ⟨fun hs => ?_, .inr (hinc.imp_right fun hinc => ?_)⟩
      · obtain hst | hst | ⟨-, hst⟩ := hst <;> exact absurd (hst.symm.trans hs) (by decide)
      · rw [hinc]
        exact Incoming.receive_control_next hb.windowed hb.bounded hseq hone
          (hin _ ⟨buffer, seg, rfl, hp, htake, hlen, rfl⟩).2
    · exact absurd hs h.state

/-! ### The sender through a call -/

section Sending

variable {stream : ℕ → Byte} {queued : ℕ} {peer : Endpoint} {hist : List (List Byte)}
  {st st' : TcpState} {sent : List Byte}

theorem queued_le (st : TcpState) (sent : List Byte) : st.queued sent ≤ 1 + sent.length := by
  rw [TcpState.queued]
  split
  · exact Nat.zero_le _
  · exact le_refl _

theorem queued_of_ne (h : st ≠ .listen) : st.queued sent = 1 + sent.length := if_neg h

theorem Onward.listen (h : Onward st .listen) : st = .listen := by
  obtain h | h | ⟨-, h⟩ := h
  · exact absurd h (by decide)
  · exact h.symm
  · exact absurd h (by decide)

theorem Onward.queued_eq (h : Onward st st') (ho : st' ≠ .closed) :
    st'.queued sent = st.queued sent := by
  obtain rfl | rfl | ⟨rfl, rfl⟩ := h
  · exact absurd rfl ho
  · rfl
  · rfl

theorem Onward.queued_le (h : Onward st st') : st.queued sent ≤ st'.queued sent := by
  by_cases hc : st' = .closed
  · rw [hc, queued_of_ne (show TcpState.closed ≠ .listen by decide)]
    exact PseudoTcp.queued_le st sent
  · rw [h.queued_eq hc]

namespace Sender

theorem onward (st : TcpState) (h : Sender stream (st.queued sent) peer hist t)
    (hon : Onward st t.state) :
    Sender stream (t.state.queued sent) peer hist t :=
  ⟨h.queue, h.sends.evolve (fun ho => hon.queued_eq ho ▸ h.sends.holds ho)
    (h.sends.next_le.trans hon.queued_le) h.sends.opened h.sends.una_le h.sends.window
    h.sends.next_edge (le_refl _) (fun ho => ⟨ho, fun _ hn => hn⟩) id fun _ hb => .inl hb⟩

theorem cleared (h : Sender stream queued peer hist s) :
    Sender stream queued peer hist { s with log := [] } :=
  ⟨⟨by simp, fun ho => (h.queue.2 ho).congr_out rfl (fun hl => hl) rfl rfl⟩,
    h.sends.quiet rfl rfl (by simp)⟩

theorem opening (st : TcpState) (h : Sender stream (s.state.queued []) peer hist s)
    (hst : s.state = .listen)
    (hspell : stream 0 = ctlConnect) (hne : st ≠ .listen) (hop : st ≠ .established) :
    Sender stream 1 peer hist ({ s with state := st }.queue [ctlConnect] 1 true).2 := by
  have ho : s.state ≠ .closed := by
    rw [hst]
    decide
  have hq : s.state.queued [] = 0 := if_pos hst
  rw [hq] at h
  have hslen : s.out.slen = 0 := by
    have := (h.sends.holds ho).stop
    bv_omega
  have hfit : s.out.fit 1 = 1 := by
    rw [Outgoing.fit, hslen]
    decide
  have hone : (s.out.fit 1).toNat = 1 := by
    rw [hfit]
    rfl
  have hctl := h.queue_ [ctlConnect] 1 true st ho hne
    (fun he => absurd he hop) (by rw [hone]; decide) (fun j hj => ?_)
    (fun _ => ⟨hst, rfl, rfl⟩) (by simp)
  · rw [hone] at hctl
    exact hctl
  · rw [hone] at hj
    obtain rfl : j = 0 := by omega
    rw [hspell]
    rfl

theorem control {b : Bool} (h : Sender stream (s.state.queued sent) peer hist s)
    (ho : s.state ≠ .closed) (hlisten : s.state = .listen → sent = [])
    (hspell : stream 0 = ctlConnect)
    (hready : s.state = .synSent → seg.flags &&& flagCtl ≠ 0 → seg.len ≠ 0 → peer.Ready)
    (hc : ControlCase seg s b t) : Sender stream (t.state.queued sent) peer hist t := by
  cases hc with
  | data => exact h
  | again => exact h
  | accept _ _ hst =>
    obtain rfl := hlisten hst
    have hopen := h.opening .synReceived hst hspell (by decide) (by decide)
    obtain ⟨l, hq, -⟩ := queue_spec [ctlConnect] 1 true { s with state := .synReceived }
    rw [hq] at hopen ⊢
    exact hopen
  | connected hf hl hst =>
    have hr := hready hst hf hl
    have hqueued : s.state.queued sent = 1 + sent.length := queued_of_ne (by rw [hst]; decide)
    rw [hqueued] at h
    refine ⟨h.queue.opened ho, h.sends.evolve (fun _ => h.sends.holds ho) h.sends.next_le
      (fun _ => hr) h.sends.una_le h.sends.window h.sends.next_edge (le_refl _)
      (fun _ => ⟨ho, fun _ hn => hn⟩) (fun hli => absurd hli (by simp)) fun b hb => .inl ?_⟩
    obtain hb | hb := List.mem_append.1 (show _ ∈ s.log ++ [.onTcpOpen] from hb)
    · exact hb
    · exact absurd (List.mem_singleton.1 hb) (by simp)

theorem process {b : Bool} (h : Sender stream (s.state.queued sent) peer hist s)
    (hlisten : s.state = .listen → sent = []) (hspell : stream 0 = ctlConnect)
    (hlt : 1 + sent.length < 2 ^ 32) (hpeer : peer.Acknowledges seg)
    (hready : s.state = .synSent → seg.flags &&& flagCtl ≠ 0 → seg.len ≠ 0 → peer.Ready)
    (hrun : ProcessRun env seg s b t) : Sender stream (t.state.queued sent) peer hist t := by
  have htouch : Sender stream ((s.touch env).state.queued sent) peer hist (s.touch env) :=
    h.quiet (.of_log_eq rfl) rfl rfl rfl rfl fun _ hb => hb
  have hall : ∀ st : TcpState, st.queued sent < 2 ^ 32 :=
    fun st => lt_of_le_of_lt (queued_le st sent) hlt
  have hmid : ∀ bConnect u v, s.state ≠ .closed → ControlCase seg (s.touch env) bConnect u →
      AckRun env seg (u.updateTimestamp seg) v →
      Sender stream (v.state.queued sent) peer hist v := by
    intro bConnect u v ho hctl hack
    have hu := htouch.control ho hlisten hspell hready hctl
    have huo := hctl.open ho
    obtain ⟨ts, hts⟩ := updateTimestamp_frame seg u
    rw [hts] at hack
    have hu' : Sender stream (u.state.queued sent) peer hist
        { u with tm := { u.tm with tsRecent := ts } } :=
      hu.quiet (.of_log_eq rfl) rfl rfl rfl rfl fun _ hb => hb
    exact (hu'.ackRun (hall _) huo hpeer hack).onward _ (Outward.ackRun hack).state
  cases hrun with
  | wrongConv _ => exact h
  | touched _ => exact htouch
  | reset _ ho _ =>
    have hm : Move env env.now (s.touch env) ((s.touch env).closedown .econnreset) := .closedown _
    exact Sender.onward _ (htouch.moves (hall _) (.single ho hm)) (.inl rfl)
  | failed bConnect u _ htake hctl hack _ => exact hmid bConnect u _ htake.2.1 hctl hack
  | done bConnect u v _ htake hctl hack _ hm =>
    have hv := (hmid bConnect u v htake.2.1 hctl hack).processData seg
    have hst : (v.processData seg).2.2.state = v.state := by
      obtain ⟨es, hd, -⟩ := processData_spec seg v
      rw [hd]
    rw [← hst] at hv
    exact (hv.moves (hall _) hm).onward _ (Outward.moves hm).state

end Sender

theorem step_sender (env : Env) (h : Sender stream (s.state.queued sent) peer hist s)
    (hlisten : s.state = .listen → sent = [])
    (hspell : Spells stream (sent ++ accepted op (step env op s).1))
    (hlt : 1 + (sent ++ accepted op (step env op s).1).length < 2 ^ 32)
    (hpacket : ∀ buffer seg, op = .notifyPacket buffer → parseSegment buffer = some seg →
      peer.Acknowledges seg ∧
        (s.state = .synSent → seg.flags &&& flagCtl ≠ 0 → seg.len ≠ 0 → peer.Ready)) :
    Sender stream ((step env op s).2.state.queued (sent ++ accepted op (step env op s).1)) peer hist
      (step env op s).2 := by
  set s₀ : PseudoTcp := { s with log := [] } with hs₀
  have h₀ : Sender stream (s₀.state.queued sent) peer hist s₀ := h.cleared
  have hlog : s₀.log = [] := rfl
  have hlisten₀ : s₀.state = .listen → sent = [] := hlisten
  have hcall := step_call env op s
  rw [← hs₀] at hcall
  generalize (step env op s).1 = r at hcall hspell hlt ⊢
  generalize (step env op s).2 = t at hcall ⊢
  rw [List.length_append] at hlt
  have hall : ∀ st : TcpState, st.queued sent < 2 ^ 32 :=
    fun st => lt_of_le_of_lt (queued_le st sent) (by omega)
  -- only `Send` takes bytes from the user
  have hnone : ∀ {u : PseudoTcp}, Sender stream (u.state.queued sent) peer hist u →
      Sender stream (u.state.queued (sent ++ [])) peer hist u := by
    intro u hu
    rw [List.append_nil]
    exact hu
  have hquiet : ∀ {u : PseudoTcp}, u.out = s₀.out → u.state = s₀.state →
      u.cc.recover = s₀.cc.recover → u.tm.rtoBase = s₀.tm.rtoBase → u.log = s₀.log →
      Sender stream (u.state.queued (sent ++ [])) peer hist u := by
    intro u hout hst hrec hrto hl
    refine hnone ?_
    rw [hst]
    exact h₀.quiet (.of_log_eq hl) hout hst hrec hrto fun b hb => hl ▸ hb
  cases hcall with
  | connectAgain _ => exact hquiet rfl rfl rfl rfl rfl
  | connect _ hl hm =>
    obtain rfl := hlisten₀ hl
    have hopen := h₀.opening .synSent hl hspell.1 (by decide) (by decide)
    exact hnone (Sender.onward .synSent (hopen.moves (by decide) hm)
      (Outward.trans (.queue _ _ _ { s₀ with state := .synSent }) (.moves hm)).state)
  | sendNot _ _ => exact hquiet rfl rfl rfl rfl rfl
  | sendFull _ _ _ => exact hquiet rfl rfl rfl rfl rfl
  | send data _ hst hm =>
    have hqueued : ∀ l : List Byte, TcpState.queued .established l = 1 + l.length :=
      fun l => queued_of_ne (by decide)
    rw [hst, hqueued] at h₀
    have hfit : (s₀.out.fit (BitVec.ofNat 32 data.length)).toNat ≤ data.length := by
      have hle : (s₀.out.fit (BitVec.ofNat 32 data.length)).toNat
          ≤ (BitVec.ofNat 32 data.length).toNat := by
        rw [Outgoing.fit]
        split <;> bv_omega
      rw [BitVec.toNat_ofNat] at hle
      exact hle.trans (Nat.mod_le _ _)
    rw [accepted_send] at hlt hspell ⊢
    rw [List.length_take, Nat.min_eq_left hfit] at hlt
    have hsend := h₀.queue_ data (BitVec.ofNat 32 data.length) false s₀.state
      (by rw [hst]; decide) (by rw [hst]; decide) h₀.sends.opened (by omega)
      (fun j hj => ?_) (by simp) fun _ => ⟨Nat.le_add_right 1 _, h₀.sends.opened hst⟩
    · refine Sender.onward .established ?_
        (hst ▸ ((Outward.queue _ _ _ s₀).trans (.moves hm)).state)
      rw [hqueued, List.length_append, List.length_take, Nat.min_eq_left hfit, ← Nat.add_assoc]
      exact hsend.moves (by omega) hm
    · have hat := hspell.2 (sent.length + j) (by
        rw [List.length_append, List.length_take]
        omega)
      rw [List.getElem_append_right (Nat.le_add_right _ _)] at hat
      rw [List.getElem?_eq_getElem (by omega), Nat.add_assoc, hat]
      simp
  | recvNot _ _ => exact hquiet rfl rfl rfl rfl rfl
  | recvEmpty _ _ _ => exact hquiet rfl rfl rfl rfl rfl
  | recv len l _ hst hne hl ht =>
    have htaken : ∀ u : PseudoTcp, u.out = s₀.out → u.state = s₀.state →
        u.cc.recover = s₀.cc.recover → u.tm.rtoBase = s₀.tm.rtoBase → u.log = l →
        Sender stream (u.state.queued sent) peer hist u := by
      intro u hout hstu hrec hrto hlu
      have hadd : LogAdds (QueueEvent True) s₀ u := by
        obtain rfl | ⟨rfl, -⟩ := hl
        · exact .of_log_eq hlu
        · refine ⟨[.assertFailed .readPosition], hlu, fun e he => ?_⟩
          rw [List.mem_singleton.1 he]
          trivial
      rw [hstu]
      refine h₀.quiet hadd hout hstu hrec hrto fun b hb => ?_
      rw [hlu] at hb
      obtain rfl | ⟨rfl, -⟩ := hl
      · exact hb
      · simpa using hb
    refine hnone ?_
    obtain rfl | hm := ht
    · exact htaken _ rfl rfl rfl rfl rfl
    · obtain ⟨w, -, hopened⟩ := windowOpened_eq ({ s₀ with log := l }.taken (s₀.readLen len))
      rw [hopened] at hm
      refine ((htaken _ ?_ ?_ ?_ ?_ ?_).moves (hall _) hm).onward _ (Outward.moves hm).state
      all_goals rfl
  | close force => exact hquiet rfl rfl rfl rfl rfl
  | setOption opt _ => cases opt <;> exact hquiet rfl rfl rfl rfl rfl
  | notifyMTU mtu =>
    rw [PseudoTcp.notifyMTU]
    dsimp only
    split <;> exact hquiet rfl rfl rfl rfl rfl
  | notifyClock _ _ hm => exact hnone ((h₀.moves (hall _) hm).onward _ (Outward.moves hm).state)
  | badLength _ _ => exact hquiet rfl rfl rfl rfl rfl
  | shortHeader _ _ =>
    exact hnone (h₀.quiet (.note trivial) rfl rfl rfl rfl fun b hb => by simp [hs₀] at hb)
  | packet buffer seg b _ _ hp hrun =>
    obtain ⟨hpeer, hready⟩ := hpacket buffer seg rfl hp
    exact hnone (h₀.process hlisten₀ hspell.1 (by omega) hpeer hready hrun)

theorem step_listen (env : Env) (op : Op) (hlisten : s.state = .listen → sent = [])
    (hl : (step env op s).2.state = .listen) : sent ++ accepted op (step env op s).1 = [] := by
  have hstate := step_state env op s
  have hcall := step_call env op s
  generalize (step env op s).1 = r at hcall ⊢
  generalize (step env op s).2 = t at hcall hstate hl
  have hs : s.state = .listen := by
    cases hstate with
    | onward _ hon => exact (hl ▸ hon).listen
    | connect _ hon => exact absurd (hl ▸ hon).listen (by decide)
    | control _ _ _ _ _ _ _ hst =>
      obtain ⟨-, hon⟩ | ⟨-, hon⟩ := hst
      · exact absurd (hl ▸ hon).listen (by decide)
      · exact absurd (hl ▸ hon).listen (by decide)
  rw [hlisten hs]
  cases hcall with
  | send _ _ hst _ => exact absurd (hs.symm.trans hst) (by decide)
  | _ => rfl

end Sending

end PseudoTcp

/-! ### Two endpoints -/

namespace Endpoint

/-- A new object. -/
def Fresh (x : Endpoint) : Prop := IsInit x.tcp ∧ x.sent = [] ∧ x.recvd = [] ∧ x.wire = []

/-- A new object with cleared buffers. -/
def fresh (now conv : Word) : Endpoint where
  tcp := .fresh now conv
  sent := []
  recvd := []
  wire := []

theorem Fresh.fresh (now conv : Word) : (fresh now conv).Fresh :=
  ⟨⟨_, _, now, conv, rfl⟩, rfl, rfl, rfl⟩

/-- The packets that `TcpWritePacket` has taken. -/
def written (log : List Event) : List (List Byte) :=
  log.filterMap fun
    | .tcpWritePacket b .success => some b
    | _ => none

/-- One call. -/
def act (env : Env) (op : Op) (x : Endpoint) : Endpoint where
  tcp := (step env op x.tcp).2
  sent := x.sent ++ accepted op (step env op x.tcp).1
  recvd := x.recvd ++ copied op (step env op x.tcp).1
  wire := x.wire ++ written (step env op x.tcp).2.log

/-- The calls that may be made at the other end: a packet is delivered there after it was sent,
once, many times or never. -/
def Allows (x : Endpoint) : Op → Prop
  | .notifyMTU mtu => packetOverhead.toNat < mtu.toNat
  | .notifyPacket buffer => buffer ∈ x.wire
  | _ => True

theorem mem_written {log : List Event} {b : List Byte} :
    b ∈ written log ↔ .tcpWritePacket b .success ∈ log := by
  rw [written, List.mem_filterMap]
  constructor
  · rintro ⟨e, he, hb⟩
    split at hb
    · obtain rfl := Option.some.inj hb
      exact he
    · exact absurd hb (by simp)
  · exact fun h => ⟨_, h, rfl⟩

end Endpoint

/-- The two ends of a connection.  Only `a` calls `Connect`. -/
structure TcpPair where
  a : Endpoint
  b : Endpoint

namespace TcpPair

/-- Two new objects of one conversation. -/
def Init (w : TcpPair) : Prop := w.a.Fresh ∧ w.b.Fresh ∧ w.a.tcp.conv = w.b.tcp.conv

/-- One end acts. -/
inductive Next : TcpPair → TcpPair → Prop
  | active (w : TcpPair) (env : Env) (op : Op) : w.b.Allows op →
      Next w { w with a := w.a.act env op }
  | passive (w : TcpPair) (env : Env) (op : Op) : w.a.Allows op → op ≠ .connect →
      Next w { w with b := w.b.act env op }

/-- What any interleaving leads to. -/
def Reachable : TcpPair → Prop := Reach Init Next

end TcpPair

namespace PseudoTcp

/-! ### One direction -/

/-- `x` sends the stream, and `y` has a beginning of it. -/
structure Half (stream : ℕ → Byte) (x y : Endpoint) : Prop where
  sender : Sender stream (x.tcp.state.queued x.sent) y x.wire x.tcp
  listen : x.tcp.state = .listen → x.sent = []
  buffer : BufferSafe y.tcp
  follows : StreamSafe stream y.recvd.length y.tcp
  received : NextBytes stream 0 y.recvd
  acks : ∀ b ∈ y.wire, ∀ seg, parseSegment b = some seg → y.Acknowledges seg

namespace Half

variable {stream : ℕ → Byte} {x y : Endpoint} {buffer : List Byte} {seg : Segment} {op : Op}
  {n : ℕ}

theorem fresh (hx : x.Fresh) (hy : y.Fresh) : Half stream x y := by
  obtain ⟨hxi, hxs, -, hxw⟩ := hx
  obtain ⟨hyi, -, hyr, hyw⟩ := hy
  have hends : ∀ n, y.Ends n → n = 0 := by
    obtain ⟨rbuf, sbuf, now, conv, hy⟩ := hyi
    rintro n (hn | ⟨r, hr, -⟩ | ⟨b, hb, -⟩)
    · rw [hn, hy]
      rfl
    · rw [hy] at hr
      exact absurd hr List.not_mem_nil
    · rw [hyw] at hb
      exact absurd hb List.not_mem_nil
  have hedge : y.edge = kRcvBufSize.toNat := by
    obtain ⟨rbuf, sbuf, now, conv, hy⟩ := hyi
    rw [Endpoint.edge, hy]
    exact Nat.zero_add _
  have hq : QueueSafe True False x.tcp := init_queueSafe hxi
  refine ⟨⟨hq, ?_⟩, fun _ => hxs, init_bufferSafe hyi, by rw [hyr]; exact init_streamSafe hyi,
    by rw [hyr]; exact fun k hk => absurd hk (by simp), fun b hb => ?_⟩
  · obtain ⟨rbuf, sbuf, now, conv, hx⟩ := hxi
    rw [hx, hxw]
    refine ⟨fun _ => ⟨rfl, fun k hk => absurd hk (by simp [init]), ?_, ?_⟩, Nat.zero_le _,
      fun ho => absurd (show TcpState.listen = .established from ho) (by decide), Nat.zero_le _, ?_,
      Nat.zero_le _, fun n hn => ?_,
      fun b hb => ?_⟩
    · exact fun g hg => absurd hg List.not_mem_nil
    · exact fun g hg => absurd hg List.not_mem_nil
    · rw [hedge, Incoming.kRcvBufSize_toNat]
      show (0 : Word).toNat + (1 : Word).toNat ≤ _
      decide
    · rw [hends n hn]
      exact ⟨Nat.zero_le _, fun _ => .inl (Nat.zero_le _)⟩
    · obtain hb | hb := hb
      · exact absurd hb List.not_mem_nil
      · exact absurd hb List.not_mem_nil
  · rw [hyw] at hb
    exact absurd hb List.not_mem_nil

theorem delivered (h : Half stream x y) (hlt : 1 + x.sent.length < 2 ^ 32) (hb : buffer ∈ x.wire)
    (hp : parseSegment buffer = some seg) (hlen : seg.len ≠ 0) :
    x.tcp.FromStream stream y.Ready seg ∧ seg.stop < 2 ^ 32 ∧ seg.stop ≤ y.edge := by
  obtain ⟨seg', hp', hseg⟩ := h.sender.sends.wire buffer (.inl hb)
  obtain rfl := Option.some.inj (hp.symm.trans hp')
  have hfrom := hseg hlen
  have hstop : seg.stop ≤ 1 + x.sent.length :=
    (hfrom.stop_le.trans h.sender.sends.next_le).trans (queued_le x.tcp.state x.sent)
  exact ⟨hfrom, lt_of_le_of_lt hstop hlt, hfrom.stop_le.trans h.sender.sends.next_edge⟩

theorem taken_stop (h : Half stream x y) (hlt : 1 + x.sent.length < 2 ^ 32) (hop : x.Allows op)
    (hn : y.tcp.TakenStop op n) :
    ∃ seg, x.tcp.FromStream stream y.Ready seg ∧ n = seg.stop ∧ seg.stop < 2 ^ 32 ∧
      seg.stop ≤ y.edge := by
  obtain ⟨buffer, seg, rfl, hp, -, hlen, rfl⟩ := hn
  obtain ⟨h₁, h₂, h₃⟩ := h.delivered hlt hop hp hlen
  exact ⟨seg, h₁, rfl, h₂, h₃⟩

theorem stopsInside (h : Half stream x y) (hlt : 1 + x.sent.length < 2 ^ 32) (hop : x.Allows op) :
    StopsInside y.tcp op := by
  intro n hn
  obtain ⟨seg, -, rfl, h₂, h₃⟩ := h.taken_stop hlt hop hn
  exact ⟨h₂, h₃⟩

theorem receiver (h : Half stream x y) (hlt : 1 + x.sent.length < 2 ^ 32) (env : Env)
    (hop : x.Allows op) : Half stream x (y.act env op) := by
  have hans := step_answers env h.buffer (h.stopsInside hlt hop)
  have hbuf : BufferSafe (step env op y.tcp).2 := step_bufferSafe h.buffer
      fun buffer seg he _ hp _ hlen => by
    subst he
    obtain ⟨-, h₂, h₃⟩ := h.delivered hlt hop hp hlen
    exact ⟨h₂, .inl h₃⟩
  obtain ⟨hfollows, hbytes⟩ : StreamSafe stream
      (y.recvd.length + (copied op (step env op y.tcp).1).length) (step env op y.tcp).2 ∧
      NextBytes stream y.recvd.length (copied op (step env op y.tcp).1) :=
    step_streamSafe env h.follows
      fun buffer seg he _ hp htake hlen => by
    subst he
    obtain ⟨hfrom, h₂, -⟩ := h.delivered hlt hop hp hlen
    refine ⟨_, hfrom.cut, h₂, fun hctl => (hfrom.data hctl).resolve_right htake.2.1⟩
  set y' : Endpoint := y.act env op with hy'
  have hinc : y'.tcp.inc = (step env op y.tcp).2.inc := rfl
  have hnext : y.tcp.inc.rcvNxt.toNat ≤ y'.tcp.inc.rcvNxt.toNat := hans.receives.next_le
  have hedge : y.edge ≤ y'.edge := hans.receives.edge_le
  have hready : y.Ready → y'.Ready := by
    rintro (h0 | hc)
    · refine .inl fun hz => h0 ?_
      rw [hz] at hnext
      bv_omega
    · exact .inr (hans.closed hc)
  -- the new packets acknowledge what was received before the call or is received by it
  have hwire : ∀ b ∈ y'.wire, b ∈ y.wire ∨ ∃ seg, parseSegment b = some seg ∧
      (seg.ack = y.tcp.inc.rcvNxt ∧ seg.wnd = y.tcp.inc.rcvWnd.setWidth 16 ∨
        seg.ack = y'.tcp.inc.rcvNxt ∧ seg.wnd = y'.tcp.inc.rcvWnd.setWidth 16) := by
    intro b hb
    obtain hb | hb := List.mem_append.1 hb
    · exact .inl hb
    · right
      obtain hst | hst := hans.log _ (Endpoint.mem_written.1 hb)
      · obtain ⟨seg, hp, hstamp⟩ := hst b _ rfl
        exact ⟨seg, hp, .inl hstamp⟩
      · obtain ⟨seg, hp, hstamp⟩ := hst b _ rfl
        exact ⟨seg, hp, .inr hstamp⟩
  have hnew : y'.Ends y'.tcp.inc.rcvNxt.toNat := .inl rfl
  -- where something ends now, it ended before or a segment of the stream ends
  have hsender := h.sender.sends
  have hends : ∀ n, y'.Ends n →
      n ≤ x.tcp.out.sndNxt.toNat ∧ (x.tcp.state ≠ .closed → x.tcp.out.IsCut n) := by
    have htaken : ∀ n, y.tcp.TakenStop op n →
        n ≤ x.tcp.out.sndNxt.toNat ∧ (x.tcp.state ≠ .closed → x.tcp.out.IsCut n) := by
      intro n hn
      obtain ⟨seg, hfrom, rfl, -⟩ := h.taken_stop hlt hop hn
      exact ⟨hfrom.stop_le, hfrom.isCut⟩
    have hrcv : y'.tcp.inc.rcvNxt.toNat ≤ x.tcp.out.sndNxt.toNat ∧
        (x.tcp.state ≠ .closed → x.tcp.out.IsCut y'.tcp.inc.rcvNxt.toNat) := by
      obtain he | ⟨r, hr, he⟩ | he := hans.receives.next
      · rw [hinc, he]
        exact hsender.ends _ (.inl rfl)
      · exact hsender.ends _ (.inr (.inl ⟨r, hr, he⟩))
      · exact htaken _ he
    rintro n (rfl | ⟨r, hr, rfl⟩ | ⟨b, hb, seg, hp, rfl⟩)
    · exact hrcv
    · obtain hr | hr := hans.receives.saved r hr
      · exact hsender.ends _ (.inr (.inl ⟨r, hr, rfl⟩))
      · exact htaken _ hr
    · obtain hb | ⟨seg', hp', hack⟩ := hwire b hb
      · exact hsender.ends _ (.inr (.inr ⟨b, hb, seg, hp, rfl⟩))
      · obtain rfl := Option.some.inj (hp'.symm.trans hp)
        obtain ⟨hack, -⟩ | ⟨hack, -⟩ := hack
        · rw [hack]
          exact hsender.ends _ (.inl rfl)
        · rw [hack]
          exact hrcv
  refine ⟨⟨h.sender.queue, ?_⟩, h.listen, hbuf, ?_, ?_, fun b hb seg hp => ?_⟩
  · refine ⟨fun ho => ?_, hsender.next_le, fun ho => hready (hsender.opened ho),
      hsender.una_le.trans hnext, hsender.window.trans hedge, hsender.next_edge.trans hedge, hends,
      fun b hb => ?_⟩
    · obtain ⟨h₁, h₂, h₃, h₄⟩ := hsender.holds ho
      exact ⟨h₁, h₂, h₃, fun g hg hb => (h₄ g hg hb).imp_right hready⟩
    · obtain ⟨seg, hp, hseg⟩ := hsender.wire b hb
      refine ⟨seg, hp, fun hlen => ?_⟩
      obtain ⟨h₁, h₂, h₃, h₄, h₅⟩ := hseg hlen
      exact ⟨h₁, h₂, h₃, fun hctl => hready (h₄ hctl), h₅⟩
  · rw [hy', Endpoint.act, List.length_append]
    exact hfollows
  · intro k hk
    change k < (y.recvd ++ copied op (step env op y.tcp).1).length at hk
    change (y.recvd ++ copied op (step env op y.tcp).1)[k] = _
    rw [List.getElem_append]
    split
    · exact h.received k _
    · rw [hbytes]
      congr 1
      omega
  · have hwnd : ∀ w : Word, (w.setWidth 16).toNat ≤ w.toNat := fun w => by
      rw [BitVec.toNat_setWidth]
      exact Nat.mod_le _ _
    obtain hold | ⟨seg', hp', hack⟩ := hwire b hb
    · obtain ⟨h₁, h₂, -⟩ := h.acks b hold seg hp
      exact ⟨h₁.trans hnext, h₂.trans hedge, .inr (.inr ⟨b, hb, seg, hp, rfl⟩)⟩
    · obtain rfl := Option.some.inj (hp'.symm.trans hp)
      obtain ⟨hack, hw⟩ | ⟨hack, hw⟩ := hack
      · refine ⟨hack ▸ hnext, ?_, .inr (.inr ⟨b, hb, _, hp, rfl⟩)⟩
        rw [hack, hw]
        exact (Nat.add_le_add_left (hwnd _) _).trans hedge
      · refine ⟨hack ▸ le_refl _, ?_, .inr (.inr ⟨b, hb, _, hp, rfl⟩)⟩
        rw [hack, hw]
        exact Nat.add_le_add_left (hwnd _) _

theorem acts (h : Half stream x y) (env : Env) (hop : y.Allows op)
    (hlt : 1 + (x.act env op).sent.length < 2 ^ 32) (hspell : Spells stream (x.act env op).sent)
    (hready : ∀ buffer ∈ y.wire, ∀ seg, parseSegment buffer = some seg → x.tcp.state = .synSent →
      seg.flags &&& flagCtl ≠ 0 → seg.len ≠ 0 → y.Ready) : Half stream (x.act env op) y := by
  have hsender := step_sender env h.sender h.listen hspell hlt fun buffer seg he hp => by
    subst he
    exact ⟨h.acks buffer hop seg hp, hready buffer hop seg hp⟩
  refine ⟨⟨hsender.queue, ?_⟩, step_listen env op h.listen, h.buffer, h.follows, h.received, h.acks⟩
  obtain ⟨h₁, h₂, h₃, h₄, h₅, h₆, h₇, h₈⟩ := hsender.sends
  refine ⟨h₁, h₂, h₃, h₄, h₅, h₆, h₇, fun b hb => h₈ b ?_⟩
  obtain hb | hb := hb
  · exact (List.mem_append.1 hb).imp_right Endpoint.mem_written.1
  · exact .inr hb

theorem between (h : Half stream x y) :
    x.tcp.out.sndUna.toNat ≤ y.tcp.inc.rcvNxt.toNat ∧
      y.tcp.inc.rcvNxt.toNat ≤ x.tcp.out.sndNxt.toNat :=
  ⟨h.sender.sends.una_le, (h.sender.sends.ends _ (.inl rfl)).1⟩

theorem recvd_length_le (h : Half stream x y) : y.recvd.length ≤ x.sent.length := by
  have hnext := h.between.2
  have hle := h.sender.sends.next_le.trans (queued_le x.tcp.state x.sent)
  by_cases h0 : y.tcp.inc.rcvNxt = 0
  · rw [(h.follows.follows.fresh h0).2.2.2]
    exact Nat.zero_le _
  · obtain ⟨base, ha, hpos⟩ := h.follows.follows.started h0
    have h₁ := ha.next_le
    have h₂ := h.follows.bounded.rpos_le
    omega

theorem begins (h : Half stream x y) (hspell : Spells stream x.sent) :
    y.recvd <+: x.sent := by
  have hlen := h.recvd_length_le
  rw [List.prefix_iff_eq_take]
  refine List.ext_getElem (by rw [List.length_take, Nat.min_eq_left hlen]) fun k hk _ => ?_
  rw [List.getElem_take, h.received k hk, hspell.2 k (hk.trans_le hlen)]

end Half

end PseudoTcp

/-! ### Both directions -/

namespace TcpPair

open PseudoTcp

/-- The invariant of a connection. -/
structure Inv (w : TcpPair) : Prop where
  forth : ∀ stream, Spells stream w.a.sent → Half stream w.a w.b
  back : ∀ stream, Spells stream w.b.sent → Half stream w.b w.a
  passive : Passive w.b.tcp

variable {w w' : TcpPair}

theorem Inv.init (h : w.Init) : w.Inv where
  forth _ _ := .fresh h.1 h.2.1
  back _ _ := .fresh h.2.1 h.1
  passive := by
    obtain ⟨rbuf, sbuf, now, conv, hb⟩ := h.2.1.1
    have hst : w.b.tcp.state = .listen := by rw [hb]; rfl
    exact ⟨by rw [hst]; decide, .inl hst⟩

theorem Inv.ready (h : w.Inv) (hb : 1 + w.b.sent.length < 2 ^ 32) {buffer : List Byte}
    {seg : Segment} (hmem : buffer ∈ w.b.wire) (hp : parseSegment buffer = some seg)
    (hlen : seg.len ≠ 0) : w.b.Ready := by
  obtain ⟨hfrom, -⟩ := (h.back _ (spells_spelled _)).delivered hb hmem hp hlen
  obtain hl | hc | h0 := h.passive.next
  · exact absurd hl hfrom.started
  · exact .inr hc
  · exact .inl h0

theorem Inv.next (h : w.Inv) (hn : w.Next w') (ha : 1 + w'.a.sent.length < 2 ^ 32)
    (hb : 1 + w'.b.sent.length < 2 ^ 32) : w'.Inv := by
  cases hn with
  | active env op hop =>
    refine ⟨fun stream hs => ?_, fun stream hs => (h.back stream hs).receiver hb env hop, h.passive⟩
    exact (h.forth stream (Spells.start hs)).acts env hop ha hs fun buffer hmem seg hp _ _ hlen =>
      h.ready hb hmem hp hlen
  | passive env op hop hne =>
    have hforth := h.forth _ (spells_spelled _)
    refine ⟨fun stream hs => (h.forth stream hs).receiver ha env hop, fun stream hs => ?_, ?_⟩
    · exact (h.back stream (Spells.start hs)).acts env hop hb hs fun _ _ _ _ hst _ _ =>
        absurd hst h.passive.state
    · refine step_passive env h.passive hforth.buffer (hforth.stopsInside ha hop) hne
        fun buffer seg he hp _ hctl hlen => ?_
      subst he
      obtain ⟨hfrom, -⟩ := hforth.delivered ha hop hp hlen
      obtain ⟨h0, hone⟩ := hfrom.cut.2.2.1 hctl
      exact ⟨BitVec.eq_of_toNat_eq h0, hone⟩

theorem Next.length_le (h : w.Next w') :
    w.a.sent.length ≤ w'.a.sent.length ∧ w.b.sent.length ≤ w'.b.sent.length := by
  cases h with
  | active env op _ => exact ⟨by simp [Endpoint.act], le_refl _⟩
  | passive env op _ _ => exact ⟨le_refl _, by simp [Endpoint.act]⟩

theorem reachable_inv (h : w.Reachable) (ha : 1 + w.a.sent.length < 2 ^ 32)
    (hb : 1 + w.b.sent.length < 2 ^ 32) : w.Inv := by
  refine Reach.invariant (I := fun w => 1 + w.a.sent.length < 2 ^ 32 →
    1 + w.b.sent.length < 2 ^ 32 → w.Inv) (fun w hw _ _ => .init hw) (fun w w' _ hw hn ha hb => ?_)
    w h ha hb
  obtain ⟨hla, hlb⟩ := hn.length_le
  exact (hw (by omega) (by omega)).next hn ha hb

/-- **Stream safety from end to end.**  In every run what one user has received is a beginning
of what the other one has sent, and what was acknowledged was received in order, as long as both
ends have queued fewer than `2 ^ 32` bytes with the control byte. -/
theorem endToEnd (h : w.Reachable) (ha : 1 + w.a.sent.length < 2 ^ 32)
    (hb : 1 + w.b.sent.length < 2 ^ 32) :
    (w.b.recvd <+: w.a.sent ∧ w.a.tcp.out.sndUna ≤ w.b.tcp.inc.rcvNxt ∧
      w.b.tcp.inc.rcvNxt ≤ w.a.tcp.out.sndNxt) ∧
    (w.a.recvd <+: w.b.sent ∧ w.b.tcp.out.sndUna ≤ w.a.tcp.inc.rcvNxt ∧
      w.a.tcp.inc.rcvNxt ≤ w.b.tcp.out.sndNxt) := by
  have hinv := reachable_inv h ha hb
  have hforth := hinv.forth _ (spells_spelled _)
  have hback := hinv.back _ (spells_spelled _)
  exact ⟨⟨hforth.begins (spells_spelled _), hforth.between⟩,
    ⟨hback.begins (spells_spelled _), hback.between⟩⟩

/-- What a packet of `x` carries, when `y` has what it has now. -/
structure Carries (x y : Endpoint) (seg : Segment) : Prop where
  cut : seg.len ≠ 0 → CutAt (spelled x.sent) seg.seq.toNat seg
  inside : seg.len ≠ 0 → seg.stop ≤ y.edge
  ack_le : seg.ack.toNat ≤ x.tcp.inc.rcvNxt.toNat
  window : seg.ack.toNat + seg.wnd.toNat ≤ x.edge

/-- **Every packet that was ever sent**, in every run: whenever it arrives, its data is cut from
the stream of its sender and fits the window of the receiver, and it acknowledges and offers no
more than its sender has received and has room for. -/
theorem wire_sound (h : w.Reachable) (ha : 1 + w.a.sent.length < 2 ^ 32)
    (hb : 1 + w.b.sent.length < 2 ^ 32) :
    (∀ buffer ∈ w.a.wire, ∃ seg, parseSegment buffer = some seg ∧ Carries w.a w.b seg) ∧
    ∀ buffer ∈ w.b.wire, ∃ seg, parseSegment buffer = some seg ∧ Carries w.b w.a seg := by
  have hinv := reachable_inv h ha hb
  have hforth := hinv.forth _ (spells_spelled _)
  have hback := hinv.back _ (spells_spelled _)
  constructor <;> intro buffer hmem
  · obtain ⟨seg, hp, -⟩ := hforth.sender.sends.wire buffer (.inl hmem)
    have hack := hback.acks buffer hmem seg hp
    exact ⟨seg, hp, fun hlen => (hforth.delivered ha hmem hp hlen).1.cut,
      fun hlen => (hforth.delivered ha hmem hp hlen).2.2, hack.le, hack.window⟩
  · obtain ⟨seg, hp, -⟩ := hback.sender.sends.wire buffer (.inl hmem)
    have hack := hforth.acks buffer hmem seg hp
    exact ⟨seg, hp, fun hlen => (hback.delivered hb hmem hp hlen).1.cut,
      fun hlen => (hback.delivered hb hmem hp hlen).2.2, hack.le, hack.window⟩

/-- **The handshake**, in every run: an end is established only after the other one has received
its control byte or was closed, and the passive end does not go on without one. -/
theorem handshake (h : w.Reachable) (ha : 1 + w.a.sent.length < 2 ^ 32)
    (hb : 1 + w.b.sent.length < 2 ^ 32) :
    (w.a.tcp.state = .established → w.b.Ready) ∧ (w.b.tcp.state = .established → w.a.Ready) ∧
      (w.b.tcp.state ≠ .listen → w.b.Ready) := by
  have hinv := reachable_inv h ha hb
  refine ⟨(hinv.forth _ (spells_spelled _)).sender.sends.opened,
    (hinv.back _ (spells_spelled _)).sender.sends.opened, fun hne => ?_⟩
  exact (hinv.passive.next.resolve_left hne).symm

/-! ### Two bytes -/

/-- The control byte of the active end, and the answer to it. -/
def connectPacket : List Byte := header 7 0 0 flagCtl 61440 1 0 ++ [ctlConnect]
def acceptPacket : List Byte := header 7 0 1 flagCtl 61440 1 1 ++ [ctlConnect]

/-- The data of the active end. -/
def dataPacket : List Byte := header 7 1 1 0 61440 1 1 ++ [10, 20]

/-- The active end connects and sends two bytes. -/
def connecting : Endpoint := (Endpoint.fresh 1 7).act (.steady 1) .connect
def connected : Endpoint := connecting.act (.steady 1) (.notifyPacket acceptPacket)
def sending : Endpoint := connected.act (.steady 1) (.send [10, 20])

/-- The passive end receives them. -/
def accepting : Endpoint := (Endpoint.fresh 1 7).act (.steady 1) (.notifyPacket connectPacket)
def storing : Endpoint := accepting.act (.steady 1) (.notifyPacket dataPacket)
def receiving : Endpoint := storing.act (.steady 1) (.recv 10)

theorem reachable_receiving : Reachable { a := sending, b := receiving } := by
  have h₀ : Reachable { a := .fresh 1 7, b := .fresh 1 7 } :=
    Reach.init ⟨Endpoint.Fresh.fresh 1 7, Endpoint.Fresh.fresh 1 7, rfl⟩
  have h₁ : Reachable { a := connecting, b := .fresh 1 7 } :=
    Reach.step h₀ (.active _ _ _ trivial)
  have h₂ : Reachable { a := connecting, b := accepting } :=
    Reach.step h₁ (.passive _ _ _ (show connectPacket ∈ connecting.wire by decide +kernel)
      (by decide))
  have h₃ : Reachable { a := connected, b := accepting } :=
    Reach.step h₂ (.active _ _ _ (show acceptPacket ∈ accepting.wire by decide +kernel))
  have h₄ : Reachable { a := sending, b := accepting } := Reach.step h₃ (.active _ _ _ trivial)
  have h₅ : Reachable { a := sending, b := storing } :=
    Reach.step h₄ (.passive _ _ _ (show dataPacket ∈ sending.wire by decide +kernel) (by decide))
  exact Reach.step h₅ (.passive _ _ _ trivial (by decide))

theorem endToEnd_two_bytes : receiving.recvd = [10, 20] ∧ receiving.recvd <+: sending.sent ∧
    receiving.tcp.inc.rcvNxt ≤ sending.tcp.out.sndNxt := by
  obtain ⟨⟨hrecvd, -, hnext⟩, -⟩ :=
    endToEnd reachable_receiving (by decide +kernel) (by decide +kernel)
  exact ⟨by decide +kernel, hrecvd, hnext⟩

theorem handshake_two_bytes : sending.tcp.state = .established ∧ receiving.Ready := by
  have hst : sending.tcp.state = .established := by decide +kernel
  exact ⟨hst, (handshake reachable_receiving (by decide +kernel) (by decide +kernel)).1 hst⟩

theorem wire_sound_two_bytes : dataPacket ∈ sending.wire ∧
    ∃ seg, parseSegment dataPacket = some seg ∧ Carries sending receiving seg := by
  have hmem : dataPacket ∈ sending.wire := by decide +kernel
  exact ⟨hmem, (wire_sound reachable_receiving (by decide +kernel) (by decide +kernel)).1 _ hmem⟩

end TcpPair

end Jingle
