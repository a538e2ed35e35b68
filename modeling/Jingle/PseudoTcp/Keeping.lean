/-
The invariant rule of segment sizes and timeouts.

`m_mss`, `m_cwnd`, `m_ssthresh` and `m_rx_rto` are written in few places.  A property of
them that these places keep (`Keeps`) is kept by every call: **`Keeps.step`** is proved
once from what a call does, and the properties of the congestion variables and of the
timers are checked against the places only.

A call enlarges the congestion window at most once.  A property may ask for room before
(`P true`) that it does not find after it (`P false`).
-/
import Jingle.PseudoTcp.QueueInv

namespace Jingle

namespace PseudoTcp

variable {P : Bool → PseudoTcp → Prop} {b : Bool} {env : Env} {now : Word} {seg : Segment}
  {s t u : PseudoTcp}

/-- Every event but a division by zero and a packet that is too long. -/
def Plain : Event → Prop
  | .divByZero => False
  | .assertFailed .packetSize => False
  | _ => True

/-- The places that write the segment sizes and the timeout keep a property. -/
structure Keeps (P : Bool → PseudoTcp → Prop) : Prop where
  late : ∀ {s}, P true s → P false s
  frame : ∀ {b s t}, P b s → t.cc = s.cc → t.tm.rxRto = s.tm.rxRto → LogAdds Plain s t → P b t
  acked : ∀ {b s t largest}, P b s → t.cc = { s.cc with largest := largest } →
    t.tm.rxRto = s.tm.rxRto ∨ (∃ x, t.tm.rxRto = bound minRto x maxRto) →
    LogAdds Plain s t → P b t
  opened : ∀ {b s}, P b s → P b s.opened
  move : ∀ {b env now s t}, P b s → QueueInv False False s → s.state ≠ .closed →
    Move env now s t → P b t
  grow : ∀ {s t}, P true s → Grow s t → P false t

/-- The property and what is known of the send queue. -/
structure Kept₂ (P : Bool → PseudoTcp → Prop) (b : Bool) (s : PseudoTcp) : Prop where
  holds : P b s
  queue : QueueSafe False False s

namespace Keeps

theorem moves (hk : Keeps P) (h : Kept₂ P b s) (hm : Moves env now s t) : Kept₂ P b t :=
  hm.invariant (P := Kept₂ P b)
    (fun _ _ hs ho hstep => ⟨hk.move hs.holds (hs.queue.2 ho) ho hstep,
      hs.queue.move ho (fun hc => hc.elim) (fun hc => hc.elim) hstep⟩) h

theorem late₂ (hk : Keeps P) (h : Kept₂ P true s) : Kept₂ P false s :=
  ⟨hk.late h.holds, h.queue⟩

theorem controls (hk : Keeps P) (h : Kept₂ P true s) (hc : Controls env now s t) :
    Kept₂ P false t := by
  obtain ⟨u, v, h₁, rfl | ⟨-, hg⟩, h₃⟩ := hc
  · exact hk.moves (hk.late₂ (hk.moves h h₁)) h₃
  · have hu := hk.moves h h₁
    exact hk.moves ⟨hk.grow hu.holds hg, hu.queue.grow hg⟩ h₃

theorem ackRun (hk : Keeps P) (h : Kept₂ P true s) (ho : s.state ≠ .closed)
    (hr : AckRun env seg s t) : Kept₂ P false t := by
  cases hr with
  | ignored => exact hk.late₂ h
  | valuable _ h₁ h₂ hc =>
    refine hk.controls ⟨?_, h.queue.ackAdvance ho (fun hc => hc.elim) ⟨h₁, h₂⟩
      fun ha => ha.elim⟩ hc
    obtain ⟨rttvar, srtt, rto, es, hadv, hes, hrto⟩ := ackAdvance_spec env seg s
    rw [hadv]
    refine hk.acked h.holds rfl hrto ⟨es, rfl, fun e he => ?_⟩
    rcases hes e he with rfl | ⟨rfl, -⟩ <;> trivial
  | duplicate _ _ hc =>
    have hset : Kept₂ P true (s.setWindow seg.wnd) :=
      ⟨hk.frame h.holds rfl rfl (.of_log_eq rfl), h.queue.setWindow seg.wnd⟩
    exact hk.controls hset hc

theorem control (hk : Keeps P) {bConnect : Bool} (h : Kept₂ P b s) (ho : s.state ≠ .closed)
    (hc : ControlCase seg s bConnect t) : Kept₂ P b t := by
  refine ⟨?_, h.queue.control ho hc⟩
  cases hc with
  | data => exact h.holds
  | again => exact h.holds
  | accept =>
    obtain ⟨l, hq, hl⟩ := queue_spec [ctlConnect] 1 true { s with state := .synReceived }
    rw [hq]
    refine hk.frame h.holds rfl rfl ?_
    rcases hl with rfl | ⟨rfl, -⟩
    · exact .of_log_eq rfl
    · exact ⟨[_], rfl, by simp [Plain]⟩
  | connected => exact hk.opened h.holds

theorem processRun (hk : Keeps P) (h : Kept₂ P true s) (hrun : ProcessRun env seg s b t) :
    P false t := by
  have htouch : Kept₂ P true (s.touch env) :=
    ⟨hk.frame h.holds rfl rfl (.of_log_eq rfl), h.queue.quiet (.of_log_eq rfl) rfl rfl rfl rfl⟩
  have hmid : ∀ bConnect u, s.state ≠ .closed → ControlCase seg (s.touch env) bConnect u →
      Kept₂ P true (u.updateTimestamp seg) ∧ (u.updateTimestamp seg).state ≠ .closed := by
    intro bConnect u ho hc
    obtain ⟨ts, hts⟩ := updateTimestamp_frame seg u
    have hu := hk.control htouch ho hc
    rw [hts]
    exact ⟨⟨hk.frame hu.holds rfl rfl (.of_log_eq rfl),
      hu.queue.quiet (.of_log_eq rfl) rfl rfl rfl rfl⟩, hc.open ho⟩
  cases hrun with
  | wrongConv => exact hk.late h.holds
  | touched => exact hk.late htouch.holds
  | reset _ ho _ =>
    have hm : Move env env.now (s.touch env) ((s.touch env).closedown .econnreset) := .closedown _
    exact hk.late (hk.move htouch.holds (htouch.queue.2 ho) ho hm)
  | failed bConnect u _ htake hctl hack _ =>
    obtain ⟨hu, huo⟩ := hmid bConnect u htake.2.1 hctl
    exact (hk.ackRun hu huo hack).holds
  | done bConnect u v _ htake hctl hack _ hm =>
    obtain ⟨hu, huo⟩ := hmid bConnect u htake.2.1 hctl
    have hv := hk.ackRun hu huo hack
    obtain ⟨es, hd, hev⟩ := processData_spec seg v
    refine (hk.moves ⟨?_, hv.queue.processData⟩ hm).holds
    rw [hd]
    refine hk.frame hv.holds rfl rfl ⟨es, rfl, fun e he => ?_⟩
    cases (hev e he).1 <;> trivial

theorem queue (hk : Keeps P) (h : P b s) (st : TcpState) (data : List Byte) (len : Word)
    (bCtrl : Bool) : P b ({ s with state := st }.queue data len bCtrl).2 := by
  obtain ⟨l, hq, hl⟩ := queue_spec data len bCtrl { s with state := st }
  rw [hq]
  refine hk.frame h rfl rfl ?_
  rcases hl with rfl | ⟨rfl, -⟩
  · exact .of_log_eq rfl
  · exact ⟨[_], rfl, by simp [Plain]⟩

theorem step (hk : Keeps P) (h : P false { s with log := [] }) (hq : QueueSafe False False s)
    {op : Op} (hroom : ∀ buffer, op = .notifyPacket buffer → P true { s with log := [] })
    (hmtu : ∀ mtu, op = .notifyMTU mtu → P false ({ s with log := [] }.notifyMTU mtu)) :
    P false (Jingle.step env op s).2 := by
  set s₀ : PseudoTcp := { s with log := [] } with hs₀
  have hq₀ : QueueSafe False False s₀ :=
    ⟨by simp [hs₀], fun ho => (hq.2 ho).congr_out rfl (fun hl => hl) rfl rfl⟩
  have hcall := step_call env op s
  rw [← hs₀] at hcall
  generalize (Jingle.step env op s).1 = r at hcall
  generalize (Jingle.step env op s).2 = t at hcall ⊢
  cases hcall with
  | connectAgain _ => exact hk.frame h rfl rfl (.of_log_eq rfl)
  | connect _ hl hm =>
    exact (hk.moves ⟨hk.queue h .synSent [ctlConnect] 1 true,
      hq₀.queue .synSent (by rw [hl]; simp) (by simp) fun _ => ⟨hl, rfl⟩⟩ hm).holds
  | sendNot _ _ => exact hk.frame h rfl rfl (.of_log_eq rfl)
  | sendFull _ _ _ => exact hk.frame h rfl rfl (.of_log_eq rfl)
  | send data _ hst hm =>
    exact (hk.moves ⟨hk.queue h s₀.state data _ false,
      hq₀.queue s₀.state (by rw [hst]; simp) (by rw [hst]; simp) (by simp)⟩ hm).holds
  | recvNot _ _ => exact hk.frame h rfl rfl (.of_log_eq rfl)
  | recvEmpty _ _ _ => exact hk.frame h rfl rfl (.of_log_eq rfl)
  | recv len l _ hst hne hl ht =>
    have hlog : LogAdds (fun e => Plain e ∧ QueueEvent False e) s₀ { s₀ with log := l } := by
      obtain rfl | ⟨rfl, -⟩ := hl
      · exact .refl s₀
      · exact .note (e := .assertFailed .readPosition) ⟨trivial, trivial⟩
    have hread : Kept₂ P false { s₀ with log := l } :=
      ⟨hk.frame h rfl rfl (hlog.mono fun _ he => he.1),
        hq₀.quiet (hlog.mono fun _ he => he.2) rfl rfl rfl rfl⟩
    rcases ht with rfl | hm
    · exact hk.frame hread.holds rfl rfl (.of_log_eq rfl)
    · have hopened : Kept₂ P false ({ s₀ with log := l }.taken (s₀.readLen len)).windowOpened :=
        ⟨hk.frame hread.holds rfl rfl (.of_log_eq rfl),
          hread.queue.quiet (.of_log_eq rfl) rfl rfl rfl rfl⟩
      exact (hk.moves hopened hm).holds
  | close force => exact hk.frame h rfl rfl (.of_log_eq rfl)
  | setOption opt value => cases opt <;> exact hk.frame h rfl rfl (.of_log_eq rfl)
  | notifyMTU mtu => exact hmtu mtu rfl
  | notifyClock now _ hm => exact (hk.moves ⟨h, hq₀⟩ hm).holds
  | badLength _ _ => exact h
  | shortHeader _ _ => exact hk.frame h rfl rfl (.note trivial)
  | packet buffer seg b _ _ _ hrun => exact hk.processRun ⟨hroom buffer rfl, hq₀⟩ hrun

end Keeps

/-! ### The retransmission timeout -/

/-- `m_rx_rto` is in its bounds. -/
def RtoBounded (s : PseudoTcp) : Prop := 0 < s.tm.rxRto.toNat ∧ s.tm.rxRto.toNat ≤ maxRto.toNat

theorem rtoBounded_double {limit rto : Word} (hl : limit = maxRto ∨ limit = defRto)
    (h : 0 < rto.toNat ∧ rto.toNat ≤ maxRto.toNat) :
    0 < (minOf limit (rto * 2)).toNat ∧ (minOf limit (rto * 2)).toNat ≤ maxRto.toNat := by
  have hmax : maxRto.toNat = 60000 := rfl
  have hlim : limit.toNat = 60000 ∨ limit.toNat = 3000 := by
    rcases hl with rfl | rfl
    · exact .inl rfl
    · exact .inr rfl
  have hdouble : (rto * 2).toNat = rto.toNat * 2 := by
    have htwo : (2 : Word).toNat = 2 := rfl
    rw [BitVec.toNat_mul, htwo]
    exact Nat.mod_eq_of_lt (by omega)
  rw [toNat_minOf, hdouble]
  omega

theorem rtoBounded_bound (x : Word) :
    0 < (bound minRto x maxRto).toNat ∧ (bound minRto x maxRto).toNat ≤ maxRto.toNat := by
  have hmin : minRto.toNat = 250 := rfl
  have hmax : maxRto.toNat = 60000 := rfl
  rw [bound, toNat_minOf, toNat_maxOf]
  omega

theorem keeps_rtoBounded : Keeps fun _ s => s.RtoBounded where
  late h := h
  frame h _ hrto _ := by
    unfold RtoBounded
    rw [hrto]
    exact h
  acked h _ hrto _ := by
    rcases hrto with hrto | ⟨x, hrto⟩
    · unfold RtoBounded
      rw [hrto]
      exact h
    · unfold RtoBounded
      rw [hrto]
      exact rtoBounded_bound x
  opened h := h
  move {b env now s t} h _ _ hm := by
    have hframe : ∀ {t}, SendFrame s t → t.RtoBounded := by
      intro t hf
      unfold RtoBounded
      rw [hf.rxRto]
      exact h
    cases hm with
    | idle => exact h
    | pureAck seq => exact hframe (packet_spec env seq 0 none s).frame
    | armAck => exact h
    | sendNext _ => exact hframe (SendFrame.trans (t := s.breakNext) (by constructor <;> rfl)
        (transmit_frame env s.out.firstUnsent env.sendNow s.breakNext))
    | retransmit _ => exact hframe (transmit_frame env 0 now s)
    | closedown _ => exact h
    | exitRecovery => exact h
    | setDup _ => exact h
    | enterRecovery => exact h
    | opened _ _ => exact h
    | writeable =>
      rw [notifyWriteable]
      split
      · exact h
      · exact h
    | readable b =>
      rw [notifyReadable]
      split
      · exact h
      · exact h
    | emptyRetransmit _ _ => exact h
    | backOff _ =>
      refine rtoBounded_double ?_ h
      split
      · exact .inl rfl
      · exact .inr rfl
    | probed => exact rtoBounded_double (.inl rfl) h
  grow h hg := by
    cases hg with
    | deflate _ => exact h
    | inflate => exact h
    | slowStart => exact h
    | avoid =>
      split
      · exact h
      · exact h

theorem reachable_rtoBounded {ok : PseudoTcp → Env → Op → Prop} (h : Reachable ok s) :
    s.RtoBounded := by
  have key : s.RtoBounded ∧ QueueSafe False False s := by
    refine Reach.invariant (I := fun s => s.RtoBounded ∧ QueueSafe False False s)
      (fun s hs => ⟨?_, init_queueSafe hs⟩) (fun s t _ hs hn => ?_) s h
    · obtain ⟨rbuf, sbuf, now, conv, rfl⟩ := hs
      have hdef : 0 < defRto.toNat ∧ defRto.toNat ≤ maxRto.toNat := by
        decide
      exact hdef
    · obtain ⟨env, op, -, rfl⟩ := hn
      refine ⟨keeps_rtoBounded.step hs.1 hs.2 (fun _ _ => hs.1) (fun mtu _ => ?_),
        step_queueSafe hs.2 (fun hc => hc.elim) (fun hc => hc.elim)⟩
      unfold notifyMTU
      dsimp only
      split
      · exact hs.1
      · exact hs.1
  exact key.1

end PseudoTcp

end Jingle
