/-
Everything an API call does, as a sequence of small moves.

`Move env now s t` lists the state changes that the sending functions,
congestion control and the clock can make, each with the guard under which the
source makes it; `Grow` lists those that enlarge the congestion window, of
which a call makes at most one.  `attemptSend_moves`, `processAck_run`,
`process_run` and `notifyClock_moves` say once that the functions are sequences
of these, and `step_call` says what a call does in their terms.  An invariant of
the object is then checked against the moves, and the functions are not unfolded
again.
-/
import Jingle.PseudoTcp.Receiving

namespace Jingle

namespace PseudoTcp

variable {env : Env} {now : Word} {seg : Segment} {s t u : PseudoTcp}

/-! ### Moves -/

/-- The connection is opened. -/
def opened (s : PseudoTcp) : PseudoTcp :=
  ({ s with state := .established }.adjustMTU).note .onTcpOpen

/-- Fast retransmit enters recovery. -/
def enterRecovery (s : PseudoTcp) : PseudoTcp :=
  { s with cc := { s.cc with
      recover := s.out.sndNxt
      ssthresh := maxOf (s.inFlight / 2) (2 * s.cc.mss)
      cwnd := maxOf (s.inFlight / 2) (2 * s.cc.mss) + 3 * s.cc.mss } }

/-- The retransmit timer backs off after a timeout. -/
def backOff (now : Word) (s : PseudoTcp) : PseudoTcp :=
  { s with
    cc := { s.cc with ssthresh := maxOf (s.inFlight / 2) (2 * s.cc.mss), cwnd := s.cc.mss }
    tm := { s.tm with
      rxRto := minOf (if s.state = .established ∨ s.state = .closed then maxRto else defRto)
        (s.tm.rxRto * 2)
      rtoBase := now } }

/-- A window probe was sent. -/
def probed (now : Word) (s : PseudoTcp) : PseudoTcp :=
  { s with tm := { s.tm with lastsend := now, rxRto := minOf maxRto (s.tm.rxRto * 2) } }

/-- The send window is set to the one advertised by a segment. -/
def setWindow (wnd : BitVec 16) (s : PseudoTcp) : PseudoTcp :=
  { s with out := { s.out with sndWnd := wnd.setWidth 32 } }

/-- A single change of the state outside of acknowledgement and payload.  `now`
is the clock reading of the call. -/
inductive Move (env : Env) (now : Word) (s : PseudoTcp) : PseudoTcp → Prop
  | idle : Move env now s { s with cc := { s.cc with cwnd := s.cc.mss } }
  | pureAck (seq : Word) : Move env now s (packet env seq 0 none s).2
  | armAck : Move env now s { s with tm := { s.tm with tAck := env.ackNow } }
  | sendNext : s.available ≠ 0 →
      Move env now s (transmit env s.out.firstUnsent env.sendNow s.breakNext).2
  | retransmit :
      s.out.sndUna ≠ s.out.sndNxt ∨ s.out.sndUna < s.cc.recover ∨ s.tm.rtoBase ≠ 0 →
      Move env now s (transmit env 0 now s).2
  | closedown (err : Errno) : Move env now s (s.closedown err)
  | exitRecovery : Move env now s { s with cc := { s.cc with
      cwnd := minOf s.cc.ssthresh (s.inFlight + s.cc.mss), dupAcks := 0 } }
  | setDup (n : Byte) : Move env now s { s with cc := { s.cc with dupAcks := n } }
  | enterRecovery : Move env now s s.enterRecovery
  | opened : s.state = .synReceived → s.out.sndUna ≠ 0 → Move env now s s.opened
  | writeable : Move env now s s.notifyWriteable
  | readable (b : Bool) : Move env now s (s.notifyReadable b)
  | emptyRetransmit : s.tm.rtoBase ≠ 0 → s.out.slist = [] →
      Move env now s (s.note (.assertFailed .emptyRetransmit))
  | backOff : s.tm.rtoBase ≠ 0 → Move env now s (s.backOff now)
  | probed : Move env now s (s.probed now)

/-- A change that enlarges the congestion window. -/
inductive Grow (s : PseudoTcp) : PseudoTcp → Prop
  | deflate (nAcked : Word) : Grow s { s with cc := { s.cc with
      cwnd := s.cc.cwnd + (s.cc.mss - minOf nAcked s.cc.cwnd) } }
  | inflate : Grow s { s with cc := { s.cc with cwnd := s.cc.cwnd + s.cc.mss } }
  | slowStart : Grow s { s with cc := { s.cc with
      dupAcks := 0, cwnd := s.cc.cwnd + s.cc.mss } }
  | avoid : Grow s { (if s.cc.cwnd = 0 then s.note .divByZero else s) with cc := { s.cc with
      dupAcks := 0, cwnd := s.cc.cwnd + maxOf 1 (s.cc.mss * s.cc.mss / s.cc.cwnd) } }

/-- Moves of an open connection, one after the other. -/
def Moves (env : Env) (now : Word) : PseudoTcp → PseudoTcp → Prop :=
  Relation.ReflTransGen fun s t => s.state ≠ .closed ∧ Move env now s t

theorem Moves.refl (env : Env) (now : Word) (s : PseudoTcp) : Moves env now s s :=
  Relation.ReflTransGen.refl

theorem Moves.tail (h : Moves env now s t) (ho : t.state ≠ .closed) (hm : Move env now t u) :
    Moves env now s u :=
  Relation.ReflTransGen.tail h ⟨ho, hm⟩

theorem Moves.single (ho : s.state ≠ .closed) (hm : Move env now s t) : Moves env now s t :=
  (Moves.refl env now s).tail ho hm

theorem Moves.trans (h₁ : Moves env now s t) (h₂ : Moves env now t u) : Moves env now s u :=
  Relation.ReflTransGen.trans h₁ h₂

theorem Moves.invariant {P : PseudoTcp → Prop}
    (hP : ∀ s t, P s → s.state ≠ .closed → Move env now s t → P t) (h : Moves env now s t)
    (hs : P s) : P t := by
  induction h with
  | refl => exact hs
  | tail _ hm ih => exact hP _ _ ih hm.1 hm.2

/-! ### `attemptSend` -/

theorem sendAck_moves (env : Env) (now : Word) (sflags : SendFlags) (ho : s.state ≠ .closed) :
    Moves env now s (sendAck env sflags s) := by
  cases sflags with
  | none => exact .refl env now s
  | immediateAck => exact .single ho (.pureAck s.out.sndNxt)
  | delayedAck =>
    rw [sendAck]
    split
    · exact .single ho (.pureAck s.out.sndNxt)
    · exact .single ho .armAck

theorem attemptSend_moves (env : Env) (now : Word) (sflags : SendFlags)
    (ho : s.state ≠ .closed) : Moves env now s (attemptSend env sflags s) := by
  have key : Moves env now s (attemptSend env sflags s) ∧
      (attemptSend env sflags s).state ≠ .closed := by
    refine attemptSend_induct (P := fun t => Moves env now s t ∧ t.state ≠ .closed)
      ?_ ?_ ?_ sflags ⟨.refl env now s, ho⟩
    · intro t ht
      exact ⟨ht.1.tail ht.2 .idle, ht.2⟩
    · intro t f ht
      refine ⟨ht.1.trans (sendAck_moves env now f ht.2), ?_⟩
      rw [(sendAck_frame env f t).1.state]
      exact ht.2
    · intro t ht hav
      refine ⟨ht.1.tail ht.2 (.sendNext hav), ?_⟩
      rw [(transmit_frame env t.out.firstUnsent env.sendNow t.breakNext).state]
      exact ht.2
  exact key.1

/-! ### Acknowledgements -/

@[simp] theorem note_state (e : Event) (s : PseudoTcp) : (s.note e).state = s.state := rfl

@[simp] theorem note_inc (e : Event) (s : PseudoTcp) : (s.note e).inc = s.inc := rfl

theorem transmit_sndUna (env : Env) (i : ℕ) (now : Word) (s : PseudoTcp) :
    (transmit env i now s).2.out.sndUna = s.out.sndUna := by
  rcases h : transmit env i now s with ⟨b, t⟩
  cases transmit_cases h with
  | noSegment => rfl
  | tooMany => rfl
  | failed seg t _ _ hw _ => rw [hw.out]
  | sent seg n t _ _ hw _ =>
    show t.out.sndUna = _
    rw [hw.out]

/-- What congestion control does: moves, at most one growth, and moves. -/
def Controls (env : Env) (now : Word) (s t : PseudoTcp) : Prop :=
  ∃ u v, Moves env now s u ∧ (v = u ∨ u.state ≠ .closed ∧ Grow u v) ∧ Moves env now v t

theorem Moves.controls (h : Moves env now s t) : Controls env now s t :=
  ⟨t, t, h, .inl rfl, .refl env now t⟩

theorem Grow.controls (ho : s.state ≠ .closed) (h : Grow s t) : Controls env now s t :=
  ⟨s, t, .refl env now s, .inr ⟨ho, h⟩, .refl env now t⟩

theorem Controls.tail (h : Controls env now s t) (ht : Moves env now t u) :
    Controls env now s u := by
  obtain ⟨v, w, h₁, h₂, h₃⟩ := h
  exact ⟨v, w, h₁, h₂, h₃.trans ht⟩

theorem Controls.invariant {P : PseudoTcp → Prop}
    (hP : ∀ s t, P s → s.state ≠ .closed → Move env now s t → P t)
    (hG : ∀ s t, P s → s.state ≠ .closed → Grow s t → P t)
    (h : Controls env now s t) (hs : P s) : P t := by
  obtain ⟨u, v, h₁, rfl | ⟨ho, h₂⟩, h₃⟩ := h
  · exact h₃.invariant hP (h₁.invariant hP hs)
  · exact h₃.invariant hP (hG u v (h₁.invariant hP hs) ho h₂)

/-- A retransmission by `process` that closes the connection when it fails and
is followed by a further change when it does not. -/
theorem retransmit_controls {f : PseudoTcp → PseudoTcp} {b : Bool} (ho : s.state ≠ .closed)
    (hguard : s.out.sndUna ≠ s.out.sndNxt ∨ s.out.sndUna < s.cc.recover ∨ s.tm.rtoBase ≠ 0)
    (hf : ∀ t, t.state ≠ .closed → Controls env now t (f t))
    (hstate : ∀ t, (f t).state = t.state) (huna : ∀ t, (f t).out.sndUna = t.out.sndUna)
    (h : (match transmit env 0 now s with
      | (false, s) => (false, s.closedown .econnaborted)
      | (true, s) => (true, f s)) = (b, t)) :
    Controls env now s t ∧ (b = false → t.state = .closed) ∧
      (b = true → t.state = s.state ∧ t.out.sndUna = s.out.sndUna) := by
  have hfr := transmit_frame env 0 now s
  have hmove : Moves env now s (transmit env 0 now s).2 := .single ho (.retransmit hguard)
  have hu := transmit_sndUna env 0 now s
  split at h
  · rename_i v heq
    rw [heq] at hfr hmove hu
    obtain ⟨rfl, rfl⟩ := Prod.mk.inj h
    have hv : v.state ≠ .closed := by
      rw [hfr.state]
      exact ho
    exact ⟨(hmove.tail hv (.closedown .econnaborted)).controls, fun _ => rfl, by simp⟩
  · rename_i v heq
    rw [heq] at hfr hmove hu
    obtain ⟨rfl, rfl⟩ := Prod.mk.inj h
    have hv : v.state ≠ .closed := by
      rw [hfr.state]
      exact ho
    obtain ⟨x, y, h₁, h₂, h₃⟩ := hf v hv
    refine ⟨⟨x, y, hmove.trans h₁, h₂, h₃⟩, by simp, fun _ => ⟨?_, ?_⟩⟩
    · rw [hstate, hfr.state]
    · rw [huna, hu]

theorem ackCongestion_controls {nAcked : Word} {b : Bool} (ho : s.state ≠ .closed)
    (h : ackCongestion env nAcked s = (b, t)) :
    Controls env env.now s t ∧ (b = false → t.state = .closed) ∧
      (b = true → t.state = s.state ∧ t.out.sndUna = s.out.sndUna) := by
  rw [ackCongestion] at h
  split at h
  · split at h
    · obtain ⟨rfl, rfl⟩ := Prod.mk.inj h
      exact ⟨(Moves.single ho .exitRecovery).controls, by simp, fun _ => ⟨rfl, rfl⟩⟩
    · rename_i hrec
      exact retransmit_controls (f := fun t => { t with cc := { t.cc with
        cwnd := t.cc.cwnd + (t.cc.mss - minOf nAcked t.cc.cwnd) } }) ho
        (.inr (.inl (BitVec.not_le.mp hrec)))
        (fun t ht => Grow.controls ht (.deflate nAcked)) (fun _ => rfl)
        (fun _ => rfl) h
  · split at h
    · obtain ⟨rfl, rfl⟩ := Prod.mk.inj h
      exact ⟨Grow.controls ho .slowStart, by simp, fun _ => ⟨rfl, rfl⟩⟩
    · have hcc : ∀ u : PseudoTcp, (if u.cc.cwnd = 0 then u.note .divByZero else u).cc = u.cc := by
        intro u
        split <;> rfl
      obtain ⟨rfl, rfl⟩ := Prod.mk.inj h
      refine ⟨Grow.controls ho ?_, by simp, fun _ => ?_⟩
      · rw [hcc s]
        exact .avoid
      · split <;> exact ⟨rfl, rfl⟩

theorem duplicateAck_controls {b : Bool} (ho : s.state ≠ .closed)
    (h : duplicateAck env seg s = (b, t)) :
    Controls env env.now (s.setWindow seg.wnd) t ∧ (b = false → t.state = .closed) ∧
      (b = true → t.state = s.state) := by
  have ho' : (s.setWindow seg.wnd).state ≠ .closed := ho
  rw [duplicateAck] at h
  change (if _ then (true, s.setWindow seg.wnd) else _) = _ at h
  split at h
  · obtain ⟨rfl, rfl⟩ := Prod.mk.inj h
    exact ⟨(Moves.refl _ _ _).controls, by simp, fun _ => rfl⟩
  · split at h
    · rename_i hne
      have hdup : Moves env env.now (s.setWindow seg.wnd) { s.setWindow seg.wnd with
          cc := { s.cc with dupAcks := s.cc.dupAcks + 1 } } := .single ho' (.setDup _)
      dsimp only at h
      split at h
      · obtain ⟨⟨x, y, h₁, h₂, h₃⟩, hcl, hop⟩ := retransmit_controls (f := enterRecovery)
          (s := { s.setWindow seg.wnd with cc := { s.cc with dupAcks := s.cc.dupAcks + 1 } })
          ho' (.inl hne)
          (fun t ht => (Moves.single ht .enterRecovery).controls) (fun _ => rfl)
          (fun _ => rfl) h
        exact ⟨⟨x, y, hdup.trans h₁, h₂, h₃⟩, hcl, fun hb => (hop hb).1⟩
      · split at h
        · obtain ⟨rfl, rfl⟩ := Prod.mk.inj h
          exact ⟨⟨_, _, hdup, .inr ⟨ho', .inflate⟩, .refl _ _ _⟩, by simp, fun _ => rfl⟩
        · obtain ⟨rfl, rfl⟩ := Prod.mk.inj h
          exact ⟨hdup.controls, by simp, fun _ => rfl⟩
    · obtain ⟨rfl, rfl⟩ := Prod.mk.inj h
      exact ⟨(Moves.single ho' (.setDup 0)).controls, by simp, fun _ => rfl⟩

/-- The processing of an acknowledgement. -/
inductive AckRun (env : Env) (seg : Segment) (s : PseudoTcp) : PseudoTcp → Prop
  | ignored : AckRun env seg s s
  | valuable (t : PseudoTcp) : s.out.sndUna < seg.ack → seg.ack ≤ s.out.sndNxt →
      Controls env env.now (s.ackAdvance env seg) t → AckRun env seg s t
  | duplicate (t : PseudoTcp) : seg.ack = s.out.sndUna →
      Controls env env.now (s.setWindow seg.wnd) t → AckRun env seg s t

theorem updateRtt_spec (env : Env) (tsecr : Word) (s : PseudoTcp) :
    ∃ rttvar srtt rto es, s.updateRtt env tsecr
        = { s with
            tm := { s.tm with rxRttvar := rttvar, rxSrtt := srtt, rxRto := rto }
            log := s.log ++ es } ∧
      (∀ e ∈ es, e = .assertFailed .negativeRtt) ∧
      (rto = s.tm.rxRto ∨ ∃ x, rto = bound minRto x maxRto) := by
  rw [updateRtt]
  split
  · exact ⟨s.tm.rxRttvar, s.tm.rxSrtt, s.tm.rxRto, [], by simp, by simp, .inl rfl⟩
  · dsimp only
    split
    · exact ⟨(s.tm.measure (timeDiff env.now tsecr)).rxRttvar,
        (s.tm.measure (timeDiff env.now tsecr)).rxSrtt,
        (s.tm.measure (timeDiff env.now tsecr)).rxRto, [], by rw [List.append_nil]; rfl, by simp,
        .inr ⟨_, rfl⟩⟩
    · exact ⟨s.tm.rxRttvar, s.tm.rxSrtt, s.tm.rxRto, [_], rfl, by simp, .inl rfl⟩

theorem ackAdvance_spec (env : Env) (seg : Segment) (s : PseudoTcp) :
    ∃ rttvar srtt rto es, s.ackAdvance env seg
        = { s with
            out := s.out.acknowledge seg.ack seg.wnd s.cc.largest
            cc := { s.cc with
              largest := (freeAcked (seg.ack - s.out.sndUna) s.cc.largest s.out.slist).2.1 }
            tm := { s.tm with
              rxRttvar := rttvar, rxSrtt := srtt, rxRto := rto
              rtoBase := if seg.ack = s.out.sndNxt then 0 else env.now }
            log := s.log ++ es } ∧
      (∀ e ∈ es, e = .assertFailed .negativeRtt ∨ e = .assertFailed .ackedInList ∧
        (freeAcked (seg.ack - s.out.sndUna) s.cc.largest s.out.slist).2.2 = false) ∧
      (rto = s.tm.rxRto ∨ ∃ x, rto = bound minRto x maxRto) := by
  obtain ⟨rttvar, srtt, rto, es, hu, hes, hrto⟩ := updateRtt_spec env seg.tsecr s
  rw [ackAdvance, hu]
  dsimp only
  rcases assert_cases (freeAcked (seg.ack - s.out.sndUna) s.cc.largest s.out.slist).2.2
    .ackedInList _ with ⟨h, -⟩ | ⟨h, hp⟩
  · rw [h]
    exact ⟨rttvar, srtt, rto, es, rfl, fun e he => .inl (hes e he), hrto⟩
  · rw [h]
    refine ⟨rttvar, srtt, rto, es ++ [.assertFailed .ackedInList], by simp [note],
      fun e he => ?_, hrto⟩
    rcases List.mem_append.mp he with he | he
    · exact .inl (hes e he)
    · exact .inr ⟨List.mem_singleton.mp he, hp⟩

theorem openOnAck_moves (env : Env) (now : Word) (bConnect : Bool) (ho : s.state ≠ .closed) (hu : s.out.sndUna ≠ 0) :
    Moves env now s (s.openOnAck bConnect).notifyWriteable ∧
      (s.openOnAck bConnect).notifyWriteable.state ≠ .closed := by
  have hw : ∀ u : PseudoTcp, u.notifyWriteable.state = u.state := by
    intro u
    rw [notifyWriteable]
    split <;> rfl
  rw [openOnAck]
  split
  · rename_i h
    have hop : Moves env now s s.opened := .single ho (.opened h.1 hu)
    exact ⟨hop.tail (by simp [opened, adjustMTU]) .writeable, by rw [hw]; simp [adjustMTU]⟩
  · exact ⟨.single ho .writeable, by rwa [hw]⟩

theorem processAck_run {bConnect b : Bool} (ho : s.state ≠ .closed)
    (h : processAck env bConnect seg s = (b, t)) :
    AckRun env seg s t ∧ (b = true ↔ t.state ≠ .closed) := by
  rw [processAck] at h
  split at h
  · rename_i ha
    obtain ⟨rttvar, srtt, rto, es, hadv, -, -⟩ := ackAdvance_spec env seg s
    have ho' : (s.ackAdvance env seg).state ≠ .closed := by
      rw [hadv]
      exact ho
    split at h
    · rename_i u heq
      obtain ⟨rfl, rfl⟩ := Prod.mk.inj h
      obtain ⟨hc, hcl, -⟩ := ackCongestion_controls ho' heq
      exact ⟨.valuable u ha.1 ha.2 hc, by simp [hcl rfl]⟩
    · rename_i u heq
      obtain ⟨rfl, rfl⟩ := Prod.mk.inj h
      obtain ⟨hc, -, hop⟩ := ackCongestion_controls ho' heq
      obtain ⟨hst, huna⟩ := hop rfl
      have hu0 : u.out.sndUna ≠ 0 := by
        rw [huna, hadv]
        show seg.ack ≠ 0
        have := ha.1
        bv_omega
      obtain ⟨hm, hcl⟩ := openOnAck_moves env env.now bConnect
        (by rw [hst]; exact ho') hu0
      exact ⟨.valuable _ ha.1 ha.2 (hc.tail hm), by simp [hcl]⟩
  · split at h
    · rename_i ha
      obtain ⟨hc, hcl, hop⟩ := duplicateAck_controls ho h
      refine ⟨.duplicate t ha hc, ?_⟩
      cases b with
      | false => simp [hcl rfl]
      | true => simp [hop rfl, ho]
    · obtain ⟨rfl, rfl⟩ := Prod.mk.inj h
      exact ⟨.ignored, by simp [ho]⟩

/-! ### `process` -/

/-- The possible outcomes of the control byte. -/
inductive ControlCase (seg : Segment) (s : PseudoTcp) : Bool → PseudoTcp → Prop
  | data : seg.flags &&& flagCtl = 0 → ControlCase seg s false s
  | again : seg.flags &&& flagCtl ≠ 0 → seg.len ≠ 0 → s.state ≠ .listen →
      s.state ≠ .synSent → ControlCase seg s true s
  | accept : seg.flags &&& flagCtl ≠ 0 → seg.len ≠ 0 → s.state = .listen →
      ControlCase seg s true ({ s with state := .synReceived }.queue [ctlConnect] 1 true).2
  | connected : seg.flags &&& flagCtl ≠ 0 → seg.len ≠ 0 → s.state = .synSent →
      ControlCase seg s true s.opened

theorem processControl_cases {bConnect : Bool} (h : s.processControl seg = some (bConnect, t)) :
    ControlCase seg s bConnect t ∧
      (seg.flags &&& flagCtl ≠ 0 → seg.len ≠ 0 ∧ seg.data.getD 0 0 = ctlConnect) := by
  rw [processControl] at h
  split at h
  · rename_i hf
    obtain ⟨rfl, rfl⟩ := Prod.mk.inj (Option.some.inj h)
    exact ⟨.data hf, fun hne => absurd hf hne⟩
  · rename_i hf
    split at h
    · exact absurd h (by simp)
    · rename_i hl
      split at h
      · rename_i hd
        split at h
        · rename_i hst
          obtain ⟨rfl, rfl⟩ := Prod.mk.inj (Option.some.inj h)
          exact ⟨.accept hf hl hst, fun _ => ⟨hl, hd⟩⟩
        · rename_i hst
          split at h
          · rename_i hst'
            obtain ⟨rfl, rfl⟩ := Prod.mk.inj (Option.some.inj h)
            exact ⟨.connected hf hl hst', fun _ => ⟨hl, hd⟩⟩
          · rename_i hst'
            obtain ⟨rfl, rfl⟩ := Prod.mk.inj (Option.some.inj h)
            exact ⟨.again hf hl hst hst', fun _ => ⟨hl, hd⟩⟩
      · exact absurd h (by simp)

@[simp] theorem opened_state (s : PseudoTcp) : s.opened.state = .established := rfl

theorem ControlCase.open {bConnect : Bool} (h : ControlCase seg s bConnect t)
    (ho : s.state ≠ .closed) : t.state ≠ .closed := by
  cases h with
  | data => exact ho
  | again => exact ho
  | accept =>
    obtain ⟨l, hq, -⟩ := queue_spec [ctlConnect] 1 true { s with state := .synReceived }
    rw [hq]
    simp
  | connected => simp

theorem updateTimestamp_frame (seg : Segment) (s : PseudoTcp) :
    ∃ ts, s.updateTimestamp seg = { s with tm := { s.tm with tsRecent := ts } } := by
  rw [updateTimestamp]
  split
  · exact ⟨_, rfl⟩
  · exact ⟨s.tm.tsRecent, rfl⟩

/-- A segment that `process` takes up: it is of the right conversation, the
connection is open, and the segment is neither a reset nor an unknown control
segment. -/
def TakesUp (s : PseudoTcp) (seg : Segment) : Prop :=
  seg.conv = s.conv ∧ s.state ≠ .closed ∧ seg.flags &&& flagRst = 0 ∧
    (seg.flags &&& flagCtl ≠ 0 → seg.len ≠ 0 ∧ seg.data.getD 0 0 = ctlConnect)

/-- What `process` does with a segment. -/
inductive ProcessRun (env : Env) (seg : Segment) (s : PseudoTcp) : Bool → PseudoTcp → Prop
  | wrongConv : seg.conv ≠ s.conv → ProcessRun env seg s false s
  | touched : seg.conv = s.conv → ProcessRun env seg s false (s.touch env)
  | reset : seg.conv = s.conv → s.state ≠ .closed → seg.flags &&& flagRst ≠ 0 →
      ProcessRun env seg s false ((s.touch env).closedown .econnreset)
  | failed (bConnect : Bool) (u t : PseudoTcp) : s.TakesUp seg →
      ControlCase seg (s.touch env) bConnect u →
      AckRun env seg (u.updateTimestamp seg) t → t.state = .closed →
      ProcessRun env seg s false t
  | done (bConnect : Bool) (u v t : PseudoTcp) : s.TakesUp seg →
      ControlCase seg (s.touch env) bConnect u →
      AckRun env seg (u.updateTimestamp seg) v → v.state ≠ .closed →
      Moves env env.now (v.processData seg).2.2 t → ProcessRun env seg s true t

theorem process_run (env : Env) (seg : Segment) (s : PseudoTcp) :
    ProcessRun env seg s (process env seg s).1 (process env seg s).2 := by
  rw [process]
  split
  · rename_i hc
    exact .wrongConv hc
  · rename_i hc
    have hc : seg.conv = s.conv := by simpa using hc
    dsimp only
    split
    · exact .touched hc
    · rename_i ho
      have ho : s.state ≠ .closed := ho
      split
      · rename_i hr
        exact .reset hc ho hr
      · rename_i hr
        split
        · exact .touched hc
        · rename_i bConnect u hctl
          obtain ⟨hctl, hcode⟩ := processControl_cases hctl
          have htake : s.TakesUp seg := ⟨hc, ho, by simpa using hr, hcode⟩
          have hu : (u.updateTimestamp seg).state ≠ .closed := by
            obtain ⟨ts, h⟩ := updateTimestamp_frame seg u
            rw [h]
            exact hctl.open ho
          rcases hack : processAck env bConnect seg (u.updateTimestamp seg) with ⟨b, v⟩
          obtain ⟨hrun, hcl⟩ := processAck_run hu hack
          cases b with
          | false =>
            rw [processBody, hack]
            exact .failed bConnect u v htake hctl hrun (by simpa using hcl)
          | true =>
            have hv : v.state ≠ .closed := hcl.mp rfl
            obtain ⟨es, hspec, -⟩ := processData_spec seg v
            rcases hd : v.processData seg with ⟨sflags, bNewData, w⟩
            rw [hd] at hspec
            have hw : w.state ≠ .closed := by
              rw [show w = _ from hspec]
              exact hv
            rw [processBody_of_ack hack hd]
            refine .done bConnect u v _ htake hctl hrun hv ?_
            rw [hd]
            refine (attemptSend_moves env env.now sflags hw).tail ?_ (.readable bNewData)
            rw [(attemptSend_frame env sflags w).state]
            exact hw

/-! ### `NotifyClock` -/

theorem notifyClock_moves (env : Env) (now : Word) (s : PseudoTcp) :
    Moves env now s (s.notifyClock env now) := by
  rw [notifyClock]
  split
  · exact .refl env now s
  · rename_i ho
    have hret : ∀ b t, clockRetransmit env now s = (b, t) →
        Moves env now s t ∧ (b = true → t.state ≠ .closed) := by
      intro b t h
      rw [clockRetransmit] at h
      split at h
      · rename_i hdue
        have hrto : s.tm.rtoBase ≠ 0 := by
          simp only [retransmitDue, decide_eq_true_eq] at hdue
          exact hdue.1
        split at h
        · rename_i hnil
          obtain ⟨rfl, rfl⟩ := Prod.mk.inj h
          exact ⟨.single ho (.emptyRetransmit hrto (by simpa using hnil)), fun _ => ho⟩
        · have hfr := transmit_frame env 0 now s
          have hmove : Moves env now s (transmit env 0 now s).2 :=
            .single ho (.retransmit (.inr (.inr hrto)))
          split at h
          · rename_i v heq
            rw [heq] at hfr hmove
            obtain ⟨rfl, rfl⟩ := Prod.mk.inj h
            exact ⟨hmove.tail (by rw [hfr.state]; exact ho) (.closedown .econnaborted), by simp⟩
          · rename_i v heq
            have hrto' : v.tm.rtoBase ≠ 0 := by
              cases transmit_cases heq with
              | sent seg n t _ _ hw _ =>
                show (if t.tm.rtoBase = 0 then now else t.tm.rtoBase) ≠ 0
                rw [hw.rtoBase, if_neg hrto]
                exact hrto
            rw [heq] at hfr hmove
            obtain ⟨rfl, rfl⟩ := Prod.mk.inj h
            have hv : v.state ≠ .closed := by
              rw [hfr.state]
              exact ho
            exact ⟨hmove.tail hv (.backOff hrto'), fun _ => hv⟩
      · obtain ⟨rfl, rfl⟩ := Prod.mk.inj h
        exact ⟨.refl env now s, fun _ => ho⟩
    have hprobe : ∀ u b t, u.state ≠ .closed → clockProbe env now u = (b, t) →
        Moves env now u t ∧ (b = true → t.state ≠ .closed) := by
      intro u b t hu h
      rw [clockProbe] at h
      split at h
      · split at h
        · obtain ⟨rfl, rfl⟩ := Prod.mk.inj h
          exact ⟨.single hu (.closedown .econnaborted), by simp⟩
        · have hst : (packet env (u.out.sndNxt - 1) 0 none u).2.state ≠ .closed := by
            rw [(packet_spec env (u.out.sndNxt - 1) 0 none u).frame.state]
            exact hu
          obtain ⟨rfl, rfl⟩ := Prod.mk.inj h
          exact ⟨(Moves.single hu (.pureAck _)).tail hst .probed, fun _ => hst⟩
      · obtain ⟨rfl, rfl⟩ := Prod.mk.inj h
        exact ⟨.refl env now u, fun _ => hu⟩
    split
    · rename_i t heq
      exact (hret _ _ heq).1
    · rename_i u heq
      obtain ⟨hm, hu⟩ := hret _ _ heq
      split
      · rename_i t heq'
        exact hm.trans (hprobe _ _ _ (hu rfl) heq').1
      · rename_i v heq'
        obtain ⟨hm', hv⟩ := hprobe _ _ _ (hu rfl) heq'
        rw [clockAck]
        split
        · exact (hm.trans hm').tail (hv rfl) (.pureAck _)
        · exact hm.trans hm'

/-! ### The API -/

/-- `Recv` has copied `read` bytes out. -/
def taken (read : Word) (s : PseudoTcp) : PseudoTcp :=
  { s with inc := { s.inc with rpos := s.inc.rpos + read } }

/-- The receive window is opened to all the free space. -/
def windowOpened (s : PseudoTcp) : PseudoTcp :=
  { s with inc := { s.inc with rcvWnd := s.inc.getReceiveBufferSpace } }

/-- The bytes `Recv` copies. -/
def readLen (len : ℕ) (s : PseudoTcp) : Word :=
  minOf (BitVec.ofNat 32 len) (s.inc.rlen - s.inc.rpos)

/-- What an API call does. -/
inductive Call (env : Env) (s : PseudoTcp) : Op → Ret → PseudoTcp → Prop
  | connectAgain : s.state ≠ .listen →
      Call env s .connect (.status (-1)) { s with error := .einval }
  | connect (t : PseudoTcp) : s.state = .listen →
      Moves env env.now ({ s with state := .synSent }.queue [ctlConnect] 1 true).2 t →
      Call env s .connect (.status 0) t
  | sendNot (data : List Byte) : s.state ≠ .established →
      Call env s (.send data) (.bytes (-1) []) { s with error := .enotconn }
  | sendFull (data : List Byte) : s.state = .established → s.out.slen = kSndBufSize →
      Call env s (.send data) (.bytes (-1) [])
        { s with bWriteEnable := true, error := .ewouldblock }
  | send (data : List Byte) (t : PseudoTcp) : s.state = .established →
      Moves env env.now (s.queue data (BitVec.ofNat 32 data.length) false).2 t →
      Call env s (.send data) (.bytes (s.out.fit (BitVec.ofNat 32 data.length)).toNat
        (data.take (s.out.fit (BitVec.ofNat 32 data.length)).toNat)) t
  | recvNot (len : ℕ) : s.state ≠ .established →
      Call env s (.recv len) (.bytes (-1) []) { s with error := .enotconn }
  | recvEmpty (len : ℕ) : s.state = .established → s.inc.rlen = s.inc.rpos →
      Call env s (.recv len) (.bytes (-1) [])
        { s with bReadEnable := true, error := .ewouldblock }
  | recv (len : ℕ) (l : List Event) (t : PseudoTcp) : s.state = .established →
      s.inc.rlen ≠ s.inc.rpos →
      l = s.log ∨ l = s.log ++ [.assertFailed .readPosition] ∧ ¬ s.inc.rpos ≤ s.inc.rlen →
      (t = { s with log := l }.taken (s.readLen len) ∨
        Moves env env.now ({ s with log := l }.taken (s.readLen len)).windowOpened t) →
      Call env s (.recv len) (.bytes (s.readLen len).toNat
        (s.inc.rbuf.read s.inc.rpos.toNat (s.readLen len).toNat)) t
  | close (force : Bool) : Call env s (.close force) .unit (s.close force)
  | setOption (opt : SockOption) (value : Word) :
      Call env s (.setOption opt value) .unit (s.setOption opt value)
  | notifyMTU (mtu : BitVec 16) : Call env s (.notifyMTU mtu) .unit (s.notifyMTU mtu)
  | notifyClock (now : Word) (t : PseudoTcp) : Moves env now s t →
      Call env s (.notifyClock now) .unit t
  | badLength (buffer : List Byte) : maxPacket.toNat < buffer.length ∨ buffer.length < 12 →
      Call env s (.notifyPacket buffer) (.accepted false) s
  | shortHeader (buffer : List Byte) : parseSegment buffer = none →
      Call env s (.notifyPacket buffer) (.accepted false) (s.note .readPastEnd)
  | packet (buffer : List Byte) (seg : Segment) (b : Bool) (t : PseudoTcp) :
      buffer.length ≤ maxPacket.toNat → parseSegment buffer = some seg →
      ProcessRun env seg s b t → Call env s (.notifyPacket buffer) (.accepted b) t

theorem withInc_state (i : Incoming) : ({ s with inc := i } : PseudoTcp).state = s.state := rfl

theorem openWindow_moves (ho : s.state ≠ .closed) :
    s.openWindow env = s ∨ Moves env now s.windowOpened (s.openWindow env) := by
  have hopen : s.windowOpened.state ≠ .closed := by
    rw [windowOpened, withInc_state]
    exact ho
  rw [openWindow]
  split
  · dsimp only
    split
    · exact .inr (attemptSend_moves (s := s.windowOpened) env now .immediateAck hopen)
    · exact .inr (.refl env now _)
  · exact .inl rfl

theorem connect_call (env : Env) (s : PseudoTcp) :
    Call env s .connect (.status (s.connect env).1) (s.connect env).2 := by
  rw [connect]
  split
  · rename_i hl
    exact .connectAgain hl
  · rename_i hl
    obtain ⟨l, hq, -⟩ := queue_spec [ctlConnect] 1 true { s with state := .synSent }
    have hopen : ({ s with state := .synSent }.queue [ctlConnect] 1 true).2.state ≠ .closed := by
      rw [hq]
      simp
    have hmoves := attemptSend_moves env env.now .none hopen
    generalize ({ s with state := .synSent }.queue [ctlConnect] 1 true).2.attemptSend env .none = t
      at hmoves ⊢
    exact .connect t (by simpa using hl) hmoves

theorem send_call (env : Env) (data : List Byte) (s : PseudoTcp) :
    Call env s (.send data) (.bytes (s.send env data).1.1 (s.send env data).1.2)
      (s.send env data).2 := by
  rw [send]
  split
  · rename_i hst
    exact .sendNot data hst
  · rename_i hst
    have hst : s.state = .established := by simpa using hst
    split
    · rename_i hfull
      exact .sendFull data hst hfull
    · obtain ⟨l, hq, -⟩ := queue_spec data (BitVec.ofNat 32 data.length) false s
      have hfit : (s.queue data (BitVec.ofNat 32 data.length) false).1
          = s.out.fit (BitVec.ofNat 32 data.length) := by rw [hq]
      have hopen : (s.queue data (BitVec.ofNat 32 data.length) false).2.state ≠ .closed := by
        rw [hq]
        simp [hst]
      have hmoves := attemptSend_moves env env.now .none hopen
      have hcall := fun t => @Call.send env s data t hst
      rw [← hfit] at hcall
      generalize s.queue data (BitVec.ofNat 32 data.length) false = r at hcall hmoves ⊢
      cases r
      dsimp only at hmoves ⊢
      exact hcall _ hmoves

theorem recv_call (env : Env) (len : ℕ) (s : PseudoTcp) :
    Call env s (.recv len) (.bytes (s.recv env len).1.1 (s.recv env len).1.2)
      (s.recv env len).2 := by
  rw [recv]
  split
  · rename_i hst
    exact .recvNot len hst
  · rename_i hst
    have hst : s.state = .established := by simpa using hst
    dsimp only
    rcases assert_cases (s.inc.rpos ≤ s.inc.rlen) .readPosition s with ⟨h, -⟩ | ⟨h, hp⟩
    · rw [h]
      split
      · rename_i hemp
        exact .recvEmpty len hst hemp
      · rename_i hne
        exact .recv len s.log _ hst hne (.inl rfl)
          (openWindow_moves (s := s.taken (s.readLen len)) (by show s.state ≠ _; rw [hst]; simp))
    · rw [h]
      have hp : ¬ s.inc.rpos ≤ s.inc.rlen := by simpa using hp
      split
      · rename_i hemp
        exact absurd (BitVec.le_of_eq (Eq.symm hemp)) hp
      · rename_i hne
        exact .recv len _ _ hst hne (.inr ⟨rfl, hp⟩)
          (openWindow_moves (s := (s.note (.assertFailed .readPosition)).taken (s.readLen len)) (by show s.state ≠ _; rw [hst]; simp))

theorem notifyPacket_call (env : Env) (buffer : List Byte) (s : PseudoTcp) :
    Call env s (.notifyPacket buffer) (.accepted (s.notifyPacket env buffer).1)
      (s.notifyPacket env buffer).2 := by
  rw [notifyPacket]
  split
  · rename_i hlen
    exact .badLength buffer (.inl hlen)
  · rename_i hmax
    split
    · rename_i hlen
      exact .badLength buffer (.inr hlen)
    · split
      · rename_i hp
        exact .shortHeader buffer hp
      · rename_i seg hp
        exact .packet buffer seg _ _ (Nat.not_lt.mp hmax) hp (process_run env seg s)

end PseudoTcp

theorem step_call (env : Env) (op : Op) (s : PseudoTcp) :
    PseudoTcp.Call env { s with log := [] } op (step env op s).1 (step env op s).2 := by
  cases op with
  | connect => exact PseudoTcp.connect_call env _
  | send data => exact PseudoTcp.send_call env data _
  | recv len => exact PseudoTcp.recv_call env len _
  | close force => exact .close force
  | setOption opt value => exact .setOption opt value
  | notifyMTU mtu => exact .notifyMTU mtu
  | notifyClock now => exact .notifyClock now _ (PseudoTcp.notifyClock_moves env now _)
  | notifyPacket buffer => exact PseudoTcp.notifyPacket_call env buffer _

end Jingle
