/-
Which functions of `PseudoTcp` signal.

`Quiet s t` says that nothing was signalled between `s` and `t` and that what
the signals depend on is the same: the state, the two enable flags, the receive
buffer and the length of the send queue.  The sending functions are quiet, and
congestion control and the clock are quiet or end with `closedown`.  The signals
are then left to four places, `opened`, `notifyWriteable`, `notifyReadable` and
`closedown`.
-/
import Jingle.PseudoTcp.QueueInv

namespace Jingle

/-- The events that the owner of the object is told of. -/
def Event.isSignal : Event → Bool
  | .onTcpOpen | .onTcpReadable | .onTcpWriteable | .onTcpClosed _ => true
  | _ => false

namespace PseudoTcp

variable {env : Env} {now : Word} {seg : Segment} {s t u : PseudoTcp}

/-- Nothing is signalled and nothing that a signal depends on changes. -/
structure Quiet (s t : PseudoTcp) : Prop where
  conv : t.conv = s.conv
  state : t.state = s.state
  shutdown : t.shutdown = s.shutdown
  bReadEnable : t.bReadEnable = s.bReadEnable
  bWriteEnable : t.bWriteEnable = s.bWriteEnable
  inc : t.inc = s.inc
  slen : t.out.slen = s.out.slen
  log : LogAdds (fun e => e.isSignal = false) s t

namespace Quiet

theorem refl (s : PseudoTcp) : Quiet s s := ⟨rfl, rfl, rfl, rfl, rfl, rfl, rfl, .refl s⟩

theorem trans (h₁ : Quiet s t) (h₂ : Quiet t u) : Quiet s u where
  conv := h₂.conv.trans h₁.conv
  state := h₂.state.trans h₁.state
  shutdown := h₂.shutdown.trans h₁.shutdown
  bReadEnable := h₂.bReadEnable.trans h₁.bReadEnable
  bWriteEnable := h₂.bWriteEnable.trans h₁.bWriteEnable
  inc := h₂.inc.trans h₁.inc
  slen := h₂.slen.trans h₁.slen
  log := h₁.log.trans h₂.log

theorem of_frame (hf : SendFrame s t) (hslen : t.out.slen = s.out.slen)
    (hlog : LogAdds (fun e => e.isSignal = false) s t) : Quiet s t :=
  ⟨hf.conv, hf.state, hf.shutdown, hf.bReadEnable, hf.bWriteEnable, hf.inc, hslen, hlog⟩

theorem note {e : Event} (he : e.isSignal = false) : Quiet s (s.note e) :=
  .of_frame (note_frame e s) rfl (.note he)

theorem not_closed (h : Quiet s t) (ho : s.state ≠ .closed) : t.state ≠ .closed := by
  rw [h.state]
  exact ho

end Quiet

/-! ### Sending -/

theorem TryEvent.quiet {g : SSegment} {n : Word} {e : Event} (h : TryEvent s g n e) :
    e.isSignal = false := by
  cases h <;> rfl

theorem packet_quiet (env : Env) (seq : Word) (flags : Byte) (data : Option (List Byte))
    (s : PseudoTcp) : Quiet s (packet env seq flags data s).2 := by
  have hp := packet_spec env seq flags data s
  refine .of_frame hp.frame (by rw [hp.out]) (hp.log.mono fun e he => ?_)
  cases he <;> rfl

theorem transmit_quiet (env : Env) (i : ℕ) (now : Word) (s : PseudoTcp) :
    Quiet s (transmit env i now s).2 := by
  rcases h : transmit env i now s with ⟨b, t⟩
  cases transmit_cases h with
  | noSegment => exact .note rfl
  | tooMany => exact .refl s
  | failed g t _ _ hw _ =>
    exact .of_frame hw.frame (by rw [hw.out]) (hw.log.mono fun e he => he.quiet)
  | sent g n t _ _ hw _ =>
    refine .of_frame (hw.frame.trans (by constructor <;> rfl)) ?_
      ((hw.log.mono fun e he => he.quiet).trans (.of_log_eq rfl))
    show t.out.slen = s.out.slen
    rw [hw.out]

theorem sendAck_quiet (env : Env) (sflags : SendFlags) (s : PseudoTcp) :
    Quiet s (sendAck env sflags s) := by
  have hp := packet_quiet env s.out.sndNxt 0 none s
  cases sflags with
  | none => exact .refl s
  | immediateAck => exact hp
  | delayedAck =>
    rw [sendAck]
    split
    · exact hp
    · exact ⟨rfl, rfl, rfl, rfl, rfl, rfl, rfl, .of_log_eq rfl⟩

theorem breakNext_quiet (s : PseudoTcp) : Quiet s s.breakNext :=
  ⟨rfl, rfl, rfl, rfl, rfl, rfl, (QueueInv.breakNext_frame s).2.2.1, .of_log_eq rfl⟩

theorem attemptSend_quiet (env : Env) (sflags : SendFlags) (s : PseudoTcp) :
    Quiet s (attemptSend env sflags s) :=
  attemptSend_induct (P := Quiet s)
    (fun _ h => h.trans ⟨rfl, rfl, rfl, rfl, rfl, rfl, rfl, .of_log_eq rfl⟩)
    (fun t f h => h.trans (sendAck_quiet env f t))
    (fun t h _ => (h.trans (breakNext_quiet t)).trans (transmit_quiet env _ _ _))
    sflags (.refl s)

/-! ### Congestion control and the clock -/

/-- A function that returns `false` after `closedown` and is quiet otherwise. -/
def QuietOrClosed (s : PseudoTcp) (b : Bool) (t : PseudoTcp) : Prop :=
  (b = true ∧ Quiet s t) ∨ (b = false ∧ ∃ u err, Quiet s u ∧ t = u.closedown err)

/-- A retransmission that closes the connection when it fails and is followed by a
quiet change when it does not. -/
theorem retransmit_quiet {f : PseudoTcp → PseudoTcp} {b : Bool} (hf : ∀ t, Quiet t (f t))
    (h : (match transmit env 0 now s with
      | (false, s) => (false, s.closedown .econnaborted)
      | (true, s) => (true, f s)) = (b, t)) : QuietOrClosed s b t := by
  have hq := transmit_quiet env 0 now s
  split at h
  · rename_i v heq
    rw [heq] at hq
    obtain ⟨rfl, rfl⟩ := Prod.mk.inj h
    exact .inr ⟨rfl, v, _, hq, rfl⟩
  · rename_i v heq
    rw [heq] at hq
    obtain ⟨rfl, rfl⟩ := Prod.mk.inj h
    exact .inl ⟨rfl, hq.trans (hf v)⟩

theorem ackCongestion_quiet {nAcked : Word} {b : Bool} (h : ackCongestion env nAcked s = (b, t)) :
    QuietOrClosed s b t := by
  rw [ackCongestion] at h
  split at h
  · split at h
    · obtain ⟨rfl, rfl⟩ := Prod.mk.inj h
      exact .inl ⟨rfl, rfl, rfl, rfl, rfl, rfl, rfl, rfl, .of_log_eq rfl⟩
    · exact retransmit_quiet (f := fun t => { t with cc := { t.cc with
        cwnd := t.cc.cwnd + (t.cc.mss - minOf nAcked t.cc.cwnd) } })
        (fun t => ⟨rfl, rfl, rfl, rfl, rfl, rfl, rfl, .of_log_eq rfl⟩) h
  · split at h
    · obtain ⟨rfl, rfl⟩ := Prod.mk.inj h
      exact .inl ⟨rfl, rfl, rfl, rfl, rfl, rfl, rfl, rfl, .of_log_eq rfl⟩
    · obtain ⟨rfl, rfl⟩ := Prod.mk.inj h
      refine .inl ⟨rfl, Quiet.trans (t := if s.cc.cwnd = 0 then s.note .divByZero else s) ?_
        ⟨rfl, rfl, rfl, rfl, rfl, rfl, rfl, .of_log_eq rfl⟩⟩
      split
      · exact .note rfl
      · exact .refl s

theorem duplicateAck_quiet {b : Bool} (h : duplicateAck env seg s = (b, t)) :
    QuietOrClosed s b t := by
  have hset : ∀ n, Quiet s { s.setWindow seg.wnd with cc := { s.cc with dupAcks := n } } :=
    fun n => ⟨rfl, rfl, rfl, rfl, rfl, rfl, rfl, .of_log_eq rfl⟩
  rw [duplicateAck] at h
  dsimp only at h
  split at h
  · obtain ⟨rfl, rfl⟩ := Prod.mk.inj h
    exact .inl ⟨rfl, rfl, rfl, rfl, rfl, rfl, rfl, rfl, .of_log_eq rfl⟩
  · split at h
    · split at h
      · have hr := retransmit_quiet (f := enterRecovery)
          (fun t => ⟨rfl, rfl, rfl, rfl, rfl, rfl, rfl, .of_log_eq rfl⟩) h
        rcases hr with ⟨rfl, hq⟩ | ⟨rfl, u, err, hq, rfl⟩
        · exact .inl ⟨rfl, (hset _).trans hq⟩
        · exact .inr ⟨rfl, u, err, (hset _).trans hq, rfl⟩
      · split at h
        · obtain ⟨rfl, rfl⟩ := Prod.mk.inj h
          exact .inl ⟨rfl, rfl, rfl, rfl, rfl, rfl, rfl, rfl, .of_log_eq rfl⟩
        · obtain ⟨rfl, rfl⟩ := Prod.mk.inj h
          exact .inl ⟨rfl, hset _⟩
    · obtain ⟨rfl, rfl⟩ := Prod.mk.inj h
      exact .inl ⟨rfl, hset 0⟩

theorem clockRetransmit_quiet {b : Bool} (h : clockRetransmit env now s = (b, t)) :
    QuietOrClosed s b t := by
  rw [clockRetransmit] at h
  split at h
  · split at h
    · obtain ⟨rfl, rfl⟩ := Prod.mk.inj h
      exact .inl ⟨rfl, .note rfl⟩
    · exact retransmit_quiet (f := backOff now)
        (fun t => ⟨rfl, rfl, rfl, rfl, rfl, rfl, rfl, .of_log_eq rfl⟩) h
  · obtain ⟨rfl, rfl⟩ := Prod.mk.inj h
    exact .inl ⟨rfl, .refl s⟩

theorem clockProbe_quiet {b : Bool} (h : clockProbe env now s = (b, t)) : QuietOrClosed s b t := by
  rw [clockProbe] at h
  split at h
  · split at h
    · obtain ⟨rfl, rfl⟩ := Prod.mk.inj h
      exact .inr ⟨rfl, s, _, .refl s, rfl⟩
    · obtain ⟨rfl, rfl⟩ := Prod.mk.inj h
      exact .inl ⟨rfl, (packet_quiet env _ 0 none s).trans
        ⟨rfl, rfl, rfl, rfl, rfl, rfl, rfl, .of_log_eq rfl⟩⟩
  · obtain ⟨rfl, rfl⟩ := Prod.mk.inj h
    exact .inl ⟨rfl, .refl s⟩

theorem notifyClock_quiet (env : Env) (now : Word) (s : PseudoTcp) :
    Quiet s (s.notifyClock env now) ∨
      s.state ≠ .closed ∧ ∃ u err, Quiet s u ∧ s.notifyClock env now = u.closedown err := by
  rw [notifyClock]
  split
  · exact .inl (.refl s)
  rename_i ho
  rcases h₁ : clockRetransmit env now s with ⟨b, t⟩
  rcases clockRetransmit_quiet h₁ with ⟨rfl, hq⟩ | ⟨rfl, u, err, hq, rfl⟩
  · rcases h₂ : clockProbe env now t with ⟨b', v⟩
    rcases clockProbe_quiet h₂ with ⟨rfl, hq'⟩ | ⟨rfl, u, err, hq', rfl⟩
    · left
      dsimp only
      rw [h₂]
      dsimp only
      rw [clockAck]
      split
      · exact (hq.trans hq').trans (packet_quiet env _ 0 none v)
      · exact hq.trans hq'
    · right
      dsimp only
      rw [h₂]
      exact ⟨ho, u, err, hq.trans hq', rfl⟩
  · exact .inr ⟨ho, u, err, hq, rfl⟩

end PseudoTcp

end Jingle
