/-
What the sending functions can do.

`SendFrame s t` lists everything that `packet`, `transmit` and `attemptSend`
leave alone.  `writeSegment_spec` says once what an attempt to transmit a segment
does to the queue and to the log; `attemptSend_induct` is the invariant rule of
the send loop.  Later modules use these and never unfold
the functions again.
-/
import Jingle.PseudoTcp.Api

namespace Jingle

namespace PseudoTcp

variable {env : Env} {s t u : PseudoTcp}

/-! ### The frame of the sending functions -/

/-- What sending does not touch. -/
structure SendFrame (s t : PseudoTcp) : Prop where
  shutdown : t.shutdown = s.shutdown
  error : t.error = s.error
  state : t.state = s.state
  conv : t.conv = s.conv
  bReadEnable : t.bReadEnable = s.bReadEnable
  bWriteEnable : t.bWriteEnable = s.bWriteEnable
  useNagling : t.useNagling = s.useNagling
  ackDelay : t.ackDelay = s.ackDelay
  inc : t.inc = s.inc
  largest : t.cc.largest = s.cc.largest
  mtuAdvise : t.cc.mtuAdvise = s.cc.mtuAdvise
  ssthresh : t.cc.ssthresh = s.cc.ssthresh
  dupAcks : t.cc.dupAcks = s.cc.dupAcks
  recover : t.cc.recover = s.cc.recover
  lastrecv : t.tm.lastrecv = s.tm.lastrecv
  tsRecent : t.tm.tsRecent = s.tm.tsRecent
  rxRttvar : t.tm.rxRttvar = s.tm.rxRttvar
  rxSrtt : t.tm.rxSrtt = s.tm.rxSrtt
  rxRto : t.tm.rxRto = s.tm.rxRto

namespace SendFrame

theorem refl (s : PseudoTcp) : SendFrame s s := by constructor <;> rfl

theorem trans (h₁ : SendFrame s t) (h₂ : SendFrame t u) : SendFrame s u where
  shutdown := h₂.shutdown.trans h₁.shutdown
  error := h₂.error.trans h₁.error
  state := h₂.state.trans h₁.state
  conv := h₂.conv.trans h₁.conv
  bReadEnable := h₂.bReadEnable.trans h₁.bReadEnable
  bWriteEnable := h₂.bWriteEnable.trans h₁.bWriteEnable
  useNagling := h₂.useNagling.trans h₁.useNagling
  ackDelay := h₂.ackDelay.trans h₁.ackDelay
  inc := h₂.inc.trans h₁.inc
  largest := h₂.largest.trans h₁.largest
  mtuAdvise := h₂.mtuAdvise.trans h₁.mtuAdvise
  ssthresh := h₂.ssthresh.trans h₁.ssthresh
  dupAcks := h₂.dupAcks.trans h₁.dupAcks
  recover := h₂.recover.trans h₁.recover
  lastrecv := h₂.lastrecv.trans h₁.lastrecv
  tsRecent := h₂.tsRecent.trans h₁.tsRecent
  rxRttvar := h₂.rxRttvar.trans h₁.rxRttvar
  rxSrtt := h₂.rxSrtt.trans h₁.rxSrtt
  rxRto := h₂.rxRto.trans h₁.rxRto

end SendFrame

/-! ### Additions to the log -/

/-- `t` has the log of `s` and further events, all of which satisfy `P`. -/
def LogAdds (P : Event → Prop) (s t : PseudoTcp) : Prop :=
  ∃ es, t.log = s.log ++ es ∧ ∀ e ∈ es, P e

namespace LogAdds

variable {P Q : Event → Prop}

theorem refl (s : PseudoTcp) : LogAdds P s s := ⟨[], by simp, by simp⟩

theorem of_log_eq (h : t.log = s.log) : LogAdds P s t := ⟨[], by simp [h], by simp⟩

theorem note {e : Event} (h : P e) : LogAdds P s (s.note e) :=
  ⟨[e], rfl, by simpa using h⟩

theorem trans (h₁ : LogAdds P s t) (h₂ : LogAdds P t u) : LogAdds P s u := by
  obtain ⟨es, he, hP⟩ := h₁
  obtain ⟨fs, hf, hQ⟩ := h₂
  refine ⟨es ++ fs, by rw [hf, he, List.append_assoc], fun e h => ?_⟩
  rcases List.mem_append.mp h with h | h
  · exact hP e h
  · exact hQ e h

theorem mono (h : LogAdds P s t) (hPQ : ∀ e, P e → Q e) : LogAdds Q s t := by
  obtain ⟨es, he, hP⟩ := h
  exact ⟨es, he, fun e h => hPQ e (hP e h)⟩

theorem mem (h : LogAdds P s t) {e : Event} (he : e ∈ t.log) : e ∈ s.log ∨ P e := by
  obtain ⟨es, hes, hP⟩ := h
  rw [hes] at he
  rcases List.mem_append.mp he with h | h
  · exact .inl h
  · exact .inr (hP e h)

theorem subset (h : LogAdds P s t) {e : Event} (he : e ∈ s.log) : e ∈ t.log := by
  obtain ⟨es, hes, -⟩ := h
  rw [hes]
  exact List.mem_append_left _ he

end LogAdds

/-! ### `packet` -/

@[simp] theorem note_log (e : Event) (s : PseudoTcp) : (s.note e).log = s.log ++ [e] := rfl

theorem note_frame (e : Event) (s : PseudoTcp) : SendFrame s (s.note e) := by
  constructor <;> rfl

@[simp] theorem note_tm (e : Event) (s : PseudoTcp) : (s.note e).tm = s.tm := rfl

theorem assert_cases (p : Bool) (a : Assertion) (s : PseudoTcp) :
    s.assert p a = s ∧ p = true ∨ s.assert p a = s.note (.assertFailed a) ∧ p = false := by
  cases p
  · exact .inr ⟨rfl, rfl⟩
  · exact .inl ⟨rfl, rfl⟩

theorem assert_frame (p : Bool) (a : Assertion) (s : PseudoTcp) :
    SendFrame s (s.assert p a) ∧ (s.assert p a).out = s.out ∧ (s.assert p a).cc = s.cc ∧
      (s.assert p a).tm = s.tm ∧ (s.assert p a).bOutgoing = s.bOutgoing := by
  rcases assert_cases p a s with ⟨h, -⟩ | ⟨h, -⟩
  · rw [h]
    exact ⟨.refl s, rfl, rfl, rfl, rfl⟩
  · rw [h]
    exact ⟨note_frame _ s, rfl, rfl, rfl, rfl⟩

theorem queue_spec (data : List Byte) (len : Word) (bCtrl : Bool) (s : PseudoTcp) :
    ∃ l, (s.queue data len bCtrl) = (s.out.fit len,
        { s with out := s.out.enqueue data (s.out.fit len) bCtrl, log := l }) ∧
      (l = s.log ∨ l = s.log ++ [.assertFailed .controlFits] ∧ bCtrl = true ∧
        kSndBufSize - s.out.slen < len) := by
  rw [queue]
  by_cases h : kSndBufSize - s.out.slen < len
  · rw [if_pos h]
    cases bCtrl with
    | false => exact ⟨s.log, rfl, .inl rfl⟩
    | true => exact ⟨s.log ++ [.assertFailed .controlFits], rfl, .inr ⟨rfl, rfl, h⟩⟩
  · rw [if_neg h]
    exact ⟨s.log, rfl, .inl rfl⟩

/-- What a `packet` call may record: the size assertion, and the write. -/
inductive PacketEvent (s : PseudoTcp) (seq : Word) (flags : Byte) (data : List Byte) :
    Event → Prop
  | oversize : ¬ headerSize + BitVec.ofNat 32 data.length ≤ maxPacket →
      PacketEvent s seq flags data (.assertFailed .packetSize)
  | write (now : Word) (r : WriteResult) :
      PacketEvent s seq flags data (.tcpWritePacket (s.packetBytes seq flags data now) r)

/-- What `packet` does. -/
structure PacketSpec (s : PseudoTcp) (seq : Word) (flags : Byte) (data : Option (List Byte))
    (r : WriteResult) (t : PseudoTcp) : Prop where
  frame : SendFrame s t
  out : t.out = s.out
  cc : t.cc = s.cc
  rtoBase : t.tm.rtoBase = s.tm.rtoBase
  tsLastack : t.tm.tsLastack = s.inc.rcvNxt
  log : LogAdds (PacketEvent s seq flags (data.getD [])) s t
  /-- The packet is handed over, with the result that is returned if there is
  data. -/
  written : ∃ now r', (data.isSome → r' = r) ∧
    .tcpWritePacket (s.packetBytes seq flags (data.getD []) now) r' ∈ t.log
  /-- Only a successful write of data is recorded as one. -/
  success : data.isSome → r ≠ .success →
    ∀ b, .tcpWritePacket b .success ∈ t.log → .tcpWritePacket b .success ∈ s.log
  tAck : r = .success → t.tm.tAck = 0
  tAck_fail : r ≠ .success → t.tm.tAck = s.tm.tAck

theorem packet_spec (env : Env) (seq : Word) (flags : Byte) (data : Option (List Byte))
    (s : PseudoTcp) :
    PacketSpec s seq flags data (packet env seq flags data s).1 (packet env seq flags data s).2 := by
  set len : Word := BitVec.ofNat 32 (data.getD []).length with hlen
  set s₁ := s.assert (headerSize + len ≤ maxPacket) .packetSize with hs₁
  obtain ⟨hf₁, ho₁, hc₁, ht₁, -⟩ := assert_frame (headerSize + len ≤ maxPacket) .packetSize s
  rw [← hs₁] at hf₁ ho₁ hc₁ ht₁
  have hlog₁ : LogAdds (PacketEvent s seq flags (data.getD [])) s s₁ := by
    rcases assert_cases (headerSize + len ≤ maxPacket) .packetSize s with ⟨h, -⟩ | ⟨h, hp⟩
    · rw [hs₁, h]
      exact .refl s
    · rw [hs₁, h]
      exact .note (.oversize (by simpa [hlen] using hp))
  have hnosucc : ∀ b, Event.tcpWritePacket b .success ∈ s₁.log →
      Event.tcpWritePacket b .success ∈ s.log := by
    intro b hb
    rcases assert_cases (headerSize + len ≤ maxPacket) .packetSize s with ⟨h, -⟩ | ⟨h, -⟩
    · rwa [hs₁, h] at hb
    · rw [hs₁, h] at hb
      simpa using hb
  set now := env.packetNow s₁.log.length with hnow
  set wres := env.write s₁.log.length with hwres
  have hbytes : s₁.packetBytes seq flags (data.getD []) now
      = s.packetBytes seq flags (data.getD []) now := by
    simp only [packetBytes, hf₁.conv, hf₁.inc, ht₁]
  set s₂ := ({ s₁ with tm := { s₁.tm with tsLastack := s₁.inc.rcvNxt } } : PseudoTcp).note
    (.tcpWritePacket (s.packetBytes seq flags (data.getD []) now) wres) with hs₂
  have hpacket : packet env seq flags data s
      = if wres ≠ .success ∧ data.isSome then (wres, s₂)
        else (.success, s₂.packetSent len now) := by
    simp only [packet, ← hlen, ← hs₁, ← hnow, ← hwres, hbytes, ← hs₂]
  have hmem : Event.tcpWritePacket (s.packetBytes seq flags (data.getD []) now) wres
      ∈ s₂.log := by
    simp [hs₂]
  have hlog₂ : LogAdds (PacketEvent s seq flags (data.getD [])) s s₂ :=
    hlog₁.trans ⟨[_], rfl, by simpa using PacketEvent.write now wres⟩
  have hsucc₂ : wres ≠ .success → ∀ b, Event.tcpWritePacket b .success ∈ s₂.log →
      Event.tcpWritePacket b .success ∈ s.log := by
    intro hw b hb
    simp only [hs₂, note_log, List.mem_append, List.mem_singleton, Event.tcpWritePacket.injEq] at hb
    rcases hb with hb | ⟨-, hb⟩
    · exact hnosucc b hb
    · exact absurd hb.symm hw
  by_cases h : wres ≠ .success ∧ data.isSome
  · rw [hpacket, if_pos h]
    refine ⟨hf₁.trans (by constructor <;> rfl), ho₁, hc₁, ?_, ?_, hlog₂,
      ⟨now, wres, fun _ => rfl, hmem⟩, fun _ hw => hsucc₂ hw, fun hw => absurd hw h.1, ?_⟩
    · show s₁.tm.rtoBase = _
      rw [ht₁]
    · exact congrArg Incoming.rcvNxt hf₁.inc
    · intro _
      show s₁.tm.tAck = _
      rw [ht₁]
  · rw [hpacket, if_neg h]
    refine ⟨hf₁.trans (by constructor <;> rfl), ho₁, hc₁, ?_, ?_, hlog₂,
      ⟨now, wres, fun hd => ?_, hmem⟩, fun _ hw => absurd rfl hw, fun _ => rfl,
      fun hw => absurd rfl hw⟩
    · show s₁.tm.rtoBase = _
      rw [ht₁]
    · exact congrArg Incoming.rcvNxt hf₁.inc
    · by_contra hw
      exact h ⟨hw, hd⟩

/-! ### `transmit` -/

theorem packetMaximum_bounds {level : Word} (h : packetMaximum level ≠ 0) :
    minPacket ≤ packetMaximum level ∧ packetMaximum level ≤ maxPacket := by
  have key : ∀ n : ℕ, packetMaximums.getD n 0 ≠ 0 →
      minPacket ≤ packetMaximums.getD n 0 ∧ packetMaximums.getD n 0 ≤ maxPacket := by
    intro n
    by_cases hn : n < 11
    · interval_cases n <;> decide
    · intro h
      rw [List.getD_eq_getElem?_getD, List.getElem?_eq_none (by simpa [packetMaximums] using hn)] at h
      exact absurd rfl h
  exact key level.toNat h

theorem lowerMss_spec (n : Word) : ∀ (fuel : ℕ) (c : Congestion),
    (lowerMss n fuel c).2.largest = c.largest ∧
    (lowerMss n fuel c).2.mtuAdvise = c.mtuAdvise ∧
    (lowerMss n fuel c).2.ssthresh = c.ssthresh ∧
    (lowerMss n fuel c).2.dupAcks = c.dupAcks ∧
    (lowerMss n fuel c).2.recover = c.recover ∧
    ((lowerMss n fuel c).1 = true →
      (lowerMss n fuel c).2.mss < n ∧ (lowerMss n fuel c).2.mss ≠ 0)
  | 0, c => by simp [lowerMss]
  | fuel + 1, c => by
    rw [lowerMss]
    split
    · simp
    · rename_i hz
      dsimp only
      split
      · rename_i hlt
        refine ⟨rfl, rfl, rfl, rfl, rfl, fun _ => ⟨hlt, ?_⟩⟩
        have hb := (packetMaximum_bounds hz).1
        simp only [minPacket, packetOverhead] at hb ⊢
        bv_omega
      · exact lowerMss_spec n fuel _

/-- The bytes `transmit` writes for the first `m` bytes of a segment. -/
def segmentBytes (s : PseudoTcp) (seg : SSegment) (m now : Word) : List Byte :=
  s.packetBytes seg.seq (if seg.bCtrl then flagCtl else 0)
    (s.out.sbuf.read (seg.seq - s.out.sndUna).toNat m.toNat) now

/-- What an attempt to transmit `n` bytes of a segment may record. -/
inductive TryEvent (s : PseudoTcp) (seg : SSegment) (n : Word) : Event → Prop
  | read (m : Word) : m ≤ n →
      TryEvent s seg n (.sbufRead (seg.seq - s.out.sndUna) m s.out.slen)
  | oversize (m : Word) : m ≤ n → ¬ headerSize + m ≤ maxPacket →
      TryEvent s seg n (.assertFailed .packetSize)
  | write (m now : Word) (r : WriteResult) : m ≤ n →
      TryEvent s seg n (.tcpWritePacket (s.segmentBytes seg m now) r)

theorem TryEvent.mono {seg : SSegment} {n m : Word} (hmn : m ≤ n) {e : Event}
    (h : TryEvent s seg m e) : TryEvent s seg n e := by
  cases h with
  | read k hk => exact .read k (BitVec.le_trans hk hmn)
  | oversize k hk ho => exact .oversize k (BitVec.le_trans hk hmn) ho
  | write k now r hk => exact .write k now r (BitVec.le_trans hk hmn)

/-- What an attempt to transmit the first `n` bytes of a segment does.  With
`r = some m` the last packet, of `m` bytes, was taken. -/
structure WriteSpec (s : PseudoTcp) (seg : SSegment) (n : Word) (r : Option Word)
    (t : PseudoTcp) : Prop where
  frame : SendFrame s t
  out : t.out = s.out
  rtoBase : t.tm.rtoBase = s.tm.rtoBase
  log : LogAdds (TryEvent s seg n) s t
  le : ∀ m, r = some m → m ≤ n
  pos : ∀ m, r = some m → m = 0 → n = 0
  fail : r = none →
    ∀ b, .tcpWritePacket b .success ∈ t.log → .tcpWritePacket b .success ∈ s.log
  success : ∀ m, r = some m → ∀ b, .tcpWritePacket b .success ∈ t.log →
    .tcpWritePacket b .success ∈ s.log ∨ ∃ now, b = s.segmentBytes seg m now

theorem segmentBytes_congr (hf : SendFrame s t) (ho : t.out = s.out) (seg : SSegment)
    (m now : Word) : t.segmentBytes seg m now = s.segmentBytes seg m now := by
  simp only [segmentBytes, packetBytes, hf.conv, hf.inc, hf.tsRecent, ho]

theorem TryEvent.congr (hf : SendFrame s t) (ho : t.out = s.out) {seg : SSegment} {n : Word}
    {e : Event} (h : TryEvent t seg n e) : TryEvent s seg n e := by
  cases h with
  | read k hk =>
    rw [ho]
    exact .read k hk
  | oversize k hk hs => exact .oversize k hk hs
  | write k now r hk =>
    rw [segmentBytes_congr hf ho]
    exact .write k now r hk

namespace WriteSpec

variable {seg : SSegment} {n m : Word} {r : Option Word}

theorem after (h₁ : WriteSpec s seg n none t) (h₂ : WriteSpec t seg m r u) (hmn : m ≤ n)
    (hm : m = 0 → n = 0) : WriteSpec s seg n r u where
  frame := h₁.frame.trans h₂.frame
  out := h₂.out.trans h₁.out
  rtoBase := h₂.rtoBase.trans h₁.rtoBase
  log := h₁.log.trans (h₂.log.mono fun _ he => (he.congr h₁.frame h₁.out).mono hmn)
  le k hk := BitVec.le_trans (h₂.le k hk) hmn
  pos k hk h0 := hm (h₂.pos k hk h0)
  fail hr b hb := h₁.fail rfl b (h₂.fail hr b hb)
  success k hk b hb := by
    rcases h₂.success k hk b hb with hb | ⟨now, rfl⟩
    · exact .inl (h₁.fail rfl b hb)
    · exact .inr ⟨now, segmentBytes_congr h₁.frame h₁.out seg k now⟩

theorem lower (n' : Word) (fuel : ℕ) :
    WriteSpec s seg n none { s with cc := (lowerMss n' fuel s.cc).2 } := by
  obtain ⟨h₁, h₂, h₃, h₄, h₅, -⟩ := lowerMss_spec n' fuel s.cc
  exact ⟨⟨rfl, rfl, rfl, rfl, rfl, rfl, rfl, rfl, rfl, h₁, h₂, h₃, h₄, h₅, rfl, rfl, rfl, rfl,
    rfl⟩, rfl, rfl, .of_log_eq rfl, by simp, by simp, fun _ _ hb => hb, by simp⟩

end WriteSpec

theorem packet_writeSpec (env : Env) (seg : SSegment) (n : Word) (s : PseudoTcp) :
    let s₁ := s.note (.sbufRead (seg.seq - s.out.sndUna) n s.out.slen)
    let p := packet env seg.seq (if seg.bCtrl then flagCtl else 0)
      (some (s₁.out.sbuf.read (seg.seq - s.out.sndUna).toNat n.toNat)) s₁
    WriteSpec s seg n (if p.1 = .success then some n else none) p.2 ∧
      ∃ now r, .tcpWritePacket (s.segmentBytes seg n now) r ∈ p.2.log := by
  intro s₁ p
  have hp := packet_spec env seg.seq (if seg.bCtrl then flagCtl else 0)
    (some (s.out.sbuf.read (seg.seq - s.out.sndUna).toNat n.toNat)) s₁
  have hlen : BitVec.ofNat 32 (s.out.sbuf.read (seg.seq - s.out.sndUna).toNat n.toNat).length
      = n := by
    rw [Mem.length_read, BitVec.ofNat_toNat, BitVec.setWidth_eq]
  have hevents : ∀ e, PacketEvent s₁ seg.seq (if seg.bCtrl then flagCtl else 0)
      (s.out.sbuf.read (seg.seq - s.out.sndUna).toNat n.toNat) e → TryEvent s seg n e := by
    intro e he
    cases he with
    | oversize h =>
      rw [hlen] at h
      exact .oversize n (BitVec.le_refl n) h
    | write now r => exact .write n now r (BitVec.le_refl n)
  have hlog : LogAdds (TryEvent s seg n) s p.2 :=
    (LogAdds.note (.read n (BitVec.le_refl n))).trans (hp.log.mono hevents)
  have hnew : ∀ b, .tcpWritePacket b .success ∈ s₁.log → .tcpWritePacket b .success ∈ s.log := by
    intro b hb
    simpa [s₁] using hb
  obtain ⟨now, r, -, hw⟩ := hp.written
  refine ⟨⟨(note_frame _ s).trans hp.frame, hp.out, hp.rtoBase, hlog, ?_, ?_, ?_, ?_⟩,
    now, r, hw⟩
  · intro m hm
    split at hm
    · exact BitVec.le_of_eq (Option.some.inj hm).symm
    · exact absurd hm (by simp)
  · intro m hm h0
    split at hm
    · exact (Option.some.inj hm).trans h0
    · exact absurd hm (by simp)
  · intro hr b hb
    split at hr
    · exact absurd hr (by simp)
    · rename_i hne
      exact hnew b (hp.success rfl hne b hb)
  · intro m hm b hb
    split at hm
    · obtain rfl := Option.some.inj hm
      rcases hp.log.mem hb with hb | he
      · exact .inl (hnew b hb)
      · cases he with
        | write now r => exact .inr ⟨now, rfl⟩
    · exact absurd hm (by simp)

theorem writeSegment_spec (env : Env) (seg : SSegment) : ∀ (fuel : ℕ) (n : Word) (s : PseudoTcp),
    WriteSpec s seg n (writeSegment env seg fuel n s).1 (writeSegment env seg fuel n s).2
  | 0, n, s =>
    ⟨.refl s, rfl, rfl, .refl s, by simp [writeSegment], by simp [writeSegment],
      fun _ _ hb => hb, by simp [writeSegment]⟩
  | fuel + 1, n, s => by
    have hp := (packet_writeSpec env seg n s).1
    rw [writeSegment]
    split
    · rename_i t heq
      rw [heq] at hp
      exact hp
    · rename_i t heq
      rw [heq] at hp
      exact hp
    · rename_i t heq
      rw [heq] at hp
      have hl := lowerMss_spec n packetMaximums.length t.cc
      have hc := hp.after (.lower n packetMaximums.length) (BitVec.le_refl n) id
      split
      · rename_i c hcc
        rw [hcc] at hc
        exact hc
      · rename_i c hcc
        rw [hcc] at hc hl
        obtain ⟨hlt, h0⟩ := hl.2.2.2.2.2 rfl
        exact hc.after (writeSegment_spec env seg fuel c.mss _) (BitVec.le_of_lt hlt)
          fun h => absurd h h0

theorem writeSegment_written (env : Env) (seg : SSegment) (fuel : ℕ) (n : Word) (s : PseudoTcp) :
    ∃ now r, .tcpWritePacket (s.segmentBytes seg n now) r
      ∈ (writeSegment env seg (fuel + 1) n s).2.log := by
  obtain ⟨now, r, hw⟩ := (packet_writeSpec env seg n s).2
  refine ⟨now, r, ?_⟩
  rw [writeSegment]
  split
  · rename_i t heq
    rwa [heq] at hw
  · rename_i t heq
    rwa [heq] at hw
  · rename_i t heq
    rw [heq] at hw
    split
    · exact hw
    · rename_i c hcc
      exact (writeSegment_spec env seg fuel c.mss { t with cc := c }).log.subset hw

/-- The possible outcomes of `transmit`. -/
inductive TransmitCase (env : Env) (i : ℕ) (now : Word) (s : PseudoTcp) : Bool → PseudoTcp → Prop
  | noSegment : s.out.slist[i]? = none → TransmitCase env i now s false (s.note .derefEnd)
  | tooMany (seg : SSegment) : s.out.slist[i]? = some seg → maxXmit s.state ≤ seg.xmit →
      TransmitCase env i now s false s
  | failed (seg : SSegment) (t : PseudoTcp) : s.out.slist[i]? = some seg →
      seg.xmit < maxXmit s.state →
      WriteSpec s seg (minOf seg.len s.cc.mss) none t →
      (∃ m now' r, .tcpWritePacket (s.segmentBytes seg m now') r ∈ t.log) →
      TransmitCase env i now s false t
  | sent (seg : SSegment) (n : Word) (t : PseudoTcp) : s.out.slist[i]? = some seg →
      seg.xmit < maxXmit s.state →
      WriteSpec s seg (minOf seg.len s.cc.mss) (some n) t →
      (∃ m now' r, .tcpWritePacket (s.segmentBytes seg m now') r ∈ t.log) →
      TransmitCase env i now s true { t with
        out := t.out.transmitted i seg n
        tm := { t.tm with rtoBase := if t.tm.rtoBase = 0 then now else t.tm.rtoBase } }

theorem transmit_cases {i : ℕ} {now : Word} {b : Bool} (h : transmit env i now s = (b, t)) :
    TransmitCase env i now s b t := by
  rw [transmit] at h
  split at h
  · rename_i hi
    obtain ⟨rfl, rfl⟩ := Prod.mk.inj h
    exact .noSegment hi
  · rename_i seg hi
    by_cases hx : maxXmit s.state ≤ seg.xmit
    · rw [if_pos hx] at h
      obtain ⟨rfl, rfl⟩ := Prod.mk.inj h
      exact .tooMany seg hi hx
    · rw [if_neg hx] at h
      have hw := writeSegment_spec env seg packetMaximums.length (minOf seg.len s.cc.mss) s
      obtain ⟨now', r, hmem⟩ : ∃ now' r, .tcpWritePacket
          (s.segmentBytes seg (minOf seg.len s.cc.mss) now') r
          ∈ (writeSegment env seg packetMaximums.length (minOf seg.len s.cc.mss) s).2.log :=
        writeSegment_written env seg 10 (minOf seg.len s.cc.mss) s
      have hlt : seg.xmit < maxXmit s.state := BitVec.not_le.mp hx
      split at h
      · rename_i u heq
        rw [heq] at hw hmem
        obtain ⟨rfl, rfl⟩ := Prod.mk.inj h
        exact .failed seg u hi hlt hw ⟨_, now', r, hmem⟩
      · rename_i n u heq
        rw [heq] at hw hmem
        obtain ⟨rfl, rfl⟩ := Prod.mk.inj h
        exact .sent seg n u hi hlt hw ⟨_, now', r, hmem⟩

theorem transmit_frame (env : Env) (i : ℕ) (now : Word) (s : PseudoTcp) :
    SendFrame s (transmit env i now s).2 := by
  rcases h : transmit env i now s with ⟨b, t⟩
  cases transmit_cases h with
  | noSegment => exact note_frame _ s
  | tooMany => exact .refl s
  | failed seg t _ _ hw _ => exact hw.frame
  | sent seg n t _ _ hw _ => exact hw.frame.trans (by constructor <;> rfl)

/-! ### `attemptSend` -/

theorem sendAck_frame (env : Env) (sflags : SendFlags) (s : PseudoTcp) :
    SendFrame s (sendAck env sflags s) ∧ (sendAck env sflags s).out = s.out ∧
      (sendAck env sflags s).cc = s.cc ∧
      (sendAck env sflags s).tm.rtoBase = s.tm.rtoBase := by
  have hp := packet_spec env s.out.sndNxt 0 none s
  cases sflags with
  | none => exact ⟨.refl s, rfl, rfl, rfl⟩
  | immediateAck => exact ⟨hp.frame, hp.out, hp.cc, hp.rtoBase⟩
  | delayedAck =>
    rw [sendAck]
    split
    · exact ⟨hp.frame, hp.out, hp.cc, hp.rtoBase⟩
    · exact ⟨by constructor <;> rfl, rfl, rfl, rfl⟩

/-- The state in which a round of the send loop calls `transmit`. -/
def breakNext (s : PseudoTcp) : PseudoTcp :=
  { s with out := s.out.breakSegment s.out.firstUnsent s.available }

theorem sendLoop_induct {P : PseudoTcp → Prop}
    (hack : ∀ s sflags, P s → P (sendAck env sflags s))
    (hsend : ∀ s, P s → s.available ≠ 0 →
      P (transmit env s.out.firstUnsent env.sendNow s.breakNext).2) :
    ∀ (fuel : ℕ) (sflags : SendFlags) (s : PseudoTcp), P s → P (sendLoop env fuel sflags s)
  | 0, _, _, h => h
  | fuel + 1, sflags, s, h => by
    rw [sendLoop]
    split
    · exact hack s sflags h
    · rename_i hav
      split
      · exact h
      · have ht := hsend s h hav
        rw [breakNext] at ht
        dsimp only
        split
        · rename_i t heq
          rwa [heq] at ht
        · rename_i t heq
          rw [heq] at ht
          exact sendLoop_induct hack hsend fuel .none t ht

theorem attemptSend_induct {P : PseudoTcp → Prop}
    (hidle : ∀ s, P s → P { s with cc := { s.cc with cwnd := s.cc.mss } })
    (hack : ∀ s sflags, P s → P (sendAck env sflags s))
    (hsend : ∀ s, P s → s.available ≠ 0 →
      P (transmit env s.out.firstUnsent env.sendNow s.breakNext).2)
    (sflags : SendFlags) (h : P s) : P (attemptSend env sflags s) := by
  refine sendLoop_induct hack hsend _ sflags _ ?_
  rw [restartIdle]
  split
  · exact hidle s h
  · exact h

theorem attemptSend_frame (env : Env) (sflags : SendFlags) (s : PseudoTcp) :
    SendFrame s (attemptSend env sflags s) :=
  attemptSend_induct (P := SendFrame s)
    (fun _ h => h.trans (by constructor <;> rfl))
    (fun t f h => h.trans (sendAck_frame env f t).1)
    (fun t h _ => (h.trans (t := t) (by constructor <;> rfl)).trans
      (transmit_frame env t.out.firstUnsent env.sendNow t.breakNext))
    sflags (.refl s)

end PseudoTcp

end Jingle
