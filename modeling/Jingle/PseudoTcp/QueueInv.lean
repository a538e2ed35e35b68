/-
The representation invariant of the send queue over whole runs.

`QueueInv aligned clocked s` holds in every open state of every run.  It has
two parts that a run must earn: that the segments tile the queue needs
acknowledgements on segment boundaries (`aligned`), and that data in flight has
a retransmit timer needs clock readings that are not zero (`clocked`), since
zero stands for a timer that is off.

The invariant is checked against the moves, the acknowledgement, the control
byte and `queue`, and then against a whole call.
-/
import Jingle.PseudoTcp.Moves
import Jingle.PseudoTcp.SendQueue

namespace Jingle

namespace PseudoTcp

variable {aligned clocked : Prop} {env : Env} {now : Word} {seg : Segment} {s t : PseudoTcp}

/-- The send queue of an open connection. -/
structure QueueInv (aligned clocked : Prop) (s : PseudoTcp) : Prop where
  counted : ∃ sent unsent, s.out.Counted sent unsent
  tiled : aligned → s.out.Tiled
  listen : s.state = .listen → s.out.slist = []
  /-- The recovery point is not ahead of what was sent, unless the sequence
  numbers have wrapped around. -/
  recover : s.out.sndUna ≤ s.out.sndNxt → s.cc.recover ≤ s.out.sndNxt
  timer : s.tm.rtoBase ≠ 0 → s.out.sndUna ≠ s.out.sndNxt
  armed : clocked → s.out.sndUna ≠ s.out.sndNxt → s.tm.rtoBase ≠ 0

/-- What may happen to the send queue: `transmit` reads inside it, no iterator
runs off the list, and no list that should hold data is empty. -/
def QueueEvent (aligned : Prop) : Event → Prop
  | .sbufRead off len slen => aligned → off < slen ∧ off.toNat + len.toNat ≤ slen.toNat
  | .derefEnd => False
  | .assertFailed .emptyRetransmit => False
  | .assertFailed .ackedInList => False
  | _ => True

/-- The invariant of a run: the queue while the connection is open, and every
event of the last call. -/
def QueueSafe (aligned clocked : Prop) (s : PseudoTcp) : Prop :=
  (∀ e ∈ s.log, QueueEvent aligned e) ∧ (s.state ≠ .closed → QueueInv aligned clocked s)

namespace QueueInv

theorem congr (h : QueueInv aligned clocked s) (hslist : t.out.slist = s.out.slist)
    (hnxt : t.out.sndNxt = s.out.sndNxt) (hslen : t.out.slen = s.out.slen)
    (huna : t.out.sndUna = s.out.sndUna) (hst : t.state = .listen → s.state = .listen)
    (hrec : t.cc.recover = s.cc.recover) (hrto : t.tm.rtoBase = s.tm.rtoBase) :
    QueueInv aligned clocked t where
  counted := by
    obtain ⟨sent, unsent, hc⟩ := h.counted
    refine ⟨sent, unsent, ?_, hc.xmitSent, hc.xmitUnsent, ?_, ?_, ?_, hc.lastSent, hc.lastUnsent,
      hc.ctrl⟩
    · rw [hslist, hc.slist]
    · rw [hnxt, huna, hc.inFlight]
    · rw [hslen, hc.slen]
    · rw [hslen]
      exact hc.size
  tiled ha := by
    rw [Outgoing.Tiled, huna, hslist]
    exact h.tiled ha
  listen hl := hslist.trans (h.listen (hst hl))
  recover := by
    rw [huna, hnxt, hrec]
    exact h.recover
  timer := by
    rw [huna, hnxt, hrto]
    exact h.timer
  armed := by
    rw [huna, hnxt, hrto]
    exact h.armed

theorem congr_out (h : QueueInv aligned clocked s) (hout : t.out = s.out)
    (hst : t.state = .listen → s.state = .listen) (hrec : t.cc.recover = s.cc.recover)
    (hrto : t.tm.rtoBase = s.tm.rtoBase) : QueueInv aligned clocked t :=
  h.congr (by rw [hout]) (by rw [hout]) (by rw [hout]) (by rw [hout]) hst hrec hrto

theorem sent_ne_nil {sent unsent : List SSegment} (hc : s.out.Counted sent unsent)
    (h : s.out.sndUna ≠ s.out.sndNxt) : ∃ g rest, sent = g :: rest := by
  rcases sent with _ | ⟨g, rest⟩
  · have := hc.inFlight
    rw [total_nil] at this
    bv_omega
  · exact ⟨g, rest, rfl⟩

theorem inFlight_of_guard (h : QueueInv aligned clocked s)
    (hg : s.out.sndUna ≠ s.out.sndNxt ∨ s.out.sndUna < s.cc.recover ∨ s.tm.rtoBase ≠ 0) :
    s.out.sndUna ≠ s.out.sndNxt := by
  rcases hg with hg | hg | hg
  · exact hg
  · intro heq
    have := h.recover (BitVec.le_of_eq heq)
    bv_omega
  · exact h.timer hg

/-! ### `transmit` -/

theorem tryEvent_ok {g : SSegment} {n : Word}
    (hoff : aligned → (g.seq - s.out.sndUna) < s.out.slen ∧
      (g.seq - s.out.sndUna).toNat + n.toNat ≤ s.out.slen.toNat) {e : Event}
    (he : TryEvent s g n e) : QueueEvent aligned e := by
  cases he with
  | read m hm =>
    intro ha
    have := hoff ha
    have hm' : m.toNat ≤ n.toNat := hm
    exact ⟨this.1, by omega⟩
  | oversize => trivial
  | write => trivial

theorem transmit_again (env : Env) (now : Word) (h : QueueInv aligned clocked s)
    (hne : s.out.sndUna ≠ s.out.sndNxt) :
    QueueInv aligned clocked (transmit env 0 now s).2 ∧
      LogAdds (QueueEvent aligned) s (transmit env 0 now s).2 := by
  obtain ⟨sent, unsent, hc⟩ := h.counted
  obtain ⟨g, rest, rfl⟩ := sent_ne_nil hc hne
  have hget : s.out.slist[0]? = some g := by
    rw [hc.slist]
    rfl
  have hev : ∀ e, TryEvent s g (minOf g.len s.cc.mss) e → QueueEvent aligned e := by
    refine fun e => tryEvent_ok fun ha => ?_
    have ht := h.tiled ha
    rw [Outgoing.Tiled, hc.slist] at ht
    have h0 : (g.seq - s.out.sndUna).toNat = 0 := by
      rw [ht.1]
      simp
    have hfl := hc.inFlight
    have hsl := hc.slen
    rw [total_cons] at hfl hsl
    rw [toNat_minOf, BitVec.lt_def, h0]
    refine ⟨?_, by omega⟩
    bv_omega
  rcases htr : transmit env 0 now s with ⟨b, t⟩
  cases transmit_cases htr with
  | noSegment hn => exact absurd (hget.symm.trans hn) (by simp)
  | tooMany => exact ⟨h, .refl s⟩
  | failed g' _ hg _ hw _ =>
    obtain rfl : g = g' := Option.some.inj (hget.symm.trans hg)
    exact ⟨h.congr_out hw.out (fun hl => hw.frame.state ▸ hl) hw.frame.recover hw.rtoBase,
      hw.log.mono hev⟩
  | sent g' n u hg hx hw _ =>
    obtain rfl : g = g' := Option.some.inj (hget.symm.trans hg)
    have hn : n ≤ g.len := BitVec.le_trans (hw.le n rfl) (by rw [BitVec.le_def, toNat_minOf]; omega)
    have hx1 : g.xmit + 1 ≠ 0 := by
      simp only [maxXmit] at hx
      split at hx <;> bv_omega
    have hgx : g.xmit ≠ 0 := hc.xmitSent g List.mem_cons_self
    have hnxt := Outgoing.transmitted_sndNxt (o := u.out) (i := 0) hn
    rw [if_neg hgx, hw.out] at hnxt
    have hrto : ∀ x : Word, x ≠ 0 → (if x = 0 then now else x) = x := fun x hx => if_neg hx
    have hcu : u.out.Counted ([] ++ g :: rest) unsent := hw.out ▸ hc
    refine ⟨⟨⟨_, _, hcu.transmitted_sent hn hx1⟩, fun ha => ?_, fun hl => ?_, fun hle => ?_,
      fun hr => ?_, fun hcl _ => ?_⟩, ?_⟩
    · exact (hw.out ▸ h.tiled ha : u.out.Tiled).transmitted (by rw [hw.out]; exact hget) hn
    · have := h.listen (hw.frame.state ▸ hl)
      rw [this] at hget
      exact absurd hget (by simp)
    · show u.cc.recover ≤ (u.out.transmitted 0 g n).sndNxt
      rw [hw.out, hnxt, hw.frame.recover]
      refine h.recover ?_
      rw [← hnxt]
      simpa [hw.out, Outgoing.transmitted] using hle
    · show u.out.sndUna ≠ (u.out.transmitted 0 g n).sndNxt
      rw [hw.out, hnxt]
      exact hne
    · have hr0 := h.armed hcl hne
      show (if u.tm.rtoBase = 0 then now else u.tm.rtoBase) ≠ 0
      rw [hw.rtoBase, hrto _ hr0]
      exact hr0
    · exact (hw.log.mono hev).trans (.of_log_eq rfl)

theorem available_le (s : PseudoTcp) :
    s.available ≤ s.out.slen - s.inFlight ∧ s.available ≤ s.cc.mss ∧ s.available ≤ s.useable := by
  simp only [available]
  have hmin := toNat_minOf (s.out.slen - s.inFlight) s.cc.mss
  generalize minOf (s.out.slen - s.inFlight) s.cc.mss = n at hmin ⊢
  generalize s.out.slen - s.inFlight = a at hmin ⊢
  split
  · split <;> refine ⟨?_, ?_, ?_⟩ <;> bv_omega
  · refine ⟨?_, ?_, ?_⟩ <;> bv_omega

/-- Where there is something to send, the first untransmitted segment, cut to
what may be sent, is not empty. -/
theorem next_segment {sent unsent : List SSegment} (hc : s.out.Counted sent unsent)
    (hav : s.available ≠ 0) : ∃ g rest, unsent = g :: rest ∧ g.len ≠ 0 := by
  have hle := (available_le s).1
  have hfl := hc.inFlight_le
  have hpos : total SSegment.len unsent ≠ 0 := by
    have hsl := hc.slen
    have hfl' := hc.inFlight
    simp only [inFlight] at hle
    generalize hd : s.out.sndNxt - s.out.sndUna = d at hle hfl hfl'
    bv_omega
  rcases unsent with _ | ⟨g, rest⟩
  · exact absurd total_nil hpos
  · refine ⟨g, rest, rfl, ?_⟩
    rcases rest with _ | ⟨g', rest⟩
    · simp only [total_cons, total_nil] at hpos
      bv_omega
    · exact hc.lastUnsent g (by simp)

theorem breakNext_frame (s : PseudoTcp) :
    s.breakNext.out.sndUna = s.out.sndUna ∧ s.breakNext.out.sndNxt = s.out.sndNxt ∧
      s.breakNext.out.slen = s.out.slen ∧ s.breakNext.out.sbuf = s.out.sbuf ∧
      s.breakNext.out.sndWnd = s.out.sndWnd := by
  simp only [breakNext, Outgoing.breakSegment]
  split
  · exact ⟨rfl, rfl, rfl, rfl, rfl⟩
  · split <;> exact ⟨rfl, rfl, rfl, rfl, rfl⟩

theorem transmit_next (env : Env) (h : QueueInv aligned clocked s) (hav : s.available ≠ 0)
    (hnow : clocked → now ≠ 0) :
    QueueInv aligned clocked (transmit env s.out.firstUnsent now s.breakNext).2 ∧
      LogAdds (QueueEvent aligned) s (transmit env s.out.firstUnsent now s.breakNext).2 := by
  obtain ⟨sent, unsent, hc₀⟩ := h.counted
  obtain ⟨g₀, rest₀, rfl, hg₀⟩ := next_segment hc₀ hav
  have hi : s.out.firstUnsent = sent.length := hc₀.firstUnsent_eq (by simp)
  obtain ⟨g, rest, hc, hgle, hg0⟩ := hc₀.breakSegment hg₀ hav
  change s.breakNext.out.Counted sent (g :: rest) at hc
  obtain ⟨huna, hnxt, hslen, -, -⟩ := breakNext_frame s
  have htiled : aligned → s.breakNext.out.Tiled := fun ha => (h.tiled ha).breakSegment hc₀
  have hget : s.breakNext.out.slist[sent.length]? = some g := by
    rw [hc.slist]
    simp
  have hmss : s.cc.mss ≠ 0 := by
    have := (available_le s).2.1
    bv_omega
  have hb : QueueInv aligned clocked s.breakNext := by
    refine ⟨⟨_, _, hc⟩, htiled, fun hl => ?_, ?_, ?_, ?_⟩
    · have := h.listen hl
      rw [hc₀.slist] at this
      simp at this
    · rw [huna, hnxt]
      exact h.recover
    · rw [huna, hnxt]
      exact h.timer
    · rw [huna, hnxt]
      exact h.armed
  have hslen_le := hc.slen_le
  have hev : ∀ e, TryEvent s.breakNext g (minOf g.len s.breakNext.cc.mss) e →
      QueueEvent aligned e := by
    refine fun e => tryEvent_ok fun ha => ?_
    have ht := htiled ha
    rw [Outgoing.Tiled, hc.slist] at ht
    have hsl := hc.slen
    have hoff := ht.offset (by omega)
    rw [total_cons] at hsl
    rw [BitVec.lt_def, toNat_minOf, hoff]
    refine ⟨?_, by omega⟩
    bv_omega
  have hlog : LogAdds (QueueEvent aligned) s s.breakNext := .of_log_eq rfl
  rw [hi]
  rcases htr : transmit env sent.length now s.breakNext with ⟨b, t⟩
  cases transmit_cases htr with
  | noSegment hn => exact absurd (hget.symm.trans hn) (by simp)
  | tooMany => exact ⟨hb, hlog⟩
  | failed g' _ hg _ hw _ =>
    obtain rfl : g = g' := Option.some.inj (hget.symm.trans hg)
    exact ⟨hb.congr_out hw.out (fun hl => hw.frame.state ▸ hl) hw.frame.recover hw.rtoBase,
      hlog.trans (hw.log.mono hev)⟩
  | sent g' n u hg hx hw _ =>
    obtain rfl : g = g' := Option.some.inj (hget.symm.trans hg)
    have hn : n ≤ g.len := BitVec.le_trans (hw.le n rfl) (by rw [BitVec.le_def, toNat_minOf]; omega)
    have hn0 : n ≠ 0 := by
      intro h0
      have := congrArg BitVec.toNat (hw.pos n rfl h0)
      rw [toNat_minOf] at this
      have hm : s.breakNext.cc.mss ≠ 0 := hmss
      bv_omega
    have hcu : u.out.Counted sent (g :: rest) := hw.out ▸ hc
    have hct := hcu.transmitted_unsent hn hn0
    have hgx : g.xmit = 0 := hc.xmitUnsent g List.mem_cons_self
    have hnxt' := Outgoing.transmitted_sndNxt (o := u.out) (i := sent.length) hn
    rw [if_pos hgx, hw.out] at hnxt'
    have hfl := hc.inFlight
    have hfl' := hct.inFlight
    simp only [total_append, total_cons, total_nil] at hfl'
    have hne : u.out.sndUna ≠ (u.out.transmitted sent.length g n).sndNxt := by
      intro heq
      change _ = ((u.out.transmitted sent.length g n).sndNxt - u.out.sndUna).toNat at hfl'
      rw [← heq, BitVec.sub_self] at hfl'
      bv_omega
    refine ⟨⟨⟨_, _, hct⟩, fun ha => ?_, fun hl => ?_, fun hle => ?_, fun _ => hne,
      fun hcl _ => ?_⟩, hlog.trans ((hw.log.mono hev).trans (.of_log_eq rfl))⟩
    · exact (hw.out ▸ htiled ha : u.out.Tiled).transmitted (by rw [hw.out]; exact hget) hn
    · have := hb.listen (hw.frame.state ▸ hl)
      rw [hc.slist] at this
      simp at this
    · -- without a wrap the old end is between the two new ones
      have hle' : u.out.sndUna ≤ (u.out.transmitted sent.length g n).sndNxt := hle
      change u.cc.recover ≤ (u.out.transmitted sent.length g n).sndNxt
      have hrec := hb.recover
      have hsz := hc.slen
      rw [total_cons] at hsz
      rw [hw.out, hnxt'] at hle' ⊢
      rw [hw.frame.recover]
      have hold : s.breakNext.out.sndUna ≤ s.breakNext.out.sndNxt := by bv_omega
      have := hrec hold
      bv_omega
    · show (if u.tm.rtoBase = 0 then now else u.tm.rtoBase) ≠ 0
      split
      · exact hnow hcl
      · rename_i hr
        exact hr

end QueueInv

/-! ### The invariant through the phases of a call -/

namespace QueueSafe

theorem of_logAdds (h : QueueSafe aligned clocked s) (hl : LogAdds (QueueEvent aligned) s t)
    (hi : t.state ≠ .closed → QueueInv aligned clocked t) : QueueSafe aligned clocked t := by
  refine ⟨fun e he => ?_, hi⟩
  rcases hl.mem he with he | he
  · exact h.1 e he
  · exact he

theorem quiet (h : QueueSafe aligned clocked s) (hl : LogAdds (QueueEvent aligned) s t)
    (hout : t.out = s.out) (hst : t.state = s.state) (hrec : t.cc.recover = s.cc.recover)
    (hrto : t.tm.rtoBase = s.tm.rtoBase) : QueueSafe aligned clocked t :=
  h.of_logAdds hl fun ho => (h.2 (hst ▸ ho)).congr_out hout (fun hs => hst ▸ hs) hrec hrto

theorem opened (h : QueueSafe aligned clocked s) (ho : s.state ≠ .closed) :
    QueueSafe aligned clocked s.opened :=
  h.of_logAdds (LogAdds.trans (t := { s with state := .established }.adjustMTU) (.of_log_eq rfl)
    (.note trivial)) fun _ => (h.2 ho).congr_out rfl (by simp) rfl rfl

theorem move (h : QueueSafe aligned clocked s) (ho : s.state ≠ .closed)
    (hnow : clocked → now ≠ 0) (hsend : clocked → env.sendNow ≠ 0) (hm : Move env now s t) :
    QueueSafe aligned clocked t := by
  have hq := h.2 ho
  cases hm with
  | idle => exact h.quiet (.of_log_eq rfl) rfl rfl rfl rfl
  | pureAck seq =>
    have hp := packet_spec env seq 0 none s
    refine h.quiet (hp.log.mono fun e he => ?_) hp.out hp.frame.state hp.frame.recover hp.rtoBase
    cases he <;> trivial
  | armAck => exact h.quiet (.of_log_eq rfl) rfl rfl rfl rfl
  | sendNext hav =>
    obtain ⟨hi, hl⟩ := hq.transmit_next env hav hsend
    exact h.of_logAdds hl fun _ => hi
  | retransmit hg =>
    obtain ⟨hi, hl⟩ := hq.transmit_again env now (hq.inFlight_of_guard hg)
    exact h.of_logAdds hl fun _ => hi
  | closedown err =>
    refine h.of_logAdds ?_ (by simp [PseudoTcp.closedown])
    exact LogAdds.trans (t := { s with out := { s.out with slen := 0 }, state := .closed })
      (.of_log_eq rfl) (.note trivial)
  | exitRecovery => exact h.quiet (.of_log_eq rfl) rfl rfl rfl rfl
  | setDup n => exact h.quiet (.of_log_eq rfl) rfl rfl rfl rfl
  | enterRecovery =>
    refine h.of_logAdds (.of_log_eq rfl) fun _ => ?_
    exact ⟨hq.counted, hq.tiled, hq.listen, fun _ => BitVec.le_refl _, hq.timer, hq.armed⟩
  | opened _ _ => exact h.opened ho
  | writeable =>
    rw [notifyWriteable]
    split
    · exact h.quiet (LogAdds.trans (t := { s with bWriteEnable := false }) (.of_log_eq rfl)
        (.note trivial)) rfl rfl rfl rfl
    · exact h
  | readable b =>
    rw [notifyReadable]
    split
    · exact h.quiet (LogAdds.trans (t := { s with bReadEnable := false }) (.of_log_eq rfl)
        (.note trivial)) rfl rfl rfl rfl
    · exact h
  | emptyRetransmit hr hnil =>
    -- an armed timer means data in flight, and that is in the list
    obtain ⟨sent, unsent, hc⟩ := hq.counted
    obtain ⟨g, rest, rfl⟩ := QueueInv.sent_ne_nil hc (hq.timer hr)
    rw [hc.slist] at hnil
    exact absurd hnil (by simp)
  | backOff hr =>
    refine h.of_logAdds (.of_log_eq rfl) fun _ => ?_
    exact ⟨hq.counted, hq.tiled, hq.listen, hq.recover, fun _ => hq.timer hr,
      fun hc _ => hnow hc⟩
  | probed => exact h.quiet (.of_log_eq rfl) rfl rfl rfl rfl

theorem grow (h : QueueSafe aligned clocked s) (hg : Grow s t) : QueueSafe aligned clocked t := by
  cases hg with
  | deflate _ => exact h.quiet (.of_log_eq rfl) rfl rfl rfl rfl
  | inflate => exact h.quiet (.of_log_eq rfl) rfl rfl rfl rfl
  | slowStart => exact h.quiet (.of_log_eq rfl) rfl rfl rfl rfl
  | avoid =>
    split
    · exact h.quiet ((LogAdds.note (e := .divByZero) trivial).trans (.of_log_eq rfl)) rfl rfl rfl
        rfl
    · exact h.quiet (.of_log_eq rfl) rfl rfl rfl rfl

theorem moves (h : QueueSafe aligned clocked s) (hnow : clocked → now ≠ 0)
    (hsend : clocked → env.sendNow ≠ 0) (hm : Moves env now s t) : QueueSafe aligned clocked t :=
  hm.invariant (fun _ _ hs ho hstep => hs.move ho hnow hsend hstep) h

theorem controls (h : QueueSafe aligned clocked s) (hnow : clocked → now ≠ 0)
    (hsend : clocked → env.sendNow ≠ 0) (hm : Controls env now s t) :
    QueueSafe aligned clocked t :=
  hm.invariant (fun _ _ hs ho hstep => hs.move ho hnow hsend hstep)
    (fun _ _ hs _ hg => hs.grow hg) h

theorem ackAdvance (h : QueueSafe aligned clocked s) (ho : s.state ≠ .closed)
    (hnow : clocked → env.now ≠ 0) (ha : s.out.Acks seg.ack)
    (hb : aligned → s.out.OnBoundary seg.ack) : QueueSafe aligned clocked (s.ackAdvance env seg) := by
  have hq := h.2 ho
  obtain ⟨sent, unsent, hc⟩ := hq.counted
  obtain ⟨rttvar, srtt, rto, es, hadv, hes, -⟩ := ackAdvance_spec env seg s
  have hfreed : (freeAcked (seg.ack - s.out.sndUna) s.cc.largest s.out.slist).2.2 = true := by
    obtain ⟨sent', -, hf, -⟩ := hc.freeAcked ha s.cc.largest
    exact hf
  rw [hadv]
  refine h.of_logAdds ⟨es, rfl, fun e he => ?_⟩ fun _ => ?_
  · rcases hes e he with rfl | ⟨-, hf⟩
    · trivial
    · rw [hfreed] at hf
      exact absurd hf (by simp)
  · obtain ⟨sent', hc'⟩ := hc.acknowledge ha seg.wnd s.cc.largest
    refine ⟨⟨_, _, hc'⟩, fun hal => (hq.tiled hal).acknowledge (hb hal) _ _, fun hl => ?_, fun _ => ?_,
      fun hr => ?_, fun hcl hne => ?_⟩
    · -- an empty queue has nothing to acknowledge
      have hnil := hq.listen hl
      rw [hc.slist, List.append_eq_nil_iff] at hnil
      have hfl := hc.inFlight
      rw [hnil.1, total_nil] at hfl
      have := ha.le_inFlight
      obtain ⟨h₁, -⟩ := ha
      bv_omega
    · refine hq.recover ?_
      obtain ⟨h₁, h₂⟩ := ha
      exact BitVec.le_trans (BitVec.le_of_lt h₁) h₂
    · change (if seg.ack = s.out.sndNxt then (0 : Word) else env.now) ≠ 0 at hr
      show seg.ack ≠ s.out.sndNxt
      intro heq
      rw [if_pos heq] at hr
      exact hr rfl
    · have hne : seg.ack ≠ s.out.sndNxt := hne
      show (if seg.ack = s.out.sndNxt then (0 : Word) else env.now) ≠ 0
      rw [if_neg hne]
      exact hnow hcl

theorem setWindow (h : QueueSafe aligned clocked s) (wnd : BitVec 16) :
    QueueSafe aligned clocked (s.setWindow wnd) :=
  h.of_logAdds (.of_log_eq rfl) fun ho => (h.2 ho).congr rfl rfl rfl rfl (fun hl => hl) rfl rfl

theorem ackRun (h : QueueSafe aligned clocked s) (ho : s.state ≠ .closed)
    (hnow : clocked → env.now ≠ 0) (hsend : clocked → env.sendNow ≠ 0)
    (hb : aligned → s.out.Acks seg.ack → s.out.OnBoundary seg.ack) (hr : AckRun env seg s t) :
    QueueSafe aligned clocked t := by
  cases hr with
  | ignored => exact h
  | valuable _ h₁ h₂ hc =>
    exact (h.ackAdvance ho hnow ⟨h₁, h₂⟩ fun ha => hb ha ⟨h₁, h₂⟩).controls hnow hsend hc
  | duplicate _ _ hc => exact (h.setWindow seg.wnd).controls hnow hsend hc

theorem processData (h : QueueSafe aligned clocked s) :
    QueueSafe aligned clocked (s.processData seg).2.2 := by
  obtain ⟨es, hd, hev⟩ := processData_spec seg s
  rw [hd]
  refine h.quiet ⟨es, rfl, fun e he => ?_⟩ rfl rfl rfl rfl
  cases (hev e he).1 <;> trivial

theorem queue (h : QueueSafe aligned clocked s) {data : List Byte} {len : Word} {bCtrl : Bool}
    (st : TcpState) (ho : s.state ≠ .closed) (hst : st ≠ .listen)
    (hctrl : bCtrl = true → s.state = .listen ∧ len = 1) :
    QueueSafe aligned clocked ({ s with state := st }.queue data len bCtrl).2 := by
  have hq := h.2 ho
  obtain ⟨sent, unsent, hc⟩ := hq.counted
  obtain ⟨l, hqueue, hl⟩ := queue_spec data len bCtrl { s with state := st }
  have hslen := hc.slen_le
  have hfit : s.out.slen.toNat + (s.out.fit len).toNat ≤ kSndBufSize.toNat := by
    rw [Outgoing.fit, Outgoing.kSndBufSize_toNat, kSndBufSize]
    split <;> bv_omega
  -- a control byte is queued into an empty queue, where it fits
  have hempty : bCtrl = true → s.out.slen = 0 := by
    intro hb
    have hnil := hq.listen (hctrl hb).1
    have hsl := hc.slen
    rw [hc.slist, List.append_eq_nil_iff] at hnil
    rw [hnil.1, hnil.2, total_nil] at hsl
    bv_omega
  obtain ⟨unsent', hc'⟩ := hc.enqueue bCtrl hfit (fun hb => by
    refine ⟨hq.listen (hctrl hb).1, ?_⟩
    rw [Outgoing.fit, hempty hb, (hctrl hb).2]
    decide) data
  rw [hqueue]
  refine h.of_logAdds ?_ fun _ => ?_
  · rcases hl with rfl | ⟨rfl, -, -⟩
    · exact .of_log_eq rfl
    · refine ⟨[.assertFailed .controlFits], rfl, fun e he => ?_⟩
      rw [List.mem_singleton.mp he]
      trivial
  · exact ⟨⟨_, _, hc'⟩, fun ha => (hq.tiled ha).enqueue hc data, fun hl => absurd hl hst,
      hq.recover, hq.timer, hq.armed⟩

theorem control {bConnect : Bool} (h : QueueSafe aligned clocked s) (ho : s.state ≠ .closed)
    (hc : ControlCase seg s bConnect t) : QueueSafe aligned clocked t := by
  cases hc with
  | data => exact h
  | again => exact h
  | accept _ _ hl => exact h.queue _ ho (by simp) fun _ => ⟨hl, rfl⟩
  | connected => exact h.opened ho

end QueueSafe

/-! ### Runs -/

/-- The clock readings of a call are not zero. -/
def Ticking (env : Env) (op : Op) : Prop :=
  env.now ≠ 0 ∧ env.sendNow ≠ 0 ∧ env.ackNow ≠ 0 ∧ (∀ n, env.packetNow n ≠ 0) ∧
    ∀ now, op = .notifyClock now → now ≠ 0

/-- A packet that acknowledges new data does so up to a segment boundary. -/
def AckAligned (s : PseudoTcp) (op : Op) : Prop :=
  ∀ buffer seg, op = .notifyPacket buffer → buffer.length ≤ maxPacket.toNat →
    parseSegment buffer = some seg → s.TakesUp seg →
    s.out.Acks seg.ack → s.out.OnBoundary seg.ack

theorem init_queueSafe (h : IsInit s) : QueueSafe aligned clocked s := by
  obtain ⟨rbuf, sbuf, now, conv, rfl⟩ := h
  have hc : (init rbuf sbuf now conv).out.Counted [] [] :=
    ⟨rfl, by simp, by simp, by simp [init], by simp [init], by simp [init], by simp, by simp,
      by simp⟩
  exact ⟨by simp [init], fun _ => ⟨⟨_, _, hc⟩, fun _ => trivial, fun _ => rfl,
    fun _ => BitVec.le_refl _, fun hr => absurd rfl hr, fun _ hne => absurd rfl hne⟩⟩

theorem process_queueSafe {b : Bool} (h : QueueSafe aligned clocked s)
    (hnow : clocked → env.now ≠ 0) (hsend : clocked → env.sendNow ≠ 0)
    (hb : aligned → s.TakesUp seg → s.out.Acks seg.ack → s.out.OnBoundary seg.ack)
    (hrun : ProcessRun env seg s b t) : QueueSafe aligned clocked t := by
  have htouch : QueueSafe aligned clocked (s.touch env) :=
    h.quiet (.of_log_eq rfl) rfl rfl rfl rfl
  -- the acknowledgement is judged after the control byte, which changes an empty queue only
  have hmid : ∀ bConnect u, s.state ≠ .closed → ControlCase seg (s.touch env) bConnect u →
      QueueSafe aligned clocked (u.updateTimestamp seg) ∧
      (u.updateTimestamp seg).state ≠ .closed ∧
      ((u.updateTimestamp seg).out.Acks seg.ack → (u.updateTimestamp seg).out = s.out) := by
    intro bConnect u ho hc
    obtain ⟨ts, hts⟩ := updateTimestamp_frame seg u
    rw [hts]
    refine ⟨(htouch.control ho hc).quiet (.of_log_eq rfl) rfl rfl rfl rfl, hc.open ho, fun ha => ?_⟩
    cases hc with
    | data => rfl
    | again => rfl
    | connected => rfl
    | accept _ _ hl =>
      obtain ⟨l, hqueue, -⟩ := queue_spec [ctlConnect] 1 true
        { s.touch env with state := .synReceived }
      rw [hqueue] at ha
      have hq := h.2 ho
      obtain ⟨sent, unsent, hc⟩ := hq.counted
      have hnil := hq.listen hl
      have hfl := hc.inFlight
      rw [hc.slist, List.append_eq_nil_iff] at hnil
      rw [hnil.1, total_nil] at hfl
      obtain ⟨h₁, h₂⟩ := ha
      change s.out.sndUna < seg.ack at h₁
      change seg.ack ≤ s.out.sndNxt at h₂
      bv_omega
  cases hrun with
  | wrongConv => exact h
  | touched => exact htouch
  | reset _ ho _ =>
    have hm : Move env env.now (s.touch env) ((s.touch env).closedown .econnreset) := .closedown _
    exact htouch.move ho hnow hsend hm
  | failed bConnect u _ htake hctl hack _ =>
    obtain ⟨hu, huo, hout⟩ := hmid bConnect u htake.2.1 hctl
    exact hu.ackRun huo hnow hsend (fun ha hk => hout hk ▸ hb ha htake (hout hk ▸ hk)) hack
  | done bConnect u v _ htake hctl hack _ hm =>
    obtain ⟨hu, huo, hout⟩ := hmid bConnect u htake.2.1 hctl
    exact (hu.ackRun huo hnow hsend (fun ha hk => hout hk ▸ hb ha htake (hout hk ▸ hk))
      hack).processData.moves hnow hsend hm

theorem step_queueSafe (h : QueueSafe aligned clocked s) {op : Op}
    (htick : clocked → Ticking env op) (hack : aligned → AckAligned s op) :
    QueueSafe aligned clocked (step env op s).2 := by
  set s₀ : PseudoTcp := { s with log := [] } with hs₀
  have h₀ : QueueSafe aligned clocked s₀ :=
    ⟨by simp [hs₀], fun ho => (h.2 ho).congr_out rfl (fun hl => hl) rfl rfl⟩
  have hnow : clocked → env.now ≠ 0 := fun hc => (htick hc).1
  have hsend : clocked → env.sendNow ≠ 0 := fun hc => (htick hc).2.1
  have hcall := step_call env op s
  rw [← hs₀] at hcall
  generalize (step env op s).1 = r at hcall
  generalize (step env op s).2 = t at hcall ⊢
  cases hcall with
  | connectAgain _ => exact h₀.quiet (.of_log_eq rfl) rfl rfl rfl rfl
  | connect _ hl hm =>
    exact (h₀.queue .synSent (by rw [hl]; simp) (by simp) fun _ => ⟨hl, rfl⟩).moves hnow hsend hm
  | sendNot _ _ => exact h₀.quiet (.of_log_eq rfl) rfl rfl rfl rfl
  | sendFull _ _ _ => exact h₀.quiet (.of_log_eq rfl) rfl rfl rfl rfl
  | send data _ hst hm =>
    exact (h₀.queue s₀.state (by rw [hst]; simp) (by rw [hst]; simp) (by simp)).moves
      hnow hsend hm
  | recvNot _ _ => exact h₀.quiet (.of_log_eq rfl) rfl rfl rfl rfl
  | recvEmpty _ _ _ => exact h₀.quiet (.of_log_eq rfl) rfl rfl rfl rfl
  | recv len l _ hst hne hl ht =>
    have hlog : LogAdds (QueueEvent aligned) s₀ { s₀ with log := l } := by
      rcases hl with rfl | ⟨rfl, -⟩
      · exact .refl s₀
      · exact .note (e := .assertFailed .readPosition) trivial
    rcases ht with rfl | hm
    · exact h₀.quiet (hlog.trans (.of_log_eq rfl)) rfl rfl rfl rfl
    · refine QueueSafe.moves ?_ hnow hsend hm
      exact h₀.quiet (hlog.trans (.of_log_eq rfl)) rfl rfl rfl rfl
  | close force => exact h₀.quiet (.of_log_eq rfl) rfl rfl rfl rfl
  | setOption opt value => cases opt <;> exact h₀.quiet (.of_log_eq rfl) rfl rfl rfl rfl
  | notifyMTU mtu =>
    rw [PseudoTcp.notifyMTU]
    dsimp only
    split <;> exact h₀.quiet (.of_log_eq rfl) rfl rfl rfl rfl
  | notifyClock now _ hm => exact h₀.moves (fun hc => (htick hc).2.2.2.2 now rfl) hsend hm
  | badLength _ _ => exact h₀
  | shortHeader _ _ => exact h₀.quiet (.note trivial) rfl rfl rfl rfl
  | packet buffer seg b _ hlen hp hrun =>
    exact process_queueSafe h₀ hnow hsend (fun ha => hack ha buffer seg rfl hlen hp) hrun

theorem reachable_queueSafe {ok : PseudoTcp → Env → Op → Prop}
    (htick : clocked → ∀ s env op, ok s env op → Ticking env op)
    (hack : aligned → ∀ s env op, ok s env op → AckAligned s op) (h : Reachable ok s) :
    QueueSafe aligned clocked s := by
  refine Reach.invariant (I := QueueSafe aligned clocked) (fun s hs => init_queueSafe hs)
    (fun s t _ hs hn => ?_) s h
  obtain ⟨env, op, hok, rfl⟩ := hn
  exact step_queueSafe hs (fun hc => htick hc s env op hok) (fun ha => hack ha s env op hok)

/-! ### The representation of the send queue -/

end PseudoTcp

namespace Outgoing

/-- The segments tile `[m_snd_una, m_snd_una + m_slen)`, and exactly those
below `m_snd_nxt` have been transmitted. -/
structure Represents (o : Outgoing) : Prop where
  tiled : Tiles SSegment.seq SSegment.len o.sndUna o.slist
  total_eq : total SSegment.len o.slist = o.slen.toNat
  size : o.slen ≤ kSndBufSize
  transmitted : ∀ g ∈ o.slist,
    g.xmit ≠ 0 ↔ (g.seq - o.sndUna).toNat < (o.sndNxt - o.sndUna).toNat

theorem Counted.represents {o : Outgoing} {sent unsent : List SSegment}
    (h : Counted o sent unsent) (ht : Tiled o) : Represents o where
  tiled := ht
  total_eq := by
    rw [h.slist, total_append, h.slen]
  size := h.size
  transmitted := by
    intro g hg
    have hsl := h.slen
    have hsz := h.slen_le
    rw [Tiled, h.slist] at ht
    rw [← h.inFlight]
    rw [h.slist] at hg
    rcases List.mem_append.mp hg with hg | hg
    · -- the last transmitted segment is not empty, so none starts at the end
      refine ⟨fun _ => ?_, fun _ => h.xmitSent g hg⟩
      obtain ⟨p, q, rfl⟩ := List.append_of_mem hg
      rw [List.append_assoc, List.cons_append] at ht
      simp only [total_append, total_cons] at hsl ⊢
      rw [ht.offset (by omega)]
      have hpos : g.len.toNat + total SSegment.len q ≠ 0 := by
        rcases List.eq_nil_or_concat q with rfl | ⟨u, y, rfl⟩
        · have := h.lastSent g (by simp)
          rw [total_nil]
          bv_omega
        · have := h.lastSent y (by
            rw [List.concat_eq_append, ← List.cons_append, ← List.append_assoc,
              List.getLast?_concat])
          rw [List.concat_eq_append, total_append, total_cons]
          bv_omega
      omega
    · refine ⟨fun hx => absurd (h.xmitUnsent g hg) hx, fun hlt => ?_⟩
      obtain ⟨p, q, rfl⟩ := List.append_of_mem hg
      rw [← List.append_assoc] at ht
      simp only [total_append, total_cons] at hsl
      rw [ht.offset (by rw [total_append]; omega), total_append] at hlt
      omega

end Outgoing

namespace PseudoTcp

/-- **The send queue in every run.**  As long as acknowledgements fall on
segment boundaries, the segments of an open connection tile the queue, and
`transmit` reads inside it. -/
theorem sendQueue_represents {s : PseudoTcp} (h : Reachable (fun s _ op => AckAligned s op) s) :
    (s.state ≠ .closed → s.out.Represents) ∧
      ∀ off len slen, .sbufRead off len slen ∈ s.log → off < slen := by
  have hsafe : QueueSafe True False s :=
    reachable_queueSafe (fun hc => hc.elim) (fun _ _ _ _ hok => hok) h
  refine ⟨fun ho => ?_, fun off len slen hmem => (hsafe.1 _ hmem trivial).1⟩
  obtain ⟨sent, unsent, hc⟩ := (hsafe.2 ho).counted
  exact hc.represents ((hsafe.2 ho).tiled trivial)

/-- `Connect` queues and sends the control byte. -/
theorem sendQueue_represents_connect :
    Reachable (fun s _ op => AckAligned s op) (run [(.steady 1, .connect)] (.fresh 1 7)) ∧
      (run [(.steady 1, .connect)] (.fresh 1 7)).out.Represents := by
  have h : Reachable (fun s _ op => AckAligned s op) (run [(.steady 1, .connect)] (.fresh 1 7)) :=
    reachable_run _ _ (reachable_fresh 1 7) ⟨fun _ _ hop => absurd hop (by simp), trivial⟩
  exact ⟨h, (sendQueue_represents h).1 (by decide)⟩

/-- A connection is opened and sends two bytes in one segment; the peer
acknowledges the first of them, and the retransmit timer runs out. -/
def partialAckCalls : List (Env × Op) :=
  [(.steady 1, .connect),
   (.steady 1, .notifyPacket (header 7 0 1 flagCtl 1000 1 0 ++ [ctlConnect])),
   (.steady 1, .send [10, 20]),
   (.steady 1, .notifyPacket (header 7 1 2 0 1000 1 0)),
   (.steady 10000, .notifyClock 10000)]

/-- An acknowledgement inside a segment leaves the front segment with its old
`seq`, and the retransmission reads in front of `m_sbuf`. -/
theorem sendQueue_partial_ack :
    Reachable (fun _ _ op => WholePacket op) (run partialAckCalls (.fresh 1 7)) ∧
      (run partialAckCalls (.fresh 1 7)).state ≠ .closed ∧
      ¬ (run partialAckCalls (.fresh 1 7)).out.Represents ∧
      .sbufRead 0xFFFFFFFF 1 1 ∈ (run partialAckCalls (.fresh 1 7)).log := by
  refine ⟨?_, by decide, fun h => ?_, by decide⟩
  · refine reachable_run _ _ (reachable_fresh 1 7) ?_
    simp [partialAckCalls, Meets, WholePacket, header]
  · have hlist : (run partialAckCalls (.fresh 1 7)).out.slist
        = [{ seq := 1, len := 1, xmit := 2, bCtrl := false }] := by decide
    have huna : (run partialAckCalls (.fresh 1 7)).out.sndUna = 2 := by decide
    have ht := h.tiled
    rw [hlist, huna] at ht
    exact absurd ht.1 (by decide)

/-- **The retransmit timer.**  With a clock that never reads zero and
acknowledgements on segment boundaries, the timer of an open connection runs
exactly while data is in flight, the first segment is then one that was
transmitted, and `NotifyClock` never finds an empty list. -/
theorem retransmitTimer_iff {s : PseudoTcp}
    (h : Reachable (fun s env op => Ticking env op ∧ AckAligned s op) s) :
    (s.state ≠ .closed → (s.tm.rtoBase ≠ 0 ↔ s.out.sndUna ≠ s.out.sndNxt) ∧
      (s.tm.rtoBase ≠ 0 → ∃ g rest, s.out.slist = g :: rest ∧ g.xmit ≠ 0)) ∧
      .assertFailed .emptyRetransmit ∉ s.log := by
  have hsafe : QueueSafe True True s :=
    reachable_queueSafe (fun _ _ _ _ hok => hok.1) (fun _ _ _ _ hok => hok.2) h
  refine ⟨fun ho => ?_, fun hmem => hsafe.1 _ hmem⟩
  have hq := hsafe.2 ho
  refine ⟨⟨hq.timer, hq.armed trivial⟩, fun hr => ?_⟩
  obtain ⟨sent, unsent, hc⟩ := hq.counted
  obtain ⟨g, rest, rfl⟩ := QueueInv.sent_ne_nil hc (hq.timer hr)
  exact ⟨g, rest ++ unsent, hc.slist, hc.xmitSent g List.mem_cons_self⟩

/-- The timer runs after `Connect`. -/
theorem retransmitTimer_connect :
    Reachable (fun s env op => Ticking env op ∧ AckAligned s op)
        (run [(.steady 1, .connect)] (.fresh 1 7)) ∧
      (run [(.steady 1, .connect)] (.fresh 1 7)).tm.rtoBase ≠ 0 ∧
      (run [(.steady 1, .connect)] (.fresh 1 7)).out.sndUna
        ≠ (run [(.steady 1, .connect)] (.fresh 1 7)).out.sndNxt := by
  have h : Reachable (fun s env op => Ticking env op ∧ AckAligned s op)
      (run [(.steady 1, .connect)] (.fresh 1 7)) := by
    refine reachable_run _ _ (reachable_fresh 1 7)
      ⟨⟨⟨by decide, by decide, by decide, fun _ => ?_, by simp⟩,
        fun _ _ hop => absurd hop (by simp)⟩, trivial⟩
    show (1 : Word) ≠ 0
    decide
  have hr : (run [(.steady 1, .connect)] (.fresh 1 7)).tm.rtoBase ≠ 0 := by decide
  exact ⟨h, hr, ((retransmitTimer_iff h).1 (by decide)).1.mp hr⟩

end PseudoTcp

end Jingle
