/-
The rounds of `attemptSend`.

A round sends the next bytes that have not been sent before, or the loop returns in it:
nothing may be sent, Nagle's algorithm holds it back, or the packet is not taken.  The
loop of the model runs on fuel; `Rounds` is the loop without it.

* **`attemptSend_sends`** — the loop ends.  Each round before the last takes up the queue
  where the one before has stopped, inside the window of the peer and with less in
  flight than the usable window of its beginning; nothing else is sent but a bare
  acknowledgement.
* `not_sendsWithin` — `transmit` lowers the congestion window when a packet is too large,
  and what the same round sends then is not tested again.
-/
import Jingle.PseudoTcp.QueueInv

namespace Jingle

/-- The queue is tiled by its segments, those in flight first. -/
structure Outgoing.Sound (o : Outgoing) : Prop where
  counted : ∃ sent unsent, o.Counted sent unsent
  tiled : o.Tiled

namespace PseudoTcp

variable {env : Env} {sflags : SendFlags} {s t u : PseudoTcp}

/-! ### Rounds -/

/-- A round of the loop; with `true` the loop goes on. -/
def sendRound (env : Env) (sflags : SendFlags) (s : PseudoTcp) : Bool × PseudoTcp :=
  if s.available = 0 then (false, sendAck env sflags s)
  else if s.nagleHolds then (false, s)
  else transmit env s.out.firstUnsent env.sendNow s.breakNext

/-- The rounds of the loop that go on, with the states before and after them, and the
state in which it returns. -/
inductive Rounds (env : Env) :
    SendFlags → PseudoTcp → List (PseudoTcp × PseudoTcp) → PseudoTcp → Prop
  | last {sflags : SendFlags} {s t : PseudoTcp} : sendRound env sflags s = (false, t) →
      Rounds env sflags s [] t
  | next {sflags : SendFlags} {s u t : PseudoTcp} {rounds : List (PseudoTcp × PseudoTcp)} :
      sendRound env sflags s = (true, u) → Rounds env .none u rounds t →
      Rounds env sflags s ((s, u) :: rounds) t

theorem sendLoop_last (fuel : ℕ) (h : sendRound env sflags s = (false, t)) :
    sendLoop env (fuel + 1) sflags s = t := by
  rw [sendRound] at h
  rw [sendLoop]
  split_ifs at h ⊢ with hav hnagle
  · exact (Prod.mk.inj h).2
  · exact (Prod.mk.inj h).2
  · rw [breakNext] at h
    dsimp only
    rw [h]

theorem sendLoop_next (fuel : ℕ) (h : sendRound env sflags s = (true, u)) :
    sendLoop env (fuel + 1) sflags s = sendLoop env fuel .none u := by
  rw [sendRound] at h
  rw [sendLoop]
  split_ifs at h ⊢ with hav hnagle
  · exact absurd (Prod.mk.inj h).1 Bool.false_ne_true
  · exact absurd (Prod.mk.inj h).1 Bool.false_ne_true
  · rw [breakNext] at h
    dsimp only
    rw [h]

/-! ### What a round does -/

/-- The queue has the same bytes, at the same place, and the peer the same window. -/
structure SameQueue (s t : PseudoTcp) : Prop where
  frame : SendFrame s t
  sndUna : t.out.sndUna = s.out.sndUna
  slen : t.out.slen = s.out.slen
  sbuf : t.out.sbuf = s.out.sbuf
  sndWnd : t.out.sndWnd = s.out.sndWnd

theorem SameQueue.refl (s : PseudoTcp) : SameQueue s s := ⟨.refl s, rfl, rfl, rfl, rfl⟩

theorem SameQueue.trans (h : SameQueue s t) (h' : SameQueue t u) : SameQueue s u :=
  ⟨h.frame.trans h'.frame, h'.sndUna.trans h.sndUna, h'.slen.trans h.slen,
    h'.sbuf.trans h.sbuf, h'.sndWnd.trans h.sndWnd⟩

theorem SameQueue.breakNext (s : PseudoTcp) : SameQueue s s.breakNext := by
  obtain ⟨huna, -, hslen, hsbuf, hwnd⟩ := QueueInv.breakNext_frame s
  exact ⟨by constructor <;> rfl, huna, hslen, hsbuf, hwnd⟩

/-- The packet with the `n` bytes of the queue that follow those in flight. -/
def nextPacket (s : PseudoTcp) (n : Word) (flags : Byte) (now : Word) : List Byte :=
  s.packetBytes s.out.sndNxt flags (s.out.sbuf.read s.inFlight.toNat n.toNat) now

/-- How many bytes a round has sent. -/
def newBytes (s t : PseudoTcp) : Word := t.out.sndNxt - s.out.sndNxt

/-- A round sends bytes that follow those in flight, and no others. -/
structure SendsNew (s t : PseudoTcp) : Prop where
  same : SameQueue s t
  tested : s.inFlight < s.window
  grows : s.inFlight.toNat < t.inFlight.toNat
  queued : t.inFlight.toNat ≤ s.out.slen.toNat
  inside : t.inFlight.toNat ≤ s.out.sndWnd.toNat
  written : ∃ flags now,
    .tcpWritePacket (s.nextPacket (s.newBytes t) flags now) .success ∈ t.log
  only : ∀ b, .tcpWritePacket b .success ∈ t.log → .tcpWritePacket b .success ∈ s.log ∨
    ∃ flags now, b = s.nextPacket (s.newBytes t) flags now

theorem next_unsent (h : s.out.Sound) (hav : s.available ≠ 0) :
    ∃ sent g rest, s.out.firstUnsent = sent.length ∧
      s.breakNext.out.Counted sent (g :: rest) ∧ s.breakNext.out.Tiled ∧
      s.breakNext.out.slist[sent.length]? = some g ∧ g.len ≤ s.available ∧ g.len ≠ 0 ∧
      g.seq = s.out.sndNxt := by
  obtain ⟨⟨sent, unsent, hc₀⟩, ht₀⟩ := h
  obtain ⟨g₀, rest₀, rfl, hg₀⟩ := QueueInv.next_segment hc₀ hav
  have hi : s.out.firstUnsent = sent.length := hc₀.firstUnsent_eq (List.cons_ne_nil g₀ rest₀)
  obtain ⟨g, rest, hc, hgle, hg0⟩ := hc₀.breakSegment hg₀ hav
  change s.breakNext.out.Counted sent (g :: rest) at hc
  have ht : s.breakNext.out.Tiled := ht₀.breakSegment hc₀
  refine ⟨sent, g, rest, hi, hc, ht, ?_, hgle, hg0, ?_⟩
  · rw [hc.slist, List.getElem?_append_right le_rfl, Nat.sub_self]
    rfl
  · -- what stands before it is in flight
    obtain ⟨huna, hnxt, -, -, -⟩ := QueueInv.breakNext_frame s
    have hsl := hc.slen
    have hsz := hc.slen_le
    have hfl := hc.inFlight
    rw [Outgoing.Tiled, hc.slist] at ht
    have hoff := ht.offset (by omega)
    rw [hfl, huna, hnxt] at hoff
    bv_omega

theorem available_bounds {n : Word} (hfl : s.inFlight.toNat ≤ s.out.slen.toNat) (h0 : n ≠ 0)
    (hn : n ≤ s.available) : s.inFlight < s.window ∧
      s.inFlight.toNat + n.toNat ≤ s.out.slen.toNat ∧
      s.inFlight.toNat + n.toNat ≤ s.out.sndWnd.toNat := by
  obtain ⟨hqueue, -, huse⟩ := QueueInv.available_le s
  have huse' := BitVec.le_trans hn huse
  have hqueue' := BitVec.le_trans hn hqueue
  have hwindow : s.window.toNat ≤ s.out.sndWnd.toNat := by
    rw [window, toNat_minOf]
    exact min_le_left _ _
  rw [useable] at huse'
  split_ifs at huse' with hlt
  · refine ⟨hlt, ?_, ?_⟩
    · bv_omega
    · bv_omega
  · bv_omega

theorem writeSegment_taken (env : Env) (seg : SSegment) :
    ∀ (fuel : ℕ) (n : Word) (s : PseudoTcp) {m : Word} {t : PseudoTcp},
      writeSegment env seg fuel n s = (some m, t) →
      ∃ now, .tcpWritePacket (s.segmentBytes seg m now) .success ∈ t.log := by
  intro fuel
  induction fuel with
  | zero =>
    intro n s m t h
    exact absurd (Prod.mk.inj h).1 (Option.some_ne_none m).symm
  | succ fuel ih =>
    intro n s m t h
    have hspec := (packet_writeSpec env seg n s).1
    have hp := packet_spec env seg.seq (if seg.bCtrl then flagCtl else 0)
      (some ((s.note (.sbufRead (seg.seq - s.out.sndUna) n s.out.slen)).out.sbuf.read
        (seg.seq - s.out.sndUna).toNat n.toNat))
      (s.note (.sbufRead (seg.seq - s.out.sndUna) n s.out.slen))
    obtain ⟨now, r, hr, hmem⟩ := hp.written
    rw [writeSegment] at h
    split at h
    · next u heq =>
      obtain ⟨hn, rfl⟩ := Prod.mk.inj h
      obtain rfl := Option.some.inj hn
      rw [hr rfl, heq] at hmem
      exact ⟨now, hmem⟩
    · exact absurd (Prod.mk.inj h).1 (Option.some_ne_none m).symm
    · next u heq =>
      split at h
      · exact absurd (Prod.mk.inj h).1 (Option.some_ne_none m).symm
      · next c hc =>
        rw [heq] at hspec
        have hlower := hspec.after (.lower n packetMaximums.length) (BitVec.le_refl n) id
        rw [hc] at hlower
        obtain ⟨now', hmem'⟩ := ih c.mss _ h
        rw [segmentBytes_congr hlower.frame hlower.out] at hmem'
        exact ⟨now', hmem'⟩

theorem transmit_sent {i : ℕ} {now : Word} (h : transmit env i now s = (true, t)) :
    ∃ seg n u, s.out.slist[i]? = some seg ∧
      writeSegment env seg packetMaximums.length (minOf seg.len s.cc.mss) s = (some n, u) ∧
      t = { u with
        out := u.out.transmitted i seg n
        tm := { u.tm with rtoBase := if u.tm.rtoBase = 0 then now else u.tm.rtoBase } } := by
  rw [transmit] at h
  split at h
  · exact absurd (Prod.mk.inj h).1 Bool.false_ne_true
  · next seg hseg =>
    split_ifs at h
    · exact absurd (Prod.mk.inj h).1 Bool.false_ne_true
    · split at h
      · exact absurd (Prod.mk.inj h).1 Bool.false_ne_true
      · next n u hw => exact ⟨seg, n, u, hseg, hw, (Prod.mk.inj h).2.symm⟩

theorem sendRound_sends (h : s.out.Sound) (hr : sendRound env sflags s = (true, t)) :
    SendsNew s t ∧ t.out.Sound := by
  rw [sendRound] at hr
  split_ifs at hr with hav hnagle
  · exact absurd (Prod.mk.inj hr).1 Bool.false_ne_true
  · exact absurd (Prod.mk.inj hr).1 Bool.false_ne_true
  obtain ⟨sent, g, rest, hi, hc, ht, hget, hgle, hg0, hseq⟩ := next_unsent h hav
  obtain ⟨huna, hnxt, hslen, hsbuf, -⟩ := QueueInv.breakNext_frame s
  obtain ⟨havq, havm, havu⟩ := QueueInv.available_le s
  rw [hi] at hr
  obtain ⟨g', n, u, hg', hwrite, rfl⟩ := transmit_sent hr
  obtain rfl : g = g' := Option.some.inj (hget.symm.trans hg')
  have hw := writeSegment_spec env g packetMaximums.length (minOf g.len s.breakNext.cc.mss)
    s.breakNext
  rw [hwrite] at hw
  obtain ⟨now, htaken⟩ := writeSegment_taken env g _ _ _ hwrite
  -- how many bytes the packet has
  have hn : n ≤ g.len :=
    BitVec.le_trans (hw.le n rfl) (by rw [BitVec.le_def, toNat_minOf]; omega)
  have hn0 : n ≠ 0 := by
    intro h0
    have hmin := congrArg BitVec.toNat (hw.pos n rfl h0)
    have hmss : s.breakNext.cc.mss = s.cc.mss := rfl
    rw [toNat_minOf, hmss] at hmin
    bv_omega
  have hcu : u.out.Counted sent (g :: rest) := hw.out ▸ hc
  have hsound : (u.out.transmitted sent.length g n).Sound :=
    ⟨⟨_, _, hcu.transmitted_unsent hn hn0⟩,
      (hw.out ▸ ht : u.out.Tiled).transmitted (by rw [hw.out]; exact hget) hn⟩
  have hnxt' : (u.out.transmitted sent.length g n).sndNxt = s.out.sndNxt + n := by
    rw [Outgoing.transmitted_sndNxt hn, if_pos (hc.xmitUnsent g List.mem_cons_self), hw.out, hnxt]
  have huna' : (u.out.transmitted sent.length g n).sndUna = s.out.sndUna := by
    rw [← huna, ← hw.out]
    rfl
  -- how much is in flight then
  have hfl : s.inFlight.toNat ≤ s.out.slen.toNat := by
    have hle := hc.inFlight_le
    rw [huna, hnxt, hslen] at hle
    exact hle
  obtain ⟨htested, hqueued, hinside⟩ := available_bounds hfl hn0 (BitVec.le_trans hn hgle)
  have hsize := hc.slen_le
  rw [hslen] at hsize
  have hinFlight : ((u.out.transmitted sent.length g n).sndNxt -
      (u.out.transmitted sent.length g n).sndUna).toNat = s.inFlight.toNat + n.toNat := by
    have hsum : s.out.sndNxt + n - s.out.sndUna = s.inFlight + n := by
      rw [inFlight]
      bv_omega
    rw [hnxt', huna', hsum, BitVec.toNat_add]
    exact Nat.mod_eq_of_lt (by omega)
  have hbytes : (u.out.transmitted sent.length g n).sndNxt - s.out.sndNxt = n := by
    rw [hnxt']
    bv_omega
  have hpacket : ∀ now, s.breakNext.segmentBytes g n now =
      s.nextPacket n (if g.bCtrl then flagCtl else 0) now := by
    intro now
    rw [segmentBytes, nextPacket, hseq, hsbuf, huna]
    rfl
  refine ⟨⟨?_, htested, ?_, ?_, ?_, ⟨if g.bCtrl then flagCtl else 0, now, ?_⟩, fun b hb => ?_⟩,
    hsound⟩
  · have hwritten : SameQueue s.breakNext u :=
      ⟨hw.frame, congrArg Outgoing.sndUna hw.out, congrArg Outgoing.slen hw.out,
        congrArg Outgoing.sbuf hw.out, congrArg Outgoing.sndWnd hw.out⟩
    exact (SameQueue.breakNext s).trans (hwritten.trans
      ⟨by constructor <;> rfl, rfl, rfl, rfl, rfl⟩)
  · rw [inFlight, inFlight] at *
    bv_omega
  · exact hinFlight.trans_le hqueued
  · exact hinFlight.trans_le hinside
  · rw [newBytes, hbytes, ← hpacket]
    exact htaken
  · rw [newBytes, hbytes]
    obtain hold | ⟨now', rfl⟩ := hw.success n rfl b hb
    · exact .inl hold
    · exact .inr ⟨_, now', hpacket now'⟩

/-- What the last round leaves: a bare acknowledgement, at most, was sent. -/
structure SendsNothing (s t : PseudoTcp) : Prop where
  same : SameQueue s t
  sndNxt : t.out.sndNxt = s.out.sndNxt
  sound : t.out.Sound
  only : ∀ b, .tcpWritePacket b .success ∈ t.log → .tcpWritePacket b .success ∈ s.log ∨
    ∃ now, b = s.packetBytes s.out.sndNxt 0 [] now

theorem sendAck_sendsNothing (env : Env) (sflags : SendFlags) (h : s.out.Sound) :
    SendsNothing s (sendAck env sflags s) := by
  obtain ⟨hframe, hout, -, -⟩ := sendAck_frame env sflags s
  have hp := packet_spec env s.out.sndNxt 0 none s
  have hpacket : ∀ b, .tcpWritePacket b .success ∈ (packet env s.out.sndNxt 0 none s).2.log →
      .tcpWritePacket b .success ∈ s.log ∨ ∃ now, b = s.packetBytes s.out.sndNxt 0 [] now := by
    intro b hb
    obtain hold | hnew := hp.log.mem hb
    · exact .inl hold
    · cases hnew with
      | write now r => exact .inr ⟨now, rfl⟩
  refine ⟨⟨hframe, congrArg Outgoing.sndUna hout, congrArg Outgoing.slen hout,
    congrArg Outgoing.sbuf hout, congrArg Outgoing.sndWnd hout⟩, congrArg Outgoing.sndNxt hout,
    hout ▸ h, fun b hb => ?_⟩
  cases sflags with
  | none => exact .inl hb
  | immediateAck => exact hpacket b hb
  | delayedAck =>
    rw [sendAck] at hb
    split_ifs at hb
    · exact hpacket b hb
    · exact .inl hb

theorem sendRound_returns (h : s.out.Sound) (hr : sendRound env sflags s = (false, t)) :
    SendsNothing s t := by
  rw [sendRound] at hr
  split_ifs at hr with hav hnagle
  · rw [← (Prod.mk.inj hr).2]
    exact sendAck_sendsNothing env sflags h
  · rw [← (Prod.mk.inj hr).2]
    exact ⟨.refl s, rfl, h, fun b hb => .inl hb⟩
  obtain ⟨sent, g, rest, hi, hc, ht, hget, -⟩ := next_unsent h hav
  have hnxt := (QueueInv.breakNext_frame s).2.1
  have hbroken : SendsNothing s s.breakNext :=
    ⟨.breakNext s, hnxt, ⟨⟨_, _, hc⟩, ht⟩, fun b hb => .inl hb⟩
  rw [hi] at hr
  cases transmit_cases hr with
  | noSegment hnone => exact absurd (hget.symm.trans hnone) (Option.some_ne_none g)
  | tooMany => exact hbroken
  | failed seg t hseg hx hw _ =>
    refine ⟨(SameQueue.breakNext s).trans ⟨hw.frame, congrArg Outgoing.sndUna hw.out,
      congrArg Outgoing.slen hw.out, congrArg Outgoing.sbuf hw.out,
      congrArg Outgoing.sndWnd hw.out⟩, (congrArg Outgoing.sndNxt hw.out).trans hnxt,
      hw.out ▸ hbroken.sound, fun b hb => .inl (hw.fail rfl b hb)⟩

/-! ### The loop -/

theorem exists_rounds (env : Env) (fuel : ℕ) (sflags : SendFlags) {s : PseudoTcp}
    (h : s.out.Sound) (hfuel : s.out.slen.toNat - s.inFlight.toNat < fuel) :
    ∃ rounds, Rounds env sflags s rounds (sendLoop env fuel sflags s) := by
  induction fuel generalizing sflags s with
  | zero => exact absurd hfuel (Nat.not_lt_zero _)
  | succ fuel ih =>
    rcases hr : sendRound env sflags s with ⟨_ | _, u⟩
    · rw [sendLoop_last fuel hr]
      exact ⟨[], .last hr⟩
    · obtain ⟨hnew, hsound⟩ := sendRound_sends h hr
      have hgrows := hnew.grows
      have hqueued := hnew.queued
      have hslen := hnew.same.slen
      obtain ⟨rounds, hrounds⟩ := ih .none hsound (by rw [hslen]; omega)
      rw [sendLoop_next fuel hr]
      exact ⟨_, .next hr hrounds⟩

theorem unsent_le_sendWork (h : s.out.Sound) :
    s.out.slen.toNat - s.inFlight.toNat ≤ s.out.sendWork := by
  obtain ⟨sent, unsent, hc⟩ := h.counted
  have hfilter : s.out.slist.filter (fun g => g.xmit = 0) = unsent := by
    rw [hc.slist, List.filter_append, List.filter_eq_nil_iff.2 fun g hg => ?_,
      List.filter_eq_self.2 fun g hg => ?_, List.nil_append]
    · exact decide_eq_true (hc.xmitUnsent g hg)
    · simpa using hc.xmitSent g hg
  have hwork : ∀ l : List SSegment,
      total SSegment.len l ≤ (l.map fun g => g.len.toNat + 1).sum := by
    intro l
    induction l with
    | nil => exact le_rfl
    | cons g l ih =>
      rw [total_cons, List.map_cons, List.sum_cons]
      omega
  have hle := hwork unsent
  have hslen := hc.slen
  have hfl : total SSegment.len sent = s.inFlight.toNat := hc.inFlight
  rw [Outgoing.sendWork, hfilter]
  omega

/-- A round sends the byte at a place of the queue. -/
def Sends (i : ℕ) (r : PseudoTcp × PseudoTcp) : Bool :=
  r.1.inFlight.toNat ≤ i ∧ i < r.2.inFlight.toNat

/-- What a call of `attemptSend` does to a queue. -/
structure SendsRounds (env : Env) (sflags : SendFlags) (s t : PseudoTcp)
    (rounds : List (PseudoTcp × PseudoTcp)) : Prop where
  /-- The loop ends after these rounds. -/
  ends : Rounds env sflags s rounds t
  sendsNew : ∀ r ∈ rounds, SendsNew r.1 r.2
  /-- The bytes between what was in flight and what is are sent in one round each, and no
  others. -/
  once : ∀ i, rounds.countP (Sends i) =
    if s.inFlight.toNat ≤ i ∧ i < t.inFlight.toNat then 1 else 0
  only : ∀ b, .tcpWritePacket b .success ∈ t.log → .tcpWritePacket b .success ∈ s.log ∨
    (∃ r ∈ rounds, ∃ flags now, b = r.1.nextPacket (r.1.newBytes r.2) flags now) ∨
    ∃ now, b = s.packetBytes t.out.sndNxt 0 [] now
  /-- Every byte of the queue is in flight or still queued. -/
  same : SameQueue s t
  sound : t.out.Sound
  le : s.inFlight.toNat ≤ t.inFlight.toNat

theorem packetBytes_congr (h : SendFrame s t) (seq : Word) (flags : Byte) (data : List Byte)
    (now : Word) : t.packetBytes seq flags data now = s.packetBytes seq flags data now := by
  rw [packetBytes, packetBytes, h.conv, h.inc, h.tsRecent]

theorem Rounds.sends {rounds : List (PseudoTcp × PseudoTcp)} (h : Rounds env sflags s rounds t)
    (hs : s.out.Sound) : SendsRounds env sflags s t rounds := by
  induction h with
  | @last sflags s t hr =>
    have hlast := sendRound_returns hs hr
    have hinFlight : t.inFlight = s.inFlight := by
      rw [inFlight, inFlight, hlast.sndNxt, hlast.same.sndUna]
    refine ⟨.last hr, fun r hr => absurd hr List.not_mem_nil, fun i => ?_, fun b hb => ?_,
      hlast.same, hlast.sound, hinFlight ▸ le_rfl⟩
    · rw [hinFlight, if_neg fun hi => absurd hi.1 (not_le.2 hi.2)]
      rfl
    · obtain hold | hack := hlast.only b hb
      · exact .inl hold
      · rw [hlast.sndNxt]
        exact .inr (.inr hack)
  | @next sflags s u t rounds hr hrounds ih =>
    obtain ⟨hnew, hsound⟩ := sendRound_sends hs hr
    have hrest := ih hsound
    have hgrows := hnew.grows
    have hle := hrest.le
    refine ⟨.next hr hrounds, fun r hmem => ?_, fun i => ?_, fun b hb => ?_,
      hnew.same.trans hrest.same, hrest.sound, by omega⟩
    · obtain rfl | hmem := List.mem_cons.1 hmem
      · exact hnew
      · exact hrest.sendsNew r hmem
    · rw [List.countP_cons, hrest.once i]
      by_cases hi : Sends i (s, u) = true
      · rw [if_pos hi]
        rw [Sends, decide_eq_true_iff] at hi
        dsimp only at hi
        rw [if_neg (by omega), if_pos (by omega)]
      · rw [if_neg hi]
        rw [Sends, decide_eq_true_iff] at hi
        dsimp only at hi
        exact if_congr (by omega) rfl rfl
    · obtain hold | ⟨r, hmem, hpacket⟩ | ⟨now, hack⟩ := hrest.only b hb
      · obtain hold | ⟨flags, now, hpacket⟩ := hnew.only b hold
        · exact .inl hold
        · exact .inr (.inl ⟨(s, u), List.mem_cons_self, flags, now, hpacket⟩)
      · exact .inr (.inl ⟨r, List.mem_cons_of_mem _ hmem, hpacket⟩)
      · rw [packetBytes_congr hnew.same.frame] at hack
        exact .inr (.inr ⟨now, hack⟩)

theorem restartIdle_out (env : Env) (s : PseudoTcp) : (s.restartIdle env).out = s.out := by
  rw [restartIdle]
  split_ifs
  · rfl
  · rfl

/-- **`attemptSend`** on any queue and with any results of the writes. -/
theorem attemptSend_sends (env : Env) (sflags : SendFlags) {s : PseudoTcp} (h : s.out.Sound) :
    ∃ rounds, SendsRounds env sflags (s.restartIdle env) (attemptSend env sflags s) rounds := by
  have hsound : (s.restartIdle env).out.Sound := by
    rw [restartIdle_out]
    exact h
  have hwork := unsent_le_sendWork hsound
  obtain ⟨rounds, hrounds⟩ := exists_rounds env ((s.restartIdle env).out.sendWork + 1) sflags
    hsound (Nat.lt_succ_of_le hwork)
  rw [restartIdle_out] at hrounds
  exact ⟨rounds, hrounds.sends hsound⟩

/-! ### A packet that is too large -/

/-- A connection with 400 bytes in flight and 200 behind them. -/
def crowded : PseudoTcp :=
  { PseudoTcp.fresh 1 7 with
    state := .established
    useNagling := false
    out := {
      slist := [{ seq := 0, len := 400, xmit := 1, bCtrl := false },
        { seq := 400, len := 200, xmit := 0, bCtrl := false }]
      sbuf := fun _ => 0
      sndNxt := 400
      sndWnd := 60000
      slen := 600
      sndUna := 0 }
    cc := { (PseudoTcp.fresh 1 7).cc with mss := 392, msslevel := 8, cwnd := 1000 } }

theorem crowded_sound : crowded.out.Sound :=
  ⟨⟨[{ seq := 0, len := 400, xmit := 1, bCtrl := false }],
    [{ seq := 400, len := 200, xmit := 0, bCtrl := false }],
    by constructor <;> decide⟩, ⟨rfl, rfl, trivial⟩⟩

theorem attemptSend_sends_crowded : ∃ rounds, SendsRounds (.steady 1) .none
    (crowded.restartIdle (.steady 1)) (attemptSend (.steady 1) .none crowded) rounds :=
  attemptSend_sends (.steady 1) .none crowded_sound

/-- The first packet of a call is too large. -/
def firstTooLarge : Env :=
  { Env.steady 1 with write := fun n => if n = 1 then .tooLarge else .success }

theorem eq_mk_of_fst {α β : Type} {p : α × β} {a : α} (h : p.1 = a) : p = (a, p.2) := by
  rw [← h]

/-- What is in flight when a packet is taken is below the window of that time. -/
def SendsWithin (env : Env) (sflags : SendFlags) (s : PseudoTcp) : Prop :=
  ∀ rounds t, Rounds env sflags (s.restartIdle env) rounds t →
    ∀ r ∈ rounds, r.1.inFlight < { r.1 with cc := r.2.cc }.window

/-- The rest of the packet is sent although more is in flight than the window that it has
left. -/
theorem not_sendsWithin : ¬∀ (env : Env) (sflags : SendFlags) (s : PseudoTcp), s.out.Sound →
    SendsWithin env sflags s := by
  intro h
  have hrounds : Rounds firstTooLarge .none crowded
      [(crowded, (sendRound firstTooLarge .none crowded).2)]
      (sendRound firstTooLarge .none (sendRound firstTooLarge .none crowded).2).2 :=
    .next (eq_mk_of_fst (by decide +kernel)) (.last (eq_mk_of_fst (by decide +kernel)))
  have hidle : crowded.restartIdle firstTooLarge = crowded := if_neg (by decide)
  have hwithin := h firstTooLarge .none crowded crowded_sound
  rw [SendsWithin, hidle] at hwithin
  have hlt := hwithin _ _ hrounds _ List.mem_cons_self
  exact absurd hlt (by decide +kernel)

end PseudoTcp

end Jingle
