/-
The stream that an endpoint sends.

`Outgoing.Holds` says that the send buffer has the part of a stream that is not acknowledged,
with the control byte alone in its segment.  `IsCut` are the positions where the stream is cut:
all that is before is acknowledged or made of transmitted segments.  Segments are split and never
put together again once they are transmitted, so a position stays a cut.

A peer acknowledges what it received: the ends of segments, which are cuts.
-/
import Jingle.PseudoTcp.QueueInv
import Jingle.PseudoTcp.Reassembly

namespace Jingle

namespace Outgoing

variable {o o' : Outgoing} {n queued : ℕ} {p q r sent unsent : List SSegment} {g : SSegment}
  {stream : ℕ → Byte} {ready : Prop} {ack : Word}

/-! ### Cuts -/

/-- What is before position `n` is acknowledged or made of transmitted segments. -/
def IsCut (o : Outgoing) (n : ℕ) : Prop :=
  n ≤ o.sndUna.toNat ∨ ∃ p q, o.slist = p ++ q ∧ (∀ g ∈ p, g.xmit ≠ 0) ∧
    n = o.sndUna.toNat + total SSegment.len p

theorem IsCut.onBoundary (h : o.IsCut ack.toNat) (ha : Acks o ack) : OnBoundary o ack := by
  obtain ⟨h₁, -⟩ := ha
  obtain hle | ⟨p, q, hs, -, htotal⟩ := h
  · exact absurd hle (Nat.not_le.2 h₁)
  · exact ⟨p, q, hs, by bv_omega⟩

theorem IsCut.congr (h : o.IsCut n) (hs : o'.slist = o.slist) (huna : o'.sndUna = o.sndUna) :
    o'.IsCut n := by
  rw [IsCut, hs, huna]
  exact h

theorem IsCut.append (h : o.IsCut n) (hs : o'.slist = o.slist ++ r) (huna : o'.sndUna = o.sndUna) :
    o'.IsCut n := by
  obtain hle | ⟨p, q, hpq, hp, htotal⟩ := h
  · exact .inl (huna ▸ hle)
  · exact .inr ⟨p, q ++ r, by rw [hs, hpq, List.append_assoc], hp, huna ▸ htotal⟩

theorem IsCut.replace (h : o.IsCut n) (hs : o.slist = p ++ g :: q) (hs' : o'.slist = p ++ (r ++ q))
    (huna : o'.sndUna = o.sndUna)
    (hr : g.xmit ≠ 0 → total SSegment.len r = g.len.toNat ∧ ∀ x ∈ r, x.xmit ≠ 0) :
    o'.IsCut n := by
  obtain hle | ⟨p₁, q₁, hpq, hp, htotal⟩ := h
  · exact .inl (huna ▸ hle)
  rw [hs, List.append_eq_append_iff] at hpq
  refine .inr ?_
  rw [huna]
  obtain ⟨a, rfl, ha⟩ | ⟨a, rfl, -⟩ := hpq
  · rcases a with _ | ⟨x, a⟩
    · rw [List.append_nil] at hp htotal
      exact ⟨p, r ++ q, hs', hp, htotal⟩
    · obtain ⟨rfl, rfl⟩ := List.cons.inj ha
      obtain ⟨hlen, hx⟩ := hr (hp g (by simp))
      refine ⟨p ++ (r ++ a), q₁, by rw [hs']; simp, fun y hy => ?_, ?_⟩
      · obtain hy | hy := List.mem_append.1 hy
        · exact hp y (List.mem_append_left _ hy)
        · obtain hy | hy := List.mem_append.1 hy
          · exact hx y hy
          · exact hp y (by simp [hy])
      · rw [htotal, total_append, total_append, total_append, total_cons, hlen]
  · exact ⟨p₁, a ++ (r ++ q), by rw [hs', List.append_assoc], hp, htotal⟩

theorem acknowledge_slist (hb : OnBoundary o ack) (wnd : BitVec 16) (k : Word) :
    ∃ p, o.slist = p ++ (o.acknowledge ack wnd k).slist ∧
      total SSegment.len p = (ack - o.sndUna).toNat := by
  obtain ⟨p, q, hs, hp⟩ := hb
  exact freeAcked_boundary o.slist p q (ack - o.sndUna) k hs hp

theorem IsCut.acknowledge (h : o.IsCut n) (ha : Acks o ack) (hb : OnBoundary o ack)
    (wnd : BitVec 16) (k : Word) : (o.acknowledge ack wnd k).IsCut n := by
  have huna : (o.acknowledge ack wnd k).sndUna = ack := rfl
  obtain ⟨p', hp', htotal'⟩ := acknowledge_slist hb wnd k
  obtain ⟨h₁, -⟩ := ha
  rw [IsCut, huna]
  by_cases hle : n ≤ ack.toNat
  · exact .inl hle
  obtain hn | ⟨p, q, hpq, hp, htotal⟩ := h
  · bv_omega
  rw [hp', List.append_eq_append_iff] at hpq
  obtain ⟨a, rfl, ha⟩ | ⟨a, rfl, -⟩ := hpq
  · refine .inr ⟨a, q, ha, fun x hx => hp x (List.mem_append_right _ hx), ?_⟩
    rw [total_append] at htotal
    bv_omega
  · rw [total_append] at htotal'
    bv_omega

/-! ### Contents -/

/-- The queue holds the stream from `m_snd_una` to position `queued`; the control byte is alone in
its segment, and behind it there is data if the peer is ready for it. -/
structure Holds (stream : ℕ → Byte) (ready : Prop) (queued : ℕ) (o : Outgoing) : Prop where
  stop : o.sndUna.toNat + o.slen.toNat = queued
  bytes : ∀ k < o.slen.toNat, o.sbuf k = stream (o.sndUna.toNat + k)
  control : ∀ g ∈ o.slist, g.bCtrl = true → g.seq.toNat + g.len.toNat ≤ 1
  data : ∀ g ∈ o.slist, g.bCtrl = false → 1 ≤ g.seq.toNat ∧ ready

namespace Holds

theorem next_toNat (h : o.Holds stream ready queued) (hc : o.Counted sent unsent)
    (hlt : queued < 2 ^ 32) :
    o.sndNxt.toNat = o.sndUna.toNat + total SSegment.len sent ∧ o.sndNxt.toNat ≤ queued := by
  have h₁ := h.stop
  have h₂ := hc.inFlight
  have h₃ := hc.slen
  bv_omega

theorem seq_toNat (h : o.Holds stream ready queued) (ht : o.Tiled) (hc : o.Counted sent unsent)
    (hlt : queued < 2 ^ 32) (hs : o.slist = p ++ g :: q) :
    g.seq.toNat = o.sndUna.toNat + total SSegment.len p ∧
      g.seq.toNat + g.len.toNat + total SSegment.len q = queued := by
  have htotal : total SSegment.len (p ++ g :: q) = o.slen.toNat := by
    rw [← hs, hc.slist, total_append, hc.slen]
  have hsz := hc.slen_le
  have hstop := h.stop
  rw [total_append, total_cons] at htotal
  rw [Tiled, hs] at ht
  have hoff := ht.offset (by omega)
  have hq : o.sndUna.toNat + total SSegment.len p < 2 ^ 32 := by omega
  have hseq : g.seq.toNat = o.sndUna.toNat + total SSegment.len p := by bv_omega
  exact ⟨hseq, by omega⟩

theorem congr (h : o.Holds stream ready queued) (huna : o'.sndUna = o.sndUna)
    (hslen : o'.slen = o.slen) (hsbuf : o'.sbuf = o.sbuf) (hslist : o'.slist = o.slist) :
    o'.Holds stream ready queued := by
  refine ⟨?_, ?_, ?_, ?_⟩
  · rw [huna, hslen]
    exact h.stop
  · rw [huna, hslen, hsbuf]
    exact h.bytes
  · rw [hslist]
    exact h.control
  · rw [hslist]
    exact h.data

theorem cut (h : o.Holds stream ready queued) (ht : o.Tiled) (hc : o.Counted sent unsent)
    (hlt : queued < 2 ^ 32) (hs : o.slist = p ++ g :: q) {m : Word} {x : Byte} (hm : m ≤ g.len)
    (hs' : o'.slist = p ++ { g with len := m, xmit := x } :: (g.remainder m ++ q))
    (huna : o'.sndUna = o.sndUna) (hslen : o'.slen = o.slen) (hsbuf : o'.sbuf = o.sbuf) :
    o'.Holds stream ready queued := by
  obtain ⟨-, hstop⟩ := h.seq_toNat ht hc hlt hs
  have hg : g ∈ o.slist := by simp [hs]
  -- every segment of the new list is one of the old, or a part of the one that is cut
  have hmem : ∀ y ∈ o'.slist, y ∈ o.slist ∨ y.bCtrl = g.bCtrl ∧ g.seq.toNat ≤ y.seq.toNat ∧
      y.seq.toNat + y.len.toNat ≤ g.seq.toNat + g.len.toNat := by
    intro y hy
    rw [hs', List.mem_append, List.mem_cons, List.mem_append] at hy
    obtain hy | rfl | hy | hy := hy
    · exact .inl (by simp [hs, hy])
    · exact .inr ⟨rfl, le_refl _, Nat.add_le_add_left hm _⟩
    · rw [SSegment.remainder] at hy
      split at hy
      · rename_i hlt'
        rw [List.mem_singleton.1 hy]
        refine .inr ⟨rfl, ?_, ?_⟩
        all_goals dsimp only
        all_goals bv_omega
      · exact absurd hy List.not_mem_nil
    · exact .inl (by simp [hs, hy])
  refine ⟨by rw [huna, hslen]; exact h.stop, by rw [huna, hslen, hsbuf]; exact h.bytes,
    fun y hy hb => ?_, fun y hy hb => ?_⟩
  · obtain hy | ⟨hby, -, hle⟩ := hmem y hy
    · exact h.control y hy hb
    · exact hle.trans (h.control g hg (hby ▸ hb))
  · obtain hy | ⟨hby, hle, -⟩ := hmem y hy
    · exact h.data y hy hb
    · obtain ⟨hone, hready⟩ := h.data g hg (hby ▸ hb)
      exact ⟨hone.trans hle, hready⟩

theorem acknowledge (h : o.Holds stream ready queued) (hc : o.Counted sent unsent) (ha : Acks o ack)
    (hb : OnBoundary o ack) (wnd : BitVec 16) (k : Word) :
    (o.acknowledge ack wnd k).Holds stream ready queued := by
  obtain ⟨p, hp, -⟩ := acknowledge_slist hb wnd k
  have hle := ha.le_inFlight
  have hfl := hc.inFlight_le
  have hstop := h.stop
  obtain ⟨h₁, -⟩ := ha
  have hnum : (ack - o.sndUna).toNat = ack.toNat - o.sndUna.toNat := by bv_omega
  have hslen : (o.slen - (ack - o.sndUna)).toNat = o.slen.toNat - (ack - o.sndUna).toNat := by
    have hle' : (ack - o.sndUna).toNat ≤ o.slen.toNat := by omega
    generalize ack - o.sndUna = d at hle' ⊢
    bv_omega
  refine ⟨?_, fun i hi => ?_, fun g hg => h.control g ?_, fun g hg => h.data g ?_⟩
  · change ack.toNat + (o.slen - (ack - o.sndUna)).toNat = queued
    bv_omega
  · change i < (o.slen - (ack - o.sndUna)).toNat at hi
    change o.sbuf.move _ _ i = stream (ack.toNat + i)
    rw [Mem.move_of_lt hi, h.bytes _ (by omega), hnum]
    congr 1
    bv_omega
  · rw [hp]
    exact List.mem_append_right p hg
  · rw [hp]
    exact List.mem_append_right p hg

theorem enqueue (h : o.Holds stream ready queued) (hc : o.Counted sent unsent) (bCtrl : Bool)
    {len : Word} {data : List Byte} (hfit : o.slen.toNat + len.toNat ≤ kSndBufSize.toNat)
    (hlt : queued + len.toNat < 2 ^ 32)
    (hdata : ∀ j < len.toNat, data[j]? = some (stream (queued + j)))
    (hctrl : bCtrl = true → o.slist = [] ∧ queued = 0 ∧ len = 1)
    (hready : bCtrl = false → 1 ≤ queued ∧ ready) :
    (o.enqueue data len bCtrl).Holds stream ready (queued + len.toNat) := by
  have hstop := h.stop
  rw [kSndBufSize_toNat] at hfit
  have hslen : (o.slen + len).toNat = o.slen.toNat + len.toNat := by bv_omega
  have hnew : (o.sndUna + o.slen).toNat = queued := by bv_omega
  have hlen : (data.take len.toNat).length = len.toNat := by
    rw [List.length_take]
    refine Nat.min_eq_left ?_
    by_contra hgt
    have := hdata data.length (by omega)
    rw [List.getElem?_eq_none (le_refl _)] at this
    exact absurd this (by simp)
  have hnewControl : bCtrl = true → queued + len.toNat ≤ 1 := by
    intro hb
    obtain ⟨-, h₁, h₂⟩ := hctrl hb
    rw [h₁, h₂]
    decide
  refine ⟨?_, fun k hk => ?_, ?_, ?_⟩
  · change o.sndUna.toNat + (o.slen + len).toNat = _
    omega
  · change k < (o.slen + len).toNat at hk
    change o.sbuf.write o.slen.toNat (data.take len.toNat) k = stream (o.sndUna.toNat + k)
    by_cases hold : k < o.slen.toNat
    · rw [Mem.write_of_not_mem (.inl hold), h.bytes k hold]
    · rw [Mem.write_of_mem (by omega) (by omega), List.getD_eq_getElem?_getD,
        List.getElem?_take_of_lt (by omega), hdata _ (by omega), Option.getD_some]
      congr 1
      omega
  · intro g hg hb
    change g ∈ o.extend len bCtrl at hg
    obtain ⟨he, -⟩ | ⟨u, g', rfl, hb', he⟩ := enqueue_cases hc len bCtrl
    · rw [he] at hg
      obtain hg | hg := List.mem_append.1 hg
      · exact h.control g hg hb
      · rw [List.mem_singleton.1 hg] at hb ⊢
        change (o.sndUna + o.slen).toNat + len.toNat ≤ 1
        rw [hnew]
        exact hnewControl hb
    · -- a control byte is queued into an empty list
      rw [he] at hg
      obtain hg | hg := List.mem_append.1 hg
      · refine h.control g ?_ hb
        rw [hc.slist, ← List.append_assoc]
        exact List.mem_append_left _ hg
      · rw [List.mem_singleton.1 hg] at hb
        have hnil := (hctrl (hb'.symm.trans hb)).1
        rw [hc.slist] at hnil
        simp at hnil
  · intro g hg hb
    change g ∈ o.extend len bCtrl at hg
    obtain ⟨he, -⟩ | ⟨u, g', rfl, hb', he⟩ := enqueue_cases hc len bCtrl
    · rw [he] at hg
      obtain hg | hg := List.mem_append.1 hg
      · exact h.data g hg hb
      · rw [List.mem_singleton.1 hg] at hb ⊢
        change 1 ≤ (o.sndUna + o.slen).toNat ∧ ready
        rw [hnew]
        exact hready hb
    · rw [he] at hg
      obtain hg | hg := List.mem_append.1 hg
      · refine h.data g ?_ hb
        rw [hc.slist, ← List.append_assoc]
        exact List.mem_append_left _ hg
      · rw [List.mem_singleton.1 hg] at hb ⊢
        exact h.data g' (by rw [hc.slist]; simp) hb

end Holds

theorem IsCut.enqueue (h : o.IsCut n) (hc : o.Counted sent unsent) (len : Word) (bCtrl : Bool)
    (data : List Byte) : (o.enqueue data len bCtrl).IsCut n := by
  obtain ⟨he, -⟩ | ⟨u, g, rfl, -, he⟩ := enqueue_cases hc len bCtrl
  · exact IsCut.append h he rfl
  · have hs : o.slist = (sent ++ u) ++ g :: [] := by rw [hc.slist, List.append_assoc]
    refine IsCut.replace (r := [{ g with len := g.len + len }]) h hs
      (by rw [List.append_nil]; exact he) rfl fun hx => ?_
    exact absurd (hc.xmitUnsent g (by simp)) hx

end Outgoing

/-! ### Endpoints -/

/-- An object with what its user has sent and received, and every packet that `TcpWritePacket`
has taken. -/
structure Endpoint where
  tcp : PseudoTcp
  sent : List Byte
  recvd : List Byte
  wire : List (List Byte)

namespace Endpoint

variable (y : Endpoint)

/-- The end of the advertised window. -/
def edge : ℕ := y.tcp.inc.rcvNxt.toNat + y.tcp.inc.rcvWnd.toNat

/-- The control byte was received, or nothing is received any more. -/
def Ready : Prop := y.tcp.inc.rcvNxt ≠ 0 ∨ y.tcp.state = .closed

/-- Where what was received ends, and what was acknowledged of it. -/
def Ends (n : ℕ) : Prop :=
  n = y.tcp.inc.rcvNxt.toNat ∨ (∃ r ∈ y.tcp.inc.rlist, n = r.stop) ∨
    ∃ b ∈ y.wire, ∃ seg, parseSegment b = some seg ∧ n = seg.ack.toNat

/-- The acknowledgement of a segment is one of the endpoint. -/
structure Acknowledges (seg : Segment) : Prop where
  le : seg.ack.toNat ≤ y.tcp.inc.rcvNxt.toNat
  window : seg.ack.toNat + seg.wnd.toNat ≤ y.edge
  ends : y.Ends seg.ack.toNat

end Endpoint

namespace PseudoTcp

variable {stream : ℕ → Byte} {ready : Prop} {queued queued' : ℕ} {peer : Endpoint}
  {hist : List (List Byte)} {env : Env} {now : Word} {seg : Segment} {s t : PseudoTcp}

/-- A segment with data is cut from the stream, and data comes behind the control byte. -/
structure FromStream (stream : ℕ → Byte) (ready : Prop) (s : PseudoTcp) (seg : Segment) :
    Prop where
  cut : CutAt stream seg.seq.toNat seg
  stop_le : seg.stop ≤ s.out.sndNxt.toNat
  isCut : s.state ≠ .closed → s.out.IsCut seg.stop
  data : seg.flags &&& flagCtl = 0 → ready
  started : s.state ≠ .listen

/-- A packet that the object has sent. -/
def HasSent (stream : ℕ → Byte) (ready : Prop) (s : PseudoTcp) (b : List Byte) : Prop :=
  ∃ seg, parseSegment b = some seg ∧ (seg.len ≠ 0 → s.FromStream stream ready seg)

/-- The object sends the stream to its peer. -/
structure SendsTo (stream : ℕ → Byte) (queued : ℕ) (peer : Endpoint) (hist : List (List Byte))
    (s : PseudoTcp) : Prop where
  holds : s.state ≠ .closed → s.out.Holds stream peer.Ready queued
  next_le : s.out.sndNxt.toNat ≤ queued
  opened : s.state = .established → peer.Ready
  una_le : s.out.sndUna.toNat ≤ peer.tcp.inc.rcvNxt.toNat
  window : s.out.sndUna.toNat + s.out.sndWnd.toNat ≤ peer.edge
  next_edge : s.out.sndNxt.toNat ≤ peer.edge
  ends : ∀ n, peer.Ends n → n ≤ s.out.sndNxt.toNat ∧ (s.state ≠ .closed → s.out.IsCut n)
  wire : ∀ b, b ∈ hist ∨ .tcpWritePacket b .success ∈ s.log → s.HasSent stream peer.Ready b

theorem HasSent.mono {b : List Byte} (h : s.HasSent stream ready b)
    (hnext : s.out.sndNxt.toNat ≤ t.out.sndNxt.toNat)
    (hcut : t.state ≠ .closed → s.state ≠ .closed ∧ ∀ n, s.out.IsCut n → t.out.IsCut n)
    (hlisten : t.state = .listen → s.state = .listen) : t.HasSent stream ready b := by
  obtain ⟨seg, hp, hseg⟩ := h
  refine ⟨seg, hp, fun hlen => ?_⟩
  obtain ⟨h₁, h₂, h₃, h₄, h₅⟩ := hseg hlen
  exact ⟨h₁, h₂.trans hnext, fun ho => (hcut ho).2 _ (h₃ (hcut ho).1), h₄,
    fun hl => h₅ (hlisten hl)⟩

theorem hasSent_packet {b : List Byte} {seq : Word} {data : List Byte} (now : Word)
    (hb : b = s.packetBytes seq 0 data now) (hdata : data = []) : t.HasSent stream ready b := by
  subst hb hdata
  exact ⟨_, parseSegment_header _ _ _ _ _ _ _ _, fun hlen => absurd rfl hlen⟩

namespace SendsTo

theorem evolve (h : SendsTo stream queued peer hist s)
    (hholds : t.state ≠ .closed → t.out.Holds stream peer.Ready queued')
    (hqueued : t.out.sndNxt.toNat ≤ queued') (hopened : t.state = .established → peer.Ready)
    (huna : t.out.sndUna.toNat ≤ peer.tcp.inc.rcvNxt.toNat)
    (hwindow : t.out.sndUna.toNat + t.out.sndWnd.toNat ≤ peer.edge)
    (hedge : t.out.sndNxt.toNat ≤ peer.edge)
    (hnext : s.out.sndNxt.toNat ≤ t.out.sndNxt.toNat)
    (hcut : t.state ≠ .closed → s.state ≠ .closed ∧ ∀ n, s.out.IsCut n → t.out.IsCut n)
    (hlisten : t.state = .listen → s.state = .listen)
    (hlog : ∀ b, .tcpWritePacket b .success ∈ t.log →
      .tcpWritePacket b .success ∈ s.log ∨ t.HasSent stream peer.Ready b) :
    SendsTo stream queued' peer hist t where
  holds := hholds
  next_le := hqueued
  opened := hopened
  una_le := huna
  window := hwindow
  next_edge := hedge
  ends n hn := by
    obtain ⟨h₁, h₂⟩ := h.ends n hn
    exact ⟨h₁.trans hnext, fun ho => (hcut ho).2 n (h₂ (hcut ho).1)⟩
  wire b hb := by
    obtain hb | hb := hb
    · exact (h.wire b (.inl hb)).mono hnext hcut hlisten
    · obtain hb | hb := hlog b hb
      · exact (h.wire b (.inr hb)).mono hnext hcut hlisten
      · exact hb

theorem quiet (h : SendsTo stream queued peer hist s) (hout : t.out = s.out)
    (hst : t.state = s.state)
    (hlog : ∀ b, .tcpWritePacket b .success ∈ t.log →
      .tcpWritePacket b .success ∈ s.log ∨ t.HasSent stream peer.Ready b) :
    SendsTo stream queued peer hist t := by
  refine h.evolve ?_ ?_ ?_ ?_ ?_ ?_ ?_ ?_ ?_ hlog
  · rw [hst, hout]
    exact h.holds
  · rw [hout]
    exact h.next_le
  · rw [hst]
    exact h.opened
  · rw [hout]
    exact h.una_le
  · rw [hout]
    exact h.window
  · rw [hout]
    exact h.next_edge
  · rw [hout]
  · rw [hst, hout]
    exact fun ho => ⟨ho, fun _ hn => hn⟩
  · rw [hst]
    exact id

/-! ### Transmission -/

theorem hasSent_segment {sent unsent p q : List SSegment} {g : SSegment} {m : Word}
    (hh : s.out.Holds stream ready queued) (ht : s.out.Tiled) (hc : s.out.Counted sent unsent)
    (hlt : queued < 2 ^ 32) (hs : s.out.slist = p ++ g :: q) (hm : m ≤ g.len)
    (hnext : g.seq.toNat + m.toNat ≤ t.out.sndNxt.toNat) (hl : t.state ≠ .listen)
    (hcut : t.out.IsCut (g.seq.toNat + m.toNat)) (now : Word) :
    t.HasSent stream ready (s.segmentBytes g m now) := by
  obtain ⟨hseq, hstop⟩ := hh.seq_toNat ht hc hlt hs
  have hg : g ∈ s.out.slist := by simp [hs]
  have hoff : (g.seq - s.out.sndUna).toNat = total SSegment.len p := by bv_omega
  have hslen := hh.stop
  have hm' : m.toNat ≤ g.len.toNat := hm
  have hflags : (if g.bCtrl then flagCtl else 0) &&& flagCtl = 0 ↔ g.bCtrl = false := by
    cases g.bCtrl <;> decide
  refine ⟨_, parseSegment_header _ _ _ _ _ _ _ _, fun hlen => ?_⟩
  rw [Mem.length_read, BitVec.ofNat_toNat, BitVec.setWidth_eq] at hlen ⊢
  refine ⟨⟨?_, fun j hj => ?_, fun hctl => ?_, fun hctl _ => ?_⟩, hnext, fun _ => hcut,
    fun hctl => ?_, hl⟩
  · rw [BitVec.ofNat_toNat, BitVec.setWidth_eq]
  · rw [List.getElem?_eq_getElem (by rw [Mem.length_read]; exact hj), Mem.getElem_read, hoff,
      hh.bytes _ (by dsimp only at hj; omega)]
    congr 2
    dsimp only
    omega
  · have hb : g.bCtrl = true := Bool.eq_true_of_not_eq_false fun hb => hctl (hflags.2 hb)
    have hone := hh.control g hg hb
    dsimp only
    have hm0 : m.toNat ≠ 0 := fun h0 => hlen (BitVec.eq_of_toNat_eq h0)
    exact ⟨by omega, BitVec.eq_of_toNat_eq (by show m.toNat = 1; omega)⟩
  · exact (hh.data g hg (hflags.1 hctl)).1
  · exact (hh.data g hg (hflags.1 hctl)).2

theorem transmit {sent unsent p q : List SSegment} {g : SSegment} (env : Env) (now : Word)
    (h : SendsTo stream queued peer hist s) (hlt : queued < 2 ^ 32) (ho : s.state ≠ .closed)
    (hl : s.state ≠ .listen) (hc : s.out.Counted sent unsent) (ht : s.out.Tiled)
    (hs : s.out.slist = p ++ g :: q) (hp : ∀ x ∈ p, x.xmit ≠ 0)
    (hunsent : g.xmit = 0 → g.seq.toNat = s.out.sndNxt.toNat ∧
      g.seq.toNat + g.len.toNat ≤ peer.edge)
    (hsent : g.xmit ≠ 0 → g.seq.toNat + g.len.toNat ≤ s.out.sndNxt.toNat) :
    SendsTo stream queued peer hist (PseudoTcp.transmit env p.length now s).2 := by
  have hh := h.holds ho
  obtain ⟨hseq, hstop⟩ := hh.seq_toNat ht hc hlt hs
  have hget : s.out.slist[p.length]? = some g := by
    rw [hs]
    simp
  rcases htr : PseudoTcp.transmit env p.length now s with ⟨b, t⟩
  cases transmit_cases htr with
  | noSegment hn => exact absurd (hget.symm.trans hn) (by simp)
  | tooMany => exact h
  | failed g' _ _ _ hw _ => exact h.quiet hw.out hw.frame.state fun b hb => .inl (hw.fail rfl b hb)
  | sent g' n u hg hx hw _ =>
    obtain rfl : g = g' := Option.some.inj (hget.symm.trans hg)
    have hn : n ≤ g.len := BitVec.le_trans (hw.le n rfl) (by rw [BitVec.le_def, toNat_minOf]; omega)
    have hn' : n.toNat ≤ g.len.toNat := hn
    have hst : u.state = s.state := hw.frame.state
    have hslist : (u.out.transmitted p.length g n).slist
        = p ++ { g with len := n, xmit := g.xmit + 1 } :: (g.remainder n ++ q) :=
      Outgoing.transmitted_slist (hw.out ▸ hs) rfl hn
    have hnxt : (u.out.transmitted p.length g n).sndNxt
        = if g.xmit = 0 then s.out.sndNxt + n else s.out.sndNxt := by
      rw [← hw.out]
      exact Outgoing.transmitted_sndNxt hn
    have huna : (u.out.transmitted p.length g n).sndUna = s.out.sndUna := by
      rw [← hw.out]
      rfl
    have hslen : (u.out.transmitted p.length g n).slen = s.out.slen := by
      rw [← hw.out]
      rfl
    have hsbuf : (u.out.transmitted p.length g n).sbuf = s.out.sbuf := by
      rw [← hw.out]
      rfl
    have hwnd : (u.out.transmitted p.length g n).sndWnd = s.out.sndWnd := by
      rw [← hw.out]
      rfl
    have hx1 : g.xmit + 1 ≠ 0 := by
      simp only [maxXmit] at hx
      split at hx <;> bv_omega
    -- the end of what was sent moves over a segment that is sent for the first time
    have hmoved : s.out.sndNxt.toNat ≤ (u.out.transmitted p.length g n).sndNxt.toNat ∧
        g.seq.toNat + n.toNat ≤ (u.out.transmitted p.length g n).sndNxt.toNat ∧
        (u.out.transmitted p.length g n).sndNxt.toNat ≤ queued ∧
        (u.out.transmitted p.length g n).sndNxt.toNat ≤ peer.edge := by
      have h₁ := h.next_le
      have h₂ := h.next_edge
      rw [hnxt]
      by_cases hx0 : g.xmit = 0
      · obtain ⟨h₃, h₄⟩ := hunsent hx0
        rw [if_pos hx0]
        have hsum : (s.out.sndNxt + n).toNat = s.out.sndNxt.toNat + n.toNat := by bv_omega
        exact ⟨by omega, by omega, by omega, by omega⟩
      · have h₃ := hsent hx0
        rw [if_neg hx0]
        exact ⟨le_refl _, by omega, h₁, h₂⟩
    obtain ⟨hnext, hend, hqueued, hedge⟩ := hmoved
    refine h.evolve (t := { u with out := _, tm := _ }) (fun _ => ?_) hqueued (fun hop => ?_) ?_ ?_
      hedge hnext (fun _ => ⟨ho, fun n hn => ?_⟩) (fun hli => absurd (hst ▸ hli) hl) fun b hb => ?_
    · exact hh.cut ht hc hlt hs hn hslist huna hslen hsbuf
    · exact h.opened (hst ▸ hop)
    · exact huna ▸ h.una_le
    · exact huna ▸ hwnd ▸ h.window
    · refine hn.replace (r := { g with len := _, xmit := _ } :: g.remainder _) hs
        (by rw [hslist]; rfl) huna fun hx0 => ⟨?_, fun x hx => ?_⟩
      · rw [total_cons, SSegment.total_remainder ‹_›]
        dsimp only
        omega
      · obtain rfl | hx := List.mem_cons.1 hx
        · exact hx1
        · rw [(SSegment.mem_remainder hx).1]
          exact hx0
    · obtain hb | ⟨now', rfl⟩ := hw.success n rfl b hb
      · exact .inl hb
      · refine .inr (hasSent_segment
          (t := { u with out := u.out.transmitted p.length g n, tm := _ }) hh ht hc hlt hs hn hend
          (fun hli => hl (hst ▸ hli)) ?_ now')
        refine .inr ⟨p ++ [{ g with len := n, xmit := g.xmit + 1 }], g.remainder n ++ q,
          by rw [hslist]; simp, fun x hx => ?_, ?_⟩
        · obtain hx | hx := List.mem_append.1 hx
          · exact hp x hx
          · rw [List.mem_singleton.1 hx]
            exact hx1
        · rw [huna, hseq, total_append, total_cons, total_nil, Nat.add_zero, Nat.add_assoc]

theorem inFlight_add_available (hav : s.available ≠ 0) :
    (s.out.sndNxt - s.out.sndUna).toNat + s.available.toNat ≤ s.out.sndWnd.toNat := by
  have hle := (QueueInv.available_le s).2.2
  have hwindow : s.window.toNat ≤ s.out.sndWnd.toNat := by
    rw [PseudoTcp.window, toNat_minOf]
    exact Nat.min_le_left _ _
  rw [useable, inFlight] at hle
  generalize s.out.sndNxt - s.out.sndUna = d at hle ⊢
  split at hle <;> bv_omega

theorem transmit_next (env : Env) (now : Word) (h : SendsTo stream queued peer hist s)
    (hlt : queued < 2 ^ 32) (hq : QueueInv True False s) (ho : s.state ≠ .closed)
    (hav : s.available ≠ 0) :
    SendsTo stream queued peer hist
      (PseudoTcp.transmit env s.out.firstUnsent now s.breakNext).2 := by
  obtain ⟨sent, unsent, hc₀⟩ := hq.counted
  obtain ⟨g₀, rest₀, rfl, hg₀⟩ := QueueInv.next_segment hc₀ hav
  have ht₀ := hq.tiled trivial
  have hi : s.out.firstUnsent = sent.length := hc₀.firstUnsent_eq (by simp)
  obtain ⟨g, rest, hc, hgle, hg0⟩ := hc₀.breakSegment hg₀ hav
  change s.breakNext.out.Counted sent (g :: rest) at hc
  obtain ⟨huna, hnxt, hslen, hsbuf, hwnd⟩ := QueueInv.breakNext_frame s
  have ht : s.breakNext.out.Tiled := ht₀.breakSegment hc₀
  have hslist : s.breakNext.out.slist = if s.available < g₀.len then
      sent ++ { g₀ with len := s.available } :: (g₀.remainder s.available ++ rest₀)
      else s.out.slist := Outgoing.breakSegment_slist hc₀ _
  have hh₀ := h.holds ho
  have hl : s.state ≠ .listen := by
    intro hl
    have := hq.listen hl
    rw [hc₀.slist] at this
    simp at this
  have hbreak : SendsTo stream queued peer hist s.breakNext := by
    refine h.evolve (fun _ => ?_) (hnxt ▸ h.next_le) h.opened (huna ▸ h.una_le)
      (huna ▸ hwnd ▸ h.window) (hnxt ▸ h.next_edge) (hnxt ▸ le_refl _)
      (fun _ => ⟨ho, fun n hn => ?_⟩) id fun b hb => .inl hb
    · split at hslist
      · rename_i hlt'
        exact hh₀.cut ht₀ hc₀ hlt hc₀.slist (BitVec.le_of_lt hlt') hslist huna hslen hsbuf
      · exact hh₀.congr huna hslen hsbuf hslist
    · split at hslist
      · refine hn.replace (r := { g₀ with len := _ } :: g₀.remainder _) hc₀.slist
          (by rw [hslist]; rfl) huna fun hx => ?_
        exact absurd (hc₀.xmitUnsent g₀ List.mem_cons_self) hx
      · exact hn.congr hslist huna
  have hh := hbreak.holds ho
  obtain ⟨hseq, -⟩ := hh.seq_toNat ht hc hlt hc.slist
  obtain ⟨hnext, -⟩ := hh.next_toNat hc hlt
  rw [hi]
  refine hbreak.transmit env now hlt ho hl hc ht hc.slist hc.xmitSent (fun _ => ⟨?_, ?_⟩)
    fun hx => ?_
  · rw [hseq, hnext]
  · -- what is available is in the window
    have h₁ := inFlight_add_available hav
    have h₂ := h.window
    have hfl := hc.inFlight
    rw [huna, hnxt] at hfl
    rw [hseq, huna, hfl]
    have h₃ : g.len.toNat ≤ s.available.toNat := hgle
    omega
  · exact absurd (hc.xmitUnsent g List.mem_cons_self) hx

theorem transmit_again (env : Env) (now : Word) (h : SendsTo stream queued peer hist s)
    (hlt : queued < 2 ^ 32) (hq : QueueInv True False s) (ho : s.state ≠ .closed)
    (hne : s.out.sndUna ≠ s.out.sndNxt) :
    SendsTo stream queued peer hist (PseudoTcp.transmit env 0 now s).2 := by
  obtain ⟨sent, unsent, hc⟩ := hq.counted
  obtain ⟨g, rest, rfl⟩ := QueueInv.sent_ne_nil hc hne
  have ht := hq.tiled trivial
  have hs : s.out.slist = [] ++ g :: (rest ++ unsent) := hc.slist
  have hh := h.holds ho
  have hl : s.state ≠ .listen := by
    intro hl
    have := hq.listen hl
    rw [hs] at this
    simp at this
  obtain ⟨hseq, -⟩ := hh.seq_toNat ht hc hlt hs
  obtain ⟨hnext, -⟩ := hh.next_toNat hc hlt
  have hx := hc.xmitSent g List.mem_cons_self
  refine h.transmit (p := []) env now hlt ho hl hc ht hs (by simp) (fun h0 => absurd h0 hx)
    fun _ => ?_
  rw [total_nil] at hseq
  rw [total_cons] at hnext
  omega

/-! ### Moves -/

theorem move (h : SendsTo stream queued peer hist s) (hlt : queued < 2 ^ 32)
    (hq : QueueSafe True False s) (ho : s.state ≠ .closed) (hm : Move env now s t) :
    SendsTo stream queued peer hist t := by
  have hi := hq.2 ho
  have hnote : ∀ {u : PseudoTcp} {e : Event}, u.log = s.log ++ [e] →
      (∀ b r, e ≠ .tcpWritePacket b r) → ∀ b, .tcpWritePacket b .success ∈ u.log →
      .tcpWritePacket b .success ∈ s.log ∨ u.HasSent stream peer.Ready b := by
    intro u e hu he b hb
    rw [hu] at hb
    obtain hb | hb := List.mem_append.1 hb
    · exact .inl hb
    · exact absurd (List.mem_singleton.1 hb).symm (he b _)
  cases hm with
  | idle => exact h.quiet rfl rfl fun _ hb => .inl hb
  | pureAck seq =>
    have hp := packet_spec env seq 0 none s
    refine h.quiet hp.out hp.frame.state fun b hb => ?_
    obtain hb | hb := hp.log.mem hb
    · exact .inl hb
    · cases hb with
      | write now' _ => exact .inr (hasSent_packet now' rfl rfl)
  | armAck => exact h.quiet rfl rfl fun _ hb => .inl hb
  | sendNext hav => exact h.transmit_next env env.sendNow hlt hi ho hav
  | retransmit hg => exact h.transmit_again env now hlt hi ho (hi.inFlight_of_guard hg)
  | closedown err =>
    have hst : (s.closedown err).state = .closed := rfl
    exact h.evolve (fun hc => absurd rfl hc) h.next_le (by rw [hst]; simp) h.una_le h.window
      h.next_edge (le_refl _) (fun hc => absurd rfl hc) (by rw [hst]; simp)
      (hnote (e := .onTcpClosed err) rfl (by simp))
  | exitRecovery => exact h.quiet rfl rfl fun _ hb => .inl hb
  | setDup n => exact h.quiet rfl rfl fun _ hb => .inl hb
  | enterRecovery => exact h.quiet rfl rfl fun _ hb => .inl hb
  | opened _ hne =>
    -- the peer has acknowledged the control byte, so it has received one
    have hready : peer.Ready := by
      refine .inl fun h0 => hne ?_
      have := h.una_le
      rw [h0] at this
      bv_omega
    exact h.evolve (fun _ => h.holds ho) h.next_le (fun _ => hready) h.una_le h.window h.next_edge
      (le_refl _) (fun _ => ⟨ho, fun _ hn => hn⟩) (fun hc => absurd hc (by simp))
      (hnote (e := .onTcpOpen) rfl (by simp))
  | writeable =>
    rw [notifyWriteable]
    split
    · exact h.quiet rfl rfl (hnote (e := .onTcpWriteable) rfl (by simp))
    · exact h
  | readable b =>
    rw [notifyReadable]
    split
    · exact h.quiet rfl rfl (hnote (e := .onTcpReadable) rfl (by simp))
    · exact h
  | emptyRetransmit _ _ =>
    exact h.quiet rfl rfl (hnote (e := .assertFailed .emptyRetransmit) rfl (by simp))
  | backOff _ => exact h.quiet rfl rfl fun _ hb => .inl hb
  | probed => exact h.quiet rfl rfl fun _ hb => .inl hb

theorem grow (h : SendsTo stream queued peer hist s) (hg : Grow s t) :
    SendsTo stream queued peer hist t := by
  cases hg with
  | deflate _ => exact h.quiet rfl rfl fun _ hb => .inl hb
  | inflate => exact h.quiet rfl rfl fun _ hb => .inl hb
  | slowStart => exact h.quiet rfl rfl fun _ hb => .inl hb
  | avoid =>
    split
    · refine h.quiet rfl rfl fun b hb => .inl ?_
      simpa using hb
    · exact h.quiet rfl rfl fun _ hb => .inl hb

end SendsTo

/-- The queue is in order, and sends the stream to the peer. -/
structure Sender (stream : ℕ → Byte) (queued : ℕ) (peer : Endpoint) (hist : List (List Byte))
    (s : PseudoTcp) : Prop where
  queue : QueueSafe True False s
  sends : SendsTo stream queued peer hist s

namespace Sender

theorem moves (h : Sender stream queued peer hist s) (hlt : queued < 2 ^ 32)
    (hm : Moves env now s t) : Sender stream queued peer hist t :=
  hm.invariant (P := Sender stream queued peer hist)
    (fun _ _ hs ho hstep => ⟨hs.queue.move ho False.elim False.elim hstep,
      hs.sends.move hlt hs.queue ho hstep⟩) h

theorem controls (h : Sender stream queued peer hist s) (hlt : queued < 2 ^ 32)
    (hm : Controls env now s t) : Sender stream queued peer hist t :=
  hm.invariant (P := Sender stream queued peer hist)
    (fun _ _ hs ho hstep => ⟨hs.queue.move ho False.elim False.elim hstep,
      hs.sends.move hlt hs.queue ho hstep⟩)
    (fun _ _ hs _ hg => ⟨hs.queue.grow hg, hs.sends.grow hg⟩) h

theorem quiet (h : Sender stream queued peer hist s) (hl : LogAdds (QueueEvent True) s t)
    (hout : t.out = s.out) (hst : t.state = s.state) (hrec : t.cc.recover = s.cc.recover)
    (hrto : t.tm.rtoBase = s.tm.rtoBase)
    (hlog : ∀ b, .tcpWritePacket b .success ∈ t.log → .tcpWritePacket b .success ∈ s.log) :
    Sender stream queued peer hist t :=
  ⟨h.queue.quiet hl hout hst hrec hrto, h.sends.quiet hout hst fun b hb => .inl (hlog b hb)⟩

/-! ### Acknowledgements -/

theorem ackAdvance (h : Sender stream queued peer hist s) (ho : s.state ≠ .closed)
    (ha : s.out.Acks seg.ack) (hpeer : peer.Acknowledges seg) :
    Sender stream queued peer hist (s.ackAdvance env seg) := by
  have hcut := (h.sends.ends _ hpeer.ends).2 ho
  have hb := hcut.onBoundary ha
  refine ⟨h.queue.ackAdvance ho False.elim ha fun _ => hb, ?_⟩
  obtain ⟨sent, unsent, hc⟩ := (h.queue.2 ho).counted
  obtain ⟨rttvar, srtt, rto, es, hadv, hes, -⟩ := ackAdvance_spec env seg s
  rw [hadv]
  have hwnd : (seg.wnd.setWidth 32).toNat = seg.wnd.toNat := by
    rw [BitVec.toNat_setWidth]
    omega
  refine h.sends.evolve (fun _ => (h.sends.holds ho).acknowledge hc ha hb _ _) h.sends.next_le
    h.sends.opened hpeer.le ?_ h.sends.next_edge (le_refl _)
    (fun _ => ⟨ho, fun n hn => hn.acknowledge ha hb _ _⟩) id fun b hlog => .inl ?_
  · change seg.ack.toNat + (seg.wnd.setWidth 32).toNat ≤ _
    rw [hwnd]
    exact hpeer.window
  · obtain hlog | hlog := List.mem_append.1 hlog
    · exact hlog
    · obtain he | ⟨he, -⟩ := hes _ hlog <;> exact absurd he (by simp)

theorem setWindow (h : Sender stream queued peer hist s) (hack : seg.ack = s.out.sndUna)
    (hpeer : peer.Acknowledges seg) : Sender stream queued peer hist (s.setWindow seg.wnd) := by
  have hwnd : (seg.wnd.setWidth 32).toNat = seg.wnd.toNat := by
    rw [BitVec.toNat_setWidth]
    omega
  refine ⟨h.queue.setWindow seg.wnd, h.sends.evolve (fun ho => ?_) h.sends.next_le h.sends.opened
    h.sends.una_le ?_ h.sends.next_edge (le_refl _) (fun ho => ⟨ho, fun _ hn => hn⟩) id
    fun _ hb => .inl hb⟩
  · exact (h.sends.holds ho).congr rfl rfl rfl rfl
  · change s.out.sndUna.toNat + (seg.wnd.setWidth 32).toNat ≤ _
    rw [hwnd, ← hack]
    exact hpeer.window

theorem ackRun (h : Sender stream queued peer hist s) (hlt : queued < 2 ^ 32)
    (ho : s.state ≠ .closed) (hpeer : peer.Acknowledges seg) (hr : AckRun env seg s t) :
    Sender stream queued peer hist t := by
  cases hr with
  | ignored => exact h
  | valuable _ h₁ h₂ hc => exact (h.ackAdvance ho ⟨h₁, h₂⟩ hpeer).controls hlt hc
  | duplicate _ hack hc => exact (h.setWindow hack hpeer).controls hlt hc

theorem processData (seg : Segment) (h : Sender stream queued peer hist s) :
    Sender stream queued peer hist (s.processData seg).2.2 := by
  refine ⟨h.queue.processData, ?_⟩
  obtain ⟨es, hd, hev⟩ := processData_spec seg s
  rw [hd]
  refine h.sends.quiet rfl rfl fun b hb => .inl ?_
  obtain hb | hb := List.mem_append.1 hb
  · exact hb
  · cases (hev _ hb).1

/-! ### Queueing -/

theorem queue_ (h : Sender stream queued peer hist s) (data : List Byte) (len : Word)
    (bCtrl : Bool) (st : TcpState) (ho : s.state ≠ .closed) (hst : st ≠ .listen)
    (hopened : st = .established → peer.Ready)
    (hlt : queued + (s.out.fit len).toNat < 2 ^ 32)
    (hdata : ∀ j < (s.out.fit len).toNat, data[j]? = some (stream (queued + j)))
    (hctrl : bCtrl = true → s.state = .listen ∧ queued = 0 ∧ len = 1)
    (hready : bCtrl = false → 1 ≤ queued ∧ peer.Ready) :
    Sender stream (queued + (s.out.fit len).toNat) peer hist
      ({ s with state := st }.queue data len bCtrl).2 := by
  refine ⟨h.queue.queue st ho hst fun hb => ⟨(hctrl hb).1, (hctrl hb).2.2⟩, ?_⟩
  have hq := h.queue.2 ho
  have hh := h.sends.holds ho
  obtain ⟨sent, unsent, hc⟩ := hq.counted
  obtain ⟨l, hqueue, hl⟩ := queue_spec data len bCtrl { s with state := st }
  have hslen := hc.slen_le
  have hfit : s.out.slen.toNat + (s.out.fit len).toNat ≤ kSndBufSize.toNat := by
    rw [Outgoing.fit, Outgoing.kSndBufSize_toNat, kSndBufSize]
    split <;> bv_omega
  have henq := hh.enqueue hc bCtrl hfit hlt hdata (fun hb => by
    obtain ⟨h₁, h₂, h₃⟩ := hctrl hb
    have hslen0 : s.out.slen = 0 := by
      have := hh.stop
      bv_omega
    refine ⟨hq.listen h₁, h₂, ?_⟩
    rw [Outgoing.fit, hslen0, h₃]
    decide) hready
  rw [hqueue]
  refine h.sends.evolve (fun _ => henq) (h.sends.next_le.trans (Nat.le_add_right _ _)) hopened
    h.sends.una_le h.sends.window h.sends.next_edge (le_refl _)
    (fun _ => ⟨ho, fun _ hn => hn.enqueue hc _ _ _⟩) (fun hli => absurd hli hst) fun b hb => .inl ?_
  obtain rfl | ⟨rfl, -, -⟩ := hl
  · exact hb
  · simpa using hb

end Sender

end PseudoTcp

end Jingle
