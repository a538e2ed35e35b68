/-
Reassembly: what is readable is the stream the segments were cut from.

A stream is a function from positions to bytes; position `0` is the control byte
and the data starts at position `1`.  `Incoming.Follows stream live n` says that
the next readable byte is position `1 + n`.  The result is about runs in which
the control byte is received before any data: the control byte is counted in
`m_rcv_nxt` but not in `m_rlen`, so a segment that was saved before it is later
recovered one byte off (`reassembly_data_before_control`).
-/
import Jingle.PseudoTcp.RecvInv

namespace Jingle

namespace Incoming

variable {i : Incoming} {seg : Segment} {stream : ℕ → Byte} {live : Prop} {n : ℕ}

/-- The buffer follows the stream, of which `n` data bytes were read. -/
structure Follows (stream : ℕ → Byte) (live : Prop) (n : ℕ) (i : Incoming) : Prop where
  fresh : i.rcvNxt = 0 → i.rlen = 0 ∧ i.rpos = 0 ∧ i.rlist = [] ∧ n = 0
  started : i.rcvNxt ≠ 0 → ∃ base, Aligned stream live base i ∧ base + i.rpos.toNat = 1 + n

theorem Aligned.mono {live' : Prop} {base : ℕ} (h : Aligned stream live base i)
    (hl : live' → live) : Aligned stream live' base i :=
  ⟨h.bytes, h.next_le, fun hlv => h.next (hl hlv), fun hlv => h.saved (hl hlv)⟩

theorem Follows.mono {live' : Prop} (h : Follows stream live n i) (hl : live' → live) :
    Follows stream live' n i := by
  refine ⟨h.fresh, fun hne => ?_⟩
  obtain ⟨base, ha, hpos⟩ := h.started hne
  exact ⟨base, ha.mono hl, hpos⟩

theorem Follows.readable (h : Follows stream live n i) (hb : Bounded i) {k : ℕ}
    (hk : k < (i.rlen - i.rpos).toNat) : i.rbuf (i.rpos.toNat + k) = stream (1 + n + k) := by
  have h₁ := hb.rpos_le
  have hsub : (i.rlen - i.rpos).toNat = i.rlen.toNat - i.rpos.toNat := by bv_omega
  rw [hsub] at hk
  by_cases h0 : i.rcvNxt = 0
  · obtain ⟨hl, hp, -, -⟩ := h.fresh h0
    rw [hl, hp] at hk
    exact absurd hk (by simp)
  · obtain ⟨base, ha, hpos⟩ := h.started h0
    rw [ha.bytes _ (by omega), ← hpos]
    congr 1
    omega

theorem Follows.receive_control (h : Follows stream live n i) (hseq : seg.seq = 0)
    (hlen : seg.len = 1) : Follows stream live n (i.receive true seg) := by
  have hstop : seg.stop < 2 ^ 32 := by
    rw [Segment.stop, hseq, hlen]
    decide
  rw [receive]
  split
  · exact h
  · rename_i h0
    have ht := trim_spec hstop h0
    have hle := ht.stop_le
    have hnext := ht.next_le
    rw [Segment.stop, Segment.stop, hseq, hlen] at hle
    have hz : i.rcvNxt = 0 := by bv_omega
    have hone : (i.trim seg).len = 1 := by bv_omega
    rw [if_pos rfl]
    split
    · -- the first byte of the stream: an empty buffer starts behind it
      obtain ⟨hrl, hrp, hlist, hn⟩ := h.fresh hz
      refine ⟨fun hx => ?_, fun _ => ⟨1, ⟨fun k hk => ?_, ?_, fun _ => ?_, fun _ r hr => ?_⟩, ?_⟩⟩
      · simp only [hz, hone] at hx
        exact absurd hx (by decide)
      · simp only [hrl] at hk
        exact absurd hk (by simp)
      · simp only [hrl, hz, hone]
        decide
      · simp only [hrl, hz, hone]
        decide
      · simp only [hlist] at hr
        exact absurd hr (by simp)
      · simp only [hrp, hn]
        decide
    · exact h

theorem Follows.receive_data {ignore : Bool} (h : Follows stream live n i)
    (hignore : ignore = true → ¬ live) (hstore : ignore = false → live)
    (hnxt : seg.len ≠ 0 → i.rcvNxt ≠ 0) (hstop : seg.len ≠ 0 → seg.stop < 2 ^ 32)
    (hc : Carries stream seg) (hb : Bounded i) : Follows stream live n (i.receive ignore seg) := by
  rw [receive]
  split
  · exact h
  · rename_i h0
    have hne : seg.len ≠ 0 := fun hz => h0 (trim_len_zero hz)
    have ht := trim_spec (hstop hne) h0
    have hle := ht.stop_le
    have hlt := hstop hne
    obtain ⟨base, ha, hpos⟩ := h.started (hnxt hne)
    split
    · rename_i hig
      split
      · rename_i heq
        have hx : (i.rcvNxt + (i.trim seg).len).toNat
            = i.rcvNxt.toNat + (i.trim seg).len.toNat := by
          rw [Segment.stop] at hle
          rw [← heq]
          bv_omega
        have hn := ha.next_le
        refine ⟨fun hz => ?_, fun _ => ⟨base, ⟨ha.bytes, ?_, fun hlv => absurd hlv (hignore hig),
          fun hlv => absurd hlv (hignore hig)⟩, hpos⟩⟩
        · have := congrArg BitVec.toNat hz
          simp only [hx] at this
          have hr := hnxt hne
          bv_omega
        · simp only [hx]
          omega
      · exact h
    · rename_i hig
      have hlv : live := hstore (by simpa using hig)
      obtain ⟨base', ha', hpos'⟩ := (ha.mono fun _ : True => hlv).store hb ht.next_le
        (by omega) ht.fits (ht.carries hc)
      refine ⟨fun hz => ?_, fun _ => ⟨base', ha'.mono fun _ => trivial, hpos'.trans hpos⟩⟩
      -- the position of the next byte never goes back to the control byte
      have h₁ := ha'.next trivial
      have h₂ := (hb.store ht.next_le (by omega) ht.fits).rpos_le
      rw [hz] at h₁
      have h₃ : (0 : Word).toNat = 0 := rfl
      omega

theorem Follows.taken (h : Follows stream live n i) {m : Word} (hb : Bounded i)
    (hm : m ≤ i.rlen - i.rpos) :
    Follows stream live (n + m.toNat) { i with rpos := i.rpos + m } := by
  have h₁ := hb.rpos_le
  have hp : (i.rpos + m).toNat = i.rpos.toNat + m.toNat := by bv_omega
  refine ⟨fun hz => ?_, fun hne => ?_⟩
  · obtain ⟨hl, hr, hlist, hn⟩ := h.fresh hz
    rw [hl, hr] at hm
    have hm0 : m = 0 := by bv_omega
    refine ⟨hl, ?_, hlist, ?_⟩
    · simp only [hr, hm0]
      decide
    · rw [hn, hm0]
      rfl
  · obtain ⟨base, ha, hpos⟩ := h.started hne
    refine ⟨base, ⟨ha.bytes, ha.next_le, ha.next, ha.saved⟩, ?_⟩
    simp only [hp]
    omega

theorem Follows.opened (h : Follows stream live n i) (w : Word) :
    Follows stream live n { i with rcvWnd := w } := by
  refine ⟨h.fresh, fun hne => ?_⟩
  obtain ⟨base, ha, hpos⟩ := h.started hne
  exact ⟨base, ⟨ha.bytes, ha.next_le, ha.next, ha.saved⟩, hpos⟩

end Incoming

/-! ### Runs with a reader -/

/-- An object and the bytes its user has read from it. -/
structure Reader where
  tcp : PseudoTcp
  recvd : List Byte

/-- The bytes a call hands to the user. -/
def copied : Op → Ret → List Byte
  | .recv _, .bytes _ data => data
  | _, _ => []

/-- One API call that meets `ok`. -/
def Reader.Next (ok : PseudoTcp → Env → Op → Prop) (r r' : Reader) : Prop :=
  ∃ env op, ok r.tcp env op ∧
    r' = { tcp := (step env op r.tcp).2, recvd := r.recvd ++ copied op (step env op r.tcp).1 }

/-- The readers of runs whose calls all meet `ok`. -/
def Reader.Reachable (ok : PseudoTcp → Env → Op → Prop) : Reader → Prop :=
  Reach (fun r => IsInit r.tcp ∧ r.recvd = []) (Reader.Next ok)

/-- A segment is cut from the stream at position `p`: the control byte alone
with `FLAG_CTL`, or data without it. -/
def CutAt (stream : ℕ → Byte) (p : ℕ) (seg : Segment) : Prop :=
  seg.seq = BitVec.ofNat 32 p ∧
    (∀ j < seg.len.toNat, seg.data[j]? = some (stream (p + j))) ∧
    (seg.flags &&& flagCtl ≠ 0 → p = 0 ∧ seg.len = 1) ∧
    (seg.flags &&& flagCtl = 0 → seg.len ≠ 0 → 1 ≤ p)

/-- A packet is cut from the stream.  A packet without data is not bound to a
position. -/
def PacketCut (stream : ℕ → Byte) (s : PseudoTcp) (op : Op) : Prop :=
  ∀ buffer seg, op = .notifyPacket buffer → buffer.length ≤ maxPacket.toNat →
    parseSegment buffer = some seg → s.TakesUp seg → seg.len ≠ 0 → ∃ p, CutAt stream p seg

/-- Moreover it ends below `2 ^ 32`, and data comes after the control byte. -/
def PacketAfterControl (stream : ℕ → Byte) (s : PseudoTcp) (op : Op) : Prop :=
  ∀ buffer seg, op = .notifyPacket buffer → buffer.length ≤ maxPacket.toNat →
    parseSegment buffer = some seg → s.TakesUp seg → seg.len ≠ 0 →
    ∃ p, CutAt stream p seg ∧ p + seg.len.toNat < 2 ^ 32 ∧
      (seg.flags &&& flagCtl = 0 → s.inc.rcvNxt ≠ 0)

namespace PseudoTcp

variable {env : Env} {seg : Segment} {s t : PseudoTcp} {stream : ℕ → Byte} {n : ℕ}

/-- The invariant of a reader's object. -/
structure StreamSafe (stream : ℕ → Byte) (n : ℕ) (s : PseudoTcp) : Prop where
  bounded : s.inc.Bounded
  follows : s.inc.Follows stream (s.shutdown = .none) n

theorem StreamSafe.frame (h : StreamSafe stream n s) (hf : RecvFrame s t) :
    StreamSafe stream n t := by
  refine ⟨by rw [hf.inc]; exact h.bounded, ?_⟩
  rw [hf.inc, hf.shutdown]
  exact h.follows

theorem StreamSafe.process {b : Bool} (h : StreamSafe stream n s)
    (hcut : s.TakesUp seg → seg.len ≠ 0 → ∃ p, CutAt stream p seg ∧ p + seg.len.toNat < 2 ^ 32 ∧
      (seg.flags &&& flagCtl = 0 → s.inc.rcvNxt ≠ 0))
    (hr : ProcessRun env seg s b t) : StreamSafe stream n t := by
  rcases process_recv hr with hf | ⟨htake, hinc, hsh, -, -⟩
  · exact h.frame hf
  have hseq : ∀ p, p + seg.len.toNat < 2 ^ 32 → seg.seq = BitVec.ofNat 32 p →
      seg.seq.toNat = p := by
    intro p hp heq
    rw [heq, BitVec.toNat_ofNat, Nat.mod_eq_of_lt (by omega)]
  have hstop : seg.len ≠ 0 → seg.stop < 2 ^ 32 := by
    intro hne
    obtain ⟨p, hc, hp, -⟩ := hcut htake hne
    rw [Segment.stop, hseq p hp hc.1]
    exact hp
  refine ⟨by rw [hinc]; exact h.bounded.receive hstop, ?_⟩
  rw [hinc, hsh]
  by_cases hctl : seg.flags &&& flagCtl = 0
  · refine h.follows.receive_data (fun hig => ?_) (fun hig => ?_) (fun hne => ?_) hstop
      (fun j hj => ?_) h.bounded
    · simpa [ignoresData, hctl] using hig
    · simpa [ignoresData, hctl] using hig
    · obtain ⟨p, -, -, hnxt⟩ := hcut htake hne
      exact hnxt hctl
    · obtain ⟨p, hc, hp, -⟩ := hcut htake (fun hz => by rw [hz] at hj; simp at hj)
      rw [hc.2.1 j hj, hseq p hp hc.1]
  · have hne : seg.len ≠ 0 := (htake.2.2.2 hctl).1
    obtain ⟨p, hc, hp, -⟩ := hcut htake hne
    obtain ⟨rfl, hone⟩ := hc.2.2.1 hctl
    have hig : s.ignoresData seg = true := decide_eq_true (.inl hctl)
    rw [hig]
    exact h.follows.receive_control hc.1 hone

/-- What a call hands to the user are the next bytes of the stream. -/
def NextBytes (stream : ℕ → Byte) (n : ℕ) (bs : List Byte) : Prop :=
  ∀ k (hk : k < bs.length), bs[k] = stream (1 + n + k)

theorem step_streamSafe (env : Env) {op : Op} (h : StreamSafe stream n s)
    (hok : PacketAfterControl stream s op) :
    StreamSafe stream (n + (copied op (step env op s).1).length) (step env op s).2 ∧
      NextBytes stream n (copied op (step env op s).1) := by
  set s₀ : PseudoTcp := { s with log := [] } with hs₀
  have h₀ : StreamSafe stream n s₀ := ⟨h.bounded, h.follows⟩
  have hnil : NextBytes stream n [] := fun k hk => absurd hk (by simp)
  have hquiet : ∀ {t : PseudoTcp}, t.inc = s₀.inc → t.shutdown = s₀.shutdown →
      StreamSafe stream n t :=
    fun hi hs => ⟨by rw [hi]; exact h₀.bounded, by rw [hi, hs]; exact h₀.follows⟩
  have hcall := step_call env op s
  rw [← hs₀] at hcall
  generalize (step env op s).1 = r at hcall ⊢
  generalize (step env op s).2 = t at hcall ⊢
  cases hcall with
  | connectAgain _ => exact ⟨hquiet rfl rfl, hnil⟩
  | connect _ _ hm =>
    exact ⟨StreamSafe.frame (s := { s₀ with state := .synSent }) (hquiet rfl rfl)
      ((queue_recvFrame _ _ _ _).trans hm.recvFrame), hnil⟩
  | sendNot _ _ => exact ⟨hquiet rfl rfl, hnil⟩
  | sendFull _ _ _ => exact ⟨hquiet rfl rfl, hnil⟩
  | send _ _ _ hm =>
    exact ⟨h₀.frame ((queue_recvFrame _ _ _ _).trans hm.recvFrame), hnil⟩
  | recvNot _ _ => exact ⟨hquiet rfl rfl, hnil⟩
  | recvEmpty _ _ _ => exact ⟨hquiet rfl rfl, hnil⟩
  | recv len l _ _ _ _ ht =>
    have hm := readLen_le len s₀
    simp only [copied, Mem.length_read]
    refine ⟨?_, fun k hk => ?_⟩
    · have htaken : StreamSafe stream (n + (s₀.readLen len).toNat)
          ({ s₀ with log := l }.taken (s₀.readLen len)) :=
        ⟨h₀.bounded.taken hm, h₀.follows.taken h₀.bounded hm⟩
      rcases ht with rfl | hmv
      · exact htaken
      · refine StreamSafe.frame ?_ hmv.recvFrame
        exact ⟨htaken.bounded.withWnd _, htaken.follows.opened _⟩
    · rw [Mem.getElem_read]
      rw [Mem.length_read] at hk
      exact h₀.follows.readable h₀.bounded (lt_of_lt_of_le hk hm)
  | close force =>
    refine ⟨⟨h₀.bounded, h₀.follows.mono fun hc => ?_⟩, hnil⟩
    cases force <;> simp [PseudoTcp.close] at hc
  | setOption opt _ => cases opt <;> exact ⟨hquiet rfl rfl, hnil⟩
  | notifyMTU mtu =>
    refine ⟨?_, hnil⟩
    rw [PseudoTcp.notifyMTU]
    dsimp only
    split <;> exact hquiet rfl rfl
  | notifyClock _ _ hm => exact ⟨h₀.frame hm.recvFrame, hnil⟩
  | badLength _ _ => exact ⟨h₀, hnil⟩
  | shortHeader _ _ => exact ⟨hquiet rfl rfl, hnil⟩
  | packet buffer seg b _ hlen hp hrun =>
    exact ⟨h₀.process (hok buffer seg rfl hlen hp) hrun, hnil⟩

theorem init_streamSafe (h : IsInit s) : StreamSafe stream 0 s := by
  have hb := (init_bufferSafe h).bounded
  obtain ⟨rbuf, sbuf, now, conv, rfl⟩ := h
  exact ⟨hb, ⟨fun _ => ⟨rfl, rfl, rfl, rfl⟩, fun hne => absurd rfl hne⟩⟩

/-- **Reassembly.**  In every run whose data segments are cut from a stream,
end below `2 ^ 32` and come after the control byte, the bytes read and the bytes
still readable are the data of the stream from its start. -/
theorem reassembly {stream : ℕ → Byte} {r : Reader}
    (h : Reader.Reachable (fun s _ op => PacketAfterControl stream s op) r) :
    (∀ k (hk : k < r.recvd.length), r.recvd[k] = stream (1 + k)) ∧
      ∀ i < (r.tcp.inc.rlen - r.tcp.inc.rpos).toNat,
        r.tcp.inc.rbuf (r.tcp.inc.rpos.toNat + i) = stream (1 + r.recvd.length + i) := by
  have hinv : NextBytes stream 0 r.recvd ∧ StreamSafe stream r.recvd.length r.tcp := by
    refine Reach.invariant
      (I := fun r => NextBytes stream 0 r.recvd ∧ StreamSafe stream r.recvd.length r.tcp)
      (fun r hr => ?_) (fun r r' _ hr hn => ?_) r h
    · rw [hr.2]
      exact ⟨fun k hk => absurd hk (by simp), init_streamSafe hr.1⟩
    · obtain ⟨env, op, hok, rfl⟩ := hn
      obtain ⟨hs, hb⟩ := step_streamSafe env hr.2 hok
      refine ⟨fun k hk => ?_, by rw [List.length_append]; exact hs⟩
      rw [List.getElem_append]
      split
      · exact hr.1 k _
      · rename_i hge
        rw [hb]
        congr 1
        omega
  refine ⟨fun k hk => ?_, fun i hi => hinv.2.follows.readable hinv.2.bounded hi⟩
  have := hinv.1 k hk
  rwa [Nat.add_zero] at this

/-! ### Two arrival orders -/

/-- A stream with two data bytes. -/
def twoBytes : ℕ → Byte := fun p => [ctlConnect, 10, 20].getD p 0

/-- The part `[p, p + data.length)` of a stream in a packet of its own. -/
def pieceCall (p : Word) (flags : Byte) (data : List Byte) : Env × Op :=
  (.steady 1, .notifyPacket (header 7 p 0 flags 1000 1 0 ++ data))

/-- Its segment. -/
def pieceSegment (p : Word) (flags : Byte) (data : List Byte) : Segment where
  conv := 7
  seq := p
  ack := 0
  flags := flags
  wnd := 1000
  data := data
  len := BitVec.ofNat 32 data.length
  tsval := 1
  tsecr := 0

theorem pieceCall_segment {p : Word} {flags : Byte} {data buffer : List Byte} {seg : Segment}
    (hop : (pieceCall p flags data).2 = .notifyPacket buffer)
    (hp : parseSegment buffer = some seg) : seg = pieceSegment p flags data := by
  obtain rfl := Op.notifyPacket.inj hop
  exact (Option.some.inj ((parseSegment_header 7 p 0 flags 1000 1 0 data).symm.trans hp)).symm

/-- The control byte first, then the data in one segment. -/
theorem reassembly_in_order :
    ∃ r, Reader.Reachable (fun s _ op => PacketAfterControl twoBytes s op) r ∧
      r.tcp = run [(.steady 1, .connect), pieceCall 0 flagCtl [ctlConnect], pieceCall 1 0 [10, 20]]
        (.fresh 1 7) ∧
      r.tcp.inc.rbuf r.tcp.inc.rpos.toNat = 10 := by
  have hcut : ∀ (s : PseudoTcp) (p : Word) (flags : Byte) (data : List Byte),
      CutAt twoBytes p.toNat (pieceSegment p flags data) →
      p.toNat + (BitVec.ofNat 32 data.length).toNat < 2 ^ 32 →
      (flags &&& flagCtl = 0 → s.inc.rcvNxt ≠ 0) →
      PacketAfterControl twoBytes s (pieceCall p flags data).2 := by
    intro s p flags data hc hlt hn buffer seg hop _ hp _ _
    obtain rfl := pieceCall_segment hop hp
    exact ⟨p.toNat, hc, hlt, hn⟩
  have h₀ : Reader.Reachable (fun s _ op => PacketAfterControl twoBytes s op)
      { tcp := .fresh 1 7, recvd := [] } := Reach.init ⟨⟨_, _, 1, 7, rfl⟩, rfl⟩
  have h₁ := Reach.step h₀ ⟨.steady 1, .connect, fun _ _ hop => absurd hop (by simp), rfl⟩
  have h₂ := Reach.step h₁ ⟨.steady 1, _, hcut _ 0 flagCtl [ctlConnect]
    ⟨by decide, by decide, by decide, by decide⟩ (by decide) (by decide), rfl⟩
  have h₃ := Reach.step h₂ ⟨.steady 1, _, hcut _ 1 0 [10, 20]
    ⟨by decide, by decide, by decide, by decide⟩ (by decide) (fun _ => by decide), rfl⟩
  refine ⟨_, h₃, rfl, ?_⟩
  exact (reassembly h₃).2 0 (by decide)

/-- The second data byte arrives before the control byte: it is saved at offset
two, and the control byte then shifts the offsets by one. -/
theorem reassembly_data_before_control :
    ∃ r, Reader.Reachable (fun s _ op => PacketCut twoBytes s op ∧ PacketInWindow s op) r ∧
      (r.tcp.inc.rlen - r.tcp.inc.rpos).toNat = 2 ∧ r.recvd = [] ∧
      r.tcp.inc.rbuf (r.tcp.inc.rpos.toNat + 1) ≠ twoBytes (1 + 0 + 1) := by
  have hcut : ∀ (s : PseudoTcp) (p : Word) (flags : Byte) (data : List Byte),
      CutAt twoBytes p.toNat (pieceSegment p flags data) →
      p.toNat + (BitVec.ofNat 32 data.length).toNat < 2 ^ 32 →
      p.toNat + (BitVec.ofNat 32 data.length).toNat ≤ s.inc.rcvNxt.toNat + s.inc.rcvWnd.toNat →
      PacketCut twoBytes s (pieceCall p flags data).2 ∧
        PacketInWindow s (pieceCall p flags data).2 := by
    intro s p flags data hc hlt hw
    refine ⟨fun buffer seg hop _ hp _ _ => ?_, fun buffer seg hop _ hp _ _ => ?_⟩
    · obtain rfl := pieceCall_segment hop hp
      exact ⟨p.toNat, hc⟩
    · obtain rfl := pieceCall_segment hop hp
      exact ⟨hlt, .inl hw⟩
  have h₀ : Reader.Reachable (fun s _ op => PacketCut twoBytes s op ∧ PacketInWindow s op)
      { tcp := .fresh 1 7, recvd := [] } := Reach.init ⟨⟨_, _, 1, 7, rfl⟩, rfl⟩
  have h₁ := Reach.step h₀ ⟨.steady 1, .connect,
    ⟨fun _ _ hop => absurd hop (by simp), fun _ _ hop => absurd hop (by simp)⟩, rfl⟩
  have h₂ := Reach.step h₁ ⟨.steady 1, _, hcut _ 2 0 [20]
    ⟨by decide, by decide, by decide, by decide⟩ (by decide) (by decide), rfl⟩
  have h₃ := Reach.step h₂ ⟨.steady 1, _, hcut _ 0 flagCtl [ctlConnect]
    ⟨by decide, by decide, by decide, by decide⟩ (by decide) (by decide), rfl⟩
  have h₄ := Reach.step h₃ ⟨.steady 1, _, hcut _ 1 0 [10]
    ⟨by decide, by decide, by decide, by decide⟩ (by decide) (by decide), rfl⟩
  exact ⟨_, h₄, by decide, by decide, by decide⟩

end PseudoTcp

end Jingle
