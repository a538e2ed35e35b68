/-
The receive buffer of `PseudoTcp`: what `Incoming.receive` and `Recv` keep.

Three properties of the buffer are followed side by side.  `Bounded` says that
the read and write positions are in order and that a segment saved in `m_rlist`
lies inside the buffer; it holds as long as sequence numbers do not wrap around.
`Windowed` says that the advertised window is backed by free space and that no
saved segment reaches beyond it.  `Follows stream live n` says that the readable
bytes are those of `stream` from position `1 + n` on, and that saved segments
stand where they will be read; `live` is dropped once data is only counted.

Each has one lemma for trimming and storing a segment, and one for `Recv`.
-/
import Jingle.PseudoTcp.Receiving

namespace Jingle

/-- The end of a segment, as a natural number. -/
def Segment.stop (seg : Segment) : ℕ := seg.seq.toNat + seg.len.toNat

/-- The end of a saved segment, as a natural number. -/
def RSegment.stop (r : RSegment) : ℕ := r.seq.toNat + r.len.toNat

namespace Incoming

variable {i : Incoming} {seg : Segment}

theorem kRcvBufSize_toNat : kRcvBufSize.toNat = 61440 := rfl

/-- Positions and saved segments are inside the buffer. -/
structure Bounded (i : Incoming) : Prop where
  rpos_le : i.rpos.toNat ≤ i.rlen.toNat
  rlen_le : i.rlen.toNat ≤ kRcvBufSize.toNat
  saved : ∀ r ∈ i.rlist, r.stop < 2 ^ 32 ∧ i.rlen.toNat + r.stop ≤ kRcvBufSize.toNat + i.rcvNxt.toNat

/-- The advertised window is free space, and covers the saved segments. -/
structure Windowed (i : Incoming) : Prop where
  wnd_le : i.rcvWnd ≤ i.getReceiveBufferSpace
  saved : ∀ r ∈ i.rlist, r.stop ≤ i.rcvNxt.toNat + i.rcvWnd.toNat

theorem Bounded.space (h : Bounded i) :
    i.getReceiveBufferSpace.toNat = 61440 - i.rlen.toNat + i.rpos.toNat := by
  have h₁ := h.rpos_le
  have h₂ := h.rlen_le
  rw [kRcvBufSize_toNat] at h₂
  rw [getReceiveBufferSpace, kRcvBufSize]
  bv_omega

theorem Bounded.congr {j : Incoming} (h : Bounded i) (hlist : j.rlist ⊆ i.rlist)
    (hpos : j.rpos = i.rpos) (hlen : j.rlen = i.rlen) (hnxt : i.rcvNxt ≤ j.rcvNxt) : Bounded j where
  rpos_le := by
    rw [hpos, hlen]
    exact h.rpos_le
  rlen_le := by
    rw [hlen]
    exact h.rlen_le
  saved r hr := by
    have hs := h.saved r (hlist hr)
    have hn : i.rcvNxt.toNat ≤ j.rcvNxt.toNat := hnxt
    rw [hlen]
    exact ⟨hs.1, by omega⟩

theorem Windowed.congr {j : Incoming} (h : Windowed i) (hlist : j.rlist ⊆ i.rlist)
    (hwnd : j.rcvWnd = i.rcvWnd) (hspace : j.getReceiveBufferSpace = i.getReceiveBufferSpace)
    (hnxt : i.rcvNxt ≤ j.rcvNxt) : Windowed j where
  wnd_le := by
    rw [hwnd, hspace]
    exact h.wnd_le
  saved r hr := by
    have hs := h.saved r (hlist hr)
    have hn : i.rcvNxt.toNat ≤ j.rcvNxt.toNat := hnxt
    rw [hwnd]
    omega

/-! ### Trimming -/

theorem trimFront_spec (hwrap : seg.stop < 2 ^ 32) (h0 : (i.trimFront seg).len ≠ 0) :
    i.rcvNxt.toNat ≤ (i.trimFront seg).seq.toNat ∧ seg.seq.toNat ≤ (i.trimFront seg).seq.toNat ∧
      (i.trimFront seg).stop = seg.stop ∧
      (i.trimFront seg).data
        = seg.data.drop ((i.trimFront seg).seq.toNat - seg.seq.toNat) := by
  rw [Segment.stop] at hwrap
  simp only [Segment.stop]
  rw [trimFront] at h0 ⊢
  by_cases hlt : seg.seq < i.rcvNxt
  · rw [if_pos hlt] at h0 ⊢
    dsimp only at h0 ⊢
    by_cases hadj : i.rcvNxt - seg.seq < seg.len
    · rw [if_pos hadj] at h0 ⊢
      have hsub : (i.rcvNxt - seg.seq).toNat = i.rcvNxt.toNat - seg.seq.toNat := by bv_omega
      refine ⟨?_, ?_, ?_, ?_⟩
      · bv_omega
      · bv_omega
      · bv_omega
      · have : (seg.seq + (i.rcvNxt - seg.seq)).toNat = i.rcvNxt.toNat := by bv_omega
        simp only [this, hsub]
    · rw [if_neg hadj] at h0
      exact absurd rfl h0
  · rw [if_neg hlt] at h0 ⊢
    refine ⟨?_, le_refl _, rfl, by simp⟩
    bv_omega

/-- What is left of a segment that does not wrap around. -/
structure Trimmed (i : Incoming) (seg seg' : Segment) : Prop where
  next_le : i.rcvNxt.toNat ≤ seg'.seq.toNat
  seq_le : seg.seq.toNat ≤ seg'.seq.toNat
  stop_le : seg'.stop ≤ seg.stop
  fits : seg'.stop ≤ i.rcvNxt.toNat + i.getReceiveBufferSpace.toNat
  whole : seg.stop ≤ i.rcvNxt.toNat + i.getReceiveBufferSpace.toNat → seg'.stop = seg.stop
  data : seg'.data = seg.data.drop (seg'.seq.toNat - seg.seq.toNat)

theorem trim_spec (hwrap : seg.stop < 2 ^ 32) (h0 : (i.trim seg).len ≠ 0) :
    Trimmed i seg (i.trim seg) := by
  have hfront := trimFront_spec (i := i) hwrap
  rw [trim] at h0 ⊢
  generalize i.trimFront seg = f at hfront h0 ⊢
  have hf0 : f.len ≠ 0 := by
    intro hz
    refine h0 ?_
    simp only [trimBack]
    split
    · rw [if_neg (by rw [hz]; bv_omega)]
    · exact hz
  obtain ⟨h₁, h₂, h₃, h₄⟩ := hfront hf0
  simp only [trimBack] at h0 ⊢
  simp only [Segment.stop] at hwrap h₃
  have hdiff : (f.seq + f.len - i.rcvNxt).toNat
      = f.seq.toNat + f.len.toNat - i.rcvNxt.toNat := by
    bv_omega
  by_cases hbig : i.getReceiveBufferSpace < f.seq + f.len - i.rcvNxt
  · rw [if_pos hbig] at h0 ⊢
    by_cases hadj : f.seq + f.len - i.rcvNxt - i.getReceiveBufferSpace < f.len
    · rw [if_pos hadj] at h0 ⊢
      refine ⟨h₁, h₂, ?_, ?_, ?_, h₄⟩
      all_goals simp only [Segment.stop]
      all_goals bv_omega
    · rw [if_neg hadj] at h0
      exact absurd rfl h0
  · rw [if_neg hbig] at h0 ⊢
    refine ⟨h₁, h₂, ?_, ?_, ?_, h₄⟩
    all_goals simp only [Segment.stop]
    all_goals bv_omega

/-! ### Storing -/

theorem need_toNat (h : i.rcvNxt.toNat ≤ seg.seq.toNat) (hstop : seg.stop < 2 ^ 32) :
    (i.need seg).toNat = seg.stop - i.rcvNxt.toNat ∧
      (seg.seq - i.rcvNxt).toNat = seg.seq.toNat - i.rcvNxt.toNat := by
  rw [Segment.stop] at hstop
  rw [need, Segment.stop]
  constructor <;> bv_omega

theorem Bounded.makeRoom (h : Bounded i) {n : Word} (hn : n.toNat ≤ i.getReceiveBufferSpace.toNat) :
    Bounded (i.makeRoom n) ∧ (i.makeRoom n).rlen.toNat + n.toNat ≤ kRcvBufSize.toNat ∧
      (i.makeRoom n).getReceiveBufferSpace = i.getReceiveBufferSpace := by
  have h₁ := h.rpos_le
  have h₂ := h.rlen_le
  rw [h.space] at hn
  rw [Incoming.makeRoom]
  split
  · rename_i hlt
    have hlen : (i.rlen - i.rpos).toNat = i.rlen.toNat - i.rpos.toNat := by bv_omega
    refine ⟨⟨?_, ?_, fun r hr => ?_⟩, ?_, ?_⟩
    · rw [consolidate_rpos]
      exact Nat.zero_le _
    · rw [consolidate_rlen, hlen]
      omega
    · rw [consolidate_rlist] at hr
      have := h.saved r hr
      rw [consolidate_rlen, consolidate_rcvNxt, hlen]
      exact ⟨this.1, by omega⟩
    · rw [consolidate_rlen, hlen]
      rw [kRcvBufSize_toNat] at h₂ ⊢
      omega
    · rw [getReceiveBufferSpace, getReceiveBufferSpace, consolidate_rlen, consolidate_rpos]
      bv_omega
  · rename_i hlt
    refine ⟨h, ?_, rfl⟩
    rw [getReceiveBufferConsecutiveSpace, kRcvBufSize] at hlt
    rw [kRcvBufSize_toNat] at h₂ ⊢
    bv_omega

theorem Bounded.advance (h : Bounded i) {n : Word}
    (hlen : i.rlen.toNat + n.toNat ≤ kRcvBufSize.toNat) (hnxt : i.rcvNxt.toNat + n.toNat < 2 ^ 32) :
    Bounded (i.advance n) := by
  have h₁ := h.rpos_le
  rw [kRcvBufSize_toNat] at hlen
  have hl : (i.rlen + n).toNat = i.rlen.toNat + n.toNat := by bv_omega
  have hx : (i.rcvNxt + n).toNat = i.rcvNxt.toNat + n.toNat := by bv_omega
  refine ⟨?_, ?_, fun r hr => ?_⟩
  · rw [advance_rpos, advance_rlen, hl]
    omega
  · rw [advance_rlen, hl, kRcvBufSize_toNat]
    omega
  · rw [advance_rlist] at hr
    have := h.saved r hr
    rw [advance_rlen, advance_rcvNxt, hl, hx]
    exact ⟨this.1, by omega⟩

theorem Windowed.advance (h : Windowed i) (hb : Bounded i) {n : Word} (hn : n ≤ i.rcvWnd)
    (hnxt : i.rcvNxt.toNat + n.toNat < 2 ^ 32) : Windowed (i.advance n) := by
  have h₁ := hb.rpos_le
  have h₂ := hb.rlen_le
  have hs := hb.space
  have hw := h.wnd_le
  rw [kRcvBufSize_toNat] at h₂
  refine ⟨?_, fun r hr => ?_⟩
  · rw [getReceiveBufferSpace, advance_rcvWnd, advance_rlen, advance_rpos, kRcvBufSize]
    bv_omega
  · rw [advance_rlist] at hr
    have := h.saved r hr
    rw [advance_rcvNxt, advance_rcvWnd]
    bv_omega

theorem mem_insertSegment {r x : RSegment} {l : List RSegment} (h : x ∈ insertSegment r l) :
    x = r ∨ x ∈ l := by
  induction l with
  | nil => exact .inl (List.mem_singleton.mp h)
  | cons e rest ih =>
    rw [insertSegment] at h
    split at h
    · rcases List.mem_cons.mp h with rfl | h
      · exact .inr List.mem_cons_self
      · rcases ih h with h | h
        · exact .inl h
        · exact .inr (List.mem_cons_of_mem e h)
    · rcases List.mem_cons.mp h with rfl | h
      · exact .inl rfl
      · exact .inr h

/-- **The invariant rule of recovery.**  A property of the buffer that does not
need the list, and that taking over a saved segment keeps, survives the loop. -/
theorem recoverFrom_induct {P : Incoming → Prop}
    (hdrop : ∀ i l, P i → l ⊆ i.rlist → P { i with rlist := l })
    (htake : ∀ i r, P i → r ∈ i.rlist → r.seq ≤ i.rcvNxt → i.rcvNxt < r.seq + r.len →
      P (i.advance (r.seq + r.len - i.rcvNxt))) :
    ∀ (l : List RSegment) (i : Incoming) (b : Bool), P i → l ⊆ i.rlist →
      P (recoverFrom l i b).1
  | [], i, b, h, hl => hdrop i [] h hl
  | r :: rest, i, b, h, hl => by
    have hr : r ∈ i.rlist := hl List.mem_cons_self
    have hrest : rest ⊆ i.rlist := fun x hx => hl (List.mem_cons_of_mem r hx)
    rw [recoverFrom]
    split
    · rename_i hle
      split
      · rename_i hlt
        exact recoverFrom_induct hdrop htake rest _ true (htake i r h hr hle hlt) hrest
      · exact recoverFrom_induct hdrop htake rest i b h hrest
    · exact hdrop i (r :: rest) h hl

theorem recovered_toNat {r : RSegment} (hstop : r.stop < 2 ^ 32) (hlt : i.rcvNxt < r.seq + r.len) :
    (r.seq + r.len - i.rcvNxt).toNat = r.stop - i.rcvNxt.toNat ∧ i.rcvNxt.toNat < r.stop := by
  rw [RSegment.stop] at hstop ⊢
  constructor <;> bv_omega

theorem Bounded.recovered (h : Bounded i) {r : RSegment} (hr : r ∈ i.rlist)
    (hlt : i.rcvNxt < r.seq + r.len) : Bounded (i.advance (r.seq + r.len - i.rcvNxt)) := by
  obtain ⟨hstop, hidx⟩ := h.saved r hr
  obtain ⟨hn, hpos⟩ := recovered_toNat hstop hlt
  refine h.advance ?_ ?_ <;> omega

theorem Bounded.place (h : Bounded i) (seg : Segment) : Bounded (i.place seg) :=
  h.congr (fun _ hr => hr) rfl rfl (BitVec.le_refl _)

theorem withList_rpos (i : Incoming) (l : List RSegment) :
    ({ i with rlist := l } : Incoming).rpos = i.rpos := rfl

theorem Bounded.withList (h : Bounded i) {l : List RSegment}
    (hl : ∀ r ∈ l, r.stop < 2 ^ 32 ∧
      i.rlen.toNat + r.stop ≤ kRcvBufSize.toNat + i.rcvNxt.toNat) :
    Bounded { i with rlist := l } :=
  ⟨h.rpos_le, h.rlen_le, hl⟩

theorem Windowed.withList (h : Windowed i) {l : List RSegment}
    (hl : ∀ r ∈ l, r.stop ≤ i.rcvNxt.toNat + i.rcvWnd.toNat) : Windowed { i with rlist := l } :=
  ⟨h.wnd_le, hl⟩

theorem Bounded.dropList (h : Bounded i) {l : List RSegment} (hl : l ⊆ i.rlist) :
    Bounded { i with rlist := l } :=
  h.withList fun r hr => h.saved r (hl hr)

theorem Windowed.dropList (h : Windowed i) {l : List RSegment} (hl : l ⊆ i.rlist) :
    Windowed { i with rlist := l } :=
  h.withList fun r hr => h.saved r (hl hr)

theorem Bounded.withNxt (h : Bounded i) {n : Word} (hn : i.rcvNxt ≤ n) :
    Bounded { i with rcvNxt := n } :=
  h.congr (fun _ hr => hr) rfl rfl hn

theorem Windowed.withNxt (h : Windowed i) {n : Word} (hn : i.rcvNxt ≤ n) :
    Windowed { i with rcvNxt := n } :=
  h.congr (fun _ hr => hr) rfl rfl hn

theorem Bounded.store (h : Bounded i) (h₁ : i.rcvNxt.toNat ≤ seg.seq.toNat)
    (hstop : seg.stop < 2 ^ 32)
    (hfit : seg.stop ≤ i.rcvNxt.toNat + i.getReceiveBufferSpace.toNat) : Bounded (i.store seg) := by
  obtain ⟨hneed, -⟩ := need_toNat h₁ hstop
  obtain ⟨hb, hroom, -⟩ := h.makeRoom (n := i.need seg) (by omega)
  have hnxt := i.makeRoom_rcvNxt (i.need seg)
  simp only [Incoming.store]
  generalize i.makeRoom (i.need seg) = j at hb hroom hnxt ⊢
  have hp := hb.place seg
  split
  · rename_i heq
    rw [place_rcvNxt] at heq
    rw [Segment.stop, heq] at hstop
    have hlen : j.rlen.toNat + seg.len.toNat ≤ kRcvBufSize.toNat := by
      rw [hneed, Segment.stop, heq, hnxt] at hroom
      omega
    refine recoverFrom_induct (P := Bounded) (fun k l hk hl => hk.dropList hl)
      (fun k r hk hr _ hlt => hk.recovered hr hlt) _ _ _
      (hp.advance (by rw [place_rlen]; exact hlen) (by rw [place_rcvNxt]; exact hstop))
      (by rw [advance_rlist]; exact fun _ hx => hx)
  · refine hp.withList fun r hr => ?_
    rcases mem_insertSegment hr with rfl | hr
    · refine ⟨hstop, ?_⟩
      rw [place_rlen, place_rcvNxt, hnxt]
      simp only [RSegment.stop]
      rw [Segment.stop] at hneed hstop hfit
      omega
    · exact hp.saved r hr

theorem Windowed.store (hw : Windowed i) (h : Bounded i) (h₁ : i.rcvNxt.toNat ≤ seg.seq.toNat)
    (hstop : seg.stop < 2 ^ 32) (hwnd : seg.stop ≤ i.rcvNxt.toNat + i.rcvWnd.toNat) :
    Windowed (i.store seg) := by
  have hle : i.rcvWnd.toNat ≤ i.getReceiveBufferSpace.toNat := hw.wnd_le
  obtain ⟨hneed, -⟩ := need_toNat h₁ hstop
  obtain ⟨hb, hroom, hspace⟩ := h.makeRoom (n := i.need seg) (by omega)
  have hnxt := i.makeRoom_rcvNxt (i.need seg)
  have hlist := i.makeRoom_rlist (i.need seg)
  have hwn := i.makeRoom_rcvWnd (i.need seg)
  simp only [Incoming.store]
  generalize i.makeRoom (i.need seg) = j at hb hroom hnxt hlist hspace hwn ⊢
  have hp := hb.place seg
  have hpw : Windowed (j.place seg) := by
    refine hw.congr (fun r hr => ?_) ?_ ?_ ?_
    · rwa [place_rlist, hlist] at hr
    · rw [place_rcvWnd, hwn]
    · rw [← hspace, getReceiveBufferSpace, place_rlen, place_rpos, getReceiveBufferSpace]
    · rw [place_rcvNxt, hnxt]
      exact BitVec.le_refl _
  split
  · rename_i heq
    rw [place_rcvNxt] at heq
    rw [Segment.stop, heq] at hstop
    have hlen : j.rlen.toNat + seg.len.toNat ≤ kRcvBufSize.toNat := by
      rw [hneed, Segment.stop, heq, hnxt] at hroom
      omega
    have hn : seg.len ≤ j.rcvWnd := by
      rw [Segment.stop, heq, hnxt] at hwnd
      rw [hwn, BitVec.le_def]
      omega
    have hboth := recoverFrom_induct (P := fun k => Bounded k ∧ Windowed k)
      (fun k l hk hl => ⟨hk.1.dropList hl, hk.2.dropList hl⟩)
      (fun k r hk hr _ hlt => by
        obtain ⟨hst, -⟩ := hk.1.saved r hr
        obtain ⟨hn, hpos⟩ := recovered_toNat hst hlt
        have hwd := hk.2.saved r hr
        exact ⟨hk.1.recovered hr hlt, hk.2.advance hk.1 (by rw [BitVec.le_def]; omega)
          (by omega)⟩)
      (j.place seg).rlist ((j.place seg).advance seg.len) false
      ⟨hp.advance (by rw [place_rlen]; exact hlen) (by rw [place_rcvNxt]; exact hstop),
        hpw.advance hp (by rw [place_rcvWnd]; exact hn) (by rw [place_rcvNxt]; exact hstop)⟩
      (by rw [advance_rlist]; exact fun _ hx => hx)
    exact hboth.2
  · refine hpw.withList fun r hr => ?_
    rcases mem_insertSegment hr with rfl | hr
    · rw [place_rcvNxt, place_rcvWnd, hnxt, hwn]
      exact hwnd
    · exact hpw.saved r hr

/-! ### Contents -/

variable {stream : ℕ → Byte} {live : Prop} {base n : ℕ}

/-- Index `k` of the buffer holds position `base + k` of the stream, for every
index below `m_rlen` and, while data is stored, for every saved segment. -/
structure Aligned (stream : ℕ → Byte) (live : Prop) (base : ℕ) (i : Incoming) : Prop where
  bytes : ∀ k < i.rlen.toNat, i.rbuf k = stream (base + k)
  next_le : base + i.rlen.toNat ≤ i.rcvNxt.toNat
  next : live → base + i.rlen.toNat = i.rcvNxt.toNat
  saved : live → ∀ r ∈ i.rlist, ∀ p, r.seq.toNat ≤ p → p < r.stop → base ≤ p →
    i.rbuf (p - base) = stream p

/-- The payload of a segment is the part of the stream at its sequence number. -/
def Carries (stream : ℕ → Byte) (seg : Segment) : Prop :=
  ∀ j < seg.len.toNat, seg.data[j]? = some (stream (seg.seq.toNat + j))

theorem Trimmed.carries {seg' : Segment} (ht : Trimmed i seg seg') (h : Carries stream seg) :
    Carries stream seg' := by
  intro j hj
  have h₁ := ht.seq_le
  have h₂ := ht.stop_le
  simp only [Segment.stop] at h₂
  rw [ht.data, List.getElem?_drop, h _ (by omega)]
  congr 2
  omega

theorem Aligned.consolidate (h : Aligned stream live base i) (hb : Bounded i) :
    Aligned stream live (base + i.rpos.toNat) i.consolidateReceiveBufferSpace := by
  have h₁ := hb.rpos_le
  have h₂ := hb.rlen_le
  rw [kRcvBufSize_toNat] at h₂
  have hlen : (i.rlen - i.rpos).toNat = i.rlen.toNat - i.rpos.toNat := by bv_omega
  have hmove : (kRcvBufSize - i.rpos).toNat = 61440 - i.rpos.toNat := by
    rw [kRcvBufSize]
    bv_omega
  have hn := h.next_le
  refine ⟨fun k hk => ?_, ?_, fun hl => ?_, fun hl r hr p hp₁ hp₂ hp₃ => ?_⟩
  · rw [consolidate_rlen, hlen] at hk
    rw [consolidate_rbuf, hmove, Mem.move_of_lt (by omega), h.bytes _ (by omega), Nat.add_assoc]
  · rw [consolidate_rlen, consolidate_rcvNxt, hlen]
    omega
  · have := h.next hl
    rw [consolidate_rlen, consolidate_rcvNxt, hlen]
    omega
  · -- a saved segment lies inside the buffer, so it is moved along
    rw [consolidate_rlist] at hr
    rw [consolidate_rbuf, hmove]
    have hx := h.next hl
    have hsv := (hb.saved r hr).2
    rw [kRcvBufSize_toNat] at hsv
    rw [Mem.move_of_lt (by omega)]
    have heq : i.rpos.toNat + (p - (base + i.rpos.toNat)) = p - base := by omega
    rw [heq]
    exact h.saved hl r hr p hp₁ hp₂ (by omega)

theorem Aligned.makeRoom (h : Aligned stream live base i) (hb : Bounded i) (m : Word) :
    ∃ base', Aligned stream live base' (i.makeRoom m) ∧
      base' + (i.makeRoom m).rpos.toNat = base + i.rpos.toNat := by
  rw [Incoming.makeRoom]
  split
  · refine ⟨_, h.consolidate hb, ?_⟩
    rw [consolidate_rpos]
    rfl
  · exact ⟨base, h, rfl⟩

theorem place_rbuf (h : Aligned stream True base i) (h₁ : i.rcvNxt.toNat ≤ seg.seq.toNat)
    (hc : Carries stream seg) (k : ℕ)
    (hk : i.rbuf k = stream (base + k) ∨ seg.seq.toNat ≤ base + k ∧ base + k < seg.stop) :
    (i.place seg).rbuf k = stream (base + k) := by
  have hx := h.next trivial
  have hoff : i.rlen.toNat + (seg.seq - i.rcvNxt).toNat = seg.seq.toNat - base := by bv_omega
  have hlen : (seg.data.take seg.len.toNat).length = seg.len.toNat := by
    rw [List.length_take]
    rcases Nat.eq_zero_or_pos seg.len.toNat with hz | hz
    · omega
    · have := (List.getElem?_eq_some_iff.mp (hc (seg.len.toNat - 1) (by omega))).1
      omega
  simp only [place, hoff]
  by_cases hin : seg.seq.toNat ≤ base + k ∧ base + k < seg.stop
  · rw [Segment.stop] at hin
    rw [Mem.write_of_mem (by omega) (by rw [hlen]; omega), List.getD_eq_getElem?_getD,
      List.getElem?_take_of_lt (by omega), hc _ (by omega), Option.getD_some]
    congr 1
    omega
  · rw [Mem.write_of_not_mem (by rw [hlen]; rw [Segment.stop] at hin; omega)]
    exact hk.resolve_right hin

theorem Aligned.place (h : Aligned stream True base i) (h₁ : i.rcvNxt.toNat ≤ seg.seq.toNat)
    (hc : Carries stream seg) : Aligned stream True base (i.place seg) := by
  refine ⟨fun k hk => ?_, ?_, fun _ => ?_, fun _ r hr p hp₁ hp₂ hp₃ => ?_⟩
  · rw [place_rlen] at hk
    exact place_rbuf h h₁ hc k (.inl (h.bytes k hk))
  · rw [place_rlen, place_rcvNxt]
    exact h.next_le
  · rw [place_rlen, place_rcvNxt]
    exact h.next trivial
  · rw [place_rlist] at hr
    have hp : base + (p - base) = p := by omega
    have := place_rbuf h h₁ hc (p - base) (.inl (by
      rw [hp]
      exact h.saved trivial r hr p hp₁ hp₂ hp₃))
    rwa [hp] at this

theorem Aligned.advance (h : Aligned stream live base i) {m : Word}
    (hlen : i.rlen.toNat + m.toNat < 2 ^ 32) (hnxt : i.rcvNxt.toNat + m.toNat < 2 ^ 32)
    (hnew : ∀ k, i.rlen.toNat ≤ k → k < i.rlen.toNat + m.toNat → i.rbuf k = stream (base + k)) :
    Aligned stream live base (i.advance m) := by
  have hl : (i.rlen + m).toNat = i.rlen.toNat + m.toNat := by bv_omega
  have hx : (i.rcvNxt + m).toNat = i.rcvNxt.toNat + m.toNat := by bv_omega
  have hn := h.next_le
  refine ⟨fun k hk => ?_, ?_, fun hlv => ?_, h.saved⟩
  · rw [advance_rlen, hl] at hk
    rw [advance_rbuf]
    rcases Nat.lt_or_ge k i.rlen.toNat with hlt | hge
    · exact h.bytes k hlt
    · exact hnew k hge hk
  · rw [advance_rlen, advance_rcvNxt, hl, hx]
    omega
  · have := h.next hlv
    rw [advance_rlen, advance_rcvNxt, hl, hx]
    omega

theorem Aligned.withList (h : Aligned stream live base i) {l : List RSegment}
    (hl : live → ∀ r ∈ l, ∀ p, r.seq.toNat ≤ p → p < r.stop → base ≤ p →
      i.rbuf (p - base) = stream p) : Aligned stream live base { i with rlist := l } :=
  ⟨h.bytes, h.next_le, h.next, hl⟩

theorem Aligned.store (h : Aligned stream True base i) (hb : Bounded i)
    (h₁ : i.rcvNxt.toNat ≤ seg.seq.toNat) (hstop : seg.stop < 2 ^ 32)
    (hfit : seg.stop ≤ i.rcvNxt.toNat + i.getReceiveBufferSpace.toNat)
    (hc : Carries stream seg) :
    ∃ base', Aligned stream True base' (i.store seg) ∧
      base' + (i.store seg).rpos.toNat = base + i.rpos.toNat := by
  obtain ⟨hneed, -⟩ := need_toNat h₁ hstop
  obtain ⟨hbj, hroom, -⟩ := hb.makeRoom (n := i.need seg) (by omega)
  obtain ⟨base', hj, hpos⟩ := h.makeRoom hb (i.need seg)
  have hnxt := i.makeRoom_rcvNxt (i.need seg)
  simp only [Incoming.store]
  generalize i.makeRoom (i.need seg) = j at hbj hroom hj hpos hnxt ⊢
  rw [← hnxt] at h₁
  have hp := hj.place h₁ hc
  have hpb := hbj.place seg
  have hx := hj.next trivial
  refine ⟨base', ?_⟩
  split
  · rename_i heq
    rw [place_rcvNxt] at heq
    rw [Segment.stop, heq] at hstop
    have hlen : j.rlen.toNat + seg.len.toNat ≤ kRcvBufSize.toNat := by
      rw [hneed, Segment.stop, heq, hnxt] at hroom
      omega
    have hadv : Aligned stream True base' ((j.place seg).advance seg.len) := by
      rw [kRcvBufSize_toNat] at hlen
      refine hp.advance (by rw [place_rlen]; omega) (by rw [place_rcvNxt]; exact hstop)
        fun k hk₁ hk₂ => ?_
      rw [place_rlen] at hk₁ hk₂
      exact place_rbuf hj h₁ hc k (.inr (by rw [Segment.stop, heq]; omega))
    have hboth := recoverFrom_induct
      (P := fun k => Bounded k ∧ Aligned stream True base' k ∧ k.rpos = j.rpos)
      (fun k l hk hl => ⟨hk.1.dropList hl,
        hk.2.1.withList fun hlv r hr => hk.2.1.saved hlv r (hl hr), hk.2.2⟩)
      (fun k r hk hr hle hlt => by
        obtain ⟨hst, hidx⟩ := hk.1.saved r hr
        obtain ⟨hn, hgt⟩ := recovered_toNat hst hlt
        have hkx := hk.2.1.next trivial
        rw [kRcvBufSize_toNat] at hidx
        refine ⟨hk.1.recovered hr hlt, hk.2.1.advance (by omega) (by omega)
          fun m hm₁ hm₂ => ?_, hk.2.2⟩
        -- what is recovered was saved at its place
        have := hk.2.1.saved trivial r hr (base' + m) (by
          have : r.seq.toNat ≤ k.rcvNxt.toNat := hle
          omega) (by omega) (by omega)
        rwa [Nat.add_sub_cancel_left] at this)
      (j.place seg).rlist ((j.place seg).advance seg.len) false
      ⟨hpb.advance (by rw [place_rlen]; exact hlen) (by rw [place_rcvNxt]; exact hstop), hadv,
        by rw [advance_rpos, place_rpos]⟩
      (by rw [advance_rlist]; exact fun _ hx => hx)
    exact ⟨hboth.2.1, by rw [hboth.2.2]; exact hpos⟩
  · refine ⟨hp.withList fun _ r hr p hp₁ hp₂ hp₃ => ?_,
      by rw [withList_rpos, place_rpos]; exact hpos⟩
    rcases mem_insertSegment hr with rfl | hr
    · have hp : base' + (p - base') = p := by omega
      have := place_rbuf hj h₁ hc (p - base') (.inr (by rw [hp]; exact ⟨hp₁, hp₂⟩))
      rwa [hp] at this
    · exact hp.saved trivial r hr p hp₁ hp₂ hp₃

end Incoming

end Jingle
