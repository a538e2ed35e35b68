/-
The send queue of `PseudoTcp`: how the operations on `m_slist` keep its shape.

`Outgoing.Counted o sent unsent` is the part of the representation invariant
that does not depend on where acknowledgements fall: the list is a transmitted
part followed by an untransmitted one, the lengths of the first add up to the
bytes in flight and all lengths to `m_slen`.  `Outgoing.Tiled` adds that the
segments tile `[m_snd_una, m_snd_una + m_slen)`; it survives an acknowledgement
only on a segment boundary, since a shortened front segment keeps its `seq`.

There is one lemma for each edit: `enqueue`, `breakSegment`, `transmitted` (of
an untransmitted and of a transmitted segment) and `acknowledge`.
-/
import Jingle.PseudoTcp.Sending
import Jingle.Lib.Tiling

namespace Jingle

/-- What is left of a segment behind its first `n` bytes. -/
def SSegment.remainder (n : Word) (g : SSegment) : List SSegment :=
  if n < g.len then [{ seq := g.seq + n, len := g.len - n, xmit := g.xmit, bCtrl := g.bCtrl }]
  else []

namespace SSegment

variable {g : SSegment} {n : Word}

theorem total_remainder (h : n ≤ g.len) :
    total SSegment.len (g.remainder n) = g.len.toNat - n.toNat := by
  rw [remainder]
  split
  · simp only [total_cons, total_nil]
    bv_omega
  · rw [total_nil]
    bv_omega

theorem mem_remainder {x : SSegment} (h : x ∈ g.remainder n) :
    x.xmit = g.xmit ∧ x.bCtrl = g.bCtrl ∧ x.len ≠ 0 := by
  rw [remainder] at h
  split at h
  · rw [List.mem_singleton.mp h]
    refine ⟨rfl, rfl, ?_⟩
    show g.len - n ≠ 0
    bv_omega
  · exact absurd h (by simp)

theorem tiles_remainder : Tiles SSegment.seq SSegment.len (g.seq + n) (g.remainder n) := by
  rw [remainder]
  split
  · exact ⟨rfl, trivial⟩
  · trivial

end SSegment

theorem mem_dropLast_append {l r : List SSegment} {x : SSegment} (h : x ∈ (l ++ r).dropLast) :
    x ∈ l ∨ x ∈ r.dropLast := by
  rcases r with _ | ⟨y, ys⟩
  · rw [List.append_nil] at h
    exact .inl (List.mem_of_mem_dropLast h)
  · rw [List.dropLast_append_of_ne_nil (by simp)] at h
    exact List.mem_append.mp h

namespace Outgoing

variable {o : Outgoing} {sent unsent : List SSegment}

/-- The send list is `sent ++ unsent`, and the counters count it. -/
structure Counted (o : Outgoing) (sent unsent : List SSegment) : Prop where
  slist : o.slist = sent ++ unsent
  xmitSent : ∀ g ∈ sent, g.xmit ≠ 0
  xmitUnsent : ∀ g ∈ unsent, g.xmit = 0
  inFlight : total SSegment.len sent = (o.sndNxt - o.sndUna).toNat
  slen : total SSegment.len sent + total SSegment.len unsent = o.slen.toNat
  size : o.slen.toNat ≤ kSndBufSize.toNat
  /-- An empty segment is the last one of the unsent part, or has a nonempty
  one behind it. -/
  lastSent : ∀ g, sent.getLast? = some g → g.len ≠ 0
  lastUnsent : ∀ g ∈ unsent.dropLast, g.len ≠ 0
  ctrl : ∀ g ∈ unsent, g.bCtrl = true → g.len ≠ 0

/-- The segments tile the queue. -/
def Tiled (o : Outgoing) : Prop := Tiles SSegment.seq SSegment.len o.sndUna o.slist

theorem kSndBufSize_toNat : kSndBufSize.toNat = 92160 := rfl

namespace Counted

theorem slen_le (h : Counted o sent unsent) : o.slen.toNat ≤ 92160 := h.size

theorem inFlight_le (h : Counted o sent unsent) :
    (o.sndNxt - o.sndUna).toNat ≤ o.slen.toNat := by
  have h₁ := h.inFlight
  have h₂ := h.slen
  omega

theorem firstUnsent_eq (h : Counted o sent unsent) (hne : unsent ≠ []) :
    o.firstUnsent = sent.length := by
  obtain ⟨g, rest, rfl⟩ := List.exists_cons_of_ne_nil hne
  rw [firstUnsent, h.slist, List.findIdx_append]
  have hs : sent.findIdx (fun g => decide (g.xmit = 0)) = sent.length := by
    rw [List.findIdx_eq_length]
    intro x hx
    simpa using h.xmitSent x hx
  rw [hs, if_neg (Nat.lt_irrefl _), List.findIdx_cons]
  simp [h.xmitUnsent g List.mem_cons_self]

end Counted

/-! ### `queue` -/

/-- The segment `queue` adds when it does not extend the last one. -/
def newSegment (len : Word) (bCtrl : Bool) (o : Outgoing) : SSegment :=
  { seq := o.sndUna + o.slen, len := len, xmit := 0, bCtrl := bCtrl }

theorem extend_append {len : Word} {bCtrl : Bool}
    (h : ∀ g, o.slist.getLast? = some g → ¬ (g.bCtrl = bCtrl ∧ g.xmit = 0)) :
    o.extend len bCtrl = o.slist ++ [o.newSegment len bCtrl] := by
  rw [extend]
  split
  · rename_i g hg
    rw [if_neg (h g hg)]
    rfl
  · rename_i hg
    rw [List.getLast?_eq_none_iff.mp hg]
    rfl

theorem extend_concat {l : List SSegment} {g : SSegment} {len : Word} {bCtrl : Bool}
    (hl : o.slist = l ++ [g]) (h : g.bCtrl = bCtrl ∧ g.xmit = 0) :
    o.extend len bCtrl = l ++ [{ g with len := g.len + len }] := by
  simp [extend, hl, h]

theorem enqueue_cases (h : Counted o sent unsent) (len : Word) (bCtrl : Bool) :
    (o.extend len bCtrl = o.slist ++ [o.newSegment len bCtrl] ∧
      ∀ g, unsent.getLast? = some g → g.bCtrl ≠ bCtrl) ∨
    ∃ u g, unsent = u ++ [g] ∧ g.bCtrl = bCtrl ∧
      o.extend len bCtrl = sent ++ u ++ [{ g with len := g.len + len }] := by
  rcases List.eq_nil_or_concat unsent with rfl | ⟨u, g, rfl⟩
  · refine .inl ⟨extend_append fun g hg => ?_, by simp⟩
    rw [h.slist, List.append_nil] at hg
    rintro ⟨-, hx⟩
    exact h.xmitSent g (List.mem_of_getLast? hg) hx
  · have hx : g.xmit = 0 := h.xmitUnsent g (by simp)
    have hl : o.slist = (sent ++ u) ++ [g] := by
      rw [h.slist]
      simp
    by_cases hb : g.bCtrl = bCtrl
    · exact .inr ⟨u, g, by simp, hb, extend_concat hl ⟨hb, hx⟩⟩
    · refine .inl ⟨extend_append fun g' hg => ?_, fun g' hg => ?_⟩
      · rw [hl, List.getLast?_concat] at hg
        obtain rfl := Option.some.inj hg
        exact fun hc => hb hc.1
      · rw [List.concat_eq_append, List.getLast?_concat] at hg
        obtain rfl := Option.some.inj hg
        exact hb

theorem Counted.enqueue (h : Counted o sent unsent) {len : Word} (bCtrl : Bool)
    (hfit : o.slen.toNat + len.toNat ≤ kSndBufSize.toNat)
    (hctrl : bCtrl = true → o.slist = [] ∧ len ≠ 0) (data : List Byte) :
    ∃ unsent', Counted (o.enqueue data len bCtrl) sent unsent' := by
  have hslen : (o.slen + len).toNat = o.slen.toNat + len.toNat := by
    rw [kSndBufSize_toNat] at hfit
    bv_omega
  rcases enqueue_cases h len bCtrl with ⟨he, hlast⟩ | ⟨u, g, rfl, hb, he⟩
  · refine ⟨unsent ++ [o.newSegment len bCtrl], ?_, h.xmitSent, ?_, h.inFlight, ?_, ?_, h.lastSent,
      ?_, ?_⟩
    · show o.extend len bCtrl = _
      rw [he, h.slist, List.append_assoc]
    · intro g hg
      rcases List.mem_append.mp hg with hg | hg
      · exact h.xmitUnsent g hg
      · rw [List.mem_singleton.mp hg]
        rfl
    · show _ = (o.slen + len).toNat
      have := h.slen
      simp only [total_append, total_cons, total_nil, newSegment]
      omega
    · show (o.slen + len).toNat ≤ _
      omega
    · -- the previous last segment is of the other type, so it is a control segment
      rw [List.dropLast_concat]
      intro g hg
      rcases List.eq_nil_or_concat unsent with rfl | ⟨u, g', rfl⟩
      · exact absurd hg (by simp)
      · rw [List.concat_eq_append] at hg hlast
        rcases List.mem_append.mp hg with hg | hg
        · exact h.lastUnsent g (by simpa using hg)
        · obtain rfl := List.mem_singleton.mp hg
          have hne := hlast g (by simp)
          refine h.ctrl g (by simp) ?_
          cases bCtrl with
          | false => simpa using hne
          | true =>
            have hnil := (hctrl rfl).1
            rw [h.slist] at hnil
            simp at hnil
    · intro g hg hc
      rcases List.mem_append.mp hg with hg | hg
      · exact h.ctrl g hg hc
      · rw [List.mem_singleton.mp hg] at hc ⊢
        exact (hctrl hc).2
  · have hg0 : g.len.toNat ≤ o.slen.toNat := by
      have := h.slen
      simp only [total_append, total_cons, total_nil] at this
      omega
    have hglen : (g.len + len).toNat = g.len.toNat + len.toNat := by
      rw [kSndBufSize_toNat] at hfit
      bv_omega
    refine ⟨u ++ [{ g with len := g.len + len }], ?_, h.xmitSent, ?_, h.inFlight, ?_, ?_,
      h.lastSent, ?_, ?_⟩
    · show o.extend len bCtrl = _
      rw [he, List.append_assoc]
    · intro x hx
      rcases List.mem_append.mp hx with hx | hx
      · exact h.xmitUnsent x (by simp [hx])
      · rw [List.mem_singleton.mp hx]
        exact h.xmitUnsent g (by simp)
    · show _ = (o.slen + len).toNat
      have := h.slen
      simp only [total_append, total_cons, total_nil] at this ⊢
      omega
    · show (o.slen + len).toNat ≤ _
      omega
    · have := h.lastUnsent
      rw [List.dropLast_concat] at this ⊢
      exact this
    · intro x hx hc
      rcases List.mem_append.mp hx with hx | hx
      · exact h.ctrl x (by simp [hx]) hc
      · rw [List.mem_singleton.mp hx] at hc ⊢
        have hnil := (hctrl (hb ▸ hc)).1
        rw [h.slist] at hnil
        simp at hnil

theorem Tiled.enqueue (ht : Tiled o) (h : Counted o sent unsent) {len : Word} {bCtrl : Bool}
    (data : List Byte) : Tiled (o.enqueue data len bCtrl) := by
  have hsl : o.slen = BitVec.ofNat 32 (total SSegment.len o.slist) := by
    rw [h.slist, total_append, h.slen, BitVec.ofNat_toNat, BitVec.setWidth_eq]
  show Tiles _ _ o.sndUna (o.extend len bCtrl)
  rcases enqueue_cases h len bCtrl with ⟨he, -⟩ | ⟨u, g, rfl, -, he⟩
  · rw [he, tiles_append]
    refine ⟨ht, ?_, trivial⟩
    rw [newSegment, hsl]
  · have ht' : Tiles SSegment.seq SSegment.len o.sndUna (sent ++ u ++ [g]) := by
      rw [List.append_assoc, ← h.slist]
      exact ht
    rw [he, tiles_append]
    rw [tiles_append] at ht'
    exact ⟨ht'.1, ht'.2.1, trivial⟩

/-! ### Cutting a segment in two -/

variable {g : SSegment} {n : Word} {p q rest : List SSegment}

theorem take_cons_drop {l : List SSegment} {i : ℕ} (h : l[i]? = some g) :
    l = l.take i ++ g :: l.drop (i + 1) ∧ (l.take i).length = i := by
  obtain ⟨hi, hg⟩ := List.getElem?_eq_some_iff.mp h
  refine ⟨?_, by rw [List.length_take]; omega⟩
  rw [← hg, List.getElem_cons_drop, List.take_append_drop]

theorem breakSegment_slist (h : Counted o sent (g :: rest)) (n : Word) :
    (o.breakSegment o.firstUnsent n).slist
      = if n < g.len then sent ++ { g with len := n } :: (g.remainder n ++ rest) else o.slist := by
  have hx : g.xmit = 0 := h.xmitUnsent g List.mem_cons_self
  have hi : o.firstUnsent = sent.length := h.firstUnsent_eq (by simp)
  have hg : o.slist[sent.length]? = some g := by
    rw [h.slist]
    simp
  rw [breakSegment, hi, hg]
  dsimp only
  split
  · rename_i hlt
    rw [h.slist, SSegment.remainder, if_pos hlt, hx]
    simp
  · rfl

theorem transmitted_slist {i : ℕ} (hs : o.slist = p ++ g :: q) (hi : p.length = i)
    (hn : n ≤ g.len) :
    (o.transmitted i g n).slist
      = p ++ { g with len := n, xmit := g.xmit + 1 } :: (g.remainder n ++ q) := by
  have hlen : (if n < g.len then n else g.len) = n := by
    split
    · rfl
    · bv_omega
  simp only [transmitted, hlen, hs, ← hi, SSegment.remainder]
  simp

theorem transmitted_sndNxt {i : ℕ} (hn : n ≤ g.len) :
    (o.transmitted i g n).sndNxt = if g.xmit = 0 then o.sndNxt + n else o.sndNxt := by
  have hlen : (if n < g.len then n else g.len) = n := by
    split
    · rfl
    · bv_omega
  simp only [transmitted, hlen]

/-- Breaking the first unsent segment keeps the counts and leaves a first
unsent segment of at most `n` bytes. -/
theorem Counted.breakSegment (h : Counted o sent (g :: rest)) (hg : g.len ≠ 0) (hn : n ≠ 0) :
    ∃ g' rest', Counted (o.breakSegment o.firstUnsent n) sent (g' :: rest') ∧
      g'.len ≤ n ∧ g'.len ≠ 0 := by
  have hslist := breakSegment_slist h n
  have hfields : (o.breakSegment o.firstUnsent n).sndNxt = o.sndNxt ∧
      (o.breakSegment o.firstUnsent n).sndUna = o.sndUna ∧
      (o.breakSegment o.firstUnsent n).slen = o.slen := by
    rw [Outgoing.breakSegment]
    split
    · exact ⟨rfl, rfl, rfl⟩
    · split <;> exact ⟨rfl, rfl, rfl⟩
  obtain ⟨hnxt, huna, hsl⟩ := hfields
  by_cases hlt : n < g.len
  · rw [if_pos hlt] at hslist
    have hr := g.total_remainder (BitVec.le_of_lt hlt)
    refine ⟨{ g with len := n }, g.remainder n ++ rest,
      ⟨hslist, h.xmitSent, ?_, by rw [hnxt, huna]; exact h.inFlight, ?_,
        by rw [hsl]; exact h.size, h.lastSent, ?_, ?_⟩, BitVec.le_refl n, hn⟩
    · intro x hx
      rcases List.mem_cons.mp hx with rfl | hx
      · exact h.xmitUnsent g List.mem_cons_self
      · rcases List.mem_append.mp hx with hx | hx
        · rw [(SSegment.mem_remainder hx).1]
          exact h.xmitUnsent g List.mem_cons_self
        · exact h.xmitUnsent x (List.mem_cons_of_mem g hx)
    · have hc := h.slen
      rw [hsl]
      simp only [total_cons, total_append, hr] at hc ⊢
      bv_omega
    · intro x hx
      rcases mem_dropLast_append (l := { g with len := n } :: g.remainder n) hx with hx | hx
      · rcases List.mem_cons.mp hx with rfl | hx
        · exact hn
        · exact (SSegment.mem_remainder hx).2.2
      · refine h.lastUnsent x ?_
        rcases rest with _ | ⟨y, ys⟩
        · simp at hx
        · rw [List.dropLast_cons_cons]
          exact List.mem_cons_of_mem g hx
    · intro x hx hc
      rcases List.mem_cons.mp hx with rfl | hx
      · exact hn
      · rcases List.mem_append.mp hx with hx | hx
        · exact (SSegment.mem_remainder hx).2.2
        · exact h.ctrl x (List.mem_cons_of_mem g hx) hc
  · rw [if_neg hlt] at hslist
    refine ⟨g, rest, ⟨hslist.trans h.slist, h.xmitSent, h.xmitUnsent,
      by rw [hnxt, huna]; exact h.inFlight, by rw [hsl]; exact h.slen,
      by rw [hsl]; exact h.size, h.lastSent, h.lastUnsent, h.ctrl⟩, BitVec.not_lt.mp hlt, hg⟩

theorem Tiled.cut {r : List SSegment} (ht : Tiled o) (hs : o.slist = p ++ g :: q)
    (x : Byte) (hn : n ≤ g.len) (hr : r = g.remainder n) :
    Tiles SSegment.seq SSegment.len o.sndUna
      (p ++ { g with len := n, xmit := x } :: (r ++ q)) := by
  subst hr
  rw [Tiled, hs, tiles_append] at ht
  obtain ⟨hp, hg, hq⟩ := ht
  rw [tiles_append]
  refine ⟨hp, hg, ?_⟩
  rw [tiles_append, g.total_remainder hn]
  refine ⟨hg ▸ SSegment.tiles_remainder, ?_⟩
  have hend : o.sndUna + BitVec.ofNat 32 (total SSegment.len p) + n
      + BitVec.ofNat 32 (g.len.toNat - n.toNat)
      = o.sndUna + BitVec.ofNat 32 (total SSegment.len p) + g.len := by
    bv_omega
  rw [hend]
  exact hq

theorem Tiled.breakSegment (ht : Tiled o) (h : Counted o sent (g :: rest)) :
    Tiled (o.breakSegment o.firstUnsent n) := by
  have huna : (o.breakSegment o.firstUnsent n).sndUna = o.sndUna := by
    rw [Outgoing.breakSegment]
    split
    · rfl
    · split <;> rfl
  rw [Tiled, huna, breakSegment_slist h n]
  split
  · rename_i hlt
    exact ht.cut h.slist g.xmit (BitVec.le_of_lt hlt) rfl
  · exact ht

theorem Tiled.transmitted {i : ℕ} (ht : Tiled o) (hi : o.slist[i]? = some g) (hn : n ≤ g.len) :
    Tiled (o.transmitted i g n) := by
  obtain ⟨hs, hlen⟩ := take_cons_drop hi
  show Tiles _ _ o.sndUna _
  rw [transmitted_slist hs hlen hn]
  exact ht.cut hs _ hn rfl

/-! ### Transmission -/

theorem Counted.transmitted_unsent (h : Counted o sent (g :: rest)) (hn : n ≤ g.len) (h0 : n ≠ 0) :
    Counted (o.transmitted sent.length g n) (sent ++ [{ g with len := n, xmit := g.xmit + 1 }])
      (g.remainder n ++ rest) := by
  have hx : g.xmit = 0 := h.xmitUnsent g List.mem_cons_self
  have hslist := transmitted_slist h.slist rfl hn
  have hnxt := transmitted_sndNxt (o := o) (i := sent.length) hn
  rw [if_pos hx] at hnxt
  have hr := g.total_remainder hn
  have hsl := h.slen
  have hfl := h.inFlight
  have hsz := h.slen_le
  simp only [total_cons] at hsl
  have hn' : n.toNat ≤ g.len.toNat := hn
  refine ⟨?_, ?_, ?_, ?_, ?_, h.size, ?_, ?_, ?_⟩
  · rw [hslist]
    simp
  · intro x hm
    rcases List.mem_append.mp hm with hm | hm
    · exact h.xmitSent x hm
    · rw [List.mem_singleton.mp hm]
      show g.xmit + 1 ≠ 0
      rw [hx]
      decide
  · intro x hm
    rcases List.mem_append.mp hm with hm | hm
    · rw [(SSegment.mem_remainder hm).1]
      exact hx
    · exact h.xmitUnsent x (List.mem_cons_of_mem g hm)
  · show _ = ((o.transmitted sent.length g n).sndNxt - o.sndUna).toNat
    rw [hnxt]
    simp only [total_append, total_cons, total_nil]
    bv_omega
  · show _ = o.slen.toNat
    simp only [total_append, total_cons, total_nil, hr]
    omega
  · intro x hm
    rw [List.getLast?_concat] at hm
    rw [← Option.some.inj hm]
    exact h0
  · intro x hm
    rcases mem_dropLast_append hm with hm | hm
    · exact (SSegment.mem_remainder hm).2.2
    · refine h.lastUnsent x ?_
      rcases rest with _ | ⟨y, ys⟩
      · simp at hm
      · rw [List.dropLast_cons_cons]
        exact List.mem_cons_of_mem g hm
  · intro x hm hc
    rcases List.mem_append.mp hm with hm | hm
    · exact (SSegment.mem_remainder hm).2.2
    · exact h.ctrl x (List.mem_cons_of_mem g hm) hc

theorem Counted.transmitted_sent (h : Counted o (p ++ g :: q) unsent) (hn : n ≤ g.len)
    (hx : g.xmit + 1 ≠ 0) :
    Counted (o.transmitted p.length g n)
      (p ++ { g with len := n, xmit := g.xmit + 1 } :: (g.remainder n ++ q)) unsent := by
  have hg : g.xmit ≠ 0 := h.xmitSent g (by simp)
  have hs : o.slist = p ++ g :: (q ++ unsent) := by
    rw [h.slist]
    simp
  have hslist := transmitted_slist hs rfl hn
  have hnxt := transmitted_sndNxt (o := o) (i := p.length) hn
  rw [if_neg hg] at hnxt
  have hr := g.total_remainder hn
  have hn' : n.toNat ≤ g.len.toNat := hn
  have htotal : total SSegment.len
      (p ++ { g with len := n, xmit := g.xmit + 1 } :: (g.remainder n ++ q))
      = total SSegment.len (p ++ g :: q) := by
    simp only [total_append, total_cons, hr]
    omega
  refine ⟨?_, ?_, h.xmitUnsent, ?_, ?_, h.size, ?_, h.lastUnsent, h.ctrl⟩
  · rw [hslist]
    simp
  · intro x hm
    rcases List.mem_append.mp hm with hm | hm
    · exact h.xmitSent x (by simp [hm])
    · rcases List.mem_cons.mp hm with rfl | hm
      · exact hx
      · rcases List.mem_append.mp hm with hm | hm
        · rw [(SSegment.mem_remainder hm).1]
          exact hg
        · exact h.xmitSent x (by simp [hm])
  · show _ = ((o.transmitted p.length g n).sndNxt - o.sndUna).toNat
    rw [hnxt, htotal]
    exact h.inFlight
  · rw [htotal]
    exact h.slen
  · intro x hm
    rcases List.eq_nil_or_concat q with rfl | ⟨u, y, rfl⟩
    · have hgl : g.len ≠ 0 := h.lastSent g (by simp)
      rw [List.append_nil] at hm
      rcases List.mem_cons.mp (List.mem_of_getLast? (by
        rw [List.getLast?_append_of_ne_nil _ (by simp)] at hm
        exact hm)) with rfl | hm'
      · -- the cut segment is the last one, so nothing was cut off
        by_cases hlt : n < g.len
        · rw [SSegment.remainder, if_pos hlt] at hm
          simp only [List.getLast?_append_of_ne_nil _ (List.cons_ne_nil _ _),
            List.getLast?_cons_cons, List.getLast?_singleton, Option.some.injEq] at hm
          have := congrArg SSegment.len hm
          show n ≠ 0
          simp only at this
          intro h0
          rw [h0] at this
          bv_omega
        · show n ≠ 0
          bv_omega
      · exact (SSegment.mem_remainder hm').2.2
    · refine h.lastSent x ?_
      rw [List.concat_eq_append, ← List.append_assoc, ← List.cons_append, ← List.append_assoc,
        List.getLast?_concat] at hm
      rw [← hm, List.concat_eq_append, ← List.cons_append, ← List.append_assoc,
        List.getLast?_concat]

/-! ### Acknowledgement -/

theorem freeAcked_sent (unsent : List SSegment) : ∀ (sent : List SSegment) (n k : Word),
    n.toNat ≤ total SSegment.len sent → (∀ g ∈ sent, g.xmit ≠ 0) →
    (∀ g, sent.getLast? = some g → g.len ≠ 0) →
    ∃ sent', (freeAcked n k (sent ++ unsent)).1 = sent' ++ unsent ∧
      (freeAcked n k (sent ++ unsent)).2.2 = true ∧
      total SSegment.len sent' = total SSegment.len sent - n.toNat ∧
      (∀ g ∈ sent', g.xmit ≠ 0) ∧ ∀ g, sent'.getLast? = some g → g.len ≠ 0 := by
  intro sent
  induction sent with
  | nil =>
    intro n k hn _ _
    have h0 : n = 0 := by
      rw [total_nil] at hn
      bv_omega
    subst h0
    refine ⟨[], ?_, ?_, by simp, by simp, by simp⟩
    · cases unsent <;> simp [freeAcked]
    · cases unsent <;> simp [freeAcked]
  | cons g sent ih =>
    intro n k hn hx hlast
    rw [total_cons] at hn
    rw [List.cons_append, freeAcked]
    by_cases h0 : n = 0
    · rw [if_pos h0]
      exact ⟨g :: sent, rfl, rfl, by simp [h0], hx, hlast⟩
    · rw [if_neg h0]
      by_cases hlt : n < g.len
      · rw [if_pos hlt]
        refine ⟨{ g with len := g.len - n } :: sent, rfl, rfl, ?_, ?_, ?_⟩
        · simp only [total_cons]
          bv_omega
        · intro x hm
          rcases List.mem_cons.mp hm with rfl | hm
          · exact hx g List.mem_cons_self
          · exact hx x (List.mem_cons_of_mem g hm)
        · intro x hm
          rcases sent with _ | ⟨y, ys⟩
          · rw [List.getLast?_singleton] at hm
            rw [← Option.some.inj hm]
            show g.len - n ≠ 0
            bv_omega
          · rw [List.getLast?_cons_cons] at hm
            exact hlast x (by rw [List.getLast?_cons_cons]; exact hm)
      · rw [if_neg hlt]
        have hlast' : ∀ x, sent.getLast? = some x → x.len ≠ 0 := by
          intro x hm
          refine hlast x ?_
          rcases sent with _ | ⟨y, ys⟩
          · simp at hm
          · rw [List.getLast?_cons_cons]
            exact hm
        obtain ⟨sent', h₁, h₂, h₃, h₄⟩ := ih (n - g.len) (if k < g.len then g.len else k)
          (by bv_omega) (fun x hm => hx x (List.mem_cons_of_mem g hm)) hlast'
        refine ⟨sent', h₁, h₂, ?_, h₄⟩
        rw [h₃, total_cons]
        bv_omega

theorem freeAcked_boundary : ∀ (l p q : List SSegment) (n k : Word), l = p ++ q →
    n.toNat = total SSegment.len p →
    ∃ p', l = p' ++ (freeAcked n k l).1 ∧ total SSegment.len p' = n.toNat := by
  intro l
  induction l with
  | nil =>
    intro p q n k hl hn
    obtain ⟨rfl, -⟩ := List.append_eq_nil_iff.mp hl.symm
    exact ⟨[], rfl, hn.symm⟩
  | cons g l ih =>
    intro p q n k hl hn
    rw [freeAcked]
    by_cases h0 : n = 0
    · rw [if_pos h0]
      exact ⟨[], rfl, by simp [h0]⟩
    · rw [if_neg h0]
      rcases p with _ | ⟨g', p⟩
      · rw [total_nil] at hn
        bv_omega
      · obtain ⟨rfl, rfl⟩ := List.cons.inj hl
        rw [total_cons] at hn
        rw [if_neg (by bv_omega)]
        obtain ⟨p', h₁, h₂⟩ := ih p q (n - g.len) (if k < g.len then g.len else k) rfl
          (by bv_omega)
        refine ⟨g :: p', by rw [List.cons_append, ← h₁], ?_⟩
        rw [total_cons, h₂]
        bv_omega

/-- An acknowledgement that `process` takes: `m_snd_una < ack ≤ m_snd_nxt`. -/
def Acks (o : Outgoing) (ack : Word) : Prop := o.sndUna < ack ∧ ack ≤ o.sndNxt

/-- The acknowledgement falls on a segment boundary. -/
def OnBoundary (o : Outgoing) (ack : Word) : Prop :=
  ∃ p q, o.slist = p ++ q ∧ (ack - o.sndUna).toNat = total SSegment.len p

theorem Acks.le_inFlight {ack : Word} (ha : Acks o ack) :
    (ack - o.sndUna).toNat ≤ (o.sndNxt - o.sndUna).toNat := by
  obtain ⟨h₁, h₂⟩ := ha
  bv_omega

theorem Counted.freeAcked (h : Counted o sent unsent) {ack : Word} (ha : Acks o ack) (k : Word) :
    ∃ sent', (Jingle.freeAcked (ack - o.sndUna) k o.slist).1 = sent' ++ unsent ∧
      (Jingle.freeAcked (ack - o.sndUna) k o.slist).2.2 = true ∧
      total SSegment.len sent' = total SSegment.len sent - (ack - o.sndUna).toNat ∧
      (∀ g ∈ sent', g.xmit ≠ 0) ∧ ∀ g, sent'.getLast? = some g → g.len ≠ 0 := by
  rw [h.slist]
  exact freeAcked_sent unsent sent _ k (by rw [h.inFlight]; exact ha.le_inFlight) h.xmitSent
    h.lastSent

theorem Counted.acknowledge (h : Counted o sent unsent) {ack : Word} (ha : Acks o ack)
    (wnd : BitVec 16) (k : Word) :
    ∃ sent', Counted (o.acknowledge ack wnd k) sent' unsent := by
  obtain ⟨sent', hs, -, htotal, hx, hlast⟩ := h.freeAcked ha k
  have hle := ha.le_inFlight
  have hfl := h.inFlight
  have hsl := h.slen
  have hsz := h.slen_le
  obtain ⟨ha₁, ha₂⟩ := ha
  have hslen : (o.slen - (ack - o.sndUna)).toNat = o.slen.toNat - (ack - o.sndUna).toNat := by
    have hle' : (ack - o.sndUna).toNat ≤ o.slen.toNat := by omega
    generalize ack - o.sndUna = d at hle' ⊢
    bv_omega
  refine ⟨sent', hs, hx, h.xmitUnsent, ?_, ?_, ?_, hlast, h.lastUnsent, h.ctrl⟩
  · show _ = (o.sndNxt - ack).toNat
    rw [htotal, hfl]
    bv_omega
  · show _ = (o.slen - (ack - o.sndUna)).toNat
    rw [hslen]
    omega
  · show (o.slen - (ack - o.sndUna)).toNat ≤ _
    rw [hslen]
    exact le_trans (Nat.sub_le _ _) hsz

theorem Tiled.acknowledge (ht : Tiled o) {ack : Word} (hb : OnBoundary o ack) (wnd : BitVec 16)
    (k : Word) : Tiled (o.acknowledge ack wnd k) := by
  obtain ⟨p, q, hs, hp⟩ := hb
  obtain ⟨p', hp', htotal⟩ := freeAcked_boundary o.slist p q (ack - o.sndUna) k hs hp
  rw [Tiled, hp', tiles_append, htotal] at ht
  have huna : o.sndUna + BitVec.ofNat 32 (ack - o.sndUna).toNat = ack := by
    rw [BitVec.ofNat_toNat, BitVec.setWidth_eq]
    bv_omega
  rw [huna] at ht
  exact ht.2

end Outgoing

end Jingle
