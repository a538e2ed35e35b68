/-
Segment size, congestion window and slow start threshold.

`m_mss`, `m_cwnd` and `m_ssthresh` are computed with words that wrap around.  `Sizes`
is the joint bound that keeps every one of these computations in range: the table of
MTUs only lowers the segment size (`lowerMss_sizes`), and the window shrinks or grows by
no more than one segment.

* **`reachable_sized`** — the bounds in every run in which no advised MTU is smaller than
  the headers and no packet arrives at a window that is about to wrap around.
-/
import Jingle.PseudoTcp.Keeping

namespace Jingle

namespace PseudoTcp

variable {env : Env} {now : Word} {s t u : PseudoTcp} {c : Congestion} {b : Bool}

/-- The bounds of the congestion variables. -/
structure Sizes (c : Congestion) : Prop where
  mss_pos : 0 < c.mss.toNat
  mss_le : c.mss.toNat ≤ 65419
  cwnd : c.mss.toNat ≤ c.cwnd.toNat
  ssthresh : 2 * c.mss.toNat ≤ c.ssthresh.toNat
  level : c.msslevel.toNat ≤ 9
  /-- Above the last level the segment size is at least the one of the last level. -/
  table : c.msslevel.toNat < 9 → 180 ≤ c.mss.toNat
  mtu : 116 < c.mtuAdvise.toNat ∧ c.mtuAdvise.toNat ≤ 65535

theorem packetOverhead_toNat : packetOverhead.toNat = 116 := rfl

theorem Sizes.double (h : Sizes c) : (2 * c.mss).toNat = 2 * c.mss.toNat := by
  have := h.mss_le
  rw [BitVec.toNat_mul]
  exact Nat.mod_eq_of_lt (by
    show 2 * c.mss.toNat < 2 ^ 32
    omega)

theorem Sizes.triple (h : Sizes c) : (3 * c.mss).toNat = 3 * c.mss.toNat := by
  have := h.mss_le
  rw [BitVec.toNat_mul]
  exact Nat.mod_eq_of_lt (by
    show 3 * c.mss.toNat < 2 ^ 32
    omega)

/-! ### The table -/

theorem packetMaximum_levels {level : Word} (h₀ : 0 < level.toNat) (h₉ : level.toNat ≤ 9) :
    296 ≤ (packetMaximum level).toNat ∧ (packetMaximum level).toNat ≤ 32000 ∧
      (level.toNat = 9 → (packetMaximum level).toNat = 296) := by
  unfold packetMaximum
  generalize level.toNat = n at h₀ h₉ ⊢
  interval_cases n <;> decide

theorem packetMaximum_above {level : Word} (h : level.toNat < 9) :
    508 ≤ (packetMaximum level).toNat := by
  unfold packetMaximum
  generalize level.toNat = n at h ⊢
  interval_cases n <;> decide

theorem toNat_succ {level : Word} (h : level.toNat ≤ 9) :
    (level + 1).toNat = level.toNat + 1 := by
  bv_omega

theorem packetMaximum_succ_eq_zero_iff {level : Word} (h : level.toNat ≤ 9) :
    packetMaximum (level + 1) = 0 ↔ level.toNat = 9 := by
  unfold packetMaximum
  rw [toNat_succ h]
  generalize level.toNat = n at h ⊢
  interval_cases n <;> decide

/-- The congestion variables at a level that was reached by going down. -/
def atLevel (level : Word) (c : Congestion) : Congestion :=
  { c with
    msslevel := level
    mss := packetMaximum level - packetOverhead
    cwnd := 2 * (packetMaximum level - packetOverhead) }

theorem lowerMss_table (n : Word) : ∀ (fuel : ℕ) (c : Congestion), c.msslevel.toNat ≤ 9 →
    9 ≤ c.msslevel.toNat + fuel →
    ((lowerMss n fuel c).2 = c ∧ c.msslevel.toNat = 9) ∨
      ∃ level : Word, c.msslevel.toNat < level.toNat ∧ level.toNat ≤ 9 ∧
        (lowerMss n fuel c).2 = atLevel level c ∧
        ((atLevel level c).mss < n ∨ level.toNat = 9)
  | 0, c, hle, hfuel => .inl ⟨rfl, by omega⟩
  | fuel + 1, c, hle, hfuel => by
    rw [lowerMss]
    by_cases hz : packetMaximum (c.msslevel + 1) = 0
    · rw [if_pos hz]
      exact .inl ⟨rfl, (packetMaximum_succ_eq_zero_iff hle).mp hz⟩
    · rw [if_neg hz]
      rw [packetMaximum_succ_eq_zero_iff hle] at hz
      have hsucc := toNat_succ hle
      dsimp only
      split
      · rename_i hlt
        exact .inr ⟨c.msslevel + 1, by omega, by omega, rfl, .inl hlt⟩
      · have hle' : (atLevel (c.msslevel + 1) c).msslevel.toNat ≤ 9 := by
          show (c.msslevel + 1).toNat ≤ 9
          omega
        have hfuel' : 9 ≤ (atLevel (c.msslevel + 1) c).msslevel.toNat + fuel := by
          show 9 ≤ (c.msslevel + 1).toNat + fuel
          omega
        rcases lowerMss_table n fuel _ hle' hfuel' with ⟨heq, h₉⟩ | ⟨level, hgt, h₉, heq, hend⟩
        · have h₉ : (c.msslevel + 1).toNat = 9 := h₉
          exact .inr ⟨c.msslevel + 1, by omega, by omega, heq, .inr h₉⟩
        · have hgt : (c.msslevel + 1).toNat < level.toNat := hgt
          exact .inr ⟨level, by omega, h₉, heq, hend⟩

/-- The largest window after the segment size was lowered. -/
def loweredWindow : ℕ := 2 * 65419

theorem lowerMss_sizes {n : Word} (h : Sizes c) (hn : n ≤ c.mss) :
    Sizes (lowerMss n packetMaximums.length c).2 ∧
      (lowerMss n packetMaximums.length c).2.cwnd.toNat ≤ max c.cwnd.toNat loweredWindow := by
  rcases lowerMss_table n packetMaximums.length c h.level (by simp [packetMaximums]) with
    ⟨heq, -⟩ | ⟨level, hgt, h₉, heq, hend⟩
  · rw [heq]
    exact ⟨h, le_max_left _ _⟩
  · obtain ⟨hlow, hhigh, hlast⟩ := packetMaximum_levels (Nat.zero_lt_of_lt hgt) h₉
    have hmss : (packetMaximum level - packetOverhead).toNat = (packetMaximum level).toNat - 116 := by
      have := packetOverhead_toNat
      bv_omega
    have hcwnd : (2 * (packetMaximum level - packetOverhead)).toNat =
        2 * ((packetMaximum level).toNat - 116) := by
      rw [BitVec.toNat_mul, hmss]
      exact Nat.mod_eq_of_lt (by
        show 2 * ((packetMaximum level).toNat - 116) < 2 ^ 32
        omega)
    -- the size is below the old one, which the threshold was made for
    have hless : (packetMaximum level).toNat - 116 ≤ c.mss.toNat := by
      rcases hend with hlt | hl
      · have hlt : (packetMaximum level - packetOverhead).toNat < n.toNat := hlt
        have hn : n.toNat ≤ c.mss.toNat := hn
        omega
      · have := hlast hl
        have := h.table (by omega)
        omega
    have hle := h.mss_le
    have hss := h.ssthresh
    rw [heq]
    refine ⟨⟨?_, ?_, ?_, ?_, h₉, fun _ => ?_, h.mtu⟩, ?_⟩
    · show 0 < (packetMaximum level - packetOverhead).toNat
      omega
    · show (packetMaximum level - packetOverhead).toNat ≤ 65419
      omega
    · show (packetMaximum level - packetOverhead).toNat ≤
        (2 * (packetMaximum level - packetOverhead)).toNat
      omega
    · show 2 * (packetMaximum level - packetOverhead).toNat ≤ c.ssthresh.toNat
      omega
    · show 180 ≤ (packetMaximum level - packetOverhead).toNat
      omega
    · show (2 * (packetMaximum level - packetOverhead)).toNat ≤ _
      unfold loweredWindow
      omega

theorem mtuLevel_spec (mtu : Word) : ∀ (fuel : ℕ) (level : Word), level.toNat ≤ 9 →
    9 ≤ level.toNat + fuel →
    (mtuLevel mtu fuel level).toNat ≤ 9 ∧
      ((mtuLevel mtu fuel level).toNat < 9 →
        packetMaximum (mtuLevel mtu fuel level) ≤ mtu)
  | 0, level, hle, hfuel => by
    rw [mtuLevel]
    exact ⟨hle, fun h => by omega⟩
  | fuel + 1, level, hle, hfuel => by
    rw [mtuLevel]
    split
    · rename_i hpos
      split
      · rename_i hmtu
        exact ⟨hle, fun _ => hmtu⟩
      · have hne : level.toNat ≠ 9 := by
          intro h
          rw [(packetMaximum_succ_eq_zero_iff hle).mpr h] at hpos
          exact absurd hpos (by decide)
        have hsucc := toNat_succ hle
        exact mtuLevel_spec mtu fuel (level + 1) (by omega) (by omega)
    · rename_i hpos
      have hz : packetMaximum (level + 1) = 0 := by bv_omega
      have h₉ := (packetMaximum_succ_eq_zero_iff hle).mp hz
      exact ⟨hle, fun h => by omega⟩

theorem adjustMTU_sizes (hmtu : 116 < s.cc.mtuAdvise.toNat ∧ s.cc.mtuAdvise.toNat ≤ 65535) :
    Sizes s.adjustMTU.cc ∧ s.adjustMTU.cc.cwnd.toNat ≤ max s.cc.cwnd.toNat loweredWindow := by
  have hmss : (s.cc.mtuAdvise - packetOverhead).toNat = s.cc.mtuAdvise.toNat - 116 := by
    have := packetOverhead_toNat
    bv_omega
  have hdouble : (2 * (s.cc.mtuAdvise - packetOverhead)).toNat =
      2 * (s.cc.mtuAdvise.toNat - 116) := by
    rw [BitVec.toNat_mul, hmss]
    exact Nat.mod_eq_of_lt (by
      show 2 * (s.cc.mtuAdvise.toNat - 116) < 2 ^ 32
      omega)
  obtain ⟨h₉, htable⟩ := mtuLevel_spec s.cc.mtuAdvise packetMaximums.length 0 (by decide)
    (by decide)
  refine ⟨⟨?_, ?_, ?_, ?_, h₉, fun hlt => ?_, hmtu⟩, ?_⟩
  · show 0 < (s.cc.mtuAdvise - packetOverhead).toNat
    omega
  · show (s.cc.mtuAdvise - packetOverhead).toNat ≤ 65419
    omega
  · show (s.cc.mtuAdvise - packetOverhead).toNat ≤
      (maxOf s.cc.cwnd (s.cc.mtuAdvise - packetOverhead)).toNat
    rw [toNat_maxOf]
    exact le_max_right _ _
  · show 2 * (s.cc.mtuAdvise - packetOverhead).toNat ≤
      (maxOf s.cc.ssthresh (2 * (s.cc.mtuAdvise - packetOverhead))).toNat
    rw [toNat_maxOf, hdouble, hmss]
    exact le_max_right _ _
  · have hle : (packetMaximum (mtuLevel s.cc.mtuAdvise packetMaximums.length 0)).toNat ≤
        s.cc.mtuAdvise.toNat := htable hlt
    have habove : 508 ≤
        (packetMaximum (mtuLevel s.cc.mtuAdvise packetMaximums.length 0)).toNat :=
      packetMaximum_above hlt
    show 180 ≤ (s.cc.mtuAdvise - packetOverhead).toNat
    omega
  · show (maxOf s.cc.cwnd (s.cc.mtuAdvise - packetOverhead)).toNat ≤ _
    rw [toNat_maxOf, hmss]
    unfold loweredWindow
    omega

/-! ### `transmit` -/

theorem packet_plain (env : Env) (seq : Word) (flags : Byte) {data : Option (List Byte)}
    (hlen : (data.getD []).length ≤ 65419) (s : PseudoTcp) :
    LogAdds Plain s (packet env seq flags data s).2 := by
  refine (packet_spec env seq flags data s).log.mono fun e he => ?_
  cases he with
  | oversize h =>
    refine absurd ?_ h
    simp only [headerSize, maxPacket]
    bv_omega
  | write => trivial

/-- The bounds, the events, and a window that is not much enlarged. -/
structure Sizing (s t : PseudoTcp) : Prop where
  sizes : Sizes t.cc
  log : LogAdds Plain s t
  cwnd : t.cc.cwnd.toNat ≤ max s.cc.cwnd.toNat loweredWindow

theorem Sizing.trans (h₁ : Sizing s t) (h₂ : Sizing t u) : Sizing s u :=
  ⟨h₂.sizes, h₁.log.trans h₂.log, by
    have := h₁.cwnd
    have := h₂.cwnd
    omega⟩

theorem Sizing.of_cc (h : Sizes s.cc) (hcc : t.cc = s.cc) (hl : LogAdds Plain s t) :
    Sizing s t :=
  ⟨by rw [hcc]; exact h, hl, by rw [hcc]; exact le_max_left _ _⟩

theorem writeSegment_sizing (env : Env) (seg : SSegment) : ∀ (fuel : ℕ) (n : Word)
    (s : PseudoTcp), Sizes s.cc → n ≤ s.cc.mss → Sizing s (writeSegment env seg fuel n s).2
  | 0, n, s, h, _ => .of_cc h rfl (.refl s)
  | fuel + 1, n, s, h, hn => by
    set s₁ := s.note (.sbufRead (seg.seq - s.out.sndUna) n s.out.slen) with hs₁
    set data := s₁.out.sbuf.read (seg.seq - s.out.sndUna).toNat n.toNat with hdata
    have hlen : data.length ≤ 65419 := by
      rw [hdata, Mem.length_read]
      exact le_trans hn h.mss_le
    have hp := packet_spec env seg.seq (if seg.bCtrl then flagCtl else 0) (some data) s₁
    have hlog := @packet_plain env seg.seq (if seg.bCtrl then flagCtl else 0) (some data) hlen s₁
    have hsend : Sizing s (packet env seg.seq (if seg.bCtrl then flagCtl else 0)
        (some data) s₁).2 := .of_cc h hp.cc ((LogAdds.note trivial).trans hlog)
    rw [writeSegment, ← hs₁, ← hdata]
    rcases hpk : packet env seg.seq (if seg.bCtrl then flagCtl else 0) (some data) s₁ with ⟨r, t⟩
    rw [hpk] at hsend hp
    cases r with
    | success => exact hsend
    | fail => exact hsend
    | tooLarge =>
      have hcc : t.cc = s.cc := hp.cc
      obtain ⟨hsz, hcw⟩ := lowerMss_sizes hsend.sizes (n := n) (by rw [hcc]; exact hn)
      have hlower : Sizing t { t with cc := (lowerMss n packetMaximums.length t.cc).2 } :=
        ⟨hsz, .of_log_eq rfl, hcw⟩
      dsimp only
      rcases hlow : lowerMss n packetMaximums.length t.cc with ⟨_ | _, c⟩
      · rw [hlow] at hlower
        exact hsend.trans hlower
      · rw [hlow] at hlower hsz
        exact (hsend.trans hlower).trans
          (writeSegment_sizing env seg fuel c.mss _ hsz (BitVec.le_refl _))

theorem transmit_sizing (env : Env) (i : ℕ) (now : Word) (h : Sizes s.cc) :
    Sizing s (transmit env i now s).2 := by
  rw [transmit]
  split
  · exact .of_cc h rfl (.note trivial)
  · rename_i seg _
    split
    · exact .of_cc h rfl (.refl s)
    · have hn : minOf seg.len s.cc.mss ≤ s.cc.mss := by
        rw [BitVec.le_def, toNat_minOf]
        exact min_le_right _ _
      have hw := writeSegment_sizing env seg packetMaximums.length _ s h hn
      split
      · rename_i t heq
        rw [heq] at hw
        exact hw
      · rename_i m t heq
        rw [heq] at hw
        exact hw.trans (.of_cc hw.sizes rfl (.of_log_eq rfl))

/-! ### Every call -/

/-- The bounds and the events of a call, with room for a segment if that is asked for. -/
structure Fits (b : Bool) (s : PseudoTcp) : Prop where
  sizes : Sizes s.cc
  log : ∀ e ∈ s.log, Plain e
  room : b = true → s.cc.cwnd.toNat + 65419 < 2 ^ 32

theorem Fits.of_sizing (h : Fits b s) (hs : Sizing s t) : Fits b t where
  sizes := hs.sizes
  log e he := (hs.log.mem he).elim (h.log e) id
  room hb := by
    have hroom := h.room hb
    have hcw := hs.cwnd
    unfold loweredWindow at hcw
    omega

theorem Fits.resize (h : Fits b s) (hmss : t.cc.mss = s.cc.mss)
    (hlevel : t.cc.msslevel = s.cc.msslevel) (hmtu : t.cc.mtuAdvise = s.cc.mtuAdvise)
    (hlog : t.log = s.log) (hcwnd : s.cc.mss.toNat ≤ t.cc.cwnd.toNat)
    (hss : 2 * s.cc.mss.toNat ≤ t.cc.ssthresh.toNat)
    (hroom : t.cc.cwnd.toNat ≤ max s.cc.cwnd.toNat (2 ^ 20)) : Fits b t where
  sizes := by
    refine ⟨?_, ?_, ?_, ?_, ?_, ?_, ?_⟩
    · rw [hmss]
      exact h.sizes.mss_pos
    · rw [hmss]
      exact h.sizes.mss_le
    · rw [hmss]
      exact hcwnd
    · rw [hmss]
      exact hss
    · rw [hlevel]
      exact h.sizes.level
    · rw [hlevel, hmss]
      exact h.sizes.table
    · rw [hmtu]
      exact h.sizes.mtu
  log := by
    rw [hlog]
    exact h.log
  room hb := by
    have := h.room hb
    omega

theorem Fits.opened (h : Fits b s) : Fits b s.opened := by
  obtain ⟨hsz, hcw⟩ := adjustMTU_sizes (s := { s with state := .established }) h.sizes.mtu
  exact h.of_sizing ⟨hsz, LogAdds.trans (t := { s with state := .established }.adjustMTU)
    (.of_log_eq rfl) (.note trivial), hcw⟩

theorem inFlight_le (hq : QueueInv False False s) : s.inFlight.toNat ≤ 92160 := by
  obtain ⟨sent, unsent, hc⟩ := hq.counted
  exact le_trans hc.inFlight_le hc.slen_le

theorem lossThreshold_toNat (h : Sizes s.cc) :
    (maxOf (s.inFlight / 2) (2 * s.cc.mss)).toNat =
      max (s.inFlight.toNat / 2) (2 * s.cc.mss.toNat) := by
  rw [toNat_maxOf, h.double, BitVec.toNat_udiv]
  rfl

theorem Fits.move (h : Fits b s) (hq : QueueInv False False s) (hm : Move env now s t) :
    Fits b t := by
  have hsz := h.sizes
  have hmss := hsz.mss_le
  have hfl := inFlight_le hq
  have hloss := lossThreshold_toNat hsz
  have hframe : ∀ {t}, t.cc = s.cc → LogAdds Plain s t → Fits b t := fun hcc hl =>
    h.of_sizing (.of_cc hsz hcc hl)
  cases hm with
  | idle =>
    exact h.resize rfl rfl rfl rfl le_rfl hsz.ssthresh (le_max_of_le_left hsz.cwnd)
  | pureAck seq =>
    exact hframe (packet_spec env seq 0 none s).cc (packet_plain env seq 0 (by simp) s)
  | armAck => exact hframe rfl (.of_log_eq rfl)
  | sendNext _ =>
    exact h.of_sizing (Sizing.trans (t := s.breakNext) (.of_cc hsz rfl (.of_log_eq rfl))
      (transmit_sizing env s.out.firstUnsent env.sendNow (s := s.breakNext) hsz))
  | retransmit _ => exact h.of_sizing (transmit_sizing env 0 now hsz)
  | closedown err =>
    exact hframe rfl (.note (s := { s with out := { s.out with slen := 0 }, state := .closed })
      (e := .onTcpClosed err) trivial)
  | exitRecovery =>
    have hsum : (s.inFlight + s.cc.mss).toNat = s.inFlight.toNat + s.cc.mss.toNat := by
      rw [BitVec.toNat_add]
      exact Nat.mod_eq_of_lt (by omega)
    have hcw : (minOf s.cc.ssthresh (s.inFlight + s.cc.mss)).toNat =
        min s.cc.ssthresh.toNat (s.inFlight.toNat + s.cc.mss.toNat) := by
      rw [toNat_minOf, hsum]
    have hss := hsz.ssthresh
    refine h.resize rfl rfl rfl rfl ?_ hss ?_
    · show _ ≤ (minOf s.cc.ssthresh (s.inFlight + s.cc.mss)).toNat
      omega
    · show (minOf s.cc.ssthresh (s.inFlight + s.cc.mss)).toNat ≤ _
      omega
  | setDup n => exact h.resize rfl rfl rfl rfl hsz.cwnd hsz.ssthresh (le_max_left _ _)
  | enterRecovery =>
    have hcw : (maxOf (s.inFlight / 2) (2 * s.cc.mss) + 3 * s.cc.mss).toNat =
        max (s.inFlight.toNat / 2) (2 * s.cc.mss.toNat) + 3 * s.cc.mss.toNat := by
      rw [BitVec.toNat_add, hloss, hsz.triple]
      exact Nat.mod_eq_of_lt (by omega)
    refine h.resize rfl rfl rfl rfl ?_ ?_ ?_
    · show _ ≤ (maxOf (s.inFlight / 2) (2 * s.cc.mss) + 3 * s.cc.mss).toNat
      omega
    · show _ ≤ (maxOf (s.inFlight / 2) (2 * s.cc.mss)).toNat
      omega
    · show (maxOf (s.inFlight / 2) (2 * s.cc.mss) + 3 * s.cc.mss).toNat ≤ _
      omega
  | opened _ _ => exact h.opened
  | writeable =>
    rw [notifyWriteable]
    split
    · exact hframe rfl (LogAdds.trans (t := { s with bWriteEnable := false }) (.of_log_eq rfl)
        (.note trivial))
    · exact h
  | readable b =>
    rw [notifyReadable]
    split
    · exact hframe rfl (LogAdds.trans (t := { s with bReadEnable := false }) (.of_log_eq rfl)
        (.note trivial))
    · exact h
  | emptyRetransmit _ _ => exact hframe rfl (.note trivial)
  | backOff _ =>
    refine h.resize rfl rfl rfl rfl le_rfl ?_ (le_max_of_le_left hsz.cwnd)
    show _ ≤ (maxOf (s.inFlight / 2) (2 * s.cc.mss)).toNat
    omega
  | probed => exact hframe rfl (.of_log_eq rfl)

theorem Fits.grow (h : Fits true s) (hg : Grow s t) : Fits false t := by
  have hsz := h.sizes
  have hroom := h.room rfl
  have hmss := hsz.mss_le
  have hcw := hsz.cwnd
  -- a window that was enlarged by `x`
  have key : ∀ {t : PseudoTcp} (x : ℕ), t.cc.mss = s.cc.mss → t.cc.msslevel = s.cc.msslevel →
      t.cc.mtuAdvise = s.cc.mtuAdvise → t.cc.ssthresh = s.cc.ssthresh → t.log = s.log →
      t.cc.cwnd.toNat = x → s.cc.mss.toNat ≤ x → Fits false t := by
    intro t x h₁ h₂ h₃ h₄ h₅ hx hle
    refine ⟨⟨?_, ?_, ?_, ?_, ?_, ?_, ?_⟩, ?_, by simp⟩
    · rw [h₁]
      exact hsz.mss_pos
    · rw [h₁]
      exact hmss
    · rw [h₁, hx]
      exact hle
    · rw [h₁, h₄]
      exact hsz.ssthresh
    · rw [h₂]
      exact hsz.level
    · rw [h₂, h₁]
      exact hsz.table
    · rw [h₃]
      exact hsz.mtu
    · rw [h₅]
      exact h.log
  have hsum : ∀ y : Word, y.toNat ≤ s.cc.mss.toNat →
      (s.cc.cwnd + y).toNat = s.cc.cwnd.toNat + y.toNat := by
    intro y hy
    rw [BitVec.toNat_add]
    exact Nat.mod_eq_of_lt (by omega)
  cases hg with
  | deflate nAcked =>
    have hmin : (minOf nAcked s.cc.cwnd).toNat ≤ s.cc.cwnd.toNat := by
      rw [toNat_minOf]
      exact min_le_right _ _
    refine key (s.cc.cwnd.toNat + s.cc.mss.toNat - (minOf nAcked s.cc.cwnd).toNat) rfl rfl rfl
      rfl rfl ?_ (by omega)
    show (s.cc.cwnd + (s.cc.mss - minOf nAcked s.cc.cwnd)).toNat = _
    bv_omega
  | inflate => exact key _ rfl rfl rfl rfl rfl (hsum _ le_rfl) (by omega)
  | slowStart => exact key _ rfl rfl rfl rfl rfl (hsum _ le_rfl) (by omega)
  | avoid =>
    have hpos := hsz.mss_pos
    have hne : ¬ s.cc.cwnd = 0 := by
      intro h0
      rw [h0] at hcw
      exact absurd hcw (by
        show ¬ s.cc.mss.toNat ≤ 0
        omega)
    have hsq : s.cc.mss.toNat * s.cc.mss.toNat < 2 ^ 32 :=
      lt_of_le_of_lt (Nat.mul_le_mul hmss hmss) (by norm_num)
    have hgrow : (maxOf 1 (s.cc.mss * s.cc.mss / s.cc.cwnd)).toNat ≤ s.cc.mss.toNat := by
      rw [toNat_maxOf, BitVec.toNat_udiv, BitVec.toNat_mul, Nat.mod_eq_of_lt hsq]
      refine max_le hpos ?_
      exact Nat.div_le_of_le_mul (Nat.mul_le_mul_right _ hcw)
    rw [if_neg hne]
    exact key _ rfl rfl rfl rfl rfl (hsum _ hgrow) (by omega)

end PseudoTcp

end Jingle
