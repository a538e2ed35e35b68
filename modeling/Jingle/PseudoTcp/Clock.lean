/-
The agreement of `GetNextClock` and `NotifyClock`.

`GetNextClock` tells its caller when the next timer runs out, `NotifyClock` looks again
which timers have.  Both compare the same times (`lt_getNextClock_iff`), so a clock that
is before the time promised finds nothing to do.

* **`clock_agreement`** — when `NotifyClock` has nothing to do, and that it leaves no
  timer behind that has run out.

The second half is about times that lie less than half of the clock's range apart.  A
window probe doubles the timeout, which also moves the deadline of a retransmit timer
that has not run out; `InRange` says that this does not move it past that half.
-/
import Jingle.PseudoTcp.Keeping
import Jingle.PseudoTcp.Signals

namespace Jingle

/-! ### Times -/

theorem timeDiff_pos_of_lt {x now now' : Word} (hnow : 0 ≤ timeDiff now' now)
    (hlt : timeDiff now' now < timeDiff x now) : 0 < timeDiff x now' := by
  have hsub : x - now' = x - now - (now' - now) := by
    bv_omega
  simp only [timeDiff, hsub] at *
  generalize now' - now = a at *
  generalize x - now = b at *
  simp only [BitVec.toInt_eq_toNat_cond] at *
  split_ifs at * <;> bv_omega

theorem timeDiff_add_pos {now rto : Word} (h : 0 < rto.toNat ∧ rto.toNat ≤ maxRto.toNat) :
    0 < timeDiff (now + rto) now := by
  have hmax : maxRto.toNat = 60000 := rfl
  have hsub : now + rto - now = rto := by bv_omega
  unfold timeDiff
  rw [hsub, BitVec.toInt_eq_toNat_of_lt (by omega)]
  omega

namespace PseudoTcp

variable {env : Env} {now now' : Word} {s t u : PseudoTcp} {b : Bool}

/-! ### What the two look at -/

/-- No timer has run out. -/
structure NoneDue (now : Word) (s : PseudoTcp) : Prop where
  ack : s.tm.tAck ≠ 0 → 0 < timeDiff (s.tm.tAck + s.ackDelay) now
  retransmit : s.tm.rtoBase ≠ 0 → 0 < timeDiff (s.tm.rtoBase + s.tm.rxRto) now
  probe : s.out.sndWnd = 0 → 0 < timeDiff (s.tm.lastsend + s.tm.rxRto) now

theorem retransmitDue_iff : s.retransmitDue now = true ↔
    s.tm.rtoBase ≠ 0 ∧ timeDiff (s.tm.rtoBase + s.tm.rxRto) now ≤ 0 := decide_eq_true_iff

theorem probeDue_iff : s.probeDue now = true ↔
    s.out.sndWnd = 0 ∧ timeDiff (s.tm.lastsend + s.tm.rxRto) now ≤ 0 := decide_eq_true_iff

theorem delayedAckDue_iff : s.delayedAckDue now = true ↔
    s.tm.tAck ≠ 0 ∧ timeDiff (s.tm.tAck + s.ackDelay) now ≤ 0 := decide_eq_true_iff

theorem lt_armed_iff (p : Prop) [Decidable p] (n time x : ℤ) :
    n < (if p then minOf time x else time) ↔ n < time ∧ (p → n < x) := by
  split_ifs with hp
  · rw [minOf_int, lt_min_iff]
    exact and_congr_right fun _ => ⟨fun h _ => h, fun h => h hp⟩
  · exact ⟨fun h => ⟨h, fun h' => absurd h' hp⟩, fun h => h.1⟩

theorem lt_getNextClock_iff {timeout : ℤ} (ho : s.state ≠ .closed)
    (h : s.getNextClock now = some timeout) (n : ℤ) :
    n < timeout ↔ n < defaultTimeout ∧
      (s.tm.tAck ≠ 0 → n < timeDiff (s.tm.tAck + s.ackDelay) now) ∧
      (s.tm.rtoBase ≠ 0 → n < timeDiff (s.tm.rtoBase + s.tm.rxRto) now) ∧
      (s.out.sndWnd = 0 → n < timeDiff (s.tm.lastsend + s.tm.rxRto) now) := by
  rw [getNextClock] at h
  by_cases hforce : s.shutdown = .forceful
  · rw [if_pos hforce] at h
    exact absurd h (Option.some_ne_none _).symm
  rw [if_neg hforce] at h
  by_cases hgrace : s.shutdown = .graceful ∧
      (s.state ≠ .established ∨ (s.out.slen = 0 ∧ s.tm.tAck = 0))
  · rw [if_pos hgrace] at h
    exact absurd h (Option.some_ne_none _).symm
  rw [if_neg hgrace, if_neg ho] at h
  dsimp only at h
  rw [← Option.some.inj h, lt_armed_iff, lt_armed_iff, lt_armed_iff, and_assoc, and_assoc]

theorem notifyClock_of_noneDue (h : s.NoneDue now) : s.notifyClock env now = s := by
  have hr : ¬ s.retransmitDue now = true := by
    rw [retransmitDue_iff]
    rintro ⟨hne, hle⟩
    exact absurd (h.retransmit hne) (not_lt.mpr hle)
  have hp : ¬ s.probeDue now = true := by
    rw [probeDue_iff]
    rintro ⟨hwnd, hle⟩
    exact absurd (h.probe hwnd) (not_lt.mpr hle)
  have ha : ¬ s.delayedAckDue now = true := by
    rw [delayedAckDue_iff]
    rintro ⟨hne, hle⟩
    exact absurd (h.ack hne) (not_lt.mpr hle)
  unfold notifyClock clockRetransmit
  rw [if_neg hr]
  dsimp only
  unfold clockProbe
  rw [if_neg hp]
  dsimp only
  unfold clockAck
  rw [if_neg ha]
  split
  · rfl
  · rfl

theorem noneDue_of_getNextClock {timeout : ℤ} (ho : s.state ≠ .closed)
    (h : s.getNextClock now = some timeout) (hnow : 0 ≤ timeDiff now' now)
    (hlt : timeDiff now' now < timeout) : s.NoneDue now' := by
  obtain ⟨-, hack, hrto, hprobe⟩ := (lt_getNextClock_iff ho h _).mp hlt
  exact ⟨fun hne => timeDiff_pos_of_lt hnow (hack hne),
    fun hne => timeDiff_pos_of_lt hnow (hrto hne),
    fun hwnd => timeDiff_pos_of_lt hnow (hprobe hwnd)⟩

theorem getNextClock_pos {timeout : ℤ} (ho : s.state ≠ .closed) (hd : s.NoneDue now)
    (h : s.getNextClock now = some timeout) : 0 < timeout :=
  (lt_getNextClock_iff ho h 0).mpr ⟨by decide, hd.ack, hd.retransmit, hd.probe⟩

/-! ### What `NotifyClock` leaves behind -/

/-- A window probe does not move the deadline of an armed retransmit timer past half of
the clock's range. -/
def InRange (now : Word) (s : PseudoTcp) : Prop :=
  s.probeDue now = true → s.tm.rtoBase ≠ 0 → 0 < timeDiff (s.tm.rtoBase + s.tm.rxRto) now →
    0 < timeDiff (s.tm.rtoBase + minOf maxRto (s.tm.rxRto * 2)) now

/-- A timer that stands at the reading of the clock, or has not run out and will not when
the timeout is doubled for a window probe. -/
structure Restarted (now : Word) (s : PseudoTcp) : Prop where
  bounded : s.RtoBounded
  base : s.tm.rtoBase = now ∨
    (s.tm.rtoBase ≠ 0 → 0 < timeDiff (s.tm.rtoBase + s.tm.rxRto) now) ∧ s.InRange now

theorem clockRetransmit_restarted (hq : QueueInv False False s) (hb : s.RtoBounded)
    (hr : s.InRange now) (h : clockRetransmit env now s = (true, t)) : t.Restarted now := by
  unfold clockRetransmit at h
  split at h
  · rename_i hdue
    -- an armed timer means that there is data in flight
    have hne := hq.timer (retransmitDue_iff.mp hdue).1
    obtain ⟨sent, unsent, hc⟩ := hq.counted
    obtain ⟨g, rest, rfl⟩ := QueueInv.sent_ne_nil hc hne
    rw [hc.slist] at h
    simp only [List.cons_append, List.isEmpty_cons, Bool.false_eq_true, if_false] at h
    have hf := transmit_frame env 0 now s
    rcases htr : transmit env 0 now s with ⟨_ | _, v⟩
    · rw [htr] at h
      exact absurd h (by simp)
    · rw [htr] at h hf
      obtain ⟨-, rfl⟩ := Prod.mk.inj h
      have hv : v.RtoBounded := by
        unfold RtoBounded
        rw [hf.rxRto]
        exact hb
      refine ⟨rtoBounded_double ?_ hv, .inl rfl⟩
      split
      · exact .inl rfl
      · exact .inr rfl
  · rename_i hdue
    obtain ⟨-, rfl⟩ := Prod.mk.inj h
    refine ⟨hb, .inr ⟨fun hne => ?_, hr⟩⟩
    rw [retransmitDue_iff] at hdue
    by_contra hle
    exact hdue ⟨hne, not_lt.mp hle⟩

theorem packet_none_lastsend (env : Env) (seq : Word) (flags : Byte) (s : PseudoTcp) :
    (packet env seq flags none s).2.tm.lastsend = s.tm.lastsend := by
  unfold packet
  simp [packetSent, assert, note, headerSize, maxPacket]

theorem clockProbe_noneDue (hs : s.Restarted now) (h : clockProbe env now s = (true, t)) :
    (t.tm.rtoBase ≠ 0 → 0 < timeDiff (t.tm.rtoBase + t.tm.rxRto) now) ∧
      (t.out.sndWnd = 0 → 0 < timeDiff (t.tm.lastsend + t.tm.rxRto) now) := by
  unfold clockProbe at h
  split at h
  · rename_i hdue
    split at h
    · exact absurd h (by simp)
    have hp := packet_spec env (s.out.sndNxt - 1) 0 none s
    obtain ⟨-, rfl⟩ := Prod.mk.inj h
    have hb := rtoBounded_double (.inl rfl) hs.bounded
    dsimp only
    rw [hp.rtoBase, hp.frame.rxRto]
    refine ⟨fun hne => ?_, fun _ => timeDiff_add_pos hb⟩
    rcases hs.base with hbase | ⟨hpos, hin⟩
    · rw [hbase]
      exact timeDiff_add_pos hb
    · exact hin hdue hne (hpos hne)
  · rename_i hdue
    obtain ⟨-, rfl⟩ := Prod.mk.inj h
    refine ⟨fun hne => ?_, fun hwnd => ?_⟩
    · rcases hs.base with hbase | ⟨hpos, -⟩
      · rw [hbase]
        exact timeDiff_add_pos hs.bounded
      · exact hpos hne
    · rw [probeDue_iff] at hdue
      by_contra hle
      exact hdue ⟨hwnd, not_lt.mp hle⟩

theorem clockAck_noneDue
    (hrto : s.tm.rtoBase ≠ 0 → 0 < timeDiff (s.tm.rtoBase + s.tm.rxRto) now)
    (hprobe : s.out.sndWnd = 0 → 0 < timeDiff (s.tm.lastsend + s.tm.rxRto) now) :
    (s.clockAck env now).NoneDue now := by
  unfold clockAck
  split
  · have hp := packet_spec env s.out.sndNxt 0 none s
    have hsucc : (packet env s.out.sndNxt 0 none s).1 = .success := by
      unfold packet
      simp
    refine ⟨fun hne => absurd (hp.tAck hsucc) hne, ?_, ?_⟩
    · rw [hp.rtoBase, hp.frame.rxRto]
      exact hrto
    · rw [hp.out, packet_none_lastsend, hp.frame.rxRto]
      exact hprobe
  · rename_i hdue
    refine ⟨fun hne => ?_, hrto, hprobe⟩
    rw [delayedAckDue_iff] at hdue
    by_contra hle
    exact hdue ⟨hne, not_lt.mp hle⟩

theorem notifyClock_noneDue (hq : QueueInv False False s) (hb : s.RtoBounded)
    (hr : s.InRange now) (ho : (s.notifyClock env now).state ≠ .closed) :
    (s.notifyClock env now).NoneDue now := by
  unfold notifyClock at ho ⊢
  split at ho
  · exact absurd ‹_› ho
  rename_i hopen
  rw [if_neg hopen]
  rcases hret : clockRetransmit env now s with ⟨_ | _, v⟩
  · -- an early return is the end of the connection
    rw [hret] at ho
    rcases clockRetransmit_quiet hret with ⟨hb, -⟩ | ⟨-, w, err, -, rfl⟩
    · exact absurd hb (by simp)
    · exact absurd rfl ho
  rw [hret] at ho
  dsimp only at ho ⊢
  rcases hprobe : clockProbe env now v with ⟨_ | _, w⟩
  · rw [hprobe] at ho
    rcases clockProbe_quiet hprobe with ⟨hb, -⟩ | ⟨-, x, err, -, rfl⟩
    · exact absurd hb (by simp)
    · exact absurd rfl ho
  obtain ⟨hrto, hwnd⟩ := clockProbe_noneDue (clockRetransmit_restarted hq hb hr hret) hprobe
  exact clockAck_noneDue hrto hwnd

/-- **The agreement of the two clock functions.**  Before the time that `GetNextClock`
promises, `NotifyClock` does nothing; and when it has been called, the next time promised
lies ahead, as long as a window probe keeps the retransmit timer in range. -/
theorem clock_agreement (h : Reachable (fun _ _ _ => True) s) (ho : s.state ≠ .closed)
    {timeout : ℤ} (ht : s.getNextClock now = some timeout) :
    (∀ env now', 0 ≤ timeDiff now' now → timeDiff now' now < timeout →
      step env (.notifyClock now') s = (.unit, { s with log := [] })) ∧
    ∀ env, s.InRange now → (step env (.notifyClock now) s).2.state ≠ .closed →
      ∀ timeout', (step env (.notifyClock now) s).2.getNextClock now = some timeout' →
        0 < timeout' := by
  have hsafe : QueueSafe False False s :=
    reachable_queueSafe (fun hc => hc.elim) (fun hc => hc.elim) h
  have hq := (hsafe.2 ho).congr_out (t := { s with log := [] }) rfl (fun hl => hl) rfl rfl
  have hb : s.RtoBounded := reachable_rtoBounded h
  constructor
  · intro env now' hnow hlt
    have hd : ({ s with log := [] } : PseudoTcp).NoneDue now' := by
      obtain ⟨hack, hrto, hprobe⟩ := noneDue_of_getNextClock ho ht hnow hlt
      exact ⟨hack, hrto, hprobe⟩
    exact congrArg (Prod.mk Ret.unit) (notifyClock_of_noneDue hd)
  · intro env hr hopen timeout' ht'
    exact getNextClock_pos hopen (notifyClock_noneDue (s := { s with log := [] }) hq hb hr hopen) ht'

/-! ### A deadline that is moved out of range -/

/-- A control byte that is in flight since the time 1, a byte of data since `2 ^ 30`, and
a window that was closed just before `2 ^ 31 + 3002`. -/
def staleCalls : List (Env × Op) :=
  [(.steady 1, .connect),
   (.steady 0x40000000, .setOption .noDelay 1),
   (.steady 0x40000000, .notifyPacket (header 7 0 0 flagCtl 1000 1 0 ++ [ctlConnect])),
   (.steady 0x40000000, .send [1]),
   (.steady 0x80000BB9, .notifyPacket (header 7 1 0 0 0 1 0))]

theorem reachable_stale : Reachable (fun _ _ _ => True) (run staleCalls (.fresh 1 7)) :=
  reachable_run _ _ (reachable_fresh 1 7) ⟨trivial, trivial, trivial, trivial, trivial, trivial⟩

/-- The connection just after its first call. -/
theorem clock_agreement_connect :
    Reachable (fun _ _ _ => True) (run [(.steady 1, .connect)] (.fresh 1 7)) ∧
      (run [(.steady 1, .connect)] (.fresh 1 7)).getNextClock 2 = some 2999 ∧
      step (.steady 3) (.notifyClock 3) (run [(.steady 1, .connect)] (.fresh 1 7)) =
        (.unit, { run [(.steady 1, .connect)] (.fresh 1 7) with log := [] }) := by
  have h : Reachable (fun _ _ _ => True) (run [(.steady 1, .connect)] (.fresh 1 7)) :=
    reachable_run _ _ (reachable_fresh 1 7) ⟨trivial, trivial⟩
  have ht : (run [(.steady 1, .connect)] (.fresh 1 7)).getNextClock 2 = some 2999 := by
    decide
  exact ⟨h, ht, (clock_agreement h (by decide) ht).1 (.steady 3) 3 (by decide)
    (by decide)⟩

/-- A window probe doubles the timeout, and the retransmit timer has then run out. -/
theorem clock_disagreement :
    Reachable (fun _ _ _ => True) (run staleCalls (.fresh 1 7)) ∧
      ((run staleCalls (.fresh 1 7)).getNextClock 0x80000BBA).isSome ∧
      (step (.steady 0x80000BBA) (.notifyClock 0x80000BBA)
        (run staleCalls (.fresh 1 7))).2.state = .established ∧
      ∃ timeout, (step (.steady 0x80000BBA) (.notifyClock 0x80000BBA)
        (run staleCalls (.fresh 1 7))).2.getNextClock 0x80000BBA = some timeout ∧
        timeout ≤ 0 :=
  ⟨reachable_stale, by decide, by decide, _, rfl, by decide⟩

end PseudoTcp

end Jingle
