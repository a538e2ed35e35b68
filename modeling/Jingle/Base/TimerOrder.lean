/-
The order of delayed messages and the wrap of the clock.

The heap compares the words of the trigger times, the test for expiry their
difference.  Both agree with the real times as long as the pending triggers lie
between the same two wraps of the clock and within half its range of the present
(`Straight`).  Then delayed messages are found in the order of their triggers,
none before its time, and no wait goes past the earliest one: `timers_in_order`.

When pending triggers lie on both sides of a wrap, the heap hides the earliest one
behind a later one, and `Get` waits past it: `waits_past_trigger`.
-/
import Jingle.Base.QueueRun

namespace Jingle.Base

/-! ### Real times and their words -/

theorem timeDiff_eq {later earlier : ℤ} (h : -2 ^ 31 ≤ later - earlier ∧ later - earlier < 2 ^ 31) :
    timeDiff (BitVec.ofInt 32 later) (BitVec.ofInt 32 earlier) = later - earlier := by
  rw [timeDiff, BitVec.toInt_sub, BitVec.toInt_ofInt, BitVec.toInt_ofInt, Int.sub_bmod_bmod,
    Int.bmod_sub_bmod]
  exact Int.bmod_eq_of_le (by omega) (by omega)

theorem clockWord_eq (t : ℕ) : clockWord t = BitVec.ofInt 32 t := rfl

theorem timeIsLater_iff {earlier later : ℤ}
    (h : -2 ^ 31 ≤ later - earlier ∧ later - earlier < 2 ^ 31) :
    timeIsLater (BitVec.ofInt 32 earlier) (BitVec.ofInt 32 later) ↔ earlier < later := by
  have hdiff := timeDiff_eq h
  rw [timeDiff] at hdiff
  have hlt : 0 < (BitVec.ofInt 32 later - BitVec.ofInt 32 earlier).toInt →
      BitVec.ofInt 32 later - BitVec.ofInt 32 earlier < HALF := by
    intro hpos
    rw [BitVec.lt_def]
    rw [BitVec.toInt_eq_toNat_cond] at hpos
    have hhalf : HALF.toNat = 2 ^ 31 := rfl
    split_ifs at hpos with hc
    · omega
    · have := (BitVec.ofInt 32 later - BitVec.ofInt 32 earlier).isLt
      omega
  rw [timeIsLater]
  simp only [decide_eq_true_eq]
  constructor
  · rintro ⟨hpos, -⟩
    omega
  · intro hlate
    have hpos : 0 < (BitVec.ofInt 32 later - BitVec.ofInt 32 earlier).toInt := by omega
    exact ⟨hpos, hlt hpos⟩

theorem ofInt_toNat {k t : ℤ} (h : k * 2 ^ 32 ≤ t ∧ t < (k + 1) * 2 ^ 32) :
    ((BitVec.ofInt 32 t).toNat : ℤ) = t - k * 2 ^ 32 := by
  rw [BitVec.toNat_ofInt]
  omega

/-! ### The order of the messages -/

/-- The real time of the trigger. -/
abbrev DelayedMessage.trigger (x : DelayedMessage Posting) : ℤ := x.msg.pdata.trigger

/-- Which message it is. -/
abbrev DelayedMessage.serial (x : DelayedMessage Posting) : ℕ := x.msg.pdata.serial

/-- The order of real trigger times, with ties in posting order. -/
def Precedes (x y : Message Posting) : Prop :=
  x.pdata.trigger < y.pdata.trigger ∨
    x.pdata.trigger = y.pdata.trigger ∧ x.pdata.serial < y.pdata.serial

/-- The pending messages are told apart, and the queue sees their real triggers. -/
structure Timed (l : List (DelayedMessage Posting)) : Prop where
  trigger : ∀ x ∈ l, x.msTrigger = BitVec.ofInt 32 x.trigger
  serials : (l.map DelayedMessage.serial).Nodup

/-- **No wrap among the pending triggers**: they lie between the same two wraps of
the clock and within half its range of the present, and of two with the same
trigger the number of the first one is less. -/
structure Straight (l : List (DelayedMessage Posting)) (msCurrent : ℕ) : Prop where
  side : ∃ k : ℤ, ∀ x ∈ l, k * 2 ^ 32 ≤ x.trigger ∧ x.trigger < (k + 1) * 2 ^ 32
  near : ∀ x ∈ l, -2 ^ 31 ≤ x.trigger - msCurrent ∧ x.trigger - msCurrent < 2 ^ 31
  numbers : ∀ x ∈ l, ∀ y ∈ l, x.trigger = y.trigger → x.serial < y.serial →
    x.num.toNat < y.num.toNat

variable {l l' : List (DelayedMessage Posting)} {msCurrent : ℕ}

theorem Timed.rest {x : DelayedMessage Posting} (h : Timed l) (hp : (x :: l').Perm l) :
    Timed l' := by
  have hserials := (hp.map DelayedMessage.serial).symm.nodup h.serials
  rw [List.map_cons, List.nodup_cons] at hserials
  exact ⟨fun y hy => h.trigger y (hp.subset (List.mem_cons_of_mem _ hy)), hserials.2⟩

theorem Straight.mono (h : Straight l msCurrent) (hs : l' ⊆ l) : Straight l' msCurrent where
  side := by
    obtain ⟨k, hk⟩ := h.side
    exact ⟨k, fun x hx => hk x (hs hx)⟩
  near := fun x hx => h.near x (hs hx)
  numbers := fun x hx y hy => h.numbers x (hs hx) y (hs hy)

theorem precedes_of_top {x : DelayedMessage Posting} (ht : Timed l) (hs : Straight l msCurrent)
    (hp : (x :: l').Perm l) (htop : ∀ y ∈ l, x.lt y = false) :
    ∀ y ∈ l', Precedes x.msg y.msg := by
  intro y hy
  have hx : x ∈ l := hp.subset List.mem_cons_self
  have hyl : y ∈ l := hp.subset (List.mem_cons_of_mem _ hy)
  have hne : x.serial ≠ y.serial := by
    have hserials := (hp.map DelayedMessage.serial).symm.nodup ht.serials
    rw [List.map_cons, List.nodup_cons] at hserials
    intro heq
    exact hserials.1 (heq ▸ List.mem_map_of_mem hy)
  obtain ⟨k, hk⟩ := hs.side
  have hwx := ofInt_toNat (hk x hx)
  have hwy := ofInt_toNat (hk y hyl)
  rw [← ht.trigger x hx] at hwx
  rw [← ht.trigger y hyl] at hwy
  have hlt : ¬x.lt y := by
    rw [htop y hyl]
    exact Bool.false_ne_true
  rw [DelayedMessage.lt_iff] at hlt
  -- the words of the triggers decide, or else the numbers
  rcases lt_trichotomy x.trigger y.trigger with h | h | h
  · exact .inl h
  · refine .inr ⟨h, ?_⟩
    show x.serial < y.serial
    by_contra hge
    have hnum := hs.numbers y hyl x hx h.symm (by omega)
    omega
  · omega

/-- What the loop over the heap finds. -/
structure Found (msCurrent : ℕ) (taken rest : List (DelayedMessage Posting)) (next : ℤ) :
    Prop where
  order : taken.Pairwise fun x y => Precedes x.msg y.msg
  before : ∀ x ∈ taken, ∀ y ∈ rest, Precedes x.msg y.msg
  due : ∀ x ∈ taken, x.trigger ≤ msCurrent
  next : ∀ y ∈ rest, 0 < next ∧ msCurrent + next ≤ y.trigger

theorem takes_found {pq pq' : PriorityQueue Posting} {taken : List (DelayedMessage Posting)}
    {next : ℤ} (h : MessageQueue.Takes (clockWord msCurrent) pq taken pq' next)
    (ht : Timed pq.toList) (hs : Straight pq.toList msCurrent) :
    Found msCurrent taken pq'.toList next := by
  induction h with
  | empty htop =>
    rw [PriorityQueue.top_none htop]
    exact ⟨.nil, by simp, by simp, by simp⟩
  | @later pq top htop hlate =>
    obtain ⟨hperm, hle⟩ := PriorityQueue.top_some htop
    have hmem : top ∈ pq.toList := hperm.subset List.mem_cons_self
    have hnear := hs.near top hmem
    rw [ht.trigger top hmem, clockWord_eq] at hlate ⊢
    rw [timeIsLater_iff hnear] at hlate
    rw [timeDiff_eq hnear]
    refine ⟨.nil, by simp, by simp, fun y hy => ⟨by omega, ?_⟩⟩
    rcases List.mem_cons.1 (hperm.symm.subset hy) with rfl | hy
    · omega
    · have hprec : top.trigger ≤ y.trigger :=
        (precedes_of_top ht hs hperm hle y hy).elim le_of_lt fun h => h.1.le
      omega
  | @take pq pq' top taken next htop hlate htakes ih =>
    obtain ⟨hperm, hle⟩ := PriorityQueue.top_some htop
    have hmem : top ∈ pq.toList := hperm.subset List.mem_cons_self
    have hsub : pq.pop.toList ⊆ pq.toList :=
      fun y hy => hperm.subset (List.mem_cons_of_mem _ hy)
    have hfirst := precedes_of_top ht hs hperm hle
    have hfound := ih (ht.rest hperm) (hs.mono hsub)
    have hdue : top.trigger ≤ msCurrent := by
      have hlate' : ¬timeIsLater (clockWord msCurrent) top.msTrigger := by
        rw [hlate]
        exact Bool.false_ne_true
      rw [ht.trigger top hmem, clockWord_eq, timeIsLater_iff (hs.near top hmem)] at hlate'
      omega
    have hpop := htakes.perm
    refine ⟨?_, ?_, ?_, hfound.next⟩
    · refine List.pairwise_cons.2 ⟨fun y hy => ?_, hfound.order⟩
      exact hfirst y (hpop.subset (List.mem_append_left _ hy))
    · intro x hx y hy
      rcases List.mem_cons.1 hx with rfl | hx
      · exact hfirst y (hpop.subset (List.mem_append_right _ hy))
      · exact hfound.before x hx y hy
    · intro x hx
      rcases List.mem_cons.1 hx with rfl | hx
      · exact hdue
      · exact hfound.due x hx

/-! ### The order in a run -/

namespace World

/-- `y` comes after `x`, which was taken when `n` messages had been accepted: its
trigger does, or it was posted only then and not before the trigger of `x`. -/
def After (x : Message Posting × ℕ) (y : Message Posting) : Prop :=
  Precedes x.1 y ∨ x.2 ≤ y.pdata.serial ∧ x.1.pdata.trigger ≤ y.pdata.since

/-- **Timers in order**: what holds of the messages that `Get` has returned and of
the waits it has made. -/
structure Timely (w : World) : Prop where
  /-- a delayed message comes after those returned before it, but for one that was
  posted for a time already past when they had been taken -/
  order : ((w.delivered.map Prod.fst).filter (·.pdata.delayed)).Pairwise fun x y =>
    Precedes x y ∨ y.pdata.trigger < y.pdata.since ∧ ∃ n, (x, n) ∈ w.taken ∧ n ≤ y.pdata.serial
  /-- none is returned before its time -/
  inTime : ∀ d ∈ w.delivered, d.1.pdata.delayed → d.1.pdata.trigger ≤ d.2
  /-- no wait goes past the earliest pending trigger -/
  waits : ∀ wait ∈ w.waits, ∀ t ∈ wait.triggers, 0 ≤ wait.timeout ∧
    wait.since + wait.timeout ≤ t

/-- The invariant of a run whose scans are straight. -/
structure Timing (w : World) : Prop where
  timed : Timed w.q.dmsgq.toList
  pending : ∀ x ∈ w.q.dmsgq.toList, x.msg.pdata.delayed ∧ x.serial < w.accepted.length
  takenDue : ∀ p ∈ w.taken, p.1.pdata.trigger ≤ w.now ∧ p.1.pdata.serial < p.2 ∧
    p.2 ≤ w.accepted.length
  takenOrder : w.taken.Pairwise fun p r => After p r.1
  takenFirst : ∀ p ∈ w.taken, ∀ x ∈ w.q.dmsgq.toList, After p x.msg
  fifo : ((w.delivered.map Prod.fst ++ (w.q.msgPeek.toList ++ w.q.msgq)).filter
    (·.pdata.delayed)).Sublist (w.taken.map Prod.fst)
  inTime : ∀ d ∈ w.delivered, d.1.pdata.delayed → d.1.pdata.trigger ≤ d.2
  waits : ∀ wait ∈ w.waits, ∀ t ∈ wait.triggers, 0 ≤ wait.timeout ∧
    wait.since + wait.timeout ≤ t
  call : ∀ c ∈ w.call, c.msCurrent ≤ w.now ∧ w.q.msgPeek = none

variable {w w' : World}

theorem Timing.timely (h : w.Timing) : w.Timely where
  order := by
    have hsub : ((w.delivered.map Prod.fst).filter (·.pdata.delayed)).Sublist
        (w.taken.map Prod.fst) := by
      refine List.Sublist.trans ?_ h.fifo
      exact (List.sublist_append_left _ _).filter _
    refine List.Pairwise.sublist hsub (List.pairwise_map.2 ?_)
    refine h.takenOrder.imp_of_mem fun {p r} hp _ hpr => ?_
    rcases hpr with hpr | ⟨hn, hsince⟩
    · exact .inl hpr
    · by_cases hlate : r.1.pdata.trigger < r.1.pdata.since
      · exact .inr ⟨hlate, p.2, hp, hn⟩
      · have hserial := (h.takenDue p hp).2.1
        rw [Precedes]
        omega
  inTime := h.inTime
  waits := h.waits

theorem Timing.of_heap (h : w.Timing) {q : MessageQueue Posting} {accepted : List (Message Posting)}
    (hlen : w.accepted.length ≤ accepted.length) (ht : Timed q.dmsgq.toList)
    (hp : ∀ x ∈ q.dmsgq.toList, x.msg.pdata.delayed ∧ x.serial < accepted.length)
    (hf : ∀ p ∈ w.taken, ∀ x ∈ q.dmsgq.toList, After p x.msg)
    (hmsgs : ((q.msgPeek.toList ++ q.msgq).filter (·.pdata.delayed)).Sublist
      ((w.q.msgPeek.toList ++ w.q.msgq).filter (·.pdata.delayed)))
    (hpeek : w.q.msgPeek = none → q.msgPeek = none) :
    ({ w with q, accepted } : World).Timing where
  timed := ht
  pending := hp
  takenDue := fun p hp => by
    have hdue := h.takenDue p hp
    exact ⟨hdue.1, hdue.2.1, hdue.2.2.trans hlen⟩
  takenOrder := h.takenOrder
  takenFirst := hf
  fifo := by
    refine List.Sublist.trans ?_ h.fifo
    rw [List.filter_append, List.filter_append (w.delivered.map Prod.fst)]
    exact (List.Sublist.refl _).append hmsgs
  inTime := h.inTime
  waits := h.waits
  call := fun c hc => ⟨(h.call c hc).1, hpeek (h.call c hc).2⟩

theorem Timing.post (h : w.Timing) (handler : Option ℕ) (id : Word) (timeSensitive : Bool) :
    (w.act (.post handler id timeSensitive)).Timing := by
  simp only [act, accept, MessageQueue.post]
  split_ifs with hstop
  · exact h
  all_goals
    refine h.of_heap (by simp) h.timed ?_ h.takenFirst ?_ fun hnone => hnone
    · intro x hx
      obtain ⟨hd, hserial⟩ := h.pending x hx
      exact ⟨hd, by rw [List.length_append]; omega⟩
    · rw [← List.append_assoc, List.filter_append]
      simp

theorem Timing.delayPost (h : w.Timing) {tstamp : Word} {trigger : ℤ}
    (hword : tstamp = BitVec.ofInt 32 trigger) (handler : Option ℕ) (id : Word) :
    (w.delayPost tstamp trigger handler id).Timing := by
  rw [World.delayPost, accept]
  split_ifs with hstop
  · exact h
  · generalize hx : DelayedMessage.mk tstamp w.q.dmsgqNextNum
      (Message.mk handler id (Posting.mk w.accepted.length true w.now trigger) 0) = x
    have hmsg : Message.mk handler id (Posting.mk w.accepted.length true w.now trigger) 0 = x.msg := by
      rw [← hx]
    have hq : w.q.doDelayPost tstamp handler id ⟨w.accepted.length, true, w.now, trigger⟩ =
        { w.q with dmsgq := w.q.dmsgq.push x, dmsgqNextNum := w.q.dmsgqNextNum + 1 } := by
      rw [MessageQueue.doDelayPost, if_neg hstop, hx]
    have hserial : x.serial = w.accepted.length := by rw [← hx]
    have hperm := w.q.dmsgq.push_perm x
    have hcases : ∀ y ∈ (w.q.dmsgq.push x).toList, y = x ∨ y ∈ w.q.dmsgq.toList := by
      intro y hy
      exact List.mem_cons.1 (hperm.subset hy)
    rw [hq, hmsg]
    refine h.of_heap (by simp) ⟨?_, ?_⟩ ?_ ?_ (.refl _) fun hnone => hnone
    · intro y hy
      rcases hcases y hy with rfl | hy
      · rw [← hx]
        exact hword
      · exact h.timed.trigger y hy
    · refine (hperm.map DelayedMessage.serial).symm.nodup ?_
      rw [List.map_cons, List.nodup_cons]
      refine ⟨fun hmem => ?_, h.timed.serials⟩
      obtain ⟨y, hy, heq⟩ := List.mem_map.1 hmem
      have hlt := (h.pending y hy).2
      omega
    · intro y hy
      rw [List.length_append, List.length_singleton]
      rcases hcases y hy with rfl | hy
      · exact ⟨by rw [← hx], by omega⟩
      · obtain ⟨hd, hlt⟩ := h.pending y hy
        exact ⟨hd, by omega⟩
    · intro p hp y hy
      rcases hcases y hy with rfl | hy
      · -- posted after `p` was taken
        have hdue := h.takenDue p hp
        refine .inr ⟨?_, ?_⟩
        · show p.2 ≤ y.serial
          omega
        · rw [← hx]
          exact hdue.1
      · exact h.takenFirst p hp y hy

theorem Timing.clear (h : w.Timing) (handler : Option ℕ) (id : Word) :
    (w.act (.clear handler id)).Timing := by
  have hsub : ∀ x ∈ (w.q.clear handler id).dmsgq.toList, x ∈ w.q.dmsgq.toList := fun x hx =>
    List.mem_of_mem_filter ((PriorityQueue.keep_perm _ _).subset hx)
  have hcleared := h.of_heap (q := w.q.clear handler id) le_rfl ⟨?_, ?_⟩
    (fun x hx => h.pending x (hsub x hx)) (fun p hp x hx => h.takenFirst p hp x (hsub x hx)) ?_ ?_
  · exact ⟨hcleared.timed, hcleared.pending, hcleared.takenDue, hcleared.takenOrder,
      hcleared.takenFirst, hcleared.fifo, hcleared.inTime, hcleared.waits, hcleared.call⟩
  · exact fun x hx => h.timed.trigger x (hsub x hx)
  · refine (((PriorityQueue.keep_perm _ _).map DelayedMessage.serial)).symm.nodup ?_
    exact h.timed.serials.sublist (List.filter_sublist.map _)
  · rw [MessageQueue.msgPeek_clear]
    exact (List.filter_sublist.append List.filter_sublist).filter _
  · intro hnone
    rw [MessageQueue.clear, hnone]
    rfl

theorem cmsNext_spec {cmsWait cmsElapsed next : ℤ} (hnext : 0 < next) :
    0 ≤ MessageQueue.cmsNext cmsWait cmsElapsed next ∧
      MessageQueue.cmsNext cmsWait cmsElapsed next ≤ next := by
  simp only [MessageQueue.cmsNext, kForever]
  split_ifs <;> omega

theorem Timing.scan (h : w.Timing) {c : Call} (hc : w.call = some c)
    (hs : Straight w.q.dmsgq.toList c.msCurrent) : (w.scan c).Timing := by
  obtain ⟨hcnow, hpeek⟩ := h.call c hc
  obtain ⟨taken, hscan⟩ := w.q.scan_spec (clockWord c.msCurrent)
  have hfound := takes_found hscan.takes h.timed hs
  have hperm := hscan.takes.perm
  have htakenBy := hscan.takenBy
  rw [World.scan]
  generalize w.q.scan (clockWord c.msCurrent) = s at *
  have hrest : ∀ x ∈ s.queue.dmsgq.toList, x ∈ w.q.dmsgq.toList := fun x hx =>
    hperm.subset (List.mem_append_right _ hx)
  have hnew : ∀ x ∈ taken, x ∈ w.q.dmsgq.toList := fun x hx =>
    hperm.subset (List.mem_append_left _ hx)
  have hserials := (hperm.map DelayedMessage.serial).symm.nodup h.timed.serials
  rw [List.map_append] at hserials
  -- the history with the messages that were taken now
  set history := w.taken ++ (w.q.takenBy (clockWord c.msCurrent)).map (·, w.accepted.length)
    with hhistory
  have hmem : ∀ p ∈ history, p ∈ w.taken ∨ ∃ x ∈ taken, p = (x.msg, w.accepted.length) := by
    intro p hp
    rw [hhistory, htakenBy, List.map_map] at hp
    rcases List.mem_append.1 hp with hp | hp
    · exact .inl hp
    · obtain ⟨x, hx, rfl⟩ := List.mem_map.1 hp
      exact .inr ⟨x, hx, rfl⟩
  have hdue : ∀ p ∈ history, p.1.pdata.trigger ≤ w.now ∧ p.1.pdata.serial < p.2 ∧
      p.2 ≤ w.accepted.length := by
    intro p hp
    rcases hmem p hp with hp | ⟨x, hx, rfl⟩
    · exact h.takenDue p hp
    · have htrigger := hfound.due x hx
      exact ⟨htrigger.trans (by omega), (h.pending x (hnew x hx)).2, le_rfl⟩
  have horder : history.Pairwise fun p r => After p r.1 := by
    rw [hhistory, htakenBy, List.map_map]
    refine List.pairwise_append.2 ⟨h.takenOrder, ?_, ?_⟩
    · refine List.pairwise_map.2 (hfound.order.imp fun hxy => .inl hxy)
    · intro p hp r hr
      obtain ⟨x, hx, rfl⟩ := List.mem_map.1 hr
      exact h.takenFirst p hp x (hnew x hx)
  have hfirst : ∀ p ∈ history, ∀ x ∈ s.queue.dmsgq.toList, After p x.msg := by
    intro p hp y hy
    rcases hmem p hp with hp | ⟨x, hx, rfl⟩
    · exact h.takenFirst p hp y (hrest y hy)
    · exact .inl (hfound.before x hx y hy)
  have hfifo : ((w.delivered.map Prod.fst ++ (s.message.toList ++ s.queue.msgq)).filter
      (·.pdata.delayed)).Sublist (history.map Prod.fst) := by
    have hold := h.fifo
    rw [hpeek, Option.toList_none, List.nil_append] at hold
    have hall : taken.map (·.msg) = (taken.map (·.msg)).filter (·.pdata.delayed) := by
      refine (List.filter_eq_self.2 fun m hm => ?_).symm
      obtain ⟨x, hx, rfl⟩ := List.mem_map.1 hm
      exact (h.pending x (hnew x hx)).1
    have hmap : history.map Prod.fst = w.taken.map Prod.fst ++ taken.map (·.msg) := by
      rw [hhistory, htakenBy, List.map_append, List.map_map]
      congr 1
      exact List.map_id _
    rw [hmap, hall]
    refine List.Sublist.trans ?_ (hold.append (.refl _))
    rw [← List.filter_append, List.append_assoc, hscan.msgq, List.append_assoc]
    exact ((List.Sublist.refl _).append (List.sublist_append_right _ _)).filter _
  have htimed : Timed s.queue.dmsgq.toList :=
    ⟨fun x hx => h.timed.trigger x (hrest x hx), hserials.of_append_right⟩
  have hpending := fun x hx => h.pending x (hrest x hx)
  rcases hm : s.message with _ | m <;> dsimp only
  · rw [hm, Option.toList_none, List.nil_append] at hfifo
    rw [nothingFound]
    have hpeek' : s.queue.msgPeek = none := hscan.peek.trans hpeek
    have hfifo' : ((w.delivered.map Prod.fst ++ (s.queue.msgPeek.toList ++ s.queue.msgq)).filter
        (·.pdata.delayed)).Sublist (history.map Prod.fst) := by
      rw [hpeek']
      exact hfifo
    split_ifs with hstop
    · exact ⟨htimed, hpending, hdue, horder, hfirst, hfifo', h.inTime, h.waits, by simp⟩
    · refine ⟨htimed, hpending, hdue, horder, hfirst, hfifo', h.inTime, ?_, ?_⟩
      · intro wait hwait
        rcases List.mem_append.1 hwait with hwait | hwait
        · exact h.waits wait hwait
        · rw [List.mem_singleton.1 hwait]
          intro t ht
          obtain ⟨y, hy, rfl⟩ := List.mem_map.1 ht
          obtain ⟨hpos, hle⟩ := hfound.next y hy
          obtain ⟨hnonneg, hnext⟩ := @cmsNext_spec c.cmsWait
            (timeDiff (clockWord c.msCurrent) (clockWord c.msStart)) _ hpos
          refine ⟨hnonneg, ?_⟩
          calc (c.msCurrent : ℤ) + _ ≤ c.msCurrent + s.cmsDelayNext := by gcongr
            _ ≤ y.trigger := hle
      · intro c' hc'
        obtain rfl := Option.some.inj hc'
        exact ⟨hcnow, hpeek'⟩
  · rw [hm, Option.toList_some] at hfifo
    rw [found]
    split_ifs with hpeeking
    · exact ⟨htimed, hpending, hdue, horder, hfirst, hfifo, h.inTime, h.waits, by simp⟩
    · refine ⟨htimed, hpending, hdue, horder, hfirst, ?_, ?_, h.waits, by simp⟩
      · rw [List.map_append, List.map_singleton, hscan.peek, hpeek, Option.toList_none,
          List.nil_append, List.append_assoc]
        exact hfifo
      · intro d hd hdelayed
        rcases List.mem_append.1 hd with hd | hd
        · exact h.inTime d hd hdelayed
        · rw [List.mem_singleton.1 hd] at hdelayed ⊢
          -- it has been taken, so its time has come
          have hin : m ∈ history.map Prod.fst := hfifo.subset
            (List.mem_filter.2 ⟨List.mem_append_right _ List.mem_cons_self, hdelayed⟩)
          obtain ⟨p, hp, rfl⟩ := List.mem_map.1 hin
          exact (hdue p hp).1

theorem Timing.start (h : w.Timing) (peeking : Bool) (cmsWait : ℤ) :
    (w.start peeking cmsWait).Timing := by
  rw [World.start]
  split
  · exact h
  · next m hcall hpeek =>
    split_ifs
    · exact h
    · have hfifo := h.fifo
      rw [hpeek, Option.toList_some] at hfifo
      refine ⟨h.timed, h.pending, h.takenDue, h.takenOrder, h.takenFirst, ?_, ?_, h.waits, ?_⟩
      · simpa using hfifo
      · intro d hd hdelayed
        rcases List.mem_append.1 hd with hd | hd
        · exact h.inTime d hd hdelayed
        · rw [List.mem_singleton.1 hd] at hdelayed ⊢
          have hin : m ∈ w.taken.map Prod.fst := hfifo.subset
            (List.mem_filter.2 ⟨List.mem_append_right _ List.mem_cons_self, hdelayed⟩)
          obtain ⟨p, hp, rfl⟩ := List.mem_map.1 hin
          exact (h.takenDue p hp).1
      · intro c hc
        have hc' : w.call = some c := hc
        rw [hcall] at hc'
        cases hc'
  · next hcall hpeek =>
    refine ⟨h.timed, h.pending, h.takenDue, h.takenOrder, h.takenFirst, h.fifo, h.inTime,
      h.waits, ?_⟩
    intro c hc
    obtain rfl := Option.some.inj hc
    exact ⟨le_rfl, hpeek⟩

/-- A scan is straight. -/
def Meets (w : World) : Event → Prop
  | .scan => ∀ c ∈ w.call, c.waiting = none → Straight w.q.dmsgq.toList c.msCurrent
  | _ => True

theorem Timing.act (h : w.Timing) {e : Event} (hr : InRange e) (hm : w.Meets e) :
    (w.act e).Timing := by
  cases e with
  | advance d =>
    refine ⟨h.timed, h.pending, fun p hp => ?_, h.takenOrder, h.takenFirst, h.fifo, h.inTime,
      h.waits, fun c hc => ?_⟩
    · have hdue := h.takenDue p hp
      exact ⟨hdue.1.trans (by simp [World.act]), hdue.2⟩
    · have hcall := h.call c hc
      exact ⟨hcall.1.trans (Nat.le_add_right _ _), hcall.2⟩
  | post handler id timeSensitive => exact h.post handler id timeSensitive
  | postDelayed cmsDelay handler id =>
    refine h.delayPost ?_ handler id
    rw [clockWord_eq, BitVec.ofInt_add]
    congr 1
    simp
  | postAt tstamp handler id =>
    refine h.delayPost ?_ handler id
    rw [timeDiff, BitVec.ofInt_add, BitVec.ofInt_toInt, clockWord_eq, BitVec.add_comm,
      BitVec.sub_add_cancel]
  | clear handler id => exact h.clear handler id
  | get cmsWait => exact h.start false cmsWait
  | peek cmsWait => exact h.start true cmsWait
  | scan =>
    rw [World.act]
    rcases hc : w.call with _ | c <;> dsimp only
    · exact h
    · split_ifs with hidle
      · exact h.scan hc (hm c hc hidle)
      · exact h
  | wake ok =>
    rw [World.act]
    rcases hc : w.call with _ | c <;> dsimp only
    · exact h
    · split_ifs with hidle
      · exact h
      · have hcall := h.call c hc
        rw [World.wake]
        split_ifs
        · exact ⟨h.timed, h.pending, h.takenDue, h.takenOrder, h.takenFirst, h.fifo, h.inTime,
            h.waits, by simp⟩
        · exact ⟨h.timed, h.pending, h.takenDue, h.takenOrder, h.takenFirst, h.fifo, h.inTime,
            h.waits, by simp⟩
        · refine ⟨h.timed, h.pending, h.takenDue, h.takenOrder, h.takenFirst, h.fifo, h.inTime,
            h.waits, fun c' hc' => ?_⟩
          obtain rfl := Option.some.inj hc'
          exact ⟨le_rfl, hcall.2⟩
  | quit =>
    exact ⟨h.timed, h.pending, h.takenDue, h.takenOrder, h.takenFirst, h.fifo, h.inTime, h.waits,
      h.call⟩
  | restart =>
    exact ⟨h.timed, h.pending, h.takenDue, h.takenOrder, h.takenFirst, h.fifo, h.inTime, h.waits,
      h.call⟩

/-- **Timers in order.**  In a run whose scans are straight, `Get` returns delayed
messages in the order of their real triggers, none before its time, and no wait goes
past the earliest pending trigger. -/
theorem timers_in_order :
    ∀ w, Reach Start (fun w w' => ∃ e, InRange e ∧ w.Meets e ∧ w' = w.act e) w → w.Timely := by
  intro w hw
  refine (Reach.invariant (I := Timing) ?_ ?_ w hw).timely
  · rintro w ⟨now, rfl⟩
    exact ⟨⟨by simp, .nil⟩, by simp, by simp, .nil, by simp, .refl _, by simp, by simp, by simp⟩
  · rintro w _ - h ⟨e, hr, hm, rfl⟩
    exact h.act hr hm

/-- A new queue with two messages: the second one is due first. -/
def twoTimers (now : ℕ) : World :=
  (({ q := .new, now, call := none, accepted := [], taken := [], delivered := []
      removed := [], disposed := [], waits := [] } : World).act
    (.postDelayed 32 (some 1) 1)).act (.postDelayed 8 (some 1) 2)

/-- Both triggers lie after the wrap: the second message is returned, in time. -/
theorem timers_in_order_two :
    (((twoTimers 0x100000000).act (.advance 9)).act (.get 1000)).act .scan |>.Timely := by
  refine timers_in_order _ (.step (.step (.step (.step (.step (.init ⟨_, rfl⟩)
    ⟨.postDelayed 32 (some 1) 1, by rw [InRange]; decide, trivial, rfl⟩)
    ⟨.postDelayed 8 (some 1) 2, by rw [InRange]; decide, trivial, rfl⟩)
    ⟨.advance 9, trivial, trivial, rfl⟩) ⟨.get 1000, trivial, trivial, rfl⟩)
    ⟨.scan, trivial, fun c hc _ => ?_, rfl⟩)
  have hcall : ((((twoTimers 0x100000000).act (.advance 9)).act (.get 1000)).call.map
      Call.msCurrent) = some 0x100000009 := by decide
  have hcurrent : c.msCurrent = 0x100000009 := by
    rw [twoTimers] at hcall
    rw [Option.mem_def.1 hc] at hcall
    exact Option.some.inj hcall
  rw [hcurrent]
  exact ⟨⟨1, by decide⟩, by decide, by decide⟩

/-- **`Get` waits past a trigger**: the second message is due, but the heap hides it
behind the first. -/
theorem waits_past_trigger : ¬∀ w, Reach Start Next w → w.Timely := by
  intro h
  have hw := (h ((((twoTimers 0xFFFFFFF0).act (.advance 9)).act (.get 1000)).act .scan)
    (.step (.step (.step (.step (.step (.init ⟨_, rfl⟩) ⟨.postDelayed 32 (some 1) 1, by rw [InRange]; decide, rfl⟩)
      ⟨.postDelayed 8 (some 1) 2, by rw [InRange]; decide, rfl⟩) ⟨.advance 9, trivial, rfl⟩)
      ⟨.get 1000, trivial, rfl⟩) ⟨.scan, trivial, rfl⟩)).waits
  have hbad : ¬∀ wait ∈ ((((twoTimers 0xFFFFFFF0).act (.advance 9)).act (.get 1000)).act .scan).waits,
      ∀ t ∈ wait.triggers, 0 ≤ wait.timeout ∧ wait.since + wait.timeout ≤ t := by
    decide
  exact hbad hw

end World

end Jingle.Base
