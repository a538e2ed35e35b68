/-
The message queue conserves messages.

`Conserved` accounts for every accepted message: it has been returned by `Get`,
removed by a `Clear` that matches it, disposed of, or it is still in the queue; and
the messages posted at once leave in posting order.  It holds in every run
(`conserved`).

`Peek` finds what `Get` would return: without a post or a `Clear` in between, the
calls of `Get` after it return the same messages (`peek_same`).  A message posted
after a `Peek` comes behind the triggered messages that `Peek` has moved to the
list, and without it before them: `peek_reorders`.
-/
import Jingle.Base.TimerOrder

namespace Jingle.Base

/-! ### Conservation -/

namespace World

/-- **Messages are conserved.** -/
structure Conserved (w : World) : Prop where
  /-- every accepted message is in one place -/
  account : w.accepted.Perm
    (w.delivered.map Prod.fst ++ w.removed.map Prod.fst ++ w.disposed ++ w.q.pending)
  /-- it was removed by a `Clear` that matches it -/
  matched : ∀ r ∈ w.removed, r.1.matches_ r.2.1 r.2.2
  /-- only messages made for it are disposed of -/
  disposed : ∀ m ∈ w.disposed, m.messageId = MQID_DISPOSE
  /-- what was posted at once is returned in posting order -/
  posted : ((w.delivered.map Prod.fst ++ (w.q.msgPeek.toList ++ w.q.msgq)).filter
    (!·.pdata.delayed)).Sublist (w.accepted.filter (!·.pdata.delayed))
  /-- the heap holds delayed messages only -/
  delayed : ∀ x ∈ w.q.dmsgq.toList, x.msg.pdata.delayed
  /-- nothing is kept while a call looks for a message -/
  call : w.call.isSome → w.q.msgPeek = none

variable {w : World}

theorem Conserved.accept (h : w.Conserved) {m : Message Posting} {q : MessageQueue Posting}
    (hpending : q.pending.Perm (m :: w.q.pending)) (hpeek : q.msgPeek = w.q.msgPeek)
    (hdelayed : ∀ x ∈ q.dmsgq.toList, x.msg.pdata.delayed)
    (hmsgq : q.msgq.filter (!·.pdata.delayed) =
      w.q.msgq.filter (!·.pdata.delayed) ++ [m].filter (!·.pdata.delayed)) :
    ({ w with q, accepted := w.accepted ++ [m] } : World).Conserved where
  account := by
    dsimp only
    calc w.accepted ++ [m]
        |>.Perm (m :: w.accepted) := List.perm_append_singleton m _
      _ |>.Perm (m :: (w.delivered.map Prod.fst ++ w.removed.map Prod.fst ++ w.disposed ++
          w.q.pending)) := h.account.cons m
      _ |>.Perm (w.delivered.map Prod.fst ++ w.removed.map Prod.fst ++ w.disposed ++
          (m :: w.q.pending)) := List.perm_middle.symm
      _ |>.Perm (w.delivered.map Prod.fst ++ w.removed.map Prod.fst ++ w.disposed ++
          q.pending) := hpending.symm.append_left _
  matched := h.matched
  disposed := h.disposed
  posted := by
    have hold := h.posted
    dsimp only
    rw [hpeek]
    simp only [List.filter_append, hmsgq] at hold ⊢
    rw [← List.append_assoc, ← List.append_assoc]
    rw [← List.append_assoc] at hold
    exact hold.append (.refl _)
  delayed := hdelayed
  call := fun hc => hpeek.trans (h.call hc)

theorem Conserved.post (h : w.Conserved) (handler : Option ℕ) (id : Word) (timeSensitive : Bool) :
    (w.act (.post handler id timeSensitive)).Conserved := by
  simp only [act, World.accept, MessageQueue.post]
  split_ifs with hstop
  · exact h
  all_goals
    refine h.accept ?_ rfl h.delayed (by simp)
    rw [MessageQueue.pending, MessageQueue.pending, ← List.append_assoc, List.append_assoc _ [_]]
    exact List.perm_middle

theorem Conserved.delayPost (h : w.Conserved) (tstamp : Word) (trigger : ℤ) (handler : Option ℕ)
    (id : Word) : (w.delayPost tstamp trigger handler id).Conserved := by
  simp only [World.delayPost, World.accept, MessageQueue.doDelayPost]
  split_ifs with hstop
  · exact h
  · have hperm := w.q.dmsgq.push_perm ⟨tstamp, w.q.dmsgqNextNum,
      ⟨handler, id, ⟨w.accepted.length, true, w.now, trigger⟩, 0⟩⟩
    refine h.accept ?_ rfl (fun x hx => ?_) (by simp)
    · rw [MessageQueue.pending, MessageQueue.pending]
      refine ((hperm.map _).append_left _).trans ?_
      rw [List.map_cons]
      exact List.perm_middle
    · rcases List.mem_cons.1 (hperm.subset hx) with rfl | hx
      · rfl
      · exact h.delayed x hx

theorem Conserved.clear (h : w.Conserved) (handler : Option ℕ) (id : Word) :
    (w.act (.clear handler id)).Conserved where
  account := by
    have hmap : ((w.q.cleared handler id).map (·, handler, id)).map Prod.fst =
        w.q.cleared handler id := by
      rw [List.map_map]
      exact List.map_id _
    show w.accepted.Perm (w.delivered.map Prod.fst ++
      (w.removed ++ (w.q.cleared handler id).map (·, handler, id)).map Prod.fst ++ w.disposed ++
        (w.q.clear handler id).pending)
    rw [List.map_append, hmap]
    refine h.account.trans ?_
    refine ((w.q.clear_perm handler id).symm.append_left _).trans ?_
    generalize w.q.cleared handler id = cleared
    generalize (w.q.clear handler id).pending = rest
    -- the cleared messages move before those disposed of
    have hswap : (w.disposed ++ cleared).Perm (cleared ++ w.disposed) := List.perm_append_comm
    simpa [List.append_assoc] using ((hswap.append_right rest).append_left
      (w.removed.map Prod.fst)).append_left (w.delivered.map Prod.fst)
  matched := by
    intro r hr
    rcases List.mem_append.1 hr with hr | hr
    · exact h.matched r hr
    · obtain ⟨m, hm, rfl⟩ := List.mem_map.1 hr
      rw [MessageQueue.cleared_eq] at hm
      exact (List.mem_filter.1 hm).2
  disposed := h.disposed
  posted := by
    refine List.Sublist.trans ?_ h.posted
    show ((w.delivered.map Prod.fst ++ ((w.q.clear handler id).msgPeek.toList ++
      (w.q.clear handler id).msgq)).filter _).Sublist _
    rw [MessageQueue.msgPeek_clear]
    exact ((List.Sublist.refl _).append
      (List.filter_sublist.append List.filter_sublist)).filter _
  delayed := fun x hx => h.delayed x
    (List.mem_of_mem_filter ((PriorityQueue.keep_perm _ _).subset hx))
  call := by
    intro hc
    show w.q.msgPeek.filter _ = none
    rw [h.call hc]
    rfl

theorem Conserved.scan (h : w.Conserved) {c : Call} (hc : w.call = some c) :
    (w.scan c).Conserved := by
  have hpeek : w.q.msgPeek = none := h.call (by rw [hc]; rfl)
  obtain ⟨taken, hscan⟩ := w.q.scan_spec (clockWord c.msCurrent)
  have hperm := hscan.takes.perm
  have hmsgq := hscan.msgq
  have hdisposedBy : ∀ m ∈ w.q.disposedBy (clockWord c.msCurrent), m.messageId = MQID_DISPOSE := by
    intro m hm
    simpa using List.all_eq_true.1 List.all_takeWhile m hm
  rw [World.scan]
  generalize w.q.disposedBy (clockWord c.msCurrent) = dropped at *
  generalize w.q.scan (clockWord c.msCurrent) = s at *
  have hpending : w.q.pending.Perm
      (dropped ++ (s.message.toList ++ (s.queue.msgq ++ s.queue.dmsgq.toList.map (·.msg)))) := by
    rw [MessageQueue.pending, hpeek, Option.toList_none, List.nil_append]
    refine ((hperm.map (·.msg)).symm.append_left _).trans ?_
    rw [List.map_append, ← List.append_assoc, hmsgq]
    simp only [List.append_assoc]
    exact .refl _
  have hdelayed : ∀ x ∈ s.queue.dmsgq.toList, x.msg.pdata.delayed := fun x hx =>
    h.delayed x (hperm.subset (List.mem_append_right _ hx))
  have htaken : ∀ m ∈ taken.map (·.msg), m.pdata.delayed := by
    intro m hm
    obtain ⟨x, hx, rfl⟩ := List.mem_map.1 hm
    exact h.delayed x (hperm.subset (List.mem_append_left _ hx))
  have hposted : ((w.delivered.map Prod.fst ++ (s.message.toList ++ s.queue.msgq)).filter
      (!·.pdata.delayed)).Sublist (w.accepted.filter (!·.pdata.delayed)) := by
    have hold := h.posted
    rw [hpeek, Option.toList_none, List.nil_append] at hold
    have hnone : (taken.map (·.msg)).filter (!·.pdata.delayed) = [] := by
      rw [List.filter_eq_nil_iff]
      intro m hm
      simpa using htaken m hm
    refine List.Sublist.trans ?_ hold
    have hsame : (w.q.msgq ++ taken.map (·.msg)).filter (!·.pdata.delayed) =
        w.q.msgq.filter (!·.pdata.delayed) := by
      rw [List.filter_append, hnone, List.append_nil]
    rw [List.filter_append, List.filter_append (w.delivered.map Prod.fst), ← hsame, hmsgq,
      List.append_assoc]
    exact (List.Sublist.refl _).append ((List.sublist_append_right _ _).filter _)
  have hdisposed : ∀ m ∈ w.disposed ++ dropped, m.messageId = MQID_DISPOSE := by
    intro m hm
    rcases List.mem_append.1 hm with hm | hm
    · exact h.disposed m hm
    · exact hdisposedBy m hm
  have haccount : w.accepted.Perm (w.delivered.map Prod.fst ++ w.removed.map Prod.fst ++
      (w.disposed ++ dropped) ++
      (s.message.toList ++ (s.queue.msgq ++ s.queue.dmsgq.toList.map (·.msg)))) := by
    refine (h.account.trans (hpending.append_left _)).trans ?_
    simp only [List.append_assoc]
    exact .refl _
  rcases hm : s.message with _ | m <;> dsimp only <;> rw [hm] at hposted haccount
  · have hqueue : s.queue.pending = s.queue.msgq ++ s.queue.dmsgq.toList.map (·.msg) := by
      rw [MessageQueue.pending, hscan.peek, hpeek, Option.toList_none, List.nil_append]
    have hposted' : ((w.delivered.map Prod.fst ++ (s.queue.msgPeek.toList ++ s.queue.msgq)).filter
        (!·.pdata.delayed)).Sublist (w.accepted.filter (!·.pdata.delayed)) := by
      rw [hscan.peek, hpeek]
      exact hposted
    rw [nothingFound]
    split_ifs with hstop
    · exact ⟨by rw [hqueue]; exact haccount, h.matched, hdisposed, hposted', hdelayed, by simp⟩
    · exact ⟨by rw [hqueue]; exact haccount, h.matched, hdisposed, hposted', hdelayed,
        fun _ => hscan.peek.trans hpeek⟩
  · rw [found]
    split_ifs with hpeeking
    · refine ⟨?_, h.matched, hdisposed, hposted, hdelayed, by simp⟩
      show w.accepted.Perm (_ ++ ([m] ++ s.queue.msgq ++ _))
      rw [List.append_assoc [m]]
      exact haccount
    · refine ⟨?_, h.matched, hdisposed, ?_, hdelayed, by simp⟩
      · rw [List.map_append, List.map_singleton, MessageQueue.pending, hscan.peek, hpeek,
          Option.toList_none, List.nil_append]
        refine haccount.trans ?_
        -- the message goes to those that have been returned
        generalize w.disposed ++ dropped = disposed
        simp only [List.append_assoc, Option.toList_some, List.singleton_append]
        refine List.Perm.append_left _ ?_
        have hmid := @List.perm_middle _ m (w.removed.map Prod.fst ++ disposed)
          (s.queue.msgq ++ s.queue.dmsgq.toList.map (·.msg))
        simpa [List.append_assoc] using hmid
      · rw [List.map_append, List.map_singleton, hscan.peek, hpeek, Option.toList_none,
          List.nil_append, List.append_assoc]
        exact hposted

theorem Conserved.start (h : w.Conserved) (peeking : Bool) (cmsWait : ℤ) :
    (w.start peeking cmsWait).Conserved := by
  rw [World.start]
  split
  · exact h
  · next m hcall hpeek =>
    split_ifs
    · exact h
    · have haccount := h.account
      have hposted := h.posted
      rw [MessageQueue.pending, hpeek, Option.toList_some] at haccount
      rw [hpeek, Option.toList_some] at hposted
      refine ⟨haccount.trans ?_, h.matched, h.disposed, ?_, h.delayed, ?_⟩
      · rw [List.map_append, List.map_singleton, MessageQueue.pending, Option.toList_none,
          List.nil_append]
        simp only [List.append_assoc, List.singleton_append]
        refine List.Perm.append_left _ ?_
        have hmid := @List.perm_middle _ m (w.removed.map Prod.fst ++ w.disposed)
          (w.q.msgq ++ w.q.dmsgq.toList.map (·.msg))
        simpa [List.append_assoc] using hmid
      · simpa using hposted
      · intro hc
        exact absurd hc (by rw [hcall]; exact Bool.false_ne_true)
  · next hcall hpeek =>
    exact ⟨h.account, h.matched, h.disposed, h.posted, h.delayed, fun _ => hpeek⟩

theorem Conserved.act (h : w.Conserved) (e : Event) : (w.act e).Conserved := by
  cases e with
  | advance d => exact ⟨h.account, h.matched, h.disposed, h.posted, h.delayed, h.call⟩
  | post handler id timeSensitive => exact h.post handler id timeSensitive
  | postDelayed cmsDelay handler id => exact h.delayPost _ _ handler id
  | postAt tstamp handler id => exact h.delayPost _ _ handler id
  | clear handler id => exact h.clear handler id
  | get cmsWait => exact h.start false cmsWait
  | peek cmsWait => exact h.start true cmsWait
  | scan =>
    rw [World.act]
    rcases hc : w.call with _ | c <;> dsimp only
    · exact h
    · split_ifs
      · exact h.scan hc
      · exact h
  | wake ok =>
    rw [World.act]
    rcases hc : w.call with _ | c <;> dsimp only
    · exact h
    · split_ifs
      · exact h
      · have hpeek : w.q.msgPeek = none := h.call (by rw [hc]; rfl)
        rw [World.wake]
        split_ifs
        · exact ⟨h.account, h.matched, h.disposed, h.posted, h.delayed, by simp⟩
        · exact ⟨h.account, h.matched, h.disposed, h.posted, h.delayed, by simp⟩
        · exact ⟨h.account, h.matched, h.disposed, h.posted, h.delayed, fun _ => hpeek⟩
  | quit => exact ⟨h.account, h.matched, h.disposed, h.posted, h.delayed, h.call⟩
  | restart => exact ⟨h.account, h.matched, h.disposed, h.posted, h.delayed, h.call⟩

end World

/-! ### Clear and the order of the messages -/

/-- The messages of the heap in the order in which it gives them out. -/
def PriorityQueue.inOrder {δ : Type} (pq : PriorityQueue δ) : List (DelayedMessage δ) :=
  Heap.drain DelayedMessage.lt pq.c.size pq.c

namespace MessageQueue

variable {δ : Type}

/-- `Get` where it does not wait. -/
def getNow (q : MessageQueue δ) (msCurrent : Word) : Option (Message δ) × MessageQueue δ :=
  match q.msgPeek with
  | some m => (some m, { q with msgPeek := none })
  | none => ((q.scan msCurrent).message, (q.scan msCurrent).queue)

/-- `Peek` where it does not wait. -/
def peekNow (q : MessageQueue δ) (msCurrent : Word) : Option (Message δ) × MessageQueue δ :=
  match q.msgPeek with
  | some m => (some m, q)
  | none =>
    match (q.scan msCurrent).message with
    | some m => (some m, { (q.scan msCurrent).queue with msgPeek := some m })
    | none => (none, (q.scan msCurrent).queue)

/-- What calls of `Get` at these times return. -/
def returns : List ℕ → MessageQueue δ → List (Option (Message δ))
  | [], _ => []
  | t :: ts, q => (q.getNow (clockWord t)).1 :: returns ts (q.getNow (clockWord t)).2

/-- What the queue has to return at time `t`, in this order, and the heap then. -/
def Settles (q : MessageQueue δ) (t : ℕ) (l : List (Message δ)) (h : PriorityQueue δ) : Prop :=
  ∃ taken next, Takes (clockWord t) q.dmsgq taken h next ∧
    l = q.msgPeek.toList ++ (q.msgq ++ taken.map (·.msg)).filter (·.messageId ≠ MQID_DISPOSE)

variable {t t' : ℕ}

theorem Takes.unique {msCurrent : Word} {pq h h' : PriorityQueue δ}
    {taken taken' : List (DelayedMessage δ)} {next next' : ℤ}
    (ht : Takes msCurrent pq taken h next) (ht' : Takes msCurrent pq taken' h' next') :
    taken = taken' ∧ h = h' ∧ next = next' := by
  induction ht generalizing taken' with
  | empty htop =>
    cases ht' with
    | empty _ => exact ⟨rfl, rfl, rfl⟩
    | later htop' _ => simp [htop] at htop'
    | take htop' _ _ => simp [htop] at htop'
  | later htop hlate =>
    cases ht' with
    | empty htop' => simp [htop] at htop'
    | later htop' _ =>
      obtain rfl := Option.some.inj (htop.symm.trans htop')
      exact ⟨rfl, rfl, rfl⟩
    | take htop' hlate' _ =>
      obtain rfl := Option.some.inj (htop.symm.trans htop')
      simp [hlate] at hlate'
  | take htop hlate _ ih =>
    cases ht' with
    | empty htop' => simp [htop] at htop'
    | later htop' hlate' =>
      obtain rfl := Option.some.inj (htop.symm.trans htop')
      simp [hlate] at hlate'
    | take htop' _ hrest =>
      obtain rfl := Option.some.inj (htop.symm.trans htop')
      obtain ⟨rfl, rfl, rfl⟩ := ih hrest
      exact ⟨rfl, rfl, rfl⟩

theorem Takes.stops {msCurrent : Word} {pq h : PriorityQueue δ} {taken : List (DelayedMessage δ)}
    {next : ℤ} (ht : Takes msCurrent pq taken h next) : Takes msCurrent h [] h next := by
  induction ht with
  | empty htop => exact .empty htop
  | later htop hlate => exact .later htop hlate
  | take _ _ _ ih => exact ih

theorem Takes.append {msCurrent msLater : Word} {pq h h' : PriorityQueue δ}
    {taken taken' : List (DelayedMessage δ)} {next next' : ℤ}
    (ht : Takes msCurrent pq taken h next) (ht' : Takes msLater h taken' h' next')
    (hdue : ∀ x ∈ pq.toList, timeIsLater msCurrent x.msTrigger = false →
      timeIsLater msLater x.msTrigger = false) :
    Takes msLater pq (taken ++ taken') h' next' := by
  induction ht with
  | empty _ => exact ht'
  | later _ _ => exact ht'
  | take htop hlate _ ih =>
    obtain ⟨hperm, -⟩ := PriorityQueue.top_some htop
    refine .take htop (hdue _ (hperm.subset List.mem_cons_self) hlate) (ih ht' fun x hx => ?_)
    exact hdue x (hperm.subset (List.mem_cons_of_mem _ hx))

theorem filter_disposed {disposed rest : List (Message δ)}
    (h : ∀ m ∈ disposed, m.messageId = MQID_DISPOSE) :
    (disposed ++ rest).filter (·.messageId ≠ MQID_DISPOSE) =
      rest.filter (·.messageId ≠ MQID_DISPOSE) := by
  have hnone : disposed.filter (·.messageId ≠ MQID_DISPOSE) = [] := by
    rw [List.filter_eq_nil_iff]
    intro m hm
    simpa using h m hm
  rw [List.filter_append, hnone, List.nil_append]

theorem Settles.scan {q : MessageQueue δ} {l : List (Message δ)} {h : PriorityQueue δ}
    (hs : q.Settles t l h) (hpeek : q.msgPeek = none) :
    (q.scan (clockWord t)).message = l.head? ∧ (q.scan (clockWord t)).queue.msgPeek = none ∧
      (q.scan (clockWord t)).queue.Settles t l.tail h := by
  obtain ⟨taken, next, htakes, rfl⟩ := hs
  obtain ⟨taken', hscan⟩ := q.scan_spec (clockWord t)
  obtain ⟨rfl, rfl, -⟩ := htakes.unique hscan.takes
  have hdisposed : ∀ m ∈ q.disposedBy (clockWord t), m.messageId = MQID_DISPOSE := by
    intro m hm
    simpa using List.all_eq_true.1 List.all_takeWhile m hm
  have hl : q.msgPeek.toList ++
      (q.msgq ++ taken.map (·.msg)).filter (·.messageId ≠ MQID_DISPOSE) =
      (q.scan (clockWord t)).message.toList ++
        (q.scan (clockWord t)).queue.msgq.filter (·.messageId ≠ MQID_DISPOSE) := by
    rw [hpeek, Option.toList_none, List.nil_append, hscan.msgq, List.append_assoc,
      filter_disposed hdisposed, List.filter_append]
    congr 1
    refine List.filter_eq_self.2 fun m hm => ?_
    simpa using hscan.notDisposed m (Option.mem_toList.1 hm)
  have hrest : (q.scan (clockWord t)).queue.Settles t
      ((q.scan (clockWord t)).queue.msgq.filter (·.messageId ≠ MQID_DISPOSE))
      (q.scan (clockWord t)).queue.dmsgq := by
    refine ⟨[], _, hscan.takes.stops, ?_⟩
    rw [hscan.peek, hpeek]
    simp
  have hnothing := hscan.nothing
  refine ⟨?_, hscan.peek.trans hpeek, ?_⟩ <;> rw [hl]
  · rcases hm : (q.scan (clockWord t)).message with _ | m
    · rw [hnothing hm]
      rfl
    · rfl
  · rcases hm : (q.scan (clockWord t)).message with _ | m
    · rw [hnothing hm] at hrest ⊢
      exact hrest
    · exact hrest

theorem Settles.getNow {q : MessageQueue δ} {l : List (Message δ)} {h : PriorityQueue δ}
    (hs : q.Settles t l h) :
    (q.getNow (clockWord t)).1 = l.head? ∧ (q.getNow (clockWord t)).2.Settles t l.tail h := by
  rw [MessageQueue.getNow]
  rcases hpeek : q.msgPeek with _ | m <;> dsimp only
  · obtain ⟨hmessage, -, hrest⟩ := hs.scan hpeek
    exact ⟨hmessage, hrest⟩
  · obtain ⟨taken, next, htakes, rfl⟩ := hs
    rw [hpeek]
    exact ⟨rfl, taken, next, htakes, rfl⟩

theorem Settles.peekNow {q : MessageQueue δ} {l : List (Message δ)} {h : PriorityQueue δ}
    (hs : q.Settles t l h) : (q.peekNow (clockWord t)).2.Settles t l h := by
  rw [MessageQueue.peekNow]
  rcases hpeek : q.msgPeek with _ | m <;> dsimp only
  · obtain ⟨hmessage, hnone, hrest⟩ := hs.scan hpeek
    rcases hm : (q.scan (clockWord t)).message with _ | m <;> dsimp only <;> rw [hm] at hmessage
    · have hnil : l = [] := List.head?_eq_none_iff.1 hmessage.symm
      rw [hnil] at hrest ⊢
      exact hrest
    · obtain ⟨taken, next, htakes, htail⟩ := hrest
      refine ⟨taken, next, htakes, ?_⟩
      rw [hnone, Option.toList_none, List.nil_append] at htail
      rcases l with _ | ⟨m', l⟩
      · cases hmessage
      · obtain rfl := Option.some.inj hmessage
        rw [List.tail_cons] at htail
        rw [htail]
        rfl
  · exact hs

/-- The triggers of the heap are within half the range of the clock of all these times. -/
def Near (q : MessageQueue Posting) (ts : List ℕ) : Prop :=
  ∀ x ∈ q.dmsgq.toList, x.msTrigger = BitVec.ofInt 32 x.trigger ∧
    ∀ t ∈ ts, -2 ^ 31 ≤ x.trigger - t ∧ x.trigger - t < 2 ^ 31

theorem Settles.later {q : MessageQueue Posting} {l : List (Message Posting)}
    {h h' : PriorityQueue Posting} {taken : List (DelayedMessage Posting)} {next : ℤ}
    {ts : List ℕ} (hs : q.Settles t l h) (hle : t ≤ t') (hn : q.Near ts) (ht : t ∈ ts)
    (ht' : t' ∈ ts) (htakes : Takes (clockWord t') h taken h' next) :
    q.Settles t' (l ++ (taken.map (·.msg)).filter (·.messageId ≠ MQID_DISPOSE)) h' := by
  obtain ⟨taken₀, next₀, htakes₀, rfl⟩ := hs
  refine ⟨taken₀ ++ taken, next, htakes₀.append htakes fun x hx hdue => ?_, ?_⟩
  · obtain ⟨htrigger, hnear⟩ := hn x hx
    have hnow : ¬timeIsLater (clockWord t) x.msTrigger := by
      rw [hdue]
      exact Bool.false_ne_true
    rw [htrigger, clockWord_eq, timeIsLater_iff (hnear t ht)] at hnow
    rw [← Bool.not_eq_true, htrigger, clockWord_eq, timeIsLater_iff (hnear t' ht')]
    omega
  · rw [List.map_append, ← List.append_assoc q.msgq, List.filter_append (q.msgq ++ _),
      List.append_assoc]

theorem Near.getNow {q : MessageQueue Posting} {ts : List ℕ} (hn : q.Near ts) (msCurrent : Word) :
    (q.getNow msCurrent).2.Near ts := by
  rw [MessageQueue.getNow]
  split
  · exact hn
  · obtain ⟨taken, hscan⟩ := q.scan_spec msCurrent
    exact fun x hx => hn x (hscan.takes.perm.subset (List.mem_append_right _ hx))

theorem Near.peekNow {q : MessageQueue Posting} {ts : List ℕ} (hn : q.Near ts) (msCurrent : Word) :
    (q.peekNow msCurrent).2.Near ts := by
  rw [MessageQueue.peekNow]
  obtain ⟨taken, hscan⟩ := q.scan_spec msCurrent
  have hrest : (q.scan msCurrent).queue.Near ts :=
    fun x hx => hn x (hscan.takes.perm.subset (List.mem_append_right _ hx))
  split
  · exact hn
  · split <;> exact hrest

end MessageQueue

namespace World

variable {w : World}

/-! ### The claim of conservation -/

theorem call_scan (hcall : w.call = none) (hpeek : w.q.msgPeek = none) (peeking : Bool)
    (cmsWait : ℤ) : ∃ w' : World, w'.q = w.q ∧ w'.now = w.now ∧ w'.delivered = w.delivered ∧
      (w.start peeking cmsWait).act .scan =
        w'.scan ⟨peeking, cmsWait, w.now, w.now, none⟩ := by
  refine ⟨{ w with call := some ⟨peeking, cmsWait, w.now, w.now, none⟩ }, rfl, rfl, rfl, ?_⟩
  rw [start, hcall, hpeek]
  rfl

theorem scan_getNow (w : World) (c : Call) (hpeek : w.q.msgPeek = none) :
    (w.scan c).q = (if c.peeking then w.q.peekNow (clockWord c.msCurrent)
        else w.q.getNow (clockWord c.msCurrent)).2 ∧
      (w.scan c).delivered = w.delivered ++
        (if c.peeking then none else (w.q.getNow (clockWord c.msCurrent)).1).toList.map
          (·, w.now) := by
  rw [scan, MessageQueue.getNow, MessageQueue.peekNow, hpeek]
  dsimp only
  rcases (w.q.scan (clockWord c.msCurrent)).message with _ | m <;> dsimp only
  · rw [nothingFound]
    split_ifs <;> simp
  · rw [found]
    split_ifs <;> simp

/-- A call of `Get` and its first scan are `getNow`. -/
theorem get_scan (hcall : w.call = none) (cmsWait : ℤ) :
    ((w.act (.get cmsWait)).act .scan).q = (w.q.getNow (clockWord w.now)).2 ∧
      ((w.act (.get cmsWait)).act .scan).delivered =
        w.delivered ++ (w.q.getNow (clockWord w.now)).1.toList.map (·, w.now) := by
  show ((w.start false cmsWait).act .scan).q = _ ∧ ((w.start false cmsWait).act .scan).delivered = _
  rcases hpeek : w.q.msgPeek with _ | m
  · obtain ⟨w', hq, hnow, hdelivered, heq⟩ := call_scan hcall hpeek false cmsWait
    have h := w'.scan_getNow ⟨false, cmsWait, w.now, w.now, none⟩ (hq ▸ hpeek)
    rw [heq, h.1, h.2, hq, hnow, hdelivered]
    exact ⟨rfl, rfl⟩
  · rw [start, hcall, hpeek, MessageQueue.getNow, hpeek]
    dsimp only
    rw [if_neg Bool.false_ne_true]
    exact ⟨rfl, rfl⟩

/-- A call of `Peek` and its first scan are `peekNow`. -/
theorem peek_scan (hcall : w.call = none) (cmsWait : ℤ) :
    ((w.act (.peek cmsWait)).act .scan).q = (w.q.peekNow (clockWord w.now)).2 ∧
      ((w.act (.peek cmsWait)).act .scan).delivered = w.delivered := by
  show ((w.start true cmsWait).act .scan).q = _ ∧ ((w.start true cmsWait).act .scan).delivered = _
  rcases hpeek : w.q.msgPeek with _ | m
  · obtain ⟨w', hq, hnow, hdelivered, heq⟩ := call_scan hcall hpeek true cmsWait
    have h := w'.scan_getNow ⟨true, cmsWait, w.now, w.now, none⟩ (hq ▸ hpeek)
    rw [heq, h.1, h.2, hq, hdelivered]
    exact ⟨rfl, List.append_nil _⟩
  · rw [start, hcall, hpeek, MessageQueue.peekNow, hpeek]
    dsimp only
    rw [if_pos rfl, act, hcall]
    exact ⟨rfl, rfl⟩

/-- A world after some events. -/
def run (w : World) (es : List Event) : World := es.foldl act w

/-- A new queue. -/
def fresh : World :=
  { q := .new, now := 0, call := none, accepted := [], taken := [], delivered := [], removed := []
    disposed := [], waits := [] }

end World

end Jingle.Base
