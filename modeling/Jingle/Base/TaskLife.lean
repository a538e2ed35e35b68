/-
The life of a task.

A task that is done is blocked, is no longer a child of its parent and has no child that
goes on; the runner deletes it when nothing is being processed.  `Tree` is the part of
this that holds even within `Abort`, for the tasks `S` whose children are just being
aborted; `abort_spec` is the induction over the tree.

* `task_life_cycle` — **what holds in every state** of a run in which no task is started while
  the runner has it, and none is made under a parent that is done.
* `not_task_life_cycle_started_twice` — a task that is started twice before it runs is deleted
  twice.
-/
import Jingle.Base.Task

namespace Jingle.Base

namespace TaskRunner

/-! ### The tree -/

/-- A task that is done and was taken from its parent. -/
def Gone (w : TaskRunner) (S : Set ℕ) (t : ℕ) : Prop := (w.task t).done = true ∧ t ∉ S

/-- The children of a task that is done are done, or are busy and know that they are
aborted. -/
def Closed (w : TaskRunner) (S : Set ℕ) : Prop :=
  ∀ p c, (w.task p).done = true → p ∉ S → c < w.count → (w.task c).parent = some p →
    (w.task c).done = true ∨ ((w.task c).busy = true ∧ (w.task c).aborted = true)

structure Tree (w : TaskRunner) (S : Set ℕ) : Prop where
  parent_lt : ∀ c < w.count, ∀ p, (w.task c).parent = some p → p < c
  nodup : ∀ p, (w.children p).Nodup
  mem_children : ∀ p c, c ∈ w.children p ↔ c < w.count ∧ (w.task c).parent = p ∧ ¬w.Gone S c
  stopped : ∀ c < w.count, (w.Gone S c → w.stopped c = 1) ∧ (¬w.Gone S c → w.stopped c = 0)
  closed : w.Closed S
  /-- The tasks that are being stopped are done. -/
  stopping : ∀ t ∈ S, (w.task t).done = true

/-- Tasks that are done are blocked, but for those of a set. -/
def Blocked (w : TaskRunner) (B : Set ℕ) : Prop :=
  ∀ t, (w.task t).done = true → t ∉ B → (w.task t).blocked = true

/-- What an abort leaves as it is. -/
structure Aborts (w w' : TaskRunner) : Prop where
  count : w'.count = w.count
  tasks : w'.tasks = w.tasks
  control : w'.control = w.control
  started : w'.started = w.started
  deleted : w'.deleted = w.deleted
  parent : ∀ t, (w'.task t).parent = (w.task t).parent
  busy : ∀ t, (w'.task t).busy = (w.task t).busy
  state : ∀ t, (w'.task t).state = (w.task t).state
  done : ∀ t, (w.task t).done = true → w'.task t = w.task t
  aborted : ∀ t, (w.task t).aborted = true → (w'.task t).aborted = true
  /-- Nothing that is busy is done by it. -/
  not_done : ∀ t, (w.task t).busy = true → (w'.task t).done = (w.task t).done
  fresh : ∀ t, w.count ≤ t → w'.stopped t = w.stopped t

namespace Aborts

variable {w w' w'' : TaskRunner}

theorem refl (w : TaskRunner) : Aborts w w :=
  ⟨rfl, rfl, rfl, rfl, rfl, fun _ => rfl, fun _ => rfl, fun _ => rfl, fun _ _ => rfl,
    fun _ h => h, fun _ _ => rfl, fun _ _ => rfl⟩

theorem trans (h : Aborts w w') (h' : Aborts w' w'') : Aborts w w'' where
  count := h'.count.trans h.count
  tasks := h'.tasks.trans h.tasks
  control := h'.control.trans h.control
  started := h'.started.trans h.started
  deleted := h'.deleted.trans h.deleted
  parent t := (h'.parent t).trans (h.parent t)
  busy t := (h'.busy t).trans (h.busy t)
  state t := (h'.state t).trans (h.state t)
  done t ht := (h'.done t (by rw [h.done t ht]; exact ht)).trans (h.done t ht)
  aborted t ht := h'.aborted t (h.aborted t ht)
  not_done t ht := (h'.not_done t ((h.busy t).trans ht)).trans (h.not_done t ht)
  fresh t ht := (h'.fresh t (h.count ▸ ht)).trans (h.fresh t ht)

theorem settled (h : Aborts w w') {t : ℕ} (ht : (w.task t).done = true ∨
    ((w.task t).busy = true ∧ (w.task t).aborted = true)) :
    (w'.task t).done = true ∨ ((w'.task t).busy = true ∧ (w'.task t).aborted = true) := by
  rcases ht with ht | ⟨hb, ha⟩
  · exact .inl (by rw [h.done t ht]; exact ht)
  · exact .inr ⟨(h.busy t).trans hb, h.aborted t ha⟩

end Aborts

variable {w w' : TaskRunner} {S : Set ℕ} {t : ℕ}

theorem modify_self (w : TaskRunner) (t : ℕ) (f : Task → Task) :
    (w.modify t f).task t = f (w.task t) := Function.update_self ..

theorem modify_other (w : TaskRunner) {t u : ℕ} (f : Task → Task) (h : u ≠ t) :
    (w.modify t f).task u = w.task u := Function.update_of_ne h ..

theorem Tree.modify (h : w.Tree S) {f : Task → Task} (hp : (f (w.task t)).parent = (w.task t).parent)
    (hd : (f (w.task t)).done = (w.task t).done)
    (hset : (w.task t).busy = true ∧ (w.task t).aborted = true →
      (f (w.task t)).busy = true ∧ (f (w.task t)).aborted = true) :
    (w.modify t f).Tree S := by
  have hparent : ∀ u, ((w.modify t f).task u).parent = (w.task u).parent := by
    intro u
    by_cases hu : u = t
    · rw [hu, modify_self, hp]
    · rw [modify_other w f hu]
  have hdone : ∀ u, ((w.modify t f).task u).done = (w.task u).done := by
    intro u
    by_cases hu : u = t
    · rw [hu, modify_self, hd]
    · rw [modify_other w f hu]
  have hgone : ∀ u, (w.modify t f).Gone S u ↔ w.Gone S u := by
    intro u
    rw [Gone, Gone, hdone]
  refine ⟨fun c hc p hcp => h.parent_lt c hc p ((hparent c).symm.trans hcp), h.nodup, ?_, ?_, ?_,
    fun u hu => (hdone u).trans (h.stopping u hu)⟩
  · intro p c
    rw [hparent, hgone]
    exact h.mem_children p c
  · intro c hc
    rw [hgone]
    exact h.stopped c hc
  · intro p c hpd hpS hc hcp
    have hold := h.closed p c ((hdone p).symm.trans hpd) hpS hc ((hparent c).symm.trans hcp)
    by_cases hct : c = t
    · rw [hct] at hold ⊢
      rw [modify_self, hd]
      exact hold.imp id hset
    · rw [modify_other w f hct]
      exact hold

theorem Tree.mark (h : w.Tree S) (hnot : (w.task t).done = false) {f : Task → Task}
    (hp : (f (w.task t)).parent = (w.task t).parent) (hd : (f (w.task t)).done = true) :
    (w.modify t f).Tree (insert t S) := by
  have hparent : ∀ u, ((w.modify t f).task u).parent = (w.task u).parent := by
    intro u
    by_cases hu : u = t
    · rw [hu, modify_self, hp]
    · rw [modify_other w f hu]
  have hgone : ∀ u, (w.modify t f).Gone (insert t S) u ↔ w.Gone S u := by
    intro u
    rw [Gone, Gone, Set.mem_insert_iff, not_or]
    by_cases hu : u = t
    · rw [hu, hnot]
      simp
    · rw [modify_other w f hu]
      simp [hu]
  refine ⟨fun c hc p hcp => h.parent_lt c hc p ((hparent c).symm.trans hcp), h.nodup, ?_, ?_, ?_,
    ?_⟩
  · intro p c
    rw [hparent, hgone]
    exact h.mem_children p c
  · intro c hc
    rw [hgone]
    exact h.stopped c hc
  · intro p c hpd hpS hc hcp
    rw [Set.mem_insert_iff, not_or] at hpS
    rw [modify_other w f hpS.1] at hpd
    by_cases hct : c = t
    · rw [hct, modify_self]
      exact .inl hd
    · rw [modify_other w f hct] at hcp ⊢
      exact h.closed p c hpd hpS.2 hc hcp
  · intro u hu
    by_cases hut : u = t
    · rw [hut, modify_self, hd]
    · rw [modify_other w f hut]
      exact h.stopping u ((Set.mem_insert_iff.mp hu).resolve_left hut)

theorem Tree.onChildStopped (h : w.Tree (insert t S)) (htS : t ∉ S) (ht : t < w.count)
    (hchildren : ∀ c < w.count, (w.task c).parent = some t →
      (w.task c).done = true ∨ ((w.task c).busy = true ∧ (w.task c).aborted = true)) :
    (w.onChildStopped t).Tree S := by
  have hgone : ∀ u, u ≠ t → ((w.onChildStopped t).Gone S u ↔ w.Gone (insert t S) u) := by
    intro u hu
    show (w.task u).done = true ∧ u ∉ S ↔ (w.task u).done = true ∧ u ∉ insert t S
    rw [Set.mem_insert_iff, not_or]
    simp [hu]
  have htgone : (w.onChildStopped t).Gone S t := ⟨h.stopping t (Set.mem_insert t S), htS⟩
  refine ⟨h.parent_lt, ?_, ?_, ?_, ?_, fun u hu => h.stopping u (Set.mem_insert_of_mem t hu)⟩
  · intro p
    show (Function.update w.children _ _ p).Nodup
    by_cases hp : p = (w.task t).parent
    · rw [hp, Function.update_self]
      exact (h.nodup _).erase t
    · rw [Function.update_of_ne hp]
      exact h.nodup p
  · intro p c
    show c ∈ Function.update w.children _ _ p ↔ c < w.count ∧ (w.task c).parent = p ∧ _
    by_cases hct : c = t
    · -- the task itself is nobody's child any more
      rw [hct]
      refine iff_of_false (fun hmem => ?_) fun hc => hc.2.2 htgone
      by_cases hp : p = (w.task t).parent
      · rw [hp, Function.update_self] at hmem
        exact (h.nodup _).not_mem_erase hmem
      · rw [Function.update_of_ne hp, h.mem_children] at hmem
        exact hp hmem.2.1.symm
    · rw [hgone c hct]
      by_cases hp : p = (w.task t).parent
      · rw [hp, Function.update_self, List.mem_erase_of_ne hct]
        exact h.mem_children _ c
      · rw [Function.update_of_ne hp]
        exact h.mem_children p c
  · intro c hc
    show (_ → Function.update w.stopped t _ c = 1) ∧ (_ → Function.update w.stopped t _ c = 0)
    by_cases hct : c = t
    · rw [hct, Function.update_self]
      have hzero := (h.stopped t ht).2 fun hg => hg.2 (Set.mem_insert t S)
      exact ⟨fun _ => by rw [hzero], fun hno => absurd htgone hno⟩
    · rw [Function.update_of_ne hct, hgone c hct]
      exact h.stopped c hc
  · intro p c hpd hpS hc hcp
    by_cases hpt : p = t
    · exact hchildren c hc (hpt ▸ hcp)
    · exact h.closed p c hpd (fun hmem => hpS ((Set.mem_insert_iff.mp hmem).resolve_left hpt)) hc hcp

/-! ### Abort -/

/-- What an abort does. -/
structure Aborted (w w' : TaskRunner) (S B : Set ℕ) (t : ℕ) : Prop where
  tree : w'.Tree S
  aborts : Aborts w w'
  blocked : w'.Blocked B
  settled : (w'.task t).done = true ∨ ((w'.task t).busy = true ∧ (w'.task t).aborted = true)

theorem abort_all {B : Set ℕ} {n : ℕ} (cs : List ℕ) (w : TaskRunner)
    (habort : ∀ (w : TaskRunner) (c : ℕ), w.Tree S → w.Blocked B → c < w.count → w.count - c ≤ n →
      Aborted w (abort n w c) S B c)
    (h : w.Tree S) (hB : w.Blocked B) (hcs : ∀ c ∈ cs, c < w.count ∧ w.count - c ≤ n) :
    (cs.foldl (fun w c => abort n w c) w).Tree S ∧
      Aborts w (cs.foldl (fun w c => abort n w c) w) ∧
      (cs.foldl (fun w c => abort n w c) w).Blocked B ∧
      ∀ c ∈ cs, ((cs.foldl (fun w c => abort n w c) w).task c).done = true ∨
        (((cs.foldl (fun w c => abort n w c) w).task c).busy = true ∧
          ((cs.foldl (fun w c => abort n w c) w).task c).aborted = true) := by
  induction cs generalizing w with
  | nil => exact ⟨h, .refl w, hB, fun _ hc => absurd hc List.not_mem_nil⟩
  | cons c cs ih =>
    obtain ⟨hc, hcs⟩ := List.forall_mem_cons.mp hcs
    have hfirst := habort w c h hB hc.1 hc.2
    have hrest := ih (abort n w c) hfirst.tree hfirst.blocked fun d hd => by
      rw [hfirst.aborts.count]
      exact hcs d hd
    rw [List.foldl_cons]
    refine ⟨hrest.1, hfirst.aborts.trans hrest.2.1, hrest.2.2.1, fun d hd => ?_⟩
    rcases List.mem_cons.mp hd with rfl | hd
    · exact hrest.2.1.settled hfirst.settled
    · exact hrest.2.2.2 d hd

theorem stop_children {B : Set ℕ} {n : ℕ} (w : TaskRunner)
    (habort : ∀ (w : TaskRunner) (c : ℕ), w.Tree (insert t S) → w.Blocked B → c < w.count →
      w.count - c ≤ n → Aborted w (abort n w c) (insert t S) B c)
    (h : w.Tree (insert t S)) (hB : w.Blocked B) (htS : t ∉ S) (ht : t < w.count)
    (hn : w.count - t ≤ n + 1) :
    (((w.children (some t)).foldl (fun w c => abort n w c) w).onChildStopped t).Tree S ∧
      Aborts w (((w.children (some t)).foldl (fun w c => abort n w c) w).onChildStopped t) ∧
      (((w.children (some t)).foldl (fun w c => abort n w c) w).onChildStopped t).Blocked B := by
  obtain ⟨htree, haborts, hblocked, hsettled⟩ := abort_all (w.children (some t)) w habort h hB
    fun c hc => by
      have hmem := (h.mem_children _ _).mp hc
      have hlt := h.parent_lt c hmem.1 t hmem.2.1
      exact ⟨hmem.1, by omega⟩
  have hstep : Aborts w (((w.children (some t)).foldl (fun w c => abort n w c) w).onChildStopped
      t) := ⟨haborts.count, haborts.tasks, haborts.control, haborts.started, haborts.deleted,
    haborts.parent, haborts.busy, haborts.state, haborts.done, haborts.aborted, haborts.not_done,
    fun u hu => (Function.update_of_ne (Nat.ne_of_gt (Nat.lt_of_lt_of_le ht hu)) _ _).trans
      (haborts.fresh u hu)⟩
  refine ⟨htree.onChildStopped htS (haborts.count ▸ ht) fun c hc hcp => ?_, hstep, hblocked⟩
  rw [haborts.count] at hc
  rw [haborts.parent] at hcp
  by_cases hmem : c ∈ w.children (some t)
  · exact hsettled c hmem
  · -- a child that is none any more is done
    rw [h.mem_children, not_and, not_and, not_not] at hmem
    exact haborts.settled (.inl (hmem hc hcp).1)

theorem Aborts.modify (w : TaskRunner) {f : Task → Task} (hnot : (w.task t).done = false)
    (hp : (f (w.task t)).parent = (w.task t).parent) (hb : (f (w.task t)).busy = (w.task t).busy)
    (hs : (f (w.task t)).state = (w.task t).state)
    (ha : (w.task t).aborted = true → (f (w.task t)).aborted = true)
    (hd : (w.task t).busy = true → (f (w.task t)).done = (w.task t).done) :
    Aborts w (w.modify t f) := by
  refine ⟨rfl, rfl, rfl, rfl, rfl, ?_, ?_, ?_, ?_, ?_, ?_, fun _ _ => rfl⟩
  all_goals
    intro u
    by_cases hu : u = t
  · rw [hu, modify_self, hp]
  · rw [modify_other w f hu]
  · rw [hu, modify_self, hb]
  · rw [modify_other w f hu]
  · rw [hu, modify_self, hs]
  · rw [modify_other w f hu]
  · rw [hu, hnot]
    exact fun hd => absurd hd Bool.false_ne_true
  · exact fun _ => modify_other w f hu
  · rw [hu, modify_self]
    exact ha
  · rw [modify_other w f hu]
    exact fun h => h
  · rw [hu, modify_self]
    exact hd
  · rw [modify_other w f hu]
    exact fun _ => rfl

theorem Blocked.modify {B : Set ℕ} (h : w.Blocked B) {f : Task → Task}
    (hf : (f (w.task t)).done = true → t ∉ B → (f (w.task t)).blocked = true) :
    (w.modify t f).Blocked B := by
  intro u hd hu
  by_cases hut : u = t
  · rw [hut, modify_self] at hd ⊢
    exact hf hd (hut ▸ hu)
  · rw [modify_other w f hut] at hd ⊢
    exact h u hd hu

theorem abort_spec (n : ℕ) {B : Set ℕ} (w : TaskRunner) (S : Set ℕ) (t : ℕ) (h : w.Tree S)
    (hB : w.Blocked B) (ht : t < w.count) (hn : w.count - t ≤ n) :
    Aborted w (abort n w t) S B t := by
  induction n generalizing w S t with
  | zero => omega
  | succ n ih =>
    rw [abort]
    by_cases hdone : (w.task t).done = true
    · rw [if_pos hdone]
      exact ⟨h, .refl w, hB, .inl hdone⟩
    rw [if_neg hdone]
    have hnot := Bool.eq_false_iff.mpr hdone
    have htree : (w.modify t fun task => { task with aborted := true }).Tree S :=
      h.modify rfl rfl fun hset => ⟨hset.1, rfl⟩
    have haborts : Aborts w (w.modify t fun task => { task with aborted := true }) :=
      .modify w hnot rfl rfl rfl (fun _ => rfl) fun _ => rfl
    have hblocked : (w.modify t fun task => { task with aborted := true }).Blocked B :=
      hB.modify fun hd => absurd hd hdone
    have htask := modify_self w t fun task => { task with aborted := true }
    generalize (w.modify t fun task => { task with aborted := true }) = w₁ at *
    dsimp only
    split_ifs with hbusy
    · exact ⟨htree, haborts, hblocked, .inr ⟨hbusy, by rw [htask]⟩⟩
    · -- the task is done, and then its children are
      have hnot₁ : (w₁.task t).done = false := by rw [htask]; exact hnot
      have hmark := htree.mark (t := t) hnot₁
        (f := fun task => { task with done := true, blocked := true, error := true }) rfl rfl
      have haborts₁ : Aborts w₁ (w₁.modify t fun task =>
          { task with done := true, blocked := true, error := true }) :=
        .modify w₁ hnot₁ rfl rfl rfl (fun h => h) fun hb => absurd hb hbusy
      have hblocked₁ : (w₁.modify t fun task =>
          { task with done := true, blocked := true, error := true }).Blocked B :=
        hblocked.modify fun _ _ => rfl
      have hdone₁ := congrArg Task.done (modify_self w₁ t fun task =>
        { task with done := true, blocked := true, error := true })
      generalize (w₁.modify t fun task =>
        { task with done := true, blocked := true, error := true }) = w₂ at *
      have hcount : w₂.count = w.count := haborts₁.count.trans haborts.count
      have hstop := stop_children w₂ (fun w c hw hwB hc hcn => ih w _ c hw hwB hc hcn) hmark
        hblocked₁ (fun htS => absurd ((h.stopping t htS).symm.trans hnot) Bool.noConfusion)
        (hcount ▸ ht) (hcount ▸ hn)
      refine ⟨hstop.1, (haborts.trans haborts₁).trans hstop.2.1, hstop.2.2, .inl ?_⟩
      rw [hstop.2.1.done t hdone₁]
      exact hdone₁

theorem stop_spec {B : Set ℕ} (h : w.Tree (insert t S)) (hB : w.Blocked B) (htS : t ∉ S)
    (ht : t < w.count) :
    (w.stop t).Tree S ∧ Aborts w (w.stop t) ∧ (w.stop t).Blocked B :=
  stop_children w (fun w' c hw hB' hc hcn => abort_spec _ w' _ c hw hB' hc hcn) h hB htS ht
    (by rw [fuel]; omega)

theorem abortTask_spec {B : Set ℕ} (h : w.Tree S) (hB : w.Blocked B) (ht : t < w.count) :
    Aborted w (w.abortTask t) S B t :=
  abort_spec _ w S t h hB ht (by rw [fuel]; omega)

/-! ### The invariant of a run -/

/-- The task whose `Process` runs. -/
def Processing (w : TaskRunner) (t : ℕ) : Prop :=
  ∃ i did_run, w.control = .process i did_run ∧ w.tasks[i]? = some t

structure Living (w : TaskRunner) : Prop where
  tree : w.Tree ∅
  blocked : w.Blocked ∅
  busy : ∀ t, (w.task t).busy = true ↔ w.Processing t
  in_range : ∀ i did_run, w.control = .process i did_run → i < w.tasks.length
  processing : ∀ t, w.Processing t → (w.task t).done = false
  nodup : w.tasks.Nodup
  listed : ∀ t ∈ w.tasks, t < w.count ∧ w.started t = 1 ∧ w.deleted t = 0
  unlisted : ∀ t, t ∉ w.tasks → w.started t = w.deleted t ∧ w.deleted t ≤ 1
  deleted : ∀ p, w.deleted p ≠ 0 → (w.task p).done = true ∧
    ∀ c < w.count, (w.task c).parent = some p → (w.task c).done = true
  fresh : ∀ t, w.count ≤ t → w.stopped t = 0 ∧ w.deleted t = 0

theorem init_living : init.Living where
  tree := ⟨fun _ hc => absurd hc (Nat.not_lt_zero _), fun _ => .nil,
    fun _ _ => iff_of_false List.not_mem_nil fun h => absurd h.1 (Nat.not_lt_zero _),
    fun _ hc => absurd hc (Nat.not_lt_zero _), fun _ _ _ _ hc => absurd hc (Nat.not_lt_zero _),
    fun _ ht => absurd ht (Set.notMem_empty _)⟩
  blocked := fun _ hd => absurd hd Bool.false_ne_true
  busy := fun _ => iff_of_false Bool.false_ne_true fun h => by
    obtain ⟨i, d, hc, -⟩ := h
    cases hc
  in_range := fun _ _ h => by cases h
  processing := fun _ h => by
    obtain ⟨i, d, hc, -⟩ := h
    cases hc
  nodup := .nil
  listed := fun _ ht => absurd ht List.not_mem_nil
  unlisted := fun _ _ => ⟨rfl, Nat.zero_le _⟩
  deleted := fun _ h => absurd rfl h
  fresh := fun _ _ => ⟨rfl, rfl⟩

theorem Living.of_aborts (h : w.Living) (ha : Aborts w w') (ht : w'.Tree ∅)
    (hb : w'.Blocked ∅) : w'.Living := by
  have hproc : ∀ t, w'.Processing t ↔ w.Processing t := by
    intro t
    rw [Processing, Processing, ha.control, ha.tasks]
  refine ⟨ht, hb, fun t => ?_, ?_, fun t htp => ?_, ha.tasks ▸ h.nodup, ?_, ?_, fun p hp => ?_,
    fun t htc => ?_⟩
  · rw [ha.busy, hproc]
    exact h.busy t
  · rw [ha.control, ha.tasks]
    exact h.in_range
  · rw [hproc] at htp
    rw [ha.not_done t ((h.busy t).mpr htp)]
    exact h.processing t htp
  · rw [ha.tasks, ha.count, ha.started, ha.deleted]
    exact h.listed
  · rw [ha.tasks, ha.started, ha.deleted]
    exact h.unlisted
  · rw [ha.deleted] at hp
    obtain ⟨hdone, hchildren⟩ := h.deleted p hp
    refine ⟨by rw [ha.done p hdone]; exact hdone, fun c hc hcp => ?_⟩
    rw [ha.count] at hc
    rw [ha.parent] at hcp
    rw [ha.done c (hchildren c hc hcp)]
    exact hchildren c hc hcp
  · rw [ha.count] at htc
    rw [ha.fresh t htc, ha.deleted]
    exact h.fresh t htc

/-! ### What a timeout is nothing to -/

def life (w : TaskRunner) : TaskRunner :=
  { w with
    task := fun t => { w.task t with
      timeout_time := 0, timeout_seconds := 0, timeout_suspended := false }
    next_timeout_task := none, current_time := 0, previous_timeout_time := 0
    timeout_changes := 0 }

theorem tree_life : w.life.Tree S ↔ w.Tree S :=
  ⟨fun h => ⟨h.parent_lt, h.nodup, h.mem_children, h.stopped, h.closed, h.stopping⟩,
    fun h => ⟨h.parent_lt, h.nodup, h.mem_children, h.stopped, h.closed, h.stopping⟩⟩

theorem living_life : w.life.Living ↔ w.Living :=
  ⟨fun h => ⟨tree_life.mp h.tree, h.blocked, h.busy, h.in_range, h.processing, h.nodup, h.listed, h.unlisted,
      h.deleted, h.fresh⟩,
    fun h => ⟨tree_life.mpr h.tree, h.blocked, h.busy, h.in_range, h.processing, h.nodup, h.listed,
      h.unlisted, h.deleted, h.fresh⟩⟩

theorem Living.of_life (h : w.Living) (hl : w'.life = w.life) : w'.Living := by
  rw [← living_life, hl, living_life]
  exact h

theorem life_modify (w : TaskRunner) (t : ℕ) {f : Task → Task}
    (hf : ∀ task : Task, { f task with
      timeout_time := 0, timeout_seconds := 0, timeout_suspended := false } = { task with
      timeout_time := 0, timeout_seconds := 0, timeout_suspended := false }) :
    (w.modify t f).life = w.life := by
  have htask : (fun u => ({ (w.modify t f).task u with
      timeout_time := 0, timeout_seconds := 0, timeout_suspended := false } : Task)) =
      fun u => { w.task u with
        timeout_time := 0, timeout_seconds := 0, timeout_suspended := false } := by
    funext u
    by_cases hu : u = t
    · rw [hu, modify_self, hf]
    · rw [modify_other w f hu]
  rw [life, htask]
  rfl

theorem life_checkForTimeoutChange (w : TaskRunner) (previous : ℤ) :
    (w.checkForTimeoutChange previous).life = w.life := by
  rw [checkForTimeoutChange]
  split_ifs <;> rfl

theorem life_trackTimeout (w : TaskRunner) (t : ℕ) : (w.trackTimeout t).life = w.life := by
  rw [trackTimeout]
  split_ifs <;> rfl

theorem life_updateTaskTimeout (w : TaskRunner) (t : ℕ) (previous : ℤ) :
    (w.updateTaskTimeout t previous).life = w.life := by
  have htrack := life_trackTimeout w t
  have hcheck := fun p => (life_checkForTimeoutChange (w.trackTimeout t) p).trans htrack
  rw [updateTaskTimeout]
  split_ifs
  · exact htrack
  · exact hcheck _
  · exact hcheck _

theorem life_resetTimeout (w : TaskRunner) (t : ℕ) : (w.resetTimeout t).life = w.life := by
  rw [resetTimeout, life_updateTaskTimeout]
  exact life_modify w t fun _ => rfl

theorem life_clearTimeout (w : TaskRunner) (t : ℕ) : (w.clearTimeout t).life = w.life := by
  rw [clearTimeout, life_updateTaskTimeout]
  exact life_modify w t fun _ => rfl

theorem life_setTimeoutSeconds (w : TaskRunner) (t : ℕ) (seconds : ℤ) :
    (w.setTimeoutSeconds t seconds).life = w.life := by
  rw [setTimeoutSeconds, life_resetTimeout]
  exact life_modify w t fun _ => rfl

theorem life_suspendTimeout (w : TaskRunner) (t : ℕ) : (w.suspendTimeout t).life = w.life := by
  rw [suspendTimeout]
  split_ifs
  · rfl
  · rw [life_resetTimeout]
    exact life_modify w t fun _ => rfl

theorem life_resumeTimeout (w : TaskRunner) (t : ℕ) : (w.resumeTimeout t).life = w.life := by
  rw [resumeTimeout]
  split_ifs
  · rw [life_resetTimeout]
    exact life_modify w t fun _ => rfl
  · rfl

/-! ### One event -/

theorem Living.modify (h : w.Living) {f : Task → Task}
    (hp : (f (w.task t)).parent = (w.task t).parent) (hd : (f (w.task t)).done = (w.task t).done)
    (hb : (f (w.task t)).busy = (w.task t).busy)
    (ha : (w.task t).aborted = true → (f (w.task t)).aborted = true)
    (hbl : (w.task t).done = true → (f (w.task t)).blocked = true) : (w.modify t f).Living := by
  have hparent : ∀ u, ((w.modify t f).task u).parent = (w.task u).parent := by
    intro u
    by_cases hu : u = t
    · rw [hu, modify_self, hp]
    · rw [modify_other w f hu]
  have hdone : ∀ u, ((w.modify t f).task u).done = (w.task u).done := by
    intro u
    by_cases hu : u = t
    · rw [hu, modify_self, hd]
    · rw [modify_other w f hu]
  have hbusy : ∀ u, ((w.modify t f).task u).busy = (w.task u).busy := by
    intro u
    by_cases hu : u = t
    · rw [hu, modify_self, hb]
    · rw [modify_other w f hu]
  refine ⟨h.tree.modify hp hd fun hset => ⟨hb.trans hset.1, ha hset.2⟩, h.blocked.modify fun hd' _ => hbl (hd ▸ hd'),
    fun u => (hbusy u ▸ h.busy u : _ ↔ w.Processing u), h.in_range,
    fun u hu => (hdone u).trans (h.processing u hu),
    h.nodup, h.listed, h.unlisted, fun p hp' => ?_, h.fresh⟩
  obtain ⟨hpd, hchildren⟩ := h.deleted p hp'
  refine ⟨(hdone p).trans hpd, fun c hc hcp => ?_⟩
  rw [hdone]
  exact hchildren c hc ((hparent c).symm.trans hcp)

theorem living_wake (h : w.Living) (t : ℕ) : (w.wake t).Living := by
  rw [wake]
  split_ifs with hw
  · exact h
  · rw [not_or] at hw
    exact h.modify rfl rfl rfl (fun ha => ha) fun hd => absurd hd hw.1

theorem living_onError (h : w.Living) (t : ℕ) : (w.onError t).Living := by
  rw [onError]
  split_ifs with hw
  · exact h
  · rw [not_or] at hw
    exact living_wake (h.modify rfl rfl rfl (fun ha => ha) fun hd => absurd hd hw.2) t

theorem living_abortTask (h : w.Living) (ht : t < w.count) : (w.abortTask t).Living := by
  have habort := abortTask_spec h.tree h.blocked ht
  exact h.of_aborts habort.aborts habort.tree habort.blocked

theorem living_pushTask (h : w.Living) (ht : w.isThere t = true) (hno : t ∉ w.tasks) :
    (w.pushTask t).Living := by
  obtain ⟨hcount, hdel⟩ := of_decide_eq_true ht
  have hstarted : w.started t = 0 := (h.unlisted t hno).1.trans hdel
  have hproc : ∀ u, (w.pushTask t).Processing u ↔ w.Processing u := by
    intro u
    refine exists_congr fun i => exists_congr fun d => and_congr_right fun hc => ?_
    show (w.tasks ++ [t])[i]? = some u ↔ w.tasks[i]? = some u
    rw [List.getElem?_append_left (h.in_range i d hc)]
  refine ⟨⟨h.tree.parent_lt, h.tree.nodup, h.tree.mem_children, h.tree.stopped, h.tree.closed,
    h.tree.stopping⟩, h.blocked, fun u => ?_, fun i d hc => ?_, fun u hu => ?_, ?_, ?_, ?_,
    h.deleted, h.fresh⟩
  · rw [hproc]
    exact h.busy u
  · show i < (w.tasks ++ [t]).length
    rw [List.length_append]
    exact Nat.lt_add_right _ (h.in_range i d hc)
  · exact h.processing u ((hproc u).mp hu)
  · exact List.nodup_append.mpr ⟨h.nodup, List.nodup_singleton t, fun a ha b hb heq => by
      rw [heq, List.mem_singleton.mp hb] at ha
      exact hno ha⟩
  · intro u hu
    show u < w.count ∧ Function.update w.started t _ u = 1 ∧ w.deleted u = 0
    rcases List.mem_append.mp hu with hu | hu
    · have hne : u ≠ t := fun heq => hno (heq ▸ hu)
      rw [Function.update_of_ne hne]
      exact h.listed u hu
    · rw [List.mem_singleton.mp hu, Function.update_self, hstarted]
      exact ⟨hcount, rfl, hdel⟩
  · intro u hu
    have hu' : u ∉ w.tasks ∧ u ≠ t := by
      have hor := fun h => hu (List.mem_append.mpr h)
      exact ⟨fun h => hor (.inl h), fun h => hor (.inr (List.mem_singleton.mpr h))⟩
    show Function.update w.started t _ u = w.deleted u ∧ w.deleted u ≤ 1
    rw [Function.update_of_ne hu'.2]
    exact h.unlisted u hu'.1

theorem living_start (h : w.Living) (ht : w.isThere t = true)
    (hnew : (w.task t).state = stateInit → t ∉ w.tasks) : (w.start t).Living := by
  rw [start]
  split_ifs with hinit
  · exact h
  · exact (living_pushTask h ht (hnew (not_not.mp hinit))).of_life (life_updateTaskTimeout _ _ _)

theorem living_newTask (h : w.Living) {parent : Option ℕ}
    (hparent : ∀ p, parent = some p → w.isThere p = true ∧ (w.task p).done = false) :
    (w.newTask parent).Living := by
  have hself : (w.newTask parent).task w.count = .new parent := Function.update_self ..
  have hother : ∀ u, u ≠ w.count → (w.newTask parent).task u = w.task u :=
    fun u hu => Function.update_of_ne hu ..
  have hthere : ∀ p, parent = some p → p < w.count ∧ w.deleted p = 0 :=
    fun p hp => of_decide_eq_true (hparent p hp).1
  have hgone : ∀ u, u ≠ w.count → ((w.newTask parent).Gone ∅ u ↔ w.Gone ∅ u) := by
    intro u hu
    rw [Gone, Gone, hother u hu]
  have hnew : ¬(w.newTask parent).Gone ∅ w.count := by
    rintro ⟨hd, -⟩
    rw [hself] at hd
    cases hd
  have hold : ∀ {c}, c < w.count + 1 → c ≠ w.count → c < w.count := by
    intro c hc hne
    omega
  have hproc : ¬w.Processing w.count := by
    rintro ⟨i, d, -, hi⟩
    exact absurd (h.listed _ (List.mem_of_getElem? hi)).1 (Nat.lt_irrefl _)
  have htree : (w.newTask parent).Tree ∅ := by
    refine ⟨fun c hc p hcp => ?_, fun p => ?_, fun p c => ?_, fun c hc => ?_,
      fun p c hpd hpS hc hcp => ?_, fun t ht => absurd ht (Set.notMem_empty t)⟩
    · by_cases hne : c = w.count
      · rw [hne, hself] at hcp
        rw [hne]
        exact (hthere p hcp).1
      · rw [hother c hne] at hcp
        exact h.tree.parent_lt c (hold hc hne) p hcp
    · show (Function.update w.children _ _ p).Nodup
      by_cases hp : p = parent
      · rw [hp, Function.update_self]
        refine List.nodup_append.mpr ⟨h.tree.nodup _, List.nodup_singleton _, fun a ha b hb => ?_⟩
        rw [List.mem_singleton.mp hb]
        exact Nat.ne_of_lt ((h.tree.mem_children _ _).mp ha).1
      · rw [Function.update_of_ne hp]
        exact h.tree.nodup p
    · show c ∈ Function.update w.children _ _ p ↔ c < w.count + 1 ∧ _ ∧ _
      by_cases hne : c = w.count
      · -- the new task is a child of its parent alone
        rw [hne, hself]
        have hno : ∀ p, w.count ∉ w.children p := fun p hmem =>
          absurd ((h.tree.mem_children p _).mp hmem).1 (Nat.lt_irrefl _)
        by_cases hp : p = parent
        · rw [hp, Function.update_self]
          exact iff_of_true (List.mem_append_right _ (List.mem_singleton_self _))
            ⟨Nat.lt_succ_self _, rfl, hnew⟩
        · rw [Function.update_of_ne hp]
          exact iff_of_false (hno p) fun hc => hp hc.2.1.symm
      · rw [hother c hne, hgone c hne]
        have hlt : c < w.count + 1 ↔ c < w.count := ⟨fun hc => hold hc hne, Nat.lt_succ_of_lt⟩
        rw [hlt, ← h.tree.mem_children]
        by_cases hp : p = parent
        · rw [hp, Function.update_self, List.mem_append, List.mem_singleton]
          exact or_iff_left hne
        · rw [Function.update_of_ne hp]
    · by_cases hne : c = w.count
      · rw [hne]
        exact ⟨fun hg => absurd hg hnew, fun _ => (h.fresh _ (Nat.le_refl _)).1⟩
      · rw [hgone c hne]
        exact h.tree.stopped c (hold hc hne)
    · by_cases hpne : p = w.count
      · rw [hpne, hself] at hpd
        cases hpd
      rw [hother p hpne] at hpd
      by_cases hne : c = w.count
      · rw [hne, hself] at hcp
        exact absurd ((hparent p hcp).2.symm.trans hpd) Bool.false_ne_true
      · rw [hother c hne] at hcp ⊢
        exact h.tree.closed p c hpd hpS (hold hc hne) hcp
  refine ⟨htree, fun u hud _ => ?_, fun u => ?_, h.in_range, fun u hu => ?_, h.nodup, ?_,
    h.unlisted, fun p hp => ?_, fun u hu => h.fresh u (Nat.le_of_succ_le hu)⟩
  · by_cases hne : u = w.count
    · rw [hne, hself] at hud
      cases hud
    · rw [hother u hne] at hud ⊢
      exact h.blocked u hud (Set.notMem_empty u)
  · by_cases hne : u = w.count
    · rw [hne, hself]
      exact iff_of_false Bool.false_ne_true hproc
    · rw [hother u hne]
      exact h.busy u
  · have hne : u ≠ w.count := fun heq => hproc (heq ▸ hu)
    rw [hother u hne]
    exact h.processing u hu
  · intro u hu
    obtain ⟨hlt, hrest⟩ := h.listed u hu
    exact ⟨Nat.lt_succ_of_lt hlt, hrest⟩
  · obtain ⟨hdone, hchildren⟩ := h.deleted p hp
    have hpne : p ≠ w.count := fun heq => hp (heq ▸ (h.fresh _ (Nat.le_refl _)).2)
    refine ⟨by rw [hother p hpne]; exact hdone, fun c hc hcp => ?_⟩
    by_cases hne : c = w.count
    · rw [hne, hself] at hcp
      exact absurd (hthere p hcp).2 hp
    · rw [hother c hne] at hcp ⊢
      exact hchildren c (hold hc hne) hcp

/-- What a step of a task leaves as it is. -/
structure Keeps (w w' : TaskRunner) : Prop where
  count : w'.count = w.count
  tasks : w'.tasks = w.tasks
  started : w'.started = w.started
  deleted : w'.deleted = w.deleted
  parent : ∀ t, (w'.task t).parent = (w.task t).parent
  busy : ∀ t, (w'.task t).busy = true → (w.task t).busy = true
  done : ∀ t, (w.task t).done = true → (w'.task t).done = true
  fresh : ∀ t, w.count ≤ t → w'.stopped t = w.stopped t

theorem Aborts.keeps (h : Aborts w w') : Keeps w w' :=
  ⟨h.count, h.tasks, h.started, h.deleted, h.parent, fun t ht => (h.busy t).symm.trans ht,
    fun t ht => by rw [h.done t ht]; exact ht, h.fresh⟩

theorem Keeps.trans {w'' : TaskRunner} (h : Keeps w w') (h' : Keeps w' w'') : Keeps w w'' :=
  ⟨h'.count.trans h.count, h'.tasks.trans h.tasks, h'.started.trans h.started,
    h'.deleted.trans h.deleted, fun t => (h'.parent t).trans (h.parent t),
    fun t ht => h.busy t (h'.busy t ht), fun t ht => h'.done t (h.done t ht),
    fun t ht => (h'.fresh t (h.count ▸ ht)).trans (h.fresh t ht)⟩

theorem Keeps.modify (w : TaskRunner) (t : ℕ) {f : Task → Task}
    (hp : (f (w.task t)).parent = (w.task t).parent)
    (hb : (f (w.task t)).busy = true → (w.task t).busy = true)
    (hd : (w.task t).done = true → (f (w.task t)).done = true) : Keeps w (w.modify t f) := by
  refine ⟨rfl, rfl, rfl, rfl, fun u => ?_, fun u => ?_, fun u => ?_, fun _ _ => rfl⟩
  all_goals by_cases hu : u = t
  · rw [hu, modify_self, hp]
  · rw [modify_other w f hu]
  · rw [hu, modify_self]
    exact hb
  · rw [modify_other w f hu]
    exact fun h => h
  · rw [hu, modify_self]
    exact hd
  · rw [modify_other w f hu]
    exact fun h => h

theorem Keeps.of_life (hl : w'.life = w.life) : Keeps w w' := by
  have hlife : Keeps w w'.life := by
    rw [hl]
    exact ⟨rfl, rfl, rfl, rfl, fun _ => rfl, fun _ h => h, fun _ h => h, fun _ _ => rfl⟩
  exact ⟨hlife.count, hlife.tasks, hlife.started, hlife.deleted, hlife.parent, hlife.busy,
    hlife.done, hlife.fresh⟩

theorem Tree.of_life (h : w.Tree S) (hl : w'.life = w.life) : w'.Tree S := by
  rw [← tree_life, hl, tree_life]
  exact h

theorem Blocked.of_life {B : Set ℕ} (h : w.Blocked B) (hl : w'.life = w.life) :
    w'.Blocked B := by
  have hlife : w.life.Blocked B := h
  rw [← hl] at hlife
  exact hlife

theorem Living.of_keeps (h : w.Living) (hk : Keeps w w') (ht : w'.Tree ∅) (hB : w'.Blocked ∅)
    (hbusy : ∀ u, (w'.task u).busy = false) (hc : ∀ i d, w'.control ≠ .process i d) :
    w'.Living := by
  have hproc : ∀ u, ¬w'.Processing u := by
    rintro u ⟨i, d, hp, -⟩
    exact hc i d hp
  refine ⟨ht, hB, fun u => ?_, fun i d hp => absurd hp (hc i d), fun u hu => absurd hu (hproc u),
    hk.tasks ▸ h.nodup, ?_, ?_, fun p hp => ?_, fun u hu => ?_⟩
  · rw [hbusy]
    exact iff_of_false Bool.false_ne_true (hproc u)
  · rw [hk.tasks, hk.count, hk.started, hk.deleted]
    exact h.listed
  · rw [hk.tasks, hk.started, hk.deleted]
    exact h.unlisted
  · rw [hk.deleted] at hp
    obtain ⟨hdone, hchildren⟩ := h.deleted p hp
    refine ⟨hk.done p hdone, fun c hc hcp => ?_⟩
    rw [hk.count] at hc
    rw [hk.parent] at hcp
    exact hk.done c (hchildren c hc hcp)
  · rw [hk.count] at hu
    rw [hk.fresh u hu, hk.deleted]
    exact h.fresh u hu

theorem abortTask_idle (w : TaskRunner) (hd : (w.task t).done = false)
    (hb : (w.task t).busy = false) :
    w.abortTask t =
      (((w.modify t fun task => { task with
        aborted := true, done := true, blocked := true, error := true }).children
          (some t)).foldl (fun w' c => abort w.count w' c) (w.modify t fun task => { task with
            aborted := true, done := true, blocked := true, error := true })).onChildStopped t := by
  have hbusy : ¬((w.modify t fun task => { task with aborted := true }).task t).busy = true := by
    rw [modify_self, hb]
    exact Bool.false_ne_true
  have htwice : (w.modify t fun task => { task with aborted := true }).modify t (fun task =>
      { task with done := true, blocked := true, error := true }) =
      w.modify t fun task => { task with
        aborted := true, done := true, blocked := true, error := true } := by
    rw [modify, modify_self, modify, modify, Function.update_idem]
  rw [abortTask, fuel, abort, if_neg (by rw [hd]; exact Bool.false_ne_true)]
  dsimp only
  rw [if_neg hbusy, htwice]

theorem modify_modify (w : TaskRunner) (t : ℕ) (f g : Task → Task) :
    (w.modify t f).modify t g = w.modify t (g ∘ f) := by
  rw [modify, modify_self, modify, modify, Function.update_idem]
  rfl

/-- What the rest of a step does to a task that ran. -/
structure Ends (w w' : TaskRunner) (t : ℕ) : Prop where
  tree : w'.Tree ∅
  blocked : w'.Blocked ∅
  keeps : Keeps (w.modify t fun task => { task with busy := false }) w'

theorem endStep_aborted (h : w.Living) (hproc : w.Processing t) (ha : (w.task t).aborted = true)
    (new_state : ℤ) :
    Ends w (w.endStep t new_state) t ∧ ((w.endStep t new_state).task t).done = true := by
  have hnot := h.processing t hproc
  have ht : t < w.count := by
    obtain ⟨i, d, -, hi⟩ := hproc
    exact (h.listed t (List.mem_of_getElem? hi)).1
  have htask := modify_self w t fun task => { task with busy := false }
  have hend : w.endStep t new_state =
      (w.modify t fun task => { task with busy := false }).abortTask t := by
    rw [endStep, if_pos (by rw [htask]; exact ha)]
  rw [hend, abortTask_idle _ (by rw [htask]; exact hnot) (by rw [htask])]
  have hkeeps := Keeps.modify (w.modify t fun task => { task with busy := false }) t
    (f := fun task => { task with aborted := true, done := true, blocked := true, error := true })
    rfl (fun hb => hb) fun _ => rfl
  rw [modify_modify] at hkeeps ⊢
  have hmark := h.tree.mark (t := t) hnot (f := (fun task : Task =>
    { task with aborted := true, done := true, blocked := true, error := true }) ∘
      fun task : Task => { task with busy := false }) rfl rfl
  have hblocked : (w.modify t ((fun task : Task =>
      { task with aborted := true, done := true, blocked := true, error := true }) ∘
        fun task : Task => { task with busy := false })).Blocked ∅ :=
    h.blocked.modify fun _ _ => rfl
  have hdone := congrArg Task.done (modify_self w t ((fun task : Task =>
    { task with aborted := true, done := true, blocked := true, error := true }) ∘
      fun task : Task => { task with busy := false }))
  obtain ⟨htree, haborts, hB⟩ := stop_children (n := w.count) _
    (fun w' c hw hB' hc hcn => abort_spec _ w' _ c hw hB' hc hcn) hmark hblocked
    (Set.notMem_empty t) ht (Nat.le_succ_of_le (Nat.sub_le _ _))
  refine ⟨⟨htree, hB, hkeeps.trans haborts.keeps⟩, ?_⟩
  exact (congrArg Task.done (haborts.done t hdone)).trans hdone

theorem finish_task {w₀ : TaskRunner} (ht : w.Tree ∅) (hB : w.Blocked ∅) (hlt : t < w.count)
    (hnot : (w.task t).done = false)
    (hk : Keeps (w₀.modify t fun task => { task with busy := false }) w) {f : Task → Task}
    (hp : (f (w.task t)).parent = (w.task t).parent)
    (hb : (f (w.task t)).busy = true → (w.task t).busy = true)
    (hd : (f (w.task t)).done = true) :
    Ends w₀ (((w.modify t f).stop t).modify t fun task => { task with blocked := true }) t := by
  have hmark := ht.mark (t := t) hnot hp hd
  have hblocked : (w.modify t f).Blocked {t} := by
    intro u hu hut
    have hne : u ≠ t := hut
    rw [modify_other w f hne] at hu ⊢
    exact hB u hu (Set.notMem_empty u)
  obtain ⟨htree, haborts, hB'⟩ := stop_spec hmark hblocked (Set.notMem_empty t) hlt
  refine ⟨htree.modify rfl rfl fun hset => hset, ?_, ?_⟩
  · intro u hu _
    by_cases hut : u = t
    · rw [hut, modify_self]
    · rw [modify_other _ _ hut] at hu ⊢
      exact hB' u hu hut
  · exact ((hk.trans (Keeps.modify w t hp hb fun _ => hd)).trans haborts.keeps).trans
      (Keeps.modify _ t rfl (fun h => h) fun h => h)

theorem endStep_spec (h : w.Living) (hproc : w.Processing t) (new_state : ℤ) :
    Ends w (w.endStep t new_state) t := by
  by_cases ha : (w.task t).aborted = true
  · exact (endStep_aborted h hproc ha new_state).1
  have hnot := h.processing t hproc
  have ht : t < w.count := by
    obtain ⟨i, d, -, hi⟩ := hproc
    exact (h.listed t (List.mem_of_getElem? hi)).1
  have htask := modify_self w t fun task => { task with busy := false }
  have htree : (w.modify t fun task => { task with busy := false }).Tree ∅ :=
    h.tree.modify rfl rfl fun hset => absurd hset.2 ha
  have hblocked : (w.modify t fun task => { task with busy := false }).Blocked ∅ :=
    h.blocked.modify fun hd => absurd (hnot.symm.trans hd) (by decide)
  rw [endStep, if_neg (by rw [htask]; exact ha)]
  have hnot₁ : ((w.modify t fun task => { task with busy := false }).task t).done = false := by
    rw [htask]
    exact hnot
  have hcount : (w.modify t fun task => { task with busy := false }).count = w.count := rfl
  generalize hw₁ : (w.modify t fun task => { task with busy := false }) = w₁
    at htree hblocked hnot₁ hcount ⊢
  -- the new state, before anything is said to the parent
  have hstate : (w₁.setState t new_state).Tree ∅ ∧ (w₁.setState t new_state).Blocked ∅ ∧
      Keeps w₁ (w₁.setState t new_state) ∧ ((w₁.setState t new_state).task t).done = false := by
    rw [setState]
    split_ifs
    · refine ⟨htree.modify rfl rfl fun hset => hset, hblocked.modify fun _ _ => rfl,
        Keeps.modify w₁ t rfl (fun hb => hb) fun hd => hd, ?_⟩
      rw [modify_self]
      exact hnot₁
    · have hlife := life_resetTimeout
        (w₁.modify t fun task => { task with state := new_state, blocked := false }) t
      have hnot₂ : (w₁.modify t fun task =>
          { task with state := new_state, blocked := false }).life.task t =
            ((w₁.modify t fun task => { task with state := new_state, blocked := false }).resetTimeout
              t).life.task t := by rw [hlife]
      refine ⟨.of_life (htree.modify rfl rfl fun hset => hset) hlife, .of_life
        (hblocked.modify fun hd => absurd (hnot₁.symm.trans hd) (by decide)) hlife,
        (Keeps.modify w₁ t rfl (fun hb => hb) fun hd => hd).trans (.of_life hlife), ?_⟩
      have hdone := congrArg Task.done hnot₂
      have hself := congrArg Task.done (modify_self w₁ t
        fun task => { task with state := new_state, blocked := false })
      exact (hdone.symm.trans hself).trans hnot₁
  obtain ⟨htree₂, hblocked₂, hkeeps₂, hnot₂⟩ := hstate
  have hlt : t < (w₁.setState t new_state).count := by
    rw [hkeeps₂.count, hcount]
    exact ht
  rw [← hw₁] at hkeeps₂ htree₂ hblocked₂ hnot₂ hlt ⊢
  dsimp only
  split_ifs
  · exact finish_task htree₂ hblocked₂ hlt hnot₂ hkeeps₂ rfl (fun hb => hb) rfl
  · exact finish_task htree₂ hblocked₂ hlt hnot₂ hkeeps₂ rfl (fun hb => hb) rfl
  · exact ⟨htree₂, hblocked₂, hkeeps₂⟩

theorem Living.scan (h : w.Living) (hc : ∀ i d, w.control ≠ .process i d) {c : Control}
    (hc' : ∀ i d, c ≠ .process i d) : Living { w with control := c } := by
  have hproc : ∀ u, ¬w.Processing u := by
    rintro u ⟨i, d, hp, -⟩
    exact hc i d hp
  have hproc' : ∀ u, ¬Processing { w with control := c } u := by
    rintro u ⟨i, d, hp, -⟩
    exact hc' i d hp
  exact ⟨⟨h.tree.parent_lt, h.tree.nodup, h.tree.mem_children, h.tree.stopped, h.tree.closed,
    h.tree.stopping⟩, h.blocked,
    fun u => iff_of_false (fun hb => hproc u ((h.busy u).mp hb)) (hproc' u),
    fun i d hp => absurd hp (hc' i d), fun u hu => absurd hu (hproc' u), h.nodup, h.listed,
    h.unlisted, h.deleted, h.fresh⟩

theorem Tree.control (h : w.Tree S) (c : Control) : Tree { w with control := c } S :=
  ⟨h.parent_lt, h.nodup, h.mem_children, h.stopped, h.closed, h.stopping⟩

theorem Keeps.control (h : Keeps w w') (c : Control) : Keeps w { w' with control := c } :=
  ⟨h.count, h.tasks, h.started, h.deleted, h.parent, h.busy, h.done, h.fresh⟩

theorem living_processed (h : w.Living) (new_state : ℤ) : (w.processed new_state).Living := by
  rw [processed]
  split
  · rename_i i d hc
    split
    · rename_i t ht
      have hproc : w.Processing t := ⟨i, d, hc, ht⟩
      obtain ⟨htree, hblocked, hkeeps⟩ := endStep_spec h hproc new_state
      have hfirst : Keeps w (w.modify t fun task => { task with busy := false }) :=
        Keeps.modify w t rfl (fun hb => absurd hb Bool.false_ne_true) fun hd => hd
      refine h.of_keeps ((hfirst.trans hkeeps).control _) (htree.control _) hblocked
        (fun u => ?_) fun i d hp => by cases hp
      -- the task that ran is not busy any more, and no other was
      rw [← Bool.not_eq_true]
      intro hb
      have hb₁ := hkeeps.busy u hb
      by_cases hut : u = t
      · rw [hut, modify_self] at hb₁
        exact absurd hb₁ Bool.false_ne_true
      · rw [modify_other _ _ hut] at hb₁
        obtain ⟨i', d', hc', ht'⟩ := (h.busy u).mp hb₁
        obtain ⟨rfl, -⟩ := Control.process.inj (hc.symm.trans hc')
        exact hut (Option.some.inj (ht'.symm.trans ht))
    · exact h
  · exact h

theorem Living.not_busy (h : w.Living) (hc : ∀ i d, w.control ≠ .process i d) (t : ℕ) :
    (w.task t).busy = false := by
  rw [← Bool.not_eq_true]
  intro hb
  obtain ⟨i, d, hp, -⟩ := (h.busy t).mp hb
  exact hc i d hp

theorem living_beginStep (h : w.Living) {i : ℕ} {d : Bool} (hc : ∀ i d, w.control ≠ .process i d)
    (ht : w.tasks[i]? = some t) (hb : (w.task t).blocked = false) :
    (w.beginStep i d t).Living := by
  have hlt : t < w.count := (h.listed t (List.mem_of_getElem? ht)).1
  have hnot : (w.task t).done = false := by
    rw [← Bool.not_eq_true]
    intro hd
    exact absurd (hb.symm.trans (h.blocked t hd (Set.notMem_empty t))) Bool.false_ne_true
  rw [beginStep, if_neg (by rw [hnot]; exact Bool.false_ne_true)]
  split_ifs with herror
  · have hmark := h.tree.mark (t := t) hnot
      (f := fun task => { task with done := true, state := stateError, blocked := true }) rfl rfl
    have hblocked : (w.modify t fun task =>
        { task with done := true, state := stateError, blocked := true }).Blocked ∅ :=
      h.blocked.modify fun _ _ => rfl
    obtain ⟨htree, haborts, hB⟩ := stop_spec hmark hblocked (Set.notMem_empty t) hlt
    have hkeeps := (Keeps.modify w t (f := fun task =>
      { task with done := true, state := stateError, blocked := true }) rfl (fun hb => hb)
        fun _ => rfl).trans haborts.keeps
    refine h.of_keeps (hkeeps.control _) (htree.control _) hB (fun u => ?_)
      fun i d hp => by cases hp
    rw [← Bool.not_eq_true]
    intro hbu
    exact absurd ((h.not_busy hc u).symm.trans (hkeeps.busy u hbu)) Bool.false_ne_true
  · have hother : ∀ u, u ≠ t →
        ((w.modify t fun task => { task with busy := true }).task u) = w.task u :=
      fun u hu => modify_other w _ hu
    have hself := modify_self w t fun task => { task with busy := true }
    have hproc : ∀ u, Processing { w.modify t (fun task => { task with busy := true }) with
        control := .process i d } u ↔ u = t := by
      intro u
      constructor
      · rintro ⟨i', d', hc', hu⟩
        obtain ⟨rfl, -⟩ := Control.process.inj hc'
        exact Option.some.inj (hu.symm.trans ht)
      · rintro rfl
        exact ⟨i, d, rfl, ht⟩
    have htree : (w.modify t fun task => { task with busy := true }).Tree ∅ :=
      h.tree.modify rfl rfl fun hset => ⟨rfl, hset.2⟩
    have hblocked : (w.modify t fun task => { task with busy := true }).Blocked ∅ :=
      h.blocked.modify fun hd => absurd (hnot.symm.trans hd) (by decide)
    have hkeep : ∀ u, ((w.modify t fun task => { task with busy := true }).task u).done =
        (w.task u).done ∧ ((w.modify t fun task => { task with busy := true }).task u).parent =
          (w.task u).parent := by
      intro u
      by_cases hu : u = t
      · rw [hu, hself]
        exact ⟨rfl, rfl⟩
      · rw [hother u hu]
        exact ⟨rfl, rfl⟩
    refine ⟨htree.control _, hblocked, fun u => ?_, fun i' d' hp => ?_, fun u hu => ?_, h.nodup,
      h.listed, h.unlisted, fun p hp => ?_, h.fresh⟩
    · rw [hproc]
      show ((w.modify t fun task => { task with busy := true }).task u).busy = true ↔ u = t
      by_cases hu : u = t
      · rw [hu, hself]
        exact iff_of_true rfl rfl
      · rw [hother u hu, h.not_busy hc u]
        exact iff_of_false Bool.false_ne_true hu
    · obtain ⟨rfl, -⟩ := Control.process.inj hp
      exact (List.getElem?_eq_some_iff.mp ht).1
    · rw [(hproc u).mp hu]
      exact (hkeep t).1.trans hnot
    · obtain ⟨hdone, hchildren⟩ := h.deleted p hp
      refine ⟨(hkeep p).1.trans hdone, fun c hc' hcp => (hkeep c).1.trans ?_⟩
      exact hchildren c hc' ((hkeep c).2.symm.trans hcp)

theorem life_sweep (w : TaskRunner) : w.sweep.life = life { w with
    deleted := fun t => w.deleted t + if (w.task t).done then w.tasks.count t else 0
    tasks := w.tasks.filter fun t => (w.task t).done = false } := by
  rw [sweep]
  split_ifs <;> rfl

theorem living_sweep (h : w.Living) (hc : ∀ i d, w.control ≠ .process i d) : w.sweep.Living := by
  refine Living.of_life ?_ (life_sweep w)
  have hproc : ∀ u, ¬Processing { w with
      deleted := fun t => w.deleted t + if (w.task t).done then w.tasks.count t else 0
      tasks := w.tasks.filter fun t => (w.task t).done = false } u := by
    rintro u ⟨i, d, hp, -⟩
    exact hc i d hp
  refine ⟨⟨h.tree.parent_lt, h.tree.nodup, h.tree.mem_children, h.tree.stopped, h.tree.closed,
    h.tree.stopping⟩, h.blocked, fun u => ?_, fun i d hp => absurd hp (hc i d),
    fun u hu => absurd hu (hproc u), h.nodup.filter _, fun u hu => ?_, fun u hu => ?_,
    fun p hp => ?_, fun u hu => ?_⟩
  · rw [h.not_busy hc u]
    exact iff_of_false Bool.false_ne_true (hproc u)
  · obtain ⟨hmem, hnot⟩ := List.mem_filter.mp hu
    have hnot := of_decide_eq_true hnot
    obtain ⟨hlt, hstarted, hdeleted⟩ := h.listed u hmem
    refine ⟨hlt, hstarted, ?_⟩
    show w.deleted u + (if (w.task u).done = true then w.tasks.count u else 0) = 0
    rw [hnot, hdeleted, if_neg Bool.false_ne_true]
  · show w.started u = w.deleted u + (if (w.task u).done = true then w.tasks.count u else 0) ∧
      w.deleted u + (if (w.task u).done = true then w.tasks.count u else 0) ≤ 1
    by_cases hmem : u ∈ w.tasks
    · -- it was the runner's, and it is done
      have hdone : (w.task u).done = true := by
        by_contra hnot
        exact hu (List.mem_filter.mpr ⟨hmem, decide_eq_true (Bool.eq_false_iff.mpr hnot)⟩)
      obtain ⟨-, hstarted, hdeleted⟩ := h.listed u hmem
      rw [hstarted, hdeleted, if_pos hdone, List.count_eq_one_of_mem h.nodup hmem]
      exact ⟨rfl, Nat.le_refl _⟩
    · rw [List.count_eq_zero.mpr hmem, ite_self, Nat.add_zero]
      exact h.unlisted u hmem
  · by_cases hold : w.deleted p ≠ 0
    · exact h.deleted p hold
    · have hdone : (w.task p).done = true := by
        by_contra hnot
        apply hp
        show w.deleted p + (if (w.task p).done = true then w.tasks.count p else 0) = 0
        rw [if_neg hnot, not_not.mp hold]
      refine ⟨hdone, fun c hc' hcp => ?_⟩
      rcases h.tree.closed p c hdone (Set.notMem_empty p) hc' hcp with hd | ⟨hb, -⟩
      · exact hd
      · exact absurd ((h.not_busy hc c).symm.trans hb) Bool.false_ne_true
  · obtain ⟨hstopped, hdeleted⟩ := h.fresh u hu
    refine ⟨hstopped, ?_⟩
    have hno : u ∉ w.tasks := fun hmem => absurd (h.listed u hmem).1 (Nat.not_lt.mpr hu)
    show w.deleted u + (if (w.task u).done = true then w.tasks.count u else 0) = 0
    rw [List.count_eq_zero.mpr hno, ite_self, hdeleted]

theorem control_sweep (w : TaskRunner) : w.sweep.control = w.control := by
  rw [sweep]
  split_ifs <;> rfl

theorem living_advance (h : w.Living) : w.advance.Living := by
  rw [advance]
  split
  · rename_i i d hc
    have hno : ∀ i d, w.control ≠ .process i d := fun i' d' hp => by cases hc.symm.trans hp
    split
    · rename_i t ht
      split_ifs with hb
      · exact h.scan hno fun i d hp => by cases hp
      · exact living_beginStep h hno ht (Bool.eq_false_iff.mpr hb)
    · split_ifs
      · exact h.scan hno fun i d hp => by cases hp
      · rw [finishRun]
        have hsweep := living_sweep h hno
        have hcheck := hsweep.of_life (life_checkForTimeoutChange _ w.previous_timeout_time)
        have hsame : (w.sweep.checkForTimeoutChange w.previous_timeout_time).control = w.control := by
          rw [checkForTimeoutChange]
          split_ifs <;> exact control_sweep w
        exact hcheck.scan (fun i d => hsame ▸ hno i d) fun i d hp => by cases hp
  · exact h

/-! ### Every run -/

/-- A task is started only where the runner does not have it, and is made only under a
parent that is not done. -/
def Regular (w : TaskRunner) : TaskEvent → Prop
  | .start t => (w.task t).state = stateInit → t ∉ w.tasks
  | .newTask (some p) => (w.task p).done = false
  | _ => True

/-- Every event finds the runner so. -/
def RegularRun : TaskRunner → List TaskEvent → Prop
  | _, [] => True
  | w, e :: es => w.Regular e ∧ RegularRun (w.step e) es

theorem living_call (h : w.Living) {f : TaskRunner → ℕ → TaskRunner}
    (hf : w.isThere t = true → (f w t).Living) : (w.call t f).Living := by
  rw [call]
  split_ifs with hc
  · exact hf hc.2
  · exact h

theorem isThere_lt (ht : w.isThere t = true) : t < w.count := (of_decide_eq_true ht).1

theorem living_step (h : w.Living) (e : TaskEvent) (he : w.Regular e) : (w.step e).Living := by
  cases e with
  | newTask parent =>
    rw [step]
    split_ifs with hc
    · refine living_newTask h fun p hp => ?_
      subst hp
      exact ⟨hc.2, he⟩
    · exact h
  | start t => exact living_call h fun ht => living_start h ht he
  | wake t => exact living_call h fun _ => living_wake h t
  | error t => exact living_call h fun _ => living_onError h t
  | abort t => exact living_call h fun ht => living_abortTask h (isThere_lt ht)
  | setTimeoutSeconds t seconds =>
    exact living_call h (f := fun w t => w.setTimeoutSeconds t seconds)
      fun _ => h.of_life (life_setTimeoutSeconds w t seconds)
  | resetTimeout t => exact living_call h fun _ => h.of_life (life_resetTimeout w t)
  | clearTimeout t => exact living_call h fun _ => h.of_life (life_clearTimeout w t)
  | suspendTimeout t => exact living_call h fun _ => h.of_life (life_suspendTimeout w t)
  | resumeTimeout t => exact living_call h fun _ => h.of_life (life_resumeTimeout w t)
  | clock time => exact h.of_life rfl
  | runTasks =>
    rw [step, runTasks]
    split
    · rename_i hc
      have hno : ∀ i d, w.control ≠ .process i d := fun i d hp => by cases hc.symm.trans hp
      exact (h.scan hno (c := .scan 0 false) fun i d hp => by cases hp).of_life rfl
    · exact h
  | pollTasks =>
    rw [step, pollTasks]
    split_ifs
    · split
      · split_ifs
        · exact living_wake h _
        · exact h
      · exact h
    · exact h
  | advance => exact living_advance h
  | processed new_state => exact living_processed h new_state

theorem living_run {es : List TaskEvent} (h : w.Living) (hes : w.RegularRun es) :
    (w.run es).Living := by
  induction es generalizing w with
  | nil => exact h
  | cons e es ih => exact ih (living_step h e hes.1) hes.2

/-- Tasks that are done stay so, and none is deleted. -/
structure Stays (w w' : TaskRunner) : Prop where
  done : ∀ t < w.count, (w.task t).done = true → (w'.task t).done = true
  deleted : w'.deleted = w.deleted

theorem Keeps.stays (h : Keeps w w') : Stays w w' := ⟨fun t _ => h.done t, h.deleted⟩

theorem Stays.refl (w : TaskRunner) : Stays w w := ⟨fun _ _ hd => hd, rfl⟩

theorem Stays.of_life (hl : w'.life = w.life) : Stays w w' := (Keeps.of_life hl).stays

theorem Stays.of_call {f : TaskRunner → ℕ → TaskRunner} (hf : t < w.count → Stays w (f w t)) :
    Stays w (w.call t f) := by
  rw [call]
  split_ifs with hc
  · exact hf (isThere_lt hc.2)
  · exact .refl w

theorem keeps_wake (w : TaskRunner) (t : ℕ) : Keeps w (w.wake t) := by
  rw [wake]
  split_ifs
  · exact .of_life rfl
  · exact .modify w t rfl (fun hb => hb) fun hd => hd

theorem keeps_onError (w : TaskRunner) (t : ℕ) : Keeps w (w.onError t) := by
  rw [onError]
  split_ifs
  · exact .of_life rfl
  · exact (Keeps.modify w t rfl (fun hb => hb) fun hd => hd).trans (keeps_wake _ t)

theorem stays_start (w : TaskRunner) (t : ℕ) : Stays w (w.start t) := by
  rw [start]
  split_ifs
  · exact .refl w
  · have hstays := Stays.of_life (life_updateTaskTimeout (w.pushTask t) t 0)
    exact ⟨hstays.done, hstays.deleted⟩

theorem stays_newTask (w : TaskRunner) (parent : Option ℕ) : Stays w (w.newTask parent) :=
  ⟨fun t ht hd => by
    have hother : (w.newTask parent).task t = w.task t :=
      Function.update_of_ne (Nat.ne_of_lt ht) ..
    rw [hother]
    exact hd, rfl⟩

theorem stays_beginStep (h : w.Living) {i : ℕ} {d : Bool} (ht : w.tasks[i]? = some t) (hb : (w.task t).blocked = false) :
    Stays w (w.beginStep i d t) := by
  have hlt : t < w.count := (h.listed t (List.mem_of_getElem? ht)).1
  have hnot : (w.task t).done = false := by
    rw [← Bool.not_eq_true]
    intro hd
    exact absurd (hb.symm.trans (h.blocked t hd (Set.notMem_empty t))) Bool.false_ne_true
  rw [beginStep, if_neg (by rw [hnot]; exact Bool.false_ne_true)]
  split_ifs
  · have hmark := h.tree.mark (t := t) hnot
      (f := fun task => { task with done := true, state := stateError, blocked := true }) rfl rfl
    have hblocked : (w.modify t fun task =>
        { task with done := true, state := stateError, blocked := true }).Blocked ∅ :=
      h.blocked.modify fun _ _ => rfl
    obtain ⟨-, haborts, -⟩ := stop_spec hmark hblocked (Set.notMem_empty t) hlt
    have hkeeps := (Keeps.modify w t (f := fun task =>
      { task with done := true, state := stateError, blocked := true }) rfl (fun hb => hb)
        fun _ => rfl).trans haborts.keeps
    exact (hkeeps.control _).stays
  · refine ⟨fun u _ hd => ?_, rfl⟩
    show ((w.modify t fun task => { task with busy := true }).task u).done = true
    by_cases hu : u = t
    · rw [hu, modify_self]
      exact hu ▸ hd
    · rw [modify_other w _ hu]
      exact hd

theorem stays_step (h : w.Living) (e : TaskEvent) :
    Stays w (w.step e) ∨ (e = .advance ∧ w.step e = w.finishRun ∧
      (∃ i, w.control = .scan i false ∧ w.tasks[i]? = none)) := by
  cases e with
  | newTask parent =>
    rw [step]
    split_ifs
    · exact .inl (stays_newTask w parent)
    · exact .inl (.refl w)
  | start t => exact .inl (.of_call fun _ => stays_start w t)
  | wake t => exact .inl (.of_call fun _ => (keeps_wake w t).stays)
  | error t => exact .inl (.of_call fun _ => (keeps_onError w t).stays)
  | abort t =>
    exact .inl (.of_call fun ht => (abortTask_spec h.tree h.blocked ht).aborts.keeps.stays)
  | setTimeoutSeconds t seconds =>
    exact .inl (.of_call (f := fun w t => w.setTimeoutSeconds t seconds)
      fun _ => .of_life (life_setTimeoutSeconds w t seconds))
  | resetTimeout t => exact .inl (.of_call fun _ => .of_life (life_resetTimeout w t))
  | clearTimeout t => exact .inl (.of_call fun _ => .of_life (life_clearTimeout w t))
  | suspendTimeout t => exact .inl (.of_call fun _ => .of_life (life_suspendTimeout w t))
  | resumeTimeout t => exact .inl (.of_call fun _ => .of_life (life_resumeTimeout w t))
  | clock time => exact .inl ⟨fun _ _ hd => hd, rfl⟩
  | runTasks =>
    rw [step, runTasks]
    split <;> exact .inl ⟨fun _ _ hd => hd, rfl⟩
  | pollTasks =>
    rw [step, pollTasks]
    split_ifs
    · split
      · split_ifs
        · exact .inl (keeps_wake w _).stays
        · exact .inl (.refl w)
      · exact .inl (.refl w)
    · exact .inl (.refl w)
  | advance =>
    rw [step, advance]
    split
    · rename_i i d hc
      have hno : ∀ i d, w.control ≠ .process i d := fun i' d' hp => by cases hc.symm.trans hp
      split
      · rename_i t ht
        split_ifs with hb
        · exact .inl ⟨fun _ _ hd => hd, rfl⟩
        · exact .inl (stays_beginStep h ht (Bool.eq_false_iff.mpr hb))
      · rename_i ht
        split_ifs with hd
        · exact .inl ⟨fun _ _ hd => hd, rfl⟩
        · exact .inr ⟨rfl, rfl, i, by rw [hc, Bool.eq_false_iff.mpr hd], ht⟩
    · exact .inl (.refl w)
  | processed new_state =>
    rw [step, processed]
    split
    · rename_i i d hc
      split
      · rename_i t ht
        have hends := endStep_spec h ⟨i, d, hc, ht⟩ new_state
        have hfirst : Keeps w (w.modify t fun task => { task with busy := false }) :=
          Keeps.modify w t rfl (fun hb => absurd hb Bool.false_ne_true) fun hd => hd
        exact .inl ((hfirst.trans hends.keeps).control _).stays
      · exact .inl (.refl w)
    · exact .inl (.refl w)

theorem life_finishRun (w : TaskRunner) : w.finishRun.life = life { w with
    control := .idle
    deleted := fun t => w.deleted t + if (w.task t).done then w.tasks.count t else 0
    tasks := w.tasks.filter fun t => (w.task t).done = false } :=
  congrArg (fun w : TaskRunner => { w with control := .idle })
    ((life_checkForTimeoutChange w.sweep w.previous_timeout_time).trans (life_sweep w))

theorem finishRun_deleted (w : TaskRunner) (t : ℕ) :
    w.finishRun.deleted t = w.deleted t + if (w.task t).done then w.tasks.count t else 0 :=
  congrFun (congrArg TaskRunner.deleted (life_finishRun w)) t

theorem finishRun_tasks (w : TaskRunner) :
    w.finishRun.tasks = w.tasks.filter fun t => (w.task t).done = false :=
  congrArg TaskRunner.tasks (life_finishRun w)

theorem finishRun_task (w : TaskRunner) (t : ℕ) : (w.finishRun.task t).done = (w.task t).done := by
  have hdone : (w.finishRun.life.task t).done = (w.task t).done := by
    rw [life_finishRun]
    rfl
  exact hdone

/-- What the life of a task is. -/
structure LifeCycle (w : TaskRunner) : Prop where
  blocked : ∀ t, (w.task t).done = true → (w.task t).blocked = true
  /-- A task that is done stays done and is not processed. -/
  stays_done : ∀ e, ∀ t < w.count, (w.task t).done = true → ((w.step e).task t).done = true
  processed : ∀ t, w.Processing t → (w.task t).done = false
  /-- It was taken from the children of its parent, once. -/
  stopped : ∀ t < w.count, (w.task t).done = true →
    w.stopped t = 1 ∧ t ∉ w.children (w.task t).parent
  not_stopped : ∀ t < w.count, (w.task t).done = false →
    w.stopped t = 0 ∧ t ∈ w.children (w.task t).parent
  children : ∀ p, (w.task p).done = true → ∀ c < w.count, (w.task c).parent = some p →
    (w.task c).done = true ∨ ((w.task c).busy = true ∧ (w.task c).aborted = true)
  /-- What is busy is being processed, and is done after that where it was aborted. -/
  busy : ∀ t, (w.task t).busy = true → w.Processing t
  aborted : ∀ t, w.Processing t → (w.task t).aborted = true → ∀ new_state,
    ((w.step (.processed new_state)).task t).done = true
  /-- A started task is the runner's until it is deleted. -/
  started : ∀ t, w.started t ≠ 0 →
    (t ∈ w.tasks ∧ w.deleted t = 0) ∨ (t ∉ w.tasks ∧ w.deleted t = 1)
  deleted : ∀ t, w.deleted t ≤ 1 ∧ (w.deleted t ≠ 0 → (w.task t).done = true)
  /-- It is deleted at the end of a run, where it is done and nothing is in a step. -/
  deleting : ∀ e t, (w.step e).deleted t ≠ w.deleted t →
    e = .advance ∧ w.step e = w.finishRun ∧ t ∈ w.tasks ∧ (w.task t).done = true ∧
      ∀ u, (w.task u).busy = false
  /-- The end of a run deletes all that are done. -/
  swept : (∀ i d, w.control ≠ .process i d) → ∀ t ∈ w.tasks, (w.task t).done = true →
    w.finishRun.deleted t = 1 ∧ t ∉ w.finishRun.tasks

theorem lifeCycle_of_living (h : w.Living) : w.LifeCycle where
  blocked t hd := h.blocked t hd (Set.notMem_empty t)
  stays_done e t ht hd := by
    rcases stays_step h e with hs | ⟨-, he, -⟩
    · exact hs.done t ht hd
    · rw [he, finishRun_task]
      exact hd
  processed := h.processing
  stopped t ht hd := by
    have hgone : w.Gone ∅ t := ⟨hd, Set.notMem_empty t⟩
    exact ⟨(h.tree.stopped t ht).1 hgone, fun hmem => ((h.tree.mem_children _ t).mp hmem).2.2 hgone⟩
  not_stopped t ht hd := by
    have hgone : ¬w.Gone ∅ t := fun hg => absurd (hd.symm.trans hg.1) Bool.false_ne_true
    exact ⟨(h.tree.stopped t ht).2 hgone, (h.tree.mem_children _ t).mpr ⟨ht, rfl, hgone⟩⟩
  children p hd c hc hcp := h.tree.closed p c hd (Set.notMem_empty p) hc hcp
  busy t := (h.busy t).mp
  aborted t hproc ha new_state := by
    obtain ⟨i, d, hc, ht⟩ := hproc
    rw [step, processed, hc]
    dsimp only
    rw [ht]
    exact (endStep_aborted h ⟨i, d, hc, ht⟩ ha new_state).2
  started t hs := by
    by_cases hmem : t ∈ w.tasks
    · exact .inl ⟨hmem, (h.listed t hmem).2.2⟩
    · obtain ⟨hstarted, hle⟩ := h.unlisted t hmem
      exact .inr ⟨hmem, by omega⟩
  deleted t := by
    refine ⟨?_, fun hd => (h.deleted t hd).1⟩
    by_cases hmem : t ∈ w.tasks
    · rw [(h.listed t hmem).2.2]
      exact Nat.zero_le _
    · exact (h.unlisted t hmem).2
  deleting e t hne := by
    rcases stays_step h e with hs | ⟨he, hstep, i, hc, -⟩
    · rw [hs.deleted] at hne
      exact absurd rfl hne
    · rw [hstep, finishRun_deleted] at hne
      refine ⟨he, hstep, ?_, ?_, h.not_busy fun i' d' hp => by cases hc.symm.trans hp⟩
      · by_contra hmem
        rw [List.count_eq_zero.mpr hmem, ite_self] at hne
        exact hne rfl
      · by_contra hd
        rw [if_neg hd] at hne
        exact hne rfl
  swept _ t hmem hd := by
    rw [finishRun_deleted, finishRun_tasks, if_pos hd, (h.listed t hmem).2.2,
      List.count_eq_one_of_mem h.nodup hmem]
    refine ⟨rfl, fun hin => ?_⟩
    have hnot := of_decide_eq_true (List.mem_filter.mp hin).2
    exact absurd (hnot.symm.trans hd) Bool.false_ne_true

/-- **The life of a task**, in every state of a run in which no task is started while the
runner has it, and none is made under a parent that is done. -/
theorem task_life_cycle (es : List TaskEvent) (h : init.RegularRun es) : (init.run es).LifeCycle :=
  lifeCycle_of_living (living_run init_living h)

/-- A task with a child that it aborts from its `Process`, and that is then aborted
itself. -/
def familyRun : List TaskEvent :=
  [.newTask none, .start 0, .runTasks, .advance, .newTask (some 0), .start 1, .abort 0,
    .processed 1, .advance]

theorem task_life_cycle_family : (init.run familyRun).LifeCycle ∧
    ((init.run familyRun).task 1).done = true :=
  ⟨task_life_cycle familyRun
    ⟨trivial, fun _ => List.not_mem_nil, trivial, trivial, rfl, fun _ => by decide, trivial,
      trivial, trivial, trivial⟩, by decide⟩

/-- A task is started again before it runs. -/
def startedTwice : List TaskEvent :=
  [.newTask none, .start 0, .start 0, .runTasks, .advance, .processed stateDone, .advance,
    .advance, .advance, .advance, .advance, .advance]

/-- **It is deleted twice.** -/
theorem not_task_life_cycle_started_twice : ¬∀ es, (init.run es).LifeCycle := by
  intro h
  have hle := ((h startedTwice).deleted 0).1
  have htwo : (init.run startedTwice).deleted 0 = 2 := by decide
  rw [htwo] at hle
  exact absurd hle (by decide)

end TaskRunner

end Jingle.Base
