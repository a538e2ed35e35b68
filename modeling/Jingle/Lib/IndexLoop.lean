/-
A loop by index over a list that its body changes.

The body is a callback: it may take elements out of the list, before the index or after
it, and add new ones at the end.  The index goes on by one all the same, so that the
elements which move up to its place are never met (`Turn.overtaken`).

* **`pairwise_items`** — the elements are met in the order of their numbers, none twice.
* **`met_iff`** — an element that stays in the list is met, or the loop stops before it,
  exactly if no turn overtakes it.
-/
import Mathlib.Tactic

namespace Jingle.IndexLoop

variable {σ α β : Type}

/-- A turn of the loop: the list before it, split at the index, and the callback. -/
structure Turn (α β : Type) where
  passed : List α
  item : α
  later : List α
  callback : β

namespace Turn

variable (keep : β → α → Bool) (t : Turn α β)

/-- How many elements the callback takes out up to its own place. -/
def gone : ℕ := (t.passed ++ [t.item]).countP fun x => !keep t.callback x

/-- The elements after the callback's own that move up to its place or before it. -/
def overtaken : List α := (t.later.filter (keep t.callback)).take (t.gone keep)

end Turn

section Loop

variable (vec : σ → List α) (act : σ → α → β → σ) (stop : β → Bool)

/-- The loop from index `i` on, with the callbacks that are made: its turns, the state
after it and the callbacks that are left.  Nothing if there are not enough of them. -/
def loop : List β → ℕ → σ → Option (List (Turn α β) × σ × List β)
  | [], i, s =>
    match (vec s).drop i with
    | [] => some ([], s, [])
    | _ :: _ => none
  | b :: bs, i, s =>
    match (vec s).drop i with
    | [] => some ([], s, b :: bs)
    | item :: later =>
      let turn : Turn α β := { passed := (vec s).take i, item, later, callback := b }
      if stop b then some ([turn], act s item b, bs)
      else (loop bs (i + 1) (act s item b)).map fun r => (turn :: r.1, r.2)

variable {vec act stop} {bs rest : List β} {i : ℕ} {s s' : σ} {ts : List (Turn α β)}

theorem loop_cases (h : loop vec act stop bs i s = some (ts, s', rest)) :
    ((vec s).drop i = [] ∧ ts = [] ∧ s' = s ∧ rest = bs) ∨
    ∃ item later b bs', (vec s).drop i = item :: later ∧ bs = b :: bs' ∧
      ((stop b = true ∧ ts = [⟨(vec s).take i, item, later, b⟩] ∧ s' = act s item b ∧
          rest = bs') ∨
        (stop b = false ∧ ∃ ts', ts = ⟨(vec s).take i, item, later, b⟩ :: ts' ∧
          loop vec act stop bs' (i + 1) (act s item b) = some (ts', s', rest))) := by
  cases bs with
  | nil =>
    unfold loop at h
    split at h
    next hd =>
      cases h
      exact .inl ⟨hd, rfl, rfl, rfl⟩
    · cases h
  | cons b bs' =>
    unfold loop at h
    split at h
    next hd =>
      cases h
      exact .inl ⟨hd, rfl, rfl, rfl⟩
    next item later hd =>
      refine .inr ⟨item, later, b, bs', hd, rfl, ?_⟩
      by_cases hb : stop b = true
      · rw [if_pos hb] at h
        cases h
        exact .inl ⟨hb, rfl, rfl, rfl⟩
      · rw [if_neg hb] at h
        obtain ⟨r, hr, heq⟩ := Option.map_eq_some_iff.mp h
        obtain ⟨ts', s'', rest'⟩ := r
        cases heq
        exact .inr ⟨Bool.eq_false_iff.mpr hb, ts', rfl, hr⟩

theorem loop_induct {P : ℕ → σ → List (Turn α β) → σ → List β → List β → Prop}
    (hend : ∀ i s bs, (vec s).drop i = [] → P i s [] s bs bs)
    (hstop : ∀ i s item later b bs, (vec s).drop i = item :: later → stop b = true →
      P i s [⟨(vec s).take i, item, later, b⟩] (act s item b) (b :: bs) bs)
    (hnext : ∀ i s item later b bs ts s' rest, (vec s).drop i = item :: later →
      stop b = false → P (i + 1) (act s item b) ts s' bs rest →
      P i s (⟨(vec s).take i, item, later, b⟩ :: ts) s' (b :: bs) rest) :
    ∀ bs i s ts s' rest, loop vec act stop bs i s = some (ts, s', rest) →
      P i s ts s' bs rest := by
  intro bs
  induction bs with
  | nil =>
    intro i s ts s' rest h
    rcases loop_cases h with ⟨hd, rfl, rfl, rfl⟩ | ⟨_, _, _, _, _, hbs, _⟩
    · exact hend i s' _ hd
    · cases hbs
  | cons b bs ih =>
    intro i s ts s' rest h
    rcases loop_cases h with ⟨hd, rfl, rfl, rfl⟩ | ⟨item, later, b', bs', hd, hbs, hturn⟩
    · exact hend i s' _ hd
    · obtain ⟨rfl, rfl⟩ := List.cons.inj hbs
      rcases hturn with ⟨hb, rfl, rfl, rfl⟩ | ⟨hb, ts', rfl, hloop⟩
      · exact hstop i s item later b _ hd hb
      · exact hnext i s item later b _ ts' s' rest hd hb (ih _ _ _ _ _ hloop)

theorem loop_invariant {P : σ → Prop} {Q : β → Prop}
    (hact : ∀ s a b, Q b → P s → P (act s a b))
    (h : loop vec act stop bs i s = some (ts, s', rest)) (hQ : ∀ t ∈ ts, Q t.callback)
    (hP : P s) : P s' := by
  refine loop_induct (P := fun _ s ts s' _ _ => (∀ t ∈ ts, Q t.callback) → P s → P s')
    ?_ ?_ ?_ bs i s ts s' rest h hQ hP
  · intro i s bs _ _ hP
    exact hP
  · intro i s item later b bs _ _ hQ hP
    exact hact s item b (hQ _ (List.mem_singleton_self _)) hP
  · intro i s item later b bs ts s' rest _ _ ih hQ hP
    obtain ⟨hb, hts⟩ := List.forall_mem_cons.mp hQ
    exact ih hts (hact s item b hb hP)

theorem callbacks_eq (h : loop vec act stop bs i s = some (ts, s', rest)) :
    bs = ts.map Turn.callback ++ rest := by
  refine loop_induct (P := fun _ _ ts _ bs rest => bs = ts.map Turn.callback ++ rest)
    ?_ ?_ ?_ bs i s ts s' rest h
  · intro i s bs _
    rfl
  · intro i s item later b bs _ _
    rfl
  · intro i s item later b bs ts s' rest _ _ ih
    rw [List.map_cons, List.cons_append, ← ih]

theorem stop_last (h : loop vec act stop bs i s = some (ts, s', rest)) :
    ∀ t ∈ ts.dropLast, stop t.callback = false := by
  refine loop_induct (P := fun _ _ ts _ _ _ => ∀ t ∈ ts.dropLast, stop t.callback = false)
    ?_ ?_ ?_ bs i s ts s' rest h
  · intro i s bs _ t ht
    cases ht
  · intro i s item later b bs _ _ t ht
    cases ht
  · intro i s item later b bs ts s' rest _ hb ih t ht
    cases ts with
    | nil => cases ht
    | cons t' ts =>
      rw [List.dropLast_cons_cons] at ht
      rcases List.mem_cons.mp ht with rfl | ht
      · exact hb
      · exact ih t ht

/-! ### Lists whose elements have numbers -/

variable (vec act) in
/-- What a callback may do to the list: elements go, and new ones come at the end, with
numbers that no element has had. -/
structure Changes (keep : β → α → Bool) (nr : α → ℕ) (next : σ → ℕ) : Prop where
  split : ∀ s a b, ∃ added, vec (act s a b) = (vec s).filter (keep b) ++ added ∧
    added.Pairwise (fun x y => nr x < nr y) ∧
    ∀ x ∈ added, next s ≤ nr x ∧ nr x < next (act s a b)
  mono : ∀ s a b, next s ≤ next (act s a b)

variable (vec) in
/-- The elements have their numbers in order. -/
structure Numbered (nr : α → ℕ) (next : σ → ℕ) (s : σ) : Prop where
  sorted : (vec s).Pairwise fun x y => nr x < nr y
  bounded : ∀ x ∈ vec s, nr x < next s

variable {keep : β → α → Bool} {nr : α → ℕ} {next : σ → ℕ}

theorem Numbered.turn (hc : Changes vec act keep nr next) (h : Numbered vec nr next s) (a : α)
    (b : β) : Numbered vec nr next (act s a b) := by
  obtain ⟨added, hvec, hadded, hnr⟩ := hc.split s a b
  constructor
  · rw [hvec]
    refine List.pairwise_append.mpr ⟨h.sorted.filter _, hadded, fun x hx y hy => ?_⟩
    have hlt := h.bounded x (List.mem_filter.mp hx).1
    have hle := (hnr y hy).1
    omega
  · intro x hx
    rw [hvec] at hx
    rcases List.mem_append.mp hx with hx | hx
    · exact (h.bounded x (List.mem_filter.mp hx).1).trans_le (hc.mono s a b)
    · exact (hnr x hx).2

theorem drop_act {item : α} {later added : List α} {b : β} (hd : (vec s).drop i = item :: later)
    (hvec : vec (act s item b) = (vec s).filter (keep b) ++ added) :
    (vec (act s item b)).drop (i + 1) =
      (later.filter (keep b) ++ added).drop
        (Turn.gone keep ⟨(vec s).take i, item, later, b⟩) := by
  have hi : i < (vec s).length := by
    by_contra hle
    rw [List.drop_eq_nil_of_le (by omega)] at hd
    cases hd
  have hsplit : vec s = (vec s).take i ++ [item] ++ later := by
    rw [List.append_assoc, List.singleton_append, ← hd, List.take_append_drop]
  set before := (vec s).take i ++ [item] with hbefore
  have hlen : before.length = i + 1 := by
    rw [hbefore, List.length_append, List.length_take, List.length_singleton]
    omega
  have hcount : before.countP (keep b) + before.countP (fun x => !keep b x) = i + 1 := by
    rw [← hlen, List.length_eq_countP_add_countP (keep b)]
    simp
  have hgone : Turn.gone keep ⟨(vec s).take i, item, later, b⟩ =
    before.countP fun x => !keep b x := rfl
  have hkept : (before.filter (keep b)).length + before.countP (fun x => !keep b x) = i + 1 := by
    rw [← List.countP_eq_length_filter]
    exact hcount
  rw [hvec, hgone]
  conv_lhs => rw [hsplit, List.filter_append, List.append_assoc]
  rw [List.drop_append, List.drop_eq_nil_of_le (by omega), List.nil_append]
  congr 1
  omega

theorem mem_or_new (hc : Changes vec act keep nr next)
    (h : IndexLoop.loop vec act stop bs i s = some (ts, s', rest)) :
    ∀ t ∈ ts, ∀ x ∈ t.item :: t.later, x ∈ (vec s).drop i ∨ next s ≤ nr x := by
  refine loop_induct (P := fun i s ts _ _ _ =>
      ∀ t ∈ ts, ∀ x ∈ t.item :: t.later, x ∈ (vec s).drop i ∨ next s ≤ nr x)
    ?_ ?_ ?_ bs i s ts s' rest h
  · intro i s bs _ t ht
    cases ht
  · intro i s item later b bs hd _ t ht x hx
    rw [List.mem_singleton.mp ht] at hx
    rw [hd]
    exact .inl hx
  · intro i s item later b bs ts s' rest hd _ ih t ht x hx
    rcases List.mem_cons.mp ht with rfl | ht
    · rw [hd]
      exact .inl hx
    obtain ⟨added, hvec, -, hnr⟩ := hc.split s item b
    rcases ih t ht x hx with hmem | hnew
    · rw [drop_act hd hvec] at hmem
      rcases List.mem_append.mp (List.mem_of_mem_drop hmem) with hmem | hmem
      · rw [hd]
        exact .inl (List.mem_cons_of_mem _ (List.mem_filter.mp hmem).1)
      · exact .inr (hnr _ hmem).1
    · exact .inr ((hc.mono s item b).trans hnew)

theorem lt_of_passed (hc : Changes vec act keep nr next) (hs : Numbered vec nr next s)
    (h : IndexLoop.loop vec act stop bs i s = some (ts, s', rest)) {x : α}
    (hx : x ∈ (vec s).take i) : ∀ t ∈ ts, ∀ y ∈ t.item :: t.later, nr x < nr y := by
  intro t ht y hy
  rcases mem_or_new hc h t ht y hy with hmem | hnew
  · have hsorted := hs.sorted
    rw [← List.take_append_drop i (vec s)] at hsorted
    exact (List.pairwise_append.mp hsorted).2.2 x hx y hmem
  · exact (hs.bounded x (List.mem_of_mem_take hx)).trans_le hnew

theorem pairwise_items (hc : Changes vec act keep nr next) (hs : Numbered vec nr next s)
    (h : IndexLoop.loop vec act stop bs i s = some (ts, s', rest)) :
    ts.Pairwise fun t t' => nr t.item < nr t'.item := by
  revert hs h
  induction bs generalizing i s ts with
  | nil =>
    intro hs h
    rcases loop_cases h with ⟨_, rfl, -, -⟩ | ⟨_, _, _, _, _, hbs, _⟩
    · exact List.Pairwise.nil
    · cases hbs
  | cons b bs ih =>
    intro hs h
    rcases loop_cases h with ⟨_, rfl, -, -⟩ | ⟨item, later, b', bs', hd, hbs, hturn⟩
    · exact List.Pairwise.nil
    obtain ⟨rfl, rfl⟩ := List.cons.inj hbs
    rcases hturn with ⟨_, rfl, -, -⟩ | ⟨_, ts', rfl, hloop⟩
    · exact List.pairwise_singleton _ _
    refine List.Pairwise.cons (fun t ht => ?_) (ih (hs.turn hc item b) hloop)
    have hsorted : (item :: later).Pairwise fun x y => nr x < nr y := by
      rw [← hd]
      exact hs.sorted.sublist (List.drop_sublist _ _)
    have hitem : nr item < next s := by
      refine hs.bounded item (List.mem_of_mem_drop (i := i) ?_)
      rw [hd]
      exact List.mem_cons_self
    obtain ⟨added, hvec, -, hnr⟩ := hc.split s item b
    rcases mem_or_new hc hloop t ht t.item List.mem_cons_self with hmem | hnew
    · rw [drop_act hd hvec] at hmem
      rcases List.mem_append.mp (List.mem_of_mem_drop hmem) with hmem | hmem
      · exact List.rel_of_pairwise_cons hsorted (List.mem_filter.mp hmem).1
      · exact hitem.trans_le (hnr _ hmem).1
    · exact hitem.trans_le ((hc.mono s item b).trans hnew)

theorem Turn.mem_later_of_overtaken {t : Turn α β} {x : α} (h : x ∈ t.overtaken keep) :
    x ∈ t.later :=
  (List.mem_filter.mp (List.mem_of_mem_take h)).1

/-- **Met or overtaken**: an element from the index on that no callback takes out is met, or
the loop stops at one before it, exactly if it is overtaken in no turn. -/
theorem met_iff (hc : Changes vec act keep nr next) (hs : Numbered vec nr next s)
    (h : IndexLoop.loop vec act stop bs i s = some (ts, s', rest)) {x : α}
    (hx : x ∈ (vec s).drop i) (hk : ∀ t ∈ ts, keep t.callback x = true) :
    ((∃ t ∈ ts, t.item = x) ∨ ∃ t ∈ ts, stop t.callback = true ∧ nr t.item < nr x) ↔
      ∀ t ∈ ts, stop t.callback = false → x ∉ t.overtaken keep := by
  revert hs h hx hk
  induction bs generalizing i s ts with
  | nil =>
    intro hs h hx hk
    rcases loop_cases h with ⟨hd, -, -, -⟩ | ⟨_, _, _, _, _, hbs, _⟩
    · rw [hd] at hx
      cases hx
    · cases hbs
  | cons b bs ih =>
    intro hs h hx hk
    rcases loop_cases h with ⟨hd, -, -, -⟩ | ⟨item, later, b', bs', hd, hbs, hturn⟩
    · rw [hd] at hx
      cases hx
    obtain ⟨rfl, rfl⟩ := List.cons.inj hbs
    have hsorted : (item :: later).Pairwise fun x y => nr x < nr y := by
      rw [← hd]
      exact hs.sorted.sublist (List.drop_sublist _ _)
    rcases hturn with ⟨hb, rfl, -, -⟩ | ⟨hb, ts', rfl, hloop⟩
    · -- the loop stops here
      simp only [List.mem_singleton, exists_eq_left, forall_eq, hb]
      rw [hd] at hx
      refine iff_of_true ?_ fun hno => by (cases hno)
      rcases List.mem_cons.mp hx with rfl | hx
      · exact .inl rfl
      · exact .inr ⟨trivial, List.rel_of_pairwise_cons hsorted hx⟩
    · obtain ⟨hkb, hkts⟩ := List.forall_mem_cons.mp hk
      obtain ⟨added, hvec, -, hnr⟩ := hc.split s item b
      have hs' := hs.turn hc item b
      have hxs : nr x < next s := hs.bounded x (List.mem_of_mem_drop hx)
      have hmem' : x ∈ vec (act s item b) := by
        rw [hvec]
        exact List.mem_append_left _ (List.mem_filter.mpr ⟨List.mem_of_mem_drop hx, hkb⟩)
      set turn : Turn α β := ⟨(vec s).take i, item, later, b⟩ with hturn
      have hdrop := drop_act hd hvec
      -- an element that has been passed is not met any more, nor overtaken
      have hpassed : x ∉ (vec (act s item b)).drop (i + 1) →
          ∀ t ∈ ts', ∀ y ∈ t.item :: t.later, nr x < nr y := by
        intro hnot
        refine lt_of_passed hc hs' hloop ?_
        rw [← List.take_append_drop (i + 1) (vec (act s item b))] at hmem'
        exact (List.mem_append.mp hmem').resolve_right hnot
      rw [hd] at hx
      rcases List.mem_cons.mp hx with rfl | hlater
      · -- the element is met now
        have hnot : x ∉ later := fun hlater =>
          absurd (List.rel_of_pairwise_cons hsorted hlater) (lt_irrefl _)
        refine iff_of_true (.inl ⟨turn, List.mem_cons_self, rfl⟩) fun t ht _ hover => ?_
        rcases List.mem_cons.mp ht with rfl | ht
        · exact hnot (Turn.mem_later_of_overtaken hover)
        · have hlt := hpassed (fun hmem => ?_) t ht x
            (List.mem_cons_of_mem _ (Turn.mem_later_of_overtaken hover))
          · exact lt_irrefl _ hlt
          · rw [hdrop] at hmem
            rcases List.mem_append.mp (List.mem_of_mem_drop hmem) with hmem | hmem
            · exact hnot (List.mem_filter.mp hmem).1
            · have hle := (hnr x hmem).1
              omega
      · have hne : nr item < nr x := List.rel_of_pairwise_cons hsorted hlater
        have hkept : x ∈ later.filter (keep b) := List.mem_filter.mpr ⟨hlater, hkb⟩
        by_cases hover : x ∈ turn.overtaken keep
        · -- it is overtaken now, and never met
          have hnot : x ∉ (vec (act s item b)).drop (i + 1) := by
            rw [hdrop]
            intro hmem
            have hsort' : (later.filter (keep b) ++ added).Pairwise fun x y => nr x < nr y := by
              have hsub : (later.filter (keep b) ++ added).Sublist (vec (act s item b)) := by
                rw [hvec]
                refine List.Sublist.append (List.Sublist.filter _ ?_) (List.Sublist.refl _)
                have htail : later = (vec s).drop (i + 1) := by
                  rw [← List.tail_drop, hd, List.tail_cons]
                rw [htail]
                exact List.drop_sublist _ _
              exact hs'.sorted.sublist hsub
            rw [← List.take_append_drop (turn.gone keep) (later.filter (keep b) ++ added)]
              at hsort'
            have htake : x ∈ (later.filter (keep b) ++ added).take (turn.gone keep) := by
              rw [List.take_append]
              exact List.mem_append_left _ hover
            exact lt_irrefl _ ((List.pairwise_append.mp hsort').2.2 x htake x hmem)
          refine iff_of_false ?_ fun hall => hall turn List.mem_cons_self hb hover
          rintro (⟨t, ht, heq⟩ | ⟨t, ht, hst, hlt⟩)
          · rcases List.mem_cons.mp ht with rfl | ht
            · rw [← heq] at hne
              exact lt_irrefl _ hne
            · have hlt := hpassed hnot t ht t.item List.mem_cons_self
              rw [heq] at hlt
              exact lt_irrefl _ hlt
          · rcases List.mem_cons.mp ht with rfl | ht
            · rw [hb] at hst
              cases hst
            · exact lt_asymm hlt (hpassed hnot t ht t.item List.mem_cons_self)
        · -- it still comes
          have hnext : x ∈ (vec (act s item b)).drop (i + 1) := by
            rw [hdrop, List.drop_append]
            refine List.mem_append_left _ ?_
            rw [← List.take_append_drop (turn.gone keep) (later.filter (keep b))] at hkept
            exact (List.mem_append.mp hkept).resolve_left hover
          have hiff := ih hs' hloop hnext hkts
          constructor
          · rintro (⟨t, ht, heq⟩ | ⟨t, ht, hst, hlt⟩)
            · refine List.forall_mem_cons.mpr ⟨fun _ => hover, hiff.mp (.inl ⟨t, ?_, heq⟩)⟩
              rcases List.mem_cons.mp ht with rfl | ht
              · rw [← heq] at hne
                exact absurd hne (lt_irrefl _)
              · exact ht
            · refine List.forall_mem_cons.mpr ⟨fun _ => hover, hiff.mp (.inr ⟨t, ?_, hst, hlt⟩)⟩
              rcases List.mem_cons.mp ht with rfl | ht
              · rw [hb] at hst
                cases hst
              · exact ht
          · intro hall
            rcases hiff.mpr fun t ht => hall t (List.mem_cons_of_mem _ ht) with
              ⟨t, ht, heq⟩ | ⟨t, ht, hst⟩
            · exact .inl ⟨t, List.mem_cons_of_mem _ ht, heq⟩
            · exact .inr ⟨t, List.mem_cons_of_mem _ ht, hst⟩

end Loop

end Jingle.IndexLoop
