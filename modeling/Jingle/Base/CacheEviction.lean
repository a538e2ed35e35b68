/-
The order in which a disk cache forgets.

`CheckLimit` looks for the entry that was modified least recently.  Its scan starts at the
first entry that may go, but with the entry behind it as the oldest one so far, and it does
not pass over the locked entries that come later.

* **`leastRecent_iff`** — `CheckLimit` takes the least recently modified entries that may go
  out of the cache, and gives up only when none of them is left, just when its scan is
  `Sound` in the given cache and in every one that such evictions lead to.
* `not_leastRecent_single` — a cache with one entry, over its limit: the scan reads past the
  end of the map.
-/
import Mathlib.Data.List.MinMax
import Mathlib.Data.List.TakeWhile
import Jingle.Base.CacheAccounting

namespace Jingle.Base

namespace DiskCache

variable {ι : Type} [LinearOrder ι] {c d : DiskCache ι} {env : Env ι} {id : ι} {e : Entry}

/-! ### What the loop deletes -/

/-- An entry that `CheckLimit` deletes, and the cache in which it does so. -/
structure Eviction (ι : Type) [LinearOrder ι] where
  cache : DiskCache ι
  id : ι
  entry : Entry

/-- The loop of `CheckLimit` from a cache on: what it deletes, and what it returns. -/
inductive Loop (env : Env ι) :
    DiskCache ι → List (Eviction ι) → Option (Bool × DiskCache ι) → Prop
  | fits {c : DiskCache ι} (h : c.pass = .fits) : Loop env c [] (some (true, c))
  | allLocked {c : DiskCache ι} (h : c.pass = .allLocked) : Loop env c [] (some (false, c))
  | pastEnd {c : DiskCache ι} (h : c.pass = .pastEnd) : Loop env c [] none
  | refused {c : DiskCache ι} {id : ι} {e : Entry} (h : c.pass = .victim id) (hget : c.map_.get? id = some e)
      (he : ¬evictable e) : Loop env c [] (some (false, c))
  | failed {c d : DiskCache ι} {id : ι} {e : Entry} (h : c.pass = .victim id) (hget : c.map_.get? id = some e)
      (he : evictable e) (hdel : c.deleteResource env id = (false, d)) :
      Loop env c [⟨c, id, e⟩] (some (false, d))
  | next {c d : DiskCache ι} {id : ι} {e : Entry} {evicted : List (Eviction ι)}
      {r : Option (Bool × DiskCache ι)} (h : c.pass = .victim id)
      (hget : c.map_.get? id = some e) (he : evictable e) (hdel : c.deleteResource env id = (true, d))
      (hrest : Loop env d evicted r) : Loop env c (⟨c, id, e⟩ :: evicted) r

theorem deleteResource_refused (hget : c.map_.get? id = some e) (he : ¬evictable e) :
    c.deleteResource env id = (false, c) := by
  rw [deleteResource, hget]
  exact if_neg he

theorem loop_checkLimit (env : Env ι) (c : DiskCache ι) :
    ∃ evicted, Loop env c evicted (c.checkLimit env) := by
  induction hn : c.map_.entries.length using Nat.strong_induction_on generalizing c with
  | _ n ih =>
    rw [checkLimit_eq]
    rcases hpass : c.pass with _ | _ | _ | id
    · exact ⟨[], .fits hpass⟩
    · exact ⟨[], .allLocked hpass⟩
    · exact ⟨[], .pastEnd hpass⟩
    · obtain ⟨e, hget⟩ := get?_of_pass hpass
      dsimp only
      by_cases he : evictable e
      · by_cases hdel : (c.deleteResource env id).1 = true
        · have hlen := length_deleteResource hget hdel
          obtain ⟨evicted, hrest⟩ := ih _ (hn ▸ hlen) (c.deleteResource env id).2 rfl
          rw [if_pos hdel]
          exact ⟨_, .next hpass hget he (Prod.ext hdel rfl) hrest⟩
        · rw [if_neg hdel]
          exact ⟨_, .failed hpass hget he (Prod.ext (Bool.not_eq_true _ ▸ hdel) rfl)⟩
      · rw [deleteResource_refused hget he]
        exact ⟨[], .refused hpass hget he⟩

/-- What a deletion has to be: of an entry without users, in a cache over its limit, and none
that may go has been modified before it. -/
structure Eviction.Due (v : Eviction ι) : Prop where
  exceeds : v.cache.max_cache_ < v.cache.total_size_
  present : v.cache.map_.get? v.id = some v.entry
  unused : v.entry.lock_state = .unlocked ∧ v.entry.accessors = 0
  oldest : ∀ i f, v.cache.map_.get? i = some f → evictable f →
    v.entry.last_modified ≤ f.last_modified

/-- **What `CheckLimit` is for.** -/
structure Keeps (env : Env ι) (evicted : List (Eviction ι)) (r : Bool × DiskCache ι) : Prop where
  due : ∀ v ∈ evicted, v.Due
  sorted : evicted.Pairwise fun v w => v.entry.last_modified ≤ w.entry.last_modified
  fits : r.1 = true → r.2.total_size_ ≤ r.2.max_cache_
  /-- It gives up, its files having been deleted, when every entry is in use. -/
  in_use : r.1 = false → (∀ v ∈ evicted, (v.cache.deleteResource env v.id).1 = true) →
    ∀ i f, r.2.map_.get? i = some f → f.lock_state ≠ .unlocked ∨ 0 < f.accessors

/-- `CheckLimit` evicts what was modified least recently, and stays inside of the map. -/
def LeastRecent (env : Env ι) (c : DiskCache ι) : Prop :=
  ∃ evicted r, c.checkLimit env = some r ∧ Loop env c evicted (some r) ∧ Keeps env evicted r

/-! ### The scan -/

/-- The entries that the scan goes through; it has the second one before the first. -/
def scanned (c : DiskCache ι) : List (ι × Entry) :=
  match c.map_.entries.dropWhile fun e => !evictable e.2 with
  | first :: next :: rest => next :: first :: rest
  | l => l

/-- The scan prefers the one entry to the other. -/
def Before (c : DiskCache ι) (x y : ι × Entry) : Prop :=
  x.2.last_modified < y.2.last_modified ∨
    x.2.last_modified = y.2.last_modified ∧ c.scanned.idxOf x < c.scanned.idxOf y

/-- The entry that was modified least recently among those that may go. -/
structure FirstOut (c : DiskCache ι) (x : ι × Entry) : Prop where
  mem : x ∈ c.scanned
  evictable : evictable x.2
  first : ∀ y ∈ c.scanned, DiskCache.evictable y.2 → ¬c.Before y x

/-- **The condition of a pass**: within the limit, or there is an entry behind the first one
that may go, and every entry in use that the scan comes to is behind one that may go. -/
def Sound (c : DiskCache ι) : Prop :=
  c.max_cache_ < c.total_size_ → c.scanned.length ≠ 1 ∧
    ∀ y ∈ c.scanned, ¬evictable y.2 → ∃ x ∈ c.scanned, evictable x.2 ∧ c.Before x y

/-- A cache over its limit without the entry that was modified least recently. -/
def Forgets (env : Env ι) (c d : DiskCache ι) : Prop :=
  c.max_cache_ < c.total_size_ ∧ ∃ x, c.FirstOut x ∧ c.deleteResource env x.1 = (true, d)

theorem mem_scanned_iff {x : ι × Entry} :
    x ∈ c.scanned ↔ x ∈ c.map_.entries.dropWhile fun e => !evictable e.2 := by
  rw [scanned]
  split
  · rename_i first next rest heq
    rw [heq, List.mem_cons, List.mem_cons, List.mem_cons, List.mem_cons]
    exact or_left_comm
  · exact Iff.rfl

theorem get?_of_mem_scanned {x : ι × Entry} (hx : x ∈ c.scanned) :
    c.map_.get? x.1 = some x.2 :=
  SortedMap.get?_eq_some.2 ((List.dropWhile_sublist _).subset (mem_scanned_iff.1 hx))

theorem mem_scanned (hget : c.map_.get? id = some e) (he : evictable e) : (id, e) ∈ c.scanned := by
  have hmem := SortedMap.get?_eq_some.1 hget
  rw [← List.takeWhile_append_dropWhile (p := fun e => !evictable e.2) (l := c.map_.entries),
    List.mem_append] at hmem
  obtain hbefore | hmem := hmem
  · have hnot := List.mem_takeWhile_imp hbefore
    rw [he] at hnot
    cases hnot
  · exact mem_scanned_iff.2 hmem

omit [LinearOrder ι] in
theorem foldl_eq_argmin (es : List (ι × Entry)) (x : ι × Entry) :
    (x :: es).argmin (·.2.last_modified) = some (es.foldl (fun oldest it =>
      if it.2.last_modified < oldest.2.last_modified then it else oldest) x) := by
  rw [List.argmin, List.foldl_cons]
  change es.foldl _ (some x) = _
  induction es generalizing x with
  | nil => rfl
  | cons y es ih =>
    rw [List.foldl_cons, List.foldl_cons, ← ih]
    congr 1
    exact (apply_ite some _ _ _).symm

theorem pass_spec (hover : c.max_cache_ < c.total_size_) :
    match c.pass with
    | .fits => False
    | .allLocked => c.scanned = []
    | .pastEnd => c.scanned.length = 1
    | .victim id => ∃ v, v.1 = id ∧ v ∈ c.scanned.argmin (·.2.last_modified) ∧
        c.scanned.length ≠ 1 := by
  rw [pass, if_neg hover.not_ge, scanned]
  generalize c.map_.entries.dropWhile (fun e => !evictable e.2) = l
  rcases l with _ | ⟨first, _ | ⟨next, rest⟩⟩
  · rfl
  · rfl
  · refine ⟨_, rfl, ?_, by simp⟩
    dsimp only
    -- the entry that the scan begins with does not come before itself
    have hself : (if next.2.last_modified <
        (if first.2.last_modified < next.2.last_modified then first else next).2.last_modified
        then next else if first.2.last_modified < next.2.last_modified then first else next) =
        if first.2.last_modified < next.2.last_modified then first else next := by
      refine if_neg ?_
      split_ifs with hlt
      · omega
      · omega
    rw [foldl_eq_argmin, Option.mem_some_iff, List.foldl_cons, List.foldl_cons, List.foldl_cons,
      hself]

theorem argmin_spec {v : ι × Entry} (hv : v ∈ c.scanned.argmin (·.2.last_modified)) :
    v ∈ c.scanned ∧ ∀ y ∈ c.scanned, y ≠ v → c.Before v y := by
  obtain ⟨hmem, hle, hidx⟩ := List.mem_argmin_iff.1 hv
  refine ⟨hmem, fun y hy hne => ?_⟩
  obtain hlt | heq := (hle y hy).lt_or_eq
  · exact .inl hlt
  · refine .inr ⟨heq, lt_of_le_of_ne ?_ fun h => hne ?_⟩
    · have hinst : (instBEqProd : BEq (ι × Entry)) = instBEqOfDecidableEq :=
        lawful_beq_subsingleton _ _
      exact hinst ▸ hidx y hy heq.ge
    · exact ((List.idxOf_inj hmem).1 h).symm

theorem Before.not_symm {x y : ι × Entry} (h : c.Before x y) : ¬c.Before y x := by
  obtain h | h := h
  · rintro (h' | h')
    · omega
    · omega
  · rintro (h' | h')
    · omega
    · omega

theorem sound_iff {v : ι × Entry} (hv : v ∈ c.scanned.argmin (·.2.last_modified))
    (hover : c.max_cache_ < c.total_size_) (hlen : c.scanned.length ≠ 1) :
    c.Sound ↔ evictable v.2 := by
  obtain ⟨hmem, hbefore⟩ := argmin_spec hv
  constructor
  · intro hsound
    by_contra he
    obtain ⟨x, hx, hex, hxv⟩ := (hsound hover).2 v hmem he
    have hne : x ≠ v := fun heq => he (heq ▸ hex)
    exact (hbefore x hx hne).not_symm hxv
  · intro he _
    refine ⟨hlen, fun y hy hey => ⟨v, hmem, he, hbefore y hy fun heq => hey (heq ▸ he)⟩⟩

theorem firstOut_iff {v x : ι × Entry} (hv : v ∈ c.scanned.argmin (·.2.last_modified))
    (he : evictable v.2) : c.FirstOut x ↔ x = v := by
  obtain ⟨hmem, hbefore⟩ := argmin_spec hv
  constructor
  · intro h
    by_contra hne
    exact h.first v hmem he (hbefore x h.mem hne)
  · rintro rfl
    refine ⟨hmem, he, fun y hy _ hyx => ?_⟩
    obtain rfl | hne := eq_or_ne y x
    · obtain h | h := hyx
      · omega
      · omega
    · exact (hbefore y hy hne).not_symm hyx

theorem FirstOut.due {x : ι × Entry} (h : c.FirstOut x) (hover : c.max_cache_ < c.total_size_) :
    Eviction.Due ⟨c, x.1, x.2⟩ := by
  refine ⟨hover, get?_of_mem_scanned h.mem, of_decide_eq_true h.evictable, fun i f hget he => ?_⟩
  by_contra hlt
  exact h.first (i, f) (mem_scanned hget he) he (.inl (Nat.not_le.1 hlt))

/-! ### The loop -/

theorem not_evictable : ¬evictable e ↔ e.lock_state ≠ .unlocked ∨ 0 < e.accessors := by
  rw [evictable, decide_eq_true_iff, not_and_or, Nat.pos_iff_ne_zero]

theorem Loop.later {evicted : List (Eviction ι)} {r : Option (Bool × DiskCache ι)}
    (h : Loop env c evicted r) : ∀ v ∈ evicted, evictable v.entry ∧
      c.map_.get? v.id = some v.entry := by
  induction h with
  | fits h => exact fun v hv => absurd hv List.not_mem_nil
  | allLocked h => exact fun v hv => absurd hv List.not_mem_nil
  | pastEnd h => exact fun v hv => absurd hv List.not_mem_nil
  | refused h hget he => exact fun v hv => absurd hv List.not_mem_nil
  | failed h hget he hdel =>
    intro v hv
    obtain rfl := List.mem_singleton.1 hv
    exact ⟨he, hget⟩
  | next h hget he hdel hrest ih =>
    intro v hv
    obtain rfl | hv := List.mem_cons.1 hv
    · exact ⟨he, hget⟩
    · obtain ⟨hev, hgetv⟩ := ih v hv
      have hmap := congrArg (fun r => r.2.map_) hdel
      rw [deleteResource_of_evictable hget he] at hmap
      dsimp only at hmap
      rw [← hmap] at hgetv
      exact ⟨hev, (SortedMap.get?_of_get?_erase hgetv).2⟩

/-- The scan is sound wherever the evictions lead. -/
def SoundAll (env : Env ι) (c : DiskCache ι) : Prop :=
  ∀ d, Relation.ReflTransGen (Forgets env) c d → d.Sound

theorem in_use_of_scanned (h : c.scanned = []) (hget : c.map_.get? id = some e) :
    e.lock_state ≠ .unlocked ∨ 0 < e.accessors :=
  not_evictable.1 fun he => List.not_mem_nil (h ▸ mem_scanned hget he)

theorem Sound.pass (h : c.Sound) :
    match c.pass with
    | .fits => c.total_size_ ≤ c.max_cache_
    | .allLocked => c.scanned = []
    | .pastEnd => False
    | .victim id => ∃ x, x.1 = id ∧ c.FirstOut x ∧ c.max_cache_ < c.total_size_ := by
  by_cases hover : c.max_cache_ < c.total_size_
  · have hspec := pass_spec hover
    cases hpass : c.pass with
    | fits => simp only [hpass] at hspec
    | allLocked => simpa only [hpass] using hspec
    | pastEnd =>
      simp only [hpass] at hspec
      exact (h hover).1 hspec
    | victim id =>
      simp only [hpass] at hspec ⊢
      obtain ⟨v, hid, hv, hlen⟩ := hspec
      have he := (sound_iff hv hover hlen).1 h
      exact ⟨v, hid, (firstOut_iff hv he).2 rfl, hover⟩
  · rw [DiskCache.pass, if_pos (Nat.not_lt.1 hover)]
    exact Nat.not_lt.1 hover

theorem Loop.keeps {evicted : List (Eviction ι)} {o : Option (Bool × DiskCache ι)}
    (h : Loop env c evicted o) (hsound : SoundAll env c) : ∃ r, o = some r ∧ Keeps env evicted r := by
  induction h with
  | @fits c hpass =>
    refine ⟨_, rfl, fun v hv => absurd hv List.not_mem_nil, .nil, fun _ => ?_,
      fun h => absurd h Bool.true_eq_false_eq_False⟩
    have hspec := (hsound c .refl).pass
    rwa [hpass] at hspec
  | @allLocked c hpass =>
    refine ⟨_, rfl, fun v hv => absurd hv List.not_mem_nil, .nil,
      fun h => absurd h Bool.false_ne_true, fun _ _ i f hget => ?_⟩
    have hspec := (hsound c .refl).pass
    rw [hpass] at hspec
    exact in_use_of_scanned hspec hget
  | @pastEnd c hpass =>
    have hspec := (hsound c .refl).pass
    rw [hpass] at hspec
    exact hspec.elim
  | @refused c id e hpass hget he =>
    have hspec := (hsound c .refl).pass
    rw [hpass] at hspec
    obtain ⟨x, rfl, hfirst, -⟩ := hspec
    obtain rfl := Option.some.inj (hget.symm.trans (get?_of_mem_scanned hfirst.mem))
    exact absurd hfirst.evictable he
  | @failed c d id e hpass hget he hdel =>
    have hspec := (hsound c .refl).pass
    rw [hpass] at hspec
    obtain ⟨x, rfl, hfirst, hover⟩ := hspec
    obtain rfl := Option.some.inj (hget.symm.trans (get?_of_mem_scanned hfirst.mem))
    refine ⟨_, rfl, fun v hv => ?_, List.pairwise_singleton _ _,
      fun h => absurd h Bool.false_ne_true, fun _ hall => ?_⟩
    · obtain rfl := List.mem_singleton.1 hv
      exact hfirst.due hover
    · have hdone := hall _ (List.mem_singleton_self _)
      rw [hdel] at hdone
      cases hdone
  | @next c d id e evicted o hpass hget he hdel hrest ih =>
    have hspec := (hsound c .refl).pass
    rw [hpass] at hspec
    obtain ⟨x, rfl, hfirst, hover⟩ := hspec
    obtain rfl := Option.some.inj (hget.symm.trans (get?_of_mem_scanned hfirst.mem))
    have hdue := hfirst.due hover
    have hforgets : Forgets env c d := ⟨hover, x, hfirst, hdel⟩
    obtain ⟨r, rfl, hkeeps⟩ := ih fun b hb => hsound b (.head hforgets hb)
    refine ⟨r, rfl, fun v hv => ?_, List.pairwise_cons.2 ⟨fun v hv => ?_, hkeeps.sorted⟩,
      hkeeps.fits, fun hfalse hall => hkeeps.in_use hfalse fun v hv => hall v (.tail _ hv)⟩
    · obtain rfl | hv := List.mem_cons.1 hv
      · exact hdue
      · exact hkeeps.due v hv
    · -- it was in this cache already, and it may go
      have hmap := congrArg (fun r => r.2.map_) hdel
      rw [deleteResource_of_evictable hget he] at hmap
      obtain ⟨hev, hgetv⟩ := hrest.later v hv
      dsimp only at hmap
      rw [← hmap] at hgetv
      exact hdue.oldest v.id v.entry (SortedMap.get?_of_get?_erase hgetv).2 hev

theorem exists_evictable (h : c.scanned ≠ []) : ∃ x ∈ c.scanned, evictable x.2 := by
  rcases hdrop : c.map_.entries.dropWhile fun e => !evictable e.2 with _ | ⟨first, rest⟩
  · rw [scanned, hdrop] at h
    exact absurd rfl h
  · have hfirst := List.head_dropWhile_not (fun e : ι × Entry => !evictable e.2)
      (l := c.map_.entries) (by simp [hdrop])
    refine ⟨first, mem_scanned_iff.2 (hdrop ▸ List.mem_cons_self), ?_⟩
    simpa [hdrop] using hfirst

theorem sound_of_victim (env : Env ι) (hpass : c.pass = .victim id) (hget : c.map_.get? id = some e)
    (he : evictable e) : c.Sound ∧ ∀ b, Forgets env c b → c.deleteResource env id = (true, b) := by
  have hover : c.max_cache_ < c.total_size_ := by
    by_contra hfits
    rw [pass, if_pos (Nat.not_lt.1 hfits)] at hpass
    cases hpass
  have hspec := pass_spec hover
  rw [hpass] at hspec
  obtain ⟨v, rfl, hv, hlen⟩ := hspec
  obtain rfl := Option.some.inj (hget.symm.trans (get?_of_mem_scanned (argmin_spec hv).1))
  refine ⟨(sound_iff hv hover hlen).2 he, ?_⟩
  rintro b ⟨-, x, hfirst, hdel⟩
  obtain rfl := (firstOut_iff hv he).1 hfirst
  exact hdel

theorem Loop.sound {evicted : List (Eviction ι)} {o : Option (Bool × DiskCache ι)}
    (h : Loop env c evicted o) {r : Bool × DiskCache ι} (ho : o = some r)
    (hkeeps : Keeps env evicted r) : SoundAll env c := by
  induction h with
  | @fits c hpass =>
    obtain rfl := Option.some.inj ho
    have hle := hkeeps.fits rfl
    intro d hd
    obtain rfl | ⟨b, ⟨hover, -⟩, -⟩ := Relation.ReflTransGen.cases_head hd
    · exact fun hover => absurd hle hover.not_ge
    · exact absurd hle hover.not_ge
  | @allLocked c hpass =>
    have hnil : c.max_cache_ < c.total_size_ → c.scanned = [] := by
      intro hover
      have hspec := pass_spec hover
      rwa [hpass] at hspec
    intro d hd
    obtain rfl | ⟨b, ⟨hover, x, hfirst, -⟩, -⟩ := Relation.ReflTransGen.cases_head hd
    · intro hover
      rw [hnil hover]
      exact ⟨by simp, fun y hy => absurd hy List.not_mem_nil⟩
    · exact absurd (hnil hover ▸ hfirst.mem) List.not_mem_nil
  | @pastEnd c hpass => cases ho
  | @refused c id e hpass hget he =>
    obtain rfl := Option.some.inj ho
    have huse := hkeeps.in_use rfl fun v hv => absurd hv List.not_mem_nil
    -- the scan has begun at an entry that may go
    have hnone : c.scanned = [] := by
      by_contra hne
      obtain ⟨x, hx, hex⟩ := exists_evictable hne
      exact not_evictable.2 (huse x.1 x.2 (get?_of_mem_scanned hx)) hex
    obtain ⟨x, hx, rfl⟩ : ∃ x ∈ c.scanned, x.1 = id := by
      rw [pass] at hpass
      split_ifs at hpass
      obtain ⟨x, hx, hid⟩ := oldest_mem hpass
      exact ⟨x, mem_scanned_iff.2 hx, hid⟩
    exact absurd (hnone ▸ hx) List.not_mem_nil
  | @failed c d id e hpass hget he hdel =>
    obtain ⟨hsound, hforgets⟩ := sound_of_victim env hpass hget he
    intro b hb
    obtain rfl | ⟨b, hforget, -⟩ := Relation.ReflTransGen.cases_head hb
    · exact hsound
    · exact absurd (hdel.symm.trans (hforgets b hforget)) (by simp)
  | @next c d id e evicted o hpass hget he hdel hrest ih =>
    obtain ⟨hsound, hforgets⟩ := sound_of_victim env hpass hget he
    have hlater : Keeps env evicted r := by
      refine ⟨fun v hv => hkeeps.due v (.tail _ hv), (List.pairwise_cons.1 hkeeps.sorted).2,
        hkeeps.fits, fun hfalse hall => hkeeps.in_use hfalse fun v hv => ?_⟩
      obtain rfl | hv := List.mem_cons.1 hv
      · exact congrArg Prod.fst hdel
      · exact hall v hv
    intro b hb
    obtain rfl | ⟨d', hforget, hrest⟩ := Relation.ReflTransGen.cases_head hb
    · exact hsound
    · obtain ⟨-, rfl⟩ := Prod.mk.inj (hdel.symm.trans (hforgets d' hforget))
      exact ih ho hlater b hrest

/-- **Eviction is of what was modified least recently.** -/
theorem leastRecent_iff (env : Env ι) (c : DiskCache ι) : LeastRecent env c ↔ SoundAll env c := by
  constructor
  · rintro ⟨evicted, r, -, hloop, hkeeps⟩
    exact hloop.sound rfl hkeeps
  · intro hsound
    obtain ⟨evicted, hloop⟩ := loop_checkLimit env c
    obtain ⟨r, hr, hkeeps⟩ := hloop.keeps hsound
    exact ⟨evicted, r, hr, hr ▸ hloop, hkeeps⟩

/-- A cache of one byte with an entry of two. -/
def overfull : DiskCache (List (Fin 256)) :=
  { fresh _ 1 with
    total_size_ := 2
    map_ := SortedMap.empty.insert [97] ⟨.unlocked, 0, 2, 1, 1⟩
    files := Function.update (fun _ => .empty) [97] (SortedMap.empty.insert 0 2) }

/-- **The only entry** of a cache over its limit is not evicted. -/
theorem not_leastRecent_single :
    ¬∀ (env : Env (List (Fin 256))) (c : DiskCache (List (Fin 256))), LeastRecent env c := by
  intro h
  obtain ⟨evicted, r, hr, -⟩ := h (calm _ 0) overfull
  have hnone : (overfull.checkLimit (calm _ 0)).isNone := by decide +kernel
  rw [hr] at hnone
  cases hnone

/-- A locked entry behind the first one that may go, and modified before it. -/
example : ((({ overfull with
    map_ := overfull.map_.insert [98] ⟨.locked, 0, 0, 0, 0⟩ } : DiskCache _).checkLimit
      (calm _ 0)).map fun r => (r.1, r.2.total_size_)) = some (false, 2) := by
  decide +kernel

end DiskCache

end Jingle.Base
