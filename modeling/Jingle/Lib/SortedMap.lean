/-
Maps kept in the order of their keys.

A `SortedMap` is the list that a walk through a `std::map` visits, with the proof that its
keys increase.  `insert` puts one value in the place of the key, `erase` takes the key out,
and `total` adds up a weight of the entries.  The sums of a map change at one key:

* `total_of_get?` — a sum is the rest and the weight of one entry;
* `total_insert` — **an insertion replaces that weight**, and the rest stays what it was.
-/
import Mathlib.Tactic
import Mathlib.Order.Lattice
import Mathlib.Data.List.Pairwise

namespace Jingle

structure SortedMap (κ ν : Type) [LinearOrder κ] where
  entries : List (κ × ν)
  sorted : entries.Pairwise fun a b => a.1 < b.1

namespace SortedMap

variable {κ ν : Type} [LinearOrder κ] {m : SortedMap κ ν} {k k' : κ} {v v' : ν}

theorem ext {m m' : SortedMap κ ν} (h : m.entries = m'.entries) : m = m' := by
  cases m
  cases m'
  cases h
  rfl

def empty : SortedMap κ ν := ⟨[], List.Pairwise.nil⟩

def get? (m : SortedMap κ ν) (k : κ) : Option ν := (m.entries.find? fun e => e.1 = k).map (·.2)

def erase (m : SortedMap κ ν) (k : κ) : SortedMap κ ν where
  entries := m.entries.filter fun e => e.1 ≠ k
  sorted := m.sorted.filter _

def insert (m : SortedMap κ ν) (k : κ) (v : ν) : SortedMap κ ν where
  entries := (m.entries.filter fun e => e.1 < k) ++ (k, v) :: m.entries.filter fun e => k < e.1
  sorted := by
    have hlt : ∀ e ∈ m.entries.filter (fun e => e.1 < k), e.1 < k := by simp
    have hgt : ∀ e ∈ m.entries.filter (fun e => k < e.1), k < e.1 := by simp
    rw [List.pairwise_append, List.pairwise_cons]
    refine ⟨m.sorted.filter _, ⟨hgt, m.sorted.filter _⟩, fun a ha b hb => ?_⟩
    obtain rfl | hb := List.mem_cons.1 hb
    · exact hlt a ha
    · exact (hlt a ha).trans (hgt b hb)

/-- The entries that `p` accepts. -/
def filter (m : SortedMap κ ν) (p : κ → ν → Bool) : SortedMap κ ν where
  entries := m.entries.filter fun e => p e.1 e.2
  sorted := m.sorted.filter _

/-- The sum of a weight of the entries. -/
def total (m : SortedMap κ ν) (w : κ → ν → ℕ) : ℕ := (m.entries.map fun e => w e.1 e.2).sum

/-! ### Lookup -/

private theorem find?_of_mem {l : List (κ × ν)} (hpw : l.Pairwise fun a b => a.1 < b.1)
    (h : (k, v) ∈ l) : l.find? (fun e => e.1 = k) = some (k, v) := by
  induction l with
  | nil => cases h
  | cons e es ih =>
    rw [List.pairwise_cons] at hpw
    obtain rfl | h := List.mem_cons.1 h
    · simp
    · have hne : e.1 ≠ k := (hpw.1 _ h).ne
      rw [List.find?_cons_of_neg (by simpa using hne)]
      exact ih hpw.2 h

theorem get?_eq_some : m.get? k = some v ↔ (k, v) ∈ m.entries := by
  constructor
  · intro h
    obtain ⟨e, he, rfl⟩ := Option.map_eq_some_iff.1 h
    obtain rfl : e.1 = k := by simpa using List.find?_some he
    exact List.mem_of_find?_eq_some he
  · intro h
    rw [get?, find?_of_mem m.sorted h]
    rfl

theorem get?_congr {m' : SortedMap κ ν} (h : ∀ v, (k, v) ∈ m.entries ↔ (k, v) ∈ m'.entries) :
    m.get? k = m'.get? k := by
  refine Option.ext fun v => ?_
  rw [get?_eq_some, get?_eq_some, h]

@[simp] theorem get?_empty : (empty : SortedMap κ ν).get? k = none := rfl

@[simp] theorem get?_insert_self : (m.insert k v).get? k = some v :=
  get?_eq_some.2 (by simp [insert])

theorem get?_insert_of_ne (h : k' ≠ k) : (m.insert k v).get? k' = m.get? k' := by
  refine get?_congr fun v' => ?_
  simp only [insert, List.mem_append, List.mem_cons, List.mem_filter, decide_eq_true_eq,
    Prod.mk.injEq]
  constructor
  · rintro (⟨hmem, -⟩ | ⟨heq, -⟩ | ⟨hmem, -⟩)
    · exact hmem
    · exact absurd heq h
    · exact hmem
  · intro hmem
    obtain hlt | hgt := lt_or_gt_of_ne h
    · exact .inl ⟨hmem, hlt⟩
    · exact .inr (.inr ⟨hmem, hgt⟩)

@[simp] theorem get?_erase_self : (m.erase k).get? k = none := by
  rw [Option.eq_none_iff_forall_ne_some]
  intro v h
  rw [get?_eq_some, erase, List.mem_filter] at h
  simp at h

theorem get?_erase_of_ne (h : k' ≠ k) : (m.erase k).get? k' = m.get? k' :=
  get?_congr fun v' => by simp [erase, h]

theorem get?_of_get?_erase (h : (m.erase k).get? k' = some v) : k' ≠ k ∧ m.get? k' = some v := by
  obtain rfl | hne := eq_or_ne k' k
  · rw [get?_erase_self] at h
    cases h
  · exact ⟨hne, get?_erase_of_ne hne ▸ h⟩

/-! ### Sizes -/

theorem erase_of_get?_eq_none (h : m.get? k = none) : m.erase k = m := by
  refine ext (List.filter_eq_self.2 fun e he => ?_)
  simp only [ne_eq, decide_not, Bool.not_eq_eq_eq_not, Bool.not_true, decide_eq_false_iff_not]
  rintro rfl
  rw [get?_eq_some.2 he] at h
  cases h

theorem length_erase_lt (h : m.get? k = some v) :
    (m.erase k).entries.length < m.entries.length := by
  refine List.length_filter_lt_length_iff_exists.2 ⟨(k, v), get?_eq_some.1 h, ?_⟩
  simp

/-! ### Sums -/

@[simp] theorem total_empty (w : κ → ν → ℕ) : (empty : SortedMap κ ν).total w = 0 := rfl

theorem total_congr {w w' : κ → ν → ℕ} (h : ∀ k v, m.get? k = some v → w k v = w' k v) :
    m.total w = m.total w' := by
  rw [total, total]
  congr 1
  refine List.map_congr_left fun e he => h e.1 e.2 ?_
  exact get?_eq_some.2 he

theorem total_erase_congr {w w' : κ → ν → ℕ} (h : ∀ k' v, k' ≠ k → w k' v = w' k' v) :
    (m.erase k).total w = (m.erase k).total w' :=
  total_congr fun k' v hget => h k' v (get?_of_get?_erase hget).1

theorem total_filter (p : κ → ν → Bool) (w : κ → ν → ℕ) :
    (m.filter p).total w = m.total fun k v => if p k v then w k v else 0 := by
  show ((m.entries.filter fun e => p e.1 e.2).map _).sum = (m.entries.map _).sum
  induction m.entries with
  | nil => rfl
  | cons e es ih =>
    rw [List.map_cons, List.sum_cons, ← ih, List.filter_cons]
    dsimp only
    split_ifs with hp
    · rw [List.map_cons, List.sum_cons]
    · rw [zero_add]

private theorem filter_ne {l : List (κ × ν)} (h : l.Pairwise fun a b => a.1 < b.1) :
    (l.filter fun e => e.1 ≠ k) = (l.filter fun e => e.1 < k) ++ l.filter fun e => k < e.1 := by
  induction l with
  | nil => rfl
  | cons e es ih =>
    rw [List.pairwise_cons] at h
    have hrest := ih h.2
    obtain hlt | heq | hgt := lt_trichotomy e.1 k
    · rw [List.filter_cons_of_pos (by simp [hlt.ne]), List.filter_cons_of_pos (by simpa),
        List.filter_cons_of_neg (by simp [hlt.le]), hrest, List.cons_append]
    · rw [List.filter_cons_of_neg (by simp [heq]), List.filter_cons_of_neg (by simp [heq]),
        List.filter_cons_of_neg (by simp [heq]), hrest]
    · -- everything behind a greater key is greater
      have hnil : es.filter (fun e => e.1 < k) = [] := by
        refine List.filter_eq_nil_iff.2 fun a ha => ?_
        simpa using (hgt.trans (h.1 a ha)).le
      rw [hnil, List.nil_append] at hrest
      rw [List.filter_cons_of_pos (by simp [hgt.ne']), List.filter_cons_of_neg (by simp [hgt.le]),
        List.filter_cons_of_pos (by simpa), hnil, hrest, List.nil_append]

theorem entries_erase : (m.erase k).entries =
    (m.entries.filter fun e => e.1 < k) ++ m.entries.filter fun e => k < e.1 :=
  filter_ne m.sorted

theorem total_insert (w : κ → ν → ℕ) : (m.insert k v).total w = (m.erase k).total w + w k v := by
  rw [total, total, entries_erase]
  simp only [insert, List.map_append, List.map_cons, List.sum_append, List.sum_cons]
  omega

theorem insert_of_get? (h : m.get? k = some v) : m.insert k v = m := by
  have hperm : (m.insert k v).entries.Perm m.entries := by
    refine (List.perm_ext_iff_of_nodup ?_ ?_).2 fun e => ?_
    · exact (m.insert k v).sorted.imp fun hab heq => (heq ▸ hab).false
    · exact m.sorted.imp fun hab heq => (heq ▸ hab).false
    · rw [← Prod.mk.eta (p := e), ← get?_eq_some, ← get?_eq_some]
      obtain heq | hne := eq_or_ne e.1 k
      · rw [heq, get?_insert_self, h]
      · rw [get?_insert_of_ne hne]
  refine ext (hperm.eq_of_pairwise (fun a b _ _ hab hba => ?_) (m.insert k v).sorted m.sorted)
  exact absurd hab hba.not_gt

theorem total_of_get? (w : κ → ν → ℕ) (h : m.get? k = some v) :
    m.total w = (m.erase k).total w + w k v := by
  rw [← total_insert, insert_of_get? h]

@[simp] theorem erase_insert : (m.insert k v).erase k = m.erase k := by
  refine ext ?_
  simp only [erase, insert, List.filter_append, List.filter_filter]
  have hlt : ∀ e : κ × ν, (decide (e.1 ≠ k) && decide (e.1 < k)) = decide (e.1 < k) := by
    intro e
    obtain h | h := Decidable.em (e.1 < k)
    · simp [h, h.ne]
    · simp [h]
  have hgt : ∀ e : κ × ν, (decide (e.1 ≠ k) && decide (k < e.1)) = decide (k < e.1) := by
    intro e
    obtain h | h := Decidable.em (k < e.1)
    · simp [h, h.ne']
    · simp [h]
  rw [List.filter_cons_of_neg (by simp), List.filter_filter]
  simp only [hlt, hgt]
  exact entries_erase.symm

end SortedMap

end Jingle
