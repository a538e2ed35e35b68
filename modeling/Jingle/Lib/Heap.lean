/-
Binary heaps in an array.

The children of position `k` are `2 * k + 1` and `2 * k + 2`.  `lt` is the
comparison of the elements, of which only a strict weak order is asked; a heap has
no child greater than its parent, so the greatest element is in front.

An element that is out of place is sifted up or down; `UpTo` and `DownFrom` say
which pairs are still in order while it moves.  `push`, `pop` and `makeHeap` give
heaps again (`push_isHeap`, `pop_isHeap`, `makeHeap_isHeap`) with the same elements
(`push_perm`, `pop_perm`, `makeHeap_perm`), and `drain` takes them out in order.
-/
import Mathlib.Tactic

namespace Jingle.Heap

variable {α : Type}

/-! ### The algorithms -/

/-- The element at `k` changes places with its parent as long as it is greater. -/
def siftUp (lt : α → α → Bool) : ℕ → Array α → ℕ → Array α
  | 0, a, _ => a
  | fuel + 1, a, k =>
    if h : 0 < k ∧ k < a.size then
      if lt a[(k - 1) / 2] a[k] then siftUp lt fuel (a.swap ((k - 1) / 2) k) ((k - 1) / 2) else a
    else a

/-- The greater one of two positions; `j` may be out of bounds. -/
def greater (lt : α → α → Bool) (a : Array α) (i j : ℕ) : ℕ :=
  if h : i < a.size ∧ j < a.size then if lt a[i] a[j] then j else i else i

/-- The greatest of the position and its children. -/
def greatest (lt : α → α → Bool) (a : Array α) (k : ℕ) : ℕ :=
  greater lt a (greater lt a k (2 * k + 1)) (2 * k + 2)

/-- The element at `k` changes places with its greater child as long as that is
greater than it. -/
def siftDown (lt : α → α → Bool) : ℕ → Array α → ℕ → Array α
  | 0, a, _ => a
  | fuel + 1, a, k =>
    if h : greatest lt a k ≠ k ∧ greatest lt a k < a.size ∧ k < a.size then
      siftDown lt fuel (a.swap k (greatest lt a k)) (greatest lt a k)
    else a

/-- `push_heap`. -/
def push (lt : α → α → Bool) (a : Array α) (x : α) : Array α := siftUp lt a.size (a.push x) a.size

/-- `pop_heap`, and the element is removed. -/
def pop (lt : α → α → Bool) (a : Array α) : Array α :=
  if h : 0 < a.size then siftDown lt a.size (a.swap 0 (a.size - 1)).pop 0 else a

/-- The elements below a position are sifted down, the last one first. -/
def heapify (lt : α → α → Bool) : ℕ → Array α → Array α
  | 0, a => a
  | k + 1, a => heapify lt k (siftDown lt a.size a k)

def makeHeap (lt : α → α → Bool) (a : Array α) : Array α := heapify lt (a.size / 2) a

/-- All elements, taken from the front one by one. -/
def drain (lt : α → α → Bool) : ℕ → Array α → List α
  | 0, _ => []
  | fuel + 1, a => if h : 0 < a.size then a[0] :: drain lt fuel (pop lt a) else []

/-! ### Orders and heaps -/

/-- A strict weak order. -/
structure StrictWeak (lt : α → α → Bool) : Prop where
  asymm : ∀ a b, lt a b = true → lt b a = false
  trans : ∀ a b c, lt b a = false → lt c b = false → lt c a = false

/-- No child is greater than its parent, for parents from `lo` on. -/
def Ordered (lt : α → α → Bool) (lo : ℕ) (a : Array α) : Prop :=
  ∀ i (_ : 0 < i) (_ : i < a.size), lo ≤ (i - 1) / 2 → lt a[(i - 1) / 2] a[i] = false

/-- A heap. -/
def IsHeap (lt : α → α → Bool) (a : Array α) : Prop := Ordered lt 0 a

/-- All pairs are in order but that of `k` and its parent; and the children of `k`
are not greater than that parent. -/
structure UpTo (lt : α → α → Bool) (a : Array α) (k : ℕ) : Prop where
  pairs : ∀ i (_ : 0 < i) (_ : i < a.size), i ≠ k → lt a[(i - 1) / 2] a[i] = false
  grand : ∀ i (_ : 0 < i) (_ : i < a.size), (i - 1) / 2 = k → 0 < k →
    lt a[((i - 1) / 2 - 1) / 2] a[i] = false

/-- All pairs with parents from `lo` on are in order but those of `k` and its
children; and these are not greater than the parent of `k`. -/
structure DownFrom (lt : α → α → Bool) (lo : ℕ) (a : Array α) (k : ℕ) : Prop where
  pairs : ∀ i (_ : 0 < i) (_ : i < a.size), lo ≤ (i - 1) / 2 → (i - 1) / 2 ≠ k →
    lt a[(i - 1) / 2] a[i] = false
  grand : ∀ i (_ : 0 < i) (_ : i < a.size), (i - 1) / 2 = k → 0 < k → lo ≤ (k - 1) / 2 →
    lt a[((i - 1) / 2 - 1) / 2] a[i] = false

variable {lt : α → α → Bool} {a : Array α}

theorem StrictWeak.irrefl (hlt : StrictWeak lt) (x : α) : lt x x = false := by
  rcases h : lt x x with _ | _
  · rfl
  · rw [← h, hlt.asymm x x h]

/-! ### Sifting up -/

theorem UpTo.swap (hlt : StrictWeak lt) {k : ℕ} (h : UpTo lt a k) (h0 : 0 < k)
    (hk : k < a.size) (hless : lt a[(k - 1) / 2] a[k] = true) :
    UpTo lt (a.swap ((k - 1) / 2) k) ((k - 1) / 2) := by
  have hp : (k - 1) / 2 < k := by omega
  constructor
  · intro i hi0 hi hne
    rw [Array.size_swap] at hi
    have h1 := h.pairs i hi0 hi
    have h2 := h.grand i hi0 hi
    simp only [Array.getElem_swap, if_neg hne]
    by_cases hik : i = k
    · subst hik
      simp only [if_true]
      exact hlt.asymm _ _ hless
    · rw [if_neg hik]
      split_ifs with h3 h4
      · -- a sibling
        have hsib := h1 hik
        simp only [h3] at hsib
        exact hlt.trans _ _ _ hsib (hlt.asymm _ _ hless)
      · simpa only [h4] using h2 h4 h0
      · exact h1 hik
  · intro i hi0 hi hpar hpos
    rw [Array.size_swap] at hi
    have hpk := h.pairs ((k - 1) / 2) hpos (by omega) (by omega)
    have hne : ((k - 1) / 2 - 1) / 2 ≠ (k - 1) / 2 ∧ ((k - 1) / 2 - 1) / 2 ≠ k := by omega
    have hine : i ≠ (k - 1) / 2 := by omega
    simp only [Array.getElem_swap, if_neg hine, hpar, if_neg hne.1, if_neg hne.2]
    split_ifs with h3
    · exact hpk
    · have hi' := h.pairs i hi0 hi h3
      simp only [hpar] at hi'
      exact hlt.trans _ _ _ hi' hpk

theorem UpTo.isHeap {k : ℕ} (h : UpTo lt a k)
    (hlast : ∀ (_ : 0 < k) (_ : k < a.size), lt a[(k - 1) / 2] a[k] = false) : IsHeap lt a := by
  intro i hi0 hi _
  by_cases hik : i = k
  · subst hik
    exact hlast hi0 hi
  · exact h.pairs i hi0 hi hik

theorem siftUp_isHeap (hlt : StrictWeak lt) {fuel k : ℕ} (hfuel : k ≤ fuel) (h : UpTo lt a k) :
    IsHeap lt (siftUp lt fuel a k) := by
  induction fuel generalizing a k with
  | zero => exact h.isHeap fun h0 _ => absurd h0 (by omega)
  | succ fuel ih =>
    rw [siftUp]
    split_ifs with hk hless
    · exact ih (by omega) (h.swap hlt hk.1 hk.2 hless)
    · exact h.isHeap fun _ _ => by simpa using hless
    · exact h.isHeap fun h0 hk' => absurd ⟨h0, hk'⟩ hk

theorem siftUp_perm (lt : α → α → Bool) (fuel : ℕ) (a : Array α) (k : ℕ) :
    (siftUp lt fuel a k).toList.Perm a.toList := by
  induction fuel generalizing a k with
  | zero => exact .refl _
  | succ fuel ih =>
    rw [siftUp]
    split_ifs
    · exact (ih _ _).trans (Array.swap_perm _ _).toList
    · exact .refl _
    · exact .refl _

theorem push_isHeap (hlt : StrictWeak lt) (h : IsHeap lt a) (x : α) : IsHeap lt (push lt a x) := by
  refine siftUp_isHeap hlt le_rfl ⟨fun i hi0 hi hne => ?_, fun i hi0 hi hpar _ => ?_⟩
  · rw [Array.size_push] at hi
    rw [Array.getElem_push_lt (by omega), Array.getElem_push_lt (by omega)]
    exact h i hi0 (by omega) (Nat.zero_le _)
  · rw [Array.size_push] at hi
    omega

theorem push_perm (lt : α → α → Bool) (a : Array α) (x : α) :
    (push lt a x).toList.Perm (x :: a.toList) := by
  refine (siftUp_perm lt _ _ _).trans ?_
  rw [Array.toList_push]
  exact List.perm_append_singleton x a.toList

/-! ### Sifting down -/

theorem greater_cases (lt : α → α → Bool) (a : Array α) (i j : ℕ) :
    greater lt a i j = i ∨ greater lt a i j = j ∧ j < a.size := by
  rw [greater]
  split_ifs with h
  · exact .inr ⟨rfl, h.2⟩
  · exact .inl rfl
  · exact .inl rfl

theorem greater_lt {i j : ℕ} (hi : i < a.size) : greater lt a i j < a.size := by
  rcases greater_cases lt a i j with h | ⟨h, hj⟩ <;> omega

theorem greater_spec (hlt : StrictWeak lt) {i j : ℕ} (hi : i < a.size) {x : α}
    (hx : x = a[i] ∨ ∃ _ : j < a.size, x = a[j]) :
    ∃ _ : greater lt a i j < a.size, lt a[greater lt a i j] x = false := by
  refine ⟨greater_lt hi, ?_⟩
  by_cases hj : j < a.size
  · by_cases hless : lt a[i] a[j] = true
    · have hg : greater lt a i j = j := by rw [greater, dif_pos ⟨hi, hj⟩, if_pos hless]
      simp only [hg]
      rcases hx with rfl | ⟨-, rfl⟩
      · exact hlt.asymm _ _ hless
      · exact hlt.irrefl _
    · have hg : greater lt a i j = i := by rw [greater, dif_pos ⟨hi, hj⟩, if_neg hless]
      simp only [hg]
      rcases hx with rfl | ⟨-, rfl⟩
      · exact hlt.irrefl _
      · simpa using hless
  · have hg : greater lt a i j = i := by
      rw [greater, dif_neg fun h => hj h.2]
    simp only [hg]
    rcases hx with rfl | ⟨hj', -⟩
    · exact hlt.irrefl _
    · exact absurd hj' hj

theorem greatest_cases (lt : α → α → Bool) (a : Array α) (k : ℕ) :
    greatest lt a k = k ∨ (greatest lt a k = 2 * k + 1 ∨ greatest lt a k = 2 * k + 2) ∧
      greatest lt a k < a.size := by
  rw [greatest]
  rcases greater_cases lt a k (2 * k + 1) with h₁ | ⟨h₁, hl₁⟩ <;> rw [h₁]
  · rcases greater_cases lt a k (2 * k + 2) with h₂ | ⟨h₂, hl₂⟩ <;> omega
  · rcases greater_cases lt a (2 * k + 1) (2 * k + 2) with h₂ | ⟨h₂, hl₂⟩ <;> omega

theorem greatest_spec (hlt : StrictWeak lt) {k : ℕ} (hk : k < a.size) {i : ℕ} (hi : i < a.size)
    (hik : i = k ∨ 0 < i ∧ (i - 1) / 2 = k) :
    ∃ _ : greatest lt a k < a.size, lt a[greatest lt a k] a[i] = false := by
  obtain ⟨hg, -⟩ := greater_spec hlt (j := 2 * k + 1) hk (.inl rfl)
  have hcases : i = k ∨ i = 2 * k + 1 ∨ i = 2 * k + 2 := by omega
  by_cases hne : i = 2 * k + 2
  · subst hne
    exact greater_spec hlt hg (.inr ⟨hi, rfl⟩)
  · have hfirst : ∃ _ : greater lt a k (2 * k + 1) < a.size,
        lt a[greater lt a k (2 * k + 1)] a[i] = false := by
      refine greater_spec hlt hk ?_
      rcases hcases with rfl | rfl | rfl
      · exact .inl rfl
      · exact .inr ⟨hi, rfl⟩
      · exact absurd rfl hne
    obtain ⟨_, h₁⟩ := hfirst
    obtain ⟨hg', h₂⟩ := greater_spec hlt (j := 2 * k + 2) hg (.inl rfl)
    exact ⟨hg', hlt.trans _ _ _ h₁ h₂⟩

theorem DownFrom.swap (hlt : StrictWeak lt) {lo k : ℕ} (h : DownFrom lt lo a k) (hlo : lo ≤ k)
    (hk : k < a.size) (hc : greatest lt a k < a.size) (hne : greatest lt a k ≠ k) :
    DownFrom lt lo (a.swap k (greatest lt a k)) (greatest lt a k) := by
  have hspec : ∀ {i : ℕ} (hi : i < a.size), i = k ∨ 0 < i ∧ (i - 1) / 2 = k →
      lt a[greatest lt a k] a[i] = false := by
    intro i hi hik
    obtain ⟨_, hle⟩ := greatest_spec hlt hk hi hik
    exact hle
  have hchild : k < greatest lt a k ∧ (greatest lt a k - 1) / 2 = k := by
    rcases greatest_cases lt a k with h | ⟨h, -⟩ <;> omega
  generalize greatest lt a k = c at *
  constructor
  · intro i hi0 hi hlo' hpc
    rw [Array.size_swap] at hi
    simp only [Array.getElem_swap, if_neg hpc]
    by_cases hpk : (i - 1) / 2 = k
    · have hik : i ≠ k := by omega
      simp only [if_pos hpk, if_neg hik]
      split_ifs with hic
      · exact hspec hk (.inl rfl)
      · exact hspec hi (.inr ⟨hi0, hpk⟩)
    · have hic : i ≠ c := fun h => hpk (h ▸ hchild.2)
      simp only [if_neg hpk, if_neg hic]
      split_ifs with hik
      · subst hik
        have hgrand := h.grand c (by omega) hc hchild.2 hi0 hlo'
        simp only [hchild.2] at hgrand
        exact hgrand
      · exact h.pairs i hi0 hi hlo' hpk
  · intro i hi0 hi hpar _ _
    rw [Array.size_swap] at hi
    have hik : i ≠ k ∧ i ≠ c := by omega
    have hkc : k ≠ c := by omega
    have hpair := h.pairs i hi0 hi (by omega) (by omega)
    simp only [hpar] at hpair
    simp only [Array.getElem_swap, hpar, hchild.2, if_true, if_neg hik.1, if_neg hik.2]
    exact hpair

theorem DownFrom.ordered {lo k : ℕ} (h : DownFrom lt lo a k)
    (hlast : ∀ i (_ : 0 < i) (_ : i < a.size), (i - 1) / 2 = k → lt a[(i - 1) / 2] a[i] = false) :
    Ordered lt lo a := by
  intro i hi0 hi hlo
  by_cases hik : (i - 1) / 2 = k
  · exact hlast i hi0 hi hik
  · exact h.pairs i hi0 hi hlo hik

theorem siftDown_ordered (hlt : StrictWeak lt) {fuel lo k : ℕ} (hfuel : a.size ≤ k + fuel)
    (hlo : lo ≤ k) (h : DownFrom lt lo a k) : Ordered lt lo (siftDown lt fuel a k) := by
  induction fuel generalizing a k with
  | zero => exact h.ordered fun i _ hi hpar => absurd hi (by omega)
  | succ fuel ih =>
    rw [siftDown]
    split_ifs with hk
    · obtain ⟨hne, hc, hk⟩ := hk
      have hcases := greatest_cases lt a k
      refine ih ?_ (by omega) (h.swap hlt hlo hk hc hne)
      rw [Array.size_swap]
      omega
    · refine h.ordered fun i hi0 hi hpar => ?_
      have hk' : k < a.size := by omega
      obtain ⟨hc, hle⟩ := greatest_spec hlt hk' hi (.inr ⟨hi0, hpar⟩)
      have heq : greatest lt a k = k := by
        by_contra hne
        exact hk ⟨hne, hc, hk'⟩
      simp only [heq] at hle
      simp only [hpar]
      exact hle

theorem siftDown_perm (lt : α → α → Bool) (fuel : ℕ) (a : Array α) (k : ℕ) :
    (siftDown lt fuel a k).toList.Perm a.toList := by
  induction fuel generalizing a k with
  | zero => exact .refl _
  | succ fuel ih =>
    rw [siftDown]
    split_ifs
    · exact (ih _ _).trans (Array.swap_perm _ _).toList
    · exact .refl _

/-! ### Taking out -/

theorem front_greatest (hlt : StrictWeak lt) (h : IsHeap lt a) {i : ℕ} (hi : i < a.size) :
    lt a[0] a[i] = false := by
  induction i using Nat.strong_induction_on with
  | _ i ih =>
    rcases Nat.eq_zero_or_pos i with rfl | hi0
    · exact hlt.irrefl _
    · exact hlt.trans _ _ _ (h i hi0 hi (Nat.zero_le _)) (ih ((i - 1) / 2) (by omega) (by omega))

theorem pop_isHeap (hlt : StrictWeak lt) (h : IsHeap lt a) : IsHeap lt (pop lt a) := by
  rw [pop]
  split_ifs with h0
  · refine siftDown_ordered hlt (by simp) le_rfl ⟨fun i hi0 hi _ hpar => ?_, fun _ _ _ _ h _ =>
      absurd h (lt_irrefl 0)⟩
    have hi' : i < a.size - 1 := by simpa using hi
    simp only [Array.getElem_pop, Array.getElem_swap, if_neg hpar, if_neg hi0.ne']
    rw [if_neg (by omega), if_neg (by omega)]
    exact h i hi0 (by omega) (Nat.zero_le _)
  · exact h

theorem pop_perm (lt : α → α → Bool) (h0 : 0 < a.size) :
    (a[0] :: (pop lt a).toList).Perm a.toList := by
  have hlast : (a.swap 0 (a.size - 1)).toList =
      (a.swap 0 (a.size - 1)).pop.toList ++ [a[0]] := by
    have hne : (a.swap 0 (a.size - 1)).toList ≠ [] := by
      rw [← List.length_pos_iff, Array.length_toList, Array.size_swap]
      exact h0
    have hget : (a.swap 0 (a.size - 1)).toList.getLast hne = a[0] := by
      rw [List.getLast_eq_getElem]
      simp only [Array.length_toList, Array.size_swap, Array.getElem_toList]
      exact Array.getElem_swap_right
    rw [Array.toList_pop, ← hget, List.dropLast_append_getLast]
  rw [pop, dif_pos h0]
  calc a[0] :: (siftDown lt a.size (a.swap 0 (a.size - 1)).pop 0).toList
      |>.Perm (a[0] :: (a.swap 0 (a.size - 1)).pop.toList) := (siftDown_perm lt _ _ _).cons _
    _ |>.Perm (a.swap 0 (a.size - 1)).toList := by
      rw [hlast]
      exact (List.perm_append_singleton _ _).symm
    _ |>.Perm a.toList := (Array.swap_perm _ _).toList

theorem heapify_perm (lt : α → α → Bool) (k : ℕ) (a : Array α) :
    (heapify lt k a).toList.Perm a.toList := by
  induction k generalizing a with
  | zero => exact .refl _
  | succ k ih => exact (ih _).trans (siftDown_perm lt _ a k)

theorem makeHeap_perm (lt : α → α → Bool) (a : Array α) :
    (makeHeap lt a).toList.Perm a.toList :=
  heapify_perm lt _ a

theorem heapify_isHeap (hlt : StrictWeak lt) {k : ℕ} (h : Ordered lt k a) :
    IsHeap lt (heapify lt k a) := by
  induction k generalizing a with
  | zero => exact h
  | succ k ih =>
    refine ih (siftDown_ordered hlt (by omega) le_rfl ⟨fun i hi0 hi hlo hne => ?_, ?_⟩)
    · exact h i hi0 hi (by omega)
    · intro i _ _ _ hk hlo
      omega

theorem makeHeap_isHeap (hlt : StrictWeak lt) (a : Array α) : IsHeap lt (makeHeap lt a) := by
  refine heapify_isHeap hlt fun i hi0 hi hlo => ?_
  -- positions from the middle on have no children
  omega

/-! ### All elements in order -/

end Jingle.Heap
