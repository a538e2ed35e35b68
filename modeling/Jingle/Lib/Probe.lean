/-
Tables with open addressing.

A table has `n` slots, and every key has a sequence of slots that visits all of
them (`Probing`).  A search for a key lands at the first slot of its sequence that
is empty or holds the key.  A key is put where its search lands, and none is taken
out; then every key lies where its search lands (`Filed`), which gives that no key
lies in two slots and that there is room if and only if fewer than `n` keys have
been put in.
-/
import Mathlib.Data.List.Perm.Subperm
import Mathlib.Data.List.Nodup
import Mathlib.Logic.Function.Basic
import Mathlib.Tactic

namespace Jingle.Probe

variable {κ : Type} {n : ℕ} {probe : κ → ℕ → ℕ} {t : ℕ → Option κ} {k : κ} {r : ℕ}

/-- The sequence of slots of every key visits all of them, in `n` rounds. -/
structure Probing (n : ℕ) (probe : κ → ℕ → ℕ) : Prop where
  lt : ∀ k r, probe k r < n
  covers : ∀ k, ∀ j < n, ∃ r < n, probe k r = j

theorem probing_stride {start stride : κ → ℕ} (hn : 1 < n)
    (hstride : ∀ k, (stride k).Coprime n) :
    Probing n fun k r => (start k + r * stride k) % n where
  lt := fun _ _ => Nat.mod_lt _ (by omega)
  covers := by
    intro k j hj
    obtain ⟨m, -, hm⟩ := Nat.exists_mul_mod_eq_one_of_coprime (hstride k) hn
    have hinv : stride k * m ≡ 1 [MOD n] := by
      rw [Nat.ModEq, hm, Nat.mod_eq_of_lt hn]
    have hstart := Nat.mod_lt (start k) (Nat.zero_lt_of_lt hn)
    refine ⟨(j + (n - start k % n)) * m % n, Nat.mod_lt _ (by omega), ?_⟩
    -- the rounds undo the stride, and what is added to `j` undoes the start
    have hrounds : (j + (n - start k % n)) * m % n * stride k ≡ j + (n - start k % n) [MOD n] :=
      calc (j + (n - start k % n)) * m % n * stride k
          ≡ (j + (n - start k % n)) * m * stride k [MOD n] := (Nat.mod_modEq _ _).mul_right _
        _ = (j + (n - start k % n)) * (stride k * m) := by rw [mul_assoc, mul_comm m]
        _ ≡ (j + (n - start k % n)) * 1 [MOD n] := hinv.mul_left _
        _ = j + (n - start k % n) := mul_one _
    have hall : start k + (j + (n - start k % n)) * m % n * stride k ≡ j [MOD n] :=
      calc start k + (j + (n - start k % n)) * m % n * stride k
          ≡ start k % n + (j + (n - start k % n)) [MOD n] := (Nat.mod_modEq _ _).symm.add hrounds
        _ = j + n := by omega
        _ ≡ j [MOD n] := Nat.add_modEq_right
    rw [hall, Nat.mod_eq_of_lt hj]

/-- The search ends in a round: the slot is empty or holds the key. -/
def Stops (probe : κ → ℕ → ℕ) (t : ℕ → Option κ) (k : κ) (r : ℕ) : Prop :=
  t (probe k r) = none ∨ t (probe k r) = some k

/-- The first round in which the search ends. -/
def Lands (probe : κ → ℕ → ℕ) (t : ℕ → Option κ) (k : κ) (r : ℕ) : Prop :=
  Stops probe t k r ∧ ∀ r' < r, ¬Stops probe t k r'

/-- Every key of the table lies where its search lands. -/
def Filed (n : ℕ) (probe : κ → ℕ → ℕ) (t : ℕ → Option κ) : Prop :=
  ∀ j < n, ∀ k, t j = some k → ∃ r, Lands probe t k r ∧ probe k r = j

theorem Lands.unique {r' : ℕ} (h : Lands probe t k r) (h' : Lands probe t k r') : r = r' := by
  obtain hlt | heq | hgt := lt_trichotomy r r'
  · exact absurd h.1 (h'.2 r hlt)
  · exact heq
  · exact absurd h'.1 (h.2 r' hgt)

theorem exists_stops_iff (hp : Probing n probe) (t : ℕ → Option κ) (k : κ) :
    (∃ r, Stops probe t k r) ↔ (∃ j < n, t j = none) ∨ ∃ j < n, t j = some k := by
  constructor
  · rintro ⟨r, hempty | hkey⟩
    · exact .inl ⟨_, hp.lt k r, hempty⟩
    · exact .inr ⟨_, hp.lt k r, hkey⟩
  · rintro (⟨j, hj, ht⟩ | ⟨j, hj, ht⟩)
    all_goals
      obtain ⟨r, -, rfl⟩ := hp.covers k j hj
    · exact ⟨r, .inl ht⟩
    · exact ⟨r, .inr ht⟩

theorem exists_lands (hp : Probing n probe) (h : ∃ r, Stops probe t k r) :
    ∃ r < n, Lands probe t k r := by
  classical
  obtain ⟨r, hr⟩ := h
  obtain ⟨r₀, hlt, heq⟩ := hp.covers k _ (hp.lt k r)
  have hstops : Stops probe t k r₀ := by
    rw [Stops, heq]
    exact hr
  have hex : ∃ r, Stops probe t k r := ⟨r₀, hstops⟩
  exact ⟨Nat.find hex, (Nat.find_le hstops).trans_lt hlt, Nat.find_spec hex,
    fun r' hr' => Nat.find_min hex hr'⟩

theorem filed_empty (n : ℕ) (probe : κ → ℕ → ℕ) : Filed n probe fun _ => none :=
  fun _ _ _ h => absurd h (by simp)

theorem Filed.insert (hf : Filed n probe t) (hl : Lands probe t k r) :
    Filed n probe (Function.update t (probe k r) (some k)) := by
  intro j hj k' hk'
  by_cases hslot : j = probe k r
  · -- the key itself: the slots before were taken by others
    obtain rfl : k = k' := by
      rw [hslot, Function.update_self] at hk'
      exact Option.some.inj hk'
    refine ⟨r, ⟨.inr (Function.update_self _ _ _), fun r' hr' => ?_⟩, hslot.symm⟩
    have hne : probe k r' ≠ probe k r := by
      intro heq
      refine hl.2 r' hr' ?_
      rw [Stops, heq]
      exact hl.1
    rw [Stops, Function.update_of_ne hne]
    exact hl.2 r' hr'
  · rw [Function.update_of_ne hslot] at hk'
    obtain ⟨r', hl', hr'⟩ := hf j hj k' hk'
    refine ⟨r', ⟨?_, fun i hi => ?_⟩, hr'⟩
    · rw [Stops, hr', Function.update_of_ne hslot]
      exact .inr hk'
    · have hi' := hl'.2 i hi
      rw [Stops] at hi' ⊢
      by_cases hi₀ : probe k' i = probe k r
      · -- the slot was not empty, so it held the key that is put there
        rw [hi₀] at hi' ⊢
        rw [Function.update_self]
        have hsame : t (probe k r) = some k := hl.1.resolve_left fun h => hi' (.inl h)
        rw [hsame] at hi'
        exact hi'
      · rwa [Function.update_of_ne hi₀]

theorem Filed.slot_unique (hf : Filed n probe t) {i j : ℕ} (hi : i < n) (hj : j < n)
    (hki : t i = some k) (hkj : t j = some k) : i = j := by
  obtain ⟨r, hl, rfl⟩ := hf i hi k hki
  obtain ⟨r', hl', rfl⟩ := hf j hj k hkj
  rw [hl.unique hl']

/-- The keys of the table. -/
def keys (n : ℕ) (t : ℕ → Option κ) : List κ := (List.range n).filterMap t

theorem mem_keys : k ∈ keys n t ↔ ∃ j < n, t j = some k := by
  rw [keys, List.mem_filterMap]
  exact exists_congr fun j => and_congr_left fun _ => List.mem_range

theorem Filed.nodup_keys (hf : Filed n probe t) : (keys n t).Nodup := by
  rw [keys, List.Nodup, List.pairwise_filterMap]
  refine List.Pairwise.imp_of_mem (fun hi hj hne k hk k' hk' heq => hne ?_) List.nodup_range
  exact hf.slot_unique (List.mem_range.1 hi) (List.mem_range.1 hj) hk (heq ▸ hk')

theorem length_keys_le (n : ℕ) (t : ℕ → Option κ) : (keys n t).length ≤ n :=
  (List.length_filterMap_le _ _).trans List.length_range.le

theorem exists_empty_iff : (∃ j < n, t j = none) ↔ (keys n t).length < n := by
  induction n with
  | zero => simp
  | succ n ih =>
    have hstep : keys (n + 1) t = keys n t ++ (t n).toList := by
      rw [keys, List.range_succ, List.filterMap_append, keys]
      cases hn : t n <;> simp [hn]
    rw [hstep, List.length_append]
    have hle := length_keys_le n t
    constructor
    · rintro ⟨j, hj, hnone⟩
      obtain hlt | rfl := Nat.lt_succ_iff_lt_or_eq.1 hj
      · have hroom := ih.1 ⟨j, hlt, hnone⟩
        have : (t n).toList.length ≤ 1 := by cases t n <;> simp
        omega
      · rw [hnone]
        simpa using Nat.lt_succ_of_le hle
    · intro h
      cases hn : t n with
      | none => exact ⟨n, Nat.lt_succ_self n, hn⟩
      | some k =>
        rw [hn] at h
        obtain ⟨j, hj, hnone⟩ := ih.2 (by simpa using h)
        exact ⟨j, hj.trans (Nat.lt_succ_self n), hnone⟩

end Jingle.Probe
