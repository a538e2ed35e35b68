/-
What the table of names holds, over every sequence of constructions, copies and
destructions.

The loop of the source is the library's search by probing (`search_eq_some`), and
its stride visits every slot (`probing`).  A search therefore ends as long as a slot
is empty, and in a full table only if the name is there (`search_ends_iff`).  Every
event keeps the table filed by probing (`Kept.act`), with the references that the
live names need.

**`interned_iff`**: the table holds each added name, up to its NUL, exactly once.

**`interning_iff`**: every search ends with the requested name if and only if, at
every construction, the name is in the table or fewer than 512 are, and its local
part has no NUL.
-/
import Jingle.Xmllite.QNameTable
import Mathlib.Data.List.TakeWhile

namespace Jingle.Xmllite

open Signaling Probe
open Numeral (cString cString_eq_self_iff)

namespace Names

variable {table : ℕ → NameData} {ns local_ : Text} {s s' : Names} {add : Bool}

/-! ### The search -/

/-- The index of a round, before it is masked. -/
def indexAt (k : Text × Text) : ℕ → Word
  | 0 => qnameHash k.1 k.2
  | r + 1 => (indexAt k r &&& 511#32) + increment (qnameHash k.1 k.2)

/-- The slot of a round. -/
def slotAt (k : Text × Text) (r : ℕ) : ℕ := slotOf (indexAt k r)

/-- The names in the slots. -/
def contents (table : ℕ → NameData) (j : ℕ) : Option (Text × Text) := key (table j)

theorem slotOf_eq (index : Word) : slotOf index = index.toNat % slots := by
  rw [slotOf, BitVec.toNat_and]
  exact Nat.and_two_pow_sub_one_eq_mod index.toNat 9

theorem slotAt_eq (k : Text × Text) (r : ℕ) : slotAt k r =
    ((qnameHash k.1 k.2).toNat + r * (increment (qnameHash k.1 k.2)).toNat) % slots := by
  induction r with
  | zero => rw [slotAt, slotOf_eq, Nat.zero_mul, Nat.add_zero]; rfl
  | succ r ih =>
    have hmask : (indexAt k r &&& 511#32).toNat = slotAt k r := rfl
    rw [slotAt, slotOf_eq, indexAt, BitVec.toNat_add, hmask, ih, slots, bits,
      Nat.mod_mod_of_dvd _ (by norm_num), Nat.mod_add_mod]
    congr 1
    ring

theorem coprime_increment (index : Word) : (increment index).toNat.Coprime slots := by
  have hodd : (increment index).toNat % 2 = 1 := by
    rw [increment, BitVec.toNat_or]
    exact Nat.or_mod_two_eq_one.2 (.inr rfl)
  exact (Nat.coprime_two_right.2 (Nat.odd_iff.2 hodd)).pow_right bits

theorem probing : Probing slots slotAt := by
  have heq : slotAt = fun k r =>
      ((qnameHash k.1 k.2).toNat + r * (increment (qnameHash k.1 k.2)).toNat) % slots :=
    funext fun k => funext fun r => slotAt_eq k r
  rw [heq]
  exact probing_stride (by decide) fun k => coprime_increment (qnameHash k.1 k.2)

theorem contents_eq_none (j : ℕ) : contents table j = none ↔ (table j).occupied = false := by
  rw [contents, key]
  split_ifs with h <;> simp [h]

theorem contents_eq_some {j : ℕ} {k : Text × Text} : contents table j = some k ↔
    (table j).occupied = true ∧ (table j).namespace_ = k.1 ∧ (table j).localPart = k.2 := by
  rw [contents, key]
  split_ifs with h
  · simp [h, Prod.ext_iff]
  · simp [h]

theorem searchFrom_eq_some (k : Text × Text) (fuel r j : ℕ) :
    searchFrom table k.1 k.2 (increment (qnameHash k.1 k.2)) fuel (indexAt k r) = some j ↔
      ∃ r', r ≤ r' ∧ r' < r + fuel ∧ Stops slotAt (contents table) k r' ∧
        (∀ i, r ≤ i → i < r' → ¬Stops slotAt (contents table) k i) ∧ slotAt k r' = j := by
  induction fuel generalizing r with
  | zero =>
    rw [searchFrom]
    constructor
    · intro h
      cases h
    · rintro ⟨r', hle, hlt, -⟩
      omega
  | succ fuel ih =>
    have hslot : (indexAt k r &&& 511#32).toNat = slotAt k r := rfl
    rw [searchFrom, hslot]
    by_cases hstops : Stops slotAt (contents table) k r
    · have hreturn : (if (!(table (slotAt k r)).occupied) = true then some (slotAt k r)
          else if (table (slotAt k r)).localPart = k.2 ∧ (table (slotAt k r)).namespace_ = k.1 then
            some (slotAt k r)
          else searchFrom table k.1 k.2 (increment (qnameHash k.1 k.2)) fuel
            ((indexAt k r &&& 511#32) + increment (qnameHash k.1 k.2))) = some (slotAt k r) := by
        obtain hempty | hkey := hstops
        · rw [contents_eq_none] at hempty
          rw [if_pos (by rw [hempty]; rfl)]
        · obtain ⟨hocc, hns, hl⟩ := contents_eq_some.1 hkey
          rw [if_neg (by rw [hocc]; exact Bool.false_ne_true), if_pos ⟨hl, hns⟩]
      rw [hreturn]
      constructor
      · intro h
        exact ⟨r, le_rfl, by omega, hstops, fun i hi hlt => absurd hlt (by omega),
          Option.some.inj h⟩
      · rintro ⟨r', hle, -, -, hmin, rfl⟩
        obtain rfl | hlt := hle.eq_or_lt
        · rfl
        · exact absurd hstops (hmin r le_rfl hlt)
    · have hocc : (table (slotAt k r)).occupied = true := by
        by_contra h
        exact hstops (.inl (contents_eq_none _ |>.2 (by simpa using h)))
      have hother : ¬((table (slotAt k r)).localPart = k.2 ∧
          (table (slotAt k r)).namespace_ = k.1) :=
        fun h => hstops (.inr (contents_eq_some.2 ⟨hocc, h.2, h.1⟩))
      rw [if_neg (by rw [hocc]; exact Bool.false_ne_true), if_neg hother]
      refine (ih (r + 1)).trans ?_
      constructor
      · rintro ⟨r', hle, hlt, hs, hmin, hj⟩
        refine ⟨r', by omega, by omega, hs, fun i hi hir => ?_, hj⟩
        obtain rfl | hlt' := hi.eq_or_lt
        · exact hstops
        · exact hmin i hlt' hir
      · rintro ⟨r', hle, hlt, hs, hmin, hj⟩
        obtain rfl | hlt' := hle.eq_or_lt
        · exact absurd hs hstops
        · exact ⟨r', hlt', by omega, hs, fun i hi hir => hmin i (by omega) hir, hj⟩

theorem search_eq_some (fuel j : ℕ) : search table ns local_ fuel = some j ↔
    ∃ r < fuel, Lands slotAt (contents table) (ns, local_) r ∧ slotAt (ns, local_) r = j := by
  refine (searchFrom_eq_some (ns, local_) fuel 0 j).trans (exists_congr fun r => ?_)
  constructor
  · rintro ⟨-, hlt, hs, hmin, hj⟩
    exact ⟨by omega, ⟨hs, fun i hi => hmin i (Nat.zero_le _) hi⟩, hj⟩
  · rintro ⟨hlt, ⟨hs, hmin⟩, hj⟩
    exact ⟨Nat.zero_le _, by omega, hs, fun i _ hi => hmin i hi, hj⟩

theorem search_ends_iff : (∃ fuel, search s.table ns local_ fuel ≠ none) ↔
    (ns, local_) ∈ s.interned ∨ s.interned.length < slots := by
  have hends : (∃ fuel, search s.table ns local_ fuel ≠ none) ↔
      ∃ r, Stops slotAt (contents s.table) (ns, local_) r := by
    constructor
    · rintro ⟨fuel, hfuel⟩
      obtain ⟨j, hj⟩ := Option.ne_none_iff_exists'.1 hfuel
      obtain ⟨r, -, hl, -⟩ := (search_eq_some fuel j).1 hj
      exact ⟨r, hl.1⟩
    · intro h
      obtain ⟨r, hlt, hl⟩ := exists_lands probing h
      refine ⟨slots, Option.ne_none_iff_exists'.2 ⟨slotAt (ns, local_) r, ?_⟩⟩
      exact (search_eq_some slots _).2 ⟨r, hlt, hl, rfl⟩
  rw [hends, exists_stops_iff probing, exists_empty_iff, or_comm]
  exact or_congr mem_keys.symm Iff.rfl

/-! ### One construction -/

/-- What a construction does at the slot where its loop returns. -/
def constructAt (s : Names) (add : Bool) (ns local_ : Text) (slot : ℕ) : Names :=
  if add then s.addAt ns local_ slot else s.allocateAt ns local_ slot

theorem construct_eq_some {fuel : ℕ} : s.construct add ns local_ fuel = some s' ↔
    ∃ slot, search s.table ns (cString local_) fuel = some slot ∧
      s.constructAt add ns (cString local_) slot = s' := by
  rw [construct, Option.map_eq_some_iff]
  refine exists_congr fun slot => and_congr_right fun _ => ?_
  rw [constructAt]
  split_ifs <;> rfl

theorem construct_ne_none {fuel : ℕ} : s.construct add ns local_ fuel ≠ none ↔
    search s.table ns (cString local_) fuel ≠ none := by
  rw [construct, ne_eq, Option.map_eq_none_iff]

theorem nameOf_refer (s : Names) (slot : ℕ) :
    (s.refer slot).nameOf (.interned slot) = s.nameOf (.interned slot) := by
  show ((Function.update s.table slot (s.table slot).addRef slot).namespace_,
    (Function.update s.table slot (s.table slot).addRef slot).localPart) = _
  rw [Function.update_self]
  rfl

theorem constructAt_name {slot : ℕ} {k : Text × Text}
    (h : contents s.table slot = none ∨ contents s.table slot = some k) (add : Bool) :
    ∃ a, (s.constructAt add k.1 k.2 slot).live = s.live ++ [a] ∧
      (s.constructAt add k.1 k.2 slot).nameOf a = k := by
  rw [constructAt, addAt, allocateAt]
  obtain hempty | hkey := h
  · rw [contents_eq_none] at hempty
    rw [hempty, if_neg Bool.false_ne_true, if_neg Bool.false_ne_true]
    split_ifs
    · refine ⟨.interned slot, rfl, ?_⟩
      show ((Function.update s.table slot _ slot).namespace_,
        (Function.update s.table slot _ slot).localPart) = k
      rw [Function.update_self]
      rfl
    · exact ⟨.own k.1 k.2, rfl, rfl⟩
  · obtain ⟨hocc, hns, hl⟩ := contents_eq_some.1 hkey
    rw [if_pos hocc, if_pos hocc, ite_self]
    refine ⟨.interned slot, rfl, (nameOf_refer s slot).trans ?_⟩
    exact Prod.ext hns hl

theorem eqv_iff (a b : NameRef) : s.eqv a b ↔ s.nameOf a = s.nameOf b := by
  rw [eqv, Bool.or_eq_true, Bool.and_eq_true, decide_eq_true_iff, decide_eq_true_iff,
    decide_eq_true_iff, Prod.ext_iff]
  constructor
  · rintro (rfl | ⟨hl, hns⟩)
    · exact ⟨rfl, rfl⟩
    · exact ⟨hns, hl⟩
  · rintro ⟨hns, hl⟩
    exact .inr ⟨hl, hns⟩

theorem compareText_eq_iff (a b : Text) : compareText a b = .eq ↔ a = b := by
  rw [compareText]
  split_ifs with h <;> simp [h]

theorem compareNames_eq_iff (a b : NameRef) :
    s.compareNames a b = .eq ↔ s.nameOf a = s.nameOf b := by
  rw [compareNames]
  split_ifs with h
  · rw [h]
    exact iff_of_true rfl rfl
  · rw [Ordering.then_eq_eq, compareText_eq_iff, compareText_eq_iff, Prod.ext_iff]
    exact and_comm

theorem faithful_iff_fits (s : Names) (add : Bool) (ns local_ : Text) :
    s.Faithful add ns local_ ↔ s.Fits add ns local_ := by
  have hname {fuel : ℕ} {s' : Names} (h : s.construct add ns local_ fuel = some s') :
      ∃ a, s'.live = s.live ++ [a] ∧ s'.nameOf a = (ns, cString local_) := by
    obtain ⟨slot, hslot, rfl⟩ := construct_eq_some.1 h
    obtain ⟨r, -, hl, rfl⟩ := (search_eq_some fuel slot).1 hslot
    exact constructAt_name (k := (ns, cString local_)) hl.1 add
  have hends : (∃ fuel, s.construct add ns local_ fuel ≠ none) ↔
      (ns, cString local_) ∈ s.interned ∨ s.interned.length < slots :=
    (exists_congr fun fuel => construct_ne_none).trans search_ends_iff
  constructor
  · intro h
    obtain ⟨fuel, hfuel⟩ := h.ends
    obtain ⟨s', hs'⟩ := Option.ne_none_iff_exists'.1 hfuel
    obtain ⟨a, hlive, ha⟩ := hname hs'
    obtain ⟨a', hlive', ha'⟩ := h.requested fuel s' hs'
    obtain rfl : a = a' := by
      rw [hlive] at hlive'
      exact List.singleton_inj.1 (List.append_cancel_left hlive')
    have hlocal : cString local_ = local_ := by
      rw [ha] at ha'
      exact (Prod.mk.inj ha').2
    refine ⟨cString_eq_self_iff.1 hlocal, ?_⟩
    have hroom := hends.1 h.ends
    rwa [hlocal] at hroom
  · rintro ⟨hnul, hroom⟩
    have hlocal := cString_eq_self_iff.2 hnul
    rw [hlocal] at hends hname
    exact ⟨hends.2 hroom, fun _ _ h => hname h,
      fun _ _ _ a _ b _ => ⟨eqv_iff a b, compareNames_eq_iff a b⟩⟩

/-- **Names are interned faithfully** in a sequence of constructions, copies and destructions
if and only if every construction fits. -/
theorem interning_iff (s : Names) (es : List NameEvent) :
    s.EachConstruction Faithful es ↔ s.EachConstruction Fits es := by
  induction es generalizing s with
  | nil => exact Iff.rfl
  | cons e es ih =>
    refine and_congr ?_ (forall_congr' fun s' => forall_congr' fun _ => ih s')
    exact forall_congr' fun add => forall_congr' fun ns => forall_congr' fun local_ =>
      forall_congr' fun _ => faithful_iff_fits s add ns local_

/-! ### The references -/

/-- Every name lies where its search lands, and the references of a slot are its own and those
of the names that point to it. -/
structure Kept (s : Names) : Prop where
  filed : Filed slots slotAt (contents s.table)
  counted : ∀ j, (s.table j).refcount = 0 ∧ s.live.count (.interned j) = 0 ∨
    (s.table j).refcount = 1 + s.live.count (.interned j)

theorem occupied_iff (d : NameData) : d.occupied = true ↔ d.refcount ≠ 0 := by
  rw [NameData.occupied, decide_eq_true_iff]

theorem contents_update {slot : ℕ} {d : NameData} (hocc : (table slot).occupied = true)
    (hd : d.occupied = true) (hns : d.namespace_ = (table slot).namespace_)
    (hl : d.localPart = (table slot).localPart) :
    contents (Function.update table slot d) = contents table := by
  funext j
  rw [contents, contents]
  by_cases hj : j = slot
  · rw [hj, Function.update_self, key, key, if_pos hd, if_pos hocc, hns, hl]
  · rw [Function.update_of_ne hj]

theorem contents_refer {slot : ℕ} (hocc : (s.table slot).occupied = true) :
    contents (s.refer slot).table = contents s.table :=
  contents_update hocc ((occupied_iff _).2 (Nat.succ_ne_zero _)) rfl rfl

theorem Kept.refer (h : s.Kept) {slot : ℕ} (hocc : (s.table slot).occupied = true) :
    (s.refer slot).Kept where
  filed := by
    rw [contents_refer hocc]
    exact h.filed
  counted := by
    intro j
    have hcount : (s.refer slot).live.count (.interned j) =
        s.live.count (.interned j) + if slot = j then 1 else 0 := by
      rw [Names.refer, List.count_append, List.count_singleton]
      simp
    have hj := h.counted j
    rw [hcount]
    by_cases hslot : j = slot
    · rw [hslot] at hj ⊢
      rw [occupied_iff] at hocc
      show (Function.update s.table slot _ slot).refcount = 0 ∧ _ ∨
        (Function.update s.table slot _ slot).refcount = _
      rw [Function.update_self, NameData.addRef, if_pos rfl]
      dsimp only
      omega
    · show (Function.update s.table slot _ j).refcount = 0 ∧ _ ∨
        (Function.update s.table slot _ j).refcount = _
      rw [Function.update_of_ne hslot, if_neg (Ne.symm hslot)]
      exact hj

theorem Kept.own (h : s.Kept) (ns local_ : Text) :
    Kept { s with live := s.live ++ [.own ns local_] } where
  filed := h.filed
  counted := by
    intro j
    rw [List.count_append]
    exact h.counted j

theorem Kept.addNew (h : s.Kept) {k : Text × Text} {r : ℕ} (hl : Lands slotAt (contents s.table) k r)
    (hempty : (s.table (slotAt k r)).occupied = false) :
    (s.addAt k.1 k.2 (slotAt k r)).Kept ∧
      contents (s.addAt k.1 k.2 (slotAt k r)).table =
        Function.update (contents s.table) (slotAt k r) (some k) := by
  have hzero : (s.table (slotAt k r)).refcount = 0 := by
    by_contra hne
    rw [(occupied_iff _).2 hne] at hempty
    cases hempty
  rw [addAt, hempty, if_neg Bool.false_ne_true]
  have hcontents : contents (Function.update s.table (slotAt k r)
      ({ s.table (slotAt k r) with namespace_ := k.1, localPart := k.2 } :
        NameData).addRef.addRef) =
        Function.update (contents s.table) (slotAt k r) (some k) := by
    funext j
    rw [contents]
    by_cases hj : j = slotAt k r
    · rw [hj, Function.update_self, Function.update_self]
      rfl
    · rw [Function.update_of_ne hj, Function.update_of_ne hj, contents]
  refine ⟨⟨?_, fun j => ?_⟩, hcontents⟩
  · rw [hcontents]
    exact h.filed.insert hl
  · have hcount : (s.live ++ [NameRef.interned (slotAt k r)]).count (.interned j) =
        s.live.count (.interned j) + if slotAt k r = j then 1 else 0 := by
      rw [List.count_append, List.count_singleton]
      simp
    have hj := h.counted j
    rw [hcount]
    by_cases hslot : j = slotAt k r
    · rw [hslot] at hj ⊢
      dsimp only
      rw [Function.update_self, if_pos rfl]
      show (s.table (slotAt k r)).refcount + 1 + 1 = 0 ∧ _ ∨
        (s.table (slotAt k r)).refcount + 1 + 1 = _
      omega
    · dsimp only
      rw [Function.update_of_ne hslot, if_neg (Ne.symm hslot)]
      exact hj

theorem Kept.destroy (h : s.Kept) (k : ℕ) :
    (s.destroy k).Kept ∧ contents (s.destroy k).table = contents s.table := by
  rw [Names.destroy]
  split
  · exact ⟨h, rfl⟩
  · rename_i slot hk
    obtain ⟨hlt, hget⟩ := List.getElem?_eq_some_iff.1 hk
    have hperm : s.live.Perm (.interned slot :: s.live.eraseIdx k) := by
      have := (List.getElem_cons_eraseIdx_perm hlt).symm
      rwa [hget] at this
    have hcount (j : ℕ) : s.live.count (.interned j) =
        (s.live.eraseIdx k).count (.interned j) + if slot = j then 1 else 0 := by
      rw [hperm.count_eq, List.count_cons]
      simp
    have hslot := h.counted slot
    rw [hcount, if_pos rfl] at hslot
    have hcontents : contents (Function.update s.table slot (s.table slot).release) =
        contents s.table := by
      refine contents_update ((occupied_iff _).2 (by omega)) ((occupied_iff _).2 ?_) rfl rfl
      show (s.table slot).refcount - 1 ≠ 0
      omega
    refine ⟨⟨?_, fun j => ?_⟩, hcontents⟩
    · rw [hcontents]
      exact h.filed
    · have hj := h.counted j
      rw [hcount] at hj
      by_cases heq : j = slot
      · rw [heq] at hj ⊢
        dsimp only
        rw [Function.update_self, NameData.release]
        dsimp only
        omega
      · rw [if_neg (Ne.symm heq)] at hj
        dsimp only
        rw [Function.update_of_ne heq]
        exact hj
  · rename_i ns local_ hk
    obtain ⟨hlt, hget⟩ := List.getElem?_eq_some_iff.1 hk
    refine ⟨⟨h.filed, fun j => ?_⟩, rfl⟩
    have hperm : s.live.Perm (.own ns local_ :: s.live.eraseIdx k) := by
      have := (List.getElem_cons_eraseIdx_perm hlt).symm
      rwa [hget] at this
    have hj := h.counted j
    rw [hperm.count_eq, List.count_cons] at hj
    simpa using hj

theorem Kept.copy (h : s.Kept) (k : ℕ) :
    (s.copy k).Kept ∧ contents (s.copy k).table = contents s.table := by
  rw [Names.copy]
  split
  · exact ⟨h, rfl⟩
  · rename_i slot hk
    have hpos : 0 < s.live.count (.interned slot) :=
      List.count_pos_iff.2 (List.mem_of_getElem? hk)
    have hslot := h.counted slot
    have hocc : (s.table slot).occupied = true := (occupied_iff _).2 (by omega)
    exact ⟨h.refer hocc, contents_refer hocc⟩
  · exact ⟨h.own _ _, rfl⟩

theorem mem_interned {k : Text × Text} :
    k ∈ s.interned ↔ ∃ j < slots, contents s.table j = some k := mem_keys

theorem interned_congr (h : contents s'.table = contents s.table) : s'.interned = s.interned := by
  show keys slots (contents s'.table) = keys slots (contents s.table)
  rw [h]

theorem Kept.construct (h : s.Kept) {fuel : ℕ}
    (hs : s.construct add ns local_ fuel = some s') :
    s'.Kept ∧ ∀ k, k ∈ s'.interned ↔ k ∈ s.interned ∨ add = true ∧ k = (ns, cString local_) := by
  obtain ⟨slot, hslot, rfl⟩ := construct_eq_some.1 hs
  obtain ⟨r, -, hl, rfl⟩ := (search_eq_some fuel slot).1 hslot
  rw [constructAt]
  cases hocc : (s.table (slotAt (ns, cString local_) r)).occupied with
  | true =>
    -- the name is there already
    have hkey : contents s.table (slotAt (ns, cString local_) r) = some (ns, cString local_) := by
      refine hl.1.resolve_left fun hnone => ?_
      rw [contents_eq_none, hocc] at hnone
      cases hnone
    rw [addAt, allocateAt, if_pos hocc, if_pos hocc, ite_self]
    refine ⟨h.refer hocc, fun k => ?_⟩
    rw [interned_congr (contents_refer hocc)]
    refine ⟨.inl, fun hk => hk.elim id ?_⟩
    rintro ⟨-, rfl⟩
    exact mem_interned.2 ⟨_, probing.lt _ _, hkey⟩
  | false =>
    cases add with
    | false =>
      rw [if_neg Bool.false_ne_true, allocateAt, hocc, if_neg Bool.false_ne_true]
      refine ⟨h.own _ _, fun k => ⟨.inl, fun hk => hk.elim id fun hadd => ?_⟩⟩
      exact absurd hadd.1 Bool.false_ne_true
    | true =>
      obtain ⟨hkept, hcontents⟩ := h.addNew hl hocc
      rw [if_pos rfl]
      refine ⟨hkept, fun k => ?_⟩
      rw [mem_interned, mem_interned, hcontents]
      constructor
      · rintro ⟨j, hj, hk⟩
        by_cases hslot : j = slotAt (ns, cString local_) r
        · rw [hslot, Function.update_self] at hk
          exact .inr ⟨rfl, (Option.some.inj hk).symm⟩
        · rw [Function.update_of_ne hslot] at hk
          exact .inl ⟨j, hj, hk⟩
      · rintro (⟨j, hj, hk⟩ | ⟨-, rfl⟩)
        · refine ⟨j, hj, ?_⟩
          have hne : j ≠ slotAt (ns, cString local_) r := by
            rintro rfl
            rw [(contents_eq_none _).2 hocc] at hk
            cases hk
          rwa [Function.update_of_ne hne]
        · exact ⟨_, probing.lt _ _, Function.update_self _ _ _⟩

/-- The name that an event adds. -/
def Adds (e : NameEvent) (k : Text × Text) : Prop :=
  ∃ ns local_, e = .construct true ns local_ ∧ k = (ns, cString local_)

theorem Kept.act (h : s.Kept) {e : NameEvent} (hact : s.act e = some s') :
    s'.Kept ∧ ∀ k, k ∈ s'.interned ↔ k ∈ s.interned ∨ Adds e k := by
  cases e with
  | construct add ns local_ =>
    obtain ⟨hkept, hmem⟩ := h.construct hact
    refine ⟨hkept, fun k => (hmem k).trans (or_congr Iff.rfl ?_)⟩
    constructor
    · rintro ⟨rfl, rfl⟩
      exact ⟨ns, local_, rfl, rfl⟩
    · rintro ⟨ns', local', he, rfl⟩
      cases he
      exact ⟨rfl, rfl⟩
  | copy k =>
    obtain rfl := Option.some.inj hact
    refine ⟨(h.copy k).1, fun k' => ?_⟩
    rw [interned_congr (h.copy k).2]
    exact ⟨.inl, fun hk => hk.elim id fun hadds => by obtain ⟨_, _, he, -⟩ := hadds; cases he⟩
  | destroy k =>
    obtain rfl := Option.some.inj hact
    refine ⟨(h.destroy k).1, fun k' => ?_⟩
    rw [interned_congr (h.destroy k).2]
    exact ⟨.inl, fun hk => hk.elim id fun hadds => by obtain ⟨_, _, he, -⟩ := hadds; cases he⟩

/-! ### Sequences -/

/-- The state after a sequence, if every construction comes to its end. -/
def acts (s : Names) : List NameEvent → Option Names
  | [] => some s
  | e :: es => (s.act e).bind fun s' => acts s' es

theorem Kept.acts (h : s.Kept) {es : List NameEvent} (hacts : s.acts es = some s') :
    s'.Kept ∧ ∀ k, k ∈ s'.interned ↔ k ∈ s.interned ∨ ∃ e ∈ es, Adds e k := by
  induction es generalizing s with
  | nil =>
    obtain rfl := Option.some.inj hacts
    exact ⟨h, fun k => by simp⟩
  | cons e es ih =>
    obtain ⟨s₁, hfirst, hrest⟩ := Option.bind_eq_some_iff.1 hacts
    obtain ⟨hkept, hmem⟩ := h.act hfirst
    obtain ⟨hkept', hmem'⟩ := ih hkept hrest
    refine ⟨hkept', fun k => ?_⟩
    rw [hmem', hmem, List.exists_mem_cons_iff, or_assoc]

theorem kept_empty : empty.Kept where
  filed := filed_empty slots slotAt
  counted := fun _ => .inl ⟨rfl, rfl⟩

theorem interned_iff {es : List NameEvent} (h : empty.acts es = some s) :
    s.interned.Nodup ∧ ∀ k, k ∈ s.interned ↔ ∃ e ∈ es, Adds e k := by
  obtain ⟨hkept, hmem⟩ := kept_empty.acts h
  have hnone (k : Text × Text) : k ∉ empty.interned := by
    intro hk
    obtain ⟨j, -, hj⟩ := mem_interned.1 hk
    cases hj
  exact ⟨hkept.filed.nodup_keys, fun k => (hmem k).trans (or_iff_right (hnone k))⟩

theorem acts_of_faithful {es : List NameEvent} (h : s.EachConstruction Faithful es) :
    ∃ s', s.acts es = some s' := by
  induction es generalizing s with
  | nil => exact ⟨s, rfl⟩
  | cons e es ih =>
    have hact : ∃ s₁, s.act e = some s₁ := by
      cases e with
      | construct add ns local_ =>
        obtain ⟨fuel, hfuel⟩ := (h.1 add ns local_ rfl).ends
        obtain ⟨slot, hslot⟩ := Option.ne_none_iff_exists'.1 (construct_ne_none.1 hfuel)
        obtain ⟨r, -, hl, -⟩ := (search_eq_some fuel slot).1 hslot
        obtain ⟨r', hlt, hl'⟩ := exists_lands probing ⟨r, hl.1⟩
        have hfound := (search_eq_some slots _).2 ⟨r', hlt, hl', rfl⟩
        exact ⟨_, construct_eq_some.2 ⟨_, hfound, rfl⟩⟩
      | copy k => exact ⟨_, rfl⟩
      | destroy k => exact ⟨_, rfl⟩
    obtain ⟨s₁, hs₁⟩ := hact
    obtain ⟨s', hs'⟩ := ih (h.2 s₁ hs₁)
    exact ⟨s', by rw [Names.acts, hs₁, Option.bind_some, hs']⟩

/-- The name of so many letters. -/
def letters (n : ℕ) : Text × Text := ([], List.replicate n 97#8)

/-- The constructions of so many different names. -/
def flood (n : ℕ) : List NameEvent :=
  (List.range n).map fun i => .construct true (letters i).1 (letters i).2

theorem length_flood_le {n : ℕ} (h : empty.EachConstruction Faithful (flood n)) : n ≤ slots := by
  obtain ⟨s, hs⟩ := acts_of_faithful h
  obtain ⟨-, hmem⟩ := interned_iff hs
  have hsub : (List.range n).map letters ⊆ s.interned := by
    intro k hk
    obtain ⟨i, hi, rfl⟩ := List.mem_map.1 hk
    have hnul : 0#8 ∉ (letters i).2 := fun h0 => absurd (List.eq_of_mem_replicate h0) (by decide)
    refine (hmem _).2 ⟨_, List.mem_map_of_mem hi, (letters i).1, (letters i).2, rfl, ?_⟩
    rw [cString_eq_self_iff.2 hnul]
  have hnodup : ((List.range n).map letters).Nodup := by
    refine List.nodup_range.map fun i j heq => ?_
    have hlen := congrArg (fun k : Text × Text => k.2.length) heq
    simpa [letters] using hlen
  have hlen := (hnodup.subperm hsub).length_le
  rw [List.length_map, List.length_range] at hlen
  exact hlen.trans (length_keys_le _ _)

/-- One name more: its search goes on for ever. -/
theorem not_interning : ¬empty.EachConstruction Faithful (flood (slots + 1)) :=
  mt length_flood_le (Nat.not_succ_le_self slots)

end Names

end Jingle.Xmllite
