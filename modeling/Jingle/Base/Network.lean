/-
The list of networks.

`MergeNetworkList` sorts the new objects by name.  For each of them the map gives the object
that already has the name, which takes over the addresses, or the new object is put into the
map; the place of the new object in `networks_` gets the object of the map.  An object of the
map is never deleted.  Entries of one name come to one object, which has the addresses of the
last one.

* `mergeLoop_spec` — what the loop does to the objects, whatever order the sort leaves
  entries of one name in.
* **`allFaithful_iff`** — every list of a run is reported exactly, with its objects kept and
  its changes signalled, if and only if in each list entries of one name are the same.
-/
import Jingle.Lib.SortedMap
import Mathlib.Data.List.Sort
import Mathlib.Data.String.Basic

namespace Jingle.Base

structure Network (ν : Type) where
  name : ν
  ip : BitVec 32
  gatewayIp : BitVec 32
deriving DecidableEq

/-- `NetworkManagerBase`.  An object is the number of its allocation, and `heap` has the
objects that are not deleted. -/
structure NetworkManagerBase (ν : Type) [LinearOrder ν] where
  heap : ℕ → Option (Network ν)
  allocated : ℕ
  networks : List ℕ
  networksMap : SortedMap ν ℕ

namespace NetworkManagerBase

variable {ν : Type} [LinearOrder ν] {m m' : NetworkManagerBase ν} {a b : Network ν} {n : ν}
  {p q r : ℕ} {changed : Bool}

/-! ### `MergeNetworkList` -/

/-- A `Network` gets other contents, or is deleted. -/
def write (m : NetworkManagerBase ν) (p : ℕ) (network : Option (Network ν)) :
    NetworkManagerBase ν :=
  { m with heap := Function.update m.heap p network }

/-- The object of the map for a new one, and whether its addresses have changed. -/
def mergeObject (m : NetworkManagerBase ν) (changed : Bool) (p : ℕ) (item : Network ν) :
    Option (NetworkManagerBase ν × Bool × ℕ) :=
  match m.networksMap.get? item.name with
  | none => some ({ m with networksMap := m.networksMap.insert item.name p }, changed, p)
  | some q => (m.heap q).map fun network =>
    ((m.write q (some { network with ip := item.ip, gatewayIp := item.gatewayIp })).write p none,
      changed || (network.ip ≠ item.ip || network.gatewayIp ≠ item.gatewayIp), q)

/-- `!changed && networks_[i]->name() != network->name()`, or the change there was. -/
def nameChanged (m : NetworkManagerBase ν) (changed : Bool) (q : ℕ) (old : Option ℕ) :
    Option Bool :=
  if changed then some true
  else (old.bind m.heap).bind fun previous =>
    (m.heap q).map fun network => previous.name ≠ network.name

/-- One run of the loop, for `list[i]` and what `networks_[i]` is before. -/
def mergeNetwork (m : NetworkManagerBase ν) (changed : Bool) (p : ℕ) (old : Option ℕ) :
    Option (NetworkManagerBase ν × Bool × ℕ) :=
  (m.heap p).bind fun item =>
    (mergeObject m changed p item).bind fun out =>
      (nameChanged out.1 out.2.1 out.2.2 old).map fun changed => (out.1, changed, out.2.2)

/-- The loop; it reads a place of `networks_` before it writes it. -/
def mergeLoop (m : NetworkManagerBase ν) (changed : Bool) :
    List ℕ → List (Option ℕ) → Option (NetworkManagerBase ν × Bool × List ℕ)
  | p :: list, old :: networks =>
    (mergeNetwork m changed p old).bind fun out =>
      (mergeLoop out.1 out.2.1 list networks).map fun rest =>
        (rest.1, rest.2.1, out.2.2 :: rest.2.2)
  | _, _ => some (m, changed, [])

/-- `networks_.resize(size)`. -/
def resize (networks : List ℕ) (size : ℕ) : List (Option ℕ) :=
  (networks.take size).map some ++ List.replicate (size - networks.length) none

/-- `MergeNetworkList` behind the sort: the manager, and whether `SignalNetworksChanged` is
raised. -/
def mergeSorted (m : NetworkManagerBase ν) (list : List ℕ) (force : Bool) :
    Option (NetworkManagerBase ν × Bool) :=
  (mergeLoop m (m.networks.length ≠ list.length) list (resize m.networks list.length)).map
    fun out => ({ out.1 with networks := out.2.2 }, out.2.1 || force)

def CompareNetworks (m : NetworkManagerBase ν) (p q : ℕ) : Prop :=
  ∃ a b, m.heap p = some a ∧ m.heap q = some b ∧ a.name < b.name

/-- `std::sort` leaves no pair in the wrong order. -/
def IsSort (m : NetworkManagerBase ν) (list sorted : List ℕ) : Prop :=
  sorted.Perm list ∧ sorted.Pairwise fun p q => ¬m.CompareNetworks q p

/-- The caller allocates a list of objects. -/
def allocate (m : NetworkManagerBase ν) (list : List (Network ν)) : NetworkManagerBase ν :=
  { m with
    heap := fun p => if p < m.allocated then m.heap p else list[p - m.allocated]?
    allocated := m.allocated + list.length }

/-- The objects of the list. -/
def newNetworks (m : NetworkManagerBase ν) (list : List (Network ν)) : List ℕ :=
  List.range' m.allocated list.length

/-- `MergeNetworkList`, with any outcome of the sort. -/
def MergeNetworkList (m : NetworkManagerBase ν) (list : List (Network ν)) (force : Bool)
    (m' : NetworkManagerBase ν) (signal : Bool) : Prop :=
  ∃ sorted, (m.allocate list).IsSort (m.newNetworks list) sorted ∧
    (m.allocate list).mergeSorted sorted force = some (m', signal)

/-- `GetNetworks`, with what the objects say. -/
def getNetworks (m : NetworkManagerBase ν) : List (Network ν) := m.networks.filterMap m.heap

/-- A manager that has had no list. -/
def start : NetworkManagerBase ν := ⟨fun _ => none, 0, [], .empty⟩

/-! ### Entries by name -/

/-- Entries of one name are the same. -/
def Consistent (list : List (Network ν)) : Prop :=
  ∀ a ∈ list, ∀ b ∈ list, a.name = b.name → a = b

omit [LinearOrder ν] in
theorem Consistent.perm {list list' : List (Network ν)} (h : Consistent list)
    (hperm : list.Perm list') : Consistent list' := fun a ha b hb =>
  h a (hperm.mem_iff.2 ha) b (hperm.mem_iff.2 hb)

/-- Every name of a list gets its last entry. -/
def latest (view : ν → Option (Network ν)) (list : List (Network ν)) : ν → Option (Network ν) :=
  list.foldl (fun view a => Function.update view a.name (some a)) view

/-- What the names stand for does not fit to an entry, or its place had another name. -/
def Mismatch (view : ν → Option (Network ν)) (a : Network ν) (old : Option ν) : Prop :=
  (∃ b, view a.name = some b ∧ b ≠ a) ∨ ∃ n, old = some n ∧ n ≠ a.name

theorem latest_cases (view : ν → Option (Network ν)) (list : List (Network ν)) (n : ν) :
    (∃ a ∈ list, a.name = n ∧ latest view list n = some a) ∨
      (∀ a ∈ list, a.name ≠ n) ∧ latest view list n = view n := by
  induction list generalizing view with
  | nil => exact .inr ⟨fun a ha => absurd ha List.not_mem_nil, rfl⟩
  | cons b list ih =>
    obtain ⟨a, ha, hname, heq⟩ | ⟨hnone, heq⟩ := ih (Function.update view b.name (some b))
    · exact .inl ⟨a, List.mem_cons_of_mem b ha, hname, heq⟩
    · by_cases hb : b.name = n
      · subst hb
        rw [Function.update_self] at heq
        exact .inl ⟨b, List.mem_cons_self, rfl, heq⟩
      · rw [Function.update_of_ne (Ne.symm hb)] at heq
        exact .inr ⟨List.forall_mem_cons.2 ⟨hb, hnone⟩, heq⟩

theorem latest_of_consistent {list : List (Network ν)} (h : Consistent list) (ha : a ∈ list)
    (view : ν → Option (Network ν)) : latest view list a.name = some a := by
  obtain ⟨b, hb, hname, heq⟩ | ⟨hnone, -⟩ := latest_cases view list a.name
  · rw [heq, h b hb a ha hname]
  · exact absurd rfl (hnone a ha)

/-- Among entries of which those of one name are the same, an entry that has been merged
makes no difference for the other ones. -/
theorem mismatch_update {view : ν → Option (Network ν)} {list : List (Network ν)}
    (h : Consistent (a :: list)) {olds : List (Option ν)} {old : Option ν} :
    (Mismatch view a old ∨ ∃ e ∈ list.zip olds,
      Mismatch (Function.update view a.name (some a)) e.1 e.2) ↔
      Mismatch view a old ∨ ∃ e ∈ list.zip olds, Mismatch view e.1 e.2 := by
  refine or_congr_right' fun ha => exists_congr fun e => and_congr_right fun he => ?_
  by_cases hname : e.1.name = a.name
  · have heq : e.1 = a :=
      h _ (List.mem_cons_of_mem a (List.of_mem_zip he).1) a List.mem_cons_self hname
    rw [Mismatch, Mismatch, heq, Function.update_self]
    refine or_congr_left' fun _ => iff_of_false ?_ fun hb => ha (.inl hb)
    rintro ⟨b, hb, hne⟩
    exact hne (Option.some.inj hb).symm
  · rw [Mismatch, Mismatch, Function.update_of_ne hname]

theorem forall_not_mismatch_iff {view : ν → Option (Network ν)} {list before : List (Network ν)}
    (hview : ∀ b ∈ before, view b.name = some b) (hlength : before.length = list.length) :
    (¬∃ e ∈ list.zip (before.map fun b => some b.name), Mismatch view e.1 e.2) ↔ list = before := by
  induction list generalizing before with
  | nil => simp [List.length_eq_zero_iff.1 hlength]
  | cons a list ih =>
    rcases before with _ | ⟨b, before⟩
    · cases hlength
    · have hrest := ih (List.forall_mem_cons.1 hview).2 (Nat.succ.inj hlength)
      have hb := (List.forall_mem_cons.1 hview).1
      have hfirst : ¬Mismatch view a (some b.name) ↔ a = b := by
        constructor
        · intro hno
          have hname : b.name = a.name := by
            by_contra hne
            exact hno (.inr ⟨_, rfl, hne⟩)
          by_contra hne
          exact hno (.inl ⟨b, hname ▸ hb, Ne.symm hne⟩)
        · rintro rfl (⟨c, hc, hne⟩ | ⟨n, hn, hne⟩)
          · rw [hb] at hc
            exact hne (Option.some.inj hc).symm
          · exact hne (Option.some.inj hn).symm
      simp only [List.map_cons, List.zip_cons_cons, List.exists_mem_cons_iff, not_or]
      rw [hfirst, hrest, List.cons.injEq]

/-! ### One entry -/

/-- The objects of the map live and have its names. -/
structure Inv (m : NetworkManagerBase ν) : Prop where
  fresh : ∀ p, m.allocated ≤ p → m.heap p = none
  object : ∀ n p, m.networksMap.get? n = some p → ∃ a, m.heap p = some a ∧ a.name = n

/-- What the names stand for. -/
def view (m : NetworkManagerBase ν) (n : ν) : Option (Network ν) :=
  (m.networksMap.get? n).bind m.heap

def nameOf (m : NetworkManagerBase ν) (old : Option ℕ) : Option ν :=
  (old.bind m.heap).map fun network => network.name

/-- An object of the map. -/
def Registered (m : NetworkManagerBase ν) (p : ℕ) : Prop :=
  ∃ a, m.heap p = some a ∧ m.networksMap.get? a.name = some p

/-- `m'` is `m` where the entry `a`, whose object is `p`, has been merged into the object
`q`. -/
structure Merged (m : NetworkManagerBase ν) (p : ℕ) (a : Network ν) (m' : NetworkManagerBase ν)
    (q : ℕ) : Prop where
  get_self : m'.networksMap.get? a.name = some q
  get_of_ne : ∀ n, n ≠ a.name → m'.networksMap.get? n = m.networksMap.get? n
  source : m.networksMap.get? a.name = some q ∨ m.networksMap.get? a.name = none ∧ q = p
  heap_self : m'.heap q = some a
  heap_of_ne : ∀ r, r ≠ p → r ≠ q → m'.heap r = m.heap r
  allocated : m'.allocated = m.allocated

theorem mergeObject_of_none (hget : m.networksMap.get? a.name = none) :
    mergeObject m changed p a =
      some ({ m with networksMap := m.networksMap.insert a.name p }, changed, p) := by
  rw [mergeObject, hget]

theorem mergeObject_of_some (hget : m.networksMap.get? a.name = some q) (hb : m.heap q = some b) :
    mergeObject m changed p a =
      some ((m.write q (some { b with ip := a.ip, gatewayIp := a.gatewayIp })).write p none,
        changed || (b.ip ≠ a.ip || b.gatewayIp ≠ a.gatewayIp), q) := by
  rw [mergeObject, hget]
  exact congrArg (Option.map _) hb

section

variable (hm : Inv m) (hp : m.heap p = some a) (hnew : ∀ n, m.networksMap.get? n ≠ some p)
include hm hp hnew

theorem mergeObject_spec (changed : Bool) :
    ∃ m' changed' q, mergeObject m changed p a = some (m', changed', q) ∧ Merged m p a m' q ∧
      (changed' = true ↔ changed = true ∨ ∃ b, m.view a.name = some b ∧ b ≠ a) := by
  rcases hget : m.networksMap.get? a.name with _ | q
  · refine ⟨_, _, _, mergeObject_of_none hget, ?_, ?_⟩
    · exact ⟨SortedMap.get?_insert_self, fun n hn => SortedMap.get?_insert_of_ne hn,
        .inr ⟨hget, rfl⟩, hp, fun r _ _ => rfl, rfl⟩
    · simp [view, hget]
  · obtain ⟨b, hb, hname⟩ := hm.object _ _ hget
    have hne : q ≠ p := by
      rintro rfl
      exact hnew _ hget
    refine ⟨_, _, _, mergeObject_of_some hget hb, ?_, ?_⟩
    · refine ⟨hget, fun n _ => rfl, .inl hget, ?_, fun r hrp hrq => ?_, rfl⟩
      · simp [write, Function.update_of_ne hne, hname]
      · simp [write, Function.update_of_ne hrp, Function.update_of_ne hrq]
    · have hview : m.view a.name = some b := by rw [view, hget, Option.bind_some, hb]
      have hsame : b ≠ a ↔ b.ip ≠ a.ip ∨ b.gatewayIp ≠ a.gatewayIp := by
        rw [← not_and_or, not_iff_not]
        constructor
        · rintro rfl
          exact ⟨rfl, rfl⟩
        · rintro ⟨hip, hgateway⟩
          cases a
          cases b
          simp_all
      simp [hview, hsame]

variable (hmerged : Merged m p a m' q)
include hmerged

theorem Merged.heap_object (hn : n ≠ a.name) (hr : m.networksMap.get? n = some r) :
    m'.heap r = m.heap r := by
  have hrp : r ≠ p := by
    rintro rfl
    exact hnew _ hr
  refine hmerged.heap_of_ne r hrp ?_
  rintro rfl
  obtain ⟨b, hb, rfl⟩ := hm.object _ _ hr
  obtain hget | ⟨-, rfl⟩ := hmerged.source
  · obtain ⟨c, hc, hname⟩ := hm.object _ _ hget
    rw [hb, Option.some.injEq] at hc
    exact hn (hc ▸ hname)
  · exact hrp rfl

theorem Merged.view_eq : m'.view = Function.update m.view a.name (some a) := by
  funext n
  by_cases hn : n = a.name
  · rw [hn, Function.update_self, view, hmerged.get_self, Option.bind_some, hmerged.heap_self]
  · rw [Function.update_of_ne hn, view, view, hmerged.get_of_ne n hn]
    rcases hget : m.networksMap.get? n with _ | r
    · rfl
    · exact hmerged.heap_object hm hp hnew hn hget

theorem Merged.registered (hr : m.heap r = some b) (hget : m.networksMap.get? b.name = some r) :
    ∃ c, m'.heap r = some c ∧ c.name = b.name ∧ m'.networksMap.get? c.name = some r := by
  by_cases hn : b.name = a.name
  · obtain hq | ⟨hnone, -⟩ := hmerged.source
    · rw [hn, hq, Option.some.injEq] at hget
      subst hget
      exact ⟨a, hmerged.heap_self, hn.symm, hmerged.get_self⟩
    · rw [hn, hnone] at hget
      cases hget
  · refine ⟨b, (hmerged.heap_object hm hp hnew hn hget).trans hr, rfl, ?_⟩
    rw [hmerged.get_of_ne _ hn, hget]

theorem Merged.inv : Inv m' := by
  constructor
  · intro r hr
    rw [hmerged.allocated] at hr
    have hnone := hm.fresh r hr
    rw [hmerged.heap_of_ne r ?_ ?_, hnone]
    · rintro rfl
      rw [hnone] at hp
      cases hp
    · rintro rfl
      obtain hget | ⟨-, rfl⟩ := hmerged.source
      · obtain ⟨b, hb, -⟩ := hm.object _ _ hget
        rw [hnone] at hb
        cases hb
      · rw [hnone] at hp
        cases hp
  · intro n r hr
    by_cases hn : n = a.name
    · subst hn
      rw [hmerged.get_self, Option.some.injEq] at hr
      exact hr ▸ ⟨a, hmerged.heap_self, rfl⟩
    · rw [hmerged.get_of_ne n hn] at hr
      rw [hmerged.heap_object hm hp hnew hn hr]
      exact hm.object n r hr

omit hm in
theorem Merged.pending (hr : ∀ n, m.networksMap.get? n ≠ some r) (hne : r ≠ p) :
    m'.heap r = m.heap r ∧ ∀ n, m'.networksMap.get? n ≠ some r := by
  have hrq : r ≠ q := by
    rintro rfl
    obtain hget | ⟨-, rfl⟩ := hmerged.source
    · exact hr _ hget
    · exact hne rfl
  refine ⟨hmerged.heap_of_ne r hne hrq, fun n hget => ?_⟩
  by_cases hn : n = a.name
  · rw [hn, hmerged.get_self, Option.some.injEq] at hget
    exact hrq hget.symm
  · rw [hmerged.get_of_ne n hn] at hget
    exact hr n hget

end

theorem nameOf_of_registered (hm : Inv m) (hp : m.heap p = some a)
    (hnew : ∀ n, m.networksMap.get? n ≠ some p) (hmerged : Merged m p a m' q)
    (hr : Registered m r) : m'.nameOf (some r) = m.nameOf (some r) := by
  obtain ⟨b, hb, hget⟩ := hr
  obtain ⟨c, hc, hname, -⟩ := hmerged.registered hm hp hnew hb hget
  rw [nameOf, nameOf, Option.bind_some, Option.bind_some, hb, hc, Option.map_some, Option.map_some,
    hname]

theorem mergeNetwork_spec (hm : Inv m) (hp : m.heap p = some a)
    (hnew : ∀ n, m.networksMap.get? n ≠ some p) {old : Option ℕ}
    (hold : changed = true ∨ ∃ r, old = some r ∧ Registered m r) :
    ∃ m' changed' q, mergeNetwork m changed p old = some (m', changed', q) ∧ Merged m p a m' q ∧
      (changed' = true ↔ changed = true ∨ Mismatch m.view a (m.nameOf old)) := by
  obtain ⟨m', seen, q, heq, hmerged, hseen⟩ := mergeObject_spec hm hp hnew changed
  rw [mergeNetwork, hp, Option.bind_some, heq, Option.bind_some, nameChanged]
  by_cases hs : seen = true
  · refine ⟨m', true, q, by rw [if_pos hs]; rfl, hmerged, iff_of_true rfl ?_⟩
    exact (hseen.1 hs).imp_right .inl
  · have hno := mt hseen.2 hs
    rw [not_or] at hno
    obtain ⟨r, rfl, hr⟩ := hold.resolve_left hno.1
    obtain ⟨b, hb, hget⟩ := hr
    obtain ⟨c, hc, hname, -⟩ := hmerged.registered hm hp hnew hb hget
    refine ⟨m', decide (c.name ≠ a.name), q, ?_, hmerged, ?_⟩
    · rw [if_neg hs, Option.bind_some, hc, Option.bind_some, hmerged.heap_self]
      rfl
    · rw [decide_eq_true_iff, or_iff_right hno.1, Mismatch, or_iff_right hno.2, nameOf,
        Option.bind_some, hb, Option.map_some, hname]
      exact ⟨fun hne => ⟨_, rfl, hne⟩, fun ⟨n, hn, hne⟩ => Option.some.inj hn ▸ hne⟩

/-! ### The loop -/

/-- New objects with their entries: none of them is in the map. -/
structure Pending (m : NetworkManagerBase ν) (list : List ℕ) (items : List (Network ν)) :
    Prop where
  objects : List.Forall₂ (fun p a => m.heap p = some a) list items
  nodup : list.Nodup
  not_mem : ∀ p ∈ list, ∀ n, m.networksMap.get? n ≠ some p

/-- What the places of `networks_` have before they are written. -/
structure Places (m : NetworkManagerBase ν) (changed : Bool) (olds : List (Option ℕ)) : Prop where
  registered : ∀ r, some r ∈ olds → Registered m r
  full : changed = true ∨ none ∉ olds

/-- `m'` is `m` after a loop over entries; the places have got the objects `qs`. -/
structure LoopMerged (m : NetworkManagerBase ν) (items : List (Network ν))
    (m' : NetworkManagerBase ν) (qs : List ℕ) : Prop where
  inv : Inv m'
  view_eq : m'.view = latest m.view items
  kept : ∀ n r, m.networksMap.get? n = some r → m'.networksMap.get? n = some r
  objects : List.Forall₂ (fun a q => m'.networksMap.get? a.name = some q) items qs

theorem Pending.tail {list : List ℕ} {items : List (Network ν)}
    (h : Pending m (p :: list) (a :: items)) (hmerged : Merged m p a m' q) :
    Pending m' list items := by
  obtain ⟨hp, hobjects⟩ := List.forall₂_cons.1 h.objects
  obtain ⟨hpnot, hnodup⟩ := List.nodup_cons.1 h.nodup
  have hpending : ∀ r ∈ list, m'.heap r = m.heap r ∧ ∀ n, m'.networksMap.get? n ≠ some r := by
    intro r hr
    refine hmerged.pending hp (h.not_mem p List.mem_cons_self)
      (h.not_mem r (List.mem_cons_of_mem p hr)) ?_
    rintro rfl
    exact hpnot hr
  refine ⟨?_, hnodup, fun r hr => (hpending r hr).2⟩
  refine List.forall₂_iff_get.2 ⟨hobjects.length_eq, fun i hi hi' => ?_⟩
  rw [(hpending _ (List.get_mem list ⟨i, hi⟩)).1]
  exact (List.forall₂_iff_get.1 hobjects).2 i hi hi'

/-- **The loop merges its entries in their order**, and sees whether one of them does not fit
if entries of one name are the same. -/
theorem mergeLoop_spec {list : List ℕ} {items : List (Network ν)} {olds : List (Option ℕ)}
    (hm : Inv m) (hpending : Pending m list items) (hplaces : Places m changed olds)
    (hlength : olds.length = items.length) :
    ∃ m' changed' qs, mergeLoop m changed list olds = some (m', changed', qs) ∧
      LoopMerged m items m' qs ∧
      (Consistent items → (changed' = true ↔ changed = true ∨
        ∃ e ∈ items.zip (olds.map m.nameOf), Mismatch m.view e.1 e.2)) := by
  induction items generalizing m changed list olds with
  | nil =>
    obtain rfl := List.forall₂_nil_right_iff.1 hpending.objects
    obtain rfl := List.length_eq_zero_iff.1 hlength
    exact ⟨m, changed, [], rfl, ⟨hm, rfl, fun _ _ h => h, .nil⟩, fun _ => by simp⟩
  | cons a items ih =>
    obtain ⟨p, list, hp, -, rfl⟩ := List.forall₂_cons_right_iff.1 hpending.objects
    rcases olds with _ | ⟨old, olds⟩
    · cases hlength
    have hnew := hpending.not_mem p List.mem_cons_self
    have hold : changed = true ∨ ∃ r, old = some r ∧ Registered m r := by
      refine hplaces.full.imp_right fun hnone => ?_
      rcases old with _ | r
      · exact absurd List.mem_cons_self hnone
      · exact ⟨r, rfl, hplaces.registered r List.mem_cons_self⟩
    obtain ⟨m₁, changed₁, q, heq, hmerged, hchanged⟩ := mergeNetwork_spec hm hp hnew hold
    have hnames : olds.map m₁.nameOf = olds.map m.nameOf := by
      refine List.map_congr_left fun old hmem => ?_
      rcases old with _ | r
      · rfl
      · exact nameOf_of_registered hm hp hnew hmerged
          (hplaces.registered r (List.mem_cons_of_mem _ hmem))
    have hplaces₁ : Places m₁ changed₁ olds := by
      refine ⟨fun r hr => ?_, ?_⟩
      · obtain ⟨b, hb, hget⟩ := hplaces.registered r (List.mem_cons_of_mem _ hr)
        obtain ⟨c, hc, -, hgetc⟩ := hmerged.registered hm hp hnew hb hget
        exact ⟨c, hc, hgetc⟩
      · exact hplaces.full.imp (fun h => hchanged.2 (.inl h))
          fun hnone hmem => hnone (List.mem_cons_of_mem _ hmem)
    obtain ⟨m₂, changed₂, qs, hloop, hrest, hseen⟩ := ih (hmerged.inv hm hp hnew)
      (hpending.tail hmerged) hplaces₁ (Nat.succ.inj hlength)
    refine ⟨m₂, changed₂, q :: qs, ?_, ?_, fun hcons => ?_⟩
    · rw [mergeLoop, heq, Option.bind_some, hloop, Option.map_some]
    · refine ⟨hrest.inv, ?_, fun n r hr => ?_,
        .cons (hrest.kept _ _ hmerged.get_self) hrest.objects⟩
      · rw [hrest.view_eq, hmerged.view_eq hm hp hnew]
        rfl
      · refine hrest.kept n r ?_
        by_cases hn : n = a.name
        · subst hn
          obtain hq | ⟨hnone, -⟩ := hmerged.source
          · rw [hmerged.get_self, ← hq, hr]
          · rw [hnone] at hr
            cases hr
        · rw [hmerged.get_of_ne n hn, hr]
    · have htail : Consistent items := fun b hb c hc =>
        hcons b (List.mem_cons_of_mem a hb) c (List.mem_cons_of_mem a hc)
      rw [hseen htail, hchanged, hnames, hmerged.view_eq hm hp hnew, List.map_cons,
        List.zip_cons_cons, List.exists_mem_cons_iff, or_assoc, mismatch_update hcons]

/-! ### The whole merge -/

/-- The manager between two merges. -/
structure Settled (m : NetworkManagerBase ν) : Prop where
  inv : Inv m
  registered : ∀ p ∈ m.networks, Registered m p
  sorted : m.getNetworks.Pairwise fun a b => a.name ≤ b.name

theorem settled_start : Settled (start : NetworkManagerBase ν) :=
  ⟨⟨fun _ _ => rfl, fun _ _ h => by cases h⟩, fun _ h => absurd h List.not_mem_nil, .nil⟩

theorem forall₂_filterMap {α β : Type} {f : α → Option β} {l : List α}
    (h : ∀ x ∈ l, (f x).isSome) : List.Forall₂ (fun x y => f x = some y) l (l.filterMap f) := by
  induction l with
  | nil => exact .nil
  | cons x l ih =>
    obtain ⟨hx, hl⟩ := List.forall_mem_cons.1 h
    obtain ⟨y, hy⟩ := Option.isSome_iff_exists.1 hx
    rw [List.filterMap_cons_some hy]
    exact .cons hy (ih hl)

theorem forall₂_filterMap_left {α β γ : Type} {f : α → Option β} {R : β → γ → Prop} {l : List α}
    {l' : List γ} (h : List.Forall₂ (fun x z => ∃ y, f x = some y ∧ R y z) l l') :
    List.Forall₂ R (l.filterMap f) l' := by
  induction h with
  | nil => exact .nil
  | cons hx _ ih =>
    obtain ⟨y, hy, hR⟩ := hx
    rw [List.filterMap_cons_some hy]
    exact .cons hR ih

theorem map_eq_map_of_forall₂ {α β γ : Type} {f : α → γ} {g : β → γ} {l : List α} {l' : List β}
    (h : List.Forall₂ (fun x y => f x = g y) l l') : l.map f = l'.map g := by
  induction h with
  | nil => rfl
  | cons hx _ ih => rw [List.map_cons, List.map_cons, hx, ih]

theorem filterMap_eq_of_forall₂ {α β : Type} {f : α → Option β} {l : List α} {l' : List β}
    (h : List.Forall₂ (fun x y => f x = some y) l l') : l.filterMap f = l' := by
  induction h with
  | nil => rfl
  | cons hx _ ih => rw [List.filterMap_cons_some hx, ih]

theorem heap_allocate_newNetworks (m : NetworkManagerBase ν) (list : List (Network ν)) :
    List.Forall₂ (fun p a => (m.allocate list).heap p = some a) (m.newNetworks list) list := by
  refine List.forall₂_iff_get.2 ⟨List.length_range', fun i hi hi' => ?_⟩
  have hp : (m.newNetworks list).get ⟨i, hi⟩ = m.allocated + i := by simp [newNetworks]
  rw [hp, allocate]
  simp [hi']

theorem Inv.heap_allocate (h : Inv m) (list : List (Network ν)) (hp : m.heap p = some a) :
    (m.allocate list).heap p = some a := by
  refine (if_pos ?_).trans hp
  by_contra hge
  rw [h.fresh p (not_lt.1 hge)] at hp
  cases hp

theorem Inv.allocate (h : Inv m) (list : List (Network ν)) : Inv (m.allocate list) := by
  refine ⟨fun p hp => ?_, fun n p hp => ?_⟩
  · rw [NetworkManagerBase.allocate] at hp ⊢
    dsimp only at hp ⊢
    rw [if_neg (by omega), List.getElem?_eq_none (by omega)]
  · obtain ⟨a, ha, hname⟩ := h.object n p hp
    exact ⟨a, h.heap_allocate list ha, hname⟩

theorem Registered.allocate (hr : Registered m r) (h : Inv m) (list : List (Network ν)) :
    Registered (m.allocate list) r := by
  obtain ⟨a, ha, hget⟩ := hr
  exact ⟨a, h.heap_allocate list ha, hget⟩

theorem Settled.objects (h : Settled m) :
    List.Forall₂ (fun p a => m.heap p = some a) m.networks m.getNetworks :=
  forall₂_filterMap fun p hp => by
    obtain ⟨a, ha, -⟩ := h.registered p hp
    rw [ha]
    rfl

theorem Settled.view_eq (h : Settled m) (ha : a ∈ m.getNetworks) (list : List (Network ν)) :
    (m.allocate list).view a.name = some a := by
  obtain ⟨p, hp, hpa⟩ := List.mem_filterMap.1 ha
  obtain ⟨b, hb, hget⟩ := h.registered p hp
  obtain rfl : b = a := Option.some.inj (hb.symm.trans hpa)
  exact (congrArg (fun q : Option ℕ => q.bind (m.allocate list).heap) hget).trans
    (h.inv.heap_allocate list hb)

theorem resize_eq {networks : List ℕ} {size : ℕ} (h : networks.length = size) :
    resize networks size = networks.map some := by
  rw [resize, List.take_of_length_le h.le, h, Nat.sub_self, List.replicate_zero, List.append_nil]

theorem length_resize (networks : List ℕ) (size : ℕ) : (resize networks size).length = size := by
  simp only [resize, List.length_append, List.length_map, List.length_take, List.length_replicate]
  omega

theorem Settled.places (h : Settled m) (list : List (Network ν)) (size : ℕ) :
    Places (m.allocate list) (m.networks.length ≠ size) (resize m.networks size) := by
  refine ⟨fun r hr => ?_, ?_⟩
  · rw [resize, List.mem_append] at hr
    obtain hr | hr := hr
    · obtain ⟨p, hp, heq⟩ := List.mem_map.1 hr
      exact (h.registered r (Option.some.inj heq ▸ List.mem_of_mem_take hp)).allocate h.inv list
    · cases (List.mem_replicate.1 hr).2
  · by_cases hsize : m.networks.length = size
    · rw [resize_eq hsize]
      exact .inr (by simp)
    · exact .inl (decide_eq_true hsize)

section

variable {list : List (Network ν)} {order : List ℕ}

theorem IsSort.items (hsort : (m.allocate list).IsSort (m.newNetworks list) order) :
    (order.filterMap (m.allocate list).heap).Perm list := by
  have hperm := hsort.1.filterMap (m.allocate list).heap
  rwa [filterMap_eq_of_forall₂ (heap_allocate_newNetworks m list)] at hperm

theorem IsSort.sorted (hsort : (m.allocate list).IsSort (m.newNetworks list) order) :
    (order.filterMap (m.allocate list).heap).Pairwise fun a b => a.name ≤ b.name := by
  refine List.pairwise_filterMap.2 (hsort.2.imp fun hpq a ha b hb => ?_)
  exact not_lt.1 fun hlt => hpq ⟨b, a, hb, ha, hlt⟩

theorem isSome_heap_allocate (hp : p ∈ m.newNetworks list) :
    ((m.allocate list).heap p).isSome := by
  obtain ⟨hge, hlt⟩ := List.mem_range'_1.1 hp
  rw [allocate]
  dsimp only
  rw [if_neg (not_lt.2 hge), List.getElem?_eq_getElem (by omega)]
  rfl

theorem IsSort.pending (hsort : (m.allocate list).IsSort (m.newNetworks list) order)
    (h : Inv m) :
    Pending (m.allocate list) order (order.filterMap (m.allocate list).heap) := by
  refine ⟨forall₂_filterMap fun p hp => ?_, ?_, fun p hp n hget => ?_⟩
  · exact isSome_heap_allocate (hsort.1.mem_iff.1 hp)
  · exact hsort.1.nodup_iff.2 List.nodup_range'
  · have hge : m.allocated ≤ p := (List.mem_range'_1.1 (hsort.1.mem_iff.1 hp)).1
    obtain ⟨a, ha, -⟩ := h.object n p hget
    rw [h.fresh p hge] at ha
    cases ha

theorem report_perm_iff {items report : List (Network ν)} {before : ν → Option (Network ν)}
    (hperm : items.Perm list)
    (hreport : List.Forall₂ (fun c a => m.view a.name = some c ∧ c.name = a.name) report items)
    (hview : m.view = latest before items) : report.Perm list ↔ Consistent list := by
  constructor
  · intro hsame
    have hmem : ∀ c ∈ report, m.view c.name = some c :=
      ((List.forall₂_and_left report items).1 (hreport.imp fun c a h =>
        ⟨(congrArg m.view h.2).trans h.1, h⟩)).1
    intro a ha b hb hname
    have hview := hmem a (hsame.mem_iff.2 ha)
    rw [hname, hmem b (hsame.mem_iff.2 hb), Option.some.injEq] at hview
    exact hview.symm
  · intro hcons
    have hitems : ∀ a ∈ items, m.view a.name = some a := by
      intro a ha
      rw [hview]
      exact latest_of_consistent (hcons.perm hperm.symm) ha before
    have heq : items = report := List.forall₂_eq_eq_eq ▸
      ((List.forall₂_and_left items report).2 ⟨hitems, hreport.flip⟩).imp fun a c h =>
        Option.some.inj (h.1.symm.trans h.2.1)
    exact heq ▸ hperm

theorem changed_iff (h : Settled m)
    (hsort : (m.allocate list).IsSort (m.newNetworks list) order) (hcons : Consistent list) :
    (decide (m.networks.length ≠ order.length) = true ∨
      ∃ e ∈ (order.filterMap (m.allocate list).heap).zip
        ((resize m.networks order.length).map (m.allocate list).nameOf),
          Mismatch (m.allocate list).view e.1 e.2) ↔ ¬list.Perm m.getNetworks := by
  set items := order.filterMap (m.allocate list).heap with hitems
  have hperm : items.Perm list := hsort.items
  have hlength : order.length = items.length := (hsort.pending h.inv).objects.length_eq
  have hbefore : m.networks.length = m.getNetworks.length := h.objects.length_eq
  by_cases hsize : m.networks.length = order.length
  · have hnames : (m.networks.map some).map (m.allocate list).nameOf =
        m.getNetworks.map fun b => some b.name := by
      rw [List.map_map]
      refine map_eq_map_of_forall₂ (h.objects.imp fun p b hp => ?_)
      rw [Function.comp_apply, nameOf, Option.bind_some, h.inv.heap_allocate list hp,
        Option.map_some]
    rw [or_iff_right (by simpa using hsize), resize_eq hsize, hnames]
    rw [← not_iff_not, not_not, forall_not_mismatch_iff (fun b hb => h.view_eq hb list) (by omega)]
    constructor
    · intro heq
      exact heq ▸ hperm.symm
    · intro hsame
      refine List.Perm.eq_of_pairwise (fun a b ha hb hab hba => ?_) hsort.sorted h.sorted
        (hperm.trans hsame)
      exact hcons a (hperm.mem_iff.1 ha) b (hsame.mem_iff.2 hb) (le_antisymm hab hba)
  · refine iff_of_true (.inl (decide_eq_true hsize)) fun hsame => hsize ?_
    rw [hbefore, hlength, ← hsame.length_eq, hperm.length_eq]

theorem mergeSorted_spec (h : Settled m)
    (hsort : (m.allocate list).IsSort (m.newNetworks list) order) (force : Bool) :
    ∃ m' signal, (m.allocate list).mergeSorted order force = some (m', signal) ∧ Settled m' ∧
      (∀ n r, m.networksMap.get? n = some r → m'.networksMap.get? n = some r) ∧
      (m'.getNetworks.Perm list ↔ Consistent list) ∧
      (Consistent list → (signal = true ↔ ¬list.Perm m.getNetworks ∨ force = true)) := by
  set items := order.filterMap (m.allocate list).heap with hitems
  have hperm : items.Perm list := hsort.items
  have hpending : Pending (m.allocate list) order items := hsort.pending h.inv
  have hlength : items.length = order.length := hpending.objects.length_eq.symm
  obtain ⟨m₁, changed, qs, hloop, hmerged, hchanged⟩ := mergeLoop_spec (h.inv.allocate list)
    hpending (h.places list order.length) ((length_resize _ _).trans hlength.symm)
  have hplace : List.Forall₂ (fun q a => Registered m₁ q ∧ ∃ c, m₁.heap q = some c ∧
      m₁.view a.name = some c ∧ c.name = a.name) qs items := by
    refine hmerged.objects.flip.imp fun q a hget => ?_
    obtain ⟨c, hc, hname⟩ := hmerged.inv.object _ _ hget
    refine ⟨⟨c, hc, hname ▸ hget⟩, c, hc, ?_, hname⟩
    exact (congrArg (fun q : Option ℕ => q.bind m₁.heap) hget).trans hc
  obtain ⟨hregistered, hvalues⟩ := (List.forall₂_and_left qs items).1 hplace
  have hreport := forall₂_filterMap_left hvalues
  have hnames := map_eq_map_of_forall₂ (hreport.imp fun c a h => h.2)
  refine ⟨{ m₁ with networks := qs }, changed || force, congrArg (Option.map _) hloop, ?_,
    hmerged.kept, ?_, fun hcons => ?_⟩
  · refine ⟨⟨hmerged.inv.fresh, hmerged.inv.object⟩, hregistered, ?_⟩
    have hsorted := List.pairwise_map.2 hsort.sorted
    rw [← hitems, ← hnames] at hsorted
    exact List.pairwise_map.1 hsorted
  · exact report_perm_iff hperm hreport hmerged.view_eq
  · rw [Bool.or_eq_true, hchanged (hcons.perm hperm.symm)]
    exact or_congr_left (changed_iff h hsort hcons)

theorem exists_isSort (m : NetworkManagerBase ν) (list : List (Network ν)) :
    ∃ order, (m.allocate list).IsSort (m.newNetworks list) order := by
  let key (p : ℕ) : WithBot ν := ((m.allocate list).heap p).map fun network => network.name
  have htrans : ∀ p q r, decide (key p ≤ key q) = true → decide (key q ≤ key r) = true →
      decide (key p ≤ key r) = true := by
    intro p q r hpq hqr
    rw [decide_eq_true_eq] at *
    exact hpq.trans hqr
  have htotal : ∀ p q, (decide (key p ≤ key q) || decide (key q ≤ key p)) = true := by
    intro p q
    simpa using le_total (key p) (key q)
  have hsorted := List.pairwise_mergeSort htrans htotal (m.newNetworks list)
  refine ⟨_, List.mergeSort_perm _ _, hsorted.imp fun {p q} hpq => ?_⟩
  rintro ⟨b, a, hb, ha, hlt⟩
  have hkey : ((a.name : ν) : WithBot ν) ≤ (b.name : ν) := by
    have hle := of_decide_eq_true hpq
    simp only [key, ha, hb, Option.map_some] at hle
    exact hle
  exact absurd (WithBot.coe_le_coe.1 hkey) (not_le.2 hlt)

end

/-! ### Runs -/

/-- A call of `MergeNetworkList` with what it did. -/
structure Merge (ν : Type) [LinearOrder ν] where
  before : NetworkManagerBase ν
  list : List (Network ν)
  force : Bool
  after : NetworkManagerBase ν
  signal : Bool

/-- The calls of a run, the last one first, and the manager behind them. -/
inductive Run : List (Merge ν) → NetworkManagerBase ν → Prop
  | start : Run [] start
  | merge {merges : List (Merge ν)} {m m' : NetworkManagerBase ν} {list : List (Network ν)}
      {force signal : Bool} : Run merges m → MergeNetworkList m list force m' signal →
      Run (⟨m, list, force, m', signal⟩ :: merges) m'

/-- What a merge has to do, behind another list. -/
structure Merge.Faithful (e : Merge ν) (previous : List (Network ν)) : Prop where
  report : e.after.getNetworks.Perm e.list
  keeps : ∀ p ∈ e.before.networks, ∀ q ∈ e.after.networks,
    e.before.nameOf (some p) = e.after.nameOf (some q) → p = q
  live : ∀ p, p ∈ e.after.networks ∨ (∃ n, e.after.networksMap.get? n = some p) →
    (e.after.heap p).isSome
  signal : e.signal = true ↔ ¬e.list.Perm previous ∨ e.force = true

/-- The list of the last call. -/
def lastList : List (Merge ν) → List (Network ν)
  | [] => []
  | e :: _ => e.list

def AllFaithful : List (Merge ν) → Prop
  | [] => True
  | e :: merges => e.Faithful (lastList merges) ∧ AllFaithful merges

theorem MergeNetworkList.spec {list : List (Network ν)} {force signal : Bool} (h : Settled m)
    (hstep : MergeNetworkList m list force m' signal) : Settled m' ∧
      (∀ n r, m.networksMap.get? n = some r → m'.networksMap.get? n = some r) ∧
      (m'.getNetworks.Perm list ↔ Consistent list) ∧
      (Consistent list → (signal = true ↔ ¬list.Perm m.getNetworks ∨ force = true)) := by
  obtain ⟨order, hsort, heq⟩ := hstep
  obtain ⟨m₁, signal₁, heq₁, hspec⟩ := mergeSorted_spec h hsort force
  rw [heq₁, Option.some.injEq, Prod.mk.injEq] at heq
  obtain ⟨rfl, rfl⟩ := heq
  exact hspec

theorem Run.settled {merges : List (Merge ν)} (h : Run merges m) : Settled m := by
  induction h with
  | start => exact settled_start
  | merge _ hstep ih => exact (hstep.spec ih).1

/-- **A merge does what it has to** exactly when in its list entries of one name are the
same, if this was so in the list before. -/
theorem mergeFaithful_iff {list previous : List (Network ν)} {force signal : Bool} (h : Settled m)
    (hstep : MergeNetworkList m list force m' signal) (hprevious : m.getNetworks.Perm previous) :
    (⟨m, list, force, m', signal⟩ : Merge ν).Faithful previous ↔ Consistent list := by
  obtain ⟨hsettled, hkept, hreport, hsignal⟩ := hstep.spec h
  refine ⟨fun hfaithful => hreport.1 hfaithful.report, fun hcons => ?_⟩
  refine ⟨hreport.2 hcons, fun p hp q hq hname => ?_, fun p hp => ?_, ?_⟩
  · obtain ⟨a, ha, hgeta⟩ := h.registered p hp
    obtain ⟨c, hc, hgetc⟩ := hsettled.registered q hq
    dsimp only at hname
    rw [nameOf, nameOf, Option.bind_some, Option.bind_some, ha, hc, Option.map_some,
      Option.map_some, Option.some.injEq] at hname
    have hget := hkept _ _ hgeta
    rw [hname, hgetc, Option.some.injEq] at hget
    exact hget.symm
  · obtain hp | ⟨n, hn⟩ := hp
    · obtain ⟨c, hc, -⟩ := hsettled.registered p hp
      exact Option.isSome_iff_exists.2 ⟨c, hc⟩
    · obtain ⟨c, hc, -⟩ := hsettled.inv.object n p hn
      exact Option.isSome_iff_exists.2 ⟨c, hc⟩
  · refine (hsignal hcons).trans (or_congr_left (not_congr ?_))
    exact ⟨fun hsame => hsame.trans hprevious, fun hsame => hsame.trans hprevious.symm⟩

theorem AllFaithful.report {merges : List (Merge ν)} (h : Run merges m)
    (hall : AllFaithful merges) : m.getNetworks.Perm (lastList merges) := by
  cases h with
  | start => exact .nil
  | merge hrun hstep => exact hall.1.report

theorem run_faithful_iff {merges : List (Merge ν)} (h : Run merges m) :
    AllFaithful merges ↔ ∀ e ∈ merges, Consistent e.list := by
  induction h with
  | start => exact iff_of_true trivial fun e he => absurd he List.not_mem_nil
  | merge hrun hstep ih =>
    rw [AllFaithful, List.forall_mem_cons, ← ih]
    refine and_congr_left fun hall => ?_
    exact mergeFaithful_iff hrun.settled hstep (hall.report hrun)

theorem Run.isSome {merges : List (Merge ν)} (h : Run merges m) {list : List (Network ν)}
    {order : List ℕ} (force : Bool)
    (hsort : (m.allocate list).IsSort (m.newNetworks list) order) :
    ((m.allocate list).mergeSorted order force).isSome := by
  obtain ⟨m', signal, heq, -⟩ := mergeSorted_spec h.settled hsort force
  rw [heq]
  rfl

theorem Settled.exists_merge (h : Settled m) (list : List (Network ν)) (force : Bool) :
    ∃ m' signal, MergeNetworkList m list force m' signal := by
  obtain ⟨order, hsort⟩ := exists_isSort m list
  obtain ⟨m', signal, heq, -⟩ := mergeSorted_spec h hsort force
  exact ⟨m', signal, order, hsort, heq⟩

/-- **The merges of a run do what they have to exactly when in each list the entries of one
name are the same.**  Behind every run no list and no outcome of the sort makes a merge use a
deleted object. -/
theorem allFaithful_iff {merges : List (Merge ν)} (h : Run merges m) :
    (AllFaithful merges ↔ ∀ e ∈ merges, Consistent e.list) ∧
    ∀ list order force, (m.allocate list).IsSort (m.newNetworks list) order →
      ((m.allocate list).mergeSorted order force).isSome :=
  ⟨run_faithful_iff h, fun _ _ force hsort => h.isSome force hsort⟩

/-- Two interfaces, one of them twice. -/
theorem allFaithful_iff_interfaces : ∃ m signal,
    MergeNetworkList (start : NetworkManagerBase String)
      [⟨"wlan0", 1#32, 2#32⟩, ⟨"eth0", 3#32, 4#32⟩, ⟨"wlan0", 1#32, 2#32⟩] false m signal ∧
    AllFaithful [⟨start,
      [⟨"wlan0", 1#32, 2#32⟩, ⟨"eth0", 3#32, 4#32⟩, ⟨"wlan0", 1#32, 2#32⟩], false, m, signal⟩] := by
  obtain ⟨m, signal, hstep⟩ := settled_start.exists_merge (ν := String)
    [⟨"wlan0", 1#32, 2#32⟩, ⟨"eth0", 3#32, 4#32⟩, ⟨"wlan0", 1#32, 2#32⟩] false
  exact ⟨m, signal, hstep, (allFaithful_iff (.merge .start hstep)).1.2 (by simp [Consistent])⟩

/-- An interface with two addresses: both entries are reported with the second one. -/
theorem not_allFaithful_addresses : ¬∀ (merges : List (Merge String))
    (m : NetworkManagerBase String), Run merges m → AllFaithful merges := by
  intro hall
  obtain ⟨m, signal, hstep⟩ := settled_start.exists_merge (ν := String)
    [⟨"eth0", 1#32, 2#32⟩, ⟨"eth0", 3#32, 2#32⟩] false
  have hrun := Run.merge .start hstep
  have hcons := (run_faithful_iff hrun).1 (hall _ _ hrun) _ List.mem_cons_self
  have heq := hcons ⟨"eth0", 1#32, 2#32⟩ (by simp) ⟨"eth0", 3#32, 2#32⟩ (by simp) rfl
  exact absurd (congrArg Network.ip heq) (by decide)

end NetworkManagerBase

end Jingle.Base
