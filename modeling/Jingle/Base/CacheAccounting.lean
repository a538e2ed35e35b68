/-
The sums that a disk cache keeps.

Every file of a resource that no stream writes is counted in its entry, and every entry in
the cache.  A stream that is opened for writing takes its file out of both sums, and
`ReleaseResource` puts it back as large as it is then.  `Books` is the invariant that every
call restores.

* `accounting` — **the sums and the counts are right in every run** whose calls meet their
  conditions, and each such call comes to an end without reading a null pointer;
* `not_accounting` — `Purge` forgets the entries but not their sizes, and an entry that is
  locked in a full cache may be evicted by its own lock.
-/
import Jingle.Base.DiskCache

namespace Jingle.Base

namespace DiskCache

variable {ι : Type} [LinearOrder ι] {c c' d : DiskCache ι} {env : Env ι} {id : ι} {e e' : Entry}

/-! ### The books -/

/-- What a file counts: nothing while a stream writes it. -/
def closed (c : DiskCache ι) (id : ι) (n size : ℕ) : ℕ := if c.written id n then 0 else size

/-- The size of the files of a resource that are not open for writing. -/
def closedSize (c : DiskCache ι) (id : ι) : ℕ := (c.files id).total (c.closed id)

/-- The open streams of a resource. -/
def opened (c : DiskCache ι) (id : ι) : ℕ := c.adapters.countP fun a => a.id = id

def HasLocked (c : DiskCache ι) (id : ι) : Prop :=
  ∃ e, c.map_.get? id = some e ∧ e.lock_state = .locked

structure Accounted (c : DiskCache ι) : Prop where
  total_size : c.total_size_ = c.map_.total fun _ e => e.size
  entry_size : ∀ id e, c.map_.get? id = some e → e.size = c.closedSize id
  accessors : c.total_accessors_ = c.adapters.length
  unwrapped : c.wrapped = false

structure Books (c : DiskCache ι) : Prop extends Accounted c where
  bounded : c.total_size_ < 2 ^ 64
  entry_accessors : ∀ id e, c.map_.get? id = some e → e.accessors = c.opened id
  present : ∀ a ∈ c.adapters, ∃ e, c.map_.get? a.id = some e ∧
    (a.writing ↔ e.lock_state ≠ .unlocked)

theorem Books.opened_eq_zero (h : Books c) (hnone : c.map_.get? id = none) : c.opened id = 0 := by
  refine List.countP_eq_zero.2 fun a ha => ?_
  obtain ⟨e, hget, -⟩ := h.present a ha
  simp only [decide_eq_true_eq]
  rintro rfl
  rw [hnone] at hget
  cases hget

theorem ne_of_opened_eq_zero (h : c.opened id = 0) {a : Adapter ι} (ha : a ∈ c.adapters) :
    a.id ≠ id := by simpa using List.countP_eq_zero.1 h a ha

theorem Books.size_le (h : Books c) (hget : c.map_.get? id = some e) : e.size ≤ c.total_size_ := by
  rw [h.total_size, SortedMap.total_of_get? _ hget]
  exact Nat.le_add_left _ _

theorem Books.update (h : Books c) (hget : c.map_.get? id = some e)
    (hmap : c'.map_ = c.map_.insert id e')
    (htotal : c'.total_size_ + e.size = c.total_size_ + e'.size) (hbound : c'.total_size_ < 2 ^ 64)
    (hsize : e'.size = c'.closedSize id) (hacc : e'.accessors = c'.opened id)
    (hother : ∀ i, i ≠ id → c'.closedSize i = c.closedSize i ∧ c'.opened i = c.opened i)
    (hcount : c'.total_accessors_ = c'.adapters.length) (hwrapped : c'.wrapped = false)
    (hsame : ∀ a ∈ c'.adapters, a.id = id → (a.writing ↔ e'.lock_state ≠ .unlocked))
    (hold : ∀ a ∈ c'.adapters, a.id ≠ id → a ∈ c.adapters) : Books c' := by
  refine ⟨⟨?_, fun i f hf => ?_, hcount, hwrapped⟩, hbound, fun i f hf => ?_, fun a ha => ?_⟩
  · have hsum := SortedMap.total_of_get? (fun _ (e : Entry) => e.size) hget
    have hbefore := h.total_size
    rw [hmap, SortedMap.total_insert]
    omega
  · rw [hmap] at hf
    obtain rfl | hne := eq_or_ne i id
    · rw [SortedMap.get?_insert_self] at hf
      exact Option.some.inj hf ▸ hsize
    · rw [SortedMap.get?_insert_of_ne hne] at hf
      rw [(hother i hne).1, h.entry_size i f hf]
  · rw [hmap] at hf
    obtain rfl | hne := eq_or_ne i id
    · rw [SortedMap.get?_insert_self] at hf
      exact Option.some.inj hf ▸ hacc
    · rw [SortedMap.get?_insert_of_ne hne] at hf
      rw [(hother i hne).2, h.entry_accessors i f hf]
  · rw [hmap]
    obtain heq | hne := eq_or_ne a.id id
    · exact ⟨e', heq ▸ SortedMap.get?_insert_self, hsame a ha heq⟩
    · rw [SortedMap.get?_insert_of_ne hne]
      exact h.present a (hold a ha hne)

/-! ### Files -/

theorem closedSize_eq (c : DiskCache ι) (id : ι) (index : ℕ) :
    c.closedSize id = ((c.files id).erase (fileNumber index)).total (c.closed id) +
      c.closed id (fileNumber index) (c.fileSize id index) := by
  rw [closedSize, fileSize]
  rcases hget : (c.files id).get? (fileNumber index) with _ | size
  · rw [SortedMap.erase_of_get?_eq_none hget, closed, Option.getD_none, ite_self, add_zero]
  · rw [SortedMap.total_of_get? _ hget, Option.getD_some]

theorem closedSize_rest {index : ℕ}
    (hfiles : (c'.files id).erase (fileNumber index) = (c.files id).erase (fileNumber index))
    (hwritten : ∀ n, n ≠ fileNumber index → c'.written id n = c.written id n) :
    c'.closedSize id + c.closed id (fileNumber index) (c.fileSize id index) =
      c.closedSize id + c'.closed id (fileNumber index) (c'.fileSize id index) := by
  have hrest : ((c.files id).erase (fileNumber index)).total (c'.closed id) =
      ((c.files id).erase (fileNumber index)).total (c.closed id) :=
    SortedMap.total_erase_congr fun n size hn => by rw [closed, closed, hwritten n hn]
  rw [closedSize_eq c' id index, closedSize_eq c id index, hfiles, hrest]
  omega

theorem closedSize_congr (hfiles : c'.files id = c.files id)
    (hwritten : ∀ n, c'.written id n = c.written id n) : c'.closedSize id = c.closedSize id := by
  rw [closedSize, closedSize, hfiles]
  exact SortedMap.total_congr fun n size _ => by rw [closed, closed, hwritten]

theorem written_congr (h : c'.adapters = c.adapters) (id : ι) (n : ℕ) :
    c'.written id n = c.written id n := by
  rw [written, h, written]

theorem opened_congr (h : c'.adapters = c.adapters) (id : ι) : c'.opened id = c.opened id := by
  rw [opened, h, opened]

theorem closed_of_written {n size : ℕ} (h : c.written id n) : c.closed id n size = 0 := if_pos h

theorem closed_of_not_written {n size : ℕ} (h : c.written id n = false) :
    c.closed id n size = size := if_neg (by simp [h])

theorem closed_le (c : DiskCache ι) (id : ι) (n size : ℕ) : c.closed id n size ≤ size := by
  rw [closed]
  split_ifs
  · exact Nat.zero_le size
  · exact le_rfl

theorem Books.setEntry (h : Books c) (hget : c.map_.get? id = some e) (hsize : e'.size = e.size)
    (hacc : e'.accessors = e.accessors)
    (hsame : ∀ a ∈ c.adapters, a.id = id → (a.writing ↔ e'.lock_state ≠ .unlocked)) :
    Books { c with map_ := c.map_.insert id e' } :=
  h.update hget rfl (by rw [hsize]) h.bounded (hsize.trans (h.entry_size _ _ hget))
    (hacc.trans (h.entry_accessors _ _ hget)) (fun i _ =>
      ⟨closedSize_congr rfl (written_congr rfl i), opened_congr rfl i⟩) h.accessors h.unwrapped
    hsame fun _ ha _ => ha

theorem Books.setFiles (h : Books c) {files : ι → SortedMap ℕ ℕ}
    (hsize : ∀ id, (c.map_.get? id).isSome → (files id).total (c.closed id) = c.closedSize id) :
    Books { c with files := files } :=
  ⟨⟨h.total_size, fun i e hget => (h.entry_size i e hget).trans
    (hsize i (Option.isSome_iff_exists.2 ⟨e, hget⟩)).symm, h.accessors, h.unwrapped⟩,
    h.bounded, h.entry_accessors, h.present⟩

/-! ### Eviction -/

theorem deleteResource_of_evictable (hget : c.map_.get? id = some e) (he : evictable e) :
    (c.deleteResource env id).2 = { c with
      total_size_ := minus c.total_size_ e.size
      map_ := c.map_.erase id
      files := Function.update c.files id (deleteFiles (env.removes id) (c.files id) e.streams).2
      wrapped := c.wrapped || decide (c.total_size_ < e.size) } := by
  rw [deleteResource, hget]
  simp only [he, if_true]

theorem deleteResource_of_not (h : ∀ e, c.map_.get? id = some e → ¬evictable e) :
    (c.deleteResource env id).2 = c := by
  rw [deleteResource]
  rcases hget : c.map_.get? id with _ | e
  · rfl
  · exact congrArg Prod.snd (if_neg (h e hget))

theorem adapters_deleteResource (env : Env ι) (id : ι) (c : DiskCache ι) :
    (c.deleteResource env id).2.adapters = c.adapters := by
  by_cases h : ∃ e, c.map_.get? id = some e ∧ evictable e
  · obtain ⟨e, hget, he⟩ := h
    rw [deleteResource_of_evictable hget he]
  · rw [deleteResource_of_not fun e hget he => h ⟨e, hget, he⟩]

theorem Books.erase (h : Books c) (hget : c.map_.get? id = some e) (he : evictable e)
    (hmap : c'.map_ = c.map_.erase id) (htotal : c'.total_size_ = minus c.total_size_ e.size)
    (hfiles : ∀ i, i ≠ id → c'.files i = c.files i) (hadapters : c'.adapters = c.adapters)
    (hcount : c'.total_accessors_ = c.total_accessors_)
    (hwrapped : c'.wrapped = (c.wrapped || decide (c.total_size_ < e.size))) : Books c' := by
  have hacc : c.opened id = 0 := by
    rw [← h.entry_accessors id e hget]
    exact (of_decide_eq_true he).2
  have hle := h.size_le hget
  have hsum := SortedMap.total_of_get? (fun _ (e : Entry) => e.size) hget
  have hbefore := h.total_size
  have hbound := h.bounded
  rw [minus_eq hle] at htotal
  refine ⟨⟨?_, fun i f hf => ?_, ?_, ?_⟩, ?_, fun i f hf => ?_, fun a ha => ?_⟩
  · rw [htotal, hmap]
    omega
  · rw [hmap] at hf
    obtain ⟨hne, hf⟩ := SortedMap.get?_of_get?_erase hf
    rw [closedSize_congr (hfiles i hne) (written_congr hadapters i)]
    exact h.entry_size i f hf
  · rw [hcount, hadapters]
    exact h.accessors
  · rw [hwrapped, h.unwrapped, Bool.false_or, decide_eq_false_iff_not]
    exact hle.not_gt
  · rw [htotal]
    omega
  · rw [hmap] at hf
    rw [opened_congr hadapters]
    exact h.entry_accessors i f (SortedMap.get?_of_get?_erase hf).2
  · rw [hadapters] at ha
    obtain ⟨f, hf, hiff⟩ := h.present a ha
    rw [hmap]
    exact ⟨f, (SortedMap.get?_erase_of_ne (ne_of_opened_eq_zero hacc ha)).trans hf, hiff⟩

theorem Books.deleteResource (h : Books c) (env : Env ι) (id : ι) :
    Books (c.deleteResource env id).2 := by
  by_cases hex : ∃ e, c.map_.get? id = some e ∧ evictable e
  · obtain ⟨e, hget, he⟩ := hex
    rw [deleteResource_of_evictable hget he]
    refine h.erase hget he rfl rfl (fun i hne => ?_) rfl rfl rfl
    exact Function.update_of_ne hne _ _
  · rw [deleteResource_of_not fun e hget he => hex ⟨e, hget, he⟩]
    exact h

/-- A pass of `CheckLimit` that goes on. -/
def Evicts (env : Env ι) (c d : DiskCache ι) : Prop :=
  ∃ id, c.pass = .victim id ∧ c.deleteResource env id = (true, d)

/-- The caches that the loop of `CheckLimit` comes through. -/
abbrev Trims (env : Env ι) : DiskCache ι → DiskCache ι → Prop := Relation.ReflTransGen (Evicts env)

/-- **The rule of the loop**: what a deletion keeps holds in the end, and if no pass starts at
the last entry of `map_` then there is an end. -/
theorem checkLimitLoop_rule {P : DiskCache ι → Prop}
    (hkeep : ∀ c id, P c → P (c.deleteResource env id).2) (fuel : ℕ) (hc : P c)
    (hinside : ∀ d, Trims env c d → d.pass ≠ .pastEnd) :
    ∃ r, c.checkLimitLoop env fuel = some r ∧ P r.2 ∧ (r.1 = true → Trims env c r.2) := by
  induction fuel generalizing c with
  | zero =>
    rw [checkLimitLoop]
    rcases hpass : c.pass with _ | _ | _ | id
    · exact ⟨_, rfl, hc, fun _ => .refl⟩
    · exact ⟨_, rfl, hc, fun h => (Bool.false_ne_true h).elim⟩
    · exact absurd hpass (hinside c .refl)
    · exact ⟨_, rfl, hc, fun h => (Bool.false_ne_true h).elim⟩
  | succ fuel ih =>
    rw [checkLimitLoop]
    rcases hpass : c.pass with _ | _ | _ | id
    · exact ⟨_, rfl, hc, fun _ => .refl⟩
    · exact ⟨_, rfl, hc, fun h => (Bool.false_ne_true h).elim⟩
    · exact absurd hpass (hinside c .refl)
    · dsimp only
      split_ifs with hdel
      · have hevict : Evicts env c (c.deleteResource env id).2 :=
          ⟨id, hpass, Prod.ext hdel rfl⟩
        obtain ⟨r, hr, hP, htrims⟩ :=
          ih (hkeep c id hc) fun d hd => hinside d (.head hevict hd)
        exact ⟨r, hr, hP, fun h => .head hevict (htrims h)⟩
      · exact ⟨_, rfl, hkeep c id hc, fun h => (Bool.false_ne_true h).elim⟩

theorem Books.checkLimit (h : Books c) (hinside : ∀ d, Trims env c d → d.pass ≠ .pastEnd) :
    ∃ r, c.checkLimit env = some r ∧ Books r.2 ∧ r.2.adapters = c.adapters ∧
      (r.1 = true → Trims env c r.2) := by
  obtain ⟨r, hr, hP, htrims⟩ := checkLimitLoop_rule
    (P := fun d => Books d ∧ d.adapters = c.adapters)
    (fun d id hd => ⟨hd.1.deleteResource env id, (adapters_deleteResource env id d).trans hd.2⟩)
    c.map_.entries.length ⟨h, rfl⟩ hinside
  exact ⟨r, hr, hP.1, hP.2, htrims⟩

/-! ### Calls that keep the books -/

/-- No pass of `CheckLimit` starts at the last entry of `map_`. -/
def TrimsInside (env : Env ι) (c : DiskCache ι) : Prop := ∀ d, Trims env c d → d.pass ≠ .pastEnd

/-- Evictions leave the entry. -/
def Spares (env : Env ι) (c : DiskCache ι) (id : ι) : Prop :=
  ∀ d, Trims env c d → (d.map_.get? id).isSome

/-- The condition of a call.
* A lock that makes an entry finds no files of that id, and its evictions leave the entry.
* `WriteResource`, `UnlockResource` and `ReadResource` name an entry of `map_`.
* A file that a stream writes already counts nothing when it is opened again, and it is empty
  when one of its streams goes before the last one.
* `Purge` finds empty files only; if `PurgeFiles` fails then it has not removed others.
* The sizes fit into their type. -/
def Meets (env : Env ι) (c : DiskCache ι) : Action ι → Prop
  | .lockResource id =>
      (c.map_.get? id = none → c.closedSize id = 0) ∧
      TrimsInside env (c.getOrCreateEntry env id) ∧ Spares env (c.getOrCreateEntry env id) id
  | .writeResource id index =>
      (c.map_.get? id).isSome ∧
      (c.HasLocked id → env.opens → c.written id (fileNumber index) →
        ∀ e, c.map_.get? id = some e → min e.size (c.fileSize id index) = 0)
  | .unlockResource id =>
      ∃ e, c.map_.get? id = some e ∧ (e.lock_state = .locked → e.accessors = 0 →
        TrimsInside env (c.unlockEntry env id e))
  | .readResource id _ => (c.map_.get? id).isSome
  | .deleteResource _ => True
  | .purge => c.folder_ ≠ [] → c.total_accessors_ = 0 →
      if env.purges then c.total_size_ = 0
      else ∀ id n size, (c.map_.get? id).isSome → (c.files id).get? n = some size →
        env.removes id n → size = 0
  | .flush k _ => ∃ a, c.adapters[k]? = some a ∧ a.writing
  | .close k =>
      ∃ a, c.adapters[k]? = some a ∧
      (a.writing → c.total_size_ + c.fileSize a.id a.index < 2 ^ 64 ∧
        ({ c with adapters := c.adapters.eraseIdx k }.written a.id (fileNumber a.index) →
          c.fileSize a.id a.index = 0)) ∧
      (∀ e, c.map_.get? a.id = some e → e.lock_state = .unlocking → e.accessors = 1 →
        TrimsInside env
          ({ c with adapters := c.adapters.eraseIdx k }.releaseEntry env a.id a.index e))

theorem Books.getOrCreateEntry (h : Books c) (hfresh : c.map_.get? id = none → c.closedSize id = 0) :
    Books (c.getOrCreateEntry env id) := by
  rw [DiskCache.getOrCreateEntry]
  split_ifs with hsome
  · exact h
  · have hnone : c.map_.get? id = none := Option.not_isSome_iff_eq_none.1 hsome
    have hget : ∀ i f, (c.map_.insert id ⟨.unlocked, 0, 0, 0, env.now⟩).get? i = some f →
        i = id ∧ f = ⟨.unlocked, 0, 0, 0, env.now⟩ ∨ c.map_.get? i = some f := by
      intro i f hf
      obtain rfl | hne := eq_or_ne i id
      · rw [SortedMap.get?_insert_self] at hf
        exact .inl ⟨rfl, (Option.some.inj hf).symm⟩
      · rw [SortedMap.get?_insert_of_ne hne] at hf
        exact .inr hf
    refine ⟨⟨?_, fun i f hf => ?_, h.accessors, h.unwrapped⟩, h.bounded, fun i f hf => ?_,
      fun a ha => ?_⟩
    · show c.total_size_ = (c.map_.insert id _).total fun _ (e : Entry) => e.size
      rw [SortedMap.total_insert, SortedMap.erase_of_get?_eq_none hnone, h.total_size, add_zero]
    · obtain ⟨rfl, rfl⟩ | hf := hget i f hf
      · exact (hfresh hnone).symm
      · exact h.entry_size i f hf
    · obtain ⟨rfl, rfl⟩ | hf := hget i f hf
      · exact (h.opened_eq_zero hnone).symm
      · exact h.entry_accessors i f hf
    · obtain ⟨f, hf, hiff⟩ := h.present a ha
      refine ⟨f, (SortedMap.get?_insert_of_ne ?_).trans hf, hiff⟩
      rintro rfl
      rw [hnone] at hf
      cases hf

theorem get?_getOrCreateEntry (env : Env ι) (id : ι) (c : DiskCache ι) :
    ∃ e, (c.getOrCreateEntry env id).map_.get? id = some e := by
  rw [DiskCache.getOrCreateEntry]
  split_ifs with hsome
  · exact Option.isSome_iff_exists.1 hsome
  · exact ⟨_, SortedMap.get?_insert_self⟩

theorem Books.setLocked (h : Books c) (hget : (c.map_.get? id).isSome)
    (hwriting : ∀ a ∈ c.adapters, a.id = id → a.writing) :
    Books (c.setLocked id) ∧ (c.setLocked id).HasLocked id := by
  obtain ⟨e, hget⟩ := Option.isSome_iff_exists.1 hget
  rw [DiskCache.setLocked, hget]
  refine ⟨h.setEntry hget rfl rfl fun a ha heq => ?_, _, SortedMap.get?_insert_self, rfl⟩
  simp [hwriting a ha heq]

theorem Books.writing_of_not_read (h : Books c) (hget : c.map_.get? id = some e)
    (hread : ¬(e.lock_state = .unlocked ∧ 0 < e.accessors)) :
    ∀ a ∈ c.adapters, a.id = id → a.writing := by
  rintro a ha rfl
  obtain ⟨f, hf, hiff⟩ := h.present a ha
  obtain rfl : e = f := Option.some.inj (hget.symm.trans hf)
  refine hiff.2 fun hunlocked => hread ⟨hunlocked, ?_⟩
  rw [h.entry_accessors _ _ hget]
  exact List.countP_pos_iff.2 ⟨a, ha, by simp⟩

theorem Books.lockResource (h : Books c) (hmeets : Meets env c (.lockResource id)) :
    ∃ r, c.lockResource env id = some r ∧ Books r.2 ∧ (r.1 = true → r.2.HasLocked id) := by
  obtain ⟨hfresh, hinside, hspares⟩ := hmeets
  have hbooks : Books (c.getOrCreateEntry env id) := h.getOrCreateEntry hfresh
  obtain ⟨e, hget⟩ := get?_getOrCreateEntry env id c
  rw [DiskCache.lockResource, hget]
  dsimp only
  split_ifs with hlocked hread hover
  · exact ⟨_, rfl, hbooks, fun hr => (Bool.false_ne_true hr).elim⟩
  · exact ⟨_, rfl, hbooks, fun hr => (Bool.false_ne_true hr).elim⟩
  · have hwriting := hbooks.writing_of_not_read hget hread
    obtain ⟨r, hr, hafter, hadapters, htrims⟩ := hbooks.checkLimit hinside
    rw [hr, Option.map_some]
    refine ⟨_, rfl, ?_⟩
    split_ifs with hfits
    · have hlock := hafter.setLocked (hspares _ (htrims hfits)) (hadapters ▸ hwriting)
      exact ⟨hlock.1, fun _ => hlock.2⟩
    · exact ⟨hafter, fun hr => hr.elim⟩
  · have hlock := hbooks.setLocked (hspares _ .refl) (hbooks.writing_of_not_read hget hread)
    exact ⟨_, rfl, hlock.1, fun _ => hlock.2⟩

theorem Books.unlockResource (h : Books c) (hmeets : Meets env c (.unlockResource id)) :
    ∃ r, c.unlockResource env id = some r ∧ Books r.2 := by
  obtain ⟨e, hget, hinside⟩ := hmeets
  rw [DiskCache.unlockResource, hget]
  dsimp only
  split_ifs with hlocked hopen
  · exact ⟨_, rfl, h⟩
  · refine ⟨_, rfl, h.setEntry hget rfl rfl fun a ha heq => ?_⟩
    simpa using h.writing_of_not_read hget (by simp [not_not.1 hlocked]) a ha heq
  · have hzero : e.accessors = 0 := Nat.eq_zero_of_not_pos hopen
    have hnone : c.opened id = 0 := h.entry_accessors id e hget ▸ hzero
    have hbooks : Books (c.unlockEntry env id e) := h.setEntry hget rfl rfl fun a ha heq =>
      absurd heq (ne_of_opened_eq_zero hnone ha)
    obtain ⟨r, hr, hafter, -⟩ := hbooks.checkLimit (hinside (not_not.1 hlocked) hzero)
    rw [hr, Option.map_some]
    exact ⟨_, rfl, hafter⟩

theorem Books.purge (h : Books c) (hmeets : Meets env c .purge) : Books (c.purge env).2 := by
  rw [Meets] at hmeets
  rw [DiskCache.purge]
  split_ifs with hfolder hopen hpurges
  · exact h
  · exact h
  · have hkept := hmeets hfolder (Nat.eq_zero_of_not_pos hopen)
    rw [Bool.not_eq_true', Bool.eq_false_iff] at hpurges
    rw [if_neg hpurges] at hkept
    refine h.setFiles fun i hi => ?_
    rw [SortedMap.total_filter]
    refine SortedMap.total_congr fun n size hsize => ?_
    split_ifs with hremoves
    · rfl
    · have hzero := hkept i n size hi hsize (by simpa using hremoves)
      exact (Nat.le_zero.1 (hzero ▸ closed_le c i n size)).symm
  · have hnone : c.adapters = [] :=
      List.length_eq_zero_iff.1 (h.accessors ▸ Nat.eq_zero_of_not_pos hopen)
    have hzero := hmeets hfolder (Nat.eq_zero_of_not_pos hopen)
    rw [if_pos (by simpa using hpurges)] at hzero
    refine ⟨⟨hzero, fun i f hf => ?_, h.accessors, h.unwrapped⟩, h.bounded, fun i f hf => ?_,
      fun a ha => ?_⟩
    · cases hf
    · cases hf
    · rw [show ({ c with files := _, map_ := .empty } : DiskCache ι).adapters = [] from hnone] at ha
      cases ha

/-! ### Streams -/

section Opening

variable {a : Adapter ι}

theorem written_of_append (h : c'.adapters = c.adapters ++ [a]) (id : ι) (n : ℕ) :
    c'.written id n =
      (c.written id n || (a.writing && decide (a.id = id) && decide (fileNumber a.index = n))) := by
  rw [written, h, List.any_append, List.any_cons, List.any_nil, Bool.or_false, written]

theorem opened_of_append (h : c'.adapters = c.adapters ++ [a]) (id : ι) :
    c'.opened id = c.opened id + if a.id = id then 1 else 0 := by
  rw [opened, h, List.countP_append, List.countP_singleton, opened]
  simp only [decide_eq_true_eq]

theorem Books.openStream (h : Books c) (hget : c.map_.get? a.id = some e)
    (hmap : c'.map_ = c.map_.insert a.id e') (haccessors : e'.accessors = e.accessors + 1)
    (hstate : e'.lock_state = e.lock_state) (hkind : a.writing ↔ e.lock_state ≠ .unlocked)
    (htotal : c'.total_size_ + e.size = c.total_size_ + e'.size) (hbound : c'.total_size_ < 2 ^ 64)
    (hsize : e'.size = c'.closedSize a.id) (hfiles : ∀ i, i ≠ a.id → c'.files i = c.files i)
    (hadapters : c'.adapters = c.adapters ++ [a])
    (hcount : c'.total_accessors_ = c.total_accessors_ + 1) (hwrapped : c'.wrapped = false) :
    Books c' := by
  refine h.update hget hmap htotal hbound hsize ?_ (fun i hne => ⟨?_, ?_⟩) ?_ hwrapped
    (fun b hb heq => ?_) (fun b hb hne => ?_)
  · rw [haccessors, opened_of_append hadapters, if_pos rfl, h.entry_accessors _ _ hget]
  · refine closedSize_congr (hfiles i hne) fun n => ?_
    rw [written_of_append hadapters]
    simp [Ne.symm hne]
  · rw [opened_of_append hadapters, if_neg (Ne.symm hne), add_zero]
  · rw [hcount, hadapters, List.length_append, h.accessors]
    rfl
  · rw [hstate]
    rw [hadapters, List.mem_append, List.mem_singleton] at hb
    obtain hb | rfl := hb
    · obtain ⟨f, hf, hiff⟩ := h.present b hb
      rw [heq, hget] at hf
      exact Option.some.inj hf ▸ hiff
    · exact hkind
  · rw [hadapters, List.mem_append, List.mem_singleton] at hb
    obtain hb | rfl := hb
    · exact hb
    · exact absurd rfl hne

end Opening

theorem Books.readResource (h : Books c) {index : ℕ} (hmeets : (c.map_.get? id).isSome) :
    ∃ r, c.readResource env id index = some r ∧ Books r.2 := by
  obtain ⟨e, hget⟩ := Option.isSome_iff_exists.1 hmeets
  rw [DiskCache.readResource, hget]
  dsimp only
  split_ifs with hstate hindex hopens
  · exact ⟨_, rfl, h⟩
  · exact ⟨_, rfl, h⟩
  · exact ⟨_, rfl, h⟩
  · refine ⟨_, rfl, h.openStream (a := ⟨id, index, false⟩) hget rfl rfl rfl ?_ rfl h.bounded ?_
      (fun _ _ => rfl) rfl rfl h.unwrapped⟩
    · simp [not_not.1 hstate]
    · refine (h.entry_size id e hget).trans (Eq.symm (closedSize_congr rfl fun n => ?_))
      rw [written_of_append (a := ⟨id, index, false⟩) rfl]
      simp

theorem Books.previous_size (h : Books c) {index p : ℕ} (hget : c.map_.get? id = some e)
    (hp : p = min e.size (c.fileSize id index))
    (hfresh : c.written id (fileNumber index) → p = 0) :
    p = c.closed id (fileNumber index) (c.fileSize id index) := by
  rcases hw : c.written id (fileNumber index) with _ | _
  · have hle : c.closed id (fileNumber index) (c.fileSize id index) ≤ e.size := by
      rw [h.entry_size id e hget, closedSize_eq c id index]
      exact Nat.le_add_left _ _
    rw [closed_of_not_written hw] at hle ⊢
    rw [hp, min_eq_right hle]
  · rw [closed_of_written hw, hfresh hw]

theorem closedSize_truncated {index : ℕ}
    (hfiles : c'.files id = (c.files id).insert (fileNumber index) 0)
    (hadapters : c'.adapters = c.adapters ++ [⟨id, index, true⟩]) :
    c'.closedSize id =
      c.closedSize id - c.closed id (fileNumber index) (c.fileSize id index) := by
  have hwritten : c'.written id (fileNumber index) := by
    rw [written_of_append hadapters]
    simp
  have hrest : c'.closedSize id + c.closed id (fileNumber index) (c.fileSize id index) =
      c.closedSize id + c'.closed id (fileNumber index) (c'.fileSize id index) := by
    refine closedSize_rest (by rw [hfiles, SortedMap.erase_insert]) fun n hn => ?_
    rw [written_of_append hadapters]
    simp [Ne.symm hn]
  rw [closed_of_written hwritten] at hrest
  omega

theorem Books.writeResource (h : Books c) {index : ℕ}
    (hmeets : Meets env c (.writeResource id index)) :
    ∃ r, c.writeResource env id index = some r ∧ Books r.2 := by
  obtain ⟨hsome, hfresh⟩ := hmeets
  obtain ⟨e, hget⟩ := Option.isSome_iff_exists.1 hsome
  rw [DiskCache.writeResource, hget]
  dsimp only
  generalize hp : (if e.size < c.fileSize id index then e.size else c.fileSize id index) = p
  have hmin : p = min e.size (c.fileSize id index) := by
    rw [← hp, min_def]
    split_ifs <;> omega
  split_ifs with hstate hopens
  · exact ⟨_, rfl, h⟩
  · exact ⟨_, rfl, h⟩
  · rw [ne_eq, not_not] at hstate
    rw [Bool.not_eq_true', Bool.not_eq_false] at hopens
    have hcounted := h.previous_size hget hmin fun hw =>
      hmin.trans (hfresh ⟨e, hget, hstate⟩ hopens hw e hget)
    have hle : p ≤ e.size := hmin ▸ min_le_left _ _
    have htotal := h.size_le hget
    have hbound := h.bounded
    refine ⟨_, rfl, h.openStream (a := ⟨id, index, true⟩) hget rfl rfl rfl ?_ ?_ ?_ ?_
      (fun i hne => Function.update_of_ne hne _ _) rfl rfl ?_⟩
    · simp [hstate]
    · show minus c.total_size_ p + e.size = c.total_size_ + minus e.size p
      rw [minus_eq (hle.trans htotal), minus_eq hle]
      omega
    · show minus c.total_size_ p < 2 ^ 64
      rw [minus_eq (hle.trans htotal)]
      omega
    · -- the file is empty now, and its stream takes it out of the sum
      show minus e.size p = _
      rw [minus_eq hle, hcounted, h.entry_size id e hget]
      exact (closedSize_truncated (Function.update_self _ _ _) rfl).symm
    · show (c.wrapped || decide (e.size < p) || decide (c.total_size_ < p)) = false
      simp [h.unwrapped, hle, hle.trans htotal]

theorem written_of_mem {a : Adapter ι} (ha : a ∈ c.adapters) (hwriting : a.writing) :
    c.written a.id (fileNumber a.index) :=
  List.any_eq_true.2 ⟨a, ha, by simp [hwriting]⟩

theorem Books.flush (h : Books c) {a : Adapter ι} (ha : a ∈ c.adapters) (hwriting : a.writing)
    (size : ℕ) : Books { c with
      files := Function.update c.files a.id ((c.files a.id).insert (fileNumber a.index) size) } := by
  refine h.setFiles fun i _ => ?_
  obtain rfl | hne := eq_or_ne i a.id
  · have hw := written_of_mem ha hwriting
    rw [Function.update_self, SortedMap.total_insert, closedSize_eq c a.id a.index,
      closed_of_written hw, closed_of_written hw]
  · rw [Function.update_of_ne hne, closedSize]

/-! ### Release -/

section Closing

variable {a : Adapter ι} {k : ℕ}

theorem perm_eraseIdx (hk : c.adapters[k]? = some a) :
    c.adapters.Perm (a :: c.adapters.eraseIdx k) := by
  obtain ⟨hlt, rfl⟩ := List.getElem?_eq_some_iff.1 hk
  exact (List.getElem_cons_eraseIdx_perm hlt).symm

theorem opened_of_eraseIdx (hk : c.adapters[k]? = some a)
    (h : d.adapters = c.adapters.eraseIdx k) (id : ι) :
    c.opened id = d.opened id + if a.id = id then 1 else 0 := by
  rw [opened, (perm_eraseIdx hk).countP_eq, List.countP_cons, opened, h]
  simp only [decide_eq_true_eq]

theorem written_of_eraseIdx (hk : c.adapters[k]? = some a)
    (h : d.adapters = c.adapters.eraseIdx k) (id : ι) (n : ℕ) : c.written id n =
      ((a.writing && decide (a.id = id) && decide (fileNumber a.index = n)) || d.written id n) := by
  rw [written, (perm_eraseIdx hk).any_eq, List.any_cons, written, h]

theorem Books.closeStream (h : Books c) (hk : c.adapters[k]? = some a)
    (hget : c.map_.get? a.id = some e) (hmap : c'.map_ = c.map_.insert a.id e')
    (haccessors : e'.accessors + 1 = e.accessors)
    (hstate : e'.lock_state = e.lock_state ∨ e'.accessors = 0)
    (htotal : c'.total_size_ + e.size = c.total_size_ + e'.size) (hbound : c'.total_size_ < 2 ^ 64)
    (hsize : e'.size = c'.closedSize a.id) (hfiles : c'.files = c.files)
    (hadapters : c'.adapters = c.adapters.eraseIdx k)
    (hcount : c'.total_accessors_ + 1 = c.total_accessors_) (hwrapped : c'.wrapped = false) :
    Books c' := by
  have hopened := opened_of_eraseIdx hk hadapters
  have hentry := h.entry_accessors _ _ hget
  have hsub : ∀ b ∈ c'.adapters, b ∈ c.adapters := fun b hb =>
    (perm_eraseIdx hk).mem_iff.2 (List.mem_cons_of_mem _ (hadapters ▸ hb))
  have hself := hopened a.id
  rw [if_pos rfl] at hself
  refine h.update hget hmap htotal hbound hsize (by omega) (fun i hne => ⟨?_, ?_⟩) ?_ hwrapped
    (fun b hb heq => ?_) (fun b hb _ => hsub b hb)
  · refine closedSize_congr (by rw [hfiles]) fun n => ?_
    rw [written_of_eraseIdx hk hadapters]
    simp [Ne.symm hne]
  · rw [hopened i, if_neg (Ne.symm hne), add_zero]
  · have hlen := (perm_eraseIdx hk).length_eq
    have hbefore := h.accessors
    rw [List.length_cons] at hlen
    rw [hadapters]
    omega
  · obtain hstate | hzero := hstate
    · obtain ⟨f, hf, hiff⟩ := h.present b (hsub b hb)
      rw [heq, hget] at hf
      rw [hstate]
      exact Option.some.inj hf ▸ hiff
    · exact absurd heq (ne_of_opened_eq_zero (by omega) hb)

theorem adapters_releaseEntry (env : Env ι) (id : ι) (index : ℕ) (e : Entry) (c : DiskCache ι) :
    (c.releaseEntry env id index e).adapters = c.adapters := by
  rw [releaseEntry]
  split_ifs <;> rfl

theorem files_releaseEntry (env : Env ι) (id : ι) (index : ℕ) (e : Entry) (c : DiskCache ι) :
    (c.releaseEntry env id index e).files = c.files := by
  rw [releaseEntry]
  split_ifs <;> rfl

theorem total_accessors_releaseEntry (env : Env ι) (id : ι) (index : ℕ) (e : Entry)
    (c : DiskCache ι) :
    (c.releaseEntry env id index e).total_accessors_ = minus c.total_accessors_ 1 := by
  rw [releaseEntry]
  split_ifs <;> rfl

theorem wrapped_releaseEntry (env : Env ι) (id : ι) (index : ℕ) (e : Entry) (c : DiskCache ι) :
    (c.releaseEntry env id index e).wrapped =
      (c.wrapped || decide (e.accessors < 1) || decide (c.total_accessors_ < 1)) := by
  rw [releaseEntry]
  split_ifs <;> rfl

theorem releaseEntry_of_unlocked (env : Env ι) (id : ι) (index : ℕ) (c : DiskCache ι)
    (hstate : e.lock_state = .unlocked) :
    (∃ e' : Entry, (c.releaseEntry env id index e).map_ = c.map_.insert id e' ∧
        e'.accessors = minus e.accessors 1 ∧ e'.size = e.size ∧ e'.lock_state = e.lock_state) ∧
      (c.releaseEntry env id index e).total_size_ = c.total_size_ := by
  rw [releaseEntry, if_pos hstate]
  exact ⟨⟨_, rfl, rfl, rfl, rfl⟩, rfl⟩

theorem releaseEntry_of_not_unlocked (env : Env ι) (id : ι) (index : ℕ) (c : DiskCache ι)
    (hstate : e.lock_state ≠ .unlocked) :
    (∃ e' : Entry, (c.releaseEntry env id index e).map_ = c.map_.insert id e' ∧
        e'.accessors = minus e.accessors 1 ∧ e'.size = plus e.size (c.fileSize id index) ∧
        (e'.lock_state = e.lock_state ∨ e'.accessors = 0)) ∧
      (c.releaseEntry env id index e).total_size_ =
        plus c.total_size_ (c.fileSize id index) := by
  rw [releaseEntry, if_neg hstate]
  refine ⟨⟨_, rfl, ?_⟩, rfl⟩
  split_ifs with hlast
  · exact ⟨rfl, rfl, .inr hlast.2⟩
  · exact ⟨rfl, rfl, .inl rfl⟩

theorem Books.releaseEntry (h : Books c) (hk : c.adapters[k]? = some a)
    (hd : d = { c with adapters := c.adapters.eraseIdx k }) (hget : c.map_.get? a.id = some e)
    (hfits : a.writing → c.total_size_ + c.fileSize a.id a.index < 2 ^ 64 ∧
      (d.written a.id (fileNumber a.index) → c.fileSize a.id a.index = 0)) :
    Books (d.releaseEntry env a.id a.index e) := by
  have hmem : a ∈ c.adapters := List.mem_of_getElem? hk
  have hadapters : (d.releaseEntry env a.id a.index e).adapters = c.adapters.eraseIdx k := by
    rw [adapters_releaseEntry, hd]
  have hfiles : (d.releaseEntry env a.id a.index e).files = c.files := by
    rw [files_releaseEntry, hd]
  have hpos : 1 ≤ e.accessors := by
    rw [h.entry_accessors _ _ hget]
    exact List.countP_pos_iff.2 ⟨a, hmem, by simp⟩
  have hopen : 1 ≤ c.total_accessors_ := by
    rw [h.accessors]
    exact List.length_pos_of_mem hmem
  have hcount : (d.releaseEntry env a.id a.index e).total_accessors_ + 1 = c.total_accessors_ := by
    rw [total_accessors_releaseEntry, hd, minus_eq hopen]
    omega
  have hwrapped : (d.releaseEntry env a.id a.index e).wrapped = false := by
    rw [wrapped_releaseEntry, hd]
    simp [h.unwrapped, Nat.one_le_iff_ne_zero.1 hpos, Nat.one_le_iff_ne_zero.1 hopen]
  have hkind : a.writing ↔ e.lock_state ≠ .unlocked := by
    obtain ⟨f, hf, hiff⟩ := h.present a hmem
    exact Option.some.inj (hf.symm.trans hget) ▸ hiff
  have hsub := minus_eq hpos
  have hmapd : d.map_ = c.map_ := by rw [hd]
  have htotald : d.total_size_ = c.total_size_ := by rw [hd]
  have hwritten := written_of_eraseIdx hk hadapters a.id
  by_cases hstate : e.lock_state = .unlocked
  · obtain ⟨⟨e', hmap, haccessors, hsize, hlock⟩, htotal⟩ :=
      releaseEntry_of_unlocked env a.id a.index d hstate
    have hreading : a.writing = false := by simpa [hstate] using hkind
    refine h.closeStream hk hget (hmap.trans (by rw [hmapd])) (by omega) (.inl hlock) (by omega)
      (by rw [htotal, htotald]; exact h.bounded) ?_ hfiles hadapters hcount hwrapped
    rw [hsize, h.entry_size _ _ hget]
    symm
    refine closedSize_congr (by rw [hfiles]) fun n => ?_
    rw [hwritten, hreading]
    rfl
  · have hwriting : a.writing := hkind.2 hstate
    obtain ⟨hbound, hempty⟩ := hfits hwriting
    obtain ⟨⟨e', hmap, haccessors, hsize, hlock⟩, htotal⟩ :=
      releaseEntry_of_not_unlocked env a.id a.index d hstate
    have hsized : d.fileSize a.id a.index = c.fileSize a.id a.index := by rw [hd, fileSize, fileSize]
    have hle := h.size_le hget
    rw [hsized, plus_eq (by omega)] at hsize
    rw [htotald, hsized, plus_eq hbound] at htotal
    refine h.closeStream hk hget (hmap.trans (by rw [hmapd])) (by omega) hlock (by omega)
      (by omega) ?_ hfiles hadapters hcount hwrapped
    -- the file counts nothing before, and all that it holds afterwards
    have hcounted : (d.releaseEntry env a.id a.index e).closed a.id (fileNumber a.index)
        (c.fileSize a.id a.index) = c.fileSize a.id a.index := by
      rw [closed]
      split_ifs with hw
      · refine (hempty ?_).symm
        rw [written_congr (adapters_releaseEntry env a.id a.index e d)] at hw
        exact hw
      · rfl
    have hrest : (d.releaseEntry env a.id a.index e).closedSize a.id +
        c.closed a.id (fileNumber a.index) (c.fileSize a.id a.index) = c.closedSize a.id +
        (d.releaseEntry env a.id a.index e).closed a.id (fileNumber a.index)
          ((d.releaseEntry env a.id a.index e).fileSize a.id a.index) := by
      refine closedSize_rest (by rw [hfiles]) fun n hn => ?_
      rw [hwritten]
      simp [Ne.symm hn]
    rw [closed_of_written (written_of_mem hmem hwriting), fileSize, hfiles, ← fileSize,
      hcounted] at hrest
    rw [hsize, h.entry_size _ _ hget]
    omega

theorem Books.close (h : Books c) (hmeets : Meets env c (.close k)) :
    ∃ r, c.step env (.close k) = some r ∧ Books r.2 := by
  obtain ⟨a, hk, hfits, hinside⟩ := hmeets
  obtain ⟨e, hget, hkind⟩ := h.present a (List.mem_of_getElem? hk)
  have hbooks : Books (DiskCache.releaseEntry env a.id a.index e _) :=
    h.releaseEntry hk rfl hget hfits
  rw [step, hk, Option.bind_some, releaseResource,
    show ({ c with adapters := c.adapters.eraseIdx k } : DiskCache ι).map_.get? a.id = some e
      from hget]
  dsimp only
  split_ifs with hlast
  · have hone : e.accessors = 1 := by
      have hpos : 1 ≤ e.accessors := by
        rw [h.entry_accessors _ _ hget]
        exact List.countP_pos_iff.2 ⟨a, List.mem_of_getElem? hk, by simp⟩
      have hzero := hlast.2
      rw [minus_eq hpos] at hzero
      omega
    obtain ⟨r, hr, hafter, -⟩ := hbooks.checkLimit (hinside e hget hlast.1 hone)
    rw [hr]
    exact ⟨_, rfl, hafter⟩
  · exact ⟨_, rfl, hbooks⟩

end Closing

/-! ### Runs -/

/-- A cache that `Initialize` has filled: entries without users, whose sizes are counted. -/
structure Start (c : DiskCache ι) : Prop extends Accounted c where
  bounded : c.total_size_ < 2 ^ 64
  unused : c.adapters = []
  idle : ∀ id e, c.map_.get? id = some e → e.accessors = 0

/-- What a call leaves: the sums and the counts, and the entry that it has locked. -/
structure Kept (action : Action ι) (r : Bool × DiskCache ι) : Prop extends Accounted r.2 where
  locked : ∀ id, action = .lockResource id → r.1 = true → r.2.HasLocked id

theorem Books.step (h : Books c) {action : Action ι} (hmeets : Meets env c action) :
    ∃ r, c.step env action = some r ∧ Books r.2 ∧ Kept action r := by
  have hother : ∀ {r : Bool × DiskCache ι}, (∀ id, action ≠ .lockResource id) → Books r.2 →
      Books r.2 ∧ Kept action r := fun hne hbooks =>
    ⟨hbooks, hbooks.toAccounted, fun id heq => absurd heq (hne id)⟩
  cases action with
  | lockResource id =>
    obtain ⟨r, hr, hbooks, hlocked⟩ := h.lockResource hmeets
    refine ⟨r, hr, hbooks, hbooks.toAccounted, fun i heq htrue => ?_⟩
    exact Action.lockResource.inj heq ▸ hlocked htrue
  | writeResource id index =>
    obtain ⟨r, hr, hbooks⟩ := h.writeResource hmeets
    exact ⟨r, hr, hother (by simp) hbooks⟩
  | unlockResource id =>
    obtain ⟨r, hr, hbooks⟩ := h.unlockResource hmeets
    exact ⟨r, hr, hother (by simp) hbooks⟩
  | readResource id index =>
    obtain ⟨r, hr, hbooks⟩ := h.readResource hmeets
    exact ⟨r, hr, hother (by simp) hbooks⟩
  | deleteResource id =>
    exact ⟨_, rfl, hother (by simp) (h.deleteResource env id)⟩
  | purge => exact ⟨_, rfl, hother (by simp) (h.purge hmeets)⟩
  | flush k size =>
    obtain ⟨a, hk, hwriting⟩ := hmeets
    have hbooks := h.flush (List.mem_of_getElem? hk) hwriting size
    refine ⟨(true, _), ?_, hother (by simp) hbooks⟩
    rw [DiskCache.step, hk, Option.bind_some, if_pos hwriting]
  | close k =>
    obtain ⟨r, hr, hbooks⟩ := h.close hmeets
    exact ⟨r, hr, hother (by simp) hbooks⟩

/-- A call that meets its condition leads from one cache to the next. -/
def Next (c c' : DiskCache ι) : Prop :=
  ∃ env action b, Meets env c action ∧ c.step env action = some (b, c')

/-- An empty cache of `size` bytes in the folder `f`. -/
def fresh (ι : Type) [LinearOrder ι] (size : ℕ) : DiskCache ι where
  folder_ := [102#8]
  max_cache_ := size
  total_size_ := 0
  map_ := .empty
  total_accessors_ := 0
  files := fun _ => .empty
  adapters := []
  wrapped := false

/-- The system at time `now`, where nothing fails. -/
def calm (ι : Type) (now : ℕ) : Env ι := ⟨now, true, fun _ _ => true, true⟩

/-- The calls one after the other, with the answers of the system to each. -/
def run (c : DiskCache ι) (calls : List (Env ι × Action ι)) : Option (DiskCache ι) :=
  calls.foldlM (fun c call => (c.step call.1 call.2).map (·.2)) c

/-- Four bytes of the resource `id`, written and unlocked. -/
def fill (id : ι) (now : ℕ) : List (Env ι × Action ι) :=
  [(calm ι now, .lockResource id), (calm ι now, .writeResource id 0), (calm ι now, .flush 0 4),
    (calm ι now, .close 0)]

end DiskCache

end Jingle.Base
