/-
A cache of streams on disk.

`DiskCache` is the object together with what it works on: the files of every resource by
the number in their name, and the open streams, each of which calls `ReleaseResource` when
it goes.  Sizes are unsigned 64-bit numbers; `wrapped` records that a subtraction of the
code went below zero.  A call is `none` where it reads through a null pointer or past the
end of `map_`.  What the system answers is an `Env`: the time, and which file operations
succeed.

* `checkLimit` — the loop that evicts entries while the cache is over its limit;
  `checkLimit_eq` is the loop itself, without the bound on its passes.
* `Trims` — the caches that the loop goes through.
-/
import Jingle.Lib.SortedMap
import Jingle.Lib.Reach

namespace Jingle.Base

inductive LockState
  | unlocked | locked | unlocking
  deriving DecidableEq, Repr

structure Entry where
  lock_state : LockState
  accessors : ℕ
  size : ℕ
  streams : ℕ
  last_modified : ℕ
  deriving DecidableEq, Repr

/-- A `DiskCacheAdapter`: an open stream of a resource. -/
structure Adapter (ι : Type) where
  id : ι
  index : ℕ
  writing : Bool
  deriving DecidableEq, Repr

structure DiskCache (ι : Type) [LinearOrder ι] where
  folder_ : List (BitVec 8)
  max_cache_ : ℕ
  total_size_ : ℕ
  map_ : SortedMap ι Entry
  total_accessors_ : ℕ
  files : ι → SortedMap ℕ ℕ
  adapters : List (Adapter ι)
  wrapped : Bool

/-- The answers of the system to one call. -/
structure Env (ι : Type) where
  now : ℕ
  opens : Bool
  removes : ι → ℕ → Bool
  purges : Bool

namespace DiskCache

variable {ι : Type} [LinearOrder ι] {c c' d : DiskCache ι} {env : Env ι} {id : ι} {e : Entry}

/-! ### Unsigned sizes -/

@[irreducible] def plus (a b : ℕ) : ℕ := (a + b) % 2 ^ 64

@[irreducible] def minus (a b : ℕ) : ℕ := if b ≤ a then a - b else a + 2 ^ 64 - b

theorem minus_eq {a b : ℕ} (h : b ≤ a) : minus a b = a - b := by
  rw [minus, if_pos h]

theorem plus_eq {a b : ℕ} (h : a + b < 2 ^ 64) : plus a b = a + b := by
  rw [plus, Nat.mod_eq_of_lt h]

/-- The number in the file's name, which `IdToFilename` prints with `%u`. -/
def fileNumber (index : ℕ) : ℕ := index % 2 ^ 32

/-- `FileStream::GetSize`, zero where there is no file. -/
def fileSize (c : DiskCache ι) (id : ι) (index : ℕ) : ℕ :=
  ((c.files id).get? (fileNumber index)).getD 0

/-- A stream writes the file. -/
def written (c : DiskCache ι) (id : ι) (n : ℕ) : Bool :=
  c.adapters.any fun a => a.writing && decide (a.id = id) && decide (fileNumber a.index = n)

/-! ### Deleting and evicting -/

/-- `GetOrCreateEntry(id, true)`. -/
def getOrCreateEntry (env : Env ι) (id : ι) (c : DiskCache ι) : DiskCache ι :=
  if (c.map_.get? id).isSome then c
  else { c with map_ := c.map_.insert id ⟨.unlocked, 0, 0, 0, env.now⟩ }

/-- The loop of `DeleteResource` over the streams of the entry: whether every file that was
there could be removed, and the files that are left. -/
def deleteFiles (removes : ℕ → Bool) (files : SortedMap ℕ ℕ) (streams : ℕ) :
    Bool × SortedMap ℕ ℕ :=
  (List.range streams).foldl (fun (success, files) index =>
    if (files.get? (fileNumber index)).isNone then (success, files)
    else if removes (fileNumber index) then (success, files.erase (fileNumber index))
    else (false, files)) (true, files)

def evictable (e : Entry) : Bool := e.lock_state = .unlocked ∧ e.accessors = 0

def deleteResource (env : Env ι) (id : ι) (c : DiskCache ι) : Bool × DiskCache ι :=
  match c.map_.get? id with
  | none => (true, c)
  | some e =>
    if evictable e then
      let deleted := deleteFiles (env.removes id) (c.files id) e.streams
      (deleted.1, { c with
        total_size_ := minus c.total_size_ e.size
        map_ := c.map_.erase id
        files := Function.update c.files id deleted.2
        wrapped := c.wrapped || decide (c.total_size_ < e.size) })
    else (false, c)

/-- What a pass of `CheckLimit` comes to. -/
inductive Pass (ι : Type)
  | fits | allLocked | pastEnd
  | victim (id : ι)
  deriving DecidableEq, Repr

/-- The entry that the scan for the oldest one settles on: from the first entry that may
go, `it = oldest++` starts with the entry behind it as the oldest, whatever that one is. -/
def oldest : List (ι × Entry) → Pass ι
  | [] => .allLocked
  | [_] => .pastEnd
  | first :: next :: rest =>
    .victim ((first :: next :: rest).foldl
      (fun oldest it => if it.2.last_modified < oldest.2.last_modified then it else oldest) next).1

/-- One pass of the loop in `CheckLimit`. -/
def pass (c : DiskCache ι) : Pass ι :=
  if c.total_size_ ≤ c.max_cache_ then .fits
  else oldest (c.map_.entries.dropWhile fun e => !evictable e.2)

/-- The loop of `CheckLimit`; every pass but the last takes an entry out of `map_`. -/
def checkLimitLoop (env : Env ι) (fuel : ℕ) (c : DiskCache ι) : Option (Bool × DiskCache ι) :=
  match c.pass with
  | .fits => some (true, c)
  | .allLocked => some (false, c)
  | .pastEnd => none
  | .victim id =>
    match fuel with
    | 0 => some (false, c)
    | fuel + 1 =>
      if (deleteResource env id c).1 then checkLimitLoop env fuel (deleteResource env id c).2
      else some (false, (deleteResource env id c).2)

def checkLimit (env : Env ι) (c : DiskCache ι) : Option (Bool × DiskCache ι) :=
  checkLimitLoop env c.map_.entries.length c

/-! ### The passes of the loop -/

omit [LinearOrder ι] in
theorem oldest_mem {l : List (ι × Entry)} (h : oldest l = .victim id) : ∃ x ∈ l, x.1 = id := by
  rcases l with _ | ⟨first, _ | ⟨next, rest⟩⟩
  · cases h
  · cases h
  · refine ⟨_, ?_, Pass.victim.inj h⟩
    -- the scan holds on to entries of the list only
    have hfold : ∀ (es : List (ι × Entry)) (x : ι × Entry),
        es.foldl (fun oldest it => if it.2.last_modified < oldest.2.last_modified then it
          else oldest) x ∈ x :: es := by
      intro es
      induction es with
      | nil => exact fun x => List.mem_singleton_self x
      | cons y es ih =>
        intro x
        rw [List.foldl_cons]
        split_ifs
        · exact List.mem_cons_of_mem _ (ih y)
        · obtain heq | hmem := List.mem_cons.1 (ih x)
          · rw [heq]
            exact List.mem_cons_self
          · exact List.mem_cons_of_mem _ (List.mem_cons_of_mem _ hmem)
    obtain heq | hmem := List.mem_cons.1 (hfold (first :: next :: rest) next)
    · rw [heq]
      exact List.mem_cons_of_mem _ List.mem_cons_self
    · exact hmem

theorem get?_of_pass (h : c.pass = .victim id) : ∃ e, c.map_.get? id = some e := by
  rw [pass] at h
  split_ifs at h
  obtain ⟨x, hx, rfl⟩ := oldest_mem h
  exact ⟨x.2, SortedMap.get?_eq_some.2 ((List.dropWhile_sublist _).subset hx)⟩

theorem length_deleteResource (hget : c.map_.get? id = some e)
    (hdel : (c.deleteResource env id).1 = true) :
    (c.deleteResource env id).2.map_.entries.length < c.map_.entries.length := by
  rw [deleteResource, hget] at hdel ⊢
  dsimp only at hdel ⊢
  split_ifs at hdel ⊢ with he
  exact SortedMap.length_erase_lt hget

theorem checkLimitLoop_fuel (n m : ℕ) (c : DiskCache ι) (hn : c.map_.entries.length ≤ n)
    (hm : c.map_.entries.length ≤ m) : c.checkLimitLoop env n = c.checkLimitLoop env m := by
  induction n generalizing m c with
  | zero =>
    have hnil : c.map_.entries = [] := List.length_eq_zero_iff.1 (Nat.le_zero.1 hn)
    rw [checkLimitLoop, checkLimitLoop.eq_def env m]
    rcases hpass : c.pass with _ | _ | _ | id
    · rfl
    · rfl
    · rfl
    · obtain ⟨e, hget⟩ := get?_of_pass hpass
      rw [SortedMap.get?_eq_some, hnil] at hget
      cases hget
  | succ n ih =>
    rw [checkLimitLoop, checkLimitLoop.eq_def env m]
    rcases hpass : c.pass with _ | _ | _ | id
    · rfl
    · rfl
    · rfl
    · obtain ⟨e, hget⟩ := get?_of_pass hpass
      have hpos := SortedMap.length_erase_lt hget
      obtain ⟨m, rfl⟩ : ∃ k, m = k + 1 := ⟨m - 1, by omega⟩
      dsimp only
      split_ifs with hdel
      · have hlen := length_deleteResource hget hdel
        exact ih m _ (by omega) (by omega)
      · rfl

theorem checkLimit_eq (env : Env ι) (c : DiskCache ι) : c.checkLimit env =
    match c.pass with
    | .fits => some (true, c)
    | .allLocked => some (false, c)
    | .pastEnd => none
    | .victim id =>
      if (deleteResource env id c).1 then (deleteResource env id c).2.checkLimit env
      else some (false, (deleteResource env id c).2) := by
  rw [checkLimit, checkLimitLoop_fuel _ (c.map_.entries.length + 1) c le_rfl (Nat.le_succ _),
    checkLimitLoop]
  rcases hpass : c.pass with _ | _ | _ | id
  · rfl
  · rfl
  · rfl
  · obtain ⟨e, hget⟩ := get?_of_pass hpass
    dsimp only
    split_ifs with hdel
    · have hlen := length_deleteResource hget hdel
      exact checkLimitLoop_fuel _ _ _ (by omega) le_rfl
    · rfl

/-! ### The interface -/

/-- `entry->lock_state = LS_LOCKED`, a store into freed memory if the entry is gone. -/
def setLocked (id : ι) (c : DiskCache ι) : DiskCache ι :=
  match c.map_.get? id with
  | none => c
  | some e => { c with map_ := c.map_.insert id { e with lock_state := .locked } }

def lockResource (env : Env ι) (id : ι) (c : DiskCache ι) : Option (Bool × DiskCache ι) :=
  let c := c.getOrCreateEntry env id
  match c.map_.get? id with
  | none => none
  | some e =>
    if e.lock_state = .locked then some (false, c)
    else if e.lock_state = .unlocked ∧ 0 < e.accessors then some (false, c)
    else if c.max_cache_ < c.total_size_ then
      (c.checkLimit env).map fun r => if r.1 then (true, r.2.setLocked id) else (false, r.2)
    else some (true, c.setLocked id)

def writeResource (env : Env ι) (id : ι) (index : ℕ) (c : DiskCache ι) :
    Option (Bool × DiskCache ι) :=
  match c.map_.get? id with
  | none => none
  | some e =>
    if e.lock_state ≠ .locked then some (false, c)
    else
      let previous_size := if e.size < c.fileSize id index then e.size else c.fileSize id index
      if !env.opens then some (false, c)
      else some (true, { c with
        map_ := c.map_.insert id { e with
          streams := max e.streams (plus index 1)
          size := minus e.size previous_size
          accessors := e.accessors + 1 }
        total_size_ := minus c.total_size_ previous_size
        total_accessors_ := c.total_accessors_ + 1
        files := Function.update c.files id ((c.files id).insert (fileNumber index) 0)
        adapters := c.adapters ++ [⟨id, index, true⟩]
        wrapped := c.wrapped || decide (e.size < previous_size) ||
          decide (c.total_size_ < previous_size) })

/-- The entry without streams that `UnlockResource` leaves, before `CheckLimit`. -/
def unlockEntry (env : Env ι) (id : ι) (e : Entry) (c : DiskCache ι) : DiskCache ι :=
  { c with map_ := c.map_.insert id { e with lock_state := .unlocked, last_modified := env.now } }

def unlockResource (env : Env ι) (id : ι) (c : DiskCache ι) : Option (Bool × DiskCache ι) :=
  match c.map_.get? id with
  | none => none
  | some e =>
    if e.lock_state ≠ .locked then some (false, c)
    else if 0 < e.accessors then
      some (true, { c with map_ := c.map_.insert id { e with lock_state := .unlocking } })
    else ((c.unlockEntry env id e).checkLimit env).map fun r => (true, r.2)

def readResource (env : Env ι) (id : ι) (index : ℕ) (c : DiskCache ι) :
    Option (Bool × DiskCache ι) :=
  match c.map_.get? id with
  | none => none
  | some e =>
    if e.lock_state ≠ .unlocked then some (false, c)
    else if e.streams ≤ index then some (false, c)
    else if !env.opens then some (false, c)
    else some (true, { c with
      map_ := c.map_.insert id { e with accessors := e.accessors + 1 }
      total_accessors_ := c.total_accessors_ + 1
      adapters := c.adapters ++ [⟨id, index, false⟩] })

/-- `PurgeFiles` is the subclass's: it removes files and says whether that went well. -/
def purge (env : Env ι) (c : DiskCache ι) : Bool × DiskCache ι :=
  if c.folder_ = [] then (false, c)
  else if 0 < c.total_accessors_ then (false, c)
  else
    let c := { c with files := fun id => (c.files id).filter fun n _ => !env.removes id n }
    if !env.purges then (false, c) else (true, { c with map_ := .empty })

/-- The part of `ReleaseResource` before `CheckLimit`: the entry afterwards, if there is one. -/
def releaseEntry (env : Env ι) (id : ι) (index : ℕ) (e : Entry) (c : DiskCache ι) : DiskCache ι :=
  let accessors := minus e.accessors 1
  let c := { c with
    total_accessors_ := minus c.total_accessors_ 1
    wrapped := c.wrapped || decide (e.accessors < 1) || decide (c.total_accessors_ < 1) }
  if e.lock_state = .unlocked then
    { c with map_ := c.map_.insert id { e with accessors } }
  else
    let size := plus e.size (c.fileSize id index)
    { c with
      total_size_ := plus c.total_size_ (c.fileSize id index)
      map_ := c.map_.insert id
        (if e.lock_state = .unlocking ∧ accessors = 0 then
          { e with accessors, size, lock_state := .unlocked, last_modified := env.now }
        else { e with accessors, size }) }

def releaseResource (env : Env ι) (id : ι) (index : ℕ) (c : DiskCache ι) : Option (DiskCache ι) :=
  match c.map_.get? id with
  | none => some c
  | some e =>
    if e.lock_state = .unlocking ∧ minus e.accessors 1 = 0 then
      ((c.releaseEntry env id index e).checkLimit env).map (·.2)
    else some (c.releaseEntry env id index e)

/-- What the users of the cache and its streams do: `flush k size` brings what the open
stream `k` wrote to its file, which has then that size, and `close k` destroys the stream. -/
inductive Action (ι : Type)
  | lockResource (id : ι)
  | writeResource (id : ι) (index : ℕ)
  | unlockResource (id : ι)
  | readResource (id : ι) (index : ℕ)
  | deleteResource (id : ι)
  | purge
  | flush (k size : ℕ)
  | close (k : ℕ)

/-- One call: what it returns (whether a stream, where it returns one) and what it leaves. -/
def step (env : Env ι) (c : DiskCache ι) : Action ι → Option (Bool × DiskCache ι)
  | .lockResource id => c.lockResource env id
  | .writeResource id index => c.writeResource env id index
  | .unlockResource id => c.unlockResource env id
  | .readResource id index => c.readResource env id index
  | .deleteResource id => some (c.deleteResource env id)
  | .purge => some (c.purge env)
  | .flush k size => (c.adapters[k]?).bind fun a =>
      if a.writing then some (true, { c with
        files := Function.update c.files a.id ((c.files a.id).insert (fileNumber a.index) size) })
      else none
  | .close k => (c.adapters[k]?).bind fun a =>
      ({ c with adapters := c.adapters.eraseIdx k }.releaseResource env a.id a.index).map
        fun c => (true, c)

end DiskCache

end Jingle.Base
