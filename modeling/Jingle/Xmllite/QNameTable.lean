/-
The table of qualified names.

Names that are made with the add flag are kept for ever, in a table of 512 slots
with open addressing: the hash of the name gives the first slot and, shifted and
made odd, the stride.  A search goes on until it finds the name or an empty slot,
and nothing counts the names.

A construction searches with the local part up to its NUL (`cString`); with the add
flag it takes the slot that it finds, without it the slot's name or one of its own.
-/
import Jingle.Lib.Probe
import Jingle.Lib.Strtoul
import Jingle.Signaling.Xml

namespace Jingle.Xmllite

open Signaling Probe
open Numeral (cString)

/-! ### The table -/

/-- `QName::Data` of a slot. -/
structure NameData where
  namespace_ : Text
  localPart : Text
  refcount : ℕ
  deriving DecidableEq, Repr

def NameData.occupied (d : NameData) : Bool := d.refcount ≠ 0

/-- A slot that has not been used. -/
def NameData.unused : NameData := { namespace_ := [], localPart := [], refcount := 0 }

def NameData.addRef (d : NameData) : NameData := { d with refcount := d.refcount + 1 }

/-- `Release`, for the data of a slot. -/
def NameData.release (d : NameData) : NameData := { d with refcount := d.refcount - 1 }

/-- The number of bits of an index. -/
def bits : ℕ := 9

/-- The number of slots. -/
def slots : ℕ := 2 ^ bits

/-- `QName_Hash`; characters are signed. -/
def qnameHash (ns local_ : Text) : Word :=
  local_.foldl (fun result ch => result * 19 + ch.signExtend 32)
    (BitVec.ofNat 32 ns.length * 101)

/-- `index &= (1 << bits) - 1`. -/
def slotOf (index : Word) : ℕ := (index &&& 511#32).toNat

/-- The stride of a hash: `index >> (bits - 1) | 1`. -/
def increment (index : Word) : Word := index.sshiftRight (bits - 1) ||| 1#32

/-- The loop of `Add` and of `AllocateOrFind`: the slot at which it returns. -/
def searchFrom (table : ℕ → NameData) (ns local_ : Text) (increment : Word) : ℕ → Word → Option ℕ
  | 0, _ => none
  | fuel + 1, index =>
    let index := index &&& 511#32
    if !(table index.toNat).occupied then some index.toNat
    else if (table index.toNat).localPart = local_ ∧ (table index.toNat).namespace_ = ns then
      some index.toNat
    else searchFrom table ns local_ increment fuel (index + increment)

/-- The search for a name. -/
def search (table : ℕ → NameData) (ns local_ : Text) (fuel : ℕ) : Option ℕ :=
  searchFrom table ns local_ (increment (qnameHash ns local_)) fuel (qnameHash ns local_)

/-! ### Names -/

/-- The data that a `QName` points to: a slot, or data of its own. -/
inductive NameRef
  | interned (slot : ℕ)
  | own (ns local_ : Text)
  deriving DecidableEq, Repr

/-- The table and the names that exist. -/
structure Names where
  table : ℕ → NameData
  live : List NameRef

namespace Names

/-- Before the first construction. -/
def empty : Names := { table := fun _ => .unused, live := [] }

variable (s : Names)

/-- `Namespace` and `LocalPart`. -/
def nameOf : NameRef → Text × Text
  | .interned slot => ((s.table slot).namespace_, (s.table slot).localPart)
  | .own ns local_ => (ns, local_)

/-- `operator==`. -/
def eqv (a b : NameRef) : Bool :=
  a = b || ((s.nameOf a).2 = (s.nameOf b).2 && (s.nameOf a).1 = (s.nameOf b).1)

/-- Strings in the order of `std::string::compare`. -/
def compareText (a b : Text) : Ordering :=
  if a = b then .eq else if a.map BitVec.toNat < b.map BitVec.toNat then .lt else .gt

/-- `Compare`. -/
def compareNames (a b : NameRef) : Ordering :=
  if a = b then .eq
  else (compareText (s.nameOf a).2 (s.nameOf b).2).then (compareText (s.nameOf a).1 (s.nameOf b).1)

/-- A reference to a name in a slot. -/
def refer (slot : ℕ) : Names :=
  { s with
    table := Function.update s.table slot (s.table slot).addRef
    live := s.live ++ [.interned slot] }

/-- What `Add` does at the slot where its loop returns. -/
def addAt (ns local_ : Text) (slot : ℕ) : Names :=
  if (s.table slot).occupied then s.refer slot
  else
    -- a second reference, so that the name is never deleted
    { s with
      table := Function.update s.table slot
        ({ s.table slot with namespace_ := ns, localPart := local_ } : NameData).addRef.addRef
      live := s.live ++ [.interned slot] }

/-- What `AllocateOrFind` does there. -/
def allocateAt (ns local_ : Text) (slot : ℕ) : Names :=
  if (s.table slot).occupied then s.refer slot
  else { s with live := s.live ++ [.own ns local_] }

/-- The constructor, after so many rounds of its loop at most. -/
def construct (add : Bool) (ns local_ : Text) (fuel : ℕ) : Option Names :=
  (search s.table ns (cString local_) fuel).map
    (if add then s.addAt ns (cString local_) else s.allocateAt ns (cString local_))

/-- The copy of the name number `k`. -/
def copy (k : ℕ) : Names :=
  match s.live[k]? with
  | none => s
  | some (.interned slot) => s.refer slot
  | some (.own ns local_) => { s with live := s.live ++ [.own ns local_] }

/-- The destructor of the name number `k`. -/
def destroy (k : ℕ) : Names :=
  match s.live[k]? with
  | none => s
  | some (.interned slot) =>
    { s with
      table := Function.update s.table slot (s.table slot).release
      live := s.live.eraseIdx k }
  | some (.own _ _) => { s with live := s.live.eraseIdx k }

end Names

/-- What is done with names. -/
inductive NameEvent
  | construct (add : Bool) (ns local_ : Text)
  | copy (k : ℕ)
  | destroy (k : ℕ)
  deriving DecidableEq, Repr

namespace Names

/-- The state after an event; a construction whose loop does not end has none. -/
def act (s : Names) : NameEvent → Option Names
  | .construct add ns local_ => s.construct add ns local_ slots
  | .copy k => some (s.copy k)
  | .destroy k => some (s.destroy k)

/-- A property of every construction of a sequence, as far as it comes. -/
def EachConstruction (P : Names → Bool → Text → Text → Prop) : Names → List NameEvent → Prop
  | _, [] => True
  | s, e :: es =>
    (∀ add ns local_, e = .construct add ns local_ → P s add ns local_) ∧
      ∀ s', s.act e = some s' → EachConstruction P s' es

/-- The names that the table holds. -/
def key (d : NameData) : Option (Text × Text) :=
  if d.occupied then some (d.namespace_, d.localPart) else none

def interned (s : Names) : List (Text × Text) := keys slots fun j => key (s.table j)

/-! ### What is promised -/

/-- The loop ends, with the requested name, and names compare equal if they are. -/
structure Faithful (s : Names) (add : Bool) (ns local_ : Text) : Prop where
  ends : ∃ fuel, s.construct add ns local_ fuel ≠ none
  requested : ∀ fuel s', s.construct add ns local_ fuel = some s' →
    ∃ a, s'.live = s.live ++ [a] ∧ s'.nameOf a = (ns, local_)
  equal : ∀ fuel s', s.construct add ns local_ fuel = some s' →
    ∀ a ∈ s'.live, ∀ b ∈ s'.live,
      (s'.eqv a b ↔ s'.nameOf a = s'.nameOf b) ∧
        (s'.compareNames a b = .eq ↔ s'.nameOf a = s'.nameOf b)

/-- The name is in the table or there is room, and its local part has no NUL. -/
def Fits (s : Names) (_add : Bool) (ns local_ : Text) : Prop :=
  0#8 ∉ local_ ∧ ((ns, local_) ∈ s.interned ∨ s.interned.length < slots)

end Names

end Jingle.Xmllite
