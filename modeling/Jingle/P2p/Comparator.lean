/-
The order in which connections are sorted.

`ConnectionCompare` looks at the write state, at the product of the preferences,
at the generations and at the latency.  The generations of both sides are added
up and subtracted as words of 32 bits, and the sign of the difference as an `int`
decides.  So generations are compared around a circle: of three sums each may be
ahead of the next one, and two sums that lie opposite to each other are neither
ahead nor behind.

**`strictWeakOn_iff`** says for which connections the comparison is a strict weak
order, as a sort needs it: those without such a circle (`Coherent`).
-/
import Jingle.Lib.StrictWeak
import Jingle.P2p.Sorting

namespace Jingle.P2p

/-! ### What is compared -/

/-- What `ConnectionCompare` reads of a connection: its write state, the product of its
preferences, the sum of its generations and its latency. -/
structure Ranking (α : Type) where
  writeState : WriteState
  preference : α
  generation : Word
  rtt : Word

namespace Ranking

variable {α : Type}

/-! ### Around the circle -/

/-- How far the generations of one are ahead of those of the other, as an `int`. -/
def ahead (a b : Ranking α) : ℤ := (a.generation - b.generation).toInt

/-- The order of those in the same place: younger generations first, then the latency. -/
def Younger (a b : Ranking α) : Prop := 0 < a.ahead b ∨ a.ahead b = 0 ∧ a.rtt < b.rtt

/-- The differences of generations go around the circle: two of them add up to the third one,
or to it and a whole turn. -/
theorem ahead_add (a b c : Ranking α) :
    a.ahead c = a.ahead b + b.ahead c ∨ a.ahead c = a.ahead b + b.ahead c - 2 ^ 32 ∨
      a.ahead c = a.ahead b + b.ahead c + 2 ^ 32 := by
  have ha := a.generation.isLt
  have hb := b.generation.isLt
  have hc := c.generation.isLt
  simp only [ahead, BitVec.toInt_eq_toNat_cond, BitVec.toNat_sub]
  omega

theorem ahead_range (a b : Ranking α) : -2 ^ 31 ≤ a.ahead b ∧ a.ahead b < 2 ^ 31 :=
  ⟨BitVec.le_toInt _, BitVec.toInt_lt⟩

theorem ahead_self (a : Ranking α) : a.ahead a = 0 := by
  rw [ahead, BitVec.sub_self, BitVec.toInt_zero]

theorem incomparable_younger_iff (a b : Ranking α) :
    Incomparable Younger a b ↔ a.ahead b = 0 ∧ a.rtt = b.rtt ∨ a.ahead b = -2 ^ 31 := by
  have hab := ahead_range a b
  have hba := ahead_range b a
  have hsum := ahead_add a b a
  rw [ahead_self] at hsum
  rw [Incomparable, Younger, Younger, BitVec.lt_def, BitVec.lt_def, ← BitVec.toNat_inj]
  omega

theorem younger_trans_iff (a b c : Ranking α) :
    (Younger a b → Younger b c → Younger a c) ↔
      ¬(0 < a.ahead b ∧ 0 < b.ahead c ∧ 2 ^ 31 ≤ a.ahead b + b.ahead c) := by
  have hab := ahead_range a b
  have hbc := ahead_range b c
  have hac := ahead_range a c
  have hsum := ahead_add a b c
  rw [Younger, Younger, Younger, BitVec.lt_def, BitVec.lt_def, BitVec.lt_def]
  omega

theorem younger_incomparable_iff (a b c : Ranking α) :
    (Incomparable Younger a b → Incomparable Younger b c → Incomparable Younger a c) ↔
      (a.ahead b = -2 ^ 31 → b.ahead c = -2 ^ 31 → a.rtt = c.rtt) := by
  have hab := ahead_range a b
  have hbc := ahead_range b c
  have hac := ahead_range a c
  have hsum := ahead_add a b c
  rw [incomparable_younger_iff, incomparable_younger_iff, incomparable_younger_iff,
    ← BitVec.toNat_inj, ← BitVec.toNat_inj, ← BitVec.toNat_inj]
  omega

theorem not_younger_self (a : Ranking α) : ¬Younger a a := by
  rw [Younger, ahead_self, BitVec.lt_def]
  omega

/-- The write state and the preference; smaller ones are sorted first. -/
def place (a : Ranking α) : ℕ ×ₗ αᵒᵈ :=
  toLex (a.writeState.rank, OrderDual.toDual a.preference)

/-- No three connections in one place are each ahead of the next by less than half of the
circle and together by half of it or more; and two that lie opposite to a third one have the
same latency. -/
def Coherent (S : Set (Ranking α)) : Prop :=
  ∀ a ∈ S, ∀ b ∈ S, ∀ c ∈ S, a.place = b.place → b.place = c.place →
    ¬(0 < a.ahead b ∧ 0 < b.ahead c ∧ 2 ^ 31 ≤ a.ahead b + b.ahead c) ∧
      (a.ahead b = -2 ^ 31 → b.ahead c = -2 ^ 31 → a.rtt = c.rtt)

theorem strictWeakOn_younger_iff (S : Set (Ranking α)) :
    (∀ v, StrictWeakOn {a ∈ S | a.place = v} Younger) ↔ Coherent S := by
  constructor
  · intro h a ha b hb c hc hab hbc
    have hplace := h a.place
    have hb' : b ∈ {x ∈ S | x.place = a.place} := ⟨hb, hab.symm⟩
    have hc' : c ∈ {x ∈ S | x.place = a.place} := ⟨hc, (hab.trans hbc).symm⟩
    exact ⟨(younger_trans_iff a b c).1 (hplace.trans a ⟨ha, rfl⟩ b hb' c hc'),
      (younger_incomparable_iff a b c).1 (hplace.incomparable a ⟨ha, rfl⟩ b hb' c hc')⟩
  · intro h v
    refine ⟨fun a _ => not_younger_self a, ?_, ?_⟩
    · rintro a ⟨ha, ka⟩ b ⟨hb, kb⟩ c ⟨hc, kc⟩
      exact (younger_trans_iff a b c).2
        (h a ha b hb c hc (ka.trans kb.symm) (kb.trans kc.symm)).1
    · rintro a ⟨ha, ka⟩ b ⟨hb, kb⟩ c ⟨hc, kc⟩
      exact (younger_incomparable_iff a b c).2
        (h a ha b hb c hc (ka.trans kb.symm) (kb.trans kc.symm)).2

/-! ### The comparison -/

variable [LinearOrder α]

def compareConnectionCandidates (a b : Ranking α) : ℤ :=
  if b.preference < a.preference then 1
  else if a.preference < b.preference then -1
  else (a.generation - b.generation).toInt

def compareConnections (a b : Ranking α) : ℤ :=
  if a.writeState.rank < b.writeState.rank then 1
  else if b.writeState.rank < a.writeState.rank then -1
  else a.compareConnectionCandidates b

def connectionCompare (a b : Ranking α) : Bool :=
  let cmp := a.compareConnections b
  if 0 < cmp then true
  else if cmp < 0 then false
  else a.rtt < b.rtt

theorem connectionCompare_iff (a b : Ranking α) :
    a.connectionCompare b ↔ ThenBy place Younger a b := by
  rw [ThenBy, place, place, Prod.Lex.toLex_lt_toLex, toLex_inj, Prod.mk.injEq,
    OrderDual.toDual_lt_toDual, OrderDual.toDual_inj, Younger, ahead, connectionCompare,
    compareConnections, compareConnectionCandidates]
  dsimp only
  split_ifs <;> grind

theorem connectionCompare_eq :
    (fun a b : Ranking α => a.connectionCompare b = true) = ThenBy place Younger :=
  funext fun a => funext fun b => propext (connectionCompare_iff a b)

/-- **The comparison is a strict weak order** on a set of connections if and only if their
generations are coherent. -/
theorem strictWeakOn_iff (S : Set (Ranking α)) :
    StrictWeakOn S (fun a b => a.connectionCompare b) ↔ Coherent S := by
  rw [connectionCompare_eq, strictWeakOn_thenBy_iff, strictWeakOn_younger_iff]

/-- Three connections, each a younger one than the next. -/
theorem not_strictWeakOn :
    ¬∀ S : Set (Ranking ℕ), StrictWeakOn S fun a b => a.connectionCompare b := by
  intro h
  have htrans := (h Set.univ).trans ⟨.writable, 1, 0xC0000000, 100⟩ trivial
    ⟨.writable, 1, 0x60000000, 100⟩ trivial ⟨.writable, 1, 0, 100⟩ trivial
  exact absurd (htrans (by decide) (by decide)) (by decide)

end Ranking

/-! ### The connections of a channel -/

namespace Channel

variable (ch : Channel)

end Channel

end Jingle.P2p
