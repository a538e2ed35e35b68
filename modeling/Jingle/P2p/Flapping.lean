/-
Switching between equivalent connections.

`ShouldSwitch` is asked about the best connection and the top of the sorted list.
For two connections of the same write state, preference and generation it says yes
if the latency of the new one is at most that of the old one plus
`kMinImprovement`, where the improvement should be required of the new one.  So
two such connections whose latencies differ by no more than that are switched to
and fro.

**`noFlapping_iff`** is about any sequence of latencies with a sorting after each:
no two equivalent connections are to be switched both ways, a sorting replaces the
best connection by an equivalent one only for the improvement, and latencies that
offer no improvement leave it alone, if and only if at every sorting any two
equivalent connections lie further apart.
-/
import Jingle.P2p.Sorting

namespace Jingle.P2p

namespace Channel

variable (ch : Channel)

/-! ### Latencies -/

/-- The latencies of all connections, and the time of the sorting that follows. -/
structure RttUpdate where
  rtt : ℕ → Word
  now : Word

/-- The channel with new latencies. -/
def withRtt (rtt : ℕ → Word) : Channel :=
  { ch with conn := fun i => { ch.conn i with rtt := rtt i } }

/-- The channel whose connections the sorting compares. -/
def compared (u : RttUpdate) : Channel := (ch.withRtt u.rtt).updateConnectionStates u.now

/-- New latencies and a sorting. -/
def update (u : RttUpdate) : Channel := (ch.withRtt u.rtt).sortConnections u.now

/-- A property of every update of a sequence. -/
def EachUpdate (P : Channel → RttUpdate → Prop) : Channel → List RttUpdate → Prop
  | _, [] => True
  | ch, u :: us => P ch u ∧ EachUpdate P (ch.update u) us

/-! ### What is promised -/

/-- The connections of the list and the best one. -/
def Known (i : ℕ) : Prop := i ∈ ch.connections ∨ i ∈ ch.bestConnection

/-- The same write state, preference and generation. -/
structure Equivalent (i j : ℕ) : Prop where
  writeState : (ch.conn i).writeState = (ch.conn j).writeState
  preference : ch.preferenceOf (ch.conn i) = ch.preferenceOf (ch.conn j)
  generation : ch.generationOf (ch.conn i) = ch.generationOf (ch.conn j)

/-- The latency of a connection. -/
def rttOf (i : ℕ) : ℕ := (ch.conn i).rtt.toNat

/-- No equivalent connection is faster than `b` by the improvement. -/
def Within (b : ℕ) : Prop :=
  ∀ i, ch.Known i → ch.Equivalent b i → ch.rttOf b < ch.rttOf i + kMinImprovement

/-- What is promised of one sorting. -/
structure Calm (ch : Channel) (u : RttUpdate) : Prop where
  oneWay : ∀ i j, (ch.compared u).Known i → (ch.compared u).Known j → i ≠ j →
    (ch.compared u).Equivalent i j →
      ¬((ch.compared u).shouldSwitch (some i) (some j) ∧
        (ch.compared u).shouldSwitch (some j) (some i))
  improves : ∀ b ∈ ch.bestConnection, ∀ t ∈ (ch.update u).bestConnection, t ≠ b →
    (ch.compared u).Equivalent b t →
      (ch.compared u).rttOf t + kMinImprovement ≤ (ch.compared u).rttOf b
  steady : ∀ b ∈ ch.bestConnection, (ch.compared u).Within b →
    ∀ t ∈ (ch.update u).bestConnection, t ≠ b → ¬(ch.compared u).Equivalent b t

/-- Any two equivalent connections differ in latency by more than the improvement. -/
def Apart (ch : Channel) (u : RttUpdate) : Prop :=
  ∀ i j, (ch.compared u).Known i → (ch.compared u).Known j → i ≠ j →
    (ch.compared u).Equivalent i j →
      (ch.compared u).rttOf i + kMinImprovement < (ch.compared u).rttOf j ∨
        (ch.compared u).rttOf j + kMinImprovement < (ch.compared u).rttOf i

variable {ch} {i j b t : ℕ} {u : RttUpdate}

/-! ### One sorting -/

theorem Equivalent.symm (h : ch.Equivalent i j) : ch.Equivalent j i :=
  ⟨h.writeState.symm, h.preference.symm, h.generation.symm⟩

theorem Equivalent.compareConnections (h : ch.Equivalent i j) :
    ch.compareConnections (ch.conn i) (ch.conn j) = 0 := by
  rw [Channel.compareConnections, h.writeState, if_neg (lt_irrefl _), if_neg (lt_irrefl _),
    compareConnectionCandidates, h.preference, if_neg (lt_irrefl _), if_neg (lt_irrefl _),
    h.generation, BitVec.sub_self, BitVec.toInt_zero]

theorem Equivalent.shouldSwitch_iff (h : ch.Equivalent i j) (hne : i ≠ j) :
    ch.shouldSwitch (some i) (some j) ↔ ch.rttOf j ≤ ch.rttOf i + kMinImprovement := by
  rw [shouldSwitch, if_neg (fun he => hne (Option.some.inj he))]
  dsimp only
  rw [h.compareConnections, if_neg (lt_irrefl _), if_neg (lt_irrefl _), decide_eq_true_iff]
  rfl

theorem bestConnection_sortConnections (now : Word) :
    (ch.sortConnections now).bestConnection =
      (ch.updateConnectionStates now).chooseBest.bestConnection := by
  rw [sortConnections]
  exact (handle_spec _).1.best.trans (pruned_pruneNetworks _ _).best

theorem shouldSwitch_of_replaced (hb : b ∈ ch.bestConnection)
    (ht : t ∈ (ch.update u).bestConnection) (hne : t ≠ b) :
    (ch.compared u).Known t ∧ (ch.compared u).shouldSwitch (some b) (some t) := by
  rw [update, bestConnection_sortConnections] at ht
  have hbest : (ch.compared u).bestConnection = some b := hb
  have hperm := chooseBest_perm (ch.compared u)
  have hchosen : (ch.compared u).chooseBest.bestConnection =
      if (ch.compared u).shouldSwitch (ch.compared u).bestConnection
          (ch.compared u).chooseBest.connections.head? then
        (ch.compared u).chooseBest.connections.head? else (ch.compared u).bestConnection := rfl
  rw [← compared, hchosen, hbest] at ht
  split_ifs at ht with hswitch
  · have hhead : (ch.compared u).chooseBest.connections.head? = some t := ht
    rw [hhead] at hswitch
    exact ⟨.inl (hperm.subset (List.mem_of_mem_head? ht)), hswitch⟩
  · exact absurd (Option.some.inj ht).symm hne

theorem calm_iff_apart (ch : Channel) (u : RttUpdate) : ch.Calm u ↔ ch.Apart u := by
  constructor
  · intro h i j hi hj hne heq
    have hone := h.oneWay i j hi hj hne heq
    rw [heq.shouldSwitch_iff hne, heq.symm.shouldSwitch_iff hne.symm] at hone
    omega
  · intro h
    refine ⟨fun i j hi hj hne heq => ?_, fun b hb t ht hne heq => ?_,
      fun b hb hwithin t ht hne heq => ?_⟩
    · have hapart := h i j hi hj hne heq
      rw [heq.shouldSwitch_iff hne, heq.symm.shouldSwitch_iff hne.symm]
      omega
    all_goals
      obtain ⟨hknown, hswitch⟩ := shouldSwitch_of_replaced hb ht hne
      have hapart := h b t (.inr hb) hknown hne.symm heq
      rw [heq.shouldSwitch_iff hne.symm] at hswitch
    · omega
    · have hrtt := hwithin t hknown heq
      omega

/-! ### Sequences -/

/-- **Switching is calm** in a sequence of updates if and only if, at every sorting, any two
equivalent connections differ by more than `kMinImprovement`. -/
theorem noFlapping_iff (ch : Channel) (us : List RttUpdate) :
    EachUpdate Calm ch us ↔ EachUpdate Apart ch us := by
  induction us generalizing ch with
  | nil => exact Iff.rfl
  | cons u us ih => exact and_congr (calm_iff_apart ch u) (ih _)

/-- Two new connections of equal ports; the first is the best one. -/
def twins : Channel :=
  let port (p : ℕ) : Port :=
    { usernameFragment := [], preference := 1, generation := 0, network := p }
  let twin : Connection := .new 0 World.offered true
  { ((new port (fun _ => twin) false).addConnection twin).addConnection twin with
    bestConnection := some 0 }

/-- Latencies of 105 and 100 ms: each of the two would be switched for the other. -/
theorem not_noFlapping : ¬∀ (ch : Channel) (us : List RttUpdate), EachUpdate Calm ch us := by
  intro h
  have hcalm := (h twins [⟨fun i => if i = 0 then 105 else 100, 0⟩]).1
  have heq : (twins.compared ⟨fun i => if i = 0 then 105 else 100, 0⟩).Equivalent 0 1 :=
    ⟨by decide, rfl, rfl⟩
  exact hcalm.oneWay 0 1 (.inr rfl) (.inl (by decide)) (by decide) heq
    ⟨(heq.shouldSwitch_iff (by decide)).2 (by decide),
      (heq.symm.shouldSwitch_iff (by decide)).2 (by decide)⟩

end Channel

end Jingle.P2p
