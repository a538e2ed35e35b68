/-
The best connection after sorting.

`merit` is what `CompareConnections` looks at, as one value of a linear order.
`SortConnections` works in three phases: it sorts and chooses, it prunes network
by network, and it counts.  The choice is of greatest merit (`chooseBest_best`),
the pruning lowers connections but never the chosen one (`Pruned`), so that the
counts still agree with it.

`best_after_sort` is the result: in every run the best connection is one of the
list, and after each sorting the channel is writable if and only if the best
connection is.
-/
import Jingle.P2p.Readable

namespace Jingle.P2p

/-! ### Merit -/

namespace Channel

variable (ch : Channel)

/-- The sum of the generations of both sides. -/
def generationSum (c : Connection) : ℕ :=
  c.remoteCandidate.generation.toNat + (ch.port c.port).generation.toNat

/-- What `CompareConnections` looks at: the write state, then the preferences of
both sides, then their generations.  Greater is better. -/
def merit (c : Connection) : ℕᵒᵈ ×ₗ ℚ ×ₗ ℕ :=
  toLex (OrderDual.toDual c.writeState.rank, toLex (ch.preferenceOf c, ch.generationSum c))

/-- The merit, then the latency: the order of the sorted list. -/
def standing (c : Connection) : (ℕᵒᵈ ×ₗ ℚ ×ₗ ℕ) ×ₗ ℕᵒᵈ :=
  toLex (ch.merit c, OrderDual.toDual c.rtt.toNat)

/-- The generations of the connections add up below 2^31. -/
def GenerationsFit : Prop := ∀ i ∈ ch.connections, ch.generationSum (ch.conn i) < 2 ^ 31

/-- The best connection, if there is one, is in the list. -/
def BestListed : Prop := ∀ b ∈ ch.bestConnection, b ∈ ch.connections

variable {ch} {a b : Connection}

theorem generationOf_sub (ha : ch.generationSum a < 2 ^ 31) (hb : ch.generationSum b < 2 ^ 31) :
    (ch.generationOf a - ch.generationOf b).toInt =
      (ch.generationSum a : ℤ) - ch.generationSum b := by
  have hsum : ∀ c, ch.generationSum c < 2 ^ 31 →
      (ch.generationOf c).toNat = ch.generationSum c := by
    intro c hc
    rw [generationOf, BitVec.toNat_add]
    exact Nat.mod_eq_of_lt (hc.trans (by norm_num))
  have h₁ := hsum a ha
  have h₂ := hsum b hb
  rw [BitVec.toInt_eq_toNat_cond, BitVec.toNat_sub, h₁, h₂]
  omega

theorem compareConnections_pos (ha : ch.generationSum a < 2 ^ 31)
    (hb : ch.generationSum b < 2 ^ 31) :
    0 < ch.compareConnections a b ↔ ch.merit b < ch.merit a := by
  rw [merit, merit, Prod.Lex.toLex_lt_toLex, Prod.Lex.toLex_lt_toLex]
  simp only [compareConnections, compareConnectionCandidates, generationOf_sub ha hb,
    OrderDual.toDual_lt_toDual, OrderDual.toDual_inj]
  split_ifs <;> grind

theorem compareConnections_neg (ha : ch.generationSum a < 2 ^ 31)
    (hb : ch.generationSum b < 2 ^ 31) :
    ch.compareConnections a b < 0 ↔ ch.merit a < ch.merit b := by
  rw [merit, merit, Prod.Lex.toLex_lt_toLex, Prod.Lex.toLex_lt_toLex]
  simp only [compareConnections, compareConnectionCandidates, generationOf_sub ha hb,
    OrderDual.toDual_lt_toDual, OrderDual.toDual_inj]
  split_ifs <;> grind

theorem connectionCompare_iff (ha : ch.generationSum a < 2 ^ 31)
    (hb : ch.generationSum b < 2 ^ 31) :
    ch.connectionCompare a b ↔ ch.standing b < ch.standing a := by
  have hpos := compareConnections_pos ha hb
  have hneg := compareConnections_neg ha hb
  rw [standing, standing, Prod.Lex.toLex_lt_toLex]
  simp only [connectionCompare, OrderDual.toDual_lt_toDual, BitVec.lt_def]
  split_ifs with h₁ h₂
  · simp [hpos.1 h₁]
  · simp [(hneg.1 h₂).not_gt, (hneg.1 h₂).ne']
  · have heq : ch.merit b = ch.merit a :=
      le_antisymm (not_lt.1 fun h => h₂ (hneg.2 h)) (not_lt.1 fun h => h₁ (hpos.2 h))
    simp [heq]

theorem merit_of_not_shouldSwitch {i j : ℕ} (hi : ch.generationSum (ch.conn i) < 2 ^ 31)
    (hj : ch.generationSum (ch.conn j) < 2 ^ 31) (h : ch.shouldSwitch (some i) (some j) = false) :
    ch.merit (ch.conn j) ≤ ch.merit (ch.conn i) := by
  rw [shouldSwitch] at h
  split_ifs at h with heq
  · rw [Option.some.inj heq]
  · dsimp only at h
    split_ifs at h with hlt
    · exact not_lt.1 fun hm => hlt ((compareConnections_neg hi hj).2 hm)
    · exact not_lt.1 fun hm => hlt ((compareConnections_neg hi hj).2 hm)

/-! ### The choice -/

/-- A connection of the list of greatest merit, if the list is not empty. -/
structure Best (ch : Channel) : Prop where
  listed : ch.BestListed
  none_iff : ch.bestConnection = none ↔ ch.connections = []
  greatest : ∀ b ∈ ch.bestConnection, ∀ i ∈ ch.connections,
    ch.merit (ch.conn i) ≤ ch.merit (ch.conn b)

theorem chooseBest_perm (ch : Channel) : ch.chooseBest.connections.Perm ch.connections :=
  List.perm_insertionSort _ _

@[simp] theorem chooseBest_conn (ch : Channel) : ch.chooseBest.conn = ch.conn := rfl

theorem chooseBest_listed (hl : ch.BestListed) : ch.chooseBest.BestListed := by
  intro b hb
  have hperm := chooseBest_perm ch
  have hbest : ch.chooseBest.bestConnection =
      if ch.shouldSwitch ch.bestConnection ch.chooseBest.connections.head? then
        ch.chooseBest.connections.head? else ch.bestConnection := rfl
  rw [hbest] at hb
  split_ifs at hb
  · exact List.mem_of_mem_head? hb
  · exact hperm.symm.subset (hl b hb)

theorem chooseBest_sorted (hg : ch.GenerationsFit) :
    ch.chooseBest.connections.Pairwise fun i j =>
      ch.standing (ch.conn j) ≤ ch.standing (ch.conn i) := by
  let down : ℕ → ℕ → Prop := fun i j => ch.standing (ch.conn j) ≤ ch.standing (ch.conn i)
  have : Std.Total down := ⟨fun i j => le_total (ch.standing _) (ch.standing _)⟩
  have : IsTrans ℕ down := ⟨fun i j k h₁ h₂ => le_trans (show ch.standing _ ≤ ch.standing _ from h₂) h₁⟩
  have : DecidableRel down := fun i j => inferInstanceAs (Decidable (_ ≤ _))
  have hcongr := List.map_insertionSort
    (r := fun i j => ¬ch.connectionCompare (ch.conn j) (ch.conn i)) (s := down) id ch.connections
    fun i hi j hj => by
      rw [connectionCompare_iff (hg j hj) (hg i hi), not_lt]
      exact Iff.rfl
  rw [List.map_id, List.map_id] at hcongr
  have hsorted := List.pairwise_insertionSort down ch.connections
  rw [← hcongr] at hsorted
  exact hsorted

theorem chooseBest_best (hl : ch.BestListed) (hg : ch.GenerationsFit) : ch.chooseBest.Best := by
  have hperm := chooseBest_perm ch
  have hlisted := chooseBest_listed hl
  have hsorted := chooseBest_sorted hg
  have hbest : ch.chooseBest.bestConnection =
      if ch.shouldSwitch ch.bestConnection ch.chooseBest.connections.head? then
        ch.chooseBest.connections.head? else ch.bestConnection := rfl
  have hmerit : ∀ i, ch.chooseBest.merit (ch.chooseBest.conn i) = ch.merit (ch.conn i) :=
    fun _ => rfl
  generalize ch.chooseBest = ch' at *
  rcases hlist : ch'.connections with _ | ⟨top, rest⟩
  · -- an empty list: there was no best connection before
    rw [hlist] at hperm
    have hnone : ch.bestConnection = none := by
      rw [Option.eq_none_iff_forall_not_mem]
      intro b hb
      have := hperm.symm.subset (hl b hb)
      simp at this
    rw [hlist, hnone, List.head?_nil, ite_self] at hbest
    refine ⟨hlisted, ?_, ?_⟩
    · simp [hbest, hlist]
    · intro b hb
      simp [hbest] at hb
  · rw [hlist] at hperm hsorted
    have htop : ∀ i ∈ ch'.connections, ch.merit (ch.conn i) ≤ ch.merit (ch.conn top) := by
      intro i hi
      rw [hlist] at hi
      rcases List.mem_cons.1 hi with rfl | hi
      · exact le_rfl
      · have h := List.rel_of_pairwise_cons hsorted hi
        exact (Prod.Lex.le_iff.1 h).elim le_of_lt fun h => h.1.le
    have hmem : top ∈ ch.connections := hperm.subset List.mem_cons_self
    rw [hlist, List.head?_cons] at hbest
    have hsome : ∃ b, ch'.bestConnection = some b ∧
        ch.merit (ch.conn top) ≤ ch.merit (ch.conn b) := by
      rw [hbest]
      split_ifs with hs
      · exact ⟨top, rfl, le_rfl⟩
      · rcases hold : ch.bestConnection with _ | b
        · rw [hold] at hs
          simp [shouldSwitch] at hs
        · have hb := hl b hold
          rw [hold, Bool.not_eq_true] at hs
          exact ⟨b, rfl, merit_of_not_shouldSwitch (hg b hb) (hg top hmem) hs⟩
    obtain ⟨b, hb, hle⟩ := hsome
    refine ⟨hlisted, ?_, ?_⟩
    · simp [hb, hlist]
    · intro b' hb' i hi
      obtain rfl := Option.mem_unique hb' hb
      rw [hmerit, hmerit]
      exact (htop i hi).trans hle

/-! ### Pruning -/

end Channel

namespace Connection

variable {c : Connection}

theorem prune_same (c : Connection) :
    c.prune.port = c.port ∧ c.prune.remoteCandidate = c.remoteCandidate ∧
      c.writeState.rank ≤ c.prune.writeState.rank := by
  rw [prune]
  split
  · obtain ⟨n, h⟩ :=
      setWriteState_eq (c := { c with pruned := true, requests := [] }) (w := .writeTimeout)
    rw [h]
    refine ⟨rfl, rfl, ?_⟩
    show c.writeState.rank ≤ 2
    rcases c.writeState with _ | _ | _ <;> decide
  · exact ⟨rfl, rfl, le_rfl⟩

theorem prune_prune (c : Connection) : c.prune.prune = c.prune := by
  have hpruned : c.prune.pruned = true := by
    rw [prune]
    split
    · obtain ⟨n, h⟩ :=
        setWriteState_eq (c := { c with pruned := true, requests := [] }) (w := .writeTimeout)
      rw [h]
    · next h => simpa using h
  rw [prune, hpruned]
  rfl

theorem updateState_same (c : Connection) (now : Word) :
    (c.updateState now).port = c.port ∧ (c.updateState now).remoteCandidate = c.remoteCandidate :=
  ⟨(quiet_updateState now).port, (quiet_updateState now).remote⟩

end Connection

namespace Channel

variable {ch ch' ch'' : Channel}

/-- From `ch` to `ch'` connections have been pruned, but not the best one. -/
structure Pruned (ch ch' : Channel) : Prop where
  port : ch'.port = ch.port
  connections : ch'.connections = ch.connections
  best : ch'.bestConnection = ch.bestConnection
  conn : ∀ i, ch'.conn i = ch.conn i ∨ ch'.conn i = (ch.conn i).prune
  kept : ∀ b ∈ ch.bestConnection, ch'.conn b = ch.conn b

theorem Pruned.refl (ch : Channel) : Pruned ch ch :=
  ⟨rfl, rfl, rfl, fun _ => .inl rfl, fun _ _ => rfl⟩

theorem Pruned.trans (h : Pruned ch ch') (h' : Pruned ch' ch'') : Pruned ch ch'' where
  port := h'.port.trans h.port
  connections := h'.connections.trans h.connections
  best := h'.best.trans h.best
  conn := by
    intro i
    rcases h.conn i with h₁ | h₁ <;> rcases h'.conn i with h₂ | h₂ <;> rw [h₂, h₁]
    · exact .inl rfl
    · exact .inr rfl
    · exact .inr rfl
    · exact .inr (Connection.prune_prune _)
  kept := fun b hb => (h'.kept b (h.best ▸ hb)).trans (h.kept b hb)

/-- The best connection is the premier of its own network, and the others are
pruned for the sake of their own networks only. -/
theorem pruned_pruneNetwork (ch : Channel) (network : ℕ) :
    Pruned ch (ch.pruneNetwork network) := by
  rw [pruneNetwork]
  split
  · exact .refl ch
  · next premier hpremier =>
    split
    · exact .refl ch
    · refine ⟨rfl, rfl, rfl, fun i => ?_, fun b hb => ?_⟩
      · dsimp only [mapConnections]
        split_ifs
        · exact .inr rfl
        · exact .inl rfl
        · exact .inl rfl
      · have hnot : ¬(b ≠ premier ∧ (ch.port (ch.conn b).port).network = network ∧
            0 ≤ ch.compareConnectionCandidates (ch.conn premier) (ch.conn b)) := by
          rintro ⟨hne, hnet, -⟩
          rw [getBestConnectionOnNetwork, hb] at hpremier
          dsimp only at hpremier
          rw [if_pos hnet] at hpremier
          exact hne (Option.some.inj hpremier)
        dsimp only [mapConnections]
        rw [if_neg hnot, ite_self]

theorem pruned_pruneNetworks (ch : Channel) (networks : List ℕ) :
    Pruned ch (networks.foldl pruneNetwork ch) := by
  induction networks generalizing ch with
  | nil => exact .refl ch
  | cons network networks ih => exact (pruned_pruneNetwork ch network).trans (ih _)

theorem Pruned.merit_kept (h : Pruned ch ch') {b : ℕ} (hb : b ∈ ch.bestConnection) :
    ch'.merit (ch'.conn b) = ch.merit (ch.conn b) := by
  rw [h.kept b hb, merit, merit, preferenceOf, preferenceOf, generationSum, generationSum, h.port]

theorem Pruned.merit_le (h : Pruned ch ch') (i : ℕ) :
    ch'.merit (ch'.conn i) ≤ ch.merit (ch.conn i) := by
  rw [merit, merit, preferenceOf, preferenceOf, generationSum, generationSum, h.port]
  rcases h.conn i with he | he <;> rw [he]
  obtain ⟨hport, hremote, hrank⟩ := (ch.conn i).prune_same
  rw [hport, hremote, Prod.Lex.toLex_le_toLex']
  exact ⟨hrank, fun _ => le_rfl⟩

theorem Best.pruned (hb : ch.Best) (h : Pruned ch ch') : ch'.Best where
  listed := by
    intro b hmem
    rw [h.connections]
    exact hb.listed b (h.best ▸ hmem)
  none_iff := by rw [h.best, h.connections, hb.none_iff]
  greatest := by
    intro b hmem i hi
    rw [h.best] at hmem
    rw [h.connections] at hi
    calc ch'.merit (ch'.conn i) ≤ ch.merit (ch.conn i) := h.merit_le i
      _ ≤ ch.merit (ch.conn b) := hb.greatest b hmem i hi
      _ = ch'.merit (ch'.conn b) := (h.merit_kept hmem).symm

/-! ### Counting -/

theorem count_pos_iff {state : WriteState} :
    0 < ch.count state ↔ ∃ i ∈ ch.connections, (ch.conn i).writeState = state := by
  rw [count, List.countP_pos_iff]
  simp

theorem Best.writable_iff (hb : ch.Best) :
    (∃ i ∈ ch.connections, (ch.conn i).writeState = .writable) ↔
      ∃ b ∈ ch.bestConnection, (ch.conn b).writeState = .writable := by
  constructor
  · rintro ⟨i, hi, hw⟩
    rcases hbest : ch.bestConnection with _ | b
    · rw [hb.none_iff.1 hbest] at hi
      exact absurd hi List.not_mem_nil
    · have hle := hb.greatest b hbest i hi
      rw [merit, merit, Prod.Lex.toLex_le_toLex', hw] at hle
      have hrank : (ch.conn b).writeState.rank ≤ 0 := hle.1
      refine ⟨b, rfl, ?_⟩
      generalize (ch.conn b).writeState = w at hrank ⊢
      rcases w with _ | _ | _
      · rfl
      · exact absurd hrank (by decide)
      · exact absurd hrank (by decide)
  · rintro ⟨b, hb', hw⟩
    exact ⟨b, hb.listed b hb', hw⟩

/-- What the three Handle functions and `UpdateChannelState` leave alone. -/
structure SameConnections (ch ch' : Channel) : Prop where
  port : ch'.port = ch.port
  conn : ch'.conn = ch.conn
  connections : ch'.connections = ch.connections
  best : ch'.bestConnection = ch.bestConnection

theorem handle_spec (ch : Channel) :
    let handled := if 0 < ch.count .writable then ch.handleWritable
      else if 0 < ch.count .writeConnect then ch.handleNotWritable
      else ch.handleAllTimedOut
    ch.SameConnections handled.updateChannelState ∧
      (handled.updateChannelState.writable ↔ 0 < ch.count .writable) := by
  dsimp only
  split_ifs with h₁ h₂
  · exact ⟨⟨rfl, rfl, rfl, rfl⟩, iff_of_true rfl h₁⟩
  · rw [handleNotWritable]
    refine ⟨?_, iff_of_false Bool.false_ne_true h₁⟩
    split <;> exact ⟨rfl, rfl, rfl, rfl⟩
  · rw [handleAllTimedOut]
    refine ⟨?_, iff_of_false Bool.false_ne_true h₁⟩
    split <;> exact ⟨rfl, rfl, rfl, rfl⟩

/-! ### Sorting the connections -/

/-- What holds after `SortConnections`: the best connection is of greatest merit,
the loop over the networks has left it as `UpdateState` made it, and the channel is
writable if and only if some connection is, if and only if the best one is. -/
structure Sorted (now : Word) (ch ch' : Channel) : Prop where
  perm : ch'.connections.Perm ch.connections
  best : ch'.Best
  notPruned : ∀ b ∈ ch'.bestConnection, ch'.conn b = (ch.conn b).updateState now
  writable_iff : ch'.writable ↔ ∃ i ∈ ch'.connections, (ch'.conn i).writeState = .writable
  best_iff : ch'.writable ↔ ∃ b ∈ ch'.bestConnection, (ch'.conn b).writeState = .writable

theorem updateConnectionStates_fit (hg : ch.GenerationsFit) (now : Word) :
    (ch.updateConnectionStates now).GenerationsFit := by
  intro i hi
  have hconn : (ch.updateConnectionStates now).conn i = (ch.conn i).updateState now :=
    mapConnections_conn ch hi
  have h := hg i hi
  rw [generationSum] at h ⊢
  rw [hconn, ((ch.conn i).updateState_same now).1, ((ch.conn i).updateState_same now).2]
  exact h

theorem sortConnections_sorted (hl : ch.BestListed) (hg : ch.GenerationsFit) (now : Word) :
    Sorted now ch (ch.sortConnections now) := by
  have hchosen := @chooseBest_best (ch.updateConnectionStates now) hl
    (updateConnectionStates_fit hg now)
  have hperm := chooseBest_perm (ch.updateConnectionStates now)
  have hconn : ∀ i ∈ ch.connections,
      (ch.updateConnectionStates now).chooseBest.conn i = (ch.conn i).updateState now := by
    intro i hi
    rw [chooseBest_conn]
    exact mapConnections_conn ch hi
  rw [sortConnections]
  generalize ((ch.updateConnectionStates now).connections.map fun i =>
    ((ch.updateConnectionStates now).port ((ch.updateConnectionStates now).conn i).port).network
    ).dedup = networks
  have hpruned := pruned_pruneNetworks (ch.updateConnectionStates now).chooseBest networks
  generalize (ch.updateConnectionStates now).chooseBest = chosen at *
  generalize networks.foldl pruneNetwork chosen = ch₁ at *
  obtain ⟨hsame, hw⟩ := handle_spec ch₁
  generalize Channel.updateChannelState _ = ch' at hsame hw ⊢
  have hbest₁ := hchosen.pruned hpruned
  have hbest : ch'.Best := by
    refine ⟨fun b hb => ?_, ?_, fun b hb i hi => ?_⟩
    · rw [hsame.connections]
      exact hbest₁.listed b (hsame.best ▸ hb)
    · rw [hsame.best, hsame.connections]
      exact hbest₁.none_iff
    · have h := hbest₁.greatest b (hsame.best ▸ hb) i (hsame.connections ▸ hi)
      rw [merit, merit, preferenceOf, preferenceOf, generationSum, generationSum] at h ⊢
      rw [hsame.conn, hsame.port]
      exact h
  have hany : ch'.writable ↔ ∃ i ∈ ch'.connections, (ch'.conn i).writeState = .writable := by
    rw [hw, count_pos_iff, hsame.connections, hsame.conn]
  refine ⟨?_, hbest, fun b hb => ?_, hany, hany.trans hbest.writable_iff⟩
  · rw [hsame.connections, hpruned.connections]
    exact hperm
  · have hb' : b ∈ chosen.bestConnection := hpruned.best ▸ hsame.best ▸ hb
    rw [hsame.conn, hpruned.kept b hb']
    exact hconn b (hperm.subset (hchosen.listed b hb'))

/-! ### The best connection in a run -/

/-- The list has grown at most, and the best connection is the same. -/
structure Grown (ch ch' : Channel) : Prop where
  connections : ch.connections ⊆ ch'.connections
  best : ch'.bestConnection = ch.bestConnection

theorem Grown.refl (ch : Channel) : Grown ch ch := ⟨fun _ => id, rfl⟩

theorem Grown.trans (h : Grown ch ch') (h' : Grown ch' ch'') : Grown ch ch'' :=
  ⟨fun _ hi => h'.connections (h.connections hi), h'.best.trans h.best⟩

theorem BestListed.grown (hl : ch.BestListed) (h : Grown ch ch') : ch'.BestListed :=
  fun b hb => h.connections (hl b (h.best ▸ hb))

theorem BestListed.sort (hl : ch.BestListed) (now : Word) :
    (ch.sortConnections now).BestListed := by
  have hchosen : (ch.updateConnectionStates now).chooseBest.BestListed := chooseBest_listed hl
  rw [sortConnections]
  generalize ((ch.updateConnectionStates now).connections.map fun i =>
    ((ch.updateConnectionStates now).port ((ch.updateConnectionStates now).conn i).port).network
    ).dedup = networks
  have hpruned := pruned_pruneNetworks (ch.updateConnectionStates now).chooseBest networks
  generalize networks.foldl pruneNetwork _ = ch₁ at *
  obtain ⟨hsame, -⟩ := handle_spec ch₁
  generalize Channel.updateChannelState _ = ch' at hsame ⊢
  intro b hb
  rw [hsame.connections, hpruned.connections]
  exact hchosen b (hpruned.best ▸ hsame.best ▸ hb)

theorem grown_createConnection (ch : Channel) (dial : Dial) (now : Word) (p : ℕ)
    (remote : Candidate) (origin : Option ℕ) (readable : Bool) :
    Grown ch (ch.createConnection dial now p remote origin readable).2 := by
  rcases createConnection_cases ch dial now p remote origin readable with
    h | ⟨i, c, -, -, h, -⟩ | ⟨c, -, -, h, -⟩ <;> rw [h]
  · exact .refl ch
  · exact ⟨fun _ => id, rfl⟩
  · exact ⟨List.subset_append_left _ _, rfl⟩

theorem grown_createOn (dial : Dial) (now : Word) (remote : Candidate) (origin : Option ℕ)
    (readable : Bool) (ps : List ℕ) (acc : Bool × Channel) :
    Grown acc.2 (createOn dial now remote origin readable ps acc).2 := by
  induction ps generalizing acc with
  | nil => exact .refl _
  | cons p ps ih =>
    obtain ⟨created, ch⟩ := acc
    have h := grown_createConnection ch dial now p remote origin readable
    rw [createOn]
    generalize ch.createConnection dial now p remote origin readable = made at h ⊢
    obtain ⟨ok, ch'⟩ := made
    exact h.trans (ih (created || (ok && some p = origin), ch'))

theorem grown_createConnections (ch : Channel) (dial : Dial) (now : Word) (remote : Candidate)
    (origin : Option ℕ) (readable : Bool) :
    Grown ch (ch.createConnections dial now remote origin readable).2 := by
  have hremember : ∀ ch : Channel, Grown ch (ch.rememberRemoteCandidate remote origin) := by
    intro ch
    rw [rememberRemoteCandidate]
    split <;> exact ⟨fun _ => id, rfl⟩
  rw [createConnections]
  refine Grown.trans ?_ (hremember _)
  have hloop := grown_createOn dial now remote origin readable ch.ports.reverse (false, ch)
  rcases origin with _ | p
  · exact hloop
  · dsimp only
    split
    · exact hloop
    · exact hloop.trans (grown_createOn dial now remote (some p) readable [p] _)

theorem grown_createFrom (dial : Dial) (now : Word) (p : ℕ) (rcs : List RemoteCandidate) :
    Grown ch (createFrom dial now p rcs ch) := by
  induction rcs generalizing ch with
  | nil => exact .refl ch
  | cons rc rcs ih => exact (grown_createConnection _ dial now p _ _ _).trans ih

theorem BestListed.onUnknownAddress (hl : ch.BestListed) (dial : Dial) (now : Word) (p : ℕ)
    (addr : SocketAddress) (request : StunMessage) (remoteUsername : List Byte) :
    (ch.onUnknownAddress dial now p addr request remoteUsername).1.BestListed := by
  rw [Channel.onUnknownAddress]
  split
  · exact hl
  · next remote _ =>
    have hmade := hl.grown (grown_createConnections ch dial now remote (some p) true)
    dsimp only
    split
    · refine BestListed.sort (hmade.grown ?_) now
      rw [sendBindingResponse]
      split
      · exact .refl _
      · split <;> exact ⟨fun _ => id, rfl⟩
    · exact hmade

end Channel

namespace World

theorem bestListed_act {w : World} (hl : w.ch.BestListed) (e : Event) :
    (w.act e).ch.BestListed := by
  have onConnection : ∀ (i : ℕ) (f : Connection → Connection),
      (w.onConnection i f).ch.BestListed := by
    intro i f
    rw [World.onConnection]
    split <;> exact hl
  cases e with
  | portReady dial now p =>
    have hports : w.ch.Grown { w.ch with ports := w.ch.ports ++ [p] } := ⟨fun _ => id, rfl⟩
    exact (hl.grown (hports.trans (Channel.grown_createFrom dial now p _))).sort now
  | candidate dial now remote =>
    exact (hl.grown (Channel.grown_createConnections _ dial now remote none false)).sort now
  | connectionPacket now i data =>
    rw [act]
    split <;> exact hl
  | portPacket dial now p addr data =>
    show (w.ch.onPortPacket dial now p addr data).1.BestListed
    rw [Channel.onPortPacket]
    split
    · exact hl
    · exact hl
    · split
      · exact hl.onUnknownAddress dial now p addr _ _
      · exact hl
  | sort now => exact hl.sort now
  | ping id now =>
    show (w.ch.onPing id now).BestListed
    rw [Channel.onPing]
    split <;> exact hl
  | allocate => exact hl
  | requestMessage i id now => exact onConnection i _
  | connect i => exact onConnection i _
  | close i => exact onConnection i _
  | destroy i => exact onConnection i _
  | deleted i =>
    intro b hb
    have hb' : b ∈ (if w.ch.bestConnection = some i then none else w.ch.bestConnection) := hb
    split_ifs at hb' with heq
    · exact absurd hb' (Option.not_mem_none b)
    · refine (List.mem_erase_of_ne ?_).2 (hl b hb')
      rintro rfl
      exact heq hb'
  | portDestroyed p => exact hl
  | signalingReady =>
    show (w.ch.onSignalingReady).BestListed
    rw [Channel.onSignalingReady]
    split <;> exact hl
  | reset connectRequested => exact fun b hb => absurd hb (Option.not_mem_none b)

/-- **The channel is writable when its best connection is.**  In every run the
best connection is in the list; and from every channel where it is, with any
connections on any networks, `SortConnections` gives the best connection and the
writability that belong together. -/
theorem best_after_sort :
    (∀ w, Reach Start (fun w w' => ∃ e, w' = w.act e) w → w.ch.BestListed) ∧
      ∀ (ch : Channel) (now : Word), ch.BestListed → ch.GenerationsFit →
        ch.Sorted now (ch.sortConnections now) := by
  constructor
  · refine Reach.invariant ?_ ?_
    · rintro w ⟨⟨port, conn, incomingOnly, hch⟩, -⟩ b hb
      rw [hch] at hb
      exact absurd hb (Option.not_mem_none b)
    · rintro w _ - hl ⟨e, rfl⟩
      exact bestListed_act hl e
  · intro ch now hl hg
    exact Channel.sortConnections_sorted hl hg now

/-- Both ports have a connection to the candidate. -/
def called : World :=
  ((beforePorts.act (.portReady silent 0 0)).act (.portReady silent 0 1)).act
    (.candidate (fun _ _ => some true) 0 offered)

/-- Two connections on two networks. -/
theorem best_after_sort_two :
    called.ch.connections.length = 2 ∧ called.ch.Sorted 7 (called.ch.sortConnections 7) := by
  have hl : called.ch.BestListed := best_after_sort.1 _
    (.step (.step (.step (.init ⟨⟨_, _, _, rfl⟩, rfl⟩) ⟨.portReady silent 0 0, rfl⟩)
      ⟨.portReady silent 0 1, rfl⟩) ⟨.candidate (fun _ _ => some true) 0 offered, rfl⟩)
  have hg : ∀ i ∈ called.ch.connections, called.ch.generationSum (called.ch.conn i) < 2 ^ 31 := by
    decide +kernel
  exact ⟨by decide +kernel, best_after_sort.2 _ 7 hl hg⟩

end World

end Jingle.P2p
