/-
Liveness decisions when the clock wraps.

The decisions of `UpdateState` and `FindNextPingableConnection` compare times as
unsigned numbers.  `Connection.shift` and `Channel.shift` move all recorded times
by `d`; the decisions at the time `now + d` are the same if and only if no
comparison that matters straddles the end of the clock.

`updateShifts_iff` says for which connections, times and shifts `UpdateState`
computes the same states, `choiceShifts_iff` for which channels the same
connection is pinged next.
-/
import Jingle.P2p.Channel
import Jingle.Lib.Clock

namespace Jingle.P2p

open Clock

/-! ### The states that UpdateState computes -/

namespace Connection

variable (c : Connection)

/-- The connection with all its times moved by `d`. -/
def shift (d : Word) : Connection :=
  { c with
    lastPingSent := c.lastPingSent + d
    lastPingReceived := c.lastPingReceived + d
    pingsSinceLastResponse := c.pingsSinceLastResponse.map (· + d) }

@[simp] theorem shift_readState (d : Word) : (c.shift d).readState = c.readState := rfl

@[simp] theorem shift_writeState (d : Word) : (c.shift d).writeState = c.writeState := rfl

@[simp] theorem shift_rtt (d : Word) : (c.shift d).rtt = c.rtt := rfl

@[simp] theorem shift_lastPingReceived (d : Word) :
    (c.shift d).lastPingReceived = c.lastPingReceived + d := rfl

@[simp] theorem shift_lastPingSent (d : Word) :
    (c.shift d).lastPingSent = c.lastPingSent + d := rfl

/-- `UpdateState` computes the same states after the shift. -/
def UpdateShifts (now d : Word) : Prop :=
  ((c.shift d).updateState (now + d)).readState = (c.updateState now).readState ∧
    ((c.shift d).updateState (now + d)).writeState = (c.updateState now).writeState

/-- The test that makes a writable connection connect again. -/
def failing (now : Word) : Bool :=
  tooManyFailures c.pingsSinceLastResponse connectionWriteConnectFailures
      (conservativeRTTEstimate c.rtt) now &&
    tooLongWithoutResponse c.pingsSinceLastResponse connectionWriteConnectTimeout now

/-- The write state after `UpdateState`. -/
def nextWriteState (now : Word) : WriteState :=
  let lost := tooLongWithoutResponse c.pingsSinceLastResponse connectionWriteTimeout now
  match c.writeState with
  | .writable =>
    if c.failing now then (if lost then .writeTimeout else .writeConnect) else .writable
  | .writeConnect => if lost then .writeTimeout else .writeConnect
  | .writeTimeout => .writeTimeout

/-- The shift straddles the end of the time in which the last of the first
pings should have been answered. -/
def FailuresStraddle (now d : Word) : Prop :=
  connectionWriteConnectFailures ≤ c.pingsSinceLastResponse.length ∧
    Straddles d (c.pingsSinceLastResponse.getD (connectionWriteConnectFailures - 1) 0 +
      conservativeRTTEstimate c.rtt) now

/-- The shift straddles the given time after the first unanswered ping. -/
def ResponseStraddles (maximumTime now d : Word) : Prop :=
  ∃ ping ∈ c.pingsSinceLastResponse.head?, Straddles d (ping + maximumTime) now

/-- The end of readability is not straddled, if it matters. -/
def ReadKept (now d : Word) : Prop :=
  c.readState = .readable → ¬Straddles d (c.lastPingReceived + connectionReadTimeout) now

/-- The straddled tests leave the write state as it is without the shift. -/
def WriteKept (now d : Word) : Prop :=
  match c.writeState with
  | .writable =>
    if c.failing now then
      ¬c.FailuresStraddle now d ∧ ¬c.ResponseStraddles connectionWriteConnectTimeout now d ∧
        ¬c.ResponseStraddles connectionWriteTimeout now d
    else
      -- a test that fails may pass after the shift, but not both of them
      ¬(¬(tooManyFailures c.pingsSinceLastResponse connectionWriteConnectFailures
            (conservativeRTTEstimate c.rtt) now ↔ c.FailuresStraddle now d) ∧
        ¬(tooLongWithoutResponse c.pingsSinceLastResponse connectionWriteConnectTimeout now ↔
            c.ResponseStraddles connectionWriteConnectTimeout now d))
  | .writeConnect => ¬c.ResponseStraddles connectionWriteTimeout now d
  | .writeTimeout => True

theorem tooManyFailures_shift (now d : Word) :
    tooManyFailures (c.shift d).pingsSinceLastResponse connectionWriteConnectFailures
        (conservativeRTTEstimate c.rtt) (now + d) ↔
      ¬(tooManyFailures c.pingsSinceLastResponse connectionWriteConnectFailures
          (conservativeRTTEstimate c.rtt) now ↔ c.FailuresStraddle now d) := by
  have hlen : (c.shift d).pingsSinceLastResponse.length = c.pingsSinceLastResponse.length :=
    List.length_map _
  rw [tooManyFailures, tooManyFailures, FailuresStraddle, hlen]
  rcases lt_or_ge c.pingsSinceLastResponse.length connectionWriteConnectFailures with h | h
  · simp [h]
  · have hlt : connectionWriteConnectFailures - 1 < c.pingsSinceLastResponse.length := by
      rw [connectionWriteConnectFailures] at *
      omega
    have hping : (c.shift d).pingsSinceLastResponse.getD (connectionWriteConnectFailures - 1) 0 =
        c.pingsSinceLastResponse.getD (connectionWriteConnectFailures - 1) 0 + d := by
      simp [shift, List.getD_eq_getElem?_getD, List.getElem?_eq_getElem hlt]
    rw [if_neg (by omega), if_neg (by omega), hping, decide_eq_true_eq, decide_eq_true_eq,
      shift_add, add_lt_add_iff]
    simp [h]

theorem tooLongWithoutResponse_shift (maximumTime now d : Word) :
    tooLongWithoutResponse (c.shift d).pingsSinceLastResponse maximumTime (now + d) ↔
      ¬(tooLongWithoutResponse c.pingsSinceLastResponse maximumTime now ↔
        c.ResponseStraddles maximumTime now d) := by
  rw [ResponseStraddles, shift]
  rcases c.pingsSinceLastResponse with _ | ⟨ping, pings⟩
  · simp [tooLongWithoutResponse]
  · simp only [List.map_cons, tooLongWithoutResponse, decide_eq_true_eq, List.head?_cons,
      Option.mem_def, Option.some.injEq, exists_eq_left']
    rw [shift_add, add_lt_add_iff]

theorem updateState_readState (now : Word) :
    (c.updateState now).readState =
      if c.readState = .readable ∧ c.lastPingReceived + connectionReadTimeout ≤ now then
        .readTimeout
      else c.readState := by
  have h₂ : ∀ c : Connection, (c.updateWritable now).readState = c.readState := by
    intro c
    rw [updateWritable]
    split <;> simp
  have h₃ : ∀ c : Connection, (c.updateConnect now).readState = c.readState := by
    intro c
    rw [updateConnect]
    split <;> simp
  rw [updateState, h₃, h₂, updateReadState]
  split <;> simp

theorem updateReadState_frame (now : Word) :
    (c.updateReadState now).writeState = c.writeState ∧
      (c.updateReadState now).pingsSinceLastResponse = c.pingsSinceLastResponse ∧
      (c.updateReadState now).rtt = c.rtt := by
  rw [updateReadState]
  split
  · obtain ⟨n, h⟩ := setReadState_eq (c := c) (r := .readTimeout)
    rw [h]
    exact ⟨rfl, rfl, rfl⟩
  · exact ⟨rfl, rfl, rfl⟩

theorem updateWritable_writeState (now : Word) :
    (c.updateWritable now).writeState =
      if c.writeState = .writable ∧ c.failing now then .writeConnect else c.writeState := by
  simp only [updateWritable, failing, Bool.and_eq_true]
  split <;> simp

theorem updateWritable_pings (now : Word) :
    (c.updateWritable now).pingsSinceLastResponse = c.pingsSinceLastResponse := by
  rw [updateWritable]
  split
  · obtain ⟨n, h⟩ := setWriteState_eq (c := c) (w := .writeConnect)
    rw [h]
  · rfl

theorem updateConnect_writeState (now : Word) :
    (c.updateConnect now).writeState =
      if c.writeState = .writeConnect ∧
          tooLongWithoutResponse c.pingsSinceLastResponse connectionWriteTimeout now then
        .writeTimeout
      else c.writeState := by
  rw [updateConnect]
  split <;> simp

theorem updateState_writeState (now : Word) :
    (c.updateState now).writeState = c.nextWriteState now := by
  obtain ⟨hw, hp, hr⟩ := c.updateReadState_frame now
  have hf : (c.updateReadState now).failing now = c.failing now := by rw [failing, hp, hr, failing]
  rw [updateState, updateConnect_writeState, updateWritable_writeState, updateWritable_pings, hp,
    hw, hf, nextWriteState]
  rcases c.writeState with _ | _ | _
  · by_cases h : c.failing now <;> simp [h]
  · simp
  · simp

theorem writable_kept {A B C A' B' C' F R L : Prop} [Decidable (A ∧ B)] [Decidable C]
    [Decidable (A' ∧ B')] [Decidable C'] (hA : A' ↔ ¬(A ↔ F)) (hB : B' ↔ ¬(B ↔ R))
    (hC : C' ↔ ¬(C ↔ L)) :
    ((if A' ∧ B' then (if C' then WriteState.writeTimeout else .writeConnect) else .writable) =
      if A ∧ B then (if C then WriteState.writeTimeout else .writeConnect) else .writable) ↔
      if A ∧ B then ¬F ∧ ¬R ∧ ¬L else ¬(¬(A ↔ F) ∧ ¬(B ↔ R)) := by
  by_cases hAB : A ∧ B
  · by_cases hC₀ : C <;> by_cases hF : F <;> by_cases hR : R <;> by_cases hL : L <;>
      simp [hA, hB, hC, hAB, hC₀, hF, hR, hL]
  · rw [if_neg hAB, if_neg hAB, ← hA, ← hB]
    split_ifs <;> simp_all

theorem connect_kept {C C' L : Prop} [Decidable C] [Decidable C'] (hC : C' ↔ ¬(C ↔ L)) :
    ((if C' then WriteState.writeTimeout else .writeConnect) =
      if C then WriteState.writeTimeout else .writeConnect) ↔ ¬L := by
  by_cases hC₀ : C <;> by_cases hL : L <;> simp [hC, hC₀, hL]

/-- **`UpdateState` and the clock**: the same states are computed after a shift
if and only if the deadlines that matter are not straddled. -/
theorem updateShifts_iff (now d : Word) :
    c.UpdateShifts now d ↔ c.ReadKept now d ∧ c.WriteKept now d := by
  rw [UpdateShifts]
  refine and_congr ?_ ?_
  · rw [updateState_readState, updateState_readState, ReadKept]
    have hle := add_le_add_iff d (c.lastPingReceived + connectionReadTimeout) now
    rw [← shift_add] at hle
    simp only [shift_readState, shift_lastPingReceived, hle]
    by_cases hr : c.readState = .readable <;>
      by_cases hs : Straddles d (c.lastPingReceived + connectionReadTimeout) now <;>
      by_cases hn : c.lastPingReceived + connectionReadTimeout ≤ now <;>
      simp [hr, hs, hn]
  · have hf := c.tooManyFailures_shift now d
    have hr := c.tooLongWithoutResponse_shift connectionWriteConnectTimeout now d
    have hl := c.tooLongWithoutResponse_shift connectionWriteTimeout now d
    rw [updateState_writeState, updateState_writeState, WriteKept, nextWriteState, nextWriteState]
    rcases hw : c.writeState with _ | _ | _ <;>
      simp only [failing, shift_writeState, shift_rtt, hw, Bool.and_eq_true]
    · exact writable_kept hf hr hl
    · exact connect_kept hl

end Connection

/-! ### The connection that is pinged next -/

namespace Channel

variable (ch : Channel)

/-- The channel with the times of all connections moved by `d`. -/
def shift (d : Word) : Channel := { ch with conn := fun i => (ch.conn i).shift d }

/-- The same connection is chosen after the shift. -/
def ChoiceShifts (now d : Word) : Prop :=
  (ch.shift d).findNextPingableConnection (now + d) = ch.findNextPingableConnection now

/-- The connections that are considered: in the list and pingable. -/
def Pingable (i : ℕ) : Prop := ch.isPingable (ch.conn i)

/-- `i` was pinged before all other connections of the list `is`, and before `time`. -/
def OldestIn (is : List ℕ) (time : Word) (i : ℕ) : Prop :=
  ∃ l r, is = l ++ i :: r ∧ ch.Pingable i ∧ (ch.conn i).lastPingSent < time ∧
    (∀ j ∈ l, ch.Pingable j → (ch.conn i).lastPingSent < (ch.conn j).lastPingSent) ∧
    ∀ j ∈ r, ch.Pingable j → (ch.conn i).lastPingSent ≤ (ch.conn j).lastPingSent

/-- `i` is the connection that was pinged longest ago, the first one of several. -/
def Oldest (i : ℕ) : Prop := ch.OldestIn ch.connections 0xFFFFFFFF i

/-- Every pingable connection has the time with which the search starts. -/
def AllLast : Prop :=
  ∀ i ∈ ch.connections, ch.Pingable i → (ch.conn i).lastPingSent = 0xFFFFFFFF

/-- The shift wraps the times of all pingable connections or of none, and does
not move them onto or away from the time with which the search starts. -/
def OrderKept (d : Word) : Prop :=
  (∀ i ∈ ch.connections, ch.Pingable i → ∀ j ∈ ch.connections, ch.Pingable j →
    ¬Straddles d (ch.conn i).lastPingSent (ch.conn j).lastPingSent) ∧
  (ch.AllLast ↔ (ch.shift d).AllLast)

/-- The choice does not depend on a straddled comparison: the best connection is
due or not as without the shift, or the search finds it anyway. -/
def ChoiceKept (now d : Word) : Prop :=
  match ch.bestConnection with
  | some b =>
    if (ch.conn b).writeState = .writable then
      let due := (ch.conn b).lastPingSent + maxCurrentWritableDelay
      if Straddles d due now then (if due ≤ now then (ch.shift d).Oldest b else ch.Oldest b)
      else due ≤ now ∨ ch.OrderKept d
    else ch.OrderKept d
  | none => ch.OrderKept d

@[simp] theorem shift_conn (d : Word) (i : ℕ) : (ch.shift d).conn i = (ch.conn i).shift d := rfl

@[simp] theorem shift_connections (d : Word) : (ch.shift d).connections = ch.connections := rfl

@[simp] theorem shift_pingable (d : Word) (i : ℕ) : (ch.shift d).Pingable i ↔ ch.Pingable i :=
  Iff.rfl

theorem findOldest_cases (is : List ℕ) (o : Option ℕ) (time : Word) :
    ((ch.findOldest is (o, time)).1 = o ∧
        ∀ j ∈ is, ch.Pingable j → time ≤ (ch.conn j).lastPingSent) ∨
      ∃ i, (ch.findOldest is (o, time)).1 = some i ∧ ch.OldestIn is time i := by
  induction is generalizing o time with
  | nil => exact .inl ⟨rfl, by simp⟩
  | cons a is ih =>
    rw [findOldest]
    split
    · next h =>
      obtain ⟨hping, hlt⟩ := h
      rcases ih (some a) (ch.conn a).lastPingSent with
        ⟨heq, hall⟩ | ⟨i, heq, l, r, rfl, hi, hti, hl, hr⟩
      · exact .inr ⟨a, heq, [], is, rfl, hping, hlt, by simp, hall⟩
      · refine .inr ⟨i, heq, a :: l, r, rfl, hi, Std.lt_trans hti hlt, ?_, hr⟩
        rintro j (_ | ⟨_, hj⟩) hpj
        · exact hti
        · exact hl j hj hpj
    · next h =>
      have hle : ch.Pingable a → time ≤ (ch.conn a).lastPingSent := fun hp =>
        BitVec.not_lt.1 fun hlt => h ⟨hp, hlt⟩
      rcases ih o time with ⟨heq, hall⟩ | ⟨i, heq, l, r, rfl, hi, hti, hl, hr⟩
      · refine .inl ⟨heq, ?_⟩
        rintro j (_ | ⟨_, hj⟩) hpj
        · exact hle hpj
        · exact hall j hj hpj
      · refine .inr ⟨i, heq, a :: l, r, rfl, hi, hti, ?_, hr⟩
        rintro j (_ | ⟨_, hj⟩) hpj
        · exact Std.lt_of_lt_of_le hti (hle hpj)
        · exact hl j hj hpj

/-- The search of `FindNextPingableConnection`. -/
def search : Option ℕ := (ch.findOldest ch.connections (none, 0xFFFFFFFF)).1

theorem Oldest.le {i : ℕ} (h : ch.Oldest i) {j : ℕ} (hj : j ∈ ch.connections)
    (hp : ch.Pingable j) : (ch.conn i).lastPingSent ≤ (ch.conn j).lastPingSent := by
  obtain ⟨l, r, heq, -, -, hl, hr⟩ := h
  rw [heq] at hj
  rcases List.mem_append.1 hj with hj | hj
  · exact Std.le_of_lt (hl j hj hp)
  · rcases List.mem_cons.1 hj with rfl | hj
    · exact Std.le_refl _
    · exact hr j hj hp

theorem Oldest.mem {i : ℕ} (h : ch.Oldest i) : i ∈ ch.connections := by
  obtain ⟨l, r, heq, -⟩ := h
  rw [heq]
  simp

theorem Oldest.not_allLast {i : ℕ} (h : ch.Oldest i) : ¬ch.AllLast := by
  intro hall
  have hi := h.mem
  obtain ⟨l, r, -, hp, hlt, -⟩ := h
  rw [hall i hi hp] at hlt
  exact absurd hlt (by decide)

theorem last_of_le {t : Word} (h : (0xFFFFFFFF : Word) ≤ t) : t = 0xFFFFFFFF := by
  have ht := t.isLt
  have hle : 4294967295 ≤ t.toNat := h
  exact BitVec.eq_of_toNat_eq (show t.toNat = 4294967295 by omega)

theorem Oldest.unique {i j : ℕ} (hi : ch.Oldest i) (hj : ch.Oldest j) : i = j := by
  have hij := hi.le ch hj.mem (by obtain ⟨-, -, -, hp, -⟩ := hj; exact hp)
  have hji := hj.le ch hi.mem (by obtain ⟨-, -, -, hp, -⟩ := hi; exact hp)
  obtain ⟨l, r, heq, hpi, -, hl, -⟩ := hi
  obtain ⟨l', r', heq', hpj, -, hl', -⟩ := hj
  -- the earlier of the two in the list would be strictly older
  rcases List.append_eq_append_iff.1 (heq.symm.trans heq') with ⟨m, hm, hr⟩ | ⟨m, hm, hr⟩
  · rcases m with _ | ⟨k, m⟩
    · simpa using (List.cons.inj hr).1
    · obtain ⟨rfl, -⟩ := List.cons.inj hr
      have hlt := hl' i (by rw [hm]; simp) hpi
      exact absurd hlt (BitVec.not_lt.2 hij)
  · rcases m with _ | ⟨k, m⟩
    · simpa using (List.cons.inj hr).1.symm
    · obtain ⟨rfl, -⟩ := List.cons.inj hr
      have hlt := hl j (by rw [hm]; simp) hpj
      exact absurd hlt (BitVec.not_lt.2 hji)

theorem search_eq_some {i : ℕ} : ch.search = some i ↔ ch.Oldest i := by
  rcases ch.findOldest_cases ch.connections none 0xFFFFFFFF with ⟨heq, hall⟩ | ⟨j, heq, hj⟩
  · rw [search, heq]
    refine iff_of_false (by simp) fun h => h.not_allLast ch fun k hk hp => last_of_le (hall k hk hp)
  · rw [search, heq, Option.some.injEq]
    exact ⟨fun h => h ▸ hj, fun h => Oldest.unique ch hj h⟩

theorem search_eq_none : ch.search = none ↔ ch.AllLast := by
  rcases ch.findOldest_cases ch.connections none 0xFFFFFFFF with ⟨heq, hall⟩ | ⟨j, heq, hj⟩
  · rw [search, heq]
    exact iff_of_true rfl fun k hk hp => last_of_le (hall k hk hp)
  · rw [search, heq]
    exact iff_of_false (by simp) (Oldest.not_allLast ch hj)

theorem Oldest.shift {d : Word} {i : ℕ} (h : ch.Oldest i) (hk : ch.OrderKept d) :
    (ch.shift d).Oldest i := by
  have hmem := h.mem
  have hnot := h.not_allLast
  obtain ⟨hs, hlast⟩ := hk
  have hle : ∀ j ∈ ch.connections, ch.Pingable j →
      (ch.conn i).lastPingSent ≤ (ch.conn j).lastPingSent := fun j => h.le ch
  obtain ⟨l, r, heq, hp, hlt, hl, hr⟩ := h
  have hsub : ∀ j, j ∈ l ∨ j ∈ r → j ∈ ch.connections := by
    rintro j (hj | hj) <;> rw [heq] <;> simp [hj]
  refine ⟨l, r, heq, hp, ?_, ?_, ?_⟩
  · -- else all times would be moved onto the start of the search
    refine BitVec.not_le.1 fun hmax => hnot (hlast.2 fun j hj hpj => last_of_le ?_)
    exact Std.le_trans hmax ((le_iff_of_not_straddles (hs i hmem hp j hj hpj)).2 (hle j hj hpj))
  · intro j hj hpj
    exact (lt_iff_of_not_straddles (hs i hmem hp j (hsub j (.inl hj)) hpj)).2 (hl j hj hpj)
  · intro j hj hpj
    exact (le_iff_of_not_straddles (hs i hmem hp j (hsub j (.inr hj)) hpj)).2 (hr j hj hpj)

/-- **The search and the clock**: it finds the same connection after a shift if
and only if the order of the times is kept. -/
theorem search_shift_iff (d : Word) : (ch.shift d).search = ch.search ↔ ch.OrderKept d := by
  constructor
  · intro heq
    rcases hsearch : ch.search with _ | i
    · rw [hsearch] at heq
      have hall := ch.search_eq_none.1 hsearch
      refine ⟨fun i hi hpi j hj hpj => ?_, iff_of_true hall ((ch.shift d).search_eq_none.1 heq)⟩
      rw [hall i hi hpi, hall j hj hpj]
      exact fun h => h Iff.rfl
    · rw [hsearch] at heq
      have hold := ch.search_eq_some.1 hsearch
      have hold' := (ch.shift d).search_eq_some.1 heq
      have hnot : ∀ j ∈ ch.connections, ch.Pingable j →
          (Wraps d (ch.conn i).lastPingSent ↔ Wraps d (ch.conn j).lastPingSent) := by
        intro j hj hpj
        by_contra hstr
        have hle' := hold'.le (ch.shift d) (j := j) hj hpj
        exact ((add_le_add_iff d _ _).1 hle') (iff_of_true (hold.le ch hj hpj) hstr)
      refine ⟨fun j hj hpj k hk hpk hstr => hstr ?_, iff_of_false ?_ ?_⟩
      · exact (hnot j hj hpj).symm.trans (hnot k hk hpk)
      · exact hold.not_allLast
      · exact hold'.not_allLast
  · intro hk
    rcases hsearch : ch.search with _ | i
    · exact (ch.shift d).search_eq_none.2 (hk.2.1 (ch.search_eq_none.1 hsearch))
    · exact (ch.shift d).search_eq_some.2 (Oldest.shift ch (ch.search_eq_some.1 hsearch) hk)

theorem choiceShifts_iff (now d : Word) : ch.ChoiceShifts now d ↔ ch.ChoiceKept now d := by
  rw [ChoiceShifts, ChoiceKept, findNextPingableConnection, findNextPingableConnection]
  show (match ch.bestConnection with
    | some b =>
      if (ch.conn b).writeState = WriteState.writable ∧
          (ch.conn b).lastPingSent + d + maxCurrentWritableDelay ≤ now + d then some b
      else (ch.shift d).search
    | none => (ch.shift d).search) =
      (match ch.bestConnection with
      | some b =>
        if (ch.conn b).writeState = WriteState.writable ∧
            (ch.conn b).lastPingSent + maxCurrentWritableDelay ≤ now then some b
        else ch.search
      | none => ch.search) ↔ _
  rcases ch.bestConnection with _ | b
  · exact ch.search_shift_iff d
  · dsimp only
    by_cases hw : (ch.conn b).writeState = .writable
    · have hle := add_le_add_iff d ((ch.conn b).lastPingSent + maxCurrentWritableDelay) now
      rw [← shift_add] at hle
      simp only [hw, true_and, hle, if_true]
      by_cases hs : Straddles d ((ch.conn b).lastPingSent + maxCurrentWritableDelay) now <;>
        by_cases hn : (ch.conn b).lastPingSent + maxCurrentWritableDelay ≤ now <;>
        simp only [hs, hn, iff_self, iff_true, iff_false, not_true_eq_false, not_false_eq_true,
          if_true, if_false, true_or, false_or]
      · exact (ch.shift d).search_eq_some
      · exact eq_comm.trans ch.search_eq_some
      · exact ch.search_shift_iff d
    · simp only [hw, false_and, if_false]
      exact ch.search_shift_iff d

/-- **Liveness decisions and the clock.**  Shifting the clock leaves the states
that `UpdateState` computes and the connection that is pinged next as they are if
and only if no comparison that matters straddles the end of the clock. -/
theorem liveness_shift (c : Connection) (ch : Channel) (now d : Word) :
    (c.UpdateShifts now d ↔ c.ReadKept now d ∧ c.WriteKept now d) ∧
      (ch.ChoiceShifts now d ↔ ch.ChoiceKept now d) :=
  ⟨c.updateShifts_iff now d, ch.choiceShifts_iff now d⟩

/-- A connection that was pinged in the last millisecond of the clock. -/
def pingedAtWrap : Connection :=
  (Connection.new 0
    { name := [], protocol := [], address := { hostname := [], ip := 1, port := 1 }
      preference := 1, username := [], password := [], type := [], networkName := []
      generation := 0 } true).receivedPing 0xFFFFFFFF

/-- **A connection times out at the wrap**: in the very millisecond of its ping,
while a millisecond later on the clock it would not. -/
theorem times_out_at_wrap :
    (pingedAtWrap.updateState 0xFFFFFFFF).readState = .readTimeout ∧
      ¬((∀ (c : Connection) (now d : Word), c.UpdateShifts now d) ∧
        ∀ (ch : Channel) (now d : Word), ch.ChoiceShifts now d) := by
  refine ⟨by decide, fun h => ?_⟩
  exact absurd (h.1 pingedAtWrap 0xFFFFFFFF 1).1 (by decide)

end Channel

end Jingle.P2p
