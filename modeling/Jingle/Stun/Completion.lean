/-
Each STUN request is completed at most once.

What concerns one request is its `View`: the object, whether the manager still
holds it, how many timer messages of it are queued, and its history.  A call of the
manager changes the view of a request by `View.removed`, applied some number of
times, or not at all.  So a run keeps every view `Settled`: it
is `Live`, held with one timer message and a history of sends only, or `Over`,
with no timer message and a history that a callback or a removal has closed.

* **`completion`** — at most one callback, no more sends than the class allows,
  nothing after the end, and `requests_` holds the live requests;
* **`legacy_response_missed`** — an id of 16 bytes is never found in the bytes of
  a packet, where only 12 bytes are looked at.
-/
import Jingle.Stun.Consistency
import Jingle.Stun.Request

namespace Jingle.Stun

/-- The number of times a request of this class may be sent. -/
def RequestClass.maxSends : RequestClass → ℕ
  | .stunRequest => MAX_SENDS
  | .allocateRequest => 5
  | .connectionRequest => 1

namespace StunRequest

variable (r : StunRequest)

/-- The number of sends so far. -/
def sends : ℕ :=
  match r.cls with
  | .connectionRequest => if r.timeout then 1 else 0
  | _ => r.count

/-- The timeout flag is set by the last send that is allowed. -/
structure Paced : Prop where
  le : r.sends ≤ r.cls.maxSends
  timeout : r.timeout = true ↔ r.sends = r.cls.maxSends

theorem new_paced (cls : RequestClass) (id : List Byte) (type : BitVec 16) :
    (StunRequest.new cls id type).Paced ∧ (StunRequest.new cls id type).sends = 0 := by
  refine ⟨⟨?_, ?_⟩, ?_⟩ <;> cases cls <;>
    simp [new, sends, RequestClass.maxSends, MAX_SENDS]

@[simp] theorem getNextDelay_id : r.getNextDelay.2.id = r.id := by
  unfold getNextDelay countSend
  split <;> rfl

theorem Paced.next {r : StunRequest} (h : r.Paced) (ht : r.timeout = false) :
    r.getNextDelay.2.Paced ∧ r.getNextDelay.2.sends = r.sends + 1 := by
  have hlt : r.sends < r.cls.maxSends := by
    refine lt_of_le_of_ne h.le fun e => ?_
    rw [h.timeout.mpr e] at ht
    cases ht
  obtain ⟨cls, id, type, count, timeout⟩ := r
  simp only at ht
  subst ht
  cases cls with
  | stunRequest =>
    simp only [sends, RequestClass.maxSends] at hlt
    refine ⟨⟨?_, ?_⟩, ?_⟩ <;>
      simp only [getNextDelay, countSend, sends, RequestClass.maxSends, Bool.false_or,
        decide_eq_true_eq]
    omega
  | allocateRequest =>
    simp only [sends, RequestClass.maxSends] at hlt
    refine ⟨⟨?_, ?_⟩, ?_⟩ <;>
      simp only [getNextDelay, countSend, sends, RequestClass.maxSends, Bool.false_or,
        decide_eq_true_eq]
    omega
  | connectionRequest =>
    refine ⟨⟨?_, ?_⟩, ?_⟩ <;> simp [getNextDelay, sends, RequestClass.maxSends]

end StunRequest

/-- A mark that is left by a callback. -/
def Mark.isCallback : Mark → Bool
  | .response | .errorResponse | .timedOut => true
  | .sent | .removed => false

/-- The history of a request that is no longer live: the sends, what closed it, and
calls of `Remove` that found nothing. -/
def Closed (cls : RequestClass) (marks : List Mark) : Prop :=
  ∃ k e r, k ≤ cls.maxSends ∧ e ≠ Mark.sent ∧
    marks = List.replicate k .sent ++ e :: List.replicate r .removed

/-- What concerns one request. -/
structure View where
  request : StunRequest
  held : Bool
  timers : ℕ
  marks : List Mark

namespace View

variable (v : View)

/-- The view of a request that was just handed over. -/
def fresh (cls : RequestClass) (id : List Byte) (type : BitVec 16) : View :=
  { request := .new cls id type, held := true, timers := 1, marks := [] }

/-- What `Remove` does. -/
def removed : View :=
  { v with
    held := false
    timers := if v.held then 0 else v.timers
    marks := v.marks ++ [.removed] }

/-- A request that waits for its next timer message or for a response. -/
structure Live : Prop where
  held : v.held = true
  timers : v.timers = 1
  paced : v.request.Paced
  marks : v.marks = List.replicate v.request.sends .sent

/-- A request that has been completed or removed. -/
structure Over : Prop where
  held : v.held = false
  timers : v.timers = 0
  closed : Closed v.request.cls v.marks

/-- A request between two events. -/
def Settled : Prop := v.Live ∨ v.Over

/-- A request whose history is closed, while its callback may still be running. -/
def Ending : Prop := Closed v.request.cls v.marks

variable {v}

theorem fresh_settled (cls : RequestClass) (id : List Byte) (type : BitVec 16) :
    (fresh cls id type).Settled := by
  obtain ⟨hp, hs⟩ := StunRequest.new_paced cls id type
  refine .inl ⟨rfl, rfl, hp, ?_⟩
  show [] = List.replicate (StunRequest.new cls id type).sends Mark.sent
  rw [hs]
  rfl

theorem Ending.removed (h : v.Ending) : v.removed.Ending := by
  obtain ⟨k, e, r, hk, he, hm⟩ := h
  refine ⟨k, e, r + 1, hk, he, ?_⟩
  show v.marks ++ [.removed] = _
  rw [hm, List.replicate_succ', List.append_assoc, List.cons_append]

theorem Live.closed (h : v.Live) {e : Mark} (he : e ≠ .sent) :
    Closed v.request.cls (v.marks ++ [e]) :=
  ⟨v.request.sends, e, 0, h.paced.le, he, by rw [h.marks]; rfl⟩

theorem Settled.removed (h : v.Settled) : v.removed.Settled := by
  rcases h with h | h
  · refine .inr ⟨rfl, ?_, h.closed (by simp)⟩
    show (if v.held then 0 else v.timers) = 0
    rw [h.held, if_pos rfl]
  · refine .inr ⟨rfl, ?_, Ending.removed h.closed⟩
    show (if v.held then 0 else v.timers) = 0
    rw [h.held, if_neg (by simp)]
    exact h.timers

theorem iterate_removed {P : View → Prop} (hP : ∀ v, P v → P v.removed) (n : ℕ) (h : P v) :
    P (View.removed^[n] v) := by
  induction n with
  | zero => exact h
  | succ n ih =>
    rw [Function.iterate_succ_apply']
    exact hP _ ih

end View

namespace StunRequestManager

variable (m : StunRequestManager)

/-- The history of a request. -/
def marks (i : ℕ) : List Mark := (m.log.filter fun l => l.1 = i).map Prod.snd

/-- What concerns the request `j`. -/
def view (j : ℕ) : View :=
  { request := m.request j
    held := decide (((m.request j).id, j) ∈ m.requests)
    timers := (m.timers.map Prod.fst).count j
    marks := m.marks j }

/-- The map holds requests under their ids, and no two requests share one. -/
structure Keyed : Prop where
  distinct : ∀ i j, i < m.next → j < m.next → (m.request i).id = (m.request j).id → i = j
  length : ∀ i < m.next, (m.request i).id.length = kStunTransactionIdLength
  entry : ∀ e ∈ m.requests, e.2 < m.next ∧ (m.request e.2).id = e.1
  unused : ∀ j, m.next ≤ j → (m.view j).timers = 0 ∧ m.marks j = []

variable {m}

theorem Keyed.find_iff (h : m.Keyed) (id : List Byte) (i : ℕ) :
    m.find id = some i ↔ (id, i) ∈ m.requests := by
  constructor
  · intro hf
    obtain ⟨l₁, l₂, hl, -⟩ := List.lookup_eq_some_iff.mp hf
    rw [hl]
    simp
  · intro hmem
    have hsome : (m.requests.lookup id).isSome := by
      rw [List.lookup_isSome_iff]
      exact ⟨_, hmem, by simp⟩
    obtain ⟨k, hk⟩ := Option.isSome_iff_exists.mp hsome
    obtain ⟨l₁, l₂, hl, -⟩ := List.lookup_eq_some_iff.mp hk
    -- the entry that is found and the one that is there have the same key
    have hkm : (id, k) ∈ m.requests := by
      rw [hl]
      simp
    obtain ⟨hi, hid⟩ := h.entry _ hmem
    obtain ⟨hk', hkid⟩ := h.entry _ hkm
    have : k = i := h.distinct k i hk' hi (hkid.trans hid.symm)
    rw [find, hk, this]

theorem Keyed.held_iff (h : m.Keyed) (j : ℕ) :
    (m.view j).held = true ↔ m.find (m.request j).id = some j := by
  rw [h.find_iff]
  exact decide_eq_true_iff

/-! ### One call -/

theorem marks_record (i j : ℕ) (mark : Mark) :
    (m.record i mark).marks j = if j = i then m.marks j ++ [mark] else m.marks j := by
  unfold marks record
  rw [List.filter_append, List.map_append]
  by_cases hj : j = i
  · rw [if_pos hj, hj]
    simp
  · rw [if_neg hj]
    have : i ≠ j := fun e => hj e.symm
    simp [this]

theorem count_clearTimers (i j : ℕ) :
    ((m.clearTimers i).timers.map Prod.fst).count j =
      if j = i then 0 else (m.timers.map Prod.fst).count j := by
  unfold clearTimers
  induction m.timers with
  | nil => simp
  | cons t ts ih =>
    by_cases ht : t.1 = i <;> by_cases hj : j = i <;>
      simp_all [List.count_cons]
    exact fun e => hj e.symm

theorem view_record (i j : ℕ) (mark : Mark) :
    (m.record i mark).view j =
      if j = i then { m.view j with marks := m.marks j ++ [mark] } else m.view j := by
  by_cases hj : j = i
  · rw [if_pos hj, view, marks_record, if_pos hj]
    rfl
  · rw [if_neg hj, view, marks_record, if_neg hj]
    rfl

theorem view_clearTimers (i j : ℕ) :
    (m.clearTimers i).view j = if j = i then { m.view j with timers := 0 } else m.view j := by
  by_cases hj : j = i
  · rw [if_pos hj, view, count_clearTimers, if_pos hj]
    rfl
  · rw [if_neg hj, view, count_clearTimers, if_neg hj]
    rfl

theorem view_postDelayed (delay i j : ℕ) :
    (m.postDelayed delay i).view j =
      if j = i then { m.view j with timers := (m.view j).timers + 1 } else m.view j := by
  have hc : ((m.postDelayed delay i).timers.map Prod.fst).count j =
      (m.timers.map Prod.fst).count j + if i = j then 1 else 0 := by
    simp [postDelayed, List.count_singleton]
  by_cases hj : j = i
  · rw [if_pos hj, view, hc, if_pos hj.symm]
    rfl
  · rw [if_neg hj, view, hc, if_neg fun e => hj e.symm]
    rfl

theorem Keyed.of_eq {m' : StunRequestManager} (h : m.Keyed) (hn : m'.next = m.next)
    (hr : ∀ i, (m'.request i).id = (m.request i).id)
    (he : ∀ e ∈ m'.requests, e ∈ m.requests)
    (hu : ∀ j, m.next ≤ j → (m'.view j).timers = 0 ∧ m'.marks j = []) : m'.Keyed where
  distinct := by
    intro i j hi hj hij
    rw [hr, hr] at hij
    exact h.distinct i j (hn ▸ hi) (hn ▸ hj) hij
  length := by
    intro i hi
    rw [hr]
    exact h.length i (hn ▸ hi)
  entry := by
    intro e hm
    obtain ⟨h₁, h₂⟩ := h.entry e (he e hm)
    exact ⟨hn ▸ h₁, by rw [hr]; exact h₂⟩
  unused := by
    intro j hj
    exact hu j (hn ▸ hj)

@[simp] theorem remove_next (i : ℕ) : (m.remove i).next = m.next := by
  unfold remove
  split <;> rfl

@[simp] theorem remove_request (i : ℕ) : (m.remove i).request = m.request := by
  unfold remove
  split <;> rfl

@[simp] theorem remove_log (i : ℕ) : (m.remove i).log = m.log := by
  unfold remove
  split <;> rfl

theorem remove_subset (i : ℕ) : ∀ e ∈ (m.remove i).requests, e ∈ m.requests := by
  intro e he
  unfold remove at he
  split at he
  · exact he
  · exact List.mem_of_mem_filter he

theorem Keyed.view_remove (h : m.Keyed) {i : ℕ} (hi : i < m.next) (j : ℕ) :
    (m.remove i).view j =
      if j = i then
        { m.view j with held := false, timers := if (m.view j).held then 0 else (m.view j).timers }
      else m.view j := by
  unfold remove
  cases hf : m.find (m.request i).id with
  | none =>
    have hheld : (m.view i).held = false := by
      rw [← Bool.not_eq_true, h.held_iff, hf]
      simp
    show m.view j = _
    by_cases hj : j = i
    · rw [if_pos hj, hj, hheld, if_neg (by simp), ← hheld]
    · rw [if_neg hj]
  | some k =>
    -- no other request has the id, so the entry is the request's own
    obtain ⟨hk, hid⟩ := h.entry _ ((h.find_iff _ _).mp hf)
    have hki : k = i := h.distinct k i hk hi hid
    subst hki
    have hheld : (m.view k).held = true := (h.held_iff k).mpr hf
    simp only
    rw [view_clearTimers]
    by_cases hj : j = k
    · rw [if_pos hj, if_pos hj, hj, hheld, if_pos rfl]
      simp [view, marks]
    · rw [if_neg hj, if_neg hj]
      have hmem : (((m.request j).id, j) ∈
          m.requests.filter fun e => decide (e.1 ≠ (m.request k).id)) ↔
            ((m.request j).id, j) ∈ m.requests := by
        rw [List.mem_filter]
        refine ⟨And.left, fun hin => ⟨hin, ?_⟩⟩
        rw [decide_eq_true_eq]
        exact fun e => hj (h.distinct j k (h.entry _ hin).1 hk e)
      simp only [view, marks, hmem]

theorem Keyed.remove (h : m.Keyed) {i : ℕ} (hi : i < m.next) : (m.remove i).Keyed := by
  refine h.of_eq (remove_next i) (fun _ => by rw [remove_request]) (remove_subset i) ?_
  intro j hj
  have hne : j ≠ i := by omega
  rw [h.view_remove hi, if_neg hne]
  refine ⟨(h.unused j hj).1, ?_⟩
  show ((m.remove i).log.filter _).map _ = _
  rw [remove_log]
  exact (h.unused j hj).2

theorem Keyed.record (h : m.Keyed) {i : ℕ} (hi : i < m.next) (mark : Mark) :
    (m.record i mark).Keyed := by
  refine h.of_eq rfl (fun _ => rfl) (fun _ he => he) ?_
  intro j hj
  have hne : j ≠ i := by omega
  rw [view_record, if_neg hne, marks_record, if_neg hne]
  exact h.unused j hj

theorem Keyed.onRemove (h : m.Keyed) {i : ℕ} (hi : i < m.next) : (m.onRemove i).Keyed :=
  (h.remove hi).record (by rw [remove_next]; exact hi) _

@[simp] theorem onRemove_next (i : ℕ) : (m.onRemove i).next = m.next := remove_next i

@[simp] theorem onRemove_request (i : ℕ) : (m.onRemove i).request = m.request :=
  remove_request i

theorem Keyed.view_onRemove (h : m.Keyed) {i : ℕ} (hi : i < m.next) (j : ℕ) :
    (m.onRemove i).view j = if j = i then (m.view j).removed else m.view j := by
  have hm : (m.remove i).marks j = m.marks j := by
    unfold marks
    rw [remove_log]
  rw [StunRequestManager.onRemove, view_record, h.view_remove hi, hm]
  by_cases hj : j = i
  · rw [if_pos hj, if_pos hj, if_pos hj]
    rfl
  · rw [if_neg hj, if_neg hj, if_neg hj]

theorem Keyed.removals (l : List ℕ) : ∀ {m : StunRequestManager}, m.Keyed →
    (∀ i ∈ l, i < m.next) →
      (l.foldl (fun m i => m.onRemove i) m).Keyed ∧
      (l.foldl (fun m i => m.onRemove i) m).next = m.next ∧
      (l.foldl (fun m i => m.onRemove i) m).request = m.request ∧
      ∀ j, ∃ n, (l.foldl (fun m i => m.onRemove i) m).view j = View.removed^[n] (m.view j) := by
  induction l with
  | nil => exact fun h _ => ⟨h, rfl, rfl, fun j => ⟨0, rfl⟩⟩
  | cons i l ih =>
    intro m h hl
    have hi := hl i List.mem_cons_self
    obtain ⟨hk, hn, hr, hv⟩ := ih (h.onRemove hi) fun k hk => by
      rw [onRemove_next]
      exact hl k (List.mem_cons_of_mem _ hk)
    refine ⟨hk, hn.trans (onRemove_next i), hr.trans (onRemove_request i), fun j => ?_⟩
    obtain ⟨n, hn⟩ := hv j
    rw [List.foldl_cons, hn, h.view_onRemove hi]
    split_ifs
    · exact ⟨n + 1, rfl⟩
    · exact ⟨n, rfl⟩

/-! ### What a callback does -/

end StunRequestManager

/-- The ids of the requests that are handed over. -/
def Op.ids : List Op → List (List Byte)
  | [] => []
  | .send _ id _ _ :: ops => id :: Op.ids ops
  | .remove _ :: ops => Op.ids ops
  | .clear :: ops => Op.ids ops

/-- A call that does not remove the request. -/
def Op.Spares (i : ℕ) : Op → Prop
  | .send .. => True
  | .remove j => j ≠ i
  | .clear => False

namespace StunRequestManager

variable (m : StunRequestManager)

/-- **The ids that are handed over** are of 12 bytes, and none is used twice. -/
def NewIds (ops : List Op) : Prop :=
  (Op.ids ops).Nodup ∧
    ∀ id ∈ Op.ids ops, id.length = kStunTransactionIdLength ∧
      ∀ i < m.next, (m.request i).id ≠ id

variable {m}

/-- One call of the manager. -/
structure Performed (m m' : StunRequestManager) (op : Op) : Prop where
  keyed : m'.Keyed
  next : m.next ≤ m'.next
  old : ∀ j < m.next, ∃ n, m'.view j = View.removed^[n] (m.view j)
  spared : ∀ j < m.next, op.Spares j → m'.view j = m.view j
  born : ∀ j, m.next ≤ j → j < m'.next → ∃ cls id type,
    m'.view j = .fresh cls id type ∧ id ∈ Op.ids [op]

theorem Keyed.perform (h : m.Keyed) {op : Op} {ops : List Op} (hn : m.NewIds (op :: ops)) :
    Performed m (m.perform op) op := by
  cases op with
  | send cls id type delay =>
    unfold StunRequestManager.perform
    simp only
    split_ifs with hf
    · exact ⟨h, le_rfl, fun _ _ => ⟨0, rfl⟩, fun _ _ _ => rfl, fun j h₁ h₂ => by omega⟩
    · obtain ⟨hlen, hnew⟩ := hn.2 id List.mem_cons_self
      have hnext : (m.sendDelayed cls id type delay).next = m.next + 1 := rfl
      have hother : ∀ j, j ≠ m.next →
          (m.sendDelayed cls id type delay).request j = m.request j := fun j hj => if_neg hj
      have hself : (m.sendDelayed cls id type delay).request m.next = .new cls id type :=
        if_pos rfl
      have hview : ∀ j, j ≠ m.next →
          (m.sendDelayed cls id type delay).view j = m.view j := by
        intro j hj
        rw [StunRequestManager.sendDelayed, view_postDelayed, if_neg hj]
        simp [view, marks, hj]
      have hfresh : (m.sendDelayed cls id type delay).view m.next = .fresh cls id type := by
        obtain ⟨ht, hmarks⟩ := h.unused m.next le_rfl
        have ht' : (m.timers.map Prod.fst).count m.next = 0 := ht
        have hmarks' : (m.log.filter fun l => l.1 = m.next).map Prod.snd = [] := hmarks
        rw [StunRequestManager.sendDelayed, view_postDelayed, if_pos rfl]
        simp [view, marks, View.fresh, StunRequest.new, ht', hmarks']
      refine ⟨⟨?_, ?_, ?_, ?_⟩, by omega, fun j hj => ⟨0, hview j (by omega)⟩,
        fun j hj _ => hview j (by omega), ?_⟩
      · intro i j hi hj hij
        rw [hnext] at hi hj
        by_cases hi' : i = m.next <;> by_cases hj' : j = m.next
        · rw [hi', hj']
        · rw [hi', hself, hother j hj'] at hij
          exact absurd hij.symm (hnew j (by omega))
        · rw [hj', hself, hother i hi'] at hij
          exact absurd hij (hnew i (by omega))
        · rw [hother i hi', hother j hj'] at hij
          exact h.distinct i j (by omega) (by omega) hij
      · intro i hi
        rw [hnext] at hi
        by_cases hi' : i = m.next
        · rw [hi', hself]
          exact hlen
        · rw [hother i hi']
          exact h.length i (by omega)
      · intro e he
        rcases List.mem_append.mp he with he | he
        · obtain ⟨h₁, h₂⟩ := h.entry e he
          exact ⟨by omega, by rw [hother e.2 (by omega)]; exact h₂⟩
        · rw [List.mem_singleton.mp he]
          exact ⟨by omega, by rw [hself]; rfl⟩
      · intro j hj
        rw [hnext] at hj
        rw [hview j (by omega)]
        exact h.unused j (by omega)
      · intro j h₁ h₂
        have hj : j = m.next := by omega
        exact ⟨cls, id, type, by rw [hj, hfresh], List.mem_cons_self⟩
  | remove i =>
    unfold StunRequestManager.perform
    simp only
    split_ifs with hi
    · refine ⟨h.onRemove hi, (onRemove_next i).ge, fun j _ => ?_, fun j _ hs => ?_,
        fun j h₁ h₂ => ?_⟩
      · rw [h.view_onRemove hi]
        split_ifs
        · exact ⟨1, rfl⟩
        · exact ⟨0, rfl⟩
      · rw [h.view_onRemove hi, if_neg fun e => hs e.symm]
      · rw [onRemove_next] at h₂
        omega
    · exact ⟨h, le_rfl, fun _ _ => ⟨0, rfl⟩, fun _ _ _ => rfl, fun j h₁ h₂ => by omega⟩
  | clear =>
    obtain ⟨hk, hn, hr, hv⟩ := Keyed.removals (m.requests.map Prod.snd) h fun i hi => by
      obtain ⟨e, he, rfl⟩ := List.mem_map.mp hi
      exact (h.entry e he).1
    refine ⟨hk, hn.ge, fun j _ => hv j, fun j _ hs => hs.elim, fun j h₁ h₂ => ?_⟩
    have hn' : (m.perform .clear).next = m.next := hn
    omega

theorem View.id_iterate_removed (v : View) (n : ℕ) :
    (View.removed^[n] v).request = v.request :=
  View.iterate_removed (fun w (h : w.request = v.request) => h) n rfl

theorem NewIds.tail {op : Op} {ops : List Op} (h : m.NewIds (op :: ops))
    {m' : StunRequestManager} (hp : Performed m m' op) : m'.NewIds ops := by
  have hsub : ∀ id ∈ Op.ids ops, id ∈ Op.ids (op :: ops) ∧ id ∉ Op.ids [op] := by
    intro id hid
    have hnd := h.1
    cases op with
    | send cls id' type delay =>
      refine ⟨List.mem_cons_of_mem _ hid, fun hmem => ?_⟩
      rw [Op.ids, Op.ids, List.mem_singleton] at hmem
      exact (List.nodup_cons.mp hnd).1 (hmem ▸ hid)
    | remove i => exact ⟨hid, List.not_mem_nil⟩
    | clear => exact ⟨hid, List.not_mem_nil⟩
  refine ⟨?_, fun id hid => ⟨(h.2 id (hsub id hid).1).1, fun i hi => ?_⟩⟩
  · have hnd := h.1
    cases op with
    | send => exact (List.nodup_cons.mp hnd).2
    | remove => exact hnd
    | clear => exact hnd
  · by_cases hold : i < m.next
    · obtain ⟨n, hv⟩ := hp.old i hold
      have hreq : m'.request i = m.request i :=
        (congrArg View.request hv).trans (View.id_iterate_removed _ n)
      rw [hreq]
      exact (h.2 id (hsub id hid).1).2 i hold
    · obtain ⟨cls, id', type, hv, hid'⟩ := hp.born i (by omega) hi
      have hreq : m'.request i = .new cls id' type := congrArg View.request hv
      rw [hreq]
      exact fun e => (hsub id hid).2 (e ▸ hid')

/-- What a list of calls leaves. -/
structure PerformedAll (m m' : StunRequestManager) (ops : List Op) : Prop where
  keyed : m'.Keyed
  next : m.next ≤ m'.next
  old : ∀ j < m.next, ∃ n, m'.view j = View.removed^[n] (m.view j)
  spared : ∀ j < m.next, (∀ op ∈ ops, op.Spares j) → m'.view j = m.view j
  settled : ∀ j, m.next ≤ j → j < m'.next → (m'.view j).Settled

theorem Keyed.performAll (ops : List Op) : ∀ {m : StunRequestManager}, m.Keyed →
    m.NewIds ops → PerformedAll m (m.performAll ops) ops := by
  induction ops with
  | nil =>
    exact fun h _ => ⟨h, le_rfl, fun _ _ => ⟨0, rfl⟩, fun _ _ _ => rfl, fun j h₁ h₂ =>
      absurd h₂ (by show ¬ j < _; exact not_lt.mpr h₁)⟩
  | cons op ops ih =>
    intro m h hn
    have hp := h.perform hn
    have hall := ih hp.keyed (hn.tail hp)
    refine ⟨hall.keyed, hp.next.trans hall.next, fun j hj => ?_, fun j hj hs => ?_,
      fun j h₁ h₂ => ?_⟩
    · obtain ⟨a, ha⟩ := hall.old j (hj.trans_le hp.next)
      obtain ⟨b, hb⟩ := hp.old j hj
      exact ⟨a + b, by rw [Function.iterate_add_apply, ← hb]; exact ha⟩
    · have h₁ := hall.spared j (hj.trans_le hp.next) fun o ho => hs o (List.mem_cons_of_mem _ ho)
      exact h₁.trans (hp.spared j hj (hs op List.mem_cons_self))
    · by_cases hj : j < (m.perform op).next
      · obtain ⟨cls, id, type, hv, -⟩ := hp.born j h₁ hj
        obtain ⟨n, hn⟩ := hall.old j hj
        show (((m.perform op).performAll ops).view j).Settled
        rw [hn, hv]
        exact View.iterate_removed (fun _ h => h.removed) n (View.fresh_settled cls id type)
      · exact hall.settled j (not_lt.mp hj) h₂

/-! ### Events -/

/-- **The invariant**: the map is in order and every request is settled. -/
structure Orderly (m : StunRequestManager) : Prop where
  keyed : m.Keyed
  settled : ∀ j < m.next, (m.view j).Settled

theorem new_orderly (request : ℕ → StunRequest) : (new request).Orderly where
  keyed :=
    { distinct := fun i _ hi => absurd hi (Nat.not_lt_zero i)
      length := fun i hi => absurd hi (Nat.not_lt_zero i)
      entry := fun _ he => absurd he List.not_mem_nil
      unused := fun _ _ => ⟨rfl, rfl⟩ }
  settled := fun j hj => absurd hj (Nat.not_lt_zero j)

theorem Orderly.performAll (h : m.Orderly) {ops : List Op} (hn : m.NewIds ops) :
    (m.performAll ops).Orderly := by
  have hp := h.keyed.performAll ops hn
  refine ⟨hp.keyed, fun j hj => ?_⟩
  by_cases hold : j < m.next
  · obtain ⟨n, hv⟩ := hp.old j hold
    rw [hv]
    exact View.iterate_removed (fun _ h => h.removed) n (h.settled j hold)
  · exact hp.settled j (not_lt.mp hold) hj

/-- All but one of the requests are settled. -/
structure Busy (m : StunRequestManager) (i : ℕ) : Prop where
  keyed : m.Keyed
  lt : i < m.next
  settled : ∀ j < m.next, j ≠ i → (m.view j).Settled

theorem Busy.finish {i : ℕ} (h : m.Busy i) {mark : Mark} {ops : List Op}
    (hm : Closed (m.request i).cls (m.marks i ++ [mark])) (hn : m.NewIds ops) :
    (((m.record i mark).performAll ops).delete i).Orderly := by
  have hp := (h.keyed.record h.lt mark).performAll ops hn
  have hi : i < ((m.record i mark).performAll ops).next := h.lt.trans_le hp.next
  have hk := hp.keyed.remove hi
  have hmarks : ∀ j, ((((m.record i mark).performAll ops).remove i).clearTimers i).marks j =
      ((m.record i mark).performAll ops).marks j := by
    intro j
    show ((((m.record i mark).performAll ops).remove i).log.filter _).map _ = _
    rw [remove_log]
    rfl
  have hview : ∀ j, (((m.record i mark).performAll ops).delete i).view j =
      if j = i then
        { ((m.record i mark).performAll ops).view j with held := false, timers := 0 }
      else ((m.record i mark).performAll ops).view j := by
    intro j
    rw [StunRequestManager.delete, view_clearTimers, hp.keyed.view_remove hi]
    split_ifs <;> rfl
  have hnext : (((m.record i mark).performAll ops).delete i).next =
      ((m.record i mark).performAll ops).next := remove_next i
  refine ⟨hk.of_eq rfl (fun _ => rfl) (fun _ he => he) fun j hj => ?_, fun j hj => ?_⟩
  · have hne : j ≠ i := by
      rintro rfl
      rw [remove_next] at hj
      omega
    rw [remove_next] at hj
    refine ⟨?_, (hmarks j).trans (hp.keyed.unused j hj).2⟩
    rw [hview, if_neg hne]
    exact (hp.keyed.unused j hj).1
  · rw [hview]
    rw [hnext] at hj
    split_ifs with hji
    · -- its own history was closed by the callback
      subst hji
      obtain ⟨n, hv⟩ := hp.old j h.lt
      have hend : (((m.record j mark).performAll ops).view j).Ending := by
        rw [hv]
        refine View.iterate_removed (fun _ h => h.removed) n ?_
        rw [view_record, if_pos rfl]
        exact hm
      exact .inr ⟨rfl, rfl, hend⟩
    · by_cases hold : j < m.next
      · obtain ⟨n, hv⟩ := hp.old j hold
        rw [hv]
        refine View.iterate_removed (fun _ h => h.removed) n ?_
        rw [view_record, if_neg hji]
        exact h.settled j hold hji
      · exact hp.settled j (not_lt.mp hold) hj

theorem Busy.send {i : ℕ} (h : m.Busy i) (hheld : (m.view i).held = true)
    (htimers : (m.view i).timers = 0) (hpaced : (m.request i).Paced)
    (ht : (m.request i).timeout = false)
    (hmarks : m.marks i = List.replicate (m.request i).sends .sent) {ops : List Op}
    (hn : m.NewIds ops) (hs : ∀ op ∈ ops, op.Spares i) : (m.onMessage i ops).Orderly := by
  have hp := (h.keyed.record h.lt .sent).performAll ops hn
  have hself := hp.spared i h.lt hs
  rw [view_record, if_pos rfl] at hself
  have hreq : ((m.record i .sent).performAll ops).request i = m.request i :=
    congrArg View.request hself
  obtain ⟨hpaced', hsends⟩ := hpaced.next ht
  unfold onMessage
  rw [if_neg (by rw [ht]; simp)]
  simp only
  generalize hm' : (m.record i .sent).performAll ops = m' at hp hself hreq ⊢
  have hview : ∀ j, ({ m' with
        request := fun j => if j = i then (m'.request i).getNextDelay.2 else m'.request j
        }.postDelayed (m'.request i).getNextDelay.1 i).view j =
      if j = i then
        { m'.view i with request := (m'.request i).getNextDelay.2, timers := 1 }
      else m'.view j := by
    intro j
    rw [view_postDelayed]
    split_ifs with hj
    · subst hj
      have h0 : (m'.timers.map Prod.fst).count j = 0 := by
        have := congrArg View.timers hself
        exact this.trans htimers
      simp [view, marks, h0]
    · simp [view, marks, hj]
  refine ⟨hp.keyed.of_eq rfl (fun j => ?_) (fun _ he => he) fun j hj => ?_, fun j hj => ?_⟩
  · show (if j = i then (m'.request i).getNextDelay.2 else m'.request j).id = _
    split_ifs with hj
    · rw [StunRequest.getNextDelay_id, hj]
    · rfl
  · have hne : j ≠ i := fun e => by
      have := h.lt.trans_le hp.next
      omega
    rw [hview, if_neg hne]
    exact hp.keyed.unused j hj
  · rw [hview]
    split_ifs with hji
    · -- the object, its map entry and its timer message are in step again
      refine .inl ⟨?_, rfl, by rw [hreq]; exact hpaced', ?_⟩
      · show (m'.view i).held = true
        rw [hself]
        exact hheld
      · show (m'.view i).marks = List.replicate (m'.request i).getNextDelay.2.sends .sent
        rw [hself, hreq, hsends, hmarks, List.replicate_succ']
    · by_cases hold : j < m.next
      · obtain ⟨n, hv⟩ := hp.old j hold
        rw [hv]
        refine View.iterate_removed (fun _ h => h.removed) n ?_
        rw [view_record, if_neg hji]
        exact h.settled j hold hji
      · exact hp.settled j (not_lt.mp hold) hj

theorem view_takeTimer {k : ℕ} {t : ℕ × ℕ} (ht : m.timers[k]? = some t) (j : ℕ) :
    ({ m with timers := m.timers.eraseIdx k } : StunRequestManager).view j =
      if j = t.1 then { m.view j with timers := (m.view j).timers - 1 } else m.view j := by
  obtain ⟨hk, rfl⟩ := List.getElem?_eq_some_iff.mp ht
  have hperm := (List.getElem_cons_eraseIdx_perm hk).map Prod.fst
  have hc := hperm.count_eq j
  rw [List.map_cons, List.count_cons] at hc
  split_ifs with hj
  · have : ((m.timers.eraseIdx k).map Prod.fst).count j = (m.timers.map Prod.fst).count j - 1 := by
      rw [if_pos (by simp [hj])] at hc
      omega
    rw [view, this]
    rfl
  · have : ((m.timers.eraseIdx k).map Prod.fst).count j = (m.timers.map Prod.fst).count j := by
      rw [if_neg (by simpa using fun e => hj e.symm)] at hc
      omega
    rw [view, this]
    rfl

theorem Orderly.live_of_timer (h : m.Orderly) {k : ℕ} {t : ℕ × ℕ}
    (ht : m.timers[k]? = some t) : t.1 < m.next ∧ (m.view t.1).Live := by
  have hmem : t.1 ∈ m.timers.map Prod.fst :=
    List.mem_map_of_mem (List.mem_of_getElem? ht)
  have hpos : (m.view t.1).timers ≠ 0 := (List.count_pos_iff.mpr hmem).ne'
  have hlt : t.1 < m.next := by
    by_contra hge
    exact hpos (h.keyed.unused t.1 (not_lt.mp hge)).1
  exact ⟨hlt, (h.settled t.1 hlt).resolve_right fun ho => hpos ho.timers⟩

theorem Orderly.live_of_find (h : m.Orderly) {id : List Byte} {i : ℕ} (hf : m.find id = some i) :
    i < m.next ∧ (m.request i).id = id ∧ (m.view i).Live := by
  obtain ⟨hlt, hid⟩ := h.keyed.entry _ ((h.keyed.find_iff id i).mp hf)
  have hheld : (m.view i).held = true := (h.keyed.held_iff i).mpr (by rw [hid]; exact hf)
  refine ⟨hlt, hid, (h.settled i hlt).resolve_right fun ho => ?_⟩
  rw [ho.held] at hheld
  cases hheld

/-- **What may be done** at an event: the requests handed over have new ids of 12
bytes, and what is done while a packet is sent spares the request it is sent for. -/
def Allowed (m : StunRequestManager) : Event → Prop
  | .op op => m.NewIds [op]
  | .timer k ops =>
    m.NewIds ops ∧ ∀ t, m.timers[k]? = some t → (m.request t.1).timeout = false →
      ∀ op ∈ ops, op.Spares t.1
  | .response _ ops => m.NewIds ops
  | .packet _ ops => m.NewIds ops

theorem Orderly.busy (h : m.Orderly) {i : ℕ} (hi : i < m.next) : m.Busy i :=
  ⟨h.keyed, hi, fun j hj _ => h.settled j hj⟩

theorem Orderly.timer (h : m.Orderly) {k : ℕ} {ops : List Op} (ha : m.Allowed (.timer k ops)) :
    (m.act (.timer k ops)).Orderly := by
  unfold act
  simp only
  split
  · exact h
  · next t ht =>
    obtain ⟨hlt, hlive⟩ := h.live_of_timer ht
    have hview := view_takeTimer ht
    have hself := hview t.1
    rw [if_pos rfl] at hself
    generalize hm' : ({ m with timers := m.timers.eraseIdx k } : StunRequestManager) = m'
      at hview hself ⊢
    have hreq : m'.request = m.request := by rw [← hm']
    have hnext : m'.next = m.next := by rw [← hm']
    have hmarks : m'.marks t.1 = m.marks t.1 := by rw [← hm']; rfl
    have hn : m'.NewIds ops := by
      unfold NewIds
      rw [hreq, hnext]
      exact ha.1
    have hother : ∀ j, j ≠ t.1 → m'.view j = m.view j := fun j hj => by rw [hview, if_neg hj]
    have hbusy : m'.Busy t.1 := by
      refine ⟨h.keyed.of_eq hnext (fun _ => by rw [hreq]) (fun e he => ?_) fun j hj => ?_,
        by rw [hnext]; exact hlt, fun j hj hne => ?_⟩
      · rw [← hm'] at he
        exact he
      · have hne : j ≠ t.1 := by omega
        have hv := hother j hne
        refine ⟨by rw [hv]; exact (h.keyed.unused j hj).1, ?_⟩
        exact (congrArg View.marks hv).trans (h.keyed.unused j hj).2
      · rw [hother j hne]
        exact h.settled j (hnext ▸ hj)
    by_cases hto : (m.request t.1).timeout = true
    · unfold onMessage
      rw [hreq, if_pos hto]
      refine hbusy.finish ?_ hn
      rw [hreq, hmarks]
      exact hlive.closed (by simp)
    · rw [Bool.not_eq_true] at hto
      refine hbusy.send ?_ ?_ ?_ (by rw [hreq]; exact hto) ?_ hn (ha.2 t ht hto)
      · rw [hself]
        exact hlive.held
      · rw [hself]
        show (m.view t.1).timers - 1 = 0
        rw [hlive.timers]
      · rw [hreq]
        exact hlive.paced
      · rw [hmarks, hreq]
        exact hlive.marks

theorem Orderly.checkResponse (h : m.Orderly) {msg : StunMessage} {ops : List Op}
    (hn : m.NewIds ops) : (m.checkResponse msg ops).2.Orderly := by
  unfold StunRequestManager.checkResponse
  split
  · exact h
  · next i hf =>
    obtain ⟨hlt, -, hlive⟩ := h.live_of_find hf
    split_ifs
    · exact (h.busy hlt).finish (hlive.closed (by simp)) hn
    · exact (h.busy hlt).finish (hlive.closed (by simp)) hn
    · exact h

theorem Orderly.act (h : m.Orderly) {e : Event} (ha : m.Allowed e) : (m.act e).Orderly := by
  cases e with
  | op op => exact @Orderly.performAll _ h [op] ha
  | timer k ops => exact h.timer ha
  | response msg ops => exact h.checkResponse ha
  | packet data ops =>
    show (m.checkResponseData data ops).2.Orderly
    unfold checkResponseData
    split_ifs
    · exact h
    · simp only
      split
      · exact h
      · split
        · exact h
        · exact h.checkResponse ha

/-- One step of a run. -/
def Step (m m' : StunRequestManager) : Prop := ∃ e, m.Allowed e ∧ m' = m.act e

theorem orderly_of_reach {request : ℕ → StunRequest}
    (h : Reach (fun m => m = new request) Step m) : m.Orderly := by
  refine Reach.invariant (fun m hm => ?_) (fun m m' _ hm hs => ?_) m h
  · rw [hm]
    exact new_orderly request
  · obtain ⟨e, ha, rfl⟩ := hs
    exact hm.act ha

/-! ### Responses -/

theorem read_transactionId {data rest : List Byte} {msg : StunMessage}
    (h : StunMessage.new.read data = .ok (msg, rest)) :
    20 ≤ data.length ∧
      (msg.transactionId = (data.drop kStunTransactionIdOffset).take kStunTransactionIdLength ∨
        msg.transactionId.length = kStunLegacyTransactionIdLength) := by
  obtain ⟨cookie, id, body, hdata, hc, hi, -, hid, -⟩ := StunMessage.read_ok h
  have hhead : (be16 msg.type ++ be16 msg.length ++ cookie).length = kStunTransactionIdOffset := by
    rw [List.length_append, List.length_append, length_be16, length_be16, hc]
    rfl
  have hassoc : data = be16 msg.type ++ be16 msg.length ++ cookie ++ (id ++ body) := by
    rw [hdata]
    simp only [List.append_assoc]
  refine ⟨?_, ?_⟩
  · rw [hassoc, List.length_append, hhead, List.length_append, hi]
    have h8 : kStunTransactionIdOffset = 8 := rfl
    have h12 : kStunTransactionIdLength = 12 := rfl
    omega
  · rw [hassoc, ← hhead, List.drop_left, ← hi, List.take_left, hid]
    unfold StunMessage.idOf
    split_ifs
    · right
      rw [List.length_append, hc, hi]
      rfl
    · exact .inl rfl

theorem Orderly.checkResponseData_eq (h : m.Orderly) {data rest : List Byte} {msg : StunMessage}
    (hr : StunMessage.new.read data = .ok (msg, rest)) (ops : List Op) :
    m.checkResponseData data ops = m.checkResponse msg ops := by
  obtain ⟨hlen, hid⟩ := read_transactionId hr
  have hlegacy : msg.transactionId.length = kStunLegacyTransactionIdLength →
      m.find msg.transactionId = none := by
    intro h16
    rw [Option.eq_none_iff_forall_ne_some]
    intro i hf
    obtain ⟨hlt, he, -⟩ := h.live_of_find hf
    have h12 := h.keyed.length i hlt
    rw [he, h16] at h12
    exact absurd h12 (by decide)
  unfold checkResponseData
  rw [if_neg (by omega)]
  simp only
  cases hf : m.find ((data.drop kStunTransactionIdOffset).take kStunTransactionIdLength) with
  | none =>
    have hnone : m.find msg.transactionId = none := by
      rcases hid with hid | hid
      · rw [hid]
        exact hf
      · exact hlegacy hid
    unfold StunRequestManager.checkResponse
    rw [hnone]
  | some i => simp only [hr]

/-! ### The whole of a run -/

theorem closed_history {cls : RequestClass} {l : List Mark} (h : Closed cls l) :
    l.count .sent ≤ cls.maxSends ∧ l.countP Mark.isCallback ≤ 1 ∧
      (∀ a e b, l = a ++ e :: b → e ≠ .sent → ∀ x ∈ b, x = .removed) ∧
      ∃ x ∈ l, x ≠ .sent := by
  obtain ⟨k, e, r, hk, he, rfl⟩ := h
  refine ⟨?_, ?_, ?_, ⟨e, by simp, he⟩⟩
  · have h₁ : (List.replicate r Mark.removed).count .sent = 0 := by
      rw [List.count_replicate, if_neg (by simp)]
    rw [List.count_append, List.count_replicate_self, List.count_cons, h₁,
      if_neg (by simpa using he)]
    exact hk
  · have h₁ : (List.replicate k Mark.sent).countP Mark.isCallback = 0 := by
      rw [List.countP_replicate, if_neg (by simp [Mark.isCallback])]
    have h₂ : (List.replicate r Mark.removed).countP Mark.isCallback = 0 := by
      rw [List.countP_replicate, if_neg (by simp [Mark.isCallback])]
    rw [List.countP_append, List.countP_cons, h₁, h₂]
    split <;> omega
  · intro a e' b hl he' x hx
    -- `e'` is not among the sends in front
    induction k generalizing a with
    | zero =>
      cases a with
      | nil =>
        simp only [List.replicate_zero, List.nil_append, List.cons.injEq] at hl
        rw [← hl.2] at hx
        exact List.eq_of_mem_replicate hx
      | cons y a =>
        simp only [List.replicate_zero, List.nil_append, List.cons_append, List.cons.injEq] at hl
        have : x ∈ List.replicate r Mark.removed := by
          rw [hl.2]
          simp [hx]
        exact List.eq_of_mem_replicate this
    | succ k ih =>
      cases a with
      | nil =>
        simp only [List.replicate_succ, List.nil_append, List.cons_append, List.cons.injEq] at hl
        exact absurd hl.1.symm he'
      | cons y a =>
        simp only [List.replicate_succ, List.cons_append, List.cons.injEq] at hl
        exact ih (by omega) a hl.2

/-- **A STUN request is completed at most once.**  It is called back at most once,
sent no more often than its class allows, and neither sent nor called back after a
callback or a removal; the map holds the requests that are still live; and a response
is matched to the same request as a message and as the bytes of a packet. -/
theorem completion {request : ℕ → StunRequest} {m : StunRequestManager}
    (h : Reach (fun m => m = new request) Step m) :
    (∀ i < m.next,
      (m.marks i).count .sent ≤ (m.request i).cls.maxSends ∧
      (m.marks i).countP Mark.isCallback ≤ 1 ∧
      ∀ a e b, m.marks i = a ++ e :: b → e ≠ .sent → ∀ x ∈ b, x = .removed) ∧
    (∀ id i, m.find id = some i ↔
      i < m.next ∧ (m.request i).id = id ∧ ∀ x ∈ m.marks i, x = .sent) ∧
    ∀ data msg rest ops, StunMessage.new.read data = .ok (msg, rest) →
      m.checkResponseData data ops = m.checkResponse msg ops := by
  have ho := orderly_of_reach h
  refine ⟨fun i hi => ?_, fun id i => ⟨fun hf => ?_, ?_⟩, fun data msg rest ops hr =>
    ho.checkResponseData_eq hr ops⟩
  · rcases ho.settled i hi with hl | hl
    · have hm : m.marks i = List.replicate (m.request i).sends .sent := hl.marks
      rw [hm]
      refine ⟨?_, ?_, fun a e b hl he => ?_⟩
      · rw [List.count_replicate_self]
        exact hl.paced.le
      · rw [List.countP_replicate, if_neg (by simp [Mark.isCallback])]
        exact Nat.zero_le _
      · exact absurd (List.eq_of_mem_replicate (by rw [hl]; simp)) he
    · obtain ⟨h₁, h₂, h₃, -⟩ := closed_history hl.closed
      exact ⟨h₁, h₂, h₃⟩
  · obtain ⟨hlt, hid, hlive⟩ := ho.live_of_find hf
    have hm : m.marks i = List.replicate (m.request i).sends .sent := hlive.marks
    refine ⟨hlt, hid, fun x hx => ?_⟩
    rw [hm] at hx
    exact List.eq_of_mem_replicate hx
  · rintro ⟨hlt, rfl, hall⟩
    rcases ho.settled i hlt with hl | hl
    · exact (ho.keyed.held_iff i).mp hl.held
    · obtain ⟨-, -, -, x, hx, hne⟩ := closed_history hl.closed
      exact absurd (hall x hx) hne

/-- The id of the example's binding request, and the response to it. -/
def pingId : List Byte := List.replicate 12 7

def pong (id : List Byte) : StunMessage :=
  { StunMessage.new with type := StunMessageType.bindingResponse.code, transactionId := id }

/-- The run of the example: handed over, sent, and answered. -/
def answered : StunRequestManager :=
  (((new fun _ => .new .stunRequest [] 0).act
    (.op (.send .stunRequest pingId StunMessageType.bindingRequest.code 0))).act
    (.timer 0 [])).act (.response (pong pingId) [])

theorem completion_answered :
    (∀ i < answered.next,
      (answered.marks i).count .sent ≤ (answered.request i).cls.maxSends ∧
      (answered.marks i).countP Mark.isCallback ≤ 1 ∧
      ∀ a e b, answered.marks i = a ++ e :: b → e ≠ .sent → ∀ x ∈ b, x = .removed) ∧
    (∀ id i, answered.find id = some i ↔
      i < answered.next ∧ (answered.request i).id = id ∧ ∀ x ∈ answered.marks i, x = .sent) ∧
    ∀ data msg rest ops, StunMessage.new.read data = .ok (msg, rest) →
      answered.checkResponseData data ops = answered.checkResponse msg ops := by
  refine completion (.step (.step (.step (.init rfl)
    ⟨.op (.send .stunRequest pingId StunMessageType.bindingRequest.code 0), ?_, rfl⟩)
    ⟨.timer 0 [], ?_, rfl⟩) ⟨.response (pong pingId) [], ?_, rfl⟩)
  · refine ⟨by decide, fun id hid => ⟨?_, fun i hi => absurd hi (Nat.not_lt_zero i)⟩⟩
    rw [List.mem_singleton.mp hid]
    rfl
  · exact ⟨⟨by decide, fun _ h => absurd h List.not_mem_nil⟩, fun _ _ _ _ h =>
      absurd h List.not_mem_nil⟩
  · exact ⟨by decide, fun _ h => absurd h List.not_mem_nil⟩

example : answered.marks 0 = [.sent, .response] := by decide

/-- The id of a request that was made from a message of RFC 3489. -/
def legacyId : List Byte := List.replicate 16 7

/-- The manager of a request with that id. -/
def legacy : StunRequestManager :=
  (new fun _ => .new .stunRequest [] 0).perform
    (.send .stunRequest legacyId StunMessageType.bindingRequest.code 0)

/-- **A response to a request with a legacy id** is matched when it is parsed, and
not when its bytes are given. -/
theorem legacy_response_missed :
    StunMessage.isValidTransactionId legacyId = true ∧
    StunMessage.new.read (pong legacyId).write = .ok (pong legacyId, []) ∧
    (legacy.checkResponse (pong legacyId) []).1 = true ∧
    (legacy.checkResponseData (pong legacyId).write []).1 = false := by
  decide

/-- A request that a listener of `SignalSendPacket` removes is sent again. -/
example : ((((legacy.act (.timer 0 [.remove 0])).act (.timer 0 [])).marks 0) =
    [.sent, .removed, .sent]) := by
  decide

end StunRequestManager

end Jingle.Stun
