/-
Writing into the storage itself.

`GetWriteBuffer` gives the writer a place of the storage, and `ConsumeWriteBuffer` takes
what it has stored there for written.  The place begins where the data ends; where the data
ends at its own beginning the buffer is empty, or it is full.

* **`zeroCopy_iff`** — in every state that the buffer can come to, the place is free and a
  write into it is a `Write`, just when the buffer is not full.
* `not_zeroCopy_full` — a full buffer gives its data away to be written over.
-/
import Jingle.Base.FifoQueue

namespace Jingle.Base.FifoBuffer

variable {b b' c : FifoBuffer} {position size : ℕ} {p : List Byte}

/-! ### All calls keep the data in the storage -/

theorem bounded_getWriteBuffer (h : b.Bounded) {place : Option (ℕ × ℕ)}
    (hw : b.getWriteBuffer = some (place, b')) : b'.Bounded := by
  rw [getWriteBuffer] at hw
  split_ifs at hw with hstate hcap hempty
  · obtain ⟨-, rfl⟩ := Prod.mk.inj (Option.some.inj hw)
    exact h
  · obtain ⟨-, rfl⟩ := Prod.mk.inj (Option.some.inj hw)
    exact ⟨h.data_le, fun hpos => hpos, fun _ => rfl⟩
  · obtain ⟨-, rfl⟩ := Prod.mk.inj (Option.some.inj hw)
    exact h

theorem bounded_consumeWriteBuffer (h : b.Bounded) {n : ℕ}
    (hc : b.consumeWriteBuffer n = some b') : b'.Bounded := by
  have hdata := h.data_le
  rw [consumeWriteBuffer] at hc
  split_ifs at hc with hfit
  have hadd : ({ b with data_length := b.data_length + n } : FifoBuffer).Bounded :=
    ⟨by dsimp only; omega, h.position_lt, h.position_zero⟩
  obtain rfl := Option.some.inj hc
  split_ifs
  · exact hadd.postEvent .read
  · exact hadd

theorem bounded_step (h : b.Bounded) {op : FifoOp} {reply : FifoReply}
    (hs : b.step op = some (reply, b')) : b'.Bounded := by
  by_cases hop : IsQueueOp op
  · exact (step_refines h hop hs).2
  cases op with
  | getWriteBuffer =>
    obtain ⟨⟨place, c⟩, hw, heq⟩ := Option.map_eq_some_iff.mp hs
    obtain ⟨-, rfl⟩ := Prod.mk.inj heq
    exact bounded_getWriteBuffer h hw
  | fill position p =>
    rw [step] at hs
    split_ifs at hs
    obtain ⟨-, rfl⟩ := Prod.mk.inj (Option.some.inj hs)
    exact ⟨h.data_le, h.position_lt, h.position_zero⟩
  | consumeWriteBuffer n =>
    obtain ⟨c, hc, heq⟩ := Option.map_eq_some_iff.mp hs
    obtain ⟨-, rfl⟩ := Prod.mk.inj heq
    exact bounded_consumeWriteBuffer h hc
  | _ => exact absurd trivial hop

theorem bounded_run {ops : List FifoOp} (h : b.Bounded) {replies : List FifoReply}
    (hr : b.run ops = some (replies, b')) : b'.Bounded := by
  induction ops generalizing b replies with
  | nil =>
    obtain ⟨-, rfl⟩ := Prod.mk.inj (Option.some.inj hr)
    exact h
  | cons op ops ih =>
    obtain ⟨reply, rest, c, hstep, hrun, -⟩ := run_cons hr
    exact ih (bounded_step h hstep) hrun

/-! ### The place -/

/-- There is data at an index of the storage. -/
def HasData (b : FifoBuffer) (i : ℕ) : Prop :=
  ∃ j < b.data_length, i = (b.read_position + j) % b.buffer_length

/-- What `GetWriteBuffer` promises of the place that it returns. -/
structure GivesRoom (b : FifoBuffer) (position size : ℕ) (c : FifoBuffer) : Prop where
  returns : b.getWriteBuffer = some (some (position, size), c)
  inside : position + size ≤ c.buffer_length
  /-- It is disjoint from the readable data. -/
  free : ∀ i, position ≤ i → i < position + size → ¬c.HasData i
  full : size = 0 ↔ b.data_length = b.buffer_length
  /-- Bytes stored there and consumed are bytes written. -/
  agrees : ∀ p, p.length ≤ size → ∃ d,
    c.run [.fill position p, .consumeWriteBuffer p.length] = some ([.done, .done], d) ∧
      d.queue = (b.write p).2.2.queue

/-- Writing without a copy works; in particular nothing is divided by zero. -/
def ZeroCopy (b : FifoBuffer) : Prop := ∃ position size c, b.GivesRoom position size c

/-- The buffer with its position at the beginning, if it is empty. -/
def rewind (b : FifoBuffer) : FifoBuffer :=
  if b.data_length = 0 then { b with read_position := 0 } else b

/-- Where the data ends. -/
def writePosition (b : FifoBuffer) : ℕ := (b.read_position + b.data_length) % b.buffer_length

/-- The size that `GetWriteBuffer` returns. -/
def writeSize (b : FifoBuffer) : ℕ :=
  if b.writePosition ≥ b.read_position then b.buffer_length - b.writePosition
  else b.read_position - b.writePosition

theorem getWriteBuffer_eq (hstate : b.state ≠ .closed) (hcap : b.buffer_length ≠ 0) :
    b.getWriteBuffer = some (some (b.rewind.writePosition, b.rewind.writeSize), b.rewind) := by
  rw [getWriteBuffer, if_neg hstate, if_neg hcap]
  rfl

theorem rewind_fields (b : FifoBuffer) : b.rewind.data_length = b.data_length ∧
    b.rewind.buffer_length = b.buffer_length ∧ b.rewind.state = b.state ∧
    b.rewind.queue = b.queue := by
  rw [rewind]
  split_ifs with hempty
  · refine ⟨rfl, rfl, rfl, ?_⟩
    have hnil : b.queue.contents = [] := contents_eq_nil.mpr hempty
    have hnil' : ({ b with read_position := 0 } : FifoBuffer).queue.contents = [] :=
      contents_eq_nil.mpr hempty
    exact congrArg (ByteQueue.mk · b.buffer_length _) (hnil'.trans hnil.symm)
  · exact ⟨rfl, rfl, rfl, rfl⟩

theorem Bounded.rewind (h : b.Bounded) : b.rewind.Bounded := by
  rw [FifoBuffer.rewind]
  split_ifs
  · exact ⟨h.data_le, fun hpos => hpos, fun _ => rfl⟩
  · exact h

theorem place_cases (h : b.Bounded) (hroom : b.data_length < b.buffer_length) :
    (b.writePosition = b.read_position + b.data_length ∧
      b.writeSize = b.buffer_length - (b.read_position + b.data_length) ∧
      b.read_position + b.data_length < b.buffer_length) ∨
    (b.writePosition = b.read_position + b.data_length - b.buffer_length ∧
      b.writeSize = b.buffer_length - b.data_length ∧
      b.buffer_length ≤ b.read_position + b.data_length) := by
  have hpos := h.position_lt (by omega)
  rw [writeSize, writePosition]
  by_cases hend : b.read_position + b.data_length < b.buffer_length
  · rw [Nat.mod_eq_of_lt hend, if_pos (by omega)]
    exact .inl ⟨rfl, rfl, hend⟩
  · have hmod : (b.read_position + b.data_length) % b.buffer_length =
        b.read_position + b.data_length - b.buffer_length := by
      rw [Nat.mod_eq_sub_mod (by omega)]
      exact Nat.mod_eq_of_lt (by omega)
    rw [hmod, if_neg (by omega)]
    exact .inr ⟨rfl, by omega, by omega⟩

theorem hasData_cases (h : b.Bounded) {i : ℕ} (hi : b.HasData i) :
    b.read_position ≤ i ∧ i < b.read_position + b.data_length ∨
      i + b.buffer_length < b.read_position + b.data_length := by
  obtain ⟨j, hj, rfl⟩ := hi
  have hdata := h.data_le
  have hpos := h.position_lt (by omega)
  rw [Mem.mod_of_lt hpos (by omega)]
  split_ifs
  · exact .inl ⟨by omega, by omega⟩
  · exact .inr (by omega)

theorem fill_eq_store (h : b.Bounded) (hroom : b.data_length < b.buffer_length)
    (hp : p.length ≤ b.writeSize) : ∃ d,
    b.run [.fill b.writePosition p, .consumeWriteBuffer p.length] = some ([.done, .done], d) ∧
      d.queue = (b.store p).queue := by
  have hfit : p.length ≤ b.buffer_length - b.data_length := by
    obtain ⟨-, hsize, -⟩ | ⟨-, hsize, -⟩ := place_cases h hroom
    · omega
    · omega
  have hend : b.writePosition + p.length ≤ b.buffer_length := by
    obtain ⟨hplace, hsize, hlt⟩ | ⟨hplace, hsize, hle⟩ := place_cases h hroom
    · omega
    · have hpos := h.position_lt (by omega)
      omega
  -- nothing goes around the end of the storage
  have hring : b.buffer.writeRing b.buffer_length b.writePosition p =
      b.buffer.write b.writePosition p := by
    rw [Mem.writeRing, Nat.min_eq_left (by omega), List.take_length, List.drop_length]
    rfl
  have hstore : { b with
      buffer := b.buffer.write b.writePosition p
      data_length := b.data_length + p.length } = b.store p := by
    rw [store, ← hring]
    rfl
  rw [run, step, if_pos hend]
  simp only [Option.bind_some, run, step, Option.map_some, consumeWriteBuffer, if_pos hfit]
  refine ⟨_, rfl, ?_⟩
  split_ifs
  · rw [queue_postEvent, hstore]
  · rw [hstore]

theorem queue_write (h : b.Bounded) (hstate : b.state ≠ .closed)
    (hroom : b.data_length < b.buffer_length) (hp : p.length ≤ b.buffer_length - b.data_length) :
    (b.write p).2.2.queue = { b.queue with contents := b.queue.contents ++ p } := by
  obtain ⟨⟨put, hstep⟩, -⟩ := write_refines h p
  have hopen : b.queue.closed = false := decide_eq_false hstate
  have hlen : b.queue.contents.length = b.data_length := length_contents b
  generalize (b.write p).2.2.queue = q at hstep
  generalize FifoReply.write (b.write p).1 (b.write p).2.1 = reply at hstep
  cases hstep with
  | write _ _ _ =>
    have htake : p.take (b.queue.capacity - b.queue.contents.length) = p := by
      rw [hlen]
      exact List.take_of_length_le hp
    rw [htake]
  | writeFull _ _ hfull => exact absurd (hlen.symm.trans hfull) hroom.ne
  | writeClosed _ hclosed => exact absurd (hopen.symm.trans hclosed) Bool.false_ne_true

theorem givesRoom (h : b.Bounded) (hstate : b.state ≠ .closed)
    (hroom : b.data_length < b.buffer_length) :
    b.GivesRoom b.rewind.writePosition b.rewind.writeSize b.rewind := by
  obtain ⟨hdata, hlength, -, hqueue⟩ := rewind_fields b
  have hb := h.rewind
  have hroom' : b.rewind.data_length < b.rewind.buffer_length := by
    rw [hdata, hlength]
    exact hroom
  have hplace := place_cases hb hroom'
  have hpos := hb.position_lt (by omega)
  refine ⟨getWriteBuffer_eq hstate (by omega), ?_, fun i hle hlt hdata => ?_, ?_,
    fun p hp => ?_⟩
  · omega
  · obtain hcase := hasData_cases hb hdata
    omega
  · omega
  · obtain ⟨d, hrun, hd⟩ := fill_eq_store hb hroom' hp
    refine ⟨d, hrun, ?_⟩
    have hp' : p.length ≤ b.buffer_length - b.data_length := by
      rw [← hdata, ← hlength]
      omega
    rw [hd, queue_store hb (by omega) (by omega), queue_write h hstate hroom hp', hqueue]

/-- **Writing without a copy**, in every state that an open buffer can come to. -/
theorem zeroCopy_iff (capacity : ℕ) (storage : Mem) (ops : List FifoOp)
    {replies : List FifoReply} (hr : (init capacity storage).run ops = some (replies, b))
    (hstate : b.state ≠ .closed) : b.ZeroCopy ↔ b.data_length < b.buffer_length := by
  have h : b.Bounded := bounded_run (bounded_init capacity storage) hr
  constructor
  · rintro ⟨position, size, c, hgives⟩
    by_contra hfull
    have hcap : b.buffer_length ≠ 0 := by
      intro hzero
      have hreturns := hgives.returns
      rw [getWriteBuffer, if_neg hstate, if_pos hzero] at hreturns
      exact Option.some_ne_none _ hreturns.symm
    -- a place of a full buffer would have no bytes
    obtain ⟨hplace, -⟩ := Prod.mk.inj
      (Option.some.inj ((getWriteBuffer_eq hstate hcap).symm.trans hgives.returns))
    obtain ⟨-, hsize⟩ := Prod.mk.inj (Option.some.inj hplace)
    have hzero : b.rewind.writeSize = 0 :=
      hsize.trans (hgives.full.mpr (Nat.le_antisymm h.data_le (Nat.not_lt.mp hfull)))
    have hlength := (rewind_fields b).2.1
    have hlt : b.rewind.writePosition < b.rewind.buffer_length :=
      Nat.mod_lt _ (by omega)
    rw [writeSize] at hzero
    split_ifs at hzero
    · omega
    · omega
  · intro hroom
    exact ⟨_, _, _, givesRoom h hstate hroom⟩

/-- A buffer with two bytes, after one of three was read. -/
theorem zeroCopy_iff_halfFull :
    ((init 4 fun _ => 0).write [1, 2, 3]).2.2.ZeroCopy ↔ 3 < 4 :=
  zeroCopy_iff 4 (fun _ => 0) [.write [1, 2, 3]] rfl (by decide)

/-- **A full buffer** gives all of its storage to be written. -/
theorem not_zeroCopy_full : ¬∀ (capacity : ℕ) (storage : Mem) (ops : List FifoOp)
    (replies : List FifoReply) (b : FifoBuffer),
    (init capacity storage).run ops = some (replies, b) → b.state ≠ .closed → b.ZeroCopy := by
  intro h
  obtain ⟨position, size, c, hgives⟩ := h 1 (fun _ => 0) [.write [7]] _
    ((init 1 fun _ => 0).write [7]).2.2 rfl (by decide)
  have hfull : size = 0 := hgives.full.mpr (by decide)
  have hplace := congrArg (fun r => r.map fun r => r.1.map Prod.snd) hgives.returns
  rw [hfull] at hplace
  change _ = some (some 0) at hplace
  exact absurd hplace (by decide)

end Jingle.Base.FifoBuffer
