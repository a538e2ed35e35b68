/-
The circular buffer is a bounded queue of bytes.

`ByteQueue` is what the buffer is for: its bytes in their order, with a capacity.  A step
of it says which bytes it adds at the end and which it takes from the front.

* `step_refines` — **a call is a step of the queue**, wherever the data is in the storage.
* `run_refines` — in any run the bytes taken and those that are left are the bytes
  written, in their order.
* `not_bounded_capacity_zero` — an empty buffer may be given a capacity of 0, and then its
  read position is not below it.
-/
import Jingle.Base.FifoBuffer

namespace Jingle.Base

/-- A queue of bytes with a capacity. -/
structure ByteQueue where
  contents : List Byte
  capacity : ℕ
  closed : Bool

namespace ByteQueue

def empty (capacity : ℕ) : ByteQueue := ⟨[], capacity, false⟩

/-- A call with its reply, the bytes that it puts at the end and those that it takes from
the front. -/
inductive Step (q : ByteQueue) : FifoOp → FifoReply → List Byte → List Byte → ByteQueue → Prop
  | read (bytes : ℕ) : q.contents ≠ [] →
      Step q (.read bytes) (.read .success (q.contents.take bytes)) [] (q.contents.take bytes)
        { q with contents := q.contents.drop bytes }
  | readEmpty (bytes : ℕ) : q.contents = [] → q.closed = false →
      Step q (.read bytes) (.read .block []) [] [] q
  | readEnd (bytes : ℕ) : q.contents = [] → q.closed = true →
      Step q (.read bytes) (.read .eos []) [] [] q
  | write (p : List Byte) : q.closed = false → q.contents.length < q.capacity →
      Step q (.write p) (.write .success (min p.length (q.capacity - q.contents.length)))
        (p.take (q.capacity - q.contents.length)) []
        { q with contents := q.contents ++ p.take (q.capacity - q.contents.length) }
  | writeFull (p : List Byte) : q.closed = false → q.contents.length = q.capacity →
      Step q (.write p) (.write .block 0) [] [] q
  | writeClosed (p : List Byte) : q.closed = true → Step q (.write p) (.write .eos 0) [] [] q
  | setCapacity (size : ℕ) (storage : Mem) : q.contents.length ≤ size →
      Step q (.setCapacity size storage) (.setCapacity true) [] [] { q with capacity := size }
  | noCapacity (size : ℕ) (storage : Mem) : size < q.contents.length →
      Step q (.setCapacity size storage) (.setCapacity false) [] [] q
  | getBuffered : Step q .getBuffered (.buffered q.contents.length) [] [] q
  | getReadData (data : List Byte) : data <+: q.contents → (q.contents ≠ [] → data ≠ []) →
      Step q .getReadData (.readData data) [] [] q
  | consumeReadData (size : ℕ) : size ≤ q.contents.length →
      Step q (.consumeReadData size) .done [] (q.contents.take size)
        { q with contents := q.contents.drop size }
  | close : Step q .close .done [] [] { q with closed := true }

/-- Steps one after the other, with all that they put and take. -/
inductive Steps : ByteQueue → List FifoOp → List FifoReply → List Byte → List Byte → ByteQueue →
    Prop
  | nil (q : ByteQueue) : Steps q [] [] [] [] q
  | cons {q q' q'' : ByteQueue} {op : FifoOp} {reply : FifoReply} {ops : List FifoOp}
      {replies : List FifoReply} {put taken puts takes : List Byte} :
      Step q op reply put taken q' → Steps q' ops replies puts takes q'' →
      Steps q (op :: ops) (reply :: replies) (put ++ puts) (taken ++ takes) q''

variable {q q' : ByteQueue}

theorem Step.conserves {op : FifoOp} {reply : FifoReply} {put taken : List Byte}
    (h : q.Step op reply put taken q') : q.contents ++ put = taken ++ q'.contents := by
  cases h with
  | read bytes => rw [List.append_nil, List.take_append_drop]
  | write p => rfl
  | consumeReadData size => rw [List.append_nil, List.take_append_drop]
  | readEmpty => exact List.append_nil _
  | readEnd => exact List.append_nil _
  | writeFull => exact List.append_nil _
  | writeClosed => exact List.append_nil _
  | setCapacity => exact List.append_nil _
  | noCapacity => exact List.append_nil _
  | getBuffered => exact List.append_nil _
  | getReadData => exact List.append_nil _
  | close => exact List.append_nil _

theorem Steps.conserves {ops : List FifoOp} {replies : List FifoReply} {puts takes : List Byte}
    (h : Steps q ops replies puts takes q') : q.contents ++ puts = takes ++ q'.contents := by
  induction h with
  | nil q => exact List.append_nil _
  | cons hstep _ ih => rw [← List.append_assoc, hstep.conserves, List.append_assoc, ih,
      List.append_assoc]

end ByteQueue

namespace FifoBuffer

/-- The queue that a buffer is. -/
def queue (b : FifoBuffer) : ByteQueue where
  contents := b.buffer.ring b.buffer_length b.read_position b.data_length
  capacity := b.buffer_length
  closed := b.state = .closed

/-- The data is in the storage; a buffer without storage is at its start. -/
structure Bounded (b : FifoBuffer) : Prop where
  data_le : b.data_length ≤ b.buffer_length
  position_lt : 0 < b.buffer_length → b.read_position < b.buffer_length
  position_zero : b.buffer_length = 0 → b.read_position = 0

variable {b b' : FifoBuffer}

@[simp] theorem length_contents (b : FifoBuffer) : b.queue.contents.length = b.data_length :=
  Mem.length_ring ..

theorem contents_eq_nil : b.queue.contents = [] ↔ b.data_length = 0 := by
  rw [← List.length_eq_zero_iff, length_contents]

@[simp] theorem queue_postEvent (b : FifoBuffer) (e : StreamEvent) :
    (b.postEvent e).queue = b.queue := rfl

theorem Bounded.postEvent (h : b.Bounded) (e : StreamEvent) : (b.postEvent e).Bounded :=
  ⟨h.data_le, h.position_lt, h.position_zero⟩

theorem Bounded.position_of_data (h : b.Bounded) (hd : b.data_length ≠ 0) :
    b.read_position < b.buffer_length :=
  h.position_lt (Nat.lt_of_lt_of_le (Nat.pos_of_ne_zero hd) h.data_le)

/-- The buffer after bytes were taken. -/
def advance (b : FifoBuffer) (n : ℕ) : FifoBuffer :=
  { b with
    read_position := (b.read_position + n) % b.buffer_length
    data_length := b.data_length - n }

theorem queue_advance (b : FifoBuffer) {n : ℕ} (hn : n ≤ b.data_length) :
    (b.advance n).queue = { b.queue with contents := b.queue.contents.drop n } := by
  have hdrop := Mem.drop_ring b.buffer b.buffer_length b.read_position hn
  rw [queue, queue]
  exact congrArg (ByteQueue.mk · b.buffer_length _) hdrop.symm

theorem Bounded.advance (h : b.Bounded) (hpos : 0 < b.buffer_length) (n : ℕ) :
    (b.advance n).Bounded :=
  ⟨Nat.le_trans (Nat.sub_le _ _) h.data_le, fun _ => Nat.mod_lt _ hpos,
    fun hzero => absurd hzero (Nat.ne_of_gt hpos)⟩

theorem take_contents (b : FifoBuffer) (n : ℕ) :
    b.queue.contents.take n = b.queue.contents.take (min n b.data_length) := by
  rw [List.take_eq_take_min, length_contents]

theorem drop_contents (b : FifoBuffer) (n : ℕ) :
    b.queue.contents.drop n = b.queue.contents.drop (min n b.data_length) := by
  rw [List.drop_eq_drop_min, length_contents]

theorem front_eq (h : b.Bounded) (hd : b.data_length ≠ 0) {n : ℕ} (hn : n ≤ b.data_length) :
    b.queue.contents.take n =
      b.buffer.read b.read_position (min n (b.buffer_length - b.read_position)) ++
        b.buffer.read 0 (n - min n (b.buffer_length - b.read_position)) := by
  rw [← Mem.ring_eq_read b.buffer (h.position_of_data hd) (Nat.le_trans hn h.data_le)]
  exact Mem.take_ring b.buffer b.buffer_length b.read_position hn

theorem read_refines (h : b.Bounded) (bytes : ℕ) :
    (∃ taken, b.queue.Step (.read bytes) (.read (b.read bytes).1 (b.read bytes).2.1) [] taken
      (b.read bytes).2.2.queue) ∧ (b.read bytes).2.2.Bounded := by
  rw [read]
  by_cases hd : b.data_length = 0
  · simp only [if_pos hd]
    refine ⟨⟨[], ?_⟩, h⟩
    split_ifs with hstate
    · exact .readEmpty bytes (contents_eq_nil.mpr hd) (decide_eq_false hstate)
    · exact .readEnd bytes (contents_eq_nil.mpr hd) (decide_eq_true (not_not.mp hstate))
  · simp only [if_neg hd]
    have hle : min bytes b.data_length ≤ b.data_length := Nat.min_le_right _ _
    have hstep := ByteQueue.Step.read (q := b.queue) bytes (mt contents_eq_nil.mp hd)
    rw [take_contents, drop_contents, ← queue_advance b hle, front_eq h hd hle] at hstep
    have hbounded := h.advance (Nat.zero_lt_of_lt (h.position_of_data hd))
      (min bytes b.data_length)
    split_ifs
    · exact ⟨⟨_, hstep⟩, hbounded.postEvent .write⟩
    · exact ⟨⟨_, hstep⟩, hbounded⟩

theorem consumeReadData_refines (h : b.Bounded) {size : ℕ}
    (hb : b.consumeReadData size = some b') :
    (∃ taken, b.queue.Step (.consumeReadData size) .done [] taken b'.queue) ∧ b'.Bounded := by
  rw [consumeReadData] at hb
  split_ifs at hb with hsize
  have hstep := ByteQueue.Step.consumeReadData (q := b.queue) size
    (by rw [length_contents]; exact hsize.1)
  rw [← queue_advance b hsize.1] at hstep
  have hbounded := h.advance (Nat.pos_of_ne_zero hsize.2) size
  obtain rfl := Option.some.inj hb
  split_ifs
  · exact ⟨⟨_, hstep⟩, hbounded.postEvent .write⟩
  · exact ⟨⟨_, hstep⟩, hbounded⟩

theorem getReadData_refines (h : b.Bounded) :
    b.queue.Step .getReadData (.readData b.getReadData) [] [] b.queue := by
  by_cases hd : b.data_length = 0
  · have hnil : b.getReadData = [] := by
      rw [getReadData, hd, Nat.add_zero]
      by_cases hle : b.read_position ≤ b.buffer_length
      · rw [if_pos hle, Mem.read_zero]
      · rw [if_neg hle, Nat.sub_eq_zero_of_le (Nat.le_of_not_le hle), Mem.read_zero]
    rw [hnil]
    exact .getReadData [] List.nil_prefix fun hne => absurd (contents_eq_nil.mpr hd) hne
  · have hpos := h.position_of_data hd
    have hsize : (if b.read_position + b.data_length ≤ b.buffer_length then b.data_length
        else b.buffer_length - b.read_position) =
        min b.data_length (b.buffer_length - b.read_position) := by
      split_ifs <;> omega
    have hfront := front_eq h hd (Nat.le_refl b.data_length)
    rw [List.take_of_length_le (Nat.le_of_eq (length_contents b))] at hfront
    rw [getReadData, hsize]
    refine .getReadData _ ⟨_, hfront.symm⟩ fun _ hnil => ?_
    have hlen := congrArg List.length hnil
    rw [Mem.length_read, List.length_nil] at hlen
    omega

/-- The buffer after bytes were stored. -/
def store (b : FifoBuffer) (data : List Byte) : FifoBuffer :=
  { b with
    buffer := b.buffer.writeRing b.buffer_length
      ((b.read_position + b.data_length) % b.buffer_length) data
    data_length := b.data_length + data.length }

theorem queue_store (h : b.Bounded) (hcap : 0 < b.buffer_length) {data : List Byte}
    (hfit : b.data_length + data.length ≤ b.buffer_length) :
    (b.store data).queue = { b.queue with contents := b.queue.contents ++ data } := by
  rw [queue, queue]
  exact congrArg (ByteQueue.mk · b.buffer_length _)
    (Mem.ring_writeRing b.buffer (h.position_lt hcap) hfit)

theorem Bounded.store (h : b.Bounded) {data : List Byte}
    (hfit : b.data_length + data.length ≤ b.buffer_length) : (b.store data).Bounded :=
  ⟨hfit, h.position_lt, h.position_zero⟩

theorem write_refines (h : b.Bounded) (p : List Byte) :
    (∃ put, b.queue.Step (.write p) (.write (b.write p).1 (b.write p).2.1) put []
      (b.write p).2.2.queue) ∧ (b.write p).2.2.Bounded := by
  rw [write]
  by_cases hstate : b.state = .closed
  · simp only [if_pos hstate]
    exact ⟨⟨[], .writeClosed p (decide_eq_true hstate)⟩, h⟩
  simp only [if_neg hstate]
  have hopen : b.queue.closed = false := decide_eq_false hstate
  have hdata := h.data_le
  by_cases hfull : b.buffer_length - b.data_length = 0
  · simp only [if_pos hfull]
    refine ⟨⟨[], .writeFull p hopen ?_⟩, h⟩
    rw [length_contents]
    exact Nat.le_antisymm hdata (Nat.le_of_sub_eq_zero hfull)
  simp only [if_neg hfull]
  have hcap : 0 < b.buffer_length := by omega
  have hput : p.take (b.buffer_length - b.data_length) =
      p.take (min p.length (b.buffer_length - b.data_length)) := by
    rw [List.take_eq_take_min, Nat.min_comm]
  have hstep : b.queue.Step (.write p)
      (.write .success (min p.length (b.buffer_length - b.queue.contents.length)))
      (p.take (b.buffer_length - b.queue.contents.length)) []
      { b.queue with
        contents := b.queue.contents ++ p.take (b.buffer_length - b.queue.contents.length) } :=
    .write p hopen (by rw [length_contents]; exact Nat.lt_of_sub_ne_zero hfull)
  rw [length_contents, hput] at hstep
  generalize hcopy : min p.length (b.buffer_length - b.data_length) = copy at hstep ⊢
  have hlen : (p.take copy).length = copy := by
    rw [List.length_take]
    omega
  have hfit : b.data_length + (p.take copy).length ≤ b.buffer_length := by
    rw [hlen]
    omega
  -- the two parts that are copied are a write of the ring
  have hstore : { b with
      buffer := (b.buffer.write ((b.read_position + b.data_length) % b.buffer_length)
        (p.take (min copy (b.buffer_length -
          (b.read_position + b.data_length) % b.buffer_length)))).write 0
        ((p.drop (min copy (b.buffer_length -
          (b.read_position + b.data_length) % b.buffer_length))).take (copy -
          min copy (b.buffer_length - (b.read_position + b.data_length) % b.buffer_length)))
      data_length := b.data_length + copy } = b.store (p.take copy) := by
    rw [store, Mem.writeRing, hlen, List.take_take, List.drop_take,
      Nat.min_eq_left (Nat.min_le_left _ _)]
  rw [← queue_store h hcap hfit] at hstep
  rw [hstore]
  have hbounded := h.store hfit
  split_ifs
  · exact ⟨⟨_, hstep⟩, hbounded.postEvent .read⟩
  · exact ⟨⟨_, hstep⟩, hbounded⟩

theorem setCapacity_refines (h : b.Bounded) (size : ℕ) (storage : Mem) :
    b.queue.Step (.setCapacity size storage) (.setCapacity (b.setCapacity size storage).1) [] []
      (b.setCapacity size storage).2.queue ∧ (b.setCapacity size storage).2.Bounded := by
  rw [setCapacity]
  by_cases hsize : b.data_length > size
  · simp only [if_pos hsize]
    exact ⟨.noCapacity size storage (by rw [length_contents]; exact hsize), h⟩
  simp only [if_neg hsize]
  have hle : b.data_length ≤ size := Nat.not_lt.mp hsize
  have hstep := ByteQueue.Step.setCapacity (q := b.queue) size storage
    (by rw [length_contents]; exact hle)
  by_cases hsame : size = b.buffer_length
  · rw [if_neg (not_not.mpr hsame)]
    rw [hsame] at hstep ⊢
    exact ⟨hstep, h⟩
  rw [if_pos hsame]
  refine ⟨?_, hle, fun hpos => hpos, fun _ => rfl⟩
  generalize htail : min b.data_length (b.buffer_length - b.read_position) = tail_copy
  -- the new storage begins with the data
  have hcontents : ((storage.write 0 (b.buffer.read b.read_position tail_copy)).write tail_copy
      (b.buffer.read 0 (b.data_length - tail_copy))).ring size 0 b.data_length =
      b.queue.contents := by
    rw [Mem.ring_eq_read_of_le _ (by omega)]
    by_cases hd : b.data_length = 0
    · rw [hd, Mem.read_zero, contents_eq_nil.mpr hd]
    · have hfront := front_eq h hd (Nat.le_refl b.data_length)
      rw [List.take_of_length_le (Nat.le_of_eq (length_contents b)), htail] at hfront
      rw [hfront]
      have hread := Mem.read_write_write storage (b.buffer.read b.read_position tail_copy)
        (b.buffer.read 0 (b.data_length - tail_copy))
      rw [Mem.length_read, Mem.length_read, Nat.add_sub_cancel' (by omega)] at hread
      exact hread
  rw [← hcontents] at hstep
  exact hstep

/-- The calls that see a queue of bytes; the others give away the storage. -/
def IsQueueOp : FifoOp → Prop
  | .getWriteBuffer => False
  | .fill _ _ => False
  | .consumeWriteBuffer _ => False
  | _ => True

theorem step_refines (h : b.Bounded) {op : FifoOp} (hop : IsQueueOp op) {reply : FifoReply}
    (hs : b.step op = some (reply, b')) :
    (∃ put taken, b.queue.Step op reply put taken b'.queue) ∧ b'.Bounded := by
  cases op with
  | read bytes =>
    obtain ⟨hstep, hb⟩ := read_refines h bytes
    obtain ⟨rfl, rfl⟩ := Prod.mk.inj (Option.some.inj hs)
    exact ⟨⟨[], hstep⟩, hb⟩
  | write p =>
    obtain ⟨⟨put, hstep⟩, hb⟩ := write_refines h p
    obtain ⟨rfl, rfl⟩ := Prod.mk.inj (Option.some.inj hs)
    exact ⟨⟨put, [], hstep⟩, hb⟩
  | setCapacity size storage =>
    obtain ⟨hstep, hb⟩ := setCapacity_refines h size storage
    obtain ⟨rfl, rfl⟩ := Prod.mk.inj (Option.some.inj hs)
    exact ⟨⟨[], [], hstep⟩, hb⟩
  | getBuffered =>
    obtain ⟨rfl, rfl⟩ := Prod.mk.inj (Option.some.inj hs)
    have hstep := ByteQueue.Step.getBuffered (q := b.queue)
    rw [length_contents] at hstep
    exact ⟨⟨[], [], hstep⟩, h⟩
  | getReadData =>
    obtain ⟨rfl, rfl⟩ := Prod.mk.inj (Option.some.inj hs)
    exact ⟨⟨[], [], getReadData_refines h⟩, h⟩
  | consumeReadData size =>
    obtain ⟨c, hc, heq⟩ := Option.map_eq_some_iff.mp hs
    obtain ⟨rfl, rfl⟩ := Prod.mk.inj heq
    obtain ⟨hstep, hb⟩ := consumeReadData_refines h hc
    exact ⟨⟨[], hstep⟩, hb⟩
  | close =>
    obtain ⟨rfl, rfl⟩ := Prod.mk.inj (Option.some.inj hs)
    exact ⟨⟨[], [], .close⟩, h.data_le, h.position_lt, h.position_zero⟩
  | getWriteBuffer => exact hop.elim
  | fill position p => exact hop.elim
  | consumeWriteBuffer size => exact hop.elim

theorem run_refines {ops : List FifoOp} (h : b.Bounded) (hops : ∀ op ∈ ops, IsQueueOp op)
    {replies : List FifoReply} (hr : b.run ops = some (replies, b')) :
    (∃ puts takes, b.queue.Steps ops replies puts takes b'.queue) ∧ b'.Bounded := by
  induction ops generalizing b replies with
  | nil =>
    obtain ⟨rfl, rfl⟩ := Prod.mk.inj (Option.some.inj hr)
    exact ⟨⟨[], [], .nil _⟩, h⟩
  | cons op ops ih =>
    obtain ⟨hop, hops⟩ := List.forall_mem_cons.mp hops
    obtain ⟨reply, rest, c, hstep, hrun, rfl⟩ := run_cons hr
    obtain ⟨⟨put, taken, hfirst⟩, hc⟩ := step_refines h hop hstep
    obtain ⟨⟨puts, takes, hrest⟩, hb⟩ := ih hc hops hrun
    exact ⟨⟨_, _, .cons hfirst hrest⟩, hb⟩

theorem bounded_init (size : ℕ) (storage : Mem) : (init size storage).Bounded :=
  ⟨Nat.zero_le _, fun hpos => hpos, fun _ => rfl⟩

/-- What the buffer promises of any state of a run. -/
structure RefinesQueue (size : ℕ) (ops : List FifoOp) (replies : List FifoReply)
    (b : FifoBuffer) : Prop where
  /-- The bytes written are those taken and those that are there. -/
  queue : ∃ puts takes, (ByteQueue.empty size).Steps ops replies puts takes b.queue ∧
    puts = takes ++ b.queue.contents
  data_le : b.data_length ≤ b.buffer_length
  position_lt : 0 < b.buffer_length → b.read_position < b.buffer_length
  /-- The capacity is what is asked for, if the data fits. -/
  setCapacity : ∀ n storage, ((b.setCapacity n storage).1 = false ↔ n < b.data_length) ∧
    ((b.setCapacity n storage).1 = false → (b.setCapacity n storage).2 = b)
  eos : ∀ n, (b.read n).1 = .eos → b.state = .closed ∧ b.data_length = 0

/-- **The buffer is a bounded queue of bytes**, in any run of it. -/
theorem refines_queue (size : ℕ) (storage : Mem) (ops : List FifoOp)
    (hops : ∀ op ∈ ops, IsQueueOp op) {replies : List FifoReply}
    (hr : (init size storage).run ops = some (replies, b)) :
    b.RefinesQueue size ops replies := by
  obtain ⟨⟨puts, takes, hsteps⟩, hb⟩ := run_refines (bounded_init size storage) hops hr
  refine ⟨⟨puts, takes, hsteps, hsteps.conserves⟩, hb.data_le, hb.position_lt,
    fun n storage => ?_, fun n heos => ?_⟩
  · rw [FifoBuffer.setCapacity]
    by_cases hfit : b.data_length > n
    · rw [if_pos hfit]
      exact ⟨iff_of_true rfl hfit, fun _ => rfl⟩
    · rw [if_neg hfit]
      by_cases hsame : n ≠ b.buffer_length
      · rw [if_pos hsame]
        exact ⟨iff_of_false Bool.false_ne_true.symm hfit,
          fun hno => absurd hno Bool.false_ne_true.symm⟩
      · rw [if_neg hsame]
        exact ⟨iff_of_false Bool.false_ne_true.symm hfit, fun _ => rfl⟩
  · rw [read] at heos
    by_cases hd : b.data_length = 0
    · rw [if_pos hd] at heos
      by_cases hstate : b.state = .closed
      · exact ⟨hstate, hd⟩
      · rw [if_pos hstate] at heos
        cases heos
    · rw [if_neg hd] at heos
      cases heos

/-- Data that goes around the end of the storage, and a larger storage. -/
def wrappedRun : List FifoOp :=
  [.write [1, 2, 3], .read 2, .write [4, 5, 6], .getReadData, .setCapacity 8 fun _ => 0,
    .consumeReadData 2, .close, .read 9, .read 1]

theorem refines_queue_wrapped : ∃ replies b, (init 4 fun _ => 0).run wrappedRun =
    some (replies, b) ∧ b.RefinesQueue 4 wrappedRun replies := by
  have hops : ∀ op ∈ wrappedRun, IsQueueOp op := by
    simp [wrappedRun, IsQueueOp]
  exact ⟨_, _, rfl, refines_queue 4 _ wrappedRun hops rfl⟩

/-- **A capacity of 0** has no position below it. -/
theorem not_bounded_capacity_zero : ¬∀ (size : ℕ) (storage : Mem) (ops : List FifoOp)
    (replies : List FifoReply) (b : FifoBuffer), 1 ≤ size → (∀ op ∈ ops, IsQueueOp op) →
    (init size storage).run ops = some (replies, b) → b.read_position < b.buffer_length := by
  intro h
  have hzero := h 1 (fun _ => 0) [.setCapacity 0 fun _ => 0] _ _ (Nat.le_refl 1)
    (by simp [IsQueueOp]) rfl
  exact absurd hzero (Nat.lt_irrefl 0)

end FifoBuffer

end Jingle.Base
