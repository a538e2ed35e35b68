/-
The adapter that reads ahead of its user.

While a proxy handshake goes on, the adapter reads the socket into a buffer of
its own and offers the buffer to `ProcessInput`, which takes a prefix.  When the
handshake is over the buffer is what `Recv` serves first, with a read of the
socket for the rest.

* `conserved_iff` — **no byte is lost, repeated or moved** in a run exactly when no
  step of it is lossy: no `Recv` that has served bytes of the buffer meets an error
  of the socket, and no read event meets a full buffer.
* `not_conserves_failed_read` — a `Recv` whose second read would block has dropped
  what it took from the buffer.
-/
import Jingle.Lib.Word

namespace Jingle.Proxy

/-! ### The adapter and its socket -/

/-- The bytes in front of the socket's reader.  They leave by `Recv` only. -/
abbrev Incoming := List Byte

/-- `Recv` of the socket below: an error, or as many bytes as it chooses among
those that have arrived, `cb` at most. -/
def Incoming.recv (socket : Incoming) (cb : ℕ) : Option ℕ → Option (List Byte) × Incoming
  | none => (none, socket)
  | some n => (some (socket.take (min n cb)), socket.drop (min n cb))

structure BufferedReadAdapter where
  /-- The first `data_len_` bytes of the buffer. -/
  buffer : List Byte
  bufferSize : ℕ
  buffering : Bool

namespace BufferedReadAdapter

def dataLen (a : BufferedReadAdapter) : ℕ := a.buffer.length

def create (size : ℕ) : BufferedReadAdapter := ⟨[], size, false⟩

def bufferInput (a : BufferedReadAdapter) (on : Bool) : BufferedReadAdapter :=
  { a with buffering := on }

/-- `Recv`: what the buffer holds first, then a read of the socket.  The result of
the whole is that of the second read when this is an error. -/
def recv (a : BufferedReadAdapter) (socket : Incoming) (cb : ℕ) (res : Option ℕ) :
    BufferedReadAdapter × Incoming × Option (List Byte) :=
  if a.buffering then (a, socket, none)
  else
    let read := min cb a.dataLen
    let below := socket.recv (cb - read) res
    ({ a with buffer := a.buffer.drop read }, below.2,
      below.1.map fun bytes => a.buffer.take read ++ bytes)

/-- The buffer a read event starts from: a full one is thrown away. -/
def room (a : BufferedReadAdapter) : BufferedReadAdapter :=
  if a.bufferSize ≤ a.dataLen then { a with buffer := [] } else a

/-- `OnReadEvent`, up to the call of `ProcessInput`, which is made when the last
part of the result says so. -/
def onReadEvent (a : BufferedReadAdapter) (socket : Incoming) (res : Option ℕ) :
    BufferedReadAdapter × Incoming × Bool :=
  if a.buffering then
    let a := a.room
    match socket.recv (a.bufferSize - a.dataLen) res with
    | (none, socket) => (a, socket, false)
    | (some bytes, socket) => ({ a with buffer := a.buffer ++ bytes }, socket, true)
  else (a, socket, false)

/-- What `ProcessInput` leaves when it consumes `k` bytes. -/
def consume (a : BufferedReadAdapter) (k : ℕ) : BufferedReadAdapter :=
  { a with buffer := a.buffer.drop k }

end BufferedReadAdapter

/-! ### Runs -/

/-- Who has a byte that left the adapter. -/
inductive Taker
  | handshake
  | caller
  deriving DecidableEq, Repr

/-- The adapter, its socket, everything that arrived and everything that left. -/
structure Reading where
  adapter : BufferedReadAdapter
  socket : Incoming
  arrived : List Byte
  left : List (Taker × Byte)

inductive ReadingEvent
  /-- Bytes arrive at the socket. -/
  | arrive (bytes : List Byte)
  | bufferInput (on : Bool)
  /-- The socket is readable; of the bytes then buffered `ProcessInput` takes `k`. -/
  | readEvent (res : Option ℕ) (k : ℕ)
  /-- The user of the adapter reads. -/
  | recv (cb : ℕ) (res : Option ℕ)

namespace Reading

def start (size : ℕ) : Reading := ⟨.create size, [], [], []⟩

/-- The bytes were handed to someone. -/
def give (r : Reading) (taker : Taker) (bytes : List Byte) : Reading :=
  { r with left := r.left ++ bytes.map (taker, ·) }

def step (r : Reading) : ReadingEvent → Reading
  | .arrive bytes => { r with socket := r.socket ++ bytes, arrived := r.arrived ++ bytes }
  | .bufferInput on => { r with adapter := r.adapter.bufferInput on }
  | .readEvent res k =>
    match r.adapter.onReadEvent r.socket res with
    | (a, socket, false) => { r with adapter := a, socket := socket }
    | (a, socket, true) =>
      { r with adapter := a.consume k, socket := socket }.give .handshake (a.buffer.take k)
  | .recv cb res =>
    match r.adapter.recv r.socket cb res with
    | (a, socket, none) => { r with adapter := a, socket := socket }
    | (a, socket, some bytes) => { r with adapter := a, socket := socket }.give .caller bytes

def run (r : Reading) (es : List ReadingEvent) : Reading := es.foldl step r

/-- **Conservation**: what left, what is buffered and what waits in the socket are
together what arrived, in its order, and the buffer is within its size. -/
def Conserves (r : Reading) : Prop :=
  r.left.map (·.2) ++ r.adapter.buffer ++ r.socket = r.arrived ∧
    r.adapter.dataLen ≤ r.adapter.bufferSize

/-- The steps that drop bytes: a read that takes from the buffer and then fails, and
a read event with a full buffer. -/
def Lossy (r : Reading) : ReadingEvent → Prop
  | .recv cb none => r.adapter.buffering = false ∧ 0 < min cb r.adapter.dataLen
  | .readEvent _ _ => r.adapter.buffering = true ∧ 0 < r.adapter.dataLen ∧
      r.adapter.bufferSize ≤ r.adapter.dataLen
  | _ => False

/-- No step of a run is lossy. -/
def Lossless : Reading → List ReadingEvent → Prop
  | _, [] => True
  | r, e :: es => ¬r.Lossy e ∧ Lossless (r.step e) es

/-- How many bytes are accounted for. -/
def held (r : Reading) : ℕ :=
  r.left.length + r.adapter.buffer.length + r.socket.length

/-! ### One step -/

variable {r : Reading} {e : ReadingEvent}

@[simp] theorem give_bytes (r : Reading) (taker : Taker) (bytes : List Byte) :
    (r.give taker bytes).left.map (·.2) = r.left.map (·.2) ++ bytes := by
  simp [give, Function.comp_def]

theorem start_conserves (size : ℕ) : (start size).Conserves :=
  ⟨rfl, Nat.zero_le size⟩

/-- A read of the socket behind a prefix of the buffer continues the buffer: it
reads nothing while the buffer still holds something. -/
theorem take_take_append (buffer socket : List Byte) (cb n : ℕ) :
    let read := min cb buffer.length
    let m := min n (cb - read)
    (buffer.take read ++ socket.take m) ++ (buffer.drop read ++ socket.drop m) =
      buffer ++ socket := by
  intro read m
  by_cases hcb : cb ≤ buffer.length
  · have hm : m = 0 := by omega
    rw [hm, List.take_zero, List.append_nil, List.drop_zero, ← List.append_assoc,
      List.take_append_drop]
  · have hread : read = buffer.length := by omega
    rw [hread, List.take_length, List.drop_length, List.nil_append, List.append_assoc,
      List.take_append_drop]

theorem length_room (a : BufferedReadAdapter) : a.room.buffer.length ≤ a.buffer.length := by
  rw [BufferedReadAdapter.room]
  split_ifs
  · exact Nat.zero_le _
  · exact le_refl _

theorem room_eq_self (hb : r.adapter.buffering = true) {res : Option ℕ} {k : ℕ}
    (hl : ¬r.Lossy (.readEvent res k)) : r.adapter.room = r.adapter := by
  rw [BufferedReadAdapter.room]
  split_ifs with hfull
  · have hnil : r.adapter.buffer = [] := by
      rw [← List.length_eq_zero_iff]
      by_contra hne
      exact hl ⟨hb, Nat.pos_of_ne_zero hne, hfull⟩
    rw [← hnil]
  · rfl

theorem readEvent_conserves {res : Option ℕ} {k : ℕ} (h : r.Conserves)
    (hl : ¬r.Lossy (.readEvent res k)) : (r.step (.readEvent res k)).Conserves := by
  obtain ⟨heq, hle⟩ := h
  cases hb : r.adapter.buffering with
  | false =>
    rw [step, BufferedReadAdapter.onReadEvent, hb]
    exact ⟨heq, hle⟩
  | true =>
    have hroom := room_eq_self hb hl
    cases res with
    | none =>
      simp only [step, BufferedReadAdapter.onReadEvent, hb, hroom, if_true, Incoming.recv]
      exact ⟨heq, hle⟩
    | some n =>
      simp only [step, BufferedReadAdapter.onReadEvent, hb, hroom, if_true, Incoming.recv]
      refine ⟨?_, ?_⟩
      · rw [give_bytes, ← heq]
        simp only [give, BufferedReadAdapter.consume, List.append_assoc, List.append_cancel_left_eq]
        rw [← List.append_assoc, List.take_append_drop, List.append_assoc, List.take_append_drop]
      · simp only [give, BufferedReadAdapter.consume, BufferedReadAdapter.dataLen,
          List.length_drop, List.length_append, List.length_take] at hle ⊢
        omega

theorem recv_conserves {cb : ℕ} {res : Option ℕ} (h : r.Conserves)
    (hl : ¬r.Lossy (.recv cb res)) : (r.step (.recv cb res)).Conserves := by
  obtain ⟨heq, hle⟩ := h
  cases hb : r.adapter.buffering with
  | true =>
    simp only [step, BufferedReadAdapter.recv, hb, if_true]
    exact ⟨heq, hle⟩
  | false =>
    cases res with
    | none =>
      simp only [step, BufferedReadAdapter.recv, hb, Bool.false_eq_true, if_false, Incoming.recv,
        Option.map_none]
      have hread : min cb r.adapter.dataLen = 0 := by
        by_contra hne
        exact hl ⟨hb, Nat.pos_of_ne_zero hne⟩
      simp only [hread, List.drop_zero]
      exact ⟨heq, hle⟩
    | some n =>
      simp only [step, BufferedReadAdapter.recv, hb, Bool.false_eq_true, if_false, Incoming.recv,
        Option.map_some]
      refine ⟨?_, ?_⟩
      · rw [give_bytes, ← heq, List.append_assoc, List.append_assoc, List.append_assoc]
        exact congrArg _ (take_take_append r.adapter.buffer r.socket cb n)
      · simp only [give, BufferedReadAdapter.dataLen, List.length_drop] at hle ⊢
        omega

theorem step_conserves (h : r.Conserves) (hl : ¬r.Lossy e) : (r.step e).Conserves := by
  cases e with
  | arrive bytes => exact ⟨by simp [step, ← h.1], h.2⟩
  | bufferInput on => exact h
  | readEvent res k => exact readEvent_conserves h hl
  | recv cb res => exact recv_conserves h hl

/-! ### Whole runs -/

theorem step_held (r : Reading) (e : ReadingEvent) :
    (r.step e).held + r.arrived.length ≤ r.held + (r.step e).arrived.length ∧
      (r.Lossy e → (r.step e).held + r.arrived.length < r.held + (r.step e).arrived.length) := by
  cases e with
  | arrive bytes =>
    refine ⟨?_, fun h => h.elim⟩
    simp only [step, held, List.length_append]
    omega
  | bufferInput on => exact ⟨le_refl _, fun h => h.elim⟩
  | readEvent res k =>
    cases hb : r.adapter.buffering with
    | false =>
      rw [step, BufferedReadAdapter.onReadEvent, hb]
      exact ⟨le_refl _, fun h => absurd (hb.symm.trans h.1) Bool.false_ne_true⟩
    | true =>
      -- the buffer that the event starts from is no longer than the old one
      have hroom := length_room r.adapter
      have hfull : r.Lossy (.readEvent res k) → r.adapter.room.buffer.length = 0 := by
        rintro ⟨-, -, hfull⟩
        rw [BufferedReadAdapter.room, if_pos hfull]
        rfl
      have hpos : r.Lossy (.readEvent res k) → 0 < r.adapter.buffer.length := fun h => h.2.1
      cases res with
      | none =>
        simp only [step, BufferedReadAdapter.onReadEvent, hb, if_true, Incoming.recv, held]
        exact ⟨by omega, fun h => by have h₁ := hfull h; have h₂ := hpos h; omega⟩
      | some n =>
        simp only [step, BufferedReadAdapter.onReadEvent, hb, if_true, Incoming.recv, held, give,
          BufferedReadAdapter.consume, List.length_append, List.length_map, List.length_take,
          List.length_drop]
        exact ⟨by omega, fun h => by have h₁ := hfull h; have h₂ := hpos h; omega⟩
  | recv cb res =>
    cases hb : r.adapter.buffering with
    | true =>
      have hl : ¬r.Lossy (.recv cb res) := by
        cases res with
        | none => exact fun h => absurd (hb.symm.trans h.1) (by decide)
        | some n => exact fun h => h
      simp only [step, BufferedReadAdapter.recv, hb, if_true]
      exact ⟨le_refl _, fun h => absurd h hl⟩
    | false =>
      cases res with
      | none =>
        simp only [step, BufferedReadAdapter.recv, hb, Bool.false_eq_true, if_false,
          Incoming.recv, Option.map_none, held, BufferedReadAdapter.dataLen, List.length_drop]
        refine ⟨by omega, fun h => ?_⟩
        have hread : 0 < min cb r.adapter.buffer.length := h.2
        omega
      | some n =>
        simp only [step, BufferedReadAdapter.recv, hb, Bool.false_eq_true, if_false,
          Incoming.recv, Option.map_some, held, give, BufferedReadAdapter.dataLen,
          List.length_append, List.length_map, List.length_take, List.length_drop]
        exact ⟨by omega, fun h => h.elim⟩

/-- Some byte that arrived is nowhere. -/
def Short (r : Reading) : Prop := r.held < r.arrived.length

theorem conserves_held (h : r.Conserves) : r.held = r.arrived.length := by
  have hlen := congrArg List.length h.1
  rw [List.length_append, List.length_append, List.length_map] at hlen
  exact hlen

theorem run_cons (r : Reading) (e : ReadingEvent) (es : List ReadingEvent) :
    r.run (e :: es) = (r.step e).run es := rfl

theorem run_short (es : List ReadingEvent) (h : r.Short) : (r.run es).Short := by
  induction es generalizing r with
  | nil => exact h
  | cons e es ih =>
    rw [run_cons]
    apply ih
    have hstep := (step_held r e).1
    simp only [Short] at h ⊢
    omega

theorem run_conserves_iff (es : List ReadingEvent) (h : r.Conserves) :
    (r.run es).Conserves ↔ Lossless r es := by
  induction es generalizing r with
  | nil => exact iff_of_true h trivial
  | cons e es ih =>
    rw [run_cons, Lossless]
    by_cases hl : r.Lossy e
    · -- the bytes that this step drops are missing to the end
      have hshort : (r.step e).Short := by
        have hstep := (step_held r e).2 hl
        have hheld := conserves_held h
        simp only [Short]
        omega
      refine iff_of_false (fun hc => ?_) (fun hc => hc.1 hl)
      have hend := run_short es hshort
      rw [Short, conserves_held hc] at hend
      exact absurd hend (Nat.lt_irrefl _)
    · rw [ih (step_conserves h hl), and_iff_right hl]

/-- **The stream is conserved exactly in the lossless runs.** -/
theorem conserved_iff (size : ℕ) (es : List ReadingEvent) :
    ((start size).run es).Conserves ↔ Lossless (start size) es :=
  run_conserves_iff es (start_conserves size)

/-- **A `Recv` that would block halfway** drops what it took from the buffer: the
handshake left one byte behind, the caller asks for more, and the socket has none. -/
theorem not_conserves_failed_read :
    ¬∀ (size : ℕ) (es : List ReadingEvent), ((start size).run es).Conserves := by
  intro h
  have hrun := (h 1024 [.bufferInput true, .arrive [5#8, 0#8, 65#8], .readEvent (some 3) 2,
    .bufferInput false, .recv 100 none]).1
  exact absurd hrun (by decide)

end Reading

end Jingle.Proxy
