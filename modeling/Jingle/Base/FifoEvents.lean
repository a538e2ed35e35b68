/-
The wake-ups of the circular buffer.

A call that finds the buffer full or empty is told when to come back: `woken_step` says
for every call that room in a full buffer, and data in an empty one, come with an event.
`SetCapacity` is the exception, since it posts nothing.

* `no_lost_wake_up` — **no reader and no writer waits in vain**, as long as no larger
  capacity is set while a writer waits.
* `not_wake_up_setCapacity` — a larger capacity is room of which nobody is told.
-/
import Jingle.Base.FifoBuffer

namespace Jingle.Base

namespace FifoBuffer

variable {b b' c d : FifoBuffer} {calm : Prop}

def Room (b : FifoBuffer) : Prop := b.data_length < b.buffer_length

/-- The call asks for a larger capacity. -/
def Grows (b : FifoBuffer) : FifoOp → Prop
  | .setCapacity size _ => b.buffer_length < size
  | _ => False

/-- What a call does to those who wait: to the writer only if it is `calm`. -/
structure Wakes (calm : Prop) (b b' : FifoBuffer) : Prop where
  posted : b.posted <+: b'.posted
  writer : calm → ¬b.Room → b'.Room → .write ∈ b'.posted.drop b.posted.length
  reader : b.data_length = 0 → b'.data_length ≠ 0 → .read ∈ b'.posted.drop b.posted.length

theorem Wakes.of_eq (hd : b'.data_length = b.data_length) (hl : b'.buffer_length = b.buffer_length)
    (hp : b'.posted = b.posted) : Wakes calm b b' := by
  refine ⟨hp ▸ List.prefix_rfl, fun _ hfull hroom => ?_, fun hzero hne => ?_⟩
  · rw [Room, hd, hl] at hroom
    exact absurd hroom hfull
  · exact absurd (hd.trans hzero) hne

theorem mem_posted (b : FifoBuffer) (e : StreamEvent) {k : ℕ} (hk : k = b.posted.length) :
    e ∈ (b.postEvent e).posted.drop k := by
  rw [hk]
  show e ∈ (b.posted ++ [e]).drop b.posted.length
  rw [List.drop_left]
  exact List.mem_singleton_self e

theorem Wakes.take {n : ℕ} (hd : c.data_length = b.data_length - n)
    (hl : c.buffer_length = b.buffer_length) (hp : c.posted = b.posted) :
    Wakes calm b (if ¬b.data_length < b.buffer_length ∧ n > 0 then c.postEvent .write else c) := by
  split_ifs with hpost
  · refine ⟨hp ▸ List.prefix_append _ _, fun _ _ _ => mem_posted c .write (hp ▸ rfl),
      fun hzero hne => ?_⟩
    refine absurd ?_ hne
    show c.data_length = 0
    rw [hd, hzero, Nat.zero_sub]
  · refine ⟨hp ▸ List.prefix_rfl, fun _ hfull hroom => ?_, fun hzero hne => ?_⟩
    · -- nothing was taken, so the buffer is as full as before
      rw [not_and] at hpost
      have hn : n = 0 := Nat.le_zero.mp (Nat.not_lt.mp (hpost hfull))
      rw [Room, hd, hl, hn, Nat.sub_zero] at hroom
      exact absurd hroom hfull
    · exact absurd (by rw [hd, hzero, Nat.zero_sub]) hne

theorem Wakes.put {n : ℕ} (hd : c.data_length = b.data_length + n)
    (hl : c.buffer_length = b.buffer_length) (hp : c.posted = b.posted) :
    Wakes calm b (if ¬b.data_length > 0 ∧ n > 0 then c.postEvent .read else c) := by
  have hno : ¬b.Room → ¬c.Room := by
    rw [Room, Room, hd, hl]
    omega
  split_ifs with hpost
  · exact ⟨hp ▸ List.prefix_append _ _, fun _ hfull hroom => absurd hroom (hno hfull),
      fun _ _ => mem_posted c .read (hp ▸ rfl)⟩
  · refine ⟨hp ▸ List.prefix_rfl, fun _ hfull hroom => absurd hroom (hno hfull),
      fun hzero hne => ?_⟩
    rw [not_and] at hpost
    have hn := hpost (Nat.not_lt.mpr (Nat.le_of_eq hzero))
    rw [hd, hzero] at hne
    omega

theorem wakes_read (b : FifoBuffer) (bytes : ℕ) : Wakes calm b (b.read bytes).2.2 := by
  rw [read]
  by_cases hd : b.data_length = 0
  · simp only [if_pos hd]
    exact .of_eq rfl rfl rfl
  · simp only [if_neg hd]
    exact Wakes.take (n := min bytes b.data_length) rfl rfl rfl

theorem wakes_write (b : FifoBuffer) (p : List Byte) : Wakes calm b (b.write p).2.2 := by
  rw [write]
  by_cases hstate : b.state = .closed
  · simp only [if_pos hstate]
    exact .of_eq rfl rfl rfl
  simp only [if_neg hstate]
  by_cases hfull : b.buffer_length - b.data_length = 0
  · simp only [if_pos hfull]
    exact .of_eq rfl rfl rfl
  · simp only [if_neg hfull]
    exact Wakes.put (n := min p.length (b.buffer_length - b.data_length)) rfl rfl rfl

theorem wakes_setCapacity (b : FifoBuffer) (size : ℕ) (storage : Mem) :
    Wakes (¬b.buffer_length < size) b (b.setCapacity size storage).2 := by
  rw [setCapacity]
  split_ifs with hfit hsame
  · exact .of_eq rfl rfl rfl
  · refine ⟨List.prefix_rfl, fun hsize hfull hroom => ?_, fun hzero hne => absurd hzero hne⟩
    have hlt : b.data_length < size := hroom
    exact absurd (Nat.lt_of_lt_of_le hlt (Nat.not_lt.mp hsize)) hfull
  · exact .of_eq rfl rfl rfl

theorem wakes_consumeReadData {size : ℕ} (hb : b.consumeReadData size = some b') :
    Wakes calm b b' := by
  rw [consumeReadData] at hb
  split_ifs at hb
  obtain rfl := Option.some.inj hb
  exact Wakes.take (n := size) rfl rfl rfl

theorem wakes_getWriteBuffer {place : Option (ℕ × ℕ)}
    (hb : b.getWriteBuffer = some (place, b')) : Wakes calm b b' := by
  rw [getWriteBuffer] at hb
  split_ifs at hb with hstate hcap hzero
  · obtain ⟨-, rfl⟩ := Prod.mk.inj (Option.some.inj hb)
    exact .of_eq rfl rfl rfl
  · obtain ⟨-, rfl⟩ := Prod.mk.inj (Option.some.inj hb)
    exact .of_eq rfl rfl rfl
  · obtain ⟨-, rfl⟩ := Prod.mk.inj (Option.some.inj hb)
    exact .of_eq rfl rfl rfl

theorem wakes_consumeWriteBuffer {size : ℕ} (hb : b.consumeWriteBuffer size = some b') :
    Wakes calm b b' := by
  rw [consumeWriteBuffer] at hb
  split_ifs at hb
  obtain rfl := Option.some.inj hb
  exact Wakes.put (n := size) rfl rfl rfl

theorem woken_step {op : FifoOp} {reply : FifoReply} (hs : b.step op = some (reply, b')) :
    Wakes (¬b.Grows op) b b' := by
  cases op with
  | read bytes =>
    obtain ⟨-, rfl⟩ := Prod.mk.inj (Option.some.inj hs)
    exact wakes_read b bytes
  | write p =>
    obtain ⟨-, rfl⟩ := Prod.mk.inj (Option.some.inj hs)
    exact wakes_write b p
  | setCapacity size storage =>
    obtain ⟨-, rfl⟩ := Prod.mk.inj (Option.some.inj hs)
    exact wakes_setCapacity b size storage
  | getBuffered =>
    obtain ⟨-, rfl⟩ := Prod.mk.inj (Option.some.inj hs)
    exact .of_eq rfl rfl rfl
  | getReadData =>
    obtain ⟨-, rfl⟩ := Prod.mk.inj (Option.some.inj hs)
    exact .of_eq rfl rfl rfl
  | consumeReadData size =>
    obtain ⟨c, hc, heq⟩ := Option.map_eq_some_iff.mp hs
    obtain ⟨-, rfl⟩ := Prod.mk.inj heq
    exact wakes_consumeReadData hc
  | close =>
    obtain ⟨-, rfl⟩ := Prod.mk.inj (Option.some.inj hs)
    exact .of_eq rfl rfl rfl
  | getWriteBuffer =>
    obtain ⟨r, hr, heq⟩ := Option.map_eq_some_iff.mp hs
    obtain ⟨-, rfl⟩ := Prod.mk.inj heq
    exact wakes_getWriteBuffer hr
  | fill position p =>
    rw [step] at hs
    split_ifs at hs
    obtain ⟨-, rfl⟩ := Prod.mk.inj (Option.some.inj hs)
    exact .of_eq rfl rfl rfl
  | consumeWriteBuffer size =>
    obtain ⟨c, hc, heq⟩ := Option.map_eq_some_iff.mp hs
    obtain ⟨-, rfl⟩ := Prod.mk.inj heq
    exact wakes_consumeWriteBuffer hc

/-! ### Every run -/

/-- While no event tells the writer of room, nobody asks for a larger capacity; the `k`
events before were posted earlier. -/
def Unhurried (k : ℕ) : FifoBuffer → List FifoOp → Prop
  | _, [] => True
  | b, op :: ops => (.write ∉ b.posted.drop k → ¬b.Grows op) ∧
    ∀ reply c, b.step op = some (reply, c) → Unhurried k c ops

theorem Wakes.kept (h : Wakes calm b b') {k : ℕ} {e : StreamEvent} (he : e ∈ b.posted.drop k) :
    e ∈ b'.posted.drop k := by
  obtain ⟨more, hmore⟩ := h.posted
  rw [← hmore, List.drop_append]
  exact List.mem_append_left _ he

theorem writer_woken {ops : List FifoOp} {k : ℕ} (hk : k ≤ b.posted.length)
    (h : .write ∈ b.posted.drop k ∨ ¬b.Room) (hu : b.Unhurried k ops) {replies : List FifoReply}
    (hr : b.run ops = some (replies, d)) : .write ∈ d.posted.drop k ∨ ¬d.Room := by
  induction ops generalizing b replies with
  | nil =>
    obtain ⟨-, rfl⟩ := Prod.mk.inj (Option.some.inj hr)
    exact h
  | cons op ops ih =>
    obtain ⟨reply, rest, c, hstep, hrun, -⟩ := run_cons hr
    have hwakes := woken_step hstep
    refine ih (Nat.le_trans hk hwakes.posted.length_le) ?_ (hu.2 reply c hstep) hrun
    by_cases hposted : .write ∈ b.posted.drop k
    · exact .inl (hwakes.kept hposted)
    by_cases hroom : c.Room
    · have hnow := hwakes.writer (hu.1 hposted) (h.resolve_left hposted) hroom
      exact .inl (List.drop_subset_drop_left _ hk hnow)
    · exact .inr hroom

theorem reader_woken {ops : List FifoOp} {k : ℕ} (hk : k ≤ b.posted.length)
    (h : .read ∈ b.posted.drop k ∨ b.data_length = 0) {replies : List FifoReply}
    (hr : b.run ops = some (replies, d)) : .read ∈ d.posted.drop k ∨ d.data_length = 0 := by
  induction ops generalizing b replies with
  | nil =>
    obtain ⟨-, rfl⟩ := Prod.mk.inj (Option.some.inj hr)
    exact h
  | cons op ops ih =>
    obtain ⟨reply, rest, c, hstep, hrun, -⟩ := run_cons hr
    have hwakes := woken_step hstep
    refine ih (Nat.le_trans hk hwakes.posted.length_le) ?_ hrun
    rcases h with hposted | hzero
    · exact .inl (hwakes.kept hposted)
    by_cases hdata : c.data_length = 0
    · exact .inr hdata
    · exact .inl (List.drop_subset_drop_left _ hk (hwakes.reader hzero hdata))

theorem write_blocks {p : List Byte} (h : (b.write p).1 = .block) :
    ¬b.Room ∧ (b.write p).2.2 = b := by
  rw [write] at h ⊢
  by_cases hstate : b.state = .closed
  · rw [if_pos hstate] at h
    cases h
  rw [if_neg hstate] at h ⊢
  by_cases hfull : b.buffer_length - b.data_length = 0
  · simp only [if_pos hfull]
    exact ⟨Nat.not_lt.mpr (Nat.le_of_sub_eq_zero hfull), trivial⟩
  · simp only [if_neg hfull] at h
    cases h

theorem read_blocks {n : ℕ} (h : (b.read n).1 = .block) :
    b.data_length = 0 ∧ (b.read n).2.2 = b := by
  rw [read] at h ⊢
  by_cases hd : b.data_length = 0
  · simp only [if_pos hd]
    exact ⟨hd, trivial⟩
  · simp only [if_neg hd] at h
    cases h

/-- A call that blocked is told when to come back: whatever the calls after it. -/
structure NoLostWakeUp (c : FifoBuffer) (after : List FifoOp) (d : FifoBuffer) : Prop where
  write : ∀ p, (c.write p).1 = .block → (∃ replies, (c.write p).2.2.run after = some (replies, d)) →
    d.data_length < d.buffer_length → .write ∈ d.posted.drop (c.write p).2.2.posted.length
  read : ∀ n, (c.read n).1 = .block → (∃ replies, (c.read n).2.2.run after = some (replies, d)) →
    d.data_length ≠ 0 → .read ∈ d.posted.drop (c.read n).2.2.posted.length

/-- **No wake-up is lost**, in any state and whatever follows, if no larger capacity is set
while a writer waits. -/
theorem no_lost_wake_up (c : FifoBuffer) (after : List FifoOp) (d : FifoBuffer)
    (hu : c.Unhurried c.posted.length after) : c.NoLostWakeUp after d := by
  refine ⟨fun p hblock hrun hroom => ?_, fun n hblock hrun hdata => ?_⟩
  · obtain ⟨hfull, hsame⟩ := write_blocks hblock
    rw [hsame] at hrun ⊢
    obtain ⟨r, hrun⟩ := hrun
    exact (writer_woken (Nat.le_refl _) (.inr hfull) hu hrun).resolve_right (not_not.mpr hroom)
  · obtain ⟨hzero, hsame⟩ := read_blocks hblock
    rw [hsame] at hrun ⊢
    obtain ⟨r, hrun⟩ := hrun
    exact (reader_woken (Nat.le_refl _) (.inr hzero) hrun).resolve_right hdata

/-- A buffer that a byte fills. -/
def fullBuffer : FifoBuffer := ((init 1 fun _ => 0).write [7]).2.2

theorem no_lost_wake_up_full :
    fullBuffer.NoLostWakeUp [.read 1, .setCapacity 2 fun _ => 0] (fullBuffer.read 1).2.2 := by
  refine no_lost_wake_up _ _ _ ⟨fun _ => id, fun reply c hstep => ⟨fun hno => ?_, ?_⟩⟩
  · obtain ⟨-, rfl⟩ := Prod.mk.inj (Option.some.inj hstep)
    exact absurd (by decide) hno
  · exact fun _ _ _ => trivial

/-- **A larger capacity is room** of which a writer that was blocked is not told. -/
theorem not_wake_up_setCapacity : ¬∀ (size : ℕ) (storage : Mem) (before after : List FifoOp)
    (replies : List FifoReply) (c d : FifoBuffer),
    (init size storage).run before = some (replies, c) → c.NoLostWakeUp after d := by
  intro h
  have hlost := (h 1 (fun _ => 0) [.write [7]] [.setCapacity 2 fun _ => 0] _ fullBuffer
    (fullBuffer.setCapacity 2 fun _ => 0).2 rfl).write [7] rfl ⟨_, rfl⟩ (by decide)
  exact absurd hlost (by decide)

end FifoBuffer

end Jingle.Base
