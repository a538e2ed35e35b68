/-
Moving bytes from one stream to another.

`Flow` reads from the source until the buffer is full or the source has ended, writes all of
it to the sink, and begins again.  Either stream may interrupt it at any call; what has not
been written then is moved to the front of the buffer, and its length is stored for the next
call.

* `flow_returns` — a call returns if the source has finitely many bytes.
* **`flow_resumable`** — in any sequence of calls, interrupted wherever it may be, what the
  sink has accepted and what is left in the buffer are what the source has produced, and a
  call succeeds only at the end of the source, with everything accepted.
-/
import Jingle.Lib.Ring
import Jingle.Base.FifoBuffer

namespace Jingle.Base

/-- What the source and the sink of a flow do, in whatever state they are.  A transfer that
succeeds is of a positive number of bytes, and of no more than there are. -/
structure Ends (σ : Type) where
  read : σ → ℕ → StreamResult × List Byte × σ
  write : σ → List Byte → StreamResult × ℕ × σ
  read_length : ∀ s n, (read s n).1 = .success →
    0 < (read s n).2.1.length ∧ (read s n).2.1.length ≤ n
  write_count : ∀ s data, (write s data).1 = .success →
    0 < (write s data).2.1 ∧ (write s data).2.1 ≤ data.length

/-- The streams, and the buffer between them.  `data_len` is what the pointer of that name
points to, and `ended` tells whether the source has last answered `SR_EOS`. -/
structure Traffic (σ : Type) where
  streams : σ
  buffer : Mem
  data_len : Option ℕ
  produced : List Byte
  accepted : List Byte
  ended : Bool

/-- The variables of a call of `Flow`, which is in its second loop if it is `writing`. -/
structure FlowFrame (σ : Type) extends Traffic σ where
  read_pos : ℕ
  write_pos : ℕ
  end_of_stream : Bool
  writing : Bool

namespace FlowFrame

variable {σ : Type} {ends : Ends σ} {buffer_len : ℕ} {f g : FlowFrame σ} {t t' : Traffic σ}
  {result : StreamResult}

def start (t : Traffic σ) : FlowFrame σ where
  toTraffic := t
  read_pos := t.data_len.getD 0
  write_pos := 0
  end_of_stream := false
  writing := false

/-- The call leaves `n` bytes at the front of the buffer, if it was asked for their number. -/
def leave (f : FlowFrame σ) (n : ℕ) : Traffic σ :=
  { f.toTraffic with data_len := f.data_len.map fun _ => n }

/-- `memmove` of what has not been written. -/
def compact (f : FlowFrame σ) : FlowFrame σ :=
  if f.data_len.isSome ∧ f.write_pos > 0 then
    { f with buffer := f.buffer.move f.write_pos (f.read_pos - f.write_pos) }
  else f

/-- `source->Read(buffer + read_pos, buffer_len - read_pos, ...)`. -/
def readSource (ends : Ends σ) (buffer_len : ℕ) (f : FlowFrame σ) :
    FlowFrame σ ⊕ StreamResult × Traffic σ :=
  let answer := ends.read f.streams (buffer_len - f.read_pos)
  match answer.1 with
  | .eos => .inl { f with streams := answer.2.2, ended := true, end_of_stream := true }
  | .success => .inl { f with
      streams := answer.2.2
      ended := false
      buffer := f.buffer.write f.read_pos answer.2.1
      produced := f.produced ++ answer.2.1
      read_pos := f.read_pos + answer.2.1.length }
  | result =>
      .inr (result, { f with streams := answer.2.2, ended := false }.leave f.read_pos)

/-- `sink->Write(buffer + write_pos, read_pos - write_pos, ...)`. -/
def writeSink (ends : Ends σ) (f : FlowFrame σ) : FlowFrame σ ⊕ StreamResult × Traffic σ :=
  let data := f.buffer.read f.write_pos (f.read_pos - f.write_pos)
  let answer := ends.write f.streams data
  match answer.1 with
  | .success => .inl { f with
      streams := answer.2.2
      accepted := f.accepted ++ data.take answer.2.1
      write_pos := f.write_pos + answer.2.1 }
  | result =>
      .inr (result, { f with streams := answer.2.2 }.compact.leave (f.read_pos - f.write_pos))

/-- The test of a loop, and its body. -/
def step (ends : Ends σ) (buffer_len : ℕ) (f : FlowFrame σ) :
    FlowFrame σ ⊕ StreamResult × Traffic σ :=
  if f.writing then
    if f.write_pos < f.read_pos then f.writeSink ends
    else if f.end_of_stream then .inr (.success, f.leave 0)
    else .inl { f with read_pos := 0, writing := false }
  else if !f.end_of_stream ∧ f.read_pos < buffer_len then f.readSource ends buffer_len
  else .inl { f with write_pos := 0, writing := true }

/-- The loops, for a number of steps; `none` is a call that has not returned by then. -/
def loop (ends : Ends σ) (buffer_len : ℕ) : ℕ → FlowFrame σ → Option (StreamResult × Traffic σ)
  | 0, _ => none
  | n + 1, f =>
    match f.step ends buffer_len with
    | .inl g => loop ends buffer_len n g
    | .inr r => some r

end FlowFrame

open FlowFrame

/-- `Flow`, for a number of steps of its loops. -/
def flow {σ : Type} (ends : Ends σ) (buffer_len steps : ℕ) (t : Traffic σ) :
    Option (StreamResult × Traffic σ) :=
  (start t).loop ends buffer_len steps

namespace FlowFrame

variable {σ : Type} {ends : Ends σ} {buffer_len : ℕ} {f g : FlowFrame σ} {t t' : Traffic σ}
  {result : StreamResult}

/-! ### What is kept between the streams -/

/-- The first `n` bytes of the buffer are those that the sink has not accepted. -/
structure Carries (buffer_len : ℕ) (t : Traffic σ) : Prop where
  data_len : ∃ n ≤ buffer_len, t.data_len = some n ∧
    t.accepted ++ t.buffer.read 0 n = t.produced

/-- What a call of `Flow` still has to write. -/
def pending (f : FlowFrame σ) : List Byte :=
  if f.writing then f.buffer.read f.write_pos (f.read_pos - f.write_pos)
  else f.buffer.read 0 f.read_pos

/-- **The invariant of the loops.** -/
structure Sound (buffer_len : ℕ) (f : FlowFrame σ) : Prop where
  asked : f.data_len.isSome
  read_pos : f.read_pos ≤ buffer_len
  write_pos : f.writing = true → f.write_pos ≤ f.read_pos
  content : f.accepted ++ f.pending = f.produced
  ended : f.end_of_stream = true → f.ended = true

/-- What a return has to leave. -/
structure Returns (buffer_len : ℕ) (result : StreamResult) (t : Traffic σ) : Prop
    extends Carries buffer_len t where
  success : result = .success → t.ended = true ∧ t.accepted = t.produced

theorem sound_start (h : Carries buffer_len t) : (start t).Sound buffer_len := by
  obtain ⟨n, hn, hlen, hcontent⟩ := h.data_len
  have hpos : (start t).read_pos = n := by
    rw [start, hlen]
    rfl
  refine ⟨?_, hpos.trans_le hn, fun h => (Bool.false_ne_true h).elim, ?_,
    fun h => (Bool.false_ne_true h).elim⟩
  · rw [start, hlen]
    rfl
  · change t.accepted ++ t.buffer.read 0 (start t).read_pos = t.produced
    rw [hpos, hcontent]

theorem carries_leave {n : ℕ} (hasked : f.data_len.isSome) (hn : n ≤ buffer_len)
    (h : f.accepted ++ f.buffer.read 0 n = f.produced) : Carries buffer_len (f.leave n) := by
  obtain ⟨m, hm⟩ := Option.isSome_iff_exists.1 hasked
  refine ⟨n, hn, ?_, h⟩
  rw [leave, hm]
  rfl

theorem read_compact (hasked : f.data_len.isSome) :
    f.compact.buffer.read 0 (f.read_pos - f.write_pos) =
      f.buffer.read f.write_pos (f.read_pos - f.write_pos) := by
  rw [compact]
  split_ifs with hmove
  · refine List.map_congr_left fun i hi => ?_
    rw [Nat.zero_add]
    exact Mem.move_of_lt (List.mem_range.1 hi)
  · have hzero : f.write_pos = 0 := by
      by_contra hne
      exact hmove ⟨hasked, Nat.pos_of_ne_zero hne⟩
    rw [hzero]

theorem compact_fields (f : FlowFrame σ) : f.compact.data_len = f.data_len ∧
    f.compact.accepted = f.accepted ∧ f.compact.produced = f.produced := by
  rw [compact]
  split_ifs
  · exact ⟨rfl, rfl, rfl⟩
  · exact ⟨rfl, rfl, rfl⟩

/-- What a step of the loops may come to. -/
def Good (buffer_len : ℕ) : FlowFrame σ ⊕ StreamResult × Traffic σ → Prop
  | .inl f => f.Sound buffer_len
  | .inr r => Returns buffer_len r.1 r.2

theorem good_readSource (h : f.Sound buffer_len) (hwriting : f.writing = false)
    (hend : f.end_of_stream = false) : Good buffer_len (f.readSource ends buffer_len) := by
  have hcontent := h.content
  rw [pending, if_neg (by simp [hwriting])] at hcontent
  have hlength := ends.read_length f.streams (buffer_len - f.read_pos)
  have hread := h.read_pos
  rw [readSource]
  generalize ends.read f.streams (buffer_len - f.read_pos) = answer at hlength ⊢
  obtain ⟨result, data, streams⟩ := answer
  cases result with
  | eos => exact ⟨h.asked, h.read_pos, h.write_pos, h.content, fun _ => rfl⟩
  | success =>
    have hle := (hlength rfl).2
    refine ⟨h.asked, ?_, fun hw => absurd (hw.symm.trans hwriting) Bool.true_eq_false_eq_False,
      ?_, fun he => absurd (he.symm.trans hend) Bool.true_eq_false_eq_False⟩
    · dsimp only at hle ⊢
      omega
    · -- the new bytes stand behind those that were there
      rw [pending, if_neg (by simp [hwriting])]
      dsimp only
      rw [Mem.read_add, Nat.zero_add, Mem.read_write, Mem.read_write_of_disjoint _ (by omega),
        ← List.append_assoc, hcontent]
  | error => exact ⟨carries_leave h.asked h.read_pos hcontent, fun he => by cases he⟩
  | block => exact ⟨carries_leave h.asked h.read_pos hcontent, fun he => by cases he⟩

theorem good_writeSink (h : f.Sound buffer_len) (hwriting : f.writing = true) :
    Good buffer_len (f.writeSink ends) := by
  have hcontent := h.content
  rw [pending, if_pos hwriting] at hcontent
  have hwrite := h.write_pos hwriting
  have hread := h.read_pos
  have hcount := ends.write_count f.streams (f.buffer.read f.write_pos (f.read_pos - f.write_pos))
  -- an interrupted call leaves all that it has still to write
  have hstop : ∀ (result : StreamResult) (streams : σ), result ≠ .success →
      Returns buffer_len result
        ({ f with streams := streams }.compact.leave (f.read_pos - f.write_pos)) := by
    intro result streams hne
    obtain ⟨hlen, haccepted, hproduced⟩ := compact_fields { f with streams := streams }
    refine ⟨carries_leave ?_ (by omega) ?_, fun he => absurd he hne⟩
    · rw [hlen]
      exact h.asked
    · rw [haccepted, hproduced]
      exact (congrArg (f.accepted ++ ·)
        (read_compact (f := { f with streams := streams }) h.asked)).trans hcontent
  rw [writeSink]
  generalize ends.write f.streams _ = answer at hcount ⊢
  obtain ⟨result, count, streams⟩ := answer
  cases result with
  | success =>
    obtain ⟨-, hle⟩ := hcount rfl
    rw [Mem.length_read] at hle
    dsimp only at hle
    refine ⟨h.asked, h.read_pos, fun _ => ?_, ?_, h.ended⟩
    · dsimp only
      omega
    · rw [pending, if_pos hwriting]
      dsimp only
      rw [← hcontent, List.append_assoc]
      congr 1
      have hsplit : f.read_pos - f.write_pos =
          count + (f.read_pos - (f.write_pos + count)) := by omega
      rw [hsplit, Mem.read_add, List.take_left' (Mem.length_read ..)]
  | error => exact hstop .error streams (by decide)
  | block => exact hstop .block streams (by decide)
  | eos => exact hstop .eos streams (by decide)

theorem good_step (ends : Ends σ) (h : f.Sound buffer_len) : Good buffer_len (f.step ends buffer_len) := by
  rw [step]
  split_ifs with hwriting hmore hend hread
  · exact good_writeSink h hwriting
  · -- everything has been written, and the source has ended
    have hcontent := h.content
    rw [pending, if_pos hwriting, Nat.sub_eq_zero_of_le (Nat.not_lt.1 hmore)] at hcontent
    refine ⟨carries_leave h.asked (Nat.zero_le _) hcontent, fun _ => ⟨h.ended hend, ?_⟩⟩
    exact (List.append_nil _).symm.trans hcontent
  · have hcontent := h.content
    rw [pending, if_pos hwriting, Nat.sub_eq_zero_of_le (Nat.not_lt.1 hmore)] at hcontent
    exact ⟨h.asked, Nat.zero_le _, fun h => (Bool.false_ne_true h).elim, hcontent, h.ended⟩
  · exact good_readSource h (Bool.not_eq_true _ ▸ hwriting) (by simpa using hread.1)
  · have hcontent := h.content
    rw [pending, if_neg hwriting] at hcontent
    exact ⟨h.asked, h.read_pos, fun _ => Nat.zero_le _, hcontent, h.ended⟩

theorem returns_loop {steps : ℕ} (h : f.Sound buffer_len)
    (hr : f.loop ends buffer_len steps = some (result, t)) : Returns buffer_len result t := by
  induction steps generalizing f with
  | zero => cases hr
  | succ n ih =>
    have hgood := good_step ends h
    rw [loop] at hr
    rcases hstep : f.step ends buffer_len with g | r
    · rw [hstep] at hr hgood
      exact ih hgood hr
    · rw [hstep] at hr hgood
      obtain rfl := Option.some.inj hr
      exact hgood

/-! ### Calls return -/

/-- A bound on the bytes that the source still has. -/
structure Bound (ends : Ends σ) (left : σ → ℕ) : Prop where
  read : ∀ s n, left (ends.read s n).2.2 ≤ left s
  success : ∀ s n, (ends.read s n).1 = .success →
    left (ends.read s n).2.2 + (ends.read s n).2.1.length ≤ left s
  write : ∀ s data, left (ends.write s data).2.2 ≤ left s

/-- The steps that the loops may still take: the reads, each with a round of both loops to
follow, and the rest of this round. -/
def fuel (left : σ → ℕ) (buffer_len : ℕ) (f : FlowFrame σ) : ℕ :=
  left f.streams * (3 * buffer_len + 3) +
    if f.writing then f.read_pos - f.write_pos + if f.end_of_stream then 0 else 3
    else if f.end_of_stream then f.read_pos + 1 else 3 * f.read_pos + 2

theorem fuel_step {left : σ → ℕ} (hb : Bound ends left) (hpos : 0 < buffer_len)
    (hf : f.read_pos ≤ buffer_len) (hg : f.step ends buffer_len = .inl g) :
    g.fuel left buffer_len < f.fuel left buffer_len ∧ g.read_pos ≤ buffer_len := by
  rw [step] at hg
  split_ifs at hg with hwriting hmore hend hread
  · have hcount := ends.write_count f.streams
      (f.buffer.read f.write_pos (f.read_pos - f.write_pos))
    have hleft := hb.write f.streams (f.buffer.read f.write_pos (f.read_pos - f.write_pos))
    rw [writeSink] at hg
    generalize ends.write f.streams _ = answer at hcount hleft hg
    obtain ⟨result, count, streams⟩ := answer
    cases result with
    | success =>
      obtain rfl := Sum.inl.inj hg
      have hle := Nat.mul_le_mul_right (3 * buffer_len + 3) hleft
      have hone := (hcount rfl).1
      refine ⟨?_, hf⟩
      rw [fuel, fuel, if_pos hwriting, if_pos hwriting]
      dsimp only at hone hle ⊢
      omega
    | error => cases hg
    | block => cases hg
    | eos => cases hg
  · obtain rfl := Sum.inl.inj hg
    refine ⟨?_, Nat.zero_le _⟩
    rw [fuel, fuel, if_pos hwriting, if_neg hend, if_neg (by simp), if_neg hend]
    dsimp only
    omega
  · obtain ⟨hend, hlt⟩ := hread
    have hlength := ends.read_length f.streams (buffer_len - f.read_pos)
    have hleft := hb.read f.streams (buffer_len - f.read_pos)
    have hbytes := hb.success f.streams (buffer_len - f.read_pos)
    rw [Bool.not_eq_true'] at hend
    rw [readSource] at hg
    generalize ends.read f.streams (buffer_len - f.read_pos) = answer at hlength hleft hbytes hg
    obtain ⟨result, data, streams⟩ := answer
    cases result with
    | eos =>
      obtain rfl := Sum.inl.inj hg
      have hle := Nat.mul_le_mul_right (3 * buffer_len + 3) hleft
      refine ⟨?_, hf⟩
      rw [fuel, fuel, if_neg hwriting, if_neg hwriting, if_pos rfl, if_neg (by simp [hend])]
      dsimp only at hle ⊢
      omega
    | success =>
      obtain rfl := Sum.inl.inj hg
      obtain ⟨hone, hle⟩ := hlength rfl
      have hless : left streams + 1 ≤ left f.streams := by
        have hbytes := hbytes rfl
        dsimp only at hbytes hone
        omega
      have hmul := Nat.mul_le_mul_right (3 * buffer_len + 3) hless
      dsimp only at hle
      refine ⟨?_, ?_⟩
      · rw [fuel, fuel, if_neg hwriting, if_neg hwriting, if_neg (by simp [hend]),
          if_neg (by simp [hend])]
        rw [Nat.succ_mul] at hmul
        dsimp only
        omega
      · dsimp only
        omega
    | error => cases hg
    | block => cases hg
  · obtain rfl := Sum.inl.inj hg
    refine ⟨?_, hf⟩
    rw [fuel, fuel, if_pos rfl, if_neg hwriting]
    dsimp only
    by_cases hend : f.end_of_stream = true
    · rw [if_pos hend, if_pos hend]
      omega
    · have hfull : buffer_len ≤ f.read_pos := by
        by_contra hlt
        exact hread ⟨by simp [hend], Nat.not_le.1 hlt⟩
      rw [if_neg hend, if_neg hend]
      omega

theorem loop_returns {left : σ → ℕ} (hb : Bound ends left) (hpos : 0 < buffer_len) {n : ℕ}
    (hf : f.read_pos ≤ buffer_len) (hn : f.fuel left buffer_len < n) :
    (f.loop ends buffer_len n).isSome := by
  induction n generalizing f with
  | zero => exact absurd hn (Nat.not_lt_zero _)
  | succ n ih =>
    rw [loop]
    rcases hstep : f.step ends buffer_len with g | r
    · obtain ⟨hless, hg⟩ := fuel_step hb hpos hf hstep
      exact ih hg (by omega)
    · rfl

end FlowFrame

/-! ### Calls one after the other -/

/-- What a sequence of calls of `Flow` on a buffer comes to, from a buffer with some bytes in
front that count as produced.  Between two calls the streams go on by themselves. -/
inductive Flowed {σ : Type} (ends : Ends σ) (buffer_len : ℕ) : Traffic σ → Prop
  | start (streams : σ) (buffer : Mem) {n : ℕ} (hn : n ≤ buffer_len) :
      Flowed ends buffer_len ⟨streams, buffer, some n, buffer.read 0 n, [], false⟩
  | call {t t' : Traffic σ} {result : StreamResult} {steps : ℕ} (h : Flowed ends buffer_len t)
      (hcall : flow ends buffer_len steps t = some (result, t')) : Flowed ends buffer_len t'
  | idle {t : Traffic σ} (h : Flowed ends buffer_len t) (streams : σ) :
      Flowed ends buffer_len { t with streams := streams }

theorem returns_flow {σ : Type} {ends : Ends σ} {buffer_len steps : ℕ} {t t' : Traffic σ}
    {result : StreamResult} (h : Carries buffer_len t)
    (hcall : flow ends buffer_len steps t = some (result, t')) :
    Returns buffer_len result t' := returns_loop (sound_start h) hcall

theorem Flowed.carries {σ : Type} {ends : Ends σ} {buffer_len : ℕ} {t : Traffic σ}
    (h : Flowed ends buffer_len t) : Carries buffer_len t := by
  induction h with
  | start streams buffer hn => exact ⟨_, hn, rfl, List.nil_append _⟩
  | call h hcall ih => exact (returns_flow ih hcall).toCarries
  | idle h streams ih => exact ⟨ih.data_len⟩

theorem flow_returns {σ : Type} {ends : Ends σ} {buffer_len : ℕ} {t : Traffic σ} {left : σ → ℕ}
    (hb : Bound ends left) (hpos : 0 < buffer_len) (h : Flowed ends buffer_len t) :
    ∃ steps, (flow ends buffer_len steps t).isSome :=
  ⟨_, loop_returns hb hpos (sound_start h.carries).read_pos (Nat.lt_succ_self _)⟩

/-- **Nothing is lost**, wherever the calls are interrupted. -/
theorem flow_resumable {σ : Type} {ends : Ends σ} {buffer_len steps : ℕ} {t t' : Traffic σ}
    {result : StreamResult} (h : Flowed ends buffer_len t)
    (hcall : flow ends buffer_len steps t = some (result, t')) :
    (∃ n, t'.data_len = some n ∧ t'.accepted ++ t'.buffer.read 0 n = t'.produced) ∧
      (result = .success → t'.ended = true ∧ t'.accepted = t'.produced) := by
  have hreturns := returns_flow h.carries hcall
  obtain ⟨n, -, hlen, hcontent⟩ := hreturns.data_len
  exact ⟨⟨n, hlen, hcontent⟩, hreturns.success⟩

/-- A source that gives a byte at a time, and a sink that takes one at every other call. -/
def trickle : Ends (List Byte × Bool) where
  read s n :=
    match s.1 with
    | [] => (.eos, [], s)
    | b :: bs => if n = 0 then (.block, [], s) else (.success, [b], bs, s.2)
  write s data := if s.2 ∧ data ≠ [] then (.success, 1, s.1, false) else (.block, 0, s.1, true)
  read_length s n h := by
    obtain ⟨_ | ⟨b, bs⟩, ready⟩ := s
    · cases h
    · dsimp only at h ⊢
      split_ifs at h ⊢ with hn
      exact ⟨Nat.one_pos, Nat.pos_of_ne_zero hn⟩
  write_count s data h := by
    split_ifs at h ⊢ with hready
    exact ⟨Nat.one_pos, List.length_pos_of_ne_nil hready.2⟩

/-- Two bytes to come, and an empty buffer. -/
def twoBytes : Traffic (List Byte × Bool) :=
  ⟨([1, 2], true), fun _ => 0, some 0, [], [], false⟩

theorem flow_returns_twoBytes : ∃ steps, (flow trickle 4 steps twoBytes).isSome := by
  have hbound : Bound trickle fun s => s.1.length := by
    refine ⟨fun s n => ?_, fun s n => ?_, fun s data => ?_⟩
    · obtain ⟨_ | ⟨b, bs⟩, ready⟩ := s
      · exact le_rfl
      · rw [trickle]
        dsimp only
        split_ifs <;> simp
    · obtain ⟨_ | ⟨b, bs⟩, ready⟩ := s
      · exact nofun
      · rw [trickle]
        dsimp only
        split_ifs <;> simp
    · rw [trickle]
      dsimp only
      split_ifs <;> exact le_rfl
  exact flow_returns hbound (by decide) (.start ([1, 2], true) (fun _ => 0) (Nat.zero_le 4))

/-- A call that the sink interrupts. -/
theorem flow_resumable_twoBytes : ∃ result t, flow trickle 4 6 twoBytes = some (result, t) ∧
    (∃ n, t.data_len = some n ∧ t.accepted ++ t.buffer.read 0 n = t.produced) ∧
      (result = .success → t.ended = true ∧ t.accepted = t.produced) := by
  obtain ⟨⟨result, t⟩, hcall⟩ := Option.isSome_iff_exists.1
    (by decide +kernel : (flow trickle 4 6 twoBytes).isSome)
  exact ⟨result, t, hcall,
    flow_resumable (.start ([1, 2], true) (fun _ => 0) (Nat.zero_le 4)) hcall⟩

example : ((flow trickle 4 6 twoBytes).map fun r => (r.1, r.2.accepted, r.2.buffer.read 0 1)) =
    some (.block, [1], [2]) := by
  decide +kernel

end Jingle.Base
