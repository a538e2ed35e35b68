/-
The rate limits of the tasks.

`RateLimit` keeps the times of the last `max_count` events in a buffer that begins with zeros,
and allows an event when the time that is next in the buffer is at least `per_x_seconds` ago,
in the arithmetic of a clock of 32 bits.

The rule that this is for is `allowed`: an event is allowed when fewer than `max_count` were in
the last seconds.  As long as the buffer is not full the clock is compared with zero, and once
it is full an event of half a round of the clock ago is in the future:

* **`limited_iff`** — the calls of a run are told what the rule says just when the clock is
  `Readable` at each of them.
* `not_limited_half` — on a clock in the wrong half of its round the second of two is denied.
-/
import Jingle.Base.QueueRun
import Jingle.Lib.Window

namespace Jingle.Xmpp

open Base (clockWord)

/-! ### The limit of one event -/

structure RateLimit where
  event_times : List Word
  counter : ℕ
  per_x_seconds : ℤ
  counter_lt : counter < event_times.length

namespace RateLimit

/-- `max_count_`, the size of the buffer. -/
def max_count (r : RateLimit) : ℕ := r.event_times.length

/-- The constructor. -/
def new (max : ℕ) (per_x_secs : ℤ) (hmax : 0 < max) : RateLimit where
  event_times := List.replicate max 0#32
  counter := 0
  per_x_seconds := per_x_secs
  counter_lt := by rwa [List.length_replicate]

def previousTimeAtCounter (r : RateLimit) : Word := r.event_times.get ⟨r.counter, r.counter_lt⟩

def kSecToMsec : ℤ := 1000

/-- `NextTimeAllowedForCounter`: the sum of 64 bits is cut to a word. -/
def nextTimeAllowedForCounter (r : RateLimit) : Word :=
  BitVec.ofInt 32 (r.previousTimeAtCounter.toNat + r.per_x_seconds * kSecToMsec)

def isWithinRateLimit (r : RateLimit) (now : Word) : Bool :=
  0 ≤ Base.timeDiff now r.nextTimeAllowedForCounter

def updateRateLimit (r : RateLimit) (now : Word) : RateLimit where
  event_times := r.event_times.set r.counter now
  counter := (r.counter + 1) % r.max_count
  per_x_seconds := r.per_x_seconds
  counter_lt := by
    rw [List.length_set]
    exact Nat.mod_lt _ (Nat.zero_lt_of_lt r.counter_lt)

/-- The times of the events that were allowed, the latest first, are in the buffer. -/
structure Records (r : RateLimit) (max : ℕ) (per_x_seconds : ℤ) (times : List ℕ) : Prop where
  max_count : r.max_count = max
  per_x_seconds : r.per_x_seconds = per_x_seconds
  latest : Latest r.event_times r.counter (times.map clockWord) 0#32

variable {r : RateLimit} {max : ℕ} {per_x_seconds : ℤ} {times : List ℕ}

theorem records_new (hmax : 0 < max) : (new max per_x_seconds hmax).Records max per_x_seconds [] :=
  ⟨List.length_replicate, rfl, Latest.replicate max 0#32⟩

theorem Records.update (h : r.Records max per_x_seconds times) (time : ℕ) :
    (r.updateRateLimit (clockWord time)).Records max per_x_seconds (time :: times) where
  max_count := by
    rw [RateLimit.max_count, updateRateLimit, List.length_set]
    exact h.max_count
  per_x_seconds := h.per_x_seconds
  latest := h.latest.push r.counter_lt (clockWord time)

theorem Records.previousTime (h : r.Records max per_x_seconds times) :
    r.previousTimeAtCounter = (times.map clockWord).getD (max - 1) 0#32 := by
  have holdest := h.latest.oldest r.counter_lt
  have hmax : r.event_times.length = max := h.max_count
  rw [List.getElem?_eq_getElem r.counter_lt, Option.some.injEq, hmax] at holdest
  exact holdest

end RateLimit

/-! ### The comparison -/

theorem timeDiff_nonneg_iff (later earlier : ℤ) :
    0 ≤ Base.timeDiff (BitVec.ofInt 32 later) (BitVec.ofInt 32 earlier) ↔
      (later - earlier) % 2 ^ 32 < 2 ^ 31 := by
  rw [Base.timeDiff, BitVec.toInt_sub, BitVec.toInt_ofInt, BitVec.toInt_ofInt, Int.sub_bmod_bmod,
    Int.bmod_sub_bmod, Int.bmod_def]
  split_ifs with h
  · omega
  · omega

theorem within_iff (r : RateLimit) (now g : ℕ) (h : r.previousTimeAtCounter = clockWord g) :
    r.isWithinRateLimit (clockWord now) = true ↔
      ((now : ℤ) - g - r.per_x_seconds * 1000) % 2 ^ 32 < 2 ^ 31 := by
  rw [RateLimit.isWithinRateLimit, decide_eq_true_iff, RateLimit.nextTimeAllowedForCounter, h,
    RateLimit.kSecToMsec]
  have hnow : clockWord now = BitVec.ofInt 32 now := rfl
  rw [hnow, timeDiff_nonneg_iff, clockWord, BitVec.toNat_ofNat]
  omega

/-! ### The manager -/

/-- The names of events. -/
abbrev EventName := List Byte

structure RateLimitManager where
  rate_limits : EventName → Option RateLimit

/-- A call of `VerifyRateLimit`, and the times at which it reads the clock. -/
structure VerifyCall where
  event_name : EventName
  max_count : ℕ
  per_x_seconds : ℤ
  always_update : Bool
  checked : ℕ
  updated : ℕ
  max_count_pos : 0 < max_count

namespace RateLimitManager

/-- The constructor. -/
def new : RateLimitManager := ⟨fun _ => none⟩

variable (m : RateLimitManager)

def getRateLimit (event_name : EventName) : Option RateLimit := m.rate_limits event_name

/-- `IsWithinRateLimit`: without a limit an event is under it. -/
def isWithinRateLimit (event_name : EventName) (now : Word) : Bool :=
  match m.getRateLimit event_name with
  | some current_rate => current_rate.isWithinRateLimit now
  | none => true

def updateRateLimit (event_name : EventName) (max_count : ℕ) (per_x_seconds : ℤ) (now : Word)
    (hmax : 0 < max_count) : RateLimitManager :=
  let current_rate :=
    match m.getRateLimit event_name with
    | some current_rate => current_rate
    | none => RateLimit.new max_count per_x_seconds hmax
  ⟨Function.update m.rate_limits event_name (some (current_rate.updateRateLimit now))⟩

def verifyRateLimit (c : VerifyCall) : Bool × RateLimitManager :=
  let within_rate_limit := m.isWithinRateLimit c.event_name (clockWord c.checked)
  (within_rate_limit,
    if within_rate_limit || c.always_update then
      m.updateRateLimit c.event_name c.max_count c.per_x_seconds (clockWord c.updated)
        c.max_count_pos
    else m)

/-! ### Runs

The calls of a run are listed with the latest first. -/

/-- The manager after a run. -/
def after : List VerifyCall → RateLimitManager
  | [] => new
  | c :: cs => ((after cs).verifyRateLimit c).2

/-- What a call returns after a run. -/
def told (c : VerifyCall) (cs : List VerifyCall) : Bool := ((after cs).verifyRateLimit c).1

/-- The times at which the calls of a name returned true. -/
def granted (event_name : EventName) : List VerifyCall → List ℕ
  | [] => []
  | c :: cs =>
    if c.event_name = event_name ∧ told c cs = true then c.updated :: granted event_name cs
    else granted event_name cs

/-- The clock of a run does not go back. -/
def Ordered : List VerifyCall → Prop
  | [] => True
  | c :: cs => c.checked ≤ c.updated ∧ (∀ c' ∈ cs, c'.updated ≤ c.checked) ∧ Ordered cs

/-- All calls of the name have the same parameters, and are not told to update always. -/
def Uniform (event_name : EventName) (max_count : ℕ) (per_x_seconds : ℤ) (cs : List VerifyCall) :
    Prop :=
  ∀ c ∈ cs, c.event_name = event_name →
    c.max_count = max_count ∧ c.per_x_seconds = per_x_seconds ∧ c.always_update = false

end RateLimitManager

/-! ### The rule -/

/-- A time that is in the last seconds. -/
def InLast (per_x_seconds : ℤ) (now time : ℕ) : Prop := (now : ℤ) - time < per_x_seconds * 1000

instance (per_x_seconds : ℤ) (now time : ℕ) : Decidable (InLast per_x_seconds now time) :=
  inferInstanceAs (Decidable (_ < _))

/-- **The rule**: fewer than `max_count` times are in the last seconds. -/
def Under (max_count : ℕ) (per_x_seconds : ℤ) (now : ℕ) (times : List ℕ) : Prop :=
  times.countP (fun time => InLast per_x_seconds now time) < max_count

instance (max_count : ℕ) (per_x_seconds : ℤ) (now : ℕ) (times : List ℕ) :
    Decidable (Under max_count per_x_seconds now times) := inferInstanceAs (Decidable (_ < _))

/-- The times that the rule allows. -/
def allowed (event_name : EventName) (max_count : ℕ) (per_x_seconds : ℤ) :
    List VerifyCall → List ℕ
  | [] => []
  | c :: cs =>
    if c.event_name = event_name ∧
        Under max_count per_x_seconds c.checked (allowed event_name max_count per_x_seconds cs) then
      c.updated :: allowed event_name max_count per_x_seconds cs
    else allowed event_name max_count per_x_seconds cs

/-- The clock tells how long ago the time before `max_count` others is: nothing was allowed
yet, or the clock is in the first half of a round that begins when the limit of a buffer of
zeros is over, or that time is in the last seconds, or it is not and less than half a round has
gone since the limit was over. -/
def Readable (max_count : ℕ) (per_x_seconds : ℤ) (now : ℕ) (times : List ℕ) : Prop :=
  times = [] ∨
    match times[max_count - 1]? with
    | none => ((now : ℤ) - per_x_seconds * 1000) % 2 ^ 32 < 2 ^ 31
    | some time => InLast per_x_seconds now time ∨
        ((now : ℤ) - time - per_x_seconds * 1000) % 2 ^ 32 < 2 ^ 31

theorem under_iff_readable {max_count : ℕ} {per_x_seconds : ℤ} {now : ℕ} {times : List ℕ}
    (hmax : 0 < max_count) (hper : per_x_seconds * 1000 < 2 ^ 31)
    (hsorted : times.Pairwise (· ≥ ·)) (hle : ∀ time ∈ times, time ≤ now) (hne : times ≠ []) :
    ((((now : ℤ) - times.getD (max_count - 1) 0 - per_x_seconds * 1000) % 2 ^ 32 < 2 ^ 31) ↔
        Under max_count per_x_seconds now times) ↔
      Readable max_count per_x_seconds now times := by
  have hunder : Under max_count per_x_seconds now times ↔
      ∀ time, times[max_count - 1]? = some time → ¬InLast per_x_seconds now time := by
    refine countP_lt_iff hsorted hmax fun a b hab ha => ?_
    rw [InLast] at ha ⊢
    omega
  rw [hunder, Readable, or_iff_right hne, List.getD_eq_getElem?_getD]
  cases hget : times[max_count - 1]? with
  | none => simp
  | some time =>
    have htime : time ≤ now := hle time (List.mem_of_getElem? hget)
    simp only [Option.getD_some, Option.some.injEq, forall_eq', InLast]
    omega

namespace RateLimitManager

variable {m : RateLimitManager} {event_name : EventName} {max_count : ℕ} {per_x_seconds : ℤ}
  {cs : List VerifyCall}

/-- The limit of the name is that of the times at which it was allowed. -/
def Holds (m : RateLimitManager) (event_name : EventName) (max_count : ℕ) (per_x_seconds : ℤ)
    (times : List ℕ) : Prop :=
  match m.getRateLimit event_name with
  | none => times = []
  | some r => times ≠ [] ∧ r.Records max_count per_x_seconds times

theorem Holds.update {times : List ℕ} (h : m.Holds event_name max_count per_x_seconds times)
    (hmax : 0 < max_count) (time : ℕ) :
    (m.updateRateLimit event_name max_count per_x_seconds (clockWord time) hmax).Holds event_name
      max_count per_x_seconds (time :: times) := by
  rw [Holds] at h ⊢
  simp only [getRateLimit, updateRateLimit, Function.update_self] at h ⊢
  refine ⟨List.cons_ne_nil time times, ?_⟩
  cases hlimit : m.rate_limits event_name with
  | none =>
    rw [hlimit] at h
    obtain rfl : times = [] := h
    exact (RateLimit.records_new hmax).update time
  | some r =>
    rw [hlimit] at h
    exact h.2.update time

theorem getRateLimit_verify_of_ne {c : VerifyCall} (h : event_name ≠ c.event_name) :
    (m.verifyRateLimit c).2.getRateLimit event_name = m.getRateLimit event_name := by
  rw [verifyRateLimit]
  split_ifs
  · exact Function.update_of_ne h _ _
  · rfl

theorem verify_of_told {c : VerifyCall} (h : (m.verifyRateLimit c).1 = true) :
    (m.verifyRateLimit c).2 = m.updateRateLimit c.event_name c.max_count c.per_x_seconds
      (clockWord c.updated) c.max_count_pos :=
  if_pos (Bool.or_eq_true_iff.2 (.inl h))

theorem verify_of_not_told {c : VerifyCall} (halways : c.always_update = false)
    (h : ¬(m.verifyRateLimit c).1 = true) : (m.verifyRateLimit c).2 = m := by
  refine if_neg fun hor => ?_
  rw [halways, Bool.or_false] at hor
  exact h hor

theorem holds_after (hcs : Uniform event_name max_count per_x_seconds cs) :
    (after cs).Holds event_name max_count per_x_seconds (granted event_name cs) := by
  induction cs with
  | nil => rfl
  | cons c cs ih =>
    have hrest := ih fun c' hc' => hcs c' (List.mem_cons_of_mem c hc')
    rw [after, granted]
    by_cases hname : c.event_name = event_name
    · obtain ⟨hmax, hper, halways⟩ := hcs c List.mem_cons_self hname
      subst hname hmax hper
      by_cases htold : told c cs = true
      · rw [if_pos ⟨rfl, htold⟩, verify_of_told htold]
        exact hrest.update c.max_count_pos c.updated
      · rw [if_neg fun h => htold h.2, verify_of_not_told halways htold]
        exact hrest
    · rw [if_neg fun h => hname h.1, Holds, getRateLimit_verify_of_ne (Ne.symm hname)]
      exact hrest

theorem mem_of_granted {time : ℕ} (h : time ∈ granted event_name cs) :
    ∃ c ∈ cs, c.updated = time := by
  induction cs with
  | nil => cases h
  | cons c cs ih =>
    rw [granted] at h
    split_ifs at h
    · obtain rfl | h := List.mem_cons.1 h
      · exact ⟨c, List.mem_cons_self, rfl⟩
      · obtain ⟨c', hc', heq⟩ := ih h
        exact ⟨c', List.mem_cons_of_mem c hc', heq⟩
    · obtain ⟨c', hc', heq⟩ := ih h
      exact ⟨c', List.mem_cons_of_mem c hc', heq⟩

theorem pairwise_granted (h : Ordered cs) : (granted event_name cs).Pairwise (· ≥ ·) := by
  induction cs with
  | nil => exact List.Pairwise.nil
  | cons c cs ih =>
    obtain ⟨hle, hall, hrest⟩ := h
    rw [granted]
    split_ifs
    · refine List.pairwise_cons.2 ⟨fun time htime => ?_, ih hrest⟩
      obtain ⟨c', hc', rfl⟩ := mem_of_granted htime
      exact (hall c' hc').trans hle
    · exact ih hrest

theorem told_iff_readable {c : VerifyCall} (hcs : Uniform c.event_name c.max_count c.per_x_seconds cs)
    (hper : c.per_x_seconds * 1000 < 2 ^ 31) (h : Ordered (c :: cs)) :
    (told c cs = true ↔
        Under c.max_count c.per_x_seconds c.checked (granted c.event_name cs)) ↔
      Readable c.max_count c.per_x_seconds c.checked (granted c.event_name cs) := by
  have hholds := holds_after hcs
  rw [Holds] at hholds
  rw [told, verifyRateLimit, isWithinRateLimit]
  cases hlimit : (after cs).getRateLimit c.event_name with
  | none =>
    -- nothing was allowed yet
    rw [hlimit] at hholds
    rw [show granted c.event_name cs = [] from hholds]
    exact iff_of_true (iff_of_true rfl c.max_count_pos) (.inl rfl)
  | some r =>
    rw [hlimit] at hholds
    obtain ⟨hne, hrecords⟩ := hholds
    have hprev : r.previousTimeAtCounter =
        clockWord ((granted c.event_name cs).getD (c.max_count - 1) 0) := by
      rw [hrecords.previousTime]
      rw [List.getD_eq_getElem?_getD, List.getD_eq_getElem?_getD, List.getElem?_map]
      exact Option.getD_map clockWord 0 _
    have hle : ∀ time ∈ granted c.event_name cs, time ≤ c.checked := by
      intro time htime
      obtain ⟨c', hc', rfl⟩ := mem_of_granted htime
      exact h.2.1 c' hc'
    rw [← under_iff_readable c.max_count_pos hper (pairwise_granted h.2.2) hle hne]
    dsimp only
    rw [within_iff r c.checked _ hprev, hrecords.per_x_seconds]

/-! ### The rule in a run -/

/-- Every call of the name is told whether it is under the limit, by the calls before it that
returned true. -/
def Limited (event_name : EventName) (max_count : ℕ) (per_x_seconds : ℤ) :
    List VerifyCall → Prop
  | [] => True
  | c :: cs =>
    (c.event_name = event_name →
      (told c cs = true ↔ Under max_count per_x_seconds c.checked (granted event_name cs))) ∧
    Limited event_name max_count per_x_seconds cs

/-- The clock is readable at every call of the name. -/
def AllReadable (event_name : EventName) (max_count : ℕ) (per_x_seconds : ℤ) :
    List VerifyCall → Prop
  | [] => True
  | c :: cs =>
    (c.event_name = event_name →
      Readable max_count per_x_seconds c.checked
        (allowed event_name max_count per_x_seconds cs)) ∧
    AllReadable event_name max_count per_x_seconds cs

theorem Limited.granted_eq (h : Limited event_name max_count per_x_seconds cs) :
    granted event_name cs = allowed event_name max_count per_x_seconds cs := by
  induction cs with
  | nil => rfl
  | cons c cs ih =>
    have hrest := ih h.2
    rw [granted, allowed, ← hrest]
    refine if_congr (and_congr_right fun hname => h.1 hname) rfl rfl

/-- **The rule in a run**: all calls of a name are told what it says just when the clock is
readable at each of them. -/
theorem limited_iff (hper : per_x_seconds * 1000 < 2 ^ 31) (h : Ordered cs)
    (hcs : Uniform event_name max_count per_x_seconds cs) :
    Limited event_name max_count per_x_seconds cs ↔
      AllReadable event_name max_count per_x_seconds cs := by
  induction cs with
  | nil => exact Iff.rfl
  | cons c cs ih =>
    have hcs' : Uniform event_name max_count per_x_seconds cs :=
      fun c' hc' => hcs c' (List.mem_cons_of_mem c hc')
    have hrest := ih h.2.2 hcs'
    rw [Limited, AllReadable, ← hrest]
    refine and_congr_left fun hlimited => forall_congr' fun hname => ?_
    obtain ⟨hmax, hp, -⟩ := hcs c List.mem_cons_self hname
    subst hname hmax hp
    rw [← hlimited.granted_eq]
    exact told_iff_readable hcs' hper h

/-- A call at one time, of at most two events in ten seconds. -/
def twoInTen (time : ℕ) : VerifyCall := ⟨[0x61#8], 2, 10, false, time, time, Nat.two_pos⟩

theorem limited_iff_twoInTen :
    Limited [0x61#8] 2 10 [twoInTen 50000, twoInTen 40000, twoInTen 30000] ↔
      AllReadable [0x61#8] 2 10 [twoInTen 50000, twoInTen 40000, twoInTen 30000] := by
  refine limited_iff (by decide) ?_ ?_
  · simp [Ordered, twoInTen]
  · simp [Uniform, twoInTen]

/-- **In the wrong half of a round** of the clock the second of two events is denied. -/
theorem not_limited_half : ¬∀ (event_name : EventName) (max_count : ℕ) (per_x_seconds : ℤ)
    (cs : List VerifyCall), per_x_seconds * 1000 < 2 ^ 31 → Ordered cs →
    Uniform event_name max_count per_x_seconds cs →
    Limited event_name max_count per_x_seconds cs := by
  intro h
  have hlimited := h [0x61#8] 2 10 [twoInTen 3000000001, twoInTen 3000000000] (by decide)
    (by simp [Ordered, twoInTen]) (by simp [Uniform, twoInTen])
  exact absurd ((hlimited.1 rfl).2 (by decide)) (by decide)

end RateLimitManager

end Jingle.Xmpp
