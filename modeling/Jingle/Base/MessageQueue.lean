/-
The message queue of a thread.

A message is posted at once, to the list `msgq`, or with a trigger time, to the
heap `dmsgq`.  `Get` moves the messages whose time has come from the heap to the
end of the list and returns the first of the list; `Peek` keeps what `Get` would
return.

The loop of `Get` is cut at its system calls: `scan` is the part under the lock,
`cmsNext` the time it then waits for.  Times are words of 32 bits, read at the
places where the source calls `Time`.  What a message carries, `pdata`, is of any
type `δ`: the queue passes it on unread.
-/
import Jingle.Lib.Heap
import Jingle.Lib.Word

namespace Jingle.Base

/-! ### Times -/

/-- Half of the range of the clock. -/
def HALF : Word := 0x80000000#32

def timeIsLater (earlier later : Word) : Bool :=
  let diff := later - earlier
  0 < diff.toInt ∧ diff < HALF

def timeDiff (later earlier : Word) : ℤ := (later - earlier).toInt

/-! ### Messages -/

/-- The id that every message matches. -/
def MQID_ANY : Word := 0xFFFFFFFF#32

/-- The id of the messages that only delete their data. -/
def MQID_DISPOSE : Word := 0xFFFFFFFE#32

/-- Without a timeout. -/
def kForever : ℤ := -1

/-- A time-sensitive message may be as late as this. -/
def kMaxMsgLatency : Word := 150#32

/-- `Message`; a handler is known by its address, `none` is the null pointer. -/
structure Message (δ : Type) where
  phandler : Option ℕ
  messageId : Word
  pdata : δ
  tsSensitive : Word
  deriving DecidableEq

variable {δ : Type}

/-- `Match`. -/
def Message.matches_ (m : Message δ) (handler : Option ℕ) (id : Word) : Bool :=
  (handler = none ∨ handler = m.phandler) ∧ (id = MQID_ANY ∨ id = m.messageId)

structure DelayedMessage (δ : Type) where
  msTrigger : Word
  num : Word
  msg : Message δ

/-- `operator<`: the message with the later trigger is less, since the greatest
is in front. -/
def DelayedMessage.lt (a b : DelayedMessage δ) : Bool :=
  b.msTrigger < a.msTrigger ∨ (b.msTrigger = a.msTrigger ∧ b.num < a.num)

theorem DelayedMessage.lt_iff (a b : DelayedMessage δ) :
    a.lt b ↔ b.msTrigger.toNat < a.msTrigger.toNat ∨
      b.msTrigger.toNat = a.msTrigger.toNat ∧ b.num.toNat < a.num.toNat := by
  simp [lt, BitVec.lt_def, BitVec.toNat_inj]

theorem DelayedMessage.lt_strictWeak : Heap.StrictWeak (@DelayedMessage.lt δ) where
  asymm := by
    intro a b h
    rw [lt_iff] at h
    rw [← Bool.not_eq_true, lt_iff]
    omega
  trans := by
    intro a b c hab hbc
    rw [← Bool.not_eq_true, lt_iff] at hab hbc ⊢
    omega

/-! ### The priority queue -/

/-- `PriorityQueue`: its container is a heap. -/
structure PriorityQueue (δ : Type) where
  c : Array (DelayedMessage δ)
  heap : Heap.IsHeap DelayedMessage.lt c

namespace PriorityQueue

variable (pq : PriorityQueue δ)

/-- An empty queue. -/
def new : PriorityQueue δ := ⟨#[], fun _ _ h => absurd h (Nat.not_lt_zero _)⟩

/-- `top`, if there is one. -/
def top : Option (DelayedMessage δ) := pq.c[0]?

def push (m : DelayedMessage δ) : PriorityQueue δ :=
  ⟨Heap.push DelayedMessage.lt pq.c m, Heap.push_isHeap DelayedMessage.lt_strictWeak pq.heap m⟩

def pop : PriorityQueue δ :=
  ⟨Heap.pop DelayedMessage.lt pq.c, Heap.pop_isHeap DelayedMessage.lt_strictWeak pq.heap⟩

/-- The container is edited in place, and `reheap` makes it a heap again. -/
def keep (p : DelayedMessage δ → Bool) : PriorityQueue δ :=
  ⟨Heap.makeHeap DelayedMessage.lt (pq.c.filter p),
    Heap.makeHeap_isHeap DelayedMessage.lt_strictWeak _⟩

/-- The messages in the container. -/
def toList : List (DelayedMessage δ) := pq.c.toList

theorem push_perm (m : DelayedMessage δ) : (pq.push m).toList.Perm (m :: pq.toList) :=
  Heap.push_perm _ _ _

theorem keep_perm (p : DelayedMessage δ → Bool) : (pq.keep p).toList.Perm (pq.toList.filter p) := by
  have h := Heap.makeHeap_perm DelayedMessage.lt (pq.c.filter p)
  rw [Array.toList_filter] at h
  exact h

variable {pq}

theorem top_none (h : pq.top = none) : pq.toList = [] := by
  rw [top, Array.getElem?_eq_none_iff] at h
  exact List.length_eq_zero_iff.1 (Nat.le_zero.1 h)

theorem top_some {m : DelayedMessage δ} (h : pq.top = some m) :
    (m :: pq.pop.toList).Perm pq.toList ∧ ∀ x ∈ pq.toList, m.lt x = false := by
  rw [top, Array.getElem?_eq_some_iff] at h
  obtain ⟨h0, rfl⟩ := h
  refine ⟨Heap.pop_perm _ h0, fun x hx => ?_⟩
  obtain ⟨i, hi, rfl⟩ := List.getElem_of_mem hx
  exact Heap.front_greatest DelayedMessage.lt_strictWeak pq.heap (by simpa [toList] using hi)

theorem pop_length {m : DelayedMessage δ} (h : pq.top = some m) :
    pq.pop.toList.length + 1 = pq.toList.length := by
  simpa using (top_some h).1.length_eq

end PriorityQueue

/-! ### The queue -/

/-- `MessageQueue`; the kept message of `Peek`, if `fPeekKeep_` says so. -/
structure MessageQueue (δ : Type) where
  fStop : Bool
  msgPeek : Option (Message δ)
  msgq : List (Message δ)
  dmsgq : PriorityQueue δ
  dmsgqNextNum : Word

namespace MessageQueue

/-- A new queue. -/
def new : MessageQueue δ where
  fStop := false
  msgPeek := none
  msgq := []
  dmsgq := .new
  dmsgqNextNum := 0

@[simp] theorem new_dmsgq_toList : (new : MessageQueue δ).dmsgq.toList = [] := rfl

variable (q : MessageQueue δ)

def quit : MessageQueue δ := { q with fStop := true }

def restart : MessageQueue δ := { q with fStop := false }

def post (handler : Option ℕ) (id : Word) (pdata : δ) (timeSensitive : Bool) (now : Word) :
    MessageQueue δ :=
  if q.fStop then q
  else
    let tsSensitive := if timeSensitive then now + kMaxMsgLatency else 0
    { q with msgq := q.msgq ++ [⟨handler, id, pdata, tsSensitive⟩] }

/-- `DoDelayPost`; its delay is for debugging. -/
def doDelayPost (tstamp : Word) (handler : Option ℕ) (id : Word) (pdata : δ) : MessageQueue δ :=
  if q.fStop then q
  else
    { q with
      dmsgq := q.dmsgq.push ⟨tstamp, q.dmsgqNextNum, ⟨handler, id, pdata, 0⟩⟩
      dmsgqNextNum := q.dmsgqNextNum + 1 }

/-- `PostDelayed`: the trigger is `TimeAfter` the delay. -/
def postDelayed (cmsDelay : Word) (handler : Option ℕ) (id : Word) (pdata : δ) (now : Word) :
    MessageQueue δ :=
  q.doDelayPost (now + cmsDelay) handler id pdata

def postAt (tstamp : Word) (handler : Option ℕ) (id : Word) (pdata : δ) : MessageQueue δ :=
  q.doDelayPost tstamp handler id pdata

/-- The first loop of the scan: triggered messages go to the end of the list.  It
also says how long the next one waits. -/
def takeTriggered (msCurrent : Word) :
    ℕ → List (Message δ) × PriorityQueue δ → (List (Message δ) × PriorityQueue δ) × ℤ
  | 0, acc => (acc, kForever)
  | fuel + 1, (msgq, dmsgq) =>
    match dmsgq.top with
    | none => ((msgq, dmsgq), kForever)
    | some top =>
      if timeIsLater msCurrent top.msTrigger then
        ((msgq, dmsgq), timeDiff top.msTrigger msCurrent)
      else takeTriggered msCurrent fuel (msgq ++ [top.msg], dmsgq.pop)

/-- The second loop: the first message that is not one to dispose of. -/
def takePosted : List (Message δ) → Option (Message δ) × List (Message δ)
  | [] => (none, [])
  | m :: msgq => if m.messageId = MQID_DISPOSE then takePosted msgq else (some m, msgq)

/-- What one scan under the lock gives. -/
structure Scan (δ : Type) where
  message : Option (Message δ)
  queue : MessageQueue δ
  cmsDelayNext : ℤ

/-- One scan of `Get`. -/
def scan (msCurrent : Word) : Scan δ :=
  let taken := takeTriggered msCurrent (q.dmsgq.toList.length + 1) (q.msgq, q.dmsgq)
  let posted := takePosted taken.1.1
  { message := posted.1
    queue := { q with msgq := posted.2, dmsgq := taken.1.2 }
    cmsDelayNext := taken.2 }

/-- The time to wait for: the shorter one of the delay and what is left of the
caller's time. -/
def cmsNext (cmsWait cmsElapsed cmsDelayNext : ℤ) : ℤ :=
  if cmsWait = kForever then cmsDelayNext
  else
    let cmsNext := max 0 (cmsWait - cmsElapsed)
    if cmsDelayNext ≠ kForever ∧ cmsDelayNext < cmsNext then cmsDelayNext else cmsNext

/-- Whether the caller's time is over. -/
def expired (cmsWait cmsElapsed : ℤ) : Bool := cmsWait ≠ kForever ∧ cmsWait ≤ cmsElapsed

def getDelay (now : Word) : ℤ :=
  if q.msgq ≠ [] then 0
  else
    match q.dmsgq.top with
    | some top => max 0 (timeDiff top.msTrigger now)
    | none => kForever

/-- What `Clear` removes, in this order. -/
def cleared (handler : Option ℕ) (id : Word) : List (Message δ) :=
  q.msgPeek.toList.filter (·.matches_ handler id) ++ q.msgq.filter (·.matches_ handler id) ++
    (q.dmsgq.toList.filter fun m => m.msg.matches_ handler id).map (·.msg)

def clear (handler : Option ℕ) (id : Word) : MessageQueue δ :=
  { q with
    msgPeek := q.msgPeek.filter fun m => !m.matches_ handler id
    msgq := q.msgq.filter fun m => !m.matches_ handler id
    dmsgq := q.dmsgq.keep fun m => !m.msg.matches_ handler id }

/-- The messages in the queue, wherever they are. -/
def pending : List (Message δ) :=
  q.msgPeek.toList ++ q.msgq ++ q.dmsgq.toList.map (·.msg)

theorem msgPeek_clear (handler : Option ℕ) (id : Word) :
    (q.clear handler id).msgPeek.toList =
      q.msgPeek.toList.filter fun m => !m.matches_ handler id := by
  rw [clear]
  rcases q.msgPeek with _ | m
  · rfl
  · rw [Option.filter_some, Option.toList_some, List.filter_cons, List.filter_nil]
    split <;> rfl

theorem cleared_eq (handler : Option ℕ) (id : Word) :
    q.cleared handler id = q.pending.filter (·.matches_ handler id) := by
  rw [cleared, pending, List.filter_append, List.filter_append, List.filter_map]
  rfl

theorem clear_perm (handler : Option ℕ) (id : Word) :
    (q.cleared handler id ++ (q.clear handler id).pending).Perm q.pending := by
  have hrest : (q.clear handler id).pending.Perm
      (q.pending.filter fun m => !m.matches_ handler id) := by
    rw [pending, pending, msgPeek_clear, List.filter_append, List.filter_append, List.filter_map]
    exact ((PriorityQueue.keep_perm _ _).map _).append_left _
  rw [cleared_eq]
  exact (hrest.append_left _).trans (List.filter_append_perm _ _)

/-! ### What a scan does -/

variable {q}

/-- What the first loop does: it takes messages from the heap, each when it was on
top and not later than now, and stops at one that is, or at the end. -/
inductive Takes (msCurrent : Word) : PriorityQueue δ → List (DelayedMessage δ) →
    PriorityQueue δ → ℤ → Prop
  | empty {pq : PriorityQueue δ} : pq.top = none → Takes msCurrent pq [] pq kForever
  | later {pq : PriorityQueue δ} {top : DelayedMessage δ} : pq.top = some top →
      timeIsLater msCurrent top.msTrigger →
      Takes msCurrent pq [] pq (timeDiff top.msTrigger msCurrent)
  | take {pq pq' : PriorityQueue δ} {top : DelayedMessage δ} {taken : List (DelayedMessage δ)}
      {next : ℤ} : pq.top = some top → timeIsLater msCurrent top.msTrigger = false →
      Takes msCurrent pq.pop taken pq' next → Takes msCurrent pq (top :: taken) pq' next

theorem takeTriggered_spec (msCurrent : Word) {fuel : ℕ} {msgq : List (Message δ)}
    {pq : PriorityQueue δ} (hfuel : pq.toList.length < fuel) :
    ∃ taken pq' next, Takes msCurrent pq taken pq' next ∧
      takeTriggered msCurrent fuel (msgq, pq) = ((msgq ++ taken.map (·.msg), pq'), next) := by
  induction fuel generalizing msgq pq with
  | zero => exact absurd hfuel (Nat.not_lt_zero _)
  | succ fuel ih =>
    rw [takeTriggered]
    rcases htop : pq.top with _ | top
    · exact ⟨[], pq, kForever, .empty htop, by simp⟩
    · dsimp only
      split_ifs with hlater
      · exact ⟨[], pq, _, .later htop hlater, by simp⟩
      · have hlen := PriorityQueue.pop_length htop
        obtain ⟨taken, pq', next, htakes, heq⟩ :=
          @ih (msgq ++ [top.msg]) pq.pop (by omega)
        refine ⟨top :: taken, pq', next, .take htop (by simpa using hlater) htakes, ?_⟩
        rw [heq]
        simp

theorem Takes.perm {msCurrent : Word} {pq pq' : PriorityQueue δ} {taken : List (DelayedMessage δ)}
    {next : ℤ} (h : Takes msCurrent pq taken pq' next) :
    (taken ++ pq'.toList).Perm pq.toList := by
  induction h with
  | empty => exact .refl _
  | later => exact .refl _
  | take htop _ _ ih => exact (ih.cons _).trans (PriorityQueue.top_some htop).1

theorem takePosted_spec (msgq : List (Message δ)) :
    msgq = msgq.takeWhile (·.messageId = MQID_DISPOSE) ++ (takePosted msgq).1.toList ++
        (takePosted msgq).2 ∧
      (∀ m ∈ (takePosted msgq).1, m.messageId ≠ MQID_DISPOSE) ∧
      ((takePosted msgq).1 = none → (takePosted msgq).2 = []) := by
  induction msgq with
  | nil => simp [takePosted]
  | cons m msgq ih =>
    rw [takePosted]
    split_ifs with hid
    · obtain ⟨h₁, h₂, h₃⟩ := ih
      refine ⟨?_, h₂, h₃⟩
      rw [List.takeWhile_cons_of_pos (by simpa using hid), List.cons_append, List.cons_append, ← h₁]
    · refine ⟨?_, ?_, by simp⟩
      · rw [List.takeWhile_cons_of_neg (by simpa using hid)]
        rfl
      · intro x hx
        obtain rfl := Option.some.inj hx
        exact hid

variable (q)

/-- The messages that a scan takes from the heap. -/
def takenBy (msCurrent : Word) : List (Message δ) :=
  ((takeTriggered msCurrent (q.dmsgq.toList.length + 1) (q.msgq, q.dmsgq)).1.1).drop q.msgq.length

/-- The messages that a scan disposes of. -/
def disposedBy (msCurrent : Word) : List (Message δ) :=
  (q.msgq ++ q.takenBy msCurrent).takeWhile (·.messageId = MQID_DISPOSE)

/-- What a scan does: triggered messages go behind the posted ones, those to dispose
of are dropped, and the first one is returned. -/
structure Scanned (msCurrent : Word) (taken : List (DelayedMessage δ)) (s : Scan δ) : Prop where
  takes : Takes msCurrent q.dmsgq taken s.queue.dmsgq s.cmsDelayNext
  takenBy : q.takenBy msCurrent = taken.map (·.msg)
  msgq : q.msgq ++ taken.map (·.msg) =
    q.disposedBy msCurrent ++ s.message.toList ++ s.queue.msgq
  notDisposed : ∀ m ∈ s.message, m.messageId ≠ MQID_DISPOSE
  nothing : s.message = none → s.queue.msgq = []
  peek : s.queue.msgPeek = q.msgPeek
  stop : s.queue.fStop = q.fStop
  nextNum : s.queue.dmsgqNextNum = q.dmsgqNextNum

theorem scan_spec (msCurrent : Word) : ∃ taken, q.Scanned msCurrent taken (q.scan msCurrent) := by
  obtain ⟨taken, pq', next, htakes, heq⟩ :=
    @takeTriggered_spec δ msCurrent _ q.msgq _ (Nat.lt_succ_self q.dmsgq.toList.length)
  have htaken : q.takenBy msCurrent = taken.map (·.msg) := by
    rw [takenBy, heq]
    simp
  obtain ⟨h₁, h₂, h₃⟩ := takePosted_spec (q.msgq ++ taken.map (·.msg))
  refine ⟨taken, ?_, htaken, ?_, ?_, ?_, rfl, rfl, rfl⟩
  · rw [scan, heq]
    exact htakes
  · rw [scan, heq, disposedBy, htaken]
    exact h₁
  · rw [scan, heq]
    exact h₂
  · rw [scan, heq]
    exact h₃

end MessageQueue

end Jingle.Base
