/-
Asking a STUN server that does not answer.

A `StunPort` asks its server for its address, and goes on asking.  A request that fails hands
over another one to the manager, if it is not too old itself; the new one begins its own
time.  The timer message of a request is taken from the thread's queue when it is due or
later, ids are those that `CreateRandomString` gives, and the server's address is resolved.

* **`givesUp_iff`** — in any run no request is made by a failure more than `RETRY_TIMEOUT`
  after the first request, just when every request that fails later than that was itself made
  more than `RETRY_TIMEOUT` before.
* `not_givesUp` — a server that answers with an error every ten seconds.
-/
import Jingle.Base.MessageQueue
import Jingle.Stun.Request

namespace Jingle.P2p

open Stun

def KEEPALIVE_DELAY : ℕ := 10 * 1000

def RETRY_DELAY : ℕ := 50

def RETRY_TIMEOUT : ℕ := 50 * 1000

/-- `Time` of the clock of 32 bits. -/
def clock (now : ℕ) : Word := BitVec.ofNat 32 now

structure StunPortBindingRequest where
  keep_alive : Bool
  server_addr : Jingle.SocketAddress
  start_time : Word

/-- Where a request was made. -/
inductive Maker
  | prepareAddress | prepareSecondaryAddress | onResponse | onErrorResponse | onTimeout
  deriving DecidableEq, Repr

/-- Made by a request that has failed. -/
def Maker.isRetry : Maker → Bool
  | .onErrorResponse | .onTimeout => true
  | _ => false

/-- The port at some time, in milliseconds.  `binding` is what a request has besides what the
manager knows, `due` the time from which on its timer message is taken from the queue, and
`made` the history of the requests. -/
structure StunPort where
  server_addr : Jingle.SocketAddress
  server_addr2 : Jingle.SocketAddress
  requests : StunRequestManager
  binding : ℕ → StunPortBindingRequest
  due : ℕ → ℕ
  now : ℕ
  addresses : List Jingle.SocketAddress
  address_errors : ℕ
  made : List (Maker × ℕ)

namespace StunPort

variable (p : StunPort)

/-- The message type of a request, and `SendDelayed` of it. -/
def sendOp (id : List Byte) (delay : ℕ) : Stun.Op :=
  .send .stunRequest id StunMessageType.bindingRequest.code delay

/-- `new StunPortBindingRequest`, for `SendDelayed` with this delay. -/
def make (maker : Maker) (keep_alive : Bool) (addr : Jingle.SocketAddress) (delay : ℕ) : StunPort :=
  { p with
    binding := Function.update p.binding p.requests.next ⟨keep_alive, addr, clock p.now⟩
    due := Function.update p.due p.requests.next (p.now + delay)
    made := p.made ++ [(maker, p.now)] }

/-- `requests_.Send` of a new request. -/
def send (maker : Maker) (keep_alive : Bool) (addr : Jingle.SocketAddress) (id : List Byte) : StunPort :=
  { p.make maker keep_alive addr 0 with requests := p.requests.perform (sendOp id 0) }

def prepareAddress (id : List Byte) : StunPort := p.send .prepareAddress true p.server_addr id

def prepareSecondaryAddress (id : List Byte) : StunPort :=
  p.send .prepareSecondaryAddress false p.server_addr2 id

/-- `talk_base::TimeSince(start_time_) <= RETRY_TIMEOUT` -/
def recent (i : ℕ) : Bool :=
  Base.timeDiff (clock p.now) (p.binding i).start_time ≤ RETRY_TIMEOUT

/-- `OnErrorResponse` and `OnTimeout` of request `i`: what they hand over to the manager. -/
def retry (maker : Maker) (delay i : ℕ) (id : List Byte) : List Stun.Op × StunPort :=
  let p := { p with address_errors := p.address_errors + 1 }
  if (p.binding i).keep_alive ∧ p.recent i then
    ([sendOp id delay], p.make maker true (p.binding i).server_addr delay)
  else ([], p)

def onErrorResponse (i : ℕ) (id : List Byte) : List Stun.Op × StunPort :=
  p.retry .onErrorResponse KEEPALIVE_DELAY i id

def onTimeout (i : ℕ) (id : List Byte) : List Stun.Op × StunPort :=
  p.retry .onTimeout RETRY_DELAY i id

def onResponse (i : ℕ) (msg : StunMessage) (id : List Byte) : List Stun.Op × StunPort :=
  let p : StunPort :=
    match msg.getAddress .mappedAddress with
    | none => p
    | some addr =>
      if addr.family ≠ 1 then p
      else { p with addresses := p.addresses ++ [⟨addr.ip, addr.port⟩] }
  if (p.binding i).keep_alive then
    ([sendOp id KEEPALIVE_DELAY],
      p.make .onResponse true (p.binding i).server_addr KEEPALIVE_DELAY)
  else ([], p)

/-- A packet of the server: `CheckResponse` with the callbacks of the port. -/
def checkResponse (msg : StunMessage) (id : List Byte) : StunPort :=
  match p.requests.find msg.transactionId with
  | none => p
  | some i =>
    if msg.type = (getStunResponseType (p.requests.request i).type).code then
      { (p.onResponse i msg id).2 with
        requests := (p.requests.checkResponse msg (p.onResponse i msg id).1).2 }
    else if msg.type = (getStunErrorResponseType (p.requests.request i).type).code then
      { (p.onErrorResponse i id).2 with
        requests := (p.requests.checkResponse msg (p.onErrorResponse i id).1).2 }
    else p

/-- `OnMessage` of request `i`, whose message has been taken from the queue. -/
def onMessage (i : ℕ) (id : List Byte) : StunPort :=
  if (p.requests.request i).timeout then
    { (p.onTimeout i id).2 with requests := p.requests.onMessage i (p.onTimeout i id).1 }
  else
    { p with
      requests := p.requests.onMessage i []
      due := Function.update p.due i (p.now + (p.requests.request i).getNextDelay.1) }

/-- What can happen to the port; `id` is for the request that may be made. -/
inductive Event
  | elapse (time : ℕ)
  | prepareAddress (id : List Byte)
  | prepareSecondaryAddress (id : List Byte)
  | timer (k : ℕ) (id : List Byte)
  | response (msg : StunMessage) (id : List Byte)

def act : Event → StunPort
  | .elapse time => { p with now := p.now + time }
  | .prepareAddress id => p.prepareAddress id
  | .prepareSecondaryAddress id => p.prepareSecondaryAddress id
  | .timer k id =>
    match p.requests.timers[k]? with
    | none => p
    | some t =>
      if p.due t.1 ≤ p.now then
        { p with requests := { p.requests with timers := p.requests.timers.eraseIdx k } }.onMessage
          t.1 id
      else p
  | .response msg id => p.checkResponse msg id

def run (es : List Event) : StunPort := es.foldl act p

/-- A new port, at some time. -/
def new (server_addr server_addr2 : Jingle.SocketAddress) (request : ℕ → StunRequest) (now : ℕ) :
    StunPort where
  server_addr := server_addr
  server_addr2 := server_addr2
  requests := .new request
  binding := fun _ => ⟨false, .nil, 0⟩
  due := fun _ => 0
  now := now
  addresses := []
  address_errors := 0
  made := []

/-! ### Giving up -/

/-- **What is claimed of a port**: no failure makes a request when the first one is too old. -/
def GivesUp : Prop :=
  ∀ first ∈ p.made.head?, ∀ r ∈ p.made, r.1.isRetry = true → r.2 ≤ first.2 + RETRY_TIMEOUT

/-- The request that an event makes fail. -/
def fails : Event → Option ℕ
  | .timer k _ =>
    (p.requests.timers[k]?).bind fun t =>
      if p.due t.1 ≤ p.now ∧ (p.requests.request t.1).timeout then some t.1 else none
  | .response msg _ =>
    (p.requests.find msg.transactionId).bind fun i =>
      if msg.type ≠ (getStunResponseType (p.requests.request i).type).code ∧
        msg.type = (getStunErrorResponseType (p.requests.request i).type).code then some i
      else none
  | _ => none

/-- **The condition of a step**: a request that is kept alive and fails when the first one is
too old is itself too old. -/
def Meets (e : Event) : Prop :=
  ∀ first ∈ p.made.head?, ∀ i ∈ p.fails e, (p.binding i).keep_alive = true →
    first.2 + RETRY_TIMEOUT < p.now → p.recent i = false

/-- Every step of a run meets its condition. -/
def MeetsAll : StunPort → List Event → Prop
  | _, [] => True
  | p, e :: es => p.Meets e ∧ MeetsAll (p.act e) es

variable {p}

/-- What a step adds to the history. -/
structure Adds (p : StunPort) (e : Event) (rs : List (Maker × ℕ)) : Prop where
  made : (p.act e).made = p.made ++ rs
  fails : ∀ i, p.fails e = some i →
    (∃ maker : Maker, maker.isRetry = true ∧
      rs = if (p.binding i).keep_alive ∧ p.recent i then [(maker, p.now)] else [])
  calm : p.fails e = none → ∀ r ∈ rs, r.1.isRetry = false

theorem adds_nothing {e : Event} (hmade : (p.act e).made = p.made) (hcalm : p.fails e = none) :
    Adds p e [] :=
  ⟨hmade.trans (List.append_nil _).symm, fun i hi => absurd (hcalm.symm.trans hi) (by simp),
    fun _ r hr => absurd hr List.not_mem_nil⟩

theorem adds_retry {e : Event} {i : ℕ} (maker : Maker) (hmaker : maker.isRetry = true)
    (hfails : p.fails e = some i) (hmade : (p.act e).made =
      p.made ++ if (p.binding i).keep_alive ∧ p.recent i then [(maker, p.now)] else []) :
    ∃ rs, Adds p e rs := by
  refine ⟨_, hmade, fun j hj => ⟨maker, hmaker, ?_⟩, fun h => absurd (h.symm.trans hfails) (by simp)⟩
  obtain rfl := Option.some.inj (hfails.symm.trans hj)
  rfl

theorem made_retry (maker : Maker) (delay i : ℕ) (id : List Byte) :
    (p.retry maker delay i id).2.made =
      p.made ++ if (p.binding i).keep_alive ∧ p.recent i then [(maker, p.now)] else [] := by
  rw [retry]
  dsimp only
  have hrecent : ({ p with address_errors := p.address_errors + 1 } : StunPort).recent i =
      p.recent i := rfl
  rw [hrecent]
  split_ifs with h
  · rfl
  · exact (List.append_nil _).symm

theorem made_onResponse (i : ℕ) (msg : StunMessage) (id : List Byte) :
    ∃ rs, (p.onResponse i msg id).2.made = p.made ++ rs ∧ ∀ r ∈ rs, r.1.isRetry = false := by
  have hmade : ∀ q : StunPort, q.made = p.made →
      ∃ rs, (if (q.binding i).keep_alive then
        ([sendOp id KEEPALIVE_DELAY],
          q.make .onResponse true (q.binding i).server_addr KEEPALIVE_DELAY)
        else ([], q)).2.made = p.made ++ rs ∧ ∀ r ∈ rs, r.1.isRetry = false := by
    intro q hq
    split_ifs
    · refine ⟨[(.onResponse, q.now)], congrArg (· ++ _) hq, fun r hr => ?_⟩
      rw [List.mem_singleton.1 hr]
      rfl
    · exact ⟨[], hq.trans (List.append_nil _).symm, fun r hr => absurd hr List.not_mem_nil⟩
  rw [onResponse]
  refine hmade _ ?_
  split
  · rfl
  · split_ifs
    · rfl
    · rfl

theorem adds (p : StunPort) (e : Event) : ∃ rs, Adds p e rs := by
  have hsend : ∀ maker : Maker, maker.isRetry = false →
      ∀ r ∈ [(maker, p.now)], r.1.isRetry = false := by
    intro maker hmaker r hr
    rw [List.mem_singleton.1 hr]
    exact hmaker
  cases e with
  | elapse time => exact ⟨[], adds_nothing rfl rfl⟩
  | prepareAddress id =>
    exact ⟨_, rfl, fun i hi => (by cases hi), fun _ => hsend .prepareAddress rfl⟩
  | prepareSecondaryAddress id =>
    exact ⟨_, rfl, fun i hi => (by cases hi), fun _ => hsend .prepareSecondaryAddress rfl⟩
  | timer k id =>
    rcases htimer : p.requests.timers[k]? with _ | t
    · refine ⟨[], adds_nothing ?_ ?_⟩
      · rw [act, htimer]
      · rw [fails, htimer, Option.bind_none]
    by_cases hdue : p.due t.1 ≤ p.now
    swap
    · refine ⟨[], adds_nothing ?_ ?_⟩
      · rw [act, htimer]
        exact congrArg made (if_neg hdue)
      · rw [fails, htimer, Option.bind_some, if_neg fun h => hdue h.1]
    by_cases htimeout : (p.requests.request t.1).timeout = true
    · have hfails : p.fails (.timer k id) = some t.1 := by
        rw [fails, htimer, Option.bind_some, if_pos ⟨hdue, htimeout⟩]
      refine adds_retry .onTimeout rfl hfails ?_
      rw [act, htimer]
      dsimp only
      rw [if_pos hdue, onMessage, if_pos htimeout]
      exact made_retry .onTimeout RETRY_DELAY t.1 id
    · refine ⟨[], adds_nothing ?_ ?_⟩
      · rw [act, htimer]
        dsimp only
        rw [if_pos hdue, onMessage, if_neg htimeout]
      · rw [fails, htimer, Option.bind_some, if_neg fun h => htimeout h.2]
  | response msg id =>
    rcases hfind : p.requests.find msg.transactionId with _ | i
    · refine ⟨[], adds_nothing ?_ ?_⟩
      · rw [act, checkResponse, hfind]
      · rw [fails, hfind, Option.bind_none]
    by_cases hok : msg.type = (getStunResponseType (p.requests.request i).type).code
    · obtain ⟨rs, hrs, hcalm⟩ := made_onResponse (p := p) i msg id
      have hnone : p.fails (.response msg id) = none := by
        rw [fails, hfind, Option.bind_some, if_neg fun h => h.1 hok]
      refine ⟨rs, ?_, fun j hj => absurd (hnone.symm.trans hj) (by simp), fun _ => hcalm⟩
      rw [act, checkResponse, hfind]
      dsimp only
      rw [if_pos hok]
      exact hrs
    by_cases herror : msg.type = (getStunErrorResponseType (p.requests.request i).type).code
    · have hfails : p.fails (.response msg id) = some i := by
        rw [fails, hfind, Option.bind_some, if_pos ⟨hok, herror⟩]
      refine adds_retry .onErrorResponse rfl hfails ?_
      rw [act, checkResponse, hfind]
      dsimp only
      rw [if_neg hok, if_pos herror]
      exact made_retry .onErrorResponse KEEPALIVE_DELAY i id
    · refine ⟨[], adds_nothing ?_ ?_⟩
      · rw [act, checkResponse, hfind]
        dsimp only
        rw [if_neg hok, if_neg herror]
      · rw [fails, hfind, Option.bind_some, if_neg fun h => herror h.2]

theorem givesUp_append {made rs : List (Maker × ℕ)} {first : Maker × ℕ} (hp : p.made = first :: made)
    {q : StunPort} (hq : q.made = p.made ++ rs) :
    q.GivesUp ↔ p.GivesUp ∧ ∀ r ∈ rs, r.1.isRetry = true → r.2 ≤ first.2 + RETRY_TIMEOUT := by
  rw [GivesUp, GivesUp, hq, hp, List.cons_append, List.head?_cons, List.head?_cons]
  simp only [Option.mem_some_iff, forall_eq']
  rw [← List.cons_append, List.forall_mem_append]

theorem givesUp_of_now {t : ℕ} (h : ∀ r ∈ p.made, r.1.isRetry = true → r.2 = t)
    (hfirst : ∀ first ∈ p.made.head?, first.2 = t) : p.GivesUp := by
  intro first hmem r hr hretry
  rw [h r hr hretry, hfirst first hmem]
  exact Nat.le_add_right _ _

theorem givesUp_act_iff (e : Event) : (p.act e).GivesUp ↔ p.GivesUp ∧ p.Meets e := by
  obtain ⟨rs, hmade, hfails, hcalm⟩ := adds p e
  rcases hp : p.made with _ | ⟨first, made⟩
  · -- no request has been made before
    have hnow : (p.act e).GivesUp := by
      rw [hp, List.nil_append] at hmade
      rcases hfail : p.fails e with _ | i
      · intro first _ r hr hretry
        rw [hmade] at hr
        exact absurd ((hcalm hfail r hr).symm.trans hretry) Bool.false_ne_true
      · obtain ⟨maker, -, hrs⟩ := hfails i hfail
        have hall : ∀ r ∈ rs, r.2 = p.now := by
          intro r hr
          rw [hrs] at hr
          split_ifs at hr
          · rw [List.mem_singleton.1 hr]
          · exact absurd hr List.not_mem_nil
        refine givesUp_of_now (t := p.now) (fun r hr _ => hall r (hmade ▸ hr)) fun first hfirst => ?_
        exact hall first (hmade ▸ List.mem_of_head? hfirst)
    refine iff_of_true hnow ⟨fun first hfirst => ?_, fun first hfirst => ?_⟩
    · rw [hp] at hfirst
      cases hfirst
    · rw [hp] at hfirst
      cases hfirst
  · rw [givesUp_append hp hmade]
    refine and_congr_right fun _ => ?_
    rw [Meets, hp, List.head?_cons]
    simp only [Option.mem_some_iff, forall_eq']
    rcases hfail : p.fails e with _ | i
    · refine iff_of_true (fun r hr hretry => ?_) fun i hi => by cases hi
      exact absurd ((hcalm hfail r hr).symm.trans hretry) Bool.false_ne_true
    · obtain ⟨maker, hmaker, hrs⟩ := hfails i hfail
      simp only [Option.mem_some_iff, forall_eq']
      rw [hrs]
      constructor
      · intro h hkeep hlate
        by_contra hrecent
        rw [if_pos ⟨hkeep, by simpa using hrecent⟩] at h
        exact absurd (h _ (List.mem_singleton_self _) hmaker) (Nat.not_le.2 hlate)
      · intro h r hr _
        split_ifs at hr with hretry
        · rw [List.mem_singleton.1 hr]
          by_contra hlate
          have hold := h hretry.1 (Nat.not_le.1 hlate)
          rw [hretry.2] at hold
          cases hold
        · exact absurd hr List.not_mem_nil

theorem givesUp_run_iff (es : List Event) : (p.run es).GivesUp ↔ p.GivesUp ∧ p.MeetsAll es := by
  induction es generalizing p with
  | nil => exact (and_iff_left trivial).symm
  | cons e es ih =>
    rw [run, List.foldl_cons, ← run, ih, givesUp_act_iff, MeetsAll, and_assoc]

/-- **The port gives up**, if the requests that fail late are old. -/
theorem givesUp_iff (server_addr server_addr2 : Jingle.SocketAddress) (request : ℕ → StunRequest)
    (now : ℕ) (es : List Event) :
    ((new server_addr server_addr2 request now).run es).GivesUp ↔
      (new server_addr server_addr2 request now).MeetsAll es := by
  rw [givesUp_run_iff]
  refine and_iff_right fun first hfirst => ?_
  cases hfirst

/-- The server does not answer, or with an error. -/
def Event.dead : Event → Bool
  | .response msg _ => msg.type ≠ StunMessageType.bindingResponse.code
  | _ => true

/-- The message of the error. -/
def errorMessage (id : List Byte) : StunMessage :=
  (StunMessage.new.setType StunMessageType.bindingErrorResponse.code).setTransactionID id

/-- A request is sent, is answered with an error at once, and makes the next one. -/
def round (k : Byte) : List Event :=
  [.timer 0 [], .response (errorMessage [k]) [k + 1], .elapse 10000]

/-- Seven errors, at intervals of ten seconds. -/
def errors : List Event := .prepareAddress [0] :: [0, 1, 2, 3, 4, 5, 6].flatMap round

/-- **A server that answers with errors** is asked again and again. -/
theorem not_givesUp : ¬∀ (server_addr server_addr2 : Jingle.SocketAddress) (request : ℕ → StunRequest)
    (now : ℕ) (es : List Event), (∀ e ∈ es, e.dead = true) →
      ((new server_addr server_addr2 request now).run es).GivesUp := by
  intro h
  have hdead : ∀ e ∈ errors, e.dead = true := by decide +kernel
  have hmade : ((new .nil .nil (fun _ => .new .stunRequest [] 0) 0).run errors).made =
      (.prepareAddress, 0) :: [0, 10000, 20000, 30000, 40000, 50000, 60000].map
        fun t => (.onErrorResponse, t) := by
    decide +kernel
  have hgives := h .nil .nil (fun _ => .new .stunRequest [] 0) 0 errors hdead
  rw [GivesUp, hmade] at hgives
  exact absurd (hgives _ rfl (.onErrorResponse, 60000) (by decide) rfl) (by decide)

end StunPort

end Jingle.P2p
