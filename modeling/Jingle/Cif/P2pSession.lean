/-
The handle of a peer-to-peer session.

The user's thread creates and closes a `p2p_session_t`; the worker thread makes its
tunnel, hears the events of the stream and deletes it; the signaling thread ends the
tunnel of a handle that was closed before it was connected.  Each queue is in order, and
a message is one step.  The tunnel may post any events while its stream is open.

* **`handle_life_cycle`** — a handle is deleted at most once, is not used afterwards and leaves no
  message behind; and if its steps are fine, a closed handle has been deleted when the
  stream has signalled its end and nothing is queued (`LifeCycle`).
* **`silent_iff`** — the user hears nothing of a handle that it has closed exactly in the
  runs whose steps are `Mute`.
-/
import Jingle.Tunnel.Channel

namespace Jingle.Cif

open Tunnel (EventData)

/-! ### The handle -/

inductive P2PState
  | notConnect | connected | closing
  deriving DecidableEq, Repr

inductive P2PMode
  | initiative | passive
  deriving DecidableEq, Repr

/-- `p2p_session_t`: whether `magic` is right, `st` is set, the event is set and there is a
listener. -/
structure P2PSession where
  magic : Bool
  st : Bool
  state : P2PState
  mode : P2PMode
  stateEvent : Bool
  eventCb : Bool
  deriving DecidableEq

/-- The messages on the worker thread: those of the handle, the events of the stream, and
those that the user posts. -/
inductive WorkerMessage
  | createP2P | destroyP2P
  | event (e : EventData)
  | postEvent (e : EventData)
  deriving DecidableEq

/-- A message of the handle. -/
def WorkerMessage.isOwn : WorkerMessage → Bool
  | createP2P | destroyP2P => true
  | event _ | postEvent _ => false

/-- The messages on the signaling thread. -/
inductive SignalingMessage
  | checkSessionDestroy
  deriving DecidableEq

inductive P2PStreamResult
  | error | success | block | eos
  deriving DecidableEq

/-- The handle and what uses it: the queues, whether the tunnel is one of the client's
sessions and its stream is open, and what has happened. -/
structure P2PWorld where
  handle : Option P2PSession
  made : Bool
  closed : Bool
  worker : List WorkerMessage
  signaling : List SignalingMessage
  listed : Bool
  stream : Bool
  /-- The stream has signalled `SE_CLOSE`. -/
  signalledClose : Bool
  deletions : ℕ
  /-- A step used the handle after it was deleted. -/
  used : Bool
  /-- The handle had messages in a queue when it was deleted. -/
  leftover : Bool
  /-- The calls of the listener, with whether the handle was closed. -/
  callbacks : List (EventData × Bool)
  /-- What reading and writing returned, if anything, with whether the handle was closed. -/
  results : List (Option P2PStreamResult × Bool)

namespace P2PWorld

/-- There is no handle yet. -/
def new : P2PWorld where
  handle := none
  made := false
  closed := false
  worker := []
  signaling := []
  listed := false
  stream := false
  signalledClose := false
  deletions := 0
  used := false
  leftover := false
  callbacks := []
  results := []

variable (w : P2PWorld)

/-- The handle has changed. -/
def withHandle (p : P2PSession) : P2PWorld := { w with handle := some p }

/-- The destructor: what is queued for the handle and by its stream is cleared. -/
def delete : P2PWorld :=
  match w.handle with
  | none => { w with used := true }
  | some _ =>
    { w with
      handle := none
      deletions := w.deletions + 1
      leftover := w.leftover || w.worker.any WorkerMessage.isOwn || !w.signaling.isEmpty
      worker := w.worker.filter fun m => match m with
        | .postEvent _ => true
        | _ => false
      signaling := []
      stream := false }

/-- The handle after an event, before the listener is called. -/
def opened (p : P2PSession) (e : EventData) : P2PSession :=
  if e.seOpen ∧ p.mode = .initiative then { p with state := .connected, stateEvent := true }
  else p

def onEvent (p : P2PSession) (e : EventData) : P2PWorld :=
  let p := opened p e
  let w := w.withHandle p
  if e.seClose ∧ p.state = .closing then w.delete
  else if p.eventCb then { w with callbacks := w.callbacks ++ [(e, w.closed)] }
  else w

/-- The stream signals an event: to the handle, if that has connected to it. -/
def signal (e : EventData) : P2PWorld :=
  match w.handle with
  | none => w
  | some p => if p.st then w.onEvent p e else w

/-! ### Calls of the user -/

/-- `xmpp_p2p_create`, with or without a listener. -/
def create (eventCb : Bool) : Option P2PWorld :=
  if w.made then none
  else
    some { w with
      handle := some {
        magic := true, st := false, state := .notConnect, mode := .initiative
        stateEvent := false, eventCb }
      made := true
      worker := w.worker ++ [.createP2P] }

/-- `xmpp_p2p_accept`. -/
def accept : Option P2PWorld :=
  if w.made then none
  else
    some { w with
      handle := some {
        magic := true, st := true, state := .connected, mode := .passive
        stateEvent := false, eventCb := false }
      made := true
      listed := true
      stream := true }

/-- `xmpp_p2p_close`, once. -/
def close : Option P2PWorld :=
  match w.handle with
  | none => none
  | some p =>
    if !p.magic then none
    else
      let w := { w.withHandle { p with magic := false } with closed := true }
      if p.state = .notConnect then
        some { w with signaling := w.signaling ++ [.checkSessionDestroy] }
      else some { w with worker := w.worker ++ [.destroyP2P] }

/-- `xmpp_p2p_read` or `xmpp_p2p_write`, where the stream returns `r`; nothing if the handle
has been deleted. -/
def transfer (r : P2PStreamResult) : Option P2PWorld :=
  if !w.made then none
  else
    let result := w.handle.map fun p => if !p.st || !p.magic then .error else r
    some { w with results := w.results ++ [(result, w.closed)] }

/-- `xmpp_p2p_event_listener`. -/
def eventListener : Option P2PWorld :=
  match w.handle with
  | none => none
  | some p => some (if p.magic then w.withHandle { p with eventCb := true } else w)

/-- `xmpp_p2p_post_event` on a handle that has its stream. -/
def postEvent (e : EventData) : Option P2PWorld :=
  match w.handle with
  | none => none
  | some p =>
    if !p.magic then some w
    else if !p.st then none
    else some { w with worker := w.worker ++ [.postEvent e] }

/-! ### The threads -/

/-- The worker thread handles its first message. -/
def stepWorker : Option P2PWorld :=
  match w.worker with
  | [] => none
  | .createP2P :: rest =>
    let w := { w with worker := rest }
    match w.handle with
    | none => some { w with used := true }
    | some p => some { w.withHandle { p with st := true } with listed := true, stream := true }
  | .destroyP2P :: rest => some { w with worker := rest }.delete
  | .event e :: rest =>
    some ({ w with worker := rest, signalledClose := w.signalledClose || e.seClose }.signal e)
  | .postEvent e :: rest => some ({ w with worker := rest }.signal e)

/-- The signaling thread handles its first message; `closes` says whether the end of the
tunnel makes the stream post `SE_CLOSE`. -/
def stepSignaling (closes : Bool) : Option P2PWorld :=
  match w.signaling with
  | [] => none
  | .checkSessionDestroy :: rest =>
    let w := { w with signaling := rest }
    match w.handle with
    | none => some { w with used := true }
    | some p =>
      if p.st ∧ w.listed then
        let w := { w.withHandle { p with state := .closing } with listed := false }
        some (if closes then { w with worker := w.worker ++ [.event { seClose := true }] } else w)
      else some { w with worker := w.worker ++ [.destroyP2P] }

/-- What can happen. -/
inductive Step
  | create (eventCb : Bool)
  | accept
  | close
  | transfer (r : P2PStreamResult)
  | eventListener
  | postEvent (e : EventData)
  | worker
  | signaling (closes : Bool)
  /-- The stream posts an event. -/
  | tunnel (e : EventData)
  /-- The tunnel is no session of the client any more. -/
  | sessionDestroyed

/-- The world after a step, if the step can happen. -/
def step : Step → Option P2PWorld
  | .create eventCb => w.create eventCb
  | .accept => w.accept
  | .close => w.close
  | .transfer r => w.transfer r
  | .eventListener => w.eventListener
  | .postEvent e => w.postEvent e
  | .worker => w.stepWorker
  | .signaling closes => w.stepSignaling closes
  | .tunnel e => if w.stream then some { w with worker := w.worker ++ [.event e] } else none
  | .sessionDestroyed => some { w with listed := false }

/-- The world after some steps. -/
def run (w : P2PWorld) : List Step → Option P2PWorld
  | [] => some w
  | s :: ss => (w.step s).bind fun w => w.run ss

/-! ### What should hold -/

/-- **The life cycle of a handle**: it is deleted at most once, is not used afterwards and
leaves no message behind, and it has been deleted when it is closed, the stream has
signalled its end and nothing is queued. -/
structure LifeCycle (w : P2PWorld) : Prop where
  once : w.deletions ≤ 1
  unused : w.used = false
  clean : w.leftover = false
  gone : w.closed = true → w.worker = [] → w.signaling = [] → w.signalledClose = true →
    w.handle = none ∧ w.deletions = 1

/-- An end of the stream that is queued. -/
def PendingClose (w : P2PWorld) : Prop := ∃ e : EventData, .event e ∈ w.worker ∧ e.seClose = true

/-- The event that the first message of the worker thread signals. -/
def firstEvent (w : P2PWorld) : Option EventData :=
  match w.worker with
  | .event e :: _ | .postEvent e :: _ => some e
  | _ => none

/-- A step after which the handle is deleted in the end: a handle that waits for the end of
its stream is not told that it is open, and a handle does not begin to wait when the stream
has signalled its end and will not do so again. -/
def FineStep (w : P2PWorld) : Step → Prop
  | .worker => ∀ p ∈ w.handle, p.st = true → p.state = .closing → p.mode = .initiative →
    ∀ e ∈ w.firstEvent, e.seOpen = false
  | .signaling closes => ∀ p ∈ w.handle, p.st = true → w.listed = true →
    w.signalledClose = true → closes = true ∨ w.PendingClose
  | _ => True

/-- All steps of a run are fine. -/
def FineSteps (w : P2PWorld) : List Step → Prop
  | [] => True
  | s :: ss => FineStep w s ∧ ∀ w', w.step s = some w' → FineSteps w' ss

/-! ### The invariant -/

/-- Where a handle is on its way: in use, closed with a message on the signaling thread or
on the worker thread, or waiting for the end of its stream. -/
inductive Stage
  | inUse | checking | destroying | leaving
  deriving DecidableEq

/-- What is queued for a handle at a stage. -/
structure At (w : P2PWorld) (p : P2PSession) (stage : Stage) : Prop where
  own : w.worker.filter WorkerMessage.isOwn =
    (if p.st then [] else [.createP2P]) ++ if stage = .destroying then [.destroyP2P] else []
  signaling : w.signaling = if stage = .checking then [.checkSessionDestroy] else []
  made : w.made = true
  closed : w.closed = true ↔ stage ≠ .inUse
  magic : p.magic = true ↔ stage = .inUse
  deletions : w.deletions = 0
  leaving : stage = .leaving → p.st = true
  closing : p.state = .closing → stage = .leaving

/-- What is left when there is no handle. -/
structure Without (w : P2PWorld) : Prop where
  own : w.worker.filter WorkerMessage.isOwn = []
  signaling : w.signaling = []
  deletions : w.deletions = if w.made then 1 else 0
  closed : w.closed = w.made

/-- **The invariant.** -/
structure Kept (w : P2PWorld) : Prop where
  unused : w.used = false
  clean : w.leftover = false
  handle : (w.handle = none ∧ Without w) ∨ ∃ p stage, w.handle = some p ∧ At w p stage

/-- A handle that waits for the end of its stream does so, and the end comes. -/
def Awaits (w : P2PWorld) : Prop :=
  ∀ p, w.handle = some p → At w p .leaving →
    p.state = .closing ∧ (w.signalledClose = true → w.PendingClose)

variable {w w' : P2PWorld} {p : P2PSession} {stage : Stage}

theorem Kept.lifeCycle (h : Kept w) (ha : Awaits w) : LifeCycle w := by
  rcases h.handle with ⟨hnone, hw⟩ | ⟨p, stage, hp, hat⟩
  · refine ⟨?_, h.unused, h.clean, fun hclosed _ _ _ => ⟨hnone, ?_⟩⟩
    · rw [hw.deletions]
      split_ifs <;> omega
    · rw [hw.deletions, ← hw.closed, if_pos hclosed]
  · refine ⟨by rw [hat.deletions]; exact Nat.zero_le 1, h.unused, h.clean, ?_⟩
    intro hclosed hworker hsig hclose
    have hown := hat.own
    have hsignaling := hat.signaling
    rw [hworker] at hown
    rw [hsig] at hsignaling
    cases stage with
    | inUse => exact absurd rfl (hat.closed.mp hclosed)
    | checking => cases hsignaling
    | destroying => simp at hown
    | leaving =>
      obtain ⟨e, he, -⟩ := (ha p hp hat).2 hclose
      rw [hworker] at he
      cases he

/-! ### The steps -/

@[simp] theorem filter_createP2P (ms : List WorkerMessage) :
    (WorkerMessage.createP2P :: ms).filter WorkerMessage.isOwn =
      .createP2P :: ms.filter WorkerMessage.isOwn := rfl

@[simp] theorem filter_destroyP2P (ms : List WorkerMessage) :
    (WorkerMessage.destroyP2P :: ms).filter WorkerMessage.isOwn =
      .destroyP2P :: ms.filter WorkerMessage.isOwn := rfl

@[simp] theorem filter_event (e : EventData) (ms : List WorkerMessage) :
    (WorkerMessage.event e :: ms).filter WorkerMessage.isOwn =
      ms.filter WorkerMessage.isOwn := rfl

@[simp] theorem filter_postEvent (e : EventData) (ms : List WorkerMessage) :
    (WorkerMessage.postEvent e :: ms).filter WorkerMessage.isOwn =
      ms.filter WorkerMessage.isOwn := rfl

theorem kept_delete (hu : w.used = false) (hl : w.leftover = false) (hp : w.handle = some p)
    (hown : w.worker.filter WorkerMessage.isOwn = []) (hsig : w.signaling = [])
    (hd : w.deletions = 0) (hm : w.made = true) (hc : w.closed = true) : Kept w.delete := by
  have hany : w.worker.any WorkerMessage.isOwn = false := by
    rw [List.any_eq_false]
    intro m hmem hown'
    have hin : m ∈ w.worker.filter WorkerMessage.isOwn := List.mem_filter.mpr ⟨hmem, hown'⟩
    rw [hown] at hin
    cases hin
  unfold delete
  rw [hp]
  refine ⟨hu, by simp [hl, hany, hsig], .inl ⟨rfl, ?_, rfl, ?_, ?_⟩⟩
  · refine List.filter_eq_nil_iff.mpr fun m hm' => ?_
    have hpost := (List.mem_filter.mp hm').2
    cases m <;> simp_all [WorkerMessage.isOwn]
  · simp [hd, hm]
  · show w.closed = w.made
    rw [hc, hm]

theorem At.of_eq (h : At w p stage) (p' : P2PSession)
    (hown : w'.worker.filter WorkerMessage.isOwn = w.worker.filter WorkerMessage.isOwn)
    (hsig : w'.signaling = w.signaling) (hm : w'.made = w.made) (hc : w'.closed = w.closed)
    (hd : w'.deletions = w.deletions) (hst : p'.st = p.st) (hmagic : p'.magic = p.magic)
    (hstate : p'.state = .closing → p.state = .closing) : At w' p' stage where
  own := by rw [hown, hst]; exact h.own
  signaling := hsig.trans h.signaling
  made := hm.trans h.made
  closed := by rw [hc]; exact h.closed
  magic := by rw [hmagic]; exact h.magic
  deletions := hd.trans h.deletions
  leaving := fun hs => hst.trans (h.leaving hs)
  closing := fun hs => h.closing (hstate hs)

theorem Without.of_eq (h : Without w)
    (hown : w'.worker.filter WorkerMessage.isOwn = w.worker.filter WorkerMessage.isOwn)
    (hsig : w'.signaling = w.signaling) (hm : w'.made = w.made) (hc : w'.closed = w.closed)
    (hd : w'.deletions = w.deletions) : Without w' where
  own := hown.trans h.own
  signaling := hsig.trans h.signaling
  deletions := by rw [hd, hm]; exact h.deletions
  closed := by rw [hc, hm]; exact h.closed

theorem Kept.of_eq (h : Kept w) (hh : w'.handle = w.handle)
    (hown : w'.worker.filter WorkerMessage.isOwn = w.worker.filter WorkerMessage.isOwn)
    (hsig : w'.signaling = w.signaling) (hm : w'.made = w.made) (hc : w'.closed = w.closed)
    (hd : w'.deletions = w.deletions) (hu : w'.used = w.used)
    (hl : w'.leftover = w.leftover) : Kept w' := by
  refine ⟨hu.trans h.unused, hl.trans h.clean, ?_⟩
  rcases h.handle with ⟨hnone, hw⟩ | ⟨p, stage, hp, hat⟩
  · exact .inl ⟨hh.trans hnone, hw.of_eq hown hsig hm hc hd⟩
  · exact .inr ⟨p, stage, hh.trans hp, hat.of_eq p hown hsig hm hc hd rfl rfl id⟩

@[simp] theorem opened_st (p : P2PSession) (e : EventData) : (opened p e).st = p.st := by
  unfold opened
  split_ifs <;> rfl

@[simp] theorem opened_magic (p : P2PSession) (e : EventData) : (opened p e).magic = p.magic := by
  unfold opened
  split_ifs <;> rfl

@[simp] theorem opened_eventCb (p : P2PSession) (e : EventData) :
    (opened p e).eventCb = p.eventCb := by
  unfold opened
  split_ifs <;> rfl

theorem opened_state {e : EventData} (h : (opened p e).state = .closing) : p.state = .closing := by
  unfold opened at h
  split_ifs at h
  exact h

theorem kept_signal (h : Kept w) (e : EventData) : Kept (w.signal e) := by
  unfold signal
  rcases h.handle with ⟨hnone, -⟩ | ⟨p, stage, hp, hat⟩
  · rw [hnone]
    exact h
  rw [hp]
  dsimp only
  split_ifs with hst
  · unfold onEvent
    dsimp only
    have hat' : At (w.withHandle (opened p e)) (opened p e) stage :=
      hat.of_eq (opened p e) rfl rfl rfl rfl rfl (opened_st p e) (opened_magic p e) opened_state
    split_ifs with hclose hcb
    · -- a handle that waits for the end of its stream has nothing queued
      have hstage : stage = .leaving := hat.closing (opened_state hclose.2)
      subst hstage
      have hown := hat'.own
      rw [opened_st, hst] at hown
      exact kept_delete h.unused h.clean rfl hown hat'.signaling hat'.deletions hat'.made
        (hat'.closed.mpr (by simp))
    · exact ⟨h.unused, h.clean, .inr ⟨opened p e, stage, rfl,
        hat'.of_eq _ rfl rfl rfl rfl rfl rfl rfl id⟩⟩
    · exact ⟨h.unused, h.clean, .inr ⟨opened p e, stage, rfl, hat'⟩⟩
  · exact h

theorem kept_worker (h : Kept w) (hstep : w.stepWorker = some w') : Kept w' := by
  unfold stepWorker at hstep
  split at hstep
  · cases hstep
  next rest hworker =>
    rcases h.handle with ⟨hnone, hw⟩ | ⟨p, stage, hp, hat⟩
    · have hown := hw.own
      rw [hworker] at hown
      cases hown
    · dsimp only at hstep
      rw [hp] at hstep
      cases hstep
      have hown := hat.own
      rw [hworker] at hown
      have hst : p.st = false := by
        by_contra hst
        rw [Bool.not_eq_false] at hst
        rw [hst] at hown
        cases stage <;> simp at hown
      rw [hst] at hown
      refine ⟨h.unused, h.clean, .inr ⟨{ p with st := true }, stage, rfl, ?_⟩⟩
      exact {
        own := by
          show rest.filter _ = _
          simpa using hown
        signaling := hat.signaling
        made := hat.made
        closed := hat.closed
        magic := hat.magic
        deletions := hat.deletions
        leaving := fun _ => rfl
        closing := hat.closing }
  next rest hworker =>
    rcases h.handle with ⟨hnone, hw⟩ | ⟨p, stage, hp, hat⟩
    · have hown := hw.own
      rw [hworker] at hown
      cases hown
    · cases hstep
      have hown := hat.own
      rw [hworker] at hown
      have hst : p.st = true := by
        by_contra hst
        rw [Bool.not_eq_true] at hst
        rw [hst] at hown
        cases stage <;> simp at hown
      have hstage : stage = .destroying := by
        by_contra hstage
        rw [hst] at hown
        simp [hstage] at hown
      subst hstage
      rw [hst] at hown
      exact kept_delete (w := { w with worker := rest }) h.unused h.clean hp (by simpa using hown)
        hat.signaling hat.deletions hat.made (hat.closed.mpr (by simp))
  next e rest hworker =>
    cases hstep
    have hk : Kept { w with worker := rest, signalledClose := w.signalledClose || e.seClose } :=
      h.of_eq rfl (by rw [hworker]; rfl) rfl rfl rfl rfl rfl rfl
    exact kept_signal hk e
  next e rest hworker =>
    cases hstep
    have hk : Kept { w with worker := rest } :=
      h.of_eq rfl (by rw [hworker]; rfl) rfl rfl rfl rfl rfl rfl
    exact kept_signal hk e

theorem kept_signaling (h : Kept w) {closes : Bool} (hstep : w.stepSignaling closes = some w') :
    Kept w' := by
  unfold stepSignaling at hstep
  split at hstep
  · cases hstep
  next rest hsig =>
    rcases h.handle with ⟨hnone, hw⟩ | ⟨p, stage, hp, hat⟩
    · have hs := hw.signaling
      rw [hsig] at hs
      cases hs
    · have hs := hat.signaling
      rw [hsig] at hs
      have hstage : stage = .checking := by
        by_contra hstage
        rw [if_neg hstage] at hs
        cases hs
      subst hstage
      have hrest : rest = [] := (List.cons.inj hs).2
      have hclosed : w.closed = true := hat.closed.mpr (by simp)
      have hmagic : ¬ p.magic = true := fun hm => by cases hat.magic.mp hm
      dsimp only at hstep
      rw [hp] at hstep
      dsimp only at hstep
      split_ifs at hstep with hlisted hcloses
      · cases hstep
        refine ⟨h.unused, h.clean, .inr ⟨{ p with state := .closing }, .leaving, rfl, ?_⟩⟩
        have hown := hat.own
        exact {
          own := by
            show (w.worker ++ [_]).filter _ = _
            rw [List.filter_append, hown]
            simp
          signaling := hrest
          made := hat.made
          closed := iff_of_true hclosed (by simp)
          magic := iff_of_false hmagic (by simp)
          deletions := hat.deletions
          leaving := fun _ => hlisted.1
          closing := fun _ => rfl }
      · cases hstep
        refine ⟨h.unused, h.clean, .inr ⟨{ p with state := .closing }, .leaving, rfl, ?_⟩⟩
        have hown := hat.own
        exact {
          own := by
            show w.worker.filter _ = _
            simpa using hown
          signaling := hrest
          made := hat.made
          closed := iff_of_true hclosed (by simp)
          magic := iff_of_false hmagic (by simp)
          deletions := hat.deletions
          leaving := fun _ => hlisted.1
          closing := fun _ => rfl }
      · cases hstep
        refine ⟨h.unused, h.clean, .inr ⟨p, .destroying, rfl, ?_⟩⟩
        have hown := hat.own
        exact {
          own := by
            show (w.worker ++ [_]).filter _ = _
            rw [List.filter_append, hown]
            simp
          signaling := hrest
          made := hat.made
          closed := iff_of_true hclosed (by simp)
          magic := iff_of_false hmagic (by simp)
          deletions := hat.deletions
          leaving := fun hs => by cases hs
          closing := fun hs => by cases hat.closing hs }

theorem kept_step (h : Kept w) {s : Step} (hstep : w.step s = some w') : Kept w' := by
  cases s with
  | create eventCb =>
    have hstep : w.create eventCb = some w' := hstep
    unfold create at hstep
    split_ifs at hstep with hmade
    cases hstep
    rcases h.handle with ⟨hnone, hw⟩ | ⟨p, stage, hp, hat⟩
    · refine ⟨h.unused, h.clean, .inr ⟨_, .inUse, rfl, ?_⟩⟩
      have hown := hw.own
      have hd := hw.deletions
      rw [if_neg hmade] at hd
      exact {
        own := by
          show (w.worker ++ [_]).filter _ = _
          rw [List.filter_append, hown]
          simp
        signaling := hw.signaling
        made := rfl
        closed := by
          show w.closed = true ↔ _
          rw [hw.closed]
          simpa using hmade
        magic := by simp
        deletions := hd
        leaving := fun hs => by cases hs
        closing := fun hs => by cases hs }
    · exact absurd hat.made hmade
  | accept =>
    have hstep : w.accept = some w' := hstep
    unfold accept at hstep
    split_ifs at hstep with hmade
    cases hstep
    rcases h.handle with ⟨hnone, hw⟩ | ⟨p, stage, hp, hat⟩
    · refine ⟨h.unused, h.clean, .inr ⟨_, .inUse, rfl, ?_⟩⟩
      have hown := hw.own
      have hd := hw.deletions
      rw [if_neg hmade] at hd
      exact {
        own := by
          show w.worker.filter _ = _
          rw [hown]
          simp
        signaling := hw.signaling
        made := rfl
        closed := by
          show w.closed = true ↔ _
          rw [hw.closed]
          simpa using hmade
        magic := by simp
        deletions := hd
        leaving := fun _ => rfl
        closing := fun hs => by cases hs }
    · exact absurd hat.made hmade
  | close =>
    have hstep : w.close = some w' := hstep
    unfold close at hstep
    rcases h.handle with ⟨hnone, hw⟩ | ⟨p, stage, hp, hat⟩
    · rw [hnone] at hstep
      cases hstep
    · rw [hp] at hstep
      dsimp only at hstep
      split_ifs at hstep with hmagic hstate
      · cases hstep
        have hstage : stage = .inUse := hat.magic.mp (by simpa using hmagic)
        subst hstage
        have hown := hat.own
        refine ⟨h.unused, h.clean, .inr ⟨{ p with magic := false }, .checking, rfl, ?_⟩⟩
        exact {
          own := by
            show w.worker.filter _ = _
            simpa using hown
          signaling := by
            show w.signaling ++ _ = _
            rw [hat.signaling]
            rfl
          made := hat.made
          closed := by simp
          magic := by simp
          deletions := hat.deletions
          leaving := fun hs => by cases hs
          closing := fun hs => by cases hat.closing hs }
      · cases hstep
        have hstage : stage = .inUse := hat.magic.mp (by simpa using hmagic)
        subst hstage
        have hown := hat.own
        refine ⟨h.unused, h.clean, .inr ⟨{ p with magic := false }, .destroying, rfl, ?_⟩⟩
        exact {
          own := by
            show (w.worker ++ [_]).filter _ = _
            rw [List.filter_append, hown]
            simp
          signaling := hat.signaling
          made := hat.made
          closed := by simp
          magic := by simp
          deletions := hat.deletions
          leaving := fun hs => by cases hs
          closing := fun hs => by cases hat.closing hs }
  | transfer r =>
    have hstep : w.transfer r = some w' := hstep
    unfold transfer at hstep
    split_ifs at hstep
    cases hstep
    exact h.of_eq rfl rfl rfl rfl rfl rfl rfl rfl
  | eventListener =>
    have hstep : w.eventListener = some w' := hstep
    unfold eventListener at hstep
    rcases h.handle with ⟨hnone, hw⟩ | ⟨p, stage, hp, hat⟩
    · rw [hnone] at hstep
      cases hstep
    · rw [hp] at hstep
      cases hstep
      split_ifs
      · exact ⟨h.unused, h.clean, .inr ⟨{ p with eventCb := true }, stage, rfl,
          hat.of_eq _ rfl rfl rfl rfl rfl rfl rfl id⟩⟩
      · exact h
  | postEvent e =>
    have hstep : w.postEvent e = some w' := hstep
    unfold postEvent at hstep
    rcases h.handle with ⟨hnone, hw⟩ | ⟨p, stage, hp, hat⟩
    · rw [hnone] at hstep
      cases hstep
    · rw [hp] at hstep
      dsimp only at hstep
      split_ifs at hstep
      · cases hstep
        exact h
      · cases hstep
        refine h.of_eq hp.symm ?_ rfl rfl rfl rfl rfl rfl
        show (w.worker ++ [_]).filter _ = _
        rw [List.filter_append]
        exact List.append_nil _
  | worker => exact kept_worker h hstep
  | signaling closes => exact kept_signaling h hstep
  | tunnel e =>
    have hstep : (if w.stream then some { w with worker := w.worker ++ [.event e] } else none) =
      some w' := hstep
    split_ifs at hstep
    cases hstep
    refine h.of_eq rfl ?_ rfl rfl rfl rfl rfl rfl
    show (w.worker ++ [_]).filter _ = _
    rw [List.filter_append]
    exact List.append_nil _
  | sessionDestroyed =>
    cases hstep
    exact h.of_eq rfl rfl rfl rfl rfl rfl rfl rfl

theorem kept_run (ss : List Step) : ∀ {w w' : P2PWorld}, Kept w → w.run ss = some w' →
    Kept w' := by
  induction ss with
  | nil =>
    intro w w' h hrun
    cases hrun
    exact h
  | cons s ss ih =>
    intro w w' h hrun
    obtain ⟨w₁, hstep, hrun⟩ := Option.bind_eq_some_iff.mp hrun
    exact ih (kept_step h hstep) hrun

/-! ### Waiting for the end of the stream -/

theorem PendingClose.mono (h : w.PendingClose) (hsub : ∀ m ∈ w.worker, m ∈ w'.worker) :
    w'.PendingClose := by
  obtain ⟨e, he, hclose⟩ := h
  exact ⟨e, hsub _ he, hclose⟩

theorem Awaits.of_eq (h : Awaits w) (hh : w'.handle = w.handle)
    (hown : w'.worker.filter WorkerMessage.isOwn = w.worker.filter WorkerMessage.isOwn)
    (hsig : w'.signaling = w.signaling) (hm : w'.made = w.made) (hc : w'.closed = w.closed)
    (hd : w'.deletions = w.deletions) (hclose : w'.signalledClose = w.signalledClose)
    (hsub : ∀ m ∈ w.worker, m ∈ w'.worker) : Awaits w' := by
  intro p hp hat
  obtain ⟨hstate, hpending⟩ := h p (hh.symm.trans hp)
    (hat.of_eq p hown.symm hsig.symm hm.symm hc.symm hd.symm rfl rfl id)
  exact ⟨hstate, fun hs => (hpending (hclose.symm.trans hs)).mono hsub⟩

theorem At.not_magic (h : At w p .leaving) : p.magic = false := by
  by_contra hm
  rw [Bool.not_eq_false] at hm
  cases h.magic.mp hm

theorem At.own_nil (h : At w p .leaving) : w.worker.filter WorkerMessage.isOwn = [] := by
  have hown := h.own
  rw [h.leaving rfl] at hown
  exact hown

theorem onEvent_delete {e : EventData} (h : e.seClose = true ∧ (opened p e).state = .closing) :
    w.onEvent p e = (w.withHandle (opened p e)).delete := if_pos h

theorem onEvent_keep {e : EventData} (h : ¬ (e.seClose = true ∧ (opened p e).state = .closing)) :
    ∃ cbs, w.onEvent p e = { w.withHandle (opened p e) with callbacks := cbs } := by
  unfold onEvent
  dsimp only
  rw [if_neg h]
  split_ifs
  · exact ⟨_, rfl⟩
  · exact ⟨_, rfl⟩

theorem awaits_delete : Awaits w.delete := by
  intro p hp
  unfold delete at hp
  split at hp
  next hnone =>
    rw [hnone] at hp
    cases hp
  · cases hp

theorem awaits_signal {rest : List WorkerMessage} {m : WorkerMessage} {e : EventData} {b : Bool}
    (hworker : w.worker = m :: rest) (hm : m = .event e ∧ b = (w.signalledClose || e.seClose) ∨
      m = .postEvent e ∧ b = w.signalledClose)
    (ha : Awaits w) (hf : ∀ p ∈ w.handle, p.st = true → p.state = .closing →
      p.mode = .initiative → e.seOpen = false) :
    Awaits ({ w with worker := rest, signalledClose := b }.signal e) := by
  have hrest : rest.filter WorkerMessage.isOwn = w.worker.filter WorkerMessage.isOwn := by
    rw [hworker]
    rcases hm with ⟨rfl, -⟩ | ⟨rfl, -⟩ <;> rfl
  rcases Option.eq_none_or_eq_some w.handle with hp | ⟨p, hp⟩
  · intro p' hp'
    rw [signal] at hp'
    dsimp only at hp'
    rw [hp] at hp'
    cases hp'
  · have hsignal : ({ w with worker := rest, signalledClose := b } : P2PWorld).signal e =
        if p.st then ({ w with worker := rest, signalledClose := b } : P2PWorld).onEvent p e
        else { w with worker := rest, signalledClose := b } := by
      unfold signal
      dsimp only
      rw [hp]
    rw [hsignal]
    split_ifs with hst
    · by_cases hdel : e.seClose = true ∧ (opened p e).state = .closing
      · rw [onEvent_delete hdel]
        exact awaits_delete
      obtain ⟨cbs, hevent⟩ := onEvent_keep (w := { w with worker := rest, signalledClose := b }) hdel
      rw [hevent]
      intro p' hp' hat
      cases hp'
      -- the handle has waited before the event
      have hatw : At w p .leaving := {
        own := by
          rw [hst, ← hrest]
          exact hat.own_nil
        signaling := hat.signaling
        made := hat.made
        closed := hat.closed
        magic := by
          rw [← opened_magic p e]
          exact hat.magic
        deletions := hat.deletions
        leaving := fun _ => hst
        closing := fun _ => rfl }
      obtain ⟨hstate, hpending⟩ := ha p hp hatw
      have hopen : opened p e = p := by
        unfold opened
        rw [if_neg]
        rintro ⟨hopen, hmode⟩
        rw [hf p hp hst hstate hmode] at hopen
        cases hopen
      rw [hopen] at hdel ⊢
      have hnoclose : e.seClose = false := by
        by_contra hclose
        exact hdel ⟨by simpa using hclose, hstate⟩
      refine ⟨hstate, fun hs => ?_⟩
      have hs : b = true := hs
      have hsw : w.signalledClose = true := by
        rcases hm with ⟨-, rfl⟩ | ⟨-, rfl⟩
        · simpa [hnoclose] using hs
        · exact hs
      obtain ⟨e', he', hclose'⟩ := hpending hsw
      refine ⟨e', ?_, hclose'⟩
      show .event e' ∈ rest
      rw [hworker] at he'
      rcases List.mem_cons.mp he' with heq | he'
      · rcases hm with ⟨rfl, -⟩ | ⟨rfl, -⟩
        · cases heq
          rw [hnoclose] at hclose'
          cases hclose'
        · cases heq
      · exact he'
    · intro p' hp' hat
      cases hp.symm.trans hp'
      exact absurd (hat.leaving rfl) hst

theorem awaits_step (h : Kept w) (ha : Awaits w) {s : Step} (hf : FineStep w s)
    (hstep : w.step s = some w') : Awaits w' := by
  cases s with
  | create eventCb =>
    have hstep : w.create eventCb = some w' := hstep
    unfold create at hstep
    split_ifs at hstep with hmade
    cases hstep
    intro p hp hat
    cases hp
    cases hat.not_magic
  | accept =>
    have hstep : w.accept = some w' := hstep
    unfold accept at hstep
    split_ifs at hstep with hmade
    cases hstep
    intro p hp hat
    cases hp
    cases hat.not_magic
  | close =>
    have hstep : w.close = some w' := hstep
    unfold close at hstep
    cases hp : w.handle with
    | none =>
      rw [hp] at hstep
      cases hstep
    | some p =>
      rw [hp] at hstep
      dsimp only at hstep
      split_ifs at hstep with hmagic hstate
      · cases hstep
        intro p' _ hat
        have hsig : w.signaling ++ [_] = [] := hat.signaling
        simp at hsig
      · cases hstep
        intro p' _ hat
        have hown : (w.worker ++ [_]).filter WorkerMessage.isOwn = [] := hat.own_nil
        rw [List.filter_append] at hown
        cases (List.append_eq_nil_iff.mp hown).2
  | transfer r =>
    have hstep : w.transfer r = some w' := hstep
    unfold transfer at hstep
    split_ifs at hstep
    cases hstep
    exact ha.of_eq rfl rfl rfl rfl rfl rfl rfl fun _ hm => hm
  | eventListener =>
    have hstep : w.eventListener = some w' := hstep
    unfold eventListener at hstep
    cases hp : w.handle with
    | none =>
      rw [hp] at hstep
      cases hstep
    | some p =>
      rw [hp] at hstep
      cases hstep
      split_ifs with hmagic
      · intro p' hp' hat
        cases hp'
        have hno : p.magic = false := hat.not_magic
        rw [hmagic] at hno
        cases hno
      · exact ha
  | postEvent e =>
    have hstep : w.postEvent e = some w' := hstep
    unfold postEvent at hstep
    cases hp : w.handle with
    | none =>
      rw [hp] at hstep
      cases hstep
    | some p =>
      rw [hp] at hstep
      dsimp only at hstep
      split_ifs at hstep
      · cases hstep
        exact ha
      · cases hstep
        refine ha.of_eq hp.symm ?_ rfl rfl rfl rfl rfl fun _ hm => List.mem_append_left _ hm
        show (w.worker ++ [_]).filter _ = _
        rw [List.filter_append]
        exact List.append_nil _
  | worker =>
    have hstep : w.stepWorker = some w' := hstep
    unfold stepWorker at hstep
    split at hstep
    · cases hstep
    next rest hworker =>
      dsimp only at hstep
      cases hp : w.handle with
      | none =>
        rw [hp] at hstep
        cases hstep
        intro p hp'
        cases hp'
      | some p =>
        rw [hp] at hstep
        cases hstep
        intro p' hp' hat
        -- a handle whose tunnel is not made yet does not wait
        obtain ⟨_, stage, hp₁, hatw⟩ := h.handle.resolve_left fun hno => by
          rw [hp] at hno
          cases hno.1
        cases hp.symm.trans hp₁
        have hrest : rest.filter WorkerMessage.isOwn = [] := hat.own_nil
        have hown := hatw.own
        rw [hworker, filter_createP2P, hrest] at hown
        have hsig : w.signaling = [] := hat.signaling
        have hclosed : w.closed = true := hat.closed.mpr (by simp)
        cases stage with
        | inUse => exact absurd rfl (hatw.closed.mp hclosed)
        | checking =>
          have hone := hatw.signaling
          rw [hsig] at hone
          cases hone
        | destroying => cases hst : p.st <;> simp [hst] at hown
        | leaving =>
          rw [hatw.leaving rfl] at hown
          cases hown
    next rest hworker =>
      cases hstep
      exact awaits_delete
    next e rest hworker =>
      cases hstep
      refine awaits_signal hworker (.inl ⟨rfl, rfl⟩) ha fun p hp hst hstate hmode => ?_
      exact hf p hp hst hstate hmode e (by rw [firstEvent, hworker]; rfl)
    next e rest hworker =>
      cases hstep
      refine awaits_signal hworker (.inr ⟨rfl, rfl⟩) ha fun p hp hst hstate hmode => ?_
      exact hf p hp hst hstate hmode e (by rw [firstEvent, hworker]; rfl)
  | signaling closes =>
    have hstep : w.stepSignaling closes = some w' := hstep
    unfold stepSignaling at hstep
    split at hstep
    · cases hstep
    next rest hsig =>
      dsimp only at hstep
      cases hp : w.handle with
      | none =>
        rw [hp] at hstep
        cases hstep
        intro p hp'
        cases hp'
      | some p =>
        rw [hp] at hstep
        dsimp only at hstep
        split_ifs at hstep with hlisted hcloses
        · cases hstep
          intro p' hp' _
          cases hp'
          exact ⟨rfl, fun _ => ⟨{ seClose := true },
            List.mem_append_right _ (List.mem_singleton_self _), rfl⟩⟩
        · cases hstep
          intro p' hp' _
          cases hp'
          refine ⟨rfl, fun hs => ?_⟩
          exact (hf p hp hlisted.1 hlisted.2 hs).resolve_left hcloses
        · cases hstep
          intro p' _ hat
          have hown : (w.worker ++ [_]).filter WorkerMessage.isOwn = [] := hat.own_nil
          rw [List.filter_append] at hown
          cases (List.append_eq_nil_iff.mp hown).2
  | tunnel e =>
    have hstep : (if w.stream then some { w with worker := w.worker ++ [.event e] } else none) =
      some w' := hstep
    split_ifs at hstep
    cases hstep
    refine ha.of_eq rfl ?_ rfl rfl rfl rfl rfl fun _ hm => List.mem_append_left _ hm
    show (w.worker ++ [_]).filter _ = _
    rw [List.filter_append]
    exact List.append_nil _
  | sessionDestroyed =>
    cases hstep
    exact ha.of_eq rfl rfl rfl rfl rfl rfl rfl fun _ hm => hm

theorem awaits_run (ss : List Step) : ∀ {w w' : P2PWorld}, Kept w → Awaits w → FineSteps w ss →
    w.run ss = some w' → Awaits w' := by
  induction ss with
  | nil =>
    intro w w' _ ha _ hrun
    cases hrun
    exact ha
  | cons s ss ih =>
    intro w w' h ha hf hrun
    obtain ⟨w₁, hstep, hrun⟩ := Option.bind_eq_some_iff.mp hrun
    exact ih (kept_step h hstep) (awaits_step h ha hf.1 hstep) (hf.2 w₁ hstep) hrun

theorem kept_new : Kept new :=
  ⟨rfl, rfl, .inl ⟨rfl, rfl, rfl, rfl, rfl⟩⟩

/-- **The life cycle of a handle**, in every run: it is deleted at most once, is not used
afterwards and leaves no message behind; and if all steps are fine, it has been deleted
when it should have been. -/
theorem handle_life_cycle (ss : List Step) {w : P2PWorld} (hrun : new.run ss = some w) :
    (w.deletions ≤ 1 ∧ w.used = false ∧ w.leftover = false) ∧
      (FineSteps new ss → LifeCycle w) := by
  have hk := kept_run ss kept_new hrun
  refine ⟨⟨?_, hk.unused, hk.clean⟩, fun hf => ?_⟩
  · rcases hk.handle with ⟨-, hw⟩ | ⟨p, stage, -, hat⟩
    · rw [hw.deletions]
      split_ifs <;> omega
    · rw [hat.deletions]
      exact Nat.zero_le 1
  · exact hk.lifeCycle (awaits_run ss kept_new (fun p hp => by cases hp) hf hrun)

/-- A handle that is closed before its stream is open. -/
def sampleClose : List Step := [.create true, .worker, .close, .signaling true, .worker]

theorem handle_life_cycle_sample : ∃ w, new.run sampleClose = some w ∧
    ((w.deletions ≤ 1 ∧ w.used = false ∧ w.leftover = false) ∧
      (FineSteps new sampleClose → LifeCycle w)) ∧ w.handle = none := by
  have hrun : (new.run sampleClose).map handle = some none := by decide
  obtain ⟨w, hw, hnone⟩ := Option.map_eq_some_iff.mp hrun
  exact ⟨w, hw, handle_life_cycle sampleClose hw, hnone⟩

/-- The stream is open before the signaling thread ends the tunnel, and the handle hears of it
afterwards. -/
def lateOpen : List Step :=
  [.create true, .worker, .tunnel { seOpen := true, seRead := true, seWrite := true }, .close,
    .signaling true, .worker, .worker]

/-- The stream ends before the handle is closed. -/
def earlyClose : List Step :=
  [.create true, .worker, .tunnel { seClose := true }, .worker, .close, .signaling false]

/-- **A handle that is never deleted**: the event that opens the stream takes the place of the
state that was to delete the handle; and a handle waits for an end that it has heard
before. -/
theorem not_lifeCycle : (∃ w, new.run lateOpen = some w ∧ ¬ LifeCycle w) ∧
    ∃ w, new.run earlyClose = some w ∧ ¬ LifeCycle w := by
  have hend : ∀ ss, (new.run ss).map (fun w => (w.closed, w.worker, w.signaling,
      w.signalledClose, w.deletions)) = some (true, [], [], true, 0) →
      ∃ w, new.run ss = some w ∧ ¬ LifeCycle w := by
    intro ss hmap
    obtain ⟨w, hw, heq⟩ := Option.map_eq_some_iff.mp hmap
    simp only [Prod.mk.injEq] at heq
    obtain ⟨hclosed, hworker, hsig, hclose, hzero⟩ := heq
    refine ⟨w, hw, fun h => ?_⟩
    have hone := (h.gone hclosed hworker hsig hclose).2
    omega
  exact ⟨hend lateOpen (by decide), hend earlyClose (by decide)⟩

/-! ### Silence -/

/-- **The user hears nothing of a handle that is closed**: the listener has not been called
since, and reading and writing have failed. -/
structure Silent (w : P2PWorld) : Prop where
  callbacks : ∀ c ∈ w.callbacks, c.2 = false
  results : ∀ r ∈ w.results, r.2 = true → r.1 = some .error

/-- A step of which the user does not hear when the handle is closed: no event is signalled
to a handle with a listener, but the one that deletes it, and a handle that has been
deleted is not read or written. -/
def MuteStep (w : P2PWorld) : Step → Prop
  | .worker => w.closed = true → ∀ e ∈ w.firstEvent, ∀ p ∈ w.handle, p.st = true →
    p.eventCb = true →
      e.seClose = true ∧ p.state = .closing ∧ ¬ (e.seOpen = true ∧ p.mode = .initiative)
  | .transfer _ => w.closed = true → w.handle ≠ none
  | _ => True

/-- All steps of a run are mute. -/
def MuteSteps (w : P2PWorld) : List Step → Prop
  | [] => True
  | s :: ss => MuteStep w s ∧ ∀ w', w.step s = some w' → MuteSteps w' ss

theorem Silent.of_eq (hc : w'.callbacks = w.callbacks) (hr : w'.results = w.results) :
    Silent w' ↔ Silent w :=
  ⟨fun h => ⟨hc ▸ h.callbacks, hr ▸ h.results⟩, fun h => ⟨hc ▸ h.callbacks, hr ▸ h.results⟩⟩

theorem silent_withHandle (w : P2PWorld) (p : P2PSession) :
    Silent (w.withHandle p) ↔ Silent w :=
  @Silent.of_eq w (w.withHandle p) rfl rfl

theorem opened_state_iff {e : EventData} : (opened p e).state = .closing ↔
    p.state = .closing ∧ ¬ (e.seOpen = true ∧ p.mode = .initiative) := by
  unfold opened
  split_ifs with h
  · simp [h]
  · simp [h]

theorem delete_callbacks (w : P2PWorld) : w.delete.callbacks = w.callbacks := by
  unfold delete
  split <;> rfl

theorem delete_results (w : P2PWorld) : w.delete.results = w.results := by
  unfold delete
  split <;> rfl

theorem silent_signal (w : P2PWorld) (e : EventData) : Silent (w.signal e) ↔ Silent w ∧
    (w.closed = true → ∀ p ∈ w.handle, p.st = true → p.eventCb = true →
      e.seClose = true ∧ p.state = .closing ∧ ¬ (e.seOpen = true ∧ p.mode = .initiative)) := by
  unfold signal
  rcases Option.eq_none_or_eq_some w.handle with hp | ⟨p, hp⟩
  · rw [hp]
    simp
  rw [hp]
  simp only [Option.mem_some_iff, forall_eq']
  split_ifs with hst
  · by_cases hdel : e.seClose = true ∧ (opened p e).state = .closing
    · rw [onEvent_delete hdel, Silent.of_eq (delete_callbacks _) (delete_results _),
        silent_withHandle]
      exact (and_iff_left fun _ _ _ => ⟨hdel.1, opened_state_iff.mp hdel.2⟩).symm
    · have hno : ¬ (e.seClose = true ∧ p.state = .closing ∧
          ¬ (e.seOpen = true ∧ p.mode = .initiative)) := fun h =>
        hdel ⟨h.1, opened_state_iff.mpr h.2⟩
      unfold onEvent
      dsimp only
      rw [if_neg hdel, opened_eventCb]
      split_ifs with hcb
      · -- the listener is called
        constructor
        · intro h
          have hopen : w.closed = false :=
            h.callbacks (e, w.closed) (List.mem_append_right _ (List.mem_singleton_self _))
          refine ⟨⟨fun c hc => h.callbacks c (List.mem_append_left _ hc), h.results⟩,
            fun hclosed => ?_⟩
          rw [hopen] at hclosed
          cases hclosed
        · rintro ⟨h, hmute⟩
          refine ⟨fun c hc => ?_, h.results⟩
          rcases List.mem_append.mp hc with hc | hc
          · exact h.callbacks c hc
          · rw [List.mem_singleton.mp hc]
            by_contra hclosed
            exact hno (hmute (Bool.not_eq_false _ ▸ hclosed) hst hcb)
      · rw [silent_withHandle]
        exact ⟨fun h => ⟨h, fun _ _ hcb' => absurd hcb' hcb⟩, fun h => h.1⟩
  · exact ⟨fun h => ⟨h, fun _ hst' => absurd hst' hst⟩, fun h => h.1⟩

theorem silent_unheard {s : Step} (hm : MuteStep w s) (hc : w'.callbacks = w.callbacks)
    (hr : w'.results = w.results) : Silent w' ↔ Silent w ∧ MuteStep w s :=
  (Silent.of_eq hc hr).trans (and_iff_left hm).symm

theorem silent_step (hk : Kept w) {s : Step} (hstep : w.step s = some w') :
    Silent w' ↔ Silent w ∧ MuteStep w s := by
  cases s with
  | worker =>
    have hstep : w.stepWorker = some w' := hstep
    unfold stepWorker at hstep
    have hfirst : ∀ {m rest}, w.worker = m :: rest → (∀ e, m ≠ .event e) → (∀ e, m ≠ .postEvent e) →
        w.firstEvent = none := by
      intro m rest hworker hev hpost
      unfold firstEvent
      rw [hworker]
      cases m with
      | event e => exact absurd rfl (hev e)
      | postEvent e => exact absurd rfl (hpost e)
      | _ => rfl
    split at hstep
    · cases hstep
    next rest hworker =>
      have hnone := hfirst hworker (by simp) (by simp)
      have hsame : Silent w' ↔ Silent w := by
        dsimp only at hstep
        split at hstep
        · cases hstep
          exact Silent.of_eq rfl rfl
        · cases hstep
          exact Silent.of_eq rfl rfl
      rw [hsame]
      exact ⟨fun h => ⟨h, fun _ e he => by rw [hnone] at he; cases he⟩, fun h => h.1⟩
    next rest hworker =>
      have hnone := hfirst hworker (by simp) (by simp)
      cases hstep
      refine silent_unheard (fun _ e he => by rw [hnone] at he; cases he) ?_ ?_
      · exact delete_callbacks _
      · exact delete_results _
    next e rest hworker =>
      cases hstep
      have hev : w.firstEvent = some e := by rw [firstEvent, hworker]
      refine (silent_signal _ e).trans (and_congr (@Silent.of_eq w _ rfl rfl) ?_)
      unfold MuteStep
      rw [hev]
      simp only [Option.mem_some_iff, forall_eq']
    next e rest hworker =>
      cases hstep
      have hev : w.firstEvent = some e := by rw [firstEvent, hworker]
      refine (silent_signal _ e).trans (and_congr (@Silent.of_eq w _ rfl rfl) ?_)
      unfold MuteStep
      rw [hev]
      simp only [Option.mem_some_iff, forall_eq']
  | transfer r =>
    have hstep : w.transfer r = some w' := hstep
    unfold transfer at hstep
    split_ifs at hstep
    cases hstep
    -- reading a closed handle fails, as long as there is one
    have hresult : w.closed = true → (w.handle.map (fun p => if !p.st || !p.magic then .error else r) =
        some .error ↔ w.handle ≠ none) := by
      intro hclosed
      rcases hk.handle with ⟨hnone, -⟩ | ⟨p, stage, hp, hat⟩
      · rw [hnone]
        simp
      · have hmagic : p.magic = false := by
          by_contra hm
          rw [Bool.not_eq_false] at hm
          exact hat.closed.mp hclosed (hat.magic.mp hm)
        rw [hp]
        simp [hmagic]
    constructor
    · intro h
      refine ⟨⟨h.callbacks, fun x hx => h.results x (List.mem_append_left _ hx)⟩, fun hclosed => ?_⟩
      exact (hresult hclosed).mp (h.results _ (List.mem_append_right _
        (List.mem_singleton_self _)) hclosed)
    · rintro ⟨h, hmute⟩
      refine ⟨h.callbacks, fun x hx hclosed => ?_⟩
      rcases List.mem_append.mp hx with hx | hx
      · exact h.results x hx hclosed
      · rw [List.mem_singleton.mp hx] at hclosed ⊢
        exact (hresult hclosed).mpr (hmute hclosed)
  | create eventCb =>
    have hstep : w.create eventCb = some w' := hstep
    unfold create at hstep
    split_ifs at hstep
    cases hstep
    exact silent_unheard trivial rfl rfl
  | accept =>
    have hstep : w.accept = some w' := hstep
    unfold accept at hstep
    split_ifs at hstep
    cases hstep
    exact silent_unheard trivial rfl rfl
  | close =>
    have hstep : w.close = some w' := hstep
    unfold close at hstep
    split at hstep
    · cases hstep
    · dsimp only at hstep
      split_ifs at hstep
      · cases hstep
        exact silent_unheard trivial rfl rfl
      · cases hstep
        exact silent_unheard trivial rfl rfl
  | eventListener =>
    have hstep : w.eventListener = some w' := hstep
    unfold eventListener at hstep
    split at hstep
    · cases hstep
    · cases hstep
      split_ifs
      · exact silent_unheard trivial rfl rfl
      · exact silent_unheard trivial rfl rfl
  | postEvent e =>
    have hstep : w.postEvent e = some w' := hstep
    unfold postEvent at hstep
    split at hstep
    · cases hstep
    · split_ifs at hstep
      · cases hstep
        exact silent_unheard trivial rfl rfl
      · cases hstep
        exact silent_unheard trivial rfl rfl
  | signaling closes =>
    have hstep : w.stepSignaling closes = some w' := hstep
    unfold stepSignaling at hstep
    split at hstep
    · cases hstep
    · dsimp only at hstep
      split at hstep
      · cases hstep
        exact silent_unheard trivial rfl rfl
      · split_ifs at hstep
        all_goals
          cases hstep
          exact silent_unheard trivial rfl rfl
  | tunnel e =>
    have hstep : (if w.stream then some { w with worker := w.worker ++ [.event e] } else none) =
      some w' := hstep
    split_ifs at hstep
    cases hstep
    exact silent_unheard trivial rfl rfl
  | sessionDestroyed =>
    cases hstep
    exact silent_unheard trivial rfl rfl

theorem silent_run (ss : List Step) : ∀ {w w' : P2PWorld}, Kept w → w.run ss = some w' →
    (Silent w' ↔ Silent w ∧ MuteSteps w ss) := by
  induction ss with
  | nil =>
    intro w w' _ hrun
    cases hrun
    exact (and_iff_left trivial).symm
  | cons s ss ih =>
    intro w w' h hrun
    obtain ⟨w₁, hstep, hrun⟩ := Option.bind_eq_some_iff.mp hrun
    rw [ih (kept_step h hstep) hrun, silent_step h hstep, and_assoc]
    refine and_congr_right fun _ => and_congr_right fun _ => ?_
    constructor
    · intro hm w₂ hstep'
      cases hstep.symm.trans hstep'
      exact hm
    · exact fun hm => hm w₁ hstep

/-- **Silence after the end**: the user hears nothing of a handle that is closed exactly if
all steps of the run are mute. -/
theorem silent_iff (ss : List Step) {w : P2PWorld} (hrun : new.run ss = some w) :
    Silent w ↔ MuteSteps new ss := by
  rw [silent_run ss kept_new hrun]
  refine and_iff_right ⟨fun c hc => ?_, fun r hr => ?_⟩
  · cases hc
  · cases hr

theorem silent_sample : ∃ w, new.run sampleClose = some w ∧
    (Silent w ↔ MuteSteps new sampleClose) := by
  have hrun : (new.run sampleClose).isSome = true := by decide
  obtain ⟨w, hw⟩ := Option.isSome_iff_exists.mp hrun
  exact ⟨w, hw, silent_iff sampleClose hw⟩

/-- Data has come before the handle is closed. -/
def lateRead : List Step :=
  [.create true, .worker, .tunnel { seOpen := true, seRead := true, seWrite := true }, .worker,
    .tunnel { seRead := true }, .close, .worker]

/-- The handle is read after it has been deleted. -/
def readDeleted : List Step := sampleClose ++ [.transfer .success]

/-- **A user who hears of a closed handle**: an event that is queued when the handle is closed
is told to the listener, and a handle that has been deleted is read all the same. -/
theorem not_silent : (∃ w, new.run lateRead = some w ∧ ¬ Silent w) ∧
    ∃ w, new.run readDeleted = some w ∧ ¬ Silent w := by
  constructor
  · have hmap : (new.run lateRead).map (fun w => w.callbacks.map Prod.snd) =
        some [false, true] := by decide
    obtain ⟨w, hw, hcbs⟩ := Option.map_eq_some_iff.mp hmap
    refine ⟨w, hw, fun h => ?_⟩
    have htrue : true ∈ w.callbacks.map Prod.snd := by
      rw [hcbs]
      decide
    obtain ⟨c, hc, htrue⟩ := List.mem_map.mp htrue
    rw [h.callbacks c hc] at htrue
    cases htrue
  · have hmap : (new.run readDeleted).map results = some [(none, true)] := by decide
    obtain ⟨w, hw, hres⟩ := Option.map_eq_some_iff.mp hmap
    refine ⟨w, hw, fun h => ?_⟩
    cases h.results (none, true) (by rw [hres]; exact List.mem_singleton_self _) rfl

end P2PWorld

end Jingle.Cif
