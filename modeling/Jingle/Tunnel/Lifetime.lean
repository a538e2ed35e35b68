/-
The lifetime of a `PseudoTcpChannel`.

The channel passes through four stages: it is `Fresh` until it is connected,
`Connected` while it has a transport channel, `Purging` until the worker thread
has handled its last message, and `Gone` when only a stream may still hold it; a
session that ends unconnected leads from `Fresh` to `Gone`.  `Live` ties the
stage to what is queued and to what the signaling thread is doing, `Dead` is the
channel after its deletion, and every step of an orderly run keeps one of them.

A run is orderly if a stream is closed only in a connected tunnel or after the
session has ended, and if no stream is asked for once the deletion is posted.
-/
import Jingle.Tunnel.Channel

namespace Jingle

namespace Tunnel

namespace World

/-! ### Statement -/

/-- The stream can be closed by its user. -/
def IsOpen (w : World) (i : ℕ) : Prop :=
  ∃ s, w.streams[i]? = some s ∧ s.handed = true ∧ s.deleted = false ∧ s.parent = true

/-- The `TunnelSession` has let go of the channel, or what makes it do so is under way. -/
def Awaiting (w : World) : Prop :=
  w.tunnel = false ∨ .releaseSession ∈ w.todo ∨ (w.state.isTerminated = true ∧ .state ∈ w.signals)

/-- The stream is closed while the tunnel is connected, or after the session has ended. -/
def MayClose (w : World) : Prop :=
  w.tcp = none → w.workerThread = false → w.session = false ∧ w.Awaiting

/-- The steps of an orderly run. -/
def Orderly (a : Action) (w : World) : Prop :=
  match a with
  | .close i _ | .delete i _ => w.IsOpen i → w.MayClose
  | .execute .. => w.todo.head? = some .getStream → .destroy ∉ w.signals
  | .findSessionByStream => w.mayCall → .destroy ∉ w.signals
  | _ => True

/-- Nothing of the channel is left. -/
def Gone (w : World) : Prop :=
  w.session = false ∧ w.channel = false ∧ w.workerThread = false ∧ w.tcp = none ∧ w.purges = 0 ∧
    w.clocks = 0 ∧ w.clockTaken = false

/-- The channel is deleted at most once, when nothing refers to it and nothing is queued
for it, and its messages find what they need. -/
structure Safe (w : World) : Prop where
  once : w.deleted ≤ 1
  deletion : ∀ rest, w.todo = [] → w.signals = .destroy :: rest →
    w.deleted = 0 ∧ w.Gone ∧ w.stream = none ∧ w.tunnel = false ∧ w.events = [] ∧
      .destroy ∉ rest ∧ .destroyChannel ∉ rest
  delivery : w.events ≠ [] → w.stream ≠ none
  destruction : ∀ rest, w.todo = [] → w.signals = .destroyChannel :: rest →
    w.channel = true ∧ w.session = true

/-! ### The stages -/

def Fresh (w : World) : Prop :=
  w.session = true ∧ w.channel = false ∧ w.workerThread = false ∧ w.tcp = none ∧ w.purges = 0 ∧
    w.clocks = 0 ∧ w.clockTaken = false

def Connected (w : World) : Prop :=
  w.session = true ∧ w.channel = true ∧ w.workerThread = true ∧ w.purges = 0

def Purging (w : World) : Prop :=
  w.session = false ∧ w.channel = false ∧ w.workerThread = true ∧ w.tcp = none ∧ w.purges = 1 ∧
    w.clocks = 0

/-- The state message comes before the deletion. -/
def stateFirst : List SignalMessage → Bool
  | [] => false
  | .state :: _ => true
  | .destroy :: _ => false
  | .destroyChannel :: l => stateFirst l

/-- The channel will be released before it is deleted. -/
def Released (w : World) : Prop :=
  w.tunnel = false ∨ .releaseSession ∈ w.todo ∨
    (w.state.isTerminated = true ∧ stateFirst w.signals = true)

/-- The session is not yet accepted, or its acceptance is being signalled. -/
def Unanswered (w : World) : Prop :=
  w.state = .init ∨ w.state = .sentInitiate ∨ w.state = .receivedInitiate ∨
    ((w.state = .sentAccept ∨ w.state = .receivedAccept) ∧
      ((∃ st, w.todo.head? = some (.signalState st)) ∨ w.todo.head? = some .connect))

/-- The changes of the state that the signaling thread makes. -/
def Legal (st : SessionState) : Statement → Prop
  | .setState .sentInitiate | .setState .receivedInitiate => st = .init
  | .setState .receivedAccept | .setState .receivedReject => st = .sentInitiate
  | .setState .sentAccept => st = .receivedInitiate
  | .setState .sentReject => st.canReject = true
  | .setState .inProgress => st = .sentAccept ∨ st = .receivedAccept
  | .setState .sentTerminate | .setState .receivedTerminate => True
  | .setState _ => False
  | .signalState st' => st' = st
  | .connect => st = .sentAccept ∨ st = .receivedAccept
  | .onSessionTerminate => st.isTerminated = true
  | _ => True

/-- The statements that wait below another one. -/
def IsLater (s : Statement) : Prop := s = .postState ∨ s = .getStream ∨ s = .incoming

/-- The signaling thread. -/
structure Control (w : World) : Prop where
  later : w.todo = [.releaseSession, .deleteSession] ∨ ∀ s ∈ w.todo.tail, IsLater s
  head : ∀ s, w.todo.head? = some s → Legal w.state s
  releasing : w.todo.head? = some .releaseSession → w.todo = [.releaseSession, .deleteSession]
  deleting : w.todo.head? = some .deleteSession → w.tunnel = false
  released : w.tunnel = false → w.alive = false ∨ w.todo = [.deleteSession]
  dead : w.alive = false → w.todo = [] ∧ .state ∉ w.signals ∧ w.tunnel = false ∧ w.channel = false
  /-- The end of a session is always posted. -/
  posted : w.state.isTerminated = true → w.tunnel = true →
    .state ∈ w.signals ∨ .releaseSession ∈ w.todo ∨ .postState ∈ w.todo
  fresh : w.Unanswered → w.Fresh

/-- A channel that was not deleted. -/
structure Live (w : World) : Prop where
  undeleted : w.deleted = 0
  stage : w.Fresh ∨ w.Connected ∨ w.Purging ∨ w.Gone
  /-- Only the current stream has a parent. -/
  current : ∀ i s, w.streams[i]? = some s → s.parent = true → w.stream = some i
  events : w.events ≠ [] → w.stream ≠ none
  destroyChannel : .destroyChannel ∈ w.signals → w.Connected ∧ w.tcp = none
  oneChannel : w.signals.count .destroyChannel ≤ 1
  doomed : .destroy ∈ w.signals → w.Gone ∧ w.stream = none ∧ w.Released
  oneDestroy : w.signals.count .destroy ≤ 1
  purging : w.Purging → w.Awaiting
  control : w.Control

/-- A deleted channel. -/
structure Dead (w : World) : Prop where
  deleted : w.deleted = 1
  alive : w.alive = false
  todo : w.todo = []
  signals : w.signals = []
  events : w.events = []
  clocks : w.clocks = 0
  clockTaken : w.clockTaken = false
  purges : w.purges = 0

variable {w v : World}

/-! ### The stages exclude each other -/

theorem Connected.not_fresh (h : w.Connected) : ¬ w.Fresh := by
  intro hf
  exact absurd (h.2.1.symm.trans hf.2.1) (by simp)

theorem Connected.not_purging (h : w.Connected) : ¬ w.Purging := by
  intro hp
  exact absurd (h.2.1.symm.trans hp.2.1) (by simp)

theorem Gone.not_purging (h : w.Gone) : ¬ w.Purging := by
  intro hp
  exact absurd (h.2.2.1.symm.trans hp.2.2.1) (by simp)

theorem Gone.not_fresh (h : w.Gone) : ¬ w.Fresh := by
  intro hf
  exact absurd (h.1.symm.trans hf.1) (by simp)

theorem Gone.not_connected (h : w.Gone) : ¬ w.Connected := by
  intro hc
  exact absurd (h.1.symm.trans hc.1) (by simp)

theorem Purging.not_fresh (h : w.Purging) : ¬ w.Fresh := by
  intro hf
  exact absurd (h.1.symm.trans hf.1) (by simp)

/-! ### The signaling thread -/

theorem Control.congr (h : w.Control) (h₁ : v.todo = w.todo) (h₂ : v.state = w.state)
    (h₃ : v.tunnel = w.tunnel) (h₄ : v.alive = w.alive)
    (h₅ : .state ∈ v.signals ↔ .state ∈ w.signals) (h₆ : v.channel = true → w.channel = true)
    (hf : w.Unanswered → w.Fresh → v.Fresh) : v.Control where
  later := by rw [h₁]; exact h.later
  head := by rw [h₁, h₂]; exact h.head
  releasing := by rw [h₁]; exact h.releasing
  deleting := by rw [h₁, h₃]; exact h.deleting
  released := by rw [h₁, h₃, h₄]; exact h.released
  dead := by
    rw [h₁, h₃, h₄, h₅]
    intro ha
    obtain ⟨hd₁, hd₂, hd₃, hd₄⟩ := h.dead ha
    refine ⟨hd₁, hd₂, hd₃, ?_⟩
    by_contra hc
    exact absurd (h₆ (by simpa using hc)) (by simp [hd₄])
  posted := by rw [h₁, h₂, h₃, h₅]; exact h.posted
  fresh := by
    intro hu
    have hw : w.Unanswered := by
      rw [Unanswered, h₁, h₂] at hu
      exact hu
    exact hf hw (h.fresh hw)

theorem Control.running (h : w.Control) {s : Statement} {rest : List Statement}
    (htodo : w.todo = s :: rest) (hs : s ≠ .deleteSession) : w.tunnel = true ∧ w.alive = true := by
  have ha : w.alive = true := by
    by_contra ha
    exact absurd ((h.dead (by simpa using ha)).1.symm.trans htodo) (by simp)
  refine ⟨?_, ha⟩
  by_contra ht
  rcases h.released (by simpa using ht) with hd | hd
  · exact absurd (hd.symm.trans ha) (by simp)
  · exact hs (List.cons.inj (htodo.symm.trans hd)).1

theorem Control.rest_isLater (h : w.Control) {s : Statement} {rest : List Statement}
    (htodo : w.todo = s :: rest) (hs : s ≠ .releaseSession) : ∀ x ∈ rest, IsLater x := by
  rcases h.later with hl | hl
  · exact absurd (List.cons.inj (htodo.symm.trans hl)).1 hs
  · rw [htodo] at hl
    exact hl

theorem legal_isTerminated {st st' : SessionState} (h : Legal st (.setState st'))
    (ht : st.isTerminated = true) : st'.isTerminated = true := by
  cases st' with
  | sentTerminate | receivedTerminate => rfl
  | sentInitiate | receivedInitiate | receivedAccept | receivedReject | sentAccept =>
    rw [show st = _ from h] at ht
    exact absurd ht (by decide)
  | sentReject =>
    have hc : st.canReject = true := h
    cases st <;> simp_all [SessionState.canReject, SessionState.isTerminated]
  | inProgress => rcases h with rfl | rfl <;> exact absurd ht (by decide)
  | _ => exact h.elim

theorem onSessionState_cases (w : World) (st : SessionState) : w.onSessionState st = [] ∨
    ∃ x, w.onSessionState st = [x] ∧ Legal st x ∧
      (x = .incoming ∨ x = .connect ∨ x = .onSessionTerminate) := by
  unfold onSessionState
  by_cases ht : w.tunnel = false
  · exact .inl (if_pos ht)
  rw [if_neg ht]
  cases st with
  | receivedInitiate => exact .inr ⟨_, rfl, trivial, by simp⟩
  | sentAccept | receivedAccept => exact .inr ⟨_, rfl, by simp [Legal], by simp⟩
  | sentTerminate | receivedTerminate => exact .inr ⟨_, rfl, rfl, by simp⟩
  | _ => exact .inl rfl

theorem peerStatements_cases (w : World) (m : PeerMessage) : w.peerStatements m = [] ∨
    ∃ st, w.peerStatements m = [.setState st] ∧ Legal w.state (.setState st) := by
  unfold peerStatements
  cases m with
  | terminate => exact .inr ⟨_, rfl, trivial⟩
  | _ =>
    dsimp only
    split
    · exact .inr ⟨_, rfl, ‹_›⟩
    · exact .inl rfl

theorem unanswered_of_isLater (h : ∀ x ∈ v.todo, IsLater x) (hs : v.state = w.state)
    (hu : v.Unanswered) : w.Unanswered := by
  rw [Unanswered, hs] at hu
  rcases hu with hu | hu | hu | ⟨-, ⟨st, hh⟩ | hh⟩
  · exact .inl hu
  · exact .inr (.inl hu)
  · exact .inr (.inr (.inl hu))
  · rcases h _ (List.mem_of_mem_head? hh) with hx | hx | hx <;> exact absurd hx (by simp)
  · rcases h _ (List.mem_of_mem_head? hh) with hx | hx | hx <;> exact absurd hx (by simp)

theorem IsLater.legal {s : Statement} (h : IsLater s) (st : SessionState) : Legal st s := by
  rcases h with rfl | rfl | rfl <;> trivial

theorem Control.next (h : w.Control) {s : Statement} {rest l : List Statement}
    (htodo : w.todo = s :: rest) (hr : s ≠ .releaseSession) (hd : s ≠ .deleteSession)
    (hv : v.todo = l ++ rest)
    (hl : l = [] ∨ ∃ x, l = [x] ∧ Legal w.state x ∧ x ≠ .releaseSession ∧ x ≠ .deleteSession)
    (hstate : v.state = w.state) (htunnel : v.tunnel = w.tunnel) (halive : v.alive = w.alive)
    (hsig : .state ∈ w.signals → .state ∈ v.signals) (hpost : s = .postState → .state ∈ v.signals)
    (hfresh : v.Unanswered → v.Fresh) : v.Control := by
  have hlater := h.rest_isLater htodo hr
  obtain ⟨ht, ha⟩ := h.running htodo hd
  have hhead : ∀ x, v.todo.head? = some x →
      Legal w.state x ∧ x ≠ .releaseSession ∧ x ≠ .deleteSession := by
    intro x hx
    have hrest : ∀ y ∈ rest, Legal w.state y ∧ y ≠ .releaseSession ∧ y ≠ .deleteSession := by
      intro y hy
      refine ⟨(hlater y hy).legal _, ?_⟩
      rcases hlater y hy with rfl | rfl | rfl <;> exact ⟨by simp, by simp⟩
    rcases hl with rfl | ⟨y, rfl, hy⟩
    · rw [hv] at hx
      exact hrest x (List.mem_of_mem_head? hx)
    · rw [hv] at hx
      obtain rfl : y = x := by simpa using hx
      exact hy
  refine ⟨?_, fun x hx => ?_, fun hx => ?_, fun hx => ?_, fun hf => ?_, fun hf => ?_,
    fun hterm _ => ?_, hfresh⟩
  · right
    rw [hv]
    intro x hx
    rcases hl with rfl | ⟨y, rfl, -⟩
    · exact hlater x (List.mem_of_mem_tail hx)
    · exact hlater x hx
  · rw [hstate]
    exact (hhead x hx).1
  · exact absurd rfl (hhead _ hx).2.1
  · exact absurd rfl (hhead _ hx).2.2
  · exact absurd (hf.symm.trans (htunnel.trans ht)) (by simp)
  · exact absurd (hf.symm.trans (halive.trans ha)) (by simp)
  · rw [hstate] at hterm
    rcases h.posted hterm ht with hs | hs | hs
    · exact .inl (hsig hs)
    · rw [htodo] at hs
      rcases List.mem_cons.mp hs with hs | hs
      · exact absurd hs.symm hr
      · rcases hlater _ hs with hs | hs | hs <;> exact absurd hs (by simp)
    · rw [htodo] at hs
      rcases List.mem_cons.mp hs with hs | hs
      · exact .inl (hpost hs.symm)
      · rw [hv]
        exact .inr (.inr (List.mem_append_right _ hs))

namespace Live

theorem connected_of_tcp (h : w.Live) {tcp : PseudoTcp} (ht : w.tcp = some tcp) : w.Connected := by
  rcases h.stage with hs | hs | hs | hs
  · exact absurd (ht.symm.trans hs.2.2.2.1) (by simp)
  · exact hs
  · exact absurd (ht.symm.trans hs.2.2.2.1) (by simp)
  · exact absurd (ht.symm.trans hs.2.2.2.1) (by simp)

theorem connected_of_channel (h : w.Live) (hc : w.channel = true) : w.Connected := by
  rcases h.stage with hs | hs | hs | hs
  · exact absurd (hc.symm.trans hs.2.1) (by simp)
  · exact hs
  · exact absurd (hc.symm.trans hs.2.1) (by simp)
  · exact absurd (hc.symm.trans hs.2.1) (by simp)

theorem not_doomed (h : w.Live) (hg : ¬ w.Gone) : .destroy ∉ w.signals :=
  fun hd => hg (h.doomed hd).1

theorem not_destroyChannel (h : w.Live) {tcp : PseudoTcp} (ht : w.tcp = some tcp) :
    .destroyChannel ∉ w.signals :=
  fun hd => absurd (ht.symm.trans (h.destroyChannel hd).2) (by simp)

theorem told (h : w.Live) (ht : Told w v) : v.Live := by
  have he : v.events ≠ [] → w.stream ≠ none := by
    intro hne hs
    rw [ht.quiet hs] at hne
    exact h.events hne hs
  rw [ht.rest]
  exact ⟨h.undeleted, h.stage, h.current, he, h.destroyChannel, h.oneChannel, h.doomed,
    h.oneDestroy, h.purging,
    h.control.congr rfl rfl rfl rfl Iff.rfl id fun _ hf => hf⟩

theorem connected_congr (h : w.Live) (hc : w.Connected) (tcp : Option PseudoTcp) (clocks : ℕ)
    (clockTaken ready : Bool) (htcp : .destroyChannel ∈ w.signals → tcp = none) :
    { w with tcp := tcp, clocks := clocks, clockTaken := clockTaken
             readyToConnect := ready }.Live := by
  have hng : ¬ w.Gone := fun hg => hg.not_connected hc
  have hcon : { w with tcp := tcp, clocks := clocks, clockTaken := clockTaken
                       readyToConnect := ready }.Connected := hc
  exact ⟨h.undeleted, .inr (.inl hcon), h.current, h.events, fun hd => ⟨hcon, htcp hd⟩,
    h.oneChannel, fun hd => absurd hd (h.not_doomed hng), h.oneDestroy,
    fun hp => absurd hp hcon.not_purging,
    h.control.congr rfl rfl rfl rfl Iff.rfl id fun _ hf => absurd hf hc.not_fresh⟩

theorem callTcp (h : w.Live) {tcp : PseudoTcp} (ht : w.tcp = some tcp) (env : Env) (op : Op) :
    (w.callTcp env op tcp).Live :=
  (h.connected_congr (h.connected_of_tcp ht) (some (step env op tcp).2) w.clocks w.clockTaken
    w.readyToConnect (fun hd => absurd hd (h.not_destroyChannel ht))).told
    (callTcp_told w env op tcp)

theorem post_destroyChannel (h : w.Live) (hc : w.Connected) (ht : w.tcp = none)
    (hn : .destroyChannel ∉ w.signals) :
    { w with signals := w.signals ++ [SignalMessage.destroyChannel] }.Live := by
  have hng : ¬ w.Gone := fun hg => hg.not_connected hc
  refine ⟨h.undeleted, h.stage, h.current, h.events, fun _ => ⟨hc, ht⟩, ?_, fun hd => ?_, ?_,
    fun hp => absurd hp hc.not_purging,
    h.control.congr rfl rfl rfl rfl (by simp) id fun _ hf => hf⟩
  · rw [List.count_append, List.count_eq_zero.mpr hn]
    simp
  · exact absurd hd (by simpa using h.not_doomed hng)
  · rw [List.count_append]
    simpa using h.oneDestroy

theorem adjustClock (h : w.Live) {tcp : PseudoTcp} (ht : w.tcp = some tcp) (now : Word)
    (clear : Bool) : (w.adjustClock now clear).Live := by
  have hc := h.connected_of_tcp ht
  have hnd := h.not_destroyChannel ht
  rw [World.adjustClock, ht]
  dsimp only
  split
  · exact h.connected_congr hc (some tcp) _ w.clockTaken w.readyToConnect
      (fun hd => absurd hd hnd)
  · rw [if_pos hc.2.1]
    exact (h.connected_congr hc none w.clocks w.clockTaken false fun _ => rfl).post_destroyChannel
      hc rfl hnd

/-! ### Statements of the signaling thread -/

theorem stateFirst_append {l : List SignalMessage} (h : stateFirst l = true)
    (l' : List SignalMessage) : stateFirst (l ++ l') = true := by
  induction l with
  | nil => exact absurd h (by simp [stateFirst])
  | cons m l ih =>
    cases m with
    | state => rfl
    | destroy => exact absurd h (by simp [stateFirst])
    | destroyChannel => exact ih h

theorem moves_on (h : w.Live) (todo : List Statement) (state : SessionState)
    (l : List SignalMessage) (hl : ∀ m ∈ l, m = .state)
    (hterm : w.state.isTerminated = true → state.isTerminated = true)
    (hrel : .releaseSession ∈ w.todo → .releaseSession ∈ todo)
    (hc : { w with todo := todo, state := state, signals := w.signals ++ l }.Control) :
    { w with todo := todo, state := state, signals := w.signals ++ l }.Live := by
  have hnot : ∀ m, m ≠ .state → (m ∈ w.signals ++ l ↔ m ∈ w.signals) := by
    intro m hm
    rw [List.mem_append]
    exact ⟨fun hx => hx.resolve_right fun hx => hm (hl m hx), .inl⟩
  have hcount : ∀ m, m ≠ .state → (w.signals ++ l).count m = w.signals.count m := by
    intro m hm
    rw [List.count_append, List.count_eq_zero.mpr fun hx => hm (hl m hx), Nat.add_zero]
  refine ⟨h.undeleted, h.stage, h.current, h.events, fun hd => ?_, ?_, fun hd => ?_, ?_,
    fun hp => ?_, hc⟩
  · exact h.destroyChannel ((hnot _ (by simp)).mp hd)
  · show (w.signals ++ l).count _ ≤ 1
    rw [hcount _ (by simp)]
    exact h.oneChannel
  · obtain ⟨hg, hs, hr⟩ := h.doomed ((hnot _ (by simp)).mp hd)
    exact ⟨hg, hs, hr.imp_right (Or.imp hrel fun hx => ⟨hterm hx.1, stateFirst_append hx.2 l⟩)⟩
  · show (w.signals ++ l).count _ ≤ 1
    rw [hcount _ (by simp)]
    exact h.oneDestroy
  · exact (h.purging hp).imp_right
      (Or.imp hrel fun hx => ⟨hterm hx.1, List.mem_append_left _ hx.2⟩)

theorem replace (h : w.Live) {s : Statement} {rest l : List Statement} (htodo : w.todo = s :: rest)
    (hr : s ≠ .releaseSession) (hd : s ≠ .deleteSession) (hp : s ≠ .postState)
    (hl : l = [] ∨ ∃ x, l = [x] ∧ Legal w.state x ∧ x ≠ .releaseSession ∧ x ≠ .deleteSession)
    (hfresh : { w with todo := l ++ rest }.Unanswered → w.Fresh) :
    { w with todo := l ++ rest }.Live := by
  have hc : { w with todo := l ++ rest }.Control :=
    h.control.next htodo hr hd rfl hl rfl rfl rfl id (fun hx => absurd hx hp) hfresh
  have hrel : .releaseSession ∈ w.todo → .releaseSession ∈ l ++ rest := by
    intro hm
    rw [htodo] at hm
    exact List.mem_append_right _ ((List.mem_cons.mp hm).resolve_left hr.symm)
  have := h.moves_on (l ++ rest) w.state [] (by simp) id hrel (by rw [List.append_nil]; exact hc)
  rw [List.append_nil] at this
  exact this

theorem pop (h : w.Live) {s : Statement} {rest : List Statement} (htodo : w.todo = s :: rest)
    (hr : s ≠ .releaseSession) (hd : s ≠ .deleteSession) (hp : s ≠ .postState) :
    { w with todo := rest }.Live :=
  h.replace (l := []) htodo hr hd hp (.inl rfl) fun hu => h.control.fresh
    (unanswered_of_isLater (v := { w with todo := rest }) (h.control.rest_isLater htodo hr) rfl hu)

theorem setState (h : w.Live) {st : SessionState} {rest : List Statement}
    (htodo : w.todo = .setState st :: rest) :
    { w with state := st, todo := .signalState st :: .postState :: rest }.Live := by
  have hlegal : Legal w.state (.setState st) := h.control.head _ (by rw [htodo]; rfl)
  have hlater := h.control.rest_isLater htodo (by simp)
  obtain ⟨ht, ha⟩ := h.control.running htodo (by simp)
  have hrel : .releaseSession ∈ w.todo → .releaseSession ∈ .signalState st :: .postState :: rest := by
    intro hm
    rw [htodo] at hm
    exact List.mem_cons_of_mem _ (List.mem_cons_of_mem _ ((List.mem_cons.mp hm).resolve_left (by simp)))
  have hc : { w with state := st, todo := .signalState st :: .postState :: rest }.Control := by
    refine ⟨.inr ?_, ?_, fun hx => absurd hx (by simp), fun hx => absurd hx (by simp),
      fun hf => absurd (hf.symm.trans ht) (by simp), fun hf => absurd (hf.symm.trans ha) (by simp),
      fun _ _ => .inr (.inr (by simp)), fun hu => ?_⟩
    · intro x hx
      rcases List.mem_cons.mp hx with rfl | hx
      · exact .inl rfl
      · exact hlater x hx
    · intro x hx
      obtain rfl : _ = x := Option.some.inj hx
      rfl
    · -- the state before was one that has not been answered
      refine h.control.fresh ?_
      rcases hu with hu | hu | hu | ⟨hu | hu, -⟩ <;> obtain rfl : st = _ := hu
      · exact absurd hlegal (by simp [Legal])
      · exact .inl hlegal
      · exact .inl hlegal
      · exact .inr (.inr (.inl hlegal))
      · exact .inr (.inl hlegal)
  have := h.moves_on (.signalState st :: .postState :: rest) st [] (by simp) (legal_isTerminated hlegal)
    hrel (by rw [List.append_nil]; exact hc)
  rw [List.append_nil] at this
  exact this

theorem signalState (h : w.Live) {st : SessionState} {rest : List Statement}
    (htodo : w.todo = .signalState st :: rest) :
    { w with todo := w.onSessionState st ++ rest }.Live := by
  have hlegal : Legal w.state (.signalState st) := h.control.head _ (by rw [htodo]; rfl)
  obtain rfl : st = w.state := hlegal
  rcases onSessionState_cases w w.state with hos | ⟨x, hos, hx, hkind⟩
  · rw [hos]
    exact h.pop htodo (by simp) (by simp) (by simp)
  rw [hos]
  refine h.replace htodo (by simp) (by simp) (by simp)
    (.inr ⟨x, rfl, hx, by rcases hkind with rfl | rfl | rfl <;> exact ⟨by simp, by simp⟩⟩)
    (fun hu => h.control.fresh ?_)
  -- the acceptance was being signalled before
  rcases hu with hu | hu | hu | ⟨hu, -⟩
  · exact .inl hu
  · exact .inr (.inl hu)
  · exact .inr (.inr (.inl hu))
  · exact .inr (.inr (.inr ⟨hu, .inl ⟨w.state, by rw [htodo]; rfl⟩⟩))

theorem goesOn (h : w.Live) {s : Statement} {st : SessionState} {rest : List Statement}
    (htodo : w.todo = s :: rest) (hs : (∃ sent, s = .accept sent) ∨ s = .terminate)
    (hx : Legal w.state (.setState st)) : { w with todo := .setState st :: rest }.Live := by
  have hne : s ≠ .releaseSession ∧ s ≠ .deleteSession ∧ s ≠ .postState := by
    rcases hs with ⟨sent, rfl⟩ | rfl <;> simp
  refine h.replace (l := [.setState st]) htodo hne.1 hne.2.1 hne.2.2
    (.inr ⟨_, rfl, hx, by simp, by simp⟩) (fun hu => h.control.fresh ?_)
  rcases hu with hu | hu | hu | ⟨-, ⟨st, hh⟩ | hh⟩
  · exact .inl hu
  · exact .inr (.inl hu)
  · exact .inr (.inr (.inl hu))
  all_goals exact absurd hh (by simp)

theorem postState (h : w.Live) {rest : List Statement} (htodo : w.todo = .postState :: rest) :
    { w with signals := w.signals ++ [SignalMessage.state], todo := rest }.Live := by
  have hl := h.control.rest_isLater htodo (by simp)
  have hrel : .releaseSession ∈ w.todo → .releaseSession ∈ rest := by
    intro hm
    rw [htodo] at hm
    exact (List.mem_cons.mp hm).resolve_left (by simp)
  refine h.moves_on rest w.state [.state] (by simp) id hrel ?_
  exact h.control.next (l := []) htodo (by simp) (by simp) rfl (.inl rfl) rfl rfl rfl
    (List.mem_append_left _) (fun _ => by simp)
    (fun hu => h.control.fresh (unanswered_of_isLater (v := { w with todo := rest }) hl rfl hu))

theorem connect (h : w.Live) {rest : List Statement} (htodo : w.todo = .connect :: rest)
    (rbuf sbuf : ℕ → Byte) (now : Word) :
    ({ w with todo := rest }.connect rbuf sbuf now).Live := by
  have hl := h.control.rest_isLater htodo (by simp)
  have hlegal : Legal w.state .connect := h.control.head _ (by rw [htodo]; rfl)
  have hacc : w.state = .sentAccept ∨ w.state = .receivedAccept := hlegal
  have hf : w.Fresh := h.control.fresh (.inr (.inr (.inr ⟨hacc, .inr (by rw [htodo]; rfl)⟩)))
  have hdc : .destroyChannel ∉ w.signals := fun hx => (h.destroyChannel hx).1.not_fresh hf
  have hng : ¬ w.Gone := fun hg => hg.not_fresh hf
  have hv : { w with todo := rest }.connect rbuf sbuf now =
      { w with todo := rest, workerThread := true, channel := true
               tcp := some (.init rbuf sbuf now 0)
               readyToConnect := w.readyToConnect || w.initiator } := by
    simp [World.connect, h.undeleted, hf.1, hf.2.1]
  rw [hv]
  refine ⟨h.undeleted, .inr (.inl ⟨hf.1, rfl, rfl, hf.2.2.2.2.1⟩), h.current, h.events,
    fun hx => absurd hx hdc, h.oneChannel, fun hx => absurd hx (h.not_doomed hng), h.oneDestroy,
    fun hp => absurd hp.2.1 (by simp), ?_⟩
  refine h.control.next (l := []) htodo (by simp) (by simp) rfl (.inl rfl) rfl rfl rfl id
    (fun hx => absurd hx (by simp)) (fun hu => ?_)
  -- the acceptance has been signalled now
  rcases hu with hu | hu | hu | ⟨-, ⟨st, hh⟩ | hh⟩
  · rcases hacc with ha | ha <;> exact absurd (hu.symm.trans ha) (by simp)
  · rcases hacc with ha | ha <;> exact absurd (hu.symm.trans ha) (by simp)
  · rcases hacc with ha | ha <;> exact absurd (hu.symm.trans ha) (by simp)
  · rcases hl _ (List.mem_of_mem_head? hh) with hx | hx | hx <;> exact absurd hx (by simp)
  · rcases hl _ (List.mem_of_mem_head? hh) with hx | hx | hx <;> exact absurd hx (by simp)

theorem onSessionTerminate (h : w.Live) {rest : List Statement}
    (htodo : w.todo = .onSessionTerminate :: rest) :
    { w with todo := rest }.onSessionTerminate.Live := by
  have hpop := h.pop htodo (by simp) (by simp) (by simp)
  have hlegal : Legal w.state .onSessionTerminate := h.control.head _ (by rw [htodo]; rfl)
  have hterm : w.state.isTerminated = true := hlegal
  rw [World.onSessionTerminate, if_neg (by simp [h.undeleted])]
  split
  · rename_i hs
    have hf : w.Fresh := by
      rcases h.stage with hst | hst | hst | hst
      · exact hst
      · exact absurd (hst.2.1.symm.trans hs.2) (by simp)
      · exact absurd (hst.1.symm.trans hs.1) (by simp)
      · exact absurd (hst.1.symm.trans hs.1) (by simp)
    have hgone : { w with todo := rest, session := false }.Gone := ⟨rfl, hf.2⟩
    have hng : ¬ w.Gone := fun hg => hg.not_fresh hf
    have hdc : .destroyChannel ∉ w.signals := fun hx => (h.destroyChannel hx).1.not_fresh hf
    have hlive : { w with todo := rest, session := false }.Live := by
      refine ⟨h.undeleted, .inr (.inr (.inr hgone)), h.current, h.events, fun hx => absurd hx hdc,
        h.oneChannel, fun hx => absurd hx (h.not_doomed hng), h.oneDestroy,
        fun hp => absurd hp hgone.not_purging, ?_⟩
      refine hpop.control.congr rfl rfl rfl rfl Iff.rfl id fun hu _ => ?_
      -- the session is over, so it has been answered
      rcases hu with hu | hu | hu | ⟨hu | hu, -⟩ <;>
        exact absurd hterm (by rw [show w.state = _ from hu]; decide)
    dsimp only
    split
    · exact hlive
    · rename_i hstream
      refine hlive.told ⟨rfl, fun hn => absurd hn hstream⟩
  · exact hpop

/-! ### Streams -/

theorem getStream (h : w.Live) (handed : Bool) (hnd : .destroy ∉ w.signals) :
    (w.getStream handed).Live := by
  rw [World.getStream, if_neg (by simp [h.undeleted])]
  cases hs : w.stream with
  | none =>
    refine ⟨h.undeleted, h.stage, fun i s hi hp => ?_, fun _ => by simp, h.destroyChannel,
      h.oneChannel, fun hd => absurd hd hnd, h.oneDestroy, h.purging,
      h.control.congr rfl rfl rfl rfl Iff.rfl id fun _ hf => hf⟩
    -- the streams made before have lost their parent
    dsimp only at hi ⊢
    rw [List.getElem?_append] at hi
    split at hi
    · exact absurd (hs.symm.trans (h.current i s hi hp)) (by simp)
    · have hlt : i - w.streams.length < 1 := (List.getElem?_eq_some_iff.mp hi).1
      rw [show i = w.streams.length by omega]
  | some k =>
    refine ⟨h.undeleted, h.stage, fun i s hi hp => ?_, fun _ => by simp, h.destroyChannel,
      h.oneChannel, fun hd => absurd hd hnd, h.oneDestroy, h.purging,
      h.control.congr rfl rfl rfl rfl Iff.rfl id fun _ hf => hf⟩
    dsimp only at hi ⊢
    rw [List.getElem?_modify] at hi
    obtain ⟨s', hs', rfl⟩ := Option.map_eq_some_iff.mp hi
    refine hs.symm.trans (h.current i s' hs' ?_)
    split at hp <;> exact hp

theorem getStream_statement (h : w.Live) {rest : List Statement} (htodo : w.todo = .getStream :: rest)
    (hnd : .destroy ∉ w.signals) : ({ w with todo := rest }.getStream true).Live :=
  (h.pop htodo (by simp) (by simp) (by simp)).getStream true hnd

/-! ### The end of the session -/

theorem releaseSession (h : w.Live) {rest : List Statement}
    (htodo : w.todo = .releaseSession :: rest) :
    { w with tunnel := false, todo := rest }.Live := by
  obtain ⟨-, ha⟩ := h.control.running htodo (by simp)
  obtain rfl : rest = [.deleteSession] := by
    have := h.control.releasing (by rw [htodo]; rfl)
    exact (List.cons.inj (htodo.symm.trans this)).2
  refine ⟨h.undeleted, h.stage, h.current, h.events, h.destroyChannel, h.oneChannel,
    fun hd => ⟨(h.doomed hd).1, (h.doomed hd).2.1, .inl rfl⟩, h.oneDestroy, fun _ => .inl rfl, ?_⟩
  refine ⟨.inr (by simp), fun s hs => ?_, fun hs => absurd hs (by simp), fun _ => rfl,
    fun _ => .inr rfl, fun hd => absurd (hd.symm.trans ha) (by simp),
    fun _ hf => absurd hf (by simp), fun hu => h.control.fresh ?_⟩
  · obtain rfl : _ = s := Option.some.inj hs
    trivial
  · rcases hu with hu | hu | hu | ⟨-, ⟨st, hh⟩ | hh⟩
    · exact .inl hu
    · exact .inr (.inl hu)
    · exact .inr (.inr (.inl hu))
    all_goals exact absurd hh (by simp)

theorem channelDestroyed (h : w.Live) (hc : w.Connected) (ha : w.Awaiting) (now : Word) :
    (w.channelDestroyed now).Live ∧ (w.channelDestroyed now).Purging := by
  obtain ⟨ready, htold⟩ := channelDestroyed_told w now
  set u : World := { w with signals := w.signals.filter (· ≠ SignalMessage.destroyChannel), clocks := 0
                            purges := w.purges + 1, session := false, channel := false, tcp := none
                            readyToConnect := ready } with hu
  have hp : u.Purging := ⟨rfl, rfl, hc.2.2.1, rfl, by rw [hu]; simp [hc.2.2.2], rfl⟩
  have hng : ¬ w.Gone := fun hg => hg.not_connected hc
  have hstate : .state ∈ u.signals ↔ .state ∈ w.signals := by simp [hu]
  have hdc : .destroyChannel ∉ u.signals := by simp [hu]
  have hdes : .destroy ∉ u.signals := fun hd =>
    h.not_doomed hng (List.mem_of_mem_filter hd)
  have hlive : u.Live := by
    refine ⟨h.undeleted, .inr (.inr (.inl hp)), h.current, h.events,
      fun hd => absurd hd hdc, ?_, fun hd => absurd hd hdes, ?_,
      fun _ => ?_, ?_⟩
    · rw [List.count_eq_zero.mpr hdc]
      exact Nat.zero_le 1
    · rw [List.count_eq_zero.mpr hdes]
      exact Nat.zero_le 1
    · exact ha.imp_right (Or.imp_right fun hx => ⟨hx.1, hstate.mpr hx.2⟩)
    · exact h.control.congr rfl rfl rfl rfl hstate (fun hx => absurd hx (by simp [hu]))
        fun _ hf => absurd hf hc.not_fresh
  refine ⟨hlive.told htold, ?_⟩
  rw [htold.rest]
  exact hp

theorem onChannelClosed (h : w.Live) (hc : w.Connected) (htodo : w.todo = []) :
    w.onChannelClosed.Live ∧ w.onChannelClosed.Connected ∧ w.onChannelClosed.Awaiting := by
  have hnot : ¬ w.Unanswered := fun hu => hc.not_fresh (h.control.fresh hu)
  rw [World.onChannelClosed]
  split
  · rename_i ht
    have hctl : { w with state := .sentTerminate, signals := w.signals ++ [SignalMessage.state] }.Control := by
      refine ⟨.inr ?_, ?_, ?_, ?_, fun hf => absurd (hf.symm.trans ht.1) (by simp), fun ha => ?_,
        fun _ _ => .inl (by simp), fun hu => ?_⟩
      · rw [htodo]
        simp
      · rw [htodo]
        simp
      · rw [htodo]
        simp
      · rw [htodo]
        simp
      · exact absurd ((h.control.dead ha).2.2.1.symm.trans ht.1) (by simp)
      · rw [Unanswered, htodo] at hu
        simp at hu
    refine ⟨?_, hc, .inr (.inr ⟨rfl, by simp⟩)⟩
    exact h.moves_on w.todo .sentTerminate [.state] (by simp) (fun _ => rfl) id hctl
  · rename_i ht
    refine ⟨h, hc, ?_⟩
    by_cases htun : w.tunnel = false
    · exact .inl htun
    · have htun : w.tunnel = true := by simpa using htun
      have hterm : w.state.isTerminated = true := by
        by_contra hx
        refine ht ⟨htun, ?_⟩
        cases hst : w.state <;> rw [hst] at hx <;> first | rfl | exact absurd rfl hx
      rcases h.control.posted hterm htun with hs | hs | hs
      · exact .inr (.inr ⟨hterm, hs⟩)
      · exact .inr (.inl hs)
      · rw [htodo] at hs
        exact absurd hs (by simp)

theorem dispatch_destroyChannel (h : w.Live) (htodo : w.todo = []) {rest : List SignalMessage}
    (hs : w.signals = .destroyChannel :: rest) (now : Word) :
    w.channel = true ∧ ({ w with signals := rest }.onChannelDestroyed now).Live := by
  obtain ⟨hc, ht⟩ := h.destroyChannel (by rw [hs]; simp)
  have hng : ¬ w.Gone := fun hg => hg.not_connected hc
  have hsub : ∀ m ∈ rest, m ∈ w.signals := fun m hm => by
    rw [hs]
    exact List.mem_cons_of_mem _ hm
  have hone : .destroyChannel ∉ rest := by
    have := h.oneChannel
    rw [hs, List.count_cons_self] at this
    exact List.count_eq_zero.mp (by omega)
  have hdes : .destroy ∉ rest := fun hd => h.not_doomed hng (hsub _ hd)
  have hlive : { w with signals := rest }.Live := by
    refine ⟨h.undeleted, h.stage, h.current, h.events, fun hd => absurd hd hone, ?_,
      fun hd => absurd hd hdes, ?_, fun hp => absurd hp hc.not_purging, ?_⟩
    · rw [List.count_eq_zero.mpr hone]
      exact Nat.zero_le 1
    · rw [List.count_eq_zero.mpr hdes]
      exact Nat.zero_le 1
    · refine h.control.congr rfl rfl rfl rfl ?_ id fun _ hf => hf
      rw [hs]
      simp
  refine ⟨hc.2.1, ?_⟩
  rw [onChannelDestroyed_eq]
  obtain ⟨hl, hcon, haw⟩ := hlive.onChannelClosed hc htodo
  exact (hl.channelDestroyed hcon haw now).1

theorem endSession (h : w.Live) (htun : w.tunnel = false) (hch : w.channel = false) :
    { w with todo := [], alive := false
             signals := w.signals.filter (· ≠ SignalMessage.state) }.Live := by
  set u : World := { w with todo := [], alive := false
                            signals := w.signals.filter (· ≠ SignalMessage.state) } with hu
  have hmem : ∀ m, m ∈ u.signals → m ∈ w.signals := fun m hm => List.mem_of_mem_filter hm
  have hcount : ∀ m, u.signals.count m ≤ w.signals.count m := fun m =>
    (List.filter_sublist).count_le m
  have hlater : ∀ x ∈ u.todo, IsLater x := by simp [hu]
  refine ⟨h.undeleted, h.stage, h.current, h.events,
    fun hd => h.destroyChannel (hmem _ hd), (hcount _).trans h.oneChannel, fun hd => ?_,
    (hcount _).trans h.oneDestroy, fun _ => .inl htun, ?_⟩
  · obtain ⟨h₁, h₂, -⟩ := h.doomed (hmem _ hd)
    exact ⟨h₁, h₂, .inl htun⟩
  · exact ⟨.inr (by simp [hu]), by simp [hu], by simp [hu], by simp [hu], fun _ => .inl rfl,
      fun _ => ⟨rfl, by simp [hu], htun, hch⟩, fun _ hf => absurd (hf.symm.trans htun) (by simp),
      fun hun => h.control.fresh (unanswered_of_isLater hlater rfl hun)⟩

theorem deleteSession (h : w.Live) {rest : List Statement} (htodo : w.todo = .deleteSession :: rest)
    (now : Word) : ({ w with todo := rest }.deleteSession now).Live := by
  have htun : w.tunnel = false := h.control.deleting (by rw [htodo]; rfl)
  have ha : w.alive = true := by
    by_contra ha
    exact absurd ((h.control.dead (by simpa using ha)).1.symm.trans htodo) (by simp)
  obtain rfl : rest = [] := by
    rcases h.control.released htun with hd | hd
    · exact absurd (hd.symm.trans ha) (by simp)
    · exact (List.cons.inj (htodo.symm.trans hd)).2
  by_cases hch : w.channel = true
  · have hc := h.connected_of_channel hch
    obtain ⟨hl, hp⟩ := h.channelDestroyed hc (.inl htun) now
    obtain ⟨ready, htold⟩ := channelDestroyed_told w now
    rw [deleteSession_eq w now htun hch h.undeleted]
    refine hl.endSession ?_ hp.2.1
    rw [htold.rest]
    exact htun
  · have hch : w.channel = false := by simpa using hch
    have heq : { w with todo := [] }.deleteSession now =
        { w with todo := [], alive := false
                 signals := w.signals.filter (· ≠ SignalMessage.state) } := by
      simp [World.deleteSession, hch]
    rw [heq]
    exact h.endSession htun hch

/-! ### The steps of the signaling thread -/

theorem dispatch_state (h : w.Live) (htodo : w.todo = []) {rest : List SignalMessage}
    (hs : w.signals = .state :: rest) : { w with signals := rest, todo := w.stateStatements }.Live := by
  have hmem : ∀ m, m ≠ .state → (m ∈ rest ↔ m ∈ w.signals) := by
    intro m hm
    rw [hs]
    exact ⟨List.mem_cons_of_mem _, fun hx => (List.mem_cons.mp hx).resolve_left hm⟩
  have hcount : ∀ m, rest.count m ≤ w.signals.count m := fun m => by
    rw [hs]
    exact (List.sublist_cons_self _ _).count_le m
  have hin : .state ∈ w.signals := by
    rw [hs]
    simp
  have ha : w.alive = true := by
    by_contra ha
    exact (h.control.dead (by simpa using ha)).2.1 hin
  have htun : w.tunnel = true := by
    by_contra ht
    rcases h.control.released (by simpa using ht) with hd | hd
    · exact absurd (hd.symm.trans ha) (by simp)
    · exact absurd (htodo.symm.trans hd) (by simp)
  have hrel : w.state.isTerminated = true → .releaseSession ∈ w.stateStatements := by
    intro hterm
    rcases stateStatements_cases w with ⟨-, hst⟩ | ⟨hno, -⟩
    · rw [hst]
      simp
    · exact absurd (hno.symm.trans hterm) (by simp)
  refine ⟨h.undeleted, h.stage, h.current, h.events,
    fun hd => h.destroyChannel ((hmem _ (by simp)).mp hd), (hcount _).trans h.oneChannel,
    fun hd => ?_, (hcount _).trans h.oneDestroy, fun hp => ?_, ?_⟩
  · obtain ⟨h₁, h₂, hr⟩ := h.doomed ((hmem _ (by simp)).mp hd)
    refine ⟨h₁, h₂, ?_⟩
    rcases hr with hr | hr | hr
    · exact .inl hr
    · rw [htodo] at hr
      exact absurd hr (by simp)
    · exact .inr (.inl (hrel hr.1))
  · rcases h.purging hp with hr | hr | hr
    · exact .inl hr
    · rw [htodo] at hr
      exact absurd hr (by simp)
    · exact .inr (.inl (hrel hr.1))
  · have hun : { w with signals := rest, todo := w.stateStatements }.Unanswered → w.Unanswered := by
      rintro (hu | hu | hu | ⟨-, ⟨st, hh⟩ | hh⟩)
      · exact .inl hu
      · exact .inr (.inl hu)
      · exact .inr (.inr (.inl hu))
      all_goals
        rcases stateStatements_cases w with ⟨-, hst⟩ | ⟨-, hst | hst | ⟨hst, -⟩⟩ <;>
          exact absurd hh (by simp [hst])
    refine ⟨?_, fun s hh => ?_, fun hh => ?_, fun hh => ?_,
      fun hf => absurd (hf.symm.trans htun) (by simp), fun hf => absurd (hf.symm.trans ha) (by simp),
      fun hterm _ => .inr (.inl (hrel hterm)), fun hu => h.control.fresh (hun hu)⟩
    · rcases stateStatements_cases w with ⟨-, hst⟩ | ⟨-, hst | hst | ⟨hst, -⟩⟩
      · exact .inl hst
      all_goals
        right
        simp [hst]
    · dsimp only at hh ⊢
      rcases stateStatements_cases w with ⟨-, hst⟩ | ⟨-, hst | hst | ⟨hst, hacc⟩⟩
      · rw [hst] at hh
        obtain rfl : _ = s := Option.some.inj hh
        trivial
      · rw [hst] at hh
        exact absurd hh (by simp)
      · rw [hst] at hh
        obtain rfl : _ = s := Option.some.inj hh
        trivial
      · rw [hst] at hh
        obtain rfl : _ = s := Option.some.inj hh
        exact hacc
    · dsimp only at hh ⊢
      rcases stateStatements_cases w with ⟨-, hst⟩ | ⟨-, hst | hst | ⟨hst, -⟩⟩
      · exact hst
      all_goals exact absurd hh (by simp [hst])
    · dsimp only at hh
      rcases stateStatements_cases w with ⟨-, hst⟩ | ⟨-, hst | hst | ⟨hst, -⟩⟩ <;>
        exact absurd hh (by simp [hst])

theorem deletion (h : w.Live) (htodo : w.todo = []) {rest : List SignalMessage}
    (hs : w.signals = .destroy :: rest) :
    w.Gone ∧ w.stream = none ∧ w.tunnel = false ∧ w.events = [] ∧ rest = [] ∧ w.alive = false := by
  obtain ⟨hg, hstream, hr⟩ := h.doomed (by rw [hs]; simp)
  have htun : w.tunnel = false := by
    rcases hr with hr | hr | hr
    · exact hr
    · rw [htodo] at hr
      exact absurd hr (by simp)
    · rw [hs] at hr
      exact absurd hr.2 (by simp [stateFirst])
  have ha : w.alive = false := by
    rcases h.control.released htun with hd | hd
    · exact hd
    · exact absurd (htodo.symm.trans hd) (by simp)
  have hev : w.events = [] := by
    by_contra hne
    exact h.events hne hstream
  refine ⟨hg, hstream, htun, hev, ?_, ha⟩
  rw [List.eq_nil_iff_forall_not_mem]
  intro m hm
  cases m with
  | state =>
    refine (h.control.dead ha).2.1 ?_
    rw [hs]
    exact List.mem_cons_of_mem _ hm
  | destroyChannel =>
    refine hg.not_connected (h.destroyChannel ?_).1
    rw [hs]
    exact List.mem_cons_of_mem _ hm
  | destroy =>
    have hone := h.oneDestroy
    rw [hs, List.count_cons_self] at hone
    exact absurd hm (List.count_eq_zero.mp (by omega))

theorem dispatch (h : w.Live) (htodo : w.todo = []) (now : Word) :
    (w.dispatch now).Live ∨ (w.dispatch now).Dead := by
  rw [World.dispatch]
  split
  · exact .inl h
  · exact .inl (h.dispatch_state htodo ‹_›)
  · rename_i rest hs
    obtain ⟨hch, hl⟩ := h.dispatch_destroyChannel htodo hs now
    rw [if_pos hch]
    exact .inl hl
  · rename_i rest hs
    obtain ⟨hg, -, -, -, rfl, ha⟩ := h.deletion htodo hs
    exact .inr ⟨by simp [h.undeleted], ha, htodo, rfl, rfl, rfl, hg.2.2.2.2.2.2, rfl⟩

theorem push (h : w.Live) {x : Statement} {l : List Statement} (htun : w.tunnel = true)
    (ha : w.alive = true) (hw : ∀ s ∈ w.todo, IsLater s) (hl : ∀ s ∈ l, IsLater s)
    (hx : Legal w.state x) (hr : x ≠ .releaseSession) (hd : x ≠ .deleteSession)
    (hsig : ∀ st, x ≠ .signalState st) (hcon : x ≠ .connect) :
    { w with todo := x :: l ++ w.todo }.Live := by
  have hctl : { w with todo := x :: l ++ w.todo }.Control := by
    refine ⟨.inr fun s hs => ?_, fun s hs => ?_, fun hs => ?_, fun hs => ?_,
      fun hf => absurd (hf.symm.trans htun) (by simp), fun hf => absurd (hf.symm.trans ha) (by simp),
      fun hterm ht => ?_, fun hu => h.control.fresh ?_⟩
    · exact (List.mem_append.mp hs).elim (hl s) (hw s)
    · obtain rfl : x = s := Option.some.inj hs
      exact hx
    · exact absurd (Option.some.inj hs) hr
    · exact absurd (Option.some.inj hs) hd
    · rcases h.control.posted hterm ht with hp | hp | hp
      · exact .inl hp
      · exact .inr (.inl (List.mem_append_right _ hp))
      · exact .inr (.inr (List.mem_append_right _ hp))
    · rcases hu with hu | hu | hu | ⟨-, ⟨st, hh⟩ | hh⟩
      · exact .inl hu
      · exact .inr (.inl hu)
      · exact .inr (.inr (.inl hu))
      · exact absurd (Option.some.inj hh) (hsig st)
      · exact absurd (Option.some.inj hh) hcon
  have := h.moves_on (x :: l ++ w.todo) w.state [] (by simp) id (List.mem_append_right _)
    (by rw [List.append_nil]; exact hctl)
  rw [List.append_nil] at this
  exact this

theorem execute (h : w.Live) {stmt : Statement} {rest : List Statement}
    (htodo : w.todo = stmt :: rest)
    (hok : stmt = .getStream → .destroy ∉ w.signals) (rbuf sbuf : ℕ → Byte) (now : Word) :
    (w.execute rbuf sbuf now stmt rest).Live := by
  cases stmt with
  | setState st =>
    unfold World.execute
    dsimp only
    split
    · exact h.pop htodo (by simp) (by simp) (by simp)
    · exact h.setState htodo
  | signalState st => exact h.signalState htodo
  | postState => exact h.postState htodo
  | incoming => exact h.pop htodo (by simp) (by simp) (by simp)
  | accept sent =>
    unfold World.execute
    dsimp only
    split
    · rename_i hc
      have hst : w.state = .receivedInitiate := by simpa [SessionState.canAccept] using hc.1
      exact h.goesOn htodo (.inl ⟨sent, rfl⟩) hst
    · exact h.pop htodo (by simp) (by simp) (by simp)
  | terminate =>
    unfold World.execute
    dsimp only
    split
    · exact h.goesOn htodo (.inr rfl) trivial
    · exact h.pop htodo (by simp) (by simp) (by simp)
  | connect => exact h.connect htodo rbuf sbuf now
  | onSessionTerminate => exact h.onSessionTerminate htodo
  | getStream => exact h.getStream_statement htodo (hok rfl)
  | releaseSession => exact h.releaseSession htodo
  | deleteSession => exact h.deleteSession htodo now

theorem destroySession (h : w.Live) (ha : w.alive = true) (htodo : w.todo = []) :
    { w with todo := [.releaseSession, .deleteSession] }.Live := by
  have htun : w.tunnel = true := by
    by_contra ht
    rcases h.control.released (by simpa using ht) with hd | hd
    · exact absurd (hd.symm.trans ha) (by simp)
    · exact absurd (htodo.symm.trans hd) (by simp)
  have hlater : ∀ x ∈ w.todo, IsLater x := by simp [htodo]
  have hctl : { w with todo := [.releaseSession, .deleteSession] }.Control := by
    refine ⟨.inl rfl, fun s hs => ?_, fun _ => rfl, fun hs => absurd hs (by simp),
      fun hf => absurd (hf.symm.trans htun) (by simp), fun hf => absurd (hf.symm.trans ha) (by simp),
      fun _ _ => .inr (.inl (by simp)), fun hu => h.control.fresh ?_⟩
    · obtain rfl : _ = s := Option.some.inj hs
      trivial
    · rcases hu with hu | hu | hu | ⟨-, ⟨st, hh⟩ | hh⟩
      · exact .inl hu
      · exact .inr (.inl hu)
      · exact .inr (.inr (.inl hu))
      all_goals exact absurd hh (by simp)
  have := h.moves_on [.releaseSession, .deleteSession] w.state [] (by simp) id (by simp)
    (by rw [List.append_nil]; exact hctl)
  rw [List.append_nil] at this
  exact this

/-! ### The steps of the other threads -/

theorem onWorker (h : w.Live) (now : Word) {call : PseudoTcp → World}
    (hcall : ∀ tcp, w.tcp = some tcp → (call tcp).Live ∧ ∃ tcp', (call tcp).tcp = some tcp') :
    (w.onWorker now call).Live := by
  rw [World.onWorker]
  split
  · exact h
  · split
    · exact h
    · rename_i tcp ht
      obtain ⟨hl, tcp', ht'⟩ := hcall tcp ht
      exact hl.adjustClock ht' now true

theorem takeClock (h : w.Live) (hc : 0 < w.clocks) :
    { w with clocks := w.clocks - 1, clockTaken := true }.Live := by
  rcases h.stage with hs | hs | hs | hs
  · exact absurd hs.2.2.2.2.2.1 (by omega)
  · exact h.connected_congr hs w.tcp (w.clocks - 1) true w.readyToConnect
      fun hd => (h.destroyChannel hd).2
  · exact absurd hs.2.2.2.2.2 (by omega)
  · exact absurd hs.2.2.2.2.2.1 (by omega)

theorem clockTaken (h : w.Live) (hc : w.clockTaken = true) : { w with clockTaken := false }.Live := by
  rcases h.stage with hs | hs | hs | hs
  · exact absurd (hc.symm.trans hs.2.2.2.2.2.2) (by simp)
  · exact h.connected_congr hs w.tcp w.clocks false w.readyToConnect fun hd => (h.destroyChannel hd).2
  · exact ⟨h.undeleted, .inr (.inr (.inl hs)), h.current, h.events, h.destroyChannel,
      h.oneChannel, fun hd => absurd hs (h.doomed hd).1.not_purging, h.oneDestroy, h.purging, h.control.congr rfl rfl rfl rfl Iff.rfl id fun _ hf => absurd hf hs.not_fresh⟩
  · exact absurd (hc.symm.trans hs.2.2.2.2.2.2) (by simp)

theorem post_destroy (h : w.Live) (hg : w.Gone) (hs : w.stream = none)
    (ha : w.Awaiting) (hn : .destroy ∉ w.signals) :
    { w with signals := w.signals ++ [SignalMessage.destroy] }.Live := by
  have hfirst : ∀ l : List SignalMessage, .state ∈ l → .destroy ∉ l →
      stateFirst (l ++ [.destroy]) = true := by
    intro l
    induction l with
    | nil => exact fun hm => absurd hm (by simp)
    | cons m l ih =>
      intro hm hd
      cases m with
      | state => rfl
      | destroy => exact absurd (List.mem_cons_self) hd
      | destroyChannel =>
        exact ih ((List.mem_cons.mp hm).resolve_left (by simp)) fun hx => hd (List.mem_cons_of_mem _ hx)
  refine ⟨h.undeleted, h.stage, h.current, h.events, fun hd => h.destroyChannel ?_, ?_,
    fun _ => ⟨hg, hs, ?_⟩, ?_, fun hp => absurd hp hg.not_purging,
    h.control.congr rfl rfl rfl rfl (by simp) id fun _ hf => hf⟩
  · simpa using hd
  · rw [List.count_append]
    simpa using h.oneChannel
  · exact ha.imp_right (Or.imp_right fun hx => ⟨hx.1, hfirst _ hx.2 hn⟩)
  · rw [List.count_append, List.count_eq_zero.mpr hn]
    simp

theorem purge (h : w.Live) (hp : 0 < w.purges) (hc : w.clockTaken = false) :
    { w with purges := w.purges - 1, workerThread := false }.checkDestroy.Live := by
  have hpur : w.Purging := by
    rcases h.stage with hs | hs | hs | hs
    · exact absurd hs.2.2.2.2.1 (by omega)
    · exact absurd hs.2.2.2 (by omega)
    · exact hs
    · exact absurd hs.2.2.2.2.1 (by omega)
  have ha := h.purging hpur
  have hnd : .destroy ∉ w.signals := h.not_doomed fun hg => hg.not_purging hpur
  have hdc : .destroyChannel ∉ w.signals := fun hd => (h.destroyChannel hd).1.not_purging hpur
  have hone : w.purges - 1 = 0 := by
    rw [hpur.2.2.2.2.1]
  set u : World := { w with purges := w.purges - 1, workerThread := false } with hu
  have hg : u.Gone := ⟨hpur.1, hpur.2.1, rfl, hpur.2.2.2.1, hone, hpur.2.2.2.2.2, hc⟩
  have hlive : u.Live :=
    ⟨h.undeleted, .inr (.inr (.inr hg)), h.current, h.events, fun hd => absurd hd hdc,
      h.oneChannel, fun hd => absurd hd hnd, h.oneDestroy, fun hx => absurd hx hg.not_purging,
      h.control.congr rfl rfl rfl rfl Iff.rfl id fun _ hf => absurd hf hpur.not_fresh⟩
  rw [checkDestroy]
  split
  · exact hlive
  · rename_i hs
    have hs : u.stream = none := by
      by_contra hx
      exact hs (.inr hx)
    exact hlive.post_destroy hg hs ha hnd

theorem observed (h : w.Live) (initiator pending readable blocked fault : Bool)
    (history : List EventData) :
    { w with initiator := initiator, pendingReadEvent := pending, streamReadable := readable
             blocked := blocked, fault := fault, history := history }.Live :=
  ⟨h.undeleted, h.stage, h.current, h.events, h.destroyChannel, h.oneChannel, h.doomed,
    h.oneDestroy, h.purging,
    h.control.congr rfl rfl rfl rfl Iff.rfl id fun _ hf => hf⟩

theorem onStream (h : w.Live) (i : ℕ) {call : World} (hcall : w.IsOpen i → call.Live) :
    (w.onStream i call).Live := by
  rw [World.onStream]
  split
  · exact h
  · rename_i s hs
    split
    · exact h
    · rename_i hopen
      rw [if_neg (by simp [h.undeleted])]
      refine hcall ⟨s, hs, ?_, ?_, ?_⟩
      · by_contra hx
        exact hopen (.inl (by simpa using hx))
      · by_contra hx
        exact hopen (.inr (.inl (by simpa using hx)))
      · by_contra hx
        exact hopen (.inr (.inr (by simpa using hx)))

theorem stream_of_isOpen (h : w.Live) {i : ℕ} (ho : w.IsOpen i) : w.stream = some i := by
  obtain ⟨s, hs, -, -, hp⟩ := ho
  exact h.current i s hs hp

theorem read (h : w.Live) (hs : w.stream ≠ none) (env : Env) (len : ℕ) : (w.read env len).Live := by
  rw [World.read]
  split
  · exact h.observed w.initiator w.pendingReadEvent w.streamReadable true w.fault w.history
  · rename_i tcp ht
    set u := ({ w with streamReadable := false } : World).callTcp env (.recv len) tcp with hu
    have hw : ({ w with streamReadable := false } : World).Live :=
      h.observed w.initiator w.pendingReadEvent false w.blocked w.fault w.history
    have hl : u.Live := hw.callTcp ht env (.recv len)
    have hstream : u.stream ≠ none := by
      rw [hu, (callTcp_told _ env (.recv len) tcp).rest]
      exact hs
    dsimp only
    split
    · split
      · split
        · exact hl.observed u.initiator u.pendingReadEvent true false u.fault u.history
        · exact (hl.observed u.initiator true true false u.fault u.history).told
            ⟨rfl, fun hn => absurd hn hstream⟩
      · exact hl.observed u.initiator u.pendingReadEvent u.streamReadable _ u.fault u.history
    · exact hl

theorem write (h : w.Live) (env : Env) (data : List Byte) : (w.write env data).Live := by
  rw [World.write]
  split
  · exact h
  · exact h.callTcp ‹_› env (.send data)

theorem close (h : w.Live) {i : ℕ} (hs : w.stream = some i) (hok : w.MayClose) (now : Word) :
    { w.close now with
      streams := w.streams.modify i fun s => { s with parent := false } }.Live := by
  have hnd : .destroy ∉ w.signals := fun hd =>
    absurd ((h.doomed hd).2.1.symm.trans hs) (by simp)
  set u : World := { w with stream := none, events := []
                            streams := w.streams.modify i fun s => { s with parent := false } } with hu
  have hlive : u.Live := by
    refine ⟨h.undeleted, h.stage, fun j s hj hp => ?_, fun hx => absurd rfl hx,
      h.destroyChannel, h.oneChannel, fun hd => absurd hd hnd, h.oneDestroy,
      h.purging, h.control.congr rfl rfl rfl rfl Iff.rfl id fun _ hf => hf⟩
    -- no other stream had a parent
    have hj' : (w.streams.modify i fun s => { s with parent := false })[j]? = some s := hj
    rw [List.getElem?_modify] at hj'
    obtain ⟨s', hs', rfl⟩ := Option.map_eq_some_iff.mp hj'
    by_cases hij : i = j
    · rw [if_pos hij] at hp
      exact absurd hp (by simp)
    · rw [if_neg hij] at hp
      exact absurd (Option.some.inj (hs.symm.trans (h.current j s' hs' hp))) hij
  cases ht : w.tcp with
  | some tcp =>
    have hc := h.connected_of_tcp ht
    rw [close_tcp w ht]
    exact (hlive.connected_congr hc (some (tcp.close false)) u.clocks u.clockTaken u.readyToConnect
      fun hd => absurd hd (h.not_destroyChannel ht)).adjustClock rfl now true
  | none =>
    rw [close_unconnected w ht, checkDestroy]
    split
    · exact hlive
    · rename_i hx
      have hwork : w.workerThread = false := by
        by_contra hw
        exact hx (.inl (by simpa using hw))
      obtain ⟨hses, ha⟩ := hok ht hwork
      have hg : w.Gone := by
        rcases h.stage with hst | hst | hst | hst
        · exact absurd (hses.symm.trans hst.1) (by simp)
        · exact absurd (hses.symm.trans hst.1) (by simp)
        · exact absurd (hwork.symm.trans hst.2.2.1) (by simp)
        · exact hst
      exact hlive.post_destroy hg rfl ha hnd

theorem closeStream (h : w.Live) (i : ℕ) (hok : w.IsOpen i → w.MayClose) (now : Word) :
    (w.closeStream i now).Live := by
  rw [World.closeStream]
  exact h.onStream i fun ho => h.close (h.stream_of_isOpen ho) (hok ho) now

theorem deleteStream (h : w.Live) (i : ℕ) (hok : w.IsOpen i → w.MayClose) (now : Word) :
    (w.deleteStream i now).Live := by
  have hl := h.closeStream i hok now
  rw [World.deleteStream]
  generalize w.closeStream i now = v at hl
  refine ⟨hl.undeleted, hl.stage, fun j s hj hp => ?_, hl.events, hl.destroyChannel, hl.oneChannel,
    hl.doomed, hl.oneDestroy, hl.purging,
    hl.control.congr rfl rfl rfl rfl Iff.rfl id fun _ hf => hf⟩
  dsimp only at hj
  rw [List.getElem?_modify] at hj
  obtain ⟨s', hs', rfl⟩ := Option.map_eq_some_iff.mp hj
  refine hl.current j s' hs' ?_
  split at hp <;> exact hp

theorem deliver (h : w.Live) : w.deliver.Live := by
  rw [World.deliver]
  split
  · exact h
  · rename_i e rest he
    have hs : w.stream ≠ none := h.events (by simp [he])
    have hl : { w with events := rest }.Live :=
      ⟨h.undeleted, h.stage, h.current, fun _ => hs, h.destroyChannel, h.oneChannel,
        h.doomed, h.oneDestroy, h.purging,
        h.control.congr rfl rfl rfl rfl Iff.rfl id fun _ hf => hf⟩
    dsimp only
    split
    · exact hl.observed w.initiator false w.streamReadable false (w.fault || w.stream.isNone) w.history
    · exact hl.observed w.initiator w.pendingReadEvent w.streamReadable w.blocked
        (w.fault || w.stream.isNone) w.history

/-! ### Whole steps -/

theorem later_of_mayCall (h : w.Live) (hm : w.mayCall) : ∀ s ∈ w.todo, IsLater s := by
  rcases hm.2.2 with ht | ht
  · simp [ht]
  · cases htodo : w.todo with
    | nil => simp
    | cons x rest =>
      rw [htodo] at ht
      obtain rfl : x = .incoming := Option.some.inj ht
      intro s hs
      rcases List.mem_cons.mp hs with rfl | hs
      · exact .inr (.inr rfl)
      · exact h.control.rest_isLater htodo (by simp) s hs

theorem onIncomingMessage (h : w.Live) (m : PeerMessage) :
    (w.act (.onIncomingMessage m)).Live := by
  rw [World.act]
  split
  · rename_i hm
    obtain ⟨ha, htodo⟩ := hm
    have htun : w.tunnel = true := by
      by_contra ht
      rcases h.control.released (by simpa using ht) with hd | hd
      · exact absurd (hd.symm.trans ha) (by simp)
      · exact absurd (htodo.symm.trans hd) (by simp)
    have hl : { w with todo := w.peerStatements m }.Live := by
      rcases peerStatements_cases w m with hp | ⟨st, hp, hst⟩
      · rw [hp, ← htodo]
        exact h
      · have := h.push (l := []) htun ha (by simp [htodo]) (by simp) hst (by simp) (by simp) (by simp)
          (by simp)
        rw [htodo] at this
        rw [hp]
        exact this
    exact hl.observed _ w.pendingReadEvent w.streamReadable w.blocked w.fault w.history
  · exact h

theorem clock (h : w.Live) (env : Env) (time now : Word) : (w.act (.clock env time now)).Live := by
  rw [World.act]
  split
  · exact h
  · rename_i hc
    have hl := h.clockTaken (by simpa using hc)
    rw [if_neg (by simp [h.undeleted])]
    dsimp only
    split
    · exact hl
    · rename_i tcp ht
      exact (hl.callTcp ht env (.notifyClock time)).adjustClock (callTcp_tcp _ _ _ _) now false

theorem act (h : w.Live) {a : Action} (hok : Orderly a w) : (w.act a).Live ∨ (w.act a).Dead := by
  cases a with
  | dispatch now =>
    rw [World.act]
    split
    · exact h.dispatch ‹_› now
    · exact .inl h
  | execute rbuf sbuf now =>
    left
    rw [World.act]
    split
    · exact h
    · rename_i stmt rest htodo
      refine h.execute htodo (fun hs => hok ?_) rbuf sbuf now
      rw [htodo, hs]
      rfl
  | onIncomingMessage m => exact .inl (h.onIncomingMessage m)
  | acceptTunnel sent =>
    left
    rw [World.act]
    split
    · rename_i hm
      exact h.push (x := .accept sent) (l := [.getStream]) hm.2.1 hm.1 (h.later_of_mayCall hm)
        (by simp [IsLater]) trivial (by simp) (by simp) (by simp) (by simp)
    · exact h
  | declineTunnel =>
    left
    rw [World.act]
    split
    · rename_i hm
      exact h.push (x := .setState .sentReject) (l := []) hm.1.2.1 hm.1.1 (h.later_of_mayCall hm.1)
        (by simp) hm.2 (by simp) (by simp) (by simp) (by simp)
    · exact h
  | terminate =>
    left
    rw [World.act]
    split
    · rename_i hm
      exact h.push (x := .terminate) (l := []) hm.2.1 hm.1 (h.later_of_mayCall hm)
        (by simp) trivial (by simp) (by simp) (by simp) (by simp)
    · exact h
  | findSessionByStream =>
    left
    rw [World.act]
    split
    · exact h.getStream false (hok ‹_›)
    · exact h
  | destroySession =>
    left
    rw [World.act]
    split
    · rename_i hd
      exact h.destroySession hd.1 hd.2
    · exact h
  | onChannelWritableState env now writable =>
    left
    rw [World.act]
    split
    · refine h.onWorker now fun tcp ht => ⟨?_, _, callTcp_tcp _ _ _ _⟩
      have hl := h.connected_congr (h.connected_of_tcp ht) w.tcp w.clocks w.clockTaken false
        fun hd => (h.destroyChannel hd).2
      exact hl.callTcp ht env .connect
    · exact h
  | onChannelRead env now data =>
    exact .inl (h.onWorker now fun tcp ht => ⟨h.callTcp ht env _, _, callTcp_tcp _ _ _ _⟩)
  | onChannelConnectionChanged env now mtu =>
    exact .inl (h.onWorker now fun tcp ht => ⟨h.callTcp ht env _, _, callTcp_tcp _ _ _ _⟩)
  | takeClock =>
    left
    rw [World.act]
    split
    · rename_i hc
      exact h.takeClock hc.2.2
    · exact h
  | clock env time now => exact .inl (h.clock env time now)
  | purge =>
    left
    rw [World.act]
    split
    · rename_i hp
      exact h.purge hp.2 hp.1
    · exact h
  | read i env len =>
    exact .inl (h.onStream i fun ho => h.read (by simp [h.stream_of_isOpen ho]) env len)
  | write i env data => exact .inl (h.onStream i fun _ => h.write env data)
  | close i now => exact .inl (h.closeStream i hok now)
  | delete i now => exact .inl (h.deleteStream i hok now)
  | deliver => exact .inl h.deliver

theorem safe (h : w.Live) : w.Safe where
  once := by simp [h.undeleted]
  deletion rest htodo hs := by
    obtain ⟨hg, hstream, htun, hev, rfl, -⟩ := h.deletion htodo hs
    exact ⟨h.undeleted, hg, hstream, htun, hev, by simp, by simp⟩
  delivery := h.events
  destruction rest _ hs := by
    have hc := (h.destroyChannel (by rw [hs]; simp)).1
    exact ⟨hc.2.1, hc.1⟩

end Live

namespace Dead

theorem safe (h : w.Dead) : w.Safe where
  once := h.deleted.le
  deletion rest _ hs := absurd (h.signals.symm.trans hs) (by simp)
  delivery hne := absurd h.events hne
  destruction rest _ hs := absurd (h.signals.symm.trans hs) (by simp)

theorem onStream (h : w.Dead) (i : ℕ) (call : World) : (w.onStream i call).Dead := by
  rw [World.onStream]
  split
  · exact h
  · split
    · exact h
    · rw [if_pos (by simp [h.deleted])]
      exact ⟨h.deleted, h.alive, h.todo, h.signals, h.events, h.clocks, h.clockTaken, h.purges⟩

theorem onWorker (h : w.Dead) (now : Word) (call : PseudoTcp → World) :
    w.onWorker now call = w := by
  rw [World.onWorker, if_pos (.inl (by simp [h.deleted]))]

theorem not_mayCall (h : w.Dead) : ¬ w.mayCall := fun hm => absurd (h.alive.symm.trans hm.1) (by simp)

theorem act (h : w.Dead) (a : Action) : (w.act a).Dead := by
  cases a with
  | execute rbuf sbuf now =>
    rw [World.act, h.todo]
    exact h
  | dispatch now =>
    rw [World.act]
    rw [if_pos h.todo, World.dispatch, h.signals]
    exact h
  | onIncomingMessage m =>
    rw [World.act]
    rw [if_neg (by simp [h.alive])]
    exact h
  | acceptTunnel sent =>
    rw [World.act]
    rw [if_neg h.not_mayCall]
    exact h
  | declineTunnel =>
    rw [World.act]
    rw [if_neg fun hm => h.not_mayCall hm.1]
    exact h
  | terminate =>
    rw [World.act]
    rw [if_neg h.not_mayCall]
    exact h
  | findSessionByStream =>
    rw [World.act]
    rw [if_neg h.not_mayCall]
    exact h
  | destroySession =>
    rw [World.act]
    rw [if_neg (by simp [h.alive])]
    exact h
  | onChannelWritableState env now writable =>
    rw [World.act]
    split
    · rw [h.onWorker]
      exact h
    · exact h
  | onChannelRead env now data =>
    rw [World.act]
    rw [h.onWorker]
    exact h
  | onChannelConnectionChanged env now mtu =>
    rw [World.act]
    rw [h.onWorker]
    exact h
  | takeClock =>
    rw [World.act]
    rw [if_neg (by simp [h.deleted])]
    exact h
  | clock env time now =>
    rw [World.act]
    rw [if_pos h.clockTaken]
    exact h
  | purge =>
    rw [World.act]
    rw [if_neg (by simp [h.purges])]
    exact h
  | read i env len => exact h.onStream i _
  | write i env data => exact h.onStream i _
  | close i now => exact h.onStream i _
  | delete i now =>
    have hc : (w.closeStream i now).Dead := h.onStream i _
    exact ⟨hc.deleted, hc.alive, hc.todo, hc.signals, hc.events, hc.clocks, hc.clockTaken, hc.purges⟩
  | deliver =>
    rw [World.act]
    rw [World.deliver, h.events]
    exact h

end Dead

/-! ### Runs -/

theorem live_of_isStart (h : w.IsStart) : w.Live := by
  have hfresh : ∀ (initiator : Bool) (todo : List Statement),
      ({ initiator := initiator, todo := todo } : World).Fresh := fun _ _ =>
    ⟨rfl, rfl, rfl, rfl, rfl, rfl, rfl⟩
  have hlive : ∀ (initiator : Bool) (todo : List Statement), (∀ s ∈ todo.tail, IsLater s) →
      (∀ s, todo.head? = some s → Legal .init s ∧ s ≠ .releaseSession ∧ s ≠ .deleteSession) →
        ({ initiator := initiator, todo := todo } : World).Live := by
    intro initiator todo ht hh
    refine ⟨rfl, .inl (hfresh initiator todo), by simp, by simp, by simp, by simp, by simp, by simp,
      fun hp => absurd (hfresh initiator todo) hp.not_fresh, ?_⟩
    exact ⟨.inr ht, fun s hs => (hh s hs).1, fun hs => absurd rfl (hh _ hs).2.1,
      fun hs => absurd rfl (hh _ hs).2.2, by simp, by simp,
      fun hterm => absurd hterm (by simp [SessionState.isTerminated]), fun _ => hfresh initiator todo⟩
  rcases h with rfl | ⟨sent, rfl⟩
  · exact hlive _ _ (by simp) (by simp)
  · refine hlive _ _ ?_ ?_
    · cases sent <;> simp [IsLater]
    · cases sent <;> simp [Legal]

theorem live_or_dead (h : Reachable Orderly w) : w.Live ∨ w.Dead := by
  refine Reach.invariant (I := fun w => w.Live ∨ w.Dead) (fun w hw => .inl (live_of_isStart hw)) ?_ w h
  rintro w v - hw ⟨a, hok, rfl⟩
  rcases hw with hl | hd
  · exact hl.act hok
  · exact .inr (hd.act a)

/-- **The lifetime of the channel**: in a run whose steps are orderly the channel is deleted
at most once, when nothing refers to it and nothing is queued for it, and its messages
find what they need. -/
theorem channel_lifetime (h : Reachable Orderly w) : w.Safe :=
  (live_or_dead h).elim Live.safe Dead.safe

/-- A tunnel that is made by its user. -/
def created : World := { initiator := true, todo := [.setState .sentInitiate, .getStream] }

/-- The offer is made. -/
def offering : List Action :=
  List.replicate 4 (.execute (fun _ => 0) (fun _ => 0) 0) ++ [.dispatch 0]

/-- The peer accepts, and the session is destroyed. -/
def ending : List Action :=
  [.onIncomingMessage .accept] ++ List.replicate 4 (.execute (fun _ => 0) (fun _ => 0) 0) ++
    [.destroySession] ++ List.replicate 2 (.execute (fun _ => 0) (fun _ => 0) 0)

theorem reachable_created (ok : Action → World → Prop) : Reachable ok created :=
  .init (.inr ⟨true, rfl⟩)

/-- The user closes the stream when the session is over: the channel is to be deleted. -/
theorem channel_lifetime_ended :
    (created.run (offering ++ ending ++ [.close 0 0, .purge])).signals = [.destroy] ∧
      (created.run (offering ++ ending ++ [.close 0 0, .purge])).Safe := by
  refine ⟨rfl, channel_lifetime (reachable_run (reachable_created _) ?_)⟩
  refine ⟨fun _ => by decide, fun _ => by decide, fun _ => by decide, fun _ => by decide, trivial,
    trivial, fun _ => by decide, fun _ => by decide, fun _ => by decide, fun _ => by decide,
    trivial, fun _ => by decide, fun _ => by decide, fun _ _ hw => ?_, trivial, trivial⟩
  exact absurd hw (by decide)

/-- The user closes the stream before the peer accepts: the channel is to be deleted while
the session and its `TunnelSession` refer to it. -/
theorem channel_closed_unaccepted :
    ¬ ∀ w : World, Reachable (fun _ _ => True) w → w.Safe := by
  intro hall
  have hr : Reachable (fun _ _ => True) (created.run (offering ++ [.close 0 0])) :=
    reachable_run (reachable_created _) (meets_true _ _)
  obtain ⟨-, -, -, htunnel, -⟩ := (hall _ hr).deletion [] rfl rfl
  exact absurd htunnel (by decide)

end World

end Tunnel

end Jingle
