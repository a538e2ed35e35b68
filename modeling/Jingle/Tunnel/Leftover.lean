/-
What a tunnel leaves behind.

Once the session is destroyed, the user has deleted the streams that were handed
out and all queues are empty, the channel and its streams should be deleted too.
The channel is deleted by its last stream or by the worker thread, so it stays if
it was never connected and never had a stream; and a stream that was made for a
look-up only has no owner.

`Phase` is what the signaling thread does about the end of the session, and
`Held` relates a channel that is not deleted to the worker thread, to its streams
and to the message that will delete it.
-/
import Jingle.Tunnel.Lifetime

namespace Jingle

namespace Tunnel

namespace World

/-! ### Statement -/

/-- The session is gone, the user has given back the streams, and the queues are empty. -/
structure Settled (w : World) : Prop where
  session : w.alive = false
  todo : w.todo = []
  signals : w.signals = []
  events : w.events = []
  clocks : w.clocks = 0
  clockTaken : w.clockTaken = false
  purges : w.purges = 0
  streams : ∀ s ∈ w.streams, s.handed = true → s.deleted = true

/-- The channel and all its streams have been deleted. -/
def Cleared (w : World) : Prop := 0 < w.deleted ∧ ∀ s ∈ w.streams, s.deleted = true

/-- There is a stream, and the user has got every one. -/
def Owned (w : World) : Prop :=
  w.streams.map (·.handed) ≠ [] ∧ ∀ handed ∈ w.streams.map (·.handed), handed = true

/-- The session is released when the user has got all streams. -/
def EndsOwned (a : Action) (w : World) : Prop :=
  match a with
  | .execute .. => w.todo.head? = some .releaseSession → w.Owned
  | _ => True

/-! ### The end of the session -/

/-- What the signaling thread does about the end of the session. -/
inductive Phase (w : World) : Prop
  | working (tunnel : w.tunnel = true) (alive : w.alive = true)
      (todo : ∀ s ∈ w.todo, s ≠ .releaseSession ∧ s ≠ .deleteSession)
  | releasing (tunnel : w.tunnel = true) (alive : w.alive = true)
      (todo : w.todo = [.releaseSession, .deleteSession])
  | released (tunnel : w.tunnel = false) (alive : w.alive = true) (todo : w.todo = [.deleteSession])
      (owned : w.Owned)
  | ended (tunnel : w.tunnel = false) (alive : w.alive = false) (todo : w.todo = [])
      (state : .state ∉ w.signals) (owned : w.Owned)

/-- A step that has nothing to do with the session, nor with the deletion. -/
structure Aside (w v : World) : Prop where
  tunnel : v.tunnel = w.tunnel
  alive : v.alive = w.alive
  todo : v.todo = w.todo
  deleted : v.deleted = w.deleted
  state : .state ∈ v.signals → .state ∈ w.signals
  handed : v.streams.map (·.handed) = w.streams.map (·.handed)

variable {w v : World}

theorem Aside.refl (w : World) : Aside w w := ⟨rfl, rfl, rfl, rfl, id, rfl⟩

theorem Aside.trans {u : World} (h₁ : Aside w u) (h₂ : Aside u v) : Aside w v :=
  ⟨h₂.tunnel.trans h₁.tunnel, h₂.alive.trans h₁.alive, h₂.todo.trans h₁.todo,
    h₂.deleted.trans h₁.deleted, h₁.state ∘ h₂.state, h₂.handed.trans h₁.handed⟩

theorem Told.aside (h : Told w v) : Aside w v := by
  rw [h.rest]
  exact ⟨rfl, rfl, rfl, rfl, id, rfl⟩

theorem callTcp_aside (w : World) (env : Env) (op : Op) (tcp : PseudoTcp) :
    Aside w (w.callTcp env op tcp) :=
  Aside.trans (u := { w with tcp := some (step env op tcp).2 }) ⟨rfl, rfl, rfl, rfl, id, rfl⟩
    (callTcp_told w env op tcp).aside

theorem adjustClock_aside (w : World) (now : Word) (clear : Bool) :
    Aside w (w.adjustClock now clear) := by
  rw [adjustClock]
  split
  · exact ⟨rfl, rfl, rfl, rfl, id, rfl⟩
  · split
    · exact ⟨rfl, rfl, rfl, rfl, id, rfl⟩
    · refine ⟨rfl, rfl, rfl, rfl, fun hs => ?_, rfl⟩
      dsimp only at hs
      split at hs
      · simpa using hs
      · exact hs

theorem checkDestroy_aside (w : World) : Aside w w.checkDestroy := by
  rw [checkDestroy]
  split
  · exact .refl w
  · exact ⟨rfl, rfl, rfl, rfl, fun hs => by simpa using hs, rfl⟩

theorem channelDestroyed_aside (w : World) (now : Word) : Aside w (w.channelDestroyed now) := by
  obtain ⟨ready, htold⟩ := channelDestroyed_told w now
  refine Aside.trans ?_ htold.aside
  exact ⟨rfl, rfl, rfl, rfl, List.mem_of_mem_filter, rfl⟩

theorem onWorker_aside (w : World) (now : Word) {call : PseudoTcp → World}
    (hcall : ∀ tcp, Aside w (call tcp)) : Aside w (w.onWorker now call) := by
  rw [onWorker]
  split
  · exact .refl w
  · split
    · exact .refl w
    · exact (hcall _).trans (adjustClock_aside _ now true)

theorem onStream_aside (w : World) (i : ℕ) {call : World} (hcall : Aside w call) :
    Aside w (w.onStream i call) := by
  rw [onStream]
  split
  · exact .refl w
  · split
    · exact .refl w
    · split
      · exact ⟨rfl, rfl, rfl, rfl, id, rfl⟩
      · exact hcall

theorem read_aside (w : World) (env : Env) (len : ℕ) : Aside w (w.read env len) := by
  rw [read]
  split
  · exact ⟨rfl, rfl, rfl, rfl, id, rfl⟩
  · rename_i tcp _
    have hc : Aside w ({ w with streamReadable := false }.callTcp env (.recv len) tcp) :=
      Aside.trans (u := { w with streamReadable := false }) ⟨rfl, rfl, rfl, rfl, id, rfl⟩
        (callTcp_aside _ env (.recv len) tcp)
    dsimp only
    split
    · split
      · split <;> exact hc.trans ⟨rfl, rfl, rfl, rfl, id, rfl⟩
      · exact hc.trans ⟨rfl, rfl, rfl, rfl, id, rfl⟩
    · exact hc

theorem write_aside (w : World) (env : Env) (data : List Byte) : Aside w (w.write env data) := by
  rw [write]
  split
  · exact .refl w
  · exact callTcp_aside w env (.send data) _

theorem close_aside (w : World) (now : Word) : Aside w (w.close now) := by
  rw [close]
  dsimp only
  split
  · refine Aside.trans ?_ (adjustClock_aside _ now true)
    exact ⟨rfl, rfl, rfl, rfl, id, rfl⟩
  · refine Aside.trans ?_ (checkDestroy_aside _)
    exact ⟨rfl, rfl, rfl, rfl, id, rfl⟩

theorem map_handed_modify {f : InternalStream → InternalStream} (hf : ∀ s, (f s).handed = s.handed)
    (i : ℕ) (l : List InternalStream) : (l.modify i f).map (·.handed) = l.map (·.handed) := by
  apply List.ext_getElem?
  intro j
  rw [List.getElem?_map, List.getElem?_modify, List.getElem?_map]
  cases l[j]? with
  | none => rfl
  | some s => by_cases hij : i = j <;> simp [hij, hf]

theorem closeStream_aside (w : World) (i : ℕ) (now : Word) : Aside w (w.closeStream i now) := by
  rw [closeStream]
  refine onStream_aside w i ?_
  obtain ⟨h₁, h₂, h₃, h₄, h₅, h₆⟩ := close_aside w now
  exact ⟨h₁, h₂, h₃, h₄, h₅, map_handed_modify (f := fun s => { s with parent := false }) (fun _ => rfl) i _⟩

theorem deleteStream_aside (w : World) (i : ℕ) (now : Word) : Aside w (w.deleteStream i now) :=
  (closeStream_aside w i now).trans ⟨rfl, rfl, rfl, rfl, id,
    map_handed_modify (f := fun s => { s with deleted := s.deleted || s.handed }) (fun _ => rfl) i _⟩

theorem deliver_aside (w : World) : Aside w w.deliver := by
  rw [deliver]
  split
  · exact .refl w
  · dsimp only
    split <;> exact ⟨rfl, rfl, rfl, rfl, id, rfl⟩

theorem Owned.aside (h : w.Owned) (ha : Aside w v) : v.Owned := by
  rw [Owned, ha.handed]
  exact h

theorem Phase.aside (h : w.Phase) (ha : Aside w v) : v.Phase := by
  cases h with
  | working ht hal htodo =>
    refine .working (ha.tunnel.trans ht) (ha.alive.trans hal) ?_
    rw [ha.todo]
    exact htodo
  | releasing ht hal htodo =>
    exact .releasing (ha.tunnel.trans ht) (ha.alive.trans hal) (ha.todo.trans htodo)
  | released ht hal htodo ho =>
    exact .released (ha.tunnel.trans ht) (ha.alive.trans hal) (ha.todo.trans htodo) (ho.aside ha)
  | ended ht hal htodo hs ho =>
    exact .ended (ha.tunnel.trans ht) (ha.alive.trans hal) (ha.todo.trans htodo) (hs ∘ ha.state)
      (ho.aside ha)

/-! ### Steps of the signaling thread -/

theorem connect_aside (w : World) (rbuf sbuf : ℕ → Byte) (now : Word) :
    Aside w (w.connect rbuf sbuf now) := by
  rw [connect]
  split
  · exact ⟨rfl, rfl, rfl, rfl, id, rfl⟩
  · split
    · exact .refl w
    · split <;> exact ⟨rfl, rfl, rfl, rfl, id, rfl⟩

theorem onSessionTerminate_aside (w : World) : Aside w w.onSessionTerminate := by
  rw [onSessionTerminate]
  split
  · exact ⟨rfl, rfl, rfl, rfl, id, rfl⟩
  · split
    · dsimp only
      split <;> exact ⟨rfl, rfl, rfl, rfl, id, rfl⟩
    · exact .refl w

theorem getStream_frame (w : World) (handed : Bool) : (w.getStream handed).tunnel = w.tunnel ∧
    (w.getStream handed).alive = w.alive ∧ (w.getStream handed).todo = w.todo ∧
    (w.getStream handed).deleted = w.deleted := by
  rw [getStream]
  split
  · exact ⟨rfl, rfl, rfl, rfl⟩
  · split <;> exact ⟨rfl, rfl, rfl, rfl⟩

theorem onChannelClosed_phase (h : w.Phase) : w.onChannelClosed.Phase := by
  rw [onChannelClosed]
  split
  · rename_i hc
    cases h with
    | working ht ha htodo => exact .working ht ha htodo
    | releasing ht ha htodo => exact .releasing ht ha htodo
    | released ht _ _ _ => exact absurd (ht.symm.trans hc.1) (by simp)
    | ended ht _ _ _ _ => exact absurd (ht.symm.trans hc.1) (by simp)
  · exact h

theorem onChannelDestroyed_phase (h : w.Phase) (now : Word) : (w.onChannelDestroyed now).Phase :=
  onChannelClosed_phase (h.aside (channelDestroyed_aside w now))

theorem deleteSession_phase (ht : w.tunnel = false) (htodo : w.todo = []) (ho : w.Owned)
    (now : Word) : (w.deleteSession now).Phase := by
  have h : { w with alive := false, signals := w.signals.filter (· ≠ SignalMessage.state) }.Phase :=
    .ended ht rfl htodo (by simp) ho
  rw [deleteSession]
  dsimp only
  split
  · exact onChannelDestroyed_phase h now
  · exact h

theorem execute_phase (h : w.Phase) {stmt : Statement} {rest : List Statement}
    (htodo : w.todo = stmt :: rest) (hok : stmt = .releaseSession → w.Owned) (rbuf sbuf : ℕ → Byte)
    (now : Word) : (w.execute rbuf sbuf now stmt rest).Phase := by
  cases h with
  | releasing ht ha hl =>
    obtain ⟨rfl, rfl⟩ := List.cons.inj (htodo.symm.trans hl)
    exact .released rfl ha rfl (hok rfl)
  | released ht ha hl ho =>
    obtain ⟨rfl, rfl⟩ := List.cons.inj (htodo.symm.trans hl)
    exact deleteSession_phase (w := { w with todo := [] }) ht rfl ho now
  | ended ht ha hl hs ho => exact absurd (htodo.symm.trans hl) (by simp)
  | working ht ha hall =>
    rw [htodo] at hall
    obtain ⟨hstmt, hrest⟩ := List.forall_mem_cons.mp hall
    have hpop : { w with todo := rest }.Phase := .working ht ha hrest
    cases stmt with
    | releaseSession => exact absurd rfl hstmt.1
    | deleteSession => exact absurd rfl hstmt.2
    | setState st =>
      unfold execute
      dsimp only
      split
      · exact hpop
      · refine .working ht ha ?_
        simpa using hrest
    | signalState st =>
      refine .working ht ha fun s hs => ?_
      rcases List.mem_append.mp hs with hs | hs
      · rcases onSessionState_cases w st with he | ⟨x, he, -, hx⟩
        · rw [he] at hs
          exact absurd hs (by simp)
        · rw [he] at hs
          obtain rfl := List.mem_singleton.mp hs
          rcases hx with rfl | rfl | rfl <;> simp
      · exact hrest s hs
    | postState => exact .working ht ha hrest
    | incoming => exact hpop
    | accept sent =>
      unfold execute
      dsimp only
      refine .working ht ha ?_
      split
      · simpa using hrest
      · exact hrest
    | terminate =>
      unfold execute
      dsimp only
      refine .working ht ha ?_
      split
      · simpa using hrest
      · exact hrest
    | connect => exact hpop.aside (connect_aside _ rbuf sbuf now)
    | onSessionTerminate => exact hpop.aside (onSessionTerminate_aside _)
    | getStream =>
      obtain ⟨h₁, h₂, h₃, -⟩ := getStream_frame { w with todo := rest } true
      refine .working (h₁.trans ht) (h₂.trans ha) ?_
      show ∀ s ∈ ({ w with todo := rest }.getStream true).todo, _
      rw [h₃]
      exact hrest

theorem dispatch_phase (h : w.Phase) (htodo : w.todo = []) (now : Word) : (w.dispatch now).Phase := by
  -- a message is taken from the queue
  have hpop : ∀ rest : List SignalMessage, (∀ m ∈ rest, m ∈ w.signals) →
      { w with signals := rest }.Phase := by
    intro rest hsub
    exact h.aside ⟨rfl, rfl, rfl, rfl, hsub _, rfl⟩
  rw [dispatch]
  split
  · exact h
  · rename_i rest hs
    cases h with
    | working ht ha _ =>
      rcases stateStatements_cases w with ⟨-, he⟩ | ⟨-, he | he | ⟨he, -⟩⟩
      · exact .releasing ht ha he
      all_goals
        refine .working ht ha ?_
        dsimp only
        rw [he]
        simp
    | releasing _ _ hl => exact absurd (htodo.symm.trans hl) (by simp)
    | released _ _ hl _ => exact absurd (htodo.symm.trans hl) (by simp)
    | ended _ _ _ hn _ =>
      rw [hs] at hn
      exact absurd List.mem_cons_self hn
  · rename_i rest hs
    have hrest := hpop rest fun m hm => by
      rw [hs]
      exact List.mem_cons_of_mem _ hm
    split
    · exact onChannelDestroyed_phase hrest now
    · exact hrest.aside ⟨rfl, rfl, rfl, rfl, id, rfl⟩
  · rename_i rest hs
    have hrest := hpop (rest.filter (· = SignalMessage.state)) fun m hm => by
      rw [hs]
      exact List.mem_cons_of_mem _ (List.mem_of_mem_filter hm)
    cases hrest with
    | working ht ha hl => exact .working ht ha hl
    | releasing ht ha hl => exact .releasing ht ha hl
    | released ht ha hl ho => exact .released ht ha hl ho
    | ended ht ha hl hn ho => exact .ended ht ha hl hn ho

theorem phase_of_mayCall (h : w.Phase) (hm : w.mayCall) {l : List Statement}
    (hl : ∀ s ∈ l, s ≠ .releaseSession ∧ s ≠ .deleteSession) : { w with todo := l ++ w.todo }.Phase := by
  cases h with
  | working ht ha htodo =>
    refine .working ht ha fun s hs => ?_
    exact (List.mem_append.mp hs).elim (hl s) (htodo s)
  | releasing _ _ htodo =>
    rcases hm.2.2 with hn | hn
    · exact absurd (hn.symm.trans htodo) (by simp)
    · rw [htodo] at hn
      exact absurd hn (by simp)
  | released ht _ _ _ => exact absurd (ht.symm.trans hm.2.1) (by simp)
  | ended ht _ _ _ _ => exact absurd (ht.symm.trans hm.2.1) (by simp)

theorem act_aside (w : World) (a : Action) : Aside w (w.act a) ∨
    (∃ rbuf sbuf now, a = .execute rbuf sbuf now) ∨ (∃ now, a = .dispatch now) ∨
    (∃ m, a = .onIncomingMessage m) ∨ (∃ sent, a = .acceptTunnel sent) ∨ a = .declineTunnel ∨
    a = .terminate ∨ a = .findSessionByStream ∨ a = .destroySession := by
  cases a with
  | onChannelWritableState env now writable =>
    left
    rw [act]
    split
    · exact onWorker_aside w now fun tcp => Aside.trans (u := { w with readyToConnect := false })
        ⟨rfl, rfl, rfl, rfl, id, rfl⟩ (callTcp_aside _ env .connect tcp)
    · exact .refl w
  | onChannelRead env now data => exact .inl (onWorker_aside w now fun tcp => callTcp_aside w env _ tcp)
  | onChannelConnectionChanged env now mtu =>
    exact .inl (onWorker_aside w now fun tcp => callTcp_aside w env _ tcp)
  | takeClock =>
    left
    rw [act]
    split <;> exact ⟨rfl, rfl, rfl, rfl, id, rfl⟩
  | clock env time now =>
    left
    rw [act]
    split
    · exact .refl w
    · split
      · exact ⟨rfl, rfl, rfl, rfl, id, rfl⟩
      · dsimp only
        split
        · exact ⟨rfl, rfl, rfl, rfl, id, rfl⟩
        · refine Aside.trans ?_ (adjustClock_aside _ now false)
          refine Aside.trans ?_ (callTcp_aside _ env (.notifyClock time) _)
          exact ⟨rfl, rfl, rfl, rfl, id, rfl⟩
  | purge =>
    left
    rw [act]
    split
    · refine Aside.trans ?_ (checkDestroy_aside _)
      exact ⟨rfl, rfl, rfl, rfl, id, rfl⟩
    · exact .refl w
  | read i env len => exact .inl (onStream_aside w i (read_aside w env len))
  | write i env data => exact .inl (onStream_aside w i (write_aside w env data))
  | close i now => exact .inl (closeStream_aside w i now)
  | delete i now => exact .inl (deleteStream_aside w i now)
  | deliver => exact .inl (deliver_aside w)
  | _ => simp

theorem act_phase (h : w.Phase) {a : Action} (hok : EndsOwned a w) : (w.act a).Phase := by
  rcases act_aside w a with ha | ⟨rbuf, sbuf, now, rfl⟩ | ⟨now, rfl⟩ | ⟨m, rfl⟩ | ⟨sent, rfl⟩ | rfl |
    rfl | rfl | rfl
  · exact h.aside ha
  · rw [act]
    split
    · exact h
    · rename_i stmt rest htodo
      refine execute_phase h htodo (fun hs => hok ?_) rbuf sbuf now
      rw [htodo, hs]
      rfl
  · rw [act]
    split
    · exact dispatch_phase h ‹_› now
    · exact h
  · rw [act]
    split
    · rename_i hm
      cases h with
      | working ht ha _ =>
        refine .working ht ha fun s hs => ?_
        rcases peerStatements_cases w m with he | ⟨st, he, -⟩
        · rw [he] at hs
          exact absurd hs (by simp)
        · rw [he] at hs
          obtain rfl := List.mem_singleton.mp hs
          simp
      | releasing _ _ htodo => exact absurd (hm.2.symm.trans htodo) (by simp)
      | released _ _ htodo _ => exact absurd (hm.2.symm.trans htodo) (by simp)
      | ended _ ha _ _ _ => exact absurd (ha.symm.trans hm.1) (by simp)
    · exact h
  · rw [act]
    split
    · exact phase_of_mayCall h ‹_› (l := [.accept sent, .getStream]) (by simp)
    · exact h
  · rw [act]
    split
    · rename_i hm
      exact phase_of_mayCall h hm.1 (l := [.setState .sentReject]) (by simp)
    · exact h
  · rw [act]
    split
    · exact phase_of_mayCall h ‹_› (l := [.terminate]) (by simp)
    · exact h
  · rw [act]
    split
    · rename_i hm
      obtain ⟨h₁, h₂, h₃, -⟩ := getStream_frame w false
      cases phase_of_mayCall h hm (l := []) (by simp) with
      | working ht ha htodo =>
        refine .working (h₁.trans ht) (h₂.trans ha) ?_
        rw [h₃]
        exact htodo
      | releasing ht ha htodo => exact .releasing (h₁.trans ht) (h₂.trans ha) (h₃.trans htodo)
      | released ht _ _ _ => exact absurd (ht.symm.trans hm.2.1) (by simp)
      | ended ht _ _ _ _ => exact absurd (ht.symm.trans hm.2.1) (by simp)
    · exact h
  · rw [act]
    split
    · rename_i hm
      cases h with
      | working ht ha _ => exact .releasing ht ha rfl
      | releasing ht ha _ => exact .releasing ht ha rfl
      | released _ _ htodo _ => exact absurd (hm.2.symm.trans htodo) (by simp)
      | ended _ ha _ _ _ => exact absurd (ha.symm.trans hm.1) (by simp)
    · exact h

theorem onChannelDestroyed_deleted (w : World) (now : Word) :
    (w.onChannelDestroyed now).deleted = w.deleted := by
  rw [onChannelDestroyed, onChannelClosed]
  split <;> exact (channelDestroyed_aside w now).deleted

theorem deleteSession_deleted (w : World) (now : Word) : (w.deleteSession now).deleted = w.deleted := by
  rw [deleteSession]
  dsimp only
  split
  · exact onChannelDestroyed_deleted _ now
  · rfl

theorem execute_deleted (w : World) (rbuf sbuf : ℕ → Byte) (now : Word) (stmt : Statement)
    (rest : List Statement) : (w.execute rbuf sbuf now stmt rest).deleted = w.deleted := by
  cases stmt with
  | setState st =>
    unfold execute
    dsimp only
    split <;> rfl
  | connect => exact (connect_aside _ rbuf sbuf now).deleted
  | onSessionTerminate => exact (onSessionTerminate_aside _).deleted
  | getStream => exact (getStream_frame _ true).2.2.2
  | deleteSession => exact deleteSession_deleted _ now
  | _ => rfl

theorem act_deleted (w : World) (a : Action) : w.deleted ≤ (w.act a).deleted := by
  rcases act_aside w a with ha | ⟨rbuf, sbuf, now, rfl⟩ | ⟨now, rfl⟩ | ⟨m, rfl⟩ | ⟨sent, rfl⟩ | rfl |
    rfl | rfl | rfl
  · exact ha.deleted.ge
  · rw [act]
    split
    · exact le_rfl
    · exact (execute_deleted w rbuf sbuf now _ _).ge
  · rw [act]
    split
    · rw [dispatch]
      split
      · exact le_rfl
      · exact le_rfl
      · rename_i rest _
        split
        · exact (onChannelDestroyed_deleted { w with signals := rest } now).ge
        · exact le_rfl
      · exact Nat.le_succ _
    · exact le_rfl
  all_goals
    rw [act]
    split
    · first | exact le_rfl | exact (getStream_frame w false).2.2.2.ge
    · exact le_rfl

/-! ### The channel -/

/-- A channel that was not deleted. -/
structure Held (w : World) : Prop where
  running : w.tcp ≠ none → w.workerThread = true
  working : w.workerThread = true → w.channel = true ∨ 0 < w.purges
  purging : 0 < w.purges → w.session = false ∧ w.tcp = none
  ended : w.alive = false → w.channel = false
  current : ∀ i, w.stream = some i → ∃ s, w.streams[i]? = some s ∧ s.parent = true
  closed : ∀ s ∈ w.streams, s.deleted = true → s.parent = false
  /-- When the last stream and the worker thread are done, the deletion is posted. -/
  due : w.workerThread = false → w.streams ≠ [] → w.stream = none → .destroy ∈ w.signals

namespace Held

theorem told (h : w.Held) (ht : Told w v) : v.Held := by
  rw [ht.rest]
  exact ⟨h.running, h.working, h.purging, h.ended, h.current, h.closed, h.due⟩

theorem callTcp (h : w.Held) {tcp : PseudoTcp} (ht : w.tcp = some tcp) (env : Env) (op : Op) :
    (w.callTcp env op tcp).Held := by
  have hne : w.tcp ≠ none := by simp [ht]
  have hu : { w with tcp := some (step env op tcp).2 }.Held :=
    ⟨fun _ => h.running hne, h.working, fun hp => absurd (h.purging hp).2 hne, h.ended, h.current,
      h.closed, h.due⟩
  exact hu.told (callTcp_told w env op tcp)

theorem adjustClock (h : w.Held) {tcp : PseudoTcp} (ht : w.tcp = some tcp) (now : Word)
    (clear : Bool) : (w.adjustClock now clear).Held := by
  have hrun := h.running (by simp [ht])
  rw [World.adjustClock, ht]
  dsimp only
  split
  · exact ⟨fun _ => hrun, h.working, fun hp => absurd (ht.symm.trans (h.purging hp).2) (by simp),
      h.ended, h.current, h.closed, h.due⟩
  · exact ⟨fun hn => absurd rfl hn, h.working, fun hp => ⟨(h.purging hp).1, rfl⟩, h.ended, h.current,
      h.closed, fun hw => absurd (hw.symm.trans hrun) (by simp)⟩

theorem connect (h : w.Held) (ha : w.alive = true) (rbuf sbuf : ℕ → Byte) (now : Word) :
    (w.connect rbuf sbuf now).Held := by
  rw [World.connect]
  split
  · exact ⟨h.running, h.working, h.purging, h.ended, h.current, h.closed, h.due⟩
  · split
    · exact h
    · split
      · exact ⟨h.running, h.working, h.purging, h.ended, h.current, h.closed, h.due⟩
      · rename_i hs
        exact ⟨fun _ => rfl, fun _ => .inl rfl, fun hp => absurd (h.purging hp).1 hs,
          fun hf => absurd (hf.symm.trans ha) (by simp), h.current, h.closed,
          fun hw => absurd hw (by simp)⟩

theorem onSessionTerminate (h : w.Held) : w.onSessionTerminate.Held := by
  rw [World.onSessionTerminate]
  split
  · exact ⟨h.running, h.working, h.purging, h.ended, h.current, h.closed, h.due⟩
  · split
    · have hv : { w with session := false }.Held :=
        ⟨h.running, h.working, fun hp => ⟨rfl, (h.purging hp).2⟩, h.ended, h.current, h.closed, h.due⟩
      dsimp only
      split
      · exact hv
      · exact ⟨hv.running, hv.working, hv.purging, hv.ended, hv.current, hv.closed, hv.due⟩
    · exact h

theorem of_mem_modify {f : InternalStream → InternalStream} {i : ℕ} {l : List InternalStream}
    {s : InternalStream} (h : s ∈ l.modify i f) : ∃ s' ∈ l, s = s' ∨ s = f s' := by
  obtain ⟨j, hj⟩ := List.mem_iff_getElem?.mp h
  rw [List.getElem?_modify] at hj
  obtain ⟨s', hs', rfl⟩ := Option.map_eq_some_iff.mp hj
  refine ⟨s', List.mem_of_getElem? hs', ?_⟩
  by_cases hij : i = j <;> simp [hij]

theorem getStream (h : w.Held) (handed : Bool) : (w.getStream handed).Held := by
  rw [World.getStream]
  split
  · exact ⟨h.running, h.working, h.purging, h.ended, h.current, h.closed, h.due⟩
  · split
    · refine ⟨h.running, h.working, h.purging, h.ended, fun i hi => ?_, fun s hs hd => ?_,
        fun _ _ hn => absurd hn (by simp)⟩
      · obtain rfl := Option.some.inj hi
        exact ⟨{ handed := handed }, by simp, rfl⟩
      · rcases List.mem_append.mp hs with hs | hs
        · exact h.closed s hs hd
        · rw [List.mem_singleton.mp hs] at hd
          exact absurd hd (by simp)
    · rename_i k hk
      refine ⟨h.running, h.working, h.purging, h.ended, fun i hi => ?_, fun s hs hd => ?_,
        fun _ _ hn => absurd (hk.symm.trans hn) (by simp)⟩
      · obtain rfl := Option.some.inj (hk.symm.trans hi)
        obtain ⟨s, hs, hp⟩ := h.current k hk
        exact ⟨{ s with handed := s.handed || handed }, by simp [hs], hp⟩
      · obtain ⟨s', hs', rfl | rfl⟩ := of_mem_modify hs
        · exact h.closed s hs' hd
        · exact h.closed s' hs' hd

theorem of_channelDestroyed (hcurrent : ∀ i, w.stream = some i → ∃ s, w.streams[i]? = some s ∧
      s.parent = true) (hclosed : ∀ s ∈ w.streams, s.deleted = true → s.parent = false)
    (hdue : w.workerThread = false → w.streams ≠ [] → w.stream = none → .destroy ∈ w.signals)
    (now : Word) : (w.onChannelDestroyed now).Held := by
  have hv : (w.channelDestroyed now).Held := by
    obtain ⟨ready, htold⟩ := channelDestroyed_told w now
    refine Held.told ?_ htold
    exact ⟨fun hn => absurd rfl hn, fun _ => .inr (Nat.succ_pos _), fun _ => ⟨rfl, rfl⟩, fun _ => rfl,
      hcurrent, hclosed, fun hw hne hs => by simpa using hdue hw hne hs⟩
  rw [onChannelDestroyed, onChannelClosed]
  split
  · exact ⟨hv.running, hv.working, hv.purging, hv.ended, hv.current, hv.closed,
      fun hw hne hs => List.mem_append_left _ (hv.due hw hne hs)⟩
  · exact hv

theorem deleteSession (h : w.Held) (hd : w.deleted = 0) (now : Word) : (w.deleteSession now).Held := by
  have hdue : w.workerThread = false → w.streams ≠ [] → w.stream = none →
      .destroy ∈ w.signals.filter (· ≠ SignalMessage.state) := fun hw hne hs => by
    simpa using h.due hw hne hs
  rw [World.deleteSession]
  dsimp only
  split
  · exact of_channelDestroyed (w := { w with alive := false, signals := _ }) h.current h.closed hdue now
  · rename_i hc
    have hc : w.channel = false := by
      by_contra hx
      exact hc ⟨by simpa using hx, hd⟩
    exact ⟨h.running, h.working, h.purging, fun _ => hc, h.current, h.closed, hdue⟩

theorem execute (h : w.Held) (hd : w.deleted = 0) (ha : w.alive = true) (rbuf sbuf : ℕ → Byte)
    (now : Word) (stmt : Statement) (rest : List Statement) :
    (w.execute rbuf sbuf now stmt rest).Held := by
  have hpop : { w with todo := rest }.Held :=
    ⟨h.running, h.working, h.purging, h.ended, h.current, h.closed, h.due⟩
  cases stmt with
  | setState st =>
    unfold World.execute
    dsimp only
    split
    · exact hpop
    · exact ⟨h.running, h.working, h.purging, h.ended, h.current, h.closed, h.due⟩
  | postState =>
    exact ⟨h.running, h.working, h.purging, h.ended, h.current, h.closed,
      fun hw hne hs => List.mem_append_left _ (h.due hw hne hs)⟩
  | connect => exact hpop.connect ha rbuf sbuf now
  | onSessionTerminate => exact hpop.onSessionTerminate
  | getStream => exact hpop.getStream true
  | deleteSession => exact hpop.deleteSession hd now
  | _ => exact ⟨h.running, h.working, h.purging, h.ended, h.current, h.closed, h.due⟩

theorem dispatch (h : w.Held) (now : Word) : 0 < (w.dispatch now).deleted ∨ (w.dispatch now).Held := by
  rw [World.dispatch]
  split
  · exact .inr h
  · rename_i rest hs
    refine .inr ⟨h.running, h.working, h.purging, h.ended, h.current, h.closed, fun hw hne hn => ?_⟩
    simpa [hs] using h.due hw hne hn
  · rename_i rest hs
    have hdue : w.workerThread = false → w.streams ≠ [] → w.stream = none → .destroy ∈ rest := by
      intro hw hne hn
      simpa [hs] using h.due hw hne hn
    right
    split
    · exact of_channelDestroyed (w := { w with signals := rest }) h.current h.closed hdue now
    · exact ⟨h.running, h.working, h.purging, h.ended, h.current, h.closed, hdue⟩
  · exact .inl (Nat.succ_pos _)

/-! ### The other threads -/

theorem onWorker (h : w.Held) (now : Word) {call : PseudoTcp → World}
    (hcall : ∀ tcp, w.tcp = some tcp → (call tcp).Held ∧ ∃ tcp', (call tcp).tcp = some tcp') :
    (w.onWorker now call).Held := by
  rw [World.onWorker]
  split
  · exact h
  · split
    · exact h
    · rename_i tcp ht
      obtain ⟨hl, tcp', ht'⟩ := hcall tcp ht
      exact hl.adjustClock ht' now true

theorem onStream (h : w.Held) (i : ℕ) {call : World} (hcall : call.Held) : (w.onStream i call).Held := by
  rw [World.onStream]
  split
  · exact h
  · split
    · exact h
    · split
      · exact ⟨h.running, h.working, h.purging, h.ended, h.current, h.closed, h.due⟩
      · exact hcall

theorem read (h : w.Held) (env : Env) (len : ℕ) : (w.read env len).Held := by
  rw [World.read]
  split
  · exact ⟨h.running, h.working, h.purging, h.ended, h.current, h.closed, h.due⟩
  · rename_i tcp ht
    have hw : ({ w with streamReadable := false } : World).Held :=
      ⟨h.running, h.working, h.purging, h.ended, h.current, h.closed, h.due⟩
    have hc := hw.callTcp ht env (.recv len)
    dsimp only
    split
    · split
      · split <;> exact ⟨hc.running, hc.working, hc.purging, hc.ended, hc.current, hc.closed, hc.due⟩
      · exact ⟨hc.running, hc.working, hc.purging, hc.ended, hc.current, hc.closed, hc.due⟩
    · exact hc

theorem write (h : w.Held) (env : Env) (data : List Byte) : (w.write env data).Held := by
  rw [World.write]
  split
  · exact h
  · exact h.callTcp ‹_› env (.send data)

theorem purge (h : w.Held) (hp : 0 < w.purges) :
    { w with purges := w.purges - 1, workerThread := false }.checkDestroy.Held := by
  have ht : w.tcp = none := (h.purging hp).2
  rw [checkDestroy]
  split
  · rename_i hs
    exact ⟨fun hn => absurd ht hn, fun hw => absurd hw (by simp), fun _ => h.purging hp, h.ended,
      h.current, h.closed, fun _ _ hn => absurd hn (hs.resolve_left (by simp))⟩
  · exact ⟨fun hn => absurd ht hn, fun hw => absurd hw (by simp), fun _ => h.purging hp, h.ended,
      h.current, h.closed, fun _ _ _ => by simp⟩

theorem close (h : w.Held) (i : ℕ) (now : Word) :
    { w.close now with
      streams := w.streams.modify i fun s => { s with parent := false } }.Held := by
  have hclosed : ∀ s ∈ w.streams.modify i fun s => { s with parent := false },
      s.deleted = true → s.parent = false := by
    intro s hs hd
    obtain ⟨s', hs', rfl | rfl⟩ := of_mem_modify hs
    · exact h.closed s hs' hd
    · rfl
  cases ht : w.tcp with
  | some tcp =>
    have hne : w.tcp ≠ none := by simp [ht]
    have hrun := h.running hne
    rw [close_tcp w ht]
    refine adjustClock ?_ (Eq.refl (some (tcp.close false))) now true
    exact ⟨fun _ => hrun, h.working, fun hp => absurd (h.purging hp).2 hne, h.ended,
      fun j hj => absurd hj (by simp), hclosed, fun hw => absurd (hw.symm.trans hrun) (by simp)⟩
  | none =>
    rw [close_unconnected w ht, checkDestroy]
    split
    · rename_i hs
      have hw : w.workerThread = true := hs.resolve_right (by simp)
      exact ⟨h.running, h.working, h.purging, h.ended, fun j hj => absurd hj (by simp), hclosed,
        fun hf => absurd (hf.symm.trans hw) (by simp)⟩
    · exact ⟨h.running, h.working, h.purging, h.ended, fun j hj => absurd hj (by simp), hclosed,
        fun _ _ _ => by simp⟩

theorem closeStream (h : w.Held) (i : ℕ) (now : Word) : (w.closeStream i now).Held := by
  rw [World.closeStream]
  exact h.onStream i (h.close i now)

theorem closeStream_parent (h : w.Held) (hd : w.deleted = 0) (i : ℕ) (now : Word) {s : InternalStream}
    (hs : (w.closeStream i now).streams[i]? = some s) (hh : s.handed = true) : s.parent = false := by
  rw [World.closeStream, World.onStream] at hs
  cases hi : w.streams[i]? with
  | none =>
    simp only [hi] at hs
    exact absurd hs (by simp)
  | some t =>
    simp only [hi] at hs
    split at hs
    · rename_i ho
      obtain rfl := Option.some.inj (hi.symm.trans hs)
      rcases ho with ho | ho | ho
      · exact absurd (ho.symm.trans hh) (by simp)
      · exact h.closed t (List.mem_of_getElem? hi) ho
      · exact ho
    · rw [if_neg (by simp [hd])] at hs
      dsimp only at hs
      rw [List.getElem?_modify, hi] at hs
      obtain rfl : _ = s := by simpa using hs
      rfl

theorem deleteStream (h : w.Held) (hd : w.deleted = 0) (i : ℕ) (now : Word) :
    (w.deleteStream i now).Held := by
  have hv := h.closeStream i now
  have hp : ∀ s, (w.closeStream i now).streams[i]? = some s → s.handed = true → s.parent = false :=
    fun s => h.closeStream_parent hd i now
  rw [World.deleteStream]
  generalize w.closeStream i now = v at hv hp
  refine ⟨hv.running, hv.working, hv.purging, hv.ended, fun j hj => ?_, fun s hs hdel => ?_,
    fun hw hne hn => hv.due hw (fun hnil => hne ?_) hn⟩
  · obtain ⟨s, hs, hpar⟩ := hv.current j hj
    dsimp only
    rw [List.getElem?_modify, hs]
    by_cases hij : i = j
    · exact ⟨_, rfl, by simp [hij, hpar]⟩
    · exact ⟨_, rfl, by simp [hij, hpar]⟩
  · obtain ⟨j, hj⟩ := List.mem_iff_getElem?.mp hs
    dsimp only at hj
    rw [List.getElem?_modify] at hj
    obtain ⟨t, ht, rfl⟩ := Option.map_eq_some_iff.mp hj
    have hmem := List.mem_of_getElem? ht
    by_cases hij : i = j
    · subst hij
      rw [if_pos rfl] at hdel ⊢
      rcases Bool.or_eq_true_iff.mp hdel with hx | hx
      · exact hv.closed t hmem hx
      · exact hp t ht hx
    · rw [if_neg hij] at hdel ⊢
      exact hv.closed t hmem hdel
  · rw [hnil]
    simp

theorem deliver (h : w.Held) : w.deliver.Held := by
  rw [World.deliver]
  split
  · exact h
  · dsimp only
    split <;> exact ⟨h.running, h.working, h.purging, h.ended, h.current, h.closed, h.due⟩

theorem act (h : w.Held) (hd : w.deleted = 0) (hp : w.Phase) (a : Action) :
    0 < (w.act a).deleted ∨ (w.act a).Held := by
  cases a with
  | execute rbuf sbuf now =>
    right
    rw [World.act]
    split
    · exact h
    · rename_i stmt rest htodo
      refine h.execute hd ?_ rbuf sbuf now stmt rest
      cases hp with
      | working _ ha _ => exact ha
      | releasing _ ha _ => exact ha
      | released _ ha _ _ => exact ha
      | ended _ _ hn _ _ => exact absurd (htodo.symm.trans hn) (by simp)
  | dispatch now =>
    rw [World.act]
    split
    · exact h.dispatch now
    · exact .inr h
  | findSessionByStream =>
    right
    rw [World.act]
    split
    · exact h.getStream false
    · exact h
  | onChannelWritableState env now writable =>
    right
    rw [World.act]
    split
    · refine h.onWorker now fun tcp ht => ⟨?_, _, callTcp_tcp _ _ _ _⟩
      have hw : { w with readyToConnect := false }.Held :=
        ⟨h.running, h.working, h.purging, h.ended, h.current, h.closed, h.due⟩
      exact hw.callTcp ht env .connect
    · exact h
  | onChannelRead env now data =>
    exact .inr (h.onWorker now fun tcp ht => ⟨h.callTcp ht env _, _, callTcp_tcp _ _ _ _⟩)
  | onChannelConnectionChanged env now mtu =>
    exact .inr (h.onWorker now fun tcp ht => ⟨h.callTcp ht env _, _, callTcp_tcp _ _ _ _⟩)
  | clock env time now =>
    right
    have hw : { w with clockTaken := false }.Held :=
      ⟨h.running, h.working, h.purging, h.ended, h.current, h.closed, h.due⟩
    rw [World.act]
    split
    · exact h
    · rw [if_neg (by simp [hd])]
      dsimp only
      split
      · exact hw
      · rename_i tcp ht
        exact (hw.callTcp ht env (.notifyClock time)).adjustClock (callTcp_tcp _ _ _ _) now false
  | purge =>
    right
    rw [World.act]
    split
    · rename_i hpur
      exact h.purge hpur.2
    · exact h
  | read i env len => exact .inr (h.onStream i (h.read env len))
  | write i env data => exact .inr (h.onStream i (h.write env data))
  | close i now => exact .inr (h.closeStream i now)
  | delete i now => exact .inr (h.deleteStream hd i now)
  | deliver => exact .inr h.deliver
  | _ =>
    right
    rw [World.act]
    split
    · exact ⟨h.running, h.working, h.purging, h.ended, h.current, h.closed, h.due⟩
    · exact h

end Held

/-! ### Runs -/

theorem phase_and_held (h : Reachable EndsOwned w) : w.Phase ∧ (0 < w.deleted ∨ w.Held) := by
  refine Reach.invariant (I := fun w => w.Phase ∧ (0 < w.deleted ∨ w.Held)) ?_ ?_ w h
  · have hheld : ∀ (initiator : Bool) (todo : List Statement),
        ({ initiator := initiator, todo := todo } : World).Held := fun _ _ =>
      ⟨by simp, by simp, by simp, by simp, by simp, by simp, by simp⟩
    rintro w (rfl | ⟨sent, rfl⟩)
    · exact ⟨.working rfl rfl (by simp), .inr (hheld _ _)⟩
    · refine ⟨.working rfl rfl ?_, .inr (hheld _ _)⟩
      cases sent <;> simp
  · rintro w v - ⟨hp, hh⟩ ⟨a, hok, rfl⟩
    refine ⟨act_phase hp hok, ?_⟩
    rcases Nat.eq_zero_or_pos w.deleted with hd | hd
    · rcases hh with hh | hh
      · exact absurd hh (by omega)
      · exact hh.act hd hp a
    · exact .inl (hd.trans_le (act_deleted w a))

/-- **Nothing is left behind**, if the session is released when the user has got every
stream, and there is one. -/
theorem nothing_left (h : Reachable EndsOwned w) (hs : w.Settled) : w.Cleared := by
  obtain ⟨hp, hh⟩ := phase_and_held h
  have ho : w.Owned := by
    cases hp with
    | ended _ _ _ _ ho => exact ho
    | working _ ha _ => exact absurd (hs.session.symm.trans ha) (by simp)
    | releasing _ ha _ => exact absurd (hs.session.symm.trans ha) (by simp)
    | released _ ha _ _ => exact absurd (hs.session.symm.trans ha) (by simp)
  have hall : ∀ s ∈ w.streams, s.deleted = true := fun s hm =>
    hs.streams s hm (ho.2 _ (List.mem_map_of_mem hm))
  refine ⟨hh.resolve_right fun hh => ?_, hall⟩
  -- no thread and no stream holds the channel, so its deletion would be queued
  have hstream : w.stream = none := by
    by_contra hne
    obtain ⟨i, hi⟩ := Option.ne_none_iff_exists'.mp hne
    obtain ⟨s, hsi, hpar⟩ := hh.current i hi
    have hm := List.mem_of_getElem? hsi
    exact absurd ((hh.closed s hm (hall s hm)).symm.trans hpar) (by simp)
  have hworker : w.workerThread = false := by
    by_contra hw
    rcases hh.working (by simpa using hw) with hc | hc
    · exact absurd ((hh.ended hs.session).symm.trans hc) (by simp)
    · exact absurd hs.purges (by omega)
  have hne : w.streams ≠ [] := fun hnil => ho.1 (by rw [hnil]; rfl)
  have hdue := hh.due hworker hne hstream
  rw [hs.signals] at hdue
  exact absurd hdue (by simp)

/-- The user deletes the stream when the session is over. -/
def farewell : List Action := offering ++ ending ++ [.delete 0 0, .purge, .dispatch 0]

theorem nothing_left_farewell : (created.run farewell).Cleared := by
  refine nothing_left (reachable_run (reachable_created _) ?_)
    ⟨rfl, rfl, rfl, rfl, rfl, rfl, rfl, by decide⟩
  have hother : ∀ {s : Statement}, s ≠ .releaseSession → ∀ {v : World},
      some s = some .releaseSession → v.Owned := fun hs _ h => absurd (Option.some.inj h) hs
  refine ⟨hother (by decide), hother (by decide), hother (by decide), hother (by decide), trivial,
    trivial, hother (by decide), hother (by decide), hother (by decide), hother (by decide), trivial,
    fun _ => ?_, hother (by decide), trivial, trivial, trivial, trivial⟩
  exact ⟨by decide, by decide⟩

/-- A received tunnel that its user declines. -/
def declined : World :=
  run { initiator := false, todo := [] }
    ([.onIncomingMessage .initiate] ++ List.replicate 4 (.execute (fun _ => 0) (fun _ => 0) 0) ++
      [.dispatch 0, .declineTunnel] ++ List.replicate 3 (.execute (fun _ => 0) (fun _ => 0) 0) ++
      [.dispatch 0] ++ List.replicate 5 (.execute (fun _ => 0) (fun _ => 0) 0) ++
      [.dispatch 0] ++ List.replicate 2 (.execute (fun _ => 0) (fun _ => 0) 0))

/-- Nobody asks a declined tunnel for its stream, and its channel is never deleted. -/
theorem declined_channel_left :
    ¬ ∀ w : World, Reachable (fun _ _ => True) w → w.Settled → w.Cleared := by
  intro hall
  have hr : Reachable (fun _ _ => True) declined := reachable_run (.init (.inl rfl)) (meets_true _ _)
  have hc := hall declined hr ⟨rfl, rfl, rfl, rfl, rfl, rfl, rfl, by decide⟩
  exact absurd hc.1 (by decide)

end World

end Tunnel

end Jingle
