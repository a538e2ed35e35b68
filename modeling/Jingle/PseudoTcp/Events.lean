/-
The event protocol of `PseudoTcp`.

`Phase.next` is the protocol as an automaton over the signals: open at most
once, readable and writeable while open, closed at most once and then nothing.
With `early` it also allows `OnTcpReadable` before the connection is open, which
is what the code does with data that arrives then.

`Watcher` follows the signals of a run and what the two blocking calls have
returned: whether `OnTcpReadable` has come since the last `Recv` that would
block, or since open, and whether a `Send` that would have blocked still waits
for `OnTcpWriteable`.  `Kept` is the invariant between the watcher and the
object; its step lemmas follow the four places that signal.
-/
import Jingle.PseudoTcp.Signals

namespace Jingle

/-! ### The protocol -/

/-- The states of the connection that the owner can tell apart. -/
inductive Phase
  | waiting | opened | closed
  deriving DecidableEq, Repr

/-- The signals that are allowed, and the phase after them.  `early` allows
`OnTcpReadable` before the connection is open. -/
def Phase.next (early : Bool) : Phase → Event → Option Phase
  | waiting, .onTcpOpen => some opened
  | waiting, .onTcpReadable => if early then some waiting else none
  | waiting, .onTcpClosed _ => some closed
  | opened, .onTcpReadable => some opened
  | opened, .onTcpWriteable => some opened
  | opened, .onTcpClosed _ => some closed
  | p, e => if e.isSignal then none else some p

/-- The phase that belongs to a state. -/
def TcpState.phase : TcpState → Phase
  | listen | synSent | synReceived => .waiting
  | established => .opened
  | closed => .closed

namespace TcpState

theorem phase_waiting {st : TcpState} : st.phase = .waiting ↔ st ≠ established ∧ st ≠ closed := by
  cases st <;> decide

/-- A single change of the state. -/
inductive Edge : TcpState → TcpState → Prop
  | connect : Edge listen synSent
  | accept : Edge listen synReceived
  | connected : Edge synSent established
  | acknowledged : Edge synReceived established
  | close {st : TcpState} : st ≠ closed → Edge st closed

/-- The state moves only forward. -/
def Forward : TcpState → TcpState → Prop := Relation.ReflTransGen Edge

end TcpState

/-- What the owner of the object has seen. -/
structure Watcher where
  /-- The phase after the signals so far; `none` if one was not allowed. -/
  phase : Option Phase
  /-- `OnTcpReadable` has come since the last `Recv` that would block, or since open. -/
  readable : Bool
  /-- A `Send` would have blocked, and neither `OnTcpWriteable` nor `OnTcpClosed`
  has come since. -/
  waiting : Bool

/-- The watcher after an event. -/
def Watcher.see (early : Bool) (w : Watcher) (e : Event) : Watcher where
  phase := w.phase.bind fun p => p.next early e
  readable :=
    match e with
    | .onTcpOpen => false
    | .onTcpReadable => true
    | _ => w.readable
  waiting :=
    match e with
    | .onTcpWriteable | .onTcpClosed _ => false
    | _ => w.waiting

/-- The call returned with `EWOULDBLOCK`. -/
def wouldBlock (r : Ret × PseudoTcp) : Bool :=
  match r.1 with
  | .bytes value _ => value = -1 && r.2.error = .ewouldblock
  | _ => false

/-- The watcher after a call. -/
def Watcher.after (early : Bool) (w : Watcher) (op : Op) (r : Ret × PseudoTcp) : Watcher :=
  let w := r.2.log.foldl (Watcher.see early) w
  match op with
  | .recv _ => if wouldBlock r then { w with readable := false } else w
  | .send _ => if wouldBlock r then { w with waiting := true } else w
  | _ => w

/-- An object and its watcher. -/
structure Watched where
  tcp : PseudoTcp
  watcher : Watcher

namespace Watched

def IsStart (a : Watched) : Prop :=
  IsInit a.tcp ∧ a.watcher = { phase := some .waiting, readable := false, waiting := false }

/-- A call on a watched object. -/
def Next (early : Bool) (ok : PseudoTcp → Env → Op → Prop) (a b : Watched) : Prop :=
  ∃ env op, ok a.tcp env op ∧ b.tcp = (step env op a.tcp).2 ∧
    b.watcher = a.watcher.after early op (step env op a.tcp)

def Reachable (early : Bool) (ok : PseudoTcp → Env → Op → Prop) : Watched → Prop :=
  Reach IsStart (Next early ok)

end Watched

namespace PseudoTcp

variable {early : Bool} {env : Env} {seg : Segment} {st : TcpState} {w : Watcher}
  {s t u : PseudoTcp}

/-- The segment brings data that can be read at once. -/
def NewData (s : PseudoTcp) (seg : Segment) : Prop :=
  seg.flags &&& flagCtl = 0 ∧ s.shutdown = .none ∧ (s.inc.trim seg).len ≠ 0 ∧
    (s.inc.trim seg).seq = s.inc.rcvNxt

/-- New data comes when the connection is open or is opened by the acknowledgement
that comes with it. -/
def InTime (s : PseudoTcp) (op : Op) : Prop :=
  ∀ buffer seg, op = .notifyPacket buffer → parseSegment buffer = some seg → s.TakesUp seg →
    s.NewData seg → s.state = .established ∨
      (s.state = .synReceived ∧ s.out.sndUna < seg.ack ∧ seg.ack ≤ s.out.sndNxt)

/-! ### The invariant -/

/-- All received bytes have been read. -/
def Drained (s : PseudoTcp) : Prop := s.inc.rlen = s.inc.rpos

/-- The watcher, after the events of the current call, fits the object.  `st` is the
state before the call. -/
structure Kept (early : Bool) (st : TcpState) (w : Watcher) (s : PseudoTcp) : Prop where
  forward : st.Forward s.state
  phase : w.phase = some s.state.phase
  enabled : s.bWriteEnable = true → s.state = .established ∨ s.state = .closed
  waiting : w.waiting = true → s.state = .established ∧ s.bWriteEnable = true
  fresh : early = false → s.state ≠ .established → s.state ≠ .closed →
    s.bReadEnable = true ∧ s.Drained
  reading : early = false → s.state = .established →
    (s.bReadEnable = true ∧ s.Drained) ∨ w.readable = true

/-- The send queue is well filled while a writer waits. -/
def Filled (w : Watcher) (s : PseudoTcp) : Prop :=
  w.waiting = true → kIdealRefillSize ≤ s.out.slen

/-- The watcher after the log of a call so far. -/
def seen (early : Bool) (w : Watcher) (s : PseudoTcp) : Watcher :=
  s.log.foldl (Watcher.see early) w

theorem seen_note (e : Event) : seen early w (s.note e) = (seen early w s).see early e := by
  rw [seen, note_log, List.foldl_append]
  rfl

theorem next_quiet {e : Event} (h : e.isSignal = false) (p : Phase) :
    p.next early e = some p := by
  cases e with
  | onTcpOpen | onTcpReadable | onTcpWriteable | onTcpClosed => exact absurd h (by simp [Event.isSignal])
  | _ => cases p <;> rfl

theorem see_quiet {e : Event} (h : e.isSignal = false) : w.see early e = w := by
  obtain ⟨phase, readable, waiting⟩ := w
  have hphase : (phase.bind fun p => p.next early e) = phase := by
    cases phase with
    | none => rfl
    | some p => exact next_quiet h p
  cases e with
  | onTcpOpen | onTcpReadable | onTcpWriteable | onTcpClosed => exact absurd h (by simp [Event.isSignal])
  | _ => simp only [Watcher.see, hphase]

theorem seen_of_logAdds (h : LogAdds (fun e => e.isSignal = false) s t) :
    seen early w t = seen early w s := by
  obtain ⟨es, hes, hq⟩ := h
  have hfold : ∀ w' : Watcher, es.foldl (Watcher.see early) w' = w' := by
    clear hes
    induction es with
    | nil => exact fun _ => rfl
    | cons e es ih =>
      intro w'
      rw [List.foldl_cons, see_quiet (hq e List.mem_cons_self)]
      exact ih (fun e he => hq e (List.mem_cons_of_mem _ he)) w'
  rw [seen, hes, List.foldl_append, ← seen, hfold]

theorem Filled.quiet (h : Filled (seen early w s) s) (hq : Quiet s t) :
    Filled (seen early w t) t := by
  rw [seen_of_logAdds hq.log, Filled, hq.slen]
  exact h

theorem Kept.filled_of_ne (h : Kept early st w s) (hs : s.state ≠ .established) : Filled w s :=
  fun hw => absurd (h.waiting hw).1 hs

namespace Kept

/-! ### One place after the other -/

theorem congr (h : Kept early st (seen early w s) s) (hst : t.state = s.state)
    (hr : t.bReadEnable = s.bReadEnable) (hw : t.bWriteEnable = s.bWriteEnable)
    (hinc : t.Drained ↔ s.Drained) (hlog : LogAdds (fun e => e.isSignal = false) s t) :
    Kept early st (seen early w t) t := by
  rw [seen_of_logAdds hlog]
  refine ⟨?_, ?_, ?_, ?_, ?_, ?_⟩
  · rw [hst]
    exact h.forward
  · rw [hst]
    exact h.phase
  · rw [hst, hw]
    exact h.enabled
  · rw [hst, hw]
    exact h.waiting
  · rw [hst, hr, hinc]
    exact h.fresh
  · rw [hst, hr, hinc]
    exact h.reading

theorem quiet (h : Kept early st (seen early w s) s) (hq : Quiet s t) :
    Kept early st (seen early w t) t :=
  h.congr hq.state hq.bReadEnable hq.bWriteEnable (by rw [Drained, Drained, hq.inc]) hq.log

theorem closedown (h : Kept early st (seen early w s) s) (ho : s.state ≠ .closed) (err : Errno) :
    Kept early st (seen early w (s.closedown err)) (s.closedown err) := by
  have hseen : seen early w (s.closedown err) = (seen early w s).see early (.onTcpClosed err) :=
    seen_note (.onTcpClosed err)
  rw [hseen]
  refine ⟨h.forward.tail (.close ho), ?_, fun _ => .inr rfl, fun hw => absurd hw (by simp [Watcher.see]),
    fun _ _ hc => absurd rfl hc, fun _ hs => absurd hs (by simp [PseudoTcp.closedown])⟩
  show ((seen early w s).phase.bind _) = _
  rw [h.phase]
  cases hst : s.state with
  | closed => exact absurd hst ho
  | _ => rfl

theorem opened (h : Kept early st (seen early w s) s) (hedge : s.state.Edge .established) :
    Kept early st (seen early w s.opened) s.opened ∧ Filled (seen early w s.opened) s.opened := by
  have hne : s.state ≠ .established ∧ s.state ≠ .closed ∧ s.state.phase = .waiting := by
    generalize s.state = x at hedge
    cases hedge <;> exact ⟨by decide, by decide, rfl⟩
  have hseen : seen early w s.opened = (seen early w s).see early .onTcpOpen :=
    seen_note (s := { s with state := .established }.adjustMTU) .onTcpOpen
  have hwait : ((seen early w s).see early .onTcpOpen).waiting ≠ true :=
    fun hw => absurd (h.waiting hw).1 hne.1
  rw [hseen]
  refine ⟨⟨h.forward.tail hedge, ?_, fun _ => .inl rfl, fun hw => absurd hw hwait,
    fun _ hs => absurd rfl hs, fun he _ => .inl (h.fresh he hne.1 hne.2.1)⟩,
    fun hw => absurd hw hwait⟩
  show ((seen early w s).phase.bind _) = _
  rw [h.phase, hne.2.2]
  rfl

theorem notifyWriteable (h : Kept early st (seen early w s) s) (ho : s.state ≠ .closed) :
    Kept early st (seen early w s.notifyWriteable) s.notifyWriteable ∧
      Filled (seen early w s.notifyWriteable) s.notifyWriteable := by
  rw [PseudoTcp.notifyWriteable]
  split
  · rename_i hen
    have hest : s.state = .established := (h.enabled hen.1).resolve_right ho
    have hseen : seen early w ({ s with bWriteEnable := false }.note .onTcpWriteable) =
        (seen early w s).see early .onTcpWriteable :=
      seen_note (s := { s with bWriteEnable := false }) .onTcpWriteable
    rw [hseen]
    refine ⟨⟨h.forward, ?_, fun hf => absurd hf (by simp [note]), fun hw => absurd hw (by simp [Watcher.see]),
      h.fresh, h.reading⟩, fun hw => absurd hw (by simp [Watcher.see])⟩
    show ((seen early w s).phase.bind _) = some s.state.phase
    rw [h.phase, hest]
    rfl
  · rename_i hen
    refine ⟨h, fun hw => ?_⟩
    by_contra hlt
    exact hen ⟨(h.waiting hw).2, BitVec.not_le.mp hlt⟩

theorem notifyReadable {v x : PseudoTcp} {b : Bool} (h : Kept early st (seen early w v) v)
    (ho : v.state ≠ .closed) (hst : x.state = v.state) (hr : x.bReadEnable = v.bReadEnable)
    (hw : x.bWriteEnable = v.bWriteEnable)
    (hlog : LogAdds (fun e => e.isSignal = false) v x)
    (hold : b = false → (x.Drained ↔ v.Drained))
    (hnew : early = false → b = true → v.state = .established) :
    Kept early st (seen early w (x.notifyReadable b)) (x.notifyReadable b) := by
  rw [PseudoTcp.notifyReadable]
  cases b with
  | false => exact h.congr hst hr hw (hold rfl) hlog
  | true =>
    have hseen : seen early w x = seen early w v := seen_of_logAdds hlog
    split
    · have hseen' : seen early w ({ x with bReadEnable := false }.note .onTcpReadable) =
          (seen early w v).see early .onTcpReadable := by
        rw [← hseen]
        exact seen_note (s := { x with bReadEnable := false }) .onTcpReadable
      rw [hseen']
      refine ⟨?_, ?_, ?_, ?_, fun he hs => ?_, fun _ _ => .inr rfl⟩
      · show st.Forward x.state
        rw [hst]
        exact h.forward
      · show ((seen early w v).phase.bind _) = some x.state.phase
        rw [h.phase, hst]
        -- a connection that is not open yet is no place for it, unless `early`
        cases hes : early with
        | true =>
          generalize v.state = y at ho
          cases y <;> first | rfl | exact absurd rfl ho
        | false =>
          rw [hnew hes rfl]
          rfl
      · show x.bWriteEnable = true → x.state = _ ∨ x.state = _
        rw [hst, hw]
        exact h.enabled
      · show _ → x.state = _ ∧ x.bWriteEnable = _
        rw [hst, hw]
        exact h.waiting
      · exact absurd (hst.trans (hnew he rfl)) hs
    · rename_i hen
      have hdis : v.bReadEnable ≠ true := fun hv => hen ⟨rfl, hr.trans hv⟩
      rw [hseen]
      refine ⟨?_, ?_, ?_, ?_, fun he hs => ?_, fun he hs => .inr ?_⟩
      · rw [hst]
        exact h.forward
      · rw [hst]
        exact h.phase
      · rw [hst, hw]
        exact h.enabled
      · rw [hst, hw]
        exact h.waiting
      · exact absurd (hst.trans (hnew he rfl)) hs
      · rcases h.reading he (hst.symm.trans hs) with ⟨hv, -⟩ | hv
        · exact absurd hv hdis
        · exact hv

end Kept

/-! ### `process` -/

theorem touch_quiet (env : Env) (s : PseudoTcp) : Quiet s (s.touch env) :=
  ⟨rfl, rfl, rfl, rfl, rfl, rfl, rfl, .of_log_eq rfl⟩

theorem updateTimestamp_quiet (seg : Segment) (s : PseudoTcp) : Quiet s (s.updateTimestamp seg) := by
  obtain ⟨ts, h⟩ := updateTimestamp_frame seg s
  rw [h]
  exact ⟨rfl, rfl, rfl, rfl, rfl, rfl, rfl, .of_log_eq rfl⟩

theorem Kept.queueControl (h : Kept early st (seen early w s) s) {x : TcpState}
    (hedge : s.state.Edge x) (hx : x.phase = .waiting) (hs : s.state.phase = .waiting) :
    Kept early st (seen early w ({ s with state := x }.queue [ctlConnect] 1 true).2)
      ({ s with state := x }.queue [ctlConnect] 1 true).2 := by
  obtain ⟨hs₁, hs₂⟩ := TcpState.phase_waiting.mp hs
  obtain ⟨hx₁, hx₂⟩ := TcpState.phase_waiting.mp hx
  obtain ⟨l, hq, hl⟩ := queue_spec [ctlConnect] 1 true { s with state := x }
  have hlog : LogAdds (fun e => e.isSignal = false) s
      ({ s with state := x }.queue [ctlConnect] 1 true).2 := by
    rw [hq]
    rcases hl with rfl | ⟨rfl, -⟩
    · exact .of_log_eq rfl
    · exact ⟨_, rfl, by simp [Event.isSignal]⟩
  rw [seen_of_logAdds hlog, hq]
  exact ⟨h.forward.tail hedge, by rw [h.phase, hs, hx],
    fun hw => ((h.enabled hw).elim (absurd · hs₁) (absurd · hs₂)),
    fun hw => absurd (h.waiting hw).1 hs₁, fun he _ _ => h.fresh he hs₁ hs₂,
    fun _ hs => absurd hs hx₁⟩

theorem Kept.control {b : Bool} (h : Kept early st (seen early w s) s)
    (hf : Filled (seen early w s) s) (hctl : ControlCase seg s b u) :
    Kept early st (seen early w u) u ∧ Filled (seen early w u) u := by
  cases hctl with
  | data => exact ⟨h, hf⟩
  | again => exact ⟨h, hf⟩
  | accept _ _ hst =>
    have hk := h.queueControl (x := .synReceived) (by rw [hst]; exact .accept) rfl (by rw [hst]; rfl)
    refine ⟨hk, hk.filled_of_ne ?_⟩
    obtain ⟨l, hq, -⟩ := queue_spec [ctlConnect] 1 true { s with state := .synReceived }
    rw [hq]
    simp
  | connected _ _ hst => exact h.opened (by rw [hst]; exact .connected)

theorem ackAdvance_log (env : Env) (seg : Segment) (s : PseudoTcp) :
    LogAdds (fun e => e.isSignal = false) s (s.ackAdvance env seg) := by
  obtain ⟨rttvar, srtt, rto, es, hadv, hes, -⟩ := ackAdvance_spec env seg s
  rw [hadv]
  refine ⟨es, rfl, fun e he => ?_⟩
  rcases hes e he with rfl | ⟨rfl, -⟩ <;> rfl

theorem notifyWriteable_frame (s : PseudoTcp) : s.notifyWriteable.state = s.state ∧
    s.notifyWriteable.inc = s.inc ∧ s.notifyWriteable.shutdown = s.shutdown := by
  rw [PseudoTcp.notifyWriteable]
  split <;> exact ⟨rfl, rfl, rfl⟩

/-- The receive buffer is not touched, and the connection stays open or is opened. -/
structure AckFrame (bConnect : Bool) (seg : Segment) (s t : PseudoTcp) : Prop where
  inc : t.inc = s.inc
  shutdown : t.shutdown = s.shutdown
  state : s.state = .established → t.state = .established
  opens : bConnect = false → s.state = .synReceived → s.out.sndUna < seg.ack →
    seg.ack ≤ s.out.sndNxt → t.state = .established

theorem Kept.processAck {bConnect b : Bool} (h : Kept early st (seen early w s) s)
    (hf : Filled (seen early w s) s) (ho : s.state ≠ .closed)
    (ha : processAck env bConnect seg s = (b, t)) :
    Kept early st (seen early w t) t ∧ Filled (seen early w t) t ∧
      (b = true → AckFrame bConnect seg s t) := by
  -- congestion control either is quiet or closes the connection
  have hclosed : ∀ {v x : PseudoTcp} {c : Bool}, Kept early st (seen early w v) v →
      v.state ≠ .closed → QuietOrClosed v c x → c = false →
      Kept early st (seen early w x) x ∧ Filled (seen early w x) x := by
    intro v x c hv hvo hq hc
    rcases hq with ⟨rfl, -⟩ | ⟨-, y, err, hq, rfl⟩
    · exact absurd hc (by simp)
    · have hk := (hv.quiet hq).closedown (hq.not_closed hvo) err
      exact ⟨hk, hk.filled_of_ne (by simp [PseudoTcp.closedown])⟩
  rw [PseudoTcp.processAck] at ha
  split at ha
  · rename_i hval
    obtain ⟨rttvar, srtt, rto, es, hadv, -⟩ := ackAdvance_spec env seg s
    have hk : Kept early st (seen early w (s.ackAdvance env seg)) (s.ackAdvance env seg) :=
      h.congr (by rw [hadv]) (by rw [hadv]) (by rw [hadv]) (by rw [hadv]; exact Iff.rfl)
        (ackAdvance_log env seg s)
    have ho' : (s.ackAdvance env seg).state ≠ .closed := by
      rw [hadv]
      exact ho
    split at ha
    · rename_i v heq
      obtain ⟨rfl, rfl⟩ := Prod.mk.inj ha
      obtain ⟨hk', hf'⟩ := hclosed hk ho' (ackCongestion_quiet heq) rfl
      exact ⟨hk', hf', by simp⟩
    · rename_i v heq
      obtain ⟨rfl, rfl⟩ := Prod.mk.inj ha
      rcases ackCongestion_quiet heq with ⟨-, hq⟩ | ⟨hb, -⟩
      swap
      · exact absurd hb (by simp)
      have hst : v.state = s.state := by
        rw [hq.state, hadv]
      have hinc : v.inc = s.inc ∧ v.shutdown = s.shutdown := by
        rw [hq.inc, hq.shutdown, hadv]
        exact ⟨rfl, rfl⟩
      have hkv := hk.quiet hq
      have hvo : v.state ≠ .closed := by
        rw [hst]
        exact ho
      obtain ⟨hws, hwi, hwd⟩ := notifyWriteable_frame (v.openOnAck bConnect)
      rw [PseudoTcp.openOnAck] at hws hwi hwd ⊢
      split at hws
      · rename_i hopen
        rw [if_pos hopen] at hwi hwd ⊢
        have hop := (hkv.opened (by rw [hopen.1]; exact .acknowledged)).1
        obtain ⟨hk', hf'⟩ := hop.notifyWriteable (by simp)
        exact ⟨hk', hf', fun _ => ⟨hwi.trans hinc.1, hwd.trans hinc.2, fun _ => hws, fun _ _ _ _ => hws⟩⟩
      · rename_i hopen
        rw [if_neg hopen] at hwi hwd ⊢
        obtain ⟨hk', hf'⟩ := hkv.notifyWriteable hvo
        refine ⟨hk', hf', fun _ => ⟨hwi.trans hinc.1, hwd.trans hinc.2, fun hs => ?_, fun hb hs => ?_⟩⟩
        · rw [hws, hst, hs]
        · exact absurd ⟨hst.trans hs, hb⟩ hopen
  · rename_i hval
    have hnot : ∀ {P : Prop}, s.out.sndUna < seg.ack → seg.ack ≤ s.out.sndNxt → P :=
      fun h₁ h₂ => absurd ⟨h₁, h₂⟩ hval
    split at ha
    · have hq := duplicateAck_quiet ha
      cases b with
      | false =>
        obtain ⟨hk', hf'⟩ := hclosed h ho hq rfl
        exact ⟨hk', hf', by simp⟩
      | true =>
        rcases hq with ⟨-, hq⟩ | ⟨hb, -⟩
        · exact ⟨h.quiet hq, hf.quiet hq, fun _ => ⟨hq.inc, hq.shutdown, fun hs => hq.state.trans hs,
            fun _ _ => hnot⟩⟩
        · exact absurd hb (by simp)
    · obtain ⟨rfl, rfl⟩ := Prod.mk.inj ha
      exact ⟨h, hf, fun _ => ⟨rfl, rfl, id, fun _ _ => hnot⟩⟩

theorem makeRoom_drained (n : Word) (i : Incoming) :
    (i.makeRoom n).rlen = (i.makeRoom n).rpos ↔ i.rlen = i.rpos := by
  rw [Incoming.makeRoom]
  split
  · rw [Incoming.consolidate_rlen, Incoming.consolidate_rpos]
    constructor <;> intro h <;> bv_omega
  · rfl

theorem store_of_ne {seg : Segment} {i : Incoming} (h : seg.seq ≠ i.rcvNxt) :
    i.store seg = { (i.makeRoom (i.need seg)).place seg with
      rlist := Incoming.insertSegment { seq := seg.seq, len := seg.len }
        ((i.makeRoom (i.need seg)).place seg).rlist } := by
  rw [Incoming.store, if_neg (by rwa [Incoming.place_rcvNxt, Incoming.makeRoom_rcvNxt])]

theorem place_drained (seg : Segment) (i : Incoming) (l : List RSegment) :
    ({ i.place seg with rlist := l }.rlen = { i.place seg with rlist := l }.rpos) ↔
      i.rlen = i.rpos := Iff.rfl

theorem store_drained {seg : Segment} {i : Incoming} (h : seg.seq ≠ i.rcvNxt) :
    (i.store seg).rlen = (i.store seg).rpos ↔ i.rlen = i.rpos := by
  rw [store_of_ne h, place_drained, makeRoom_drained]

theorem storeSegment_new (seg : Segment) (f : SendFlags) (s : PseudoTcp) :
    (s.storeSegment seg f).2.1 = decide (seg.seq = s.inc.rcvNxt) := by
  have hneed : seg.len + (seg.seq - s.inc.rcvNxt) = s.inc.need seg := rfl
  have hnxt : ((s.inc.makeRoom (s.inc.need seg)).place seg).rcvNxt = s.inc.rcvNxt :=
    (Incoming.place_rcvNxt _ _).trans (Incoming.makeRoom_rcvNxt _ _)
  rw [storeSegment, hneed, hnxt]
  generalize Incoming.recoverFrom _ _ false = p
  cases p
  by_cases hseq : seg.seq = s.inc.rcvNxt
  · rw [if_pos hseq, decide_eq_true hseq]
  · rw [if_neg hseq, decide_eq_false hseq]

theorem drained_mk (s : PseudoTcp) (i : Incoming) (l : List Event) :
    ({ s with inc := i, log := l } : PseudoTcp).Drained ↔ i.rlen = i.rpos := Iff.rfl

theorem drained_skip (s : PseudoTcp) (n : Word) :
    ({ s with inc := { s.inc with rcvNxt := n } } : PseudoTcp).Drained ↔ s.Drained := Iff.rfl

theorem processData_new (seg : Segment) (s : PseudoTcp) :
    ((s.processData seg).2.1 = true → s.NewData seg) ∧
      ((s.processData seg).2.1 = false → ((s.processData seg).2.2.Drained ↔ s.Drained)) := by
  have hflags : (s.inc.trim seg).flags = seg.flags := by
    simp only [Incoming.trim, Incoming.trimBack, Incoming.trimFront, apply_ite Segment.flags,
      ite_self]
  generalize hr : s.processData seg = r
  rw [processData] at hr
  dsimp only at hr
  rw [hflags] at hr
  split at hr
  · subst hr
    exact ⟨by simp, fun _ => Iff.rfl⟩
  rename_i hlen
  split at hr
  · refine ⟨fun h => ?_, fun _ => ?_⟩
    · split at hr <;> exact absurd ((congrArg (·.2.1) hr).trans h) Bool.false_ne_true
    · split at hr <;> subst hr
      · exact drained_skip s _
      · exact Iff.rfl
  rename_i hign
  rw [not_or, not_not, not_not] at hign
  obtain ⟨es, hes, -⟩ := storeSegment_spec (s.inc.trim seg) (s.ackFlags seg) s
  have hnew := storeSegment_new (s.inc.trim seg) (s.ackFlags seg) s
  rw [hr] at hes hnew
  rw [hes, hnew]
  refine ⟨fun hseq => ⟨hign.1, hign.2, hlen, of_decide_eq_true hseq⟩, fun hseq => ?_⟩
  rw [drained_mk, Drained]
  exact store_drained (of_decide_eq_false hseq)

theorem Filled.notifyReadable {b : Bool} (h : Filled (seen early w s) s) :
    Filled (seen early w (s.notifyReadable b)) (s.notifyReadable b) := by
  rw [PseudoTcp.notifyReadable]
  split
  · have hseen : seen early w ({ s with bReadEnable := false }.note .onTcpReadable) =
        (seen early w s).see early .onTcpReadable :=
      seen_note (s := { s with bReadEnable := false }) .onTcpReadable
    rw [hseen]
    exact h
  · exact h

theorem StoreEvent.quiet {i : Incoming} {e : Event} (h : StoreEvent i seg e) :
    e.isSignal = false := by
  cases h <;> rfl

theorem Kept.processBody {bConnect : Bool} (h : Kept early st (seen early w s) s)
    (hf : Filled (seen early w s) s) (ho : s.state ≠ .closed)
    (hnew : early = false → s.NewData seg → s.state = .established ∨
      bConnect = false ∧ s.state = .synReceived ∧ s.out.sndUna < seg.ack ∧ seg.ack ≤ s.out.sndNxt) :
    Kept early st (seen early w (processBody env bConnect seg s).2) (processBody env bConnect seg s).2 ∧
      Filled (seen early w (processBody env bConnect seg s).2)
        (processBody env bConnect seg s).2 := by
  obtain ⟨ts, hts⟩ := updateTimestamp_frame seg s
  have hq := updateTimestamp_quiet seg s
  rcases hack : PseudoTcp.processAck env bConnect seg (s.updateTimestamp seg) with ⟨b, v⟩
  obtain ⟨hk, hfv, hframe⟩ := (h.quiet hq).processAck (hf.quiet hq) (hq.not_closed ho) hack
  cases b with
  | false =>
    rw [PseudoTcp.processBody, hack]
    exact ⟨hk, hfv⟩
  | true =>
    have hfr := hframe rfl
    have hvo : v.state ≠ .closed := (processAck_run (hq.not_closed ho) hack).2.mp rfl
    obtain ⟨es, hspec, hes⟩ := processData_spec seg v
    obtain ⟨hyes, hno⟩ := processData_new seg v
    rcases hd : v.processData seg with ⟨sflags, bNew, x⟩
    rw [hd] at hspec hyes hno
    dsimp only at hspec hyes hno
    rw [processBody_of_ack hack hd]
    have hlog : LogAdds (fun e => e.isSignal = false) v x := by
      rw [hspec]
      exact ⟨es, rfl, fun e he => (hes e he).1.quiet⟩
    have hsend := attemptSend_quiet env sflags x
    have hx : x.state = v.state ∧ x.bReadEnable = v.bReadEnable ∧ x.bWriteEnable = v.bWriteEnable ∧
        x.out = v.out := by
      rw [hspec]
      exact ⟨rfl, rfl, rfl, rfl⟩
    have hfx : Filled (seen early w x) x := by
      rw [seen_of_logAdds hlog, Filled, hx.2.2.2]
      exact hfv
    refine ⟨hk.notifyReadable hvo (hsend.state.trans hx.1) (hsend.bReadEnable.trans hx.2.1)
      (hsend.bWriteEnable.trans hx.2.2.1) (hlog.trans hsend.log) (fun hb => ?_) (fun he hb => ?_),
      (hfx.quiet hsend).notifyReadable⟩
    · rw [← hno hb, Drained, Drained, hsend.inc]
    · -- the receive buffer is the one before the acknowledgement
      obtain ⟨h₁, h₂, h₃⟩ := hyes hb
      rw [hfr.shutdown, hq.shutdown] at h₂
      rw [hfr.inc, hq.inc] at h₃
      rcases hnew he ⟨h₁, h₂, h₃⟩ with hest | ⟨hc, hsyn, hlo, hhi⟩
      · exact hfr.state (hq.state.trans hest)
      · exact hfr.opens hc (hq.state.trans hsyn) (by rw [hts]; exact hlo) (by rw [hts]; exact hhi)

theorem Kept.process (h : Kept early st (seen early w s) s) (hf : Filled (seen early w s) s)
    (hnew : early = false → s.TakesUp seg → s.NewData seg → s.state = .established ∨
      s.state = .synReceived ∧ s.out.sndUna < seg.ack ∧ seg.ack ≤ s.out.sndNxt) :
    Kept early st (seen early w (process env seg s).2) (process env seg s).2 ∧
      Filled (seen early w (process env seg s).2) (process env seg s).2 := by
  have hq := touch_quiet env s
  rw [PseudoTcp.process]
  split
  · exact ⟨h, hf⟩
  rename_i hconv
  dsimp only
  split
  · exact ⟨h.quiet hq, hf.quiet hq⟩
  rename_i ho
  split
  · have hk := (h.quiet hq).closedown ho .econnreset
    exact ⟨hk, hk.filled_of_ne (by simp [PseudoTcp.closedown])⟩
  rename_i hrst
  split
  · exact ⟨h.quiet hq, hf.quiet hq⟩
  rename_i bConnect u hctl
  obtain ⟨hcase, hcode⟩ := processControl_cases hctl
  obtain ⟨hk, hfu⟩ := (h.quiet hq).control (hf.quiet hq) hcase
  refine hk.processBody hfu (hcase.open ho) fun he hdata => ?_
  -- data comes without the control flag, which leaves the object as it was
  cases hcase with
  | data hflag =>
    have htake : s.TakesUp seg := ⟨by simpa using hconv, ho, by simpa using hrst, hcode⟩
    rcases hnew he htake hdata with hest | hsyn
    · exact .inl hest
    · exact .inr ⟨rfl, hsyn⟩
  | again hflag => exact absurd hdata.1 hflag
  | accept hflag => exact absurd hdata.1 hflag
  | connected hflag => exact absurd hdata.1 hflag

/-! ### Calls -/

theorem Kept.rebase (h : Kept early st w s) : Kept early s.state w s :=
  ⟨.refl, h.phase, h.enabled, h.waiting, h.fresh, h.reading⟩

theorem connect_kept (h : Kept early st (seen early w s) s) (hf : Filled (seen early w s) s) :
    Kept early st (seen early w (s.connect env).2) (s.connect env).2 ∧
      Filled (seen early w (s.connect env).2) (s.connect env).2 := by
  rw [connect]
  split
  · exact ⟨h.congr rfl rfl rfl Iff.rfl (.of_log_eq rfl), hf⟩
  rename_i hl
  have hl : s.state = .listen := by simpa using hl
  have hk := h.queueControl (x := .synSent) (by rw [hl]; exact .connect) rfl (by rw [hl]; rfl)
  obtain ⟨l, hqs, -⟩ := queue_spec [ctlConnect] 1 true { s with state := .synSent }
  have hne : ({ s with state := .synSent }.queue [ctlConnect] 1 true).2.state ≠ .established := by
    rw [hqs]
    simp
  generalize ({ s with state := .synSent }.queue [ctlConnect] 1 true).2 = x at hk hne ⊢
  have hq := attemptSend_quiet env .none x
  have hky := hk.quiet hq
  dsimp only
  exact ⟨hky, hky.filled_of_ne fun h => hne (hq.state.symm.trans h)⟩

theorem after_of_not_blocked {op : Op} {r : Ret × PseudoTcp} (h : wouldBlock r = false) :
    w.after early op r = seen early w r.2 := by
  cases op with
  | send | recv =>
    rw [Watcher.after, if_neg (by rw [h]; simp)]
    rfl
  | _ => rfl

theorem send_kept {data : List Byte} (h : Kept early st (seen early w s) s)
    (hf : Filled (seen early w s) s) (hsize : s.state ≠ .closed → s.out.slen ≤ kSndBufSize) :
    let r := (s.send env data)
    Kept early st (w.after early (.send data) (.bytes r.1.1 r.1.2, r.2)) r.2 ∧
      Filled (w.after early (.send data) (.bytes r.1.1 r.1.2, r.2)) r.2 := by
  intro r
  rw [show r = s.send env data from rfl, send]
  split
  · rw [after_of_not_blocked (by simp [wouldBlock])]
    exact ⟨h.congr rfl rfl rfl Iff.rfl (.of_log_eq rfl), hf⟩
  rename_i hst
  have hst : s.state = .established := by simpa using hst
  split
  · rename_i hfull
    have hblock : w.after early (.send data) (.bytes (-1) [],
        { s with bWriteEnable := true, error := .ewouldblock }) =
        { seen early w s with waiting := true } := by
      simp [Watcher.after, wouldBlock, seen]
    dsimp only
    rw [hblock]
    refine ⟨⟨h.forward, h.phase, fun _ => .inl hst, fun _ => ⟨hst, rfl⟩, h.fresh, h.reading⟩, fun _ => ?_⟩
    show kIdealRefillSize ≤ s.out.slen
    rw [hfull]
    decide
  · obtain ⟨l, hq, hl⟩ := queue_spec data (BitVec.ofNat 32 data.length) false s
    rw [hq]
    dsimp only
    set x : PseudoTcp := { s with
      out := s.out.enqueue data (s.out.fit (BitVec.ofNat 32 data.length)) false, log := l } with hx
    have hlog : LogAdds (fun e => e.isSignal = false) s x := by
      rcases hl with rfl | ⟨-, hc, -⟩
      · exact .of_log_eq rfl
      · exact absurd hc (by simp)
    have hsend := attemptSend_quiet env .none x
    have hfx : Filled (seen early w x) x := by
      rw [seen_of_logAdds hlog]
      intro hw
      have hle := hf hw
      have hmax := hsize (by rw [hst]; simp)
      show kIdealRefillSize ≤ s.out.slen + s.out.fit (BitVec.ofNat 32 data.length)
      have hfit : s.out.fit (BitVec.ofNat 32 data.length) ≤ kSndBufSize - s.out.slen := by
        rw [Outgoing.fit]
        split
        · exact BitVec.le_refl _
        · rename_i hlt
          exact BitVec.not_lt.mp hlt
      have hk : kSndBufSize = 92160#32 := rfl
      rw [hk] at hmax hfit
      bv_omega
    have hkx : Kept early st (seen early w x) x := h.congr rfl rfl rfl Iff.rfl hlog
    have hky := hkx.quiet hsend
    have hfy := hfx.quiet hsend
    generalize x.attemptSend env .none = y at hky hfy ⊢
    rw [after_of_not_blocked]
    · exact ⟨hky, hfy⟩
    · have hpos : ((s.out.fit (BitVec.ofNat 32 data.length)).toNat : ℤ) ≠ -1 := by omega
      simp [wouldBlock, hpos]

theorem Kept.window (h : Kept early st (seen early w s) s) (wnd : Word) :
    Kept early st (seen early w { s with inc := { s.inc with rcvWnd := wnd } })
      { s with inc := { s.inc with rcvWnd := wnd } } :=
  h.congr rfl rfl rfl Iff.rfl (.of_log_eq rfl)

theorem Filled.window (h : Filled (seen early w s) s) (wnd : Word) :
    Filled (seen early w { s with inc := { s.inc with rcvWnd := wnd } })
      { s with inc := { s.inc with rcvWnd := wnd } } := h

theorem openWindow_kept (env : Env) (h : Kept early st (seen early w s) s)
    (hf : Filled (seen early w s) s) :
    Kept early st (seen early w (s.openWindow env)) (s.openWindow env) ∧
      Filled (seen early w (s.openWindow env)) (s.openWindow env) := by
  rw [openWindow]
  split
  · have hkw := h.window s.inc.getReceiveBufferSpace
    have hfw := hf.window s.inc.getReceiveBufferSpace
    have hsend := attemptSend_quiet env .immediateAck s.windowOpened
    dsimp only
    split
    · exact ⟨hkw.quiet hsend, hfw.quiet hsend⟩
    · exact ⟨hkw, hfw⟩
  · exact ⟨h, hf⟩

theorem recv_kept {len : ℕ} (h : Kept early st (seen early w s) s)
    (hf : Filled (seen early w s) s) :
    let r := (s.recv env len)
    Kept early st (w.after early (.recv len) (.bytes r.1.1 r.1.2, r.2)) r.2 ∧
      Filled (w.after early (.recv len) (.bytes r.1.1 r.1.2, r.2)) r.2 := by
  intro r
  have hr : s.recv env len = r := rfl
  clear_value r
  rw [recv] at hr
  split at hr
  · subst hr
    rw [after_of_not_blocked (by simp [wouldBlock])]
    exact ⟨h.congr rfl rfl rfl Iff.rfl (.of_log_eq rfl), hf⟩
  rename_i hst
  have hst : s.state = .established := by simpa using hst
  dsimp only at hr
  have hqa : Quiet s (s.assert (s.inc.rpos ≤ s.inc.rlen) .readPosition) := by
    rcases assert_cases (s.inc.rpos ≤ s.inc.rlen) .readPosition s with ⟨ha, -⟩ | ⟨ha, -⟩ <;> rw [ha]
    · exact .refl s
    · exact .note rfl
  replace h := h.quiet hqa
  replace hf := hf.quiet hqa
  replace hst := hqa.state.trans hst
  generalize s.assert (s.inc.rpos ≤ s.inc.rlen) .readPosition = s at *
  split at hr
  · rename_i hemp
    subst hr
    have hblock : w.after early (.recv len) (.bytes (-1) [],
        { s with bReadEnable := true, error := .ewouldblock }) =
        { seen early w s with readable := false } := by
      simp [Watcher.after, wouldBlock, seen]
    dsimp only
    rw [hblock]
    exact ⟨⟨h.forward, h.phase, h.enabled, h.waiting, fun _ hs => absurd hst hs,
      fun _ _ => .inl ⟨rfl, hemp⟩⟩, hf⟩
  · rename_i hne
    set x := s.taken (s.readLen len) with hx
    have hkx : Kept early st (seen early w x) x :=
      ⟨h.forward, h.phase, h.enabled, h.waiting, fun _ hs => absurd hst hs,
        fun he hs => .inr ((h.reading he hs).resolve_left fun hd => hne hd.2)⟩
    have hopen := openWindow_kept env hkx hf
    have hpos : ((s.readLen len).toNat : ℤ) ≠ -1 := by omega
    subst hr
    rw [after_of_not_blocked]
    · dsimp only
      exact hopen
    · show wouldBlock (.bytes ((s.readLen len).toNat : ℤ) _, _) = false
      simp [wouldBlock, hpos]

theorem notifyPacket_kept {buffer : List Byte} (h : Kept early st (seen early w s) s)
    (hf : Filled (seen early w s) s) (hnew : early = false → s.InTime (.notifyPacket buffer)) :
    Kept early st (seen early w (s.notifyPacket env buffer).2) (s.notifyPacket env buffer).2 ∧
      Filled (seen early w (s.notifyPacket env buffer).2) (s.notifyPacket env buffer).2 := by
  rw [notifyPacket]
  split
  · exact ⟨h, hf⟩
  split
  · exact ⟨h, hf⟩
  split
  · exact ⟨h.quiet (.note rfl), hf.quiet (.note rfl)⟩
  · rename_i seg hp
    exact h.process hf fun he htake hdata => hnew he buffer seg rfl hp htake hdata

theorem notifyMTU_quiet (mtu : BitVec 16) (s : PseudoTcp) : Quiet s (s.notifyMTU mtu) := by
  rw [notifyMTU]
  dsimp only
  split <;> exact ⟨rfl, rfl, rfl, rfl, rfl, rfl, rfl, .of_log_eq rfl⟩

theorem notifyClock_kept {now : Word} (h : Kept early st (seen early w s) s)
    (hf : Filled (seen early w s) s) :
    Kept early st (seen early w (s.notifyClock env now)) (s.notifyClock env now) ∧
      Filled (seen early w (s.notifyClock env now)) (s.notifyClock env now) := by
  rcases notifyClock_quiet env now s with hq | ⟨ho, u, err, hq, hu⟩
  · exact ⟨h.quiet hq, hf.quiet hq⟩
  · have hk := (h.quiet hq).closedown (hq.not_closed ho) err
    rw [hu]
    exact ⟨hk, hk.filled_of_ne (by simp [PseudoTcp.closedown])⟩

end PseudoTcp

theorem step_kept {early : Bool} {w : Watcher} {s : PseudoTcp}
    (h : PseudoTcp.Kept early s.state w s) (hf : PseudoTcp.Filled w s)
    (hsize : s.state ≠ .closed → s.out.slen ≤ kSndBufSize) (env : Env) (op : Op)
    (hnew : early = false → s.InTime op) :
    PseudoTcp.Kept early s.state (w.after early op (step env op s)) (step env op s).2 ∧
      PseudoTcp.Filled (w.after early op (step env op s)) (step env op s).2 := by
  have h₀ : PseudoTcp.Kept early s.state (PseudoTcp.seen early w { s with log := [] })
      { s with log := [] } := ⟨h.forward, h.phase, h.enabled, h.waiting, h.fresh, h.reading⟩
  have hf₀ : PseudoTcp.Filled (PseudoTcp.seen early w { s with log := [] }) { s with log := [] } := hf
  cases op with
  | connect => exact PseudoTcp.connect_kept h₀ hf₀
  | send data => exact PseudoTcp.send_kept h₀ hf₀ hsize
  | recv len => exact PseudoTcp.recv_kept h₀ hf₀
  | close force => exact ⟨h₀.congr rfl rfl rfl Iff.rfl (.of_log_eq rfl), hf₀⟩
  | setOption opt value => cases opt <;> exact ⟨h₀.congr rfl rfl rfl Iff.rfl (.of_log_eq rfl), hf₀⟩
  | notifyMTU mtu =>
    have hq := PseudoTcp.notifyMTU_quiet mtu { s with log := [] }
    exact ⟨h₀.quiet hq, hf₀.quiet hq⟩
  | notifyClock now => exact PseudoTcp.notifyClock_kept h₀ hf₀
  | notifyPacket buffer => exact PseudoTcp.notifyPacket_kept h₀ hf₀ hnew

namespace Watched

variable {early : Bool} {ok : PseudoTcp → Env → Op → Prop} {a : Watched}

/-- The invariant of a run. -/
def Good (early : Bool) (a : Watched) : Prop :=
  PseudoTcp.Kept early a.tcp.state a.watcher a.tcp ∧ PseudoTcp.Filled a.watcher a.tcp ∧
    PseudoTcp.QueueSafe False False a.tcp

theorem Good.slen_le (h : Good early a) (ho : a.tcp.state ≠ .closed) :
    a.tcp.out.slen ≤ kSndBufSize := by
  obtain ⟨sent, unsent, hc⟩ := (h.2.2.2 ho).counted
  exact hc.size

theorem isStart_good (h : IsStart a) : Good early a := by
  obtain ⟨hi, hw⟩ := h
  refine ⟨?_, ?_, PseudoTcp.init_queueSafe hi⟩
  · obtain ⟨rbuf, sbuf, now, conv, hs⟩ := hi
    rw [hw, hs]
    exact ⟨.refl, rfl, fun h => absurd h Bool.false_ne_true, fun h => absurd h Bool.false_ne_true,
      fun _ _ _ => ⟨rfl, rfl⟩, fun _ h => absurd h TcpState.noConfusion⟩
  · rw [hw]
    exact fun h => absurd h Bool.false_ne_true

theorem reachable_good (hok : early = false → ∀ s env op, ok s env op → s.InTime op)
    (h : Reachable early ok a) : Good early a := by
  refine Reach.invariant (I := Good early) (fun a ha => isStart_good ha) ?_ a h
  rintro a b - hg ⟨env, op, hop, htcp, hwatch⟩
  obtain ⟨hk, hf⟩ := step_kept hg.1 hg.2.1 hg.slen_le env op fun he => hok he _ _ _ hop
  refine ⟨?_, ?_, ?_⟩
  · rw [hwatch, htcp]
    exact hk.rebase
  · rw [hwatch, htcp]
    exact hf
  · rw [htcp]
    exact PseudoTcp.step_queueSafe hg.2.2 (fun h => h.elim) (fun h => h.elim)

/-- **The event protocol.**  In every run the state moves only forward, the signals are
those of the protocol, and a writer that would have blocked is told of room in the queue
before the queue is less than well filled.  If no data comes before the connection is
open, `OnTcpReadable` is signalled only in an open connection, and unread data there was
announced since the last `Recv` that would block, or since open. -/
theorem event_protocol (early : Bool)
    (h : Reachable early (fun s _ op => early = false → s.InTime op) a) :
    a.watcher.phase = some a.tcp.state.phase ∧
      (a.watcher.waiting = true → PseudoTcp.kIdealRefillSize ≤ a.tcp.out.slen) ∧
      (early = false → a.tcp.state = .established → a.tcp.inc.rlen ≠ a.tcp.inc.rpos →
        a.watcher.readable = true) ∧
      ∀ env op, a.tcp.state.Forward (step env op a.tcp).2.state := by
  have hg : Good early a := reachable_good (fun he s env op hop => hop he) h
  refine ⟨hg.1.phase, fun hw => hg.2.1 hw, fun he hs hne => ?_, fun env op => ?_⟩
  · exact (hg.1.reading he hs).resolve_left fun hd => hne hd.2
  · -- the next call may bring data too early, so the watcher of the lenient protocol is used
    have hk : PseudoTcp.Kept true a.tcp.state
        { phase := some a.tcp.state.phase, readable := false, waiting := false } a.tcp :=
      ⟨.refl, rfl, hg.1.enabled, by simp, by simp, by simp⟩
    exact (step_kept hk (by simp [PseudoTcp.Filled]) hg.slen_le env op (by simp)).1.forward

/-! ### Runs -/

/-- A fresh object and its watcher. -/
def fresh : Watched where
  tcp := .fresh 1 7
  watcher := { phase := some .waiting, readable := false, waiting := false }

/-- A call, with the clock at one. -/
def call (early : Bool) (op : Op) (a : Watched) : Watched where
  tcp := (step (.steady 1) op a.tcp).2
  watcher := a.watcher.after early op (step (.steady 1) op a.tcp)

theorem reachable_fresh : Reachable early ok fresh := Reach.init ⟨⟨_, _, 1, 7, rfl⟩, rfl⟩

theorem Reachable.call (h : Reachable early ok a) {op : Op} (hop : ok a.tcp (.steady 1) op) :
    Reachable early ok (a.call early op) :=
  Reach.step h ⟨.steady 1, op, hop, rfl, rfl⟩

/-- The acceptance of the connection by the other end, with its window. -/
def acceptance (wnd : BitVec 16) : Op :=
  .notifyPacket (header 7 0 1 flagCtl wnd 1 0 ++ [ctlConnect])

/-- A packet with one byte of data. -/
def dataPacket (seq : Word) : Op := .notifyPacket (header 7 seq 0 0 1000 1 0 ++ [42])

/-- A packet that resets the connection. -/
def resetPacket : Op := .notifyPacket (header 7 1 1 flagRst 1000 1 0)

/-- A connection that is opened and then receives a byte. -/
theorem event_protocol_data :
    Reachable false (fun s _ op => false = false → s.InTime op)
        (((fresh.call false .connect).call false (acceptance 1000)).call false (dataPacket 1)) ∧
      (((fresh.call false .connect).call false (acceptance 1000)).call false
        (dataPacket 1)).watcher.readable = true := by
  have h : Reachable false (fun s _ op => false = false → s.InTime op)
      (((fresh.call false .connect).call false (acceptance 1000)).call false (dataPacket 1)) := by
    refine ((reachable_fresh.call ?_).call ?_).call ?_
    · exact fun _ buffer seg hop => absurd hop (by simp)
    · intro _ buffer seg hop hseg _ hdata
      obtain rfl := Op.notifyPacket.inj hop
      rw [parseSegment_header] at hseg
      obtain rfl := Option.some.inj hseg
      exact absurd hdata.1 (by decide)
    · exact fun _ buffer seg _ _ _ _ => .inl (by decide)
  exact ⟨h, (event_protocol false h).2.2.1 rfl (by decide) (by decide)⟩

end Watched

namespace PseudoTcp

theorem send_fills (env : Env) (data : List Byte) {s : PseudoTcp} (hst : s.state = .established)
    (hempty : s.out.slen = 0) (hlen : data.length = kSndBufSize.toNat) :
    let t := (step env (.send data) s).2
    t.state = .established ∧ t.out.slen = kSndBufSize ∧ t.conv = s.conv := by
  obtain ⟨l, hq, -⟩ := queue_spec data (BitVec.ofNat 32 data.length) false { s with log := [] }
  have hne : s.out.slen ≠ kSndBufSize := by
    rw [hempty]
    decide
  have hsend := attemptSend_quiet env .none
    (({ s with log := [] } : PseudoTcp).queue data (BitVec.ofNat 32 data.length) false).2
  show ((({ s with log := [] } : PseudoTcp).send env data).2).state = _ ∧ _
  rw [step, send, if_neg (by simpa using hst), if_neg hne]
  dsimp only
  rw [hsend.state, hsend.slen, hsend.conv, hq]
  refine ⟨hst, ?_, rfl⟩
  show s.out.slen + s.out.fit (BitVec.ofNat 32 data.length) = kSndBufSize
  rw [Outgoing.fit, hempty, hlen]
  decide

theorem send_full (env : Env) (data : List Byte) {s : PseudoTcp} (hst : s.state = .established)
    (hfull : s.out.slen = kSndBufSize) :
    wouldBlock (step env (.send data) s) = true ∧
      (step env (.send data) s).2.state = .established ∧
      (step env (.send data) s).2.conv = s.conv := by
  have hs : step env (.send data) s = (.bytes (-1) [],
      { s with log := [], bWriteEnable := true, error := .ewouldblock }) := by
    simp [step, send, hst, hfull]
  rw [hs]
  exact ⟨by simp [wouldBlock], hst, rfl⟩

theorem reset_closes (env : Env) {s : PseudoTcp} (hst : s.state ≠ .closed) (hconv : s.conv = 7) :
    (step env Watched.resetPacket s).2.out.slen = 0 ∧
      (step env Watched.resetPacket s).2.log = [.onTcpClosed .econnreset] := by
  have hs : (step env Watched.resetPacket s).2 =
      (({ s with log := [] } : PseudoTcp).touch env).closedown .econnreset := by
    have hp := parseSegment_header 7 1 1 flagRst 1000 1 0 []
    rw [List.append_nil] at hp
    show (notifyPacket env (header 7 1 1 flagRst 1000 1 0) { s with log := [] }).2 = _
    rw [notifyPacket, if_neg (by decide), if_neg (by decide), hp]
    dsimp only
    rw [process, if_neg (by simpa using hconv.symm)]
    dsimp only
    have ho : (({ s with log := [] } : PseudoTcp).touch env).state ≠ .closed := hst
    rw [if_neg ho, if_pos (by decide)]
  rw [hs]
  exact ⟨rfl, rfl⟩

end PseudoTcp

namespace Watched

/-- A byte comes before the handshake. -/
def earlyRun : Watched :=
  ((fresh.call true (dataPacket 0)).call true .connect).call true
    (.notifyPacket (header 7 1 1 flagCtl 1000 1 0 ++ [ctlConnect]))

/-- A connection whose other end has no room. -/
def stuckRun : Watched := (fresh.call true .connect).call true (acceptance 0)

theorem send_reset {a : Watched} {data : List Byte} (hst : a.tcp.state = .established)
    (hempty : a.tcp.out.slen = 0) (hconv : a.tcp.conv = 7) (hlen : data.length = kSndBufSize.toNat) :
    let b := a.call true (.send data)
    wouldBlock (step (.steady 1) (.send [1]) b.tcp) = true ∧
      ((b.call true (.send [1])).call true resetPacket).tcp.out.slen = 0 ∧
      ((b.call true (.send [1])).call true resetPacket).tcp.log = [.onTcpClosed .econnreset] := by
  intro b
  obtain ⟨h₁, h₂, h₃⟩ := PseudoTcp.send_fills (.steady 1) data hst hempty hlen
  obtain ⟨hb, hst, hconv'⟩ := PseudoTcp.send_full (.steady 1) [1] h₁ h₂
  have ho : (b.call true (.send [1])).tcp.state ≠ .closed := by
    rw [show (b.call true (.send [1])).tcp.state = .established from hst]
    decide
  exact ⟨hb, PseudoTcp.reset_closes (.steady 1) ho ((hconv'.trans h₃).trans hconv)⟩

/-- Data that comes before the handshake is announced while the object listens, and is
then not announced in the open connection.  A reset of the connection empties the queue
of a writer that waits: it is told of the end, and not of room. -/
theorem event_protocol_broken :
    (.onTcpReadable ∈ (fresh.call true (dataPacket 0)).tcp.log ∧
      (fresh.call true (dataPacket 0)).tcp.state = .listen) ∧
    (earlyRun.tcp.state = .established ∧ earlyRun.tcp.inc.rlen ≠ earlyRun.tcp.inc.rpos ∧
      earlyRun.watcher.readable = false) ∧
    ∃ a : Watched, Reachable true (fun _ _ _ => True) a ∧
      wouldBlock (step (.steady 1) (.send [1]) a.tcp) = true ∧
      ((a.call true (.send [1])).call true resetPacket).tcp.out.slen = 0 ∧
      .onTcpWriteable ∉ ((a.call true (.send [1])).call true resetPacket).tcp.log := by
  refine ⟨by decide, by decide,
    stuckRun.call true (.send (List.replicate kSndBufSize.toNat 0)), ?_, ?_⟩
  · exact ((reachable_fresh.call trivial).call trivial).call trivial
  · obtain ⟨hb, hslen, hlog⟩ := send_reset (a := stuckRun) (by decide) (by decide)
      (by decide) (List.length_replicate (n := kSndBufSize.toNat) (a := 0))
    refine ⟨hb, hslen, ?_⟩
    rw [hlog]
    decide

end Watched

end Jingle
