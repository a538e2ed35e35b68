/-
The timer of a session.

The session should run its timer exactly while one of its transports has channels
and is not writable.  `OnTransportWritable` clears the one timer on an event of
any transport and starts it again only for that one, so an event of a transport
that is writable stops the timer that another still needs.  `watched_iff` says
that nothing else goes wrong: the timer is right at every point of a sequence of
events if and only if no such event comes while another transport waits.
-/
import Jingle.Signaling.Session

namespace Jingle.Signaling

/-- `OnTransportConnecting` or `OnTransportWritable` of a transport, which says
whether it has channels and whether it is writable. -/
structure TransportEvent where
  contentName : Text
  hasChannels : Bool
  writable : Bool
  deriving DecidableEq

/-- The transport has channels and is not writable. -/
def TransportEvent.waits (e : TransportEvent) : Bool := e.hasChannels && !e.writable

namespace Session

/-- The session after a sequence of events of its transports. -/
def onTransportEvents (s : Session) (es : List TransportEvent) : Session :=
  es.foldl (fun s e => s.onTransportWritable e.hasChannels e.writable) s

/-- Since its last event the transport of a content waits. -/
def Waits (es : List TransportEvent) (contentName : Text) : Prop :=
  ∃ e, es.reverse.find? (fun e => e.contentName = contentName) = some e ∧ e.waits

/-- **The timer runs exactly while a transport waits.** -/
def Watched (s : Session) (es : List TransportEvent) : Prop :=
  (∃ contentName, Waits es contentName) ↔ 0 < (s.onTransportEvents es).timeouts

theorem waits_concat (es : List TransportEvent) (e : TransportEvent) (contentName : Text) :
    Waits (es ++ [e]) contentName ↔
      if e.contentName = contentName then e.waits = true else Waits es contentName := by
  rw [Waits, List.reverse_concat, List.find?_cons]
  by_cases h : e.contentName = contentName
  · simp only [h, decide_true, Option.some.injEq, exists_eq_left', if_true]
  · simp only [h, decide_false, if_false, Waits]

theorem timeouts_concat (s : Session) (es : List TransportEvent) (e : TransportEvent) :
    0 < (s.onTransportEvents (es ++ [e])).timeouts ↔ e.waits := by
  rw [onTransportEvents, List.foldl_concat, onTransportWritable, TransportEvent.waits]
  dsimp only
  split <;> simp_all

theorem watched_concat (s : Session) (es : List TransportEvent) (e : TransportEvent) :
    s.Watched (es ++ [e]) ↔
      (e.waits = false → ∀ contentName, e.contentName ≠ contentName → ¬Waits es contentName) := by
  rw [Watched, timeouts_concat]
  rcases he : e.waits with _ | _
  · simp only [Bool.false_eq_true, iff_false, forall_const, not_exists]
    refine forall_congr' fun contentName => ?_
    rw [waits_concat]
    by_cases h : e.contentName = contentName
    · simp [h, he]
    · simp [h]
  · simp only [iff_true, Bool.true_eq_false, false_implies]
    exact ⟨e.contentName, by rw [waits_concat, if_pos rfl, he]⟩

/-- **The timer of a session** is right after every part of a sequence of events
if and only if no event of a transport that does not wait comes while another
transport waits. -/
theorem watched_iff (s : Session) (h : s.timeouts = 0) (es : List TransportEvent) :
    (∀ pre, pre <+: es → s.Watched pre) ↔
      ∀ pre e, pre ++ [e] <+: es → e.waits = false →
        ∀ contentName, e.contentName ≠ contentName → ¬Waits pre contentName := by
  constructor
  · intro hw pre e hpre
    exact (s.watched_concat pre e).1 (hw _ hpre)
  · intro hc pre hpre
    rcases List.eq_nil_or_concat pre with rfl | ⟨pre, e, rfl⟩
    · refine iff_of_false (by simp [Waits]) ?_
      show ¬0 < s.timeouts
      omega
    · rw [List.concat_eq_append] at hpre ⊢
      exact (s.watched_concat pre e).2 (hc pre e hpre)

/-- One transport connects and becomes writable. -/
theorem watched_one :
    (new [] [] [] []).Watched [⟨[1], true, false⟩, ⟨[1], true, true⟩] := by
  refine (watched_iff (new [] [] [] []) rfl _).2 (fun pre e hpre he contentName hne => ?_) _
    List.prefix_rfl
  rintro ⟨e', he', -⟩
  have hmem : e' ∈ pre := by simpa using List.mem_of_find?_eq_some he'
  have hname : e'.contentName = contentName := by simpa using List.find?_some he'
  have hall : ∀ e₁ ∈ pre ++ [e], e₁.contentName = [1] := by
    intro e₁ h₁
    have h₂ := hpre.subset h₁
    simp only [List.mem_cons, List.not_mem_nil, or_false] at h₂
    rcases h₂ with rfl | rfl <;> rfl
  rw [← hname, hall e' (List.mem_append_left _ hmem), hall e (by simp)] at hne
  exact hne rfl

/-- **The timer is stopped too early**: the second transport becomes writable
while the first one still is not. -/
theorem unwatched :
    ¬∀ (s : Session) (es : List TransportEvent), s.timeouts = 0 → ∀ pre, pre <+: es →
      s.Watched pre := by
  intro h
  have hw := (h (new [] [] [] []) [⟨[1], true, false⟩, ⟨[2], true, true⟩] rfl _
    List.prefix_rfl).1 ⟨[1], ⟨[1], true, false⟩, by decide, by decide⟩
  exact absurd hw (by decide)

end Session

end Jingle.Signaling
