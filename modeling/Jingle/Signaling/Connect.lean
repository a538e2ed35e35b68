/-
When the channels of a proxy are connected.

A channel of a negotiated proxy should have an implementation that has been told
to connect.  `CompleteNegotiation` sees to it once; but with no channel at all
`ConnectChannels` does not even note that connecting was requested, and no later
call makes up for it.  `channels_connected` says that a channel created on such
a proxy is the only way to get an unconnected one.
-/
import Jingle.Signaling.Proxy
import Jingle.Lib.Reach

namespace Jingle.Signaling

namespace Transport

/-- Every channel has been told to connect. -/
def AllConnected (t : Transport) : Prop := ∀ impl ∈ t.channels, impl.id ∈ t.connects

/-- The numbers of all channels have been given out. -/
def Fresh (t : Transport) : Prop :=
  (∀ i ∈ t.connects, i < t.nextImpl) ∧ ∀ impl ∈ t.channels, impl.id < t.nextImpl

/-- From `t` to `t'` the transport only gets more channels, and connects them if
that was requested. -/
structure Grows (t t' : Transport) : Prop where
  requested : t'.connectRequested = t.connectRequested
  channels : t.channels ⊆ t'.channels
  connects : t.connects ⊆ t'.connects
  connected : t.connectRequested → t.AllConnected → t'.AllConnected
  fresh : t.Fresh → t'.Fresh

theorem Grows.refl (t : Transport) : Grows t t :=
  ⟨rfl, fun _ => id, fun _ => id, fun _ => id, id⟩

theorem Grows.trans {t u v : Transport} (h : Grows t u) (h' : Grows u v) : Grows t v where
  requested := h'.requested.trans h.requested
  channels := fun _ hi => h'.channels (h.channels hi)
  connects := fun _ hi => h'.connects (h.connects hi)
  connected := fun hr hc => h'.connected (h.requested ▸ hr) (h.connected hr hc)
  fresh := fun hf => h'.fresh (h.fresh hf)

theorem createChannel_grows {t : Transport} {name : List Byte} (h : t.getChannel name = none)
    (contentType : List Byte) :
    Grows t (t.createChannel name contentType).2 ∧
      (t.createChannel name contentType).1 ∈ (t.createChannel name contentType).2.channels := by
  have hkeep : (t.channels.filter fun impl => impl.name ≠ name) = t.channels := by
    refine List.filter_eq_self.2 fun impl hi => ?_
    simpa using List.find?_eq_none.1 h impl hi
  have hnew : ∀ {P : ChannelImpl → Prop}, (∀ impl ∈ t.channels, P impl) →
      P { id := t.nextImpl, name, contentType } → ∀ impl ∈ t.channels ++
        [{ id := t.nextImpl, name, contentType }], P impl := by
    intro P hold hnew impl hi
    rcases List.mem_append.1 hi with hi | hi
    · exact hold impl hi
    · exact List.mem_singleton.1 hi ▸ hnew
  rw [createChannel]
  simp only [hkeep]
  split
  · next hr =>
    refine ⟨⟨rfl, List.subset_append_left _ _, List.subset_append_left _ _, fun _ hc => ?_,
      fun hf => ⟨fun i hi => ?_, ?_⟩⟩, List.mem_append_right _ List.mem_cons_self⟩
    · exact hnew (fun impl hi => List.mem_append_left _ (hc impl hi))
        (List.mem_append_right _ List.mem_cons_self)
    · rcases List.mem_append.1 hi with hi | hi
      · exact Nat.lt_succ_of_lt (hf.1 i hi)
      · rw [List.mem_singleton.1 hi]
        exact Nat.lt_succ_self _
    · exact hnew (fun impl hi => Nat.lt_succ_of_lt (hf.2 impl hi)) (Nat.lt_succ_self _)
  · next hr =>
    refine ⟨⟨rfl, List.subset_append_left _ _, fun _ => id, fun hr' => absurd hr' hr,
      fun hf => ⟨fun i hi => Nat.lt_succ_of_lt (hf.1 i hi), ?_⟩⟩,
      List.mem_append_right _ List.mem_cons_self⟩
    exact hnew (fun impl hi => Nat.lt_succ_of_lt (hf.2 impl hi)) (Nat.lt_succ_self _)

theorem connectChannels_spec {t : Transport} (hr : t.connectRequested → t.AllConnected)
    (hf : t.Fresh) :
    t.connectChannels.AllConnected ∧ t.connectChannels.channels = t.channels ∧
      (t.connectChannels.connectRequested = false → t.channels = []) ∧
      t.connectChannels.Fresh := by
  rw [connectChannels]
  split
  · next h =>
    rw [Bool.or_eq_true, List.isEmpty_iff] at h
    rcases h with h | h
    · exact ⟨hr h, rfl, fun h' => (Bool.false_ne_true (h'.symm.trans h)).elim, hf⟩
    · refine ⟨?_, rfl, fun _ => h, hf⟩
      rw [AllConnected, h]
      simp
  · refine ⟨fun impl hi => List.mem_append_right _ (List.mem_map_of_mem hi), rfl, by simp,
      fun i hi => ?_, hf.2⟩
    rcases List.mem_append.1 hi with hi | hi
    · exact hf.1 i hi
    · obtain ⟨impl, hi', rfl⟩ := List.mem_map.1 hi
      exact hf.2 impl hi'

theorem destroyChannel_frame (t : Transport) (name : List Byte) :
    (t.destroyChannel name).connectRequested = t.connectRequested ∧
      (t.destroyChannel name).channels ⊆ t.channels ∧
      (t.destroyChannel name).connects = t.connects ∧
      (t.destroyChannel name).nextImpl = t.nextImpl := by
  rw [destroyChannel]
  split
  · exact ⟨rfl, fun _ => id, rfl, rfl⟩
  · exact ⟨rfl, List.filter_subset_self _, rfl, rfl⟩

end Transport

namespace TransportProxy

variable {p : TransportProxy}

/-- **Every channel of a negotiated proxy is connected**: it has an
implementation, and `Connect` was called on that. -/
def Connected (p : TransportProxy) : Prop :=
  p.state = .negotiated → ∀ ch ∈ p.channels, ∃ i, ch.impl = some i ∧ i ∈ p.transport.connects

/-- What can happen to a proxy. -/
inductive Event
  | createChannel (name contentType : List Byte)
  | destroyChannel (name : List Byte)
  | speculativelyConnectChannels
  | completeNegotiation

/-- The proxy after an event. -/
def act (p : TransportProxy) : Event → TransportProxy
  | .createChannel name contentType => p.createChannel name contentType
  | .destroyChannel name => p.destroyChannel name
  | .speculativelyConnectChannels => p.speculativelyConnectChannels
  | .completeNegotiation => p.completeNegotiation

/-- No channel is created on a negotiated proxy whose transport has never been
requested to connect. -/
def Meets (p : TransportProxy) : Event → Prop
  | .createChannel _ _ => p.state = .negotiated → p.transport.connectRequested
  | _ => True

/-! ### The implementations of the channels -/

/-- The channel is one of the transport's. -/
def Linked (p : TransportProxy) (ch : ChannelProxy) : Prop :=
  ∃ impl ∈ p.transport.channels, ch.impl = some impl.id

theorem getOrCreateImpl_spec (p : TransportProxy) (name contentType : List Byte) :
    (p.getOrCreateImpl name contentType).2 =
        { p with transport := (p.getOrCreateImpl name contentType).2.transport } ∧
      p.transport.Grows (p.getOrCreateImpl name contentType).2.transport ∧
      (p.getOrCreateImpl name contentType).1 ∈
        (p.getOrCreateImpl name contentType).2.transport.channels := by
  rcases h : p.transport.getChannel name with _ | impl <;> simp only [getOrCreateImpl, h]
  · obtain ⟨hg, hmem⟩ := Transport.createChannel_grows h contentType
    exact ⟨trivial, hg, hmem⟩
  · exact ⟨trivial, .refl _, List.mem_of_find?_eq_some h⟩

theorem setProxyImpl_eq (p : TransportProxy) (name contentType : List Byte) :
    p.setProxyImpl name contentType =
      { p with
        transport := (p.getOrCreateImpl name contentType).2.transport
        channels := p.channels.map fun ch =>
          if ch.name = name then
            { ch with impl := some (p.getOrCreateImpl name contentType).1.id }
          else ch } := by
  have h : p.setProxyImpl name contentType =
      { (p.getOrCreateImpl name contentType).2 with
        channels := (p.getOrCreateImpl name contentType).2.channels.map fun ch =>
          if ch.name = name then
            { ch with impl := some (p.getOrCreateImpl name contentType).1.id }
          else ch } := rfl
  rw [h, (p.getOrCreateImpl_spec name contentType).1]

theorem setProxyImpl_spec (p : TransportProxy) (name contentType : List Byte) :
    (p.setProxyImpl name contentType).state = p.state ∧
      p.transport.Grows (p.setProxyImpl name contentType).transport ∧
      ∀ ch ∈ (p.setProxyImpl name contentType).channels, ∃ ch₀ ∈ p.channels,
        ch.name = ch₀.name ∧
          ((ch.name = name ∧ (p.setProxyImpl name contentType).Linked ch) ∨
            ch.name ≠ name ∧ ch = ch₀) := by
  obtain ⟨-, hg, hmem⟩ := p.getOrCreateImpl_spec name contentType
  rw [setProxyImpl_eq]
  refine ⟨rfl, hg, fun ch hch => ?_⟩
  obtain ⟨ch₀, hch₀, rfl⟩ := List.mem_map.1 hch
  refine ⟨ch₀, hch₀, by split <;> rfl, ?_⟩
  split
  · next hname => exact .inl ⟨hname, _, hmem, rfl⟩
  · next hname => exact .inr ⟨hname, rfl⟩

theorem createImpls_spec (chs : List ChannelProxy) (p : TransportProxy) :
    (createImpls chs p).state = p.state ∧ (createImpls chs p).channels = p.channels ∧
      p.transport.Grows (createImpls chs p).transport := by
  induction chs generalizing p with
  | nil => exact ⟨rfl, rfl, .refl _⟩
  | cons ch chs ih =>
    obtain ⟨heq, hg, -⟩ := p.getOrCreateImpl_spec ch.name ch.contentType
    obtain ⟨h₁, h₂, h₃⟩ := ih (p.getOrCreateImpl ch.name ch.contentType).2
    rw [createImpls]
    exact ⟨h₁.trans (by rw [heq]), h₂.trans (by rw [heq]), hg.trans h₃⟩

theorem setImpls_spec (chs : List ChannelProxy) (p : TransportProxy) :
    (setImpls chs p).state = p.state ∧ p.transport.Grows (setImpls chs p).transport ∧
      ∀ ch ∈ (setImpls chs p).channels, ∃ ch₀ ∈ p.channels, ch.name = ch₀.name ∧
        ((ch.name ∈ chs.map (·.name) ∨ p.Linked ch₀) → (setImpls chs p).Linked ch) := by
  induction chs generalizing p with
  | nil => exact ⟨rfl, .refl _, fun ch hch => ⟨ch, hch, rfl, fun h => h.resolve_left (by simp)⟩⟩
  | cons c chs ih =>
    obtain ⟨h₁, h₂, h₃⟩ := p.setProxyImpl_spec c.name c.contentType
    obtain ⟨h₁', h₂', h₃'⟩ := ih (p.setProxyImpl c.name c.contentType)
    rw [setImpls]
    refine ⟨h₁'.trans h₁, h₂.trans h₂', fun ch hch => ?_⟩
    obtain ⟨ch₁, hch₁, hname₁, hl₁⟩ := h₃' ch hch
    obtain ⟨ch₀, hch₀, hname₀, hl₀⟩ := h₃ ch₁ hch₁
    refine ⟨ch₀, hch₀, hname₁.trans hname₀, fun hor => hl₁ ?_⟩
    rw [List.map_cons, List.mem_cons, or_assoc] at hor
    rcases hl₀ with ⟨-, hl⟩ | ⟨hne, rfl⟩
    · exact .inr hl
    · rcases hor with hor | hor | ⟨impl, hi, himpl⟩
      · exact absurd (hname₁.symm.trans hor) hne
      · exact .inl hor
      · exact .inr ⟨impl, h₂.channels hi, himpl⟩

/-! ### The invariant -/

/-- What holds in every run: whatever was requested is connected, and without a
request a negotiated transport has no channel. -/
structure Sound (p : TransportProxy) : Prop where
  connected : p.Connected
  requested : p.transport.connectRequested → p.transport.AllConnected
  empty : p.state = .negotiated → p.transport.connectRequested = false → p.transport.channels = []
  fresh : p.transport.Fresh

theorem Sound.new (contentName type : List Byte) : (new contentName type).Sound :=
  ⟨by simp [Connected, TransportProxy.new, Transport.new],
    by simp [TransportProxy.new, Transport.new], by simp [TransportProxy.new],
    by simp [Transport.Fresh, TransportProxy.new, Transport.new]⟩

theorem Sound.destroyChannel (h : p.Sound) (name : List Byte) : (p.destroyChannel name).Sound := by
  rw [TransportProxy.destroyChannel]
  split
  · exact h
  · dsimp only
    split
    · obtain ⟨hreq, hch, hco, hnext⟩ := p.transport.destroyChannel_frame name
      refine ⟨fun hs ch hmem => ?_, fun hr impl hi => ?_, fun hs hr => ?_, fun i hi => ?_,
        fun impl hi => ?_⟩
      · obtain ⟨i, hi, hi'⟩ := h.connected hs ch (List.mem_of_mem_filter hmem)
        exact ⟨i, hi, hco ▸ hi'⟩
      · exact hco ▸ h.requested (hreq ▸ hr) impl (hch hi)
      · exact List.subset_nil.1 (h.empty hs (hreq ▸ hr) ▸ hch)
      · rw [hnext]
        exact h.fresh.1 i (hco ▸ hi)
      · rw [hnext]
        exact h.fresh.2 impl (hch hi)
    · exact ⟨fun hs ch hmem => h.connected hs ch (List.mem_of_mem_filter hmem), h.requested, h.empty,
        h.fresh⟩

theorem Sound.speculativelyConnectChannels (h : p.Sound) :
    p.speculativelyConnectChannels.Sound := by
  obtain ⟨hstate, -, hg⟩ := createImpls_spec p.channels { p with state := .connecting }
  rw [TransportProxy.speculativelyConnectChannels]
  obtain ⟨h₁, -, -, h₄⟩ := Transport.connectChannels_spec
    (t := (createImpls p.channels { p with state := .connecting }).transport)
    (fun hr => hg.connected (hg.requested ▸ hr) (h.requested (hg.requested ▸ hr)))
    (hg.fresh h.fresh)
  have hne : (createImpls p.channels { p with state := .connecting }).connectChannels.state ≠
      .negotiated := by
    show (createImpls p.channels { p with state := .connecting }).state ≠ .negotiated
    rw [hstate]
    simp
  exact ⟨fun hs => absurd hs hne, fun _ => h₁, fun hs => absurd hs hne, h₄⟩

theorem Sound.completeNegotiation (h : p.Sound) : p.completeNegotiation.Sound := by
  rw [TransportProxy.completeNegotiation]
  split
  · obtain ⟨-, hg, hlink⟩ := setImpls_spec p.channels { p with state := .negotiated }
    obtain ⟨h₁, h₂, h₃, h₄⟩ := Transport.connectChannels_spec
      (t := (setImpls p.channels { p with state := .negotiated }).transport)
      (fun hr => hg.connected (hg.requested ▸ hr) (h.requested (hg.requested ▸ hr)))
      (hg.fresh h.fresh)
    refine ⟨fun _ ch hch => ?_, fun _ => h₁, fun _ hr => ?_, h₄⟩
    · obtain ⟨ch₀, hch₀, hname, hl⟩ := hlink ch hch
      obtain ⟨impl, hi, himpl⟩ := hl (.inl (hname ▸ List.mem_map_of_mem hch₀))
      exact ⟨impl.id, himpl, h₁ impl (h₂.symm ▸ hi)⟩
    · exact h₂.trans (h₃ hr)
  · exact h

theorem createChannel_sound (h : p.Sound) (name contentType : List Byte) :
    ((p.createChannel name contentType).Connected ↔ p.Meets (.createChannel name contentType)) ∧
      (p.Meets (.createChannel name contentType) → (p.createChannel name contentType).Sound) := by
  rw [Meets, TransportProxy.createChannel]
  obtain ⟨new, hnew⟩ : ∃ new : ChannelProxy, new = { name, contentType, impl := none } := ⟨_, rfl⟩
  obtain ⟨q, hq⟩ : ∃ q : TransportProxy,
    q = { p with channels := (p.channels.filter fun ch => ch.name ≠ name) ++ [new] } := ⟨_, rfl⟩
  have hqt : q.transport = p.transport := by rw [hq]
  have hqs : q.state = p.state := by rw [hq]
  rw [← hnew, ← hq]
  rcases hs : p.state with _ | _ | _ <;> rw [hs] at hqs <;> simp only [hqs]
  · have hsound : q.Sound :=
      ⟨fun h' => absurd (hqs.symm.trans h') (by simp), by rw [hqt]; exact h.requested,
        fun h' => absurd (hqs.symm.trans h') (by simp), by rw [hqt]; exact h.fresh⟩
    exact ⟨iff_of_true hsound.connected (by simp), fun _ => hsound⟩
  · obtain ⟨heq, hg, -⟩ := q.getOrCreateImpl_spec name contentType
    rw [hqt] at hg
    have hstate : (q.getOrCreateImpl name contentType).2.state = .connecting := by
      rw [heq]
      exact hqs
    have hsound : (q.getOrCreateImpl name contentType).2.Sound :=
      ⟨fun h' => absurd (hstate.symm.trans h') (by simp),
        fun hr => hg.connected (hg.requested ▸ hr) (h.requested (hg.requested ▸ hr)),
        fun h' => absurd (hstate.symm.trans h') (by simp), hg.fresh h.fresh⟩
    exact ⟨iff_of_true hsound.connected (by simp), fun _ => hsound⟩
  · obtain ⟨hstate, hg, hlink⟩ := q.setProxyImpl_spec name contentType
    rw [hqt] at hg
    rcases hr : p.transport.connectRequested with _ | _
    · -- nothing will ever connect the new channel
      have hempty := h.empty hs hr
      have hnone : p.transport.getChannel name = none := by
        rw [Transport.getChannel, hempty]
        rfl
      refine ⟨iff_of_false (fun hc => ?_) (by simp), fun hm => absurd (hm trivial) (by simp)⟩
      have hid : (q.getOrCreateImpl name contentType).1.id = p.transport.nextImpl ∧
          (q.getOrCreateImpl name contentType).2.transport.connects = p.transport.connects := by
        simp [getOrCreateImpl, hnone, Transport.createChannel, hqt, hr]
      have hmem : { new with impl := some p.transport.nextImpl } ∈
          (q.setProxyImpl name contentType).channels := by
        rw [setProxyImpl_eq, hid.1, hq]
        refine List.mem_map.2 ⟨new, List.mem_append_right _ List.mem_cons_self, ?_⟩
        rw [if_pos (by rw [hnew])]
      obtain ⟨i, hi, hic⟩ := hc (hstate.trans hqs) _ hmem
      rw [setProxyImpl_eq, hid.2, ← Option.some.inj hi] at hic
      exact absurd (h.fresh.1 _ hic) (lt_irrefl _)
    · have hall : (q.setProxyImpl name contentType).transport.AllConnected :=
        hg.connected hr (h.requested hr)
      have hsound : (q.setProxyImpl name contentType).Sound := by
        refine ⟨fun _ ch hch => ?_, fun _ => hall, fun _ hr' => ?_, hg.fresh h.fresh⟩
        · obtain ⟨ch₀, hch₀, hname, ⟨-, impl, hi, himpl⟩ | ⟨hne, rfl⟩⟩ := hlink ch hch
          · exact ⟨impl.id, himpl, hall impl hi⟩
          · rw [hq] at hch₀
            rcases List.mem_append.1 hch₀ with hch₀ | hch₀
            · obtain ⟨i, hi, hic⟩ := h.connected hs ch (List.mem_of_mem_filter hch₀)
              exact ⟨i, hi, hg.connects hic⟩
            · rw [List.mem_singleton.1 hch₀, hnew] at hne
              exact absurd rfl hne
        · rw [hg.requested, hr] at hr'
          exact absurd hr' (by simp)
      exact ⟨iff_of_true hsound.connected fun _ => rfl, fun _ => hsound⟩

/-! ### Runs -/

/-- One event under the condition. -/
def Next (p q : TransportProxy) : Prop := ∃ e, p.Meets e ∧ q = p.act e

/-- **Channels get connected in any order of events** as long as none is created
on a negotiated proxy whose transport was never requested to connect; and such a
channel is not connected. -/
theorem channels_connected (contentName type : List Byte) :
    ∀ p, Reach (· = new contentName type) Next p →
      p.Connected ∧ ∀ e, (p.act e).Connected ↔ p.Meets e := by
  have hstep : ∀ {p : TransportProxy}, p.Sound → ∀ e,
      ((p.act e).Connected ↔ p.Meets e) ∧ (p.Meets e → (p.act e).Sound) := by
    intro p h e
    cases e with
    | createChannel name contentType => exact createChannel_sound h name contentType
    | destroyChannel name =>
      exact ⟨iff_of_true (h.destroyChannel name).connected trivial, fun _ => h.destroyChannel name⟩
    | speculativelyConnectChannels =>
      exact ⟨iff_of_true h.speculativelyConnectChannels.connected trivial,
        fun _ => h.speculativelyConnectChannels⟩
    | completeNegotiation =>
      exact ⟨iff_of_true h.completeNegotiation.connected trivial, fun _ => h.completeNegotiation⟩
  intro p hp
  have hs : p.Sound := by
    refine Reach.invariant (I := Sound) ?_ ?_ p hp
    · rintro _ rfl
      exact .new contentName type
    · rintro p _ - h ⟨e, hm, rfl⟩
      exact (hstep h e).2 hm
  exact ⟨hs.connected, fun e => (hstep hs e).1⟩

/-- A channel created before the negotiation, and one after it. -/
theorem channels_connected_both :
    ((((new [1] [2]).act (.createChannel [3] [4])).act .completeNegotiation).act
      (.createChannel [5] [4])).Connected :=
  (channels_connected [1] [2] _ (.step (.step (.step (.init rfl)
    ⟨.createChannel [3] [4], (fun h => by cases h), rfl⟩) ⟨.completeNegotiation, trivial, rfl⟩)
    ⟨.createChannel [5] [4], fun _ => by decide, rfl⟩)).1

/-- **A channel that is never connected**: the negotiation completes before the
first channel is created. -/
theorem created_unconnected :
    ¬∀ p, Reach (· = new [1] [2]) (fun p q => ∃ e, q = p.act e) p → p.Connected := by
  intro h
  have hc := h (((new [1] [2]).act .completeNegotiation).act (.createChannel [3] [4]))
    (.step (.step (.init rfl) ⟨_, rfl⟩) ⟨_, rfl⟩) (by decide)
    { name := [3], contentType := [4], impl := some 0 } (by decide)
  obtain ⟨i, -, hi⟩ := hc
  exact absurd hi (by simp [act, new, completeNegotiation, createChannel, setImpls, connectChannels,
    setProxyImpl, getOrCreateImpl, Transport.connectChannels, Transport.new, Transport.getChannel,
    Transport.createChannel])

end TransportProxy

end Jingle.Signaling
