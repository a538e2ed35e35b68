/-
No network is allocated twice, and none is left out.

`DoAllocate` decides what a new sequence is for by the configurations of the sequences
that there are, and these may themselves have left phases to earlier ones.  The
invariant `Founded` says that what the configuration of a sequence asks for is created
by some sequence of its network, if not by itself.

* `allocation_covers` — over any run **two sequences never create the same**, and after
  `DoAllocate` **every network that is listed is covered**, where any relays stand for
  those of the newest configuration.
* `not_covers_other_relays` — the relays of a new configuration, when they are others,
  are not asked.
-/
import Jingle.Client.Allocator

namespace Jingle.Client

/-! ### Flags -/

/-- A flag is set. -/
def Flags.has (flags : Flags) (kind : PortKind) : Bool := flags &&& kind.disable ≠ 0

namespace Flags

theorem has_or (f g : Flags) (k : PortKind) :
    Flags.has (f ||| g) k = (Flags.has f k || Flags.has g k) := by
  have hor : (f ||| g) &&& k.disable = 0 ↔ f &&& k.disable = 0 ∧ g &&& k.disable = 0 := by
    rw [BitVec.and_or_distrib_right]
    exact BitVec.or_eq_zero_iff
  simp only [Flags.has, ne_eq, hor, not_and_or, Bool.decide_or]

theorem has_of_all {f : Flags} (h : f &&& disableAllPhases = disableAllPhases) (k : PortKind) :
    Flags.has f k = true := by
  have hk : disableAllPhases &&& k.disable = k.disable := by cases k <;> decide
  have hf : f &&& k.disable = k.disable := by
    calc f &&& k.disable = f &&& (disableAllPhases &&& k.disable) := by rw [hk]
      _ = (f &&& disableAllPhases) &&& k.disable := (BitVec.and_assoc ..).symm
      _ = k.disable := by rw [h, hk]
  rw [Flags.has, hf]
  cases k <;> decide

end Flags

namespace AllocationSequence

theorem creates_eq (q : AllocationSequence) (k : PortKind) :
    q.creates k = !Flags.has q.flags k := by
  simp [creates, Flags.has]

/-- This sequence has a phase that would do for another configuration. -/
def equivalent (q : AllocationSequence) (config : Option PortConfiguration) : PortKind → Bool
  | .udp => true
  | .tcp => true
  | .stun => q.config.any fun mine => config.any fun other =>
      mine.stunAddress.eqv other.stunAddress
  | .relay => q.config.any fun mine => config.any fun _ => mine.relays ≠ []

theorem has_disableEquivalentPhases (q : AllocationSequence) (n : Network)
    (config : Option PortConfiguration) (f : Flags) (k : PortKind) :
    Flags.has (q.disableEquivalentPhases n config f) k =
      (Flags.has f k || (q.sameNetwork n && q.equivalent config k)) := by
  have hlocal : ∀ g : Flags, Flags.has (g ||| disableUdp ||| disableTcp) k =
      (Flags.has g k || decide (k = .udp) || decide (k = .tcp)) := by
    intro g
    rw [Flags.has_or, Flags.has_or]
    cases k <;> rfl
  rw [disableEquivalentPhases]
  cases hnet : q.sameNetwork n with
  | false => simp
  | true =>
    rw [if_neg (by decide)]
    dsimp only
    cases hmine : q.config with
    | none =>
      rw [hlocal]
      cases k <;> simp [equivalent, hmine]
    | some mine =>
      cases config with
      | none =>
        dsimp only
        rw [hlocal]
        cases k <;> simp [equivalent]
      | some other =>
        dsimp only
        have hstun : ∀ g : Flags, Flags.has (g ||| disableStun) k =
            (Flags.has g k || decide (k = .stun)) := by
          intro g
          rw [Flags.has_or]
          cases k <;> rfl
        have hrelay : ∀ g : Flags, Flags.has (g ||| disableRelay) k =
            (Flags.has g k || decide (k = .relay)) := by
          intro g
          rw [Flags.has_or]
          cases k <;> rfl
        split_ifs with hr hs hs
        · rw [hrelay, hstun, hlocal]
          cases k <;> simp [equivalent, hmine, hr, hs]
        · rw [hrelay, hlocal]
          cases k <;> simp [equivalent, hmine, hr, hs]
        · rw [hstun, hlocal]
          cases k <;> simp [equivalent, hmine, hr, hs]
        · rw [hlocal]
          cases k <;> simp [equivalent, hmine, hr, hs]

/-- Sequences of the same network. -/
def SameSetup (q q' : AllocationSequence) : Prop := q.network = q'.network ∧ q.ip = q'.ip

/-- Two sequences that create the same ports. -/
def Clash (q q' : AllocationSequence) : Prop :=
  q.SameSetup q' ∧
    (((q.creates .udp = true ∨ q.creates .tcp = true) ∧
        (q'.creates .udp = true ∨ q'.creates .tcp = true)) ∨
      (q.creates .relay = true ∧ q'.creates .relay = true) ∨
      (q.creates .stun = true ∧ q'.creates .stun = true ∧
        ∃ c c', q.config = some c ∧ q'.config = some c' ∧ c.stunAddress.eqv c'.stunAddress = true))

/-- A sequence without what changes in it. -/
def settled (q : AllocationSequence) : AllocationSequence :=
  { q with running := false, step := 0, protocols := [] }

end AllocationSequence

/-- A configuration has nothing for a kind of ports. -/
def excludedBy (config : Option PortConfiguration) : PortKind → Bool
  | .udp => false
  | .tcp => false
  | .stun => config.all (·.stunAddress.isNil)
  | .relay => config.all (·.relays.isEmpty)

namespace AllocatorSession

/-- Some sequence of a network creates a kind of ports, for servers that will do. -/
def Covers (w : AllocatorSession)
    (will_do : AllocationSequence → Option PortConfiguration → PortKind → Bool)
    (config : Option PortConfiguration) (n : Network) : Prop :=
  ∀ k, Flags.has w.flags k = false → excludedBy config k = false →
    ∃ q ∈ w.sequences, q.sameNetwork n = true ∧ q.creates k = true ∧ will_do q config k = true

/-- No two sequences create the same, and each port is of a sequence that creates such. -/
structure NoRepeat (w : AllocatorSession) : Prop where
  sequences : w.sequences.Pairwise fun q q' => ¬q.Clash q'
  created : ∀ e ∈ w.created, ∃ q, w.sequences[e.1]? = some q ∧ q.creates e.2 = true

/-! ### The sequences of a session -/

theorem has_disableEquivalentPhases (l : List AllocationSequence) (n : Network)
    (config : Option PortConfiguration) (f : Flags) (k : PortKind) :
    Flags.has (l.foldl (fun flags q =>
      if flags &&& disableAllPhases = disableAllPhases then flags
      else q.disableEquivalentPhases n config flags) f) k =
      (Flags.has f k || l.any fun q => q.sameNetwork n && q.equivalent config k) := by
  induction l generalizing f with
  | nil => simp
  | cons q l ih =>
    rw [List.foldl_cons, ih, List.any_cons, ← Bool.or_assoc]
    split_ifs with hall
    · rw [Flags.has_of_all hall, Bool.true_or, Bool.true_or, Bool.true_or]
    · rw [AllocationSequence.has_disableEquivalentPhases]

theorem has_sequenceFlags (w : AllocatorSession) (n : Network) (k : PortKind) :
    Flags.has (w.sequenceFlags n) k =
      (Flags.has w.flags k || excludedBy w.configs.getLast? k ||
        w.sequences.any fun q => q.sameNetwork n && q.equivalent w.configs.getLast? k) := by
  have hstun : ∀ g : Flags, Flags.has (g ||| disableStun) k =
      (Flags.has g k || decide (k = .stun)) := by
    intro g
    rw [Flags.has_or]
    cases k <;> rfl
  have hrelay : ∀ g : Flags, Flags.has (g ||| disableRelay) k =
      (Flags.has g k || decide (k = .relay)) := by
    intro g
    rw [Flags.has_or]
    cases k <;> rfl
  rw [sequenceFlags, disableEquivalentPhases, has_disableEquivalentPhases]
  congr 1
  split_ifs with hr hs hs
  · rw [hrelay, hstun]
    cases k <;> simp [excludedBy, hr, hs]
  · rw [hrelay]
    cases k <;> simp [excludedBy, hr, hs]
  · rw [hstun]
    cases k <;> simp [excludedBy, hr, hs]
  · cases k <;> simp [excludedBy, hr, hs]

end AllocatorSession

/-! ### The invariant of the sequences -/

/-- The sequences never clash, create what their configurations have, and what such a
configuration asks for is created by one of them. -/
structure Founded (flags : Flags) (l : List AllocationSequence) : Prop where
  pairwise : l.Pairwise fun q q' => ¬q.Clash q'
  has_servers : ∀ q ∈ l, ∀ k, q.creates k = true → excludedBy q.config k = false
  founded : ∀ q ∈ l, ∀ k, Flags.has flags k = false → excludedBy q.config k = false →
    ∃ q' ∈ l, q'.SameSetup q ∧ q'.creates k = true ∧ q'.equivalent q.config k = true

namespace Founded

variable {flags : Flags} {l : List AllocationSequence} {n : Network}
  {config : Option PortConfiguration} {q q' : AllocationSequence} {k : PortKind}

theorem sameNetwork_iff : q.sameNetwork n = true ↔ n.id = q.network ∧ q.ip = n.ip :=
  decide_eq_true_iff

theorem sameSetup_of_sameNetwork (h : q.sameNetwork n = true) (h' : q'.sameNetwork n = true) :
    q.SameSetup q' := by
  rw [sameNetwork_iff] at h h'
  exact ⟨h.1.symm.trans h'.1, h.2.trans h'.2.symm⟩

theorem sameNetwork_of_sameSetup (h : q'.SameSetup q) (hn : q.sameNetwork n = true) :
    q'.sameNetwork n = true := by
  rw [sameNetwork_iff] at hn ⊢
  exact ⟨hn.1.trans h.1.symm, h.2.trans hn.2⟩

theorem excludedBy_of_equivalent (h : q.equivalent config k = true)
    (hex : excludedBy config k = false) : excludedBy q.config k = false := by
  cases k with
  | udp => rfl
  | tcp => rfl
  | stun =>
    cases hc : q.config with
    | none => simp [AllocationSequence.equivalent, hc] at h
    | some mine =>
      cases config with
      | none => simp [AllocationSequence.equivalent, hc] at h
      | some other =>
        have heqv : mine.stunAddress.eqv other.stunAddress = true := by
          simpa [AllocationSequence.equivalent, hc] using h
        have hother : other.stunAddress.isNil = false := hex
        show mine.stunAddress.isNil = false
        simp only [P2p.SocketAddress.eqv, P2p.SocketAddress.equalIPs, P2p.SocketAddress.isNil,
          decide_eq_true_eq, decide_eq_false_iff_not] at heqv hother ⊢
        obtain ⟨⟨hip, hname⟩, hport⟩ := heqv
        rintro ⟨hname', hip', hport'⟩
        refine hother ⟨?_, hip ▸ hip', hport ▸ hport'⟩
        rcases hname with hne | hname
        · exact absurd hip' hne
        · exact hname ▸ hname'
  | relay =>
    cases hc : q.config with
    | none => simp [AllocationSequence.equivalent, hc] at h
    | some mine =>
      cases config with
      | none => simp [AllocationSequence.equivalent, hc] at h
      | some other =>
        have hne : mine.relays ≠ [] := by simpa [AllocationSequence.equivalent, hc] using h
        show mine.relays.isEmpty = false
        rw [List.isEmpty_eq_false_iff]
        exact hne

theorem equivalent_trans (h : q'.equivalent q.config k = true)
    (h' : q.equivalent config k = true) : q'.equivalent config k = true := by
  cases k with
  | udp => rfl
  | tcp => rfl
  | stun =>
    cases hc : q.config with
    | none => simp [AllocationSequence.equivalent, hc] at h'
    | some mine =>
      cases config with
      | none => simp [AllocationSequence.equivalent, hc] at h'
      | some other =>
        cases hc' : q'.config with
        | none => simp [AllocationSequence.equivalent, hc'] at h
        | some mine' =>
          have h₁ : mine'.stunAddress.eqv mine.stunAddress = true := by
            simpa [AllocationSequence.equivalent, hc, hc'] using h
          have h₂ : mine.stunAddress.eqv other.stunAddress = true := by
            simpa [AllocationSequence.equivalent, hc] using h'
          simpa [AllocationSequence.equivalent, hc'] using P2p.SocketAddress.eqv_trans h₁ h₂
  | relay =>
    cases hc : q.config with
    | none => simp [AllocationSequence.equivalent, hc] at h'
    | some mine =>
      cases config with
      | none => simp [AllocationSequence.equivalent, hc] at h'
      | some other =>
        cases hc' : q'.config with
        | none => simp [AllocationSequence.equivalent, hc'] at h
        | some mine' => simpa [AllocationSequence.equivalent, hc, hc'] using h

theorem equivalent_self (hc : q.config = config) (hex : excludedBy config k = false) :
    q.equivalent config k = true := by
  cases k with
  | udp => rfl
  | tcp => rfl
  | stun =>
    cases config with
    | none => exact absurd hex (by simp [excludedBy])
    | some mine => simp [AllocationSequence.equivalent, hc]
  | relay =>
    cases config with
    | none => exact absurd hex (by simp [excludedBy])
    | some mine =>
      have hne : mine.relays.isEmpty = false := hex
      simpa [AllocationSequence.equivalent, hc, List.isEmpty_eq_false_iff] using hne

theorem covered (h : Founded flags l) (hq : q ∈ l) (hn : q.sameNetwork n = true)
    (hequiv : q.equivalent config k = true) (hflags : Flags.has flags k = false)
    (hex : excludedBy config k = false) :
    ∃ q' ∈ l, q'.sameNetwork n = true ∧ q'.creates k = true ∧ q'.equivalent config k = true := by
  obtain ⟨q', hq', hsame, hcreates, hequiv'⟩ :=
    h.founded q hq k hflags (excludedBy_of_equivalent hequiv hex)
  exact ⟨q', hq', sameNetwork_of_sameSetup hsame hn, hcreates, equivalent_trans hequiv' hequiv⟩

/-- The flags that `DoAllocate` gives to a new sequence. -/
def NewFlags (flags : Flags) (l : List AllocationSequence) (n : Network)
    (config : Option PortConfiguration) (f : Flags) : Prop :=
  ∀ k, Flags.has f k = (Flags.has flags k || excludedBy config k ||
    l.any fun q => q.sameNetwork n && q.equivalent config k)

theorem NewFlags.of_creates (hf : NewFlags flags l n q.config q.flags)
    (hk : q.creates k = true) :
    Flags.has flags k = false ∧ excludedBy q.config k = false ∧
      ∀ q' ∈ l, q'.sameNetwork n = true → q'.equivalent q.config k = false := by
  have hfalse : Flags.has q.flags k = false := by
    rw [AllocationSequence.creates_eq, Bool.not_eq_true'] at hk
    exact hk
  rw [hf k, Bool.or_eq_false_iff, Bool.or_eq_false_iff, List.any_eq_false] at hfalse
  refine ⟨hfalse.1.1, hfalse.1.2, fun q' hq' hn => ?_⟩
  have hnot := hfalse.2 q' hq'
  rw [hn, Bool.true_and, Bool.not_eq_true] at hnot
  exact hnot

theorem not_clash (h : Founded flags l) (hn : q.sameNetwork n = true)
    (hf : NewFlags flags l n q.config q.flags) (hq' : q' ∈ l) : ¬q'.Clash q := by
  rintro ⟨hsame, hclash⟩
  have hn' := sameNetwork_of_sameSetup hsame hn
  rcases hclash with ⟨-, hlocal | hlocal⟩ | ⟨hrelay', hrelay⟩ | ⟨hstun', hstun, c', c, hc', hc, heqv⟩
  · exact absurd ((hf.of_creates hlocal).2.2 q' hq' hn') (by simp [AllocationSequence.equivalent])
  · exact absurd ((hf.of_creates hlocal).2.2 q' hq' hn') (by simp [AllocationSequence.equivalent])
  · -- both have relays
    obtain ⟨-, hex, hno⟩ := hf.of_creates hrelay
    have hex' := h.has_servers q' hq' .relay hrelay'
    have hnot := hno q' hq' hn'
    cases hc : q.config with
    | none => exact absurd (hc ▸ hex) (by simp [excludedBy])
    | some c =>
      cases hc' : q'.config with
      | none => exact absurd (hc' ▸ hex') (by simp [excludedBy])
      | some c' =>
        rw [hc'] at hex'
        have hne : c'.relays.isEmpty = false := hex'
        rw [List.isEmpty_eq_false_iff] at hne
        simp [AllocationSequence.equivalent, hc, hc', hne] at hnot
  · have hnot := (hf.of_creates hstun).2.2 q' hq' hn'
    simp [AllocationSequence.equivalent, hc, hc', heqv] at hnot

theorem append (h : Founded flags l) (hn : q.sameNetwork n = true)
    (hf : NewFlags flags l n q.config q.flags) : Founded flags (l ++ [q]) := by
  refine ⟨?_, ?_, ?_⟩
  · rw [List.pairwise_append]
    refine ⟨h.pairwise, List.pairwise_singleton _ _, fun q' hq' q'' hq'' => ?_⟩
    rw [List.mem_singleton.mp hq'']
    exact h.not_clash hn hf hq'
  · intro q' hq' k hk
    rcases List.mem_append.mp hq' with hq' | hq'
    · exact h.has_servers q' hq' k hk
    · rw [List.mem_singleton.mp hq'] at hk ⊢
      exact (hf.of_creates hk).2.1
  · intro q' hq' k hflags hex
    rcases List.mem_append.mp hq' with hq' | hq'
    · obtain ⟨q'', hq'', hrest⟩ := h.founded q' hq' k hflags hex
      exact ⟨q'', List.mem_append_left _ hq'', hrest⟩
    · rw [List.mem_singleton.mp hq'] at hex ⊢
      -- the new sequence creates it, or leaves it to one that does for it
      cases hk : q.creates k with
      | true =>
        exact ⟨q, List.mem_append_right _ (List.mem_singleton_self q), ⟨rfl, rfl⟩, hk,
          equivalent_self rfl hex⟩
      | false =>
        rw [AllocationSequence.creates_eq, Bool.not_eq_false'] at hk
        rw [hf k, hflags, hex, Bool.false_or, Bool.false_or, List.any_eq_true] at hk
        obtain ⟨q₀, hq₀, hand⟩ := hk
        rw [Bool.and_eq_true] at hand
        obtain ⟨q₁, hq₁, hn₁, hcreates, hequiv⟩ := h.covered hq₀ hand.1 hand.2 hflags hex
        exact ⟨q₁, List.mem_append_left _ hq₁, sameSetup_of_sameNetwork hn₁ hn, hcreates, hequiv⟩

end Founded

/-! ### What else a step does to the sequences -/

namespace AllocatorSession

variable {make : ℕ → Option Made} {w w' w'' : AllocatorSession} {n : Network}

def plan (w : AllocatorSession) : List AllocationSequence := w.sequences.map (·.settled)

/-- A step that makes no sequence, and ports only for sequences that create such. -/
structure Frame (w w' : AllocatorSession) : Prop where
  flags : w'.flags = w.flags
  configs : w'.configs = w.configs
  plan : w'.plan = w.plan
  created : ∃ new, w'.created = w.created ++ new ∧
    ∀ e ∈ new, ∃ q, w.plan[e.1]? = some q ∧ q.creates e.2 = true

namespace Frame

theorem refl (w : AllocatorSession) : Frame w w :=
  ⟨rfl, rfl, rfl, [], (List.append_nil _).symm, fun _ he => absurd he List.not_mem_nil⟩

theorem trans (h : Frame w w') (h' : Frame w' w'') : Frame w w'' := by
  obtain ⟨new, hnew, hcreates⟩ := h.created
  obtain ⟨new', hnew', hcreates'⟩ := h'.created
  refine ⟨h'.flags.trans h.flags, h'.configs.trans h.configs, h'.plan.trans h.plan,
    new ++ new', ?_, fun e he => ?_⟩
  · rw [hnew', hnew, List.append_assoc]
  · rcases List.mem_append.mp he with he | he
    · exact hcreates e he
    · rw [← h.plan]
      exact hcreates' e he

theorem of_eq (hf : w'.flags = w.flags) (hc : w'.configs = w.configs)
    (hs : w'.plan = w.plan) (hm : w'.created = w.created) : Frame w w' :=
  ⟨hf, hc, hs, [], by rw [hm, List.append_nil], fun _ he => absurd he List.not_mem_nil⟩

theorem foldl {ι : Type} {f : AllocatorSession → ι → AllocatorSession}
    (h : ∀ w i, Frame w (f w i)) (l : List ι) (w : AllocatorSession) : Frame w (l.foldl f w) := by
  induction l generalizing w with
  | nil => exact refl w
  | cons i l ih => exact (h w i).trans (ih (f w i))

end Frame

theorem frame_signalCandidatesReady (w : AllocatorSession) (cs : List (ℕ × P2p.Candidate)) :
    Frame w (w.signalCandidatesReady cs) := by
  rw [signalCandidatesReady]
  split_ifs
  · exact .refl w
  · exact .of_eq rfl rfl rfl rfl

theorem frame_onAddressReady (w : AllocatorSession) (id : ℕ) : Frame w (w.onAddressReady id) := by
  rw [onAddressReady]
  split
  · exact .refl w
  · split_ifs
    · exact .refl w
    · refine .trans ?_ (frame_signalCandidatesReady _ _)
      exact .of_eq rfl rfl rfl rfl

theorem plan_modify (w : AllocatorSession) (seq : ℕ) (f : AllocationSequence → AllocationSequence)
    (hf : ∀ q, (f q).settled = q.settled) :
    (w.sequences.modify seq f).map (·.settled) = w.plan := by
  apply List.ext_getElem?
  intro i
  rw [plan, List.getElem?_map, List.getElem?_map, List.getElem?_modify]
  cases w.sequences[i]? with
  | none => rfl
  | some q =>
    by_cases hi : seq = i
    · simp [hi, hf]
    · simp [hi]

theorem frame_enableProtocol (w : AllocatorSession) (seq : ℕ) (proto : ProtocolType) :
    Frame w (w.enableProtocol seq proto) := by
  rw [enableProtocol]
  split_ifs
  · exact .refl w
  · refine .trans ?_ (frame_signalCandidatesReady (w.pushProtocol seq proto) _)
    exact .of_eq rfl rfl (plan_modify w seq _ fun _ => rfl) rfl

theorem frame_addAddress (w : AllocatorSession) (id : ℕ) (address : P2p.SocketAddress)
    (protocol : List Byte) (final : Bool) : Frame w (w.addAddress id address protocol final) := by
  rw [addAddress]
  split_ifs
  · refine .trans ?_ (frame_onAddressReady _ _)
    exact .of_eq rfl rfl rfl rfl
  · exact .of_eq rfl rfl rfl rfl

theorem frame_addExternalAddress (w : AllocatorSession) (id : ℕ) (addr : ProtocolAddress) :
    Frame w (w.addExternalAddress id addr) := by
  rw [addExternalAddress]
  split
  · exact .refl w
  · split_ifs
    · exact .refl w
    · exact frame_addAddress _ _ _ _ _

theorem frame_prepareAddress (w : AllocatorSession) (id : ℕ) (made : Made)
    (protocol : List Byte) : Frame w (w.prepareAddress id made protocol) := by
  rw [prepareAddress]
  split
  · exact .refl w
  · exact frame_addAddress _ _ _ _ _

theorem frame_createPort {seq : ℕ} {kind : PortKind} {q : AllocationSequence}
    {andThen : ℕ → Made → AllocatorSession → AllocatorSession}
    (hthen : ∀ id made w, Frame w (andThen id made w)) (hq : w.plan[seq]? = some q)
    (hk : q.creates kind = true) : Frame w (w.createPort make seq kind andThen) := by
  have hcreate : Frame w { w with created := w.created ++ [(seq, kind)] } := by
    refine ⟨rfl, rfl, rfl, [(seq, kind)], rfl, fun e he => ?_⟩
    rw [List.mem_singleton.mp he]
    exact ⟨q, hq, hk⟩
  rw [createPort]
  split
  · exact hcreate
  · refine (hcreate.trans ?_).trans (hthen _ _ _)
    exact .of_eq rfl rfl rfl rfl

section Phases

variable {seq : ℕ} {q : AllocationSequence}

theorem frame_createUDPPorts (hq : w.plan[seq]? = some q.settled) :
    Frame w (w.createUDPPorts make seq q) := by
  rw [createUDPPorts]
  split_ifs with hk
  · exact .refl w
  · exact frame_createPort (fun _ _ _ => frame_prepareAddress _ _ _ _) hq
      (Bool.eq_true_of_not_eq_false hk)

theorem frame_createTCPPorts (hq : w.plan[seq]? = some q.settled) :
    Frame w (w.createTCPPorts make seq q) := by
  rw [createTCPPorts]
  split_ifs with hk
  · exact .refl w
  · exact frame_createPort (fun _ _ _ => frame_prepareAddress _ _ _ _) hq
      (Bool.eq_true_of_not_eq_false hk)

theorem frame_createStunPorts (hq : w.plan[seq]? = some q.settled) :
    Frame w (w.createStunPorts make seq q) := by
  rw [createStunPorts]
  split_ifs with hk
  · exact .refl w
  · split
    · exact .refl w
    · split_ifs
      · exact .refl w
      · exact frame_createPort (fun _ _ w => .refl w) hq (Bool.eq_true_of_not_eq_false hk)

theorem frame_createRelayPorts (hq : w.plan[seq]? = some q.settled) :
    Frame w (w.createRelayPorts make seq q) := by
  rw [createRelayPorts]
  split_ifs with hk
  · exact .refl w
  · split
    · exact .refl w
    · rename_i config _
      generalize config.relays = relays
      induction relays generalizing w with
      | nil => exact .refl w
      | cons relay relays ih =>
        rw [List.foldl_cons]
        have hport := @frame_createPort make _ _ _ _ (fun id _ w =>
          relay.ports.foldl (fun w addr => w.addExternalAddress id addr) w)
          (fun id _ w => .foldl (fun w addr => frame_addExternalAddress w id addr) _ w) hq
          (Bool.eq_true_of_not_eq_false hk)
        exact hport.trans (ih (by rw [hport.plan]; exact hq))

theorem frame_performPhase (hq : w.plan[seq]? = some q.settled) (phase : Phase) :
    Frame w (w.performPhase make seq q phase) := by
  cases phase with
  | udp =>
    have hudp := @frame_createUDPPorts make _ _ _ hq
    have hstun := @frame_createStunPorts make _ _ _ (by rw [hudp.plan]; exact hq)
    exact (hudp.trans hstun).trans (frame_enableProtocol _ _ _)
  | relay => exact frame_createRelayPorts hq
  | tcp => exact (frame_createTCPPorts hq).trans (frame_enableProtocol _ _ _)
  | ssltcp => exact frame_enableProtocol _ _ _

end Phases

theorem frame_onMessage (w : AllocatorSession) (seq : ℕ) : Frame w (w.onMessage make seq) := by
  rw [onMessage]
  cases hq : w.sequences[seq]? with
  | none => exact .refl w
  | some q =>
    have hplan : w.plan[seq]? = some q.settled := by rw [plan, List.getElem?_map, hq]; rfl
    have hphase : ∀ w₁ phase, Frame w w₁ → Frame w
        (if q.stepOfPhase phase = q.step then w₁.performPhase make seq q phase else w₁) := by
      intro w₁ phase h₁
      split_ifs
      · exact h₁.trans (frame_performPhase (by rw [h₁.plan]; exact hplan) phase)
      · exact h₁
    have hphases := hphase _ .ssltcp (hphase _ .tcp (hphase _ .relay (hphase w .udp (.refl w))))
    refine hphases.trans ?_
    exact .of_eq rfl rfl (plan_modify _ seq _ fun _ => rfl) rfl

/-! ### The invariant of a session -/

structure Inv (w : AllocatorSession) : Prop where
  founded : Founded w.flags w.plan
  created : ∀ e ∈ w.created, ∃ q, w.plan[e.1]? = some q ∧ q.creates e.2 = true

theorem Frame.inv (hf : Frame w w') (h : w.Inv) : w'.Inv := by
  obtain ⟨new, hnew, hcreates⟩ := hf.created
  refine ⟨?_, fun e he => ?_⟩
  · rw [hf.flags, hf.plan]
    exact h.founded
  · rw [hf.plan]
    rw [hnew] at he
    rcases List.mem_append.mp he with he | he
    · exact h.created e he
    · exact hcreates e he

theorem init_inv (flags : Flags) : (init flags).Inv :=
  ⟨⟨.nil, fun _ hq => absurd hq List.not_mem_nil, fun _ hq => absurd hq List.not_mem_nil⟩,
    fun _ he => absurd he List.not_mem_nil⟩

theorem addSequence_spec (w : AllocatorSession) (q : AllocationSequence) :
    Frame { w with sequences := w.sequences ++ [q] } (w.addSequence make q) := by
  rw [addSequence]
  refine Frame.trans (@frame_onMessage make _ w.sequences.length) ?_
  split_ifs
  · exact .of_eq rfl rfl (plan_modify _ _ _ fun _ => rfl) rfl
  · exact .refl _

/-- The networks for which there is what the newest configuration asks for. -/
def Covered (w : AllocatorSession) (n : Network) : Prop :=
  w.Covers AllocationSequence.equivalent w.configs.getLast? n

/-- What a step of an allocation keeps. -/
structure Extends (w w' : AllocatorSession) : Prop where
  flags : w'.flags = w.flags
  configs : w'.configs = w.configs
  plan : ∃ new, w'.plan = w.plan ++ new

theorem covered_iff : w.Covered n ↔ ∀ k, Flags.has w.flags k = false →
    excludedBy w.configs.getLast? k = false →
      ∃ q ∈ w.plan, q.sameNetwork n = true ∧ q.creates k = true ∧
        q.equivalent w.configs.getLast? k = true := by
  refine forall_congr' fun k => imp_congr_right fun _ => imp_congr_right fun _ => ?_
  constructor
  · rintro ⟨q, hq, h⟩
    exact ⟨q.settled, List.mem_map_of_mem hq, h⟩
  · rintro ⟨q, hq, h⟩
    obtain ⟨q₀, hq₀, rfl⟩ := List.mem_map.mp hq
    exact ⟨q₀, hq₀, h⟩

theorem Extends.covered (he : Extends w w') (h : w.Covered n) : w'.Covered n := by
  obtain ⟨new, hnew⟩ := he.plan
  rw [covered_iff] at h ⊢
  rw [he.flags, he.configs, hnew]
  intro k hflags hex
  obtain ⟨q, hq, hrest⟩ := h k hflags hex
  exact ⟨q, List.mem_append_left _ hq, hrest⟩

theorem allocateNetwork_inv (best : ℤ) (h : w.Inv) (n : Network) :
    (w.allocateNetwork make best n).Inv ∧ Extends w (w.allocateNetwork make best n) ∧
      (w.allocateNetwork make best n).Covered n := by
  have hflags : Founded.NewFlags w.flags w.plan n w.configs.getLast? (w.sequenceFlags n) := by
    intro k
    rw [has_sequenceFlags, plan, List.any_map]
    rfl
  rw [allocateNetwork]
  split_ifs with hall
  · -- everything is there, or nothing is asked for
    refine ⟨h, ⟨rfl, rfl, [], (List.append_nil _).symm⟩, covered_iff.mpr fun k hk hex => ?_⟩
    have hhas := Flags.has_of_all hall k
    rw [hflags k, hk, hex, Bool.false_or, Bool.false_or, List.any_eq_true] at hhas
    obtain ⟨q, hq, hand⟩ := hhas
    rw [Bool.and_eq_true] at hand
    exact h.founded.covered hq hand.1 hand.2 hk hex
  · generalize hq : AllocationSequence.create n w.configs.getLast? (w.sequenceFlags n) best = q
    have hnet : q.sameNetwork n = true := by
      rw [← hq, Founded.sameNetwork_iff]
      exact ⟨rfl, rfl⟩
    have hconfig : q.config = w.configs.getLast? := by rw [← hq]; rfl
    have hnew : Founded.NewFlags w.flags w.plan n q.config q.flags := by
      rw [hconfig, ← hq]
      exact hflags
    have hplan : plan { w with sequences := w.sequences ++ [q] } = w.plan ++ [q.settled] :=
      List.map_append
    have hinv : Inv { w with sequences := w.sequences ++ [q] } := by
      refine ⟨?_, fun e he => ?_⟩
      · rw [hplan]
        exact h.founded.append (q := q.settled) hnet hnew
      · obtain ⟨q', hq', hk⟩ := h.created e he
        rw [hplan]
        obtain ⟨hlt, -⟩ := List.getElem?_eq_some_iff.mp hq'
        exact ⟨q', (List.getElem?_append_left hlt).trans hq', hk⟩
    have hframe := @addSequence_spec make w q
    have hplan' := hframe.plan.trans hplan
    refine ⟨hframe.inv hinv, ⟨hframe.flags, hframe.configs, _, hplan'⟩, ?_⟩
    rw [covered_iff, hframe.flags, hframe.configs]
    intro k hk hex
    obtain ⟨q', hq', hsame, hcreates, hequiv⟩ := (hframe.inv hinv).founded.founded q.settled
      (by rw [hplan']; exact List.mem_append_right _ (List.mem_singleton_self _)) k
      (by rw [hframe.flags]; exact hk) (by rw [← hconfig] at hex; exact hex)
    refine ⟨q', hq', Founded.sameNetwork_of_sameSetup hsame hnet, hcreates, ?_⟩
    rw [← hconfig]
    exact hequiv

theorem doAllocate_inv (networks : List Network) (best : ℤ) (h : w.Inv) :
    (w.doAllocate make networks best).Inv ∧ Extends w (w.doAllocate make networks best) ∧
      ∀ n ∈ networks, (w.doAllocate make networks best).Covered n := by
  induction networks generalizing w with
  | nil =>
    exact ⟨h, ⟨rfl, rfl, [], (List.append_nil _).symm⟩, fun _ hn => absurd hn List.not_mem_nil⟩
  | cons n networks ih =>
    obtain ⟨hinv, hext, hn⟩ := @allocateNetwork_inv make _ best h n
    obtain ⟨hinv', hext', hrest⟩ := ih hinv
    have hcons : w.doAllocate make (n :: networks) best =
        (w.allocateNetwork make best n).doAllocate make networks best := rfl
    rw [hcons]
    refine ⟨hinv', ⟨hext'.flags.trans hext.flags, hext'.configs.trans hext.configs, ?_⟩, ?_⟩
    · obtain ⟨new, hnew⟩ := hext.plan
      obtain ⟨new', hnew'⟩ := hext'.plan
      exact ⟨new ++ new', by rw [hnew', hnew, List.append_assoc]⟩
    · intro m hm
      rcases List.mem_cons.mp hm with rfl | hm
      · exact hext'.covered hn
      · exact hrest m hm

theorem step_inv (h : w.Inv) (e : AllocatorEvent) : (w.step make e).Inv := by
  cases e with
  | configReady config => exact ⟨h.founded, h.created⟩
  | networksChanged networks best =>
    rw [step]
    dsimp only
    have hw : Inv { w with network_manager_started := true } := ⟨h.founded, h.created⟩
    split_ifs
    · exact (doAllocate_inv networks best hw).1
    · exact hw
  | startGetAllPorts =>
    have hplan : plan (w.step make .startGetAllPorts) = w.plan := by
      rw [step, plan, plan, List.map_map]
      rfl
    exact Frame.inv (w := w) (.of_eq rfl rfl hplan rfl) h
  | stopGetAllPorts =>
    have hplan : plan (w.step make .stopGetAllPorts) = w.plan := by
      rw [step, plan, plan, List.map_map]
      rfl
    exact Frame.inv (w := w) (.of_eq rfl rfl hplan rfl) h
  | allocate networks best =>
    rw [step]
    split_ifs
    · have hinv := (@doAllocate_inv make _ networks best h).1
      exact ⟨hinv.founded, hinv.created⟩
    · exact ⟨h.founded, h.created⟩
  | allocationPhase seq => exact (frame_onMessage w seq).inv h
  | addAddress port address protocol final => exact (frame_addAddress w _ _ _ _).inv h
  | addExternalAddress port addr => exact (frame_addExternalAddress w port addr).inv h
  | addressReady port => exact (frame_onAddressReady w port).inv h
  | portDestroyed port => exact ⟨h.founded, h.created⟩

theorem run_inv (es : List AllocatorEvent) (h : w.Inv) : (w.run make es).Inv := by
  induction es generalizing w with
  | nil => exact h
  | cons e es ih => exact ih (step_inv h e)

theorem Inv.noRepeat (h : w.Inv) : w.NoRepeat := by
  refine ⟨List.pairwise_map.mp h.founded.pairwise, fun e he => ?_⟩
  obtain ⟨q, hq, hk⟩ := h.created e he
  rw [plan, List.getElem?_map, Option.map_eq_some_iff] at hq
  obtain ⟨q, hq, rfl⟩ := hq
  exact ⟨q, hq, hk⟩

/-- **No network is allocated twice and none is left out**, in any run. -/
theorem allocation_covers (make : ℕ → Option Made) (flags : Flags) (es : List AllocatorEvent) :
    ((init flags).run make es).NoRepeat ∧ ∀ (networks : List Network) (best : ℤ),
      ∀ n ∈ networks, (((init flags).run make es).doAllocate make networks best).Covered n :=
  ⟨(run_inv es (init_inv flags)).noRepeat,
    fun networks best => (doAllocate_inv networks best (run_inv es (init_inv flags))).2.2⟩

/-- The servers are those of the configuration. -/
def sameServers (q : AllocationSequence) (config : Option PortConfiguration) : PortKind → Bool
  | .relay => q.config.map (·.relays) = config.map (·.relays)
  | k => q.equivalent config k

/-- **Other relays** than those of the first configuration are not asked. -/
theorem not_covers_other_relays :
    ¬∀ (make : ℕ → Option Made) (flags : Flags) (es : List AllocatorEvent)
      (networks : List Network) (best : ℤ), ∀ n ∈ networks,
        (((init flags).run make es).doAllocate make networks best).Covers sameServers
          ((init flags).run make es).configs.getLast? n := by
  intro h
  obtain ⟨q, hq, -, hcreates, hsame⟩ := h (fun _ => none) 0
    [.networksChanged [] 0, .configReady (some ⟨⟨[], 0, 0⟩, [⟨[⟨⟨[], 1, 1⟩, .udp⟩]⟩]⟩),
      .allocate [⟨0, 7⟩] 0, .configReady (some ⟨⟨[], 0, 0⟩, [⟨[⟨⟨[], 2, 2⟩, .udp⟩]⟩]⟩)]
    [⟨0, 7⟩] 0 ⟨0, 7⟩ (List.mem_singleton_self _) .relay (by decide) (by decide)
  revert q
  decide

end AllocatorSession

end Jingle.Client
