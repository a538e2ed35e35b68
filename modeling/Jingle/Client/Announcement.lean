/-
Candidates are announced once.

The session announces from two places: when a port is ready, the candidates whose
protocol is enabled by then, and when a protocol is enabled, the candidates of the
ports that are ready.  Neither is reached by a candidate that comes when its port is
ready and its protocol enabled, and a candidate that came twice before is announced
twice.  An address is `Fits`ting when it is a new one before, and a repeated one
afterwards.

* `announced_once` — in a run whose addresses fit, **each candidate of a ready port whose
  protocol is enabled was announced exactly once**, and none whose protocol is not.
* `not_announces_second_address` — the second address of a STUN port is never announced.
-/
import Jingle.Client.Coverage

namespace Jingle.Client

namespace AllocatorSession

/-- The candidates of the announcements, with their ports. -/
def announced (w : AllocatorSession) : List (ℕ × P2p.Candidate) :=
  w.signals.flatMap fun
    | .portReady _ => []
    | .candidatesReady candidates => candidates

/-- **What is announced**: everything that may be, once. -/
structure Announces (w : AllocatorSession) : Prop where
  once : ∀ d ∈ w.ports, d.ready = true → ∀ c ∈ d.port.candidates,
    w.candidateEnabled d.sequence c = true → w.announced.count (d.port.id, c) = 1
  enabled : ∀ a ∈ w.announced, ∃ seq kind, w.created[a.1]? = some (seq, kind) ∧
    w.candidateEnabled seq a.2 = true

/-- An address that is new before its candidate may be announced, and known afterwards. -/
def Fits (w : AllocatorSession) (id : ℕ) (address : P2p.SocketAddress) (protocol : List Byte) :
    Prop :=
  ∀ d ∈ w.ports, d.port.id = id → (stringToProto protocol).isSome = true →
    (d.port.candidate address protocol ∈ d.port.candidates ↔
      d.ready = true ∧ w.candidateEnabled d.sequence (d.port.candidate address protocol) = true)

instance (w : AllocatorSession) (id : ℕ) (address : P2p.SocketAddress) (protocol : List Byte) :
    Decidable (w.Fits id address protocol) :=
  inferInstanceAs (Decidable (∀ d ∈ w.ports, _ → _ → _))

/-- The addresses of an event fit. -/
def Timely (w : AllocatorSession) : AllocatorEvent → Prop
  | .addAddress port address protocol _ => w.Fits port address protocol
  | .addExternalAddress port addr =>
    (∃ d ∈ w.ports, d.port.id = port ∧
      d.port.redundant addr.address (protoToString addr.proto) = false) →
        w.Fits port addr.address (protoToString addr.proto)
  | _ => True

def AllTimely (make : ℕ → Option Made) : AllocatorSession → List AllocatorEvent → Prop
  | _, [] => True
  | w, e :: es => w.Timely e ∧ AllTimely make (w.step make e) es

/-! ### The invariant -/

/-- A candidate may be announced. -/
def Open (w : AllocatorSession) (d : PortData) (c : P2p.Candidate) : Prop :=
  d.ready = true ∧ w.candidateEnabled d.sequence c = true

instance (w : AllocatorSession) (d : PortData) (c : P2p.Candidate) : Decidable (w.Open d c) :=
  inferInstanceAs (Decidable (_ ∧ _))

structure Tallied (w : AllocatorSession) : Prop where
  nodup : (w.ports.map (·.port.id)).Nodup
  owner : ∀ d ∈ w.ports, ∃ kind, w.created[d.port.id]? = some (d.sequence, kind)
  enabled : ∀ a ∈ w.announced, ∃ seq kind, w.created[a.1]? = some (seq, kind) ∧
    w.candidateEnabled seq a.2 = true
  /-- What is announced of a port that is there. -/
  count : ∀ d ∈ w.ports, ∀ c, w.announced.count (d.port.id, c) =
    if w.Open d c then min 1 (d.port.candidates.count c) else 0
  /-- What waits is there once. -/
  waiting : ∀ d ∈ w.ports, ∀ c, (stringToProto c.protocol).isSome = true → ¬w.Open d c →
    d.port.candidates.count c ≤ 1

theorem Tallied.announces {w : AllocatorSession} (h : w.Tallied) : w.Announces := by
  refine ⟨fun d hd hready c hc henabled => ?_, h.enabled⟩
  have hpos := List.count_pos_iff.mpr hc
  rw [h.count d hd c, if_pos ⟨hready, henabled⟩]
  omega

theorem init_tallied (flags : Flags) : (init flags).Tallied :=
  ⟨.nil, fun _ hd => absurd hd List.not_mem_nil, fun _ ha => absurd ha List.not_mem_nil,
    fun _ hd => absurd hd List.not_mem_nil, fun _ hd => absurd hd List.not_mem_nil⟩

variable {make : ℕ → Option Made} {w w' : AllocatorSession}

theorem Tallied.of_eq (h : w.Tallied) (hp : w'.ports = w.ports) (hs : w'.signals = w.signals)
    (hc : w'.created = w.created)
    (he : ∀ seq proto, w'.protocolEnabled seq proto = w.protocolEnabled seq proto) :
    w'.Tallied := by
  have hcand : ∀ seq c, w'.candidateEnabled seq c = w.candidateEnabled seq c := by
    intro seq c
    rw [candidateEnabled, candidateEnabled]
    cases stringToProto c.protocol with
    | none => rfl
    | some p => exact he seq p
  have hann : w'.announced = w.announced := by rw [announced, announced, hs]
  have hopen : ∀ d c, w'.Open d c ↔ w.Open d c := by
    intro d c
    rw [Open, Open, hcand]
  refine ⟨hp ▸ h.nodup, ?_, ?_, ?_, ?_⟩
  · rw [hp, hc]
    exact h.owner
  · rw [hann, hc]
    intro a ha
    obtain ⟨seq, kind, hseq, henabled⟩ := h.enabled a ha
    exact ⟨seq, kind, hseq, (hcand seq a.2).trans henabled⟩
  · rw [hp, hann]
    intro d hd c
    rw [h.count d hd c]
    simp only [hopen]
  · rw [hp]
    intro d hd c hproto hnot
    exact h.waiting d hd c hproto fun ho => hnot ((hopen d c).mpr ho)

/-! ### A port with another address -/

theorem mem_modifyPort {id : ℕ} {f : PortData → PortData} {d : PortData}
    (h : d ∈ (w.modifyPort id f).ports) :
    (d ∈ w.ports ∧ d.port.id ≠ id) ∨ ∃ d₀ ∈ w.ports, d₀.port.id = id ∧ f d₀ = d := by
  obtain ⟨d₀, hd₀, rfl⟩ := List.mem_map.mp h
  split_ifs with hid
  · exact .inr ⟨d₀, hd₀, hid, rfl⟩
  · exact .inl ⟨hd₀, hid⟩

theorem map_id_modifyPort (w : AllocatorSession) (id : ℕ) {f : PortData → PortData}
    (hf : ∀ d, (f d).port.id = d.port.id) :
    (w.modifyPort id f).ports.map (·.port.id) = w.ports.map (·.port.id) := by
  rw [modifyPort, List.map_map]
  refine List.map_congr_left fun d _ => ?_
  dsimp only [Function.comp]
  split_ifs
  · exact hf d
  · rfl

theorem tallied_address (h : w.Tallied) {id : ℕ} {address : P2p.SocketAddress}
    {protocol : List Byte} (hfits : w.Fits id address protocol) :
    (w.modifyPort id fun d =>
      { d with port := d.port.addAddress address protocol }).Tallied := by
  refine ⟨?_, ?_, h.enabled, ?_, ?_⟩
  · rw [map_id_modifyPort]
    · exact h.nodup
    · exact fun _ => rfl
  · intro d hd
    rcases mem_modifyPort hd with ⟨hd, -⟩ | ⟨d₀, hd₀, -, rfl⟩
    · exact h.owner d hd
    · exact h.owner d₀ hd₀
  · intro d hd c
    rcases mem_modifyPort hd with ⟨hd, -⟩ | ⟨d₀, hd₀, hid, rfl⟩
    · exact h.count d hd c
    · show w.announced.count (d₀.port.id, c) = if w.Open d₀ c then
        min 1 ((d₀.port.candidates ++ [d₀.port.candidate address protocol]).count c) else 0
      rw [h.count d₀ hd₀ c, List.count_append, List.count_singleton]
      split_ifs with hopen hc
      · -- the candidate was announced, and is there already
        have hproto : (stringToProto protocol).isSome = true := by
          have henabled := hopen.2
          rw [← eq_of_beq hc, candidateEnabled, Option.any_eq_true] at henabled
          obtain ⟨p, hp, -⟩ := henabled
          exact hp ▸ rfl
        have hmem := (hfits d₀ hd₀ hid hproto).mpr (eq_of_beq hc ▸ hopen)
        have hpos := List.count_pos_iff.mpr (eq_of_beq hc ▸ hmem)
        omega
      · omega
      · rfl
  · intro d hd c hproto hnot
    rcases mem_modifyPort hd with ⟨hd, -⟩ | ⟨d₀, hd₀, hid, rfl⟩
    · exact h.waiting d hd c hproto hnot
    · have hwait := h.waiting d₀ hd₀ c hproto hnot
      show (d₀.port.candidates ++ [d₀.port.candidate address protocol]).count c ≤ 1
      rw [List.count_append, List.count_singleton]
      split_ifs with hc
      · have heq := eq_of_beq hc
        have hno : c ∉ d₀.port.candidates := by
          intro hmem
          have hproto' : (stringToProto protocol).isSome = true := by
            rw [← heq] at hproto
            exact hproto
          rw [← heq] at hmem
          exact hnot (heq ▸ (hfits d₀ hd₀ hid hproto').mp hmem)
        have hzero := List.count_eq_zero.mpr hno
        omega
      · omega

/-! ### An announcement -/

theorem announced_signalCandidatesReady (w : AllocatorSession)
    (cs : List (ℕ × P2p.Candidate)) :
    (w.signalCandidatesReady cs).announced = w.announced ++ cs := by
  rw [signalCandidatesReady]
  split_ifs with hnil
  · rw [hnil, List.append_nil]
  · rw [announced, announced, List.flatMap_append]
    exact congrArg _ (List.append_nil _)

theorem ports_signalCandidatesReady (w : AllocatorSession) (cs : List (ℕ × P2p.Candidate)) :
    (w.signalCandidatesReady cs).ports = w.ports ∧
      (w.signalCandidatesReady cs).created = w.created ∧
      (w.signalCandidatesReady cs).sequences = w.sequences := by
  rw [signalCandidatesReady]
  split_ifs <;> exact ⟨rfl, rfl, rfl⟩

theorem protocolEnabled_congr (h : w'.sequences = w.sequences) :
    w'.protocolEnabled = w.protocolEnabled := by
  funext seq proto
  rw [protocolEnabled, protocolEnabled, h]

theorem candidateEnabled_congr (h : w'.sequences = w.sequences) (seq : ℕ) (c : P2p.Candidate) :
    w'.candidateEnabled seq c = w.candidateEnabled seq c := by
  rw [candidateEnabled, candidateEnabled, protocolEnabled_congr h]

theorem count_of_port (id id' : ℕ) (cs : List P2p.Candidate) (c : P2p.Candidate) :
    (cs.map (id', ·)).count (id, c) = if id' = id then cs.count c else 0 := by
  split_ifs with h
  · rw [h]
    exact List.count_map_of_injective _ _ (Prod.mk_right_injective id) c
  · rw [List.count_eq_zero]
    intro hmem
    obtain ⟨c', -, heq⟩ := List.mem_map.mp hmem
    exact h (congrArg Prod.fst heq)

theorem eq_of_id (h : (w.ports.map (·.port.id)).Nodup) {d d' : PortData} (hd : d ∈ w.ports)
    (hd' : d' ∈ w.ports) (hid : d.port.id = d'.port.id) : d = d' :=
  List.inj_on_of_nodup_map h hd hd' hid

/-- **An announcement**: of every candidate that may be announced now and could not be
before, as often as its port has it. -/
theorem tallied_announce (h : w.Tallied) (cs : List (ℕ × P2p.Candidate))
    (hids : w'.ports.map (·.port.id) = w.ports.map (·.port.id))
    (hports : ∀ d' ∈ w'.ports, ∃ d ∈ w.ports, d'.port = d.port ∧ d'.sequence = d.sequence ∧
      (∀ c, w.Open d c → w'.Open d' c) ∧ ∀ c, cs.count (d.port.id, c) =
        if w'.Open d' c ∧ ¬w.Open d c then d.port.candidates.count c else 0)
    (hcreated : w'.created = w.created) (hann : w'.announced = w.announced ++ cs)
    (henabled : ∀ seq c, w.candidateEnabled seq c = true → w'.candidateEnabled seq c = true)
    (hcs : ∀ a ∈ cs, ∃ d ∈ w.ports, d.port.id = a.1 ∧
      w'.candidateEnabled d.sequence a.2 = true) : w'.Tallied := by
  refine ⟨hids ▸ h.nodup, ?_, ?_, ?_, ?_⟩
  · intro d' hd'
    obtain ⟨d, hd, hport, hseq, -⟩ := hports d' hd'
    rw [hport, hseq, hcreated]
    exact h.owner d hd
  · intro a ha
    rw [hann] at ha
    rw [hcreated]
    rcases List.mem_append.mp ha with ha | ha
    · obtain ⟨seq, kind, hseq, hold⟩ := h.enabled a ha
      exact ⟨seq, kind, hseq, henabled _ _ hold⟩
    · obtain ⟨d, hd, hid, hnew⟩ := hcs a ha
      obtain ⟨kind, hkind⟩ := h.owner d hd
      exact ⟨d.sequence, kind, hid ▸ hkind, hnew⟩
  · intro d' hd' c
    obtain ⟨d, hd, hport, -, hkeep, hcount⟩ := hports d' hd'
    rw [hann, List.count_append, hport, h.count d hd c, hcount c]
    by_cases hold : w.Open d c
    · rw [if_pos hold, if_neg fun hc => hc.2 hold, if_pos (hkeep c hold), Nat.add_zero]
    · by_cases hnew : w'.Open d' c
      · -- it is announced now, and it is there once
        have hproto : (stringToProto c.protocol).isSome = true := by
          have hen := hnew.2
          rw [candidateEnabled, Option.any_eq_true] at hen
          obtain ⟨p, hp, -⟩ := hen
          exact hp ▸ rfl
        have hle := h.waiting d hd c hproto hold
        rw [if_neg hold, if_pos ⟨hnew, hold⟩, if_pos hnew]
        omega
      · rw [if_neg hold, if_neg fun hc => hnew hc.1, if_neg hnew]
  · intro d' hd' c hproto hnot
    obtain ⟨d, hd, hport, -, hkeep, -⟩ := hports d' hd'
    rw [hport]
    exact h.waiting d hd c hproto fun hold => hnot (hkeep c hold)

theorem tallied_onAddressReady (h : w.Tallied) (id : ℕ) : (w.onAddressReady id).Tallied := by
  rw [onAddressReady]
  cases hfind : w.ports.find? (·.port.id = id) with
  | none => exact h
  | some d₀ =>
    have hd₀ : d₀ ∈ w.ports := List.mem_of_find?_eq_some hfind
    have hid₀ : d₀.port.id = id := by simpa using List.find?_some hfind
    dsimp only
    split_ifs with hready
    · exact h
    generalize hcs : (d₀.port.candidates.filter ((w.setReady id).candidateEnabled
      d₀.sequence)).map (id, ·) = cs
    obtain ⟨hports, hcreated, hseqs⟩ := ports_signalCandidatesReady (w.setReady id) cs
    have hen : ∀ seq c, ((w.setReady id).signalCandidatesReady cs).candidateEnabled seq c =
        w.candidateEnabled seq c := candidateEnabled_congr hseqs
    have hcount : ∀ i c, cs.count (i, c) = if id = i then
        (d₀.port.candidates.filter ((w.setReady id).candidateEnabled d₀.sequence)).count c
        else 0 := by
      intro i c
      rw [← hcs]
      exact count_of_port i id _ c
    refine tallied_announce h cs ?_ ?_ hcreated ?_ (fun seq c hc => (hen seq c).trans hc) ?_
    · rw [hports]
      exact map_id_modifyPort w id fun _ => rfl
    · intro d' hd'
      rw [hports] at hd'
      rcases mem_modifyPort hd' with ⟨hd', hne⟩ | ⟨d, hd, hid, rfl⟩
      · refine ⟨d', hd', rfl, rfl, fun c hc => ⟨hc.1, (hen _ _).trans hc.2⟩, fun c => ?_⟩
        rw [hcount, if_neg (Ne.symm hne), if_neg]
        exact fun hc => hc.2 ⟨hc.1.1, (hen _ _).symm.trans hc.1.2⟩
      · have heq : d = d₀ := eq_of_id h.nodup hd hd₀ (hid.trans hid₀.symm)
        rw [heq]
        refine ⟨d₀, hd₀, rfl, rfl, fun c hc => ⟨rfl, (hen _ _).trans hc.2⟩, fun c => ?_⟩
        have hnot : ¬w.Open d₀ c := fun hc => hready hc.1
        rw [hid₀, hcount, if_pos rfl]
        cases hc : w.candidateEnabled d₀.sequence c with
        | true =>
          rw [List.count_filter (by exact hc), if_pos ⟨⟨rfl, (hen _ _).trans hc⟩, hnot⟩]
        | false =>
          have hshut := (hen d₀.sequence c).trans hc
          rw [if_neg fun ho => absurd (hshut.symm.trans ho.1.2) Bool.false_ne_true,
            List.count_eq_zero]
          intro hmem
          have htrue : w.candidateEnabled d₀.sequence c = true := (List.mem_filter.mp hmem).2
          exact absurd (htrue.symm.trans hc) (by decide)
    · rw [announced_signalCandidatesReady, setReady, announced, announced, List.flatMap_append]
      exact congrArg (· ++ cs) (List.append_nil _)
    · intro a ha
      rw [← hcs] at ha
      obtain ⟨c, hc, rfl⟩ := List.mem_map.mp ha
      refine ⟨d₀, hd₀, hid₀, (hen _ _).trans ?_⟩
      exact (List.mem_filter.mp hc).2

/-! ### A protocol is enabled -/

theorem count_flatMap_ports (l : List PortData) (P : PortData → Bool)
    (f : PortData → List P2p.Candidate) (hl : (l.map (·.port.id)).Nodup) {d : PortData}
    (hd : d ∈ l) (c : P2p.Candidate) :
    ((l.filter P).flatMap fun d => (f d).map (d.port.id, ·)).count (d.port.id, c) =
      if P d = true then (f d).count c else 0 := by
  induction l with
  | nil => exact absurd hd List.not_mem_nil
  | cons x l ih =>
    rw [List.map_cons, List.nodup_cons] at hl
    -- the candidates of the first port, and those of the others
    have hfirst : ∀ m : List (ℕ × P2p.Candidate),
        ((if P x = true then (f x).map (x.port.id, ·) else []) ++ m).count (d.port.id, c) =
          (if P x = true ∧ x.port.id = d.port.id then (f x).count c else 0) +
            m.count (d.port.id, c) := by
      intro m
      rw [List.count_append]
      by_cases hx : P x = true
      · rw [if_pos hx, count_of_port]
        simp only [hx, true_and]
      · rw [if_neg hx, List.count_nil, if_neg fun hc => hx hc.1]
    have hcons : ((x :: l).filter P).flatMap (fun d => (f d).map (d.port.id, ·)) =
        (if P x = true then (f x).map (x.port.id, ·) else []) ++
          (l.filter P).flatMap fun d => (f d).map (d.port.id, ·) := by
      rw [List.filter_cons]
      split_ifs <;> rfl
    rw [hcons, hfirst]
    rcases List.mem_cons.mp hd with rfl | hd
    · have hrest : ((l.filter P).flatMap fun d => (f d).map (d.port.id, ·)).count
          (d.port.id, c) = 0 := by
        rw [List.count_eq_zero]
        intro hmem
        obtain ⟨d', hd', hmem⟩ := List.mem_flatMap.mp hmem
        obtain ⟨c', -, heq⟩ := List.mem_map.mp hmem
        have hid : d'.port.id = d.port.id := congrArg Prod.fst heq
        apply hl.1
        rw [← hid]
        exact List.mem_map_of_mem (List.mem_of_mem_filter hd')
      rw [hrest, Nat.add_zero]
      simp only [and_true]
    · have hne : ¬x.port.id = d.port.id := by
        intro heq
        apply hl.1
        rw [heq]
        exact List.mem_map_of_mem hd
      rw [if_neg fun hc => hne hc.2, Nat.zero_add, ih hl.2 hd]

theorem protocolEnabled_modify (w : AllocatorSession) {seq : ℕ} (proto : ProtocolType)
    (hseq : seq < w.sequences.length) (i : ℕ) (p : ProtocolType) :
    (w.pushProtocol seq proto).protocolEnabled i p =
      (w.protocolEnabled i p || decide (i = seq ∧ p = proto)) := by
  rw [protocolEnabled, protocolEnabled, pushProtocol, List.getElem?_modify]
  by_cases hi : seq = i
  · rw [← hi, List.getElem?_eq_getElem hseq]
    simp [eq_comm]
  · cases w.sequences[i]? with
    | none => simp [Ne.symm hi]
    | some q => simp [hi, Ne.symm hi]

theorem candidateEnabled_modify (w : AllocatorSession) {seq : ℕ} (proto : ProtocolType)
    (hseq : seq < w.sequences.length) (i : ℕ) (c : P2p.Candidate) :
    (w.pushProtocol seq proto).candidateEnabled i c =
      (w.candidateEnabled i c ||
        decide (i = seq ∧ stringToProto c.protocol = some proto)) := by
  rw [candidateEnabled, candidateEnabled]
  cases stringToProto c.protocol with
  | none => simp
  | some p =>
    rw [Option.any_some, Option.any_some, protocolEnabled_modify w proto hseq]
    simp only [Option.some_inj]

theorem tallied_enableProtocol (h : w.Tallied) {seq : ℕ} (proto : ProtocolType)
    (hseq : seq < w.sequences.length) : (w.enableProtocol seq proto).Tallied := by
  rw [enableProtocol]
  split_ifs with hold
  · exact h
  rw [onProtocolEnabled]
  generalize hcs : ((w.pushProtocol seq proto).ports.filter fun d =>
    d.ready ∧ d.sequence = seq).flatMap (fun d => (d.port.candidates.filter
      (stringToProto ·.protocol = some proto)).map (d.port.id, ·)) = cs
  obtain ⟨hports, hcreated, hseqs⟩ := ports_signalCandidatesReady (w.pushProtocol seq proto) cs
  have hen : ∀ i c, ((w.pushProtocol seq proto).signalCandidatesReady cs).candidateEnabled i c =
      (w.candidateEnabled i c || decide (i = seq ∧ stringToProto c.protocol = some proto)) :=
    fun i c => (candidateEnabled_congr hseqs i c).trans (candidateEnabled_modify w proto hseq i c)
  have hcount : ∀ d ∈ w.ports, ∀ c, cs.count (d.port.id, c) =
      if d.ready = true ∧ d.sequence = seq then
        (d.port.candidates.filter (stringToProto ·.protocol = some proto)).count c else 0 := by
    intro d hd c
    rw [← hcs]
    refine (count_flatMap_ports w.ports _
      (fun d => d.port.candidates.filter (stringToProto ·.protocol = some proto)) h.nodup hd
      c).trans ?_
    simp only [decide_eq_true_eq]
  -- what may be announced now and could not be
  have hnew : ∀ d c, ((w.pushProtocol seq proto).signalCandidatesReady cs).Open d c ∧
      ¬w.Open d c ↔
      (d.ready = true ∧ d.sequence = seq) ∧ stringToProto c.protocol = some proto := by
    intro d c
    rw [Open, Open, hen, Bool.or_eq_true, decide_eq_true_eq]
    constructor
    · rintro ⟨⟨hready, hc | hc⟩, hnot⟩
      · exact absurd ⟨hready, hc⟩ hnot
      · exact ⟨⟨hready, hc.1⟩, hc.2⟩
    · rintro ⟨⟨hready, hs⟩, hp⟩
      refine ⟨⟨hready, .inr ⟨hs, hp⟩⟩, fun ho => hold ?_⟩
      have hc := ho.2
      rw [candidateEnabled, hp, hs] at hc
      exact hc
  refine tallied_announce h cs (by rw [hports]; rfl) ?_ hcreated ?_ ?_ ?_
  · intro d hd
    rw [hports] at hd
    refine ⟨d, hd, rfl, rfl, fun c hc => ⟨hc.1, ?_⟩, fun c => ?_⟩
    · rw [hen, hc.2, Bool.true_or]
    · rw [hcount d hd c]
      simp only [hnew]
      by_cases hd' : d.ready = true ∧ d.sequence = seq
      · by_cases hp : stringToProto c.protocol = some proto
        · rw [if_pos hd', if_pos ⟨hd', hp⟩]
          exact List.count_filter (decide_eq_true hp)
        · rw [if_pos hd', if_neg fun hc => hp hc.2, List.count_eq_zero]
          exact fun hmem => hp (of_decide_eq_true (List.mem_filter.mp hmem).2)
      · rw [if_neg hd', if_neg fun hc => hd' hc.1]
  · rw [announced_signalCandidatesReady]
    rfl
  · intro i c hc
    rw [hen, hc, Bool.true_or]
  · intro a ha
    rw [← hcs] at ha
    obtain ⟨d, hd, ha⟩ := List.mem_flatMap.mp ha
    obtain ⟨c, hc, rfl⟩ := List.mem_map.mp ha
    have hdseq := of_decide_eq_true (List.mem_filter.mp hd).2
    refine ⟨d, List.mem_of_mem_filter hd, rfl, ?_⟩
    rw [hen, Bool.or_eq_true]
    exact .inr (decide_eq_true ⟨hdseq.2, of_decide_eq_true (List.mem_filter.mp hc).2⟩)

/-! ### The other steps -/

theorem tallied_onPortDestroyed (h : w.Tallied) (id : ℕ) : (w.onPortDestroyed id).Tallied :=
  ⟨h.nodup.sublist (List.filter_sublist.map _),
    fun d hd => h.owner d (List.mem_of_mem_filter hd), h.enabled,
    fun d hd => h.count d (List.mem_of_mem_filter hd),
    fun d hd => h.waiting d (List.mem_of_mem_filter hd)⟩

theorem tallied_addAddress (h : w.Tallied) {id : ℕ} {address : P2p.SocketAddress}
    {protocol : List Byte} (hfits : w.Fits id address protocol) (final : Bool) :
    (w.addAddress id address protocol final).Tallied := by
  have haddress := tallied_address h hfits
  rw [addAddress]
  split_ifs
  · exact tallied_onAddressReady haddress id
  · exact haddress

theorem tallied_addExternalAddress (h : w.Tallied) {id : ℕ} {addr : ProtocolAddress}
    (hfits : (∃ d ∈ w.ports, d.port.id = id ∧
      d.port.redundant addr.address (protoToString addr.proto) = false) →
        w.Fits id addr.address (protoToString addr.proto)) :
    (w.addExternalAddress id addr).Tallied := by
  rw [addExternalAddress]
  cases hfind : w.ports.find? (·.port.id = id) with
  | none => exact h
  | some d =>
    have hd : d ∈ w.ports := List.mem_of_find?_eq_some hfind
    have hid : d.port.id = id := by simpa using List.find?_some hfind
    dsimp only
    split_ifs with hred
    · exact h
    · exact tallied_addAddress h (hfits ⟨d, hd, hid, Bool.eq_false_iff.mpr hred⟩) false

/-- A port that is not ready, which no address makes ready by itself. -/
def Unready (w : AllocatorSession) (id : ℕ) : Prop :=
  ∀ d ∈ w.ports, d.port.id = id → d.ready = false

theorem tallied_external (h : w.Tallied) {id : ℕ} (hready : w.Unready id)
    (addrs : List ProtocolAddress) :
    (addrs.foldl (fun w addr => w.addExternalAddress id addr) w).Tallied := by
  induction addrs generalizing w with
  | nil => exact h
  | cons addr addrs ih =>
    rw [List.foldl_cons]
    refine ih (tallied_addExternalAddress h ?_) ?_
    · rintro ⟨d₀, hd₀, hid₀, hred⟩ d hd hid -
      have heq : d = d₀ := eq_of_id h.nodup hd hd₀ (hid.trans hid₀.symm)
      refine iff_of_false (fun hmem => ?_) fun ho => ?_
      · -- a candidate that is there makes the address redundant
        rw [Port.redundant, List.any_eq_false, ← heq] at hred
        exact hred _ hmem (decide_eq_true ⟨P2p.SocketAddress.eqv_refl _, rfl⟩)
      · exact absurd (ho.1.symm.trans (hready d hd hid)) (by decide)
    · intro d hd hid
      rw [addExternalAddress] at hd
      cases hfind : w.ports.find? (·.port.id = id) with
      | none =>
        rw [hfind] at hd
        exact hready d hd hid
      | some d₀ =>
        rw [hfind] at hd
        dsimp only at hd
        split_ifs at hd
        · exact hready d hd hid
        · rcases mem_modifyPort hd with ⟨hd, -⟩ | ⟨d₁, hd₁, hid₁, rfl⟩
          · exact hready d hd hid
          · exact hready d₁ hd₁ hid₁

theorem tallied_newPort (h : w.Tallied) (seq : ℕ) (kind : PortKind) (made : Made) :
    (addAllocatedPort { w with created := w.created ++ [(seq, kind)] } seq w.created.length
      made).Tallied ∧
      Unready (addAllocatedPort { w with created := w.created ++ [(seq, kind)] } seq
        w.created.length made) w.created.length := by
  have hlt : ∀ d ∈ w.ports, d.port.id < w.created.length := by
    intro d hd
    obtain ⟨kind, hkind⟩ := h.owner d hd
    exact (List.getElem?_eq_some_iff.mp hkind).1
  have hkeep : ∀ (i : ℕ) (e : ℕ × PortKind), w.created[i]? = some e →
      (w.created ++ [(seq, kind)])[i]? = some e := by
    intro i e he
    rw [List.getElem?_append_left (List.getElem?_eq_some_iff.mp he).1]
    exact he
  have hmem : ∀ d ∈ w.ports ++ [⟨⟨w.created.length, made.base, []⟩, seq, false⟩],
      d ∈ w.ports ∨ d = ⟨⟨w.created.length, made.base, []⟩, seq, false⟩ := by
    intro d hd
    rcases List.mem_append.mp hd with hd | hd
    · exact .inl hd
    · exact .inr (List.mem_singleton.mp hd)
  refine ⟨⟨?_, ?_, ?_, ?_, ?_⟩, ?_⟩
  · show ((w.ports ++ [_]).map _).Nodup
    rw [List.map_append, List.map_singleton, List.nodup_append]
    refine ⟨h.nodup, List.nodup_singleton _, fun i hi j hj => ?_⟩
    obtain ⟨d, hd, rfl⟩ := List.mem_map.mp hi
    rw [List.mem_singleton.mp hj]
    exact Nat.ne_of_lt (hlt d hd)
  · intro d hd
    rcases hmem d hd with hd | rfl
    · obtain ⟨k, hk⟩ := h.owner d hd
      exact ⟨k, hkeep _ _ hk⟩
    · exact ⟨kind, List.getElem?_concat_length⟩
  · intro a ha
    obtain ⟨s, k, hs, hen⟩ := h.enabled a ha
    exact ⟨s, k, hkeep _ _ hs, hen⟩
  · intro d hd c
    rcases hmem d hd with hd | rfl
    · exact h.count d hd c
    · -- nothing was announced of a port that was not there
      have hno : (w.created.length, c) ∉ w.announced := by
        intro ha
        obtain ⟨s, k, hs, -⟩ := h.enabled _ ha
        exact absurd (List.getElem?_eq_some_iff.mp hs).1 (Nat.lt_irrefl _)
      show w.announced.count (w.created.length, c) = _
      rw [List.count_eq_zero.mpr hno, if_neg]
      exact fun ho => absurd ho.1 Bool.false_ne_true
  · intro d hd c hproto hnot
    rcases hmem d hd with hd | rfl
    · exact h.waiting d hd c hproto hnot
    · exact Nat.zero_le _
  · intro d hd hid
    rcases hmem d hd with hd | rfl
    · exact absurd hid (Nat.ne_of_lt (hlt d hd))
    · rfl

theorem tallied_noPort (h : w.Tallied) (e : ℕ × PortKind) :
    Tallied { w with created := w.created ++ [e] } := by
  have hkeep : ∀ (i : ℕ) (e' : ℕ × PortKind), w.created[i]? = some e' →
      (w.created ++ [e])[i]? = some e' := by
    intro i e' he
    rw [List.getElem?_append_left (List.getElem?_eq_some_iff.mp he).1]
    exact he
  refine ⟨h.nodup, fun d hd => ?_, fun a ha => ?_, h.count, h.waiting⟩
  · obtain ⟨k, hk⟩ := h.owner d hd
    exact ⟨k, hkeep _ _ hk⟩
  · obtain ⟨s, k, hs, hen⟩ := h.enabled a ha
    exact ⟨s, k, hkeep _ _ hs, hen⟩

theorem tallied_createPort (h : w.Tallied) (seq : ℕ) (kind : PortKind)
    {andThen : ℕ → Made → AllocatorSession → AllocatorSession}
    (hthen : ∀ id made (w : AllocatorSession), w.Tallied →
      (∀ d ∈ w.ports, d.port.id = id → d.ready = false ∧ d.port.candidates = []) →
        (andThen id made w).Tallied) : (w.createPort make seq kind andThen).Tallied := by
  rw [createPort]
  split
  · exact tallied_noPort h (seq, kind)
  · rename_i made _
    obtain ⟨htallied, hready⟩ := tallied_newPort h seq kind made
    refine hthen _ _ _ htallied fun d hd hid => ⟨hready d hd hid, ?_⟩
    rcases List.mem_append.mp hd with hd | hd
    · obtain ⟨k, hk⟩ := h.owner d hd
      rw [hid] at hk
      exact absurd (List.getElem?_eq_some_iff.mp hk).1 (Nat.lt_irrefl _)
    · rw [List.mem_singleton.mp hd]

theorem tallied_prepareAddress (h : w.Tallied) {id : ℕ} (made : Made) (protocol : List Byte)
    (hnew : ∀ d ∈ w.ports, d.port.id = id → d.ready = false ∧ d.port.candidates = []) :
    (w.prepareAddress id made protocol).Tallied := by
  rw [prepareAddress]
  split
  · exact h
  · refine tallied_addAddress h (fun d hd hid _ => ?_) true
    obtain ⟨hready, hnil⟩ := hnew d hd hid
    refine iff_of_false (fun hmem => ?_) fun ho => absurd (hready.symm.trans ho.1) (by decide)
    rw [hnil] at hmem
    exact absurd hmem List.not_mem_nil

theorem tallied_createUDPPorts (h : w.Tallied) (seq : ℕ) (q : AllocationSequence) :
    (w.createUDPPorts make seq q).Tallied := by
  rw [createUDPPorts]
  split_ifs
  · exact h
  · exact tallied_createPort h seq .udp fun _ made w hw => tallied_prepareAddress hw made _

theorem tallied_createTCPPorts (h : w.Tallied) (seq : ℕ) (q : AllocationSequence) :
    (w.createTCPPorts make seq q).Tallied := by
  rw [createTCPPorts]
  split_ifs
  · exact h
  · exact tallied_createPort h seq .tcp fun _ made w hw => tallied_prepareAddress hw made _

theorem tallied_createStunPorts (h : w.Tallied) (seq : ℕ) (q : AllocationSequence) :
    (w.createStunPorts make seq q).Tallied := by
  rw [createStunPorts]
  split_ifs
  · exact h
  · split
    · exact h
    · split_ifs
      · exact h
      · exact tallied_createPort h seq .stun fun _ _ w hw _ => hw

theorem tallied_createRelayPorts (h : w.Tallied) (seq : ℕ) (q : AllocationSequence) :
    (w.createRelayPorts make seq q).Tallied := by
  rw [createRelayPorts]
  split_ifs
  · exact h
  · split
    · exact h
    · rename_i config _
      generalize config.relays = relays
      induction relays generalizing w with
      | nil => exact h
      | cons relay relays ih =>
        rw [List.foldl_cons]
        refine ih (tallied_createPort h seq .relay fun id _ w hw hnew => ?_)
        exact tallied_external hw (fun d hd hid => (hnew d hd hid).1) relay.ports

theorem tallied_performPhase (h : w.Tallied) {seq : ℕ} {q : AllocationSequence}
    (hq : w.plan[seq]? = some q.settled) (phase : Phase) :
    (w.performPhase make seq q phase).Tallied := by
  have hlen : ∀ {w' : AllocatorSession}, Frame w w' → seq < w'.sequences.length := by
    intro w' hframe
    have hlt := (List.getElem?_eq_some_iff.mp (hframe.plan.symm ▸ hq)).1
    rw [plan, List.length_map] at hlt
    exact hlt
  cases phase with
  | udp =>
    have hudp := @frame_createUDPPorts make _ _ _ hq
    have hstun := @frame_createStunPorts make _ _ _ (by rw [hudp.plan]; exact hq)
    have htallied := @tallied_createStunPorts make _
      (@tallied_createUDPPorts make _ h seq q) seq q
    exact tallied_enableProtocol htallied .udp (hlen (hudp.trans hstun))
  | relay => exact tallied_createRelayPorts h seq q
  | tcp =>
    exact tallied_enableProtocol (tallied_createTCPPorts h seq q) .tcp
      (hlen (frame_createTCPPorts hq))
  | ssltcp => exact tallied_enableProtocol h .ssltcp (hlen (.refl w))

theorem Tallied.of_sequences (h : w.Tallied) {l : List AllocationSequence}
    (hl : l.map (·.protocols) = w.sequences.map (·.protocols)) :
    Tallied { w with sequences := l } := by
  refine h.of_eq rfl rfl rfl fun seq proto => ?_
  have hget := congrArg (fun m => m[seq]?.any (proto ∈ ·)) hl
  simp only [List.getElem?_map, Option.any_map] at hget
  exact hget

theorem map_protocols_modify (l : List AllocationSequence) (seq : ℕ)
    (f : AllocationSequence → AllocationSequence) (hf : ∀ q, (f q).protocols = q.protocols) :
    (l.modify seq f).map (·.protocols) = l.map (·.protocols) := by
  apply List.ext_getElem?
  intro i
  rw [List.getElem?_map, List.getElem?_map, List.getElem?_modify]
  cases l[i]? with
  | none => rfl
  | some q =>
    by_cases hi : seq = i
    · simp [hi, hf]
    · simp [hi]

theorem tallied_onMessage (h : w.Tallied) (seq : ℕ) : (w.onMessage make seq).Tallied := by
  rw [onMessage]
  cases hq : w.sequences[seq]? with
  | none => exact h
  | some q =>
    have hplan : w.plan[seq]? = some q.settled := by rw [plan, List.getElem?_map, hq]; rfl
    have hphase : ∀ w₁ phase, w₁.Tallied ∧ Frame w w₁ →
        Tallied (if q.stepOfPhase phase = q.step then w₁.performPhase make seq q phase else w₁) ∧
          Frame w (if q.stepOfPhase phase = q.step
            then w₁.performPhase make seq q phase else w₁) := by
      rintro w₁ phase ⟨h₁, hframe⟩
      have hq₁ : w₁.plan[seq]? = some q.settled := by rw [hframe.plan]; exact hplan
      split_ifs
      · exact ⟨tallied_performPhase h₁ hq₁ phase, hframe.trans (frame_performPhase hq₁ phase)⟩
      · exact ⟨h₁, hframe⟩
    have hphases := hphase _ .ssltcp (hphase _ .tcp (hphase _ .relay
      (hphase w .udp ⟨h, .refl w⟩)))
    exact hphases.1.of_sequences (map_protocols_modify _ seq _ fun _ => rfl)

theorem tallied_addSequence (h : w.Tallied) {q : AllocationSequence} (hq : q.protocols = []) :
    (w.addSequence make q).Tallied := by
  have hnew : Tallied { w with sequences := w.sequences ++ [q] } := by
    refine h.of_eq rfl rfl rfl fun seq proto => ?_
    rw [protocolEnabled, protocolEnabled, List.getElem?_append]
    split_ifs with hlt
    · rfl
    · rw [List.getElem?_eq_none (Nat.le_of_not_lt hlt)]
      cases hget : [q][seq - w.sequences.length]? with
      | none => rfl
      | some q' =>
        obtain ⟨hi, hq'⟩ := List.getElem?_eq_some_iff.mp hget
        rw [List.getElem_singleton] at hq'
        simp [← hq', hq]
  rw [addSequence]
  have hmessage := @tallied_onMessage make _ hnew w.sequences.length
  split_ifs
  · exact hmessage.of_sequences (map_protocols_modify _ _ _ fun _ => rfl)
  · exact hmessage

theorem tallied_doAllocate (h : w.Tallied) (networks : List Network) (best : ℤ) :
    (w.doAllocate make networks best).Tallied := by
  induction networks generalizing w with
  | nil => exact h
  | cons n networks ih =>
    refine ih ?_
    rw [allocateNetwork]
    split_ifs
    · exact h
    · exact tallied_addSequence h rfl

theorem tallied_step (h : w.Tallied) (e : AllocatorEvent) (ht : w.Timely e) :
    (w.step make e).Tallied := by
  cases e with
  | configReady config => exact h.of_eq rfl rfl rfl fun _ _ => rfl
  | networksChanged networks best =>
    have hw : Tallied { w with network_manager_started := true } :=
      h.of_eq rfl rfl rfl fun _ _ => rfl
    rw [step]
    dsimp only
    split_ifs
    · exact tallied_doAllocate hw networks best
    · exact hw
  | startGetAllPorts =>
    have hseqs := h.of_sequences (l := w.sequences.map fun q => { q with running := true })
      (by rw [List.map_map]; rfl)
    exact hseqs.of_eq rfl rfl rfl fun _ _ => rfl
  | stopGetAllPorts =>
    have hseqs := h.of_sequences (l := w.sequences.map fun q => { q with running := false })
      (by rw [List.map_map]; rfl)
    exact hseqs.of_eq rfl rfl rfl fun _ _ => rfl
  | allocate networks best =>
    rw [step]
    split_ifs
    · exact (@tallied_doAllocate make _ h networks best).of_eq rfl rfl rfl fun _ _ => rfl
    · exact h.of_eq rfl rfl rfl fun _ _ => rfl
  | allocationPhase seq => exact tallied_onMessage h seq
  | addAddress port address protocol final => exact tallied_addAddress h ht final
  | addExternalAddress port addr => exact tallied_addExternalAddress h ht
  | addressReady port => exact tallied_onAddressReady h port
  | portDestroyed port => exact tallied_onPortDestroyed h port

theorem tallied_run (es : List AllocatorEvent) (h : w.Tallied) (ht : AllTimely make w es) :
    (w.run make es).Tallied := by
  induction es generalizing w with
  | nil => exact h
  | cons e es ih => exact ih (tallied_step h e ht.1) ht.2

/-- **Each candidate is announced once**, in a run whose addresses fit. -/
theorem announced_once (make : ℕ → Option Made) (flags : Flags) (es : List AllocatorEvent)
    (ht : AllTimely make (init flags) es) : ((init flags).run make es).Announces :=
  (tallied_run es (init_tallied flags) ht).announces

/-- A port whose address comes after it was made, and comes again. -/
theorem announced_once_repeated :
    ((init disableTcp).run (fun _ => some ⟨⟨[], [], ⟨[], 0, 0⟩, 1, [], [], [], [], 0⟩, none⟩)
      [.networksChanged [] 0, .allocate [⟨0, 7⟩] 0,
        .addAddress 0 ⟨[], 7, 1⟩ (textBytes "udp") true,
        .addAddress 0 ⟨[], 7, 1⟩ (textBytes "udp") true]).Announces :=
  announced_once _ _ _ ⟨trivial, trivial,
    (by decide : Fits _ 0 ⟨[], 7, 1⟩ (textBytes "udp")),
    (by decide : Fits _ 0 ⟨[], 7, 1⟩ (textBytes "udp")), trivial⟩

/-- **A second address of a port that is ready**: nobody is told. -/
theorem not_announces_second_address :
    ¬∀ (make : ℕ → Option Made) (flags : Flags) (es : List AllocatorEvent),
      ((init flags).run make es).Announces := by
  intro h
  have hrun := h (fun _ => some ⟨⟨[], [], ⟨[], 0, 0⟩, 1, [], [], [], [], 0⟩, none⟩)
    (disableUdp ||| disableTcp)
    [.networksChanged [] 0, .configReady (some ⟨⟨[], 9, 9⟩, []⟩), .allocate [⟨0, 7⟩] 0,
      .addAddress 0 ⟨[], 7, 1⟩ (textBytes "udp") true,
      .addAddress 0 ⟨[], 7, 2⟩ (textBytes "udp") true]
  exact absurd hrun.once (by decide)

end AllocatorSession

end Jingle.Client
