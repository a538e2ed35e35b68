/-
Answers to iq requests.

`Matched` says what the history of a dispatcher must look like: which answers the handlers
of requests are called with, and when.  It is carried by `Table`, which ties the entries
of the engine to the history: an entry is there from its request to its answer or its
removal.

* **`matched_run`** — the history of every run is `Matched`.
-/
import Jingle.Xmpp.Dispatch

namespace Jingle.Xmpp

open Signaling (Text QName)
open Xmllite

/-- The entries of the requests, in the order in which they were made. -/
def registrations (h : List DispatchMark) : List IqRegistration :=
  h.filterMap fun
    | .registered entry _ => some entry
    | _ => none

/-- The entries whose handlers were called. -/
def calledEntries (h : List DispatchMark) : List IqRegistration :=
  h.filterMap fun
    | .called entry _ _ => some entry
    | _ => none

/-- A stanza answers a request. -/
structure Answers (element stanza : XmlElement) : Prop where
  name : stanza.name = qnIq
  type : stanza.attr qnType = textBytes "result" ∨ stanza.attr qnType = textBytes "error"
  hasId : stanza.hasAttr qnId = true
  id : stanza.attr qnId = element.attr qnId
  from_ : stanza.attr qnFrom = element.attr qnTo

/-- **Answers are matched exactly**: each handler is called at most once, by a stanza that
answers its request, and not after it has been removed; the handlers of equal requests are
called in their order; and a stanza that a handler takes is not offered to others. -/
structure Matched (h : List DispatchMark) : Prop where
  numbered : (registrations h).Pairwise fun e e' => e.nr < e'.nr
  once : (calledEntries h).Nodup
  answers : ∀ entry stanza n, .called entry stanza n ∈ h →
    ∃ element, .registered entry element ∈ h ∧ entry.id = element.attr qnId ∧
      entry.to_ = element.attr qnTo ∧ Answers element stanza
  removed : ∀ pre post entry stanza n, h = pre ++ .called entry stanza n :: post →
    .removed entry ∉ pre
  inOrder : ∀ pre post e e' stanza n, h = pre ++ .called e' stanza n :: post →
    e ∈ registrations h → e.nr < e'.nr → e.id = e'.id → e.to_ = e'.to_ →
      .removed e ∈ pre ∨ e ∈ calledEntries pre
  apart : ∀ entry stanza n, .called entry stanza n ∈ h → ∀ level reg, .offered level reg n ∉ h

theorem mem_registrations {h : List DispatchMark} {e : IqRegistration} :
    e ∈ registrations h ↔ ∃ element, .registered e element ∈ h := by
  unfold registrations
  rw [List.mem_filterMap]
  constructor
  · rintro ⟨m, hm, heq⟩
    cases m with
    | registered entry element =>
      cases heq
      exact ⟨element, hm⟩
    | _ => cases heq
  · rintro ⟨element, hm⟩
    exact ⟨_, hm, rfl⟩

theorem mem_calledEntries {h : List DispatchMark} {e : IqRegistration} :
    e ∈ calledEntries h ↔ ∃ stanza n, .called e stanza n ∈ h := by
  unfold calledEntries
  rw [List.mem_filterMap]
  constructor
  · rintro ⟨m, hm, heq⟩
    cases m with
    | called entry stanza n =>
      cases heq
      exact ⟨stanza, n, hm⟩
    | _ => cases heq
  · rintro ⟨stanza, n, hm⟩
    exact ⟨_, hm, rfl⟩

theorem registrations_append (h h' : List DispatchMark) :
    registrations (h ++ h') = registrations h ++ registrations h' := List.filterMap_append

theorem calledEntries_append (h h' : List DispatchMark) :
    calledEntries (h ++ h') = calledEntries h ++ calledEntries h' := List.filterMap_append

theorem append_eq_split {α : Type} {h pre post : List α} {m x : α}
    (heq : h ++ [m] = pre ++ x :: post) :
    (pre = h ∧ x = m) ∨ ∃ post', h = pre ++ x :: post' := by
  rcases List.eq_nil_or_concat post with rfl | ⟨init, last, rfl⟩
  · obtain ⟨h1, h2⟩ := List.append_inj' heq rfl
    exact .inl ⟨h1.symm, (List.cons.inj h2).1.symm⟩
  · right
    refine ⟨init, ?_⟩
    rw [List.concat_eq_append, ← List.cons_append, ← List.append_assoc] at heq
    exact (List.append_inj' heq rfl).1

/-! ### One more mark -/

section Append

variable {h : List DispatchMark}

theorem Matched.append (hm : Matched h) {m : DispatchMark}
    (hno : ∀ entry stanza n, m ≠ .called entry stanza n)
    (hnew : ∀ entry element, m = .registered entry element →
      ∀ e ∈ registrations h, e.nr < entry.nr)
    (hoff : ∀ level reg n, m = .offered level reg n → ∀ entry stanza, .called entry stanza n ∉ h) :
    Matched (h ++ [m]) := by
  have hcalled : ∀ entry stanza n, DispatchMark.called entry stanza n ∈ h ++ [m] →
      .called entry stanza n ∈ h := by
    intro entry stanza n hmem
    rcases List.mem_append.mp hmem with hmem | hmem
    · exact hmem
    · exact absurd (List.mem_singleton.mp hmem).symm (hno entry stanza n)
  have hsplit : ∀ pre post entry stanza n, h ++ [m] = pre ++ .called entry stanza n :: post →
      ∃ post', h = pre ++ .called entry stanza n :: post' := by
    intro pre post entry stanza n heq
    rcases append_eq_split heq with ⟨-, hx⟩ | hpost
    · exact absurd hx.symm (hno entry stanza n)
    · exact hpost
  constructor
  · rw [registrations_append]
    refine List.pairwise_append.mpr ⟨hm.numbered, ?_, fun e he e' he' => ?_⟩
    · cases m <;> simp [registrations]
    · obtain ⟨element, hmem⟩ := mem_registrations.mp he'
      exact hnew e' element (List.mem_singleton.mp hmem).symm e he
  · rw [calledEntries_append]
    have hnil : calledEntries [m] = [] := by
      refine List.eq_nil_iff_forall_not_mem.mpr fun e he => ?_
      obtain ⟨stanza, n, hmem⟩ := mem_calledEntries.mp he
      exact hno e stanza n (List.mem_singleton.mp hmem).symm
    rw [hnil, List.append_nil]
    exact hm.once
  · intro entry stanza n hmem
    obtain ⟨element, hreg, hrest⟩ := hm.answers entry stanza n (hcalled _ _ _ hmem)
    exact ⟨element, List.mem_append_left _ hreg, hrest⟩
  · intro pre post entry stanza n heq
    obtain ⟨post', hpost⟩ := hsplit pre post entry stanza n heq
    exact hm.removed pre post' entry stanza n hpost
  · intro pre post e e' stanza n heq he hlt hid hto
    obtain ⟨post', hpost⟩ := hsplit pre post e' stanza n heq
    refine hm.inOrder pre post' e e' stanza n hpost ?_ hlt hid hto
    obtain ⟨element, hmem⟩ := mem_registrations.mp he
    rcases List.mem_append.mp hmem with hmem | hmem
    · exact mem_registrations.mpr ⟨element, hmem⟩
    · -- a new request comes after the one that was answered
      have hcall : DispatchMark.called e' stanza n ∈ h := by
        rw [hpost]
        exact List.mem_append_right _ List.mem_cons_self
      obtain ⟨element', hreg', -⟩ := hm.answers e' stanza n hcall
      have hlt' := hnew e element (List.mem_singleton.mp hmem).symm e'
        (mem_registrations.mpr ⟨element', hreg'⟩)
      omega
  · intro entry stanza n hmem level reg hoffered
    rcases List.mem_append.mp hoffered with hoffered | hoffered
    · exact hm.apart entry stanza n (hcalled _ _ _ hmem) level reg hoffered
    · exact hoff level reg n (List.mem_singleton.mp hoffered).symm entry stanza
        (hcalled _ _ _ hmem)

theorem Matched.append_called (hm : Matched h) {entry : IqRegistration} {stanza element : XmlElement}
    {n : ℕ} (hreg : .registered entry element ∈ h) (hid : entry.id = element.attr qnId)
    (hto : entry.to_ = element.attr qnTo) (ha : Answers element stanza)
    (hcalled : entry ∉ calledEntries h) (hremoved : .removed entry ∉ h)
    (hfirst : ∀ e ∈ registrations h, e.nr < entry.nr → e.id = entry.id → e.to_ = entry.to_ →
      .removed e ∈ h ∨ e ∈ calledEntries h)
    (hn : ∀ level reg, .offered level reg n ∉ h) :
    Matched (h ++ [.called entry stanza n]) := by
  have hregs : registrations (h ++ [.called entry stanza n]) = registrations h := by
    rw [registrations_append]
    exact List.append_nil _
  constructor
  · rw [hregs]
    exact hm.numbered
  · rw [calledEntries_append]
    refine List.nodup_append'.mpr ⟨hm.once, List.nodup_singleton _, fun e he he' => ?_⟩
    rw [List.mem_singleton.mp he'] at he
    exact hcalled he
  · intro e s k hmem
    rcases List.mem_append.mp hmem with hmem | hmem
    · obtain ⟨el, hel, hrest⟩ := hm.answers e s k hmem
      exact ⟨el, List.mem_append_left _ hel, hrest⟩
    · cases List.mem_singleton.mp hmem
      exact ⟨element, List.mem_append_left _ hreg, hid, hto, ha⟩
  · intro pre post e s k heq
    rcases append_eq_split heq with ⟨rfl, hx⟩ | ⟨post', hpost⟩
    · cases hx
      exact hremoved
    · exact hm.removed pre post' e s k hpost
  · intro pre post e e' s k heq he hlt hid hto
    rw [hregs] at he
    rcases append_eq_split heq with ⟨rfl, hx⟩ | ⟨post', hpost⟩
    · cases hx
      exact hfirst e he hlt hid hto
    · exact hm.inOrder pre post' e e' s k hpost he hlt hid hto
  · intro e s k hmem level reg hoffered
    have hoffered : .offered level reg k ∈ h := by
      rcases List.mem_append.mp hoffered with hoffered | hoffered
      · exact hoffered
      · cases List.mem_singleton.mp hoffered
    rcases List.mem_append.mp hmem with hmem | hmem
    · exact hm.apart e s k hmem level reg hoffered
    · cases List.mem_singleton.mp hmem
      exact hn level reg hoffered

end Append

/-! ### The entries and the history -/

namespace Dispatcher

variable {E : Expat} {S : SaslHandler}

/-- **The invariant**: the entries are the requests that are neither answered nor removed. -/
structure Table (d : Dispatcher E S) : Prop where
  matched : Matched d.history
  sorted : d.iqEntries.Pairwise fun e e' => e.nr < e'.nr
  bounded : ∀ e ∈ registrations d.history, e.nr < d.nextNr
  listed : ∀ e ∈ d.iqEntries, ∃ element, .registered e element ∈ d.history ∧
    e.id = element.attr qnId ∧ e.to_ = element.attr qnTo
  pending : ∀ e ∈ d.iqEntries, e ∉ calledEntries d.history ∧ .removed e ∉ d.history
  settled : ∀ e ∈ registrations d.history,
    e ∈ d.iqEntries ∨ .removed e ∈ d.history ∨ e ∈ calledEntries d.history
  known : ∀ e, .removed e ∈ d.history → e ∈ registrations d.history
  answered : ∀ entry stanza n, .called entry stanza n ∈ d.history → n ≤ d.received
  offered : ∀ level reg n, .offered level reg n ∈ d.history → n ≤ d.received

theorem eraseP_of_find? {l : List IqRegistration} {p : IqRegistration → Bool}
    {entry : IqRegistration} (h : l.find? p = some entry) :
    ∃ before after, l = before ++ entry :: after ∧ p entry = true ∧
      (∀ e ∈ before, p e = false) ∧ l.eraseP p = before ++ after := by
  obtain ⟨hp, before, after, rfl, hbefore⟩ := List.find?_eq_some_iff_append.mp h
  have hno : ∀ e ∈ before, p e = false := fun e he => by simpa using hbefore e he
  refine ⟨before, after, rfl, hp, hno, ?_⟩
  rw [List.eraseP_append_right _ (fun e he => by simp [hno e he]), List.eraseP_cons_of_pos hp]

section Steps

variable {d : Dispatcher E S}

theorem Table.of_eq {d' : Dispatcher E S} (h : Table d) (hh : d'.history = d.history)
    (he : d'.iqEntries = d.iqEntries) (hn : d.nextNr ≤ d'.nextNr)
    (hr : d.received ≤ d'.received) : Table d' where
  matched := by rw [hh]; exact h.matched
  sorted := by rw [he]; exact h.sorted
  bounded := by rw [hh]; exact fun e hmem => (h.bounded e hmem).trans_le hn
  listed := by rw [hh, he]; exact h.listed
  pending := by rw [hh, he]; exact h.pending
  settled := by rw [hh, he]; exact h.settled
  known := by rw [hh]; exact h.known
  answered := by rw [hh]; exact fun e s n hmem => (h.answered e s n hmem).trans hr
  offered := by rw [hh]; exact fun l r n hmem => (h.offered l r n hmem).trans hr

theorem Table.mem_registrations (h : Table d) {e : IqRegistration} (he : e ∈ d.iqEntries) :
    e ∈ registrations d.history := by
  obtain ⟨element, hmem, -⟩ := h.listed e he
  exact Xmpp.mem_registrations.mpr ⟨element, hmem⟩

theorem Table.register (h : Table d) (element : XmlElement) (handler cookie : ℕ) :
    Table (d.register (d.entryOf element handler cookie) element) := by
  set entry := d.entryOf element handler cookie with hentry
  have hnr : entry.nr = d.nextNr := rfl
  have hfresh : entry ∉ registrations d.history := fun hmem => by
    have hlt := h.bounded entry hmem
    omega
  have hregs : registrations (d.history ++ [.registered entry element]) =
      registrations d.history ++ [entry] := registrations_append _ _
  have hcalls : calledEntries (d.history ++ [.registered entry element]) =
      calledEntries d.history := by
    rw [calledEntries_append]
    exact List.append_nil _
  have hremoved : ∀ {e}, .removed e ∈ d.history ++ [DispatchMark.registered entry element] ↔
      .removed e ∈ d.history := by
    intro e
    simp
  constructor
  · refine h.matched.append (by simp) (fun e el heq e' he' => ?_) (by simp)
    cases heq
    exact (h.bounded e' he').trans_eq hnr.symm
  · refine List.pairwise_append.mpr ⟨h.sorted, List.pairwise_singleton _ _, fun e he e' he' => ?_⟩
    rw [List.mem_singleton.mp he', hnr]
    exact h.bounded e (h.mem_registrations he)
  · intro e he
    have he : e ∈ registrations d.history ++ [entry] := hregs ▸ he
    show e.nr < d.nextNr + 1
    rcases List.mem_append.mp he with he | he
    · have hlt := h.bounded e he
      omega
    · rw [List.mem_singleton.mp he]
      omega
  · intro e he
    rcases List.mem_append.mp he with he | he
    · obtain ⟨el, hmem, hrest⟩ := h.listed e he
      exact ⟨el, List.mem_append_left _ hmem, hrest⟩
    · rw [List.mem_singleton.mp he]
      exact ⟨element, List.mem_append_right _ (List.mem_singleton_self _), rfl, rfl⟩
  · intro e he
    show e ∉ calledEntries (d.history ++ _) ∧ _ ∉ d.history ++ _
    rw [hcalls, hremoved]
    rcases List.mem_append.mp he with he | he
    · exact h.pending e he
    · rw [List.mem_singleton.mp he]
      refine ⟨fun hmem => hfresh ?_, fun hmem => hfresh (h.known entry hmem)⟩
      obtain ⟨stanza, n, hmem⟩ := mem_calledEntries.mp hmem
      obtain ⟨el, hreg, -⟩ := h.matched.answers entry stanza n hmem
      exact Xmpp.mem_registrations.mpr ⟨el, hreg⟩
  · intro e he
    show e ∈ d.iqEntries ++ [entry] ∨ _ ∈ d.history ++ _ ∨ e ∈ calledEntries (d.history ++ _)
    rw [hcalls, hremoved]
    have he : e ∈ registrations d.history ++ [entry] := hregs ▸ he
    rcases List.mem_append.mp he with he | he
    · exact (h.settled e he).imp_left fun he => List.mem_append_left _ he
    · exact .inl (List.mem_append_right _ he)
  · intro e he
    show e ∈ registrations (d.history ++ _)
    rw [hregs]
    exact List.mem_append_left _ (h.known e (hremoved.mp he))
  · intro e stanza n hmem
    refine h.answered e stanza n ?_
    simpa [Dispatcher.register, mark, withEntries] using hmem
  · intro level reg n hmem
    refine h.offered level reg n ?_
    simpa [Dispatcher.register, mark, withEntries] using hmem

theorem Table.erase (h : Table d) {p : IqRegistration → Bool} {entry : IqRegistration}
    (hf : d.iqEntries.find? p = some entry) {m : DispatchMark} {r : ℕ} (hr : d.received ≤ r)
    (hmatched : Matched (d.history ++ [m]))
    (hm : m = .removed entry ∨ ∃ stanza, m = .called entry stanza r) :
    Table (({ d with received := r }.withEntries (d.iqEntries.eraseP p)).mark m) := by
  obtain ⟨before, after, hsplit, -, -, herase⟩ := eraseP_of_find? hf
  have hsub : (before ++ after).Sublist d.iqEntries := by
    rw [hsplit]
    exact List.Sublist.append (List.Sublist.refl _) (List.sublist_cons_self _ _)
  have hregs : registrations (d.history ++ [m]) = registrations d.history := by
    rw [registrations_append]
    rcases hm with rfl | ⟨stanza, rfl⟩ <;> exact List.append_nil _
  have hentry : entry ∈ d.iqEntries := List.mem_of_find?_eq_some hf
  have hne : ∀ e ∈ before ++ after, e ≠ entry := by
    intro e he heq
    have hsorted := h.sorted
    rw [hsplit] at hsorted
    obtain ⟨-, h2, h3⟩ := List.pairwise_append.mp hsorted
    rcases List.mem_append.mp he with he | he
    · have hlt := h3 e he entry List.mem_cons_self
      rw [heq] at hlt
      exact lt_irrefl _ hlt
    · have hlt := List.rel_of_pairwise_cons h2 he
      rw [heq] at hlt
      exact lt_irrefl _ hlt
  have hended : ∀ e, (.removed e ∈ d.history ++ [m] ∨ e ∈ calledEntries (d.history ++ [m])) →
      e = entry ∨ .removed e ∈ d.history ∨ e ∈ calledEntries d.history := by
    intro e hor
    rcases hor with hmem | hmem
    · rcases List.mem_append.mp hmem with hmem | hmem
      · exact .inr (.inl hmem)
      · rcases hm with rfl | ⟨stanza, rfl⟩
        · cases List.mem_singleton.mp hmem
          exact .inl rfl
        · cases List.mem_singleton.mp hmem
    · rw [calledEntries_append] at hmem
      rcases List.mem_append.mp hmem with hmem | hmem
      · exact .inr (.inr hmem)
      · obtain ⟨stanza, n, hmem⟩ := mem_calledEntries.mp hmem
        rcases hm with rfl | ⟨stanza, rfl⟩
        · cases List.mem_singleton.mp hmem
        · cases List.mem_singleton.mp hmem
          exact .inl rfl
  constructor
  · exact hmatched
  · show (d.iqEntries.eraseP p).Pairwise _
    rw [herase]
    exact h.sorted.sublist hsub
  · intro e he
    exact h.bounded e (hregs ▸ he)
  · intro e he
    have he : e ∈ before ++ after := herase ▸ he
    obtain ⟨el, hmem, hrest⟩ := h.listed e (hsub.subset he)
    exact ⟨el, List.mem_append_left _ hmem, hrest⟩
  · intro e he
    have he : e ∈ before ++ after := herase ▸ he
    obtain ⟨hc, hrem⟩ := h.pending e (hsub.subset he)
    constructor
    · intro hmem
      rcases hended e (.inr hmem) with heq | hmem | hmem
      · exact hne e he heq
      · exact hrem hmem
      · exact hc hmem
    · intro hmem
      rcases hended e (.inl hmem) with heq | hmem | hmem
      · exact hne e he heq
      · exact hrem hmem
      · exact hc hmem
  · intro e he
    have he : e ∈ registrations d.history := hregs ▸ he
    show e ∈ d.iqEntries.eraseP p ∨ _ ∈ d.history ++ [m] ∨ e ∈ calledEntries (d.history ++ [m])
    rw [herase, calledEntries_append]
    rcases h.settled e he with hmem | hmem | hmem
    · rw [hsplit] at hmem
      rcases List.mem_append.mp hmem with hmem | hmem
      · exact .inl (List.mem_append_left _ hmem)
      · rcases List.mem_cons.mp hmem with rfl | hmem
        · rcases hm with rfl | ⟨stanza, rfl⟩
          · exact .inr (.inl (List.mem_append_right _ (List.mem_singleton_self _)))
          · exact .inr (.inr (List.mem_append_right _ (mem_calledEntries.mpr
              ⟨stanza, _, List.mem_singleton_self _⟩)))
        · exact .inl (List.mem_append_right _ hmem)
    · exact .inr (.inl (List.mem_append_left _ hmem))
    · exact .inr (.inr (List.mem_append_left _ hmem))
  · intro e he
    show e ∈ registrations (d.history ++ [m])
    rw [hregs]
    rcases hended e (.inl he) with rfl | hmem | hmem
    · exact h.mem_registrations hentry
    · exact h.known e hmem
    · obtain ⟨stanza, n, hmem⟩ := mem_calledEntries.mp hmem
      obtain ⟨el, hreg, -⟩ := h.matched.answers e stanza n hmem
      exact Xmpp.mem_registrations.mpr ⟨el, hreg⟩
  · intro e stanza n hmem
    show n ≤ r
    rcases List.mem_append.mp hmem with hmem | hmem
    · exact (h.answered e stanza n hmem).trans hr
    · rcases hm with rfl | ⟨stanza', rfl⟩
      · cases List.mem_singleton.mp hmem
      · cases List.mem_singleton.mp hmem
        exact le_rfl
  · intro level reg n hmem
    show n ≤ r
    rcases List.mem_append.mp hmem with hmem | hmem
    · exact (h.offered level reg n hmem).trans hr
    · rcases hm with rfl | ⟨stanza', rfl⟩
      · cases List.mem_singleton.mp hmem
      · cases List.mem_singleton.mp hmem

theorem Table.mark (h : Table d) {m : DispatchMark}
    (hm : m = .replied d.received ∨ ∃ level reg, m = .offered level reg d.received ∧
      ∀ entry stanza, .called entry stanza d.received ∉ d.history) : Table (d.mark m) := by
  have hno : ∀ entry stanza n, m ≠ .called entry stanza n := by
    rcases hm with rfl | ⟨level, reg, rfl, -⟩ <;> simp
  have hreg : ∀ entry element, m ≠ .registered entry element := by
    rcases hm with rfl | ⟨level, reg, rfl, -⟩ <;> simp
  have hremoved : ∀ e, m ≠ .removed e := by
    rcases hm with rfl | ⟨level, reg, rfl, -⟩ <;> simp
  have hregs : registrations (d.history ++ [m]) = registrations d.history := by
    rw [registrations_append]
    rcases hm with rfl | ⟨level, reg, rfl, -⟩ <;> exact List.append_nil _
  have hcalls : calledEntries (d.history ++ [m]) = calledEntries d.history := by
    rw [calledEntries_append]
    rcases hm with rfl | ⟨level, reg, rfl, -⟩ <;> exact List.append_nil _
  have hrem : ∀ e, .removed e ∈ d.history ++ [m] ↔ .removed e ∈ d.history := fun e => by
    simp [(hremoved e).symm]
  constructor
  · refine h.matched.append hno (fun e el heq => absurd heq (hreg e el)) ?_
    intro level reg n heq entry stanza
    rcases hm with rfl | ⟨level', reg', rfl, hnone⟩
    · cases heq
    · cases heq
      exact hnone entry stanza
  · exact h.sorted
  · exact fun e he => h.bounded e (hregs ▸ he)
  · intro e he
    obtain ⟨el, hmem, hrest⟩ := h.listed e he
    exact ⟨el, List.mem_append_left _ hmem, hrest⟩
  · intro e he
    show e ∉ calledEntries (d.history ++ [m]) ∧ _ ∉ d.history ++ [m]
    rw [hcalls, hrem]
    exact h.pending e he
  · intro e he
    show e ∈ d.iqEntries ∨ _ ∈ d.history ++ [m] ∨ e ∈ calledEntries (d.history ++ [m])
    rw [hcalls, hrem]
    exact h.settled e (hregs ▸ he)
  · intro e he
    show e ∈ registrations (d.history ++ [m])
    rw [hregs]
    exact h.known e ((hrem e).mp he)
  · intro e stanza n hmem
    rcases List.mem_append.mp hmem with hmem | hmem
    · exact h.answered e stanza n hmem
    · exact absurd (List.mem_singleton.mp hmem).symm (hno e stanza n)
  · intro level reg n hmem
    rcases List.mem_append.mp hmem with hmem | hmem
    · exact h.offered level reg n hmem
    · rcases hm with rfl | ⟨level', reg', rfl, -⟩
      · cases List.mem_singleton.mp hmem
      · cases List.mem_singleton.mp hmem
        exact le_rfl

theorem Table.remove (h : Table d) {cookie : ℕ} {entry : IqRegistration}
    (hf : d.iqEntries.find? (fun entry => entry.cookie = cookie) = some entry) :
    Table ((d.withEntries (d.iqEntries.eraseP fun entry => entry.cookie = cookie)).mark
      (.removed entry)) := by
  refine h.erase hf le_rfl ?_ (.inl rfl)
  exact h.matched.append (by simp) (by simp) (by simp)

theorem Table.call (h : Table d) (c : EngineCall) : Table (d.call c) := by
  cases c with
  | sendIq element handler cookie =>
    show Table (d.sendIq element handler cookie)
    rcases sendIq_cases d element handler cookie with heq | ⟨-, engine, heq⟩
    · rw [heq]
      exact h
    · rw [heq]
      exact (h.register element handler cookie).of_eq rfl rfl le_rfl le_rfl
  | removeIqHandler cookie =>
    show Table (d.removeIqHandler cookie)
    rcases removeIqHandler_cases d cookie with heq | ⟨entry, hf, heq⟩
    · rw [heq]
      exact h
    · rw [heq]
      exact h.remove hf
  | addStanzaHandler handler level =>
    show Table (d.addStanzaHandler handler level)
    unfold addStanzaHandler
    split_ifs
    · exact h
    · exact h.of_eq rfl rfl (Nat.le_succ _) le_rfl
  | _ => exact h.of_eq rfl rfl le_rfl le_rfl

theorem Table.answer (h : Table d) {stanza : XmlElement} {entry : IqRegistration}
    (hf : d.entryFor stanza = some entry) :
    Table (({ d with received := d.received + 1 }.withEntries (d.iqEntries.eraseP fun entry =>
      entry.id = stanza.attr qnId ∧ entry.to_ = stanza.attr qnFrom)).mark
        (.called entry stanza (d.received + 1))) := by
  unfold entryFor at hf
  split_ifs at hf with hname htype hid
  have hmem : entry ∈ d.iqEntries := List.mem_of_find?_eq_some hf
  obtain ⟨element, hreg, heid, heto⟩ := h.listed entry hmem
  obtain ⟨hcalled, hremoved⟩ := h.pending entry hmem
  obtain ⟨before, after, hsplit, hp, hbefore, -⟩ := eraseP_of_find? hf
  obtain ⟨hpid, hpto⟩ := of_decide_eq_true hp
  refine h.erase hf (Nat.le_succ _) ?_ (.inr ⟨stanza, rfl⟩)
  refine h.matched.append_called hreg heid heto ?_ hcalled hremoved ?_ ?_
  · exact {
      name := not_not.mp hname
      type := by
        by_contra hno
        push Not at hno
        exact htype hno
      hasId := by simpa using hid
      id := hpid.symm.trans heid
      from_ := hpto.symm.trans heto }
  · intro e he hlt heq hteq
    rcases h.settled e he with hlisted | hend
    · -- an earlier request with the same id and JID would have been found first
      exfalso
      have hsorted := h.sorted
      rw [hsplit] at hsorted hlisted
      rcases List.mem_append.mp hlisted with hlisted | hlisted
      · exact of_decide_eq_false (hbefore e hlisted) ⟨heq.trans hpid, hteq.trans hpto⟩
      · rcases List.mem_cons.mp hlisted with rfl | hlisted
        · exact lt_irrefl _ hlt
        · exact lt_asymm hlt (List.rel_of_pairwise_cons (List.pairwise_append.mp hsorted).2.1 hlisted)
    · exact hend
  · intro level reg hoffered
    have hle := h.offered level reg _ hoffered
    omega

end Steps

/-- The invariant while a stanza is offered to the handlers: no handler of a request has been
called with it. -/
def Offering (d : Dispatcher E S) : Prop :=
  Table d ∧ ∀ entry stanza, .called entry stanza d.received ∉ d.history

theorem Offering.call {d : Dispatcher E S} (h : Offering d) (c : EngineCall) :
    Offering (d.call c) := by
  refine ⟨h.1.call c, ?_⟩
  have hno := h.2
  cases c with
  | sendIq element handler cookie =>
    show ∀ entry stanza, .called entry stanza (d.sendIq element handler cookie).received ∉
      (d.sendIq element handler cookie).history
    rcases sendIq_cases d element handler cookie with heq | ⟨-, engine, heq⟩
    · rw [heq]
      exact hno
    · rw [heq]
      simpa [withEngine, register, mark, withEntries] using hno
  | removeIqHandler cookie =>
    show ∀ entry stanza, .called entry stanza (d.removeIqHandler cookie).received ∉
      (d.removeIqHandler cookie).history
    rcases removeIqHandler_cases d cookie with heq | ⟨entry, -, heq⟩
    · rw [heq]
      exact hno
    · rw [heq]
      simpa [mark, withEntries] using hno
  | addStanzaHandler handler level =>
    show ∀ entry stanza, .called entry stanza (d.addStanzaHandler handler level).received ∉
      (d.addStanzaHandler handler level).history
    unfold addStanzaHandler
    split_ifs <;> exact hno
  | _ => exact hno

theorem table_keeps : Keeps (E := E) (S := S) Table Offering where
  engine d engine h := h.of_eq rfl rfl le_rfl le_rfl
  call d c h := h.call c
  receive d h := by
    refine ⟨h.of_eq rfl rfl le_rfl (Nat.le_succ _), fun entry stanza hmem => ?_⟩
    have hle : d.received + 1 ≤ d.received := h.answered entry stanza _ hmem
    omega
  done d h := h.1
  offering d c h := h.call c
  offer d level reg h := by
    refine ⟨h.1.mark (.inr ⟨level, reg, rfl, h.2⟩), fun entry stanza => ?_⟩
    simpa [mark] using h.2 entry stanza
  reply d engine h := by
    refine ⟨(h.1.mark (.inl rfl)).of_eq rfl rfl le_rfl le_rfl, fun entry stanza => ?_⟩
    simpa [mark, withEngine] using h.2 entry stanza
  answer d stanza entry h hf := h.answer hf

/-- **Answers are matched exactly** in every run, whatever the handlers do. -/
theorem matched_run (engine : XmppEngineImpl E S) (es : List Event) {d : Dispatcher E S}
    (h : (new engine).run es = some d) : Matched d.history := by
  refine (table_keeps.run es h ?_).matched
  constructor <;> simp [new, registrations, calledEntries]
  constructor <;> simp [registrations, calledEntries]

end Dispatcher

/-! ### Samples -/

/-- A parser for a server that opens its stream, and then answers the request 1. -/
def answeringExpat : Expat where
  State := Bool
  init := false
  parse := fun opened _ _ =>
    (true,
      if opened then
        [.startElement (textBytes "iq") [(textBytes "type", textBytes "result"),
          (textBytes "id", textBytes "1")], .endElement (textBytes "iq")]
      else
        [.startElement (textBytes "stream:stream") [(textBytes "xmlns:stream", nsStream),
          (textBytes "xmlns", nsClient)]],
      none)

/-- An engine whose login is done, on a stream that is open. -/
def answeredEngine : XmppEngineImpl answeringExpat idleSasl :=
  { (XmppEngineImpl.new ⟨⟨none⟩, [], [], [], []⟩ false true :
      XmppEngineImpl answeringExpat idleSasl) with
    state := .open_
    loginTask := none
    stanzaParser := ((Parsing.new : Parsing answeringExpat).parse [] false).1 }

/-- A request with the id 1. -/
def sampleIq : XmlElement := sampleRequest.addAttr qnId (textBytes "1")

/-- Two requests with the same id; the first handler asks again when it is called. -/
def sampleRequests : List Dispatcher.Event :=
  [.call (.sendIq sampleIq 1 0x10), .call (.sendIq sampleIq 2 0x20),
    .handleInput [] fun _ => [⟨[.sendIq sampleIq 1 0x30], true⟩],
    .handleInput [] fun _ => [⟨[.removeIqHandler 0x30], true⟩]]

namespace Dispatcher

theorem matched_sample : ∃ d, (new answeredEngine).run sampleRequests = some d ∧
    Matched d.history ∧
    (calledEntries d.history).map IqRegistration.handler = [1, 2] := by
  have hcalled : ((new answeredEngine).run sampleRequests).map (fun d =>
      (calledEntries d.history).map IqRegistration.handler) = some [1, 2] := by decide
  obtain ⟨d, hd, hcalled⟩ := Option.map_eq_some_iff.mp hcalled
  exact ⟨d, hd, matched_run answeredEngine sampleRequests hd, hcalled⟩

end Dispatcher

end Jingle.Xmpp
