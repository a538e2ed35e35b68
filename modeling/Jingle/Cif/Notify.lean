/-
The registry of message listeners.

The user registers a function for the messages of one contact or of everyone.  What
the calls mean is a set of registrations (`ChatCall.effect`); `XmppNotify` keeps a
vector with each function at most once.  So a function that is registered a second
time, for someone else, is not told of that one's messages; and a function that is
removed without having been registered is looked for behind the end of the vector.

* **`follows_iff`** — a run follows its registrations as long as no call does one of
  these (`SoundRun`), and no longer.
-/
import Jingle.Xmpp.Jid

namespace Jingle.Cif

open Signaling (Text)
open Xmpp

/-! ### The registry of the source -/

/-- A function that is registered, by its address. -/
abbrev Incoming := ℕ

/-- `message_listener_t`. -/
structure MessageListener where
  jid : Jid
  listener : Incoming
  deriving DecidableEq

/-- A call of a function that is registered. -/
structure Delivery where
  listener : Incoming
  jid : Text
  msg : Text
  len : ℕ
  deriving DecidableEq

/-- `XmppNotify`, with its message listeners. -/
structure XmppNotify where
  messageListeners : List MessageListener

namespace XmppNotify

/-- A new registry. -/
def new : XmppNotify := { messageListeners := [] }

variable (n : XmppNotify)

/-- `RegisterMessageListener`: a function that is registered is not registered again. -/
def registerMessageListener (jid : Jid) (incoming : Incoming) : XmppNotify :=
  if n.messageListeners.any fun ml => ml.listener = incoming then n
  else { messageListeners := n.messageListeners ++ [{ jid, listener := incoming }] }

/-- `RemoveMessageListener`: nothing if the element behind the last is looked at. -/
def removeMessageListener (incoming : Option Incoming) : Option XmppNotify :=
  let iter := n.messageListeners.findIdx fun ml => some ml.listener = incoming
  match n.messageListeners[iter]? with
  | none => none
  | some ml =>
    if some ml.listener = incoming then
      some { messageListeners := n.messageListeners.eraseIdx iter }
    else some n

/-- The test of `OnMessageIncoming`. -/
def accepts (jid from_ : Jid) : Bool :=
  Jid.compare jid ⟨none⟩ = .eq || (jid.isBare && jid.bareEquals from_) ||
    Jid.compare jid from_ = .eq

def onMessageIncoming (msg fromJid : Text) : List Delivery :=
  let from_ := Jid.ofString fromJid
  (n.messageListeners.filter fun ml => accepts ml.jid from_).map fun ml =>
    { listener := ml.listener, jid := fromJid, msg, len := msg.length }

end XmppNotify

/-- The calls of the C interface; a function may be null. -/
inductive ChatCall
  | registerIncomingHandler (incoming : Option Incoming)
  | registerIncomingHandlerOnJid (jid : Text) (incoming : Option Incoming)
  | removeIncomingHandler (incoming : Option Incoming)

namespace ChatCall

/-- `xmpp_chat_register_incoming_handler`, `.._on_jid` and
`xmpp_chat_remove_incoming_handler`. -/
def apply (n : XmppNotify) : ChatCall → Option XmppNotify
  | registerIncomingHandler none => some n
  | registerIncomingHandler (some incoming) => some (n.registerMessageListener ⟨none⟩ incoming)
  | registerIncomingHandlerOnJid _ none => some n
  | registerIncomingHandlerOnJid jid (some incoming) =>
    some (n.registerMessageListener (Jid.ofString jid) incoming)
  | removeIncomingHandler incoming => n.removeMessageListener incoming

end ChatCall

/-- The registry after some calls. -/
def run (n : XmppNotify) : List ChatCall → Option XmppNotify
  | [] => some n
  | c :: calls => (c.apply n).bind fun n => run n calls

/-! ### What the calls mean -/

/-- A registration: for whom, and the function. -/
abbrev Registration := Jid × Incoming

/-- What a call does to the registrations. -/
def ChatCall.effect (r : Set Registration) : ChatCall → Set Registration
  | registerIncomingHandler incoming =>
    r ∪ {x | x.1 = ⟨none⟩ ∧ incoming = some x.2}
  | registerIncomingHandlerOnJid jid incoming =>
    r ∪ {x | x.1 = Jid.ofString jid ∧ incoming = some x.2}
  | removeIncomingHandler incoming => {x ∈ r | incoming ≠ some x.2}

/-- The registrations after some calls. -/
def registered (r : Set Registration) (calls : List ChatCall) : Set Registration :=
  calls.foldl ChatCall.effect r

/-- A registration for everyone, for a bare JID or for a full one matches a sender. -/
def Matches (jid from_ : Jid) : Prop :=
  jid = ⟨none⟩ ∨ (jid.isFull = false ∧ jid.bareEquals from_) ∨ jid = from_

/-- Who is told of a message of this sender. -/
def Told (r : Set Registration) (from_ : Jid) (f : Incoming) : Prop :=
  ∃ jid, (jid, f) ∈ r ∧ Matches jid from_

/-- Each message is delivered to those who are registered for it. -/
def XmppNotify.Follows (n : XmppNotify) (r : Set Registration) : Prop :=
  ∀ msg fromJid f, { listener := f, jid := fromJid, msg, len := msg.length } ∈
    n.onMessageIncoming msg fromJid ↔ Told r (Jid.ofString fromJid) f

/-- A function is registered for someone else only if that adds no sender. -/
def Harmless (r : Set Registration) (jid : Jid) (f : Incoming) : Prop :=
  (∃ jid', (jid', f) ∈ r) →
    ∀ fromJid, Matches jid (Jid.ofString fromJid) → Told r (Jid.ofString fromJid) f

/-- A call that is no mistake: what is registered again is registered for no one else,
and what is removed was registered. -/
def ChatCall.Sound (r : Set Registration) : ChatCall → Prop
  | registerIncomingHandler incoming => ∀ f, incoming = some f → Harmless r ⟨none⟩ f
  | registerIncomingHandlerOnJid jid incoming =>
    ∀ f, incoming = some f → Harmless r (Jid.ofString jid) f
  | removeIncomingHandler incoming => ∃ f, incoming = some f ∧ ∃ jid, (jid, f) ∈ r

/-- All calls of a run are sound. -/
def SoundRun : Set Registration → List ChatCall → Prop
  | _, [] => True
  | r, c :: calls => c.Sound r ∧ SoundRun (c.effect r) calls

/-! ### One call -/

/-- No JID, or a valid one. -/
def Proper (jid : Jid) : Prop := jid = ⟨none⟩ ∨ jid.isValid

theorem proper_ofString (jid : Text) : Proper (Jid.ofString jid) := by
  cases hd : (Jid.ofString jid).data with
  | none => exact .inl (congrArg Jid.mk hd)
  | some d =>
    refine .inr ?_
    have hne := (Jid.ofString_prepared hd).nonempty
    simp [Jid.isValid, hd, hne]

theorem accepts_iff {jid from_ : Jid} (hp : Proper jid) :
    XmppNotify.accepts jid from_ ↔ Matches jid from_ := by
  have hbare : jid ≠ ⟨none⟩ → (jid.isBare = true ↔ jid.isFull = false) := by
    intro hne
    have hv : jid.isValid = true := hp.resolve_left hne
    have hcmp : Jid.compare jid ⟨none⟩ ≠ .eq := fun h => hne (Jid.compare_eq_iff.mp h)
    obtain ⟨_ | d⟩ := jid
    · exact absurd rfl hne
    · rw [Jid.isBare, if_neg hcmp, hv]
      simp only [Jid.isFull, hv, Jid.resource, Option.map_some, Option.getD_some, Bool.true_and,
        ne_eq, decide_not, Bool.not_eq_false']
      exact decide_eq_true_iff.trans decide_eq_true_iff.symm
  unfold XmppNotify.accepts Matches
  simp only [Bool.or_eq_true, Bool.and_eq_true, decide_eq_true_eq, Jid.compare_eq_iff]
  by_cases hne : jid = ⟨none⟩
  · simp [hne]
  · rw [hbare hne, or_assoc]

/-- The registry and the registrations agree. -/
structure Agrees (n : XmppNotify) (r : Set Registration) : Prop where
  proper : ∀ ml ∈ n.messageListeners, Proper ml.jid
  nodup : (n.messageListeners.map MessageListener.listener).Nodup
  known : ∀ f, (∃ jid, (jid, f) ∈ r) ↔ ∃ ml ∈ n.messageListeners, ml.listener = f
  follows : n.Follows r

variable {n : XmppNotify} {r : Set Registration}

theorem delivered_iff (hp : ∀ ml ∈ n.messageListeners, Proper ml.jid) (msg fromJid : Text)
    (f : Incoming) : { listener := f, jid := fromJid, msg, len := msg.length } ∈
      n.onMessageIncoming msg fromJid ↔
        ∃ ml ∈ n.messageListeners, ml.listener = f ∧ Matches ml.jid (Jid.ofString fromJid) := by
  unfold XmppNotify.onMessageIncoming
  dsimp only
  constructor
  · intro hd
    obtain ⟨ml, hml, hd⟩ := List.mem_map.mp hd
    obtain ⟨hml, hacc⟩ := List.mem_filter.mp hml
    exact ⟨ml, hml, congrArg Delivery.listener hd, (accepts_iff (hp ml hml)).mp hacc⟩
  · rintro ⟨ml, hml, rfl, hm⟩
    refine List.mem_map.mpr ⟨ml, List.mem_filter.mpr ⟨hml, ?_⟩, rfl⟩
    exact (accepts_iff (hp ml hml)).mpr hm

theorem told_insert {jid from_ : Jid} {f f' : Incoming} :
    Told (r ∪ {x | x.1 = jid ∧ some f = some x.2}) from_ f' ↔
      Told r from_ f' ∨ (f' = f ∧ Matches jid from_) := by
  unfold Told
  constructor
  · rintro ⟨jid', hmem | ⟨rfl, hf⟩, hm⟩
    · exact .inl ⟨jid', hmem, hm⟩
    · exact .inr ⟨(Option.some.inj hf).symm, hm⟩
  · rintro (⟨jid', hmem, hm⟩ | ⟨rfl, hm⟩)
    · exact ⟨jid', .inl hmem, hm⟩
    · exact ⟨jid, .inr ⟨rfl, rfl⟩, hm⟩

theorem register_step (h : Agrees n r) {jid : Jid} (hp : Proper jid) (f : Incoming) :
    let r' := r ∪ {x | x.1 = jid ∧ some f = some x.2}
    (Harmless r jid f → Agrees (n.registerMessageListener jid f) r') ∧
      ((n.registerMessageListener jid f).Follows r' → Harmless r jid f) := by
  intro r'
  have hknown : ∀ f', (∃ jid', (jid', f') ∈ r') ↔ (∃ jid', (jid', f') ∈ r) ∨ f' = f := by
    intro f'
    constructor
    · rintro ⟨jid', hmem | ⟨-, hf⟩⟩
      · exact .inl ⟨jid', hmem⟩
      · exact .inr (Option.some.inj hf).symm
    · rintro (⟨jid', hmem⟩ | rfl)
      · exact ⟨jid', .inl hmem⟩
      · exact ⟨jid, .inr ⟨rfl, rfl⟩⟩
  by_cases hf : ∃ ml ∈ n.messageListeners, ml.listener = f
  · -- the function is registered already, and nothing happens
    have hany : (n.messageListeners.any fun ml => ml.listener = f) = true := by
      obtain ⟨ml, hml, hl⟩ := hf
      exact List.any_eq_true.mpr ⟨ml, hml, by simpa using hl⟩
    have hsame : n.registerMessageListener jid f = n := if_pos hany
    rw [hsame]
    have hreg := (h.known f).mpr hf
    constructor
    · intro hharm
      refine ⟨h.proper, h.nodup, fun f' => ?_, fun msg fromJid f' => ?_⟩
      · rw [hknown, h.known f']
        constructor
        · rintro (h' | rfl)
          · exact h'
          · exact hf
        · exact .inl
      · rw [h.follows msg fromJid f', told_insert]
        constructor
        · exact .inl
        · rintro (h' | ⟨rfl, hm⟩)
          · exact h'
          · exact hharm hreg fromJid hm
    · intro hfol _ fromJid hm
      have htold := (hfol [] fromJid f).mpr (told_insert.mpr (.inr ⟨rfl, hm⟩))
      exact (h.follows [] fromJid f).mp htold
  · have hany : ¬ (n.messageListeners.any fun ml => ml.listener = f) = true := by
      intro hany
      obtain ⟨ml, hml, hl⟩ := List.any_eq_true.mp hany
      exact hf ⟨ml, hml, by simpa using hl⟩
    have hpush : n.registerMessageListener jid f =
        { messageListeners := n.messageListeners ++ [{ jid, listener := f }] } := if_neg hany
    rw [hpush]
    have hproper : ∀ ml ∈ n.messageListeners ++ [{ jid, listener := f }], Proper ml.jid := by
      intro ml hml
      rcases List.mem_append.mp hml with hml | hml
      · exact h.proper ml hml
      · rw [List.mem_singleton.mp hml]
        exact hp
    have hunreg : ¬ ∃ jid', (jid', f) ∈ r := fun hr => hf ((h.known f).mp hr)
    refine ⟨fun _ => ⟨hproper, ?_, fun f' => ?_, fun msg fromJid f' => ?_⟩,
      fun _ hr => absurd hr hunreg⟩
    · rw [List.map_append, List.nodup_append]
      refine ⟨h.nodup, List.nodup_singleton _, fun a ha b hb => ?_⟩
      rintro rfl
      obtain ⟨ml, hml, hl⟩ := List.mem_map.mp ha
      exact hf ⟨ml, hml, hl.trans (List.mem_singleton.mp hb)⟩
    · rw [hknown, h.known f']
      simp [eq_comm, or_and_right, exists_or]
    · rw [delivered_iff hproper, told_insert, ← h.follows msg fromJid f', delivered_iff h.proper]
      simp [eq_comm, or_and_right, exists_or]

theorem eraseIdx_findIdx (f : Incoming) (l : List MessageListener)
    (h : (l.map MessageListener.listener).Nodup) :
    l.eraseIdx (l.findIdx fun ml => some ml.listener = some f) =
      l.filter fun ml => ml.listener ≠ f := by
  induction l with
  | nil => rfl
  | cons a l ih =>
    rw [List.map_cons, List.nodup_cons] at h
    by_cases ha : a.listener = f
    · have hrest : l.filter (fun ml => ml.listener ≠ f) = l := by
        refine List.filter_eq_self.mpr fun ml hml => ?_
        have hne : ml.listener ≠ f := fun heq =>
          h.1 (List.mem_map.mpr ⟨ml, hml, heq.trans ha.symm⟩)
        simpa using hne
      rw [List.findIdx_cons, List.filter_cons_of_neg (by simpa using ha), hrest]
      simp [ha]
    · rw [List.findIdx_cons, List.filter_cons_of_pos (by simpa using ha), ← ih h.2]
      simp [ha]

theorem remove_step (h : Agrees n r) (incoming : Option Incoming) :
    (∀ f, incoming = some f → (∃ jid, (jid, f) ∈ r) →
      ∃ n', n.removeMessageListener incoming = some n' ∧
        Agrees n' {x ∈ r | incoming ≠ some x.2}) ∧
    (n.removeMessageListener incoming ≠ none → ∃ f, incoming = some f ∧ ∃ jid, (jid, f) ∈ r) := by
  unfold XmppNotify.removeMessageListener
  dsimp only
  set iter := n.messageListeners.findIdx fun ml => some ml.listener = incoming with hiter
  constructor
  · rintro f rfl hreg
    obtain ⟨ml, hml, hl⟩ := (h.known f).mp hreg
    have hlt : iter < n.messageListeners.length :=
      List.findIdx_lt_length_of_exists ⟨ml, hml, by simpa using hl⟩
    have hget : n.messageListeners[iter]? = some n.messageListeners[iter] :=
      List.getElem?_eq_getElem hlt
    have hfound : some n.messageListeners[iter].listener = some f := by
      have hget := @List.findIdx_getElem _ (fun ml : MessageListener =>
        decide (some ml.listener = some f)) n.messageListeners hlt
      exact of_decide_eq_true hget
    rw [hget]
    dsimp only
    rw [if_pos hfound]
    have hproper : ∀ ml ∈ n.messageListeners.filter (fun ml => ml.listener ≠ f), Proper ml.jid :=
      fun ml hml => h.proper ml (List.mem_filter.mp hml).1
    refine ⟨_, rfl, ?_⟩
    rw [hiter, eraseIdx_findIdx f _ h.nodup]
    refine ⟨hproper, ?_, fun f' => ?_, fun msg fromJid f' => ?_⟩
    · exact h.nodup.sublist (List.filter_sublist.map _)
    · constructor
      · rintro ⟨jid, hmem, hne⟩
        obtain ⟨ml, hml, rfl⟩ := (h.known f').mp ⟨jid, hmem⟩
        have hne : ml.listener ≠ f := fun heq => hne (congrArg some heq.symm)
        exact ⟨ml, List.mem_filter.mpr ⟨hml, by simpa using hne⟩, rfl⟩
      · rintro ⟨ml, hml, rfl⟩
        obtain ⟨hml, hne⟩ := List.mem_filter.mp hml
        obtain ⟨jid, hmem⟩ := (h.known _).mpr ⟨ml, hml, rfl⟩
        refine ⟨jid, hmem, fun heq => ?_⟩
        simp [Option.some.inj heq] at hne
    · have htold : Told {x ∈ r | some f ≠ some x.2} (Jid.ofString fromJid) f' ↔
          Told r (Jid.ofString fromJid) f' ∧ f' ≠ f := by
        constructor
        · rintro ⟨jid, ⟨hmem, hne⟩, hm⟩
          exact ⟨⟨jid, hmem, hm⟩, fun heq => hne (congrArg some heq.symm)⟩
        · rintro ⟨⟨jid, hmem, hm⟩, hne⟩
          exact ⟨jid, ⟨hmem, fun heq => hne (Option.some.inj heq).symm⟩, hm⟩
      rw [delivered_iff hproper, htold, ← h.follows msg fromJid f', delivered_iff h.proper]
      constructor
      · rintro ⟨ml, hml, rfl, hm⟩
        obtain ⟨hml, hne⟩ := List.mem_filter.mp hml
        exact ⟨⟨ml, hml, rfl, hm⟩, by simpa using hne⟩
      · rintro ⟨⟨ml, hml, rfl, hm⟩, hne⟩
        exact ⟨ml, List.mem_filter.mpr ⟨hml, by simpa using hne⟩, rfl, hm⟩
  · intro hne
    -- an element that was found is the function's
    have hlt : iter < n.messageListeners.length := by
      by_contra hge
      rw [List.getElem?_eq_none (by omega)] at hne
      exact hne rfl
    have hfound := of_decide_eq_true (@List.findIdx_getElem _ (fun ml : MessageListener =>
      decide (some ml.listener = incoming)) n.messageListeners hlt)
    exact ⟨_, hfound.symm, (h.known _).mpr ⟨_, List.getElem_mem hlt, rfl⟩⟩

/-! ### Runs -/

theorem agrees_new : Agrees .new ∅ where
  proper := fun _ hml => absurd hml (by simp [XmppNotify.new])
  nodup := List.nodup_nil
  known := fun f => by simp [XmppNotify.new]
  follows := fun msg fromJid f => by simp [XmppNotify.new, XmppNotify.onMessageIncoming, Told]

theorem call_step (h : Agrees n r) (c : ChatCall) :
    (c.Sound r → ∃ n', c.apply n = some n' ∧ Agrees n' (c.effect r)) ∧
      ((∃ n', c.apply n = some n' ∧ n'.Follows (c.effect r)) → c.Sound r) := by
  have hnull : ∀ jid : Jid, r ∪ {x | x.1 = jid ∧ none = some x.2} = r := fun jid => by simp
  cases c with
  | registerIncomingHandler incoming =>
    cases incoming with
    | none =>
      refine ⟨fun _ => ⟨n, rfl, ?_⟩, fun _ f hf => by cases hf⟩
      rw [ChatCall.effect, hnull]
      exact h
    | some f =>
      obtain ⟨hkeep, honly⟩ := register_step h (.inl rfl) f
      refine ⟨fun hs => ⟨_, rfl, hkeep (hs f rfl)⟩, ?_⟩
      rintro ⟨n', hn', hfol⟩ f' hf'
      cases hn'
      cases hf'
      exact honly hfol
  | registerIncomingHandlerOnJid jid incoming =>
    cases incoming with
    | none =>
      refine ⟨fun _ => ⟨n, rfl, ?_⟩, fun _ f hf => by cases hf⟩
      rw [ChatCall.effect, hnull]
      exact h
    | some f =>
      obtain ⟨hkeep, honly⟩ := register_step h (proper_ofString jid) f
      refine ⟨fun hs => ⟨_, rfl, hkeep (hs f rfl)⟩, ?_⟩
      rintro ⟨n', hn', hfol⟩ f' hf'
      cases hn'
      cases hf'
      exact honly hfol
  | removeIncomingHandler incoming =>
    obtain ⟨hkeep, honly⟩ := remove_step h incoming
    constructor
    · rintro ⟨f, hf, hreg⟩
      exact hkeep f hf hreg
    · rintro ⟨n', hn', -⟩
      refine honly fun hnone => ?_
      rw [ChatCall.apply, hnone] at hn'
      cases hn'

/-- The calls so far do not look behind the end of the vector, and each message would
be delivered to those who are registered for it. -/
def Followed (n : XmppNotify) (r : Set Registration) (calls : List ChatCall) : Prop :=
  ∃ n', run n calls = some n' ∧ n'.Follows (registered r calls)

theorem followed_iff_soundRun (calls : List ChatCall) : ∀ {n : XmppNotify} {r : Set Registration},
    Agrees n r → (SoundRun r calls ↔ ∀ k, Followed n r (calls.take k)) := by
  induction calls with
  | nil =>
    intro n r h
    refine ⟨fun _ k => ⟨n, by simp [run], ?_⟩, fun _ => trivial⟩
    simpa [registered] using h.follows
  | cons c calls ih =>
    intro n r h
    obtain ⟨hkeep, honly⟩ := call_step h c
    constructor
    · rintro ⟨hs, hrun⟩ k
      obtain ⟨n', hn', hagree⟩ := hkeep hs
      cases k with
      | zero => exact ⟨n, rfl, h.follows⟩
      | succ k =>
        obtain ⟨n'', hn'', hfol⟩ := (ih hagree).mp hrun k
        exact ⟨n'', by rw [List.take_succ_cons, run, hn']; exact hn'', hfol⟩
    · intro hall
      -- the first call is followed, and so it is sound
      have hfirst : ∃ n', c.apply n = some n' ∧ n'.Follows (c.effect r) := by
        obtain ⟨n', hn', hfol⟩ := hall 1
        obtain ⟨n₁, hn₁, hrest⟩ := Option.bind_eq_some_iff.mp hn'
        have heq : n₁ = n' := Option.some.inj hrest
        exact ⟨n₁, hn₁, heq ▸ hfol⟩
      have hs := honly hfirst
      obtain ⟨n', hn', hagree⟩ := hkeep hs
      refine ⟨hs, (ih hagree).mpr fun k => ?_⟩
      obtain ⟨n'', hn'', hfol⟩ := hall (k + 1)
      rw [List.take_succ_cons, run, hn'] at hn''
      exact ⟨n'', hn'', hfol⟩

/-- **The registrations are followed** all the way if and only if all calls are sound. -/
theorem follows_iff (calls : List ChatCall) :
    (∀ k, Followed .new ∅ (calls.take k)) ↔ SoundRun ∅ calls :=
  (followed_iff_soundRun calls agrees_new).symm

/-- A function that is registered for two contacts, and one that is removed without
having been registered. -/
theorem not_followed :
    ¬ Followed .new ∅ [.registerIncomingHandlerOnJid (textBytes "a@x") (some 1),
      .registerIncomingHandlerOnJid (textBytes "b@x") (some 1)] ∧
    run .new [.removeIncomingHandler (some 1)] = none := by
  refine ⟨?_, by decide⟩
  rintro ⟨n, hn, hfol⟩
  have hlist : n.messageListeners = [{ jid := Jid.ofString (textBytes "a@x"), listener := 1 }] := by
    cases hn
    rfl
  have htold : Told (registered ∅ [.registerIncomingHandlerOnJid (textBytes "a@x") (some 1),
      .registerIncomingHandlerOnJid (textBytes "b@x") (some 1)]) (Jid.ofString (textBytes "b@x")) 1 :=
    ⟨Jid.ofString (textBytes "b@x"), .inr ⟨rfl, rfl⟩, .inr (.inr rfl)⟩
  have hd := (hfol [] (textBytes "b@x") 1).mpr htold
  have hnone : n.onMessageIncoming [] (textBytes "b@x") = [] := by
    rw [XmppNotify.onMessageIncoming, hlist]
    decide
  rw [hnone] at hd
  cases hd

end Jingle.Cif
