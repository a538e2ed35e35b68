/-
What the constructor of a JID lets through.

`cut` is how the constructor cuts a text into parts.  The node and the labels of the
domain are checked character by character, so the parts of a valid JID pass the
checks of `Data.Checked`, before preparing and after it.  The resource is not: its
scanner puts a NUL in the place of a character that it may not hold, and goes on.

**`validates_iff`**: a text that gives a valid JID keeps what validation promises
if and only if its resource holds no such character.
-/
import Jingle.Xmpp.Jid

namespace Jingle.Xmpp

open Signaling

/-! ### What is checked -/

/-- The table does not mark the character invalid; it is asked about ASCII only. -/
def Allowed (table : Byte → Byte × Bool) (ch : Byte) : Prop :=
  ch ≤ 0x7F#8 → (table ch).2 = true

instance (table : Byte → Byte × Bool) (ch : Byte) : Decidable (Allowed table ch) :=
  inferInstanceAs (Decidable (_ → _))

/-- A label of a domain. -/
structure ProperLabel (label : Text) : Prop where
  allowed : ∀ ch ∈ label, Allowed prepDomainLabelAscii ch
  pos : 1 ≤ label.length
  length_le : label.length ≤ maxLabel
  head : label.head? ≠ some 0x2D#8
  last : label.getLast? ≠ some 0x2D#8

/-- The labels of a domain. -/
def labels (domain : Text) : List Text := domain.splitOn 0x2E#8

namespace Jid

/-- What validation promises about three parts. -/
structure Data.Checked (d : Data) : Prop where
  node : ∀ ch ∈ d.node, Allowed prepNodeAscii ch
  labels : ∀ label ∈ labels d.domain, ProperLabel label
  resource : ∀ ch ∈ d.resource, Allowed prepResourceAscii ch
  node_le : d.node.length ≤ maxPart
  domain_le : d.domain.length ≤ maxPart
  resource_le : d.resource.length ≤ maxPart

/-- The parts into which the constructor cuts a text. -/
def cut (jid : Text) : Data :=
  let (beforeSlash, resource) := splitFirst 0x2F#8 jid
  let (node, domain) :=
    match splitFirst 0x40#8 beforeSlash with
    | (_, none) => ([], beforeSlash)
    | (node, some domain) => (node, domain)
  { node, domain, resource := resource.getD [] }

/-- The resources differ at a place where one of them has an allowed character. -/
def DifferAllowed (a b : Text) : Prop :=
  ∃ (i : ℕ) (ch : Byte), Allowed prepResourceAscii ch ∧ a[i]? ≠ b[i]? ∧ (a[i]? = some ch ∨ b[i]? = some ch)

/-- **What validation promises** about a text: the parts of the JID and of the text
itself pass the checks, and a text whose resource differs in an allowed character
gives another JID. -/
structure Validates (s : Text) : Prop where
  prepared : ∀ d, (ofString s).data = some d → d.Checked
  given : (cut s).Checked
  differs : ∀ t, (ofString t).isValid → DifferAllowed (cut s).resource (cut t).resource →
    ofString s ≠ ofString t

end Jid

/-! ### The scanners -/

theorem prepChars_valid {map : Byte → Byte × Bool} {str out : Text}
    (h : prepChars map str = some out) :
    (∀ ch ∈ str, (map ch).2 = true) ∧ out = str.map fun ch => (map ch).1 := by
  induction str generalizing out with
  | nil =>
    obtain rfl := Option.some.inj h
    exact ⟨fun ch hch => absurd hch List.not_mem_nil, rfl⟩
  | cons ch str ih =>
    rw [prepChars] at h
    split_ifs at h with hv
    rw [Bool.not_eq_true, Bool.not_eq_false'] at hv
    obtain ⟨rest, hrest, rfl⟩ := Option.map_eq_some_iff.1 h
    obtain ⟨hvalid, rfl⟩ := ih hrest
    exact ⟨List.forall_mem_cons.2 ⟨hv, hvalid⟩, rfl⟩

theorem allowed_node {ch : Byte} (h : (prepNodeChar ch).2 = true) : Allowed prepNodeAscii ch := by
  intro hascii
  rwa [prepNodeChar, if_pos hascii] at h

theorem allowed_label {ch : Byte} (h : (prepLabelChar ch).2 = true) :
    Allowed prepDomainLabelAscii ch := by
  intro hascii
  rwa [prepLabelChar, if_pos hascii] at h

theorem prepNode_checked {str node : Text} (h : prepNode str = some node) :
    (∀ ch ∈ str, Allowed prepNodeAscii ch) ∧ str.length ≤ maxPart ∧
      node.length = str.length := by
  rw [prepNode] at h
  split at h
  · cases h
  · next result hresult =>
    split_ifs at h with hlen
    obtain ⟨hvalid, rfl⟩ := prepChars_valid hresult
    rw [List.length_map] at hlen
    obtain rfl := Option.some.inj h
    exact ⟨fun ch hch => allowed_node (hvalid ch hch), Nat.not_lt.1 hlen, List.length_map _⟩

/-- A label that is prepared: the hyphen is mapped to itself, so it may not be where
the prepared label may not have it. -/
theorem prepDomainLabel_checked {str label : Text} (h : prepDomainLabel str = some label) :
    ProperLabel str ∧ label.length = str.length := by
  rw [prepDomainLabel] at h
  split at h
  · cases h
  · next result hresult =>
    split_ifs at h with hzero hlong hhead hlast
    obtain rfl := Option.some.inj h
    obtain ⟨hvalid, rfl⟩ := prepChars_valid hresult
    have hhyphen : (prepLabelChar 0x2D#8).1 = 0x2D#8 := rfl
    rw [List.length_map] at hzero hlong
    refine ⟨⟨fun ch hch => allowed_label (hvalid ch hch), Nat.pos_of_ne_zero hzero,
      Nat.not_lt.1 hlong, fun hfirst => hhead ?_, fun hend => hlast ?_⟩, List.length_map _⟩
    · rw [List.head?_map, hfirst, Option.map_some, hhyphen]
    · rw [List.getLast?_map, hend, Option.map_some, hhyphen]

theorem prepLabels_labels {str label buf out : Text} (hlabel : 0x2E#8 ∉ label)
    (h : prepLabels str label buf = some out) :
    ∃ added, out = buf ++ added ∧ added.length = (label ++ str).length ∧
      List.Forall₂ (fun l p => prepDomainLabel l = some p)
        (labels (label ++ str)) (labels added) := by
  induction str generalizing label buf with
  | nil =>
    obtain ⟨prepared, hp, rfl⟩ := Option.map_eq_some_iff.1 h
    have hfree : 0x2E#8 ∉ prepared := fun hdot => ((prepDomainLabel_some hp).2.2 _ hdot).2.2 rfl
    refine ⟨prepared, rfl, ?_, ?_⟩
    · rw [List.append_nil, (prepDomainLabel_checked hp).2]
    · rw [List.append_nil, labels, labels, List.splitOn_eq_singleton hlabel,
        List.splitOn_eq_singleton hfree]
      exact .cons hp .nil
  | cons ch str ih =>
    rw [prepLabels] at h
    split_ifs at h with hdot
    · subst hdot
      split at h
      · cases h
      · next prepared hp =>
        have hfree : 0x2E#8 ∉ prepared :=
          fun hdot => ((prepDomainLabel_some hp).2.2 _ hdot).2.2 rfl
        obtain ⟨added, rfl, hlen, hall⟩ := ih List.not_mem_nil h
        refine ⟨prepared ++ 0x2E#8 :: added, ?_, ?_, ?_⟩
        · rw [List.append_assoc, List.append_assoc, List.singleton_append]
        · rw [List.length_append, List.length_cons, hlen, (prepDomainLabel_checked hp).2,
            List.nil_append, List.length_append, List.length_cons]
        · rw [labels, labels, List.splitOn_append_cons_self_of_not_mem hlabel,
            List.splitOn_append_cons_self_of_not_mem hfree]
          exact .cons hp hall
    · have hlabel' : 0x2E#8 ∉ label ++ [ch] := by
        rw [List.mem_append, List.mem_singleton]
        rintro (hmem | rfl)
        · exact hlabel hmem
        · exact hdot rfl
      obtain ⟨added, rfl, hlen, hall⟩ := ih hlabel' h
      rw [List.append_assoc, List.singleton_append] at hlen hall
      exact ⟨added, rfl, hlen, hall⟩

theorem prepDomain_checked {str domain : Text} (h : prepDomain str = some domain) :
    (∀ label ∈ labels str, ProperLabel label) ∧ str.length ≤ maxPart ∧
      domain.length = str.length := by
  rw [prepDomain] at h
  split at h
  · cases h
  · next result hresult =>
    split_ifs at h with hlen
    obtain ⟨added, rfl, hadded, hall⟩ := prepLabels_labels List.not_mem_nil hresult
    rw [List.nil_append] at hadded hall
    obtain rfl := Option.some.inj h
    refine ⟨fun label hlabel => ?_, hadded ▸ Nat.not_lt.1 hlen, hadded⟩
    obtain ⟨i, hi, rfl⟩ := List.getElem_of_mem hlabel
    have hp := List.Forall₂.get hall hi (hall.length_eq ▸ hi)
    exact (prepDomainLabel_checked hp).1

theorem prepResource_eq_some {str resource : Text} : prepResource str = some resource ↔
    str.length ≤ maxPart ∧ resource = str.map prepResourceChar := by
  rw [prepResource, List.length_map]
  split_ifs with h
  · refine iff_of_false (by simp) (fun hle => ?_)
    omega
  · rw [Option.some.injEq, eq_comm, and_iff_right (Nat.not_lt.1 h)]

theorem prepResourceChar_eq (ch : Byte) :
    prepResourceChar ch = if Allowed prepResourceAscii ch then ch else 0#8 := by
  by_cases hascii : ch ≤ 0x7F#8
  · have hallowed : Allowed prepResourceAscii ch ↔ (prepResourceAscii ch).2 = true :=
      forall_prop_of_true hascii
    rw [prepResourceChar, if_pos hascii, if_congr hallowed rfl rfl, prepResourceAscii]
    split_ifs with hinvalid hvalid
    · exact hvalid.elim
    · rfl
    · rfl
    · next hvalid => exact absurd rfl hvalid
  · have hallowed : Allowed prepResourceAscii ch := fun h => absurd h hascii
    rw [prepResourceChar, if_neg hascii, if_pos hallowed]

theorem not_allowed_nul : ¬Allowed prepResourceAscii 0#8 := by decide

theorem allowed_prepResourceChar {ch : Byte} :
    Allowed prepResourceAscii (prepResourceChar ch) ↔ Allowed prepResourceAscii ch := by
  rw [prepResourceChar_eq]
  split_ifs with h
  · exact Iff.rfl
  · exact iff_of_false not_allowed_nul h

theorem prepResourceChar_eq_iff {a b : Byte} (h : Allowed prepResourceAscii a) :
    prepResourceChar b = a ↔ b = a := by
  rw [prepResourceChar_eq]
  split_ifs with hb
  · exact Iff.rfl
  · refine iff_of_false ?_ ?_
    · rintro rfl
      exact not_allowed_nul h
    · rintro rfl
      exact hb h

namespace Jid

/-! ### The constructor -/

theorem ofString_eq (s : Text) : ofString s =
    if s = [] then ⟨none⟩
    else if sharedDomain (cut s).domain = [] then ⟨none⟩
    else
      match prepNode (cut s).node, prepDomain (sharedDomain (cut s).domain),
        prepResource (cut s).resource with
      | some node, some domain, some resource => ⟨some ⟨node, domain, resource⟩⟩
      | _, _, _ => ⟨none⟩ := rfl

theorem prepDomain_nil : prepDomain [] = none := rfl

theorem ofString_eq_some {s : Text} {d : Data} : (ofString s).data = some d ↔
    prepNode (cut s).node = some d.node ∧ prepDomain (cut s).domain = some d.domain ∧
      prepResource (cut s).resource = some d.resource := by
  rw [ofString_eq, sharedDomain_eq]
  split_ifs with hempty hdomain
  · subst hempty
    refine iff_of_false (by simp) fun h => ?_
    exact absurd (prepDomain_nil.symm.trans h.2.1) (by simp)
  · refine iff_of_false (by simp) fun h => ?_
    rw [hdomain] at h
    exact absurd (prepDomain_nil.symm.trans h.2.1) (by simp)
  · split
    · next node domain resource hn hd hr =>
      rw [hn, hd, hr]
      obtain ⟨dnode, ddomain, dresource⟩ := d
      simp
    · next hnone =>
      exact iff_of_false (by simp) fun h => hnone _ _ _ h.1 h.2.1 h.2.2

theorem checked_iff {d : Data} {node domain resource : Text} (hn : prepNode d.node = some node)
    (hd : prepDomain d.domain = some domain) (hr : prepResource d.resource = some resource) :
    d.Checked ↔ ∀ ch ∈ d.resource, Allowed prepResourceAscii ch := by
  constructor
  · exact fun h => h.resource
  · intro h
    exact
      { node := (prepNode_checked hn).1
        labels := (prepDomain_checked hd).1
        resource := h
        node_le := (prepNode_checked hn).2.1
        domain_le := (prepDomain_checked hd).2.1
        resource_le := (prepResource_eq_some.1 hr).1 }

theorem map_prepResourceChar_ne {a b : Text} (h : DifferAllowed a b) :
    a.map prepResourceChar ≠ b.map prepResourceChar := by
  obtain ⟨i, ch, hallowed, hne, hch⟩ := h
  intro heq
  have hat := congrArg (fun t : Text => t[i]?) heq
  simp only [List.getElem?_map] at hat
  -- the character is that of `a` or that of `b`
  have hkept : prepResourceChar ch = ch := (prepResourceChar_eq_iff hallowed).2 rfl
  obtain ha | hb := hch
  · rw [ha, Option.map_some, hkept] at hat
    obtain ⟨c, hc, hcch⟩ := Option.map_eq_some_iff.1 hat.symm
    rw [ha, hc, (prepResourceChar_eq_iff hallowed).1 hcch] at hne
    exact hne rfl
  · rw [hb, Option.map_some, hkept] at hat
    obtain ⟨c, hc, hcch⟩ := Option.map_eq_some_iff.1 hat
    rw [hb, hc, (prepResourceChar_eq_iff hallowed).1 hcch] at hne
    exact hne rfl

/-- **Validation keeps its promise** about a text that gives a valid JID if and only if the
resource in it holds no character that the table marks invalid. -/
theorem validates_iff (s : Text) (hv : (ofString s).isValid) :
    Validates s ↔ ∀ ch ∈ (cut s).resource, Allowed prepResourceAscii ch := by
  obtain ⟨d, hs, hd⟩ := (Made.ofString s).prepared hv
  obtain ⟨hn, hdom, hr⟩ := ofString_eq_some.1 (congrArg Jid.data hs)
  have hgiven := checked_iff hn hdom hr
  have hprepared := checked_iff hd.node hd.domain hd.resource
  have hmap := (prepResource_eq_some.1 hr).2
  constructor
  · exact fun h => hgiven.1 h.given
  · intro h
    refine ⟨fun e he => ?_, hgiven.2 h, fun t ht hdiffer heq => ?_⟩
    · obtain rfl : d = e := Option.some.inj ((congrArg Jid.data hs).symm.trans he)
      refine hprepared.2 fun ch hch => ?_
      rw [hmap] at hch
      obtain ⟨c, hc, rfl⟩ := List.mem_map.1 hch
      exact allowed_prepResourceChar.2 (h c hc)
    · have hother := (prepResource_eq_some.1
        (ofString_eq_some.1 (congrArg Jid.data (heq.symm.trans hs))).2.2).2
      exact map_prepResourceChar_ne hdiffer (hmap.symm.trans hother)

/-- A resource of letters is what it was. -/
theorem validates_iff_balcony : Validates (textBytes "juliet@capulet.com/balcony") :=
  (validates_iff (textBytes "juliet@capulet.com/balcony") (by decide)).2 (by decide)

/-- A control character in the resource becomes a NUL, and the JID is valid: whichever
it was, the JID is the same. -/
theorem not_validates :
    ofString [0x61#8, 0x2F#8, 0x01#8] = ofString [0x61#8, 0x2F#8, 0x02#8] ∧
      ¬∀ s, (ofString s).isValid → Validates s := by
  refine ⟨by decide, fun h => ?_⟩
  have hvalidates := h [0x61#8, 0x2F#8, 0x01#8] (by decide)
  have hchecked := hvalidates.prepared ⟨[], [0x61#8], [0#8]⟩ (by decide)
  exact not_allowed_nul (hchecked.resource 0#8 (by decide))

end Jid

end Jingle.Xmpp
