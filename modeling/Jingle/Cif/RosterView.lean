/-
The roster that C programs see.

`getRosters` walks through the maps of the client and makes linked lists, each entry
before the last one, and copies every text as a C string.  The JID of a contact is put
together from its account and the resource that comes last, without a slash between
them.  So it is the JID of that resource, or of another one, only by accident
(`full_append_iff`).

**`faithful_iff`**: the view is faithful if and only if no text has a NUL and the last
resource of every contact begins with the slash and goes on as a resource that is
listed.
-/
import Jingle.Cif.RosterMap
import Jingle.Xmpp.Validation
import Jingle.Lib.Strtoul

namespace Jingle.Cif

open Signaling (Text)
open Xmpp Service
open Numeral (cString cString_eq_self_iff zero_notMem_cString)

/-! ### The view -/

/-- `roster_sub_t`. -/
inductive RosterSub
  | both | none
  deriving DecidableEq, Repr

/-- `jid_resource_t`. -/
structure JidResource where
  resource : Text
  prio : ℤ
  show_ : Show
  status : Text
  deriving DecidableEq

/-- `roster_t`: a pointer that may be NULL is an option, a linked list a list. -/
structure RosterT where
  account : Text
  name : Option Text
  jid : Option Text
  sub : RosterSub
  respart : List JidResource
  deriving DecidableEq

/-- A resource as it is copied. -/
def jidResource (item : RosterItem) : JidResource where
  resource := cString item.jid.resource
  prio := item.prio
  show_ := item.show_
  status := cString item.status

/-- The loop over the resources, in one of its rounds. -/
def addResource (rh : List JidResource) (rr : Key × RosterItem) : List JidResource :=
  jidResource rr.2 :: rh

/-- The resources of a contact. -/
def respart (res : Option ResMap) : List JidResource :=
  match res with
  | none => []
  | some res => res.entries.foldl addResource []

/-- The entry of a contact. -/
def rosterT (ri : RosterInfo) : RosterT where
  account := cString ri.account
  name := if ri.name ≠ [] then some (cString ri.name) else none
  sub := if ri.sub = textBytes "both" then .both else .none
  jid :=
    match respart ri.res with
    | [] => none
    | rh :: _ => some (cString (ri.account ++ rh.resource))
  respart := respart ri.res

/-- `xmpp_get_rosters`, once there is a client. -/
def getRosters (rosters : RosterInfoMap) : List RosterT :=
  rosters.infos.entries.foldl (fun h iter => rosterT iter.2 :: h) []

/-! ### What is promised -/

/-- The contacts of the roster. -/
def contacts (m : RosterInfoMap) : List RosterInfo := m.infos.entries.map (·.2)

/-- The resources of a contact that are there. -/
def online (ri : RosterInfo) : List RosterItem :=
  match ri.res with
  | none => []
  | some res => res.entries.map (·.2)

/-- A resource as it should be listed. -/
def listed (item : RosterItem) : JidResource where
  resource := item.jid.resource
  prio := item.prio
  show_ := item.show_
  status := item.status

/-- An entry says what the roster says about a contact. -/
structure Mirrors (ri : RosterInfo) (r : RosterT) : Prop where
  account : r.account = ri.account
  name : r.name = if ri.name = [] then none else some ri.name
  sub : r.sub = .both ↔ ri.sub = textBytes "both"
  resources : r.respart.Perm ((online ri).map listed)
  jid_none : r.jid = none ↔ online ri = []
  jid_some : ∀ j, r.jid = some j → (Jid.ofString j).isFull = true ∧
    (Jid.ofString j).bareJid.str = ri.account ∧
      ∃ x ∈ r.respart, (Jid.ofString j).resource = x.resource

/-- **The view is faithful**: there is one entry for each contact. -/
def Faithful (m : RosterInfoMap) : Prop :=
  ∃ rs, rs.Perm (getRosters m) ∧ List.Forall₂ Mirrors (contacts m) rs

/-- A contact that can be shown as it is.  No text of it has a NUL; and the resource that
comes last, if there is one, is a slash and, as a resource, one that is there. -/
structure Representable (ri : RosterInfo) : Prop where
  account : 0#8 ∉ ri.account
  name : 0#8 ∉ ri.name
  items : ∀ item ∈ online ri, 0#8 ∉ item.jid.resource ∧ 0#8 ∉ item.status
  jid : ∀ item, (online ri).getLast? = some item → bareKey ri.account = ri.account ∧
    ri.account ≠ [] ∧ ∃ q res, item.jid.resource = 0x2F#8 :: q ∧ prepResource q = some res ∧
      res ≠ [] ∧ ∃ x ∈ online ri, x.jid.resource = res

/-! ### A bare JID and what follows it -/

theorem bareJid_of_prepared {d : Jid.Data} (h : d.Prepared) :
    (⟨some d⟩ : Jid).bareJid = ⟨some { d with resource := [] }⟩ := by
  have hvalid : (⟨some d⟩ : Jid).isValid = true := decide_eq_true h.nonempty
  rw [Jid.bareJid]
  by_cases hres : d.resource = []
  · have hfull : (⟨some d⟩ : Jid).isFull = false := by simp [Jid.isFull, hres]
    obtain ⟨node, domain, resource⟩ := d
    obtain rfl : resource = [] := hres
    simp [hvalid, hfull]
  · have hfull : (⟨some d⟩ : Jid).isFull = true := by simp [Jid.isFull, hvalid, hres]
    have hempty : prepResource [] = some [] := rfl
    simp [hvalid, hfull, Jid.ofParts, h.nonempty, h.node, h.domain, hempty]

theorem exists_bare {a : Text} (h : bareKey a = a) (hne : a ≠ []) :
    ∃ d : Jid.Data, d.Prepared ∧ d.resource = [] ∧ d.str = a := by
  cases hdata : (Jid.ofString a).data with
  | none =>
    have hjid : Jid.ofString a = ⟨none⟩ := congrArg Jid.mk hdata
    rw [bareKey, hjid] at h
    exact absurd h.symm hne
  | some d =>
    have hprep := Jid.ofString_prepared hdata
    have hjid : Jid.ofString a = ⟨some d⟩ := congrArg Jid.mk hdata
    have hprep' : ({ d with resource := [] } : Jid.Data).Prepared :=
      ⟨hprep.node, hprep.domain, rfl⟩
    refine ⟨{ d with resource := [] }, hprep', rfl, ?_⟩
    rw [bareKey, hjid, bareJid_of_prepared hprep, Jid.str_of_prepared hprep'] at h
    exact h

theorem bareKey_str {d : Jid.Data} (h : d.Prepared) (hres : d.resource = []) :
    bareKey d.str = d.str := by
  rw [bareKey, Jid.ofString_str h, bareJid_of_prepared h]
  obtain ⟨node, domain, resource⟩ := d
  obtain rfl : resource = [] := hres
  exact Jid.str_of_prepared h

theorem str_bare {d : Jid.Data} (hres : d.resource = []) :
    d.str = (if d.node ≠ [] then d.node ++ [0x40#8] else []) ++ d.domain := by
  rw [Jid.Data.str, hres, if_neg (not_not.2 rfl), List.append_nil]

theorem slash_notMem_bare {d : Jid.Data} (h : d.Prepared) (hres : d.resource = []) :
    0x2F#8 ∉ d.str := by
  rw [str_bare hres, List.mem_append]
  rintro (hmem | hmem)
  · split_ifs at hmem with hnode
    · obtain hmem | hmem := List.mem_append.1 hmem
      · exact ((prepNode_some h.node).2 _ hmem).1 rfl
      · exact absurd (List.mem_singleton.1 hmem) (by decide)
    · exact List.not_mem_nil hmem
  · exact ((prepDomain_some h.domain).2.2 _ hmem).1 rfl

theorem cut_append_slash {p : Text} (hp : 0x2F#8 ∉ p) (q : Text) :
    Jid.cut (p ++ 0x2F#8 :: q) = { Jid.cut p with resource := q } := by
  have hfree : ∀ ch ∈ p, ch ≠ 0x2F#8 := fun ch hch heq => hp (heq ▸ hch)
  rw [Jid.cut, Jid.cut, splitFirst_append hfree, splitFirst_none hfree]
  rfl

theorem cut_resource {p : Text} (hp : 0x2F#8 ∉ p) : (Jid.cut p).resource = [] := by
  have hfree : ∀ ch ∈ p, ch ≠ 0x2F#8 := fun ch hch heq => hp (heq ▸ hch)
  rw [Jid.cut, splitFirst_none hfree]
  rfl

theorem cut_bare_append {d : Jid.Data} (h : d.Prepared) (hres : d.resource = []) {p : Text}
    (hp : 0x2F#8 ∉ p) :
    (Jid.cut (d.str ++ p)).node = d.node ∧ (Jid.cut (d.str ++ p)).domain = d.domain ++ p ∨
      p ≠ [] ∧ d.node = [] ∧ (Jid.cut (d.str ++ p)).node ≠ [] := by
  have hslash : ∀ ch ∈ d.str ++ p, ch ≠ 0x2F#8 := by
    intro ch hch heq
    obtain hmem | hmem := List.mem_append.1 hch
    · exact slash_notMem_bare h hres (heq ▸ hmem)
    · exact hp (heq ▸ hmem)
  have hnodeAt : ∀ ch ∈ d.node, ch ≠ 0x40#8 := fun ch hch => ((prepNode_some h.node).2 ch hch).2
  have hdomainAt : ∀ ch ∈ d.domain, ch ≠ 0x40#8 :=
    fun ch hch => ((prepDomain_some h.domain).2.2 ch hch).2
  rw [Jid.cut, splitFirst_none hslash]
  dsimp only
  rw [str_bare hres]
  by_cases hnode : d.node = []
  · rw [if_neg (not_not.2 hnode), List.nil_append]
    by_cases hat : 0x40#8 ∈ p
    · -- the domain becomes a node
      obtain ⟨u, v, rfl, hu⟩ := List.eq_append_cons_of_mem hat
      have hfree : ∀ ch ∈ d.domain ++ u, ch ≠ 0x40#8 := by
        intro ch hch heq
        obtain hmem | hmem := List.mem_append.1 hch
        · exact hdomainAt ch hmem heq
        · exact hu (heq ▸ hmem)
      rw [← List.append_assoc, splitFirst_append hfree]
      refine .inr ⟨fun hnil => ?_, hnode, fun hnil => ?_⟩
      · exact absurd (List.append_eq_nil_iff.1 hnil).2 (List.cons_ne_nil _ _)
      · exact h.nonempty (List.append_eq_nil_iff.1 hnil).1
    · have hfree : ∀ ch ∈ d.domain ++ p, ch ≠ 0x40#8 := by
        intro ch hch heq
        obtain hmem | hmem := List.mem_append.1 hch
        · exact hdomainAt ch hmem heq
        · exact hat (heq ▸ hmem)
      rw [splitFirst_none hfree]
      exact .inl ⟨hnode.symm, rfl⟩
  · rw [if_pos hnode, List.append_assoc, List.append_assoc, List.singleton_append,
      splitFirst_append hnodeAt]
    exact .inl ⟨rfl, rfl⟩

/-- **A text behind an account** makes a full JID of that account if and only if it is a
slash and a resource. -/
theorem full_append_iff {a r res : Text} :
    ((Jid.ofString (a ++ r)).isFull = true ∧ (Jid.ofString (a ++ r)).bareJid.str = a ∧
        (Jid.ofString (a ++ r)).resource = res) ↔
      bareKey a = a ∧ a ≠ [] ∧ res ≠ [] ∧ ∃ q, r = 0x2F#8 :: q ∧ prepResource q = some res := by
  constructor
  · rintro ⟨hfull, hbare, hres⟩
    cases hdata : (Jid.ofString (a ++ r)).data with
    | none =>
      rw [Jid.isFull, hdata] at hfull
      exact absurd hfull Bool.false_ne_true
    | some e =>
      have he := Jid.ofString_prepared hdata
      have hjid : Jid.ofString (a ++ r) = ⟨some e⟩ := congrArg Jid.mk hdata
      obtain rfl : e.resource = res := by
        rw [← hres, hjid]
        rfl
      have hne : e.resource ≠ [] := by
        rw [hjid] at hfull
        simpa [Jid.isFull, Jid.isValid, he.nonempty] using hfull
      have hd : ({ e with resource := [] } : Jid.Data).Prepared := ⟨he.node, he.domain, rfl⟩
      rw [hjid, bareJid_of_prepared he, Jid.str_of_prepared hd] at hbare
      subst hbare
      obtain ⟨hn, hdom, hr⟩ := Jid.ofString_eq_some.1 hdata
      have hbareSlash := slash_notMem_bare hd rfl
      by_cases hslash : 0x2F#8 ∈ r
      · obtain ⟨p, q, rfl, hp⟩ := List.eq_append_cons_of_mem hslash
        have hfree : 0x2F#8 ∉ ({ e with resource := [] } : Jid.Data).str ++ p := by
          rw [List.mem_append]
          rintro (hmem | hmem)
          · exact hbareSlash hmem
          · exact hp hmem
        rw [← List.append_assoc, cut_append_slash hfree] at hn hdom hr
        -- what is before the slash is as long as the bare JID
        have hnil : p = [] := by
          obtain ⟨-, hdomain⟩ | ⟨-, hnode, hcut⟩ := cut_bare_append hd rfl hp
          · dsimp only at hdom hdomain
            rw [hdomain] at hdom
            have hlen := (prepDomain_checked hdom).2.2
            rw [List.length_append] at hlen
            exact List.length_eq_zero_iff.1 (by omega)
          · dsimp only at hn hnode
            have hzero : e.node.length = 0 := List.length_eq_zero_iff.2 hnode
            have hlen := (prepNode_checked hn).2.2.symm.trans hzero
            exact absurd (List.length_eq_zero_iff.1 hlen) hcut
        exact ⟨bareKey_str hd rfl, fun hstr => hd.nonempty (List.append_eq_nil_iff.1
          ((str_bare rfl).symm.trans hstr)).2, hne, q, by rw [hnil, List.nil_append], hr⟩
      · have hfree : 0x2F#8 ∉ ({ e with resource := [] } : Jid.Data).str ++ r := by
          rw [List.mem_append]
          rintro (hmem | hmem)
          · exact hbareSlash hmem
          · exact hslash hmem
        rw [cut_resource hfree] at hr
        exact absurd (Option.some.inj hr).symm hne
  · rintro ⟨hkey, hne, hres, q, rfl, hq⟩
    obtain ⟨d, hd, hnil, rfl⟩ := exists_bare hkey hne
    have hcut : Jid.cut (d.str ++ 0x2F#8 :: q) = { d with resource := q } := by
      rw [cut_append_slash (slash_notMem_bare hd hnil)]
      have hbare := cut_bare_append hd hnil List.not_mem_nil
      rw [List.append_nil, List.append_nil] at hbare
      obtain ⟨hnode, hdomain⟩ | ⟨habsurd, -⟩ := hbare
      · dsimp only
        rw [hnode, hdomain]
      · exact absurd rfl habsurd
    have hdata : (Jid.ofString (d.str ++ 0x2F#8 :: q)).data = some { d with resource := res } := by
      rw [Jid.ofString_eq_some, hcut]
      exact ⟨hd.node, hd.domain, hq⟩
    have hprep := Jid.ofString_prepared hdata
    have hjid : Jid.ofString (d.str ++ 0x2F#8 :: q) = ⟨some { d with resource := res }⟩ :=
      congrArg Jid.mk hdata
    rw [hjid, bareJid_of_prepared hprep]
    refine ⟨?_, ?_, rfl⟩
    · simp [Jid.isFull, Jid.isValid, hd.nonempty, hres]
    · obtain ⟨node, domain, resource⟩ := d
      obtain rfl : resource = [] := hnil
      exact Jid.str_of_prepared hd

/-! ### The entry of a contact -/

theorem respart_eq (ri : RosterInfo) : respart ri.res = ((online ri).map jidResource).reverse := by
  unfold respart online
  cases ri.res with
  | none => rfl
  | some res =>
    have hloop : res.entries.foldl addResource [] =
        (res.entries.map fun rr => jidResource rr.2).reverse ++ [] :=
      List.foldl_flip_cons_eq_append
    dsimp only
    rw [hloop, List.append_nil, List.map_map]
    rfl

theorem jid_rosterT (ri : RosterInfo) : (rosterT ri).jid =
    (online ri).getLast?.map fun item => cString (ri.account ++ cString item.jid.resource) := by
  have hjid : (rosterT ri).jid = match respart ri.res with
      | [] => none
      | rh :: _ => some (cString (ri.account ++ rh.resource)) := rfl
  rw [hjid, respart_eq]
  obtain hnil | ⟨items, item, hitems⟩ := (online ri).eq_nil_or_concat
  · rw [hnil]
    rfl
  · rw [hitems, List.concat_eq_append, List.map_append, List.reverse_append,
      List.getLast?_append]
    rfl

theorem jidResource_eq_listed_iff {item : RosterItem} :
    jidResource item = listed item ↔ 0#8 ∉ item.jid.resource ∧ 0#8 ∉ item.status := by
  rw [← cString_eq_self_iff, ← cString_eq_self_iff, jidResource, listed, JidResource.mk.injEq]
  simp

theorem respart_eq_listed {ri : RosterInfo}
    (h : ∀ item ∈ online ri, 0#8 ∉ item.jid.resource ∧ 0#8 ∉ item.status) :
    respart ri.res = ((online ri).map listed).reverse := by
  rw [respart_eq, List.map_congr_left fun item hitem => jidResource_eq_listed_iff.2 (h item hitem)]

theorem jid_rosterT_eq {ri : RosterInfo} (haccount : 0#8 ∉ ri.account)
    (h : ∀ item ∈ online ri, 0#8 ∉ item.jid.resource ∧ 0#8 ∉ item.status) :
    (rosterT ri).jid = (online ri).getLast?.map fun item => ri.account ++ item.jid.resource := by
  rw [jid_rosterT]
  refine Option.map_congr fun item hitem => ?_
  have hres := (h item (List.mem_of_getLast? hitem)).1
  have hall : 0#8 ∉ ri.account ++ item.jid.resource := by
    rw [List.mem_append]
    rintro (hmem | hmem)
    · exact haccount hmem
    · exact hres hmem
  rw [cString_eq_self_iff.2 hres, cString_eq_self_iff.2 hall]

theorem Mirrors.noNul {ri : RosterInfo} (h : Mirrors ri (rosterT ri)) :
    0#8 ∉ ri.account ∧ 0#8 ∉ ri.name ∧
      ∀ item ∈ online ri, 0#8 ∉ item.jid.resource ∧ 0#8 ∉ item.status := by
  refine ⟨cString_eq_self_iff.1 h.account, ?_, fun item hitem => ?_⟩
  · have hname : (if ri.name ≠ [] then some (cString ri.name) else none) =
        if ri.name = [] then none else some ri.name := h.name
    by_cases hnil : ri.name = []
    · rw [hnil]
      exact List.not_mem_nil
    · rw [if_pos hnil, if_neg hnil] at hname
      exact cString_eq_self_iff.1 (Option.some.inj hname)
  · have hmem : listed item ∈ (online ri).map listed := List.mem_map_of_mem hitem
    have hres : listed item ∈ respart ri.res := h.resources.mem_iff.2 hmem
    rw [respart_eq, List.mem_reverse] at hres
    obtain ⟨copy, -, hcopy⟩ := List.mem_map.1 hres
    have hresource : cString copy.jid.resource = item.jid.resource :=
      congrArg JidResource.resource hcopy
    have hstatus : cString copy.status = item.status := congrArg JidResource.status hcopy
    rw [← hresource, ← hstatus]
    exact ⟨zero_notMem_cString _, zero_notMem_cString _⟩

theorem mirrors_iff (ri : RosterInfo) : Mirrors ri (rosterT ri) ↔ Representable ri := by
  constructor
  · intro h
    obtain ⟨haccount, hname, hitems⟩ := h.noNul
    refine ⟨haccount, hname, hitems, fun item hlast => ?_⟩
    have hjid := jid_rosterT_eq haccount hitems
    rw [hlast, Option.map_some] at hjid
    obtain ⟨hfull, hbare, x, hx, hresource⟩ := h.jid_some _ hjid
    obtain ⟨hkey, hne, hres, q, hq, hprep⟩ := full_append_iff.1 ⟨hfull, hbare, hresource⟩
    have hx' : x ∈ respart ri.res := hx
    rw [respart_eq_listed hitems, List.mem_reverse] at hx'
    obtain ⟨y, hy, rfl⟩ := List.mem_map.1 hx'
    exact ⟨hkey, hne, q, _, hq, hprep, hres, y, hy, rfl⟩
  · intro h
    have hjid := jid_rosterT_eq h.account h.items
    have hrespart : (rosterT ri).respart = ((online ri).map listed).reverse :=
      respart_eq_listed h.items
    refine ⟨cString_eq_self_iff.2 h.account, ?_, ?_, ?_, ?_, fun j hj => ?_⟩
    · have hname : (rosterT ri).name = if ri.name ≠ [] then some (cString ri.name) else none := rfl
      rw [hname, cString_eq_self_iff.2 h.name, ite_not]
    · by_cases hboth : ri.sub = textBytes "both"
      · exact iff_of_true (if_pos hboth) hboth
      · have hnone : (rosterT ri).sub = .none := if_neg hboth
        exact iff_of_false (fun heq => RosterSub.noConfusion (hnone.symm.trans heq)) hboth
    · rw [hrespart]
      exact List.reverse_perm _
    · rw [hjid, Option.map_eq_none_iff, List.getLast?_eq_none_iff]
    · rw [hjid] at hj
      obtain ⟨item, hlast, rfl⟩ := Option.map_eq_some_iff.1 hj
      obtain ⟨hkey, hne, q, res, hq, hprep, hres, y, hy, rfl⟩ := h.jid item hlast
      obtain ⟨hfull, hbare, hresource⟩ :=
        full_append_iff.2 ⟨hkey, hne, hres, q, hq, hprep⟩
      refine ⟨hfull, hbare, listed y, ?_, hresource⟩
      rw [hrespart, List.mem_reverse]
      exact List.mem_map_of_mem hy

/-! ### The whole view -/

theorem getRosters_eq (m : RosterInfoMap) :
    getRosters m = ((contacts m).map rosterT).reverse := by
  have hloop : getRosters m = (m.infos.entries.map fun iter => rosterT iter.2).reverse ++ [] :=
    List.foldl_flip_cons_eq_append
  rw [hloop, List.append_nil, contacts, List.map_map]
  rfl

theorem eq_of_account {m : RosterInfoMap} {a b : RosterInfo} (ha : a ∈ contacts m)
    (hb : b ∈ contacts m) (h : a.account = b.account) : a = b := by
  obtain ⟨⟨k, a⟩, hka, rfl⟩ := List.mem_map.1 ha
  obtain ⟨⟨l, b⟩, hlb, rfl⟩ := List.mem_map.1 hb
  have hgeta := SortedMap.get?_eq_some.2 hka
  have hgetb := SortedMap.get?_eq_some.2 hlb
  have hkey : k = l := by
    cases k
    cases l
    rw [Key.mk.injEq]
    exact (m.account_eq _ a hgeta).symm.trans (h.trans (m.account_eq _ b hgetb))
  subst hkey
  exact Option.some.inj (hgeta.symm.trans hgetb)

theorem representable_of_faithful {m : RosterInfoMap} (h : Faithful m) :
    ∀ ri ∈ contacts m, Representable ri := by
  obtain ⟨rs, hperm, hall⟩ := h
  have hentry : ∀ ri ∈ contacts m, ∃ other ∈ contacts m, Mirrors ri (rosterT other) := by
    intro ri hri
    obtain ⟨i, hi, rfl⟩ := List.getElem_of_mem hri
    have hi' : i < rs.length := hall.length_eq ▸ hi
    have hmem : rs[i] ∈ getRosters m := hperm.mem_iff.1 (List.getElem_mem hi')
    rw [getRosters_eq, List.mem_reverse] at hmem
    obtain ⟨other, hother, heq⟩ := List.mem_map.1 hmem
    refine ⟨other, hother, ?_⟩
    rw [heq]
    exact List.Forall₂.get hall hi hi'
  -- no account has a NUL, so the entry that mirrors a contact is its own
  have hnul : ∀ ri ∈ contacts m, 0#8 ∉ ri.account := by
    intro ri hri
    obtain ⟨other, -, hmirrors⟩ := hentry ri hri
    have haccount : cString other.account = ri.account := hmirrors.account
    rw [← haccount]
    exact zero_notMem_cString _
  intro ri hri
  obtain ⟨other, hother, hmirrors⟩ := hentry ri hri
  have haccount : cString other.account = ri.account := hmirrors.account
  rw [cString_eq_self_iff.2 (hnul other hother)] at haccount
  obtain rfl := eq_of_account hother hri haccount
  exact (mirrors_iff other).1 hmirrors

/-- **The view is faithful** if and only if every contact can be shown. -/
theorem faithful_iff (m : RosterInfoMap) :
    Faithful m ↔ ∀ ri ∈ contacts m, Representable ri := by
  constructor
  · exact representable_of_faithful
  · intro h
    refine ⟨(contacts m).map rosterT, ?_, ?_⟩
    · rw [getRosters_eq]
      exact (List.reverse_perm _).symm
    · rw [List.forall₂_map_right_iff, List.forall₂_same]
      exact fun ri hri => (mirrors_iff ri).2 (h ri hri)

/-- A resource of a friend. -/
def sampleItem : RosterItem where
  jid := Jid.ofString (textBytes "a@x/r")
  show_ := .online
  status := []
  prio := 0

/-- A roster with the friend in it. -/
def sampleMap : RosterInfoMap :=
  .insert .empty ⟨textBytes "a@x", textBytes "both", textBytes "A",
    some (SortedMap.empty.insert ⟨textBytes "r"⟩ sampleItem)⟩

/-- The JID of the friend is the text `a@xr`, which has no resource. -/
theorem not_faithful : ¬∀ m, Faithful m := by
  intro h
  have hrep := representable_of_faithful (h sampleMap) _ List.mem_cons_self
  obtain ⟨-, -, q, res, hq, -⟩ := hrep.jid sampleItem rfl
  have hres : sampleItem.jid.resource = [0x72#8] := by decide
  rw [hres] at hq
  exact absurd (List.cons_eq_cons.1 hq).1 (by decide)

end Jingle.Cif
