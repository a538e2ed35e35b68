/-
The roster as the maps of the client hold it.

`TalkClient` reads its roster by keys only.  The C interface walks through it, so here
the maps are sorted by their keys, as `std::map` is, and every entry is stored under
its account.

**`exists_read_run`**: whatever stanzas a client has taken, its roster is read from
such maps.
-/
import Jingle.Lib.SortedMap
import Jingle.Service.Roster

namespace Jingle.Cif

open Signaling (Text)
open Xmpp Service

/-- A key: texts are in the order of their bytes. -/
structure Key where
  text : Text
  deriving DecidableEq

theorem Key.bytesOf_injective : Function.Injective fun k : Key => Jid.bytesOf k.text := by
  intro a b h
  cases a
  cases b
  rw [Key.mk.injEq]
  exact Jid.bytesOf_injective h

instance : LinearOrder Key :=
  LinearOrder.lift' (fun k : Key => Jid.bytesOf k.text) Key.bytesOf_injective

abbrev ResMap := SortedMap Key RosterItem

structure RosterInfo where
  account : Text
  sub : Text
  name : Text
  res : Option ResMap

/-- `RosterInfoMap`: every contact is stored under its account. -/
structure RosterInfoMap where
  infos : SortedMap Key RosterInfo
  account_eq : ∀ k info, infos.get? k = some info → info.account = k.text

/-! ### Reading by keys -/

/-- The resources by their keys. -/
def readRes (res : ResMap) : Service.ResMap := fun k => res.get? ⟨k⟩

/-- The contact, with its resources by their keys. -/
def RosterInfo.read (info : RosterInfo) : Service.RosterInfo where
  account := info.account
  sub := info.sub
  name := info.name
  res := info.res.map readRes

namespace RosterInfoMap

/-- The roster by its keys. -/
def read (m : RosterInfoMap) : Service.RosterInfoMap := fun k =>
  (m.infos.get? ⟨k⟩).map RosterInfo.read

/-- No contacts. -/
def empty : RosterInfoMap where
  infos := .empty
  account_eq := fun k info h => by cases h

/-- A contact is stored under its account. -/
def insert (m : RosterInfoMap) (info : RosterInfo) : RosterInfoMap where
  infos := m.infos.insert ⟨info.account⟩ info
  account_eq := by
    intro k info' h
    obtain rfl | hne := eq_or_ne k ⟨info.account⟩
    · rw [SortedMap.get?_insert_self, Option.some.injEq] at h
      rw [h]
    · rw [SortedMap.get?_insert_of_ne hne] at h
      exact m.account_eq k info' h

theorem read_insert (m : RosterInfoMap) (info : RosterInfo) :
    (m.insert info).read = Function.update m.read info.account (some info.read) := by
  funext k
  obtain rfl | hne := eq_or_ne k info.account
  · rw [Function.update_self, read, insert, SortedMap.get?_insert_self, Option.map_some]
  · rw [Function.update_of_ne hne, read, read, insert, SortedMap.get?_insert_of_ne]
    exact fun h => hne (congrArg Key.text h)

end RosterInfoMap

/-! ### What the client does -/

theorem readRes_insert (res : ResMap) (k : Text) (item : RosterItem) :
    readRes (res.insert ⟨k⟩ item) = Function.update (readRes res) k (some item) := by
  funext k'
  obtain rfl | hne := eq_or_ne k' k
  · rw [Function.update_self, readRes, SortedMap.get?_insert_self]
  · rw [Function.update_of_ne hne, readRes, readRes, SortedMap.get?_insert_of_ne]
    exact fun h => hne (congrArg Key.text h)

theorem readRes_erase (res : ResMap) (k : Text) :
    readRes (res.erase ⟨k⟩) = Function.update (readRes res) k none := by
  funext k'
  obtain rfl | hne := eq_or_ne k' k
  · rw [Function.update_self, readRes, SortedMap.get?_erase_self]
  · rw [Function.update_of_ne hne, readRes, readRes, SortedMap.get?_erase_of_ne]
    exact fun h => hne (congrArg Key.text h)

theorem exists_updatedResMap (status : Status) (res : ResMap) :
    ∃ res', readRes res' = TalkClient.updatedResMap status (readRes res) := by
  rw [TalkClient.updatedResMap]
  split_ifs
  · exact ⟨_, readRes_insert res _ _⟩
  · exact ⟨_, readRes_erase res _⟩

theorem exists_updatedInfo (m : RosterInfoMap) (status : Status) (k : Text) :
    ∃ info : RosterInfo, info.account = k ∧
      info.read = TalkClient.updatedInfo k status (m.read k) := by
  rw [RosterInfoMap.read]
  cases hget : m.infos.get? ⟨k⟩ with
  | none =>
    obtain ⟨res, hres⟩ := exists_updatedResMap status .empty
    refine ⟨⟨k, [], [], some res⟩, rfl, ?_⟩
    rw [RosterInfo.read, Option.map_some, hres]
    rfl
  | some info =>
    obtain ⟨res, hres⟩ := exists_updatedResMap status (info.res.getD .empty)
    refine ⟨{ info with res := some res }, m.account_eq ⟨k⟩ info hget, ?_⟩
    rw [RosterInfo.read, Option.map_some, hres]
    cases hinfo : info.res with
    | none =>
      have hempty : readRes SortedMap.empty = fun _ => none := rfl
      simp [TalkClient.updatedInfo, RosterInfo.read, hinfo, hempty]
    | some r => simp [TalkClient.updatedInfo, RosterInfo.read, hinfo]

/-- The roster of a client is read from sorted maps. -/
def Walked (c : TalkClient) : Prop := ∃ m : RosterInfoMap, m.read = c.roster

theorem walked_addRosterInfo {c : TalkClient} (h : Walked c) (roster : Service.RosterInfo) :
    Walked (c.addRosterInfo roster) := by
  obtain ⟨m, hm⟩ := h
  rw [TalkClient.addRosterInfo]
  split_ifs
  · exact ⟨m, hm⟩
  · split
    · refine ⟨m.insert ⟨roster.account, roster.sub, roster.name, none⟩, ?_⟩
      rw [RosterInfoMap.read_insert, hm]
      rfl
    · exact ⟨m, hm⟩

theorem walked_onStatusUpdate {c : TalkClient} (h : Walked c) (status : Status) :
    Walked (c.onStatusUpdate status) := by
  obtain ⟨m, hm⟩ := h
  rw [TalkClient.onStatusUpdate]
  split_ifs
  · exact ⟨m, hm⟩
  · obtain ⟨info, haccount, hinfo⟩ := exists_updatedInfo m status status.jid.bareJid.str
    refine ⟨m.insert info, ?_⟩
    rw [RosterInfoMap.read_insert, haccount, hinfo, hm]
    rfl

theorem walked_onPresenceSignal {c : TalkClient} (h : Walked c) (signal : PresenceSignal) :
    Walked (c.onPresenceSignal signal) := by
  cases signal with
  | statusUpdate status => exact walked_onStatusUpdate h status
  | mucJoined muc => exact h
  | mucLeft muc error => exact h
  | mucStatusUpdate muc status => exact h

theorem walked_foldl {α : Type} {f : TalkClient → α → TalkClient}
    (hf : ∀ c a, Walked c → Walked (f c a)) (as : List α) {c : TalkClient} (h : Walked c) :
    Walked (as.foldl f c) := by
  induction as generalizing c with
  | nil => exact h
  | cons a as ih => exact ih (hf c a h)

theorem walked_arrive {c c' : TalkClient} (h : Walked c) {a : TalkClient.Arrival}
    (ha : c.arrive a = some c') : Walked c' := by
  cases a with
  | roster stanza =>
    obtain rfl := Option.some.inj ha
    exact walked_foldl (fun c roster hc => walked_addRosterInfo hc roster) _ h
  | presence stanza =>
    obtain ⟨signals, -, rfl⟩ := Option.map_eq_some_iff.1 ha
    exact walked_foldl (fun c signal hc => walked_onPresenceSignal hc signal) _ h

/-- **Every roster** that a client comes to is read from sorted maps. -/
theorem exists_read_run (jid : Jid) (as : List TalkClient.Arrival) {c : TalkClient}
    (h : (TalkClient.new jid).run as = some c) : ∃ m : RosterInfoMap, m.read = c.roster := by
  have hrun : ∀ {c₀ : TalkClient}, Walked c₀ → c₀.run as = some c → Walked c := by
    clear h
    induction as with
    | nil =>
      intro c₀ h₀ h
      obtain rfl := Option.some.inj h
      exact h₀
    | cons a as ih =>
      intro c₀ h₀ h
      obtain ⟨c₁, h₁, hrest⟩ := Option.bind_eq_some_iff.1 h
      exact ih (walked_arrive h₀ h₁) hrest
  exact hrun ⟨.empty, rfl⟩ h

end Jingle.Cif
