/-
The status that is sent and the status that is read.

`translateStatus` writes a status as a presence stanza, `fillStatus` reads one.  They
agree on every optional element but one: the capabilities are written as four tokens
in one attribute, and only two of them are read (`fill_translateStatus`).

**`roundTrips_iff`**: an available status comes back as it was sent if and only if
neither of the other two capabilities is set and a status of unknown capabilities has
none.
-/
import Jingle.Service.Status
import Mathlib.Data.List.TakeWhile

namespace Jingle.Service

open Signaling (Text QName)
open Xmllite Xmpp

/-! ### The writer -/

/-- `Status`, with the capabilities that `FillStatus` does not set. -/
structure FullStatus extends Status where
  pmucCapability : Bool
  cameraCapability : Bool
  deriving DecidableEq

/-- `ToString` of an integer. -/
def toStringInt (n : ℤ) : Text :=
  if n < 0 then 0x2D#8 :: Numeral.decimal n.natAbs else Numeral.decimal n.natAbs

/-- The text of the `show` element. -/
def showText : Show → Text
  | .xa => textBytes "xa"
  | .dnd => textBytes "dnd"
  | .chat => textBytes "chat"
  | _ => textBytes "away"

/-- The `ext` attribute. -/
def capsText (voice pmuc video camera : Bool) : Text :=
  textBytes (if voice then "voice-v1" else "") ++ textBytes (if pmuc then " pmuc-v1" else "") ++
    textBytes (if video then " video-v1" else "") ++
    textBytes (if camera then " camera-v1" else "")

/-- The `c` element. -/
def capsElement (s : FullStatus) : XmlElement :=
  (((XmlElement.newDefaultNs qnCapsC).addAttr qnNode googleClientNode).addAttr qnVer
    s.version).addAttr qnExt
    (capsText s.voiceCapability s.pmucCapability s.videoCapability s.cameraCapability)

/-- `TranslateStatus`; `stamp` is the time of the day as it is printed. -/
def translateStatus (stamp : Text) (s : FullStatus) : XmlElement :=
  let result := XmlElement.new qnPresence
  if !s.available then result.addAttr qnType (textBytes "unavailable")
  else
    let result :=
      if s.show_ ≠ .online ∧ s.show_ ≠ .offline then
        result.addElement ((XmlElement.new qnShow).addText (showText s.show_))
      else result
    let result := result.addElement ((XmlElement.new qnStatus).addText s.status)
    let result :=
      if s.nick ≠ [] then result.addElement ((XmlElement.new qnNickname).addText s.nick)
      else result
    let result := result.addElement ((XmlElement.new qnPriority).addText (toStringInt s.pri))
    let result :=
      if s.knowCapabilities && s.isGoogleClient then result.addElement (capsElement s) else result
    result.addElement ((XmlElement.newDefaultNs qnDelayX).addAttr qnStamp stamp)

/-- `FillStatus` of a new status. -/
def fillFull (from_ : Jid) (stanza : XmlElement) : Option FullStatus :=
  (fillStatus from_ stanza).map fun s =>
    { toStatus := s, pmucCapability := false, cameraCapability := false }

/-! ### What is promised -/

/-- The statuses are the same, up to the JID and the time. -/
structure SameStatus (s t : FullStatus) : Prop where
  available : t.available = s.available
  show_ : t.show_ = s.show_
  pri : t.pri = s.pri
  status : t.status = s.status
  nick : t.nick = s.nick
  version : t.version = s.version
  know : t.knowCapabilities = s.knowCapabilities
  google : t.isGoogleClient = s.isGoogleClient
  voice : t.voiceCapability = s.voiceCapability
  pmuc : t.pmucCapability = s.pmucCapability
  video : t.videoCapability = s.videoCapability
  camera : t.cameraCapability = s.cameraCapability

/-- **The status comes back** as it was sent. -/
def RoundTrips (s : FullStatus) : Prop :=
  ∀ from_ stamp, ∃ t, fillFull from_ (translateStatus stamp s) = some t ∧ SameStatus s t

/-- A status that can be sent: it is available, its text is not too long, and its
capabilities are unknown or those of a Google client. -/
structure Sendable (s : FullStatus) : Prop where
  available : s.available = true
  shown : s.show_ ∈ [Show.xa, .away, .dnd, .online, .chat]
  pri_int : -2 ^ 31 ≤ s.pri ∧ s.pri ≤ 2 ^ 31 - 1
  status_le : s.status.length ≤ maxStatus
  google : s.knowCapabilities = true → s.isGoogleClient = true

/-- The capabilities that are written and read, and none if they are unknown. -/
structure Conveyed (s : FullStatus) : Prop where
  pmuc : s.pmucCapability = false
  camera : s.cameraCapability = false
  unknown : s.knowCapabilities = false →
    s.isGoogleClient = false ∧ s.voiceCapability = false ∧ s.videoCapability = false ∧
      s.version = []

/-! ### Elements as they are built -/

/-- The element, if it has the name. -/
def named (name : QName) (c : XmlElement) : Option XmlElement :=
  if c.name = name then some c else none

theorem elements_addElement (c : XmlElement) (children : XmlChildren) :
    (children.addElement c).elements = children.elements ++ [c] := by
  induction children with
  | nil => rfl
  | text t next ih => exact ih
  | element name attrs cdata first next _ ih =>
    rw [XmlChildren.addElement, XmlChildren.elements, ih]
    rfl

theorem firstNamed_addElement (e c : XmlElement) (name : QName) :
    (e.addElement c).firstNamed name = (e.firstNamed name).or (named name c) := by
  rw [XmlElement.firstNamed, XmlElement.elementsNamed, XmlElement.addElement]
  dsimp only
  rw [elements_addElement, List.filter_append, List.head?_append, named]
  congr 1
  by_cases h : c.name = name
  · rw [if_pos h, List.filter_singleton, decide_eq_true h]
    rfl
  · rw [if_neg h, List.filter_singleton, decide_eq_false h]
    rfl

theorem firstNamed_ite_addElement (p : Prop) [Decidable p] (e c : XmlElement) (name : QName) :
    (if p then e.addElement c else e).firstNamed name =
      (e.firstNamed name).or (if p then named name c else none) := by
  split_ifs
  · exact firstNamed_addElement e c name
  · exact Option.or_none.symm

@[simp] theorem named_addText (name q : QName) (t : Text) : named name ((XmlElement.new q).addText t) =
    if q = name then some ((XmlElement.new q).addText t) else none := rfl

@[simp] theorem named_addAttr (name q a : QName) (t : Text) :
    named name ((XmlElement.newDefaultNs q).addAttr a t) =
      if q = name then some ((XmlElement.newDefaultNs q).addAttr a t) else none := rfl

@[simp] theorem named_capsElement (name : QName) (s : FullStatus) :
    named name (capsElement s) = if qnCapsC = name then some (capsElement s) else none := rfl

theorem attr_ite_addElement (p : Prop) [Decidable p] (e c : XmlElement) (name : QName) :
    (if p then e.addElement c else e).attr name = e.attr name := by
  split_ifs
  · rfl
  · rfl

theorem attr_addElement (e c : XmlElement) (name : QName) :
    (e.addElement c).attr name = e.attr name := rfl

theorem bodyText_addText (q : QName) (t : Text) : ((XmlElement.new q).addText t).bodyText = t := by
  rw [XmlElement.addText, XmlChildren.addText]
  split_ifs with h
  · exact h.symm
  · rfl

/-! ### Numbers and tokens -/

theorem extract_neg_decimal (n : ℕ) :
    Numeral.extract (0x2D#8 :: Numeral.decimal n) = some (true, n) := by
  have hdigits : (Numeral.decimal n).takeWhile Numeral.isDigit = Numeral.decimal n :=
    List.takeWhile_eq_self_iff.2 fun b hb => Numeral.isDigit_of_mem_decimal hb
  have hspace : (0x2D#8 :: Numeral.decimal n).dropWhile Numeral.isSpace =
      0x2D#8 :: Numeral.decimal n := List.dropWhile_cons_of_neg (by decide)
  rw [Numeral.extract, hspace]
  simp [hdigits, Numeral.decimal_ne_nil]

theorem fromStringInt_toStringInt {n : ℤ} (h : -2 ^ 31 ≤ n ∧ n ≤ 2 ^ 31 - 1) :
    fromStringInt (toStringInt n) = some n := by
  rw [fromStringInt, toStringInt]
  split_ifs with hneg
  · have habs : -(n.natAbs : ℤ) = n := by omega
    rw [extract_neg_decimal]
    dsimp only
    rw [if_pos rfl, habs, if_pos h]
  · have habs : (n.natAbs : ℤ) = n := by omega
    rw [Numeral.extract_decimal]
    dsimp only
    rw [if_neg Bool.false_ne_true, habs, if_pos h]

theorem listContainsToken_capsText (voice pmuc video camera : Bool) :
    listContainsToken (capsText voice pmuc video camera) (textBytes "voice-v1") = voice ∧
      listContainsToken (capsText voice pmuc video camera) (textBytes "video-v1") = video := by
  cases voice <;> cases pmuc <;> cases video <;> cases camera <;> exact ⟨by decide, by decide⟩

/-! ### The parts that are read -/

theorem statusText_written {t : Text} (h : t.length ≤ maxStatus) :
    statusText (some ((XmlElement.new qnStatus).addText t)) = some t := by
  rw [statusText, bodyText_addText, truncateStatus, if_neg (Nat.not_lt.2 h)]

theorem fillPriority_written {n : ℤ} (h : -2 ^ 31 ≤ n ∧ n ≤ 2 ^ 31 - 1) (s : Status) :
    fillPriority (some ((XmlElement.new qnPriority).addText (toStringInt n))) s =
      { s with pri := n } := by
  rw [fillPriority, Option.bind_some, bodyText_addText, fromStringInt_toStringInt h]

theorem showOf_written {show_ : Show} (h : show_ ∈ [Show.xa, .away, .dnd, .online, .chat]) :
    showOf (if show_ ≠ .online ∧ show_ ≠ .offline then
      some ((XmlElement.new qnShow).addText (showText show_)) else none) = show_ := by
  simp only [List.mem_cons, List.not_mem_nil, or_false] at h
  obtain rfl | rfl | rfl | rfl | rfl := h
  all_goals decide

theorem fillCaps_written (f : FullStatus) (s : Status) : fillCaps (some (capsElement f)) s =
    { s with
      knowCapabilities := true
      isGoogleClient := true
      version := f.version
      voiceCapability := f.voiceCapability || s.voiceCapability
      videoCapability := f.videoCapability || s.videoCapability } := by
  have hnode : (capsElement f).attr qnNode = googleClientNode := rfl
  have hver : (capsElement f).attr qnVer = f.version := rfl
  have hext : (capsElement f).attr qnExt =
      capsText f.voiceCapability f.pmucCapability f.videoCapability f.cameraCapability := rfl
  obtain ⟨hvoice, hvideo⟩ := listContainsToken_capsText f.voiceCapability f.pmucCapability
    f.videoCapability f.cameraCapability
  rw [fillCaps]
  dsimp only
  rw [if_pos hnode, hver, hext, hvoice, hvideo]
  cases f.voiceCapability <;> cases f.videoCapability <;> rfl

theorem fillNick_written (t : Text) {s : Status} (h : s.nick = []) :
    fillNick (if t ≠ [] then some ((XmlElement.new qnNickname).addText t) else none) s =
      { s with nick := t } := by
  split_ifs with ht
  · rw [fillNick, bodyText_addText]
  · rw [fillNick, not_not.1 ht, ← h]

/-! ### The stanza that is written -/

section Written

variable {s : FullStatus} (stamp : Text) (h : s.available = true)
include h

theorem attr_translateStatus : (translateStatus stamp s).attr qnType = [] := by
  rw [translateStatus, h, if_neg (by decide)]
  dsimp only
  rw [attr_addElement, attr_ite_addElement, attr_addElement, attr_ite_addElement,
    attr_addElement, attr_ite_addElement]
  rfl

theorem firstNamed_translateStatus (name : QName) :
    (translateStatus stamp s).firstNamed name =
      ((((((if s.show_ ≠ .online ∧ s.show_ ≠ .offline then
          named name ((XmlElement.new qnShow).addText (showText s.show_)) else none).or
        (named name ((XmlElement.new qnStatus).addText s.status))).or
        (if s.nick ≠ [] then named name ((XmlElement.new qnNickname).addText s.nick) else none)).or
        (named name ((XmlElement.new qnPriority).addText (toStringInt s.pri)))).or
        (if s.knowCapabilities && s.isGoogleClient then named name (capsElement s) else none)).or
        (named name ((XmlElement.newDefaultNs qnDelayX).addAttr qnStamp stamp))) := by
  rw [translateStatus, h, if_neg (by decide)]
  dsimp only
  rw [firstNamed_addElement, firstNamed_ite_addElement, firstNamed_addElement,
    firstNamed_ite_addElement, firstNamed_addElement, firstNamed_ite_addElement]
  rfl

/-- **What is read** of an available status: all of it but two capabilities, and the
capabilities only if they are known and those of a Google client. -/
theorem fill_translateStatus (hshown : s.show_ ∈ [Show.xa, .away, .dnd, .online, .chat])
    (hpri : -2 ^ 31 ≤ s.pri ∧ s.pri ≤ 2 ^ 31 - 1) (hlen : s.status.length ≤ maxStatus)
    (from_ : Jid) : fillStatus from_ (translateStatus stamp s) = some
      { jid := from_
        pri := s.pri
        show_ := s.show_
        status := s.status
        available := true
        knowCapabilities := s.knowCapabilities && s.isGoogleClient
        voiceCapability := s.knowCapabilities && s.isGoogleClient && s.voiceCapability
        videoCapability := s.knowCapabilities && s.isGoogleClient && s.videoCapability
        isGoogleClient := s.knowCapabilities && s.isGoogleClient
        version := if s.knowCapabilities && s.isGoogleClient then s.version else []
        sentTime := stamp
        nick := s.nick } := by
  have hfirst := firstNamed_translateStatus stamp h
  have hshow : (translateStatus stamp s).firstNamed qnShow =
      if s.show_ ≠ .online ∧ s.show_ ≠ .offline then
        some ((XmlElement.new qnShow).addText (showText s.show_)) else none := by
    simp +decide [hfirst]
  have hstatus : (translateStatus stamp s).firstNamed qnStatus =
      some ((XmlElement.new qnStatus).addText s.status) := by
    simp +decide [hfirst]
  have hnick : (translateStatus stamp s).firstNamed qnNickname =
      if s.nick ≠ [] then some ((XmlElement.new qnNickname).addText s.nick) else none := by
    simp +decide [hfirst]
  have hpriority : (translateStatus stamp s).firstNamed qnPriority =
      some ((XmlElement.new qnPriority).addText (toStringInt s.pri)) := by
    simp +decide [hfirst]
  have hcaps : (translateStatus stamp s).firstNamed qnCapsC =
      if s.knowCapabilities && s.isGoogleClient then some (capsElement s) else none := by
    simp +decide [hfirst]
  have hdelay : (translateStatus stamp s).firstNamed qnDelayX =
      some ((XmlElement.newDefaultNs qnDelayX).addAttr qnStamp stamp) := by
    simp +decide [hfirst]
  have htype : (translateStatus stamp s).attr qnType ≠ textBytes "unavailable" := by
    rw [attr_translateStatus stamp h]
    decide
  rw [fillStatus]
  dsimp only
  rw [if_neg htype, hstatus, statusText_written hlen, Option.map_some, hpriority,
    fillPriority_written hpri, hshow, showOf_written hshown, hcaps, hdelay, hnick]
  rw [fillNick_written]
  · cases s.knowCapabilities && s.isGoogleClient with
    | true =>
      rw [if_pos rfl, fillCaps_written]
      have hstamp : ((XmlElement.newDefaultNs qnDelayX).addAttr qnStamp stamp).attr qnStamp =
          stamp := rfl
      simp [fillDelay, hstamp, Status.new]
    | false => rfl
  · cases s.knowCapabilities && s.isGoogleClient with
    | true =>
      rw [if_pos rfl, fillCaps_written]
      rfl
    | false => rfl

end Written

/-! ### The round trip -/

/-- **An available status comes back** as it was sent if and only if all that it says is
conveyed. -/
theorem roundTrips_iff (s : FullStatus) (h : Sendable s) : RoundTrips s ↔ Conveyed s := by
  have hread (from_ : Jid) (stamp : Text) :=
    fill_translateStatus stamp h.available h.shown h.pri_int h.status_le from_
  constructor
  · intro hs
    obtain ⟨t, ht, hsame⟩ := hs ⟨none⟩ []
    rw [fillFull, hread, Option.map_some, Option.some.injEq] at ht
    subst ht
    refine ⟨hsame.pmuc.symm, hsame.camera.symm, fun hunknown => ?_⟩
    have hgoogle := hsame.google.symm
    have hvoice := hsame.voice.symm
    have hvideo := hsame.video.symm
    have hversion := hsame.version.symm
    dsimp only at hgoogle hvoice hvideo hversion
    rw [hunknown, Bool.false_and] at hgoogle hvoice hvideo hversion
    exact ⟨hgoogle, hvoice, hvideo, hversion⟩
  · intro hs from_ stamp
    refine ⟨_, by rw [fillFull, hread, Option.map_some], ?_⟩
    have hsame : s.knowCapabilities = true ∧ s.isGoogleClient = true ∨
        s.knowCapabilities = false ∧ s.isGoogleClient = false ∧ s.voiceCapability = false ∧
          s.videoCapability = false ∧ s.version = [] := by
      cases hk : s.knowCapabilities with
      | true => exact .inl ⟨rfl, h.google hk⟩
      | false => exact .inr ⟨rfl, hs.unknown hk⟩
    obtain ⟨hk, hg⟩ | ⟨hk, hg, hvoice, hvideo, hversion⟩ := hsame
    · constructor <;> simp [h.available, hk, hg, hs.pmuc, hs.camera]
    · constructor <;> simp [h.available, hk, hg, hvoice, hvideo, hversion, hs.pmuc, hs.camera]

/-- A status of a client that can talk and be seen. -/
def sampleStatus (camera : Bool) : FullStatus where
  jid := ⟨none⟩
  pri := -5
  show_ := .dnd
  status := textBytes "busy"
  available := true
  knowCapabilities := true
  voiceCapability := true
  videoCapability := true
  isGoogleClient := true
  version := textBytes "1.0"
  sentTime := []
  nick := textBytes "Ann"
  pmucCapability := false
  cameraCapability := camera

theorem sendable_sampleStatus (camera : Bool) : Sendable (sampleStatus camera) where
  available := rfl
  shown := (by decide : Show.dnd ∈ [Show.xa, .away, .dnd, .online, .chat])
  pri_int := (by decide : -2 ^ 31 ≤ (-5 : ℤ) ∧ (-5 : ℤ) ≤ 2 ^ 31 - 1)
  status_le := (by decide : (textBytes "busy").length ≤ maxStatus)
  google := fun _ => rfl

/-- It comes back. -/
theorem roundTrips_iff_sample : RoundTrips (sampleStatus false) :=
  (roundTrips_iff (sampleStatus false) (sendable_sampleStatus false)).2
    ⟨rfl, rfl, fun h => Bool.noConfusion h⟩

/-- With its camera it does not. -/
theorem not_roundTrips : ¬∀ s, Sendable s → RoundTrips s := by
  intro h
  obtain ⟨t, ht, hsame⟩ := h (sampleStatus true) (sendable_sampleStatus true) ⟨none⟩ []
  obtain ⟨s, -, rfl⟩ := Option.map_eq_some_iff.1 ht
  exact Bool.false_ne_true hsame.camera

end Jingle.Service
