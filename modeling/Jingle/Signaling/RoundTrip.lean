/-
What is written of transport infos is read back.

A candidate is written as one element, and reading that element gives an
equivalent candidate (`parseCandidate_writeCandidate`).  The two layouts carry
lists of them: the Jingle elements are read one by one, and the one list of the
Gingle layout is divided by the names of the channels.  So every content has the
candidates that were written for it (`round_trip`), with two exceptions.  Without
audio and video, a Gingle message cannot name a content, and all candidates come
back as those of `cnOther`; and an address with a host name is written as that
name, so that its number is lost unless the name says it (`not_round_trip`).
-/
import Jingle.Signaling.TransportInfos

namespace Jingle.Signaling

open P2p Numeral

/-! ### Lists of results -/

section Results

variable {ε α β : Type}

theorem mapM_eq_ok_cons {f : α → Except ε β} {a : α} {as : List α} {bs : List β} :
    (a :: as).mapM f = .ok bs ↔
      ∃ b bs', f a = .ok b ∧ as.mapM f = .ok bs' ∧ bs = b :: bs' := by
  rw [List.mapM_cons]
  rcases f a with e | b
  · exact ⟨fun h => (by cases h), by simp⟩
  · rcases as.mapM f with e | bs'
    · exact ⟨fun h => (by cases h), by simp⟩
    · constructor
      · intro h
        cases h
        exact ⟨b, bs', rfl, rfl, rfl⟩
      · rintro ⟨_, _, ⟨⟩, ⟨⟩, rfl⟩
        rfl

theorem mapM_related {γ : Type} {R : α → γ → Prop} {write : α → Except ε β}
    {read : β → Except ε γ} :
    ∀ {as : List α} {bs : List β},
      (∀ a ∈ as, ∀ b, write a = .ok b → ∃ c, read b = .ok c ∧ R a c) →
      as.mapM write = .ok bs → ∃ cs, bs.mapM read = .ok cs ∧ List.Forall₂ R as cs := by
  intro as
  induction as with
  | nil =>
    intro bs _ h
    cases h
    exact ⟨[], rfl, .nil⟩
  | cons a as ih =>
    intro bs hread h
    obtain ⟨b, bs', hb, hbs, rfl⟩ := mapM_eq_ok_cons.1 h
    obtain ⟨c, hc, hac⟩ := hread a (by simp) b hb
    obtain ⟨cs, hcs, has⟩ := ih (fun a' ha' => hread a' (by simp [ha'])) hbs
    exact ⟨c :: cs, mapM_eq_ok_cons.2 ⟨c, cs, hc, hcs, rfl⟩, .cons hac has⟩

theorem eq_map_of_mapM {f : α → Except ε β} {g : α → β} :
    ∀ {as : List α} {bs : List β}, (∀ a ∈ as, ∀ b, f a = .ok b → b = g a) →
      as.mapM f = .ok bs → bs = as.map g := by
  intro as
  induction as with
  | nil =>
    intro bs _ h
    cases h
    rfl
  | cons a as ih =>
    intro bs hg h
    obtain ⟨b, bs', hb, hbs, rfl⟩ := mapM_eq_ok_cons.1 h
    rw [hg a (by simp) b hb, ih (fun a' ha' => hg a' (by simp [ha'])) hbs, List.map_cons]

theorem mapM_ok (f : α → β) (as : List α) :
    as.mapM (fun a => (.ok (f a) : Except ε β)) = .ok (as.map f) := List.mapM_pure

end Results

/-! ### One candidate -/

/-- The attributes of a candidate, in the order in which they are written. -/
def candidateAttrs : List QName :=
  [qnName, qnAddress, qnPort, qnPreference, qnUsername, qnProtocol, qnGeneration, qnPassword,
    qnType, qnNetwork]

theorem candidateAttrs_nodup : candidateAttrs.Nodup := by decide

namespace XmlElement

theorem attr_setAttrIfAny (e : XmlElement) (name n : QName) (value : Text) :
    (e.setAttrIfAny name value).attr n = if n = name ∧ value ≠ [] then value else e.attr n := by
  rw [setAttrIfAny]
  by_cases hv : value = []
  · simp [hv]
  · simp [hv, attr_setAttr]

theorem hasAttr_setAttrIfAny {e : XmlElement} {n : QName} (h : e.hasAttr n) (name : QName)
    (value : Text) : (e.setAttrIfAny name value).hasAttr n := by
  rw [setAttrIfAny]
  split
  · rw [hasAttr_setAttr, h, Bool.or_true]
  · exact h

@[simp] theorem attr_new (name n : QName) : (XmlElement.new name).attr n = [] := rfl

@[simp] theorem name_setAttrIfAny (e : XmlElement) (n : QName) (v : Text) :
    (e.setAttrIfAny n v).name = e.name := by
  rw [setAttrIfAny]
  split <;> rfl

end XmlElement

variable {pt : PreferenceText}

@[simp] theorem name_writeCandidate (c : Candidate) (e : XmlElement) :
    (writeCandidate pt c e).name = e.name := by
  simp [writeCandidate]

theorem attr_writeCandidate (pt : PreferenceText) (c : Candidate) (name : QName) :
    let e := writeCandidate pt c (.new name)
    e.attr qnName = c.name ∧ e.attr qnAddress = c.address.ipAsString ∧
      e.attr qnPort = c.address.portAsString ∧ e.attr qnUsername = c.username ∧
      e.attr qnProtocol = c.protocol ∧ e.attr qnGeneration = decimal c.generation.toNat ∧
      e.attr qnPassword = c.password ∧ e.attr qnType = c.type := by
  have hnames := candidateAttrs_nodup
  simp only [candidateAttrs, List.nodup_cons, List.mem_cons, not_or, List.not_mem_nil,
    not_false_eq_true, and_true] at hnames
  refine ⟨?_, ?_, ?_, ?_, ?_, ?_, ?_, ?_⟩ <;>
    simp [writeCandidate, XmlElement.attr_setAttr, XmlElement.attr_setAttrIfAny, hnames]
  -- An empty password or type is not written.
  · exact Eq.symm
  · exact Eq.symm

theorem hasAttr_writeCandidate (pt : PreferenceText) (c : Candidate) (e : XmlElement) :
    requiredAttrs.all (writeCandidate pt c e).hasAttr := by
  rw [List.all_eq_true]
  intro n hn
  iterate 3 refine XmlElement.hasAttr_setAttrIfAny ?_ _ _
  simp only [requiredAttrs, List.mem_cons, List.not_mem_nil, or_false] at hn
  rcases hn with rfl | rfl | rfl | rfl | rfl | rfl | rfl <;>
    simp [XmlElement.hasAttr_setAttr]

/-- A candidate with a number for its address, and with a user name that the
reader accepts. -/
structure Writable (c : Candidate) : Prop where
  ip : c.address.ip ≠ 0
  textual : c.address.Textual
  length : c.username.length ≤ kMaxUsernameSize
  base64 : isBase64Encoded c.username

theorem verifyUsernameFormat_ok {c : Candidate} (h : Writable c) :
    verifyUsernameFormat c.username = .ok () := by
  have := h.length
  rw [verifyUsernameFormat, if_neg (by omega), if_neg (by simp [h.base64])]

theorem parseCandidate_writeCandidate {c : Candidate} (h : Writable c) (name : QName) :
    ∃ c', parseCandidate pt (writeCandidate pt c (.new name)) = .ok c' ∧ c.isEquivalent c' := by
  obtain ⟨hname, haddress, hport, husername, hprotocol, hgeneration, hpassword, htype⟩ :=
    attr_writeCandidate pt c name
  have hattrs := hasAttr_writeCandidate pt c (.new name)
  have hall := List.all_eq_true.1 hattrs
  have haddr : (writeCandidate pt c (.new name)).hasAttr qnAddress :=
    hall _ (by simp [requiredAttrs])
  have hprt : (writeCandidate pt c (.new name)).hasAttr qnPort :=
    hall _ (by simp [requiredAttrs])
  have heqv := SocketAddress.eqv_setIP h.textual h.ip { hostname := [], ip := 0, port := 0 }
  have hparse : ∃ c', parseCandidate pt (writeCandidate pt c (.new name)) = .ok c' ∧
      c'.name = c.name ∧ c'.protocol = c.protocol ∧ c.address.eqv c'.address ∧
      c'.username = c.username ∧ c'.password = c.password ∧ c'.type = c.type ∧
      c'.generation = c.generation := by
    rw [parseCandidate, if_neg (by simp [hattrs]), parseAddress, if_neg (by simp [haddr]),
      if_neg (by simp [hprt])]
    simp only [hname, haddress, hport, husername, hprotocol, hgeneration, hpassword, htype,
      verifyUsernameFormat_ok h, bind, Except.bind, pure, Except.pure, extractUnsigned_decimal]
    exact ⟨_, rfl, rfl, rfl, heqv, rfl, rfl, rfl, rfl⟩
  obtain ⟨c', hc', hn, hp, ha, hu, hpw, ht, hg⟩ := hparse
  exact ⟨c', hc', Candidate.isEquivalent_iff.2
    ⟨hn.symm, hp.symm, ha, hu.symm, hpw.symm, ht.symm, hg.symm⟩⟩

theorem parseCandidates_writeCandidates {cs : List Candidate} (h : ∀ c ∈ cs, Writable c)
    {name : QName} (hname : name.localPart = lnCandidate) (protocol : SignalingProtocol)
    {e : XmlElement} (he : e.children = cs.map fun c => writeCandidate pt c (.new name)) :
    ∃ cs', (p2pTransportParser pt).parseCandidates protocol e = .ok cs' ∧
      List.Forall₂ (fun c c' => c.isEquivalent c') cs cs' := by
  have hall : ∀ child ∈ e.children, decide (child.name.localPart = lnCandidate) = true := by
    rw [he]
    intro child hchild
    obtain ⟨c, _, rfl⟩ := List.mem_map.1 hchild
    rw [name_writeCandidate]
    exact decide_eq_true hname
  have hparse : (p2pTransportParser pt).parseCandidates protocol e =
      e.children.mapM (parseCandidate pt) := by
    change (e.children.filter _).mapM (parseCandidate pt) = _
    rw [List.filter_eq_self.2 hall]
  rw [hparse, he]
  refine mapM_related (fun c hc b hb => ?_) (mapM_ok _ cs)
  obtain rfl := Except.ok.inj hb
  exact parseCandidate_writeCandidate (h c hc) name

/-! ### Transport infos -/

/-- The candidates of a content, in the order of the transport infos. -/
def candidatesOf (name : Text) (tinfos : List TransportInfo) : List Candidate :=
  (tinfos.filter fun tinfo => tinfo.contentName = name).flatMap (·.candidates)

/-- The map knows the type of transport, and no other parser than its own. -/
structure ServesP2p (pt : PreferenceText) (transParsers : TransportParserMap) : Prop where
  known : transParsers nsGingleP2p = some (p2pTransportParser pt)
  only : ∀ t parser, transParsers t = some parser → parser = p2pTransportParser pt

theorem getTransportParsers_serves (pt : PreferenceText) :
    ServesP2p pt (getTransportParsers pt) where
  known := if_pos rfl
  only t parser h := by
    rw [getTransportParsers] at h
    split at h
    · exact (Option.some.inj h).symm
    · cases h

/-- In Gingle, candidates have the channel names of their content; without audio
and video, the content is `cnOther`. -/
def Placed (contents : List ContentInfo) (tinfo : TransportInfo) : Prop :=
  if getContentByName contents cnAudio = none ∧ getContentByName contents cnVideo = none then
    tinfo.contentName = cnOther
  else ∀ c ∈ tinfo.candidates,
    (tinfo.contentName = cnAudio ∧ isAudioName c.name) ∨
      (tinfo.contentName = cnVideo ∧ isVideoName c.name)

/-- Transport infos of the contents of a session, that its protocol can carry. -/
structure Carried (protocol : SignalingProtocol) (contents : List ContentInfo)
    (tinfos : List TransportInfo) : Prop where
  known : ∀ tinfo ∈ tinfos, ∃ content ∈ contents, content.name = tinfo.contentName
  placed : protocol = .gingle → ∀ tinfo ∈ tinfos, Placed contents tinfo
  writable : ∀ tinfo ∈ tinfos, ∀ c ∈ tinfo.candidates, Writable c

theorem writeCandidates_eq_ok {transParsers : TransportParserMap} (hp : ServesP2p pt transParsers)
    {protocol : SignalingProtocol} {transType : Text} {cs : List Candidate}
    {elems : List XmlElement}
    (h : writeCandidates protocol transType cs transParsers = .ok elems) :
    transParsers transType = some (p2pTransportParser pt) ∧
      elems = cs.map fun c => writeCandidate pt c (.new (getCandidateQName protocol)) := by
  rw [writeCandidates] at h
  rcases hparser : transParsers transType with _ | parser
  · rw [hparser] at h
    cases h
  · rw [hparser] at h
    obtain rfl := hp.only _ _ hparser
    exact ⟨rfl, (Except.ok.inj h).symm⟩

/-! ### Jingle -/

/-- The transport info that is read for one that was written. -/
def SameInfo (a b : TransportInfo) : Prop :=
  b.contentName = a.contentName ∧
    List.Forall₂ (fun c c' => c.isEquivalent c') a.candidates b.candidates

theorem candidatesOf_related {as bs : List TransportInfo} (h : List.Forall₂ SameInfo as bs)
    (name : Text) :
    List.Forall₂ (fun c c' => c.isEquivalent c') (candidatesOf name as) (candidatesOf name bs) := by
  have hfilter : List.Forall₂ SameInfo (as.filter fun a => a.contentName = name)
      (bs.filter fun b => b.contentName = name) :=
    List.rel_filter (fun a b hab => by simp [hab.1]) h
  exact List.rel_flatMap hfilter fun a b hab => hab.2

theorem getContentByName_of_mem {contents : List ContentInfo} {name : Text}
    (h : ∃ content ∈ contents, content.name = name) :
    ∃ content, getContentByName contents name = some content ∧ content.name = name := by
  obtain ⟨content, hmem, hname⟩ := h
  rcases hfind : getContentByName contents name with _ | found
  · have := List.find?_eq_none.1 hfind content hmem
    simp [hname] at this
  · have := List.find?_some hfind
    exact ⟨found, rfl, of_decide_eq_true this⟩

/-- The `transport` element of a transport info. -/
def transportElem (pt : PreferenceText) (tinfo : TransportInfo) : XmlElement :=
  (newTransportElement tinfo.transportType).addXmlChildren
    (tinfo.candidates.map fun c => writeCandidate pt c (.new (getCandidateQName .jingle)))

theorem writeJingleTransportInfo_eq_ok {transParsers : TransportParserMap}
    (hp : ServesP2p pt transParsers) {tinfo : TransportInfo} {transElem : XmlElement}
    (h : writeJingleTransportInfo tinfo transParsers = .ok transElem) :
    transParsers tinfo.transportType = some (p2pTransportParser pt) ∧
      transElem = transportElem pt tinfo := by
  rw [writeJingleTransportInfo] at h
  rcases helems : writeCandidates .jingle tinfo.transportType tinfo.candidates transParsers
    with e | elems
  · rw [helems] at h
    cases h
  · rw [helems] at h
    obtain rfl := Except.ok.inj h
    obtain ⟨hparser, rfl⟩ := writeCandidates_eq_ok hp helems
    exact ⟨hparser, rfl⟩

theorem parseJingleTransportInfo_write {transParsers : TransportParserMap}
    {tinfo : TransportInfo} (hparser : transParsers tinfo.transportType =
      some (p2pTransportParser pt)) (hwritable : ∀ c ∈ tinfo.candidates, Writable c)
    {content : ContentInfo} (hname : content.name = tinfo.contentName) :
    ∃ read, parseJingleTransportInfo (transportElem pt tinfo) content transParsers = .ok read ∧
      SameInfo tinfo read := by
  obtain ⟨cs', hread, hcs'⟩ := parseCandidates_writeCandidates hwritable
    (show (getCandidateQName .jingle).localPart = lnCandidate from rfl) .jingle
    (show (transportElem pt tinfo).children = _ from rfl)
  have hnamespace : (transportElem pt tinfo).name.namespace_ = tinfo.transportType := rfl
  refine ⟨⟨content.name, tinfo.transportType, cs'⟩, ?_, hname, hcs'⟩
  simp only [parseJingleTransportInfo, parseCandidates, hnamespace, hparser, hread]
  rfl

theorem parseJingleContentPair_write {transParsers : TransportParserMap}
    {contents : List ContentInfo} {tinfo : TransportInfo}
    (hparser : transParsers tinfo.transportType = some (p2pTransportParser pt))
    (hknown : ∃ content ∈ contents, content.name = tinfo.contentName)
    (hwritable : ∀ c ∈ tinfo.candidates, Writable c) :
    ∃ read, parseJingleContentPair (writeJingleContentPair tinfo.contentName
      [transportElem pt tinfo]) contents transParsers = .ok read ∧ SameInfo tinfo read := by
  obtain ⟨content, hcontent, hname⟩ := getContentByName_of_mem hknown
  obtain ⟨read, hread, hsame⟩ := parseJingleTransportInfo_write hparser hwritable hname
  have hne : qnJingleContentName ≠ qnCreator := by decide
  have hattr : requireXmlAttr (writeJingleContentPair tinfo.contentName [transportElem pt tinfo])
      qnJingleContentName = .ok tinfo.contentName := by
    have hattr : (writeJingleContentPair tinfo.contentName [transportElem pt tinfo]).attr
        qnJingleContentName = tinfo.contentName := by
      change (((XmlElement.new qnJingleContent).setAttr qnJingleContentName
        tinfo.contentName).setAttr qnCreator lnInitiator).attr qnJingleContentName = _
      rw [XmlElement.attr_setAttr, if_neg hne, XmlElement.attr_setAttr, if_pos rfl]
    have hhas : (writeJingleContentPair tinfo.contentName [transportElem pt tinfo]).hasAttr
        qnJingleContentName := by
      change (((XmlElement.new qnJingleContent).setAttr qnJingleContentName
        tinfo.contentName).setAttr qnCreator lnInitiator).hasAttr qnJingleContentName
      simp [XmlElement.hasAttr_setAttr]
    rw [requireXmlAttr, if_pos hhas, hattr]
  have hchild : requireXmlChild (writeJingleContentPair tinfo.contentName
      [transportElem pt tinfo]) lnTransport = .ok (transportElem pt tinfo) := by
    have hfind : (writeJingleContentPair tinfo.contentName [transportElem pt tinfo]).getXmlChild
        lnTransport = some (transportElem pt tinfo) := List.find?_cons_of_pos (decide_eq_true rfl)
    rw [requireXmlChild, hfind]
  refine ⟨read, ?_, hsame⟩
  simp only [parseJingleContentPair, hattr, hchild, hcontent, bind, Except.bind]
  exact hread

theorem parseJingleTransportInfos_write {transParsers : TransportParserMap}
    (hp : ServesP2p pt transParsers) {contents : List ContentInfo} {tinfos : List TransportInfo}
    (hknown : ∀ tinfo ∈ tinfos, ∃ content ∈ contents, content.name = tinfo.contentName)
    (hwritable : ∀ tinfo ∈ tinfos, ∀ c ∈ tinfo.candidates, Writable c) {elems : List XmlElement}
    (hw : writeJingleTransportInfos tinfos transParsers = .ok elems) {actionElem : XmlElement}
    (he : actionElem.children = elems) :
    ∃ read, parseJingleTransportInfos actionElem contents transParsers = .ok read ∧
      List.Forall₂ SameInfo tinfos read := by
  have hpair : ∀ tinfo ∈ tinfos, ∀ elem, (do
      let transElem ← writeJingleTransportInfo tinfo transParsers
      return writeJingleContentPair tinfo.contentName [transElem]) = .ok elem →
      transParsers tinfo.transportType = some (p2pTransportParser pt) ∧
        elem = writeJingleContentPair tinfo.contentName [transportElem pt tinfo] := by
    intro tinfo _ elem h
    rcases htrans : writeJingleTransportInfo tinfo transParsers with e | transElem
    · rw [htrans] at h
      cases h
    · rw [htrans] at h
      obtain rfl := Except.ok.inj h
      obtain ⟨hparser, rfl⟩ := writeJingleTransportInfo_eq_ok hp htrans
      exact ⟨hparser, rfl⟩
  have hnamed : ∀ elem ∈ elems, elem.name = qnJingleContent := by
    obtain rfl := eq_map_of_mapM (fun tinfo htinfo elem h => (hpair tinfo htinfo elem h).2) hw
    intro elem helem
    obtain ⟨tinfo, _, rfl⟩ := List.mem_map.1 helem
    rfl
  have hchildren : actionElem.childrenNamed qnJingleContent = elems := by
    rw [XmlElement.childrenNamed, he]
    exact List.filter_eq_self.2 fun elem helem => decide_eq_true (hnamed elem helem)
  rw [parseJingleTransportInfos, hchildren]
  refine mapM_related (fun tinfo htinfo elem helem => ?_) hw
  obtain ⟨hparser, rfl⟩ := hpair tinfo htinfo elem helem
  exact parseJingleContentPair_write hparser (hknown tinfo htinfo) (hwritable tinfo htinfo)

/-! ### Gingle -/

theorem writeGingleTransportInfos_eq_ok {transParsers : TransportParserMap}
    (hp : ServesP2p pt transParsers) {tinfos : List TransportInfo} {elems : List XmlElement}
    (h : writeGingleTransportInfos tinfos transParsers = .ok elems) :
    elems = (tinfos.flatMap (·.candidates)).map fun c =>
      writeCandidate pt c (.new qnGingleCandidate) := by
  rw [writeGingleTransportInfos] at h
  rcases hlists : tinfos.mapM (fun tinfo =>
    writeCandidates .gingle tinfo.transportType tinfo.candidates transParsers) with e | lists
  · rw [hlists] at h
    cases h
  · rw [hlists] at h
    obtain rfl := Except.ok.inj h
    obtain rfl := eq_map_of_mapM (fun _ _ _ helems => (writeCandidates_eq_ok hp helems).2) hlists
    rw [List.map_flatMap, List.flatMap_def]
    rfl

/-- Whether a candidate of a Gingle message with media belongs to the content. -/
def belongsTo (name : Text) (c : Candidate) : Bool :=
  name = cnAudio ∧ isAudioName c.name ∨ name = cnVideo ∧ ¬isAudioName c.name ∧ isVideoName c.name

theorem not_isAudioName_of_isVideoName {name : Text} (h : isVideoName name) :
    ¬isAudioName name := by
  have hdisjoint : ∀ v ∈ [gingleCandidateNameVideoRtp, gingleCandidateNameVideoRtcp],
      ¬isAudioName v := by decide
  simp only [isVideoName, decide_eq_true_eq] at h
  exact hdisjoint name (by simpa using h)

theorem cnAudio_ne_cnVideo : cnAudio ≠ cnVideo := by decide

theorem filter_belongsTo {tinfo : TransportInfo}
    (h : ∀ c ∈ tinfo.candidates, (tinfo.contentName = cnAudio ∧ isAudioName c.name) ∨
      (tinfo.contentName = cnVideo ∧ isVideoName c.name)) (name : Text) :
    tinfo.candidates.filter (belongsTo name) =
      if tinfo.contentName = name then tinfo.candidates else [] := by
  have hc : ∀ c ∈ tinfo.candidates, belongsTo name c = decide (tinfo.contentName = name) := by
    intro c hmem
    rcases h c hmem with ⟨hname, haudio⟩ | ⟨hname, hvideo⟩
    · simp [belongsTo, hname, haudio, @eq_comm _ name]
    · have hnot := not_isAudioName_of_isVideoName hvideo
      simp [belongsTo, hname, hvideo, hnot, @eq_comm _ name]
  rw [List.filter_congr hc]
  by_cases hname : tinfo.contentName = name <;> simp [hname]

theorem candidatesOf_eq_filter {tinfos : List TransportInfo}
    (h : ∀ tinfo ∈ tinfos, ∀ c ∈ tinfo.candidates,
      (tinfo.contentName = cnAudio ∧ isAudioName c.name) ∨
        (tinfo.contentName = cnVideo ∧ isVideoName c.name)) (name : Text) :
    candidatesOf name tinfos = (tinfos.flatMap (·.candidates)).filter (belongsTo name) := by
  induction tinfos with
  | nil => rfl
  | cons tinfo tinfos ih =>
    have htail := ih fun t ht => h t (by simp [ht])
    rw [List.flatMap_cons, List.filter_append, filter_belongsTo (h tinfo (by simp)), ← htail,
      candidatesOf, candidatesOf, List.filter_cons]
    by_cases hname : tinfo.contentName = name <;> simp [hname]

theorem rel_filter_belongsTo {cs cs' : List Candidate} (name : Text)
    (h : List.Forall₂ (fun c c' => c.isEquivalent c') cs cs') :
    List.Forall₂ (fun c c' => c.isEquivalent c') (cs.filter (belongsTo name))
      (cs'.filter (belongsTo name)) :=
  List.rel_filter (fun c c' hc => by simp [belongsTo, (Candidate.isEquivalent_iff.1 hc).1]) h

theorem candidatesOf_eq_nil {tinfos : List TransportInfo} {name : Text}
    (h : ∀ tinfo ∈ tinfos, tinfo.contentName ≠ name) : candidatesOf name tinfos = [] := by
  have : tinfos.filter (fun tinfo => tinfo.contentName = name) = [] :=
    List.filter_eq_nil_iff.2 fun tinfo ht => by simp [h tinfo ht]
  rw [candidatesOf, this, List.flatMap_nil]

/-- The transport infos that are read from the candidates of a Gingle message. -/
def gingleInfos (contents : List ContentInfo) (cs : List Candidate) : List TransportInfo :=
  let hasAudio := (getContentByName contents cnAudio).isSome
  let hasVideo := (getContentByName contents cnVideo).isSome
  if ¬hasAudio ∧ ¬hasVideo then [gingleInfo cnOther cs]
  else
    (if hasAudio then [gingleInfo cnAudio (cs.filter fun c => isAudioName c.name)] else []) ++
      (if hasVideo then
        [gingleInfo cnVideo (cs.filter fun c => ¬isAudioName c.name ∧ isVideoName c.name)] else [])

theorem candidatesOf_gingleInfos_other {contents : List ContentInfo}
    (haudio : getContentByName contents cnAudio = none)
    (hvideo : getContentByName contents cnVideo = none) {tinfos : List TransportInfo}
    (hname : ∀ tinfo ∈ tinfos, tinfo.contentName = cnOther) {cs : List Candidate}
    (hcs : List.Forall₂ (fun c c' => c.isEquivalent c') (tinfos.flatMap (·.candidates)) cs)
    (name : Text) :
    List.Forall₂ (fun c c' => c.isEquivalent c') (candidatesOf name tinfos)
      (candidatesOf name (gingleInfos contents cs)) := by
  have hinfos : gingleInfos contents cs = [gingleInfo cnOther cs] := by
    simp [gingleInfos, haudio, hvideo]
  by_cases h : cnOther = name
  · have hall : candidatesOf name tinfos = tinfos.flatMap (·.candidates) := by
      rw [candidatesOf, List.filter_eq_self.2]
      intro tinfo ht
      rw [hname tinfo ht, h, decide_eq_true rfl]
    have hread : candidatesOf name (gingleInfos contents cs) = cs := by
      rw [hinfos, ← h]
      simp [candidatesOf, gingleInfo]
    rwa [hall, hread]
  · rw [candidatesOf_eq_nil fun tinfo ht => hname tinfo ht ▸ h, hinfos,
      candidatesOf_eq_nil fun tinfo ht => (List.mem_singleton.1 ht) ▸ h]
    exact .nil

theorem candidatesOf_append (name : Text) (as bs : List TransportInfo) :
    candidatesOf name (as ++ bs) = candidatesOf name as ++ candidatesOf name bs := by
  simp [candidatesOf]

theorem candidatesOf_if (name n : Text) (b : Bool) (cs : List Candidate) :
    candidatesOf name (if b then [gingleInfo n cs] else []) =
      if b ∧ n = name then cs else [] := by
  by_cases hn : n = name <;> cases b <;> simp [candidatesOf, gingleInfo, hn]

theorem belongsTo_cnAudio : belongsTo cnAudio = fun c => isAudioName c.name := by
  funext c
  simp [belongsTo, cnAudio_ne_cnVideo]

theorem belongsTo_cnVideo :
    belongsTo cnVideo = fun c => decide (¬isAudioName c.name ∧ isVideoName c.name) := by
  funext c
  simp [belongsTo, cnAudio_ne_cnVideo.symm]

theorem candidatesOf_gingleInfos {contents : List ContentInfo}
    (hmedia : ¬(getContentByName contents cnAudio = none ∧
      getContentByName contents cnVideo = none)) (cs : List Candidate) (name : Text) :
    candidatesOf name (gingleInfos contents cs) =
      if getContentByName contents name = none then [] else cs.filter (belongsTo name) := by
  have hmedia' : ¬(¬(getContentByName contents cnAudio).isSome ∧
      ¬(getContentByName contents cnVideo).isSome) := by
    simpa [Option.isSome_iff_ne_none] using hmedia
  have hne := cnAudio_ne_cnVideo
  simp only [gingleInfos]
  rw [if_neg hmedia', candidatesOf_append, candidatesOf_if, candidatesOf_if]
  by_cases haudio : name = cnAudio
  · have hvideo : ¬((getContentByName contents cnVideo).isSome ∧ cnVideo = cnAudio) :=
      fun h => hne h.2.symm
    rw [haudio, if_neg hvideo, List.append_nil, belongsTo_cnAudio]
    rcases getContentByName contents cnAudio with _ | _ <;> simp
  · rw [if_neg (fun h => haudio h.2.symm), List.nil_append]
    by_cases hvideo : name = cnVideo
    · rw [hvideo, belongsTo_cnVideo]
      rcases getContentByName contents cnVideo with _ | _ <;> simp
    · have hnone : cs.filter (belongsTo name) = [] :=
        List.filter_eq_nil_iff.2 fun c _ => by simp [belongsTo, haudio, hvideo]
      rw [hnone, ite_self, if_neg (fun h => hvideo h.2.symm)]

theorem candidatesOf_gingleInfos_media {contents : List ContentInfo}
    (hmedia : ¬(getContentByName contents cnAudio = none ∧
      getContentByName contents cnVideo = none)) {tinfos : List TransportInfo}
    (hknown : ∀ tinfo ∈ tinfos, ∃ content ∈ contents, content.name = tinfo.contentName)
    (hplaced : ∀ tinfo ∈ tinfos, ∀ c ∈ tinfo.candidates,
      (tinfo.contentName = cnAudio ∧ isAudioName c.name) ∨
        (tinfo.contentName = cnVideo ∧ isVideoName c.name)) {cs : List Candidate}
    (hcs : List.Forall₂ (fun c c' => c.isEquivalent c') (tinfos.flatMap (·.candidates)) cs)
    (name : Text) :
    List.Forall₂ (fun c c' => c.isEquivalent c') (candidatesOf name tinfos)
      (candidatesOf name (gingleInfos contents cs)) := by
  rw [candidatesOf_gingleInfos hmedia]
  by_cases hcontent : getContentByName contents name = none
  · -- Nothing was written for a content that the session does not have.
    have hnil : candidatesOf name tinfos = [] := candidatesOf_eq_nil fun tinfo ht hname => by
      obtain ⟨content, hfind, _⟩ := getContentByName_of_mem (hname ▸ hknown tinfo ht)
      rw [hcontent] at hfind
      cases hfind
    rw [hnil, if_pos hcontent]
    exact .nil
  · rw [candidatesOf_eq_filter hplaced, if_neg hcontent]
    exact rel_filter_belongsTo name hcs

theorem parseGingleTransportInfos_write {transParsers : TransportParserMap}
    (hp : ServesP2p pt transParsers) (contents : List ContentInfo) {tinfos : List TransportInfo}
    (hwritable : ∀ tinfo ∈ tinfos, ∀ c ∈ tinfo.candidates, Writable c) {elems : List XmlElement}
    (hw : writeGingleTransportInfos tinfos transParsers = .ok elems) {actionElem : XmlElement}
    (he : actionElem.children = elems) :
    ∃ cs, parseGingleTransportInfos actionElem contents transParsers =
        .ok (gingleInfos contents cs) ∧
      List.Forall₂ (fun c c' => c.isEquivalent c') (tinfos.flatMap (·.candidates)) cs := by
  have hall : ∀ c ∈ tinfos.flatMap (·.candidates), Writable c := by
    intro c hc
    obtain ⟨tinfo, ht, hmem⟩ := List.mem_flatMap.1 hc
    exact hwritable tinfo ht c hmem
  obtain ⟨cs, hread, hcs⟩ := parseCandidates_writeCandidates hall
    (show qnGingleCandidate.localPart = lnCandidate from rfl) .gingle
    (he.trans (writeGingleTransportInfos_eq_ok hp hw))
  refine ⟨cs, ?_, hcs⟩
  have hparse : parseCandidates .gingle actionElem transParsers nsGingleP2p = .ok cs := by
    rw [parseCandidates, hp.known]
    exact hread
  rw [parseGingleTransportInfos, hparse]
  simp only [gingleInfos, bind, Except.bind, pure, Except.pure]
  split <;> rfl

/-! ### Both layouts -/

/-- **Every content has the candidates that were written for it**, in order and
equivalent to them, when the elements of a message are read. -/
theorem round_trip {transParsers : TransportParserMap} (hp : ServesP2p pt transParsers)
    {protocol : SignalingProtocol} {contents : List ContentInfo} {tinfos : List TransportInfo}
    (hc : Carried protocol contents tinfos) {elems : List XmlElement}
    (hw : writeTransportInfos protocol tinfos transParsers = .ok elems) {actionElem : XmlElement}
    (he : actionElem.children = elems) :
    ∃ read, parseTransportInfos protocol actionElem contents transParsers = .ok read ∧
      ∀ name, List.Forall₂ (fun c c' => c.isEquivalent c') (candidatesOf name tinfos)
        (candidatesOf name read) := by
  rw [parseTransportInfos]
  rw [writeTransportInfos] at hw
  by_cases hprotocol : protocol = .gingle
  · rw [if_pos hprotocol] at hw ⊢
    obtain ⟨cs, hread, hcs⟩ := parseGingleTransportInfos_write hp contents hc.writable hw he
    refine ⟨_, hread, fun name => ?_⟩
    have hplaced := hc.placed hprotocol
    by_cases hmedia : getContentByName contents cnAudio = none ∧
      getContentByName contents cnVideo = none
    · refine candidatesOf_gingleInfos_other hmedia.1 hmedia.2 (fun tinfo ht => ?_) hcs name
      have := hplaced tinfo ht
      rwa [Placed, if_pos hmedia] at this
    · refine candidatesOf_gingleInfos_media hmedia hc.known (fun tinfo ht => ?_) hcs name
      have := hplaced tinfo ht
      rwa [Placed, if_neg hmedia] at this
  · rw [if_neg hprotocol] at hw ⊢
    obtain ⟨read, hread, hsame⟩ := parseJingleTransportInfos_write hp hc.known hc.writable hw he
    exact ⟨read, hread, candidatesOf_related hsame⟩

/-! ### Examples -/

/-- Preferences that are whole numbers. -/
def wholePreference : PreferenceText where
  preferenceStr preference := decimal preference.num.toNat
  setPreferenceStr text := extractInt text

/-- A candidate at `10.0.0.1`, with the host name if there is one. -/
def candidateAt (hostname : Text) : Candidate where
  name := gingleCandidateNameRtp
  protocol := textBytes "udp"
  address := { hostname := hostname, ip := 0x0A000001, port := 5000 }
  preference := 1
  username := textBytes "user"
  password := textBytes "secret"
  type := textBytes "local"
  networkName := []
  generation := 0

def contentNamed (name : Text) : ContentInfo := { name := name, type := [], description := [] }

def audioInfo (hostname : Text) : TransportInfo := gingleInfo cnAudio [candidateAt hostname]

/-- The audio of a Gingle session comes back. -/
theorem round_trip_audio :
    Carried .gingle [contentNamed cnAudio] [audioInfo []] ∧
    ∃ elems, writeTransportInfos .gingle [audioInfo []] (getTransportParsers wholePreference) =
        .ok elems ∧
      ∃ read, parseTransportInfos .gingle ((XmlElement.new (qn "session")).addXmlChildren elems)
          [contentNamed cnAudio] (getTransportParsers wholePreference) = .ok read ∧
        ∀ name, List.Forall₂ (fun c c' => c.isEquivalent c') (candidatesOf name [audioInfo []])
          (candidatesOf name read) := by
  have hc : Carried .gingle [contentNamed cnAudio] [audioInfo []] := by
    refine ⟨?_, fun _ => ?_, ?_⟩
    · exact List.forall_mem_singleton.2 ⟨_, List.mem_singleton_self _, rfl⟩
    · refine List.forall_mem_singleton.2 ?_
      rw [Placed, if_neg (by decide)]
      exact List.forall_mem_singleton.2 (.inl ⟨rfl, by decide⟩)
    · refine List.forall_mem_singleton.2 (List.forall_mem_singleton.2 ?_)
      exact ⟨by decide, .inl rfl, by decide, by decide⟩
  have hw : ∃ elems, writeTransportInfos .gingle [audioInfo []]
      (getTransportParsers wholePreference) = .ok elems := ⟨_, rfl⟩
  obtain ⟨elems, hw⟩ := hw
  exact ⟨hc, elems, hw, round_trip (getTransportParsers_serves _) hc hw rfl⟩

/-- What is read of the transport infos that were written. -/
def readBack (protocol : SignalingProtocol) (contents : List ContentInfo)
    (tinfos : List TransportInfo) : Except Text (List TransportInfo) := do
  let elems ← writeTransportInfos protocol tinfos (getTransportParsers wholePreference)
  parseTransportInfos protocol ((XmlElement.new (qn "session")).addXmlChildren elems) contents
    (getTransportParsers wholePreference)

/-- The candidates of the only content of a Gingle session without media come back
as those of another one, and a candidate with a host name comes back without its
number. -/
theorem not_round_trip :
    (∃ read, readBack .gingle [contentNamed (textBytes "tunnel")]
        [gingleInfo (textBytes "tunnel") [candidateAt []]] = .ok read ∧
      ¬List.Forall₂ (fun c c' => c.isEquivalent c')
        (candidatesOf (textBytes "tunnel") [gingleInfo (textBytes "tunnel") [candidateAt []]])
        (candidatesOf (textBytes "tunnel") read)) ∧
    ∃ read, readBack .jingle [contentNamed cnAudio] [audioInfo (textBytes "host")] = .ok read ∧
      ¬List.Forall₂ (fun c c' => c.isEquivalent c')
        (candidatesOf cnAudio [audioInfo (textBytes "host")]) (candidatesOf cnAudio read) := by
  refine ⟨⟨[gingleInfo cnOther [candidateAt (textBytes "10.0.0.1")]], ?_, ?_⟩, ?_⟩
  · decide
  · decide
  · refine ⟨[gingleInfo cnAudio [{ candidateAt (textBytes "host") with
      address := { hostname := textBytes "host", ip := 0, port := 5000 } }]], ?_, ?_⟩
    · decide
    · decide

end Jingle.Signaling
