/-
Encryption and multiplexing of media, from an offer to its answer.

A channel of a call has a filter for SRTP and a filter for the multiplexing of RTCP.  Each takes
an offer and then an answer; one of them is the channel's own and the other one the peer's.  An
answer names one of the parameters of the offer by its tag and its suite, and the filter sends
with the channel's own key and receives with the key of the peer.

* **`mirrored`** — two channels that take the same contents, each from its own side, stay mirror
  images: what one of them sends with, the other one receives with, and RTCP arrives as RTCP but
  for what is sent between an offer and its answer.
* **`active_earned`** — a filter that is active has the keys of an offer and of an answer to it.
-/
import Jingle.Base.Base64

namespace Jingle.Phone

open Base.Base64

structure CryptoParams where
  tag : ℤ
  cipherSuite : List Byte
  keyParams : List Byte
  sessionParams : List Byte
  deriving DecidableEq

def CryptoParams.matches_ (a p : CryptoParams) : Bool :=
  a.tag = p.tag && a.cipherSuite = p.cipherSuite

inductive ContentSource
  | csLocal
  | csRemote
  deriving DecidableEq

/-- The same content, seen from the other end. -/
def ContentSource.other : ContentSource → ContentSource
  | .csLocal => .csRemote
  | .csRemote => .csLocal

/-- Of the two values of an offer and of its answer, the one of the local side. -/
def ContentSource.pick {α : Type} : ContentSource → α → α → α
  | .csLocal, p, _ => p
  | .csRemote, _, a => a

/-- The states of a filter. -/
inductive FilterState
  | init
  | sentOffer
  | receivedOffer
  | active
  deriving DecidableEq

namespace FilterState

/-- The state after an offer. -/
def offered : ContentSource → FilterState
  | .csLocal => sentOffer
  | .csRemote => receivedOffer

/-- An answer is taken from the side that has not made the offer. -/
def awaits (st : FilterState) (source : ContentSource) : Bool :=
  (st = sentOffer && source = .csRemote) || (st = receivedOffer && source = .csLocal)

def mirror : FilterState → FilterState
  | init => init
  | sentOffer => receivedOffer
  | receivedOffer => sentOffer
  | active => active

end FilterState

/-! ### RTCP -/

structure RtcpMuxFilter where
  state : FilterState
  offerEnable : Bool
  deriving DecidableEq

namespace RtcpMuxFilter

variable (f : RtcpMuxFilter)

/-- Muxed packets may come before the answer, whatever was offered. -/
def isActive : Bool := f.state = .sentOffer || f.state = .active

def setOffer (offerEnable : Bool) (source : ContentSource) : Bool × RtcpMuxFilter :=
  if f.state = .init then (true, ⟨.offered source, offerEnable⟩) else (false, f)

def setAnswer (answerEnable : Bool) (source : ContentSource) : Bool × RtcpMuxFilter :=
  if f.state.awaits source then
    if f.offerEnable then (true, { f with state := if answerEnable then .active else .init })
    else if answerEnable then (false, f)
    else (true, { f with state := .init })
  else (false, f)

/-- `DemuxRtcp`, with the test of the type as a definition of its own. -/
def hasRtcpType (data : List Byte) : Bool :=
  let type := if data.length ≥ 2 then data.getD 1 0 &&& 0x7F else 0
  type ≥ 64 && type < 96

def demuxRtcp (data : List Byte) : Bool := f.isActive && hasRtcpType data

def mirror : RtcpMuxFilter := { f with state := f.state.mirror }

end RtcpMuxFilter

/-! ### SRTP -/

def srtpMasterKeyLen : ℕ := 30

def csAesCm128HmacSha1_80 : List Byte := textBytes "AES_CM_128_HMAC_SHA1_80"

def csAesCm128HmacSha1_32 : List Byte := textBytes "AES_CM_128_HMAC_SHA1_32"

/-- `SrtpSession`: the suite and the key that it was created with. -/
abbrev SrtpSession := Option (List Byte × List Byte)

/-- `SetKey`, for one session and one direction.  `create` is the answer of the library. -/
def SrtpSession.setKey (create : List Byte → List Byte → Bool) (s : SrtpSession)
    (cs key : List Byte) : SrtpSession :=
  if s = none ∧ (cs = csAesCm128HmacSha1_80 ∨ cs = csAesCm128HmacSha1_32) ∧
    key.length = srtpMasterKeyLen ∧ create cs key then some (cs, key)
  else none

def parseKeyParams (keyParams : List Byte) : Option (List Byte) :=
  if (textBytes "inline:").isPrefixOf keyParams then
    let d := decodeFromArray (keyParams.drop 7) doStrict
    if d.success ∧ d.result.length = srtpMasterKeyLen then some d.result else none
  else none

structure SrtpFilter where
  state : FilterState
  offerParams : List CryptoParams
  send : SrtpSession
  recv : SrtpSession
  deriving DecidableEq

namespace SrtpFilter

variable (create : List Byte → List Byte → Bool) (f : SrtpFilter)

def isActive : Bool := f.state = .active

def setOffer (params : List CryptoParams) (source : ContentSource) : Bool × SrtpFilter :=
  if f.state = .init then (true, { f with state := .offered source, offerParams := params })
  else (false, f)

/-- `NegotiateParams`: the parameters of the offer that the only answer matches. -/
def negotiateParams : List CryptoParams → Option CryptoParams
  | [a] => f.offerParams.find? a.matches_
  | _ => none

/-- `ApplyParams`: a session that was created stays so if the other one is not. -/
def applyParams (sendParams recvParams : CryptoParams) : Bool × SrtpFilter :=
  match parseKeyParams sendParams.keyParams, parseKeyParams recvParams.keyParams with
  | some sendKey, some recvKey =>
    match f.send.setKey create sendParams.cipherSuite sendKey with
    | none => (false, f)
    | some send =>
      match f.recv.setKey create recvParams.cipherSuite recvKey with
      | none => (false, { f with send := some send })
      | some recv => (true, ⟨.active, [], some send, some recv⟩)
  | _, _ => (false, f)

def setAnswer (params : List CryptoParams) (source : ContentSource) : Bool × SrtpFilter :=
  if f.state.awaits source then
    match params with
    | [] => (true, { f with state := .init, offerParams := [] })
    | a :: _ =>
      match f.negotiateParams params with
      | none => (false, f)
      | some selected =>
        if f.state = .sentOffer then f.applyParams create selected a
        else f.applyParams create a selected
  else (false, f)

def mirror : SrtpFilter where
  state := f.state.mirror
  offerParams := f.offerParams
  send := f.recv
  recv := f.send

end SrtpFilter

/-! ### Channels -/

inductive ContentAction
  | caOffer
  | caAnswer
  | caUpdate
  deriving DecidableEq

/-- A content that is set, as far as the filters are concerned. -/
structure Content where
  action : ContentAction
  source : ContentSource
  cryptos : List CryptoParams
  rtcpMux : Bool

def Content.flip (x : Content) : Content := { x with source := x.source.other }

/-- The filters of a `BaseChannel`. -/
structure BaseChannel where
  srtpFilter : SrtpFilter
  rtcpMuxFilter : RtcpMuxFilter
  deriving DecidableEq

namespace BaseChannel

variable (create : List Byte → List Byte → Bool) (c : BaseChannel) (x : Content)

def new : BaseChannel := ⟨⟨.init, [], none, none⟩, ⟨.init, false⟩⟩

/-- `SetSrtp_w`. -/
def setSrtp : Bool × SrtpFilter :=
  match x.action with
  | .caOffer => c.srtpFilter.setOffer x.cryptos x.source
  | .caAnswer => c.srtpFilter.setAnswer create x.cryptos x.source
  | .caUpdate => (true, c.srtpFilter)

/-- `SetRtcpMux_w`. -/
def setRtcpMux : Bool × RtcpMuxFilter :=
  match x.action with
  | .caOffer => c.rtcpMuxFilter.setOffer x.rtcpMux x.source
  | .caAnswer => c.rtcpMuxFilter.setAnswer x.rtcpMux x.source
  | .caUpdate => (true, c.rtcpMuxFilter)

/-- `SetLocalContent_w` and `SetRemoteContent_w`, up to the codecs. -/
def setContent : Bool × BaseChannel :=
  let s := c.setSrtp create x
  if s.1 then
    let m := c.setRtcpMux x
    (m.1, ⟨s.2, m.2⟩)
  else (false, { c with srtpFilter := s.2 })

def run (contents : List Content) : BaseChannel :=
  contents.foldl (fun c x => (c.setContent create x).2) new

/-- `SendPacket` takes the RTCP transport for RTCP, if it is not muxed. -/
def onRtcpTransport (rtcp : Bool) : Bool := !(!rtcp || c.rtcpMuxFilter.isActive)

def packetIsRtcp (onRtcp : Bool) (data : List Byte) : Bool :=
  onRtcp || c.rtcpMuxFilter.demuxRtcp data

def mirror : BaseChannel := ⟨c.srtpFilter.mirror, c.rtcpMuxFilter.mirror⟩

end BaseChannel

/-! ### The other end -/

theorem RtcpMuxFilter.setOffer_mirror (f : RtcpMuxFilter) (enable : Bool) (source : ContentSource) :
    f.mirror.setOffer enable source.other = Prod.map id mirror (f.setOffer enable source) := by
  obtain ⟨state, offerEnable⟩ := f
  cases state <;> cases source <;> rfl

theorem RtcpMuxFilter.setAnswer_mirror (f : RtcpMuxFilter) (enable : Bool)
    (source : ContentSource) :
    f.mirror.setAnswer enable source.other = Prod.map id mirror (f.setAnswer enable source) := by
  obtain ⟨state, offerEnable⟩ := f
  cases state <;> cases source <;> cases offerEnable <;> cases enable <;> rfl

theorem parseKeyParams_length {keyParams key : List Byte}
    (h : parseKeyParams keyParams = some key) : key.length = srtpMasterKeyLen := by
  rw [parseKeyParams] at h
  dsimp only at h
  split_ifs at h with _ hkey
  rw [← Option.some.inj h]
  exact hkey.2

namespace SrtpFilter

variable {create : List Byte → List Byte → Bool} {f : SrtpFilter}

/-- No session is left behind by an answer that was not taken. -/
def Idle (f : SrtpFilter) : Prop := f.state = .active ∨ f.send = none ∧ f.recv = none

theorem setOffer_mirror (f : SrtpFilter) (params : List CryptoParams) (source : ContentSource) :
    f.mirror.setOffer params source.other = Prod.map id mirror (f.setOffer params source) := by
  obtain ⟨state, offerParams, send, recv⟩ := f
  cases state <;> cases source <;> rfl

section Library

variable (hcreate : ∀ cs key, create cs key = true)
include hcreate

theorem setKey_none {keyParams key : List Byte} (h : parseKeyParams keyParams = some key)
    (cs : List Byte) : SrtpSession.setKey create none cs key =
      if cs = csAesCm128HmacSha1_80 ∨ cs = csAesCm128HmacSha1_32 then some (cs, key) else none := by
  simp [SrtpSession.setKey, parseKeyParams_length h, hcreate]

theorem applyParams_spec (hf : f.send = none ∧ f.recv = none) {p q : CryptoParams}
    (hsuite : p.cipherSuite = q.cipherSuite) :
    f.applyParams create p q = (false, f) ∧ f.mirror.applyParams create q p = (false, f.mirror) ∨
    ∃ send recv, f.applyParams create p q = (true, ⟨.active, [], some send, some recv⟩) ∧
      f.mirror.applyParams create q p = (true, ⟨.active, [], some recv, some send⟩) := by
  obtain ⟨hsend, hrecv⟩ := hf
  rw [applyParams, applyParams]
  rcases hp : parseKeyParams p.keyParams with _ | kp
  · rcases parseKeyParams q.keyParams with _ | kq <;> exact .inl ⟨rfl, rfl⟩
  rcases hq : parseKeyParams q.keyParams with _ | kq
  · exact .inl ⟨rfl, rfl⟩
  simp only [mirror, hsend, hrecv, setKey_none hcreate hp, setKey_none hcreate hq, hsuite]
  split_ifs
  · exact .inr ⟨_, _, rfl, rfl⟩
  · exact .inl ⟨rfl, rfl⟩

theorem setAnswer_mirror (hf : f.Idle) (params : List CryptoParams) (source : ContentSource) :
    f.mirror.setAnswer create params source.other =
        Prod.map id mirror (f.setAnswer create params source) ∧
      (f.setAnswer create params source).2.Idle := by
  have hawaits : f.mirror.state.awaits source.other = f.state.awaits source := by
    rw [mirror]
    cases f.state <;> cases source <;> rfl
  rw [setAnswer.eq_def, setAnswer.eq_def, hawaits]
  by_cases ha : f.state.awaits source
  · rw [if_pos ha, if_pos ha]
    have hnone : f.send = none ∧ f.recv = none := by
      refine hf.resolve_left fun hact => ?_
      rw [hact] at ha
      cases ha
    rcases params with _ | ⟨a, rest⟩
    · exact ⟨rfl, .inr hnone⟩
    have hneg : f.mirror.negotiateParams (a :: rest) = f.negotiateParams (a :: rest) := rfl
    dsimp only
    rw [hneg]
    rcases hsel : f.negotiateParams (a :: rest) with _ | p
    · exact ⟨rfl, hf⟩
    have hsuite : a.cipherSuite = p.cipherSuite := by
      rcases rest with _ | ⟨b, rest⟩
      · have := List.find?_some hsel
        simp [CryptoParams.matches_] at this
        exact this.2
      · cases hsel
    dsimp only
    -- the two ends call `ApplyParams` with the parameters the other way around
    cases hst : f.state with
    | init => simp [FilterState.awaits, hst] at ha
    | active => simp [FilterState.awaits, hst] at ha
    | sentOffer =>
      have hmst : f.mirror.state = .receivedOffer := by rw [mirror, hst]; rfl
      rw [hmst, if_neg (by decide), if_pos rfl]
      obtain ⟨h₁, h₂⟩ | ⟨send, recv, h₁, h₂⟩ := applyParams_spec hcreate hnone hsuite.symm
      · rw [h₁, h₂]
        exact ⟨rfl, hf⟩
      · rw [h₁, h₂]
        exact ⟨rfl, .inl rfl⟩
    | receivedOffer =>
      have hmst : f.mirror.state = .sentOffer := by rw [mirror, hst]; rfl
      rw [hmst, if_pos rfl, if_neg (by decide)]
      obtain ⟨h₁, h₂⟩ | ⟨send, recv, h₁, h₂⟩ := applyParams_spec hcreate hnone hsuite
      · rw [h₁, h₂]
        exact ⟨rfl, hf⟩
      · rw [h₁, h₂]
        exact ⟨rfl, .inl rfl⟩
  · rw [if_neg ha, if_neg ha]
    exact ⟨rfl, hf⟩

end Library

end SrtpFilter

namespace BaseChannel

variable {create : List Byte → List Byte → Bool} {c : BaseChannel}

theorem setContent_mirror (hcreate : ∀ cs key, create cs key = true) (hc : c.srtpFilter.Idle)
    (x : Content) :
    c.mirror.setContent create x.flip = Prod.map id mirror (c.setContent create x) ∧
      (c.setContent create x).2.srtpFilter.Idle := by
  have hsrtp : c.mirror.setSrtp create x.flip = Prod.map id .mirror (c.setSrtp create x) ∧
      (c.setSrtp create x).2.Idle := by
    obtain ⟨action, source, cryptos, mux⟩ := x
    cases action with
    | caOffer =>
      refine ⟨SrtpFilter.setOffer_mirror _ _ _, ?_⟩
      rw [setSrtp]
      dsimp only
      rw [SrtpFilter.setOffer]
      split_ifs with hinit
      · exact .inr (hc.resolve_left fun hact => by rw [hinit] at hact; cases hact)
      · exact hc
    | caAnswer => exact SrtpFilter.setAnswer_mirror hcreate hc _ _
    | caUpdate => exact ⟨rfl, hc⟩
  have hmux : c.mirror.setRtcpMux x.flip = Prod.map id .mirror (c.setRtcpMux x) := by
    obtain ⟨action, source, cryptos, mux⟩ := x
    cases action with
    | caOffer => exact RtcpMuxFilter.setOffer_mirror _ _ _
    | caAnswer => exact RtcpMuxFilter.setAnswer_mirror _ _ _
    | caUpdate => rfl
  obtain ⟨hsrtp, hidle⟩ := hsrtp
  rw [setContent, setContent, hsrtp, hmux]
  generalize c.setSrtp create x = s at hidle ⊢
  obtain ⟨ok, s⟩ := s
  cases ok <;> exact ⟨rfl, hidle⟩

theorem run_append (contents : List Content) (x : Content) :
    run create (contents ++ [x]) = ((run create contents).setContent create x).2 := by
  rw [run, List.foldl_append]
  rfl

theorem run_idle (hcreate : ∀ cs key, create cs key = true) (contents : List Content) :
    (run create contents).srtpFilter.Idle := by
  induction contents using List.reverseRecOn with
  | nil => exact .inr ⟨rfl, rfl⟩
  | append_singleton contents x ih =>
    rw [run_append]
    exact (setContent_mirror hcreate ih x).2

theorem run_flip (hcreate : ∀ cs key, create cs key = true) (contents : List Content) :
    run create (contents.map Content.flip) = (run create contents).mirror := by
  induction contents using List.reverseRecOn with
  | nil => rfl
  | append_singleton contents x ih =>
    rw [List.map_append, List.map_singleton, run_append, run_append, ih,
      (setContent_mirror hcreate (run_idle hcreate contents) x).1]
    rfl

theorem routed (c : BaseChannel) (data : List Byte) :
    c.mirror.packetIsRtcp (c.onRtcpTransport (RtcpMuxFilter.hasRtcpType data)) data =
        RtcpMuxFilter.hasRtcpType data ↔
      ¬(RtcpMuxFilter.hasRtcpType data = true ∧ c.rtcpMuxFilter.state = .sentOffer) := by
  rw [packetIsRtcp, onRtcpTransport, RtcpMuxFilter.demuxRtcp, RtcpMuxFilter.isActive,
    RtcpMuxFilter.isActive, mirror, RtcpMuxFilter.mirror]
  cases RtcpMuxFilter.hasRtcpType data <;> cases c.rtcpMuxFilter.state <;>
    simp [FilterState.mirror]

/-- **Two channels that take the same contents**, each from its own side, are mirror images of
each other, if the library creates its sessions.  A packet that one of them sends is taken for
what it is by the other one, but for RTCP between an offer and its answer: it is muxed too soon. -/
theorem mirrored (hcreate : ∀ cs key, create cs key = true) (contents : List Content) :
    run create (contents.map Content.flip) = (run create contents).mirror ∧
    ∀ data, (run create (contents.map Content.flip)).packetIsRtcp
        ((run create contents).onRtcpTransport (RtcpMuxFilter.hasRtcpType data)) data =
          RtcpMuxFilter.hasRtcpType data ↔
      ¬(RtcpMuxFilter.hasRtcpType data = true ∧
        (run create contents).rtcpMuxFilter.state = .sentOffer) := by
  rw [run_flip hcreate]
  exact ⟨rfl, routed (run create contents)⟩

/-- An offer of two parameters, of which the second one is taken. -/
def sampleCall : List Content :=
  [⟨.caOffer, .csLocal, [
      ⟨0, csAesCm128HmacSha1_32, textBytes "inline:AAAAAAAAAAAAAAAAAAAAAAAAAAAAAAAAAAAAAAAA", []⟩,
      ⟨1, csAesCm128HmacSha1_80, textBytes "inline:BBBBBBBBBBBBBBBBBBBBBBBBBBBBBBBBBBBBBBBB", []⟩],
    true⟩,
   ⟨.caAnswer, .csRemote, [
      ⟨1, csAesCm128HmacSha1_80, textBytes "inline:CCCCCCCCCCCCCCCCCCCCCCCCCCCCCCCCCCCCCCCC", []⟩],
    true⟩]

theorem mirrored_sampleCall : run (fun _ _ => true) (sampleCall.map Content.flip) =
      (run (fun _ _ => true) sampleCall).mirror ∧
    (run (fun _ _ => true) (sampleCall.map Content.flip)).packetIsRtcp
      ((run (fun _ _ => true) sampleCall).onRtcpTransport true) [128, 200] = true := by
  have h := @mirrored (fun _ _ => true) (fun _ _ => rfl) sampleCall
  exact ⟨h.1, (h.2 [128, 200]).2 (by decide +kernel)⟩

/-! ### What makes a filter active -/

/-- The keys of an offer and of a later answer, which names one of the parameters of the offer:
the channel sends with its own key and receives with the peer's. -/
def Negotiated (contents : List Content) (f : SrtpFilter) : Prop :=
  ∃ source ps p a mux mux' kp ka,
    List.Sublist [⟨.caOffer, source, ps, mux⟩, ⟨.caAnswer, source.other, [a], mux'⟩] contents ∧
      p ∈ ps ∧ a.matches_ p ∧ parseKeyParams p.keyParams = some kp ∧
      parseKeyParams a.keyParams = some ka ∧
      f.send = some (p.cipherSuite, source.pick kp ka) ∧
      f.recv = some (p.cipherSuite, source.pick ka kp)

/-- An offer is held that was made, and what is active is negotiated. -/
structure Earned (contents : List Content) (f : SrtpFilter) : Prop where
  offer : ∀ source, f.state = .offered source →
    ∃ mux, ⟨.caOffer, source, f.offerParams, mux⟩ ∈ contents
  active : f.state = .active → Negotiated contents f

theorem offered_of_awaits {st : FilterState} {source : ContentSource}
    (h : st.awaits source = true) :
    ∃ offerer, st = .offered offerer ∧ source = offerer.other := by
  cases st <;> cases source <;> first
    | exact ⟨.csLocal, rfl, rfl⟩
    | exact ⟨.csRemote, rfl, rfl⟩
    | cases h

theorem setKey_eq_some {s : SrtpSession} {cs key : List Byte} {v : List Byte × List Byte}
    (h : s.setKey create cs key = some v) : v = (cs, key) := by
  rw [SrtpSession.setKey] at h
  split_ifs at h
  exact (Option.some.inj h).symm

theorem applyParams_cases (create : List Byte → List Byte → Bool) (f : SrtpFilter)
    (p q : CryptoParams) :
    (∃ send, (f.applyParams create p q).2 = { f with send := send }) ∨
    ∃ kp kq, parseKeyParams p.keyParams = some kp ∧ parseKeyParams q.keyParams = some kq ∧
      (f.applyParams create p q).2 =
        ⟨.active, [], some (p.cipherSuite, kp), some (q.cipherSuite, kq)⟩ := by
  rw [SrtpFilter.applyParams]
  rcases parseKeyParams p.keyParams with _ | kp
  · exact .inl ⟨f.send, rfl⟩
  rcases parseKeyParams q.keyParams with _ | kq
  · exact .inl ⟨f.send, rfl⟩
  dsimp only
  rcases hsend : f.send.setKey create p.cipherSuite kp with _ | send
  · exact .inl ⟨f.send, rfl⟩
  rcases hrecv : f.recv.setKey create q.cipherSuite kq with _ | recv
  · exact .inl ⟨some send, rfl⟩
  · refine .inr ⟨kp, kq, rfl, rfl, ?_⟩
    rw [← setKey_eq_some hsend, ← setKey_eq_some hrecv]

theorem Earned.mono {contents : List Content} {f : SrtpFilter} (h : Earned contents f)
    (x : Content) : Earned (contents ++ [x]) f where
  offer source hst := by
    obtain ⟨mux, hmem⟩ := h.offer source hst
    exact ⟨mux, List.mem_append_left _ hmem⟩
  active hst := by
    obtain ⟨source, ps, p, a, mux, mux', kp, ka, hsub, hrest⟩ := h.active hst
    exact ⟨source, ps, p, a, mux, mux', kp, ka, hsub.trans (List.sublist_append_left _ _), hrest⟩

theorem Earned.setAnswer {contents : List Content} {f : SrtpFilter} (h : Earned contents f)
    (source : ContentSource) (params : List CryptoParams) (mux' : Bool) :
    Earned (contents ++ [⟨.caAnswer, source, params, mux'⟩])
      (f.setAnswer create params source).2 := by
  have hmono := h.mono ⟨.caAnswer, source, params, mux'⟩
  rw [SrtpFilter.setAnswer.eq_def]
  by_cases ha : f.state.awaits source
  · rw [if_pos ha]
    obtain ⟨offerer, hst, rfl⟩ := offered_of_awaits ha
    rcases params with _ | ⟨a, rest⟩
    · exact ⟨fun s hs => absurd hs (by cases s <;> exact nofun), nofun⟩
    dsimp only
    rcases hsel : f.negotiateParams (a :: rest) with _ | p
    · exact hmono
    obtain rfl : rest = [] := by
      cases rest with
      | nil => rfl
      | cons b rest => cases hsel
    -- in both states the local parameters are the first
    have hcall : (if f.state = .sentOffer then f.applyParams create p a
        else f.applyParams create a p) =
        f.applyParams create (offerer.pick p a) (offerer.pick a p) := by
      rw [hst]
      cases offerer <;> rfl
    dsimp only
    rw [hcall]
    obtain ⟨send, happly⟩ | ⟨k₁, k₂, hk₁, hk₂, happly⟩ := applyParams_cases create f
      (offerer.pick p a) (offerer.pick a p)
    · rw [happly]
      exact ⟨hmono.offer, fun hs => absurd (hst.symm.trans hs) (by cases offerer <;> exact nofun)⟩
    · rw [happly]
      refine ⟨fun s hs => absurd hs (by cases s <;> exact nofun), fun _ => ?_⟩
      obtain ⟨mux, hmem⟩ := h.offer offerer hst
      have hmatch := List.find?_some hsel
      have hsuite : a.cipherSuite = p.cipherSuite := by
        simp only [CryptoParams.matches_, Bool.and_eq_true, decide_eq_true_eq] at hmatch
        exact hmatch.2
      have hsub := (List.singleton_sublist.2 hmem).append
        (List.Sublist.refl [(⟨.caAnswer, offerer.other, [a], mux'⟩ : Content)])
      cases offerer with
      | csLocal =>
        exact ⟨_, _, p, a, mux, mux', k₁, k₂, hsub, List.mem_of_find?_eq_some hsel, hmatch, hk₁,
          hk₂, rfl, by rw [← hsuite]; rfl⟩
      | csRemote =>
        exact ⟨_, _, p, a, mux, mux', k₂, k₁, hsub, List.mem_of_find?_eq_some hsel, hmatch, hk₂,
          hk₁, by rw [← hsuite]; rfl, rfl⟩
  · rw [if_neg ha]
    exact hmono

theorem setContent_srtpFilter (x : Content) :
    (c.setContent create x).2.srtpFilter = (c.setSrtp create x).2 := by
  rw [setContent]
  dsimp only
  split_ifs <;> rfl

theorem run_earned (create : List Byte → List Byte → Bool) (contents : List Content) :
    Earned contents (run create contents).srtpFilter := by
  induction contents using List.reverseRecOn with
  | nil => exact ⟨fun s hs => absurd hs (by cases s <;> exact nofun), nofun⟩
  | append_singleton contents x ih =>
    rw [run_append, setContent_srtpFilter, setSrtp]
    obtain ⟨action, source, cryptos, mux⟩ := x
    cases action with
    | caOffer =>
      dsimp only
      rw [SrtpFilter.setOffer]
      split_ifs
      · refine ⟨fun s hs => ⟨mux, ?_⟩, fun hs => absurd hs (by cases source <;> exact nofun)⟩
        obtain rfl : source = s := by cases source <;> cases s <;> first | rfl | cases hs
        exact List.mem_append_right _ List.mem_cons_self
      · exact ih.mono _
    | caAnswer => exact ih.setAnswer source cryptos mux
    | caUpdate => exact ih.mono _

/-- **An active filter has earned it**: before the answer there was an offer by the other side,
and the keys are those of the two.  Whatever is set afterwards leaves it so. -/
theorem active_earned (contents later : List Content)
    (h : (run create contents).srtpFilter.state = .active) :
    Negotiated contents (run create contents).srtpFilter ∧
      (run create (contents ++ later)).srtpFilter = (run create contents).srtpFilter := by
  refine ⟨(run_earned create contents).active h, ?_⟩
  induction later using List.reverseRecOn with
  | nil => rw [List.append_nil]
  | append_singleton later x ih =>
    rw [← List.append_assoc, run_append, setContent_srtpFilter, setSrtp, ih]
    obtain ⟨action, source, cryptos, mux⟩ := x
    cases action with
    | caOffer => simp [SrtpFilter.setOffer, h]
    | caAnswer => simp [SrtpFilter.setAnswer.eq_def, FilterState.awaits, h]
    | caUpdate => rfl

theorem active_earned_sampleCall :
    Negotiated sampleCall (run (fun _ _ => true) sampleCall).srtpFilter ∧
      (run (fun _ _ => true) (sampleCall ++ sampleCall)).srtpFilter =
        (run (fun _ _ => true) sampleCall).srtpFilter :=
  active_earned sampleCall sampleCall (by decide +kernel)

end BaseChannel

end Jingle.Phone
