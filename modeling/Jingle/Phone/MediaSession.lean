/-
The security of a call, from the policies of its two ends.

A client offers contents with parameters for SRTP, and the other client answers them.  Each of the
two may have SRTP disabled, enabled or required.

* **`policies`** — of a call that is set up, the channels of both ends take the offer and the
  answer and are mirror images.  They are encrypted if one of the ends requires it, and only if
  neither of them has it disabled.
* **`refused_iff`** — an offer is refused exactly if one end requires what the other has disabled.
-/
import Jingle.Phone.SrtpFilter

namespace Jingle.Phone

open Base.Base64

/-! ### Codecs -/

structure AudioFormat where
  clockrate : ℤ
  bitrate : ℤ
  channels : ℤ
  deriving DecidableEq

structure VideoFormat where
  width : ℤ
  height : ℤ
  framerate : ℤ
  deriving DecidableEq

/-- `AudioCodec` and `VideoCodec`. -/
structure Codec (F : Type) where
  id : ℤ
  name : List Byte
  format : F
  preference : ℤ
  deriving DecidableEq

namespace Codec

variable {F : Type}

def kMaxStaticPayloadId : ℤ := 95

def matchesPayload (c : Codec F) (payload : ℤ) (nm : List Byte) : Bool :=
  if payload ≤ kMaxStaticPayloadId then c.id = payload else c.name = nm

/-- `AudioCodec::Matches`. -/
def matchesAudio (c codec : Codec AudioFormat) : Bool :=
  c.matchesPayload codec.id codec.name &&
  (codec.format.clockrate = 0 || c.format.clockrate = codec.format.clockrate) &&
  (codec.format.bitrate = 0 || c.format.bitrate = -1 ||
    c.format.bitrate = codec.format.bitrate) &&
  (codec.format.channels = 0 || c.format.channels = codec.format.channels)

/-- `VideoCodec::Matches`. -/
def matchesVideo (c codec : Codec VideoFormat) : Bool := c.matchesPayload codec.id codec.name

/-- `SortCodecs`, the preferred ones first. -/
def sortCodecs (codecs : List (Codec F)) : List (Codec F) :=
  codecs.mergeSort fun first other => first.preference ≥ other.preference

/-- The codecs of an answer: ours that match, under the ids of the offer. -/
def negotiate (ours theirs : List (Codec F)) (matches_ : Codec F → Codec F → Bool) :
    List (Codec F) :=
  sortCodecs (ours.flatMap fun our =>
    (theirs.filter (matches_ our)).map fun their => { our with id := their.id })

end Codec

/-! ### Descriptions -/

structure MediaContentDescription (F : Type) where
  codecs : List (Codec F)
  ssrc : Option (BitVec 32)
  bandwidth : ℤ
  cryptos : List CryptoParams
  cryptoRequired : Bool
  deriving DecidableEq

inductive ContentDescription
  | audio (d : MediaContentDescription AudioFormat)
  | video (d : MediaContentDescription VideoFormat)
  | other
  deriving DecidableEq

structure ContentInfo where
  name : List Byte
  type : List Byte
  description : ContentDescription
  deriving DecidableEq

abbrev SessionDescription := List ContentInfo

def nsJingleRtp : List Byte := textBytes "urn:xmpp:jingle:apps:rtp:1"
def cnAudio : List Byte := textBytes "audio"
def cnVideo : List Byte := textBytes "video"

def getFirstAudioContent (sdesc : SessionDescription) :
    Option (ContentInfo × MediaContentDescription AudioFormat) :=
  sdesc.findSome? fun c => match c.description with
    | .audio d => if c.type = nsJingleRtp then some (c, d) else none
    | _ => none

def getFirstVideoContent (sdesc : SessionDescription) :
    Option (ContentInfo × MediaContentDescription VideoFormat) :=
  sdesc.findSome? fun c => match c.description with
    | .video d => if c.type = nsJingleRtp then some (c, d) else none
    | _ => none

/-- What a channel takes of a content.  No content asks for the multiplexing of RTCP. -/
def ContentInfo.set (c : ContentInfo) (action : ContentAction) (source : ContentSource) :
    Content :=
  ⟨action, source, match c.description with
    | .audio d => d.cryptos
    | .video d => d.cryptos
    | .other => [], false⟩

/-! ### Keys -/

/-- What the generator fills a buffer with, if it does not fail. -/
abbrev Random := Option (ℕ → Byte)

def createRandomString (len : ℕ) (random : Random) : Option (List Byte) :=
  random.map fun bytes => (List.range len).map fun i => toChar (bytes i % 64)

def srtpMasterKeyBase64Len : ℕ := srtpMasterKeyLen * 4 / 3

def createCryptoParams (tag : ℤ) (cipher : List Byte) (random : Random) : Option CryptoParams :=
  (createRandomString srtpMasterKeyBase64Len random).map fun key =>
    ⟨tag, cipher, textBytes "inline:" ++ key, []⟩

def addCryptoParams (cipherSuite : List Byte) (out : List CryptoParams) (random : Random) :
    Option (List CryptoParams) :=
  (createCryptoParams out.length cipherSuite random).map fun p => out ++ [p]

def getSupportedAudioCryptos (first second : Random) : Option (List CryptoParams) := do
  addCryptoParams csAesCm128HmacSha1_80 (← addCryptoParams csAesCm128HmacSha1_32 [] first) second

def getSupportedVideoCryptos (random : Random) : Option (List CryptoParams) :=
  addCryptoParams csAesCm128HmacSha1_80 [] random

/-- `SelectCrypto`.  Video has the longer tag only. -/
def selectCrypto (audio : Bool) (cryptos : List CryptoParams) (random : Random) :
    Option CryptoParams := do
  let i ← cryptos.find? fun i => i.cipherSuite = csAesCm128HmacSha1_80 ||
    (i.cipherSuite = csAesCm128HmacSha1_32 && audio)
  createCryptoParams i.tag i.cipherSuite random

/-! ### Clients -/

inductive SecureMediaPolicy
  | secDisabled
  | secEnabled
  | secRequired
  deriving DecidableEq

def kAutoBandwidth : ℤ := -1

structure CallOptions where
  isVideo : Bool
  isMuc : Bool
  videoBandwidth : ℤ

/-- What is drawn for an offer. -/
structure OfferRandom where
  audioSsrc : BitVec 32
  audioFirst : Random
  audioSecond : Random
  videoSsrc : BitVec 32
  video : Random

/-- What is drawn for an answer. -/
structure AnswerRandom where
  audio : Random
  video : Random

/-- A `MediaSessionClient`, and the codecs of its channel manager. -/
structure MediaSessionClient where
  secure : SecureMediaPolicy
  audioCodecs : List (Codec AudioFormat)
  videoCodecs : List (Codec VideoFormat)

namespace MediaSessionClient

variable {F : Type} (client : MediaSessionClient)

/-- The parameters of a content that is offered. -/
def offerCryptos (supported : Option (List CryptoParams)) (d : MediaContentDescription F) :
    Option (MediaContentDescription F) :=
  if client.secure ≠ .secDisabled then
    let d := { d with cryptos := d.cryptos ++ supported.getD [] }
    if client.secure = .secRequired then
      if d.cryptos = [] then none else some { d with cryptoRequired := true }
    else some d
  else some d

def offerAudio (options : CallOptions) (random : OfferRandom) :
    Option (MediaContentDescription AudioFormat) :=
  client.offerCryptos (getSupportedAudioCryptos random.audioFirst random.audioSecond)
    ⟨Codec.sortCodecs client.audioCodecs, if options.isMuc then some random.audioSsrc else none,
      kAutoBandwidth, [], false⟩

def offerVideo (options : CallOptions) (random : OfferRandom) :
    Option (MediaContentDescription VideoFormat) :=
  client.offerCryptos (getSupportedVideoCryptos random.video)
    ⟨Codec.sortCodecs client.videoCodecs, if options.isMuc then some random.videoSsrc else none,
      options.videoBandwidth, [], false⟩

def createOffer (options : CallOptions) (random : OfferRandom) : Option SessionDescription := do
  let audio ← client.offerAudio options random
  if options.isVideo then
    let video ← client.offerVideo options random
    return [⟨cnAudio, nsJingleRtp, .audio audio⟩, ⟨cnVideo, nsJingleRtp, .video video⟩]
  else return [⟨cnAudio, nsJingleRtp, .audio audio⟩]

/-- The answer to a content, or none if the session setup is to fail. -/
def answerCryptos (audio : Bool) (offer : MediaContentDescription F)
    (random : Random) (d : MediaContentDescription F) : Option (MediaContentDescription F) :=
  let d := if client.secure ≠ .secDisabled then
      { d with cryptos := d.cryptos ++ (selectCrypto audio offer.cryptos random).toList }
    else d
  if d.cryptos = [] ∧ (offer.cryptoRequired ∨ client.secure = .secRequired) then none else some d

def answerAudio (d : MediaContentDescription AudioFormat) (random : AnswerRandom) :
    Option (MediaContentDescription AudioFormat) :=
  client.answerCryptos true d random.audio
    ⟨Codec.negotiate client.audioCodecs d.codecs Codec.matchesAudio, none, kAutoBandwidth, [],
      false⟩

def answerVideo (d : MediaContentDescription VideoFormat) (options : CallOptions)
    (random : AnswerRandom) : Option (MediaContentDescription VideoFormat) :=
  client.answerCryptos false d random.video
    ⟨Codec.negotiate client.videoCodecs d.codecs Codec.matchesVideo, none,
      options.videoBandwidth, [], false⟩

def createAnswer (offer : SessionDescription) (options : CallOptions) (random : AnswerRandom) :
    Option SessionDescription := do
  let audio ← match getFirstAudioContent offer with
    | none => some []
    | some (c, d) => (client.answerAudio d random).map fun x => [⟨c.name, c.type, .audio x⟩]
  let video ← match getFirstVideoContent offer with
    | none => some []
    | some (c, d) =>
      (client.answerVideo d options random).map fun x => [⟨c.name, c.type, .video x⟩]
  return audio ++ video

end MediaSessionClient

/-- A channel that has taken all of the contents, if it takes them. -/
def BaseChannel.accept (create : List Byte → List Byte → Bool) (contents : List Content) :
    Option BaseChannel :=
  contents.foldlM (fun c x => match c.setContent create x with
    | (true, c) => some c
    | _ => none) new

/-! ### Keys that are drawn can be read -/

theorem exists_encode (bytes : ℕ → Byte) (n : ℕ) : ∃ x, x.length = 3 * n ∧
    encodeFromArray x = (List.range (4 * n)).map fun i => toChar (bytes i % 64) := by
  induction n generalizing bytes with
  | zero => exact ⟨[], rfl, rfl⟩
  | succ n ih =>
    -- four characters in front are three bytes
    obtain ⟨x, hlen, hx⟩ := ih fun i => bytes (i + 4)
    have hvalue : ∀ i, IsValue (toChar (bytes i % 64)) := fun i =>
      isValue_char (BitVec.umod_lt _ (by decide))
    refine ⟨_, ?_, (encode_three (hvalue 0) (hvalue 1) (hvalue 2) (hvalue 3) x).trans ?_⟩
    · simp only [List.length_cons, hlen]
      omega
    · rw [hx, show 4 * (n + 1) = 4 * n + 1 + 1 + 1 + 1 from rfl]
      simp [List.range_succ_eq_map, Function.comp_def]

/-- The filter can make a key of it. -/
def CryptoParams.Usable (p : CryptoParams) : Prop :=
  (p.cipherSuite = csAesCm128HmacSha1_80 ∨ p.cipherSuite = csAesCm128HmacSha1_32) ∧
    ∃ key, parseKeyParams p.keyParams = some key

theorem createCryptoParams_spec {tag : ℤ} {cipher : List Byte} {random : Random}
    {p : CryptoParams} (h : createCryptoParams tag cipher random = some p) :
    p.tag = tag ∧ p.cipherSuite = cipher ∧ ∃ key, parseKeyParams p.keyParams = some key := by
  rcases random with _ | bytes
  · cases h
  obtain ⟨x, hlen, hx⟩ := exists_encode bytes 10
  refine Option.some.inj h ▸ ⟨rfl, rfl, x, ?_⟩
  have hdrop : (textBytes "inline:" ++ encodeFromArray x).drop 7 = encodeFromArray x :=
    List.drop_left' (by decide)
  change parseKeyParams (textBytes "inline:" ++
    (List.range (4 * 10)).map fun i => toChar (bytes i % 64)) = some x
  rw [← hx, parseKeyParams, if_pos (List.isPrefixOf_iff_prefix.2 (List.prefix_append _ _)), hdrop,
    decode_encode]
  exact if_pos ⟨rfl, hlen⟩

theorem addCryptoParams_usable {cipher : List Byte} {out ps : List CryptoParams} {random : Random}
    (h : addCryptoParams cipher out random = some ps)
    (hcipher : cipher = csAesCm128HmacSha1_80 ∨ cipher = csAesCm128HmacSha1_32)
    (hout : ∀ p ∈ out, p.Usable) : ∀ p ∈ ps, p.Usable := by
  obtain ⟨q, hq, rfl⟩ := Option.map_eq_some_iff.1 h
  obtain ⟨-, hsuite, hkey⟩ := createCryptoParams_spec hq
  intro p hp
  rcases List.mem_append.1 hp with hp | hp
  · exact hout p hp
  · rw [List.mem_singleton.1 hp]
    exact ⟨hsuite ▸ hcipher, hkey⟩

/-! ### One content -/

section Channels

variable {create : List Byte → List Byte → Bool}

theorem accept_clear (source : ContentSource) (ps : List CryptoParams) :
    BaseChannel.accept create
      [⟨.caOffer, source, ps, false⟩, ⟨.caAnswer, source.other, [], false⟩] = some .new := by
  cases source <;> rfl

theorem accept_secure (hcreate : ∀ cs key, create cs key = true) (source : ContentSource)
    {ps : List CryptoParams} {p a : CryptoParams} {kp ka : List Byte}
    (hfind : ps.find? a.matches_ = some p)
    (hsuite : p.cipherSuite = csAesCm128HmacSha1_80 ∨ p.cipherSuite = csAesCm128HmacSha1_32)
    (hkp : parseKeyParams p.keyParams = some kp) (hka : parseKeyParams a.keyParams = some ka) :
    BaseChannel.accept create
        [⟨.caOffer, source, ps, false⟩, ⟨.caAnswer, source.other, [a], false⟩] =
      some ⟨⟨.active, [], some (p.cipherSuite, source.pick kp ka),
        some (p.cipherSuite, source.pick ka kp)⟩, ⟨.init, false⟩⟩ := by
  have hmatch := List.find?_some hfind
  simp only [CryptoParams.matches_, Bool.and_eq_true, decide_eq_true_eq] at hmatch
  have hset : ∀ {kps key}, parseKeyParams kps = some key →
      SrtpSession.setKey create none p.cipherSuite key = some (p.cipherSuite, key) :=
    fun hkey => (SrtpFilter.setKey_none hcreate hkey _).trans (if_pos hsuite)
  cases source <;>
    simp [BaseChannel.accept, BaseChannel.setContent, BaseChannel.setSrtp, BaseChannel.setRtcpMux,
      BaseChannel.new, SrtpFilter.setOffer, SrtpFilter.setAnswer, SrtpFilter.negotiateParams,
      SrtpFilter.applyParams, RtcpMuxFilter.setOffer, RtcpMuxFilter.setAnswer,
      FilterState.offered, FilterState.awaits, ContentSource.other, ContentSource.pick,
      hfind, hkp, hka, hset hkp, hset hka, hmatch.2]

theorem agree (hcreate : ∀ cs key, create cs key = true) {ps as : List CryptoParams}
    (hps : ∀ p ∈ ps, p.Usable) {audio : Bool} {random : Random}
    (has : as = [] ∨ ∃ a, selectCrypto audio ps random = some a ∧ as = [a]) : ∃ c,
    BaseChannel.accept create
      [⟨.caOffer, .csLocal, ps, false⟩, ⟨.caAnswer, .csRemote, as, false⟩] = some c ∧
    BaseChannel.accept create
      [⟨.caOffer, .csRemote, ps, false⟩, ⟨.caAnswer, .csLocal, as, false⟩] = some c.mirror ∧
    (c.srtpFilter.isActive ↔ as ≠ []) := by
  obtain rfl | ⟨a, hsel, rfl⟩ := has
  · exact ⟨.new, accept_clear .csLocal ps, accept_clear .csRemote ps, by decide⟩
  obtain ⟨i, hi, hcreated⟩ := Option.bind_eq_some_iff.1 hsel
  obtain ⟨htag, hsuite, hkey⟩ := createCryptoParams_spec hcreated
  have hmem := List.mem_of_find?_eq_some hi
  -- the offerer may find another parameter of the same tag and suite, which does as well
  have hmatch : a.matches_ i = true := by simp [CryptoParams.matches_, htag, hsuite]
  obtain ⟨p, hfind⟩ := Option.isSome_iff_exists.1 (List.find?_isSome.2 ⟨i, hmem, hmatch⟩)
  obtain ⟨hsuite, kp, hkp⟩ := hps p (List.mem_of_find?_eq_some hfind)
  obtain ⟨ka, hka⟩ := hkey
  exact ⟨_, accept_secure hcreate .csLocal hfind hsuite hkp hka,
    accept_secure hcreate .csRemote hfind hsuite hkp hka, by simp [SrtpFilter.isActive]⟩

/-- What both ends have of one content. -/
def Agreed (create : List Byte → List Byte → Bool) (a b : MediaSessionClient)
    (o n : ContentInfo) : Prop :=
  o.name = n.name ∧ o.type = n.type ∧ ∃ c,
    BaseChannel.accept create [o.set .caOffer .csLocal, n.set .caAnswer .csRemote] = some c ∧
    BaseChannel.accept create [o.set .caOffer .csRemote, n.set .caAnswer .csLocal] =
      some c.mirror ∧
    (a.secure = .secRequired ∨ b.secure = .secRequired → c.srtpFilter.isActive) ∧
    (c.srtpFilter.isActive → a.secure ≠ .secDisabled ∧ b.secure ≠ .secDisabled)

theorem offerCryptos_spec {F : Type} {a : MediaSessionClient}
    {supported : Option (List CryptoParams)} (hsupported : ∀ ps ∈ supported, ∀ p ∈ ps, p.Usable)
    {d₀ d : MediaContentDescription F} (hd₀ : d₀.cryptos = [] ∧ d₀.cryptoRequired = false)
    (h : a.offerCryptos supported d₀ = some d) :
    (∀ p ∈ d.cryptos, p.Usable) ∧ (a.secure = .secDisabled → d.cryptos = []) ∧
      (d.cryptoRequired = true ↔ a.secure = .secRequired) := by
  have hgetD : ∀ p ∈ supported.getD [], p.Usable := by
    cases supported with
    | none => exact nofun
    | some ps => exact hsupported ps rfl
  rw [MediaSessionClient.offerCryptos] at h
  cases hsecure : a.secure <;> simp [hsecure, hd₀] at h
  · subst h
    simp [hd₀]
  · subst h
    simpa [hd₀] using hgetD
  · obtain ⟨-, rfl⟩ := h
    simpa using hgetD

theorem answerCryptos_spec {F : Type} {b : MediaSessionClient} {audio : Bool} {random : Random}
    {offer d₀ d : MediaContentDescription F} (hd₀ : d₀.cryptos = [])
    (h : b.answerCryptos audio offer random d₀ = some d) :
    (d.cryptos = [] ∨ ∃ a, selectCrypto audio offer.cryptos random = some a ∧ d.cryptos = [a]) ∧
      (b.secure = .secDisabled → d.cryptos = []) ∧
      (d.cryptos = [] → offer.cryptoRequired = false ∧ b.secure ≠ .secRequired) := by
  rw [MediaSessionClient.answerCryptos] at h
  by_cases hsecure : b.secure = .secDisabled
  · simp [hsecure, hd₀] at h
    obtain ⟨hrequired, rfl⟩ := h
    exact ⟨.inl hd₀, fun _ => hd₀, fun _ => ⟨hrequired, by rw [hsecure]; decide⟩⟩
  cases hsel : selectCrypto audio offer.cryptos random with
  | none =>
    simp [hsecure, hd₀, hsel] at h
    obtain ⟨hrequired, rfl⟩ := h
    exact ⟨.inl rfl, fun _ => rfl, fun _ => hrequired⟩
  | some x =>
    simp [hsecure, hd₀, hsel] at h
    subst h
    exact ⟨.inr ⟨x, rfl, rfl⟩, fun hd => absurd hd hsecure, nofun⟩

theorem agreed {F : Type} (hcreate : ∀ cs key, create cs key = true) {a b : MediaSessionClient}
    {supported : Option (List CryptoParams)} (hsupported : ∀ ps ∈ supported, ∀ p ∈ ps, p.Usable)
    {audio : Bool} {random : Random} {d₀ d d₁ d' : MediaContentDescription F}
    (hd₀ : d₀.cryptos = [] ∧ d₀.cryptoRequired = false) (hd₁ : d₁.cryptos = [])
    (hoffer : a.offerCryptos supported d₀ = some d)
    (hanswer : b.answerCryptos audio d random d₁ = some d') {o n : ContentInfo}
    (hname : o.name = n.name) (htype : o.type = n.type)
    (ho : ∀ action source, o.set action source = ⟨action, source, d.cryptos, false⟩)
    (hn : ∀ action source, n.set action source = ⟨action, source, d'.cryptos, false⟩) :
    Agreed create a b o n := by
  obtain ⟨husable, hclear, hrequired⟩ := offerCryptos_spec hsupported hd₀ hoffer
  obtain ⟨has, hclear', hrequired'⟩ := answerCryptos_spec hd₁ hanswer
  obtain ⟨c, hlocal, hremote, hactive⟩ := agree hcreate husable has
  refine ⟨hname, htype, c, by rw [ho, hn, hlocal], by rw [ho, hn, hremote], fun hsecure => ?_,
    fun hc => ⟨fun hsecure => ?_, fun hsecure => hactive.1 hc (hclear' hsecure)⟩⟩
  · -- without parameters in the answer, `CreateAnswer` would have failed
    refine hactive.2 fun hnone => ?_
    obtain ⟨hoff, hoff'⟩ := hrequired' hnone
    rcases hsecure with hsecure | hsecure
    · rw [hrequired.2 hsecure] at hoff
      cases hoff
    · exact hoff' hsecure
  · refine hactive.1 hc (has.resolve_right ?_)
    rintro ⟨x, hsel, -⟩
    rw [hclear hsecure] at hsel
    cases hsel

theorem getSupportedAudioCryptos_usable (first second : Random) :
    ∀ ps ∈ getSupportedAudioCryptos first second, ∀ p ∈ ps, p.Usable := by
  intro ps hps
  obtain ⟨qs, hqs, hps⟩ := Option.bind_eq_some_iff.1 hps
  exact addCryptoParams_usable hps (.inl rfl) (addCryptoParams_usable hqs (.inr rfl) nofun)

theorem getSupportedVideoCryptos_usable (random : Random) :
    ∀ ps ∈ getSupportedVideoCryptos random, ∀ p ∈ ps, p.Usable := by
  intro ps hps
  exact addCryptoParams_usable hps (.inl rfl) nofun

/-- **The policies of the two ends of a call.**  If the library creates its sessions, then the
channels of both ends take the offer and the answer, and are mirror images.  They are encrypted if
an end requires it, and not if an end has it disabled, even if keys cannot be drawn. -/
theorem policies (hcreate : ∀ cs key, create cs key = true) (a b : MediaSessionClient)
    (options options' : CallOptions) (random : OfferRandom) (random' : AnswerRandom)
    {offer answer : SessionDescription} (hoffer : a.createOffer options random = some offer)
    (hanswer : b.createAnswer offer options' random' = some answer) :
    List.Forall₂ (Agreed create a b) offer answer := by
  obtain ⟨d, hd, hrest⟩ := Option.bind_eq_some_iff.1 hoffer
  have haudio : ∀ {x}, b.answerAudio d random' = some x → Agreed create a b
      ⟨cnAudio, nsJingleRtp, .audio d⟩ ⟨cnAudio, nsJingleRtp, .audio x⟩ := fun hx =>
    agreed hcreate (getSupportedAudioCryptos_usable _ _) ⟨rfl, rfl⟩ rfl hd hx rfl rfl
      (fun _ _ => rfl) fun _ _ => rfl
  split_ifs at hrest
  · obtain ⟨v, hv, hrest⟩ := Option.bind_eq_some_iff.1 hrest
    obtain rfl := Option.some.inj hrest
    obtain ⟨xs, hxs, hanswer⟩ := Option.bind_eq_some_iff.1 hanswer
    obtain ⟨x, hx, rfl⟩ := Option.map_eq_some_iff.1 hxs
    obtain ⟨ys, hys, hanswer⟩ := Option.bind_eq_some_iff.1 hanswer
    obtain ⟨y, hy, rfl⟩ := Option.map_eq_some_iff.1 hys
    obtain rfl := Option.some.inj hanswer
    have hvideo := agreed hcreate (getSupportedVideoCryptos_usable _) ⟨rfl, rfl⟩ rfl hv hy
      (o := ⟨cnVideo, nsJingleRtp, .video v⟩) (n := ⟨cnVideo, nsJingleRtp, .video y⟩) rfl rfl
      (fun _ _ => rfl) fun _ _ => rfl
    exact .cons (haudio hx) (.cons hvideo .nil)
  · obtain rfl := Option.some.inj hrest
    obtain ⟨xs, hxs, hanswer⟩ := Option.bind_eq_some_iff.1 hanswer
    obtain ⟨x, hx, rfl⟩ := Option.map_eq_some_iff.1 hxs
    obtain rfl := Option.some.inj hanswer
    exact .cons (haudio hx) .nil

/-- A call with video by an end that requires security. -/
def sampleOffer : Option SessionDescription :=
  (⟨.secRequired, [], []⟩ : MediaSessionClient).createOffer ⟨true, false, kAutoBandwidth⟩
    ⟨0, some fun _ => 0, some fun _ => 1, 0, some fun _ => 2⟩

def sampleAnswer (secure : SecureMediaPolicy) (offer : SessionDescription) :
    Option SessionDescription :=
  (⟨secure, [], []⟩ : MediaSessionClient).createAnswer offer ⟨true, false, kAutoBandwidth⟩
    ⟨some fun _ => 3, some fun _ => 4⟩

theorem policies_sampleOffer : ∃ offer answer, sampleOffer = some offer ∧
    sampleAnswer .secEnabled offer = some answer ∧
    List.Forall₂ (Agreed (fun _ _ => true) ⟨.secRequired, [], []⟩ ⟨.secEnabled, [], []⟩)
      offer answer := by
  have hisSome : (sampleOffer.bind (sampleAnswer .secEnabled)).isSome := by decide +kernel
  obtain ⟨answer, hanswer⟩ := Option.isSome_iff_exists.1 hisSome
  obtain ⟨offer, hoffer, hanswer⟩ := Option.bind_eq_some_iff.1 hanswer
  exact ⟨offer, answer, hoffer, hanswer, policies (fun _ _ => rfl) _ _ _ _ _ _ hoffer hanswer⟩

end Channels

/-! ### Refusals -/

/-- One end requires what the other one has disabled. -/
def Opposed (a b : MediaSessionClient) : Prop :=
  a.secure = .secRequired ∧ b.secure = .secDisabled ∨
    a.secure = .secDisabled ∧ b.secure = .secRequired

theorem answerCryptos_eq_none {F : Type} (a b : MediaSessionClient) (audio : Bool)
    {supported : Option (List CryptoParams)} (hsupported : ∃ p ps, supported = some (p :: ps) ∧
      (p.cipherSuite = csAesCm128HmacSha1_80 ∨ p.cipherSuite = csAesCm128HmacSha1_32 ∧ audio))
    (bytes : ℕ → Byte) {d₀ : MediaContentDescription F}
    (hd₀ : d₀.cryptos = [] ∧ d₀.cryptoRequired = false) :
    ∃ d, a.offerCryptos supported d₀ = some d ∧ ∀ d₁ : MediaContentDescription F,
      d₁.cryptos = [] → (b.answerCryptos audio d (some bytes) d₁ = none ↔ Opposed a b) := by
  obtain ⟨p, ps, rfl, hp⟩ := hsupported
  have hnone : selectCrypto audio [] (some bytes) = none := rfl
  obtain ⟨x, hsel⟩ : ∃ x, selectCrypto audio (p :: ps) (some bytes) = some x := by
    rw [selectCrypto, List.find?_cons_of_pos (by simpa using hp)]
    exact ⟨_, rfl⟩
  cases ha : a.secure
  · refine ⟨d₀, by simp [MediaSessionClient.offerCryptos, ha], fun d₁ hd₁ => ?_⟩
    cases hb : b.secure <;>
      simp [MediaSessionClient.answerCryptos, Opposed, ha, hb, hd₀, hd₁, hnone]
  all_goals
    refine ⟨_, by simp [MediaSessionClient.offerCryptos, ha, hd₀]; rfl, fun d₁ hd₁ => ?_⟩
    cases hb : b.secure <;>
      simp [MediaSessionClient.answerCryptos, Opposed, ha, hb, hd₁, hsel]

/-- **A refusal**, when keys can be drawn: an offer is always made, and it is refused exactly if
one end requires what the other one has disabled. -/
theorem refused_iff (a b : MediaSessionClient) (options options' : CallOptions)
    (random : OfferRandom) (random' : AnswerRandom)
    (hrandom : ∀ r ∈ [random.audioFirst, random.audioSecond, random.video, random'.audio,
      random'.video], r ≠ none) :
    ∃ offer, a.createOffer options random = some offer ∧
      (b.createAnswer offer options' random' = none ↔ Opposed a b) := by
  obtain ⟨audioSsrc, audioFirst, audioSecond, videoSsrc, video⟩ := random
  obtain ⟨audio', video'⟩ := random'
  simp only [List.forall_mem_cons, Option.ne_none_iff_exists'] at hrandom
  obtain ⟨⟨r₁, rfl⟩, ⟨r₂, rfl⟩, ⟨r₃, rfl⟩, ⟨r₄, rfl⟩, ⟨r₅, rfl⟩, -⟩ := hrandom
  obtain ⟨d, hd, haudio⟩ : ∃ d, a.offerAudio options ⟨audioSsrc, some r₁, some r₂, videoSsrc,
      some r₃⟩ = some d ∧ (b.answerAudio d ⟨some r₄, some r₅⟩ = none ↔ Opposed a b) := by
    refine (answerCryptos_eq_none a b true ?_ r₄ ?_).imp fun d h => ⟨h.1, h.2 _ rfl⟩
    · exact ⟨_, _, rfl, .inr ⟨rfl, rfl⟩⟩
    · exact ⟨rfl, rfl⟩
  obtain ⟨v, hv, hvideo⟩ : ∃ v, a.offerVideo options ⟨audioSsrc, some r₁, some r₂, videoSsrc,
      some r₃⟩ = some v ∧ (b.answerVideo v options' ⟨some r₄, some r₅⟩ = none ↔ Opposed a b) := by
    refine (answerCryptos_eq_none a b false ?_ r₅ ?_).imp fun v h => ⟨h.1, h.2 _ rfl⟩
    · exact ⟨_, _, rfl, .inl rfl⟩
    · exact ⟨rfl, rfl⟩
  by_cases hisVideo : options.isVideo
  · refine ⟨[⟨cnAudio, nsJingleRtp, .audio d⟩, ⟨cnVideo, nsJingleRtp, .video v⟩], ?_, ?_⟩
    · simp [MediaSessionClient.createOffer, hd, hv, hisVideo]
    · rcases hx : b.answerAudio d ⟨some r₄, some r₅⟩ with _ | x
      · refine iff_of_true ?_ (haudio.1 hx)
        simp [MediaSessionClient.createAnswer, getFirstAudioContent, hx]
      · rw [← hvideo]
        rcases hy : b.answerVideo v options' ⟨some r₄, some r₅⟩ with _ | y <;>
          simp [MediaSessionClient.createAnswer, getFirstAudioContent, getFirstVideoContent, hx, hy]
  · refine ⟨[⟨cnAudio, nsJingleRtp, .audio d⟩], ?_, ?_⟩
    · simp [MediaSessionClient.createOffer, hd, hisVideo]
    · simp [MediaSessionClient.createAnswer, getFirstAudioContent, getFirstVideoContent, haudio]

theorem refused_iff_sampleOffer : ∃ offer, sampleOffer = some offer ∧
    (sampleAnswer .secDisabled offer = none ↔
      Opposed ⟨.secRequired, [], []⟩ ⟨.secDisabled, [], []⟩) :=
  refused_iff _ _ _ _ _ _ (by simp)

end Jingle.Phone
