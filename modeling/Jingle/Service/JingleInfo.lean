/-
The servers that the jingle info names.

`JingleInfoTask` takes the STUN server and the relay addresses from each stanza
(`processStart`), and has the first relay address resolved; when that is done it signals
what it has (`onResolveResult`).  The relay addresses are kept from stanza to stanza, and
the client knows the protocol of one by its place in the list only (`onJingleInfo`).

* **`reflects_run`** — what is signalled is what the latest stanza says, if the relay
  addresses of the first one are in their places (`Placed`), and those of another are
  added only after the first one has been resolved (`Fine`).
-/
import Jingle.P2p.AddressText
import Jingle.Service.Status

namespace Jingle.Service

open Signaling (Text QName)
open Xmllite Xmpp

/-! ### Addresses -/

/-- An address that names no host. -/
def noAddress : P2p.SocketAddress := { hostname := [], ip := 0, port := 0 }

/-- The constructor from a host name and a port. -/
def address (hostname : Text) (port : ℤ) : P2p.SocketAddress :=
  (noAddress.setIP hostname).setPort port

def isUnresolved (a : P2p.SocketAddress) : Bool := a.ip = 0 && a.hostname ≠ []

def setResolvedIP (ip : Word) (a : P2p.SocketAddress) : P2p.SocketAddress := { a with ip }

/-! ### The task -/

def nsJingleInfo : Text := textBytes "google:jingleinfo"

def qnJingleInfoQuery : QName := ⟨nsJingleInfo, textBytes "query"⟩
def qnJingleInfoStun : QName := ⟨nsJingleInfo, textBytes "stun"⟩
def qnJingleInfoRelay : QName := ⟨nsJingleInfo, textBytes "relay"⟩
def qnJingleInfoServer : QName := ⟨nsJingleInfo, textBytes "server"⟩
def qnJingleInfoToken : QName := ⟨nsJingleInfo, textBytes "token"⟩
def qnJingleInfoHost : QName := ⟨[], textBytes "host"⟩
def qnJingleInfoUdp : QName := ⟨[], textBytes "udp"⟩
def qnJingleInfoTcp : QName := ⟨[], textBytes "tcp"⟩
def qnJingleInfoTcpssl : QName := ⟨[], textBytes "tcpssl"⟩

/-- What `SignalJingleInfo` carries. -/
structure JingleInfo where
  relayToken : Text
  stunAddress : P2p.SocketAddress
  relayAddresses : List P2p.SocketAddress
  deriving DecidableEq

/-- `JingleInfoTask`: `resolver` is the one that `resolver_` points to, by its number;
each resolver has the address that it was given. -/
structure JingleInfoTask where
  relayHosts : List P2p.SocketAddress
  stunHosts : P2p.SocketAddress
  relayToken : Text
  resolver : Option ℕ
  resolvers : List P2p.SocketAddress
  signals : List JingleInfo
  deriving DecidableEq

/-- The host of a server element. -/
def serverHost (server : XmlElement) : Text := server.attr qnJingleInfoHost

/-- The address of a server element at the port that an attribute names. -/
def serverAddress (server : XmlElement) (port : QName) : P2p.SocketAddress :=
  address (serverHost server) (atoi (server.attr port))

/-- The addresses of a relay server, one for each port that it has. -/
def relayAddresses (server : XmlElement) : List P2p.SocketAddress :=
  ([qnJingleInfoUdp, qnJingleInfoTcp, qnJingleInfoTcpssl].filter fun port =>
    server.attr port ≠ []).map (serverAddress server)

namespace JingleInfoTask

/-- A new task. -/
def new : JingleInfoTask where
  relayHosts := []
  stunHosts := noAddress
  relayToken := []
  resolver := none
  resolvers := []
  signals := []

variable (t : JingleInfoTask)

/-- The STUN server: the loop ends after the first one, with a host or without. -/
def takeStun (query : XmlElement) : JingleInfoTask :=
  match query.firstNamed qnJingleInfoStun with
  | none => t
  | some stun =>
    match stun.firstNamed qnJingleInfoServer with
    | none => t
    | some server =>
      if serverHost server ≠ [] then
        { t with stunHosts := serverAddress server qnJingleInfoUdp }
      else t

/-- The relay server: the first one with a host. -/
def takeRelay (query : XmlElement) : JingleInfoTask :=
  match query.firstNamed qnJingleInfoRelay with
  | none => t
  | some relay =>
    let t := { t with relayToken := relay.textNamed qnJingleInfoToken }
    match (relay.elementsNamed qnJingleInfoServer).find? fun server => serverHost server ≠ [] with
    | none => t
    | some server => { t with relayHosts := t.relayHosts ++ relayAddresses server }

/-- The first relay address is resolved; nothing if there is none. -/
def resolveFirst : Option JingleInfoTask :=
  match t.relayHosts with
  | [] => none
  | first :: _ =>
    if isUnresolved first then
      some { t with resolver := some t.resolvers.length, resolvers := t.resolvers ++ [first] }
    else some t

/-- `ProcessStart` with a stanza. -/
def processStart (stanza : XmlElement) : Option JingleInfoTask :=
  match stanza.firstNamed qnJingleInfoQuery with
  | none => some t
  | some query => ((t.takeStun query).takeRelay query).resolveFirst

/-- `OnResolveResult` for the `k`-th resolver, with the error and the number that its
work ended with. -/
def onResolveResult (k : ℕ) (error : ℤ) (result : Option Word) : JingleInfoTask :=
  if t.resolver ≠ some k then t
  else
    let t :=
      if error = 0 then
        let ip := result.getD ((t.resolvers[k]?.map P2p.SocketAddress.ip).getD 0)
        let relayHosts := t.relayHosts.map (setResolvedIP ip)
        { t with
          relayHosts
          signals := t.signals ++ [{
            relayToken := t.relayToken
            stunAddress := t.stunHosts
            relayAddresses := relayHosts }] }
      else t
    { t with resolver := none }

end JingleInfoTask

/-- The servers of a `BasicPortAllocator`. -/
structure PortAllocator where
  stun : P2p.SocketAddress
  relayUdp : P2p.SocketAddress
  relayTcp : P2p.SocketAddress
  relaySsl : P2p.SocketAddress
  deriving DecidableEq

/-- `OnJingleInfo`: the port allocator that it makes, if it makes one. -/
def onJingleInfo (info : JingleInfo) : Option PortAllocator :=
  match info.relayAddresses with
  | [] => some ⟨info.stunAddress, noAddress, noAddress, noAddress⟩
  | [udp] => some ⟨info.stunAddress, udp, noAddress, noAddress⟩
  | [udp, tcp] => some ⟨info.stunAddress, udp, tcp, noAddress⟩
  | [udp, tcp, ssl] => some ⟨info.stunAddress, udp, tcp, ssl⟩
  | _ => none

/-! ### What a stanza says -/

/-- The STUN server that a query names: the first one with a host. -/
def statedStun (query : XmlElement) : P2p.SocketAddress :=
  match ((query.firstNamed qnJingleInfoStun).map fun stun =>
    stun.elementsNamed qnJingleInfoServer).getD [] |>.find? fun server => serverHost server ≠ [] with
  | none => noAddress
  | some server => serverAddress server qnJingleInfoUdp

/-- The token that a query names. -/
def statedToken (query : XmlElement) : Text :=
  ((query.firstNamed qnJingleInfoRelay).map fun relay => relay.textNamed qnJingleInfoToken).getD []

/-- The relay server that a query names: the first one with a host. -/
def statedRelay (query : XmlElement) : Option XmlElement :=
  (query.firstNamed qnJingleInfoRelay).bind fun relay =>
    (relay.elementsNamed qnJingleInfoServer).find? fun server => serverHost server ≠ []

/-- The relay address of a query for one of the protocols. -/
def statedAddress (query : XmlElement) (port : QName) : Option P2p.SocketAddress :=
  (statedRelay query).bind fun server =>
    if server.attr port ≠ [] then some (serverAddress server port) else none

/-- The relay addresses of a query. -/
def statedAddresses (query : XmlElement) : List P2p.SocketAddress :=
  ((statedRelay query).map relayAddresses).getD []

/-- **What is signalled reflects the query**: its STUN server, its token and its relay
addresses, resolved, from which a port allocator is made with each of them in its role. -/
structure Reflects (info : JingleInfo) (query : XmlElement) : Prop where
  token : info.relayToken = statedToken query
  stun : info.stunAddress = statedStun query
  relays : ∃ ip, info.relayAddresses = (statedAddresses query).map (setResolvedIP ip)
  short : info.relayAddresses.length ≤ 3
  allocator : ∃ ip, onJingleInfo info =
    some {
      stun := statedStun query
      relayUdp := ((statedAddress query qnJingleInfoUdp).map (setResolvedIP ip)).getD noAddress
      relayTcp := ((statedAddress query qnJingleInfoTcp).map (setResolvedIP ip)).getD noAddress
      relaySsl := ((statedAddress query qnJingleInfoTcpssl).map (setResolvedIP ip)).getD noAddress }

/-! ### Runs -/

/-- What can happen to the task. -/
inductive InfoEvent
  | stanza (stanza : XmlElement)
  | resolved (k : ℕ) (error : ℤ) (result : Option Word)

/-- The task, and the latest query that it has processed. -/
structure InfoState where
  task : JingleInfoTask
  latest : Option XmlElement

namespace InfoState

/-- Nothing has happened. -/
def new : InfoState := { task := .new, latest := none }

/-- The task after an event; nothing if an index left its list. -/
def act (s : InfoState) : InfoEvent → Option InfoState
  | .stanza stanza =>
    (s.task.processStart stanza).map fun task =>
      { task, latest := (stanza.firstNamed qnJingleInfoQuery).or s.latest }
  | .resolved k error result => some { s with task := s.task.onResolveResult k error result }

/-- The task after some events. -/
def run (s : InfoState) : List InfoEvent → Option InfoState
  | [] => some s
  | e :: es => (s.act e).bind fun s => s.run es

end InfoState

/-- The addresses of a query are where the client looks for them: the first STUN server has
a host if any has, and there is no TCP port without an UDP port, and no port for SSL
without a TCP port. -/
structure Placed (query : XmlElement) : Prop where
  stun : ∀ stun ∈ query.firstNamed qnJingleInfoStun,
    ∀ server ∈ stun.firstNamed qnJingleInfoServer, serverHost server = [] →
      ∀ other ∈ stun.elementsNamed qnJingleInfoServer, serverHost other = []
  tcp : statedAddress query qnJingleInfoTcp ≠ none → statedAddress query qnJingleInfoUdp ≠ none
  ssl : statedAddress query qnJingleInfoTcpssl ≠ none →
    statedAddress query qnJingleInfoTcp ≠ none

/-- An event in a state in which what is signalled later reflects it: a query is the first
one, with its addresses in their places, or the first relay address has been resolved, so
that nothing is signalled any more. -/
def FineEvent (s : InfoState) : InfoEvent → Prop
  | .stanza stanza => ∀ query ∈ stanza.firstNamed qnJingleInfoQuery,
    match s.task.relayHosts with
    | [] => Placed query
    | first :: _ => isUnresolved first = false
  | .resolved _ _ _ => True

/-- All events of a run are fine. -/
def FineEvents (s : InfoState) : List InfoEvent → Prop
  | [] => True
  | e :: es => FineEvent s e ∧ ∀ s', s.act e = some s' → FineEvents s' es

/-! ### What the task takes from a query -/

variable {t : JingleInfoTask} {query : XmlElement}

theorem takeStun_stunHosts (h : Placed query) (ht : t.stunHosts = noAddress) :
    (t.takeStun query).stunHosts = statedStun query := by
  unfold JingleInfoTask.takeStun statedStun
  cases hstun : query.firstNamed qnJingleInfoStun with
  | none => exact ht
  | some stun =>
    have hplaced := h.stun stun (by rw [hstun]; rfl)
    have hfirst : stun.firstNamed qnJingleInfoServer =
      (stun.elementsNamed qnJingleInfoServer).head? := rfl
    simp only [Option.map_some, Option.getD_some, hfirst]
    rw [hfirst] at hplaced
    cases hs : stun.elementsNamed qnJingleInfoServer with
    | nil => exact ht
    | cons server servers =>
      simp only [List.head?_cons]
      by_cases hhost : serverHost server ≠ []
      · rw [if_pos hhost, List.find?_cons_of_pos (by simpa using hhost)]
      · -- no other server has a host either
        have hnone : (server :: servers).find? (fun server => serverHost server ≠ []) = none := by
          refine List.find?_eq_none.mpr fun other hother => ?_
          have hempty : serverHost other = [] := by
            refine hplaced server (by rw [hs]; rfl) (not_not.mp hhost) other ?_
            rw [hs]
            exact hother
          simp [hempty]
        rw [if_neg hhost, hnone]
        exact ht

@[simp] theorem takeStun_relayHosts : (t.takeStun query).relayHosts = t.relayHosts := by
  unfold JingleInfoTask.takeStun
  split
  · rfl
  · split
    · rfl
    · split_ifs <;> rfl

@[simp] theorem takeStun_relayToken : (t.takeStun query).relayToken = t.relayToken := by
  unfold JingleInfoTask.takeStun
  split
  · rfl
  · split
    · rfl
    · split_ifs <;> rfl

@[simp] theorem takeStun_resolver : (t.takeStun query).resolver = t.resolver := by
  unfold JingleInfoTask.takeStun
  split
  · rfl
  · split
    · rfl
    · split_ifs <;> rfl

@[simp] theorem takeStun_signals : (t.takeStun query).signals = t.signals := by
  unfold JingleInfoTask.takeStun
  split
  · rfl
  · split
    · rfl
    · split_ifs <;> rfl

theorem takeRelay_relayHosts :
    (t.takeRelay query).relayHosts = t.relayHosts ++ statedAddresses query := by
  unfold JingleInfoTask.takeRelay statedAddresses statedRelay
  cases query.firstNamed qnJingleInfoRelay with
  | none => simp
  | some relay =>
    simp only [Option.bind_some]
    cases (relay.elementsNamed qnJingleInfoServer).find? fun server => serverHost server ≠ [] with
    | none => simp
    | some server => rfl

theorem takeRelay_relayToken (ht : t.relayToken = []) :
    (t.takeRelay query).relayToken = statedToken query := by
  unfold JingleInfoTask.takeRelay statedToken
  cases query.firstNamed qnJingleInfoRelay with
  | none => exact ht
  | some relay =>
    dsimp only
    split <;> rfl

@[simp] theorem takeRelay_stunHosts : (t.takeRelay query).stunHosts = t.stunHosts := by
  unfold JingleInfoTask.takeRelay
  split
  · rfl
  · dsimp only
    split <;> rfl

@[simp] theorem takeRelay_resolver : (t.takeRelay query).resolver = t.resolver := by
  unfold JingleInfoTask.takeRelay
  split
  · rfl
  · dsimp only
    split <;> rfl

@[simp] theorem takeRelay_signals : (t.takeRelay query).signals = t.signals := by
  unfold JingleInfoTask.takeRelay
  split
  · rfl
  · dsimp only
    split <;> rfl

theorem resolveFirst_some {t' : JingleInfoTask} (h : t.resolveFirst = some t') :
    ∃ first rest, t.relayHosts = first :: rest ∧ t'.relayHosts = t.relayHosts ∧
      t'.stunHosts = t.stunHosts ∧ t'.relayToken = t.relayToken ∧ t'.signals = t.signals ∧
      (isUnresolved first = false → t'.resolver = t.resolver) := by
  unfold JingleInfoTask.resolveFirst at h
  split at h
  · cases h
  next first rest hr =>
    refine ⟨first, rest, hr, ?_⟩
    split_ifs at h with hun
    · cases h
      exact ⟨rfl, rfl, rfl, rfl, fun hno => absurd hun (by simp [hno])⟩
    · cases h
      exact ⟨rfl, rfl, rfl, rfl, fun _ => rfl⟩

theorem ip_of_mem_statedAddresses {a b : P2p.SocketAddress} (ha : a ∈ statedAddresses query)
    (hb : b ∈ statedAddresses query) : a.ip = b.ip := by
  unfold statedAddresses at ha hb
  cases hr : statedRelay query with
  | none => simp [hr] at ha
  | some server =>
    simp only [hr, Option.map_some, Option.getD_some] at ha hb
    obtain ⟨port, -, rfl⟩ := List.mem_map.mp ha
    obtain ⟨port', -, rfl⟩ := List.mem_map.mp hb
    rfl

theorem reflects_of_placed (h : Placed query) (hne : statedAddresses query ≠ []) (ip : Word) :
    Reflects
      { relayToken := statedToken query
        stunAddress := statedStun query
        relayAddresses := (statedAddresses query).map (setResolvedIP ip) } query := by
  obtain ⟨server, hserver⟩ : ∃ server, statedRelay query = some server := by
    cases hr : statedRelay query with
    | none => exact absurd (by simp [statedAddresses, hr]) hne
    | some server => exact ⟨server, rfl⟩
  have haddr : ∀ port, statedAddress query port =
      if server.attr port ≠ [] then some (serverAddress server port) else none := fun port => by
    rw [statedAddress, hserver, Option.bind_some]
  have hlist : statedAddresses query = relayAddresses server := by
    rw [statedAddresses, hserver]
    rfl
  have htcp := h.tcp
  have hssl := h.ssl
  rw [hlist] at hne ⊢
  simp only [haddr] at htcp hssl
  refine ⟨rfl, rfl, ⟨ip, by rw [hlist]⟩, ?_, ip, ?_⟩
  · refine (List.length_map _).trans_le ((List.length_map _).trans_le ?_)
    exact List.length_filter_le _ _
  · simp only [haddr]
    by_cases hu : server.attr qnJingleInfoUdp = []
    · have ht : server.attr qnJingleInfoTcp = [] := by
        by_contra ht
        exact htcp (by simp [ht]) (by simp [hu])
      have hs : server.attr qnJingleInfoTcpssl = [] := by
        by_contra hs
        exact hssl (by simp [hs]) (by simp [ht])
      exact absurd (by simp [relayAddresses, hu, ht, hs]) hne
    · by_cases ht : server.attr qnJingleInfoTcp = []
      · have hs : server.attr qnJingleInfoTcpssl = [] := by
          by_contra hs
          exact hssl (by simp [hs]) (by simp [ht])
        simp [relayAddresses, onJingleInfo, hu, ht, hs]
      · by_cases hs : server.attr qnJingleInfoTcpssl = []
        · simp [relayAddresses, onJingleInfo, hu, ht, hs]
        · simp [relayAddresses, onJingleInfo, hu, ht, hs]

/-! ### The invariant -/

/-- Nothing has been taken yet. -/
structure Idle (s : InfoState) : Prop where
  relayHosts : s.task.relayHosts = []
  stunHosts : s.task.stunHosts = noAddress
  relayToken : s.task.relayToken = []
  resolver : s.task.resolver = none

/-- The task has what the latest query says, unresolved. -/
structure Waiting (s : InfoState) (query : XmlElement) : Prop where
  latest : s.latest = some query
  placed : Placed query
  relayHosts : s.task.relayHosts = statedAddresses query
  unresolved : ∃ first rest, s.task.relayHosts = first :: rest ∧ isUnresolved first = true
  stunHosts : s.task.stunHosts = statedStun query
  relayToken : s.task.relayToken = statedToken query

/-- The first relay address is resolved, and nothing will be signalled. -/
structure Settled (s : InfoState) : Prop where
  resolved : ∃ first rest, s.task.relayHosts = first :: rest ∧ isUnresolved first = false
  resolver : s.task.resolver = none

/-- What holds of the task all the time. -/
def Kept (s : InfoState) : Prop := Idle s ∨ (∃ query, Waiting s query) ∨ Settled s

/-- The signals that an event raises. -/
def InfoState.raised (s : InfoState) (e : InfoEvent) : List JingleInfo :=
  match s.act e with
  | none => []
  | some s' => s'.task.signals.drop s.task.signals.length

variable {s s' : InfoState}

theorem signals_stanza {stanza : XmlElement} (h : s.act (.stanza stanza) = some s') :
    s'.task.signals = s.task.signals := by
  obtain ⟨t', ht', rfl⟩ := Option.map_eq_some_iff.mp h
  unfold JingleInfoTask.processStart at ht'
  split at ht'
  · cases ht'
    rfl
  · obtain ⟨_, _, -, -, -, -, hsig, -⟩ := resolveFirst_some ht'
    rw [hsig, takeRelay_signals, takeStun_signals]

theorem kept_stanza (h : Kept s) {stanza : XmlElement} (hf : FineEvent s (.stanza stanza))
    (hact : s.act (.stanza stanza) = some s') : Kept s' := by
  obtain ⟨t', ht', rfl⟩ := Option.map_eq_some_iff.mp hact
  cases hq : stanza.firstNamed qnJingleInfoQuery with
  | none =>
    rw [JingleInfoTask.processStart, hq] at ht'
    cases ht'
    exact h
  | some query =>
    have hfine := hf query (by rw [hq]; rfl)
    rw [JingleInfoTask.processStart, hq] at ht'
    obtain ⟨first, rest, hfirst, hhosts, hstun, htoken, -, hres⟩ := resolveFirst_some ht'
    rw [takeRelay_relayHosts, takeStun_relayHosts] at hfirst hhosts
    rcases h with h | ⟨query', h⟩ | h
    · -- the first query: the task has what it says
      rw [h.relayHosts] at hfine
      have hplaced : Placed query := hfine
      rw [h.relayHosts, List.nil_append] at hfirst hhosts
      cases hun : isUnresolved first with
      | true =>
        refine .inr (.inl ⟨query, rfl, hplaced, hhosts, ⟨first, rest, hhosts.trans hfirst, hun⟩,
          ?_, ?_⟩)
        · show t'.stunHosts = _
          rw [hstun, takeRelay_stunHosts, takeStun_stunHosts hplaced h.stunHosts]
        · show t'.relayToken = _
          rw [htoken, takeRelay_relayToken]
          rw [takeStun_relayToken, h.relayToken]
      | false =>
        refine .inr (.inr ⟨⟨first, rest, hhosts.trans hfirst, hun⟩, ?_⟩)
        show t'.resolver = _
        rw [hres hun, takeRelay_resolver, takeStun_resolver, h.resolver]
    · obtain ⟨f, r, hr, hun⟩ := h.unresolved
      rw [hr] at hfine
      have hno : isUnresolved f = false := hfine
      rw [hno] at hun
      cases hun
    · obtain ⟨f, r, hr, hun⟩ := h.resolved
      rw [hr, List.cons_append] at hfirst hhosts
      obtain ⟨rfl, -⟩ := List.cons.inj hfirst
      refine .inr (.inr ⟨⟨f, _, hhosts, hun⟩, ?_⟩)
      show t'.resolver = _
      rw [hres hun, takeRelay_resolver, takeStun_resolver, h.resolver]

theorem kept_resolved (h : Kept s) (k : ℕ) (error : ℤ) (result : Option Word) :
    Kept { s with task := s.task.onResolveResult k error result } ∧
      ((s.task.onResolveResult k error result).signals = s.task.signals ∨
        ∃ info query, (s.task.onResolveResult k error result).signals =
          s.task.signals ++ [info] ∧ s.latest = some query ∧ Reflects info query) := by
  unfold JingleInfoTask.onResolveResult
  by_cases hk : s.task.resolver ≠ some k
  · rw [if_pos hk]
    exact ⟨h, .inl rfl⟩
  rw [if_neg hk]
  have hk : s.task.resolver = some k := not_not.mp hk
  rcases h with h | ⟨query, h⟩ | h
  · rw [h.resolver] at hk
    cases hk
  · by_cases herr : error = 0
    · simp only [if_pos herr]
      set ip := result.getD ((s.task.resolvers[k]?.map P2p.SocketAddress.ip).getD 0) with hip
      obtain ⟨first, rest, hfirst, hun⟩ := h.unresolved
      have hne : statedAddresses query ≠ [] := by
        rw [← h.relayHosts, hfirst]
        simp
      refine ⟨?_, .inr ⟨_, query, rfl, h.latest, ?_⟩⟩
      · by_cases hzero : ip = 0
        · -- the resolver has found nothing, and the addresses are as before
          have hsame : s.task.relayHosts.map (setResolvedIP ip) = s.task.relayHosts := by
            refine (List.map_congr_left fun a ha => ?_).trans (List.map_id _)
            have hmem : first ∈ statedAddresses query := by
              rw [← h.relayHosts, hfirst]
              exact List.mem_cons_self
            have ha0 : a.ip = 0 := by
              rw [ip_of_mem_statedAddresses (h.relayHosts ▸ ha) hmem]
              simp only [isUnresolved, Bool.and_eq_true, decide_eq_true_eq] at hun
              exact hun.1
            rw [setResolvedIP, hzero, ← ha0]
            rfl
          rw [hsame]
          exact .inr (.inl ⟨query, h.latest, h.placed, h.relayHosts, h.unresolved, h.stunHosts,
            h.relayToken⟩)
        · refine .inr (.inr ⟨⟨setResolvedIP ip first, rest.map (setResolvedIP ip), ?_, ?_⟩, rfl⟩)
          · rw [hfirst, List.map_cons]
          · exact Bool.and_eq_false_imp.mpr fun h => absurd (of_decide_eq_true h) hzero
      · rw [h.relayToken, h.stunHosts, h.relayHosts]
        exact reflects_of_placed h.placed hne ip
    · rw [if_neg herr]
      exact ⟨.inr (.inl ⟨query, h.latest, h.placed, h.relayHosts, h.unresolved, h.stunHosts,
        h.relayToken⟩), .inl rfl⟩
  · rw [h.resolver] at hk
    cases hk

theorem kept_run (es : List InfoEvent) : ∀ {s s' : InfoState}, Kept s → FineEvents s es →
    s.run es = some s' → Kept s' := by
  induction es with
  | nil =>
    intro s s' h _ hrun
    cases hrun
    exact h
  | cons e es ih =>
    intro s s' h hf hrun
    obtain ⟨s₁, hs₁, hrun⟩ := Option.bind_eq_some_iff.mp hrun
    refine ih ?_ (hf.2 s₁ hs₁) hrun
    cases e with
    | stanza stanza => exact kept_stanza h hf.1 hs₁
    | resolved k error result =>
      cases hs₁
      exact (kept_resolved h k error result).1

/-- **What is signalled reflects the latest query**, in every run whose events are fine. -/
theorem reflects_run (es : List InfoEvent) (hf : FineEvents .new es) {s : InfoState}
    (hrun : InfoState.new.run es = some s) (e : InfoEvent) :
    ∀ info ∈ s.raised e, ∃ query, s.latest = some query ∧ Reflects info query := by
  intro info hinfo
  have hkept : Kept s := kept_run es (.inl ⟨rfl, rfl, rfl, rfl⟩) hf hrun
  unfold InfoState.raised at hinfo
  cases e with
  | stanza stanza =>
    cases hact : s.act (.stanza stanza) with
    | none => simp [hact] at hinfo
    | some s' =>
      rw [hact] at hinfo
      simp [signals_stanza hact] at hinfo
  | resolved k error result =>
    have hact : s.act (.resolved k error result) =
      some { s with task := s.task.onResolveResult k error result } := rfl
    rw [hact] at hinfo
    dsimp only at hinfo
    rcases (kept_resolved hkept k error result).2 with hsame | ⟨info', query, hnew, hq, hr⟩
    · rw [hsame] at hinfo
      simp at hinfo
    · rw [hnew, List.drop_left] at hinfo
      rw [List.mem_singleton.mp hinfo]
      exact ⟨query, hq, hr⟩

/-! ### Samples -/

/-- A server with ports. -/
def sampleServer (host : Text) (ports : List QName) : XmlElement :=
  ports.foldl (fun server port => server.addAttr port (textBytes "1"))
    ((XmlElement.new qnJingleInfoServer).addAttr qnJingleInfoHost host)

/-- A stanza with one relay server. -/
def sampleInfo (host : Text) (ports : List QName) : XmlElement :=
  (XmlElement.new qnIq).addElement ((XmlElement.new qnJingleInfoQuery).addElement
    ((XmlElement.new qnJingleInfoRelay).addElement (sampleServer host ports)))

/-- Two stanzas that follow each other, and the resolver of the first one. -/
def sampleEvents : List InfoEvent :=
  [.stanza (sampleInfo (textBytes "a") [qnJingleInfoUdp]),
    .stanza (sampleInfo (textBytes "b") [qnJingleInfoUdp])]

/-- A stanza with a port for SSL only. -/
def sampleSsl : List InfoEvent := [.stanza (sampleInfo (textBytes "a") [qnJingleInfoTcpssl])]

theorem reflects_sample : ∃ s,
    InfoState.new.run [.stanza (sampleInfo (textBytes "a") [qnJingleInfoUdp])] = some s ∧
    (s.raised (.resolved 0 0 (some 7))).length = 1 ∧
    ∀ info ∈ s.raised (.resolved 0 0 (some 7)), ∃ query, s.latest = some query ∧
      Reflects info query := by
  have hrun : (InfoState.new.run
      [.stanza (sampleInfo (textBytes "a") [qnJingleInfoUdp])]).map (fun s =>
        (s.raised (.resolved 0 0 (some 7))).length) = some 1 := by decide
  obtain ⟨s, hs, hone⟩ := Option.map_eq_some_iff.mp hrun
  have hplaced : ∀ query ∈ (sampleInfo (textBytes "a") [qnJingleInfoUdp]).firstNamed
      qnJingleInfoQuery, Placed query := by
    intro query hquery
    cases hquery
    refine ⟨fun stun hstun => by (cases hstun), fun htcp => absurd ?_ htcp,
      fun hssl => absurd ?_ hssl⟩
    · decide
    · decide
  have hfine : FineEvents .new [.stanza (sampleInfo (textBytes "a") [qnJingleInfoUdp])] := by
    refine And.intro hplaced ?_
    intro _ _
    trivial
  exact ⟨s, hs, hone, reflects_run _ hfine hs _⟩

/-- **Addresses pile up**: a stanza before the resolver is done adds its addresses to those
of the one before, and a port for SSL alone takes the place of the one for UDP. -/
theorem not_reflects :
    (∃ s, InfoState.new.run sampleEvents = some s ∧
      ∃ info ∈ s.raised (.resolved 1 0 (some 7)),
        ¬ ∃ query, s.latest = some query ∧ Reflects info query) ∧
      ∃ s, InfoState.new.run sampleSsl = some s ∧
        ∃ info ∈ s.raised (.resolved 0 0 (some 7)),
          ¬ ∃ query, s.latest = some query ∧ Reflects info query := by
  constructor
  · have hrun : (InfoState.new.run sampleEvents).map (fun s =>
        ((s.raised (.resolved 1 0 (some 7))).map fun info => info.relayAddresses.length,
          s.latest.map fun query => (statedAddresses query).length)) = some ([2], some 1) := by
      decide
    obtain ⟨s, hs, heq⟩ := Option.map_eq_some_iff.mp hrun
    obtain ⟨hlengths, hlatest⟩ := Prod.mk.inj heq
    obtain ⟨info, hinfo, htwo⟩ := List.map_eq_singleton_iff.mp hlengths
    refine ⟨s, hs, info, by rw [hinfo]; exact List.mem_singleton_self info, ?_⟩
    rintro ⟨query, hquery, hreflects⟩
    obtain ⟨ip, hrelays⟩ := hreflects.relays
    rw [hquery, Option.map_some] at hlatest
    rw [hrelays, List.length_map, Option.some.inj hlatest] at htwo
    cases htwo
  · have hrun : (InfoState.new.run sampleSsl).map (fun s =>
        ((s.raised (.resolved 0 0 (some 7))).map fun info =>
            (onJingleInfo info).map fun pa => pa.relayUdp.hostname,
          s.latest.map fun query => statedAddress query qnJingleInfoUdp)) =
        some ([some (textBytes "a")], some none) := by decide
    obtain ⟨s, hs, heq⟩ := Option.map_eq_some_iff.mp hrun
    obtain ⟨hudp, hlatest⟩ := Prod.mk.inj heq
    obtain ⟨info, hinfo, hhost⟩ := List.map_eq_singleton_iff.mp hudp
    refine ⟨s, hs, info, by rw [hinfo]; exact List.mem_singleton_self info, ?_⟩
    rintro ⟨query, hquery, hreflects⟩
    obtain ⟨ip, halloc⟩ := hreflects.allocator
    rw [hquery, Option.map_some] at hlatest
    rw [halloc, Option.some.inj hlatest] at hhost
    have hname : ([] : Text) = textBytes "a" := Option.some.inj hhost
    exact absurd hname (by decide)

end Jingle.Service
