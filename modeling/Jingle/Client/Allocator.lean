/-
The session of the basic port allocator.

For each network the session makes an allocation sequence, which creates ports in four
phases: UDP ports and STUN ports, relay ports, TCP ports, and nothing more for SSLTCP.
`DoAllocate` makes no phase that an earlier sequence for the same network and the same
address has.  A port tells of its addresses as it learns them; the session announces
the candidates of a port when the port is ready, those of them whose protocol the
sequence has enabled, and the others when it is.

What a port can be made of is not decided here: `make` says whether the creation of the
n-th port works and which address its socket has by then.
-/
import Jingle.P2p.Candidate

namespace Jingle.Client

inductive ProtocolType
  | udp
  | tcp
  | ssltcp
  deriving DecidableEq

def protoToString : ProtocolType → List Byte
  | .udp => textBytes "udp"
  | .tcp => textBytes "tcp"
  | .ssltcp => textBytes "ssltcp"

def stringToProto (value : List Byte) : Option ProtocolType :=
  [ProtocolType.udp, .tcp, .ssltcp].find? (protoToString · = value)

/-- `PORTALLOCATOR_DISABLE_..`. -/
abbrev Flags := Word

def disableUdp : Flags := 0x01
def disableStun : Flags := 0x02
def disableRelay : Flags := 0x04
def disableTcp : Flags := 0x08

def disableAllPhases : Flags := disableUdp ||| disableTcp ||| disableStun ||| disableRelay

/-- A network object and its address. -/
structure Network where
  id : ℕ
  ip : Word

structure ProtocolAddress where
  address : P2p.SocketAddress
  proto : ProtocolType
  deriving DecidableEq

/-- The ports of a relay server. -/
structure RelayServer where
  ports : List ProtocolAddress
  deriving DecidableEq

structure PortConfiguration where
  stunAddress : P2p.SocketAddress
  relays : List RelayServer

inductive PortKind
  | udp
  | tcp
  | stun
  | relay
  deriving DecidableEq

/-- The flag against a kind of ports. -/
def PortKind.disable : PortKind → Flags
  | udp => disableUdp
  | tcp => disableTcp
  | stun => disableStun
  | relay => disableRelay

/-- A port and the candidates that it has so far. -/
structure Port where
  id : ℕ
  /-- What a candidate has of its port, beside its own address and protocol. -/
  base : P2p.Candidate
  candidates : List P2p.Candidate

namespace Port

def candidate (port : Port) (address : P2p.SocketAddress) (protocol : List Byte) : P2p.Candidate :=
  { port.base with address := address, protocol := protocol }

/-- `AddAddress`, without its signal. -/
def addAddress (port : Port) (address : P2p.SocketAddress) (protocol : List Byte) : Port :=
  { port with candidates := port.candidates ++ [port.candidate address protocol] }

/-- The test of `RelayPort::AddExternalAddress`. -/
def redundant (port : Port) (address : P2p.SocketAddress) (protocol : List Byte) : Bool :=
  port.candidates.any fun c => c.address.eqv address ∧ c.protocol = protocol

end Port

structure PortData where
  port : Port
  sequence : ℕ
  ready : Bool

inductive Phase
  | udp
  | relay
  | tcp
  | ssltcp

def Phase.number : Phase → ℕ
  | udp => 0
  | relay => 1
  | tcp => 2
  | ssltcp => 3

structure AllocationSequence where
  network : ℕ
  ip : Word
  config : Option PortConfiguration
  running : Bool
  step : ℕ
  last_phase_in_step_zero : ℕ
  flags : Flags
  protocols : List ProtocolType

namespace AllocationSequence

/-- The constructor, up to its call of `OnMessage`. -/
def create (n : Network) (config : Option PortConfiguration) (flags : Flags)
    (best_writable_phase : ℤ) : AllocationSequence where
  network := n.id
  ip := n.ip
  config := config
  running := false
  step := 0
  last_phase_in_step_zero := (max 0 best_writable_phase).toNat
  flags := flags
  protocols := []

def stepOfPhase (q : AllocationSequence) (phase : Phase) : ℕ :=
  phase.number - q.last_phase_in_step_zero

/-- The ports of a kind are not disabled. -/
def creates (q : AllocationSequence) (kind : PortKind) : Bool := q.flags &&& kind.disable = 0

def sameNetwork (q : AllocationSequence) (n : Network) : Bool := n.id = q.network ∧ q.ip = n.ip

/-- The phases of a new sequence that this one covers. -/
def disableEquivalentPhases (q : AllocationSequence) (n : Network)
    (config : Option PortConfiguration) (flags : Flags) : Flags :=
  if q.sameNetwork n = false then flags
  else
    let flags := flags ||| disableUdp ||| disableTcp
    match q.config, config with
    | some mine, some other =>
      let flags := if mine.stunAddress.eqv other.stunAddress then flags ||| disableStun else flags
      if mine.relays ≠ [] then flags ||| disableRelay else flags
    | _, _ => flags

end AllocationSequence

/-- The signals of the session. -/
inductive AllocatorSignal
  | portReady (port : ℕ)
  /-- Each candidate with its port. -/
  | candidatesReady (candidates : List (ℕ × P2p.Candidate))

/-- What a creation gives: the port, and the address that its socket is bound to. -/
structure Made where
  base : P2p.Candidate
  bound : Option P2p.SocketAddress

structure AllocatorSession where
  flags : Flags
  allocation_started : Bool
  network_manager_started : Bool
  running : Bool
  configs : List PortConfiguration
  sequences : List AllocationSequence
  ports : List PortData
  signals : List AllocatorSignal
  /-- Each creation of a port: the sequence and the kind.  The place is the port's. -/
  created : List (ℕ × PortKind)

namespace AllocatorSession

def init (flags : Flags) : AllocatorSession := ⟨flags, false, false, false, [], [], [], [], []⟩

/-! ### Announcements -/

def protocolEnabled (w : AllocatorSession) (seq : ℕ) (proto : ProtocolType) : Bool :=
  w.sequences[seq]?.any (proto ∈ ·.protocols)

/-- The protocol of a candidate is enabled in a sequence. -/
def candidateEnabled (w : AllocatorSession) (seq : ℕ) (c : P2p.Candidate) : Bool :=
  (stringToProto c.protocol).any (w.protocolEnabled seq)

def signalCandidatesReady (w : AllocatorSession) (candidates : List (ℕ × P2p.Candidate)) :
    AllocatorSession :=
  if candidates = [] then w
  else { w with signals := w.signals ++ [.candidatesReady candidates] }

def modifyPort (w : AllocatorSession) (id : ℕ) (f : PortData → PortData) : AllocatorSession :=
  { w with ports := w.ports.map fun d => if d.port.id = id then f d else d }

/-- The port is ready, and the session says so. -/
def setReady (w : AllocatorSession) (id : ℕ) : AllocatorSession :=
  { w.modifyPort id fun d => { d with ready := true } with
    signals := w.signals ++ [.portReady id] }

def onAddressReady (w : AllocatorSession) (id : ℕ) : AllocatorSession :=
  match w.ports.find? (·.port.id = id) with
  | none => w
  | some d =>
    if d.ready then w
    else
      let w := w.setReady id
      w.signalCandidatesReady
        ((d.port.candidates.filter (w.candidateEnabled d.sequence)).map (id, ·))

def onProtocolEnabled (w : AllocatorSession) (seq : ℕ) (proto : ProtocolType) :
    AllocatorSession :=
  w.signalCandidatesReady ((w.ports.filter fun d => d.ready ∧ d.sequence = seq).flatMap fun d =>
    (d.port.candidates.filter (stringToProto ·.protocol = some proto)).map (d.port.id, ·))

def pushProtocol (w : AllocatorSession) (seq : ℕ) (proto : ProtocolType) : AllocatorSession :=
  { w with
    sequences := w.sequences.modify seq fun q => { q with protocols := q.protocols ++ [proto] } }

def enableProtocol (w : AllocatorSession) (seq : ℕ) (proto : ProtocolType) : AllocatorSession :=
  if w.protocolEnabled seq proto then w
  else (w.pushProtocol seq proto).onProtocolEnabled seq proto

/-- `AddAddress` of a port. -/
def addAddress (w : AllocatorSession) (id : ℕ) (address : P2p.SocketAddress)
    (protocol : List Byte) (final : Bool) : AllocatorSession :=
  let w := w.modifyPort id fun d => { d with port := d.port.addAddress address protocol }
  if final then w.onAddressReady id else w

def addExternalAddress (w : AllocatorSession) (id : ℕ) (addr : ProtocolAddress) :
    AllocatorSession :=
  match w.ports.find? (·.port.id = id) with
  | none => w
  | some d =>
    if d.port.redundant addr.address (protoToString addr.proto) then w
    else w.addAddress id addr.address (protoToString addr.proto) false

def onPortDestroyed (w : AllocatorSession) (id : ℕ) : AllocatorSession :=
  { w with ports := w.ports.filter (·.port.id ≠ id) }

/-! ### Ports -/

/-- `AddAllocatedPort`, up to `PrepareAddress`. -/
def addAllocatedPort (w : AllocatorSession) (seq id : ℕ) (made : Made) : AllocatorSession :=
  { w with ports := w.ports ++ [⟨⟨id, made.base, []⟩, seq, false⟩] }

/-- `PrepareAddress` of a port that has a socket of its own: an address that is known by
then is added. -/
def prepareAddress (w : AllocatorSession) (id : ℕ) (made : Made) (protocol : List Byte) :
    AllocatorSession :=
  match made.bound with
  | none => w
  | some address => w.addAddress id address protocol true

variable (make : ℕ → Option Made)

/-- `Create` of a kind of ports, and what is done with the port. -/
def createPort (w : AllocatorSession) (seq : ℕ) (kind : PortKind)
    (andThen : ℕ → Made → AllocatorSession → AllocatorSession) : AllocatorSession :=
  let id := w.created.length
  let w := { w with created := w.created ++ [(seq, kind)] }
  match make id with
  | none => w
  | some made => andThen id made (w.addAllocatedPort seq id made)

def createUDPPorts (w : AllocatorSession) (seq : ℕ) (q : AllocationSequence) :
    AllocatorSession :=
  if q.creates .udp = false then w
  else w.createPort make seq .udp fun id made w => w.prepareAddress id made (textBytes "udp")

def createTCPPorts (w : AllocatorSession) (seq : ℕ) (q : AllocationSequence) :
    AllocatorSession :=
  if q.creates .tcp = false then w
  else w.createPort make seq .tcp fun id made w => w.prepareAddress id made (textBytes "tcp")

/-- A STUN port has no address before a server has answered. -/
def createStunPorts (w : AllocatorSession) (seq : ℕ) (q : AllocationSequence) :
    AllocatorSession :=
  if q.creates .stun = false then w
  else
    match q.config with
    | none => w
    | some config =>
      if config.stunAddress.isNil then w else w.createPort make seq .stun fun _ _ w => w

/-- A relay port has the addresses of its servers, and is not ready before one of them
has answered. -/
def createRelayPorts (w : AllocatorSession) (seq : ℕ) (q : AllocationSequence) :
    AllocatorSession :=
  if q.creates .relay = false then w
  else
    match q.config with
    | none => w
    | some config =>
      config.relays.foldl (fun w relay =>
        w.createPort make seq .relay fun id _ w =>
          relay.ports.foldl (fun w addr => w.addExternalAddress id addr) w) w

def performPhase (seq : ℕ) (q : AllocationSequence) (w : AllocatorSession) :
    Phase → AllocatorSession
  | .udp => ((w.createUDPPorts make seq q).createStunPorts make seq q).enableProtocol seq .udp
  | .relay => w.createRelayPorts make seq q
  | .tcp => (w.createTCPPorts make seq q).enableProtocol seq .tcp
  | .ssltcp => w.enableProtocol seq .ssltcp

/-- `AllocationSequence::OnMessage`: the phases of the current step. -/
def onMessage (w : AllocatorSession) (seq : ℕ) : AllocatorSession :=
  match w.sequences[seq]? with
  | none => w
  | some q =>
    let w := [Phase.udp, .relay, .tcp, .ssltcp].foldl (fun w phase =>
      if q.stepOfPhase phase = q.step then w.performPhase make seq q phase else w) w
    { w with sequences := w.sequences.modify seq fun q => { q with step := q.step + 1 } }

/-! ### Allocation -/

def disableEquivalentPhases (w : AllocatorSession) (n : Network)
    (config : Option PortConfiguration) (flags : Flags) : Flags :=
  w.sequences.foldl (fun flags q =>
    if flags &&& disableAllPhases = disableAllPhases then flags
    else q.disableEquivalentPhases n config flags) flags

/-- The flags of a new sequence: those of the session, and the phases that the
configuration has nothing for or that there are already. -/
def sequenceFlags (w : AllocatorSession) (n : Network) : Flags :=
  let config := w.configs.getLast?
  let flags := w.flags
  let flags := if config.all (·.stunAddress.isNil) then flags ||| disableStun else flags
  let flags := if config.all (·.relays.isEmpty) then flags ||| disableRelay else flags
  w.disableEquivalentPhases n config flags

/-- A new sequence performs the phases of its first step before the session knows it;
nothing of these looks at the other sequences. -/
def addSequence (w : AllocatorSession) (q : AllocationSequence) : AllocatorSession :=
  let seq := w.sequences.length
  let w := onMessage make { w with sequences := w.sequences ++ [q] } seq
  if w.running then
    { w with sequences := w.sequences.modify seq fun q => { q with running := true } }
  else w

/-- What `DoAllocate` does for one network. -/
def allocateNetwork (best_writable_phase : ℤ) (w : AllocatorSession) (n : Network) :
    AllocatorSession :=
  let flags := w.sequenceFlags n
  if flags &&& disableAllPhases = disableAllPhases then w
  else w.addSequence make (.create n w.configs.getLast? flags best_writable_phase)

def doAllocate (w : AllocatorSession) (networks : List Network) (best_writable_phase : ℤ) :
    AllocatorSession :=
  networks.foldl (allocateNetwork make best_writable_phase) w

/-! ### Runs -/

end AllocatorSession

/-- What happens to a session.  An event that allocates comes with the networks and the
best phase that the allocator has by then. -/
inductive AllocatorEvent
  | configReady (config : Option PortConfiguration)
  | networksChanged (networks : List Network) (best_writable_phase : ℤ)
  | startGetAllPorts
  | stopGetAllPorts
  | allocate (networks : List Network) (best_writable_phase : ℤ)
  | allocationPhase (seq : ℕ)
  | addAddress (port : ℕ) (address : P2p.SocketAddress) (protocol : List Byte) (final : Bool)
  | addExternalAddress (port : ℕ) (addr : ProtocolAddress)
  | addressReady (port : ℕ)
  | portDestroyed (port : ℕ)

namespace AllocatorSession

variable (make : ℕ → Option Made)

def step (w : AllocatorSession) : AllocatorEvent → AllocatorSession
  | .configReady config => { w with configs := w.configs ++ config.toList }
  | .networksChanged networks best =>
    let w := { w with network_manager_started := true }
    if w.allocation_started then w.doAllocate make networks best else w
  | .startGetAllPorts =>
    { w with running := true, sequences := w.sequences.map fun q => { q with running := true } }
  | .stopGetAllPorts =>
    { w with running := false, sequences := w.sequences.map fun q => { q with running := false } }
  | .allocate networks best =>
    let w := if w.network_manager_started then w.doAllocate make networks best else w
    { w with allocation_started := true }
  | .allocationPhase seq => w.onMessage make seq
  | .addAddress port address protocol final => w.addAddress port address protocol final
  | .addExternalAddress port addr => w.addExternalAddress port addr
  | .addressReady port => w.onAddressReady port
  | .portDestroyed port => w.onPortDestroyed port

def run (w : AllocatorSession) (es : List AllocatorEvent) : AllocatorSession :=
  es.foldl (step make) w

end AllocatorSession

end Jingle.Client
