/-
What one event does to the relay server.

`View` is the part of the server that the safety results are about: the two
maps, the live connections and, for each live binding, its name and its two
lists (`Roster`).  The clock fields of a binding are not in it.

A handler changes the view by a few operations: `openBinding`,
`enterInternal` and `enterExternal` for a new connection, `lock`, `aim` for an
internal connection that is locked to an address, and `drop` for a binding.
`Effect` lists for each event which of them it does and what it sends, and
`step_effect` shows that the list is complete.
-/
import Jingle.Relay.Server

namespace Jingle.Relay

/-- The name of a binding and its connections. -/
structure Roster where
  username : List Byte
  internal : List ℕ
  external : List ℕ

/-- The connections of a binding. -/
def Roster.members (r : Roster) : List ℕ := r.internal ++ r.external

/-- The server without clocks and without output. -/
structure View where
  externalSocket : SocketAddress
  otherSockets : List SocketAddress
  bindings : List Byte → Option ℕ
  connections : SocketAddressPair → Option ℕ
  conn : ℕ → Option Connection
  roster : ℕ → Option Roster
  nextConn : ℕ
  nextBinding : ℕ

def Binding.roster (bn : Binding) : Roster where
  username := bn.username
  internal := bn.internal
  external := bn.external

def Server.view (s : Server) : View where
  externalSocket := s.externalSocket
  otherSockets := s.otherSockets
  bindings := s.bindings
  connections := s.connections
  conn := s.conn
  roster := fun b => (s.binding b).map Binding.roster
  nextConn := s.nextConn
  nextBinding := s.nextBinding

/-! ### The operations -/

namespace View

variable (v : View)

def externalSockets : List SocketAddress := v.externalSocket :: v.otherSockets

/-- A new binding without connections. -/
def openBinding (username : List Byte) : View :=
  { v with
    roster := Function.update v.roster v.nextBinding (some { username, internal := [], external := [] })
    bindings := Function.update v.bindings username (some v.nextBinding)
    nextBinding := v.nextBinding + 1 }

/-- A new connection of a binding under its address pair; `f` puts it into one of
the lists. -/
def enter (f : ℕ → Roster → Roster) (b : ℕ) (ap : SocketAddressPair) (socket : SocketAddress) :
    View :=
  { v with
    conn := Function.update v.conn v.nextConn
      (some { binding := b, addrPair := ap, socket, locked := false, defaultDest := .nil })
    roster := Function.update v.roster b ((v.roster b).map (f v.nextConn))
    connections := Function.update v.connections ap (some v.nextConn)
    nextConn := v.nextConn + 1 }

def enterInternal : ℕ → SocketAddressPair → SocketAddress → View :=
  v.enter fun c r => { r with internal := r.internal ++ [c] }

def enterExternal : ℕ → SocketAddressPair → SocketAddress → View :=
  v.enter fun c r => { r with external := r.external ++ [c] }

def modify (c : ℕ) (f : Connection → Connection) : View :=
  { v with conn := Function.update v.conn c ((v.conn c).map f) }

/-- Lock a connection. -/
def lock (c : ℕ) : View := v.modify c fun cn => { cn with locked := true }

/-- Lock a connection to an address. -/
def aim (c : ℕ) (addr : SocketAddress) : View :=
  v.modify c fun cn => { cn with defaultDest := addr, locked := true }

/-- Delete a connection and the entry of its address pair. -/
def deleteConnection (c : ℕ) : View :=
  match v.conn c with
  | none => v
  | some cn =>
    { v with
      conn := Function.update v.conn c none
      connections := Function.update v.connections cn.addrPair none }

/-- Delete a binding with its connections. -/
def drop (b : ℕ) : View :=
  match v.roster b with
  | none => v
  | some r =>
    let v := r.members.foldl deleteConnection v
    { v with
      bindings := Function.update v.bindings r.username none
      roster := Function.update v.roster b none }

/-- The external connection of a binding for an address. -/
def externalFor (b : ℕ) (ext : SocketAddress) : Option ℕ :=
  match v.roster b with
  | none => none
  | some r =>
    r.external.find? fun c =>
      match v.conn c with
      | some cn => cn.addrPair.source = ext
      | none => false

end View

/-! ### The view of the server's operations -/

namespace Server

variable (s : Server) (env : Env)

@[simp] theorem view_emit (o : Output) : (s.emit o).view = s.view := rfl

theorem view_modifyBinding {f : Binding → Binding} {g : Roster → Roster}
    (h : ∀ bn, (f bn).roster = g bn.roster) (b : ℕ) :
    (s.modifyBinding b f).view =
      { s.view with roster := Function.update s.view.roster b ((s.view.roster b).map g) } := by
  simp only [view, modifyBinding, View.mk.injEq, true_and, and_true]
  funext b'
  by_cases hb : b' = b
  · subst hb
    rw [Function.update_self, Function.update_self]
    cases s.binding b' with
    | none => rfl
    | some bn => simp only [Option.map_some, h]
  · rw [Function.update_of_ne hb, Function.update_of_ne hb]

theorem view_modifyBinding_id {f : Binding → Binding} (h : ∀ bn, (f bn).roster = bn.roster)
    (b : ℕ) : (s.modifyBinding b f).view = s.view := by
  rw [view_modifyBinding s (g := id) h, Option.map_id, id, Function.update_eq_self]

@[simp] theorem view_noteUsed (b : ℕ) : (s.noteUsed env b).view = s.view :=
  s.view_modifyBinding_id (f := fun bn => { bn with lastUsed := env.now }) (fun _ => rfl) b

@[simp] theorem view_lock (c : ℕ) : (s.lock c).view = s.view.lock c := rfl

@[simp] theorem view_onLifetimeTimer (b : ℕ) : (s.onLifetimeTimer env b).view = s.view := by
  refine s.view_modifyBinding_id (fun bn => ?_) b
  split <;> rfl

@[simp] theorem view_aim (c : ℕ) (addr : SocketAddress) :
    ((s.setDefaultDestination c addr).lock c).view = s.view.aim c addr := by
  simp only [view, lock, setDefaultDestination, modifyConn, View.aim, View.modify,
    Function.update_self, Function.update_idem, Option.map_map]
  rfl

@[simp] theorem view_newBinding (username : List Byte) (lifetime : Word) :
    (s.newBinding env username lifetime).view = s.view.openBinding username := by
  simp only [view, newBinding, View.openBinding, View.mk.injEq, true_and, and_true]
  funext b'
  by_cases h : b' = s.nextBinding
  · subst h
    rw [Function.update_self, Function.update_self]
    rfl
  · rw [Function.update_of_ne h, Function.update_of_ne h]

theorem view_addConnection (c : ℕ) (ap : SocketAddressPair) :
    (s.addConnection c ap).view =
      { s.view with connections := Function.update s.view.connections ap (some c) } := by
  rw [addConnection]
  split <;> rfl

theorem view_newConnection (b : ℕ) (ap : SocketAddressPair) (socket : SocketAddress) :
    (s.newConnection env b ap socket).view =
      { s.view with
        conn := Function.update s.view.conn s.view.nextConn
          (some { binding := b, addrPair := ap, socket, locked := false, defaultDest := .nil })
        nextConn := s.view.nextConn + 1 } := by
  rw [newConnection, view_noteUsed]
  rfl

@[simp] theorem view_enterInternal (b : ℕ) (ap : SocketAddressPair) (socket : SocketAddress) :
    (((s.newConnection env b ap socket).addInternalConnection b s.nextConn).addConnection
      s.nextConn ap).view = s.view.enterInternal b ap socket := by
  rw [view_addConnection, addInternalConnection,
    view_modifyBinding _ (g := fun r => { r with internal := r.internal ++ [s.nextConn] })
      (fun _ => rfl), view_newConnection]
  rfl

@[simp] theorem view_enterExternal (b : ℕ) (ap : SocketAddressPair) (socket : SocketAddress) :
    (((s.newConnection env b ap socket).addExternalConnection b s.nextConn).addConnection
      s.nextConn ap).view = s.view.enterExternal b ap socket := by
  rw [view_addConnection, addExternalConnection,
    view_modifyBinding _ (g := fun r => { r with external := r.external ++ [s.nextConn] })
      (fun _ => rfl), view_newConnection]
  rfl

@[simp] theorem view_admitPeer (b : ℕ) (ap : SocketAddressPair) (socket : SocketAddress) :
    (s.admitPeer env b ap socket).view = (s.view.enterExternal b ap socket).lock s.nextConn := by
  rw [admitPeer, view_lock, view_enterExternal]

theorem view_removeConnection (ap : SocketAddressPair) :
    (s.removeConnection ap).view =
      { s.view with connections := Function.update s.view.connections ap none } := by
  rw [removeConnection]
  split
  · rename_i h
    have hself : Function.update s.view.connections ap none = s.view.connections := by
      rw [← h]
      exact Function.update_eq_self _ _
    rw [hself]
    rfl
  · rfl

@[simp] theorem view_deleteConnection (c : ℕ) :
    (s.deleteConnection c).view = s.view.deleteConnection c := by
  have hc : s.view.conn = s.conn := rfl
  rw [deleteConnection, View.deleteConnection, hc]
  cases hcn : s.conn c with
  | none => rfl
  | some cn =>
    have hrem := s.view_removeConnection cn.addrPair
    simp only [view, View.mk.injEq] at hrem ⊢
    obtain ⟨h₁, h₂, h₃, h₄, -, h₆, h₇, h₈⟩ := hrem
    exact ⟨h₁, h₂, h₃, h₄, trivial, h₆, h₇, h₈⟩

theorem view_foldl_deleteConnection (cs : List ℕ) :
    (cs.foldl deleteConnection s).view = cs.foldl View.deleteConnection s.view := by
  induction cs generalizing s with
  | nil => rfl
  | cons c cs ih => rw [List.foldl_cons, List.foldl_cons, ih, view_deleteConnection]

theorem view_removeBinding (username : List Byte) :
    (s.removeBinding username).view =
      { s.view with bindings := Function.update s.view.bindings username none } := by
  rw [removeBinding]
  split
  · rename_i h
    have hself : Function.update s.view.bindings username none = s.view.bindings := by
      rw [← h]
      exact Function.update_eq_self _ _
    rw [hself]
    rfl
  · rfl

@[simp] theorem view_deleteBinding (b : ℕ) : (s.deleteBinding b).view = s.view.drop b := by
  have hr : s.view.roster b = (s.binding b).map Binding.roster := rfl
  rw [deleteBinding, View.drop, hr]
  cases hb : s.binding b with
  | none => rfl
  | some bn =>
    have hfold := s.view_foldl_deleteConnection (bn.internal ++ bn.external)
    have hrem := ((bn.internal ++ bn.external).foldl deleteConnection s).view_removeBinding
      bn.username
    rw [hfold] at hrem
    have hros : ∀ b', (((bn.internal ++ bn.external).foldl View.deleteConnection s.view).roster b') =
        (((bn.internal ++ bn.external).foldl deleteConnection s).binding b').map
          Binding.roster := fun b' => by rw [← hfold]; rfl
    simp only [view, View.mk.injEq, Option.map_some] at hrem ⊢
    obtain ⟨h₁, h₂, h₃, h₄, h₅, -, h₇, h₈⟩ := hrem
    refine ⟨h₁, h₂, h₃, h₄, h₅, ?_, h₇, h₈⟩
    funext b'
    by_cases hbb : b' = b
    · subst hbb
      rw [Function.update_self, Function.update_self]
      rfl
    · rw [Function.update_of_ne hbb, Function.update_of_ne hbb]
      exact (hros b').symm

end Server

/-! ### Effects -/

/-- The send request in a packet with the given user name: its destination, its
data and whether it asks to lock the connection. -/
def sendRequest (username bytes : List Byte) : Option (SocketAddress × List Byte × Bool) :=
  match StunMessage.new.read bytes with
  | .error _ => none
  | .ok (msg, _) =>
    if msg.getByteString .username = some username ∧
        msg.type = StunMessageType.sendRequest.code then
      match msg.getAddress .destinationAddress, msg.getByteString .data with
      | some addr, some data =>
        some ({ ip := addr.ip, port := addr.port }, data,
          match msg.getUInt32 .options with
          | none => false
          | some value => value &&& 0x01 ≠ 0)
      | _, _ => none
    else none

/-- The packet that a connection sends on for an external address. -/
def Connection.packetFrom (cn : Connection) (bytes : List Byte) (fromAddr : SocketAddress) :
    List Byte :=
  if cn.locked && cn.defaultDest = fromAddr then bytes else (dataIndication bytes fromAddr).write

/-- What delivering an external packet to a binding sends. -/
inductive Delivered (v : View) (b : ℕ) (bytes : List Byte) (fromAddr : SocketAddress) :
    List Output → Prop
  | sent (r : Roster) (i : ℕ) (cn : Connection) (hr : v.roster b = some r) (hi : i ∈ r.internal)
      (hcn : v.conn i = some cn) :
      Delivered v b bytes fromAddr
        [.sent cn.socket cn.addrPair.source (cn.packetFrom bytes fromAddr)]
  | dangling (r : Roster) (i : ℕ) (hr : v.roster b = some r) (hi : i ∈ r.internal)
      (hcn : v.conn i = none) : Delivered v b bytes fromAddr []
  | nobody (h : ∀ r, v.roster b = some r → r.internal = []) :
      Delivered v b bytes fromAddr [.fault .noInternalConnection]

/-- The connection that a send request uses: the one of the binding, or a new one. -/
inductive Target (v : View) (b : ℕ) (ext : SocketAddress) : View → ℕ → List Output → Prop
  | found (e : ℕ) (h : v.externalFor b ext = some e) : Target v b ext v e []
  | made (out : List Output) (h : v.externalFor b ext = none)
      (hout : ∀ o ∈ out, o = .fault .severalExternalSockets ∨ (o = .fault .duplicateConnection ∧
        v.connections { source := ext, dest := v.externalSocket } ≠ none)) :
      Target v b ext
        (v.enterExternal b { source := ext, dest := v.externalSocket } v.externalSocket)
        v.nextConn out

/-- What an event can do: the view after it and the output. -/
inductive Effect (v : View) : Event → View → List Output → Prop
  /-- A packet of no connection that is not an allocate request is answered with an error. -/
  | refused {socket remote : SocketAddress} {bytes : List Byte} (reply : List Byte)
      (h : v.connections { source := remote, dest := socket } = none) :
      Effect v (.internalPacket socket remote bytes) v [.sent socket remote reply]
  /-- An allocate request makes a connection, and a binding if there is none of its name. -/
  | allocated {socket remote : SocketAddress} {bytes : List Byte} (username : List Byte)
      (v₁ : View) (b : ℕ) (out : List Output)
      (h : v.connections { source := remote, dest := socket } = none)
      (hb : (v.bindings username = some b ∧ v₁ = v) ∨
        (v.bindings username = none ∧ b = v.nextBinding ∧ v₁ = v.openBinding username))
      (hout : out = [] ∨ ∃ reply, out = [.sent socket remote reply]) :
      Effect v (.internalPacket socket remote bytes)
        (v₁.enterInternal b { source := remote, dest := socket } socket) out
  /-- A request that is answered to the connection, or a packet that is dropped. -/
  | answered {socket remote : SocketAddress} {bytes : List Byte} (c : ℕ) (out : List Output)
      (h : v.connections { source := remote, dest := socket } = some c)
      (hout : out = [] ∨ ∃ cn reply, v.conn c = some cn ∧
        out = [.sent cn.socket cn.addrPair.source reply]) :
      Effect v (.internalPacket socket remote bytes) v out
  /-- A raw packet of a locked connection goes out to its destination. -/
  | forwarded {socket remote : SocketAddress} {bytes : List Byte} (c e : ℕ) (cn en : Connection)
      (h : v.connections { source := remote, dest := socket } = some c) (hcn : v.conn c = some cn)
      (hcookie : hasMagicCookie bytes = false) (hlock : cn.locked = true)
      (he : v.externalFor cn.binding cn.defaultDest = some e) (hen : v.conn e = some en)
      (helock : en.locked = true) :
      Effect v (.internalPacket socket remote bytes) v [.sent en.socket en.addrPair.source bytes]
  /-- A send request: the data goes out if the external connection is locked, and the
  internal one is locked to the destination if the request asks for it. -/
  | requested {socket remote : SocketAddress} {bytes : List Byte} (c e : ℕ) (cn : Connection)
      (r : Roster) (ext : SocketAddress) (data : List Byte) (lk : Bool) (v₁ : View)
      (out₁ out₂ out₃ : List Output)
      (h : v.connections { source := remote, dest := socket } = some c) (hcn : v.conn c = some cn)
      (hr : v.roster cn.binding = some r) (hcookie : hasMagicCookie bytes = true)
      (hreq : sendRequest r.username bytes = some (ext, data, lk))
      (ht : Target v cn.binding ext v₁ e out₁)
      (hout₂ : out₂ = [] ∨ ∃ en, v₁.conn e = some en ∧ en.locked = true ∧
        out₂ = [.sent en.socket en.addrPair.source data])
      (hout₃ : out₃ = [] ∨ ∃ cn' reply, (v₁.aim c ext).conn c = some cn' ∧
        out₃ = [.sent cn'.socket cn'.addrPair.source reply]) :
      Effect v (.internalPacket socket remote bytes) (if lk then v₁.aim c ext else v₁)
        (out₁ ++ out₂ ++ out₃)
  /-- A packet of an external connection is delivered to its binding and locks it. -/
  | relayed {socket remote : SocketAddress} {bytes : List Byte} (e : ℕ) (en : Connection)
      (out : List Output)
      (h : v.connections { source := remote, dest := socket } = some e) (hen : v.conn e = some en)
      (hout : Delivered v en.binding bytes en.addrPair.source out) :
      Effect v (.externalPacket socket remote bytes) (v.lock e) out
  /-- A packet of an unknown external address, or of a connection that is gone, is dropped. -/
  | dropped {socket remote : SocketAddress} {bytes : List Byte}
      (h : ∀ e, v.connections { source := remote, dest := socket } = some e → v.conn e = none) :
      Effect v (.externalPacket socket remote bytes) v []
  /-- The first packet of an external address names a binding and enters it. -/
  | admitted {socket remote : SocketAddress} {bytes : List Byte} (username : List Byte) (b : ℕ)
      (out : List Output)
      (h : v.connections { source := remote, dest := socket } = none)
      (hb : v.bindings username = some b)
      (hout : Delivered ((v.enterExternal b { source := remote, dest := socket } socket).lock
        v.nextConn) b bytes remote out) :
      Effect v (.externalPacket socket remote bytes)
        ((v.enterExternal b { source := remote, dest := socket } socket).lock v.nextConn) out
  | checked (b : ℕ) : Effect v (.lifetimeTimer b) v []
  | disposed (b : ℕ) (out : List Output) (hout : ∀ o ∈ out, ∃ f, o = .fault f) :
      Effect v (.dispose b) (v.drop b) out

/-! ### The list is complete -/

namespace Server

variable {s : Server} {env : Env} {c b : ℕ}

@[simp] theorem log_emit (s : Server) (o : Output) : (s.emit o).log = s.log ++ [o] := rfl

theorem connections_view (s : Server) : s.connections = s.view.connections := rfl

theorem bindings_view (s : Server) : s.bindings = s.view.bindings := rfl

@[simp] theorem view_send (s : Server) (env : Env) (c : ℕ) (bytes : List Byte) :
    (s.send env c bytes).view = s.view := by
  rw [send]
  split
  · rfl
  · rw [view_emit, view_noteUsed]

theorem log_send_of_none (h : s.conn c = none) (bytes : List Byte) :
    (s.send env c bytes).log = s.log := by
  rw [send, h]

theorem log_send_of_some {cn : Connection} (h : s.conn c = some cn) (bytes : List Byte) :
    (s.send env c bytes).log = s.log ++ [.sent cn.socket cn.addrPair.source bytes] := by
  rw [send, h]
  rfl

theorem log_send (s : Server) (env : Env) (c : ℕ) (bytes : List Byte) :
    ∃ out, (s.send env c bytes).log = s.log ++ out ∧
      (out = [] ∨ ∃ cn reply, s.view.conn c = some cn ∧
        out = [.sent cn.socket cn.addrPair.source reply]) := by
  cases h : s.conn c with
  | none => exact ⟨[], by rw [log_send_of_none h, List.append_nil], .inl rfl⟩
  | some cn => exact ⟨_, log_send_of_some h bytes, .inr ⟨cn, bytes, h, rfl⟩⟩

@[simp] theorem view_connStunError (s : Server) (c : ℕ) (request : StunMessage) (code : ℕ)
    (desc : String) : (s.connStunError c request code desc).view = s.view := by
  rw [connStunError]
  split <;> rfl

theorem log_connStunError (s : Server) (c : ℕ) (request : StunMessage) (code : ℕ)
    (desc : String) : ∃ out, (s.connStunError c request code desc).log = s.log ++ out ∧
      (out = [] ∨ ∃ cn reply, s.view.conn c = some cn ∧
        out = [.sent cn.socket cn.addrPair.source reply]) := by
  cases h : s.conn c with
  | none => exact ⟨[], by simp [connStunError, h], .inl rfl⟩
  | some cn =>
    exact ⟨_, by rw [connStunError, h]; exact log_emit _ _, .inr ⟨cn, _, h, rfl⟩⟩

@[simp] theorem view_handleStunAllocate (s : Server) (env : Env) (c : ℕ) (request : StunMessage) :
    (s.handleStunAllocate env c request).view = s.view := by
  rw [handleStunAllocate]
  split
  · rfl
  · split
    · rfl
    · exact view_send _ _ _ _

theorem log_handleStunAllocate (s : Server) (env : Env) (c : ℕ) (request : StunMessage) :
    ∃ out, (s.handleStunAllocate env c request).log = s.log ++ out ∧
      (out = [] ∨ ∃ cn reply, s.view.conn c = some cn ∧
        out = [.sent cn.socket cn.addrPair.source reply]) := by
  rw [handleStunAllocate]
  split
  · exact ⟨[], by rw [List.append_nil], .inl rfl⟩
  · split
    · exact ⟨[], by rw [List.append_nil], .inl rfl⟩
    · exact log_send _ _ _ _

theorem getExternalConnection_eq (s : Server) (b : ℕ) (ext : SocketAddress) :
    s.getExternalConnection b ext = s.view.externalFor b ext := by
  rw [getExternalConnection, View.externalFor]
  show _ = match (s.binding b).map Binding.roster with
    | none => none
    | some r => _
  cases s.binding b <;> rfl

/-! The delivery of an external packet. -/

theorem deliver_view (s : Server) (env : Env) (b : ℕ) (bytes : List Byte)
    (fromAddr : SocketAddress) : (s.deliver env b bytes fromAddr).view = s.view := by
  rw [deliver]
  split
  · rfl
  · rw [sendFrom]
    split <;> exact view_send _ _ _ _

theorem getInternalConnection_mem {ext : SocketAddress} {i : ℕ}
    (h : s.getInternalConnection b ext = some i) :
    ∃ r, s.view.roster b = some r ∧ i ∈ r.internal := by
  rw [getInternalConnection] at h
  split at h
  · exact absurd h (by simp)
  rename_i bn hb
  refine ⟨bn.roster, by show (s.binding b).map _ = _; rw [hb]; rfl, ?_⟩
  split at h
  · rename_i hfind
    obtain rfl := Option.some.inj h
    exact List.mem_of_find?_eq_some hfind
  · exact List.mem_of_head? h

theorem getInternalConnection_none {ext : SocketAddress}
    (h : s.getInternalConnection b ext = none) :
    ∀ r, s.view.roster b = some r → r.internal = [] := by
  intro r hr
  have hr' : (s.binding b).map Binding.roster = some r := hr
  rw [getInternalConnection] at h
  split at h
  · rename_i hb
    rw [hb] at hr'
    exact absurd hr' (by simp)
  rename_i bn hb
  rw [hb] at hr'
  obtain rfl := Option.some.inj hr'
  split at h
  · exact absurd h (by simp)
  · exact List.head?_eq_none_iff.mp h

theorem deliver_log (s : Server) (env : Env) (b : ℕ) (bytes : List Byte)
    (fromAddr : SocketAddress) :
    ∃ out, (s.deliver env b bytes fromAddr).log = s.log ++ out ∧
      Delivered s.view b bytes fromAddr out := by
  rw [deliver]
  split
  · rename_i h
    exact ⟨_, log_emit _ _, .nobody (getInternalConnection_none h)⟩
  rename_i i h
  obtain ⟨r, hr, hi⟩ := getInternalConnection_mem h
  cases hcn : s.conn i with
  | none =>
    refine ⟨[], ?_, .dangling r i hr hi hcn⟩
    rw [sendFrom, List.append_nil]
    split <;> exact log_send_of_none hcn _
  | some cn =>
    refine ⟨_, ?_, .sent r i cn hr hi hcn⟩
    rw [sendFrom, lockedTo, hcn]
    dsimp only
    rw [Connection.packetFrom]
    split <;> exact log_send_of_some hcn _

theorem log_addConnection (s : Server) (c : ℕ) (ap : SocketAddressPair) :
    (s.addConnection c ap).log =
      s.log ++ if s.connections ap = none then [] else [.fault .duplicateConnection] := by
  rw [addConnection]
  split
  · exact (List.append_nil _).symm
  · rfl

theorem log_admitPeer_of_free {ap : SocketAddressPair} (h : s.connections ap = none)
    (socket : SocketAddress) : (s.admitPeer env b ap socket).log = s.log := by
  show (((s.newConnection env b ap socket).addExternalConnection b s.nextConn).addConnection
    s.nextConn ap).log = s.log
  rw [log_addConnection]
  show s.log ++ (if s.connections ap = none then [] else _) = s.log
  rw [if_pos h, List.append_nil]

theorem onExternalPacket_effect (hlog : s.log = []) (socket remote : SocketAddress)
    (bytes : List Byte) :
    Effect s.view (.externalPacket socket remote bytes)
      (s.onExternalPacket env socket remote bytes).view
      (s.onExternalPacket env socket remote bytes).log := by
  rw [onExternalPacket]
  dsimp only
  split
  · rename_i e he
    split
    · rename_i hconn
      rw [hlog]
      refine .dropped fun e' he' => ?_
      rw [connections_view, he'] at he
      rwa [Option.some.inj he]
    · rename_i cn hconn
      obtain ⟨out, hout, hdel⟩ := deliver_log s env cn.binding bytes cn.addrPair.source
      rw [view_lock, deliver_view]
      show Effect _ _ _ (s.deliver env cn.binding bytes cn.addrPair.source).log
      rw [hout, hlog, List.nil_append]
      exact .relayed e cn out he hconn hdel
  · rename_i hnone
    have hno : ∀ e, s.view.connections { source := remote, dest := socket } = some e →
        s.view.conn e = none := by
      intro e he
      rw [connections_view, he] at hnone
      exact absurd hnone (by simp)
    split
    · rw [hlog]
      exact .dropped hno
    · rename_i b hb
      obtain ⟨username, hname⟩ : ∃ username, s.view.bindings username = some b := by
        rw [namedBinding] at hb
        split at hb
        · exact absurd hb (by simp)
        · split at hb
          · exact absurd hb (by simp)
          · exact ⟨_, hb⟩
      obtain ⟨out, hout, hdel⟩ := deliver_log
        (s.admitPeer env b { source := remote, dest := socket } socket) env b bytes remote
      rw [deliver_view, hout, log_admitPeer_of_free hnone, hlog, List.nil_append, view_admitPeer]
      rw [view_admitPeer] at hdel
      exact .admitted username b out hnone hname hdel

/-! Requests of internal clients. -/

theorem handleStun_cases (s : Server) (bytes : List Byte) (remote socket : SocketAddress) :
    (∃ reply, s.handleStun bytes remote socket = (s.emit (.sent socket remote reply), none)) ∨
      ∃ msg tail username, StunMessage.new.read bytes = .ok (msg, tail) ∧
        msg.getByteString .username = some username ∧
        s.handleStun bytes remote socket = (s, some (msg, username)) := by
  rw [handleStun]
  split
  · exact .inl ⟨_, rfl⟩
  · rename_i msg tail hread
    split
    · exact .inl ⟨_, rfl⟩
    · rename_i username hname
      exact .inr ⟨msg, tail, username, hread, hname, rfl⟩

theorem findOrCreateBinding_cases (s : Server) (env : Env) (username : List Byte)
    (request : StunMessage) :
    let r := s.findOrCreateBinding env username request
    r.1.log = s.log ∧ r.1.connections = s.connections ∧
      ((s.view.bindings username = some r.2 ∧ r.1.view = s.view) ∨
        (s.view.bindings username = none ∧ r.2 = s.view.nextBinding ∧
          r.1.view = s.view.openBinding username)) := by
  dsimp only
  rw [findOrCreateBinding]
  split
  · rename_i b hb
    exact ⟨rfl, rfl, .inl ⟨hb, rfl⟩⟩
  · rename_i hb
    exact ⟨rfl, rfl, .inr ⟨hb, rfl, view_newBinding _ _ _ _⟩⟩

theorem handleFirstPacket_effect (hlog : s.log = []) {socket remote : SocketAddress}
    (hnone : s.connections { source := remote, dest := socket } = none) (bytes : List Byte) :
    Effect s.view (.internalPacket socket remote bytes)
      (s.handleFirstPacket env bytes { source := remote, dest := socket } socket).view
      (s.handleFirstPacket env bytes { source := remote, dest := socket } socket).log := by
  rw [handleFirstPacket]
  rcases s.handleStun_cases bytes remote socket with ⟨reply, h⟩ | ⟨msg, _, username, -, -, h⟩
  · rw [h]
    dsimp only
    rw [view_emit, log_emit, hlog, List.nil_append]
    exact .refused reply hnone
  rw [h]
  dsimp only
  split
  · rw [sendStunError, view_emit, log_emit, hlog, List.nil_append]
    exact .refused _ hnone
  obtain ⟨hl, hconns, hb⟩ := s.findOrCreateBinding_cases env username msg
  generalize s.findOrCreateBinding env username msg = r at hl hconns hb ⊢
  obtain ⟨t, b⟩ := r
  dsimp only at hl hconns hb ⊢
  obtain ⟨out, hout, hreply⟩ := log_handleStunAllocate
    (((t.newConnection env b { source := remote, dest := socket } socket).addInternalConnection b
      t.nextConn).addConnection t.nextConn { source := remote, dest := socket }) env t.nextConn msg
  have hfree : (((t.newConnection env b { source := remote, dest := socket }
      socket).addInternalConnection b t.nextConn).addConnection t.nextConn
        { source := remote, dest := socket }).log = [] := by
    rw [log_addConnection]
    show t.log ++ (if t.connections { source := remote, dest := socket } = none then [] else _) = []
    rw [hconns, if_pos hnone, hl, hlog]
    rfl
  rw [view_enterInternal] at hreply
  rw [view_handleStunAllocate, hout, hfree, List.nil_append, view_enterInternal]
  refine .allocated username t.view b out hnone hb ?_
  rcases hreply with h' | ⟨cn, reply, hcn, rfl⟩
  · exact .inl h'
  · -- the connection is the new one
    have hnew : (t.view.enterInternal b { source := remote, dest := socket } socket).conn t.nextConn
        = some { binding := b, addrPair := { source := remote, dest := socket }, socket := socket,
                 locked := false, defaultDest := .nil } := Function.update_self _ _ _
    rw [hnew] at hcn
    obtain rfl := Option.some.inj hcn
    exact .inr ⟨reply, rfl⟩

theorem findOrCreateExternal_target (s : Server) (env : Env) (b : ℕ) (ext : SocketAddress) :
    ∃ out, (s.findOrCreateExternal env b ext).1.log = s.log ++ out ∧
      Target s.view b ext (s.findOrCreateExternal env b ext).1.view
        (s.findOrCreateExternal env b ext).2 out := by
  rw [findOrCreateExternal]
  split
  · rename_i e he
    exact ⟨[], (List.append_nil _).symm, .found e (by rw [← getExternalConnection_eq, he])⟩
  rename_i hnone
  rw [getExternalConnection_eq] at hnone
  dsimp only
  generalize ht : (if s.otherSockets = [] then s
    else s.emit (.fault .severalExternalSockets)) = t
  have hview : t.view = s.view := by rw [← ht]; split <;> rfl
  have hlog : ∃ out, t.log = s.log ++ out ∧ ∀ o ∈ out, o = .fault .severalExternalSockets := by
    rw [← ht]
    split
    · exact ⟨[], (List.append_nil _).symm, by simp⟩
    · exact ⟨_, rfl, by simp⟩
  obtain ⟨out, hout, hfault⟩ := hlog
  have hnext : t.nextConn = s.view.nextConn := by rw [← hview]; rfl
  have hsock : t.externalSocket = s.view.externalSocket := by rw [← hview]; rfl
  have hconns : t.connections = s.view.connections := by rw [← hview]; rfl
  rw [view_enterExternal, hview, hsock, hnext, log_addConnection]
  refine ⟨out ++ if t.connections { source := ext, dest := s.view.externalSocket } = none then []
    else [.fault .duplicateConnection], ?_, .made _ hnone ?_⟩
  · show t.log ++ (if t.connections _ = none then [] else _) = _
    rw [hout, List.append_assoc]
  · intro o ho
    rcases List.mem_append.mp ho with ho | ho
    · exact .inl (hfault o ho)
    · split at ho
      · exact absurd ho (by simp)
      · rename_i hne
        rw [hconns] at hne
        exact .inr ⟨List.mem_singleton.mp ho, hne⟩

theorem isLocked_cases {e : ℕ} (h : s.isLocked e = true) :
    ∃ en, s.view.conn e = some en ∧ en.locked = true := by
  rw [isLocked] at h
  split at h
  · rename_i en hen
    exact ⟨en, hen, h⟩
  · exact absurd h (by simp)

theorem handleStunSend_effect (hlog : s.log = []) {socket remote : SocketAddress}
    {bytes : List Byte} {cn : Connection} {r : Roster} {request : StunMessage}
    {tail : ByteBuffer} (h : s.view.connections { source := remote, dest := socket } = some c)
    (hcn : s.view.conn c = some cn) (hr : s.view.roster cn.binding = some r)
    (hcookie : hasMagicCookie bytes = true) (hread : StunMessage.new.read bytes = .ok (request, tail))
    (hname : request.getByteString .username = some r.username)
    (htype : request.type = StunMessageType.sendRequest.code) :
    Effect s.view (.internalPacket socket remote bytes)
      (s.handleStunSend env c cn.binding request).view
      (s.handleStunSend env c cn.binding request).log := by
  have herror : ∀ code desc, Effect s.view (.internalPacket socket remote bytes)
      (s.connStunError c request code desc).view (s.connStunError c request code desc).log := by
    intro code desc
    obtain ⟨out, hout, hreply⟩ := s.log_connStunError c request code desc
    rw [view_connStunError, hout, hlog, List.nil_append]
    exact .answered c out h hreply
  rw [handleStunSend]
  split
  · exact herror _ _
  rename_i addr haddr
  split
  · exact herror _ _
  rename_i data hdata
  dsimp only
  obtain ⟨out₁, hlog₁, ht⟩ := s.findOrCreateExternal_target env cn.binding
    { ip := addr.ip, port := addr.port }
  generalize s.findOrCreateExternal env cn.binding { ip := addr.ip, port := addr.port } = q
    at hlog₁ ht ⊢
  obtain ⟨t, e⟩ := q
  dsimp only at hlog₁ ht ⊢
  rw [hlog, List.nil_append] at hlog₁
  -- the data
  obtain ⟨u, hu, huview, out₂, hulog, hout₂⟩ : ∃ u,
      (if t.isLocked e then t.send env e data else t) = u ∧ u.view = t.view ∧
      ∃ out₂, u.log = out₁ ++ out₂ ∧ (out₂ = [] ∨ ∃ en, t.view.conn e = some en ∧
        en.locked = true ∧ out₂ = [.sent en.socket en.addrPair.source data]) := by
    split
    · rename_i hl
      obtain ⟨en, hen, hlk⟩ := isLocked_cases hl
      refine ⟨_, rfl, view_send _ _ _ _, _, ?_, .inr ⟨en, hen, hlk, rfl⟩⟩
      rw [log_send_of_some hen, hlog₁]
    · exact ⟨_, rfl, rfl, [], by rw [hlog₁, List.append_nil], .inl rfl⟩
  rw [hu]
  have hreq : ∀ lk, (match request.getUInt32 .options with
      | none => false
      | some value => decide (value &&& 0x01 ≠ 0)) = lk →
      sendRequest r.username bytes = some ({ ip := addr.ip, port := addr.port }, data, lk) := by
    rintro _ rfl
    simp only [sendRequest, hread, hname, htype, and_self, if_true, haddr, hdata]
  split
  · rename_i hopt
    have := Effect.requested c e cn r _ data false t.view out₁ out₂ [] h hcn hr hcookie
      (hreq false (by rw [hopt])) ht hout₂ (.inl rfl)
    rw [huview, hulog]
    simpa using this
  rename_i value hopt
  split
  · rename_i hbit
    have := Effect.requested c e cn r _ data false t.view out₁ out₂ [] h hcn hr hcookie
      (hreq false (by rw [hopt]; simpa using hbit)) ht hout₂ (.inl rfl)
    rw [huview, hulog]
    simpa using this
  · rename_i hbit
    obtain ⟨out₃, hlog₃, hout₃⟩ := log_send ((u.setDefaultDestination c
      { ip := addr.ip, port := addr.port }).lock c) env c (sendResponse request).write
    rw [view_aim, huview] at hout₃
    have := Effect.requested c e cn r _ data true t.view out₁ out₂ out₃ h hcn hr hcookie
      (hreq true (by rw [hopt]; simpa using hbit)) ht hout₂ hout₃
    rw [view_send, view_aim, huview, hlog₃]
    show Effect _ _ _ (u.log ++ out₃)
    rw [hulog]
    simpa using this

theorem handleStunRequest_effect (hlog : s.log = []) {socket remote : SocketAddress}
    {bytes : List Byte} (h : s.view.connections { source := remote, dest := socket } = some c)
    (hcookie : hasMagicCookie bytes = true) :
    Effect s.view (.internalPacket socket remote bytes) (s.handleStunRequest env c bytes).view
      (s.handleStunRequest env c bytes).log := by
  have hquiet : Effect s.view (.internalPacket socket remote bytes) s.view s.log := by
    rw [hlog]
    exact .answered c [] h (.inl rfl)
  rw [handleStunRequest]
  split
  · exact hquiet
  rename_i cn hcn
  split
  · exact hquiet
  rename_i bn hbn
  have hr : s.view.roster cn.binding = some bn.roster := by
    show (s.binding cn.binding).map _ = _
    rw [hbn]
    rfl
  rcases s.handleStun_cases bytes cn.addrPair.source cn.socket with
    ⟨reply, hs⟩ | ⟨msg, tail, username, hread, hname, hs⟩
  · rw [hs]
    dsimp only
    rw [view_emit, log_emit, hlog, List.nil_append]
    exact .answered c _ h (.inr ⟨cn, reply, hcn, rfl⟩)
  rw [hs]
  dsimp only
  have herror : ∀ code desc, Effect s.view (.internalPacket socket remote bytes)
      (s.connStunError c msg code desc).view (s.connStunError c msg code desc).log := by
    intro code desc
    obtain ⟨out, hout, hreply⟩ := s.log_connStunError c msg code desc
    rw [view_connStunError, hout, hlog, List.nil_append]
    exact .answered c out h hreply
  split
  · exact herror _ _
  rename_i huser
  rw [not_not] at huser
  split
  · rename_i htype
    exact handleStunSend_effect hlog h hcn hr hcookie hread (by rw [hname, huser]; rfl) htype
  split
  · obtain ⟨out, hout, hreply⟩ := s.log_handleStunAllocate env c msg
    rw [view_handleStunAllocate, hout, hlog, List.nil_append]
    exact .answered c out h hreply
  · exact herror _ _

theorem forwardRaw_effect (hlog : s.log = []) {socket remote : SocketAddress} {bytes : List Byte}
    {cn : Connection} (h : s.view.connections { source := remote, dest := socket } = some c)
    (hcn : s.view.conn c = some cn) (hcookie : hasMagicCookie bytes = false) :
    Effect s.view (.internalPacket socket remote bytes) (s.forwardRaw env cn bytes).view
      (s.forwardRaw env cn bytes).log := by
  have hquiet : Effect s.view (.internalPacket socket remote bytes) s.view s.log := by
    rw [hlog]
    exact .answered c [] h (.inl rfl)
  rw [forwardRaw]
  split
  · exact hquiet
  rename_i hlk
  split
  · exact hquiet
  rename_i e he
  rw [getExternalConnection_eq] at he
  split
  · rename_i hl
    obtain ⟨en, hen, helk⟩ := isLocked_cases hl
    rw [view_send, log_send_of_some hen, hlog, List.nil_append]
    exact .forwarded c e cn en h hcn hcookie (by simpa using hlk) he hen helk
  · exact hquiet

theorem onInternalPacket_effect (hlog : s.log = []) (socket remote : SocketAddress)
    (bytes : List Byte) :
    Effect s.view (.internalPacket socket remote bytes)
      (s.onInternalPacket env socket remote bytes).view
      (s.onInternalPacket env socket remote bytes).log := by
  rw [onInternalPacket]
  split
  · rename_i hnone
    exact handleFirstPacket_effect hlog hnone bytes
  rename_i c hc
  split
  · rename_i hcookie
    exact handleStunRequest_effect hlog hc hcookie
  · rename_i hcookie
    split
    · rw [hlog]
      exact .answered c [] hc (.inl rfl)
    · rename_i cn hcn
      exact forwardRaw_effect hlog hc hcn (by simpa using hcookie)

/-! Deletion. -/

theorem log_deleteConnection (s : Server) (c : ℕ) :
    ∃ out, (s.deleteConnection c).log = s.log ++ out ∧ ∀ o ∈ out, ∃ f, o = Output.fault f := by
  rw [deleteConnection]
  split
  · exact ⟨[], (List.append_nil _).symm, by simp⟩
  · rename_i cn _
    show ∃ out, (s.removeConnection cn.addrPair).log = s.log ++ out ∧ _
    rw [removeConnection]
    split
    · exact ⟨_, rfl, by simp⟩
    · exact ⟨[], (List.append_nil _).symm, by simp⟩

theorem log_foldl_deleteConnection (s : Server) (cs : List ℕ) :
    ∃ out, (cs.foldl deleteConnection s).log = s.log ++ out ∧
      ∀ o ∈ out, ∃ f, o = Output.fault f := by
  induction cs generalizing s with
  | nil => exact ⟨[], (List.append_nil _).symm, by simp⟩
  | cons c cs ih =>
    obtain ⟨out₁, h₁, hf₁⟩ := s.log_deleteConnection c
    obtain ⟨out₂, h₂, hf₂⟩ := ih (s.deleteConnection c)
    refine ⟨out₁ ++ out₂, by rw [List.foldl_cons, h₂, h₁, List.append_assoc], fun o ho => ?_⟩
    rcases List.mem_append.mp ho with ho | ho
    · exact hf₁ o ho
    · exact hf₂ o ho

theorem log_deleteBinding (s : Server) (b : ℕ) :
    ∃ out, (s.deleteBinding b).log = s.log ++ out ∧ ∀ o ∈ out, ∃ f, o = Output.fault f := by
  rw [deleteBinding]
  split
  · exact ⟨[], (List.append_nil _).symm, by simp⟩
  rename_i bn _
  obtain ⟨out₁, h₁, hf₁⟩ := s.log_foldl_deleteConnection (bn.internal ++ bn.external)
  show ∃ out, (((bn.internal ++ bn.external).foldl deleteConnection s).removeBinding
    bn.username).log = s.log ++ out ∧ _
  rw [removeBinding]
  split
  · refine ⟨out₁ ++ [.fault .missingBinding], by rw [log_emit, h₁, List.append_assoc], ?_⟩
    intro o ho
    rcases List.mem_append.mp ho with ho | ho
    · exact hf₁ o ho
    · exact ⟨_, List.mem_singleton.mp ho⟩
  · exact ⟨out₁, h₁, hf₁⟩

end Server

theorem step_effect (env : Env) (e : Event) (s : Server) :
    Effect s.view e (step env e s).view (step env e s).log := by
  cases e with
  | internalPacket socket remote bytes =>
    exact Server.onInternalPacket_effect (s := { s with log := [] }) rfl socket remote bytes
  | externalPacket socket remote bytes =>
    exact Server.onExternalPacket_effect (s := { s with log := [] }) rfl socket remote bytes
  | lifetimeTimer b =>
    show Effect _ _ (Server.onLifetimeTimer _ env b).view []
    rw [Server.view_onLifetimeTimer]
    exact .checked b
  | dispose b =>
    obtain ⟨out, hout, hf⟩ := Server.log_deleteBinding { s with log := [] } b
    show Effect _ _ (Server.deleteBinding _ b).view (Server.deleteBinding _ b).log
    rw [Server.view_deleteBinding, hout]
    exact .disposed b out hf

end Jingle.Relay
