/-
Isolation of the bindings of a relay server.

A run is isolated as long as no send request makes a connection for an address
pair that another binding has (`NoClash`): the server does not look the pair up
before it enters the connection, it only asserts that it is free.

In such a run the two maps are exact (`Isolated`), no assertion about them
fails, and what an external address sends is delivered to the internal
connections of its binding for as long as the binding exists
(`bindings_isolated`).  `isolation_lost` is a run of two clients that
share a peer.
-/
import Jingle.Relay.Directory

namespace Jingle.Relay

variable {v w : View} {e : Event} {out : List Output} {s t : Server}

/-- Each entry is one live connection of exactly one binding, and each live
connection is the entry of its address pair. -/
structure Isolated (v : View) : Prop where
  entry : ∀ k c, v.connections k = some c → ∃ cn r, v.conn c = some cn ∧ cn.addrPair = k ∧
    v.roster cn.binding = some r ∧ c ∈ r.members ∧
    ∀ b r', v.roster b = some r' → c ∈ r'.members → b = cn.binding
  live : ∀ c cn, v.conn c = some cn → v.connections cn.addrPair = some c

theorem View.Sound.isolated (h : v.Sound) (hi : v.Indexed) : Isolated v := by
  refine ⟨fun k c hk => ?_, hi⟩
  obtain ⟨cn, hcn, hap⟩ := h.key_live hk
  obtain ⟨r, hr, hc⟩ := h.owned hcn
  refine ⟨cn, r, hcn, hap, hr, hc, fun b r' hr' hc' => ?_⟩
  obtain ⟨cn', hcn', hb⟩ := h.member hr' hc'
  rw [hcn] at hcn'
  rw [Option.some.inj hcn', hb]

/-- The assertions that the two maps and the lists of a binding make. -/
def MapFault (f : Fault) : Prop := f ≠ .severalExternalSockets

/-! ### No assertion fails -/

theorem Server.log_deleteConnection_of_indexed (hi : s.view.Indexed) (c : ℕ) :
    (s.deleteConnection c).log = s.log := by
  rw [Server.deleteConnection]
  split
  · rfl
  · rename_i cn hcn
    show (s.removeConnection cn.addrPair).log = s.log
    have hne : s.connections cn.addrPair ≠ none := by
      have h₁ : s.connections cn.addrPair = some c := hi c cn hcn
      rw [h₁]
      simp
    rw [Server.removeConnection, if_neg hne]

theorem Server.log_foldl_of_indexed (hi : s.view.Indexed) (cs : List ℕ) :
    (cs.foldl Server.deleteConnection s).log = s.log := by
  induction cs generalizing s with
  | nil => rfl
  | cons c cs ih =>
    rw [List.foldl_cons, ih, Server.log_deleteConnection_of_indexed hi]
    rw [Server.view_deleteConnection]
    exact hi.deleteConnection c

theorem Server.log_deleteBinding_of_indexed (hs : s.view.Sound) (hi : s.view.Indexed) (b : ℕ) :
    (s.deleteBinding b).log = s.log := by
  rw [Server.deleteBinding]
  split
  · rfl
  rename_i bn hb
  have hr : s.view.roster b = some bn.roster := by
    show (s.binding b).map _ = _
    rw [hb]
    rfl
  show (((bn.internal ++ bn.external).foldl Server.deleteConnection s).removeBinding
    bn.username).log = s.log
  have hname : ((bn.internal ++ bn.external).foldl Server.deleteConnection s).bindings
      bn.username = some b := by
    rw [Server.bindings_view, Server.view_foldl_deleteConnection]
    obtain ⟨-, -, hbind, -⟩ := View.foldl_deleteConnection_frame (bn.internal ++ bn.external) s.view
    rw [hbind]
    exact hs.name_of hr
  rw [Server.removeBinding, if_neg (by rw [hname]; simp)]
  exact Server.log_foldl_of_indexed hi _

theorem Delivered.no_fault {b : ℕ} {bytes : List Byte} {fromAddr : SocketAddress}
    (h : Delivered v b bytes fromAddr out) (hs : v.Staffed) (hb : v.roster b ≠ none) :
    ∀ f, Output.fault f ∉ out := by
  cases h with
  | sent => simp
  | dangling => simp
  | nobody h =>
    obtain ⟨r, hr⟩ := Option.ne_none_iff_exists'.mp hb
    exact absurd (h r hr) (hs b r hr)

theorem Effect.no_fault (h : Effect v e w out) (hv : v.Sound) (hs : v.Staffed)
    (ha : Arrives v e) (hn : NoClash v e) (hd : ∀ b, e ≠ .dispose b) :
    ∀ f, MapFault f → Output.fault f ∉ out := by
  intro f hf
  cases h with
  | refused => simp
  | allocated _ _ _ _ _ _ hout => rcases hout with rfl | ⟨_, rfl⟩ <;> simp
  | answered _ _ _ hout => rcases hout with rfl | ⟨_, _, _, rfl⟩ <;> simp
  | forwarded => simp
  | requested c e cn r ext data lk v₁ out₁ out₂ out₃ hc hcn hr hcookie hreq ht hout₂ hout₃ =>
    have h₁ : Output.fault f ∉ out₁ := by
      intro hmem
      cases ht with
      | found => exact absurd hmem (by simp)
      | made _ hnone hout =>
        rcases hout _ hmem with hone | ⟨-, hne⟩
        · exact hf (Output.fault.inj hone)
        · exact hne (hn c cn r ext data lk hc hcn hr hcookie hreq hnone)
    have h₂ : Output.fault f ∉ out₂ := by rcases hout₂ with rfl | ⟨_, _, _, rfl⟩ <;> simp
    have h₃ : Output.fault f ∉ out₃ := by rcases hout₃ with rfl | ⟨_, _, _, rfl⟩ <;> simp
    simp only [List.mem_append, not_or]
    exact ⟨⟨h₁, h₂⟩, h₃⟩
  | relayed e en _ _ hen hout =>
    refine hout.no_fault hs ?_ f
    obtain ⟨r, hr, -⟩ := hv.owned hen
    rw [hr]
    simp
  | dropped => simp
  | @admitted socket remote _ username b _ _ hb hout =>
    obtain ⟨r, hr, -⟩ := hv.named hb
    have h₁ : (v.enterExternal b { source := remote, dest := socket } socket).Staffed :=
      hs.enter (View.enters_external ha) hr _
    refine hout.no_fault h₁ ?_ f
    show (v.enterExternal b { source := remote, dest := socket } socket).roster b ≠ none
    rw [View.enterExternal, View.roster_enter_self hr]
    simp
  | checked => simp
  | disposed b => exact absurd rfl (hd b)

/-! ### Entries stay -/

theorem Effect.entry_stays (h : Effect v e w out) (hv : v.Sound) (hi : v.Indexed)
    (hn : NoClash v e) {k : SocketAddressPair} {c : ℕ} {cn : Connection}
    (hk : v.connections k = some c) (hcn : v.conn c = some cn)
    (hlive : w.roster cn.binding ≠ none) :
    w.connections k = some c ∧ ∃ cn', w.conn c = some cn' ∧ cn'.binding = cn.binding := by
  -- a new connection does not take the address pair
  have enter : ∀ (u : View) (f : ℕ → Roster → Roster) b ap socket, u.connections = v.connections →
      u.conn = v.conn → u.nextConn = v.nextConn → v.connections ap = none →
      (u.enter f b ap socket).connections k = some c ∧
        (u.enter f b ap socket).conn c = some cn := by
    intro u f b ap socket hu hu' hu'' hfree
    have hne : k ≠ ap := fun he => by
      rw [he, hfree] at hk
      exact absurd hk (by simp)
    constructor
    · rw [← hk, ← hu]
      exact Function.update_of_ne hne _ _
    · rw [← hcn, ← hu']
      exact Function.update_of_ne (by rw [hu'']; exact (hv.conn_lt hcn).ne) _ _
  have modify : ∀ (u : View) (d : ℕ) (f : Connection → Connection),
      (∀ cn, (f cn).binding = cn.binding) → u.conn c = some cn →
      ∃ cn', (u.modify d f).conn c = some cn' ∧ cn'.binding = cn.binding := by
    intro u d f hf hcn
    obtain ⟨cn', hcn', rfl | ⟨-, rfl⟩⟩ := View.conn_modify (c := d) (f := f) hcn
    · exact ⟨_, hcn', rfl⟩
    · exact ⟨_, hcn', hf cn⟩
  cases h with
  | refused => exact ⟨hk, cn, hcn, rfl⟩
  | allocated username v₁ b _ hnone hb _ =>
    rcases hb with ⟨-, rfl⟩ | ⟨-, rfl, rfl⟩
    · obtain ⟨h₁, h₂⟩ := enter _ _ b _ _ rfl rfl rfl hnone
      exact ⟨h₁, cn, h₂, rfl⟩
    · obtain ⟨h₁, h₂⟩ := enter (v.openBinding username) _ v.nextBinding _ _ rfl rfl rfl hnone
      exact ⟨h₁, cn, h₂, rfl⟩
  | answered => exact ⟨hk, cn, hcn, rfl⟩
  | forwarded => exact ⟨hk, cn, hcn, rfl⟩
  | requested d e dn r ext data lk v₁ _ _ _ hd hdn hr hcookie hreq ht =>
    have h₁ : v₁.connections k = some c ∧ v₁.conn c = some cn := by
      cases ht with
      | found => exact ⟨hk, hcn⟩
      | made _ hnone =>
        exact enter _ _ _ _ _ rfl rfl rfl (hn d dn r ext data lk hd hdn hr hcookie hreq hnone)
    cases lk with
    | false => exact ⟨h₁.1, cn, h₁.2, rfl⟩
    | true =>
      refine ⟨h₁.1, modify v₁ d (fun cn => { cn with defaultDest := ext, locked := true })
        (fun _ => rfl) h₁.2⟩
  | relayed e =>
    exact ⟨hk, modify v e (fun cn => { cn with locked := true }) (fun _ => rfl) hcn⟩
  | dropped => exact ⟨hk, cn, hcn, rfl⟩
  | admitted username b _ hnone hb _ =>
    obtain ⟨h₁, h₂⟩ := enter _ _ b _ _ rfl rfl rfl hnone
    exact ⟨h₁, modify _ _ (fun cn => { cn with locked := true }) (fun _ => rfl) h₂⟩
  | checked => exact ⟨hk, cn, hcn, rfl⟩
  | disposed b =>
    cases hr : v.roster b with
    | none =>
      rw [View.drop_of_none hr]
      exact ⟨hk, cn, hcn, rfl⟩
    | some r =>
      have hb : cn.binding ≠ b := fun he => hlive (by
        rw [View.drop_of_some hr, he]
        exact Function.update_self b _ v.roster)
      obtain ⟨r', hr', hc⟩ := hv.owned hcn
      have hnot := hv.not_mem_of_ne hr hr' hb hc
      obtain ⟨cn', hcn', hap⟩ := hv.key_live hk
      obtain rfl := Option.some.inj (hcn.symm.trans hcn')
      rw [View.drop_of_some hr]
      refine ⟨?_, cn, ?_, rfl⟩
      · show (r.members.foldl View.deleteConnection v).connections k = some c
        rw [View.foldl_deleteConnection_keeps, hk]
        intro d hd dn hdn hdk
        have h₁ := hi d dn hdn
        rw [hdk, hk] at h₁
        exact hnot (by rwa [Option.some.inj h₁])
      · show (r.members.foldl View.deleteConnection v).conn c = some cn
        rw [View.foldl_deleteConnection_conn, if_neg hnot, hcn]

/-! ### Isolated runs -/

theorem Reachable.indexed (h : Reachable NoClash s) : s.view.Indexed := by
  refine Reach.invariant (I := fun s => s.view.Indexed) ?_ ?_ s h
  · rintro _ ⟨socket, others, rfl⟩ c cn hcn
    exact absurd hcn (by simp [Server.start, Server.view])
  · rintro s t - hi ⟨env, e, -, hn, rfl⟩
    exact (step_effect env e s).indexed hi hn

/-- An output to an internal connection of a binding. -/
def ToInternal (v : View) (b : ℕ) (o : Output) : Prop :=
  ∃ r i cn bytes, v.roster b = some r ∧ i ∈ r.internal ∧ v.conn i = some cn ∧
    o = .sent cn.socket cn.addrPair.source bytes

/-- An event without a clash after which a binding is still there. -/
def StaysIn (b : ℕ) (s t : Server) : Prop := Next NoClash s t ∧ t.view.roster b ≠ none

theorem step_toInternal (hs : s.view.Sound) (hst : s.view.Staffed) {k : SocketAddressPair} {c : ℕ}
    {cn : Connection} (hk : s.view.connections k = some c) (hcn : s.view.conn c = some cn)
    (env : Env) (bytes : List Byte) :
    ∀ o ∈ (step env (.externalPacket k.dest k.source bytes) s).log,
      ToInternal s.view cn.binding o := by
  have heff := step_effect env (.externalPacket k.dest k.source bytes) s
  generalize (step env (.externalPacket k.dest k.source bytes) s).view = w at heff
  generalize (step env (.externalPacket k.dest k.source bytes) s).log = out at heff ⊢
  cases heff with
  | relayed e en _ he hen hout =>
    obtain rfl := Option.some.inj (hk.symm.trans he)
    obtain rfl := Option.some.inj (hcn.symm.trans hen)
    cases hout with
    | sent r i dn hr hi hdn =>
      intro o ho
      exact ⟨r, i, dn, _, hr, hi, hdn, List.mem_singleton.mp ho⟩
    | dangling => exact fun o ho => absurd ho (by simp)
    | nobody hno =>
      obtain ⟨r, hr, -⟩ := hs.owned hcn
      exact absurd (hno r hr) (hst _ r hr)
  | dropped => exact fun o ho => absurd ho (by simp)
  | admitted _ _ _ hnone => exact absurd (hk.symm.trans hnone) (by simp)

/-- **Isolation of bindings.**  In a run without clashes the maps are exact and no
assertion about them fails, and an entry stays with its binding, whose internal
connections get all packets of its address, until the binding is deleted. -/
theorem bindings_isolated (h : Reachable NoClash s) :
    Isolated s.view ∧
      (∀ env e, e.Enabled s → NoClash s.view e →
        ∀ f, MapFault f → Output.fault f ∉ (step env e s).log) ∧
      ∀ k c cn, s.view.connections k = some c → s.view.conn c = some cn →
        ∀ t, Relation.ReflTransGen (StaysIn cn.binding) s t →
          t.view.connections k = some c ∧
          ∀ env bytes, ∀ o ∈ (step env (.externalPacket k.dest k.source bytes) t).log,
            ToInternal t.view cn.binding o := by
  obtain ⟨hs, hst⟩ := h.sound
  have hi := h.indexed
  refine ⟨hs.isolated hi, fun env e hen hn f hf => ?_, fun k c cn hk hcn t ht => ?_⟩
  · by_cases hd : ∀ b, e ≠ .dispose b
    · exact (step_effect env e s).no_fault hs hst hen.arrives hn hd f hf
    · simp only [not_forall, not_not] at hd
      obtain ⟨b, rfl⟩ := hd
      have hlog := Server.log_deleteBinding_of_indexed (s := { s with log := [] }) hs hi b
      show Output.fault f ∉ (Server.deleteBinding { s with log := [] } b).log
      rw [hlog]
      simp
  · have hinv : Reachable NoClash t ∧ t.view.connections k = some c ∧
        ∃ cn', t.view.conn c = some cn' ∧ cn'.binding = cn.binding := by
      induction ht with
      | refl => exact ⟨h, hk, cn, hcn, rfl⟩
      | tail _ hstep ih =>
        obtain ⟨hr, hk', cn', hcn', hb⟩ := ih
        obtain ⟨hnext, hlive⟩ := hstep
        refine ⟨hr.step hnext, ?_⟩
        obtain ⟨env, e, -, hn, rfl⟩ := hnext
        rw [← hb] at hlive ⊢
        exact (step_effect env e _).entry_stays hr.sound.1 hr.indexed hn hk' hcn' hlive
    obtain ⟨hr, hk', cn', hcn', hb⟩ := hinv
    refine ⟨hk', fun env bytes => ?_⟩
    rw [← hb]
    exact step_toInternal hr.sound.1 hr.sound.2 hk' hcn' env bytes

/-! ### Two clients and one peer -/

/-- The clock and the random number of the runs below. -/
def calm : Env where
  now := 1
  rand := 0

def serverInternal : SocketAddress := ⟨10, 5000⟩

def serverExternal : SocketAddress := ⟨10, 5001⟩

def clientOne : SocketAddress := ⟨1, 1000⟩

def clientTwo : SocketAddress := ⟨2, 1000⟩

def peer : SocketAddress := ⟨3, 1000⟩

def nameOne : List Byte := [1, 1, 1, 1]

def nameTwo : List Byte := [2, 2, 2, 2]

/-- A client asks for a binding. -/
def allocate (client : SocketAddress) (name : List Byte) : Event :=
  .internalPacket serverInternal client
    ((turnMessage .allocateRequest).addAttribute (byteStringAttr .username name)).write

/-- A client asks to send one byte to the peer. -/
def sendToPeer (client : SocketAddress) (name : List Byte) : Event :=
  .internalPacket serverInternal client
    ((((turnMessage .sendRequest).addAttribute (byteStringAttr .username name)).addAttribute
      (addressAttr .destinationAddress peer)).addAttribute (byteStringAttr .data [7])).write

/-- The peer names a binding in its first packet. -/
def peerPacket (name : List Byte) : Event :=
  .externalPacket serverExternal peer
    ((turnMessage .bindingRequest).addAttribute (byteStringAttr .username name)).write

/-- The server after a client has a binding and the peer has entered it. -/
def peerAdmitted : Server :=
  step calm (peerPacket nameOne) (step calm (allocate clientOne nameOne)
    (.start serverExternal []))

def peerPair : SocketAddressPair where
  source := peer
  dest := serverExternal

/-- The peer's packets reach the binding it named. -/
theorem bindings_isolated_peer :
    Reachable NoClash peerAdmitted ∧ Isolated peerAdmitted.view ∧
      peerAdmitted.view.connections peerPair = some 1 := by
  have h₀ : Reachable NoClash (.start serverExternal []) := .init ⟨serverExternal, [], rfl⟩
  have hclash : NoClash (Server.start serverExternal []).view (allocate clientOne nameOne) :=
    fun c _ _ _ _ _ hc => absurd hc (by simp [Server.start, Server.view])
  have h₁ := Reach.step h₀ ⟨calm, allocate clientOne nameOne,
    show serverInternal ∉ [serverExternal] by decide, hclash, rfl⟩
  have h₂ : Reachable NoClash peerAdmitted := Reach.step h₁ ⟨calm, peerPacket nameOne,
    show serverExternal ∈ Server.externalSockets _ by decide, trivial, rfl⟩
  exact ⟨h₂, (bindings_isolated h₂).1, by decide⟩

/-- The server when a second client has a binding, too. -/
def twoClients : Server := step calm (allocate clientTwo nameTwo) peerAdmitted

/-- The server when the second client has asked to send to the peer. -/
def peerTaken : Server := step calm (sendToPeer clientTwo nameTwo) twoClients

/-- A second client asks to send to the peer of the first: the entry of the peer
goes to its binding, and the connection of the first binding, still live, has
no entry any more. -/
theorem isolation_lost :
    Reachable (fun _ _ => True) twoClients ∧ Reachable (fun _ _ => True) peerTaken ∧
      twoClients.view.connections peerPair = some 1 ∧
      (twoClients.view.conn 1).map Connection.binding = some 0 ∧
      peerTaken.view.connections peerPair = some 3 ∧
      (peerTaken.view.conn 3).map Connection.binding = some 1 ∧
      (peerTaken.view.roster 0).isSome ∧ ¬ Isolated peerTaken.view ∧
      Output.fault .duplicateConnection ∈ peerTaken.log := by
  have h₀ : Reachable (fun _ _ => True) (.start serverExternal []) :=
    .init ⟨serverExternal, [], rfl⟩
  have h₁ := Reach.step h₀ ⟨calm, allocate clientOne nameOne,
    show serverInternal ∉ [serverExternal] by decide, trivial, rfl⟩
  have h₂ := Reach.step h₁ ⟨calm, peerPacket nameOne,
    show serverExternal ∈ Server.externalSockets _ by decide, trivial, rfl⟩
  have h₃ : Reachable _ twoClients := Reach.step h₂ ⟨calm, allocate clientTwo nameTwo,
    show serverInternal ∉ Server.externalSockets _ by decide, trivial, rfl⟩
  have h₄ : Reachable _ peerTaken := Reach.step h₃ ⟨calm, sendToPeer clientTwo nameTwo,
    show serverInternal ∉ Server.externalSockets _ by decide, trivial, rfl⟩
  refine ⟨h₃, h₄, by decide, by decide, by decide, by decide,
    by decide, fun hiso => ?_, by decide⟩
  have hold : (peerTaken.view.conn 1).map Connection.addrPair = some peerPair := by decide
  obtain ⟨cn, hcn, hap⟩ := Option.map_eq_some_iff.mp hold
  have hentry := hiso.live 1 cn hcn
  rw [hap] at hentry
  exact absurd hentry (by decide)

end Jingle.Relay
