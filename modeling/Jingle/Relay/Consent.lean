/-
The relay server sends to external hosts only with their consent.

`Watch` is a server together with the external addresses that have sent
something so far: after each external packet its address pair and the binding
that the pair is entered in are noted.  The invariant `Consented` says that a
locked external connection is one of those.  It holds in every run, also when
bindings clash, because only an external packet locks an external connection:
the locks of send requests are put on connections of internal sockets.
-/
import Jingle.Relay.Isolation

namespace Jingle.Relay

variable {v w : View} {e : Event} {out : List Output}

/-- A server and the address pairs of external packets with their bindings. -/
structure Watch where
  server : Server
  heard : List (SocketAddressPair × ℕ)

/-- The binding that the address pair of an external packet is in after it. -/
def heardFrom (w : View) : Event → List (SocketAddressPair × ℕ)
  | .externalPacket socket remote _ =>
    match w.connections { source := remote, dest := socket } with
    | none => []
    | some c =>
      match w.conn c with
      | none => []
      | some cn => [({ source := remote, dest := socket }, cn.binding)]
  | _ => []

/-- One event of a watched server. -/
def Watch.Next (a b : Watch) : Prop :=
  ∃ env e, e.Enabled a.server ∧ b.server = step env e a.server ∧
    b.heard = a.heard ++ heardFrom b.server.view e

def Watch.Reachable : Watch → Prop :=
  Reach (fun a => IsStart a.server ∧ a.heard = []) Watch.Next

/-- A locked external connection was heard from. -/
def Consented (v : View) (heard : List (SocketAddressPair × ℕ)) : Prop :=
  ∀ b r c cn, v.roster b = some r → c ∈ r.external → v.conn c = some cn → cn.locked = true →
    (cn.addrPair, b) ∈ heard

theorem Consented.mono {heard more : List (SocketAddressPair × ℕ)} (h : Consented v heard) :
    Consented v (heard ++ more) :=
  fun b r c cn hr hc hcn hl => List.mem_append_left _ (h b r c cn hr hc hcn hl)

/-! ### Operations -/

variable {heard : List (SocketAddressPair × ℕ)} {f : ℕ → Roster → Roster} {b : ℕ}
  {ap : SocketAddressPair}

theorem Consented.enter (h : Consented v heard) {dest : SocketAddress} (hf : v.Enters f dest)
    {r : Roster} (hr : v.roster b = some r) (socket : SocketAddress) :
    Consented (v.enter f b ap socket) heard := by
  intro b' r' c cn hr' hc hcn hl
  rcases View.enter_conn hcn with ⟨hne, hold⟩ | ⟨-, rfl⟩
  · rcases View.enter_roster hr hr' with ⟨-, hr'⟩ | ⟨rfl, rfl⟩
    · exact h b' r' c cn hr' hc hold hl
    · rcases (hf.external _ _ _).mp hc with hc | ⟨hc, -⟩
      · exact h b' r c cn hr hc hold hl
      · exact absurd hc hne
  · exact absurd hl (by simp [View.entered])

theorem Consented.openBinding (h : Consented v heard) (u : List Byte) :
    Consented (v.openBinding u) heard := by
  intro b' r' c cn hr' hc hcn hl
  have hr'' : Function.update v.roster v.nextBinding
      (some { username := u, internal := [], external := [] }) b' = some r' := hr'
  rw [Function.update_apply] at hr''
  split at hr''
  · obtain rfl := Option.some.inj hr''
    exact absurd hc (by simp)
  · exact h b' r' c cn hr'' hc hcn hl

theorem Consented.aim (h : Consented v heard) (hv : v.Sound) {c : ℕ} {cn : Connection}
    (hcn : v.conn c = some cn) (hin : cn.addrPair.dest ∉ v.externalSockets)
    (addr : SocketAddress) : Consented (v.aim c addr) heard := by
  intro b' r' c' cn' hr' hc' hcn' hl
  obtain ⟨old, hold, ⟨-, rfl⟩ | ⟨rfl, -⟩⟩ := View.modify_conn hcn'
  · exact h b' r' c' _ hr' hc' hold hl
  · exact absurd (hv.outside hr' hc' hcn) hin

theorem Consented.drop (h : Consented v heard) (b : ℕ) : Consented (v.drop b) heard := by
  cases hr : v.roster b with
  | none =>
    rw [View.drop_of_none hr]
    exact h
  | some r =>
    rw [View.drop_of_some hr]
    intro b' r' c cn hr' hc hcn hl
    have hr'' : Function.update v.roster b none b' = some r' := hr'
    have hcn' : (r.members.foldl View.deleteConnection v).conn c = some cn := hcn
    rw [Function.update_apply] at hr''
    rw [View.foldl_deleteConnection_conn] at hcn'
    split at hr''
    · exact absurd hr'' (by simp)
    · split at hcn'
      · exact absurd hcn' (by simp)
      · exact h b' r' c cn hr'' hc hcn' hl

/-! ### Events -/

theorem View.Sound.internal_conn (hv : v.Sound) {socket remote : SocketAddress} {c : ℕ}
    {cn : Connection}
    (hc : v.connections { source := remote, dest := socket } = some c)
    (hcn : v.conn c = some cn) : cn.addrPair.dest = socket ∧ cn.addrPair.source = remote := by
  obtain ⟨cn', hcn', hap⟩ := hv.key_live hc
  obtain rfl := Option.some.inj (hcn.symm.trans hcn')
  rw [hap]
  exact ⟨rfl, rfl⟩

theorem Target.consented {c : ℕ} {ext : SocketAddress} (ht : Target v b ext w c out)
    (h : Consented v heard) {r : Roster} (hr : v.roster b = some r) : Consented w heard := by
  cases ht with
  | found => exact h
  | made => exact h.enter (View.enters_external List.mem_cons_self) hr _

theorem Effect.consented (h : Effect v e w out) (hv : v.Sound) (ha : Arrives v e)
    (hc : Consented v heard) : Consented w (heard ++ heardFrom w e) := by
  cases h with
  | refused => exact hc.mono
  | allocated username v₁ b out hnone hb _ =>
    rcases hb with ⟨hb, rfl⟩ | ⟨hb, rfl, rfl⟩
    · obtain ⟨r, hr, -⟩ := hv.named hb
      exact (hc.enter (View.enters_internal ha) hr _).mono
    · exact ((hc.openBinding username).enter (View.enters_internal ha)
        (Function.update_self v.nextBinding _ v.roster) _).mono
  | answered => exact hc.mono
  | forwarded => exact hc.mono
  | requested c e cn r ext data lk v₁ _ _ _ hk hcn hr _ _ ht =>
    have h₁ := ht.consented hc hr
    obtain ⟨hdest, -⟩ := hv.internal_conn hk hcn
    cases lk with
    | false => exact h₁.mono
    | true =>
      have hcn₁ : v₁.conn c = some cn ∧ v₁.externalSockets = v.externalSockets := by
        cases ht with
        | found => exact ⟨hcn, rfl⟩
        | made => exact ⟨hv.conn_enter hcn, rfl⟩
      refine (h₁.aim (ht.sound hv hr) hcn₁.1 ?_ ext).mono
      rw [hcn₁.2, hdest]
      exact ha
  | @relayed socket remote bytes e en _ hk hen _ =>
    -- the connection that is locked is the one of the packet's address pair
    obtain ⟨en', hen', hap⟩ := hv.key_live hk
    obtain rfl := Option.some.inj (hen.symm.trans hen')
    have hnew : (v.lock e).conn e = some { en with locked := true } := by
      show Function.update _ _ _ _ = _
      rw [Function.update_self, hen]
      rfl
    have hheard : heardFrom (v.lock e) (.externalPacket socket remote bytes) =
        [({ source := remote, dest := socket }, en.binding)] := by
      have hk' : (v.lock e).connections { source := remote, dest := socket } = some e := hk
      simp only [heardFrom, hk', hnew]
    intro b' r' c cn hr' hc' hcn hl
    rw [hheard]
    obtain ⟨old, hold, ⟨-, rfl⟩ | ⟨rfl, rfl⟩⟩ := View.modify_conn hcn
    · exact List.mem_append_left _ (hc b' r' c _ hr' hc' hold hl)
    · obtain rfl := Option.some.inj (hen.symm.trans hold)
      obtain ⟨en'', hen'', hb⟩ := hv.member hr' (List.mem_append_right _ hc')
      obtain rfl := Option.some.inj (hen.symm.trans hen'')
      rw [← hap, hb]
      exact List.mem_append_right _ (List.mem_singleton.mpr rfl)
  | dropped => exact hc.mono
  | @admitted socket remote bytes username b _ hnone hb _ =>
    obtain ⟨r, hr, -⟩ := hv.named hb
    have h₁ : Consented (v.enterExternal b { source := remote, dest := socket } socket) heard :=
      hc.enter (View.enters_external ha) hr _
    have hsound : (v.enterExternal b { source := remote, dest := socket } socket).Sound :=
      hv.enter (View.enters_external ha) hr
    have hnew : (v.enterExternal b { source := remote, dest := socket } socket).conn v.nextConn =
        some (View.entered b { source := remote, dest := socket } socket) := View.conn_enter_new _
    have hheard : heardFrom ((v.enterExternal b { source := remote, dest := socket } socket).lock
        v.nextConn) (.externalPacket socket remote bytes) =
        [({ source := remote, dest := socket }, b)] := by
      have hk' : ((v.enterExternal b { source := remote, dest := socket } socket).lock
          v.nextConn).connections { source := remote, dest := socket } = some v.nextConn :=
        Function.update_self _ _ v.connections
      have hcn' : ((v.enterExternal b { source := remote, dest := socket } socket).lock
          v.nextConn).conn v.nextConn = some { View.entered b { source := remote, dest := socket }
            socket with locked := true } := by
        show Function.update _ _ _ _ = _
        rw [Function.update_self, hnew]
        rfl
      simp only [heardFrom, hk', hcn']
      rfl
    intro b' r' c cn hr' hc' hcn hl
    rw [hheard]
    obtain ⟨old, hold, ⟨-, rfl⟩ | ⟨rfl, rfl⟩⟩ := View.modify_conn hcn
    · exact List.mem_append_left _ (h₁ b' r' c _ hr' hc' hold hl)
    · obtain rfl := Option.some.inj (hnew.symm.trans hold)
      obtain ⟨en, hen, hbb⟩ := hsound.member hr' (List.mem_append_right _ hc')
      obtain rfl := Option.some.inj (hnew.symm.trans hen)
      refine List.mem_append_right _ (List.mem_singleton.mpr ?_)
      rw [← hbb]
      rfl
  | checked => exact hc.mono
  | disposed b => exact (hc.drop b).mono

theorem Watch.Reachable.consented {a : Watch} (h : a.Reachable) :
    a.server.view.Sound ∧ Consented a.server.view a.heard := by
  refine Reach.invariant
    (I := fun a : Watch => a.server.view.Sound ∧ Consented a.server.view a.heard) ?_ ?_ a h
  · rintro ⟨_, _⟩ ⟨⟨socket, others, rfl⟩, rfl⟩
    exact ⟨sound_start socket others, fun b r c cn hr => absurd hr (by simp [Server.start, Server.view])⟩
  · rintro a b - ⟨hs, hc⟩ ⟨env, e, hen, hstep, hheard⟩
    have heff := step_effect env e a.server
    rw [hheard, hstep]
    exact ⟨heff.sound hs hen.arrives, heff.consented hs hen.arrives hc⟩

/-! ### What is sent on external sockets -/

theorem View.externalFor_some {ext : SocketAddress} {e : ℕ} (h : v.externalFor b ext = some e) :
    ∃ r en, v.roster b = some r ∧ e ∈ r.external ∧ v.conn e = some en ∧
      en.addrPair.source = ext := by
  rw [View.externalFor] at h
  split at h
  · exact absurd h (by simp)
  rename_i r hr
  have hfound := List.find?_some h
  have hmem := List.mem_of_find?_eq_some h
  split at hfound
  · rename_i en hen
    exact ⟨r, en, hr, hmem, hen, of_decide_eq_true hfound⟩
  · exact absurd hfound (by simp)

theorem Consented.externalFor (hc : Consented v heard) {ext : SocketAddress} {e : ℕ}
    {en : Connection} (he : v.externalFor b ext = some e) (hen : v.conn e = some en)
    (hl : en.locked = true) : (en.addrPair, b) ∈ heard := by
  obtain ⟨r, en', hr, hmem, hen', -⟩ := View.externalFor_some he
  exact hc b r e en hr hmem hen hl

theorem Delivered.inside (hv : v.Sound) {bytes : List Byte} {fromAddr : SocketAddress}
    (h : Delivered v b bytes fromAddr out) {socket dest : SocketAddress} {sent : List Byte}
    (ho : .sent socket dest sent ∈ out) : socket ∉ v.externalSockets := by
  cases h with
  | sent r i cn hr hi hcn =>
    obtain ⟨rfl, -, -⟩ := Output.sent.inj (List.mem_singleton.mp ho)
    rw [hv.socket hcn]
    exact hv.inside hr hi hcn
  | dangling => exact absurd ho (by simp)
  | nobody => exact absurd ho (by simp)

/-- **What an event sends on an external socket was asked for by a client** whose binding
the destination has been heard in. -/
theorem Effect.sent_outside (h : Effect v e w out) (hv : v.Sound) (ha : Arrives v e)
    (hc : Consented v heard) {socket dest : SocketAddress} {bytes : List Byte}
    (ho : .sent socket dest bytes ∈ out) (hs : socket ∈ v.externalSockets) :
    ∃ sock remote packet c cn, e = .internalPacket sock remote packet ∧
      v.connections { source := remote, dest := sock } = some c ∧ v.conn c = some cn ∧
      ({ source := dest, dest := socket }, cn.binding) ∈ heard := by
  -- an answer on the socket of an internal packet is none of these
  have hreply : ∀ {sock remote c cn}, sock ∉ v.externalSockets →
      v.connections { source := remote, dest := sock } = some c → v.conn c = some cn →
      cn.socket ∉ v.externalSockets := by
    intro sock remote c cn hsock hk hcn
    rw [hv.socket hcn, (hv.internal_conn hk hcn).1]
    exact hsock
  -- the address pair of a connection is made of where it sends and on which socket
  have hpair : ∀ {en : Connection} {b : ℕ}, v.conn b = some en →
      ({ source := en.addrPair.source, dest := en.socket } : SocketAddressPair) = en.addrPair := by
    intro en b hen
    rw [hv.socket hen]
  cases h with
  | refused =>
    obtain ⟨rfl, -, -⟩ := Output.sent.inj (List.mem_singleton.mp ho)
    exact absurd hs ha
  | allocated _ _ _ _ _ _ hout =>
    rcases hout with rfl | ⟨reply, rfl⟩
    · exact absurd ho (by simp)
    · obtain ⟨rfl, -, -⟩ := Output.sent.inj (List.mem_singleton.mp ho)
      exact absurd hs ha
  | answered c _ hk hout =>
    rcases hout with rfl | ⟨cn, reply, hcn, rfl⟩
    · exact absurd ho (by simp)
    · obtain ⟨rfl, -, -⟩ := Output.sent.inj (List.mem_singleton.mp ho)
      exact absurd hs (hreply ha hk hcn)
  | forwarded c e cn en hk hcn _ _ he hen hl =>
    obtain ⟨rfl, rfl, -⟩ := Output.sent.inj (List.mem_singleton.mp ho)
    refine ⟨_, _, _, c, cn, rfl, hk, hcn, ?_⟩
    rw [hpair hen]
    exact hc.externalFor he hen hl
  | requested c e cn r ext data lk v₁ out₁ out₂ out₃ hk hcn hr _ _ ht hout₂ hout₃ =>
    refine ⟨_, _, _, c, cn, rfl, hk, hcn, ?_⟩
    rcases List.mem_append.mp ho with ho | ho
    · rcases List.mem_append.mp ho with ho | ho
      · cases ht with
        | found => exact absurd ho (by simp)
        | made _ _ hfault =>
          rcases hfault _ ho with h | ⟨h, -⟩ <;> exact absurd h (by simp)
      · rcases hout₂ with rfl | ⟨en, hen, hl, rfl⟩
        · exact absurd ho (by simp)
        obtain ⟨rfl, rfl, -⟩ := Output.sent.inj (List.mem_singleton.mp ho)
        cases ht with
        | found _ he =>
          rw [hpair hen]
          exact hc.externalFor he hen hl
        | made =>
          -- a connection made for the request is not locked
          obtain rfl := Option.some.inj ((View.conn_enter_new _).symm.trans hen)
          exact absurd hl (by simp [View.entered])
    · rcases hout₃ with rfl | ⟨cn', reply, hcn', rfl⟩
      · exact absurd ho (by simp)
      obtain ⟨rfl, -, -⟩ := Output.sent.inj (List.mem_singleton.mp ho)
      have hcn₁ : v₁.conn c = some cn := by
        cases ht with
        | found => exact hcn
        | made => exact hv.conn_enter hcn
      have hsock : cn'.socket = cn.socket := by
        obtain ⟨old, hold, ⟨hne, -⟩ | ⟨-, rfl⟩⟩ := View.modify_conn hcn'
        · exact absurd rfl hne
        · obtain rfl := Option.some.inj (hcn₁.symm.trans hold)
          rfl
      rw [hsock] at hs
      exact absurd hs (hreply ha hk hcn)
  | relayed _ _ _ _ _ hout => exact absurd hs (hout.inside hv ho)
  | dropped => exact absurd ho (by simp)
  | @admitted sock remote _ username b _ _ hb hout =>
    obtain ⟨r, hr, -⟩ := hv.named hb
    have hsound : (v.enterExternal b { source := remote, dest := sock } sock).Sound :=
      hv.enter (View.enters_external ha) hr
    exact absurd hs (hout.inside (hsound.lock _) ho)
  | checked => exact absurd ho (by simp)
  | disposed _ _ hout =>
    obtain ⟨f, hf⟩ := hout _ ho
    exact absurd hf (by simp)

/-- **The server never relays to a host that has not consented.**  What is sent on an
external socket goes to an address that was heard on that socket earlier in the run, in
the binding of the client whose packet caused it. -/
theorem relays_to_consenting {a : Watch} (h : a.Reachable) (env : Env) (e : Event)
    (he : e.Enabled a.server) (socket dest : SocketAddress) (bytes : List Byte)
    (ho : .sent socket dest bytes ∈ (step env e a.server).log)
    (hs : socket ∈ a.server.externalSockets) :
    ∃ sock remote packet c cn, e = .internalPacket sock remote packet ∧
      a.server.connections { source := remote, dest := sock } = some c ∧
      a.server.conn c = some cn ∧
      ({ source := dest, dest := socket }, cn.binding) ∈ a.heard := by
  obtain ⟨hsound, hc⟩ := h.consented
  exact (step_effect env e a.server).sent_outside hsound he.arrives hc ho hs

/-- A client's byte goes to a peer that has entered its binding. -/
theorem relays_to_consenting_peer :
    ∃ a : Watch, a.Reachable ∧
      .sent serverExternal peer [7] ∈ (step calm (sendToPeer clientOne nameOne) a.server).log ∧
      ∃ cn : Connection, (peerPair, cn.binding) ∈ a.heard := by
  have h₀ : Watch.Reachable ⟨.start serverExternal [], []⟩ := .init ⟨⟨serverExternal, [], rfl⟩, rfl⟩
  have h₁ := Reach.step (t := ⟨_, _⟩) h₀ ⟨calm, allocate clientOne nameOne,
    show serverInternal ∉ [serverExternal] by decide, rfl, rfl⟩
  have h₂ : Watch.Reachable ⟨peerAdmitted, _⟩ := Reach.step h₁ ⟨calm, peerPacket nameOne,
    show serverExternal ∈ Server.externalSockets _ by decide, rfl, rfl⟩
  have hsent : .sent serverExternal peer [7] ∈
      (step calm (sendToPeer clientOne nameOne) peerAdmitted).log := by decide
  obtain ⟨_, _, _, _, cn, -, -, -, hheard⟩ := relays_to_consenting h₂ calm
    (sendToPeer clientOne nameOne)
    (show serverInternal ∉ Server.externalSockets _ by decide) serverExternal peer [7]
    hsent (by decide)
  exact ⟨_, h₂, hsent, cn, hheard⟩

end Jingle.Relay
