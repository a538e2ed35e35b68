/-
The directory of the relay server is sound in every reachable state.

`View.Sound` ties the four tables together: an entry of `connections` is a live
connection with that address pair, a live connection is listed by its binding
and by no other, names and bindings belong to each other, and the two lists of
a binding keep internal and external sockets apart.  Every effect keeps it,
whatever the packets are (`Effect.sound`).

`View.Indexed` is the other half of uniqueness: a live connection is found under
its address pair.  It needs `NoClash`: a send request must not make a connection
for an address pair that is taken.
-/
import Jingle.Relay.Effects
import Jingle.Lib.Reach

namespace Jingle.Relay

namespace View

variable {v : View} {b c : ℕ}

/-- The tables belong together. -/
structure Sound (v : View) : Prop where
  key_live : ∀ {k c}, v.connections k = some c → ∃ cn, v.conn c = some cn ∧ cn.addrPair = k
  conn_lt : ∀ {c cn}, v.conn c = some cn → c < v.nextConn
  roster_lt : ∀ {b r}, v.roster b = some r → b < v.nextBinding
  owned : ∀ {c cn}, v.conn c = some cn → ∃ r, v.roster cn.binding = some r ∧ c ∈ r.members
  member : ∀ {b r c}, v.roster b = some r → c ∈ r.members →
    ∃ cn, v.conn c = some cn ∧ cn.binding = b
  inside : ∀ {b r c cn}, v.roster b = some r → c ∈ r.internal → v.conn c = some cn →
    cn.addrPair.dest ∉ v.externalSockets
  outside : ∀ {b r c cn}, v.roster b = some r → c ∈ r.external → v.conn c = some cn →
    cn.addrPair.dest ∈ v.externalSockets
  socket : ∀ {c cn}, v.conn c = some cn → cn.socket = cn.addrPair.dest
  named : ∀ {u b}, v.bindings u = some b → ∃ r, v.roster b = some r ∧ r.username = u
  name_of : ∀ {b r}, v.roster b = some r → v.bindings r.username = some b

/-- Every binding has an internal connection. -/
def Staffed (v : View) : Prop := ∀ b r, v.roster b = some r → r.internal ≠ []

/-- A live connection is the entry of its address pair. -/
def Indexed (v : View) : Prop := ∀ c cn, v.conn c = some cn → v.connections cn.addrPair = some c

/-! ### Changes of one connection -/

theorem modify_conn {f : Connection → Connection} {c' : ℕ} {cn' : Connection}
    (h : (v.modify c f).conn c' = some cn') :
    ∃ cn, v.conn c' = some cn ∧ ((c' ≠ c ∧ cn' = cn) ∨ (c' = c ∧ cn' = f cn)) := by
  by_cases hc : c' = c
  · subst hc
    have h' : (v.conn c').map f = some cn' := by
      rw [← h]
      exact (Function.update_self c' _ v.conn).symm
    obtain ⟨cn, hcn, rfl⟩ := Option.map_eq_some_iff.mp h'
    exact ⟨cn, hcn, .inr ⟨rfl, rfl⟩⟩
  · rw [modify] at h
    dsimp only at h
    rw [Function.update_of_ne hc] at h
    exact ⟨cn', h, .inl ⟨hc, rfl⟩⟩

theorem conn_modify {f : Connection → Connection} {c' : ℕ} {cn : Connection}
    (h : v.conn c' = some cn) :
    ∃ cn', (v.modify c f).conn c' = some cn' ∧ (cn' = cn ∨ (c' = c ∧ cn' = f cn)) := by
  by_cases hc : c' = c
  · subst hc
    refine ⟨f cn, ?_, .inr ⟨rfl, rfl⟩⟩
    show Function.update _ _ _ _ = _
    rw [Function.update_self, h]
    rfl
  · exact ⟨cn, by rw [← h]; exact Function.update_of_ne hc _ _, .inl rfl⟩

theorem Sound.modify (h : v.Sound) {f : Connection → Connection}
    (hf : ∀ cn, (f cn).binding = cn.binding ∧ (f cn).addrPair = cn.addrPair ∧
      (f cn).socket = cn.socket) : (v.modify c f).Sound := by
  -- a connection after the change is one before it with the same fields
  have back : ∀ {c' cn'}, (v.modify c f).conn c' = some cn' → ∃ cn, v.conn c' = some cn ∧
      cn'.binding = cn.binding ∧ cn'.addrPair = cn.addrPair ∧ cn'.socket = cn.socket := by
    intro c' cn' h'
    obtain ⟨cn, hcn, ⟨-, rfl⟩ | ⟨-, rfl⟩⟩ := modify_conn h'
    · exact ⟨_, hcn, rfl, rfl, rfl⟩
    · exact ⟨cn, hcn, hf cn⟩
  have forth : ∀ {c' cn}, v.conn c' = some cn → ∃ cn', (v.modify c f).conn c' = some cn' ∧
      cn'.binding = cn.binding ∧ cn'.addrPair = cn.addrPair := by
    intro c' cn h'
    obtain ⟨cn', hcn', rfl | ⟨-, rfl⟩⟩ := conn_modify (c := c) (f := f) h'
    · exact ⟨_, hcn', rfl, rfl⟩
    · exact ⟨_, hcn', (hf cn).1, (hf cn).2.1⟩
  constructor
  · intro k c' hk
    obtain ⟨cn, hcn, hap⟩ := h.key_live hk
    obtain ⟨cn', hcn', -, hap'⟩ := forth hcn
    exact ⟨cn', hcn', hap'.trans hap⟩
  · intro c' cn' h'
    obtain ⟨cn, hcn, -⟩ := back h'
    exact h.conn_lt hcn
  · exact h.roster_lt
  · intro c' cn' h'
    obtain ⟨cn, hcn, hb, -⟩ := back h'
    rw [hb]
    exact h.owned hcn
  · intro b r c' hr hc'
    obtain ⟨cn, hcn, hb⟩ := h.member hr hc'
    obtain ⟨cn', hcn', hb', -⟩ := forth hcn
    exact ⟨cn', hcn', hb'.trans hb⟩
  · intro b r c' cn' hr hc' h'
    obtain ⟨cn, hcn, -, hap, -⟩ := back h'
    rw [hap]
    exact h.inside hr hc' hcn
  · intro b r c' cn' hr hc' h'
    obtain ⟨cn, hcn, -, hap, -⟩ := back h'
    rw [hap]
    exact h.outside hr hc' hcn
  · intro c' cn' h'
    obtain ⟨cn, hcn, -, hap, hs⟩ := back h'
    rw [hs, hap]
    exact h.socket hcn
  · exact h.named
  · exact h.name_of

theorem Sound.lock (h : v.Sound) (c : ℕ) : (v.lock c).Sound :=
  h.modify (f := fun cn => { cn with locked := true }) fun _ => ⟨rfl, rfl, rfl⟩

theorem Sound.aim (h : v.Sound) (c : ℕ) (addr : SocketAddress) : (v.aim c addr).Sound :=
  h.modify (f := fun cn => { cn with defaultDest := addr, locked := true }) fun _ => ⟨rfl, rfl, rfl⟩

theorem Indexed.modify (h : v.Indexed) {f : Connection → Connection}
    (hf : ∀ cn, (f cn).addrPair = cn.addrPair) : (v.modify c f).Indexed := by
  intro c' cn' h'
  obtain ⟨cn, hcn, ⟨-, rfl⟩ | ⟨-, rfl⟩⟩ := modify_conn h'
  · exact h c' _ hcn
  · rw [hf]
    exact h c' cn hcn

/-! ### New bindings and connections -/

theorem Sound.openBinding (h : v.Sound) {u : List Byte} (hu : v.bindings u = none) :
    (v.openBinding u).Sound := by
  have hfree : v.roster v.nextBinding = none := by
    by_contra hne
    obtain ⟨r, hr⟩ := Option.ne_none_iff_exists'.mp hne
    exact absurd (h.roster_lt hr) (lt_irrefl _)
  have old : ∀ {b r}, v.roster b = some r → (v.openBinding u).roster b = some r := by
    intro b r hr
    have hb : b ≠ v.nextBinding := fun hb => by rw [hb, hfree] at hr; simp at hr
    rw [← hr]
    exact Function.update_of_ne hb _ _
  -- a roster is an old one or the new one without members
  have back : ∀ {b r}, (v.openBinding u).roster b = some r →
      v.roster b = some r ∨ (b = v.nextBinding ∧ r = { username := u, internal := [], external := [] }) := by
    intro b r hr
    by_cases hb : b = v.nextBinding
    · subst hb
      have hr' : some { username := u, internal := [], external := [] } = some r := by
        rw [← hr]
        exact (Function.update_self v.nextBinding _ v.roster).symm
      exact .inr ⟨rfl, (Option.some.inj hr').symm⟩
    · left
      rw [← hr]
      exact (Function.update_of_ne hb _ _).symm
  constructor
  · exact h.key_live
  · exact h.conn_lt
  · intro b r hr
    rcases back hr with hr | ⟨rfl, -⟩
    · exact Nat.lt_succ_of_lt (h.roster_lt hr)
    · exact Nat.lt_succ_self _
  · intro c cn hcn
    obtain ⟨r, hr, hc⟩ := h.owned hcn
    exact ⟨r, old hr, hc⟩
  · intro b r c hr hc
    rcases back hr with hr | ⟨rfl, rfl⟩
    · exact h.member hr hc
    · exact absurd hc (by simp [Roster.members])
  · intro b r c cn hr hc hcn
    rcases back hr with hr | ⟨rfl, rfl⟩
    · exact h.inside hr hc hcn
    · exact absurd hc (by simp)
  · intro b r c cn hr hc hcn
    rcases back hr with hr | ⟨rfl, rfl⟩
    · exact h.outside hr hc hcn
    · exact absurd hc (by simp)
  · exact h.socket
  · intro u' b hb
    by_cases hu' : u' = u
    · subst hu'
      have hb' : some v.nextBinding = some b := by
        rw [← hb]
        exact (Function.update_self u' _ v.bindings).symm
      obtain rfl := Option.some.inj hb'
      exact ⟨_, Function.update_self v.nextBinding _ v.roster, rfl⟩
    · have hb' : v.bindings u' = some b := by
        rw [← hb]
        exact (Function.update_of_ne hu' _ v.bindings).symm
      obtain ⟨r, hr, hn⟩ := h.named hb'
      exact ⟨r, old hr, hn⟩
  · intro b r hr
    rcases back hr with hr | ⟨rfl, rfl⟩
    · have hne : r.username ≠ u := fun he => by
        have := h.name_of hr
        rw [he, hu] at this
        simp at this
      rw [← h.name_of hr]
      exact Function.update_of_ne hne _ _
    · exact Function.update_self u _ v.bindings

/-- The kinds of sockets a list of a roster may hold. -/
structure Enters (v : View) (f : ℕ → Roster → Roster) (dest : SocketAddress) : Prop where
  name : ∀ c r, (f c r).username = r.username
  internal : ∀ c r c', c' ∈ (f c r).internal ↔
    c' ∈ r.internal ∨ (c' = c ∧ dest ∉ v.externalSockets)
  external : ∀ c r c', c' ∈ (f c r).external ↔
    c' ∈ r.external ∨ (c' = c ∧ dest ∈ v.externalSockets)

theorem enters_internal {dest : SocketAddress} (h : dest ∉ v.externalSockets) :
    v.Enters (fun c r => { r with internal := r.internal ++ [c] }) dest :=
  ⟨fun _ _ => rfl, fun _ _ _ => by simp [h], fun _ _ _ => by simp [h]⟩

theorem enters_external {dest : SocketAddress} (h : dest ∈ v.externalSockets) :
    v.Enters (fun c r => { r with external := r.external ++ [c] }) dest :=
  ⟨fun _ _ => rfl, fun _ _ _ => by simp [h], fun _ _ _ => by simp [h]⟩

variable {f : ℕ → Roster → Roster} {ap : SocketAddressPair} {r : Roster}

/-- The connection that `enter` makes. -/
def entered (b : ℕ) (ap : SocketAddressPair) (socket : SocketAddress) : Connection where
  binding := b
  addrPair := ap
  socket := socket
  locked := false
  defaultDest := .nil

theorem enter_conn {socket : SocketAddress} {c : ℕ} {cn : Connection}
    (h : (v.enter f b ap socket).conn c = some cn) :
    (c ≠ v.nextConn ∧ v.conn c = some cn) ∨ (c = v.nextConn ∧ cn = entered b ap socket) := by
  by_cases hc : c = v.nextConn
  · subst hc
    have h' : some (entered b ap socket) = some cn := by
      rw [← h]
      exact (Function.update_self v.nextConn _ v.conn).symm
    exact .inr ⟨rfl, (Option.some.inj h').symm⟩
  · left
    refine ⟨hc, ?_⟩
    rw [← h]
    exact (Function.update_of_ne hc _ _).symm

theorem conn_enter_new (socket : SocketAddress) :
    (v.enter f b ap socket).conn v.nextConn = some (entered b ap socket) :=
  Function.update_self v.nextConn _ v.conn

theorem Sound.conn_enter (h : v.Sound) {socket : SocketAddress} {c : ℕ} {cn : Connection}
    (hcn : v.conn c = some cn) : (v.enter f b ap socket).conn c = some cn := by
  rw [← hcn]
  exact Function.update_of_ne (h.conn_lt hcn).ne _ _

theorem enter_roster {socket : SocketAddress} {b' : ℕ} {r' : Roster} (hr : v.roster b = some r)
    (h : (v.enter f b ap socket).roster b' = some r') :
    (b' ≠ b ∧ v.roster b' = some r') ∨ (b' = b ∧ r' = f v.nextConn r) := by
  by_cases hb : b' = b
  · subst hb
    have h' : some (f v.nextConn r) = some r' := by
      rw [← h]
      show _ = Function.update v.roster b' _ b'
      rw [Function.update_self, hr]
      rfl
    exact .inr ⟨rfl, (Option.some.inj h').symm⟩
  · left
    refine ⟨hb, ?_⟩
    rw [← h]
    exact (Function.update_of_ne hb _ _).symm

theorem roster_enter_self {socket : SocketAddress} (hr : v.roster b = some r) :
    (v.enter f b ap socket).roster b = some (f v.nextConn r) := by
  show Function.update _ _ _ _ = _
  rw [Function.update_self, hr]
  rfl

theorem roster_enter_of_ne {socket : SocketAddress} {b' : ℕ} (h : b' ≠ b) :
    (v.enter f b ap socket).roster b' = v.roster b' := Function.update_of_ne h _ _

theorem Enters.members (hf : v.Enters f ap.dest) {c : ℕ} :
    c ∈ (f v.nextConn r).members ↔ c ∈ r.members ∨ c = v.nextConn := by
  simp only [Roster.members, List.mem_append, hf.internal, hf.external]
  by_cases h : ap.dest ∈ v.externalSockets <;> simp only [h] <;> tauto

theorem Sound.enter (h : v.Sound) (hf : v.Enters f ap.dest) (hr : v.roster b = some r) :
    (v.enter f b ap ap.dest).Sound := by
  constructor
  · intro k c hk
    by_cases hkap : k = ap
    · subst hkap
      have hc : some v.nextConn = some c := by
        rw [← hk]
        exact (Function.update_self k _ v.connections).symm
      obtain rfl := Option.some.inj hc
      exact ⟨_, conn_enter_new _, rfl⟩
    · have hk' : v.connections k = some c := by
        rw [← hk]
        exact (Function.update_of_ne hkap _ v.connections).symm
      obtain ⟨cn, hcn, hap⟩ := h.key_live hk'
      exact ⟨cn, h.conn_enter hcn, hap⟩
  · intro c cn hcn
    rcases enter_conn hcn with ⟨-, hcn⟩ | ⟨rfl, -⟩
    · exact Nat.lt_succ_of_lt (h.conn_lt hcn)
    · exact Nat.lt_succ_self _
  · intro b' r' hr'
    rcases enter_roster hr hr' with ⟨-, hr'⟩ | ⟨rfl, -⟩
    · exact h.roster_lt hr'
    · exact h.roster_lt hr
  · intro c cn hcn
    rcases enter_conn hcn with ⟨-, hcn⟩ | ⟨rfl, rfl⟩
    · obtain ⟨r', hr', hc⟩ := h.owned hcn
      by_cases hb : cn.binding = b
      · rw [hb] at hr' ⊢
        obtain rfl := Option.some.inj (hr'.symm.trans hr)
        exact ⟨_, roster_enter_self hr, hf.members.mpr (.inl hc)⟩
      · exact ⟨r', by rw [roster_enter_of_ne hb, hr'], hc⟩
    · exact ⟨_, roster_enter_self hr, hf.members.mpr (.inr rfl)⟩
  · intro b' r' c hr' hc
    rcases enter_roster hr hr' with ⟨-, hr'⟩ | ⟨rfl, rfl⟩
    · obtain ⟨cn, hcn, hb⟩ := h.member hr' hc
      exact ⟨cn, h.conn_enter hcn, hb⟩
    · rcases hf.members.mp hc with hc | rfl
      · obtain ⟨cn, hcn, hb⟩ := h.member hr hc
        exact ⟨cn, h.conn_enter hcn, hb⟩
      · exact ⟨_, conn_enter_new _, rfl⟩
  · intro b' r' c cn hr' hc hcn
    show cn.addrPair.dest ∉ v.externalSockets
    rcases enter_conn hcn with ⟨hne, hold⟩ | ⟨rfl, rfl⟩
    · rcases enter_roster hr hr' with ⟨-, hr'⟩ | ⟨rfl, rfl⟩
      · exact h.inside hr' hc hold
      · rcases (hf.internal _ _ _).mp hc with hc | ⟨rfl, -⟩
        · exact h.inside hr hc hold
        · exact absurd rfl hne
    · rcases enter_roster hr hr' with ⟨-, hr'⟩ | ⟨rfl, rfl⟩
      · obtain ⟨cn', hcn', -⟩ := h.member hr' (List.mem_append_left _ hc)
        exact absurd (h.conn_lt hcn') (lt_irrefl _)
      · rcases (hf.internal _ _ _).mp hc with hc | ⟨-, hout⟩
        · obtain ⟨cn', hcn', -⟩ := h.member hr (List.mem_append_left _ hc)
          exact absurd (h.conn_lt hcn') (lt_irrefl _)
        · exact hout
  · intro b' r' c cn hr' hc hcn
    show cn.addrPair.dest ∈ v.externalSockets
    rcases enter_conn hcn with ⟨hne, hold⟩ | ⟨rfl, rfl⟩
    · rcases enter_roster hr hr' with ⟨-, hr'⟩ | ⟨rfl, rfl⟩
      · exact h.outside hr' hc hold
      · rcases (hf.external _ _ _).mp hc with hc | ⟨rfl, -⟩
        · exact h.outside hr hc hold
        · exact absurd rfl hne
    · rcases enter_roster hr hr' with ⟨-, hr'⟩ | ⟨rfl, rfl⟩
      · obtain ⟨cn', hcn', -⟩ := h.member hr' (List.mem_append_right _ hc)
        exact absurd (h.conn_lt hcn') (lt_irrefl _)
      · rcases (hf.external _ _ _).mp hc with hc | ⟨-, hin⟩
        · obtain ⟨cn', hcn', -⟩ := h.member hr (List.mem_append_right _ hc)
          exact absurd (h.conn_lt hcn') (lt_irrefl _)
        · exact hin
  · intro c cn hcn
    rcases enter_conn hcn with ⟨-, hcn⟩ | ⟨rfl, rfl⟩
    · exact h.socket hcn
    · rfl
  · intro u b' hb'
    obtain ⟨r', hr', hn⟩ := h.named hb'
    by_cases hb : b' = b
    · subst hb
      obtain rfl := Option.some.inj (hr'.symm.trans hr)
      exact ⟨_, roster_enter_self hr, (hf.name _ _).trans hn⟩
    · exact ⟨r', by rw [roster_enter_of_ne hb, hr'], hn⟩
  · intro b' r' hr'
    rcases enter_roster hr hr' with ⟨-, hr'⟩ | ⟨rfl, rfl⟩
    · exact h.name_of hr'
    · rw [hf.name]
      exact h.name_of hr

theorem Indexed.enter (hi : v.Indexed) (hfree : v.connections ap = none)
    (socket : SocketAddress) : (v.enter f b ap socket).Indexed := by
  intro c cn hcn
  rcases enter_conn hcn with ⟨-, hcn⟩ | ⟨rfl, rfl⟩
  · have hne : cn.addrPair ≠ ap := fun he => by
      have := hi c cn hcn
      rw [he, hfree] at this
      simp at this
    rw [← hi c cn hcn]
    exact Function.update_of_ne hne _ _
  · exact Function.update_self ap _ v.connections

/-! ### Deleting a binding -/

theorem foldl_deleteConnection_frame (cs : List ℕ) (v : View) :
    let w := cs.foldl deleteConnection v
    w.externalSocket = v.externalSocket ∧ w.otherSockets = v.otherSockets ∧
      w.bindings = v.bindings ∧ w.roster = v.roster ∧ w.nextConn = v.nextConn ∧
      w.nextBinding = v.nextBinding := by
  induction cs generalizing v with
  | nil => exact ⟨rfl, rfl, rfl, rfl, rfl, rfl⟩
  | cons c cs ih =>
    have hstep : ∀ w : View, w = v.deleteConnection c → w.externalSocket = v.externalSocket ∧
        w.otherSockets = v.otherSockets ∧ w.bindings = v.bindings ∧ w.roster = v.roster ∧
        w.nextConn = v.nextConn ∧ w.nextBinding = v.nextBinding := by
      rintro _ rfl
      rw [deleteConnection]
      split <;> exact ⟨rfl, rfl, rfl, rfl, rfl, rfl⟩
    obtain ⟨h₁, h₂, h₃, h₄, h₅, h₆⟩ := hstep _ rfl
    obtain ⟨g₁, g₂, g₃, g₄, g₅, g₆⟩ := ih (v.deleteConnection c)
    exact ⟨g₁.trans h₁, g₂.trans h₂, g₃.trans h₃, g₄.trans h₄, g₅.trans h₅, g₆.trans h₆⟩

theorem foldl_deleteConnection_conn (cs : List ℕ) (v : View) (c : ℕ) :
    (cs.foldl deleteConnection v).conn c = if c ∈ cs then none else v.conn c := by
  induction cs generalizing v with
  | nil => rfl
  | cons d cs ih =>
    have hd : (v.deleteConnection d).conn c = if c = d then none else v.conn c := by
      rw [deleteConnection]
      split
      · rename_i hnone
        split
        · rename_i hcd
          rw [hcd, hnone]
        · rfl
      · show Function.update v.conn d none c = _
        rw [Function.update_apply]
    rw [List.foldl_cons, ih, hd]
    by_cases hcs : c ∈ cs
    · simp [hcs]
    · by_cases hcd : c = d <;> simp [hcs, hcd]

theorem foldl_deleteConnection_entry {cs : List ℕ} {v : View} {k : SocketAddressPair} {c : ℕ}
    (h : (cs.foldl deleteConnection v).connections k = some c) :
    v.connections k = some c ∧ ∀ d ∈ cs, ∀ dn, v.conn d = some dn → dn.addrPair ≠ k := by
  induction cs generalizing v with
  | nil => exact ⟨h, fun d hd => absurd hd (by simp)⟩
  | cons d cs ih =>
    obtain ⟨hk, hcs⟩ := ih h
    cases hd : v.conn d with
    | none =>
      have hw : v.deleteConnection d = v := by rw [deleteConnection, hd]
      rw [hw] at hk hcs
      refine ⟨hk, fun e he en hen => ?_⟩
      rcases List.mem_cons.mp he with rfl | he
      · rw [hd] at hen
        exact absurd hen (by simp)
      · exact hcs e he en hen
    | some dn =>
      have hw : v.deleteConnection d = { v with
          conn := Function.update v.conn d none
          connections := Function.update v.connections dn.addrPair none } := by
        rw [deleteConnection, hd]
      rw [hw] at hk hcs
      dsimp only at hk hcs
      have hne : k ≠ dn.addrPair := fun he => by
        rw [he, Function.update_self] at hk
        exact absurd hk (by simp)
      rw [Function.update_of_ne hne] at hk
      refine ⟨hk, fun e he en hen => ?_⟩
      by_cases hed : e = d
      · subst hed
        rw [hd] at hen
        obtain rfl := Option.some.inj hen
        exact hne.symm
      · rcases List.mem_cons.mp he with rfl | he
        · exact absurd rfl hed
        · exact hcs e he en (by rw [Function.update_of_ne hed, hen])

theorem foldl_deleteConnection_keeps {cs : List ℕ} {v : View} {k : SocketAddressPair}
    (h : ∀ d ∈ cs, ∀ dn, v.conn d = some dn → dn.addrPair ≠ k) :
    (cs.foldl deleteConnection v).connections k = v.connections k := by
  induction cs generalizing v with
  | nil => rfl
  | cons d cs ih =>
    have hd : (v.deleteConnection d).connections k = v.connections k := by
      rw [deleteConnection]
      split
      · rfl
      · rename_i dn hdn
        exact Function.update_of_ne (h d List.mem_cons_self dn hdn).symm _ _
    rw [List.foldl_cons, ih, hd]
    intro e he en hen
    refine h e (List.mem_cons_of_mem _ he) en ?_
    rw [deleteConnection] at hen
    split at hen
    · exact hen
    · dsimp only at hen
      by_cases hed : e = d
      · rw [hed, Function.update_self] at hen
        exact absurd hen (by simp)
      · rwa [Function.update_of_ne hed] at hen

theorem drop_of_some (hr : v.roster b = some r) :
    v.drop b = { r.members.foldl deleteConnection v with
      bindings := Function.update v.bindings r.username none
      roster := Function.update v.roster b none } := by
  obtain ⟨-, -, hbind, hros, -, -⟩ := foldl_deleteConnection_frame r.members v
  rw [drop, hr]
  dsimp only
  rw [hbind, hros]

theorem drop_of_none (hr : v.roster b = none) : v.drop b = v := by
  rw [drop, hr]

theorem Sound.not_mem_of_ne (h : v.Sound) {b' : ℕ} {r' : Roster} (hr : v.roster b = some r)
    (hr' : v.roster b' = some r') (hne : b' ≠ b) {c : ℕ} (hc : c ∈ r'.members) : c ∉ r.members := by
  intro hcr
  obtain ⟨cn, hcn, hb⟩ := h.member hr hcr
  obtain ⟨cn', hcn', hb'⟩ := h.member hr' hc
  obtain rfl := Option.some.inj (hcn.symm.trans hcn')
  exact hne (hb'.symm.trans hb)

theorem Sound.drop (h : v.Sound) (b : ℕ) : (v.drop b).Sound := by
  cases hr : v.roster b with
  | none =>
    rw [drop_of_none hr]
    exact h
  | some r =>
    rw [drop_of_some hr]
    obtain ⟨hsock, hothers, -, -, hnc, hnb⟩ := foldl_deleteConnection_frame r.members v
    -- the live connections are those of the other bindings
    have hconn : ∀ {c cn}, (r.members.foldl deleteConnection v).conn c = some cn ↔
        c ∉ r.members ∧ v.conn c = some cn := by
      intro c cn
      rw [foldl_deleteConnection_conn]
      by_cases hc : c ∈ r.members <;> simp [hc]
    have hros : ∀ {b' r'}, Function.update v.roster b none b' = some r' ↔
        b' ≠ b ∧ v.roster b' = some r' := by
      intro b' r'
      rw [Function.update_apply]
      by_cases hb : b' = b <;> simp [hb]
    constructor
    · intro k c hk
      obtain ⟨hk, hcs⟩ := foldl_deleteConnection_entry hk
      obtain ⟨cn, hcn, hap⟩ := h.key_live hk
      exact ⟨cn, hconn.mpr ⟨fun hc => hcs c hc cn hcn hap, hcn⟩, hap⟩
    · intro c cn hcn
      show c < (r.members.foldl deleteConnection v).nextConn
      rw [hnc]
      exact h.conn_lt (hconn.mp hcn).2
    · intro b' r' hr'
      show b' < (r.members.foldl deleteConnection v).nextBinding
      rw [hnb]
      exact h.roster_lt (hros.mp hr').2
    · intro c cn hcn
      obtain ⟨hc, hcn⟩ := hconn.mp hcn
      obtain ⟨r', hr', hmem⟩ := h.owned hcn
      refine ⟨r', hros.mpr ⟨fun hb => hc ?_, hr'⟩, hmem⟩
      rw [hb, hr] at hr'
      rwa [Option.some.inj hr']
    · intro b' r' c hr' hc
      obtain ⟨hne, hr'⟩ := hros.mp hr'
      obtain ⟨cn, hcn, hb⟩ := h.member hr' hc
      exact ⟨cn, hconn.mpr ⟨h.not_mem_of_ne hr hr' hne hc, hcn⟩, hb⟩
    · intro b' r' c cn hr' hc hcn
      show cn.addrPair.dest ∉ _ :: _
      rw [hsock, hothers]
      exact h.inside (hros.mp hr').2 hc (hconn.mp hcn).2
    · intro b' r' c cn hr' hc hcn
      show cn.addrPair.dest ∈ _ :: _
      rw [hsock, hothers]
      exact h.outside (hros.mp hr').2 hc (hconn.mp hcn).2
    · exact fun hcn => h.socket (hconn.mp hcn).2
    · intro u b' hb'
      have hb'' : Function.update v.bindings r.username none u = some b' := hb'
      rw [Function.update_apply] at hb''
      split at hb''
      · exact absurd hb'' (by simp)
      · rename_i hu
        obtain ⟨r', hr', hn⟩ := h.named hb''
        refine ⟨r', hros.mpr ⟨fun hb => hu ?_, hr'⟩, hn⟩
        rw [hb, hr] at hr'
        rw [← hn, Option.some.inj hr']
    · intro b' r' hr'
      obtain ⟨hne, hr'⟩ := hros.mp hr'
      have hu : r'.username ≠ r.username := fun he => by
        have h₁ := h.name_of hr'
        rw [he, h.name_of hr] at h₁
        exact hne (Option.some.inj h₁).symm
      rw [← h.name_of hr']
      exact Function.update_of_ne hu _ _

theorem Indexed.deleteConnection (hi : v.Indexed) (c : ℕ) : (v.deleteConnection c).Indexed := by
  cases hc : v.conn c with
  | none =>
    rw [View.deleteConnection, hc]
    exact hi
  | some cn =>
    rw [View.deleteConnection, hc]
    intro d dn hdn
    have hdn' : Function.update v.conn c none d = some dn := hdn
    rw [Function.update_apply] at hdn'
    split at hdn'
    · exact absurd hdn' (by simp)
    rename_i hdc
    have hne : dn.addrPair ≠ cn.addrPair := fun he => by
      have h₁ := hi d dn hdn'
      rw [he, hi c cn hc] at h₁
      exact hdc (Option.some.inj h₁).symm
    rw [← hi d dn hdn']
    exact Function.update_of_ne hne _ _

theorem Indexed.foldl_deleteConnection (hi : v.Indexed) (cs : List ℕ) :
    (cs.foldl View.deleteConnection v).Indexed := by
  induction cs generalizing v with
  | nil => exact hi
  | cons c cs ih => exact ih (hi.deleteConnection c)

theorem Indexed.drop (hi : v.Indexed) (b : ℕ) : (v.drop b).Indexed := by
  cases hr : v.roster b with
  | none =>
    rw [drop_of_none hr]
    exact hi
  | some r =>
    rw [drop_of_some hr]
    exact hi.foldl_deleteConnection r.members

/-! ### Staffing -/

theorem Staffed.enter (hs : v.Staffed) {dest : SocketAddress} (hf : v.Enters f dest)
    (hr : v.roster b = some r) (socket : SocketAddress) : (v.enter f b ap socket).Staffed := by
  intro b' r' hr' hnil
  rcases enter_roster hr hr' with ⟨-, hr'⟩ | ⟨rfl, rfl⟩
  · exact hs b' r' hr' hnil
  · obtain ⟨c, hc⟩ := List.exists_mem_of_ne_nil _ (hs b' r hr)
    have := (hf.internal v.nextConn r c).mpr (.inl hc)
    rw [hnil] at this
    exact absurd this (by simp)

theorem Staffed.openBinding_enter (hs : v.Staffed) {u : List Byte} {dest : SocketAddress}
    (hf : (v.openBinding u).Enters f dest) (hdest : dest ∉ v.externalSockets)
    (ap : SocketAddressPair) (socket : SocketAddress) :
    ((v.openBinding u).enter f v.nextBinding ap socket).Staffed := by
  have hnew : (v.openBinding u).roster v.nextBinding =
      some { username := u, internal := [], external := [] } :=
    Function.update_self v.nextBinding _ v.roster
  intro b' r' hr' hnil
  rcases enter_roster hnew hr' with ⟨hne, hr'⟩ | ⟨rfl, rfl⟩
  · refine hs b' r' ?_ hnil
    rw [← hr']
    exact (Function.update_of_ne hne _ v.roster).symm
  · have hmem := (hf.internal (v.openBinding u).nextConn
      { username := u, internal := [], external := [] } (v.openBinding u).nextConn).mpr
        (.inr ⟨rfl, hdest⟩)
    rw [hnil] at hmem
    exact absurd hmem (by simp)

theorem Staffed.drop (hs : v.Staffed) (b : ℕ) : (v.drop b).Staffed := by
  cases hr : v.roster b with
  | none =>
    rw [drop_of_none hr]
    exact hs
  | some r =>
    rw [drop_of_some hr]
    intro b' r' hr'
    have hr'' : Function.update v.roster b none b' = some r' := hr'
    rw [Function.update_apply] at hr''
    split at hr''
    · exact absurd hr'' (by simp)
    · exact hs b' r' hr''

end View

/-! ### Every effect -/

/-- A send request that would make a new external connection finds its address
pair free. -/
def NoClash (v : View) : Event → Prop
  | .internalPacket socket remote bytes =>
    ∀ c cn r ext data lk, v.connections { source := remote, dest := socket } = some c →
      v.conn c = some cn → v.roster cn.binding = some r → hasMagicCookie bytes = true →
      sendRequest r.username bytes = some (ext, data, lk) → v.externalFor cn.binding ext = none →
      v.connections { source := ext, dest := v.externalSocket } = none
  | _ => True

variable {v w : View} {e : Event} {out : List Output} {s : Server}

/-- Where the event comes from, in terms of the view. -/
def Arrives (v : View) : Event → Prop
  | .internalPacket socket _ _ => socket ∉ v.externalSockets
  | .externalPacket socket _ _ => socket ∈ v.externalSockets
  | _ => True

theorem Event.Enabled.arrives (h : e.Enabled s) : Arrives s.view e := by
  cases e with
  | internalPacket => exact h
  | externalPacket => exact h
  | lifetimeTimer => trivial
  | dispose => trivial

theorem Target.sound {b c : ℕ} {ext : SocketAddress} (h : Target v b ext w c out)
    (hv : v.Sound) {r : Roster} (hr : v.roster b = some r) : w.Sound := by
  cases h with
  | found => exact hv
  | made => exact hv.enter (View.enters_external List.mem_cons_self) hr

theorem Target.staffed {b c : ℕ} {ext : SocketAddress} (h : Target v b ext w c out)
    (hv : v.Staffed) {r : Roster} (hr : v.roster b = some r) : w.Staffed := by
  cases h with
  | found => exact hv
  | made => exact hv.enter (View.enters_external List.mem_cons_self) hr _

theorem Effect.sound (h : Effect v e w out) (hv : v.Sound) (ha : Arrives v e) : w.Sound := by
  cases h with
  | refused => exact hv
  | allocated username v₁ b out hnone hb _ =>
    rcases hb with ⟨hb, rfl⟩ | ⟨hb, rfl, rfl⟩
    · obtain ⟨r, hr, -⟩ := hv.named hb
      exact hv.enter (View.enters_internal ha) hr
    · exact (hv.openBinding hb).enter (View.enters_internal ha)
        (Function.update_self v.nextBinding _ v.roster)
  | answered => exact hv
  | forwarded => exact hv
  | requested c e cn r ext data lk v₁ _ _ _ _ _ hr _ _ ht =>
    have h₁ := ht.sound hv hr
    cases lk with
    | false => exact h₁
    | true => exact h₁.aim c ext
  | relayed e => exact hv.lock e
  | dropped => exact hv
  | @admitted socket remote _ username b out hnone hb _ =>
    obtain ⟨r, hr, -⟩ := hv.named hb
    have h₁ : (v.enterExternal b { source := remote, dest := socket } socket).Sound :=
      hv.enter (View.enters_external ha) hr
    exact h₁.lock _
  | checked => exact hv
  | disposed b => exact hv.drop b

theorem Effect.staffed (h : Effect v e w out) (hv : v.Sound) (hs : v.Staffed)
    (ha : Arrives v e) : w.Staffed := by
  cases h with
  | refused => exact hs
  | @allocated socket remote _ username v₁ b out hnone hb _ =>
    rcases hb with ⟨hb, rfl⟩ | ⟨hb, rfl, rfl⟩
    · obtain ⟨r, hr, -⟩ := hv.named hb
      exact hs.enter (View.enters_internal ha) hr _
    · exact hs.openBinding_enter (View.enters_internal ha) ha _ _
  | answered => exact hs
  | forwarded => exact hs
  | requested c e cn r ext data lk v₁ _ _ _ _ _ hr _ _ ht =>
    have h₁ := ht.staffed hs hr
    cases lk with
    | false => exact h₁
    | true => exact h₁
  | relayed e => exact hs
  | dropped => exact hs
  | @admitted socket remote _ username b out hnone hb _ =>
    obtain ⟨r, hr, -⟩ := hv.named hb
    have h₁ : (v.enterExternal b { source := remote, dest := socket } socket).Staffed :=
      hs.enter (View.enters_external ha) hr _
    exact h₁
  | checked => exact hs
  | disposed b => exact hs.drop b

theorem Effect.indexed (h : Effect v e w out) (hi : v.Indexed) (hn : NoClash v e) :
    w.Indexed := by
  have hlock : ∀ (u : View) c, u.Indexed → (u.lock c).Indexed := fun u c hu =>
    hu.modify (f := fun cn => { cn with locked := true }) fun _ => rfl
  cases h with
  | refused => exact hi
  | allocated username v₁ b out hnone hb _ =>
    rcases hb with ⟨hb, rfl⟩ | ⟨hb, rfl, rfl⟩
    · exact hi.enter hnone _
    · exact View.Indexed.enter (v := v.openBinding username) hi hnone _
  | answered => exact hi
  | forwarded => exact hi
  | requested c e cn r ext data lk v₁ _ _ _ hc hcn hr hcookie hreq ht =>
    have h₁ : v₁.Indexed := by
      cases ht with
      | found => exact hi
      | made _ hnone => exact hi.enter (hn c cn r ext data lk hc hcn hr hcookie hreq hnone) _
    cases lk with
    | false => exact h₁
    | true =>
      exact h₁.modify (f := fun cn => { cn with defaultDest := ext, locked := true }) fun _ => rfl
  | relayed e => exact hlock _ e hi
  | dropped => exact hi
  | admitted username b out hnone hb _ => exact hlock _ _ (hi.enter hnone _)
  | checked => exact hi
  | disposed b => exact hi.drop b

/-! ### Reachable states -/

/-- The servers that have just been started. -/
def IsStart (s : Server) : Prop := ∃ socket others, s = Server.start socket others

/-- One event that meets `ok`. -/
def Next (ok : View → Event → Prop) (s t : Server) : Prop :=
  ∃ env e, e.Enabled s ∧ ok s.view e ∧ t = step env e s

/-- The states of the runs in which every event meets `ok`. -/
def Reachable (ok : View → Event → Prop) : Server → Prop := Reach IsStart (Next ok)

theorem sound_start (socket : SocketAddress) (others : List SocketAddress) :
    (Server.start socket others).view.Sound := by
  constructor <;> intros <;> simp_all [Server.start, Server.view]

theorem Reachable.sound {ok : View → Event → Prop} (h : Reachable ok s) :
    s.view.Sound ∧ s.view.Staffed := by
  refine Reach.invariant (I := fun s => s.view.Sound ∧ s.view.Staffed) ?_ ?_ s h
  · rintro _ ⟨socket, others, rfl⟩
    exact ⟨sound_start socket others, fun b r hr => absurd hr (by simp [Server.start, Server.view])⟩
  · rintro s t - ⟨hs, hst⟩ ⟨env, e, hen, -, rfl⟩
    have heff := step_effect env e s
    exact ⟨heff.sound hs hen.arrives, heff.staffed hs hst hen.arrives⟩

end Jingle.Relay
