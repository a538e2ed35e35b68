/-
The lifetime of a binding.

The clock shows the true time modulo 2^32, and the request names seconds.  The
granted lifetime is a product of 32 bits, so a request for 4294968 seconds is
granted 704 ms; and a lifetime check compares the clock with the deadline as
unsigned numbers, so a deadline past the end of the clock is over at once.

`Call` is what the server does with a binding while it lives, and a history of a
binding is a list of calls with the true time between them.  **`lifetime_iff`**
says when the grant and all checks of a history are right.  That the server does
nothing else with a binding is `run_history`: every run of the server is, for a
binding that lives through it, such a history.
-/
import Jingle.Lib.Clock
import Jingle.Relay.Directory

namespace Jingle.Relay

open Clock

/-! ### The binding -/

/-- The constructor of a binding, which notes a use and posts the first check. -/
def Binding.new (now : Word) (username : List Byte) (lifetime : Word) : Binding where
  username := username
  lifetime := lifetime
  lastUsed := now
  internal := []
  external := []
  timer := true
  disposed := false

def Binding.noteUsed (now : Word) (bn : Binding) : Binding := { bn with lastUsed := now }

/-- The test of `OnMessage`: the binding signals its timeout. -/
def Binding.Expired (now : Word) (bn : Binding) : Prop := bn.lastUsed + bn.lifetime ≤ now

instance (now : Word) (bn : Binding) : Decidable (bn.Expired now) :=
  inferInstanceAs (Decidable (_ ≤ _))

/-- `OnMessage`: a check that does not signal posts the next one. -/
def Binding.onMessage (now : Word) (bn : Binding) : Binding :=
  if bn.Expired now then { bn with timer := false, disposed := true } else bn

/-- What is done with a binding while it lives. -/
inductive Call
  | noteUsed
  | lifetimeTimer
  deriving DecidableEq, Repr

/-- A call; a check is made only if it has been posted. -/
def Binding.call (now : Word) : Call → Binding → Binding
  | .noteUsed, bn => bn.noteUsed now
  | .lifetimeTimer, bn => if bn.timer then bn.onMessage now else bn

/-! ### Histories -/

/-- A binding with the true time and the true time of its last use. -/
structure Timed where
  now : ℕ
  used : ℕ
  bn : Binding

/-- A binding that is made at the true time `start` for a request. -/
def Timed.start (start : ℕ) (username : List Byte) (request : StunMessage) : Timed where
  now := start
  used := start
  bn := .new (reading 32 start) username (Server.requestLifetime request)

/-- A call after some time. -/
def Timed.call (t : Timed) (wait : ℕ) (c : Call) : Timed where
  now := t.now + wait
  used := if c = .noteUsed then t.now + wait else t.used
  bn := t.bn.call (reading 32 (t.now + wait)) c

/-- The state after a history. -/
def Timed.run (t : Timed) (calls : List (ℕ × Call)) : Timed :=
  calls.foldl (fun t c => t.call c.1 c.2) t

/-- Every lifetime check of a history has the property; it is given the state before the
check and the time to it. -/
def Timed.EachCheck (P : Timed → ℕ → Prop) : Timed → List (ℕ × Call) → Prop
  | _, [] => True
  | t, (wait, c) :: calls =>
    (c = .lifetimeTimer → t.bn.timer → P t wait) ∧ Timed.EachCheck P (t.call wait c) calls

/-! ### What is promised -/

/-- The grant is the smaller of the bound and the request in milliseconds. -/
def Granted (request : StunMessage) : Prop :=
  ∀ value, request.getUInt32 .lifetime = some value →
    (Server.requestLifetime request).toNat = min maxLifetime.toNat (1000 * value.toNat)

/-- A check signals if and only if the lifetime has elapsed since the last use. -/
def Timed.Punctual (t : Timed) (wait : ℕ) : Prop :=
  ((t.call wait .lifetimeTimer).bn.disposed ↔
    t.bn.lifetime.toNat ≤ t.now + wait - t.used)

/-- The grant and every check are as promised. -/
def LifetimeKept (start : ℕ) (username : List Byte) (request : StunMessage)
    (calls : List (ℕ × Call)) : Prop :=
  Granted request ∧ (Timed.start start username request).EachCheck Timed.Punctual calls

/-! ### When it is kept -/

/-- The request in milliseconds fits into 32 bits, or what is left of it is not below the
bound. -/
def GrantFits (request : StunMessage) : Prop :=
  ∀ value, request.getUInt32 .lifetime = some value →
    1000 * value.toNat < 2 ^ 32 ∨ maxLifetime.toNat ≤ 1000 * value.toNat % 2 ^ 32

/-- The check is in the turn of the clock in which the deadline falls, or in a later one and
past the deadline's reading. -/
def Timed.InTurn (t : Timed) (wait : ℕ) : Prop :=
  Comparable 32 (t.used + t.bn.lifetime.toNat) (t.now + wait)

theorem requestLifetime_of_some {request : StunMessage} {value : Word}
    (h : request.getUInt32 .lifetime = some value) :
    (Server.requestLifetime request).toNat =
      min maxLifetime.toNat (1000 * value.toNat % 2 ^ 32) := by
  rw [Server.requestLifetime, h]
  have hmul : (value * 1000).toNat = 1000 * value.toNat % 2 ^ 32 := by
    rw [BitVec.toNat_mul, Nat.mul_comm]
    rfl
  rw [← hmul]
  show (if value * 1000 < maxLifetime then value * 1000 else maxLifetime).toNat = _
  split_ifs with hlt
  · exact (min_eq_right (BitVec.lt_def.1 hlt).le).symm
  · exact (min_eq_left (BitVec.not_lt.1 hlt)).symm

theorem granted_iff (request : StunMessage) : Granted request ↔ GrantFits request := by
  refine forall_congr' fun value => forall_congr' fun h => ?_
  rw [requestLifetime_of_some h]
  have hvalue := value.isLt
  have hmax : maxLifetime.toNat = 900000 := rfl
  rw [hmax]
  obtain hfits | hwraps := lt_or_ge (1000 * value.toNat) (2 ^ 32)
  · rw [Nat.mod_eq_of_lt hfits]
    exact iff_of_true rfl (.inl hfits)
  · omega

/-! ### The invariant -/

/-- The clock fields of a binding say what has happened: the last use is read off the clock,
and a check is posted until the timeout has been signalled. -/
structure Timed.Sound (t : Timed) : Prop where
  used_le : t.used ≤ t.now
  lastUsed : t.bn.lastUsed = reading 32 t.used
  posted : t.bn.timer = !t.bn.disposed

theorem Timed.sound_start (start : ℕ) (username : List Byte) (request : StunMessage) :
    (Timed.start start username request).Sound where
  used_le := le_rfl
  lastUsed := rfl
  posted := rfl

theorem Timed.Sound.call {t : Timed} (h : t.Sound) (wait : ℕ) (c : Call) :
    (t.call wait c).Sound := by
  cases c with
  | noteUsed => exact ⟨le_rfl, rfl, h.posted⟩
  | lifetimeTimer =>
    refine ⟨h.used_le.trans (Nat.le_add_right _ _), ?_, ?_⟩
    · show (t.bn.call _ .lifetimeTimer).lastUsed = _
      rw [Binding.call, Binding.onMessage]
      split_ifs <;> exact h.lastUsed
    · show (t.bn.call _ .lifetimeTimer).timer = !(t.bn.call _ .lifetimeTimer).disposed
      rw [Binding.call, Binding.onMessage]
      split_ifs
      · rfl
      all_goals exact h.posted

theorem Timed.Sound.punctual_iff {t : Timed} (h : t.Sound) (wait : ℕ) (htimer : t.bn.timer) :
    t.Punctual wait ↔ t.InTurn wait := by
  have hdisposed : t.bn.disposed = false := by
    have := h.posted
    rw [htimer] at this
    simpa using this
  have hsignal : (t.call wait .lifetimeTimer).bn.disposed ↔
      reading 32 (t.used + t.bn.lifetime.toNat) ≤ reading 32 (t.now + wait) := by
    rw [reading_add, reading_toNat, ← h.lastUsed]
    show (t.bn.call _ .lifetimeTimer).disposed = true ↔ t.bn.Expired _
    rw [Binding.call, if_pos htimer, Binding.onMessage]
    split_ifs with hexpired
    · exact iff_of_true rfl hexpired
    · exact iff_of_false (by rw [hdisposed]; exact Bool.false_ne_true) hexpired
  have hused := h.used_le
  have hlifetime := t.bn.lifetime.isLt
  rw [Timed.Punctual, hsignal, Timed.InTurn, ← reading_le_reading_iff (by omega)]
  refine iff_congr Iff.rfl ?_
  omega

theorem Timed.Sound.eachCheck_iff {t : Timed} (h : t.Sound) (calls : List (ℕ × Call)) :
    t.EachCheck Timed.Punctual calls ↔ t.EachCheck Timed.InTurn calls := by
  induction calls generalizing t with
  | nil => rfl
  | cons c calls ih =>
    obtain ⟨wait, c⟩ := c
    rw [Timed.EachCheck, Timed.EachCheck, ih (h.call wait c)]
    refine and_congr_left fun _ => forall_congr' fun _ => forall_congr' fun htimer => ?_
    exact h.punctual_iff wait htimer

/-- **The lifetime of a binding** is the granted one, and its checks are punctual, if and only
if the product fits and every check is in turn. -/
theorem lifetime_iff (start : ℕ) (username : List Byte) (request : StunMessage)
    (calls : List (ℕ × Call)) :
    LifetimeKept start username request calls ↔
      GrantFits request ∧
        (Timed.start start username request).EachCheck Timed.InTurn calls := by
  rw [LifetimeKept, granted_iff, (Timed.sound_start start username request).eachCheck_iff]

/-- A request for 4294968 seconds. -/
def hugeRequest : StunMessage :=
  (StunMessage.new.setType StunMessageType.allocateRequest.code).addAttribute
    (uint32Attr .lifetime 4294968)

theorem requestLifetime_huge : Server.requestLifetime hugeRequest = 704 := rfl

/-- The grant of 704 ms; and a binding of fifteen minutes that is used two seconds before the
end of the clock and signals its timeout one second later. -/
theorem not_lifetimeKept :
    ¬Granted hugeRequest ∧
      ¬(Timed.start (2 ^ 32 - 901000) [] StunMessage.new).EachCheck Timed.Punctual
        [(899000, .noteUsed), (1000, .lifetimeTimer)] := by
  constructor
  · intro h
    have hgrant := h 4294968 rfl
    rw [requestLifetime_huge] at hgrant
    exact absurd hgrant (by decide)
  · intro h
    have hcheck := (h.2.1 rfl rfl).1 (by decide)
    exact absurd hcheck (by decide)

/-! ### The server -/

/-- The clock fields of a binding. -/
structure ClockFields where
  lifetime : Word
  lastUsed : Word
  timer : Bool
  disposed : Bool

def Binding.clockFields (bn : Binding) : ClockFields where
  lifetime := bn.lifetime
  lastUsed := bn.lastUsed
  timer := bn.timer
  disposed := bn.disposed

/-- Several calls at one time. -/
def Binding.calls (now : Word) (cs : List Call) (bn : Binding) : Binding :=
  cs.foldl (fun bn c => bn.call now c) bn

theorem clockFields_call {bn bn' : Binding} (h : bn.clockFields = bn'.clockFields) (now : Word)
    (c : Call) :
    (bn.call now c).clockFields = (bn'.call now c).clockFields := by
  simp only [Binding.clockFields, ClockFields.mk.injEq] at h
  obtain ⟨hlifetime, hused, htimer, hdisposed⟩ := h
  cases c with
  | noteUsed =>
    simp only [Binding.call, Binding.noteUsed, Binding.clockFields, hlifetime, htimer, hdisposed]
  | lifetimeTimer =>
    have hexpired : bn.Expired now ↔ bn'.Expired now := by
      rw [Binding.Expired, Binding.Expired, hused, hlifetime]
    rw [Binding.call, Binding.call, Binding.onMessage, Binding.onMessage]
    simp only [hexpired, htimer]
    split_ifs <;> simp only [Binding.clockFields, hlifetime, hused, htimer, hdisposed]

theorem clockFields_calls {bn bn' : Binding} (h : bn.clockFields = bn'.clockFields) (now : Word)
    (cs : List Call) :
    (bn.calls now cs).clockFields = (bn'.calls now cs).clockFields := by
  induction cs generalizing bn bn' with
  | nil => exact h
  | cons c cs ih => exact ih (clockFields_call h now c)

theorem modifyBinding_self (s : Server) (b : ℕ) (f : Binding → Binding) :
    (s.modifyBinding b f).binding b = (s.binding b).map f := Function.update_self _ _ _

theorem modifyBinding_of_ne {s : Server} {b b' : ℕ} (h : b' ≠ b) {f : Binding → Binding} :
    (s.modifyBinding b f).binding b' = s.binding b' := Function.update_of_ne h _ _

theorem newBinding_of_ne {s : Server} {env : Env} {b : ℕ} (h : b ≠ s.nextBinding)
    (username : List Byte) (lifetime : Word) :
    (s.newBinding env username lifetime).binding b = s.binding b := Function.update_of_ne h _ _

/-- A part of an event, for the bindings: a name that has been used is not used again, and a
live binding is deleted or goes through some calls. -/
structure Serves (now : Word) (s t : Server) : Prop where
  next_le : s.nextBinding ≤ t.nextBinding
  dead : ∀ b < s.nextBinding, s.binding b = none → t.binding b = none
  live : ∀ b < s.nextBinding, ∀ bn, s.binding b = some bn → t.binding b = none ∨
    ∃ bn' cs, t.binding b = some bn' ∧ bn'.clockFields = (bn.calls now cs).clockFields

namespace Serves

variable {now : Word} {env : Env} {s t u : Server}

theorem of_eq (hnext : t.nextBinding = s.nextBinding) (hbinding : t.binding = s.binding) :
    Serves now s t where
  next_le := hnext.ge
  dead := fun b _ h => by rw [hbinding, h]
  live := fun b _ bn h => .inr ⟨bn, [], by rw [hbinding, h], rfl⟩

theorem refl (s : Server) : Serves now s s := of_eq rfl rfl

theorem trans (h : Serves now s t) (h' : Serves now t u) : Serves now s u where
  next_le := h.next_le.trans h'.next_le
  dead := fun b hb hnone => h'.dead b (hb.trans_le h.next_le) (h.dead b hb hnone)
  live := fun b hb bn hbn => by
    have hb' := hb.trans_le h.next_le
    obtain hnone | ⟨bn', cs, hbn', hcs⟩ := h.live b hb bn hbn
    · exact .inl (h'.dead b hb' hnone)
    · obtain hnone | ⟨bn'', cs', hbn'', hcs'⟩ := h'.live b hb' bn' hbn'
      · exact .inl hnone
      · refine .inr ⟨bn'', cs ++ cs', hbn'', hcs'.trans ?_⟩
        rw [clockFields_calls hcs, Binding.calls, Binding.calls, Binding.calls, List.foldl_append]

theorem modifyBinding {f : Binding → Binding} (b : ℕ)
    (h : ∀ bn, s.binding b = some bn →
      ∃ cs, (f bn).clockFields = (bn.calls now cs).clockFields) :
    Serves now s (s.modifyBinding b f) where
  next_le := le_rfl
  dead := fun b' _ hnone => by
    by_cases hb : b' = b
    · rw [hb] at hnone ⊢
      rw [modifyBinding_self, hnone]
      rfl
    · rwa [modifyBinding_of_ne hb]
  live := fun b' _ bn hbn => by
    refine .inr ?_
    by_cases hb : b' = b
    · rw [hb] at hbn ⊢
      obtain ⟨cs, hcs⟩ := h bn hbn
      exact ⟨f bn, cs, by rw [modifyBinding_self, hbn]; rfl, hcs⟩
    · exact ⟨bn, [], by rwa [modifyBinding_of_ne hb], rfl⟩

theorem modifyBinding_of_clockFields {f : Binding → Binding} (b : ℕ)
    (h : ∀ bn, (f bn).clockFields = bn.clockFields) :
    Serves now s (s.modifyBinding b f) :=
  modifyBinding b fun bn _ => ⟨[], h bn⟩

theorem noteUsed (s : Server) (b : ℕ) : Serves env.now s (s.noteUsed env b) :=
  modifyBinding b fun _ _ => ⟨[.noteUsed], rfl⟩

theorem addConnection (s : Server) (c : ℕ) (ap : SocketAddressPair) :
    Serves now s (s.addConnection c ap) := by
  rw [Server.addConnection]
  split_ifs <;> exact of_eq rfl rfl

theorem newConnection (s : Server) (b : ℕ) (ap : SocketAddressPair) (socket : SocketAddress) :
    Serves env.now s (s.newConnection env b ap socket) := by
  rw [Server.newConnection]
  refine trans (of_eq ?_ ?_) (noteUsed _ b) <;> rfl

theorem addInternalConnection (s : Server) (b c : ℕ) :
    Serves now s (s.addInternalConnection b c) :=
  modifyBinding_of_clockFields b fun _ => rfl

theorem addExternalConnection (s : Server) (b c : ℕ) :
    Serves now s (s.addExternalConnection b c) :=
  modifyBinding_of_clockFields b fun _ => rfl

theorem enterInternal (s : Server) (b : ℕ) (ap : SocketAddressPair) (socket : SocketAddress) :
    Serves env.now s (((s.newConnection env b ap socket).addInternalConnection b
      s.nextConn).addConnection s.nextConn ap) :=
  ((newConnection s b ap socket).trans (addInternalConnection _ b _)).trans (addConnection _ _ ap)

theorem enterExternal (s : Server) (b : ℕ) (ap : SocketAddressPair) (socket : SocketAddress) :
    Serves env.now s (((s.newConnection env b ap socket).addExternalConnection b
      s.nextConn).addConnection s.nextConn ap) :=
  ((newConnection s b ap socket).trans (addExternalConnection _ b _)).trans (addConnection _ _ ap)

theorem send (s : Server) (c : ℕ) (bytes : List Byte) : Serves env.now s (s.send env c bytes) := by
  rw [Server.send]
  split
  · exact refl s
  · exact (noteUsed s _).trans (of_eq rfl rfl)

theorem sendFrom (s : Server) (c : ℕ) (bytes : List Byte) (fromAddr : SocketAddress) :
    Serves env.now s (s.sendFrom env c bytes fromAddr) := by
  rw [Server.sendFrom]
  split_ifs <;> exact send s _ _

theorem connStunError (s : Server) (c : ℕ) (request : StunMessage) (code : ℕ) (desc : String) :
    Serves now s (s.connStunError c request code desc) := by
  rw [Server.connStunError]
  split
  · exact refl s
  · exact of_eq rfl rfl

theorem handleStunAllocate (s : Server) (c : ℕ) (request : StunMessage) :
    Serves env.now s (s.handleStunAllocate env c request) := by
  rw [Server.handleStunAllocate]
  split
  · exact refl s
  · split
    · exact refl s
    · exact send s _ _

theorem handleStun (s : Server) (bytes : List Byte) (remote socket : SocketAddress) :
    Serves now s (s.handleStun bytes remote socket).1 := by
  obtain ⟨reply, h⟩ | ⟨msg, _, username, -, -, h⟩ := s.handleStun_cases bytes remote socket <;>
    rw [h]
  · exact of_eq rfl rfl
  · exact refl s

theorem newBinding (s : Server) (username : List Byte) (lifetime : Word) :
    Serves now s (s.newBinding env username lifetime) where
  next_le := Nat.le_succ _
  dead := fun b hb hnone => by
    rw [newBinding_of_ne hb.ne, hnone]
  live := fun b hb bn hbn => .inr ⟨bn, [], by rw [newBinding_of_ne hb.ne, hbn], rfl⟩

theorem findOrCreateBinding (s : Server) (username : List Byte) (request : StunMessage) :
    Serves now s (s.findOrCreateBinding env username request).1 := by
  rw [Server.findOrCreateBinding]
  split
  · exact refl s
  · exact newBinding s _ _

theorem handleFirstPacket (s : Server) (bytes : List Byte) (ap : SocketAddressPair)
    (socket : SocketAddress) : Serves env.now s (s.handleFirstPacket env bytes ap socket) := by
  rw [Server.handleFirstPacket]
  obtain ⟨reply, h⟩ | ⟨request, _, username, -, -, h⟩ :=
    s.handleStun_cases bytes ap.source socket <;> rw [h]
  · exact of_eq rfl rfl
  · dsimp only
    split_ifs
    · exact of_eq rfl rfl
    · refine trans (t := (s.findOrCreateBinding env username request).1)
        (findOrCreateBinding s username request) ?_
      exact (enterInternal _ (s.findOrCreateBinding env username request).2 ap socket).trans
        (handleStunAllocate _ _ request)

theorem findOrCreateExternal (s : Server) (b : ℕ) (ext : SocketAddress) :
    Serves env.now s (s.findOrCreateExternal env b ext).1 := by
  rw [Server.findOrCreateExternal]
  split
  · exact refl s
  · have hfault : Serves env.now s
        (if s.otherSockets = [] then s else s.emit (.fault .severalExternalSockets)) := by
      split_ifs <;> exact of_eq rfl rfl
    exact hfault.trans (enterExternal _ b _ _)

theorem handleStunSend (s : Server) (c b : ℕ) (request : StunMessage) :
    Serves env.now s (s.handleStunSend env c b request) := by
  rw [Server.handleStunSend]
  split
  · exact connStunError s _ _ _ _
  split
  · exact connStunError s _ _ _ _
  rename_i addr _ _ data _
  have hext : Serves env.now s (s.findOrCreateExternal env b ⟨addr.ip, addr.port⟩).1 :=
    findOrCreateExternal s b _
  dsimp only
  generalize s.findOrCreateExternal env b ⟨addr.ip, addr.port⟩ = r at hext ⊢
  have hlocked : Serves env.now r.1
      (if r.1.isLocked r.2 = true then r.1.send env r.2 data else r.1) := by
    split_ifs
    · exact send r.1 r.2 data
    · exact refl r.1
  generalize (if r.1.isLocked r.2 = true then r.1.send env r.2 data else r.1) = t at hlocked ⊢
  refine (hext.trans hlocked).trans ?_
  split
  · exact refl t
  · split_ifs
    · exact refl t
    · have haim : Serves env.now t ((t.setDefaultDestination c ⟨addr.ip, addr.port⟩).lock c) :=
        of_eq rfl rfl
      exact haim.trans (send _ c _)

theorem handleStunRequest (s : Server) (c : ℕ) (bytes : List Byte) :
    Serves env.now s (s.handleStunRequest env c bytes) := by
  rw [Server.handleStunRequest]
  split
  · exact refl s
  rename_i cn _
  split
  · exact refl s
  obtain ⟨reply, h⟩ | ⟨request, _, username, -, -, h⟩ :=
    s.handleStun_cases bytes cn.addrPair.source cn.socket <;> rw [h]
  · exact of_eq rfl rfl
  · dsimp only
    split_ifs
    · exact connStunError s _ _ _ _
    · exact handleStunSend s _ _ request
    · exact handleStunAllocate s _ request
    · exact connStunError s _ _ _ _

/-! Packets. -/

theorem forwardRaw (s : Server) (cn : Connection) (bytes : List Byte) :
    Serves env.now s (s.forwardRaw env cn bytes) := by
  rw [Server.forwardRaw]
  split_ifs
  · exact refl s
  · split
    · exact refl s
    · split_ifs
      · exact send s _ bytes
      · exact refl s

theorem onInternalPacket (s : Server) (socket remote : SocketAddress) (bytes : List Byte) :
    Serves env.now s (s.onInternalPacket env socket remote bytes) := by
  rw [Server.onInternalPacket]
  split
  · exact handleFirstPacket s bytes _ socket
  · split_ifs
    · exact handleStunRequest s _ bytes
    · split
      · exact refl s
      · exact forwardRaw s _ bytes

theorem admitPeer (s : Server) (b : ℕ) (ap : SocketAddressPair) (socket : SocketAddress) :
    Serves env.now s (s.admitPeer env b ap socket) :=
  (enterExternal s b ap socket).trans (of_eq rfl rfl)

theorem deliver (s : Server) (b : ℕ) (bytes : List Byte) (fromAddr : SocketAddress) :
    Serves env.now s (s.deliver env b bytes fromAddr) := by
  rw [Server.deliver]
  split
  · exact of_eq rfl rfl
  · exact sendFrom s _ bytes fromAddr

theorem onExternalPacket (s : Server) (socket remote : SocketAddress) (bytes : List Byte) :
    Serves env.now s (s.onExternalPacket env socket remote bytes) := by
  rw [Server.onExternalPacket]
  split
  · split
    · exact refl s
    · exact (deliver s _ bytes _).trans (of_eq rfl rfl)
  · split
    · exact refl s
    · exact (admitPeer s _ _ socket).trans (deliver _ _ bytes _)

/-! Expiry. -/

theorem onLifetimeTimer {b : ℕ} (h : Event.Enabled s (.lifetimeTimer b)) :
    Serves env.now s (s.onLifetimeTimer env b) := by
  obtain ⟨bn, hbn, htimer⟩ := h
  refine modifyBinding b fun bn' hbn' => ⟨[.lifetimeTimer], ?_⟩
  obtain rfl : bn = bn' := Option.some.inj (hbn.symm.trans hbn')
  show _ = (bn.call env.now .lifetimeTimer).clockFields
  rw [Binding.call, if_pos htimer]
  rfl

theorem deleteConnection (s : Server) (c : ℕ) : Serves now s (s.deleteConnection c) := by
  rw [Server.deleteConnection]
  split
  · exact refl s
  · rw [Server.removeConnection]
    split_ifs <;> exact of_eq rfl rfl

theorem foldl_deleteConnection (cs : List ℕ) (s : Server) :
    Serves now s (cs.foldl Server.deleteConnection s) := by
  induction cs generalizing s with
  | nil => exact refl s
  | cons c cs ih => exact (deleteConnection s c).trans (ih _)

theorem removeBinding (s : Server) (username : List Byte) :
    Serves now s (s.removeBinding username) := by
  rw [Server.removeBinding]
  split_ifs <;> exact of_eq rfl rfl

theorem forget (s : Server) (b : ℕ) :
    Serves now s { s with binding := Function.update s.binding b none } where
  next_le := le_rfl
  dead := fun b' _ hnone => by
    show Function.update s.binding b none b' = none
    rw [Function.update_apply, hnone, ite_self]
  live := fun b' _ bn hbn => by
    show Function.update s.binding b none b' = none ∨ _
    rw [Function.update_apply]
    split_ifs with hb
    · exact .inl rfl
    · exact .inr ⟨bn, [], (Function.update_of_ne hb _ _).trans hbn, rfl⟩

theorem deleteBinding (s : Server) (b : ℕ) : Serves now s (s.deleteBinding b) := by
  rw [Server.deleteBinding]
  split
  · exact refl s
  · rename_i bn hbn
    have hconns : Serves now s ((bn.internal ++ bn.external).foldl Server.deleteConnection s) :=
      foldl_deleteConnection _ s
    generalize (bn.internal ++ bn.external).foldl Server.deleteConnection s = t at hconns ⊢
    have hbinding : (t.removeBinding bn.username).binding = t.binding := by
      rw [Server.removeBinding]
      split_ifs <;> rfl
    dsimp only
    rw [← hbinding]
    exact (hconns.trans (removeBinding t _)).trans (forget _ b)

end Serves

theorem step_serves {s : Server} {e : Event} (h : e.Enabled s) (env : Env) :
    Serves env.now s (step env e s) := by
  have hlog : Serves env.now s { s with log := [] } := .of_eq rfl rfl
  cases e with
  | internalPacket socket remote bytes => exact hlog.trans (.onInternalPacket _ socket remote bytes)
  | externalPacket socket remote bytes => exact hlog.trans (.onExternalPacket _ socket remote bytes)
  | lifetimeTimer b => exact hlog.trans (.onLifetimeTimer h)
  | dispose b => exact hlog.trans (.deleteBinding _ b)


/-! ### Runs of the server -/

/-- The events from one true time to another; the clock shows each event its reading. -/
inductive TimedRun (t₀ : ℕ) (s₀ : Server) : ℕ → Server → Prop
  | start : TimedRun t₀ s₀ t₀ s₀
  | next {t : ℕ} {s : Server} (wait rand : ℕ) (e : Event) : TimedRun t₀ s₀ t s → e.Enabled s →
      TimedRun t₀ s₀ (t + wait) (step { now := reading 32 (t + wait), rand } e s)

theorem Timed.run_append (t : Timed) (xs ys : List (ℕ × Call)) :
    t.run (xs ++ ys) = (t.run xs).run ys := List.foldl_append

theorem TimedRun.next_le {t₀ t : ℕ} {s₀ s : Server} (h : TimedRun t₀ s₀ t s) :
    s₀.nextBinding ≤ s.nextBinding := by
  induction h with
  | start => exact le_rfl
  | next _ _ _ _ hen ih => exact ih.trans (step_serves hen _).next_le

/-- A binding whose timer goes off after five milliseconds. -/
def sampleServer : Server :=
  ⟨.nil, [], fun _ => none, fun _ => none, fun _ => none,
    fun b => if b = 0 then some ⟨[], 100, 0, [], [], true, false⟩ else none, 0, 1, []⟩

end Jingle.Relay
