/-
When a connection deletes itself.

`CheckTimeout` posts the message when both directions have timed out, and
`OnMessage` deletes the connection without looking at it again.  A message that
arrives in between can bring the connection back, and it is deleted all the
same.  `Revives` says which events do that to a connection that has timed out;
`live_never_deleted` says that a connection is deleted in time exactly as long
as none of them happens while a deletion is posted.
-/
import Jingle.P2p.Connection
import Jingle.Lib.Reach

namespace Jingle.P2p

namespace Connection

/-- What can happen to a connection.  `deliver` is the message that deletes it. -/
inductive Event
  | packet (data : List Byte) (now : Word)
  | receivedPing (now : Word)
  | prune
  | destroy
  | updateState (now : Word)
  | ping (id : List Byte) (now : Word)
  | requestMessage (id : List Byte) (now : Word)
  | connect
  | close
  | deliver

/-- A connection of a port with this username fragment after an event; there is
none after its deletion. -/
def step (usernameFrag : List Byte) (c : Connection) : Event → Option Connection
  | .packet data now => some (c.onReadPacket usernameFrag data now).conn
  | .receivedPing now => some (c.receivedPing now)
  | .prune => some c.prune
  | .destroy => some c.destroy
  | .updateState now => some (c.updateState now)
  | .ping id now => some (c.ping id now)
  | .requestMessage id now => some (c.onRequestMessage id now)
  | .connect => some c.onConnect
  | .close => some c.onClose
  | .deliver => if 0 < c.deletes then none else some c

/-- **What the deletion is for**: only a connection that has timed out both ways
goes away. -/
def DeletedInTime (usernameFrag : List Byte) (c : Connection) : Prop :=
  c.step usernameFrag .deliver = none → c.TimedOut

/-- The events that bring a connection back that has timed out: a valid ping, or
the answer to one of its own. -/
def Revives (usernameFrag : List Byte) (c : Connection) : Event → Prop
  | .packet data _ =>
    match getStunMessage usernameFrag data with
    | .message msg remoteUsername =>
      remoteUsername = c.remoteCandidate.username ∧
        if msg.type = StunMessageType.bindingRequest.code then
          (msg.getByteString .username).isSome ∨ c.pruned = false
        else
          msg.type = StunMessageType.bindingResponse.code ∧
            ∃ request ∈ c.requests, request.id = msg.transactionId
    | _ => False
  | .receivedPing _ => True
  | _ => False

/-- No event revives the connection while its deletion is posted. -/
def Meets (usernameFrag : List Byte) (c : Connection) (e : Event) : Prop :=
  0 < c.deletes → ¬c.Revives usernameFrag e

/-- One event under that condition. -/
def Next (usernameFrag : List Byte) (c d : Connection) : Prop :=
  ∃ e, c.Meets usernameFrag e ∧ c.step usernameFrag e = some d

/-! ### The invariant -/

/-- A deletion is posted only for a connection that has timed out. -/
def Sound (c : Connection) : Prop := 0 < c.deletes → c.TimedOut

theorem deletedInTime_iff {frag : List Byte} {c : Connection} :
    c.DeletedInTime frag ↔ c.Sound := by
  rw [DeletedInTime, step, Sound]
  split <;> simp_all

section Setters

variable {c : Connection} {r : ReadState} {w : WriteState}

theorem checkTimeout_deletes (h : ¬c.TimedOut) : c.checkTimeout.deletes = c.deletes := by
  rw [checkTimeout, if_neg h]

theorem deletes_le_checkTimeout : c.deletes ≤ c.checkTimeout.deletes := by
  rw [checkTimeout]
  split
  · exact Nat.le_succ _
  · exact le_rfl

theorem deletes_le_setWriteState : c.deletes ≤ (c.setWriteState w).deletes := by
  rw [setWriteState]
  split
  · exact (deletes_le_checkTimeout (c := { c with writeState := w }))
  · exact le_rfl

theorem setReadState_deletes (h : r = .readable) : (c.setReadState r).deletes = c.deletes := by
  rw [setReadState]
  split
  · exact checkTimeout_deletes fun ht => by
      simp only [TimedOut] at ht
      rw [h] at ht
      cases ht.1
  · rfl

theorem setWriteState_deletes (h : w ≠ .writeTimeout) :
    (c.setWriteState w).deletes = c.deletes := by
  rw [setWriteState]
  split
  · exact checkTimeout_deletes fun ht => h ht.2
  · rfl

theorem Sound.checkTimeout (h : c.deletes = 0 ∨ c.TimedOut) : c.checkTimeout.Sound := by
  intro hpos
  rw [Connection.checkTimeout] at hpos ⊢
  split at hpos
  · next ht => rwa [if_pos ht]
  · next ht => exact absurd hpos (by rw [h.resolve_right ht]; omega)

theorem Sound.setReadState (h : c.Sound) (hr : 0 < c.deletes → r = .readTimeout) :
    (c.setReadState r).Sound := by
  rw [Connection.setReadState]
  split
  · refine .checkTimeout ?_
    rcases Nat.eq_zero_or_pos c.deletes with h0 | hpos
    · exact .inl h0
    · exact .inr ⟨hr hpos, (h hpos).2⟩
  · exact h

theorem Sound.setWriteState (h : c.Sound) (hw : 0 < c.deletes → w = .writeTimeout) :
    (c.setWriteState w).Sound := by
  rw [Connection.setWriteState]
  split
  · refine .checkTimeout ?_
    rcases Nat.eq_zero_or_pos c.deletes with h0 | hpos
    · exact .inl h0
    · exact .inr ⟨(h hpos).1, hw hpos⟩
  · exact h

end Setters

/-! ### One event -/

section Step

variable {c : Connection} {frag : List Byte}

@[simp] theorem receivedPing_deletes (now : Word) : (c.receivedPing now).deletes = c.deletes := by
  rw [receivedPing, setReadState_deletes rfl]

@[simp] theorem receivedPing_readState (now : Word) :
    (c.receivedPing now).readState = .readable := by
  rw [receivedPing, setReadState_readState]

@[simp] theorem receivedPing_writeState (now : Word) :
    (c.receivedPing now).writeState = c.writeState := by
  rw [receivedPing, setReadState_writeState]

theorem retryWriting_deletes : c.retryWriting.deletes = c.deletes := by
  rw [retryWriting]
  split
  · exact setWriteState_deletes (by decide)
  · rfl

theorem retryWriting_readState : c.retryWriting.readState = c.readState := by
  rw [retryWriting]
  split <;> simp

theorem Sound.of_deletes (h : c.deletes = 0) : c.Sound := fun hpos => by omega

theorem Sound.updateState (h : c.Sound) (now : Word) : (c.updateState now).Sound := by
  have h₁ : (c.updateReadState now).Sound := by
    rw [Connection.updateReadState]
    split
    · exact h.setReadState fun _ => rfl
    · exact h
  have h₂ : ((c.updateReadState now).updateWritable now).Sound := by
    rw [Connection.updateWritable]
    split
    · next hw => exact h₁.setWriteState fun hpos => by simp [(h₁ hpos).2] at hw
    · exact h₁
  rw [Connection.updateState, Connection.updateConnect]
  split
  · exact h₂.setWriteState fun _ => rfl
  · exact h₂

theorem Sound.destroy (h : c.Sound) : c.destroy.Sound :=
  (h.setReadState fun _ => rfl).setWriteState fun _ => rfl

theorem Sound.prune (h : c.Sound) : c.prune.Sound := by
  rw [Connection.prune]
  split
  · exact Sound.setWriteState h fun _ => rfl
  · exact h

theorem Sound.onClose (h : c.Sound) : c.onClose.Sound :=
  Sound.setWriteState (c := { c with connected := false }) h fun _ => rfl

theorem Sound.onRequestMessage (h : c.Sound) (id : List Byte) (now : Word) :
    (c.onRequestMessage id now).Sound := by
  rw [Connection.onRequestMessage]
  split
  · exact h
  · split <;> exact h

theorem checkResponse_cases (msg : StunMessage) (now : Word) :
    (msg.type = StunMessageType.bindingResponse.code ∧
        (∃ request ∈ c.requests, request.id = msg.transactionId) ∧
        (c.checkResponse msg now).deletes = c.deletes ∧
        (c.checkResponse msg now).writeState = .writable) ∨
      (¬(msg.type = StunMessageType.bindingResponse.code ∧
          ∃ request ∈ c.requests, request.id = msg.transactionId) ∧
        (c.Sound → (c.checkResponse msg now).Sound)) := by
  have hres : (getStunResponseType StunMessageType.bindingRequest.code).code =
      StunMessageType.bindingResponse.code := by decide
  rcases hf : c.requests.find? fun request => request.id = msg.transactionId with _ | request <;>
    simp only [checkResponse, hf, hres]
  · refine .inr ⟨?_, id⟩
    rintro ⟨-, request, hmem, hid⟩
    simpa [hid] using List.find?_eq_none.1 hf request hmem
  · have hid : request.id = msg.transactionId := by simpa using List.find?_some hf
    have hmem := List.mem_of_find?_eq_some hf
    split
    · next ht =>
      refine .inl ⟨ht, ⟨request, hmem, hid⟩, ?_, ?_⟩
      · exact setWriteState_deletes (w := .writable) (by decide)
      · exact setWriteState_writeState (w := .writable)
    · next ht =>
      refine .inr ⟨fun h => ht h.1, fun h => ?_⟩
      split
      · show Sound (c.onConnectionRequestErrorResponse msg)
        rw [onConnectionRequestErrorResponse]
        split_ifs
        · exact h
        · exact h
        · exact h.setWriteState fun _ => rfl
      · exact h

/-- **One event.**  From a sound state an event leads to a sound state exactly
if it does not revive a connection whose deletion is posted. -/
theorem step_sound {e : Event} {d : Connection} (h : c.Sound) (hd : c.step frag e = some d) :
    d.Sound ↔ c.Meets frag e := by
  rcases Nat.eq_zero_or_pos c.deletes with h0 | hpos
  · refine iff_of_true ?_ fun hpos => by omega
    cases e with
    | packet data now =>
      obtain rfl := Option.some.inj hd
      rw [onReadPacket]
      split
      · split
        · exact .of_deletes (by rw [retryWriting_deletes]; exact h0)
        · exact h
      · exact h
      · split_ifs
        · exact h
        · exact h
        · refine .of_deletes ?_
          rw [retryWriting_deletes, sendBindingResponse]
          split
          · exact h0
          · rw [receivedPing_deletes, h0]
        · rcases c.checkResponse_cases _ now with ⟨-, -, hdel, -⟩ | ⟨-, hs⟩
          · exact .of_deletes (hdel.trans h0)
          · exact hs h
    | receivedPing now =>
      obtain rfl := Option.some.inj hd
      exact .of_deletes (by rw [receivedPing_deletes, h0])
    | prune => obtain rfl := Option.some.inj hd; exact h.prune
    | destroy => obtain rfl := Option.some.inj hd; exact h.destroy
    | updateState now => obtain rfl := Option.some.inj hd; exact h.updateState now
    | ping id now => obtain rfl := Option.some.inj hd; exact h
    | requestMessage id now => obtain rfl := Option.some.inj hd; exact h.onRequestMessage id now
    | connect => obtain rfl := Option.some.inj hd; exact h
    | close => obtain rfl := Option.some.inj hd; exact h.onClose
    | deliver =>
      rw [step, if_neg (by omega)] at hd
      obtain rfl := Option.some.inj hd
      exact h
  · obtain ⟨hread, hwrite⟩ := h hpos
    -- a live state with a posted deletion is not sound
    have live : ∀ d : Connection, c.deletes ≤ d.deletes →
        d.readState = .readable ∨ d.writeState ≠ .writeTimeout → ¬d.Sound := by
      intro d hle hlive hs
      obtain ⟨hr, hw⟩ := hs (by omega)
      rcases hlive with hl | hl
      · rw [hl] at hr
        cases hr
      · exact hl hw
    have meets_iff : c.Meets frag e ↔ ¬c.Revives frag e := ⟨fun hm => hm hpos, fun hn _ => hn⟩
    rw [meets_iff]
    cases e with
    | packet data now =>
      obtain rfl := Option.some.inj hd
      rcases hp : getStunMessage frag data with _ | reply | ⟨msg, user⟩ <;>
        simp only [onReadPacket, Revives, hp]
      · rw [if_neg (by simp [hread])]
        exact iff_of_true h id
      · exact iff_of_true h id
      · split_ifs with huser htype htype
        · exact iff_of_true h fun hr => huser hr.1
        · exact iff_of_true h fun hr => huser hr.1
        · rw [not_not] at huser
          rw [sendBindingResponse]
          rcases hu : msg.getByteString .username with _ | username
          · rw [retryWriting]
            rcases c.pruned with _ | _
            · rw [if_pos (by simp [hwrite])]
              refine iff_of_false (live _ deletes_le_setWriteState (.inr ?_)) (by simp [huser])
              simp
            · rw [if_neg (by simp)]
              exact iff_of_true h (by simp)
          · refine iff_of_false (live _ ?_ (.inl ?_)) (by simp [huser])
            · rw [retryWriting_deletes, receivedPing_deletes]
            · rw [retryWriting_readState, receivedPing_readState]
        · rw [not_not] at huser
          rcases c.checkResponse_cases msg now with ⟨ht, hreq, hdel, hw⟩ | ⟨hno, hs⟩
          · refine iff_of_false (live _ hdel.ge (.inr (by rw [hw]; decide))) ?_
            exact not_not.2 ⟨huser, ht, hreq⟩
          · exact iff_of_true (hs h) fun hr => hno hr.2
    | receivedPing now =>
      obtain rfl := Option.some.inj hd
      refine iff_of_false (live _ (by rw [receivedPing_deletes]) (.inl ?_)) (not_not.2 trivial)
      exact receivedPing_readState now
    | prune => obtain rfl := Option.some.inj hd; exact iff_of_true h.prune id
    | destroy => obtain rfl := Option.some.inj hd; exact iff_of_true h.destroy id
    | updateState now => obtain rfl := Option.some.inj hd; exact iff_of_true (h.updateState now) id
    | ping i now => obtain rfl := Option.some.inj hd; exact iff_of_true h id
    | requestMessage i now =>
      obtain rfl := Option.some.inj hd
      exact iff_of_true (h.onRequestMessage i now) id
    | connect => obtain rfl := Option.some.inj hd; exact iff_of_true h id
    | close => obtain rfl := Option.some.inj hd; exact iff_of_true h.onClose id
    | deliver =>
      rw [step, if_pos hpos] at hd
      cases hd

/-! ### Runs -/

/-- **No live connection is deleted** as long as no event revives one whose
deletion is posted; and the first such event makes the posted deletion wrong. -/
theorem live_never_deleted (frag : List Byte) (port : ℕ) (remote : Candidate) (connected : Bool) :
    ∀ c, Reach (· = new port remote connected) (Next frag) c →
      c.DeletedInTime frag ∧
        ∀ e d, c.step frag e = some d → (d.DeletedInTime frag ↔ c.Meets frag e) := by
  intro c hc
  have hs : c.Sound := by
    refine Reach.invariant (I := Sound) ?_ ?_ c hc
    · rintro _ rfl
      exact .of_deletes rfl
    · rintro s t - hs ⟨e, hm, he⟩
      exact (step_sound hs he).2 hm
  exact ⟨deletedInTime_iff.2 hs, fun e d hd => deletedInTime_iff.trans (step_sound hs hd)⟩

end Step

/-! ### A ping that comes too late -/

/-- A remote candidate whose username has four bytes. -/
def peerCandidate : Candidate where
  name := textBytes "rtp"
  protocol := textBytes "udp"
  address := { hostname := [], ip := 0x01020304, port := 5000 }
  preference := 1
  username := textBytes "peer"
  password := []
  type := textBytes "local"
  networkName := []
  generation := 0

/-- The ping that the remote side sends to the port with fragment `port`. -/
def latePing : List Byte :=
  (bindingRequest (textBytes "012345678901") (textBytes "port") (textBytes "peer")).write

/-- Pruned before the first ping comes: its deletion is right. -/
theorem live_never_deleted_pruned :
    (new 0 peerCandidate true).prune.DeletedInTime (textBytes "port") :=
  (live_never_deleted (textBytes "port") 0 peerCandidate true _
    (.step (.init rfl) ⟨.prune, fun _ h => h, rfl⟩)).1

/-- **A live connection is deleted**: pruned, then pinged, then the message of
the pruning is handled. -/
theorem readable_deleted :
    ¬∀ c, Reach (· = new 0 peerCandidate true)
      (fun c d => ∃ e, c.step (textBytes "port") e = some d) c →
        c.DeletedInTime (textBytes "port") := by
  intro h
  have hrun := h ((new 0 peerCandidate true).prune.onReadPacket (textBytes "port") latePing 7).conn
    (.step (.step (.init rfl) ⟨.prune, rfl⟩) ⟨.packet latePing 7, rfl⟩)
  rw [deletedInTime_iff] at hrun
  exact absurd (hrun (by decide)) (by decide)

end Connection

end Jingle.P2p
