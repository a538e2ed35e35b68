/-
The packet format, both ways.

`parse` reads back what `packet` writes, but for the receive window, which is written
with 16 bits.  `parse` looks for 12 bytes before it reads the 24 of the header, so that
a packet of a length between is read past its end.

* **`format_iff`** — when both halves of the format are kept.
* `not_keepsFormat` — a packet of 12 bytes is read past its end.
-/
import Jingle.PseudoTcp.Api

namespace Jingle

namespace PseudoTcp

variable {s : PseudoTcp}

theorem packet_log (env : Env) (seq : Word) (flags : Byte) {data : Option (List Byte)}
    (hlen : (data.getD []).length ≤ maxPacket.toNat - headerSize.toNat) (s : PseudoTcp) :
    (packet env seq flags data s).2.log = s.log ++
      [.tcpWritePacket (s.packetBytes seq flags (data.getD []) (env.packetNow s.log.length))
        (env.write s.log.length)] := by
  have hfits : headerSize + BitVec.ofNat 32 (data.getD []).length ≤ maxPacket := by
    have hl : (data.getD []).length ≤ 65511 := hlen
    simp only [headerSize, maxPacket]
    bv_omega
  unfold packet
  simp only [assert, decide_eq_true hfits, if_true]
  split_ifs <;> rfl

/-- What `packet` writes is read back. -/
def ReadsBack (s : PseudoTcp) (env : Env) (seq : Word) (flags : Byte)
    (data : Option (List Byte)) : Prop :=
  ∃ bytes result seg,
    (packet env seq flags data s).2.log = s.log ++ [.tcpWritePacket bytes result] ∧
    parseSegment bytes = some seg ∧
    seg.conv = s.conv ∧ seg.seq = seq ∧ seg.ack = s.inc.rcvNxt ∧ seg.flags = flags ∧
    seg.wnd.setWidth 32 = s.inc.rcvWnd ∧ seg.tsval = env.packetNow s.log.length ∧
    seg.tsecr = s.tm.tsRecent ∧ seg.len.toNat = (data.getD []).length ∧ seg.data = data.getD []

/-- A packet is rejected: nothing is changed, and nothing is read that is not there. -/
def Rejects (s : PseudoTcp) (env : Env) (buffer : List Byte) : Prop :=
  step env (.notifyPacket buffer) s = (.accepted false, { s with log := [] })

/-- The format is kept: what is written is read back, and what is shorter than the header
is rejected. -/
structure KeepsFormat (s : PseudoTcp) (buffer : List Byte) : Prop where
  readsBack : ∀ env seq flags (data : Option (List Byte)),
    (data.getD []).length ≤ maxPacket.toNat - headerSize.toNat → s.ReadsBack env seq flags data
  rejects : buffer.length < headerSize.toNat → ∀ env, s.Rejects env buffer

theorem setWidth_wnd_iff (w : Word) : (w.setWidth 16).setWidth 32 = w ↔ w.toNat < 2 ^ 16 := by
  constructor
  · intro h
    rw [← h, BitVec.toNat_setWidth]
    have hlt := (w.setWidth 16).isLt
    omega
  · intro h
    apply BitVec.eq_of_toNat_eq
    rw [BitVec.toNat_setWidth, BitVec.toNat_setWidth]
    omega

theorem readsBack_iff (env : Env) (seq : Word) (flags : Byte) {data : Option (List Byte)}
    (hlen : (data.getD []).length ≤ maxPacket.toNat - headerSize.toNat) :
    s.ReadsBack env seq flags data ↔ s.inc.rcvWnd.toNat < 2 ^ 16 := by
  have hl : (data.getD []).length < 2 ^ 32 := lt_of_le_of_lt hlen (by decide)
  have hparse := parseSegment_header s.conv seq s.inc.rcvNxt flags (s.inc.rcvWnd.setWidth 16)
    (env.packetNow s.log.length) s.tm.tsRecent (data.getD [])
  constructor
  · rintro ⟨bytes, result, seg, hlog, hseg, -, -, -, -, hwnd, -⟩
    -- the bytes of the log are the ones that `packet` writes
    rw [packet_log env seq flags hlen] at hlog
    have hev := List.append_cancel_left hlog
    obtain ⟨rfl, -⟩ : s.packetBytes seq flags (data.getD []) (env.packetNow s.log.length) =
        bytes ∧ env.write s.log.length = result := by simpa using hev
    obtain rfl := Option.some.inj (hseg.symm.trans hparse)
    exact (setWidth_wnd_iff _).mp hwnd
  · intro hw
    refine ⟨_, _, _, packet_log env seq flags hlen s, hparse, rfl, rfl, rfl, rfl,
      (setWidth_wnd_iff _).mpr hw, rfl, rfl, ?_, rfl⟩
    rw [BitVec.toNat_ofNat]
    exact Nat.mod_eq_of_lt hl

theorem rejects_iff (env : Env) {buffer : List Byte} (h : buffer.length < headerSize.toNat) :
    s.Rejects env buffer ↔ buffer.length < 12 := by
  have hmax : ¬ maxPacket.toNat < buffer.length := by
    have hlt : buffer.length < 24 := h
    have hbig : maxPacket.toNat = 65535 := rfl
    omega
  unfold Rejects step
  dsimp only
  unfold notifyPacket
  rw [if_neg hmax]
  by_cases h12 : buffer.length < 12
  · rw [if_pos h12]
    exact ⟨fun _ => h12, fun _ => rfl⟩
  · rw [if_neg h12, (parseSegment_eq_none_iff buffer).mpr h]
    refine ⟨fun heq => ?_, fun h12' => absurd h12' h12⟩
    have hlog := congrArg (fun r => r.2.log) heq
    simp [note] at hlog

/-- **When the format is kept.** -/
theorem format_iff (s : PseudoTcp) (buffer : List Byte) :
    s.KeepsFormat buffer ↔
      s.inc.rcvWnd.toNat < 2 ^ 16 ∧ ¬(12 ≤ buffer.length ∧ buffer.length < 24) := by
  have henv : Env := .steady 0
  constructor
  · intro h
    refine ⟨(@readsBack_iff s henv 0 0 none (by decide)).mp
      (h.readsBack henv 0 0 none (by decide)), fun ⟨hge, hlt⟩ => ?_⟩
    have h12 := (rejects_iff henv hlt).mp (h.rejects hlt henv)
    omega
  · rintro ⟨hw, hb⟩
    refine ⟨fun env seq flags data hlen => (readsBack_iff env seq flags hlen).mpr hw,
      fun hlt env => (rejects_iff env hlt).mpr ?_⟩
    by_contra hge
    exact hb ⟨by omega, hlt⟩

/-- A packet of 12 bytes is read past its end. -/
theorem not_keepsFormat : ¬∀ (s : PseudoTcp) (buffer : List Byte), s.KeepsFormat buffer := by
  intro h
  have hshort : (List.replicate 12 (0 : Byte)).length < headerSize.toNat := by
    decide
  have hrejects := (h (.fresh 0 7) (List.replicate 12 0)).rejects hshort (.steady 0)
  have hlt := (rejects_iff (.steady 0) hshort).mp hrejects
  rw [List.length_replicate] at hlt
  exact lt_irrefl 12 hlt

end PseudoTcp

end Jingle
