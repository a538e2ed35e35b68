/-
The PseudoTcp packet format.

`header` is what `packet` writes in front of the payload, `parseSegment` is
what `parse` reads.  `parse` admits every packet of at least 12 bytes and then
reads 24 of them, so it is partial on the bytes it is given: `none` is a read
past the end of the packet.
-/
import Jingle.PseudoTcp.State

namespace Jingle

/-- The 24 header bytes that `packet` writes. -/
def header (conv seq ack : Word) (flags : Byte) (wnd : BitVec 16) (now tsRecent : Word) :
    List Byte :=
  be32 conv ++ be32 seq ++ be32 ack ++ [0, flags] ++ be16 wnd ++ be32 now ++ be32 tsRecent

/-- The header fields and the payload of a packet, as `parse` reads them. -/
def parseSegment : List Byte → Option Segment
  | c₀ :: c₁ :: c₂ :: c₃ :: s₀ :: s₁ :: s₂ :: s₃ :: a₀ :: a₁ :: a₂ :: a₃ ::
      _ :: flags :: w₀ :: w₁ :: v₀ :: v₁ :: v₂ :: v₃ :: e₀ :: e₁ :: e₂ :: e₃ :: data =>
    some
      { conv := ofBe32 c₀ c₁ c₂ c₃
        seq := ofBe32 s₀ s₁ s₂ s₃
        ack := ofBe32 a₀ a₁ a₂ a₃
        flags := flags
        wnd := ofBe16 w₀ w₁
        data := data
        len := BitVec.ofNat 32 (24 + data.length) - headerSize
        tsval := ofBe32 v₀ v₁ v₂ v₃
        tsecr := ofBe32 e₀ e₁ e₂ e₃ }
  | _ => none

@[simp] theorem length_header (conv seq ack : Word) (flags : Byte) (wnd : BitVec 16)
    (now tsRecent : Word) : (header conv seq ack flags wnd now tsRecent).length = 24 := by
  simp [header]

theorem packetLen_sub_headerSize (n : ℕ) :
    BitVec.ofNat 32 (24 + n) - headerSize = BitVec.ofNat 32 n := by
  rw [headerSize]
  bv_omega

theorem parseSegment_header (conv seq ack : Word) (flags : Byte) (wnd : BitVec 16)
    (now tsRecent : Word) (data : List Byte) :
    parseSegment (header conv seq ack flags wnd now tsRecent ++ data) =
      some { conv := conv, seq := seq, ack := ack, flags := flags, wnd := wnd, data := data,
             len := BitVec.ofNat 32 data.length, tsval := now, tsecr := tsRecent } := by
  simp only [header, be32, be16, List.cons_append, List.nil_append, parseSegment,
    ofBe32_be32, ofBe16_be16, packetLen_sub_headerSize]

theorem parseSegment_eq_none_iff (b : List Byte) : parseSegment b = none ↔ b.length < 24 := by
  constructor
  · intro h
    by_contra hlt
    have h24 : b = b.take 24 ++ b.drop 24 := (List.take_append_drop 24 b).symm
    have htake : (b.take 24).length = 24 := by
      rw [List.length_take]
      omega
    rw [h24] at h
    match hb : b.take 24, htake with
    | [_, _, _, _, _, _, _, _, _, _, _, _, _, _, _, _, _, _, _, _, _, _, _, _], _ =>
      rw [hb] at h
      simp [parseSegment] at h
  · intro h
    unfold parseSegment
    split
    · simp only [List.length_cons] at h
      omega
    · rfl

end Jingle
