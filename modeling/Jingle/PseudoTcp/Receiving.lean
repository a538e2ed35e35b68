/-
What the payload of a segment does.

`Incoming.store` and `Incoming.receive` are the change of the receive buffer
alone; `processData_spec` says that `processData` makes that change and records
at most one write to the buffer.
-/
import Jingle.PseudoTcp.Sending

namespace Jingle

namespace Incoming

/-- How far behind `m_rcv_nxt` a segment reaches. -/
def need (seg : Segment) (i : Incoming) : Word := seg.len + (seg.seq - i.rcvNxt)

/-- The buffer after a trimmed segment is stored. -/
def store (seg : Segment) (i : Incoming) : Incoming :=
  let i := (i.makeRoom (i.need seg)).place seg
  if seg.seq = i.rcvNxt then (recoverFrom i.rlist (i.advance seg.len) false).1
  else { i with rlist := insertSegment { seq := seg.seq, len := seg.len } i.rlist }

/-- The buffer after the payload of a segment.  With `ignore` only the sequence
numbers are counted. -/
def receive (ignore : Bool) (seg : Segment) (i : Incoming) : Incoming :=
  if (i.trim seg).len = 0 then i
  else if ignore then
    if (i.trim seg).seq = i.rcvNxt then { i with rcvNxt := i.rcvNxt + (i.trim seg).len } else i
  else i.store (i.trim seg)

/-! The fields after each change, so that the changes need not be unfolded. -/

section Fields

variable (seg : Segment) (n : Word) (i : Incoming)

@[simp] theorem place_rlist : (i.place seg).rlist = i.rlist := rfl
@[simp] theorem place_rcvNxt : (i.place seg).rcvNxt = i.rcvNxt := rfl
@[simp] theorem place_rcvWnd : (i.place seg).rcvWnd = i.rcvWnd := rfl
@[simp] theorem place_rpos : (i.place seg).rpos = i.rpos := rfl
@[simp] theorem place_rlen : (i.place seg).rlen = i.rlen := rfl

@[simp] theorem advance_rlist : (i.advance n).rlist = i.rlist := rfl
@[simp] theorem advance_rbuf : (i.advance n).rbuf = i.rbuf := rfl
@[simp] theorem advance_rcvNxt : (i.advance n).rcvNxt = i.rcvNxt + n := rfl
@[simp] theorem advance_rcvWnd : (i.advance n).rcvWnd = i.rcvWnd - n := rfl
@[simp] theorem advance_rpos : (i.advance n).rpos = i.rpos := rfl
@[simp] theorem advance_rlen : (i.advance n).rlen = i.rlen + n := rfl

@[simp] theorem consolidate_rlist : i.consolidateReceiveBufferSpace.rlist = i.rlist := by
  rw [consolidateReceiveBufferSpace]
@[simp] theorem consolidate_rbuf : i.consolidateReceiveBufferSpace.rbuf
    = i.rbuf.move i.rpos.toNat (kRcvBufSize - i.rpos).toNat := by
  rw [consolidateReceiveBufferSpace]
@[simp] theorem consolidate_rcvNxt : i.consolidateReceiveBufferSpace.rcvNxt = i.rcvNxt := by
  rw [consolidateReceiveBufferSpace]
@[simp] theorem consolidate_rcvWnd : i.consolidateReceiveBufferSpace.rcvWnd = i.rcvWnd := by
  rw [consolidateReceiveBufferSpace]
@[simp] theorem consolidate_rpos : i.consolidateReceiveBufferSpace.rpos = 0 := by
  rw [consolidateReceiveBufferSpace]
@[simp] theorem consolidate_rlen : i.consolidateReceiveBufferSpace.rlen = i.rlen - i.rpos := by
  rw [consolidateReceiveBufferSpace]

end Fields

@[simp] theorem makeRoom_rcvNxt (n : Word) (i : Incoming) : (i.makeRoom n).rcvNxt = i.rcvNxt := by
  rw [makeRoom]
  split
  · exact consolidate_rcvNxt i
  · rfl

@[simp] theorem makeRoom_rlist (n : Word) (i : Incoming) : (i.makeRoom n).rlist = i.rlist := by
  rw [makeRoom]
  split
  · exact consolidate_rlist i
  · rfl

@[simp] theorem makeRoom_rcvWnd (n : Word) (i : Incoming) : (i.makeRoom n).rcvWnd = i.rcvWnd := by
  rw [makeRoom]
  split
  · exact consolidate_rcvWnd i
  · rfl

end Incoming

namespace PseudoTcp

/-- What the payload of a segment may record, with the segment already trimmed. -/
inductive StoreEvent (i : Incoming) (seg : Segment) : Event → Prop
  | noRoom : ¬ i.need seg ≤ (i.makeRoom (i.need seg)).getReceiveBufferConsecutiveSpace →
      StoreEvent i seg (.assertFailed .consecutiveSpace)
  | write : StoreEvent i seg (.rbufWrite
      ((i.makeRoom (i.need seg)).rlen.toNat + (seg.seq - i.rcvNxt).toNat) seg.len.toNat
      (i.makeRoom (i.need seg)).rlen.toNat)

theorem storeSegment_spec (seg : Segment) (sflags : SendFlags) (s : PseudoTcp) :
    ∃ es, (s.storeSegment seg sflags).2.2
        = { s with inc := s.inc.store seg, log := s.log ++ es } ∧
      ∀ e ∈ es, StoreEvent s.inc seg e := by
  have hneed : seg.len + (seg.seq - s.inc.rcvNxt) = s.inc.need seg := rfl
  have hnxt := Incoming.makeRoom_rcvNxt (s.inc.need seg) s.inc
  have hroom := @StoreEvent.noRoom s.inc seg
  have hwrite := @StoreEvent.write s.inc seg
  rw [storeSegment, Incoming.store, hneed]
  -- nothing below depends on how the room was made
  generalize s.inc.makeRoom (s.inc.need seg) = i at hnxt hroom hwrite ⊢
  rw [← hnxt] at hwrite
  set w : Event := .rbufWrite (i.rlen.toNat + (seg.seq - i.rcvNxt).toNat) seg.len.toNat
    i.rlen.toNat with hw
  obtain ⟨es, hes, hev⟩ : ∃ es, (s.assert (s.inc.need seg ≤ i.getReceiveBufferConsecutiveSpace)
      .consecutiveSpace).note w = { s with log := s.log ++ es } ∧
      ∀ e ∈ es, StoreEvent s.inc seg e := by
    rcases assert_cases (s.inc.need seg ≤ i.getReceiveBufferConsecutiveSpace)
        .consecutiveSpace s with ⟨h, -⟩ | ⟨h, hp⟩
    · rw [h]
      exact ⟨[w], rfl, by simpa using hwrite⟩
    · rw [h]
      refine ⟨[.assertFailed .consecutiveSpace, w], by simp [note], ?_⟩
      simp only [List.mem_cons, List.not_mem_nil, or_false, forall_eq_or_imp, forall_eq]
      exact ⟨hroom (by simpa using hp), hwrite⟩
  refine ⟨es, ?_, hev⟩
  rw [hes]
  -- the pair is taken apart before its projections are compared
  generalize Incoming.recoverFrom _ _ false = p
  cases p
  by_cases hseq : seg.seq = (i.place seg).rcvNxt
  · rw [if_pos hseq, if_pos hseq]
  · rw [if_neg hseq, if_neg hseq]

theorem processData_spec (seg : Segment) (s : PseudoTcp) :
    ∃ es, (s.processData seg).2.2
        = { s with
            inc := s.inc.receive (seg.flags &&& flagCtl ≠ 0 ∨ s.shutdown ≠ .none) seg
            log := s.log ++ es } ∧
      ∀ e ∈ es, StoreEvent s.inc (s.inc.trim seg) e ∧ (s.inc.trim seg).len ≠ 0 ∧
        seg.flags &&& flagCtl = 0 ∧ s.shutdown = .none := by
  have hflags : (s.inc.trim seg).flags = seg.flags := by
    simp only [Incoming.trim, Incoming.trimBack, Incoming.trimFront, apply_ite Segment.flags,
      ite_self]
  rw [processData, Incoming.receive]
  dsimp only
  rw [hflags]
  by_cases h0 : (s.inc.trim seg).len = 0
  · rw [if_pos h0, if_pos h0]
    exact ⟨[], by simp, by simp⟩
  · rw [if_neg h0, if_neg h0]
    by_cases hi : seg.flags &&& flagCtl ≠ 0 ∨ s.shutdown ≠ .none
    · rw [if_pos hi, if_pos (decide_eq_true hi)]
      refine ⟨[], ?_, by simp⟩
      by_cases hn : (s.inc.trim seg).seq = s.inc.rcvNxt
      · rw [if_pos hn, if_pos hn]
        simp
      · rw [if_neg hn, if_neg hn]
        simp
    · rw [if_neg hi, if_neg (by rw [decide_eq_true_eq]; exact hi)]
      obtain ⟨es, hes, hev⟩ := storeSegment_spec (s.inc.trim seg) (s.ackFlags seg) s
      rw [not_or, not_not, not_not] at hi
      exact ⟨es, hes, fun e he => ⟨hev e he, h0, hi⟩⟩

end PseudoTcp

end Jingle
