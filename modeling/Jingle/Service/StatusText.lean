/-
The text of a status.

A status text of more than 300 bytes is cut before a byte that begins a character.  Such bytes
are told by their bits, so that the loop looks back over the trailing bytes of one character at
most.

* `utf8Code` — UTF-8 is a self-synchronizing code.
* **`fillStatus_cut`** — the status of a presence that is not `unavailable` is the longest
  beginning of its text that is well-formed and has at most 300 bytes.
* `not_longest_unavailable` — a presence that is `unavailable` has none.
-/
import Jingle.Service.Status
import Jingle.Lib.Utf8
import Jingle.Lib.SelfSync

namespace Jingle.Service

open Signaling (Text)
open Xmllite Xmpp

/-! ### UTF-8 -/

theorem isUtf8FirstByte_ofNat : ∀ n : Fin 256, isUtf8FirstByte (BitVec.ofNat 8 n) =
    decide (n.val < 128 ∨ 192 ≤ n.val ∧ n.val < 254) := by decide +kernel

theorem isUtf8FirstByte_eq (b : Byte) :
    isUtf8FirstByte b = decide (b.toNat < 128 ∨ 192 ≤ b.toNat ∧ b.toNat < 254) := by
  have h := isUtf8FirstByte_ofNat ⟨b.toNat, b.isLt⟩
  rwa [BitVec.ofNat_toNat, BitVec.setWidth_eq] at h

theorem isUtf8FirstByte_trailer (v k : ℕ) : isUtf8FirstByte (utf8Trailer v k) = false := by
  have hlt : v / 64 ^ k % 64 < 64 := Nat.mod_lt _ (by decide)
  rw [isUtf8FirstByte_eq, utf8Trailer, BitVec.toNat_ofNat, decide_eq_false_iff_not]
  omega

/-- How many bytes a character has that begins with this one. -/
def utf8Length (lead : Byte) : ℕ :=
  if lead.toNat < 128 then 1 else if lead.toNat < 224 then 2 else if lead.toNat < 240 then 3 else 4

theorem utf8_lead {v : ℕ} (hv : IsUtf8Value v) : ∃ lead trailers, utf8 v = lead :: trailers ∧
    isUtf8FirstByte lead = true ∧ (∀ b ∈ trailers, isUtf8FirstByte b = false) ∧
    (utf8 v).length = utf8Length lead := by
  rw [IsUtf8Value] at hv
  have hlead : ∀ n, n < 128 ∨ 192 ≤ n ∧ n < 248 → isUtf8FirstByte (BitVec.ofNat 8 n) = true := by
    intro n hn
    rw [isUtf8FirstByte_eq, BitVec.toNat_ofNat, decide_eq_true_iff]
    omega
  rw [utf8]
  split_ifs with h₁ h₂ h₃
  · refine ⟨_, _, rfl, hlead _ (by omega), by simp, ?_⟩
    rw [utf8Length, BitVec.toNat_ofNat, if_pos (by omega)]
    rfl
  · refine ⟨_, _, rfl, hlead _ (by omega), by simp [isUtf8FirstByte_trailer], ?_⟩
    rw [utf8Length, BitVec.toNat_ofNat, if_neg (by omega), if_pos (by omega)]
    rfl
  · refine ⟨_, _, rfl, hlead _ (by omega), by simp [isUtf8FirstByte_trailer], ?_⟩
    rw [utf8Length, BitVec.toNat_ofNat, if_neg (by omega), if_neg (by omega), if_pos (by omega)]
    rfl
  · refine ⟨_, _, rfl, hlead _ (by omega), by simp [isUtf8FirstByte_trailer], ?_⟩
    rw [utf8Length, BitVec.toNat_ofNat, if_neg (by omega), if_neg (by omega), if_neg (by omega)]
    rfl

theorem utf8_eq_of_prefix {v w : ℕ} (hv : IsUtf8Value v) (hw : IsUtf8Value w)
    (h : utf8 v <+: utf8 w) : utf8 v = utf8 w := by
  obtain ⟨lead, trailers, heq, -, -, hlength⟩ := utf8_lead hv
  obtain ⟨lead', trailers', heq', -, -, hlength'⟩ := utf8_lead hw
  have hsame : lead = lead' := by
    rw [heq, heq', List.cons_prefix_cons] at h
    exact h.1
  exact h.eq_of_length (by rw [hlength, hlength', hsame])

theorem isUtf8Value_char (c : Char) : IsUtf8Value c.toNat := by
  have hvalid : c.toNat < 0xD800 ∨ 0xDFFF < c.toNat ∧ c.toNat < 0x110000 := c.valid
  rw [IsUtf8Value]
  omega

/-- **UTF-8**, as a code of the characters. -/
def utf8Code : SelfSync Char Byte where
  code c := utf8 c.toNat
  first := isUtf8FirstByte
  exists_lead c := by
    obtain ⟨lead, trailers, heq, hlead, htrailers, -⟩ := utf8_lead (isUtf8Value_char c)
    exact ⟨lead, trailers, heq, hlead, htrailers⟩
  eq_of_prefix c d := utf8_eq_of_prefix (isUtf8Value_char c) (isUtf8Value_char d)

/-- Well-formed UTF-8. -/
def IsUtf8 (x : Text) : Prop := ∃ cs : List Char, x = utf8Code.text cs

/-! ### The cut -/

theorem firstByteBefore_spec {status : Text} {len cut : ℕ}
    (h : firstByteBefore status len = some cut) :
    cut ≤ len ∧ (cut = 0 ∨ ∃ b, status[cut]? = some b ∧ isUtf8FirstByte b = true) ∧
      ∀ k b, cut < k → k ≤ len → status[k]? = some b → isUtf8FirstByte b = false := by
  induction len with
  | zero =>
    rw [firstByteBefore, Option.map_eq_some_iff] at h
    obtain ⟨-, -, rfl⟩ := h
    exact ⟨le_rfl, .inl rfl, fun k b hk hle => absurd hk (by omega)⟩
  | succ len ih =>
    rw [firstByteBefore] at h
    cases hc : status[len + 1]? with
    | none =>
      rw [hc] at h
      cases h
    | some c =>
      rw [hc] at h
      dsimp only at h
      by_cases hfirst : isUtf8FirstByte c = true
      · rw [if_neg (by simp [hfirst])] at h
        cases h
        exact ⟨le_rfl, .inr ⟨c, hc, hfirst⟩, fun k b hk hle => absurd hk (by omega)⟩
      · rw [if_pos (by simpa using hfirst)] at h
        obtain ⟨hle, hcut, hbetween⟩ := ih h
        refine ⟨hle.trans (Nat.le_succ len), hcut, fun k b hk hklen hb => ?_⟩
        obtain rfl | hlt := Nat.eq_or_lt_of_le hklen
        · rw [hc] at hb
          cases hb
          simpa using hfirst
        · exact hbetween k b hk (Nat.lt_succ_iff.1 hlt) hb

/-- The longest beginning of a text that is well-formed and fits. -/
structure IsCut (text cut : Text) : Prop where
  wellFormed : IsUtf8 cut
  isPrefix : cut <+: text
  length_le : cut.length ≤ maxStatus
  longest : ∀ y, IsUtf8 y → y <+: text → y.length ≤ maxStatus → y <+: cut

theorem truncateStatus_spec {text : Text} (h : IsUtf8 text) :
    ∃ cut, truncateStatus text = some cut ∧ IsCut text cut := by
  rw [truncateStatus]
  by_cases hlong : text.length > maxStatus
  · obtain ⟨n, hn⟩ := exists_firstByteBefore maxStatus hlong
    obtain ⟨hle, hcut, hbetween⟩ := firstByteBefore_spec hn
    rw [if_pos hlong, hn]
    refine ⟨text.take n, rfl, ?_, List.take_prefix n text, ?_, ?_⟩
    · obtain ⟨cs, rfl⟩ := h
      obtain rfl | ⟨b, hb, hfirst⟩ := hcut
      · exact ⟨[], rfl⟩
      · obtain ⟨hlt, hget⟩ := List.getElem?_eq_some_iff.1 hb
        have hsplit : utf8Code.text cs = (utf8Code.text cs).take n ++
            b :: (utf8Code.text cs).drop (n + 1) := by
          rw [← hget, ← List.drop_eq_getElem_cons, List.take_append_drop]
        obtain ⟨ds, es, -, hds⟩ := utf8Code.exists_split_of_first hsplit hfirst
        exact ⟨ds, hds.symm⟩
    · exact (List.length_take_le n text).trans hle
    · rintro y ⟨ds, rfl⟩ hprefix hlength
      obtain ⟨cs, rfl⟩ := h
      refine utf8Code.prefix_take_of_cut hlong (fun k hk hnk hkmax => ?_) hprefix hlength
      exact hbetween k _ hnk hkmax (List.getElem?_eq_getElem hk)
  · rw [if_neg hlong]
    exact ⟨text, rfl, h, List.prefix_rfl, Nat.not_lt.1 hlong, fun y _ hprefix _ => hprefix⟩

/-! ### The status of a presence -/

@[simp] theorem fillPriority_status (priority : Option XmlElement) (s : Status) :
    (fillPriority priority s).status = s.status := by
  unfold fillPriority
  split
  · rfl
  · rfl

@[simp] theorem fillCaps_status (caps : Option XmlElement) (s : Status) :
    (fillCaps caps s).status = s.status := by
  unfold fillCaps
  split
  · rfl
  · dsimp only
    split_ifs
    all_goals rfl

@[simp] theorem fillDelay_status (delay : Option XmlElement) (s : Status) :
    (fillDelay delay s).status = s.status := by
  unfold fillDelay
  split
  · rfl
  · rfl

@[simp] theorem fillNick_status (nick : Option XmlElement) (s : Status) :
    (fillNick nick s).status = s.status := by
  unfold fillNick
  split
  · rfl
  · rfl

theorem fillStatus_status {from_ : Jid} {stanza : XmlElement} {text : Text}
    (h : stanza.attr qnType ≠ textBytes "unavailable")
    (htext : statusText (stanza.firstNamed qnStatus) = some text) :
    (fillStatus from_ stanza).map Status.status = some text := by
  unfold fillStatus
  rw [if_neg h, htext]
  simp

/-- **The status of a presence** is the longest beginning of its text that is well-formed and has
at most 300 bytes; a presence that is `unavailable` has none. -/
theorem fillStatus_cut (from_ : Jid) {stanza : XmlElement}
    (h : IsUtf8 (stanza.textNamed qnStatus)) :
    (stanza.attr qnType = textBytes "unavailable" →
      (fillStatus from_ stanza).map Status.status = some []) ∧
    (stanza.attr qnType ≠ textBytes "unavailable" →
      ∃ cut, (fillStatus from_ stanza).map Status.status = some cut ∧
        IsCut (stanza.textNamed qnStatus) cut) := by
  refine ⟨fun hunavailable => ?_, fun havailable => ?_⟩
  · unfold fillStatus
    rw [if_pos hunavailable]
    rfl
  · rw [XmlElement.textNamed] at h ⊢
    cases hstatus : stanza.firstNamed qnStatus with
    | none =>
      refine ⟨[], fillStatus_status havailable (by rw [hstatus]; rfl), ?_⟩
      exact ⟨⟨[], rfl⟩, List.prefix_rfl, Nat.zero_le _, fun y _ hprefix _ => hprefix⟩
    | some e =>
      rw [hstatus] at h
      obtain ⟨cut, hcut, hspec⟩ := truncateStatus_spec h
      exact ⟨cut, fillStatus_status havailable (by rw [hstatus]; exact hcut), hspec⟩

/-- A presence with a type and a status. -/
def presenceOf (type_ text : Text) : XmlElement :=
  ((XmlElement.new qnPresence).addAttr qnType type_).addElement
    ((XmlElement.new qnStatus).addText text)

theorem fillStatus_cut_away : ∃ cut,
    (fillStatus ⟨none⟩ (presenceOf [] (textBytes "away"))).map Status.status = some cut ∧
      IsCut (textBytes "away") cut := by
  have h : IsUtf8 ((presenceOf [] (textBytes "away")).textNamed qnStatus) :=
    ⟨['a', 'w', 'a', 'y'], by decide⟩
  exact (fillStatus_cut ⟨none⟩ h).2 (by decide)

/-- The status of a presence that is `unavailable` is not stored. -/
theorem not_longest_unavailable :
    (fillStatus ⟨none⟩ (presenceOf (textBytes "unavailable") (textBytes "away"))).map
        Status.status = some [] ∧
      ¬IsCut ((presenceOf (textBytes "unavailable") (textBytes "away")).textNamed qnStatus) [] := by
  refine ⟨by decide, fun h => ?_⟩
  have hprefix := h.longest (textBytes "away") ⟨['a', 'w', 'a', 'y'], by decide⟩ (by decide)
    (by decide)
  exact absurd hprefix (by decide)

end Jingle.Service
