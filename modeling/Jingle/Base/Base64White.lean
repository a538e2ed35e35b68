/-
Base64 with whitespace.

A decoder that skips whitespace does to a text what the strict one does to the text without
it, quantum by quantum.  Only whitespace that comes after a whole quantum at the end of the
text is different: there are characters left, and so the loop asks for another quantum.

* **`decode_white_iff`** — with any padding and termination the two have the same success and
  the same result, unless padding is needed and there is none, after whole quanta, before
  whitespace at the end.
* `not_decode_white` — a quantum and a space.
-/
import Jingle.Base.Base64

namespace Jingle.Base

namespace Base64

variable {data pre rest : List Byte} {s t s' t' : QuantumState} {ch : Byte} {ip : Bool}

/-- Tab, line feed, vertical tab, form feed, carriage return and space. -/
def isWhite (ch : Byte) : Bool := (9 ≤ ch ∧ ch ≤ 13) ∨ ch = 32

def removeWhite (data : List Byte) : List Byte := data.filter fun ch => !isWhite ch

/-- The texts that the two decoders do not agree on: whole quanta of values, with whitespace
at the end, where padding is needed. -/
def EndsWhite (pad : PadFlag) (data : List Byte) : Prop :=
  pad = .yes ∧ (∀ ch ∈ removeWhite data, IsValue ch) ∧ 4 ∣ (removeWhite data).length ∧
    ∃ ch, data.getLast? = some ch ∧ isWhite ch = true

/-! ### Characters -/

set_option maxRecDepth 20000 in
theorem decodeTable_sp : ∀ n : Fin 256, decodeTable (BitVec.ofNat 8 n) = sp ↔
    isWhite (BitVec.ofNat 8 n) = true := by
  decide

theorem isWhite_iff : isWhite ch = true ↔ decodeTable ch = sp := by
  have h := decodeTable_sp ⟨ch.toNat, ch.isLt⟩
  rw [BitVec.ofNat_toNat, BitVec.setWidth_eq] at h
  exact h.symm

theorem removeWhite_cons_white (h : isWhite ch = true) :
    removeWhite (ch :: data) = removeWhite data := by
  rw [removeWhite, List.filter_cons_of_neg (by simp [h]), removeWhite]

theorem removeWhite_cons (h : isWhite ch = false) :
    removeWhite (ch :: data) = ch :: removeWhite data := by
  rw [removeWhite, List.filter_cons_of_pos (by simp [h]), removeWhite]

theorem removeWhite_append (pre rest : List Byte) :
    removeWhite (pre ++ rest) = removeWhite pre ++ removeWhite rest := List.filter_append ..

/-! ### A quantum -/

/-- What a quantum makes of a character that it may not skip. -/
def accept (illegal_pads : Bool) (ch : Byte) (s : QuantumState) : Option QuantumState :=
  let q := decodeTable ch
  if s.qbuf.length ≥ 4 then none
  else if q = il ∨ (illegal_pads = true ∧ q = pd) then none
  else if q = pd then
    if s.qbuf.length < 2 then none
    else if s.qbuf.length + s.pad_len ≥ 4 then none
    else some
      { s with
        pad_len := s.pad_len + 1
        pad_start := if s.pad_len = 0 then s.dpos else s.pad_start
        dpos := s.dpos + 1 }
  else if s.pad_len > 0 then none
  else some { s with qbuf := s.qbuf ++ [q], pad_len := 0, dpos := s.dpos + 1 }

theorem quantumLoop_cons {parse : ParseFlag} (hparse : parse ≠ .any) (hch : isWhite ch = false) :
    quantumLoop parse ip (ch :: data) s =
      (accept ip ch s).elim s (quantumLoop parse ip data) := by
  have hsp : decodeTable ch ≠ sp := fun h => by
    rw [isWhite_iff.2 h] at hch
    cases hch
  rw [quantumLoop, accept]
  simp only [hparse, ne_eq, not_false_eq_true, if_true, if_neg hsp, and_true]
  split_ifs <;> rfl

theorem quantumLoop_white (hlen : s.qbuf.length < 4) (hch : isWhite ch = true) :
    quantumLoop .white ip (ch :: data) s = quantumLoop .white ip data s.skip := by
  have hsp := isWhite_iff.1 hch
  have hil : sp ≠ il := by decide
  have hpd : sp ≠ pd := by decide
  rw [quantumLoop, if_neg (Nat.not_le.2 hlen)]
  simp [hsp, hil, hpd]

theorem quantumLoop_enough {parse : ParseFlag} (h : s.qbuf.length ≥ 4) :
    quantumLoop parse ip data s = s := by
  cases data with
  | nil => rw [quantumLoop]
  | cons ch data => rw [quantumLoop, if_pos h]

/-- Two scans with the same values and pads. -/
structure Alike (s t : QuantumState) : Prop where
  qbuf : s.qbuf = t.qbuf
  pad_len : s.pad_len = t.pad_len
  total : s.qbuf.length + s.pad_len ≤ 4
  pads : s.pad_len ≠ 0 → s.pad_start < s.dpos ∧ t.pad_start < t.dpos

theorem accept_alike (h : Alike s t) (ip : Bool) (ch : Byte) :
    (accept ip ch s = none ∧ accept ip ch t = none) ∨
      ∃ s' t', accept ip ch s = some s' ∧ accept ip ch t = some t' ∧ Alike s' t' ∧
        s'.dpos = s.dpos + 1 ∧ t'.dpos = t.dpos + 1 := by
  obtain ⟨qbuf, pad_len, start, d⟩ := s
  obtain ⟨qbuf', pad_len', start', e⟩ := t
  obtain rfl : qbuf = qbuf' := h.qbuf
  obtain rfl : pad_len = pad_len' := h.pad_len
  have htotal : qbuf.length + pad_len ≤ 4 := h.total
  rw [accept, accept]
  dsimp only
  by_cases hfull : qbuf.length ≥ 4
  · rw [if_pos hfull, if_pos hfull]
    exact .inl ⟨rfl, rfl⟩
  rw [if_neg hfull, if_neg hfull]
  by_cases hil : decodeTable ch = il ∨ ip = true ∧ decodeTable ch = pd
  · rw [if_pos hil, if_pos hil]
    exact .inl ⟨rfl, rfl⟩
  rw [if_neg hil, if_neg hil]
  by_cases hpd : decodeTable ch = pd
  · rw [if_pos hpd, if_pos hpd]
    by_cases htwo : qbuf.length < 2
    · rw [if_pos htwo, if_pos htwo]
      exact .inl ⟨rfl, rfl⟩
    rw [if_neg htwo, if_neg htwo]
    by_cases hroom : qbuf.length + pad_len ≥ 4
    · rw [if_pos hroom, if_pos hroom]
      exact .inl ⟨rfl, rfl⟩
    rw [if_neg hroom, if_neg hroom]
    refine .inr ⟨_, _, rfl, rfl, ⟨rfl, rfl, Nat.lt_of_not_le hroom, fun _ => ?_⟩, rfl, rfl⟩
    by_cases hzero : pad_len = 0
    · dsimp only
      rw [if_pos hzero, if_pos hzero]
      exact ⟨Nat.lt_succ_self _, Nat.lt_succ_self _⟩
    · have hpads := h.pads hzero
      dsimp only at hpads ⊢
      rw [if_neg hzero, if_neg hzero]
      omega
  rw [if_neg hpd, if_neg hpd]
  by_cases hpad : pad_len > 0
  · rw [if_pos hpad, if_pos hpad]
    exact .inl ⟨rfl, rfl⟩
  rw [if_neg hpad, if_neg hpad]
  refine .inr ⟨_, _, rfl, rfl, ⟨rfl, rfl, ?_, fun hne => absurd rfl hne⟩, rfl, rfl⟩
  dsimp only
  rw [List.length_append, List.length_singleton]
  omega

/-- What two scans have come to, of a text and of the text without whitespace. -/
structure Scans (data : List Byte) (s t s' t' : QuantumState) (pre rest : List Byte) : Prop
    extends Alike s' t' where
  data_eq : data = pre ++ rest
  dpos_white : s'.dpos = s.dpos + pre.length
  dpos_strict : t'.dpos = t.dpos + (removeWhite pre).length
  /-- A quantum that wants characters stops at the end, or at a character of its own. -/
  stops : s'.qbuf.length < 4 → removeWhite rest = [] → rest = []
  nothing : pre = [] → s'.qbuf = s.qbuf
  last : s'.qbuf.length = 4 → ∀ ch, pre.getLast? = some ch → isWhite ch = false

theorem quantumLoop_scans (ip : Bool) (data : List Byte) {s t : QuantumState} (h : Alike s t) :
    ∃ pre rest, Scans data s t (quantumLoop .white ip data s)
      (quantumLoop .strict ip (removeWhite data) t) pre rest := by
  induction data generalizing s t with
  | nil =>
    rw [quantumLoop, removeWhite, List.filter_nil, quantumLoop]
    exact ⟨[], [], h, rfl, rfl, rfl, fun _ _ => rfl, fun _ => rfl, fun _ ch hch => by cases hch⟩
  | cons ch data ih =>
    by_cases hfull : s.qbuf.length ≥ 4
    · rw [quantumLoop_enough hfull, quantumLoop_enough (h.qbuf ▸ hfull)]
      exact ⟨[], _, h, rfl, rfl, rfl, fun hlt => absurd hfull (Nat.not_le.2 hlt), fun _ => rfl,
        fun _ ch hch => by cases hch⟩
    by_cases hwhite : isWhite ch = true
    · -- the strict scan does not see the character
      have hskip : Alike s.skip t :=
        ⟨h.qbuf, h.pad_len, h.total, fun hne =>
          ⟨Nat.lt_succ_of_lt (h.pads hne).1, (h.pads hne).2⟩⟩
      rw [quantumLoop_white (Nat.not_le.1 hfull) hwhite, removeWhite_cons_white hwhite]
      obtain ⟨pre, rest, hscans⟩ := ih hskip
      refine ⟨ch :: pre, rest, hscans.toAlike, congrArg (ch :: ·) hscans.data_eq, ?_, ?_,
        hscans.stops, fun hnil => absurd hnil (List.cons_ne_nil _ _), fun hfour c hc => ?_⟩
      · rw [hscans.dpos_white, List.length_cons]
        show s.dpos + 1 + _ = _
        omega
      · rw [hscans.dpos_strict, removeWhite_cons_white hwhite]
      · rcases pre with _ | ⟨c', pre⟩
        · rw [hscans.nothing rfl] at hfour
          exact absurd hfour.ge hfull
        · exact hscans.last hfour c (List.getLast?_cons_cons ▸ hc)
    · rw [Bool.not_eq_true] at hwhite
      rw [removeWhite_cons hwhite, quantumLoop_cons (by decide) hwhite,
        quantumLoop_cons (by decide) hwhite]
      obtain ⟨hs, ht⟩ | ⟨s', t', hs, ht, halike, hdpos, hdpos'⟩ := accept_alike h ip ch
      · rw [hs, ht]
        refine ⟨[], _, h, rfl, rfl, rfl, fun _ hnil => ?_, fun _ => rfl, fun _ ch hch => by cases hch⟩
        rw [removeWhite_cons hwhite] at hnil
        cases hnil
      · rw [hs, ht, Option.elim_some, Option.elim_some]
        obtain ⟨pre, rest, hscans⟩ := ih halike
        refine ⟨ch :: pre, rest, hscans.toAlike, congrArg (ch :: ·) hscans.data_eq, ?_, ?_,
          hscans.stops, fun hnil => absurd hnil (List.cons_ne_nil _ _), fun hfour c hc => ?_⟩
        · rw [hscans.dpos_white, hdpos, List.length_cons]
          omega
        · rw [hscans.dpos_strict, hdpos', removeWhite_cons hwhite, List.length_cons]
          omega
        · rcases pre with _ | ⟨c', pre⟩
          · rw [List.getLast?_singleton] at hc
            exact Option.some.inj hc ▸ hwhite
          · exact hscans.last hfour c (List.getLast?_cons_cons ▸ hc)

/-- The quanta of the two decoders. -/
structure SameQuantum (data strict : List Byte) (d e : ℕ) (q q' : Quantum) : Prop where
  byte_len : q.byte_len = q'.byte_len
  qbuf : q.qbuf = q'.qbuf
  padded : q.padded = q'.padded
  stops : q.byte_len < 4 → (q.dpos = data.length ↔ q'.dpos = strict.length)
  four : q.byte_len ≥ 4 → ∃ pre rest, data.drop d = pre ++ rest ∧ q.dpos = d + pre.length ∧
    q'.dpos = e + (removeWhite pre).length ∧
    ∃ ch, pre.getLast? = some ch ∧ isWhite ch = false

theorem getNextQuantum_same (ip : Bool) {data strict : List Byte} {d e : ℕ}
    (hd : d ≤ data.length) (he : e ≤ strict.length)
    (hdrop : strict.drop e = removeWhite (data.drop d)) :
    SameQuantum data strict d e (getNextQuantum .white ip data d)
      (getNextQuantum .strict ip strict e) := by
  obtain ⟨pre, rest, h⟩ := quantumLoop_scans ip (data.drop d)
    (s := ⟨[], 0, 0, d⟩) (t := ⟨[], 0, 0, e⟩) ⟨rfl, rfl, Nat.zero_le 4, fun hne => absurd rfl hne⟩
  rw [getNextQuantum, getNextQuantum, hdrop]
  generalize quantumLoop .white ip (data.drop d) ⟨[], 0, 0, d⟩ = s' at h ⊢
  generalize quantumLoop .strict ip (removeWhite (data.drop d)) ⟨[], 0, 0, e⟩ = t' at h ⊢
  have hdata : data.length = d + (pre.length + rest.length) := by
    have hlen := congrArg List.length h.data_eq
    rw [List.length_drop, List.length_append] at hlen
    omega
  have hstrict : strict.length = e + ((removeWhite pre).length + (removeWhite rest).length) := by
    have hlen := congrArg List.length hdrop
    rw [h.data_eq, removeWhite_append, List.length_drop, List.length_append] at hlen
    omega
  have hwhite : s'.dpos = d + pre.length := h.dpos_white
  have hdpos : t'.dpos = e + (removeWhite pre).length := h.dpos_strict
  refine ⟨congrArg List.length h.qbuf, ?_, ?_, fun hshort => ?_, fun hfour => ?_⟩
  · dsimp only
    rw [h.qbuf]
  · dsimp only
    rw [h.qbuf, h.pad_len]
  · -- both are at the end, or neither is
    have hrest : rest.length = 0 ↔ (removeWhite rest).length = 0 := by
      rw [List.length_eq_zero_iff, List.length_eq_zero_iff]
      refine ⟨fun hnil => ?_, h.stops hshort⟩
      rw [hnil]
      rfl
    dsimp only
    rw [← h.qbuf, ← h.pad_len]
    split_ifs with hpadded hpads
    · omega
    · have hback := h.pads hpads
      omega
    · omega
  · have htotal := h.total
    have hpads : s'.pad_len = 0 := by
      dsimp only at hfour
      omega
    have hlen : s'.qbuf.length = 4 := by
      dsimp only at hfour
      omega
    refine ⟨pre, rest, h.data_eq, ?_, ?_, ?_⟩
    · dsimp only
      rw [if_pos (by omega), hwhite]
    · dsimp only
      rw [← h.qbuf, ← h.pad_len, if_pos (by omega), hdpos]
    · rcases hlast : pre.getLast? with _ | ch
      · have hnil := h.nothing (List.getLast?_eq_none_iff.1 hlast)
        rw [hnil] at hlen
        cases hlen
      · exact ⟨ch, rfl, h.last hlen ch hlast⟩

theorem SameQuantum.bytes {strict : List Byte} {d e : ℕ} {q q' : Quantum}
    (h : SameQuantum data strict d e q q') : q.bytes = q'.bytes := by
  rw [Quantum.bytes, h.qbuf, Quantum.bytes]

theorem SameQuantum.unused {strict : List Byte} {d e : ℕ} {q q' : Quantum}
    (h : SameQuantum data strict d e q q') : q.unused = q'.unused := by
  rw [Quantum.unused, h.byte_len, h.bytes, Quantum.unused]

/-! ### Whole quanta at the end -/

theorem values_of_full {strict : List Byte} {e : ℕ}
    (h : (getNextQuantum .strict false strict e).byte_len ≥ 4) :
    ∃ vs rest, strict.drop e = vs ++ rest ∧ vs.length = 4 ∧ (∀ v ∈ vs, IsValue v) ∧
      (getNextQuantum .strict false strict e).dpos = e + 4 := by
  obtain ⟨vs, k, rest, htaken⟩ := quantumLoop_spec (strict.drop e) ⟨[], 0, 0, e⟩
    (Nat.zero_le 4) fun hpos => absurd hpos (Nat.lt_irrefl 0)
  obtain ⟨end_, hquantum, hend⟩ := strictQuantum htaken rfl
  have htotal := htaken.total
  rw [htaken.qbuf, htaken.pad_len, List.nil_append, List.length_map, Nat.zero_add] at htotal
  rw [hquantum] at h ⊢
  have hfour : vs.length = 4 := by
    dsimp only at h
    omega
  exact ⟨vs, _, htaken.data_eq, hfour, htaken.values, hend (by omega)⟩

theorem full_of_values {strict : List Byte} {e : ℕ} (hne : strict.drop e ≠ [])
    (hvalues : ∀ v ∈ strict.drop e, IsValue v) (hdvd : 4 ∣ (strict.drop e).length) :
    (getNextQuantum .strict false strict e).byte_len = 4 := by
  rcases hdrop : strict.drop e with _ | ⟨u, _ | ⟨v, _ | ⟨w, _ | ⟨z, rest⟩⟩⟩⟩
  · exact absurd hdrop hne
  · rw [hdrop] at hdvd
    exact absurd (Nat.le_of_dvd (Nat.succ_pos _) hdvd) (by simp)
  · rw [hdrop] at hdvd
    exact absurd (Nat.le_of_dvd (Nat.succ_pos _) hdvd) (by simp)
  · rw [hdrop] at hdvd
    exact absurd (Nat.le_of_dvd (Nat.succ_pos _) hdvd) (by simp)
  · rw [hdrop] at hvalues
    have hu : IsValue u := hvalues u (by simp)
    have hv : IsValue v := hvalues v (by simp)
    have hw : IsValue w := hvalues w (by simp)
    have hz : IsValue z := hvalues z (by simp)
    have hchars : strict.drop e = toChar (decodeTable u) :: toChar (decodeTable v) ::
        toChar (decodeTable w) :: toChar (decodeTable z) :: rest := by
      rw [hdrop, char_value hu, char_value hv, char_value hw, char_value hz]
    rw [quantum_four strict e hu hv hw hz hchars]

theorem endsWhite_append {pad : PadFlag} (hlen : (removeWhite pre).length = 4)
    (hvalues : ∀ v ∈ removeWhite pre, IsValue v) (hch : pre.getLast? = some ch)
    (hwhite : isWhite ch = false) : EndsWhite pad (pre ++ rest) ↔ EndsWhite pad rest := by
  rw [EndsWhite, EndsWhite, removeWhite_append, List.forall_mem_append, List.length_append, hlen]
  have hdvd : 4 ∣ 4 + (removeWhite rest).length ↔ 4 ∣ (removeWhite rest).length :=
    Nat.dvd_add_right (dvd_refl 4)
  have hlast : (∃ ch, (pre ++ rest).getLast? = some ch ∧ isWhite ch = true) ↔
      ∃ ch, rest.getLast? = some ch ∧ isWhite ch = true := by
    rcases rest with _ | ⟨c, rest⟩
    · rw [List.append_nil, hch]
      constructor
      · rintro ⟨c, hc, hc'⟩
        obtain rfl := Option.some.inj hc
        exact absurd (hwhite.symm.trans hc') Bool.false_ne_true
      · rintro ⟨c, hc, -⟩
        cases hc
    · rw [List.getLast?_append_of_ne_nil _ (List.cons_ne_nil c rest)]
  rw [hdvd, hlast]
  exact and_congr_right fun _ => and_congr_left fun _ => and_iff_right hvalues

theorem not_endsWhite_nil {pad : PadFlag} : ¬EndsWhite pad [] := by
  rintro ⟨-, -, -, ch, hch, -⟩
  cases hch

/-! ### The loops -/

/-- What the two decoders come to. -/
structure SameDecoded (pad : PadFlag) (left data strict : List Byte) (a b : Decoded) : Prop where
  result : a.result = b.result
  used : a.data_used = data.length ↔ b.data_used = strict.length
  success : ¬EndsWhite pad left → a.success = b.success
  fails : EndsWhite pad left →
    a.success = false ∧ b.success = true ∧ b.data_used = strict.length

theorem decodeLoop_blank (pad : PadFlag) (term : TermFlag) {data strict : List Byte} (n m : ℕ)
    {d e : ℕ} (result : List Byte) (hd : d < data.length) (he : e = strict.length)
    (hdrop : strict.drop e = removeWhite (data.drop d)) :
    SameDecoded pad (data.drop d) data strict (decodeLoop ⟨.white, pad, term⟩ data (n + 1) d result)
      (decodeLoop ⟨.strict, pad, term⟩ strict m e result) := by
  have hq := getNextQuantum_same (decide (pad = .no)) hd.le he.le hdrop
  have hnil : strict.drop e = [] := List.drop_eq_nil_of_le he.ge
  have hstrict : getNextQuantum .strict (decide (pad = .no)) strict e =
      ⟨0, fun i => [].getD i 0, false, e⟩ := by
    rw [getNextQuantum, hnil, quantumLoop]
    rfl
  rw [hstrict] at hq
  have hlen : (getNextQuantum .white (decide (pad = .no)) data d).byte_len = 0 := hq.byte_len
  have hpadded : (getNextQuantum .white (decide (pad = .no)) data d).padded = false := hq.padded
  have hunused : (getNextQuantum .white (decide (pad = .no)) data d).unused = 0 :=
    hq.unused.trans (by simp [Quantum.unused, Quantum.bytes])
  have hdpos : (getNextQuantum .white (decide (pad = .no)) data d).dpos = data.length :=
    (hq.stops (by omega)).2 he
  -- the text that is left ends in whitespace, like all of it
  have hends : EndsWhite pad (data.drop d) ↔ pad = .yes := by
    refine ⟨fun h => h.1, fun hpad => ?_⟩
    have hwhite : removeWhite (data.drop d) = [] := hdrop.symm.trans hnil
    have hne : data.drop d ≠ [] := by
      rw [ne_eq, List.drop_eq_nil_iff]
      omega
    refine ⟨hpad, ?_, ?_, _, List.getLast?_eq_getLast_of_ne_nil hne, ?_⟩
    · rw [hwhite]
      exact fun ch hch => absurd hch List.not_mem_nil
    · rw [hwhite]
      exact dvd_zero 4
    · simpa using List.filter_eq_nil_iff.1 hwhite _ (List.getLast_mem hne)
  rw [decodeLoop, if_pos hd, decodeLoop_end _ _ _ he.ge]
  dsimp only
  rw [if_pos (by rw [hlen]; decide), hlen, hpadded, hunused, hdpos]
  refine ⟨?_, iff_of_true rfl he, fun h => ?_, fun h => ⟨?_, rfl, he⟩⟩
  · exact List.append_nil result
  · have hpad : pad ≠ .yes := fun heq => h (hends.2 heq)
    simp [hpad]
  · simp [hends.1 h]

theorem decodeLoop_same (pad : PadFlag) (term : TermFlag) (data strict : List Byte) (n m d e : ℕ)
    (result : List Byte) (hd : d ≤ data.length) (he : e ≤ strict.length)
    (hdrop : strict.drop e = removeWhite (data.drop d)) (hn : data.length ≤ d + n)
    (hm : strict.length ≤ e + m) :
    SameDecoded pad (data.drop d) data strict (decodeLoop ⟨.white, pad, term⟩ data n d result)
      (decodeLoop ⟨.strict, pad, term⟩ strict m e result) := by
  induction n generalizing m d e result with
  | zero =>
    have hend : d = data.length := by omega
    have hnil : data.drop d = [] := List.drop_eq_nil_of_le hend.ge
    have hend' : e = strict.length := by
      rw [hnil] at hdrop
      have := List.drop_eq_nil_iff.1 hdrop
      omega
    rw [decodeLoop_end _ _ _ hend.ge, decodeLoop_end _ _ _ hend'.ge, hnil]
    exact ⟨rfl, iff_of_true hend hend', fun _ => rfl, fun h => absurd h not_endsWhite_nil⟩
  | succ n ih =>
    obtain hlt | hend := hd.lt_or_eq
    swap
    · have hnil : data.drop d = [] := List.drop_eq_nil_of_le hend.ge
      have hend' : e = strict.length := by
        rw [hnil] at hdrop
        have := List.drop_eq_nil_iff.1 hdrop
        omega
      rw [decodeLoop_end _ _ _ hend.ge, decodeLoop_end _ _ _ hend'.ge, hnil]
      exact ⟨rfl, iff_of_true hend hend', fun _ => rfl, fun h => absurd h not_endsWhite_nil⟩
    obtain hlt' | hend' := he.lt_or_eq
    swap
    · exact decodeLoop_blank pad term n m result hlt hend' hdrop
    obtain ⟨m, rfl⟩ : ∃ k, m = k + 1 := ⟨m - 1, by omega⟩
    have hq := getNextQuantum_same (decide (pad = .no)) hd he hdrop
    have hne : strict.drop e ≠ [] := by
      rw [ne_eq, List.drop_eq_nil_iff]
      omega
    rw [decodeLoop, decodeLoop, if_pos hlt, if_pos hlt']
    dsimp only
    rw [← hq.byte_len, ← hq.bytes, ← hq.unused, ← hq.padded]
    by_cases hshort : (getNextQuantum .white (decide (pad = .no)) data d).byte_len < 4
    · rw [if_pos hshort, if_pos hshort]
      refine ⟨rfl, hq.stops hshort, fun _ => rfl, ?_⟩
      rintro ⟨rfl, hvalues, hdvd, -⟩
      rw [← hdrop] at hvalues hdvd
      have hfour := full_of_values hne hvalues hdvd
      rw [hq.byte_len] at hshort
      exact absurd hfour.ge (Nat.not_le.2 hshort)
    · rw [if_neg hshort, if_neg hshort]
      obtain ⟨pre, rest, hdata, hdpos, hdpos', ch, hch, hwhite⟩ := hq.four (Nat.not_lt.1 hshort)
      have hmem : ch ∈ removeWhite pre :=
        List.mem_filter.2 ⟨List.mem_of_getLast? hch, by simp [hwhite]⟩
      have hpos : 0 < (removeWhite pre).length := List.length_pos_of_mem hmem
      have hpos' : 0 < pre.length := List.length_pos_of_mem (List.mem_of_getLast? hch)
      have hlen : data.length = d + (pre.length + rest.length) := by
        have hlen := congrArg List.length hdata
        rw [List.length_drop, List.length_append] at hlen
        omega
      have hrest : data.drop (d + pre.length) = rest := by
        rw [← List.drop_drop, hdata, List.drop_left]
      have hsplit : strict.drop e = removeWhite pre ++ removeWhite rest := by
        rw [hdrop, hdata, removeWhite_append]
      have hlen' : strict.length = e + ((removeWhite pre).length + (removeWhite rest).length) := by
        have hlen := congrArg List.length hsplit
        rw [List.length_drop, List.length_append] at hlen
        omega
      have hrest' : strict.drop (e + (removeWhite pre).length) = removeWhite rest := by
        rw [← List.drop_drop, hsplit, List.drop_left]
      rw [hdpos, hdpos']
      have hafter := ih m (d + pre.length) (e + (removeWhite pre).length)
        (result ++ (getNextQuantum .white (decide (pad = .no)) data d).bytes.take
          ((getNextQuantum .white (decide (pad = .no)) data d).byte_len - 1))
        (by omega) (by omega) (by rw [hrest', hrest]) (by omega) (by omega)
      have hends : EndsWhite pad (data.drop d) ↔ EndsWhite pad rest := by
        by_cases hpad : pad = .yes
        · subst hpad
          have hfull := Nat.not_lt.1 hshort
          rw [hq.byte_len] at hfull
          obtain ⟨vs, rest', hvs, hfour, hvalues, hend⟩ := values_of_full hfull
          have hfour' : (removeWhite pre).length = 4 := by
            have h4 : e + (removeWhite pre).length = e + 4 := hdpos'.symm.trans hend
            omega
          have heq : removeWhite pre = vs :=
            (List.append_inj (hsplit.symm.trans hvs) (hfour'.trans hfour.symm)).1
          rw [hdata]
          exact endsWhite_append hfour' (heq ▸ hvalues) hch hwhite
        · exact iff_of_false (fun h => hpad h.1) fun h => hpad h.1
      rw [hrest] at hafter
      exact ⟨hafter.result, hafter.used, fun h => hafter.success fun h' => h (hends.2 h'),
        fun h => hafter.fails (hends.1 h)⟩

/-- **Whitespace does not matter**, but at the end of whole quanta that need padding. -/
theorem decode_white_iff (s : List Byte) (pad : PadFlag) (term : TermFlag) :
    ((decodeFromArray s ⟨.white, pad, term⟩).success =
        (decodeFromArray (removeWhite s) ⟨.strict, pad, term⟩).success ∧
      (decodeFromArray s ⟨.white, pad, term⟩).result =
        (decodeFromArray (removeWhite s) ⟨.strict, pad, term⟩).result) ↔ ¬EndsWhite pad s := by
  have h := decodeLoop_same pad term s (removeWhite s) s.length (removeWhite s).length 0 0
    [] (Nat.zero_le _) (Nat.zero_le _) rfl (by omega) (by omega)
  rw [List.drop_zero] at h
  rw [decodeFromArray, decodeFromArray]
  generalize decodeLoop ⟨.white, pad, term⟩ s s.length 0 [] = a at h ⊢
  generalize decodeLoop ⟨.strict, pad, term⟩ (removeWhite s) (removeWhite s).length 0 [] = b
    at h ⊢
  constructor
  · rintro ⟨hsuccess, -⟩ hends
    obtain ⟨ha, hb, hused⟩ := h.fails hends
    dsimp only at hsuccess
    rw [if_neg (fun hne => hne.2 (h.used.2 hused)), if_neg (fun hne => hne.2 hused), ha, hb]
      at hsuccess
    exact Bool.false_ne_true hsuccess
  · intro hends
    have hsuccess := h.success hends
    dsimp only
    by_cases hend : term = .buffer ∧ a.data_used ≠ s.length
    · rw [if_pos hend, if_pos ⟨hend.1, fun hb => hend.2 (h.used.2 hb)⟩]
      exact ⟨rfl, h.result⟩
    · rw [if_neg hend, if_neg fun hb => hend ⟨hb.1, fun ha => hb.2 (h.used.1 ha)⟩]
      exact ⟨hsuccess, h.result⟩

/-- **A quantum and a space.** -/
theorem not_decode_white : ¬∀ (s : List Byte) (pad : PadFlag) (term : TermFlag),
    (decodeFromArray s ⟨.white, pad, term⟩).success =
        (decodeFromArray (removeWhite s) ⟨.strict, pad, term⟩).success ∧
      (decodeFromArray s ⟨.white, pad, term⟩).result =
        (decodeFromArray (removeWhite s) ⟨.strict, pad, term⟩).result := by
  intro h
  exact absurd (h (textBytes "QUJD ") .yes .buffer).1 (by decide +kernel)

end Base64

end Jingle.Base
