/-
What the STUN parser accepts.

`StunMessage.read` does not compare an attribute's length with the bytes that
are left: it relies on each attribute reading exactly its length or failing.
`StunAttribute.read_cases` says that this holds with one exception, transport
preferences with an address that the buffer does not hold completely.  The
address is then read as far as it goes and its failure is not seen.

`StunMessage.read_consistent_iff` is the consequence for whole messages: an
accepted message is consistent (`Consistent`) exactly if it has no such
attribute (`CutPrefs`).
-/
import Jingle.Stun.Codec

namespace Jingle

/-! ### One attribute -/

namespace StunAddress

variable {a addr : StunAddress} {buf tail : ByteBuffer}

theorem read_true (h : a.read buf = (true, addr, tail)) :
    ∃ dummy, buf = dummy :: addr.family :: (be16 addr.port ++ (be32 addr.ip ++ tail)) := by
  unfold read at h
  split at h
  · exact absurd (congrArg Prod.fst h) (by simp)
  · rename_i dummy _ h₁
    split at h
    · exact absurd (congrArg Prod.fst h) (by simp)
    · rename_i _ _ h₂
      split at h
      · exact absurd (congrArg Prod.fst h) (by simp)
      · rename_i _ _ h₃
        split at h
        · exact absurd (congrArg Prod.fst h) (by simp)
        · rename_i _ _ h₄
          simp only [Prod.mk.injEq, true_and] at h
          obtain ⟨rfl, rfl⟩ := h
          exact ⟨dummy, by rw [readUInt8_some h₁, readUInt8_some h₂, readUInt16_some h₃,
            readUInt32_some h₄]⟩

theorem read_false (h : a.read buf = (false, addr, tail)) : buf.length < 8 := by
  unfold read at h
  split at h
  · rename_i h₁
    rw [readUInt8_none h₁]
    decide
  · rename_i h₁
    rw [readUInt8_some h₁]
    split at h
    · rename_i h₂
      rw [readUInt8_none h₂]
      simp
    · rename_i h₂
      rw [readUInt8_some h₂]
      split at h
      · rename_i h₃
        have := readUInt16_none h₃
        simp only [List.length_cons]
        omega
      · rename_i h₃
        rw [readUInt16_some h₃]
        split at h
        · rename_i h₄
          have := readUInt32_none h₄
          simp only [List.length_cons, List.length_append, length_be16]
          omega
        · exact absurd (congrArg Prod.fst h) (by simp)

end StunAddress

namespace StunAttribute

variable {a : StunAttribute} {t : StunAttributeType} {len : BitVec 16} {buf tail : ByteBuffer}

/-- A new attribute for a type and length from the wire. -/
def fresh (t : StunAttributeType) (length : BitVec 16) : StunAttribute where
  type := t
  length := length
  body := t.cls.blank

theorem create_some {c : BitVec 16} {b : StunAttribute} (h : create c len = some b) :
    c = b.type.code ∧ b = fresh b.type len ∧ admits b.type len := by
  rw [create] at h
  split at h
  · exact absurd h (by simp)
  · rename_i t ht
    split at h
    · rename_i hadm
      obtain rfl := Option.some.inj h
      exact ⟨(StunAttributeType.code_of_ofCode ht).symm, rfl, hadm⟩
    · exact absurd h (by simp)

/-- What reading a body gives: all of its bytes were there, or the address of
transport preferences was cut off. -/
inductive ReadCase (t : StunAttributeType) (len : BitVec 16) (buf : ByteBuffer)
    (a : StunAttribute) (tail : ByteBuffer) : Prop
  | complete (bs : List Byte) (hbuf : buf = bs ++ tail) (hbs : bs.length = len.toNat)
      (hread : ∀ rest, (fresh t len).read (bs ++ rest) = some (a, rest)) (htype : a.type = t) (hlen : a.length = len)
      (hfits : a.Fits) (hdoc : a.Documented) (hsize : a.writeBody.length = len.toNat)
  | cut (v : Word) (x : List Byte) (ht : t = .transportPreferences) (hlen : len = 12)
      (hbuf : buf = be32 v ++ x) (hbit : (v >>> 2) &&& 0x1 ≠ 0) (hx : x.length < 8)

theorem admits_cls (h : admits t len) :
    match t.cls with
    | .address => len = 8
    | .uint32 => len = 4
    | .byteString => True
    | .errorCode => 4 ≤ len.toNat
    | .uint16List => len.toNat % 2 = 0
    | .transportPrefs => True := by
  cases t <;> simp only [StunAttributeType.cls] <;> simp only [admits, decide_eq_true_eq] at h
  case errorCode =>
    have hge : ¬ len < 4 := by simpa using h
    bv_omega
  case unknownAttributes =>
    have heven := congrArg BitVec.toNat h
    rwa [BitVec.toNat_umod] at heven
  all_goals exact h

theorem admits_documented (h : admits t len) : LengthDocumented t len := by
  cases t <;> simp only [admits, decide_eq_true_eq] at h <;> first | exact h | exact trivial

theorem errorClassOf_le (v : Word) : errorClassOf v ≤ 7 := by
  rw [errorClassOf, BitVec.le_def, BitVec.toNat_setWidth, BitVec.toNat_and]
  have : (v >>> 8).toNat &&& (0x7 : Word).toNat ≤ 7 := Nat.and_le_right
  exact (Nat.mod_le _ _).trans this

theorem prefsOf_le (v : Word) : ((v &&& 0x3).setWidth 8 : Byte) ≤ 3 := by
  rw [BitVec.le_def, BitVec.toNat_setWidth, BitVec.toNat_and]
  have : v.toNat &&& (0x3 : Word).toNat ≤ 3 := Nat.and_le_right
  exact (Nat.mod_le _ _).trans this

theorem readTypes_some {n : ℕ} {types : List (BitVec 16)}
    (h : readTypes n buf = some (types, tail)) :
    buf = types.flatMap be16 ++ tail ∧ types.length = n := by
  induction n generalizing buf types with
  | zero =>
    obtain ⟨rfl, rfl⟩ := Prod.mk.inj (Option.some.inj h)
    exact ⟨rfl, rfl⟩
  | succ n ih =>
    rw [readTypes] at h
    split at h
    · exact absurd h (by simp)
    · rename_i h₁
      split at h
      · exact absurd h (by simp)
      · rename_i h₂
        obtain ⟨rfl, rfl⟩ := Prod.mk.inj (Option.some.inj h)
        obtain ⟨hbuf, hlen⟩ := ih h₂
        rw [readUInt16_some h₁, hbuf, List.flatMap_cons, List.append_assoc, List.length_cons, hlen]
        exact ⟨rfl, rfl⟩

theorem ReadCase.of_body {body : AttrBody} (bs : List Byte) (hadm : admits t len)
    (hbuf : buf = bs ++ tail) (hbs : bs.length = len.toNat)
    (hread : ∀ rest, readBody len body.cls.blank (bs ++ rest) = some (body, rest))
    (hcls : t.cls = body.cls) (hsize : SizeOf len body) (hvalue : ValueDocumented body)
    (hwrite : (writeBody { type := t, length := len, body := body }).length = len.toNat) :
    ReadCase t len buf { type := t, length := len, body := body } tail := by
  refine .complete bs hbuf hbs (fun rest => ?_) rfl rfl ⟨hcls.symm, hsize⟩
    ⟨admits_documented hadm, hvalue⟩ hwrite
  simp only [read, fresh, hcls, hread]

theorem readPrefs_cases {body : AttrBody} (hcls : t.cls = .transportPrefs) (hadm : admits t len)
    (hb : readPrefs len buf = some (body, tail)) :
    ReadCase t len buf { type := t, length := len, body := body } tail := by
  unfold readPrefs at hb
  split at hb
  · exact absurd hb (by simp)
  rename_i val _ hr
  rw [readUInt32_some hr]
  by_cases hbit : (val >>> 2) &&& 0x1 = 0
  · simp only [hbit, ne_eq, not_true_eq_false, decide_false, Bool.not_false, if_true] at hb
    split at hb
    · exact absurd hb (by simp)
    rename_i hlen
    rw [not_not] at hlen
    subst hlen
    obtain ⟨rfl, rfl⟩ := Prod.mk.inj (Option.some.inj hb)
    refine .of_body (be32 val) hadm rfl rfl (fun rest => ?_) hcls ⟨rfl, rfl⟩ (prefsOf_le val) rfl
    simp [AttrBody.cls, AttrClass.blank, readBody, readPrefs]
    exact hbit
  · simp only [hbit, ne_eq, not_false_eq_true, decide_true, Bool.not_true] at hb
    split at hb
    · rename_i hf
      exact absurd hf (by simp)
    split at hb
    · exact absurd hb (by simp)
    rename_i hlen
    rw [not_not] at hlen
    obtain ⟨rfl, rfl⟩ := Prod.mk.inj (Option.some.inj hb)
    rcases ha : StunAddress.zero.read _ with ⟨ok, addr, after⟩
    cases ok with
    | false =>
      refine .cut val _ ?_ hlen rfl hbit (StunAddress.read_false ha)
      cases t <;> simp_all [StunAttributeType.cls]
    | true =>
      obtain ⟨dummy, hbuf⟩ := StunAddress.read_true ha
      subst hlen
      refine .of_body (be32 val ++ dummy :: addr.family :: (be16 addr.port ++ be32 addr.ip)) hadm
        (by simp [hbuf]) rfl (fun rest => ?_) hcls ⟨rfl, rfl⟩ (prefsOf_le val) rfl
      simp [AttrBody.cls, AttrClass.blank, readBody, readPrefs, StunAddress.read]
      exact hbit

/-- **One attribute**: an attribute reads exactly its length, or it is transport
preferences whose address the buffer does not hold. -/
theorem read_cases (hadm : admits t len) (h : (fresh t len).read buf = some (a, tail)) :
    ReadCase t len buf a tail := by
  rw [read] at h
  split at h
  · exact absurd h (by simp)
  rename_i body _ hb
  obtain ⟨rfl, rfl⟩ := Prod.mk.inj (Option.some.inj h)
  have hadm' := admits_cls hadm
  simp only [fresh] at hb ⊢
  generalize hcls : t.cls = k at hb hadm'
  cases k with
  | address =>
    obtain rfl : len = 8 := hadm'
    simp only [AttrClass.blank, readBody] at hb
    split at hb
    · rename_i addr _ hr
      obtain ⟨rfl, rfl⟩ := Prod.mk.inj (Option.some.inj hb)
      obtain ⟨dummy, hbuf⟩ := StunAddress.read_true hr
      refine .of_body (dummy :: addr.family :: (be16 addr.port ++ be32 addr.ip)) hadm
        (by simpa using hbuf) rfl (fun rest => ?_) hcls rfl trivial rfl
      simp [AttrBody.cls, AttrClass.blank, readBody, StunAddress.read]
    · exact absurd hb (by simp)
  | uint32 =>
    obtain rfl : len = 4 := hadm'
    simp only [AttrClass.blank, readBody] at hb
    split at hb
    · exact absurd hb (by simp)
    · rename_i bits _ hr
      obtain ⟨rfl, rfl⟩ := Prod.mk.inj (Option.some.inj hb)
      refine .of_body _ hadm (readUInt32_some hr) rfl (fun rest => ?_) hcls rfl trivial rfl
      simp [AttrBody.cls, AttrClass.blank, readBody]
  | byteString =>
    simp only [AttrClass.blank, readBody] at hb
    split at hb
    · exact absurd hb (by simp)
    · rename_i bytes _ hr
      obtain ⟨rfl, rfl⟩ := Prod.mk.inj (Option.some.inj hb)
      obtain ⟨hbuf, hlen⟩ := readBytes_some hr
      refine .of_body _ hadm hbuf hlen (fun rest => ?_) hcls hlen trivial ?_
      · simp [AttrBody.cls, AttrClass.blank, readBody, readBytes_append hlen]
      · simp [writeBody, hlen]
  | errorCode =>
    have hge : 4 ≤ len.toNat := hadm'
    simp only [AttrClass.blank, readBody] at hb
    split at hb
    · exact absurd hb (by simp)
    · rename_i val _ hr
      rw [if_neg (by omega)] at hb
      split at hb
      · exact absurd hb (by simp)
      · rename_i bytes _ hr₂
        obtain ⟨rfl, rfl⟩ := Prod.mk.inj (Option.some.inj hb)
        obtain ⟨hbuf, hlen⟩ := readBytes_some hr₂
        refine .of_body (be32 val ++ bytes) hadm
          (by rw [readUInt32_some hr, hbuf, List.append_assoc])
          (by rw [List.length_append, length_be32]; omega) (fun rest => ?_) hcls ?_
          (errorClassOf_le val) ?_
        · simp only [AttrBody.cls, AttrClass.blank, readBody, List.append_assoc, readUInt32_be32]
          rw [if_neg (by omega), readBytes_append hlen]
        · show len = 4 + BitVec.ofNat 16 ([] ++ bytes).length
          rw [List.nil_append]
          bv_omega
        · simp only [writeBody, List.length_append, length_be32, List.length_nil]
          omega
  | uint16List =>
    have heven : len.toNat % 2 = 0 := hadm'
    simp only [AttrClass.blank, readBody] at hb
    split at hb
    · exact absurd hb (by simp)
    · rename_i types _ hr
      obtain ⟨rfl, rfl⟩ := Prod.mk.inj (Option.some.inj hb)
      obtain ⟨hbuf, hlen⟩ := readTypes_some hr
      have hmul : types.length * 2 = len.toNat := by omega
      refine .of_body _ hadm hbuf (by rw [length_flatMap_be16, hmul]) (fun rest => ?_) hcls ?_
        trivial ?_
      · simp only [AttrBody.cls, AttrClass.blank, readBody, ← hlen, readTypes_flatMap]
      · show len = BitVec.ofNat 16 (([] ++ types).length * 2)
        rw [List.nil_append, hmul, BitVec.ofNat_toNat, BitVec.setWidth_eq]
      · simp only [writeBody, List.nil_append, length_flatMap_be16, hmul]
  | transportPrefs => exact readPrefs_cases hcls hadm hb

end StunAttribute

/-! ### The attributes of a message -/

namespace StunMessage

open StunAttribute

variable {m m₀ : StunMessage} {attrs seen : List StunAttribute} {body buf b tail : List Byte}

/-- The bytes of a list of attributes: each has its header and a body of exactly
its length, from which it was read. -/
inductive Framed : List StunAttribute → List Byte → Prop
  | nil : Framed [] []
  | cons {a : StunAttribute} {attrs : List StunAttribute} {bs body : List Byte} :
      bs.length = a.length.toNat →
      (∃ new, create a.type.code a.length = some new ∧
        ∀ rest, new.read (bs ++ rest) = some (a, rest)) →
      Framed attrs body →
      Framed (a :: attrs) (be16 a.type.code ++ (be16 a.length ++ (bs ++ body)))

/-- Bytes that are made of complete type-length-value triples. -/
inductive Triples : List Byte → Prop
  | nil : Triples []
  | cons {type length : BitVec 16} {bs body : List Byte} :
      bs.length = length.toNat → Triples body →
      Triples (be16 type ++ (be16 length ++ (bs ++ body)))

/-- The length field of a message. -/
def lengthField : List Byte → BitVec 16
  | _ :: _ :: h :: l :: _ => ofBe16 h l
  | _ => 0

/-- The message has TRANSPORT-PREFERENCES of length 12 with the P bit, and after
their value fewer than the eight bytes of an address are left in the input. -/
def CutPrefs (b : List Byte) : Prop :=
  ∃ pre v x, b.drop 20 = pre ++ (be16 StunAttributeType.transportPreferences.code ++
      (be16 12 ++ (be32 v ++ x))) ∧
    Triples pre ∧ pre.length < (lengthField b).toNat ∧ (v >>> 2) &&& 0x1 ≠ 0 ∧ x.length < 8

theorem Framed.sum_eq (h : Framed attrs body) :
    (attrs.map fun a => 4 + a.length.toNat).sum = body.length := by
  induction h with
  | nil => rfl
  | cons hbs _ _ ih =>
    simp only [List.map_cons, List.sum_cons, List.length_append, length_be16, hbs, ih]
    omega

theorem Framed.writable (h : Framed attrs body) :
    Writable attrs ∧ ∀ a ∈ attrs, a.writeBody.length = a.length.toNat := by
  induction h with
  | nil => exact ⟨fun a ha => absurd ha (by simp), fun a ha => absurd ha (by simp)⟩
  | @cons a attrs bs body hbs hnew _ ih =>
    obtain ⟨new, hcreate, hread⟩ := hnew
    obtain ⟨hcode, hfresh, hadm⟩ := create_some hcreate
    rw [hfresh] at hread
    have key : a.Fits ∧ a.Documented ∧ a.writeBody.length = a.length.toNat := by
      cases read_cases hadm (hread []) with
      | complete _ _ _ _ _ hlen hfits hdoc hsize => exact ⟨hfits, hdoc, by rw [hsize]⟩
      | cut v x _ hlen hbuf _ hx =>
        rw [List.append_nil] at hbuf
        rw [hbuf, List.length_append, length_be32, hlen] at hbs
        have : (12 : BitVec 16).toNat = 12 := rfl
        omega
    have hlt := a.length.isLt
    refine ⟨List.forall_mem_cons.mpr ⟨⟨key.1, key.2.1, by omega⟩, ih.1⟩,
      List.forall_mem_cons.mpr ⟨key.2.2, ih.2⟩⟩

/-- **The attribute loop**: the attributes read are framed, or the loop came to
transport preferences that are cut off. -/
theorem readAttrs_ok {fuel rest : ℕ} (hf : buf.length ≤ fuel)
    (h : readAttrs fuel rest seen buf = .ok (attrs, tail)) (ht : tail.length = rest) :
    (∃ new body, attrs = seen ++ new ∧ buf = body ++ tail ∧ Framed new body) ∨
      ∃ pre v x, buf = pre ++ (be16 StunAttributeType.transportPreferences.code ++
          (be16 12 ++ (be32 v ++ x))) ∧
        Triples pre ∧ rest + pre.length < buf.length ∧ (v >>> 2) &&& 0x1 ≠ 0 ∧ x.length < 8 := by
  induction fuel generalizing seen buf with
  | zero =>
    obtain ⟨rfl, rfl⟩ := Prod.mk.inj (Except.ok.inj h)
    exact .inl ⟨[], [], by simp, rfl, .nil⟩
  | succ fuel ih =>
    rw [readAttrs] at h
    split at h
    · obtain ⟨rfl, rfl⟩ := Prod.mk.inj (Except.ok.inj h)
      exact .inl ⟨[], [], by simp, rfl, .nil⟩
    rename_i hgt
    split at h
    · exact absurd h (by simp)
    rename_i type buf₁ h₁
    split at h
    · exact absurd h (by simp)
    rename_i len buf₂ h₂
    split at h
    · exact absurd h (by simp)
    rename_i new hnew
    split at h
    · exact absurd h (by simp)
    rename_i a buf₃ h₃
    obtain ⟨hcode, hfresh, hadm⟩ := create_some hnew
    have hbuf : buf = be16 type ++ (be16 len ++ buf₂) := by
      rw [readUInt16_some h₁, readUInt16_some h₂]
    rw [hfresh] at h₃
    cases read_cases hadm h₃ with
    | cut v x htype hlen hbuf₂ hbit hx =>
      refine .inr ⟨[], v, x, ?_, .nil, by simpa using hgt, hbit, hx⟩
      rw [hbuf, hcode, htype, hlen, hbuf₂, List.nil_append]
    | complete bs hbuf₂ hbs hread htype hlen _ _ _ =>
      have hlen₃ : buf.length = 4 + bs.length + buf₃.length := by
        rw [hbuf, hbuf₂]
        simp only [List.length_append, length_be16]
        omega
      rcases ih (by omega) h with ⟨new', body, rfl, rfl, hfr⟩ | ⟨pre, v, x, hb, htr, hlt, hbit, hx⟩
      · refine .inl ⟨a :: new', be16 a.type.code ++ (be16 a.length ++ (bs ++ body)), by simp, ?_,
          .cons (by rw [hbs, hlen]) ⟨new, by rw [htype, hlen, ← hcode, hnew], ?_⟩ hfr⟩
        · rw [hbuf, hcode, hbuf₂, htype, hlen]
          simp only [List.append_assoc]
        · rw [hfresh]
          exact hread
      · refine .inr ⟨be16 type ++ (be16 len ++ (bs ++ pre)), v, x, ?_, .cons hbs htr, ?_, hbit, hx⟩
        · rw [hbuf, hbuf₂, hb]
          simp only [List.append_assoc]
        · simp only [List.length_append, length_be16]
          omega

theorem be16_append_inj {x y : BitVec 16} {xs ys : List Byte}
    (h : be16 x ++ xs = be16 y ++ ys) : x = y ∧ xs = ys := by
  have hread : readUInt16 (be16 x ++ xs) = readUInt16 (be16 y ++ ys) := by rw [h]
  rw [readUInt16_be16, readUInt16_be16] at hread
  exact Prod.mk.inj (Option.some.inj hread)

/-- Framed attributes have no cut off preferences among them: both are found by
the same walk over the headers. -/
theorem Framed.not_cut {pre x : List Byte} {v : Word} (h : Framed attrs body) (htr : Triples pre)
    (heq : body ++ tail = pre ++ (be16 StunAttributeType.transportPreferences.code ++
      (be16 12 ++ (be32 v ++ x)))) (hlt : pre.length < body.length) (hx : x.length < 8) :
    False := by
  induction h generalizing pre with
  | nil => exact absurd hlt (by simp)
  | @cons a attrs bs body hbs _ _ ih =>
    simp only [List.append_assoc] at heq
    cases htr with
    | nil =>
      obtain ⟨_, heq⟩ := be16_append_inj heq
      obtain ⟨hlen, heq⟩ := be16_append_inj heq
      have hl := congrArg List.length heq
      simp only [List.length_append, length_be32, hbs, hlen] at hl
      have : (12 : BitVec 16).toNat = 12 := rfl
      omega
    | @cons type len bs' pre' hbs' htr' =>
      simp only [List.append_assoc] at heq
      obtain ⟨_, heq⟩ := be16_append_inj heq
      obtain ⟨hlen, heq⟩ := be16_append_inj heq
      obtain ⟨rfl, hrest⟩ := List.append_inj heq (by rw [hbs, hbs', hlen])
      simp only [List.length_append, length_be16] at hlt
      exact ih htr' hrest (by omega)

/-! ### The message -/

theorem read_ok (h : m₀.read b = .ok (m, tail)) :
    ∃ cookie id body, b = be16 m.type ++ (be16 m.length ++ (cookie ++ (id ++ body))) ∧
      cookie.length = kStunMagicCookieLength ∧ id.length = kStunTransactionIdLength ∧
      m.type &&& 0x8000 = 0 ∧ m.transactionId = idOf cookie id ∧
      m.length.toNat ≤ body.length ∧ tail.length = body.length - m.length.toNat ∧
      readAttrs body.length (body.length - m.length.toNat) [] body = .ok (m.attrs, tail) := by
  rw [read] at h
  split at h
  · exact absurd h (by simp)
  rename_i type buf₁ h₁
  split at h
  · exact absurd h (by simp)
  rename_i htop
  split at h
  · exact absurd h (by simp)
  rename_i len buf₂ h₂
  split at h
  · exact absurd h (by simp)
  rename_i cookie buf₃ h₃
  split at h
  · exact absurd h (by simp)
  rename_i id buf₄ h₄
  rw [readBody] at h
  split at h
  · exact absurd h (by simp)
  rename_i hle
  dsimp only at h
  split at h
  · exact absurd h (by simp)
  rename_i attrs buf₅ h₅
  split at h
  · exact absurd h (by simp)
  rename_i hrest
  obtain ⟨rfl, rfl⟩ := Prod.mk.inj (Except.ok.inj h)
  obtain ⟨hcookie, hc⟩ := readBytes_some h₃
  obtain ⟨hid, hi⟩ := readBytes_some h₄
  refine ⟨cookie, id, buf₄, ?_, hc, hi, not_not.mp htop, rfl, not_lt.mp hle, not_not.mp hrest, h₅⟩
  rw [readUInt16_some h₁, readUInt16_some h₂, hcookie, hid]

/-- An accepted message: its length field is the sum over the attributes, their
bodies are the bytes of the message, each read completely, and writing and
reading it again gives it back. -/
structure Consistent (b : List Byte) (m : StunMessage) (tail : ByteBuffer) : Prop where
  length_eq : m.length.toNat = (m.attrs.map fun a => 4 + a.length.toNat).sum
  complete : ∃ body, b.drop 20 = body ++ tail ∧ body.length = m.length.toNat ∧
    Framed m.attrs body
  reread : ∀ (m₁ : StunMessage) rest, m₁.read (m.write ++ rest) = .ok (m, rest)

theorem readableId_idOf {cookie id : List Byte} (hc : cookie.length = kStunMagicCookieLength)
    (hi : id.length = kStunTransactionIdLength) : ReadableId (idOf cookie id) := by
  rw [idOf]
  split
  · rename_i hne
    right
    rw [← hc, List.take_left, List.length_append, hc, hi]
    exact ⟨rfl, hne⟩
  · exact .inl hi

/-- **What the parser accepts.**  An accepted message is consistent if and only if
it has no transport preferences whose address is cut off by the end of the
input. -/
theorem read_consistent_iff (h : m₀.read b = .ok (m, tail)) :
    Consistent b m tail ↔ ¬ CutPrefs b := by
  obtain ⟨cookie, id, body, rfl, hc, hi, htype, hid, hle, htail, hattrs⟩ := read_ok h
  have hdrop : (be16 m.type ++ (be16 m.length ++ (cookie ++ (id ++ body)))).drop 20 = body := by
    simp only [← List.append_assoc]
    refine List.drop_left' ?_
    simp only [List.length_append, length_be16, hc, hi]
    rfl
  have hfield : lengthField (be16 m.type ++ (be16 m.length ++ (cookie ++ (id ++ body)))) =
      m.length := by
    simp only [be16, List.cons_append, List.nil_append, lengthField, ofBe16_be16]
  constructor
  · rintro ⟨-, ⟨body', hb, hlen, hfr⟩, -⟩ ⟨pre, v, x, hcut, htr, hlt, -, hx⟩
    rw [hfield, ← hlen] at hlt
    exact hfr.not_cut htr (hb.symm.trans hcut) hlt hx
  · intro hno
    rcases readAttrs_ok le_rfl hattrs htail with
      ⟨new, body', hnew, rfl, hfr⟩ | ⟨pre, v, x, hb, htr, hlt, hbit, hx⟩
    · obtain rfl : m.attrs = new := hnew
      have hlen : body'.length = m.length.toNat := by
        rw [List.length_append] at htail hle
        omega
      have hsum : m.length.toNat = (m.attrs.map fun a => 4 + a.length.toNat).sum := by
        rw [hfr.sum_eq, hlen]
      refine ⟨hsum, ⟨body', hdrop, hlen, hfr⟩, fun m₁ rest => ?_⟩
      obtain ⟨hw, hsize⟩ := hfr.writable
      refine read_write htype (by rw [hid]; exact readableId_idOf hc hi) hw ?_ m₁
      rw [hsum, bodyLength]
      exact congrArg List.sum (List.map_congr_left fun a ha => by rw [hsize a ha])
    · refine absurd ⟨pre, v, x, hdrop.trans hb, htr, ?_, hbit, hx⟩ hno
      rw [hfield]
      omega

/-- A message of one attribute whose declared length is 12 and whose body is the
four bytes of the value. -/
def cutMessage : List Byte :=
  be16 0x0001 ++ be16 8 ++ kStunMagicCookie ++ List.replicate 12 0x30 ++
    (be16 0x000c ++ be16 12 ++ be32 4)

/-- It is accepted, with a length field that is not the sum over the attributes. -/
theorem read_cut_preferences :
    ∃ m tail, StunMessage.new.read cutMessage = .ok (m, tail) ∧ ¬ Consistent cutMessage m tail ∧
      m.length.toNat = 8 ∧ (m.attrs.map fun a => 4 + a.length.toNat).sum = 16 := by
  refine ⟨_, _, rfl, fun hcons => ?_, by decide, by decide⟩
  exact absurd hcons.length_eq (by decide)

/-- The bytes of `allocateMessage` are accepted. -/
theorem read_consistent_allocate :
    StunMessage.new.read allocateMessage.write = .ok (allocateMessage, []) ∧
      (Consistent allocateMessage.write allocateMessage [] ↔ ¬ CutPrefs allocateMessage.write) := by
  have h : StunMessage.new.read allocateMessage.write = .ok (allocateMessage, []) := by
    decide
  exact ⟨h, read_consistent_iff h⟩

end StunMessage

end Jingle
