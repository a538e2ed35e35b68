/-
The STUN codec: writing and reading a message is the identity.

* `StunAttribute.Fits` is what creation and the setters keep: the class is the
  type's and the length field agrees with the body up to `2 ^ 16`.
* `StunAttribute.Documented` are the conditions `stun.h` puts on the values.
* `StunAttribute.read_write` reads one attribute back, `readAttrs_write` a list
  of them, `StunMessage.read_write_built` a whole message, with any bytes after it.
-/
import Jingle.Stun.Message

namespace Jingle

/-- The class of a body. -/
def AttrBody.cls : AttrBody → AttrClass
  | .address _ => .address
  | .uint32 _ => .uint32
  | .byteString _ => .byteString
  | .errorCode _ _ _ => .errorCode
  | .uint16List _ => .uint16List
  | .transportPrefs _ _ _ => .transportPrefs

namespace StunAttribute

variable {a : StunAttribute} {rest : ByteBuffer}

/-- The lengths that `stun.h` documents for the byte strings. -/
def LengthDocumented (t : StunAttributeType) (length : BitVec 16) : Prop :=
  match t with
  | .username | .password | .magicCookie => length % 4 = 0
  | .messageIntegrity => length = 20
  | _ => True

/-- The ranges of an error class and of a preference type. -/
def ValueDocumented : AttrBody → Prop
  | .errorCode eclass _ _ => eclass ≤ 7
  | .transportPrefs _ prefs _ => prefs ≤ 3
  | _ => True

/-- The conditions on an attribute that `stun.h` documents. -/
structure Documented (a : StunAttribute) : Prop where
  length : LengthDocumented a.type a.length
  value : ValueDocumented a.body

/-- A length field that is the size of the body modulo `2 ^ 16`. -/
def SizeOf (length : BitVec 16) : AttrBody → Prop
  | .address _ => length = 8
  | .uint32 _ => length = 4
  | .byteString bytes => bytes.length = length.toNat
  | .errorCode _ _ reason => length = 4 + BitVec.ofNat 16 reason.length
  | .uint16List types => length = BitVec.ofNat 16 (types.length * 2)
  | .transportPrefs preallocate _ addr =>
    preallocate = addr.isSome ∧ length = if preallocate then 12 else 4

/-- The body is of the type's class and the length field is its size. -/
structure Fits (a : StunAttribute) : Prop where
  cls : a.body.cls = a.type.cls
  size : SizeOf a.length a.body

theorem fits_createNew (t : StunAttributeType) : (createNew t).Fits := by
  cases t <;> exact ⟨rfl, by simp [createNew, SizeOf, StunAttributeType.cls, AttrClass.blank,
    AttrClass.startLength]⟩

theorem Fits.call (h : a.Fits) (c : AttrCall) (hc : CallOk c) : (a.call c).Fits := by
  obtain ⟨t, len, body⟩ := a
  obtain ⟨hcls, hsize⟩ := h
  -- one case for each method of a class; the last one is a method of another class
  unfold StunAttribute.call
  dsimp only at hcls hsize
  split <;> rename_i hbody <;> (try dsimp only at hbody; subst hbody) <;>
    refine ⟨hcls, ?_⟩ <;> simp_all [SizeOf, CallOk]

theorem Built.fits (h : a.Built) : a.Fits := by
  induction h with
  | createNew t => exact fits_createNew t
  | call _ hc ih => exact ih.call _ hc

/-! ### One attribute -/

theorem length_flatMap_be16 (types : List (BitVec 16)) :
    (types.flatMap be16).length = types.length * 2 := by
  induction types with
  | nil => rfl
  | cons t types ih =>
    rw [List.flatMap_cons, List.length_append, ih, length_be16, List.length_cons]
    omega

theorem Fits.length_eq (h : a.Fits) (hlen : a.writeBody.length < 2 ^ 16) :
    a.length.toNat = a.writeBody.length := by
  obtain ⟨t, len, body⟩ := a
  have hs := h.size
  cases body with
  | address addr =>
    obtain rfl := hs
    rfl
  | uint32 bits =>
    obtain rfl := hs
    rfl
  | byteString bytes =>
    have hb : bytes.length = len.toNat := hs
    simp [writeBody, hb]
  | errorCode eclass number reason =>
    obtain rfl : len = 4 + BitVec.ofNat 16 reason.length := hs
    simp only [writeBody, List.length_append, length_be32] at hlen ⊢
    bv_omega
  | uint16List types =>
    obtain rfl : len = BitVec.ofNat 16 (types.length * 2) := hs
    simp only [writeBody, length_flatMap_be16] at hlen ⊢
    rw [BitVec.toNat_ofNat, Nat.mod_eq_of_lt hlen]
  | transportPrefs preallocate prefs addr =>
    obtain ⟨hp, hl⟩ : preallocate = addr.isSome ∧ len = if preallocate then 12 else 4 := hs
    subst hp hl
    cases addr <;> rfl

theorem Fits.admits (h : a.Fits) (hd : a.Documented) (hlen : a.writeBody.length < 2 ^ 16) :
    admits a.type a.length := by
  have hl := h.length_eq hlen
  obtain ⟨t, len, body⟩ := a
  obtain ⟨hcls, hs⟩ := h
  obtain ⟨hdt, -⟩ := hd
  dsimp only at hcls hs hdt hl ⊢
  cases t <;> cases body <;> cases hcls <;>
    first
    | exact decide_eq_true hs
    | exact decide_eq_true hdt
    | rfl
    | skip
  case errorCode.errorCode.refl =>
    rw [writeBody, List.length_append, length_be32] at hl
    have hge : (4 : BitVec 16) ≤ len := by bv_omega
    simpa [StunAttribute.admits] using hge
  case unknownAttributes.uint16List.refl =>
    rw [writeBody, length_flatMap_be16] at hl
    have heven : len % 2 = 0 := by
      apply BitVec.eq_of_toNat_eq
      rw [BitVec.toNat_umod, hl]
      exact Nat.mul_mod_left _ _
    simpa [StunAttribute.admits] using heven
  case transportPreferences.transportPrefs.refl =>
    rw [hs.2]
    split <;> rfl

theorem read_writeAddress (addr a : StunAddress) :
    a.read (addr.write ++ rest) = (true, addr, rest) := by
  simp [StunAddress.read, StunAddress.write]

theorem readTypes_flatMap (types : List (BitVec 16)) :
    readTypes types.length (types.flatMap be16 ++ rest) = some (types, rest) := by
  induction types with
  | nil => rfl
  | cons t types ih =>
    rw [List.flatMap_cons, List.append_assoc, List.length_cons, readTypes, readUInt16_be16]
    dsimp only
    rw [ih]

theorem toNat_errorCodeOf (eclass number : Byte) :
    (errorCodeOf eclass number).toNat = eclass.toNat * 2 ^ 8 + number.toNat := by
  have hc := eclass.isLt
  have hn := number.isLt
  have hshift : (eclass.toNat <<< 8) % 2 ^ 32 = eclass.toNat <<< 8 := by
    rw [Nat.shiftLeft_eq]
    omega
  simp only [errorCodeOf, BitVec.toNat_or, BitVec.toNat_shiftLeft, BitVec.toNat_setWidth]
  have he : eclass.toNat % 2 ^ 32 = eclass.toNat := Nat.mod_eq_of_lt (by omega)
  have hm : number.toNat % 2 ^ 32 = number.toNat := Nat.mod_eq_of_lt (by omega)
  rw [he, hm, hshift, ← Nat.shiftLeft_add_eq_or_of_lt hn, Nat.shiftLeft_eq]

theorem errorCode_fields {eclass number : Byte} (h : eclass ≤ 7) :
    errorClassOf (errorCodeOf eclass number) = eclass ∧
      errorNumberOf (errorCodeOf eclass number) = number := by
  have hc : eclass.toNat ≤ 7 := h
  have hn := number.isLt
  constructor <;> apply BitVec.eq_of_toNat_eq
  · simp only [errorClassOf, BitVec.toNat_setWidth, BitVec.toNat_and, BitVec.toNat_ushiftRight,
      toNat_errorCodeOf, Nat.shiftRight_eq_div_pow]
    have hmask : ∀ x : ℕ, x &&& (0x7 : Word).toNat = x % 2 ^ 3 :=
      fun x => Nat.and_two_pow_sub_one_eq_mod x 3
    rw [hmask]
    omega
  · simp only [errorNumberOf, BitVec.toNat_setWidth, BitVec.toNat_and, toNat_errorCodeOf]
    have hmask : ∀ x : ℕ, x &&& (0xff : Word).toNat = x % 2 ^ 8 :=
      fun x => Nat.and_two_pow_sub_one_eq_mod x 8
    rw [hmask]
    omega

theorem prefs_fields {prefs : Byte} (h : prefs ≤ 3) (p : Bool) :
    let val : Word := (if p then 4 else 0) ||| prefs.setWidth 32
    (decide ((val >>> 2) &&& 0x1 ≠ 0) = p) ∧ (val &&& 0x3).setWidth 8 = prefs := by
  revert prefs p
  decide

theorem Fits.readBody_writeBody (h : a.Fits) (hd : a.Documented)
    (hlen : a.writeBody.length < 2 ^ 16) :
    readBody a.length a.type.cls.blank (a.writeBody ++ rest) = some (a.body, rest) := by
  have hl := h.length_eq hlen
  rw [← h.cls]
  obtain ⟨t, len, body⟩ := a
  have hs := h.size
  have hd₂ := hd.value
  cases body with
  | address addr => simp [AttrBody.cls, AttrClass.blank, readBody, writeBody, read_writeAddress]
  | uint32 bits => simp [AttrBody.cls, AttrClass.blank, readBody, writeBody]
  | byteString bytes =>
    have hb : bytes.length = len.toNat := hs
    simp only [AttrBody.cls, AttrClass.blank, readBody, writeBody]
    rw [List.take_of_length_le hb.le, readBytes_append hb]
  | errorCode eclass number reason =>
    simp only [writeBody, List.length_append, length_be32] at hl
    obtain ⟨hc, hn⟩ : errorClassOf (errorCodeOf eclass number) = eclass ∧
        errorNumberOf (errorCodeOf eclass number) = number := errorCode_fields hd₂
    simp only [AttrBody.cls, AttrClass.blank, readBody, writeBody, List.append_assoc,
      readUInt32_be32]
    rw [if_neg (by omega), readBytes_append (by omega), hc, hn]
    rfl
  | uint16List types =>
    simp only [writeBody, length_flatMap_be16] at hl
    simp only [AttrBody.cls, AttrClass.blank, readBody, writeBody]
    rw [hl, Nat.mul_div_cancel _ (by decide), readTypes_flatMap]
    rfl
  | transportPrefs preallocate prefs addr =>
    obtain ⟨hp, hsize⟩ : preallocate = addr.isSome ∧ len = if preallocate then 12 else 4 := hs
    obtain ⟨hbit, hprefs⟩ := prefs_fields hd₂ preallocate
    simp only [AttrBody.cls, AttrClass.blank, readBody, writeBody, readPrefs, List.append_assoc,
      readUInt32_be32]
    rw [hbit, hprefs]
    subst hp hsize
    cases addr with
    | none => rfl
    | some addr => simp [read_writeAddress]

theorem Fits.read_write (h : a.Fits) (hd : a.Documented) (hlen : a.writeBody.length < 2 ^ 16)
    (rest : ByteBuffer) :
    ∃ b, create a.type.code a.length = some b ∧ b.read (a.writeBody ++ rest) = some (a, rest) := by
  refine ⟨_, by rw [create, StunAttributeType.ofCode_code]; exact if_pos (h.admits hd hlen), ?_⟩
  simp only [read, h.readBody_writeBody hd hlen]

end StunAttribute

/-! ### The attribute list -/

namespace StunMessage

open StunAttribute

variable {m : StunMessage} {attrs : List StunAttribute} {rest : ByteBuffer}

/-- Attributes that `Write` and `Read` carry. -/
def Writable (attrs : List StunAttribute) : Prop :=
  ∀ a ∈ attrs, a.Fits ∧ a.Documented ∧ a.writeBody.length < 2 ^ 16

theorem length_write (a : StunAttribute) : a.write.length = 4 + a.writeBody.length := by
  simp only [StunAttribute.write, List.length_append, length_be16]

theorem readAttrs_append (h : Writable attrs) (seen : List StunAttribute) {n fuel : ℕ}
    (hn : n ≤ rest.length) :
    readAttrs (fuel + attrs.length) n seen (attrs.flatMap StunAttribute.write ++ rest) =
      readAttrs fuel n (seen ++ attrs) rest := by
  induction attrs generalizing seen with
  | nil => simp
  | cons a attrs ih =>
    obtain ⟨⟨ha, hd, hlen⟩, hattrs⟩ := List.forall_mem_cons.mp h
    obtain ⟨b, hb, hread⟩ := ha.read_write hd hlen (attrs.flatMap StunAttribute.write ++ rest)
    have hgt : ¬ (a.write ++ (attrs.flatMap StunAttribute.write ++ rest)).length ≤ n := by
      simp only [List.length_append, length_write]
      omega
    rw [List.flatMap_cons, List.append_assoc, List.length_cons, ← Nat.add_assoc, readAttrs,
      if_neg hgt]
    simp only [StunAttribute.write, List.append_assoc, readUInt16_be16, hb, hread]
    have hrest := ih hattrs (seen ++ [a])
    simpa [StunAttribute.write] using hrest

theorem length_le_flatMap_write (attrs : List StunAttribute) :
    attrs.length ≤ (attrs.flatMap StunAttribute.write).length := by
  induction attrs with
  | nil => simp
  | cons a attrs ih =>
    rw [List.flatMap_cons, List.length_append, length_write, List.length_cons]
    omega

theorem readAttrs_write (h : Writable attrs) (seen : List StunAttribute) {fuel : ℕ}
    (hf : (attrs.flatMap StunAttribute.write).length ≤ fuel) :
    readAttrs fuel rest.length seen (attrs.flatMap StunAttribute.write ++ rest) =
      .ok (seen ++ attrs, rest) := by
  obtain ⟨k, rfl⟩ : ∃ k, fuel = k + attrs.length :=
    ⟨fuel - attrs.length, by have := length_le_flatMap_write attrs; omega⟩
  rw [readAttrs_append h seen le_rfl]
  cases k <;> simp [readAttrs]

theorem readAttrs_refused (h : Writable attrs) (seen : List StunAttribute) {a : StunAttribute}
    (ha : admits a.type a.length = false) {fuel n : ℕ} (hf : attrs.length < fuel)
    (hn : n < (a.write ++ rest).length) :
    readAttrs fuel n seen (attrs.flatMap StunAttribute.write ++ (a.write ++ rest)) =
      .error (seen ++ attrs) := by
  obtain ⟨k, rfl⟩ : ∃ k, fuel = k + 1 + attrs.length := ⟨fuel - attrs.length - 1, by omega⟩
  have hcreate : create a.type.code a.length = none := by
    rw [create, StunAttributeType.ofCode_code]
    exact if_neg (by simp [ha])
  rw [readAttrs_append h seen hn.le, readAttrs, if_neg (by omega)]
  simp only [StunAttribute.write, List.append_assoc, readUInt16_be16, hcreate]

/-! ### The message -/

/-- The bytes of the attributes of a message. -/
def bodyLength (m : StunMessage) : ℕ := (m.attrs.map fun a => 4 + a.writeBody.length).sum

theorem length_flatMap_write (attrs : List StunAttribute) :
    (attrs.flatMap StunAttribute.write).length =
      (attrs.map fun a => 4 + a.writeBody.length).sum := by
  rw [List.length_flatMap]
  simp only [length_write]

/-- The transaction ids that `Read` tells apart: twelve bytes, or sixteen that do
not start with the cookie. -/
def ReadableId (id : List Byte) : Prop :=
  id.length = kStunTransactionIdLength ∨
    (id.length = kStunLegacyTransactionIdLength ∧
      id.take kStunMagicCookieLength ≠ kStunMagicCookie)

theorem read_write_header (htype : m.type &&& 0x8000 = 0) (hid : ReadableId m.transactionId)
    (m₀ : StunMessage) :
    m₀.read (m.write ++ rest) = readBody { m with attrs := m₀.attrs }
      (m.attrs.flatMap StunAttribute.write ++ rest) := by
  obtain ⟨cookie, id, hsplit, hcookie, hlenid, hidOf⟩ : ∃ cookie id,
      (if m.isLegacy then [] else kStunMagicCookie) ++ m.transactionId = cookie ++ id ∧
      cookie.length = kStunMagicCookieLength ∧ id.length = kStunTransactionIdLength ∧
      idOf cookie id = m.transactionId := by
    rcases hid with h12 | ⟨h16, hne⟩
    · have hleg : m.isLegacy = false := by
        rw [isLegacy, h12]
        rfl
      exact ⟨_, _, by rw [hleg], rfl, h12, by simp [idOf]⟩
    · have hleg : m.isLegacy = true := by
        rw [isLegacy, h16]
        rfl
      refine ⟨m.transactionId.take kStunMagicCookieLength,
        m.transactionId.drop kStunMagicCookieLength, ?_, ?_, ?_, ?_⟩
      · rw [hleg, List.take_append_drop]
        rfl
      · rw [List.length_take, h16]
        rfl
      · rw [List.length_drop, h16]
        rfl
      · rw [idOf, if_pos hne, List.take_append_drop]
  have hwrite : m.write ++ rest = be16 m.type ++ (be16 m.length ++ (cookie ++ (id ++
      (m.attrs.flatMap StunAttribute.write ++ rest)))) := by
    rw [write, List.append_assoc (be16 m.type ++ be16 m.length), hsplit]
    simp only [List.append_assoc]
  rw [hwrite, read, readUInt16_be16]
  simp only [htype, ne_eq, not_true_eq_false, if_false, readUInt16_be16,
    readBytes_append hcookie, readBytes_append hlenid, hidOf]

/-- A header whose length field counts the attributes, in front of attributes that
can be written: the whole message is read back. -/
theorem read_write (htype : m.type &&& 0x8000 = 0) (hid : ReadableId m.transactionId)
    (hw : Writable m.attrs) (hlen : m.length.toNat = m.bodyLength) (m₀ : StunMessage) :
    m₀.read (m.write ++ rest) = .ok (m, rest) := by
  have hsum : (m.attrs.flatMap StunAttribute.write ++ rest).length - m.length.toNat =
      rest.length := by
    rw [List.length_append, length_flatMap_write, hlen, bodyLength]
    omega
  have hlt : ¬ (m.attrs.flatMap StunAttribute.write ++ rest).length < m.length.toNat := by
    rw [List.length_append, length_flatMap_write, hlen, bodyLength]
    omega
  have hattrs : readAttrs (m.attrs.flatMap StunAttribute.write ++ rest).length rest.length []
      (m.attrs.flatMap StunAttribute.write ++ rest) = .ok ([] ++ m.attrs, rest) := by
    refine readAttrs_write hw [] ?_
    rw [List.length_append]
    omega
  rw [read_write_header htype hid, readBody, if_neg hlt]
  simp only [hsum, hattrs, List.nil_append, ne_eq, not_true_eq_false, if_false]

theorem Built.attrs_built (h : m.Built) : ∀ a ∈ m.attrs, a.Built := by
  induction h with
  | new => exact fun a ha => absurd ha (by simp [StunMessage.new])
  | setType _ _ ih => exact ih
  | setTransactionID _ _ ih => exact ih
  | addAttribute _ ha ih =>
    intro b hb
    rcases List.mem_append.mp hb with hb | hb
    · exact ih b hb
    · rwa [List.mem_singleton.mp hb]

theorem Built.length_eq (h : m.Built) :
    m.length = BitVec.ofNat 16 (m.attrs.map fun a => 4 + a.length.toNat).sum := by
  induction h with
  | new => rfl
  | setType _ _ ih => exact ih
  | setTransactionID _ _ ih => exact ih
  | @addAttribute m a _ _ ih =>
    simp only [StunMessage.addAttribute, List.map_append, List.sum_append, List.map_cons, List.map_nil,
      List.sum_singleton, ih]
    bv_omega

theorem and_top_of_lt {x : BitVec 16} (h : x < 0x8000) : x &&& 0x8000 = 0 := by
  have hlt : x.toNat < 2 ^ 15 := h
  apply BitVec.eq_of_toNat_eq
  apply Nat.eq_of_testBit_eq
  intro i
  rw [BitVec.toNat_and, Nat.testBit_and]
  rcases Nat.lt_or_ge i 15 with h15 | h15
  · interval_cases i <;> simp [Nat.testBit]
  · have hx : x.toNat.testBit i = false :=
      Nat.testBit_lt_two_pow (hlt.trans_le (Nat.pow_le_pow_right (by decide) h15))
    simp [hx]

theorem Built.fits (h : m.Built) : ∀ a ∈ m.attrs, a.Fits :=
  fun a ha => (h.attrs_built a ha).fits

theorem writeBody_length_lt (hlen : m.bodyLength < 2 ^ 16) :
    ∀ a ∈ m.attrs, a.writeBody.length < 2 ^ 16 := by
  intro a ha
  have hmem := List.mem_map_of_mem (f := fun a : StunAttribute => 4 + a.writeBody.length) ha
  have hle : 4 + a.writeBody.length ≤ m.bodyLength :=
    List.single_le_sum (fun _ _ => Nat.zero_le _) _ hmem
  omega

theorem Built.length_toNat (hb : m.Built) (hlen : m.bodyLength < 2 ^ 16) :
    m.length.toNat = m.bodyLength := by
  have hsum : m.attrs.map (fun a => 4 + a.length.toNat) =
      m.attrs.map fun a => 4 + a.writeBody.length :=
    List.map_congr_left fun a ha => by
      rw [(hb.fits a ha).length_eq (writeBody_length_lt hlen a ha)]
  rw [hb.length_eq, hsum, ← bodyLength, BitVec.toNat_ofNat, Nat.mod_eq_of_lt hlen]

theorem Built.writable (hb : m.Built) (hd : ∀ a ∈ m.attrs, a.Documented)
    (hlen : m.bodyLength < 2 ^ 16) : Writable m.attrs :=
  fun a ha => ⟨hb.fits a ha, hd a ha, writeBody_length_lt hlen a ha⟩

/-- **The codec round trip.**  A message built through the interface, with values
as documented and less than `2 ^ 16` bytes of attributes, is read back as it was
written, and exactly its bytes are consumed. -/
theorem read_write_built (hb : m.Built) (htype : m.type < 0x8000)
    (hid : ReadableId m.transactionId) (hd : ∀ a ∈ m.attrs, a.Documented)
    (hlen : m.bodyLength < 2 ^ 16) (m₀ : StunMessage) (rest : ByteBuffer) :
    m₀.read (m.write ++ rest) = .ok (m, rest) :=
  read_write (and_top_of_lt htype) hid (hb.writable hd hlen) (hb.length_toNat hlen) m₀

/-- An allocate request with a user name, a lifetime and transport preferences. -/
def allocateMessage : StunMessage :=
  (((new.setType StunMessageType.allocateRequest.code).addAttribute
      ((createNew .username).call (.copyBytes [1, 2, 3, 4] 4))).addAttribute
    ((createNew .lifetime).call (.setValue 900))).addAttribute
  ((createNew .transportPreferences).call (.setPreallocateAddress (some ⟨1, 5000, 0x7f000001⟩)))

theorem read_write_built_allocate :
    allocateMessage.Built ∧
      StunMessage.new.read (allocateMessage.write ++ [7]) = .ok (allocateMessage, [7]) := by
  have hb : allocateMessage.Built :=
    .addAttribute (.addAttribute (.addAttribute (.setType _ .new)
      (.call (.createNew _) (show (4 : BitVec 16).toNat ≤ 4 by decide))) (.call (.createNew _) trivial))
      (.call (.createNew _) trivial)
  refine ⟨hb, read_write_built hb (by decide) (.inl (by decide)) ?_ (by decide) _ _⟩
  intro a ha
  simp only [allocateMessage, addAttribute, setType, new, List.nil_append, List.cons_append,
    List.mem_cons, List.not_mem_nil, or_false] at ha
  rcases ha with rfl | rfl | rfl
  · exact ⟨show (4 : BitVec 16) % 4 = 0 by decide, trivial⟩
  · exact ⟨trivial, trivial⟩
  · exact ⟨trivial, show (0 : Byte) ≤ 3 by decide⟩

end StunMessage

end Jingle
