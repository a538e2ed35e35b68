/-
The canonical form of a JID.

A `Jid` is made from a text or from its three parts; either way the parts are
checked and normalised by the prep functions.  Each of them is idempotent, and a
prepared node or domain contains neither separator.  So `Str` is read back as the
parts it was printed from (`ofString_str`).

The order of `Compare` is the order of the parts as byte strings, with the null
JID first: `key` carries it into a linear order.

`canonical_form` is the result.
-/
import Jingle.Lib.OrderedBy
import Jingle.Signaling.Message

namespace Jingle.Xmpp

open Signaling

/-! ### The prep functions -/

/-- `tolower` in the C locale: bytes above 0x7F are no letters. -/
def tolower (ch : Byte) : Byte := if 0x41#8 ≤ ch ∧ ch ≤ 0x5A#8 then ch + 0x20#8 else ch

/-- `prepNodeAscii`: the mapped character and whether it is valid. -/
def prepNodeAscii (ch : Byte) : Byte × Bool :=
  if 0x41#8 ≤ ch ∧ ch ≤ 0x5A#8 then (ch + 0x20#8, true)
  else if ch ≤ 0x17#8 ∨
      ch ∈ [0x20#8, 0x26#8, 0x2F#8, 0x3A#8, 0x3C#8, 0x3E#8, 0x40#8, 0x22#8, 0x27#8] ∨
      ch = 0x7F#8 then (0#8, false)
  else (ch, true)

def prepResourceAscii (ch : Byte) : Byte × Bool :=
  if ch ≤ 0x17#8 ∨ ch = 0x7F#8 then (0#8, false) else (ch, true)

def prepDomainLabelAscii (ch : Byte) : Byte × Bool :=
  if 0x41#8 ≤ ch ∧ ch ≤ 0x5A#8 then (ch + 0x20#8, true)
  else if ch ≤ 0x2C#8 ∨ ch = 0x2E#8 ∨ ch = 0x2F#8 ∨ (0x3A#8 ≤ ch ∧ ch ≤ 0x40#8) ∨
      (0x5B#8 ≤ ch ∧ ch ≤ 0x60#8) ∨ (0x7B#8 ≤ ch ∧ ch ≤ 0x7F#8) then (0#8, false)
  else (ch, true)

/-- The longest part of a JID. -/
def maxPart : ℕ := 1023

/-- The longest label of a domain. -/
def maxLabel : ℕ := 63

/-- The loop over the characters of a node or a label: every one is mapped, and the
first that is not valid ends it. -/
def prepChars (map : Byte → Byte × Bool) : Text → Option Text
  | [] => some []
  | ch :: str => if !(map ch).2 then none else (prepChars map str).map ((map ch).1 :: ·)

/-- What `prepNode` does with a character. -/
def prepNodeChar (ch : Byte) : Byte × Bool :=
  if ch ≤ 0x7F#8 then prepNodeAscii ch else (tolower ch, true)

/-- `prepNode`: nothing if the node is not valid. -/
def prepNode (str : Text) : Option Text :=
  match prepChars prepNodeChar str with
  | none => none
  | some result => if maxPart < result.length then none else some result

/-- What `prepResource` does with a character: it does not ask whether it is valid. -/
def prepResourceChar (ch : Byte) : Byte :=
  if ch ≤ 0x7F#8 then (prepResourceAscii ch).1 else ch

def prepResource (str : Text) : Option Text :=
  let result := str.map prepResourceChar
  if maxPart < result.length then none else some result

/-- What `prepDomainLabel` does with a character. -/
def prepLabelChar (ch : Byte) : Byte × Bool :=
  if ch ≤ 0x7F#8 then prepDomainLabelAscii ch else (ch, true)

/-- `prepDomainLabel`: what it adds to the buffer. -/
def prepDomainLabel (str : Text) : Option Text :=
  match prepChars prepLabelChar str with
  | none => none
  | some label =>
    if label.length = 0 then none
    else if maxLabel < label.length then none
    else if label.head? = some 0x2D#8 then none
    else if label.getLast? = some 0x2D#8 then none
    else some label

/-- The loop of `prepDomain` over the rest of the text; `label` is what lies
between `last` and here, `buf` what has been prepared. -/
def prepLabels : Text → Text → Text → Option Text
  | [], label, buf => (prepDomainLabel label).map (buf ++ ·)
  | ch :: str, label, buf =>
    if ch = 0x2E#8 then
      match prepDomainLabel label with
      | none => none
      | some prepared => prepLabels str [] (buf ++ prepared ++ [0x2E#8])
    else prepLabels str (label ++ [ch]) buf

def prepDomain (str : Text) : Option Text :=
  match prepLabels str [] [] with
  | none => none
  | some result => if maxPart < result.length then none else some result

/-! ### JIDs -/

structure Jid.Data where
  node : Text
  domain : Text
  resource : Text
  deriving DecidableEq, Repr

/-- `Jid`: its data, or none. -/
structure Jid where
  data : Option Jid.Data
  deriving DecidableEq, Repr

/-- The texts before and after the first separator; no second one if there is none. -/
def splitFirst (sep : Byte) : Text → Text × Option Text
  | [] => ([], none)
  | ch :: str =>
    if ch = sep then ([], some str)
    else
      let (before, after) := splitFirst sep str
      (ch :: before, after)

/-- Common domains are not allocated again. -/
def sharedDomain (domain : Text) : Text :=
  if domain = textBytes "gmail.com" then textBytes "gmail.com"
  else if domain = textBytes "googlemail.com" then textBytes "googlemail.com"
  else if domain = textBytes "google.com" then textBytes "google.com"
  else domain

/-- `std::string::compare`: bytes are compared as unsigned numbers. -/
def compareText : Text → Text → Ordering
  | [], [] => .eq
  | [], _ :: _ => .lt
  | _ :: _, [] => .gt
  | a :: as, b :: bs => if a < b then .lt else if b < a then .gt else compareText as bs

namespace Jid

/-- The constructor from three parts. -/
def ofParts (node domain resource : Text) : Jid :=
  if domain = [] then ⟨none⟩
  else
    match prepNode node, prepDomain domain, prepResource resource with
    | some node, some domain, some resource => ⟨some ⟨node, domain, resource⟩⟩
    | _, _, _ => ⟨none⟩

/-- The constructor from a text: the resource follows the first slash, the node
precedes the first at-sign before it. -/
def ofString (jid : Text) : Jid :=
  if jid = [] then ⟨none⟩
  else
    let (beforeSlash, resource) := splitFirst 0x2F#8 jid
    let (node, domain) :=
      match splitFirst 0x40#8 beforeSlash with
      | (_, none) => ([], beforeSlash)
      | (node, some domain) => (node, domain)
    let domain := sharedDomain domain
    if domain = [] then ⟨none⟩
    else
      match prepNode node, prepDomain domain, prepResource (resource.getD []) with
      | some node, some domain, some resource => ⟨some ⟨node, domain, resource⟩⟩
      | _, _, _ => ⟨none⟩

/-- The constructor of the special JIDs. -/
def special (isSpecial : Bool) (text : Text) : Jid :=
  if isSpecial then ⟨some ⟨text, [], []⟩⟩ else ⟨none⟩

variable (j : Jid)

def isValid : Bool :=
  match j.data with
  | none => false
  | some d => d.domain ≠ []

/-- `Str` of the parts. -/
def Data.str (d : Data) : Text :=
  (if d.node ≠ [] then d.node ++ [0x40#8] else []) ++ d.domain ++
    if d.resource ≠ [] then 0x2F#8 :: d.resource else []

def str : Text :=
  match j.data with
  | none => []
  | some d => if d.domain ≠ [] then d.str else []

def isFull : Bool :=
  match j.data with
  | none => false
  | some d => j.isValid && d.resource ≠ []

def bareJid : Jid :=
  match j.data with
  | none => ⟨none⟩
  | some d =>
    if !j.isValid then ⟨none⟩
    else if !j.isFull then j
    else ofParts d.node d.domain []

/-- `node`: empty without data, like the other parts. -/
def node : Text := (j.data.map Data.node).getD []

def domain : Text := (j.data.map Data.domain).getD []

def resource : Text := (j.data.map Data.resource).getD []

def bareEquals (a b : Jid) : Bool :=
  match a.data, b.data with
  | none, none => true
  | some d, some e => e.node = d.node ∧ e.domain = d.domain
  | _, _ => false

/-- `operator==`. -/
def eqv (a b : Jid) : Bool :=
  match a.data, b.data with
  | none, none => true
  | some d, some e => d.node = e.node ∧ d.domain = e.domain ∧ d.resource = e.resource
  | _, _ => false

/-- `Compare`: the sign of the result. -/
def compare (a b : Jid) : Ordering :=
  match a.data, b.data with
  | none, none => .eq
  | none, some _ => .lt
  | some _, none => .gt
  | some d, some e =>
    match compareText d.node e.node with
    | .lt => .lt
    | .gt => .gt
    | .eq =>
      match compareText d.domain e.domain with
      | .lt => .lt
      | .gt => .gt
      | .eq => compareText d.resource e.resource

/-- `IsBare`; the empty JID is bare. -/
def isBare : Bool :=
  if compare j ⟨none⟩ = .eq then true else j.isValid && j.resource = []

end Jid

/-! ### Preparing is idempotent -/

/-- A mapped character that is valid is mapped to itself. -/
def Settles (map : Byte → Byte × Bool) : Prop :=
  ∀ ch, (map ch).2 = true → map (map ch).1 = ((map ch).1, true)

theorem prepChars_idem {map : Byte → Byte × Bool} (hm : Settles map) {str out : Text}
    (h : prepChars map str = some out) : prepChars map out = some out := by
  induction str generalizing out with
  | nil =>
    obtain rfl := Option.some.inj h
    rfl
  | cons ch str ih =>
    rw [prepChars] at h
    split_ifs at h with hv
    rw [Bool.not_eq_true, Bool.not_eq_false'] at hv
    obtain ⟨rest, hrest, rfl⟩ := Option.map_eq_some_iff.1 h
    rw [prepChars, hm ch hv, ih hrest]
    rfl

theorem prepChars_forall {map : Byte → Byte × Bool} {P : Byte → Prop}
    (hm : ∀ ch, (map ch).2 = true → P (map ch).1) {str out : Text}
    (h : prepChars map str = some out) : ∀ ch ∈ out, P ch := by
  induction str generalizing out with
  | nil =>
    obtain rfl := Option.some.inj h
    exact fun ch hch => absurd hch List.not_mem_nil
  | cons ch str ih =>
    rw [prepChars] at h
    split_ifs at h with hv
    rw [Bool.not_eq_true, Bool.not_eq_false'] at hv
    obtain ⟨rest, hrest, rfl⟩ := Option.map_eq_some_iff.1 h
    intro c hc
    rcases List.mem_cons.1 hc with rfl | hc
    · exact hm ch hv
    · exact ih hrest c hc

theorem settles_node : Settles prepNodeChar := by
  intro ch
  revert ch
  decide

theorem settles_label : Settles prepLabelChar := by
  intro ch
  revert ch
  decide

theorem prepResourceChar_idem : ∀ ch, prepResourceChar (prepResourceChar ch) = prepResourceChar ch := by
  decide

theorem node_char : ∀ ch, (prepNodeChar ch).2 = true →
    (prepNodeChar ch).1 ≠ 0x2F#8 ∧ (prepNodeChar ch).1 ≠ 0x40#8 := by
  decide

theorem label_char : ∀ ch, (prepLabelChar ch).2 = true →
    (prepLabelChar ch).1 ≠ 0x2F#8 ∧ (prepLabelChar ch).1 ≠ 0x40#8 ∧
      (prepLabelChar ch).1 ≠ 0x2E#8 := by
  decide

theorem prepNode_some {str node : Text} (h : prepNode str = some node) :
    prepNode node = some node ∧ ∀ ch ∈ node, ch ≠ 0x2F#8 ∧ ch ≠ 0x40#8 := by
  rw [prepNode] at h
  split at h
  · cases h
  · next result hresult =>
    split_ifs at h with hlen
    obtain rfl := Option.some.inj h
    refine ⟨?_, prepChars_forall node_char hresult⟩
    rw [prepNode, prepChars_idem settles_node hresult]
    exact if_neg hlen

theorem prepResource_some {str resource : Text} (h : prepResource str = some resource) :
    prepResource resource = some resource := by
  rw [prepResource] at h
  split_ifs at h with hlen
  obtain rfl := Option.some.inj h
  have hmap : (str.map prepResourceChar).map prepResourceChar = str.map prepResourceChar := by
    rw [List.map_map]
    exact List.map_congr_left fun ch _ => prepResourceChar_idem ch
  rw [prepResource, hmap]
  exact if_neg hlen

theorem prepDomainLabel_some {str label : Text} (h : prepDomainLabel str = some label) :
    prepDomainLabel label = some label ∧ label ≠ [] ∧
      ∀ ch ∈ label, ch ≠ 0x2F#8 ∧ ch ≠ 0x40#8 ∧ ch ≠ 0x2E#8 := by
  rw [prepDomainLabel] at h
  split at h
  · cases h
  · next result hresult =>
    split_ifs at h with h₀ h₁ h₂ h₃
    obtain rfl := Option.some.inj h
    refine ⟨?_, fun hnil => h₀ (by rw [hnil, List.length_nil]),
      prepChars_forall label_char hresult⟩
    rw [prepDomainLabel, prepChars_idem settles_label hresult]
    dsimp only
    rw [if_neg h₀, if_neg h₁, if_neg h₂, if_neg h₃]

theorem prepLabels_append {str : Text} (h : ∀ ch ∈ str, ch ≠ 0x2E#8) (rest label buf : Text) :
    prepLabels (str ++ rest) label buf = prepLabels rest (label ++ str) buf := by
  induction str generalizing label with
  | nil => rw [List.nil_append, List.append_nil]
  | cons ch str ih =>
    rw [List.cons_append, prepLabels, if_neg (h ch List.mem_cons_self),
      ih fun c hc => h c (List.mem_cons_of_mem _ hc), List.append_assoc, List.singleton_append]

theorem prepLabels_some {str label buf out : Text} (h : prepLabels str label buf = some out) :
    ∃ added, out = buf ++ added ∧ added ≠ [] ∧
      (∀ buf', prepLabels added [] buf' = some (buf' ++ added)) ∧
      ∀ ch ∈ added, ch ≠ 0x2F#8 ∧ ch ≠ 0x40#8 := by
  induction str generalizing label buf with
  | nil =>
    obtain ⟨prepared, hp, rfl⟩ := Option.map_eq_some_iff.1 h
    obtain ⟨hagain, hne, hchars⟩ := prepDomainLabel_some hp
    refine ⟨prepared, rfl, hne, fun buf' => ?_, fun ch hch => ⟨(hchars ch hch).1, (hchars ch hch).2.1⟩⟩
    have hlabel := prepLabels_append (fun ch hch => (hchars ch hch).2.2) [] [] buf'
    rw [List.append_nil, List.nil_append] at hlabel
    rw [hlabel, prepLabels, hagain]
    rfl
  | cons ch str ih =>
    rw [prepLabels] at h
    split_ifs at h with hdot
    · split at h
      · cases h
      · next prepared hp =>
        obtain ⟨hagain, -, hchars⟩ := prepDomainLabel_some hp
        obtain ⟨added, rfl, hne, hadded, hsep⟩ := ih h
        refine ⟨prepared ++ 0x2E#8 :: added, by simp, by simp, fun buf' => ?_, fun c hc => ?_⟩
        · rw [prepLabels_append (fun c hc => (hchars c hc).2.2), List.nil_append, prepLabels,
            if_pos rfl, hagain]
          dsimp only
          rw [hadded]
          simp
        · rcases List.mem_append.1 hc with hc | hc
          · exact ⟨(hchars c hc).1, (hchars c hc).2.1⟩
          · rcases List.mem_cons.1 hc with rfl | hc
            · decide
            · exact hsep c hc
    · exact ih h

theorem prepDomain_some {str domain : Text} (h : prepDomain str = some domain) :
    prepDomain domain = some domain ∧ domain ≠ [] ∧
      ∀ ch ∈ domain, ch ≠ 0x2F#8 ∧ ch ≠ 0x40#8 := by
  rw [prepDomain] at h
  split at h
  · cases h
  · next result hresult =>
    split_ifs at h with hlen
    obtain rfl := Option.some.inj h
    obtain ⟨added, hout, hne, hagain, hsep⟩ := prepLabels_some hresult
    rw [List.nil_append] at hout
    subst hout
    refine ⟨?_, hne, hsep⟩
    rw [prepDomain, hagain, List.nil_append]
    exact if_neg hlen

/-! ### Printing and reading -/

theorem splitFirst_none {sep : Byte} {str : Text} (h : ∀ ch ∈ str, ch ≠ sep) :
    splitFirst sep str = (str, none) := by
  induction str with
  | nil => rfl
  | cons ch str ih =>
    rw [splitFirst, if_neg (h ch List.mem_cons_self),
      ih fun c hc => h c (List.mem_cons_of_mem _ hc)]

theorem splitFirst_append {sep : Byte} {str : Text} (h : ∀ ch ∈ str, ch ≠ sep) (rest : Text) :
    splitFirst sep (str ++ sep :: rest) = (str, some rest) := by
  induction str with
  | nil => exact if_pos rfl
  | cons ch str ih =>
    rw [List.cons_append, splitFirst, if_neg (h ch List.mem_cons_self),
      ih fun c hc => h c (List.mem_cons_of_mem _ hc)]

@[simp] theorem sharedDomain_eq (domain : Text) : sharedDomain domain = domain := by
  rw [sharedDomain]
  split_ifs with h₁ h₂ h₃
  · exact h₁.symm
  · exact h₂.symm
  · exact h₃.symm
  · rfl

namespace Jid

/-- Parts that preparing leaves alone. -/
structure Data.Prepared (d : Data) : Prop where
  node : prepNode d.node = some d.node
  domain : prepDomain d.domain = some d.domain
  resource : prepResource d.resource = some d.resource

variable {d e : Data}

theorem Data.Prepared.nonempty (h : d.Prepared) : d.domain ≠ [] := (prepDomain_some h.domain).2.1

theorem prepared_of_match {node domain resource : Text}
    (h : (match prepNode node, prepDomain domain, prepResource resource with
      | some node, some domain, some resource => (⟨some ⟨node, domain, resource⟩⟩ : Jid)
      | _, _, _ => ⟨none⟩).data = some d) : d.Prepared := by
  split at h
  · next node' domain' resource' hn hd hr =>
    obtain rfl := Option.some.inj h
    exact ⟨(prepNode_some hn).1, (prepDomain_some hd).1, prepResource_some hr⟩
  · cases h

theorem ofParts_prepared {node domain resource : Text}
    (h : (ofParts node domain resource).data = some d) : d.Prepared := by
  rw [ofParts] at h
  split_ifs at h
  exact prepared_of_match h

theorem ofString_prepared {str : Text} (h : (ofString str).data = some d) : d.Prepared := by
  rw [ofString] at h
  split_ifs at h
  dsimp only at h
  split_ifs at h
  exact prepared_of_match h

theorem ofString_str (h : d.Prepared) : ofString d.str = ⟨some d⟩ := by
  have hne := h.nonempty
  have hnode := (prepNode_some h.node).2
  have hdomain := (prepDomain_some h.domain).2.2
  set name := (if d.node ≠ [] then d.node ++ [0x40#8] else []) ++ d.domain with hname
  -- the first slash is the one before the resource
  have hslash : splitFirst 0x2F#8 d.str =
      (name, if d.resource ≠ [] then some d.resource else none) := by
    have hfree : ∀ ch ∈ name, ch ≠ 0x2F#8 := by
      intro ch hch
      rw [hname] at hch
      rcases List.mem_append.1 hch with hch | hch
      · split_ifs at hch with hn
        · rcases List.mem_append.1 hch with hch | hch
          · exact (hnode ch hch).1
          · rw [List.mem_singleton.1 hch]
            decide
        · exact absurd hch List.not_mem_nil
      · exact (hdomain ch hch).1
    rw [Data.str, ← hname]
    split_ifs with hr
    · exact splitFirst_append hfree d.resource
    · rw [List.append_nil]
      exact splitFirst_none hfree
  -- the first at-sign before it is the one after the node
  have hat : (match splitFirst 0x40#8 name with
      | (_, none) => ([], name)
      | (node, some domain) => (node, domain)) = (d.node, d.domain) := by
    rw [hname]
    split_ifs with hn
    · rw [List.append_assoc, List.singleton_append,
        splitFirst_append (fun ch hch => (hnode ch hch).2)]
    · rw [List.nil_append, splitFirst_none fun ch hch => (hdomain ch hch).2]
      rw [not_not.1 hn]
  have hstr : d.str ≠ [] := by
    rw [Data.str]
    simp [hne]
  have hresource : (if d.resource ≠ [] then some d.resource else none).getD [] = d.resource := by
    split_ifs with hr
    · rfl
    · exact (not_not.1 hr).symm
  rw [ofString, if_neg hstr, hslash]
  dsimp only
  rw [hat]
  dsimp only
  rw [sharedDomain_eq, if_neg hne, h.node, h.domain, hresource, h.resource]

/-- The JIDs that the constructors of the class make. -/
inductive Made : Jid → Prop
  | ofString (str : Text) : Made (ofString str)
  | ofParts (node domain resource : Text) : Made (ofParts node domain resource)
  | special (isSpecial : Bool) (text : Text) : Made (special isSpecial text)
  | bareJid {j : Jid} : Made j → Made j.bareJid

theorem Made.prepared {j : Jid} (hm : Made j) (hv : j.isValid) :
    ∃ d, j = ⟨some d⟩ ∧ d.Prepared := by
  have some_of : ∀ j : Jid, j.isValid → ∃ d, j.data = some d := by
    intro j hv
    rw [isValid] at hv
    split at hv
    · cases hv
    · next d hd => exact ⟨d, hd⟩
  induction hm with
  | ofString str =>
    obtain ⟨d, hd⟩ := some_of _ hv
    exact ⟨d, by rw [← hd], ofString_prepared hd⟩
  | ofParts node domain resource =>
    obtain ⟨d, hd⟩ := some_of _ hv
    exact ⟨d, by rw [← hd], ofParts_prepared hd⟩
  | special isSpecial text =>
    -- its domain is empty
    rcases isSpecial with _ | _ <;> cases hv
  | bareJid hm ih =>
    next j =>
    rw [Jid.bareJid] at hv ⊢
    split at hv
    · cases hv
    · next d hd =>
      split_ifs at hv ⊢ with hinvalid hfull
      · cases hv
      · exact ih hv
      · obtain ⟨d', hd'⟩ := some_of _ hv
        exact ⟨d', by rw [← hd'], ofParts_prepared hd'⟩

theorem str_of_prepared (h : d.Prepared) : str ⟨some d⟩ = d.str := if_pos h.nonempty

/-! ### The order -/

/-- The bytes of a text as numbers: their order is that of `compareText`. -/
def bytesOf (t : Text) : List ℕ := t.map BitVec.toNat

theorem bytesOf_injective : Function.Injective bytesOf :=
  List.map_injective_iff.2 fun _ _ h => BitVec.eq_of_toNat_eq h

theorem compareText_iff (a b : Text) :
    (compareText a b = .lt ↔ bytesOf a < bytesOf b) ∧ (compareText a b = .eq ↔ a = b) := by
  induction a generalizing b with
  | nil => rcases b with _ | ⟨y, b⟩ <;> simp [compareText, bytesOf]
  | cons x a ih =>
    rcases b with _ | ⟨y, b⟩
    · simp [compareText, bytesOf]
    · have hcons : bytesOf (x :: a) < bytesOf (y :: b) ↔
          x.toNat < y.toNat ∨ x.toNat = y.toNat ∧ bytesOf a < bytesOf b :=
        List.cons_lt_cons_iff
      rw [hcons, compareText]
      simp only [BitVec.lt_def]
      obtain ⟨hlt, heq⟩ := ih b
      split_ifs with h₁ h₂
      · refine ⟨iff_of_true rfl (.inl h₁), iff_of_false (by simp) ?_⟩
        rintro ⟨⟩
        exact lt_irrefl _ h₁
      · refine ⟨iff_of_false (by simp) (by omega), iff_of_false (by simp) ?_⟩
        rintro ⟨⟩
        exact lt_irrefl _ h₂
      · have hxy : x = y := BitVec.eq_of_toNat_eq (by omega)
        subst hxy
        rw [hlt, heq]
        simp

theorem compareText_orderedBy : OrderedBy compareText bytesOf where
  lt := fun a b => (compareText_iff a b).1
  eq := fun a b => (compareText_iff a b).2.trans bytesOf_injective.eq_iff.symm

/-- The parts as a value of a linear order. -/
def Data.key (d : Data) : List ℕ ×ₗ List ℕ ×ₗ List ℕ :=
  toLex (bytesOf d.node, toLex (bytesOf d.domain, bytesOf d.resource))

/-- A JID as a value of a linear order: the null JID comes first. -/
def key (j : Jid) : WithBot (List ℕ ×ₗ List ℕ ×ₗ List ℕ) :=
  match j.data with
  | none => ⊥
  | some d => (d.key : WithBot _)

theorem Data.key_injective : Function.Injective Data.key := by
  intro d e h
  obtain ⟨hnode, h⟩ := Prod.mk.inj (toLex.injective h)
  obtain ⟨hdomain, hresource⟩ := Prod.mk.inj (toLex.injective h)
  rcases d with ⟨n, m, r⟩
  rcases e with ⟨n', m', r'⟩
  rw [Data.mk.injEq]
  exact ⟨bytesOf_injective hnode, bytesOf_injective hdomain, bytesOf_injective hresource⟩

theorem key_injective : Function.Injective key := by
  rintro ⟨_ | d⟩ ⟨_ | e⟩ h
  · rfl
  · exact absurd h WithBot.bot_ne_coe
  · exact absurd h.symm WithBot.bot_ne_coe
  · rw [Data.key_injective (WithBot.coe_injective h)]

theorem compareData_orderedBy :
    OrderedBy (fun d e : Data => compare ⟨some d⟩ ⟨some e⟩) Data.key := by
  have hparts : (fun d e : Data => compare ⟨some d⟩ ⟨some e⟩) = fun d e =>
      (compareText d.node e.node).then
        ((compareText d.domain e.domain).then (compareText d.resource e.resource)) := by
    funext d e
    rw [compare]
    dsimp only
    rcases compareText d.node e.node with _ | _ | _ <;>
      rcases compareText d.domain e.domain with _ | _ | _ <;> rfl
  rw [hparts]
  exact (compareText_orderedBy.comap Data.node).thenBy
    ((compareText_orderedBy.comap Data.domain).thenBy (compareText_orderedBy.comap Data.resource))

theorem compare_orderedBy : OrderedBy compare key where
  lt := by
    rintro ⟨_ | d⟩ ⟨_ | e⟩
    · exact iff_of_false (by simp [compare]) (lt_irrefl _)
    · exact iff_of_true rfl (WithBot.bot_lt_coe _)
    · exact iff_of_false (by simp [compare]) (WithBot.bot_lt_coe _).not_gt
    · exact (compareData_orderedBy.lt d e).trans WithBot.coe_lt_coe.symm
  eq := by
    rintro ⟨_ | d⟩ ⟨_ | e⟩
    · exact iff_of_true rfl rfl
    · exact iff_of_false (by simp [compare]) WithBot.bot_ne_coe
    · exact iff_of_false (by simp [compare]) WithBot.coe_ne_bot
    · exact (compareData_orderedBy.eq d e).trans WithBot.coe_inj.symm

theorem compare_eq_iff {a b : Jid} : compare a b = .eq ↔ a = b :=
  (compare_orderedBy.eq a b).trans key_injective.eq_iff

theorem eqv_iff {a b : Jid} : eqv a b ↔ a = b := by
  rcases a with ⟨_ | ⟨n, m, r⟩⟩ <;> rcases b with ⟨_ | ⟨n', m', r'⟩⟩ <;> simp [eqv]

/-- What a total order is, for a function like `Compare`. -/
structure TotalOrder (cmp : Jid → Jid → Ordering) : Prop where
  swap : ∀ a b, cmp b a = (cmp a b).swap
  trans : ∀ a b c, cmp a b ≠ .gt → cmp b c ≠ .gt → cmp a c ≠ .gt
  antisymm : ∀ a b, cmp a b = .eq ↔ eqv a b

theorem compare_totalOrder : TotalOrder compare where
  swap := compare_orderedBy.swap
  trans := fun _ _ _ => compare_orderedBy.trans
  antisymm := by
    intro a b
    rw [compare_eq_iff, eqv_iff]

/-! ### The canonical form -/

theorem str_eq_iff {a b : Jid} (ha : Made a) (hb : Made b) (hva : a.isValid) (hvb : b.isValid) :
    a.str = b.str ↔ a = b := by
  obtain ⟨d, rfl, hd⟩ := ha.prepared hva
  obtain ⟨e, rfl, he⟩ := hb.prepared hvb
  constructor
  · intro h
    rw [str_of_prepared hd, str_of_prepared he] at h
    rw [← ofString_str hd, ← ofString_str he, h]
  · intro h
    rw [h]

theorem ofString_str_of_made {j : Jid} (hm : Made j) (hv : j.isValid) : ofString j.str = j := by
  obtain ⟨d, rfl, hd⟩ := hm.prepared hv
  rw [str_of_prepared hd, ofString_str hd]

/-- **The canonical form.**  Reading what was printed gives an equal JID, so that
printing again gives the same text; for valid JIDs the three equalities agree; and
`Compare` is a total order. -/
theorem canonical_form :
    (∀ s, (ofString s).isValid →
      eqv (ofString (ofString s).str) (ofString s) ∧
        (ofString (ofString s).str).str = (ofString s).str) ∧
    (∀ node domain resource, (ofParts node domain resource).isValid →
      eqv (ofString (ofParts node domain resource).str) (ofParts node domain resource)) ∧
    (∀ a b, Made a → Made b → a.isValid → b.isValid →
      (eqv a b ↔ compare a b = .eq) ∧ (eqv a b ↔ a.str = b.str)) ∧
    TotalOrder compare := by
  refine ⟨fun s hv => ?_, fun node domain resource hv => ?_, fun a b ha hb hva hvb => ?_,
    compare_totalOrder⟩
  · have h := ofString_str_of_made (.ofString s) hv
    exact ⟨eqv_iff.2 h, by rw [h]⟩
  · exact eqv_iff.2 (ofString_str_of_made (.ofParts node domain resource) hv)
  · rw [eqv_iff, compare_eq_iff, str_eq_iff ha hb hva hvb]
    exact ⟨Iff.rfl, Iff.rfl⟩

/-- A JID in capitals whose resource holds both separators. -/
theorem canonical_form_capitals :
    (ofString (textBytes "Juliet@Capulet.COM/Balcony/@1")).str =
        textBytes "juliet@capulet.com/Balcony/@1" ∧
      (ofString (ofString (textBytes "Juliet@Capulet.COM/Balcony/@1")).str).str =
        (ofString (textBytes "Juliet@Capulet.COM/Balcony/@1")).str := by
  refine ⟨by decide, (canonical_form.1 _ ?_).2⟩
  decide

end Jid

end Jingle.Xmpp
