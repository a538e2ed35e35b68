/-
The elements of a message.

An element has a name, attributes and child elements; the text between its
children is left out, since nothing here reads it.  Setting an attribute
replaces the one of that name, or adds it at the end, so that an attribute is
read as it was set last: `attr_setAttr`, `hasAttr_setAttr`.
-/
import Jingle.Signaling.Message

namespace Jingle.Signaling

structure QName where
  namespace_ : Text
  localPart : Text
  deriving DecidableEq, Repr

def QName.merged (n : QName) : Text :=
  if n.namespace_ = [] then n.localPart else n.namespace_ ++ textBytes ":" ++ n.localPart

structure XmlElement where
  name : QName
  attrs : List (QName × Text)
  children : List XmlElement

namespace XmlElement

/-- An element of the name, without attributes or children. -/
def new (name : QName) : XmlElement := { name := name, attrs := [], children := [] }

/-- `Attr`: empty without the attribute. -/
def attr (e : XmlElement) (name : QName) : Text := (e.attrs.lookup name).getD []

def hasAttr (e : XmlElement) (name : QName) : Bool := (e.attrs.lookup name).isSome

/-- The attributes with one of them set. -/
def setIn (name : QName) (value : Text) : List (QName × Text) → List (QName × Text)
  | [] => [(name, value)]
  | a :: attrs => if a.1 = name then (name, value) :: attrs else a :: setIn name value attrs

def setAttr (e : XmlElement) (name : QName) (value : Text) : XmlElement :=
  { e with attrs := setIn name value e.attrs }

def addXmlChildren (e : XmlElement) (elems : List XmlElement) : XmlElement :=
  { e with children := e.children ++ elems }

/-- The children that `FirstNamed` and `NextNamed` go through. -/
def childrenNamed (e : XmlElement) (name : QName) : List XmlElement :=
  e.children.filter fun child => child.name = name

/-- `GetXmlChild`: the first child with the local part. -/
def getXmlChild (e : XmlElement) (localPart : Text) : Option XmlElement :=
  e.children.find? fun child => child.name.localPart = localPart

theorem lookup_setIn (name n : QName) (value : Text) (attrs : List (QName × Text)) :
    (setIn name value attrs).lookup n = if n = name then some value else attrs.lookup n := by
  induction attrs with
  | nil =>
    by_cases h : n = name
    · simp [setIn, h]
    · simp [setIn, List.lookup_cons, beq_eq_false_iff_ne.2 h, h]
  | cons a attrs ih =>
    obtain ⟨m, v⟩ := a
    by_cases hm : m = name
    · by_cases h : n = name
      · simp [setIn, hm, h]
      · simp [setIn, List.lookup_cons, hm, beq_eq_false_iff_ne.2 h, h]
    · by_cases hn : n = m
      · simp [setIn, hm, hn]
      · simp [setIn, List.lookup_cons, hm, beq_eq_false_iff_ne.2 hn, ih]

@[simp] theorem name_setAttr (e : XmlElement) (n : QName) (v : Text) :
    (e.setAttr n v).name = e.name := rfl

@[simp] theorem children_setAttr (e : XmlElement) (n : QName) (v : Text) :
    (e.setAttr n v).children = e.children := rfl

theorem attr_setAttr (e : XmlElement) (name n : QName) (value : Text) :
    (e.setAttr name value).attr n = if n = name then value else e.attr n := by
  rw [attr, setAttr, lookup_setIn]
  split <;> rfl

theorem hasAttr_setAttr (e : XmlElement) (name n : QName) (value : Text) :
    (e.setAttr name value).hasAttr n = (n = name || e.hasAttr n) := by
  rw [hasAttr, setAttr, lookup_setIn]
  split <;> simp_all [hasAttr]

end XmlElement

def requireXmlChild (parent : XmlElement) (localPart : Text) : Except Text XmlElement :=
  match parent.getXmlChild localPart with
  | some child => .ok child
  | none => .error (textBytes "element '" ++ parent.name.merged ++
      textBytes "' missing required child '" ++ localPart)

def requireXmlAttr (e : XmlElement) (name : QName) : Except Text Text :=
  if e.hasAttr name then .ok (e.attr name)
  else .error (textBytes "element '" ++ e.name.merged ++
    textBytes "' missing required attribute '" ++ name.merged ++ textBytes "'")

end Jingle.Signaling
