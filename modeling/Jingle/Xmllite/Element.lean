/-
XML elements and namespaces.

The children of an element are a chain, each with the next, as they are linked in
the source.  `AddParsedText` joins the texts that follow each other.

An `XmlnsStack` holds the declarations in scope, newest first here, and the sizes
it had when each open element was entered.
-/
import Jingle.Signaling.Xml
import Jingle.Lib.Numeral

namespace Jingle.Xmllite

open Signaling

def nsXml : Text := textBytes "http://www.w3.org/XML/1998/namespace"

def nsXmlns : Text := textBytes "http://www.w3.org/2000/xmlns/"

def qnEmpty : QName := ⟨[], []⟩

def qnXmlns : QName := ⟨[], textBytes "xmlns"⟩

/-- The children of an element: texts and elements, each before the next. -/
inductive XmlChildren
  | nil
  | text (text : Text) (next : XmlChildren)
  | element (name : QName) (attrs : List (QName × Text)) (cdata : Bool)
      (first next : XmlChildren)
  deriving DecidableEq, Repr

structure XmlElement where
  name : QName
  attrs : List (QName × Text)
  cdata : Bool
  children : XmlChildren
  deriving DecidableEq, Repr

namespace XmlChildren

/-- The last child becomes an element. -/
def addElement (e : XmlElement) : XmlChildren → XmlChildren
  | nil => element e.name e.attrs e.cdata e.children nil
  | text t next => text t (next.addElement e)
  | element name attrs cdata first next => element name attrs cdata first (next.addElement e)

/-- A text that is not empty is added, to the last child if that is a text. -/
def appendText (t : Text) : XmlChildren → XmlChildren
  | nil => text t nil
  | text u nil => text (u ++ t) nil
  | text u next => text u (next.appendText t)
  | element name attrs cdata first next => element name attrs cdata first (next.appendText t)

/-- `AddParsedText` and `AddText`. -/
def addText (t : Text) (c : XmlChildren) : XmlChildren := if t = [] then c else c.appendText t

/-- The elements among the children. -/
def elements : XmlChildren → List XmlElement
  | nil => []
  | text _ next => next.elements
  | element name attrs cdata first next => ⟨name, attrs, cdata, first⟩ :: next.elements

theorem appendText_appendText (t u : Text) : ∀ c : XmlChildren,
    (c.appendText t).appendText u = c.appendText (t ++ u)
  | nil => rfl
  | text v nil => by simp only [appendText, List.append_assoc]
  | text v (text w next) => by
    have ih := appendText_appendText t u (text w next)
    cases next <;> simp_all [appendText]
  | text v (element name attrs cdata first next) => by
    have ih := appendText_appendText t u next
    simp only [appendText, ih]
  | element name attrs cdata first next => by
    have ih := appendText_appendText t u next
    simp only [appendText, ih]

theorem addText_addText (t u : Text) (c : XmlChildren) :
    (c.addText t).addText u = c.addText (t ++ u) := by
  unfold addText
  by_cases ht : t = []
  · rw [if_pos ht, ht, List.nil_append]
  · by_cases hu : u = []
    · rw [if_pos hu, hu, List.append_nil]
    · rw [if_neg ht, if_neg hu, if_neg (by simp [ht]), appendText_appendText]

end XmlChildren

namespace XmlElement

/-- An element of the name. -/
def new (name : QName) : XmlElement := { name, attrs := [], cdata := false, children := .nil }

/-- An element that declares its namespace as the default. -/
def newDefaultNs (name : QName) : XmlElement :=
  { XmlElement.new name with attrs := [(qnXmlns, name.namespace_)] }

variable (e : XmlElement)

/-- `Attr`: empty without the attribute. -/
def attr (name : QName) : Text := (e.attrs.lookup name).getD []

def hasAttr (name : QName) : Bool := (e.attrs.lookup name).isSome

def addAttr (name : QName) (value : Text) : XmlElement :=
  { e with attrs := e.attrs ++ [(name, value)] }

def addElement (child : XmlElement) : XmlElement :=
  { e with children := e.children.addElement child }

/-- `AddText` and `AddParsedText`. -/
def addText (t : Text) : XmlElement := { e with children := e.children.addText t }

/-- `BodyText`: the text, if it is the only child. -/
def bodyText : Text :=
  match e.children with
  | .text t .nil => t
  | _ => []

def firstElement : Option XmlElement := e.children.elements.head?

/-- The elements that `FirstNamed` and `NextNamed` go through. -/
def elementsNamed (name : QName) : List XmlElement :=
  e.children.elements.filter fun child => child.name = name

def firstNamed (name : QName) : Option XmlElement := (e.elementsNamed name).head?

def textNamed (name : QName) : Text :=
  match e.firstNamed name with
  | some child => child.bodyText
  | none => []

end XmlElement

/-! ### Namespaces -/

structure XmlnsStack where
  xmlns : List (Text × Text)
  depths : List ℕ
  deriving DecidableEq, Repr

namespace XmlnsStack

/-- A new stack. -/
def empty : XmlnsStack := { xmlns := [], depths := [] }

variable (s : XmlnsStack)

def pushFrame : XmlnsStack := { s with depths := s.xmlns.length :: s.depths }

def popFrame : XmlnsStack :=
  match s.depths with
  | [] => s
  | prevSize :: depths => { xmlns := s.xmlns.drop (s.xmlns.length - prevSize), depths }

def addXmlns (pre ns : Text) : XmlnsStack := { s with xmlns := (pre, ns) :: s.xmlns }

/-- The letter in either case. -/
def isLetter (lower upper : Byte) (ch : Byte) : Bool := ch = lower || ch = upper

/-- The prefixes that start with `xml` in any case. -/
def isXmlPrefix : Text → Bool
  | a :: b :: c :: _ =>
    isLetter 0x78 0x58 a && isLetter 0x6D 0x4D b && isLetter 0x6C 0x4C c
  | _ => false

def nsForPrefix (pre : Text) : Option Text :=
  if isXmlPrefix pre then
    if pre = textBytes "xml" then some nsXml
    else if pre = textBytes "xmlns" then some nsXmlns
    else none
  else
    match s.xmlns.lookup pre with
    | some ns => some ns
    | none => if pre = [] then some [] else none

def prefixMatchesNs (pre ns : Text) : Bool := s.nsForPrefix pre = some ns

/-- `PrefixForNs`: a prefix that stands for the namespace, if there is one. -/
def prefixForNs (ns : Text) (isAttr : Bool) : Option Text :=
  if ns = nsXml then some (textBytes "xml")
  else if ns = nsXmlns then some (textBytes "xmlns")
  else if if isAttr then ns = [] else s.prefixMatchesNs [] ns then some []
  else
    (s.xmlns.find? fun d =>
      d.2 = ns && (!isAttr || d.1 ≠ []) && s.prefixMatchesNs d.1 ns).map Prod.fst

def formatQName (name : QName) (isAttr : Bool) : Text :=
  let pre := (s.prefixForNs name.namespace_ isAttr).getD []
  if pre = [] then name.localPart else pre ++ textBytes ":" ++ name.localPart

def isAsciiLetter (ch : Byte) : Bool :=
  (0x61#8 ≤ ch && ch ≤ 0x7A#8) || (0x41#8 ≤ ch && ch ≤ 0x5A#8)

def asciiLower (t : Text) : Text :=
  t.map fun ch => if 0x41#8 ≤ ch ∧ ch ≤ 0x5A#8 then ch + 0x20#8 else ch

/-- The namespace without an ending of at most four characters behind its last dot. -/
def chopEnding (ns : Text) : Text :=
  let ending := ns.reverse.takeWhile (· ≠ 0x2E#8)
  if ending.length < ns.length ∧ ending.length ≤ 4 then ns.take (ns.length - ending.length - 1)
  else ns

/-- `SuggestPrefix`: the last run of letters, three of them if there are more than
four. -/
def suggestPrefix (ns : Text) : Text :=
  let letters := (((chopEnding ns).reverse.dropWhile fun ch => !isAsciiLetter ch).takeWhile
    isAsciiLetter).reverse
  let candidate := asciiLower (if letters.length > 4 then letters.take 3 else letters)
  if letters ≠ [] ∧ candidate.take 3 ≠ textBytes "xml" then candidate else textBytes "ns"

/-- The loop of `AddNewPrefix`: the first number for which the prefix is free. -/
def freePrefix (base : Text) : ℕ → ℕ → Text → Text
  | 0, _, result => result
  | fuel + 1, i, result =>
    if s.nsForPrefix result = none then result
    else freePrefix base fuel (i + 1) (base ++ Numeral.decimal i)

/-- `AddNewPrefix`: the new prefix, if one is needed, and the stack with it. -/
def addNewPrefix (ns : Text) (isAttr : Bool) : Option Text × XmlnsStack :=
  match s.prefixForNs ns isAttr with
  | some _ => (none, s)
  | none =>
    let base := suggestPrefix ns
    let result := s.freePrefix base (s.xmlns.length + 2) 2 base
    (some result, s.addXmlns result ns)

end XmlnsStack

end Jingle.Xmllite
