/-
Parsing XML.

Expat is a parameter: `Expat.parse` is one call of `XML_Parse`, with the callbacks
that it makes.  `XmlParser` keeps the namespaces in scope and the first error that
is raised; after that no callback reaches its handler, and the handler is told
about the error at the end of the call (`XmlParser.parse`).

The builder's open elements are a list, innermost first, each with the children it
has so far; the source links a child to its parent when it is opened, and no one
looks at the element before it is complete.
-/
import Jingle.Xmllite.Element

namespace Jingle.Xmllite

open Signaling

/-- The callbacks that expat makes. -/
inductive Callback
  | xmlDecl (ver enc : Option Text) (standalone : ℤ)
  | startElement (name : Text) (atts : List (Text × Text))
  | endElement (name : Text)
  | characterData (text : Text)
  deriving DecidableEq, Repr

/-- Expat: its states, and `XML_Parse` with the callbacks and the error that it ends
with. -/
structure Expat where
  State : Type
  init : State
  parse : State → List Byte → Bool → State × List Callback × Option ℕ

/-- Callbacks with the pieces of character data put together. -/
def mergeText : List Callback → List Callback
  | [] => []
  | .characterData t :: cs =>
    match mergeText cs with
    | .characterData u :: rest => .characterData (t ++ u) :: rest
    | rest => if t = [] then rest else .characterData t :: rest
  | .xmlDecl ver enc standalone :: cs => .xmlDecl ver enc standalone :: mergeText cs
  | .startElement name atts :: cs => .startElement name atts :: mergeText cs
  | .endElement name :: cs => .endElement name :: mergeText cs

/-- All callbacks of a stream in chunks, up to expat's first error. -/
def Expat.run (E : Expat) : E.State → List (List Byte) → Bool → List Callback × Option ℕ
  | _, [], _ => ([], none)
  | s, [data], isFinal => (E.parse s data isFinal).2
  | s, data :: chunks, isFinal =>
    match E.parse s data false with
    | (_, cs, some code) => (cs, some code)
    | (s, cs, none) =>
      let (rest, err) := E.run s chunks isFinal
      (cs ++ rest, err)

theorem Expat.run_of_ok {E : Expat} {s s' : E.State} {data : List Byte} {cs : List Callback}
    (h : E.parse s data false = (s', cs, none)) (data' : List Byte) (chunks : List (List Byte))
    (isFinal : Bool) :
    E.run s (data :: data' :: chunks) isFinal =
      (cs ++ (E.run s' (data' :: chunks) isFinal).1, (E.run s' (data' :: chunks) isFinal).2) := by
  rw [run, h]
  simp

theorem Expat.run_of_error {E : Expat} {s s' : E.State} {data : List Byte} {cs : List Callback}
    {code : ℕ} (h : E.parse s data false = (s', cs, some code)) (data' : List Byte)
    (chunks : List (List Byte)) (isFinal : Bool) :
    E.run s (data :: data' :: chunks) isFinal = (cs, some code) := by
  rw [run, h]
  simp

/-- Expat makes the same callbacks for every split, up to the pieces of character
data, and ends with an error for all of them or for none. -/
def Expat.SplitsEvenly (E : Expat) : Prop :=
  ∀ chunks chunks' isFinal, chunks ≠ [] → chunks' ≠ [] → chunks.flatten = chunks'.flatten →
    mergeText (E.run E.init chunks isFinal).1 =
        mergeText (E.run E.init chunks' isFinal).1 ∧
      (E.run E.init chunks isFinal).2.isSome = (E.run E.init chunks' isFinal).2.isSome

/-- The errors that are raised, expat's own by their numbers. -/
inductive XmlError
  | syntax_ | incorrectEncoding | expat (code : ℕ)
  deriving DecidableEq, Repr

structure ParseContext where
  xmlnsstack : XmlnsStack
  raised : Option XmlError
  deriving DecidableEq, Repr

namespace ParseContext

/-- A new context. -/
def new : ParseContext := { xmlnsstack := .empty, raised := none }

variable (c : ParseContext)

/-- `RaiseError`: the first error is kept. -/
def raiseError (err : XmlError) : ParseContext :=
  match c.raised with
  | some _ => c
  | none => { c with raised := some err }

/-- `ResolveQName`: an unknown prefix gives the empty name. -/
def resolveQName (qname : Text) (isAttr : Bool) : QName :=
  let pre := qname.takeWhile (· ≠ 0x3A#8)
  if pre.length < qname.length then
    match c.xmlnsstack.nsForPrefix pre with
    | some ns => ⟨ns, qname.drop (pre.length + 1)⟩
    | none => qnEmpty
  else if isAttr then ⟨[], qname⟩
  else
    match c.xmlnsstack.nsForPrefix [] with
    | some ns => ⟨ns, qname⟩
    | none => qnEmpty

/-- The declarations among the attributes of a tag.  One with a prefix and no
namespace is an error, and ends the loop. -/
def startNamespaces : List (Text × Text) → ParseContext → ParseContext
  | [], c => c
  | (name, value) :: atts, c =>
    if name.take 5 = textBytes "xmlns" then
      match name.drop 5 with
      | [] => startNamespaces atts { c with xmlnsstack := c.xmlnsstack.addXmlns [] value }
      | ch :: pre =>
        if ch = 0x3A#8 then
          if value = [] then c.raiseError .syntax_
          else startNamespaces atts { c with xmlnsstack := c.xmlnsstack.addXmlns pre value }
        else startNamespaces atts c
    else startNamespaces atts c

/-- `StartElement` of the context. -/
def startElement : ParseContext := { c with xmlnsstack := c.xmlnsstack.pushFrame }

/-- `EndElement` of the context. -/
def endElement : ParseContext := { c with xmlnsstack := c.xmlnsstack.popFrame }

/-- `ExpatXmlDecl`. -/
def xmlDecl (ver enc : Option Text) (standalone : ℤ) : ParseContext :=
  if ver.any (· ≠ textBytes "1.0") then c.raiseError .syntax_
  else if standalone = 0 then c.raiseError .syntax_
  else if enc.any fun e => !((e.take 5).map (fun ch => if 0x61#8 ≤ ch ∧ ch ≤ 0x7A#8 then
      ch - 0x20#8 else ch) = textBytes "UTF-8") then c.raiseError .incorrectEncoding
  else c

end ParseContext

/-! ### The builder -/

/-- The attributes of a new element; a name in a namespace may not come twice. -/
def buildAttrs (c : ParseContext) :
    List (Text × Text) → List (QName × Text) → Option (List (QName × Text))
  | [], attrs => some attrs
  | (name, value) :: atts, attrs =>
    let attName := c.resolveQName name true
    if attName = qnEmpty then none
    else if attName.namespace_ ≠ [] ∧ attName ∈ attrs.map Prod.fst then none
    else buildAttrs c atts (attrs ++ [(attName, value)])

def buildElement (c : ParseContext) (name : Text) (atts : List (Text × Text)) :
    Option XmlElement :=
  let tagName := c.resolveQName name false
  if tagName = qnEmpty then none
  else (buildAttrs c atts []).map fun attrs => { XmlElement.new tagName with attrs }

/-- `XmlBuilder`: the open elements and the one that is complete. -/
structure XmlBuilder where
  parents : List XmlElement
  root : Option XmlElement
  deriving DecidableEq, Repr

namespace XmlBuilder

/-- A new builder. -/
def new : XmlBuilder := { parents := [], root := none }

variable (b : XmlBuilder)

/-- `StartElement`, with the element that was built. -/
def startElement (e : XmlElement) : XmlBuilder := { b with parents := e :: b.parents }

def endElement : XmlBuilder :=
  match b.parents with
  | [] => b
  | [e] => { parents := [], root := some e }
  | e :: parent :: parents => { b with parents := parent.addElement e :: parents }

def characterData (text : Text) : XmlBuilder :=
  match b.parents with
  | [] => b
  | e :: parents => { b with parents := e.addText text :: parents }

variable {b}

theorem characterData_characterData (t u : Text) :
    (b.characterData t).characterData u = b.characterData (t ++ u) := by
  obtain ⟨parents, root⟩ := b
  cases parents with
  | nil => rfl
  | cons e parents =>
    simp only [characterData, XmlElement.addText, XmlChildren.addText_addText]

theorem characterData_nil : b.characterData [] = b := by
  obtain ⟨parents, root⟩ := b
  cases parents with
  | nil => rfl
  | cons e parents => rfl

end XmlBuilder

end Jingle.Xmllite
