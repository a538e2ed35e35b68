/-
Printing XML.

`printElement` walks an element with the namespaces in scope.  The declarations
among the attributes come first, then the prefixes that the names need and nothing
declares.
-/
import Jingle.Xmllite.Element

namespace Jingle.Xmllite

open Signaling

def printBodyText : Text → Text
  | [] => []
  | ch :: text =>
    (if ch = 0x3C#8 then textBytes "&lt;"
      else if ch = 0x3E#8 then textBytes "&gt;"
      else if ch = 0x26#8 then textBytes "&amp;"
      else [ch]) ++ printBodyText text

def printQuotedValue : Text → Text
  | [] => []
  | ch :: text =>
    (if ch = 0x3C#8 then textBytes "&lt;"
      else if ch = 0x3E#8 then textBytes "&gt;"
      else if ch = 0x26#8 then textBytes "&amp;"
      else if ch = 0x22#8 then textBytes "&quot;"
      else [ch]) ++ printQuotedValue text

def printCdataText (text : Text) : Text := textBytes "<![CDATA[" ++ text ++ textBytes "]]>"

/-- The declarations among the attributes. -/
def declared (attrs : List (QName × Text)) : List (Text × Text) :=
  attrs.filterMap fun a =>
    if a.1 = qnXmlns then some ([], a.2)
    else if a.1.namespace_ = nsXmlns then some (a.1.localPart, a.2)
    else none

/-- `AddNewPrefix` for each of the names, with the declarations that it invents. -/
def newXmlns (s : XmlnsStack) : List (Text × Bool) → List (Text × Text) × XmlnsStack
  | [] => ([], s)
  | (ns, isAttr) :: names =>
    match s.addNewPrefix ns isAttr with
    | (none, s) => newXmlns s names
    | (some pre, s) => let (decls, s) := newXmlns s names; ((pre, ns) :: decls, s)

/-- An invented declaration; the namespace is printed as it is. -/
def printDecl (d : Text × Text) : Text :=
  if d.1 = [] then textBytes " xmlns=\"" ++ d.2 ++ textBytes "\""
  else textBytes " xmlns:" ++ d.1 ++ textBytes "=\"" ++ d.2 ++ textBytes "\""

/-- The namespaces inside an element, and the declarations invented for it. -/
def enterElement (s : XmlnsStack) (name : QName) (attrs : List (QName × Text)) :
    List (Text × Text) × XmlnsStack :=
  newXmlns ((declared attrs).foldl (fun s d => s.addXmlns d.1 d.2) s.pushFrame)
    ((name.namespace_, false) :: attrs.map fun a => (a.1.namespace_, true))

/-- The start of a tag, up to its end. -/
def printTag (s : XmlnsStack) (name : QName) (attrs : List (QName × Text))
    (decls : List (Text × Text)) : Text :=
  textBytes "<" ++ s.formatQName name false ++
    (attrs.flatMap fun a =>
      textBytes " " ++ s.formatQName a.1 true ++ textBytes "=\"" ++ printQuotedValue a.2 ++
        textBytes "\"") ++
    decls.flatMap printDecl

/-- The children of an element. -/
def printChildren (s : XmlnsStack) (cdata : Bool) : XmlChildren → Text
  | .nil => []
  | .text t next =>
    (if cdata then printCdataText t else printBodyText t) ++ printChildren s cdata next
  | .element name attrs inner first next =>
    let (decls, inside) := enterElement s name attrs
    printTag inside name attrs decls ++
      (if first = .nil then textBytes "/>"
        else textBytes ">" ++ printChildren inside inner first ++ textBytes "</" ++
          inside.formatQName name false ++ textBytes ">") ++
      printChildren s cdata next

def printElement (s : XmlnsStack) (e : XmlElement) : Text :=
  printChildren s false (.element e.name e.attrs e.cdata e.children .nil)

/-- `XmlPrinter::PrintXml` with the namespaces that are already declared. -/
def printXml (xmlns : List (Text × Text)) (e : XmlElement) : Text :=
  printElement (xmlns.foldl (fun s d => s.addXmlns d.1 d.2) .empty) e

def XmlElement.str (e : XmlElement) : Text := printXml [] e

end Jingle.Xmllite
