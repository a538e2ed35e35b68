/-
The stanza parser.

`XmppStanzaParser` counts the depth of the open elements: the outermost one is the
stream, and each element below it is built and delivered as a stanza.  The parser
here is `XmlParser` with its context and the stanza parser as its handler;
`StanzaEvent` is what is delivered.

A call of `parse` gives a chunk to expat, takes its callbacks, and reports the
first error that is raised, once.
-/
import Jingle.Xmllite.Parser

namespace Jingle.Xmpp

open Signaling (Text QName)
open Xmllite

/-- The calls of `XmppStanzaParseHandler`. -/
inductive StanzaEvent
  | startStream (stream : XmlElement)
  | stanza (stanza : XmlElement)
  | endStream
  | xmlError
  deriving DecidableEq, Repr

/-- `XmppStanzaParser` with its `XmlParser`. -/
structure XmppStanzaParser where
  context : ParseContext
  sentError : Bool
  depth : ℤ
  builder : XmlBuilder
  deriving DecidableEq, Repr

namespace XmppStanzaParser

/-- A new parser, which is also one after `Reset`. -/
def new : XmppStanzaParser where
  context := .new
  sentError := false
  depth := 0
  builder := .new

variable (p : XmppStanzaParser)

/-- `RaiseError` of the context. -/
def raiseError (err : XmlError) : XmppStanzaParser := { p with context := p.context.raiseError err }

def incomingStartElement (name : Text) (atts : List (Text × Text)) :
    XmppStanzaParser × List StanzaEvent :=
  if p.depth = 0 then
    let p := { p with depth := p.depth + 1 }
    match buildElement p.context name atts with
    | none => (p.raiseError .syntax_, [])
    | some stream => (p, [.startStream stream])
  else
    let p := { p with depth := p.depth + 1 }
    match buildElement p.context name atts with
    | none => (p.raiseError .syntax_, [])
    | some e => ({ p with builder := p.builder.startElement e }, [])

def incomingCharacterData (text : Text) : XmppStanzaParser :=
  if 1 < p.depth then { p with builder := p.builder.characterData text } else p

def incomingEndElement : XmppStanzaParser × List StanzaEvent :=
  let p := { p with depth := p.depth - 1 }
  if p.depth = 0 then (p, [.endStream])
  else
    let p := { p with builder := p.builder.endElement }
    if p.depth = 1 then
      match p.builder.root with
      | some e => ({ p with builder := { p.builder with root := none } }, [.stanza e])
      | none => (p, [])
    else (p, [])

/-- A callback of expat; none reaches the handler once an error is raised. -/
def callback (c : Callback) : XmppStanzaParser × List StanzaEvent :=
  if p.context.raised.isSome then (p, [])
  else
    match c with
    | .xmlDecl ver enc standalone =>
      ({ p with context := p.context.xmlDecl ver enc standalone }, [])
    | .startElement name atts =>
      let p := { p with context := p.context.startElement.startNamespaces atts }
      if p.context.raised.isSome then (p, []) else p.incomingStartElement name atts
    | .endElement _ => { p with context := p.context.endElement }.incomingEndElement
    | .characterData text => (p.incomingCharacterData text, [])

/-- The callbacks of a call. -/
def callbacks : XmppStanzaParser → List Callback → XmppStanzaParser × List StanzaEvent
  | p, [] => (p, [])
  | p, c :: cs =>
    let (p, first) := p.callback c
    let (p, rest) := p.callbacks cs
    (p, first ++ rest)

end XmppStanzaParser

/-- The parser and expat's own state. -/
structure Parsing (E : Expat) where
  parser : XmppStanzaParser
  expat : E.State

namespace Parsing

variable {E : Expat}

/-- A new parser. -/
def new : Parsing E := { parser := .new, expat := E.init }

variable (s : Parsing E)

def parse (data : List Byte) (isFinal : Bool) : Parsing E × List StanzaEvent :=
  if s.parser.sentError then (s, [])
  else
    let (expat, cs, err) := E.parse s.expat data isFinal
    let (parser, events) := s.parser.callbacks cs
    let parser :=
      match err with
      | some code => parser.raiseError (.expat code)
      | none => parser
    if parser.context.raised.isSome then
      ({ parser := { parser with sentError := true }, expat }, events ++ [.xmlError])
    else ({ parser, expat }, events)

/-- A stream, in the chunks that it is parsed in; only the last may be final. -/
def parseAll : Parsing E → List (List Byte) → Bool → Parsing E × List StanzaEvent
  | s, [], _ => (s, [])
  | s, [data], isFinal => s.parse data isFinal
  | s, data :: chunks, isFinal =>
    let (s, first) := s.parse data false
    let (s, rest) := s.parseAll chunks isFinal
    (s, first ++ rest)

end Parsing

end Jingle.Xmpp
