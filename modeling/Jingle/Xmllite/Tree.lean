/-
The element that a document stands for.

`RawContent` is what stands between two tags as it was written: names with their
prefixes, and texts in any pieces.  `fill` resolves it with the namespaces in
scope; it fails where the parser raises an error.
-/
import Jingle.Xmllite.Parser

namespace Jingle.Xmllite

open Signaling

/-- The content of an element as it was written. -/
inductive RawContent
  | nil
  | text (text : Text) (next : RawContent)
  | element (name : Text) (atts : List (Text × Text)) (first next : RawContent)
  deriving DecidableEq, Repr

/-- The callbacks for some content. -/
def RawContent.callbacks : RawContent → List Callback
  | .nil => []
  | .text t next => .characterData t :: next.callbacks
  | .element name atts first next =>
    .startElement name atts :: (first.callbacks ++ .endElement name :: next.callbacks)

/-- A tag: the namespaces inside its element, and the element. -/
def enter (s : XmlnsStack) (name : Text) (atts : List (Text × Text)) :
    Option (XmlnsStack × XmlElement) :=
  let c := ({ xmlnsstack := s, raised := none } : ParseContext).startElement.startNamespaces atts
  if c.raised.isSome then none
  else (buildElement c name atts).map fun e => (c.xmlnsstack, e)

/-- An element with content added to it. -/
def RawContent.fill (s : XmlnsStack) (e : XmlElement) : RawContent → Option XmlElement
  | .nil => some e
  | .text t next => next.fill s (e.addText t)
  | .element name atts first next =>
    match enter s name atts with
    | none => none
    | some (inside, child) =>
      match first.fill inside child with
      | none => none
      | some child => next.fill s (e.addElement child)

/-! ### Scopes -/

theorem startNamespaces_xmlns (atts : List (Text × Text)) : ∀ c : ParseContext, ∃ decls,
    (c.startNamespaces atts).xmlnsstack =
      { xmlns := decls ++ c.xmlnsstack.xmlns, depths := c.xmlnsstack.depths } := by
  induction atts with
  | nil => exact fun c => ⟨[], rfl⟩
  | cons a atts ih =>
    intro c
    obtain ⟨name, value⟩ := a
    have hadd : ∀ pre, ∃ decls,
        (ParseContext.startNamespaces atts
          { c with xmlnsstack := c.xmlnsstack.addXmlns pre value }).xmlnsstack =
          { xmlns := decls ++ c.xmlnsstack.xmlns, depths := c.xmlnsstack.depths } := by
      intro pre
      obtain ⟨decls, h⟩ := ih { c with xmlnsstack := c.xmlnsstack.addXmlns pre value }
      refine ⟨decls ++ [(pre, value)], h.trans ?_⟩
      simp [XmlnsStack.addXmlns]
    unfold ParseContext.startNamespaces
    by_cases hname : name.take 5 = textBytes "xmlns"
    · rw [if_pos hname]
      cases name.drop 5 with
      | nil => exact hadd []
      | cons ch pre =>
        simp only
        by_cases hch : ch = 0x3A#8
        · rw [if_pos hch]
          by_cases hv : value = []
          · rw [if_pos hv]
            refine ⟨[], ?_⟩
            unfold ParseContext.raiseError
            split <;> rfl
          · rw [if_neg hv]
            exact hadd pre
        · rw [if_neg hch]
          exact ih c
    · rw [if_neg hname]
      exact ih c

theorem popFrame_startNamespaces (s : XmlnsStack) (r : Option XmlError)
    (atts : List (Text × Text)) :
    ((({ xmlnsstack := s, raised := r } : ParseContext).startElement.startNamespaces
      atts).xmlnsstack).popFrame = s := by
  obtain ⟨decls, h⟩ := startNamespaces_xmlns atts
    ({ xmlnsstack := s, raised := r } : ParseContext).startElement
  rw [h]
  simp [ParseContext.startElement, XmlnsStack.pushFrame, XmlnsStack.popFrame]

theorem popFrame_enter {s inside : XmlnsStack} {name : Text} {atts : List (Text × Text)}
    {e : XmlElement} (h : enter s name atts = some (inside, e)) : inside.popFrame = s := by
  unfold enter at h
  simp only at h
  split_ifs at h
  obtain ⟨e', -, he⟩ := Option.map_eq_some_iff.mp h
  rw [← (Prod.mk.inj he).1]
  exact popFrame_startNamespaces s none atts

end Jingle.Xmllite
