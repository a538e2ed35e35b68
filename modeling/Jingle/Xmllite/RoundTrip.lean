/-
Printing and parsing back.

What the printer writes for an element is read by XML 1.0 as the callbacks of
`rawChildren`, the names with their prefixes (`reads_children`); what the builder
makes of these is the element again (`fill_rawChildren`), with the declarations that
were invented and with its texts joined (`Same`).

That holds when every namespace for which a declaration is invented can stand in a
tag as it is (`Plain`): the printer does not escape it, and writes one with a prefix
for the empty namespace as well, which the parser does not accept.

* **`roundTrip`** — an element is printed and parsed back.
* **`not_roundTrip`** — but not if its namespace has to be escaped, or is empty
  below a default namespace.
-/
import Jingle.Xmllite.Printed

namespace Jingle.Xmllite

open Signaling Xml XmlnsStack

/-! ### `ForStr` -/

/-- A callback of expat, with the builder as the handler. -/
def buildCallback (p : ParseContext × XmlBuilder) (c : Callback) : ParseContext × XmlBuilder :=
  if p.1.raised.isSome then p
  else
    match c with
    | .xmlDecl ver enc standalone => (p.1.xmlDecl ver enc standalone, p.2)
    | .startElement name atts =>
      let context := p.1.startElement.startNamespaces atts
      if context.raised.isSome then (context, p.2)
      else
        match buildElement context name atts with
        | none => (context.raiseError .syntax_, p.2)
        | some e => (context, p.2.startElement e)
    | .endElement _ => (p.1.endElement, p.2.endElement)
    | .characterData text => (p.1, p.2.characterData text)

/-- `ParseXml` with a builder, which an error empties. -/
def parseXml (E : Expat) (text : Text) : ParseContext × XmlBuilder :=
  let (_, cs, err) := E.parse E.init text true
  let p := cs.foldl buildCallback (.new, .new)
  let context :=
    match err with
    | some code => p.1.raiseError (.expat code)
    | none => p.1
  if context.raised.isSome then (context, .new) else (context, p.2)

def XmlElement.forStr (E : Expat) (str : Text) : Option XmlElement := (parseXml E str).2.root

/-! ### XML 1.0 -/

/-- The callback for a part of a document. -/
def callbackOf : Xml.Event → Callback
  | .start name atts => .startElement name atts
  | .stop name => .endElement name
  | .text text => .characterData text

/-- Expat reads documents as XML 1.0 does. -/
def Expat.ReadsXml (E : Expat) : Prop :=
  ∀ t evs, readDocument t = some evs →
    mergeText (E.run E.init [t] true).1 = mergeText (evs.map callbackOf) ∧
      (E.run E.init [t] true).2 = none

/-- An expat that reads such documents, and no others. -/
def plainExpat : Expat where
  State := Unit
  init := ()
  parse := fun _ data _ =>
    match readDocument data with
    | some evs => ((), evs.map callbackOf, none)
    | none => ((), [], some 4)

theorem plainExpat_readsXml : plainExpat.ReadsXml := by
  intro t evs h
  simp [Expat.run, plainExpat, h]

/-! ### Tags -/

theorem buildAttrs_eq {c : ParseContext} (atts : List (Text × Text)) :
    ∀ {attrs : List (QName × Text)},
      (∀ a ∈ atts, c.resolveQName a.1 true ≠ qnEmpty) →
      ((attrs ++ atts.map fun a => (c.resolveQName a.1 true, a.2)).map Prod.fst).Nodup →
        buildAttrs c atts attrs =
          some (attrs ++ atts.map fun a => (c.resolveQName a.1 true, a.2)) := by
  induction atts with
  | nil => exact fun _ _ => by rw [buildAttrs, List.map_nil, List.append_nil]
  | cons a atts ih =>
    intro attrs hne hnodup
    have hsplit : attrs ++ (a :: atts).map (fun a => (c.resolveQName a.1 true, a.2)) =
        (attrs ++ [(c.resolveQName a.1 true, a.2)]) ++
          atts.map fun a => (c.resolveQName a.1 true, a.2) := by simp
    rw [hsplit] at hnodup ⊢
    rw [buildAttrs]
    rw [if_neg (hne a List.mem_cons_self), if_neg ?_]
    · exact ih (fun b hb => hne b (List.mem_cons_of_mem _ hb)) hnodup
    · rintro ⟨-, hmem⟩
      rw [List.map_append, List.map_append, List.append_assoc] at hnodup
      exact (List.disjoint_of_nodup_append hnodup) hmem (by simp)

theorem take_five_ne {pre l : Text} (hpre : isNCName pre)
    (hx : pre = textBytes "xml" ∨ isXmlPrefix pre = false) :
    (pre ++ 0x3A#8 :: l).take 5 ≠ textBytes "xmlns" := by
  rcases hx with rfl | hx
  · simp [textBytes]
  · intro htake
    have hcolon : 0x3A#8 ∉ textBytes "xmlns" := by decide
    by_cases hlen : pre.length < 5
    · refine hcolon (htake ▸ ?_)
      rw [List.take_append, List.mem_append]
      refine .inr ?_
      obtain ⟨n, hn⟩ : ∃ n, 5 - pre.length = n + 1 := ⟨5 - pre.length - 1, by omega⟩
      rw [hn, List.take_succ_cons]
      exact List.mem_cons_self
    · rw [List.take_append_of_le_length (by omega)] at htake
      have hsplit := List.take_append_drop 5 pre
      rw [htake] at hsplit
      rw [← hsplit] at hx
      cases hx

theorem startNamespaces_attrs {s : XmlnsStack} (hs : s.Named) {attrs : List (QName × Text)}
    (rest : List (Text × Text)) : ∀ {t : XmlnsStack},
      (∀ a ∈ attrs, isNCName a.1.localPart ∧ s.HasPrefix a.1.namespace_ true ∧
        (a.1.namespace_ = nsXmlns → a.2 ≠ [])) →
      ({ xmlnsstack := t, raised := none } : ParseContext).startNamespaces
          ((attrs.map fun a => (s.formatQName a.1 true, a.2)) ++ rest) =
        ({ xmlnsstack := t.addAll (declared attrs), raised := none } :
          ParseContext).startNamespaces rest := by
  induction attrs with
  | nil => exact fun _ => rfl
  | cons a attrs ih =>
    intro t hall
    obtain ⟨⟨ns, l⟩, value⟩ := a
    obtain ⟨hl, hp, hv⟩ := hall _ List.mem_cons_self
    have hrest := fun b hb => hall b (List.mem_cons_of_mem _ hb)
    rw [List.map_cons, List.cons_append, ParseContext.startNamespaces]
    by_cases hns : ns = []
    · -- a name without a prefix
      subst hns
      rw [formatQName_nil]
      by_cases hdef : l = textBytes "xmlns"
      · have hd : declared ((⟨[], l⟩, value) :: attrs) = ([], value) :: declared attrs := by
          simp [declared, qnXmlns, hdef]
        rw [hd, hdef, if_pos (by decide)]
        exact ih hrest
      · have hd : declared ((⟨[], l⟩, value) :: attrs) = declared attrs := by
          have h₁ : (⟨[], l⟩ : QName) ≠ qnXmlns := by simpa [qnXmlns] using hdef
          have h₂ : ([] : Text) ≠ nsXmlns := by decide
          simp [declared, h₁, h₂]
        rw [hd]
        by_cases htake : l.take 5 = textBytes "xmlns"
        · rw [if_pos htake]
          have hsplit := List.take_append_drop 5 l
          rw [htake] at hsplit
          cases hdrop : l.drop 5 with
          | nil =>
            rw [hdrop, List.append_nil] at hsplit
            exact absurd hsplit.symm hdef
          | cons ch pre =>
            rw [hdrop] at hsplit
            have hmem : ch ∈ l := by
              rw [← hsplit]
              simp
            have hch : ch ≠ 0x3A#8 := ne_of_mem_isNCName hl hmem (by decide) (by decide)
            dsimp only
            rw [if_neg hch]
            exact ih hrest
        · rw [if_neg htake]
          exact ih hrest
    · by_cases hx : ns = nsXmlns
      · -- a declaration of a prefix
        subst hx
        have hd : declared ((⟨nsXmlns, l⟩, value) :: attrs) = (l, value) :: declared attrs := by
          have h₁ : (⟨nsXmlns, l⟩ : QName) ≠ qnXmlns := by simp [qnXmlns, hns]
          simp [declared, h₁]
        have htext : textBytes "xmlns:" ++ l = textBytes "xmlns" ++ 0x3A#8 :: l := by
          simp [textBytes]
        rw [hd, formatQName_nsXmlns, htext, if_pos (by simp [textBytes])]
        have hdrop : (textBytes "xmlns" ++ 0x3A#8 :: l).drop 5 = 0x3A#8 :: l := rfl
        rw [hdrop]
        dsimp only
        rw [if_pos rfl, if_neg (hv rfl)]
        exact ih hrest
      · have hd : declared ((⟨ns, l⟩, value) :: attrs) = declared attrs := by
          have h₁ : (⟨ns, l⟩ : QName) ≠ qnXmlns := by simp [qnXmlns, hns]
          simp [declared, h₁, hx]
        rw [hd]
        rcases formatQName_cases hs hp with ⟨-, hempty, -⟩ | ⟨pre, hf, hpre, -, hcase⟩
        · exact absurd (hempty rfl) hns
        · rw [hf, if_neg (take_five_ne hpre ?_)]
          · exact ih hrest
          · rcases hcase with h | ⟨-, h⟩ | ⟨h, -⟩
            · exact .inl h
            · exact absurd h hx
            · exact .inr h

theorem startNamespaces_decls (decls : List (Text × Text)) : ∀ {t : XmlnsStack},
    (∀ d ∈ decls, d.2 ≠ []) →
      ({ xmlnsstack := t, raised := none } : ParseContext).startNamespaces
          (decls.map fun d => (textBytes "xmlns:" ++ d.1, d.2)) =
        { xmlnsstack := t.addAll decls, raised := none } := by
  induction decls with
  | nil => exact fun _ => rfl
  | cons d decls ih =>
    intro t hall
    have htext : textBytes "xmlns:" ++ d.1 = textBytes "xmlns" ++ 0x3A#8 :: d.1 := by
      simp [textBytes]
    rw [List.map_cons, htext, ParseContext.startNamespaces, if_pos (by simp [textBytes])]
    have hdrop : (textBytes "xmlns" ++ 0x3A#8 :: d.1).drop 5 = 0x3A#8 :: d.1 := rfl
    rw [hdrop]
    dsimp only
    rw [if_pos rfl, if_neg (hall d List.mem_cons_self)]
    exact ih fun d hd => hall d (List.mem_cons_of_mem _ hd)

/-- **A printed tag is parsed** as its element with the declarations that were
invented, and the namespaces are those of the printer. -/
theorem enter_printed {s x : XmlnsStack} {name : QName} {attrs : List (QName × Text)}
    (h : Entered s x name attrs) :
    enter s ((enterElement s name attrs).2.formatQName name false)
        (rawAtts (enterElement s name attrs).2 attrs (enterElement s name attrs).1) =
      some ((enterElement s name attrs).2,
        { XmlElement.new name with
          attrs := attrs ++ (enterElement s name attrs).1.map fun d => (⟨nsXmlns, d.1⟩, d.2) }) := by
  have hstart : ({ xmlnsstack := s, raised := none } : ParseContext).startElement.startNamespaces
      (rawAtts (enterElement s name attrs).2 attrs (enterElement s name attrs).1) =
      { xmlnsstack := (enterElement s name attrs).2, raised := none } := by
    rw [rawAtts, ParseContext.startElement, startNamespaces_attrs h.inside.named]
    · rw [startNamespaces_decls _ fun d hd => (h.plain hd).ne_nil]
      congr 1
      exact Entered.invented.stack.symm
    · exact fun a ha => ⟨(h.valid.attrs a ha).1, Entered.hasPrefix_attr ha, h.fits.declares a ha⟩
  set c : ParseContext := { xmlnsstack := (enterElement s name attrs).2, raised := none } with hc
  have hmap := h.map_resolveQName (c := c) rfl
  have hne : ∀ {n : QName}, n.localPart ≠ [] → n ≠ qnEmpty := by
    rintro n hn rfl
    exact hn rfl
  have hbuild : buildElement c ((enterElement s name attrs).2.formatQName name false)
      (rawAtts (enterElement s name attrs).2 attrs (enterElement s name attrs).1) =
      some { XmlElement.new name with
        attrs := attrs ++ (enterElement s name attrs).1.map fun d => (⟨nsXmlns, d.1⟩, d.2) } := by
    unfold buildElement
    dsimp only
    rw [h.resolveQName_name (c := c) rfl, if_neg (hne (isNCName_ne_nil h.valid.name)),
      buildAttrs_eq, List.nil_append, hmap]
    · rfl
    · intro a ha
      have hmem : (c.resolveQName a.1 true, a.2) ∈
          attrs ++ (enterElement s name attrs).1.map fun d => (⟨nsXmlns, d.1⟩, d.2) := by
        rw [← hmap]
        exact List.mem_map_of_mem (f := fun a : Text × Text => (c.resolveQName a.1 true, a.2)) ha
      rcases List.mem_append.mp hmem with hmem | hmem
      · exact hne (isNCName_ne_nil (h.valid.attrs _ hmem).1)
      · obtain ⟨d, hd, hda⟩ := List.mem_map.mp hmem
        have hn := congrArg Prod.fst hda
        dsimp only at hn
        rw [← hn]
        exact hne (isNCName_ne_nil (Entered.invented.fresh d hd).1.name)
    · rw [List.nil_append, hmap]
      exact h.nodup_attrs
  unfold enter
  dsimp only
  rw [hstart, if_neg (by simp [hc]), hbuild]
  rfl

/-! ### Callbacks -/

theorem buildCallback_characterData (p : ParseContext × XmlBuilder) (t u : Text) :
    buildCallback (buildCallback p (.characterData t)) (.characterData u) =
      buildCallback p (.characterData (t ++ u)) := by
  unfold buildCallback
  by_cases h : p.1.raised.isSome
  · simp only [if_pos h]
  · simp only [if_neg h, XmlBuilder.characterData_characterData]

theorem buildCallback_characterData_nil (p : ParseContext × XmlBuilder) :
    buildCallback p (.characterData []) = p := by
  unfold buildCallback
  split_ifs
  · rfl
  · simp only [XmlBuilder.characterData_nil]

theorem foldl_mergeText (cs : List Callback) : ∀ p : ParseContext × XmlBuilder,
    (mergeText cs).foldl buildCallback p = cs.foldl buildCallback p := by
  induction cs with
  | nil => exact fun p => rfl
  | cons c cs ih =>
    intro p
    cases c with
    | xmlDecl ver enc standalone => rw [mergeText, List.foldl_cons, ih, List.foldl_cons]
    | startElement name atts => rw [mergeText, List.foldl_cons, ih, List.foldl_cons]
    | endElement name => rw [mergeText, List.foldl_cons, ih, List.foldl_cons]
    | characterData t =>
      rw [List.foldl_cons, ← ih, mergeText]
      split
      · next u rest hm => rw [hm, List.foldl_cons, List.foldl_cons, buildCallback_characterData]
      · split_ifs with ht
        · rw [ht, buildCallback_characterData_nil]
        · rw [List.foldl_cons]

theorem buildCallback_enter {s inside : XmlnsStack} {name : Text} {atts : List (Text × Text)}
    {e : XmlElement} (h : enter s name atts = some (inside, e)) (parents : List XmlElement)
    (root : Option XmlElement) :
    buildCallback (({ xmlnsstack := s, raised := none } : ParseContext), ⟨parents, root⟩)
        (.startElement name atts) =
      (({ xmlnsstack := inside, raised := none } : ParseContext), ⟨e :: parents, root⟩) := by
  unfold enter at h
  unfold buildCallback
  dsimp only at h ⊢
  rw [if_neg (by simp)]
  generalize ({ xmlnsstack := s, raised := none } : ParseContext).startElement.startNamespaces
    atts = c at h ⊢
  split_ifs at h with hr
  obtain ⟨e', hb, he⟩ := Option.map_eq_some_iff.mp h
  cases he
  rw [if_neg hr, hb]
  obtain ⟨stack, raised⟩ := c
  have hnone : raised = none := by simpa using hr
  rw [hnone]
  rfl

theorem foldl_callbacks (r : RawContent) : ∀ {s : XmlnsStack} {e e' : XmlElement}
    (_ : r.fill s e = some e') (parents : List XmlElement) (root : Option XmlElement),
    r.callbacks.foldl buildCallback
        (({ xmlnsstack := s, raised := none } : ParseContext), ⟨e :: parents, root⟩) =
      (({ xmlnsstack := s, raised := none } : ParseContext), ⟨e' :: parents, root⟩) := by
  induction r with
  | nil =>
    intro s e e' h parents root
    cases h
    rfl
  | text t next ih =>
    intro s e e' h parents root
    exact ih h parents root
  | element name atts first next ihfirst ihnext =>
    intro s e e' h parents root
    rw [RawContent.fill] at h
    cases hent : enter s name atts with
    | none => simp [hent] at h
    | some r =>
      obtain ⟨inside, child⟩ := r
      simp only [hent] at h
      cases hfill : first.fill inside child with
      | none => simp [hfill] at h
      | some child' =>
        simp only [hfill] at h
        rw [RawContent.callbacks, List.foldl_cons, List.foldl_append, List.foldl_cons,
          buildCallback_enter hent, ihfirst hfill]
        have hstop : buildCallback (({ xmlnsstack := inside, raised := none } : ParseContext),
            ⟨child' :: e :: parents, root⟩) (.endElement name) =
            (({ xmlnsstack := s, raised := none } : ParseContext),
              ⟨e.addElement child' :: parents, root⟩) := by
          rw [← popFrame_enter hent]
          rfl
        rw [hstop]
        exact ihnext h parents root

/-! ### The element that is parsed -/

/-- Printed children as they were written. -/
def rawChildren (s : XmlnsStack) : XmlChildren → RawContent
  | .nil => .nil
  | .text t next => .text t (rawChildren s next)
  | .element name attrs _ first next =>
    let (decls, inside) := enterElement s name attrs
    .element (inside.formatQName name false) (rawAtts inside attrs decls)
      (rawChildren inside first) (rawChildren s next)

theorem foldl_flush (t : Text) (p : ParseContext × XmlBuilder) :
    ((flush t).map callbackOf).foldl buildCallback p = buildCallback p (.characterData t) := by
  unfold flush
  split_ifs with h
  · rw [h, buildCallback_characterData_nil]
    rfl
  · rfl

theorem foldl_events (c : XmlChildren) : ∀ (s : XmlnsStack) (pending : Text)
    (p : ParseContext × XmlBuilder),
    ((events s pending c).map callbackOf).foldl buildCallback p =
      (rawChildren s c).callbacks.foldl buildCallback
        (buildCallback p (.characterData pending)) := by
  induction c with
  | nil => exact fun s pending p => foldl_flush pending p
  | text t next ih =>
    intro s pending p
    rw [events, ih, ← buildCallback_characterData]
    rfl
  | element name attrs cdata first next ihfirst ihnext =>
    intro s pending p
    simp only [events, rawChildren, RawContent.callbacks, List.map_append, List.map_cons,
      List.foldl_append, List.foldl_cons, foldl_flush, ihfirst, ihnext,
      buildCallback_characterData_nil, callbackOf]

/-- The children with the texts that follow each other joined, after some others. -/
def XmlChildren.joinTo : XmlChildren → XmlChildren → XmlChildren
  | acc, .nil => acc
  | acc, .text t next => (acc.addText t).joinTo next
  | acc, .element name attrs cdata first next =>
    (acc.addElement ⟨name, attrs, cdata, XmlChildren.nil.joinTo first⟩).joinTo next

/-- An element with its texts joined, as `AddText` leaves them. -/
def XmlElement.joined (e : XmlElement) : XmlElement :=
  { e with children := XmlChildren.nil.joinTo e.children }

/-- The same attributes, and more declarations. -/
def SameAttrs (attrs attrs' : List (QName × Text)) : Prop :=
  ∃ extra, attrs' = attrs ++ extra ∧ ∀ a ∈ extra, a.1.namespace_ = nsXmlns

/-- The same children, but for more declarations. -/
inductive XmlChildren.SameBut : XmlChildren → XmlChildren → Prop
  | nil : SameBut .nil .nil
  | text (t : Text) {next next' : XmlChildren} (h : SameBut next next') :
    SameBut (.text t next) (.text t next')
  | element (name : QName) {attrs attrs' : List (QName × Text)} (cdata : Bool)
    {first first' next next' : XmlChildren} (ha : SameAttrs attrs attrs')
    (hf : SameBut first first') (hn : SameBut next next') :
    SameBut (.element name attrs cdata first next) (.element name attrs' cdata first' next')

/-- The same element, but for more declarations in it and below. -/
structure XmlElement.SameBut (e e' : XmlElement) : Prop where
  name : e'.name = e.name
  attrs : SameAttrs e.attrs e'.attrs
  cdata : e'.cdata = e.cdata
  children : e.children.SameBut e'.children

namespace XmlChildren.SameBut

variable {c c' : XmlChildren}

theorem appendText (h : SameBut c c') (t : Text) : SameBut (c.appendText t) (c'.appendText t) := by
  induction h with
  | nil => exact .text t .nil
  | text u h ih =>
    cases h with
    | nil => exact .text (u ++ t) .nil
    | text v h => exact .text u ih
    | element name cdata ha hf hn => exact .text u ih
  | element name cdata ha hf hn ihf ihn => exact .element name cdata ha hf ihn

theorem addText (h : SameBut c c') (t : Text) : SameBut (c.addText t) (c'.addText t) := by
  unfold XmlChildren.addText
  split_ifs
  · exact h
  · exact h.appendText t

theorem addElement (h : SameBut c c') {e e' : XmlElement} (he : e.SameBut e') :
    SameBut (c.addElement e) (c'.addElement e') := by
  induction h with
  | nil =>
    unfold XmlChildren.addElement
    rw [he.name, he.cdata]
    exact .element _ _ he.attrs he.children .nil
  | text u h ih => exact .text u ih
  | element name cdata ha hf hn ihf ihn => exact .element name cdata ha hf ihn

end XmlChildren.SameBut

theorem fill_rawChildren (c : XmlChildren) : ∀ {s x : XmlnsStack} (_ : Scope s x)
    (_ : c.Valid) (_ : c.Fits x) {acc : XmlChildren} {e : XmlElement}
    (_ : acc.SameBut e.children),
    ∃ children, (rawChildren s c).fill s e = some { e with children } ∧
      (acc.joinTo c).SameBut children := by
  induction c with
  | nil =>
    intro s x _ _ _ acc e h
    exact ⟨e.children, rfl, h⟩
  | text t next ih =>
    intro s x hs hv hf acc e h
    obtain ⟨children, hfill, hsame⟩ := ih hs hv.2 hf (e := e.addText t) (h.addText t)
    exact ⟨children, hfill, hsame⟩
  | element name attrs cdata first next ihfirst ihnext =>
    intro s x hs hv hf acc e h
    obtain ⟨htag, rfl, hvf, hvn⟩ := hv
    obtain ⟨hfits, hff, hfn⟩ := hf
    have hent : Entered s x name attrs := ⟨htag, hfits, hs⟩
    set child : XmlElement := { XmlElement.new name with
      attrs := attrs ++ (enterElement s name attrs).1.map fun d => (⟨nsXmlns, d.1⟩, d.2) }
      with hchild
    obtain ⟨inner, hinner, hsame⟩ := @ihfirst _ _ hent.inside hvf hff .nil child .nil
    have hattrs : SameAttrs attrs child.attrs := by
      refine ⟨_, rfl, fun a ha => ?_⟩
      obtain ⟨d, -, rfl⟩ := List.mem_map.mp ha
      rfl
    have helem : XmlElement.SameBut ⟨name, attrs, false, XmlChildren.nil.joinTo first⟩
        { child with children := inner } := ⟨rfl, hattrs, rfl, hsame⟩
    obtain ⟨children, hfill, hall⟩ := ihnext hs hvn hfn
      (e := e.addElement { child with children := inner }) (h.addElement helem)
    refine ⟨children, ?_, hall⟩
    rw [rawChildren]
    dsimp only
    rw [RawContent.fill, enter_printed hent]
    dsimp only
    rw [hinner]
    exact hfill

/-! ### There and back -/

/-- An element that can be printed. -/
structure XmlElement.Valid (e : XmlElement) : Prop where
  tag : ValidTag e.name e.attrs
  cdata : e.cdata = false
  children : e.children.Valid

/-- An element for which every declaration that is missing can be invented. -/
structure XmlElement.Fits (e : XmlElement) : Prop where
  tag : Xmllite.Fits (XmlnsStack.empty.addAll (declared e.attrs)) e.name e.attrs
  children : e.children.Fits (XmlnsStack.empty.addAll (declared e.attrs))

theorem readDocument_str {e : XmlElement} (hv : e.Valid) (hf : e.Fits) :
    readDocument e.str =
      some (events .empty [] (.element e.name e.attrs e.cdata e.children .nil)) := by
  have hs : Scope .empty .empty := ⟨.refl _, fun _ hd => absurd hd (by simp [XmlnsStack.empty])⟩
  have hent : Entered .empty .empty e.name e.attrs := ⟨hv.tag, hf.tag, hs⟩
  have hread := @reads_element _ _ _ _ hent e.children [] [] _ readsNext_nil
    fun {tail} {evs} h =>
      reads_children e.children hent.inside hv.children hf.children (by simp) isBody_nil h
  have hdoc := Reads.document hread
  have hstr : e.str = printChildren .empty false (.element e.name e.attrs false e.children .nil) ++
      [] := by
    rw [List.append_nil, ← hv.cdata]
    rfl
  rw [hstr, hdoc]
  rfl

/-- **Printing and parsing back**: an element comes back as it was, but for more
declarations, if the declarations that it does not make itself can be printed as they
are. -/
theorem roundTrip (E : Expat) (hE : E.ReadsXml) (e : XmlElement) (hv : e.Valid) (hf : e.Fits) :
    ∃ e', XmlElement.forStr E e.str = some e' ∧ e.joined.SameBut e' := by
  have hs : Scope .empty .empty := ⟨.refl _, fun _ hd => absurd hd (by simp [XmlnsStack.empty])⟩
  have hent : Entered .empty .empty e.name e.attrs := ⟨hv.tag, hf.tag, hs⟩
  set child : XmlElement := { XmlElement.new e.name with
    attrs := e.attrs ++ (enterElement .empty e.name e.attrs).1.map fun d => (⟨nsXmlns, d.1⟩, d.2) }
    with hchild
  obtain ⟨inner, hinner, hsame⟩ := @fill_rawChildren e.children _ _ hent.inside hv.children
    hf.children .nil child .nil
  refine ⟨{ child with children := inner }, ?_, ?_⟩
  · obtain ⟨hmerge, hok⟩ := hE _ _ (readDocument_str hv hf)
    have hfold : (E.run E.init [e.str] true).1.foldl buildCallback (.new, .new) =
        (({ xmlnsstack := .empty, raised := none } : ParseContext),
          ⟨[], some { child with children := inner }⟩) := by
      rw [← foldl_mergeText, hmerge, foldl_mergeText, foldl_events,
        buildCallback_characterData_nil]
      simp only [rawChildren, RawContent.callbacks, List.foldl_cons, List.foldl_append,
        List.foldl_nil]
      rw [show (ParseContext.new, XmlBuilder.new) =
        (({ xmlnsstack := .empty, raised := none } : ParseContext), ⟨[], none⟩) from rfl,
        buildCallback_enter (enter_printed hent), foldl_callbacks _ hinner]
      show (({ xmlnsstack := (enterElement .empty e.name e.attrs).2.popFrame, raised := none } :
        ParseContext), XmlBuilder.mk [] (some { child with children := inner })) = _
      rw [popFrame_enter (enter_printed hent)]
    have hparse : parseXml E e.str = (({ xmlnsstack := .empty, raised := none } : ParseContext),
        ⟨[], some { child with children := inner }⟩) := by
      rw [Expat.run] at hfold hok
      unfold parseXml
      generalize E.parse E.init e.str true = r at hfold hok ⊢
      obtain ⟨state, cs, err⟩ := r
      dsimp only at hfold hok ⊢
      rw [hok, hfold]
      rfl
    rw [XmlElement.forStr, hparse]
  · refine ⟨rfl, ⟨_, rfl, fun a ha => ?_⟩, hv.cdata.symm, hsame⟩
    obtain ⟨d, -, rfl⟩ := List.mem_map.mp ha
    rfl

/-- An element with a default namespace, with a child in another one whose attribute is
in a third. -/
def sampleElement : XmlElement where
  name := ⟨textBytes "urn:u", textBytes "a"⟩
  attrs := [(qnXmlns, textBytes "urn:u")]
  cdata := false
  children := .text (textBytes "x < y") (.element ⟨textBytes "urn:v", textBytes "b"⟩
    [(⟨textBytes "urn:w", textBytes "k"⟩, textBytes "\"&\"")] false .nil .nil)

theorem roundTrip_sample : ∃ e', XmlElement.forStr plainExpat sampleElement.str = some e' ∧
    sampleElement.joined.SameBut e' := by
  have hplain : ∀ ns ∈ [textBytes "urn:u", textBytes "urn:v", textBytes "urn:w"], Plain ns := by
    intro ns hns
    simp only [List.mem_cons, List.not_mem_nil, or_false] at hns
    rcases hns with rfl | rfl | rfl
    all_goals exact ⟨by decide, by decide, by decide⟩
  refine roundTrip plainExpat plainExpat_readsXml sampleElement ⟨⟨by decide, by decide⟩, rfl, ?_⟩
    ⟨⟨by decide, by decide, ?_⟩, ⟨by decide, by decide, ?_⟩, trivial, trivial⟩
  · exact ⟨by decide, ⟨by decide, by decide⟩, rfl, trivial, trivial⟩
  · intro n hn hno
    simp only [neededNs, sampleElement, qnXmlns, List.map_cons, List.map_nil, List.mem_cons,
      List.not_mem_nil, or_false] at hn
    rcases hn with rfl | rfl
    · exact hplain _ (by simp)
    · cases hno
  · intro n hn _
    simp only [neededNs, List.map_cons, List.map_nil, List.mem_cons, List.not_mem_nil,
      or_false] at hn
    rcases hn with rfl | rfl
    all_goals exact hplain _ (by simp)

/-- An element in a namespace with a reference in its name. -/
def escapedElement : XmlElement := XmlElement.new ⟨textBytes "&amp;", textBytes "a"⟩

/-- An element in no namespace below a default namespace. -/
def undeclaredElement : XmlElement :=
  (XmlElement.newDefaultNs ⟨textBytes "u", textBytes "a"⟩).addElement
    (XmlElement.new ⟨[], textBytes "b"⟩)

/-- **Not every element comes back**: what is invented is not escaped, and a prefix is
invented for the empty namespace. -/
theorem not_roundTrip : plainExpat.ReadsXml ∧
    (escapedElement.Valid ∧ ∀ e', XmlElement.forStr plainExpat escapedElement.str = some e' →
      ¬ escapedElement.joined.SameBut e') ∧
    undeclaredElement.Valid ∧
      XmlElement.forStr plainExpat undeclaredElement.str = none := by
  refine ⟨plainExpat_readsXml, ⟨⟨⟨by decide, by decide⟩, rfl, trivial⟩, ?_⟩,
    ⟨⟨by decide, by decide⟩, rfl, ⟨⟨by decide, by decide⟩, rfl, trivial, trivial⟩⟩, by decide⟩
  intro e' he hsame
  have hread : (XmlElement.forStr plainExpat escapedElement.str).map XmlElement.name =
      some ⟨textBytes "&", textBytes "a"⟩ := by decide
  rw [he, Option.map_some, hsame.name] at hread
  exact absurd hread (by decide)

end Jingle.Xmllite
