/-
What the printer writes is XML.

`Valid` says of an element that its names are names, and that its texts and values
can stand in a document as they are or escaped.  `Fits` says that the declarations
which are invented for it can, which the printer does not escape (`Plain`).

* **`reads_children`** — the children that are printed are read as `events`: tags
  with the names in their prefixes, and texts that are joined.
-/
import Jingle.Xmllite.Prefixes

namespace Jingle.Xmllite

open Signaling Xml XmlnsStack

/-! ### Escapes -/

/-- The texts that survive being read. -/
def isBody (t : Text) : Bool := isLegal t && t.all (· ≠ 0xD#8)

/-- The values that survive being read. -/
def isValue (t : Text) : Bool :=
  isLegal t && t.all fun b => b ≠ 0xD#8 && b ≠ 0xA#8 && b ≠ 0x9#8

theorem printBodyText_append (t u : Text) :
    printBodyText (t ++ u) = printBodyText t ++ printBodyText u := by
  induction t with
  | nil => rfl
  | cons ch t ih => rw [List.cons_append, printBodyText, printBodyText, ih, List.append_assoc]

theorem unescape_printBodyText {t : Text} (h : ∀ b ∈ t, b ≠ 0xD#8) :
    unescape badText none (printBodyText t) = some t := by
  induction t with
  | nil => rfl
  | cons ch t ih =>
    have ih := ih fun b hb => h b (List.mem_cons_of_mem _ hb)
    rw [printBodyText]
    by_cases hlt : ch = 0x3C#8
    · rw [if_pos hlt, hlt]
      show unescape badText none (0x26#8 :: ([0x6C#8, 0x74#8] ++ 0x3B#8 :: printBodyText t)) = _
      rw [unescape_entity (c := 0x3C#8) (by decide) rfl, ih]
      rfl
    rw [if_neg hlt]
    by_cases hgt : ch = 0x3E#8
    · rw [if_pos hgt, hgt]
      show unescape badText none (0x26#8 :: ([0x67#8, 0x74#8] ++ 0x3B#8 :: printBodyText t)) = _
      rw [unescape_entity (c := 0x3E#8) (by decide) rfl, ih]
      rfl
    rw [if_neg hgt]
    by_cases hamp : ch = 0x26#8
    · rw [if_pos hamp, hamp]
      show unescape badText none
        (0x26#8 :: ([0x61#8, 0x6D#8, 0x70#8] ++ 0x3B#8 :: printBodyText t)) = _
      rw [unescape_entity (c := 0x26#8) (by decide) rfl, ih]
      rfl
    · have hcr := h ch List.mem_cons_self
      rw [if_neg hamp, List.singleton_append,
        unescape_plain (by simp [badText, hlt, hgt, hcr]) hamp, ih]
      rfl

theorem lt_notMem_printBodyText (t : Text) : 0x3C#8 ∉ printBodyText t := by
  induction t with
  | nil => simp [printBodyText]
  | cons ch t ih =>
    rw [printBodyText, List.mem_append, not_or]
    refine ⟨?_, ih⟩
    split_ifs with hlt hgt hamp
    · decide
    · decide
    · decide
    · simpa using Ne.symm hlt

theorem printBodyText_ne_nil {t : Text} (h : t ≠ []) : printBodyText t ≠ [] := by
  obtain ⟨ch, t, rfl⟩ := List.exists_cons_of_ne_nil h
  rw [printBodyText]
  split_ifs <;> simp [textBytes]

theorem unescape_printQuotedValue {t : Text} (h : ∀ b ∈ t, b ≠ 0xD#8 ∧ b ≠ 0xA#8 ∧ b ≠ 0x9#8) :
    unescape badValue none (printQuotedValue t) = some t := by
  induction t with
  | nil => rfl
  | cons ch t ih =>
    have ih := ih fun b hb => h b (List.mem_cons_of_mem _ hb)
    rw [printQuotedValue]
    by_cases hlt : ch = 0x3C#8
    · rw [if_pos hlt, hlt]
      show unescape badValue none
        (0x26#8 :: ([0x6C#8, 0x74#8] ++ 0x3B#8 :: printQuotedValue t)) = _
      rw [unescape_entity (c := 0x3C#8) (by decide) rfl, ih]
      rfl
    rw [if_neg hlt]
    by_cases hgt : ch = 0x3E#8
    · rw [if_pos hgt, hgt]
      show unescape badValue none
        (0x26#8 :: ([0x67#8, 0x74#8] ++ 0x3B#8 :: printQuotedValue t)) = _
      rw [unescape_entity (c := 0x3E#8) (by decide) rfl, ih]
      rfl
    rw [if_neg hgt]
    by_cases hamp : ch = 0x26#8
    · rw [if_pos hamp, hamp]
      show unescape badValue none
        (0x26#8 :: ([0x61#8, 0x6D#8, 0x70#8] ++ 0x3B#8 :: printQuotedValue t)) = _
      rw [unescape_entity (c := 0x26#8) (by decide) rfl, ih]
      rfl
    rw [if_neg hamp]
    by_cases hquot : ch = 0x22#8
    · rw [if_pos hquot, hquot]
      show unescape badValue none
        (0x26#8 :: ([0x71#8, 0x75#8, 0x6F#8, 0x74#8] ++ 0x3B#8 :: printQuotedValue t)) = _
      rw [unescape_entity (c := 0x22#8) (by decide) rfl, ih]
      rfl
    · obtain ⟨hcr, hlf, htab⟩ := h ch List.mem_cons_self
      rw [if_neg hquot, List.singleton_append,
        unescape_plain (by simp [badValue, hlt, hquot, hcr, hlf, htab]) hamp, ih]
      rfl

theorem quot_notMem_printQuotedValue (t : Text) : 0x22#8 ∉ printQuotedValue t := by
  induction t with
  | nil => simp [printQuotedValue]
  | cons ch t ih =>
    rw [printQuotedValue, List.mem_append, not_or]
    refine ⟨?_, ih⟩
    split_ifs with hlt hgt hamp hquot
    · decide
    · decide
    · decide
    · decide
    · simpa using Ne.symm hquot

theorem readsValue_printQuotedValue {t : Text} (h : isValue t) :
    ReadsValue (printQuotedValue t) t := by
  obtain ⟨hleg, hall⟩ := Bool.and_eq_true_iff.mp h
  refine ⟨quot_notMem_printQuotedValue t, unescape_printQuotedValue fun b hb => ?_, hleg⟩
  simpa [and_assoc] using List.all_eq_true.mp hall b hb

/-- The namespaces that can be declared without being escaped. -/
structure Plain (ns : Text) : Prop where
  ne_nil : ns ≠ []
  value : isValue ns
  unescaped : ∀ b ∈ ns, b ≠ 0x3C#8 ∧ b ≠ 0x26#8 ∧ b ≠ 0x22#8

theorem Plain.readsValue {ns : Text} (h : Plain ns) : ReadsValue ns ns := by
  obtain ⟨hleg, hall⟩ := Bool.and_eq_true_iff.mp h.value
  refine ⟨fun hq => (h.unescaped _ hq).2.2 rfl, unescape_self fun b hb => ?_, hleg⟩
  have hb' := List.all_eq_true.mp hall b hb
  obtain ⟨hlt, hamp, hquot⟩ := h.unescaped b hb
  simp only [Bool.and_eq_true, decide_eq_true_eq] at hb'
  exact ⟨by simp [badValue, hlt, hquot, hb'], hamp⟩

/-! ### Printable elements -/

/-- A tag with names that are names and values that survive. -/
structure ValidTag (name : QName) (attrs : List (QName × Text)) : Prop where
  name : isNCName name.localPart
  attrs : ∀ a ∈ attrs, isNCName a.1.localPart ∧ isValue a.2

/-- The elements whose names are names and whose texts and values survive, without
CDATA. -/
def XmlChildren.Valid : XmlChildren → Prop
  | .nil => True
  | .text t next => isBody t ∧ next.Valid
  | .element name attrs cdata first next =>
    ValidTag name attrs ∧ cdata = false ∧ first.Valid ∧ next.Valid

/-- The namespaces that a tag needs: of its name and of its attributes. -/
def neededNs (name : QName) (attrs : List (QName × Text)) : List (Text × Bool) :=
  (name.namespace_, false) :: attrs.map fun a => (a.1.namespace_, true)

/-- A tag that can be printed, with what the elements declare themselves: no attribute
comes twice, no prefix is declared as nothing, and what has to be invented for it can be
declared as it is. -/
structure Fits (x : XmlnsStack) (name : QName) (attrs : List (QName × Text)) : Prop where
  distinct : (attrs.map Prod.fst).Nodup
  declares : ∀ a ∈ attrs, a.1.namespace_ = nsXmlns → a.2 ≠ []
  plain : ∀ n ∈ neededNs name attrs, x.prefixForNs n.1 n.2 = none → Plain n.1

/-- The elements that can be printed, with the declarations of the elements around
them. -/
def XmlChildren.Fits (x : XmlnsStack) : XmlChildren → Prop
  | .nil => True
  | .text _ next => next.Fits x
  | .element name attrs _ first next =>
    Xmllite.Fits (x.addAll (declared attrs)) name attrs ∧
      first.Fits (x.addAll (declared attrs)) ∧ next.Fits x

/-! ### Tags -/

/-- The printer's namespaces, with what the elements declare themselves. -/
structure Scope (s x : XmlnsStack) : Prop where
  covers : Covers s x
  named : s.Named

/-- The attributes of a printed tag: the names, what stands between the quotes and what
that stands for. -/
def tagAtts (s : XmlnsStack) (attrs : List (QName × Text)) (decls : List (Text × Text)) :
    List (Text × Text × Text) :=
  (attrs.map fun a => (s.formatQName a.1 true, printQuotedValue a.2, a.2)) ++
    decls.map fun d => (textBytes "xmlns:" ++ d.1, d.2, d.2)

/-- The attributes of a printed tag as they are read. -/
def rawAtts (s : XmlnsStack) (attrs : List (QName × Text)) (decls : List (Text × Text)) :
    List (Text × Text) :=
  (attrs.map fun a => (s.formatQName a.1 true, a.2)) ++
    decls.map fun d => (textBytes "xmlns:" ++ d.1, d.2)

theorem map_tagAtts (s : XmlnsStack) (attrs : List (QName × Text)) (decls : List (Text × Text)) :
    (tagAtts s attrs decls).map (fun a => (a.1, a.2.2)) = rawAtts s attrs decls := by
  simp [tagAtts, rawAtts, Function.comp_def]

/-- What is known of a tag that is printed. -/
structure Entered (s x : XmlnsStack) (name : QName) (attrs : List (QName × Text)) : Prop where
  valid : ValidTag name attrs
  fits : Fits (x.addAll (declared attrs)) name attrs
  scope : Scope s x

namespace Entered

variable {s x : XmlnsStack} {name : QName} {attrs : List (QName × Text)}

/-- The namespaces with the declarations among the attributes. -/
def outside (s : XmlnsStack) (attrs : List (QName × Text)) : XmlnsStack :=
  s.pushFrame.addAll (declared attrs)

theorem invented : Invented (outside s attrs) (neededNs name attrs)
    (enterElement s name attrs).1 (enterElement s name attrs).2 := newXmlns_invented _

theorem hasPrefix_name : (enterElement s name attrs).2.HasPrefix name.namespace_ false :=
  invented.prefixed _ List.mem_cons_self

theorem hasPrefix_attr {a : QName × Text} (ha : a ∈ attrs) :
    (enterElement s name attrs).2.HasPrefix a.1.namespace_ true :=
  invented.prefixed _ (List.mem_cons_of_mem _ (List.mem_map_of_mem ha))

theorem declared_named (h : ValidTag name attrs) :
    ∀ d ∈ declared attrs, d.1 = [] ∨ isNCName d.1 := by
  intro d hd
  obtain ⟨a, ha, hda⟩ := List.mem_filterMap.mp hd
  split_ifs at hda
  · cases hda
    exact .inl rfl
  · cases hda
    exact .inr (h.attrs a ha).1

variable (h : Entered s x name attrs)

include h

theorem covers_outside : Covers (outside s attrs) (x.addAll (declared attrs)) := by
  have hpush : Covers s.pushFrame x := ⟨h.scope.covers.bound, h.scope.covers.mem⟩
  exact hpush.addAll _

theorem inside : Scope (enterElement s name attrs).2 (x.addAll (declared attrs)) where
  covers := invented.covers.trans h.covers_outside
  named := by
    intro d hd
    rw [invented.stack, mem_addAll] at hd
    rcases hd with hd | hd
    · exact .inr (invented.fresh d hd).1.name
    · rcases (mem_addAll _).mp hd with hd | hd
      · exact declared_named h.valid d hd
      · exact h.scope.named d hd

theorem plain {d : Text × Text} (hd : d ∈ (enterElement s name attrs).1) : Plain d.2 := by
  obtain ⟨isAttr, hn, hno⟩ := invented.needed d hd
  refine h.fits.plain _ hn ?_
  by_contra hx
  obtain ⟨pre, hx⟩ := Option.ne_none_iff_exists'.mp hx
  exact hno ((hasPrefix_of_prefixForNs hx).mono h.covers_outside)

end Entered

/-! ### Names -/

theorem formatQName_nil (s : XmlnsStack) (l : Text) : s.formatQName ⟨[], l⟩ true = l := by
  have h₁ : ([] : Text) ≠ nsXml := by decide
  have h₂ : ([] : Text) ≠ nsXmlns := by decide
  simp [formatQName, prefixForNs, h₁, h₂]

theorem formatQName_nsXmlns (s : XmlnsStack) (l : Text) :
    s.formatQName ⟨nsXmlns, l⟩ true = textBytes "xmlns:" ++ l := by
  have h₁ : nsXmlns ≠ nsXml := by decide
  have h₂ : textBytes "xmlns" ≠ [] := by decide
  have h₃ : textBytes "xmlns:" = textBytes "xmlns" ++ textBytes ":" := by decide
  simp [formatQName, prefixForNs, h₁, h₂, h₃]

theorem resolveQName_xmlns (c : ParseContext) (l : Text) :
    c.resolveQName (textBytes "xmlns:" ++ l) true = ⟨nsXmlns, l⟩ := by
  have hname : isNCName (textBytes "xmlns") := by decide
  have htext : textBytes "xmlns:" ++ l = textBytes "xmlns" ++ 0x3A#8 :: l := by
    simp [textBytes]
  have hns : c.xmlnsstack.nsForPrefix (textBytes "xmlns") = some nsXmlns := by
    unfold nsForPrefix
    rw [if_pos (by decide), if_neg (by decide), if_pos rfl]
  unfold ParseContext.resolveQName
  rw [htext, takeWhile_colon hname]
  dsimp only
  rw [if_pos (by simp), hns]
  simp [textBytes]

namespace Entered

variable {s x : XmlnsStack} {name : QName} {attrs : List (QName × Text)}

theorem notMem_of_invented {d : Text × Text} (hd : d ∈ (enterElement s name attrs).1) :
    (⟨nsXmlns, d.1⟩ : QName) ∉ attrs.map Prod.fst := by
  intro hm
  obtain ⟨a, ha, ha1⟩ := List.mem_map.mp hm
  obtain ⟨hinv, hfree⟩ := invented.fresh d hd
  have hdecl : (d.1, a.2) ∈ declared attrs := by
    refine List.mem_filterMap.mpr ⟨a, ha, ?_⟩
    rw [if_neg (by rw [ha1]; simp [qnXmlns, nsXmlns, textBytes]), if_pos (by rw [ha1]), ha1]
  exact nsForPrefix_addAll_of_mem (d := (d.1, a.2)) hinv.notXml hdecl hfree

theorem printTag_eq (empty : Bool) :
    printTag (enterElement s name attrs).2 name attrs (enterElement s name attrs).1 ++
        tagEnd empty =
      renderTag ((enterElement s name attrs).2.formatQName name false)
        (tagAtts (enterElement s name attrs).2 attrs (enterElement s name attrs).1) empty := by
  have hdecl : ∀ d ∈ (enterElement s name attrs).1,
      printDecl d = renderAttr (textBytes "xmlns:" ++ d.1) d.2 := by
    intro d hd
    have hne := isNCName_ne_nil (invented.fresh d hd).1.name
    unfold printDecl renderAttr
    rw [if_neg hne]
    simp [textBytes]
  have hattr : ∀ a ∈ attrs, textBytes " " ++ (enterElement s name attrs).2.formatQName a.1 true ++
      textBytes "=\"" ++ printQuotedValue a.2 ++ textBytes "\"" =
      renderAttr ((enterElement s name attrs).2.formatQName a.1 true) (printQuotedValue a.2) := by
    intro a _
    unfold renderAttr
    simp [textBytes]
  rw [printTag, renderTag, tagAtts, List.flatMap_append, List.flatMap_map, List.flatMap_map,
    List.flatMap_congr hattr, List.flatMap_congr hdecl]
  simp [textBytes]

variable (h : Entered s x name attrs) {c : ParseContext}
  (hc : c.xmlnsstack = (enterElement s name attrs).2)

include h hc

theorem resolveQName_name :
    c.resolveQName ((enterElement s name attrs).2.formatQName name false) false = name :=
  resolveQName_formatQName h.inside.named h.valid.name hasPrefix_name hc

theorem resolveQName_attr {a : QName × Text} (ha : a ∈ attrs) :
    c.resolveQName ((enterElement s name attrs).2.formatQName a.1 true) true = a.1 :=
  resolveQName_formatQName h.inside.named (h.valid.attrs a ha).1 (hasPrefix_attr ha) hc

theorem map_resolveQName :
    (rawAtts (enterElement s name attrs).2 attrs (enterElement s name attrs).1).map
        (fun a => (c.resolveQName a.1 true, a.2)) =
      attrs ++ (enterElement s name attrs).1.map fun d => (⟨nsXmlns, d.1⟩, d.2) := by
  rw [rawAtts, List.map_append, List.map_map, List.map_map]
  refine congrArg₂ (· ++ ·) ?_ ?_
  · refine (List.map_congr_left fun a ha => ?_).trans (List.map_id attrs)
    show (c.resolveQName _ true, a.2) = a
    rw [h.resolveQName_attr hc ha]
  · refine List.map_congr_left fun d _ => ?_
    show (c.resolveQName _ true, d.2) = _
    rw [resolveQName_xmlns]

omit hc

theorem nodup_attrs : ((attrs ++ (enterElement s name attrs).1.map
    fun d => ((⟨nsXmlns, d.1⟩ : QName), d.2)).map Prod.fst).Nodup := by
  rw [List.map_append, List.map_map]
  refine List.Nodup.append h.fits.distinct ?_ ?_
  · have hinj : Function.Injective fun l : Text => (⟨nsXmlns, l⟩ : QName) := fun a b hab => by
      simpa using hab
    have hmap : ((enterElement s name attrs).1.map Prod.fst).Nodup := invented.nodup
    have hmap' := hmap.map hinj
    rwa [List.map_map] at hmap'
  · intro n hn hn'
    obtain ⟨d, hd, rfl⟩ := List.mem_map.mp hn'
    exact notMem_of_invented hd hn

theorem readsTag : ReadsTag ((enterElement s name attrs).2.formatQName name false)
    (tagAtts (enterElement s name attrs).2 attrs (enterElement s name attrs).1) where
  name := isQName_formatQName h.inside.named h.valid.name hasPrefix_name
  values := by
    intro a ha
    rcases List.mem_append.mp ha with ha | ha
    · obtain ⟨b, hb, rfl⟩ := List.mem_map.mp ha
      obtain ⟨hl, hv⟩ := h.valid.attrs b hb
      exact ⟨isQName_formatQName h.inside.named hl (hasPrefix_attr hb),
        readsValue_printQuotedValue hv⟩
    · obtain ⟨d, hd, rfl⟩ := List.mem_map.mp ha
      have hname := (invented.fresh d hd).1.name
      have htext : textBytes "xmlns:" ++ d.1 = textBytes "xmlns" ++ 0x3A#8 :: d.1 := by
        simp [textBytes]
      refine ⟨?_, (h.plain hd).readsValue⟩
      rw [htext]
      exact isQName_append (by decide) hname
  distinct := by
    set c : ParseContext := { xmlnsstack := (enterElement s name attrs).2, raised := none }
    have hmap := h.map_resolveQName (c := c) rfl
    rw [← map_tagAtts, List.map_map] at hmap
    have hnames := congrArg (List.map Prod.fst) hmap
    rw [List.map_map] at hnames
    have hnodup := h.nodup_attrs
    rw [← hnames] at hnodup
    have hcomp : (Prod.fst ∘ ((fun a : Text × Text => (c.resolveQName a.1 true, a.2)) ∘
        fun a : Text × Text × Text => (a.1, a.2.2))) =
        (fun n => c.resolveQName n true) ∘ Prod.fst := rfl
    rw [hcomp, ← List.map_map] at hnodup
    exact List.Nodup.of_map _ hnodup

end Entered

/-! ### Content -/

/-- Text that has been read before a tag. -/
def flush (t : Text) : List Xml.Event := if t = [] then [] else [.text t]

/-- **What XML reads in printed children**, after some text. -/
def events (s : XmlnsStack) : Text → XmlChildren → List Xml.Event
  | pending, .nil => flush pending
  | pending, .text t next => events s (pending ++ t) next
  | pending, .element name attrs _ first next =>
    let (decls, inside) := enterElement s name attrs
    flush pending ++ .start (inside.formatQName name false) (rawAtts inside attrs decls) ::
      (events inside [] first ++ .stop (inside.formatQName name false) :: events s [] next)

theorem reads_flush {names : List (List Byte)} (hn : names ≠ []) {t rest : Text}
    (ht : isBody t) {evs : List Xml.Event} (h : Reads names (0x3C#8 :: rest) evs) :
    Reads names (printBodyText t ++ 0x3C#8 :: rest) (flush t ++ evs) := by
  obtain ⟨hleg, hall⟩ := Bool.and_eq_true_iff.mp ht
  by_cases hnil : t = []
  · subst hnil
    exact h
  · rw [flush, if_neg hnil]
    refine Reads.text hn (printBodyText_ne_nil hnil) (lt_notMem_printBodyText t) ?_ hleg h
    refine unescape_printBodyText fun b hb => ?_
    simpa using List.all_eq_true.mp hall b hb

theorem isBody_nil : isBody [] := rfl

theorem isBody_append {t u : Text} (ht : isBody t) (hu : isBody u) : isBody (t ++ u) := by
  obtain ⟨htl, hta⟩ := Bool.and_eq_true_iff.mp ht
  obtain ⟨hul, hua⟩ := Bool.and_eq_true_iff.mp hu
  unfold isBody
  rw [isLegal_append htl hul, List.all_append, hta, hua]
  rfl

theorem reads_element {s x : XmlnsStack} {name : QName} {attrs : List (QName × Text)}
    (h : Entered s x name attrs) {first : XmlChildren} {names : List (List Byte)} {rest : Text}
    {evs : List Xml.Event} (hrest : ReadsNext names rest evs)
    (hfirst : ∀ {tail : Text} {evs : List Xml.Event},
      Reads ((enterElement s name attrs).2.formatQName name false :: names)
          (0x3C#8 :: tail) evs →
        Reads ((enterElement s name attrs).2.formatQName name false :: names)
          (printChildren (enterElement s name attrs).2 false first ++ 0x3C#8 :: tail)
          (events (enterElement s name attrs).2 [] first ++ evs)) :
    Reads names (printChildren s false (.element name attrs false first .nil) ++ rest)
      (.start ((enterElement s name attrs).2.formatQName name false)
          (rawAtts (enterElement s name attrs).2 attrs (enterElement s name attrs).1) ::
        (events (enterElement s name attrs).2 [] first ++
          .stop ((enterElement s name attrs).2.formatQName name false) :: evs)) := by
  have htag := h.readsTag
  rw [← map_tagAtts]
  unfold printChildren
  dsimp only
  by_cases hnil : first = .nil
  · rw [if_pos hnil, hnil]
    have hread := Reads.empty htag hrest
    rw [← Entered.printTag_eq] at hread
    simpa [tagEnd, textBytes, events, flush, printChildren] using hread
  · rw [if_neg hnil]
    have hread := Reads.start htag (hfirst (Reads.stop htag.name hrest))
    rw [← Entered.printTag_eq] at hread
    simpa [tagEnd, textBytes, printChildren] using hread

theorem printChildren_element (s : XmlnsStack) (name : QName) (attrs : List (QName × Text))
    (cdata inner : Bool) (first next : XmlChildren) :
    printChildren s cdata (.element name attrs inner first next) =
      printChildren s cdata (.element name attrs inner first .nil) ++
        printChildren s cdata next := by
  rw [printChildren, printChildren, printChildren]
  dsimp only
  rw [List.append_nil]

theorem exists_printElement (s : XmlnsStack) (name : QName) (attrs : List (QName × Text))
    (first : XmlChildren) :
    ∃ text, printChildren s false (.element name attrs false first .nil) = 0x3C#8 :: text := by
  rw [printChildren]
  dsimp only
  rw [printTag]
  exact ⟨_, rfl⟩

theorem reads_children (c : XmlChildren) : ∀ {s x : XmlnsStack} (_ : Scope s x)
    (_ : c.Valid) (_ : c.Fits x) {names : List (List Byte)} (_ : names ≠ []) {pending : Text}
    (_ : isBody pending) {tail : Text} {evs : List Xml.Event},
    Reads names (0x3C#8 :: tail) evs →
      Reads names (printBodyText pending ++ (printChildren s false c ++ 0x3C#8 :: tail))
        (events s pending c ++ evs) := by
  induction c with
  | nil =>
    intro s x _ _ _ names hn pending hp tail evs h
    exact reads_flush hn hp h
  | text t next ih =>
    intro s x hs hv hf names hn pending hp tail evs h
    have hih := ih hs hv.2 hf hn (isBody_append hp hv.1) h
    rw [printBodyText_append] at hih
    simpa [printChildren, events] using hih
  | element name attrs cdata first next ihfirst ihnext =>
    intro s x hs hv hf names hn pending hp tail evs h
    obtain ⟨htag, rfl, hvf, hvn⟩ := hv
    obtain ⟨hfits, hff, hfn⟩ := hf
    have hent : Entered s x name attrs := ⟨htag, hfits, hs⟩
    have hnext := ihnext hs hvn hfn hn isBody_nil h
    have hread := @reads_element _ _ _ _ hent first _ _ _ (hnext.next hn) fun {tail} {evs} h =>
      ihfirst hent.inside hvf hff (by simp) isBody_nil h
    obtain ⟨text, htext⟩ := exists_printElement s name attrs first
    rw [htext, List.cons_append] at hread
    rw [printChildren_element, htext, List.append_assoc, List.cons_append]
    have hflush := reads_flush hn hp hread
    simpa [events, printBodyText] using hflush

end Jingle.Xmllite
