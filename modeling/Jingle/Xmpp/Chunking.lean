/-
The stanzas do not depend on the chunks.

What a parser delivers is a function of all callbacks that expat makes, and of
whether expat ends with an error (`parseAll_outcome`): an error that is raised on
the way stops the delivery at once, and is reported once, at the end of the call it
happened in.  Character data may come in any pieces (`callbacks_merge`).

What is delivered for the callbacks of a stream is `Stream.events`: the stream, a
stanza for each element below it, in order, and the end.

* **`chunking`** — all of this for every expat that makes the same callbacks for
  every split.
-/
import Jingle.Xmllite.Tree
import Jingle.Xmpp.StanzaParser

namespace Jingle.Xmpp

open Signaling (Text QName)
open Xmllite

namespace XmppStanzaParser

variable (p : XmppStanzaParser)

/-- What is delivered for some callbacks and the way expat ends. -/
def outcome (r : List Callback × Option ℕ) : List StanzaEvent :=
  (p.callbacks r.1).2 ++
    if (p.callbacks r.1).1.context.raised.isSome ∨ r.2.isSome then [.xmlError] else []

variable {p}

theorem callback_of_raised (h : p.context.raised.isSome) (c : Callback) :
    p.callback c = (p, []) := by
  unfold callback
  rw [if_pos h]

theorem callbacks_of_raised (h : p.context.raised.isSome) (cs : List Callback) :
    p.callbacks cs = (p, []) := by
  induction cs with
  | nil => rfl
  | cons c cs ih =>
    rw [callbacks, callback_of_raised h]
    simp only [ih, List.append_nil]

theorem callbacks_append (p : XmppStanzaParser) (cs ds : List Callback) :
    p.callbacks (cs ++ ds) =
      (((p.callbacks cs).1.callbacks ds).1, (p.callbacks cs).2 ++ ((p.callbacks cs).1.callbacks ds).2) := by
  induction cs generalizing p with
  | nil => rfl
  | cons c cs ih =>
    rw [List.cons_append, callbacks, callbacks]
    simp only [ih, List.append_assoc]

theorem callbacks_cons (p : XmppStanzaParser) (c : Callback) (cs : List Callback) :
    p.callbacks (c :: cs) =
      (((p.callback c).1.callbacks cs).1, (p.callback c).2 ++ ((p.callback c).1.callbacks cs).2) :=
  rfl

/-! ### Character data in pieces -/

theorem callback_characterData (p : XmppStanzaParser) (t u : Text) :
    ((p.callback (.characterData t)).1.callback (.characterData u)) =
      p.callback (.characterData (t ++ u)) := by
  by_cases h : p.context.raised.isSome
  · rw [callback_of_raised h, callback_of_raised h, callback_of_raised h]
  · have hp : ∀ (q : XmppStanzaParser) v, ¬ q.context.raised.isSome →
        q.callback (.characterData v) = (q.incomingCharacterData v, []) := by
      intro q v hq
      unfold callback
      rw [if_neg hq]
    rw [hp p t h, hp p _ h]
    by_cases hd : 1 < p.depth
    · have hself : ∀ v, p.incomingCharacterData v =
          { p with builder := p.builder.characterData v } := fun v => if_pos hd
      have hq : ¬ ({ p with builder := p.builder.characterData t } :
          XmppStanzaParser).context.raised.isSome := h
      rw [hself, hself]
      simp only [hp _ u hq]
      rw [incomingCharacterData, if_pos hd, XmlBuilder.characterData_characterData]
    · have hself : ∀ v, p.incomingCharacterData v = p := fun v => if_neg hd
      rw [hself, hself]
      simp only [hp p u h, hself]

theorem callback_characterData_nil (p : XmppStanzaParser) :
    p.callback (.characterData []) = (p, []) := by
  by_cases h : p.context.raised.isSome
  · exact callback_of_raised h _
  · unfold callback
    rw [if_neg h]
    by_cases hd : 1 < p.depth
    · simp only [incomingCharacterData, if_pos hd, XmlBuilder.characterData_nil]
    · simp only [incomingCharacterData, if_neg hd]

theorem callback_characterData_events (p : XmppStanzaParser) (t : Text) :
    (p.callback (.characterData t)).2 = [] := by
  unfold callback
  split <;> rfl

theorem callbacks_merge (cs : List Callback) :
    ∀ p : XmppStanzaParser, p.callbacks (mergeText cs) = p.callbacks cs := by
  induction cs with
  | nil => exact fun p => rfl
  | cons c cs ih =>
    intro p
    cases c with
    | xmlDecl ver enc standalone =>
      rw [mergeText, callbacks_cons, callbacks_cons, ih]
    | startElement name atts =>
      rw [mergeText, callbacks_cons, callbacks_cons, ih]
    | endElement name =>
      rw [mergeText, callbacks_cons, callbacks_cons, ih]
    | characterData t =>
      rw [callbacks_cons, ← ih, mergeText]
      split
      · next u rest hm =>
        simp only [hm, callbacks_cons, callback_characterData, callback_characterData_events,
          List.nil_append]
      · split_ifs with ht
        · rw [ht, callback_characterData_nil, List.nil_append]
        · rw [callbacks_cons]

theorem outcome_congr {r r' : List Callback × Option ℕ} (h : mergeText r.1 = mergeText r'.1)
    (herr : r.2.isSome = r'.2.isSome) : p.outcome r = p.outcome r' := by
  unfold outcome
  rw [← callbacks_merge r.1, ← callbacks_merge r'.1, h, herr]

end XmppStanzaParser

namespace Parsing

variable {E : Expat}

theorem parse_of_sentError {s : Parsing E} (h : s.parser.sentError = true) (data : List Byte)
    (isFinal : Bool) : s.parse data isFinal = (s, []) := by
  rw [parse, if_pos h]

theorem parseAll_cons_cons (s : Parsing E) (data data' : List Byte) (chunks : List (List Byte))
    (isFinal : Bool) :
    s.parseAll (data :: data' :: chunks) isFinal =
      (((s.parse data false).1.parseAll (data' :: chunks) isFinal).1,
        (s.parse data false).2 ++
          ((s.parse data false).1.parseAll (data' :: chunks) isFinal).2) :=
  rfl

theorem parseAll_of_sentError {s : Parsing E} (h : s.parser.sentError = true)
    (chunks : List (List Byte)) (isFinal : Bool) : s.parseAll chunks isFinal = (s, []) := by
  induction chunks with
  | nil => rfl
  | cons data chunks ih =>
    cases chunks with
    | nil => exact parse_of_sentError h data isFinal
    | cons data' chunks =>
      rw [parseAll_cons_cons, parse_of_sentError h]
      simp only [ih, List.append_nil]

theorem parse_eq {s : Parsing E} (h : s.parser.sentError = false) (data : List Byte)
    (isFinal : Bool) :
    s.parse data isFinal =
      (let r := E.parse s.expat data isFinal
       let q := s.parser.callbacks r.2.1
       let q' := match r.2.2 with
         | some code => q.1.raiseError (.expat code)
         | none => q.1
       if q'.context.raised.isSome then
         ({ parser := { q' with sentError := true }, expat := r.1 }, q.2 ++ [.xmlError])
       else ({ parser := q', expat := r.1 }, q.2)) := by
  have hopen : ¬ s.parser.sentError = true := by
    rw [h]
    simp
  unfold parse
  exact (if_neg hopen).trans rfl

theorem raised_raiseError (p : XmppStanzaParser) (err : XmlError) :
    (p.raiseError err).context.raised.isSome = true := by
  unfold XmppStanzaParser.raiseError ParseContext.raiseError
  simp only
  split
  · next e he => simp [he]
  · rfl

theorem sentError_callback (p : XmppStanzaParser) (c : Callback) :
    (p.callback c).1.sentError = p.sentError := by
  unfold XmppStanzaParser.callback
  split_ifs
  · rfl
  · cases c with
    | xmlDecl ver enc standalone => rfl
    | startElement name atts =>
      simp only
      split_ifs
      · rfl
      · unfold XmppStanzaParser.incomingStartElement
        split_ifs
        · simp only
          split <;> rfl
        · simp only
          split <;> rfl
    | endElement name =>
      simp only [XmppStanzaParser.incomingEndElement]
      split_ifs
      · rfl
      · split <;> rfl
      · rfl
    | characterData t =>
      simp only [XmppStanzaParser.incomingCharacterData]
      split_ifs <;> rfl

theorem sentError_callbacks (p : XmppStanzaParser) (cs : List Callback) :
    (p.callbacks cs).1.sentError = p.sentError := by
  induction cs generalizing p with
  | nil => rfl
  | cons c cs ih =>
    rw [XmppStanzaParser.callbacks_cons]
    exact (ih _).trans (sentError_callback p c)

theorem parseAll_outcome (chunks : List (List Byte)) (isFinal : Bool) :
    ∀ s : Parsing E, s.parser.sentError = false → s.parser.context.raised = none →
      (s.parseAll chunks isFinal).2 = s.parser.outcome (E.run s.expat chunks isFinal) := by
  induction chunks with
  | nil =>
    intro s _ hr
    simp [parseAll, Expat.run, XmppStanzaParser.outcome, XmppStanzaParser.callbacks, hr]
  | cons data chunks ih =>
    intro s hs hr
    cases chunks with
    | nil =>
      rw [parseAll, parse_eq hs, Expat.run]
      cases herr : (E.parse s.expat data isFinal).2.2 with
      | some code =>
        simp [XmppStanzaParser.outcome, herr, raised_raiseError]
      | none =>
        simp only [XmppStanzaParser.outcome, herr]
        by_cases hq : (s.parser.callbacks (E.parse s.expat data isFinal).2.1).1.context.raised.isSome
        · simp [hq]
        · simp [hq]
    | cons data' chunks =>
      rw [parseAll_cons_cons, parse_eq hs]
      rcases hparse : E.parse s.expat data false with ⟨expat, cs, err⟩
      cases err with
      | some code =>
        have hrun := Expat.run_of_error hparse data' chunks isFinal
        simp only [raised_raiseError, if_true]
        rw [parseAll_of_sentError rfl, hrun, XmppStanzaParser.outcome]
        simp
      | none =>
        have hrun := Expat.run_of_ok hparse data' chunks isFinal
        rw [hrun]
        by_cases hq : (s.parser.callbacks cs).1.context.raised.isSome
        · -- the first error ends the delivery, and expat is not asked any more
          simp only [hq, if_true]
          rw [parseAll_of_sentError rfl, XmppStanzaParser.outcome,
            XmppStanzaParser.callbacks_append, XmppStanzaParser.callbacks_of_raised hq]
          simp [hq]
        · simp only [hq]
          have hnone : (s.parser.callbacks cs).1.context.raised = none := by
            simpa using hq
          have hsent : (s.parser.callbacks cs).1.sentError = false := by
            rw [sentError_callbacks, hs]
          have := ih { parser := (s.parser.callbacks cs).1, expat } hsent hnone
          simp only [Bool.false_eq_true, if_false]
          rw [this, XmppStanzaParser.outcome, XmppStanzaParser.outcome,
            XmppStanzaParser.callbacks_append, List.append_assoc]

end Parsing

/-! ### What a stream stands for -/

/-- The stanzas of the content below the stream, and whether all of it is resolved. -/
def stanzas (s : XmlnsStack) : RawContent → List StanzaEvent × Bool
  | .nil => ([], true)
  | .text _ next => stanzas s next
  | .element name atts first next =>
    match enter s name atts with
    | none => ([], false)
    | some (inside, e) =>
      match first.fill inside e with
      | none => ([], false)
      | some e => (.stanza e :: (stanzas s next).1, (stanzas s next).2)

/-- An element that is not complete: its tag and its content so far. -/
structure Unfinished where
  name : Text
  atts : List (Text × Text)
  content : RawContent

/-- Whether elements that are not complete, outermost first, are resolved so far. -/
def unfinishedResolved (s : XmlnsStack) : List Unfinished → Bool
  | [] => true
  | u :: rest =>
    match enter s u.name u.atts with
    | none => false
    | some (inside, e) =>
      match u.content.fill inside e with
      | none => false
      | some _ => unfinishedResolved inside rest

/-- What is below the XML declaration of a stream: nothing yet, an open stream with
the elements that are not complete, or a closed one. -/
inductive StreamBody
  | prolog
  | opened (name : Text) (atts : List (Text × Text)) (content : RawContent)
      (unfinished : List Unfinished)
  | closed (name : Text) (atts : List (Text × Text)) (content : RawContent)

/-- A stream, as far as it has been received. -/
structure Stream where
  decl : Option (Option Text × Option Text × ℤ)
  body : StreamBody

namespace Stream

/-- The callbacks of the elements that are not complete. -/
def unfinishedCallbacks (unfinished : List Unfinished) : List Callback :=
  unfinished.flatMap fun u => .startElement u.name u.atts :: u.content.callbacks

/-- The callbacks of a body. -/
def bodyCallbacks : StreamBody → List Callback
  | .prolog => []
  | .opened name atts content unfinished =>
    .startElement name atts :: (content.callbacks ++ unfinishedCallbacks unfinished)
  | .closed name atts content =>
    .startElement name atts :: (content.callbacks ++ [.endElement name])

/-- The callbacks of a stream. -/
def callbacks (st : Stream) : List Callback :=
  (st.decl.map fun d => Callback.xmlDecl d.1 d.2.1 d.2.2).toList ++ bodyCallbacks st.body

/-- What is delivered for a body, and whether all of it is resolved. -/
def bodyEvents : StreamBody → List StanzaEvent × Bool
  | .prolog => ([], true)
  | .opened name atts content unfinished =>
    match enter .empty name atts with
    | none => ([], false)
    | some (s, stream) =>
      (.startStream stream :: (stanzas s content).1,
        (stanzas s content).2 && unfinishedResolved s unfinished)
  | .closed name atts content =>
    match enter .empty name atts with
    | none => ([], false)
    | some (s, stream) =>
      (.startStream stream :: ((stanzas s content).1 ++
        if (stanzas s content).2 then [.endStream] else []), (stanzas s content).2)

/-- **What a stream stands for**: the stream, a stanza for every complete element
below it, in order, and the end. -/
def events (st : Stream) : List StanzaEvent × Bool :=
  if (st.decl.map fun d => ParseContext.new.xmlDecl d.1 d.2.1 d.2.2).any
    fun c => c.raised.isSome then ([], false)
  else bodyEvents st.body

end Stream

/-! ### The parser follows the stream -/

namespace XmppStanzaParser

/-- A parser without an error. -/
def within (s : XmlnsStack) (depth : ℤ) (builder : XmlBuilder) : XmppStanzaParser where
  context := { xmlnsstack := s, raised := none }
  sentError := false
  depth := depth
  builder := builder

variable {s inside : XmlnsStack} {d : ℤ} {b : XmlBuilder} {name : Text}
  {atts : List (Text × Text)} {e : XmlElement}

theorem callback_tag (s : XmlnsStack) (d : ℤ) (b : XmlBuilder) (name : Text)
    (atts : List (Text × Text)) :
    (within s d b).callback (.startElement name atts) =
      (let c := ({ xmlnsstack := s, raised := none } : ParseContext).startElement.startNamespaces atts
       if c.raised.isSome then ({ within s d b with context := c }, [])
       else { within s d b with context := c }.incomingStartElement name atts) := by
  unfold callback
  rw [if_neg (by simp [within])]
  rfl

theorem callback_endTag (s : XmlnsStack) (d : ℤ) (b : XmlBuilder) (name : Text) :
    (within s d b).callback (.endElement name) = (within s.popFrame d b).incomingEndElement := by
  unfold callback
  rw [if_neg (by simp [within])]
  rfl

theorem incomingStartElement_of_none {p : XmppStanzaParser}
    (h : buildElement p.context name atts = none) :
    (p.incomingStartElement name atts).1.context.raised.isSome ∧
      (p.incomingStartElement name atts).2 = [] := by
  unfold incomingStartElement
  by_cases hd : p.depth = 0
  · rw [if_pos hd]
    simp only [h]
    exact ⟨Parsing.raised_raiseError _ _, trivial⟩
  · rw [if_neg hd]
    simp only [h]
    exact ⟨Parsing.raised_raiseError _ _, trivial⟩

theorem incomingStartElement_stream {p : XmppStanzaParser} (hd : p.depth = 0)
    (h : buildElement p.context name atts = some e) :
    p.incomingStartElement name atts = ({ p with depth := p.depth + 1 }, [.startStream e]) := by
  unfold incomingStartElement
  rw [if_pos hd]
  simp only [h]

theorem incomingStartElement_inner {p : XmppStanzaParser} (hd : p.depth ≠ 0)
    (h : buildElement p.context name atts = some e) :
    p.incomingStartElement name atts =
      ({ p with depth := p.depth + 1, builder := p.builder.startElement e }, []) := by
  unfold incomingStartElement
  rw [if_neg hd]
  simp only [h]

theorem incomingEndElement_inner {p : XmppStanzaParser} (h0 : p.depth - 1 ≠ 0)
    (h1 : p.depth - 1 ≠ 1) :
    p.incomingEndElement =
      ({ p with depth := p.depth - 1, builder := p.builder.endElement }, []) := by
  unfold incomingEndElement
  simp only
  rw [if_neg h0, if_neg h1]

theorem callback_start_of_none (h : enter s name atts = none) :
    ((within s d b).callback (.startElement name atts)).1.context.raised.isSome ∧
      ((within s d b).callback (.startElement name atts)).2 = [] := by
  unfold enter at h
  rw [callback_tag]
  simp only at h ⊢
  by_cases hr : (({ xmlnsstack := s, raised := none } : ParseContext).startElement.startNamespaces
    atts).raised.isSome
  · rw [if_pos hr]
    exact ⟨hr, rfl⟩
  · rw [if_neg hr] at h ⊢
    exact incomingStartElement_of_none (Option.map_eq_none_iff.mp h)

theorem context_of_enter (h : enter s name atts = some (inside, e)) :
    ({ xmlnsstack := s, raised := none } : ParseContext).startElement.startNamespaces atts =
        { xmlnsstack := inside, raised := none } ∧
      buildElement { xmlnsstack := inside, raised := none } name atts = some e := by
  unfold enter at h
  simp only at h
  generalize ({ xmlnsstack := s, raised := none } : ParseContext).startElement.startNamespaces
    atts = c at h ⊢
  obtain ⟨stack, raised⟩ := c
  split_ifs at h with hr
  obtain ⟨e', hb, he⟩ := Option.map_eq_some_iff.mp h
  obtain ⟨rfl, rfl⟩ := Prod.mk.inj he
  have hnone : raised = none := by simpa using hr
  subst hnone
  exact ⟨rfl, hb⟩

theorem callback_stream (h : enter s name atts = some (inside, e)) :
    (within s 0 b).callback (.startElement name atts) = (within inside 1 b, [.startStream e]) := by
  obtain ⟨hc, hb⟩ := context_of_enter h
  rw [callback_tag, hc]
  simp only [Option.isSome_none, Bool.false_eq_true, if_false]
  rw [incomingStartElement_stream rfl hb]
  rfl

theorem callback_start (hd : d ≠ 0) (h : enter s name atts = some (inside, e)) :
    (within s d b).callback (.startElement name atts) =
      (within inside (d + 1) (b.startElement e), []) := by
  obtain ⟨hc, hb⟩ := context_of_enter h
  rw [callback_tag, hc]
  simp only [Option.isSome_none, Bool.false_eq_true, if_false]
  rw [incomingStartElement_inner hd hb]
  rfl

theorem callback_end {parent : XmlElement} {parents : List XmlElement} {root : Option XmlElement}
    (hd : 2 < d) :
    (within s d { parents := e :: parent :: parents, root }).callback (.endElement name) =
      (within s.popFrame (d - 1) { parents := parent.addElement e :: parents, root }, []) := by
  have h0 : d - 1 ≠ 0 := by omega
  have h1 : d - 1 ≠ 1 := by omega
  rw [callback_endTag, incomingEndElement_inner h0 h1]
  rfl

theorem callback_end_stanza {root : Option XmlElement} :
    (within s 2 { parents := [e], root }).callback (.endElement name) =
      (within s.popFrame 1 .new, [.stanza e]) :=
  callback_endTag s 2 _ name

theorem callback_end_stream :
    (within s 1 b).callback (.endElement name) = (within s.popFrame 0 b, [.endStream]) :=
  callback_endTag s 1 b name

theorem callback_text {parents : List XmlElement} {root : Option XmlElement} (hd : 1 < d)
    (t : Text) :
    (within s d { parents := e :: parents, root }).callback (.characterData t) =
      (within s d { parents := e.addText t :: parents, root }, []) := by
  unfold callback
  rw [if_neg (by simp [within])]
  show ((within s d { parents := e :: parents, root }).incomingCharacterData t, []) = _
  unfold incomingCharacterData
  rw [if_pos (show 1 < (within s d { parents := e :: parents, root }).depth from hd)]
  rfl

theorem callback_text_stream (t : Text) :
    (within s 1 b).callback (.characterData t) = (within s 1 b, []) := by
  unfold callback
  rw [if_neg (by simp [within])]
  rfl

theorem callbacks_fill (content : RawContent) : ∀ {s : XmlnsStack} {d : ℤ} {e : XmlElement}
    {parents : List XmlElement} {root : Option XmlElement}, 1 < d →
      (∀ e', content.fill s e = some e' →
        (within s d { parents := e :: parents, root }).callbacks content.callbacks =
          (within s d { parents := e' :: parents, root }, [])) ∧
      (content.fill s e = none →
        ((within s d { parents := e :: parents, root }).callbacks
            content.callbacks).1.context.raised.isSome ∧
          ((within s d { parents := e :: parents, root }).callbacks content.callbacks).2 = []) := by
  induction content with
  | nil =>
    intro s d e parents root hd
    refine ⟨fun e' h => ?_, fun h => absurd h (by simp [RawContent.fill])⟩
    rw [← Option.some.inj h]
    rfl
  | text t next ih =>
    intro s d e parents root hd
    have := @ih s d (e.addText t) parents root hd
    simp only [RawContent.callbacks, RawContent.fill, callbacks_cons, callback_text hd,
      List.nil_append]
    exact this
  | element name atts first next ihFirst ihNext =>
    intro s d e parents root hd
    simp only [RawContent.callbacks, RawContent.fill, callbacks_cons, callbacks_append]
    cases henter : enter s name atts with
    | none =>
      obtain ⟨hr, hev⟩ := @callback_start_of_none s d { parents := e :: parents, root } name atts
        henter
      refine ⟨fun e' h => absurd h (by simp), fun _ => ?_⟩
      simp only [callbacks_of_raised hr, callback_of_raised hr, hev, List.append_nil]
      exact ⟨hr, trivial⟩
    | some r =>
      obtain ⟨inside, child⟩ := r
      have hstart := @callback_start s inside d { parents := e :: parents, root } name atts child
        (by omega) henter
      simp only [hstart, XmlBuilder.startElement]
      obtain ⟨hsome, hnone⟩ := @ihFirst inside (d + 1) child (e :: parents) root (by omega)
      cases hfill : first.fill inside child with
      | none =>
        obtain ⟨hr, hev⟩ := hnone hfill
        refine ⟨fun e' h => absurd h (by simp), fun _ => ?_⟩
        simp only [callbacks_of_raised hr, callback_of_raised hr, hev, List.append_nil]
        exact ⟨hr, trivial⟩
      | some child' =>
        have hend := @callback_end inside (d + 1) name child' e parents root (by omega)
        rw [popFrame_enter henter, add_sub_cancel_right] at hend
        simp only [hsome child' hfill, hend, List.nil_append]
        exact ihNext hd

theorem callbacks_stanzas (content : RawContent) : ∀ {s : XmlnsStack},
    ((stanzas s content).2 = true →
      (within s 1 .new).callbacks content.callbacks = (within s 1 .new, (stanzas s content).1)) ∧
    ((stanzas s content).2 = false →
      ((within s 1 .new).callbacks content.callbacks).1.context.raised.isSome ∧
        ((within s 1 .new).callbacks content.callbacks).2 = (stanzas s content).1) := by
  induction content with
  | nil => exact ⟨fun _ => rfl, fun h => absurd h (by simp [stanzas])⟩
  | text t next ih =>
    intro s
    simp only [RawContent.callbacks, stanzas, callbacks_cons, callback_text_stream,
      List.nil_append]
    exact ih
  | element name atts first next ihFirst ihNext =>
    intro s
    simp only [RawContent.callbacks, stanzas, callbacks_cons, callbacks_append]
    cases henter : enter s name atts with
    | none =>
      obtain ⟨hr, hev⟩ := @callback_start_of_none s 1 .new name atts henter
      refine ⟨fun h => absurd h (by simp), fun _ => ?_⟩
      simp only [callbacks_of_raised hr, callback_of_raised hr, hev, List.append_nil]
      exact ⟨hr, trivial⟩
    | some r =>
      obtain ⟨inside, e⟩ := r
      have hstart : (within s 1 .new).callback (.startElement name atts) =
          (within inside 2 { parents := [e], root := none }, []) :=
        callback_start (by decide) henter
      obtain ⟨hsome, hnone⟩ := @callbacks_fill first inside 2 e [] none (by decide)
      simp only [hstart]
      cases hfill : first.fill inside e with
      | none =>
        obtain ⟨hr, hev⟩ := hnone hfill
        refine ⟨fun h => absurd h (by simp), fun _ => ?_⟩
        simp only [callbacks_of_raised hr, callback_of_raised hr, hev, List.append_nil]
        exact ⟨hr, trivial⟩
      | some e' =>
        have hend := @callback_end_stanza inside name e' none
        rw [popFrame_enter henter] at hend
        obtain ⟨htrue, hfalse⟩ := @ihNext s
        simp only [hsome e' hfill, hend, List.nil_append, List.singleton_append]
        refine ⟨fun h => ?_, fun h => ?_⟩
        · rw [htrue h]
        · exact ⟨(hfalse h).1, by rw [(hfalse h).2]⟩

theorem callbacks_unfinished (l : List Unfinished) : ∀ {s : XmlnsStack} {d : ℤ} {b : XmlBuilder},
    0 < d →
      ((within s d b).callbacks (Stream.unfinishedCallbacks l)).2 = [] ∧
      ((within s d b).callbacks (Stream.unfinishedCallbacks l)).1.context.raised.isSome =
        !unfinishedResolved s l := by
  induction l with
  | nil => exact fun _ => ⟨rfl, rfl⟩
  | cons u l ih =>
    intro s d b hd
    have hcons : Stream.unfinishedCallbacks (u :: l) =
        .startElement u.name u.atts :: (u.content.callbacks ++ Stream.unfinishedCallbacks l) := by
      simp [Stream.unfinishedCallbacks]
    rw [hcons, callbacks_cons, callbacks_append, unfinishedResolved]
    cases henter : enter s u.name u.atts with
    | none =>
      obtain ⟨hr, hev⟩ := @callback_start_of_none s d b u.name u.atts henter
      simp only [callbacks_of_raised hr, hev, List.append_nil]
      exact ⟨trivial, by rw [hr]; rfl⟩
    | some r =>
      obtain ⟨inside, e⟩ := r
      have hstart := @callback_start s inside d b u.name u.atts e (by omega) henter
      obtain ⟨hsome, hnone⟩ := @callbacks_fill u.content inside (d + 1) e b.parents b.root
        (by omega)
      simp only [hstart, XmlBuilder.startElement]
      cases hfill : u.content.fill inside e with
      | none =>
        obtain ⟨hr, hev⟩ := hnone hfill
        simp only [callbacks_of_raised hr, hev, List.append_nil]
        exact ⟨trivial, by rw [hr]; rfl⟩
      | some e' =>
        simp only [hsome e' hfill, List.nil_append]
        exact ih (by omega)

theorem callbacks_body (body : StreamBody) :
    ((within .empty 0 .new).callbacks (Stream.bodyCallbacks body)).2 = (Stream.bodyEvents body).1 ∧
    ((within .empty 0 .new).callbacks (Stream.bodyCallbacks body)).1.context.raised.isSome =
      !(Stream.bodyEvents body).2 := by
  cases body with
  | prolog => exact ⟨rfl, rfl⟩
  | opened name atts content unfinished =>
    rw [Stream.bodyCallbacks, Stream.bodyEvents, callbacks_cons, callbacks_append]
    cases henter : enter .empty name atts with
    | none =>
      obtain ⟨hr, hev⟩ := @callback_start_of_none .empty 0 .new name atts henter
      simp only [callbacks_of_raised hr, hev, List.append_nil]
      exact ⟨trivial, by rw [hr]; rfl⟩
    | some r =>
      obtain ⟨s, stream⟩ := r
      have hstart := @callback_stream .empty s .new name atts stream henter
      obtain ⟨htrue, hfalse⟩ := @callbacks_stanzas content s
      simp only [hstart]
      cases hst : (stanzas s content).2 with
      | true =>
        obtain ⟨hev, hr⟩ := @callbacks_unfinished unfinished s 1 .new (by decide)
        simp only [htrue hst, hev, List.append_nil, List.singleton_append, Bool.true_and]
        exact ⟨trivial, hr⟩
      | false =>
        obtain ⟨hr, hev⟩ := hfalse hst
        simp only [callbacks_of_raised hr, hev, List.append_nil, List.singleton_append,
          Bool.false_and]
        exact ⟨trivial, by rw [hr]; rfl⟩
  | closed name atts content =>
    rw [Stream.bodyCallbacks, Stream.bodyEvents, callbacks_cons, callbacks_append]
    cases henter : enter .empty name atts with
    | none =>
      obtain ⟨hr, hev⟩ := @callback_start_of_none .empty 0 .new name atts henter
      simp only [callbacks_of_raised hr, hev, List.append_nil]
      exact ⟨trivial, by rw [hr]; rfl⟩
    | some r =>
      obtain ⟨s, stream⟩ := r
      have hstart := @callback_stream .empty s .new name atts stream henter
      obtain ⟨htrue, hfalse⟩ := @callbacks_stanzas content s
      simp only [hstart]
      cases hst : (stanzas s content).2 with
      | true =>
        simp only [htrue hst, callbacks_cons, callback_end_stream, if_true]
        exact ⟨rfl, rfl⟩
      | false =>
        obtain ⟨hr, hev⟩ := hfalse hst
        simp only [callbacks_of_raised hr, hev, List.append_nil, List.singleton_append]
        exact ⟨by simp, by rw [hr]; rfl⟩

theorem callbacks_stream (st : Stream) :
    (XmppStanzaParser.new.callbacks st.callbacks).2 = st.events.1 ∧
    (XmppStanzaParser.new.callbacks st.callbacks).1.context.raised.isSome = !st.events.2 := by
  obtain ⟨decl, body⟩ := st
  cases decl with
  | none =>
    exact callbacks_body body
  | some d =>
    have hcb : XmppStanzaParser.new.callback (.xmlDecl d.1 d.2.1 d.2.2) =
        ({ XmppStanzaParser.new with context := ParseContext.new.xmlDecl d.1 d.2.1 d.2.2 }, []) :=
      rfl
    have hst : (⟨some d, body⟩ : Stream).callbacks =
        .xmlDecl d.1 d.2.1 d.2.2 :: Stream.bodyCallbacks body := rfl
    rw [hst, callbacks_cons, hcb, Stream.events]
    simp only [Option.map_some, Option.any_some, List.nil_append]
    by_cases hr : (ParseContext.new.xmlDecl d.1 d.2.1 d.2.2).raised.isSome
    · rw [if_pos hr]
      have hp : ({ XmppStanzaParser.new with
          context := ParseContext.new.xmlDecl d.1 d.2.1 d.2.2 } :
            XmppStanzaParser).context.raised.isSome := hr
      rw [callbacks_of_raised hp]
      exact ⟨rfl, hr⟩
    · rw [if_neg hr]
      have hc : ParseContext.new.xmlDecl d.1 d.2.1 d.2.2 = .new := by
        unfold ParseContext.xmlDecl at hr ⊢
        split_ifs at hr ⊢ <;> first | rfl | exact absurd rfl hr
      rw [hc]
      exact callbacks_body body

theorem xmlError_not_mem_callback (p : XmppStanzaParser) (c : Callback) :
    .xmlError ∉ (p.callback c).2 := by
  unfold callback
  split_ifs
  · simp
  · cases c with
    | xmlDecl ver enc standalone => simp
    | startElement name atts =>
      simp only
      split_ifs
      · simp
      · unfold incomingStartElement
        split_ifs <;> simp only <;> split <;> simp
    | endElement name =>
      simp only [incomingEndElement]
      split_ifs
      · simp
      · split <;> simp
      · simp
    | characterData t => simp

theorem xmlError_not_mem_callbacks (p : XmppStanzaParser) (cs : List Callback) :
    .xmlError ∉ (p.callbacks cs).2 := by
  induction cs generalizing p with
  | nil => simp [callbacks]
  | cons c cs ih =>
    rw [callbacks_cons, List.mem_append, not_or]
    exact ⟨xmlError_not_mem_callback p c, ih _⟩

end XmppStanzaParser

/-! ### Chunks do not matter -/

/-- What is delivered for a stream in chunks. -/
def delivered (E : Expat) (chunks : List (List Byte)) (isFinal : Bool) : List StanzaEvent :=
  ((Parsing.new : Parsing E).parseAll chunks isFinal).2

/-- **What is delivered does not depend on the chunks.** -/
structure Unchunked (E : Expat) : Prop where
  split : ∀ chunks chunks' isFinal, chunks ≠ [] → chunks' ≠ [] →
    chunks.flatten = chunks'.flatten → delivered E chunks isFinal = delivered E chunks' isFinal
  error : ∀ chunks isFinal, ∃ events, .xmlError ∉ events ∧
    ((delivered E chunks isFinal = events ∧ (E.run E.init chunks isFinal).2 = none) ∨
      delivered E chunks isFinal = events ++ [.xmlError])
  stream : ∀ chunks isFinal (st : Stream), (E.run E.init chunks isFinal).1 = st.callbacks →
    delivered E chunks isFinal = st.events.1 ++
      if st.events.2 ∧ (E.run E.init chunks isFinal).2 = none then [] else [.xmlError]

theorem delivered_eq (E : Expat) (chunks : List (List Byte)) (isFinal : Bool) :
    delivered E chunks isFinal = XmppStanzaParser.new.outcome (E.run E.init chunks isFinal) :=
  Parsing.parseAll_outcome chunks isFinal .new rfl rfl

/-- **Stanza parsing is independent of chunking**: the same events for every split,
one stanza for each element below the stream, and one report of the first error,
after which nothing is delivered. -/
theorem chunking (E : Expat) (hE : E.SplitsEvenly) : Unchunked E where
  split := by
    intro chunks chunks' isFinal h h' heq
    obtain ⟨hcs, herr⟩ := hE chunks chunks' isFinal h h' heq
    rw [delivered_eq, delivered_eq]
    exact XmppStanzaParser.outcome_congr hcs herr
  error := by
    intro chunks isFinal
    refine ⟨_, XmppStanzaParser.xmlError_not_mem_callbacks .new (E.run E.init chunks isFinal).1, ?_⟩
    rw [delivered_eq, XmppStanzaParser.outcome]
    split_ifs with h
    · exact .inr rfl
    · refine .inl ⟨List.append_nil _, ?_⟩
      simpa using (not_or.mp h).2
  stream := by
    intro chunks isFinal st hst
    obtain ⟨hev, hr⟩ := XmppStanzaParser.callbacks_stream st
    rw [delivered_eq, XmppStanzaParser.outcome, hst, hev, hr]
    congr 1
    rcases (E.run E.init chunks isFinal).2 with _ | code <;> rcases st.events.2 <;> simp

/-- A document with the callbacks that each of its bytes completes. -/
abbrev Script := List (Byte × List Callback)

/-- The bytes that are received are compared with the document. -/
def Script.consume : Script → List Byte → Script × List Callback × Option ℕ
  | script, [] => (script, [], none)
  | [], _ :: _ => ([], [], some 9)
  | (b, cs) :: script, ch :: data =>
    if b = ch then
      ((consume script data).1, cs ++ (consume script data).2.1, (consume script data).2.2)
    else ([], [], some 4)

/-- An expat for one document. -/
def Script.expat (script : Script) : Expat where
  State := Script
  init := script
  parse := fun script data _ => script.consume data

theorem Script.consume_append (data rest : List Byte) : ∀ script : Script,
    script.consume (data ++ rest) =
      match script.consume data with
      | (script, cs, some code) => (script, cs, some code)
      | (script, cs, none) =>
        ((script.consume rest).1, cs ++ (script.consume rest).2.1, (script.consume rest).2.2) := by
  induction data with
  | nil => intro script; simp [consume]
  | cons ch data ih =>
    intro script
    cases script with
    | nil => rfl
    | cons a script =>
      obtain ⟨b, cs⟩ := a
      rw [List.cons_append, consume, consume]
      split_ifs with hb
      · rw [ih script]
        rcases Script.consume script data with ⟨script', cs', _ | code⟩
        · simp only [List.append_assoc]
        · rfl
      · rfl

theorem Script.run_eq (E : Script) (isFinal : Bool) (chunks : List (List Byte)) :
    ∀ script : Script, E.expat.run script chunks isFinal = (script.consume chunks.flatten).2 := by
  induction chunks with
  | nil => exact fun script => by cases script <;> rfl
  | cons data chunks ih =>
    intro script
    cases chunks with
    | nil =>
      rw [List.flatten_cons, List.flatten_nil, List.append_nil]
      rfl
    | cons data' chunks =>
      rw [List.flatten_cons, consume_append]
      rcases hc : Script.consume script data with ⟨script', cs, _ | code⟩
      · have hrun := Expat.run_of_ok (E := E.expat) hc data' chunks isFinal
        rw [hrun, ih script']
      · exact Expat.run_of_error (E := E.expat) hc data' chunks isFinal

theorem Script.splitsEvenly (script : Script) : script.expat.SplitsEvenly := by
  intro chunks chunks' isFinal _ _ heq
  have h := run_eq script isFinal chunks script
  have h' := run_eq script isFinal chunks' script
  rw [heq] at h
  have : script.expat.run script.expat.init chunks isFinal =
      script.expat.run script.expat.init chunks' isFinal := h.trans h'.symm
  rw [this]
  exact ⟨rfl, rfl⟩

/-- The document `<a><b/></a>`. -/
def sampleScript : Script :=
  [(0x3C, []), (0x61, []), (0x3E, [.startElement [0x61] []]), (0x3C, []), (0x62, []), (0x2F, []),
    (0x3E, [.startElement [0x62] [], .endElement [0x62]]), (0x3C, []), (0x2F, []), (0x61, []),
    (0x3E, [.endElement [0x61]])]

theorem chunking_sample : Unchunked sampleScript.expat :=
  chunking sampleScript.expat sampleScript.splitsEvenly

example : delivered sampleScript.expat [textBytes "<a><b", textBytes "/></a>"] true =
    [.startStream (.new ⟨[], [0x61]⟩), .stanza (.new ⟨[], [0x62]⟩), .endStream] := by
  decide

end Jingle.Xmpp
