/-
Namespace prefixes are sound.

`StackOp` are the calls that a reader or a printer makes on its stack of
declarations.  **`prefix_soundness`** is about every stack that they lead to: a
name that is formatted after `AddNewPrefix` is resolved as itself, an attribute
with a namespace has a prefix, `AddNewPrefix` changes the meaning of no prefix in
scope, its loop ends, and `PopFrame` restores what held before its `PushFrame`.

A name is split at its first colon.  So the first of these needs declared prefixes
and local parts without a colon, which `AddXmlns` does not check; with a prefix
`a:b` it fails (`not_resolved`).
-/
import Jingle.Xmllite.Prefixes
import Mathlib.Data.List.TakeWhile

namespace Jingle.Xmllite

open Signaling Xml

/-! ### Calls -/

/-- The calls on a stack of declarations. -/
inductive StackOp
  | pushFrame
  | popFrame
  | addXmlns (pre ns : Text)
  | addNewPrefix (ns : Text) (isAttr : Bool)
  deriving DecidableEq, Repr

/-- A call that declares no prefix with a colon. -/
def StackOp.Plain : StackOp → Prop
  | .addXmlns pre _ => 0x3A#8 ∉ pre
  | _ => True

instance : DecidablePred StackOp.Plain
  | .addXmlns _ _ => inferInstanceAs (Decidable (_ ∉ _))
  | .pushFrame => .isTrue trivial
  | .popFrame => .isTrue trivial
  | .addNewPrefix _ _ => .isTrue trivial

namespace XmlnsStack

variable {s : XmlnsStack}

/-- The stack after a call. -/
def act (s : XmlnsStack) : StackOp → XmlnsStack
  | .pushFrame => s.pushFrame
  | .popFrame => s.popFrame
  | .addXmlns pre ns => s.addXmlns pre ns
  | .addNewPrefix ns isAttr => (s.addNewPrefix ns isAttr).2

/-- The stack after some calls. -/
def acts (s : XmlnsStack) (ops : List StackOp) : XmlnsStack := ops.foldl act s

/-- How a reader with this stack resolves a name. -/
def resolve (s : XmlnsStack) (qname : Text) (isAttr : Bool) : QName :=
  ParseContext.resolveQName { xmlnsstack := s, raised := none } qname isAttr

/-! ### The new prefix -/

theorem candidate_succ (base : Text) (k : ℕ) :
    candidate base (k + 1) = base ++ Numeral.decimal (k + 2) := rfl

theorem freePrefix_eq (base : Text) {k : ℕ} (hfree : s.nsForPrefix (candidate base k) = none)
    (fuel : ℕ) : ∀ i, (∀ j, i ≤ j → j < k → s.nsForPrefix (candidate base j) ≠ none) → i ≤ k →
      k < i + fuel → s.freePrefix base fuel (i + 2) (candidate base i) = candidate base k := by
  induction fuel with
  | zero => exact fun i _ hle hlt => absurd hlt (by omega)
  | succ fuel ih =>
    intro i htaken hle hlt
    rw [freePrefix]
    obtain heq | hne := eq_or_ne i k
    · rw [heq, if_pos hfree]
    · rw [if_neg (htaken i le_rfl (by omega)), ← candidate_succ]
      exact ih (i + 1) (fun j hj => htaken j (by omega)) (by omega) (by omega)

/-- **The loop of `AddNewPrefix` ends**: the first prefix that stands for nothing comes before
there are more candidates than declarations. -/
theorem exists_first_free (s : XmlnsStack) (ns : Text) :
    ∃ k < s.xmlns.length + 2, s.nsForPrefix (candidate (suggestPrefix ns) k) = none ∧
      (∀ j < k, s.nsForPrefix (candidate (suggestPrefix ns) j) ≠ none) ∧
      ∀ fuel > k, s.freePrefix (suggestPrefix ns) fuel 2 (suggestPrefix ns) =
        candidate (suggestPrefix ns) k := by
  obtain ⟨j, hj, hfree⟩ := exists_free (s := s) (suggestPrefix_isBase ns)
  have hex : ∃ k, s.nsForPrefix (candidate (suggestPrefix ns) k) = none := ⟨j, hfree⟩
  have hmin : ∀ j < Nat.find hex, s.nsForPrefix (candidate (suggestPrefix ns) j) ≠ none :=
    fun j hj => Nat.find_min hex hj
  refine ⟨Nat.find hex, (Nat.find_le hfree).trans_lt hj, Nat.find_spec hex, hmin,
    fun fuel hfuel => ?_⟩
  exact freePrefix_eq _ (Nat.find_spec hex) fuel 0 (fun j _ hj => hmin j hj) (Nat.zero_le _)
    (by omega)

theorem addNewPrefix_spec (s : XmlnsStack) (ns : Text) (isAttr : Bool) :
    Covers (s.addNewPrefix ns isAttr).2 s ∧ (s.addNewPrefix ns isAttr).2.HasPrefix ns isAttr := by
  cases hp : s.prefixForNs ns isAttr with
  | some pre =>
    rw [addNewPrefix, hp]
    exact ⟨.refl s, hasPrefix_of_prefixForNs hp⟩
  | none =>
    obtain ⟨pre, hadd, hinv, hfree⟩ := addNewPrefix_some hp
    rw [hadd]
    refine ⟨.of_free hfree ns, .inr (.inr (.inr (.inr ⟨pre, List.mem_cons_self, fun _ => ?_, ?_⟩)))⟩
    · exact isNCName_ne_nil hinv.name
    · rw [nsForPrefix_addXmlns, if_pos ⟨hinv.notXml, rfl⟩]

/-! ### Declarations without colons -/

/-- No declared prefix has a colon. -/
def Plain (s : XmlnsStack) : Prop := ∀ d ∈ s.xmlns, 0x3A#8 ∉ d.1

theorem Plain.addXmlns (h : s.Plain) {pre : Text} (hpre : 0x3A#8 ∉ pre) (ns : Text) :
    (s.addXmlns pre ns).Plain := List.forall_mem_cons.2 ⟨hpre, h⟩

theorem Plain.addNewPrefix (h : s.Plain) (ns : Text) (isAttr : Bool) :
    (s.addNewPrefix ns isAttr).2.Plain := by
  cases hp : s.prefixForNs ns isAttr with
  | some pre =>
    rw [XmlnsStack.addNewPrefix, hp]
    exact h
  | none =>
    obtain ⟨pre, hadd, hinv, -⟩ := addNewPrefix_some hp
    rw [hadd]
    exact h.addXmlns (fun hcolon => ne_of_mem_isNCName hinv.name hcolon (by decide) (by decide) rfl) ns

theorem Plain.act (h : s.Plain) {op : StackOp} (hop : op.Plain) : (s.act op).Plain := by
  cases op with
  | pushFrame => exact h
  | popFrame =>
    show s.popFrame.Plain
    rw [popFrame]
    split
    · exact h
    · exact fun d hd => h d (List.mem_of_mem_drop hd)
  | addXmlns pre ns => exact h.addXmlns hop ns
  | addNewPrefix ns isAttr => exact h.addNewPrefix ns isAttr

theorem Plain.acts (h : s.Plain) {ops : List StackOp} (hops : ∀ op ∈ ops, op.Plain) :
    (s.acts ops).Plain := by
  induction ops generalizing s with
  | nil => exact h
  | cons op ops ih =>
    obtain ⟨hop, hrest⟩ := List.forall_mem_cons.1 hops
    exact ih (h.act hop) hrest

/-! ### Formatting and resolving -/

theorem formatQName_eq {name : QName} {isAttr : Bool} (hp : s.HasPrefix name.namespace_ isAttr) :
    (s.formatQName name isAttr = name.localPart ∧ (isAttr = true → name.namespace_ = []) ∧
        (isAttr = false → s.nsForPrefix [] = some name.namespace_)) ∨
      ∃ pre ≠ [], s.formatQName name isAttr = pre ++ 0x3A#8 :: name.localPart ∧
        s.nsForPrefix pre = some name.namespace_ ∧ (s.Plain → 0x3A#8 ∉ pre) := by
  cases hq : s.prefixForNs name.namespace_ isAttr with
  | none => exact absurd hp (prefixForNs_none hq)
  | some pre =>
    obtain ⟨rfl, ha, hd⟩ | ⟨hne, hpre, hcase⟩ := prefixForNs_some hq
    · exact .inl ⟨by rw [formatQName, hq]; rfl, ha, hd⟩
    · refine .inr ⟨pre, hne, ?_, hpre, fun hplain => ?_⟩
      · rw [formatQName, hq, Option.getD_some, if_neg hne, List.append_assoc]
        rfl
      · obtain ⟨rfl, -⟩ | ⟨rfl, -⟩ | ⟨-, -, hm⟩ := hcase
        · decide
        · decide
        · exact hplain _ hm

theorem takeWhile_append_colon {pre : Text} (h : 0x3A#8 ∉ pre) (rest : Text) :
    (pre ++ 0x3A#8 :: rest).takeWhile (· ≠ 0x3A#8) = pre := by
  rw [List.takeWhile_append_of_pos fun b hb => by simpa using ne_of_mem_of_not_mem hb h]
  simp

theorem takeWhile_eq_self {l : Text} (h : 0x3A#8 ∉ l) : l.takeWhile (· ≠ 0x3A#8) = l :=
  List.takeWhile_eq_self_iff.2 fun b hb => by simpa using ne_of_mem_of_not_mem hb h

theorem resolve_formatQName (hs : s.Plain) {name : QName} {isAttr : Bool}
    (hp : s.HasPrefix name.namespace_ isAttr) (hl : 0x3A#8 ∉ name.localPart) :
    s.resolve (s.formatQName name isAttr) isAttr = name := by
  rw [resolve, ParseContext.resolveQName]
  obtain ⟨hf, ha, hd⟩ | ⟨pre, -, hf, hns, hcolon⟩ := formatQName_eq hp
  · rw [hf, takeWhile_eq_self hl]
    dsimp only
    rw [if_neg (lt_irrefl _)]
    cases isAttr with
    | true => rw [if_pos rfl, ← ha rfl]
    | false => rw [if_neg Bool.false_ne_true, hd rfl]
  · rw [hf, takeWhile_append_colon (hcolon hs)]
    dsimp only
    rw [if_pos (by simp), hns]
    simp

/-! ### Frames -/

/-- Calls in which every `PopFrame` has its `PushFrame`. -/
inductive Balanced : List StackOp → Prop
  | nil : Balanced []
  | addXmlns (pre ns : Text) : Balanced [.addXmlns pre ns]
  | addNewPrefix (ns : Text) (isAttr : Bool) : Balanced [.addNewPrefix ns isAttr]
  | frame {ops : List StackOp} : Balanced ops → Balanced (.pushFrame :: ops ++ [.popFrame])
  | append {ops ops' : List StackOp} : Balanced ops → Balanced ops' → Balanced (ops ++ ops')

theorem acts_append (s : XmlnsStack) (ops ops' : List StackOp) :
    s.acts (ops ++ ops') = (s.acts ops).acts ops' := List.foldl_append

theorem popFrame_pushed (decls : List (Text × Text)) (s : XmlnsStack) :
    popFrame ⟨decls ++ s.xmlns, s.xmlns.length :: s.depths⟩ = s := by
  rw [popFrame]
  dsimp only
  rw [List.length_append, Nat.add_sub_cancel, List.drop_left]

theorem Balanced.acts {ops : List StackOp} (h : Balanced ops) (s : XmlnsStack) :
    ∃ decls, s.acts ops = ⟨decls ++ s.xmlns, s.depths⟩ := by
  induction h generalizing s with
  | nil => exact ⟨[], rfl⟩
  | addXmlns pre ns => exact ⟨[(pre, ns)], rfl⟩
  | addNewPrefix ns isAttr =>
    show ∃ decls, (s.addNewPrefix ns isAttr).2 = _
    rw [XmlnsStack.addNewPrefix]
    split
    · exact ⟨[], rfl⟩
    · exact ⟨[_], rfl⟩
  | frame _ ih =>
    obtain ⟨decls, hin⟩ := ih s.pushFrame
    refine ⟨[], ?_⟩
    rw [acts_append]
    show ((s.pushFrame).acts _).popFrame = s
    rw [hin]
    exact popFrame_pushed decls s
  | append _ _ ih ih' =>
    obtain ⟨decls, hfirst⟩ := ih s
    obtain ⟨decls', hsecond⟩ := ih' (s.acts _)
    refine ⟨decls' ++ decls, ?_⟩
    rw [acts_append, hsecond, hfirst, List.append_assoc]

theorem popFrame_acts {ops : List StackOp} (h : Balanced ops) (s : XmlnsStack) :
    (s.pushFrame.acts ops).popFrame = s := by
  obtain ⟨decls, hin⟩ := h.acts s.pushFrame
  rw [hin]
  exact popFrame_pushed decls s

/-! ### All stacks -/

/-- **Prefixes are sound** in every stack that calls lead to. -/
theorem prefix_soundness (ops : List StackOp) :
    ((∀ op ∈ ops, op.Plain) → ∀ (name : QName) (isAttr : Bool), name.namespace_ ≠ [] →
        0x3A#8 ∉ name.localPart →
        (((empty.acts ops).addNewPrefix name.namespace_ isAttr).2.resolve
          (((empty.acts ops).addNewPrefix name.namespace_ isAttr).2.formatQName name isAttr)
          isAttr) = name) ∧
      (∀ name : QName, name.namespace_ ≠ [] →
        ∃ pre ≠ [], ((empty.acts ops).addNewPrefix name.namespace_ true).2.formatQName name true =
            pre ++ 0x3A#8 :: name.localPart ∧
          ((empty.acts ops).addNewPrefix name.namespace_ true).2.nsForPrefix pre =
            some name.namespace_) ∧
      (∀ (ns : Text) (isAttr : Bool) (pre bound : Text),
        (empty.acts ops).nsForPrefix pre = some bound →
          ((empty.acts ops).addNewPrefix ns isAttr).2.nsForPrefix pre = some bound) ∧
      (∀ ns : Text, ∃ k < (empty.acts ops).xmlns.length + 2,
        (empty.acts ops).nsForPrefix (candidate (suggestPrefix ns) k) = none ∧
          (∀ j < k, (empty.acts ops).nsForPrefix (candidate (suggestPrefix ns) j) ≠ none) ∧
          ∀ fuel > k, (empty.acts ops).freePrefix (suggestPrefix ns) fuel 2 (suggestPrefix ns) =
            candidate (suggestPrefix ns) k) ∧
      ∀ inner, Balanced inner → ((empty.acts ops).pushFrame.acts inner).popFrame = empty.acts ops := by
  refine ⟨fun hops name isAttr _ hl => ?_, fun name hne => ?_, fun ns isAttr pre bound hpre => ?_,
    fun ns => exists_first_free _ ns, fun inner hinner => popFrame_acts hinner _⟩
  · have hplain : (empty.acts ops).Plain := Plain.acts (fun d hd => absurd hd List.not_mem_nil) hops
    exact resolve_formatQName (hplain.addNewPrefix _ _) (addNewPrefix_spec _ _ _).2 hl
  · obtain ⟨-, ha, -⟩ | ⟨pre, hpre, hf, hns, -⟩ :=
      formatQName_eq (addNewPrefix_spec (empty.acts ops) name.namespace_ true).2
    · exact absurd (ha rfl) hne
    · exact ⟨pre, hpre, hf, hns⟩
  · exact (addNewPrefix_spec _ ns isAttr).1.bound pre bound hpre

/-- The names of a stanza inside of a stack with two declarations. -/
theorem prefix_soundness_stanza :
    ((empty.acts [.addXmlns (textBytes "ses") (textBytes "sessions"), .pushFrame]).addNewPrefix
        (textBytes "urn:xmpp:jingle:1") true).2.resolve (textBytes "jin:action") true =
      ⟨textBytes "urn:xmpp:jingle:1", textBytes "action"⟩ :=
  (prefix_soundness [.addXmlns (textBytes "ses") (textBytes "sessions"), .pushFrame]).1
    (by decide) ⟨textBytes "urn:xmpp:jingle:1", textBytes "action"⟩ true
    (by decide) (by decide)

/-- A declared prefix with a colon is cut at the colon. -/
theorem not_resolved :
    ¬∀ (ops : List StackOp) (name : QName) (isAttr : Bool), name.namespace_ ≠ [] →
      (((empty.acts ops).addNewPrefix name.namespace_ isAttr).2.resolve
        (((empty.acts ops).addNewPrefix name.namespace_ isAttr).2.formatQName name isAttr)
        isAttr).namespace_ = name.namespace_ := by
  intro h
  have hcut := h [.addXmlns (textBytes "a:b") (textBytes "ns")] ⟨textBytes "ns", textBytes "l"⟩ true
    (by decide)
  exact absurd hcut (by decide)

end XmlnsStack

end Jingle.Xmllite
