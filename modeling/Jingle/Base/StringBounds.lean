/-
The buffers of the string transforms.

Ten of the transforms ask for one byte more than they store.  `utf8_encode` is content when a
character just fits, and `xml_decode` then has no room for its terminator.

* `bounded_iff` — **every transform stays inside of its buffer**, but for the two decoders,
  which do so unless a character of several bytes ends where the buffer ends;
* `not_bounded` — `&#128;` in a buffer of two bytes.
-/
import Jingle.Base.StringEncode

namespace Jingle.Base.StringEncode

open Numeral Buffer

/-! ### The transforms that ask for more than they store -/

theorem escape_bounded {buflen : ℕ} (source illegal : List Byte) (esc : Byte) (h : 0 < buflen) :
    Bounded 0#8 buflen (escape buflen source illegal esc) := by
  refine bounded_fill (fun bufpos src bs rest hlt hrun => ?_) source h
  rcases src with _ | ⟨ch, src⟩
  · cases hrun
  · rw [escapeBody] at hrun
    split_ifs at hrun with hesc hroom
    · cases hrun
      rw [List.length_cons, List.length_singleton]
      omega
    · cases hrun
      exact hlt

theorem unescape_bounded {buflen : ℕ} (source : List Byte) (esc : Byte) (h : 0 < buflen) :
    Bounded 0#8 buflen (unescape buflen source esc) := by
  refine bounded_fill (fun bufpos src bs rest hlt hrun => ?_) source h
  rcases src with _ | ⟨ch, _ | ⟨next, src⟩⟩
  · cases hrun
  · cases hrun
    exact hlt
  · rw [unescapeBody] at hrun
    split_ifs at hrun
    · cases hrun
      exact hlt
    · cases hrun
      exact hlt

theorem encode_bounded {buflen : ℕ} (source illegal : List Byte) (esc : Byte) (h : 0 < buflen) :
    Bounded 0#8 buflen (encode buflen source illegal esc) := by
  refine bounded_fill (fun bufpos src bs rest hlt hrun => ?_) source h
  rcases src with _ | ⟨ch, src⟩
  · cases hrun
  · rw [encodeBody] at hrun
    split_ifs at hrun with hplain hroom
    · cases hrun
      exact hlt
    · cases hrun
      show bufpos + 3 < buflen
      omega

theorem decode_bounded {buflen : ℕ} (source : List Byte) (esc : Byte) (h : 0 < buflen) :
    Bounded 0#8 buflen (decode buflen source esc) := by
  refine bounded_fill (fun bufpos src bs rest hlt hrun => ?_) source h
  rcases src with _ | ⟨ch, src⟩
  · cases hrun
  · rw [decodeBody] at hrun
    rcases hesc : escaped esc ch src with _ | ⟨b, left⟩
    · rw [hesc] at hrun
      cases hrun
      exact hlt
    · rw [hesc] at hrun
      cases hrun
      exact hlt

theorem url_encode_bounded {buflen : ℕ} (source : List Byte) (h : 0 < buflen) :
    Bounded 0#8 buflen (url_encode buflen source) := by
  refine bounded_fill (fun bufpos src bs rest hlt hrun => ?_) source h
  rcases src with _ | ⟨ch, src⟩
  · cases hrun
  · rw [urlEncodeBody] at hrun
    split_ifs at hrun with hunsafe hroom
    · cases hrun
      show bufpos + 3 < buflen
      omega
    · cases hrun
      exact hlt

theorem url_decode_bounded {buflen : ℕ} (source : List Byte) (h : 0 < buflen) :
    Bounded 0#8 buflen (url_decode buflen source) := by
  refine bounded_fill (fun bufpos src bs rest hlt hrun => ?_) source h
  rcases src with _ | ⟨ch, src⟩
  · cases hrun
  · rw [urlDecodeBody] at hrun
    split_ifs at hrun
    · cases hrun
      exact hlt
    · rcases hesc : escaped 37#8 ch src with _ | ⟨b, left⟩
      · rw [hesc] at hrun
        cases hrun
        exact hlt
      · rw [hesc] at hrun
        cases hrun
        exact hlt

theorem html_encode_bounded {buflen : ℕ} (source : List Byte) (h : 0 < buflen) :
    Bounded 0#8 buflen (html_encode buflen source) := by
  refine bounded_fill (fun bufpos src bs rest hlt hrun => ?_) source h
  rcases src with _ | ⟨ch, src⟩
  · cases hrun
  · rw [htmlEncodeBody] at hrun
    dsimp only at hrun
    split_ifs at hrun with hascii hunsafe hroom hroom
    · cases hrun
      exact not_le.1 hroom
    · cases hrun
      exact hlt
    · cases hrun
      exact not_le.1 hroom

theorem xml_encode_bounded {buflen : ℕ} (source : List Byte) (h : 0 < buflen) :
    Bounded 0#8 buflen (xml_encode buflen source) := by
  refine bounded_fill (fun bufpos src bs rest hlt hrun => ?_) source h
  rcases src with _ | ⟨ch, src⟩
  · cases hrun
  · rw [xmlEncodeBody] at hrun
    dsimp only at hrun
    split_ifs at hrun with hunsafe hroom
    · cases hrun
      exact not_le.1 hroom
    · cases hrun
      exact hlt

theorem hex_decode_bounded {buflen : ℕ} (source : List Byte) (h : 0 < buflen) :
    Bounded 0#8 buflen (hex_decode buflen source) := by
  refine bounded_fill (fun bufpos src bs rest hlt hrun => ?_) source h
  rcases src with _ | ⟨c₁, _ | ⟨c₂, src⟩⟩
  · cases hrun
  · cases hrun
  · rw [hexDecodeBody] at hrun
    obtain ⟨b, -, heq⟩ := Option.map_eq_some_iff.1 hrun
    cases heq
    exact hlt

theorem hex_encode_eq {buflen : ℕ} (source : List Byte) (h : 0 < buflen) :
    hex_encode buflen source =
      (ofList ((source.take ((buflen - 1) / 2)).flatMap hexPair)).terminate 0#8 := by
  have hfold : ∀ (xs as : List Byte), xs.foldl (fun o ch => o.puts (hexPair ch)) (ofList as) =
      ofList (as ++ xs.flatMap hexPair) := by
    intro xs
    induction xs with
    | nil => intro as; rw [List.foldl_nil, List.flatMap_nil, List.append_nil]
    | cons ch xs ih =>
      intro as
      rw [List.foldl_cons, puts_ofList, ih, List.flatMap_cons, List.append_assoc]
  rw [hex_encode, if_neg h.ne', start_eq, hfold, List.nil_append]
  congr 3
  rw [List.take_eq_take_iff]
  omega

theorem length_flatMap_hexPair (xs : List Byte) : (xs.flatMap hexPair).length = 2 * xs.length := by
  rw [List.length_flatMap, show (fun ch => (hexPair ch).length) = fun _ => 2 from rfl,
    List.map_const', List.sum_replicate, smul_eq_mul, mul_comm]

theorem hex_encode_bounded {buflen : ℕ} (source : List Byte) (h : 0 < buflen) :
    Bounded 0#8 buflen (hex_encode buflen source) := by
  rw [hex_encode_eq source h]
  refine bounded_terminate ?_
  rw [length_flatMap_hexPair, List.length_take]
  omega

/-! ### `xml_decode` -/

theorem utf8_encode_eq (buflen val : ℕ) : utf8_encode buflen val =
    if (utf8_encode 4 val).length ≤ buflen then utf8_encode 4 val else [] := by
  have hfull := utf8_encode.eq_def 4 val
  rw [utf8_encode]
  by_cases h₁ : val ≤ 0x7F
  · rw [if_pos ⟨h₁, by omega⟩] at hfull
    rw [hfull]
    by_cases hroom : 1 ≤ buflen
    · rw [if_pos ⟨h₁, hroom⟩]
      exact (if_pos hroom).symm
    · rw [if_neg (by omega), if_neg (by omega), if_neg (by omega), if_neg (by omega)]
      exact (if_neg hroom).symm
  rw [if_neg fun h => h₁ h.1] at hfull ⊢
  by_cases h₂ : val ≤ 0x7FF
  · rw [if_pos ⟨h₂, by omega⟩] at hfull
    rw [hfull]
    by_cases hroom : 2 ≤ buflen
    · rw [if_pos ⟨h₂, hroom⟩]
      exact (if_pos hroom).symm
    · rw [if_neg (by omega), if_neg (by omega), if_neg (by omega)]
      exact (if_neg hroom).symm
  rw [if_neg fun h => h₂ h.1] at hfull ⊢
  by_cases h₃ : val ≤ 0xFFFF
  · rw [if_pos ⟨h₃, by omega⟩] at hfull
    rw [hfull]
    by_cases hroom : 3 ≤ buflen
    · rw [if_pos ⟨h₃, hroom⟩]
      exact (if_pos hroom).symm
    · rw [if_neg (by omega), if_neg (by omega)]
      exact (if_neg hroom).symm
  rw [if_neg fun h => h₃ h.1] at hfull ⊢
  by_cases h₄ : val ≤ 0x1FFFFF
  · rw [if_pos ⟨h₄, le_rfl⟩] at hfull
    rw [hfull]
    by_cases hroom : 4 ≤ buflen
    · rw [if_pos ⟨h₄, hroom⟩]
      exact (if_pos hroom).symm
    · rw [if_neg (by omega)]
      exact (if_neg hroom).symm
  rw [if_neg fun h => h₄ h.1] at hfull ⊢
  rw [hfull, ite_self]

/-- The length of an item where there is room. -/
def XmlItem.size (item : XmlItem) : ℕ := (item.bytes 4).length

theorem XmlItem.bytes_eq (item : XmlItem) {room : ℕ} (h : 1 ≤ room) :
    item.bytes room = if item.size ≤ room then item.bytes 4 else [] := by
  rcases item with b | val
  · exact (if_pos h).symm
  · exact utf8_encode_eq room val

theorem xmlDecodeBody_eq {after src rest : List Byte} {item : XmlItem} {buflen bufpos : ℕ}
    (hitem : xmlItem after src = some (item, rest)) (hroom : bufpos < buflen) :
    xmlDecodeBody after buflen bufpos src =
      if item.bytes 4 ≠ [] ∧ item.size ≤ buflen - bufpos then some (item.bytes 4, rest)
      else none := by
  rw [xmlDecodeBody, hitem, Option.bind_some]
  dsimp only
  rw [item.bytes_eq (by omega)]
  by_cases hsize : item.size ≤ buflen - bufpos
  · rw [if_pos hsize]
    by_cases hnone : item.bytes 4 = []
    · rw [if_pos hnone, if_neg fun h => h.1 hnone]
    · rw [if_neg hnone, if_pos ⟨hnone, hsize⟩]
  · rw [if_neg hsize, if_pos rfl, if_neg fun h => hsize h.2]

/-- The items of a text up to the first one that is not valid. -/
def xmlItems (after : List Byte) : ℕ → List Byte → List XmlItem
  | 0, _ => []
  | fuel + 1, src =>
    match xmlItem after src with
    | none => []
    | some (item, rest) =>
      if item.bytes 4 = [] then [] else item :: xmlItems after fuel rest

/-- A character of several bytes ends where the buffer ends. -/
def EndsWithBuffer (buflen : ℕ) (items : List XmlItem) : Prop :=
  ∃ pre item post, items = pre ++ item :: post ∧ 2 ≤ item.size ∧
    (pre.map XmlItem.size).sum + item.size = buflen

theorem not_endsWithBuffer_nil (n : ℕ) : ¬EndsWithBuffer n [] := by
  rintro ⟨pre, item, post, hitems, -⟩
  simp at hitems

theorem endsWithBuffer_cons (n : ℕ) (item : XmlItem) (items : List XmlItem) :
    EndsWithBuffer n (item :: items) ↔
      2 ≤ item.size ∧ item.size = n ∨ item.size < n ∧ EndsWithBuffer (n - item.size) items := by
  constructor
  · rintro ⟨_ | ⟨first, pre⟩, last, post, hitems, hsize, hsum⟩
    · obtain ⟨rfl, -⟩ := List.cons.inj hitems
      exact .inl ⟨hsize, by simpa using hsum⟩
    · obtain ⟨rfl, rfl⟩ := List.cons.inj hitems
      rw [List.map_cons, List.sum_cons] at hsum
      exact .inr ⟨by omega, pre, last, post, rfl, hsize, by omega⟩
  · rintro (⟨hsize, hn⟩ | ⟨hlt, pre, last, post, rfl, hsize, hsum⟩)
    · exact ⟨[], item, items, rfl, hsize, by simpa using hn⟩
    · refine ⟨item :: pre, last, post, rfl, hsize, ?_⟩
      rw [List.map_cons, List.sum_cons]
      omega

theorem loop_of_full {body : ℕ → ℕ → List Byte → Option (List Byte × List Byte)} {buflen : ℕ}
    (fuel : ℕ) (src : List Byte) {o : Buffer Byte} (h : ¬o.bufpos + 1 < buflen) :
    loop body buflen fuel src o = o := by
  cases fuel with
  | zero => rfl
  | succ fuel => rw [loop, if_pos (.inr h)]

/-- **The loop lemma**: `as` has been stored, and the terminator fits behind the rest unless a
character fills the buffer. -/
theorem loop_xmlDecode (after : List Byte) {buflen : ℕ} (fuel : ℕ) (src as : List Byte)
    (has : as.length < buflen) :
    (loop (xmlDecodeBody after) buflen fuel src (ofList as)).bufpos < buflen ↔
      ¬EndsWithBuffer (buflen - as.length) (xmlItems after fuel src) := by
  induction fuel generalizing src as with
  | zero => exact iff_of_true has (not_endsWithBuffer_nil _)
  | succ fuel ih =>
    have hpos : (ofList as).bufpos = as.length := rfl
    by_cases hroom : as.length + 1 < buflen
    · rw [loop, xmlItems, hpos]
      rcases hitem : xmlItem after src with _ | ⟨item, rest⟩
      · -- the text ends here, or is not valid
        refine iff_of_true ?_ (not_endsWithBuffer_nil _)
        rw [xmlDecodeBody, hitem]
        split_ifs
        · exact has
        · exact has
      · have hsrc : ¬(src = [] ∨ ¬as.length + 1 < buflen) := by
          rw [not_or, not_not]
          refine ⟨?_, hroom⟩
          rintro rfl
          cases hitem
        have hlen : (as ++ item.bytes 4).length = as.length + item.size := List.length_append
        rw [if_neg hsrc, xmlDecodeBody_eq hitem has]
        dsimp only
        by_cases hnone : item.bytes 4 = []
        · rw [if_neg fun h => h.1 hnone, if_pos hnone]
          exact iff_of_true has (not_endsWithBuffer_nil _)
        · rw [if_neg hnone, endsWithBuffer_cons]
          obtain hlt | heq | hgt := Nat.lt_trichotomy item.size (buflen - as.length)
          · rw [if_pos ⟨hnone, hlt.le⟩]
            dsimp only
            rw [puts_ofList, ih rest _ (by omega), hlen, Nat.sub_add_eq]
            refine not_congr ⟨fun h => .inr ⟨hlt, h⟩, fun h => ?_⟩
            obtain ⟨-, heq⟩ | ⟨-, h⟩ := h
            · exact absurd heq hlt.ne
            · exact h
          · -- the character fills the buffer, and the loop ends
            rw [if_pos ⟨hnone, heq.le⟩]
            dsimp only
            rw [puts_ofList,
              loop_of_full _ _ (show ¬(as ++ item.bytes 4).length + 1 < buflen by omega)]
            refine iff_of_false (show ¬(as ++ item.bytes 4).length < buflen by omega) ?_
            rw [not_not]
            exact .inl ⟨by omega, heq⟩
          · rw [if_neg fun h => hgt.not_ge h.2]
            refine iff_of_true has ?_
            rintro (⟨-, heq⟩ | ⟨hlt, -⟩)
            · exact hgt.ne' heq
            · exact hgt.not_gt hlt
    · rw [loop_of_full _ _ (show ¬(ofList as).bufpos + 1 < buflen from hroom)]
      refine iff_of_true has ?_
      rintro ⟨pre, item, post, -, hsize, hsum⟩
      omega

theorem xml_decode_bounded_iff {buflen : ℕ} (source after : List Byte) (h : 0 < buflen) :
    Bounded 0#8 buflen (xml_decode buflen source after) ↔
      ¬EndsWithBuffer buflen (xmlItems after source.length source) :=
  (bounded_fill_iff h).trans (loop_xmlDecode after source.length source [] h)

/-! ### All of them -/

/-- The transforms with their parameters; the decoders of references have the memory behind
the source. -/
inductive Call
  | escape (illegal : List Byte) (esc : Byte)
  | unescape (esc : Byte)
  | encode (illegal : List Byte) (esc : Byte)
  | decode (esc : Byte)
  | url_encode | url_decode | html_encode
  | html_decode (after : List Byte)
  | xml_encode
  | xml_decode (after : List Byte)
  | hex_encode | hex_decode

def Call.run (buflen : ℕ) (source : List Byte) : Call → Buffer Byte
  | .escape illegal esc => StringEncode.escape buflen source illegal esc
  | .unescape esc => StringEncode.unescape buflen source esc
  | .encode illegal esc => StringEncode.encode buflen source illegal esc
  | .decode esc => StringEncode.decode buflen source esc
  | .url_encode => StringEncode.url_encode buflen source
  | .url_decode => StringEncode.url_decode buflen source
  | .html_encode => StringEncode.html_encode buflen source
  | .html_decode after => StringEncode.html_decode buflen source after
  | .xml_encode => StringEncode.xml_encode buflen source
  | .xml_decode after => StringEncode.xml_decode buflen source after
  | .hex_encode => StringEncode.hex_encode buflen source
  | .hex_decode => StringEncode.hex_decode buflen source

/-- The text of a decoder has no character of several bytes whose last byte is the last one
of the buffer. -/
def Call.Meets (buflen : ℕ) (source : List Byte) : Call → Prop
  | .html_decode after => ¬EndsWithBuffer buflen (xmlItems after source.length source)
  | .xml_decode after => ¬EndsWithBuffer buflen (xmlItems after source.length source)
  | _ => True

/-- **Every transform stays inside of its buffer**, returns less than its size and puts the
terminator there, if and only if no character of several bytes ends with the buffer. -/
theorem bounded_iff (call : Call) (source : List Byte) (buflen : ℕ) (h : 0 < buflen) :
    Bounded 0#8 buflen (call.run buflen source) ↔ call.Meets buflen source := by
  cases call with
  | escape illegal esc => exact iff_of_true (escape_bounded source illegal esc h) trivial
  | unescape esc => exact iff_of_true (unescape_bounded source esc h) trivial
  | encode illegal esc => exact iff_of_true (encode_bounded source illegal esc h) trivial
  | decode esc => exact iff_of_true (decode_bounded source esc h) trivial
  | url_encode => exact iff_of_true (url_encode_bounded source h) trivial
  | url_decode => exact iff_of_true (url_decode_bounded source h) trivial
  | html_encode => exact iff_of_true (html_encode_bounded source h) trivial
  | html_decode after => exact xml_decode_bounded_iff source after h
  | xml_encode => exact iff_of_true (xml_encode_bounded source h) trivial
  | xml_decode after => exact xml_decode_bounded_iff source after h
  | hex_encode => exact iff_of_true (hex_encode_bounded source h) trivial
  | hex_decode => exact iff_of_true (hex_decode_bounded source h) trivial

theorem bounded_iff_reference : Bounded 0#8 4 ((Call.xml_decode []).run 4 (textBytes "&#128;")) ↔
    (Call.xml_decode []).Meets 4 (textBytes "&#128;") :=
  bounded_iff (.xml_decode []) (textBytes "&#128;") 4 (by decide)

/-- `&#128;` takes both bytes of a buffer of two. -/
theorem not_bounded : ¬∀ (call : Call) (source : List Byte) (buflen : ℕ), 0 < buflen →
    Bounded 0#8 buflen (call.run buflen source) := by
  intro h
  have hlt := (h (.xml_decode []) (textBytes "&#128;") 2 (by decide)).length_lt
  exact absurd hlt (by decide)

end Jingle.Base.StringEncode
