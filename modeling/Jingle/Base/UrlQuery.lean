/-
The query of a URL.

`get_attribute` looks for the name as a part of the query, and takes the value behind the
place that it finds if an equal sign follows there.  The place may lie in another name or in a
value, and then neither a pair of the name further behind is found nor its absence.

* **`getAttribute_eq_lookup_iff`** — when the attribute of a query is that of the first pair of
  the name.
-/
import Jingle.Base.Url

namespace Jingle.Base.Http

/-! ### A part of a text -/

/-- `text.find(name)`. -/
def find (name : Text) : Text → Option ℕ
  | [] => if name = [] then some 0 else none
  | b :: text => if name.isPrefixOf (b :: text) then some 0 else (find name text).map (· + 1)

/-- The first place of a name in a text, and what follows it. -/
def FirstPlace (name text before behind : Text) : Prop :=
  text = before ++ (name ++ behind) ∧
    ∀ p r, text = p ++ (name ++ r) → before.length ≤ p.length

variable {name text before behind : Text}

theorem find_eq_some {i : ℕ} (h : find name text = some i) :
    ∃ before behind, FirstPlace name text before behind ∧ before.length = i := by
  induction text generalizing i with
  | nil =>
    rw [find] at h
    split_ifs at h with hname
    obtain rfl := Option.some.inj h
    exact ⟨[], [], ⟨by rw [hname]; rfl, fun p r _ => Nat.zero_le _⟩, rfl⟩
  | cons b text ih =>
    rw [find] at h
    split_ifs at h with hhere
    · obtain rfl := Option.some.inj h
      obtain ⟨behind, heq⟩ := List.isPrefixOf_iff_prefix.1 hhere
      exact ⟨[], behind, ⟨heq.symm, fun p r _ => Nat.zero_le _⟩, rfl⟩
    · obtain ⟨j, hj, rfl⟩ := Option.map_eq_some_iff.1 h
      obtain ⟨before, behind, ⟨htext, hfirst⟩, rfl⟩ := ih hj
      refine ⟨b :: before, behind, ⟨by rw [htext]; rfl, fun p r heq => ?_⟩, rfl⟩
      rcases p with _ | ⟨c, p⟩
      · exact absurd (List.isPrefixOf_iff_prefix.2 ⟨r, heq.symm⟩) hhere
      · exact Nat.succ_le_succ (hfirst p r (List.cons.inj heq).2)

theorem find_eq_none (h : find name text = none) (p r : Text) : text ≠ p ++ (name ++ r) := by
  induction text generalizing p with
  | nil =>
    rintro heq
    have hnil := (List.append_eq_nil_iff.1 (List.append_eq_nil_iff.1 heq.symm).2).1
    rw [find, if_pos hnil] at h
    cases h
  | cons b text ih =>
    rw [find] at h
    split_ifs at h with hhere
    rintro heq
    rcases p with _ | ⟨c, p⟩
    · exact hhere (List.isPrefixOf_iff_prefix.2 ⟨r, heq.symm⟩)
    · exact ih (Option.map_eq_none_iff.1 h) p (List.cons.inj heq).2

theorem FirstPlace.unique (h : FirstPlace name text before behind) {before' behind' : Text}
    (h' : FirstPlace name text before' behind') : before = before' ∧ behind = behind' := by
  have hlen : before.length = before'.length := le_antisymm (h.2 _ _ h'.1) (h'.2 _ _ h.1)
  obtain ⟨hbefore, hrest⟩ := List.append_inj (h.1.symm.trans h'.1) hlen
  exact ⟨hbefore, List.append_cancel_left hrest⟩

/-! ### `get_attribute` -/

def Url.getAttribute (u : Url) (name : Text) : Option Text :=
  if u.query = [] then none
  else (find name (u.query.drop 1)).bind fun i =>
    let pos := i + 1 + name.length + 1
    if u.query.length < pos ∨ u.query[pos - 1]? ≠ some 61#8 then none
    else some ((u.query.drop pos).takeWhile (· ≠ 38#8))

theorem Url.getAttribute_eq {u : Url} {b : Byte} (hquery : u.query = b :: text)
    (h : FirstPlace name text before behind) :
    u.getAttribute name =
      if behind.head? = some 61#8 then some (behind.tail.takeWhile (· ≠ 38#8)) else none := by
  have hfind : find name text = some before.length := by
    rcases hfind : find name text with _ | i
    · exact absurd h.1 (find_eq_none hfind _ _)
    · obtain ⟨before', behind', h', rfl⟩ := find_eq_some hfind
      rw [(h.unique h').1]
  have hdrop : u.query.drop (before.length + 1 + name.length) = behind := by
    have hcomm : before.length + 1 + name.length = before.length + name.length + 1 := by omega
    rw [hquery, h.1, hcomm, List.drop_succ_cons, ← List.drop_drop, List.drop_left, List.drop_left]
  have hget : u.query[before.length + 1 + name.length]? = behind.head? := by
    rw [← hdrop, List.head?_drop]
  have htail : u.query.drop (before.length + 1 + name.length + 1) = behind.tail := by
    rw [← List.drop_drop, hdrop, List.drop_one]
  have hlen := congrArg List.length hdrop
  rw [List.length_drop] at hlen
  rw [getAttribute, if_neg (by rw [hquery]; exact List.cons_ne_nil _ _), hquery, List.drop_one,
    List.tail_cons, hfind, Option.bind_some, ← hquery]
  dsimp only
  rw [Nat.add_sub_cancel, hget, htail]
  rcases behind with _ | ⟨c, behind⟩
  · simp
  · rw [List.length_cons] at hlen
    by_cases hc : c = 61#8
    · rw [if_neg (by simp [hc]; omega), if_pos (by rw [hc]; rfl)]
    · rw [if_pos (.inr (by simpa using hc)), if_neg (by simpa using hc)]

theorem Url.getAttribute_eq_none {u : Url} {b : Byte} (hquery : u.query = b :: text)
    (h : ∀ p r, text ≠ p ++ (name ++ r)) : u.getAttribute name = none := by
  rcases hfind : find name text with _ | i
  · rw [getAttribute, if_neg (by rw [hquery]; exact List.cons_ne_nil _ _), hquery, List.drop_one,
      List.tail_cons, hfind, Option.bind_none]
  · obtain ⟨before, behind, hplace, -⟩ := find_eq_some hfind
    exact absurd hplace.1 (h _ _)

theorem Url.getAttribute_eq_some_iff {u : Url} {b : Byte} (hquery : u.query = b :: text)
    {value : Text} : u.getAttribute name = some value ↔
      ∃ before behind, FirstPlace name text before (61#8 :: behind) ∧
        behind.takeWhile (· ≠ 38#8) = value := by
  constructor
  · intro h
    rcases hfind : find name text with _ | i
    · rw [getAttribute_eq_none hquery (find_eq_none hfind)] at h
      cases h
    · obtain ⟨before, behind, hplace, -⟩ := find_eq_some hfind
      rw [getAttribute_eq hquery hplace] at h
      split_ifs at h with hequal
      rcases behind with _ | ⟨c, behind⟩
      · cases hequal
      · obtain rfl := Option.some.inj hequal
        exact ⟨before, behind, hplace, Option.some.inj h⟩
  · rintro ⟨before, behind, hplace, rfl⟩
    rw [getAttribute_eq hquery hplace, if_pos (List.head?_cons ..), List.tail_cons]

/-! ### Queries of pairs -/

/-- A pair of a query. -/
structure QueryPair where
  name : Text
  value : Text
  name_plain : 61#8 ∉ name ∧ 38#8 ∉ name
  value_plain : 38#8 ∉ value

def QueryPair.toText (p : QueryPair) : Text := p.name ++ 61#8 :: p.value

/-- The pairs with their separators. -/
def pairsText : List QueryPair → Text
  | [] => []
  | [p] => p.toText
  | p :: q :: rest => p.toText ++ 38#8 :: pairsText (q :: rest)

/-- `?n1=v1&n2=v2&...`. -/
def queryText (pairs : List QueryPair) : Text := 63#8 :: pairsText pairs

/-- The value of the first pair of a name. -/
def lookup (pairs : List QueryPair) (name : Text) : Option Text :=
  (pairs.find? fun p => p.name = name).map (·.value)

/-- The text in front of a pair. -/
def front (pairs : List QueryPair) : Text := pairs.flatMap fun p => p.toText ++ [38#8]

theorem pairsText_append (pairs after : List QueryPair) (p : QueryPair) :
    ∃ rest, (rest = [] ∨ rest.head? = some 38#8) ∧
      pairsText (pairs ++ p :: after) = front pairs ++ (p.name ++ 61#8 :: (p.value ++ rest)) := by
  induction pairs with
  | nil =>
    rcases after with _ | ⟨q, after⟩
    · exact ⟨[], .inl rfl, by simp [pairsText, front, QueryPair.toText]⟩
    · exact ⟨38#8 :: pairsText (q :: after), .inr rfl, by simp [pairsText, front, QueryPair.toText]⟩
  | cons q pairs ih =>
    obtain ⟨rest, hrest, heq⟩ := ih
    refine ⟨rest, hrest, ?_⟩
    obtain ⟨r, tail, htail⟩ := List.exists_cons_of_ne_nil
      (List.append_ne_nil_of_right_ne_nil pairs (List.cons_ne_nil p after))
    rw [List.cons_append, htail, pairsText, ← htail, heq]
    simp [front]

theorem takeWhile_value (p : QueryPair) {rest : Text}
    (h : rest = [] ∨ rest.head? = some 38#8) :
    (p.value ++ rest).takeWhile (· ≠ 38#8) = p.value := by
  refine Numeral.takeWhile_append_stop (fun b hb => ?_) fun b hb => ?_
  · exact decide_eq_true (ne_of_mem_of_not_mem hb p.value_plain)
  · obtain rfl | h := h
    · cases hb
    · obtain rfl := Option.some.inj (h.symm.trans hb)
      rfl

/-- When the first place of a name is the right one: it is the place of the first pair of the
name, or another one that has the same value behind it; where no pair has the name, no equal
sign follows. -/
def Unmistaken (pairs : List QueryPair) (name : Text) : Prop :=
  (∃ before p after, pairs = before ++ p :: after ∧ p.name = name ∧
    (∀ q ∈ before, q.name ≠ name) ∧
    ((∃ behind, FirstPlace name (pairsText pairs) (front before) behind) ∨
      ∃ place behind, FirstPlace name (pairsText pairs) place (61#8 :: behind) ∧
        behind.takeWhile (· ≠ 38#8) = p.value)) ∨
  (∀ q ∈ pairs, q.name ≠ name) ∧
    ∀ place behind, ¬FirstPlace name (pairsText pairs) place (61#8 :: behind)

theorem lookup_eq_some {pairs : List QueryPair} {value : Text} :
    lookup pairs name = some value ↔ ∃ before p after, pairs = before ++ p :: after ∧
      p.name = name ∧ (∀ q ∈ before, q.name ≠ name) ∧ p.value = value := by
  rw [lookup, Option.map_eq_some_iff]
  constructor
  · rintro ⟨p, hp, rfl⟩
    obtain ⟨hname, before, after, rfl, hbefore⟩ := List.find?_eq_some_iff_append.1 hp
    exact ⟨before, p, after, rfl, by simpa using hname, by simpa using hbefore, rfl⟩
  · rintro ⟨before, p, after, rfl, hname, hbefore, rfl⟩
    refine ⟨p, List.find?_eq_some_iff_append.2 ⟨?_, before, after, rfl, ?_⟩, rfl⟩
    · simpa using hname
    · simpa using hbefore

theorem lookup_eq_none {pairs : List QueryPair} :
    lookup pairs name = none ↔ ∀ q ∈ pairs, q.name ≠ name := by
  rw [lookup, Option.map_eq_none_iff, List.find?_eq_none]
  simp

/-! ### Names that stand nowhere else -/

theorem occurs_append_cons {c : Byte} (hc : c ∉ name) {s t p r : Text}
    (h : s ++ c :: t = p ++ (name ++ r)) :
    (∃ r', s = p ++ (name ++ r')) ∨ ∃ q, p = s ++ c :: q ∧ t = q ++ (name ++ r) := by
  obtain ⟨a, rfl, ha⟩ | ⟨a, rfl, ha⟩ := List.append_eq_append_iff.1 h
  · rcases a with _ | ⟨b, a⟩
    · rcases name with _ | ⟨b, name⟩
      · exact .inl ⟨[], by simp⟩
      · exact absurd (List.mem_cons.2 (.inl (List.cons.inj ha).1)) hc
    · obtain ⟨rfl, ht⟩ := List.cons.inj ha
      exact .inr ⟨a, rfl, ht⟩
  · obtain ⟨a', rfl, -⟩ | ⟨a', rfl, ha'⟩ := List.append_eq_append_iff.1 ha
    · exact .inl ⟨a', rfl⟩
    · rcases a' with _ | ⟨b, a'⟩
      · exact .inl ⟨[], by simp⟩
      · exact absurd (List.mem_append_right a (List.mem_cons.2 (.inl (List.cons.inj ha').1))) hc

/-- A name that is no part of another name or of a value. -/
structure StandsAlone (pairs : List QueryPair) (name : Text) : Prop where
  ne_nil : name ≠ []
  plain : 61#8 ∉ name ∧ 38#8 ∉ name
  names : ∀ p ∈ pairs, p.name ≠ name → ¬name <:+: p.name
  values : ∀ p ∈ pairs, ¬name <:+: p.value

variable {pairs : List QueryPair}

theorem StandsAlone.occurs_toText (h : StandsAlone pairs name) {p : QueryPair} (hp : p ∈ pairs)
    {q r : Text} (heq : p.toText = q ++ (name ++ r)) : p.name = name ∧ q = [] := by
  obtain ⟨r', hname⟩ | ⟨q', -, hvalue⟩ := occurs_append_cons h.plain.1 heq
  · have hsame : p.name = name := by
      by_contra hne
      exact h.names p hp hne ⟨q, r', by rw [hname, List.append_assoc]⟩
    have hlen := congrArg List.length hname
    rw [hsame, List.length_append, List.length_append] at hlen
    exact ⟨hsame, List.length_eq_zero_iff.1 (by omega)⟩
  · exact absurd ⟨q', r, by rw [hvalue, List.append_assoc]⟩ (h.values p hp)

theorem StandsAlone.occurs (h : StandsAlone pairs name) {q r : Text}
    (heq : pairsText pairs = q ++ (name ++ r)) :
    ∃ before p after, pairs = before ++ p :: after ∧ p.name = name ∧ q = front before := by
  induction pairs generalizing q with
  | nil =>
    have hnil := (List.append_eq_nil_iff.1 (List.append_eq_nil_iff.1 heq.symm).2).1
    exact absurd hnil h.ne_nil
  | cons p pairs ih =>
    rcases pairs with _ | ⟨p', pairs⟩
    · obtain ⟨hname, rfl⟩ := h.occurs_toText List.mem_cons_self heq
      exact ⟨[], p, [], rfl, hname, rfl⟩
    · obtain ⟨r', hfirst⟩ | ⟨q', rfl, hrest⟩ := occurs_append_cons h.plain.2 heq
      · obtain ⟨hname, rfl⟩ := h.occurs_toText List.mem_cons_self hfirst
        exact ⟨[], p, _, rfl, hname, rfl⟩
      · have htail : StandsAlone (p' :: pairs) name :=
          ⟨h.ne_nil, h.plain, fun x hx => h.names x (List.mem_cons_of_mem p hx),
            fun x hx => h.values x (List.mem_cons_of_mem p hx)⟩
        obtain ⟨before, x, after, hpairs, hname, rfl⟩ := ih htail hrest
        exact ⟨p :: before, x, after, by rw [hpairs]; rfl, hname, by simp [front]⟩

theorem StandsAlone.unmistaken (h : StandsAlone pairs name) : Unmistaken pairs name := by
  rcases hlookup : lookup pairs name with _ | value
  · have hnone := lookup_eq_none.1 hlookup
    refine .inr ⟨hnone, fun place behind hplace => ?_⟩
    obtain ⟨before, p, after, rfl, hname, -⟩ := h.occurs hplace.1
    exact hnone p (by simp) hname
  · obtain ⟨before, p, after, rfl, hname, hbefore, -⟩ := lookup_eq_some.1 hlookup
    obtain ⟨rest, -, htext⟩ := pairsText_append before after p
    refine .inl ⟨before, p, after, rfl, hname, hbefore, .inl ⟨61#8 :: (p.value ++ rest), ?_, ?_⟩⟩
    · rw [htext, hname]
    · intro q r heq
      obtain ⟨before', p', after', hpairs, hname', rfl⟩ := h.occurs heq
      obtain ⟨a, rfl, -⟩ | ⟨a, rfl, ha⟩ := List.append_eq_append_iff.1 hpairs
      · rw [front, front, List.flatMap_append, List.length_append]
        exact Nat.le_add_right _ _
      · rcases a with _ | ⟨x, a⟩
        · rw [List.append_nil]
        · obtain ⟨rfl, -⟩ := List.cons.inj ha
          exact absurd hname' (hbefore p' (by simp))

/-! ### The attribute -/

/-- **The attribute is that of the first pair of the name exactly when the first place of the
name is not mistaken**, as a name that stands alone never is. -/
theorem getAttribute_eq_lookup_iff (u : Url) (pairs : List QueryPair) (name : Text)
    (hquery : u.query = queryText pairs) :
    (u.getAttribute name = lookup pairs name ↔ Unmistaken pairs name) ∧
      (StandsAlone pairs name → Unmistaken pairs name) := by
  refine ⟨?_, StandsAlone.unmistaken⟩
  have hsome : ∀ value, u.getAttribute name = some value ↔ ∃ place behind,
      FirstPlace name (pairsText pairs) place (61#8 :: behind) ∧
        behind.takeWhile (· ≠ 38#8) = value := fun value => Url.getAttribute_eq_some_iff hquery
  constructor
  · intro heq
    rcases hlookup : lookup pairs name with _ | value
    · rw [hlookup] at heq
      refine .inr ⟨lookup_eq_none.1 hlookup, fun place behind hplace => ?_⟩
      rw [(hsome _).2 ⟨place, behind, hplace, rfl⟩] at heq
      cases heq
    · obtain ⟨before, p, after, hpairs, hname, hbefore, rfl⟩ := lookup_eq_some.1 hlookup
      obtain ⟨place, behind, hplace, hvalue⟩ := (hsome _).1 (heq.trans hlookup)
      exact .inl ⟨before, p, after, hpairs, hname, hbefore, .inr ⟨place, behind, hplace, hvalue⟩⟩
  · rintro (⟨before, p, after, rfl, hname, hbefore, hplace⟩ | ⟨hnone, hplace⟩)
    · rw [lookup_eq_some.2 ⟨before, p, after, rfl, hname, hbefore, rfl⟩, hsome]
      obtain ⟨behind, hplace⟩ | hplace := hplace
      · -- the value of the pair stands behind its own place
        obtain ⟨rest, hrest, htext⟩ := pairsText_append before after p
        have hbehind : behind = 61#8 :: (p.value ++ rest) := by
          have heq := hplace.1.symm.trans htext
          rw [hname] at heq
          exact List.append_cancel_left (List.append_cancel_left heq)
        exact ⟨front before, p.value ++ rest, hbehind ▸ hplace, takeWhile_value p hrest⟩
      · exact hplace
    · rw [lookup_eq_none.2 hnone, Option.eq_none_iff_forall_ne_some]
      intro value hvalue
      obtain ⟨place, behind, h, -⟩ := (hsome value).1 hvalue
      exact hplace place behind h

/-- A query of two pairs. -/
theorem getAttribute_eq_lookup_iff_second : Unmistaken
    [⟨textBytes "a", textBytes "1", by decide, by decide⟩,
      ⟨textBytes "b", textBytes "2", by decide, by decide⟩] (textBytes "b") :=
  (getAttribute_eq_lookup_iff ⟨[], 80#16, false, textBytes "/", textBytes "?a=1&b=2"⟩ _ _ rfl).1.1
    (by decide)

/-- `b` in `?ab=1&b=2`: the value of `ab` is taken. -/
theorem not_getAttribute_eq_lookup : ¬∀ (u : Url) (pairs : List QueryPair) (name : Text),
    u.query = queryText pairs → u.getAttribute name = lookup pairs name := by
  intro h
  have heq := h ⟨[], 80#16, false, textBytes "/", textBytes "?ab=1&b=2"⟩
    [⟨textBytes "ab", textBytes "1", by decide, by decide⟩,
      ⟨textBytes "b", textBytes "2", by decide, by decide⟩] (textBytes "b") rfl
  exact absurd heq (by decide)

end Jingle.Base.Http
