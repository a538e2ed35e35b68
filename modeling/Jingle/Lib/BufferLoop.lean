/-
Loops that write what a text stands for into a buffer.

A `Buffer` is where the next value goes and what has been stored at every index.  The loop
`fill body buflen src` asks for room before every run of its body,
`while (srcpos < srclen && bufpos + 1 < buflen)`, and puts a terminator behind the last value.
One run of `body` takes a part of the text and says what is stored for it, or leaves the loop.

* `bounded_fill` — a body that leaves room for the terminator **stays inside of the buffer**.
* `Produces` — what a body makes of a text where there is room; `string_fill` is the contents
  of the buffer, and `string_fill_fill` **the round trip** of two loops.
* `places` — where the loop runs its body; `places_agree_iff` compares two bodies there.
-/
import Mathlib.Tactic

namespace Jingle

/-- A buffer: the index of the next value, and what has been stored. -/
structure Buffer (β : Type) where
  bufpos : ℕ
  cells : ℕ → Option β

namespace Buffer

variable {α β γ : Type} {o : Buffer β}

def start : Buffer β := ⟨0, fun _ => none⟩

/-- `buffer[bufpos++] = b`. -/
def put (o : Buffer β) (b : β) : Buffer β :=
  ⟨o.bufpos + 1, Function.update o.cells o.bufpos (some b)⟩

/-- Several values, one behind the other. -/
def puts (o : Buffer β) (bs : List β) : Buffer β := bs.foldl put o

/-- `buffer[bufpos] = zero`. -/
def terminate (o : Buffer β) (zero : β) : Buffer β :=
  { o with cells := Function.update o.cells o.bufpos (some zero) }

/-- What is stored in front of `bufpos`. -/
def string (o : Buffer β) : List β := (List.range o.bufpos).filterMap o.cells

/-- Every store was below `buflen`, the last one of `zero` at the length that is returned. -/
structure Bounded (zero : β) (buflen : ℕ) (o : Buffer β) : Prop where
  stores : ∀ i, (o.cells i).isSome → i < buflen
  terminated : o.cells o.bufpos = some zero
  length_lt : o.bufpos < buflen

/-- A buffer that was filled from its start on. -/
def ofList (bs : List β) : Buffer β := ⟨bs.length, fun i => bs[i]?⟩

theorem start_eq : (start : Buffer β) = ofList [] := by
  simp [start, ofList]

theorem put_ofList (bs : List β) (b : β) : (ofList bs).put b = ofList (bs ++ [b]) := by
  have hcells : Function.update (fun i => bs[i]?) bs.length (some b) =
      fun i => (bs ++ [b])[i]? := by
    funext i
    rw [Function.update_apply]
    obtain hlt | heq | hgt := Nat.lt_trichotomy i bs.length
    · rw [if_neg hlt.ne, List.getElem?_append_left hlt]
    · rw [if_pos heq, heq, List.getElem?_concat_length]
    · rw [if_neg hgt.ne', List.getElem?_eq_none hgt.le, List.getElem?_eq_none]
      rw [List.length_append, List.length_singleton]
      exact hgt
  rw [put, ofList, ofList, List.length_append, hcells]
  rfl

theorem puts_ofList (as bs : List β) : (ofList as).puts bs = ofList (as ++ bs) := by
  induction bs generalizing as with
  | nil => rw [List.append_nil, puts, List.foldl_nil]
  | cons b bs ih =>
    rw [puts, List.foldl_cons, put_ofList, ← puts, ih, List.append_assoc, List.singleton_append]

theorem cells_terminate (bs : List β) (zero : β) (i : ℕ) :
    ((ofList bs).terminate zero).cells i = (bs ++ [zero])[i]? :=
  congrFun (congrArg cells (put_ofList bs zero)) i

theorem filterMap_range_getElem? (bs : List β) :
    (List.range bs.length).filterMap (fun i => bs[i]?) = bs := by
  induction bs using List.reverseRecOn with
  | nil => rfl
  | append_singleton bs b ih =>
    have hfront : ∀ i ∈ List.range bs.length, (bs ++ [b])[i]? = bs[i]? := fun i hi =>
      List.getElem?_append_left (List.mem_range.1 hi)
    rw [List.length_append, List.length_singleton, List.range_succ, List.filterMap_append,
      List.filterMap_congr hfront, ih, List.filterMap_cons, List.getElem?_concat_length]
    rfl

theorem string_terminate (bs : List β) (zero : β) : ((ofList bs).terminate zero).string = bs := by
  have hcells : ∀ i ∈ List.range bs.length, ((ofList bs).terminate zero).cells i = bs[i]? := by
    intro i hi
    rw [cells_terminate, List.getElem?_append_left (List.mem_range.1 hi)]
  rw [string, show ((ofList bs).terminate zero).bufpos = bs.length from rfl,
    List.filterMap_congr hcells, filterMap_range_getElem?]

theorem bounded_terminate {bs : List β} {zero : β} {buflen : ℕ} (h : bs.length < buflen) :
    Bounded zero buflen ((ofList bs).terminate zero) where
  stores := by
    intro i hi
    rw [cells_terminate] at hi
    by_contra hge
    rw [List.getElem?_eq_none (by simp; omega)] at hi
    cases hi
  terminated := by
    rw [cells_terminate]
    exact List.getElem?_concat_length
  length_lt := h

/-! ### The loop -/

/-- `while ((srcpos < srclen) && (bufpos + 1 < buflen)) body`, for as many runs as `fuel`. -/
def loop (body : ℕ → ℕ → List α → Option (List β × List α)) (buflen : ℕ) :
    ℕ → List α → Buffer β → Buffer β
  | 0, _, o => o
  | fuel + 1, src, o =>
    if src = [] ∨ ¬o.bufpos + 1 < buflen then o
    else
      match body buflen o.bufpos src with
      | none => o
      | some (bs, rest) => loop body buflen fuel rest (o.puts bs)

/-- The loop, which ends when the text is used up, and the terminator.  Nothing at all is
stored in a buffer without room. -/
def fill (body : ℕ → ℕ → List α → Option (List β × List α)) (zero : β) (buflen : ℕ)
    (src : List α) : Buffer β :=
  if buflen = 0 then start else (loop body buflen src.length src start).terminate zero

section Rules

variable {body : ℕ → ℕ → List α → Option (List β × List α)} {buflen : ℕ} {zero : β}

theorem loop_ofList (fuel : ℕ) (src : List α) (as : List β) :
    ∃ bs, loop body buflen fuel src (ofList as) = ofList (as ++ bs) := by
  induction fuel generalizing src as with
  | zero => exact ⟨[], by rw [loop, List.append_nil]⟩
  | succ fuel ih =>
    rw [loop]
    split_ifs with hend
    · exact ⟨[], by rw [List.append_nil]⟩
    · rcases body buflen (ofList as).bufpos src with _ | ⟨bs, rest⟩
      · exact ⟨[], by rw [List.append_nil]⟩
      · obtain ⟨cs, hcs⟩ := ih rest (as ++ bs)
        refine ⟨bs ++ cs, ?_⟩
        dsimp only
        rw [puts_ofList, hcs, List.append_assoc]

theorem bounded_fill_iff {src : List α} (hbuflen : 0 < buflen) :
    Bounded zero buflen (fill body zero buflen src) ↔
      (loop body buflen src.length src (ofList [])).bufpos < buflen := by
  obtain ⟨bs, hbs⟩ : ∃ bs, loop body buflen src.length src (ofList []) = ofList ([] ++ bs) :=
    loop_ofList src.length src []
  rw [fill, if_neg hbuflen.ne', start_eq, hbs]
  exact ⟨Bounded.length_lt, bounded_terminate⟩

theorem bounded_fill
    (hbody : ∀ bufpos src bs rest, bufpos + 1 < buflen →
      body buflen bufpos src = some (bs, rest) → bufpos + bs.length < buflen)
    (src : List α) (hbuflen : 0 < buflen) : Bounded zero buflen (fill body zero buflen src) := by
  have hloop : ∀ fuel src (as : List β), as.length < buflen →
      (loop body buflen fuel src (ofList as)).bufpos < buflen := by
    intro fuel
    induction fuel with
    | zero => exact fun src as has => has
    | succ fuel ih =>
      intro src as has
      rw [loop]
      split_ifs with hend
      · exact has
      · rcases hrun : body buflen (ofList as).bufpos src with _ | ⟨bs, rest⟩
        · exact has
        · dsimp only
          rw [puts_ofList]
          refine ih rest _ ?_
          rw [List.length_append]
          exact hbody _ src bs rest (by rw [not_or, not_not] at hend; exact hend.2) hrun
  exact (bounded_fill_iff hbuflen).2 (hloop _ src [] hbuflen)

theorem loop_nil (fuel : ℕ) (o : Buffer β) : loop body buflen fuel [] o = o := by
  cases fuel with
  | zero => rfl
  | succ fuel => rw [loop, if_pos (.inl rfl)]

/-! ### Contents -/

/-- What the body makes of a text where the buffer has room for all of it. -/
inductive Produces (body : ℕ → ℕ → List α → Option (List β × List α)) : List α → List β → Prop
  | nil : Produces body [] []
  | step {src rest : List α} {bs out : List β}
    (run : ∀ buflen bufpos, bufpos + bs.length < buflen →
      body buflen bufpos src = some (bs, rest))
    (takes : rest.length < src.length) (stores : bs ≠ []) (later : Produces body rest out) :
    Produces body src (bs ++ out)

theorem loop_of_produces {src : List α} {out : List β} (h : Produces body src out) (fuel : ℕ)
    (as : List β) (hfuel : src.length ≤ fuel) (hroom : as.length + out.length < buflen) :
    loop body buflen fuel src (ofList as) = ofList (as ++ out) := by
  induction h generalizing fuel as with
  | nil =>
    rw [List.append_nil, loop_nil]
  | @step src rest bs out run takes stores _ ih =>
    obtain ⟨fuel, rfl⟩ : ∃ k, fuel = k + 1 := ⟨fuel - 1, by omega⟩
    have hpos := List.length_pos_iff.2 stores
    rw [List.length_append] at hroom
    have hend : ¬(src = [] ∨ ¬(ofList as).bufpos + 1 < buflen) := by
      rw [not_or, not_not]
      refine ⟨List.ne_nil_of_length_pos (by omega), ?_⟩
      show as.length + 1 < buflen
      omega
    rw [loop, if_neg hend, run buflen (ofList as).bufpos (show as.length + bs.length < _ by omega)]
    dsimp only
    rw [puts_ofList, ih fuel (as ++ bs) (by omega) (by rw [List.length_append]; omega),
      List.append_assoc]

theorem string_fill {src : List α} {out : List β} (h : Produces body src out)
    (hroom : out.length < buflen) : (fill body zero buflen src).string = out := by
  rw [fill, if_neg (by omega), start_eq,
    loop_of_produces h src.length [] le_rfl (by rw [List.length_nil]; omega), List.nil_append,
    string_terminate]

theorem string_fill_fill {back : ℕ → ℕ → List β → Option (List α × List β)} {x : List α}
    {y : List β} {backlen : ℕ} {nul : α} (hthere : Produces body x y) (hback : Produces back y x)
    (hbuflen : y.length < buflen) (hbacklen : x.length < backlen) :
    (fill back nul backlen (fill body zero buflen x).string).string = x := by
  rw [string_fill hthere hbuflen, string_fill hback hbacklen]

theorem produces_flatMap (sym : γ → List α) (code : γ → List β) {P : γ → Prop}
    (h : ∀ s, P s → sym s ≠ [] ∧ code s ≠ [] ∧ ∀ buflen bufpos rest,
      bufpos + (code s).length < buflen → body buflen bufpos (sym s ++ rest) = some (code s, rest))
    (xs : List γ) (hxs : ∀ s ∈ xs, P s) : Produces body (xs.flatMap sym) (xs.flatMap code) := by
  induction xs with
  | nil => exact .nil
  | cons s xs ih =>
    obtain ⟨hsym, hcode, hrun⟩ := h s (hxs s List.mem_cons_self)
    rw [List.flatMap_cons, List.flatMap_cons]
    refine .step (fun buflen bufpos => hrun buflen bufpos _) ?_ hcode
      (ih fun t ht => hxs t (List.mem_cons_of_mem _ ht))
    have hpos := List.length_pos_iff.2 hsym
    rw [List.length_append]
    omega

/-! ### Places -/

/-- The places in the buffer and in the text at which the loop runs its body. -/
def places (body : ℕ → ℕ → List α → Option (List β × List α)) (buflen : ℕ) :
    ℕ → ℕ → List α → List (ℕ × List α)
  | 0, _, _ => []
  | fuel + 1, bufpos, src =>
    if src = [] ∨ ¬bufpos + 1 < buflen then []
    else (bufpos, src) ::
      match body buflen bufpos src with
      | none => []
      | some (bs, rest) => places body buflen fuel (bufpos + bs.length) rest

theorem places_agree_iff (body spec : ℕ → ℕ → List α → Option (List β × List α))
    {Defect : List α → Prop}
    (h : ∀ bufpos src, body buflen bufpos src = spec buflen bufpos src ↔ ¬Defect src)
    (fuel bufpos : ℕ) (src : List α) :
    (∀ p ∈ places body buflen fuel bufpos src, body buflen p.1 p.2 = spec buflen p.1 p.2) ↔
      ∀ p ∈ places spec buflen fuel bufpos src, ¬Defect p.2 := by
  induction fuel generalizing bufpos src with
  | zero => simp [places]
  | succ fuel ih =>
    rw [places, places]
    by_cases hend : src = [] ∨ ¬bufpos + 1 < buflen
    · rw [if_pos hend, if_pos hend]
      simp
    rw [if_neg hend, if_neg hend, List.forall_mem_cons, List.forall_mem_cons, h bufpos src]
    refine and_congr_right fun hsound => ?_
    rw [(h bufpos src).2 hsound]
    rcases spec buflen bufpos src with _ | ⟨bs, rest⟩
    · simp
    · exact ih _ rest

end Rules

end Buffer

end Jingle
