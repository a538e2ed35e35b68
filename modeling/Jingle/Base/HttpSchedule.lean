/-
The schedule of a reception.

What the peer sends is read in pieces, processed in rounds and written in pieces; and the end of
the stream is seen when it is.  `advance` is the same parser with all of the stream in front of
it: it takes every line on its own, and the data byte by byte; a line that the buffer cannot hold is
an error for both.

* **`outcome_eq`** — a receiver that sees the end of the stream only when its parser waits for
  more, and reads no line's number behind the line, ends as the stream alone says.
* `not_outcome_eq_blocked` — a document that blocks once, and the body is lost.
-/
import Jingle.Base.HttpParser
import Mathlib.Computability.StateTransition

namespace Jingle.Base.Http

open Numeral StateTransition

namespace HttpBase

variable {Leader : Type} (rcpt : Recipient Leader) (b : HttpBase Leader)

/-! ### The stream as a whole -/

/-- One round of a parser that has all of the stream in front of it: a line that is longer than
the buffer is an error. -/
def round : Option (Processed Leader) :=
  if b.state.isLine then
    if 10#8 ∈ b.buffer.take kBufferSize then
      some ({ b with buffer := b.buffer.drop (b.rawLine.length + 1) }.processLine rcpt b.lineOf [])
    else if kBufferSize ≤ b.buffer.length then some (b, .PR_COMPLETE, .HE_OVERFLOW)
    else none
  else if b.data_size = 0 then
    if b.chunked then some ({ b with state := .ST_CHUNKTERM }, .PR_CONTINUE, .HE_NONE)
    else some (b, .PR_COMPLETE, .HE_NONE)
  else if b.buffer = [] then none
  else some (b.processData 1 (.success 1))

/-- One step of it; where the parser requires more, the stream ends. -/
def advance : Option (HttpBase Leader) :=
  match b.phase with
  | .completed _ => none
  | _ =>
    match b.round rcpt with
    | none => some (b.complete (b.handleStreamClose 0))
    | some (b', .PR_COMPLETE, error) => some (b'.complete error)
    | some (b', _, _) => some b'

/-- A parser that has the stream in front of it. -/
def sent (stream : Text) : HttpBase Leader := { recv with buffer := stream }

/-- What a receiver called back, and its error, when it is complete. -/
def outcome : Option (Option Leader × List (Text × Text) × Text × HttpError) :=
  match b.phase with
  | .completed error => some (b.leader, b.headers, b.document, error)
  | _ => none

/-! ### Schedules -/

/-- An event on the way of a stream to the document: the stream ends behind its last byte, and
neither it nor the document fails. -/
def DeliveredBy (stream : Text) : Event → Prop
  | .go => True
  | .read (.success _) => True
  | .read .block => True
  | .read .eos => b.received = stream
  | .read (.error _) => False
  | .process _ .failure => False
  | .process _ _ => True
  | .close error => error = 0 ∧ b.received = stream
  | .documentClose => False

instance (stream : Text) : (e : Event) → Decidable (b.DeliveredBy stream e)
  | .go | .read (.success _) | .read .block | .process _ (.success _) | .process _ .block =>
    isTrue trivial
  | .read .eos => inferInstanceAs (Decidable (b.received = stream))
  | .close error => inferInstanceAs (Decidable (error = 0 ∧ b.received = stream))
  | .read (.error _) | .process _ .failure | .documentClose => isFalse id

/-- A run in which the stream is delivered, piece by piece. -/
def Delivered (stream : Text) : HttpBase Leader → List Event → Prop
  | _, [] => True
  | b, e :: es => b.DeliveredBy stream e ∧ (b.step rcpt e).received <+: stream ∧
      Delivered stream (b.step rcpt e) es

instance decidableDelivered (stream : Text) :
    (b : HttpBase Leader) → (es : List Event) → Decidable (Delivered rcpt stream b es)
  | _, [] => isTrue trivial
  | b, e :: es =>
    have := decidableDelivered stream (b.step rcpt e) es
    inferInstanceAs (Decidable (_ ∧ _ ∧ _))

/-- The parser waits for more. -/
structure Waits : Prop where
  line : b.state.isLine = true → 10#8 ∉ b.buffer
  data : b.state.isLine = false → b.data_size ≠ 0 ∧ b.buffer = []

/-- It does, and the buffer has room. -/
structure Drained : Prop extends b.Waits where
  room : b.buffer.length < kBufferSize

/-- A line is read on its own: its leader is, and no number stands behind an empty length. -/
structure OwnLine (after : Text) : Prop where
  leader : b.state = .ST_LEADER →
    rcpt.parseLeader b.lineOf (b.behind after) = rcpt.parseLeader b.lineOf []
  length : b.state = .ST_HEADERS → ∀ p ∈ splitHeader b.lineOf,
    matchHeader p.1 (textBytes "Content-Length") = true → p.2 = [] →
    scanUnsigned (cString (b.behind after)) = none

instance : Decidable b.Drained :=
  decidable_of_iff (((_ → _) ∧ (_ → _)) ∧ _)
    ⟨fun h => ⟨⟨h.1.1, h.1.2⟩, h.2⟩, fun h => ⟨⟨h.line, h.data⟩, h.room⟩⟩

instance [DecidableEq Leader] (after : Text) : Decidable (b.OwnLine rcpt after) :=
  decidable_of_iff (_ ∧ _) ⟨fun h => ⟨h.1, h.2⟩, fun h => ⟨h.leader, h.length⟩⟩

/-- A step that the schedule does not show through. -/
def SteadyStep : Event → Prop
  | .go => True
  | .read (.success _) => True
  | .read .block => True
  | .read (.error _) => True
  | .read .eos => b.Drained
  | .close _ => b.Drained
  | .process after _ => 10#8 ∈ b.buffer → b.OwnLine rcpt after
  | .documentClose => True

instance [DecidableEq Leader] : (e : Event) → Decidable (b.SteadyStep rcpt e)
  | .go | .read (.success _) | .read .block | .read (.error _) | .documentClose => isTrue trivial
  | .read .eos => inferInstanceAs (Decidable b.Drained)
  | .close _ => inferInstanceAs (Decidable b.Drained)
  | .process after _ => inferInstanceAs (Decidable (10#8 ∈ b.buffer → b.OwnLine rcpt after))

/-- A run of such steps. -/
def SteadyRun : HttpBase Leader → List Event → Prop
  | _, [] => True
  | b, e :: es => b.SteadyStep rcpt e ∧ SteadyRun (b.step rcpt e) es

instance decidableSteadyRun [DecidableEq Leader] :
    (b : HttpBase Leader) → (es : List Event) → Decidable (SteadyRun rcpt b es)
  | _, [] => isTrue trivial
  | b, e :: es =>
    have := decidableSteadyRun (b.step rcpt e) es
    inferInstanceAs (Decidable (_ ∧ _))

/-! ### A receiver and its stream -/

/-- A receiver with the rest of the stream in front of it. -/
def whole (rest : Text) : HttpBase Leader :=
  { b with
    buffer := b.buffer ++ rest
    received := []
    phase := match b.phase with
      | .completed error => .completed error
      | _ => .waiting }

variable {rcpt b}

theorem processLine_frame (buffer received : Text) (phase : Phase) (line after : Text) :
    { b with buffer := buffer, received := received, phase := phase }.processLine rcpt line after =
      ({ (b.processLine rcpt line after).1 with
          buffer := buffer, received := received, phase := phase },
        (b.processLine rcpt line after).2) := by
  obtain ⟨state, _⟩ := b
  unfold processLine
  cases state with
  | ST_LEADER => rfl
  | ST_HEADERS =>
    by_cases hpos : 0 < line.length
    · simp only [hpos, if_true]
      unfold headerLine
      cases splitHeader line with
      | none => rfl
      | some p =>
        dsimp only
        split_ifs
        · cases scanUnsigned (cString (p.2 ++ after)) with
          | none => rfl
          | some q => rfl
        · rfl
        · rfl
        · rfl
        · rfl
    · simp only [hpos, if_false]
      rfl
  | ST_CHUNKSIZE =>
    by_cases hpos : 0 < line.length
    · simp only [hpos, if_true]
      unfold chunkSizeLine
      by_cases hall : (cString (line ++ after)).length -
          (strtoulIn 16 (cString (line ++ after))).2.length = line.length
      · simp only [hall, ne_eq, not_true, if_false]
      · simp only [hall, ne_eq, not_false_iff, if_true]
    · simp only [hpos, if_false]
  | ST_CHUNKTERM =>
    by_cases hpos : 0 < line.length
    · simp only [hpos, if_true]
    · simp only [hpos, if_false]
  | ST_TRAILERS =>
    by_cases hnil : line.length = 0
    · simp only [hnil, if_true]
    · simp only [hnil, if_false]
  | ST_DATA => rfl
  | ST_COMPLETE => rfl

/-! ### A line on its own -/

theorem exists_of_trimEnd_ne_nil {s : Text} (h : trimEnd s ≠ []) :
    ∃ c ∈ trimEnd s, isSpace c = false := by
  have hne : s.reverse.dropWhile isSpace ≠ [] := fun hnil => h (by rw [trimEnd, hnil]; rfl)
  refine ⟨(s.reverse.dropWhile isSpace).head hne, ?_, ?_⟩
  · rw [trimEnd, List.mem_reverse]
    exact List.head_mem hne
  · simpa using List.head_dropWhile_not isSpace hne

theorem exists_of_value_ne_nil {line name value : Text}
    (hsplit : splitHeader line = some (name, value)) (h : value ≠ []) :
    ∃ c ∈ value, isSpace c = false := by
  rw [splitHeader] at hsplit
  split_ifs at hsplit
  obtain ⟨-, rfl⟩ := Prod.mk.inj (Option.some.inj hsplit)
  exact ⟨_, List.head_mem h, by simpa using List.head_dropWhile_not isSpace h⟩

theorem scanUnsigned_value {value behind : Text} (h : ∃ c ∈ value, isSpace c = false)
    (hbehind : BeginsWithSpace behind) :
    (scanUnsigned (cString (value ++ behind))).map Prod.fst =
      (scanUnsigned (cString (value ++ []))).map Prod.fst := by
  by_cases hzero : 0#8 ∈ value
  · rw [cString_append_of_mem hzero, cString_append_of_mem hzero]
  · rw [cString_append_of_notMem hzero, cString_append_of_notMem hzero,
      scanUnsigned_append h hbehind.cString, scanUnsigned_append h beginsWithSpace_nil.cString,
      Option.map_map, Option.map_map]
    rfl

theorem headerLine_congr {line after after' : Text}
    (h : ∀ p ∈ splitHeader line, matchHeader p.1 (textBytes "Content-Length") = true →
      (scanUnsigned (cString (p.2 ++ after))).map Prod.fst =
        (scanUnsigned (cString (p.2 ++ after'))).map Prod.fst) :
    b.headerLine line after = b.headerLine line after' := by
  unfold headerLine
  cases hsplit : splitHeader line with
  | none => rfl
  | some p =>
    dsimp only
    by_cases hlength : matchHeader p.1 (textBytes "Content-Length") = true
    · rw [if_pos hlength, if_pos hlength]
      have hscan := h p hsplit hlength
      cases hafter : scanUnsigned (cString (p.2 ++ after)) with
      | none =>
        rw [hafter, eq_comm, Option.map_none, Option.map_eq_none_iff] at hscan
        rw [hscan]
      | some q =>
        rw [hafter, eq_comm, Option.map_some, Option.map_eq_some_iff] at hscan
        obtain ⟨q', hafter', heq⟩ := hscan
        rw [hafter']
        dsimp only
        rw [heq]
    · rw [if_neg hlength, if_neg hlength]

theorem chunkSizeLine_behind {line behind : Text} (h : ∃ c ∈ line, isSpace c = false)
    (hbehind : BeginsWithSpace behind) :
    b.chunkSizeLine line behind = b.chunkSizeLine line [] := by
  unfold chunkSizeLine
  by_cases hzero : 0#8 ∈ line
  · rw [cString_append_of_mem hzero, cString_append_of_mem hzero]
  · have hread : ∀ rest, BeginsWithSpace rest →
        strtoulIn 16 (cString (line ++ rest)) =
            ((strtoulIn 16 line).1, (strtoulIn 16 line).2 ++ cString rest) ∧
          (cString (line ++ rest)).length - ((strtoulIn 16 line).2 ++ cString rest).length =
            line.length - (strtoulIn 16 line).2.length := by
      intro rest hrest
      rw [cString_append_of_notMem hzero, strtoulIn_append h hrest.cString]
      refine ⟨rfl, ?_⟩
      rw [List.length_append, List.length_append]
      omega
    obtain ⟨hread₁, hlength₁⟩ := hread behind hbehind
    obtain ⟨hread₂, hlength₂⟩ := hread [] beginsWithSpace_nil
    dsimp only
    rw [hread₁, hread₂]
    dsimp only
    rw [hlength₁, hlength₂]

theorem processLine_behind {after : Text} (hline : 10#8 ∈ b.buffer)
    (hown : b.OwnLine rcpt after) {c : HttpBase Leader} (hstate : c.state = b.state) :
    c.processLine rcpt b.lineOf (b.behind after) = c.processLine rcpt b.lineOf [] := by
  have hspace := behind_beginsWithSpace hline after
  unfold processLine
  cases hb : b.state with
  | ST_LEADER =>
    rw [hstate, hb]
    dsimp only
    rw [hown.leader hb]
  | ST_HEADERS =>
    have hheader : c.headerLine b.lineOf (b.behind after) = c.headerLine b.lineOf [] := by
      refine headerLine_congr fun p hp hlength => ?_
      by_cases hnil : p.2 = []
      · rw [hnil, List.nil_append, hown.length hb p hp hlength hnil]
        rfl
      · exact scanUnsigned_value (exists_of_value_ne_nil hp hnil) hspace
    rw [hstate, hb]
    dsimp only
    rw [hheader]
  | ST_CHUNKSIZE =>
    rw [hstate, hb]
    dsimp only
    by_cases hpos : 0 < b.lineOf.length
    · have hne : ∃ c ∈ b.lineOf, isSpace c = false :=
        exists_of_trimEnd_ne_nil (List.ne_nil_of_length_pos hpos)
      rw [if_pos hpos, if_pos hpos, chunkSizeLine_behind hne hspace]
    · rw [if_neg hpos, if_neg hpos]
  | ST_CHUNKTERM => rw [hstate, hb]
  | ST_TRAILERS => rw [hstate, hb]
  | ST_DATA => rw [hstate, hb]
  | ST_COMPLETE => rw [hstate, hb]

/-! ### A round of the parser -/

/-- The data that one round takes. -/
def dataTaken (b : HttpBase Leader) (read : ℕ) : HttpBase Leader :=
  { b.dropData read with
    document := if b.ignore_data then b.document else b.document ++ b.buffer.take read }

theorem processData_success (len written : ℕ) :
    b.processData len (.success written) =
      (b.dataTaken (if b.ignore_data then len else min written len), .PR_CONTINUE, .HE_NONE) := by
  unfold processData dataTaken
  by_cases hignore : b.ignore_data = true
  · rw [if_pos hignore, if_pos hignore, if_pos hignore]
    rfl
  · rw [if_neg hignore, if_neg hignore, if_neg hignore]

theorem dataTaken_zero : b.dataTaken 0 = b := by
  obtain ⟨_⟩ := b
  simp [dataTaken, dropData]

theorem dataTaken_succ (k : ℕ) (hsize : b.data_size ≤ SIZE_UNKNOWN) :
    (b.dataTaken 1).dataTaken k = b.dataTaken (k + 1) := by
  have hdata : ((b.dataTaken 1).dataTaken k).data_size = (b.dataTaken (k + 1)).data_size := by
    simp only [dataTaken, dropData]
    split_ifs
    · omega
    · omega
    · rfl
  have hdocument : ((b.dataTaken 1).dataTaken k).document = (b.dataTaken (k + 1)).document := by
    simp only [dataTaken, dropData]
    split_ifs
    · rfl
    · rw [List.append_assoc, Nat.add_comm k 1, List.take_add]
  have hbuffer : ((b.dataTaken 1).dataTaken k).buffer = (b.dataTaken (k + 1)).buffer := by
    simp only [dataTaken, dropData]
    rw [List.drop_drop, Nat.add_comm]
  simp only [dataTaken, dropData] at hdata hdocument hbuffer ⊢
  rw [hdata, hdocument, hbuffer]

theorem mem_advance_dataTaken (hphase : b.phase = .waiting) (hstate : b.state.isLine = false)
    (hsize : b.data_size ≠ 0) (hbuffer : b.buffer ≠ []) : b.dataTaken 1 ∈ advance rcpt b := by
  unfold advance round
  rw [hphase, if_neg (by simp [hstate]), if_neg hsize, if_neg hbuffer, processData_success]
  split_ifs
  · rfl
  · rfl

theorem reaches_dataTaken (hphase : b.phase = .waiting) (hstate : b.state.isLine = false)
    (hsize : b.data_size ≤ SIZE_UNKNOWN) {k : ℕ} (hbuffer : k ≤ b.buffer.length)
    (hk : b.data_size ≠ SIZE_UNKNOWN → k ≤ b.data_size) :
    Reaches (advance rcpt) b (b.dataTaken k) := by
  induction k generalizing b with
  | zero =>
    rw [dataTaken_zero]
    exact .refl
  | succ k ih =>
    have hpos : b.data_size ≠ 0 := by
      intro hzero
      rw [hzero] at hk
      exact absurd (hk (by decide)) (by omega)
    have hstep : b.dataTaken 1 ∈ advance rcpt b :=
      mem_advance_dataTaken hphase hstate hpos (List.ne_nil_of_length_pos (by omega))
    have hleft : (b.dataTaken 1).data_size ≤ SIZE_UNKNOWN ∧
        ((b.dataTaken 1).data_size ≠ SIZE_UNKNOWN → k ≤ (b.dataTaken 1).data_size) := by
      simp only [dataTaken, dropData]
      split_ifs with hknown
      · have := hk hknown
        omega
      · omega
    have hlength : k ≤ (b.dataTaken 1).buffer.length := by
      simp only [dataTaken, dropData, List.length_drop]
      omega
    rw [← dataTaken_succ k hsize]
    exact .head hstep (ih hphase hstate hleft.1 hlength hleft.2)

/-! ### Rounds of the receiver -/

theorem whole_eq (hphase : ∀ error, b.phase ≠ .completed error) (rest : Text) :
    b.whole rest = { b with buffer := b.buffer ++ rest, received := [], phase := .waiting } := by
  unfold whole
  cases hb : b.phase with
  | completed error => exact absurd hb (hphase error)
  | waiting => rfl
  | reading => rfl
  | processing => rfl

theorem whole_withPhase (hphase : ∀ error, b.phase ≠ .completed error) {phase : Phase}
    (hphase' : ∀ error, phase ≠ .completed error) (rest : Text) :
    { b with phase := phase }.whole rest = b.whole rest := by
  rw [whole_eq (b := { b with phase := phase }) hphase', whole_eq hphase]

theorem whole_requireMore (hphase : ∀ error, b.phase ≠ .completed error) (loop_count : ℕ)
    (rest : Text) : (b.requireMore loop_count).whole rest = b.whole rest := by
  refine whole_withPhase hphase (fun error => ?_) rest
  split_ifs
  · exact Phase.noConfusion
  · exact Phase.noConfusion

theorem dataTaken_whole {k : ℕ} (hbuffer : k ≤ b.buffer.length) (rest : Text) :
    (b.whole rest).dataTaken k = (b.dataTaken k).whole rest := by
  unfold whole dataTaken dropData
  dsimp only
  rw [List.drop_append_of_le_length hbuffer, List.take_append_of_le_length hbuffer]

theorem advance_of_round (hphase : ∀ error, b.phase ≠ .completed error) {rest : Text}
    {p : Processed Leader} (hp : p.1.phase = b.phase)
    (hround : (b.whole rest).round rcpt = some (p.1.whole rest, p.2)) {loop_count : ℕ}
    {after : Text} {write : WriteResult} (honce : b.processOnce rcpt after write = some p) :
    (b.process rcpt loop_count after write).whole rest ∈ advance rcpt (b.whole rest) := by
  have hwaiting : (b.whole rest).phase = .waiting := by rw [whole_eq hphase]
  have hwhole := whole_eq (b := p.1) (fun error => by rw [hp]; exact hphase error) rest
  unfold advance process
  rw [hwaiting, hround, honce, hwhole]
  obtain ⟨b', result, error⟩ := p
  cases result with
  | PR_CONTINUE => rfl
  | PR_BLOCK => rfl
  | PR_COMPLETE => rfl

theorem rawLine_append (hline : 10#8 ∈ b.buffer) (rest : Text) :
    (b.buffer ++ rest).takeWhile (· ≠ 10#8) = b.rawLine := by
  obtain ⟨behind, hbuffer, hnewline, -⟩ := exists_line hline
  have hsplit : b.rawLine ++ 10#8 :: (behind ++ rest) = b.buffer ++ rest := by
    rw [← List.cons_append, ← List.append_assoc, ← hbuffer]
  exact (eq_takeWhile_of_line hnewline hsplit).1.symm

theorem mem_advance_line (hphase : ∀ error, b.phase ≠ .completed error) (rest : Text)
    (hfull : b.buffer.length ≤ kBufferSize) (hstate : b.state.isLine = true)
    (hline : 10#8 ∈ b.buffer) {after : Text}
    (hown : b.OwnLine rcpt after) (loop_count : ℕ) (write : WriteResult) :
    (b.process rcpt loop_count after write).whole rest ∈ advance rcpt (b.whole rest) := by
  obtain ⟨q, hq⟩ : ∃ q, b.processLine rcpt b.lineOf [] = q := ⟨_, rfl⟩
  have hframe : ∀ (buffer received : Text) (phase : Phase),
      { b with buffer := buffer, received := received, phase := phase }.processLine rcpt
        b.lineOf [] =
          ({ q.1 with buffer := buffer, received := received, phase := phase }, q.2) := by
    intro buffer received phase
    rw [← hq]
    exact processLine_frame buffer received phase b.lineOf []
  have honce : b.processOnce rcpt after write =
      some ({ b with buffer := b.buffer.drop (b.rawLine.length + 1) }.processLine rcpt
        b.lineOf (b.behind after)) := by
    rw [processOnce, if_pos hstate, if_pos hline]
  have hlength : b.rawLine.length + 1 ≤ b.buffer.length := by
    obtain ⟨behind, hbuffer, -, -⟩ := exists_line hline
    rw [hbuffer, List.length_append, List.length_cons]
    omega
  rw [processLine_behind (c := { b with buffer := b.buffer.drop (b.rawLine.length + 1) })
    hline hown rfl, hframe] at honce
  refine advance_of_round hphase rfl ?_ honce
  have hwhole := whole_eq (b := { q.1 with
    buffer := b.buffer.drop (b.rawLine.length + 1), received := b.received, phase := b.phase })
    hphase rest
  have hfirst : 10#8 ∈ (b.buffer ++ rest).take kBufferSize := by
    rw [List.take_append, List.take_of_length_le hfull]
    exact List.mem_append_left _ hline
  rw [hwhole, whole_eq hphase, round, if_pos hstate, if_pos hfirst, rawLine, lineOf, rawLine,
    rawLine_append hline]
  exact congrArg some ((hframe _ _ _).trans (by rw [List.drop_append_of_le_length hlength]))

theorem processData_cases (len : ℕ) {write : WriteResult} (hwrite : write ≠ .failure) :
    (∃ k ≤ len, b.processData len write = (b.dataTaken k, .PR_CONTINUE, .HE_NONE)) ∨
      b.processData len write = (b, .PR_BLOCK, .HE_NONE) := by
  by_cases hignore : b.ignore_data = true
  · refine .inl ⟨len, le_rfl, ?_⟩
    unfold processData dataTaken
    rw [if_pos hignore, if_pos hignore]
    rfl
  · cases write with
    | success written =>
      refine .inl ⟨min written len, Nat.min_le_right _ _, ?_⟩
      rw [processData_success, if_neg hignore]
    | block => exact .inr (by unfold processData; rw [if_neg hignore])
    | failure => exact absurd rfl hwrite

theorem reaches_processData (hphase : ∀ error, b.phase ≠ .completed error) (rest : Text)
    (hstate : b.state.isLine = false) (hsize : b.data_size ≤ SIZE_UNKNOWN) {len : ℕ}
    (hbuffer : len ≤ b.buffer.length) (hlen : b.data_size ≠ SIZE_UNKNOWN → len ≤ b.data_size)
    {after : Text} {write : WriteResult} (hwrite : write ≠ .failure) {loop_count : ℕ}
    (honce : b.processOnce rcpt after write = some (b.processData len write)) :
    Reaches (advance rcpt) (b.whole rest) ((b.process rcpt loop_count after write).whole rest) := by
  unfold process
  rw [honce]
  obtain ⟨k, hk, heq⟩ | heq := processData_cases (b := b) len hwrite
  · have hreaches : Reaches (advance rcpt) (b.whole rest) ((b.whole rest).dataTaken k) := by
      have hlength : k ≤ (b.buffer ++ rest).length := by
        rw [List.length_append]
        omega
      rw [whole_eq hphase]
      exact reaches_dataTaken (b := { b with
        buffer := b.buffer ++ rest, received := [], phase := .waiting }) rfl hstate hsize hlength
        fun hknown => hk.trans (hlen hknown)
    rw [dataTaken_whole (hk.trans hbuffer)] at hreaches
    have hwhole : { b.dataTaken k with phase := .processing loop_count }.whole rest =
        (b.dataTaken k).whole rest :=
      whole_withPhase (b := b.dataTaken k) hphase (fun _ => Phase.noConfusion) rest
    rw [heq]
    dsimp only
    rw [hwhole]
    exact hreaches
  · have hwhole : { b with phase := .waiting }.whole rest = b.whole rest :=
      whole_withPhase hphase (fun _ => Phase.noConfusion) rest
    rw [heq]
    dsimp only
    rw [hwhole]
    exact .refl

theorem process_reaches (hphase : ∀ error, b.phase ≠ .completed error) (rest : Text)
    (hfull : b.buffer.length ≤ kBufferSize) (hsize : b.data_size ≤ SIZE_UNKNOWN)
    {after : Text} {write : WriteResult} (hown : 10#8 ∈ b.buffer → b.OwnLine rcpt after)
    (hwrite : write ≠ .failure) (loop_count : ℕ) :
    Reaches (advance rcpt) (b.whole rest) ((b.process rcpt loop_count after write).whole rest) := by
  have hnone : b.processOnce rcpt after write = none →
      Reaches (advance rcpt) (b.whole rest)
        ((b.process rcpt loop_count after write).whole rest) := by
    intro honce
    have hprocess : b.process rcpt loop_count after write = b.requireMore loop_count := by
      unfold process
      rw [honce]
    rw [hprocess, whole_requireMore hphase]
    exact .refl
  by_cases hstate : b.state.isLine = true
  · by_cases hline : 10#8 ∈ b.buffer
    · exact .single (mem_advance_line hphase rest hfull hstate hline (hown hline) loop_count write)
    · refine hnone ?_
      rw [processOnce, if_pos hstate, if_neg hline]
  · by_cases hzero : b.data_size = 0
    · -- the end of a chunk, or of the body
      by_cases hchunked : b.chunked = true
      · refine .single (advance_of_round (p := ({ b with state := .ST_CHUNKTERM }, .PR_CONTINUE,
          .HE_NONE)) hphase rfl ?_ ?_)
        · rw [whole_eq hphase, round, if_neg hstate, if_pos hzero, if_pos hchunked]
          rw [whole_eq (b := { b with state := .ST_CHUNKTERM }) hphase]
        · rw [processOnce, if_neg hstate, if_pos hzero, if_pos hchunked]
      · refine .single (advance_of_round (p := (b, .PR_COMPLETE, .HE_NONE)) hphase rfl ?_ ?_)
        · rw [whole_eq hphase, round, if_neg hstate, if_pos hzero, if_neg hchunked]
        · rw [processOnce, if_neg hstate, if_pos hzero, if_neg hchunked]
    · by_cases hnil : b.buffer = []
      · refine hnone ?_
        rw [processOnce, if_neg hstate, if_neg hzero, if_pos hnil]
      · have honce : b.processOnce rcpt after write = some (b.processData
            (if b.data_size ≠ SIZE_UNKNOWN ∧ b.data_size < b.buffer.length then b.data_size
              else b.buffer.length) write) := by
          rw [processOnce, if_neg hstate, if_neg hzero, if_neg hnil]
        refine reaches_processData hphase rest (by simpa using hstate) hsize ?_ (fun hknown => ?_)
          hwrite honce
        · split_ifs
          · omega
          · exact le_rfl
        · split_ifs
          · exact le_rfl
          · omega

/-! ### Sizes -/

theorem headerLine_size_le (hsize : b.data_size ≤ SIZE_UNKNOWN) (line after : Text) :
    (b.headerLine line after).1.data_size ≤ SIZE_UNKNOWN := by
  unfold headerLine
  cases splitHeader line with
  | none => exact hsize
  | some p =>
    dsimp only
    split_ifs
    · cases hscan : scanUnsigned (cString (p.2 ++ after)) with
      | none => exact hsize
      | some q =>
        have hlt : q.1 < 2 ^ 32 := scanUnsigned_lt hscan
        exact hlt.le.trans (by decide)
    · exact hsize
    · exact hsize
    · exact hsize
    · exact hsize

theorem chunkSizeLine_size_le (line after : Text) :
    (b.chunkSizeLine line after).1.data_size ≤ SIZE_UNKNOWN := by
  have hle : (strtoulIn 16 (cString (line ++ after))).1 ≤ SIZE_UNKNOWN :=
    Nat.le_sub_one_of_lt (strtoulIn_lt 16 _)
  unfold chunkSizeLine
  dsimp only
  split
  · exact hle
  · exact hle

theorem processLine_size_le (hsize : b.data_size ≤ SIZE_UNKNOWN) (line after : Text) :
    (b.processLine rcpt line after).1.data_size ≤ SIZE_UNKNOWN := by
  unfold processLine
  split
  · exact hsize
  · split_ifs
    · exact headerLine_size_le hsize line after
    · exact HeaderAnswer.size_le _
    · exact HeaderAnswer.size_le _
  · split_ifs
    · exact chunkSizeLine_size_le line after
    · exact hsize
  · split_ifs
    · exact hsize
    · exact hsize
    · exact hsize
  · split_ifs
    · exact hsize
    · exact hsize
  · exact hsize
  · exact hsize

theorem dropData_size_le (hsize : b.data_size ≤ SIZE_UNKNOWN) (read : ℕ) :
    (b.dropData read).data_size ≤ SIZE_UNKNOWN := by
  unfold dropData
  dsimp only
  split_ifs
  · omega
  · exact hsize

theorem processOnce_size_le (hsize : b.data_size ≤ SIZE_UNKNOWN) {after : Text}
    {write : WriteResult} {p : Processed Leader} (hp : b.processOnce rcpt after write = some p) :
    p.1.data_size ≤ SIZE_UNKNOWN := by
  unfold processOnce at hp
  dsimp only at hp
  split at hp
  · split at hp
    · rw [← Option.some.inj hp]
      exact processLine_size_le
        (b := { b with buffer := b.buffer.drop (b.rawLine.length + 1) }) hsize _ _
    · cases hp
  · split at hp
    · split at hp
      · rw [← Option.some.inj hp]
        exact hsize
      · rw [← Option.some.inj hp]
        exact hsize
    · split at hp
      · cases hp
      · rw [← Option.some.inj hp]
        unfold processData
        split
        · exact dropData_size_le hsize _
        · cases write with
          | success written => exact dropData_size_le hsize _
          | block => exact hsize
          | failure => exact hsize

theorem process_size_le (hsize : b.data_size ≤ SIZE_UNKNOWN) (loop_count : ℕ) (after : Text)
    (write : WriteResult) : (b.process rcpt loop_count after write).data_size ≤ SIZE_UNKNOWN := by
  unfold process
  cases honce : b.processOnce rcpt after write with
  | none => exact hsize
  | some p =>
    obtain ⟨b', result, error⟩ := p
    have hle : b'.data_size ≤ SIZE_UNKNOWN := processOnce_size_le hsize honce
    cases result with
    | PR_CONTINUE => exact hle
    | PR_BLOCK => exact hle
    | PR_COMPLETE => exact hle

/-! ### Steps -/

theorem waits_of_processOnce {after : Text} {write : WriteResult}
    (h : b.processOnce rcpt after write = none) : b.Waits := by
  unfold processOnce at h
  dsimp only at h
  constructor
  · intro hstate
    rw [if_pos hstate] at h
    split_ifs at h with hline
    exact hline
  · intro hstate
    rw [if_neg (by simp [hstate])] at h
    split_ifs at h with hzero hchunked hnil
    exact ⟨hzero, hnil⟩

theorem processOnce_buffer {after : Text} {write : WriteResult} {p : Processed Leader}
    (hp : b.processOnce rcpt after write = some p) :
    p.1.received = b.received ∧ p.1.buffer.length ≤ b.buffer.length := by
  have hdrop : ∀ n, (b.buffer.drop n).length ≤ b.buffer.length := by
    intro n
    rw [List.length_drop]
    exact Nat.sub_le _ _
  unfold processOnce at hp
  dsimp only at hp
  split at hp
  · split at hp
    · have hframe : { b with buffer := b.buffer.drop (b.rawLine.length + 1) }.processLine rcpt
          b.lineOf (b.behind after) = _ :=
        processLine_frame _ b.received b.phase b.lineOf (b.behind after)
      rw [← Option.some.inj hp, hframe]
      exact ⟨rfl, hdrop _⟩
    · cases hp
  · split at hp
    · split at hp
      · rw [← Option.some.inj hp]
        exact ⟨rfl, le_rfl⟩
      · rw [← Option.some.inj hp]
        exact ⟨rfl, le_rfl⟩
    · split at hp
      · cases hp
      · rw [← Option.some.inj hp]
        unfold processData
        split
        · exact ⟨rfl, hdrop _⟩
        · cases write with
          | success written => exact ⟨rfl, hdrop _⟩
          | block => exact ⟨rfl, le_rfl⟩
          | failure => exact ⟨rfl, le_rfl⟩

theorem process_buffer (loop_count : ℕ) (after : Text) (write : WriteResult) :
    (b.process rcpt loop_count after write).received = b.received ∧
      (b.process rcpt loop_count after write).buffer.length ≤ b.buffer.length := by
  unfold process
  cases honce : b.processOnce rcpt after write with
  | none => exact ⟨rfl, le_rfl⟩
  | some p =>
    obtain ⟨b', result, error⟩ := p
    have hbuffer := processOnce_buffer honce
    cases result with
    | PR_CONTINUE => exact hbuffer
    | PR_BLOCK => exact hbuffer
    | PR_COMPLETE => exact hbuffer

theorem waits_of_process {loop_count n : ℕ} {after : Text} {write : WriteResult}
    (h : (b.process rcpt loop_count after write).phase = .reading n true) :
    (b.process rcpt loop_count after write).Waits := by
  unfold process at h ⊢
  cases honce : b.processOnce rcpt after write with
  | none =>
    have hwaits := waits_of_processOnce honce
    exact ⟨hwaits.line, hwaits.data⟩
  | some p =>
    obtain ⟨b', result, error⟩ := p
    rw [honce] at h
    cases result with
    | PR_CONTINUE => cases h
    | PR_BLOCK => cases h
    | PR_COMPLETE => cases h

/-- A receiver follows its stream: the stream alone leads the parser to where it is. -/
structure Follows (rcpt : Recipient Leader) (stream : Text) (b : HttpBase Leader) : Prop where
  reaches : ∃ rest, stream = b.received ++ rest ∧
    Reaches (advance rcpt) (sent stream) (b.whole rest)
  size_le : b.data_size ≤ SIZE_UNKNOWN
  buffer_le : b.buffer.length ≤ kBufferSize
  waits : ∀ loop_count, b.phase = .reading loop_count true → b.Waits

variable {stream : Text}

theorem Follows.close (h : b.Follows rcpt stream) (hphase : ∀ error, b.phase ≠ .completed error)
    (hreceived : b.received = stream) (hdrained : b.Drained) :
    (b.complete (b.handleStreamClose 0)).Follows rcpt stream := by
  obtain ⟨rest, hstream, hreaches⟩ := h.reaches
  obtain rfl : rest = [] := by
    rw [hreceived] at hstream
    simpa using hstream
  refine ⟨⟨[], hstream, hreaches.tail ?_⟩, h.size_le, h.buffer_le, fun _ heq => by cases heq⟩
  have hround : (b.whole []).round rcpt = none := by
    rw [whole_eq hphase, List.append_nil, round]
    by_cases hstate : b.state.isLine = true
    · have hline : 10#8 ∉ b.buffer.take kBufferSize :=
        fun hmem => hdrained.line hstate (List.mem_of_mem_take hmem)
      rw [if_pos hstate, if_neg hline, if_neg (Nat.not_le.2 hdrained.room)]
    · obtain ⟨hsize, hnil⟩ := hdrained.data (by simpa using hstate)
      rw [if_neg hstate, if_neg hsize, if_pos hnil]
  show (b.complete (b.handleStreamClose 0)).whole [] ∈ advance rcpt (b.whole [])
  unfold advance
  rw [hround, whole_eq hphase]
  rfl

theorem Follows.overflow (h : b.Follows rcpt stream)
    (hphase : ∀ error, b.phase ≠ .completed error) (hwaits : b.Waits)
    (hfull : ¬b.buffer.length < kBufferSize) :
    (b.complete .HE_OVERFLOW).Follows rcpt stream := by
  obtain ⟨rest, hstream, hreaches⟩ := h.reaches
  refine ⟨⟨rest, hstream, hreaches.tail ?_⟩, h.size_le, h.buffer_le, fun _ heq => by cases heq⟩
  have hstate : b.state.isLine = true := by
    by_contra hdata
    rw [(hwaits.data (by simpa using hdata)).2] at hfull
    exact hfull (by decide)
  have hline : 10#8 ∉ (b.buffer ++ rest).take kBufferSize := by
    rw [List.take_append_of_le_length (Nat.not_lt.1 hfull)]
    exact fun hmem => hwaits.line hstate (List.mem_of_mem_take hmem)
  have hlength : kBufferSize ≤ (b.buffer ++ rest).length := by
    rw [List.length_append]
    omega
  have hround : (b.whole rest).round rcpt =
      some (b.whole rest, .PR_COMPLETE, .HE_OVERFLOW) := by
    rw [whole_eq hphase, round, if_pos hstate, if_neg hline, if_pos hlength]
  show (b.complete .HE_OVERFLOW).whole rest ∈ advance rcpt (b.whole rest)
  unfold advance
  rw [hround, whole_eq hphase]
  rfl

theorem Follows.withPhase (h : b.Follows rcpt stream)
    (hphase : ∀ error, b.phase ≠ .completed error) {phase : Phase}
    (hphase' : ∀ error, phase ≠ .completed error)
    (hreading : ∀ loop_count, phase ≠ .reading loop_count true) :
    { b with phase := phase }.Follows rcpt stream := by
  obtain ⟨rest, hstream, hreaches⟩ := h.reaches
  refine ⟨⟨rest, hstream, ?_⟩, h.size_le, h.buffer_le, fun n heq => absurd heq (hreading n)⟩
  rw [whole_withPhase hphase hphase']
  exact hreaches

theorem Follows.read (h : b.Follows rcpt stream) {loop_count : ℕ} {more : Bool}
    (hphase : b.phase = .reading loop_count more) {result : ReadResult}
    (hdelivered : b.DeliveredBy stream (.read result))
    (hreceived : (b.read loop_count more result).received <+: stream)
    (hsteady : b.SteadyStep rcpt (.read result)) :
    (b.read loop_count more result).Follows rcpt stream := by
  have hphase' : ∀ error, b.phase ≠ .completed error := by simp [hphase]
  have hprocessing : Follows rcpt stream { b with phase := .processing loop_count } :=
    h.withPhase hphase' (fun _ => Phase.noConfusion) (fun _ => Phase.noConfusion)
  unfold HttpBase.read at hreceived ⊢
  by_cases hroom : b.buffer.length < kBufferSize
  · rw [if_pos hroom] at hreceived ⊢
    cases result with
    | success bytes =>
      obtain ⟨rest, hstream, hreaches⟩ := h.reaches
      obtain ⟨rest', hstream'⟩ := hreceived
      obtain rfl : rest = bytes.take (kBufferSize - b.buffer.length) ++ rest' := by
        rw [← hstream', List.append_assoc] at hstream
        exact (List.append_cancel_left hstream).symm
      refine ⟨⟨rest', hstream'.symm, ?_⟩, h.size_le, ?_, fun _ heq => by cases heq⟩
      · rw [whole_eq hphase', ← List.append_assoc] at hreaches
        exact hreaches
      · dsimp only
        rw [List.length_append, List.length_take]
        omega
    | block =>
      dsimp only
      split_ifs
      · exact h.withPhase hphase' (fun _ => Phase.noConfusion) (fun _ => Phase.noConfusion)
      · exact hprocessing
    | eos => exact h.close hphase' hdelivered hsteady
    | error read_error => exact absurd hdelivered id
  · rw [if_neg hroom]
    cases more with
    | true => exact h.overflow hphase' (h.waits loop_count hphase) hroom
    | false => exact hprocessing

theorem Follows.process (h : b.Follows rcpt stream) {loop_count : ℕ}
    (hphase : b.phase = .processing loop_count) {after : Text} {write : WriteResult}
    (hdelivered : b.DeliveredBy stream (.process after write))
    (hsteady : b.SteadyStep rcpt (.process after write)) :
    (b.process rcpt loop_count after write).Follows rcpt stream := by
  have hphase' : ∀ error, b.phase ≠ .completed error := by simp [hphase]
  have hwrite : write ≠ .failure := by
    rintro rfl
    exact hdelivered
  obtain ⟨rest, hstream, hreaches⟩ := h.reaches
  have hbuffer : (b.process rcpt loop_count after write).received = b.received ∧
      (b.process rcpt loop_count after write).buffer.length ≤ b.buffer.length :=
    process_buffer loop_count after write
  refine ⟨⟨rest, ?_, hreaches.trans
    (process_reaches hphase' rest h.buffer_le h.size_le hsteady hwrite loop_count)⟩,
    process_size_le h.size_le _ _ _, hbuffer.2.trans h.buffer_le, fun _ => waits_of_process⟩
  rw [hbuffer.1]
  exact hstream

theorem Follows.step (h : b.Follows rcpt stream) {e : Event} (hdelivered : b.DeliveredBy stream e)
    (hreceived : (b.step rcpt e).received <+: stream) (hsteady : b.SteadyStep rcpt e) :
    (b.step rcpt e).Follows rcpt stream := by
  unfold HttpBase.step at hreceived ⊢
  split
  · rename_i hphase
    exact h.withPhase (by simp [hphase]) (fun _ => Phase.noConfusion)
      (fun _ heq => by cases heq)
  · rename_i error hphase
    obtain ⟨rfl, hall⟩ := hdelivered
    exact h.close (by simp [hphase]) hall hsteady
  · exact absurd hdelivered id
  · rename_i loop_count more result hphase
    rw [hphase] at hreceived
    exact h.read hphase hdelivered hreceived hsteady
  · rename_i loop_count after write hphase
    exact h.process hphase hdelivered hsteady
  · exact h

theorem follows_recv : (recv : HttpBase Leader).Follows rcpt stream :=
  ⟨⟨stream, rfl, .refl⟩, le_rfl, Nat.zero_le _, fun _ heq => by cases heq⟩

theorem Follows.run {es : List Event} {b : HttpBase Leader} (h : b.Follows rcpt stream)
    (hdelivered : Delivered rcpt stream b es) (hsteady : SteadyRun rcpt b es) :
    (b.run rcpt es).Follows rcpt stream := by
  induction es generalizing b with
  | nil => exact h
  | cons e es ih =>
    exact ih (h.step hdelivered.1 hdelivered.2.1 hsteady.1) hdelivered.2.2 hsteady.2

theorem Follows.mem_eval (h : b.Follows rcpt stream) {error : HttpError}
    (hphase : b.phase = .completed error) :
    ∃ rest, b.whole rest ∈ eval (advance rcpt) (sent stream) := by
  obtain ⟨rest, -, hreaches⟩ := h.reaches
  refine ⟨rest, StateTransition.mem_eval.2 ⟨hreaches, ?_⟩⟩
  unfold advance whole
  rw [hphase]

theorem outcome_whole (rest : Text) : (b.whole rest).outcome = b.outcome := by
  unfold outcome whole
  cases b.phase with
  | completed error => rfl
  | waiting => rfl
  | reading => rfl
  | processing => rfl

theorem exists_completed {o : Option Leader × List (Text × Text) × Text × HttpError}
    (h : b.outcome = some o) : ∃ error, b.phase = .completed error := by
  unfold outcome at h
  split at h
  · rename_i error hphase
    exact ⟨error, hphase⟩
  · cases h

/-- **The schedule does not show through**: two receivers of one stream, each of which sees the
end of the stream only when its parser waits for more, call back the same leader and headers,
write the same body and end with the same error. -/
theorem outcome_eq {es es' : List Event} (hdelivered : Delivered rcpt stream recv es)
    (hdelivered' : Delivered rcpt stream recv es') (hsteady : SteadyRun rcpt recv es)
    (hsteady' : SteadyRun rcpt recv es')
    {o o' : Option Leader × List (Text × Text) × Text × HttpError}
    (ho : (recv.run rcpt es).outcome = some o) (ho' : (recv.run rcpt es').outcome = some o') :
    o = o' := by
  obtain ⟨error, hphase⟩ := exists_completed ho
  obtain ⟨error', hphase'⟩ := exists_completed ho'
  obtain ⟨rest, heval⟩ := (follows_recv.run hdelivered hsteady).mem_eval hphase
  obtain ⟨rest', heval'⟩ := (follows_recv.run hdelivered' hsteady').mem_eval hphase'
  have hwhole := congrArg outcome (Part.mem_unique heval heval')
  rw [outcome_whole, outcome_whole, ho, ho', Option.some.injEq] at hwhole
  exact hwhole

/-! ### A document that blocks -/

/-- The stream in two pieces, and a document that blocks before it takes the body. -/
def inPieces : List Event :=
  [.go, .read (.success (oneByte.take 7)), .process [] .block, .process [] .block,
    .read (.success (oneByte.drop 7)), .process [] .block, .process [] .block,
    .process [] .block, .go, .read .block, .process [] (.success 1), .process [] .block]

theorem outcome_eq_oneByte :
    (some (textBytes ""), [(textBytes "Content-Length", textBytes "1")], textBytes "x",
        HttpError.HE_NONE) =
      (some (textBytes ""), [(textBytes "Content-Length", textBytes "1")], textBytes "x",
        HttpError.HE_NONE) :=
  outcome_eq (show Delivered plainRecipient oneByte recv (readAll oneByte 5) by decide +kernel)
    (show Delivered plainRecipient oneByte recv inPieces by decide +kernel) (by decide +kernel)
    (by decide +kernel) (by decide +kernel) (by decide +kernel)

/-- The end of the stream behind a document that blocks. -/
def endBehindBlock : List Event :=
  [.go, .read (.success oneByte), .process [] .block, .process [] .block, .process [] .block,
    .process [] .block, .go, .read .eos]

theorem not_outcome_eq_blocked :
    Delivered plainRecipient oneByte recv (readAll oneByte 5) ∧
      Delivered plainRecipient oneByte recv endBehindBlock ∧
      ((recv.run plainRecipient (readAll oneByte 5)).outcome.map fun o => o.2.2) =
        some (textBytes "x", .HE_NONE) ∧
      ((recv.run plainRecipient endBehindBlock).outcome.map fun o => o.2.2) =
        some ([], .HE_DISCONNECTED) :=
  ⟨by decide +kernel, by decide +kernel, by decide +kernel, by decide +kernel⟩

end HttpBase

end Jingle.Base.Http
