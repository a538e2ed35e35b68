/-
Messages that are complete.

`ReadUpTo` is how a message is delimited: by lines, by the sizes of chunks, by the length that a
header declares, or by the end of the stream.  A receiver takes numbers by functions that accept
more than digits, keep the last bits of a number or the greatest one; and the greatest size
stands for a size that is not known.

* **`delimited_run`** — if every number that a receiver takes is `Plain`, it completes without
  an error only when what it has read is delimited as the headers declare.
* `not_delimited_minus` — a chunk of size `-1`, of which nothing comes.
-/
import Jingle.Base.HttpParser

namespace Jingle.Base.Http

open Numeral

/-! ### How a message is delimited -/

/-- How far a message has been read. -/
inductive Stage (Leader : Type) where
  | leader
  /-- The headers so far, whether they say that the body is chunked, and its length. -/
  | headers (leader : Leader) (seen : List (Text × Text)) (chunked : Bool) (length : Option ℕ)
  | chunkSize
  /-- In a chunk, so many bytes before its end, or before the line that ends it. -/
  | chunk (left : ℕ)
  | trailers
  /-- In a body, so many bytes before its end, or up to the end of the stream. -/
  | body (left : Option ℕ)
  | complete

/-- What a header declares. -/
inductive Declares (name value : Text) (chunked : Bool) (length : Option ℕ) :
    Bool → Option ℕ → Prop
  | length {n : ℕ} : matchHeader name (textBytes "Content-Length") = true →
      digitsValue 10 value = some n → Declares name value chunked length chunked (some n)
  | chunked : matchHeader name (textBytes "Transfer-Encoding") = true →
      matchHeader value (textBytes "chunked") = true →
      Declares name value chunked length true length
  | identity : matchHeader name (textBytes "Transfer-Encoding") = true →
      matchHeader value (textBytes "identity") = true →
      Declares name value chunked length false length
  | nothing : matchHeader name (textBytes "Content-Length") = false →
      matchHeader name (textBytes "Transfer-Encoding") = false →
      Declares name value chunked length chunked length

variable {Leader : Type}

/-- The stage behind the headers, when the observer has settled the size. -/
def bodyStage (chunked : Bool) (size : ℕ) : Stage Leader :=
  if chunked then .chunkSize
  else if size = SIZE_UNKNOWN then .body none
  else .body (some size)

/-- A line of a message. -/
inductive LineStep (rcpt : Recipient Leader) : Stage Leader → Text → Stage Leader → Prop
  | leader (line behind : Text) : (rcpt.parseLeader line behind).1 = .HE_NONE →
      LineStep rcpt .leader line (.headers (rcpt.parseLeader line behind).2 [] false none)
  | header {leader : Leader} {seen : List (Text × Text)} {chunked chunked' : Bool}
      {length length' : Option ℕ} {line name value : Text} :
      splitHeader line = some (name, value) →
      Declares name value chunked length chunked' length' →
      LineStep rcpt (.headers leader seen chunked length) line
        (.headers leader (seen ++ [(name, value)]) chunked' length')
  | endOfHeaders {leader : Leader} {seen : List (Text × Text)} {chunked : Bool}
      {length : Option ℕ} :
      LineStep rcpt (.headers leader seen chunked length) []
        (bodyStage chunked (rcpt.onHttpHeaderComplete (some leader) seen chunked
          (length.getD SIZE_UNKNOWN)).data_size)
  | size {line : Text} {n : ℕ} : digitsValue 16 line = some n → n < SIZE_UNKNOWN →
      LineStep rcpt .chunkSize line (if n = 0 then .trailers else .chunk n)
  | endOfChunk : LineStep rcpt (.chunk 0) [] .chunkSize
  | trailer {line : Text} : line ≠ [] → LineStep rcpt .trailers line .trailers
  | endOfTrailers : LineStep rcpt .trailers [] .complete

/-- **A message as far as it has been read.** -/
inductive ReadUpTo (rcpt : Recipient Leader) : Text → Stage Leader → Prop
  | start : ReadUpTo rcpt [] .leader
  | line {text : Text} {s s' : Stage Leader} {raw : Text} : ReadUpTo rcpt text s → 10#8 ∉ raw →
      LineStep rcpt s (trimEnd raw) s' → ReadUpTo rcpt (text ++ (raw ++ [10#8])) s'
  | chunk {text data : Text} {left : ℕ} : ReadUpTo rcpt text (.chunk left) →
      data.length ≤ left → ReadUpTo rcpt (text ++ data) (.chunk (left - data.length))
  | body {text data : Text} {left : ℕ} : ReadUpTo rcpt text (.body (some left)) →
      data.length ≤ left → ReadUpTo rcpt (text ++ data) (.body (some (left - data.length)))
  | untilClose {text data : Text} : ReadUpTo rcpt text (.body none) →
      ReadUpTo rcpt (text ++ data) (.body none)

/-- The stages at which a message may end; the last one only at the end of the stream. -/
def Stage.Finished : Stage Leader → Prop
  | complete => True
  | body (some 0) => True
  | body none => True
  | _ => False

/-- What has been read begins with a message that is delimited as its headers declare. -/
def Delimited (rcpt : Recipient Leader) (received : Text) : Prop :=
  ∃ text rest s, received = text ++ rest ∧ ReadUpTo rcpt text s ∧ s.Finished

/-! ### The receiver and the message -/

/-- The parser is at this stage. -/
inductive HttpBase.At (b : HttpBase Leader) : Stage Leader → Prop
  | leader : b.state = .ST_LEADER → b.chunked = false → b.data_size = SIZE_UNKNOWN →
      b.headers = [] → b.At .leader
  | headers {leader : Leader} {length : Option ℕ} : b.state = .ST_HEADERS →
      b.leader = some leader → b.data_size = length.getD SIZE_UNKNOWN →
      b.At (.headers leader b.headers b.chunked length)
  | chunkSize : b.state = .ST_CHUNKSIZE → b.chunked = true → b.At .chunkSize
  | chunk : b.state = .ST_DATA → b.chunked = true → b.data_size < SIZE_UNKNOWN →
      b.At (.chunk b.data_size)
  | chunkTerm : b.state = .ST_CHUNKTERM → b.chunked = true → b.At (.chunk 0)
  | trailers : b.state = .ST_TRAILERS → b.At .trailers
  | body : b.state = .ST_DATA → b.chunked = false → b.data_size < SIZE_UNKNOWN →
      b.At (.body (some b.data_size))
  | untilClose : b.state = .ST_DATA → b.chunked = false → b.data_size = SIZE_UNKNOWN →
      b.At (.body none)

namespace HttpBase

variable {rcpt : Recipient Leader} {b : HttpBase Leader}

/-- What was read is a message so far, and the buffer. -/
def Live (rcpt : Recipient Leader) (b : HttpBase Leader) : Prop :=
  ∃ text s, b.received = text ++ b.buffer ∧ ReadUpTo rcpt text s ∧ b.At s

/-- A receiver that is complete without an error has read a whole message. -/
def Sound (rcpt : Recipient Leader) (b : HttpBase Leader) : Prop :=
  match b.phase with
  | .completed error => error = .HE_NONE → Delimited rcpt b.received
  | _ => b.Live rcpt

/-- **The numbers of a line are plain**: a length that is taken is a number of digits only, of
at most 32 bits, and so is the size of a chunk, in hexadecimal, below the greatest one. -/
structure Plain (b : HttpBase Leader) (after : Text) : Prop where
  length : b.state = .ST_HEADERS → ∀ p ∈ splitHeader b.lineOf,
    matchHeader p.1 (textBytes "Content-Length") = true →
    (scanUnsigned (cString (p.2 ++ b.behind after))).isSome = true →
    ∃ n ∈ digitsValue 10 p.2, n < 2 ^ 32
  size : b.state = .ST_CHUNKSIZE → b.lineOf ≠ [] →
    (cString (b.lineOf ++ b.behind after)).length -
        (strtoulIn 16 (cString (b.lineOf ++ b.behind after))).2.length = b.lineOf.length →
    ∃ n ∈ digitsValue 16 b.lineOf, n < SIZE_UNKNOWN

instance (b : HttpBase Leader) (after : Text) : Decidable (b.Plain after) :=
  decidable_of_iff (_ ∧ _) ⟨fun h => ⟨h.1, h.2⟩, fun h => ⟨h.length, h.size⟩⟩

/-- A step takes plain numbers. -/
def PlainStep (b : HttpBase Leader) : Event → Prop
  | .process after _ => 10#8 ∈ b.buffer → b.Plain after
  | _ => True

instance (b : HttpBase Leader) : (e : Event) → Decidable (b.PlainStep e)
  | .process after _ => inferInstanceAs (Decidable (10#8 ∈ b.buffer → b.Plain after))
  | .go | .read _ | .close _ | .documentClose => isTrue trivial

/-- Every step of a run takes plain numbers. -/
def PlainRun (rcpt : Recipient Leader) : HttpBase Leader → List Event → Prop
  | _, [] => True
  | b, e :: es => b.PlainStep e ∧ PlainRun rcpt (b.step rcpt e) es

instance decidablePlainRun (rcpt : Recipient Leader) :
    (b : HttpBase Leader) → (es : List Event) → Decidable (PlainRun rcpt b es)
  | _, [] => isTrue trivial
  | b, e :: es =>
    have := decidablePlainRun rcpt (b.step rcpt e) es
    inferInstanceAs (Decidable (_ ∧ _))

/-! ### Lines -/

theorem At.of_eq {b' : HttpBase Leader} {s : Stage Leader} (h : b.At s)
    (hstate : b'.state = b.state) (hchunked : b'.chunked = b.chunked)
    (hsize : b'.data_size = b.data_size)
    (hheaders : b'.headers = b.headers) (hleader : b'.leader = b.leader) : b'.At s := by
  cases h with
  | leader h₁ h₂ h₃ h₄ =>
    exact .leader (hstate.trans h₁) (hchunked.trans h₂) (hsize.trans h₃) (hheaders.trans h₄)
  | headers h₁ h₂ h₃ =>
    rw [← hheaders, ← hchunked]
    exact .headers (hstate.trans h₁) (hleader.trans h₂) (hsize.trans h₃)
  | chunkSize h₁ h₂ => exact .chunkSize (hstate.trans h₁) (hchunked.trans h₂)
  | chunk h₁ h₂ h₃ =>
    rw [← hsize] at h₃ ⊢
    exact .chunk (hstate.trans h₁) (hchunked.trans h₂) h₃
  | chunkTerm h₁ h₂ => exact .chunkTerm (hstate.trans h₁) (hchunked.trans h₂)
  | trailers h₁ => exact .trailers (hstate.trans h₁)
  | body h₁ h₂ h₃ =>
    rw [← hsize] at h₃ ⊢
    exact .body (hstate.trans h₁) (hchunked.trans h₂) h₃
  | untilClose h₁ h₂ h₃ =>
    exact .untilClose (hstate.trans h₁) (hchunked.trans h₂) (hsize.trans h₃)

/-- What a function of the parser comes to: a whole message, if it is complete. -/
def Result (rcpt : Recipient Leader) (p : Processed Leader) : Prop :=
  match p.2.1 with
  | .PR_COMPLETE => p.2.2 = .HE_NONE → Delimited rcpt p.1.received
  | _ => p.1.Live rcpt

theorem result_failed {b : HttpBase Leader} {error : HttpError} (h : error ≠ .HE_NONE) :
    Result rcpt (b, .PR_COMPLETE, error) := fun heq => absurd heq h

/-! ### Lines that are taken -/

/-- A line that has been taken from the buffer. -/
structure Taking (rcpt : Recipient Leader) (b : HttpBase Leader) (text : Text)
    (s : Stage Leader) (raw rest : Text) : Prop where
  received : b.received = text ++ (raw ++ 10#8 :: rest)
  reads : ReadUpTo rcpt text s
  newline : 10#8 ∉ raw

theorem Taking.live {text raw rest : Text} {s s' : Stage Leader} (h : Taking rcpt b text s raw rest)
    (hstep : LineStep rcpt s (trimEnd raw) s') {b' : HttpBase Leader}
    (hreceived : b'.received = b.received) (hbuffer : b'.buffer = rest) (hat : b'.At s') :
    b'.Live rcpt := by
  refine ⟨text ++ (raw ++ [10#8]), s', ?_, h.reads.line h.newline hstep, hat⟩
  rw [hreceived, h.received, hbuffer]
  simp

theorem Taking.delimited {text raw rest : Text} {s s' : Stage Leader}
    (h : Taking rcpt b text s raw rest) (hstep : LineStep rcpt s (trimEnd raw) s')
    (hs : s'.Finished) : Delimited rcpt b.received := by
  refine ⟨text ++ (raw ++ [10#8]), rest, s', ?_, h.reads.line h.newline hstep, hs⟩
  rw [h.received]
  simp

theorem scanUnsigned_plain {value behind : Text} {n : ℕ} (hvalue : digitsValue 10 value = some n)
    (hn : n < 2 ^ 32) (hbehind : BeginsWithSpace behind) :
    ∃ rest, scanUnsigned (cString (value ++ behind)) = some (n, rest) := by
  obtain ⟨hne, hdigits, rfl⟩ := digitsValue_eq_some hvalue
  rw [cString_digits hdigits, scanUnsigned_digits hne hdigits hbehind.cString, unsignedLong,
    if_neg (by omega), if_neg Bool.false_ne_true, Nat.mod_eq_of_lt hn]
  exact ⟨_, rfl⟩

theorem strtoulIn_plain {line behind : Text} {n : ℕ} (hline : digitsValue 16 line = some n)
    (hn : n < SIZE_UNKNOWN) (hbehind : BeginsWithSpace behind) :
    (strtoulIn 16 (cString (line ++ behind))).1 = n := by
  obtain ⟨hne, hdigits, rfl⟩ := digitsValue_eq_some hline
  rw [SIZE_UNKNOWN] at hn
  rw [cString_digits hdigits, strtoulIn_digits (by decide) hne hdigits hbehind.cString,
    unsignedLong, if_neg (by omega), if_neg Bool.false_ne_true]

theorem headerLine_sound {text raw rest after : Text} {leader : Leader} {length : Option ℕ}
    (h : Taking rcpt b text (.headers leader b.headers b.chunked length) raw rest)
    (hstate : b.state = .ST_HEADERS) (hleader : b.leader = some leader)
    (hsize : b.data_size = length.getD SIZE_UNKNOWN)
    (hbuffer : b.buffer = rest) (hafter : BeginsWithSpace after)
    (hplain : ∀ p ∈ splitHeader (trimEnd raw),
      matchHeader p.1 (textBytes "Content-Length") = true →
      (scanUnsigned (cString (p.2 ++ after))).isSome = true →
      ∃ n ∈ digitsValue 10 p.2, n < 2 ^ 32) :
    Result rcpt (b.headerLine (trimEnd raw) after) := by
  rw [headerLine]
  cases hsplit : splitHeader (trimEnd raw) with
  | none => exact result_failed (by decide)
  | some p =>
    obtain ⟨name, value⟩ := p
    dsimp only
    split_ifs with hlength hencoding hchunked hidentity
    · cases hscan : scanUnsigned (cString (value ++ after)) with
      | none => exact result_failed (by decide)
      | some q =>
        obtain ⟨n, hdigits, hn⟩ := hplain (name, value) hsplit hlength (by simp [hscan])
        obtain ⟨left, hread⟩ := scanUnsigned_plain hdigits hn hafter
        rw [hscan, Option.some.injEq] at hread
        subst hread
        exact h.live (.header hsplit (.length hlength hdigits)) rfl hbuffer
          (.headers hstate hleader rfl)
    · exact h.live (.header hsplit (.chunked hencoding hchunked)) rfl hbuffer
        (.headers hstate hleader hsize)
    · exact h.live (.header hsplit (.identity hencoding hidentity)) rfl hbuffer
        (.headers hstate hleader hsize)
    · exact result_failed (by decide)
    · exact h.live (.header hsplit (.nothing (by simpa using hlength) (by simpa using hencoding)))
        rfl hbuffer (.headers hstate hleader hsize)

theorem at_bodyStage (h : b.state = if b.chunked then .ST_CHUNKSIZE else .ST_DATA)
    (hsize : b.data_size ≤ SIZE_UNKNOWN) : b.At (bodyStage b.chunked b.data_size) := by
  rw [bodyStage]
  split_ifs at h ⊢ with hchunked hunknown
  · exact .chunkSize h hchunked
  · exact .untilClose h (by simpa using hchunked) hunknown
  · exact .body h (by simpa using hchunked) (lt_of_le_of_ne hsize hunknown)

theorem endOfHeaders_sound {text raw rest : Text} {leader : Leader} {length : Option ℕ}
    (h : Taking rcpt b text (.headers leader b.headers b.chunked length) raw rest)
    (hline : trimEnd raw = []) (hleader : b.leader = some leader)
    (hsize : b.data_size = length.getD SIZE_UNKNOWN)
    (hbuffer : b.buffer = rest) :
    Result rcpt ({ b with state := if b.chunked then .ST_CHUNKSIZE else .ST_DATA
      }.processHeaderComplete rcpt) := by
  rw [processHeaderComplete]
  dsimp only
  by_cases herror :
      (rcpt.onHttpHeaderComplete b.leader b.headers b.chunked b.data_size).error = .HE_NONE
  · have hstep : LineStep rcpt (.headers leader b.headers b.chunked length) (trimEnd raw)
        (bodyStage b.chunked (rcpt.onHttpHeaderComplete (some leader) b.headers b.chunked
          (length.getD SIZE_UNKNOWN)).data_size) := by
      rw [hline]
      exact .endOfHeaders
    rw [← hsize, ← hleader] at hstep
    have hlive : Live rcpt { b with
        state := if b.chunked then .ST_CHUNKSIZE else .ST_DATA
        data_size := (rcpt.onHttpHeaderComplete b.leader b.headers b.chunked b.data_size).data_size
        ignore_data :=
          (rcpt.onHttpHeaderComplete b.leader b.headers b.chunked b.data_size).ignore_data } :=
      h.live hstep rfl hbuffer (at_bodyStage rfl (HeaderAnswer.size_le _))
    rw [if_neg (not_not.2 herror)]
    by_cases hstream : (rcpt.onHttpHeaderComplete b.leader b.headers b.chunked
        b.data_size).new_stream = true
    · rw [if_pos hstream]
      exact hlive
    · rw [if_neg hstream]
      exact hlive
  · rw [if_pos herror]
    exact result_failed herror

theorem chunkSizeLine_sound {text raw rest after : Text}
    (h : Taking rcpt b text .chunkSize raw rest) (hchunked : b.chunked = true)
    (hbuffer : b.buffer = rest) (hafter : BeginsWithSpace after)
    (hplain : (cString (trimEnd raw ++ after)).length -
        (strtoulIn 16 (cString (trimEnd raw ++ after))).2.length = (trimEnd raw).length →
      ∃ n ∈ digitsValue 16 (trimEnd raw), n < SIZE_UNKNOWN) :
    Result rcpt (b.chunkSizeLine (trimEnd raw) after) := by
  rw [chunkSizeLine]
  by_cases hall : (cString (trimEnd raw ++ after)).length -
      (strtoulIn 16 (cString (trimEnd raw ++ after))).2.length = (trimEnd raw).length
  · obtain ⟨n, hdigits, hn⟩ := hplain hall
    have hread := strtoulIn_plain hdigits hn hafter
    have hat : HttpBase.At
        { b with data_size := n, state := if n = 0 then .ST_TRAILERS else .ST_DATA }
        (if n = 0 then .trailers else .chunk n) := by
      by_cases hzero : n = 0
      · rw [if_pos hzero, if_pos hzero]
        exact .trailers rfl
      · rw [if_neg hzero, if_neg hzero]
        exact .chunk rfl hchunked hn
    rw [if_neg (not_not.2 hall), hread]
    exact h.live (.size hdigits hn) rfl hbuffer hat
  · rw [if_pos hall]
    exact result_failed (by decide)

theorem processLine_sound {text raw rest after : Text} {s : Stage Leader}
    (h : Taking rcpt b text s raw rest) (hat : b.At s) (hline : b.state.isLine = true)
    (hbuffer : b.buffer = rest) (hafter : BeginsWithSpace after)
    (hlength : b.state = .ST_HEADERS → ∀ p ∈ splitHeader (trimEnd raw),
      matchHeader p.1 (textBytes "Content-Length") = true →
      (scanUnsigned (cString (p.2 ++ after))).isSome = true →
      ∃ n ∈ digitsValue 10 p.2, n < 2 ^ 32)
    (hsize : b.state = .ST_CHUNKSIZE → trimEnd raw ≠ [] →
      (cString (trimEnd raw ++ after)).length -
        (strtoulIn 16 (cString (trimEnd raw ++ after))).2.length = (trimEnd raw).length →
      ∃ n ∈ digitsValue 16 (trimEnd raw), n < SIZE_UNKNOWN) :
    Result rcpt (b.processLine rcpt (trimEnd raw) after) := by
  have hempty : ¬0 < (trimEnd raw).length → trimEnd raw = [] :=
    fun hn => List.length_eq_zero_iff.1 (Nat.eq_zero_of_not_pos hn)
  rw [processLine]
  cases hat with
  | leader hstate hchunked hunknown hheaders =>
    rw [hstate]
    dsimp only
    by_cases herror : (rcpt.parseLeader (trimEnd raw) after).1 = .HE_NONE
    · rw [if_pos herror]
      refine h.live (.leader _ _ herror) rfl hbuffer ?_
      rw [← hheaders, ← hchunked]
      exact .headers rfl rfl hunknown
    · rw [if_neg herror]
      exact result_failed herror
  | headers hstate hleader hdata =>
    rw [hstate]
    dsimp only
    by_cases hpos : 0 < (trimEnd raw).length
    · rw [if_pos hpos]
      exact headerLine_sound h hstate hleader hdata hbuffer hafter (hlength hstate)
    · rw [if_neg hpos]
      exact endOfHeaders_sound h (hempty hpos) hleader hdata hbuffer
  | chunkSize hstate hchunked =>
    rw [hstate]
    dsimp only
    by_cases hpos : 0 < (trimEnd raw).length
    · rw [if_pos hpos]
      exact chunkSizeLine_sound h hchunked hbuffer hafter
        (hsize hstate (List.ne_nil_of_length_pos hpos))
    · rw [if_neg hpos]
      exact result_failed (by decide)
  | chunkTerm hstate hchunked =>
    rw [hstate]
    dsimp only
    by_cases hpos : 0 < (trimEnd raw).length
    · rw [if_pos hpos]
      exact result_failed (by decide)
    · have hstep : LineStep rcpt (.chunk 0) (trimEnd raw) .chunkSize := by
        rw [hempty hpos]
        exact .endOfChunk
      rw [if_neg hpos]
      exact h.live hstep rfl hbuffer (.chunkSize (if_pos hchunked) hchunked)
  | trailers hstate =>
    rw [hstate]
    dsimp only
    by_cases hnil : (trimEnd raw).length = 0
    · have hstep : LineStep rcpt .trailers (trimEnd raw) .complete := by
        rw [List.length_eq_zero_iff.1 hnil]
        exact .endOfTrailers
      rw [if_pos hnil]
      exact fun _ => h.delimited hstep trivial
    · rw [if_neg hnil]
      exact h.live (.trailer fun hn => hnil (by rw [hn]; rfl)) rfl hbuffer (.trailers hstate)
  | chunk hstate =>
    rw [hstate] at hline
    cases hline
  | body hstate =>
    rw [hstate] at hline
    cases hline
  | untilClose hstate =>
    rw [hstate] at hline
    cases hline

/-! ### Data that is taken -/

theorem processData_sound {text : Text} {s : Stage Leader} {len : ℕ} {write : WriteResult}
    (hreceived : b.received = text ++ b.buffer) (hreads : ReadUpTo rcpt text s) (hat : b.At s)
    (hdata : ∀ read, read ≤ len →
      ∃ s', ReadUpTo rcpt (text ++ b.buffer.take read) s' ∧ (b.dropData read).At s') :
    Result rcpt (b.processData len write) := by
  have htake : ∀ read document, read ≤ len →
      Live rcpt { b.dropData read with document := document } := by
    intro read document hread
    obtain ⟨s', hreads', hat'⟩ := hdata read hread
    refine ⟨text ++ b.buffer.take read, s', ?_, hreads', hat'.of_eq rfl rfl rfl rfl rfl⟩
    show b.received = text ++ b.buffer.take read ++ b.buffer.drop read
    rw [hreceived, List.append_assoc, List.take_append_drop]
  unfold processData
  by_cases hignore : b.ignore_data = true
  · rw [if_pos hignore]
    exact htake len b.document le_rfl
  · rw [if_neg hignore]
    cases write with
    | success written => exact htake (min written len) _ (Nat.min_le_right _ _)
    | block => exact ⟨text, s, hreceived, hreads, hat⟩
    | failure => exact result_failed (by decide)

theorem exists_dropData {text : Text} {s : Stage Leader} (hreads : ReadUpTo rcpt text s)
    (hat : b.At s)
    (hstate : b.state = .ST_DATA) {read : ℕ} (hbuffer : read ≤ b.buffer.length)
    (hread : b.data_size ≠ SIZE_UNKNOWN → read ≤ b.data_size) :
    ∃ s', ReadUpTo rcpt (text ++ b.buffer.take read) s' ∧ (b.dropData read).At s' := by
  have hlen : (b.buffer.take read).length = read := List.length_take_of_le hbuffer
  cases hat with
  | chunk _ hchunked hlt =>
    have hsize : (b.dropData read).data_size = b.data_size - read := if_pos hlt.ne
    refine ⟨_, hreads.chunk (hlen.le.trans (hread hlt.ne)), ?_⟩
    rw [hlen, ← hsize]
    exact .chunk hstate hchunked (by rw [hsize]; omega)
  | body _ hchunked hlt =>
    have hsize : (b.dropData read).data_size = b.data_size - read := if_pos hlt.ne
    refine ⟨_, hreads.body (hlen.le.trans (hread hlt.ne)), ?_⟩
    rw [hlen, ← hsize]
    exact .body hstate hchunked (by rw [hsize]; omega)
  | untilClose _ hchunked hunknown =>
    exact ⟨_, hreads.untilClose, .untilClose hstate hchunked
      ((if_neg (not_not.2 hunknown)).trans hunknown)⟩
  | leader h => rw [h] at hstate; cases hstate
  | headers h => rw [h] at hstate; cases hstate
  | chunkSize h => rw [h] at hstate; cases hstate
  | chunkTerm h => rw [h] at hstate; cases hstate
  | trailers h => rw [h] at hstate; cases hstate

/-! ### Steps -/

theorem endOfData_sound {text : Text} {s : Stage Leader} (hreceived : b.received = text ++ b.buffer)
    (hreads : ReadUpTo rcpt text s) (hat : b.At s) (hstate : b.state = .ST_DATA)
    (hzero : b.data_size = 0) {p : Processed Leader}
    (hp : (if b.chunked then some ({ b with state := .ST_CHUNKTERM }, .PR_CONTINUE, .HE_NONE)
      else some (b, ProcessResult.PR_COMPLETE, HttpError.HE_NONE)) = some p) : Result rcpt p := by
  cases hat with
  | chunk _ hchunked =>
    rw [if_pos hchunked, Option.some.injEq] at hp
    rw [hzero] at hreads
    rw [← hp]
    exact ⟨text, .chunk 0, hreceived, hreads, .chunkTerm rfl hchunked⟩
  | body _ hchunked =>
    rw [if_neg (by simp [hchunked]), Option.some.injEq] at hp
    rw [← hp]
    refine fun _ => ⟨text, b.buffer, _, hreceived, hreads, ?_⟩
    rw [hzero]
    trivial
  | untilClose _ _ hunknown => rw [hzero] at hunknown; cases hunknown
  | leader h => rw [h] at hstate; cases hstate
  | headers h => rw [h] at hstate; cases hstate
  | chunkSize h => rw [h] at hstate; cases hstate
  | chunkTerm h => rw [h] at hstate; cases hstate
  | trailers h => rw [h] at hstate; cases hstate

theorem processOnce_sound {after : Text} {write : WriteResult} (h : b.Live rcpt)
    (hplain : 10#8 ∈ b.buffer → b.Plain after) {p : Processed Leader}
    (hp : b.processOnce rcpt after write = some p) : Result rcpt p := by
  obtain ⟨text, s, hreceived, hreads, hat⟩ := h
  rw [processOnce] at hp
  by_cases hline : b.state.isLine = true
  · rw [if_pos hline] at hp
    by_cases hmem : 10#8 ∈ b.buffer
    · rw [if_pos hmem, Option.some.injEq] at hp
      obtain ⟨rest, hbuffer, hnewline, hrest⟩ := exists_line hmem
      have htaking : Taking rcpt { b with buffer := b.buffer.drop (b.rawLine.length + 1) } text s
          b.rawLine rest := by
        refine ⟨?_, hreads, hnewline⟩
        rw [← hbuffer]
        exact hreceived
      rw [← hp]
      exact processLine_sound htaking (hat.of_eq rfl rfl rfl rfl rfl) hline hrest
        (behind_beginsWithSpace hmem after) (hplain hmem).length (hplain hmem).size
    · rw [if_neg hmem] at hp
      cases hp
  · rw [if_neg hline] at hp
    have hstate : b.state = .ST_DATA := by
      cases hat with
      | chunk h => exact h
      | body h => exact h
      | untilClose h => exact h
      | leader h => exact absurd (by rw [h]; rfl) hline
      | headers h => exact absurd (by rw [h]; rfl) hline
      | chunkSize h => exact absurd (by rw [h]; rfl) hline
      | chunkTerm h => exact absurd (by rw [h]; rfl) hline
      | trailers h => exact absurd (by rw [h]; rfl) hline
    by_cases hzero : b.data_size = 0
    · -- the end of a chunk, or of the body
      rw [if_pos hzero] at hp
      exact endOfData_sound hreceived hreads hat hstate hzero hp
    · rw [if_neg hzero] at hp
      by_cases hnil : b.buffer = []
      · rw [if_pos hnil] at hp
        cases hp
      · rw [if_neg hnil, Option.some.injEq] at hp
        rw [← hp]
        refine processData_sound hreceived hreads hat fun read hread => ?_
        refine exists_dropData hreads hat hstate ?_ fun hne => ?_
        · refine hread.trans ?_
          split_ifs
          · omega
          · exact le_rfl
        · refine hread.trans ?_
          split_ifs
          · exact le_rfl
          · omega

theorem Live.withPhase (h : b.Live rcpt) (phase : Phase) :
    Live rcpt { b with phase := phase } := by
  obtain ⟨text, s, hreceived, hreads, hat⟩ := h
  exact ⟨text, s, hreceived, hreads, hat.of_eq rfl rfl rfl rfl rfl⟩

theorem Live.close (h : b.Live rcpt) (error : ℤ) :
    (b.complete (b.handleStreamClose error)).Sound rcpt := by
  obtain ⟨text, s, hreceived, hreads, hat⟩ := h
  intro hnone
  have hvalid : b.state = .ST_DATA ∧ b.data_size = SIZE_UNKNOWN := by
    rw [handleStreamClose] at hnone
    split_ifs at hnone with _ hend
    rwa [isValidEndOfInput, Bool.and_eq_true, decide_eq_true_iff, decide_eq_true_iff] at hend
  refine ⟨text, b.buffer, s, hreceived, hreads, ?_⟩
  cases hat with
  | untilClose => trivial
  | chunk _ _ hlt => exact absurd hvalid.2 hlt.ne
  | body _ _ hlt => exact absurd hvalid.2 hlt.ne
  | leader h => rw [h] at hvalid; cases hvalid.1
  | headers h => rw [h] at hvalid; cases hvalid.1
  | chunkSize h => rw [h] at hvalid; cases hvalid.1
  | chunkTerm h => rw [h] at hvalid; cases hvalid.1
  | trailers h => rw [h] at hvalid; cases hvalid.1

theorem sound_complete {error : HttpError} (h : error ≠ .HE_NONE) :
    (b.complete error).Sound rcpt := fun heq => absurd heq h

theorem Live.read (h : b.Live rcpt) (loop_count : ℕ) (more : Bool) (result : ReadResult) :
    (b.read loop_count more result).Sound rcpt := by
  unfold HttpBase.read
  by_cases hroom : b.buffer.length < kBufferSize
  · rw [if_pos hroom]
    cases result with
    | success bytes =>
      obtain ⟨text, s, hreceived, hreads, hat⟩ := h
      refine ⟨text, s, ?_, hreads, hat.of_eq rfl rfl rfl rfl rfl⟩
      dsimp only
      rw [hreceived, List.append_assoc]
    | block =>
      dsimp only
      split_ifs
      · exact h.withPhase _
      · exact h.withPhase _
    | eos => exact h.close 0
    | error read_error => exact h.close read_error
  · rw [if_neg hroom]
    split_ifs
    · exact sound_complete (by decide)
    · exact h.withPhase _

theorem Live.process (h : b.Live rcpt) (loop_count : ℕ) {after : Text} {write : WriteResult}
    (hplain : 10#8 ∈ b.buffer → b.Plain after) :
    (b.process rcpt loop_count after write).Sound rcpt := by
  rw [HttpBase.process]
  cases honce : b.processOnce rcpt after write with
  | none =>
    rw [requireMore]
    dsimp only
    split_ifs
    · exact h.withPhase _
    · exact h.withPhase _
  | some p =>
    have hresult := processOnce_sound h hplain honce
    obtain ⟨b', result, error⟩ := p
    cases result with
    | PR_CONTINUE => exact Live.withPhase hresult _
    | PR_BLOCK => exact Live.withPhase hresult _
    | PR_COMPLETE => exact fun heq => hresult heq

end HttpBase

end Jingle.Base.Http
