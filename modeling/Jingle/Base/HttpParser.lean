/-
The receiving side of HTTP.

`HttpParser` takes lines until the headers are complete, and then data: as much as the headers
declare, chunk by chunk, or until the stream ends.  `HttpBase` fills its buffer from the stream,
has the parser process what is there, and writes the data to the document.  The size that is
not known is the greatest number that a size can be.

A receiver goes on in steps: an event begins the loop of `DoReceiveLoop`, which then reads once
and has the parser process line by line and piece by piece.  The functions that read a number
from a line do not know where it ends: what stands behind it in memory is part of a step.
-/
import Jingle.Base.HttpAttributes
import Jingle.Lib.Reach

namespace Jingle.Base.Http

open Numeral

/-! ### Parts -/

inductive HttpError where
  | HE_NONE | HE_PROTOCOL | HE_DISCONNECTED | HE_OVERFLOW | HE_CONNECT_FAILED | HE_SOCKET_ERROR
  | HE_SHUTDOWN | HE_OPERATION_CANCELLED | HE_AUTH | HE_CERTIFICATE_EXPIRED | HE_STREAM
  | HE_CACHE | HE_DEFAULT
  deriving DecidableEq

inductive ProcessResult where
  | PR_CONTINUE | PR_BLOCK | PR_COMPLETE
  deriving DecidableEq

/-- `State` of a parser. -/
inductive ParserState where
  | ST_LEADER | ST_HEADERS | ST_CHUNKSIZE | ST_CHUNKTERM | ST_TRAILERS | ST_DATA | ST_COMPLETE
  deriving DecidableEq

/-- `state_ < ST_DATA`. -/
def ParserState.isLine : ParserState → Bool
  | ST_DATA => false
  | ST_COMPLETE => false
  | _ => true

def SIZE_UNKNOWN : ℕ := 2 ^ 64 - 1

def kBufferSize : ℕ := 32 * 1024

def kMaxReadCount : ℕ := 20

/-- What an observer does when the headers are complete: it may change the size, have the data
ignored (as they are without a document), and open or close the stream of the document. -/
structure HeaderAnswer where
  error : HttpError
  data_size : ℕ
  ignore_data : Bool
  new_stream : Bool
  size_le : data_size ≤ SIZE_UNKNOWN

/-- What a receiver is for: its data, whose `parseLeader` makes a leader of a line and what
stands behind it, and its observer. -/
structure Recipient (Leader : Type) where
  parseLeader : Text → Text → HttpError × Leader
  onHttpHeaderComplete : Option Leader → List (Text × Text) → Bool → ℕ → HeaderAnswer

/-- Where a receiver is: between two events, in its loop before it reads, in `Process`, or
complete. -/
inductive Phase where
  | waiting
  | reading (loop_count : ℕ) (process_requires_more_data : Bool)
  | processing (loop_count : ℕ)
  | completed (error : HttpError)
  deriving DecidableEq

/-- `HttpBase` that receives, with its parser; the leader, what was given to `addHeader` and to
the document, and what was read from the stream. -/
structure HttpBase (Leader : Type) where
  state : ParserState
  chunked : Bool
  data_size : ℕ
  buffer : Text
  ignore_data : Bool
  leader : Option Leader
  headers : List (Text × Text)
  document : Text
  received : Text
  phase : Phase

/-- What `Read` of the stream returns. -/
inductive ReadResult where
  | success (bytes : Text)
  | block
  | eos
  | error (read_error : ℤ)

/-- What `Write` of the document returns. -/
inductive WriteResult where
  | success (written : ℕ)
  | block
  | failure
  deriving DecidableEq

/-! ### Lines -/

/-- A line without the white space at its end. -/
def trimEnd (s : Text) : Text := (s.reverse.dropWhile isSpace).reverse

def matchHeader (name header : Text) : Bool := name.map toLower = header.map toLower

/-- The name and the value of a header line: nothing without a colon before a zero byte. -/
def splitHeader (line : Text) : Option (Text × Text) :=
  let name := line.takeWhile (fun b => b ≠ 58#8 && b ≠ 0#8)
  if (line.drop name.length).head? = some 58#8 then
    some (name, (line.drop (name.length + 1)).dropWhile isSpace)
  else none

/-- The result of a parser's function, with the error. -/
abbrev Processed (Leader : Type) := HttpBase Leader × ProcessResult × HttpError

namespace HttpBase

variable {Leader : Type} (rcpt : Recipient Leader) (b : HttpBase Leader)

def processHeader (name value : Text) : Processed Leader :=
  ({ b with headers := b.headers ++ [(name, value)] }, .PR_CONTINUE, .HE_NONE)

def processHeaderComplete : Processed Leader :=
  let answer := rcpt.onHttpHeaderComplete b.leader b.headers b.chunked b.data_size
  ({ b with data_size := answer.data_size, ignore_data := answer.ignore_data },
    if answer.error ≠ .HE_NONE then .PR_COMPLETE
    else if answer.new_stream then .PR_BLOCK else .PR_CONTINUE, answer.error)

/-- A header line of the parser; `after` stands behind the line. -/
def headerLine (line after : Text) : Processed Leader :=
  match splitHeader line with
  | none => (b, .PR_COMPLETE, .HE_PROTOCOL)
  | some (name, value) =>
    if matchHeader name (textBytes "Content-Length") then
      match scanUnsigned (cString (value ++ after)) with
      | none => (b, .PR_COMPLETE, .HE_PROTOCOL)
      | some (temp_size, _) => { b with data_size := temp_size }.processHeader name value
    else if matchHeader name (textBytes "Transfer-Encoding") then
      if matchHeader value (textBytes "chunked") then
        { b with chunked := true }.processHeader name value
      else if matchHeader value (textBytes "identity") then
        { b with chunked := false }.processHeader name value
      else (b, .PR_COMPLETE, .HE_PROTOCOL)
    else b.processHeader name value

/-- The line of a chunk's size. -/
def chunkSizeLine (line after : Text) : Processed Leader :=
  let text := cString (line ++ after)
  let read := strtoulIn 16 text
  if text.length - read.2.length ≠ line.length then
    ({ b with data_size := read.1 }, .PR_COMPLETE, .HE_PROTOCOL)
  else
    ({ b with data_size := read.1, state := if read.1 = 0 then .ST_TRAILERS else .ST_DATA },
      .PR_CONTINUE, .HE_NONE)

def processLine (line after : Text) : Processed Leader :=
  match b.state with
  | .ST_LEADER =>
    let parsed := rcpt.parseLeader line after
    ({ b with state := .ST_HEADERS, leader := some parsed.2 },
      if parsed.1 = .HE_NONE then .PR_CONTINUE else .PR_COMPLETE, parsed.1)
  | .ST_HEADERS =>
    if 0 < line.length then b.headerLine line after
    else
      { b with state := if b.chunked then .ST_CHUNKSIZE else .ST_DATA }.processHeaderComplete rcpt
  | .ST_CHUNKSIZE =>
    if 0 < line.length then b.chunkSizeLine line after else (b, .PR_COMPLETE, .HE_PROTOCOL)
  | .ST_CHUNKTERM =>
    if 0 < line.length then (b, .PR_COMPLETE, .HE_PROTOCOL)
    else
      ({ b with state := if b.chunked then .ST_CHUNKSIZE else .ST_DATA }, .PR_CONTINUE, .HE_NONE)
  | .ST_TRAILERS =>
    if line.length = 0 then (b, .PR_COMPLETE, .HE_NONE) else (b, .PR_CONTINUE, .HE_NONE)
  | .ST_DATA => (b, .PR_CONTINUE, .HE_NONE)
  | .ST_COMPLETE => (b, .PR_CONTINUE, .HE_NONE)

/-! ### Data -/

/-- Data of the buffer that was read. -/
def dropData (read : ℕ) : HttpBase Leader :=
  { b with
    buffer := b.buffer.drop read
    data_size := if b.data_size ≠ SIZE_UNKNOWN then b.data_size - read else b.data_size }

/-- `ProcessData` of the first bytes of the buffer, which are taken as far as they were read. -/
def processData (len : ℕ) (write : WriteResult) : Processed Leader :=
  if b.ignore_data then (b.dropData len, .PR_CONTINUE, .HE_NONE)
  else
    match write with
    | .success written =>
      ({ b.dropData (min written len) with
          document := b.document ++ b.buffer.take (min written len) }, .PR_CONTINUE, .HE_NONE)
    | .block => (b, .PR_BLOCK, .HE_NONE)
    | .failure => (b, .PR_COMPLETE, .HE_STREAM)

/-- A line of the buffer. -/
def rawLine : Text := b.buffer.takeWhile (· ≠ 10#8)

/-- The line as the parser takes it. -/
def lineOf : Text := trimEnd b.rawLine

/-- What stands behind the line in memory; `after` is what stands behind the buffer. -/
def behind (after : Text) : Text := b.buffer.drop b.lineOf.length ++ after

/-- One round of the loop of `Process`, or nothing when more data is required. -/
def processOnce (after : Text) (write : WriteResult) : Option (Processed Leader) :=
  if b.state.isLine then
    if 10#8 ∈ b.buffer then
      some ({ b with buffer := b.buffer.drop (b.rawLine.length + 1) }.processLine rcpt b.lineOf
        (b.behind after))
    else none
  else if b.data_size = 0 then
    if b.chunked then some ({ b with state := .ST_CHUNKTERM }, .PR_CONTINUE, .HE_NONE)
    else some (b, .PR_COMPLETE, .HE_NONE)
  else if b.buffer = [] then none
  else
    let available :=
      if b.data_size ≠ SIZE_UNKNOWN ∧ b.data_size < b.buffer.length then b.data_size
      else b.buffer.length
    some (b.processData available write)

/-! ### The loop -/

def complete (error : HttpError) : HttpBase Leader :=
  { b with state := .ST_COMPLETE, phase := .completed error }

def isValidEndOfInput : Bool := b.state = .ST_DATA && b.data_size = SIZE_UNKNOWN

def handleStreamClose (error : ℤ) : HttpError :=
  if error = 0 then if b.isValidEndOfInput then .HE_NONE else .HE_DISCONNECTED
  else if error = 13 then .HE_AUTH
  else if error = -2146893016 then .HE_CERTIFICATE_EXPIRED
  else .HE_SOCKET_ERROR

/-- The end of a round of `DoReceiveLoop` that requires more data. -/
def requireMore (loop_count : ℕ) : HttpBase Leader :=
  { b with
    phase := if loop_count + 1 ≤ kMaxReadCount then .reading (loop_count + 1) true else .waiting }

/-- The beginning of a round: the buffer is filled, if it has room. -/
def read (loop_count : ℕ) (process_requires_more_data : Bool) (result : ReadResult) :
    HttpBase Leader :=
  if b.buffer.length < kBufferSize then
    match result with
    | .success bytes =>
      let bytes := bytes.take (kBufferSize - b.buffer.length)
      { b with
        buffer := b.buffer ++ bytes
        received := b.received ++ bytes
        phase := .processing loop_count }
    | .block =>
      if process_requires_more_data then { b with phase := .waiting }
      else { b with phase := .processing loop_count }
    | .eos => b.complete (b.handleStreamClose 0)
    | .error read_error => b.complete (b.handleStreamClose read_error)
  else if process_requires_more_data then b.complete .HE_OVERFLOW
  else { b with phase := .processing loop_count }

/-- One round of `Process`, in a round of the loop. -/
def process (loop_count : ℕ) (after : Text) (write : WriteResult) : HttpBase Leader :=
  match b.processOnce rcpt after write with
  | none => b.requireMore loop_count
  | some (b', .PR_CONTINUE, _) => { b' with phase := .processing loop_count }
  | some (b', .PR_BLOCK, _) => { b' with phase := .waiting }
  | some (b', .PR_COMPLETE, error) => b'.complete error

/-! ### Steps -/

/-- What happens to a receiver. -/
inductive Event where
  /-- `recv`, or an event that the stream has data or the document takes it. -/
  | go
  /-- `Read` of the stream. -/
  | read (result : ReadResult)
  /-- A round of `Process`. -/
  | process (after : Text) (write : WriteResult)
  /-- The event that the stream is closed. -/
  | close (error : ℤ)
  /-- The event that the document is closed. -/
  | documentClose

/-- One step; an event that does not happen here changes nothing. -/
def step (e : Event) : HttpBase Leader :=
  match b.phase, e with
  | .waiting, .go => { b with phase := .reading 0 false }
  | .waiting, .close error => b.complete (b.handleStreamClose error)
  | .waiting, .documentClose => b.complete .HE_STREAM
  | .reading loop_count more, .read result => b.read loop_count more result
  | .processing loop_count, .process after write => b.process rcpt loop_count after write
  | _, _ => b

def recv : HttpBase Leader where
  state := .ST_LEADER
  chunked := false
  data_size := SIZE_UNKNOWN
  buffer := []
  ignore_data := false
  leader := none
  headers := []
  document := []
  received := []
  phase := .waiting

/-- The receiver after some steps. -/
def run (es : List Event) : HttpBase Leader := es.foldl (fun b e => b.step rcpt e) b

/-! ### A message -/

/-- A recipient that takes any leader and changes nothing. -/
def plainRecipient : Recipient Text where
  parseLeader line _ := (.HE_NONE, line)
  onHttpHeaderComplete _ _ _ size :=
    ⟨.HE_NONE, min size SIZE_UNKNOWN, false, false, min_le_right _ _⟩

/-- A text is read and processed in so many rounds. -/
def readAll (text : Text) (rounds : ℕ) : List Event :=
  [.go, .read (.success text)] ++ List.replicate rounds (.process [] (.success 1))

/-- A body of one byte. -/
def oneByte : Text := textBytes "\nContent-Length:1\n\nx"

/-! ### Lines of the buffer -/

variable {b}

theorem trimEnd_append (s : Text) : ∃ space, s = trimEnd s ++ space ∧
    ∀ c ∈ space, isSpace c = true := by
  refine ⟨(s.reverse.takeWhile isSpace).reverse, ?_, ?_⟩
  · rw [trimEnd, ← List.reverse_append, List.takeWhile_append_dropWhile, List.reverse_reverse]
  · intro c hc
    exact List.mem_takeWhile_imp (List.mem_reverse.1 hc)

theorem eq_takeWhile_of_line {raw rest text : Text} (hraw : 10#8 ∉ raw)
    (h : raw ++ 10#8 :: rest = text) :
    raw = text.takeWhile (· ≠ 10#8) ∧ rest = text.drop (raw.length + 1) := by
  rw [← h]
  constructor
  · refine Eq.symm ((List.takeWhile_append_of_pos fun c hc => ?_).trans (by simp))
    simpa using ne_of_mem_of_not_mem hc hraw
  · rw [List.append_cons]
    exact (List.drop_left' (by simp)).symm

theorem exists_line (h : 10#8 ∈ b.buffer) : ∃ rest,
    b.buffer = b.rawLine ++ 10#8 :: rest ∧ 10#8 ∉ b.rawLine ∧
      b.buffer.drop (b.rawLine.length + 1) = rest := by
  obtain ⟨raw, rest, heq, hraw⟩ := List.eq_append_cons_of_mem h
  obtain ⟨hline, hrest⟩ := eq_takeWhile_of_line hraw heq.symm
  rw [hline] at heq hrest hraw
  exact ⟨rest, heq, hraw, hrest.symm⟩

theorem behind_beginsWithSpace (h : 10#8 ∈ b.buffer) (after : Text) :
    BeginsWithSpace (b.behind after) := by
  obtain ⟨space, hraw, hspace⟩ := trimEnd_append b.rawLine
  obtain ⟨rest, hbuffer, -, -⟩ := exists_line h
  have hbehind : b.behind after = space ++ 10#8 :: rest ++ after := by
    have hsplit : b.buffer = b.lineOf ++ (space ++ 10#8 :: rest) := by
      rw [lineOf, ← List.append_assoc, ← hraw]
      exact hbuffer
    have hdrop := congrArg (List.drop b.lineOf.length) hsplit
    rw [List.drop_left' rfl] at hdrop
    rw [behind, hdrop]
  rw [hbehind]
  intro c hc
  obtain _ | ⟨d, space⟩ := space
  · obtain rfl : 10#8 = c := by simpa using hc
    decide
  · obtain rfl : d = c := by simpa using hc
    exact hspace d List.mem_cons_self

end HttpBase

end Jingle.Base.Http
