/-
The circular buffer between a writer and a reader.

The data is at `read_position` and after it, around the end of the storage.  Events are
posted to the owner when a full buffer has room and when an empty one has data.

Sums of positions stay far below the end of `size_t`, since the storage is in memory.
The storage of a buffer is what was there before: it is given to `init` and to
`setCapacity`.  A call is undefined where the source asserts the contrary and where it
divides by a capacity of 0.
-/
import Jingle.Lib.Ring

namespace Jingle.Base

inductive StreamState
  | closed
  | opening
  | open
  deriving DecidableEq

inductive StreamResult
  | error
  | success
  | block
  | eos
  deriving DecidableEq

inductive StreamEvent
  | open
  | read
  | write
  | close
  deriving DecidableEq

structure FifoBuffer where
  state : StreamState
  buffer : Mem
  buffer_length : ℕ
  data_length : ℕ
  read_position : ℕ
  /-- What was posted to the owner. -/
  posted : List StreamEvent

namespace FifoBuffer

def init (size : ℕ) (storage : Mem) : FifoBuffer where
  state := .open
  buffer := storage
  buffer_length := size
  data_length := 0
  read_position := 0
  posted := []

def postEvent (b : FifoBuffer) (e : StreamEvent) : FifoBuffer := { b with posted := b.posted ++ [e] }

def getBuffered (b : FifoBuffer) : ℕ := b.data_length

def setCapacity (b : FifoBuffer) (size : ℕ) (storage : Mem) : Bool × FifoBuffer :=
  if b.data_length > size then (false, b)
  else if size ≠ b.buffer_length then
    let copy := b.data_length
    let tail_copy := min copy (b.buffer_length - b.read_position)
    let buffer := (storage.write 0 (b.buffer.read b.read_position tail_copy)).write tail_copy
      (b.buffer.read 0 (copy - tail_copy))
    (true, { b with buffer := buffer, read_position := 0, buffer_length := size })
  else (true, b)

def read (b : FifoBuffer) (bytes : ℕ) : StreamResult × List Byte × FifoBuffer :=
  let available := b.data_length
  if available = 0 then (if b.state ≠ .closed then .block else .eos, [], b)
  else
    let was_writable := b.data_length < b.buffer_length
    let copy := min bytes available
    let tail_copy := min copy (b.buffer_length - b.read_position)
    let p := b.buffer.read b.read_position tail_copy ++ b.buffer.read 0 (copy - tail_copy)
    let b := { b with
      read_position := (b.read_position + copy) % b.buffer_length
      data_length := b.data_length - copy }
    (.success, p, if ¬was_writable ∧ copy > 0 then b.postEvent .write else b)

def write (b : FifoBuffer) (p : List Byte) : StreamResult × ℕ × FifoBuffer :=
  if b.state = .closed then (.eos, 0, b)
  else
    let available := b.buffer_length - b.data_length
    if available = 0 then (.block, 0, b)
    else
      let was_readable := b.data_length > 0
      let write_position := (b.read_position + b.data_length) % b.buffer_length
      let copy := min p.length available
      let tail_copy := min copy (b.buffer_length - write_position)
      let b := { b with
        buffer := (b.buffer.write write_position (p.take tail_copy)).write 0
          ((p.drop tail_copy).take (copy - tail_copy))
        data_length := b.data_length + copy }
      (.success, copy, if ¬was_readable ∧ copy > 0 then b.postEvent .read else b)

def close (b : FifoBuffer) : FifoBuffer := { b with state := .closed }

/-- The data that is read without a copy. -/
def getReadData (b : FifoBuffer) : List Byte :=
  b.buffer.read b.read_position
    (if b.read_position + b.data_length ≤ b.buffer_length then b.data_length
    else b.buffer_length - b.read_position)

def consumeReadData (b : FifoBuffer) (size : ℕ) : Option FifoBuffer :=
  if size ≤ b.data_length ∧ b.buffer_length ≠ 0 then
    let was_writable := b.data_length < b.buffer_length
    let b := { b with
      read_position := (b.read_position + size) % b.buffer_length
      data_length := b.data_length - size }
    some (if ¬was_writable ∧ size > 0 then b.postEvent .write else b)
  else none

/-- The place at which data is written without a copy, and how much of it there is. -/
def getWriteBuffer (b : FifoBuffer) : Option (Option (ℕ × ℕ) × FifoBuffer) :=
  if b.state = .closed then some (none, b)
  else if b.buffer_length = 0 then none
  else
    let b := if b.data_length = 0 then { b with read_position := 0 } else b
    let write_position := (b.read_position + b.data_length) % b.buffer_length
    let size := if write_position ≥ b.read_position then b.buffer_length - write_position
      else b.read_position - write_position
    some (some (write_position, size), b)

def consumeWriteBuffer (b : FifoBuffer) (size : ℕ) : Option FifoBuffer :=
  if size ≤ b.buffer_length - b.data_length then
    let was_readable := b.data_length > 0
    let b := { b with data_length := b.data_length + size }
    some (if ¬was_readable ∧ size > 0 then b.postEvent .read else b)
  else none

end FifoBuffer

/-- The calls of a reader and a writer. -/
inductive FifoOp
  | read (bytes : ℕ)
  | write (p : List Byte)
  | setCapacity (size : ℕ) (storage : Mem)
  | getBuffered
  | getReadData
  | consumeReadData (size : ℕ)
  | close
  | getWriteBuffer
  /-- The writer stores data in the storage. -/
  | fill (position : ℕ) (p : List Byte)
  | consumeWriteBuffer (size : ℕ)

/-- What a call returns. -/
inductive FifoReply
  | read (result : StreamResult) (data : List Byte)
  | write (result : StreamResult) (bytes_written : ℕ)
  | setCapacity (ok : Bool)
  | buffered (size : ℕ)
  | readData (data : List Byte)
  | writeBuffer (place : Option (ℕ × ℕ))
  | done

namespace FifoBuffer

/-- A call, where it is defined. -/
def step (b : FifoBuffer) : FifoOp → Option (FifoReply × FifoBuffer)
  | .read bytes => some (.read (b.read bytes).1 (b.read bytes).2.1, (b.read bytes).2.2)
  | .write p => some (.write (b.write p).1 (b.write p).2.1, (b.write p).2.2)
  | .setCapacity size storage =>
    some (.setCapacity (b.setCapacity size storage).1, (b.setCapacity size storage).2)
  | .getBuffered => some (.buffered b.getBuffered, b)
  | .getReadData => some (.readData b.getReadData, b)
  | .consumeReadData size => (b.consumeReadData size).map fun b => (.done, b)
  | .close => some (.done, b.close)
  | .getWriteBuffer => b.getWriteBuffer.map fun r => (.writeBuffer r.1, r.2)
  | .fill position p =>
    if position + p.length ≤ b.buffer_length then
      some (.done, { b with buffer := b.buffer.write position p })
    else none
  | .consumeWriteBuffer size => (b.consumeWriteBuffer size).map fun b => (.done, b)

def run (b : FifoBuffer) : List FifoOp → Option (List FifoReply × FifoBuffer)
  | [] => some ([], b)
  | op :: ops => (b.step op).bind fun r => (r.2.run ops).map fun s => (r.1 :: s.1, s.2)

theorem run_cons {b b' : FifoBuffer} {op : FifoOp} {ops : List FifoOp} {replies : List FifoReply}
    (hr : b.run (op :: ops) = some (replies, b')) : ∃ reply rest c,
      b.step op = some (reply, c) ∧ c.run ops = some (rest, b') ∧ replies = reply :: rest := by
  obtain ⟨r, hstep, hrest⟩ := Option.bind_eq_some_iff.mp hr
  obtain ⟨s, hrun, heq⟩ := Option.map_eq_some_iff.mp hrest
  obtain ⟨rfl, rfl⟩ := Prod.mk.inj heq
  exact ⟨r.1, s.1, r.2, hstep, hrun, rfl⟩

end FifoBuffer

end Jingle.Base
