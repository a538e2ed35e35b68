/-
The byte buffer.

The contents are between `start` and `end_` of the storage; a write that does not fit
moves them to another one, which may be smaller.  `host` is the byte order of the machine
and `storage` what is in new storage.  A number is in the memory of the machine as
`hostBytes`, and is changed to network order and back by `hostToNetwork` and
`networkToHost`.

* `encode_eq` — the bytes of a typed write, in the order of the buffer.
* `step_refines` — **an operation is one of a queue of bytes**.
* `refines_bytes` — what holds in every state of a run, and what is read back.
-/
import Jingle.Lib.Endian
import Jingle.Lib.Ring

namespace Jingle.Base

inductive Endian
  | little
  | big
  deriving DecidableEq

/-- A number in memory. -/
def hostBytes (host : Endian) (n v : ℕ) : List Byte :=
  match host with
  | .little => leBytes n v
  | .big => beBytes n v

def ofHost (host : Endian) (bs : List Byte) : ℕ :=
  match host with
  | .little => ofLe bs
  | .big => ofBe bs

/-- A number of `n` bytes whose memory is the number in network order. -/
def hostToNetwork (host : Endian) (n v : ℕ) : ℕ := ofHost host (beBytes n v)

def networkToHost (host : Endian) (n v : ℕ) : ℕ := ofBe (hostBytes host n v)

inductive ByteOrder
  | network
  | host
  deriving DecidableEq

structure ByteBuffer where
  bytes : Mem
  size : ℕ
  start : ℕ
  end_ : ℕ
  byte_order : ByteOrder

namespace ByteBuffer

def construct (bytes : Option (List Byte)) (len : ℕ) (byte_order : ByteOrder) (storage : Mem) :
    ByteBuffer :=
  match bytes with
  | some bs => ⟨storage.write 0 bs, bs.length, 0, bs.length, byte_order⟩
  | none => ⟨storage, len, 0, 0, byte_order⟩

def length (b : ByteBuffer) : ℕ := b.end_ - b.start

def capacity (b : ByteBuffer) : ℕ := b.size - b.start

/-! ### Raw operations -/

def readBytes (b : ByteBuffer) (len : ℕ) : Option (List Byte × ByteBuffer) :=
  if len > b.length then none
  else some (b.bytes.read b.start len, { b with start := b.start + len })

/-- `ReadString`, of what is appended. -/
def readString (b : ByteBuffer) (len : ℕ) : Option (List Byte × ByteBuffer) :=
  if len > b.length then none
  else some (b.bytes.read b.start len, { b with start := b.start + len })

def resize (b : ByteBuffer) (size : ℕ) (storage : Mem) : ByteBuffer :=
  let size := if size > b.size then max size (3 * b.size / 2) else size
  let len := min (b.end_ - b.start) size
  { b with bytes := storage.write 0 (b.bytes.read b.start len), size := size, start := 0, end_ := len }

def writeBytes (b : ByteBuffer) (val : List Byte) (storage : Mem) : ByteBuffer :=
  let b := if b.length + val.length > b.capacity then b.resize (b.length + val.length) storage
    else b
  { b with bytes := b.bytes.write b.end_ val, end_ := b.end_ + val.length }

def writeString (b : ByteBuffer) (val : List Byte) (storage : Mem) : ByteBuffer :=
  b.writeBytes val storage

def consume (b : ByteBuffer) (size : ℕ) : ByteBuffer :=
  if size > b.length then b else { b with start := b.start + size }

def shift (b : ByteBuffer) (size : ℕ) : ByteBuffer :=
  if size > b.length then b
  else
    { b with
      bytes := b.bytes.move (b.start + size) (b.length - size)
      start := 0
      end_ := b.length - size }

/-! ### Typed operations -/

section Typed

variable (host : Endian)

/-- A number of `n` bytes, read into one of `m`. -/
def readUInt (m n : ℕ) (b : ByteBuffer) : Option (ℕ × ByteBuffer) :=
  (b.readBytes n).map fun r =>
    let v := ofHost host
      (if b.byte_order = .network ∨ host = .big then List.replicate (m - n) 0 ++ r.1
      else r.1 ++ List.replicate (m - n) 0)
    (if b.byte_order = .network then networkToHost host m v else v, r.2)

def readUInt8 (b : ByteBuffer) : Option (ℕ × ByteBuffer) :=
  (b.readBytes 1).map fun r => (ofHost host r.1, r.2)
def readUInt16 (b : ByteBuffer) : Option (ℕ × ByteBuffer) := b.readUInt host 2 2
def readUInt24 (b : ByteBuffer) : Option (ℕ × ByteBuffer) := b.readUInt host 4 3
def readUInt32 (b : ByteBuffer) : Option (ℕ × ByteBuffer) := b.readUInt host 4 4
def readUInt64 (b : ByteBuffer) : Option (ℕ × ByteBuffer) := b.readUInt host 8 8

/-- `n` bytes of a number of `m`. -/
def writeUInt (m n : ℕ) (b : ByteBuffer) (val : ℕ) (storage : Mem) : ByteBuffer :=
  let v := if b.byte_order = .network then hostToNetwork host m val else val
  let start := if b.byte_order = .network ∨ host = .big then m - n else 0
  b.writeBytes (((hostBytes host m v).drop start).take n) storage

def writeUInt8 (b : ByteBuffer) (val : ℕ) (storage : Mem) : ByteBuffer :=
  b.writeBytes (hostBytes host 1 val) storage
def writeUInt16 (b : ByteBuffer) (val : ℕ) (storage : Mem) : ByteBuffer :=
  b.writeUInt host 2 2 val storage
def writeUInt24 (b : ByteBuffer) (val : ℕ) (storage : Mem) : ByteBuffer :=
  b.writeUInt host 4 3 val storage
def writeUInt32 (b : ByteBuffer) (val : ℕ) (storage : Mem) : ByteBuffer :=
  b.writeUInt host 4 4 val storage
def writeUInt64 (b : ByteBuffer) (val : ℕ) (storage : Mem) : ByteBuffer :=
  b.writeUInt host 8 8 val storage

end Typed

end ByteBuffer

/-- The types of numbers. -/
inductive NumberType
  | uint8
  | uint16
  | uint24
  | uint32
  | uint64
  deriving DecidableEq

/-- How many bytes a number has in the buffer. -/
def NumberType.width : NumberType → ℕ
  | .uint8 => 1
  | .uint16 => 2
  | .uint24 => 3
  | .uint32 => 4
  | .uint64 => 8

/-- What is written or read at once. -/
inductive BufferItem
  | number (type : NumberType) (val : ℕ)
  | string (val : List Byte)
  | bytes (val : List Byte)
  deriving DecidableEq

inductive BufferOp
  | readNumber (type : NumberType)
  | readString (len : ℕ)
  | readBytes (len : ℕ)
  | write (item : BufferItem)
  | resize (size : ℕ)
  | consume (size : ℕ)
  | shift (size : ℕ)

namespace ByteBuffer

variable (host : Endian) (storage : Mem)

def readNumber (b : ByteBuffer) : NumberType → Option (ℕ × ByteBuffer)
  | .uint8 => b.readUInt8 host
  | .uint16 => b.readUInt16 host
  | .uint24 => b.readUInt24 host
  | .uint32 => b.readUInt32 host
  | .uint64 => b.readUInt64 host

def writeNumber (b : ByteBuffer) (val : ℕ) : NumberType → ByteBuffer
  | .uint8 => b.writeUInt8 host val storage
  | .uint16 => b.writeUInt16 host val storage
  | .uint24 => b.writeUInt24 host val storage
  | .uint32 => b.writeUInt32 host val storage
  | .uint64 => b.writeUInt64 host val storage

def writeItem (b : ByteBuffer) : BufferItem → ByteBuffer
  | .number type val => b.writeNumber host storage val type
  | .string val => b.writeString val storage
  | .bytes val => b.writeBytes val storage

/-- A read leaves the buffer as it is where it fails. -/
def answer {α : Type} (b : ByteBuffer) (f : α → BufferItem) :
    Option (α × ByteBuffer) → Option BufferItem × ByteBuffer
  | some (v, b') => (some (f v), b')
  | none => (none, b)

/-- An operation, and what it has read. -/
def step (b : ByteBuffer) : BufferOp → Option BufferItem × ByteBuffer
  | .readNumber type => b.answer (.number type) (b.readNumber host type)
  | .readString len => b.answer .string (b.readString len)
  | .readBytes len => b.answer .bytes (b.readBytes len)
  | .write item => (none, b.writeItem host storage item)
  | .resize size => (none, b.resize size storage)
  | .consume size => (none, b.consume size)
  | .shift size => (none, b.shift size)

def run (b : ByteBuffer) : List BufferOp → List (Option BufferItem) × ByteBuffer
  | [] => ([], b)
  | op :: ops =>
    let r := b.step host storage op
    let s := r.2.run ops
    (r.1 :: s.1, s.2)

/-! ### The queue of bytes -/

end ByteBuffer

/-- Whether the highest byte of a number comes first. -/
def HighFirst (host : Endian) (byte_order : ByteOrder) : Prop :=
  byte_order = .network ∨ host = .big

instance (host : Endian) (byte_order : ByteOrder) : Decidable (HighFirst host byte_order) :=
  inferInstanceAs (Decidable (_ ∨ _))

def encode (host : Endian) (byte_order : ByteOrder) (n v : ℕ) : List Byte :=
  if HighFirst host byte_order then beBytes n v else leBytes n v

def decode (host : Endian) (byte_order : ByteOrder) (bs : List Byte) : ℕ :=
  if HighFirst host byte_order then ofBe bs else ofLe bs

namespace BufferItem

/-- The bytes of an item, -/
def encoded (host : Endian) (byte_order : ByteOrder) : BufferItem → List Byte
  | number type val => encode host byte_order type.width val
  | string val => val
  | bytes val => val

/-- and the operation that reads it. -/
def reading : BufferItem → BufferOp
  | number type _ => .readNumber type
  | string val => .readString val.length
  | bytes val => .readBytes val.length

/-- Nothing of the number is cut off. -/
def Fits : BufferItem → Prop
  | number type val => val < 256 ^ type.width
  | _ => True

end BufferItem

/-- The front of a queue, if it is as long. -/
def takeFront (contents : List Byte) (n : ℕ) (f : List Byte → BufferItem) :
    Option BufferItem × List Byte :=
  if n > contents.length then (none, contents) else (some (f (contents.take n)), contents.drop n)

def dropFront (contents : List Byte) (n : ℕ) : List Byte :=
  if n > contents.length then contents else contents.drop n

/-- An operation on the bytes of a buffer. -/
def queueStep (host : Endian) (byte_order : ByteOrder) (contents : List Byte) :
    BufferOp → Option BufferItem × List Byte
  | .readNumber type =>
    takeFront contents type.width fun bs => .number type (decode host byte_order bs)
  | .readString len => takeFront contents len .string
  | .readBytes len => takeFront contents len .bytes
  | .write item => (none, contents ++ item.encoded host byte_order)
  | .resize size => (none, contents.take size)
  | .consume size => (none, dropFront contents size)
  | .shift size => (none, dropFront contents size)

def queueRun (host : Endian) (byte_order : ByteOrder) (contents : List Byte) :
    List BufferOp → List (Option BufferItem) × List Byte
  | [] => ([], contents)
  | op :: ops =>
    let r := queueStep host byte_order contents op
    let s := queueRun host byte_order r.2 ops
    (r.1 :: s.1, s.2)

namespace ByteBuffer

variable {host storage} {b : ByteBuffer}

def contents (b : ByteBuffer) : List Byte := b.bytes.read b.start (b.end_ - b.start)

@[simp] theorem length_contents (b : ByteBuffer) : b.contents.length = b.length :=
  Mem.length_read ..

/-- The contents are in the storage. -/
structure Sound (b : ByteBuffer) : Prop where
  start_le : b.start ≤ b.end_
  end_le : b.end_ ≤ b.size

theorem sound_construct (bytes : Option (List Byte)) (len : ℕ) (byte_order : ByteOrder)
    (storage : Mem) : (construct bytes len byte_order storage).Sound := by
  cases bytes with
  | none => exact ⟨Nat.le_refl 0, Nat.zero_le len⟩
  | some bs => exact ⟨Nat.zero_le _, Nat.le_refl _⟩

theorem contents_construct (bytes : Option (List Byte)) (len : ℕ) (byte_order : ByteOrder)
    (storage : Mem) : (construct bytes len byte_order storage).contents = bytes.getD [] := by
  cases bytes with
  | none => rfl
  | some bs => exact Mem.read_write storage 0 bs

/-! ### Raw operations -/

theorem read_front (b : ByteBuffer) {n : ℕ} (hn : n ≤ b.length) :
    b.bytes.read b.start n = b.contents.take n ∧
      b.bytes.read (b.start + n) (b.length - n) = b.contents.drop n := by
  obtain ⟨k, hk⟩ := Nat.exists_eq_add_of_le hn
  have hsplit : b.contents = b.bytes.read b.start n ++ b.bytes.read (b.start + n) k := by
    rw [contents, ← Mem.read_add]
    exact congrArg (b.bytes.read b.start) hk
  rw [hsplit, hk, Nat.add_sub_cancel_left, List.take_left' (Mem.length_read ..),
    List.drop_left' (Mem.length_read ..)]
  exact ⟨rfl, rfl⟩

/-- The buffer after bytes were read. -/
def advance (b : ByteBuffer) (n : ℕ) : ByteBuffer := { b with start := b.start + n }

theorem contents_advance (b : ByteBuffer) {n : ℕ} (hn : n ≤ b.length) :
    (b.advance n).contents = b.contents.drop n := by
  rw [← (read_front b hn).2, contents]
  show b.bytes.read (b.start + n) (b.end_ - (b.start + n)) = _
  rw [Nat.sub_add_eq]
  rfl

theorem Sound.advance (h : b.Sound) {n : ℕ} (hn : n ≤ b.length) : (b.advance n).Sound := by
  have hle := h.start_le
  rw [ByteBuffer.length] at hn
  exact ⟨show b.start + n ≤ b.end_ by omega, h.end_le⟩

theorem readBytes_eq (b : ByteBuffer) (n : ℕ) :
    b.readBytes n = if n > b.length then none else some (b.contents.take n, b.advance n) := by
  rw [readBytes]
  split_ifs with hn
  · rfl
  · rw [(read_front b (Nat.not_lt.mp hn)).1]
    rfl

theorem contents_consume (b : ByteBuffer) (n : ℕ) :
    (b.consume n).contents = dropFront b.contents n := by
  rw [consume, dropFront, length_contents]
  split_ifs with hn
  · rfl
  · exact contents_advance b (Nat.not_lt.mp hn)

theorem Sound.consume (h : b.Sound) (n : ℕ) : (b.consume n).Sound := by
  rw [ByteBuffer.consume]
  split_ifs with hn
  · exact h
  · exact h.advance (Nat.not_lt.mp hn)

theorem contents_shift (b : ByteBuffer) (n : ℕ) :
    (b.shift n).contents = dropFront b.contents n := by
  rw [shift, dropFront, length_contents]
  split_ifs with hn
  · rfl
  · rw [← (read_front b (Nat.not_lt.mp hn)).2, contents]
    show (b.bytes.move (b.start + n) (b.length - n)).read 0 (b.length - n - 0) = _
    refine List.map_congr_left fun i hi => ?_
    rw [Nat.zero_add]
    exact Mem.move_of_lt (List.mem_range.mp hi)

theorem Sound.shift (h : b.Sound) (n : ℕ) : (b.shift n).Sound := by
  have hstart := h.start_le
  have hend := h.end_le
  rw [ByteBuffer.shift]
  split_ifs with hn
  · exact h
  · exact ⟨Nat.zero_le _, show b.end_ - b.start - n ≤ b.size by omega⟩

theorem resize_spec (h : b.Sound) (n : ℕ) (storage : Mem) :
    (b.resize n storage).contents = b.contents.take n ∧ (b.resize n storage).Sound ∧
      n ≤ (b.resize n storage).capacity := by
  have hend := h.end_le
  set size := if n > b.size then max n (3 * b.size / 2) else n with hsize
  have hge : n ≤ size := by
    rw [hsize]
    split_ifs
    · exact Nat.le_max_left _ _
    · exact Nat.le_refl n
  have hlen : min (b.end_ - b.start) size = min n b.length := by
    rw [ByteBuffer.length, hsize]
    split_ifs with hn
    · omega
    · exact Nat.min_comm _ _
  have hread : (b.resize n storage).contents = b.bytes.read b.start (min n b.length) := by
    rw [← hlen]
    have hwritten := Mem.read_write storage 0 (b.bytes.read b.start (min (b.end_ - b.start) size))
    rw [Mem.length_read] at hwritten
    exact hwritten
  refine ⟨?_, ⟨Nat.zero_le _, Nat.min_le_right _ _⟩, hge⟩
  rw [hread, (read_front b (Nat.min_le_right _ _)).1, ← length_contents, ← List.take_eq_take_min]

theorem contents_write (h : b.Sound) {val : List Byte} (hfit : b.length + val.length ≤ b.capacity) :
    contents { b with bytes := b.bytes.write b.end_ val, end_ := b.end_ + val.length } =
      b.contents ++ val ∧
    Sound { b with bytes := b.bytes.write b.end_ val, end_ := b.end_ + val.length } := by
  have hstart := h.start_le
  have hend := h.end_le
  rw [ByteBuffer.length, capacity] at hfit
  refine ⟨?_, ⟨Nat.le_add_right_of_le hstart, show b.end_ + val.length ≤ b.size by omega⟩⟩
  show (b.bytes.write b.end_ val).read b.start (b.end_ + val.length - b.start) = _
  rw [show b.end_ + val.length - b.start = (b.end_ - b.start) + val.length by omega, Mem.read_add,
    Mem.read_write_of_disjoint _ (by omega), show b.start + (b.end_ - b.start) = b.end_ by omega,
    Mem.read_write]
  rfl

theorem writeBytes_spec (h : b.Sound) (val : List Byte) (storage : Mem) :
    (b.writeBytes val storage).contents = b.contents ++ val ∧
      (b.writeBytes val storage).Sound ∧
      (b.writeBytes val storage).byte_order = b.byte_order := by
  rw [writeBytes]
  by_cases hfit : b.length + val.length > b.capacity
  · simp only [if_pos hfit]
    obtain ⟨hcontents, hsound, hroom⟩ := resize_spec h (b.length + val.length) storage
    have hall : b.contents.take (b.length + val.length) = b.contents :=
      List.take_of_length_le (by rw [length_contents]; exact Nat.le_add_right _ _)
    rw [hall] at hcontents
    have hlength : (b.resize (b.length + val.length) storage).length = b.length := by
      rw [← length_contents, hcontents, length_contents]
    obtain ⟨hwrite, hsound'⟩ := contents_write hsound (by rw [hlength]; exact hroom)
    rw [hcontents] at hwrite
    exact ⟨hwrite, hsound', rfl⟩
  · simp only [if_neg hfit]
    obtain ⟨hwrite, hsound⟩ := contents_write h (Nat.not_lt.mp hfit)
    exact ⟨hwrite, hsound, trivial⟩

/-! ### Typed operations -/

theorem hostBytes_hostToNetwork (host : Endian) (n v : ℕ) :
    hostBytes host n (hostToNetwork host n v) = beBytes n v := by
  have hlen := length_beBytes n v
  cases host with
  | little =>
    have h := leBytes_ofLe (beBytes n v)
    rwa [hlen] at h
  | big =>
    have h := beBytes_ofBe (beBytes n v)
    rwa [hlen] at h

theorem networkToHost_ofHost (host : Endian) (bs : List Byte) :
    networkToHost host bs.length (ofHost host bs) = ofBe bs := by
  cases host with
  | little => exact congrArg ofBe (leBytes_ofLe bs)
  | big => exact congrArg ofBe (beBytes_ofBe bs)

theorem encode_eq (host : Endian) (byte_order : ByteOrder) {m n : ℕ} (h : n ≤ m) (v : ℕ) :
    ((hostBytes host m (if byte_order = .network then hostToNetwork host m v else v)).drop
      (if byte_order = .network ∨ host = .big then m - n else 0)).take n =
      encode host byte_order n v := by
  have hbig : ((beBytes m v).drop (m - n)).take n = beBytes n v := by
    rw [drop_beBytes h]
    exact List.take_of_length_le (Nat.le_of_eq (length_beBytes n v))
  rw [encode]
  by_cases hnetwork : byte_order = .network
  · rw [if_pos hnetwork, if_pos (Or.inl hnetwork), if_pos (show HighFirst host _ from .inl hnetwork),
      hostBytes_hostToNetwork, hbig]
  · rw [if_neg hnetwork]
    cases host with
    | little =>
      have hlow : ¬(byte_order = .network ∨ Endian.little = .big) := by simp [hnetwork]
      rw [if_neg hlow, if_neg (show ¬HighFirst .little _ from hlow), List.drop_zero]
      exact take_leBytes h v
    | big =>
      rw [if_pos (Or.inr rfl), if_pos (show HighFirst .big _ from .inr rfl)]
      exact hbig

theorem decode_eq (host : Endian) (byte_order : ByteOrder) {m n : ℕ} (h : n ≤ m)
    {bs : List Byte} (hbs : bs.length = n) :
    (let v := ofHost host
      (if byte_order = .network ∨ host = .big then List.replicate (m - n) 0 ++ bs
      else bs ++ List.replicate (m - n) 0)
    if byte_order = .network then networkToHost host m v else v) =
      decode host byte_order bs := by
  dsimp only
  rw [decode]
  by_cases hnetwork : byte_order = .network
  · have hlen : (List.replicate (m - n) (0 : Byte) ++ bs).length = m := by
      rw [List.length_append, List.length_replicate, hbs, Nat.sub_add_cancel h]
    have hnumber := networkToHost_ofHost host (List.replicate (m - n) (0 : Byte) ++ bs)
    rw [hlen, ofBe_zero_append] at hnumber
    rw [if_pos hnetwork, if_pos (Or.inl hnetwork), if_pos (show HighFirst host _ from .inl hnetwork), hnumber]
  · rw [if_neg hnetwork]
    cases host with
    | little =>
      have hlow : ¬(byte_order = .network ∨ Endian.little = .big) := by simp [hnetwork]
      rw [if_neg hlow, if_neg (show ¬HighFirst .little _ from hlow)]
      exact ofLe_append_zero bs (m - n)
    | big =>
      rw [if_pos (Or.inr rfl), if_pos (show HighFirst .big _ from .inr rfl)]
      exact ofBe_zero_append bs (m - n)

theorem decode_encode (host : Endian) (byte_order : ByteOrder) {n v : ℕ} (hv : v < 256 ^ n) :
    decode host byte_order (encode host byte_order n v) = v := by
  rw [decode, encode]
  split_ifs
  · rw [ofBe_beBytes, Nat.mod_eq_of_lt hv]
  · rw [ofLe_leBytes, Nat.mod_eq_of_lt hv]

theorem length_encode (host : Endian) (byte_order : ByteOrder) (n v : ℕ) :
    (encode host byte_order n v).length = n := by
  rw [encode]
  split_ifs
  · exact length_beBytes n v
  · exact length_leBytes n v

theorem writeUInt_spec (host : Endian) {m n : ℕ} (hmn : n ≤ m) (val : ℕ) (storage : Mem) :
    writeUInt host m n b val storage = b.writeBytes (encode host b.byte_order n val) storage := by
  rw [writeUInt, encode_eq host b.byte_order hmn]

theorem readUInt_spec (host : Endian) {m n : ℕ} (hmn : n ≤ m) (b : ByteBuffer) :
    readUInt host m n b = if n > b.length then none
      else some (decode host b.byte_order (b.contents.take n), b.advance n) := by
  rw [readUInt, readBytes_eq]
  by_cases hn : n > b.length
  · rw [if_pos hn, if_pos hn, Option.map_none]
  · rw [if_neg hn, if_neg hn]
    have hlen : (b.contents.take n).length = n := by
      rw [List.length_take, length_contents]
      omega
    rw [Option.map_some, ← decode_eq host b.byte_order hmn hlen]

theorem ofHost_singleton (host : Endian) (byte_order : ByteOrder) (x : Byte) :
    ofHost host [x] = decode host byte_order [x] := by
  rw [decode]
  cases host <;> split_ifs <;> rfl

theorem hostBytes_one (host : Endian) (byte_order : ByteOrder) (v : ℕ) :
    hostBytes host 1 v = encode host byte_order 1 v := by
  rw [encode]
  cases host <;> split_ifs <;> rfl

theorem readNumber_spec (host : Endian) (b : ByteBuffer) (type : NumberType) :
    b.readNumber host type = if type.width > b.length then none
      else some (decode host b.byte_order (b.contents.take type.width), b.advance type.width) := by
  cases type with
  | uint8 =>
    rw [readNumber, readUInt8, readBytes_eq]
    show Option.map _ (if 1 > b.length then _ else _) = if 1 > b.length then _ else _
    split_ifs with hn
    · rfl
    · obtain ⟨x, hx⟩ := List.length_eq_one_iff.mp
        (show (b.contents.take 1).length = 1 by rw [List.length_take, length_contents]; omega)
      rw [Option.map_some, NumberType.width, hx, ofHost_singleton host b.byte_order]
  | uint16 => exact readUInt_spec host (Nat.le_refl 2) b
  | uint24 => exact readUInt_spec host (show 3 ≤ 4 by omega) b
  | uint32 => exact readUInt_spec host (Nat.le_refl 4) b
  | uint64 => exact readUInt_spec host (Nat.le_refl 8) b

theorem writeNumber_spec (host : Endian) (storage : Mem) (b : ByteBuffer) (val : ℕ)
    (type : NumberType) : b.writeNumber host storage val type =
      b.writeBytes (encode host b.byte_order type.width val) storage := by
  cases type with
  | uint8 => rw [writeNumber, writeUInt8, hostBytes_one host b.byte_order]; rfl
  | uint16 => exact writeUInt_spec host (Nat.le_refl 2) val storage
  | uint24 => exact writeUInt_spec host (show 3 ≤ 4 by omega) val storage
  | uint32 => exact writeUInt_spec host (Nat.le_refl 4) val storage
  | uint64 => exact writeUInt_spec host (Nat.le_refl 8) val storage

/-! ### Every run -/

/-- What an operation has read, and the buffer after it, are those of the queue. -/
structure Refines (r : Option BufferItem × ByteBuffer) (q : Option BufferItem × List Byte)
    (byte_order : ByteOrder) : Prop where
  answer : r.1 = q.1
  contents : r.2.contents = q.2
  sound : r.2.Sound
  byte_order : r.2.byte_order = byte_order

theorem answer_refines (h : b.Sound) (n : ℕ) {α : Type} (g : List Byte → α) (f : α → BufferItem) :
    Refines (b.answer f (if n > b.length then none else some (g (b.contents.take n), b.advance n)))
      (takeFront b.contents n fun bs => f (g bs)) b.byte_order := by
  rw [takeFront, length_contents]
  split_ifs with hn
  · exact ⟨rfl, rfl, h, rfl⟩
  · have hle := Nat.not_lt.mp hn
    exact ⟨rfl, contents_advance b hle, h.advance hle, rfl⟩

theorem step_refines (host : Endian) (storage : Mem) (h : b.Sound) (op : BufferOp) :
    Refines (b.step host storage op) (queueStep host b.byte_order b.contents op)
      b.byte_order := by
  cases op with
  | readNumber type =>
    rw [step, readNumber_spec]
    exact answer_refines h type.width (decode host b.byte_order) (.number type)
  | readString len =>
    have hread : b.readString len = b.readBytes len := rfl
    rw [step, hread, readBytes_eq]
    exact answer_refines h len id .string
  | readBytes len =>
    rw [step, readBytes_eq]
    exact answer_refines h len id .bytes
  | write item =>
    have hwrite : ∀ val, item.encoded host b.byte_order = val →
        b.writeItem host storage item = b.writeBytes val storage →
        Refines (b.step host storage (.write item))
          (queueStep host b.byte_order b.contents (.write item)) b.byte_order := by
      intro val hval hitem
      obtain ⟨hcontents, hsound, horder⟩ := writeBytes_spec h val storage
      rw [step, queueStep, hitem, hval]
      exact ⟨rfl, hcontents, hsound, horder⟩
    cases item with
    | number type val => exact hwrite _ rfl (writeNumber_spec host storage b val type)
    | string val => exact hwrite val rfl rfl
    | bytes val => exact hwrite val rfl rfl
  | resize size =>
    obtain ⟨hcontents, hsound, -⟩ := resize_spec h size storage
    exact ⟨rfl, hcontents, hsound, rfl⟩
  | consume size =>
    refine ⟨rfl, contents_consume b size, h.consume size, ?_⟩
    rw [step, consume]
    split_ifs <;> rfl
  | shift size =>
    refine ⟨rfl, contents_shift b size, h.shift size, ?_⟩
    rw [step, shift]
    split_ifs <;> rfl

theorem run_refines (host : Endian) (storage : Mem) (h : b.Sound) (ops : List BufferOp) :
    (b.run host storage ops).1 = (queueRun host b.byte_order b.contents ops).1 ∧
      (b.run host storage ops).2.contents = (queueRun host b.byte_order b.contents ops).2 ∧
      (b.run host storage ops).2.Sound ∧
      (b.run host storage ops).2.byte_order = b.byte_order := by
  induction ops generalizing b with
  | nil => exact ⟨rfl, rfl, h, rfl⟩
  | cons op ops ih =>
    have hstep := step_refines host storage h op
    obtain ⟨hanswers, hcontents, hsound, horder⟩ := ih hstep.sound
    rw [hstep.contents, hstep.byte_order] at hanswers hcontents
    rw [run, queueRun]
    exact ⟨congrArg₂ List.cons hstep.answer hanswers, hcontents, hsound,
      horder.trans hstep.byte_order⟩

/-! ### What is written is read -/

section Queue

variable {byte_order : ByteOrder} {c : List Byte} {ops ops' : List BufferOp}

theorem queueRun_append (host : Endian) (byte_order : ByteOrder) (c : List Byte)
    (ops ops' : List BufferOp) : queueRun host byte_order c (ops ++ ops') =
      ((queueRun host byte_order c ops).1 ++
          (queueRun host byte_order (queueRun host byte_order c ops).2 ops').1,
        (queueRun host byte_order (queueRun host byte_order c ops).2 ops').2) := by
  induction ops generalizing c with
  | nil => rfl
  | cons op ops ih => rw [List.cons_append, queueRun, ih, queueRun, List.cons_append]

theorem queueRun_write (host : Endian) (byte_order : ByteOrder) (c : List Byte)
    (items : List BufferItem) : queueRun host byte_order c (items.map .write) =
      (items.map fun _ => none, c ++ items.flatMap (·.encoded host byte_order)) := by
  induction items generalizing c with
  | nil => rw [List.map_nil, queueRun, List.flatMap_nil, List.append_nil, List.map_nil]
  | cons item items ih =>
    rw [List.map_cons, queueRun, queueStep, ih, List.flatMap_cons, List.append_assoc, List.map_cons]

theorem takeFront_append {n : ℕ} {val : List Byte} (hn : val.length = n) (rest : List Byte)
    (f : List Byte → BufferItem) : takeFront (val ++ rest) n f = (some (f val), rest) := by
  have hle : ¬n > (val ++ rest).length := by
    rw [List.length_append, hn]
    exact Nat.not_lt.mpr (Nat.le_add_right n _)
  rw [takeFront, if_neg hle, List.take_left' hn, List.drop_left' hn]

theorem queueStep_reading (host : Endian) (byte_order : ByteOrder) {item : BufferItem}
    (h : item.Fits) (rest : List Byte) :
    queueStep host byte_order (item.encoded host byte_order ++ rest) item.reading =
      (some item, rest) := by
  cases item with
  | number type val =>
    have hfront := takeFront_append (length_encode host byte_order type.width val) rest
      fun bs => .number type (decode host byte_order bs)
    rw [decode_encode host byte_order h] at hfront
    exact hfront
  | string val => exact takeFront_append rfl rest .string
  | bytes val => exact takeFront_append rfl rest .bytes

theorem queueRun_read (host : Endian) (byte_order : ByteOrder) {items : List BufferItem}
    (h : ∀ item ∈ items, item.Fits) :
    queueRun host byte_order (items.flatMap (·.encoded host byte_order))
      (items.map (·.reading)) = (items.map some, []) := by
  induction items with
  | nil => rfl
  | cons item items ih =>
    obtain ⟨hitem, hitems⟩ := List.forall_mem_cons.mp h
    rw [List.map_cons, queueRun, List.flatMap_cons, queueStep_reading host byte_order hitem,
      ih hitems, List.map_cons]

theorem queueRun_read_back (host : Endian) (byte_order : ByteOrder) (c : List Byte)
    {items : List BufferItem} (h : ∀ item ∈ items, item.Fits) :
    (queueRun host byte_order c
      (items.map .write ++ .consume c.length :: items.map (·.reading))).1 =
      (items.map fun _ => none) ++ none :: items.map some := by
  have hconsume : queueStep host byte_order (c ++ items.flatMap (·.encoded host byte_order))
      (.consume c.length) = (none, items.flatMap (·.encoded host byte_order)) := by
    rw [queueStep, dropFront, if_neg (by rw [List.length_append]; omega), List.drop_left]
  rw [queueRun_append, queueRun_write, queueRun, hconsume, queueRun_read host byte_order h]

end Queue

/-- An operation that reads. -/
def IsRead : BufferOp → Prop
  | .readNumber _ => True
  | .readString _ => True
  | .readBytes _ => True
  | _ => False

theorem step_failed (host : Endian) (storage : Mem) {op : BufferOp} (hop : IsRead op)
    (hfail : (b.step host storage op).1 = none) : (b.step host storage op).2 = b := by
  have hanswer : ∀ {α : Type} (f : α → BufferItem) (r : Option (α × ByteBuffer)),
      (b.answer f r).1 = none → (b.answer f r).2 = b := by
    intro α f r hr
    cases r with
    | none => rfl
    | some r => cases hr
  cases op with
  | readNumber type => exact hanswer _ _ hfail
  | readString len => exact hanswer _ _ hfail
  | readBytes len => exact hanswer _ _ hfail
  | write item => exact hop.elim
  | resize size => exact hop.elim
  | consume size => exact hop.elim
  | shift size => exact hop.elim

/-- What a buffer is after operations that have had answers. -/
structure RefinesQueue (host : Endian) (storage : Mem) (b : ByteBuffer)
    (answers : List (Option BufferItem)) (bytes : List Byte) (ops : List BufferOp) : Prop where
  start_le : b.start ≤ b.end_
  end_le : b.end_ ≤ b.size
  /-- The answers and the contents are those of the queue. -/
  answers : answers = (queueRun host b.byte_order bytes ops).1
  contents : b.contents = (queueRun host b.byte_order bytes ops).2
  resize : ∀ n, b.length ≤ n → (b.resize n storage).contents = b.contents
  failed : ∀ op, IsRead op → (b.step host storage op).1 = none →
    (b.step host storage op).2 = b
  /-- Items that are written now are read after the bytes before them. -/
  read_back : ∀ items : List BufferItem, (∀ item ∈ items, item.Fits) →
    (b.run host storage (items.map .write ++ .consume b.length :: items.map (·.reading))).1 =
      (items.map fun _ => none) ++ none :: items.map some

/-- **The buffer is a queue of bytes**, in either byte order and on any machine. -/
theorem refines_bytes (host : Endian) (storage : Mem) (bytes : Option (List Byte)) (len : ℕ)
    (byte_order : ByteOrder) (ops : List BufferOp) :
    RefinesQueue host storage ((construct bytes len byte_order storage).run host storage ops).2
      ((construct bytes len byte_order storage).run host storage ops).1 (bytes.getD []) ops := by
  have hsound := sound_construct bytes len byte_order storage
  have hcontents := contents_construct bytes len byte_order storage
  obtain ⟨hanswers, hqueue, hsound', horder⟩ := run_refines host storage hsound ops
  rw [hcontents, ← horder] at hanswers hqueue
  refine ⟨hsound'.start_le, hsound'.end_le, hanswers, hqueue, fun n hn => ?_,
    fun op hop hfail => step_failed host storage hop hfail, fun items hitems => ?_⟩
  · rw [(resize_spec hsound' n storage).1]
    exact List.take_of_length_le (by rw [length_contents]; exact hn)
  · rw [(run_refines host storage hsound' _).1, ← length_contents,
      queueRun_read_back host _ _ hitems]

end ByteBuffer

end Jingle.Base
