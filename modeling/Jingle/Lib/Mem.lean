/-
Fixed byte arrays as functions from indices to bytes.

A C array is its contents at every index; the model records separately which
ranges are accessed, so an access outside the array is visible and not hidden
by a partial function.  `Mem.read`, `Mem.write` and `Mem.move` are `memcpy`
out of the array, `memcpy` into it, and `memmove` of a suffix to its start.
-/
import Jingle.Lib.Word

namespace Jingle

/-- The contents of a byte array. -/
abbrev Mem := ℕ → Byte

namespace Mem

/-- The `n` bytes from index `off` on. -/
def read (m : Mem) (off n : ℕ) : List Byte := (List.range n).map fun i => m (off + i)

/-- Store bytes from index `off` on. -/
def write (m : Mem) (off : ℕ) : List Byte → Mem
  | [] => m
  | b :: bs => fun i => if i = off then b else write m (off + 1) bs i

/-- Copy the `n` bytes from index `src` on to the start of the array. -/
def move (m : Mem) (src n : ℕ) : Mem := fun i => if i < n then m (src + i) else m i

@[simp] theorem length_read (m : Mem) (off n : ℕ) : (m.read off n).length = n := by
  simp [read]

@[simp] theorem read_zero (m : Mem) (off : ℕ) : m.read off 0 = [] := rfl

theorem getElem_read (m : Mem) (off n i : ℕ) (h : i < (m.read off n).length) :
    (m.read off n)[i] = m (off + i) := by
  simp [read]

theorem write_cons (m : Mem) (off : ℕ) (b : Byte) (bs : List Byte) (i : ℕ) :
    m.write off (b :: bs) i = if i = off then b else m.write (off + 1) bs i := rfl

theorem write_of_not_mem {m : Mem} {bs : List Byte} : ∀ {off i : ℕ},
    i < off ∨ off + bs.length ≤ i → m.write off bs i = m i := by
  induction bs with
  | nil => intro off i _; rfl
  | cons b bs ih =>
    intro off i h
    rw [List.length_cons] at h
    rw [write_cons, if_neg (by omega)]
    exact ih (by omega)

theorem write_of_mem {m : Mem} {bs : List Byte} : ∀ {off i : ℕ}, off ≤ i → i < off + bs.length →
    m.write off bs i = bs.getD (i - off) 0 := by
  induction bs with
  | nil =>
    intro off i h₁ h₂
    rw [List.length_nil] at h₂
    omega
  | cons b bs ih =>
    intro off i h₁ h₂
    rw [List.length_cons] at h₂
    rw [write_cons]
    by_cases h : i = off
    · rw [if_pos h, h, Nat.sub_self]
      rfl
    · have hi : i - off = (i - (off + 1)) + 1 := by omega
      rw [if_neg h, ih (by omega) (by omega), hi, List.getD_cons_succ]

theorem move_of_lt {m : Mem} {src n i : ℕ} (h : i < n) : m.move src n i = m (src + i) :=
  if_pos h

theorem read_add (m : Mem) (off a b : ℕ) :
    m.read off (a + b) = m.read off a ++ m.read (off + a) b := by
  simp [read, List.range_add, Function.comp_def, Nat.add_assoc]

end Mem

end Jingle
