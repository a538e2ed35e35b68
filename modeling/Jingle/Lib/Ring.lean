/-
Circular reads and writes of a byte array.

A ring is the first `cap` bytes of an array, read from some index on and around its end.
`memcpy` goes around the end in two parts: up to the end, and from the start
(`ring_eq_read`, `ring_writeRing`).
-/
import Jingle.Lib.Mem

namespace Jingle

namespace Mem

theorem read_write (m : Mem) (off : ℕ) (bs : List Byte) :
    (m.write off bs).read off bs.length = bs := by
  refine List.ext_getElem (length_read ..) fun i h₁ h₂ => ?_
  rw [getElem_read, write_of_mem (Nat.le_add_right _ _) (Nat.add_lt_add_left h₂ off),
    Nat.add_sub_cancel_left, List.getD_eq_getElem?_getD, List.getElem?_eq_getElem h₂,
    Option.getD_some]

theorem read_write_of_disjoint (m : Mem) {off pos n : ℕ} {bs : List Byte}
    (h : pos + n ≤ off ∨ off + bs.length ≤ pos) : (m.write off bs).read pos n = m.read pos n := by
  refine List.map_congr_left fun i hi => ?_
  have hi := List.mem_range.mp hi
  exact write_of_not_mem (by omega)

theorem read_write_write (m : Mem) (as bs : List Byte) :
    ((m.write 0 as).write as.length bs).read 0 (as.length + bs.length) = as ++ bs := by
  rw [read_add, Nat.zero_add, read_write, read_write_of_disjoint _ (by omega), read_write]

/-- The `n` bytes of a ring from index `pos` on. -/
def ring (m : Mem) (cap pos n : ℕ) : List Byte :=
  (List.range n).map fun i => m ((pos + i) % cap)

/-- Bytes are stored in a ring, in two parts. -/
def writeRing (m : Mem) (cap pos : ℕ) (bytes : List Byte) : Mem :=
  (m.write pos (bytes.take (min bytes.length (cap - pos)))).write 0
    (bytes.drop (min bytes.length (cap - pos)))

variable {m : Mem} {cap pos n : ℕ}

@[simp] theorem length_ring (m : Mem) (cap pos n : ℕ) : (m.ring cap pos n).length = n := by
  rw [ring, List.length_map, List.length_range]

@[simp] theorem ring_zero (m : Mem) (cap pos : ℕ) : m.ring cap pos 0 = [] := rfl

theorem getElem_ring (m : Mem) (cap pos n i : ℕ) (h : i < (m.ring cap pos n).length) :
    (m.ring cap pos n)[i] = m ((pos + i) % cap) := by
  simp [ring]

theorem ring_add (m : Mem) (cap pos a b : ℕ) :
    m.ring cap pos (a + b) = m.ring cap pos a ++ m.ring cap ((pos + a) % cap) b := by
  rw [ring, List.range_add, List.map_append, List.map_map]
  congr 1
  refine List.map_congr_left fun i _ => ?_
  show m ((pos + (a + i)) % cap) = m (((pos + a) % cap + i) % cap)
  rw [Nat.mod_add_mod, Nat.add_assoc]

theorem take_ring (m : Mem) (cap pos : ℕ) {k : ℕ} (hk : k ≤ n) :
    (m.ring cap pos n).take k = m.ring cap pos k := by
  obtain ⟨r, rfl⟩ := Nat.exists_eq_add_of_le hk
  rw [ring_add, List.take_left' (length_ring m cap pos k)]

theorem drop_ring (m : Mem) (cap pos : ℕ) {k : ℕ} (hk : k ≤ n) :
    (m.ring cap pos n).drop k = m.ring cap ((pos + k) % cap) (n - k) := by
  obtain ⟨r, rfl⟩ := Nat.exists_eq_add_of_le hk
  rw [ring_add, List.drop_left' (length_ring m cap pos k), Nat.add_sub_cancel_left]

theorem ring_eq_read_of_le (m : Mem) (h : pos + n ≤ cap) : m.ring cap pos n = m.read pos n := by
  refine List.map_congr_left fun i hi => ?_
  rw [Nat.mod_eq_of_lt (Nat.lt_of_lt_of_le
    (Nat.add_lt_add_left (List.mem_range.mp hi) pos) h)]

theorem ring_eq_read (m : Mem) (hpos : pos < cap) (hn : n ≤ cap) : m.ring cap pos n =
    m.read pos (min n (cap - pos)) ++ m.read 0 (n - min n (cap - pos)) := by
  by_cases h : n ≤ cap - pos
  · rw [Nat.min_eq_left h, Nat.sub_self, read_zero, List.append_nil]
    exact ring_eq_read_of_le m (by omega)
  · have hle : cap - pos ≤ n := by omega
    have hend : (pos + (cap - pos)) % cap = 0 := by
      rw [Nat.add_sub_cancel' (Nat.le_of_lt hpos), Nat.mod_self]
    obtain ⟨r, hr⟩ := Nat.exists_eq_add_of_le hle
    rw [Nat.min_eq_right hle, hr, ring_add, hend, Nat.add_sub_cancel_left,
      ring_eq_read_of_le m (by omega), ring_eq_read_of_le m (by omega)]

theorem mod_of_lt (hpos : pos < cap) {i : ℕ} (hi : i < cap) :
    (pos + i) % cap = if pos + i < cap then pos + i else pos + i - cap := by
  split_ifs with h
  · exact Nat.mod_eq_of_lt h
  · rw [Nat.mod_eq_sub_mod (Nat.not_lt.mp h)]
    exact Nat.mod_eq_of_lt (by omega)

theorem writeRing_apply (m : Mem) {bytes : List Byte} (hpos : pos < cap)
    (hlen : bytes.length ≤ cap) {i : ℕ} (hi : i < cap) :
    m.writeRing cap pos bytes ((pos + i) % cap) =
      if i < bytes.length then bytes.getD i 0 else m ((pos + i) % cap) := by
  have htake : (bytes.take (min bytes.length (cap - pos))).length = min bytes.length (cap - pos) := by
    rw [List.length_take]
    omega
  have hdrop : (bytes.drop (min bytes.length (cap - pos))).length =
      bytes.length - min bytes.length (cap - pos) := List.length_drop
  rw [mod_of_lt hpos hi, writeRing]
  by_cases hend : pos + i < cap
  · -- before the end of the array the second part does not reach
    rw [if_pos hend, @write_of_not_mem _ _ 0 _ (by rw [hdrop]; omega)]
    by_cases hb : i < bytes.length
    · rw [if_pos hb, write_of_mem (by omega) (by rw [htake]; omega), Nat.add_sub_cancel_left,
        List.getD_eq_getElem?_getD, List.getElem?_take_of_lt (by omega),
        ← List.getD_eq_getElem?_getD]
    · rw [if_neg hb, write_of_not_mem (by rw [htake]; omega)]
  · rw [if_neg hend]
    by_cases hb : i < bytes.length
    · rw [if_pos hb, write_of_mem (Nat.zero_le _) (by rw [hdrop]; omega),
        List.getD_eq_getElem?_getD, List.getElem?_drop, ← List.getD_eq_getElem?_getD]
      congr 1
      omega
    · rw [if_neg hb, @write_of_not_mem _ _ 0 _ (by rw [hdrop]; omega),
        write_of_not_mem (by rw [htake]; omega)]

theorem ring_writeRing (m : Mem) {bytes : List Byte} (hpos : pos < cap)
    (hlen : n + bytes.length ≤ cap) :
    (m.writeRing cap ((pos + n) % cap) bytes).ring cap pos (n + bytes.length) =
      m.ring cap pos n ++ bytes := by
  have hcap : 0 < cap := Nat.zero_lt_of_lt hpos
  have hstart : (pos + n) % cap < cap := Nat.mod_lt _ hcap
  -- the index of the ring at `j` from where the write begins
  have hindex : ∀ j, ((pos + n) % cap + j) % cap = (pos + (n + j)) % cap := by
    intro j
    rw [Nat.mod_add_mod, Nat.add_assoc]
  refine List.ext_getElem (by rw [length_ring, List.length_append, length_ring]) fun i h₁ h₂ => ?_
  rw [length_ring] at h₁
  rw [getElem_ring]
  by_cases hi : i < n
  · rw [List.getElem_append_left (by rw [length_ring]; exact hi), getElem_ring]
    -- `cap - n` steps after the write began the ring is at its start again
    have hround : (pos + i) % cap = ((pos + n) % cap + (cap - n + i)) % cap := by
      rw [hindex, show pos + (n + (cap - n + i)) = pos + i + cap by omega, Nat.add_mod_right]
    rw [hround, writeRing_apply m hstart (by omega) (by omega), if_neg (by omega)]
  · obtain ⟨j, rfl⟩ := Nat.exists_eq_add_of_le (Nat.not_lt.mp hi)
    have hj : j < bytes.length := by omega
    rw [← hindex, writeRing_apply m hstart (by omega) (by omega), if_pos hj,
      List.getElem_append_right (by rw [length_ring]; exact Nat.le_add_right _ _)]
    rw [List.getD_eq_getElem?_getD, List.getElem?_eq_getElem hj, Option.getD_some]
    congr 1
    rw [length_ring, Nat.add_sub_cancel_left]

end Mem

end Jingle
