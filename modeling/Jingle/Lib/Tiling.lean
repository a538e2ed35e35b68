/-
Lists of pieces that tile an interval of sequence numbers.

A piece has a position and a length, both words.  `total len l` is the length of
the list as a natural number, `Tiles pos len q l` says that the pieces of `l`
follow each other without gaps from position `q` on, modulo `2 ^ 32`.  A tiling
splits at every append (`tiles_append`), and as long as it is shorter than
`2 ^ 32` the distance of a piece from the start is what stands before it
(`Tiles.offset`).
-/
import Jingle.Lib.Word

namespace Jingle

variable {α : Type} {pos len : α → Word}

/-- The length of a list of pieces. -/
def total (len : α → Word) (l : List α) : ℕ := (l.map fun g => (len g).toNat).sum

@[simp] theorem total_nil : total len [] = 0 := rfl

@[simp] theorem total_cons (g : α) (l : List α) : total len (g :: l) = (len g).toNat + total len l := by
  simp [total]

@[simp] theorem total_append (l₁ l₂ : List α) :
    total len (l₁ ++ l₂) = total len l₁ + total len l₂ := by
  simp [total]

/-- The pieces of a list follow each other from position `q` on. -/
def Tiles (pos len : α → Word) : Word → List α → Prop
  | _, [] => True
  | q, g :: l => pos g = q ∧ Tiles pos len (q + len g) l

theorem tiles_append (q : Word) (l₁ l₂ : List α) :
    Tiles pos len q (l₁ ++ l₂) ↔
      Tiles pos len q l₁ ∧ Tiles pos len (q + BitVec.ofNat 32 (total len l₁)) l₂ := by
  induction l₁ generalizing q with
  | nil => simp [Tiles]
  | cons g l₁ ih =>
    have hq : q + len g + BitVec.ofNat 32 (total len l₁)
        = q + BitVec.ofNat 32 (total len (g :: l₁)) := by
      rw [total_cons]
      bv_omega
    rw [List.cons_append, Tiles, Tiles, ih, hq, and_assoc]

theorem Tiles.offset {q : Word} {l₁ l₂ : List α} {g : α}
    (h : Tiles pos len q (l₁ ++ g :: l₂)) (hlt : total len l₁ < 2 ^ 32) :
    (pos g - q).toNat = total len l₁ := by
  obtain ⟨-, hg, -⟩ := (tiles_append q l₁ (g :: l₂)).mp h
  rw [hg]
  bv_omega

end Jingle
