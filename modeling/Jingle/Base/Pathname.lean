/-
Path names and their parts.

A path name is a folder, which ends with a delimiter, a base name and an extension, which
begins with the last period of the file name.  A part that has a delimiter of its own is
refused and leaves the path name as it was.
-/
import Jingle.Base.StringEncode

namespace Jingle.Base

open StringEncode (strchr)

/-- A text. -/
abbrev PathText := List Byte

/-! ### The last byte of a kind -/

/-- `find_last_of`, and `rfind` of one character. -/
def findLast (p : Byte → Bool) : PathText → Option ℕ
  | [] => none
  | b :: s => match findLast p s with
    | some i => some (i + 1)
    | none => if p b then some 0 else none

variable {p : Byte → Bool} {s t : PathText}

theorem findLast_eq_none : findLast p s = none ↔ ∀ b ∈ s, p b = false := by
  induction s with
  | nil => simp [findLast]
  | cons b s ih =>
    rw [List.forall_mem_cons, ← ih, findLast]
    rcases findLast p s with _ | i
    · by_cases hb : p b = true <;> simp [hb]
    · simp

theorem findLast_append_cons {c : Byte} (hc : p c = true) (ht : ∀ b ∈ t, p b = false) :
    findLast p (s ++ c :: t) = some s.length := by
  induction s with
  | nil => rw [List.nil_append, findLast, findLast_eq_none.2 ht, if_pos hc, List.length_nil]
  | cons b s ih => rw [List.cons_append, findLast, ih, List.length_cons]

/-! ### `Pathname` -/

structure Pathname where
  folder : PathText
  basename : PathText
  extension : PathText
  folderDelimiter : Byte

/-- A byte of `FOLDER_DELIMS`. -/
def isDelim (ch : Byte) : Bool := ch = 47#8 ∨ ch = 92#8

/-- `EXT_DELIM`. -/
def isPeriod (ch : Byte) : Bool := ch = 46#8

def isFolderDelimiter (ch : Byte) : Bool := strchr (textBytes "/\\") ch

namespace Pathname

variable {x : Pathname}

def empty (folderDelimiter : Byte) : Pathname := ⟨[], [], [], folderDelimiter⟩

def pathname (x : Pathname) : PathText :=
  let pathname := x.folder ++ (x.basename ++ x.extension)
  if pathname = [] then [46#8, x.folderDelimiter] else pathname

def setFolder (x : Pathname) (folder : PathText) : Pathname :=
  { x with
    folder := match folder.getLast? with
      | some b => if isFolderDelimiter b then folder else folder ++ [x.folderDelimiter]
      | none => folder }

/-- `SetBasename`, and whether it has been taken. -/
def setBasename (x : Pathname) (basename : PathText) : Pathname × Bool :=
  if basename.any isDelim then (x, false) else ({ x with basename := basename }, true)

def setExtension (x : Pathname) (extension : PathText) : Pathname × Bool :=
  if extension.any isDelim || (extension.drop 1).any isPeriod then (x, false)
  else ({ x with
    extension := if extension ≠ [] ∧ extension.head? ≠ some 46#8 then 46#8 :: extension
      else extension }, true)

/-- `SetExtension(extension) && SetBasename(basename)`. -/
def setParts (x : Pathname) (extension basename : PathText) : Pathname × Bool :=
  if (x.setExtension extension).2 then (x.setExtension extension).1.setBasename basename
  else ((x.setExtension extension).1, false)

/-- `SetFilename`: a period that begins the name is not one of an extension. -/
def setFilename (x : Pathname) (filename : PathText) : Pathname × Bool :=
  match findLast isPeriod filename with
  | none => x.setParts [] filename
  | some pos =>
    if pos = 0 then x.setParts [] filename
    else x.setParts (filename.drop pos) (filename.take pos)

def setPathname (x : Pathname) (pathname : PathText) : Pathname :=
  match findLast isDelim pathname with
  | some pos => ((x.setFolder (pathname.take (pos + 1))).setFilename (pathname.drop (pos + 1))).1
  | none => ((x.setFolder []).setFilename pathname).1

/-! ### Parts that fit -/

theorem any_eq_false {l : PathText} (h : ∀ b ∈ l, p b = false) : l.any p = false :=
  List.any_eq_false.2 fun b hb => by rw [h b hb]; exact Bool.false_ne_true

theorem setFolder_append_delim {folder : PathText} {d : Byte} (hd : isDelim d = true) :
    x.setFolder (folder ++ [d]) = { x with folder := folder ++ [d] } := by
  have hdelim : isFolderDelimiter d = true := by
    rw [isDelim, decide_eq_true_eq] at hd
    obtain rfl | rfl := hd <;> decide
  rw [setFolder, List.getLast?_append, List.getLast?_singleton, Option.some_or]
  exact congrArg (fun f => { x with folder := f }) (if_pos hdelim)

theorem setBasename_of_plain {basename : PathText} (h : ∀ b ∈ basename, isDelim b = false) :
    x.setBasename basename = ({ x with basename := basename }, true) := by
  rw [setBasename, any_eq_false h, if_neg Bool.false_ne_true]

theorem setExtension_of_plain {tail : PathText}
    (h : ∀ b ∈ tail, isDelim b = false ∧ isPeriod b = false) :
    x.setExtension (46#8 :: tail) = ({ x with extension := 46#8 :: tail }, true) := by
  have hdelim : (46#8 :: tail).any isDelim = false := by
    rw [List.any_cons, any_eq_false fun b hb => (h b hb).1]
    rfl
  rw [setExtension, hdelim, List.drop_one, List.tail_cons, any_eq_false fun b hb => (h b hb).2,
    if_neg (by decide), if_neg fun hne => hne.2 rfl]

theorem setExtension_nil : x.setExtension [] = ({ x with extension := [] }, true) := rfl

theorem setFilename_append {basename tail : PathText} (hne : basename ≠ [])
    (hbase : ∀ b ∈ basename, isDelim b = false)
    (htail : ∀ b ∈ tail, isDelim b = false ∧ isPeriod b = false) :
    x.setFilename (basename ++ 46#8 :: tail) =
      ({ x with extension := 46#8 :: tail, basename := basename }, true) := by
  rw [setFilename, findLast_append_cons (by decide) fun b hb => (htail b hb).2]
  dsimp only
  rw [if_neg (by simpa using hne), List.drop_left, List.take_left, setParts,
    setExtension_of_plain htail, if_pos rfl, setBasename_of_plain hbase]

theorem setFilename_of_noExtension {filename : PathText}
    (h : findLast isPeriod filename = none ∨ findLast isPeriod filename = some 0)
    (hname : ∀ b ∈ filename, isDelim b = false) :
    x.setFilename filename = ({ x with extension := [], basename := filename }, true) := by
  have hparts : x.setFilename filename = x.setParts [] filename := by
    rw [setFilename]
    obtain h | h := h <;> rw [h]
    exact if_pos rfl
  rw [hparts, setParts, setExtension_nil, if_pos rfl, setBasename_of_plain hname]

theorem setPathname_append {folder filename : PathText}
    (hfolder : folder = [] ∨ ∃ f d, isDelim d = true ∧ folder = f ++ [d])
    (hname : ∀ b ∈ filename, isDelim b = false) :
    x.setPathname (folder ++ filename) =
      (({ x with folder := folder } : Pathname).setFilename filename).1 := by
  rw [setPathname]
  obtain rfl | ⟨f, d, hd, rfl⟩ := hfolder
  · rw [List.nil_append, findLast_eq_none.2 hname]
    rfl
  · rw [List.append_assoc, List.singleton_append, findLast_append_cons hd hname]
    dsimp only
    rw [← List.singleton_append, ← List.append_assoc,
      show f.length + 1 = (f ++ [d]).length by rw [List.length_append, List.length_singleton],
      List.take_left, List.drop_left, setFolder_append_delim hd]

end Pathname

end Jingle.Base
