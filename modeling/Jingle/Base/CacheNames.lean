/-
The names of the files of a cache.

The name of a resource is escaped and becomes the base name of a path; its index is the
extension.  A path name of an empty base name is only a file that begins with a period, and
`SetBasename` refuses an escaped name that still has a delimiter: in both cases nothing of the
resource is in the name of the file.

* **`filenameToId_iff`** — when a file name gives its resource back: then no other resource has
  the file.  Every file is in the folder.
-/
import Jingle.Base.Pathname
import Jingle.Base.StringRoundTrip

namespace Jingle.Base

open Numeral
open StringEncode (strchr decode_encode string_encode plainOr encodeCode hexPair hexEncodeDigit)

/-- The platforms that the code makes a difference between. -/
inductive Platform
  | win32
  | other
deriving DecidableEq

/-- `DEFAULT_FOLDER_DELIM`. -/
def Platform.folderDelimiter : Platform → Byte
  | .win32 => 92#8
  | .other => 47#8

/-- `unsafe_filename_characters`; a debug build of the other platforms asserts there. -/
def Platform.unsafeFilenameCharacters : Platform → PathText
  | .win32 => textBytes "\\/:*?\"<>|"
  | .other => []

/-- The folder of a cache.  The name of a folder is a C string. -/
structure CacheFolder where
  path : PathText
  no_zero : 0#8 ∉ path

variable (π : Platform)

/-- The name of a resource as `IdToFilename` escapes it. -/
def escapedId (id : PathText) : PathText :=
  (StringEncode.encode (id.length * 3 + 1) id π.unsafeFilenameCharacters 37#8).string

/-- `sprintfn(".%u", index)`, which takes 32 bits of the index. -/
def indexExtension (index : ℕ) : PathText := 46#8 :: decimal (index % 2 ^ 32)

def idToFilename (folder : CacheFolder) (id : PathText) (index : ℕ) : PathText :=
  let pathname := (Pathname.empty π.folderDelimiter).setFolder folder.path
  let pathname := (pathname.setBasename (escapedId π id)).1
  (pathname.setExtension (indexExtension index)).1.pathname

/-- `sscanf(extension, ".%u", &tempdex)`. -/
def scanIndex (extension : PathText) : Option ℕ :=
  if extension.head? = some 46#8 then (scanUnsigned (cString extension.tail)).map Prod.fst else none

def filenameToId (filename : PathText) : Option (PathText × ℕ) :=
  let pathname := (Pathname.empty π.folderDelimiter).setPathname filename
  (scanIndex pathname.extension).map fun index =>
    (cString (StringEncode.decode (pathname.basename.length + 1) pathname.basename 37#8).string,
      index)

/-! ### Parts of the name -/

theorem escapedId_eq (id : PathText) :
    escapedId π id = id.flatMap (plainOr π.unsafeFilenameCharacters 37#8) :=
  string_encode id _ _ (by omega)

theorem isDelim_hexEncodeDigit (b : Byte) : isDelim (hexEncodeDigit b) = false := by
  rw [hexEncodeDigit]
  split_ifs with h
  · have hall : ∀ n : Fin 16, isDelim ((textBytes "0123456789abcdef").getD n.val 0) = false := by
      decide
    exact hall ⟨b.toNat, h⟩
  · rfl

theorem exists_isDelim_plainOr (illegal : PathText) (b : Byte) :
    (∃ c ∈ plainOr illegal 37#8 b, isDelim c = true) ↔
      isDelim b = true ∧ strchr illegal b = false := by
  rw [plainOr, encodeCode]
  by_cases hplain : b ≠ 37#8 ∧ ¬strchr illegal b
  · rw [if_pos (decide_eq_true hplain)]
    simp [Bool.eq_false_iff.2 hplain.2]
  · rw [if_neg (by simpa using hplain)]
    refine iff_of_false ?_ fun h => hplain ⟨?_, Bool.eq_false_iff.1 h.2⟩
    · simp [hexPair, isDelim_hexEncodeDigit, show isDelim 37#8 = false from rfl]
    · rintro rfl
      exact absurd h.1 (by decide)

theorem any_isDelim_escapedId (id : PathText) :
    (escapedId π id).any isDelim = true ↔
      ∃ b ∈ id, isDelim b = true ∧ strchr π.unsafeFilenameCharacters b = false := by
  simp only [escapedId_eq, List.any_eq_true, List.mem_flatMap, ← exists_isDelim_plainOr]
  constructor
  · rintro ⟨c, ⟨b, hb, hc⟩, hdelim⟩
    exact ⟨b, hb, c, hc, hdelim⟩
  · rintro ⟨b, hb, c, hc, hdelim⟩
    exact ⟨c, ⟨b, hb, hc⟩, hdelim⟩

theorem escapedId_eq_nil (id : PathText) : escapedId π id = [] ↔ id = [] := by
  rw [escapedId_eq, List.flatMap_eq_nil_iff]
  constructor
  · intro h
    rcases id with _ | ⟨b, id⟩
    · rfl
    · exact absurd (h b List.mem_cons_self) (StringEncode.encodeCode_ne_nil _ _ b)
  · rintro rfl
    exact fun b hb => absurd hb List.not_mem_nil

/-- The base name of a file: nothing if the escaped name has a delimiter. -/
def fileBasename (id : PathText) : PathText :=
  if (escapedId π id).any isDelim then [] else escapedId π id

theorem fileBasename_plain (id : PathText) : ∀ b ∈ fileBasename π id, isDelim b = false := by
  rw [fileBasename]
  split_ifs with h
  · exact fun b hb => absurd hb List.not_mem_nil
  · exact fun b hb => Bool.eq_false_iff.2 fun hdelim => h (List.any_eq_true.2 ⟨b, hb, hdelim⟩)

theorem decimal_plain (n : ℕ) : ∀ b ∈ decimal n, isDelim b = false ∧ isPeriod b = false := by
  intro b hb
  have hdigit := isDigit_of_mem_decimal hb
  constructor
  · refine Bool.eq_false_iff.2 fun h => ?_
    rw [isDelim, decide_eq_true_eq] at h
    obtain rfl | rfl := h <;> exact absurd hdigit (by decide)
  · refine Bool.eq_false_iff.2 fun h => ?_
    rw [isPeriod, decide_eq_true_eq] at h
    subst h
    exact absurd hdigit (by decide)

theorem scanIndex_indexExtension (index : ℕ) :
    scanIndex (indexExtension index) = some (index % 2 ^ 32) := by
  have hlt : index % 2 ^ 32 < 2 ^ 32 := Nat.mod_lt _ (by decide)
  have hdigits : ∀ b ∈ decimal (index % 2 ^ 32), isDigitOf 10 b = true := fun b hb => by
    rw [isDigitOf_ten]
    exact isDigit_of_mem_decimal hb
  have hstring : cString (decimal (index % 2 ^ 32)) = decimal (index % 2 ^ 32) :=
    cString_eq_self_iff.2 fun hzero => absurd (isDigit_of_mem_decimal hzero) (by decide)
  have hscan := scanUnsigned_digits (decimal_ne_nil _) hdigits beginsWithSpace_nil
  rw [List.append_nil, value_decimal, unsignedLong, if_neg (by omega), if_neg Bool.false_ne_true,
    Nat.mod_eq_of_lt hlt] at hscan
  rw [scanIndex, indexExtension, if_pos (List.head?_cons ..), List.tail_cons, hstring, hscan]
  rfl

/-! ### The file of a resource -/

/-- The folder with its delimiter. -/
def folderText (folder : CacheFolder) : PathText :=
  ((Pathname.empty π.folderDelimiter).setFolder folder.path).folder

theorem isDelim_folderDelimiter : isDelim π.folderDelimiter = true := by
  cases π <;> rfl

theorem folderText_cases (folder : CacheFolder) : folderText π folder = [] ∨
    ∃ f d, isDelim d = true ∧ folderText π folder = f ++ [d] := by
  rw [folderText, Pathname.setFolder]
  rcases hlast : folder.path.getLast? with _ | b
  · exact .inl (List.getLast?_eq_none_iff.1 hlast)
  · dsimp only
    split_ifs with hdelim
    · obtain ⟨f, hf⟩ := List.getLast?_eq_some_iff.1 hlast
      refine .inr ⟨f, b, ?_, hf⟩
      -- a folder does not end with a terminator, which `strchr` would find
      have hzero : b ≠ 0#8 := by
        rintro rfl
        exact folder.no_zero (hf ▸ List.mem_append_right f List.mem_cons_self)
      have hmem : b ∈ cString (textBytes "/\\") := by
        simpa [isFolderDelimiter, strchr, hzero] using hdelim
      have hall : ∀ c ∈ cString (textBytes "/\\"), isDelim c = true := by decide
      exact hall b hmem
    · exact .inr ⟨folder.path, _, isDelim_folderDelimiter π, rfl⟩

theorem idToFilename_eq (folder : CacheFolder) (id : PathText) (index : ℕ) :
    idToFilename π folder id index =
      folderText π folder ++ (fileBasename π id ++ indexExtension index) := by
  have hbase : (((Pathname.empty π.folderDelimiter).setFolder folder.path).setBasename
      (escapedId π id)).1 = ⟨folderText π folder, fileBasename π id, [], π.folderDelimiter⟩ := by
    rw [Pathname.setBasename, fileBasename]
    split_ifs <;> rfl
  rw [idToFilename, hbase, indexExtension, Pathname.setExtension_of_plain (decimal_plain _)]
  exact if_neg (by simp)

theorem fileName_plain (id : PathText) (index : ℕ) :
    ∀ b ∈ fileBasename π id ++ indexExtension index, isDelim b = false := by
  intro b hb
  obtain hb | hb := List.mem_append.1 hb
  · exact fileBasename_plain π id b hb
  · obtain rfl | hb := List.mem_cons.1 hb
    · rfl
    · exact (decimal_plain _ b hb).1

theorem filenameToId_of_nil (folder : CacheFolder) (id : PathText) (index : ℕ)
    (hnil : fileBasename π id = []) :
    filenameToId π (idToFilename π folder id index) = none := by
  have hname := fileName_plain π id index
  rw [idToFilename_eq, filenameToId, Pathname.setPathname_append (folderText_cases π folder) hname]
  rw [hnil, List.nil_append] at hname ⊢
  have hperiod : findLast isPeriod (indexExtension index) = some 0 :=
    findLast_append_cons (s := []) (by decide) fun b hb => (decimal_plain _ b hb).2
  rw [Pathname.setFilename_of_noExtension (.inr hperiod) hname]
  rfl

theorem filenameToId_of_ne_nil (folder : CacheFolder) {id : PathText} (index : ℕ)
    (hzero : 0#8 ∉ id) (hne : fileBasename π id ≠ []) :
    filenameToId π (idToFilename π folder id index) = some (id, index % 2 ^ 32) := by
  have hbase : fileBasename π id = escapedId π id := by
    rw [fileBasename] at hne ⊢
    split_ifs at hne ⊢
    · exact absurd rfl hne
    · rfl
  have hdecode :
      (StringEncode.decode ((escapedId π id).length + 1) (escapedId π id) 37#8).string = id := by
    refine decode_encode id _ 37#8 (by omega) ?_
    rw [escapedId_eq]
    exact Nat.lt_succ_of_le (StringEncode.length_le_flatMap (StringEncode.encodeCode_ne_nil _ _) id)
  rw [idToFilename_eq, filenameToId,
    Pathname.setPathname_append (folderText_cases π folder) (fileName_plain π id index),
    indexExtension, Pathname.setFilename_append hne (fileBasename_plain π id) (decimal_plain _)]
  dsimp only
  rw [← indexExtension, scanIndex_indexExtension, Option.map_some, hbase, hdecode,
    cString_eq_self_iff.2 hzero]

/-! ### Faithful names -/

/-- The resources whose file names give them back. -/
def HasFileName (id : PathText) (index : ℕ) : Prop :=
  id ≠ [] ∧ index < 2 ^ 32 ∧
    ∀ b ∈ id, isDelim b = true → strchr π.unsafeFilenameCharacters b = true

instance (id : PathText) (index : ℕ) : Decidable (HasFileName π id index) :=
  inferInstanceAs (Decidable (_ ∧ _ ∧ _))

theorem fileBasename_eq_nil_iff (id : PathText) : fileBasename π id = [] ↔
    id = [] ∨ ∃ b ∈ id, isDelim b = true ∧ strchr π.unsafeFilenameCharacters b = false := by
  rw [fileBasename, ← any_isDelim_escapedId, ← escapedId_eq_nil π id]
  by_cases hdelim : (escapedId π id).any isDelim = true
  · rw [if_pos hdelim]
    exact iff_of_true rfl (.inr hdelim)
  · rw [if_neg hdelim, or_iff_left hdelim]

theorem filenameToId_idToFilename (folder : CacheFolder) {id : PathText} (index : ℕ)
    (hzero : 0#8 ∉ id) :
    filenameToId π (idToFilename π folder id index) = some (id, index) ↔
      HasFileName π id index := by
  by_cases hnil : fileBasename π id = []
  · rw [filenameToId_of_nil π folder id index hnil]
    refine iff_of_false (fun h => by cases h) fun h => ?_
    obtain hid | ⟨b, hb, hdelim, hsafe⟩ := (fileBasename_eq_nil_iff π id).1 hnil
    · exact h.1 hid
    · rw [h.2.2 b hb hdelim] at hsafe
      cases hsafe
  · rw [filenameToId_of_ne_nil π folder index hzero hnil, Option.some.injEq, Prod.mk.injEq,
      and_iff_right rfl, HasFileName]
    rw [fileBasename_eq_nil_iff, not_or, not_exists] at hnil
    constructor
    · intro heq
      refine ⟨hnil.1, heq ▸ Nat.mod_lt _ (by decide), fun b hb hdelim => ?_⟩
      by_contra hsafe
      exact hnil.2 b ⟨hb, hdelim, Bool.eq_false_iff.2 hsafe⟩
    · exact fun h => Nat.mod_eq_of_lt h.2.1

/-- **A file name gives its resource back exactly when** the name of the resource is not empty,
its index has 32 bits and all its delimiters are escaped; resources like that never share a
file.  Every file is in the folder of the cache. -/
theorem filenameToId_iff (folder : CacheFolder) :
    (∀ id index, 0#8 ∉ id →
      (filenameToId π (idToFilename π folder id index) = some (id, index) ↔
        HasFileName π id index)) ∧
    (∀ id index id' index', 0#8 ∉ id → 0#8 ∉ id' → HasFileName π id index →
      HasFileName π id' index' →
      idToFilename π folder id index = idToFilename π folder id' index' →
      id = id' ∧ index = index') ∧
    ∀ id index, ∃ name, idToFilename π folder id index = folderText π folder ++ name ∧
      (∀ b ∈ name, isDelim b = false) ∧ name ≠ [46#8] ∧ name ≠ [46#8, 46#8] := by
  refine ⟨fun id index hzero => filenameToId_idToFilename π folder index hzero, ?_, ?_⟩
  · intro id index id' index' hzero hzero' hname hname' heq
    have hback := (filenameToId_idToFilename π folder index hzero).2 hname
    rw [heq, (filenameToId_idToFilename π folder index' hzero').2 hname', Option.some.injEq,
      Prod.mk.injEq] at hback
    exact ⟨hback.1.symm, hback.2.symm⟩
  · intro id index
    refine ⟨_, idToFilename_eq π folder id index, fileName_plain π id index, ?_⟩
    -- the name has a digit
    obtain ⟨b, hb⟩ := List.exists_mem_of_ne_nil _ (decimal_ne_nil (index % 2 ^ 32))
    have hmem : b ∈ fileBasename π id ++ indexExtension index :=
      List.mem_append_right _ (List.mem_cons_of_mem _ hb)
    have hne : b ≠ 46#8 := by
      rintro rfl
      exact absurd (isDigit_of_mem_decimal hb) (by decide)
    refine ⟨fun heq => ?_, fun heq => ?_⟩
    · rw [heq, List.mem_singleton] at hmem
      exact hne hmem
    · rw [heq] at hmem
      exact hne (by simpa using hmem)

/-- A resource with a slash, on Windows. -/
theorem filenameToId_iff_slash : filenameToId .win32
    (idToFilename .win32 ⟨textBytes "C:\\cache", by decide⟩ (textBytes "a/b.c") 7) =
      some (textBytes "a/b.c", 7) :=
  ((filenameToId_iff .win32 ⟨textBytes "C:\\cache", by decide⟩).1 _ _ (by decide)).2 (by decide)

/-- The resource without a name, on both platforms. -/
theorem not_filenameToId_empty : ¬∃ (π : Platform) (folder : CacheFolder), ∀ id index,
    0#8 ∉ id → filenameToId π (idToFilename π folder id index) = some (id, index) := by
  rintro ⟨π, folder, h⟩
  have heq := h [] 0 List.not_mem_nil
  rw [filenameToId_of_nil π folder [] 0 ((fileBasename_eq_nil_iff π []).2 (.inl rfl))] at heq
  cases heq

end Jingle.Base
