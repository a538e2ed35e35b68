/-
URLs that are printed and parsed.

The parser looks for the first slash behind the scheme, for a colon before it and for a
question mark behind it.  `strchrn` ends at a zero byte: behind one no slash, colon or
question mark is found, and what is left of the text goes into the host or the path.

* `doSetUrl_url_iff` — **a URL is read back exactly when** its host has no zero byte and the
  query is found where it begins.
* `url_roundTrip` — what this says of URLs with a path and a query, and of every URL that the
  parser has read.
-/
import Jingle.Base.HttpAttributes

namespace Jingle.Base.Http

open Numeral

/-! ### `strchrn` -/

/-- The position that `strchrn` finds. -/
def strchrn (ch : Byte) : Text → Option ℕ
  | [] => none
  | b :: str => if b = 0#8 then none else if b = ch then some 0 else (strchrn ch str).map (· + 1)

variable {ch : Byte} {s t : Text}

theorem strchrn_append (hch : ch ∉ s) (hzero : 0#8 ∉ s) :
    strchrn ch (s ++ t) = (strchrn ch t).map (· + s.length) := by
  induction s with
  | nil => simp
  | cons b s ih =>
    rw [List.mem_cons, not_or] at hch hzero
    rw [List.cons_append, strchrn, if_neg (Ne.symm hzero.1), if_neg (Ne.symm hch.1),
      ih hch.2 hzero.2, Option.map_map]
    exact congrArg (fun f => (strchrn ch t).map f) (funext fun n => by simp; omega)

theorem strchrn_self (hch : ch ≠ 0#8) : strchrn ch (ch :: t) = some 0 := by
  rw [strchrn, if_neg hch, if_pos rfl]

theorem strchrn_eq_none (h : ch ∉ cString s) : strchrn ch s = none := by
  induction s with
  | nil => rfl
  | cons b s ih =>
    rw [strchrn]
    by_cases hb : b = 0#8
    · rw [if_pos hb]
    · have hc : cString (b :: s) = b :: cString s := List.takeWhile_cons_of_pos (by simpa using hb)
      rw [hc, List.mem_cons, not_or] at h
      rw [if_neg hb, if_neg (Ne.symm h.1), ih h.2, Option.map_none]

theorem strchrn_eq_some {i : ℕ} (h : strchrn ch s = some i) :
    ∃ rest, s.drop i = ch :: rest ∧ ch ∉ s.take i ∧ 0#8 ∉ s.take i := by
  induction s generalizing i with
  | nil => cases h
  | cons b s ih =>
    rw [strchrn] at h
    split_ifs at h with hzero hb
    · obtain rfl := Option.some.inj h
      exact ⟨s, by rw [List.drop_zero, hb], List.not_mem_nil, List.not_mem_nil⟩
    · obtain ⟨j, hj, rfl⟩ := Option.map_eq_some_iff.1 h
      obtain ⟨rest, hdrop, hch, hz⟩ := ih hj
      refine ⟨rest, hdrop, ?_, ?_⟩
      · exact List.not_mem_cons_of_ne_of_not_mem (Ne.symm hb) hch
      · exact List.not_mem_cons_of_ne_of_not_mem (Ne.symm hzero) hz

theorem notMem_cString_of_strchrn (h : strchrn ch s = none) (hch : ch ≠ 0#8) :
    ch ∉ cString s := by
  intro hmem
  obtain ⟨p, rest, heq, hp⟩ := List.eq_append_cons_of_mem hmem
  have hs : s = p ++ ch :: (rest ++ s.dropWhile (· ≠ 0)) := by
    conv_lhs => rw [← List.takeWhile_append_dropWhile (p := (· ≠ 0)) (l := s)]
    rw [show s.takeWhile (· ≠ 0) = cString s from rfl, heq, List.append_assoc, List.cons_append]
  have hzero : 0#8 ∉ p := fun hz => zero_notMem_cString s (heq ▸ List.mem_append_left _ hz)
  rw [hs, strchrn_append hp hzero, strchrn_self hch] at h
  cases h

/-! ### `Url` -/

/-- `Url<char>`. -/
structure Url where
  host : Text
  port : BitVec 16
  secure : Bool
  path : Text
  query : Text
deriving DecidableEq

def httpDefaultPort (secure : Bool) : BitVec 16 := if secure then 443#16 else 80#16

namespace Url

variable {u v : Url} {val : Text}

def clear (u : Url) : Url :=
  { u with host := [], port := 80#16, secure := false, path := [47#8], query := [] }

/-- The length of the path before its query. -/
def pathLength (val : Text) : ℕ := (strchrn 63#8 val).getD val.length

def doSetFullPath (u : Url) (val : Text) : Url :=
  { u with
    path := if pathLength val = 0 then [47#8] else val.take (pathLength val)
    query := val.drop (pathLength val) }

/-- `do_set_address`, of the first `len` bytes; `strtoul` reads on behind them. -/
def doSetAddress (u : Url) (val : Text) (len : ℕ) : Url :=
  match strchrn 58#8 (val.take len) with
  | some colon =>
    { u with
      host := val.take colon
      port := BitVec.ofNat 16 (strtoulIn 10 (cString (val.drop (colon + 1)))).1 }
  | none => { u with host := val.take len, port := httpDefaultPort u.secure }

/-- The part of `do_set_url` behind the scheme. -/
def doSetRest (u : Url) (val : Text) : Url :=
  let addressLength := (strchrn 47#8 val).getD val.length
  (u.doSetAddress val addressLength).doSetFullPath (val.drop addressLength)

def doSetUrl (u : Url) (val : Text) : Url :=
  if hasPrefix (textBytes "http://") val then { u with secure := false }.doSetRest (val.drop 7)
  else if hasPrefix (textBytes "https://") val then { u with secure := true }.doSetRest (val.drop 8)
  else u.clear

def doGetAddress (u : Url) : Text :=
  u.host ++ if u.port = httpDefaultPort u.secure then [] else 58#8 :: decimal u.port.toNat

def doGetFullPath (u : Url) : Text := u.path ++ u.query

/-- `url()`. -/
def doGetUrl (u : Url) : Text :=
  textBytes (if u.secure then "https://" else "http://") ++ (u.doGetAddress ++ u.doGetFullPath)

/-- The parser takes a text that begins with a scheme. -/
def IsAccepted (val : Text) : Prop :=
  hasPrefix (textBytes "http://") val = true ∨ hasPrefix (textBytes "https://") val = true

instance (val : Text) : Decidable (IsAccepted val) := inferInstanceAs (Decidable (_ ∨ _))

/-! ### Parsing what is printed -/

theorem doSetUrl_scheme (v : Url) (secure : Bool) (rest : Text) :
    v.doSetUrl (textBytes (if secure then "https://" else "http://") ++ rest) =
      { v with secure := secure }.doSetRest rest := by
  cases secure <;> rfl

theorem doSetRest_append {address path : Text} (hslash : 47#8 ∉ address) (hzero : 0#8 ∉ address)
    (hpath : path.head? = some 47#8) (v : Url) :
    v.doSetRest (address ++ path) =
      (v.doSetAddress (address ++ path) address.length).doSetFullPath path := by
  obtain ⟨tail, rfl⟩ : ∃ tail, path = 47#8 :: tail := by
    rcases path with _ | ⟨b, tail⟩
    · cases hpath
    · exact ⟨tail, by rw [Option.some.inj hpath]⟩
  rw [doSetRest, strchrn_append hslash hzero, strchrn_self (by decide), Option.map_some, zero_add,
    Option.getD_some, List.drop_left]

theorem notMem_decimal {b : Byte} (hb : isDigit b = false) (n : ℕ) : b ∉ decimal n := by
  intro hmem
  rw [isDigit_of_mem_decimal hmem] at hb
  cases hb

theorem doSetAddress_doGetAddress (hzero : 0#8 ∉ u.host) (hcolon : 58#8 ∉ u.host)
    (hsecure : v.secure = u.secure) {path : Text} (hpath : path.head? = some 47#8) :
    v.doSetAddress (u.doGetAddress ++ path) u.doGetAddress.length =
      { v with host := u.host, port := u.port } := by
  rw [doSetAddress, List.take_left]
  rw [doGetAddress]
  by_cases hport : u.port = httpDefaultPort u.secure
  · rw [if_pos hport, List.append_nil, strchrn_eq_none (by rwa [cString_eq_self_iff.2 hzero])]
    dsimp only
    rw [hsecure, ← hport]
  · rw [if_neg hport, strchrn_append hcolon hzero, strchrn_self (by decide), Option.map_some,
      zero_add]
    dsimp only
    rw [List.append_assoc, List.take_left, ← List.drop_drop, List.drop_left, List.cons_append,
      List.drop_one, List.tail_cons,
      cString_append_of_notMem (notMem_decimal (by decide) _)]
    have hstop : StopsAt isDigit (cString path) := by
      rcases path with _ | ⟨b, tail⟩
      · cases hpath
      · obtain rfl := Option.some.inj hpath
        exact fun b hb => Option.some.inj hb ▸ by decide
    rw [strtoulIn_decimal (u.port.isLt.trans (by decide)) hstop, BitVec.ofNat_toNat,
      BitVec.setWidth_eq]

theorem pathLength_le (val : Text) : pathLength val ≤ val.length := by
  rw [pathLength]
  rcases hquery : strchrn 63#8 val with _ | i
  · exact le_rfl
  · obtain ⟨rest, hdrop, -⟩ := strchrn_eq_some hquery
    have hlen := congrArg List.length hdrop
    rw [List.length_drop, List.length_cons] at hlen
    rw [Option.getD_some]
    omega

theorem doSetFullPath_append {path query : Text} (hne : path ≠ []) (v : Url) :
    (v.doSetFullPath (path ++ query) = { v with path := path, query := query }) ↔
      pathLength (path ++ query) = path.length := by
  constructor
  · intro heq
    have hlen := congrArg (fun u : Url => u.query.length) heq
    simp only [doSetFullPath, List.length_drop, List.length_append] at hlen
    have hpos := List.length_pos_iff.2 hne
    have hle := pathLength_le (path ++ query)
    rw [List.length_append] at hle
    have hpath := congrArg Url.path heq
    simp only [doSetFullPath] at hpath
    by_cases hzero : pathLength (path ++ query) = 0
    · omega
    · rw [if_neg hzero] at hpath
      have hlen' := congrArg List.length hpath
      rw [List.length_take, List.length_append] at hlen'
      omega
  · intro heq
    rw [doSetFullPath, heq, if_neg (by simpa using hne), List.take_left, List.drop_left]

theorem head?_doGetFullPath (hpath : u.path.head? = some 47#8) :
    u.doGetFullPath.head? = some 47#8 := by
  rw [doGetFullPath, List.head?_append, hpath]
  rfl

/-- **A URL is read back exactly when its host has no zero byte and the parser finds the query
where it begins.** -/
theorem doSetUrl_url_iff (hslash : 47#8 ∉ cString u.host) (hcolon : 58#8 ∉ cString u.host)
    (hpath : u.path.head? = some 47#8) (v : Url) :
    v.doSetUrl u.doGetUrl = u ↔
      0#8 ∉ u.host ∧ pathLength (u.path ++ u.query) = u.path.length := by
  have hne : u.path ≠ [] := by
    intro heq
    rw [heq] at hpath
    cases hpath
  rw [doGetUrl, doSetUrl_scheme]
  by_cases hzero : 0#8 ∈ u.host
  · -- the parser finds no slash: everything is the host
    refine iff_of_false (fun heq => ?_) fun h => h.1 hzero
    have hhost := congrArg (fun u : Url => u.host.length) heq
    have hstring : cString (u.doGetAddress ++ u.doGetFullPath) = cString u.host := by
      rw [doGetAddress, List.append_assoc, cString_append_of_mem hzero]
    have hlen := List.length_pos_iff.2 hne
    rw [doSetRest, strchrn_eq_none (by rwa [hstring]), Option.getD_none, doSetAddress,
      List.take_length, strchrn_eq_none (by rwa [hstring])] at hhost
    simp only [doSetFullPath, doGetAddress, doGetFullPath, List.length_append] at hhost
    omega
  · rw [cString_eq_self_iff.2 hzero] at hslash hcolon
    have haddress : ∀ b, b ∉ u.host → b ≠ 58#8 → isDigit b = false → b ∉ u.doGetAddress := by
      intro b hb hne hdigit hmem
      rw [doGetAddress, List.mem_append] at hmem
      obtain hmem | hmem := hmem
      · exact hb hmem
      · split_ifs at hmem
        · cases hmem
        · obtain rfl | hmem := List.mem_cons.1 hmem
          · exact hne rfl
          · exact notMem_decimal hdigit _ hmem
    have hhead := head?_doGetFullPath hpath
    rw [doSetRest_append (haddress _ hslash (by decide) (by decide))
        (haddress _ hzero (by decide) (by decide)) hhead,
      doSetAddress_doGetAddress (u := u) (v := { v with secure := u.secure }) hzero hcolon rfl
        hhead, and_iff_right hzero]
    exact doSetFullPath_append hne _

/-! ### The URLs of the parser -/

/-- What the parser gives for the part behind the scheme. -/
structure Parsed (u : Url) : Prop where
  slash : 47#8 ∉ cString u.host
  colon : 58#8 ∉ cString u.host
  path : u.path.head? = some 47#8
  query : pathLength (u.path ++ u.query) = u.path.length

theorem doSetFullPath_parsed {val : Text} (hval : val = [] ∨ val.head? = some 47#8) (v : Url) :
    (v.doSetFullPath val).path.head? = some 47#8 ∧
      pathLength ((v.doSetFullPath val).path ++ (v.doSetFullPath val).query) =
        (v.doSetFullPath val).path.length := by
  have hle := pathLength_le val
  by_cases hzero : pathLength val = 0
  · have hval : val = [] := by
      refine hval.resolve_right fun hhead => ?_
      rcases val with _ | ⟨b, val⟩
      · cases hhead
      · obtain rfl := Option.some.inj hhead
        rw [pathLength, strchrn, if_neg (by decide), if_neg (by decide)] at hzero
        rcases strchrn 63#8 val with _ | i <;> simp at hzero
    subst hval
    exact ⟨rfl, rfl⟩
  · rw [doSetFullPath, if_neg hzero]
    dsimp only
    rw [List.take_append_drop, List.length_take, Nat.min_eq_left hle]
    refine ⟨?_, rfl⟩
    obtain rfl | hhead := hval
    · exact absurd rfl hzero
    · rw [List.head?_take, if_neg hzero, hhead]

theorem doSetAddress_host {len : ℕ} (hslash : 47#8 ∉ cString (val.take len)) (v : Url) :
    47#8 ∉ cString (v.doSetAddress val len).host ∧
      58#8 ∉ cString (v.doSetAddress val len).host := by
  rw [doSetAddress]
  rcases hcolon : strchrn 58#8 (val.take len) with _ | c
  · exact ⟨hslash, notMem_cString_of_strchrn hcolon (by decide)⟩
  · obtain ⟨rest, hdrop, hch, hzero⟩ := strchrn_eq_some hcolon
    have hlt : c < (val.take len).length := by
      have hlen := congrArg List.length hdrop
      rw [List.length_drop, List.length_cons] at hlen
      omega
    have htake : val.take c = (val.take len).take c := by
      rw [List.length_take] at hlt
      rw [List.take_take, Nat.min_eq_left (by omega)]
    dsimp only
    rw [htake, cString_eq_self_iff.2 hzero]
    refine ⟨fun hmem => hslash ?_, hch⟩
    rw [← List.take_append_drop c (val.take len), cString_append_of_notMem hzero]
    exact List.mem_append_left _ hmem

theorem doSetRest_parsed (v : Url) (val : Text) : Parsed (v.doSetRest val) := by
  have hslash : 47#8 ∉ cString (val.take ((strchrn 47#8 val).getD val.length)) ∧
      (val.drop ((strchrn 47#8 val).getD val.length) = [] ∨
        (val.drop ((strchrn 47#8 val).getD val.length)).head? = some 47#8) := by
    rcases hfound : strchrn 47#8 val with _ | i
    · rw [Option.getD_none, List.take_length, List.drop_length]
      exact ⟨notMem_cString_of_strchrn hfound (by decide), .inl rfl⟩
    · obtain ⟨rest, hdrop, hch, hzero⟩ := strchrn_eq_some hfound
      rw [Option.getD_some, cString_eq_self_iff.2 hzero, hdrop]
      exact ⟨hch, .inr rfl⟩
  have hhost := doSetAddress_host hslash.1 v
  have hpath := doSetFullPath_parsed hslash.2
    (v.doSetAddress val ((strchrn 47#8 val).getD val.length))
  exact ⟨hhost.1, hhost.2, hpath.1, hpath.2⟩

theorem doSetUrl_parsed (v : Url) (val : Text) : Parsed (v.doSetUrl val) := by
  rw [doSetUrl]
  split_ifs
  · exact doSetRest_parsed _ _
  · exact doSetRest_parsed _ _
  · exact ⟨List.not_mem_nil, List.not_mem_nil, rfl, rfl⟩

/-! ### Round trips -/

/-- A URL with a host, a path and a query. -/
structure IsUrl (u : Url) : Prop where
  host : 58#8 ∉ u.host ∧ 47#8 ∉ u.host
  path : u.path.head? = some 47#8 ∧ 63#8 ∉ u.path
  query : u.query = [] ∨ u.query.head? = some 63#8

theorem IsUrl.pathLength_eq_iff (h : IsUrl u) :
    pathLength (u.path ++ u.query) = u.path.length ↔ u.query = [] ∨ 0#8 ∉ u.path := by
  obtain hquery | hquery := h.query
  · have hnone : strchrn 63#8 u.path = none :=
      strchrn_eq_none fun hmem => h.path.2 (List.takeWhile_sublist _ |>.mem hmem)
    rw [hquery, List.append_nil, pathLength, hnone]
    exact iff_of_true rfl (.inl rfl)
  · obtain ⟨query, hq⟩ : ∃ query, u.query = 63#8 :: query := by
      rcases hq : u.query with _ | ⟨b, query⟩ <;> rw [hq] at hquery
      · cases hquery
      · exact ⟨query, by rw [Option.some.inj hquery]⟩
    rw [hq, pathLength]
    by_cases hzero : 0#8 ∈ u.path
    · have hnone : strchrn 63#8 (u.path ++ 63#8 :: query) = none := by
        refine strchrn_eq_none fun hmem => h.path.2 ?_
        rw [cString_append_of_mem hzero] at hmem
        exact List.takeWhile_sublist _ |>.mem hmem
      rw [hnone, Option.getD_none, List.length_append, List.length_cons]
      refine iff_of_false (by omega) ?_
      rintro (hnil | hno)
      · cases hnil
      · exact hno hzero
    · rw [strchrn_append h.path.2 hzero, strchrn_self (by decide), Option.map_some,
        Option.getD_some, zero_add]
      exact iff_of_true rfl (.inr hzero)

/-- **URLs are read back** if no zero byte stands in the host, and none in the path before a
query; a URL that the parser has read is printed and read back if its host has none. -/
theorem url_roundTrip :
    (∀ u v : Url, IsUrl u →
      (v.doSetUrl u.doGetUrl = u ↔ 0#8 ∉ u.host ∧ (u.query = [] ∨ 0#8 ∉ u.path))) ∧
    ∀ (u v : Url) (val : Text), IsAccepted val →
      (v.doSetUrl (u.doSetUrl val).doGetUrl = u.doSetUrl val ↔ 0#8 ∉ (u.doSetUrl val).host) := by
  constructor
  · intro u v h
    have hsub : ∀ b, b ∉ u.host → b ∉ cString u.host := fun b hb hmem =>
      hb (List.takeWhile_sublist _ |>.mem hmem)
    rw [doSetUrl_url_iff (hsub _ h.host.2) (hsub _ h.host.1) h.path.1 v, h.pathLength_eq_iff]
  · intro u v val _
    have hparsed := doSetUrl_parsed u val
    rw [doSetUrl_url_iff hparsed.slash hparsed.colon hparsed.path v, and_iff_left hparsed.query]

/-- A URL with a port and a query. -/
theorem url_roundTrip_query :
    (⟨[], 80#16, false, [47#8], []⟩ : Url).doSetUrl
      (⟨textBytes "a", 8080#16, true, textBytes "/b", textBytes "?c"⟩ : Url).doGetUrl =
      ⟨textBytes "a", 8080#16, true, textBytes "/b", textBytes "?c"⟩ :=
  (url_roundTrip.1 _ _ ⟨by decide, by decide, by decide⟩).2 (by decide)

/-- A host of one zero byte: the whole text is read as the host. -/
theorem not_url_roundTrip : ¬∀ u v : Url, IsUrl u → 0 < u.port.toNat →
    v.doSetUrl u.doGetUrl = u := by
  intro h
  have heq := h ⟨[0#8], 80#16, false, [47#8], []⟩ ⟨[], 80#16, false, [47#8], []⟩
    ⟨by decide, by decide, by decide⟩ (by decide)
  exact absurd (congrArg Url.host heq) (by decide)

end Url

end Jingle.Base.Http
