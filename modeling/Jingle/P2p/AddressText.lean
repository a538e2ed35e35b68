/-
The text of an address.

An address is written as its host name, or as a dotted number when it has none
(`ipAsString`); reading a text makes it the host name and tries to understand it
as a number (`setIP`).  The dotted form of a number is read as that number
(`inetAton_ipToString`), so an address that is `Textual`, with no host name or
with one that says its number, comes back as an equal one: `eqv_setIP`.
-/
import Jingle.P2p.Candidate
import Jingle.Lib.Numeral

namespace Jingle.P2p

open Numeral

/-- `IPToString`: the four bytes of the number, with dots between them. -/
def ipToString (ip : Word) : List Byte :=
  decimal (ip >>> 24 &&& 0xff).toNat ++ 46#8 :: (decimal (ip >>> 16 &&& 0xff).toNat ++
    46#8 :: (decimal (ip >>> 8 &&& 0xff).toNat ++ 46#8 :: decimal (ip &&& 0xff).toNat))

/-- The last part of an address fills the bytes that are left. -/
def inetAtonLast (left acc val : ℕ) (rest : List Byte) : Option ℕ :=
  if (rest = [] ∨ rest.head?.any isSpace) ∧ val < 256 ^ (left + 1) then
    some (acc * 256 ^ (left + 1) + val)
  else none

/-- The parts of an address, of which `left` may still be followed by a dot. -/
def inetAtonFrom : ℕ → ℕ → List Byte → Option ℕ
  | 0, acc, s =>
    if s.head?.any isDigit then inetAtonLast 0 acc (strtoul s).1 (strtoul s).2 else none
  | left + 1, acc, s =>
    if s.head?.any isDigit then
      if (strtoul s).2.head? = some 46#8 then
        if 255 < (strtoul s).1 then none
        else inetAtonFrom left (acc * 256 + (strtoul s).1) ((strtoul s).2.drop 1)
      else inetAtonLast (left + 1) acc (strtoul s).1 (strtoul s).2
    else none

/-- `inet_aton` of the text up to its first null byte. -/
def inetAton (s : List Byte) : Option Word :=
  (inetAtonFrom 3 0 (s.takeWhile (· ≠ 0))).map (BitVec.ofNat 32)

def stringToIP (hostname : List Byte) : Word := (inetAton hostname).getD 0

namespace SocketAddress

/-- `SetIP` with a text. -/
def setIP (a : SocketAddress) (hostname : List Byte) : SocketAddress :=
  { a with hostname := hostname, ip := stringToIP hostname }

def setPort (a : SocketAddress) (port : ℤ) : SocketAddress :=
  { a with port := BitVec.ofInt 16 port }

def ipAsString (a : SocketAddress) : List Byte :=
  if a.hostname ≠ [] then a.hostname else ipToString a.ip

def portAsString (a : SocketAddress) : List Byte := decimal a.port.toNat

/-- The address has no host name, or one that is its number. -/
def Textual (a : SocketAddress) : Prop := a.hostname = [] ∨ inetAton a.hostname = some a.ip

instance (a : SocketAddress) : Decidable a.Textual := inferInstanceAs (Decidable (_ ∨ _))

end SocketAddress

/-! ### Reading a dotted number -/

theorem endsNumber_nil : EndsNumber [] := by simp [EndsNumber]

theorem endsNumber_dot (rest : List Byte) : EndsNumber (46#8 :: rest) := by
  simp [EndsNumber, isDigit]

theorem any_isDigit_decimal (n : ℕ) (rest : List Byte) :
    (decimal n ++ rest).head?.any isDigit := by
  obtain ⟨b, ds, hds⟩ := List.exists_cons_of_ne_nil (decimal_ne_nil n)
  have hb : isDigit b := isDigit_of_mem_decimal (hds ▸ List.mem_cons_self)
  simp [hds, hb]

theorem inetAtonFrom_decimal_dot (left acc : ℕ) {n : ℕ} (h : n < 256) (rest : List Byte) :
    inetAtonFrom (left + 1) acc (decimal n ++ 46#8 :: rest) =
      inetAtonFrom left (acc * 256 + n) rest := by
  rw [inetAtonFrom, if_pos (any_isDigit_decimal n _), strtoul_decimal n (endsNumber_dot rest)]
  simp only [List.head?_cons, if_true, List.drop_succ_cons, List.drop_zero]
  rw [if_neg (by omega)]

theorem inetAtonFrom_decimal (acc : ℕ) {n : ℕ} (h : n < 256) :
    inetAtonFrom 0 acc (decimal n) = some (acc * 256 + n) := by
  have hdigit := any_isDigit_decimal n []
  have hread := strtoul_decimal n endsNumber_nil
  rw [List.append_nil] at hdigit hread
  rw [inetAtonFrom, if_pos hdigit, hread, inetAtonLast, if_pos ⟨.inl rfl, by simpa⟩]
  rfl

theorem toNat_and_ff_lt (x : Word) : (x &&& 0xff).toNat < 256 := by
  have : (x &&& 0xff).toNat ≤ 255 := BitVec.toNat_and x 0xff ▸ Nat.and_le_right
  omega

theorem toNat_and_ff (x : Word) : (x &&& 0xff).toNat = x.toNat % 256 := by
  rw [BitVec.toNat_and]
  exact Nat.and_two_pow_sub_one_eq_mod x.toNat 8

theorem ne_zero_of_mem_decimal {n : ℕ} {b : Byte} (h : b ∈ decimal n) : b ≠ 0 := by
  rintro rfl
  have := isDigit_of_mem_decimal h
  simp [isDigit] at this

theorem ne_zero_of_mem_ipToString {ip : Word} {b : Byte} (h : b ∈ ipToString ip) : b ≠ 0 := by
  simp only [ipToString, List.mem_append, List.mem_cons] at h
  rcases h with h | rfl | h | rfl | h | rfl | h
  all_goals first | exact ne_zero_of_mem_decimal h | decide

theorem inetAton_ipToString (ip : Word) : inetAton (ipToString ip) = some ip := by
  have htake : (ipToString ip).takeWhile (· ≠ 0) = ipToString ip := by
    have hall : ∀ b ∈ ipToString ip, decide (b ≠ 0) = true := fun b hb =>
      decide_eq_true (ne_zero_of_mem_ipToString hb)
    have := takeWhile_append_stop hall stopsAt_nil
    rwa [List.append_nil] at this
  have hvalue : (((0 * 256 + (ip >>> 24 &&& 0xff).toNat) * 256 + (ip >>> 16 &&& 0xff).toNat) * 256
      + (ip >>> 8 &&& 0xff).toNat) * 256 + (ip &&& 0xff).toNat = ip.toNat := by
    have := ip.isLt
    simp only [toNat_and_ff, BitVec.toNat_ushiftRight, Nat.shiftRight_eq_div_pow]
    omega
  rw [inetAton, htake, ipToString, inetAtonFrom_decimal_dot _ _ (toNat_and_ff_lt _),
    inetAtonFrom_decimal_dot _ _ (toNat_and_ff_lt _),
    inetAtonFrom_decimal_dot _ _ (toNat_and_ff_lt _), inetAtonFrom_decimal _ (toNat_and_ff_lt _),
    hvalue, Option.map_some, BitVec.ofNat_toNat, BitVec.setWidth_eq]

namespace SocketAddress

theorem stringToIP_ipAsString {a : SocketAddress} (h : a.Textual) :
    stringToIP a.ipAsString = a.ip := by
  rw [stringToIP, ipAsString]
  split
  · rename_i hne
    rw [h.resolve_left hne, Option.getD_some]
  · rw [inetAton_ipToString, Option.getD_some]

theorem eqv_setIP {a : SocketAddress} (h : a.Textual) (hip : a.ip ≠ 0) (b : SocketAddress) :
    a.eqv ((b.setIP a.ipAsString).setPort (extractInt a.portAsString)) := by
  have hport : (BitVec.ofInt 16 (extractInt a.portAsString)) = a.port := by
    rw [portAsString, extractInt_decimal (by have := a.port.isLt; omega), BitVec.ofInt_natCast,
      BitVec.ofNat_toNat, BitVec.setWidth_eq]
  simp only [eqv, equalIPs, setPort, setIP, stringToIP_ipAsString h, hport, decide_eq_true_eq]
  exact ⟨⟨trivial, .inl hip⟩, trivial⟩

end SocketAddress

end Jingle.P2p
