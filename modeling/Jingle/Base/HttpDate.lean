/-
The dates of HTTP.

`HttpDateToSeconds` reads a date by a format of `sscanf`, knows the month by its letters, and
adds the offset of the zone to what `mktime` makes of the rest.  `mktime` and the offset of
the local time belong to the process: a `TimeZone`.  An `unsigned long` has 64 bits.
-/
import Jingle.Base.HttpAttributes
import Jingle.Lib.Scanf

namespace Jingle.Base.Http

open Numeral

/-- `struct tm`, as far as it is not zero. -/
structure Tm where
  tm_sec : ℤ
  tm_min : ℤ
  tm_hour : ℤ
  tm_mday : ℤ
  tm_mon : ℤ
  tm_year : ℤ
  deriving DecidableEq

/-- The time zone of a process: `mktime`, and the seconds to add to a time for its local time,
which are `-timezone` or `localtime(&gmt)->tm_gmtoff`. -/
structure TimeZone where
  mktime : Tm → ℤ
  gmtoff : BitVec 64 → ℤ

/-- `kTimeZones` with `kTimeZoneOffsets`. -/
def kTimeZones : List (Text × ℤ) :=
  [(textBytes "UT", 0), (textBytes "GMT", 0), (textBytes "EST", -5), (textBytes "EDT", -4),
    (textBytes "CST", -6), (textBytes "CDT", -5), (textBytes "MST", -7), (textBytes "MDT", -6),
    (textBytes "PST", -8), (textBytes "PDT", -7),
    (textBytes "A", -1), (textBytes "B", -2), (textBytes "C", -3), (textBytes "D", -4),
    (textBytes "E", -5), (textBytes "F", -6), (textBytes "G", -7), (textBytes "H", -8),
    (textBytes "I", -9), (textBytes "K", -10), (textBytes "L", -11), (textBytes "M", -12),
    (textBytes "N", 1), (textBytes "O", 2), (textBytes "P", 3), (textBytes "Q", 4),
    (textBytes "R", 5), (textBytes "S", 6), (textBytes "T", 7), (textBytes "U", 8),
    (textBytes "V", 9), (textBytes "W", 10), (textBytes "X", 11), (textBytes "Y", 12)]

/-- `_stricmp(a, b) == 0`. -/
def stricmpEq (a b : Text) : Bool := (cString a).map toLower = (cString b).map toLower

/-- `find_string` among the zones. -/
def findZone (zone : Text) : Option ℤ :=
  (kTimeZones.find? fun entry => stricmpEq zone entry.1).map (·.2)

def toUpper (b : Byte) : Byte := if 97 ≤ b.toNat ∧ b.toNat ≤ 122 then b - 32 else b

/-- The month by its letters; a month that no case knows stays zero. -/
def monthOf (month : Text) : ℤ :=
  let third := toUpper (month.getD 2 0)
  if third = 78#8 then if month.getD 1 0 = 65#8 then 0 else 5  -- 'N', 'A'
  else if third = 66#8 then 1  -- 'B'
  else if third = 82#8 then if month.getD 0 0 = 77#8 then 2 else 3  -- 'R', 'M'
  else if third = 89#8 then 4  -- 'Y'
  else if third = 76#8 then 6  -- 'L'
  else if third = 71#8 then 7  -- 'G'
  else if third = 80#8 then 8  -- 'P'
  else if third = 84#8 then 9  -- 'T'
  else if third = 86#8 then 10  -- 'V'
  else if third = 67#8 then 11  -- 'C'
  else 0

/-- The number of a digit of the zone. -/
def zoneDigit (zone : Text) (i : ℕ) : ℤ := (zone.getD i 0).toNat - 48

/-- The seconds that the zone adds: a signed number of hours and minutes, or a name. -/
def zoneOffset (zone : Text) : Option ℤ :=
  if zone.getD 0 0 = 43#8 ∨ zone.getD 0 0 = 45#8 then
    if !isDigit (zone.getD 1 0) || !isDigit (zone.getD 2 0) || !isDigit (zone.getD 3 0)
        || !isDigit (zone.getD 4 0) then none
    else
      let hours := zoneDigit zone 1 * 10 + zoneDigit zone 2
      let minutes := zoneDigit zone 3 * 10 + zoneDigit zone 4
      let offset := (hours * 60 + minutes) * 60
      some (if zone.getD 0 0 = 43#8 then offset else -offset)
  else (findZone zone).map fun hours => hours * 60 * 60

/-- `"%*3s, %d %3s %d %d:%d:%d %5c"`. -/
def dateFormat : List Directive :=
  [.skipWord 3, .literal 44#8, .space, .int, .space, .word 3, .space, .int, .space,
    .int, .literal 58#8, .int, .literal 58#8, .int, .space, .chars 5]

def httpDateToSeconds (tz : TimeZone) (date : Text) : Option (BitVec 64) :=
  match sscanf dateFormat date with
  | [.int tm_mday, .text month, .int tm_year, .int tm_hour, .int tm_min, .int tm_sec,
      .text zone] =>
    let tval : Tm := ⟨tm_sec, tm_min, tm_hour, tm_mday, monthOf month, tm_year - 1900⟩
    let non_gmt := BitVec.ofInt 64 (tz.mktime tval)
    (zoneOffset zone).map fun offset =>
      let gmt := non_gmt + BitVec.ofInt 64 offset
      gmt + BitVec.ofInt 64 (tz.gmtoff gmt)
  | _ => none

end Jingle.Base.Http
