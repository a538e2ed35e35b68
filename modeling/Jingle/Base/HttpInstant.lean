/-
The instants of HTTP dates.

A date is a day of the calendar, a time of day and a zone, written as RFC 1123 has it; the names
of zones stand for the hours that the list of the code gives them.  With the time zone of the
process universal time, `HttpDateToSeconds` reads every such date.  It takes January for June,
because it looks for a capital letter, and it adds the offset of the zone where it is to be
subtracted.

* `sscanf_text` — the format reads the parts of a date.
* **`httpDateToSeconds_iff`** — the dates that give their instant.
-/
import Jingle.Base.HttpDate
import Jingle.Lib.Calendar

namespace Jingle.Base.Http

open Numeral Calendar

/-! ### Dates -/

/-- A zone of a date: hours and minutes, or a name of the list. -/
inductive Zone where
  | numeric (east : Bool) (hours : Fin 100) (minutes : Fin 60)
  | named (name : Text) (hours : ℤ) (listed : (name, hours) ∈ kTimeZones)

def Zone.text : Zone → Text
  | .numeric east hours minutes =>
    (if east then 43#8 else 45#8) :: (twoDigits hours ++ twoDigits minutes)
  | .named name _ _ => name

/-- The seconds that the time of a zone is ahead of the universal time. -/
def Zone.offset : Zone → ℤ
  | .numeric true hours minutes => (hours * 60 + minutes) * 60
  | .numeric false hours minutes => -((hours * 60 + minutes) * 60)
  | .named _ hours _ => hours * 60 * 60

def weekdayNames : List Text := [textBytes "Sun", textBytes "Mon", textBytes "Tue",
  textBytes "Wed", textBytes "Thu", textBytes "Fri", textBytes "Sat"]

def monthNames : List Text := [textBytes "Jan", textBytes "Feb", textBytes "Mar",
  textBytes "Apr", textBytes "May", textBytes "Jun", textBytes "Jul", textBytes "Aug",
  textBytes "Sep", textBytes "Oct", textBytes "Nov", textBytes "Dec"]

/-- A date of RFC 1123; a day below ten has one digit or two. -/
structure HttpDate where
  weekday : Fin 7
  day : ℕ
  padded : Bool
  month : Fin 12
  year : ℕ
  hour : Fin 24
  minute : Fin 60
  second : Fin 60
  zone : Zone
  year_range : 1970 ≤ year ∧ year ≤ 2037
  day_range : 1 ≤ day ∧ day ≤ daysInMonth year month

namespace HttpDate

variable (d : HttpDate)

def dayText : Text := if d.padded then twoDigits d.day else decimal d.day

/-- The date as it is written. -/
def text : Text :=
  weekdayNames[d.weekday] ++ 44#8 :: 32#8 :: (d.dayText ++ 32#8 ::
    (monthNames[d.month] ++ 32#8 :: (decimal d.year ++ 32#8 ::
      (twoDigits d.hour ++ 58#8 :: (twoDigits d.minute ++ 58#8 ::
        (twoDigits d.second ++ 32#8 :: d.zone.text))))))

/-- The seconds of the clock of its zone. -/
def clock (days : ℕ) : ℤ := 86400 * days + 3600 * d.hour + 60 * d.minute + d.second

/-- The seconds from the epoch to the instant of the date. -/
def instant : ℤ := d.clock (dayNumber d.year d.month d.day) - d.zone.offset

/-! ### Reading -/

theorem day_le : d.day ≤ 31 := d.day_range.2.trans (daysInMonth_le _ _)

theorem digitsValue_dayText : digitsValue 10 d.dayText = some d.day := by
  have hle := d.day_le
  rw [dayText]
  split_ifs
  · exact digitsValue_twoDigits (by omega)
  · exact digitsValue_decimal _

theorem names_plain : ∀ name ∈ weekdayNames ++ monthNames,
    name.length = 3 ∧ ∀ b ∈ name, isSpace b = false ∧ b ≠ 0#8 := by decide

theorem listed_plain : ∀ e ∈ kTimeZones,
    e.1 ≠ [] ∧ e.1.length ≤ 5 ∧ ∀ b ∈ e.1, isSpace b = false ∧ b ≠ 0#8 := by decide

theorem listed_offset : ∀ e ∈ kTimeZones, zoneOffset e.1 = some (e.2 * 60 * 60) := by decide +kernel

theorem zone_plain (z : Zone) :
    z.text ≠ [] ∧ z.text.length ≤ 5 ∧ StopsAt isSpace z.text ∧ 0#8 ∉ z.text := by
  cases z with
  | numeric east hours minutes =>
    have hhours := zero_notMem_of_digitsValue (digitsValue_twoDigits hours.isLt)
    have hminutes := zero_notMem_of_digitsValue
      (digitsValue_twoDigits (minutes.isLt.trans (by decide)))
    refine ⟨List.cons_ne_nil _ _, le_rfl, fun b hb => ?_, ?_⟩
    · obtain rfl := Option.some.inj hb
      cases east <;> rfl
    · rw [Zone.text, List.mem_cons, List.mem_append, not_or, not_or]
      refine ⟨?_, hhours, hminutes⟩
      cases east <;> decide
  | named name hours listed =>
    obtain ⟨hne, hlen, hplain⟩ := listed_plain _ listed
    exact ⟨hne, hlen, fun b hb => (hplain b (List.mem_of_mem_head? hb)).1,
      fun hzero => (hplain _ hzero).2 rfl⟩

theorem zoneOffset_text (z : Zone) : zoneOffset z.text = some z.offset := by
  cases z with
  | numeric east hours minutes =>
    have hdigit : ∀ n : ℕ, n < 10 → isDigit (digit n) = true ∧ ((digit n).toNat : ℤ) - 48 = n := by
      intro n hn
      exact ⟨isDigit_digit hn, by rw [toNat_digit hn]; push_cast; ring⟩
    have h₁ := hdigit (hours / 10) (by omega)
    have h₂ := hdigit (hours % 10) (by omega)
    have h₃ := hdigit (minutes / 10) (by omega)
    have h₄ := hdigit (minutes % 10) (by omega)
    have hhours : ((hours.val / 10 : ℕ) : ℤ) * 10 + (hours.val % 10 : ℕ) = hours.val := by omega
    have hminutes : ((minutes.val / 10 : ℕ) : ℤ) * 10 + (minutes.val % 10 : ℕ) = minutes.val := by
      omega
    have hzone : ∀ sign : Byte, sign = 43#8 ∨ sign = 45#8 →
        zoneOffset (sign :: (twoDigits hours ++ twoDigits minutes)) =
          some (if sign = 43#8 then ((hours.val : ℤ) * 60 + minutes.val) * 60
            else -(((hours.val : ℤ) * 60 + minutes.val) * 60)) := by
      intro sign hsign
      rw [zoneOffset, List.getD_cons_zero, if_pos hsign]
      simp only [twoDigits, zoneDigit, List.cons_append, List.nil_append, List.getD_cons_succ,
        List.getD_cons_zero, h₁.1, h₂.1, h₃.1, h₄.1, h₁.2, h₂.2, h₃.2, h₄.2, hhours, hminutes,
        Bool.not_true, Bool.or_self, Bool.false_eq_true, if_false]
    cases east
    · exact (hzone 45#8 (.inr rfl)).trans (congrArg some (if_neg (by decide)))
    · exact (hzone 43#8 (.inl rfl)).trans (congrArg some (if_pos rfl))
  | named name hours listed => exact listed_offset _ listed

theorem weekday_mem : weekdayNames[d.weekday] ∈ weekdayNames ++ monthNames :=
  List.mem_append_left _ (List.getElem_mem _)

theorem month_mem : monthNames[d.month] ∈ weekdayNames ++ monthNames :=
  List.mem_append_right _ (List.getElem_mem _)

theorem zero_notMem_text : 0#8 ∉ d.text := by
  have hname : ∀ name ∈ weekdayNames ++ monthNames, 0#8 ∉ name := fun name hmem hzero =>
    ((names_plain name hmem).2 _ hzero).2 rfl
  have htwo : ∀ n < 100, 0#8 ∉ twoDigits n := fun n hn =>
    zero_notMem_of_digitsValue (digitsValue_twoDigits hn)
  simp only [text, List.mem_append, List.mem_cons, not_or]
  exact ⟨hname _ d.weekday_mem, by decide, by decide,
    zero_notMem_of_digitsValue d.digitsValue_dayText, by decide, hname _ d.month_mem, by decide,
    zero_notMem_of_digitsValue (digitsValue_decimal _), by decide, htwo _ (by omega), by decide,
    htwo _ (by omega), by decide, htwo _ (by omega), by decide, (zone_plain d.zone).2.2.2⟩

theorem stopsAt_isSpace {ds rest : Text} {n : ℕ} (h : digitsValue 10 ds = some n) :
    StopsAt isSpace (ds ++ rest) := by
  obtain ⟨hne, hds, -⟩ := digitsValue_eq_some h
  obtain ⟨b, tail, rfl⟩ := List.exists_cons_of_ne_nil hne
  exact fun c hc => Option.some.inj hc ▸ (isDigitOf_cases (hds b List.mem_cons_self)).1

theorem stopsAt_isSpace_name {name rest : Text} (h : name ∈ weekdayNames ++ monthNames) :
    StopsAt isSpace (name ++ rest) := by
  obtain ⟨hlen, hname⟩ := names_plain name h
  obtain ⟨b, tail, rfl⟩ := List.exists_cons_of_length_pos (by omega : 0 < name.length)
  exact fun c hc => Option.some.inj hc ▸ (hname b List.mem_cons_self).1

theorem scanWord_name {name : Text} (h : name ∈ weekdayNames ++ monthNames) (rest : Text) :
    scanWord 3 (name ++ rest) = some (name, rest) := by
  obtain ⟨hlen, hname⟩ := names_plain name h
  have hne : name ≠ [] := List.ne_nil_of_length_pos (by omega)
  exact hlen ▸ scanWord_append hne (fun b hb => (hname b hb).1) rest

theorem stopsAt_isDigit {b : Byte} (hb : isDigit b = false) (rest : Text) :
    StopsAt isDigit (b :: rest) := fun _ hc => Option.some.inj hc ▸ hb

theorem sscanf_text : sscanf dateFormat d.text = [.int d.day, .text monthNames[d.month],
    .int d.year, .int d.hour, .int d.minute, .int d.second, .text d.zone.text] := by
  have hday := d.digitsValue_dayText
  have hyear := digitsValue_decimal d.year
  have hhour : digitsValue 10 (twoDigits d.hour) = some d.hour.val :=
    digitsValue_twoDigits (by omega)
  have hminute : digitsValue 10 (twoDigits d.minute) = some d.minute.val :=
    digitsValue_twoDigits (by omega)
  have hsecond : digitsValue 10 (twoDigits d.second) = some d.second.val :=
    digitsValue_twoDigits (by omega)
  obtain ⟨hzone, hlen, hstop, -⟩ := zone_plain d.zone
  have hle := d.day_le
  have hrange := d.year_range
  rw [sscanf, cString_eq_self_iff.2 d.zero_notMem_text, text, dateFormat]
  rw [scanFrom_cons (d := .skipWord 3) (congrArg (Option.map _) (scanWord_name d.weekday_mem _)),
    scanFrom_cons (scan_literal _ _), scanFrom_cons (scan_space (stopsAt_isSpace hday)),
    scanFrom_cons (scan_int hday (by omega) (stopsAt_isDigit (by decide) _)),
    scanFrom_cons (scan_space (stopsAt_isSpace_name d.month_mem)),
    scanFrom_cons (d := .word 3) (congrArg (Option.map _) (scanWord_name d.month_mem _)),
    scanFrom_cons (scan_space (stopsAt_isSpace hyear)),
    scanFrom_cons (scan_int hyear (by omega) (stopsAt_isDigit (by decide) _)),
    scanFrom_cons (scan_space (stopsAt_isSpace hhour)),
    scanFrom_cons (scan_int hhour (by omega) (stopsAt_isDigit (by decide) _)),
    scanFrom_cons (scan_literal _ _),
    scanFrom_cons (scan_int hminute (by omega) (stopsAt_isDigit (by decide) _)),
    scanFrom_cons (scan_literal _ _),
    scanFrom_cons (scan_int hsecond (by omega) (stopsAt_isDigit (by decide) _)),
    scanFrom_cons (scan_space hstop), scanFrom_cons (scan_chars hzone hlen)]
  rfl

/-! ### The time zone of the process -/

/-- `mktime` in universal time: it carries months into years, and counts the days of POSIX. -/
def utcMktime (tm : Tm) : ℤ :=
  let year := 1900 + tm.tm_year + tm.tm_mon / 12
  let yday := daysBeforeMonth year.toNat (tm.tm_mon % 12).toNat + tm.tm_mday - 1
  86400 * posixDays year yday + 3600 * tm.tm_hour + 60 * tm.tm_min + tm.tm_sec

/-- Universal time. -/
def utc : TimeZone := ⟨utcMktime, fun _ => 0⟩

theorem monthOf_monthNames : ∀ m : Fin 12,
    monthOf monthNames[m] = if m = 0 then 5 else (m.val : ℤ) := by decide

theorem utcMktime_eq {m : ℕ} (hm : m < 12) : utcMktime
    ⟨d.second, d.minute, d.hour, d.day, m, d.year - 1900⟩ = d.clock (dayNumber d.year m d.day) := by
  have hyear : (1900 : ℤ) + (d.year - 1900) + (m : ℤ) / 12 = d.year := by omega
  have hmod : ((m : ℤ) % 12).toNat = m := by omega
  have hday := d.day_range.1
  rw [utcMktime]
  dsimp only
  rw [hyear, hmod, Int.toNat_natCast, posixDays_eq d.year_range.1, clock, dayNumber]
  push_cast [hday]
  ring

theorem httpDateToSeconds_text : httpDateToSeconds utc d.text = some (BitVec.ofInt 64
    (d.clock (dayNumber d.year (if d.month = 0 then 5 else d.month.val) d.day) +
      d.zone.offset)) := by
  have hm : (if d.month = 0 then 5 else d.month.val) < 12 := by split_ifs <;> omega
  have hmonth : monthOf monthNames[d.month] =
      ((if d.month = 0 then 5 else d.month.val : ℕ) : ℤ) := by
    rw [monthOf_monthNames]
    split_ifs <;> rfl
  rw [httpDateToSeconds, d.sscanf_text]
  dsimp only
  rw [zoneOffset_text, hmonth, Option.map_some]
  have hmktime := d.utcMktime_eq hm
  refine congrArg some ?_
  rw [utc]
  dsimp only
  rw [hmktime, ← BitVec.ofInt_add]
  exact BitVec.add_zero _

theorem listed_range : ∀ e ∈ kTimeZones, -12 ≤ e.2 ∧ e.2 ≤ 12 := by decide

theorem offset_range (z : Zone) : -432000 < z.offset ∧ z.offset < 432000 := by
  cases z with
  | numeric east hours minutes => cases east <;> rw [Zone.offset] <;> omega
  | named name hours listed =>
    have hrange := listed_range _ listed
    dsimp only at hrange
    rw [Zone.offset]
    omega

theorem ofInt_inj {a b : ℤ} (h : -2 ^ 63 < a - b ∧ a - b < 2 ^ 63) :
    BitVec.ofInt 64 a = BitVec.ofInt 64 b ↔ a = b := by
  constructor
  · intro heq
    have hnat := congrArg BitVec.toNat heq
    rw [BitVec.toNat_ofInt, BitVec.toNat_ofInt] at hnat
    omega
  · exact fun heq => heq ▸ rfl

theorem clock_error : ∃ days : ℕ, (days = 0 ∧ d.month ≠ 0 ∨ 151 ≤ days ∧ days ≤ 152 ∧ d.month = 0) ∧
    d.clock (dayNumber d.year (if d.month = 0 then 5 else d.month.val) d.day) =
      d.clock (dayNumber d.year d.month d.day) + 86400 * days := by
  by_cases hm : d.month = 0
  · have hjune := daysBeforeMonth_june d.year
    refine ⟨daysBeforeMonth d.year 5, .inr ⟨by omega, by omega, hm⟩, ?_⟩
    rw [if_pos hm, hm, clock, clock, dayNumber, dayNumber, Fin.val_zero, daysBeforeMonth_zero]
    push_cast
    ring
  · exact ⟨0, .inl ⟨rfl, hm⟩, by rw [if_neg hm]; simp⟩

/-- **A date gives its instant exactly when** its month is not January and its zone is neither
ahead of the universal time nor behind it. -/
theorem httpDateToSeconds_iff : httpDateToSeconds utc d.text = some (BitVec.ofInt 64 d.instant) ↔
    d.month ≠ 0 ∧ d.zone.offset = 0 := by
  obtain ⟨days, hdays, hclock⟩ := d.clock_error
  have hrange := offset_range d.zone
  rw [httpDateToSeconds_text, Option.some.injEq, hclock, instant, ofInt_inj (by omega)]
  constructor
  · intro heq
    refine ⟨fun hm => ?_, by omega⟩
    obtain ⟨-, hne⟩ | ⟨hmany, -⟩ := hdays
    · exact hne hm
    · omega
  · rintro ⟨hm, hoffset⟩
    obtain ⟨rfl, -⟩ | ⟨-, -, hzero⟩ := hdays
    · rw [hoffset]
      simp
    · exact absurd hzero hm

/-- The epoch itself: the function gives the first of June. -/
theorem not_httpDateToSeconds_epoch : ¬∀ d : HttpDate,
    httpDateToSeconds utc d.text = some (BitVec.ofInt 64 d.instant) := by
  intro h
  have heq := h ⟨4, 1, true, 0, 1970, 0, 0, 0, .named (textBytes "GMT") 0 (by decide), by decide,
    by decide⟩
  rw [httpDateToSeconds_text, Option.some.injEq] at heq
  exact absurd heq (by decide +kernel)

end HttpDate

end Jingle.Base.Http
