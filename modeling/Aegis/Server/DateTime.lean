import Aegis.Server.Json.Loads

/-!
# Dates and times

A `datetime` in UTC as text: `isoformat` and `fromisoformat` of Python, by the calendar of its
`datetime` module. Years go from 1 to 9999.
-/

namespace Aegis.Server.DateTime

open Json

/-! ## The calendar -/

/-- `_is_leap(year)`. -/
def isLeap (year : Nat) : Bool :=
  year % 4 = 0 && (year % 100 ≠ 0 || year % 400 = 0)

/-- `_days_before_year(year)`: the days before the first of January. -/
def daysBeforeYear (year : Nat) : Nat :=
  (year - 1) * 365 + (year - 1) / 4 - (year - 1) / 100 + (year - 1) / 400

/-- `_DAYS_BEFORE_MONTH`. -/
def daysBeforeMonthTable : Nat → Nat
  | 1 => 0 | 2 => 31 | 3 => 59 | 4 => 90 | 5 => 120 | 6 => 151
  | 7 => 181 | 8 => 212 | 9 => 243 | 10 => 273 | 11 => 304 | 12 => 334
  | _ => 0

/-- `_days_before_month`, of a year that is or is not a leap year. -/
def daysBeforeMonth (leap : Bool) (month : Nat) : Nat :=
  daysBeforeMonthTable month + if month > 2 && leap then 1 else 0

/-- `_days_in_month`. -/
def daysInMonth (leap : Bool) : Nat → Nat
  | 2 => if leap then 29 else 28
  | 4 => 30 | 6 => 30 | 9 => 30 | 11 => 30
  | _ => 31

/-- A year, a month and a day. -/
structure Date where
  year : Nat
  month : Nat
  day : Nat
  deriving DecidableEq

/-- A date there is. -/
structure Date.Valid (date : Date) : Prop where
  year : 1 ≤ date.year ∧ date.year ≤ 9999
  month : 1 ≤ date.month ∧ date.month ≤ 12
  day : 1 ≤ date.day ∧ date.day ≤ daysInMonth (isLeap date.year) date.month

instance (date : Date) : Decidable date.Valid :=
  decidable_of_iff (((1 ≤ date.year ∧ date.year ≤ 9999) ∧ (1 ≤ date.month ∧ date.month ≤ 12)) ∧
    (1 ≤ date.day ∧ date.day ≤ daysInMonth (isLeap date.year) date.month))
    ⟨fun h ↦ ⟨h.1.1, h.1.2, h.2⟩, fun h ↦ ⟨⟨h.year, h.month⟩, h.day⟩⟩

/-- `_ymd2ord`: the number of the day, of which the first of January of the year 1 has the first. -/
def Date.toOrdinal (date : Date) : Nat :=
  daysBeforeYear date.year + daysBeforeMonth (isLeap date.year) date.month + date.day

/-- The month and the day of a day of the year, counted from zero. -/
def monthDay (leap : Bool) (n : Nat) : Nat × Nat :=
  let month := (n + 50) / 32
  if daysBeforeMonth leap month > n then
    (month - 1, n - daysBeforeMonth leap (month - 1) + 1)
  else (month, n - daysBeforeMonth leap month + 1)

/-- `_ord2ymd`. -/
def Date.ofOrdinal (ordinal : Nat) : Date :=
  let n := ordinal - 1
  let n400 := n / 146097
  let n := n % 146097
  let n100 := n / 36524
  let n := n % 36524
  let n4 := n / 1461
  let n := n % 1461
  let n1 := n / 365
  let n := n % 365
  let year := n400 * 400 + 1 + n100 * 100 + n4 * 4 + n1
  if n1 = 4 ∨ n100 = 4 then ⟨year - 1, 12, 31⟩
  else
    let leap := n1 = 3 && (n4 ≠ 24 || n100 = 3)
    ⟨year, (monthDay leap n).1, (monthDay leap n).2⟩

/-- A day of the year is a day of a month. -/
theorem month_day_spec (leap : Bool) {n : Nat} (h : n < 365 + if leap then 1 else 0) :
    (1 ≤ (monthDay leap n).1 ∧ (monthDay leap n).1 ≤ 12) ∧
      (1 ≤ (monthDay leap n).2 ∧ (monthDay leap n).2 ≤ daysInMonth leap (monthDay leap n).1) ∧
      daysBeforeMonth leap (monthDay leap n).1 + (monthDay leap n).2 = n + 1 := by
  revert n
  cases leap <;> decide +kernel

/-- Which years of a cycle are leap years. -/
theorem is_leap_parts {n400 n100 n4 n1 : Nat} (h100 : n100 ≤ 3) (h4 : n4 ≤ 24) (h1 : n1 ≤ 3) :
    isLeap (n400 * 400 + 1 + n100 * 100 + n4 * 4 + n1) =
      decide (n1 = 3 ∧ (n4 ≠ 24 ∨ n100 = 3)) := by
  rw [isLeap, Bool.eq_iff_iff]
  simp only [ne_eq, decide_not, Bool.and_eq_true, decide_eq_true_eq, Bool.or_eq_true,
    Bool.not_eq_true', decide_eq_false_iff_not]
  omega

/-- How many days come before a year of a cycle. -/
theorem days_before_year_parts {n400 n100 n4 n1 : Nat} (h100 : n100 ≤ 3) (h4 : n4 ≤ 24)
    (h1 : n1 ≤ 3) :
    daysBeforeYear (n400 * 400 + 1 + n100 * 100 + n4 * 4 + n1) =
      n400 * 146097 + n100 * 36524 + n4 * 1461 + n1 * 365 := by
  rw [daysBeforeYear]
  omega

/-- A day of a year that is not the last one of a leap year has its number. -/
theorem of_parts_spec {n400 n100 n4 n1 n : Nat} (h100 : n100 ≤ 3) (h4 : n4 ≤ 24) (h1 : n1 ≤ 3)
    (hn : n < 365) (hyear : n400 * 400 + 1 + n100 * 100 + n4 * 4 + n1 ≤ 9999) {leap : Bool}
    (hleap : leap = decide (n1 = 3 ∧ (n4 ≠ 24 ∨ n100 = 3))) {date : Date}
    (hdate : date = ⟨n400 * 400 + 1 + n100 * 100 + n4 * 4 + n1, (monthDay leap n).1,
      (monthDay leap n).2⟩) :
    date.Valid ∧ date.toOrdinal = n400 * 146097 + n100 * 36524 + n4 * 1461 + n1 * 365 + n + 1 := by
  obtain ⟨hmonth, hday, hbefore⟩ := @month_day_spec leap n (by omega)
  rw [← is_leap_parts h100 h4 h1] at hleap
  rw [hdate]
  refine ⟨⟨⟨?_, hyear⟩, hmonth, ?_⟩, ?_⟩
  · show 1 ≤ n400 * 400 + 1 + n100 * 100 + n4 * 4 + n1
    omega
  · rw [← hleap]
    exact hday
  · rw [Date.toOrdinal, ← hleap, days_before_year_parts h100 h4 h1]
    dsimp only
    omega

/-- The number of the last day. -/
def MAX_ORDINAL : Nat := 3652059

/-- Every day has a date, of which it is the day. -/
theorem of_ordinal_spec {ordinal : Nat} (h : 1 ≤ ordinal) (hmax : ordinal ≤ MAX_ORDINAL) :
    (Date.ofOrdinal ordinal).Valid ∧ (Date.ofOrdinal ordinal).toOrdinal = ordinal := by
  rw [MAX_ORDINAL] at hmax
  obtain ⟨n400, r400, hn400, hr400⟩ : ∃ n400 r400, ordinal - 1 = n400 * 146097 + r400 ∧
      r400 < 146097 := ⟨(ordinal - 1) / 146097, (ordinal - 1) % 146097, by omega, by omega⟩
  obtain ⟨n100, r100, hn100, hr100⟩ : ∃ n100 r100, r400 = n100 * 36524 + r100 ∧ r100 < 36524 :=
    ⟨r400 / 36524, r400 % 36524, by omega, by omega⟩
  obtain ⟨n4, r4, hn4, hr4⟩ : ∃ n4 r4, r100 = n4 * 1461 + r4 ∧ r4 < 1461 :=
    ⟨r100 / 1461, r100 % 1461, by omega, by omega⟩
  obtain ⟨n1, n, hn1, hn⟩ : ∃ n1 n, r4 = n1 * 365 + n ∧ n < 365 :=
    ⟨r4 / 365, r4 % 365, by omega, by omega⟩
  have hdate : Date.ofOrdinal ordinal = if n1 = 4 ∨ n100 = 4 then
      ⟨n400 * 400 + 1 + n100 * 100 + n4 * 4 + n1 - 1, 12, 31⟩
      else ⟨n400 * 400 + 1 + n100 * 100 + n4 * 4 + n1,
        (monthDay (n1 = 3 && (n4 ≠ 24 || n100 = 3)) n).1,
        (monthDay (n1 = 3 && (n4 ≠ 24 || n100 = 3)) n).2⟩ := by
    have h₁ : (ordinal - 1) / 146097 = n400 := by omega
    have h₂ : (ordinal - 1) % 146097 = r400 := by omega
    have h₃ : r400 / 36524 = n100 := by omega
    have h₄ : r400 % 36524 = r100 := by omega
    have h₅ : r100 / 1461 = n4 := by omega
    have h₆ : r100 % 1461 = r4 := by omega
    have h₇ : r4 / 365 = n1 := by omega
    have h₈ : r4 % 365 = n := by omega
    simp only [Date.ofOrdinal, h₁, h₂, h₃, h₄, h₅, h₆, h₇, h₈]
  by_cases hlast : n1 = 4 ∨ n100 = 4
  · rw [hdate, if_pos hlast]
    have hleap : isLeap (n400 * 400 + 1 + n100 * 100 + n4 * 4 + n1 - 1) = true := by
      rw [isLeap]
      simp only [ne_eq, decide_not, Bool.and_eq_true, decide_eq_true_eq, Bool.or_eq_true,
        Bool.not_eq_true', decide_eq_false_iff_not]
      omega
    refine ⟨⟨⟨?_, ?_⟩, by simp, ?_⟩, ?_⟩
    · show 1 ≤ n400 * 400 + 1 + n100 * 100 + n4 * 4 + n1 - 1
      omega
    · show n400 * 400 + 1 + n100 * 100 + n4 * 4 + n1 - 1 ≤ 9999
      omega
    · exact ⟨by simp, by simp [daysInMonth]⟩
    · rw [Date.toOrdinal, hleap]
      show daysBeforeYear (n400 * 400 + 1 + n100 * 100 + n4 * 4 + n1 - 1) + (334 + 1) + 31 = ordinal
      rw [daysBeforeYear]
      rcases hlast with hlast | hlast
      · have hyear : n400 * 400 + 1 + n100 * 100 + n4 * 4 + n1 - 1 - 1 =
            400 * n400 + 100 * n100 + 4 * n4 + 3 := by
          omega
        have hfour : (400 * n400 + 100 * n100 + 4 * n4 + 3) / 4 = 100 * n400 + 25 * n100 + n4 := by
          omega
        have hcentury : (400 * n400 + 100 * n100 + 4 * n4 + 3) / 100 = 4 * n400 + n100 := by omega
        have hcycle : (400 * n400 + 100 * n100 + 4 * n4 + 3) / 400 = n400 := by omega
        rw [hyear, hfour, hcentury, hcycle]
        omega
      · have hyear : n400 * 400 + 1 + n100 * 100 + n4 * 4 + n1 - 1 - 1 = 400 * n400 + 399 := by
          omega
        rw [hyear]
        omega
  · rw [hdate, if_neg hlast]
    have hspec := @of_parts_spec n400 n100 n4 n1 n (by omega) (by omega) (by omega) hn (by omega)
      (n1 = 3 && (n4 ≠ 24 || n100 = 3)) (by simp) _ rfl
    refine ⟨hspec.1, hspec.2.trans ?_⟩
    omega

/-! ## Text -/

/-- `width` digits of a number. -/
def padded : Nat → Nat → PyStr
  | 0, _ => []
  | width + 1, n => padded width (n / 10) ++ [Fin.ofNat _ (48 + n % 10)]

/-- The microseconds of a day. -/
abbrev DAY : Nat := 86400000000

/-- The microseconds from the first of January of the year 1 to the epoch. -/
abbrev EPOCH : Nat := 62135596800000000

/-- A time that a `datetime` can hold. -/
def InRange (t : Instant) : Prop :=
  0 ≤ t + EPOCH ∧ t + EPOCH < MAX_ORDINAL * DAY

instance (t : Instant) : Decidable (InRange t) :=
  inferInstanceAs (Decidable (_ ∧ _))

/-- The microseconds of a second, where there are any. -/
def fractionText (fraction : Nat) : PyStr :=
  if fraction = 0 then [] else py "." ++ padded 6 fraction

/-- The time of the day, in microseconds, as text. -/
def clockText (clock : Nat) : PyStr :=
  padded 2 (clock / 3600000000) ++ (py ":" ++ (padded 2 (clock / 60000000 % 60) ++
    (py ":" ++ (padded 2 (clock / 1000000 % 60) ++ fractionText (clock % 1000000)))))

/-- A date as text. -/
def Date.text (date : Date) : PyStr :=
  padded 4 date.year ++ (py "-" ++ (padded 2 date.month ++ (py "-" ++ padded 2 date.day)))

/-- `value.isoformat()` of a `datetime` in UTC. -/
def isoformat (t : Instant) : PyStr :=
  let total := (t + EPOCH).toNat
  (Date.ofOrdinal (total / DAY + 1)).text ++ (py "T" ++ (clockText (total % DAY) ++ py "+00:00"))

/-! ## Reading -/

/-- A number of `width` digits. -/
def readDigits (width : Nat) : Reader PyChar Nat := fun text ↦
  if (text.take width).length = width ∧ (text.take width).all isDigit then
    some (digitsValue (text.take width), text.drop width)
  else none

/-- A character that has to be there. -/
def readChar (c : PyChar) : Reader PyChar Unit
  | [] => none
  | d :: rest => if d = c then some ((), rest) else none

/-- The digits after the point, as microseconds. -/
def readFraction : Reader PyChar Nat
  | [] => some (0, [])
  | c :: rest =>
      if c = pyChar '.' then
        let digits := rest.takeWhile isDigit
        if digits = [] then none
        else some (digitsValue ((digits ++ List.replicate 6 (pyChar '0')).take 6),
          rest.dropWhile isDigit)
      else some (0, c :: rest)

/-- The part of a time after a colon, which has to be below sixty. -/
def readSexagesimal : Reader PyChar (Option Nat)
  | [] => some (none, [])
  | c :: rest =>
      if c = pyChar ':' then (readDigits 2 rest).bind fun (n, rest) ↦
        if n < 60 then some (some n, rest) else none
      else some (none, c :: rest)

/-- The microseconds after `HH:MM`. -/
def readSeconds : Reader PyChar Nat := fun text ↦
  (readSexagesimal text).bind fun (second, text) ↦
    second.elim (some (0, text)) fun second ↦
      (readFraction text).map fun (fraction, text) ↦ (second * 1000000 + fraction, text)

/-- The microseconds after `HH`. -/
def readMinutes : Reader PyChar Nat := fun text ↦
  (readSexagesimal text).bind fun (minute, text) ↦
    minute.elim (some (0, text)) fun minute ↦
      (readSeconds text).map fun (seconds, text) ↦ (minute * 60000000 + seconds, text)

/-- `HH[:MM[:SS[.ffffff]]]`, in microseconds. -/
def readClock : Reader PyChar Nat := fun text ↦
  (readDigits 2 text).bind fun (hour, text) ↦
    if hour < 24 then
      (readMinutes text).map fun (minutes, text) ↦ (hour * 3600000000 + minutes, text)
    else none

/-- The offset from UTC, which may be left out. -/
def readOffset : PyStr → Option (Option Int)
  | [] => some none
  | c :: rest =>
      if c = pyChar 'Z' then if rest = [] then some (some 0) else none
      else if c = pyChar '+' ∨ c = pyChar '-' then
        (readClock rest).bind fun (offset, rest) ↦
          if rest = [] then some (some (if c = pyChar '+' then offset else -offset)) else none
      else none

/-- `YYYY-MM-DD`. -/
def readDate : Reader PyChar Date := fun text ↦ do
  let (year, text) ← readDigits 4 text
  let (_, text) ← readChar (pyChar '-') text
  let (month, text) ← readDigits 2 text
  let (_, text) ← readChar (pyChar '-') text
  let (day, text) ← readDigits 2 text
  if Date.Valid ⟨year, month, day⟩ then some (⟨year, month, day⟩, text) else none

/-- The time of a date and a clock. -/
def localTime (date : Date) (clock : Nat) : Instant :=
  ((date.toOrdinal - 1) * DAY + clock : Nat) - EPOCH

/-- `datetime.fromisoformat(text)` of the format `YYYY-MM-DD[*HH[:MM[:SS[.ffffff]]][+HH:MM]]`: the
time on the clock, and the offset from UTC if there is one. -/
def fromisoformat (text : PyStr) : Option (Instant × Option Int) :=
  (readDate text).bind fun (date, text) ↦
    match text with
    | [] => some (localTime date 0, none)
    | _ :: text =>
        (readClock text).bind fun (clock, text) ↦
          (readOffset text).map fun offset ↦ (localTime date clock, offset)

/-! ## Reading what was written -/

theorem length_padded (width n : Nat) : (padded width n).length = width := by
  induction width generalizing n with
  | zero => rfl
  | succ width ih => rw [padded, List.length_append, ih, List.length_singleton]

theorem is_digit_of_mem_padded {width n : Nat} {c : PyChar} (h : c ∈ padded width n) :
    isDigit c = true := by
  induction width generalizing n with
  | zero => cases h
  | succ width ih =>
      rcases List.mem_append.mp h with h | h
      · exact ih h
      · rw [List.mem_singleton.mp h]
        have hdigit : ∀ d < 10, isDigit (Fin.ofNat _ (48 + d)) = true := by decide
        exact hdigit _ (Nat.mod_lt _ (by decide))

/-- Digits stand for the number they were written for. -/
theorem digits_value_padded {width n : Nat} (h : n < 10 ^ width) :
    digitsValue (padded width n) = n := by
  induction width generalizing n with
  | zero => exact (Nat.lt_one_iff.mp h).symm
  | succ width ih =>
      have hdigit : ∀ d < 10, (Fin.ofNat 0x110000 (48 + d)).val - 48 = d := by decide
      have hrest := @ih (n / 10) (by omega)
      rw [digitsValue, padded, List.map_append, ofDigits, List.foldl_append]
      rw [digitsValue, ofDigits] at hrest
      rw [hrest]
      show 10 * (n / 10) + ((Fin.ofNat 0x110000 (48 + n % 10)).val - 48) = n
      rw [hdigit _ (Nat.mod_lt _ (by decide))]
      omega

/-- A number is read back. -/
theorem read_padded {width n : Nat} (h : n < 10 ^ width) (rest : PyStr) :
    readDigits width (padded width n ++ rest) = some (n, rest) := by
  have htake : (padded width n ++ rest).take width = padded width n :=
    List.take_left' (length_padded width n)
  have hdrop : (padded width n ++ rest).drop width = rest :=
    List.drop_left' (length_padded width n)
  rw [readDigits, htake, hdrop, if_pos ⟨length_padded width n, List.all_eq_true.mpr fun c hc ↦
    is_digit_of_mem_padded hc⟩, digits_value_padded h]

/-- Text does not begin with a digit. -/
def NoDigit (rest : PyStr) : Prop :=
  ∀ c ∈ rest.head?, isDigit c = false

/-- The microseconds of a second are read back. -/
theorem read_fraction_text {fraction : Nat} (h : fraction < 1000000) {rest : PyStr}
    (hdigit : NoDigit rest) (hpoint : rest.head? ≠ some (pyChar '.')) :
    readFraction (fractionText fraction ++ rest) = some (fraction, rest) := by
  rw [fractionText]
  split_ifs with hzero
  · rw [hzero, List.nil_append]
    cases rest with
    | nil => rfl
    | cons c rest => rw [readFraction, if_neg fun hc ↦ hpoint (congrArg some hc)]
  · have hall : ∀ c ∈ padded 6 fraction, isDigit c = true := fun c hc ↦ is_digit_of_mem_padded hc
    have hstop : rest.takeWhile isDigit = [] ∧ rest.dropWhile isDigit = rest := by
      cases rest with
      | nil => exact ⟨rfl, rfl⟩
      | cons c rest =>
          have hc : ¬ isDigit c = true := Bool.eq_false_iff.mp (hdigit c rfl)
          exact ⟨List.takeWhile_cons_of_neg hc, List.dropWhile_cons_of_neg hc⟩
    have htake : (padded 6 fraction ++ rest).takeWhile isDigit = padded 6 fraction := by
      rw [List.takeWhile_append_of_pos hall, hstop.1, List.append_nil]
    have hdrop : (padded 6 fraction ++ rest).dropWhile isDigit = rest := by
      rw [List.dropWhile_append_of_pos hall, hstop.2]
    have hne : padded 6 fraction ≠ [] := fun hnil ↦ by
      have hlength := length_padded 6 fraction
      rw [hnil] at hlength
      exact absurd hlength (by decide)
    show readFraction (pyChar '.' :: (padded 6 fraction ++ rest)) = _
    rw [readFraction, if_pos rfl]
    dsimp only
    rw [htake, hdrop, if_neg hne, List.take_left' (length_padded 6 fraction),
      digits_value_padded h]

/-- A part of a time is read back. -/
theorem read_sexagesimal_text {n : Nat} (h : n < 60) (rest : PyStr) :
    readSexagesimal (py ":" ++ (padded 2 n ++ rest)) = some (some n, rest) := by
  show readSexagesimal (pyChar ':' :: (padded 2 n ++ rest)) = _
  rw [readSexagesimal, if_pos rfl, read_padded (show n < 10 ^ 2 by omega)]
  exact if_pos h

/-- The time of a day is read back. -/
theorem read_clock_text {clock : Nat} (h : clock < DAY) {rest : PyStr} (hdigit : NoDigit rest)
    (hpoint : rest.head? ≠ some (pyChar '.')) :
    readClock (clockText clock ++ rest) = some (clock, rest) := by
  have hhour : clock / 3600000000 < 24 := by
    unfold DAY at h
    omega
  have hfraction := read_fraction_text (Nat.mod_lt clock (by decide)) hdigit hpoint
  have hseconds : readSeconds (py ":" ++ (padded 2 (clock / 1000000 % 60) ++
      (fractionText (clock % 1000000) ++ rest))) =
        some (clock / 1000000 % 60 * 1000000 + clock % 1000000, rest) := by
    rw [readSeconds, read_sexagesimal_text (Nat.mod_lt _ (by decide))]
    dsimp only [Option.bind_some, Option.elim_some]
    rw [hfraction]
    rfl
  have hminutes : readMinutes (py ":" ++ (padded 2 (clock / 60000000 % 60) ++ (py ":" ++
      (padded 2 (clock / 1000000 % 60) ++ (fractionText (clock % 1000000) ++ rest))))) =
        some (clock / 60000000 % 60 * 60000000 +
          (clock / 1000000 % 60 * 1000000 + clock % 1000000), rest) := by
    rw [readMinutes, read_sexagesimal_text (Nat.mod_lt _ (by decide))]
    dsimp only [Option.bind_some, Option.elim_some]
    rw [hseconds]
    rfl
  rw [clockText]
  simp only [List.append_assoc]
  rw [readClock, read_padded (show clock / 3600000000 < 10 ^ 2 by omega)]
  dsimp only [Option.bind_some]
  rw [if_pos hhour, hminutes]
  dsimp only [Option.map_some]
  congr 2
  omega

/-- A date is read back. -/
theorem read_date_text {date : Date} (h : date.Valid) (rest : PyStr) :
    readDate (date.text ++ rest) = some (date, rest) := by
  have hday : date.day < 10 ^ 2 := by
    have hmonth : daysInMonth (isLeap date.year) date.month ≤ 31 := by
      unfold daysInMonth
      split <;> first | (split <;> decide) | decide
    have := h.day
    omega
  have hyear : date.year < 10 ^ 4 := by
    have := h.year
    omega
  have hmonth : date.month < 10 ^ 2 := by
    have := h.month
    omega
  have hhyphen : ∀ rest, readChar (pyChar '-') (py "-" ++ rest) = some ((), rest) := fun _ ↦ rfl
  rw [Date.text]
  simp only [List.append_assoc]
  rw [readDate, read_padded hyear]
  simp only [Option.bind_eq_bind, Option.bind_some, hhyphen]
  rw [read_padded hmonth]
  simp only [Option.bind_some, hhyphen]
  rw [read_padded hday]
  exact if_pos h

/-- A time is read back from its text. -/
theorem fromisoformat_isoformat {t : Instant} (h : InRange t) :
    fromisoformat (isoformat t) = some (t, some 0) := by
  obtain ⟨total, htotal⟩ := Int.eq_ofNat_of_zero_le h.1
  have hrange : total < MAX_ORDINAL * DAY := by
    have hhigh := h.2
    rw [htotal] at hhigh
    exact_mod_cast hhigh
  have htoNat : (t + EPOCH).toNat = total := by
    rw [htotal]
    exact Int.toNat_natCast total
  have hdays : total / DAY + 1 ≤ MAX_ORDINAL := by
    unfold MAX_ORDINAL DAY at *
    omega
  obtain ⟨hvalid, hordinal⟩ := of_ordinal_spec (Nat.le_add_left _ _) hdays
  have hclock : readClock (clockText (total % DAY) ++ py "+00:00") =
      some (total % DAY, py "+00:00") :=
    read_clock_text (Nat.mod_lt total (show 0 < DAY by decide)) (fun c hc ↦ by cases hc; decide)
      (by decide)
  have hoffset : readOffset (py "+00:00") = some (some 0) := by decide +kernel
  have htime : localTime (Date.ofOrdinal (total / DAY + 1)) (total % DAY) = t := by
    rw [localTime, hordinal, Nat.add_sub_cancel, Nat.div_add_mod', ← htotal]
    exact add_sub_cancel_right t _
  rw [isoformat, htoNat, fromisoformat, read_date_text hvalid]
  show ((readClock (clockText (total % DAY) ++ py "+00:00")).bind _) = _
  rw [hclock]
  dsimp only [Option.bind_some]
  rw [hoffset, htime]
  rfl

end Aegis.Server.DateTime
