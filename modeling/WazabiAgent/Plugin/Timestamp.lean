import Mathlib.Tactic.IntervalCases
import WazabiAgent.Lib.Checked
import WazabiAgent.Lib.Gregorian
import WazabiAgent.Plugin.EmitEvent

/-!
# The time of an event

`format_iso8601_ns` (`plugin/server.rs`) takes the days of a time apart into year, month and day.
It counts from the first of March of the year 0, so that a leap day is the last day of a year, and
in eras of 400 years, which are all alike. The numbers are unsigned but for the days and the era.

## Main definitions

* `checkedIso8601Ns` — the same with every subtraction checked
* `timeOfNs` — the time that it writes

## Main results

* `timestamps_faithful` — it is the right time, and the texts are in the order of the times
-/

namespace WazabiAgent

namespace Plugin

open Gregorian

/-! ### The program, with its subtractions checked -/

/-- `x as u64`, if that is `x`. -/
def asUnsigned (x : Int) : Option ℕ := if 0 ≤ x then some x.toNat else none

/-- The month, from the month counted from March; `none` is an underflow. -/
def checkedMonth (mp : ℕ) : Option ℕ := if mp < 10 then some (mp + 3) else Checked.sub mp 9

/-- The year, the month and the day. -/
def checkedCivil (totalSecs : ℕ) : Option (ℕ × ℕ × ℕ) := do
  let days : Int := (totalSecs / 86400 : ℕ) + 719468
  let era := (if 0 ≤ days then days else days - 146096).tdiv 146097
  let doe ← asUnsigned (days - era * 146097)
  let fours ← Checked.sub doe (doe / 1460)
  let leapless ← Checked.sub (fours + doe / 36524) (doe / 146096)
  let yoe := leapless / 365
  let y : Int := yoe + era * 400
  let start ← Checked.sub (365 * yoe + yoe / 4) (yoe / 100)
  let doy ← Checked.sub doe start
  let mp := (5 * doy + 2) / 153
  let d ← Checked.sub doy ((153 * mp + 2) / 5)
  let m ← checkedMonth mp
  let year ← asUnsigned (if m ≤ 2 then y + 1 else y)
  some (year, m, d + 1)

/-- `format_iso8601_ns`, or nothing if a difference is below zero. -/
def checkedIso8601Ns (ns : UInt64) : Option String := do
  let totalSecs := ns.toNat / 1000000000
  let ms := ns.toNat % 1000000000 / 1000000
  let secs := totalSecs % 60
  let mins := totalSecs / 60 % 60
  let hours := totalSecs / 3600 % 24
  let (year, m, d) ← checkedCivil totalSecs
  some (Text.padded 4 year ++ "-" ++ Text.padded 2 m ++ "-" ++ Text.padded 2 d ++ "T" ++
    Text.padded 2 hours ++ ":" ++ Text.padded 2 mins ++ ":" ++ Text.padded 2 secs ++ "." ++
    Text.padded 3 ms ++ "Z")

/-! ### Eras -/

/-- The day of an era: `c` centuries, `k` times four years, `j` years and `x` days. -/
structure InEra (doe c k j x : ℕ) : Prop where
  c_le : c ≤ 3
  k_le : k ≤ 24
  j_le : j ≤ 3
  x_le : x ≤ 365
  leap : x = 365 → j = 3 ∧ (k = 24 → c = 3)
  sum : doe = 36524 * c + 1461 * k + 365 * j + x

theorem exists_inEra {doe : ℕ} (h : doe < 146097) : ∃ c k j x, InEra doe c k j x := by
  obtain ⟨c, hc⟩ : ∃ c, c = min 3 (doe / 36524) := ⟨_, rfl⟩
  obtain ⟨k, hk⟩ : ∃ k, k = (doe - 36524 * c) / 1461 := ⟨_, rfl⟩
  obtain ⟨j, hj⟩ : ∃ j, j = min 3 ((doe - 36524 * c - 1461 * k) / 365) := ⟨_, rfl⟩
  refine ⟨c, k, j, doe - 36524 * c - 1461 * k - 365 * j, ?_, ?_, ?_, ?_, ?_, ?_⟩ <;> omega

/-- The corrections leave 365 days for every year. -/
theorem yoe_eq {doe c k j x : ℕ} (h : InEra doe c k j x) :
    (doe - doe / 1460 + doe / 36524 - doe / 146096) / 365 = 100 * c + 4 * k + j := by
  obtain ⟨hc, hk, hj, hx, hleap, hsum⟩ := h
  have h1 : doe / 1460 = 25 * c + k + if 1460 ≤ 24 * c + k + 365 * j + x then 1 else 0 := by
    split <;> omega
  -- the last day of an era is past four centuries, and corrected for it
  have h2 : doe / 36524 = doe / 146096 + c := by
    obtain ⟨r, hr⟩ : ∃ r, r = 1461 * k + 365 * j + x := ⟨_, rfl⟩
    have hlast : r = 36524 → c = 3 := by omega
    have hle : r ≤ 36524 := by omega
    have hdoe : doe = 36524 * c + r := by omega
    clear hsum h1 hr hleap
    by_cases heq : r = 36524
    · obtain rfl := hlast heq
      omega
    · omega
  split at h1 <;> omega

theorem doy_eq {doe c k j x : ℕ} (h : InEra doe c k j x) {yoe : ℕ}
    (hyoe : yoe = 100 * c + 4 * k + j) : 365 * yoe + yoe / 4 - yoe / 100 + x = doe := by
  obtain ⟨hc, hk, hj, -, -, hsum⟩ := h
  have hfours : yoe / 4 = 25 * c + k := by omega
  have hhundreds : yoe / 100 = c := by omega
  omega

/-- The day that an era may have and a year may not is a leap day. -/
theorem isLeap_of_inEra {doe c k j x : ℕ} (h : InEra doe c k j x) (hx : x = 365) (era : ℕ) :
    isLeap (100 * c + 4 * k + j + era * 400 + 1) = true := by
  obtain ⟨hj, hlast⟩ := h.leap hx
  have := h.c_le
  have := h.k_le
  rw [isLeap_iff]
  by_cases hk : k = 24
  · have := hlast hk
    omega
  · omega

/-! ### Months -/

/-- The month, counted from January, of the one counted from March. -/
def monthOf (mp : ℕ) : ℕ := if mp < 10 then mp + 3 else mp - 9

/-- From March on, five months have 153 days, and so the months before January. -/
theorem monthLength_monthOf (y : ℕ) {mp : ℕ} (h : mp ≤ 10) :
    monthLength y (monthOf mp) + (153 * mp + 2) / 5 = (153 * (mp + 1) + 2) / 5 := by
  interval_cases mp <;> rfl

theorem daysBeforeMonth_march (y : ℕ) {mp : ℕ} (h : mp ≤ 9) :
    daysBeforeMonth y (mp + 3) + 306 = yearLength y + (153 * mp + 2) / 5 := by
  have hfeb : monthLength y 2 + 337 = yearLength y := by
    rw [yearLength, monthLength]
    split <;> rfl
  rw [← hfeb]
  interval_cases mp <;> simp only [daysBeforeMonth, monthLength] <;> omega

/-- The date of day `x` of the year that begins in March of `y`. -/
theorem exists_date {y x : ℕ} (hx : x ≤ 365) (hleap : x = 365 → isLeap (y + 1) = true) :
    ∃ date : Date, date.month = monthOf ((5 * x + 2) / 153) ∧
      date.day = x - (153 * ((5 * x + 2) / 153) + 2) / 5 + 1 ∧
        date.year = (if monthOf ((5 * x + 2) / 153) ≤ 2 then y + 1 else y) ∧
          date.dayNumber + 306 = daysBeforeYear (y + 1) + x := by
  obtain ⟨mp, hmp⟩ : ∃ mp, mp = (5 * x + 2) / 153 := ⟨_, rfl⟩
  rw [← hmp]
  have hlow : (153 * mp + 2) / 5 ≤ x := by omega
  have hhigh : x < (153 * (mp + 1) + 2) / 5 := by omega
  have hle : mp ≤ 11 := by omega
  rcases (show mp ≤ 9 ∨ mp = 10 ∨ mp = 11 by omega) with hmp9 | rfl | rfl
  · have hmonth : monthOf mp = mp + 3 := if_pos (by omega)
    have hlength := monthLength_monthOf y (show mp ≤ 10 by omega)
    have hbefore := daysBeforeMonth_march y hmp9
    rw [hmonth] at hlength ⊢
    refine ⟨⟨y, mp + 3, x - (153 * mp + 2) / 5 + 1, by omega, by omega, by omega, by omega⟩, rfl,
      rfl, (if_neg (by omega)).symm, ?_⟩
    rw [Date.dayNumber, daysBeforeYear]
    simp only
    omega
  · refine ⟨⟨y + 1, 1, x - (153 * 10 + 2) / 5 + 1, by omega, by omega, by omega, ?_⟩, rfl, rfl, rfl,
      ?_⟩
    · show x - 306 + 1 ≤ 31
      omega
    · rw [Date.dayNumber]
      simp only [daysBeforeMonth, monthLength]
      omega
  · refine ⟨⟨y + 1, 2, x - (153 * 11 + 2) / 5 + 1, by omega, by omega, by omega, ?_⟩, rfl, rfl, rfl,
      ?_⟩
    · show x - 337 + 1 ≤ if isLeap (y + 1) then 29 else 28
      by_cases hlast : x = 365
      · rw [hleap hlast, if_pos rfl, hlast]
      · split <;> omega
    · rw [Date.dayNumber]
      simp only [daysBeforeMonth, monthLength]
      omega

/-! ### The time -/

/-- The numbers that the program computes on day `n`, and the date. -/
structure Civil (n : ℕ) (date : Date) (era doe yoe x : ℕ) : Prop where
  era_eq : (n + 719468) / 146097 = era
  sum : n + 719468 = doe + era * 146097
  doe_lt : doe < 146097
  yoe_eq : (doe - doe / 1460 + doe / 36524 - doe / 146096) / 365 = yoe
  doy_eq : 365 * yoe + yoe / 4 - yoe / 100 + x = doe
  x_le : x ≤ 365
  month_eq : date.month = monthOf ((5 * x + 2) / 153)
  day_eq : date.day = x - (153 * ((5 * x + 2) / 153) + 2) / 5 + 1
  year_eq : date.year = if date.month ≤ 2 then yoe + era * 400 + 1 else yoe + era * 400
  number_eq : date.dayNumber = n + epoch.dayNumber

theorem exists_civil (n : ℕ) : ∃ date era doe yoe x, Civil n date era doe yoe x := by
  obtain ⟨era, hera⟩ : ∃ era, era = (n + 719468) / 146097 := ⟨_, rfl⟩
  obtain ⟨doe, hdoe⟩ : ∃ doe, doe = (n + 719468) % 146097 := ⟨_, rfl⟩
  have hsum : n + 719468 = doe + era * 146097 := by omega
  have hlt : doe < 146097 := by omega
  obtain ⟨c, k, j, x, h⟩ := exists_inEra hlt
  obtain ⟨yoe, hyoe⟩ : ∃ yoe, yoe = 100 * c + 4 * k + j := ⟨_, rfl⟩
  have hdoy := doy_eq h hyoe
  obtain ⟨date, hmonth, hday, hyear, hnumber⟩ := exists_date (y := yoe + era * 400) h.x_le
    fun hx => hyoe ▸ isLeap_of_inEra h hx era
  refine ⟨date, era, doe, yoe, x, hera.symm, hsum, hlt, hyoe ▸ yoe_eq h, hdoy, h.x_le, hmonth, hday,
    hmonth ▸ hyear, ?_⟩
  have hyears := daysBeforeYear_eq (yoe + era * 400 + 1)
  have := h.c_le
  have := h.k_le
  have := h.j_le
  have h4 : (yoe + era * 400 + 1 + 3) / 4 = yoe / 4 + 100 * era + 1 := by omega
  have h100 : (yoe + era * 400 + 1 + 99) / 100 = yoe / 100 + 4 * era + 1 := by omega
  have h400 : (yoe + era * 400 + 1 + 399) / 400 = era + 1 := by omega
  rw [h4, h100, h400] at hyears
  rw [dayNumber_epoch]
  generalize yoe / 4 = fours at *
  generalize yoe / 100 = hundreds at *
  omega

/-- The time of day, on a date. -/
def timeOn (date : Date) (ns : ℕ) : DateTime where
  date := date
  hour := ns / 1000000000 / 3600 % 24
  minute := ns / 1000000000 / 60 % 60
  second := ns / 1000000000 % 60
  milli := ns % 1000000000 / 1000000
  hour_lt := Nat.mod_lt _ (by decide)
  minute_lt := Nat.mod_lt _ (by decide)
  second_lt := Nat.mod_lt _ (by decide)
  milli_lt := by omega

theorem millis_timeOn {date : Date} {ns : ℕ}
    (h : date.dayNumber = ns / 1000000000 / 86400 + epoch.dayNumber) :
    (timeOn date ns).millis = (ns / 1000000 : ℕ) := by
  rw [DateTime.millis, DateTime.dayMillis, timeOn, h]
  simp only
  omega

theorem formatIso8601Ns_eq {ns : UInt64} {date : Date} {era doe yoe x : ℕ}
    (h : Civil (ns.toNat / 1000000000 / 86400) date era doe yoe x) :
    formatIso8601Ns ns = (timeOn date ns.toNat).text := by
  have hdoe : ns.toNat / 1000000000 / 86400 + 719468 - era * 146097 = doe := by
    have := h.sum
    omega
  have hdoy : doe - (365 * yoe + yoe / 4 - yoe / 100) = x := by
    have := h.doy_eq
    omega
  simp only [formatIso8601Ns, h.era_eq, hdoe, h.yoe_eq, hdoy]
  rw [DateTime.text, timeOn, h.year_eq, h.month_eq, h.day_eq]
  rfl

theorem asUnsigned_natCast (n : ℕ) : asUnsigned (n : Int) = some n := if_pos (Int.natCast_nonneg n)

/-- **Nothing underflows.** -/
theorem checkedCivil_eq {secs : ℕ} {date : Date} {era doe yoe x : ℕ}
    (h : Civil (secs / 86400) date era doe yoe x) :
    checkedCivil secs = some (date.year, date.month, date.day) := by
  have hsum := h.sum
  have hlt := h.doe_lt
  have hdoy := h.doy_eq
  have hx := h.x_le
  have hdays : (0 : Int) ≤ (secs / 86400 : ℕ) + 719468 := by omega
  have hera : (((secs / 86400 : ℕ) : Int) + 719468).tdiv 146097 = (era : Int) := by
    rw [Int.tdiv_eq_ediv_of_nonneg hdays]
    have := h.era_eq
    omega
  have hdoe : ((secs / 86400 : ℕ) : Int) + 719468 - (era : Int) * 146097 = (doe : Int) := by omega
  have hfours : Checked.sub doe (doe / 1460) = some (doe - doe / 1460) :=
    Checked.sub_of_le (Nat.div_le_self _ _)
  have hleapless : Checked.sub (doe - doe / 1460 + doe / 36524) (doe / 146096)
      = some (doe - doe / 1460 + doe / 36524 - doe / 146096) :=
    Checked.sub_of_le (by omega)
  have hstart : Checked.sub (365 * yoe + yoe / 4) (yoe / 100)
      = some (365 * yoe + yoe / 4 - yoe / 100) :=
    Checked.sub_of_le (by omega)
  have hdoy' : Checked.sub doe (365 * yoe + yoe / 4 - yoe / 100) = some x := by
    rw [Checked.sub_of_le (by omega)]
    congr 1
    omega
  have hday : Checked.sub x ((153 * ((5 * x + 2) / 153) + 2) / 5) = some (date.day - 1) := by
    rw [Checked.sub_of_le (by omega), h.day_eq, Nat.add_sub_cancel]
  have hmonth : checkedMonth ((5 * x + 2) / 153) = some date.month := by
    rw [h.month_eq, checkedMonth, monthOf]
    split
    · rfl
    · exact Checked.sub_of_le (by omega)
  have hyear : (if date.month ≤ 2 then (yoe : Int) + (era : Int) * 400 + 1
      else (yoe : Int) + (era : Int) * 400) = (date.year : Int) := by
    rw [h.year_eq]
    split <;> omega
  simp only [checkedCivil, if_pos hdays, hera, hdoe, asUnsigned_natCast, hfours, hleapless,
    h.yoe_eq, hstart, hdoy', hday, hmonth, hyear, Option.bind_eq_bind, Option.bind_some]
  rw [Nat.sub_add_cancel date.day_pos]

/-- **The time of an event is right, and sorts as text.** The text is that of the time of so many
milliseconds, and is read as that time; no difference is below zero on the way; and of two texts the
one of the earlier millisecond comes first. -/
theorem timestamps_faithful :
    (∀ ns : UInt64, ∃ t : DateTime, t.millis = (ns.toNat / 1000000 : ℕ) ∧
      formatIso8601Ns ns = t.text ∧ parse (formatIso8601Ns ns) = some t ∧
        checkedIso8601Ns ns = some (formatIso8601Ns ns)) ∧
      ∀ a b : UInt64, formatIso8601Ns a < formatIso8601Ns b ↔
        a.toNat / 1000000 < b.toNat / 1000000 := by
  have htime (ns : UInt64) : ∃ t : DateTime, t.date.year < 10 ^ 4 ∧
      t.millis = (ns.toNat / 1000000 : ℕ) ∧ formatIso8601Ns ns = t.text ∧
        checkedIso8601Ns ns = some t.text := by
    obtain ⟨date, era, doe, yoe, x, h⟩ := exists_civil (ns.toNat / 1000000000 / 86400)
    have hformat := formatIso8601Ns_eq h
    refine ⟨timeOn date ns.toNat, ?_, millis_timeOn h.number_eq, hformat, ?_⟩
    · show date.year < 10 ^ 4
      have hns := ns.toNat_lt
      have hsum := h.sum
      have hyoe := h.yoe_eq
      have hlt := h.doe_lt
      rw [h.year_eq]
      split <;> omega
    · rw [checkedIso8601Ns]
      simp only [checkedCivil_eq h, Option.bind_eq_bind, Option.bind_some]
      rfl
  constructor
  · intro ns
    obtain ⟨t, hyear, hmillis, hformat, hchecked⟩ := htime ns
    exact ⟨t, hmillis, hformat, hformat ▸ parse_text hyear, hformat ▸ hchecked⟩
  · intro a b
    obtain ⟨t, hyear, hmillis, hformat, -⟩ := htime a
    obtain ⟨t', hyear', hmillis', hformat', -⟩ := htime b
    rw [hformat, hformat', text_lt_iff hyear hyear', hmillis, hmillis', Int.ofNat_lt]

end Plugin

end WazabiAgent
