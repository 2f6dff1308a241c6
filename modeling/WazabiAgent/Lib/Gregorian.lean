import WazabiAgent.Lib.Decimal
import WazabiAgent.Lib.Text

/-!
# The Gregorian calendar

Dates of the proleptic Gregorian calendar, numbered from the first of January of the year 0; times
of a day without leap seconds; and the text of ISO 8601 in milliseconds, for years of four digits.

## Main definitions

* `Date`, `DateTime` — a date that exists, and a time of such a date
* `Date.dayNumber`, `DateTime.millis` — their numbers
* `DateTime.text`, `parse` — the text, and how it is read

## Main results

* `dayNumber_lt_iff` — dates are numbered in their order
* `parse_text` — the text of a time is read as that time
* `text_lt_iff` — texts are in the order of their times
-/

namespace Gregorian

/-! ### Dates -/

/-- A year of 366 days. -/
def isLeap (y : ℕ) : Bool := y % 4 = 0 && (y % 100 ≠ 0 || y % 400 = 0)

/-- The days of a year. -/
def yearLength (y : ℕ) : ℕ := if isLeap y then 366 else 365

/-- The days of a month. -/
def monthLength (y : ℕ) : ℕ → ℕ
  | 2 => if isLeap y then 29 else 28
  | 4 | 6 | 9 | 11 => 30
  | 1 | 3 | 5 | 7 | 8 | 10 | 12 => 31
  | _ => 0

/-- A date that exists. -/
@[ext] structure Date where
  year : ℕ
  month : ℕ
  day : ℕ
  month_pos : 0 < month
  month_le : month ≤ 12
  day_pos : 0 < day
  day_le : day ≤ monthLength year month

/-- The days of all years before this one. -/
def daysBeforeYear : ℕ → ℕ
  | 0 => 0
  | y + 1 => daysBeforeYear y + yearLength y

/-- The days of a year before a month. -/
def daysBeforeMonth (y : ℕ) : ℕ → ℕ
  | 0 => 0
  | m + 1 => daysBeforeMonth y m + monthLength y m

/-- The days since the first of January of the year 0. -/
def Date.dayNumber (t : Date) : ℕ :=
  daysBeforeYear t.year + daysBeforeMonth t.year t.month + (t.day - 1)

theorem isLeap_iff {y : ℕ} : isLeap y = true ↔ y % 4 = 0 ∧ (y % 100 ≠ 0 ∨ y % 400 = 0) := by
  simp [isLeap]

/-- A year adds a leap day for its fours, takes one away for its hundreds, and adds one for its four
hundreds. -/
theorem yearLength_eq (y : ℕ) :
    yearLength y + (if y % 100 = 0 then 1 else 0)
      = 365 + (if y % 4 = 0 then 1 else 0) + (if y % 400 = 0 then 1 else 0) := by
  rw [yearLength]
  by_cases h400 : y % 400 = 0
  · have h100 : y % 100 = 0 := by omega
    have h4 : y % 4 = 0 := by omega
    rw [if_pos (isLeap_iff.mpr ⟨h4, .inr h400⟩), if_pos h100, if_pos h4, if_pos h400]
  by_cases h100 : y % 100 = 0
  · have h4 : y % 4 = 0 := by omega
    have hleap : ¬ isLeap y = true := fun h => (isLeap_iff.mp h).2.elim (· h100) h400
    rw [if_neg hleap, if_pos h100, if_pos h4, if_neg h400]
  by_cases h4 : y % 4 = 0
  · rw [if_pos (isLeap_iff.mpr ⟨h4, .inl h100⟩), if_neg h100, if_pos h4, if_neg h400]
  · have hleap : ¬ isLeap y = true := fun h => h4 (isLeap_iff.mp h).1
    rw [if_neg hleap, if_neg h100, if_neg h4, if_neg h400]

theorem daysBeforeYear_eq (y : ℕ) :
    daysBeforeYear y + (y + 99) / 100 = 365 * y + (y + 3) / 4 + (y + 399) / 400 := by
  induction y with
  | zero => rfl
  | succ y ih =>
    have h4 : (y + 1 + 3) / 4 = (y + 3) / 4 + if y % 4 = 0 then 1 else 0 := by
      split_ifs <;> omega
    have h100 : (y + 1 + 99) / 100 = (y + 99) / 100 + if y % 100 = 0 then 1 else 0 := by
      split_ifs <;> omega
    have h400 : (y + 1 + 399) / 400 = (y + 399) / 400 + if y % 400 = 0 then 1 else 0 := by
      split_ifs <;> omega
    have hlength := yearLength_eq y
    rw [daysBeforeYear, h4, h100, h400]
    -- what is divided does not matter any more
    generalize (y + 3) / 4 = fours at ih ⊢
    generalize (y + 99) / 100 = hundreds at ih ⊢
    generalize (y + 399) / 400 = cycles at ih ⊢
    omega

theorem daysBeforeYear_mono {y y' : ℕ} (h : y ≤ y') : daysBeforeYear y ≤ daysBeforeYear y' := by
  induction h with
  | refl => exact Nat.le_refl _
  | step _ ih => exact Nat.le_trans ih (Nat.le_add_right _ _)

theorem daysBeforeMonth_mono (y : ℕ) {m m' : ℕ} (h : m ≤ m') :
    daysBeforeMonth y m ≤ daysBeforeMonth y m' := by
  induction h with
  | refl => exact Nat.le_refl _
  | step _ ih => exact Nat.le_trans ih (Nat.le_add_right _ _)

/-- The months make up the year. -/
theorem daysBeforeMonth_last (y : ℕ) : daysBeforeMonth y 13 = yearLength y := by
  simp only [daysBeforeMonth, monthLength, yearLength]
  split <;> rfl

variable {t t' : Date}

theorem Date.within_month (t : Date) :
    daysBeforeMonth t.year t.month + (t.day - 1) < daysBeforeMonth t.year (t.month + 1) := by
  have := t.day_pos
  have := t.day_le
  rw [daysBeforeMonth]
  omega

theorem Date.within_year (t : Date) : t.dayNumber < daysBeforeYear (t.year + 1) := by
  have hmonth := t.within_month
  have hyear := daysBeforeMonth_mono t.year (show t.month + 1 ≤ 13 by have := t.month_le; omega)
  rw [daysBeforeMonth_last] at hyear
  rw [Date.dayNumber, daysBeforeYear]
  omega

/-- The order of the calendar. -/
def Date.Before (t t' : Date) : Prop :=
  t.year < t'.year ∨ t.year = t'.year ∧
    (t.month < t'.month ∨ t.month = t'.month ∧ t.day < t'.day)

theorem dayNumber_lt_of_before (h : t.Before t') : t.dayNumber < t'.dayNumber := by
  rcases h with hyear | ⟨hyear, hmonth | ⟨hmonth, hday⟩⟩
  · have hle := daysBeforeYear_mono (show t.year + 1 ≤ t'.year by omega)
    have hlt := t.within_year
    have hge : daysBeforeYear t'.year ≤ t'.dayNumber := by
      rw [Date.dayNumber]
      omega
    omega
  · have hle := daysBeforeMonth_mono t.year (show t.month + 1 ≤ t'.month by omega)
    have hlt := t.within_month
    rw [Date.dayNumber, Date.dayNumber, ← hyear]
    omega
  · have := t.day_pos
    rw [Date.dayNumber, Date.dayNumber, ← hyear, ← hmonth]
    omega

/-- **Days are numbered in their order.** -/
theorem dayNumber_lt_iff : t.dayNumber < t'.dayNumber ↔ t.Before t' := by
  refine ⟨fun h => ?_, dayNumber_lt_of_before⟩
  by_contra hnot
  rw [Date.Before] at hnot
  by_cases heq : t.year = t'.year ∧ t.month = t'.month ∧ t.day = t'.day
  · obtain rfl : t = t' := Date.ext heq.1 heq.2.1 heq.2.2
    omega
  · have hback : t'.Before t := by
      rw [Date.Before]
      omega
    have := dayNumber_lt_of_before hback
    omega

theorem dayNumber_inj : t.dayNumber = t'.dayNumber ↔ t = t' := by
  refine ⟨fun h => ?_, fun h => by rw [h]⟩
  have hnot : ¬ t.Before t' := fun hb => by
    have := dayNumber_lt_of_before hb
    omega
  have hnot' : ¬ t'.Before t := fun hb => by
    have := dayNumber_lt_of_before hb
    omega
  rw [Date.Before] at hnot hnot'
  exact Date.ext (by omega) (by omega) (by omega)

/-! ### Times -/

/-- The first of January 1970. -/
def epoch : Date := ⟨1970, 1, 1, by decide, by decide, by decide, by decide⟩

theorem dayNumber_epoch : epoch.dayNumber = 719528 := by
  have hyears := daysBeforeYear_eq 1970
  rw [Date.dayNumber, epoch]
  simp only [daysBeforeMonth, monthLength]
  omega

/-- A date and a time of the day, to the millisecond. -/
@[ext] structure DateTime where
  date : Date
  hour : ℕ
  minute : ℕ
  second : ℕ
  milli : ℕ
  hour_lt : hour < 24
  minute_lt : minute < 60
  second_lt : second < 60
  milli_lt : milli < 1000

/-- The milliseconds of a day. -/
def DateTime.dayMillis (t : DateTime) : ℕ :=
  ((t.hour * 60 + t.minute) * 60 + t.second) * 1000 + t.milli

/-- The milliseconds since the first of January 1970. -/
def DateTime.millis (t : DateTime) : Int :=
  ((t.date.dayNumber : Int) - epoch.dayNumber) * 86400000 + t.dayMillis

/-- The text in UTC. -/
def DateTime.text (t : DateTime) : String :=
  Text.padded 4 t.date.year ++ "-" ++ Text.padded 2 t.date.month ++ "-" ++
    Text.padded 2 t.date.day ++ "T" ++ Text.padded 2 t.hour ++ ":" ++ Text.padded 2 t.minute ++
    ":" ++ Text.padded 2 t.second ++ "." ++ Text.padded 3 t.milli ++ "Z"

/-! ### Reading -/

/-- A number of fixed width, and a character behind it. -/
def field (w : ℕ) (sep : Char) (s : List Char) : Option (ℕ × List Char) :=
  if (s.take w).length = w ∧ (s.take w).all Char.isDigit ∧ s[w]? = some sep then
    some (Nat.ofDigitChars 10 (s.take w) 0, s.drop (w + 1))
  else none

/-- The date of these numbers, if there is one. -/
def dateOf (y m d : ℕ) : Option Date :=
  if h : 0 < m ∧ m ≤ 12 ∧ 0 < d ∧ d ≤ monthLength y m then
    some ⟨y, m, d, h.1, h.2.1, h.2.2.1, h.2.2.2⟩
  else none

/-- The time of these numbers, if there is one. -/
def timeOf (date : Date) (h mi s ms : ℕ) : Option DateTime :=
  if ht : h < 24 ∧ mi < 60 ∧ s < 60 ∧ ms < 1000 then
    some ⟨date, h, mi, s, ms, ht.1, ht.2.1, ht.2.2.1, ht.2.2.2⟩
  else none

/-- A text of the form `YYYY-MM-DDTHH:MM:SS.mmmZ`, read as a time that exists. -/
def parse (text : String) : Option DateTime := do
  let (y, rest) ← field 4 '-' text.toList
  let (m, rest) ← field 2 '-' rest
  let (d, rest) ← field 2 'T' rest
  let (h, rest) ← field 2 ':' rest
  let (mi, rest) ← field 2 ':' rest
  let (s, rest) ← field 2 '.' rest
  let (ms, rest) ← field 3 'Z' rest
  if rest = [] then
    let date ← dateOf y m d
    timeOf date h mi s ms
  else none

theorem field_fixed {w n : ℕ} (h : n < 10 ^ w) (sep : Char) (rest : List Char) :
    field w sep (Decimal.fixed w n ++ sep :: rest) = some (n, rest) := by
  have htake : (Decimal.fixed w n ++ sep :: rest).take w = Decimal.fixed w n :=
    List.take_left' (Decimal.length_fixed w n)
  have hsep : (Decimal.fixed w n ++ sep :: rest)[w]? = some sep := by
    rw [List.getElem?_append_right (by simp), Decimal.length_fixed, Nat.sub_self]
    rfl
  have hdigits : (Decimal.fixed w n).all Char.isDigit = true :=
    List.all_eq_true.mpr fun d hd => Decimal.isDigit_of_mem_fixed hd
  have hdrop : (Decimal.fixed w n ++ sep :: rest).drop (w + 1) = rest := by
    rw [← List.drop_drop, List.drop_left' (Decimal.length_fixed w n)]
    rfl
  rw [field, htake, hsep, if_pos ⟨Decimal.length_fixed w n, hdigits, rfl⟩,
    Decimal.ofDigitChars_fixed h, hdrop]

theorem toList_padded {w n : ℕ} (h : n < 10 ^ (w + 1)) :
    (Text.padded (w + 1) n).toList = Decimal.fixed (w + 1) n := by
  rw [Text.padded, String.toList_ofList, ← Decimal.leftpad_toDigits h, Nat.toString_eq_repr,
    Nat.toList_repr]

theorem monthLength_le (y m : ℕ) : monthLength y m ≤ 31 := by
  rw [monthLength.eq_def]
  split
  · split <;> omega
  all_goals omega

variable {t t' : DateTime}

/-- Every number but that of the year fits in its width. -/
theorem DateTime.fits (t : DateTime) : t.date.month < 10 ^ 2 ∧ t.date.day < 10 ^ 2 ∧
    t.hour < 10 ^ 2 ∧ t.minute < 10 ^ 2 ∧ t.second < 10 ^ 2 ∧ t.milli < 10 ^ 3 := by
  have hmonth := t.date.month_le
  have hday := Nat.le_trans t.date.day_le (monthLength_le _ _)
  have hhour := t.hour_lt
  have hminute := t.minute_lt
  have hsecond := t.second_lt
  have hmilli := t.milli_lt
  omega

/-- The text, number by number. -/
theorem toList_text (h : t.date.year < 10 ^ 4) :
    t.text.toList = Decimal.fixed 4 t.date.year ++ '-' :: (Decimal.fixed 2 t.date.month ++
      '-' :: (Decimal.fixed 2 t.date.day ++ 'T' :: (Decimal.fixed 2 t.hour ++
        ':' :: (Decimal.fixed 2 t.minute ++ ':' :: (Decimal.fixed 2 t.second ++
          '.' :: (Decimal.fixed 3 t.milli ++ ['Z'])))))) := by
  obtain ⟨hmonth, hday, hhour, hminute, hsecond, hmilli⟩ := t.fits
  simp only [DateTime.text, String.toList_append, toList_padded h, toList_padded hmonth,
    toList_padded hday, toList_padded hhour, toList_padded hminute, toList_padded hsecond,
    toList_padded hmilli, List.append_assoc]
  rfl

/-- **The text of a time is read as that time.** -/
theorem parse_text (h : t.date.year < 10 ^ 4) : parse t.text = some t := by
  obtain ⟨hmonth, hday, hhour, hminute, hsecond, hmilli⟩ := t.fits
  have hdate : dateOf t.date.year t.date.month t.date.day = some t.date :=
    dif_pos ⟨t.date.month_pos, t.date.month_le, t.date.day_pos, t.date.day_le⟩
  have htime : timeOf t.date t.hour t.minute t.second t.milli = some t :=
    dif_pos ⟨t.hour_lt, t.minute_lt, t.second_lt, t.milli_lt⟩
  rw [parse, toList_text h]
  simp only [Option.bind_eq_bind, Option.bind_some, field_fixed h, field_fixed hmonth,
    field_fixed hday, field_fixed hhour, field_fixed hminute, field_fixed hsecond,
    field_fixed hmilli, if_true, hdate, htime]

theorem millis_lt_iff : t.millis < t'.millis ↔
    t.date.dayNumber < t'.date.dayNumber ∨
      t.date.dayNumber = t'.date.dayNumber ∧ t.dayMillis < t'.dayMillis := by
  have bound (t : DateTime) : t.dayMillis < 86400000 := by
    have := t.hour_lt
    have := t.minute_lt
    have := t.second_lt
    have := t.milli_lt
    rw [DateTime.dayMillis]
    omega
  have h := bound t
  have h' := bound t'
  rw [DateTime.millis, DateTime.millis]
  omega

theorem dayMillis_lt_iff : t.dayMillis < t'.dayMillis ↔
    t.hour < t'.hour ∨ t.hour = t'.hour ∧ (t.minute < t'.minute ∨ t.minute = t'.minute ∧
      (t.second < t'.second ∨ t.second = t'.second ∧ t.milli < t'.milli)) := by
  have := t.minute_lt
  have := t.second_lt
  have := t.milli_lt
  have := t'.minute_lt
  have := t'.second_lt
  have := t'.milli_lt
  rw [DateTime.dayMillis, DateTime.dayMillis]
  omega

theorem date_eq_iff {d d' : Date} :
    d = d' ↔ d.year = d'.year ∧ d.month = d'.month ∧ d.day = d'.day :=
  ⟨fun h => by rw [h]; exact ⟨rfl, rfl, rfl⟩, fun h => Date.ext h.1 h.2.1 h.2.2⟩

/-- **Texts are in the order of their times.** -/
theorem text_lt_iff (h : t.date.year < 10 ^ 4) (h' : t'.date.year < 10 ^ 4) :
    t.text < t'.text ↔ t.millis < t'.millis := by
  obtain ⟨hmonth, hday, hhour, hminute, hsecond, hmilli⟩ := t.fits
  obtain ⟨hmonth', hday', hhour', hminute', hsecond', hmilli'⟩ := t'.fits
  rw [String.lt_iff_toList_lt, toList_text h, toList_text h']
  simp only [Decimal.fixed_append_lt_iff h h', Decimal.fixed_append_lt_iff hmonth hmonth',
    Decimal.fixed_append_lt_iff hday hday', Decimal.fixed_append_lt_iff hhour hhour',
    Decimal.fixed_append_lt_iff hminute hminute', Decimal.fixed_append_lt_iff hsecond hsecond',
    Decimal.fixed_append_lt_iff hmilli hmilli', List.cons_lt_cons_iff, lt_irrefl, false_or,
    true_and, and_false, or_false]
  rw [millis_lt_iff, dayMillis_lt_iff, dayNumber_lt_iff, dayNumber_inj, Date.Before, date_eq_iff]
  simp only [and_or_left, or_assoc, and_assoc]

end Gregorian
