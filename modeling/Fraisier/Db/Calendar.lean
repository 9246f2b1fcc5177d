import Mathlib.Tactic.IntervalCases
import Fraisier.Db.Archive

/-!
# The calendar of the timestamps

`civilFromDays` and `daysFromCivil` turn days since the epoch into dates and back, by the
years and the months of an era of 400 years that begins in March. A date counts on to the next
one by `isLeap` and `daysInMonth`. Read `civilFromDays_eq` first.
-/

namespace Fraisier.Db

/-- A number that has to fit 32 bits. -/
def asU32 (n : Int) : Nat :=
  if 0 ≤ n ∧ n < 2 ^ 32 then n.toNat else 1

/-- The year, the month and the day of so many days since 1970-01-01. -/
def civilFromDays (days : Int) : Int × Nat × Nat :=
  let z := days + 719468
  let era := z / 146097
  let dayOfEra := z % 146097
  let yearOfEra := (dayOfEra - dayOfEra / 1460 + dayOfEra / 36524 - dayOfEra / 146096) / 365
  let dayOfYear := dayOfEra - (365 * yearOfEra + yearOfEra / 4 - yearOfEra / 100)
  let shiftedMonth := (5 * dayOfYear + 2) / 153
  let day := dayOfYear - (153 * shiftedMonth + 2) / 5 + 1
  let month := if shiftedMonth < 10 then shiftedMonth + 3 else shiftedMonth - 9
  let year := yearOfEra + era * 400 + if month ≤ 2 then 1 else 0
  (year, asU32 month, asU32 day)

theorem isLeap_iff (year : Nat) :
    isLeap year = true ↔ year % 4 = 0 ∧ (year % 100 ≠ 0 ∨ year % 400 = 0) := by
  simp [isLeap]

/-! ## Dates -/

/-- A date of the proleptic Gregorian calendar. -/
structure Date where
  year : Nat
  month : Nat
  day : Nat
  month_valid : 1 ≤ month ∧ month ≤ 12
  day_valid : 1 ≤ day ∧ day ≤ daysInMonth year month

namespace Date

/-- The parts of a date. -/
def civil (date : Date) : Int × Nat × Nat :=
  (date.year, date.month, date.day)

/-- The days since 1970-01-01. -/
def days (date : Date) : Int :=
  daysFromCivil date.year date.month date.day

/-- 1970-01-01. -/
def epoch : Date :=
  ⟨1970, 1, 1, by decide, by decide⟩

theorem one_le_daysInMonth (year month : Nat) : 1 ≤ daysInMonth year month := by
  unfold daysInMonth
  repeat' split
  all_goals decide

/-- The next date: the next day of the month, the first of the next month, or the first of the
next year. -/
def tomorrow (date : Date) : Date :=
  if hday : date.day < daysInMonth date.year date.month then
    { date with
      day := date.day + 1
      day_valid := ⟨Nat.le_add_left 1 date.day, hday⟩ }
  else if hmonth : date.month < 12 then
    { date with
      month := date.month + 1
      day := 1
      month_valid := ⟨Nat.le_add_left 1 date.month, hmonth⟩
      day_valid := ⟨le_rfl, one_le_daysInMonth _ _⟩ }
  else ⟨date.year + 1, 1, 1, by decide, le_rfl, one_le_daysInMonth _ _⟩

/-! ## Counting on -/

/-- The next day of a month is a day later. -/
theorem daysFromCivil_day (year month day : Int) :
    daysFromCivil year month (day + 1) = daysFromCivil year month day + 1 := by
  simp only [daysFromCivil]
  omega

/-- The first of the next month is a day after the last of a month. -/
theorem daysFromCivil_month (year : Nat) {month : Nat} (hmonth : 1 ≤ month ∧ month < 12) :
    daysFromCivil year (month + 1 : Nat) 1 =
      daysFromCivil year month (daysInMonth year month) + 1 := by
  obtain ⟨hfirst, hlast⟩ := hmonth
  by_cases hfeb : month = 2
  · -- The era's years change in March.
    subst hfeb
    have hdays : (daysInMonth year 2 : Int) = if isLeap year then 29 else 28 := by
      simp only [daysInMonth, if_true]
      split <;> rfl
    rw [hdays]
    by_cases hleap : isLeap year = true
    · rw [if_pos hleap]
      rw [isLeap_iff] at hleap
      simp only [daysFromCivil]
      norm_num
      omega
    · rw [if_neg hleap]
      rw [isLeap_iff] at hleap
      simp only [daysFromCivil]
      norm_num
      omega
  · interval_cases month
    all_goals first | exact absurd rfl hfeb | (simp [daysFromCivil, daysInMonth]; try omega)

/-- The first of the next year is a day after the last of a year. -/
theorem daysFromCivil_year (year : Nat) :
    daysFromCivil (year + 1 : Nat) 1 1 = daysFromCivil year 12 31 + 1 := by
  simp only [daysFromCivil]
  norm_num
  omega

/-- The next date is a day later. -/
theorem days_tomorrow (date : Date) : date.tomorrow.days = date.days + 1 := by
  obtain ⟨year, month, day, hmonth, hday⟩ := date
  simp only [tomorrow]
  split
  · exact daysFromCivil_day year month day
  · next hlast =>
      have hend : day = daysInMonth year month := by omega
      subst hend
      split
      · next hmonth' => exact daysFromCivil_month year ⟨hmonth.1, hmonth'⟩
      · next hmonth' =>
          have hdecember : month = 12 := by omega
          subst hdecember
          exact daysFromCivil_year year

/-- A date as one number: its digits are those of the date. -/
def key (date : Date) : Nat :=
  date.year * 10000 + date.month * 100 + date.day

theorem daysInMonth_le (year month : Nat) : daysInMonth year month ≤ 31 := by
  unfold daysInMonth
  repeat' split
  all_goals decide

theorem key_lt_tomorrow (date : Date) : date.key < date.tomorrow.key := by
  obtain ⟨year, month, day, hmonth, hday⟩ := date
  have hle := daysInMonth_le year month
  simp only [tomorrow]
  split
  · simp only [key]
    omega
  · split
    · simp only [key]
      omega
    · simp only [key]
      omega

/-- The date of so many days after 1970-01-01. -/
def after (days : Nat) : Date :=
  tomorrow^[days] epoch

theorem after_succ (days : Nat) : after (days + 1) = (after days).tomorrow :=
  Function.iterate_succ_apply' tomorrow days epoch

theorem days_after (days : Nat) : (after days).days = days := by
  induction days with
  | zero =>
      show daysFromCivil 1970 1 1 = 0
      simp [daysFromCivil]
  | succ days ih => rw [after_succ, days_tomorrow, ih, Nat.cast_succ]

theorem key_after_lt {days days' : Nat} (h : days < days') :
    (after days).key < (after days').key := by
  have hmono : StrictMono fun n => (after n).key := strictMono_nat_of_lt_succ fun n => by
    rw [after_succ]
    exact key_lt_tomorrow (after n)
  exact hmono h

/-- A date from 1970 on is not before the epoch. -/
theorem days_nonneg (date : Date) (h : 1970 ≤ date.year) : 0 ≤ date.days := by
  obtain ⟨year, month, day, hmonth, hday⟩ := date
  simp only at h
  simp only [days, daysFromCivil]
  split
  · rw [if_neg (by omega)]
    omega
  · rw [if_pos (by omega)]
    omega

/-! ## The date of a day -/

/-- The year of an era that a day of the era falls in: the era has four centuries, these have
groups of four years, and the last year of a group may be a leap year. -/
theorem yearOfEra_eq {century group year dayOfYear dayOfEra : Int}
    (hcentury : 0 ≤ century ∧ century ≤ 3) (hgroup : 0 ≤ group ∧ group ≤ 24)
    (hyear : 0 ≤ year ∧ year ≤ 3) (hday : 0 ≤ dayOfYear ∧ dayOfYear ≤ 365)
    (hleap : dayOfYear = 365 → year = 3 ∧ (group = 24 → century = 3))
    (hera : dayOfEra = 36524 * century + 1461 * group + 365 * year + dayOfYear) :
    (dayOfEra - dayOfEra / 1460 + dayOfEra / 36524 - dayOfEra / 146096) / 365 =
      100 * century + 4 * group + year := by
  by_cases hlast : dayOfEra = 146096
  · subst hlast
    omega
  · have hcenturies : dayOfEra / 36524 = century := by omega
    have hwhole : dayOfEra / 146096 = 0 := by omega
    -- The groups have 1461 days: the division by 1460 is one too far at their end.
    by_cases hcarry : 24 * century + group + 365 * year + dayOfYear < 1460
    · have hgroups : dayOfEra / 1460 = 25 * century + group := by omega
      omega
    · have hgroups : dayOfEra / 1460 = 25 * century + group + 1 := by omega
      omega

/-- The month, counted from March, that a day of a year falls in. -/
theorem shiftedMonth_eq {shiftedMonth day : Int}
    (hday : 1 ≤ day)
    (hlast : day ≤ (153 * (shiftedMonth + 1) + 2) / 5 - (153 * shiftedMonth + 2) / 5) :
    (5 * ((153 * shiftedMonth + 2) / 5 + day - 1) + 2) / 153 = shiftedMonth := by
  omega

/-- The day that has a year and a day of it is read back. -/
theorem civilFromDays_parts {era yearOfEra shiftedMonth day : Int}
    (hera : 0 ≤ yearOfEra ∧ yearOfEra < 400) (hmonth : 0 ≤ shiftedMonth ∧ shiftedMonth ≤ 11)
    (hday : 1 ≤ day)
    (hlast : day ≤ (153 * (shiftedMonth + 1) + 2) / 5 - (153 * shiftedMonth + 2) / 5)
    (hfeb : shiftedMonth = 11 → day ≤ 29 ∧ (day = 29 →
      yearOfEra % 4 = 3 ∧ (yearOfEra % 100 = 99 → yearOfEra = 399))) :
    civilFromDays (era * 146097 + (yearOfEra * 365 + yearOfEra / 4 - yearOfEra / 100 +
        ((153 * shiftedMonth + 2) / 5 + day - 1)) - 719468) =
      (yearOfEra + era * 400 + (if shiftedMonth < 10 then 0 else 1),
        asU32 (if shiftedMonth < 10 then shiftedMonth + 3 else shiftedMonth - 9), asU32 day) := by
  set dayOfYear := (153 * shiftedMonth + 2) / 5 + day - 1 with hdayOfYear
  set dayOfEra := yearOfEra * 365 + yearOfEra / 4 - yearOfEra / 100 + dayOfYear with hdayOfEra
  have hdayBound : 0 ≤ dayOfYear ∧ dayOfYear ≤ 365 := by omega
  have hleap : dayOfYear = 365 →
      yearOfEra % 4 = 3 ∧ (yearOfEra % 100 = 99 → yearOfEra = 399) := by
    intro h
    have hmarch : shiftedMonth = 11 := by omega
    exact (hfeb hmarch).2 (by omega)
  have hyear : (dayOfEra - dayOfEra / 1460 + dayOfEra / 36524 - dayOfEra / 146096) / 365 =
      yearOfEra := by
    have hsplit : yearOfEra =
        100 * (yearOfEra / 100) + 4 * (yearOfEra % 100 / 4) + yearOfEra % 4 := by omega
    rw [@yearOfEra_eq (yearOfEra / 100) (yearOfEra % 100 / 4) (yearOfEra % 4) dayOfYear _
      (by omega) (by omega) (by omega) hdayBound (by omega) (by omega)]
    exact hsplit.symm
  have hbound : 0 ≤ dayOfEra ∧ dayOfEra < 146097 := by omega
  have hz : era * 146097 + dayOfEra - 719468 + 719468 = era * 146097 + dayOfEra := by omega
  have hdiv : (era * 146097 + dayOfEra) / 146097 = era := by omega
  have hmod : (era * 146097 + dayOfEra) % 146097 = dayOfEra := by omega
  have hrest : dayOfEra - (365 * yearOfEra + yearOfEra / 4 - yearOfEra / 100) = dayOfYear := by
    omega
  have hshifted : (5 * dayOfYear + 2) / 153 = shiftedMonth := shiftedMonth_eq hday hlast
  have hback : dayOfYear - (153 * shiftedMonth + 2) / 5 + 1 = day := by omega
  simp only [civilFromDays, hz, hdiv, hmod, hyear, hrest, hshifted, hback]
  by_cases hten : shiftedMonth < 10
  · simp only [if_pos hten]
    rw [if_neg (show ¬ shiftedMonth + 3 ≤ 2 by omega)]
  · simp only [if_neg hten]
    rw [if_pos (show shiftedMonth - 9 ≤ 2 by omega)]

theorem asU32_natCast {n : Nat} (h : n < 2 ^ 32) : asU32 n = n := by
  rw [asU32, if_pos (by omega), Int.toNat_natCast]

/-- A day of a month is within the days to the next month, counted from March. -/
theorem day_le_shifted {year month day : Nat} (hmonth : 1 ≤ month ∧ month ≤ 12)
    (hday : day ≤ daysInMonth year month) :
    let shiftedMonth : Int := if (month : Int) > 2 then (month : Int) - 3 else month + 9
    (day : Int) ≤ (153 * (shiftedMonth + 1) + 2) / 5 - (153 * shiftedMonth + 2) / 5 := by
  obtain ⟨hfirst, hlast⟩ := hmonth
  have hbound := daysInMonth_le year month
  by_cases hfeb : month = 2
  · subst hfeb
    have hday' : day ≤ 29 := by
      simp only [daysInMonth, if_true] at hday
      split at hday <;> omega
    norm_num
    omega
  · interval_cases month
    all_goals first | exact absurd rfl hfeb | (simp [daysInMonth] at hday ⊢; omega)

/-- The date of the day of a date is the date. -/
theorem civilFromDays_eq (date : Date) : civilFromDays date.days = date.civil := by
  obtain ⟨year, month, day, hmonth, hday⟩ := date
  have hlast := day_le_shifted hmonth hday.2
  have hbound := daysInMonth_le year month
  have hfebruary : month = 2 → day ≤ 29 ∧ (day = 29 → isLeap year = true) := by
    rintro rfl
    have h := hday.2
    simp only [daysInMonth, if_true] at h
    split at h
    · next hleap => exact ⟨h, fun _ => hleap⟩
    · exact ⟨by omega, by omega⟩
  rw [isLeap_iff] at hfebruary
  rw [days, daysFromCivil]
  by_cases hearly : (month : Int) ≤ 2
  · rw [if_neg (not_lt.mpr hearly)] at hlast
    simp only [if_pos hearly, if_neg (not_lt.mpr hearly)]
    rw [civilFromDays_parts (by omega) (by omega) (by omega) hlast (by omega),
      if_neg (by omega), if_neg (by omega), add_sub_cancel_right, asU32_natCast (by omega),
      asU32_natCast (by omega), civil]
    simp only [Prod.mk.injEq, and_true]
    omega
  · rw [if_pos (not_le.mp hearly)] at hlast
    simp only [if_neg hearly, if_pos (not_le.mp hearly)]
    rw [civilFromDays_parts (by omega) (by omega) (by omega) hlast (by omega),
      if_pos (by omega), if_pos (by omega), sub_add_cancel, asU32_natCast (by omega),
      asU32_natCast (by omega), civil]
    simp only [Prod.mk.injEq, and_true]
    omega

end Date

end Fraisier.Db
