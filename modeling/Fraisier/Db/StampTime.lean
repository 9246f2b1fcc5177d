import Fraisier.Db.ArchiveNames

/-!
# Timestamps and the instants they name

`UtcStamp.fromSystemTime` writes an instant, in nanoseconds since the epoch, as a timestamp.
Up to the end of the year 9999 the text is read back as the instant's second, and the texts
are ordered as the seconds are; see `stamps_name_instants`.
-/

namespace Fraisier.Db

open Fraisier.Data

/-- A number in decimal, with zeros before it up to a width. -/
def zeroPadded (width n : Nat) : String :=
  String.ofList ((Nat.toDigits 10 n).leftpad width '0')

/-- The timestamp of an instant, truncated to the second. One before the epoch is the epoch. -/
def UtcStamp.fromSystemTime (time : Int) : UtcStamp :=
  let seconds := if 0 ≤ time then (time / 1000000000).toNat else 0
  let (year, month, day) := civilFromDays ((seconds / 86400 : Nat) : Int)
  let ofDay := seconds % 86400
  ⟨zeroPadded 4 year.toNat ++ zeroPadded 2 month ++ zeroPadded 2 day ++ "T" ++
    zeroPadded 2 (ofDay / 3600) ++ zeroPadded 2 (ofDay % 3600 / 60) ++ zeroPadded 2 (ofDay % 60) ++
    "Z"⟩

example : (UtcStamp.fromSystemTime 1792984542000000000).text = "20261026T031542Z" := by decide

/-- The end of the year 9999, in nanoseconds since the epoch. -/
def endOfCalendar : Int := 253402300800 * 1000000000

/-! ## Moments -/

theorem zeroPadded_toList {width n : Nat} (hwidth : 0 < width) (h : n < 10 ^ width) :
    (zeroPadded width n).toList = padded width n := by
  rw [zeroPadded, String.toList_ofList, leftpad_toDigits hwidth h]

namespace Moment

theorem ofDay_lt (moment : Moment) : moment.ofDay < 86400 := by
  have hhour := moment.hour_valid
  have hminute := moment.minute_valid
  have hsecond := moment.second_valid
  simp only [ofDay]
  omega

/-- The moment so many seconds after the epoch. -/
def ofSeconds (seconds : Nat) : Moment where
  date := Date.after (seconds / 86400)
  hour := seconds % 86400 / 3600
  minute := seconds % 86400 % 3600 / 60
  second := seconds % 86400 % 60
  hour_valid := by omega
  minute_valid := by omega
  second_valid := by omega

theorem ofDay_ofSeconds (seconds : Nat) : (ofSeconds seconds).ofDay = seconds % 86400 := by
  simp only [ofDay, ofSeconds]
  omega

theorem seconds_ofSeconds (seconds : Nat) : (ofSeconds seconds).seconds = seconds := by
  rw [Moment.seconds, ofDay_ofSeconds, ofSeconds, Date.days_after]
  omega

/-- The last day of the year 9999 is the day 2932896. -/
theorem key_after_last {last : Nat} (hlast : last = 2932896) :
    (Date.after last).key = 99991231 := by
  have hcivil : (Date.after last).civil = (9999, 12, 31) := by
    rw [← Date.civilFromDays_eq, Date.days_after, hlast]
    decide
  simp only [Date.civil, Prod.mk.injEq] at hcivil
  simp only [Date.key]
  omega

theorem key_after_le {days : Nat} (h : days ≤ 2932896) : (Date.after days).key ≤ 99991231 := by
  obtain ⟨last, hlast⟩ : ∃ n : Nat, n = 2932896 := ⟨_, rfl⟩
  rw [← key_after_last hlast]
  obtain hlt | heq := Nat.lt_or_eq_of_le (hlast ▸ h)
  · exact (Date.key_after_lt hlt).le
  · rw [heq]

theorem year_ofSeconds_lt {seconds : Nat} (h : seconds < 253402300800) :
    (ofSeconds seconds).date.year < 10000 := by
  have hle : (ofSeconds seconds).date.key ≤ 99991231 :=
    key_after_le (show seconds / 86400 ≤ 2932896 by omega)
  rw [Date.key] at hle
  omega

/-- The time of the day as one number: its digits are those of the time. -/
def clock (moment : Moment) : Nat :=
  moment.hour * 10000 + moment.minute * 100 + moment.second

/-- The characters of a moment are the digits of two numbers. -/
theorem chars_eq (moment : Moment) :
    moment.chars = padded 8 moment.date.key ++ 'T' :: (padded 6 moment.clock ++ ['Z']) := by
  have hday := moment.date.day_valid.2
  have hdayLt := daysInMonth_lt moment.date.year moment.date.month
  have hmonth := moment.date.month_valid.2
  have hminute := moment.minute_valid
  have hsecond := moment.second_valid
  rw [chars, padded_append moment.date.year 4 (by omega), padded_append _ _ (by omega),
    padded_append moment.hour 2 (by omega), padded_append _ _ (by omega)]
  have hkey : (moment.date.year * 10 ^ 2 + moment.date.month) * 10 ^ 2 + moment.date.day =
      moment.date.key := by
    rw [Date.key]
    omega
  have hclock : (moment.hour * 10 ^ 2 + moment.minute) * 10 ^ 2 + moment.second =
      moment.clock := by
    rw [clock]
    omega
  rw [hkey, hclock]

/-- Later moments have larger texts. -/
theorem chars_lt {seconds seconds' : Nat} (hlt : seconds < seconds')
    (h : seconds' < 253402300800) : (ofSeconds seconds).chars < (ofSeconds seconds').chars := by
  have hyear := year_ofSeconds_lt h
  rw [chars_eq, chars_eq]
  obtain hdays | hdays := Nat.lt_or_eq_of_le (Nat.div_le_div_right (c := 86400) hlt.le)
  · have hkey := Date.key_after_lt hdays
    refine append_lt_append (by simp) (padded_lt hkey ?_) _ _
    have hday := (ofSeconds seconds').date.day_valid.2
    have hdayLt := daysInMonth_lt (ofSeconds seconds').date.year (ofSeconds seconds').date.month
    have hmonth := (ofSeconds seconds').date.month_valid.2
    show (ofSeconds seconds').date.key < 10 ^ 8
    rw [Date.key]
    omega
  · have hdate : (ofSeconds seconds).date = (ofSeconds seconds').date :=
      congrArg Date.after hdays
    rw [hdate]
    refine List.append_left_lt (List.cons_lt_cons_iff.mpr (.inr ⟨rfl, ?_⟩))
    refine append_lt_append (by simp) (padded_lt ?_ ?_) _ _
    · simp only [clock, ofSeconds]
      omega
    · simp only [clock, ofSeconds]
      omega

end Moment

/-! ## Timestamps -/

section Instants

variable {moment : Moment} {stamp : UtcStamp}

/-- The timestamp of an instant has the characters of its moment. -/
theorem UtcStamp.fromSystemTime_chars (hyear : moment.date.year < 10000) {time : Int}
    (htime : 0 ≤ time) (h : time / 1000000000 = moment.seconds) :
    (fromSystemTime time).text.toList = moment.chars := by
  have hofDay := moment.ofDay_lt
  have hmonth := moment.date.month_valid.2
  have hday := moment.date.day_valid.2
  have hdayLt := daysInMonth_lt moment.date.year moment.date.month
  have hhour := moment.hour_valid
  have hminute := moment.minute_valid
  have hsecond := moment.second_valid
  rw [Moment.seconds] at h
  obtain ⟨seconds, hseconds⟩ : ∃ seconds : Nat, time / 1000000000 = seconds :=
    Int.eq_ofNat_of_zero_le (by omega)
  have hdays : ((seconds / 86400 : Nat) : Int) = moment.date.days := by omega
  have hrest : seconds % 86400 = moment.ofDay := by omega
  simp only [fromSystemTime, if_pos htime, hseconds, Int.toNat_natCast, hdays,
    Date.civilFromDays_eq, Date.civil, hrest]
  have hhours : moment.ofDay / 3600 = moment.hour := by
    rw [Moment.ofDay]
    omega
  have hminutes : moment.ofDay % 3600 / 60 = moment.minute := by
    rw [Moment.ofDay]
    omega
  have hseconds' : moment.ofDay % 60 = moment.second := by
    rw [Moment.ofDay]
    omega
  have hpair : ∀ n < 100, (zeroPadded 2 n).toList = padded 2 n :=
    fun n hn => zeroPadded_toList (by decide) hn
  rw [hhours, hminutes, hseconds', Moment.chars]
  simp only [String.toList_append, hpair _ (show moment.date.month < 100 by omega),
    hpair _ (show moment.date.day < 100 by omega), hpair _ (show moment.hour < 100 by omega),
    hpair _ (show moment.minute < 100 by omega), hpair _ (show moment.second < 100 by omega)]
  rw [zeroPadded_toList (by decide) hyear]
  simp

/-- A timestamp names the second of its moment. -/
theorem UtcStamp.toSystemTime_eq (hyear : moment.date.year < 10000)
    (h : stamp.text.toList = moment.chars) : stamp.toSystemTime = max 0 moment.seconds := by
  obtain ⟨y₁, y₂, y₃, y₄, m₁, m₂, d₁, d₂, h₁, h₂, i₁, i₂, s₁, s₂, hchars, hyears, hmonths, hdays,
    hhours, hminutes, hseconds⟩ := moment.exists_chars hyear
  rw [toSystemTime, h, hchars]
  simp only [List.take_succ_cons, List.take_zero, List.drop_succ_cons, List.drop_zero, hyears,
    hmonths, hdays, hhours, hminutes, hseconds, Option.getD_some]
  rw [Moment.seconds, Moment.ofDay, Date.days]
  congr 1
  push_cast
  omega

end Instants

/-- An instant before the end of the year 9999 is in the second of a moment. -/
theorem moment_of_time {time : Int} (htime : 0 ≤ time) (hend : time < endOfCalendar) :
    ∃ seconds : Nat, time / 1000000000 = seconds ∧ seconds < 253402300800 ∧
      (UtcStamp.fromSystemTime time).text.toList = (Moment.ofSeconds seconds).chars := by
  rw [endOfCalendar] at hend
  obtain ⟨seconds, hseconds⟩ : ∃ seconds : Nat, time / 1000000000 = seconds :=
    Int.eq_ofNat_of_zero_le (by omega)
  have hlt : seconds < 253402300800 := by omega
  refine ⟨seconds, hseconds, hlt, ?_⟩
  exact UtcStamp.fromSystemTime_chars (Moment.year_ofSeconds_lt hlt) htime
    (hseconds.trans (Moment.seconds_ofSeconds seconds).symm)

/-- What is written of an instant is read, as the second of the instant. -/
theorem parseBytes_fromSystemTime {time : Int} (htime : 0 ≤ time) (hend : time < endOfCalendar) :
    UtcStamp.parseBytes (UtcStamp.fromSystemTime time).text =
      .ok (some (UtcStamp.fromSystemTime time)) ∧
    (UtcStamp.fromSystemTime time).toSystemTime = time / 1000000000 := by
  obtain ⟨seconds, hseconds, hlt, hchars⟩ := moment_of_time htime hend
  have hyear := Moment.year_ofSeconds_lt hlt
  constructor
  · rw [UtcStamp.parseBytes_ascii (hchars ▸ Moment.chars_ascii _)]
    exact congrArg Except.ok (UtcStamp.parse_eq_some_iff.mpr ⟨rfl, _, hyear, hchars⟩)
  · rw [UtcStamp.toSystemTime_eq hyear hchars, Moment.seconds_ofSeconds, hseconds]
    omega

/-- Timestamps are ordered as the seconds of their instants are. -/
theorem fromSystemTime_lt_iff {time time' : Int} (htime : 0 ≤ time) (hend : time < endOfCalendar)
    (htime' : 0 ≤ time') (hend' : time' < endOfCalendar) :
    (UtcStamp.fromSystemTime time).text < (UtcStamp.fromSystemTime time').text ↔
      time / 1000000000 < time' / 1000000000 := by
  obtain ⟨seconds, hseconds, hlt, hchars⟩ := moment_of_time htime hend
  obtain ⟨seconds', hseconds', hlt', hchars'⟩ := moment_of_time htime' hend'
  rw [String.lt_iff_toList_lt, hchars, hchars', hseconds, hseconds', Int.ofNat_lt]
  constructor
  · intro h
    by_contra hge
    obtain hgt | heq := Nat.lt_or_eq_of_le (Nat.le_of_not_lt hge)
    · exact lt_asymm h (Moment.chars_lt hgt hlt)
    · rw [heq] at h
      exact lt_irrefl _ h
  · exact fun h => Moment.chars_lt h hlt'

/-- A timestamp that was read, of a year from 1970 on, is the one of its instant. -/
theorem fromSystemTime_toSystemTime {text : String} {stamp : UtcStamp} {year : Nat}
    (h : UtcStamp.parseBytes text = .ok (some stamp))
    (hyear : number (text.toList.take 4) = some year) (hsince : 1970 ≤ year) :
    (UtcStamp.fromSystemTime (stamp.toSystemTime * 1000000000)).text = text := by
  obtain ⟨htext, moment, hlt, hchars⟩ :=
    UtcStamp.parse_eq_some_iff.mp (eq_parse_of_parseBytes h).symm
  obtain ⟨y₁, y₂, y₃, y₄, m₁, m₂, d₁, d₂, h₁, h₂, i₁, i₂, s₁, s₂, hexplicit, hyears, -⟩ :=
    moment.exists_chars hlt
  have hsame : moment.date.year = year := by
    rw [hchars, hexplicit] at hyear
    exact Option.some.inj (hyears.symm.trans hyear)
  have hdays := moment.date.days_nonneg (hsame ▸ hsince)
  have hseconds : 0 ≤ moment.seconds := by
    rw [Moment.seconds]
    omega
  have htime : stamp.toSystemTime = moment.seconds := by
    rw [UtcStamp.toSystemTime_eq hlt (htext ▸ hchars)]
    exact max_eq_right hseconds
  rw [htime, String.ext_iff, hchars]
  exact UtcStamp.fromSystemTime_chars hlt (by omega) (by omega)

/-- The date of so many days after the epoch is the one that counting on gives. -/
theorem civilFromDays_after (days : Nat) :
    civilFromDays days = (Date.tomorrow^[days] Date.epoch).civil := by
  rw [← Date.days_after, Date.civilFromDays_eq]
  rfl

/-- From the epoch to the end of the year 9999, timestamps are read as they are written, name the
seconds of their instants and are ordered as these are, and days and dates are each other's. -/
theorem stamps_name_instants :
    (∀ time : Int, 0 ≤ time → time < endOfCalendar →
      UtcStamp.parseBytes (UtcStamp.fromSystemTime time).text =
        .ok (some (UtcStamp.fromSystemTime time)) ∧
      (UtcStamp.fromSystemTime time).toSystemTime = time / 1000000000) ∧
    (∀ time time' : Int, 0 ≤ time → time < endOfCalendar → 0 ≤ time' → time' < endOfCalendar →
      ((UtcStamp.fromSystemTime time).text < (UtcStamp.fromSystemTime time').text ↔
        time / 1000000000 < time' / 1000000000)) ∧
    (∀ text stamp year, UtcStamp.parseBytes text = .ok (some stamp) →
      number (text.toList.take 4) = some year → 1970 ≤ year →
        (UtcStamp.fromSystemTime (stamp.toSystemTime * 1000000000)).text = text) ∧
    (∀ days : Nat,
      daysFromCivil (civilFromDays days).1 (civilFromDays days).2.1 (civilFromDays days).2.2 =
        days ∧
      civilFromDays days = (Date.tomorrow^[days] Date.epoch).civil) ∧
    ∀ date : Date, civilFromDays (daysFromCivil date.year date.month date.day) =
      ((date.year : Int), date.month, date.day) := by
  refine ⟨fun time htime hend => parseBytes_fromSystemTime htime hend,
    fun time time' htime hend htime' hend' => fromSystemTime_lt_iff htime hend htime' hend',
    fun text stamp year h hyear hsince => fromSystemTime_toSystemTime h hyear hsince, ?_,
    Date.civilFromDays_eq⟩
  intro days
  refine ⟨?_, civilFromDays_after days⟩
  have hdays := Date.days_after days
  rw [← hdays, Date.civilFromDays_eq]
  rfl

end Fraisier.Db
