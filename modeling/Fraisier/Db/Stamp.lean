import Fraisier.Data.Decimal
import Fraisier.Data.Utf8
import Fraisier.Db.Calendar
import Fraisier.Db.Retention

/-!
# Timestamps, their texts and their bytes

`UtcStamp.fromSystemTime` writes an instant as a timestamp. `UtcStamp.parseBytes` reads one as
the code does, on bytes: it tests the length and the two letters of the bytes and cuts the
digits out as slices of the text, and to cut a text inside a character is a panic.
-/

namespace Fraisier.Db

open Fraisier.Data

/-! ## Reading bytes -/

/-- A text is cut where it can not be cut. -/
inductive Panic where
  | notBoundary (start stop : Nat)
deriving DecidableEq

/-- A slice of a text, in bytes. -/
def sliceBytes (text : String) (start stop : Nat) : Except Panic (List UInt8) :=
  if start ≤ stop ∧ isBoundary (bytes text) start ∧ isBoundary (bytes text) stop then
    .ok (((bytes text).take stop).drop start)
  else .error (.notBoundary start stop)

def isAsciiDigit (byte : UInt8) : Bool :=
  '0'.toUInt8 ≤ byte && byte ≤ '9'.toUInt8

/-- The number that bytes stand for, if they are digits. -/
def parseDigits (digits : List UInt8) : Option Nat :=
  if digits.all isAsciiDigit then
    some (digits.foldl (fun n digit => 10 * n + (digit.toNat - '0'.toNat)) 0)
  else none

/-- Go on with the number that a slice of a text stands for. -/
def withNumber {α : Type} (text : String) (start stop : Nat)
    (next : Nat → Except Panic (Option α)) : Except Panic (Option α) := do
  match parseDigits (← sliceBytes text start stop) with
  | some n => next n
  | none => return none

/-- Parse a timestamp; only a real instant is one. -/
def UtcStamp.parseBytes (text : String) : Except Panic (Option UtcStamp) :=
  if (bytes text).length ≠ 16 ∨ (bytes text)[8]? ≠ some 'T'.toUInt8 ∨
      (bytes text)[15]? ≠ some 'Z'.toUInt8 then return none
  else
    withNumber text 0 4 fun year => withNumber text 4 6 fun month => withNumber text 6 8 fun day =>
    withNumber text 9 11 fun hour => withNumber text 11 13 fun minute =>
    withNumber text 13 15 fun second =>
      if 1 ≤ month ∧ month ≤ 12 ∧ 1 ≤ day ∧ day ≤ daysInMonth year month ∧
          hour < 24 ∧ minute < 60 ∧ second < 60 then
        return some ⟨text⟩
      else return none

/-! ## ASCII texts -/

theorem bytes_eq (text : String) : bytes text = utf8 text.toList := rfl

theorem isAsciiDigit_toUInt8 {c : Char} (h : c.toNat < 128) :
    isAsciiDigit c.val.toUInt8 = c.isDigit := by
  have htoNat := toNat_ascii h
  rw [Bool.eq_iff_iff]
  simp only [isAsciiDigit, Char.isDigit, Bool.and_eq_true, decide_eq_true_eq,
    UInt8.le_iff_toNat_le, UInt32.le_iff_toNat_le, htoNat]
  exact Iff.rfl

/-- ASCII characters and their bytes stand for one number. -/
theorem parseDigits_map {digits : List Char} (h : ∀ c ∈ digits, c.toNat < 128) :
    parseDigits (digits.map fun c => c.val.toUInt8) = number digits := by
  have hall : (digits.map fun c => c.val.toUInt8).all isAsciiDigit = digits.all Char.isDigit := by
    rw [List.all_map]
    refine Bool.eq_iff_iff.mpr ?_
    simp only [List.all_eq_true, Function.comp]
    exact forall₂_congr fun c hc => by rw [isAsciiDigit_toUInt8 (h c hc)]
  have hvalue : (digits.map fun c => c.val.toUInt8).foldl
      (fun n digit => 10 * n + (digit.toNat - '0'.toNat)) 0 =
        digits.foldl (fun n digit => 10 * n + (digit.toNat - '0'.toNat)) 0 := by
    rw [List.foldl_map]
    exact List.foldl_ext _ _ _ fun n c hc => by rw [toNat_ascii (h c hc)]
  rw [parseDigits, number, hall, hvalue]

/-- The bytes of an ASCII text can be cut everywhere. -/
theorem slice_ascii {chars : List Char} (h : ∀ c ∈ chars, c.toNat < 128) {start stop : Nat}
    (hle : start ≤ stop) (hstop : stop ≤ chars.length) :
    sliceBytes (String.ofList chars) start stop =
      .ok (((chars.take stop).drop start).map fun c => c.val.toUInt8) := by
  have hboundary : ∀ offset ≤ chars.length, isBoundary (utf8 chars) offset = true := by
    intro offset hoffset
    refine isBoundary_iff.mpr ⟨chars.take offset, chars.drop offset,
      (List.take_append_drop offset chars).symm, ?_⟩
    rw [utf8_ascii fun c hc => h c (List.mem_of_mem_take hc), List.length_map, List.length_take]
    exact min_eq_left hoffset
  rw [sliceBytes, bytes_eq, String.toList_ofList, if_pos ⟨hle, hboundary start (hle.trans hstop),
    hboundary stop hstop⟩, utf8_ascii h, List.map_drop, List.map_take]

section WithNumber

variable {α : Type} {text : String} {start stop : Nat} {digits : List UInt8}
  {next : Nat → Except Panic (Option α)}

theorem withNumber_some {n : Nat} (hslice : sliceBytes text start stop = .ok digits)
    (hdigits : parseDigits digits = some n) : withNumber text start stop next = next n := by
  simp only [withNumber, hslice, bind, Except.bind, hdigits]

theorem withNumber_none (hslice : sliceBytes text start stop = .ok digits)
    (hdigits : parseDigits digits = none) : withNumber text start stop next = .ok none := by
  simp only [withNumber, hslice, bind, Except.bind, hdigits]
  rfl

theorem withNumber_error {panic : Panic} (hslice : sliceBytes text start stop = .error panic) :
    withNumber text start stop next = .error panic := by
  rw [withNumber, hslice]
  rfl

end WithNumber

theorem withNumber_ascii {α : Type} {chars : List Char} (h : ∀ c ∈ chars, c.toNat < 128)
    {start stop : Nat} (hle : start ≤ stop) (hstop : stop ≤ chars.length)
    (next : Nat → Except Panic (Option α)) :
    withNumber (String.ofList chars) start stop next =
      (number ((chars.take stop).drop start)).elim (.ok none) next := by
  have hslice := slice_ascii h hle hstop
  have hnumber : parseDigits (((chars.take stop).drop start).map fun c => c.val.toUInt8) =
      number ((chars.take stop).drop start) :=
    parseDigits_map fun c hc => h c (List.mem_of_mem_take (List.mem_of_mem_drop hc))
  cases hfield : number ((chars.take stop).drop start) with
  | none => exact withNumber_none hslice (hnumber.trans hfield)
  | some n => exact withNumber_some hslice (hnumber.trans hfield)

theorem exists_sixteen {α : Type} {l : List α} (h : l.length = 16) :
    ∃ y₁ y₂ y₃ y₄ m₁ m₂ d₁ d₂ t h₁ h₂ i₁ i₂ s₁ s₂ z,
      l = [y₁, y₂, y₃, y₄, m₁, m₂, d₁, d₂, t, h₁, h₂, i₁, i₂, s₁, s₂, z] :=
  match l, h with
  | [_, _, _, _, _, _, _, _, _, _, _, _, _, _, _, _], _ =>
      ⟨_, _, _, _, _, _, _, _, _, _, _, _, _, _, _, _, rfl⟩

/-- A text that is read as a timestamp has sixteen characters, two of them letters. -/
theorem UtcStamp.shape_of_parse {text : String} {stamp : UtcStamp}
    (h : UtcStamp.parse text = some stamp) :
    ∃ y₁ y₂ y₃ y₄ m₁ m₂ d₁ d₂ h₁ h₂ i₁ i₂ s₁ s₂,
      text.toList = [y₁, y₂, y₃, y₄, m₁, m₂, d₁, d₂, 'T', h₁, h₂, i₁, i₂, s₁, s₂, 'Z'] := by
  unfold parse at h
  split at h
  next y₁ y₂ y₃ y₄ m₁ m₂ d₁ d₂ h₁ h₂ i₁ i₂ s₁ s₂ heq =>
    exact ⟨y₁, y₂, y₃, y₄, m₁, m₂, d₁, d₂, h₁, h₂, i₁, i₂, s₁, s₂, heq⟩
  · cases h

/-- On ASCII texts nothing is cut inside a character. -/
theorem UtcStamp.parseBytes_ascii {text : String} (h : ∀ c ∈ text.toList, c.toNat < 128) :
    UtcStamp.parseBytes text = .ok (UtcStamp.parse text) := by
  obtain ⟨chars, rfl⟩ : ∃ chars, text = String.ofList chars :=
    ⟨text.toList, String.ofList_toList.symm⟩
  rw [String.toList_ofList] at h
  have hbytes : bytes (String.ofList chars) = chars.map fun c => c.val.toUInt8 := by
    rw [bytes_eq, String.toList_ofList, utf8_ascii h]
  have hbyte : ∀ (i : Nat) (d : Char), d.toNat < 128 →
      ((bytes (String.ofList chars))[i]? = some d.val.toUInt8 ↔ chars[i]? = some d) := by
    intro i d hd
    rw [hbytes, List.getElem?_map, Option.map_eq_some_iff]
    constructor
    · rintro ⟨c, hc, hsame⟩
      rw [← UInt8.toNat_inj, toNat_ascii (h c (List.mem_of_getElem? hc)), toNat_ascii hd,
        Char.toNat_inj] at hsame
      rw [hc, hsame]
    · intro hd'
      exact ⟨d, hd', rfl⟩
  have hT := hbyte 8 'T' (by decide)
  have hZ := hbyte 15 'Z' (by decide)
  by_cases hshape : chars.length = 16 ∧ chars[8]? = some 'T' ∧ chars[15]? = some 'Z'
  · obtain ⟨hlength, ht, hz⟩ := hshape
    have hfits : ¬ ((bytes (String.ofList chars)).length ≠ 16 ∨
        (bytes (String.ofList chars))[8]? ≠ some 'T'.toUInt8 ∨
        (bytes (String.ofList chars))[15]? ≠ some 'Z'.toUInt8) := by
      rw [not_or, not_or, not_not, not_not, not_not]
      exact ⟨by rw [hbytes, List.length_map, hlength], hT.mpr ht, hZ.mpr hz⟩
    have hnumber := fun start stop (hle : start ≤ stop) (hstop : stop ≤ 16) =>
      withNumber_ascii (α := UtcStamp) h hle (hlength ▸ hstop)
    rw [parseBytes, if_neg hfits]
    simp only [hnumber 0 4 (by decide) (by decide), hnumber 4 6 (by decide) (by decide),
      hnumber 6 8 (by decide) (by decide), hnumber 9 11 (by decide) (by decide),
      hnumber 11 13 (by decide) (by decide), hnumber 13 15 (by decide) (by decide)]
    obtain ⟨y₁, y₂, y₃, y₄, m₁, m₂, d₁, d₂, t, h₁, h₂, i₁, i₂, s₁, s₂, z, rfl⟩ :=
      exists_sixteen hlength
    cases ht
    cases hz
    rw [parse]
    simp only [String.toList_ofList, List.take_succ_cons, List.take_zero, List.drop_succ_cons,
      List.drop_zero]
    cases number [y₁, y₂, y₃, y₄] with
    | none => rfl
    | some year =>
    cases number [m₁, m₂] with
    | none => rfl
    | some month =>
    cases number [d₁, d₂] with
    | none => rfl
    | some day =>
    cases number [h₁, h₂] with
    | none => rfl
    | some hour =>
    cases number [i₁, i₂] with
    | none => rfl
    | some minute =>
    cases number [s₁, s₂] with
    | none => rfl
    | some second =>
        simp only [Option.bind_eq_bind, Option.bind_some, Option.elim_some]
        split <;> rfl
  · have hnone : UtcStamp.parse (String.ofList chars) = none := by
      rw [Option.eq_none_iff_forall_ne_some]
      intro stamp hstamp
      obtain ⟨_, _, _, _, _, _, _, _, _, _, _, _, _, _, heq⟩ := shape_of_parse hstamp
      rw [String.toList_ofList] at heq
      subst heq
      exact hshape ⟨rfl, rfl, rfl⟩
    rw [hnone, parseBytes, if_pos]
    · rfl
    · by_contra hfits
      rw [not_or, not_or, not_not, not_not, not_not, hbytes, List.length_map] at hfits
      exact hshape ⟨hfits.1, hT.mp (hbytes ▸ hfits.2.1), hZ.mp (hbytes ▸ hfits.2.2)⟩

/-! ## Instants -/

/-- A second of a date. -/
structure Moment where
  date : Date
  hour : Nat
  minute : Nat
  second : Nat
  hour_valid : hour < 24
  minute_valid : minute < 60
  second_valid : second < 60

namespace Moment

/-- The characters `yyyymmddThhmmssZ`. -/
def chars (moment : Moment) : List Char :=
  padded 4 moment.date.year ++ padded 2 moment.date.month ++ padded 2 moment.date.day ++
    'T' :: (padded 2 moment.hour ++ padded 2 moment.minute ++ padded 2 moment.second ++ ['Z'])

/-- The seconds of the day. -/
def ofDay (moment : Moment) : Nat :=
  moment.hour * 3600 + moment.minute * 60 + moment.second

/-- The seconds since the epoch. -/
def seconds (moment : Moment) : Int :=
  moment.date.days * 86400 + moment.ofDay

end Moment

theorem number_padded {width n : Nat} (h : n < 10 ^ width) :
    number (padded width n) = some n := by
  rw [number, if_pos (List.all_eq_true.mpr fun c hc => isDigit_of_mem_padded hc)]
  exact congrArg some (decimalValue_padded h)

/-- Digits that stand for a number are those of the number. -/
theorem padded_of_number {digits : List Char} {n : Nat} (h : number digits = some n) :
    padded digits.length n = digits ∧ n < 10 ^ digits.length := by
  rw [number] at h
  split at h
  next hall =>
    cases h
    have hdigits := List.all_eq_true.mp hall
    exact ⟨padded_decimalValue hdigits, decimalValue_lt hdigits⟩
  · cases h

theorem exists_pair {α : Type} {l : List α} (h : l.length = 2) : ∃ a b, l = [a, b] :=
  match l, h with
  | [_, _], _ => ⟨_, _, rfl⟩

theorem exists_four {α : Type} {l : List α} (h : l.length = 4) : ∃ a b c d, l = [a, b, c, d] :=
  match l, h with
  | [_, _, _, _], _ => ⟨_, _, _, _, rfl⟩

theorem daysInMonth_lt (year month : Nat) : daysInMonth year month < 100 :=
  Nat.lt_of_le_of_lt (Date.daysInMonth_le year month) (by decide)

/-- The sixteen characters of a moment, and what their digits stand for. -/
theorem Moment.exists_chars {moment : Moment} (hyear : moment.date.year < 10000) :
    ∃ y₁ y₂ y₃ y₄ m₁ m₂ d₁ d₂ h₁ h₂ i₁ i₂ s₁ s₂,
      moment.chars = [y₁, y₂, y₃, y₄, m₁, m₂, d₁, d₂, 'T', h₁, h₂, i₁, i₂, s₁, s₂, 'Z'] ∧
      number [y₁, y₂, y₃, y₄] = some moment.date.year ∧
      number [m₁, m₂] = some moment.date.month ∧ number [d₁, d₂] = some moment.date.day ∧
      number [h₁, h₂] = some moment.hour ∧ number [i₁, i₂] = some moment.minute ∧
      number [s₁, s₂] = some moment.second := by
  obtain ⟨⟨year, month, day, hmonth, hday⟩, hour, minute, second, hhour, hminute, hsecond⟩ :=
    moment
  have hdayLt := daysInMonth_lt year month
  obtain ⟨y₁, y₂, y₃, y₄, hy⟩ := exists_four (padded_length 4 year)
  obtain ⟨m₁, m₂, hm⟩ := exists_pair (padded_length 2 month)
  obtain ⟨d₁, d₂, hd⟩ := exists_pair (padded_length 2 day)
  obtain ⟨h₁, h₂, hh⟩ := exists_pair (padded_length 2 hour)
  obtain ⟨i₁, i₂, hi⟩ := exists_pair (padded_length 2 minute)
  obtain ⟨s₁, s₂, hs⟩ := exists_pair (padded_length 2 second)
  refine ⟨y₁, y₂, y₃, y₄, m₁, m₂, d₁, d₂, h₁, h₂, i₁, i₂, s₁, s₂, ?_, ?_, ?_, ?_, ?_, ?_, ?_⟩
  · simp only [chars, hy, hm, hd, hh, hi, hs, List.cons_append, List.nil_append]
  · exact hy ▸ number_padded hyear
  · exact hm ▸ number_padded (show month < 100 by omega)
  · exact hd ▸ number_padded (show day < 100 by omega)
  · exact hh ▸ number_padded (show hour < 100 by omega)
  · exact hi ▸ number_padded (show minute < 100 by omega)
  · exact hs ▸ number_padded (show second < 100 by omega)

/-- A text is read as a timestamp if it is the one of a moment, in a year of four digits. -/
theorem UtcStamp.parse_eq_some_iff {text : String} {stamp : UtcStamp} :
    UtcStamp.parse text = some stamp ↔ stamp.text = text ∧
      ∃ moment : Moment, moment.date.year < 10000 ∧ text.toList = moment.chars := by
  constructor
  · intro h
    refine ⟨text_of_parse h, ?_⟩
    obtain ⟨y₁, y₂, y₃, y₄, m₁, m₂, d₁, d₂, h₁, h₂, i₁, i₂, s₁, s₂, heq⟩ := shape_of_parse h
    rw [parse, heq] at h
    simp only [Option.bind_eq_bind, Option.bind_eq_some_iff] at h
    obtain ⟨year, hyear, month, hmonth, day, hday, hour, hhour, minute, hminute, second, hsecond,
      hreal⟩ := h
    split at hreal
    next hvalid =>
      obtain ⟨hmonth₁, hmonth₂, hday₁, hday₂, hhour', hminute', hsecond'⟩ := hvalid
      have hyearLt : year < 10000 := by simpa using (padded_of_number hyear).2
      refine ⟨⟨⟨year, month, day, ⟨hmonth₁, hmonth₂⟩, hday₁, hday₂⟩, hour, minute, second, hhour',
        hminute', hsecond'⟩, hyearLt, ?_⟩
      have hyears : padded 4 year = [y₁, y₂, y₃, y₄] := (padded_of_number hyear).1
      have hmonths : padded 2 month = [m₁, m₂] := (padded_of_number hmonth).1
      have hdays : padded 2 day = [d₁, d₂] := (padded_of_number hday).1
      have hhours : padded 2 hour = [h₁, h₂] := (padded_of_number hhour).1
      have hminutes : padded 2 minute = [i₁, i₂] := (padded_of_number hminute).1
      have hseconds : padded 2 second = [s₁, s₂] := (padded_of_number hsecond).1
      simp only [Moment.chars, hyears, hmonths, hdays, hhours, hminutes, hseconds, heq,
        List.cons_append, List.nil_append]
    · cases hreal
  · rintro ⟨rfl, moment, hyear, heq⟩
    obtain ⟨y₁, y₂, y₃, y₄, m₁, m₂, d₁, d₂, h₁, h₂, i₁, i₂, s₁, s₂, hchars, hyears, hmonths, hdays,
      hhours, hminutes, hseconds⟩ := moment.exists_chars hyear
    rw [parse, heq, hchars]
    simp only [hyears, hmonths, hdays, hhours, hminutes, hseconds, Option.bind_eq_bind,
      Option.bind_some]
    rw [if_pos ⟨moment.date.month_valid.1, moment.date.month_valid.2, moment.date.day_valid.1,
      moment.date.day_valid.2, moment.hour_valid, moment.minute_valid, moment.second_valid⟩]

/-- The characters of a moment are ASCII. -/
theorem Moment.chars_ascii (moment : Moment) : ∀ c ∈ moment.chars, c.toNat < 128 := by
  have hdigits : ∀ width n, ∀ c ∈ padded width n, c.toNat < 128 := by
    intro width n c hc
    have hbounds := toNat_of_isDigit (isDigit_of_mem_padded hc)
    omega
  intro c hc
  simp only [chars, List.mem_append, List.mem_cons, List.not_mem_nil, or_false] at hc
  obtain ((hc | hc) | hc) | rfl | ((hc | hc) | hc) | rfl := hc
  all_goals first | exact hdigits _ _ c hc | decide

end Fraisier.Db
