import Fraisier.Config.Deploy
import Fraisier.Db.StampTime

/-!
# Whose archives are read

An archive is named for its fraise, its environment and its time, with `-` between them, and
the names may have a `-` themselves. `archives_belong` says when an archive is read as its
owner's only: names that are joined to one text share their archives.
-/

namespace Fraisier.Db

open Fraisier.Data

/-- The name of a fraise and an environment that their archives begin with. -/
def joinedName (fraise environment : String) : String :=
  fraise ++ "-" ++ environment

/-- The archive's name is the joined names, the timestamp and the extension. -/
theorem archiveFileName_eq (fraise environment : String) (stamp : UtcStamp) :
    archiveFileName fraise environment stamp =
      joinedName fraise environment ++ ("-" ++ (stamp.text ++ ".pgdump")) := by
  simp only [archiveFileName, joinedName, String.append_assoc]

/-- What would be the timestamp of a file is between the joined names and the extension. -/
theorem archiveStamp_eq_some_iff {fraise environment name stamp : String} :
    archiveStamp fraise environment name = some stamp ↔
      name = joinedName fraise environment ++ ("-" ++ (stamp ++ ".pgdump")) := by
  simp only [archiveStamp, Option.bind_eq_bind, Option.bind_eq_some_iff]
  constructor
  · rintro ⟨rest, hfraise, rest', hdash, rest'', henvironment, rest''', hdash', hsuffix⟩
    rw [eq_append_of_stripPrefix hfraise, eq_append_of_stripPrefix hdash,
      eq_append_of_stripPrefix henvironment, eq_append_of_stripPrefix hdash',
      eq_append_of_stripSuffix hsuffix]
    simp only [joinedName, String.append_assoc]
  · rintro rfl
    rw [joinedName, String.append_assoc, String.append_assoc]
    exact ⟨_, stripPrefix_append _ _, _, stripPrefix_append _ _, _, stripPrefix_append _ _, _,
      stripPrefix_append _ _, stripSuffix_append _ _⟩

/-! ## The timestamps of archives -/

/-- A timestamp that the code makes: it is written of an instant or was read. -/
def UtcStamp.Made (stamp : UtcStamp) : Prop :=
  (∃ time, stamp = fromSystemTime time) ∨ ∃ text, parseBytes text = .ok (some stamp)

/-- A timestamp that is read back. -/
def UtcStamp.Readable (stamp : UtcStamp) : Prop :=
  parseBytes stamp.text = .ok (some stamp)

theorem isDigit_of_mem_zeroPadded {width n : Nat} {c : Char} (h : c ∈ (zeroPadded width n).toList) :
    c.isDigit = true := by
  rw [zeroPadded, String.toList_ofList, List.leftpad] at h
  obtain hzero | hdigit := List.mem_append.mp h
  · rw [List.eq_of_mem_replicate hzero]
    decide
  · exact Nat.isDigit_of_mem_toDigits (by decide) (by decide) hdigit

theorem zeroPadded_length (width n : Nat) :
    (zeroPadded width n).toList.length = max width (Nat.toDigits 10 n).length := by
  rw [zeroPadded, String.toList_ofList, List.length_leftpad]

/-- An instant is written without a `-`. -/
theorem dash_not_mem_fromSystemTime (time : Int) :
    '-' ∉ (UtcStamp.fromSystemTime time).text.toList := by
  have hpadded : ∀ width n, '-' ∉ (zeroPadded width n).toList :=
    fun width n h => absurd (isDigit_of_mem_zeroPadded h) (by decide)
  simp only [UtcStamp.fromSystemTime, String.toList_append, List.mem_append, not_or]
  exact ⟨⟨⟨⟨⟨⟨⟨hpadded _ _, hpadded _ _⟩, hpadded _ _⟩, by decide⟩, hpadded _ _⟩, hpadded _ _⟩,
    hpadded _ _⟩, by decide⟩

/-- An instant after the year 9999 is written with more than sixteen characters. -/
theorem length_fromSystemTime {time : Int} (h : endOfCalendar ≤ time) :
    16 < (UtcStamp.fromSystemTime time).text.toList.length := by
  rw [endOfCalendar] at h
  obtain ⟨seconds, hseconds⟩ : ∃ seconds : Nat, time / 1000000000 = seconds :=
    Int.eq_ofNat_of_zero_le (by omega)
  obtain ⟨days, hdays⟩ : ∃ days, days = seconds / 86400 := ⟨_, rfl⟩
  have hyear : 10000 ≤ (Date.after days).year := by
    obtain ⟨last, hlast⟩ : ∃ n : Nat, n = 2932896 := ⟨_, rfl⟩
    have hkey := Date.key_after_lt (show last < days by omega)
    rw [Moment.key_after_last hlast, Date.key] at hkey
    have hday := (Date.after days).day_valid.2
    have hdayLe := Date.daysInMonth_le (Date.after days).year (Date.after days).month
    have hmonth := (Date.after days).month_valid.2
    omega
  have hdigits : 4 < (Nat.toDigits 10 (Date.after days).year).length := by
    by_contra hle
    have hlt := (Nat.length_toDigits_le_iff (by decide) (by decide)).mp (Nat.le_of_not_lt hle)
    omega
  have hcivil : civilFromDays ((seconds / 86400 : Nat) : Int) = (Date.after days).civil := by
    rw [← hdays, ← Date.days_after, Date.civilFromDays_eq]
  simp only [UtcStamp.fromSystemTime, if_pos (show 0 ≤ time by omega), hseconds,
    Int.toNat_natCast, hcivil, Date.civil, String.toList_append, List.length_append,
    zeroPadded_length]
  have hT : "T".toList.length = 1 := rfl
  have hZ : "Z".toList.length = 1 := rfl
  omega

/-- What names an instant has no `-`. -/
theorem Moment.dash_not_mem_chars (moment : Moment) : '-' ∉ moment.chars := by
  have hpadded : ∀ width n, '-' ∉ padded width n :=
    fun width n h => absurd (isDigit_of_mem_padded h) (by decide)
  simp only [chars, List.mem_append, List.mem_cons, List.not_mem_nil, or_false, not_or]
  exact ⟨⟨⟨hpadded _ _, hpadded _ _⟩, hpadded _ _⟩, by decide, ⟨⟨hpadded _ _, hpadded _ _⟩,
    hpadded _ _⟩, by decide⟩

/-- A timestamp has no `-`, and it is read back or has more than sixteen characters. -/
theorem UtcStamp.Made.cases {stamp : UtcStamp} (h : stamp.Made) :
    '-' ∉ stamp.text.toList ∧ (stamp.Readable ∨ 16 < stamp.text.toList.length) := by
  obtain ⟨time, rfl⟩ | ⟨text, htext⟩ := h
  · refine ⟨dash_not_mem_fromSystemTime time, ?_⟩
    by_cases hsince : 0 ≤ time
    · by_cases hend : time < endOfCalendar
      · exact .inl (parseBytes_fromSystemTime hsince hend).1
      · exact .inr (length_fromSystemTime (not_lt.mp hend))
    · have hepoch : fromSystemTime time = fromSystemTime 0 := by
        simp [fromSystemTime, hsince]
      rw [hepoch]
      exact .inl (parseBytes_fromSystemTime le_rfl (by decide)).1
  · obtain ⟨hsame, moment, -, hchars⟩ :=
      UtcStamp.parse_eq_some_iff.mp (eq_parse_of_parseBytes htext).symm
    rw [Readable, hsame]
    exact ⟨hchars ▸ moment.dash_not_mem_chars, .inl htext⟩

/-! ## Whose a file is -/

/-- The archives of a pair of names are read as such by the names themselves only. -/
def Belongs (fraise environment fraise' environment' : String) (stamp : UtcStamp) : Prop :=
  parseArchiveFileNameBytes fraise environment (archiveFileName fraise' environment' stamp) =
    .ok (if (fraise, environment) = (fraise', environment') then some stamp else none)

section Owners

variable {fraise environment fraise' environment' : String}

/-- Texts that end alike, behind a `-` that is the last of each, are one text. -/
theorem eq_of_dash {before before' after after' : List Char}
    (h : before ++ '-' :: after = before' ++ '-' :: after')
    (hafter : '-' ∉ after) (hafter' : '-' ∉ after') : before = before' ∧ after = after' := by
  obtain ⟨between, hleft, hright⟩ | ⟨between, hleft, hright⟩ := List.append_eq_append_iff.mp h
  · cases between with
    | nil =>
        rw [List.append_nil] at hleft
        exact ⟨hleft.symm, (List.cons.inj hright).2⟩
    | cons c between =>
        obtain ⟨-, hrest⟩ := List.cons.inj hright
        exact absurd (hrest ▸ List.mem_append_right between List.mem_cons_self) hafter
  · cases between with
    | nil =>
        rw [List.append_nil] at hleft
        exact ⟨hleft, (List.cons.inj hright).2.symm⟩
    | cons c between =>
        obtain ⟨-, hrest⟩ := List.cons.inj hright
        exact absurd (hrest ▸ List.mem_append_right between List.mem_cons_self) hafter'

theorem exists_last_dash {l : List Char} (h : '-' ∈ l) :
    ∃ before after, l = before ++ '-' :: after ∧ '-' ∉ after := by
  obtain ⟨after, before, heq, hnot⟩ := List.eq_append_cons_of_mem (List.mem_reverse.mpr h)
  refine ⟨before.reverse, after.reverse, ?_, by simpa using hnot⟩
  have hback := congrArg List.reverse heq
  simpa using hback

/-- What is cut out of an archive's name as its timestamp is the archive's own, and the names
are joined to one text, or it is longer. -/
theorem archiveStamp_archiveFileName {stamp : UtcStamp} {rest : String}
    (hdash : '-' ∉ stamp.text.toList)
    (h : archiveStamp fraise environment (archiveFileName fraise' environment' stamp) =
      some rest) :
    rest = stamp.text ∧ joinedName fraise environment = joinedName fraise' environment' ∨
      stamp.text.toList.length < rest.toList.length := by
  rw [archiveStamp_eq_some_iff, archiveFileName_eq] at h
  have hchars := congrArg String.toList h
  simp only [String.toList_append] at hchars
  rw [← List.append_assoc, ← List.append_assoc, ← List.append_assoc, ← List.append_assoc]
    at hchars
  have hjoined := List.append_cancel_right hchars
  rw [List.append_assoc, List.append_assoc] at hjoined
  by_cases hrest : '-' ∈ rest.toList
  · obtain ⟨before, after, heq, hafter⟩ := exists_last_dash hrest
    have hlonger : (joinedName fraise' environment').toList ++ '-' :: stamp.text.toList =
        ((joinedName fraise environment).toList ++ '-' :: before) ++ '-' :: after := by
      rw [List.append_assoc, List.cons_append, ← heq]
      exact hjoined
    obtain ⟨-, htext⟩ := eq_of_dash hlonger hdash hafter
    refine .inr ?_
    rw [heq, htext, List.length_append, List.length_cons]
    omega
  · obtain ⟨hnames, htext⟩ := eq_of_dash hjoined hdash hrest
    exact .inl ⟨(String.toList_inj.mp htext).symm, (String.toList_inj.mp hnames).symm⟩

/-- A text of more than sixteen characters is no timestamp. -/
theorem parseBytes_long {text : String} (h : 16 < text.toList.length) :
    UtcStamp.parseBytes text = .ok none := by
  have hlength := length_le_utf8 text.toList
  rw [← bytes_eq] at hlength
  rw [UtcStamp.parseBytes, if_pos (.inl (by omega))]
  rfl

/-- A timestamp is read back exactly if its year has four digits. -/
theorem UtcStamp.Made.readable_iff {stamp : UtcStamp} (h : stamp.Made) :
    stamp.Readable ↔ stamp.text.toList.length = 16 := by
  obtain hreadable | hlong := h.cases.2
  · obtain ⟨-, moment, -, hchars⟩ :=
      UtcStamp.parse_eq_some_iff.mp (eq_parse_of_parseBytes hreadable).symm
    refine iff_of_true hreadable ?_
    rw [hchars]
    simp [Moment.chars]
  · refine iff_of_false ?_ (by omega)
    rw [Readable, parseBytes_long hlong]
    intro hread
    cases hread

theorem UtcStamp.Made.length_ge {stamp : UtcStamp} (h : stamp.Made) :
    16 ≤ stamp.text.toList.length := by
  obtain hreadable | hlong := h.cases.2
  · exact (h.readable_iff.mp hreadable).ge
  · exact hlong.le

/-- Names that are joined to one text read each other's archives. -/
theorem parse_joined {stamp : UtcStamp}
    (hjoined : joinedName fraise environment = joinedName fraise' environment') :
    parseArchiveFileNameBytes fraise environment (archiveFileName fraise' environment' stamp) =
      UtcStamp.parseBytes stamp.text := by
  have hstamp : archiveStamp fraise environment (archiveFileName fraise' environment' stamp) =
      some stamp.text :=
    archiveStamp_eq_some_iff.mpr (hjoined ▸ archiveFileName_eq fraise' environment' stamp)
  rw [parseArchiveFileNameBytes, hstamp]

/-- Names that are not joined to one text do not. -/
theorem parse_not_joined {stamp : UtcStamp} (hmade : stamp.Made)
    (hjoined : joinedName fraise environment ≠ joinedName fraise' environment') :
    parseArchiveFileNameBytes fraise environment (archiveFileName fraise' environment' stamp) =
      .ok none := by
  rw [parseArchiveFileNameBytes]
  cases hstamp : archiveStamp fraise environment (archiveFileName fraise' environment' stamp) with
  | none => rfl
  | some rest =>
      obtain ⟨-, hsame⟩ | hlonger := archiveStamp_archiveFileName hmade.cases.1 hstamp
      · exact absurd hsame hjoined
      · exact parseBytes_long (lt_of_le_of_lt hmade.length_ge hlonger)

theorem belongs_iff {stamp : UtcStamp} (hmade : stamp.Made) :
    Belongs fraise environment fraise' environment' stamp ↔
      ((fraise, environment) = (fraise', environment') → stamp.text.toList.length = 16) ∧
      ((fraise, environment) ≠ (fraise', environment') → stamp.text.toList.length = 16 →
        joinedName fraise environment ≠ joinedName fraise' environment') := by
  rw [Belongs, ← hmade.readable_iff]
  by_cases hjoined : joinedName fraise environment = joinedName fraise' environment'
  · rw [parse_joined hjoined]
    by_cases hreadable : stamp.Readable
    · have hread : UtcStamp.parseBytes stamp.text = .ok (some stamp) := hreadable
      rw [hread]
      by_cases hsame : (fraise, environment) = (fraise', environment')
      · simp [hsame, hreadable]
      · simp [hsame, hreadable, hjoined]
    · have hlong := hmade.cases.2.resolve_left hreadable
      rw [parseBytes_long hlong]
      by_cases hsame : (fraise, environment) = (fraise', environment')
      · simp [hsame, hreadable]
      · simp [hsame, hreadable]
  · have hne : (fraise, environment) ≠ (fraise', environment') := by
      intro hsame
      obtain ⟨rfl, rfl⟩ := Prod.mk.inj hsame
      exact hjoined rfl
    rw [parse_not_joined hmade hjoined, if_neg hne]
    exact iff_of_true rfl ⟨fun hsame => absurd hsame hne, fun _ _ => hjoined⟩

/-! ## The newest archive -/

/-- The newest archive, by the timestamp in its name. -/
def latestArchiveBytes (names : List String) (fraise environment : String) :
    Except Panic (Option Archive) := do
  let archives ← listArchivesBytes names fraise environment
  return archives.getLast?

theorem mem_of_latestArchive {names : List String} {archive : Archive}
    (h : latestArchiveBytes names fraise environment = .ok (some archive)) :
    archive ∈ listArchives names fraise environment := by
  rw [latestArchiveBytes] at h
  cases hlist : listArchivesBytes names fraise environment with
  | error panic =>
      rw [hlist] at h
      cases h
  | ok archives =>
      have hcalm : ¬ Panics (listArchivesBytes names fraise environment) := by
        rintro ⟨panic, hpanic⟩
        rw [hlist] at hpanic
        cases hpanic
      rw [listArchivesBytes_eq hcalm] at h
      exact List.mem_of_getLast? (Except.ok.inj h)

/-- Another pair's archive is never the newest one exactly if the names are joined to other
texts. -/
theorem latestArchive_own_iff :
    (∀ names archive, latestArchiveBytes names fraise environment = .ok (some archive) →
      ∀ stamp : UtcStamp, stamp.Made →
        archive.name ≠ archiveFileName fraise' environment' stamp) ↔
      joinedName fraise environment ≠ joinedName fraise' environment' := by
  constructor
  · intro h hjoined
    let stamp := UtcStamp.fromSystemTime 0
    let name := archiveFileName fraise' environment' stamp
    have hread : parseArchiveFileNameBytes fraise environment name = .ok (some stamp) := by
      rw [parse_joined hjoined]
      exact (parseBytes_fromSystemTime le_rfl (by decide)).1
    have hlatest : latestArchiveBytes [name] fraise environment = .ok (some ⟨name, stamp⟩) := by
      rw [latestArchiveBytes, listArchivesBytes, collect, hread]
      rfl
    exact h [name] ⟨name, stamp⟩ hlatest stamp (.inl ⟨0, rfl⟩) rfl
  · intro hjoined names archive hlatest stamp hmade hname
    obtain ⟨-, hparse⟩ := mem_listArchives.mp (mem_of_latestArchive hlatest)
    have hcalm := parse_not_joined hmade hjoined
    rw [← hname, parseArchiveFileNameBytes] at hcalm
    rw [parseArchiveFileName_eq] at hparse
    cases hstamp : archiveStamp fraise environment archive.name with
    | none =>
        rw [hstamp] at hparse
        cases hparse
    | some rest =>
        rw [hstamp] at hcalm hparse
        have hnone := eq_parse_of_parseBytes hcalm
        rw [Option.bind_some, ← hnone] at hparse
        cases hparse

end Owners

/-- An archive is read as its owner's, and as no other's, exactly if the timestamp is one of a
year of four digits and other names are joined to other texts; then no other's archive is
the newest one. -/
theorem archives_belong (fraise environment fraise' environment' : String) :
    (∀ stamp : UtcStamp, stamp.Made → (Belongs fraise environment fraise' environment' stamp ↔
      ((fraise, environment) = (fraise', environment') → stamp.text.toList.length = 16) ∧
      ((fraise, environment) ≠ (fraise', environment') → stamp.text.toList.length = 16 →
        joinedName fraise environment ≠ joinedName fraise' environment'))) ∧
    ((∀ names archive, latestArchiveBytes names fraise environment = .ok (some archive) →
      ∀ stamp : UtcStamp, stamp.Made →
        archive.name ≠ archiveFileName fraise' environment' stamp) ↔
      joinedName fraise environment ≠ joinedName fraise' environment') :=
  ⟨fun _ hmade => belongs_iff hmade, latestArchive_own_iff⟩

/-- The names `a-b` and `c` read the archives of `a` and `b-c`. -/
theorem archives_not_apart :
    Config.Accepted "a-b" "c" ∧ Config.Accepted "a" "b-c" ∧
      UtcStamp.parseBytes "20261026T031542Z" = .ok (some ⟨"20261026T031542Z"⟩) ∧
      ¬ Belongs "a-b" "c" "a" "b-c" ⟨"20261026T031542Z"⟩ ∧
      latestArchiveBytes [archiveFileName "a" "b-c" ⟨"20261026T031542Z"⟩] "a-b" "c" =
        .ok (some ⟨"a-b-c-20261026T031542Z.pgdump", ⟨"20261026T031542Z"⟩⟩) := by
  have hparse : UtcStamp.parseBytes "20261026T031542Z" = .ok (some ⟨"20261026T031542Z"⟩) := by
    decide
  refine ⟨by decide, by decide, hparse, ?_, by decide⟩
  intro h
  have hread : parseArchiveFileNameBytes "a-b" "c"
      (archiveFileName "a" "b-c" ⟨"20261026T031542Z"⟩) = .ok (some ⟨"20261026T031542Z"⟩) := by
    decide
  rw [Belongs, hread] at h
  cases h

end Fraisier.Db
