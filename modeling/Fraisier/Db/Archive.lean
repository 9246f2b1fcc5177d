import Mathlib.Data.List.Pairwise
import Mathlib.Data.List.Sort
import Mathlib.Data.String.Basic
import Fraisier.Db.Restore

/-!
# Timestamped backup archives

Each archive is named for its fraise, its environment and its time. `writeArchive` dumps into
a partial file that it has created exclusively, checks the dump and renames it into place.
Its file operations and the tools it runs are the commands of `ArchiveSig`. The files of the
backup directory go by their names.
-/

namespace Fraisier.Db

open Fraisier.Data Fraisier.Effect

/-! ## Names -/

/-- A UTC timestamp as `yyyymmddThhmmssZ`. -/
structure UtcStamp where
  text : String
deriving DecidableEq

/-- The number that decimal digits stand for. -/
def number (digits : List Char) : Option Nat :=
  if digits.all Char.isDigit then
    some (digits.foldl (fun n digit => 10 * n + (digit.toNat - '0'.toNat)) 0)
  else none

def isLeap (year : Nat) : Bool :=
  year % 4 == 0 && (year % 100 != 0 || year % 400 == 0)

def daysInMonth (year month : Nat) : Nat :=
  if month = 2 then if isLeap year then 29 else 28
  else if month = 4 ∨ month = 6 ∨ month = 9 ∨ month = 11 then 30
  else 31

/-- Parse a timestamp; only a real instant is one. -/
def UtcStamp.parse (text : String) : Option UtcStamp :=
  match text.toList with
  | [y₁, y₂, y₃, y₄, m₁, m₂, d₁, d₂, 'T', h₁, h₂, i₁, i₂, s₁, s₂, 'Z'] => do
      let year ← number [y₁, y₂, y₃, y₄]
      let month ← number [m₁, m₂]
      let day ← number [d₁, d₂]
      let hour ← number [h₁, h₂]
      let minute ← number [i₁, i₂]
      let second ← number [s₁, s₂]
      if 1 ≤ month ∧ month ≤ 12 ∧ 1 ≤ day ∧ day ≤ daysInMonth year month ∧
          hour < 24 ∧ minute < 60 ∧ second < 60 then
        some ⟨text⟩
      else none
  | _ => none

/-- The days since 1970-01-01 of a date. -/
def daysFromCivil (year month day : Int) : Int :=
  let year := if month ≤ 2 then year - 1 else year
  let era := year / 400
  let yearOfEra := year % 400
  let shiftedMonth := if month > 2 then month - 3 else month + 9
  let dayOfYear := (153 * shiftedMonth + 2) / 5 + day - 1
  let dayOfEra := yearOfEra * 365 + yearOfEra / 4 - yearOfEra / 100 + dayOfYear
  era * 146097 + dayOfEra - 719468

/-- The instant that a timestamp names, in seconds since the epoch. One before the epoch is
the epoch. -/
def UtcStamp.toSystemTime (stamp : UtcStamp) : Int :=
  let part := fun start stop =>
    (((number ((stamp.text.toList.take stop).drop start)).getD 0 : Nat) : Int)
  max 0 (daysFromCivil (part 0 4) (part 4 6) (part 6 8) * 86400 + part 9 11 * 3600 +
    part 11 13 * 60 + part 13 15)

/-- A timestamp is its text. -/
theorem UtcStamp.text_of_parse {text : String} {stamp : UtcStamp}
    (h : UtcStamp.parse text = some stamp) : stamp.text = text := by
  unfold parse at h
  split at h
  · simp only [Option.bind_eq_bind, Option.bind_eq_some_iff] at h
    obtain ⟨_, -, _, -, _, -, _, -, _, -, _, -, h⟩ := h
    split at h
    · exact (congrArg UtcStamp.text (Option.some.inj h)).symm
    · cases h
  · cases h

/-- An archive found in a backup directory. -/
structure Archive where
  name : String
  stamp : UtcStamp
deriving DecidableEq

/-- The name of the archive of a fraise and an environment at a time. -/
def archiveFileName (fraise environment : String) (stamp : UtcStamp) : String :=
  fraise ++ "-" ++ environment ++ "-" ++ stamp.text ++ ".pgdump"

/-- The partial file an archive is written to. -/
def partialName (name : String) : String :=
  "." ++ name ++ ".partial"

/-- The timestamp of a file that is an archive of a fraise and an environment. -/
def parseArchiveFileName (fraise environment name : String) : Option UtcStamp := do
  let rest ← stripPrefix name fraise
  let rest ← stripPrefix rest "-"
  let rest ← stripPrefix rest environment
  let rest ← stripPrefix rest "-"
  let stamp ← stripSuffix rest ".pgdump"
  UtcStamp.parse stamp

/-- What is read as an archive has its name. -/
theorem eq_archiveFileName {fraise environment name : String} {stamp : UtcStamp}
    (h : parseArchiveFileName fraise environment name = some stamp) :
    name = archiveFileName fraise environment stamp := by
  simp only [parseArchiveFileName, Option.bind_eq_bind, Option.bind_eq_some_iff] at h
  obtain ⟨rest, hfraise, rest', hdash, rest'', henvironment, rest''', hdash', text, hsuffix,
    hstamp⟩ := h
  rw [archiveFileName, UtcStamp.text_of_parse hstamp, eq_append_of_stripPrefix hfraise,
    eq_append_of_stripPrefix hdash, eq_append_of_stripPrefix henvironment,
    eq_append_of_stripPrefix hdash', eq_append_of_stripSuffix hsuffix]
  simp only [String.append_assoc]

/-- No archive has the name of a partial file. -/
theorem archiveFileName_ne_partialName (fraise environment : String) (stamp : UtcStamp)
    (name : String) : archiveFileName fraise environment stamp ≠ partialName name := by
  intro h
  have hlast := congrArg (fun text : String => text.toList.reverse) h
  simp only [archiveFileName, partialName, String.toList_append, List.reverse_append] at hlast
  cases (List.cons.inj hlast).1

/-- The archives of a fraise and an environment among the files of a directory, oldest
first. -/
def listArchives (names : List String) (fraise environment : String) : List Archive :=
  (names.filterMap fun name =>
    (parseArchiveFileName fraise environment name).map (Archive.mk name)).insertionSort
      fun left right => left.stamp.text ≤ right.stamp.text

/-- The newest archive, by the timestamp in its name. -/
def latestArchive (names : List String) (fraise environment : String) : Option Archive :=
  (listArchives names fraise environment).getLast?

/-- A file is an archive of a fraise and an environment, and none of a directory is newer. -/
def IsNewest (names : List String) (fraise environment name : String) : Prop :=
  name ∈ names ∧ ∃ stamp, parseArchiveFileName fraise environment name = some stamp ∧
    ∀ other ∈ names, ∀ stamp', parseArchiveFileName fraise environment other = some stamp' →
      stamp'.text ≤ stamp.text

theorem mem_listArchives {names : List String} {fraise environment : String} {archive : Archive} :
    archive ∈ listArchives names fraise environment ↔ archive.name ∈ names ∧
      parseArchiveFileName fraise environment archive.name = some archive.stamp := by
  rw [listArchives, List.mem_insertionSort, List.mem_filterMap]
  constructor
  · rintro ⟨name, hname, harchive⟩
    obtain ⟨stamp, hstamp, rfl⟩ := Option.map_eq_some_iff.mp harchive
    exact ⟨hname, hstamp⟩
  · intro h
    exact ⟨archive.name, h.1, by rw [h.2]; rfl⟩

/-- The newest archive is the latest one. -/
theorem latestArchive_of_isNewest {names : List String} {fraise environment name : String}
    (h : IsNewest names fraise environment name) :
    ∃ archive, latestArchive names fraise environment = some archive ∧ archive.name = name := by
  obtain ⟨hname, stamp, hstamp, hnewest⟩ := h
  have hmem : (⟨name, stamp⟩ : Archive) ∈ listArchives names fraise environment :=
    mem_listArchives.mpr ⟨hname, hstamp⟩
  have hne := List.ne_nil_of_mem hmem
  set last := (listArchives names fraise environment).getLast hne with hlast
  have hlastMem : last ∈ listArchives names fraise environment := List.getLast_mem hne
  obtain ⟨hlastName, hlastStamp⟩ := mem_listArchives.mp hlastMem
  have hsorted : (listArchives names fraise environment).Pairwise
      fun left right => left.stamp.text ≤ right.stamp.text :=
    List.pairwise_insertionSort _ _
  have : Std.Refl fun left right : Archive => left.stamp.text ≤ right.stamp.text :=
    ⟨fun _ => le_rfl⟩
  have hle : stamp.text ≤ last.stamp.text := hsorted.rel_getLast hmem
  have heq : last.stamp.text = stamp.text :=
    le_antisymm (hnewest last.name hlastName last.stamp hlastStamp) hle
  refine ⟨last, List.getLast?_eq_some_getLast hne, ?_⟩
  rw [eq_archiveFileName hlastStamp, eq_archiveFileName hstamp, archiveFileName,
    archiveFileName, heq]

/-! ## The file operations and the tools -/

/-- What a program that was run leaves. -/
structure Outcome where
  code : Option Int
  stderr : String
deriving DecidableEq

/-- Whether it exited with code 0. -/
def Outcome.succeeded (outcome : Outcome) : Bool :=
  outcome.code == some 0

/-- Whether an archive reads back. -/
inductive Verdict where
  | valid
  | invalid (reason : String)
  | unverifiable (reason : String)
deriving DecidableEq

/-- What a run of `pg_restore --list` says of an archive: only a rejection of the archive itself
is one. -/
def verdictOf (pgRestore : String) : Except String Outcome → Verdict
  | .ok outcome =>
      if outcome.succeeded then .valid
      else if containsText outcome.stderr "unsupported version" then
        .unverifiable (s!"{pgRestore} is older than the pg_dump that wrote this archive: " ++
          trim outcome.stderr)
      else .invalid (trim outcome.stderr)
  | .error error => .unverifiable error

/-- There is no file to check. -/
def notThere (archive : String) : Verdict :=
  .unverifiable s!"{archive} is not there to check"

theorem succeeded_of_valid {pgRestore : String} {outcome : Outcome}
    (h : verdictOf pgRestore (.ok outcome) = .valid) : outcome.succeeded = true := by
  by_contra hfailed
  rw [verdictOf, if_neg hfailed] at h
  split at h <;> cases h

/-- An archive that was put in place. The warnings say what is unproven about it. -/
structure WrittenArchive where
  archive : Archive
  bytes : UInt64
  warnings : List String
deriving DecidableEq

/-- Why no archive was put in place. The path of an I/O error is a file of the directory, or
the directory. -/
inductive ArchiveError where
  | alreadyExists (name : String)
  | inProgress (name : String)
  | dumpFailed (stderr : String)
  | unreadable (stderr : String)
  | shrunk (bytes previousBytes : UInt64) (previous : String)
  | spawn (error : String)
  | io (action : String) (path : Option String) (source : String)
deriving DecidableEq

/-- Why a file was not created. -/
inductive CreateError where
  | alreadyExists
  | other (source : String)

/-- The programs that a run uses. -/
structure ArchiveTools where
  pgDump : String
  pgRestore : String

/-- The file operations in the backup directory, the tools, and the return of a run. -/
inductive ArchiveCall where
  | createNew (name : String)
  | present (name : String)
  | isFile (name : String)
  | readDir
  | size (name : String)
  | sync (path : Option String)
  | rename (name target : String)
  | remove (name : String)
  | dump (pgDump : String) (conn : PgConn) (out : String)
  | list (pgRestore archive : String)
  | report (result : Except ArchiveError WrittenArchive)

/-- What each operation yields. -/
def ArchiveCall.Value : ArchiveCall → Type
  | .createNew _ => Except CreateError Unit
  | .present _ => Bool
  | .isFile _ => Bool
  | .readDir => Except String (List String)
  | .size _ => Except String UInt64
  | .sync _ => Except String Unit
  | .rename _ _ => Except String Unit
  | .remove _ => Unit
  | .dump _ _ _ => Except String Outcome
  | .list _ _ => Except String Outcome
  | .report _ => Unit

/-- The operations as commands. -/
@[reducible] def ArchiveSig : Sig where
  Cmd := ArchiveCall
  Ans := ArchiveCall.Value

/-! ## Writing an archive -/

/-- What a run is asked for. -/
structure ArchiveRun where
  conn : PgConn
  fraise : String
  environment : String
  stamp : UtcStamp
  tools : ArchiveTools

/-- The name of the archive that a run writes. -/
def ArchiveRun.target (run : ArchiveRun) : String :=
  archiveFileName run.fraise run.environment run.stamp

/-- Whether `pg_restore --list` reads an archive. -/
def verifyArchive (pgRestore archive : String) : Prog ArchiveSig Verdict := do
  if !(← (.call (.isFile archive) .ret : Prog ArchiveSig Bool)) then
    return notThere archive
  let listed ← (.call (.list pgRestore archive) .ret : Prog ArchiveSig (Except String Outcome))
  return verdictOf pgRestore listed

/-- A partial file that a run has created: it is removed in the end unless it was
persisted. -/
structure Partial where
  path : String
  persisted : Bool

namespace Partial

/-- Create a partial file exclusively. -/
def claim (path : String) : Prog ArchiveSig (Except ArchiveError Partial) := do
  match ← (.call (.createNew path) .ret : Prog ArchiveSig (Except CreateError Unit)) with
  | .ok _ => return .ok ⟨path, false⟩
  | .error .alreadyExists => return .error (.inProgress path)
  | .error (.other source) => return .error (.io "creating" path source)

/-- The size of a file, a partial one or another archive. -/
def len (path : String) : Prog ArchiveSig (Except ArchiveError UInt64) :=
  .attempt (.call (.size path) .ret) (.io "reading the size of" path) fun bytes =>
    .ret (.ok bytes)

/-- Flush the file, rename it to its target, and flush the directory. -/
def persist (self : Partial) (target : String) :
    Prog ArchiveSig (Partial × Except ArchiveError Unit) := do
  match ← (.call (.sync (some self.path)) .ret : Prog ArchiveSig (Except String Unit)) with
  | .error source => return (self, .error (.io "flushing" self.path source))
  | .ok _ =>
    match ← (.call (.rename self.path target) .ret : Prog ArchiveSig (Except String Unit)) with
    | .error source => return (self, .error (.io "renaming into place" target source))
    | .ok _ =>
      let self := { self with persisted := true }
      match ← (.call (.sync none) .ret : Prog ArchiveSig (Except String Unit)) with
      | .error source => return (self, .error (.io "flushing" none source))
      | .ok _ => return (self, .ok ())

/-- What becomes of the file at the end of the run. -/
def drop (self : Partial) : Prog ArchiveSig Unit :=
  if self.persisted then .ret () else .call (.remove self.path) .ret

end Partial

/-- Twice a number, or the greatest one. -/
def saturatingDouble (n : UInt64) : UInt64 :=
  UInt64.ofNat (min (2 * n.toNat) (2 ^ 64 - 1))

/-- Refuse a dump that is under half the size of the previous archive. -/
def weigh (bytes : UInt64) : Option Archive → Prog ArchiveSig (Except ArchiveError Unit)
  | none => .ret (.ok ())
  | some previous => .attempt (Partial.len previous.name) id fun previousBytes =>
      if saturatingDouble bytes < previousBytes then
        .ret (.error (.shrunk bytes previousBytes previous.name))
      else .ret (.ok ())

/-- Dump into the partial file. -/
def dumpInto (run : ArchiveRun) (path : String) : Prog ArchiveSig (Except ArchiveError Unit) :=
  .attempt (.call (.dump run.tools.pgDump run.conn path) .ret) .spawn fun (outcome : Outcome) =>
    if outcome.succeeded then .ret (.ok ())
    else .ret (.error (.dumpFailed (trim outcome.stderr)))

/-- Read the archive back, and say what is unproven about it. -/
def readBack (run : ArchiveRun) (path : String) :
    Prog ArchiveSig (Except ArchiveError (List String)) := do
  match ← verifyArchive run.tools.pgRestore path with
  | .valid => return .ok []
  | .invalid stderr => return .error (.unreadable stderr)
  | .unverifiable reason =>
      return .ok [s!"the archive was not verified with `pg_restore --list`: {reason}"]

/-- Everything between the claim of the partial file and its flush: the size of the dump,
and the warnings. -/
def fill (run : ArchiveRun) (path : String) :
    Prog ArchiveSig (Except ArchiveError (UInt64 × List String)) := do
  if ← (.call (.present run.target) .ret : Prog ArchiveSig Bool) then
    return .error (.alreadyExists run.target)
  .attempt (.call .readDir .ret) (.io "listing" none) fun (names : List String) =>
    let previous := latestArchive names run.fraise run.environment
    .attempt (dumpInto run path) id fun _ =>
      .attempt (readBack run path) id fun warnings =>
        .attempt (Partial.len path) id fun bytes =>
          .attempt (weigh bytes previous) id fun _ => .ret (.ok (bytes, warnings))

/-- Dump into a new archive. -/
def writeArchive (run : ArchiveRun) : Prog ArchiveSig (Except ArchiveError WrittenArchive) :=
  .attempt (Partial.claim (partialName run.target)) id fun part => do
    match ← fill run part.path with
    | .error error => do
        part.drop
        return .error error
    | .ok (bytes, warnings) => do
        let (part, persisted) ← part.persist run.target
        part.drop
        return persisted.map fun _ => ⟨⟨run.target, run.stamp⟩, bytes, warnings⟩

/-- A run, and its return. -/
def archiveRun (run : ArchiveRun) : Prog ArchiveSig Unit := do
  let result ← writeArchive run
  .call (.report result) .ret

end Fraisier.Db
