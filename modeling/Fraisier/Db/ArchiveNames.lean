import Fraisier.Db.Stamp

/-!
# Which file names are read as archives

File names come from outside. A name that ends in what looks like a timestamp is cut as one,
and panics where a character stands across the end of a field; see `parseBytes_exact`.
-/

namespace Fraisier.Db

open Fraisier.Data

/-! ## Texts that panic -/

/-- Whether bytes have the length and the two letters of a timestamp. -/
def HasShape (text : String) : Prop :=
  (bytes text).length = 16 ∧ (bytes text)[8]? = some 'T'.toUInt8 ∧
    (bytes text)[15]? = some 'Z'.toUInt8

/-- The slices of a timestamp that are numbers. -/
def fields : List (Nat × Nat) :=
  [(0, 4), (4, 6), (6, 8), (9, 11), (11, 13), (13, 15)]

/-- Whether the bytes of a field are digits. -/
def HasDigits (text : String) (field : Nat × Nat) : Prop :=
  (((bytes text).take field.2).drop field.1).all isAsciiDigit = true

/-- A text looks like a timestamp, but a character stands across the end of a field, behind
fields that are digits. -/
def Torn (text : String) : Prop :=
  HasShape text ∧ ∃ field ∈ fields, Straddles text.toList field.2 ∧
    ∀ earlier ∈ fields, earlier.2 ≤ field.1 → HasDigits text earlier

/-- Whether a step panics. -/
def Panics {α : Type} (run : Except Panic α) : Prop :=
  ∃ panic, run = .error panic

section Panics

variable {text : String}

/-- A slice panics where it can not be cut; what is no number is where the reading ends. -/
theorem panics_withNumber {α : Type} {start stop : Nat} {next : Nat → Except Panic (Option α)}
    {Q : Prop} (hle : start ≤ stop) (hstart : isBoundary (bytes text) start = true)
    (hnext : isBoundary (bytes text) stop = true → ∀ n, Panics (next n) ↔ Q) :
    Panics (withNumber text start stop next) ↔
      isBoundary (bytes text) stop = false ∨ HasDigits text (start, stop) ∧ Q := by
  by_cases hstop : isBoundary (bytes text) stop = true
  · have hslice : sliceBytes text start stop = .ok (((bytes text).take stop).drop start) := by
      rw [sliceBytes, if_pos ⟨hle, hstart, hstop⟩]
    rw [hstop, HasDigits]
    by_cases hdigits : (((bytes text).take stop).drop start).all isAsciiDigit = true
    · rw [withNumber_some hslice (if_pos hdigits)]
      simp only [hnext hstop, hdigits, true_and, Bool.true_eq_false, false_or]
    · rw [withNumber_none hslice (if_neg hdigits)]
      simp [Panics, hdigits]
  · have hslice : sliceBytes text start stop = .error (.notBoundary start stop) := by
      rw [sliceBytes, if_neg fun h => hstop h.2.2]
    exact iff_of_true ⟨_, withNumber_error hslice⟩ (.inl (Bool.eq_false_iff.mpr hstop))

/-- The letters of a timestamp have boundaries about them. -/
theorem HasShape.boundaries (h : HasShape text) :
    isBoundary (bytes text) 8 = true ∧ isBoundary (bytes text) 9 = true ∧
      isBoundary (bytes text) 15 = true := by
  obtain ⟨-, hT, hZ⟩ := h
  refine ⟨?_, isBoundary_succ hT (by decide), ?_⟩
  · rw [isBoundary, hT]
    show (8 == 0 || !isContinuation 'T'.toUInt8) = true
    decide
  · rw [isBoundary, hZ]
    show (15 == 0 || !isContinuation 'Z'.toUInt8) = true
    decide

/-- A text is cut inside a character exactly if it is torn. -/
theorem panics_parseBytes : Panics (UtcStamp.parseBytes text) ↔ Torn text := by
  by_cases hshape : HasShape text
  · obtain ⟨h8, h9, h15⟩ := hshape.boundaries
    have hfits : ¬ ((bytes text).length ≠ 16 ∨ (bytes text)[8]? ≠ some 'T'.toUInt8 ∨
        (bytes text)[15]? ≠ some 'Z'.toUInt8) := by
      rw [not_or, not_or, not_not, not_not, not_not]
      exact hshape
    have hstraddles : ∀ offset ≤ 16,
        Straddles text.toList offset ↔ isBoundary (bytes text) offset = false := by
      intro offset hoffset
      rw [bytes_eq]
      refine (isBoundary_eq_false_iff ?_).symm
      rw [← bytes_eq, hshape.1]
      exact hoffset
    have h0 : isBoundary (bytes text) 0 = true := isBoundary_zero text.toList
    rw [UtcStamp.parseBytes, if_neg hfits]
    have hlast : ∀ (P : Prop) [Decidable P], Panics (if P then
        (return some ⟨text⟩ : Except Panic (Option UtcStamp)) else return none) ↔ False := by
      intro P _
      refine iff_of_false ?_ id
      rintro ⟨panic, hpanic⟩
      split at hpanic <;> cases hpanic
    rw [panics_withNumber (by decide) h0 fun h4 _ => panics_withNumber (by decide) h4 fun h6 _ =>
      panics_withNumber (by decide) h6 fun _ _ => panics_withNumber (by decide) h9 fun h11 _ =>
      panics_withNumber (by decide) h11 fun h13 _ => panics_withNumber (by decide) h13 fun _ _ =>
      hlast _]
    simp only [Torn, hshape, fields, List.mem_cons, List.not_mem_nil, or_false, exists_eq_or_imp,
      forall_eq_or_imp, exists_eq_left, forall_eq, true_and, h8, h15, hstraddles 4 (by decide),
      hstraddles 6 (by decide), hstraddles 8 (by decide), hstraddles 11 (by decide),
      hstraddles 13 (by decide), hstraddles 15 (by decide)]
    norm_num
    simp only [and_or_left, and_comm, and_assoc]
  · refine iff_of_false ?_ fun h => hshape h.1
    rintro ⟨panic, hpanic⟩
    rw [UtcStamp.parseBytes, if_pos] at hpanic
    · cases hpanic
    · by_contra hfits
      rw [not_or, not_or, not_not, not_not, not_not] at hfits
      exact hshape hfits

theorem exists_of_withNumber {α : Type} {start stop : Nat}
    {next : Nat → Except Panic (Option α)} {a : α}
    (h : withNumber text start stop next = .ok (some a)) :
    HasDigits text (start, stop) ∧ ∃ n, next n = .ok (some a) := by
  cases hslice : sliceBytes text start stop with
  | error panic =>
      rw [withNumber_error hslice] at h
      cases h
  | ok digits =>
      cases hn : parseDigits digits with
      | none =>
          rw [withNumber_none hslice hn] at h
          cases h
      | some n =>
          rw [withNumber_some hslice hn] at h
          refine ⟨?_, n, h⟩
          rw [sliceBytes] at hslice
          split at hslice
          · cases hslice
            rw [parseDigits] at hn
            split at hn
            next hdigits => exact hdigits
            · cases hn
          · cases hslice

/-- What is read as a timestamp has ASCII bytes. -/
theorem ascii_of_parseBytes {stamp : UtcStamp}
    (h : UtcStamp.parseBytes text = .ok (some stamp)) : ∀ byte ∈ bytes text, byte < 0x80 := by
  rw [UtcStamp.parseBytes] at h
  split at h
  · cases h
  next hfits =>
    rw [not_or, not_or, not_not, not_not, not_not] at hfits
    obtain ⟨hlength, hT, hZ⟩ := hfits
    obtain ⟨hyear, _, h⟩ := exists_of_withNumber h
    obtain ⟨hmonth, _, h⟩ := exists_of_withNumber h
    obtain ⟨hday, _, h⟩ := exists_of_withNumber h
    obtain ⟨hhour, _, h⟩ := exists_of_withNumber h
    obtain ⟨hminute, _, h⟩ := exists_of_withNumber h
    obtain ⟨hsecond, _, -⟩ := exists_of_withNumber h
    have hascii : ∀ byte, isAsciiDigit byte = true → byte < 0x80 := by
      intro byte hbyte
      rw [isAsciiDigit, Bool.and_eq_true, decide_eq_true_eq, decide_eq_true_eq] at hbyte
      exact UInt8.lt_of_le_of_lt hbyte.2 (by decide)
    obtain ⟨y₁, y₂, y₃, y₄, m₁, m₂, d₁, d₂, t, h₁, h₂, i₁, i₂, s₁, s₂, z, heq⟩ :=
      exists_sixteen hlength
    rw [HasDigits, heq] at hyear hmonth hday hhour hminute hsecond
    rw [heq] at hT hZ ⊢
    cases hT
    cases hZ
    simp only [List.take_succ_cons, List.take_zero, List.drop_succ_cons, List.drop_zero,
      List.all_cons, List.all_nil, Bool.and_true, Bool.and_eq_true]
      at hyear hmonth hday hhour hminute hsecond
    simp only [List.mem_cons, List.not_mem_nil, or_false, forall_eq_or_imp, forall_eq]
    exact ⟨hascii _ hyear.1, hascii _ hyear.2.1, hascii _ hyear.2.2.1, hascii _ hyear.2.2.2,
      hascii _ hmonth.1, hascii _ hmonth.2, hascii _ hday.1, hascii _ hday.2, by decide,
      hascii _ hhour.1, hascii _ hhour.2, hascii _ hminute.1, hascii _ hminute.2,
      hascii _ hsecond.1, hascii _ hsecond.2, by decide⟩

/-- What is read without a panic is what the characters of the text say. -/
theorem eq_parse_of_parseBytes {answer : Option UtcStamp}
    (h : UtcStamp.parseBytes text = .ok answer) : answer = UtcStamp.parse text := by
  by_cases hascii : ∀ c ∈ text.toList, c.toNat < 128
  · rw [UtcStamp.parseBytes_ascii hascii] at h
    exact (Except.ok.inj h).symm
  · cases answer with
    | some stamp => exact absurd (ascii_of_utf8 (ascii_of_parseBytes h)) hascii
    | none =>
        rw [eq_comm, Option.eq_none_iff_forall_ne_some]
        intro stamp hstamp
        obtain ⟨-, moment, -, hchars⟩ := UtcStamp.parse_eq_some_iff.mp hstamp
        exact hascii (hchars ▸ moment.chars_ascii)

end Panics

/-- A text is one of sixteen ASCII characters `yyyymmddThhmmssZ` that name an instant. -/
def NamesInstant (text : String) : Prop :=
  ∃ moment : Moment, moment.date.year < 10000 ∧ text.toList = moment.chars

/-- A text is read without a panic, as a timestamp if it names an instant. -/
def ReadsExactly (text : String) : Prop :=
  ∃ answer, UtcStamp.parseBytes text = .ok answer ∧
    ∀ stamp, answer = some stamp ↔ stamp.text = text ∧ NamesInstant text

theorem readsExactly_iff (text : String) : ReadsExactly text ↔ ¬ Torn text := by
  rw [← panics_parseBytes]
  constructor
  · rintro ⟨answer, hanswer, -⟩ ⟨panic, hpanic⟩
    rw [hanswer] at hpanic
    cases hpanic
  · intro hcalm
    cases hanswer : UtcStamp.parseBytes text with
    | error panic => exact absurd ⟨panic, hanswer⟩ hcalm
    | ok answer =>
        refine ⟨answer, hanswer, fun stamp => ?_⟩
        rw [eq_parse_of_parseBytes hanswer]
        exact UtcStamp.parse_eq_some_iff

/-! ## Directories -/

/-- What is read of items one by one. -/
def collect {α β : Type} (read : α → Except Panic (Option β)) : List α → Except Panic (List β)
  | [] => return []
  | a :: rest => do
      let found ← read a
      let others ← collect read rest
      return found.toList ++ others

theorem panics_collect {α β : Type} {read : α → Except Panic (Option β)} {items : List α} :
    Panics (collect read items) ↔ ∃ a ∈ items, Panics (read a) := by
  induction items with
  | nil => simp [collect, Panics, pure, Except.pure]
  | cons a rest ih =>
      rw [List.exists_mem_cons_iff, ← ih, collect]
      cases hread : read a with
      | error panic =>
          exact iff_of_true ⟨panic, rfl⟩ (.inl ⟨panic, rfl⟩)
      | ok found =>
          cases hrest : collect read rest with
          | error panic => exact iff_of_true ⟨panic, rfl⟩ (.inr ⟨panic, rfl⟩)
          | ok others => simp [Panics, pure, Except.pure, bind, Except.bind]

/-- What is read without a panic is what is read of each item. -/
theorem collect_eq_ok {α β : Type} {read : α → Except Panic (Option β)} {plain : α → Option β}
    {items : List α} (h : ∀ a ∈ items, read a = .ok (plain a)) :
    collect read items = .ok (items.filterMap plain) := by
  induction items with
  | nil => rfl
  | cons a rest ih =>
      rw [collect, h a List.mem_cons_self, ih fun b hb => h b (List.mem_cons_of_mem a hb)]
      cases hplain : plain a with
      | none => simp [hplain, pure, Except.pure, bind, Except.bind]
      | some b => simp [hplain, pure, Except.pure, bind, Except.bind]

/-- What would be the timestamp of an archive of a fraise and an environment. -/
def archiveStamp (fraise environment name : String) : Option String := do
  let rest ← stripPrefix name fraise
  let rest ← stripPrefix rest "-"
  let rest ← stripPrefix rest environment
  let rest ← stripPrefix rest "-"
  stripSuffix rest ".pgdump"

theorem parseArchiveFileName_eq (fraise environment name : String) :
    parseArchiveFileName fraise environment name =
      (archiveStamp fraise environment name).bind UtcStamp.parse := by
  simp only [parseArchiveFileName, archiveStamp, Option.bind_eq_bind, Option.bind_assoc]

/-- The timestamp of a file that is an archive of a fraise and an environment. -/
def parseArchiveFileNameBytes (fraise environment name : String) :
    Except Panic (Option UtcStamp) :=
  match archiveStamp fraise environment name with
  | some stamp => UtcStamp.parseBytes stamp
  | none => return none

/-- The archives of a fraise and an environment among the files of a directory, oldest
first. -/
def listArchivesBytes (names : List String) (fraise environment : String) :
    Except Panic (List Archive) := do
  let archives ← collect (fun name => do
    let stamp ← parseArchiveFileNameBytes fraise environment name
    return stamp.map (Archive.mk name)) names
  return archives.insertionSort fun left right => left.stamp.text ≤ right.stamp.text

/-- What would be the timestamp just before the extension of a name. -/
def stampText (name : String) : Option String := do
  let (stem, _) ← rsplitOnce name.toList '.'
  let (_, stamp) ← rsplitOnce stem '-'
  return String.ofList stamp

/-- When an archive was taken: the timestamp of its name, or its modification time. -/
def Disk.takenAtBytes (d : Disk) (key : Key) : Except Panic Int := do
  match stampText key.name with
  | some text =>
      match ← UtcStamp.parseBytes text with
      | some stamp => return stamp.toSystemTime * 1000000000
      | none => return (d.modified key).getD 0
  | none => return (d.modified key).getD 0

/-- The files in a directory whose names match a pattern. A directory that does not exist or
cannot be read is an error. -/
def Disk.corpusBytes (d : Disk) (unreadable : List String → Option String) (dir : List String)
    (pattern : String) : Except Panic (Except String Corpus) :=
  match d.dirs dir with
  | none => return .error "no such directory"
  | some root =>
      match unreadable root with
      | some error => return .error error
      | none => do
          let candidates ← collect (fun e => do
            if d.isCandidate root pattern e.1 e.2 then
              let takenAt ← d.takenAtBytes e.1
              return some ⟨e.1, takenAt⟩
            else return none) d.entries
          return .ok
            { candidates
              outside := (d.entries.filter fun e => d.isOutside root pattern e.1 e.2).map Prod.fst }

theorem panics_parseArchiveFileName {fraise environment name : String} :
    Panics (parseArchiveFileNameBytes fraise environment name) ↔
      ∃ stamp, archiveStamp fraise environment name = some stamp ∧ Torn stamp := by
  rw [parseArchiveFileNameBytes]
  cases archiveStamp fraise environment name with
  | none => simp [Panics, pure, Except.pure]
  | some stamp => simp [panics_parseBytes]

/-- A step that only goes on with what another one read panics where that does. -/
theorem panics_map {α β : Type} {run : Except Panic α} (f : α → β) :
    Panics (do let a ← run; return f a) ↔ Panics run := by
  cases run with
  | error panic => exact iff_of_true ⟨panic, rfl⟩ ⟨panic, rfl⟩
  | ok a => simp [Panics, pure, Except.pure, bind, Except.bind]

/-- To list a directory panics where a file's name is torn. -/
theorem panics_listArchives {names : List String} {fraise environment : String} :
    Panics (listArchivesBytes names fraise environment) ↔
      ∃ name ∈ names, ∃ stamp, archiveStamp fraise environment name = some stamp ∧ Torn stamp := by
  rw [listArchivesBytes, panics_map, panics_collect]
  simp only [panics_map, panics_parseArchiveFileName]

/-- A directory that is listed without a panic has the archives its names say. -/
theorem listArchivesBytes_eq {names : List String} {fraise environment : String}
    (h : ¬ Panics (listArchivesBytes names fraise environment)) :
    listArchivesBytes names fraise environment = .ok (listArchives names fraise environment) := by
  rw [panics_listArchives] at h
  have hread : ∀ name ∈ names, (do
      let stamp ← parseArchiveFileNameBytes fraise environment name
      return stamp.map (Archive.mk name)) =
        (.ok ((parseArchiveFileName fraise environment name).map (Archive.mk name)) :
          Except Panic (Option Archive)) := by
    intro name hname
    rw [parseArchiveFileNameBytes, parseArchiveFileName_eq]
    cases hstamp : archiveStamp fraise environment name with
    | none => rfl
    | some stamp =>
        have hcalm : ¬ Panics (UtcStamp.parseBytes stamp) := by
          rw [panics_parseBytes]
          exact fun htorn => h ⟨name, hname, stamp, hstamp, htorn⟩
        cases hanswer : UtcStamp.parseBytes stamp with
        | error panic => exact absurd ⟨panic, hanswer⟩ hcalm
        | ok answer =>
            simp only [hanswer, eq_parse_of_parseBytes hanswer]
            rfl
  rw [listArchivesBytes, collect_eq_ok hread]
  rfl

theorem panics_takenAt {d : Disk} {key : Key} :
    Panics (d.takenAtBytes key) ↔ ∃ stamp, stampText key.name = some stamp ∧ Torn stamp := by
  rw [Disk.takenAtBytes]
  cases stampText key.name with
  | none => simp [Panics, pure, Except.pure]
  | some stamp =>
      simp only [Option.some.injEq, exists_eq_left', ← panics_parseBytes]
      cases UtcStamp.parseBytes stamp with
      | error panic => exact iff_of_true ⟨panic, rfl⟩ ⟨panic, rfl⟩
      | ok answer =>
          cases answer with
          | none => simp [Panics, pure, Except.pure, bind, Except.bind]
          | some found => simp [Panics, pure, Except.pure, bind, Except.bind]

/-- To build a corpus panics where the name of one of its files is torn. -/
theorem panics_corpus {d : Disk} {unreadable : List String → Option String} {dir : List String}
    {pattern : String} :
    Panics (d.corpusBytes unreadable dir pattern) ↔
      ∃ root, d.dirs dir = some root ∧ unreadable root = none ∧ ∃ e ∈ d.entries,
        d.isCandidate root pattern e.1 e.2 = true ∧
          ∃ stamp, stampText e.1.name = some stamp ∧ Torn stamp := by
  rw [Disk.corpusBytes]
  cases d.dirs dir with
  | none => simp [Panics, pure, Except.pure]
  | some root =>
      cases hunreadable : unreadable root with
      | some error => simp [Panics, pure, Except.pure, hunreadable]
      | none =>
          simp only [Option.some.injEq, exists_eq_left', hunreadable, true_and]
          rw [panics_map, panics_collect]
          refine exists_congr fun e => and_congr_right fun _ => ?_
          split
          next hcandidate => rw [panics_map, panics_takenAt, hcandidate]; simp
          next hcandidate => simp [Panics, pure, Except.pure, hcandidate]

/-- A timestamp is read without a panic and exactly, a directory is listed without a panic, and
a corpus is built without one, if and only if no text that would be a timestamp is torn. -/
theorem parseBytes_exact (text : String) (names : List String) (fraise environment : String)
    (d : Disk) (unreadable : List String → Option String) (dir : List String)
    (pattern : String) :
    (ReadsExactly text ↔ ¬ Torn text) ∧
    (¬ Panics (listArchivesBytes names fraise environment) ↔
      ∀ name ∈ names, ∀ stamp, archiveStamp fraise environment name = some stamp →
        ¬ Torn stamp) ∧
    (¬ Panics (d.corpusBytes unreadable dir pattern) ↔
      ∀ root, d.dirs dir = some root → unreadable root = none → ∀ e ∈ d.entries,
        d.isCandidate root pattern e.1 e.2 = true →
          ∀ stamp, stampText e.1.name = some stamp → ¬ Torn stamp) := by
  refine ⟨readsExactly_iff text, ?_, ?_⟩
  · rw [panics_listArchives]
    simp only [not_exists, not_and]
  · rw [panics_corpus]
    simp only [not_exists, not_and]

/-- Sixteen bytes with a two-byte character in the month. -/
theorem parseBytes_panics :
    UtcStamp.parseBytes "20261é6T031542Z" = .error (.notBoundary 4 6) ∧
      ¬ ReadsExactly "20261é6T031542Z" ∧
      listArchivesBytes ["app-prod-20261é6T031542Z.pgdump"] "app" "prod" =
        .error (.notBoundary 4 6) ∧
      (⟨some, [(⟨["backups"], "app-prod-20261é6T031542Z.pgdump"⟩, .file 0)],
        by decide⟩ : Disk).corpusBytes (fun _ => none) ["backups"] "*.pgdump" =
        .error (.notBoundary 4 6) := by
  have hparse : UtcStamp.parseBytes "20261é6T031542Z" = .error (.notBoundary 4 6) := by decide
  refine ⟨hparse, ?_, by decide, ?_⟩
  · rintro ⟨answer, hanswer, -⟩
    rw [hparse] at hanswer
    cases hanswer
  · rfl

end Fraisier.Db
