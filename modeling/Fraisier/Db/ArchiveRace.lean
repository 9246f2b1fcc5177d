import Fraisier.Db.Archive
import Fraisier.Effect.Pool

/-!
# Runs that write archives to one directory

Any number of runs, for the same or for different fraises and environments, in any
interleaving, with any failures. Beside each file stands what is known of it and which run
created it, and beside each run what it saw, what it put in place, what it removed and what
it returned. The main theorem is `archives_safe`.
-/

namespace Fraisier.Db

open Fraisier.Data Fraisier.Effect

/-! ## The directory -/

/-- A regular file: its size, whether the dump into it succeeded, whether it was read back
since, and the run that created it. -/
structure File (ι : Type) where
  size : UInt64
  dumped : Bool
  readBack : Bool
  owner : Option ι

/-- A file that was there before. -/
def File.found {ι : Type} (size : UInt64) : File ι :=
  ⟨size, false, false, none⟩

/-- The regular files of the backup directory, and how many operations were made. -/
structure Directory (ι : Type) where
  files : String → Option (File ι)
  calls : Nat

/-- A run: its directory listing, what it put in place, what it removed and what it
returned. -/
structure Writer (ι : Type) where
  self : ι
  run : ArchiveRun
  seen : List String
  placed : Option (String × File ι)
  removed : List (File ι)
  told : Option (Except ArchiveError WrittenArchive)

/-- What an operation meets: an I/O error, a file that cannot be looked at, the entries that
a listing comes upon, what becomes of a tool and what `pg_dump` writes. -/
structure ArchiveFault where
  error : Option String
  unseen : Bool
  entries : List String
  tool : Except String Outcome
  written : UInt64

section Directory

variable {ι : Type}

def Directory.put (d : Directory ι) (name : String) (file : Option (File ι)) : Directory ι :=
  { d with files := Function.update d.files name file }

/-- A file after `pg_dump` wrote to it. -/
def File.after (file : Option (File ι)) (written : UInt64) (outcome : Outcome) : File ι :=
  ⟨written, outcome.succeeded, false, file.bind File.owner⟩

/-- Carry out an operation of a run. The `n`-th one meets the `n`-th fault. -/
def archiveMonitor (faults : Nat → ArchiveFault) : Monitor ArchiveSig (Writer ι) (Directory ι) :=
  fun w c _ d =>
    let fault := faults d.calls
    let d := { d with calls := d.calls + 1 }
    match c with
    | .createNew name =>
        match fault.error with
        | some error => (.error (.other error), w, d)
        | none =>
            if (d.files name).isSome then (.error .alreadyExists, w, d)
            else (.ok (), w, d.put name (some ⟨0, false, false, some w.self⟩))
    | .present name => (!fault.unseen && (d.files name).isSome, w, d)
    | .isFile name => (!fault.unseen && (d.files name).isSome, w, d)
    | .readDir =>
        match fault.error with
        | some error => (.error error, w, d)
        | none =>
            let seen := fault.entries.filter fun name => (d.files name).isSome
            (.ok seen, { w with seen := seen }, d)
    | .size name =>
        match fault.error, d.files name with
        | some error, _ => (.error error, w, d)
        | none, none => (.error "no such file", w, d)
        | none, some file => (.ok file.size, w, d)
    | .sync _ =>
        match fault.error with
        | some error => (.error error, w, d)
        | none => (.ok (), w, d)
    | .rename name target =>
        match fault.error, d.files name with
        | some error, _ => (.error error, w, d)
        | none, none => (.error "no such file", w, d)
        | none, some file =>
            (.ok (), { w with placed := some (target, file) },
              (d.put name none).put target (some file))
    | .remove name =>
        match fault.error, d.files name with
        | none, some file => ((), { w with removed := file :: w.removed }, d.put name none)
        | _, _ => ((), w, d)
    | .dump _ _ out =>
        match fault.tool with
        | .error error => (.error error, w, d)
        | .ok outcome =>
            (.ok outcome, w, d.put out (some (.after (d.files out) fault.written outcome)))
    | .list _ name =>
        match fault.tool, d.files name with
        | .ok outcome, some file =>
            (.ok outcome, w,
              d.put name (some { file with readBack := file.readBack || outcome.succeeded }))
        | tool, _ => (tool, w, d)
    | .report result => ((), { w with told := some result }, d)

/-- Runs that have not begun, and the sizes of the files that are there. -/
def writers (runs : ι → ArchiveRun) (sizes : String → Option UInt64) :
    Pool ι ArchiveSig (Writer ι) (Directory ι) where
  threads i := archiveRun (runs i)
  tags i := ⟨i, runs i, [], none, [], none⟩
  state := ⟨fun name => (sizes name).map .found, 0⟩

end Directory

/-! ## What is asked of the runs, and of the operations -/

/-- A name that an archive can have. -/
def IsArchiveName (name : String) : Prop :=
  ∃ fraise environment stamp, name = archiveFileName fraise environment stamp

/-- The newest archive of its pair that a run saw is at most twice as large. -/
def HalfOfNewest {ι : Type} (w : Writer ι) (d : Directory ι) (size : UInt64) : Prop :=
  ∀ name, IsNewest w.seen w.run.fraise w.run.environment name →
    ∃ file, d.files name = some file ∧ file.size.toNat ≤ 2 * size.toNat

/-- A run has not returned, or it returned with a warning. -/
def Warns : Option (Except ArchiveError WrittenArchive) → Prop
  | none => True
  | some (.ok written) => written.warnings ≠ []
  | some (.error _) => False

/-- What a run has put in place is still there, was dumped, was read back or is warned of,
and is not too small; a run that failed has put nothing in place, and none has removed a
partial file but its own. -/
structure Writer.Honest {ι : Type} (d : Directory ι) (w : Writer ι) : Prop where
  named : ∀ name file, w.placed = some (name, file) → name = w.run.target
  kept : ∀ name file, w.placed = some (name, file) → d.files name = some file
  dumped : ∀ name file, w.placed = some (name, file) → file.dumped = true
  readBack : ∀ name file, w.placed = some (name, file) → file.readBack = true ∨ Warns w.told
  half : ∀ name file, w.placed = some (name, file) → HalfOfNewest w d file.size
  failed : ∀ error, w.told = some (.error error) → w.placed = none
  removed : ∀ file ∈ w.removed, file.owner = some w.self

/-- The archives that were there are as they were, every other one was put in place by a run,
and the runs are honest. -/
structure ArchivesSafe {ι : Type} (sizes : String → Option UInt64)
    (p : Pool ι ArchiveSig (Writer ι) (Directory ι)) : Prop where
  lasting : ∀ name size, IsArchiveName name → sizes name = some size →
    p.state.files name = some (.found size)
  placed : ∀ name file, IsArchiveName name → p.state.files name = some file →
    sizes name ≠ none ∨ ∃ i, (p.tags i).placed = some (name, file)
  honest : ∀ i, (p.tags i).self = i ∧ (p.tags i).Honest p.state

/-- An archive that is there is seen, and a directory is flushed. -/
def OperationsWell {ι : Type} (faults : Nat → ArchiveFault)
    (p : Pool ι ArchiveSig (Writer ι) (Directory ι)) (i : ι) : Prop :=
  match p.threads i with
  | .call (.present name) _ =>
      (p.state.files name).isSome = true → (faults p.state.calls).unseen = false
  | .call (.sync none) _ => (faults p.state.calls).error = none
  | _ => True

/-! ## The course of a run -/

/-- Where a run stands. -/
inductive WriteStage where
  | fresh
  | claimed
  | free
  | listed (seen : List String)
  | dumped (seen : List String) (readBack : Bool)
  | weighed (seen warnings : List String) (bytes : UInt64) (floor : Option UInt64)
  | placed (warnings : List String)
  | broken
  | over
  | finished

/-- Whether a run has its partial file. -/
def WriteStage.Owns : WriteStage → Prop
  | .claimed => True
  | .free => True
  | .listed _ => True
  | .dumped _ _ => True
  | .weighed _ _ _ _ => True
  | _ => False

/-- How a run moves along. -/
inductive WriteMove (run : ArchiveRun) :
    WriteStage → (c : ArchiveCall) → c.Value → WriteStage → Prop
  | claim : WriteMove run .fresh (.createNew (partialName run.target)) (.ok ()) .claimed
  | refused (error : CreateError) :
      WriteMove run .fresh (.createNew (partialName run.target)) (.error error) .over
  | present (x : Bool) :
      WriteMove run .claimed (.present run.target) x (if x then .claimed else .free)
  | listed (names : List String) : WriteMove run .free .readDir (.ok names) (.listed names)
  | unlisted (error : String) : WriteMove run .free .readDir (.error error) .free
  | dumped (seen : List String) (pgDump : String) (conn : PgConn) (outcome : Outcome) :
      WriteMove run (.listed seen) (.dump pgDump conn (partialName run.target)) (.ok outcome)
        (if outcome.succeeded then .dumped seen false else .listed seen)
  | undumped (seen : List String) (pgDump : String) (conn : PgConn) (error : String) :
      WriteMove run (.listed seen) (.dump pgDump conn (partialName run.target)) (.error error)
        (.listed seen)
  | isFile {φ : WriteStage} (x : Bool) : WriteMove run φ (.isFile (partialName run.target)) x φ
  | read (seen : List String) (pgRestore : String) (outcome : Outcome) :
      WriteMove run (.dumped seen false) (.list pgRestore (partialName run.target)) (.ok outcome)
        (.dumped seen outcome.succeeded)
  | unread (seen : List String) (pgRestore error : String) :
      WriteMove run (.dumped seen false) (.list pgRestore (partialName run.target)) (.error error)
        (.dumped seen false)
  | measured (seen warnings : List String) (readBack : Bool) (bytes : UInt64) :
      readBack = true ∨ warnings ≠ [] →
      WriteMove run (.dumped seen readBack) (.size (partialName run.target)) (.ok bytes)
        (.weighed seen warnings bytes none)
  | unmeasured (seen : List String) (readBack : Bool) (error : String) :
      WriteMove run (.dumped seen readBack) (.size (partialName run.target)) (.error error)
        (.dumped seen readBack)
  | floor (seen warnings : List String) (bytes previousBytes : UInt64) (previous : Archive) :
      latestArchive seen run.fraise run.environment = some previous →
      WriteMove run (.weighed seen warnings bytes none) (.size previous.name) (.ok previousBytes)
        (.weighed seen warnings bytes (some previousBytes))
  | noFloor (seen warnings : List String) (bytes : UInt64) (name error : String) :
      WriteMove run (.weighed seen warnings bytes none) (.size name) (.error error)
        (.weighed seen warnings bytes none)
  | flush {φ : WriteStage} (name : String) (x : Except String Unit) :
      WriteMove run φ (.sync (some name)) x φ
  | rename (seen warnings : List String) (bytes : UInt64) (floor : Option UInt64) :
      (∀ previousBytes, floor = some previousBytes → ¬ saturatingDouble bytes < previousBytes) →
      (floor = none → latestArchive seen run.fraise run.environment = none) →
      WriteMove run (.weighed seen warnings bytes floor)
        (.rename (partialName run.target) run.target) (.ok ()) (.placed warnings)
  | unrenamed (seen warnings : List String) (bytes : UInt64) (floor : Option UInt64)
      (error : String) :
      WriteMove run (.weighed seen warnings bytes floor)
        (.rename (partialName run.target) run.target) (.error error)
        (.weighed seen warnings bytes floor)
  | settle (warnings : List String) :
      WriteMove run (.placed warnings) (.sync none) (.ok ()) (.placed warnings)
  | unsettled (warnings : List String) (error : String) :
      WriteMove run (.placed warnings) (.sync none) (.error error) .broken
  | remove {φ : WriteStage} (x : Unit) : φ.Owns →
      WriteMove run φ (.remove (partialName run.target)) x .over
  | failed (error : ArchiveError) (x : Unit) :
      WriteMove run .over (.report (.error error)) x .finished
  | brokenReport (result : Except ArchiveError WrittenArchive) (x : Unit) :
      WriteMove run .broken (.report result) x .finished
  | written (written : WrittenArchive) (x : Unit) :
      WriteMove run (.placed written.warnings) (.report (.ok written)) x .finished

/-- Where a run stands, and which one it is. -/
structure WritePhase where
  run : ArchiveRun
  stage : WriteStage

/-- The course of runs. -/
def writeProtocol : Protocol ArchiveSig WritePhase where
  Possible _ _ := True
  Move φ c x φ' := φ'.run = φ.run ∧ WriteMove φ.run φ.stage c x φ'.stage

section Course

variable {run : ArchiveRun} {seen : List String}

/-- An operation and what follows it. -/
theorem follows_operation {α : Type} {φ : WriteStage} {c : ArchiveCall}
    {k : c.Value → Prog ArchiveSig α} {Q : α → WritePhase → Prop}
    (h : ∀ x, ∃ φ', WriteMove run φ c x φ' ∧ writeProtocol.Follows (k x) Q ⟨run, φ'⟩) :
    writeProtocol.Follows (.call c k) Q ⟨run, φ⟩ := by
  intro x _
  obtain ⟨φ', hmove, hrest⟩ := h x
  exact ⟨⟨run, φ'⟩, ⟨rfl, hmove⟩, hrest⟩

/-- What a step of a run leaves: it has its partial file, or it goes on from a stage. -/
def Leaves {α : Type} (run : ArchiveRun) (next : α → WriteStage → Prop)
    (result : Except ArchiveError α) (φ : WritePhase) : Prop :=
  ∃ stage, φ = ⟨run, stage⟩ ∧
    match result with
    | .error _ => stage.Owns
    | .ok a => next a stage

/-- A step of a run and what follows it. -/
theorem follows_step {α β : Type} {p : Prog ArchiveSig (Except ArchiveError α)}
    {f : α → Prog ArchiveSig (Except ArchiveError β)} {next : α → WriteStage → Prop}
    {next' : β → WriteStage → Prop} {φ : WritePhase}
    (hp : writeProtocol.Follows p (Leaves run next) φ)
    (hf : ∀ a stage, next a stage → writeProtocol.Follows (f a) (Leaves run next') ⟨run, stage⟩) :
    writeProtocol.Follows (p.attempt id f) (Leaves run next') φ := by
  refine Protocol.follows_attempt (Protocol.follows_post ?_ hp)
  intro result φ' hleaves
  obtain ⟨stage, rfl, hstage⟩ := hleaves
  cases result with
  | error error => exact ⟨stage, rfl, hstage⟩
  | ok a => exact hf a stage hstage

theorem dumpInto_follows :
    writeProtocol.Follows (dumpInto run (partialName run.target))
      (Leaves run fun _ φ => φ = .dumped seen false) ⟨run, .listed seen⟩ := by
  refine Protocol.follows_attempt (follows_operation ?_)
  intro x
  cases x with
  | error error => exact ⟨_, .undumped seen _ _ error, _, rfl, trivial⟩
  | ok outcome =>
      refine ⟨_, .dumped seen _ _ outcome, ?_⟩
      show writeProtocol.Follows (if outcome.succeeded then _ else _) _ _
      by_cases hsucceeded : outcome.succeeded = true
      · rw [if_pos hsucceeded, if_pos hsucceeded]
        exact ⟨_, rfl, rfl⟩
      · rw [if_neg hsucceeded, if_neg hsucceeded]
        exact ⟨_, rfl, trivial⟩

theorem verifyArchive_follows (pgRestore : String) :
    writeProtocol.Follows (verifyArchive pgRestore (partialName run.target))
      (fun verdict φ => ∃ readBack, φ = ⟨run, .dumped seen readBack⟩ ∧
        (verdict = .valid → readBack = true)) ⟨run, .dumped seen false⟩ := by
  refine follows_operation (c := .isFile (partialName run.target)) ?_
  intro x
  refine ⟨_, .isFile x, ?_⟩
  cases x with
  | false => exact ⟨false, rfl, by simp [notThere]⟩
  | true =>
      refine follows_operation (c := .list pgRestore (partialName run.target)) ?_
      intro y
      cases y with
      | error error => exact ⟨_, .unread seen _ error, false, rfl, by simp [verdictOf]⟩
      | ok outcome => exact ⟨_, .read seen _ outcome, _, rfl, succeeded_of_valid⟩

theorem readBack_follows :
    writeProtocol.Follows (readBack run (partialName run.target))
      (Leaves run fun warnings φ => ∃ readBack, φ = .dumped seen readBack ∧
        (readBack = true ∨ warnings ≠ [])) ⟨run, .dumped seen false⟩ := by
  refine Protocol.follows_bind (Protocol.follows_post ?_ (verifyArchive_follows _))
  intro verdict φ hverdict
  obtain ⟨readBack, rfl, hvalid⟩ := hverdict
  cases verdict with
  | valid => exact ⟨_, rfl, readBack, rfl, .inl (hvalid rfl)⟩
  | invalid reason => exact ⟨_, rfl, trivial⟩
  | unverifiable reason => exact ⟨_, rfl, readBack, rfl, .inr (List.cons_ne_nil _ _)⟩

theorem len_follows {readBack : Bool} {warnings : List String}
    (hread : readBack = true ∨ warnings ≠ []) :
    writeProtocol.Follows (Partial.len (partialName run.target))
      (Leaves run fun bytes φ => φ = .weighed seen warnings bytes none)
      ⟨run, .dumped seen readBack⟩ := by
  refine Protocol.follows_attempt (follows_operation ?_)
  intro x
  cases x with
  | error error => exact ⟨_, .unmeasured seen readBack error, _, rfl, trivial⟩
  | ok bytes => exact ⟨_, .measured seen warnings readBack bytes hread, _, rfl, rfl⟩

/-- A dump that is not refused for its size. -/
def Weighed (run : ArchiveRun) (warnings : List String) (bytes : UInt64) (φ : WriteStage) : Prop :=
  ∃ seen floor, φ = .weighed seen warnings bytes floor ∧
    (∀ previousBytes, floor = some previousBytes → ¬ saturatingDouble bytes < previousBytes) ∧
    (floor = none → latestArchive seen run.fraise run.environment = none)

theorem weigh_follows {previous : Option Archive} {warnings : List String} {bytes : UInt64}
    (hprevious : latestArchive seen run.fraise run.environment = previous) :
    writeProtocol.Follows (weigh bytes previous)
      (Leaves run fun _ φ => Weighed run warnings bytes φ)
      ⟨run, .weighed seen warnings bytes none⟩ := by
  cases previous with
  | none => exact ⟨_, rfl, seen, none, rfl, by simp, fun _ => hprevious⟩
  | some previous =>
      refine Protocol.follows_attempt (Protocol.follows_attempt (follows_operation ?_))
      intro x
      cases x with
      | error error => exact ⟨_, .noFloor seen warnings bytes _ error, _, rfl, trivial⟩
      | ok previousBytes =>
          refine ⟨_, .floor seen warnings bytes previousBytes previous hprevious, ?_⟩
          show writeProtocol.Follows (if _ < previousBytes then _ else _) _ _
          split
          next => exact ⟨_, rfl, trivial⟩
          next hfits => exact ⟨_, rfl, seen, some previousBytes, rfl, by simpa using hfits, by simp⟩

theorem fill_follows :
    writeProtocol.Follows (fill run (partialName run.target))
      (Leaves run fun filled φ => Weighed run filled.2 filled.1 φ) ⟨run, .claimed⟩ := by
  refine follows_operation (c := .present run.target) ?_
  intro x
  refine ⟨_, .present x, ?_⟩
  cases x with
  | true => exact ⟨_, rfl, trivial⟩
  | false =>
      refine Protocol.follows_attempt (follows_operation (c := .readDir) ?_)
      intro listing
      cases listing with
      | error error => exact ⟨_, .unlisted error, _, rfl, trivial⟩
      | ok seen =>
          refine ⟨_, .listed seen, follows_step dumpInto_follows ?_⟩
          intro _ stage hdumped
          subst hdumped
          refine follows_step readBack_follows ?_
          intro warnings stage hread
          obtain ⟨readBack, rfl, hread⟩ := hread
          refine follows_step (len_follows hread) ?_
          intro bytes stage hmeasured
          subst hmeasured
          exact follows_step (weigh_follows rfl) fun _ stage hweighed => ⟨_, rfl, hweighed⟩

/-- How the end of a run follows from what `persist` leaves. -/
def Ends (run : ArchiveRun) (warnings : List String) (left : Partial × Except ArchiveError Unit)
    (φ : WritePhase) : Prop :=
  ∃ stage, φ = ⟨run, stage⟩ ∧ left.1.path = partialName run.target ∧
    match left with
    | (part, .error _) =>
        part.persisted = false ∧ stage.Owns ∨ part.persisted = true ∧ stage = .broken
    | (part, .ok _) => part.persisted = true ∧ stage = .placed warnings

theorem persist_follows {warnings : List String} {bytes : UInt64} {φ : WriteStage}
    (h : Weighed run warnings bytes φ) :
    writeProtocol.Follows (Partial.persist ⟨partialName run.target, false⟩ run.target)
      (Ends run warnings) ⟨run, φ⟩ := by
  obtain ⟨seen, floor, rfl, hfits, hnone⟩ := h
  refine follows_operation (c := .sync (some (partialName run.target))) ?_
  intro x
  refine ⟨_, .flush _ x, ?_⟩
  cases x with
  | error error => exact ⟨_, rfl, rfl, .inl ⟨rfl, trivial⟩⟩
  | ok _ =>
      refine follows_operation (c := .rename (partialName run.target) run.target) ?_
      intro y
      cases y with
      | error error =>
          exact ⟨_, .unrenamed seen warnings bytes floor error, _, rfl, rfl, .inl ⟨rfl, trivial⟩⟩
      | ok _ =>
          refine ⟨_, .rename seen warnings bytes floor hfits hnone, ?_⟩
          refine follows_operation (c := .sync none) ?_
          intro z
          cases z with
          | error error => exact ⟨_, .unsettled warnings error, _, rfl, rfl, .inr ⟨rfl, rfl⟩⟩
          | ok _ => exact ⟨_, .settle warnings, _, rfl, rfl, rfl, rfl⟩

/-- How a run stands before it returns. -/
def Returns (run : ArchiveRun) (result : Except ArchiveError WrittenArchive) (φ : WritePhase) :
    Prop :=
  ∃ stage, φ = ⟨run, stage⟩ ∧ (stage = .broken ∨
    match result with
    | .error _ => stage = .over
    | .ok written => stage = .placed written.warnings)

theorem writeArchive_follows :
    writeProtocol.Follows (writeArchive run) (Returns run) ⟨run, .fresh⟩ := by
  refine Protocol.follows_attempt (follows_operation (c := .createNew (partialName run.target)) ?_)
  intro x
  cases x with
  | error error =>
      refine ⟨_, .refused error, ?_⟩
      cases error <;> exact ⟨_, rfl, .inr rfl⟩
  | ok _ =>
      refine ⟨_, .claim, ?_⟩
      show writeProtocol.Follows (fill run (partialName run.target) >>= _) _ _
      refine Protocol.follows_bind (Protocol.follows_post ?_ fill_follows)
      intro filled φ hfilled
      obtain ⟨stage, rfl, hstage⟩ := hfilled
      cases filled with
      | error error =>
          refine follows_operation (c := .remove (partialName run.target)) ?_
          exact fun y => ⟨_, .remove y hstage, _, rfl, .inr rfl⟩
      | ok filled =>
          obtain ⟨bytes, warnings⟩ := filled
          refine Protocol.follows_bind (Protocol.follows_post ?_ (persist_follows hstage))
          intro left φ hends
          obtain ⟨stage, rfl, hpath, hends⟩ := hends
          obtain ⟨⟨path, persisted⟩, result⟩ := left
          obtain rfl : path = partialName run.target := hpath
          cases result with
          | error error =>
              obtain ⟨rfl, howns⟩ | ⟨rfl, rfl⟩ := hends
              · refine follows_operation (c := .remove (partialName run.target)) ?_
                exact fun y => ⟨_, .remove y howns, _, rfl, .inr rfl⟩
              · exact ⟨_, rfl, .inl rfl⟩
          | ok _ =>
              obtain ⟨rfl, rfl⟩ := hends
              exact ⟨_, rfl, .inr rfl⟩

/-- A run follows its course to its return. -/
theorem archiveRun_follows (run : ArchiveRun) :
    writeProtocol.Follows (archiveRun run) (fun _ φ => φ = ⟨run, .finished⟩) ⟨run, .fresh⟩ := by
  refine Protocol.follows_bind (Protocol.follows_post ?_ writeArchive_follows)
  intro result φ hreturns
  obtain ⟨stage, rfl, hbroken | hstage⟩ := hreturns
  · subst hbroken
    exact follows_operation fun x => ⟨_, .brokenReport result x, rfl⟩
  · cases result with
    | error error =>
        obtain rfl : stage = .over := hstage
        exact follows_operation fun x => ⟨_, .failed error x, rfl⟩
    | ok written =>
        obtain rfl : stage = .placed written.warnings := hstage
        exact follows_operation fun x => ⟨_, .written written x, rfl⟩

end Course

/-! ## The invariant -/

section Invariant

variable {ι : Type}

/-- A run has its partial file, and nothing else yet. -/
def Writer.Holds (w : Writer ι) (d : Directory ι) (P : File ι → Prop) : Prop :=
  w.told = none ∧ w.placed = none ∧
    ∃ file, d.files (partialName w.run.target) = some file ∧ file.owner = some w.self ∧ P file

/-- A run is about an archive that is not there, after it saw some files. -/
def Writer.Saw (w : Writer ι) (d : Directory ι) (seen : List String) : Prop :=
  d.files w.run.target = none ∧ w.seen = seen

/-- The directory and the notes beside a run match its stage. -/
def WriteStage.Fits (w : Writer ι) (d : Directory ι) : WriteStage → Prop
  | .fresh => w.told = none ∧ w.placed = none
  | .claimed => w.Holds d fun _ => True
  | .free => (w.Holds d fun _ => True) ∧ d.files w.run.target = none
  | .listed seen => (w.Holds d fun _ => True) ∧ w.Saw d seen
  | .dumped seen readBack =>
      (w.Holds d fun file => file.dumped = true ∧ (readBack = true → file.readBack = true)) ∧
        w.Saw d seen
  | .weighed seen warnings bytes floor =>
      (w.Holds d fun file =>
        file.dumped = true ∧ (file.readBack = true ∨ warnings ≠ []) ∧ file.size = bytes) ∧
        w.Saw d seen ∧ ∀ previousBytes, floor = some previousBytes → ∃ previous file,
          latestArchive seen w.run.fraise w.run.environment = some previous ∧
            d.files previous.name = some file ∧ file.size = previousBytes
  | .placed warnings =>
      w.told = none ∧ ∃ file, w.placed = some (w.run.target, file) ∧
        (file.readBack = true ∨ warnings ≠ [])
  | .broken => False
  | .over => w.told = none ∧ w.placed = none
  | .finished => True

/-- What one operation of a run does to the directory: it changes its own partial file, and
puts it in place. -/
structure Directory.Step (w : Writer ι) (d d' : Directory ι) : Prop where
  keeps : ∀ name file, d.files name = some file → d'.files name = some file ∨
    (name = partialName w.run.target ∧ file.owner = some w.self)
  adds : ∀ name file, d'.files name = some file → d.files name = some file ∨
    (name = partialName w.run.target ∧ file.owner = some w.self) ∨
    (name = w.run.target ∧ file.owner = some w.self ∧
      d.files (partialName w.run.target) = some file)

/-- A run that has its partial file has it under its name. -/
theorem WriteStage.Fits.holds {w : Writer ι} {d : Directory ι} {φ : WriteStage} (h : φ.Fits w d)
    (howns : φ.Owns) : ∃ P, w.Holds d P := by
  cases φ with
  | claimed => exact ⟨_, h⟩
  | free => exact ⟨_, h.1⟩
  | listed seen => exact ⟨_, h.1⟩
  | dumped seen readBack => exact ⟨_, h.1⟩
  | weighed seen warnings bytes floor => exact ⟨_, h.1⟩
  | _ => exact howns.elim

/-- What holds between the runs and the directory. -/
structure WriteInv (sizes : String → Option UInt64) (phases : ι → WritePhase)
    (tags : ι → Writer ι) (d : Directory ι) : Prop where
  self : ∀ i, (tags i).self = i ∧ (phases i).run = (tags i).run
  fits : ∀ i, (phases i).stage.Fits (tags i) d
  honest : ∀ i, (tags i).Honest d
  lasting : ∀ name size, IsArchiveName name → sizes name = some size →
    d.files name = some (.found size)
  placed : ∀ name file, IsArchiveName name → d.files name = some file →
    sizes name ≠ none ∨ ∃ i, (tags i).placed = some (name, file)

theorem ArchiveRun.isArchiveName (run : ArchiveRun) : IsArchiveName run.target :=
  ⟨_, _, _, rfl⟩

theorem IsArchiveName.ne_partialName {name : String} (h : IsArchiveName name) (other : String) :
    name ≠ partialName other := by
  obtain ⟨fraise, environment, stamp, rfl⟩ := h
  exact archiveFileName_ne_partialName fraise environment stamp other

theorem isArchiveName_latest {names : List String} {fraise environment : String}
    {archive : Archive} (h : latestArchive names fraise environment = some archive) :
    IsArchiveName archive.name := by
  have hmem := mem_listArchives.mp (List.mem_of_getLast? h)
  exact ⟨fraise, environment, archive.stamp, eq_archiveFileName hmem.2⟩

namespace Directory.Step

variable {w w' : Writer ι} {d d' : Directory ι}

theorem refl (w : Writer ι) (d : Directory ι) (calls : ℕ) : d.Step w { d with calls := calls } :=
  ⟨fun _ _ h => .inl h, fun _ _ h => .inl h⟩

/-- An archive is kept. -/
theorem archive (h : d.Step w d') {name : String} {file : File ι} (hname : IsArchiveName name)
    (hfile : d.files name = some file) : d'.files name = some file := by
  obtain hkept | ⟨hunfinished, -⟩ := h.keeps name file hfile
  · exact hkept
  · exact absurd hunfinished (hname.ne_partialName _)

/-- The partial file of another run is kept. -/
theorem holds (h : d.Step w d') (hne : w'.self ≠ w.self) {P : File ι → Prop}
    (hholds : w'.Holds d P) : w'.Holds d' P := by
  obtain ⟨htold, hplaced, file, hfile, howner, hP⟩ := hholds
  refine ⟨htold, hplaced, file, ?_, howner, hP⟩
  obtain hkept | ⟨-, howner'⟩ := h.keeps _ file hfile
  · exact hkept
  · exact absurd (Option.some.inj (howner.symm.trans howner')) hne

/-- Another run does not put the archive in place that a run has claimed. -/
theorem target (h : d.Step w d') (hne : w'.self ≠ w.self) {P : File ι → Prop}
    (hholds : w'.Holds d P) (hnone : d.files w'.run.target = none) :
    d'.files w'.run.target = none := by
  obtain ⟨-, -, held, hheld, howner, -⟩ := hholds
  cases hfile : d'.files w'.run.target with
  | none => rfl
  | some file =>
      -- what is put there comes from the partial file of that name, which is the run's own
      obtain hold | ⟨hunfinished, -⟩ | ⟨htarget, howner', hsource⟩ := h.adds _ file hfile
      · rw [hnone] at hold
        cases hold
      · exact absurd hunfinished (w'.run.isArchiveName.ne_partialName _)
      · rw [← htarget, hheld] at hsource
        obtain rfl := Option.some.inj hsource
        exact absurd (Option.some.inj (howner.symm.trans howner')) hne

/-- What matches the stage of another run still does. -/
theorem fits (h : d.Step w d') (hne : w'.self ≠ w.self) {φ : WriteStage}
    (hfits : φ.Fits w' d) : φ.Fits w' d' := by
  cases φ with
  | claimed => exact h.holds hne hfits
  | free => exact ⟨h.holds hne hfits.1, h.target hne hfits.1 hfits.2⟩
  | listed seen => exact ⟨h.holds hne hfits.1, h.target hne hfits.1 hfits.2.1, hfits.2.2⟩
  | dumped seen readBack =>
      exact ⟨h.holds hne hfits.1, h.target hne hfits.1 hfits.2.1, hfits.2.2⟩
  | weighed seen warnings bytes floor =>
      obtain ⟨hholds, hsaw, hfloor⟩ := hfits
      refine ⟨h.holds hne hholds, ⟨h.target hne hholds hsaw.1, hsaw.2⟩, ?_⟩
      intro previousBytes hsome
      obtain ⟨previous, file, hlatest, hfile, hsize⟩ := hfloor previousBytes hsome
      exact ⟨previous, file, hlatest, h.archive (isArchiveName_latest hlatest) hfile, hsize⟩
  | _ => exact hfits

/-- An honest run stays so. -/
theorem honest (h : d.Step w d') (hhonest : w'.Honest d) : w'.Honest d' := by
  refine ⟨hhonest.named, ?_, hhonest.dumped, hhonest.readBack, ?_, hhonest.failed,
    hhonest.removed⟩
  · intro name file hplaced
    have hname := hhonest.named name file hplaced
    exact h.archive (hname ▸ w'.run.isArchiveName) (hhonest.kept name file hplaced)
  · intro name file hplaced newest hnewest
    obtain ⟨previous, hprevious, hhalf⟩ := hhonest.half name file hplaced newest hnewest
    -- the newest archive was there before, and an archive is kept
    obtain ⟨-, stamp, hstamp, -⟩ := hnewest
    exact ⟨previous, h.archive ⟨_, _, _, eq_archiveFileName hstamp⟩ hprevious, hhalf⟩

end Directory.Step

namespace WriteInv

variable {sizes : String → Option UInt64} {phases : ι → WritePhase} {tags : ι → Writer ι}
variable {d d' : Directory ι}

/-- An operation of one run. -/
theorem move [DecidableEq ι] (h : WriteInv sizes phases tags d) {i : ι} {φ : WritePhase}
    {w : Writer ι} (hself : w.self = (tags i).self) (hrun : w.run = (tags i).run)
    (hφ : φ.run = (tags i).run) (hstep : d.Step (tags i) d') (hfits : φ.stage.Fits w d')
    (hhonest : w.Honest d') (hplaced : ∀ x, (tags i).placed = some x → w.placed = some x)
    (hnew : ∀ name file, IsArchiveName name → d'.files name = some file →
      d.files name = some file ∨ w.placed = some (name, file)) :
    WriteInv sizes (Function.update phases i φ) (Function.update tags i w) d' := by
  refine ⟨?_, ?_, ?_, ?_, ?_⟩
  · intro j
    by_cases hj : j = i
    · subst hj
      exact ⟨by simpa [hself] using (h.self j).1, by simp [hφ, hrun]⟩
    · simpa [hj] using h.self j
  · intro j
    by_cases hj : j = i
    · subst hj
      simpa using hfits
    · simp only [Function.update_of_ne hj]
      -- another run: the step changed nothing that is its own
      refine hstep.fits ?_ (h.fits j)
      rw [(h.self j).1, (h.self i).1]
      exact hj
  · intro j
    by_cases hj : j = i
    · subst hj
      simpa using hhonest
    · simpa [hj] using hstep.honest (h.honest j)
  · exact fun name size hname hsize => hstep.archive hname (h.lasting name size hname hsize)
  · intro name file hname hfile
    obtain hold | hmine := hnew name file hname hfile
    · obtain hthere | ⟨j, hj⟩ := h.placed name file hname hold
      · exact .inl hthere
      · refine .inr ⟨j, ?_⟩
        by_cases hji : j = i
        · subst hji
          simpa using hplaced _ hj
        · simpa [hji] using hj
    · exact .inr ⟨i, by simpa using hmine⟩

/-- An operation that leaves the directory and the notes as they are. -/
theorem stay [DecidableEq ι] (h : WriteInv sizes phases tags d) {i : ι} {φ : WritePhase}
    (hφ : φ.run = (tags i).run) (hfits : φ.stage.Fits (tags i) d) (calls : ℕ) :
    WriteInv sizes (Function.update phases i φ) (Function.update tags i (tags i))
      { d with calls := calls } :=
  h.move rfl rfl hφ (.refl _ d calls) hfits
    ((Directory.Step.refl (tags i) d calls).honest (h.honest i)) (fun _ hx => hx)
    fun _ _ _ hfile => .inl hfile

end WriteInv

end Invariant

/-! ## Every operation keeps the invariant -/

section Operations

variable {ι : Type} {w : Writer ι} {d : Directory ι}

/-- The directory after an operation that leaves the files as they are. -/
def Directory.next (d : Directory ι) : Directory ι :=
  { d with calls := d.calls + 1 }

@[simp] theorem Directory.files_next (d : Directory ι) : d.next.files = d.files := rfl

@[simp] theorem Directory.files_put (d : Directory ι) (name : String) (file : Option (File ι)) :
    (d.put name file).files = Function.update d.files name file := rfl

/-- A run rewrites the partial file that it has. -/
theorem Writer.Holds.put {P Q : File ι → Prop} (h : w.Holds d P) {file : File ι}
    (howner : file.owner = some w.self) (hQ : Q file) :
    w.Holds (d.next.put (partialName w.run.target) (some file)) Q :=
  ⟨h.1, h.2.1, file, by simp, howner, hQ⟩

theorem Writer.Saw.put {seen : List String} (h : w.Saw d seen) (file : Option (File ι)) :
    w.Saw (d.next.put (partialName w.run.target) file) seen :=
  ⟨by simpa [w.run.isArchiveName.ne_partialName] using h.1, h.2⟩

/-- Whatever is under the name of its partial file is its own. -/
theorem Writer.Holds.own {P : File ι → Prop} (h : w.Holds d P) {held : File ι}
    (hheld : d.files (partialName w.run.target) = some held) : held.owner = some w.self := by
  obtain ⟨-, -, file, hfile, howner, -⟩ := h
  rw [hfile] at hheld
  exact Option.some.inj hheld ▸ howner

/-- A run changes its own partial file. -/
theorem Directory.Step.put {file : Option (File ι)}
    (hold : ∀ held, d.files (partialName w.run.target) = some held → held.owner = some w.self)
    (hnew : ∀ held, file = some held → held.owner = some w.self) :
    d.Step w (d.next.put (partialName w.run.target) file) := by
  constructor
  · intro name held hheld
    by_cases hname : name = partialName w.run.target
    · exact .inr ⟨hname, hold held (hname ▸ hheld)⟩
    · exact .inl (by simpa [hname] using hheld)
  · intro name held hheld
    by_cases hname : name = partialName w.run.target
    · subst hname
      exact .inr (.inl ⟨rfl, hnew held (by simpa using hheld)⟩)
    · exact .inl (by simpa [hname] using hheld)

/-- A run puts its partial file in place where no archive is. -/
theorem Directory.Step.rename {file : File ι}
    (hfile : d.files (partialName w.run.target) = some file) (howner : file.owner = some w.self)
    (hnone : d.files w.run.target = none) :
    d.Step w ((d.next.put (partialName w.run.target) none).put
      w.run.target (some file)) := by
  constructor
  · intro name held hheld
    by_cases htarget : name = w.run.target
    -- no archive is under the target yet, and the partial file is the run's own
    · rw [htarget, hnone] at hheld
      cases hheld
    · by_cases hname : name = partialName w.run.target
      · rw [hname, hfile] at hheld
        exact .inr ⟨hname, Option.some.inj hheld ▸ howner⟩
      · exact .inl (by simpa [htarget, hname] using hheld)
  · intro name held hheld
    by_cases htarget : name = w.run.target
    · subst htarget
      obtain rfl : file = held := by simpa using hheld
      exact .inr (.inr ⟨rfl, howner, hfile⟩)
    · by_cases hname : name = partialName w.run.target
      · subst hname
        simp [htarget] at hheld
      · exact .inl (by simpa [htarget, hname] using hheld)

/-- A run that has put nothing in place is honest, whatever it saw and whatever it returned. -/
theorem Writer.Honest.unplaced {w' : Writer ι} (h : w.Honest d) (hplaced : w'.placed = none)
    (hremoved : ∀ file ∈ w'.removed, file ∈ w.removed ∨ file.owner = some w.self)
    (hself : w'.self = w.self) : w'.Honest d := by
  have hnone : ∀ {P : Prop} {name file}, w'.placed = some (name, file) → P := by
    intro P name file hsome
    rw [hplaced] at hsome
    cases hsome
  refine ⟨fun _ _ => hnone, fun _ _ => hnone, fun _ _ => hnone, fun _ _ => hnone,
    fun _ _ => hnone, fun _ _ => hplaced, ?_⟩
  intro file hfile
  rw [hself]
  obtain hold | howner := hremoved file hfile
  · exact h.removed file hold
  · exact howner

/-- A run that puts an archive in place is honest. -/
theorem Writer.Honest.place {d' : Directory ι} {file : File ι} (h : w.Honest d)
    (hstep : d.Step w d') (hfile : d'.files w.run.target = some file) (htold : w.told = none)
    (hdumped : file.dumped = true) (hhalf : HalfOfNewest w d file.size) :
    Writer.Honest d' { w with placed := some (w.run.target, file) } := by
  have hmine : ∀ {P : String → File ι → Prop}, P w.run.target file → ∀ name held,
      some (w.run.target, file) = some (name, held) → P name held := by
    intro P hP name held hsome
    obtain ⟨rfl, rfl⟩ := Prod.mk.inj (Option.some.inj hsome)
    exact hP
  refine ⟨hmine rfl, hmine hfile, hmine (P := fun _ held => held.dumped = true) hdumped, ?_, ?_,
    ?_, h.removed⟩
  · exact hmine (P := fun _ held => held.readBack = true ∨ Warns w.told) (.inr (htold ▸ trivial))
  · refine hmine (P := fun _ held => HalfOfNewest _ d' held.size) ?_
    intro name hnewest
    obtain ⟨held, hheld, hle⟩ := hhalf name hnewest
    obtain ⟨-, stamp, hstamp, -⟩ := hnewest
    exact ⟨held, hstep.archive ⟨_, _, _, eq_archiveFileName hstamp⟩ hheld, hle⟩
  · intro error herror
    rw [show w.told = some (.error error) from herror] at htold
    cases htold

/-- A dump that is not refused is at least half as large as the previous archive. -/
theorem half_of_not_shrunk {bytes previousBytes : UInt64}
    (h : ¬ saturatingDouble bytes < previousBytes) :
    previousBytes.toNat ≤ 2 * bytes.toNat := by
  have hle : previousBytes.toNat ≤ (saturatingDouble bytes).toNat :=
    UInt64.le_iff_toNat_le.mp (UInt64.not_lt.mp h)
  have hdouble : (saturatingDouble bytes).toNat = min (2 * bytes.toNat) (2 ^ 64 - 1) := by
    -- doubling stops at the largest size there is
    rw [saturatingDouble, UInt64.toNat_ofNat_of_lt']
    exact lt_of_le_of_lt (min_le_right _ _) (by decide)
  omega

/-- A run changes its own partial file. -/
theorem WriteInv.put [DecidableEq ι] {sizes : String → Option UInt64} {phases : ι → WritePhase}
    {tags : ι → Writer ι} (h : WriteInv sizes phases tags d) {i : ι} {φ : WriteStage}
    {w : Writer ι} {file : Option (File ι)} (hself : w.self = (tags i).self)
    (hrun : w.run = (tags i).run) (hplaced : w.placed = (tags i).placed)
    (hold : ∀ held, d.files (partialName (tags i).run.target) = some held →
      held.owner = some (tags i).self)
    (hnew : ∀ held, file = some held → held.owner = some (tags i).self)
    (hhonest : w.Honest d)
    (hfits : φ.Fits w (d.next.put (partialName (tags i).run.target) file)) :
    WriteInv sizes (Function.update phases i ⟨(tags i).run, φ⟩) (Function.update tags i w)
      (d.next.put (partialName (tags i).run.target) file) := by
  have hstep : d.Step (tags i) _ := Directory.Step.put hold hnew
  refine h.move hself hrun rfl hstep hfits (hstep.honest hhonest)
    (fun _ hx => hplaced.trans hx) ?_
  intro name held hname hheld
  exact .inl (by simpa [hname.ne_partialName] using hheld)

section Answers

variable (faults : Nat → ArchiveFault) (w : Writer ι) (d : Directory ι)

theorem createNew_answer (name : String) (k : Except CreateError Unit → Prog ArchiveSig Unit) :
    (∃ error, archiveMonitor faults w (.createNew name) k d = (.error error, w, d.next)) ∨
      d.files name = none ∧ archiveMonitor faults w (.createNew name) k d =
        (.ok (), w, d.next.put name (some ⟨0, false, false, some w.self⟩)) := by
  cases herror : (faults d.calls).error with
  | some error => exact .inl ⟨.other error, by simp [archiveMonitor, herror, Directory.next]⟩
  | none =>
      cases hfile : d.files name with
      | some file =>
          exact .inl ⟨.alreadyExists, by simp [archiveMonitor, herror, hfile, Directory.next]⟩
      | none => exact .inr ⟨rfl, by simp [archiveMonitor, herror, hfile, Directory.next]⟩

theorem readDir_answer (k : Except String (List String) → Prog ArchiveSig Unit) :
    (∃ error, archiveMonitor faults w .readDir k d = (.error error, w, d.next)) ∨
      ∃ seen, archiveMonitor faults w .readDir k d =
        (.ok seen, { w with seen := seen }, d.next) := by
  cases herror : (faults d.calls).error with
  | some error => exact .inl ⟨error, by simp [archiveMonitor, herror, Directory.next]⟩
  | none => exact .inr ⟨_, by simp only [archiveMonitor, herror, Directory.next]; rfl⟩

theorem size_answer (name : String) (k : Except String UInt64 → Prog ArchiveSig Unit) :
    (∃ error, archiveMonitor faults w (.size name) k d = (.error error, w, d.next)) ∨
      ∃ file, d.files name = some file ∧
        archiveMonitor faults w (.size name) k d = (.ok file.size, w, d.next) := by
  cases herror : (faults d.calls).error with
  | some error => exact .inl ⟨error, by simp [archiveMonitor, herror, Directory.next]⟩
  | none =>
      cases hfile : d.files name with
      | none => exact .inl ⟨"no such file", by simp [archiveMonitor, herror, hfile, Directory.next]⟩
      | some file => exact .inr ⟨file, rfl, by simp [archiveMonitor, herror, hfile, Directory.next]⟩

theorem sync_answer (path : Option String) (k : Except String Unit → Prog ArchiveSig Unit) :
    (∃ error, (faults d.calls).error = some error ∧
      archiveMonitor faults w (.sync path) k d = (.error error, w, d.next)) ∨
      archiveMonitor faults w (.sync path) k d = (.ok (), w, d.next) := by
  cases herror : (faults d.calls).error with
  | some error => exact .inl ⟨error, rfl, by simp [archiveMonitor, herror, Directory.next]⟩
  | none => exact .inr (by simp [archiveMonitor, herror, Directory.next])

theorem rename_answer (name target : String) (k : Except String Unit → Prog ArchiveSig Unit) :
    (∃ error, archiveMonitor faults w (.rename name target) k d = (.error error, w, d.next)) ∨
      ∃ file, d.files name = some file ∧ archiveMonitor faults w (.rename name target) k d =
        (.ok (), { w with placed := some (target, file) },
          (d.next.put name none).put target (some file)) := by
  cases herror : (faults d.calls).error with
  | some error => exact .inl ⟨error, by simp [archiveMonitor, herror, Directory.next]⟩
  | none =>
      cases hfile : d.files name with
      | none => exact .inl ⟨"no such file", by simp [archiveMonitor, herror, hfile, Directory.next]⟩
      | some file => exact .inr ⟨file, rfl, by simp [archiveMonitor, herror, hfile, Directory.next]⟩

theorem remove_answer (name : String) (k : Unit → Prog ArchiveSig Unit) :
    archiveMonitor faults w (.remove name) k d = ((), w, d.next) ∨
      ∃ file, d.files name = some file ∧ archiveMonitor faults w (.remove name) k d =
        ((), { w with removed := file :: w.removed }, d.next.put name none) := by
  cases herror : (faults d.calls).error with
  | some error => exact .inl (by simp only [archiveMonitor, herror]; rfl)
  | none =>
      cases hfile : d.files name with
      | none => exact .inl (by simp only [archiveMonitor, herror, hfile]; rfl)
      | some file => exact .inr ⟨file, rfl, by simp only [archiveMonitor, herror, hfile]; rfl⟩

theorem dump_answer (pgDump : String) (conn : PgConn) (out : String)
    (k : Except String Outcome → Prog ArchiveSig Unit) :
    (∃ error, archiveMonitor faults w (.dump pgDump conn out) k d = (.error error, w, d.next)) ∨
      ∃ outcome written, archiveMonitor faults w (.dump pgDump conn out) k d =
        (.ok outcome, w, d.next.put out (some (.after (d.files out) written outcome))) := by
  cases htool : (faults d.calls).tool with
  | error error => exact .inl ⟨error, by simp [archiveMonitor, htool, Directory.next]⟩
  | ok outcome =>
      exact .inr ⟨outcome, _, by simp only [archiveMonitor, htool, Directory.next]; rfl⟩

theorem list_answer (pgRestore name : String)
    (k : Except String Outcome → Prog ArchiveSig Unit) :
    (∃ error, archiveMonitor faults w (.list pgRestore name) k d = (.error error, w, d.next)) ∨
      (d.files name = none ∧ ∃ outcome,
        archiveMonitor faults w (.list pgRestore name) k d = (.ok outcome, w, d.next)) ∨
      ∃ file outcome, d.files name = some file ∧
        archiveMonitor faults w (.list pgRestore name) k d = (.ok outcome, w,
          d.next.put name (some { file with readBack := file.readBack || outcome.succeeded })) := by
  cases htool : (faults d.calls).tool with
  | error error => exact .inl ⟨error, by simp [archiveMonitor, htool, Directory.next]⟩
  | ok outcome =>
      cases hfile : d.files name with
      | none =>
          exact .inr (.inl ⟨rfl, outcome, by simp [archiveMonitor, htool, hfile, Directory.next]⟩)
      | some file =>
          exact .inr (.inr ⟨file, outcome, rfl,
            by simp [archiveMonitor, htool, hfile, Directory.next]⟩)

end Answers

/-- What is put in place is not too small beside the newest archive that was seen. -/
theorem halfOfNewest_of_floor {seen : List String}
    {bytes : UInt64} {floor : Option UInt64} (hseen : w.seen = seen)
    (hfloor : ∀ previousBytes, floor = some previousBytes → ∃ previous file,
      latestArchive seen w.run.fraise w.run.environment = some previous ∧
      d.files previous.name = some file ∧ file.size = previousBytes)
    (hlarge : ∀ previousBytes, floor = some previousBytes →
      ¬ saturatingDouble bytes < previousBytes)
    (hlatest : floor = none → latestArchive seen w.run.fraise w.run.environment = none) :
    HalfOfNewest w d bytes := by
  intro name hnewest
  rw [hseen] at hnewest
  obtain ⟨archive, harchive, rfl⟩ := latestArchive_of_isNewest hnewest
  -- a floor was set from the newest archive seen, and without one there was none
  cases floor with
  | none =>
      rw [hlatest rfl] at harchive
      cases harchive
  | some previousBytes =>
      obtain ⟨previous, held, hprevious, hheld, rfl⟩ := hfloor previousBytes rfl
      obtain rfl := Option.some.inj (harchive.symm.trans hprevious)
      exact ⟨held, hheld, half_of_not_shrunk (hlarge _ rfl)⟩

section Keeps

variable [DecidableEq ι] {faults : Nat → ArchiveFault} {sizes : String → Option UInt64}
  {phases : ι → WritePhase} {p : Pool ι ArchiveSig (Writer ι) (Directory ι)} {i : ι}
  {φ φ' : WriteStage}

/-- The invariant holds once a run has carried out an operation and stands at a stage. -/
def WriteKept (faults : Nat → ArchiveFault) (sizes : String → Option UInt64)
    (phases : ι → WritePhase) (p : Pool ι ArchiveSig (Writer ι) (Directory ι)) (i : ι)
    (φ' : WriteStage) (c : ArchiveCall) (k : c.Value → Prog ArchiveSig Unit) : Prop :=
  WriteInv sizes (Function.update phases i ⟨(p.tags i).run, φ'⟩)
    (Function.update p.tags i (archiveMonitor faults (p.tags i) c k p.state).2.1)
    (archiveMonitor faults (p.tags i) c k p.state).2.2

/-- An operation that only looks. -/
theorem WriteKept.stay (h : WriteInv sizes phases p.tags p.state)
    (hfits : φ'.Fits (p.tags i) p.state) {c : ArchiveCall} {k : c.Value → Prog ArchiveSig Unit}
    {x : c.Value} (heq : archiveMonitor faults (p.tags i) c k p.state =
      (x, p.tags i, p.state.next)) : WriteKept faults sizes phases p i φ' c k := by
  unfold WriteKept
  rw [heq]
  exact h.stay rfl hfits _

theorem createNew_keeps (h : WriteInv sizes phases p.tags p.state)
    (hfits : φ.Fits (p.tags i) p.state) {name : String}
    {k : Except CreateError Unit → Prog ArchiveSig Unit} {x : Except CreateError Unit}
    (hx : x = (archiveMonitor faults (p.tags i) (.createNew name) k p.state).1)
    (hmove : WriteMove (p.tags i).run φ (.createNew name) x φ') :
    WriteKept faults sizes phases p i φ' (.createNew name) k := by
  have hanswer := createNew_answer faults (p.tags i) p.state name k
  cases hmove with
  | claim =>
      obtain ⟨error, heq⟩ | ⟨hnone, heq⟩ := hanswer
      · rw [heq] at hx
        cases hx
      · obtain ⟨htold, hplaced⟩ := hfits
        unfold WriteKept
        rw [heq]
        refine h.put rfl rfl rfl (by simp [hnone]) (by simp) (h.honest i) ?_
        refine ⟨htold, hplaced, ⟨0, false, false, some (p.tags i).self⟩, ?_, rfl, trivial⟩
        simp
  | refused error =>
      obtain ⟨error', heq⟩ | ⟨hnone, heq⟩ := hanswer
      · refine .stay h ?_ heq
        exact hfits
      · rw [heq] at hx
        cases hx

theorem present_keeps (h : WriteInv sizes phases p.tags p.state)
    (hfits : φ.Fits (p.tags i) p.state) {name : String}
    (hseen : (p.state.files name).isSome = true → (faults p.state.calls).unseen = false)
    {k : Bool → Prog ArchiveSig Unit} {x : Bool}
    (hx : x = (archiveMonitor faults (p.tags i) (.present name) k p.state).1)
    (hmove : WriteMove (p.tags i).run φ (.present name) x φ') :
    WriteKept faults sizes phases p i φ' (.present name) k := by
  cases hmove with
  | present x =>
      refine .stay h ?_ rfl
      cases x with
      | true => exact hfits
      | false =>
          refine ⟨hfits, ?_⟩
          by_contra hsome
          have hthere := Option.ne_none_iff_isSome.mp hsome
          simp [archiveMonitor, hseen hthere, hthere] at hx

theorem readDir_keeps (h : WriteInv sizes phases p.tags p.state)
    (hfits : φ.Fits (p.tags i) p.state) {k : Except String (List String) → Prog ArchiveSig Unit}
    {x : Except String (List String)}
    (hx : x = (archiveMonitor faults (p.tags i) .readDir k p.state).1)
    (hmove : WriteMove (p.tags i).run φ .readDir x φ') :
    WriteKept faults sizes phases p i φ' .readDir k := by
  have hanswer := readDir_answer faults (p.tags i) p.state k
  cases hmove with
  | listed seen =>
      obtain ⟨error, heq⟩ | ⟨seen', heq⟩ := hanswer
      · rw [heq] at hx
        cases hx
      · unfold WriteKept
        rw [heq]
        rw [heq] at hx
        obtain rfl : seen = seen' := Except.ok.inj hx
        have hstep : p.state.Step (p.tags i) p.state.next := .refl _ _ _
        obtain ⟨⟨htold, hplaced, hholds⟩, hnone⟩ := hfits
        refine h.move rfl rfl rfl hstep ⟨⟨htold, hplaced, hholds⟩, hnone, rfl⟩ ?_
          (fun _ hx => hx) fun _ _ _ hfile => .inl hfile
        exact (hstep.honest (h.honest i)).unplaced hplaced (fun _ hfile => .inl hfile) rfl
  | unlisted error =>
      obtain ⟨error', heq⟩ | ⟨seen', heq⟩ := hanswer
      · exact .stay h hfits heq
      · rw [heq] at hx
        cases hx

theorem dump_keeps (h : WriteInv sizes phases p.tags p.state)
    (hfits : φ.Fits (p.tags i) p.state) {pgDump out : String} {conn : PgConn}
    {k : Except String Outcome → Prog ArchiveSig Unit} {x : Except String Outcome}
    (hx : x = (archiveMonitor faults (p.tags i) (.dump pgDump conn out) k p.state).1)
    (hmove : WriteMove (p.tags i).run φ (.dump pgDump conn out) x φ') :
    WriteKept faults sizes phases p i φ' (.dump pgDump conn out) k := by
  have hanswer := dump_answer faults (p.tags i) p.state pgDump conn out k
  cases hmove with
  | dumped seen _ _ outcome =>
      obtain ⟨error, heq⟩ | ⟨outcome', written, heq⟩ := hanswer
      · rw [heq] at hx
        cases hx
      · unfold WriteKept
        rw [heq]
        rw [heq] at hx
        obtain rfl : outcome = outcome' := Except.ok.inj hx
        obtain ⟨hholds, hsaw⟩ := hfits
        obtain ⟨-, -, file, hfile, howner, -⟩ := id hholds
        rw [hfile]
        refine h.put rfl rfl rfl (fun _ hheld => hholds.own hheld) ?_ (h.honest i) ?_
        · intro held hheld
          exact Option.some.inj hheld ▸ howner
        · by_cases hsucceeded : outcome.succeeded = true
          · simp only [hsucceeded, if_true]
            exact ⟨hholds.put howner ⟨hsucceeded, by simp⟩, hsaw.put _⟩
          · simp only [hsucceeded]
            exact ⟨hholds.put howner trivial, hsaw.put _⟩
  | undumped seen _ _ error =>
      obtain ⟨error', heq⟩ | ⟨outcome, written, heq⟩ := hanswer
      · exact .stay h hfits heq
      · rw [heq] at hx
        cases hx

theorem list_keeps (h : WriteInv sizes phases p.tags p.state)
    (hfits : φ.Fits (p.tags i) p.state) {pgRestore name : String}
    {k : Except String Outcome → Prog ArchiveSig Unit} {x : Except String Outcome}
    (hx : x = (archiveMonitor faults (p.tags i) (.list pgRestore name) k p.state).1)
    (hmove : WriteMove (p.tags i).run φ (.list pgRestore name) x φ') :
    WriteKept faults sizes phases p i φ' (.list pgRestore name) k := by
  have hanswer := list_answer faults (p.tags i) p.state pgRestore name k
  cases hmove with
  | read seen _ outcome =>
      obtain ⟨hholds, hsaw⟩ := hfits
      obtain ⟨htold, hplaced, file, hfile, howner, hdumped, -⟩ := id hholds
      obtain ⟨error, heq⟩ | ⟨hnone, -⟩ | ⟨file', outcome', hfile', heq⟩ := hanswer
      · rw [heq] at hx
        cases hx
      · rw [hfile] at hnone
        cases hnone
      · unfold WriteKept
        rw [heq]
        rw [heq] at hx
        obtain rfl : outcome = outcome' := Except.ok.inj hx
        obtain rfl : file = file' := Option.some.inj (hfile.symm.trans hfile')
        refine h.put rfl rfl rfl (fun _ hheld => hholds.own hheld) ?_ (h.honest i) ?_
        · intro held hheld
          exact Option.some.inj hheld ▸ howner
        · exact ⟨hholds.put howner ⟨hdumped, fun hread => by simp [hread]⟩, hsaw.put _⟩
  | unread seen _ error =>
      obtain ⟨error', heq⟩ | ⟨-, outcome, heq⟩ | ⟨file, outcome, -, heq⟩ := hanswer
      · exact .stay h hfits heq
      · rw [heq] at hx
        cases hx
      · rw [heq] at hx
        cases hx

theorem size_keeps (h : WriteInv sizes phases p.tags p.state)
    (hfits : φ.Fits (p.tags i) p.state) {name : String}
    {k : Except String UInt64 → Prog ArchiveSig Unit} {x : Except String UInt64}
    (hx : x = (archiveMonitor faults (p.tags i) (.size name) k p.state).1)
    (hmove : WriteMove (p.tags i).run φ (.size name) x φ') :
    WriteKept faults sizes phases p i φ' (.size name) k := by
  obtain ⟨error, heq⟩ | ⟨held, hheld, heq⟩ := size_answer faults (p.tags i) p.state name k
  · -- The size is not known, and the run stays where it is.
    rw [heq] at hx
    cases hmove with
    | measured | floor => cases hx
    | unmeasured | noFloor => exact .stay h hfits heq
  · rw [heq] at hx
    cases hmove with
    | unmeasured | noFloor => cases hx
    | measured seen warnings readBack bytes hread =>
        obtain rfl : bytes = held.size := Except.ok.inj hx
        obtain ⟨⟨htold, hplaced, file, hfile, howner, hdumped, hreadBack⟩, hsaw⟩ := hfits
        obtain rfl : file = held := Option.some.inj (hfile.symm.trans hheld)
        refine .stay h ?_ heq
        refine ⟨⟨htold, hplaced, file, hfile, howner, hdumped, ?_, rfl⟩, hsaw, by simp⟩
        exact hread.imp_left hreadBack
    | floor seen warnings bytes previousBytes previous hlatest =>
        obtain rfl : previousBytes = held.size := Except.ok.inj hx
        obtain ⟨hholds, hsaw, -⟩ := hfits
        refine .stay h ?_ heq
        refine ⟨hholds, hsaw, ?_⟩
        intro previousBytes hsome
        exact ⟨previous, held, hlatest, hheld, Option.some.inj hsome⟩

theorem sync_keeps (h : WriteInv sizes phases p.tags p.state)
    (hfits : φ.Fits (p.tags i) p.state) {path : Option String}
    (hflushed : path = none → (faults p.state.calls).error = none)
    {k : Except String Unit → Prog ArchiveSig Unit} {x : Except String Unit}
    (hx : x = (archiveMonitor faults (p.tags i) (.sync path) k p.state).1)
    (hmove : WriteMove (p.tags i).run φ (.sync path) x φ') :
    WriteKept faults sizes phases p i φ' (.sync path) k := by
  have hanswer := sync_answer faults (p.tags i) p.state path k
  cases hmove with
  | flush name _ =>
      obtain ⟨error, -, heq⟩ | heq := hanswer
      · exact .stay h hfits heq
      · exact .stay h hfits heq
  | settle warnings =>
      obtain ⟨error, -, heq⟩ | heq := hanswer
      · rw [heq] at hx
        cases hx
      · exact .stay h hfits heq
  | unsettled warnings error =>
      obtain ⟨error', herror, -⟩ | heq := hanswer
      · rw [hflushed rfl] at herror
        cases herror
      · rw [heq] at hx
        cases hx

theorem rename_keeps (h : WriteInv sizes phases p.tags p.state)
    (hfits : φ.Fits (p.tags i) p.state) {name target : String}
    {k : Except String Unit → Prog ArchiveSig Unit} {x : Except String Unit}
    (hx : x = (archiveMonitor faults (p.tags i) (.rename name target) k p.state).1)
    (hmove : WriteMove (p.tags i).run φ (.rename name target) x φ') :
    WriteKept faults sizes phases p i φ' (.rename name target) k := by
  have hanswer := rename_answer faults (p.tags i) p.state name target k
  cases hmove with
  | rename seen warnings bytes floor hlarge hlatest =>
      obtain ⟨error, heq⟩ | ⟨file', hfile', heq⟩ := hanswer
      · rw [heq] at hx
        cases hx
      · obtain ⟨⟨htold, hplaced, file, hfile, howner, hdumped, hreadBack, rfl⟩, hsaw, hfloor⟩ :=
          hfits
        obtain rfl : file = file' := Option.some.inj (hfile.symm.trans hfile')
        unfold WriteKept
        rw [heq]
        have hstep : p.state.Step (p.tags i) _ := Directory.Step.rename hfile howner hsaw.1
        have hhalf := halfOfNewest_of_floor hsaw.2 hfloor hlarge hlatest
        refine h.move rfl rfl rfl hstep ⟨htold, file, rfl, hreadBack⟩ ?_ ?_ ?_
        · refine (h.honest i).place hstep ?_ htold hdumped hhalf
          simp
        · intro x hx
          rw [hplaced] at hx
          cases hx
        · intro name held hname hheld
          by_cases htarget : name = (p.tags i).run.target
          · subst htarget
            obtain rfl : file = held := by simpa using hheld
            exact .inr rfl
          · exact .inl (by simpa [htarget, hname.ne_partialName] using hheld)
  | unrenamed seen warnings bytes floor error =>
      obtain ⟨error', heq⟩ | ⟨file, -, heq⟩ := hanswer
      · exact .stay h hfits heq
      · rw [heq] at hx
        cases hx

theorem remove_keeps (h : WriteInv sizes phases p.tags p.state)
    (hfits : φ.Fits (p.tags i) p.state) {name : String} {k : Unit → Prog ArchiveSig Unit}
    {x : Unit} (hmove : WriteMove (p.tags i).run φ (.remove name) x φ') :
    WriteKept faults sizes phases p i φ' (.remove name) k := by
  have hanswer := remove_answer faults (p.tags i) p.state name k
  cases hmove with
  | remove _ howns =>
      obtain ⟨P, hholds⟩ := hfits.holds howns
      obtain heq | ⟨file, hfile, heq⟩ := hanswer
      · refine .stay h ?_ heq
        exact ⟨hholds.1, hholds.2.1⟩
      · unfold WriteKept
        rw [heq]
        refine h.put rfl rfl rfl (fun _ hheld => hholds.own hheld) (by simp) ?_
          ⟨hholds.1, hholds.2.1⟩
        refine (h.honest i).unplaced hholds.2.1 ?_ rfl
        intro removed hremoved
        obtain rfl | hbefore := List.mem_cons.mp hremoved
        · exact .inr (hholds.own hfile)
        · exact .inl hbefore

theorem told_keeps (h : WriteInv sizes phases p.tags p.state)
    (hfits : φ.Fits (p.tags i) p.state) {result : Except ArchiveError WrittenArchive}
    {k : Unit → Prog ArchiveSig Unit} {x : Unit}
    (hmove : WriteMove (p.tags i).run φ (.report result) x φ') :
    WriteKept faults sizes phases p i φ' (.report result) k := by
  have hstep : p.state.Step (p.tags i) p.state.next := .refl _ _ _
  have hhonest := hstep.honest (h.honest i)
  cases hmove with
  | failed error _ =>
      obtain ⟨-, hplaced⟩ := hfits
      refine h.move rfl rfl rfl hstep trivial ?_ (fun _ hx => hx) fun _ _ _ hfile => .inl hfile
      exact hhonest.unplaced hplaced (fun _ hfile => .inl hfile) rfl
  | brokenReport _ _ => exact hfits.elim
  | written written _ =>
      obtain ⟨htold, file, hplaced, hreadBack⟩ := hfits
      refine h.move rfl rfl rfl hstep trivial ?_ (fun _ hx => hx) fun _ _ _ hfile => .inl hfile
      refine ⟨hhonest.named, hhonest.kept, hhonest.dumped, ?_, hhonest.half, ?_,
        hhonest.removed⟩
      · intro name held hheld
        obtain ⟨-, rfl⟩ := Prod.mk.inj (Option.some.inj (hplaced.symm.trans hheld))
        exact hreadBack
      · intro error herror
        cases herror

/-- One operation of a run keeps the invariant. -/
theorem archiveMonitor_keeps (h : WriteInv sizes phases p.tags p.state)
    (hwell : OperationsWell faults p i) {c : ArchiveCall} {k : c.Value → Prog ArchiveSig Unit}
    (hthread : p.threads i = .call c k) {x : c.Value}
    (hx : x = (archiveMonitor faults (p.tags i) c k p.state).1) (hφ : (phases i).stage = φ)
    (hmove : WriteMove (p.tags i).run φ c x φ') : WriteKept faults sizes phases p i φ' c k := by
  have hfits := h.fits i
  rw [hφ] at hfits
  unfold OperationsWell at hwell
  rw [hthread] at hwell
  cases c with
  | createNew name => exact createNew_keeps h hfits hx hmove
  | present name => exact present_keeps h hfits hwell hx hmove
  | isFile name =>
      cases hmove with
      | isFile x => exact .stay h hfits rfl
  | readDir => exact readDir_keeps h hfits hx hmove
  | size name => exact size_keeps h hfits hx hmove
  | sync path =>
      refine sync_keeps h hfits ?_ hx hmove
      intro hpath
      subst hpath
      exact hwell
  | rename name target => exact rename_keeps h hfits hx hmove
  | remove name => exact remove_keeps h hfits hmove
  | dump pgDump conn out => exact dump_keeps h hfits hx hmove
  | list pgRestore name => exact list_keeps h hfits hx hmove
  | report result => exact told_keeps h hfits hmove

end Keeps

end Operations

/-! ## Every run -/

section Runs

variable {ι : Type} {faults : Nat → ArchiveFault}

/-- Before any run has begun. -/
theorem writeInv_writers (runs : ι → ArchiveRun) (sizes : String → Option UInt64) :
    WriteInv sizes (fun i => ⟨runs i, .fresh⟩) (writers runs sizes).tags
      (writers runs sizes).state := by
  refine ⟨fun _ => ⟨rfl, rfl⟩, fun _ => ⟨rfl, rfl⟩, ?_, ?_, ?_⟩
  · intro i
    refine ⟨?_, ?_, ?_, ?_, ?_, ?_, ?_⟩ <;> simp [writers]
  · intro name size _ hsize
    simp [writers, hsize]
  · intro name file _ hfile
    refine .inl ?_
    intro hnone
    simp [writers, hnone] at hfile

/-- The invariant makes the archives safe. -/
theorem WriteInv.safe {sizes : String → Option UInt64} {phases : ι → WritePhase}
    {p : Pool ι ArchiveSig (Writer ι) (Directory ι)} (h : WriteInv sizes phases p.tags p.state) :
    ArchivesSafe sizes p :=
  ⟨h.lasting, h.placed, fun i => ⟨(h.self i).1, h.honest i⟩⟩

/-- In every state that runs reach in which an archive that is there is seen and the directory
is flushed, the archives that were there are as they were, what a run put in place is there,
was dumped, was read back or is warned of and is not too small, a run that failed put nothing
in place, and none removed a partial file but its own. -/
theorem archives_safe [DecidableEq ι] (runs : ι → ArchiveRun) (sizes : String → Option UInt64)
    (sched : List (ι × Bool))
    (hwell : (writers runs sizes).Along (archiveMonitor faults) (OperationsWell faults) sched) :
    ArchivesSafe sizes ((writers runs sizes).run (archiveMonitor faults) sched) := by
  have htracked : Pool.Tracked writeProtocol (fun φ => φ.stage = .finished)
      (fun i => ⟨runs i, .fresh⟩) (writers runs sizes) :=
    fun i => Protocol.follows_post (fun _ φ (hφ : φ = ⟨runs i, .finished⟩) => by rw [hφ])
      (archiveRun_follows (runs i))
  obtain ⟨phases, -, hinv⟩ := Pool.run_tracked (P := writeProtocol)
    (m := archiveMonitor faults) (I := WriteInv sizes) (C := OperationsWell faults)
    (fun _ _ _ _ => trivial)
    (fun p phases i c k φ _ hinv hi hthread hmove _ => by
      obtain ⟨run, stage⟩ := φ
      obtain ⟨hrun, hmove⟩ := hmove
      have hsame : run = (p.tags i).run := hrun.trans (hinv.self i).2
      subst hsame
      exact archiveMonitor_keeps hinv hi hthread rfl rfl ((hinv.self i).2 ▸ hmove))
    sched hwell htracked (writeInv_writers runs sizes)
  exact hinv.safe

end Runs

/-! ## Runs for one pair -/

namespace Nightly

/-- A backup of one fraise and environment at one time. -/
def run : ArchiveRun where
  conn := ⟨none, none, none, none, "app", none⟩
  fraise := "app"
  environment := "prod"
  stamp := ⟨"20261026T031500Z"⟩
  tools := ⟨"pg_dump", "pg_restore"⟩

/-- The archive of the day before. -/
def previous : String :=
  "app-prod-20261025T031500Z.pgdump"

/-- One archive is there. -/
def sizes (name : String) : String → Option UInt64 :=
  fun other => if other = name then some 1000 else none

/-- Everything works, but for the I/O errors and the files that are not seen. -/
def faults (errors unseen : List Nat) : Nat → ArchiveFault :=
  fun time =>
    { error := if time ∈ errors then some "input/output error" else none
      unseen := decide (time ∈ unseen)
      entries := [previous]
      tool := .ok ⟨some 0, ""⟩
      written := 1000 }

/-- Two runs in the same second: the second one meets the partial file of the first. -/
def sameSecond : List (Bool × Bool) :=
  [(false, true), (true, true), (true, true)] ++ List.replicate 11 (false, true)

/-- A run on its own. -/
def alone : List (Unit × Bool) :=
  List.replicate 12 ((), true)

end Nightly

/-- The first run puts its archive in place, and the second one refuses. -/
theorem archives_safe_sameSecond :
    ArchivesSafe (Nightly.sizes Nightly.previous)
      ((writers (fun _ : Bool => Nightly.run) (Nightly.sizes Nightly.previous)).run
        (archiveMonitor (Nightly.faults [] [])) Nightly.sameSecond) ∧
    ((writers (fun _ : Bool => Nightly.run) (Nightly.sizes Nightly.previous)).run
        (archiveMonitor (Nightly.faults [] [])) Nightly.sameSecond).state.files
      Nightly.run.target = some ⟨1000, true, true, some false⟩ := by
  refine ⟨archives_safe _ _ _ ?_, rfl⟩
  repeat' first | exact trivial | exact fun _ => rfl | exact rfl | refine And.intro ?_ ?_

/-- A run that cannot flush the directory fails with its archive in place, and one that
cannot look at an archive puts its own over it. -/
theorem archives_not_safe :
    ¬ ArchivesSafe (Nightly.sizes Nightly.previous)
      ((writers (fun _ : Unit => Nightly.run) (Nightly.sizes Nightly.previous)).run
        (archiveMonitor (Nightly.faults [10] [])) Nightly.alone) ∧
    ¬ ArchivesSafe (Nightly.sizes Nightly.run.target)
      ((writers (fun _ : Unit => Nightly.run) (Nightly.sizes Nightly.run.target)).run
        (archiveMonitor (Nightly.faults [] [1])) Nightly.alone) := by
  constructor
  · intro h
    have hplaced := (h.honest ()).2.failed _ rfl
    cases hplaced
  · intro h
    have hlasting := h.lasting Nightly.run.target 1000 ⟨_, _, _, rfl⟩ (by decide)
    cases hlasting

end Fraisier.Db
