import Fraisier.Core.Drill
import Fraisier.Effect.History

/-!
# What becomes of the copy of a drill

A drill restores an archive into a copy, migrates it, counts its tables and drops it, and each
of these may fail. A copy that may not be dropped is left alone from the start; any other one
is dropped last, whatever was found. Read `DrillSound` first; the main theorem is
`runRestoreDrill_sound`.
-/

namespace Fraisier.Core

open Fraisier.Effect

/-! ## The world of a drill -/

/-- What a drill asks of its process, its database operations and its migration adapter. -/
inductive DrillStep where
  | var (name : String)
  | isDir (path : String)
  | restoreCopy (liveDsn archive : String)
  | up (ctx : AdapterCtx) (target : Option Revision)
  | tableCount (throwaway : ThrowawayDb)
  | teardown (throwaway : ThrowawayDb)

/-- The steps of a drill as a signature. -/
@[reducible] def DrillStepSig : Sig where
  Cmd := DrillStep
  Ans
    | .var _ => Except VarError String
    | .isDir _ => Bool
    | .restoreCopy _ _ => Except String RestoredCopy
    | .up _ _ => Except AdapterError MigrationOutcome
    | .tableCount _ => Except String Nat
    | .teardown _ => Except String Unit

/-- The step migrates the copy, counts its tables or drops it. -/
def DrillStep.UsesCopy : DrillStep → Prop
  | .up _ _ | .tableCount _ | .teardown _ => True
  | _ => False

def stepOs : Os DrillStepSig :=
  ⟨fun name => @Prog.perform DrillStepSig (.var name),
    fun path => @Prog.perform DrillStepSig (.isDir path)⟩

/-- The database operations of a drill, of which `liveDatabase` only reads the address. -/
def stepDb (liveDatabase : String → Except String String) : DrillDb DrillStepSig where
  liveDatabase := liveDatabase
  restoreCopy liveDsn archive := @Prog.perform DrillStepSig (.restoreCopy liveDsn archive)
  tableCount throwaway := @Prog.perform DrillStepSig (.tableCount throwaway)
  teardown throwaway := @Prog.perform DrillStepSig (.teardown throwaway)

/-- A migration adapter. `looks` are the methods a drill does not call. -/
def stepMigration (looks : MigrationAdapter DrillStepSig) : MigrationAdapter DrillStepSig :=
  { looks with up := fun ctx target => @Prog.perform DrillStepSig (.up ctx target) }

/-- An answered step. -/
def stepped (c : DrillStep) (x : DrillStepSig.Ans c) : Event DrillStepSig :=
  ⟨c, x⟩

/-! ## What a drill guarantees -/

/-- What fails at a step, if something does. A failed drop is not among it. -/
def failureAt (liveDatabase : String → Except String String) (minTables : Option Nat) :
    Event DrillStepSig → Option DrillError
  | ⟨.restoreCopy _ _, .error message⟩ => some (.restore message)
  | ⟨.restoreCopy liveDsn _, .ok copy⟩ =>
      match liveDatabase liveDsn with
      | .error message => some (.liveDatabase message)
      | .ok live =>
          match teardownGuard copy.db.name live with
          | .error reason => some (.unsafeTeardown copy.db.name reason)
          | .ok () => none
  | ⟨.up _ _, .error error⟩ => some (.migrate error)
  | ⟨.tableCount _, .error message⟩ => some (.tableCount message)
  | ⟨.tableCount _, .ok tables⟩ => minTables.bind fun required =>
      if tables < required then some (.tooFewTables tables required) else none
  | _ => none

/-- A restored copy may be dropped: its name carries the marker and is not the live one. -/
def MayDrop (copy : RestoredCopy) (live : String) : Prop :=
  throwawayMarker.toList <:+: copy.db.name.toList ∧ copy.db.name ≠ live

/-- A secret of a context, and how its variable was read for it, if it was. -/
inductive SecretRead (ctx : AdapterCtx) (logical : String) :
    Except AdapterError String → List (Event DrillStepSig) → Prop
  | resolved {value : String} (hresolved : ctx.resolvedSecrets.lookup logical = some value) :
      SecretRead ctx logical (.ok value) []
  | undeclared (hresolved : ctx.resolvedSecrets.lookup logical = none)
      (henv : ctx.envSecrets.lookup logical = none) :
      SecretRead ctx logical (.error (.missingSecret logical)) []
  | unread {source : String} (cause : VarError)
      (hresolved : ctx.resolvedSecrets.lookup logical = none)
      (henv : ctx.envSecrets.lookup logical = some source) :
      SecretRead ctx logical (.error (.secretReadFailed logical source (toString cause)))
        [stepped (.var source) (.error cause)]
  | read {source : String} (value : String)
      (hresolved : ctx.resolvedSecrets.lookup logical = none)
      (henv : ctx.envSecrets.lookup logical = some source) :
      SecretRead ctx logical (.ok value) [stepped (.var source) (.ok value)]

/-- A drill that ended before it restored anything: it could not read the address of the live
database, or could not tell the name of the database at it. -/
def Unopened (liveDatabase : String → Except String String) (ctx : AdapterCtx)
    (error : DrillError) (steps : List (Event DrillStepSig)) : Prop :=
  (∃ cause, error = .secret cause ∧ SecretRead ctx databaseUrlSecret (.error cause) steps) ∨
    ∃ liveDsn message, error = .liveDatabase message ∧
      SecretRead ctx databaseUrlSecret (.ok liveDsn) steps ∧ liveDatabase liveDsn = .error message

/-- The step migrates a copy, counts its tables or drops it. -/
def DrillStep.IsOn (ctx : AdapterCtx) (copy : RestoredCopy) (c : DrillStep) : Prop :=
  c = .up (onThrowaway ctx copy.db) none ∨ c = .tableCount copy.db ∨ c = .teardown copy.db

/-- What a drill returned, and the steps it took. -/
structure DrillSound (liveDatabase : String → Except String String) (ctx : AdapterCtx)
    (archive : String) (minTables : Option Nat) (value : Except DrillError DrillReport)
    (steps : List (Event DrillStepSig)) : Prop where
  restores : ∀ liveDsn archive' restored,
    stepped (.restoreCopy liveDsn archive') restored ∈ steps →
      archive' = archive ∧ ∃ reads ⊆ steps, SecretRead ctx databaseUrlSecret (.ok liveDsn) reads
  uses : ∀ e ∈ steps, e.cmd.UsesCopy → ∃ liveDsn copy,
    stepped (.restoreCopy liveDsn archive) (.ok copy) ∈ steps ∧ e.cmd.IsOn ctx copy
  leaves : ∀ liveDsn archive copy live,
    stepped (.restoreCopy liveDsn archive) (.ok copy) ∈ steps →
      liveDatabase liveDsn = .ok live → ¬ MayDrop copy live →
        (∃ error, value = .error error) ∧ ∀ e ∈ steps, ¬ e.cmd.UsesCopy
  drops : ∀ liveDsn archive copy live,
    stepped (.restoreCopy liveDsn archive) (.ok copy) ∈ steps →
      liveDatabase liveDsn = .ok live → MayDrop copy live →
        ∃ before dropped, steps = before ++ [stepped (.teardown copy.db) dropped] ∧
          ∀ e ∈ before, ∀ db, e.cmd ≠ .teardown db
  passes : (∃ report, value = .ok report) ↔ ∃ liveDsn copy migrated tables,
    stepped (.restoreCopy liveDsn archive) (.ok copy) ∈ steps ∧
      stepped (.up (onThrowaway ctx copy.db) none) (.ok migrated) ∈ steps ∧
      stepped (.tableCount copy.db) (.ok tables) ∈ steps ∧
      ∀ required ∈ minTables, required ≤ tables
  warns : ∀ report, value = .ok report → ∀ db dropped,
    stepped (.teardown db) dropped ∈ steps →
      (report.teardownWarning.isSome ↔ ∃ message, dropped = .error message)
  fails : ∀ error, value = .error error →
    steps.findSome? (failureAt liveDatabase minTables) = some error ∨
      Unopened liveDatabase ctx error steps
  unrestored : ∀ liveDsn archive message,
    stepped (.restoreCopy liveDsn archive) (.error message) ∈ steps →
      ∀ e ∈ steps, ¬ e.cmd.UsesCopy

theorem teardownGuard_eq_ok_iff {copy : RestoredCopy} {live : String} :
    teardownGuard copy.db.name live = .ok () ↔ MayDrop copy live := by
  rw [teardownGuard, MayDrop]
  by_cases hmarker : throwawayMarker.toList <:+: copy.db.name.toList
  · rw [if_neg (not_not.mpr hmarker)]
    by_cases hlive : copy.db.name = live
    · simp [hlive]
    · simp [hmarker, hlive]
  · simp [hmarker]

/-! ## The steps of a drill -/

section Course

variable {liveDatabase : String → Except String String} {minTables : Option Nat}

/-- What the checks of a copy found, and the steps they took. -/
inductive Checked (ctx : AdapterCtx) (db : ThrowawayDb) (minTables : Option Nat) :
    Except DrillError (List Revision × Nat) → List (Event DrillStepSig) → Prop
  | migrate (error : AdapterError) : Checked ctx db minTables (.error (.migrate error))
      [stepped (.up ctx none) (.error error)]
  | tableCount (migrated : MigrationOutcome) (message : String) :
      Checked ctx db minTables (.error (.tableCount message))
        [stepped (.up ctx none) (.ok migrated), stepped (.tableCount db) (.error message)]
  | tooFewTables (migrated : MigrationOutcome) (tables required : Nat)
      (hmin : minTables = some required) (hfew : tables < required) :
      Checked ctx db minTables (.error (.tooFewTables tables required))
        [stepped (.up ctx none) (.ok migrated), stepped (.tableCount db) (.ok tables)]
  | passed (migrated : MigrationOutcome) (tables : Nat)
      (henough : ∀ required ∈ minTables, required ≤ tables) :
      Checked ctx db minTables (.ok (migrated.applied, tables))
        [stepped (.up ctx none) (.ok migrated), stepped (.tableCount db) (.ok tables)]

theorem checkCopy_yields (looks : MigrationAdapter DrillStepSig) (ctx : AdapterCtx)
    (db : ThrowawayDb) :
    (checkCopy (stepDb liveDatabase) (stepMigration looks) ctx db minTables).Yields
      (Checked ctx db minTables) := by
  refine .bind (.perform fun migrated => ?_)
  cases migrated with
  | error error => exact .migrate error
  | ok migrated =>
      refine .bind (.perform fun counted => ?_)
      cases counted with
      | error message => exact .tableCount migrated message
      | ok tables =>
          cases minTables with
          | none => exact .passed migrated tables (by simp)
          | some required =>
              dsimp only
              by_cases hfew : tables < required
              · rw [if_pos hfew]
                exact .tooFewTables migrated tables required rfl hfew
              · rw [if_neg hfew]
                exact .passed migrated tables (by simpa using hfew)

/-- Checks that fail do so at their last step. -/
theorem Checked.findSome {ctx : AdapterCtx} {db : ThrowawayDb} {error : DrillError}
    {checks : List (Event DrillStepSig)} (h : Checked ctx db minTables (.error error) checks) :
    checks.findSome? (failureAt liveDatabase minTables) = some error := by
  have hup : ∀ migrated,
      failureAt liveDatabase minTables (stepped (.up ctx none) (.ok migrated)) = none :=
    fun _ => rfl
  have hcount : ∀ tables,
      failureAt liveDatabase minTables (stepped (.tableCount db) (.ok tables)) =
        minTables.bind fun required =>
          if tables < required then some (.tooFewTables tables required) else none :=
    fun _ => rfl
  cases h with
  | migrate error => rfl
  | tableCount migrated message => rfl
  | tooFewTables migrated tables required hmin hfew =>
      simp only [List.findSome?_cons, hup, hcount]
      rw [hmin, Option.bind_some, if_pos hfew]

/-- The checks of a copy do not drop it. -/
theorem Checked.not_teardown {ctx : AdapterCtx} {db : ThrowawayDb}
    {checked : Except DrillError (List Revision × Nat)} {checks : List (Event DrillStepSig)}
    (h : Checked ctx db minTables checked checks) : ∀ e ∈ checks, ∀ db, e.cmd ≠ .teardown db := by
  cases h <;> simp [stepped]

/-- What a drill returns after which steps. -/
inductive DrillCourse (liveDatabase : String → Except String String) (ctx : AdapterCtx)
    (archive : String) (minTables : Option Nat) :
    Except DrillError DrillReport → List (Event DrillStepSig) → Prop
  | unopened {error : DrillError} {reads : List (Event DrillStepSig)}
      (hunopened : Unopened liveDatabase ctx error reads) :
      DrillCourse liveDatabase ctx archive minTables (.error error) reads
  | unrestored {reads : List (Event DrillStepSig)} {liveDsn message : String}
      (hreads : SecretRead ctx databaseUrlSecret (.ok liveDsn) reads) :
      DrillCourse liveDatabase ctx archive minTables (.error (.restore message))
        (reads ++ [stepped (.restoreCopy liveDsn archive) (.error message)])
  | refused {reads : List (Event DrillStepSig)} {liveDsn live reason : String}
      {copy : RestoredCopy} (hreads : SecretRead ctx databaseUrlSecret (.ok liveDsn) reads)
      (hlive : liveDatabase liveDsn = .ok live)
      (hguard : teardownGuard copy.db.name live = .error reason) :
      DrillCourse liveDatabase ctx archive minTables
        (.error (.unsafeTeardown copy.db.name reason))
        (reads ++ [stepped (.restoreCopy liveDsn archive) (.ok copy)])
  | ran {reads checks : List (Event DrillStepSig)} {liveDsn live : String}
      {copy : RestoredCopy} {dropped : Except String Unit}
      {checked : Except DrillError (List Revision × Nat)}
      (hreads : SecretRead ctx databaseUrlSecret (.ok liveDsn) reads)
      (hlive : liveDatabase liveDsn = .ok live)
      (hguard : teardownGuard copy.db.name live = .ok ())
      (hchecked : Checked (onThrowaway ctx copy.db) copy.db minTables checked checks) :
      DrillCourse liveDatabase ctx archive minTables
        (checked.map fun found =>
          { throwaway := copy.db.name
            applied := found.1
            tables := found.2
            tviewsRebuilt := copy.tviewsRebuilt
            teardownWarning := match dropped with | .error e => some e | .ok () => none })
        (reads ++ stepped (.restoreCopy liveDsn archive) (.ok copy) :: checks ++
          [stepped (.teardown copy.db) dropped])

theorem secret_reads (ctx : AdapterCtx) (logical : String) :
    (ctx.secret stepOs logical).Yields (SecretRead ctx logical) := by
  unfold AdapterCtx.secret
  cases hresolved : ctx.resolvedSecrets.lookup logical with
  | some value => exact .resolved hresolved
  | none =>
      cases henv : ctx.envSecrets.lookup logical with
      | none => exact .undeclared hresolved henv
      | some source =>
          refine .bind (.perform fun answer => ?_)
          cases answer with
          | error cause => exact .unread cause hresolved henv
          | ok value => exact .read value hresolved henv

/-- Only variables are read for a secret. -/
theorem SecretRead.vars {ctx : AdapterCtx} {logical : String} {secret : Except AdapterError String}
    {reads : List (Event DrillStepSig)} (h : SecretRead ctx logical secret reads) :
    ∀ e ∈ reads, ∃ name, e.cmd = .var name := by
  cases h with
  | resolved | undeclared => exact fun e he => (List.not_mem_nil he).elim
  | unread cause => exact List.forall_mem_singleton.mpr ⟨_, rfl⟩
  | read value => exact List.forall_mem_singleton.mpr ⟨_, rfl⟩

theorem runRestoreDrill_course (looks : MigrationAdapter DrillStepSig) (ctx : AdapterCtx)
    (archive : String) :
    (runRestoreDrill (stepDb liveDatabase) stepOs (stepMigration looks) ctx archive
      minTables).Yields (DrillCourse liveDatabase ctx archive minTables) := by
  refine .bind ((secret_reads ctx databaseUrlSecret).mono fun secret reads hreads => ?_)
  cases secret with
  | error cause =>
      show DrillCourse _ _ _ _ _ (reads ++ [])
      rw [List.append_nil]
      -- nothing is restored when the address of the live database is not known
      exact .unopened (.inl ⟨cause, rfl, hreads⟩)
  | ok liveDsn =>
      cases hlive : liveDatabase liveDsn with
      | error message =>
          simp only [stepDb, hlive]
          show DrillCourse _ _ _ _ _ (reads ++ [])
          rw [List.append_nil]
          exact .unopened (.inr ⟨liveDsn, message, rfl, hreads, hlive⟩)
      | ok live =>
          simp only [stepDb, hlive]
          refine .bind (.perform fun restored => ?_)
          cases restored with
          | error message => exact .unrestored hreads
          | ok copy =>
              cases hguard : teardownGuard copy.db.name live with
              | error reason =>
                  simp only [hguard]
                  exact .refused hreads hlive hguard
              | ok passed =>
                  simp only [hguard]
                  refine .bind ((checkCopy_yields looks _ copy.db).mono
                    fun checked checks hchecked => ?_)
                  refine .bind (.perform fun dropped => ?_)
                  have hran := @DrillCourse.ran liveDatabase ctx archive minTables reads checks
                    liveDsn live copy dropped checked hreads hlive hguard hchecked
                  rw [List.append_assoc] at hran
                  cases checked with
                  | error error => exact hran
                  | ok found => exact hran

/-! ## The guarantee, course by course -/

/-- Reading variables fails nothing and uses no copy. -/
theorem var_reads {reads : List (Event DrillStepSig)}
    (h : ∀ e ∈ reads, ∃ name, e.cmd = .var name) :
    reads.findSome? (failureAt liveDatabase minTables) = none ∧
      ∀ e ∈ reads, ¬ e.cmd.UsesCopy ∧ ∀ liveDsn archive, e.cmd ≠ .restoreCopy liveDsn archive := by
  refine ⟨List.findSome?_eq_none_iff.mpr fun e he => ?_, fun e he => ?_⟩
  · obtain ⟨name, hname⟩ := h e he
    obtain ⟨cmd, answer⟩ := e
    subst hname
    rfl
  · obtain ⟨name, hname⟩ := h e he
    rw [hname]
    exact ⟨id, fun _ _ h => DrillStep.noConfusion h⟩

theorem stepped_restoreCopy_inj {liveDsn archive liveDsn' archive' : String}
    {x y : Except String RestoredCopy}
    (h : stepped (.restoreCopy liveDsn' archive') y = stepped (.restoreCopy liveDsn archive) x) :
    liveDsn' = liveDsn ∧ archive' = archive ∧ y = x := by
  simpa [stepped, and_assoc] using h

/-- A drill restores once, between its reads and its use of the copy. -/
theorem restore_of_mem {reads rest : List (Event DrillStepSig)}
    {liveDsn archive liveDsn' archive' : String} {x y : Except String RestoredCopy}
    (hreads : ∀ e ∈ reads, ∃ name, e.cmd = .var name) (hrest : ∀ e ∈ rest, e.cmd.UsesCopy)
    (h : stepped (.restoreCopy liveDsn' archive') y ∈
      reads ++ stepped (.restoreCopy liveDsn archive) x :: rest) :
    liveDsn' = liveDsn ∧ archive' = archive ∧ y = x := by
  rcases List.mem_append.mp h with h | h
  · exact absurd rfl ((@var_reads (fun _ => .ok "") none _ hreads).2 _ h |>.2 liveDsn' archive')
  · rcases List.mem_cons.mp h with h | h
    · exact stepped_restoreCopy_inj h
    · exact (hrest _ h).elim

theorem Checked.usesCopy {ctx : AdapterCtx} {db : ThrowawayDb}
    {checked : Except DrillError (List Revision × Nat)} {checks : List (Event DrillStepSig)}
    (h : Checked ctx db minTables checked checks) : ∀ e ∈ checks, e.cmd.UsesCopy := by
  cases h <;> simp [stepped, DrillStep.UsesCopy]

/-- A drill that restored nothing, or left its copy alone, used no copy. -/
theorem not_usesCopy {reads : List (Event DrillStepSig)} {liveDsn archive : String}
    {x : Except String RestoredCopy} (hreads : ∀ e ∈ reads, ∃ name, e.cmd = .var name) :
    ∀ e ∈ reads ++ [stepped (.restoreCopy liveDsn archive) x], ¬ e.cmd.UsesCopy := by
  intro e he
  rcases List.mem_append.mp he with he | he
  · exact ((@var_reads (fun _ => .ok "") none _ hreads).2 e he).1
  · rw [List.mem_singleton.mp he]
    exact id

/-- The checks pass iff the migration and the count do, with as many tables as are required. -/
theorem Checked.passed_iff {ctx : AdapterCtx} {db : ThrowawayDb}
    {checked : Except DrillError (List Revision × Nat)} {checks : List (Event DrillStepSig)}
    (h : Checked ctx db minTables checked checks) :
    (∃ found, checked = .ok found) ↔ ∃ migrated tables,
      stepped (.up ctx none) (.ok migrated) ∈ checks ∧
        stepped (.tableCount db) (.ok tables) ∈ checks ∧ ∀ required ∈ minTables, required ≤ tables
    := by
  cases h with
  | migrate error => simp [stepped]
  | tableCount migrated message => simp [stepped]
  | tooFewTables migrated tables required hmin hfew => simp [stepped, hmin, hfew]
  | passed migrated tables henough =>
      exact ⟨fun _ => ⟨migrated, tables, by simp, by simp, henough⟩, fun _ => ⟨_, rfl⟩⟩

/-- The checks are on the copy. -/
theorem Checked.isOn {ctx : AdapterCtx} {copy : RestoredCopy}
    {checked : Except DrillError (List Revision × Nat)} {checks : List (Event DrillStepSig)}
    (h : Checked (onThrowaway ctx copy.db) copy.db minTables checked checks) :
    ∀ e ∈ checks, e.cmd.IsOn ctx copy := by
  cases h <;> simp [stepped, DrillStep.IsOn]

/-- What was read for the address of the live database, and where it was restored from. -/
theorem restores_of_mem {ctx : AdapterCtx} {reads rest : List (Event DrillStepSig)}
    {liveDsn archive : String} {x : Except String RestoredCopy}
    (hreads : SecretRead ctx databaseUrlSecret (.ok liveDsn) reads)
    (hrest : ∀ e ∈ rest, e.cmd.UsesCopy) (liveDsn' archive' : String)
    (y : Except String RestoredCopy)
    (h : stepped (.restoreCopy liveDsn' archive') y ∈
      reads ++ stepped (.restoreCopy liveDsn archive) x :: rest) :
    archive' = archive ∧ ∃ reads' ⊆ reads ++ stepped (.restoreCopy liveDsn archive) x :: rest,
      SecretRead ctx databaseUrlSecret (.ok liveDsn') reads' := by
  obtain ⟨rfl, harchive, -⟩ := restore_of_mem hreads.vars hrest h
  exact ⟨harchive, reads, List.subset_append_left _ _, hreads⟩

theorem Unopened.vars {ctx : AdapterCtx} {error : DrillError} {reads : List (Event DrillStepSig)}
    (h : Unopened liveDatabase ctx error reads) : ∀ e ∈ reads, ∃ name, e.cmd = .var name := by
  obtain ⟨cause, -, hread⟩ | ⟨liveDsn, message, -, hread, -⟩ := h
  · exact hread.vars
  · exact hread.vars

theorem unopened_sound {ctx : AdapterCtx} {archive : String} {error : DrillError}
    {reads : List (Event DrillStepSig)} (h : Unopened liveDatabase ctx error reads) :
    DrillSound liveDatabase ctx archive minTables (.error error) reads := by
  have hreads := (@var_reads liveDatabase minTables _ h.vars).2
  have hnone : ∀ liveDsn archive x, stepped (.restoreCopy liveDsn archive) x ∉ reads :=
    fun liveDsn archive x h => (hreads _ h).2 liveDsn archive rfl
  exact {
    restores := fun _ _ _ h => absurd h (hnone _ _ _)
    uses := fun e he huses => absurd huses (hreads e he).1
    leaves := fun _ _ _ _ h => absurd h (hnone _ _ _)
    drops := fun _ _ _ _ h => absurd h (hnone _ _ _)
    passes := ⟨fun ⟨_, h⟩ => (by cases h), fun ⟨_, _, _, _, h, _⟩ => absurd h (hnone _ _ _)⟩
    warns := fun _ h => by cases h
    fails := fun error' h' => .inr (by rwa [← Except.error.inj h'])
    unrestored := fun _ _ _ h => absurd h (hnone _ _ _) }

theorem unrestored_sound {ctx : AdapterCtx} {reads : List (Event DrillStepSig)}
    {liveDsn archive message : String}
    (hsecret : SecretRead ctx databaseUrlSecret (.ok liveDsn) reads) :
    DrillSound liveDatabase ctx archive minTables (.error (.restore message))
      (reads ++ [stepped (.restoreCopy liveDsn archive) (.error message)]) := by
  have hreads := hsecret.vars
  have honly : ∀ liveDsn' archive' copy, stepped (.restoreCopy liveDsn' archive') (.ok copy) ∉
      reads ++ [stepped (.restoreCopy liveDsn archive) (.error message)] :=
    fun _ _ _ h => by cases (restore_of_mem hreads (by simp) h).2.2
  exact {
    restores := restores_of_mem hsecret (by simp)
    uses := fun e he huses => absurd huses (not_usesCopy hreads e he)
    leaves := fun _ _ _ _ h => absurd h (honly _ _ _)
    drops := fun _ _ _ _ h => absurd h (honly _ _ _)
    passes := ⟨fun ⟨_, h⟩ => (by cases h), fun ⟨_, _, _, _, h, _⟩ => absurd h (honly _ _ _)⟩
    warns := fun _ h => by cases h
    fails := fun error h => .inl (by
      rw [List.findSome?_append, (var_reads hreads).1, ← Except.error.inj h]
      rfl)
    unrestored := fun _ _ _ _ => not_usesCopy hreads }

theorem refused_sound {ctx : AdapterCtx} {reads : List (Event DrillStepSig)}
    {liveDsn archive live reason : String} {copy : RestoredCopy}
    (hsecret : SecretRead ctx databaseUrlSecret (.ok liveDsn) reads)
    (hlive : liveDatabase liveDsn = .ok live)
    (hguard : teardownGuard copy.db.name live = .error reason) :
    DrillSound liveDatabase ctx archive minTables (.error (.unsafeTeardown copy.db.name reason))
      (reads ++ [stepped (.restoreCopy liveDsn archive) (.ok copy)]) := by
  have hreads := hsecret.vars
  -- the guard passes exactly what may be dropped
  have hnot : ¬ MayDrop copy live := fun h => by
    rw [teardownGuard_eq_ok_iff.mpr h] at hguard
    cases hguard
  exact {
    restores := restores_of_mem hsecret (by simp)
    uses := fun e he huses => absurd huses (not_usesCopy hreads e he)
    leaves := fun _ _ _ _ _ _ _ => ⟨⟨_, rfl⟩, not_usesCopy hreads⟩
    drops := fun _ _ _ live' h hlive' hmay => by
      obtain ⟨rfl, -, hcopy⟩ := restore_of_mem hreads (by simp) h
      obtain rfl := Except.ok.inj hcopy
      obtain rfl := Except.ok.inj (hlive'.symm.trans hlive)
      exact absurd hmay hnot
    passes := ⟨fun ⟨_, h⟩ => (by cases h), fun ⟨_, _, _, _, _, hup, _⟩ =>
      absurd trivial (not_usesCopy hreads _ hup)⟩
    warns := fun _ h => by cases h
    fails := fun error h => .inl (by
      have hfails : failureAt liveDatabase minTables
          (stepped (.restoreCopy liveDsn archive) (.ok copy)) =
            some (.unsafeTeardown copy.db.name reason) := by
        simp only [stepped, failureAt, hlive, hguard]
      rw [List.findSome?_append, (var_reads hreads).1, Option.none_or, List.findSome?_cons,
        hfails, ← Except.error.inj h])
    unrestored := fun _ _ _ _ => not_usesCopy hreads }

/-- The copy is used by its checks and its teardown. -/
theorem uses_of_mem_ran {reads checks : List (Event DrillStepSig)} {liveDsn archive : String}
    {restored : Except String RestoredCopy} {db : ThrowawayDb} {dropped : Except String Unit}
    {e : Event DrillStepSig} (hreads : ∀ e ∈ reads, ∃ name, e.cmd = .var name)
    (he : e ∈ reads ++ stepped (.restoreCopy liveDsn archive) restored :: checks ++
      [stepped (.teardown db) dropped])
    (huses : e.cmd.UsesCopy) : e ∈ checks ∨ e = stepped (.teardown db) dropped := by
  simp only [List.mem_append, List.mem_cons, List.not_mem_nil, or_false] at he
  rcases he with (he | he | he) | he
  · exact absurd huses ((@var_reads (fun _ => .ok "") none _ hreads).2 e he).1
  · subst he
    exact huses.elim
  · exact .inl he
  · exact .inr he

theorem ran_sound {ctx : AdapterCtx} {reads checks : List (Event DrillStepSig)}
    {liveDsn archive live : String} {copy : RestoredCopy} {dropped : Except String Unit}
    {checked : Except DrillError (List Revision × Nat)}
    {report : List Revision × Nat → DrillReport}
    (hsecret : SecretRead ctx databaseUrlSecret (.ok liveDsn) reads)
    (hlive : liveDatabase liveDsn = .ok live)
    (hguard : teardownGuard copy.db.name live = .ok ())
    (hchecked : Checked (onThrowaway ctx copy.db) copy.db minTables checked checks)
    (hwarning : ∀ found, (report found).teardownWarning.isSome ↔ ∃ message,
      dropped = .error message) :
    DrillSound liveDatabase ctx archive minTables (checked.map report)
      (reads ++ stepped (.restoreCopy liveDsn archive) (.ok copy) :: checks ++
        [stepped (.teardown copy.db) dropped]) := by
  have hreads := hsecret.vars
  have hmay := teardownGuard_eq_ok_iff.mp hguard
  have hrest : ∀ e ∈ checks ++ [stepped (.teardown copy.db) dropped], e.cmd.UsesCopy := by
    intro e he
    rcases List.mem_append.mp he with he | he
    · exact hchecked.usesCopy e he
    · rw [List.mem_singleton.mp he]
      exact trivial
  have hrestore : ∀ {liveDsn' archive' x}, stepped (.restoreCopy liveDsn' archive') x ∈
      reads ++ stepped (.restoreCopy liveDsn archive) (.ok copy) :: checks ++
        [stepped (.teardown copy.db) dropped] →
      liveDsn' = liveDsn ∧ archive' = archive ∧ x = .ok copy := fun h =>
    restore_of_mem hreads hrest (by simpa using h)
  have hpassed : (∃ report', checked.map report = .ok report') ↔ ∃ found, checked = .ok found := by
    cases checked <;> simp [Except.map]
  -- Only the checks migrate the copy or count its tables.
  have hchecks : ∀ {e : Event DrillStepSig}, e ∈ reads ++
      stepped (.restoreCopy liveDsn archive) (.ok copy) :: checks ++
        [stepped (.teardown copy.db) dropped] → e.cmd.UsesCopy →
      (∀ db, e.cmd ≠ .teardown db) → e ∈ checks := by
    intro e he huses hkept
    refine (uses_of_mem_ran hreads he huses).resolve_right fun hteardown => ?_
    exact hkept copy.db (congrArg Event.cmd hteardown)
  exact {
    restores := by
      rw [List.append_assoc, List.cons_append]
      exact restores_of_mem hsecret hrest
    uses := fun e he huses => by
      refine ⟨liveDsn, copy, by simp, ?_⟩
      obtain hcheck | rfl := uses_of_mem_ran hreads he huses
      · exact hchecked.isOn e hcheck
      · exact .inr (.inr rfl)
    leaves := fun _ _ _ live' h hlive' hnot => by
      obtain ⟨rfl, -, hcopy⟩ := hrestore h
      obtain rfl := Except.ok.inj hcopy
      obtain rfl := Except.ok.inj (hlive'.symm.trans hlive)
      exact absurd hmay hnot
    drops := fun _ _ _ _ h _ _ => by
      obtain ⟨rfl, -, hcopy⟩ := hrestore h
      obtain rfl := Except.ok.inj hcopy
      refine ⟨_, dropped, rfl, fun e he => ?_⟩
      rcases List.mem_append.mp he with he | he
      -- the teardown is the last step; before it are the reads, the restore and the checks
      · obtain ⟨name, hname⟩ := hreads e he
        exact fun db h => DrillStep.noConfusion (hname.symm.trans h)
      · rcases List.mem_cons.mp he with he | he
        · subst he
          exact fun db h => DrillStep.noConfusion h
        · exact hchecked.not_teardown e he
    passes := by
      rw [hpassed, hchecked.passed_iff]
      constructor
      · rintro ⟨migrated, tables, hup, hcount, henough⟩
        exact ⟨liveDsn, copy, migrated, tables, by simp, by simp [hup], by simp [hcount], henough⟩
      · rintro ⟨liveDsn', copy', migrated, tables, h, hup, hcount, henough⟩
        obtain ⟨rfl, -, hcopy⟩ := hrestore h
        obtain rfl := Except.ok.inj hcopy
        exact ⟨migrated, tables, hchecks hup trivial fun _ h => DrillStep.noConfusion h,
          hchecks hcount trivial fun _ h => DrillStep.noConfusion h, henough⟩
    warns := fun report' h db dropped' hdrop => by
      obtain hcheck | hteardown := uses_of_mem_ran hreads hdrop trivial
      · exact absurd rfl (hchecked.not_teardown _ hcheck db)
      · obtain ⟨-, hdropped⟩ : db = copy.db ∧ dropped' = dropped := by
          simpa [stepped] using hteardown
        cases checked with
        | error error => cases h
        | ok found =>
            rw [← Except.ok.inj h, hdropped]
            exact hwarning found
    fails := fun error h => .inl (by
      obtain rfl : checked = .error error := by
        cases checked with
        | error error' => exact congrArg Except.error (Except.error.inj h)
        | ok found => cases h
      have hcopy : failureAt liveDatabase minTables
          (stepped (.restoreCopy liveDsn archive) (.ok copy)) = none := by
        simp only [stepped, failureAt, hlive, hguard]
      rw [List.findSome?_append, List.findSome?_append, (var_reads hreads).1, Option.none_or,
        List.findSome?_cons, hcopy, hchecked.findSome, Option.some_or])
    unrestored := fun _ _ _ h => by cases (hrestore h).2.2 }

theorem DrillCourse.sound {ctx : AdapterCtx} {archive : String}
    {value : Except DrillError DrillReport} {steps : List (Event DrillStepSig)}
    (h : DrillCourse liveDatabase ctx archive minTables value steps) :
    DrillSound liveDatabase ctx archive minTables value steps := by
  cases h with
  | unopened hunopened => exact unopened_sound hunopened
  | unrestored hreads => exact unrestored_sound hreads
  | refused hreads hlive hguard => exact refused_sound hreads hlive hguard
  | @ran reads checks liveDsn live copy dropped checked hreads hlive hguard hchecked =>
      exact ran_sound hreads hlive hguard hchecked fun found => by cases dropped <;> simp

end Course

end Fraisier.Core
