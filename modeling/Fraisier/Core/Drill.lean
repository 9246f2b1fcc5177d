import Fraisier.Core.Rehearsal
import Fraisier.Core.Tools
import Mathlib.Data.List.Infix

/-!
# The restore drill

An archive is restored into a throwaway database, the pending migrations run on it, its
tables are counted and it is dropped. `buildMigrationOnly` turns a configuration into the
migration adapter and the call context of a drill; the validators are those of the
sections a drill is configured in.
-/

namespace Fraisier.Core

open Fraisier.Effect
open Fraisier.Data (Json)

variable {T : Sig}

/-- The marker every throwaway database name carries. -/
def throwawayMarker : String := "_fraisier_rh_"

/-- One entity that was rebuilt after a restore, and its rows. -/
structure TviewRebuilt where
  entity : String
  rows : Int
deriving DecidableEq

/-- A throwaway database that an archive was restored into. -/
structure RestoredCopy where
  db : ThrowawayDb
  tviewsRebuilt : Option (List TviewRebuilt)
deriving DecidableEq

/-- The database operations of a drill. -/
structure DrillDb (T : Sig) where
  liveDatabase : String → Except String String
  restoreCopy : String → String → Prog T (Except String RestoredCopy)
  tableCount : ThrowawayDb → Prog T (Except String Nat)
  teardown : ThrowawayDb → Prog T (Except String Unit)

/-- What a drill that passed found. -/
structure DrillReport where
  throwaway : String
  applied : List Revision
  tables : Nat
  tviewsRebuilt : Option (List TviewRebuilt)
  teardownWarning : Option String

/-- Why a drill failed. -/
inductive DrillError where
  | secret (error : AdapterError)
  | liveDatabase (message : String)
  | restore (message : String)
  | migrate (error : AdapterError)
  | tableCount (message : String)
  | tooFewTables (found required : Nat)
  | unsafeTeardown (name reason : String)

instance : ToString DrillError where
  toString
    | .secret error => s!"the drill could not resolve the database DSN: {error}"
    | .liveDatabase message => s!"the drill could not read the live database name: {message}"
    | .restore message => s!"the archive did not restore: {message}"
    | .migrate error => s!"the migrations failed on the restored copy: {error}"
    | .tableCount message => s!"could not count the restored copy's tables: {message}"
    | .tooFewTables found required =>
        s!"the restored copy holds {found} tables, fewer than min_tables = {required}"
    | .unsafeTeardown name reason =>
        s!"refusing to drop database '{name}': {reason}; drop it by hand once checked"

/-- Whether a throwaway may be dropped beside a live database. -/
def teardownGuard (throwaway live : String) : Except String Unit :=
  if ¬ throwawayMarker.toList <:+: throwaway.toList then
    .error s!"its name does not carry the throwaway marker '{throwawayMarker}'"
  else if throwaway = live then .error "it is the live database"
  else .ok ()

/-- Migrate the copy and count its tables. -/
def checkCopy (db : DrillDb T) (migration : MigrationAdapter T) (copy : AdapterCtx)
    (throwaway : ThrowawayDb) (minTables : Option Nat) :
    Prog T (Except DrillError (List Revision × Nat)) := do
  match ← migration.up copy none with
  | .error error => return .error (.migrate error)
  | .ok migrated =>
    match ← db.tableCount throwaway with
    | .error message => return .error (.tableCount message)
    | .ok tables =>
      match minTables with
      | some required =>
          if tables < required then return .error (.tooFewTables tables required)
          else return .ok (migrated.applied, tables)
      | none => return .ok (migrated.applied, tables)

/-- Restore an archive into a throwaway, check it and drop it. A copy that may not be
dropped is not migrated either. -/
def runRestoreDrill (db : DrillDb T) (os : Os T) (migration : MigrationAdapter T)
    (ctx : AdapterCtx) (archive : String) (minTables : Option Nat) :
    Prog T (Except DrillError DrillReport) := do
  match ← ctx.secret os databaseUrlSecret with
  | .error error => return .error (.secret error)
  | .ok liveDsn =>
    match db.liveDatabase liveDsn with
    | .error message => return .error (.liveDatabase message)
    | .ok live =>
      match ← db.restoreCopy liveDsn archive with
      | .error message => return .error (.restore message)
      | .ok restored =>
        match teardownGuard restored.db.name live with
        | .error reason => return .error (.unsafeTeardown restored.db.name reason)
        | .ok () =>
          let checked ← checkCopy db migration (onThrowaway ctx restored.db) restored.db minTables
          let dropped ← db.teardown restored.db
          match checked with
          | .error error => return .error error
          | .ok (applied, tables) =>
              return .ok
                { throwaway := restored.db.name
                  applied := applied
                  tables := tables
                  tviewsRebuilt := restored.tviewsRebuilt
                  teardownWarning := match dropped with | .error e => some e | .ok () => none }

/-! ## The configuration -/

/-- The `[deploy]` section. -/
structure DeploySection where
  name : Option String
  environment : Option String

/-- Which preflight runs before a migration. -/
inductive PreflightMode where
  | live
  | restoreRehearsal
  | off
deriving DecidableEq

/-- The `[migration]` section. -/
structure MigrationSection where
  adapter : Option String
  databaseUrlEnv : Option String
  migrationsPath : Option String
  forwardCompatibleLint : Option Bool
  preflightMode : Option PreflightMode
  settings : List (String × Json)

/-- The effective preflight mode: an explicit one wins over the older flag. -/
def MigrationSection.effectivePreflightMode (migration : MigrationSection) : PreflightMode :=
  match migration.preflightMode with
  | some mode => mode
  | none => if migration.forwardCompatibleLint = some false then .off else .live

/-- The `[backup]` section, without its retention entries. -/
structure BackupSection where
  dir : Option String

/-- The `[drill]` section. -/
structure DrillSection where
  maxAgeHours : Option Nat
  minTables : Option Nat
  dataDir : Option String
  schedule : Option String

/-- Where the health probe's token comes from. -/
inductive TokenProvider where
  | clientCredentials (clientSecretEnv : String)
  | refreshToken (refreshTokenEnv : String)
  | exec

/-- The configuration a drill reads. `settings` is what the artifact, service and health
sections contribute to the call context. -/
structure DeployConfig where
  deploy : Option DeploySection
  migration : Option MigrationSection
  hosts : Bool
  backup : Option BackupSection
  drill : Option DrillSection
  tokenProvider : Option TokenProvider
  settings : List (String × Json)

/-- A finding of the validators. -/
structure ValidationIssue where
  severity : Severity
  path : String
  message : String
deriving DecidableEq

namespace DeployConfig

/-- Whether a text is there and not blank. -/
def isSet (field : Option String) : Bool :=
  field.any fun text => !(Data.trim text).isEmpty

/-- An issue, when it applies. -/
def issueIf (applies : Bool) (severity : Severity) (path message : String) :
    List ValidationIssue :=
  if applies then [⟨severity, path, message⟩] else []

variable (config : DeployConfig)

/-- Validate `[deploy]`. -/
def validateDeploy : List ValidationIssue :=
  match config.deploy with
  | none => [⟨.error, "deploy", "missing required [deploy] section"⟩]
  | some deploy =>
      issueIf (!isSet deploy.name) .error "deploy.name"
        ("[deploy].name is required and must be non-empty (the [specql] preset supplies it from " ++
          "its `name` field)") ++
      issueIf (!isSet deploy.environment) .error "deploy.environment"
        "[deploy].environment is required and must be non-empty"

/-- Validate `[migration]`. -/
def validateMigration : List ValidationIssue :=
  match config.migration with
  | none => [⟨.error, "migration", "missing required [migration] section"⟩]
  | some migration =>
      let rehearses := migration.effectivePreflightMode == .restoreRehearsal
      issueIf (!isSet migration.adapter) .error "migration.adapter"
        "[migration].adapter is required" ++
      issueIf (migration.adapter == some "confiture" && !isSet migration.databaseUrlEnv) .error
        "migration.database_url_env"
        ("the confiture adapter requires database_url_env (the name of the env var holding the " ++
          "database DSN)") ++
      issueIf (migration.adapter == some "none" && isSet migration.databaseUrlEnv) .error
        "migration.database_url_env"
        "adapter = \"none\" declares no database; remove database_url_env" ++
      issueIf (migration.adapter == some "none" && !migration.settings.isEmpty) .error
        "migration.settings" "adapter = \"none\" takes no settings; remove [migration.settings]" ++
      issueIf (migration.forwardCompatibleLint == some true &&
          migration.adapter == some "command") .warning "migration.forward_compatible_lint"
        ("the command adapter does not implement preflight; forward_compatible_lint will be " ++
          "skipped") ++
      issueIf (rehearses && migration.adapter != some "confiture") .error
        "migration.preflight_mode"
        ("preflight_mode = \"restore_rehearsal\" requires the confiture adapter (it rehearses a " ++
          "real Postgres restore + migrate on a throwaway database)") ++
      issueIf (rehearses && config.hosts) .warning "migration.preflight_mode"
        ("preflight_mode = \"restore_rehearsal\" runs only on a single-host deploy; with " ++
          "[hosts], the multi-host rollout lints live instead (pass --host to rehearse " ++
          "against one host)")

/-- Validate `[drill]`. `toOnCalendar` reads a schedule. -/
def validateDrill (toOnCalendar : String → Except String String) : List ValidationIssue :=
  match config.drill with
  | none => []
  | some drill =>
      issueIf (config.backup.bind BackupSection.dir).isNone .error "drill"
        "a [drill] restores the newest archive in [backup].dir, so it requires [backup].dir" ++
      (match drill.schedule.map toOnCalendar with
        | some (.error message) => [⟨.error, "drill.schedule", message⟩]
        | _ => []) ++
      issueIf (drill.maxAgeHours == some 0) .error "drill.max_age_hours"
        "max_age_hours must be at least 1" ++
      issueIf (drill.minTables == some 0) .error "drill.min_tables"
        "min_tables must be at least 1 (omit it for no table check)" ++
      (match drill.dataDir with
        | some dir => issueIf (!dir.startsWith "/") .error "drill.data_dir"
            s!"data_dir must be an absolute path, not '{dir}'"
        | none => [])

/-- The validators of the sections of a drill report no error. -/
def Accepted (toOnCalendar : String → Except String String) : Prop :=
  ∀ issue ∈ config.validateDeploy ++ config.validateMigration ++
    config.validateDrill toOnCalendar, issue.severity ≠ .error

end DeployConfig

/-! ## Building the adapter -/

/-- A migration adapter that a configuration names. -/
inductive BuiltMigration where
  | none
  | confiture (adapter : ConfitureMigration)
  | command (adapter : CommandMigration)
  | ipc (adapter : IpcMigrationAdapter)

/-- The confiture binary: the one the environment names, else the one on the path. -/
def confitureProgram (os : Os T) : Prog T String := do
  match ← os.var "FRAISIER_CONFITURE_BIN" with
  | .ok program => return if program.isEmpty then "confiture" else program
  | .error (.notUnicode program) => return if program.isEmpty then "confiture" else program
  | .error .notPresent => return "confiture"

/-- Build the adapter a `[migration]` section names, with the secrets its calls declare.
The database of an out-of-process adapter is read here and fixed for every call. -/
def buildMigration (os : Os T) (output : String → String) (migration : Option MigrationSection) :
    Prog T (Except String (BuiltMigration × List (String × String))) :=
  let source := migration.bind MigrationSection.databaseUrlEnv
  let declared := (source.map fun name => (databaseUrlSecret, name)).toList
  match migration.bind MigrationSection.adapter with
  | none => .ret (.error "[migration].adapter is required")
  | some "none" => .ret (.ok (.none, []))
  | some "confiture" => do
      let program ← confitureProgram os
      return .ok (.confiture ⟨program, output⟩, declared)
  | some "command" =>
      .ret (.ok (.command (.fromSettings "command"
        ((migration.map MigrationSection.settings).getD [])), declared))
  | some other =>
      let program := "fraisier-adapter-" ++ other
      match source with
      | none => .ret (.ok (.ipc ⟨program, other, []⟩, []))
      | some name => do
          match ← os.var name with
          | .error _ =>
              return .error (s!"the configured database_url_env '{name}' is not set in the " ++
                             "environment")
          | .ok value =>
              return .ok (.ipc ⟨program, other, [(databaseUrlSecret, value)]⟩,
                [(databaseUrlSecret, databaseUrlSecret)])

/-- The secret of the health probe, declared for every call. -/
def TokenProvider.secrets : TokenProvider → List (String × String)
  | .clientCredentials name => [("HEALTH_TOKEN_CLIENT_SECRET", name)]
  | .refreshToken name => [("HEALTH_TOKEN_REFRESH_TOKEN", name)]
  | .exec => []

/-- The adapter and the call context of a database operation. -/
structure ResolvedMigration where
  migration : BuiltMigration
  ctx : AdapterCtx

/-- Build the adapter and the call context of a configuration. -/
def buildMigrationOnly (os : Os T) (output : String → String) (config : DeployConfig) :
    Prog T (Except String ResolvedMigration) :=
  match config.deploy with
  | none => .ret (.error "missing [deploy] section")
  | some ⟨none, _⟩ => .ret (.error "[deploy].name is required")
  | some ⟨some _, none⟩ => .ret (.error "[deploy].environment is required")
  | some ⟨some fraise, some environment⟩ => do
      match ← buildMigration os output config.migration with
      | .error error => return .error error
      | .ok (migration, declared) =>
          let secrets := (config.tokenProvider.map TokenProvider.secrets).getD []
          return .ok
            { migration := migration
              ctx :=
                { AdapterCtx.new fraise environment with
                  migrationsPath := config.migration.bind MigrationSection.migrationsPath
                  envSecrets := declared ++ secrets
                  settings := config.settings } }

end Fraisier.Core
