import Fraisier.Core.Policy

/-!
# The migration adapters

The adapters a configuration can name: the one that runs configured commands, the one
that runs confiture, the one that talks to a process of its own, and the one without a
database. All but the last act by starting a child process; which database a child
reaches is decided by the variables that are set on it.
-/

namespace Fraisier.Core

open Fraisier.Effect
open Fraisier.Data (Json)

variable {T : Sig}

/-! ## Children -/

/-- A child process as it is started: what it runs, the variables set on it over those it
inherits, its working directory and the request that is sent to it. -/
structure Child where
  program : String
  args : List String
  env : List (String × String)
  workdir : Option String
  request : Option Json

/-- A variable in a child's environment: what was set last wins over what is inherited. -/
def Child.var (inherited : String → Option String) (child : Child) (name : String) :
    Option String :=
  (child.env.reverse.lookup name).or (inherited name)

/-- What a child left: its exit code unless a signal ended it, its output and the report
it wrote. -/
structure Captured where
  code : Option Int
  stdout : String
  stderr : String
  report : Option Json

/-- Whether the child exited with 0. -/
def Captured.succeeded (captured : Captured) : Bool :=
  captured.code == some 0

/-- What the child wrote to its error output, unless that is blank. -/
def Captured.stderrOpt (captured : Captured) : Option String :=
  if (Data.trim captured.stderr).isEmpty then none else some captured.stderr

/-- How the exit is named in a message. -/
def Captured.codeText (captured : Captured) : String :=
  (captured.code.map toString).getD "signal"

/-- What an adapter needs of its host: the environment and starting children. -/
structure Shell (T : Sig) where
  os : Os T
  spawn : Child → Prog T (Except String Captured)

/-- An error with the adapter and the operation it is about. -/
def AdapterError.tagged (kind : AdapterErrorKind) (adapter operation message : String)
    (stderr : Option String) : AdapterError :=
  { AdapterError.new kind message with
    adapter := some adapter
    operation := some operation
    stderr := stderr }

/-- Start a child. Only a child that cannot be started is an error. -/
def runCommand (shell : Shell T) (child : Child) (adapter operation : String) :
    Prog T (Except AdapterError Captured) := do
  match ← shell.spawn child with
  | .error cause =>
      let program := child.program
      return .error (.tagged .execution adapter operation
        s!"failed to spawn '{program}': {cause}" none)
  | .ok captured => return .ok captured

/-! ## Configured commands -/

/-- A configured command: a shell text, or words that are run as they are. -/
inductive CommandSpec where
  | shell (text : String)
  | argv (words : List String)
deriving DecidableEq

/-- Read a command from its setting. -/
def CommandSpec.fromValue : Json → Option CommandSpec
  | .str text => some (.shell text)
  | .arr items =>
      match Json.decodeAll Json.asStr items with
      | some (word :: words) => some (.argv (word :: words))
      | _ => none
  | _ => none

/-- What is run for a command. -/
def CommandSpec.programAndArgs : CommandSpec → String × List String
  | .shell text => ("sh", ["-c", text])
  | .argv [] => ("", [])
  | .argv (program :: args) => (program, args)

/-- The adapter that runs configured commands. -/
structure CommandMigration where
  name : String
  commands : List (String × CommandSpec)

/-- The version the adapters report. -/
def packageVersion : String := "1.0.0-beta.14"

/-- The variable that carries the target revision. -/
def targetEnv : String := "FRAISIER_TARGET"

namespace CommandMigration

/-- The methods a command may be configured for. -/
def methodKeys : List String :=
  ["current_revision", "up", "down_to", "verify"]

/-- The adapter of a settings table. Entries that are not commands are ignored. -/
def fromSettings (name : String) (settings : List (String × Json)) : CommandMigration where
  name := name
  commands :=
    match settings.lookup "commands" with
    | some (.obj table) => methodKeys.filterMap fun method =>
        ((Json.lookup table method).bind CommandSpec.fromValue).map fun spec => (method, spec)
    | _ => []

/-- Resolve the named secrets, each to a variable of the same name. -/
def resolveSecrets (os : Os T) (ctx : AdapterCtx) (adapter : String) :
    List String → Prog T (Except AdapterError (List (String × String)))
  | [] => .ret (.ok [])
  | logical :: rest => do
      match ← ctx.secret os logical with
      | .error error => return .error { error with adapter := some adapter }
      | .ok value =>
        match ← resolveSecrets os ctx adapter rest with
        | .error error => return .error error
        | .ok envs => return .ok ((logical, value) :: envs)

/-- Resolve every declared secret. -/
def resolveSecretEnv (os : Os T) (ctx : AdapterCtx) (adapter : String) :
    Prog T (Except AdapterError (List (String × String))) :=
  resolveSecrets os ctx adapter (ctx.envSecrets.map Prod.fst)

/-- The release of the deploy, as variables. -/
def releaseEnv (ctx : AdapterCtx) : List (String × String) :=
  ("FRAISIER_RELEASE_DIR", ctx.workdir) ::
    ((((ctx.settings.lookup "active_path").bind Json.asStr).map fun path =>
        ("FRAISIER_ACTIVE_PATH", path)).toList ++
      (((ctx.settings.lookup "version").bind Json.asStr).map fun version =>
        ("FRAISIER_APP_VERSION", version)).toList)

variable (command : CommandMigration) (shell : Shell T)

/-- Run the command of a method. -/
def runMethod (method : String) (ctx : AdapterCtx) (extra : List (String × String)) :
    Prog T (Except AdapterError Captured) :=
  match command.commands.lookup method with
  | none =>
      let name := command.name
      .ret (.error (.tagged .invalidConfig command.name method
        s!"no '{method}' command configured for adapter '{name}'" none))
  | some spec => do
      match ← resolveSecretEnv shell.os ctx command.name with
      | .error error => return .error error
      | .ok envs =>
          runCommand shell
            { program := spec.programAndArgs.1
              args := spec.programAndArgs.2
              env := envs ++ releaseEnv ctx ++ extra
              workdir := some ctx.workdir
              request := none } command.name method

/-- The error of a command that failed. -/
def failure (operation : String) (captured : Captured) : AdapterError :=
  let code := captured.codeText
  .tagged .execution command.name operation s!"'{operation}' command exited with {code}"
    captured.stderrOpt

/-- The revision the command prints. -/
def currentRevision (ctx : AdapterCtx) : Prog T (Except AdapterError (Option Revision)) := do
  match ← command.runMethod shell "current_revision" ctx [] with
  | .error error => return .error error
  | .ok captured =>
    if !captured.succeeded then return .error (command.failure "current_revision" captured)
    else
      let revision := Data.trim captured.stdout
      return .ok (if revision.isEmpty then none else some ⟨revision⟩)

/-- Migrate. The outcome names the target that was asked for, whatever the command did. -/
def up (ctx : AdapterCtx) (target : Option Revision) :
    Prog T (Except AdapterError MigrationOutcome) := do
  let extra := (target.map fun revision => (targetEnv, revision.name)).toList
  match ← command.runMethod shell "up" ctx extra with
  | .error error => return .error error
  | .ok captured =>
    if !captured.succeeded then return .error (command.failure "up" captured)
    else return .ok ⟨none, target, [], captured.stdout⟩

/-- Go down to a revision. -/
def downTo (ctx : AdapterCtx) (target : Revision) :
    Prog T (Except AdapterError MigrationOutcome) := do
  match ← command.runMethod shell "down_to" ctx [(targetEnv, target.name)] with
  | .error error => return .error error
  | .ok captured =>
    if !captured.succeeded then return .error (command.failure "down_to" captured)
    else return .ok ⟨none, some target, [], captured.stdout⟩

/-- Verify. Without a command there is nothing to check. -/
def verify (ctx : AdapterCtx) : Prog T (Except AdapterError VerifyReport) :=
  if (command.commands.lookup "verify").isNone then .ret (.ok ⟨true, [], false⟩)
  else do
    match ← command.runMethod shell "verify" ctx [] with
    | .error error => return .error error
    | .ok captured =>
      let detail := if captured.succeeded then Data.trim captured.stdout
        else captured.stderrOpt.getD (Data.trim captured.stdout)
      return .ok ⟨captured.succeeded, [⟨"command verify", captured.succeeded,
        if detail.isEmpty then none else some detail⟩], false⟩

/-- The adapter. -/
def adapter : MigrationAdapter T where
  describe := .ret (.ok
    { name := command.name
      version := packageVersion
      protocolVersion := 1
      capabilities := methodKeys.filter fun method => (command.commands.lookup method).isSome })
  currentRevision := command.currentRevision shell
  up := command.up shell
  downTo := command.downTo shell
  verify := command.verify shell
  preflight _ := .ret (.error (.methodNotSupported "preflight"))
  ownsDatabase := true

end CommandMigration

/-! ## Confiture -/

/-- The class of a confiture exit. -/
inductive ExitClass where
  | ok
  | internalError
  | preconditionFailed
  | dbUnreachable
  | schemaError
  | invalidConfig
  | lockContention
  | gitError
  | irreversibleRollback
deriving DecidableEq

/-- The kind a failure of a class is reported with. -/
def ExitClass.toAdapterKind : ExitClass → AdapterErrorKind
  | .preconditionFailed => .preconditionFailed
  | .invalidConfig => .invalidConfig
  | .dbUnreachable => .dbUnreachable
  | .schemaError => .schemaError
  | .lockContention => .lockContention
  | .gitError => .gitError
  | .irreversibleRollback => .irreversibleRollback
  | .internalError => .internalError
  | .ok => .execution

/-- The code of a database without a migration ledger. -/
def noLedgerErrorCode : String := "PRECON_1001"

/-- The class of an exit: by its code, and by the reported code only when a signal left
none. -/
def classify (exitCode : Option Int) (errorCode : Option String) : ExitClass :=
  match exitCode with
  | some 0 => .ok
  | some 1 => .internalError
  | some 2 => .preconditionFailed
  | some 3 => .dbUnreachable
  | some 4 => .schemaError
  | some 5 => .invalidConfig
  | some 6 => .lockContention
  | some 7 => .gitError
  | some 8 => .irreversibleRollback
  | none => if errorCode = some noLedgerErrorCode then .preconditionFailed else .internalError
  | _ => .internalError

/-- The adapter that runs confiture. Where a subcommand writes its report depends on the
process and a counter; the reports are read back from there. -/
structure ConfitureMigration where
  program : String
  output : String → String

namespace ConfitureMigration

/-- The variable confiture takes the database from. -/
def dsnEnv : String := "CONFITURE_DATABASE_URL"

/-- The code of an error envelope. -/
def errorCodeOf (report : Json) : Option String :=
  ((report.get "error").bind (Json.get "code")).bind Json.asStr

/-- What a report says about a failure. -/
def reportDetail (report : Json) : Option String :=
  match ((report.get "errors").bind Json.asArray).map (List.filterMap Json.asStr) with
  | some (message :: messages) => some ("; ".intercalate (message :: messages))
  | _ => (report.get "error").bind fun error =>
      ((error.get "message").bind Json.asStr).or error.asStr

/-- The first line that is not blank. -/
def firstNonemptyLine (text : String) : String :=
  (((text.splitOn "\n").map Data.trim).find? fun line => !line.isEmpty).getD ""

/-- The error of a run that failed. -/
def intoError (operation : String) (captured : Captured) : AdapterError :=
  let kind := classify captured.code (captured.report.bind errorCodeOf)
  let detail := (captured.report.bind reportDetail).getD (firstNonemptyLine captured.stderr)
  let code := captured.codeText
  .tagged kind.toAdapterKind "confiture" operation
    (s!"`confiture migrate {operation}` exited with {code}" ++
      (if detail.isEmpty then "" else ": " ++ detail) ++
      (if kind = .lockContention then
        " (migration lock held by another process — retriable)" else ""))
    captured.stderrOpt

/-- The revision of a `current` report. -/
def parseCurrentRevision (report : Json) : Option Revision :=
  ((report.get "revision").bind Json.asStr).map Revision.mk

/-- The revisions of an `up` report, in the order they were applied. -/
def versionsFrom (report : Json) : List Revision :=
  (((report.get "applied").bind Json.asArray).getD []).filterMap fun item =>
    ((item.get "version").bind Json.asStr).map Revision.mk

/-- The outcome of an `up` report: the revision applied last is the one reached. -/
def parseUpOutcome (report : Json) (log : String) : MigrationOutcome :=
  ⟨none, (versionsFrom report).getLast?, versionsFrom report, log⟩

/-- The outcome of a `down-to` report. -/
def parseDownToOutcome (report : Json) (log : String) : MigrationOutcome where
  fromRevision := ((report.get "from").bind Json.asStr).map Revision.mk
  toRevision := ((report.get "to").bind Json.asStr).map Revision.mk
  applied := (((report.get "rolled_back").bind Json.asArray).getD []).filterMap fun item =>
    item.asStr.map Revision.mk
  log := log

variable (confiture : ConfitureMigration) (shell : Shell T)

/-- The arguments of a subcommand other than `preflight`. -/
def planArgs (subcommand : String) (ctx : AdapterCtx) (extra : List String) : List String :=
  ["migrate", subcommand] ++ extra ++
    ["--no-config", "--format", "json", "--output", confiture.output subcommand] ++
    (match ctx.migrationsPath with
      | some path => if subcommand = "current" then [] else ["--migrations-dir", path]
      | none => [])

/-- Run a subcommand other than `preflight`, with the database in its environment. -/
def run (subcommand : String) (ctx : AdapterCtx) (extra : List String) :
    Prog T (Except AdapterError Captured) := do
  match ← ctx.secret shell.os databaseUrlSecret with
  | .error error => return .error { error with adapter := some "confiture" }
  | .ok databaseUrl =>
      runCommand shell
        { program := confiture.program
          args := confiture.planArgs subcommand ctx extra
          env := [(dsnEnv, databaseUrl)]
          workdir := some ctx.workdir
          request := none } "confiture" subcommand

/-- The revision of the tracking table, none when there is no ledger. -/
def currentRevision (ctx : AdapterCtx) : Prog T (Except AdapterError (Option Revision)) := do
  match ← confiture.run shell "current" ctx [] with
  | .error error => return .error error
  | .ok captured =>
    if captured.succeeded then return .ok (captured.report.bind parseCurrentRevision)
    else if captured.report.bind errorCodeOf = some noLedgerErrorCode then return .ok none
    else return .error (intoError "current" captured)

/-- Migrate. -/
def up (ctx : AdapterCtx) (target : Option Revision) :
    Prog T (Except AdapterError MigrationOutcome) := do
  let extra := match target with
    | some revision => ["--target", revision.name]
    | none => []
  match ← confiture.run shell "up" ctx extra with
  | .error error => return .error error
  | .ok captured =>
    if captured.succeeded then
      return .ok ((captured.report.map fun report =>
        parseUpOutcome report captured.stdout).getD .default)
    else return .error (intoError "up" captured)

/-- Go down to a revision. -/
def downTo (ctx : AdapterCtx) (target : Revision) :
    Prog T (Except AdapterError MigrationOutcome) := do
  match ← confiture.run shell "down-to" ctx [target.name] with
  | .error error => return .error error
  | .ok captured =>
    if captured.succeeded then
      return .ok ((captured.report.map fun report =>
        parseDownToOutcome report captured.stdout).getD .default)
    else return .error (intoError "down-to" captured)

/-- Verify. `verdict` is what is made of a run. -/
def verify (verdict : Captured → Except AdapterError VerifyReport) (ctx : AdapterCtx) :
    Prog T (Except AdapterError VerifyReport) := do
  match ← confiture.run shell "verify" ctx [] with
  | .error error => return .error error
  | .ok captured => return verdict captured

/-- The adapter, with the methods that only look at the database as given. -/
def adapter (looks : MigrationAdapter T) : MigrationAdapter T :=
  { looks with
    currentRevision := confiture.currentRevision shell
    up := confiture.up shell
    downTo := confiture.downTo shell
    ownsDatabase := true }

end ConfitureMigration

/-! ## Adapters in a process of their own -/

/-- The context as it is sent. Values resolved in process are not part of it. -/
def AdapterCtx.encode (ctx : AdapterCtx) : Json :=
  .obj [("fraise", .str ctx.fraise), ("environment", .str ctx.environment),
    ("host", .ofOption (fun host => .str host.name) ctx.host), ("workdir", .str ctx.workdir),
    ("migrations_path", .ofOption .str ctx.migrationsPath),
    ("env_secrets", .obj (ctx.envSecrets.map fun entry => (entry.1, .str entry.2))),
    ("previous_revision", .ofOption (fun revision => .str revision.name) ctx.previousRevision),
    ("artifact_ref", .ofOption
      (fun a => .obj [("id", .str a.id), ("checksum", .ofOption .str a.checksum)])
      ctx.artifactRef),
    ("settings", .obj ctx.settings)]

/-- The adapter that starts a process for each call. -/
structure IpcMigrationAdapter where
  program : String
  name : String
  envs : List (String × String)

namespace IpcMigrationAdapter

variable (ipc : IpcMigrationAdapter) (shell : Shell T)

/-- The process of one call. It gets the variables fixed when the adapter was built. -/
def child (method : String) (params : Json) : Child where
  program := ipc.program
  args := []
  env := ipc.envs
  workdir := none
  request := some (.obj [("jsonrpc", .str "2.0"), ("id", .int 1), ("method", .str method),
    ("params", params)])

/-- Migrate. `decode` is what the client makes of the process's answer. -/
def up (decode : Except String Captured → Except AdapterError MigrationOutcome)
    (ctx : AdapterCtx) (target : Option Revision) :
    Prog T (Except AdapterError MigrationOutcome) := do
  let answer ← shell.spawn (ipc.child "up" (.obj [("ctx", ctx.encode),
    ("target", .ofOption (fun revision => .str revision.name) target)]))
  return decode answer

end IpcMigrationAdapter

/-! ## No database -/

/-- The adapter of a deployable without a database. -/
def noDatabase : MigrationAdapter T where
  describe := .ret (.ok ⟨"none", packageVersion, 1, []⟩)
  currentRevision _ := .ret (.ok none)
  up _ _ := .ret (.ok .default)
  downTo _ _ := .ret (.ok .default)
  verify _ := .ret (.ok ⟨true, [], true⟩)
  preflight _ := .ret (.error (.methodNotSupported "preflight"))
  ownsDatabase := false

end Fraisier.Core
