import Fraisier.Data.Json
import Fraisier.Data.Text
import Fraisier.Effect.Program

/-!
# The adapter axes

The vocabulary of the deploy layer and the adapters it is composed of. An adapter is
a record of programs over the commands of its world, so that the same composition
runs over a modelled fleet, over a migration tool or over an out-of-process adapter.
-/

namespace Fraisier.Core

open Fraisier.Effect

/-! ## Errors -/

/-- The kinds an adapter error may have. -/
inductive AdapterErrorKind where
  | methodNotSupported
  | missingSecret
  | secretReadFailed
  | invalidConfig
  | preconditionFailed
  | dbUnreachable
  | schemaError
  | lockContention
  | gitError
  | irreversibleRollback
  | internalError
  | execution
  | protocol
  | remote
deriving DecidableEq

/-- The stable wire string of a kind. -/
def AdapterErrorKind.asStr : AdapterErrorKind → String
  | .methodNotSupported => "method_not_supported"
  | .missingSecret => "missing_secret"
  | .secretReadFailed => "secret_read_failed"
  | .invalidConfig => "invalid_config"
  | .preconditionFailed => "precondition_failed"
  | .dbUnreachable => "db_unreachable"
  | .schemaError => "schema_error"
  | .lockContention => "lock_contention"
  | .gitError => "git_error"
  | .irreversibleRollback => "irreversible_rollback"
  | .internalError => "internal_error"
  | .execution => "execution"
  | .protocol => "protocol"
  | .remote => "remote"

/-- The JSON-RPC error code of a kind. -/
def AdapterErrorKind.code : AdapterErrorKind → Int
  | .methodNotSupported => -32601
  | .invalidConfig => -32602
  | .protocol => -32600
  | .missingSecret => -32001
  | .secretReadFailed => -32002
  | .execution => -32000
  | .remote => -32003
  | .preconditionFailed => -32004
  | .dbUnreachable => -32005
  | .schemaError => -32006
  | .lockContention => -32007
  | .gitError => -32008
  | .irreversibleRollback => -32009
  | .internalError => -32010

/-- The error every adapter method returns. -/
structure AdapterError where
  kind : AdapterErrorKind
  code : Int
  message : String
  adapter : Option String
  operation : Option String
  stderr : Option String
deriving DecidableEq

instance : ToString AdapterError where
  toString error := "[" ++ error.kind.asStr ++ "] " ++ error.message

namespace AdapterError

/-- An error of a kind, with that kind's code. -/
def new (kind : AdapterErrorKind) (message : String) : AdapterError where
  kind := kind
  code := kind.code
  message := message
  adapter := none
  operation := none
  stderr := none

/-- The method is not implemented by this adapter. -/
def methodNotSupported (method : String) : AdapterError :=
  { new .methodNotSupported s!"method '{method}' is not supported by this adapter" with
    operation := some method }

/-- A secret was requested that the context does not declare. -/
def missingSecret (logical : String) : AdapterError :=
  new .missingSecret s!"secret '{logical}' is not declared in env_secrets"

/-- A declared secret's source variable could not be read. -/
def secretReadFailed (logical source cause : String) : AdapterError :=
  new .secretReadFailed
    s!"secret '{logical}' maps to env var '{source}' which could not be read: {cause}"

end AdapterError

/-! ## Shared vocabulary -/

/-- An opaque migration revision. -/
structure Revision where
  name : String
deriving DecidableEq

/-- A host of the inventory. -/
structure HostId where
  name : String
deriving DecidableEq

instance : ToString HostId where
  toString host := host.name

/-- A reference to an artifact. -/
structure ArtifactRef where
  id : String
  checksum : Option String
deriving DecidableEq

/-- An artifact staged on a host but not yet activated. -/
structure StagedArtifact where
  artifact : ArtifactRef
  path : String
deriving DecidableEq

/-- A service's run state. -/
structure ServiceStatus where
  running : Bool
  detail : Option String
deriving DecidableEq

/-- The result of a health probe. -/
structure HealthStatus where
  healthy : Bool
  detail : Option String
deriving DecidableEq

/-- A host's membership state at the load balancer. -/
inductive LbState where
  | inPool
  | draining
  | removed
deriving DecidableEq

/-- A host's load-balancer membership, captured before draining. -/
structure LbMembership where
  state : LbState
  weight : Option Nat
deriving DecidableEq

/-- The result of an `up` or `down_to` call. -/
structure MigrationOutcome where
  fromRevision : Option Revision
  toRevision : Option Revision
  applied : List Revision
  log : String
deriving DecidableEq

/-- The outcome of a migration call that reports nothing. -/
def MigrationOutcome.default : MigrationOutcome :=
  ⟨none, none, [], ""⟩

/-- A single check performed by `verify`. -/
structure VerifyCheck where
  name : String
  ok : Bool
  detail : Option String
deriving DecidableEq

/-- The result of a post-apply `verify`. -/
structure VerifyReport where
  ok : Bool
  checks : List VerifyCheck
  wasSkipped : Bool
deriving DecidableEq

/-- How a failed check is named: with its detail when the adapter gave one. -/
def VerifyCheck.render (check : VerifyCheck) : String :=
  match check.detail.map Data.trim with
  | some detail => if detail.isEmpty then check.name else s!"{check.name} ({detail})"
  | none => check.name

/-- The deploy's account of a failed verify. -/
def VerifyReport.failureMessage (report : VerifyReport) : String :=
  if report.wasSkipped then
    "post-migration verify verified nothing: the migration adapter reported the run as skipped"
  else
    let failed := (report.checks.filter fun check => !check.ok).map VerifyCheck.render
    if failed.isEmpty then "post-migration verify reported a failure without a failing check"
    else
      let names := ", ".intercalate failed
      s!"post-migration verify failed {failed.length} check(s): {names}"

/-- Severity of a preflight finding. -/
inductive Severity where
  | error
  | warning
  | info
deriving DecidableEq

/-- One finding of a preflight lint. -/
structure PreflightIssue where
  severity : Severity
  code : String
  message : String
  migration : Option String
deriving DecidableEq

/-- How risky one planned schema change is, least to most severe. -/
inductive RiskTier where
  | additive
  | reversible
  | lockRisky
  | destructive
  | irreversible
deriving DecidableEq

namespace RiskTier

/-- The tier's name on the wire. -/
def asStr : RiskTier → String
  | .additive => "additive"
  | .reversible => "reversible"
  | .lockRisky => "lock_risky"
  | .destructive => "destructive"
  | .irreversible => "irreversible"

/-- The tier's position in the severity order. -/
def rank : RiskTier → Nat
  | .additive => 0
  | .reversible => 1
  | .lockRisky => 2
  | .destructive => 3
  | .irreversible => 4

/-- The most severe of a list of tiers. -/
def worst : List RiskTier → Option RiskTier
  | [] => none
  | tier :: rest =>
      match worst rest with
      | none => some tier
      | some other => some (if tier.rank ≤ other.rank then other else tier)

end RiskTier

/-- One planned schema change. -/
structure SchemaChange where
  kind : String
  object : String
  migration : Option String
  tier : Option RiskTier
  detail : Option String
deriving DecidableEq

/-- The planned changes with the version of the contract they are written to. -/
structure ChangeSet where
  contractVersion : Nat
  changes : List SchemaChange
deriving DecidableEq

/-- The revision of the migration risk contract that is understood. -/
def riskContractVersion : Nat := 1

/-- The result of a preflight lint. -/
structure PreflightReport where
  ok : Bool
  issues : List PreflightIssue
  windowSafe : Option Bool
  changeSet : Option ChangeSet
deriving DecidableEq

/-- Why a report has no change-set that can be read. -/
inductive ChangeSetUnavailable where
  | notEmitted
  | versionTooNew (found understood : Nat)
deriving DecidableEq

instance : ToString ChangeSetUnavailable where
  toString
    | .notEmitted =>
        "the migration adapter emitted no usable change-set; nothing classified the pending " ++
        "schema changes"
    | .versionTooNew found understood =>
        s!"the migration adapter emitted a change-set at risk-contract version {found}, but " ++
        s!"this build of fraisier understands version {understood}; upgrade fraisier or pin " ++
        "the adapter"

/-- The change-set of a report, when this build can read it. -/
def PreflightReport.usableChangeSet (report : PreflightReport) :
    Except ChangeSetUnavailable ChangeSet :=
  match report.changeSet with
  | none => .error .notEmitted
  | some changeSet =>
      if changeSet.contractVersion > riskContractVersion then
        .error (.versionTooNew changeSet.contractVersion riskContractVersion)
      else .ok changeSet

/-- How an adapter describes itself. -/
structure AdapterDescription where
  name : String
  version : String
  protocolVersion : Nat
  capabilities : List String
deriving DecidableEq

/-! ## The call context -/

/-- Everything an adapter needs to act, minus secret values. `resolvedSecrets` is kept
in process: it is not part of the serialized context. -/
structure AdapterCtx where
  fraise : String
  environment : String
  host : Option HostId
  workdir : String
  migrationsPath : Option String
  envSecrets : List (String × String)
  resolvedSecrets : List (String × String)
  previousRevision : Option Revision
  artifactRef : Option ArtifactRef
  settings : List (String × Data.Json)

/-- A context with all optional fields empty. -/
def AdapterCtx.new (fraise environment : String) : AdapterCtx where
  fraise := fraise
  environment := environment
  host := none
  workdir := "."
  migrationsPath := none
  envSecrets := []
  resolvedSecrets := []
  previousRevision := none
  artifactRef := none
  settings := []

/-- A context with a secret resolved to a value in process. -/
def AdapterCtx.withResolvedSecret (ctx : AdapterCtx) (logical value : String) : AdapterCtx :=
  { ctx with resolvedSecrets := Data.insertEntry ctx.resolvedSecrets logical value }

/-- Why an environment variable could not be read. -/
inductive VarError where
  | notPresent
  | notUnicode (text : String)
deriving DecidableEq

instance : ToString VarError where
  toString
    | .notPresent => "environment variable not found"
    | .notUnicode text => s!"environment variable was not valid unicode: {text}"

/-- What the process asks its operating system directly: its environment and its
directories. -/
structure Os (T : Sig) where
  var : String → Prog T (Except VarError String)
  isDir : String → Prog T Bool

/-- Resolve a secret by its logical name: a value resolved in process wins over the
variable the context maps the name to. -/
def AdapterCtx.secret {T : Sig} (os : Os T) (ctx : AdapterCtx) (logical : String) :
    Prog T (Except AdapterError String) :=
  match ctx.resolvedSecrets.lookup logical with
  | some value => .ret (.ok value)
  | none =>
      match ctx.envSecrets.lookup logical with
      | none => .ret (.error (.missingSecret logical))
      | some source => do
          match ← os.var source with
          | .error cause => return .error (.secretReadFailed logical source (toString cause))
          | .ok value => return .ok value

/-! ## The axes -/

/-- The migration axis. -/
structure MigrationAdapter (T : Sig) where
  describe : Prog T (Except AdapterError AdapterDescription)
  currentRevision : AdapterCtx → Prog T (Except AdapterError (Option Revision))
  up : AdapterCtx → Option Revision → Prog T (Except AdapterError MigrationOutcome)
  downTo : AdapterCtx → Revision → Prog T (Except AdapterError MigrationOutcome)
  verify : AdapterCtx → Prog T (Except AdapterError VerifyReport)
  preflight : AdapterCtx → Prog T (Except AdapterError PreflightReport)
  ownsDatabase : Bool

/-- The artifact axis. -/
structure ArtifactAdapter (T : Sig) where
  stage : AdapterCtx → HostId → Prog T (Except AdapterError StagedArtifact)
  activate : AdapterCtx → HostId → StagedArtifact → Prog T (Except AdapterError Unit)

/-- The service axis. -/
structure ServiceAdapter (T : Sig) where
  restart : AdapterCtx → HostId → Prog T (Except AdapterError Unit)
  status : AdapterCtx → HostId → Prog T (Except AdapterError ServiceStatus)

/-- The health axis. -/
structure HealthAdapter (T : Sig) where
  check : AdapterCtx → HostId → Prog T (Except AdapterError HealthStatus)

/-- The load-balancer axis. -/
structure LbAdapter (T : Sig) where
  drain : AdapterCtx → HostId → Prog T (Except AdapterError LbMembership)
  reattach : AdapterCtx → HostId → LbMembership → Prog T (Except AdapterError Unit)

end Fraisier.Core
