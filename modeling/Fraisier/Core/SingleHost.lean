import Fraisier.Core.Ledger
import Fraisier.Core.Rehearsal
import Fraisier.Saga.Engine

/-!
# The single-host deploy

Seven steps over one host: preflight, fetch, migrate, activate, restart, health and
verify. The migrate step goes `up`, or `downTo` a revision in a deliberate rollback, and
the activation is undone by re-activating and restarting the release of the ledger.
-/

namespace Fraisier.Core

open Fraisier.Effect Fraisier.Saga

variable {T : Sig}

/-- A configured single-host deploy. -/
structure SingleHostDeploy (T : Sig) where
  fraise : String
  environment : String
  host : HostId
  ctx : AdapterCtx
  target : Option Revision
  rollbackTo : Option Revision
  forwardCompatibleLint : Bool
  policy : PolicyGate T
  restoreRehearsal : Option (RehearsalDb T)
  backupSource : BackupSource
  databaseReadiness : Option (DatabaseReadiness T)
  os : Os T
  artifact : ArtifactAdapter T
  migration : MigrationAdapter T
  service : ServiceAdapter T
  health : HealthAdapter T

/-- The run state of a single-host deploy. -/
structure DeployRuntime where
  staged : Option StagedArtifact
  previousRevision : Option Revision
  newRevision : Option Revision
  warnings : List String

/-- The run state a deploy starts with. -/
def DeployRuntime.default : DeployRuntime :=
  ⟨none, none, none, []⟩

/-- The ledger entry to persist on a commit. -/
def DeployRuntime.committedRecord (runtime : DeployRuntime) : DeployRecord :=
  ⟨runtime.staged, runtime.newRevision⟩

/-- Note a problem that does not fail the run. -/
def DeployRuntime.warn (runtime : DeployRuntime) (warning : String) : DeployRuntime :=
  { runtime with warnings := runtime.warnings ++ [warning] }

/-- A finished run: its outcome, and what went wrong without failing it. -/
structure DeployRun where
  outcome : SagaOutcome
  warnings : List String

/-- Errors from running a deploy: infrastructure failures only. -/
inductive DeployError where
  | saga (error : SagaError)
  | store (error : StateStoreError)
  | ledger

/-- The preflight failure for a rehearsal that could not provision or apply. -/
def rehearsalFailed (error : RehearsalError) : SagaError :=
  let remedy := error.remedy
  .stepFailed "preflight" (s!"restore-rehearsal preflight failed: {error}. {remedy}, or bypass " ++
    "this check with `--skip-preflight` (or `[migration].preflight_mode = \"off\"`).")

/-- The warning for a throwaway that could not be dropped. -/
def leaked (throwaway : ThrowawayDb) (error : String) : String :=
  let name := throwaway.name
  (s!"the restore-rehearsal throwaway database '{name}' was not dropped and must be removed by " ++
   s!"hand: {error}")

namespace SingleHostDeploy

variable (d : SingleHostDeploy T)

/-- The context of the run's adapter calls: the configured one with the host set. -/
def callCtx : AdapterCtx :=
  { d.ctx with host := some d.host }

/-! ## Preflight -/

/-- Ask the migration adapter what it can do and, when it lints, run its preflight, unless
the operator opted out. -/
def inspect (described : Option AdapterDescription) : Prog T (Except SagaError Inspection) :=
  if !d.forwardCompatibleLint then .ret (.ok .default)
  else do
    let inspection ← match described with
      | some described => inspectDescribed d.migration d.callCtx described
      | none => Core.inspect d.migration d.callCtx
    match inspection with
    | .error error => return .error (failed "preflight" error)
    | .ok inspection => return .ok inspection

/-- Apply the schema policy gate. A deliberate rollback is not gated. -/
def runPolicyGate (inspection : Inspection) : Prog T (Except SagaError Unit) :=
  if d.rollbackTo.isSome then .ret (.ok ())
  else do
    match ← d.policy.admit .none inspection.capabilities inspection.report d.callCtx with
    | .error reason => return .error (.stepFailed "preflight" reason)
    | .ok () => return .ok ()

/-- Name one blocking finding. -/
def renderIssue (issue : PreflightIssue) : String :=
  let place := (issue.migration.map fun migration => s!" ({migration})").getD ""
  let code := issue.code
  let message := issue.message
  s!"{code}{place}: {message}"

/-- Refuse a report with blocking findings. -/
def runForwardCompatLint (inspection : Inspection) : Except SagaError Unit :=
  match inspection.report with
  | none => .ok ()
  | some report =>
      match (report.issues.filter fun issue => issue.severity == .error).map renderIssue with
      | [] => .ok ()
      | blocking =>
          let count := blocking.length
          let named := "; ".intercalate blocking
          .error (.stepFailed "preflight"
            s!"forward-compatibility preflight found {count} blocking issue(s): {named}")

/-- The gate and the lint on one inspection. -/
def judge (inspection : Inspection) : Prog T (Except SagaError Unit) := do
  match ← d.runPolicyGate inspection with
  | .error error => return .error error
  | .ok () => return runForwardCompatLint inspection

/-- Rehearse a restore and a migrate on a throwaway before anything is touched. -/
def runRestoreRehearsalStep (db : RehearsalDb T) (runtime : DeployRuntime) :
    Prog T (Except SagaError Unit × DeployRuntime) := do
  match ← runRestoreRehearsal db d.os d.migration d.callCtx d.backupSource with
  | .error error => return (.error (rehearsalFailed error), runtime)
  | .ok report =>
    match report.teardownWarning with
    | none => return (.ok (), runtime)
    | some warning =>
        return (.ok (), runtime.warn ("the restore-rehearsal throwaway database was not dropped " ++
                                      s!"and must be removed by hand: {warning}"))

/-- The rehearsal database, when this run classifies deeply: a forward deploy that lints,
with a rehearsal seeded from a fresh dump. -/
def deepRehearsal : Option (RehearsalDb T) :=
  match d.restoreRehearsal with
  | none => none
  | some db =>
      if d.forwardCompatibleLint && d.rollbackTo.isNone && d.backupSource == .freshDump then some db
      else none

/-- The checks of a deep preflight, against one throwaway. -/
def deepChecks (described : AdapterDescription) (throwaway : ThrowawayDb) :
    Prog T (Except SagaError Unit) := do
  match ← inspectDescribed d.migration (againstThrowaway d.callCtx throwaway) described with
  | .error error => return .error (failed "preflight" error)
  | .ok inspection =>
    match ← d.judge inspection with
    | .error error => return .error error
    | .ok () =>
      match ← rehearseOn d.migration d.callCtx throwaway with
      | .error error => return .error (rehearsalFailed error)
      | .ok _ => return .ok ()

/-- The deep preflight: provision, check, and tear down whatever the checks said. -/
def runDeepPreflight (db : RehearsalDb T) (described : AdapterDescription)
    (runtime : DeployRuntime) : Prog T (Except SagaError Unit × DeployRuntime) := do
  match ← provision db d.os d.callCtx d.backupSource with
  | .error error => return (.error (rehearsalFailed error), runtime)
  | .ok throwaway =>
    let result ← d.deepChecks described throwaway
    match ← db.teardown throwaway with
    | .error error => return (result, runtime.warn (leaked throwaway error))
    | .ok () => return (result, runtime)

/-- Check the database's readiness. A deliberate rollback is not held behind it. -/
def checkReadiness : Prog T (Except SagaError Unit) :=
  match d.databaseReadiness with
  | none => .ret (.ok ())
  | some probe => if d.rollbackTo.isNone then probe.check d.os d.callCtx else .ret (.ok ())

/-- The rehearsal of a forward deploy that has one. -/
def rehearse (runtime : DeployRuntime) : Prog T (Except SagaError Unit × DeployRuntime) :=
  match d.restoreRehearsal with
  | none => .ret (.ok (), runtime)
  | some db =>
      if d.rollbackTo.isNone then d.runRestoreRehearsalStep db runtime else .ret (.ok (), runtime)

/-- The static preflight: inspect, judge and rehearse. -/
def runStaticPreflight (described : Option AdapterDescription) (runtime : DeployRuntime) :
    Prog T (Except SagaError Unit × DeployRuntime) := do
  match ← d.inspect described with
  | .error error => return (.error error, runtime)
  | .ok inspection =>
    match ← d.judge inspection with
    | .error error => return (.error error, runtime)
    | .ok () => d.rehearse runtime

/-- The preflight: readiness first, then the deep or the static checks. -/
def runPreflight (runtime : DeployRuntime) : Prog T (Except SagaError Unit × DeployRuntime) := do
  match ← d.checkReadiness with
  | .error error => return (.error error, runtime)
  | .ok () =>
    match d.deepRehearsal with
    | none => d.runStaticPreflight none runtime
    | some db =>
      match ← d.migration.describe with
      | .error error => return (.error (failed "preflight" error), runtime)
      | .ok described =>
          if classifiesDeeply described then d.runDeepPreflight db described runtime
          else d.runStaticPreflight (some described) runtime

/-- What the preflight may call: every probe, and the migration adapter on a throwaway. -/
structure PreflightCalls (P : T.Cmd → Prop) : Prop where
  var : ∀ name, (d.os.var name).Sequential P
  ready : ∀ probe, d.databaseReadiness = some probe → ∀ dsn, (probe.unready dsn).Sequential P
  describe : d.migration.describe.Sequential P
  preflight : ∀ ctx, (d.migration.preflight ctx).Sequential P
  hook : ∀ hook, d.policy.hook = some hook → ∀ request, (hook request).Sequential P
  provision : ∀ db, d.restoreRehearsal = some db →
    ∀ dsn backup, (db.provision dsn backup).Sequential P
  teardown : ∀ db, d.restoreRehearsal = some db →
    ∀ throwaway, (db.teardown throwaway).Sequential P
  rehearse : ∀ throwaway, (d.migration.up (onThrowaway d.callCtx throwaway) none).Sequential P

section Sequential

variable {d} {P : T.Cmd → Prop} (calls : d.PreflightCalls P)
include calls

theorem inspect_sequential (described : Option AdapterDescription) :
    (d.inspect described).Sequential P := by
  unfold inspect
  split
  · exact .ret _
  · cases described with
    | none =>
        refine (Core.inspect_sequential calls.describe (calls.preflight _)).bind ?_
        rintro (_ | _)
        · exact .ret _
        · exact .ret _
    | some described =>
        refine (inspectDescribed_sequential (calls.preflight _) _).bind ?_
        rintro (_ | _)
        · exact .ret _
        · exact .ret _

theorem judge_sequential (inspection : Inspection) : (d.judge inspection).Sequential P := by
  have hgate : (d.runPolicyGate inspection).Sequential P := by
    unfold runPolicyGate
    split
    · exact .ret _
    · refine (PolicyGate.admit_sequential calls.hook).bind ?_
      rintro (_ | _)
      · exact .ret _
      · exact .ret _
  refine hgate.bind ?_
  rintro (_ | _)
  · exact .ret _
  · exact .ret _

theorem runStaticPreflight_sequential (described : Option AdapterDescription)
    (runtime : DeployRuntime) : (d.runStaticPreflight described runtime).Sequential P := by
  refine (inspect_sequential calls described).bind ?_
  rintro (_ | inspection)
  · exact .ret _
  · refine (judge_sequential calls inspection).bind ?_
    rintro (_ | _)
    · exact .ret _
    · show (d.rehearse runtime).Sequential P
      unfold rehearse
      split
      · exact .ret _
      · rename_i db hdb
        split
        · refine (runRestoreRehearsal_sequential calls.var (calls.provision db hdb)
            calls.rehearse (calls.teardown db hdb)).bind ?_
          rintro (_ | ⟨_, _ | _⟩)
          · exact .ret _
          · exact .ret _
          · exact .ret _
        · exact .ret _

theorem runDeepPreflight_sequential {db : RehearsalDb T} (hdb : d.restoreRehearsal = some db)
    (described : AdapterDescription) (runtime : DeployRuntime) :
    (d.runDeepPreflight db described runtime).Sequential P := by
  refine (provision_sequential calls.var (calls.provision db hdb)).bind ?_
  rintro (_ | throwaway)
  · exact .ret _
  · have hchecks : (d.deepChecks described throwaway).Sequential P := by
      refine (inspectDescribed_sequential (calls.preflight _) _).bind ?_
      rintro (_ | inspection)
      · exact .ret _
      · refine (judge_sequential calls inspection).bind ?_
        rintro (_ | _)
        · exact .ret _
        · refine (rehearseOn_sequential (calls.rehearse throwaway)).bind ?_
          rintro (_ | _)
          · exact .ret _
          · exact .ret _
    refine hchecks.bind fun result => (calls.teardown db hdb throwaway).bind ?_
    rintro (_ | _)
    · exact .ret _
    · exact .ret _

/-- The preflight makes only these calls, one after the other. -/
theorem runPreflight_sequential (runtime : DeployRuntime) :
    (d.runPreflight runtime).Sequential P := by
  have hready : d.checkReadiness.Sequential P := by
    unfold checkReadiness
    split
    · exact .ret _
    · split
      · exact DatabaseReadiness.check_sequential calls.var (calls.ready _ ‹_›)
      · exact .ret _
  refine hready.bind ?_
  rintro (_ | _)
  · exact .ret _
  · cases hdeep : d.deepRehearsal with
    | none => exact runStaticPreflight_sequential calls none runtime
    | some db =>
        have hdb : d.restoreRehearsal = some db := by
          unfold deepRehearsal at hdeep
          split at hdeep
          · cases hdeep
          · split at hdeep
            · cases hdeep
              assumption
            · cases hdeep
        refine calls.describe.bind ?_
        rintro (_ | described)
        · exact .ret _
        · show (if classifiesDeeply described then d.runDeepPreflight db described runtime
            else d.runStaticPreflight (some described) runtime).Sequential P
          split
          · exact runDeepPreflight_sequential calls hdb described runtime
          · exact runStaticPreflight_sequential calls _ runtime

end Sequential

/-! ## The other steps -/

/-- Stage the artifact. -/
def runFetch (runtime : DeployRuntime) : Prog T (Except SagaError Unit × DeployRuntime) := do
  match ← d.artifact.stage d.callCtx d.host with
  | .error error => return (.error (failed "fetch" error), runtime)
  | .ok staged => return (.ok (), { runtime with staged := some staged })

/-- The context of the migration: its working directory is the staged release, when that
is a local directory. -/
def migrationCtx (runtime : DeployRuntime) : Prog T AdapterCtx :=
  match runtime.staged with
  | none => .ret d.callCtx
  | some staged => do
      if ← d.os.isDir staged.path then return { d.callCtx with workdir := staged.path }
      else return d.callCtx

/-- Move the database: down to the revision of a deliberate rollback, or up. The second
part of the answer is the revision to record. -/
def moveDatabase (ctx : AdapterCtx) (previous : Option Revision) :
    Prog T (Except AdapterError (Option Revision)) :=
  match d.rollbackTo with
  | some target => do
      match ← d.migration.downTo ctx target with
      | .error error => return .error error
      | .ok _ => return .ok (some target)
  | none => do
      match ← d.migration.up ctx d.target with
      | .error error => return .error error
      | .ok outcome => return .ok (outcome.toRevision.or previous)

/-- Migrate, capturing the live revision first. -/
def runMigrate (runtime : DeployRuntime) : Prog T (Except SagaError Unit × DeployRuntime) := do
  let ctx ← d.migrationCtx runtime
  match ← d.migration.currentRevision ctx with
  | .error error => return (.error (failed "migrate" error), runtime)
  | .ok previous =>
    let runtime := { runtime with previousRevision := previous }
    match ← d.moveDatabase ctx previous with
    | .error error => return (.error (failed "migrate" error), runtime)
    | .ok revision => return (.ok (), { runtime with newRevision := revision })

/-- Move the database back: up again after a deliberate rollback, and down otherwise. -/
def moveBack (ctx : AdapterCtx) (previous : Revision) : Prog T (Except AdapterError Unit) := do
  let moved ← if d.rollbackTo.isSome then d.migration.up ctx (some previous)
    else d.migration.downTo ctx previous
  match moved with
  | .error error => return .error error
  | .ok _ => return .ok ()

/-- Undo whatever the migration did. -/
def undoMigrate (runtime : DeployRuntime) : Prog T (Except SagaError Unit) :=
  if !d.migration.ownsDatabase then .ret (.ok ())
  else
    match runtime.previousRevision with
    | none =>
        .ret (.error (.stepFailed "migrate"
          ("cannot roll back the initial migration: there is no prior revision to return the " ++
           "database to (a failed first-ever deploy has no committed state to restore)")))
    | some previous => do
        let ctx ← d.migrationCtx runtime
        match ← d.moveBack ctx previous with
        | .error error => return .error (failed "migrate" error)
        | .ok () => return .ok ()

/-- Activate the staged artifact. -/
def runActivate (runtime : DeployRuntime) : Prog T (Except SagaError Unit) :=
  match runtime.staged with
  | none =>
      .ret (.error (.stepFailed "activate" "no staged artifact to activate (fetch did not run)"))
  | some staged => do
      match ← d.artifact.activate d.callCtx d.host staged with
      | .error error => return .error (failed "activate" error)
      | .ok () => return .ok ()

/-- Restart the service. -/
def runRestart : Prog T (Except SagaError Unit) := do
  match ← d.service.restart d.callCtx d.host with
  | .error error => return .error (failed "restart" error)
  | .ok () => return .ok ()

/-- Re-activate the release of the ledger, then restart it. -/
def undoActivate (prior : DeployRecord) : Prog T (Except SagaError Unit) :=
  match prior.active with
  | some previous => do
      match ← d.artifact.activate d.callCtx d.host previous with
      | .error error => return .error (failed "activate" error)
      | .ok () =>
        match ← d.service.restart d.callCtx d.host with
        | .error error => return .error (failed "activate" error)
        | .ok () => return .ok ()
  | none =>
      .ret (.error (.stepFailed "activate"
        ("cannot roll back artifact activation: no previously-active artifact is recorded (a " ++
         "failed first-ever deploy has no prior release to restore)")))

/-- Check the host's health. -/
def runHealth : Prog T (Except SagaError Unit) := do
  match ← d.health.check d.callCtx d.host with
  | .error error => return .error (failed "health" error)
  | .ok status =>
    if status.healthy then return .ok ()
    else
      let detail := (status.detail.map fun text => s!": {text}").getD ""
      return .error (.stepFailed "health" s!"health check reported the host unhealthy{detail}")

/-- Verify what was deployed. -/
def runVerify : Prog T (Except SagaError Unit) := do
  match ← d.migration.verify d.callCtx with
  | .error error => return .error (failed "verify" error)
  | .ok report =>
    if report.ok then return .ok ()
    else return .error (.stepFailed "verify" report.failureMessage)

/-! ## The saga -/

/-- The phases of a deploy. -/
inductive Phase where
  | preflight
  | fetch
  | migrate
  | activate
  | restart
  | health
  | verify
deriving DecidableEq

/-- The step name of a phase. -/
def Phase.stepName : Phase → String
  | .preflight => "preflight"
  | .fetch => "fetch"
  | .migrate => "migrate"
  | .activate => "activate"
  | .restart => "restart"
  | .health => "health"
  | .verify => "verify"

/-- An action that leaves the run state alone. -/
def keeping (runtime : DeployRuntime) (action : Prog T (Except SagaError Unit)) :
    Prog T (Except SagaError Unit × DeployRuntime) := do
  let result ← action
  return (result, runtime)

/-- What a phase does. -/
def forward (phase : Phase) (runtime : DeployRuntime) :
    Prog T (Except SagaError Unit × DeployRuntime) :=
  match phase with
  | .preflight => d.runPreflight runtime
  | .fetch => d.runFetch runtime
  | .migrate => d.runMigrate runtime
  | .activate => keeping runtime (d.runActivate runtime)
  | .restart => keeping runtime d.runRestart
  | .health => keeping runtime d.runHealth
  | .verify => keeping runtime d.runVerify

/-- How a phase is undone. -/
def compensate (prior : DeployRecord) (phase : Phase) (runtime : DeployRuntime) :
    Prog T (Except SagaError Unit × DeployRuntime) :=
  match phase with
  | .migrate => keeping runtime (d.undoMigrate runtime)
  | .activate => keeping runtime (d.undoActivate prior)
  | _ => .ret (.ok (), runtime)

/-- The step of a phase. -/
def step (prior : DeployRecord) (phase : Phase) : Step T DeployRuntime where
  name := phase.stepName
  forward _ runtime := d.forward phase runtime
  compensate _ runtime := d.compensate prior phase runtime

/-- The steps of a deploy. -/
def steps (prior : DeployRecord) : List (Step T DeployRuntime) :=
  [.preflight, .fetch, .migrate, .activate, .restart, .health, .verify].map (d.step prior)

/-- The pair a deploy targets. -/
def key : FraiseKey :=
  ⟨d.fraise, d.environment⟩

/-- The record a snapshot holds, the default one when there is none. -/
def priorRecord : Option Data.Json → Option DeployRecord
  | none => some .default
  | some value => DeployRecord.decode value

/-- Run the deploy: read the prior record, run the saga and record the new release when it
committed. -/
def runReporting [CharTables] : Prog (StoreSig.sum T) (Except DeployError DeployRun) := do
  match ← store (.currentSnapshot d.key) with
  | .error error => return .error (.store error)
  | .ok snapshot =>
    match priorRecord snapshot with
    | none => return .error .ledger
    | some prior =>
      match ← runWithState d.key (d.steps prior) .default with
      | (.error error, _) => return .error (.saga error)
      | (.ok .committed, runtime) =>
        match ← store (.recordSnapshot d.key runtime.committedRecord.encode) with
        | .error error => return .error (.store error)
        | .ok _ => return .ok ⟨.committed, runtime.warnings⟩
      | (.ok outcome, runtime) => return .ok ⟨outcome, runtime.warnings⟩

/-- Run the deploy and return how its saga ended. -/
def run [CharTables] : Prog (StoreSig.sum T) (Except DeployError SagaOutcome) := do
  match ← d.runReporting with
  | .error error => return .error error
  | .ok run => return .ok run.outcome

end SingleHostDeploy

end Fraisier.Core
