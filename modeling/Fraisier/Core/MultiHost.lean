import Fraisier.Core.Ledger
import Fraisier.Core.Policy
import Fraisier.Effect.Parallel

/-!
# The multi-host deploy

One saga over a fleet: preflight, fetch and migrate once, one rollout step per batch
of hosts and a global verify. Hosts of a batch advance concurrently through
`drain → activate → restart → health → reattach`; a batch that fails restores its own
hosts inside its forward step, and the saga compensates the earlier batches and the
migration.
-/

namespace Fraisier.Core

open Fraisier.Effect Fraisier.Saga

variable {T : Sig}

/-- One inventory entry. -/
structure HostEntry where
  host : HostId
  address : String
deriving DecidableEq

/-- How the hosts are advanced. -/
inductive RolloutStrategy where
  | allAtOnce
  | rolling (size : Nat)
deriving DecidableEq

/-- The rest of an open chunk of at most `room` more items, and the chunks after it. -/
def chunksFrom {α : Type} (size : Nat) : Nat → List α → List α × List (List α)
  | _, [] => ([], [])
  | 0, x :: xs =>
      let rest := chunksFrom size (size - 1) xs
      ([], (x :: rest.1) :: rest.2)
  | room + 1, x :: xs =>
      let rest := chunksFrom size room xs
      (x :: rest.1, rest.2)

/-- Consecutive chunks of `size` items, the last one possibly shorter. -/
def chunks {α : Type} (size : Nat) : List α → List (List α)
  | [] => []
  | x :: xs =>
      let rest := chunksFrom size (size - 1) xs
      (x :: rest.1) :: rest.2

/-- Split the inventory into the batches a strategy advances together. -/
def planBatches (strategy : RolloutStrategy) (inventory : List HostEntry) :
    List (List HostEntry) :=
  match strategy with
  | .allAtOnce => [inventory]
  | .rolling size => chunks (max size 1) inventory

theorem chunksFrom_flatten {α : Type} (size room : Nat) (xs : List α) :
    (chunksFrom size room xs).1 ++ (chunksFrom size room xs).2.flatten = xs := by
  induction xs generalizing room with
  | nil => cases room <;> rfl
  | cons x xs ih => cases room <;> simp [chunksFrom, ih]

/-- The batches cover the inventory in its order. -/
theorem planBatches_flatten (strategy : RolloutStrategy) (inventory : List HostEntry) :
    (planBatches strategy inventory).flatten = inventory := by
  cases strategy with
  | allAtOnce => simp [planBatches]
  | rolling size =>
      cases inventory with
      | nil => rfl
      | cons x xs => simp [planBatches, chunks, chunksFrom_flatten]

/-- How far one host got through its rollout. -/
structure HostProgress where
  drained : Option LbMembership
  activated : Bool
  reattached : Bool
deriving DecidableEq

/-- A host that was not touched. -/
def HostProgress.default : HostProgress :=
  ⟨none, false, false⟩

/-- The run state of a multi-host deploy. -/
structure RolloutRuntime where
  staged : List (HostId × StagedArtifact)
  previousRevision : Option Revision
  newRevision : Option Revision
  progress : List (HostId × HostProgress)
  unrecoverable : Option String

/-- The run state a deploy starts with. -/
def RolloutRuntime.default : RolloutRuntime :=
  ⟨[], none, none, [], none⟩

/-- How far a host got, as the run state knows it. -/
def RolloutRuntime.progressOf (runtime : RolloutRuntime) (host : HostId) : HostProgress :=
  (runtime.progress.lookup host).getD .default

/-- A clean rollback that left a host unrecoverable is reported as a partial one. -/
def RolloutRuntime.finalize (runtime : RolloutRuntime) : SagaOutcome → SagaOutcome
  | .rolledBack failedStep reason =>
      match runtime.unrecoverable with
      | some detail =>
          .partialRollback (s!"rollback after '{failedStep}' failed left a host unrecoverable: " ++
                            s!"{detail} (original failure: {reason})")
      | none => .rolledBack failedStep reason
  | outcome => outcome

/-- The ledger entry to persist on a commit. -/
def RolloutRuntime.committedRecord (runtime : RolloutRuntime) : MultiHostRecord :=
  ⟨runtime.staged, runtime.newRevision⟩

/-- A configured multi-host deploy. -/
structure MultiHostDeploy (T : Sig) where
  fraise : String
  environment : String
  strategy : RolloutStrategy
  inventory : List HostEntry
  ctx : AdapterCtx
  target : Option Revision
  forwardCompatibleLint : Bool
  policy : PolicyGate T
  databaseReadiness : Option (DatabaseReadiness T)
  os : Os T
  artifact : ArtifactAdapter T
  migration : MigrationAdapter T
  service : ServiceAdapter T
  health : HealthAdapter T
  lb : LbAdapter T

/-- A rollout failure tagged with the host and the operation that failed. -/
def hostFailed (host : HostId) (operation : String) (error : AdapterError) : SagaError :=
  .stepFailed "rollout" s!"host {host} {operation}: {error}"

/-- The error of a failed result. -/
def errorOf {ε α : Type} : Except ε α → Option ε
  | .error e => some e
  | .ok _ => none

/-- The failures among the results of concurrent tasks: none is a success, and several
are reported together. -/
def failures {α : Type} (step : String) (summary : Nat → String → String)
    (results : List (Except String α)) : Except SagaError Unit :=
  match results.filterMap errorOf with
  | [] => .ok ()
  | errors => .error (.stepFailed step (summary errors.length ("; ".intercalate errors)))

namespace MultiHostDeploy

variable (d : MultiHostDeploy T)

/-- The per-host call context: the base context with the host and its address set. -/
def hostCtx (entry : HostEntry) : AdapterCtx :=
  { d.ctx with
    host := some entry.host
    settings := Data.insertEntry d.ctx.settings "address" (.str entry.address) }

/-- Ask the migration adapter what it can do and run its preflight, unless the operator
opted out. -/
def inspect : Prog T (Except SagaError Inspection) :=
  if !d.forwardCompatibleLint then .ret (.ok .default)
  else do
    match ← Core.inspect d.migration d.ctx with
    | .error error => return .error (failed "preflight" error)
    | .ok inspection => return .ok inspection

/-- Apply the schema policy gate, which has no baseline here. -/
def runPolicyGate (inspection : Inspection) : Prog T (Except SagaError Unit) := do
  match ← d.policy.admit .none inspection.capabilities inspection.report d.ctx with
  | .error reason => return .error (.stepFailed "preflight" reason)
  | .ok () => return .ok ()

/-- Refuse a report with blocking findings. -/
def runForwardCompatLint (inspection : Inspection) : Except SagaError Unit :=
  match inspection.report with
  | none => .ok ()
  | some report =>
      let blocking := (report.issues.filter fun issue => issue.severity == .error).length
      if 0 < blocking then
        .error (.stepFailed "preflight"
          s!"forward-compatibility preflight found {blocking} blocking issue(s)")
      else .ok ()

/-- Check the database's readiness, if a probe is configured. -/
def checkReadiness : Prog T (Except SagaError Unit) :=
  match d.databaseReadiness with
  | some probe => probe.check d.os d.ctx
  | none => .ret (.ok ())

/-- The part of the preflight that looks at the database: readiness, the policy gate and
the lint. -/
def runDatabaseChecks : Prog T (Except SagaError Unit) := do
  match ← d.checkReadiness with
  | .error error => return .error error
  | .ok () =>
    match ← d.inspect with
    | .error error => return .error error
    | .ok inspection =>
      match ← d.runPolicyGate inspection with
      | .error error => return .error error
      | .ok () => return runForwardCompatLint inspection

/-- The database checks make only the calls of their probes, one after the other. -/
theorem runDatabaseChecks_sequential {d : MultiHostDeploy T} {P : T.Cmd → Prop}
    (hvar : ∀ name, (d.os.var name).Sequential P)
    (hready : ∀ probe, d.databaseReadiness = some probe →
      ∀ dsn, (probe.unready dsn).Sequential P)
    (hdescribe : d.migration.describe.Sequential P)
    (hpreflight : (d.migration.preflight d.ctx).Sequential P)
    (hhook : ∀ hook, d.policy.hook = some hook → ∀ request, (hook request).Sequential P) :
    d.runDatabaseChecks.Sequential P := by
  have hcheck : d.checkReadiness.Sequential P := by
    unfold checkReadiness
    split
    · exact DatabaseReadiness.check_sequential hvar (hready _ ‹_›)
    · exact .ret _
  have hinspect : d.inspect.Sequential P := by
    unfold inspect
    split
    · exact .ret _
    · refine (inspect_sequential hdescribe hpreflight).bind ?_
      rintro (_ | _)
      · exact .ret _
      · exact .ret _
  refine hcheck.bind ?_
  rintro (_ | _)
  · exact .ret _
  · refine hinspect.bind ?_
    rintro (_ | inspection)
    · exact .ret _
    · have hgate : (d.runPolicyGate inspection).Sequential P := by
        refine (PolicyGate.admit_sequential hhook).bind ?_
        rintro (_ | _)
        · exact .ret _
        · exact .ret _
      refine hgate.bind ?_
      rintro (_ | _)
      · exact .ret _
      · exact .ret _

/-- Probe one host. -/
def probeHost (entry : HostEntry) : Prog T (Except String Unit) := do
  match ← d.service.status (d.hostCtx entry) entry.host with
  | .ok _ => return .ok ()
  | .error error => return .error s!"{entry.host}: {error}"

/-- Preflight: the database checks, then a reachability probe of every host. -/
def runPreflight : Prog T (Except SagaError Unit) := do
  match ← d.runDatabaseChecks with
  | .error error => return .error error
  | .ok () =>
    let results ← Prog.joinAll (d.inventory.map d.probeHost)
    return failures "preflight" (fun n hosts => s!"{n} host(s) unreachable: {hosts}") results

/-- Stage the artifact on one host. -/
def stageHost (entry : HostEntry) : Prog T (Except String (HostId × StagedArtifact)) := do
  match ← d.artifact.stage (d.hostCtx entry) entry.host with
  | .ok artifact => return .ok (entry.host, artifact)
  | .error error => return .error s!"{entry.host}: {error}"

/-- The entries staged on the hosts whose staging succeeded. -/
def stagedEntries (results : List (Except String (HostId × StagedArtifact))) :
    List (HostId × StagedArtifact) :=
  (results.filterMap Except.toOption).foldl (fun m e => Data.insertEntry m e.1 e.2) []

/-- Fetch: stage the artifact on every host, recording each staged artifact. -/
def runFetch (runtime : RolloutRuntime) : Prog T (Except SagaError Unit × RolloutRuntime) := do
  let results ← Prog.joinAll (d.inventory.map d.stageHost)
  match failures "fetch" (fun n hosts => s!"{n} host(s) failed to stage: {hosts}") results with
  | .error error => return (.error error, runtime)
  | .ok () => return (.ok (), { runtime with staged := stagedEntries results })

/-- Migrate once, capturing the live revision before `up`. -/
def runMigrate (runtime : RolloutRuntime) : Prog T (Except SagaError Unit × RolloutRuntime) := do
  match ← d.migration.currentRevision d.ctx with
  | .error error => return (.error (failed "migrate" error), runtime)
  | .ok previous =>
    let runtime := { runtime with previousRevision := previous }
    match ← d.migration.up d.ctx d.target with
    | .error error => return (.error (failed "migrate" error), runtime)
    | .ok outcome =>
      return (.ok (), { runtime with newRevision := outcome.toRevision.or previous })

/-- Roll the migration back to the pre-deploy revision. -/
def undoMigrate (runtime : RolloutRuntime) : Prog T (Except SagaError Unit) :=
  if !d.migration.ownsDatabase then .ret (.ok ())
  else
    match runtime.previousRevision with
    | some target => do
        match ← d.migration.downTo d.ctx target with
        | .error error => return .error (failed "migrate" error)
        | .ok _ => return .ok ()
    | none =>
        .ret (.error (.stepFailed "migrate"
          ("cannot roll back the initial migration: there is no prior revision to return the " ++
           "database to (a failed first-ever deploy has no committed state to restore)")))

/-- Probe the health of one host once the whole fleet has advanced. -/
def verifyHost (entry : HostEntry) : Prog T (Except String Unit) := do
  match ← d.health.check (d.hostCtx entry) entry.host with
  | .ok status =>
      if status.healthy then return .ok ()
      else
        let detail := (status.detail.map fun text => s!" ({text})").getD ""
        return .error s!"{entry.host} unhealthy{detail}"
  | .error error => return .error s!"{entry.host}: {error}"

/-- Verify: the migration adapter's own checks, then the health of every host. -/
def runVerify : Prog T (Except SagaError Unit) := do
  match ← d.migration.verify d.ctx with
  | .error error => return .error (failed "verify" error)
  | .ok report =>
    if !report.ok then return .error (.stepFailed "verify" report.failureMessage)
    else
      let results ← Prog.joinAll (d.inventory.map d.verifyHost)
      return failures "verify"
        (fun n hosts => s!"global verify found {n} unhealthy host(s): {hosts}") results

/-- Advance a single host, recording how far it got. -/
def advanceHost (staged : List (HostId × StagedArtifact)) (entry : HostEntry) :
    Prog T (Except SagaError Unit × HostProgress) := do
  let ctx := d.hostCtx entry
  let host := entry.host
  match ← d.lb.drain ctx host with
  | .error error => return (.error (hostFailed host "drain" error), .default)
  | .ok membership =>
    let drained : HostProgress := ⟨some membership, false, false⟩
    match staged.lookup host with
    | none =>
        return (.error (.stepFailed "rollout" s!"no staged artifact recorded for host {host}"),
          drained)
    | some artifact =>
      match ← d.artifact.activate ctx host artifact with
      | .error error => return (.error (hostFailed host "activate" error), drained)
      | .ok () =>
        let activated : HostProgress := ⟨some membership, true, false⟩
        match ← d.service.restart ctx host with
        | .error error => return (.error (hostFailed host "restart" error), activated)
        | .ok () =>
          match ← d.health.check ctx host with
          | .error error => return (.error (hostFailed host "health" error), activated)
          | .ok status =>
            if !status.healthy then
              let detail := (status.detail.map fun text => s!": {text}").getD ""
              return (.error (.stepFailed "rollout"
                s!"host {host} reported unhealthy after restart{detail}"), activated)
            else
              match ← d.lb.reattach ctx host membership with
              | .error error => return (.error (hostFailed host "reattach" error), activated)
              | .ok () => return (.ok (), ⟨some membership, true, true⟩)

/-- Put the prior artifact back on a host that had activated the new one. -/
def restoreArtifact (prior : MultiHostRecord) (entry : HostEntry) :
    Prog T (Except SagaError Unit) := do
  let ctx := d.hostCtx entry
  let host := entry.host
  match prior.active.lookup host with
  | none =>
      return .error (.stepFailed "rollout"
        (s!"cannot restore host {host}: no prior artifact is recorded (a failed first-ever " ++
         "deploy has no prior release to re-activate)"))
  | some artifact =>
    match ← d.artifact.activate ctx host artifact with
    | .error error => return .error (hostFailed host "rollback activate" error)
    | .ok () =>
      match ← d.service.restart ctx host with
      | .error error => return .error (hostFailed host "rollback restart" error)
      | .ok () => return .ok ()

/-- Restore one host to its pre-deploy state, undoing exactly the steps it got through. -/
def restoreHost (prior : MultiHostRecord) (runtime : RolloutRuntime) (entry : HostEntry) :
    Prog T (Except SagaError Unit) := do
  let ctx := d.hostCtx entry
  let host := entry.host
  let progress := runtime.progressOf host
  match progress.drained with
  | none => return .ok ()
  | some membership =>
    let removed ← if progress.reattached then d.lb.drain ctx host else .ret (.ok membership)
    match removed with
    | .error error => return .error (hostFailed host "rollback drain" error)
    | .ok _ =>
      let restored ← if progress.activated then d.restoreArtifact prior entry else .ret (.ok ())
      match restored with
      | .error error => return .error error
      | .ok () =>
        match ← d.lb.reattach ctx host membership with
        | .error error => return .error (hostFailed host "rollback reattach" error)
        | .ok () => return .ok ()

/-- Restore every host of a batch concurrently. -/
def restoreBatch (prior : MultiHostRecord) (batch : List HostEntry) (runtime : RolloutRuntime) :
    Prog T (Except SagaError Unit) := do
  let results ← Prog.joinAll (batch.map (d.restoreHost prior runtime))
  return failures "rollout" (fun n hosts => s!"{n} host(s) could not be restored: {hosts}")
    (results.map (Except.mapError toString))

/-- Merge how far the hosts of a batch got into the run state. -/
def mergeProgress (runtime : RolloutRuntime) (batch : List HostEntry)
    (results : List (Except SagaError Unit × HostProgress)) : RolloutRuntime :=
  { runtime with
    progress := (batch.zip results).foldl
      (fun m e => Data.insertEntry m e.1.host e.2.2) runtime.progress }

/-- Advance one batch. If any host fails, the hosts of the batch are restored before the
failure is surfaced; a restore that itself fails is recorded as unrecoverable. -/
def runRollout (prior : MultiHostRecord) (batch : List HostEntry) (runtime : RolloutRuntime) :
    Prog T (Except SagaError Unit × RolloutRuntime) := do
  let results ← Prog.joinAll (batch.map (d.advanceHost runtime.staged))
  let runtime := mergeProgress runtime batch results
  let advanced := failures "rollout" (fun n hosts => s!"{n} host(s) failed to advance: {hosts}")
    (results.map fun r => r.1.mapError toString)
  match advanced with
  | .ok () => return (.ok (), runtime)
  | .error error =>
    match ← d.restoreBatch prior batch runtime with
    | .ok () => return (.error error, runtime)
    | .error restoreError =>
        return (.error error,
          { runtime with
            unrecoverable := runtime.unrecoverable.or (some (toString restoreError)) })

/-! ## The saga -/

/-- A step that does not touch the run state and has nothing to undo. -/
def readOnlyStep (name : String) (action : Prog T (Except SagaError Unit)) :
    Step T RolloutRuntime where
  name := name
  forward _ runtime := do
    let result ← action
    return (result, runtime)
  compensate _ runtime := .ret (.ok (), runtime)

/-- The preflight step. -/
def preflightStep : Step T RolloutRuntime :=
  readOnlyStep "preflight" d.runPreflight

/-- The fetch step. -/
def fetchStep : Step T RolloutRuntime where
  name := "fetch"
  forward _ runtime := d.runFetch runtime
  compensate _ runtime := .ret (.ok (), runtime)

/-- The migrate step. -/
def migrateStep : Step T RolloutRuntime where
  name := "migrate"
  forward _ runtime := d.runMigrate runtime
  compensate _ runtime := do
    let result ← d.undoMigrate runtime
    return (result, runtime)

/-- The rollout step of one batch. -/
def rolloutStep (prior : MultiHostRecord) (index : Nat) (batch : List HostEntry) :
    Step T RolloutRuntime where
  name := s!"rollout-{index}"
  forward _ runtime := d.runRollout prior batch runtime
  compensate _ runtime := do
    let result ← d.restoreBatch prior batch runtime
    return (result, runtime)

/-- The verify step. -/
def verifyStep : Step T RolloutRuntime :=
  readOnlyStep "verify" d.runVerify

/-- The steps of a deploy: the fixed phases with one rollout step per batch. -/
def steps (prior : MultiHostRecord) : List (Step T RolloutRuntime) :=
  [d.preflightStep, d.fetchStep, d.migrateStep] ++
    (planBatches d.strategy d.inventory).zipIdx.map (fun b => d.rolloutStep prior (b.2 + 1) b.1) ++
    [d.verifyStep]

/-- The pair a deploy targets. -/
def key : FraiseKey :=
  ⟨d.fraise, d.environment⟩

/-- Errors from running a multi-host deploy: infrastructure failures only. -/
inductive Error where
  | saga (error : SagaError)
  | store (error : StateStoreError)
  | ledger

/-- The record a snapshot holds, the default one when there is none. -/
def priorRecord : Option Data.Json → Option MultiHostRecord
  | none => some .default
  | some value => MultiHostRecord.decode value

/-- Run the deploy: read the prior record, run the saga and record the new release when it
committed. -/
def run [CharTables] : Prog (StoreSig.sum T) (Except Error SagaOutcome) := do
  match ← store (.currentSnapshot d.key) with
  | .error error => return .error (.store error)
  | .ok snapshot =>
    match priorRecord snapshot with
    | none => return .error .ledger
    | some prior =>
      match ← runWithState d.key (d.steps prior) .default with
      | (.error error, _) => return .error (.saga error)
      | (.ok sagaOutcome, runtime) =>
        match runtime.finalize sagaOutcome with
        | .committed =>
          match ← store (.recordSnapshot d.key runtime.committedRecord.encode) with
          | .error error => return .error (.store error)
          | .ok _ => return .ok .committed
        | outcome => return .ok outcome

end MultiHostDeploy

end Fraisier.Core
