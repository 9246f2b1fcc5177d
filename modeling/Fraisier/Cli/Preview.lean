import Fraisier.Core.Policy
import Fraisier.Core.Rehearsal
import Fraisier.Saga.Redact

/-!
# The preview of a deploy

What `deploy --dry-run` says about the pending schema change. `previewSchema` inspects the
migration adapter the way the deploy would and folds the result into a plan; the verdict
comes from the decision function of the live gate, and the approval hook is out of reach.
A preview never fails: what cannot be inspected is a plan that says why.
-/

namespace Fraisier.Cli

open Fraisier.Effect Fraisier.Core Fraisier.Saga

variable {T : Sig}

/-! ## The plan -/

/-- Which migrations a preflight judged. -/
inductive Scope where
  | pending
  | all
deriving DecidableEq

/-- Whether a classification read the current schema of the live data. -/
inductive ClassificationKind where
  | deep
  | static
deriving DecidableEq

/-- How a rehearsed preview classified the pending changes. -/
structure Classification where
  kind : ClassificationKind
  detail : String
deriving DecidableEq

/-- How far a dry run may go to classify. -/
inductive Depth where
  | static
  | deep
deriving DecidableEq

/-- The change-set as a plan renders it. -/
structure ChangeSetPreview where
  contractVersion : Nat
  adapter : String
  adapterVersion : String
  changes : List SchemaChange
deriving DecidableEq

/-- Why a dry run has no change-set to show. -/
structure Unavailable where
  code : String
  detail : String
deriving DecidableEq

namespace Unavailable

/-- The operator turned preflight off for this run. -/
def skipped : String := "preflight_skipped"

/-- The configuration turned every preflight off. -/
def preflightOff : String := "preflight_off"

/-- The migration adapter could not be built at all. -/
def adapterUnavailable : String := "adapter_unavailable"

/-- The adapter does not advertise a preflight. -/
def noPreflightCapability : String := "no_preflight_capability"

/-- The adapter could not be asked. -/
def preflightFailed : String := "preflight_failed"

/-- The adapter lints but does not classify. -/
def noRiskTierCapability : String := "no_risk_tier_capability"

/-- The adapter claimed to classify and did not. -/
def noChangeSet : String := "no_change_set"

/-- The change-set is written to a contract this build cannot read. -/
def unreadableChangeSet : String := "unreadable_change_set"

end Unavailable

/-- A decision of the gate, flattened. -/
inductive Verdict where
  | allow
  | needsApproval
  | deny
deriving DecidableEq

/-- What the gate would decide, computed without asking anyone. -/
structure PolicyPreview where
  decision : Verdict
  worstTier : Option RiskTier
  reason : Option String
  reasons : List PolicyReason
  approvalCommand : Option String
deriving DecidableEq

/-- The adapter's window-safety verdict. -/
inductive WindowSafety where
  | safe
  | notSafe
  | unknown
deriving DecidableEq

/-- Read the adapter's verdict: none is unknown. -/
def WindowSafety.of (report : Option PreflightReport) : WindowSafety :=
  match report.bind PreflightReport.windowSafe with
  | some true => .safe
  | some false => .notSafe
  | none => .unknown

/-- The schema half of a plan. -/
structure SchemaPreview where
  changeSet : Option ChangeSetPreview
  changeSetUnavailable : Option Unavailable
  policy : Option PolicyPreview
  windowSafe : Option WindowSafety
  classification : Option Classification
  scope : Option Scope
deriving DecidableEq

/-- Flatten a decision for the plan. -/
def PolicyPreview.of (decision : PolicyDecision) (approvalCommand : Option String) :
    PolicyPreview :=
  let of (verdict : Verdict) (reason : Option String) (reasons : List PolicyReason) :
      PolicyPreview :=
    { decision := verdict
      worstTier := RiskTier.worst (reasons.filterMap PolicyReason.tier)
      reason := reason
      reasons := reasons
      approvalCommand := approvalCommand.filter fun _ => verdict == .needsApproval }
  match decision with
  | .allow _ => of .allow none []
  | .needsApproval reasons => of .needsApproval none reasons
  | .deny reason reasons => of .deny (some reason) reasons

/-- Whether a plan is one that would not deploy unattended. A plan without a verdict never
blocks. -/
def wouldBlock (preview : SchemaPreview) : Bool :=
  match preview.policy.map PolicyPreview.decision with
  | some .deny => true
  | some .needsApproval => true
  | _ => false

/-! ## Gathering it -/

/-- Fold what was learned into the plan, applying the gate once. -/
def assemble (changeSet : Except Unavailable ChangeSetPreview) (gate : PolicyGate T)
    (approvalCommand : Option String) (baseline : Baseline) (capabilities : Capabilities)
    (report : Option PreflightReport) : SchemaPreview where
  changeSet := changeSet.toOption
  changeSetUnavailable :=
    match changeSet with
    | .ok _ => none
    | .error reason => some reason
  -- Without a policy and without a baseline nothing decides, which is not to allow.
  policy :=
    if gate.policy.isSome || baseline != .none then
      some (.of (evaluate gate.policy baseline capabilities report)
        (approvalCommand.filter fun _ => gate.hook.isSome))
    else none
  windowSafe := if baseline = .windowSafety then some (.of report) else none
  classification := none
  scope := none

/-- The plan for an inspection that could not run. -/
def failed [CharTables] (reason : String) (gate : PolicyGate T) (approvalCommand : Option String)
    (baseline : Baseline) : SchemaPreview :=
  assemble (.error ⟨Unavailable.preflightFailed, Redact.credentials reason⟩) gate approvalCommand
    baseline .none none

/-- The plan for a run that inspected nothing. -/
def notInspected (reason : Unavailable) (gate : PolicyGate T) (approvalCommand : Option String)
    (baseline : Baseline) : SchemaPreview :=
  assemble (.error reason) gate approvalCommand baseline .none none

/-- The change-set of an inspection, or why there is none. -/
def classify (inspection : Inspection) : Except Unavailable ChangeSetPreview :=
  let name := (inspection.adapter.map AdapterDescription.name).getD "the migration adapter"
  let version := (inspection.adapter.map AdapterDescription.version).getD ""
  let named := Data.trimEnd s!"{name} {version}"
  match inspection.report with
  | none =>
      .error ⟨Unavailable.noPreflightCapability,
        s!"{named} does not advertise `preflight`, so nothing inspected the pending schema " ++
        "changes"⟩
  | some report =>
      if !inspection.capabilities.riskTier then
        .error ⟨Unavailable.noRiskTierCapability,
          s!"{named} does not advertise `risk_tier`, so no pending schema change was classified"⟩
      else
        match report.usableChangeSet with
        | .ok changeSet => .ok ⟨changeSet.contractVersion, name, version, changeSet.changes⟩
        | .error .notEmitted =>
            .error ⟨Unavailable.noChangeSet,
              s!"{named} advertises `risk_tier` and emitted no change-set; it claimed to " ++
              "classify and then did not, which is an adapter bug"⟩
        | .error error => .error ⟨Unavailable.unreadableChangeSet, toString error⟩

/-- Whether an adapter judges only the migrations that are pending. -/
def judgesPendingOnly (described : AdapterDescription) : Bool :=
  described.capabilities.any fun capability => capability == "pending_scope"

/-- Fold an inspection, or the error that stopped it, into the plan. -/
def fromInspection [CharTables] (inspected : Except AdapterError Inspection)
    (gate : PolicyGate T) (approvalCommand : Option String) (baseline : Baseline) :
    SchemaPreview :=
  match inspected with
  | .error error =>
      failed s!"the migration adapter could not be inspected: {error}" gate approvalCommand
        baseline
  | .ok inspection =>
      { assemble (classify inspection) gate approvalCommand baseline inspection.capabilities
          inspection.report with
        scope := inspection.report.bind fun _ => inspection.adapter.map fun described =>
          if judgesPendingOnly described then .pending else .all }

/-- Inspect the migration adapter and work out what the deploy would decide. -/
def gather [CharTables] (migration : MigrationAdapter T) (ctx : AdapterCtx) (gate : PolicyGate T)
    (approvalCommand : Option String) (baseline : Baseline) : Prog T SchemaPreview := do
  let inspected ← inspect migration ctx
  return fromInspection inspected gate approvalCommand baseline

/-- Say how a preview classified. -/
def withClassification (preview : SchemaPreview) (kind : ClassificationKind) (detail : String) :
    SchemaPreview :=
  { preview with classification := some ⟨kind, detail⟩ }

/-- Why a rehearsed preview classifies from the migration files alone, if it does. -/
def staticBecause (backup : BackupSource) (described : AdapterDescription) (depth : Depth) :
    Option String :=
  if backup ≠ .freshDump then
    some ("classified statically: an archive-mode rehearsal classifies the migration files " ++
          "alone, because an archive behind live has a different pending set")
  else if !classifiesDeeply described then
    let name := described.name
    let version := described.version
    some (s!"classified statically: {name} {version} does not advertise " ++
          s!"`{deepClassification}`, so a change whose risk depends on the current schema, such " ++
          "as a column type change, stays unclassified")
  else if depth = .static then
    some ("classified statically: a dry run does not dump the live database. The deploy will " ++
          "classify against a fresh copy of it; add `--deep` to preview that classification")
  else none

/-- Gather the plan of a deploy that rehearses on a restored copy. -/
def gatherRehearsed [CharTables] (db : RehearsalDb T) (backup : BackupSource) (os : Os T)
    (migration : MigrationAdapter T) (ctx : AdapterCtx) (gate : PolicyGate T)
    (approvalCommand : Option String) (baseline : Baseline) (depth : Depth) :
    Prog T SchemaPreview := do
  match ← migration.describe with
  | .error error =>
      return failed s!"the migration adapter could not be inspected: {error}" gate
        approvalCommand baseline
  | .ok described =>
    match staticBecause backup described depth with
    | some detail =>
        let inspected ← inspectDescribed migration ctx described
        return withClassification (fromInspection inspected gate approvalCommand baseline)
          .static detail
    | none =>
      match ← provision db os ctx backup with
      | .error error =>
          return failed ("the throwaway database the deploy classifies against could not be " ++
            s!"provisioned: {error}") gate approvalCommand baseline
      | .ok throwaway =>
          let inspected ← inspectDescribed migration (againstThrowaway ctx throwaway) described
          let detail := "classified against a fresh copy of the live database, as the deploy " ++
            "will classify it"
          let name := throwaway.name
          let detail := match ← db.teardown throwaway with
            | .error error => detail ++ s!"; the throwaway database '{name}' was not dropped " ++
                s!"and must be removed by hand: {error}"
            | .ok () => detail
          return withClassification (fromInspection inspected gate approvalCommand baseline)
            .deep (Redact.credentials detail)

/-- The migration adapter a dry run inspects, and the context it inspects under. -/
structure PreviewTarget (T : Sig) where
  migration : MigrationAdapter T
  ctx : AdapterCtx
  forwardCompatibleLint : Bool
  restoreRehearsal : Option (RehearsalDb T × BackupSource)

/-- Inspect the migration adapter for a dry run, degrading to a plan that says why it could
not. -/
def previewSchema [CharTables] (os : Os T) (gate : PolicyGate T) (approvalCommand : Option String)
    (target : Except String (PreviewTarget T)) (baseline : Baseline) (skipPreflight : Bool)
    (singleHost : Bool) (depth : Depth) : Prog T SchemaPreview :=
  let uninspected (reason : Unavailable) := notInspected reason gate approvalCommand baseline
  if skipPreflight then
    .ret (uninspected ⟨Unavailable.skipped,
      "preflight was skipped for this run (`--skip-preflight`), so nothing inspected the " ++
      "pending schema changes"⟩)
  else
    match target with
    | .error error =>
        .ret (uninspected ⟨Unavailable.adapterUnavailable,
          Redact.credentials s!"the migration adapter could not be built: {error}"⟩)
    | .ok target =>
      if !target.forwardCompatibleLint then
        .ret (uninspected ⟨Unavailable.preflightOff,
          "`[migration].preflight_mode = \"off\"` turns every preflight off, so the deploy " ++
          "itself will not inspect the pending schema changes either"⟩)
      else
        match singleHost, target.restoreRehearsal with
        | true, some (db, backup) =>
            gatherRehearsed db backup os target.migration target.ctx gate approvalCommand
              baseline depth
        | _, _ => gather target.migration target.ctx gate approvalCommand baseline

end Fraisier.Cli
