import Fraisier.Core.Adapters
import Fraisier.Saga.Engine

/-!
# The policy gate and the readiness check

`evaluate` is the decision function over one preflight report; `PolicyGate.admit` turns
its decision into a verdict, asking the approval hook when the decision needs one.
`inspect` gathers the report and `Readiness.check` probes the database before anything
else in a preflight.
-/

namespace Fraisier.Core

open Fraisier.Effect Fraisier.Saga

variable {T : Sig}

/-- What the policy says to do about one planned change, least restrictive first. -/
inductive PolicyAction where
  | autoApply
  | requireApproval
  | deny
deriving DecidableEq

/-- An action's position in the order of restrictiveness. -/
def PolicyAction.rank : PolicyAction → Nat
  | .autoApply => 0
  | .requireApproval => 1
  | .deny => 2

/-- What the policy does with a change nobody classified. -/
inductive UnclassifiedAction where
  | deny
  | requireApproval
deriving DecidableEq

/-- The action an unclassified change takes. -/
def UnclassifiedAction.toAction : UnclassifiedAction → PolicyAction
  | .deny => .deny
  | .requireApproval => .requireApproval

/-- The resolved policy. A tier absent from `actions` is denied. -/
structure Policy where
  actions : List (RiskTier × PolicyAction)
  unclassified : UnclassifiedAction
  hasApprovalHook : Bool

/-- What a policy says about one change. -/
def Policy.actionFor (policy : Policy) (change : SchemaChange) : PolicyAction :=
  match change.tier with
  | none => policy.unclassified.toAction
  | some tier => (policy.actions.lookup tier).getD .deny

/-- Why the gate decided what it decided. -/
structure PolicyReason where
  tier : Option RiskTier
  object : String
  kind : String
  migration : Option String
deriving DecidableEq

/-- The reason attached to one change. -/
def PolicyReason.forChange (change : SchemaChange) : PolicyReason :=
  ⟨change.tier, change.object, change.kind, change.migration⟩

/-- A reason about the change-set as a whole. -/
def PolicyReason.forChangeSet (kind : String) : PolicyReason :=
  ⟨none, "all pending migrations", kind, none⟩

/-- What the policy gate decided. -/
inductive PolicyDecision where
  | allow (changes : Nat)
  | needsApproval (reasons : List PolicyReason)
  | deny (reason : String) (reasons : List PolicyReason)
deriving DecidableEq

/-- What an approval hook is asked to sign off on. -/
structure ApprovalRequest where
  fraise : String
  environment : String
  reasons : List PolicyReason
  worstTier : Option RiskTier
deriving DecidableEq

/-- The request for a decision that needs sign-off. -/
def ApprovalRequest.new (fraise environment : String) (reasons : List PolicyReason) :
    ApprovalRequest where
  fraise := fraise
  environment := environment
  reasons := reasons
  worstTier := RiskTier.worst (reasons.filterMap PolicyReason.tier)

/-- What an approval hook answered. -/
inductive ApprovalVerdict where
  | approved (approver : String)
  | denied (reason : String)
deriving DecidableEq

/-- The capability strings the gate reads. -/
structure Capabilities where
  preflight : Bool
  riskTier : Bool
  windowSafe : Bool
deriving DecidableEq

/-- No capability at all. -/
def Capabilities.none : Capabilities :=
  ⟨false, false, false⟩

/-- Read the capabilities off an advertised list. -/
def Capabilities.fromAdvertised (capabilities : List String) : Capabilities where
  preflight := capabilities.contains "preflight"
  riskTier := capabilities.contains "risk_tier"
  windowSafe := capabilities.contains "window_safe"

/-- Which always-on rule applies. -/
inductive Baseline where
  | none
  | windowSafety
deriving DecidableEq

/-- The always-on rule's verdict: a reason refuses. -/
def baselineVerdict (baseline : Baseline) (capabilities : Capabilities)
    (report : Option PreflightReport) : Option String :=
  match baseline with
  | .none => .none
  | .windowSafety =>
      if !capabilities.preflight then
        some ("the migration adapter does not advertise `preflight`; nothing can certify " ++
              "the migration window-safe for a two-version blue-green window")
      else if !capabilities.windowSafe then
        some ("the migration adapter does not advertise `window_safe`; it runs the " ++
              "forward-compatibility lint but cannot classify every statement, so a `true` " ++
              "from it would mean *nothing was recognised*, not *nothing is unsafe* — see " ++
              "fraiseql/confiture#206")
      else
        match report with
        | .none => some "no preflight report was produced; cannot certify the window"
        | some report =>
            match report.windowSafe with
            | some true => .none
            | some false =>
                some ("the migration is NOT forward-compatible for a two-version window " ++
                      "(confiture window_safe = false)")
            | .none =>
                some ("the migration adapter returned no window-safety verdict (window_safe); " ++
                      "blue-green needs a confiture release that emits it — see " ++
                      "fraiseql/confiture#154")

/-- The worst of a list of actions. -/
def worstAction : List PolicyAction → PolicyAction
  | [] => .autoApply
  | action :: rest =>
      if action.rank ≤ (worstAction rest).rank then worstAction rest else action

/-- Name one change of a refusal. -/
def PolicyReason.render (reason : PolicyReason) : String :=
  let tier := (reason.tier.map RiskTier.asStr).getD "unclassified"
  s!"{reason.object} ({reason.kind}, {tier})"

/-- Name the changes a refusal is about: the first three, then a count. -/
def summarise (reasons : List PolicyReason) : String :=
  let rest := reasons.length - 3
  let named := (reasons.take 3).map PolicyReason.render
  ", ".intercalate (if 0 < rest then named ++ [s!"and {rest} more"] else named)

/-- Fold the per-change actions into one decision. -/
def assemble (policy : Policy) (triggers : List (PolicyAction × PolicyReason)) (changes : Nat) :
    PolicyDecision :=
  let outcome := worstAction (triggers.map Prod.fst)
  let responsible := (triggers.filter fun t => t.1 == outcome).map Prod.snd
  let count := responsible.length
  let named := summarise responsible
  let reasons := triggers.map Prod.snd
  match outcome with
  | .autoApply => .allow changes
  | .requireApproval =>
      if !policy.hasApprovalHook then
        .deny (s!"approval is required for {named}, but no approval hook is configured " ++
               "(`[policy].approval_command`)") reasons
      else .needsApproval reasons
  | .deny => .deny s!"the policy refuses {count} of {changes} planned schema change(s): {named}"
      reasons

/-- The decision when the change-set as a whole is unclassified. -/
def unclassifiedChangeSet (policy : Policy) (cause kind : String) : PolicyDecision :=
  match policy.unclassified with
  | .deny => .deny cause [.forChangeSet kind]
  | .requireApproval => assemble policy [(.requireApproval, .forChangeSet kind)] 0

/-- Apply a policy to an already-gathered preflight result. -/
def evaluate (policy : Option Policy) (baseline : Baseline) (capabilities : Capabilities)
    (report : Option PreflightReport) : PolicyDecision :=
  match baselineVerdict baseline capabilities report with
  | some reason => .deny reason []
  | none =>
      match policy with
      | none => .allow 0
      | some policy =>
          match report with
          | none =>
              .deny ("no preflight report was produced, so nothing inspected the pending schema " ++
                     "changes; the policy cannot approve what nobody has looked at")
                [.forChangeSet "preflight_not_run"]
          | some report =>
              if !capabilities.riskTier then
                unclassifiedChangeSet policy
                  ("the migration adapter does not advertise `risk_tier`, so no pending schema " ++
                   "change was classified") "no_risk_tier_capability"
              else
                match report.usableChangeSet with
                | .error .notEmitted =>
                    unclassifiedChangeSet policy
                      ("the migration adapter advertises `risk_tier` but emitted no " ++
                       "change-set; it claimed to classify and then did not, which is an " ++
                       "adapter bug")
                      "no_change_set"
                | .error error => .deny (toString error) [.forChangeSet "unreadable_change_set"]
                | .ok changeSet =>
                    let triggers := (changeSet.changes.map fun change =>
                      (policy.actionFor change, PolicyReason.forChange change)).filter
                        fun t => t.1 != .autoApply
                    assemble policy triggers changeSet.changes.length

/-- What the preflight step learned about the migration adapter. -/
structure Inspection where
  adapter : Option AdapterDescription
  capabilities : Capabilities
  report : Option PreflightReport

/-- The inspection of an adapter that was never asked. -/
def Inspection.default : Inspection :=
  ⟨none, .none, none⟩

/-- Run the preflight of an adapter that has described itself, when it advertises one. -/
def inspectDescribed (migration : MigrationAdapter T) (ctx : AdapterCtx)
    (described : AdapterDescription) : Prog T (Except AdapterError Inspection) :=
  let capabilities := Capabilities.fromAdvertised described.capabilities
  if capabilities.preflight then do
    match ← migration.preflight ctx with
    | .error error => return .error error
    | .ok report => return .ok ⟨some described, capabilities, some report⟩
  else .ret (.ok ⟨some described, capabilities, none⟩)

/-- Describe the migration adapter and, when it advertises `preflight`, run it. -/
def inspect (migration : MigrationAdapter T) (ctx : AdapterCtx) :
    Prog T (Except AdapterError Inspection) := do
  match ← migration.describe with
  | .error error => return .error error
  | .ok described => inspectDescribed migration ctx described

/-- The policy gate as wired into a deploy. -/
structure PolicyGate (T : Sig) where
  policy : Option Policy
  hook : Option (ApprovalRequest → Prog T ApprovalVerdict)

/-- Render a refusal. -/
def refuse (reason : String) : String :=
  s!"policy refused: {reason}"

/-- Decide whether a deploy may proceed, resolving approval. -/
def PolicyGate.admit (gate : PolicyGate T) (baseline : Baseline) (capabilities : Capabilities)
    (report : Option PreflightReport) (ctx : AdapterCtx) : Prog T (Except String Unit) :=
  match evaluate gate.policy baseline capabilities report with
  | .allow _ => .ret (.ok ())
  | .deny reason _ => .ret (.error (refuse reason))
  | .needsApproval reasons =>
      match gate.hook with
      | none =>
          .ret (.error (refuse ("approval is required, and the policy declares an approval hook " ++
                                "that was never wired into the deploy")))
      | some hook => do
          match ← hook (.new ctx.fraise ctx.environment reasons) with
          | .approved _ => return .ok ()
          | .denied reason =>
              let summary := summarise reasons
              return .error (refuse s!"approval was refused for {summary}: {reason}")

/-- Map an adapter error into a step failure. -/
def failed (step : String) (error : AdapterError) : SagaError :=
  .stepFailed step (toString error)

/-! ## Readiness -/

/-- The logical name of the secret that holds the database's address. -/
def databaseUrlSecret : String := "DATABASE_URL"

/-- A probe of the live database: every reason it is not ready, or why it could not be
asked. -/
structure DatabaseReadiness (T : Sig) where
  unready : String → Prog T (Except String (List String))

/-- Run a readiness probe as the `preflight` step. -/
def DatabaseReadiness.check (probe : DatabaseReadiness T) (os : Os T) (ctx : AdapterCtx) :
    Prog T (Except SagaError Unit) := do
  match ← ctx.secret os databaseUrlSecret with
  | .error error =>
      return .error (.stepFailed "preflight"
        s!"could not check database readiness: the database DSN is unavailable: {error}")
  | .ok liveDsn =>
    match ← probe.unready liveDsn with
    | .error error =>
        return .error (.stepFailed "preflight" s!"could not check database readiness: {error}")
    | .ok [] => return .ok ()
    | .ok unready =>
        let reasons := "; ".intercalate unready
        return .error (.stepFailed "preflight"
          s!"the database is not ready for this deployable: {reasons}")

/-! ## What the checks may call

None of the checks runs anything concurrently, and each keeps to the calls it is given. -/

section Sequential

variable {P : T.Cmd → Prop}

theorem AdapterCtx.secret_sequential {os : Os T} {ctx : AdapterCtx} {logical : String}
    (hvar : ∀ name, (os.var name).Sequential P) : (ctx.secret os logical).Sequential P := by
  unfold AdapterCtx.secret
  cases ctx.resolvedSecrets.lookup logical with
  | some value => exact .ret _
  | none =>
      cases ctx.envSecrets.lookup logical with
      | none => exact .ret _
      | some source =>
          refine (hvar source).bind ?_
          rintro (_ | _)
          · exact .ret _
          · exact .ret _

theorem DatabaseReadiness.check_sequential {probe : DatabaseReadiness T} {os : Os T}
    {ctx : AdapterCtx} (hvar : ∀ name, (os.var name).Sequential P)
    (hunready : ∀ dsn, (probe.unready dsn).Sequential P) :
    (probe.check os ctx).Sequential P := by
  refine (AdapterCtx.secret_sequential hvar).bind ?_
  rintro (_ | dsn)
  · exact .ret _
  · refine (hunready dsn).bind ?_
    rintro (_ | _ | _)
    · exact .ret _
    · exact .ret _
    · exact .ret _

theorem inspectDescribed_sequential {migration : MigrationAdapter T} {ctx : AdapterCtx}
    (hpreflight : (migration.preflight ctx).Sequential P) (described : AdapterDescription) :
    (inspectDescribed migration ctx described).Sequential P := by
  simp only [inspectDescribed]
  split
  · refine hpreflight.bind ?_
    rintro (_ | _)
    · exact .ret _
    · exact .ret _
  · exact .ret _

theorem inspect_sequential {migration : MigrationAdapter T} {ctx : AdapterCtx}
    (hdescribe : migration.describe.Sequential P)
    (hpreflight : (migration.preflight ctx).Sequential P) :
    (inspect migration ctx).Sequential P := by
  refine hdescribe.bind ?_
  rintro (_ | described)
  · exact .ret _
  · exact inspectDescribed_sequential hpreflight described

theorem PolicyGate.admit_sequential {gate : PolicyGate T} {baseline : Baseline}
    {capabilities : Capabilities} {report : Option PreflightReport} {ctx : AdapterCtx}
    (hhook : ∀ hook, gate.hook = some hook → ∀ request, (hook request).Sequential P) :
    ( gate.admit baseline capabilities report ctx).Sequential P := by
  unfold PolicyGate.admit
  split
  · exact .ret _
  · exact .ret _
  · split
    · exact .ret _
    · rename_i hook heq
      refine (hhook hook heq _).bind ?_
      rintro (_ | _)
      · exact .ret _
      · exact .ret _

end Sequential

end Fraisier.Core
