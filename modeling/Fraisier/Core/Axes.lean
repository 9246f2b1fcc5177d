import Fraisier.Core.BlueGreen
import Fraisier.Core.SingleHost
import Fraisier.Effect.History

/-!
# Deploys seen through their calls

Each method of each axis is a command of `AxisSig`, answered by anything. A deploy over
these axes is fixed by its configuration alone, and the history of a run is the list of
the methods it called, so that what holds for every handler holds for every behaviour of
every adapter.
-/

namespace Fraisier.Core

open Fraisier.Effect Fraisier.Saga

/-- The methods a deploy calls: of the process, the probes, the migration adapter, the
approval hook, the throwaway databases, the artifact, service and health adapters, and of
the traffic and the two fleets. -/
inductive AxisCall where
  | var (name : String)
  | isDir (path : String)
  | unready (dsn : String)
  | describe
  | currentRevision (ctx : AdapterCtx)
  | up (ctx : AdapterCtx) (target : Option Revision)
  | downTo (ctx : AdapterCtx) (target : Revision)
  | verify (ctx : AdapterCtx)
  | preflight (ctx : AdapterCtx)
  | approve (request : ApprovalRequest)
  | provision (dsn : String) (backup : BackupSource)
  | teardown (throwaway : ThrowawayDb)
  | stage (ctx : AdapterCtx) (host : HostId)
  | activate (ctx : AdapterCtx) (host : HostId) (artifact : StagedArtifact)
  | restart (ctx : AdapterCtx) (host : HostId)
  | status (ctx : AdapterCtx) (host : HostId)
  | health (ctx : AdapterCtx) (host : HostId)
  | budget (ctx : AdapterCtx)
  | currentTarget (ctx : AdapterCtx)
  | switchTo (ctx : AdapterCtx) (target : TrafficTarget)
  | provisionGreen (ctx : AdapterCtx)
  | greenHealthy (ctx : AdapterCtx)
  | watchGreen (ctx : AdapterCtx) (hold : Nat)
  | reapGreen (ctx : AdapterCtx)
  | reapBlue (ctx : AdapterCtx)

/-- What each method answers. -/
def AxisCall.Answer : AxisCall → Type
  | .var _ => Except VarError String
  | .isDir _ => Bool
  | .unready _ => Except String (List String)
  | .describe => Except AdapterError AdapterDescription
  | .currentRevision _ => Except AdapterError (Option Revision)
  | .up _ _ => Except AdapterError MigrationOutcome
  | .downTo _ _ => Except AdapterError MigrationOutcome
  | .verify _ => Except AdapterError VerifyReport
  | .preflight _ => Except AdapterError PreflightReport
  | .approve _ => ApprovalVerdict
  | .provision _ _ => Except RehearsalError ThrowawayDb
  | .teardown _ => Except String Unit
  | .stage _ _ => Except AdapterError StagedArtifact
  | .activate _ _ _ => Except AdapterError Unit
  | .restart _ _ => Except AdapterError Unit
  | .status _ _ => Except AdapterError ServiceStatus
  | .health _ _ => Except AdapterError HealthStatus
  | .budget _ => Except String BudgetSnapshot
  | .currentTarget _ => Except AdapterError TrafficTarget
  | .switchTo _ _ => Except AdapterError SwapToken
  | .provisionGreen _ => Except String Unit
  | .greenHealthy _ => Bool
  | .watchGreen _ _ => Except String Unit
  | .reapGreen _ => Except String Unit
  | .reapBlue _ => Except String Unit

/-- The axes as a signature. -/
@[reducible] def AxisSig : Sig where
  Cmd := AxisCall
  Ans := AxisCall.Answer

/-- Call one method. -/
def axis (c : AxisCall) : Prog AxisSig c.Answer :=
  @Prog.perform AxisSig c

namespace Axes

def os : Os AxisSig where
  var name := axis (.var name)
  isDir path := axis (.isDir path)

def migration (ownsDatabase : Bool) : MigrationAdapter AxisSig where
  describe := axis .describe
  currentRevision ctx := axis (.currentRevision ctx)
  up ctx target := axis (.up ctx target)
  downTo ctx target := axis (.downTo ctx target)
  verify ctx := axis (.verify ctx)
  preflight ctx := axis (.preflight ctx)
  ownsDatabase := ownsDatabase

def readiness : DatabaseReadiness AxisSig where
  unready dsn := axis (.unready dsn)

def rehearsal : RehearsalDb AxisSig where
  provision dsn backup := axis (.provision dsn backup)
  teardown throwaway := axis (.teardown throwaway)

def artifact : ArtifactAdapter AxisSig where
  stage ctx host := axis (.stage ctx host)
  activate ctx host artifact := axis (.activate ctx host artifact)

def service : ServiceAdapter AxisSig where
  restart ctx host := axis (.restart ctx host)
  status ctx host := axis (.status ctx host)

def health : HealthAdapter AxisSig where
  check ctx host := axis (.health ctx host)

def budget : ConnectionBudget AxisSig where
  probe ctx := axis (.budget ctx)

def traffic : TrafficDirector AxisSig where
  currentTarget ctx := axis (.currentTarget ctx)
  switchTo ctx target := axis (.switchTo ctx target)

def fleet : FleetOps AxisSig where
  provisionGreen ctx := axis (.provisionGreen ctx)
  greenHealthy ctx := axis (.greenHealthy ctx)
  watchGreen ctx hold := axis (.watchGreen ctx hold)
  reapGreen ctx := axis (.reapGreen ctx)
  reapBlue ctx := axis (.reapBlue ctx)

/-- A gate with the given policy, its hook wired or not. -/
def gate (policy : Option Policy) (wired : Bool) : PolicyGate AxisSig where
  policy := policy
  hook := if wired then some fun request => axis (.approve request) else none

/-- No axis can be reached: every method that may fail does. -/
def unreachable : Handler AxisSig Unit := fun c _ =>
  match c with
  | .var _ => (.error .notPresent, ())
  | .isDir _ => (false, ())
  | .greenHealthy _ => (false, ())
  | .approve _ => (.denied "unreachable", ())
  | .unready _ => (.error "unreachable", ())
  | .provision _ _ => (.error (.provision "unreachable"), ())
  | .teardown _ => (.error "unreachable", ())
  | .budget _ => (.error "unreachable", ())
  | .provisionGreen _ => (.error "unreachable", ())
  | .watchGreen _ _ => (.error "unreachable", ())
  | .reapGreen _ => (.error "unreachable", ())
  | .reapBlue _ => (.error "unreachable", ())
  | .describe => (.error (.new .execution "unreachable"), ())
  | .currentRevision _ => (.error (.new .execution "unreachable"), ())
  | .up _ _ => (.error (.new .execution "unreachable"), ())
  | .downTo _ _ => (.error (.new .execution "unreachable"), ())
  | .verify _ => (.error (.new .execution "unreachable"), ())
  | .preflight _ => (.error (.new .execution "unreachable"), ())
  | .stage _ _ => (.error (.new .execution "unreachable"), ())
  | .activate _ _ _ => (.error (.new .execution "unreachable"), ())
  | .restart _ _ => (.error (.new .execution "unreachable"), ())
  | .status _ _ => (.error (.new .execution "unreachable"), ())
  | .health _ _ => (.error (.new .execution "unreachable"), ())
  | .currentTarget _ => (.error (.new .execution "unreachable"), ())
  | .switchTo _ _ => (.error (.new .execution "unreachable"), ())

end Axes

/-! ## The calls of a gate that passed -/

/-- The calls that resolve a secret to a value. -/
inductive Resolved (ctx : AdapterCtx) (logical value : String) : List (Event AxisSig) → Prop
  | held (hheld : ctx.resolvedSecrets.lookup logical = some value) :
      Resolved ctx logical value []
  | read {source : String} (hnone : ctx.resolvedSecrets.lookup logical = none)
      (hsource : ctx.envSecrets.lookup logical = some source) :
      Resolved ctx logical value [⟨.var source, .ok value⟩]

/-- The database was asked and found ready. -/
def FoundReady (ctx : AdapterCtx) (calls : List (Event AxisSig)) : Prop :=
  ∃ dsn read, Resolved ctx databaseUrlSecret dsn read ∧ calls = read ++ [⟨.unready dsn, .ok []⟩]

/-- The migration adapter that described itself was inspected. -/
inductive Linted (ctx : AdapterCtx) (described : AdapterDescription) :
    Inspection → List (Event AxisSig) → Prop
  | reported {report : PreflightReport}
      (hlints : (Capabilities.fromAdvertised described.capabilities).preflight = true) :
      Linted ctx described
        ⟨some described, .fromAdvertised described.capabilities, some report⟩
        [⟨.preflight ctx, .ok report⟩]
  | silent (hlints : (Capabilities.fromAdvertised described.capabilities).preflight = false) :
      Linted ctx described ⟨some described, .fromAdvertised described.capabilities, none⟩ []

/-- The migration adapter was asked to describe itself and inspected. -/
def Inspected (ctx : AdapterCtx) (inspection : Inspection) (calls : List (Event AxisSig)) : Prop :=
  ∃ described lint, Linted ctx described inspection lint ∧
    calls = ⟨.describe, .ok described⟩ :: lint

/-- The gate let an inspection through: on its own, or with the hook's approval. -/
inductive LetThrough (policy : Option Policy) (wired : Bool) (baseline : Baseline)
    (ctx : AdapterCtx) (inspection : Inspection) : List (Event AxisSig) → Prop
  | allowed {changes : Nat}
      (hallow : evaluate policy baseline inspection.capabilities inspection.report =
        .allow changes) :
      LetThrough policy wired baseline ctx inspection []
  | approved {reasons : List PolicyReason} {approver : String}
      (hneeds : evaluate policy baseline inspection.capabilities inspection.report =
        .needsApproval reasons)
      (hwired : wired = true) :
      LetThrough policy wired baseline ctx inspection
        [⟨.approve (.new ctx.fraise ctx.environment reasons), .approved approver⟩]

/-- Nothing gets through the gate that the always-on rule refuses. -/
theorem LetThrough.baseline {policy : Option Policy} {wired : Bool} {baseline : Baseline}
    {ctx : AdapterCtx} {inspection : Inspection} {calls : List (Event AxisSig)}
    (h : LetThrough policy wired baseline ctx inspection calls) :
    baselineVerdict baseline inspection.capabilities inspection.report = none := by
  have hrefused : ∀ reason,
      baselineVerdict baseline inspection.capabilities inspection.report = some reason →
        evaluate policy baseline inspection.capabilities inspection.report = .deny reason [] := by
    intro reason hreason
    simp only [evaluate, hreason]
  cases hverdict : baselineVerdict baseline inspection.capabilities inspection.report with
  | none => rfl
  | some reason =>
      cases h with
      | allowed hallow =>
          rw [hrefused reason hverdict] at hallow
          cases hallow
      | approved hneeds _ =>
          rw [hrefused reason hverdict] at hneeds
          cases hneeds

/-- A check that returns a value did so after calls that satisfy `A`. -/
def Passes {ε α : Type} (A : α → List (Event AxisSig) → Prop) :
    Except ε α → List (Event AxisSig) → Prop
  | .ok a, calls => A a calls
  | .error _, _ => True

theorem secret_yields (ctx : AdapterCtx) (logical : String) :
    (ctx.secret Axes.os logical).Yields (Passes (Resolved ctx logical)) := by
  unfold AdapterCtx.secret
  cases hheld : ctx.resolvedSecrets.lookup logical with
  | some value => exact .held hheld
  | none =>
      cases hsource : ctx.envSecrets.lookup logical with
      | none => trivial
      | some source =>
          refine .bind (.perform ?_)
          intro x
          cases x with
          | error cause => trivial
          | ok value => exact .read hheld hsource

theorem readiness_yields (ctx : AdapterCtx) :
    (Axes.readiness.check Axes.os ctx).Yields (Passes fun _ => FoundReady ctx) := by
  refine .bind ((secret_yields ctx databaseUrlSecret).mono ?_)
  intro secret read hread
  cases secret with
  | error error => trivial
  | ok dsn =>
      refine .bind (.perform ?_)
      intro x
      rcases x with error | (_ | ⟨reason, reasons⟩)
      · trivial
      · exact ⟨dsn, read, hread, by simp⟩
      · trivial

theorem inspectDescribed_yields (owns : Bool) (ctx : AdapterCtx)
    (described : AdapterDescription) :
    (inspectDescribed (Axes.migration owns) ctx described).Yields
      (Passes (Linted ctx described)) := by
  simp only [inspectDescribed]
  split
  · rename_i hlints
    refine .bind (.perform ?_)
    intro x
    cases x with
    | error error => trivial
    | ok report => exact .reported hlints
  · rename_i hlints
    exact .silent (Bool.not_eq_true _ ▸ hlints)

theorem inspect_yields (owns : Bool) (ctx : AdapterCtx) :
    (inspect (Axes.migration owns) ctx).Yields (Passes (Inspected ctx)) := by
  refine .bind (.perform ?_)
  intro x
  cases x with
  | error error => trivial
  | ok described =>
      refine (inspectDescribed_yields owns ctx described).mono ?_
      intro inspection lint hlint
      cases inspection with
      | error error => trivial
      | ok inspection => exact ⟨described, lint, hlint, rfl⟩

theorem admit_yields (policy : Option Policy) (wired : Bool) (baseline : Baseline)
    (ctx : AdapterCtx) (inspection : Inspection) :
    ( PolicyGate.admit (Axes.gate policy wired) baseline inspection.capabilities inspection.report
      ctx).Yields (Passes fun _ => LetThrough policy wired baseline ctx inspection) := by
  unfold PolicyGate.admit
  cases hdecision : evaluate (Axes.gate policy wired).policy baseline inspection.capabilities
      inspection.report with
  | allow changes => exact .allowed hdecision
  | deny reason reasons => trivial
  | needsApproval reasons =>
      cases wired with
      | false => trivial
      | true =>
          refine .bind (.perform ?_)
          intro x
          cases x with
          | approved approver => exact .approved hdecision rfl
          | denied reason => trivial

end Fraisier.Core
