import Fraisier.Core.Axes
import Fraisier.Saga.Rule

/-!
# The order of a single-host run

A run starts with one of two preflights. The static one inspects the migration adapter
against the live database and rehearses on a throwaway at the end; the deep one provisions
the throwaway first and runs every check on it. `Cleared` lists the calls of either when
it passes. Read `run_in_order` first: nothing is staged, migrated, activated or restarted
before such a list. `run_sweeps` says what becomes of the throwaway.
-/

namespace Fraisier.Core

open Fraisier.Effect Fraisier.Saga

variable {σ τ : Type}

/-- What a single-host deploy is configured with. -/
structure HostSetup where
  fraise : String
  environment : String
  host : HostId
  ctx : AdapterCtx
  target : Option Revision
  rollbackTo : Option Revision
  lints : Bool
  policy : Option Policy
  hookWired : Bool
  rehearses : Bool
  backupSource : BackupSource
  probesReadiness : Bool
  ownsDatabase : Bool

namespace HostSetup

variable (d : HostSetup)

/-- The deploy of a configuration. -/
def deploy : SingleHostDeploy AxisSig where
  fraise := d.fraise
  environment := d.environment
  host := d.host
  ctx := d.ctx
  target := d.target
  rollbackTo := d.rollbackTo
  forwardCompatibleLint := d.lints
  policy := Axes.gate d.policy d.hookWired
  restoreRehearsal := if d.rehearses then some Axes.rehearsal else none
  backupSource := d.backupSource
  databaseReadiness := if d.probesReadiness then some Axes.readiness else none
  os := Axes.os
  artifact := Axes.artifact
  migration := Axes.migration d.ownsDatabase
  service := Axes.service
  health := Axes.health

@[simp] theorem deploy_rollbackTo : d.deploy.rollbackTo = d.rollbackTo := rfl

@[simp] theorem deploy_lints : d.deploy.forwardCompatibleLint = d.lints := rfl

@[simp] theorem deploy_backupSource : d.deploy.backupSource = d.backupSource := rfl

@[simp] theorem deploy_readiness : d.deploy.databaseReadiness =
    if d.probesReadiness then some Axes.readiness else none := rfl

@[simp] theorem deploy_rehearsal : d.deploy.restoreRehearsal =
    if d.rehearses then some Axes.rehearsal else none := rfl

/-- The context of the run's calls. -/
def callCtx : AdapterCtx :=
  d.deploy.callCtx

/-- A run that rehearses from a fresh dump, lints and goes forward classifies deeply, if
its adapter can. -/
def Deep : Prop :=
  d.rehearses = true ∧ d.lints = true ∧ d.rollbackTo = none ∧ d.backupSource = .freshDump

/-! ## The calls of a preflight that passed -/

/-- The database was found ready, unless it is not probed or the run is a rollback. -/
def Ready (calls : List (Event AxisSig)) : Prop :=
  if d.probesReadiness = true ∧ d.rollbackTo = none then FoundReady d.callCtx calls
  else calls = []

/-- The adapter was inspected, unless the lint is off. -/
def Examined (inspection : Inspection) (calls : List (Event AxisSig)) : Prop :=
  if d.lints then Inspected d.callCtx inspection calls
  else inspection = .default ∧ calls = []

/-- The policy gate let the inspection through, unless the run is a rollback. -/
def Gated (inspection : Inspection) (calls : List (Event AxisSig)) : Prop :=
  if d.rollbackTo = none then LetThrough d.policy d.hookWired .none d.callCtx inspection calls
  else calls = []

/-- The lint has no blocking finding. -/
def Unblocked (inspection : Inspection) : Prop :=
  ∀ report, inspection.report = some report → ∀ issue ∈ report.issues, issue.severity ≠ .error

/-- A throwaway was provisioned. -/
def Seeded (throwaway : ThrowawayDb) (calls : List (Event AxisSig)) : Prop :=
  ∃ dsn read, Resolved d.callCtx databaseUrlSecret dsn read ∧
    calls = read ++ [⟨.provision dsn d.backupSource, .ok throwaway⟩]

/-- The pending migrations applied on a throwaway, which was then torn down, unless
nothing is rehearsed or the run is a rollback. -/
def Rehearsed (calls : List (Event AxisSig)) : Prop :=
  if d.rehearses = true ∧ d.rollbackTo = none then
    ∃ throwaway seeded outcome torn, d.Seeded throwaway seeded ∧
      calls = seeded ++ [⟨.up (onThrowaway d.callCtx throwaway) none, .ok outcome⟩,
        ⟨.teardown throwaway, torn⟩]
  else calls = []

/-- The calls of a preflight that passed. -/
inductive Cleared : List (Event AxisSig) → Prop
  | static {ready examined gated rehearsed : List (Event AxisSig)} {inspection : Inspection}
      (hready : d.Ready ready) (hexamined : d.Examined inspection examined)
      (hgated : d.Gated inspection gated) (hlint : Unblocked inspection)
      (hrehearsed : d.Rehearsed rehearsed) :
      Cleared (ready ++ (examined ++ (gated ++ rehearsed)))
  | deep {ready seeded linted gated : List (Event AxisSig)} {described : AdapterDescription}
      {throwaway : ThrowawayDb} {inspection : Inspection} {outcome : MigrationOutcome}
      {torn : Except String Unit} (hdeep : d.Deep) (hready : d.Ready ready)
      (hclassifies : classifiesDeeply described = true) (hseeded : d.Seeded throwaway seeded)
      (hlinted : Linted (againstThrowaway d.callCtx throwaway) described inspection linted)
      (hgated : d.Gated inspection gated) (hlint : Unblocked inspection) :
      Cleared (ready ++ (⟨.describe, .ok described⟩ :: (seeded ++ (linted ++ (gated ++
        [⟨.up (onThrowaway d.callCtx throwaway) none, .ok outcome⟩,
          ⟨.teardown throwaway, torn⟩])))))

/-- A preflight has passed. -/
def Clear (calls : List (Event AxisSig)) : Prop :=
  ∃ before rest, calls = before ++ rest ∧ d.Cleared before

/-- A context reaches a throwaway that was provisioned. -/
def OnProvisioned (ctx : AdapterCtx) (calls : List (Event AxisSig)) : Prop :=
  ∃ dsn backup throwaway, (⟨.provision dsn backup, .ok throwaway⟩ : Event AxisSig) ∈ calls ∧
    ∀ (T : Sig) (os : Os T), ctx.secret os databaseUrlSecret = .ret (.ok throwaway.dsn)

/-- What may be called when. -/
def Order : Permit AxisSig := fun calls c =>
  match c with
  | .stage _ _ => d.Clear calls
  | .activate _ _ _ => d.Clear calls
  | .restart _ _ => d.Clear calls
  | .downTo _ _ => d.Clear calls
  | .up ctx _ => d.Clear calls ∨ OnProvisioned ctx calls
  | .preflight _ => ∀ e ∈ calls, ∀ ctx, e.cmd ≠ .preflight ctx
  | _ => True

/-! ## What becomes of a throwaway -/

/-- A call that neither yields a throwaway nor tears one down. -/
def Untouching : Event AxisSig → Prop
  | ⟨.provision _ _, .ok _⟩ => False
  | ⟨.teardown _, _⟩ => False
  | _ => True

/-- The warnings for a throwaway that was not dropped, of the deep and of the static
preflight. -/
def NotDropped (throwaway : ThrowawayDb) (error warning : String) : Prop :=
  warning = leaked throwaway error ∨
    warning = "the restore-rehearsal throwaway database was not dropped " ++
      s!"and must be removed by hand: {error}"

/-- The checks ran on the throwaway itself. -/
def RanDeep (calls : List (Event AxisSig)) : Prop :=
  d.Deep ∧ ∃ described, (⟨.describe, .ok described⟩ : Event AxisSig) ∈ calls ∧
    classifiesDeeply described = true

/-- The rehearsed migration did not fail. -/
def Applied (calls : List (Event AxisSig)) : Prop :=
  ∀ ctx target error, (⟨.up ctx target, .error error⟩ : Event AxisSig) ∉ calls

/-- A preflight provisioned no throwaway, or one that it tore down once, as its last call.
A throwaway that was not dropped is in the warnings, unless a static preflight failed for
the rehearsal itself. -/
inductive Swept : List (Event AxisSig) → List String → Prop
  | untouched {calls : List (Event AxisSig)} (hcalls : ∀ e ∈ calls, Untouching e) :
      Swept calls []
  | torn {before between : List (Event AxisSig)} {dsn : String} {backup : BackupSource}
      {throwaway : ThrowawayDb} {torn : Except String Unit} {warned : List String}
      (hbefore : ∀ e ∈ before, Untouching e) (hbetween : ∀ e ∈ between, Untouching e)
      (hwarned : ∀ error, torn = .error error →
        ((∃ warning ∈ warned, NotDropped throwaway error warning) ↔
          d.RanDeep before ∨ Applied between)) :
      Swept (before ++ ⟨.provision dsn backup, .ok throwaway⟩ :: (between ++
        [⟨.teardown throwaway, torn⟩])) warned

/-! ## The gates -/

/-- The calls that only look. -/
def Probe : AxisCall → Prop
  | .var _ => True
  | .unready _ => True
  | .describe => True
  | .approve _ => True
  | _ => False

variable {d}

theorem order_of_probe (calls : List (Event AxisSig)) {c : AxisCall} (hc : Probe c) :
    d.Order calls c := by
  cases c <;> trivial

theorem untouching_of_probe {e : Event AxisSig} (he : Probe e.cmd) : Untouching e := by
  obtain ⟨cmd, ans⟩ := e
  cases cmd <;> trivial

theorem not_preflight_of_probe {e : Event AxisSig} (he : Probe e.cmd) (ctx : AdapterCtx) :
    e.cmd ≠ .preflight ctx := by
  intro heq
  rw [heq] at he
  exact he

theorem checkReadiness_yields :
    d.deploy.checkReadiness.Yields (Passes fun _ => d.Ready) := by
  unfold SingleHostDeploy.checkReadiness Ready
  rw [deploy_readiness, deploy_rollbackTo]
  cases d.probesReadiness with
  | false => exact rfl
  | true =>
      cases d.rollbackTo with
      | none => exact (readiness_yields d.callCtx).mono (by simp)
      | some revision => exact rfl

theorem checkReadiness_issues : d.deploy.checkReadiness.Issues Probe := by
  unfold SingleHostDeploy.checkReadiness
  rw [deploy_readiness]
  cases d.probesReadiness with
  | false => exact .ret _
  | true =>
      show (if d.deploy.rollbackTo.isNone then _ else _ : Prog AxisSig _).Issues Probe
      split
      · exact (DatabaseReadiness.check_sequential (fun _ => .perform trivial)
          fun _ => .perform trivial).issues
      · exact .ret _

theorem unblocked_of_lint {inspection : Inspection} {u : Unit}
    (h : SingleHostDeploy.runForwardCompatLint inspection = .ok u) : Unblocked inspection := by
  intro report hreport issue hissue herror
  unfold SingleHostDeploy.runForwardCompatLint at h
  rw [hreport] at h
  dsimp only at h
  split at h
  · rename_i hnone
    have hmem : issue ∈ report.issues.filter fun issue => issue.severity == .error :=
      List.mem_filter.mpr ⟨hissue, by simp [herror]⟩
    rw [List.map_eq_nil_iff.mp hnone] at hmem
    exact List.not_mem_nil hmem
  · cases h

theorem judge_yields (inspection : Inspection) :
    (d.deploy.judge inspection).Yields
      (Passes fun _ calls => d.Gated inspection calls ∧ Unblocked inspection) := by
  have hgate : (d.deploy.runPolicyGate inspection).Yields
      (Passes fun _ => d.Gated inspection) := by
    unfold SingleHostDeploy.runPolicyGate Gated
    rw [deploy_rollbackTo]
    cases d.rollbackTo with
    | some revision => exact rfl
    | none =>
        refine .bind ((admit_yields d.policy d.hookWired .none d.callCtx inspection).mono ?_)
        intro verdict calls hcalls
        cases verdict with
        | error reason => trivial
        | ok _ =>
            show LetThrough _ _ _ _ _ (calls ++ [])
            rw [List.append_nil]
            exact hcalls
  refine .bind (hgate.mono ?_)
  intro verdict calls hcalls
  cases verdict with
  | error error => trivial
  | ok _ =>
      show Passes _ (SingleHostDeploy.runForwardCompatLint inspection) (calls ++ [])
      rw [List.append_nil]
      cases hlint : SingleHostDeploy.runForwardCompatLint inspection with
      | error error => trivial
      | ok _ => exact ⟨hcalls, unblocked_of_lint hlint⟩

theorem judge_issues (inspection : Inspection) : (d.deploy.judge inspection).Issues Probe := by
  have hgate : (d.deploy.runPolicyGate inspection).Issues Probe := by
    unfold SingleHostDeploy.runPolicyGate
    split
    · exact .ret _
    · refine (PolicyGate.admit_sequential ?_).issues.bind fun verdict => ?_
      · intro hook hhook request
        dsimp only [deploy, Axes.gate] at hhook
        split at hhook
        · cases hhook
          exact .perform trivial
        · cases hhook
      · cases verdict with
        | error reason => exact .ret _
        | ok _ => exact .ret _
  refine hgate.bind fun verdict => ?_
  cases verdict with
  | error error => exact .ret _
  | ok _ => exact .ret _

/-! ## The preflights -/

theorem probe_of_resolved {ctx : AdapterCtx} {logical value : String}
    {calls : List (Event AxisSig)} (h : Resolved ctx logical value calls) :
    ∀ e ∈ calls, Probe e.cmd := by
  cases h with
  | held hheld => simp
  | read hnone hsource => simp [Probe]

section Preflight

variable {g : Handler AxisSig τ} {t : τ} {log : List (Event AxisSig)}

/-- The adapter's preflight runs if none ran before. -/
theorem wp_inspectDescribed {ctx : AdapterCtx} {described : AdapterDescription}
    (hlog : ∀ e ∈ log, ∀ ctx, e.cmd ≠ .preflight ctx) :
    wp g.logged Eq d.Order.guarantee
      (inspectDescribed (Axes.migration d.ownsDatabase) ctx described)
      (fun result s => ∃ linted, s.2 = log ++ linted ∧
        Passes (Linted ctx described) result linted ∧ ∀ e ∈ linted, e.cmd = .preflight ctx)
      (t, log) := by
  simp only [inspectDescribed]
  refine wp_ite ?_ ?_
  · intro hlints
    refine wp_bind (wp_logged hlog ?_)
    intro x t'
    cases x with
    | error error => exact wp_ret.mpr ⟨_, rfl, trivial, by simp⟩
    | ok report => exact wp_ret.mpr ⟨_, rfl, .reported hlints, by simp⟩
  · intro hlints
    exact wp_ret.mpr ⟨[], by simp, .silent (by simpa using hlints), by simp⟩

/-- A throwaway is seeded, or nothing was touched. -/
theorem wp_provision :
    wp g.logged Eq d.Order.guarantee
      (provision Axes.rehearsal Axes.os d.callCtx d.backupSource)
      (fun result s => ∃ seeded, s.2 = log ++ seeded ∧
        ((∃ error, result = .error error) ∧ (∀ e ∈ seeded, Untouching e) ∨
          ∃ throwaway, result = .ok throwaway ∧ d.Seeded throwaway seeded)) (t, log) := by
  have hsecret : (d.callCtx.secret Axes.os databaseUrlSecret).Issues Probe :=
    (AdapterCtx.secret_sequential fun _ => .perform trivial).issues
  refine wp_bind (wp_post ?_ ((secret_yields d.callCtx databaseUrlSecret).wp hsecret
    fun calls c hc => order_of_probe calls hc))
  intro secret s hs
  obtain ⟨t₁, log₁⟩ := s
  obtain ⟨read, rfl, hread, hprobe⟩ := hs
  cases secret with
  | error error =>
      exact wp_ret.mpr ⟨read, rfl, .inl ⟨⟨_, rfl⟩, fun e he => untouching_of_probe (hprobe e he)⟩⟩
  | ok dsn =>
      refine wp_post ?_ (wp_logged (Q := fun x s =>
        s.2 = log ++ (read ++ [⟨.provision dsn d.backupSource, x⟩])) trivial (by simp))
      intro x s hs
      refine ⟨_, hs, ?_⟩
      cases x with
      | error error =>
          refine .inl ⟨⟨_, rfl⟩, fun e he => ?_⟩
          rcases List.mem_append.mp he with he | he
          · exact untouching_of_probe (hprobe e he)
          · rw [List.mem_singleton.mp he]
            trivial
      | ok throwaway => exact .inr ⟨throwaway, rfl, dsn, read, hread, rfl⟩

theorem onProvisioned_of_seeded {throwaway : ThrowawayDb} {calls : List (Event AxisSig)}
    (hseeded : d.Seeded throwaway calls) (hcalls : ∀ e ∈ calls, e ∈ log) :
    OnProvisioned (onThrowaway d.callCtx throwaway) log := by
  obtain ⟨dsn, read, hread, rfl⟩ := hseeded
  refine ⟨dsn, d.backupSource, throwaway, hcalls _ (by simp), ?_⟩
  intro T os
  unfold AdapterCtx.secret
  rw [lookup_onThrowaway]

theorem untouching_of_preflight {ctx : AdapterCtx} {e : Event AxisSig}
    (he : e.cmd = .preflight ctx) : Untouching e := by
  obtain ⟨cmd, ans⟩ := e
  cases he
  trivial

/-- What a static rehearsal leaves: nothing, or a throwaway that the pending migrations ran
on and that was torn down whatever they did. -/
inductive Tried : Except RehearsalError RehearsalReport → List (Event AxisSig) → Prop
  | unseeded {error : RehearsalError} {calls : List (Event AxisSig)}
      (hcalls : ∀ e ∈ calls, Untouching e) : Tried (.error error) calls
  | failed {throwaway : ThrowawayDb} {seeded : List (Event AxisSig)} {cause : AdapterError}
      {error : RehearsalError} {torn : Except String Unit} (hseeded : d.Seeded throwaway seeded) :
      Tried (.error error) (seeded ++
        [⟨.up (onThrowaway d.callCtx throwaway) none, .error cause⟩, ⟨.teardown throwaway, torn⟩])
  | applied {throwaway : ThrowawayDb} {seeded : List (Event AxisSig)} {outcome : MigrationOutcome}
      {report : RehearsalReport} {torn : Except String Unit}
      (hseeded : d.Seeded throwaway seeded)
      (hwarning : ∀ error, torn = .error error → report.teardownWarning = some error) :
      Tried (.ok report) (seeded ++
        [⟨.up (onThrowaway d.callCtx throwaway) none, .ok outcome⟩, ⟨.teardown throwaway, torn⟩])

theorem wp_runRestoreRehearsal :
    wp g.logged Eq d.Order.guarantee
      (runRestoreRehearsal Axes.rehearsal Axes.os (Axes.migration d.ownsDatabase) d.callCtx
        d.backupSource)
      (fun result s => ∃ added, s.2 = log ++ added ∧ Tried (d := d) result added) (t, log) := by
  refine wp_bind (wp_post ?_ wp_provision)
  intro provisioned s hs
  obtain ⟨t₁, log₁⟩ := s
  obtain ⟨seeded, rfl, ⟨⟨error, rfl⟩, huntouched⟩ | ⟨throwaway, rfl, hseeded⟩⟩ := hs
  · exact wp_ret.mpr ⟨seeded, rfl, .unseeded huntouched⟩
  · have hon : OnProvisioned (onThrowaway d.callCtx throwaway) (log ++ seeded) :=
      onProvisioned_of_seeded hseeded fun e he => List.mem_append_right _ he
    refine wp_bind (wp_bind (wp_logged (.inr hon) ?_))
    intro x t₂
    cases x with
    | error cause =>
        refine wp_ret.mpr (wp_bind (wp_logged trivial ?_))
        intro torn t₃
        refine wp_ret.mpr ⟨seeded ++ [⟨.up _ none, .error cause⟩, ⟨.teardown throwaway, torn⟩],
          ?_, .failed hseeded⟩
        simp
    | ok outcome =>
        refine wp_ret.mpr (wp_bind (wp_logged trivial ?_))
        intro torn t₃
        refine wp_ret.mpr ⟨seeded ++ [⟨.up _ none, .ok outcome⟩, ⟨.teardown throwaway, torn⟩],
          ?_, .applied hseeded ?_⟩
        · simp
        · intro error herror
          rw [herror]

variable (d) in
/-- What a preflight leaves. -/
def Leaves (runtime : DeployRuntime) (value : Except SagaError Unit × DeployRuntime)
    (calls : List (Event AxisSig)) : Prop :=
  (value.1 = .ok () → d.Cleared calls) ∧
    ∃ warned, value.2 = { runtime with warnings := runtime.warnings ++ warned } ∧
      d.Swept calls warned

/-- A preflight that stops before it has a throwaway leaves nothing behind. -/
theorem leaves_of_untouched {runtime : DeployRuntime} {error : SagaError}
    {calls : List (Event AxisSig)} (hcalls : ∀ e ∈ calls, Untouching e) :
    d.Leaves runtime (.error error, runtime) calls :=
  ⟨by simp, [], by simp, .untouched hcalls⟩

theorem ranDeep_append {calls more : List (Event AxisSig)}
    (hmore : ∀ described, (⟨.describe, .ok described⟩ : Event AxisSig) ∉ more) :
    d.RanDeep (calls ++ more) ↔ d.RanDeep calls := by
  constructor
  · intro h
    obtain ⟨hdeep, described, hmem, hclassifies⟩ := h
    refine ⟨hdeep, described, ?_, hclassifies⟩
    rcases List.mem_append.mp hmem with hmem | hmem
    · exact hmem
    · exact absurd hmem (hmore described)
  · intro h
    obtain ⟨hdeep, described, hmem, hclassifies⟩ := h
    exact ⟨hdeep, described, List.mem_append_left _ hmem, hclassifies⟩

theorem describe_not_mem_of_resolved {ctx : AdapterCtx} {logical value : String}
    {calls : List (Event AxisSig)} (h : Resolved ctx logical value calls)
    (described : AdapterDescription) : (⟨.describe, .ok described⟩ : Event AxisSig) ∉ calls := by
  cases h with
  | held hheld => simp
  | read hnone hsource =>
      intro hmem
      cases List.mem_singleton.mp hmem

/-- A throwaway that was seeded and torn down is swept. -/
theorem swept_of_seeded {throwaway : ThrowawayDb} {seeded : List (Event AxisSig)}
    {torn : Except String Unit} {warned : List String} (hlog : ∀ e ∈ log, Untouching e)
    (hseeded : d.Seeded throwaway seeded) (between : List (Event AxisSig))
    (hbetween : ∀ e ∈ between, Untouching e)
    (hwarned : ∀ error, torn = .error error →
      ((∃ warning ∈ warned, NotDropped throwaway error warning) ↔
        d.RanDeep log ∨ Applied between)) :
    d.Swept (log ++ (seeded ++ (between ++ [⟨.teardown throwaway, torn⟩]))) warned := by
  obtain ⟨dsn, read, hread, rfl⟩ := hseeded
  have hbefore : ∀ e ∈ log ++ read, Untouching e := by
    intro e he
    rcases List.mem_append.mp he with he | he
    · exact hlog e he
    · exact untouching_of_probe (probe_of_resolved hread e he)
  have hsame : d.RanDeep (log ++ read) ↔ d.RanDeep log :=
    ranDeep_append (describe_not_mem_of_resolved hread)
  have hswept : d.Swept ((log ++ read) ++ ⟨.provision dsn d.backupSource, .ok throwaway⟩ ::
      (between ++ [⟨.teardown throwaway, torn⟩])) warned := by
    refine .torn hbefore hbetween fun error herror => ?_
    rw [hsame]
    exact hwarned error herror
  simpa using hswept

/-- The rehearsal of a static preflight, after the calls of the checks. -/
theorem wp_rehearse {runtime : DeployRuntime} (hlog : ∀ e ∈ log, Untouching e)
    (hshallow : ¬ d.RanDeep log)
    (hcleared : ∀ rehearsed, d.Rehearsed rehearsed → d.Cleared (log ++ rehearsed)) :
    wp g.logged Eq d.Order.guarantee (d.deploy.rehearse runtime)
      (fun value s => d.Leaves runtime value s.2) (t, log) := by
  unfold SingleHostDeploy.rehearse
  rw [deploy_rehearsal, deploy_rollbackTo]
  have hnone : ¬ (d.rehearses = true ∧ d.rollbackTo = none) →
      d.Leaves runtime (.ok (), runtime) log := by
    intro hnot
    have hnothing : d.Rehearsed [] := by simp [Rehearsed, hnot]
    refine ⟨fun _ => ?_, [], by simp, .untouched hlog⟩
    simpa using hcleared [] hnothing
  cases hrehearses : d.rehearses with
  | false => exact wp_ret.mpr (hnone (by simp [hrehearses]))
  | true =>
      cases hrollback : d.rollbackTo with
      | some revision => exact wp_ret.mpr (hnone (by simp [hrollback]))
      | none =>
          refine wp_bind (wp_post ?_ wp_runRestoreRehearsal)
          intro result s hs
          obtain ⟨t₁, log₁⟩ := s
          obtain ⟨added, rfl, htried⟩ := hs
          have hrehearsed : d.rehearses = true ∧ d.rollbackTo = none := ⟨hrehearses, hrollback⟩
          cases htried with
          | unseeded hadded =>
              refine wp_ret.mpr (leaves_of_untouched fun e he => ?_)
              rcases List.mem_append.mp he with he | he
              · exact hlog e he
              · exact hadded e he
          | @failed throwaway seeded cause error torn hseeded =>
              refine wp_ret.mpr ⟨by simp, [], by simp, ?_⟩
              refine swept_of_seeded hlog hseeded [⟨.up _ none, .error cause⟩]
                (by simp [Untouching])
                fun error _ => ?_
              simp [hshallow, Applied]
          | @applied throwaway seeded outcome report torn hseeded hwarning =>
              have hdone : d.Cleared (log ++ (seeded ++
                  [⟨.up (onThrowaway d.callCtx throwaway) none, .ok outcome⟩,
                    ⟨.teardown throwaway, torn⟩])) := by
                refine hcleared _ ?_
                rw [Rehearsed, if_pos hrehearsed]
                exact ⟨throwaway, seeded, outcome, torn, hseeded, rfl⟩
              have happlied : Applied
                  [⟨.up (onThrowaway d.callCtx throwaway) none, .ok outcome⟩] := by
                intro ctx target error hmem
                cases List.mem_singleton.mp hmem
              cases hreport : report.teardownWarning with
              | none =>
                  simp only [hreport]
                  refine wp_ret.mpr ⟨fun _ => hdone, [], by simp, ?_⟩
                  refine swept_of_seeded hlog hseeded [⟨.up _ none, .ok outcome⟩]
                    (by simp [Untouching]) fun error herror => ?_
                  rw [hwarning error herror] at hreport
                  cases hreport
              | some warning =>
                  simp only [hreport]
                  refine wp_ret.mpr ⟨fun _ => hdone, [_], rfl, ?_⟩
                  refine swept_of_seeded hlog hseeded [⟨.up _ none, .ok outcome⟩]
                    (by simp [Untouching]) fun error herror => ?_
                  rw [hwarning error herror] at hreport
                  cases hreport
                  exact ⟨fun _ => .inr happlied, fun _ => ⟨_, by simp, .inr rfl⟩⟩

theorem describe_not_mem_of_ready {calls : List (Event AxisSig)} (h : d.Ready calls)
    (described : AdapterDescription) : (⟨.describe, .ok described⟩ : Event AxisSig) ∉ calls := by
  unfold Ready at h
  split at h
  · obtain ⟨dsn, read, hread, rfl⟩ := h
    intro hmem
    rcases List.mem_append.mp hmem with hmem | hmem
    · exact describe_not_mem_of_resolved hread described hmem
    · cases List.mem_singleton.mp hmem
  · simp [h]

theorem probe_of_ready {calls : List (Event AxisSig)} (h : d.Ready calls) :
    ∀ e ∈ calls, Probe e.cmd := by
  unfold Ready at h
  split at h
  · obtain ⟨dsn, read, hread, rfl⟩ := h
    intro e he
    rcases List.mem_append.mp he with he | he
    · exact probe_of_resolved hread e he
    · rw [List.mem_singleton.mp he]
      trivial
  · simp [h]

theorem describe_not_mem_of_gated {inspection : Inspection} {calls : List (Event AxisSig)}
    (h : d.Gated inspection calls) (described : AdapterDescription) :
    (⟨.describe, .ok described⟩ : Event AxisSig) ∉ calls := by
  unfold Gated at h
  split at h
  · cases h with
    | allowed hallow => simp
    | approved hneeds hwired =>
        intro hmem
        cases List.mem_singleton.mp hmem
  · simp [h]

/-- The description a static preflight starts from, as a call. -/
def asked : Option AdapterDescription → List (Event AxisSig)
  | none => []
  | some described => [⟨.describe, .ok described⟩]

variable (d) in
/-- What the inspection of a static preflight adds to the calls of the readiness check. -/
def Adds {ε : Type} (ready : List (Event AxisSig)) (result : Except ε Inspection)
    (calls : List (Event AxisSig)) : Prop :=
  ∃ examined, calls = ready ++ examined ∧ Passes d.Examined result examined ∧
    (∀ e ∈ examined, Untouching e) ∧ ¬ d.RanDeep (ready ++ examined)

/-- The adapter that described itself is inspected on the live database. -/
theorem wp_examine {ready : List (Event AxisSig)} (hready : d.Ready ready)
    {x : AdapterDescription} (hshallow : d.Deep → classifiesDeeply x = false)
    (hlints : d.lints = true) :
    wp g.logged Eq d.Order.guarantee
      (inspectDescribed (Axes.migration d.ownsDatabase) d.callCtx x)
      (fun result s => d.Adds ready result s.2) (t, ready ++ [⟨.describe, .ok x⟩]) := by
  have hlog : ∀ e ∈ ready ++ [⟨.describe, .ok x⟩], ∀ ctx, e.cmd ≠ .preflight ctx := by
    intro e he ctx
    rcases List.mem_append.mp he with he | he
    · exact not_preflight_of_probe (probe_of_ready hready e he) ctx
    · rw [List.mem_singleton.mp he]
      simp
  refine wp_post ?_ (wp_inspectDescribed hlog)
  intro result s hs
  obtain ⟨linted, hcalls, hlinted, hpreflight⟩ := hs
  refine ⟨⟨.describe, .ok x⟩ :: linted, by simp [hcalls], ?_, ?_, ?_⟩
  · cases result with
    | error error => trivial
    | ok inspection =>
        show d.Examined inspection _
        rw [Examined, if_pos hlints]
        exact ⟨x, linted, hlinted, rfl⟩
  · refine List.forall_mem_cons.mpr ⟨trivial, fun e he => ?_⟩
    exact untouching_of_preflight (hpreflight e he)
  · intro hran
    obtain ⟨hdeep, described, hmem, hclassifies⟩ := hran
    rcases List.mem_append.mp hmem with hmem | hmem
    · exact describe_not_mem_of_ready hready described hmem
    · rcases List.mem_cons.mp hmem with hmem | hmem
      · cases hmem
        rw [hshallow hdeep] at hclassifies
        cases hclassifies
      · cases hpreflight _ hmem

/-- The inspection of a static preflight. -/
theorem wp_inspect {ready : List (Event AxisSig)} (hready : d.Ready ready)
    {described : Option AdapterDescription}
    (hdescribed : ∀ x, described = some x → d.lints = true ∧ classifiesDeeply x = false)
    (hshallow : described = none → ¬ d.Deep) :
    wp g.logged Eq d.Order.guarantee (d.deploy.inspect described)
      (fun result s => d.Adds ready result s.2) (t, ready ++ asked described) := by
  unfold SingleHostDeploy.inspect
  refine wp_ite ?_ ?_
  · intro hoff
    have hoff' : d.lints = false := by simpa using hoff
    cases described with
    | some x => simp [hdescribed x rfl] at hoff'
    | none =>
        refine wp_ret.mpr ⟨[], rfl, ?_, by simp, fun hran => hshallow rfl hran.1⟩
        show d.Examined _ _
        simp [Examined, hoff']
  · intro hon
    have hon' : d.lints = true := by simpa using hon
    cases described with
    | some x =>
        refine wp_bind (wp_post ?_ (wp_examine hready (fun _ => (hdescribed x rfl).2) hon'))
        intro result s hs
        cases result with
        | error error => exact wp_ret.mpr hs
        | ok inspection => exact wp_ret.mpr hs
    | none =>
        have hnotDeep := hshallow rfl
        rw [show ready ++ asked none = ready from List.append_nil _]
        refine wp_bind (wp_bind (wp_logged trivial ?_))
        intro x t'
        cases x with
        | error error =>
            exact wp_ret.mpr (wp_ret.mpr ⟨[⟨.describe, .error error⟩], rfl, trivial,
              by simp [Untouching], fun hran => hnotDeep hran.1⟩)
        | ok described =>
            refine wp_post ?_ (wp_examine hready (fun hdeep => absurd hdeep hnotDeep) hon')
            intro result s hs
            cases result with
            | error error => exact wp_ret.mpr hs
            | ok inspection => exact wp_ret.mpr hs

/-- The static preflight. -/
theorem wp_runStaticPreflight {runtime : DeployRuntime} {ready : List (Event AxisSig)}
    (hready : d.Ready ready) {described : Option AdapterDescription}
    (hdescribed : ∀ x, described = some x → d.lints = true ∧ classifiesDeeply x = false)
    (hshallow : described = none → ¬ d.Deep) :
    wp g.logged Eq d.Order.guarantee (d.deploy.runStaticPreflight described runtime)
      (fun value s => d.Leaves runtime value s.2) (t, ready ++ asked described) := by
  refine wp_bind (wp_post ?_ (wp_inspect hready hdescribed hshallow))
  intro result s hs
  obtain ⟨t₁, log₁⟩ := s
  obtain ⟨examined, rfl, hexamined, huntouched, hdeep⟩ := hs
  have hquiet : ∀ e ∈ ready ++ examined, Untouching e := by
    intro e he
    rcases List.mem_append.mp he with he | he
    · exact untouching_of_probe (probe_of_ready hready e he)
    · exact huntouched e he
  cases result with
  | error error => exact wp_ret.mpr (leaves_of_untouched hquiet)
  | ok inspection =>
  refine wp_bind (wp_post ?_ ((judge_yields inspection).wp (judge_issues inspection)
    fun calls c hc => order_of_probe calls hc))
  intro verdict s hs
  obtain ⟨t₂, log₂⟩ := s
  obtain ⟨gated, rfl, hgated, hprobe⟩ := hs
  have hquiet' : ∀ e ∈ ready ++ examined ++ gated, Untouching e := by
    intro e he
    rcases List.mem_append.mp he with he | he
    · exact hquiet e he
    · exact untouching_of_probe (hprobe e he)
  cases verdict with
  | error error => exact wp_ret.mpr (leaves_of_untouched hquiet')
  | ok _ =>
      refine wp_rehearse hquiet' ?_ ?_
      · rw [ranDeep_append (describe_not_mem_of_gated hgated.1)]
        exact hdeep
      · intro rehearsed hrehearsed
        have hcleared := Cleared.static hready hexamined hgated.1 hgated.2 hrehearsed
        simpa using hcleared

/-- The checks of a deep preflight, all on one throwaway. -/
theorem wp_deepChecks {described : AdapterDescription} {throwaway : ThrowawayDb}
    (hlog : ∀ e ∈ log, ∀ ctx, e.cmd ≠ .preflight ctx) {seeded : List (Event AxisSig)}
    (hseeded : d.Seeded throwaway seeded) (hmem : ∀ e ∈ seeded, e ∈ log) :
    wp g.logged Eq d.Order.guarantee (d.deploy.deepChecks described throwaway)
      (fun result s => ∃ between, s.2 = log ++ between ∧ (∀ e ∈ between, Untouching e) ∧
        (result = .ok () → ∃ linted gated inspection outcome,
          Linted (againstThrowaway d.callCtx throwaway) described inspection linted ∧
          d.Gated inspection gated ∧ Unblocked inspection ∧
          between = linted ++ (gated ++
            [⟨.up (onThrowaway d.callCtx throwaway) none, .ok outcome⟩]))) (t, log) := by
  refine wp_bind (wp_post ?_ (wp_inspectDescribed hlog))
  intro result s hs
  obtain ⟨t₁, log₁⟩ := s
  obtain ⟨linted, rfl, hlinted, hpreflight⟩ := hs
  have hquiet : ∀ e ∈ linted, Untouching e :=
    fun e he => untouching_of_preflight (hpreflight e he)
  cases result with
  | error error => exact wp_ret.mpr ⟨linted, rfl, hquiet, by simp⟩
  | ok inspection =>
  refine wp_bind (wp_post ?_ ((judge_yields inspection).wp (judge_issues inspection)
    fun calls c hc => order_of_probe calls hc))
  intro verdict s hs
  obtain ⟨t₂, log₂⟩ := s
  obtain ⟨gated, rfl, hgated, hprobe⟩ := hs
  have hquiet' : ∀ e ∈ linted ++ gated, Untouching e := by
    intro e he
    rcases List.mem_append.mp he with he | he
    · exact hquiet e he
    · exact untouching_of_probe (hprobe e he)
  cases verdict with
  | error error => exact wp_ret.mpr ⟨linted ++ gated, by simp, hquiet', by simp⟩
  | ok _ =>
      have hon : OnProvisioned (onThrowaway d.callCtx throwaway) (log ++ linted ++ gated) :=
        onProvisioned_of_seeded hseeded fun e he =>
          List.mem_append_left _ (List.mem_append_left _ (hmem e he))
      refine wp_bind (wp_bind (wp_logged (.inr hon) ?_))
      intro x t₃
      have hall : ∀ e ∈ linted ++ (gated ++
          [⟨.up (onThrowaway d.callCtx throwaway) none, x⟩]), Untouching e := by
        intro e he
        rw [← List.append_assoc] at he
        rcases List.mem_append.mp he with he | he
        · exact hquiet' e he
        · rw [List.mem_singleton.mp he]
          trivial
      cases x with
      | error cause => exact wp_ret.mpr (wp_ret.mpr ⟨_, by simp [callCtx], hall, by simp⟩)
      | ok outcome =>
          exact wp_ret.mpr (wp_ret.mpr ⟨_, by simp [callCtx], hall, fun _ =>
            ⟨linted, gated, inspection, outcome, hlinted, hgated.1, hgated.2, rfl⟩⟩)

/-- The deep preflight. -/
theorem wp_runDeepPreflight {runtime : DeployRuntime} {ready : List (Event AxisSig)}
    (hready : d.Ready ready) (hdeep : d.Deep) {described : AdapterDescription}
    (hclassifies : classifiesDeeply described = true) :
    wp g.logged Eq d.Order.guarantee
      (d.deploy.runDeepPreflight Axes.rehearsal described runtime)
      (fun value s => d.Leaves runtime value s.2) (t, ready ++ [⟨.describe, .ok described⟩]) := by
  have hprobe : ∀ e ∈ ready ++ [⟨.describe, .ok described⟩], Probe e.cmd := by
    intro e he
    rcases List.mem_append.mp he with he | he
    · exact probe_of_ready hready e he
    · rw [List.mem_singleton.mp he]
      trivial
  have hquiet : ∀ e ∈ ready ++ [⟨.describe, .ok described⟩], Untouching e :=
    fun e he => untouching_of_probe (hprobe e he)
  have hran : d.RanDeep (ready ++ [⟨.describe, .ok described⟩]) :=
    ⟨hdeep, described, by simp, hclassifies⟩
  refine wp_bind (wp_post ?_ wp_provision)
  intro provisioned s hs
  obtain ⟨t₁, log₁⟩ := s
  obtain ⟨seeded, rfl, ⟨⟨error, rfl⟩, huntouched⟩ | ⟨throwaway, rfl, hseeded⟩⟩ := hs
  · refine wp_ret.mpr (leaves_of_untouched fun e he => ?_)
    rcases List.mem_append.mp he with he | he
    · exact hquiet e he
    · exact huntouched e he
  · have hlog : ∀ e ∈ ready ++ [⟨.describe, .ok described⟩] ++ seeded,
        ∀ ctx, e.cmd ≠ .preflight ctx := by
      intro e he ctx
      rcases List.mem_append.mp he with he | he
      · exact not_preflight_of_probe (hprobe e he) ctx
      · obtain ⟨dsn, read, hread, rfl⟩ := hseeded
        rcases List.mem_append.mp he with he | he
        · exact not_preflight_of_probe (probe_of_resolved hread e he) ctx
        · rw [List.mem_singleton.mp he]
          simp
    refine wp_bind (wp_post ?_ (wp_deepChecks hlog hseeded fun e he =>
      List.mem_append_right _ he))
    intro result s hs
    obtain ⟨t₂, log₂⟩ := s
    obtain ⟨between, rfl, hbetween, hpassed⟩ := hs
    refine wp_bind (wp_logged trivial ?_)
    intro torn t₃
    have hcleared : result = .ok () → d.Cleared (ready ++ [⟨.describe, .ok described⟩] ++
        seeded ++ between ++ [⟨.teardown throwaway, torn⟩]) := by
      intro hok
      obtain ⟨linted, gated, inspection, outcome, hlinted, hgated, hlint, rfl⟩ := hpassed hok
      simpa using Cleared.deep hdeep hready hclassifies hseeded hlinted hgated hlint
    have hswept : ∀ {warned : List String}, (∀ error, torn = .error error →
        ∃ warning ∈ warned, NotDropped throwaway error warning) →
        d.Swept (ready ++ [⟨.describe, .ok described⟩] ++ seeded ++ between ++
          [⟨.teardown throwaway, torn⟩]) warned := by
      intro warned hwarned
      have hthrowaway := swept_of_seeded hquiet hseeded between hbetween
        fun error herror => iff_of_true (hwarned error herror) (.inl hran)
      simpa using hthrowaway
    cases torn with
    | error error =>
        refine wp_ret.mpr ⟨hcleared, [_], rfl, hswept fun error' herror => ?_⟩
        cases herror
        exact ⟨_, by simp, .inl rfl⟩
    | ok _ => exact wp_ret.mpr ⟨hcleared, [], by simp, hswept (by simp)⟩

theorem not_deep_of_deepRehearsal (h : d.deploy.deepRehearsal = none) : ¬ d.Deep := by
  intro hdeep
  obtain ⟨hrehearses, hlints, hrollback, hbackup⟩ := hdeep
  simp [SingleHostDeploy.deepRehearsal, hrehearses, hlints, hrollback, hbackup] at h

theorem deep_of_deepRehearsal {db : RehearsalDb AxisSig}
    (h : d.deploy.deepRehearsal = some db) : d.Deep ∧ db = Axes.rehearsal := by
  unfold SingleHostDeploy.deepRehearsal at h
  rw [deploy_rehearsal] at h
  cases hrehearses : d.rehearses with
  | false => simp [hrehearses] at h
  | true =>
      simp only [hrehearses, ↓reduceIte, Bool.and_eq_true, beq_iff_eq, Option.isNone_iff_eq_none,
        Option.ite_none_right_eq_some, Option.some.injEq] at h
      obtain ⟨⟨⟨hlints, hrollback⟩, hbackup⟩, rfl⟩ := h
      exact ⟨⟨hrehearses, hlints, hrollback, hbackup⟩, rfl⟩

/-- The preflight, after no call at all. -/
theorem wp_runPreflight {runtime : DeployRuntime} :
    wp g.logged Eq d.Order.guarantee (d.deploy.runPreflight runtime)
      (fun value s => d.Leaves runtime value s.2) (t, []) := by
  refine wp_bind (wp_post ?_ (checkReadiness_yields.wp checkReadiness_issues
    fun calls c hc => order_of_probe calls hc))
  intro checked s hs
  obtain ⟨t₁, log₁⟩ := s
  obtain ⟨ready, hlog, hready, hprobe⟩ := hs
  obtain rfl : log₁ = ready := hlog
  cases checked with
  | error error =>
      exact wp_ret.mpr (leaves_of_untouched fun e he => untouching_of_probe (hprobe e he))
  | ok _ =>
      dsimp only
      cases hrehearsal : d.deploy.deepRehearsal with
      | none =>
          have hstatic := @wp_runStaticPreflight τ d g t₁ runtime log₁ hready none (by simp)
            fun _ => not_deep_of_deepRehearsal hrehearsal
          rwa [asked, List.append_nil] at hstatic
      | some db =>
          obtain ⟨hdeep, rfl⟩ := deep_of_deepRehearsal hrehearsal
          refine wp_bind (wp_logged trivial ?_)
          intro x t₂
          cases x with
          | error error =>
              refine wp_ret.mpr (leaves_of_untouched fun e he => ?_)
              rcases List.mem_append.mp he with he | he
              · exact untouching_of_probe (hprobe e he)
              · rw [List.mem_singleton.mp he]
                trivial
          | ok described =>
              refine wp_ite ?_ ?_
              · intro hclassifies
                exact wp_runDeepPreflight hready hdeep hclassifies
              · intro hclassifies
                refine wp_runStaticPreflight hready ?_ (by simp)
                intro x hx
                cases hx
                exact ⟨hdeep.2.1, by simpa using hclassifies⟩

end Preflight

/-! ## The other steps -/

/-- The calls of the steps after the preflight. -/
def Later : AxisCall → Prop
  | .preflight _ => False
  | .provision _ _ => False
  | .teardown _ => False
  | _ => True

theorem untouching_of_later {e : Event AxisSig} (he : Later e.cmd) : Untouching e := by
  obtain ⟨cmd, ans⟩ := e
  cases cmd <;> trivial

theorem order_of_clear {calls : List (Event AxisSig)} (hclear : d.Clear calls) {c : AxisCall}
    (hc : Later c) : d.Order calls c := by
  cases c <;> first | trivial | exact hclear | exact .inl hclear

theorem Clear.append {calls : List (Event AxisSig)} (h : d.Clear calls) (e : Event AxisSig) :
    d.Clear (calls ++ [e]) := by
  obtain ⟨before, rest, rfl, hcleared⟩ := h
  exact ⟨before, rest ++ [e], by simp, hcleared⟩

variable (d) in
/-- A run that has made the calls of its preflight and no other. -/
def Fresh : Assertion DeployRuntime (τ × List (Event AxisSig)) := fun r s =>
  d.Swept s.2 r.warnings ∧ ∀ e ∈ s.2, ∀ ctx host, e.cmd ≠ .stage ctx host

variable (d) in
/-- A run that has staged an artifact since its preflight. -/
def Started : Assertion DeployRuntime (τ × List (Event AxisSig)) := fun r s =>
  ∃ preflight ctx host staged rest, s.2 = preflight ++ ⟨.stage ctx host, staged⟩ :: rest ∧
    d.Swept preflight r.warnings ∧ (∀ e ∈ preflight, ∀ ctx host, e.cmd ≠ .stage ctx host) ∧
    ∀ e ∈ rest, Untouching e

variable (d) in
/-- How a run ends. -/
def Ended : Assertion DeployRuntime (τ × List (Event AxisSig)) := fun r s =>
  d.Fresh r s ∨ d.Started r s

variable (d) in
/-- A run whose preflight passed and that has staged an artifact. -/
def Running : Assertion DeployRuntime (τ × List (Event AxisSig)) := fun r s =>
  d.Started r s ∧ d.Clear s.2

theorem Running.append {r : DeployRuntime} {t t' : τ} {calls : List (Event AxisSig)}
    (h : d.Running r (t, calls)) {e : Event AxisSig} (he : Later e.cmd) :
    d.Running r (t', calls ++ [e]) := by
  obtain ⟨⟨preflight, ctx, host, staged, rest, hcalls, hswept, hpreflight, hrest⟩, hclear⟩ := h
  obtain rfl : calls = preflight ++ ⟨.stage ctx host, staged⟩ :: rest := hcalls
  refine ⟨⟨preflight, ctx, host, staged, rest ++ [e], by simp, hswept, hpreflight, ?_⟩,
    hclear.append e⟩
  intro f hf
  rcases List.mem_append.mp hf with hf | hf
  · exact hrest f hf
  · rw [List.mem_singleton.mp hf]
    exact untouching_of_later he

section Steps

variable {g : Handler AxisSig τ} {r : DeployRuntime} {s : τ × List (Event AxisSig)}

/-- A step or a compensation of a running deploy. -/
theorem wp_running {p : Prog AxisSig (Except SagaError Unit × DeployRuntime)}
    (hissues : p.Issues Later) (hvalue : p.Yields fun v _ => v.2.warnings = r.warnings)
    (hs : d.Running r s) {A F : Assertion DeployRuntime (τ × List (Event AxisSig))}
    (hA : ∀ r s, d.Running r s → A r s) (hF : ∀ r s, d.Running r s → F r s) :
    wp g.logged Eq d.Order.guarantee p (StepPost A F) s := by
  obtain ⟨t, log⟩ := s
  refine wp_post ?_ (hissues.wp_kept hvalue (I := fun calls => d.Running r (t, calls))
    (fun calls c hrunning hc => order_of_clear hrunning.2 hc)
    (fun calls e hrunning he => hrunning.append he) hs)
  intro v s' hv
  obtain ⟨result, r'⟩ := v
  obtain ⟨hrunning, hwarnings⟩ := hv
  have hrunning' : d.Running r' s' := by
    obtain ⟨⟨preflight, ctx, host, staged, rest, hcalls, hswept, hrest⟩, hclear⟩ := hrunning
    refine ⟨⟨preflight, ctx, host, staged, rest, hcalls, ?_, hrest⟩, hclear⟩
    rw [show r'.warnings = r.warnings from hwarnings]
    exact hswept
  cases result with
  | error error => exact hF r' s' hrunning'
  | ok _ => exact hA r' s' hrunning'

theorem keeping_yields {action : Prog AxisSig (Except SagaError Unit)} :
    (SingleHostDeploy.keeping r action).Yields fun v _ => v.2.warnings = r.warnings :=
  .bind ((Prog.Yields.any action).mono fun _ _ _ => rfl)

theorem keeping_issues {action : Prog AxisSig (Except SagaError Unit)}
    (h : action.Issues Later) : (SingleHostDeploy.keeping r action).Issues Later :=
  h.bind fun _ => .ret _

theorem migrationCtx_issues : (d.deploy.migrationCtx r).Issues Later := by
  unfold SingleHostDeploy.migrationCtx
  split
  · exact .ret _
  · refine .bind (.perform trivial) fun x => ?_
    cases x with
    | false => exact .ret _
    | true => exact .ret _

theorem runMigrate_issues : (d.deploy.runMigrate r).Issues Later := by
  refine migrationCtx_issues.bind fun ctx => .bind (.perform trivial) fun x => ?_
  cases x with
  | error error => exact .ret _
  | ok previous =>
      have hmove : (d.deploy.moveDatabase ctx previous).Issues Later := by
        unfold SingleHostDeploy.moveDatabase
        split
        · refine .bind (.perform trivial) fun x => ?_
          cases x with
          | error error => exact .ret _
          | ok outcome => exact .ret _
        · refine .bind (.perform trivial) fun x => ?_
          cases x with
          | error error => exact .ret _
          | ok outcome => exact .ret _
      refine hmove.bind fun moved => ?_
      cases moved with
      | error error => exact .ret _
      | ok revision => exact .ret _

theorem runMigrate_yields :
    (d.deploy.runMigrate r).Yields fun v _ => v.2.warnings = r.warnings := by
  refine .bind ((Prog.Yields.any _).mono fun ctx _ _ => ?_)
  refine .bind ((Prog.Yields.any _).mono fun x _ _ => ?_)
  cases x with
  | error error => exact rfl
  | ok previous =>
      refine .bind ((Prog.Yields.any _).mono fun moved _ _ => ?_)
      cases moved with
      | error error => exact rfl
      | ok revision => exact rfl

theorem undoMigrate_issues : (d.deploy.undoMigrate r).Issues Later := by
  unfold SingleHostDeploy.undoMigrate
  split
  · exact .ret _
  · split
    · exact .ret _
    · refine migrationCtx_issues.bind fun ctx => ?_
      rename_i previous _
      have hback : (d.deploy.moveBack ctx previous).Issues Later := by
        unfold SingleHostDeploy.moveBack
        cases d.deploy.rollbackTo.isSome with
        | true =>
            refine .bind (.perform trivial) fun x => ?_
            cases x with
            | error error => exact .ret _
            | ok outcome => exact .ret _
        | false =>
            refine .bind (.perform trivial) fun x => ?_
            cases x with
            | error error => exact .ret _
            | ok outcome => exact .ret _
      refine hback.bind fun moved => ?_
      cases moved with
      | error error => exact .ret _
      | ok _ => exact .ret _

theorem runActivate_issues : (d.deploy.runActivate r).Issues Later := by
  unfold SingleHostDeploy.runActivate
  split
  · exact .ret _
  · refine .bind (.perform trivial) fun x => ?_
    cases x with
    | error error => exact .ret _
    | ok _ => exact .ret _

theorem runRestart_issues : d.deploy.runRestart.Issues Later := by
  refine .bind (.perform trivial) fun x => ?_
  cases x with
  | error error => exact .ret _
  | ok _ => exact .ret _

theorem undoActivate_issues (prior : DeployRecord) :
    (d.deploy.undoActivate prior).Issues Later := by
  unfold SingleHostDeploy.undoActivate
  split
  · refine .bind (.perform trivial) fun x => ?_
    cases x with
    | error error => exact .ret _
    | ok _ =>
        refine .bind (.perform trivial) fun x => ?_
        cases x with
        | error error => exact .ret _
        | ok _ => exact .ret _
  · exact .ret _

theorem runHealth_issues : d.deploy.runHealth.Issues Later := by
  refine .bind (.perform trivial) fun x => ?_
  cases x with
  | error error => exact .ret _
  | ok status =>
      show (if status.healthy then _ else _ : Prog AxisSig _).Issues Later
      split
      · exact .ret _
      · exact .ret _

theorem runVerify_issues : d.deploy.runVerify.Issues Later := by
  refine .bind (.perform trivial) fun x => ?_
  cases x with
  | error error => exact .ret _
  | ok report =>
      show (if report.ok then _ else _ : Prog AxisSig _).Issues Later
      split
      · exact .ret _
      · exact .ret _

theorem runPreflight_issues :
    (d.deploy.runPreflight r).Issues fun c => ∀ ctx host, c ≠ AxisCall.stage ctx host := by
  refine (SingleHostDeploy.runPreflight_sequential ?_ r).issues
  have hrehearsal : ∀ db, d.deploy.restoreRehearsal = some db → db = Axes.rehearsal := by
    intro db hdb
    rw [deploy_rehearsal] at hdb
    split at hdb
    · exact (Option.some.inj hdb).symm
    · cases hdb
  refine ⟨?_, ?_, ?_, ?_, ?_, ?_, ?_, ?_⟩
  · exact fun name => .perform (by simp)
  · intro probe hprobe dsn
    rw [deploy_readiness] at hprobe
    split at hprobe
    · cases hprobe
      exact .perform (by simp)
    · cases hprobe
  · exact .perform (by simp)
  · exact fun ctx => .perform (by simp)
  · intro hook hhook request
    dsimp only [deploy, Axes.gate] at hhook
    split at hhook
    · cases hhook
      exact .perform (by simp)
    · cases hhook
  · intro db hdb dsn backup
    rw [hrehearsal db hdb]
    exact .perform (by simp)
  · intro db hdb throwaway
    rw [hrehearsal db hdb]
    exact .perform (by simp)
  · exact fun throwaway => .perform (by simp)

theorem preflight_forward (hs : r = .default ∧ s.2 = []) :
    wp g.logged Eq d.Order.guarantee (d.deploy.forward .preflight r)
      (StepPost (fun r s => d.Fresh r s ∧ d.Clear s.2) d.Ended) s := by
  obtain ⟨t, log⟩ := s
  obtain ⟨rfl, rfl⟩ := hs
  refine wp_post ?_ (runPreflight_issues.wp_logged wp_runPreflight)
  intro v s' hv
  obtain ⟨result, r'⟩ := v
  obtain ⟨⟨hcleared, warned, hr, hswept⟩, added, hcalls, hstage⟩ := hv
  obtain rfl : r' = _ := hr
  rw [List.nil_append] at hcalls
  have hfresh : d.Fresh { DeployRuntime.default with warnings := [] ++ warned } s' :=
    ⟨hswept, hcalls ▸ hstage⟩
  cases result with
  | error error => exact .inl hfresh
  | ok _ => exact ⟨hfresh, s'.2, [], by simp, hcleared rfl⟩

theorem fetch_forward (hs : d.Fresh r s ∧ d.Clear s.2) :
    wp g.logged Eq d.Order.guarantee (d.deploy.forward .fetch r)
      (StepPost d.Running d.Ended) s := by
  obtain ⟨t, log⟩ := s
  obtain ⟨⟨hswept, hstage⟩, hclear⟩ := hs
  refine wp_bind (wp_logged hclear ?_)
  intro x t'
  have hstarted : ∀ r' : DeployRuntime, r'.warnings = r.warnings →
      d.Started r' (t', log ++ [⟨.stage d.callCtx d.host, x⟩]) := by
    intro r' hwarnings
    refine ⟨log, d.callCtx, d.host, x, [], rfl, ?_, hstage, by simp⟩
    rw [hwarnings]
    exact hswept
  cases x with
  | error error => exact wp_ret.mpr (.inr (hstarted r rfl))
  | ok staged => exact wp_ret.mpr ⟨hstarted _ rfl, hclear.append _⟩

end Steps

/-- The steps of a run keep to the order and leave no throwaway unreported. -/
theorem compensable (g : Handler AxisSig τ) (prior : DeployRecord) (ctx : StepContext) :
    Compensable g.logged d.Order.guarantee ctx d.Ended (fun r s => r = .default ∧ s.2 = [])
      (fun _ => d.Ended) (d.deploy.steps prior) d.Ended := by
  have hrunning : ∀ r (s : τ × List (Event AxisSig)), d.Running r s → d.Running r s :=
    fun _ _ h => h
  have hended : ∀ r (s : τ × List (Event AxisSig)), d.Running r s → d.Ended r s :=
    fun _ _ h => .inr h.1
  refine .cons (V := fun _ => d.Ended) (fun r s hs => preflight_forward hs)
    (fun _ _ _ hs => wp_ret.mpr hs) ?_
  refine .cons (V := fun _ => d.Running) (fun r s hs => fetch_forward hs)
    (fun _ r s hs => wp_ret.mpr (hended r s hs)) ?_
  refine .cons (V := fun _ => d.Running)
    (fun r s hs => wp_running runMigrate_issues runMigrate_yields hs hrunning hrunning)
    (fun _ r s hs => wp_running (keeping_issues undoMigrate_issues) keeping_yields hs
      hrunning hended) ?_
  refine .cons (V := fun _ => d.Running)
    (fun r s hs => wp_running (keeping_issues runActivate_issues) keeping_yields hs
      hrunning hrunning)
    (fun _ r s hs => wp_running (keeping_issues (undoActivate_issues prior)) keeping_yields hs
      hrunning hended) ?_
  refine .cons (V := fun _ => d.Running)
    (fun r s hs => wp_running (keeping_issues runRestart_issues) keeping_yields hs
      hrunning hrunning) (fun _ r s hs => wp_ret.mpr hs) ?_
  refine .cons (V := fun _ => d.Running)
    (fun r s hs => wp_running (keeping_issues runHealth_issues) keeping_yields hs
      hrunning hrunning) (fun _ r s hs => wp_ret.mpr hs) ?_
  exact .cons (V := fun _ => d.Running)
    (fun r s hs => wp_running (keeping_issues runVerify_issues) keeping_yields hs
      hended hrunning) (fun _ r s hs => wp_ret.mpr hs) .nil

theorem wp_runReporting [CharTables] (h : Handler StoreSig σ) (g : Handler AxisSig τ) (s : σ)
    (t : τ) :
    wp (h.prod g.logged) Eq (Guarantee.inr d.Order.guarantee) d.deploy.runReporting
      (fun value w => ∀ report, value = .ok report →
        ∃ r : DeployRuntime, r.warnings = report.warnings ∧ d.Ended r w.2) (s, t, []) := by
  refine wp_bind (wp_store.mpr ⟨trivial, ?_⟩)
  split
  · exact wp_ret.mpr (by simp)
  · split
    · exact wp_ret.mpr (by simp)
    · rename_i prior _
      refine wp_bind (wp_post ?_ (wp_runWithState_anyStore (compensable g prior ⟨_⟩)
        ⟨rfl, rfl⟩))
      intro value w hends
      obtain ⟨s', t', calls⟩ := w
      obtain ⟨outcome, r⟩ := value
      rcases outcome with error | (_ | ⟨step, reason⟩ | reason)
      · exact wp_ret.mpr (by simp)
      · refine wp_bind (wp_store.mpr ⟨trivial, ?_⟩)
        split
        · exact wp_ret.mpr (by simp)
        · refine wp_ret.mpr fun report hreport => ?_
          cases hreport
          exact ⟨r, rfl, hends⟩
      · refine wp_ret.mpr fun report hreport => ?_
        cases hreport
        exact ⟨r, rfl, hends⟩
      · refine wp_ret.mpr fun report hreport => ?_
        cases hreport
        exact ⟨r, rfl, hends⟩

variable (d) in
/-- How a run reports on its throwaway. -/
def Reports (value : Except DeployError DeployRun) (calls : List (Event AxisSig)) : Prop :=
  ∀ report, value = .ok report → ∃ preflight later, calls = preflight ++ later ∧
    (∀ e ∈ preflight, ∀ ctx host, e.cmd ≠ .stage ctx host) ∧
    (later = [] ∨ ∃ ctx host staged rest, later = ⟨.stage ctx host, staged⟩ :: rest) ∧
    (∀ e ∈ later, Untouching e) ∧ d.Swept preflight report.warnings

theorem wp_reports [CharTables] (h : Handler StoreSig σ) (g : Handler AxisSig τ) (s : σ) (t : τ) :
    wp (h.prod g.logged) Eq (Guarantee.inr d.Order.guarantee) d.deploy.runReporting
      (fun value w => d.Reports value w.2.2) (s, t, []) := by
  refine wp_post ?_ (wp_runReporting h g s t)
  intro value w hvalue report hreport
  obtain ⟨r, hwarnings, hended⟩ := hvalue report hreport
  rcases hended with hfresh | hstarted
  · refine ⟨w.2.2, [], by simp, hfresh.2, .inl rfl, by simp, ?_⟩
    rw [← hwarnings]
    exact hfresh.1
  · obtain ⟨preflight, ctx, host, staged, rest, hcalls, hswept, hpreflight, hrest⟩ := hstarted
    refine ⟨preflight, _, hcalls, hpreflight, .inr ⟨ctx, host, staged, rest, rfl⟩, ?_, ?_⟩
    · exact List.forall_mem_cons.mpr ⟨trivial, hrest⟩
    · rw [← hwarnings]
      exact hswept

/-- For every run over every store, whatever the axes answer: nothing is staged, activated,
restarted or migrated on the live database before the preflight that the configuration
calls for has passed, check by check; the adapter's preflight is called at most once; and
what is migrated before that is a throwaway the run has provisioned. -/
theorem run_in_order [CharTables] (d : HostSetup) (h : Handler StoreSig σ)
    (g : Handler AxisSig τ) (sched : List Bool) (w : σ × τ) :
    let run := d.deploy.runReporting.exec (h.prod g) sched w
    ∀ before e after, run.rights = before ++ e :: after →
      (∀ ctx host, e.cmd = .stage ctx host → d.Clear before) ∧
      (∀ ctx host artifact, e.cmd = .activate ctx host artifact → d.Clear before) ∧
      (∀ ctx host, e.cmd = .restart ctx host → d.Clear before) ∧
      (∀ ctx target, e.cmd = .downTo ctx target → d.Clear before) ∧
      (∀ ctx target, e.cmd = .up ctx target → d.Clear before ∨ OnProvisioned ctx before) ∧
      ∀ ctx, e.cmd = .preflight ctx → ∀ f ∈ before, ∀ ctx, f.cmd ≠ .preflight ctx := by
  intro run before e after hsplit
  obtain ⟨s, t⟩ := w
  obtain ⟨-, hkept⟩ := exec_of_logged_right (wp_reports (d := d) h g s t) sched
  have horder : d.Order before e.cmd := hkept before e after hsplit
  refine ⟨?_, ?_, ?_, ?_, ?_, ?_⟩
  · intro ctx host hcmd
    rwa [hcmd] at horder
  · intro ctx host artifact hcmd
    rwa [hcmd] at horder
  · intro ctx host hcmd
    rwa [hcmd] at horder
  · intro ctx target hcmd
    rwa [hcmd] at horder
  · intro ctx target hcmd
    rwa [hcmd] at horder
  · intro ctx hcmd
    rwa [hcmd] at horder

/-- Whatever the axes answer, a throwaway that was provisioned is torn down once before
the preflight step returns. A throwaway that could not be dropped is in the warnings the
step leaves, and in those the run returns, unless a static preflight failed for the
rehearsal itself, which then says nothing of it. -/
theorem run_sweeps [CharTables] (d : HostSetup) (h : Handler StoreSig σ)
    (g : Handler AxisSig τ) (sched : List Bool) (w : σ × τ) :
    (∀ runtime, ∃ warned,
      ((d.deploy.runPreflight runtime).exec g sched w.2).value.2 =
        { runtime with warnings := runtime.warnings ++ warned } ∧
      d.Swept ((d.deploy.runPreflight runtime).exec g sched w.2).calls warned) ∧
    d.Reports (d.deploy.runReporting.exec (h.prod g) sched w).value
      (d.deploy.runReporting.exec (h.prod g) sched w).rights := by
  obtain ⟨s, t⟩ := w
  refine ⟨fun runtime => ?_, (exec_of_logged_right (wp_reports h g s t) sched).1⟩
  exact (exec_of_logged (wp_runPreflight (d := d)) sched).1.2

namespace StuckThrowaway

/-- A deploy that rehearses from an archive. -/
def setup : HostSetup where
  fraise := "app"
  environment := "production"
  host := ⟨"web-1"⟩
  ctx := { AdapterCtx.new "app" "production" with
    envSecrets := [("DATABASE_URL", "DATABASE_URL")] }
  target := none
  rollbackTo := none
  lints := false
  policy := none
  hookWired := false
  rehearses := true
  backupSource := .archive "/backups/app.dump"
  probesReadiness := false
  ownsDatabase := true

def throwaway : ThrowawayDb :=
  ⟨"postgres://db/app_fraisier_rh_1", "app_fraisier_rh_1", "app"⟩

/-- The archive restores, the migration fails on it and the copy cannot be dropped. -/
def axes : Handler AxisSig Unit := fun c s =>
  match c with
  | .var _ => (.ok "postgres://db/app", ())
  | .provision _ _ => (.ok throwaway, ())
  | .teardown _ => (.error "database is being accessed by other users", ())
  | .up _ _ => (.error (.new .schemaError "column exists"), ())
  | c => Axes.unreachable c s

end StuckThrowaway

/-- The throwaway could not be dropped, and the run returns no warning. -/
theorem run_hides_leak_archive :
    (⟨.teardown StuckThrowaway.throwaway, .error "database is being accessed by other users"⟩ :
        Event AxisSig) ∈
      (StuckThrowaway.setup.deploy.runReporting.exec (memoryStore.prod StuckThrowaway.axes) []
        (.empty, ())).rights ∧
    ∃ report, (StuckThrowaway.setup.deploy.runReporting.exec
        (memoryStore.prod StuckThrowaway.axes) [] (.empty, ())).value = .ok report ∧
      report.warnings = [] := by
  refine ⟨?_, _, rfl, rfl⟩
  exact .tail _ (.tail _ (.tail _ (.head _)))

end HostSetup

end Fraisier.Core
