import Fraisier.Cli.Preview
import Fraisier.Core.BlueGreenOrder
import Fraisier.Core.HostOrder
import Fraisier.Core.MultiHost
import Fraisier.Core.PolicyAdmission

/-!
# The preview and the live preflight

A `Deployment` is what both `deploy --dry-run` and the deploy itself are built from. Its
preview and its live preflight are two programs over the axes, and `Answers` fixes what the
migration adapter says to both. Read `preview_agrees` first: a verdict of the preview is
the verdict of the live gate.
-/

namespace Fraisier.Cli

open Fraisier.Effect Fraisier.Core Fraisier.Saga

variable {τ : Type}

/-! ## The two runs -/

/-- How a deployable is deployed, with what only that strategy reads. -/
inductive Strategy where
  | singleHost (host : HostId)
  | multiHost (inventory : List HostEntry) (rollout : RolloutStrategy) (lb : LbAdapter AxisSig)
  | blueGreen (green : TrafficTarget) (hold greenPool budgetMargin : Nat) (probesBudget : Bool)

/-- A configured deployable. -/
structure Deployment where
  fraise : String
  environment : String
  ctx : AdapterCtx
  strategy : Strategy
  lints : Bool
  rehearsal : Option BackupSource
  policy : Option Policy
  hookWired : Bool
  approvalCommand : Option String
  probesReadiness : Bool
  ownsDatabase : Bool

namespace Deployment

variable (d : Deployment)

/-- The always-on rule of the strategy. -/
def baseline : Baseline :=
  match d.strategy with
  | .blueGreen _ _ _ _ _ => .windowSafety
  | _ => .none

/-- What a dry run inspects. -/
def previewTarget : PreviewTarget AxisSig where
  migration := Axes.migration d.ownsDatabase
  ctx :=
    match d.strategy with
    | .singleHost host => { d.ctx with host := some host }
    | _ => d.ctx
  forwardCompatibleLint := d.lints
  restoreRehearsal := d.rehearsal.map fun backup => (Axes.rehearsal, backup)

/-- The preview of a deploy. A blue-green plan is static and does not skip its preflight. -/
def preview [CharTables] (skipPreflight : Bool) (depth : Depth) : Prog AxisSig SchemaPreview :=
  let gate := Axes.gate d.policy d.hookWired
  let target := .ok d.previewTarget
  match d.strategy with
  | .singleHost _ =>
      previewSchema Axes.os gate d.approvalCommand target .none skipPreflight true depth
  | .multiHost _ _ _ =>
      previewSchema Axes.os gate d.approvalCommand target .none skipPreflight false depth
  | .blueGreen _ _ _ _ _ =>
      previewSchema Axes.os gate d.approvalCommand target .windowSafety false false .static

/-- The single-host deploy. Skipping the preflight turns off the lint, the rehearsal and
the readiness probe. -/
def singleHost (host : HostId) (skipPreflight : Bool) : HostSetup where
  fraise := d.fraise
  environment := d.environment
  host := host
  ctx := d.ctx
  target := none
  rollbackTo := none
  lints := d.lints && !skipPreflight
  policy := d.policy
  hookWired := d.hookWired
  rehearses := d.rehearsal.isSome && !skipPreflight
  backupSource := d.rehearsal.getD .freshDump
  probesReadiness := d.probesReadiness && !skipPreflight
  ownsDatabase := d.ownsDatabase

/-- The multi-host deploy. It is built without looking at `--skip-preflight`. -/
def multiHost (inventory : List HostEntry) (rollout : RolloutStrategy) (lb : LbAdapter AxisSig) :
    MultiHostDeploy AxisSig where
  fraise := d.fraise
  environment := d.environment
  strategy := rollout
  inventory := inventory
  ctx := d.ctx
  target := none
  forwardCompatibleLint := d.lints
  policy := Axes.gate d.policy d.hookWired
  databaseReadiness := if d.probesReadiness then some Axes.readiness else none
  os := Axes.os
  artifact := Axes.artifact
  migration := Axes.migration d.ownsDatabase
  service := Axes.service
  health := Axes.health
  lb := lb

/-- The blue-green deploy. It lints whatever the configuration says. -/
def blueGreen (green : TrafficTarget) (hold greenPool budgetMargin : Nat) (probesBudget : Bool) :
    BlueGreenPlan where
  fraise := d.fraise
  environment := d.environment
  ctx := d.ctx
  green := green
  hold := hold
  greenPool := greenPool
  budgetMargin := budgetMargin
  policy := d.policy
  hookWired := d.hookWired
  probesReadiness := d.probesReadiness
  probesBudget := probesBudget
  ownsDatabase := d.ownsDatabase

/-- The preflight step of the deploy itself. -/
def live (skipPreflight : Bool) : Prog AxisSig (Except SagaError Unit) :=
  match d.strategy with
  | .singleHost host => do
      let result ← (d.singleHost host skipPreflight).deploy.runPreflight .default
      return result.1
  | .multiHost inventory rollout lb => (d.multiHost inventory rollout lb).runPreflight
  | .blueGreen green hold greenPool budgetMargin probesBudget =>
      (d.blueGreen green hold greenPool budgetMargin probesBudget).deploy.runPreflight

end Deployment

/-! ## The answers of the migration adapter -/

/-- How the migration adapter describes itself and what its preflight says. -/
structure Answers where
  described : Except AdapterError AdapterDescription
  report : Except AdapterError PreflightReport

namespace Answers

variable (a : Answers)

/-- Answer for the migration adapter, and otherwise as before. -/
def orElse (g : Handler AxisSig τ) : Handler AxisSig τ := fun c s =>
  match c with
  | .describe => (a.described, (g .describe s).2)
  | .preflight ctx => (a.report, (g (.preflight ctx) s).2)
  | c => g c s

/-- The migration adapter was answered for. -/
def Given (calls : List (Event AxisSig)) : Prop :=
  (∀ x, (⟨.describe, x⟩ : Event AxisSig) ∈ calls → x = a.described) ∧
    ∀ ctx x, (⟨.preflight ctx, x⟩ : Event AxisSig) ∈ calls → x = a.report

/-- What an inspection of the migration adapter comes to. -/
def inspection : Except AdapterError Inspection :=
  match a.described with
  | .error error => .error error
  | .ok described =>
      if (Capabilities.fromAdvertised described.capabilities).preflight then
        match a.report with
        | .error error => .error error
        | .ok report =>
            .ok ⟨some described, .fromAdvertised described.capabilities, some report⟩
      else .ok ⟨some described, .fromAdvertised described.capabilities, none⟩

variable {a}

theorem given_append {calls more : List (Event AxisSig)} :
    a.Given (calls ++ more) ↔ a.Given calls ∧ a.Given more := by
  simp only [Given, List.mem_append]
  grind

/-- Every run that is answered for is. -/
theorem given_exec {α : Type} (p : Prog AxisSig α) (g : Handler AxisSig τ) (sched : List Bool)
    (t : τ) : a.Given (p.exec (a.orElse g) sched t).calls := by
  induction p generalizing sched t with
  | ret x => simp [Given, Run.calls]
  | choose k ih => exact ih _ _ _
  | call c k ih =>
      have hrest := ih (a.orElse g c t).1 sched (a.orElse g c t).2
      show a.Given ([⟨c, (a.orElse g c t).1⟩] ++ _)
      refine given_append.mpr ⟨⟨?_, ?_⟩, hrest⟩
      · intro x hx
        cases List.mem_singleton.mp hx
        rfl
      · intro ctx x hx
        cases List.mem_singleton.mp hx
        rfl

end Answers

theorem inspectDescribed_given {a : Answers} {described : AdapterDescription}
    (hdescribed : a.described = .ok described) (owns : Bool) (ctx : AdapterCtx) :
    (inspectDescribed (Axes.migration owns) ctx described).Yields
      fun value calls => a.Given calls → value = a.inspection := by
  simp only [inspectDescribed, Answers.inspection, hdescribed]
  split
  · refine .bind (.perform ?_)
    intro x
    cases x with
    | error error =>
        intro hgiven
        have hreport := hgiven.2 ctx _ List.mem_cons_self
        rw [← hreport]
    | ok report =>
        intro hgiven
        have hreport := hgiven.2 ctx _ List.mem_cons_self
        rw [← hreport]
  · exact fun _ => rfl

theorem inspect_given (a : Answers) (owns : Bool) (ctx : AdapterCtx) :
    (inspect (Axes.migration owns) ctx).Yields
      fun value calls => a.Given calls → value = a.inspection := by
  refine .bind (.perform ?_)
  intro x
  cases x with
  | error error =>
      intro hgiven
      have hdescribed := hgiven.1 _ List.mem_cons_self
      simp only [Answers.inspection, ← hdescribed]
  | ok described =>
      by_cases hdescribed : a.described = .ok described
      · refine (inspectDescribed_given hdescribed owns ctx).mono ?_
        intro value calls hvalue hgiven
        exact hvalue (Answers.given_append.mp hgiven).2
      · refine (Prog.Yields.any _).mono ?_
        intro value calls _ hgiven
        exact absurd (hgiven.1 _ List.mem_cons_self).symm hdescribed

/-! ## What else can stop a preflight -/

/-- A check of the preflight other than the gate and the lint failed or refused. -/
inductive Stops (greenPool budgetMargin : Nat) : Event AxisSig → Prop
  | secret {name : String} {error : VarError} :
      Stops greenPool budgetMargin ⟨.var name, .error error⟩
  | probe {dsn error : String} : Stops greenPool budgetMargin ⟨.unready dsn, .error error⟩
  | unready {dsn reason : String} {reasons : List String} :
      Stops greenPool budgetMargin ⟨.unready dsn, .ok (reason :: reasons)⟩
  | provision {dsn : String} {backup : BackupSource} {error : RehearsalError} :
      Stops greenPool budgetMargin ⟨.provision dsn backup, .error error⟩
  | rehearsal {ctx : AdapterCtx} {target : Option Revision} {error : AdapterError} :
      Stops greenPool budgetMargin ⟨.up ctx target, .error error⟩
  | connections {ctx : AdapterCtx} {error : String} :
      Stops greenPool budgetMargin ⟨.budget ctx, .error error⟩
  | exhausted {ctx : AdapterCtx} {snapshot : BudgetSnapshot} {reason : String}
      (hrefuse : snapshot.evaluate greenPool budgetMargin = .refuse reason) :
      Stops greenPool budgetMargin ⟨.budget ctx, .ok snapshot⟩
  | unreachable {ctx : AdapterCtx} {host : HostId} {error : AdapterError} :
      Stops greenPool budgetMargin ⟨.status ctx host, .error error⟩

/-- The address of the database is not declared at all. -/
def Undeclared (ctx : AdapterCtx) : Prop :=
  ctx.resolvedSecrets.lookup databaseUrlSecret = none ∧
    ctx.envSecrets.lookup databaseUrlSecret = none

/-- One of the other checks stopped the preflight. -/
def Interrupted (ctx : AdapterCtx) (greenPool budgetMargin : Nat) (calls : List (Event AxisSig)) :
    Prop :=
  Undeclared ctx ∨ ∃ e ∈ calls, Stops greenPool budgetMargin e

section Interrupted

variable {ctx : AdapterCtx} {greenPool budgetMargin : Nat} {calls more : List (Event AxisSig)}

theorem Interrupted.mono (h : Interrupted ctx greenPool budgetMargin calls) (hsub : calls ⊆ more) :
    Interrupted ctx greenPool budgetMargin more := by
  obtain hundeclared | ⟨e, he, hstops⟩ := h
  · exact .inl hundeclared
  · exact .inr ⟨e, hsub he, hstops⟩

/-- A check returns a value, or is the one that stops the preflight. -/
def Smooth {ε α : Type} (ctx : AdapterCtx) (greenPool budgetMargin : Nat) (value : Except ε α)
    (calls : List (Event AxisSig)) : Prop :=
  (∃ a, value = .ok a) ∨ Interrupted ctx greenPool budgetMargin calls

/-- After a smooth check, what the rest comes to is what the whole comes to. -/
theorem Smooth.bind {ε δ α β : Type} {p : Prog AxisSig (Except ε α)}
    {f : Except ε α → Prog AxisSig (Except δ β)}
    (hp : p.Yields (Smooth ctx greenPool budgetMargin))
    (herror : ∀ error, (f (.error error)).Yields fun _ _ => True)
    (hok : ∀ a, (f (.ok a)).Yields (Smooth ctx greenPool budgetMargin)) :
    (p >>= f).Yields (Smooth ctx greenPool budgetMargin) := by
  refine .bind (hp.mono ?_)
  intro value calls hvalue
  cases value with
  | ok a =>
      refine (hok a).mono ?_
      intro b more hb
      obtain hok | hinterrupted := hb
      · exact .inl hok
      · exact .inr (hinterrupted.mono (by simp))
  | error error =>
      obtain ⟨_, hnot⟩ | hinterrupted := hvalue
      · cases hnot
      · refine (herror error).mono ?_
        intro b more _
        exact .inr (hinterrupted.mono (by simp))

variable (greenPool budgetMargin)

theorem secret_smooth : (ctx.secret Axes.os databaseUrlSecret).Yields
    (Smooth ctx greenPool budgetMargin) := by
  unfold AdapterCtx.secret
  cases hheld : ctx.resolvedSecrets.lookup databaseUrlSecret with
  | some value => exact .inl ⟨value, rfl⟩
  | none =>
      cases hsource : ctx.envSecrets.lookup databaseUrlSecret with
      | none => exact .inr (.inl ⟨hheld, hsource⟩)
      | some source =>
          refine .bind (.perform ?_)
          intro x
          cases x with
          | error cause => exact .inr (.inr ⟨_, List.mem_cons_self, .secret⟩)
          | ok value => exact .inl ⟨value, rfl⟩

theorem readiness_smooth : (Axes.readiness.check Axes.os ctx).Yields
    (Smooth ctx greenPool budgetMargin) := by
  refine Smooth.bind (secret_smooth greenPool budgetMargin) (fun _ => trivial) ?_
  intro dsn
  refine .bind (.perform ?_)
  intro x
  rcases x with error | (_ | ⟨reason, reasons⟩)
  · exact .inr (.inr ⟨_, List.mem_cons_self, .probe⟩)
  · exact .inl ⟨(), rfl⟩
  · exact .inr (.inr ⟨_, List.mem_cons_self, .unready⟩)

theorem provision_smooth {backup : BackupSource} :
    (provision Axes.rehearsal Axes.os ctx backup).Yields (Smooth ctx greenPool budgetMargin) := by
  refine Smooth.bind (secret_smooth greenPool budgetMargin) (fun _ => trivial) ?_
  intro dsn
  refine .perform ?_
  intro x
  cases x with
  | error error => exact .inr (.inr ⟨_, List.mem_cons_self, .provision⟩)
  | ok throwaway => exact .inl ⟨throwaway, rfl⟩

theorem rehearseOn_smooth {owns : Bool} {throwaway : ThrowawayDb} :
    (rehearseOn (Axes.migration owns) ctx throwaway).Yields
      (Smooth ctx greenPool budgetMargin) := by
  refine .bind (.perform ?_)
  intro x
  cases x with
  | error error => exact .inr (.inr ⟨_, List.mem_cons_self, .rehearsal⟩)
  | ok outcome => exact .inl ⟨outcome.applied, rfl⟩

theorem runRestoreRehearsal_smooth {owns : Bool} {backup : BackupSource} :
    (runRestoreRehearsal Axes.rehearsal Axes.os (Axes.migration owns) ctx backup).Yields
      (Smooth ctx greenPool budgetMargin) := by
  refine Smooth.bind (provision_smooth greenPool budgetMargin) (fun _ => trivial) ?_
  intro throwaway
  refine .bind ((rehearseOn_smooth greenPool budgetMargin).mono ?_)
  intro applied calls hsmooth
  refine .bind (.perform ?_)
  intro torn
  cases applied with
  | error error =>
      obtain ⟨_, hnot⟩ | hinterrupted := hsmooth
      · cases hnot
      · exact .inr (hinterrupted.mono (by simp))
  | ok applied => exact .inl ⟨_, rfl⟩

end Interrupted

/-! ## What the gate and the lint decide -/

/-- The hook approved these reasons. -/
def Approved (ctx : AdapterCtx) (reasons : List PolicyReason) (calls : List (Event AxisSig)) :
    Prop :=
  ∃ approver, (⟨.approve (.new ctx.fraise ctx.environment reasons), .approved approver⟩ :
    Event AxisSig) ∈ calls

/-- A report has a blocking finding. -/
def Blocking (inspection : Inspection) : Prop :=
  ∃ report, inspection.report = some report ∧ ∃ issue ∈ report.issues, issue.severity = .error

/-- The outcome of a preflight whose gate decides `decision`, whose lint is `blocked`, and
that may be stopped by nothing but `interrupted`. -/
structure Follows (decision : PolicyDecision) (blocked interrupted : Prop) (ctx : AdapterCtx)
    (value : Except SagaError Unit) (calls : List (Event AxisSig)) : Prop where
  allow : ∀ changes, decision = .allow changes → ¬blocked → value = .ok () ∨ interrupted
  blocked : blocked → value ≠ .ok ()
  deny : ∀ reason reasons, decision = .deny reason reasons → value ≠ .ok ()
  approval : ∀ reasons, decision = .needsApproval reasons → value = .ok () →
    Approved ctx reasons calls

section Follows

variable {decision : PolicyDecision} {blocked interrupted : Prop} {ctx : AdapterCtx}
  {value : Except SagaError Unit} {calls more : List (Event AxisSig)}

theorem Follows.of_error {error : SagaError} (hinterrupted : interrupted) :
    Follows decision blocked interrupted ctx (.error error) calls :=
  ⟨fun _ _ _ => .inr hinterrupted, fun _ => nofun, fun _ _ _ => nofun, fun _ _ => nofun⟩

theorem Follows.mono {interrupted' : Prop}
    (h : Follows decision blocked interrupted ctx value calls)
    (hinterrupted : interrupted → interrupted') (hsub : calls ⊆ more) :
    Follows decision blocked interrupted' ctx value more := by
  refine ⟨?_, h.blocked, h.deny, ?_⟩
  · intro changes hdecision hblocked
    exact (h.allow changes hdecision hblocked).imp_right hinterrupted
  · intro reasons hdecision hvalue
    obtain ⟨approver, hmem⟩ := h.approval reasons hdecision hvalue
    exact ⟨approver, hsub hmem⟩

/-- A refusal of the gate or the lint is the outcome, whatever is called later. -/
theorem Follows.error_mono {error : SagaError} {interrupted' : Prop}
    (h : Follows decision blocked False ctx (.error error) calls) :
    Follows decision blocked interrupted' ctx (.error error) more := by
  refine ⟨?_, h.blocked, h.deny, fun _ _ => nofun⟩
  intro changes hdecision hblocked
  obtain hvalue | hfalse := h.allow changes hdecision hblocked
  · cases hvalue
  · exact hfalse.elim

/-- What comes after a gate and a lint that passed decides the outcome. -/
theorem Follows.ok_mono {later : Except SagaError Unit} {interrupted' : Prop}
    (h : Follows decision blocked interrupted ctx (.ok ()) calls) (hsub : calls ⊆ more)
    (hlater : later = .ok () ∨ interrupted') :
    Follows decision blocked interrupted' ctx later more := by
  refine ⟨fun _ _ _ => hlater, fun hblocked => absurd rfl (h.blocked hblocked),
    fun reason reasons hdecision => absurd rfl (h.deny reason reasons hdecision), ?_⟩
  intro reasons hdecision _
  obtain ⟨approver, hmem⟩ := h.approval reasons hdecision rfl
  exact ⟨approver, hsub hmem⟩

end Follows

/-- The verdict of a gate, as the outcome of a step. -/
theorem follows_of_resolves {wired : Bool} {ctx : AdapterCtx} {decision : PolicyDecision}
    {verdict : Except String Unit} {calls : List (Event AxisSig)}
    (h : Resolves wired ctx decision verdict calls) {v : Except SagaError Unit}
    (hvalue : v = .ok () ↔ verdict = .ok ()) : Follows decision False False ctx v calls := by
  refine ⟨?_, False.elim, ?_, ?_⟩
  · intro changes hdecision _
    rw [hdecision] at h
    exact .inl (hvalue.mpr h.1)
  · intro reason reasons hdecision hok
    rw [hdecision] at h
    exact h.1 (hvalue.mp hok)
  · intro reasons hdecision hok
    rw [hdecision] at h
    cases wired with
    | false => exact absurd (hvalue.mp hok) h.1
    | true =>
        obtain ⟨asked, hcalls, hiff⟩ := h
        obtain ⟨approver, rfl⟩ := hiff.mp (hvalue.mp hok)
        rw [hcalls]
        exact ⟨approver, List.mem_cons_self⟩

/-- A lint after a gate. -/
theorem Follows.lint {decision : PolicyDecision} {ctx : AdapterCtx}
    {calls : List (Event AxisSig)} (h : Follows decision False False ctx (.ok ()) calls)
    {blocked : Prop} {lint : Except SagaError Unit} (hlint : lint = .ok () ↔ ¬blocked) :
    Follows decision blocked False ctx lint calls := by
  refine ⟨fun _ _ hblocked => .inl (hlint.mpr hblocked),
    fun hblocked hok => hlint.mp hok hblocked,
    fun reason reasons hdecision => absurd rfl (h.deny reason reasons hdecision), ?_⟩
  intro reasons hdecision _
  exact h.approval reasons hdecision rfl

theorem Follows.refused {decision : PolicyDecision} {ctx : AdapterCtx} {error : SagaError}
    {calls : List (Event AxisSig)} {blocked : Prop}
    (h : Follows decision False False ctx (.error error) calls) :
    Follows decision blocked False ctx (.error error) calls := by
  refine ⟨?_, fun _ => nofun, h.deny, fun _ _ => nofun⟩
  intro changes hdecision _
  exact h.allow changes hdecision id

theorem runForwardCompatLint_eq_ok_iff {inspection : Inspection} :
    SingleHostDeploy.runForwardCompatLint inspection = .ok () ↔ ¬Blocking inspection := by
  constructor
  · intro hlint hblocking
    obtain ⟨report, hreport, issue, hissue, herror⟩ := hblocking
    exact HostSetup.unblocked_of_lint hlint report hreport issue hissue herror
  · intro hnone
    unfold SingleHostDeploy.runForwardCompatLint
    cases hreport : inspection.report with
    | none => rfl
    | some report =>
        have hfilter : (report.issues.filter fun issue => issue.severity == .error) = [] := by
          refine List.filter_eq_nil_iff.mpr ?_
          intro issue hissue herror
          exact hnone ⟨report, hreport, issue, hissue, by simpa using herror⟩
        simp [hfilter]

theorem multiHost_lint_eq_ok_iff {inspection : Inspection} :
    MultiHostDeploy.runForwardCompatLint inspection = .ok () ↔ ¬Blocking inspection := by
  unfold MultiHostDeploy.runForwardCompatLint Blocking
  cases inspection.report with
  | none => simp
  | some report =>
      simp [List.length_pos_iff_exists_mem]

/-! ## The live preflight -/

namespace Deployment

variable (d : Deployment)

/-- What the live preflight learns about the migration adapter. -/
def liveInspection (skipPreflight : Bool) (a : Answers) : Except AdapterError Inspection :=
  match d.strategy with
  | .singleHost _ => if d.lints && !skipPreflight then a.inspection else .ok .default
  | .multiHost _ _ _ => if d.lints then a.inspection else .ok .default
  | .blueGreen _ _ _ _ _ => a.inspection

/-- The lint of the strategy blocks. Blue-green runs none. -/
def Blocked (inspection : Inspection) : Prop :=
  match d.strategy with
  | .blueGreen _ _ _ _ _ => False
  | _ => Blocking inspection

/-- A check other than the gate and the lint stopped the preflight. -/
def Stopped (calls : List (Event AxisSig)) : Prop :=
  match d.strategy with
  | .blueGreen _ _ greenPool budgetMargin _ => Interrupted d.ctx greenPool budgetMargin calls
  | _ => Interrupted d.ctx 0 0 calls

/-- What the gate decides about an inspection. -/
def decide (inspection : Inspection) : PolicyDecision :=
  evaluate d.policy d.baseline inspection.capabilities inspection.report

/-- The outcome of the live preflight follows from what it learned. -/
def Conforms (inspected : Except AdapterError Inspection) (value : Except SagaError Unit)
    (calls : List (Event AxisSig)) : Prop :=
  match inspected with
  | .error _ => value ≠ .ok ()
  | .ok inspection =>
      Follows (d.decide inspection) (d.Blocked inspection) (d.Stopped calls) d.ctx value calls

variable {d} {a : Answers} {inspected : Except AdapterError Inspection}

theorem Stopped.mono {calls more : List (Event AxisSig)} (h : d.Stopped calls)
    (hsub : calls ⊆ more) : d.Stopped more := by
  unfold Stopped at h ⊢
  split at h <;> exact Interrupted.mono h hsub

theorem Conforms.mono {value : Except SagaError Unit} {calls more : List (Event AxisSig)}
    (h : d.Conforms inspected value calls) (hsub : calls ⊆ more) :
    d.Conforms inspected value more := by
  cases inspected with
  | error error => exact h
  | ok inspection => exact Follows.mono h (fun hstopped => hstopped.mono hsub) hsub

theorem Conforms.of_stopped {error : SagaError} {calls : List (Event AxisSig)}
    (h : d.Stopped calls) : d.Conforms inspected (.error error) calls := by
  cases inspected with
  | error _ => exact nofun
  | ok inspection => exact .of_error h

/-- The outcome of a preflight that passed so far is that of the rest. -/
theorem Conforms.later {value : Except SagaError Unit} {calls more : List (Event AxisSig)}
    (h : d.Conforms inspected (.ok ()) calls) (hsub : calls ⊆ more)
    (hlater : value = .ok () ∨ d.Stopped more) : d.Conforms inspected value more := by
  cases inspected with
  | error error => exact absurd rfl h
  | ok inspection => exact Follows.ok_mono h hsub hlater

/-- A check that may stop the preflight, before the rest of it. -/
theorem conforms_check {α β : Type} (out : β → Except SagaError Unit)
    {p : Prog AxisSig (Except SagaError α)} {f : Except SagaError α → Prog AxisSig β}
    (hp : p.Yields fun value calls => (∃ x, value = .ok x) ∨ d.Stopped calls)
    (herror : ∀ error, (f (.error error)).Yields fun value _ => ∃ e, out value = .error e)
    (hok : ∀ x, (f (.ok x)).Yields
      fun value calls => a.Given calls → d.Conforms inspected (out value) calls) :
    (p >>= f).Yields fun value calls => a.Given calls → d.Conforms inspected (out value) calls := by
  refine .bind (hp.mono ?_)
  intro value calls hvalue
  cases value with
  | ok x =>
      refine (hok x).mono ?_
      intro later more hlater hgiven
      exact (hlater (Answers.given_append.mp hgiven).2).mono (by simp)
  | error error =>
      obtain ⟨_, hnot⟩ | hstopped := hvalue
      · cases hnot
      · refine (herror error).mono ?_
        intro later more hlater _
        obtain ⟨e, he⟩ := hlater
        rw [he]
        exact .of_stopped (hstopped.mono (by simp))

/-- The gate and the lint, before the rest of the preflight. -/
theorem conforms_judge {β : Type} (out : β → Except SagaError Unit) {inspection : Inspection}
    {p : Prog AxisSig (Except SagaError Unit)} {f : Except SagaError Unit → Prog AxisSig β}
    (hp : p.Yields (Follows (d.decide inspection) (d.Blocked inspection) False d.ctx))
    (herror : ∀ error, (f (.error error)).Yields fun value _ => out value = .error error)
    (hok : (f (.ok ())).Yields fun value calls => out value = .ok () ∨ d.Stopped calls) :
    (p >>= f).Yields fun value calls => d.Conforms (.ok inspection) (out value) calls := by
  refine .bind (hp.mono ?_)
  intro value calls hfollows
  cases value with
  | error error =>
      refine (herror error).mono ?_
      intro later more hlater
      rw [hlater]
      exact hfollows.error_mono
  | ok _ =>
      refine hok.mono ?_
      intro later more hlater
      exact hfollows.ok_mono (by simp) (hlater.imp_right fun h => h.mono (by simp))

/-- An inspection learned what the answers come to. -/
def Learns {ε : Type} (inspected : Except AdapterError Inspection) (value : Except ε Inspection) :
    Prop :=
  (∀ inspection, value = .ok inspection → inspected = .ok inspection) ∧
    ∀ error, value = .error error → ∃ cause, inspected = .error cause

theorem Learns.of_eq {value : Except AdapterError Inspection} (h : value = inspected) :
    Learns inspected value := by
  subst h
  exact ⟨fun _ hvalue => hvalue, fun error hvalue => ⟨error, hvalue⟩⟩

/-- An inspection whose error is turned into one of the step. -/
theorem learns_map {p : Prog AxisSig (Except AdapterError Inspection)}
    (hp : p.Yields fun value calls => a.Given calls → value = a.inspection)
    {f : Except AdapterError Inspection → Prog AxisSig (Except SagaError Inspection)}
    (herror : ∀ error, f (.error error) = .ret (.error (Core.failed "preflight" error)))
    (hok : ∀ inspection, f (.ok inspection) = .ret (.ok inspection)) :
    (p >>= f).Yields fun value calls => a.Given calls → Learns a.inspection value := by
  refine .bind (hp.mono ?_)
  intro value calls hvalue
  cases value with
  | error error =>
      rw [herror]
      intro hgiven
      have hinspection := hvalue (Answers.given_append.mp hgiven).1
      exact ⟨nofun, fun _ _ => ⟨error, hinspection.symm⟩⟩
  | ok inspection =>
      rw [hok]
      intro hgiven
      have hinspection := hvalue (Answers.given_append.mp hgiven).1
      exact ⟨fun _ hsame => by cases hsame; exact hinspection.symm, nofun⟩

/-- The inspection, before the rest of the preflight. -/
theorem conforms_inspect {ε β : Type} (out : β → Except SagaError Unit)
    {p : Prog AxisSig (Except ε Inspection)} {f : Except ε Inspection → Prog AxisSig β}
    (hp : p.Yields fun value calls => a.Given calls → Learns inspected value)
    (herror : ∀ error, (f (.error error)).Yields fun value _ => ∃ e, out value = .error e)
    (hok : ∀ inspection, (f (.ok inspection)).Yields
      fun value calls => d.Conforms (.ok inspection) (out value) calls) :
    (p >>= f).Yields fun value calls => a.Given calls → d.Conforms inspected (out value) calls := by
  refine .bind (hp.mono ?_)
  intro value calls hvalue
  cases value with
  | error error =>
      refine (herror error).mono ?_
      intro later more hlater hgiven
      obtain ⟨cause, hcause⟩ := (hvalue (Answers.given_append.mp hgiven).1).2 error rfl
      obtain ⟨e, he⟩ := hlater
      rw [hcause, he]
      exact nofun
  | ok inspection =>
      refine (hok inspection).mono ?_
      intro later more hlater hgiven
      rw [(hvalue (Answers.given_append.mp hgiven).1).1 inspection rfl]
      exact hlater.mono (by simp)

section BlueGreen

variable {green : TrafficTarget} {hold greenPool budgetMargin : Nat} {probesBudget : Bool}
  (hstrategy : d.strategy = .blueGreen green hold greenPool budgetMargin probesBudget)
include hstrategy

theorem stopped_blueGreen {calls : List (Event AxisSig)}
    (h : Interrupted d.ctx greenPool budgetMargin calls) : d.Stopped calls := by
  rw [Stopped, hstrategy]
  exact h

theorem live_blueGreen :
    (d.blueGreen green hold greenPool budgetMargin probesBudget).deploy.runPreflight.Yields
      fun value calls => a.Given calls → d.Conforms a.inspection value calls := by
  refine conforms_check id ?_ (fun error => ⟨_, rfl⟩) fun _ => ?_
  · dsimp only [BlueGreenDeploy.checkReadiness, BlueGreenPlan.deploy, blueGreen]
    cases d.probesReadiness with
    | false => exact .inl ⟨(), rfl⟩
    | true => exact (readiness_smooth greenPool budgetMargin).mono fun _ _ h =>
        h.imp_right (stopped_blueGreen hstrategy)
  refine conforms_inspect id
    ((inspect_given a d.ownsDatabase d.ctx).mono fun _ _ h hgiven => .of_eq (h hgiven))
    (fun error => ⟨_, rfl⟩) ?_
  intro inspection
  refine .bind ((admit_resolves d.policy d.hookWired .windowSafety inspection.capabilities
    inspection.report d.ctx).mono ?_)
  intro verdict calls hresolves
  have hdecide : d.decide inspection =
      evaluate d.policy .windowSafety inspection.capabilities inspection.report := by
    rw [decide, baseline, hstrategy]
  have hblocked : d.Blocked inspection = False := by
    rw [Blocked, hstrategy]
  rw [← hdecide] at hresolves
  dsimp only [Conforms]
  rw [hblocked]
  cases verdict with
  | error reason =>
      have hfollows := follows_of_resolves (v := .error (.stepFailed "preflight" reason))
        hresolves (by simp)
      exact hfollows.error_mono
  | ok _ =>
      have hfollows := follows_of_resolves (v := .ok ()) hresolves (by simp)
      refine Prog.Yields.mono (A := Smooth d.ctx greenPool budgetMargin) ?_ ?_
      · dsimp only [BlueGreenDeploy.checkBudget, BlueGreenPlan.deploy, blueGreen]
        cases probesBudget with
        | false => exact .inl ⟨(), rfl⟩
        | true =>
            refine .bind (.perform ?_)
            intro x
            cases x with
            | error error => exact .inr (.inr ⟨_, List.mem_cons_self, .connections⟩)
            | ok snapshot =>
                dsimp only
                split
                · rename_i hrefuse
                  exact .inr (.inr ⟨_, List.mem_cons_self, .exhausted hrefuse⟩)
                · exact .inl ⟨(), rfl⟩
                · exact .inl ⟨(), rfl⟩
      · intro value more hvalue
        refine hfollows.ok_mono (by simp) (hvalue.imp ?_ ?_)
        · intro hok
          obtain ⟨_, hok⟩ := hok
          exact hok
        · intro hinterrupted
          exact stopped_blueGreen hstrategy (hinterrupted.mono (by simp))

end BlueGreen

section OneVersion

variable {inspection : Inspection}

/-- The gate of a strategy that runs one version at a time. -/
theorem gate_follows (hbaseline : d.baseline = .none)
    {f : Except String Unit → Prog AxisSig (Except SagaError Unit)}
    (herror : ∀ reason, f (.error reason) = .ret (.error (.stepFailed "preflight" reason)))
    (hok : f (.ok ()) = .ret (.ok ())) :
    ( PolicyGate.admit (Axes.gate d.policy d.hookWired) .none inspection.capabilities
      inspection.report d.ctx >>= f).Yields (Follows (d.decide inspection) False False d.ctx) := by
  refine .bind ((admit_resolves d.policy d.hookWired .none inspection.capabilities
    inspection.report d.ctx).mono ?_)
  intro verdict calls hresolves
  have hdecide : d.decide inspection =
      evaluate d.policy .none inspection.capabilities inspection.report := by
    rw [decide, hbaseline]
  rw [← hdecide] at hresolves
  cases verdict with
  | error reason =>
      rw [herror]
      exact (follows_of_resolves hresolves (by simp)).mono id (by simp)
  | ok _ =>
      rw [hok]
      exact (follows_of_resolves hresolves (by simp)).mono id (by simp)

/-- The gate with the lint after it. -/
theorem lint_follows (hblocked : d.Blocked inspection = Blocking inspection)
    {p : Prog AxisSig (Except SagaError Unit)}
    (hp : p.Yields (Follows (d.decide inspection) False False d.ctx))
    {lint : Except SagaError Unit} (hlint : lint = .ok () ↔ ¬Blocking inspection)
    {f : Except SagaError Unit → Prog AxisSig (Except SagaError Unit)}
    (herror : ∀ error, f (.error error) = .ret (.error error)) (hok : f (.ok ()) = .ret lint) :
    (p >>= f).Yields (Follows (d.decide inspection) (d.Blocked inspection) False d.ctx) := by
  refine .bind (hp.mono ?_)
  intro verdict calls hfollows
  rw [hblocked]
  cases verdict with
  | error error =>
      rw [herror]
      exact hfollows.refused.mono id (by simp)
  | ok _ =>
      rw [hok]
      exact (hfollows.lint hlint).mono id (by simp)

end OneVersion

section MultiHost

variable {inventory : List HostEntry} {rollout : RolloutStrategy} {lb : LbAdapter AxisSig}
  (hstrategy : d.strategy = .multiHost inventory rollout lb)
include hstrategy

theorem stopped_multiHost {calls : List (Event AxisSig)} (h : Interrupted d.ctx 0 0 calls) :
    d.Stopped calls := by
  rw [Stopped, hstrategy]
  exact h

variable (a) in
theorem databaseChecks_multiHost :
    (d.multiHost inventory rollout lb).runDatabaseChecks.Yields fun value calls =>
      a.Given calls → d.Conforms (if d.lints then a.inspection else .ok .default) value calls := by
  refine conforms_check id ?_ (fun error => ⟨_, rfl⟩) fun _ => ?_
  · dsimp only [MultiHostDeploy.checkReadiness, multiHost]
    cases d.probesReadiness with
    | false => exact .inl ⟨(), rfl⟩
    | true =>
        exact (readiness_smooth 0 0).mono fun _ _ h => h.imp_right (stopped_multiHost hstrategy)
  refine conforms_inspect id ?_ (fun error => ⟨_, rfl⟩) ?_
  · dsimp only [MultiHostDeploy.inspect, multiHost]
    by_cases hlints : d.lints = true
    · simp only [hlints, Bool.not_true, Bool.false_eq_true, if_false, if_true]
      exact learns_map (inspect_given a d.ownsDatabase d.ctx) (fun _ => rfl) fun _ => rfl
    · simp only [hlints, Bool.not_false, if_true, Bool.false_eq_true, if_false]
      exact fun _ => ⟨fun _ hvalue => by cases hvalue; rfl, nofun⟩
  · intro inspection
    have hblocked : d.Blocked inspection = Blocking inspection := by
      rw [Blocked, hstrategy]
    refine Prog.Yields.mono (lint_follows hblocked (gate_follows ?_ (fun _ => rfl) rfl)
      multiHost_lint_eq_ok_iff (fun _ => rfl) rfl) ?_
    · rw [baseline, hstrategy]
    · intro value calls hfollows
      exact Follows.mono hfollows False.elim (List.Subset.refl _)

omit hstrategy in
theorem probes_multiHost :
    (Prog.joinAll ((d.multiHost inventory rollout lb).inventory.map
      (d.multiHost inventory rollout lb).probeHost)).Yields
      fun results calls => ∀ result ∈ results, Smooth d.ctx 0 0 result calls := by
  refine .joinAll (fun value calls more hsub hvalue => hvalue.imp_right fun h => h.mono hsub) ?_
  intro task htask
  obtain ⟨entry, -, rfl⟩ := List.mem_map.mp htask
  refine .bind (.perform ?_)
  intro x
  cases x with
  | error error => exact .inr (.inr ⟨_, List.mem_cons_self, .unreachable⟩)
  | ok status => exact .inl ⟨(), rfl⟩

theorem live_multiHost :
    (d.multiHost inventory rollout lb).runPreflight.Yields fun value calls =>
      a.Given calls → d.Conforms (if d.lints then a.inspection else .ok .default) value calls := by
  refine .bind ((databaseChecks_multiHost a hstrategy).mono ?_)
  intro value calls hvalue
  cases value with
  | error error =>
      intro hgiven
      exact (hvalue (Answers.given_append.mp hgiven).1).mono (by simp)
  | ok _ =>
      refine .bind (probes_multiHost.mono ?_)
      intro results more hresults hgiven
      refine (hvalue (Answers.given_append.mp hgiven).1).later (by simp) ?_
      unfold failures
      split
      · exact .inl rfl
      · rename_i hfailed
        refine .inr (stopped_multiHost hstrategy ?_)
        obtain ⟨message, hmessage⟩ := List.exists_mem_of_ne_nil _ hfailed
        obtain ⟨result, hresult, herror⟩ := List.mem_filterMap.mp hmessage
        obtain ⟨_, rfl⟩ | hinterrupted := hresults result hresult
        · cases herror
        · exact hinterrupted.mono (by simp)

end MultiHost

section SingleHost

variable {host : HostId} (hstrategy : d.strategy = .singleHost host) {skipPreflight : Bool}
include hstrategy

theorem stopped_singleHost {calls : List (Event AxisSig)}
    (h : Interrupted (d.singleHost host skipPreflight).callCtx 0 0 calls) : d.Stopped calls := by
  rw [Stopped, hstrategy]
  exact h

theorem judge_singleHost (inspection : Inspection) :
    ((d.singleHost host skipPreflight).deploy.judge inspection).Yields
      (Follows (d.decide inspection) (d.Blocked inspection) False d.ctx) := by
  have hblocked : d.Blocked inspection = Blocking inspection := by
    rw [Blocked, hstrategy]
  have hbaseline : d.baseline = .none := by
    rw [baseline, hstrategy]
  exact lint_follows hblocked (gate_follows hbaseline (fun _ => rfl) rfl)
    runForwardCompatLint_eq_ok_iff (fun _ => rfl) rfl

/-- The rehearsal passes or stops the preflight. -/
theorem rehearse_singleHost (runtime : DeployRuntime) :
    ((d.singleHost host skipPreflight).deploy.rehearse runtime).Yields
      fun value calls => value.1 = .ok () ∨ d.Stopped calls := by
  dsimp only [SingleHostDeploy.rehearse]
  rw [HostSetup.deploy_rehearsal, HostSetup.deploy_rollbackTo]
  cases (d.singleHost host skipPreflight).rehearses with
  | false => exact .inl rfl
  | true =>
      refine .bind ((runRestoreRehearsal_smooth 0 0).mono ?_)
      intro value calls hsmooth
      cases value with
      | error error =>
          obtain ⟨_, hnot⟩ | hinterrupted := hsmooth
          · cases hnot
          · exact .inr (stopped_singleHost hstrategy (hinterrupted.mono (by simp)))
      | ok report =>
          obtain ⟨applied, warning⟩ := report
          cases warning with
          | none => exact .inl rfl
          | some warning => exact .inl rfl

theorem static_singleHost {described : Option AdapterDescription}
    (hdescribed : ∀ x, described = some x → a.described = .ok x) (runtime : DeployRuntime) :
    ((d.singleHost host skipPreflight).deploy.runStaticPreflight described runtime).Yields
      fun value calls => a.Given calls →
        d.Conforms (if d.lints && !skipPreflight then a.inspection else .ok .default) value.1
          calls := by
  refine conforms_inspect Prod.fst ?_ (fun error => ⟨_, rfl⟩) ?_
  · dsimp only [SingleHostDeploy.inspect]
    rw [HostSetup.deploy_lints]
    dsimp only [singleHost]
    by_cases hlints : (d.lints && !skipPreflight) = true
    · simp only [hlints, Bool.not_true, Bool.false_eq_true, if_false, if_true]
      cases described with
      | none =>
          exact learns_map (inspect_given a d.ownsDatabase _) (fun _ => rfl) fun _ => rfl
      | some described =>
          exact learns_map (inspectDescribed_given (hdescribed _ rfl) d.ownsDatabase _)
            (fun _ => rfl) fun _ => rfl
    · simp only [hlints, Bool.not_false, if_true, Bool.false_eq_true, if_false]
      exact fun _ => ⟨fun _ hvalue => by cases hvalue; rfl, nofun⟩
  · intro inspection
    exact conforms_judge Prod.fst (judge_singleHost hstrategy inspection) (fun _ => rfl)
      (rehearse_singleHost hstrategy runtime)

theorem deepChecks_singleHost {described : AdapterDescription}
    (hdescribed : a.described = .ok described) (throwaway : ThrowawayDb) :
    ((d.singleHost host skipPreflight).deploy.deepChecks described throwaway).Yields
      fun value calls => a.Given calls → d.Conforms a.inspection value calls := by
  refine conforms_inspect id ((inspectDescribed_given hdescribed d.ownsDatabase _).mono
    fun _ _ h hgiven => .of_eq (h hgiven)) (fun error => ⟨_, rfl⟩) ?_
  intro inspection
  refine conforms_judge id (judge_singleHost hstrategy inspection) (fun _ => rfl) ?_
  refine .bind ((rehearseOn_smooth 0 0).mono ?_)
  intro value calls hsmooth
  cases value with
  | error error =>
      obtain ⟨_, hnot⟩ | hinterrupted := hsmooth
      · cases hnot
      · exact .inr (stopped_singleHost hstrategy (hinterrupted.mono (by simp)))
  | ok applied => exact .inl rfl

theorem deep_singleHost {described : AdapterDescription}
    (hdescribed : a.described = .ok described) (runtime : DeployRuntime) :
    ((d.singleHost host skipPreflight).deploy.runDeepPreflight Axes.rehearsal described
      runtime).Yields
      fun value calls => a.Given calls → d.Conforms a.inspection value.1 calls := by
  refine .bind ((provision_smooth 0 0).mono ?_)
  intro provisioned calls hsmooth
  cases provisioned with
  | error error =>
      obtain ⟨_, hnot⟩ | hinterrupted := hsmooth
      · cases hnot
      · exact fun _ => .of_stopped (stopped_singleHost hstrategy (hinterrupted.mono (by simp)))
  | ok throwaway =>
      refine .bind ((deepChecks_singleHost hstrategy hdescribed throwaway).mono ?_)
      intro result more hresult
      refine .bind (.perform ?_)
      intro torn
      cases torn with
      | error error =>
          intro hgiven
          simp only [Answers.given_append] at hgiven
          exact (hresult hgiven.2.1).mono (by simp)
      | ok _ =>
          intro hgiven
          simp only [Answers.given_append] at hgiven
          exact (hresult hgiven.2.1).mono (by simp)

variable (a) in
theorem live_singleHost (runtime : DeployRuntime) :
    ((d.singleHost host skipPreflight).deploy.runPreflight runtime).Yields
      fun value calls => a.Given calls →
        d.Conforms (if d.lints && !skipPreflight then a.inspection else .ok .default) value.1
          calls := by
  refine conforms_check Prod.fst ?_ (fun error => ⟨_, rfl⟩) fun _ => ?_
  · dsimp only [SingleHostDeploy.checkReadiness]
    rw [HostSetup.deploy_readiness, HostSetup.deploy_rollbackTo]
    cases (d.singleHost host skipPreflight).probesReadiness with
    | false => exact .inl ⟨(), rfl⟩
    | true =>
        exact (readiness_smooth 0 0).mono fun _ _ h => h.imp_right (stopped_singleHost hstrategy)
  cases hdeep : (d.singleHost host skipPreflight).deploy.deepRehearsal with
  | none => exact static_singleHost hstrategy (by simp) runtime
  | some db =>
      obtain ⟨⟨-, hlints, -, -⟩, rfl⟩ := HostSetup.deep_of_deepRehearsal hdeep
      have hlints : (d.lints && !skipPreflight) = true := hlints
      simp only [hlints, if_true]
      refine .bind (.perform ?_)
      intro x
      cases x with
      | error error =>
          intro hgiven
          have hdescribed := hgiven.1 _ List.mem_cons_self
          have hfailed : a.inspection = .error error := by
            rw [Answers.inspection, ← hdescribed]
          rw [hfailed]
          exact nofun
      | ok described =>
          by_cases hdescribed : a.described = .ok described
          · dsimp only
            split
            · refine (deep_singleHost hstrategy hdescribed runtime).mono ?_
              intro value calls hvalue hgiven
              exact (hvalue (Answers.given_append.mp hgiven).2).mono (by simp)
            · refine (static_singleHost (a := a) hstrategy ?_ runtime).mono ?_
              · intro x hx
                cases hx
                exact hdescribed
              · intro value calls hvalue hgiven
                rw [if_pos hlints] at hvalue
                exact (hvalue (Answers.given_append.mp hgiven).2).mono (by simp)
          · refine (Prog.Yields.any _).mono ?_
            intro value calls _ hgiven
            exact absurd (hgiven.1 _ List.mem_cons_self).symm hdescribed

end SingleHost

/-- The live preflight of every strategy follows from what it learned. -/
theorem live_conforms (d : Deployment) (skipPreflight : Bool) (a : Answers) :
    (d.live skipPreflight).Yields fun value calls =>
      a.Given calls → d.Conforms (d.liveInspection skipPreflight a) value calls := by
  unfold live liveInspection
  cases hstrategy : d.strategy with
  | singleHost host =>
      refine .bind ((live_singleHost a hstrategy .default).mono ?_)
      intro value calls hvalue hgiven
      rw [List.append_nil] at hgiven ⊢
      exact hvalue hgiven
  | multiHost inventory rollout lb => exact live_multiHost hstrategy
  | blueGreen green hold greenPool budgetMargin probesBudget => exact live_blueGreen hstrategy

end Deployment

/-! ## The verdict of the preview -/

/-- A decision as a plan shows it. -/
def Verdict.of : PolicyDecision → Verdict
  | .allow _ => .allow
  | .needsApproval _ => .needsApproval
  | .deny _ _ => .deny

/-- The verdict of a plan. -/
def SchemaPreview.verdict (preview : SchemaPreview) : Option Verdict :=
  preview.policy.map PolicyPreview.decision

/-- The verdict on an inspection: there is one when something decides, and what could not
be inspected is decided as if nothing had been. -/
def verdictOn (policy : Option Policy) (baseline : Baseline)
    (inspected : Except AdapterError Inspection) : Option Verdict :=
  if policy.isSome || baseline != .none then
    match inspected with
    | .ok inspection =>
        some (.of (evaluate policy baseline inspection.capabilities inspection.report))
    | .error _ => some (.of (evaluate policy baseline .none none))
  else none

section Verdict

variable {policy : Option Policy} {wired : Bool} {approvalCommand : Option String}
  {baseline : Baseline}

theorem PolicyPreview.of_decision (decision : PolicyDecision) :
    (PolicyPreview.of decision approvalCommand).decision = .of decision := by
  cases decision <;> rfl

theorem assemble_verdict (changeSet : Except Unavailable ChangeSetPreview)
    {capabilities : Capabilities} {report : Option PreflightReport} :
    (assemble changeSet (Axes.gate policy wired) approvalCommand baseline capabilities
      report).verdict =
      if policy.isSome || baseline != .none then
        some (.of (evaluate policy baseline capabilities report))
      else none := by
  dsimp only [SchemaPreview.verdict, assemble, Axes.gate]
  split
  · rw [Option.map_some, PolicyPreview.of_decision]
  · rfl

theorem notInspected_verdict {reason : Unavailable} :
    (notInspected reason (Axes.gate policy wired) approvalCommand baseline).verdict =
      verdictOn policy baseline (.ok .default) :=
  assemble_verdict _

theorem failed_verdict [CharTables] {reason : String} (error : AdapterError) :
    (failed reason (Axes.gate policy wired) approvalCommand baseline).verdict =
      verdictOn policy baseline (.error error) :=
  assemble_verdict _

theorem fromInspection_verdict [CharTables] {inspected : Except AdapterError Inspection} :
    (fromInspection inspected (Axes.gate policy wired) approvalCommand baseline).verdict =
      verdictOn policy baseline inspected := by
  cases inspected with
  | error error => exact failed_verdict error
  | ok inspection => exact assemble_verdict (classify inspection)

/-- A verdict on an inspection is that of the gate. -/
theorem verdictOn_inspected {inspection : Inspection} {verdict : Verdict}
    (h : verdictOn policy baseline (.ok inspection) = some verdict) :
    .of (evaluate policy baseline inspection.capabilities inspection.report) = verdict := by
  unfold verdictOn at h
  split at h
  · exact Option.some.inj h
  · cases h

theorem allow_of_verdict {decision : PolicyDecision} (h : Verdict.of decision = .allow) :
    ∃ changes, decision = .allow changes := by
  cases decision with
  | allow changes => exact ⟨changes, rfl⟩
  | needsApproval | deny => cases h

theorem needsApproval_of_verdict {decision : PolicyDecision}
    (h : Verdict.of decision = .needsApproval) : ∃ reasons, decision = .needsApproval reasons := by
  cases decision with
  | needsApproval reasons => exact ⟨reasons, rfl⟩
  | allow | deny => cases h

theorem deny_of_verdict {decision : PolicyDecision} (h : Verdict.of decision = .deny) :
    ∃ reason reasons, decision = .deny reason reasons := by
  cases decision with
  | deny reason reasons => exact ⟨reason, reasons, rfl⟩
  | allow | needsApproval => cases h

/-- Nothing that was not inspected is let through. -/
theorem verdictOn_uninspected {error : AdapterError} {verdict : Verdict}
    (h : verdictOn policy baseline (.error error) = some verdict) : verdict = .deny := by
  unfold verdictOn at h
  split at h
  · rename_i hdecides
    cases baseline with
    | windowSafety =>
        cases h
        rfl
    | none =>
        cases policy with
        | none => simp at hdecides
        | some policy =>
            cases h
            rfl
  · cases h

end Verdict

/-- A throwaway was provisioned. -/
def Provisioned (calls : List (Event AxisSig)) : Prop :=
  ∃ dsn backup throwaway, (⟨.provision dsn backup, .ok throwaway⟩ : Event AxisSig) ∈ calls

theorem not_provisioned_append {calls more : List (Event AxisSig)} (hcalls : ¬Provisioned calls)
    (hmore : ¬Provisioned more) : ¬Provisioned (calls ++ more) := by
  intro hprovisioned
  obtain ⟨dsn, backup, throwaway, hmem⟩ := hprovisioned
  rcases List.mem_append.mp hmem with hmem | hmem
  · exact hcalls ⟨dsn, backup, throwaway, hmem⟩
  · exact hmore ⟨dsn, backup, throwaway, hmem⟩

theorem not_provisioned_nil : ¬Provisioned [] := by
  simp [Provisioned]

theorem not_provisioned_singleton {e : Event AxisSig}
    (he : ∀ dsn backup throwaway, e ≠ ⟨.provision dsn backup, .ok throwaway⟩) :
    ¬Provisioned [e] := by
  intro hprovisioned
  obtain ⟨dsn, backup, throwaway, hmem⟩ := hprovisioned
  exact he dsn backup throwaway (List.mem_singleton.mp hmem).symm

theorem secret_unprovisioned {ctx : AdapterCtx} {logical : String} :
    (ctx.secret Axes.os logical).Yields fun _ calls => ¬Provisioned calls := by
  unfold AdapterCtx.secret
  cases ctx.resolvedSecrets.lookup logical with
  | some value => exact not_provisioned_nil
  | none =>
      cases ctx.envSecrets.lookup logical with
      | none => exact not_provisioned_nil
      | some source =>
          refine .bind (.perform ?_)
          intro x
          cases x with
          | error cause => exact not_provisioned_singleton nofun
          | ok value => exact not_provisioned_singleton nofun

theorem provision_unprovisioned {ctx : AdapterCtx} {backup : BackupSource} :
    (provision Axes.rehearsal Axes.os ctx backup).Yields
      fun value calls => ∀ error, value = .error error → ¬Provisioned calls := by
  refine .bind (secret_unprovisioned.mono ?_)
  intro value calls hcalls
  cases value with
  | error error => exact fun _ _ => not_provisioned_append hcalls not_provisioned_nil
  | ok dsn =>
      refine .perform ?_
      intro x
      cases x with
      | ok throwaway => exact fun _ => nofun
      | error error =>
          exact fun _ _ => not_provisioned_append hcalls (not_provisioned_singleton nofun)

section Gather

variable [CharTables] {policy : Option Policy} {wired : Bool} {approvalCommand : Option String}
  {baseline : Baseline} {owns : Bool} {ctx : AdapterCtx}

variable (a : Answers)

theorem gather_verdict :
    (gather (Axes.migration owns) ctx (Axes.gate policy wired) approvalCommand baseline).Yields
      fun preview calls => a.Given calls →
        preview.verdict = verdictOn policy baseline a.inspection := by
  refine .bind ((inspect_given a owns ctx).mono ?_)
  intro inspected calls hinspected hgiven
  rw [← hinspected (Answers.given_append.mp hgiven).1]
  exact fromInspection_verdict

theorem gatherRehearsed_verdict {backup : BackupSource} {depth : Depth} :
    (gatherRehearsed Axes.rehearsal backup Axes.os (Axes.migration owns) ctx
      (Axes.gate policy wired) approvalCommand baseline depth).Yields
      fun preview calls => a.Given calls →
        preview.verdict = verdictOn policy baseline a.inspection ∨
        ¬Provisioned calls ∧
          ∃ error, preview.verdict = verdictOn policy baseline (.error error) := by
  refine .bind (.perform ?_)
  intro x
  cases x with
  | error error =>
      intro hgiven
      have hdescribed := hgiven.1 _ List.mem_cons_self
      have hfailed : a.inspection = .error error := by
        rw [Answers.inspection, ← hdescribed]
      rw [hfailed]
      exact .inl (failed_verdict error)
  | ok described =>
      by_cases hdescribed : a.described = .ok described
      · dsimp only
        split
        · refine .bind ((inspectDescribed_given hdescribed owns ctx).mono ?_)
          intro inspected calls hinspected hgiven
          simp only [Answers.given_append] at hgiven
          rw [← hinspected hgiven.2.1]
          exact .inl fromInspection_verdict
        · refine .bind (provision_unprovisioned.mono ?_)
          intro provisioned calls hcalls
          cases provisioned with
          | error error =>
              intro _
              refine .inr ⟨?_, .new .execution "", failed_verdict _⟩
              refine not_provisioned_append (not_provisioned_singleton nofun) ?_
              exact not_provisioned_append (hcalls error rfl) not_provisioned_nil
          | ok throwaway =>
              refine .bind ((inspectDescribed_given hdescribed owns _).mono ?_)
              intro inspected more hinspected
              refine .bind (.perform ?_)
              intro torn hgiven
              simp only [Answers.given_append] at hgiven
              rw [← hinspected hgiven.2.2.1]
              exact .inl fromInspection_verdict
      · refine (Prog.Yields.any _).mono ?_
        intro preview calls _ hgiven
        exact absurd (hgiven.1 _ List.mem_cons_self).symm hdescribed

end Gather

/-! ## Agreement -/

namespace Deployment

variable (d : Deployment)

/-- What switches the preflight off switches it off in the plan and in the deploy: a fleet
is not deployed with `--skip-preflight`, which only its plan honours, and a blue-green
deploy is not configured without a preflight, which only its plan leaves out. -/
def Matched (skipPreflight : Bool) : Prop :=
  match d.strategy with
  | .singleHost _ => True
  | .multiHost _ _ _ => skipPreflight = false
  | .blueGreen _ _ _ _ _ => d.lints = true

/-- The deploy rehearses on a restored copy. -/
def Rehearses (skipPreflight : Bool) : Prop :=
  ∃ host, d.strategy = .singleHost host ∧ (d.singleHost host skipPreflight).rehearses = true

variable {d} {skipPreflight : Bool}

theorem preview_verdict [CharTables] (a : Answers) (depth : Depth) (h : d.Matched skipPreflight) :
    (d.preview skipPreflight depth).Yields fun preview calls => a.Given calls →
      preview.verdict = verdictOn d.policy d.baseline (d.liveInspection skipPreflight a) ∨
      d.Rehearses skipPreflight ∧ ¬Provisioned calls ∧
        ∃ error, preview.verdict = verdictOn d.policy d.baseline (.error error) := by
  unfold preview Matched at *
  unfold baseline liveInspection
  cases hstrategy : d.strategy with
  | singleHost host =>
      dsimp only [previewSchema, previewTarget]
      cases skipPreflight with
      | true =>
          intro _
          rw [Bool.not_true, Bool.and_false]
          exact .inl notInspected_verdict
      | false =>
          cases hlints : d.lints with
          | false =>
              intro _
              exact .inl notInspected_verdict
          | true =>
              cases hrehearsal : d.rehearsal with
              | none =>
                  exact (gather_verdict a).mono fun _ _ hverdict hgiven => .inl (hverdict hgiven)
              | some backup =>
                  refine (gatherRehearsed_verdict a).mono ?_
                  intro preview calls hverdict hgiven
                  refine (hverdict hgiven).imp_right fun hfailed => ⟨⟨host, hstrategy, ?_⟩, hfailed⟩
                  simp [singleHost, hrehearsal]
  | multiHost inventory rollout lb =>
      rw [hstrategy] at h
      subst h
      dsimp only [previewSchema, previewTarget]
      cases hlints : d.lints with
      | false =>
          intro _
          exact .inl notInspected_verdict
      | true => exact (gather_verdict a).mono fun _ _ hverdict hgiven => .inl (hverdict hgiven)
  | blueGreen green hold greenPool budgetMargin probesBudget =>
      rw [hstrategy] at h
      dsimp only [previewSchema, previewTarget]
      rw [h]
      exact (gather_verdict a).mono fun _ _ hverdict hgiven => .inl (hverdict hgiven)

/-- A preflight that passed with a rehearsal had a throwaway. -/
theorem provisioned_of_cleared {setup : HostSetup} (hrehearses : setup.rehearses = true)
    (hforward : setup.rollbackTo = none) {calls : List (Event AxisSig)}
    (h : setup.Cleared calls) : Provisioned calls := by
  cases h with
  | static _ _ _ _ hrehearsed =>
      rw [HostSetup.Rehearsed, if_pos ⟨hrehearses, hforward⟩] at hrehearsed
      obtain ⟨throwaway, seeded, outcome, torn, hseeded, rfl⟩ := hrehearsed
      obtain ⟨dsn, read, -, rfl⟩ := hseeded
      exact ⟨dsn, setup.backupSource, throwaway, by simp⟩
  | @deep _ _ _ _ _ throwaway _ _ _ _ _ _ hseeded _ _ _ =>
      obtain ⟨dsn, read, -, rfl⟩ := hseeded
      exact ⟨dsn, setup.backupSource, throwaway, by simp⟩

theorem provisioned_of_live (hrehearses : d.Rehearses skipPreflight) {g : Handler AxisSig τ}
    {sched : List Bool} {t : τ} (hok : ((d.live skipPreflight).exec g sched t).value = .ok ()) :
    Provisioned ((d.live skipPreflight).exec g sched t).calls := by
  obtain ⟨host, hstrategy, hrehearses⟩ := hrehearses
  have hwp : wp g.logged Eq (d.singleHost host skipPreflight).Order.guarantee
      ((d.singleHost host skipPreflight).deploy.runPreflight .default)
      (fun value s => (d.singleHost host skipPreflight).Leaves .default value s.2) (t, []) :=
    HostSetup.wp_runPreflight
  obtain ⟨⟨hcleared, -⟩, -⟩ := exec_of_logged hwp sched
  simp only [live, hstrategy, Prog.exec_bind] at hok ⊢
  have hprovisioned := provisioned_of_cleared hrehearses rfl (hcleared hok)
  simpa [Run.calls] using hprovisioned

/-- The preview and the live preflight agree, whatever the migration adapter answers to
both and whatever everything else does: what the preview lets through the live gate allows,
whatever the lint says, and the live lint passes it if the report has no blocking finding, so
that only another check can stop it; what the preview refuses the live preflight refuses,
unless only the deploy got its throwaway; and what it holds for approval passes only
approved. -/
theorem preview_agrees [CharTables] {σ : Type} (d : Deployment) (skipPreflight : Bool)
    (depth : Depth) (a : Answers) (g : Handler AxisSig σ) (g' : Handler AxisSig τ)
    (sched sched' : List Bool) (s : σ) (t : τ) (h : d.Matched skipPreflight) :
    let preview := (d.preview skipPreflight depth).exec (a.orElse g) sched s
    let live := (d.live skipPreflight).exec (a.orElse g') sched' t
    (∀ verdict, preview.value.verdict = some verdict → wouldBlock preview.value = false →
      ∃ inspection, d.liveInspection skipPreflight a = .ok inspection ∧
        (∃ changes, d.decide inspection = .allow changes) ∧
        (d.Blocked inspection → live.value ≠ .ok ()) ∧
        (¬d.Blocked inspection → live.value = .ok () ∨ d.Stopped live.calls)) ∧
    (preview.value.verdict = some .deny →
      live.value ≠ .ok () ∨ ¬Provisioned preview.calls ∧ Provisioned live.calls) ∧
    (preview.value.verdict = some .needsApproval → live.value = .ok () →
      ∃ reasons, Approved d.ctx reasons live.calls) := by
  intro preview live
  have hpreview := (preview_verdict a depth h).exec (a.orElse g) sched s
    (Answers.given_exec _ g sched s)
  have hlive := (live_conforms d skipPreflight a).exec (a.orElse g') sched' t
    (Answers.given_exec _ g' sched' t)
  -- A verdict other than a refusal is a verdict on what the live preflight learns.
  have hlearned : ∀ verdict, preview.value.verdict = some verdict → verdict ≠ .deny →
      ∃ inspection, d.liveInspection skipPreflight a = .ok inspection ∧
        .of (d.decide inspection) = verdict := by
    intro verdict hverdict hne
    obtain hsame | ⟨-, -, error, hfailed⟩ := hpreview
    · cases hinspected : d.liveInspection skipPreflight a with
      | error error =>
          rw [hinspected] at hsame
          exact absurd (verdictOn_uninspected (hsame.symm.trans hverdict)) hne
      | ok inspection =>
          rw [hinspected] at hsame
          exact ⟨inspection, rfl, verdictOn_inspected (hsame.symm.trans hverdict)⟩
    · exact absurd (verdictOn_uninspected (hfailed.symm.trans hverdict)) hne
  refine ⟨?_, ?_, ?_⟩
  · intro verdict hverdict hopen
    obtain rfl : verdict = .allow := by
      have hpolicy : preview.value.policy.map PolicyPreview.decision = some verdict := hverdict
      unfold wouldBlock at hopen
      rw [hpolicy] at hopen
      cases verdict <;> first | rfl | cases hopen
    obtain ⟨inspection, hinspected, hdecision⟩ := hlearned _ hverdict nofun
    obtain ⟨changes, hallow⟩ := allow_of_verdict hdecision
    rw [hinspected] at hlive
    exact ⟨inspection, hinspected, ⟨changes, hallow⟩, hlive.blocked, hlive.allow changes hallow⟩
  · intro hverdict
    obtain hsame | ⟨hrehearses, hnone, -⟩ := hpreview
    · left
      cases hinspected : d.liveInspection skipPreflight a with
      | error error =>
          rw [hinspected] at hlive
          exact hlive
      | ok inspection =>
          rw [hinspected] at hlive hsame
          obtain ⟨reason, reasons, hdeny⟩ :=
            deny_of_verdict (verdictOn_inspected (hsame.symm.trans hverdict))
          exact hlive.deny reason reasons hdeny
    · by_cases hok : live.value = .ok ()
      · exact .inr ⟨hnone, provisioned_of_live hrehearses hok⟩
      · exact .inl hok
  · intro hverdict hok
    obtain ⟨inspection, hinspected, hdecision⟩ := hlearned _ hverdict nofun
    obtain ⟨reasons, hneeds⟩ := needsApproval_of_verdict hdecision
    rw [hinspected] at hlive
    exact ⟨reasons, hlive.approval reasons hneeds hok⟩

/-! ## Two deploys of one host -/

namespace Checkout

def policy : Policy :=
  ⟨[(.additive, .autoApply)], .deny, false⟩

def deployment : Deployment where
  fraise := "checkout"
  environment := "production"
  ctx := .new "checkout" "production"
  strategy := .singleHost ⟨"web-1"⟩
  lints := true
  rehearsal := none
  policy := some policy
  hookWired := false
  approvalCommand := none
  probesReadiness := false
  ownsDatabase := true

def described : AdapterDescription :=
  ⟨"confiture", "0.50.0", 1, ["preflight", "risk_tier"]⟩

def column : SchemaChange :=
  ⟨"add_column", "public.tb_user.nickname", none, some .additive, none⟩

/-- The one change is classified as additive, and the lint has nothing to say. -/
def clean : Answers :=
  ⟨.ok described, .ok ⟨true, [], none, some ⟨1, [column]⟩⟩⟩

/-- The change is additive all the same, and the lint blocks. -/
def flagged : Answers :=
  ⟨.ok described, .ok ⟨false, [⟨.error, "PFLIGHT_DUPLICATE", "two migrations share a version",
    none⟩], none, some ⟨1, [column]⟩⟩⟩

end Checkout

/-- What the plan of a clean report lets through, the deploy lets through. -/
theorem preview_agrees_checkout :
    Checkout.deployment.Matched false ∧
    ((Checkout.deployment.preview false .static).exec
      (Checkout.clean.orElse Axes.unreachable) [] ()).value.verdict = some .allow ∧
    (((Checkout.deployment.live false).exec (Checkout.clean.orElse Axes.unreachable) []
        ()).value = .ok () ∨
      Checkout.deployment.Stopped ((Checkout.deployment.live false).exec
        (Checkout.clean.orElse Axes.unreachable) [] ()).calls) := by
  obtain ⟨hagree, -, -⟩ := preview_agrees Checkout.deployment false .static Checkout.clean
    Axes.unreachable Axes.unreachable [] [] () () trivial
  obtain ⟨inspection, hinspected, -, -, hpasses⟩ := hagree .allow rfl rfl
  refine ⟨trivial, rfl, hpasses ?_⟩
  cases hinspected
  intro hblocking
  obtain ⟨report, hreport, issue, hissue, -⟩ := hblocking
  cases hreport
  cases hissue

/-- The plan of a flagged report lets it through, and the deploy does not. -/
theorem preview_overlooks_flagged :
    ((Checkout.deployment.preview false .static).exec
      (Checkout.flagged.orElse Axes.unreachable) [] ()).value.verdict = some .allow ∧
    wouldBlock ((Checkout.deployment.preview false .static).exec
      (Checkout.flagged.orElse Axes.unreachable) [] ()).value = false ∧
    ((Checkout.deployment.live false).exec (Checkout.flagged.orElse Axes.unreachable) []
      ()).value = .error (.stepFailed "preflight"
        ("forward-compatibility preflight found 1 blocking issue(s): PFLIGHT_DUPLICATE: " ++
         "two migrations share a version")) := by
  exact ⟨rfl, rfl, by decide⟩

end Deployment

end Fraisier.Cli
