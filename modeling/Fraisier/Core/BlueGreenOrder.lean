import Fraisier.Core.Axes
import Fraisier.Saga.Rule

/-!
# The order of a blue-green run

What a blue-green run has called by the time it moves the traffic, and by the time it
reaps a fleet. A step adds to the history of the run and leaves an obligation behind for
the rollback; read `run_ordered` first.
-/

namespace Fraisier.Core

open Fraisier.Effect Fraisier.Saga

variable {σ τ : Type}

/-- What a blue-green deploy is configured with. -/
structure BlueGreenPlan where
  fraise : String
  environment : String
  ctx : AdapterCtx
  green : TrafficTarget
  hold : Nat
  greenPool : Nat
  budgetMargin : Nat
  policy : Option Policy
  hookWired : Bool
  probesReadiness : Bool
  probesBudget : Bool
  ownsDatabase : Bool

namespace BlueGreenPlan

variable (p : BlueGreenPlan)

/-- The deploy of a configuration. -/
def deploy : BlueGreenDeploy AxisSig where
  fraise := p.fraise
  environment := p.environment
  ctx := p.ctx
  green := p.green
  hold := p.hold
  greenPool := p.greenPool
  budgetMargin := p.budgetMargin
  policy := Axes.gate p.policy p.hookWired
  databaseReadiness := if p.probesReadiness then some Axes.readiness else none
  os := Axes.os
  migration := Axes.migration p.ownsDatabase
  traffic := Axes.traffic
  fleet := Axes.fleet
  budget := if p.probesBudget then some Axes.budget else none

/-! ## The stages of a run -/

/-- The readiness probe passed, if there is one. -/
def Ready (calls : List (Event AxisSig)) : Prop :=
  if p.probesReadiness then FoundReady p.ctx calls else calls = []

/-- The connections were counted and green fits, if they are counted. -/
def WithinBudget (calls : List (Event AxisSig)) : Prop :=
  if p.probesBudget then
    ∃ snapshot, calls = [⟨.budget p.ctx, .ok snapshot⟩] ∧
      ∀ reason, BudgetSnapshot.evaluate snapshot p.greenPool p.budgetMargin ≠ .refuse reason
  else calls = []

/-- Readiness, the always-on rule, the policy and the connections passed, in this order. -/
def Preflighted (calls : List (Event AxisSig)) : Prop :=
  ∃ ready inspected admitted counted inspection,
    calls = ready ++ (inspected ++ (admitted ++ counted)) ∧
    p.Ready ready ∧
    Inspected p.ctx inspection inspected ∧
    baselineVerdict .windowSafety inspection.capabilities inspection.report = none ∧
    LetThrough p.policy p.hookWired .windowSafety p.ctx inspection admitted ∧
    p.WithinBudget counted

/-- Then green was provisioned. -/
def Provisioned (calls : List (Event AxisSig)) : Prop :=
  ∃ before, p.Preflighted before ∧ calls = before ++ [⟨.provisionGreen p.ctx, .ok ()⟩]

/-- Then the database was migrated. -/
def Migrated (calls : List (Event AxisSig)) : Prop :=
  ∃ before outcome, p.Provisioned before ∧ calls = before ++ [⟨.up p.ctx none, .ok outcome⟩]

/-- Then green answered its health gate. -/
def Healthy (calls : List (Event AxisSig)) : Prop :=
  ∃ before, p.Migrated before ∧ calls = before ++ [⟨.greenHealthy p.ctx, true⟩]

/-- Then the traffic moved from `prior` to green. -/
def Swapped (prior : TrafficTarget) (calls : List (Event AxisSig)) : Prop :=
  ∃ before token, p.Healthy before ∧ calls =
    before ++ [⟨.currentTarget p.ctx, .ok prior⟩, ⟨.switchTo p.ctx p.green, .ok token⟩]

/-- Then the hold window passed. -/
def Held (prior : TrafficTarget) (calls : List (Event AxisSig)) : Prop :=
  ∃ before, p.Swapped prior before ∧ calls = before ++ [⟨.watchGreen p.ctx p.hold, .ok ()⟩]

/-- The traffic was moved somewhere. -/
def IsSwitch (e : Event AxisSig) : Prop :=
  ∃ ctx target token, e = ⟨.switchTo ctx target, .ok token⟩

/-- After the switch the traffic went back to where it had pointed, and then green was
reaped. -/
def Returned (calls : List (Event AxisSig)) : Prop :=
  ∃ prior before between token, p.Swapped prior before ∧
    calls = before ++ between ++
      [⟨.switchTo p.ctx prior, .ok token⟩, ⟨.reapGreen p.ctx, .ok ()⟩] ∧
    (∀ e ∈ between, ∀ ctx target, e.cmd ≠ .switchTo ctx target) ∧
    ∀ e ∈ before ++ between, ∀ ctx, e.cmd ≠ .reapGreen ctx

/-- What may be called when. -/
def Order : Permit AxisSig := fun calls c =>
  match c with
  | .switchTo _ _ => ∃ before rest, calls = before ++ rest ∧ p.Healthy before
  | .reapBlue _ => ∃ prior, p.Held prior calls
  | .downTo _ _ => False
  | _ => True

/-! ## The steps -/

/-- The calls that may come at any time. -/
def Quiet : AxisCall → Prop
  | .switchTo _ _ => False
  | .reapGreen _ => False
  | .reapBlue _ => False
  | .downTo _ _ => False
  | _ => True

variable {p}

/-- A quiet command may stand anywhere. -/
theorem order_of_quiet (calls : List (Event AxisSig)) {c : AxisCall} (hc : Quiet c) :
    p.Order calls c := by
  cases c <;> trivial

/-- The readiness check passes only if every axis was asked and is ready. -/
theorem checkReadiness_yields :
    p.deploy.checkReadiness.Yields (Passes fun _ => p.Ready) := by
  unfold BlueGreenDeploy.checkReadiness deploy Ready
  cases p.probesReadiness with
  | false => exact rfl
  | true => exact readiness_yields p.ctx

/-- The budget check passes only within the budget. -/
theorem checkBudget_yields : p.deploy.checkBudget.Yields (Passes fun _ => p.WithinBudget) := by
  unfold BlueGreenDeploy.checkBudget deploy WithinBudget
  cases p.probesBudget with
  | false => exact rfl
  | true =>
      refine .bind (.perform ?_)
      intro x
      cases x with
      | error error => trivial
      | ok snapshot =>
          dsimp only
          split
          · trivial
          · rename_i heq
            exact ⟨snapshot, rfl, by simp [heq]⟩
          · rename_i heq
            exact ⟨snapshot, rfl, by simp [heq]⟩

/-- The preflight passes only if all of its checks did. -/
theorem runPreflight_yields :
    p.deploy.runPreflight.Yields (Passes fun _ => p.Preflighted) := by
  refine .bind (checkReadiness_yields.mono ?_)
  intro checked ready hready
  cases checked with
  | error error => trivial
  | ok _ =>
  refine .bind ((inspect_yields p.ownsDatabase p.ctx).mono ?_)
  intro found inspected hinspected
  cases found with
  | error error => trivial
  | ok inspection =>
  refine .bind ((admit_yields p.policy p.hookWired .windowSafety p.ctx inspection).mono ?_)
  intro verdict admitted hadmitted
  cases verdict with
  | error reason => trivial
  | ok _ =>
      refine checkBudget_yields.mono ?_
      intro counted calls hcounted
      cases counted with
      | error error => trivial
      | ok _ =>
          exact ⟨ready, inspected, admitted, calls, inspection, rfl, hready, hinspected,
            LetThrough.baseline hadmitted, hadmitted, hcounted⟩

/-- The preflight only asks. -/
theorem runPreflight_issues : p.deploy.runPreflight.Issues Quiet := by
  have hready : p.deploy.checkReadiness.Issues Quiet := by
    unfold BlueGreenDeploy.checkReadiness deploy
    cases p.probesReadiness with
    | false => exact .ret _
    | true =>
        exact (DatabaseReadiness.check_sequential (fun _ => .perform trivial)
          fun _ => .perform trivial).issues
  have hbudget : p.deploy.checkBudget.Issues Quiet := by
    unfold BlueGreenDeploy.checkBudget deploy
    cases p.probesBudget with
    | false => exact .ret _
    | true =>
        refine .bind (.perform trivial) fun x => ?_
        cases x with
        | error error => exact .ret _
        | ok snapshot =>
            dsimp only
            split <;> exact .ret _
  refine hready.bind fun checked => ?_
  cases checked with
  | error error => exact .ret _
  | ok _ =>
  refine (inspect_sequential (.perform trivial) (.perform trivial)).issues.bind fun found => ?_
  cases found with
  | error error => exact .ret _
  | ok inspection =>
  refine (PolicyGate.admit_sequential ?_).issues.bind fun verdict => ?_
  · intro hook hhook request
    dsimp only [deploy, Axes.gate] at hhook
    split at hhook
    · cases hhook
      exact .perform trivial
    · cases hhook
  · cases verdict with
    | error reason => exact .ret _
    | ok _ => exact hbudget

/-- A stage of a run before the traffic moves. -/
def Before (Stage : List (Event AxisSig) → Prop) (runtime : BgRuntime) :
    Assertion BgRuntime (τ × List (Event AxisSig)) :=
  fun r s => r = runtime ∧ Stage s.2 ∧ ∀ e ∈ s.2, Quiet e.cmd

variable (p) in
/-- What is left of a run whose traffic points at green. -/
def Moved : Assertion BgRuntime (τ × List (Event AxisSig)) := fun r s =>
  ∃ prior before between, p.Swapped prior before ∧ s.2 = before ++ between ∧
    (∀ e ∈ between, ∀ ctx target, e.cmd ≠ .switchTo ctx target) ∧
    (∀ e ∈ before ++ between, ∀ ctx, e.cmd ≠ .reapGreen ctx) ∧ r = ⟨some prior, true⟩

variable (p) in
/-- What is left once the traffic points where it did: green to be reaped. -/
def MovedBack : Assertion BgRuntime (τ × List (Event AxisSig)) := fun r s =>
  (∃ e ∈ s.2, IsSwitch e) → ∃ prior before between token, p.Swapped prior before ∧
    s.2 = before ++ between ++ [⟨.switchTo p.ctx prior, .ok token⟩] ∧
    (∀ e ∈ between, ∀ ctx target, e.cmd ≠ .switchTo ctx target) ∧
    (∀ e ∈ before ++ between, ∀ ctx, e.cmd ≠ .reapGreen ctx) ∧ r.greenProvisioned = true

variable (p) in
/-- How a run that was rolled back ends. -/
def Settled : Assertion BgRuntime (τ × List (Event AxisSig)) := fun _ s =>
  (∃ e ∈ s.2, IsSwitch e) → p.Returned s.2

/-- A quiet command does not move the traffic. -/
theorem not_isSwitch_of_quiet {e : Event AxisSig} (he : Quiet e.cmd) : ¬ IsSwitch e := by
  intro hswitch
  obtain ⟨ctx, target, token, rfl⟩ := hswitch
  exact he

/-- A switch that fails is no switch. -/
theorem not_isSwitch_error {ctx : AdapterCtx} {target : TrafficTarget} {error : AdapterError} :
    ¬ IsSwitch ⟨.switchTo ctx target, .error error⟩ := by
  intro hswitch
  obtain ⟨_, _, _, heq⟩ := hswitch
  cases heq

/-- A quiet command reaps nothing. -/
theorem not_reapGreen_of_quiet {e : Event AxisSig} (he : Quiet e.cmd) (ctx : AdapterCtx) :
    e.cmd ≠ .reapGreen ctx := by
  intro heq
  rw [heq] at he
  exact he

/-- Before the traffic has moved there is nothing to return. -/
theorem unswitched {s : τ × List (Event AxisSig)} (hs : ∀ e ∈ s.2, ¬ IsSwitch e) {A : Prop} :
    (∃ e ∈ s.2, IsSwitch e) → A := by
  intro hswitch
  obtain ⟨e, he, hswitch⟩ := hswitch
  exact absurd hswitch (hs e he)

section Steps

variable {g : Handler AxisSig τ} {r : BgRuntime} {s : τ × List (Event AxisSig)}

/-- The first step leaves the preflight behind it, and what stops there is settled. -/
theorem preflight_forward (hs : r = .default ∧ s.2 = []) :
    wp g.logged Eq p.Order.guarantee (p.deploy.forward .preflight r)
      (StepPost (Before p.Preflighted .default) p.Settled) s := by
  obtain ⟨t, log⟩ := s
  obtain ⟨rfl, rfl⟩ := hs
  refine wp_map (wp_post ?_ (runPreflight_yields.wp runPreflight_issues
    fun calls c hc => order_of_quiet calls hc))
  intro result s' hadded
  obtain ⟨added, hlog, hpasses, hquiet⟩ := hadded
  rw [List.nil_append] at hlog
  subst hlog
  cases result with
  | error error => exact unswitched fun e he => not_isSwitch_of_quiet (hquiet e he)
  | ok _ => exact ⟨rfl, hpasses, hquiet⟩

/-- A step before the swap makes one call that moves nothing. -/
theorem quiet_append {calls : List (Event AxisSig)} {e : Event AxisSig}
    (hcalls : ∀ f ∈ calls, Quiet f.cmd) (he : Quiet e.cmd) :
    ∀ f ∈ calls ++ [e], Quiet f.cmd := by
  intro f hf
  rcases List.mem_append.mp hf with hf | hf
  · exact hcalls f hf
  · rw [List.mem_singleton.mp hf]
    exact he

/-- Green is provisioned after the preflight, and what stops there is settled. -/
theorem provision_forward (hs : Before p.Preflighted .default r s) :
    wp g.logged Eq p.Order.guarantee (p.deploy.forward .provisionGreen r)
      (StepPost (Before p.Provisioned ⟨none, true⟩) p.Settled) s := by
  obtain ⟨t, log⟩ := s
  obtain ⟨rfl, hstage, hquiet⟩ := hs
  refine wp_bind (wp_logged trivial ?_)
  intro x t'
  have hquiet' := quiet_append (e := ⟨.provisionGreen p.ctx, x⟩) hquiet trivial
  cases x with
  | error error =>
      exact wp_ret.mpr (unswitched fun e he => not_isSwitch_of_quiet (hquiet' e he))
  | ok _ => exact wp_ret.mpr ⟨rfl, ⟨log, hstage, rfl⟩, hquiet'⟩

/-- The migration comes after green was provisioned. -/
theorem migrate_forward (hs : Before p.Provisioned ⟨none, true⟩ r s) :
    wp g.logged Eq p.Order.guarantee (p.deploy.forward .migrate r)
      (StepPost (Before p.Migrated ⟨none, true⟩) p.MovedBack) s := by
  obtain ⟨t, log⟩ := s
  obtain ⟨rfl, hstage, hquiet⟩ := hs
  refine wp_map (wp_bind (wp_logged trivial ?_))
  intro x t'
  have hquiet' := quiet_append (e := ⟨.up p.ctx none, x⟩) hquiet trivial
  cases x with
  | error error =>
      exact wp_ret.mpr (unswitched fun e he => not_isSwitch_of_quiet (hquiet' e he))
  | ok outcome => exact wp_ret.mpr ⟨rfl, ⟨log, outcome, hstage, rfl⟩, hquiet'⟩

/-- Green is probed after the migration. -/
theorem health_forward (hs : Before p.Migrated ⟨none, true⟩ r s) :
    wp g.logged Eq p.Order.guarantee (p.deploy.forward .healthGateGreen r)
      (StepPost (Before p.Healthy ⟨none, true⟩) p.MovedBack) s := by
  obtain ⟨t, log⟩ := s
  obtain ⟨rfl, hstage, hquiet⟩ := hs
  refine wp_map (wp_bind (wp_logged trivial ?_))
  intro x t'
  have hquiet' := quiet_append (e := ⟨.greenHealthy p.ctx, x⟩) hquiet trivial
  cases x with
  | false => exact wp_ret.mpr (unswitched fun e he => not_isSwitch_of_quiet (hquiet' e he))
  | true => exact wp_ret.mpr ⟨rfl, ⟨log, hstage, rfl⟩, hquiet'⟩

/-- The traffic moves after green was found healthy. -/
theorem swap_forward (hs : Before p.Healthy ⟨none, true⟩ r s) :
    wp g.logged Eq p.Order.guarantee (p.deploy.forward .swapTraffic r)
      (StepPost (fun r s => p.Moved r s ∧ ∃ prior, p.Swapped prior s.2) p.MovedBack) s := by
  obtain ⟨t, log⟩ := s
  obtain ⟨rfl, hstage, hquiet⟩ := hs
  refine wp_bind (wp_logged trivial ?_)
  intro x t₁
  have hquiet' := quiet_append (e := ⟨.currentTarget p.ctx, x⟩) hquiet trivial
  cases x with
  | error error =>
      exact wp_ret.mpr (unswitched fun e he => not_isSwitch_of_quiet (hquiet' e he))
  | ok prior =>
      refine wp_bind (wp_logged ⟨log, _, rfl, hstage⟩ ?_)
      intro x t₂
      cases x with
      | error error =>
          refine wp_ret.mpr (unswitched fun e he => ?_)
          rcases List.mem_append.mp he with he | he
          · exact not_isSwitch_of_quiet (hquiet' e he)
          · rw [List.mem_singleton.mp he]
            exact not_isSwitch_error
      | ok token =>
          have hswapped : p.Swapped prior (log ++ [⟨.currentTarget p.ctx, .ok prior⟩] ++
              [⟨.switchTo p.ctx p.green, .ok token⟩]) := ⟨log, token, hstage, by simp⟩
          refine wp_ret.mpr ⟨⟨prior, _, [], hswapped, (List.append_nil _).symm, by simp, ?_, rfl⟩,
            prior, hswapped⟩
          intro e he ctx
          rw [List.append_nil] at he
          rcases List.mem_append.mp he with he | he
          · exact not_reapGreen_of_quiet (hquiet' e he) ctx
          · rw [List.mem_singleton.mp he]
            simp

/-- Green is watched and blue is reaped while the traffic points at green. -/
theorem moved_append {calls : List (Event AxisSig)} {t t' : τ} {e : Event AxisSig}
    (hmoved : p.Moved r (t, calls)) (hswitch : ∀ ctx target, e.cmd ≠ .switchTo ctx target)
    (hreap : ∀ ctx, e.cmd ≠ .reapGreen ctx) : p.Moved r (t', calls ++ [e]) := by
  obtain ⟨prior, before, between, hswapped, hcalls, hnone, hkept, rfl⟩ := hmoved
  refine ⟨prior, before, between ++ [e], hswapped, ?_, ?_, ?_, rfl⟩
  · rw [← List.append_assoc]
    exact congrArg (· ++ [e]) hcalls
  · intro f hf
    rcases List.mem_append.mp hf with hf | hf
    · exact hnone f hf
    · rw [List.mem_singleton.mp hf]
      exact hswitch
  · intro f hf
    rw [← List.append_assoc] at hf
    rcases List.mem_append.mp hf with hf | hf
    · exact hkept f hf
    · rw [List.mem_singleton.mp hf]
      exact hreap

variable (p) in
/-- What is left of a run whose hold window passed. -/
def Waited : Assertion BgRuntime (τ × List (Event AxisSig)) := fun r s =>
  p.Moved r s ∧ ∃ prior, p.Held prior s.2

/-- The hold window is waited for after the swap. -/
theorem hold_forward (hs : p.Moved r s ∧ ∃ prior, p.Swapped prior s.2) :
    wp g.logged Eq p.Order.guarantee (p.deploy.forward .hold r)
      (StepPost p.Waited p.Moved) s := by
  obtain ⟨t, log⟩ := s
  obtain ⟨hmoved, prior, hswapped⟩ := hs
  refine wp_map (wp_bind (wp_logged trivial ?_))
  intro x t'
  have hmoved' : p.Moved r (t', log ++ [⟨.watchGreen p.ctx p.hold, x⟩]) :=
    moved_append hmoved (by simp) (by simp)
  cases x with
  | error error => exact wp_ret.mpr hmoved'
  | ok _ => exact wp_ret.mpr ⟨hmoved', prior, log, hswapped, rfl⟩

/-- Blue is reaped after the hold window. -/
theorem reap_forward (hs : p.Waited r s) :
    wp g.logged Eq p.Order.guarantee (p.deploy.forward .reap r)
      (StepPost (fun _ _ => True) p.Moved) s := by
  obtain ⟨t, log⟩ := s
  obtain ⟨hmoved, hheld⟩ := hs
  refine wp_map (wp_bind (wp_logged hheld ?_))
  intro x t'
  cases x with
  | error error => exact wp_ret.mpr (moved_append hmoved (by simp) (by simp))
  | ok _ => exact wp_ret.mpr trivial

/-- The traffic is moved back before anything else is taken back. -/
theorem swap_compensate (hs : p.Moved r s) :
    wp g.logged Eq p.Order.guarantee (p.deploy.compensate .swapTraffic r)
      (StepPost p.MovedBack fun _ _ => True) s := by
  obtain ⟨t, log⟩ := s
  obtain ⟨prior, before, between, hswapped, hcalls, hnone, hkept, rfl⟩ := hs
  obtain ⟨healthy, token, hhealthy, rfl⟩ := hswapped
  have hcleared : ∃ cleared rest, log = cleared ++ rest ∧ p.Healthy cleared :=
    ⟨healthy, _, hcalls.trans (List.append_assoc _ _ _), hhealthy⟩
  refine wp_map (wp_bind (wp_logged hcleared ?_))
  intro x t'
  cases x with
  | error error => exact wp_ret.mpr trivial
  | ok back =>
      refine wp_ret.mpr fun _ => ?_
      refine ⟨prior, _, between, back, ⟨healthy, token, hhealthy, rfl⟩, ?_, hnone, hkept, rfl⟩
      exact congrArg (· ++ [_]) hcalls

/-- Green is reaped once the traffic is back. -/
theorem provision_compensate (hs : p.MovedBack r s) :
    wp g.logged Eq p.Order.guarantee (p.deploy.compensate .provisionGreen r)
      (StepPost p.Settled fun _ _ => True) s := by
  obtain ⟨t, log⟩ := s
  refine wp_map ?_
  unfold BlueGreenDeploy.undoProvisionGreen
  refine wp_ite ?_ ?_
  · intro hgreen
    refine wp_bind (wp_logged trivial ?_)
    intro x t'
    cases x with
    | error error => exact wp_ret.mpr trivial
    | ok _ =>
        refine wp_ret.mpr fun hswitch => ?_
        obtain ⟨e, he, hswitch⟩ := hswitch
        have hmem : e ∈ log := by
          rcases List.mem_append.mp he with he | he
          · exact he
          · rw [List.mem_singleton.mp he] at hswitch
            obtain ⟨_, _, _, heq⟩ := hswitch
            cases heq
        obtain ⟨prior, before, between, token, hswapped, hcalls, hnone, hkept, -⟩ :=
          hs ⟨e, hmem, hswitch⟩
        refine ⟨prior, before, between, token, hswapped, ?_, hnone, hkept⟩
        show log ++ [_] = _
        rw [show log = _ from hcalls, List.append_assoc]
        rfl
  · intro hgreen
    refine wp_ret.mpr fun hswitch => ?_
    obtain ⟨prior, before, between, token, -, -, -, -, hprovisioned⟩ := hs hswitch
    exact absurd hprovisioned hgreen

end Steps

/-- The steps of a run keep to the order and undo what they did. -/
theorem compensable (g : Handler AxisSig τ) (ctx : StepContext) :
    Compensable g.logged p.Order.guarantee ctx (fun _ _ => True)
      (fun r s => r = .default ∧ s.2 = []) (fun _ => p.Settled) p.deploy.steps
      (fun _ _ => True) := by
  have hdone : ∀ {A : Assertion BgRuntime (τ × List (Event AxisSig))} {r s}, A r s →
      wp g.logged Eq p.Order.guarantee (Prog.ret ((.ok () : Except SagaError Unit), r))
        (StepPost A fun _ _ => True) s := fun h => wp_ret.mpr h
  refine .cons (V := fun _ => p.Settled) (fun r s hs => preflight_forward hs)
    (fun _ _ _ hs => hdone hs) ?_
  refine .cons (V := fun _ => p.MovedBack) (fun r s hs => provision_forward hs)
    (fun _ _ _ hs => provision_compensate hs) ?_
  refine .cons (V := fun _ => p.MovedBack) (fun r s hs => migrate_forward hs)
    (fun _ _ _ hs => hdone hs) ?_
  refine .cons (V := fun _ => p.MovedBack) (fun r s hs => health_forward hs)
    (fun _ _ _ hs => hdone hs) ?_
  refine .cons (V := fun _ => p.Moved) (fun r s hs => swap_forward hs)
    (fun _ _ _ hs => swap_compensate hs) ?_
  refine .cons (V := fun _ => p.Moved) (fun r s hs => hold_forward hs)
    (fun _ _ _ hs => hdone hs) ?_
  exact .cons (V := fun _ => p.Moved) (fun r s hs => reap_forward hs)
    (fun _ _ _ hs => hdone hs) .nil

variable (p) in
/-- How a run ends: one that was rolled back has returned the traffic it had moved. -/
def Ends (value : Except SagaError SagaOutcome) (calls : List (Event AxisSig)) : Prop :=
  ∀ failed reason, value = .ok (.rolledBack failed reason) →
    (∃ e ∈ calls, IsSwitch e) → p.Returned calls

/-- For every run over every store, whatever the axes answer: the traffic moves only after
the gates, the provisioning, the migration and the health gate passed, in this order; blue
is reaped only after the switch to green and the hold window; the database is never rolled
back; and a run that was rolled back after a switch has pointed the traffic back where it
was, and has reaped green only then. -/
theorem run_ordered [CharTables] (p : BlueGreenPlan) (h : Handler StoreSig σ)
    (g : Handler AxisSig τ) (sched : List Bool) (w : σ × τ) :
    let run := p.deploy.run.exec (h.prod g) sched w
    (∀ before e after, run.rights = before ++ e :: after →
      (∀ ctx target, e.cmd = .switchTo ctx target →
        ∃ cleared rest, before = cleared ++ rest ∧ p.Healthy cleared) ∧
      (∀ ctx, e.cmd = .reapBlue ctx → ∃ prior, p.Held prior before) ∧
      ∀ ctx target, e.cmd ≠ .downTo ctx target) ∧
    p.Ends run.value run.rights := by
  obtain ⟨s, t⟩ := w
  have hwp : wp (h.prod g.logged) Eq (Guarantee.inr p.Order.guarantee) p.deploy.run
      (fun value w => p.Ends value w.2.2) (s, t, []) := by
    refine wp_bind (wp_post ?_ (wp_runWithState_anyStore (compensable g ⟨_⟩) ⟨rfl, rfl⟩))
    intro value w hends
    obtain ⟨outcome, runtime⟩ := value
    refine wp_ret.mpr ?_
    intro failed reason hvalue
    rw [show outcome = _ from hvalue] at hends
    exact hends
  obtain ⟨hreturned, hkept⟩ := exec_of_logged_right hwp sched
  refine ⟨?_, hreturned⟩
  intro before e after hsplit
  have horder : p.Order before e.cmd := hkept before e after hsplit
  refine ⟨?_, ?_, ?_⟩
  · intro ctx target hcmd
    rw [hcmd] at horder
    exact horder
  · intro ctx hcmd
    rw [hcmd] at horder
    exact horder
  · intro ctx target hcmd
    rw [hcmd] at horder
    exact horder

end BlueGreenPlan

end Fraisier.Core
