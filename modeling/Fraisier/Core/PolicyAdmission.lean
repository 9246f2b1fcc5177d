import Fraisier.Core.Axes

/-!
# What the policy gate admits

`evaluate` folds a baseline, a policy, the adapter's capabilities and its report into one
decision; here the decision is stated without the fold. Read `admit_admits` first: the
gate lets a deploy through exactly when it is `Admissible`, and asks its hook at most
once, about `Held` reasons.
-/

namespace Fraisier.Core

open Fraisier.Effect

variable {τ : Type}

/-! ## The worst action and the worst tier -/

theorem worstAction_eq_deny_iff {actions : List PolicyAction} :
    worstAction actions = .deny ↔ .deny ∈ actions := by
  induction actions with
  | nil => simp [worstAction]
  | cons action rest ih =>
      rw [worstAction, List.mem_cons, ← ih]
      cases action <;> cases worstAction rest <;> simp [PolicyAction.rank]

theorem worstAction_eq_autoApply_iff {actions : List PolicyAction} :
    worstAction actions = .autoApply ↔ ∀ action ∈ actions, action = .autoApply := by
  induction actions with
  | nil => simp [worstAction]
  | cons action rest ih =>
      rw [worstAction, List.forall_mem_cons, ← ih]
      cases action <;> cases worstAction rest <;> simp [PolicyAction.rank]

/-- The worst tier of a list is one of its tiers, and none of them ranks higher. -/
theorem RiskTier.mem_worst {tiers : List RiskTier} {tier : RiskTier}
    (h : RiskTier.worst tiers = some tier) :
    tier ∈ tiers ∧ ∀ other ∈ tiers, other.rank ≤ tier.rank := by
  induction tiers generalizing tier with
  | nil => cases h
  | cons first rest ih =>
      rw [RiskTier.worst] at h
      cases hrest : RiskTier.worst rest with
      | none =>
          rw [hrest] at h
          cases h
          cases rest with
          | nil => simp
          | cons second rest =>
              rw [RiskTier.worst] at hrest
              split at hrest <;> cases hrest
      | some worst =>
          rw [hrest] at h
          obtain ⟨hmem, hle⟩ := ih hrest
          dsimp only at h
          split at h
          · cases h
            rename_i hfirst
            exact ⟨List.mem_cons_of_mem _ hmem, List.forall_mem_cons.mpr ⟨hfirst, hle⟩⟩
          · cases h
            rename_i hfirst
            refine ⟨List.mem_cons_self, List.forall_mem_cons.mpr ⟨le_refl _, ?_⟩⟩
            intro other hother
            have hother' := hle other hother
            omega

theorem RiskTier.worst_eq_none_iff {tiers : List RiskTier} :
    RiskTier.worst tiers = none ↔ tiers = [] := by
  cases tiers with
  | nil => simp [RiskTier.worst]
  | cons first rest =>
      rw [RiskTier.worst]
      split <;> simp

/-! ## The decision -/

/-- The adapter classified the changes, and this build reads the classification. -/
def Classified (capabilities : Capabilities) (report : PreflightReport) (changeSet : ChangeSet) :
    Prop :=
  capabilities.riskTier = true ∧ report.usableChangeSet = .ok changeSet

/-- The change-set as a whole is unclassified, and the code that says why. -/
inductive Unclassified (capabilities : Capabilities) (report : PreflightReport) : String → Prop
  | incapable (h : capabilities.riskTier = false) :
      Unclassified capabilities report "no_risk_tier_capability"
  | notEmitted (hcapable : capabilities.riskTier = true)
      (h : report.usableChangeSet = .error .notEmitted) :
      Unclassified capabilities report "no_change_set"

/-- The changes that are not applied without asking, in the order of the adapter. -/
def Policy.held (policy : Policy) (changeSet : ChangeSet) : List SchemaChange :=
  changeSet.changes.filter fun change => policy.actionFor change != .autoApply

/-- The policy holds a report back for approval, for these reasons. -/
inductive Held (policy : Policy) (capabilities : Capabilities) (report : PreflightReport) :
    List PolicyReason → Prop
  | changes {changeSet : ChangeSet} (hset : Classified capabilities report changeSet)
      (hsome : ∃ change ∈ changeSet.changes, policy.actionFor change = .requireApproval)
      (hnone : ∀ change ∈ changeSet.changes, policy.actionFor change ≠ .deny) :
      Held policy capabilities report ((policy.held changeSet).map PolicyReason.forChange)
  | whole {kind : String} (hset : Unclassified capabilities report kind)
      (hpolicy : policy.unclassified = .requireApproval) :
      Held policy capabilities report [PolicyReason.forChangeSet kind]

/-- The policy lets a report through without asking: every change is applied. -/
def Applied (policy : Policy) (capabilities : Capabilities) (report : PreflightReport) : Prop :=
  ∃ changeSet, Classified capabilities report changeSet ∧
    ∀ change ∈ changeSet.changes, policy.actionFor change = .autoApply

/-- The policy refuses whatever a hook would say. -/
inductive Unapprovable (policy : Policy) (capabilities : Capabilities) :
    Option PreflightReport → Prop
  | missing : Unapprovable policy capabilities none
  | unreadable {report : PreflightReport} {error : ChangeSetUnavailable}
      (hcapable : capabilities.riskTier = true) (hset : report.usableChangeSet = .error error)
      (herror : error ≠ .notEmitted) :
      Unapprovable policy capabilities (some report)
  | denied {report : PreflightReport} {changeSet : ChangeSet}
      (hset : Classified capabilities report changeSet)
      (hdeny : ∃ change ∈ changeSet.changes, policy.actionFor change = .deny) :
      Unapprovable policy capabilities (some report)

section Decision

variable {policy : Policy} {capabilities : Capabilities} {report : PreflightReport}
  {changeSet : ChangeSet} {baseline : Baseline}

theorem mem_held {change : SchemaChange} :
    change ∈ policy.held changeSet ↔
      change ∈ changeSet.changes ∧ policy.actionFor change ≠ .autoApply := by
  simp [Policy.held]

/-- The actions that are folded are those of the held changes. -/
theorem evaluate_classified
    (hbaseline : baselineVerdict baseline capabilities (some report) = none)
    (hset : Classified capabilities report changeSet) :
    evaluate (some policy) baseline capabilities (some report) =
      assemble policy ((policy.held changeSet).map fun change =>
        (policy.actionFor change, PolicyReason.forChange change)) changeSet.changes.length := by
  simp only [evaluate, hbaseline, hset.1, hset.2, Bool.not_true, Bool.false_eq_true, if_false]
  rw [List.filter_map, Policy.held]
  rfl

theorem evaluate_applied (hbaseline : baselineVerdict baseline capabilities (some report) = none)
    (happlied : Applied policy capabilities report) :
    ∃ changes, evaluate (some policy) baseline capabilities (some report) = .allow changes := by
  obtain ⟨changeSet, hset, hall⟩ := happlied
  have hheld : policy.held changeSet = [] := by
    refine List.filter_eq_nil_iff.mpr ?_
    intro change hchange
    simp [hall change hchange]
  refine ⟨changeSet.changes.length, ?_⟩
  rw [evaluate_classified hbaseline hset, hheld]
  rfl

/-- The worst action over the held changes, when one needs approval and none is denied. -/
theorem worstAction_held
    (hsome : ∃ change ∈ changeSet.changes, policy.actionFor change = .requireApproval)
    (hnone : ∀ change ∈ changeSet.changes, policy.actionFor change ≠ .deny) :
    worstAction ((policy.held changeSet).map policy.actionFor) = .requireApproval := by
  obtain ⟨change, hchange, haction⟩ := hsome
  cases hworst : worstAction ((policy.held changeSet).map policy.actionFor) with
  | requireApproval => rfl
  | deny =>
      obtain ⟨denied, hdenied, hdeny⟩ := List.mem_map.mp (worstAction_eq_deny_iff.mp hworst)
      exact absurd hdeny (hnone denied (mem_held.mp hdenied).1)
  | autoApply =>
      have hmem : change ∈ policy.held changeSet := mem_held.mpr ⟨hchange, by simp [haction]⟩
      have hauto := worstAction_eq_autoApply_iff.mp hworst _ (List.mem_map_of_mem hmem)
      rw [haction] at hauto
      cases hauto

theorem worstAction_denied
    (hdeny : ∃ change ∈ changeSet.changes, policy.actionFor change = .deny) :
    worstAction ((policy.held changeSet).map policy.actionFor) = .deny := by
  obtain ⟨change, hchange, haction⟩ := hdeny
  refine worstAction_eq_deny_iff.mpr (List.mem_map.mpr ⟨change, ?_, haction⟩)
  exact mem_held.mpr ⟨hchange, by simp [haction]⟩

variable (policy) in
theorem evaluate_unclassified {kind : String}
    (hbaseline : baselineVerdict baseline capabilities (some report) = none)
    (hset : Unclassified capabilities report kind) :
    ∃ cause, evaluate (some policy) baseline capabilities (some report) =
      unclassifiedChangeSet policy cause kind := by
  cases hset with
  | incapable h =>
      exact ⟨_, by simp only [evaluate, hbaseline, h, Bool.not_false, if_true]; rfl⟩
  | notEmitted hcapable h =>
      exact ⟨_, by simp only [evaluate, hbaseline, hcapable, h, Bool.not_true, Bool.false_eq_true,
        if_false]; rfl⟩

/-- Reasons that are held are put to the hook when the policy declares one. -/
theorem evaluate_held {reasons : List PolicyReason}
    (hbaseline : baselineVerdict baseline capabilities (some report) = none)
    (hheld : Held policy capabilities report reasons) :
    (policy.hasApprovalHook = true ∧
      evaluate (some policy) baseline capabilities (some report) = .needsApproval reasons) ∨
    (policy.hasApprovalHook = false ∧
      ∃ reason, evaluate (some policy) baseline capabilities (some report) =
        .deny reason reasons) := by
  cases hheld with
  | changes hset hsome hnone =>
      have hworst := worstAction_held hsome hnone
      rw [evaluate_classified hbaseline hset]
      simp only [assemble, List.map_map, Function.comp_def]
      rw [hworst]
      cases policy.hasApprovalHook with
      | true => exact .inl ⟨rfl, rfl⟩
      | false => exact .inr ⟨rfl, _, rfl⟩
  | whole hset hpolicy =>
      obtain ⟨cause, hdecision⟩ := evaluate_unclassified policy hbaseline hset
      rw [hdecision, unclassifiedChangeSet, hpolicy]
      dsimp only [assemble, List.map]
      cases policy.hasApprovalHook with
      | true => exact .inl ⟨rfl, rfl⟩
      | false => exact .inr ⟨rfl, _, rfl⟩

theorem evaluate_unapprovable {report : Option PreflightReport}
    (hbaseline : baselineVerdict baseline capabilities report = none)
    (hrefused : Unapprovable policy capabilities report) :
    ∃ reason reasons, evaluate (some policy) baseline capabilities report =
      .deny reason reasons := by
  cases hrefused with
  | missing => exact ⟨_, _, by simp only [evaluate, hbaseline]; rfl⟩
  | unreadable hcapable hset herror =>
      rename_i report error
      cases error with
      | notEmitted => exact absurd rfl herror
      | versionTooNew found understood =>
          exact ⟨_, _, by simp only [evaluate, hbaseline, hcapable, hset, Bool.not_true,
            Bool.false_eq_true, if_false]; rfl⟩
  | denied hset hdeny =>
      have hworst := worstAction_denied hdeny
      rw [evaluate_classified hbaseline hset]
      simp only [assemble, List.map_map, Function.comp_def]
      rw [hworst]
      exact ⟨_, _, rfl⟩

variable (policy) in
/-- Every report is applied, held for approval or refused. -/
theorem applied_or_held_or_deny
    (hbaseline : baselineVerdict baseline capabilities (some report) = none) :
    Applied policy capabilities report ∨
    (∃ reasons, Held policy capabilities report reasons) ∨
    ∃ reason reasons, evaluate (some policy) baseline capabilities (some report) =
      .deny reason reasons := by
  have hunclassified : ∀ kind, Unclassified capabilities report kind →
      (∃ reasons, Held policy capabilities report reasons) ∨
      ∃ reason reasons, evaluate (some policy) baseline capabilities (some report) =
        .deny reason reasons := by
    intro kind hset
    cases hpolicy : policy.unclassified with
    | requireApproval => exact .inl ⟨_, .whole hset hpolicy⟩
    | deny =>
        obtain ⟨cause, hdecision⟩ := evaluate_unclassified policy hbaseline hset
        rw [hdecision, unclassifiedChangeSet, hpolicy]
        exact .inr ⟨_, _, rfl⟩
  cases hcapable : capabilities.riskTier with
  | false => exact .inr (hunclassified _ (.incapable hcapable))
  | true =>
      cases hset : report.usableChangeSet with
      | error error =>
          by_cases herror : error = .notEmitted
          · rw [herror] at hset
            exact .inr (hunclassified _ (.notEmitted hcapable hset))
          · exact .inr (.inr (evaluate_unapprovable hbaseline
              (.unreadable hcapable hset herror)))
      | ok changeSet =>
          by_cases hdeny : ∃ change ∈ changeSet.changes, policy.actionFor change = .deny
          · exact .inr (.inr (evaluate_unapprovable hbaseline (.denied ⟨hcapable, hset⟩ hdeny)))
          by_cases hsome : ∃ change ∈ changeSet.changes,
              policy.actionFor change = .requireApproval
          · push Not at hdeny
            exact .inr (.inl ⟨_, .changes ⟨hcapable, hset⟩ hsome hdeny⟩)
          · push Not at hdeny hsome
            refine .inl ⟨changeSet, ⟨hcapable, hset⟩, ?_⟩
            intro change hchange
            have := hdeny change hchange
            have := hsome change hchange
            cases haction : policy.actionFor change <;> simp_all

end Decision

/-! ## The gate -/

/-- A deploy the gate lets through, when the hook approves the requests of `approves`. -/
def Admissible (policy : Option Policy) (wired : Bool) (baseline : Baseline)
    (capabilities : Capabilities) (report : Option PreflightReport) (ctx : AdapterCtx)
    (approves : ApprovalRequest → Prop) : Prop :=
  baselineVerdict baseline capabilities report = none ∧
    (policy = none ∨ ∃ tiers found, policy = some tiers ∧ report = some found ∧
      (Applied tiers capabilities found ∨
        ∃ reasons, Held tiers capabilities found reasons ∧ tiers.hasApprovalHook = true ∧
          wired = true ∧ approves (.new ctx.fraise ctx.environment reasons)))

/-- A request names the highest tier among its reasons, and none when no reason has one. -/
def ApprovalRequest.NamesWorst (request : ApprovalRequest) : Prop :=
  (∀ worst, request.worstTier = some worst → ∃ reason ∈ request.reasons, reason.tier = some worst) ∧
  ∀ reason ∈ request.reasons, ∀ tier, reason.tier = some tier →
    ∃ worst, request.worstTier = some worst ∧ tier.rank ≤ worst.rank

theorem ApprovalRequest.new_namesWorst (fraise environment : String)
    (reasons : List PolicyReason) :
    (ApprovalRequest.new fraise environment reasons).NamesWorst := by
  refine ⟨?_, ?_⟩
  · intro worst hworst
    exact List.mem_filterMap.mp (RiskTier.mem_worst hworst).1
  · intro reason hreason tier htier
    have hmem : tier ∈ reasons.filterMap PolicyReason.tier :=
      List.mem_filterMap.mpr ⟨reason, hreason, htier⟩
    cases hworst : RiskTier.worst (reasons.filterMap PolicyReason.tier) with
    | none =>
        rw [RiskTier.worst_eq_none_iff.mp hworst] at hmem
        cases hmem
    | some worst => exact ⟨worst, hworst, (RiskTier.mem_worst hworst).2 tier hmem⟩

/-- The calls of the gate: none, or one question about the reasons that are held. -/
inductive Asked (policy : Option Policy) (capabilities : Capabilities)
    (report : Option PreflightReport) (ctx : AdapterCtx) : List (Event AxisSig) → Prop
  | nothing : Asked policy capabilities report ctx []
  | held {tiers : Policy} {found : PreflightReport} {reasons : List PolicyReason}
      {request : ApprovalRequest} {verdict : ApprovalVerdict}
      (hpolicy : policy = some tiers) (hreport : report = some found)
      (hheld : Held tiers capabilities found reasons)
      (hfraise : request.fraise = ctx.fraise) (henvironment : request.environment = ctx.environment)
      (hreasons : request.reasons = reasons) (hworst : request.NamesWorst) :
      Asked policy capabilities report ctx [⟨.approve request, verdict⟩]

/-- How the gate resolves a decision, with the calls it makes. -/
def Resolves (wired : Bool) (ctx : AdapterCtx) (decision : PolicyDecision)
    (value : Except String Unit) (calls : List (Event AxisSig)) : Prop :=
  match decision with
  | .allow _ => value = .ok () ∧ calls = []
  | .deny _ _ => value ≠ .ok () ∧ calls = []
  | .needsApproval reasons =>
      if wired then
        ∃ verdict, calls = [⟨.approve (.new ctx.fraise ctx.environment reasons), verdict⟩] ∧
          (value = .ok () ↔ ∃ approver, verdict = .approved approver)
      else value ≠ .ok () ∧ calls = []

theorem admit_resolves (policy : Option Policy) (wired : Bool) (baseline : Baseline)
    (capabilities : Capabilities) (report : Option PreflightReport) (ctx : AdapterCtx) :
    ( PolicyGate.admit (Axes.gate policy wired) baseline capabilities report ctx).Yields
      (Resolves wired ctx (evaluate policy baseline capabilities report)) := by
  unfold PolicyGate.admit
  show Prog.Yields _ (Resolves wired ctx
    (evaluate (Axes.gate policy wired).policy baseline capabilities report))
  cases evaluate (Axes.gate policy wired).policy baseline capabilities report with
  | allow changes => exact ⟨rfl, rfl⟩
  | deny reason reasons => exact ⟨nofun, rfl⟩
  | needsApproval reasons =>
      cases wired with
      | false => exact ⟨nofun, rfl⟩
      | true =>
          refine .bind (.perform ?_)
          intro verdict
          cases verdict with
          | approved approver => exact ⟨_, rfl, iff_of_true rfl ⟨approver, rfl⟩⟩
          | denied reason => exact ⟨_, rfl, by simp⟩

section Admission

variable {policy : Option Policy} {wired : Bool} {baseline : Baseline}
  {capabilities : Capabilities} {report : Option PreflightReport} {ctx : AdapterCtx}

theorem evaluate_baseline {reason : String}
    (hbaseline : baselineVerdict baseline capabilities report = some reason) :
    evaluate policy baseline capabilities report = .deny reason [] := by
  simp only [evaluate, hbaseline]

/-- The decision refuses, or the baseline passes and one of the ways through is open. -/
theorem evaluate_cases (policy : Option Policy) (baseline : Baseline)
    (capabilities : Capabilities) (report : Option PreflightReport) :
    (∃ reason reasons, evaluate policy baseline capabilities report = .deny reason reasons) ∨
    baselineVerdict baseline capabilities report = none ∧
      ((policy = none ∧ evaluate policy baseline capabilities report = .allow 0) ∨
        ∃ tiers found, policy = some tiers ∧ report = some found ∧
          ((Applied tiers capabilities found ∧
              ∃ changes, evaluate policy baseline capabilities report = .allow changes) ∨
            ∃ reasons, Held tiers capabilities found reasons ∧ tiers.hasApprovalHook = true ∧
              evaluate policy baseline capabilities report = .needsApproval reasons)) := by
  cases hbaseline : baselineVerdict baseline capabilities report with
  | some reason => exact .inl ⟨reason, [], evaluate_baseline hbaseline⟩
  | none =>
      cases policy with
      | none => exact .inr ⟨rfl, .inl ⟨rfl, by simp only [evaluate, hbaseline]⟩⟩
      | some tiers =>
          cases report with
          | none => exact .inl (evaluate_unapprovable hbaseline .missing)
          | some found =>
              obtain happlied | ⟨reasons, hheld⟩ | hdeny :=
                applied_or_held_or_deny tiers hbaseline
              · exact .inr ⟨rfl, .inr ⟨tiers, found, rfl, rfl,
                  .inl ⟨happlied, evaluate_applied hbaseline happlied⟩⟩⟩
              · obtain ⟨hhook, hdecision⟩ | ⟨-, reason, hdecision⟩ :=
                  evaluate_held hbaseline hheld
                · exact .inr ⟨rfl, .inr ⟨tiers, found, rfl, rfl,
                    .inr ⟨reasons, hheld, hhook, hdecision⟩⟩⟩
                · exact .inl ⟨reason, reasons, hdecision⟩
              · exact .inl hdeny

/-- What is admissible is allowed, or needs an approval that is given. -/
theorem admissible_iff {approves : ApprovalRequest → Prop} :
    Admissible policy wired baseline capabilities report ctx approves ↔
      (∃ changes, evaluate policy baseline capabilities report = .allow changes) ∨
      ∃ reasons, evaluate policy baseline capabilities report = .needsApproval reasons ∧
        wired = true ∧ approves (.new ctx.fraise ctx.environment reasons) := by
  constructor
  · intro hadmissible
    obtain ⟨hbaseline, rfl | ⟨tiers, found, rfl, rfl, happlied | hheld⟩⟩ := hadmissible
    · exact .inl ⟨0, by simp only [evaluate, hbaseline]⟩
    · exact .inl (evaluate_applied hbaseline happlied)
    · obtain ⟨reasons, hheld, hhook, hwired, happroves⟩ := hheld
      obtain ⟨-, hdecision⟩ | ⟨hnone, -⟩ := evaluate_held hbaseline hheld
      · exact .inr ⟨reasons, hdecision, hwired, happroves⟩
      · rw [hhook] at hnone
        cases hnone
  · intro hdecision
    obtain ⟨reason, reasons, hdeny⟩ | ⟨hbaseline, hopen⟩ :=
      evaluate_cases policy baseline capabilities report
    · rw [hdeny] at hdecision
      simp at hdecision
    refine ⟨hbaseline, ?_⟩
    obtain ⟨hpolicy, -⟩ | ⟨tiers, found, hpolicy, hreport, ⟨happlied, -⟩ | hheld⟩ := hopen
    · exact .inl hpolicy
    · exact .inr ⟨tiers, found, hpolicy, hreport, .inl happlied⟩
    · obtain ⟨reasons, hheld, hhook, hneeds⟩ := hheld
      rw [hneeds] at hdecision
      obtain ⟨changes, hallow⟩ | ⟨reasons', heq, hwired, happroves⟩ := hdecision
      · cases hallow
      · cases heq
        exact .inr ⟨tiers, found, hpolicy, hreport, .inr ⟨reasons, hheld, hhook, hwired, happroves⟩⟩

theorem held_of_needsApproval {reasons : List PolicyReason}
    (hdecision : evaluate policy baseline capabilities report = .needsApproval reasons) :
    ∃ tiers found, policy = some tiers ∧ report = some found ∧
      Held tiers capabilities found reasons := by
  obtain ⟨reason, reasons', hdeny⟩ | ⟨-, ⟨-, hallow⟩ | ⟨tiers, found, hpolicy, hreport, hway⟩⟩ :=
    evaluate_cases policy baseline capabilities report
  · rw [hdeny] at hdecision
    cases hdecision
  · rw [hallow] at hdecision
    cases hdecision
  · obtain ⟨-, changes, hallow⟩ | ⟨reasons', hheld, -, hneeds⟩ := hway
    · rw [hallow] at hdecision
      cases hdecision
    · rw [hneeds] at hdecision
      cases hdecision
      exact ⟨tiers, found, hpolicy, hreport, hheld⟩

end Admission

/-- For every policy, baseline, capability set, report and hook: the gate admits exactly
what is `Admissible`, asks at most once, about what is `Held`, and neither admits nor asks
about what no answer could let through. -/
theorem admit_admits (policy : Option Policy) (wired : Bool) (baseline : Baseline)
    (capabilities : Capabilities) (report : Option PreflightReport) (ctx : AdapterCtx)
    (g : Handler AxisSig τ) (sched : List Bool) (t : τ) :
    let run :=
      ( PolicyGate.admit (Axes.gate policy wired) baseline capabilities report ctx).exec g sched t
    (run.value = .ok () ↔ Admissible policy wired baseline capabilities report ctx
      fun request => ∃ approver, (g (.approve request) t).1 = .approved approver) ∧
    Asked policy capabilities report ctx run.calls ∧
    ∀ tiers, policy = some tiers → Unapprovable tiers capabilities report →
      run.value ≠ .ok () ∧ run.calls = [] := by
  intro run
  have hresolves : Resolves wired ctx (evaluate policy baseline capabilities report) run.value
      run.calls := (admit_resolves policy wired baseline capabilities report ctx).exec g sched t
  have hrefused : ∀ tiers, policy = some tiers → Unapprovable tiers capabilities report →
      ∃ reason reasons, evaluate policy baseline capabilities report = .deny reason reasons := by
    intro tiers hpolicy hunapprovable
    subst hpolicy
    cases hbaseline : baselineVerdict baseline capabilities report with
    | some reason => exact ⟨reason, [], evaluate_baseline hbaseline⟩
    | none => exact evaluate_unapprovable hbaseline hunapprovable
  rw [admissible_iff]
  cases hdecision : evaluate policy baseline capabilities report with
  | allow changes =>
      rw [hdecision] at hresolves hrefused
      refine ⟨by simpa using hresolves.1, hresolves.2 ▸ .nothing, ?_⟩
      intro tiers hpolicy hunapprovable
      obtain ⟨reason, reasons, hdeny⟩ := hrefused tiers hpolicy hunapprovable
      cases hdeny
  | deny reason reasons =>
      rw [hdecision] at hresolves
      exact ⟨by simpa using hresolves.1, hresolves.2 ▸ .nothing, fun _ _ _ => hresolves⟩
  | needsApproval reasons =>
      rw [hdecision] at hresolves hrefused
      refine ⟨?_, ?_, ?_⟩
      · cases wired with
        | false => simpa using hresolves.1
        | true =>
            obtain ⟨verdict, hcalls, hvalue⟩ := hresolves
            rw [hvalue, answer_of_calls_eq_cons hcalls]
            simp
      · cases wired with
        | false => exact hresolves.2 ▸ .nothing
        | true =>
            obtain ⟨verdict, hcalls, -⟩ := hresolves
            obtain ⟨tiers, found, hpolicy, hreport, hheld⟩ := held_of_needsApproval hdecision
            rw [hcalls]
            exact .held hpolicy hreport hheld rfl rfl rfl (ApprovalRequest.new_namesWorst _ _ _)
      · intro tiers hpolicy hunapprovable
        obtain ⟨reason, reasons, hdeny⟩ := hrefused tiers hpolicy hunapprovable
        cases hdeny

/-! ## A set that nobody read

The adapter does not advertise `risk_tier`, so its change-set is not looked at: the policy's
action for what is unclassified decides, and the hook is asked about the set as a whole. -/

namespace Unread

def drop : SchemaChange :=
  ⟨"drop_table", "public.tb_legacy", none, some .irreversible, none⟩

/-- A report to a later contract than this build reads, with a change the policy denies. -/
def report : PreflightReport :=
  ⟨true, [], none, some ⟨2, [drop]⟩⟩

def policy : Policy :=
  ⟨[(.additive, .autoApply), (.irreversible, .deny)], .requireApproval, true⟩

def approving : Handler AxisSig Unit := fun c s =>
  match c with
  | .approve _ => (.approved "ops", ())
  | c => Axes.unreachable c s

end Unread

/-- The gate admits an unreadable set with a denied change, once the hook has approved a
request that names none of its changes. -/
theorem admit_approves_unread :
    let run := ( PolicyGate.admit (Axes.gate (some Unread.policy) true) .none ⟨true, false, false⟩
      (some Unread.report) (.new "app" "production")).exec Unread.approving [] ()
    Unread.policy.actionFor Unread.drop = .deny ∧
    Unread.report.usableChangeSet = .error (.versionTooNew 2 1) ∧
    run.value = .ok () ∧
    run.calls = [⟨.approve ⟨"app", "production",
      [⟨none, "all pending migrations", "no_risk_tier_capability", none⟩], none⟩,
        .approved "ops"⟩] := by
  exact ⟨by decide, by decide, rfl, rfl⟩

end Fraisier.Core
