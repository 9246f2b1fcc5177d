import Fraisier.Effect.History
import Fraisier.SelfUpgrade.Apply

/-!
# What an upgrade says

The calls of an upgrade are told by its outcome: how often the unit was restarted, whether it
came up again, and whether a failure was reported. Read `apply_reports` first.
-/

namespace Fraisier.SelfUpgrade

open Fraisier.Effect
open Fraisier.Data (PathBuf)

/-- How often the unit was restarted. -/
def restarts (calls : List (Event UpgradeSig)) : Nat :=
  calls.countP fun e => e.cmd = .restart

/-- Whether a call reports a failure. -/
def UpgradeCall.isNotify : UpgradeCall → Bool
  | .notify _ => true
  | _ => false

/-- How often a failure was reported. -/
def notifications (calls : List (Event UpgradeSig)) : Nat :=
  calls.countP fun e => e.cmd.isNotify

/-- Whether an outcome is one that is reported. -/
def ApplyOutcome.isReported : ApplyOutcome → Bool
  | .reverted _ _ _ | .manualIntervention _ => true
  | _ => false

/-- The last calls of an upgrade that came up again: the second restart, and then it was
healthy. -/
def CameBack (plan : Plan) (calls : List (Event UpgradeSig)) : Prop :=
  ∃ before payload, restarts before = 1 ∧ calls = before ++ [⟨.restart, .ok ()⟩,
    ⟨.becomesHealthy plan.healthTimeoutMs plan.pollIntervalMs, true⟩, ⟨.notify payload, ()⟩]

/-- What the calls of an upgrade have to do with its outcome. -/
structure Reports (plan : Plan) (outcome : ApplyOutcome) (calls : List (Event UpgradeSig)) :
    Prop where
  restarts_le : restarts calls ≤ 2
  notified : notifications calls = if outcome.isReported then 1 else 0
  aborted : ∀ reason, outcome = .abortedBeforeSwap reason → restarts calls = 0
  reverted : ∀ failed restored reason, outcome = .reverted failed restored reason →
    CameBack plan calls

section Calls

variable {plan : Plan} {calls more : List (Event UpgradeSig)}

@[simp] theorem restarts_append :
    restarts (calls ++ more) = restarts calls + restarts more :=
  List.countP_append

@[simp] theorem notifications_append :
    notifications (calls ++ more) = notifications calls + notifications more :=
  List.countP_append

/-- A call that neither restarts the unit nor reports anything. -/
def UpgradeCall.Quiet (c : UpgradeCall) : Prop :=
  c ≠ .restart ∧ c.isNotify = false

/-- Calls that are all quiet. -/
def Quiet (calls : List (Event UpgradeSig)) : Prop :=
  ∀ e ∈ calls, e.cmd.Quiet

theorem Quiet.restarts (h : Quiet calls) : restarts calls = 0 :=
  List.countP_eq_zero.mpr fun e he => by simpa using (h e he).1

theorem Quiet.notifications (h : Quiet calls) : notifications calls = 0 :=
  List.countP_eq_zero.mpr fun e he => by simpa using (h e he).2

theorem ask_quiet {c : UpgradeCall} (hc : c.Quiet) : (ask c).Issues UpgradeCall.Quiet :=
  .perform hc

theorem active_quiet (layout : Layout) : layout.active.Issues UpgradeCall.Quiet := by
  refine (ask_quiet ⟨by simp, rfl⟩).bind fun r => ?_
  cases r <;> exact .ret _

theorem stage_quiet (layout : Layout) (id : String) (bytes : List UInt8) :
    (layout.stage id bytes).Issues UpgradeCall.Quiet := by
  refine (ask_quiet ⟨by simp, rfl⟩).bind fun r => ?_
  cases r with
  | error cause => exact .ret _
  | ok =>
      refine (ask_quiet ⟨by simp, rfl⟩).bind fun r => ?_
      cases r with
      | error cause => exact .ret _
      | ok =>
          refine (ask_quiet ⟨by simp, rfl⟩).bind fun r => ?_
          cases r <;> exact .ret _

theorem activate_quiet (layout : Layout) (id : String) :
    (layout.activate id).Issues UpgradeCall.Quiet := by
  refine (ask_quiet ⟨by simp, rfl⟩).bind fun _ => ?_
  refine (ask_quiet ⟨by simp, rfl⟩).bind fun r => ?_
  cases r with
  | error cause => exact .ret _
  | ok =>
      refine (ask_quiet ⟨by simp, rfl⟩).bind fun r => ?_
      cases r with
      | error cause => exact (ask_quiet ⟨by simp, rfl⟩).bind fun _ => .ret _
      | ok => exact .ret _

theorem scan_quiet (layout : Layout) (entries : List (Except String String)) :
    (layout.scan entries).Issues UpgradeCall.Quiet := by
  induction entries with
  | nil => exact .ret _
  | cons entry entries ih =>
      cases entry with
      | error cause => exact .ret _
      | ok name =>
          rw [Layout.scan]
          split
          · exact ih
          · refine (ask_quiet ⟨by simp, rfl⟩).bind fun r => ?_
            cases r with
            | error cause => exact .ret _
            | ok entry =>
                dsimp only
                split
                · refine ih.bind fun r => ?_
                  cases r <;> exact .ret _
                · exact ih

theorem removeAll_quiet (paths : List PathBuf) :
    (Layout.removeAll paths).Issues UpgradeCall.Quiet := by
  induction paths with
  | nil => exact .ret _
  | cons path paths ih =>
      refine (ask_quiet ⟨by simp, rfl⟩).bind fun r => ?_
      cases r with
      | error cause => exact .ret _
      | ok => exact ih

theorem prune_quiet (layout : Layout) (keep : Nat) :
    (layout.prune keep).Issues UpgradeCall.Quiet := by
  refine (active_quiet layout).bind fun r => ?_
  cases r with
  | error error => exact .ret _
  | ok active =>
      refine (ask_quiet ⟨by simp, rfl⟩).bind fun r => ?_
      cases r with
      | error cause => exact .ret _
      | ok entries =>
          refine (scan_quiet layout entries).bind fun r => ?_
          cases r with
          | error error => exact .ret _
          | ok staged =>
              refine (removeAll_quiet _).bind fun r => ?_
              cases r <;> exact .ret _

/-- A quiet program yields quiet calls. -/
theorem quiet_yields {α : Type} {p : Prog UpgradeSig α} (hp : p.Issues UpgradeCall.Quiet) :
    p.Yields fun _ calls => Quiet calls :=
  ((Prog.Yields.any p).and_issues hp).mono fun _ _ h => h.2

theorem bringUp_yields (plan : Plan) :
    plan.bringUp.Yields fun up calls => restarts calls = 1 ∧ notifications calls = 0 ∧
      (up = true → calls = [⟨.restart, .ok ()⟩,
        ⟨.becomesHealthy plan.healthTimeoutMs plan.pollIntervalMs, true⟩]) := by
  intro r
  cases r with
  | error cause => exact ⟨rfl, rfl, fun h => by cases h⟩
  | ok =>
      intro up
      exact ⟨rfl, rfl, fun h => by subst h; rfl⟩

theorem giveUp_yields (failed : String) (restored : Option String) (reason : String) :
    (Plan.giveUp failed restored reason).Yields fun r calls =>
      r = .manualIntervention reason ∧ restarts calls = 0 ∧ notifications calls = 1 :=
  fun _ => ⟨rfl, rfl, rfl⟩

/-- Taking a binary back restarts the unit at most once and reports once. -/
theorem revert_yields (plan : Plan) (failed : String) (prior : Option String) :
    (plan.revert failed prior).Yields fun r calls =>
      restarts calls ≤ 1 ∧ notifications calls = 1 ∧ r.isReported = true ∧
        ∀ failed restored reason, r = .reverted failed restored reason →
          ∃ before payload, restarts before = 0 ∧ calls = before ++ [⟨.restart, .ok ()⟩,
            ⟨.becomesHealthy plan.healthTimeoutMs plan.pollIntervalMs, true⟩,
            ⟨.notify payload, ()⟩] := by
  cases prior with
  | none =>
      refine (giveUp_yields _ _ _).mono ?_
      rintro r calls ⟨rfl, hrestarts, hnotified⟩
      exact ⟨by omega, hnotified, rfl, fun _ _ _ h => by cases h⟩
  | some prior =>
      refine .bind ((quiet_yields (activate_quiet plan.layout prior)).mono fun r calls hquiet => ?_)
      cases r with
      | error error =>
          refine (giveUp_yields _ _ _).mono ?_
          rintro r more ⟨rfl, hrestarts, hnotified⟩
          refine ⟨?_, ?_, rfl, fun _ _ _ h => by cases h⟩
          · rw [restarts_append, hquiet.restarts]
            omega
          · rw [notifications_append, hquiet.notifications, hnotified]
      | ok =>
          refine .bind ((bringUp_yields plan).mono fun up ups hup => ?_)
          obtain ⟨hrestarts, hnotified, hcalls⟩ := hup
          cases up with
          | true =>
              obtain rfl := hcalls rfl
              intro answer
              refine ⟨?_, ?_, rfl, fun _ _ _ _ => ⟨calls, _, hquiet.restarts, rfl⟩⟩
              · rw [restarts_append, hquiet.restarts]
                exact le_rfl
              · rw [notifications_append, hquiet.notifications]
                rfl
          | false =>
              refine (giveUp_yields _ _ _).mono ?_
              rintro r more ⟨rfl, hmore, hmore'⟩
              refine ⟨?_, ?_, rfl, fun _ _ _ h => by cases h⟩
              · simp only [restarts_append, hquiet.restarts, hrestarts, hmore]
                exact le_rfl
              · simp only [notifications_append, hquiet.notifications, hnotified, hmore']

theorem Reports.of_aborted {reason : String} (hquiet : Quiet calls) :
    Reports plan (.abortedBeforeSwap reason) calls where
  restarts_le := by
    rw [hquiet.restarts]
    omega
  notified := hquiet.notifications
  aborted _ _ := hquiet.restarts
  reverted _ _ _ h := by cases h

/-- Quiet calls come before. -/
theorem Reports.behind {outcome : ApplyOutcome} (hquiet : Quiet calls)
    (h : Reports plan outcome more) : Reports plan outcome (calls ++ more) where
  restarts_le := by
    rw [restarts_append, hquiet.restarts, Nat.zero_add]
    exact h.restarts_le
  notified := by
    rw [notifications_append, hquiet.notifications, Nat.zero_add, h.notified]
  aborted reason houtcome := by
    rw [restarts_append, hquiet.restarts, h.aborted reason houtcome]
  reverted failed restored reason houtcome := by
    obtain ⟨before, payload, hbefore, rfl⟩ := h.reverted failed restored reason houtcome
    refine ⟨calls ++ before, payload, ?_, (List.append_assoc ..).symm⟩
    rw [restarts_append, hquiet.restarts, hbefore]

/-- A program with a quiet beginning. -/
theorem reports_bind {β : Type} {p : Prog UpgradeSig β} {f : β → Prog UpgradeSig ApplyOutcome}
    (hp : p.Issues UpgradeCall.Quiet)
    (hf : ∀ b, (f b).Yields fun r calls => Reports plan r calls) :
    (p >>= f).Yields fun r calls => Reports plan r calls :=
  .bind ((quiet_yields hp).mono fun b _ hquiet => (hf b).mono fun _ _ h => h.behind hquiet)

theorem aborted_reports (reason : String) :
    (Prog.ret (.abortedBeforeSwap reason) : Prog UpgradeSig ApplyOutcome).Yields
      fun r calls => Reports plan r calls :=
  .of_aborted fun _ h => by cases h

theorem commit_yields (plan : Plan) (id : String) :
    (plan.commit id).Yields fun r calls => Quiet calls ∧ ∃ pruned, r = .committed id pruned := by
  refine .bind ((quiet_yields (prune_quiet plan.layout plan.keep)).mono fun r calls hquiet => ?_)
  cases r with
  | error error => exact ⟨by simpa using hquiet, _, rfl⟩
  | ok removed => exact ⟨by simpa using hquiet, _, rfl⟩

theorem swap_reports (plan : Plan) (id : String) (prior : Option String) :
    (plan.swap id prior).Yields fun r calls => Reports plan r calls := by
  refine reports_bind (activate_quiet plan.layout id) fun r => ?_
  cases r with
  | error error => exact aborted_reports _
  | ok =>
      refine .bind ((bringUp_yields plan).mono fun up calls hup => ?_)
      obtain ⟨hrestarts, hnotified, -⟩ := hup
      cases up with
      | true =>
          refine (commit_yields plan id).mono ?_
          rintro r more ⟨hquiet, pruned, rfl⟩
          refine ⟨?_, ?_, (fun _ h => by cases h), fun _ _ _ h => by cases h⟩
          · rw [restarts_append, hquiet.restarts, hrestarts]
            omega
          · rw [notifications_append, hquiet.notifications, hnotified]
            rfl
      | false =>
          refine (revert_yields plan id prior).mono ?_
          rintro r more ⟨hle, hmore, hreported, hreverted⟩
          refine ⟨?_, ?_, fun reason h => ?_, fun failed restored reason h => ?_⟩
          · rw [restarts_append, hrestarts]
            omega
          · rw [notifications_append, hnotified, hmore, hreported]
            rfl
          · rw [h] at hreported
            cases hreported
          · obtain ⟨before, payload, hbefore, rfl⟩ := hreverted failed restored reason h
            refine ⟨calls ++ before, payload, ?_, (List.append_assoc ..).symm⟩
            rw [restarts_append, hrestarts, hbefore]

/-- The calls of an upgrade are those that its outcome stands for. -/
theorem apply_reports (plan : Plan) : plan.apply.Yields fun r calls => Reports plan r calls := by
  rw [Plan.apply]
  split
  · exact aborted_reports _
  refine reports_bind (ask_quiet ⟨by simp, rfl⟩) fun r => ?_
  cases r with
  | error error => exact aborted_reports _
  | ok verified =>
      refine reports_bind (active_quiet plan.layout) fun r => ?_
      cases r with
      | error error => exact aborted_reports _
      | ok prior =>
          refine reports_bind (stage_quiet plan.layout _ _) fun r => ?_
          cases r with
          | error error => exact aborted_reports _
          | ok => exact swap_reports plan _ prior

end Calls

end Fraisier.SelfUpgrade
