import Fraisier.Core.Fleet

/-!
# What the tasks of a rollout do to a host

For each task a deploy runs on a host, a specification in terms of that host alone: how
far an advance gets is a function of the oracle (`stageReached`), and so is whether a
restore from there succeeds (`RestoreOk`). The two come together in `Back`: a host that
was restored runs its prior artifact with the membership captured at its drain.
-/

namespace Fraisier.Core

open Fraisier.Effect Fraisier.Saga

/-! ## Reading a host's log -/

/-- An event of a host that is only looked at. -/
def HostEvent.Quiet : HostEvent → Prop
  | .activated _ => False
  | .drained _ => False
  | _ => True

/-- A log without an activation. -/
def Inactive (log : List HostEvent) : Prop :=
  ∀ artifact, HostEvent.activated artifact ∉ log

/-- A log without a reattach. -/
def Detached (log : List HostEvent) : Prop :=
  ∀ membership, HostEvent.reattached membership ∉ log

/-- The log before and after the first activation. -/
def splitActivation : List HostEvent → Option (List HostEvent × List HostEvent)
  | [] => none
  | .activated _ :: rest => some ([], rest)
  | event :: rest => (splitActivation rest).map fun r => (event :: r.1, r.2)

/-- The membership captured when the host was first drained. -/
def captured : List HostEvent → Option LbMembership
  | [] => none
  | .drained membership :: _ => some membership
  | _ :: rest => captured rest

/-- If the host was activated, it was fully restored afterwards: its prior artifact was
activated, its service restarted and the captured membership reattached. -/
def FullyRestored (prior : Option StagedArtifact) (log : List HostEvent) : Prop :=
  ∀ before after, splitActivation log = some (before, after) →
    ∃ membership artifact, captured before = some membership ∧ prior = some artifact ∧
      [.activated artifact, .restarted, .reattached membership].Sublist after

theorem splitActivation_of_inactive {log : List HostEvent} (h : Inactive log) :
    splitActivation log = none := by
  induction log with
  | nil => rfl
  | cons event rest ih =>
      have hrest : Inactive rest := fun a ha => h a (List.mem_cons_of_mem _ ha)
      cases event with
      | activated a => exact absurd List.mem_cons_self (h a)
      | _ => simp [splitActivation, ih hrest]

theorem splitActivation_append {before after : List HostEvent} {artifact : StagedArtifact}
    (h : Inactive before) :
    splitActivation (before ++ .activated artifact :: after) = some (before, after) := by
  induction before with
  | nil => rfl
  | cons event rest ih =>
      have hrest : Inactive rest := fun a ha => h a (List.mem_cons_of_mem _ ha)
      cases event with
      | activated a => exact absurd List.mem_cons_self (h a)
      | _ => simp [splitActivation, ih hrest]

theorem captured_append (xs ys : List HostEvent) :
    captured (xs ++ ys) = (captured xs).or (captured ys) := by
  induction xs with
  | nil => rfl
  | cons event rest ih => cases event <;> simp [captured, ih]

theorem captured_of_quiet {log : List HostEvent} (h : ∀ e ∈ log, e.Quiet) :
    captured log = none := by
  induction log with
  | nil => rfl
  | cons event rest ih =>
      have hevent := h event List.mem_cons_self
      have hrest := ih fun e he => h e (List.mem_cons_of_mem _ he)
      cases event with
      | activated a => exact hevent.elim
      | drained m => exact hevent.elim
      | _ => simpa [captured] using hrest

theorem inactive_of_quiet {log : List HostEvent} (h : ∀ e ∈ log, e.Quiet) : Inactive log :=
  fun _ ha => h _ ha

theorem inactive_append {xs ys : List HostEvent} (hx : Inactive xs) (hy : Inactive ys) :
    Inactive (xs ++ ys) := by
  intro a ha
  rcases List.mem_append.mp ha with ha | ha
  · exact hx a ha
  · exact hy a ha

theorem fullyRestored_of_inactive {prior : Option StagedArtifact} {log : List HostEvent}
    (h : Inactive log) : FullyRestored prior log := by
  intro before after hsplit
  rw [splitActivation_of_inactive h] at hsplit
  cases hsplit

/-! ## Advancing a host -/

/-- How many of the five calls of an advance succeed when the first of them is the
host's `n`-th call. An unhealthy host fails the fourth. -/
def stageReached (o : HostOracle) (n : Nat) : Nat :=
  if (o.fault n).isSome then 0
  else if (o.fault (n + 1)).isSome then 1
  else if (o.fault (n + 2)).isSome then 2
  else if (o.fault (n + 3)).isSome || !(o.health (n + 3)).healthy then 3
  else if (o.fault (n + 4)).isSome then 4
  else 5

/-- The number of calls an advance that reaches a stage makes. -/
def advanceCalls (stage : Nat) : Nat :=
  min (stage + 1) 5

/-- The progress recorded for a stage. -/
def progressAt (membership : LbMembership) (stage : Nat) : HostProgress where
  drained := if 1 ≤ stage then some membership else none
  activated := decide (2 ≤ stage)
  reattached := decide (5 ≤ stage)

/-- A host that has advanced to a stage from the cell `c`. -/
structure Advanced (artifact : StagedArtifact) (c : HostCell) (stage : Nat) (cell : HostCell) :
    Prop where
  active : cell.active = if 2 ≤ stage then some artifact else c.active
  running : cell.running = if 3 ≤ stage then some artifact else c.running
  membership : stage = 0 ∨ stage = 5 → cell.membership = c.membership
  calls : cell.log.length = c.log.length + advanceCalls stage
  captured : captured cell.log = (captured c.log).or (if 1 ≤ stage then some c.membership else none)
  log : if 2 ≤ stage then
      ∃ tail, cell.log = c.log ++ .drained c.membership :: .activated artifact :: tail ∧
        Inactive tail
    else ∃ tail, cell.log = c.log ++ tail ∧ Inactive tail

section Tasks

variable {plan : FleetPlan} {o : FleetOracle} {hosts : List HostId} {entry : HostEntry}
variable {cell : HostCell}

/-- Advancing a host reaches the stage its oracle allows and records it. -/
theorem advanceHost_spec (hhost : entry.host ∈ hosts)
    {staged : List (HostId × StagedArtifact)} {artifact : StagedArtifact}
    (hstaged : staged.lookup entry.host = some artifact) :
    hostWp o hosts entry.host (plan.deploy.advanceHost staged entry) (fun v cell' =>
      (v.1 = .ok () ↔ stageReached (o.host entry.host) cell.log.length = 5) ∧
      v.2 = progressAt cell.membership (stageReached (o.host entry.host) cell.log.length) ∧
      Advanced artifact cell (stageReached (o.host entry.host) cell.log.length) cell') cell := by
  unfold MultiHostDeploy.advanceHost
  generalize hn : cell.log.length = n
  refine hostWp_bind (hostWp_onHost hhost ?_)
  cases hdrain : (o.host entry.host).fault n with
  | some e =>
      have hstage : stageReached (o.host entry.host) n = 0 := by
        simp [stageReached, hdrain]
      simp only [hostStep, hn, hdrain, hstage]
      refine hostWp_ret ⟨by simp, rfl, rfl, rfl, fun _ => rfl, ?_, ?_, _, rfl, ?_⟩
      · simp [HostCell.record, advanceCalls]
      · simp [HostCell.record, captured_append, Core.captured]
      · simp [Inactive]
  | none =>
      simp only [hostStep, hostEffect, hn, hdrain, hstaged]
      refine hostWp_bind (hostWp_onHost hhost ?_)
      cases hactivate : (o.host entry.host).fault (n + 1) with
      | some e =>
          have hstage : stageReached (o.host entry.host) n = 1 := by
            simp [stageReached, hdrain, hactivate]
          simp only [hostStep, HostCell.record, List.length_append, List.length_singleton, hn,
            hactivate, hstage]
          refine hostWp_ret ⟨by simp, rfl, rfl, rfl, by simp, by simp [advanceCalls, hn],
            by simp [captured_append, Core.captured],
            [.drained cell.membership, .failed (.activate artifact) e], by simp, ?_⟩
          simp [Inactive]
      | none =>
          simp only [hostStep, hostEffect, HostCell.record, List.length_append,
            List.length_singleton, hn,
            hactivate]
          refine hostWp_bind (hostWp_onHost hhost ?_)
          cases hrestart : (o.host entry.host).fault (n + 1 + 1) with
          | some e =>
              have hstage : stageReached (o.host entry.host) n = 2 := by
                simp [stageReached, hdrain, hactivate, hrestart]
              simp only [hostStep, HostCell.record, List.length_append, List.length_singleton,
                hn, hrestart, hstage]
              exact hostWp_ret ⟨by simp, rfl, rfl, rfl, by simp, by simp [advanceCalls, hn],
                by simp [captured_append, Core.captured], [.failed .restart e], by simp [Inactive]⟩
          | none =>
              simp only [hostStep, hostEffect, HostCell.record, List.length_append,
                List.length_singleton,
                hn, hrestart]
              refine hostWp_bind (hostWp_onHost hhost ?_)
              cases hcheck : (o.host entry.host).fault (n + 1 + 1 + 1) with
              | some e =>
                  have hstage : stageReached (o.host entry.host) n = 3 := by
                    simp [stageReached, hdrain, hactivate, hrestart, hcheck]
                  simp only [hostStep, HostCell.record, List.length_append,
                    List.length_singleton, hn, hcheck, hstage]
                  exact hostWp_ret ⟨by simp, rfl, rfl, rfl, by simp, by simp [advanceCalls, hn],
                    by simp [captured_append, Core.captured], [.restarted, .failed .check e],
                    by simp [Inactive]⟩
              | none =>
                  simp only [hostStep, hostEffect, HostCell.record, List.length_append,
                    List.length_singleton, hn, hcheck]
                  cases hhealthy : ((o.host entry.host).health (n + 1 + 1 + 1)).healthy with
                  | false =>
                      have hstage : stageReached (o.host entry.host) n = 3 := by
                        simp [stageReached, hdrain, hactivate, hrestart, hcheck, hhealthy]
                      simp only [hstage, Bool.not_false, if_true]
                      exact hostWp_ret ⟨by simp, rfl, rfl, rfl, by simp,
                        by simp [advanceCalls, hn], by simp [captured_append, Core.captured],
                        [.restarted, .checked ((o.host entry.host).health (n + 1 + 1 + 1))],
                        by simp [Inactive]⟩
                  | true =>
                      simp only [Bool.not_true, Bool.false_eq_true, if_false]
                      refine hostWp_bind (hostWp_onHost hhost ?_)
                      cases hreattach : (o.host entry.host).fault (n + 1 + 1 + 1 + 1) with
                      | some e =>
                          have hstage : stageReached (o.host entry.host) n = 4 := by
                            simp [stageReached, hdrain, hactivate, hrestart, hcheck, hhealthy,
                              hreattach]
                          simp only [hostStep, HostCell.record, List.length_append,
                            List.length_singleton, hn, hreattach, hstage]
                          exact hostWp_ret ⟨by simp, rfl, rfl, rfl, by simp,
                            by simp [advanceCalls, hn], by simp [captured_append, Core.captured],
                            [.restarted, .checked ((o.host entry.host).health (n + 1 + 1 + 1)),
                              .failed (.reattach cell.membership) e], by simp [Inactive]⟩
                      | none =>
                          have hstage : stageReached (o.host entry.host) n = 5 := by
                            simp [stageReached, hdrain, hactivate, hrestart, hcheck, hhealthy,
                              hreattach]
                          simp only [hostStep, hostEffect, HostCell.record, List.length_append,
                            List.length_singleton, hn, hreattach, hstage]
                          exact hostWp_ret ⟨by simp, rfl, rfl, rfl, by simp,
                            by simp [advanceCalls, hn], by simp [captured_append, Core.captured],
                            [.restarted, .checked ((o.host entry.host).health (n + 1 + 1 + 1)),
                              .reattached cell.membership], by simp [Inactive]⟩

end Tasks

/-! ## Restoring a host -/

/-- Whether a restore from a stage succeeds when its first call is the host's `n`-th: a
reattached host is drained again, an activated one gets its prior artifact back and is
restarted, a drained one is reattached. -/
structure RestoreOk (o : HostOracle) (prior : Option StagedArtifact) (stage n : Nat) : Prop where
  drain : 5 ≤ stage → o.fault n = none
  prior : 2 ≤ stage → prior.isSome
  activate : 2 ≤ stage → o.fault (n + if 5 ≤ stage then 1 else 0) = none
  restart : 2 ≤ stage → o.fault (n + (if 5 ≤ stage then 1 else 0) + 1) = none
  reattach : 1 ≤ stage →
    o.fault (n + (if 5 ≤ stage then 1 else 0) + if 2 ≤ stage then 2 else 0) = none

/-- What a restore from a stage that succeeds makes of a host. -/
structure RestoredFrom (prior : Option StagedArtifact) (membership : LbMembership) (stage : Nat)
    (cell cell' : HostCell) : Prop where
  untouched : stage = 0 → cell' = cell
  reattached : 1 ≤ stage → cell'.membership = membership
  restored : 2 ≤ stage → ∃ artifact, prior = some artifact ∧ cell'.active = some artifact ∧
    cell'.running = some artifact ∧ ∃ tail, cell'.log = cell.log ++ tail ∧
      [.activated artifact, .restarted, .reattached membership].Sublist tail
  kept : stage < 2 → cell'.active = cell.active ∧ cell'.running = cell.running

section Restores

variable (plan : FleetPlan) (prior : MultiHostRecord) {o : FleetOracle} {hosts : List HostId}
variable {entry : HostEntry} {cell : HostCell}

/-- Putting the prior artifact back takes a recorded one and two calls. -/
theorem restoreArtifact_spec (hhost : entry.host ∈ hosts) {n : Nat} (hn : cell.log.length = n) :
    hostWp o hosts entry.host (plan.deploy.restoreArtifact prior entry) (fun v cell' =>
      (v = .ok () ↔ (prior.active.lookup entry.host).isSome ∧
        (o.host entry.host).fault n = none ∧ (o.host entry.host).fault (n + 1) = none) ∧
      (v = .ok () → ∃ artifact, prior.active.lookup entry.host = some artifact ∧
        cell' = { cell with
          active := some artifact
          running := some artifact
          log := cell.log ++ [.activated artifact, .restarted] }) ∧
      (v ≠ .ok () → ∃ tail, cell'.log = cell.log ++ tail ∧ Detached tail)) cell := by
  unfold MultiHostDeploy.restoreArtifact
  cases hprior : prior.active.lookup entry.host with
  | none =>
      simp only [hprior]
      exact hostWp_ret ⟨by simp, by simp, fun _ => ⟨[], by simp [Detached]⟩⟩
  | some artifact =>
      simp only [hprior]
      refine hostWp_bind (hostWp_onHost hhost ?_)
      cases hactivate : (o.host entry.host).fault n with
      | some e =>
          simp only [hostStep, hn, hactivate]
          exact hostWp_ret ⟨by simp, by simp,
            fun _ => ⟨[.failed (.activate artifact) e], by simp [HostCell.record, Detached]⟩⟩
      | none =>
          simp only [hostStep, hostEffect, hn, hactivate, HostCell.record]
          refine hostWp_bind (hostWp_onHost hhost ?_)
          cases hrestart : (o.host entry.host).fault (n + 1) with
          | some e =>
              simp only [hostStep, HostCell.record, List.length_append, List.length_singleton, hn,
                hrestart]
              exact hostWp_ret ⟨by simp, by simp,
                fun _ => ⟨[.activated artifact, .failed .restart e], by simp [Detached]⟩⟩
          | none =>
              simp only [hostStep, hostEffect, HostCell.record, List.length_append,
                List.length_singleton, hn,
                hrestart]
              exact hostWp_ret ⟨by simp, fun _ => ⟨artifact, rfl, by simp⟩, by simp⟩

omit prior in
/-- The last call of a restore: reattach with the captured membership. -/
theorem reattach_spec (hhost : entry.host ∈ hosts) {n : Nat} (hn : cell.log.length = n)
    {membership : LbMembership} {Q : Except SagaError Unit → HostCell → Prop}
    (herror : ∀ e error, (o.host entry.host).fault n = some e →
      Q (.error error) (cell.record (.failed (.reattach membership) e)))
    (hok : (o.host entry.host).fault n = none →
      Q (.ok ()) ({ cell with membership := membership }.record (.reattached membership))) :
    hostWp o hosts entry.host
      (plan.deploy.lb.reattach (plan.deploy.hostCtx entry) entry.host membership >>= fun r =>
        match r with
        | .error error => .ret (.error (hostFailed entry.host "rollback reattach" error))
        | .ok () => .ret (.ok ())) Q cell := by
  refine hostWp_bind (hostWp_onHost hhost ?_)
  cases hreattach : (o.host entry.host).fault n with
  | some e =>
      simp only [hostStep, hn, hreattach]
      exact hostWp_ret (herror e _ hreattach)
  | none =>
      simp only [hostStep, hostEffect, hn, hreattach]
      exact hostWp_ret (hok hreattach)

/-- The part of a restore behind the optional drain: the artifact, if the new one was
activated, and the membership. -/
def restoreRest (d : MultiHostDeploy FleetSig) (prior : MultiHostRecord) (entry : HostEntry)
    (activated : Bool) (membership : LbMembership) : Prog FleetSig (Except SagaError Unit) := do
  let restored ← if activated then d.restoreArtifact prior entry else .ret (.ok ())
  match restored with
  | .error error => return .error error
  | .ok () =>
    match ← d.lb.reattach (d.hostCtx entry) entry.host membership with
    | .error error => return .error (hostFailed entry.host "rollback reattach" error)
    | .ok () => return .ok ()

/-- A host that was only drained is reattached. -/
theorem restoreRest_drained (hhost : entry.host ∈ hosts) {n : Nat} (hn : cell.log.length = n)
    {membership : LbMembership} :
    hostWp o hosts entry.host (restoreRest plan.deploy prior entry false membership)
      (fun v cell' => (v = .ok () ↔ (o.host entry.host).fault n = none) ∧
        (v = .ok () → cell'.membership = membership) ∧
        cell'.active = cell.active ∧ cell'.running = cell.running ∧
        ∃ tail, cell'.log = cell.log ++ tail ∧ Inactive tail ∧ (v ≠ .ok () → Detached tail))
      cell := by
  refine reattach_spec plan hhost hn (fun e error hfault => ?_) fun hfault => ?_
  · exact ⟨by simp [hfault], by simp, rfl, rfl, _, rfl, by simp [Inactive], by simp [Detached]⟩
  · exact ⟨by simp [hfault], fun _ => rfl, rfl, rfl, _, rfl, by simp [Inactive], by simp⟩

/-- A host that was activated gets its prior artifact and its membership back. -/
theorem restoreRest_activated (hhost : entry.host ∈ hosts) {n : Nat} (hn : cell.log.length = n)
    {membership : LbMembership} :
    hostWp o hosts entry.host (restoreRest plan.deploy prior entry true membership)
      (fun v cell' =>
        (v = .ok () ↔ (prior.active.lookup entry.host).isSome ∧
          (o.host entry.host).fault n = none ∧ (o.host entry.host).fault (n + 1) = none ∧
          (o.host entry.host).fault (n + 2) = none) ∧
        (v = .ok () → cell'.membership = membership ∧
          ∃ artifact, prior.active.lookup entry.host = some artifact ∧
            cell'.active = some artifact ∧ cell'.running = some artifact ∧
            cell'.log = cell.log ++ [.activated artifact, .restarted, .reattached membership]) ∧
        ∃ tail, cell'.log = cell.log ++ tail ∧ (v ≠ .ok () → Detached tail)) cell := by
  refine hostWp_bind (hostWp_post ?_ (restoreArtifact_spec plan prior hhost hn))
  rintro (error | _) cell' ⟨hiff, hcell, hfailed⟩
  · obtain ⟨tail, hlog, hdetached⟩ := hfailed (by simp)
    refine hostWp_ret ⟨?_, by simp, tail, hlog, fun _ => hdetached⟩
    simp only [reduceCtorEq, false_iff] at hiff ⊢
    exact fun h => hiff ⟨h.1, h.2.1, h.2.2.1⟩
  · obtain ⟨artifact, hprior, rfl⟩ := hcell rfl
    obtain ⟨hsome, hactivate, hrestart⟩ := hiff.mp rfl
    have hlen : (cell.log ++ [HostEvent.activated artifact, .restarted]).length = n + 2 := by
      simp [hn]
    refine reattach_spec plan hhost hlen (fun e error hfault => ?_) fun hfault => ?_
    · exact ⟨by simp [hfault], by simp,
        [.activated artifact, .restarted, .failed (.reattach membership) e],
        by simp [HostCell.record, Detached]⟩
    · exact ⟨by simp [hsome, hactivate, hrestart, hfault],
        fun _ => ⟨rfl, artifact, hprior, rfl, rfl, by simp [HostCell.record]⟩,
        [.activated artifact, .restarted, .reattached membership], by simp [HostCell.record]⟩

/-- A host that had been reattached is drained first. -/
theorem restoreHost_eq {runtime : RolloutRuntime} {membership : LbMembership}
    {activated reattached : Bool}
    (hprogress : runtime.progressOf entry.host = ⟨some membership, activated, reattached⟩) :
    plan.deploy.restoreHost prior runtime entry =
      if reattached then
        onHost entry.host .drain >>= fun r => match r with
          | .error error => .ret (.error (hostFailed entry.host "rollback drain" error))
          | .ok _ => restoreRest plan.deploy prior entry activated membership
      else restoreRest plan.deploy prior entry activated membership := by
  unfold MultiHostDeploy.restoreHost restoreRest
  simp only [hprogress]
  cases reattached <;> cases activated <;> rfl

/-- Restoring a host succeeds exactly when its oracle allows it, and then undoes the
stage it had reached. Only one that succeeds reattaches the host. -/
theorem restoreHost_spec (hhost : entry.host ∈ hosts) {runtime : RolloutRuntime}
    {membership : LbMembership} {stage n : Nat} (hn : cell.log.length = n)
    (hprogress : runtime.progressOf entry.host = progressAt membership stage) :
    hostWp o hosts entry.host (plan.deploy.restoreHost prior runtime entry) (fun v cell' =>
      (v = .ok () ↔
        RestoreOk (o.host entry.host) (prior.active.lookup entry.host) stage n) ∧
      (v = .ok () →
        RestoredFrom (prior.active.lookup entry.host) membership stage cell cell') ∧
      ∃ tail, cell'.log = cell.log ++ tail ∧ (stage = 0 → tail = []) ∧
        (stage < 2 → Inactive tail) ∧ (v ≠ .ok () → Detached tail)) cell := by
  rcases Nat.eq_zero_or_pos stage with rfl | hpos
  · unfold MultiHostDeploy.restoreHost
    simp only [hprogress]
    refine hostWp_ret ⟨iff_of_true rfl ⟨?_, ?_, ?_, ?_, ?_⟩, fun _ => ⟨?_, ?_, ?_, ?_⟩, [], ?_⟩
    all_goals simp [Inactive]
  have hdrained : progressAt membership stage =
      ⟨some membership, decide (2 ≤ stage), decide (5 ≤ stage)⟩ := by
    simp [progressAt, Nat.one_le_iff_ne_zero.mp hpos]
  rw [restoreHost_eq plan prior (hprogress.trans hdrained)]
  rcases Nat.lt_or_ge stage 2 with hlow | hactivated
  · obtain rfl : stage = 1 := by omega
    refine hostWp_post ?_ (restoreRest_drained plan prior hhost hn)
    rintro v cell' ⟨hiff, hmember, hactive, hrunning, tail, hlog, hinactive, hdetached⟩
    refine ⟨?_, fun hv => ⟨by simp, fun _ => hmember hv, by simp, fun _ => ⟨hactive, hrunning⟩⟩,
      tail, hlog, by simp, fun _ => hinactive, hdetached⟩
    rw [hiff]
    exact ⟨fun h => ⟨by simp, by simp, by simp, by simp, fun _ => h⟩,
      fun h => h.reattach (Nat.le_refl 1)⟩
  rcases Nat.lt_or_ge stage 5 with hmid | hfull
  · have hno : ¬ 5 ≤ stage := by omega
    simp only [hactivated, hno, decide_true, decide_false]
    refine hostWp_post ?_ (restoreRest_activated plan prior hhost hn)
    rintro v cell' ⟨hiff, hback, tail, htail, hdetached⟩
    refine ⟨?_, fun hv => ?_, tail, htail, by omega, by omega, hdetached⟩
    · rw [hiff]
      constructor
      · rintro ⟨hsome, hactivate, hrestart, hreattach⟩
        exact ⟨fun h => absurd h hno, fun _ => hsome, fun _ => by simpa [hno] using hactivate,
          fun _ => by simpa [hno] using hrestart,
          fun _ => by simpa [hno, hactivated] using hreattach⟩
      · intro h
        exact ⟨h.prior hactivated, by simpa [hno] using h.activate hactivated,
          by simpa [hno] using h.restart hactivated,
          by simpa [hno, hactivated] using h.reattach hpos⟩
    · obtain ⟨hmember, artifact, hprior, hactive, hrunning, hlog⟩ := hback hv
      exact ⟨by omega, fun _ => hmember,
        fun _ => ⟨artifact, hprior, hactive, hrunning, _, hlog, .refl _⟩, by omega⟩
  · simp only [hactivated, hfull, decide_true, if_true]
    refine hostWp_bind (hostWp_onHost hhost ?_)
    cases hdrain : (o.host entry.host).fault n with
    | some e =>
        simp only [hostStep, hn, hdrain]
        refine hostWp_ret ⟨?_, by simp, _, rfl, by omega, by omega, by simp [Detached]⟩
        simp only [reduceCtorEq, false_iff]
        intro h
        have := h.drain hfull
        simp [hdrain] at this
    | none =>
        simp only [hostStep, hostEffect, hn, hdrain]
        have hlen : ({ cell with
            membership := (o.host entry.host).afterDrain cell.membership }.record
              (.drained cell.membership)).log.length = n + 1 := by
          simp [HostCell.record, hn]
        refine hostWp_post ?_ (restoreRest_activated plan prior hhost hlen)
        rintro v cell' ⟨hiff, hback, tail, htail, hdetached⟩
        have hlog' : cell'.log = cell.log ++ .drained cell.membership :: tail := by
          rw [htail]
          simp [HostCell.record]
        refine ⟨?_, fun hv => ?_, .drained cell.membership :: tail, hlog', by omega, by omega,
          fun hv => by simpa [Detached] using hdetached hv⟩
        · rw [hiff]
          constructor
          · rintro ⟨hsome, hactivate, hrestart, hreattach⟩
            exact ⟨fun _ => hdrain, fun _ => hsome, fun _ => by simpa [hfull] using hactivate,
              fun _ => by simpa [hfull] using hrestart,
              fun _ => by simpa [hfull, hactivated] using hreattach⟩
          · intro h
            exact ⟨h.prior hactivated, by simpa [hfull] using h.activate hactivated,
              by simpa [hfull] using h.restart hactivated,
              by simpa [hfull, hactivated] using h.reattach hpos⟩
        · obtain ⟨hmember, artifact, hprior, hactive, hrunning, hlog⟩ := hback hv
          refine ⟨by omega, fun _ => hmember, fun _ => ⟨artifact, hprior, hactive, hrunning,
            .drained cell.membership :: [.activated artifact, .restarted, .reattached membership],
            ?_, ?_⟩, by omega⟩
          · rw [hlog]
            simp [HostCell.record]
          · exact List.sublist_cons_self _ _

end Restores

end Fraisier.Core
