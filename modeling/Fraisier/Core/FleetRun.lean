import Fraisier.Core.FleetBatches

/-!
# A whole run of a multi-host deploy

The compensation of the migration, the verify step, and the steps put together:
`compensable` and, over the in-memory store, `run_spec`.
-/

namespace Fraisier.Core

open Fraisier.Effect Fraisier.Saga

namespace Launch

variable {L : Launch}

/-! ## Undoing the migration -/

section UndoMigrate

variable {f : Failure} {r : RolloutRuntime} {t : Fleet}

/-- Once the earlier batches are restored, a stuck host is a stranded one. -/
theorem Undoing.stranded_iff (h : L.Undoing f [] r t) {P : HostEntry → Prop} :
    L.Stranded P ↔ ∃ e, L.Stuck f e ∧ P e := by
  rw [h.failed.stranded_iff]
  refine ⟨And.right, fun hex => ⟨fun e he => ?_, hex⟩⟩
  obtain ⟨e', hstuck, -⟩ := hex
  exact h.restores (List.ne_nil_of_mem hstuck.1) e he List.not_mem_nil

/-- All hosts are restored when no activated host is stranded. -/
theorem Undoing.restored (h : L.Undoing f [] r t)
    (hnone : ¬ L.Stranded fun e => 2 ≤ L.stage e) : L.Restored t := by
  intro e he
  by_cases hstuck : L.Stuck f e
  · have hdangling := h.dangling e hstuck
    unfold Dangling at hdangling
    split at hdangling
    case isTrue hhigh => exact absurd (h.stranded_iff.mpr ⟨e, hstuck, hhigh⟩) hnone
    case isFalse hlow => exact fullyRestored_of_inactive hdangling
  · exact (h.back e he List.not_mem_nil hstuck).restored

/-- A stranded host that was activated is not restored. -/
theorem Undoing.not_restored (h : L.Undoing f [] r t)
    (hstranded : L.Stranded fun e => 2 ≤ L.stage e) : ¬ L.Restored t := by
  obtain ⟨e, hstuck, hhigh⟩ := h.stranded_iff.mp hstranded
  have hdangling := h.dangling e hstuck
  rw [Dangling, if_pos hhigh] at hdangling
  exact fun hrestored => hdangling
    (hrestored e (h.failed.not_earlier (.inl hstuck.1)).1)

/-- The rollback goes on from a fleet with the same hosts. -/
theorem Undoing.congr_hosts (h : L.Undoing f [] r t) {t' : Fleet} (hhosts : t'.hosts = t.hosts) :
    L.Undoing f [] r t' := by
  refine ⟨h.failed, h.earlier, ?_, ?_, ?_, ?_, h.progress, ?_, h.restores, h.unrecoverable⟩
  · exact hhosts ▸ h.back
  · exact hhosts ▸ h.dangling
  · exact hhosts ▸ h.later
  · exact hhosts ▸ h.pending
  · exact hhosts ▸ h.calls

theorem filter_isUp_append {log tail : List DbEvent}
    (hlog : log = L.migrated.log ++ tail) (htail : ∀ event ∈ tail, DbEvent.isUp event = false) :
    (log.filter DbEvent.isUp).length ≤ 1 := by
  have hnone : tail.filter DbEvent.isUp = [] := by
    rw [List.filter_eq_nil_iff]
    intro event hevent
    simp [htail event hevent]
  simp [hlog, hnone, migrated, DbEvent.isUp, List.filter_cons]

end UndoMigrate

/-- The migration is undone, or the rollback stops at it. -/
theorem migrate_compensate {ctx : StepContext} {failed : String} {r : RolloutRuntime} {t : Fleet}
    (h : L.Owing [] failed r t) :
    wp (fleet L.oracle) Eq L.Order (L.plan.deploy.migrateStep.compensate ctx r)
      (StepPost (L.Settled failed) L.Halted) t := by
  obtain ⟨f, hstep, hundo, hprevious, tail, hlog, hnone, hquiet⟩ := h
  have hups : ∀ event ∈ tail, DbEvent.isUp event = false := fun event he => (hquiet event he).1
  have htwo : L.Stranded (fun _ => True) → t.db.log.length = 2 := by
    intro hstranded
    obtain ⟨e, hstuck, -⟩ := hundo.stranded_iff.mp hstranded
    rw [hlog, hnone (List.ne_nil_of_mem hstuck.1)]
    rfl
  have hstuck : (∃ e, L.Stuck f e) ↔ L.Stranded (fun _ => True) := by
    simp [hundo.stranded_iff]
  refine wp_bind ?_
  show wp _ _ _ (L.plan.deploy.undoMigrate r) _ _
  unfold MultiHostDeploy.undoMigrate
  cases howns : L.plan.ownsDatabase with
  | false =>
      simp only [FleetPlan.deploy, howns, Bool.not_false, if_true]
      refine wp_ret.mpr (wp_ret.mpr ⟨⟨f, hstep, hundo⟩, by simp [howns],
        filter_isUp_append hlog hups, ?_, ?_⟩)
      · rw [hundo.unrecoverable, hstuck]
        exact ⟨And.left, fun hstranded => ⟨hstranded, by simp [howns]⟩⟩
      · rintro ⟨-, hyes, -⟩
        simp [howns] at hyes
  | true =>
      simp only [FleetPlan.deploy, howns, Bool.not_true, Bool.false_eq_true, if_false]
      cases hrevision : L.start.db.revision with
      | none =>
          simp only [hprevious, hrevision]
          refine wp_ret.mpr (wp_ret.mpr ⟨?_, ?_⟩)
          · rintro ⟨-, hundone⟩
            have hsome := (hundone howns).1
            simp [hrevision] at hsome
          · rintro ⟨-, -, hsome⟩
            simp [hrevision] at hsome
      | some target =>
          simp only [hprevious, hrevision]
          have horder : ¬ L.Exposed → L.Restored t := by
            intro hexposed
            exact hundo.restored fun hstranded =>
              hexposed ⟨hstranded, howns, by simp [hrevision]⟩
          refine wp_bind (wp_perform.mpr ⟨horder, ?_⟩)
          cases hfault : L.oracle.db.fault t.db.log.length with
          | some error =>
              simp only [fleet, dbStep, hfault]
              refine wp_ret.mpr (wp_ret.mpr ⟨?_, fun hexposed => ⟨?_, ?_⟩⟩)
              · rintro ⟨hstranded, hundone⟩
                have hfine := (hundone howns).2
                rw [← htwo hstranded, hfault] at hfine
                cases hfine
              · exact ⟨.failed (.downTo target) error, by simp [Database.record], rfl⟩
              · exact hundo.not_restored hexposed.1
          | none =>
              simp only [fleet, dbStep, dbEffect, hfault]
              refine wp_ret.mpr (wp_ret.mpr ⟨⟨f, hstep, hundo.congr_hosts rfl⟩, ?_, ?_, ?_, ?_⟩)
              · simp [Database.record, hrevision]
              · have hlog' : t.db.log ++ [.downgraded target] =
                    L.migrated.log ++ (tail ++ [.downgraded target]) := by simp [hlog]
                refine filter_isUp_append hlog' fun event hevent => ?_
                rcases List.mem_append.mp hevent with hevent | hevent
                · exact hups event hevent
                · rw [List.mem_singleton.mp hevent]
                  rfl
              · rw [hundo.unrecoverable, hstuck]
                refine ⟨And.left, fun hstranded => ⟨hstranded, fun _ => ⟨?_, ?_⟩⟩⟩
                · simp [hrevision]
                · rw [← htwo hstranded, hfault]
              · intro hexposed
                exact ⟨⟨.downgraded target, by simp [Database.record], rfl⟩,
                  hundo.not_restored hexposed.1⟩

/-! ## Verifying and the whole saga -/

/-- The whole fleet is verified, or everything has to be rolled back. -/
theorem verify_forward {ctx : StepContext} {r : RolloutRuntime} {t : Fleet}
    (h : L.Rolling L.plan.inventory [] r t) :
    wp (fleet L.oracle) Eq L.Order (L.plan.deploy.verifyStep.forward ctx r)
      (StepPost L.Deployed (L.Owing L.plan.inventory "verify")) t := by
  have howing : ∀ {t' : Fleet} {event : DbEvent},
      (∀ e ∈ L.plan.inventory, L.Pending e (t'.hosts e.host)) → t'.db = t.db.record event →
      event.isUp = false ∧ event.isDown = false → L.Owing L.plan.inventory "verify" r t' := by
    intro t' event hpending hdb hevent
    refine ⟨_, rfl, ⟨.late h.reached h.stage, fun _ => id, ?_, ?_, ?_, hpending, h.progress,
      ?_, ?_, ?_⟩, h.previous, [event], ?_, ?_, ?_⟩
    · exact fun e he hdone => absurd he hdone
    · rintro e ⟨he, -⟩
      cases he
    · simp
    · simp
    · simp
    · simp [h.recoverable, Stuck]
    · simp [hdb, Database.record, h.db]
    · simp
    · simpa using hevent
  refine wp_bind (wp_bind (wp_perform.mpr ⟨trivial, ?_⟩))
  cases hfault : L.oracle.db.fault t.db.log.length with
  | some error =>
      simp only [fleet, dbStep, hfault]
      exact wp_ret.mpr (wp_ret.mpr (howing h.pending rfl ⟨rfl, rfl⟩))
  | none =>
      simp only [fleet, dbStep, dbEffect, hfault]
      split
      · exact wp_ret.mpr (wp_ret.mpr (howing h.pending rfl ⟨rfl, rfl⟩))
      · have hdown : ∀ event ∈ (t.db.record (.verified (L.oracle.db.verify
            t.db.log.length))).log, DbEvent.isDown event = false := by
          intro event hevent
          rcases List.mem_append.mp hevent with hevent | hevent
          · exact not_isDown_of_migrated h.db event hevent
          · rw [List.mem_singleton.mp hevent]
            rfl
        refine wp_bind (wp_post ?_ (wp_hosts L.plan.distinct hdown fun e he =>
          verifyHost_spec (List.mem_map_of_mem he)))
        rintro results t' ⟨hresults, hdb, -⟩
        have hpending : ∀ e ∈ L.plan.inventory, L.Pending e (t'.hosts e.host) := by
          intro e he
          obtain ⟨v, -, event, hcell⟩ := exists_of_forall₂ hresults he
          rw [hcell]
          exact (h.pending e he).record event
        refine wp_ret.mpr (wp_ret.mpr ?_)
        cases failures "verify"
            (fun n hosts => s!"global verify found {n} unhealthy host(s): {hosts}") results with
        | error error => exact howing hpending hdb ⟨rfl, rfl⟩
        | ok _ => exact ⟨h.stage, h.reached, hpending, h.staged, h.next, h.recoverable,
            by simp [hdb, Database.record, h.db]⟩

/-- The rollout steps and the verify step, from some batches on. -/
theorem compensable_batches (ctx : StepContext) (pre post : List (List HostEntry))
    (hbatches : L.batches = pre ++ post) :
    Compensable (fleet L.oracle) L.Order ctx L.Halted (L.Rolling pre.flatten post.flatten)
      (L.Owing pre.flatten)
      ((post.zipIdx pre.length).map
        (fun b => L.plan.deploy.rolloutStep L.prior (b.2 + 1) b.1) ++ [L.plan.deploy.verifyStep])
      L.Deployed := by
  induction post generalizing pre with
  | nil =>
      have hall : pre.flatten = L.plan.inventory := by
        have hflatten := planBatches_flatten L.plan.strategy L.plan.inventory
        rwa [show planBatches L.plan.strategy L.plan.inventory = _ from hbatches,
          List.append_nil] at hflatten
      rw [hall]
      exact .cons (V := fun _ _ _ => False) (fun r t h => verify_forward h)
        (fun _ _ _ h => h.elim) .nil
  | cons b post ih =>
      have hnext : L.batches = (pre ++ [b]) ++ post := by simp [hbatches]
      have hrest := ih (pre ++ [b]) hnext
      rw [List.length_append, List.length_singleton, List.flatten_append, List.flatten_singleton]
        at hrest
      exact .cons (fun r t h => rollout_forward hbatches h)
        (fun failed r t h => rollout_compensate hbatches h) hrest

/-- The steps of a deploy, from its start to the verified fleet. -/
theorem compensable (ctx : StepContext) :
    Compensable (fleet L.oracle) L.Order ctx L.Halted L.Started L.Settled
      (L.plan.deploy.steps L.prior) L.Deployed := by
  have hflatten : L.batches.flatten = L.plan.inventory :=
    planBatches_flatten L.plan.strategy L.plan.inventory
  have hbatches := compensable_batches (L := L) ctx [] L.batches rfl
  rw [hflatten] at hbatches
  refine .cons (fun r t h => preflight_forward h) (fun failed r t h => wp_ret.mpr h) ?_
  refine .cons (fun r t h => fetch_forward h) (fun failed r t h => wp_ret.mpr h) ?_
  exact .cons (fun r t h => migrate_forward h) (fun failed r t h => migrate_compensate h) hbatches

/-! ## The run -/

/-- What a run that reached its saga ends with, for each outcome it can report. -/
def Ends (L : Launch) (v : Except MultiHostDeploy.Error SagaOutcome) (w : MemoryStore × Fleet) :
    Prop :=
  match v with
  | .ok .committed => ∃ r s, L.Deployed r w.2 ∧ Ended L.key L.store s .committed ∧
      w.1 = s.setSnapshot L.key r.committedRecord.encode
  | .ok (.rolledBack failed _) => ∃ r, L.Settled failed r w.2 ∧ r.unrecoverable = none ∧
      Ended L.key L.store w.1 .rolledBack
  | .ok (.partialRollback _) =>
      (∃ failed r, L.Settled failed r w.2 ∧ r.unrecoverable.isSome = true ∧
        Ended L.key L.store w.1 .rolledBack) ∨
      ∃ r reason, L.Halted r w.2 ∧ Ended L.key L.store w.1 (.partialRollback reason)
  | .error _ => False

/-- Every run that is admitted ends as `Ends` says and rolls back in order. -/
theorem run_spec [CharTables] (hadmitted : L.Admitted) :
    wp (memoryStore.prod (fleet L.oracle)) Eq (Guarantee.inr L.Order) L.plan.deploy.run L.Ends
      (L.store, L.start) := by
  obtain ⟨hreadable, hfree⟩ := hadmitted
  refine wp_bind (wp_store.mpr ⟨trivial, ?_⟩)
  obtain ⟨prior, hprior⟩ := Option.isSome_iff_exists.mp hreadable
  have hL : L.prior = prior := by simp [Launch.prior, hprior]
  simp only [memoryStore]
  rw [show MultiHostDeploy.priorRecord (L.store.snapshots L.plan.deploy.key) = some prior from
    hprior]
  subst hL
  refine wp_bind (wp_post ?_ (wp_runWithState_compensable (compensable ⟨L.key⟩) hfree
    ⟨rfl, rfl⟩))
  rintro ⟨outcome, r⟩ ⟨s, t⟩ hpost
  rcases outcome with error | (_ | ⟨failed, reason⟩ | reason)
  · exact hpost.elim
  · obtain ⟨hended, hdeployed⟩ := hpost
    refine wp_bind (wp_store.mpr ⟨trivial, wp_ret.mpr ?_⟩)
    exact ⟨r, s, hdeployed, hended, rfl⟩
  · obtain ⟨hended, hsettled⟩ := hpost
    cases hunrecoverable : r.unrecoverable with
    | none =>
        simp only [RolloutRuntime.finalize, hunrecoverable]
        exact wp_ret.mpr ⟨r, hsettled, hunrecoverable, hended⟩
    | some detail =>
        simp only [RolloutRuntime.finalize, hunrecoverable]
        exact wp_ret.mpr (.inl ⟨failed, r, hsettled, by simp [hunrecoverable], hended⟩)
  · obtain ⟨hended, hhalted⟩ := hpost
    exact wp_ret.mpr (.inr ⟨r, reason, hhalted, hended⟩)

/-- A run that is not admitted changes nothing and reports an error. -/
theorem run_refused [CharTables] (hrefused : ¬ L.Admitted) :
    wp (memoryStore.prod (fleet L.oracle)) Eq (Guarantee.inr Guarantee.none)
      L.plan.deploy.run (fun v w => (∃ error, v = .error error) ∧ w = (L.store, L.start))
      (L.store, L.start) := by
  refine wp_bind (wp_store.mpr ⟨trivial, ?_⟩)
  simp only [memoryStore]
  cases hprior : MultiHostDeploy.priorRecord (L.store.snapshots L.plan.deploy.key) with
  | none => exact wp_ret.mpr ⟨⟨_, rfl⟩, rfl⟩
  | some prior =>
      have hlocked : L.store.locked L.key = true := by
        by_contra hfree
        exact hrefused ⟨Option.isSome_iff_exists.mpr ⟨prior, hprior⟩, by simpa using hfree⟩
      exact wp_bind (wp_runWithState_locked hlocked (wp_ret.mpr ⟨⟨_, rfl⟩, rfl⟩))

end Launch

end Fraisier.Core
