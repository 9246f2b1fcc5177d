import Fraisier.Core.Launch
import Fraisier.Saga.Rule

/-!
# The steps of a multi-host deploy

Assertions about the fleet and the run state before and after each step of the saga, and
the forward steps up to the migration. All of them hold in every schedule of the
concurrent tasks.
-/

namespace Fraisier.Core

open Fraisier.Effect Fraisier.Saga

/-! ## Results of concurrent tasks -/

theorem forall₂_iff {α β : Type} {R : α → β → Prop} {p : α → Prop} {q : β → Prop}
    {xs : List α} {ys : List β} (h : List.Forall₂ R xs ys)
    (hR : ∀ x y, R x y → (p x ↔ q y)) : (∀ x ∈ xs, p x) ↔ ∀ y ∈ ys, q y := by
  induction h with
  | nil => simp
  | cons hxy _ ih => simp [hR _ _ hxy, ih]

theorem exists_of_forall₂ {α β : Type} {R : α → β → Prop} {xs : List α} {ys : List β}
    (h : List.Forall₂ R xs ys) {x : α} (hx : x ∈ xs) : ∃ y ∈ ys, R x y := by
  induction h with
  | nil => cases hx
  | cons hxy _ ih =>
      rcases List.mem_cons.mp hx with rfl | hx
      · exact ⟨_, List.mem_cons_self, hxy⟩
      · obtain ⟨y, hy, hR⟩ := ih hx
        exact ⟨y, List.mem_cons_of_mem _ hy, hR⟩

theorem failures_eq_ok {α : Type} {step : String} {summary : Nat → String → String}
    {results : List (Except String α)} :
    failures step summary results = .ok () ↔ ∀ r ∈ results, errorOf r = none := by
  unfold failures
  cases herrors : results.filterMap errorOf with
  | nil => simpa using List.filterMap_eq_nil_iff.mp herrors
  | cons error errors =>
      simp only [reduceCtorEq, false_iff, not_forall]
      have hmem : error ∈ results.filterMap errorOf := by simp [herrors]
      obtain ⟨r, hr, herror⟩ := List.mem_filterMap.mp hmem
      exact ⟨r, hr, by simp [herror]⟩

/-- The progress of a batch is found under its hosts, and no other host's changes. -/
theorem progressOf_mergeProgress (runtime : RolloutRuntime) {batch : List HostEntry}
    {results : List (Except SagaError Unit × HostProgress)} {progress : HostEntry → HostProgress}
    (hdistinct : (batch.map HostEntry.host).Nodup)
    (hresults : List.Forall₂ (fun e v => v.2 = progress e) batch results) :
    (∀ e ∈ batch, (MultiHostDeploy.mergeProgress runtime batch results).progressOf e.host =
      progress e) ∧
    ∀ host, host ∉ batch.map HostEntry.host →
      (MultiHostDeploy.mergeProgress runtime batch results).progressOf host =
        runtime.progressOf host := by
  have hzip : (batch.zip results).map (fun e => (e.1.host, e.2.2)) =
      batch.map fun e => (e.host, progress e) := by
    clear hdistinct
    induction hresults with
    | nil => rfl
    | cons hv _ ih => simp [hv, ih]
  have hkeys : ((batch.map fun e => (e.host, progress e)).map Prod.fst).Nodup := by
    simpa [Function.comp_def] using hdistinct
  have hlookup : ∀ host, (MultiHostDeploy.mergeProgress runtime batch results).progress.lookup
      host = ((batch.map fun e => (e.host, progress e)).lookup host).or
        (runtime.progress.lookup host) := by
    intro host
    rw [← Data.lookup_foldl_insertEntry hkeys, ← hzip, List.foldl_map]
    rfl
  refine ⟨fun e he => ?_, fun host hhost => ?_⟩
  · rw [RolloutRuntime.progressOf, hlookup, Data.lookup_map_entry hdistinct he]
    rfl
  · have hnone : (batch.map fun e => (e.host, progress e)).lookup host = none :=
      Data.lookup_eq_none_of_not_mem (by simpa [Function.comp_def] using hhost)
    rw [RolloutRuntime.progressOf, hlookup, hnone]
    rfl

/-- When every host has staged its artifact, it is found under the host. -/
theorem lookup_stagedEntries {batch : List HostEntry}
    {results : List (Except String (HostId × StagedArtifact))}
    {artifact : HostEntry → StagedArtifact}
    (hdistinct : (batch.map HostEntry.host).Nodup)
    (hresults : List.Forall₂ (fun e v => v = .ok (e.host, artifact e)) batch results)
    {e : HostEntry} (he : e ∈ batch) :
    (MultiHostDeploy.stagedEntries results).lookup e.host = some (artifact e) := by
  have hentries : results.filterMap Except.toOption =
      batch.map fun e => (e.host, artifact e) := by
    clear hdistinct he
    induction hresults with
    | nil => rfl
    | cons hv _ ih => simp [hv, ih, Except.toOption]
  have hkeys : ((batch.map fun e => (e.host, artifact e)).map Prod.fst).Nodup := by
    simpa [Function.comp_def] using hdistinct
  rw [MultiHostDeploy.stagedEntries, hentries, Data.lookup_foldl_insertEntry hkeys,
    Data.lookup_map_entry hdistinct he]
  rfl

/-! ## Assertions -/

/-- A request to roll the database back, whether it succeeded or not. -/
def DbEvent.isDown : DbEvent → Bool
  | .downgraded _ => true
  | .failed (.downTo _) _ => true
  | _ => false

/-- A request to migrate the database, whether it succeeded or not. -/
def DbEvent.isUp : DbEvent → Bool
  | .upgraded _ _ => true
  | .failed (.up _) _ => true
  | _ => false

namespace Launch

variable (L : Launch)

/-- The rollback reaches the migration although an activated host of the failing batch
could not be restored. -/
def Exposed : Prop :=
  L.Stranded (fun e => 2 ≤ L.stage e) ∧ L.plan.ownsDatabase = true ∧
    L.start.db.revision.isSome = true

/-- The rollback succeeds although a host of the failing batch could not be restored. -/
def Masked : Prop :=
  L.Stranded (fun _ => True) ∧ (L.plan.ownsDatabase = true →
    L.start.db.revision.isSome = true ∧ L.oracle.db.fault 2 = none)

/-- Every host that was activated is fully restored. -/
def Restored (t : Fleet) : Prop :=
  ∀ e ∈ L.plan.inventory, FullyRestored (L.priorArtifact e) (t.hosts e.host).log

/-- The order of a rollback: hosts are not called once the rollback of the database was
asked for, and it is asked for when all hosts are restored. -/
def Order : Guarantee FleetSig Fleet
  | t, .host _ _, _ => ∀ event ∈ t.db.log, DbEvent.isDown event = false
  | t, .db (.downTo _), _ => ¬ L.Exposed → L.Restored t
  | _, _, _ => True

/-- The rollback of the database was asked for and the hosts are not all restored. -/
def Violated (t : Fleet) : Prop :=
  (∃ event ∈ t.db.log, DbEvent.isDown event = true) ∧ ¬ L.Restored t

/-- What `up` reports and leaves. -/
def upgrade : MigrationOutcome × Option Revision :=
  L.oracle.db.up 1 L.plan.target L.start.db.revision

/-- The database after the migration. -/
def migrated : Database :=
  ⟨L.upgrade.2, [.read L.start.db.revision, .upgraded L.plan.target L.upgrade.1]⟩

/-- The revision recorded after the migration. -/
def newRevision : Option Revision :=
  L.upgrade.1.toRevision.or L.start.db.revision

/-- The rollout with the hosts `done` advanced and the hosts `waiting` not. -/
structure Rolling (done waiting : List HostEntry) (r : RolloutRuntime) (t : Fleet) : Prop where
  reached : L.RolloutReached
  stage : ∀ e ∈ done, L.stage e = 5
  pending : ∀ e ∈ done, L.Pending e (t.hosts e.host)
  calls : ∀ e ∈ done, (t.hosts e.host).log.length = 7
  progress : ∀ e ∈ done, r.progressOf e.host = progressAt (L.cell e).membership 5
  waiting : ∀ e ∈ waiting, Untouched (L.cell e) 2 (t.hosts e.host)
  staged : ∀ e ∈ L.plan.inventory, r.staged.lookup e.host = some (L.artifact e)
  previous : r.previousRevision = L.start.db.revision
  next : r.newRevision = L.newRevision
  recoverable : r.unrecoverable = none
  db : t.db = L.migrated

/-- The rollback after a failure with the hosts `done` still to be restored. -/
structure Undoing (f : Failure) (done : List HostEntry) (r : RolloutRuntime) (t : Fleet) :
    Prop where
  failed : L.FailedAt f
  earlier : ∀ e ∈ done, e ∈ f.earlier
  back : ∀ e ∈ L.plan.inventory, e ∉ done → ¬ L.Stuck f e → L.Back e (t.hosts e.host)
  dangling : ∀ e, L.Stuck f e → L.Dangling e (t.hosts e.host)
  later : ∀ e ∈ f.later, ∀ event ∈ (t.hosts e.host).log, HostEvent.Quiet event
  pending : ∀ e ∈ done, L.Pending e (t.hosts e.host)
  progress : ∀ e ∈ done, r.progressOf e.host = progressAt (L.cell e).membership 5
  calls : f.own ≠ [] → ∀ e ∈ done, (t.hosts e.host).log.length = 7
  restores : f.own ≠ [] → ∀ e ∈ f.earlier, e ∉ done → L.Restores e
  unrecoverable : r.unrecoverable.isSome = true ↔ ∃ e, L.Stuck f e

/-- The rollback with the migration still to be undone. -/
def Owing (done : List HostEntry) (failed : String) (r : RolloutRuntime) (t : Fleet) : Prop :=
  ∃ f : Failure, f.step = failed ∧ L.Undoing f done r t ∧
    r.previousRevision = L.start.db.revision ∧
    ∃ tail, t.db.log = L.migrated.log ++ tail ∧ (f.own ≠ [] → tail = []) ∧
      ∀ event ∈ tail, DbEvent.isUp event = false ∧ DbEvent.isDown event = false

/-- The rollback that is over. -/
structure Settled (failed : String) (r : RolloutRuntime) (t : Fleet) : Prop where
  undone : ∃ f : Failure, f.step = failed ∧ L.Undoing f [] r t
  revision : L.plan.ownsDatabase = true → t.db.revision = L.start.db.revision
  once : (t.db.log.filter DbEvent.isUp).length ≤ 1
  masked : L.Masked ↔ r.unrecoverable.isSome = true
  exposed : L.Exposed → L.Violated t

/-- The rollback that a compensation stopped. -/
def Halted (_ : RolloutRuntime) (t : Fleet) : Prop :=
  ¬ L.Masked ∧ (L.Exposed → L.Violated t)

/-- The deploy that has advanced and verified every host. -/
structure Deployed (r : RolloutRuntime) (t : Fleet) : Prop where
  stage : ∀ e ∈ L.plan.inventory, L.stage e = 5
  reached : L.RolloutReached
  pending : ∀ e ∈ L.plan.inventory, L.Pending e (t.hosts e.host)
  staged : ∀ e ∈ L.plan.inventory, r.staged.lookup e.host = some (L.artifact e)
  next : r.newRevision = L.newRevision
  recoverable : r.unrecoverable = none
  revision : t.db.revision = L.migrated.revision

variable {L}

/-- Nothing is stranded by a failure before or after the rollout, nor when an earlier
host cannot be restored. -/
theorem halted_of_not_stranded {r : RolloutRuntime} {t : Fleet} (h : ∀ P, ¬ L.Stranded P) :
    L.Halted r t :=
  ⟨fun hmasked => h _ hmasked.1, fun hexposed => absurd hexposed.1 (h _)⟩

/-- A failure before the rollout leaves nothing to undo. -/
theorem settled_early {step : String} (hstep : step ∈ ["preflight", "fetch", "migrate"])
    (hreached : ¬ L.RolloutReached) {r : RolloutRuntime} {t : Fleet} {n : Nat}
    (huntouched : ∀ e ∈ L.plan.inventory, Untouched (L.cell e) n (t.hosts e.host))
    (hrecoverable : r.unrecoverable = none) (hrevision : t.db.revision = L.start.db.revision)
    (honce : (t.db.log.filter DbEvent.isUp).length ≤ 1) : L.Settled step r t := by
  have hnone : ∀ P, ¬ L.Stranded P := fun _ h => hreached h.1
  refine ⟨⟨_, rfl, .early hstep hreached, ?_, ?_, ?_, ?_, ?_, ?_, ?_, ?_, ?_⟩, fun _ => hrevision,
    honce, iff_of_false (fun h => hnone _ h.1) (by simp [hrecoverable]),
    fun h => absurd h.1 (hnone _)⟩
  · simp
  · exact fun e he _ _ => (huntouched e he).back
  · rintro e ⟨he, -⟩
    cases he
  · exact fun e he => (huntouched e he).quiet
  · simp
  · simp
  · simp
  · simp
  · simp [hrecoverable, Stuck]

/-! ## Tasks on hosts -/

/-- Tasks on distinct hosts run as each would alone, and touch nothing else. -/
theorem wp_hosts {α : Type} {batch : List HostEntry}
    (hdistinct : (batch.map HostEntry.host).Nodup) {task : HostEntry → Prog FleetSig α}
    {Q : HostEntry → α → HostCell → Prop} {t : Fleet}
    (hdb : ∀ event ∈ t.db.log, DbEvent.isDown event = false)
    (htasks : ∀ e ∈ batch, hostWp L.oracle (batch.map HostEntry.host) e.host (task e) (Q e)
      (t.hosts e.host)) :
    wp (fleet L.oracle) Eq L.Order (Prog.joinAll (batch.map task)) (fun as t' =>
      List.Forall₂ (fun e a => Q e a (t'.hosts e.host)) batch as ∧ t'.db = t.db ∧
        ∀ host, host ∉ batch.map HostEntry.host → t'.hosts host = t.hosts host) t := by
  have hjoin := hostsOf.wp_joinAll_local hdistinct htasks
  have hkeep := wp_keep (I := fun s => s.db = t.db) ?_ rfl hjoin
  · refine wp_mono ?_ ?_ hkeep
    · rintro s c s' ⟨hs, host, call, rfl⟩
      intro event hevent
      exact hdb event (hs ▸ hevent)
    · rintro as t' ⟨hs, hresults, hout⟩
      exact ⟨hresults, hs, hout.2⟩
  · rintro s c ⟨host, call, rfl⟩ hs
    exact hs

/-- Probing a host is a look at it. -/
theorem probeHost_spec {hosts : List HostId} {e : HostEntry} (hhost : e.host ∈ hosts)
    {c cell : HostCell} {n : Nat} (hcell : Untouched c n cell) :
    hostWp L.oracle hosts e.host (L.plan.deploy.probeHost e) (fun v cell' =>
      (errorOf v = none ↔ (L.host e).fault n = none) ∧ Untouched c (n + 1) cell') cell := by
  refine hostWp_bind (hostWp_onHost hhost ?_)
  cases hfault : (L.host e).fault n with
  | some error =>
      simp only [hostStep, hcell.calls, show (L.oracle.host e.host).fault n = _ from hfault]
      exact hostWp_ret ⟨by simp [errorOf], hcell.record trivial⟩
  | none =>
      simp only [hostStep, hostEffect, hcell.calls,
        show (L.oracle.host e.host).fault n = _ from hfault]
      exact hostWp_ret ⟨by simp [errorOf], hcell.record trivial⟩

/-- Staging is a look at a host: it prepares an artifact and activates nothing. -/
theorem stageHost_spec {hosts : List HostId} {e : HostEntry} (hhost : e.host ∈ hosts)
    {c cell : HostCell} {n : Nat} (hcell : Untouched c n cell) :
    hostWp L.oracle hosts e.host (L.plan.deploy.stageHost e) (fun v cell' =>
      (errorOf v = none ↔ (L.host e).fault n = none) ∧
      (errorOf v = none → v = .ok (e.host, (L.host e).staged n)) ∧
      Untouched c (n + 1) cell') cell := by
  refine hostWp_bind (hostWp_onHost hhost ?_)
  cases hfault : (L.host e).fault n with
  | some error =>
      simp only [hostStep, hcell.calls, show (L.oracle.host e.host).fault n = _ from hfault]
      exact hostWp_ret ⟨by simp [errorOf], by simp [errorOf], hcell.record trivial⟩
  | none =>
      simp only [hostStep, hostEffect, hcell.calls,
        show (L.oracle.host e.host).fault n = _ from hfault]
      exact hostWp_ret ⟨by simp [errorOf], fun _ => rfl, hcell.record trivial⟩

/-- Verifying a host adds to its log and changes nothing else. -/
theorem verifyHost_spec {hosts : List HostId} {e : HostEntry} (hhost : e.host ∈ hosts)
    {cell : HostCell} :
    hostWp L.oracle hosts e.host (L.plan.deploy.verifyHost e)
      (fun _ cell' => ∃ event, cell' = cell.record event) cell := by
  refine hostWp_bind (hostWp_onHost hhost ?_)
  cases hfault : (L.oracle.host e.host).fault cell.log.length with
  | some error =>
      simp only [hostStep, hfault]
      exact hostWp_ret ⟨_, rfl⟩
  | none =>
      simp only [hostStep, hostEffect, hfault]
      split
      · exact hostWp_ret ⟨_, rfl⟩
      · exact hostWp_ret ⟨_, rfl⟩

/-! ## The steps before the rollout -/

/-- The deploy that has not begun. -/
def Started (L : Launch) (r : RolloutRuntime) (t : Fleet) : Prop :=
  r = .default ∧ t = L.start

/-- The deploy that has passed its preflight. -/
structure Probed (L : Launch) (r : RolloutRuntime) (t : Fleet) : Prop where
  runtime : r = .default
  checks : L.ChecksPass
  probed : ∀ e ∈ L.plan.inventory, (L.host e).fault 0 = none
  hosts : ∀ e ∈ L.plan.inventory, Untouched (L.cell e) 1 (t.hosts e.host)
  db : t.db = L.start.db

/-- The deploy that has staged its artifacts. -/
structure Fetched (L : Launch) (r : RolloutRuntime) (t : Fleet) : Prop where
  recoverable : r.unrecoverable = none
  artifacts : ∀ e ∈ L.plan.inventory, r.staged.lookup e.host = some (L.artifact e)
  checks : L.ChecksPass
  probed : ∀ e ∈ L.plan.inventory, (L.host e).fault 0 = none
  staged : ∀ e ∈ L.plan.inventory, (L.host e).fault 1 = none
  hosts : ∀ e ∈ L.plan.inventory, Untouched (L.cell e) 2 (t.hosts e.host)
  db : t.db = L.start.db

/-- The database has not been asked for anything. -/
theorem not_isDown_of_fresh {t : Fleet} (h : t.db = L.start.db) :
    ∀ event ∈ t.db.log, DbEvent.isDown event = false := by
  simp [h, L.freshDb]

theorem not_isUp_of_fresh {t : Fleet} (h : t.db = L.start.db) :
    (t.db.log.filter DbEvent.isUp).length ≤ 1 := by
  simp [h, L.freshDb]

theorem preflight_forward {ctx : StepContext} {r : RolloutRuntime} {t : Fleet}
    (h : L.Started r t) :
    wp (fleet L.oracle) Eq L.Order (L.plan.deploy.preflightStep.forward ctx r)
      (StepPost L.Probed (L.Settled L.plan.deploy.preflightStep.name)) t := by
  obtain ⟨rfl, rfl⟩ := h
  have hchecks := L.plan.runDatabaseChecks_sequential.wp (h := fleet L.oracle) (G := L.Order)
    (I := fun t => t.hosts = L.start.hosts ∧ t.db = L.start.db)
    (by rintro c t ⟨q, rfl⟩ ht; exact ⟨trivial, ht⟩) ⟨rfl, rfl⟩
  refine wp_bind (wp_bind (wp_post ?_ hchecks))
  rintro (error | _) t ⟨hvalue, -, hhosts, hdb⟩
  · refine wp_ret.mpr (wp_ret.mpr (settled_early (.head _) ?_ (n := 0) ?_ rfl ?_ ?_))
    · intro hreached
      have hpass : _ = Except.ok () := hreached.checks
      rw [← hvalue] at hpass
      cases hpass
    · intro e _
      rw [hhosts]
      exact untouched_start e
    · rw [hdb]
    · exact not_isUp_of_fresh hdb
  · have hprobe : ∀ e ∈ L.plan.inventory, Untouched (L.cell e) 0 (t.hosts e.host) := by
      intro e _
      rw [hhosts]
      exact untouched_start e
    refine wp_bind (wp_post ?_ (wp_hosts L.plan.distinct (not_isDown_of_fresh hdb)
      fun e he => probeHost_spec (List.mem_map_of_mem he) (hprobe e he)))
    rintro results t' ⟨hresults, hdb', -⟩
    have hok : (∀ e ∈ L.plan.inventory, (L.host e).fault 0 = none) ↔
        ∀ v ∈ results, errorOf v = none := forall₂_iff hresults fun e v h => h.1.symm
    have hcells : ∀ e ∈ L.plan.inventory, Untouched (L.cell e) 1 (t'.hosts e.host) := by
      intro e he
      obtain ⟨v, -, hv⟩ := exists_of_forall₂ hresults he
      exact hv.2
    refine wp_ret.mpr (wp_ret.mpr ?_)
    cases hfailures : failures "preflight"
        (fun n hosts => s!"{n} host(s) unreachable: {hosts}") results with
    | error error =>
        refine settled_early (.head _) (fun hreached => ?_) hcells rfl (by rw [hdb', hdb])
          (not_isUp_of_fresh (hdb'.trans hdb))
        rw [failures_eq_ok.mpr (hok.mp hreached.probed)] at hfailures
        cases hfailures
    | ok _ => exact ⟨rfl, hvalue.symm, hok.mpr (failures_eq_ok.mp hfailures), hcells,
        hdb'.trans hdb⟩

theorem fetch_forward {ctx : StepContext} {r : RolloutRuntime} {t : Fleet} (h : L.Probed r t) :
    wp (fleet L.oracle) Eq L.Order (L.plan.deploy.fetchStep.forward ctx r)
      (StepPost L.Fetched (L.Settled L.plan.deploy.fetchStep.name)) t := by
  obtain ⟨rfl, hchecks, hprobed, hhosts, hdb⟩ := h
  refine wp_bind (wp_post ?_ (wp_hosts L.plan.distinct (not_isDown_of_fresh hdb)
    fun e he => stageHost_spec (List.mem_map_of_mem he) (hhosts e he)))
  rintro results t' ⟨hresults, hdb', -⟩
  have hok : (∀ e ∈ L.plan.inventory, (L.host e).fault 1 = none) ↔
      ∀ v ∈ results, errorOf v = none := forall₂_iff hresults fun e v h => h.1.symm
  have hcells : ∀ e ∈ L.plan.inventory, Untouched (L.cell e) 2 (t'.hosts e.host) := by
    intro e he
    obtain ⟨v, -, hv⟩ := exists_of_forall₂ hresults he
    exact hv.2.2
  cases hfailures : failures "fetch"
      (fun n hosts => s!"{n} host(s) failed to stage: {hosts}") results with
  | error error =>
      refine wp_ret.mpr (settled_early (.tail _ (.head _)) (fun hreached => ?_) hcells rfl
        (by rw [hdb', hdb]) (not_isUp_of_fresh (hdb'.trans hdb)))
      rw [failures_eq_ok.mpr (hok.mp hreached.staged)] at hfailures
      cases hfailures
  | ok _ =>
      have hstaged := hok.mpr (failures_eq_ok.mp hfailures)
      have hartifacts : List.Forall₂ (fun e v => v = .ok (e.host, L.artifact e))
          L.plan.inventory results := by
        refine ((List.forall₂_and_left _ _).mpr ⟨hstaged, hresults⟩).imp ?_
        rintro e v ⟨hfault, hiff, hvalue, -⟩
        exact hvalue (hiff.mpr hfault)
      exact wp_ret.mpr ⟨rfl, fun e he => lookup_stagedEntries L.plan.distinct hartifacts he,
        hchecks, hprobed, hstaged, hcells, hdb'.trans hdb⟩

theorem migrate_forward {ctx : StepContext} {r : RolloutRuntime} {t : Fleet} (h : L.Fetched r t) :
    wp (fleet L.oracle) Eq L.Order (L.plan.deploy.migrateStep.forward ctx r)
      (StepPost (L.Rolling [] L.plan.inventory) (L.Settled L.plan.deploy.migrateStep.name)) t := by
  have hstep : L.plan.deploy.migrateStep.name ∈ ["preflight", "fetch", "migrate"] :=
    .tail _ (.tail _ (.head _))
  have hread : t.db.log.length = 0 := by simp [h.db, L.freshDb]
  refine wp_bind (wp_perform.mpr ⟨trivial, ?_⟩)
  cases hcurrent : L.oracle.db.fault 0 with
  | some error =>
      simp only [fleet, dbStep, hread, hcurrent]
      refine wp_ret.mpr (settled_early hstep (fun hreached => ?_) h.hosts h.recoverable ?_ ?_)
      · have hnone := hreached.read
        simp [hcurrent] at hnone
      · simp [Database.record, h.db]
      · simp [Database.record, h.db, L.freshDb, DbEvent.isUp]
  | none =>
      simp only [fleet, dbStep, dbEffect, hread, hcurrent]
      refine wp_bind (wp_perform.mpr ⟨trivial, ?_⟩)
      have hup : (t.db.record (.read t.db.revision)).log.length = 1 := by
        simp [Database.record, h.db, L.freshDb]
      cases hfault : L.oracle.db.fault 1 with
      | some error =>
          simp only [fleet, dbStep, hup, hfault]
          refine wp_ret.mpr (settled_early hstep (fun hreached => ?_) h.hosts h.recoverable ?_ ?_)
          · have hnone := hreached.migrated
            simp [hfault] at hnone
          · simp [Database.record, h.db]
          · simp [Database.record, h.db, L.freshDb, DbEvent.isUp, List.filter_cons]
      | none =>
          simp only [fleet, dbStep, dbEffect, hup, hfault]
          refine wp_ret.mpr ⟨⟨h.checks, h.probed, h.staged, hcurrent, hfault⟩, by simp, by simp,
            by simp, by simp, h.hosts, h.artifacts, ?_, ?_, h.recoverable, ?_⟩
          · simp [h.db]
          · simp [h.db, Database.record, newRevision, upgrade, FleetPlan.deploy]
          · simp [h.db, Database.record, L.freshDb, migrated, upgrade, FleetPlan.deploy]

end Launch

end Fraisier.Core
