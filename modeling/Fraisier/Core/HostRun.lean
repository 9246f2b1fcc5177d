import Fraisier.Core.Fleet
import Fraisier.Core.SingleHost
import Fraisier.Core.Rollout
import Fraisier.Saga.Rule

/-!
# Runs of the single-host deploy

A single-host deploy over the fleet's world. The migration adapter acts on the live
database unless its context resolves the database's address in process, which only a
rehearsal does. `HostLaunch.compensable` takes the seven steps forwards and backwards.
-/

namespace Fraisier.Core

open Fraisier.Effect Fraisier.Saga

/-- The configuration of a deploy to one host. The address of the database comes from the
environment. -/
structure HostPlan where
  fraise : String
  environment : String
  host : HostId
  ctx : AdapterCtx
  unresolved : ctx.resolvedSecrets.lookup databaseUrlSecret = none
  target : Option Revision
  rollbackTo : Option Revision
  forwardCompatibleLint : Bool
  policy : Option Policy
  approvalHook : Bool
  restoreRehearsal : Bool
  backupSource : BackupSource
  databaseReadiness : Bool
  ownsDatabase : Bool

/-- The migration adapter of a world: `up` goes where its context points. -/
def worldMigration (ownsDatabase : Bool) : MigrationAdapter FleetSig where
  describe := ask .describe
  currentRevision _ := onDb .currentRevision
  up ctx target :=
    match ctx.resolvedSecrets.lookup databaseUrlSecret with
    | some dsn => ask (.rehearse dsn target)
    | none => onDb (.up target)
  downTo _ target := onDb (.downTo target)
  verify _ := onDb .verify
  preflight _ := ask .preflight
  ownsDatabase := ownsDatabase

theorem worldMigration_up {ownsDatabase : Bool} {ctx : AdapterCtx} {target : Option Revision}
    (hctx : ctx.resolvedSecrets.lookup databaseUrlSecret = none) :
    (worldMigration ownsDatabase).up ctx target = onDb (.up target) := by
  show (match ctx.resolvedSecrets.lookup databaseUrlSecret with
    | some dsn => _ | none => _) = _
  rw [hctx]

/-- The deploy a plan configures, with every adapter acting on the world. -/
def HostPlan.deploy (plan : HostPlan) : SingleHostDeploy FleetSig where
  fraise := plan.fraise
  environment := plan.environment
  host := plan.host
  ctx := plan.ctx
  target := plan.target
  rollbackTo := plan.rollbackTo
  forwardCompatibleLint := plan.forwardCompatibleLint
  policy := ⟨plan.policy, if plan.approvalHook then some fun r => ask (.approve r) else none⟩
  restoreRehearsal :=
    if plan.restoreRehearsal then
      some ⟨fun dsn backup => ask (.provision dsn backup), fun db => ask (.teardown db)⟩
    else none
  backupSource := plan.backupSource
  databaseReadiness :=
    if plan.databaseReadiness then some ⟨fun dsn => ask (.unready dsn)⟩ else none
  os := ⟨fun name => ask (.var name), fun path => ask (.isDir path)⟩
  artifact := ⟨fun _ host => onHost host .stage, fun _ host a => onHost host (.activate a)⟩
  migration := worldMigration plan.ownsDatabase
  service := ⟨fun _ host => onHost host .restart, fun _ host => onHost host .status⟩
  health := ⟨fun _ host => onHost host .check⟩

/-- The preflight of a plan only asks questions. -/
theorem HostPlan.preflightCalls (plan : HostPlan) :
    plan.deploy.PreflightCalls (fun c => ∃ q, c = FleetCall.query q) where
  var name := .perform ⟨_, rfl⟩
  ready probe hprobe dsn := by
    simp only [deploy] at hprobe
    split at hprobe
    · cases hprobe
      exact .perform ⟨_, rfl⟩
    · cases hprobe
  describe := .perform ⟨_, rfl⟩
  preflight ctx := .perform ⟨_, rfl⟩
  hook hook hhook request := by
    simp only [deploy] at hhook
    split at hhook
    · cases hhook
      exact .perform ⟨_, rfl⟩
    · cases hhook
  provision db hdb dsn backup := by
    simp only [deploy] at hdb
    split at hdb
    · cases hdb
      exact .perform ⟨_, rfl⟩
    · cases hdb
  teardown db hdb throwaway := by
    simp only [deploy] at hdb
    split at hdb
    · cases hdb
      exact .perform ⟨_, rfl⟩
    · cases hdb
  rehearse throwaway := by
    simp only [deploy, worldMigration, lookup_onThrowaway]
    exact .perform ⟨_, rfl⟩

/-! ## Assertions -/

/-- A plan, the answers of the world, the record to roll back to and the world as the
deploy finds it. -/
structure HostLaunch where
  plan : HostPlan
  oracle : FleetOracle
  prior : DeployRecord
  start : Fleet

/-- The database was moved. -/
def DbEvent.IsMove : DbEvent → Prop
  | .upgraded _ _ => True
  | .downgraded _ => True
  | _ => False

/-- What a deliberate rollback relies on when it moves the database up again: `up` with a
target leaves the database at it. -/
def DbOracle.UpReaches (o : DbOracle) : Prop :=
  ∀ n target current, (o.up n (some target) current).2 = some target

namespace HostLaunch

variable (L : HostLaunch)

/-- The host as the deploy finds it. -/
def cell : HostCell :=
  L.start.hosts L.plan.host

/-- The host of a world. -/
def cellOf (t : Fleet) : HostCell :=
  t.hosts L.plan.host

/-- The ledger names the artifact the host is on. -/
def Matching : Prop :=
  L.cell.active = L.prior.active ∧ L.cell.running = L.prior.active

/-- What the run did to a host, when the host was not switched. -/
structure HostIdle (tail : List HostEvent) (cell : HostCell) : Prop where
  active : cell.active = L.cell.active
  running : cell.running = L.cell.running
  log : cell.log = L.cell.log ++ tail
  inactive : Inactive tail

/-- The host was switched to an artifact the run had staged. -/
structure HostSwitched (artifact : StagedArtifact) (cell : HostCell) : Prop where
  active : cell.active = some artifact
  log : ∃ before after, cell.log = L.cell.log ++ (before ++ .activated artifact :: after) ∧
    Inactive before ∧ HostEvent.staged artifact ∈ before

/-- If the host was switched, it was switched back and restarted. -/
def SwitchedBack (tail : List HostEvent) : Prop :=
  ∀ before after, splitActivation tail = some (before, after) →
    ∃ artifact, L.prior.active = some artifact ∧
      [.activated artifact, .restarted].Sublist after

/-- The host is on the artifact of the ledger. -/
structure HostBack (cell : HostCell) : Prop where
  active : cell.active = L.prior.active
  running : cell.running = L.prior.active
  log : ∃ tail, cell.log = L.cell.log ++ tail ∧ L.SwitchedBack tail

/-- If the database was moved, it was moved back: down after a forward deploy, and up
after a deliberate rollback. -/
def BroughtBack (tail : List DbEvent) : Prop :=
  (∃ event ∈ tail, event.IsMove) → ∃ previous, L.start.db.revision = some previous ∧
    if L.plan.rollbackTo.isSome then ∃ outcome, .upgraded (some previous) outcome ∈ tail
    else .downgraded previous ∈ tail

/-- The database is at the revision it was at. -/
structure DbBack (db : Database) : Prop where
  revision : db.revision = L.start.db.revision
  log : ∃ tail, db.log = L.start.db.log ++ tail ∧ L.BroughtBack tail

/-- The revision a run records and the one it leaves live: the target of a deliberate
rollback, or what `up` reported, else the revision before it, and what `up` left. -/
def Recorded (revision live : Option Revision) (tail : List DbEvent) : Prop :=
  match L.plan.rollbackTo with
  | some target => revision = some target ∧ live = some target
  | none => ∃ n, let done := L.oracle.db.up n L.plan.target L.start.db.revision
      .upgraded L.plan.target done.1 ∈ tail ∧
        revision = done.1.toRevision.or L.start.db.revision ∧ live = done.2

/-- The database was moved. -/
structure DbMoved (r : DeployRuntime) (db : Database) : Prop where
  previous : r.previousRevision = L.start.db.revision
  log : ∃ tail, db.log = L.start.db.log ++ tail ∧ L.Recorded r.newRevision db.revision tail

/-- The world as the deploy found it, but for the questions asked. -/
def Unchanged (t : Fleet) : Prop :=
  t.hosts = L.start.hosts ∧ t.db = L.start.db

/-- The deploy that has staged its artifact. -/
def Fetched (r : DeployRuntime) (t : Fleet) : Prop :=
  t.db = L.start.db ∧ ∃ artifact tail, r.staged = some artifact ∧
    HostEvent.staged artifact ∈ tail ∧ L.HostIdle tail (L.cellOf t)

/-- The deploy that has migrated. -/
def Migrated (r : DeployRuntime) (t : Fleet) : Prop :=
  L.DbMoved r t.db ∧ ∃ artifact tail, r.staged = some artifact ∧
    HostEvent.staged artifact ∈ tail ∧ L.HostIdle tail (L.cellOf t)

/-- The deploy that has switched its host. -/
def Switched (r : DeployRuntime) (t : Fleet) : Prop :=
  L.DbMoved r t.db ∧ ∃ artifact, r.staged = some artifact ∧ L.HostSwitched artifact (L.cellOf t)

/-- The deploy that has restarted its host. -/
def Released (r : DeployRuntime) (t : Fleet) : Prop :=
  L.DbMoved r t.db ∧ ∃ artifact, r.staged = some artifact ∧
    L.HostSwitched artifact (L.cellOf t) ∧ (L.cellOf t).running = some artifact

/-- The rollback with the host back and the database still to be moved back. -/
def Owing (_ : String) (r : DeployRuntime) (t : Fleet) : Prop :=
  L.DbMoved r t.db ∧ L.HostBack (L.cellOf t)

/-- The rollback with the host still to be switched back. -/
def Stranded (_ : String) (r : DeployRuntime) (t : Fleet) : Prop :=
  L.DbMoved r t.db ∧ ∃ artifact, L.HostSwitched artifact (L.cellOf t)

/-- The rollback that is over. -/
def Settled (_ : String) (_ : DeployRuntime) (t : Fleet) : Prop :=
  L.DbBack t.db ∧ L.HostBack (L.cellOf t)

variable {L}

theorem HostIdle.back {tail : List HostEvent} {cell : HostCell} (h : L.HostIdle tail cell)
    (hmatching : L.Matching) : L.HostBack cell where
  active := h.active.trans hmatching.1
  running := h.running.trans hmatching.2
  log := by
    refine ⟨tail, h.log, fun before after hsplit => ?_⟩
    rw [splitActivation_of_inactive h.inactive] at hsplit
    cases hsplit

/-- A look at the host. -/
theorem HostIdle.record {tail : List HostEvent} {cell : HostCell} (h : L.HostIdle tail cell)
    {event : HostEvent} (hevent : Inactive [event]) :
    L.HostIdle (tail ++ [event]) (cell.record event) where
  active := h.active
  running := h.running
  log := by simp [HostCell.record, h.log]
  inactive := inactive_append h.inactive hevent

theorem HostSwitched.record {artifact : StagedArtifact} {cell : HostCell}
    (h : L.HostSwitched artifact cell) (event : HostEvent) :
    L.HostSwitched artifact (cell.record event) where
  active := h.active
  log := by
    obtain ⟨before, after, hlog, hinactive, hstaged⟩ := h.log
    exact ⟨before, after ++ [event], by simp [HostCell.record, hlog], hinactive, hstaged⟩

theorem idle_start : L.HostIdle [] L.cell where
  active := rfl
  running := rfl
  log := by simp
  inactive := by simp [Inactive]

/-- A database that was only looked at is where it was. -/
theorem dbBack_of_still {db : Database} (tail : List DbEvent)
    (hrevision : db.revision = L.start.db.revision) (hlog : db.log = L.start.db.log ++ tail)
    (htail : ∀ event ∈ tail, ¬ DbEvent.IsMove event) : L.DbBack db := by
  refine ⟨hrevision, tail, hlog, ?_⟩
  rintro ⟨event, hevent, hmove⟩
  exact absurd hmove (htail event hevent)

theorem dbBack_start : L.DbBack L.start.db :=
  dbBack_of_still [] rfl (List.append_nil _).symm (by simp)

/-- A look at a database that was moved. -/
theorem DbMoved.record {r : DeployRuntime} {db : Database} (h : L.DbMoved r db)
    (event : DbEvent) : L.DbMoved r (db.record event) where
  previous := h.previous
  log := by
    obtain ⟨tail, hlog, hrecorded⟩ := h.log
    refine ⟨tail ++ [event], by simp [Database.record, hlog], ?_⟩
    unfold Recorded at hrecorded ⊢
    split at hrecorded
    · exact hrecorded
    · obtain ⟨n, hmem, hrevision⟩ := hrecorded
      exact ⟨n, List.mem_append_left _ hmem, hrevision⟩

/-! ## The steps -/

@[simp] theorem cellOf_setHost (t : Fleet) (cell : HostCell) :
    L.cellOf (t.setHost L.plan.deploy.host cell) = cell := by
  simp [cellOf, Fleet.setHost, HostPlan.deploy]

section Steps

variable {r : DeployRuntime} {t : Fleet}

theorem preflight_forward (hmatching : L.Matching) (h : r = .default ∧ L.Unchanged t) :
    wp (fleet L.oracle) Eq Guarantee.any (L.plan.deploy.forward .preflight r)
      (StepPost (fun _ => L.Unchanged) (L.Settled "preflight")) t := by
  have hpreflight := (SingleHostDeploy.runPreflight_sequential L.plan.preflightCalls r).wp
    (h := fleet L.oracle) (G := Guarantee.any) (I := L.Unchanged)
    (by rintro c t ⟨q, rfl⟩ ht; exact ⟨trivial, ht⟩) h.2
  refine wp_post ?_ hpreflight
  rintro ⟨_ | _, r'⟩ t' ⟨-, -, hhosts, hdb⟩
  · refine ⟨?_, ?_⟩
    · rw [hdb]
      exact dbBack_start
    · rw [cellOf, hhosts]
      exact idle_start.back hmatching
  · exact ⟨hhosts, hdb⟩

theorem fetch_forward (hmatching : L.Matching) (h : L.Unchanged t) :
    wp (fleet L.oracle) Eq Guarantee.any (L.plan.deploy.forward .fetch r)
      (StepPost L.Fetched (L.Settled "fetch")) t := by
  obtain ⟨hhosts, hdb⟩ := h
  have hidle : L.HostIdle [] (t.hosts L.plan.host) := by
    rw [hhosts]
    exact idle_start
  refine wp_bind (wp_onHost ?_ ?_)
  · intro error
    refine wp_ret.mpr ⟨hdb ▸ dbBack_start, ?_⟩
    rw [cellOf_setHost]
    exact (hidle.record (by simp [Inactive])).back hmatching
  · intro n
    refine wp_ret.mpr ⟨hdb, _, _, rfl, List.mem_append_right [] (List.mem_singleton.mpr rfl), ?_⟩
    rw [cellOf_setHost]
    exact hidle.record (by simp [Inactive])

/-- The context of the migration does not redirect the database. -/
theorem migrationCtx_spec {Q : AdapterCtx → Fleet → Prop}
    (hQ : ∀ ctx t', ctx.resolvedSecrets.lookup databaseUrlSecret = none →
      t'.hosts = t.hosts → t'.db = t.db → Q ctx t') :
    wp (fleet L.oracle) Eq Guarantee.any (L.plan.deploy.migrationCtx r) Q t := by
  unfold SingleHostDeploy.migrationCtx
  cases r.staged with
  | none => exact wp_ret.mpr (hQ _ _ L.plan.unresolved rfl rfl)
  | some staged =>
      refine wp_bind (wp_perform.mpr ⟨trivial, ?_⟩)
      split
      · exact wp_ret.mpr (hQ _ _ L.plan.unresolved rfl rfl)
      · exact wp_ret.mpr (hQ _ _ L.plan.unresolved rfl rfl)

theorem migrate_forward (hmatching : L.Matching) (h : L.Fetched r t) :
    wp (fleet L.oracle) Eq Guarantee.any (L.plan.deploy.forward .migrate r)
      (StepPost L.Migrated (L.Settled "migrate")) t := by
  obtain ⟨hdb, artifact, tail, hstaged, hmem, hidle⟩ := h
  refine wp_bind (migrationCtx_spec fun ctx t' hctx hhosts' hdb' => ?_)
  have hidle' : L.HostIdle tail (L.cellOf t') := by
    rw [cellOf, hhosts']
    exact hidle
  have hstart : t'.db = L.start.db := hdb'.trans hdb
  refine wp_bind (wp_onDb ?_ ?_)
  · intro error
    refine wp_ret.mpr ⟨?_, hidle'.back hmatching⟩
    exact dbBack_of_still [.failed .currentRevision error] (by simp [Database.record, hstart])
      (by simp [Database.record, hstart]) (by simp [DbEvent.IsMove])
  · intro n
    have hfailed : ∀ event, ¬ DbEvent.IsMove event → L.DbBack
        ((t'.db.record (.read t'.db.revision)).record event) := by
      intro event hevent
      exact dbBack_of_still [.read L.start.db.revision, event]
        (by simp [Database.record, hstart]) (by simp [Database.record, hstart])
        (List.forall_mem_cons.mpr ⟨id, List.forall_mem_singleton.mpr hevent⟩)
    refine wp_bind ?_
    show wp _ _ _ (L.plan.deploy.moveDatabase ctx t'.db.revision) _ _
    unfold SingleHostDeploy.moveDatabase
    cases hmode : L.plan.rollbackTo with
    | some target =>
        simp only [show L.plan.deploy.rollbackTo = _ from hmode]
        refine wp_bind (wp_onDb ?_ ?_)
        · intro error
          exact wp_ret.mpr (wp_ret.mpr ⟨hfailed _ (by simp [DbEvent.IsMove]),
            hidle'.back hmatching⟩)
        · intro n
          refine wp_ret.mpr (wp_ret.mpr ⟨⟨by simp [dbEffect, hstart], ?_⟩, artifact, tail, hstaged,
            hmem, hidle'⟩)
          refine ⟨[.read L.start.db.revision, .downgraded target],
            by simp [dbEffect, Database.record, hstart], ?_⟩
          simp [Recorded, hmode, dbEffect, Database.record]
    | none =>
        simp only [show L.plan.deploy.rollbackTo = _ from hmode]
        rw [show L.plan.deploy.migration.up ctx L.plan.deploy.target =
          onDb (.up L.plan.target) from worldMigration_up hctx]
        refine wp_bind (wp_onDb ?_ ?_)
        · intro error
          exact wp_ret.mpr (wp_ret.mpr ⟨hfailed _ (by simp [DbEvent.IsMove]),
            hidle'.back hmatching⟩)
        · intro n
          refine wp_ret.mpr (wp_ret.mpr ⟨⟨by simp [dbEffect, hstart], ?_⟩, artifact, tail, hstaged,
            hmem, hidle'⟩)
          refine ⟨[.read L.start.db.revision, .upgraded L.plan.target
            (L.oracle.db.up n L.plan.target L.start.db.revision).1],
            by simp [dbEffect, Database.record, hstart], ?_⟩
          simp only [Recorded, hmode]
          exact ⟨n, by simp, by simp [dbEffect, hstart, Database.record],
            by simp [dbEffect, hstart, Database.record]⟩

theorem activate_forward (hmatching : L.Matching) (h : L.Migrated r t) :
    wp (fleet L.oracle) Eq Guarantee.any (L.plan.deploy.forward .activate r)
      (StepPost L.Switched (L.Owing "activate")) t := by
  obtain ⟨hmoved, artifact, tail, hstaged, hmem, hidle⟩ := h
  refine wp_bind ?_
  show wp _ _ _ (L.plan.deploy.runActivate r) _ _
  simp only [SingleHostDeploy.runActivate, hstaged]
  refine wp_bind (wp_onHost ?_ ?_)
  · intro error
    refine wp_ret.mpr (wp_ret.mpr ⟨hmoved, ?_⟩)
    rw [cellOf_setHost]
    exact (hidle.record (by simp [Inactive])).back hmatching
  · intro n
    refine wp_ret.mpr (wp_ret.mpr ⟨hmoved, artifact, hstaged, ?_⟩)
    rw [cellOf_setHost]
    refine ⟨rfl, tail, [], ?_, hidle.inactive, hmem⟩
    rw [← List.append_assoc, ← hidle.log]
    rfl

theorem restart_forward (h : L.Switched r t) :
    wp (fleet L.oracle) Eq Guarantee.any (L.plan.deploy.forward .restart r)
      (StepPost L.Released (L.Stranded "restart")) t := by
  obtain ⟨hmoved, artifact, hstaged, hswitched⟩ := h
  refine wp_bind (wp_bind (wp_onHost ?_ ?_))
  · intro error
    refine wp_ret.mpr (wp_ret.mpr ⟨hmoved, artifact, ?_⟩)
    rw [cellOf_setHost]
    exact hswitched.record _
  · intro n
    refine wp_ret.mpr (wp_ret.mpr ⟨hmoved, artifact, hstaged, ?_, ?_⟩)
    · rw [cellOf_setHost]
      have hrecord := hswitched.record .restarted
      exact ⟨hrecord.active, hrecord.log⟩
    · rw [cellOf_setHost]
      exact hswitched.active

theorem health_forward (h : L.Released r t) :
    wp (fleet L.oracle) Eq Guarantee.any (L.plan.deploy.forward .health r)
      (StepPost L.Released (L.Stranded "health")) t := by
  obtain ⟨hmoved, artifact, hstaged, hswitched, hrunning⟩ := h
  refine wp_bind (wp_bind (wp_onHost ?_ ?_))
  · intro error
    refine wp_ret.mpr (wp_ret.mpr ⟨hmoved, artifact, ?_⟩)
    rw [cellOf_setHost]
    exact hswitched.record _
  · intro n
    refine wp_ite (fun _ => wp_ret.mpr (wp_ret.mpr ⟨hmoved, artifact, hstaged, ?_, ?_⟩))
      fun _ => wp_ret.mpr (wp_ret.mpr ⟨hmoved, artifact, ?_⟩)
    · rw [cellOf_setHost]
      exact hswitched.record _
    · rw [cellOf_setHost]
      exact hrunning
    · rw [cellOf_setHost]
      exact hswitched.record _

theorem verify_forward (h : L.Released r t) :
    wp (fleet L.oracle) Eq Guarantee.any (L.plan.deploy.forward .verify r)
      (StepPost L.Released (L.Stranded "verify")) t := by
  obtain ⟨hmoved, artifact, hstaged, hswitched, hrunning⟩ := h
  refine wp_bind (wp_bind (wp_onDb ?_ ?_))
  · intro error
    exact wp_ret.mpr (wp_ret.mpr ⟨hmoved.record _, artifact, hswitched⟩)
  · intro n
    exact wp_ite
      (fun _ => wp_ret.mpr (wp_ret.mpr ⟨hmoved.record _, artifact, hstaged, hswitched, hrunning⟩))
      fun _ => wp_ret.mpr (wp_ret.mpr ⟨hmoved.record _, artifact, hswitched⟩)

/-- The host is switched back to the artifact of the ledger, or the rollback stops. -/
theorem activate_compensate {failed : String} (h : L.Stranded failed r t) :
    wp (fleet L.oracle) Eq Guarantee.any (L.plan.deploy.compensate L.prior .activate r)
      (StepPost (L.Owing failed) fun _ _ => True) t := by
  obtain ⟨hmoved, artifact, hswitched⟩ := h
  refine wp_bind ?_
  show wp _ _ _ (L.plan.deploy.undoActivate L.prior) _ _
  unfold SingleHostDeploy.undoActivate
  cases hprior : L.prior.active with
  | none => exact wp_ret.mpr (wp_ret.mpr trivial)
  | some previous =>
      refine wp_bind (wp_onHost ?_ ?_)
      · exact fun error => wp_ret.mpr (wp_ret.mpr trivial)
      · intro n
        refine wp_bind (wp_onHost ?_ ?_)
        · exact fun error => wp_ret.mpr (wp_ret.mpr trivial)
        · intro m
          refine wp_ret.mpr (wp_ret.mpr ⟨hmoved, ?_⟩)
          rw [cellOf_setHost]
          obtain ⟨before, after, hlog, hinactive, -⟩ := hswitched.log
          have hcell : (t.hosts L.plan.deploy.host).log =
              L.cell.log ++ (before ++ .activated artifact :: after) := hlog
          have htail : ((hostEffect (L.oracle.host L.plan.deploy.host) m .restart
              ((t.setHost L.plan.deploy.host (hostEffect (L.oracle.host L.plan.deploy.host) n
                (.activate previous) (t.hosts L.plan.deploy.host)).2).hosts
                  L.plan.deploy.host)).2).log = L.cell.log ++ (before ++ .activated artifact ::
                    (after ++ [.activated previous, .restarted])) := by
            simp [hostEffect, HostCell.record, Fleet.setHost, hcell]
          refine ⟨?_, ?_, _, htail, fun before' after' hsplit => ?_⟩
          · simp [hostEffect, HostCell.record, Fleet.setHost, hprior]
          · simp [hostEffect, HostCell.record, Fleet.setHost, hprior]
          · rw [splitActivation_append hinactive] at hsplit
            obtain ⟨rfl, rfl⟩ := Prod.mk.inj (Option.some.inj hsplit)
            exact ⟨previous, hprior, List.sublist_append_right ..⟩

/-- The database is moved back, or the rollback stops. -/
theorem migrate_compensate {failed : String} (howns : L.plan.ownsDatabase = true)
    (hreaches : L.plan.rollbackTo.isSome = true → L.oracle.db.UpReaches) (h : L.Owing failed r t) :
    wp (fleet L.oracle) Eq Guarantee.any (L.plan.deploy.compensate L.prior .migrate r)
      (StepPost (L.Settled failed) fun _ _ => True) t := by
  obtain ⟨hmoved, hback⟩ := h
  obtain ⟨tail, hlog, -⟩ := hmoved.log
  refine wp_bind ?_
  show wp _ _ _ (L.plan.deploy.undoMigrate r) _ _
  unfold SingleHostDeploy.undoMigrate
  simp only [show L.plan.deploy.migration.ownsDatabase = true from howns, Bool.not_true,
    Bool.false_eq_true, if_false]
  cases hprevious : r.previousRevision with
  | none => exact wp_ret.mpr (wp_ret.mpr trivial)
  | some previous =>
      have hstart : L.start.db.revision = some previous := hmoved.previous.symm.trans hprevious
      refine wp_bind (migrationCtx_spec fun ctx t' hctx hhosts hdb => ?_)
      have hback' : L.HostBack (L.cellOf t') := by
        rw [cellOf, hhosts]
        exact hback
      refine wp_bind ?_
      unfold SingleHostDeploy.moveBack
      cases hmode : L.plan.rollbackTo with
      | some target =>
          simp only [show L.plan.deploy.rollbackTo = _ from hmode, Option.isSome_some, if_true]
          rw [show L.plan.deploy.migration.up ctx (some previous) =
            onDb (.up (some previous)) from worldMigration_up hctx]
          refine wp_bind (wp_onDb ?_ ?_)
          · exact fun error => wp_ret.mpr (wp_ret.mpr (wp_ret.mpr trivial))
          · intro n
            refine wp_ret.mpr (wp_ret.mpr (wp_ret.mpr ⟨⟨?_, ?_⟩, hback'⟩))
            · rw [hstart]
              exact hreaches (by rw [hmode]; rfl) n previous _
            · refine ⟨tail ++ [.upgraded (some previous)
                (L.oracle.db.up n (some previous) t'.db.revision).1], ?_, fun _ => ?_⟩
              · simp [dbEffect, Database.record, hdb, hlog]
              · refine ⟨previous, hstart, ?_⟩
                rw [hmode, Option.isSome_some, if_pos rfl]
                exact ⟨_, List.mem_append_right _ (List.mem_singleton.mpr rfl)⟩
      | none =>
          simp only [show L.plan.deploy.rollbackTo = _ from hmode, Option.isSome_none,
            Bool.false_eq_true, if_false]
          refine wp_bind (wp_onDb ?_ ?_)
          · exact fun error => wp_ret.mpr (wp_ret.mpr (wp_ret.mpr trivial))
          · intro n
            refine wp_ret.mpr (wp_ret.mpr (wp_ret.mpr ⟨⟨?_, ?_⟩, hback'⟩))
            · rw [hstart]
              rfl
            · refine ⟨tail ++ [.downgraded previous], ?_, fun _ => ?_⟩
              · simp [dbEffect, Database.record, hdb, hlog]
              · refine ⟨previous, hstart, ?_⟩
                rw [hmode]
                exact List.mem_append_right _ (List.mem_singleton.mpr rfl)

end Steps

/-- The seven steps, from the start to the released host. -/
theorem compensable (hmatching : L.Matching) (howns : L.plan.ownsDatabase = true)
    (hreaches : L.plan.rollbackTo.isSome = true → L.oracle.db.UpReaches) (ctx : StepContext) :
    Compensable (fleet L.oracle) Guarantee.any ctx (fun _ _ => True)
      (fun r t => r = .default ∧ L.Unchanged t) L.Settled (L.plan.deploy.steps L.prior)
      L.Released := by
  refine .cons (fun r t h => preflight_forward hmatching h) (fun failed r t h => wp_ret.mpr h) ?_
  refine .cons (fun r t h => fetch_forward hmatching h) (fun failed r t h => wp_ret.mpr h) ?_
  refine .cons (fun r t h => migrate_forward hmatching h)
    (fun failed r t h => migrate_compensate howns hreaches h) ?_
  refine .cons (fun r t h => activate_forward hmatching h)
    (fun failed r t h => activate_compensate h) ?_
  refine .cons (V := L.Stranded) (fun r t h => restart_forward h)
    (fun failed r t h => wp_ret.mpr h) ?_
  refine .cons (V := L.Stranded) (fun r t h => health_forward h)
    (fun failed r t h => wp_ret.mpr h) ?_
  exact .cons (V := fun _ _ _ => False) (fun r t h => verify_forward h)
    (fun failed r t h => h.elim) .nil

end HostLaunch

end Fraisier.Core
