import Fraisier.Core.HostRun

/-!
# The ledger of a single host

Over any sequence of single-host deploys that commit or roll back, the ledger keeps
matching the host (`runs_keep_ledger`): a rollback puts the host, the database and the
ledger back, and a commit leaves the ledger with the artifact it switched to and the
revision that `up` reported, or else the one before it. That is the one that is live where
the adapter reports what it leaves.
-/

namespace Fraisier.Core

open Fraisier.Effect Fraisier.Saga

/-- A deploy and how the world answers it. -/
structure HostDeploy where
  plan : HostPlan
  oracle : FleetOracle

/-- What `up` reports is what it leaves: the revision after the call, or none when the one
before is still live. A command that migrates without a target reports none at all. -/
def DbOracle.Reports (o : DbOracle) : Prop :=
  ∀ n target current, (o.up n target current).1.toRevision.or current = (o.up n target current).2

namespace HostDeploy

variable (d : HostDeploy)

/-- The pair a deploy targets. -/
def key : FraiseKey :=
  d.plan.deploy.key

/-- Run the deploy. -/
def run [CharTables] (w : MemoryStore × Fleet) :
    Run (StoreSig.sum FleetSig) (MemoryStore × Fleet) (Except DeployError DeployRun) :=
  d.plan.deploy.runReporting.exec (memoryStore.prod (fleet d.oracle)) [] w

/-- The launch of a deploy in a world, with the record of the ledger. -/
def launch (w : MemoryStore × Fleet) (record : DeployRecord) : HostLaunch :=
  ⟨d.plan, d.oracle, record, w.2⟩

/-- What a rollback leaves. -/
structure RolledBack (w : MemoryStore × Fleet) (record : DeployRecord)
    (w' : MemoryStore × Fleet) : Prop where
  host : (d.launch w record).HostBack (w'.2.hosts d.plan.host)
  db : (d.launch w record).DbBack w'.2.db
  ledger : w'.1.snapshots = w.1.snapshots

/-- Whether the revision that the deploy records is the one it leaves: that is up to what
`up` reports, unless the deploy is a deliberate rollback. -/
def Reports : Prop :=
  d.plan.rollbackTo = none → d.oracle.db.Reports

/-- What a commit leaves when it records an artifact and a revision. -/
structure CommittedTo (w : MemoryStore × Fleet) (record : DeployRecord)
    (w' : MemoryStore × Fleet) (artifact : StagedArtifact) (revision : Option Revision) :
    Prop where
  host : (d.launch w record).HostSwitched artifact (w'.2.hosts d.plan.host)
  running : (w'.2.hosts d.plan.host).running = some artifact
  ledger : w'.1.snapshots d.key = some (DeployRecord.encode ⟨some artifact, revision⟩)
  db : ∃ tail, w'.2.db.log = w.2.db.log ++ tail ∧
    (d.launch w record).Recorded revision w'.2.db.revision tail
  live : d.Reports → revision = w'.2.db.revision

/-- What a commit leaves. -/
def Committed (w : MemoryStore × Fleet) (record : DeployRecord) (w' : MemoryStore × Fleet) :
    Prop :=
  ∃ artifact revision, d.CommittedTo w record w' artifact revision

/-- What a run leaves, by the outcome it reports. -/
def Leaves (w : MemoryStore × Fleet) (record : DeployRecord)
    (v : Except DeployError DeployRun) (w' : MemoryStore × Fleet) : Prop :=
  match v with
  | .ok ⟨.committed, _⟩ => d.Committed w record w'
  | .ok ⟨.rolledBack _ _, _⟩ => d.RolledBack w record w'
  | _ => True

variable {d}

/-- Where the adapter reports what it leaves, the revision that is recorded is the live one. -/
theorem recorded_live {w : MemoryStore × Fleet} {record : DeployRecord} (hreports : d.Reports)
    {revision live : Option Revision} {tail : List DbEvent}
    (h : (d.launch w record).Recorded revision live tail) : revision = live := by
  unfold HostLaunch.Recorded at h
  split at h
  · exact h.1.trans h.2.symm
  · next hforward =>
      obtain ⟨n, -, hrevision, hlive⟩ := h
      rw [hrevision, hlive]
      exact hreports hforward n _ _

/-- One run over a ledger that matches the host. -/
theorem run_leaves [CharTables] (howns : d.plan.ownsDatabase = true)
    (hreaches : d.plan.rollbackTo.isSome = true → d.oracle.db.UpReaches)
    {w : MemoryStore × Fleet} {record : DeployRecord}
    (hrecord : SingleHostDeploy.priorRecord (w.1.snapshots d.key) = some record)
    (hmatching : (d.launch w record).Matching) :
    d.Leaves w record (d.run w).value (d.run w).final := by
  suffices hwp : wp (memoryStore.prod (fleet d.oracle)) Eq (Guarantee.inr Guarantee.any)
      d.plan.deploy.runReporting (d.Leaves w record) w from (wp_exec hwp []).1
  obtain ⟨s, t⟩ := w
  refine wp_bind (wp_store.mpr ⟨trivial, ?_⟩)
  simp only [memoryStore]
  rw [show SingleHostDeploy.priorRecord (s.snapshots d.plan.deploy.key) = some record from
    hrecord]
  cases hlock : s.locked d.key with
  | true => exact wp_bind (wp_runWithState_locked hlock (wp_ret.mpr trivial))
  | false =>
      refine wp_bind (wp_post ?_ (wp_runWithState_compensable
        (HostLaunch.compensable hmatching howns hreaches ⟨d.key⟩) hlock
        ⟨rfl, rfl, rfl⟩))
      rintro ⟨outcome, r⟩ ⟨s', t'⟩ hpost
      rcases outcome with error | (_ | ⟨failed, reason⟩ | reason)
      · exact hpost.elim
      · obtain ⟨hended, hmoved, artifact, hstaged, hswitched, hrunning⟩ := hpost
        refine wp_bind (wp_store.mpr ⟨trivial, wp_ret.mpr ?_⟩)
        obtain ⟨tail, hlog, hrecorded⟩ := hmoved.log
        refine ⟨artifact, r.newRevision, hswitched, hrunning, ?_, ⟨tail, hlog, hrecorded⟩,
          fun hreports => recorded_live hreports hrecorded⟩
        simp [memoryStore, MemoryStore.setSnapshot, DeployRuntime.committedRecord, hstaged, key]
      · obtain ⟨hended, hdb, hback⟩ := hpost
        exact wp_ret.mpr ⟨hback, hdb, hended.snapshots⟩
      · exact wp_ret.mpr trivial

end HostDeploy

/-! ## Sequences of deploys -/

/-- The world after some deploys, one after the other. -/
def after [CharTables] : List HostDeploy → MemoryStore × Fleet → MemoryStore × Fleet
  | [], w => w
  | d :: ds, w => after ds (d.run w).final

/-- The ledger names the artifact the host is on. -/
def LedgerNamesArtifact (key : FraiseKey) (host : HostId) (w : MemoryStore × Fleet) : Prop :=
  ∃ record, SingleHostDeploy.priorRecord (w.1.snapshots key) = some record ∧
    (w.2.hosts host).active = record.active ∧ (w.2.hosts host).running = record.active

/-- The ledger names the revision the database is at. -/
def LedgerNamesRevision (key : FraiseKey) (w : MemoryStore × Fleet) : Prop :=
  ∃ record, SingleHostDeploy.priorRecord (w.1.snapshots key) = some record ∧
    w.2.db.revision = record.revision

/-- A run that committed or rolled back. -/
def Concluded (v : Except DeployError DeployRun) : Prop :=
  ∃ run, v = .ok run ∧
    (run.outcome = .committed ∨ ∃ failed reason, run.outcome = .rolledBack failed reason)

/-- A deploy of the given host for the given pair, with an adapter that owns the database. -/
structure HostDeploy.Targets (d : HostDeploy) (key : FraiseKey) (host : HostId) : Prop where
  key : d.key = key
  host : d.plan.host = host
  owns : d.plan.ownsDatabase = true
  reaches : d.plan.rollbackTo.isSome = true → d.oracle.db.UpReaches

section Sequences

variable [CharTables] {key : FraiseKey} {host : HostId} {d : HostDeploy}
variable {w : MemoryStore × Fleet}

omit [CharTables] in
theorem priorRecord_encode (record : DeployRecord) :
    SingleHostDeploy.priorRecord (some record.encode) = some record :=
  DeployRecord.decode_encode record

/-- A run that concludes keeps the ledger matching. -/
theorem run_keeps_matching (htargets : d.Targets key host) (hmatch : LedgerNamesArtifact key host w)
    (hconcluded : Concluded (d.run w).value) :
    (∃ record, SingleHostDeploy.priorRecord (w.1.snapshots key) = some record ∧
      d.Leaves w record (d.run w).value (d.run w).final) ∧
    LedgerNamesArtifact key host (d.run w).final ∧
    (d.Reports → LedgerNamesRevision key w → LedgerNamesRevision key (d.run w).final) := by
  obtain ⟨rfl, rfl, howns, hreaches⟩ := htargets
  obtain ⟨record, hrecord, hmatching⟩ := hmatch
  have hleaves := HostDeploy.run_leaves howns hreaches hrecord hmatching
  refine ⟨⟨record, hrecord, hleaves⟩, ?_⟩
  obtain ⟨⟨outcome, warnings⟩, hvalue, hcommitted | ⟨failed, reason, hrolled⟩⟩ := hconcluded
  · obtain rfl : outcome = .committed := hcommitted
    rw [hvalue] at hleaves
    obtain ⟨artifact, revision, hcommit⟩ := hleaves
    have hread : SingleHostDeploy.priorRecord ((d.run w).final.1.snapshots d.key) =
        some ⟨some artifact, revision⟩ := by
      rw [hcommit.ledger]
      exact priorRecord_encode _
    exact ⟨⟨_, hread, hcommit.host.active, hcommit.running⟩,
      fun hreports _ => ⟨_, hread, (hcommit.live hreports).symm⟩⟩
  · obtain rfl : outcome = .rolledBack failed reason := hrolled
    rw [hvalue] at hleaves
    have hread : SingleHostDeploy.priorRecord ((d.run w).final.1.snapshots d.key) =
        some record := by
      rw [hleaves.ledger]
      exact hrecord
    refine ⟨⟨record, hread, hleaves.host.active, hleaves.host.running⟩, ?_⟩
    intro hreports ⟨record', hrecord', hrevision⟩
    obtain rfl : record = record' := Option.some.inj (hrecord.symm.trans hrecord')
    exact ⟨record, hread, hleaves.db.revision.trans hrevision⟩

/-- Over any sequence of deploys of one host that each commit or roll back, every rollback
and every commit leaves what it promises, and the ledger keeps naming the artifact the
host is on and, where the adapters report what they leave, the revision the database is at. -/
theorem runs_keep_ledger (ds : List HostDeploy) (hds : ∀ d ∈ ds, d.Targets key host)
    (hmatch : LedgerNamesArtifact key host w)
    (hconcluded : ∀ pre d post, ds = pre ++ d :: post → Concluded (d.run (after pre w)).value) :
    (∀ pre d post, ds = pre ++ d :: post → ∃ record,
      SingleHostDeploy.priorRecord ((after pre w).1.snapshots key) = some record ∧
        d.Leaves (after pre w) record (d.run (after pre w)).value (d.run (after pre w)).final) ∧
    LedgerNamesArtifact key host (after ds w) ∧
    ((∀ d ∈ ds, d.Reports) → LedgerNamesRevision key w → LedgerNamesRevision key (after ds w)) := by
  induction ds generalizing w with
  | nil => exact ⟨by simp, hmatch, fun _ => id⟩
  | cons d ds ih =>
      obtain ⟨hleaves, hartifact, hrevision⟩ := run_keeps_matching
        (hds d List.mem_cons_self) hmatch (hconcluded [] d ds rfl)
      obtain ⟨hall, hartifact', hrevision'⟩ := ih
        (fun d' hd' => hds d' (List.mem_cons_of_mem _ hd')) hartifact
        fun pre d' post heq => hconcluded (d :: pre) d' post (by rw [heq, List.cons_append])
      refine ⟨?_, hartifact', fun hreports h => hrevision'
        (fun d' hd' => hreports d' (List.mem_cons_of_mem _ hd'))
        (hrevision (hreports d List.mem_cons_self) h)⟩
      rintro (_ | ⟨c, pre⟩) d' post heq
      · obtain ⟨rfl, rfl⟩ := List.cons.inj heq
        exact hleaves
      · obtain ⟨rfl, htail⟩ := List.cons.inj heq
        exact hall pre d' post htail

end Sequences

/-! ## Two deploys to one host -/

namespace OneHost

/-- A forward deploy to the host. -/
def hostPlan : HostPlan where
  fraise := "app"
  environment := "production"
  host := web.host
  ctx := .new "app" "production"
  unresolved := rfl
  target := none
  rollbackTo := none
  forwardCompatibleLint := false
  policy := none
  approvalHook := false
  restoreRehearsal := false
  backupSource := .freshDump
  databaseReadiness := false
  ownsDatabase := true

/-- The deploy, with the host's seventh call failing: the restart of a second run. -/
def deploy : HostDeploy :=
  ⟨hostPlan, oracle [6]⟩

/-- The world, with a ledger that matches it. -/
def world : MemoryStore × Fleet :=
  (MemoryStore.empty.setSnapshot deploy.key
    (DeployRecord.encode ⟨some (release "v1"), some ⟨"0001"⟩⟩), start)

theorem deploy_targets : deploy.Targets deploy.key web.host where
  key := rfl
  host := rfl
  owns := rfl
  reaches _ _ _ _ := rfl

theorem world_matches : LedgerNamesArtifact deploy.key web.host world := by
  refine ⟨⟨some (release "v1"), some ⟨"0001"⟩⟩, ?_, rfl, rfl⟩
  simp [world, MemoryStore.setSnapshot, priorRecord_encode]

end OneHost

/-- A deploy that commits and one that is rolled back. -/
theorem runs_keep_ledger_oneHost :
    (OneHost.deploy.run OneHost.world).value = .ok ⟨.committed, []⟩ ∧
    (∃ reason, (OneHost.deploy.run (after [OneHost.deploy] OneHost.world)).value =
      .ok ⟨.rolledBack "restart" reason, []⟩) ∧
    LedgerNamesArtifact OneHost.deploy.key OneHost.web.host
      (after [OneHost.deploy, OneHost.deploy] OneHost.world) := by
  have hconcluded : ∀ pre d post, [OneHost.deploy, OneHost.deploy] = pre ++ d :: post →
      Concluded (d.run (after pre OneHost.world)).value := by
    rintro (_ | ⟨c, _ | ⟨c', pre⟩⟩) d post heq
    · obtain ⟨rfl, -⟩ := List.cons.inj heq
      exact ⟨_, rfl, .inl rfl⟩
    · obtain ⟨rfl, htail⟩ := List.cons.inj heq
      obtain ⟨rfl, -⟩ := List.cons.inj htail
      exact ⟨_, rfl, .inr ⟨_, _, rfl⟩⟩
    · simp at heq
  exact ⟨rfl, ⟨_, rfl⟩, (runs_keep_ledger _ (by simp [OneHost.deploy_targets])
    OneHost.world_matches hconcluded).2.1⟩

end Fraisier.Core
