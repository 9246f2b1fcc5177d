import Fraisier.Core.FleetRun

/-!
# What a multi-host deploy promises

Three properties of every run, in every schedule: where a run ends its ledger matches the
fleet (`run_keeps_ledger`), the terminal record in the store agrees with the outcome that
is reported (`run_agrees_iff`), and the database is rolled back after the hosts
(`run_rollback_order_iff`). The last two fail in one corner, where a failing batch cannot
restore one of its own hosts: the batch only notes it in the run state, and the saga,
which sees a failed step and no failed compensation, goes on and rolls back.
-/

namespace Fraisier.Core

open Fraisier.Effect Fraisier.Saga

/-! ## One host

A deploy of `v2` to the fleet of one host, with the ledger that names `v1`. -/

namespace OneHost

/-- The ledger of the deploy before. -/
def record : MultiHostRecord :=
  ⟨[(web.host, release "v1")], some ⟨"0001"⟩⟩

/-- The deploy. -/
def plan : FleetPlan where
  fraise := "app"
  environment := "production"
  strategy := .rolling 1
  inventory := [web]
  distinct := by simp
  ctx := .new "app" "production"
  target := none
  forwardCompatibleLint := false
  policy := none
  approvalHook := false
  databaseReadiness := false
  ownsDatabase := true

/-- The launch. -/
def launch (faults : List Nat) : Launch where
  plan := plan
  oracle := oracle faults
  store := MemoryStore.empty.setSnapshot plan.deploy.key record.encode
  start := start
  fresh _ := rfl
  freshDb := rfl

theorem priorRecord_launch (faults : List Nat) :
    MultiHostDeploy.priorRecord ((launch faults).store.snapshots (launch faults).key) =
      some record := by
  have hsnapshot : (launch faults).store.snapshots (launch faults).key = some record.encode := by
    simp [launch, Launch.key, MemoryStore.setSnapshot]
  rw [hsnapshot]
  exact MultiHostRecord.decode_encode record

theorem launch_admitted (faults : List Nat) : (launch faults).Admitted :=
  ⟨by simp [priorRecord_launch], by simp [launch, MemoryStore.setSnapshot, MemoryStore.empty]⟩

theorem launch_prior (faults : List Nat) : (launch faults).prior = record := by
  simp [Launch.prior, priorRecord_launch]

theorem launch_priorArtifact (faults : List Nat) :
    (launch faults).priorArtifact web = some (release "v1") := by
  simp [Launch.priorArtifact, launch_prior, record]

/-- The deploy gets to its rollout when the probe and the staging succeed. -/
theorem launch_reached {faults : List Nat} (hprobe : 0 ∉ faults) (hstage : 1 ∉ faults) :
    (launch faults).RolloutReached where
  checks := rfl
  probed := by simp [launch, plan, Launch.host, oracle, hostOracle, hprobe]
  staged := by simp [launch, plan, Launch.host, oracle, hostOracle, hstage]
  read := rfl
  migrated := rfl

/-- The restart after the activation fails, and so does the first call that restores the
host: the new release stays active. -/
theorem launch_stranded : (launch [4, 5]).Stranded fun e => 2 ≤ (launch [4, 5]).stage e := by
  have hstage : (launch [4, 5]).stage web = 2 := by decide
  refine ⟨launch_reached (by decide) (by decide), [], [web], [], ⟨rfl, by simp, web, by simp, ?_⟩,
    by simp, web, by simp, ?_, ?_⟩
  · rw [hstage]
    decide
  · intro hrestores
    have hactivate := hrestores.activate (by simp [hstage])
    rw [hstage] at hactivate
    simp [launch, Launch.host, oracle, hostOracle, advanceCalls] at hactivate
  · simp [hstage]

end OneHost

/-! ## Runs -/

/-- The run of a launch in one schedule of its concurrent tasks. -/
def Launch.run [CharTables] (L : Launch) (sched : List Bool) :
    Run (StoreSig.sum FleetSig) (MemoryStore × Fleet)
      (Except MultiHostDeploy.Error SagaOutcome) :=
  L.plan.deploy.run.exec (memoryStore.prod (fleet L.oracle)) sched (L.store, L.start)

namespace Launch

variable {L : Launch}

theorem run_ends [CharTables] (hadmitted : L.Admitted) (sched : List Bool) :
    L.Ends (L.run sched).value (L.run sched).final :=
  (wp_exec (run_spec hadmitted) sched).1

theorem run_order [CharTables] (hadmitted : L.Admitted) (sched : List Bool) :
    ∀ step ∈ (L.run sched).steps, Guarantee.inr L.Order step.before step.cmd step.after :=
  (wp_exec (run_spec hadmitted) sched).2

theorem run_error [CharTables] (hrefused : ¬ L.Admitted) (sched : List Bool) :
    ∃ error, (L.run sched).value = .error error :=
  (wp_exec (run_refused hrefused) sched).1.1

/-- A run that deployed the whole fleet stranded nothing. -/
theorem Deployed.not_stranded {r : RolloutRuntime} {t : Fleet} (h : L.Deployed r t)
    (P : HostEntry → Prop) : ¬ L.Stranded P := by
  rw [(FailedAt.late h.reached h.stage).stranded_iff]
  rintro ⟨-, e, ⟨he, -⟩, -⟩
  cases he

end Launch

/-! ## The reported outcome and the recorded one -/

/-- The outcome that a terminal state stands for. -/
def Matches : SagaState → SagaOutcome → Prop
  | .committed, .committed => True
  | .rolledBack, .rolledBack _ _ => True
  | .partialRollback _, .partialRollback _ => True
  | _, _ => False

/-- The last state and the last event of a pair agree with an outcome. -/
structure Agrees (s : MemoryStore) (key : FraiseKey) (outcome : SagaOutcome) : Prop where
  state : ∃ state, s.lastState key = some state ∧ Matches state outcome
  event : ∃ source target,
    (s.events key).getLast? = some (.stateTransition source target) ∧ Matches target outcome

/-- The store agrees with whatever outcome a run reports. -/
def Launch.Agreeing [CharTables] (L : Launch) (sched : List Bool) : Prop :=
  ∀ outcome, (L.run sched).value = .ok outcome → Agrees (L.run sched).final.1 L.key outcome

theorem agrees_of_ended {key : FraiseKey} {before after : MemoryStore} {terminal : SagaState}
    {outcome : SagaOutcome} (h : Ended key before after terminal)
    (hmatches : Matches terminal outcome) : Agrees after key outcome where
  state := ⟨terminal, h.state, hmatches⟩
  event := by
    obtain ⟨source, hevent⟩ := h.event
    exact ⟨source, terminal, hevent, hmatches⟩

namespace Launch

variable {L : Launch}

/-- A rollback that leaves a host unrecoverable and otherwise succeeds is reported as a
partial one and recorded as a clean one. -/
theorem not_agreeing_of_masked [CharTables] (hadmitted : L.Admitted) (hmasked : L.Masked)
    (sched : List Bool) : ¬ L.Agreeing sched := by
  intro hagree
  have hends := run_ends hadmitted sched
  match hvalue : (L.run sched).value with
  | .ok .committed =>
      rw [hvalue] at hends
      obtain ⟨r, s, hdeployed, -⟩ := hends
      exact hdeployed.not_stranded _ hmasked.1
  | .ok (.rolledBack failed reason) =>
      rw [hvalue] at hends
      obtain ⟨r, hsettled, hnone, -⟩ := hends
      have hsome := hsettled.masked.mp hmasked
      simp [hnone] at hsome
  | .ok (.partialRollback reason) =>
      rw [hvalue] at hends
      rcases hends with ⟨failed, r, -, -, hended⟩ | ⟨r, reason, hhalted, -⟩
      · obtain ⟨state, hstate, hmatches⟩ := (hagree _ hvalue).state
        rw [hended.state] at hstate
        obtain rfl := Option.some.inj hstate
        exact hmatches
      · exact hhalted.1 hmasked
  | .error error =>
      rw [hvalue] at hends
      exact hends

theorem agreeing_of_not_masked [CharTables] (hadmitted : L.Admitted) (hmasked : ¬ L.Masked)
    (sched : List Bool) : L.Agreeing sched := by
  intro outcome hvalue
  have hends := run_ends hadmitted sched
  rw [hvalue] at hends
  match outcome, hends with
  | .committed, ⟨r, s, _, hended, hfinal⟩ =>
      have hagrees : Agrees s L.key .committed := agrees_of_ended hended trivial
      rw [hfinal]
      exact ⟨by simpa [MemoryStore.setSnapshot, MemoryStore.lastState] using hagrees.state,
        by simpa [MemoryStore.setSnapshot] using hagrees.event⟩
  | .rolledBack _ _, ⟨r, _, _, hended⟩ => exact agrees_of_ended hended trivial
  | .partialRollback _, .inl ⟨failed, r, hsettled, hsome, _⟩ =>
      exact absurd (hsettled.masked.mpr hsome) hmasked
  | .partialRollback _, .inr ⟨r, reason, _, hended⟩ => exact agrees_of_ended hended trivial

/-- What a run leaves in the store agrees with the outcome it reports unless the rollout
fails in a batch with a host that the batch cannot restore, and every compensation after
that succeeds. -/
theorem run_agrees_iff [CharTables] (L : Launch) (sched : List Bool) :
    L.Agreeing sched ↔ ¬ (L.Admitted ∧ L.Masked) := by
  by_cases hadmitted : L.Admitted
  · constructor
    · rintro hagree ⟨-, hmasked⟩
      exact not_agreeing_of_masked hadmitted hmasked sched hagree
    · intro hnot
      exact agreeing_of_not_masked hadmitted (fun hmasked => hnot ⟨hadmitted, hmasked⟩) sched
  · obtain ⟨error, herror⟩ := run_error hadmitted sched
    refine iff_of_true (fun outcome hvalue => ?_) fun h => hadmitted h.1
    rw [herror] at hvalue
    cases hvalue

/-- The host that could not be restored is reported and not recorded. -/
theorem run_not_agreeing_oneHost : ¬ (OneHost.launch [4, 5]).Agreeing [] := by
  have hmasked : (OneHost.launch [4, 5]).Masked := by
    obtain ⟨hreached, pre, b, post, hfails, hpre, e, he, hself, -⟩ := OneHost.launch_stranded
    exact ⟨⟨hreached, pre, b, post, hfails, hpre, e, he, hself, trivial⟩, fun _ => ⟨rfl, rfl⟩⟩
  exact not_agreeing_of_masked (OneHost.launch_admitted _) hmasked []

end Launch

/-! ## The ledger and the fleet -/

namespace Launch

/-- The ledger names for each host the artifact it is on. -/
def LedgerMatches (L : Launch) : Prop :=
  ∀ e ∈ L.plan.inventory,
    (L.cell e).active = L.priorArtifact e ∧ (L.cell e).running = L.priorArtifact e

/-- What a rollback promises about the fleet and the store it leaves. -/
structure RolledBack (L : Launch) (failed : String) (w : MemoryStore × Fleet) : Prop where
  active : ∀ e ∈ L.plan.inventory, (w.2.hosts e.host).active = L.priorArtifact e
  running : ∀ e ∈ L.plan.inventory, (w.2.hosts e.host).running = L.priorArtifact e
  membership : ∀ e ∈ L.plan.inventory,
    (w.2.hosts e.host).membership = (L.cell e).membership
  captured : ∀ e ∈ L.plan.inventory, ∀ membership,
    captured (w.2.hosts e.host).log = some membership →
      (w.2.hosts e.host).membership = membership
  revision : w.2.db.revision = L.start.db.revision
  once : (w.2.db.log.filter DbEvent.isUp).length ≤ 1
  later : ∃ f, L.FailedAt f ∧ f.step = failed ∧
    ∀ e ∈ f.later, ∀ membership, HostEvent.drained membership ∉ (w.2.hosts e.host).log
  ledger : w.1.snapshots = L.store.snapshots

/-- What a commit promises about the fleet and the store it leaves. -/
structure Committed (L : Launch) (w : MemoryStore × Fleet) : Prop where
  active : ∀ e ∈ L.plan.inventory, (w.2.hosts e.host).active = some (L.artifact e)
  running : ∀ e ∈ L.plan.inventory, (w.2.hosts e.host).running = some (L.artifact e)
  membership : ∀ e ∈ L.plan.inventory,
    captured (w.2.hosts e.host).log = some (w.2.hosts e.host).membership
  ledger : ∃ record : MultiHostRecord, w.1.snapshots L.key = some record.encode ∧
    (∀ e ∈ L.plan.inventory, record.active.lookup e.host = some (L.artifact e)) ∧
    record.revision = L.newRevision
  revision : w.2.db.revision = L.migrated.revision

variable {L : Launch}

/-- A rollback without an unrecoverable host brings every host back. -/
theorem Settled.back {failed : String} {r : RolloutRuntime} {t : Fleet}
    (h : L.Settled failed r t) (hrecoverable : r.unrecoverable = none) :
    ∀ e ∈ L.plan.inventory, L.Back e (t.hosts e.host) := by
  obtain ⟨f, -, hundo⟩ := h.undone
  intro e he
  refine hundo.back e he List.not_mem_nil fun hstuck => ?_
  have hsome := hundo.unrecoverable.mpr ⟨e, hstuck⟩
  simp [hrecoverable] at hsome

/-- A host that is back runs what a matching ledger names. -/
theorem Back.matches_ledger {e : HostEntry} {cell : HostCell} (h : L.Back e cell)
    (hledger : (L.cell e).active = L.priorArtifact e ∧ (L.cell e).running = L.priorArtifact e) :
    cell.active = L.priorArtifact e ∧ cell.running = L.priorArtifact e := by
  rcases h.artifact with ⟨hactive, hrunning⟩ | ⟨a, hprior, hactive, hrunning⟩
  · exact ⟨hactive.trans hledger.1, hrunning.trans hledger.2⟩
  · exact ⟨hactive.trans hprior.symm, hrunning.trans hprior.symm⟩

/-- Over a ledger that matches the fleet, with an adapter that owns the database: a
rollback puts every host, the database and the ledger back, and a commit has every host
and the ledger on the new artifacts. -/
theorem run_keeps_ledger [CharTables] (L : Launch) (hledger : L.LedgerMatches)
    (howns : L.plan.ownsDatabase = true) (sched : List Bool) :
    (∀ failed reason, (L.run sched).value = .ok (.rolledBack failed reason) →
      L.RolledBack failed (L.run sched).final) ∧
    ((L.run sched).value = .ok .committed → L.Committed (L.run sched).final) := by
  have hadmitted : ∀ {outcome}, (L.run sched).value = .ok outcome → L.Admitted := by
    intro outcome hvalue
    by_contra hrefused
    obtain ⟨error, herror⟩ := run_error hrefused sched
    rw [hvalue] at herror
    cases herror
  constructor
  · intro failed reason hvalue
    have hends := run_ends (hadmitted hvalue) sched
    rw [hvalue] at hends
    obtain ⟨r, hsettled, hrecoverable, hended⟩ := hends
    have hback := hsettled.back hrecoverable
    obtain ⟨f, hstep, hundo⟩ := hsettled.undone
    refine ⟨fun e he => ((hback e he).matches_ledger (hledger e he)).1,
      fun e he => ((hback e he).matches_ledger (hledger e he)).2,
      fun e he => (hback e he).membership, ?_, hsettled.revision howns, hsettled.once,
      ⟨f, hundo.failed, hstep, ?_⟩, hended.snapshots⟩
    · intro e he membership hcaptured
      rw [(hback e he).captured membership hcaptured]
      exact (hback e he).membership
    · exact fun e he membership hmem => hundo.later e he _ hmem
  · intro hvalue
    have hends := run_ends (hadmitted hvalue) sched
    rw [hvalue] at hends
    obtain ⟨r, s, hdeployed, hended, hfinal⟩ := hends
    refine ⟨fun e he => (hdeployed.pending e he).active,
      fun e he => (hdeployed.pending e he).running, ?_,
      ⟨r.committedRecord, ?_, hdeployed.staged, hdeployed.next⟩, hdeployed.revision⟩
    · intro e he
      rw [(hdeployed.pending e he).captured, (hdeployed.pending e he).membership]
    · simp [hfinal, MemoryStore.setSnapshot]

theorem ledgerMatches_oneHost (faults : List Nat) : (OneHost.launch faults).LedgerMatches := by
  intro e he
  rw [List.mem_singleton.mp (show e ∈ [OneHost.web] from he), OneHost.launch_priorArtifact]
  exact ⟨rfl, rfl⟩

/-- A deploy whose restart fails is rolled back, and one without a failure commits. -/
theorem run_keeps_ledger_oneHost :
    (∃ reason, ((OneHost.launch [4]).run []).value = .ok (.rolledBack "rollout-1" reason) ∧
      (OneHost.launch [4]).RolledBack "rollout-1" ((OneHost.launch [4]).run []).final) ∧
    ((OneHost.launch []).run []).value = .ok .committed ∧
      (OneHost.launch []).Committed ((OneHost.launch []).run []).final :=
  ⟨⟨_, rfl, (run_keeps_ledger _ (ledgerMatches_oneHost _) rfl []).1 _ _ rfl⟩,
    rfl, (run_keeps_ledger _ (ledgerMatches_oneHost _) rfl []).2 rfl⟩

/-! ## The order of a rollback -/

/-- The rollback of the database is asked for when every host that was activated has been
fully restored. -/
def RollsBackInOrder [CharTables] (L : Launch) (sched : List Bool) : Prop :=
  ∀ step ∈ (L.run sched).steps, ∀ target, step.cmd = .inr (.db (.downTo target)) →
    L.Restored step.before.2

/-- A database call adds one event to the log, and only `downTo` adds a request to roll
back. -/
theorem dbStep_log (o : DbOracle) (call : DbCall) (db : Database) :
    ∃ event, (dbStep o call db).2.log = db.log ++ [event] ∧
      (DbEvent.isDown event = true → ∃ target, call = .downTo target) := by
  cases hfault : o.fault db.log.length with
  | some error =>
      refine ⟨.failed call error, by simp [dbStep, hfault, Database.record], fun hdown => ?_⟩
      cases call with
      | downTo target => exact ⟨target, rfl⟩
      | _ => cases hdown
  | none =>
      cases call with
      | downTo target =>
          exact ⟨.downgraded target, by simp [dbStep, dbEffect, hfault, Database.record],
            fun _ => ⟨target, rfl⟩⟩
      | currentRevision =>
          exact ⟨.read db.revision, by simp [dbStep, dbEffect, hfault, Database.record],
            fun hdown => by cases hdown⟩
      | up target =>
          exact ⟨.upgraded target (o.up db.log.length target db.revision).1,
            by simp [dbStep, dbEffect, hfault, Database.record], fun hdown => by cases hdown⟩
      | verify =>
          exact ⟨.verified (o.verify db.log.length),
            by simp [dbStep, dbEffect, hfault, Database.record],
            fun hdown => by cases hdown⟩

theorem restored_congr {t t' : Fleet} (hhosts : t'.hosts = t.hosts) (h : L.Restored t) :
    L.Restored t' := by
  intro e he
  rw [hhosts]
  exact h e he

section Execution

variable {α : Type} {p : Prog (StoreSig.sum FleetSig) α} {sched : List Bool} {s : MemoryStore}
variable {t : Fleet}

/-- Once the rollback of the database was asked for, a run in order leaves the hosts as
they are. -/
theorem hosts_eq_of_isDown (hdown : ∃ event ∈ t.db.log, DbEvent.isDown event = true)
    (horder : ∀ step ∈ (p.exec (memoryStore.prod (fleet L.oracle)) sched (s, t)).steps,
      Guarantee.inr L.Order step.before step.cmd step.after) :
    (p.exec (memoryStore.prod (fleet L.oracle)) sched (s, t)).final.2.hosts = t.hosts := by
  induction p generalizing sched s t with
  | ret a => rfl
  | call c k ih =>
      have hrest := fun step hstep => horder step (List.mem_cons_of_mem _ hstep)
      have hhead := horder _ List.mem_cons_self
      match c with
      | .inl c => exact ih _ hdown hrest
      | .inr (.host host call) =>
          obtain ⟨event, hevent, hyes⟩ := hdown
          have hno : DbEvent.isDown event = false := hhead event hevent
          rw [hyes] at hno
          cases hno
      | .inr (.db call) =>
          obtain ⟨event, hevent, hyes⟩ := hdown
          obtain ⟨added, hlog, -⟩ := dbStep_log L.oracle.db call t.db
          have hkept : event ∈ (dbStep L.oracle.db call t.db).2.log := by
            rw [hlog]
            exact List.mem_append_left _ hevent
          exact ih _ ⟨event, hkept, hyes⟩ hrest
      | .inr (.query query) => exact ih _ hdown hrest
  | choose k ih => exact ih _ hdown horder

/-- A run in order that ends in violation asked for the rollback of the database when the
hosts were not restored. -/
theorem exists_downTo_of_violated (hfresh : ∀ event ∈ t.db.log, DbEvent.isDown event = false)
    (horder : ∀ step ∈ (p.exec (memoryStore.prod (fleet L.oracle)) sched (s, t)).steps,
      Guarantee.inr L.Order step.before step.cmd step.after)
    (hviolated : L.Violated (p.exec (memoryStore.prod (fleet L.oracle)) sched (s, t)).final.2) :
    ∃ step ∈ (p.exec (memoryStore.prod (fleet L.oracle)) sched (s, t)).steps,
      (∃ target, step.cmd = .inr (.db (.downTo target))) ∧ ¬ L.Restored step.before.2 := by
  induction p generalizing sched s t with
  | ret a =>
      obtain ⟨⟨event, hevent, hyes⟩, -⟩ := hviolated
      have hno : DbEvent.isDown event = false := hfresh event hevent
      rw [hyes] at hno
      cases hno
  | call c k ih =>
      have hrest := fun step hstep => horder step (List.mem_cons_of_mem _ hstep)
      have hlater : ∀ {s' t'}, ((memoryStore.prod (fleet L.oracle)) c (s, t)).2 = (s', t') →
          (∀ event ∈ t'.db.log, DbEvent.isDown event = false) → ∃ step ∈
            ((Prog.call c k).exec (memoryStore.prod (fleet L.oracle)) sched (s, t)).steps,
            (∃ target, step.cmd = .inr (.db (.downTo target))) ∧
              ¬ L.Restored step.before.2 := by
        intro s' t' hnext hfresh'
        simp only [Prog.exec, hnext] at hrest hviolated ⊢
        obtain ⟨step, hstep, hdone⟩ := ih _ hfresh' hrest hviolated
        exact ⟨step, List.mem_cons_of_mem _ hstep, hdone⟩
      -- only a call to the database adds to its log
      rcases c with c | (⟨host, call⟩ | call | query)
      · exact hlater rfl hfresh
      · exact hlater rfl hfresh
      · obtain ⟨added, hlog, hcall⟩ := dbStep_log L.oracle.db call t.db
        cases hadded : DbEvent.isDown added with
        | false =>
            refine hlater rfl fun event hevent => ?_
            replace hevent : event ∈ (dbStep L.oracle.db call t.db).2.log := hevent
            rw [hlog] at hevent
            rcases List.mem_append.mp hevent with hevent | hevent
            · exact hfresh event hevent
            · rw [List.mem_singleton.mp hevent, hadded]
        | true =>
            obtain ⟨target, rfl⟩ := hcall hadded
            refine ⟨_, List.mem_cons_self, ⟨target, rfl⟩, fun hrestored => hviolated.2 ?_⟩
            have hdown : ∃ event ∈ (dbStep L.oracle.db (.downTo target) t.db).2.log,
                DbEvent.isDown event = true := ⟨added, by simp [hlog], hadded⟩
            have hhosts := hosts_eq_of_isDown (t := ⟨t.hosts, _, t.queries⟩) hdown hrest
            exact restored_congr hhosts hrestored
      · exact hlater rfl hfresh
  | choose k ih => exact ih _ hfresh horder hviolated

end Execution

/-- A run that meets the condition of exposure rolls the database back too early. -/
theorem not_inOrder_of_exposed [CharTables] (hadmitted : L.Admitted) (hexposed : L.Exposed)
    (sched : List Bool) : ¬ L.RollsBackInOrder sched := by
  intro hin
  have hviolated : L.Violated (L.run sched).final.2 := by
    have hends := run_ends hadmitted sched
    match hvalue : (L.run sched).value with
    | .ok .committed =>
        rw [hvalue] at hends
        obtain ⟨r, s, hdeployed, -⟩ := hends
        exact absurd hexposed.1 (hdeployed.not_stranded _)
    | .ok (.rolledBack failed reason) =>
        rw [hvalue] at hends
        obtain ⟨r, hsettled, -⟩ := hends
        exact hsettled.exposed hexposed
    | .ok (.partialRollback reason) =>
        rw [hvalue] at hends
        rcases hends with ⟨failed, r, hsettled, -⟩ | ⟨r, reason, hhalted, -⟩
        · exact hsettled.exposed hexposed
        · exact hhalted.2 hexposed
    | .error error =>
        rw [hvalue] at hends
        exact hends.elim
  obtain ⟨step, hstep, ⟨target, hcmd⟩, hnot⟩ := exists_downTo_of_violated
    (by simp [L.freshDb]) (run_order hadmitted sched) hviolated
  exact hnot (hin step hstep target hcmd)

/-- A run that is not exposed rolls back in order. -/
theorem inOrder_of_not_exposed [CharTables] (hadmitted : L.Admitted) (hexposed : ¬ L.Exposed)
    (sched : List Bool) : L.RollsBackInOrder sched := by
  rintro ⟨before, cmd, ans, after⟩ hstep target rfl
  exact run_order hadmitted sched _ hstep hexposed

/-- A run asks for the rollback of the database only when every activated host is fully
restored, unless the rollout fails in a batch with an activated host that the batch cannot
restore, and the earlier batches can be restored. -/
theorem run_rollback_order_iff [CharTables] (L : Launch) (sched : List Bool) :
    L.RollsBackInOrder sched ↔ ¬ (L.Admitted ∧ L.Exposed) := by
  by_cases hadmitted : L.Admitted
  · constructor
    · rintro hin ⟨-, hexposed⟩
      exact not_inOrder_of_exposed hadmitted hexposed sched hin
    · intro hnot
      exact inOrder_of_not_exposed hadmitted (fun hexposed => hnot ⟨hadmitted, hexposed⟩) sched
  · refine iff_of_true ?_ fun h => hadmitted h.1
    rintro ⟨before, cmd, ans, after⟩ hstep target rfl
    exact ((wp_exec (run_refused hadmitted) sched).2 _ hstep).elim

/-- The database is rolled back although the host is left on the new release. -/
theorem run_not_inOrder_oneHost : ¬ (OneHost.launch [4, 5]).RollsBackInOrder [] :=
  not_inOrder_of_exposed (OneHost.launch_admitted _) ⟨OneHost.launch_stranded, rfl, rfl⟩ []

end Launch

end Fraisier.Core
