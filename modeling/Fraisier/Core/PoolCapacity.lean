import Mathlib.Data.List.Perm.Subperm
import Fraisier.Core.FleetOutcome
import Fraisier.Effect.History

/-!
# How many hosts a rollout takes out of the pool

A batch is drained, advanced and reattached before the next one is touched, and a rollback
restores one batch at a time. Read `run_keepsCapacity` first: in every state that a run
passes through, the hosts it has taken out of the pool belong to one batch, as long as a
batch that fails can restore its own hosts.
-/

namespace Fraisier.Core

open Fraisier.Effect Fraisier.Saga

/-! ## The batches -/

/-- The batches are consecutive parts of the inventory, of at most the size of a rolling
strategy. -/
structure Partitions (strategy : RolloutStrategy) (inventory : List HostEntry)
    (batches : List (List HostEntry)) : Prop where
  covers : batches.flatten = inventory
  bounded : ∀ size, strategy = .rolling size → ∀ batch ∈ batches, batch.length ≤ max 1 size

theorem chunksFrom_bounded {α : Type} {size : Nat} (hsize : 1 ≤ size) (room : Nat) (xs : List α) :
    (chunksFrom size room xs).1.length ≤ room ∧
      ∀ chunk ∈ (chunksFrom size room xs).2, chunk.length ≤ size := by
  induction xs generalizing room with
  | nil => cases room <;> simp [chunksFrom]
  | cons x xs ih =>
      cases room with
      | zero =>
          obtain ⟨hopen, hchunks⟩ := ih (size - 1)
          refine ⟨by simp [chunksFrom], List.forall_mem_cons.mpr ⟨?_, hchunks⟩⟩
          rw [List.length_cons]
          omega
      | succ room =>
          obtain ⟨hopen, hchunks⟩ := ih room
          refine ⟨?_, hchunks⟩
          simp only [chunksFrom, List.length_cons]
          omega

theorem planBatches_partitions (strategy : RolloutStrategy) (inventory : List HostEntry) :
    Partitions strategy inventory (planBatches strategy inventory) where
  covers := planBatches_flatten strategy inventory
  bounded := by
    rintro size rfl batch hbatch
    rw [Nat.max_comm]
    cases inventory with
    | nil => cases hbatch
    | cons x xs =>
        obtain ⟨hopen, hchunks⟩ :=
          chunksFrom_bounded (Nat.le_max_right size 1) (max size 1 - 1) xs
        rcases List.mem_cons.mp hbatch with rfl | hbatch
        · rw [List.length_cons]
          omega
        · exact hchunks batch hbatch

namespace Launch

variable (L : Launch)

/-! ## The pool -/

/-- A host that was in the pool when the deploy began, and is not in it now. -/
def OutOfPool (t : Fleet) (e : HostEntry) : Prop :=
  (L.cell e).membership.state = .inPool ∧ (t.hosts e.host).membership.state ≠ .inPool

instance (t : Fleet) (e : HostEntry) : Decidable (L.OutOfPool t e) :=
  inferInstanceAs (Decidable (_ ∧ _))

/-- The hosts that are out of the pool all belong to one batch. -/
def OneBatchOut (t : Fleet) : Prop :=
  (∀ e ∈ L.plan.inventory, ¬L.OutOfPool t e) ∨
    ∃ batch ∈ L.batches, ∀ e ∈ L.plan.inventory, L.OutOfPool t e → e ∈ batch

/-- The fleet keeps its capacity: only one batch is out of the pool, so a rolling deploy has
taken no more hosts out of it than its size. -/
structure WithinCapacity (t : Fleet) : Prop where
  oneBatch : L.OneBatchOut t
  bounded : ∀ size, L.plan.strategy = .rolling size →
    (L.plan.inventory.filter fun e => L.OutOfPool t e).length ≤ max 1 size

/-- A batch that fails restores its own hosts. -/
def RestoresItself : Prop :=
  L.RolloutReached → ∀ pre batch post, L.FailsIn pre batch post → ∀ e ∈ batch, L.SelfRestores e

/-- Every host has the membership it started with, but for those of a batch. -/
def HomeOutside (batch : List HostEntry) (t : Fleet) : Prop :=
  ∀ e ∈ L.plan.inventory, e ∉ batch → (t.hosts e.host).membership = (L.cell e).membership

/-- The hosts that may be moved: those of one batch, or none. -/
def Movable (batch : List HostEntry) : Prop :=
  batch = [] ∨ batch ∈ L.batches

/-- The capacity is kept around a command. -/
def Capacity : Guarantee FleetSig Fleet :=
  fun t _ t' => L.OneBatchOut t ∧ L.OneBatchOut t'

/-- Of all hosts, only those of a batch are drained or reattached. -/
def MovesOnly (batch : List HostEntry) : FleetCall → Prop
  | .host host .drain => host ∈ batch.map HostEntry.host
  | .host host (.reattach _) => host ∈ batch.map HostEntry.host
  | _ => True

variable {L}

theorem Movable.subset {batch : List HostEntry} (h : L.Movable batch) :
    ∀ e ∈ batch, e ∈ L.plan.inventory := by
  intro e he
  rcases h with rfl | hbatch
  · cases he
  · rw [← planBatches_flatten L.plan.strategy L.plan.inventory]
    exact List.mem_flatten.mpr ⟨batch, hbatch, he⟩

/-- When only a batch is away from home, only that batch is out of the pool. -/
theorem HomeOutside.oneBatchOut {batch : List HostEntry} {t : Fleet} (h : L.HomeOutside batch t)
    (hbatch : L.Movable batch) : L.OneBatchOut t := by
  have hout : ∀ e ∈ L.plan.inventory, L.OutOfPool t e → e ∈ batch := by
    intro e he hout
    by_contra hne
    refine hout.2 ?_
    rw [h e he hne]
    exact hout.1
  rcases hbatch with rfl | hbatch
  · exact .inl fun e he h => List.not_mem_nil (hout e he h)
  · exact .inr ⟨batch, hbatch, hout⟩

/-- One batch at a time is the capacity of a rolling deploy. -/
theorem OneBatchOut.withinCapacity {t : Fleet} (h : L.OneBatchOut t) : L.WithinCapacity t where
  oneBatch := h
  bounded := by
    intro size hsize
    rcases h with hnone | ⟨batch, hbatch, hout⟩
    · have hnil : (L.plan.inventory.filter fun e => L.OutOfPool t e) = [] := by
        refine List.filter_eq_nil_iff.mpr ?_
        intro e he
        simpa using hnone e he
      simp [hnil]
    · have hsubset : (L.plan.inventory.filter fun e => L.OutOfPool t e) ⊆ batch := by
        intro e he
        obtain ⟨hmem, hdecide⟩ := List.mem_filter.mp he
        exact hout e hmem (of_decide_eq_true hdecide)
      have hnodup := L.plan.distinct.of_map.filter fun e => L.OutOfPool t e
      calc (L.plan.inventory.filter fun e => L.OutOfPool t e).length
          ≤ batch.length := (List.subperm_of_subset hnodup hsubset).length_le
        _ ≤ max 1 size :=
          (planBatches_partitions L.plan.strategy L.plan.inventory).bounded size hsize batch hbatch

/-- A host that is not moved keeps its membership. -/
theorem membership_hostStep {o : HostOracle} {call : HostCall} {cell : HostCell}
    (hdrain : call ≠ .drain) (hreattach : ∀ membership, call ≠ .reattach membership) :
    (hostStep o call cell).2.membership = cell.membership := by
  unfold hostStep
  split
  · rfl
  · cases call with
    | drain => exact absurd rfl hdrain
    | reattach membership => exact absurd rfl (hreattach membership)
    | status => rfl
    | stage => rfl
    | activate artifact => rfl
    | restart => rfl
    | check => rfl

/-- A command that moves hosts of a batch only leaves the other hosts at home. -/
theorem HomeOutside.step {batch : List HostEntry} (hbatch : L.Movable batch)
    {o : FleetOracle} {c : FleetSig.Cmd} {t : Fleet} (hc : MovesOnly batch c)
    (h : L.HomeOutside batch t) : L.HomeOutside batch (fleet o c t).2 := by
  intro e he hne
  rw [← h e he hne]
  cases c with
  | db call => rfl
  | query query => rfl
  | host host call =>
      by_cases hhost : e.host = host
      · have hkept : ∀ hmoves : host ∈ batch.map HostEntry.host, False := by
          intro hmoves
          exact host_not_mem hbatch.subset he hne (hhost ▸ hmoves)
        subst hhost
        simp only [fleet, Fleet.setHost, Function.update_self]
        refine membership_hostStep ?_ ?_
        · rintro rfl
          exact hkept hc
        · rintro membership rfl
          exact hkept hc
      · simp [fleet, Fleet.setHost, hhost]

/-! ## What the tasks move -/

section Issues

variable {batch : List HostEntry} {entry : HostEntry} {P : FleetCall → Prop}

/-- A task on a host of a batch moves no other host. -/
theorem onHost_issues (call : HostCall) (hc : P (.host entry.host call)) :
    (onHost entry.host call).Issues P :=
  .perform hc

theorem joinAll_issues {α : Type} {task : HostEntry → Prog FleetSig α}
    (htask : ∀ entry ∈ batch, (task entry).Issues P) :
    (Prog.joinAll (batch.map task)).Issues P := by
  refine .joinAll fun p hp => ?_
  obtain ⟨entry, hentry, rfl⟩ := List.mem_map.mp hp
  exact htask entry hentry

variable (plan : FleetPlan)

theorem advanceHost_issues (hentry : entry ∈ batch) (staged : List (HostId × StagedArtifact)) :
    (plan.deploy.advanceHost staged entry).Issues (MovesOnly batch) := by
  have hhost : entry.host ∈ batch.map HostEntry.host := List.mem_map_of_mem hentry
  refine (onHost_issues .drain hhost).bind ?_
  rintro (_ | membership)
  · exact .ret _
  dsimp only
  cases staged.lookup entry.host with
  | none => exact .ret _
  | some artifact =>
  refine (onHost_issues (.activate artifact) trivial).bind ?_
  rintro (_ | _)
  · exact .ret _
  refine (onHost_issues .restart trivial).bind ?_
  rintro (_ | _)
  · exact .ret _
  refine (onHost_issues .check trivial).bind ?_
  rintro (_ | status)
  · exact .ret _
  show (if !status.healthy then _ else _ : Prog FleetSig _).Issues (MovesOnly batch)
  split
  · exact .ret _
  · refine (onHost_issues (.reattach membership) hhost).bind ?_
    rintro (_ | _) <;> exact .ret _

theorem restoreArtifact_issues (prior : MultiHostRecord) :
    (plan.deploy.restoreArtifact prior entry).Issues (MovesOnly batch) := by
  unfold MultiHostDeploy.restoreArtifact
  dsimp only
  split
  · exact .ret _
  · refine (onHost_issues (.activate _) trivial).bind ?_
    rintro (_ | _)
    · exact .ret _
    refine (onHost_issues .restart trivial).bind ?_
    rintro (_ | _) <;> exact .ret _

theorem restoreRest_issues (hentry : entry ∈ batch) (prior : MultiHostRecord) (activated : Bool)
    (membership : LbMembership) :
    (restoreRest plan.deploy prior entry activated membership).Issues (MovesOnly batch) := by
  have hreattach : (plan.deploy.lb.reattach (plan.deploy.hostCtx entry) entry.host
      membership).Issues (MovesOnly batch) :=
    onHost_issues (.reattach membership) (List.mem_map_of_mem hentry)
  cases activated with
  | false =>
      refine hreattach.bind ?_
      rintro (_ | _) <;> exact .ret _
  | true =>
      refine (restoreArtifact_issues plan prior).bind ?_
      rintro (_ | _)
      · exact .ret _
      · refine hreattach.bind ?_
        rintro (_ | _) <;> exact .ret _

theorem restoreHost_issues (hentry : entry ∈ batch) (prior : MultiHostRecord)
    (runtime : RolloutRuntime) :
    (plan.deploy.restoreHost prior runtime entry).Issues (MovesOnly batch) := by
  rcases hprogress : runtime.progressOf entry.host with ⟨_ | membership, activated, reattached⟩
  · unfold MultiHostDeploy.restoreHost
    simp only [hprogress]
    exact .ret _
  · rw [restoreHost_eq plan prior hprogress]
    have hrest := restoreRest_issues plan hentry prior activated membership
    have hhost : entry.host ∈ batch.map HostEntry.host := List.mem_map_of_mem hentry
    split
    · refine (@onHost_issues entry (MovesOnly batch) .drain hhost).bind ?_
      rintro (_ | _)
      · exact .ret _
      · exact hrest
    · exact hrest

theorem restoreBatch_issues (prior : MultiHostRecord) (runtime : RolloutRuntime) :
    (plan.deploy.restoreBatch prior batch runtime).Issues (MovesOnly batch) :=
  (joinAll_issues fun _ hentry => restoreHost_issues plan hentry prior runtime).bind fun _ =>
    .ret _

theorem rolloutStep_forward_issues (prior : MultiHostRecord) (index : Nat) (ctx : StepContext)
    (runtime : RolloutRuntime) :
    ((plan.deploy.rolloutStep prior index batch).forward ctx runtime).Issues
      (MovesOnly batch) := by
  refine (joinAll_issues fun _ hentry => advanceHost_issues plan hentry _).bind fun results => ?_
  dsimp only
  split
  · exact .ret _
  · refine (restoreBatch_issues plan prior _).bind ?_
    rintro (_ | _) <;> exact .ret _

theorem rolloutStep_compensate_issues (prior : MultiHostRecord) (index : Nat) (ctx : StepContext)
    (runtime : RolloutRuntime) :
    ((plan.deploy.rolloutStep prior index batch).compensate ctx runtime).Issues
      (MovesOnly batch) :=
  (restoreBatch_issues plan prior runtime).bind fun _ => .ret _

theorem preflightStep_issues (ctx : StepContext) (runtime : RolloutRuntime) :
    (plan.deploy.preflightStep.forward ctx runtime).Issues (MovesOnly []) := by
  have hchecks : plan.deploy.runDatabaseChecks.Issues (MovesOnly []) := by
    refine plan.runDatabaseChecks_sequential.issues.mono ?_
    rintro c ⟨query, rfl⟩
    trivial
  refine Prog.Issues.bind (hchecks.bind ?_) fun _ => .ret _
  rintro (_ | _)
  · exact .ret _
  · refine (joinAll_issues fun entry _ => ?_).bind fun _ => .ret _
    refine (onHost_issues .status trivial).bind ?_
    rintro (_ | _) <;> exact .ret _

theorem fetchStep_issues (ctx : StepContext) (runtime : RolloutRuntime) :
    (plan.deploy.fetchStep.forward ctx runtime).Issues (MovesOnly []) := by
  refine (joinAll_issues fun entry _ => ?_).bind fun results => ?_
  · refine (onHost_issues .stage trivial).bind ?_
    rintro (_ | _) <;> exact .ret _
  · split <;> exact .ret _

theorem migrateStep_forward_issues (ctx : StepContext) (runtime : RolloutRuntime) :
    (plan.deploy.migrateStep.forward ctx runtime).Issues (MovesOnly []) := by
  refine (Prog.Issues.perform trivial).bind ?_
  rintro (_ | previous)
  · exact .ret _
  · refine (Prog.Issues.perform trivial).bind ?_
    rintro (_ | _) <;> exact .ret _

theorem migrateStep_compensate_issues (ctx : StepContext) (runtime : RolloutRuntime) :
    (plan.deploy.migrateStep.compensate ctx runtime).Issues (MovesOnly []) := by
  refine Prog.Issues.bind ?_ fun _ => .ret _
  unfold MultiHostDeploy.undoMigrate
  split
  · exact .ret _
  · split
    · refine (Prog.Issues.perform trivial).bind ?_
      rintro (_ | _) <;> exact .ret _
    · exact .ret _

theorem verifyStep_issues (ctx : StepContext) (runtime : RolloutRuntime) :
    (plan.deploy.verifyStep.forward ctx runtime).Issues (MovesOnly []) := by
  refine Prog.Issues.bind ((Prog.Issues.perform trivial).bind ?_) fun _ => .ret _
  rintro (_ | report)
  · exact .ret _
  dsimp only
  split
  · exact .ret _
  · refine (joinAll_issues fun entry _ => ?_).bind fun _ => .ret _
    refine (onHost_issues .check trivial).bind ?_
    rintro (_ | status)
    · exact .ret _
    · show (if status.healthy then _ else _ : Prog FleetSig _).Issues (MovesOnly [])
      split <;> exact .ret _

end Issues

/-! ## Where the hosts are between the steps -/

section Home

variable {r : RolloutRuntime} {t : Fleet} {batch : List HostEntry}

theorem Started.home (h : L.Started r t) : L.HomeOutside batch t := by
  intro e _ _
  rw [h.2]
  rfl

theorem Rolling.home {done waiting : List HostEntry} (h : L.Rolling done waiting r t)
    (hall : L.plan.inventory = done ++ waiting) : L.HomeOutside batch t := by
  intro e he _
  rw [hall] at he
  rcases List.mem_append.mp he with he | he
  · exact (h.pending e he).membership
  · exact (h.waiting e he).membership

/-- Where a failing batch restores its own hosts, no host is stuck. -/
theorem FailedAt.not_stuck (hself : L.RestoresItself) {f : Failure} (hf : L.FailedAt f)
    (e : HostEntry) : ¬L.Stuck f e := by
  rintro ⟨hown, hstuck⟩
  cases hf with
  | early _ _ => cases hown
  | batch hreached hfails => exact hstuck (hself hreached _ _ _ hfails e hown)
  | late _ _ => cases hown

theorem Undoing.home (hself : L.RestoresItself) {f : Failure} {done : List HostEntry}
    (h : L.Undoing f done r t) : L.HomeOutside batch t := by
  intro e he _
  by_cases hdone : e ∈ done
  · exact (h.pending e hdone).membership
  · exact (h.back e he hdone (h.failed.not_stuck hself e)).membership

theorem Owing.home (hself : L.RestoresItself) {done : List HostEntry} {failed : String}
    (h : L.Owing done failed r t) : L.HomeOutside batch t := by
  obtain ⟨f, -, hundo, -⟩ := h
  exact hundo.home hself

end Home

/-! ## The run -/

/-- A step that moves the hosts of one batch keeps the capacity. -/
theorem wp_capacity {α : Type} {batch : List HostEntry} (hbatch : L.Movable batch)
    {p : Prog FleetSig α} (hissues : p.Issues (MovesOnly batch)) {t : Fleet}
    (hhome : L.HomeOutside batch t) {Q : α → Fleet → Prop}
    (hp : wp (fleet L.oracle) Eq L.Order p Q t) : wp (fleet L.oracle) Eq L.Capacity p Q t := by
  have hsteps := hissues.wp_steps (h := fleet L.oracle)
    (fun c t hc ht => HomeOutside.step (L := L) hbatch hc ht) hhome
  refine wp_mono ?_ (fun _ _ h => h.1) (wp_and hp hsteps)
  rintro s c s' ⟨-, hbefore, hafter⟩
  exact ⟨hbefore.oneBatchOut hbatch, hafter.oneBatchOut hbatch⟩

theorem movable_batch {pre post : List (List HostEntry)} {batch : List HostEntry}
    (hbatches : L.batches = pre ++ batch :: post) : L.Movable batch := by
  refine .inr ?_
  rw [hbatches]
  exact List.mem_append_right _ List.mem_cons_self

/-- The rollout steps and the verify step move one batch at a time. -/
theorem capacity_batches (hself : L.RestoresItself) (ctx : StepContext)
    (pre post : List (List HostEntry)) (hbatches : L.batches = pre ++ post) :
    Compensable (fleet L.oracle) L.Capacity ctx L.Halted (L.Rolling pre.flatten post.flatten)
      (L.Owing pre.flatten)
      ((post.zipIdx pre.length).map
        (fun b => L.plan.deploy.rolloutStep L.prior (b.2 + 1) b.1) ++ [L.plan.deploy.verifyStep])
      L.Deployed := by
  have hinventory : L.plan.inventory = pre.flatten ++ post.flatten := by
    rw [← List.flatten_append, ← hbatches]
    exact (planBatches_flatten L.plan.strategy L.plan.inventory).symm
  induction post generalizing pre with
  | nil =>
      rw [List.flatten_nil, List.append_nil] at hinventory
      rw [List.flatten_nil, ← hinventory]
      refine .cons (V := fun _ _ _ => False) ?_ (fun _ _ _ h => h.elim) .nil
      intro r t h
      exact wp_capacity (.inl rfl) (verifyStep_issues L.plan ctx r)
        (h.home (by rw [List.append_nil])) (verify_forward h)
  | cons batch post ih =>
      have hnext : L.batches = (pre ++ [batch]) ++ post := by simp [hbatches]
      have hrest := ih (pre ++ [batch]) hnext (by simp [hinventory])
      rw [List.length_append, List.length_singleton, List.flatten_append, List.flatten_singleton]
        at hrest
      refine .cons ?_ ?_ hrest
      · intro r t h
        exact wp_capacity (movable_batch hbatches)
          (rolloutStep_forward_issues L.plan L.prior _ ctx r) (h.home hinventory)
          (rollout_forward hbatches h)
      · intro failed r t h
        exact wp_capacity (movable_batch hbatches)
          (rolloutStep_compensate_issues L.plan L.prior _ ctx r) (h.home hself)
          (rollout_compensate hbatches h)

/-- The steps of a deploy keep the capacity. -/
theorem capacity_steps (hself : L.RestoresItself) (ctx : StepContext) :
    Compensable (fleet L.oracle) L.Capacity ctx L.Halted L.Started L.Settled
      (L.plan.deploy.steps L.prior) L.Deployed := by
  have hbatches := capacity_batches hself ctx [] L.batches rfl
  rw [show L.batches.flatten = L.plan.inventory from planBatches_flatten _ _] at hbatches
  have hprobed : ∀ {n : Nat} {t : Fleet},
      (∀ e ∈ L.plan.inventory, Untouched (L.cell e) n (t.hosts e.host)) →
      L.HomeOutside [] t := fun hosts e he _ => (hosts e he).membership
  refine .cons (fun r t h => wp_capacity (.inl rfl) (preflightStep_issues L.plan ctx r) h.home
    (preflight_forward h)) (fun failed r t h => wp_ret.mpr h) ?_
  refine .cons (fun r t h => wp_capacity (.inl rfl) (fetchStep_issues L.plan ctx r)
    (hprobed h.hosts) (fetch_forward h)) (fun failed r t h => wp_ret.mpr h) ?_
  exact .cons (fun r t h => wp_capacity (.inl rfl) (migrateStep_forward_issues L.plan ctx r)
    (hprobed h.hosts) (migrate_forward h)) (fun failed r t h => wp_capacity (.inl rfl)
    (migrateStep_compensate_issues L.plan ctx r) (h.home hself) (migrate_compensate h)) hbatches

variable {σ : Type} {h : Handler StoreSig σ} {s : σ}

variable (L) in
/-- The store holds the ledger that the launch goes by. -/
def Reads (h : Handler StoreSig σ) (s : σ) : Prop :=
  ∀ snapshot, (h (.currentSnapshot L.key) s).1 = .ok snapshot →
    snapshot = L.store.snapshots L.key

/-- Every run keeps the capacity around each command to the fleet, whatever its store does. -/
theorem wp_run_capacity [CharTables] (hreads : L.Reads h s) (hself : L.RestoresItself) :
    wp (h.prod (fleet L.oracle)) Eq (Guarantee.inr L.Capacity) L.plan.deploy.run
      (fun _ _ => True) (s, L.start) := by
  refine wp_bind (wp_store.mpr ⟨trivial, ?_⟩)
  cases hsnapshot : (h (.currentSnapshot L.key) s).1 with
  | error error =>
      rw [show (h (.currentSnapshot L.plan.deploy.key) s).1 = _ from hsnapshot]
      exact wp_ret.mpr trivial
  | ok snapshot =>
  rw [show (h (.currentSnapshot L.plan.deploy.key) s).1 = _ from hsnapshot]
  dsimp only
  cases hprior : MultiHostDeploy.priorRecord snapshot with
  | none => exact wp_ret.mpr trivial
  | some prior =>
  have hL : L.prior = prior := by
    rw [hreads snapshot hsnapshot] at hprior
    simp [Launch.prior, hprior]
  subst hL
  refine wp_bind (wp_post ?_ (wp_runWithState_anyStore (capacity_steps hself ⟨L.key⟩)
    ⟨rfl, rfl⟩))
  rintro ⟨outcome | outcome, r⟩ w -
  · exact wp_ret.mpr trivial
  · dsimp only
    split
    · refine wp_bind (wp_store.mpr ⟨trivial, ?_⟩)
      split <;> exact wp_ret.mpr trivial
    · exact wp_ret.mpr trivial

/-- Whatever the strategy and the inventory, the batches are consecutive parts of the
inventory of at most the strategy's size. And whichever calls fail, in every schedule and over
every store, each state that a run passes through has at most one batch out of the pool,
provided that a batch that fails restores its own hosts: a compensation may fail. -/
theorem run_keepsCapacity [CharTables] (L : Launch) (h : Handler StoreSig σ) (s : σ) :
    Partitions L.plan.strategy L.plan.inventory
      (planBatches L.plan.strategy L.plan.inventory) ∧
    (L.Reads h s → L.RestoresItself → ∀ sched : List Bool,
      ∀ step ∈ (L.plan.deploy.run.exec (h.prod (fleet L.oracle)) sched (s, L.start)).steps,
        L.WithinCapacity step.before.2 ∧ L.WithinCapacity step.after.2) := by
  refine ⟨planBatches_partitions _ _, ?_⟩
  intro hreads hself sched step hstep
  have hguarantee := (wp_exec (wp_run_capacity hreads hself) sched).2
  have hhome : L.HomeOutside [] L.start := fun _ _ _ => rfl
  have hright : ∀ step ∈ (L.plan.deploy.run.exec (h.prod (fleet L.oracle)) sched
      (s, L.start)).steps, step.Right fun step => L.OneBatchOut step.after := by
    rintro ⟨before, c | c, ans, after⟩ hmem
    · trivial
    · exact (hguarantee _ hmem).2
  obtain ⟨hbefore, hafter⟩ :=
    forall_steps_of_right (hhome.oneBatchOut (.inl rfl)) hright step hstep
  exact ⟨hbefore.withinCapacity, hafter.withinCapacity⟩

end Launch

/-! ## Two hosts

The deploy of one host after the other, whose second host cannot be restarted. -/

namespace TwoHosts

open OneHost

/-- The second host. -/
def api : HostEntry :=
  ⟨⟨"web-2"⟩, "10.0.0.2"⟩

/-- The deploy. -/
def plan : FleetPlan :=
  { OneHost.plan with inventory := [web, api], distinct := by decide }

/-- The ledger of the deploy before. -/
def record : MultiHostRecord :=
  ⟨[(web.host, release "v1"), (api.host, release "v1")], some ⟨"0001"⟩⟩

/-- The launch. -/
def launch : Launch where
  plan := plan
  oracle := ⟨fun host => hostOracle (if host = api.host then [4] else []), dbOracle,
    fun _ q => answers q⟩
  store := MemoryStore.empty.setSnapshot plan.deploy.key record.encode
  start := start
  fresh := (OneHost.launch []).fresh
  freshDb := (OneHost.launch []).freshDb

theorem launch_priorArtifact {e : HostEntry} (he : e ∈ plan.inventory) :
    launch.priorArtifact e = some (release "v1") := by
  have hsnapshot : launch.store.snapshots launch.key = some record.encode := by
    simp [launch, Launch.key, MemoryStore.setSnapshot]
  have hprior : launch.prior = record := by
    rw [Launch.prior, hsnapshot, show MultiHostDeploy.priorRecord (some record.encode) =
      some record from MultiHostRecord.decode_encode record, Option.getD_some]
  rw [Launch.priorArtifact, hprior]
  simp only [plan, List.mem_cons, List.not_mem_nil, or_false] at he
  rcases he with rfl | rfl <;> decide

theorem launch_restoresItself : launch.RestoresItself := by
  intro _ pre batch post hfails e he
  have hinventory : e ∈ plan.inventory := by
    have hall := Launch.inventory_eq hfails.batches
    rw [show plan.inventory = launch.plan.inventory from rfl, hall]
    simp [he]
  unfold Launch.SelfRestores
  rw [launch_priorArtifact hinventory]
  simp only [plan, List.mem_cons, List.not_mem_nil, or_false] at hinventory
  rcases hinventory with rfl | rfl
  · rw [show launch.stage web = 5 by decide]
    exact ⟨by decide, by decide, by decide, by decide, by decide⟩
  · rw [show launch.stage api = 2 by decide]
    exact ⟨by decide, by decide, by decide, by decide, by decide⟩

end TwoHosts

/-- The second host fails and is restored, and then the first host is, one at a time. -/
theorem Launch.run_keepsCapacity_two [CharTables] : ∀ sched : List Bool,
    ∀ step ∈ (TwoHosts.launch.plan.deploy.run.exec
        (memoryStore.prod (fleet TwoHosts.launch.oracle)) sched
        (TwoHosts.launch.store, TwoHosts.launch.start)).steps,
      TwoHosts.launch.WithinCapacity step.before.2 ∧
        TwoHosts.launch.WithinCapacity step.after.2 :=
  (Launch.run_keepsCapacity TwoHosts.launch memoryStore TwoHosts.launch.store).2
    (fun _ hread => (Except.ok.inj hread).symm) TwoHosts.launch_restoresItself

end Fraisier.Core
