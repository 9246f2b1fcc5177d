import Fraisier.Core.Rollout

/-!
# A deploy about to start

A `Launch` is everything the course of a multi-host deploy depends on. Before a host is
advanced it has been probed and staged, so its advance starts with its third call; how
far it gets (`stage`) and whether it can be restored from there (`SelfRestores`) or
after a completed batch (`Restores`) is decided by its oracle.
-/

namespace Fraisier.Core

open Fraisier.Effect Fraisier.Saga

/-- A plan, the answers of the fleet, and the store and the fleet as the deploy finds
them. The logs record the deploy, so they start empty. -/
structure Launch where
  plan : FleetPlan
  oracle : FleetOracle
  store : MemoryStore
  start : Fleet
  fresh : ∀ host, (start.hosts host).log = []
  freshDb : start.db.log = []

namespace Launch

variable (L : Launch)

/-- The pair the deploy targets. -/
def key : FraiseKey :=
  L.plan.deploy.key

/-- The deploy gets as far as its saga: the ledger can be read and the lock is free. -/
def Admitted : Prop :=
  (MultiHostDeploy.priorRecord (L.store.snapshots L.key)).isSome = true ∧
    L.store.locked L.key = false

/-- The record the ledger holds, the one to roll back to. -/
def prior : MultiHostRecord :=
  (MultiHostDeploy.priorRecord (L.store.snapshots L.key)).getD .default

/-- The batches of the rollout. -/
def batches : List (List HostEntry) :=
  planBatches L.plan.strategy L.plan.inventory

/-- How a host answers. -/
def host (e : HostEntry) : HostOracle :=
  L.oracle.host e.host

/-- A host as the deploy finds it. -/
def cell (e : HostEntry) : HostCell :=
  L.start.hosts e.host

/-- The artifact the ledger names for a host. -/
def priorArtifact (e : HostEntry) : Option StagedArtifact :=
  L.prior.active.lookup e.host

/-- The artifact a host stages. -/
def artifact (e : HostEntry) : StagedArtifact :=
  (L.host e).staged 1

/-- How far the advance of a host gets. -/
def stage (e : HostEntry) : Nat :=
  stageReached (L.host e) 2

/-- A host that its own failing batch restores is restored. -/
def SelfRestores (e : HostEntry) : Prop :=
  RestoreOk (L.host e) (L.priorArtifact e) (L.stage e) (2 + advanceCalls (L.stage e))

/-- A host of a completed batch is restored when a later batch fails. -/
def Restores (e : HostEntry) : Prop :=
  RestoreOk (L.host e) (L.priorArtifact e) 5 7

/-- The database checks of the preflight pass. -/
def ChecksPass : Prop :=
  (L.plan.deploy.runDatabaseChecks.exec (fleet L.oracle) [] L.start).value = .ok ()

/-- Everything up to the migration succeeds. -/
structure RolloutReached : Prop where
  checks : L.ChecksPass
  probed : ∀ e ∈ L.plan.inventory, (L.host e).fault 0 = none
  staged : ∀ e ∈ L.plan.inventory, (L.host e).fault 1 = none
  read : L.oracle.db.fault 0 = none
  migrated : L.oracle.db.fault 1 = none

/-- The batch `b` is the first with a host that cannot be advanced. -/
structure FailsIn (pre : List (List HostEntry)) (b : List HostEntry)
    (post : List (List HostEntry)) : Prop where
  batches : L.batches = pre ++ b :: post
  advanced : ∀ batch ∈ pre, ∀ e ∈ batch, L.stage e = 5
  stopped : ∃ e ∈ b, L.stage e ≠ 5

/-- The rollout fails in a batch that cannot restore one of its own hosts, and the
earlier batches are restored all the same. -/
def Stranded (P : HostEntry → Prop) : Prop :=
  L.RolloutReached ∧ ∃ pre b post, L.FailsIn pre b post ∧
    (∀ batch ∈ pre, ∀ e ∈ batch, L.Restores e) ∧ ∃ e ∈ b, ¬ L.SelfRestores e ∧ P e

/-- Two batches that both are the first to fail are the same. -/
theorem FailsIn.unique {L : Launch} {pre pre' : List (List HostEntry)} {b b' : List HostEntry}
    {post post' : List (List HostEntry)} (h : L.FailsIn pre b post)
    (h' : L.FailsIn pre' b' post') : pre = pre' ∧ b = b' := by
  have hlist : pre ++ b :: post = pre' ++ b' :: post' := h.batches.symm.trans h'.batches
  have hsame : ∀ {pre pre' : List (List HostEntry)}, pre ++ b :: post = pre' ++ b' :: post' →
      (∀ batch ∈ pre, ∀ e ∈ batch, L.stage e = 5) →
      (∀ batch ∈ pre', ∀ e ∈ batch, L.stage e = 5) → pre = pre' ∧ b = b' := by
    intro pre
    induction pre with
    | nil =>
        rintro (_ | ⟨c, pre'⟩) hlist - hpre'
        · exact ⟨rfl, (List.cons.inj hlist).1⟩
        · obtain rfl : b = c := (List.cons.inj hlist).1
          obtain ⟨e, he, hstage⟩ := h.stopped
          exact absurd (hpre' b List.mem_cons_self e he) hstage
    | cons c pre ih =>
        rintro (_ | ⟨c', pre'⟩) hlist hpre hpre'
        · obtain rfl : c = b' := (List.cons.inj hlist).1
          obtain ⟨e, he, hstage⟩ := h'.stopped
          exact absurd (hpre c List.mem_cons_self e he) hstage
        · obtain ⟨rfl, htail⟩ := List.cons.inj hlist
          obtain ⟨rfl, hb⟩ := ih htail (fun batch hm => hpre batch (List.mem_cons_of_mem _ hm))
            fun batch hm => hpre' batch (List.mem_cons_of_mem _ hm)
          exact ⟨rfl, hb⟩
  exact hsame hlist h.advanced h'.advanced

/-! ## Where a deploy fails -/

/-- A failure: the step and the hosts of the batches before, in and after it. -/
structure Failure where
  step : String
  earlier : List HostEntry
  own : List HostEntry
  later : List HostEntry

/-- The failures a launch can run into. -/
inductive FailedAt : Failure → Prop where
  | early {step : String} (hstep : step ∈ ["preflight", "fetch", "migrate"])
      (hreached : ¬ L.RolloutReached) : FailedAt ⟨step, [], [], L.plan.inventory⟩
  | batch {pre : List (List HostEntry)} {b : List HostEntry} {post : List (List HostEntry)}
      (hreached : L.RolloutReached) (hfails : L.FailsIn pre b post) :
      FailedAt ⟨s!"rollout-{pre.length + 1}", pre.flatten, b, post.flatten⟩
  | late (hreached : L.RolloutReached) (hall : ∀ e ∈ L.plan.inventory, L.stage e = 5) :
      FailedAt ⟨"verify", L.plan.inventory, [], []⟩

/-- A host of the failing batch that the batch could not restore. -/
def Stuck (f : Failure) (e : HostEntry) : Prop :=
  e ∈ f.own ∧ ¬ L.SelfRestores e

/-- A failure strands a host when its batch cannot restore it and the earlier hosts can
be restored. -/
theorem FailedAt.stranded_iff {L : Launch} {f : Failure} (hf : L.FailedAt f)
    {P : HostEntry → Prop} :
    L.Stranded P ↔ (∀ e ∈ f.earlier, L.Restores e) ∧ ∃ e, L.Stuck f e ∧ P e := by
  cases hf with
  | early _ hreached =>
      refine iff_of_false (fun h => hreached h.1) ?_
      rintro ⟨-, e, ⟨he, -⟩, -⟩
      cases he
  | @batch pre b post hreached hfails =>
      constructor
      · rintro ⟨-, pre', b', post', hfails', hpre, e, he, hself, hP⟩
        obtain ⟨rfl, rfl⟩ := hfails.unique hfails'
        refine ⟨fun e he => ?_, e, ⟨he, hself⟩, hP⟩
        obtain ⟨batch, hbatch, he⟩ := List.mem_flatten.mp he
        exact hpre batch hbatch e he
      · rintro ⟨hpre, e, ⟨he, hself⟩, hP⟩
        exact ⟨hreached, pre, b, post, hfails,
          fun batch hbatch e he => hpre e (List.mem_flatten.mpr ⟨batch, hbatch, he⟩),
          e, he, hself, hP⟩
  | late _ hall =>
      refine iff_of_false ?_ ?_
      · rintro ⟨-, pre, b, post, hfails, -⟩
        obtain ⟨e, he, hstage⟩ := hfails.stopped
        have hin : e ∈ L.batches.flatten := by
          rw [hfails.batches]
          simp [he]
        rw [Launch.batches, planBatches_flatten] at hin
        exact hstage (hall e hin)
      · rintro ⟨-, e, ⟨he, -⟩, -⟩
        cases he

/-! ## A host in the course of a deploy -/

/-- A host that `n` calls have only looked at. -/
structure Untouched (c : HostCell) (n : Nat) (cell : HostCell) : Prop where
  active : cell.active = c.active
  running : cell.running = c.running
  membership : cell.membership = c.membership
  calls : cell.log.length = n
  quiet : ∀ event ∈ cell.log, event.Quiet

/-- A host whose advance has been completed. -/
structure Pending (e : HostEntry) (cell : HostCell) : Prop where
  active : cell.active = some (L.artifact e)
  running : cell.running = some (L.artifact e)
  membership : cell.membership = (L.cell e).membership
  log : ∃ before tail, (∀ event ∈ before, HostEvent.Quiet event) ∧ cell.log =
    before ++ .drained (L.cell e).membership :: .activated (L.artifact e) :: tail

/-- A host that is back where it was. -/
structure Back (e : HostEntry) (cell : HostCell) : Prop where
  artifact : cell.active = (L.cell e).active ∧ cell.running = (L.cell e).running ∨
    ∃ a, L.priorArtifact e = some a ∧ cell.active = some a ∧ cell.running = some a
  membership : cell.membership = (L.cell e).membership
  captured : ∀ membership, captured cell.log = some membership →
    membership = (L.cell e).membership
  restored : FullyRestored (L.priorArtifact e) cell.log

/-- What is left of a host that could not be restored: it was not activated, or it was and
is not fully restored. -/
def Dangling (e : HostEntry) (cell : HostCell) : Prop :=
  if 2 ≤ L.stage e then ¬ FullyRestored (L.priorArtifact e) cell.log else Inactive cell.log

variable {L}

theorem untouched_start (e : HostEntry) : Untouched (L.cell e) 0 (L.cell e) where
  active := rfl
  running := rfl
  membership := rfl
  calls := by simp [cell, L.fresh]
  quiet := by simp [cell, L.fresh]

/-- One more look at a host. -/
theorem Untouched.record {c cell : HostCell} {n : Nat} (h : Untouched c n cell)
    {event : HostEvent} (hevent : event.Quiet) : Untouched c (n + 1) (cell.record event) where
  active := h.active
  running := h.running
  membership := h.membership
  calls := by simp [HostCell.record, h.calls]
  quiet := by
    intro ev hev
    rcases List.mem_append.mp hev with hev | hev
    · exact h.quiet ev hev
    · rw [List.mem_singleton.mp hev]
      exact hevent

theorem Untouched.back {e : HostEntry} {n : Nat} {cell : HostCell}
    (h : Untouched (L.cell e) n cell) : L.Back e cell where
  artifact := .inl ⟨h.active, h.running⟩
  membership := h.membership
  captured := by simp [captured_of_quiet h.quiet]
  restored := fullyRestored_of_inactive (inactive_of_quiet h.quiet)

theorem Pending.captured {e : HostEntry} {cell : HostCell} (h : L.Pending e cell) :
    captured cell.log = some (L.cell e).membership := by
  obtain ⟨before, tail, hquiet, hlog⟩ := h.log
  simp [hlog, captured_append, captured_of_quiet hquiet, Core.captured]

/-- Looking at a host whose advance has been completed. -/
theorem Pending.record {e : HostEntry} {cell : HostCell} (h : L.Pending e cell)
    (event : HostEvent) : L.Pending e (cell.record event) where
  active := h.active
  running := h.running
  membership := h.membership
  log := by
    obtain ⟨before, tail, hquiet, hlog⟩ := h.log
    exact ⟨before, tail ++ [event], hquiet, by simp [HostCell.record, hlog]⟩

/-- A host that was activated once is fully restored by what follows. -/
theorem fullyRestored_iff {prior : Option StagedArtifact} {before tail : List HostEvent}
    {membership : LbMembership} {artifact : StagedArtifact}
    (hquiet : ∀ event ∈ before, HostEvent.Quiet event) :
    FullyRestored prior (before ++ .drained membership :: .activated artifact :: tail) ↔
      ∃ a, prior = some a ∧ [.activated a, .restarted, .reattached membership].Sublist tail := by
  have hbefore : Inactive (before ++ [.drained membership]) :=
    inactive_append (inactive_of_quiet hquiet) (by simp [Inactive])
  have hsplit : splitActivation (before ++ .drained membership :: .activated artifact :: tail) =
      some (before ++ [.drained membership], tail) := by
    rw [List.append_cons]
    exact splitActivation_append hbefore
  have hcaptured : Core.captured (before ++ [.drained membership]) = some membership := by
    simp [captured_append, captured_of_quiet hquiet, Core.captured]
  constructor
  · intro h
    obtain ⟨m, a, hm, hprior, hsub⟩ := h _ _ hsplit
    obtain rfl : membership = m := Option.some.inj (hcaptured.symm.trans hm)
    exact ⟨a, hprior, hsub⟩
  · rintro ⟨a, hprior, hsub⟩ before' after' hsplit'
    obtain ⟨rfl, rfl⟩ := Prod.mk.inj (Option.some.inj (hsplit.symm.trans hsplit'))
    exact ⟨membership, a, hcaptured, hprior, hsub⟩

/-- What an advance did not reattach afterwards is not restored. -/
theorem not_restored_of_detached {a : StagedArtifact} {membership : LbMembership}
    {xs ys : List HostEvent} (hx : Inactive xs) (hy : Detached ys) :
    ¬ [.activated a, .restarted, .reattached membership].Sublist (xs ++ ys) := by
  intro hsub
  obtain ⟨l₁, l₂, heq, hl₁, hl₂⟩ := List.sublist_append_iff.mp hsub
  cases l₁ with
  | nil =>
      obtain rfl : _ = l₂ := heq
      exact hy membership (hl₂.subset (by simp))
  | cons event l₁ =>
      obtain rfl : _ = event := (List.cons.inj heq).1
      exact hx a (hl₁.subset List.mem_cons_self)

/-- A completed advance leaves the host pending. -/
theorem Untouched.pending {e : HostEntry} {c cell : HostCell} (h : Untouched (L.cell e) 2 c)
    (hadvanced : Advanced (L.artifact e) c 5 cell) : L.Pending e cell where
  active := hadvanced.active
  running := hadvanced.running
  membership := (hadvanced.membership (.inr rfl)).trans h.membership
  log := by
    obtain ⟨tail, hlog, -⟩ := hadvanced.log
    exact ⟨c.log, tail, h.quiet, by rw [hlog, h.membership]⟩

/-- A pending host that was restored is back. -/
theorem Pending.back {e : HostEntry} {cell cell' : HostCell} (h : L.Pending e cell)
    (hrestored : RestoredFrom (L.priorArtifact e) (L.cell e).membership 5 cell cell') :
    L.Back e cell' := by
  obtain ⟨a, hprior, hactive, hrunning, tail, hlog, hsub⟩ := hrestored.restored (by omega)
  refine ⟨.inr ⟨a, hprior, hactive, hrunning⟩, hrestored.reattached (by omega), ?_, ?_⟩
  · intro m hm
    rw [hlog, captured_append, h.captured] at hm
    exact (Option.some.inj hm).symm
  · obtain ⟨before, rest, hquiet, hbefore⟩ := h.log
    have hwhole : cell'.log = before ++ .drained (L.cell e).membership ::
        .activated (L.artifact e) :: (rest ++ tail) := by simp [hlog, hbefore]
    rw [hwhole]
    exact (fullyRestored_iff hquiet).mpr ⟨a, hprior, hsub.trans (List.sublist_append_right ..)⟩

/-- A host of the failing batch that was restored is back. -/
theorem Untouched.back_of_restored {e : HostEntry} {c cell cell' : HostCell}
    {tail : List HostEvent} (h : Untouched (L.cell e) 2 c)
    (hadvanced : Advanced (L.artifact e) c (L.stage e) cell)
    (hrestored : RestoredFrom (L.priorArtifact e) (L.cell e).membership (L.stage e) cell cell')
    (hlog : cell'.log = cell.log ++ tail) (hnone : L.stage e = 0 → tail = [])
    (hinactive : L.stage e < 2 → Inactive tail) : L.Back e cell' := by
  have hcaptured : captured cell.log =
      if 1 ≤ L.stage e then some (L.cell e).membership else none := by
    rw [hadvanced.captured, captured_of_quiet h.quiet, h.membership]
    rfl
  refine ⟨?_, ?_, ?_, ?_⟩
  · rcases Nat.lt_or_ge (L.stage e) 2 with hlow | hhigh
    · refine .inl ⟨?_, ?_⟩
      · rw [(hrestored.kept hlow).1, hadvanced.active, if_neg (by omega), h.active]
      · rw [(hrestored.kept hlow).2, hadvanced.running, if_neg (by omega), h.running]
    · obtain ⟨a, hprior, hactive, hrunning, -⟩ := hrestored.restored hhigh
      exact .inr ⟨a, hprior, hactive, hrunning⟩
  · rcases Nat.eq_zero_or_pos (L.stage e) with hzero | hpos
    · rw [hrestored.untouched hzero, hadvanced.membership (.inl hzero), h.membership]
    · exact hrestored.reattached hpos
  · intro m hm
    rw [hlog, captured_append, hcaptured] at hm
    rcases Nat.eq_zero_or_pos (L.stage e) with hzero | hpos
    · simp [hzero, hnone hzero, Core.captured] at hm
    · rw [if_pos (show 1 ≤ L.stage e from hpos)] at hm
      exact (Option.some.inj hm).symm
  · rcases Nat.lt_or_ge (L.stage e) 2 with hlow | hhigh
    · have hadv := hadvanced.log
      rw [if_neg (by omega)] at hadv
      obtain ⟨mid, hmid, hmidInactive⟩ := hadv
      rw [hlog, hmid]
      exact fullyRestored_of_inactive (inactive_append
        (inactive_append (inactive_of_quiet h.quiet) hmidInactive) (hinactive hlow))
    · have hadv := hadvanced.log
      rw [if_pos hhigh] at hadv
      obtain ⟨mid, hmid, -⟩ := hadv
      obtain ⟨a, hprior, -, -, tail', hlog', hsub⟩ := hrestored.restored hhigh
      have hwhole : cell'.log = c.log ++ .drained (L.cell e).membership ::
          .activated (L.artifact e) :: (mid ++ tail') := by
        simp [hlog', hmid, h.membership]
      rw [hwhole]
      exact (fullyRestored_iff h.quiet).mpr ⟨a, hprior, hsub.trans (List.sublist_append_right ..)⟩

/-- A host of the failing batch that could not be restored dangles. -/
theorem Untouched.dangling {e : HostEntry} {c cell cell' : HostCell} {tail : List HostEvent}
    (h : Untouched (L.cell e) 2 c) (hadvanced : Advanced (L.artifact e) c (L.stage e) cell)
    (hlog : cell'.log = cell.log ++ tail) (hinactive : L.stage e < 2 → Inactive tail)
    (hdetached : Detached tail) : L.Dangling e cell' := by
  have hadv := hadvanced.log
  unfold Dangling
  split at hadv
  case isTrue hhigh =>
    obtain ⟨mid, hmid, hmidInactive⟩ := hadv
    rw [if_pos hhigh]
    have hwhole : cell'.log = c.log ++ .drained c.membership ::
        .activated (L.artifact e) :: (mid ++ tail) := by simp [hlog, hmid]
    rw [hwhole, fullyRestored_iff h.quiet]
    rintro ⟨a, -, hsub⟩
    exact not_restored_of_detached hmidInactive hdetached hsub
  case isFalse hlow =>
    obtain ⟨mid, hmid, hmidInactive⟩ := hadv
    rw [if_neg hlow, hlog, hmid]
    exact inactive_append (inactive_append (inactive_of_quiet h.quiet) hmidInactive)
      (hinactive (by omega))

end Launch

end Fraisier.Core
