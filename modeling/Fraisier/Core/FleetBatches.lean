import Mathlib.Data.List.Nodup
import Fraisier.Core.FleetSteps

/-!
# The batches of a rollout

One batch goes forward (`rollout_forward`), restoring itself when it fails, or is
compensated (`rollout_compensate`) after a later failure.
-/

namespace Fraisier.Core

open Fraisier.Effect Fraisier.Saga

namespace Launch

variable {L : Launch}

/-- Different entries of the inventory are different hosts. -/
theorem host_not_mem {batch : List HostEntry} (hsub : ∀ e ∈ batch, e ∈ L.plan.inventory)
    {e : HostEntry} (he : e ∈ L.plan.inventory) (hne : e ∉ batch) :
    e.host ∉ batch.map HostEntry.host := by
  intro hmem
  obtain ⟨e', he', hhost⟩ := List.mem_map.mp hmem
  exact hne (List.inj_on_of_nodup_map L.plan.distinct (hsub e' he') he hhost ▸ he')

/-- What restoring a host does to it. -/
structure Restoration (L : Launch) (e : HostEntry) (stage n : Nat) (cell cell' : HostCell) :
    Prop where
  restored : RestoreOk (L.host e) (L.priorArtifact e) stage n →
    RestoredFrom (L.priorArtifact e) (L.cell e).membership stage cell cell'
  log : ∃ tail, cell'.log = cell.log ++ tail ∧ (stage = 0 → tail = []) ∧
    (stage < 2 → Inactive tail) ∧
    (¬ RestoreOk (L.host e) (L.priorArtifact e) stage n → Detached tail)

/-- Restoring a batch succeeds when each of its hosts can be restored. -/
theorem restoreBatch_spec (stage n : HostEntry → Nat) {batch : List HostEntry}
    (hdistinct : (batch.map HostEntry.host).Nodup) {r : RolloutRuntime} {t : Fleet}
    (hdb : ∀ event ∈ t.db.log, DbEvent.isDown event = false)
    (hcalls : ∀ e ∈ batch, (t.hosts e.host).log.length = n e)
    (hprogress : ∀ e ∈ batch,
      r.progressOf e.host = progressAt (L.cell e).membership (stage e)) :
    wp (fleet L.oracle) Eq L.Order (L.plan.deploy.restoreBatch L.prior batch r) (fun v t' =>
      (v = .ok () ↔ ∀ e ∈ batch, RestoreOk (L.host e) (L.priorArtifact e) (stage e) (n e)) ∧
      (∀ e ∈ batch, L.Restoration e (stage e) (n e) (t.hosts e.host) (t'.hosts e.host)) ∧
      t'.db = t.db ∧
      ∀ host, host ∉ batch.map HostEntry.host → t'.hosts host = t.hosts host) t := by
  refine wp_bind (wp_post ?_ (wp_hosts hdistinct hdb fun e he =>
    restoreHost_spec L.plan L.prior (List.mem_map_of_mem he) (hcalls e he) (hprogress e he)))
  rintro results t' ⟨hresults, hdb', hout⟩
  refine wp_ret.mpr ⟨?_, fun e he => ?_, hdb', hout⟩
  · rw [failures_eq_ok, List.forall_mem_map]
    refine (forall₂_iff hresults ?_).symm
    rintro e (error | _) ⟨hiff, -⟩
    · simpa [Except.mapError, errorOf, host, priorArtifact] using hiff
    · simpa [Except.mapError, errorOf, host, priorArtifact] using hiff
  · obtain ⟨v, -, hiff, hrestored, tail, hlog, hnone, hinactive, hdetached⟩ :=
      exists_of_forall₂ hresults he
    exact ⟨fun hok => hrestored (hiff.mpr hok), tail, hlog, hnone, hinactive,
      fun hfail => hdetached fun hv => hfail (hiff.mp hv)⟩

/-- Advancing a batch takes each of its hosts as far as it goes. -/
theorem advanceBatch_spec {batch : List HostEntry} (hdistinct : (batch.map HostEntry.host).Nodup)
    {staged : List (HostId × StagedArtifact)} {t : Fleet}
    (hstaged : ∀ e ∈ batch, staged.lookup e.host = some (L.artifact e))
    (hdb : ∀ event ∈ t.db.log, DbEvent.isDown event = false)
    (hwaiting : ∀ e ∈ batch, Untouched (L.cell e) 2 (t.hosts e.host)) :
    wp (fleet L.oracle) Eq L.Order
      (Prog.joinAll (batch.map (L.plan.deploy.advanceHost staged))) (fun results t' =>
        List.Forall₂ (fun e v => (v.1 = .ok () ↔ L.stage e = 5) ∧
          v.2 = progressAt (L.cell e).membership (L.stage e) ∧
          Advanced (L.artifact e) (t.hosts e.host) (L.stage e) (t'.hosts e.host)) batch results ∧
        t'.db = t.db ∧
        ∀ host, host ∉ batch.map HostEntry.host → t'.hosts host = t.hosts host) t := by
  refine wp_hosts (Q := fun e (v : Except SagaError Unit × HostProgress) cell' =>
    (v.1 = .ok () ↔ L.stage e = 5) ∧ v.2 = progressAt (L.cell e).membership (L.stage e) ∧
    Advanced (L.artifact e) (t.hosts e.host) (L.stage e) cell') hdistinct hdb fun e he => ?_
  have hadvance := @advanceHost_spec L.plan L.oracle _ e (t.hosts e.host)
    (List.mem_map_of_mem he) _ _ (hstaged e he)
  rw [(hwaiting e he).calls, (hwaiting e he).membership] at hadvance
  exact hadvance

section Batch

variable {pre : List (List HostEntry)} {b : List HostEntry} {post : List (List HostEntry)}

/-- The inventory around a batch. -/
theorem inventory_eq (hbatches : L.batches = pre ++ b :: post) :
    L.plan.inventory = pre.flatten ++ (b ++ post.flatten) := by
  have hflatten := planBatches_flatten L.plan.strategy L.plan.inventory
  rw [show planBatches L.plan.strategy L.plan.inventory = _ from hbatches] at hflatten
  simpa using hflatten.symm

theorem distinct_batch (hbatches : L.batches = pre ++ b :: post) :
    (b.map HostEntry.host).Nodup := by
  have hsub : b.Sublist L.plan.inventory := by
    rw [inventory_eq hbatches]
    exact (List.sublist_append_left b _).trans (List.sublist_append_right _ _)
  exact L.plan.distinct.sublist (hsub.map _)

/-- A host before or after a batch is not one of its hosts. -/
theorem host_not_mem_batch (hbatches : L.batches = pre ++ b :: post) {e : HostEntry}
    (he : e ∈ pre.flatten ∨ e ∈ post.flatten) : e.host ∉ b.map HostEntry.host := by
  have hinventory := inventory_eq hbatches
  have hnodup := L.plan.distinct.of_map
  rw [hinventory, List.nodup_append, List.nodup_append] at hnodup
  obtain ⟨-, ⟨-, -, hpost⟩, hpre⟩ := hnodup
  refine host_not_mem (L := L) (fun e' he' => by simp [hinventory, he']) ?_ fun heb => ?_
  · rw [hinventory, List.mem_append, List.mem_append]
    exact he.imp_right .inr
  · rcases he with he | he
    · exact hpre e he e (List.mem_append_left _ heb) rfl
    · exact hpost e heb e he rfl

/-- The rollback begins with the failing batch restored as far as it can be. -/
theorem Rolling.undoing (hbatches : L.batches = pre ++ b :: post) {r r' : RolloutRuntime}
    {t t' t'' : Fleet} (h : L.Rolling pre.flatten (b ++ post.flatten) r t)
    (hstopped : ∃ e ∈ b, L.stage e ≠ 5)
    (hadvanced : ∀ e ∈ b,
      Advanced (L.artifact e) (t.hosts e.host) (L.stage e) (t'.hosts e.host))
    (hrestored : ∀ e ∈ b, L.Restoration e (L.stage e) (2 + advanceCalls (L.stage e))
      (t'.hosts e.host) (t''.hosts e.host))
    (hout : ∀ host, host ∉ b.map HostEntry.host → t''.hosts host = t.hosts host)
    (hprogress : ∀ host, host ∉ b.map HostEntry.host → r'.progressOf host = r.progressOf host)
    (hunrecoverable : r'.unrecoverable.isSome = true ↔ ∃ e ∈ b, ¬ L.SelfRestores e) :
    L.Undoing ⟨s!"rollout-{pre.length + 1}", pre.flatten, b, post.flatten⟩ pre.flatten r' t'' := by
  have hwaiting : ∀ e ∈ post.flatten, Untouched (L.cell e) 2 (t''.hosts e.host) := by
    intro e he
    rw [hout _ (host_not_mem_batch hbatches (.inr he))]
    exact h.waiting e (List.mem_append_right _ he)
  have hown : ∀ e ∈ b, Untouched (L.cell e) 2 (t.hosts e.host) := fun e he =>
    h.waiting e (List.mem_append_left _ he)
  refine ⟨.batch h.reached ⟨hbatches, ?_, hstopped⟩, fun _ => id, ?_, ?_, ?_, ?_, ?_, ?_, ?_, ?_⟩
  · exact fun batch hbatch e he => h.stage e (List.mem_flatten.mpr ⟨batch, hbatch, he⟩)
  · intro e he hdone hstuck
    rw [inventory_eq hbatches, List.mem_append, List.mem_append] at he
    rcases he with he | he | he
    · exact absurd he hdone
    · obtain ⟨tail, hlog, hnone, hinactive, -⟩ := (hrestored e he).log
      have hself : L.SelfRestores e := by
        by_contra hself
        exact hstuck ⟨he, hself⟩
      exact (hown e he).back_of_restored (hadvanced e he) ((hrestored e he).restored hself) hlog
        hnone hinactive
    · exact (hwaiting e he).back
  · rintro e ⟨he, hself⟩
    obtain ⟨tail, hlog, -, hinactive, hdetached⟩ := (hrestored e he).log
    exact (hown e he).dangling (hadvanced e he) hlog hinactive (hdetached hself)
  · exact fun e he => (hwaiting e he).quiet
  · intro e he
    rw [hout _ (host_not_mem_batch hbatches (.inl he))]
    exact h.pending e he
  · intro e he
    rw [hprogress _ (host_not_mem_batch hbatches (.inl he))]
    exact h.progress e he
  · intro _ e he
    rw [hout _ (host_not_mem_batch hbatches (.inl he))]
    exact h.calls e he
  · exact fun _ e he hdone => absurd he hdone
  · exact hunrecoverable

/-- The database has been migrated and nothing else. -/
theorem not_isDown_of_migrated {t : Fleet} (h : t.db = L.migrated) :
    ∀ event ∈ t.db.log, DbEvent.isDown event = false := by
  simp [h, migrated, DbEvent.isDown]

/-- A batch is advanced, or it fails and has restored what it can of itself. -/
theorem rollout_forward {ctx : StepContext} (hbatches : L.batches = pre ++ b :: post)
    {r : RolloutRuntime} {t : Fleet} (h : L.Rolling pre.flatten (b ++ post.flatten) r t) :
    wp (fleet L.oracle) Eq L.Order
      ((L.plan.deploy.rolloutStep L.prior (pre.length + 1) b).forward ctx r)
      (StepPost (L.Rolling (pre.flatten ++ b) post.flatten)
        (L.Owing pre.flatten s!"rollout-{pre.length + 1}")) t := by
  have hdistinct := distinct_batch hbatches
  have hinventory := inventory_eq hbatches
  have hstaged : ∀ e ∈ b, r.staged.lookup e.host = some (L.artifact e) := fun e he =>
    h.staged e (by simp [hinventory, he])
  refine wp_bind (wp_post ?_ (advanceBatch_spec hdistinct hstaged
    (not_isDown_of_migrated h.db) fun e he => h.waiting e (List.mem_append_left _ he)))
  rintro results t' ⟨hresults, hdb', hout⟩
  have hadvanced : ∀ e ∈ b,
      Advanced (L.artifact e) (t.hosts e.host) (L.stage e) (t'.hosts e.host) := by
    intro e he
    obtain ⟨v, -, hv⟩ := exists_of_forall₂ hresults he
    exact hv.2.2
  obtain ⟨hown, hothers⟩ := progressOf_mergeProgress r hdistinct
    (hresults.imp fun e v hv => hv.2.1)
  have hok : (∀ e ∈ b, L.stage e = 5) ↔
      ∀ v ∈ results, errorOf (v.1.mapError toString) = none := by
    refine forall₂_iff hresults ?_
    rintro e ⟨error | _, progress⟩ ⟨hiff, -⟩
    · simpa [Except.mapError, errorOf] using hiff
    · simpa [Except.mapError, errorOf] using hiff
  cases hfailures : failures "rollout"
      (fun n hosts => s!"{n} host(s) failed to advance: {hosts}")
      (results.map fun v => v.1.mapError toString) with
  | ok _ =>
      have hstage := hok.mpr (List.forall_mem_map.mp (failures_eq_ok.mp hfailures))
      refine wp_ret.mpr ⟨h.reached, ?_, ?_, ?_, ?_, ?_, h.staged, h.previous, h.next,
        h.recoverable, hdb'.trans h.db⟩
      · exact fun e he => (List.mem_append.mp he).elim (h.stage e) (hstage e)
      · intro e he
        rcases List.mem_append.mp he with he | he
        · rw [hout _ (host_not_mem_batch hbatches (.inl he))]
          exact h.pending e he
        · have hfull := hadvanced e he
          rw [hstage e he] at hfull
          exact (h.waiting e (List.mem_append_left _ he)).pending hfull
      · intro e he
        rcases List.mem_append.mp he with he | he
        · rw [hout _ (host_not_mem_batch hbatches (.inl he))]
          exact h.calls e he
        · rw [(hadvanced e he).calls, hstage e he,
            (h.waiting e (List.mem_append_left _ he)).calls]
          rfl
      · intro e he
        rcases List.mem_append.mp he with he | he
        · rw [hothers _ (host_not_mem_batch hbatches (.inl he))]
          exact h.progress e he
        · rw [hown e he, hstage e he]
      · intro e he
        rw [hout _ (host_not_mem_batch hbatches (.inr he))]
        exact h.waiting e (List.mem_append_right _ he)
  | error error =>
      have hstopped : ∃ e ∈ b, L.stage e ≠ 5 := by
        by_contra hnone
        have hstage : ∀ e ∈ b, L.stage e = 5 := by
          intro e he
          by_contra hne
          exact hnone ⟨e, he, hne⟩
        rw [failures_eq_ok.mpr (List.forall_mem_map.mpr (hok.mp hstage))] at hfailures
        cases hfailures
      have hcalls : ∀ e ∈ b,
          (t'.hosts e.host).log.length = 2 + advanceCalls (L.stage e) := by
        intro e he
        rw [(hadvanced e he).calls, (h.waiting e (List.mem_append_left _ he)).calls]
      refine wp_bind (wp_post ?_ (restoreBatch_spec L.stage
        (fun e => 2 + advanceCalls (L.stage e)) hdistinct
        (not_isDown_of_migrated (hdb'.trans h.db)) hcalls hown))
      rintro v t'' ⟨hrestores, hrestored, hdb'', hout''⟩
      have hsame : ∀ host, host ∉ b.map HostEntry.host → t''.hosts host = t.hosts host :=
        fun host hhost => (hout'' host hhost).trans (hout host hhost)
      have hlog : t''.db.log = L.migrated.log ++ [] := by
        rw [hdb'', hdb', h.db, List.append_nil]
      cases v with
      | ok _ =>
          refine wp_ret.mpr ⟨_, rfl, h.undoing hbatches hstopped hadvanced hrestored hsame hothers
            ?_, h.previous, [], hlog, fun _ => rfl, by simp⟩
          have hall : ∀ e ∈ b, L.SelfRestores e := hrestores.mp rfl
          refine iff_of_false (by simp [MultiHostDeploy.mergeProgress, h.recoverable]) ?_
          rintro ⟨e, he, hself⟩
          exact hself (hall e he)
      | error restoreError =>
          refine wp_ret.mpr ⟨_, rfl, h.undoing hbatches hstopped hadvanced hrestored hsame hothers
            ?_, h.previous, [], hlog, fun _ => rfl, by simp⟩
          refine iff_of_true (by simp [MultiHostDeploy.mergeProgress, h.recoverable]) ?_
          by_contra hnone
          have hall : ∀ e ∈ b, L.SelfRestores e := by
            intro e he
            by_contra hself
            exact hnone ⟨e, he, hself⟩
          cases hrestores.mpr hall

/-- The hosts in and after a failure are not among those before it. -/
theorem FailedAt.not_earlier {f : Failure} (hf : L.FailedAt f) {e : HostEntry}
    (he : e ∈ f.own ∨ e ∈ f.later) : e ∈ L.plan.inventory ∧ e ∉ f.earlier := by
  cases hf with
  | early _ _ => exact ⟨he.resolve_left List.not_mem_nil, List.not_mem_nil⟩
  | @batch pre b post _ hfails =>
      have hinventory := inventory_eq hfails.batches
      have hnodup := L.plan.distinct.of_map
      have hin : e ∈ b ++ post.flatten := List.mem_append.mpr he
      rw [hinventory, List.nodup_append] at hnodup
      refine ⟨?_, fun hearlier => hnodup.2.2 e hearlier e hin rfl⟩
      rw [hinventory]
      exact List.mem_append_right _ hin
  | late _ _ => exact he.elim (absurd · List.not_mem_nil) (absurd · List.not_mem_nil)

theorem Owing.not_isDown {done : List HostEntry} {failed : String} {r : RolloutRuntime}
    {t : Fleet} (h : L.Owing done failed r t) :
    ∀ event ∈ t.db.log, DbEvent.isDown event = false := by
  obtain ⟨f, -, -, -, tail, hlog, -, htail⟩ := h
  intro event hevent
  rw [hlog] at hevent
  rcases List.mem_append.mp hevent with hevent | hevent
  · exact not_isDown_of_migrated (L := L) (t := ⟨L.start.hosts, L.migrated, 0⟩) rfl event hevent
  · exact (htail event hevent).2

/-- A completed batch is restored, or the rollback stops at it. -/
theorem rollout_compensate {ctx : StepContext} (hbatches : L.batches = pre ++ b :: post)
    {failed : String} {r : RolloutRuntime} {t : Fleet} (h : L.Owing (pre.flatten ++ b) failed r t) :
    wp (fleet L.oracle) Eq L.Order
      ((L.plan.deploy.rolloutStep L.prior (pre.length + 1) b).compensate ctx r)
      (StepPost (L.Owing pre.flatten failed) L.Halted) t := by
  have hdown := h.not_isDown
  obtain ⟨f, hstep, hundo, hprevious, tail, hlog, hnone, hquiet⟩ := h
  have hinventory := inventory_eq hbatches
  have hin : ∀ e ∈ b, e ∈ L.plan.inventory := fun e he => by simp [hinventory, he]
  refine wp_bind (wp_post ?_ (restoreBatch_spec (fun _ => 5)
    (fun e => (t.hosts e.host).log.length) (distinct_batch hbatches) hdown (fun _ _ => rfl)
    fun e he => hundo.progress e (List.mem_append_right _ he)))
  rintro v t' ⟨hiff, hrestored, hdb', hout⟩
  have hseven : f.own ≠ [] → ∀ e ∈ b, (t.hosts e.host).log.length = 7 := fun hown e he =>
    hundo.calls hown e (List.mem_append_right _ he)
  -- the failing batch and the ones after it are not restored here
  have hkept : ∀ e, e ∈ f.own ∨ e ∈ f.later → t'.hosts e.host = t.hosts e.host := by
    intro e he
    obtain ⟨hmem, hearlier⟩ := hundo.failed.not_earlier he
    exact hout _ (host_not_mem hin hmem fun heb =>
      hearlier (hundo.earlier e (List.mem_append_right _ heb)))
  cases v with
  | error error =>
      refine wp_ret.mpr (halted_of_not_stranded fun P hstranded => ?_)
      obtain ⟨hrestores, e, hstuck, -⟩ := hundo.failed.stranded_iff.mp hstranded
      have hall : ∀ e ∈ b, RestoreOk (L.host e) (L.priorArtifact e) 5
          (t.hosts e.host).log.length := by
        intro e he
        rw [hseven (List.ne_nil_of_mem hstuck.1) e he]
        exact hrestores e (hundo.earlier e (List.mem_append_right _ he))
      cases hiff.mpr hall
  | ok _ =>
      have hall := hiff.mp rfl
      refine wp_ret.mpr ⟨f, hstep, ⟨hundo.failed, ?_, ?_, ?_, ?_, ?_, ?_, ?_, ?_,
        hundo.unrecoverable⟩, hprevious, tail, by rw [hdb', hlog], hnone, hquiet⟩
      · exact fun e he => hundo.earlier e (List.mem_append_left _ he)
      · intro e he hdone hstuck
        by_cases heb : e ∈ b
        · exact (hundo.pending e (List.mem_append_right _ heb)).back
            ((hrestored e heb).restored (hall e heb))
        · rw [hout _ (host_not_mem hin he heb)]
          exact hundo.back e he (fun hmem => (List.mem_append.mp hmem).elim hdone heb) hstuck
      · intro e hstuck
        rw [hkept e (.inl hstuck.1)]
        exact hundo.dangling e hstuck
      · intro e he
        rw [hkept e (.inr he)]
        exact hundo.later e he
      · intro e he
        rw [hout _ (host_not_mem_batch hbatches (.inl he))]
        exact hundo.pending e (List.mem_append_left _ he)
      · exact fun e he => hundo.progress e (List.mem_append_left _ he)
      · intro hown e he
        rw [hout _ (host_not_mem_batch hbatches (.inl he))]
        exact hundo.calls hown e (List.mem_append_left _ he)
      · intro hown e he hdone
        by_cases heb : e ∈ b
        · have hok := hall e heb
          rw [hseven hown e heb] at hok
          exact hok
        · exact hundo.restores hown e he fun hmem => (List.mem_append.mp hmem).elim hdone heb

end Batch

end Launch

end Fraisier.Core
