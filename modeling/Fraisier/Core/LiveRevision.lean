import Fraisier.Core.LedgerCalls
import Fraisier.Effect.Conditions
import Fraisier.Saga.Rule

/-!
# The revision a commit records

A migration adapter tracks the live revision when its answers say where the database is:
`currentRevision` where it was, `up` where it went, unless it reports nothing and nothing
moved. A deploy over such an adapter records the live revision when it commits, whatever
else its world does (`SingleHostDeploy.wp_records` and `MultiHostDeploy.wp_records`).
-/

namespace Fraisier.Core

open Fraisier.Effect Fraisier.Saga

variable {T : Sig} {σ : Type}

/-- What is looked at in a state: the live revision, and whether the run kept so far to
what is assumed of it. -/
structure LiveView (σ : Type) where
  live : σ → Option Revision
  good : σ → Prop

namespace LiveView

variable (v : LiveView σ)

/-- The live revision stays as it is. -/
def Keeps (s s' : σ) : Prop :=
  v.good s' → v.good s ∧ v.live s' = v.live s

/-- A command that leaves the live revision alone. -/
def Quiet (h : Handler T σ) (c : T.Cmd) : Prop :=
  ∀ s, v.Keeps s (h c s).2

/-- A revision that is the live one. -/
def Recorded (revision : Option Revision) (s : σ) : Prop :=
  v.good s → revision = v.live s

/-- A migration adapter whose answers say where the database is. -/
structure Tracked (h : Handler T σ) (Ctx : AdapterCtx → Prop) (m : MigrationAdapter T) :
    Prop where
  current : ∀ ctx, Ctx ctx → ∀ s, wp h Eq Guarantee.any (m.currentRevision ctx)
    (fun r s' => ∀ revision, r = .ok revision → v.good s' →
      v.good s ∧ revision = v.live s ∧ v.live s' = v.live s) s
  up : ∀ ctx, Ctx ctx → ∀ target s, wp h Eq Guarantee.any (m.up ctx target)
    (fun r s' => ∀ outcome, r = .ok outcome → v.good s' →
      v.good s ∧ v.live s' = outcome.toRevision.or (v.live s)) s
  downTo : ∀ ctx, Ctx ctx → ∀ target s, wp h Eq Guarantee.any (m.downTo ctx target)
    (fun r s' => ∀ outcome, r = .ok outcome → v.good s' → v.good s ∧ v.live s' = some target) s
  verify : ∀ ctx, Ctx ctx → ∀ s, wp h Eq Guarantee.any (m.verify ctx)
    (fun r s' => ∀ report, r = .ok report → report.ok = true → v.Keeps s s') s

variable {v}

theorem Keeps.refl (s : σ) : v.Keeps s s :=
  fun hgood => ⟨hgood, rfl⟩

/-- What keeps the live revision twice has kept it. -/
theorem Keeps.trans {s s' s'' : σ} (h : v.Keeps s s') (h' : v.Keeps s' s'') : v.Keeps s s'' := by
  intro hgood
  obtain ⟨hgood', hlive'⟩ := h' hgood
  obtain ⟨hstart, hlive⟩ := h hgood'
  exact ⟨hstart, hlive'.trans hlive⟩

/-- What is recorded stays the live revision as long as that is kept. -/
theorem Recorded.keep {revision : Option Revision} {s s' : σ} (h : v.Recorded revision s)
    (hkeeps : v.Keeps s s') : v.Recorded revision s' := by
  intro hgood
  obtain ⟨hgood', hlive⟩ := hkeeps hgood
  rw [hlive]
  exact h hgood'

/-- An adapter that is tracked in some contexts is so in fewer. -/
theorem Tracked.mono {h : Handler T σ} {Ctx Ctx' : AdapterCtx → Prop} {m : MigrationAdapter T}
    (htracked : v.Tracked h Ctx m) (hCtx : ∀ ctx, Ctx' ctx → Ctx ctx) : v.Tracked h Ctx' m where
  current ctx hctx := htracked.current ctx (hCtx ctx hctx)
  up ctx hctx := htracked.up ctx (hCtx ctx hctx)
  downTo ctx hctx := htracked.downTo ctx (hCtx ctx hctx)
  verify ctx hctx := htracked.verify ctx (hCtx ctx hctx)

section Rules

variable {h : Handler T σ}

/-- A program that issues quiet commands only keeps the live revision. -/
theorem wp_keeps {α : Type} {p : Prog T α} (hp : p.Issues (v.Quiet h)) (s : σ) :
    wp h Eq Guarantee.any p (fun _ s' => v.Keeps s s') s :=
  hp.wp (I := v.Keeps s) (fun _ s' hquiet hs' => hs'.trans (hquiet s')) (.refl s)

end Rules

end LiveView

/-! ## The single-host deploy -/

namespace SingleHostDeploy

variable (d : SingleHostDeploy T)

/-- The contexts the migration adapter is called with outside a rehearsal. -/
def Called (ctx : AdapterCtx) : Prop :=
  ∃ workdir, ctx = { d.callCtx with workdir := workdir }

/-- The axes that run after the migration do not touch the database. -/
structure Apart (P : T.Cmd → Prop) : Prop where
  activate : ∀ ctx host artifact, (d.artifact.activate ctx host artifact).Issues P
  restart : ∀ ctx host, (d.service.restart ctx host).Issues P
  health : ∀ ctx host, (d.health.check ctx host).Issues P

variable {d} {h : Handler T σ} {v : LiveView σ}

/-- Adapters that issue commands of a kind issue commands of a wider one. -/
theorem Apart.mono {P P' : T.Cmd → Prop} (hapart : d.Apart P) (hP : ∀ c, P c → P' c) :
    d.Apart P' where
  activate ctx host artifact := (hapart.activate ctx host artifact).mono hP
  restart ctx host := (hapart.restart ctx host).mono hP
  health ctx host := (hapart.health ctx host).mono hP

/-- A run state with the live revision as the one to record. -/
def Migrated (v : LiveView σ) (runtime : DeployRuntime) (s : σ) : Prop :=
  v.Recorded runtime.newRevision s

/-- The revision that a migration stores in the runtime is live. -/
theorem runMigrate_records (htracked : v.Tracked h d.Called d.migration)
    (runtime : DeployRuntime) (s : σ) :
    wp h Eq Guarantee.any (d.runMigrate runtime) (StepPost (Migrated v) fun _ _ => True) s := by
  have hctx : wp h Eq Guarantee.any (d.migrationCtx runtime) (fun ctx _ => d.Called ctx) s := by
    unfold migrationCtx
    split
    · exact wp_ret.mpr ⟨d.callCtx.workdir, rfl⟩
    · refine wp_bind (wp_any fun isDir s' => ?_)
      exact wp_ite (fun _ => wp_ret.mpr ⟨_, rfl⟩) fun _ => wp_ret.mpr ⟨d.callCtx.workdir, rfl⟩
  refine wp_bind (wp_post ?_ hctx)
  intro ctx s₁ hcalled
  refine wp_bind (wp_post ?_ (htracked.current ctx hcalled s₁))
  rintro (error | previous) s₂ hprevious
  · exact wp_ret.mpr trivial
  refine wp_bind ?_
  show wp _ _ _ (d.moveDatabase ctx previous) _ _
  unfold moveDatabase
  split
  · rename_i target _
    refine wp_bind (wp_post ?_ (htracked.downTo ctx hcalled target s₂))
    rintro (error | outcome) s₃ hdown
    · exact wp_ret.mpr (wp_ret.mpr trivial)
    · refine wp_ret.mpr (wp_ret.mpr fun hgood => ?_)
      exact (hdown outcome rfl hgood).2.symm
  · refine wp_bind (wp_post ?_ (htracked.up ctx hcalled d.target s₂))
    rintro (error | outcome) s₃ hup
    · exact wp_ret.mpr (wp_ret.mpr trivial)
    · refine wp_ret.mpr (wp_ret.mpr fun hgood => ?_)
      obtain ⟨hgood₂, hlive⟩ := hup outcome rfl hgood
      obtain ⟨-, hread, hsame⟩ := hprevious previous rfl hgood₂
      rw [hlive, hsame, ← hread]

/-- A step that does not touch the database keeps what is to be recorded. -/
theorem keeping_records {action : Prog T (Except SagaError Unit)} {runtime : DeployRuntime} {s : σ}
    (haction : wp h Eq Guarantee.any action (fun r s' => r = .ok () → v.Keeps s s') s)
    (hs : Migrated v runtime s) :
    wp h Eq Guarantee.any (keeping runtime action) (StepPost (Migrated v) fun _ _ => True) s := by
  refine wp_bind (wp_post ?_ haction)
  rintro (error | _) s' hkeeps
  · exact wp_ret.mpr trivial
  · exact wp_ret.mpr (hs.keep (hkeeps rfl))

/-- Verification that passes keeps the live revision. -/
theorem runVerify_keeps (htracked : v.Tracked h d.Called d.migration) (s : σ) :
    wp h Eq Guarantee.any d.runVerify (fun r s' => r = .ok () → v.Keeps s s') s := by
  refine wp_bind (wp_post ?_ (htracked.verify d.callCtx ⟨d.callCtx.workdir, rfl⟩ s))
  rintro (error | report) s' hkeeps
  · exact wp_ret.mpr (by rintro ⟨⟩)
  · exact wp_ite (fun hok => wp_ret.mpr fun _ => hkeeps report rfl hok)
      fun _ => wp_ret.mpr (by rintro ⟨⟩)

/-- After all steps the revision in the runtime is live. Nothing is said of what is taken back. -/
theorem compensable_records (htracked : v.Tracked h d.Called d.migration)
    (hapart : d.Apart (v.Quiet h)) (prior : DeployRecord) (ctx : StepContext) :
    Compensable h Guarantee.any ctx (fun _ _ => True) (fun _ _ => True) (fun _ _ _ => True)
      (d.steps prior) (Migrated v) := by
  have hquiet : ∀ {action : Prog T (Except SagaError Unit)} {runtime s},
      action.Issues (v.Quiet h) → Migrated v runtime s →
      wp h Eq Guarantee.any (keeping runtime action) (StepPost (Migrated v) fun _ _ => True) s :=
    fun haction hs => keeping_records (wp_post (fun _ _ hkeeps _ => hkeeps)
      (LiveView.wp_keeps haction _)) hs
  have hactivate : ∀ runtime, (d.runActivate runtime).Issues (v.Quiet h) := by
    intro runtime
    unfold runActivate
    split
    · exact .ret _
    · refine (hapart.activate _ _ _).bind ?_
      rintro (_ | _) <;> exact .ret _
  have hrestart : d.runRestart.Issues (v.Quiet h) := by
    refine (hapart.restart _ _).bind ?_
    rintro (_ | _) <;> exact .ret _
  have hhealth : d.runHealth.Issues (v.Quiet h) := by
    refine (hapart.health _ _).bind ?_
    rintro (_ | status)
    · exact .ret _
    · show (if status.healthy then _ else _ : Prog T (Except SagaError Unit)).Issues _
      split <;> exact .ret _
  -- nothing is assumed of the steps before the migration, nor of any compensation
  have hany : ∀ {p : Prog T (Except SagaError Unit × DeployRuntime)} {s},
      wp h Eq Guarantee.any p (StepPost (fun _ _ => True) fun _ _ => True) s :=
    wp_any fun a _ => by rcases a with ⟨_ | _, _⟩ <;> trivial
  refine .cons (V := fun _ _ _ => True) (fun _ _ _ => hany) (fun _ _ _ _ => hany) ?_
  refine .cons (V := fun _ _ _ => True) (fun _ _ _ => hany) (fun _ _ _ _ => hany) ?_
  refine .cons (V := fun _ _ _ => True) (fun r s _ => runMigrate_records htracked r s)
    (fun _ _ _ _ => hany) ?_
  refine .cons (V := fun _ _ _ => True) (fun r s hs => hquiet (hactivate r) hs)
    (fun _ _ _ _ => hany) ?_
  refine .cons (V := fun _ _ _ => True) (fun r s hs => hquiet hrestart hs)
    (fun _ _ _ _ => hany) ?_
  refine .cons (V := fun _ _ _ => True) (fun r s hs => hquiet hhealth hs)
    (fun _ _ _ _ => hany) ?_
  exact .cons (V := fun _ _ _ => True)
    (fun r s hs => keeping_records (runVerify_keeps htracked s) hs) (fun _ _ _ _ => hany) .nil

/-- A single-host deploy that commits leaves the live revision in the ledger. -/
theorem wp_records [CharTables] (htracked : v.Tracked h d.Called d.migration)
    (hapart : d.Apart (v.Quiet h)) (w : MemoryStore × σ) :
    wp (memoryStore.prod h) Eq (Guarantee.inr Guarantee.any) d.runReporting
      (fun r w' => ∀ warnings, r = .ok ⟨.committed, warnings⟩ →
        v.Recorded (releaseOf (w'.1.snapshots d.key)).revision w'.2) w := by
  obtain ⟨s, t⟩ := w
  refine wp_bind (wp_store.mpr ⟨trivial, ?_⟩)
  simp only [memoryStore]
  cases priorRecord (s.snapshots d.key) with
  | none => exact wp_ret.mpr (by rintro _ ⟨⟩)
  | some prior =>
  cases hlock : s.locked d.key with
  | true => exact wp_bind (wp_runWithState_locked hlock (wp_ret.mpr (by rintro _ ⟨⟩)))
  | false =>
      refine wp_bind (wp_post ?_ (wp_runWithState_compensable
        (compensable_records htracked hapart prior ⟨d.key⟩) hlock trivial))
      rintro ⟨outcome, runtime⟩ ⟨s', t'⟩ hpost
      rcases outcome with error | (_ | ⟨failed, reason⟩ | reason)
      · exact hpost.elim
      · obtain ⟨hended, hrecorded⟩ := hpost
        refine wp_bind (wp_store.mpr ⟨trivial, wp_ret.mpr ?_⟩)
        intro warnings _
        have hsnapshot : releaseOf ((s'.setSnapshot d.key
            runtime.committedRecord.encode).snapshots d.key) =
            runtime.committedRecord.release := by
          refine releaseOf_single ?_
          simp [MemoryStore.setSnapshot, priorRecord, DeployRecord.decode_encode]
        show v.Recorded (releaseOf ((s'.setSnapshot d.key
          runtime.committedRecord.encode).snapshots d.key)).revision t'
        rw [hsnapshot]
        exact hrecorded
      · exact wp_ret.mpr (by rintro _ ⟨⟩)
      · exact wp_ret.mpr (by rintro _ ⟨⟩)

end SingleHostDeploy

/-! ## The multi-host deploy -/

namespace MultiHostDeploy

variable (d : MultiHostDeploy T)

/-- The axes that run after the migration do not touch the database. -/
structure Apart (P : T.Cmd → Prop) : Prop where
  drain : ∀ ctx host, (d.lb.drain ctx host).Issues P
  reattach : ∀ ctx host membership, (d.lb.reattach ctx host membership).Issues P
  activate : ∀ ctx host artifact, (d.artifact.activate ctx host artifact).Issues P
  restart : ∀ ctx host, (d.service.restart ctx host).Issues P
  health : ∀ ctx host, (d.health.check ctx host).Issues P

variable {d} {h : Handler T σ} {v : LiveView σ}

/-- Adapters that issue commands of a kind issue commands of a wider one. -/
theorem Apart.mono {P P' : T.Cmd → Prop} (hapart : d.Apart P) (hP : ∀ c, P c → P' c) :
    d.Apart P' where
  drain ctx host := (hapart.drain ctx host).mono hP
  reattach ctx host membership := (hapart.reattach ctx host membership).mono hP
  activate ctx host artifact := (hapart.activate ctx host artifact).mono hP
  restart ctx host := (hapart.restart ctx host).mono hP
  health ctx host := (hapart.health ctx host).mono hP

/-- A run state with the live revision as the one to record. -/
def Migrated (v : LiveView σ) (runtime : RolloutRuntime) (s : σ) : Prop :=
  v.Recorded runtime.newRevision s

/-- The revision that a migration stores in the runtime is live. -/
theorem runMigrate_records (htracked : v.Tracked h (· = d.ctx) d.migration)
    (runtime : RolloutRuntime) (s : σ) :
    wp h Eq Guarantee.any (d.runMigrate runtime) (StepPost (Migrated v) fun _ _ => True) s := by
  refine wp_bind (wp_post ?_ (htracked.current d.ctx rfl s))
  rintro (error | previous) s₁ hprevious
  · exact wp_ret.mpr trivial
  refine wp_bind (wp_post ?_ (htracked.up d.ctx rfl d.target s₁))
  rintro (error | outcome) s₂ hup
  · exact wp_ret.mpr trivial
  · refine wp_ret.mpr fun hgood => ?_
    obtain ⟨hgood₁, hlive⟩ := hup outcome rfl hgood
    obtain ⟨-, hread, hsame⟩ := hprevious previous rfl hgood₁
    rw [hlive, hsame, ← hread]

/-- To advance a host is to use its adapters. -/
theorem advanceHost_issues {P : T.Cmd → Prop} (hapart : d.Apart P)
    (staged : List (HostId × StagedArtifact)) (entry : HostEntry) :
    (d.advanceHost staged entry).Issues P := by
  refine (hapart.drain _ _).bind ?_
  rintro (_ | membership)
  · exact .ret _
  dsimp only
  cases staged.lookup entry.host with
  | none => exact .ret _
  | some artifact =>
  refine (hapart.activate _ _ _).bind ?_
  rintro (_ | _)
  · exact .ret _
  refine (hapart.restart _ _).bind ?_
  rintro (_ | _)
  · exact .ret _
  refine (hapart.health _ _).bind ?_
  rintro (_ | status)
  · exact .ret _
  show (if !status.healthy then _ else _ : Prog T _).Issues P
  split
  · exact .ret _
  · refine (hapart.reattach _ _ _).bind ?_
    rintro (_ | _) <;> exact .ret _

/-- A rollout moves hosts and keeps the live revision. -/
theorem rollout_records (hapart : d.Apart (v.Quiet h)) {prior : MultiHostRecord}
    {batch : List HostEntry} {runtime : RolloutRuntime} {s : σ} (hs : Migrated v runtime s) :
    wp h Eq Guarantee.any (d.runRollout prior batch runtime)
      (StepPost (Migrated v) fun _ _ => True) s := by
  have hadvance : (Prog.joinAll (batch.map (d.advanceHost runtime.staged))).Issues (v.Quiet h) := by
    refine .joinAll ?_
    simp only [List.mem_map]
    rintro _ ⟨entry, -, rfl⟩
    exact advanceHost_issues hapart _ entry
  refine wp_bind (wp_post ?_ (LiveView.wp_keeps hadvance s))
  intro results s' hkeeps
  dsimp only
  split
  · exact wp_ret.mpr (hs.keep hkeeps)
  · refine wp_bind (wp_any fun restored s'' => ?_)
    rcases restored with _ | _ <;> exact wp_ret.mpr trivial

/-- Verification that passes keeps the live revision. -/
theorem runVerify_keeps (htracked : v.Tracked h (· = d.ctx) d.migration)
    (hapart : d.Apart (v.Quiet h)) (s : σ) :
    wp h Eq Guarantee.any d.runVerify (fun r s' => r = .ok () → v.Keeps s s') s := by
  have hhealth : (Prog.joinAll (d.inventory.map d.verifyHost)).Issues (v.Quiet h) := by
    refine .joinAll ?_
    simp only [List.mem_map]
    rintro _ ⟨entry, -, rfl⟩
    refine (hapart.health _ _).bind ?_
    rintro (_ | status)
    · exact .ret _
    · show (if status.healthy then _ else _ : Prog T _).Issues _
      split <;> exact .ret _
  refine wp_bind (wp_post ?_ (htracked.verify d.ctx rfl s))
  rintro (error | report) s₁ hkeeps
  · exact wp_ret.mpr (by rintro ⟨⟩)
  refine wp_ite (fun _ => wp_ret.mpr (by rintro ⟨⟩)) fun hok => ?_
  refine wp_bind (wp_post ?_ (LiveView.wp_keeps hhealth s₁))
  intro results s₂ hkeeps'
  exact wp_ret.mpr fun _ => (hkeeps report rfl (by simpa using hok)).trans hkeeps'

/-- After all steps the revision in the runtime is live. Nothing is said of what is taken back. -/
theorem compensable_records (htracked : v.Tracked h (· = d.ctx) d.migration)
    (hapart : d.Apart (v.Quiet h)) (prior : MultiHostRecord) (ctx : StepContext) :
    Compensable h Guarantee.any ctx (fun _ _ => True) (fun _ _ => True) (fun _ _ _ => True)
      (d.steps prior) (Migrated v) := by
  have hany : ∀ {p : Prog T (Except SagaError Unit × RolloutRuntime)} {s},
      wp h Eq Guarantee.any p (StepPost (fun _ _ => True) fun _ _ => True) s :=
    wp_any fun a _ => by rcases a with ⟨_ | _, _⟩ <;> trivial
  have hverify : Compensable h Guarantee.any ctx (fun _ _ => True) (Migrated v)
      (fun _ _ _ => True) [d.verifyStep] (Migrated v) := by
    refine .cons (V := fun _ _ _ => True) ?_ (fun _ _ _ _ => hany) .nil
    intro runtime s hs
    refine wp_bind (wp_post ?_ (runVerify_keeps htracked hapart s))
    rintro (error | _) s' hkeeps
    · exact wp_ret.mpr trivial
    · exact wp_ret.mpr (hs.keep (hkeeps rfl))
  have hrollouts : ∀ batches : List (List HostEntry × Nat),
      Compensable h Guarantee.any ctx (fun _ _ => True) (Migrated v) (fun _ _ _ => True)
        (batches.map (fun b => d.rolloutStep prior (b.2 + 1) b.1) ++ [d.verifyStep])
        (Migrated v) := by
    intro batches
    induction batches with
    | nil => exact hverify
    | cons batch batches ih =>
        exact .cons (V := fun _ _ _ => True) (fun _ _ hs => rollout_records hapart hs)
          (fun _ _ _ _ => hany) ih
  unfold steps
  rw [List.append_assoc]
  refine .cons (V := fun _ _ _ => True) (fun _ _ _ => hany) (fun _ _ _ _ => hany) ?_
  refine .cons (V := fun _ _ _ => True) (fun _ _ _ => hany) (fun _ _ _ _ => hany) ?_
  exact .cons (V := fun _ _ _ => True) (fun r s _ => runMigrate_records htracked r s)
    (fun _ _ _ _ => hany) (hrollouts _)

/-- A multi-host deploy that commits leaves the live revision in the ledger. -/
theorem wp_records [CharTables] (htracked : v.Tracked h (· = d.ctx) d.migration)
    (hapart : d.Apart (v.Quiet h)) (w : MemoryStore × σ) :
    wp (memoryStore.prod h) Eq (Guarantee.inr Guarantee.any) d.run
      (fun r w' => r = .ok .committed →
        v.Recorded (releaseOf (w'.1.snapshots d.key)).revision w'.2) w := by
  obtain ⟨s, t⟩ := w
  refine wp_bind (wp_store.mpr ⟨trivial, ?_⟩)
  simp only [memoryStore]
  cases priorRecord (s.snapshots d.key) with
  | none => exact wp_ret.mpr (by rintro ⟨⟩)
  | some prior =>
  cases hlock : s.locked d.key with
  | true => exact wp_bind (wp_runWithState_locked hlock (wp_ret.mpr (by rintro ⟨⟩)))
  | false =>
      refine wp_bind (wp_post ?_ (wp_runWithState_compensable
        (compensable_records htracked hapart prior ⟨d.key⟩) hlock trivial))
      rintro ⟨outcome, runtime⟩ ⟨s', t'⟩ hpost
      rcases outcome with error | (_ | ⟨failed, reason⟩ | reason)
      · exact hpost.elim
      · obtain ⟨hended, hrecorded⟩ := hpost
        refine wp_bind (wp_store.mpr ⟨trivial, wp_ret.mpr fun _ => ?_⟩)
        have hsnapshot : releaseOf ((s'.setSnapshot d.key
            runtime.committedRecord.encode).snapshots d.key) =
            runtime.committedRecord.release := by
          refine releaseOf_multi ?_
          simp [MemoryStore.setSnapshot, priorRecord, MultiHostRecord.decode_encode]
        show v.Recorded (releaseOf ((s'.setSnapshot d.key
          runtime.committedRecord.encode).snapshots d.key)).revision t'
        rw [hsnapshot]
        exact hrecorded
      · simp only [RolloutRuntime.finalize]
        cases runtime.unrecoverable <;> exact wp_ret.mpr (by rintro ⟨⟩)
      · exact wp_ret.mpr (by rintro ⟨⟩)

end MultiHostDeploy

end Fraisier.Core
