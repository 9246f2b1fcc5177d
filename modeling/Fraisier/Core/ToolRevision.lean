import Fraisier.Core.LiveRevision
import Fraisier.Core.Tools

/-!
# The ledger and the migration tool

Deploys whose migration adapter runs a tool: confiture, or configured commands. The
adapter of configured commands does not ask where the tool went: it reports the target it
was given. `ledger_revision_live` says that over any sequence of deploys each commit
leaves the live revision in the ledger, as long as the tool goes where the adapter says.
-/

namespace Fraisier.Core

open Fraisier.Effect Fraisier.Saga

variable {U : Sig} {τ : Type}

/-! ## The world of a tool -/

/-- What a deploy asks of its world: children of the migration tool, the environment, and
what its other axes ask. -/
inductive ToolCall (U : Sig) where
  | spawn (child : Child)
  | var (name : String)
  | isDir (path : String)
  | other (c : U.Cmd)

/-- The calls of a deploy as a signature. -/
@[reducible] def ToolSig (U : Sig) : Sig where
  Cmd := ToolCall U
  Ans
    | .spawn _ => Except String Captured
    | .var _ => Except VarError String
    | .isDir _ => Bool
    | .other c => U.Ans c

/-- A call that does not run the migration tool. -/
def ToolCall.NoSpawn (c : ToolCall U) : Prop :=
  ∀ child, c ≠ .spawn child

/-- A world with one live database. The other axes of a deploy do not touch it. -/
structure ToolWorld (U : Sig) (τ : Type) where
  environ : String → Except VarError String
  liveDsn : String
  live : τ → Option Revision
  spawn : Child → τ → Except String Captured × τ
  isDir : String → τ → Bool
  other : Handler U τ
  otherKeeps : ∀ c t, live (other c t).2 = live t

/-- The shell of the adapter. -/
def toolShell : Shell (ToolSig U) where
  os := ⟨fun name => @Prog.perform (ToolSig U) (.var name),
    fun path => @Prog.perform (ToolSig U) (.isDir path)⟩
  spawn child := @Prog.perform (ToolSig U) (.spawn child)

/-- A migration tool: configured commands, or confiture with what is made of its
verification and the methods that only look at the database. -/
inductive Tool (U : Sig) where
  | command (tool : CommandMigration)
  | confiture (tool : ConfitureMigration) (looks : MigrationAdapter (ToolSig U))
      (verdict : Captured → Except AdapterError VerifyReport)

/-- The migration adapter of a tool. -/
def Tool.adapter : Tool U → MigrationAdapter (ToolSig U)
  | .command tool => tool.adapter toolShell
  | .confiture tool looks verdict =>
      { tool.adapter toolShell looks with verify := tool.verify toolShell verdict }

namespace ToolWorld

variable (W : ToolWorld U τ)

/-- The world answers a call. -/
def handler : Handler (ToolSig U) τ
  | .spawn child, t => W.spawn child t
  | .var name, t => (W.environ name, t)
  | .isDir path, t => (W.isDir path t, t)
  | .other c, t => W.other c t

/-- A call context whose database is the live one, and which declares no secret under the
name of the target's variable. -/
structure Targets (ctx : AdapterCtx) : Prop where
  unresolved : ctx.resolvedSecrets.lookup databaseUrlSecret = none
  live : ∀ source value, ctx.envSecrets.lookup databaseUrlSecret = some source →
    W.environ source = .ok value → value = W.liveDsn
  untargeted : targetEnv ∉ ctx.envSecrets.map Prod.fst

end ToolWorld

/-! ## What the tool does -/

/-- The revision a command was told to go to. -/
def Child.requested (child : Child) : Option Revision :=
  (child.env.reverse.lookup targetEnv).map Revision.mk

/-- The subcommand of a confiture child. -/
def Child.subcommand (child : Child) : Option String :=
  child.args.tail.head?

/-- The database of a confiture child. -/
def Child.dsn (child : Child) : Option String :=
  child.env.reverse.lookup ConfitureMigration.dsnEnv

/-- A child that runs the command of a method. -/
def CommandMigration.Runs (tool : CommandMigration) (method : String) (child : Child) : Prop :=
  ∃ spec, tool.commands.lookup method = some spec ∧
    child.program = spec.programAndArgs.1 ∧ child.args = spec.programAndArgs.2

/-- The revision that is read from a command's output. -/
def CommandMigration.printed (captured : Captured) : Option Revision :=
  let revision := Data.trim captured.stdout
  if revision.isEmpty then none else some ⟨revision⟩

/-- The revision that is read from a confiture run, if one is. -/
def ConfitureMigration.reported (captured : Captured) : Option (Option Revision) :=
  if captured.succeeded then some (captured.report.bind parseCurrentRevision)
  else if captured.report.bind errorCodeOf = some noLedgerErrorCode then some none
  else none

namespace Tool

variable (W : ToolWorld U τ)

/-- A child reports what is so: the current revision is the live one, and confiture's `up`
lists what it applied. -/
def Reports (tool : Tool U) (before : τ) (child : Child) (answer : Except String Captured)
    (after : τ) : Prop :=
  ∀ captured, answer = .ok captured →
    match tool with
    | .command tool =>
        tool.Runs "current_revision" child → captured.succeeded = true →
          CommandMigration.printed captured = W.live before
    | .confiture _ _ _ =>
        child.dsn = some W.liveDsn →
          (child.subcommand = some "current" → ∀ revision,
            ConfitureMigration.reported captured = some revision → revision = W.live before) ∧
          (child.subcommand = some "up" → captured.succeeded = true →
            ∃ report, captured.report = some report ∧
              W.live after =
                (ConfitureMigration.versionsFrom report).getLast?.or (W.live before))

/-- A child goes where the adapter says it went. A command that succeeds is at the revision
it was told to go to, and has not moved when it was told none. Confiture's `down-to` is at
its argument when it succeeds, and only `up` and `down-to` move the database. -/
def Obeys (tool : Tool U) (before : τ) (child : Child) (answer : Except String Captured)
    (after : τ) : Prop :=
  match tool with
  | .command _ => ∀ captured, answer = .ok captured → captured.succeeded = true →
      W.live after = child.requested.or (W.live before)
  | .confiture _ _ _ =>
      (child.subcommand ≠ some "up" → child.subcommand ≠ some "down-to" →
        W.live after = W.live before) ∧
      ∀ captured, answer = .ok captured → captured.succeeded = true →
        child.dsn = some W.liveDsn → child.subcommand = some "down-to" →
        W.live after = child.args.tail.tail.head?.map Revision.mk

end Tool

/-- A condition on the steps that start a child. -/
def SpawnStep (P : τ → Child → Except String Captured → τ → Prop) :
    Transition (ToolSig U) τ → Prop
  | ⟨before, .spawn child, answer, after⟩ => P before child answer after
  | _ => True

/-! ## The adapters track the live revision -/

/-- What is looked at in the world of a tool, with the note beside it. -/
def ToolWorld.view (W : ToolWorld U τ) : LiveView (τ × Prop) :=
  ⟨fun s => W.live s.1, fun s => s.2⟩

/-- The world of a tool with a note whether the tool reported and obeyed so far. -/
def ToolWorld.noting (W : ToolWorld U τ) (tool : Tool U) : Handler (ToolSig U) (τ × Prop) :=
  W.handler.noting fun step =>
    SpawnStep (tool.Reports W) step ∧ SpawnStep (tool.Obeys W) step

section Tracked

variable {W : ToolWorld U τ} {tool : Tool U} {ctx : AdapterCtx} {s : τ × Prop}

/-- The world stayed as it is, but for the note. -/
def Still (s s' : τ × Prop) : Prop :=
  s'.1 = s.1 ∧ (s'.2 → s.2)

theorem wp_toolSecret (logical : String) :
    wp (W.noting tool) Eq Guarantee.any (ctx.secret toolShell.os logical)
      (fun r s' => Still s s' ∧ ∀ value, r = .ok value →
        ctx.resolvedSecrets.lookup logical = some value ∨ ∃ source,
          ctx.envSecrets.lookup logical = some source ∧ W.environ source = .ok value) s := by
  unfold AdapterCtx.secret
  split
  · rename_i value hvalue
    refine wp_ret.mpr ⟨⟨rfl, id⟩, ?_⟩
    rintro _ ⟨⟩
    exact .inl hvalue
  · split
    · exact wp_ret.mpr ⟨⟨rfl, id⟩, by rintro _ ⟨⟩⟩
    · rename_i source hsource
      refine wp_bind (wp_perform.mpr ⟨trivial, ?_⟩)
      dsimp only [ToolWorld.noting, Handler.noting, ToolWorld.handler]
      cases hvalue : W.environ source with
      | error cause => exact wp_ret.mpr ⟨⟨rfl, And.left⟩, by rintro _ ⟨⟩⟩
      | ok value =>
          refine wp_ret.mpr ⟨⟨rfl, And.left⟩, ?_⟩
          rintro _ ⟨⟩
          exact .inr ⟨source, hsource, hvalue⟩

/-- A child that was started reported and obeyed, if the note says so. -/
theorem wp_toolCommand (child : Child) (adapter operation : String) :
    wp (W.noting tool) Eq Guarantee.any (runCommand toolShell child adapter operation)
      (fun r s' => ∀ captured, r = .ok captured → s'.2 → s.2 ∧
        tool.Reports W s.1 child (.ok captured) s'.1 ∧
        tool.Obeys W s.1 child (.ok captured) s'.1) s := by
  refine wp_bind (wp_perform.mpr ⟨trivial, ?_⟩)
  have hnoted : ∀ captured, (W.spawn child s.1).1 = .ok captured →
      ((W.noting tool) (.spawn child) s).2.2 → s.2 ∧
        tool.Reports W s.1 child (.ok captured) (W.spawn child s.1).2 ∧
        tool.Obeys W s.1 child (.ok captured) (W.spawn child s.1).2 := by
    intro captured hanswer hnoted
    rw [← hanswer]
    exact hnoted
  dsimp only [ToolWorld.noting, Handler.noting, ToolWorld.handler] at hnoted ⊢
  cases hanswer : (W.spawn child s.1).1 with
  | error cause => exact wp_ret.mpr (by rintro _ ⟨⟩)
  | ok captured =>
      refine wp_ret.mpr ?_
      rintro _ ⟨⟩
      exact hnoted captured hanswer

theorem Still.trans {s s' s'' : τ × Prop} (h : Still s s') (h' : Still s' s'') : Still s s'' :=
  ⟨h'.1.trans h.1, h.2 ∘ h'.2⟩

theorem wp_resolveSecrets (adapter : String) (keys : List String) :
    wp (W.noting tool) Eq Guarantee.any
      (CommandMigration.resolveSecrets toolShell.os ctx adapter keys)
      (fun r s' => Still s s' ∧ ∀ envs, r = .ok envs → ∀ e ∈ envs, e.1 ∈ keys) s := by
  induction keys generalizing s with
  | nil =>
      refine wp_ret.mpr ⟨⟨rfl, id⟩, ?_⟩
      rintro _ ⟨⟩
      simp
  | cons logical keys ih =>
      refine wp_bind (wp_post ?_ (wp_toolSecret logical))
      rintro (error | value) s₁ ⟨hstill, -⟩
      · exact wp_ret.mpr ⟨hstill, by rintro _ ⟨⟩⟩
      refine wp_bind (wp_post ?_ ih)
      rintro (error | envs) s₂ ⟨hstill', henvs⟩
      · exact wp_ret.mpr ⟨hstill.trans hstill', by rintro _ ⟨⟩⟩
      · refine wp_ret.mpr ⟨hstill.trans hstill', ?_⟩
        rintro _ ⟨⟩
        refine List.forall_mem_cons.mpr ⟨List.mem_cons_self, fun e he => ?_⟩
        exact List.mem_cons_of_mem _ (henvs envs rfl e he)

/-- A child of a configured command is told the target that was asked for. -/
theorem requested_eq {envs : List (String × String)} {target : Option Revision}
    (henvs : ∀ e ∈ envs, e.1 ≠ targetEnv) {child : Child}
    (hchild : child.env = envs ++ CommandMigration.releaseEnv ctx ++
      (target.map fun revision => (targetEnv, revision.name)).toList) :
    child.requested = target := by
  unfold Child.requested
  cases target with
  | some revision => simp [hchild]
  | none =>
      have hnone : child.env.reverse.lookup targetEnv = none := by
        rw [List.lookup_eq_none_iff]
        intro e he
        rw [List.mem_reverse, hchild] at he
        have hne : e.1 ≠ targetEnv := by
          simp only [Option.map_none, Option.toList_none, List.append_nil, List.mem_append] at he
          rcases he with he | he
          · exact henvs e he
          · simp only [CommandMigration.releaseEnv, List.mem_cons, List.mem_append,
              Option.mem_toList, Option.map_eq_some_iff] at he
            rcases he with rfl | ⟨path, -, rfl⟩ | ⟨version, -, rfl⟩ <;> simp [targetEnv]
        simpa using hne.symm
      rw [hnone]
      rfl

/-- A command that succeeds is where it was told to go. -/
theorem wp_runMethod (tool : CommandMigration) (method : String) (target : Option Revision)
    (hctx : W.Targets ctx) :
    wp (W.noting (.command tool)) Eq Guarantee.any
      (tool.runMethod toolShell method ctx
        (target.map fun revision => (targetEnv, revision.name)).toList)
      (fun r s' => ∀ captured, r = .ok captured → captured.succeeded = true → s'.2 →
        s.2 ∧ W.live s'.1 = target.or (W.live s.1) ∧
        (method = "current_revision" → CommandMigration.printed captured = W.live s.1)) s := by
  unfold CommandMigration.runMethod
  split
  · exact wp_ret.mpr (by rintro _ ⟨⟩)
  · rename_i spec hspec
    refine wp_bind (wp_post ?_ (wp_resolveSecrets tool.name _))
    rintro (error | envs) s₁ ⟨⟨hworld, hnote⟩, henvs⟩
    · exact wp_ret.mpr (by rintro _ ⟨⟩)
    refine wp_post ?_ (wp_toolCommand _ tool.name method)
    intro r s₂ hran captured hr hsucceeded hnoted
    obtain ⟨hnoted₁, hreports, hobeys⟩ := hran captured hr hnoted
    rw [hworld] at hreports hobeys
    refine ⟨hnote hnoted₁, ?_, ?_⟩
    · rw [hobeys captured rfl hsucceeded]
      refine congrArg (fun revision => Option.or revision _) (requested_eq ?_ rfl)
      exact fun e he hname => hctx.untargeted (hname ▸ henvs envs rfl e he)
    · rintro rfl
      exact hreports captured rfl ⟨spec, hspec, rfl, rfl⟩ hsucceeded

/-- The adapter of configured commands tracks the live revision of a tool that obeys. -/
theorem command_tracked (tool : CommandMigration) :
    W.view.Tracked (W.noting (.command tool)) W.Targets (Tool.adapter (.command tool)) where
  current ctx hctx s := by
    refine wp_bind (wp_post ?_ (wp_runMethod tool "current_revision" none hctx))
    rintro (error | captured) s' hran
    · exact wp_ret.mpr (by rintro _ ⟨⟩)
    refine wp_ite (fun _ => wp_ret.mpr (by rintro _ ⟨⟩)) fun hsucceeded => wp_ret.mpr ?_
    rintro _ ⟨⟩ hgood
    obtain ⟨hnote, hlive, hprinted⟩ := hran captured rfl (by simpa using hsucceeded) hgood
    exact ⟨hnote, hprinted rfl, hlive⟩
  up ctx hctx target s := by
    refine wp_bind (wp_post ?_ (wp_runMethod tool "up" target hctx))
    rintro (error | captured) s' hran
    · exact wp_ret.mpr (by rintro _ ⟨⟩)
    refine wp_ite (fun _ => wp_ret.mpr (by rintro _ ⟨⟩)) fun hsucceeded => wp_ret.mpr ?_
    rintro _ ⟨⟩ hgood
    obtain ⟨hnote, hlive, -⟩ := hran captured rfl (by simpa using hsucceeded) hgood
    exact ⟨hnote, hlive⟩
  downTo ctx hctx target s := by
    refine wp_bind (wp_post ?_ (wp_runMethod tool "down_to" (some target) hctx))
    rintro (error | captured) s' hran
    · exact wp_ret.mpr (by rintro _ ⟨⟩)
    refine wp_ite (fun _ => wp_ret.mpr (by rintro _ ⟨⟩)) fun hsucceeded => wp_ret.mpr ?_
    rintro _ ⟨⟩ hgood
    obtain ⟨hnote, hlive, -⟩ := hran captured rfl (by simpa using hsucceeded) hgood
    exact ⟨hnote, hlive⟩
  verify ctx hctx s := by
    refine wp_ite (fun _ => wp_ret.mpr fun _ _ _ => .refl s) fun _ => ?_
    refine wp_bind (wp_post ?_ (wp_runMethod tool "verify" none hctx))
    rintro (error | captured) s' hran
    · exact wp_ret.mpr (by rintro _ ⟨⟩)
    refine wp_ret.mpr ?_
    rintro _ ⟨⟩ hok hgood
    obtain ⟨hnote, hlive, -⟩ := hran captured rfl hok hgood
    exact ⟨hnote, hlive⟩

section Confiture

variable {confiture : ConfitureMigration} {looks : MigrationAdapter (ToolSig U)}
variable {verdict : Captured → Except AdapterError VerifyReport}

/-- Confiture is started on the live database. -/
theorem wp_confitureRun (subcommand : String) (extra : List String) (hctx : W.Targets ctx) :
    wp (W.noting (.confiture confiture looks verdict)) Eq Guarantee.any
      (confiture.run toolShell subcommand ctx extra)
      (fun r s' => ∀ captured, r = .ok captured → s'.2 → s.2 ∧ ∃ child : Child,
        child.dsn = some W.liveDsn ∧ child.args = confiture.planArgs subcommand ctx extra ∧
        (Tool.confiture confiture looks verdict).Reports W s.1 child (.ok captured) s'.1 ∧
        (Tool.confiture confiture looks verdict).Obeys W s.1 child (.ok captured) s'.1) s := by
  refine wp_bind (wp_post ?_ (wp_toolSecret databaseUrlSecret))
  rintro (error | dsn) s₁ ⟨⟨hworld, hnote⟩, hdsn⟩
  · exact wp_ret.mpr (by rintro _ ⟨⟩)
  have hlive : dsn = W.liveDsn := by
    rcases hdsn dsn rfl with hresolved | ⟨source, hsource, hvalue⟩
    · rw [hctx.unresolved] at hresolved
      cases hresolved
    · exact hctx.live source dsn hsource hvalue
  refine wp_post ?_ (wp_toolCommand _ "confiture" subcommand)
  intro r s₂ hran captured hr hnoted
  obtain ⟨hnoted₁, hreports, hobeys⟩ := hran captured hr hnoted
  rw [hworld] at hreports hobeys
  refine ⟨hnote hnoted₁, _, ?_, rfl, hreports, hobeys⟩
  simp [Child.dsn, hlive]

/-- The adapter of confiture tracks the live revision. -/
theorem confiture_tracked :
    W.view.Tracked (W.noting (.confiture confiture looks verdict)) W.Targets
      (Tool.adapter (.confiture confiture looks verdict)) where
  current ctx hctx s := by
    refine wp_bind (wp_post ?_ (wp_confitureRun "current" [] hctx))
    rintro (error | captured) s' hran
    · exact wp_ret.mpr (by rintro _ ⟨⟩)
    have hfinish : ∀ revision, ConfitureMigration.reported captured = some revision → s'.2 →
        s.2 ∧ revision = W.live s.1 ∧ W.live s'.1 = W.live s.1 := by
      intro revision hreported hgood
      obtain ⟨hnote, child, hdsn, hargs, hreports, hobeys⟩ := hran captured rfl hgood
      have hsub : child.subcommand = some "current" := by
        rw [Child.subcommand, hargs]
        rfl
      refine ⟨hnote, (hreports captured rfl hdsn).1 hsub revision hreported, hobeys.1 ?_ ?_⟩
      · simp [hsub]
      · simp [hsub]
    refine wp_ite (fun hsucceeded => wp_ret.mpr ?_) fun hfailed => wp_ite
      (fun hcode => wp_ret.mpr ?_) fun _ => wp_ret.mpr (by rintro _ ⟨⟩)
    · rintro _ ⟨⟩
      exact hfinish _ (if_pos hsucceeded)
    · rintro _ ⟨⟩
      refine hfinish none ?_
      rw [ConfitureMigration.reported, if_neg hfailed, if_pos hcode]
  up ctx hctx target s := by
    refine wp_bind (wp_post ?_ (wp_confitureRun "up" _ hctx))
    rintro (error | captured) s' hran
    · exact wp_ret.mpr (by rintro _ ⟨⟩)
    refine wp_ite (fun hsucceeded => wp_ret.mpr ?_) fun _ => wp_ret.mpr (by rintro _ ⟨⟩)
    rintro _ ⟨⟩ hgood
    obtain ⟨hnote, child, hdsn, hargs, hreports, -⟩ := hran captured rfl hgood
    have hsub : child.subcommand = some "up" := by
      rw [Child.subcommand, hargs]
      rfl
    obtain ⟨report, hreport, hlive⟩ := (hreports captured rfl hdsn).2 hsub hsucceeded
    refine ⟨hnote, ?_⟩
    rw [hreport]
    exact hlive
  downTo ctx hctx target s := by
    refine wp_bind (wp_post ?_ (wp_confitureRun "down-to" _ hctx))
    rintro (error | captured) s' hran
    · exact wp_ret.mpr (by rintro _ ⟨⟩)
    refine wp_ite (fun hsucceeded => wp_ret.mpr ?_) fun _ => wp_ret.mpr (by rintro _ ⟨⟩)
    rintro _ ⟨⟩ hgood
    obtain ⟨hnote, child, hdsn, hargs, -, hobeys⟩ := hran captured rfl hgood
    have hsub : child.subcommand = some "down-to" := by
      rw [Child.subcommand, hargs]
      rfl
    refine ⟨hnote, (hobeys.2 captured rfl hsucceeded hdsn hsub).trans ?_⟩
    rw [hargs]
    rfl
  verify ctx hctx s := by
    refine wp_bind (wp_post ?_ (wp_confitureRun "verify" [] hctx))
    rintro (error | captured) s' hran
    · exact wp_ret.mpr (by rintro _ ⟨⟩)
    refine wp_ret.mpr fun _ _ _ hgood => ?_
    obtain ⟨hnote, child, -, hargs, -, hobeys⟩ := hran captured rfl hgood
    have hsub : child.subcommand = some "verify" := by
      rw [Child.subcommand, hargs]
      rfl
    refine ⟨hnote, hobeys.1 ?_ ?_⟩
    · simp [hsub]
    · simp [hsub]

end Confiture

/-- The adapter of a tool tracks the live revision. -/
theorem tool_tracked (W : ToolWorld U τ) (tool : Tool U) :
    W.view.Tracked (W.noting tool) W.Targets tool.adapter := by
  cases tool with
  | command tool => exact command_tracked tool
  | confiture tool looks verdict => exact confiture_tracked

/-- A call that starts no child leaves the database alone. -/
theorem quiet_of_noSpawn {c : ToolCall U} (hc : c.NoSpawn) :
    W.view.Quiet (W.noting tool) c := by
  intro s hgood
  refine ⟨hgood.1, ?_⟩
  cases c with
  | spawn child => exact absurd rfl (hc child)
  | var name => rfl
  | isDir path => rfl
  | other c => exact W.otherKeeps c s.1

end Tracked

/-! ## Sequences of deploys -/

/-- A deploy over a tool: its migration adapter is the tool's, its database is the live one,
and its other axes do not run the tool. -/
inductive ToolDeploy (W : ToolWorld U τ) (tool : Tool U) where
  | single (deploy : SingleHostDeploy (ToolSig U)) (adapter : deploy.migration = tool.adapter)
      (targets : W.Targets deploy.ctx) (apart : deploy.Apart ToolCall.NoSpawn)
  | multi (deploy : MultiHostDeploy (ToolSig U)) (adapter : deploy.migration = tool.adapter)
      (targets : W.Targets deploy.ctx) (apart : deploy.Apart ToolCall.NoSpawn)

namespace ToolDeploy

variable {W : ToolWorld U τ} {tool : Tool U}

/-- The pair a deploy targets. -/
def key : ToolDeploy W tool → FraiseKey
  | .single deploy _ _ _ => deploy.key
  | .multi deploy _ _ _ => deploy.key

/-- The deploy as a program that says whether it committed. -/
def prog [CharTables] : ToolDeploy W tool → Prog (StoreSig.sum (ToolSig U)) Bool
  | .single deploy _ _ _ => deploy.runReporting >>= fun r => .ret <| match r with
      | .ok ⟨.committed, _⟩ => true
      | _ => false
  | .multi deploy _ _ _ => deploy.run >>= fun r => .ret <| match r with
      | .ok .committed => true
      | _ => false

/-- A run of the deploy. -/
def run [CharTables] (d : ToolDeploy W tool) (sched : List Bool) (w : MemoryStore × τ) :
    Run (StoreSig.sum (ToolSig U)) (MemoryStore × τ) Bool :=
  d.prog.exec (memoryStore.prod W.handler) sched w

/-- The revision of the ledger after a run. -/
def recorded (d : ToolDeploy W tool) (store : MemoryStore) : Option Revision :=
  (releaseOf (store.snapshots d.key)).revision

theorem wp_prog [CharTables] (d : ToolDeploy W tool) (w : MemoryStore × τ × Prop) :
    wp (memoryStore.prod (W.noting tool)) Eq (Guarantee.inr Guarantee.any) d.prog
      (fun committed w' => committed = true → w'.2.2 → d.recorded w'.1 = W.live w'.2.1) w := by
  have hquiet : ∀ c : ToolCall U, c.NoSpawn → W.view.Quiet (W.noting tool) c :=
    fun c hc => quiet_of_noSpawn hc
  cases d with
  | single deploy adapter targets apart =>
      have htracked : W.view.Tracked (W.noting tool) deploy.Called deploy.migration := by
        rw [adapter]
        refine (tool_tracked W tool).mono ?_
        rintro _ ⟨workdir, rfl⟩
        exact ⟨targets.unresolved, targets.live, targets.untargeted⟩
      refine wp_map (wp_post ?_ (SingleHostDeploy.wp_records htracked (apart.mono hquiet) w))
      rintro r w' hrecorded hcommitted hnoted
      split at hcommitted
      · exact hrecorded _ rfl hnoted
      · cases hcommitted
  | multi deploy adapter targets apart =>
      have htracked : W.view.Tracked (W.noting tool) (· = deploy.ctx) deploy.migration := by
        rw [adapter]
        refine (tool_tracked W tool).mono ?_
        rintro _ rfl
        exact targets
      refine wp_map (wp_post ?_ (MultiHostDeploy.wp_records htracked (apart.mono hquiet) w))
      rintro r w' hrecorded hcommitted hnoted
      split at hcommitted
      · exact hrecorded rfl hnoted
      · cases hcommitted

/-- A run that commits leaves the live revision in the ledger, if the tool reported and
obeyed in it. -/
theorem run_records [CharTables] (d : ToolDeploy W tool) (sched : List Bool)
    (w : MemoryStore × τ) (hcommitted : (d.run sched w).value = true)
    (hreports : ∀ step ∈ (d.run sched w).steps, step.Right (SpawnStep (tool.Reports W)))
    (hobeys : ∀ step ∈ (d.run sched w).steps, step.Right (SpawnStep (tool.Obeys W))) :
    d.recorded (d.run sched w).final.1 = W.live (d.run sched w).final.2 := by
  obtain ⟨noted, hnoted, hvalue, hfinal⟩ := exec_prod_noting trivial
    (fun step hstep => (hreports step hstep).and (hobeys step hstep))
  have hpost := (wp_exec (d.wp_prog (w.1, w.2, True)) sched).1
  rw [show (d.prog.exec (memoryStore.prod (W.noting tool)) sched (w.1, w.2, True)).final = _
    from hfinal] at hpost
  exact hpost (hvalue.trans hcommitted) hnoted

/-- What every child does, the children of a run do. -/
theorem spawnStep_of_law [CharTables] {P : τ → Child → Except String Captured → τ → Prop}
    (hlaw : ∀ child t, P t child (W.spawn child t).1 (W.spawn child t).2) (d : ToolDeploy W tool)
    (sched : List Bool) (w : MemoryStore × τ) :
    ∀ step ∈ (d.run sched w).steps, step.Right (SpawnStep P) := by
  intro step hstep
  obtain ⟨c, s, rfl⟩ := Prog.exists_answer_of_mem_steps hstep
  rcases c with c | c
  · trivial
  · cases c with
    | spawn child => exact hlaw child s.2
    | _ => trivial

end ToolDeploy

/-- The runs of some deploys, one after the other, each with its schedule. -/
def history [CharTables] {W : ToolWorld U τ} {tool : Tool U} :
    List (ToolDeploy W tool × List Bool) → MemoryStore × τ →
      List (ToolDeploy W tool × Run (StoreSig.sum (ToolSig U)) (MemoryStore × τ) Bool)
  | [], _ => []
  | (d, sched) :: rest, w => (d, d.run sched w) :: history rest (d.run sched w).final

theorem exists_run_of_mem_history [CharTables] {W : ToolWorld U τ} {tool : Tool U}
    {deploys : List (ToolDeploy W tool × List Bool)} {w : MemoryStore × τ}
    {entry : ToolDeploy W tool × Run (StoreSig.sum (ToolSig U)) (MemoryStore × τ) Bool}
    (hentry : entry ∈ history deploys w) : ∃ sched w', entry.2 = entry.1.run sched w' := by
  induction deploys generalizing w with
  | nil => simp [history] at hentry
  | cons deploy rest ih =>
      rcases List.mem_cons.mp hentry with rfl | hentry
      · exact ⟨_, _, rfl⟩
      · exact ih hentry

/-- Over any sequence of deploys, each run that commits leaves the live revision in the
ledger if the tool reported and obeyed in that run. -/
theorem ledger_revision_live [CharTables] {W : ToolWorld U τ} {tool : Tool U}
    (deploys : List (ToolDeploy W tool × List Bool)) (w : MemoryStore × τ) :
    ∀ entry ∈ history deploys w, entry.2.value = true →
      (∀ step ∈ entry.2.steps, step.Right (SpawnStep (tool.Reports W))) →
      (∀ step ∈ entry.2.steps, step.Right (SpawnStep (tool.Obeys W))) →
      entry.1.recorded entry.2.final.1 = W.live entry.2.final.2 := by
  intro entry hentry
  obtain ⟨sched, w', hrun⟩ := exists_run_of_mem_history hentry
  rw [hrun]
  exact entry.1.run_records sched w'

/-! ## Two command tools -/

namespace CommandTool

/-- No calls besides those of the tool. -/
@[reducible] def NoSig : Sig where
  Cmd := Empty
  Ans _ := Unit

/-- The configured commands. -/
def tool : Tool NoSig :=
  .command ⟨"command", [("current_revision", .argv ["db", "current"]), ("up", .argv ["db", "up"]),
    ("down_to", .argv ["db", "down"])]⟩

/-- The revision of the database, which is migrated or is not. -/
def revision (migrated : Bool) : Revision :=
  if migrated then ⟨"0002"⟩ else ⟨"0001"⟩

/-- A child that succeeded, and printed the revision it found. -/
def succeeded (migrated : Bool) : Except String Captured :=
  .ok ⟨some 0, (revision migrated).name, "", none⟩

/-- A tool that goes where it is told, and refuses a revision it does not know. -/
def obedient (child : Child) (migrated : Bool) : Except String Captured × Bool :=
  match child.requested with
  | none => (succeeded migrated, migrated)
  | some target =>
      if target = revision true then (succeeded migrated, true)
      else if target = revision false then (succeeded migrated, false)
      else (.ok ⟨some 1, "", "unknown revision", none⟩, migrated)

/-- A tool that applies everything that is pending. -/
def eager (child : Child) (migrated : Bool) : Except String Captured × Bool :=
  (succeeded migrated, if child.args = ["up"] then true else migrated)

/-- A world with a tool. -/
def world (spawn : Child → Bool → Except String Captured × Bool) : ToolWorld NoSig Bool where
  environ _ := .ok "postgres://db/app"
  liveDsn := "postgres://db/app"
  live migrated := some (revision migrated)
  spawn := spawn
  isDir _ _ := true
  other c := nomatch c
  otherKeeps c := nomatch c

/-- A deploy to one host. -/
def hostDeploy (target rollbackTo : Option Revision) : SingleHostDeploy (ToolSig NoSig) where
  fraise := "app"
  environment := "production"
  host := ⟨"web-1"⟩
  ctx := { AdapterCtx.new "app" "production" with
    envSecrets := [(databaseUrlSecret, "DATABASE_URL")] }
  target := target
  rollbackTo := rollbackTo
  forwardCompatibleLint := false
  policy := ⟨none, none⟩
  restoreRehearsal := none
  backupSource := .freshDump
  databaseReadiness := none
  os := toolShell.os
  artifact := ⟨fun _ _ => .ret (.ok ⟨⟨"v2", none⟩, "/srv/app/v2"⟩), fun _ _ _ => .ret (.ok ())⟩
  migration := tool.adapter
  service := ⟨fun _ _ => .ret (.ok ()), fun _ _ => .ret (.ok ⟨true, none⟩)⟩
  health := ⟨fun _ _ => .ret (.ok ⟨true, none⟩)⟩

/-- The deploy in a world with a tool. -/
def deploy (spawn : Child → Bool → Except String Captured × Bool)
    (target rollbackTo : Option Revision) : ToolDeploy (world spawn) tool :=
  .single (hostDeploy target rollbackTo) rfl
    ⟨rfl, fun _ value _ hvalue => (Except.ok.inj hvalue).symm,
      by simp [hostDeploy, databaseUrlSecret, targetEnv]⟩
    ⟨fun _ _ _ => .ret _, fun _ _ => .ret _, fun _ _ => .ret _⟩

theorem printed_succeeded {migrated : Bool} {captured : Captured}
    (h : succeeded migrated = .ok captured) :
    CommandMigration.printed captured = some (revision migrated) := by
  cases h
  cases migrated <;> rfl

theorem obedient_reports (child : Child) (migrated : Bool) :
    tool.Reports (world obedient) migrated child (obedient child migrated).1
      (obedient child migrated).2 := by
  intro captured hanswer _ hsucceeded
  unfold obedient at hanswer
  split at hanswer
  · exact printed_succeeded hanswer
  · split at hanswer
    · exact printed_succeeded hanswer
    · split at hanswer
      · exact printed_succeeded hanswer
      · cases hanswer
        cases hsucceeded

theorem obedient_obeys (child : Child) (migrated : Bool) :
    tool.Obeys (world obedient) migrated child (obedient child migrated).1
      (obedient child migrated).2 := by
  intro captured hanswer hsucceeded
  unfold obedient at hanswer ⊢
  cases hrequested : child.requested with
  | none => rfl
  | some target =>
      simp only [hrequested] at hanswer ⊢
      split at hanswer
      · rw [if_pos ‹_›, ‹target = revision true›]
        rfl
      · rw [if_neg ‹_›]
        split at hanswer
        · rw [if_pos ‹_›, ‹target = revision false›]
          rfl
        · cases hanswer
          cases hsucceeded

/-- A deploy to the second revision, and a rollback to the first. -/
def upAndBack : List (ToolDeploy (world obedient) tool × List Bool) :=
  [(deploy obedient (some (revision true)) none, []),
    (deploy obedient none (some (revision false)), [])]

end CommandTool

/-- With a tool that obeys, a deploy and a rollback both leave the live revision in the
ledger. -/
theorem ledger_revision_live_upAndBack :
    (history CommandTool.upAndBack (MemoryStore.empty, false)).map (fun entry => entry.2.value) =
        [true, true] ∧
      ∀ entry ∈ history CommandTool.upAndBack (MemoryStore.empty, false),
        entry.1.recorded entry.2.final.1 =
          (CommandTool.world CommandTool.obedient).live entry.2.final.2 := by
  have hcommitted : (history CommandTool.upAndBack (MemoryStore.empty, false)).map
      (fun entry => entry.2.value) = [true, true] := rfl
  refine ⟨hcommitted, fun entry hentry => ?_⟩
  have hvalue : entry.2.value = true := by
    have hmem := List.mem_map_of_mem (f := fun entry => entry.2.value) hentry
    rw [hcommitted] at hmem
    simpa using hmem
  obtain ⟨sched, w, hrun⟩ := exists_run_of_mem_history hentry
  refine ledger_revision_live CommandTool.upAndBack _ entry hentry hvalue ?_ ?_
  · rw [hrun]
    exact ToolDeploy.spawnStep_of_law CommandTool.obedient_reports _ _ _
  · rw [hrun]
    exact ToolDeploy.spawnStep_of_law CommandTool.obedient_obeys _ _ _

/-- A command that applies what is pending leaves the ledger at the revision before it. -/
theorem ledger_revision_not_live_untargeted :
    ∃ entry ∈ history [(CommandTool.deploy CommandTool.eager none none, [])]
        (MemoryStore.empty, false),
      entry.2.value = true ∧
      (∀ step ∈ entry.2.steps,
        step.Right (SpawnStep (CommandTool.tool.Reports (CommandTool.world CommandTool.eager)))) ∧
      entry.1.recorded entry.2.final.1 = some (CommandTool.revision false) ∧
      (CommandTool.world CommandTool.eager).live entry.2.final.2 =
        some (CommandTool.revision true) := by
  refine ⟨_, List.mem_cons_self, rfl, ?_, rfl, rfl⟩
  refine ToolDeploy.spawnStep_of_law ?_ _ _ _
  intro child migrated captured hanswer _ _
  exact CommandTool.printed_succeeded hanswer

end Fraisier.Core
