import Fraisier.Core.Drill
import Fraisier.Effect.Logic

/-!
# Which database a drill migrates

A drill points the migration adapter at the throwaway through a secret that is resolved in
process. The adapters that start their tool themselves pass it on, and an adapter in a
process of its own never sees it: `drill_onThrowaway_iff` says exactly when every `up` of a
drill reaches the throwaway.
-/

namespace Fraisier.Core

open Fraisier.Effect

variable {σ : Type}

/-! ## The world of a drill -/

/-- What a drill and its adapter ask of their world. -/
inductive DrillCall where
  | var (name : String)
  | isDir (path : String)
  | spawn (child : Child)
  | restoreCopy (liveDsn archive : String)
  | tableCount (throwaway : ThrowawayDb)
  | teardown (throwaway : ThrowawayDb)

/-- The calls of a drill as a signature. -/
@[reducible] def DrillSig : Sig where
  Cmd := DrillCall
  Ans
    | .var _ => Except VarError String
    | .isDir _ => Bool
    | .spawn _ => Except String Captured
    | .restoreCopy _ _ => Except String RestoredCopy
    | .tableCount _ => Except String Nat
    | .teardown _ => Except String Unit

/-- A world: the environment of the process, the variables it withholds from its children,
and any answers to the other calls. A copy is restored into a new database. -/
structure DrillWorld (σ : Type) where
  environ : String → Except VarError String
  withheld : List String
  liveDatabase : String → Except String String
  answer : Handler DrillSig σ
  restoresNew : ∀ liveDsn archive s copy,
    (answer (.restoreCopy liveDsn archive) s).1 = .ok copy → copy.db.dsn ≠ liveDsn

/-- The state of a world, with the live address and the copy of the restore made last. -/
structure DrillState (σ : Type) where
  inner : σ
  restored : Option (String × RestoredCopy)

namespace DrillWorld

variable (W : DrillWorld σ)

/-- The world answers a call. -/
def handler : Handler DrillSig (DrillState σ)
  | .var name, s => (W.environ name, s)
  | .restoreCopy liveDsn archive, s =>
      let done := W.answer (.restoreCopy liveDsn archive) s.inner
      (done.1, ⟨done.2, match done.1 with
        | .ok copy => some (liveDsn, copy)
        | .error _ => s.restored⟩)
  | c, s => ((W.answer c s.inner).1, { s with inner := (W.answer c s.inner).2 })

/-- What a child inherits. -/
def inherited (name : String) : Option String :=
  if name ∈ W.withheld then none else (W.environ name).toOption

end DrillWorld

/-- The shell of a drill. -/
def drillShell : Shell DrillSig where
  os := ⟨fun name => @Prog.perform DrillSig (.var name),
    fun path => @Prog.perform DrillSig (.isDir path)⟩
  spawn child := @Prog.perform DrillSig (.spawn child)

/-- The database operations of a drill. -/
def drillDb (liveDatabase : String → Except String String) : DrillDb DrillSig where
  liveDatabase := liveDatabase
  restoreCopy liveDsn archive := @Prog.perform DrillSig (.restoreCopy liveDsn archive)
  tableCount throwaway := @Prog.perform DrillSig (.tableCount throwaway)
  teardown throwaway := @Prog.perform DrillSig (.teardown throwaway)

/-- A drill: its configuration, the archive and what of its adapters a drill does not
depend on. `looks` are the methods it does not call, `decode` is what is made of the
answer of an out-of-process adapter, and `output` is where confiture's reports go. -/
structure DrillPlan where
  config : DeployConfig
  archive : String
  looks : MigrationAdapter DrillSig
  decode : Except String Captured → Except AdapterError MigrationOutcome
  output : String → String

/-- The adapter that was built. -/
def BuiltMigration.adapter (plan : DrillPlan) : BuiltMigration → MigrationAdapter DrillSig
  | .none => noDatabase
  | .confiture tool => tool.adapter drillShell plan.looks
  | .command tool => tool.adapter drillShell
  | .ipc tool => { plan.looks with up := tool.up drillShell plan.decode, ownsDatabase := true }

namespace DrillPlan

variable (plan : DrillPlan)

/-- Build the adapter and run the drill. -/
def drill (liveDatabase : String → Except String String) :
    Prog DrillSig (Except String (Except DrillError DrillReport)) := do
  match ← buildMigrationOnly drillShell.os plan.output plan.config with
  | .error error => return .error error
  | .ok resolved =>
      let report ← runRestoreDrill (drillDb liveDatabase) drillShell.os
        (resolved.migration.adapter plan) resolved.ctx plan.archive
        (plan.config.drill.bind DrillSection.minTables)
      return .ok report

/-- A run of the drill. -/
def run (W : DrillWorld σ) (s : σ) :
    Run DrillSig (DrillState σ) (Except String (Except DrillError DrillReport)) :=
  (plan.drill W.liveDatabase).exec W.handler [] ⟨s, none⟩

/-- The adapter the configuration names. -/
def adapterName : Option String :=
  plan.config.migration.bind MigrationSection.adapter

/-- The variable a child of the configured adapter takes its database from. -/
def databaseVar : String :=
  if plan.adapterName = some "confiture" then ConfitureMigration.dsnEnv else databaseUrlSecret

/-- A child started after a restore, with the restored copy as its database. -/
def ReachesCopy (W : DrillWorld σ) (s : DrillState σ) (child : Child) : Prop :=
  ∃ liveDsn copy, s.restored = some (liveDsn, copy) ∧
    child.var W.inherited plan.databaseVar = some copy.db.dsn ∧ copy.db.dsn ≠ liveDsn

/-- Every child that a drill starts reaches the throwaway and not the live database. -/
def OnThrowaway (W : DrillWorld σ) (s : σ) : Prop :=
  ∀ step ∈ (plan.run W s).steps, ∀ child, step.cmd = .spawn child →
    plan.ReachesCopy W step.before child

/-- The adapter runs in a process of its own, its database is configured and was read when
it was built, the drill gets as far as the migration, and the copy is somewhere else. -/
def Misdirected (W : DrillWorld σ) (s : σ) : Prop :=
  ∃ name source value liveDsn live copy,
    plan.adapterName = some name ∧ name ∉ ["none", "confiture", "command"] ∧
    plan.config.migration.bind MigrationSection.databaseUrlEnv = some source ∧
    W.environ source = .ok value ∧
    (∃ fraise environment, plan.config.deploy = some ⟨some fraise, some environment⟩) ∧
    W.environ databaseUrlSecret = .ok liveDsn ∧ W.liveDatabase liveDsn = .ok live ∧
    (W.answer (.restoreCopy liveDsn plan.archive) s).1 = .ok copy ∧
    teardownGuard copy.db.name live = .ok () ∧ value ≠ copy.db.dsn

/-- Only a child that reaches the copy is started. -/
def Directed (W : DrillWorld σ) : Guarantee DrillSig (DrillState σ) :=
  fun s c _ => ∀ child, c = .spawn child → plan.ReachesCopy W s child

end DrillPlan

/-! ## What the adapters start -/

/-- The entries of a key all have one value. -/
theorem lookup_reverse_eq_some {entries : List (String × String)} {key value : String}
    (hall : ∀ e ∈ entries, e.1 = key → e.2 = value) (hsome : ∃ e ∈ entries, e.1 = key) :
    entries.reverse.lookup key = some value := by
  cases hlookup : entries.reverse.lookup key with
  | none =>
      obtain ⟨e, he, rfl⟩ := hsome
      have hne := List.lookup_eq_none_iff.mp hlookup e (List.mem_reverse.mpr he)
      simp at hne
  | some found =>
      obtain ⟨before, after, heq, -⟩ := List.lookup_eq_some_iff.mp hlookup
      have hmem : (key, found) ∈ entries := by
        rw [← List.mem_reverse, heq]
        exact List.mem_append_right _ List.mem_cons_self
      exact congrArg some (hall _ hmem rfl)

section Adapters

variable {W : DrillWorld σ} {plan : DrillPlan} {s : DrillState σ} {ctx : AdapterCtx}
variable {liveDsn : String} {copy : RestoredCopy}

/-- A secret is resolved in process, or read from the environment. -/
theorem wp_drillSecret {logical : String}
    {Q : Except AdapterError String → DrillState σ → Prop}
    (herror : ∀ error, Q (.error error) s)
    (hresolved : ∀ value, ctx.resolvedSecrets.lookup logical = some value → Q (.ok value) s)
    (hread : ∀ source value, ctx.resolvedSecrets.lookup logical = none →
      ctx.envSecrets.lookup logical = some source → W.environ source = .ok value →
      Q (.ok value) s) :
    wp W.handler Eq (plan.Directed W) (ctx.secret drillShell.os logical) Q s := by
  unfold AdapterCtx.secret
  split
  · exact wp_ret.mpr (hresolved _ ‹_›)
  · rename_i hnone
    split
    · exact wp_ret.mpr (herror _)
    · rename_i source hsource
      refine wp_bind (wp_perform.mpr ⟨by rintro _ ⟨⟩, ?_⟩)
      simp only [DrillWorld.handler]
      cases hvalue : W.environ source with
      | error cause => exact wp_ret.mpr (herror _)
      | ok value => exact wp_ret.mpr (hread source value hnone hsource hvalue)

/-- Any child that reaches the copy may be started. -/
theorem wp_runCommand {child : Child} {adapter operation : String}
    (hchild : plan.ReachesCopy W s child) :
    wp W.handler Eq (plan.Directed W) (runCommand drillShell child adapter operation)
      (fun _ _ => True) s := by
  refine wp_bind (wp_perform.mpr ⟨?_, ?_⟩)
  · rintro _ ⟨⟩
    exact hchild
  · split
    · exact wp_ret.mpr trivial
    · exact wp_ret.mpr trivial

/-- Every variable named after the database secret holds the throwaway's address. -/
theorem resolveSecrets_spec (adapter : String) (keys : List String) :
    wp W.handler Eq (plan.Directed W)
      (CommandMigration.resolveSecrets drillShell.os (onThrowaway ctx copy.db) adapter keys)
      (fun r s' => s' = s ∧ ∀ envs, r = .ok envs →
        (∀ e ∈ envs, e.1 = databaseUrlSecret → e.2 = copy.db.dsn) ∧
        (databaseUrlSecret ∈ keys → ∃ e ∈ envs, e.1 = databaseUrlSecret)) s := by
  induction keys with
  | nil =>
      refine wp_ret.mpr ⟨rfl, ?_⟩
      rintro envs ⟨⟩
      simp
  | cons logical keys ih =>
      have hsecret : wp W.handler Eq (plan.Directed W)
          ((onThrowaway ctx copy.db).secret drillShell.os logical)
          (fun r s' => s' = s ∧ ∀ value, r = .ok value →
            logical = databaseUrlSecret → value = copy.db.dsn) s := by
        refine wp_drillSecret ?_ ?_ ?_
        · exact fun error => ⟨rfl, by rintro _ ⟨⟩⟩
        · intro value hvalue
          refine ⟨rfl, ?_⟩
          rintro _ ⟨⟩ rfl
          rw [lookup_onThrowaway] at hvalue
          exact (Option.some.inj hvalue).symm
        · intro source value hnone _ _
          refine ⟨rfl, ?_⟩
          rintro _ ⟨⟩ rfl
          rw [lookup_onThrowaway] at hnone
          cases hnone
      refine wp_bind (wp_post ?_ hsecret)
      rintro (error | value) _ ⟨rfl, hvalue⟩
      · exact wp_ret.mpr ⟨rfl, by rintro _ ⟨⟩⟩
      refine wp_bind (wp_post ?_ ih)
      rintro (error | envs) _ ⟨rfl, henvs⟩
      · exact wp_ret.mpr ⟨rfl, by rintro _ ⟨⟩⟩
      obtain ⟨hall, hsome⟩ := henvs envs rfl
      refine wp_ret.mpr ⟨rfl, ?_⟩
      rintro _ ⟨⟩
      refine ⟨List.forall_mem_cons.mpr ⟨hvalue value rfl, hall⟩, fun hmem => ?_⟩
      rcases List.mem_cons.mp hmem with hname | hmem
      · exact ⟨_, List.mem_cons_self, hname.symm⟩
      · obtain ⟨e, he, hname⟩ := hsome hmem
        exact ⟨e, List.mem_cons_of_mem _ he, hname⟩

/-- A child that has the copy set as its database reaches the copy. -/
theorem reachesCopy_of_set (hrestored : s.restored = some (liveDsn, copy))
    (hnew : copy.db.dsn ≠ liveDsn) {child : Child}
    (hset : child.env.reverse.lookup plan.databaseVar = some copy.db.dsn) :
    plan.ReachesCopy W s child := by
  refine ⟨liveDsn, copy, hrestored, ?_, hnew⟩
  rw [Child.var, hset, Option.some_or]

/-- Confiture is started on the copy. -/
theorem wp_confiture_up (tool : ConfitureMigration)
    (hvar : plan.databaseVar = ConfitureMigration.dsnEnv)
    (hrestored : s.restored = some (liveDsn, copy)) (hnew : copy.db.dsn ≠ liveDsn) :
    wp W.handler Eq (plan.Directed W) (tool.up drillShell (onThrowaway ctx copy.db) none)
      (fun _ _ => True) s := by
  refine wp_bind (wp_post (Q := fun _ _ => True) ?_ (wp_bind (wp_drillSecret ?_ ?_ ?_)))
  · rintro (error | captured) s' -
    · exact wp_ret.mpr trivial
    · exact wp_ite (fun _ => wp_ret.mpr trivial) fun _ => wp_ret.mpr trivial
  · exact fun error => wp_ret.mpr trivial
  · intro value hvalue
    rw [lookup_onThrowaway] at hvalue
    refine wp_runCommand (reachesCopy_of_set hrestored hnew ?_)
    rw [hvar, hvalue]
    simp
  · intro source value hnone
    rw [lookup_onThrowaway] at hnone
    cases hnone

/-- The release is not passed in a variable a database is taken from. -/
theorem releaseEnv_ne_database {e : String × String} (he : e ∈ CommandMigration.releaseEnv ctx) :
    e.1 ≠ databaseUrlSecret := by
  simp only [CommandMigration.releaseEnv, List.mem_cons, List.mem_append, Option.mem_toList,
    Option.map_eq_some_iff] at he
  rcases he with rfl | ⟨path, -, rfl⟩ | ⟨version, -, rfl⟩ <;> simp [databaseUrlSecret]

/-- A configured command is started on the copy when the database is declared. -/
theorem wp_command_up (tool : CommandMigration)
    (hvar : plan.databaseVar = databaseUrlSecret)
    (hdeclared : databaseUrlSecret ∈ ctx.envSecrets.map Prod.fst)
    (hrestored : s.restored = some (liveDsn, copy)) (hnew : copy.db.dsn ≠ liveDsn) :
    wp W.handler Eq (plan.Directed W) (tool.up drillShell (onThrowaway ctx copy.db) none)
      (fun _ _ => True) s := by
  refine wp_bind (wp_post (Q := fun _ _ => True) ?_ ?_)
  · rintro (error | captured) s' -
    · exact wp_ret.mpr trivial
    · exact wp_ite (fun _ => wp_ret.mpr trivial) fun _ => wp_ret.mpr trivial
  · unfold CommandMigration.runMethod
    split
    · exact wp_ret.mpr trivial
    · refine wp_bind (wp_post ?_ (resolveSecrets_spec tool.name _))
      rintro (error | envs) s' ⟨rfl, henvs⟩
      · exact wp_ret.mpr trivial
      · obtain ⟨hall, hsome⟩ := henvs envs rfl
        refine wp_runCommand (reachesCopy_of_set hrestored hnew ?_)
        rw [hvar]
        refine lookup_reverse_eq_some ?_ ?_
        · intro e he hname
          simp only [Option.map_none, Option.toList_none, List.append_nil,
            List.mem_append] at he
          rcases he with he | he
          · exact hall e he hname
          · exact absurd hname (releaseEnv_ne_database he)
        · obtain ⟨e, he, hname⟩ := hsome hdeclared
          exact ⟨e, List.mem_append_left _ (List.mem_append_left _ he), hname⟩

/-- An adapter in a process of its own is started on what was fixed for it. -/
theorem wp_ipc_up (tool : IpcMigrationAdapter)
    (hset : tool.envs.reverse.lookup plan.databaseVar = some copy.db.dsn)
    (hrestored : s.restored = some (liveDsn, copy)) (hnew : copy.db.dsn ≠ liveDsn)
    (target : Option Revision) :
    wp W.handler Eq (plan.Directed W) (tool.up drillShell plan.decode ctx target)
      (fun _ _ => True) s := by
  refine wp_bind (wp_perform.mpr ⟨?_, wp_ret.mpr trivial⟩)
  rintro _ ⟨⟩
  exact reachesCopy_of_set hrestored hnew hset

/-- What is built from a configuration: the adapter it names, and for one in a process of
its own the database that is fixed for it, or no database declared at all. -/
def DrillPlan.Builds (plan : DrillPlan) (W : DrillWorld σ) (migration : BuiltMigration)
    (declared : List (String × String)) : Prop :=
  match migration with
  | .none => True
  | .confiture _ => plan.adapterName = some "confiture"
  | .command _ => plan.adapterName = some "command"
  | .ipc tool => ∃ name, plan.adapterName = some name ∧
      name ∉ ["none", "confiture", "command"] ∧
      (declared = [] ∨ ∃ source value,
        plan.config.migration.bind MigrationSection.databaseUrlEnv = some source ∧
        W.environ source = .ok value ∧ tool.envs = [(databaseUrlSecret, value)] ∧
        declared = [(databaseUrlSecret, databaseUrlSecret)])

theorem buildMigration_spec :
    wp W.handler Eq (plan.Directed W)
      (buildMigration drillShell.os plan.output plan.config.migration)
      (fun r s' => s' = s ∧ ∀ built, r = .ok built → plan.Builds W built.1 built.2) s := by
  unfold buildMigration
  split
  · exact wp_ret.mpr ⟨rfl, by rintro _ ⟨⟩⟩
  · refine wp_ret.mpr ⟨rfl, ?_⟩
    rintro _ ⟨⟩
    trivial
  · rename_i hname
    have hprogram : wp W.handler Eq (plan.Directed W) (confitureProgram drillShell.os)
        (fun _ s' => s' = s) s := by
      refine wp_bind (wp_perform.mpr ⟨by rintro _ ⟨⟩, ?_⟩)
      split <;> exact wp_ret.mpr rfl
    refine wp_bind (wp_post ?_ hprogram)
    rintro program _ rfl
    refine wp_ret.mpr ⟨rfl, ?_⟩
    rintro _ ⟨⟩
    exact hname
  · rename_i hname
    refine wp_ret.mpr ⟨rfl, ?_⟩
    rintro _ ⟨⟩
    exact hname
  · rename_i name hnone hconfiture hcommand hname
    have hother : name ∉ ["none", "confiture", "command"] := by
      simp only [List.mem_cons, List.not_mem_nil, or_false, not_or]
      exact ⟨hnone, hconfiture, hcommand⟩
    dsimp only
    split
    · refine wp_ret.mpr ⟨rfl, ?_⟩
      rintro _ ⟨⟩
      exact ⟨name, hname, hother, .inl rfl⟩
    · rename_i source hsource
      refine wp_bind (wp_perform.mpr ⟨by rintro _ ⟨⟩, ?_⟩)
      simp only [DrillWorld.handler]
      cases hvalue : W.environ source with
      | error cause => exact wp_ret.mpr ⟨rfl, by rintro _ ⟨⟩⟩
      | ok value =>
          refine wp_ret.mpr ⟨rfl, ?_⟩
          rintro _ ⟨⟩
          exact ⟨name, hname, hother, .inr ⟨source, value, hsource, hvalue, rfl, rfl⟩⟩

/-- The health secret is no database. -/
theorem tokenSecrets_lookup_database (provider : Option TokenProvider) :
    ((provider.map TokenProvider.secrets).getD []).lookup databaseUrlSecret = none := by
  rcases provider with _ | _ | _ | _ <;> rfl

theorem buildMigrationOnly_spec :
    wp W.handler Eq (plan.Directed W)
      (buildMigrationOnly drillShell.os plan.output plan.config)
      (fun r s' => s' = s ∧ ∀ resolved, r = .ok resolved →
        (∃ fraise environment, plan.config.deploy = some ⟨some fraise, some environment⟩) ∧
        resolved.ctx.resolvedSecrets = [] ∧
        ∃ declared, plan.Builds W resolved.migration declared ∧
          resolved.ctx.envSecrets.lookup databaseUrlSecret =
            declared.lookup databaseUrlSecret) s := by
  unfold buildMigrationOnly
  split
  · exact wp_ret.mpr ⟨rfl, by rintro _ ⟨⟩⟩
  · exact wp_ret.mpr ⟨rfl, by rintro _ ⟨⟩⟩
  · exact wp_ret.mpr ⟨rfl, by rintro _ ⟨⟩⟩
  · rename_i fraise environment hdeploy
    refine wp_bind (wp_post ?_ buildMigration_spec)
    rintro (error | ⟨migration, declared⟩) _ ⟨rfl, hbuilt⟩
    · exact wp_ret.mpr ⟨rfl, by rintro _ ⟨⟩⟩
    · refine wp_ret.mpr ⟨rfl, ?_⟩
      rintro _ ⟨⟩
      refine ⟨⟨fraise, environment, hdeploy⟩, rfl, declared, hbuilt _ rfl, ?_⟩
      rw [List.lookup_append, tokenSecrets_lookup_database, Option.or_none]

/-- The adapter migrates the copy unless it is in a process of its own with another
database fixed for it. -/
theorem wp_built_up {migration : BuiltMigration} {declared : List (String × String)}
    (hbuilt : plan.Builds W migration declared) {source : String}
    (hdeclared : declared.lookup databaseUrlSecret = some source)
    (hsource : ctx.envSecrets.lookup databaseUrlSecret = some source)
    (hrestored : s.restored = some (liveDsn, copy)) (hnew : copy.db.dsn ≠ liveDsn)
    (hipc : ∀ name db value, plan.adapterName = some name →
      name ∉ ["none", "confiture", "command"] →
      plan.config.migration.bind MigrationSection.databaseUrlEnv = some db →
      W.environ db = .ok value → source = databaseUrlSecret → value = copy.db.dsn) :
    wp W.handler Eq (plan.Directed W) ((migration.adapter plan).up (onThrowaway ctx copy.db) none)
      (fun _ _ => True) s := by
  cases migration with
  | none => exact wp_ret.mpr trivial
  | confiture tool =>
      refine wp_confiture_up tool ?_ hrestored hnew
      exact if_pos hbuilt
  | command tool =>
      refine wp_command_up tool ?_ ?_ hrestored hnew
      · have hname : plan.adapterName = some "command" := hbuilt
        rw [DrillPlan.databaseVar, hname]
        rfl
      · obtain ⟨before, after, heq, -⟩ := List.lookup_eq_some_iff.mp hsource
        rw [heq]
        simp
  | ipc tool =>
      obtain ⟨name, hname, hother, rfl | ⟨db, value, hdb, hvalue, henvs, rfl⟩⟩ := hbuilt
      · cases hdeclared
      · have hsame : source = databaseUrlSecret := by
          simpa [eq_comm] using hdeclared
        refine wp_ipc_up tool ?_ hrestored hnew none
        have hvar : plan.databaseVar = databaseUrlSecret := by
          refine if_neg ?_
          rw [hname]
          rintro ⟨⟩
          simp at hother
        rw [henvs, hvar, hipc name db value hname hother hdb hvalue hsame]
        simp

/-- A drill that is not misdirected starts no child that misses the copy. -/
theorem drill_directed {world : σ} (hgood : ¬ plan.Misdirected W world) :
    wp W.handler Eq (plan.Directed W) (plan.drill W.liveDatabase) (fun _ _ => True)
      ⟨world, none⟩ := by
  refine wp_bind (wp_post ?_ buildMigrationOnly_spec)
  rintro (error | ⟨migration, ctx⟩) _ ⟨rfl, hresolved⟩
  · exact wp_ret.mpr trivial
  obtain ⟨hdeploy, hempty, declared, hbuilt, hlookup⟩ := hresolved _ rfl
  refine wp_bind (wp_post (fun _ _ _ => wp_ret.mpr trivial) (Q := fun _ _ => True) ?_)
  refine wp_bind (wp_drillSecret ?_ ?_ ?_)
  · exact fun error => wp_ret.mpr trivial
  · intro value hvalue
    rw [show ctx.resolvedSecrets = [] from hempty] at hvalue
    cases hvalue
  intro source liveDsn _ hsource hlive
  dsimp only [drillDb]
  cases hdatabase : W.liveDatabase liveDsn with
  | error message => exact wp_ret.mpr trivial
  | ok live =>
  refine wp_bind (wp_perform.mpr ⟨by rintro _ ⟨⟩, ?_⟩)
  have hanswer : (W.handler (.restoreCopy liveDsn plan.archive) ⟨world, none⟩).1 =
      (W.answer (.restoreCopy liveDsn plan.archive) world).1 := rfl
  cases hcopy : (W.handler (.restoreCopy liveDsn plan.archive) ⟨world, none⟩).1 with
  | error message => exact wp_ret.mpr trivial
  | ok copy =>
  rw [hanswer] at hcopy
  have hrestored : (W.handler (.restoreCopy liveDsn plan.archive) ⟨world, none⟩).2.restored =
      some (liveDsn, copy) := by
    simp only [DrillWorld.handler, hcopy]
  dsimp only
  cases hguard : teardownGuard copy.db.name live with
  | error reason => exact wp_ret.mpr trivial
  | ok _ =>
  refine wp_bind (wp_post (Q := fun _ _ => True) ?_ (wp_bind (wp_post ?_
    (wp_built_up hbuilt (hlookup.symm.trans hsource) hsource hrestored
      (W.restoresNew _ _ _ _ hcopy) ?_))))
  · rintro checked s' -
    refine wp_bind (wp_perform.mpr ⟨by rintro _ ⟨⟩, ?_⟩)
    split <;> exact wp_ret.mpr trivial
  · rintro (error | migrated) s' -
    · exact wp_ret.mpr trivial
    · refine wp_bind (wp_perform.mpr ⟨by rintro _ ⟨⟩, ?_⟩)
      split
      · exact wp_ret.mpr trivial
      · split
        · exact wp_ite (fun _ => wp_ret.mpr trivial) fun _ => wp_ret.mpr trivial
        · exact wp_ret.mpr trivial
  · intro name db value hname hother hdb hvalue hsame
    by_contra hne
    exact hgood ⟨name, db, value, liveDsn, live, copy, hname, hother, hdb, hvalue, hdeploy,
      hsame ▸ hlive, hdatabase, hcopy, hguard, hne⟩

/-! ## A drill that is misdirected -/

theorem exec_var {β : Type} {f : Except VarError String → Prog DrillSig β} (name : String)
    (sched : List Bool) :
    (drillShell.os.var name >>= f).exec W.handler sched s =
      let r := (f (W.environ name)).exec W.handler sched s
      { r with steps := Prog.answer W.handler (.var name) s :: r.steps } := rfl

theorem buildMigration_ipc {name db value : String} (hname : plan.adapterName = some name)
    (hother : name ∉ ["none", "confiture", "command"])
    (hdb : plan.config.migration.bind MigrationSection.databaseUrlEnv = some db)
    (hvalue : W.environ db = .ok value) (sched : List Bool) :
    (buildMigration drillShell.os plan.output plan.config.migration).exec W.handler sched s =
      ⟨.ok (.ipc ⟨"fraisier-adapter-" ++ name, name, [(databaseUrlSecret, value)]⟩,
          [(databaseUrlSecret, databaseUrlSecret)]), s,
        [Prog.answer W.handler (.var db) s], sched⟩ := by
  have hname : plan.config.migration.bind MigrationSection.adapter = some name := hname
  unfold buildMigration
  split
  · simp_all
  · simp_all
  · simp_all
  · simp_all
  · rename_i other _ _ _ hother'
    cases hname.symm.trans hother'
    dsimp only
    rw [hdb]
    simp only [exec_var, hvalue]
    rfl

theorem buildMigrationOnly_ipc {name db value fraise environment : String}
    (hdeploy : plan.config.deploy = some ⟨some fraise, some environment⟩)
    (hname : plan.adapterName = some name) (hother : name ∉ ["none", "confiture", "command"])
    (hdb : plan.config.migration.bind MigrationSection.databaseUrlEnv = some db)
    (hvalue : W.environ db = .ok value) (sched : List Bool) :
    ∃ ctx : AdapterCtx, ctx.resolvedSecrets = [] ∧
      ctx.envSecrets.lookup databaseUrlSecret = some databaseUrlSecret ∧
      (buildMigrationOnly drillShell.os plan.output plan.config).exec W.handler sched s =
        ⟨.ok ⟨.ipc ⟨"fraisier-adapter-" ++ name, name, [(databaseUrlSecret, value)]⟩, ctx⟩, s,
          [Prog.answer W.handler (.var db) s], sched⟩ := by
  simp only [buildMigrationOnly, hdeploy, Prog.exec_bind,
    buildMigration_ipc hname hother hdb hvalue]
  exact ⟨_, rfl, rfl, rfl⟩

theorem secret_read {value source : String} (hempty : ctx.resolvedSecrets = [])
    (hsource : ctx.envSecrets.lookup databaseUrlSecret = some source)
    (hvalue : W.environ source = .ok value) (sched : List Bool) :
    (ctx.secret drillShell.os databaseUrlSecret).exec W.handler sched s =
      ⟨.ok value, s, [Prog.answer W.handler (.var source) s], sched⟩ := by
  simp only [AdapterCtx.secret, hempty, List.lookup_nil, hsource, exec_var, hvalue]
  rfl

/-- The drill reaches the migration on the restored copy. -/
theorem up_steps_of_restored {world : σ} {migration : MigrationAdapter DrillSig}
    {source live : String} {minTables : Option Nat} {t : Transition DrillSig (DrillState σ)}
    (hempty : ctx.resolvedSecrets = [])
    (hsource : ctx.envSecrets.lookup databaseUrlSecret = some source)
    (hlive : W.environ source = .ok liveDsn) (hdatabase : W.liveDatabase liveDsn = .ok live)
    (hcopy : (W.answer (.restoreCopy liveDsn plan.archive) world).1 = .ok copy)
    (hguard : teardownGuard copy.db.name live = .ok ())
    (ht : t ∈ ((migration.up (onThrowaway ctx copy.db) none).exec W.handler []
      ⟨(W.answer (.restoreCopy liveDsn plan.archive) world).2, some (liveDsn, copy)⟩).steps) :
    t ∈ ((runRestoreDrill (drillDb W.liveDatabase) drillShell.os migration ctx plan.archive
      minTables).exec W.handler [] ⟨world, none⟩).steps := by
  have hrestore : ((drillDb W.liveDatabase).restoreCopy liveDsn plan.archive).exec W.handler []
      ⟨world, none⟩ = ⟨.ok copy,
        ⟨(W.answer (.restoreCopy liveDsn plan.archive) world).2, some (liveDsn, copy)⟩,
        [Prog.answer W.handler (.restoreCopy liveDsn plan.archive) ⟨world, none⟩], []⟩ := by
    simp only [drillDb, Prog.perform, Prog.exec, DrillWorld.handler, hcopy]
  refine Prog.mem_steps_bind_right ?_
  simp only [secret_read hempty hsource hlive]
  rw [show (drillDb W.liveDatabase).liveDatabase liveDsn = .ok live from hdatabase]
  refine Prog.mem_steps_bind_right ?_
  simp only [hrestore, hguard]
  exact Prog.mem_steps_bind_left (Prog.mem_steps_bind_left ht)

/-- A misdirected drill starts a child that misses the copy. -/
theorem misdirected_spawns {world : σ} (hbad : plan.Misdirected W world) :
    ¬ plan.OnThrowaway W world := by
  obtain ⟨name, db, value, liveDsn, live, copy, hname, hother, hdb, hvalue,
    ⟨fraise, environment, hdeploy⟩, hlive, hdatabase, hcopy, hguard, hne⟩ := hbad
  intro hon
  have hvar : plan.databaseVar = databaseUrlSecret := by
    refine if_neg ?_
    rw [hname]
    rintro ⟨⟩
    simp at hother
  obtain ⟨ctx, hempty, hsource, hbuild⟩ := buildMigrationOnly_ipc (s := ⟨world, none⟩) hdeploy
    hname hother hdb hvalue []
  obtain ⟨liveDsn', copy', hrestored, hreaches, -⟩ := hon
    (Prog.answer W.handler (.spawn _)
      ⟨(W.answer (.restoreCopy liveDsn plan.archive) world).2, some (liveDsn, copy)⟩)
    (by
      refine Prog.mem_steps_bind_right ?_
      rw [hbuild]
      refine Prog.mem_steps_bind_left
        (up_steps_of_restored hempty hsource hlive hdatabase hcopy hguard ?_)
      exact List.mem_cons_self) _ rfl
  cases hrestored
  rw [hvar] at hreaches
  exact hne (Option.some.inj hreaches)

/-- Every child of a drill reaches the throwaway unless the adapter is in a process of its
own and was given another database when it was built. -/
theorem drill_onThrowaway_iff (plan : DrillPlan) (W : DrillWorld σ) (world : σ) :
    plan.OnThrowaway W world ↔ ¬ plan.Misdirected W world := by
  constructor
  · exact fun hon hbad => misdirected_spawns hbad hon
  · intro hgood t ht
    exact (wp_exec (drill_directed hgood) []).2 t ht

end Adapters

/-! ## A drill on the live database -/

/-- An accepted configuration whose adapter is in a process of its own. -/
def customDrill : DrillPlan where
  config :=
    { deploy := some ⟨some "app", some "production"⟩
      migration := some ⟨some "custom", some "DATABASE_URL", none, none, none, []⟩
      hosts := false
      backup := some ⟨some "/var/backups/app"⟩
      drill := some ⟨none, none, none, none⟩
      tokenProvider := none
      settings := [] }
  archive := "/var/backups/app/1.dump"
  looks := noDatabase
  decode _ := .ok .default
  output _ := ""

/-- A world in which everything works. -/
def workingDrill : DrillWorld Unit where
  environ
    | "DATABASE_URL" => .ok "postgres://db/app"
    | _ => .error .notPresent
  withheld := []
  liveDatabase _ := .ok "app"
  answer
    | .var _, _ => (.error .notPresent, ())
    | .isDir _, _ => (true, ())
    | .spawn _, _ => (.ok ⟨some 0, "", "", none⟩, ())
    | .restoreCopy liveDsn _, _ =>
        (.ok ⟨⟨liveDsn ++ "_fraisier_rh_1", "app_fraisier_rh_1", "app"⟩, none⟩, ())
    | .tableCount _, _ => (.ok 12, ())
    | .teardown _, _ => (.ok (), ())
  restoresNew := by
    rintro liveDsn _ _ _ ⟨⟩ heq
    have hlength := congrArg String.length heq
    simp at hlength

/-- The drill of an accepted configuration migrates the live database: the variable that was
fixed when the adapter was built wins over the throwaway. -/
theorem drill_on_live_database :
    customDrill.config.Accepted Except.ok ∧ customDrill.config.drill.isSome ∧
      ¬ customDrill.OnThrowaway workingDrill () := by
  refine ⟨?_, rfl, misdirected_spawns ?_⟩
  · have hissues : customDrill.config.validateDeploy ++ customDrill.config.validateMigration ++
        customDrill.config.validateDrill Except.ok = [] := by
      decide +kernel
    rw [DeployConfig.Accepted, hissues]
    simp
  · have hguard : teardownGuard "app_fraisier_rh_1" "app" = .ok () := by
      rw [teardownGuard, if_neg (by decide +kernel), if_neg (by decide)]
    exact ⟨"custom", "DATABASE_URL", "postgres://db/app", "postgres://db/app", "app",
      ⟨⟨"postgres://db/app_fraisier_rh_1", "app_fraisier_rh_1", "app"⟩, none⟩, rfl, by decide, rfl,
      rfl, ⟨_, _, rfl⟩, rfl, rfl, rfl, hguard, by decide⟩

end Fraisier.Core
