import Fraisier.Core.Policy

/-!
# Rehearsing on a throwaway database

A throwaway copy of the live database is provisioned from a backup, the pending
migrations run there, and the copy is torn down whatever they did. The adapter reaches
the copy through a call context whose database secret is redirected in process.
-/

namespace Fraisier.Core

open Fraisier.Effect Fraisier.Saga

variable {T : Sig}

/-- The logical secret that names the database a preflight classifies against. -/
def againstDatabaseUrlSecret : String := "AGAINST_DATABASE_URL"

/-- The capability of a preflight that can classify against a seeded copy. -/
def deepClassification : String := "deep_classification"

/-- Where the seed data of a throwaway comes from. -/
inductive BackupSource where
  | freshDump
  | archive (path : String)
deriving DecidableEq

/-- A provisioned throwaway database and the live one it was copied from. -/
structure ThrowawayDb where
  dsn : String
  name : String
  live : String
deriving DecidableEq

/-- The outcome of a successful rehearsal. -/
structure RehearsalReport where
  applied : List Revision
  teardownWarning : Option String

/-- A failure of a rehearsal. -/
inductive RehearsalError where
  | secret (error : AdapterError)
  | provision (message : String)
  | migrate (error : AdapterError)
deriving DecidableEq

instance : ToString RehearsalError where
  toString
    | .secret error => s!"restore-rehearsal could not resolve the database DSN: {error}"
    | .provision message =>
        s!"restore-rehearsal could not provision the throwaway database: {message}"
    | .migrate error =>
        s!"restore-rehearsal migration failed on the throwaway database: {error}"

/-- What the operator should do about a failed rehearsal. -/
def RehearsalError.remedy : RehearsalError → String
  | .migrate _ =>
      "The pending migrations did not apply cleanly on a fresh restore. Fix the migrations"
  | .provision _ =>
      "The pending migrations were not rehearsed: the throwaway copy could not be created or " ++
      "seeded. If the database role may not create databases, grant it CREATEDB or name a " ++
      "restore identity with `[database].admin_url_env`. Otherwise fix the cause above"
  | .secret _ =>
      "The pending migrations were not rehearsed: the live database DSN could not be resolved. " ++
      "Check the `DATABASE_URL` secret"

/-- Provision and tear down throwaway databases. -/
structure RehearsalDb (T : Sig) where
  provision : String → BackupSource → Prog T (Except RehearsalError ThrowawayDb)
  teardown : ThrowawayDb → Prog T (Except String Unit)

/-- Provision a throwaway copy of a context's live database. -/
def provision (db : RehearsalDb T) (os : Os T) (ctx : AdapterCtx) (backup : BackupSource) :
    Prog T (Except RehearsalError ThrowawayDb) := do
  match ← ctx.secret os databaseUrlSecret with
  | .error error => return .error (.secret error)
  | .ok liveDsn => db.provision liveDsn backup

/-- A context with its database redirected at a throwaway. -/
def onThrowaway (ctx : AdapterCtx) (throwaway : ThrowawayDb) : AdapterCtx :=
  ctx.withResolvedSecret databaseUrlSecret throwaway.dsn

/-- A redirected context that also names the throwaway as the database to classify
against. -/
def againstThrowaway (ctx : AdapterCtx) (throwaway : ThrowawayDb) : AdapterCtx :=
  (onThrowaway ctx throwaway).withResolvedSecret againstDatabaseUrlSecret throwaway.dsn

/-- Whether an adapter can classify against a seeded copy. -/
def classifiesDeeply (described : AdapterDescription) : Bool :=
  described.capabilities.any fun capability => capability == deepClassification

/-- Rehearse the pending migrations on a provisioned throwaway. -/
def rehearseOn (migration : MigrationAdapter T) (ctx : AdapterCtx) (throwaway : ThrowawayDb) :
    Prog T (Except RehearsalError (List Revision)) := do
  match ← migration.up (onThrowaway ctx throwaway) none with
  | .error error => return .error (.migrate error)
  | .ok outcome => return .ok outcome.applied

/-- Provision a throwaway, rehearse the pending migrations on it and tear it down. -/
def runRestoreRehearsal (db : RehearsalDb T) (os : Os T) (migration : MigrationAdapter T)
    (ctx : AdapterCtx) (backup : BackupSource) :
    Prog T (Except RehearsalError RehearsalReport) := do
  match ← provision db os ctx backup with
  | .error error => return .error error
  | .ok throwaway =>
    let migrateResult ← rehearseOn migration ctx throwaway
    let teardownResult ← db.teardown throwaway
    match migrateResult with
    | .error error => return .error error
    | .ok applied =>
        return .ok ⟨applied, match teardownResult with | .error e => some e | .ok () => none⟩

/-- A redirected context resolves the database secret to the throwaway. -/
theorem lookup_onThrowaway (ctx : AdapterCtx) (throwaway : ThrowawayDb) :
    (onThrowaway ctx throwaway).resolvedSecrets.lookup databaseUrlSecret =
      some throwaway.dsn := by
  simp [onThrowaway, AdapterCtx.withResolvedSecret]

section Sequential

variable {P : T.Cmd → Prop} {db : RehearsalDb T} {os : Os T} {migration : MigrationAdapter T}
variable {ctx : AdapterCtx} {backup : BackupSource}

theorem provision_sequential (hvar : ∀ name, (os.var name).Sequential P)
    (hprovision : ∀ dsn backup, (db.provision dsn backup).Sequential P) :
    (provision db os ctx backup).Sequential P := by
  refine (AdapterCtx.secret_sequential hvar).bind ?_
  rintro (_ | dsn)
  · exact .ret _
  · exact hprovision dsn backup

/-- A rehearsal calls the adapter with the redirected context only. -/
theorem rehearseOn_sequential {throwaway : ThrowawayDb}
    (hup : (migration.up (onThrowaway ctx throwaway) none).Sequential P) :
    (rehearseOn migration ctx throwaway).Sequential P := by
  refine hup.bind ?_
  rintro (_ | _)
  · exact .ret _
  · exact .ret _

theorem runRestoreRehearsal_sequential (hvar : ∀ name, (os.var name).Sequential P)
    (hprovision : ∀ dsn backup, (db.provision dsn backup).Sequential P)
    (hup : ∀ throwaway, (migration.up (onThrowaway ctx throwaway) none).Sequential P)
    (hteardown : ∀ throwaway, (db.teardown throwaway).Sequential P) :
    (runRestoreRehearsal db os migration ctx backup).Sequential P := by
  refine (provision_sequential hvar hprovision).bind ?_
  rintro (_ | throwaway)
  · exact .ret _
  · refine (rehearseOn_sequential (hup throwaway)).bind fun result => ?_
    refine (hteardown throwaway).bind fun _ => ?_
    cases result with
    | error _ => exact .ret _
    | ok _ => exact .ret _

end Sequential

end Fraisier.Core
