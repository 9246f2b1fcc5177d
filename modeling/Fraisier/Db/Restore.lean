import Fraisier.Data.Text
import Fraisier.Effect.Logic

/-!
# What restore-class operations share

Who a restore-class operation runs as, the database operations it needs, and the checks
every one makes before its first destructive step. The operations are the commands of
`ServerSig`; each may fail, with the text it failed with.
-/

namespace Fraisier.Db

open Fraisier.Effect

/-- Connection parameters resolved from a DSN. -/
structure PgConn where
  host : Option String
  port : Option UInt16
  user : Option String
  password : Option String
  database : String
  sslmode : Option String
deriving DecidableEq

/-- The same server and role, another database. -/
def PgConn.withDatabase (conn : PgConn) (database : String) : PgConn :=
  { conn with database := database }

/-- Whether a name is safe for a database: letters, digits and underscores that do not begin
with a digit, and at most 63 of them. -/
def validateDbName (name : String) : Bool :=
  match name.toList with
  | [] => false
  | head :: rest =>
      (head.isAlpha || head == '_') && rest.all (fun c => c.isAlphanum || c == '_') &&
        decide (name.utf8ByteSize ≤ 63)

section Names

variable {name : String}

theorem isWord_of_validateDbName (h : validateDbName name = true) {c : Char}
    (hc : c ∈ name.toList) : (c.isAlphanum || c == '_') = true := by
  rw [validateDbName] at h
  split at h
  · cases h
  next head rest hname =>
    simp only [Bool.and_eq_true] at h
    obtain ⟨⟨hhead, hrest⟩, -⟩ := h
    obtain rfl | hc := List.mem_cons.mp (hname ▸ hc)
    · obtain hhead | hhead := Bool.or_eq_true_iff.mp hhead
      · rw [Char.isAlphanum, hhead, Bool.true_or, Bool.true_or]
      · rw [hhead, Bool.or_true]
    · exact List.all_eq_true.mp hrest c hc

theorem not_mem_of_validateDbName (h : validateDbName name = true) {c : Char}
    (hc : (c.isAlphanum || c == '_') = false) : c ∉ name.toList := by
  intro hmem
  rw [isWord_of_validateDbName h hmem] at hc
  cases hc

theorem ne_nil_of_validateDbName (h : validateDbName name = true) : name.toList ≠ [] := by
  intro hnil
  rw [validateDbName, hnil] at h
  cases h

end Names

/-- The admin identity: the variable holding its DSN, and the connection the DSN parses to. -/
structure Admin where
  env : String
  conn : PgConn

/-- Who a restore-class operation runs as. `withheld` names the variable of an admin
identity that is configured but was not resolved. -/
structure RestoreIdentity where
  app : PgConn
  admin : Option Admin
  withheld : Option String

namespace RestoreIdentity

/-- Whether the admin identity restores. -/
def usesAdmin (identity : RestoreIdentity) : Bool :=
  identity.admin.isSome

/-- The connection that restores into, creates and drops a database. -/
def restorer (identity : RestoreIdentity) (database : String) : PgConn :=
  ((identity.admin.map Admin.conn).getD identity.app).withDatabase database

/-- The variable a refusal points at. -/
def adminEnv (identity : RestoreIdentity) : Option String :=
  (identity.admin.map Admin.env).or identity.withheld

@[simp] theorem restorer_database (identity : RestoreIdentity) (database : String) :
    (identity.restorer database).database = database := rfl

end RestoreIdentity

/-! ## The server -/

/-- Who a connection is. -/
structure Identity where
  user : String
  superuser : Bool

/-- One entity a TVIEW rebuild filled, and the rows it inserted. -/
structure Rebuilt where
  entity : String
  rows : Int
deriving DecidableEq

/-- A schema privilege a refresh grants. -/
inductive SchemaPrivilege where
  | usage
  | create
deriving DecidableEq

def SchemaPrivilege.keyword : SchemaPrivilege → String
  | .usage => "USAGE"
  | .create => "CREATE"

/-- The database operations of a restore, of the refresh marker and of a refresh. -/
inductive ServerCall where
  | list (archive : String)
  | identity (conn : PgConn)
  | currentUser (conn : PgConn)
  | dump (conn : PgConn) (out : String)
  | create (maintenance : PgConn) (name : String) (owner : Option String)
  | restore (conn : PgConn) (archive : String) (clean : Bool)
  | drop (maintenance : PgConn) (name : String)
  | rebuild (conn : PgConn) (onlyEmpty : Bool)
  | stillEmpty (conn : PgConn)
  | marker (conn : PgConn)
  | markerPrivilege (conn : PgConn)
  | setMarker (conn : PgConn) (value : String)
  | connections (maintenance : PgConn) (db : String)
  | extensionsProblem (conn : PgConn) (extensions : List String)
  | databaseBytes (conn : PgConn)
  | tableCount (conn : PgConn)
  | createExtensions (conn : PgConn) (extensions : List String)
  | schemas (conn : PgConn)
  | schemaPrivilege (conn : PgConn) (privilege : SchemaPrivilege) (schema role : String)
      (revoke : Bool)
  | restoreList (conn : PgConn) (archive list : String) (role : Option String) (dataOnly : Bool)

/-- What each operation returns when it succeeds. -/
def ServerCall.Value : ServerCall → Type
  | .list _ => String
  | .identity _ => Identity
  | .currentUser _ => String
  | .dump _ _ => Unit
  | .create _ _ _ => Unit
  | .restore _ _ _ => String
  | .drop _ _ => Unit
  | .rebuild _ _ => List Rebuilt
  | .stillEmpty _ => List String
  | .marker _ => Option String
  | .markerPrivilege _ => Option String
  | .setMarker _ _ => Unit
  | .connections _ _ => List String
  | .extensionsProblem _ _ => Option String
  | .databaseBytes _ => Nat
  | .tableCount _ => Nat
  | .createExtensions _ _ => Unit
  | .schemas _ => List String
  | .schemaPrivilege _ _ _ _ _ => Unit
  | .restoreList _ _ _ _ _ => String

/-- The database server as a signature: every operation may fail. -/
@[reducible] def ServerSig : Sig where
  Cmd := ServerCall
  Ans c := Except String c.Value

/-- Ask the server. -/
def server (c : ServerCall) : Prog ServerSig (Except String c.Value) :=
  Prog.perform (S := ServerSig) c

/-- Why a restore failed: before anything was created or dropped, or after. -/
inductive RestoreError where
  | refused (reason : String)
  | failed (reason : String)
deriving DecidableEq

/-! ## The checks before the first destructive step -/

/-- The elements from position `a` up to position `b`, if there are that many. -/
def slice {α : Type} (a b : Nat) (items : List α) : Option (List α) :=
  if b ≤ items.length then some ((items.take b).drop a) else none

/-- Whether a listing creates the pg_tviews extension. -/
def archiveCreatesPgTviews (listing : String) : Bool :=
  (Data.lines listing).any fun line =>
    slice 3 6 (Data.splitWhitespace line) = some ["EXTENSION", "-", "pg_tviews"]

/-- Refuse a restore that `restorer` cannot finish. -/
def restorePrecheck (listing : String) (restorer : Identity)
    (rebuildProblem adminEnv : Option String) : Except String Unit :=
  if archiveCreatesPgTviews listing then
    if restorer.superuser then
      match rebuildProblem with
      | some problem =>
          .error s!"the post-restore TVIEW rebuild would fail, so nothing was changed: {problem}"
      | none => .ok ()
    else
      let setting := match adminEnv with
        | none => "set [database].admin_url_env to a superuser DSN (peer auth over the Unix socket)"
        | some env => s!"set {env} ([database].admin_url_env) to a superuser DSN"
      let user := restorer.user
      .error <| "this archive creates the pg_tviews extension, which only a superuser can " ++
        s!"restore, and role '{user}' is not one: a restore would load the tables and leave " ++
        s!"the database without pg_tviews. Nothing was changed. To restore it, {setting}"
  else .ok ()

/-- The archive's listing, or the refusal saying it does not read back. -/
def list (archive : String) : Prog ServerSig (Except RestoreError String) := do
  match ← server (.list archive) with
  | .error error =>
      return .error (.refused s!"pg_restore --list cannot read the archive: {error}")
  | .ok listing => return .ok listing

/-- Refuse a restore of the listed archive that `restorer` could not finish. Returns whether
the archive creates pg_tviews. -/
def precheckListing (identity : RestoreIdentity) (restorer : PgConn) (listing : String) :
    Prog ServerSig (Except RestoreError Bool) := do
  if archiveCreatesPgTviews listing then
    match ← server (.identity restorer) with
    | .error error => return .error (.refused error)
    | .ok who =>
      match who.superuser, identity.withheld with
      | false, some env =>
          return .error <| .refused <|
            "this archive creates the pg_tviews extension, which only a superuser can " ++
            "restore, and a run started by the webhook never uses the admin identity " ++
            s!"({env}, [database].admin_url_env). Nothing was changed. Run this deploy " ++
            "from the CLI or its timer instead"
      | _, _ =>
        match restorePrecheck listing who none identity.adminEnv with
        | .error error => return .error (.refused error)
        | .ok () => return .ok true
  else return .ok false

/-- What the TVIEW rebuild after a restore did. -/
structure TviewRebuild where
  rebuilt : List Rebuilt
  stillEmpty : List String
deriving DecidableEq

/-- Refill the empty TVIEWs, then probe for any still empty. -/
def rebuild (conn : PgConn) : Prog ServerSig (Except String TviewRebuild) := do
  match ← server (.rebuild conn true) with
  | .error error => return .error error
  | .ok rebuilt =>
    match ← server (.stillEmpty conn) with
    | .error error =>
        return .error s!"could not check the TVIEWs after the rebuild: {error}"
    | .ok stillEmpty => return .ok ⟨rebuilt, stillEmpty⟩

end Fraisier.Db
