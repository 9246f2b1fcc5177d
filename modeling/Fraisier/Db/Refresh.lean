import Fraisier.Db.Restore

/-!
# Replacing a database with an archive

`refreshInPlace` drops the database a configuration names and restores another
environment's archive in its place. What can refuse runs first (`refreshChecks`); the rest
(`replaceDatabase`) starts with the drop. The listing of the archive is split in two, for
the app role and for the admin.
-/

namespace Fraisier.Db

open Fraisier.Effect

/-! ## The listing of an archive -/

/-- The object name of an entry of the given kind. A comment is not an entry. -/
def tocEntry (line : String) (kind : List String) : Option String :=
  if line.startsWith ";" then none
  else
    let tokens := Data.splitWhitespace line
    if slice 3 (3 + kind.length) tokens = some kind then tokens[3 + kind.length]? else none

/-- The extensions a listing creates. -/
def archiveExtensions (listing : String) : List String :=
  (Data.lines listing).filterMap fun line => tocEntry line ["EXTENSION", "-"]

/-- Lines as a text, each ended by a newline. -/
def unlines (lines : List String) : String :=
  lines.foldl (fun text line => text ++ line ++ "\n") ""

/-- A listing without the entries that create, or comment on, the extensions. -/
def withoutExtensions (listing : String) (extensions : List String) : String :=
  let created (name : Option String) := name.any extensions.contains
  unlines <| (Data.lines listing).filter fun line =>
    !created (tocEntry line ["EXTENSION", "-"]) &&
      !created (tocEntry line ["COMMENT", "-", "EXTENSION"])

/-- A restore as two lists: what the app role restores, and the rows of tables an extension
owns. `madeSchemas` are the schemas of the archive that exist already. -/
structure RestoreLists where
  app : String
  extensionData : String
  madeSchemas : List String
deriving DecidableEq

/-- The words of an entry from its kind on. -/
def entryWords (line : String) : List String :=
  if line.startsWith ";" then [] else (Data.splitWhitespace line).drop 3

/-- The tables a listing creates, with their schemas. -/
def listedTables (listing : String) : List (String × String) :=
  (Data.lines listing).filterMap fun line =>
    match entryWords line with
    | "TABLE" :: schema :: name :: _ => if schema = "DATA" then none else some (schema, name)
    | _ => none

/-- Put one line of the listing into the lists. -/
def splitLine (existing : List String) (tables : List (String × String)) (lists : RestoreLists)
    (line : String) : RestoreLists :=
  let words := entryWords line
  let created := match words with
    | "SCHEMA" :: "-" :: name :: _ => if name ∈ existing then some name else none
    | _ => none
  let aboutSchema := match words with
    | "ACL" :: "-" :: "SCHEMA" :: name :: _ => decide (name ∈ existing)
    | "COMMENT" :: "-" :: "SCHEMA" :: name :: _ => decide (name ∈ existing)
    | _ => false
  let extensionRows := match words with
    | "TABLE" :: "DATA" :: schema :: name :: _ => decide ((schema, name) ∉ tables)
    | _ => false
  let lists := { lists with madeSchemas := lists.madeSchemas ++ created.toList }
  if extensionRows then { lists with extensionData := lists.extensionData ++ line ++ "\n" }
  else if created.isSome || aboutSchema then lists
  else { lists with app := lists.app ++ line ++ "\n" }

/-- Split a listing for a restore into a database where the extensions were created and the
given schemas exist. -/
def splitListing (listing : String) (extensions existing : List String) : RestoreLists :=
  (Data.lines (withoutExtensions listing extensions)).foldl
    (splitLine existing (listedTables listing)) ⟨"", "", []⟩

/-! ## The checks -/

/-- What a refresh restored. -/
structure Refreshed where
  warnings : String
  extensions : List String
  tviews : Option TviewRebuild
deriving DecidableEq

/-- A refusal of the refresh. -/
def refusal (reason : String) : RestoreError :=
  .refused s!"{reason}. Nothing was changed"

/-- Why the database the restorer names may not be dropped yet: it does not carry the
marker, or another session is connected to it. -/
def markedAndIdle (restorer maintenance : PgConn) (marker : String) :
    Prog ServerSig (Except String Unit) := do
  let target := restorer.database
  match ← server (.marker restorer) with
  | .error error => return .error s!"could not read the refresh marker: {error}"
  | .ok none =>
      return .error <| s!"{target} carries no refresh marker; mark it once with `fraisier db " ++
        s!"mark-refresh-target` ({marker})"
  | .ok (some found) =>
    if found = marker then
      match ← server (.connections maintenance target) with
      | .error error => return .error s!"could not list the sessions on {target}: {error}"
      | .ok [] => return .ok ()
      | .ok sessions =>
          let names := "; ".intercalate sessions
          return .error <| s!"other sessions are connected to {target}: {names}. Stop them " ++
            "first (list their units in [refresh].units)"
    else return .error s!"{target} is the refresh target of '{found}', not '{marker}'"

/-- What the checks of a refresh found out. -/
structure Checked where
  listing : String
  createsTviews : Bool
  extensions : List String
  owner : Option String

/-- The restorer can create the extensions of the archive. -/
def checkExtensions (maintenance : PgConn) (extensions : List String) :
    Prog ServerSig (Except RestoreError Unit) := do
  if extensions.isEmpty then return .ok ()
  else
    match ← server (.extensionsProblem maintenance extensions) with
    | .ok none => return .ok ()
    | .ok (some problem) => return .error (refusal problem)
    | .error error => return .error (refusal s!"could not check the extensions: {error}")

/-- The role the restored objects are owned by, when the admin restores. -/
def readOwner (identity : RestoreIdentity) :
    Prog ServerSig (Except RestoreError (Option String)) := do
  if identity.usesAdmin then
    match ← server (.currentUser identity.app) with
    | .error error => return .error (refusal s!"could not read the app role: {error}")
    | .ok owner => return .ok (some owner)
  else return .ok none

/-- The restorer can set the marker again. -/
def checkMarkerPrivilege (restorer : PgConn) : Prog ServerSig (Except RestoreError Unit) := do
  match ← server (.markerPrivilege restorer) with
  | .ok none => return .ok ()
  | .ok (some problem) => return .error (refusal problem)
  | .error error => return .error (refusal s!"could not check the marker privilege: {error}")

/-- Everything that can refuse a refresh. The marker and the sessions are read last. -/
def refreshChecks (identity : RestoreIdentity) (archive marker : String) :
    Prog ServerSig (Except RestoreError Checked) := do
  let restorer := identity.restorer identity.app.database
  let maintenance := identity.restorer "postgres"
  match ← list archive with
  | .error error => return .error error
  | .ok listing =>
    match ← precheckListing identity restorer listing with
    | .error error => return .error error
    | .ok createsTviews =>
      let extensions := archiveExtensions listing
      match ← checkExtensions maintenance extensions with
      | .error error => return .error error
      | .ok () =>
        if (splitListing listing extensions []).extensionData ≠ "" ∧ ¬ identity.usesAdmin then
          return .error <| refusal <|
            "the archive carries rows of tables an extension owns, which only a superuser " ++
            "may restore; set [database].admin_url_env to a superuser DSN"
        else
          match ← readOwner identity with
          | .error error => return .error error
          | .ok owner =>
            match ← checkMarkerPrivilege restorer with
            | .error error => return .error error
            | .ok () =>
              match ← markedAndIdle restorer maintenance marker with
              | .error reason => return .error (refusal reason)
              | .ok () => return .ok ⟨listing, createsTviews, extensions, owner⟩

/-! ## The replacement -/

/-- The schemas an extension made where the archive puts objects of the owner. -/
def reachedSchemas (lists : RestoreLists) (owner : Option String) : List String :=
  match owner with
  | none => []
  | some _ => lists.madeSchemas.filter fun schema =>
      (Data.lines lists.app).any fun line => ((Data.splitWhitespace line).drop 3).contains schema

/-- Grant the role both privileges on each schema, in order. -/
def grantAll (conn : PgConn) (role : String) :
    List (String × SchemaPrivilege) → Prog ServerSig (Except String Unit)
  | [] => return .ok ()
  | (schema, privilege) :: rest => do
      match ← server (.schemaPrivilege conn privilege schema role false) with
      | .error error =>
          let keyword := privilege.keyword
          return .error s!"GRANT {keyword} ON SCHEMA {schema} failed: {error}"
      | .ok () => grantAll conn role rest

/-- Revoke `CREATE` on each schema. A failure is kept and the rest still revoked. -/
def revokeAll (conn : PgConn) (role : String) :
    Except String Unit → List String → Prog ServerSig (Except String Unit)
  | revoked, [] => return revoked
  | revoked, schema :: rest => do
      match ← server (.schemaPrivilege conn .create schema role true) with
      | .error error =>
          let problem := s!"REVOKE CREATE ON SCHEMA {schema} FROM {role} failed, so the role " ++
            s!"keeps it: {error}"
          revokeAll conn role (.error problem) rest
      | .ok () => revokeAll conn role revoked rest

/-- The two restore passes: the archive's objects as the owner, then the extensions' rows as
the restorer. `USAGE` stays granted, `CREATE` is revoked whatever the first pass did. -/
def restoreLists (conn : PgConn) (archive : String) (lists : RestoreLists)
    (owner : Option String) : Prog ServerSig (Except String String) := do
  let reached := reachedSchemas lists owner
  let role := owner.getD ""
  match ← grantAll conn role (reached.flatMap fun s => [(s, .usage), (s, .create)]) with
  | .error error => return .error error
  | .ok () =>
    let objects ← server (.restoreList conn archive lists.app owner false)
    let revoked ← revokeAll conn role (.ok ()) reached
    match objects, revoked with
    | .error error, _ =>
        return .error s!"pg_restore of the archive's objects failed: {error}"
    | .ok _, .error problem => return .error problem
    | .ok warnings, .ok () =>
      if lists.extensionData = "" then return .ok warnings
      else
        match ← server (.restoreList conn archive lists.extensionData none true) with
        | .error error =>
            return .error s!"pg_restore of the extensions' rows failed: {error}"
        | .ok rows => return .ok (String.append warnings rows)

/-- Create the extensions of the archive, if it has any. -/
def createExtensions (restorer : PgConn) (extensions : List String) :
    Prog ServerSig (Except String Unit) := do
  if extensions.isEmpty then return .ok ()
  else
    match ← server (.createExtensions restorer extensions) with
    | .error error => return .error s!"CREATE EXTENSION failed: {error}"
    | .ok () => return .ok ()

/-- Rebuild the TVIEWs of an archive that creates pg_tviews, and probe them. -/
def rebuildTviews (restorer : PgConn) (createsTviews : Bool) :
    Prog ServerSig (Except String (Option TviewRebuild)) := do
  if createsTviews then
    match ← rebuild restorer with
    | .error error => return .error s!"the post-restore TVIEW rebuild failed: {error}"
    | .ok rebuilt =>
      if rebuilt.stillEmpty.isEmpty then return .ok (some rebuilt)
      else
        let names := ", ".intercalate rebuilt.stillEmpty
        return .error <| "after the post-restore TVIEW rebuild, these TVIEWs are still empty " ++
          s!"over a populated view: {names}"
  else return .ok none

/-- Fill the new, marked database. -/
def fillDatabase (restorer : PgConn) (archive : String) (checked : Checked) :
    Prog ServerSig (Except String Refreshed) := do
  match ← createExtensions restorer checked.extensions with
  | .error error => return .error error
  | .ok () =>
    match ← server (.schemas restorer) with
    | .error error => return .error s!"could not list the schemas: {error}"
    | .ok schemas =>
      let lists := splitListing checked.listing checked.extensions schemas
      match ← restoreLists restorer archive lists checked.owner with
      | .error error => return .error error
      | .ok warnings =>
        match ← rebuildTviews restorer checked.createsTviews with
        | .error error => return .error error
        | .ok tviews => return .ok ⟨warnings, checked.extensions, tviews⟩

/-- Drop the target, create it for the app role, mark it again and fill it. -/
def replaceDatabase (identity : RestoreIdentity) (archive marker : String) (checked : Checked) :
    Prog ServerSig (Except String Refreshed) := do
  let target := identity.app.database
  let restorer := identity.restorer target
  let maintenance := identity.restorer "postgres"
  match ← server (.drop maintenance target) with
  | .error error => return .error s!"DROP DATABASE {target} failed: {error}"
  | .ok () =>
    match ← server (.create maintenance target checked.owner) with
    | .error error => return .error s!"CREATE DATABASE {target} failed: {error}"
    | .ok () =>
      match ← server (.setMarker restorer marker) with
      | .error error => return .error s!"could not mark {target} again: {error}"
      | .ok () => fillDatabase restorer archive checked

/-- Replace the database of the app connection with the archive, after checking that it
carries the marker. -/
def refreshInPlace (identity : RestoreIdentity) (archive marker : String) :
    Prog ServerSig (Except RestoreError Refreshed) := do
  match ← refreshChecks identity archive marker with
  | .error error => return .error error
  | .ok checked =>
    match ← replaceDatabase identity archive marker checked with
    | .error error => return .error (.failed error)
    | .ok refreshed => return .ok refreshed

end Fraisier.Db
