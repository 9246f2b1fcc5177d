import Fraisier.Data.Paths
import Fraisier.Db.Connection
import Fraisier.Db.Refresh
import Fraisier.Effect.History

/-!
# Restoring into a throwaway database

`restoreThrowaway` restores an archive, or a fresh dump of the live database, into a new
database beside the live one. A database that was created and could not be filled is dropped
again, if `teardownGuard` admits its name.
-/

namespace Fraisier.Db

open Fraisier.Effect

/-! ## Who restores -/

/-- What started an operation. -/
inductive Trigger where
  | operator
  | webhook
deriving DecidableEq

namespace RestoreIdentity

/-- The identity for a trigger: the admin when one is given, but never for a webhook. -/
def new (app : PgConn) (admin : Option Admin) (trigger : Trigger) : RestoreIdentity :=
  match admin, trigger with
  | some admin, .webhook => ⟨app, none, some admin.env⟩
  | admin, _ => ⟨app, admin, none⟩

end RestoreIdentity

/-! ## Names -/

/-- What every throwaway's name carries. -/
def throwawayMarker : String := "_fraisier_rh_"

/-- A name for a throwaway, derived from the name of another database. -/
def throwawayName (base : String) (pid nanos : Nat) : String :=
  let cleaned := (base.toList.filter fun c => c.isAlphanum || c = '_').take 24
  let head := if cleaned.head?.any Char.isAlpha then cleaned else "db".toList ++ cleaned
  String.ofList <| List.take 63 <|
    head ++ throwawayMarker.toList ++ Nat.toDigits 10 pid ++ '_' :: Nat.toDigits 16 nanos

/-- The file of a fresh dump. -/
def tempArchivePath (tempDir : String) (pid nanos : Nat) : String :=
  Data.joinPath tempDir <| "fraisier-rehearsal-" ++ String.ofList (Nat.toDigits 10 pid) ++ "-" ++
    String.ofList (Nat.toDigits 16 nanos) ++ ".dump"

/-- Whether a throwaway may be dropped beside a live database. -/
def teardownGuard (throwaway live : String) : Except String Unit :=
  if ¬ throwawayMarker.toList <:+: throwaway.toList then
    .error s!"its name does not carry the throwaway marker '{throwawayMarker}'"
  else if live = throwaway then .error "it is the live database"
  else .ok ()

/-! ## The restore -/

/-- What a restore asks of its process. -/
inductive ProcessCall where
  | sinceEpoch
  | pid
  | tempDir
  | removeFile (path : String)

/-- The process as a signature. The clock may stand before the epoch. -/
@[reducible] def ProcessSig : Sig where
  Cmd := ProcessCall
  Ans
    | .sinceEpoch => Option Nat
    | .pid => Nat
    | .tempDir => String
    | .removeFile _ => Except String Unit

/-- The server and the process. -/
@[reducible] def ThrowawaySig : Sig := ServerSig.sum ProcessSig

def process (c : ProcessCall) : Prog ThrowawaySig (ProcessSig.Ans c) :=
  Prog.perform (S := ThrowawaySig) (.inr c)

/-- Where a throwaway's data comes from. -/
inductive Seed where
  | archive (path : String)
  | freshDump

/-- A throwaway that was filled, and the app role's connection to it. -/
structure Throwaway where
  name : String
  app : PgConn
  tviews : Option TviewRebuild
deriving DecidableEq

/-- Read an archive's listing and refuse what the restorer could not finish. -/
def precheck (identity : RestoreIdentity) (restorer : PgConn) (archive : String) :
    Prog ServerSig (Except RestoreError Bool) := do
  match ← list archive with
  | .error error => return .error error
  | .ok listing => precheckListing identity restorer listing

/-- The role that owns what the admin creates for it. -/
def appRole (identity : RestoreIdentity) :
    Prog ServerSig (Except RestoreError (Option String)) := do
  if identity.usesAdmin then
    match ← server (.currentUser identity.app) with
    | .error error => return .error (.refused s!"could not read the app role: {error}")
    | .ok owner => return .ok (some owner)
  else return .ok none

/-- Drop a throwaway, if its name may be dropped. -/
def dropThrowaway (identity : RestoreIdentity) (name live : String) :
    Prog ServerSig (Except String Unit) := do
  match teardownGuard name live with
  | .error reason => return .error s!"refusing to drop '{name}': {reason}"
  | .ok () =>
    match ← server (.drop (identity.restorer "postgres") name) with
    | .error error => return .error s!"DROP DATABASE {name} failed: {error}"
    | .ok () => return .ok ()

/-- Restore into the new database and rebuild its TVIEWs. -/
def fillCreated (restorer : PgConn) (archive : String) (rebuilds : Bool) :
    Prog ServerSig (Except String (Option TviewRebuild)) := do
  match ← server (.restore restorer archive false) with
  | .error error => return .error s!"pg_restore into the throwaway DB failed: {error}"
  | .ok _ => rebuildTviews restorer rebuilds

/-- Create the database with the given name and fill it. -/
def fillNamed (identity : RestoreIdentity) (archive name : String) (rebuilds : Bool) :
    Prog ServerSig (Except RestoreError Throwaway) := do
  match ← appRole identity with
  | .error error => return .error error
  | .ok owner =>
    match ← server (.create (identity.restorer "postgres") name owner) with
    | .error error => return .error (.refused s!"CREATE DATABASE failed: {error}")
    | .ok () =>
      match ← fillCreated (identity.restorer name) archive rebuilds with
      | .ok tviews => return .ok ⟨name, identity.app.withDatabase name, tviews⟩
      | .error error =>
          -- What comes of the drop is ignored.
          let _ ← dropThrowaway identity name identity.app.database
          return .error (.failed error)

/-- Restore an archive on disk into a throwaway. -/
def fillThrowaway (identity : RestoreIdentity) (archive : String) (rebuildTviews : Bool) :
    Prog ThrowawaySig (Except RestoreError Throwaway) := do
  let live := identity.app.database
  match ← (precheck identity (identity.restorer live) archive).inl with
  | .error error => return .error error
  | .ok createsTviews =>
      let nanos ← process .sinceEpoch
      let pid ← process .pid
      let name := throwawayName live pid (nanos.getD 0)
      (fillNamed identity archive name (rebuildTviews && createsTviews)).inl

/-- Restore a seed into a throwaway on the live server. -/
def restoreThrowaway (identity : RestoreIdentity) (seed : Seed) (rebuild : Bool) :
    Prog ThrowawaySig (Except RestoreError Throwaway) := do
  match seed with
  | .archive archive => fillThrowaway identity archive rebuild
  | .freshDump =>
      let nanos ← process .sinceEpoch
      let pid ← process .pid
      let dir ← process .tempDir
      let tmp := tempArchivePath dir pid (nanos.getD 0)
      match ← (server (.dump identity.app tmp)).inl with
      | .error error =>
          let _ ← process (.removeFile tmp)
          return .error (.refused s!"pg_dump of the live DB failed: {error}")
      | .ok () =>
          let filled ← fillThrowaway identity tmp rebuild
          let _ ← process (.removeFile tmp)
          return filled

/-! ## Which names are drawn -/

theorem throwawayName_carries (base : String) (pid nanos : Nat) :
    throwawayMarker.toList <:+: (throwawayName base pid nanos).toList := by
  rw [throwawayName, String.toList_ofList]
  generalize hcleaned : (base.toList.filter fun c => c.isAlphanum || c = '_').take 24 = cleaned
  have hlength : cleaned.length ≤ 24 := by
    rw [← hcleaned]
    exact List.length_take_le 24 _
  generalize hhead : (if cleaned.head?.any Char.isAlpha then cleaned else "db".toList ++ cleaned) =
    head
  have hshort : head.length ≤ 26 := by
    rw [← hhead]
    split
    · omega
    · rw [List.length_append]
      have : "db".toList.length = 2 := rfl
      omega
  have hmarker : throwawayMarker.toList.length = 13 := rfl
  have hlong : (head ++ throwawayMarker.toList).length ≤ 63 := by
    rw [List.length_append, hmarker]
    omega
  rw [List.append_assoc _ (Nat.toDigits 10 pid), List.take_append, List.take_of_length_le hlong]
  exact (List.suffix_append head _).isInfix.trans (List.prefix_append _ _).isInfix

theorem teardownGuard_eq_ok_iff {name live : String}
    (hmarker : throwawayMarker.toList <:+: name.toList) :
    teardownGuard name live = .ok () ↔ name ≠ live := by
  rw [teardownGuard, if_neg (not_not.mpr hmarker)]
  by_cases hlive : live = name
  · simp [hlive]
  · simp [hlive, Ne.symm hlive]

end Fraisier.Db
