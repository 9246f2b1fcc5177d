import Mathlib.Data.List.Sort
import Fraisier.Data.Paths
import Fraisier.Effect.Program

/-!
# The binaries of a service and the link to the active one

A directory holds staged binaries and a link `current`, which the unit starts. A new binary is
staged beside the others, and the link is replaced by one that points at it. Once the new binary
is committed, the stale ones are removed.
-/

namespace Fraisier.SelfUpgrade

open Fraisier.Effect
open Fraisier.Data (PathBuf)

/-! ## The host -/

/-- Bytes with their digest, and whether a checksum backed them. -/
structure Verified where
  bytes : List UInt8
  digest : String
  verified : Bool
deriving DecidableEq

/-- What a failure is reported with. -/
structure FailurePayload where
  event : String
  failed : Option String
  restored : Option String
  reason : String
deriving DecidableEq

/-- Where the bytes of a new binary come from. -/
inductive Source where
  | url (url : String) (sha256 checksumUrl : Option String)
  | path (path : String) (sha256 : Option String)
deriving DecidableEq

/-- What an upgrade asks of its host. -/
inductive UpgradeCall where
  | fetch (source : Source)
  | readLink (path : PathBuf)
  | createDirAll (path : PathBuf)
  | write (path : PathBuf) (bytes : List UInt8)
  | setPermissions (path : PathBuf) (mode : Nat)
  | removeFile (path : PathBuf)
  | symlink (target path : PathBuf)
  | rename (source target : PathBuf)
  | readDir (path : PathBuf)
  | metadata (path : PathBuf)
  | restart
  | becomesHealthy (timeoutMs intervalMs : Nat)
  | notify (payload : FailurePayload)
deriving DecidableEq

/-- What an entry of a directory is: whether it is a file, and when it was modified. -/
structure Metadata where
  isFile : Bool
  modified : Option Nat
deriving DecidableEq

/-- The host as a signature. Nothing at a path is no error when a link is read. A directory is
read entry by entry. -/
@[reducible] def UpgradeSig : Sig where
  Cmd := UpgradeCall
  Ans
    | .fetch _ => Except String Verified
    | .readLink _ => Except String (Option PathBuf)
    | .createDirAll _ => Except String Unit
    | .write _ _ => Except String Unit
    | .setPermissions _ _ => Except String Unit
    | .removeFile _ => Except String Unit
    | .symlink _ _ => Except String Unit
    | .rename _ _ => Except String Unit
    | .readDir _ => Except String (List (Except String String))
    | .metadata _ => Except String Metadata
    | .restart => Except String Unit
    | .becomesHealthy _ _ => Bool
    | .notify _ => Unit

def ask (c : UpgradeCall) : Prog UpgradeSig (UpgradeSig.Ans c) :=
  Prog.perform (S := UpgradeSig) c

/-! ## The layout -/

/-- The directory of the binaries, and the number of the process that works in it. -/
structure Layout where
  binDir : PathBuf
  pid : Nat
deriving DecidableEq

namespace Layout

/-- How the name of a link starts that is about to replace `current`. -/
def temporaryPrefix : String := "current.fraisier-tmp-"

/-- The link that the unit starts. -/
def current (layout : Layout) : PathBuf :=
  layout.binDir.below ["current"]

/-- The link that is about to replace `current`. -/
def temporary (layout : Layout) : PathBuf :=
  layout.binDir.below [temporaryPrefix ++ toString layout.pid]

/-- Where a staged binary lives. -/
def stagedPath (layout : Layout) (id : String) : PathBuf :=
  layout.binDir.join (PathBuf.ofText id)

/-- The name of the binary that is active, if one is. -/
def active (layout : Layout) : Prog UpgradeSig (Except String (Option String)) := do
  match ← ask (.readLink layout.current) with
  | .error cause => return .error s!"failed to read active link: {cause}"
  | .ok target => return .ok (target.bind PathBuf.fileName)

/-- Write an executable binary. -/
def stage (layout : Layout) (id : String) (bytes : List UInt8) :
    Prog UpgradeSig (Except String Unit) := do
  match ← ask (.createDirAll layout.binDir) with
  | .error cause =>
      let dir := layout.binDir.display
      return .error s!"creating {dir}: {cause}"
  | .ok () =>
    let path := (layout.stagedPath id).display
    match ← ask (.write (layout.stagedPath id) bytes) with
    | .error cause => return .error s!"writing {path}: {cause}"
    | .ok () =>
      match ← ask (.setPermissions (layout.stagedPath id) 0o755) with
      | .error cause => return .error s!"chmod +x {path}: {cause}"
      | .ok () => return .ok ()

/-- Replace `current` by a link to a staged binary. -/
def activate (layout : Layout) (id : String) : Prog UpgradeSig (Except String Unit) := do
  let _ ← ask (.removeFile layout.temporary)
  match ← ask (.symlink (layout.stagedPath id) layout.temporary) with
  | .error cause => return .error s!"failed to create symlink: {cause}"
  | .ok () =>
    match ← ask (.rename layout.temporary layout.current) with
    | .error cause =>
        let _ ← ask (.removeFile layout.temporary)
        return .error s!"failed to swap active symlink: {cause}"
    | .ok () => return .ok ()

/-- Whether an entry of the directory is one of the links. -/
def isLinkName (name : String) : Bool :=
  name == "current" || temporaryPrefix.toList.isPrefixOf name.toList

/-- The files among some entries of the directory, each with its modification time. -/
def scan (layout : Layout) :
    List (Except String String) → Prog UpgradeSig (Except String (List (PathBuf × Nat)))
  | [] => return .ok []
  | .error cause :: _ => return .error s!"reading dir entry: {cause}"
  | .ok name :: rest =>
      if isLinkName name then scan layout rest
      else do
        let path := layout.binDir.below [name]
        match ← ask (.metadata path) with
        | .error cause =>
            let shown := path.display
            return .error s!"stat {shown}: {cause}"
        | .ok entry =>
            if entry.isFile then
              match ← scan layout rest with
              | .error error => return .error error
              | .ok staged => return .ok ((path, entry.modified.getD 0) :: staged)
            else scan layout rest

/-- The binaries, newest first. -/
def newestFirst (staged : List (PathBuf × Nat)) : List (PathBuf × Nat) :=
  staged.insertionSort fun a b => b.2 ≤ a.2

/-- Whether a path has the name of the active binary. -/
def isActive (active : Option String) (path : PathBuf) : Bool :=
  active.any fun id => path.fileName == some id

/-- The binaries beyond the newest, the active one left out. -/
def stale (keep : Nat) (active : Option String) (staged : List (PathBuf × Nat)) : List PathBuf :=
  (((newestFirst staged).drop keep).map Prod.fst).filter fun path => !isActive active path

/-- Remove some binaries, up to the first that cannot be. -/
def removeAll : List PathBuf → Prog UpgradeSig (Except String Unit)
  | [] => return .ok ()
  | path :: rest => do
      match ← ask (.removeFile path) with
      | .error cause =>
          let shown := path.display
          return .error s!"removing {shown}: {cause}"
      | .ok () => removeAll rest

/-- Remove the binaries beyond the newest `keep`, but never the active one. -/
def prune (layout : Layout) (keep : Nat) : Prog UpgradeSig (Except String (List PathBuf)) := do
  match ← layout.active with
  | .error error => return .error error
  | .ok active =>
    match ← ask (.readDir layout.binDir) with
    | .error cause =>
        let dir := layout.binDir.display
        return .error s!"reading {dir}: {cause}"
    | .ok entries =>
      match ← layout.scan entries with
      | .error error => return .error error
      | .ok staged =>
        match ← removeAll (stale keep active staged) with
        | .error error => return .error error
        | .ok () => return .ok (stale keep active staged)

end Layout

end Fraisier.SelfUpgrade
