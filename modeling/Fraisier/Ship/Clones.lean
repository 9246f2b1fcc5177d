import Fraisier.Ship.Workflow
import Mathlib.Data.Prod.Lex

/-!
# Clones that ship to one origin

Any number of clones ship to the branches of a remote that takes fast-forward updates only. A
clone has a history of commits, the newest first, what is staged, and the files that are worked
on; of a tree only the version files are kept. `Commit.Bumps` is what a release does to the
version, and `Rising` says of a history that its commits bump the version or leave it alone.
-/

namespace Fraisier.Ship

open Fraisier.Data Fraisier.Effect

/-! ## Commits -/

/-- The version files of a tree. -/
structure Files where
  cargo : Option String
  pyProject : Option String
deriving DecidableEq

namespace Files

def get (files : Files) : ProjectKind → Option String
  | .cargo => files.cargo
  | .pyProject => files.pyProject

def put (files : Files) (kind : ProjectKind) (content : Option String) : Files :=
  match kind with
  | .cargo => { files with cargo := content }
  | .pyProject => { files with pyProject := content }

/-- The kind whose file has a name. -/
def kindOf (name : String) : Option ProjectKind :=
  if name = ProjectKind.cargo.fileName then some .cargo
  else if name = ProjectKind.pyProject.fileName then some .pyProject
  else none

/-- The files with the one of a name as it is in others. -/
def take (files : Files) (name : String) (others : Files) : Files :=
  match kindOf name with
  | some kind => files.put kind (others.get kind)
  | none => files

/-- A directory that holds the files. -/
def dir (path : String) (files : Files) : Dir where
  path := path
  file kind := (files.get kind).map .ok
  writes _ := .ok ()

/-- The files that a directory holds. -/
def ofDir (dir : Dir) : Files where
  cargo := (dir.file .cargo).bind fun file => file.toOption
  pyProject := (dir.file .pyProject).bind fun file => file.toOption

/-- The version of the project. -/
def version (crates : Crates) (files : Files) : Option String :=
  match locate crates (files.dir "") with
  | .ok info => some info.version
  | .error _ => none

end Files

/-- A commit, without the commits it is built on. -/
structure Commit where
  files : Files
  message : String
  author : String
  time : Nat
deriving DecidableEq

/-- The version files at the end of a history. -/
def tip (history : List Commit) : Files :=
  match history with
  | [] => ⟨none, none⟩
  | commit :: _ => commit.files

/-- The rank of a version among the others: by its major component first. -/
def Version.rank (version : Version) : Nat ×ₗ Nat ×ₗ Nat :=
  toLex (version.major, toLex (version.minor, version.patch))

section Versions

variable (crates : Crates)

/-- The semantic version of the project, where it has one. -/
def Files.core (files : Files) : Option Version :=
  (files.version crates).bind fun text => (crates.semver text).toOption

/-- A commit bumps the version of the files it is made on. -/
def Commit.Bumps (commit : Commit) (before : Files) : Prop :=
  ∃ level old new, before.version crates = some old ∧ nextVersion crates old level = .ok new ∧
    commit.files.version crates = some new

/-- Every commit that a history has above another leaves the version files alone or bumps the
version. -/
def Rising (base history : List Commit) : Prop :=
  base <:+ history ∧ ∀ commit older, commit :: older <:+ history → base <:+ older →
    commit.files = tip older ∨ commit.Bumps crates (tip older)

end Versions

/-! ## Clones and the remotes -/

/-- A clone: where it is, its branch, unless its head is detached, its commits, what is staged,
the files, and what it last fetched. -/
structure Clone where
  path : String
  branch : Option String
  history : List Commit
  index : Files
  files : Files
  tracking : String → String → List Commit
  author : String

namespace Clone

/-- Nothing is changed or staged. -/
def Clean (clone : Clone) : Prop :=
  clone.files = clone.index ∧ clone.index = tip clone.history

instance (clone : Clone) : Decidable clone.Clean :=
  inferInstanceAs (Decidable (_ ∧ _))

/-- Two clones have the same commits, the same staged and the same files. -/
def Same (clone other : Clone) : Prop :=
  clone.history = other.history ∧ clone.index = other.index ∧ clone.files = other.files

end Clone

/-- What a ship was asked for and ended with, and its clone before and after it. -/
structure Told where
  level : Bump
  opts : ShipOptions
  before : Clone
  after : Clone
  result : Except ShipFailure ShipReport

/-- Who works in a clone: the clone as it was when a ship began, and what was told. -/
structure Shipper where
  clone : Clone
  found : Clone
  told : List Told

/-- What a ship reported as pushed: where to, its history and version, and whether the ship had
committed it. -/
structure Shipped where
  remote : String
  branch : Option String
  history : List Commit
  newVersion : String
  committed : Bool

/-- The branches of the remotes, how much was done, and what was reported as pushed. -/
structure Origin where
  branches : String → String → List Commit
  calls : Nat
  shipped : List Shipped

/-- What `git status` prints of a tree that is not clean. -/
structure Listing where
  text : String
  shows : (trim text).isEmpty = false

/-- What a command meets: an error, what a failed write leaves, whether a failed push went
through, other changes in the tree, what is printed of them, and the time. -/
structure Fault where
  error : Option String
  torn : Files
  moved : Bool
  others : Bool
  listing : Listing
  time : Nat

/-- The remote's branch takes a history, as a fast-forward. -/
def Origin.take (w : Origin) (remote branch : String) (history : List Commit) : Origin :=
  { w with
    branches := Function.update w.branches remote
      (Function.update (w.branches remote) branch history) }

section Git

variable (fault : Fault)

/-- Push the branch of a clone: whether it worked, and the remotes. A remote refuses what is no
fast-forward. -/
def pushHead (clone : Clone) (remote : String) (w : Origin) : Except String String × Origin :=
  match clone.branch with
  | none => (.error "error: The destination you provided is not a full refname", w)
  | some branch =>
      if w.branches remote branch <:+ clone.history then
        match fault.error with
        | none => (.ok "", w.take remote branch clone.history)
        | some detail =>
            (.error detail, if fault.moved then w.take remote branch clone.history else w)
      else (.error "! [rejected] HEAD (fetch first)", w)

/-- Carry out an invocation in a clone. -/
def runGit (clone : Clone) (w : Origin) (call : GitCall) :
    Except String String × Clone × Origin :=
  match call, fault.error with
  | .push remote, _ =>
      let pushed := pushHead fault clone remote w
      (pushed.1, clone, pushed.2)
  | _, some detail => (.error detail, clone, w)
  | .status, none =>
      (.ok (if clone.Clean ∧ fault.others = false then "" else fault.listing.text), clone, w)
  | .add file, none => (.ok "", { clone with index := clone.index.take file clone.files }, w)
  | .revParse, none => (.ok (clone.branch.getD "HEAD" ++ "\n"), clone, w)
  | .fetch remote branch, none =>
      if w.branches remote branch = [] then
        (.error ("fatal: couldn't find remote ref " ++ branch), clone, w)
      else
        (.ok "", { clone with
          tracking := Function.update clone.tracking remote
            (Function.update (clone.tracking remote) branch (w.branches remote branch)) }, w)
  | .show remote branch file, none =>
      match (Files.kindOf file).bind (tip (clone.tracking remote branch)).get with
      | some content => (.ok content, clone, w)
      | none => (.error "fatal: invalid object name", clone, w)
  | .checkout file, none =>
      (.ok "", { clone with
        index := clone.index.take file (tip clone.history)
        files := clone.files.take file (tip clone.history) }, w)
  | .commit message, none =>
      if clone.index = tip clone.history then (.error "nothing to commit", clone, w)
      else
        (.ok "", { clone with
          history := ⟨clone.index, message, clone.author, fault.time⟩ :: clone.history }, w)

/-- Fast-forward a clean clone to the remote's branch. -/
def Clone.pull (clone : Clone) (remote : String) (w : Origin) : Clone :=
  match clone.branch with
  | none => clone
  | some branch =>
      if clone.Clean ∧ clone.history <:+ w.branches remote branch then
        { clone with
          history := w.branches remote branch
          index := tip (w.branches remote branch)
          files := tip (w.branches remote branch) }
      else clone

/-- Commit other files in a clean clone. -/
def Clone.work (clone : Clone) (message : String) : Clone :=
  if clone.Clean then
    { clone with
      history := ⟨tip clone.history, message, clone.author, fault.time⟩ :: clone.history }
  else clone

/-- Give up what is not committed. -/
def Clone.restore (clone : Clone) : Clone :=
  { clone with index := tip clone.history, files := tip clone.history }

/-- What was reported as pushed is noted. -/
def Origin.note (w : Origin) (clone : Clone) (opts : ShipOptions) :
    Except ShipFailure ShipReport → Origin
  | .ok report =>
      if report.pushed then
        { w with
          shipped := ⟨opts.remote, clone.branch, clone.history, report.newVersion,
            report.committed⟩ :: w.shipped }
      else w
  | .error _ => w

/-- Read the version in a clone. -/
def readIn (crates : Crates) (clone : Clone) : Except ShipError VersionInfo :=
  match fault.error with
  | some source => .error (.read clone.path source)
  | none => locate crates (clone.files.dir clone.path)

/-- Bump the version in a clone. -/
def bumpIn (crates : Crates) (level : Bump) (clone : Clone) :
    Except ShipError (String × String) × Clone :=
  match fault.error with
  | some source => (.error (.write clone.path source), { clone with files := fault.torn })
  | none =>
      match bump crates (clone.files.dir clone.path) level with
      | .error error => (.error error, clone)
      | .ok (versions, after) => (.ok versions, { clone with files := .ofDir after })

end Git

/-- Carry out a command of a shipper. The `n`-th one meets the `n`-th fault. -/
def shipMonitor (crates : Crates) (faults : Nat → Fault) :
    Monitor ShipSig Shipper Origin :=
  fun s c _ w =>
    let fault := faults w.calls
    let w := { w with calls := w.calls + 1 }
    match c with
    | .locate => (readIn fault crates s.clone, { s with found := s.clone }, w)
    | .bump level =>
        let bumped := bumpIn fault crates level s.clone
        (bumped.1, { s with clone := bumped.2 }, w)
    | .git call =>
        let ran := runGit fault s.clone w call
        (ran.1, { s with clone := ran.2.1 }, ran.2.2)
    | .pull remote => ((), { s with clone := s.clone.pull remote w }, w)
    | .work message => ((), { s with clone := s.clone.work fault message }, w)
    | .restore => ((), { s with clone := s.clone.restore }, w)
    | .report level opts result =>
        ((), { s with told := ⟨level, opts, s.found, s.clone, result⟩ :: s.told },
          w.note s.clone opts result)

/-- Clones, and what is done in each. -/
def clones {ι : Type} (crates : Crates) (start : ι → Clone) (ops : ι → List Op)
    (branches : String → String → List Commit) : Pool ι ShipSig Shipper Origin where
  threads i := operate crates (start i).path (ops i)
  tags i := ⟨start i, start i, []⟩
  state := ⟨branches, 0, []⟩

end Fraisier.Ship
