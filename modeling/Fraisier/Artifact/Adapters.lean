import Fraisier.Artifact.Sources

/-!
# Artifacts on the disk

Two more sources of an artifact: a path that is copied, and a repository that is cloned. Both
stage below the staging directory, like a release, and a staged artifact is activated by
replacing the link at `active_path` by one that points at it. A host that pulls its releases
replaces the link with programs of its own.
-/

namespace Fraisier.Artifact

open Fraisier.Core Fraisier.Effect
open Fraisier.Data (PathBuf)

/-! ## The disk -/

/-- A command for `git`, as far as staging uses it. -/
inductive GitCommand where
  | clone (repo : String) (dir : PathBuf)
  | checkout (reference : String)
  | revParse (revision : String)
deriving DecidableEq

/-- What staging and activating ask of the disk. -/
inductive FileCall where
  | pathExists (path : PathBuf)
  | isDir (path : PathBuf)
  | readDir (path : PathBuf)
  | createDirAll (path : PathBuf)
  | copy (src dst : PathBuf)
  | removeDirAll (path : PathBuf)
  | removeFile (path : PathBuf)
  | rename (source target : PathBuf)
  | symlink (target path : PathBuf)
  | git (command : GitCommand) (cwd : Option PathBuf)
deriving DecidableEq

/-- The disk as a signature. A directory is read entry by entry. -/
@[reducible] def FileSig : Sig where
  Cmd := FileCall
  Ans
    | .pathExists _ => Bool
    | .isDir _ => Bool
    | .readDir _ => Except String (List (Except String String))
    | .createDirAll _ => Except String Unit
    | .copy _ _ => Except String Unit
    | .removeDirAll _ => Except String Unit
    | .removeFile _ => Except String Unit
    | .rename _ _ => Except String Unit
    | .symlink _ _ => Except String Unit
    | .git _ _ => Except AdapterError Captured

def file (c : FileCall) : Prog FileSig (FileSig.Ans c) :=
  Prog.perform (S := FileSig) c

/-! ## Activating -/

/-- Point a link at a staged artifact: a new link replaces it. -/
def activateSymlink (pid : Nat) (activePath stagedPath : PathBuf) (adapter operation : String) :
    Prog FileSig (Except AdapterError Unit) := do
  let fail (message : String) := AdapterError.tagged .execution adapter operation message none
  let name := activePath.fileName.getD "current"
  let temporary := activePath.withFileName s!"{name}.fraisier-tmp-{pid}"
  let _ ← file (.removeFile temporary)
  match ← file (.symlink stagedPath temporary) with
  | .error cause => return .error (fail s!"failed to create symlink: {cause}")
  | .ok () =>
    match ← file (.rename temporary activePath) with
    | .error cause =>
        let _ ← file (.removeFile temporary)
        return .error (fail s!"failed to swap active symlink: {cause}")
    | .ok () => return .ok ()

/-- Activate a staged artifact at the configured path. -/
def activateStaged (pid : Nat) (adapter : String) (ctx : AdapterCtx) (staged : StagedArtifact) :
    Prog FileSig (Except AdapterError Unit) := do
  match requireSetting adapter "activate" ctx "active_path" with
  | .error error => return .error error
  | .ok active =>
      activateSymlink pid (PathBuf.ofText active) (PathBuf.ofText staged.path) adapter "activate"

/-- Activate what the host pulled, by programs on the host. -/
def PullArtifact.activate (ctx : AdapterCtx) (staged : StagedArtifact) :
    Prog HostSig (Except AdapterError Unit) := do
  match requireSetting adapterName "activate" ctx "active_path" with
  | .error error => return .error error
  | .ok active =>
    let temporary := active ++ ".fraisier-tmp"
    match ← exec "ln" ["-sfn", staged.path, temporary] "activate" with
    | .error error => return .error error
    | .ok _ =>
      match ← exec "mv" ["-Tf", temporary, active] "activate" with
      | .error error => return .error error
      | .ok _ => return .ok ()

/-- Activate a release. -/
def ReleaseArtifact.activate (pid : Nat) (ctx : AdapterCtx) (staged : StagedArtifact) :
    Prog FileSig (Except AdapterError Unit) :=
  match Config.fromCtx ctx "activate" with
  | .error error => return .error error
  | .ok _ => activateStaged pid adapterName ctx staged

/-- The directory that artifacts are staged in. -/
def stagingRoot (ctx : AdapterCtx) : PathBuf :=
  ((stringSetting ctx "staging_dir").map PathBuf.ofText).getD
    ((PathBuf.ofText ctx.workdir).below [".fraisier-staging"])

/-! ## An artifact that is copied -/

namespace LocalArtifact

def adapterName : String := "local"

def execution (operation message : String) : AdapterError :=
  .tagged .execution adapterName operation message none

/-- A resolved configuration. -/
structure Config where
  path : PathBuf
  version : String
  stagingDir : PathBuf

/-- The version is the name of the source, unless one is configured. -/
def Config.fromCtx (ctx : AdapterCtx) (operation : String) : Except AdapterError Config := do
  let path := PathBuf.ofText (← requireSetting adapterName operation ctx "path")
  return {
    path
    version := (stringSetting ctx "version").getD (path.fileName.getD "local")
    stagingDir := stagingRoot ctx }

/-- The path the artifact is staged at. -/
def Config.stagedPath (config : Config) : PathBuf :=
  config.stagingDir.join (PathBuf.ofText config.version)

def nameTooLong : String := "File name too long (os error 36)"

/-- How deep a tree can be: the text of a path has less than 4096 bytes. -/
def maxDepth : Nat := 2048

/-- Copy some entries of a directory, up to the first that cannot be. -/
def copyEntries (copy : PathBuf → PathBuf → Prog FileSig (Except String Unit))
    (src dst : PathBuf) : List (Except String String) → Prog FileSig (Except String Unit)
  | [] => return .ok ()
  | .error cause :: _ => return .error cause
  | .ok name :: rest => do
      match ← copy (src.below [name]) (dst.below [name]) with
      | .error cause => return .error cause
      | .ok () => copyEntries copy src dst rest

/-- Copy a file, with the directory that it goes to. -/
def copyFile (src dst : PathBuf) : Prog FileSig (Except String Unit) := do
  match dst.parent with
  | none => file (.copy src dst)
  | some dir =>
    match ← file (.createDirAll dir) with
    | .error cause => return .error cause
    | .ok () => file (.copy src dst)

/-- Copy a file or a directory with all that is in it. -/
def copyTree : Nat → PathBuf → PathBuf → Prog FileSig (Except String Unit)
  | 0, _, _ => return .error nameTooLong
  | depth + 1, src, dst => do
      if ← file (.isDir src) then
        match ← file (.createDirAll dst) with
        | .error cause => return .error cause
        | .ok () =>
          match ← file (.readDir src) with
          | .error cause => return .error cause
          | .ok entries => copyEntries (copyTree depth) src dst entries
      else copyFile src dst

/-- Replace what is staged under the version by a copy of the source. -/
def stage (ctx : AdapterCtx) : Prog FileSig (Except AdapterError StagedArtifact) := do
  match Config.fromCtx ctx "stage" with
  | .error error => return .error error
  | .ok config =>
    if ← file (.pathExists config.path) then
      let _ ← file (.removeDirAll config.stagedPath)
      let _ ← file (.removeFile config.stagedPath)
      match ← copyTree maxDepth config.path config.stagedPath with
      | .error cause =>
          return .error (execution "stage" s!"failed to stage local artifact: {cause}")
      | .ok () => return .ok ⟨⟨config.version, none⟩, config.stagedPath.display⟩
    else
      let path := config.path.display
      return .error (execution "stage" s!"source path does not exist: {path}")

/-- Activate a copied artifact. -/
def activate (pid : Nat) (ctx : AdapterCtx) (staged : StagedArtifact) :
    Prog FileSig (Except AdapterError Unit) :=
  match Config.fromCtx ctx "activate" with
  | .error error => return .error error
  | .ok _ => activateStaged pid adapterName ctx staged

end LocalArtifact

/-! ## An artifact that is cloned -/

namespace GitArtifact

def adapterName : String := "git"

def execution (operation message : String) : AdapterError :=
  .tagged .execution adapterName operation message none

/-- A resolved configuration. -/
structure Config where
  repo : String
  reference : Option String
  version : Option String
  stagingDir : PathBuf

def Config.fromCtx (ctx : AdapterCtx) (operation : String) : Except AdapterError Config := do
  let repo ← requireSetting adapterName operation ctx "repo"
  return {
    repo
    reference := stringSetting ctx "ref"
    version := stringSetting ctx "version"
    stagingDir := stagingRoot ctx }

/-- The directory that is cloned into. -/
def Config.temporary (config : Config) : PathBuf :=
  config.stagingDir.below [".fraisier-git-tmp"]

/-- The path a checkout of a commit is moved to. -/
def Config.stagedPath (config : Config) (sha : String) : PathBuf :=
  config.stagingDir.join (PathBuf.ofText (config.version.getD sha))

/-- Run `git`, which has to exit with 0. -/
def git (command : GitCommand) (cwd : Option PathBuf) (operation : String) :
    Prog FileSig (Except AdapterError String) := do
  match ← file (.git command cwd) with
  | .error error => return .error error
  | .ok captured =>
      if captured.succeeded then return .ok captured.stdout
      else
        let stderr := Data.trim captured.stderr
        return .error (.tagged .execution adapterName operation s!"git failed: {stderr}"
          captured.stderrOpt)

/-- Check out the configured reference, if there is one. -/
def checkout (config : Config) : Prog FileSig (Except AdapterError Unit) := do
  match config.reference with
  | none => return .ok ()
  | some reference =>
    match ← git (.checkout reference) (some config.temporary) "stage" with
    | .error error => return .error error
    | .ok _ => return .ok ()

/-- Move the checkout to where it is staged. -/
def moveStaged (config : Config) (sha : String) :
    Prog FileSig (Except AdapterError StagedArtifact) := do
  let target := config.stagedPath sha
  let _ ← file (.removeDirAll target)
  match ← file (.rename config.temporary target) with
  | .error cause => return .error (execution "stage" s!"failed to move staged checkout: {cause}")
  | .ok () => return .ok ⟨⟨config.version.getD sha, some sha⟩, target.display⟩

/-- Clone the repository and stage a checkout of it. -/
def stage (ctx : AdapterCtx) : Prog FileSig (Except AdapterError StagedArtifact) := do
  match Config.fromCtx ctx "stage" with
  | .error error => return .error error
  | .ok config =>
    match ← file (.createDirAll config.stagingDir) with
    | .error cause => return .error (execution "stage" s!"failed to create staging dir: {cause}")
    | .ok () =>
      let _ ← file (.removeDirAll config.temporary)
      match ← git (.clone config.repo config.temporary) none "stage" with
      | .error error => return .error error
      | .ok _ =>
        match ← checkout config with
        | .error error => return .error error
        | .ok () =>
          match ← git (.revParse "HEAD") (some config.temporary) "stage" with
          | .error error => return .error error
          | .ok stdout => moveStaged config (Data.trim stdout)

/-- Activate a checkout. -/
def activate (pid : Nat) (ctx : AdapterCtx) (staged : StagedArtifact) :
    Prog FileSig (Except AdapterError Unit) :=
  match Config.fromCtx ctx "activate" with
  | .error error => return .error error
  | .ok _ => activateStaged pid adapterName ctx staged

end GitArtifact

end Fraisier.Artifact
