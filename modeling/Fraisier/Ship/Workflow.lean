import Fraisier.Artifact.Sources
import Fraisier.Effect.Pool
import Fraisier.Ship.Version

/-!
# Shipping a release

`ship` bumps the version of a project, commits the version file, and pushes the commit. It works
in a clone, whose files it reads and where it runs `git`; what it does there are its commands.
-/

namespace Fraisier.Ship

open Fraisier.Data Fraisier.Effect

/-! ## The commands -/

/-- How a ship behaves. -/
structure ShipOptions where
  dryRun : Bool
  noDeploy : Bool
  push : Bool
  noBump : Bool
  remote : String
  messageTemplate : Option String

/-- The outcome of a ship, or the plan of a dry run. -/
structure ShipReport where
  oldVersion : String
  newVersion : String
  message : String
  committed : Bool
  pushed : Bool
  deployRequested : Bool
  dryRun : Bool
  raceDetected : Bool
deriving DecidableEq

/-- What a ship fails with. -/
inductive ShipFailure where
  | version (error : ShipError)
  | dirtyWorkingTree (dir : String)
  | versionRace (observed onOrigin branch : String)
  | git (op detail : String)
deriving DecidableEq

/-- The `git` invocations of a ship. -/
inductive GitCall where
  | status
  | add (file : String)
  | revParse
  | fetch (remote branch : String)
  | show (remote branch file : String)
  | checkout (file : String)
  | commit (message : String)
  | push (remote : String)

/-- How an error names an invocation. -/
def GitCall.op : GitCall → String
  | .status => "status"
  | .add _ => "add"
  | .revParse => "rev-parse"
  | .fetch _ _ => "fetch"
  | .show _ _ _ => "show"
  | .checkout _ => "checkout"
  | .commit _ => "commit"
  | .push _ => "push"

/-- What a ship does in its clone, and what else is done there between ships: a fast-forward, a
commit that leaves the version files alone, and giving up what was not committed. A ship ends in
a report of what was asked for and what came of it. -/
inductive ShipCall where
  | locate
  | bump (level : Bump)
  | git (call : GitCall)
  | pull (remote : String)
  | work (message : String)
  | restore
  | report (level : Bump) (opts : ShipOptions) (result : Except ShipFailure ShipReport)

/-- The answers: an invocation prints its output, or fails with a detail. -/
def ShipCall.Answer : ShipCall → Type
  | .locate => Except ShipError VersionInfo
  | .bump _ => Except ShipError (String × String)
  | .git _ => Except String String
  | _ => Unit

@[reducible] def ShipSig : Sig where
  Cmd := ShipCall
  Ans := ShipCall.Answer

/-- Run `git`. -/
def git (call : GitCall) : Prog ShipSig (Except ShipFailure String) :=
  Prog.attempt (Prog.perform (S := ShipSig) (.git call)) (.git call.op) fun out => .ret (.ok out)

/-! ## The workflow -/

def defaultMessage : String := "Release v\x7bversion\x7d"

/-- The message of a release commit. -/
def renderMessage (opts : ShipOptions) (newVersion : String) : String :=
  Artifact.substitute newVersion (opts.messageTemplate.getD defaultMessage)

section Workflow

variable (crates : Crates)

/-- The version of the remote's version file, if it has one and that is not the observed one. -/
def racing (kind : ProjectKind) (observed branch content : String) : Option (String × String) :=
  match versionInToml crates content kind with
  | none => none
  | some onOrigin => if onOrigin = observed then none else some (onOrigin, branch)

/-- Fetch a branch and compare. A branch that the remote lacks, and a fetch that fails, are no
race. -/
def raceOn (kind : ProjectKind) (observed remote branch : String) :
    Prog ShipSig (Except ShipFailure (Option (String × String))) := do
  match ← git (.fetch remote branch) with
  | .error _ => return .ok none
  | .ok _ =>
    match ← git (.show remote branch kind.fileName) with
    | .error _ => return .ok none
    | .ok content => return .ok (racing crates kind observed branch content)

/-- Whether the remote's branch has another version than the one that was observed. On a detached
head there is no branch to race on. -/
def detectVersionRace (kind : ProjectKind) (observed remote : String) :
    Prog ShipSig (Except ShipFailure (Option (String × String))) :=
  (git .revParse).attempt id fun out =>
    if (trim out).isEmpty || trim out == "HEAD" then .ret (.ok none)
    else raceOn crates kind observed remote (trim out)

/-- Before the commit: a ship that will push looks for a race, and undoes the bump if it lost. -/
def refuseRace (info : VersionInfo) (opts : ShipOptions) : Prog ShipSig (Except ShipFailure Unit) :=
  if opts.push then
    (detectVersionRace crates info.kind info.version opts.remote).attempt id fun race =>
      match race with
      | none => .ret (.ok ())
      | some (onOrigin, branch) =>
          (git (.checkout info.kind.fileName)).attempt id fun _ =>
            .ret (.error (.versionRace info.version onOrigin branch))
  else .ret (.ok ())

/-- Bump the version file and commit it, unless the current version is shipped again. -/
def commitBump (level : Bump) (opts : ShipOptions) (info : VersionInfo) (message : String) :
    Prog ShipSig (Except ShipFailure Bool) :=
  if opts.noBump then .ret (.ok false)
  else
    (Prog.perform (S := ShipSig) (.bump level)).attempt .version fun _ =>
      (git (.add info.kind.fileName)).attempt id fun _ =>
        (refuseRace crates info opts).attempt id fun _ =>
          (git (.commit message)).attempt id fun _ => .ret (.ok true)

/-- The version that is shipped. -/
def targetVersion (opts : ShipOptions) (level : Bump) (info : VersionInfo) :
    Except ShipError String :=
  if opts.noBump then .ok info.version else nextVersion crates info.version level

/-- What a ship reports, but for what it committed and pushed. -/
def reportOf (opts : ShipOptions) (info : VersionInfo) (target : String)
    (committed pushed dryRun : Bool) : ShipReport where
  oldVersion := info.version
  newVersion := target
  message := renderMessage opts target
  committed := committed
  pushed := pushed
  deployRequested := !opts.noDeploy
  dryRun := dryRun
  raceDetected := false

/-- Push what is committed, if that is asked for. -/
def pushRelease (opts : ShipOptions) (info : VersionInfo) (target : String) (committed : Bool) :
    Prog ShipSig (Except ShipFailure ShipReport) :=
  if opts.push then
    (git (.push opts.remote)).attempt id fun _ =>
      .ret (.ok (reportOf opts info target committed true false))
  else .ret (.ok (reportOf opts info target committed false false))

/-- Ship a version, from a clean tree. -/
def shipTarget (dir : String) (level : Bump) (opts : ShipOptions) (info : VersionInfo)
    (target : String) : Prog ShipSig (Except ShipFailure ShipReport) :=
  if opts.dryRun then .ret (.ok (reportOf opts info target false false true))
  else
    (git .status).attempt id fun out =>
      if !(trim out).isEmpty then .ret (.error (.dirtyWorkingTree dir))
      else
        (commitBump crates level opts info (renderMessage opts target)).attempt id fun committed =>
          pushRelease opts info target committed

/-- Run the workflow in the clone at a directory. -/
def ship (dir : String) (level : Bump) (opts : ShipOptions) :
    Prog ShipSig (Except ShipFailure ShipReport) :=
  (Prog.perform (S := ShipSig) .locate).attempt .version fun (info : VersionInfo) =>
    match targetVersion crates opts level info with
    | .error error => .ret (.error (.version error))
    | .ok target => shipTarget crates dir level opts info target

/-- What is done in a clone. -/
inductive Op where
  | ship (level : Bump) (opts : ShipOptions)
  | pull (remote : String)
  | work (message : String)
  | restore

/-- Carry out what is done in the clone at a directory, one after another. -/
def operate (dir : String) : List Op → Prog ShipSig Unit
  | [] => .ret ()
  | .ship level opts :: ops => do
      let result ← ship crates dir level opts
      let _ ← Prog.perform (S := ShipSig) (.report level opts result)
      operate dir ops
  | .pull remote :: ops => do
      let _ ← Prog.perform (S := ShipSig) (.pull remote)
      operate dir ops
  | .work message :: ops => do
      let _ ← Prog.perform (S := ShipSig) (.work message)
      operate dir ops
  | .restore :: ops => do
      let _ ← Prog.perform (S := ShipSig) .restore
      operate dir ops

end Workflow

end Fraisier.Ship
