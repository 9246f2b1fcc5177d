import Fraisier.Artifact.Checksums
import Fraisier.Artifact.StagingDisk

/-!
# Runs of stages and activations

A stage writes where it stages, and nowhere else, but it does so before it knows whether it
succeeds. One that fails therefore leaves alone what is live and what may be rolled back to as
long as it stages somewhere else. Read `Source.Touches`, `Apart` and `Harmless` first; the main
theorem is `stages_harmless`.
-/

namespace Fraisier.Artifact

open Fraisier.Core Fraisier.Effect
open Fraisier.Data (Node PathBuf)
open Fraisier.SelfUpgrade (Disk File)

/-! ## Sources -/

/-- A source of artifacts. -/
inductive Source where
  | pullArtifact (pull : PullArtifact)
  | releaseArtifact (sha256 : List UInt8 → List UInt8)
  | localArtifact
  | gitArtifact

/-- What a program returns and the disk it leaves. -/
def outcome {S : Sig} {α : Type} (h : Handler S Disk) (p : Prog S α) (s : Disk) : α × Disk :=
  ((p.exec h [] s).value, (p.exec h [] s).final)

/-- Stage on a disk. -/
def Source.stage (o : Fate) (ctx : AdapterCtx) (s : Disk) :
    Source → Except AdapterError StagedArtifact × Disk
  | .pullArtifact pull => outcome (hosted o) (pull.stage ctx) s
  | .releaseArtifact sha256 => outcome (hosted o) (ReleaseArtifact.stage sha256 ctx) s
  | .localArtifact => outcome (files o) (LocalArtifact.stage ctx) s
  | .gitArtifact => outcome (files o) (GitArtifact.stage ctx) s

/-- Activate on a disk, in a process with the given number. -/
def Source.activate (o : Fate) (pid : Nat) (ctx : AdapterCtx) (staged : StagedArtifact)
    (s : Disk) : Source → Except AdapterError Unit × Disk
  | .pullArtifact _ => outcome (hosted o) (PullArtifact.activate ctx staged) s
  | .releaseArtifact _ => outcome (files o) (ReleaseArtifact.activate pid ctx staged) s
  | .localArtifact => outcome (files o) (LocalArtifact.activate pid ctx staged) s
  | .gitArtifact => outcome (files o) (GitArtifact.activate pid ctx staged) s

/-! ## What a stage touches -/

/-- The path that a host pulls to. -/
def PullArtifact.target (ctx : AdapterCtx) : Option PathBuf := do
  let version ← stringSetting ctx "version"
  let _ ← stringSetting ctx "release_url"
  return .ofText (stagingDir ctx ++ "/" ++ version)

/-- The commit that `git` names to a stage which starts at the given time. -/
def GitArtifact.Config.head (config : Config) (o : Fate) (time : Nat) : Option String :=
  match o.program (time + 3 + if config.reference.isSome then 1 else 0) with
  | .ok captured => some (Data.trim captured.stdout)
  | .error _ => none

/-- What a stage may touch, on a disk as it finds it: the file it downloads to, the files and
directories it copies to, or the checkout and where that is moved. -/
def Source.Touches (o : Fate) (ctx : AdapterCtx) (s : Disk) (x : PathBuf) : Source → Prop
  | .pullArtifact _ => ∃ path ∈ PullArtifact.target ctx, x = s.destination path
  | .releaseArtifact _ => ∃ config, ReleaseArtifact.Config.fromCtx ctx "stage" = .ok config ∧
      x = s.destination (.ofText config.stagedPath)
  | .localArtifact => ∃ config, LocalArtifact.Config.fromCtx ctx "stage" = .ok config ∧
      (config.stagedPath.within x = true ∨
        ∃ names, x = s.destination (config.stagedPath.below names))
  | .gitArtifact => ∃ config, GitArtifact.Config.fromCtx ctx "stage" = .ok config ∧
      (config.temporary.within x = true ∨
        ∃ sha ∈ config.head o s.clock, (config.stagedPath sha).within x = true)

section Sources

variable {o : Fate} {s : Disk} {touched : PathBuf → Prop} {ctx : AdapterCtx}

theorem host_issues {P : HostCall → Prop} {c : HostCall} (hc : P c) : (host c).Issues P :=
  .perform hc

theorem file_issues {P : FileCall → Prop} {c : FileCall} (hc : P c) : (file c).Issues P :=
  .perform hc

/-! ### Pulls -/

namespace PullArtifact

theorem exec_issues {P : HostCall → Prop} {program : String} {args : List String}
    (hc : P (.run program args)) (operation : String) :
    (exec program args operation).Issues P := by
  refine (host_issues hc).bind fun r => ?_
  cases r with
  | error error => exact .ret _
  | ok captured =>
      dsimp only
      split <;> exact .ret _

theorem expectedChecksum_issues (pull : PullArtifact) (version : String) :
    (pull.expectedChecksum ctx version).Issues (HostCall.Within s touched) := by
  rw [expectedChecksum]
  split
  · exact .ret _
  · split
    · exact .ret _
    · refine (exec_issues ⟨rfl, fun x hx => hx.elim⟩ _).bind fun r => ?_
      cases r <;> exact .ret _

theorem verify_issues (version stagedPath : String) (expected : Option String) :
    (verify version stagedPath expected).Issues (HostCall.Within s touched) := by
  cases expected with
  | none => exact .ret _
  | some expected =>
      have hwithin : HostCall.Within s touched (.run "sha256sum" [stagedPath]) := by
        simp [HostCall.Within, HostCall.mayLink, HostCall.Touches, argsTouch]
      refine (exec_issues hwithin _).bind fun r => ?_
      cases r <;> exact .ret _

/-- A pull touches the file that it downloads to. -/
theorem stage_issues (pull : PullArtifact)
    (htouched : ∀ path ∈ target ctx, touched (s.destination path)) :
    (pull.stage ctx).Issues (HostCall.Within s touched) := by
  rw [stage]
  split
  · exact .ret _
  next version hversion =>
    split
    · exact .ret _
    next release hrelease =>
      have hpath : touched (s.destination (.ofText (stagingDir ctx ++ "/" ++ version))) := by
        refine htouched _ ?_
        simp [target, requireSetting_ok hversion, requireSetting_ok hrelease]
      refine (exec_issues ⟨rfl, fun x hx => hx.elim⟩ _).bind fun r => ?_
      cases r with
      | error error => exact .ret _
      | ok _ =>
          refine (exec_issues ⟨rfl, fun x hx => hx ▸ hpath⟩ _).bind fun r => ?_
          cases r with
          | error error => exact .ret _
          | ok _ =>
              refine (expectedChecksum_issues pull version).bind fun r => ?_
              cases r with
              | error error => exact .ret _
              | ok expected =>
                  refine (verify_issues version _ expected).bind fun r => ?_
                  cases r <;> exact .ret _

end PullArtifact

/-! ### Downloads -/

namespace ReleaseArtifact

theorem fetch_issues (url : String) : (fetch url).Issues (HostCall.Within s touched) := by
  refine (host_issues ⟨rfl, fun x hx => hx.elim⟩).bind fun r => ?_
  cases r with
  | error error => exact .ret _
  | ok response =>
      dsimp only
      split <;> exact .ret _

theorem retry_issues {P : HostCall → Prop} {op : Prog HostSig (Except String (List UInt8))}
    (hop : op.Issues P) (hsleep : ∀ ms, P (.sleep ms)) (delayMs left : Nat) :
    (retry op delayMs left).Issues P := by
  induction left with
  | zero => exact hop
  | succ left ih =>
      refine hop.bind fun r => ?_
      cases r with
      | ok bytes => exact .ret _
      | error error =>
          dsimp only
          split
          · exact (host_issues (hsleep delayMs)).bind fun _ => ih
          · exact ih

theorem download_issues (config : Config) (url operation : String) :
    (download config url operation).Issues (HostCall.Within s touched) := by
  refine (retry_issues (fetch_issues url) (fun ms => ⟨rfl, fun x hx => hx.elim⟩) _ _).bind
    fun r => ?_
  cases r <;> exact .ret _

theorem expectedChecksum_issues (config : Config) :
    (expectedChecksum config).Issues (HostCall.Within s touched) := by
  rw [expectedChecksum]
  split
  · exact .ret _
  · split
    · exact .ret _
    · refine (download_issues config _ _).bind fun r => ?_
      cases r <;> exact .ret _

theorem writeStaged_issues {config : Config} {bytes : List UInt8}
    (hpath : touched (s.destination (.ofText config.stagedPath))) :
    (writeStaged config bytes).Issues (HostCall.Within s touched) := by
  refine (host_issues ⟨rfl, fun x hx => hx.elim⟩).bind fun r => ?_
  cases r with
  | error error => exact .ret _
  | ok _ =>
      refine (host_issues ⟨rfl, fun x hx => hx ▸ hpath⟩).bind fun r => ?_
      cases r <;> exact .ret _

/-- A release touches the file that it is written to. -/
theorem stage_issues (sha256 : List UInt8 → List UInt8)
    (htouched : ∀ config, Config.fromCtx ctx "stage" = .ok config →
      touched (s.destination (.ofText config.stagedPath))) :
    (stage sha256 ctx).Issues (HostCall.Within s touched) := by
  rw [stage]
  split
  · exact .ret _
  next config hconfig =>
    refine (host_issues ⟨rfl, fun x hx => hx.elim⟩).bind fun r => ?_
    cases r with
    | error error => exact .ret _
    | ok _ =>
        refine (download_issues config _ _).bind fun r => ?_
        cases r with
        | error error => exact .ret _
        | ok bytes =>
            refine (expectedChecksum_issues config).bind fun r => ?_
            cases r with
            | error error => exact .ret _
            | ok expected =>
                dsimp only
                split
                · exact .ret _
                · refine (writeStaged_issues (htouched config hconfig)).bind fun r => ?_
                  cases r <;> exact .ret _

end ReleaseArtifact

/-! ### Copies -/

namespace LocalArtifact

theorem copyEntries_issues {P : FileCall → Prop}
    {copy : PathBuf → PathBuf → Prog FileSig (Except String Unit)} {dst : PathBuf}
    (hcopy : ∀ src name, (copy src (dst.below [name])).Issues P) (src : PathBuf)
    (entries : List (Except String String)) : (copyEntries copy src dst entries).Issues P := by
  induction entries with
  | nil => exact .ret _
  | cons entry rest ih =>
      cases entry with
      | error cause => exact .ret _
      | ok name =>
          refine (hcopy _ name).bind fun r => ?_
          cases r with
          | error cause => exact .ret _
          | ok _ => exact ih

theorem copyFile_issues {src dst : PathBuf} (hdst : touched (s.destination dst)) :
    (copyFile src dst).Issues (FileCall.Within s touched) := by
  have hcopy : (file (.copy src dst)).Issues (FileCall.Within s touched) :=
    file_issues ⟨rfl, fun x hx => hx ▸ hdst⟩
  rw [copyFile]
  split
  · exact hcopy
  · refine (file_issues ⟨rfl, fun x hx => hx.elim⟩).bind fun r => ?_
    cases r with
    | error cause => exact .ret _
    | ok _ => exact hcopy

/-- A copy touches what its target and the paths below it lead to. -/
theorem copyTree_issues (depth : Nat) {src dst : PathBuf}
    (hdst : ∀ names, touched (s.destination (dst.below names))) :
    (copyTree depth src dst).Issues (FileCall.Within s touched) := by
  have hquiet : ∀ c : FileCall, c.mayLink = false → (∀ x, ¬ c.Touches s x) →
      (file c).Issues (FileCall.Within s touched) := fun c hlink hc =>
    file_issues ⟨hlink, fun x hx => (hc x hx).elim⟩
  induction depth generalizing src dst with
  | zero => exact .ret _
  | succ depth ih =>
      refine (hquiet _ rfl fun _ => id).bind fun dir => ?_
      cases dir with
      | false => exact copyFile_issues (by simpa using hdst [])
      | true =>
          refine (hquiet _ rfl fun _ => id).bind fun r => ?_
          cases r with
          | error cause => exact .ret _
          | ok _ =>
              refine (hquiet _ rfl fun _ => id).bind fun r => ?_
              cases r with
              | error cause => exact .ret _
              | ok entries =>
                  refine copyEntries_issues (fun src name => ih fun names => ?_) src entries
                  rw [PathBuf.below_below]
                  exact hdst ([name] ++ names)

/-- A copy touches what is staged under the version. -/
theorem stage_issues (hwithin : ∀ config, Config.fromCtx ctx "stage" = .ok config →
      ∀ x, config.stagedPath.within x = true → touched x)
    (hbelow : ∀ config, Config.fromCtx ctx "stage" = .ok config →
      ∀ names, touched (s.destination (config.stagedPath.below names))) :
    (stage ctx).Issues (FileCall.Within s touched) := by
  rw [stage]
  split
  · exact .ret _
  next config hconfig =>
    refine (file_issues ⟨rfl, fun x hx => hx.elim⟩).bind fun present => ?_
    cases present with
    | false => exact .ret _
    | true =>
        refine (file_issues ⟨rfl, hwithin config hconfig⟩).bind fun _ => ?_
        have hself : touched config.stagedPath :=
          hwithin config hconfig _ config.stagedPath.within_self
        refine (file_issues ⟨rfl, fun x hx => hx ▸ hself⟩).bind fun _ => ?_
        refine (copyTree_issues maxDepth (hbelow config hconfig)).bind fun r => ?_
        cases r <;> exact .ret _

end LocalArtifact

/-! ### Checkouts -/

namespace GitArtifact

variable {s' : Disk} {n : Nat} {config : Config}

/-- So many calls ago a disk was another one, and nothing else was touched since. -/
structure Since (touched : PathBuf → Prop) (s : Disk) (n : Nat) (s' : Disk) : Prop where
  spares : Spares touched s s'
  clock : s'.clock = s.clock + n

theorem Since.step (h : Since touched s n s') {c : FileCall}
    (hc : ∀ x, c.Touches s' x → touched x) : Since touched s (n + 1) (files o c s').2 :=
  ⟨h.spares.trans ((files_spares o c s').mono hc), by rw [clock_files, h.clock, Nat.add_assoc]⟩

/-- A run of `git` is one call, and what it prints is what the call answers. -/
theorem wp_git {command : GitCommand} {cwd : Option PathBuf} {operation : String}
    {Q : Except AdapterError String → Disk → Prop}
    (herror : ∀ error, Q (.error error) (files o (.git command cwd) s).2)
    (hok : ∀ captured, o.program s.clock = .ok captured →
      Q (.ok captured.stdout) (files o (.git command cwd) s).2) :
    wp (files o) Eq Guarantee.any (git command cwd operation) Q s := by
  refine wp_bind (wp_perform.mpr ⟨trivial, ?_⟩)
  generalize hanswer : (files o (.git command cwd) s).1 = answer
  cases answer with
  | error error => exact wp_ret.mpr (herror error)
  | ok captured =>
      exact wp_ite (fun _ => wp_ret.mpr (hok captured hanswer)) fun _ => wp_ret.mpr (herror _)

theorem wp_checkout (h : Since touched s n s')
    (htemporary : ∀ x, config.temporary.within x = true → touched x) :
    wp (files o) Eq Guarantee.any (checkout config)
      (fun _ s'' => Since touched s (n + if config.reference.isSome then 1 else 0) s'') s' := by
  rw [checkout]
  cases hreference : config.reference with
  | none => exact wp_ret.mpr h
  | some reference =>
      have hstep : Since touched s (n + 1)
          (files o (.git (.checkout reference) (some config.temporary)) s').2 :=
        h.step fun x ⟨dir, hdir, hx⟩ => htemporary x (Option.some.inj hdir ▸ hx)
      exact wp_bind (wp_git (fun _ => wp_ret.mpr hstep) fun _ _ => wp_ret.mpr hstep)

/-- A checkout is moved to where it is staged. -/
theorem wp_moveStaged (h : Since touched s n s') {sha : String}
    (htemporary : ∀ x, config.temporary.within x = true → touched x)
    (hstaged : ∀ x, (config.stagedPath sha).within x = true → touched x) :
    wp (files o) Eq Guarantee.any (moveStaged config sha)
      (fun _ s'' => Spares touched s s'') s' := by
  refine wp_bind (wp_perform.mpr ⟨trivial, ?_⟩)
  refine wp_bind (wp_perform.mpr ⟨trivial, ?_⟩)
  have hremoved : Since touched s (n + 1) (files o (.removeDirAll (config.stagedPath sha)) s').2 :=
    h.step hstaged
  have hmoved := hremoved.spares.trans ((files_spares o
    (.rename config.temporary (config.stagedPath sha)) _).mono fun x hx =>
      hx.elim (htemporary x) (hstaged x))
  split <;> exact wp_ret.mpr hmoved

/-- A checkout touches its directory and where it is moved. -/
theorem stage_spares
    (htemporary : ∀ config, Config.fromCtx ctx "stage" = .ok config →
      ∀ x, config.temporary.within x = true → touched x)
    (hstaged : ∀ config, Config.fromCtx ctx "stage" = .ok config → ∀ sha ∈ config.head o s.clock,
      ∀ x, (config.stagedPath sha).within x = true → touched x) :
    wp (files o) Eq Guarantee.any (stage ctx) (fun _ s' => Spares touched s s') s := by
  rw [stage]
  split
  · exact wp_ret.mpr (.refl _ s)
  next config hconfig =>
    replace htemporary := htemporary config hconfig
    replace hstaged := hstaged config hconfig
    have hcreated : Since touched s 1 (files o (.createDirAll config.stagingDir) s).2 :=
      Since.step ⟨.refl _ s, rfl⟩ fun x hx => hx.elim
    refine wp_bind (wp_perform.mpr ⟨trivial, ?_⟩)
    split
    · exact wp_ret.mpr hcreated.spares
    · have hremoved := hcreated.step (o := o) (c := .removeDirAll config.temporary) htemporary
      have hcloned := hremoved.step (o := o) (c := .git (.clone config.repo config.temporary) none)
        fun x ⟨dir, hdir, hx⟩ => htemporary x (Option.some.inj hdir ▸ hx)
      refine wp_bind (wp_perform.mpr ⟨trivial, ?_⟩)
      refine wp_bind (wp_git (fun _ => wp_ret.mpr hcloned.spares) fun _ _ => ?_)
      refine wp_bind (wp_post (fun r s₁ hs₁ => ?_) (wp_checkout hcloned htemporary))
      cases r with
      | error error => exact wp_ret.mpr hs₁.spares
      | ok _ =>
          have hnamed := hs₁.step (o := o) (c := .git (.revParse "HEAD") (some config.temporary))
            fun x ⟨dir, hdir, hx⟩ => htemporary x (Option.some.inj hdir ▸ hx)
          refine wp_bind (wp_git (fun _ => wp_ret.mpr hnamed.spares) fun captured hprogram => ?_)
          refine wp_moveStaged hnamed htemporary (hstaged _ ?_)
          rw [hs₁.clock] at hprogram
          have htime : s.clock + 3 + (if config.reference.isSome then 1 else 0) =
              s.clock + (0 + 1 + 1 + 1 + if config.reference.isSome then 1 else 0) := by
            rw [Nat.add_assoc]
          rw [Config.head, htime, hprogram]
          rfl

end GitArtifact

/-- A stage leaves every file and every link alone that it may not touch. -/
theorem Source.stage_spares (o : Fate) (source : Source) (ctx : AdapterCtx) (s : Disk) :
    Spares (fun x => source.Touches o ctx s x) s (source.stage o ctx s).2 := by
  cases source with
  | pullArtifact pull =>
      have hissues : (pull.stage ctx).Issues
          (HostCall.Within s fun x => (Source.pullArtifact pull).Touches o ctx s x) :=
        PullArtifact.stage_issues pull fun path hpath => ⟨path, hpath, rfl⟩
      exact (wp_exec (hosted_wp hissues) []).1.spares
  | releaseArtifact sha256 =>
      have hissues : (ReleaseArtifact.stage sha256 ctx).Issues
          (HostCall.Within s fun x => (Source.releaseArtifact sha256).Touches o ctx s x) :=
        ReleaseArtifact.stage_issues sha256 fun config hconfig => ⟨config, hconfig, rfl⟩
      exact (wp_exec (hosted_wp hissues) []).1.spares
  | localArtifact =>
      have hissues : (LocalArtifact.stage ctx).Issues
          (FileCall.Within s fun x => Source.localArtifact.Touches o ctx s x) :=
        LocalArtifact.stage_issues (fun config hconfig x hx => ⟨config, hconfig, .inl hx⟩)
          fun config hconfig names => ⟨config, hconfig, .inr ⟨names, rfl⟩⟩
      exact (wp_exec (files_wp hissues) []).1.spares
  | gitArtifact =>
      have hspares : wp (files o) Eq Guarantee.any (GitArtifact.stage ctx)
          (fun _ s' => Spares (fun x => Source.gitArtifact.Touches o ctx s x) s s') s :=
        GitArtifact.stage_spares (fun config hconfig x hx => ⟨config, hconfig, .inl hx⟩)
          fun config hconfig sha hsha x hx => ⟨config, hconfig, .inr ⟨sha, hsha, hx⟩⟩
      exact (wp_exec hspares []).1

end Sources

/-! ## What a path shows -/

/-- What is reached through a path: the files and links at and below what it leads to. -/
def tree (s : Disk) (path : PathBuf) (names : List String) : Option (Node PathBuf File) :=
  leaf s ((s.destination path).below names)

/-- What a path is read through: the links that lead from it, and all that is at or below their
end. -/
def Region (s : Disk) (path x : PathBuf) : Prop :=
  x ∈ Node.trail s.node Node.maxLinks path ∨ (s.destination path).within x = true

/-- What is reached through a path is what it was, if nothing was touched that it is read
through. -/
theorem tree_of_spares {touched : PathBuf → Prop} {s s' : Disk} {path : PathBuf}
    (h : Spares touched s s') (hapart : ∀ x, touched x → ¬ Region s path x) :
    tree s' path = tree s path := by
  have hleaf : ∀ x, Region s path x → leaf s' x = leaf s x := fun x hx =>
    h x fun htouched => hapart x htouched hx
  have htrail : Node.trail s'.node Node.maxLinks path = Node.trail s.node Node.maxLinks path := by
    refine Node.trail_congr fun x hx target => ?_
    rw [← leaf_eq_link, ← leaf_eq_link, hleaf x (.inl hx)]
  have hdestination : s'.destination path = s.destination path := by
    rw [Disk.destination, Disk.destination, htrail]
  funext names
  rw [tree, tree, hdestination]
  exact hleaf _ (.inr ((s.destination path).within_below names))

/-! ## Runs -/

/-- One step of a run. -/
inductive Op where
  | stage (ctx : AdapterCtx)
  | activate (ctx : AdapterCtx) (staged : StagedArtifact)

def Op.isStage : Op → Bool
  | stage _ => true
  | activate _ _ => false

/-- A disk, and what was staged on it. -/
structure State where
  disk : Disk
  staged : List StagedArtifact

/-- A deployment: where its artifacts come from, the process that stages them, the path that is
activated, and which of the staged artifacts the ledger may roll back to. -/
structure Deployment where
  source : Source
  pid : Nat
  active : PathBuf
  ledger : List StagedArtifact → List StagedArtifact

namespace Deployment

/-- A stage that succeeds is remembered. -/
def step (d : Deployment) (o : Fate) (s : State) : Op → State
  | .stage ctx =>
      match d.source.stage o ctx s.disk with
      | (.ok staged, disk) => ⟨disk, staged :: s.staged⟩
      | (.error _, disk) => ⟨disk, s.staged⟩
  | .activate ctx staged => { s with disk := (d.source.activate o d.pid ctx staged s.disk).2 }

def run (d : Deployment) (o : Fate) (s : State) (ops : List Op) : State :=
  ops.foldl (d.step o) s

/-- The path that is live, and those that may be rolled back to. -/
def guardedPaths (d : Deployment) (s : State) : List PathBuf :=
  d.active :: (d.ledger s.staged).map fun staged => .ofText staged.path

/-- What a stage may touch is apart from what is live and what may be rolled back to. -/
def Apart (d : Deployment) (o : Fate) (s : State) : Op → Prop
  | .stage ctx => ∀ path ∈ d.guardedPaths s, ∀ x, d.source.Touches o ctx s.disk x →
      ¬ Region s.disk path x
  | .activate _ _ => True

/-- A stage that fails leaves what is live and what may be rolled back to as it was. -/
def Harmless (d : Deployment) (o : Fate) (s : State) : Op → Prop
  | .stage ctx => ∀ error, (d.source.stage o ctx s.disk).1 = .error error →
      ∀ path ∈ d.guardedPaths s, tree (d.source.stage o ctx s.disk).2 path = tree s.disk path
  | .activate _ _ => True

/-- Every step of a run meets a condition where it starts. -/
def Steps (d : Deployment) (o : Fate) (P : State → Op → Prop) : State → List Op → Prop
  | _, [] => True
  | s, op :: ops => P s op ∧ d.Steps o P (d.step o s op) ops

end Deployment

section Runs

variable {d : Deployment} {o : Fate} {s : State}

theorem Deployment.disk_step_stage (ctx : AdapterCtx) :
    (d.step o s (.stage ctx)).disk = (d.source.stage o ctx s.disk).2 := by
  rw [step]
  split
  next h => rw [h]
  next h => rw [h]

/-- Whether it fails or not, a stage that is apart changes nothing of what is guarded. -/
theorem Deployment.tree_stage {ctx : AdapterCtx} (hapart : d.Apart o s (.stage ctx))
    {path : PathBuf} (hpath : path ∈ d.guardedPaths s) :
    tree (d.source.stage o ctx s.disk).2 path = tree s.disk path :=
  tree_of_spares (d.source.stage_spares o ctx s.disk) (hapart path hpath)

theorem Deployment.Steps.mono {P Q : State → Op → Prop} {ops : List Op}
    (h : d.Steps o P s ops) (himp : ∀ s op, P s op → Q s op) : d.Steps o Q s ops := by
  induction ops generalizing s with
  | nil => trivial
  | cons op ops ih => exact ⟨himp s op h.1, ih h.2⟩

theorem Deployment.steps_append {P : State → Op → Prop} {before after : List Op} :
    d.Steps o P s (before ++ after) ↔
      d.Steps o P s before ∧ d.Steps o P (d.run o s before) after := by
  induction before generalizing s with
  | nil => simp [Steps, run]
  | cons op before ih =>
      rw [List.cons_append, Steps, Steps, ih, and_assoc]
      rfl

/-- Stages alone do not change what is live. -/
theorem Deployment.tree_stages {stages : List Op} (hstages : ∀ op ∈ stages, op.isStage = true)
    (hsteps : d.Steps o (d.Apart o) s stages) :
    tree (d.run o s stages).disk d.active = tree s.disk d.active := by
  induction stages generalizing s with
  | nil => rfl
  | cons op stages ih =>
      obtain ⟨hop, hrest⟩ := List.forall_mem_cons.mp hstages
      obtain ⟨hapart, hsteps⟩ := hsteps
      cases op with
      | activate ctx staged => cases hop
      | stage ctx =>
          refine (ih hrest hsteps).trans ?_
          rw [disk_step_stage]
          exact tree_stage hapart List.mem_cons_self

/-- In a run whose stages are apart from what is live and what may be rolled back to, a stage
that fails leaves both as they were, and what is live changes in an activation only. -/
theorem stages_harmless (d : Deployment) (o : Fate) (s : State) (ops : List Op)
    (hapart : d.Steps o (d.Apart o) s ops) :
    d.Steps o (d.Harmless o) s ops ∧
      ∀ before stages after, ops = before ++ stages ++ after →
        (∀ op ∈ stages, op.isStage = true) →
        tree (d.run o s (before ++ stages)).disk d.active =
          tree (d.run o s before).disk d.active := by
  refine ⟨hapart.mono fun s op hop => ?_, fun before stages after hops hstages => ?_⟩
  · cases op with
    | stage ctx => exact fun _ _ path hpath => Deployment.tree_stage hop hpath
    | activate ctx staged => trivial
  · subst hops
    have hstages' := (Deployment.steps_append.mp (Deployment.steps_append.mp hapart).1).2
    rw [Deployment.run, List.foldl_append]
    exact Deployment.tree_stages hstages hstages'

end Runs

/-! ## A pull of what is live -/

instance (s : Disk) (path x : PathBuf) : Decidable (Region s path x) :=
  inferInstanceAs (Decidable (_ ∨ _))

/-- A pull of a version, with the digest to expect. -/
def pulling (version : String) : AdapterCtx :=
  { AdapterCtx.new "app" "production" with
    settings := [("version", .str version), ("release_url", .str "https://releases/app"),
      ("staging_dir", .str "/srv/staging"), ("active_path", .str "/srv/current"),
      ("sha256", .str "aa")] }

/-- A host that pulls what it runs. -/
def pulled : Deployment where
  source := .pullArtifact ⟨"curl"⟩
  pid := 1
  active := .ofText "/srv/current"
  ledger := fun staged => staged

/-- Nothing fails, and what is downloaded at the sixth call and later was tampered with. -/
def tampering : Fate where
  fails _ := none
  part _ _ := false
  left _ := none
  program time := .ok ⟨some 0, if time < 6 then "aa" else "bb", "", none⟩
  body time := if time < 6 then [1] else [2]
  tree _ := []
  response _ := .error "no route to host"

def bare : State := ⟨⟨∅, 0⟩, []⟩

def staged : StagedArtifact := ⟨⟨"1.0.0", some "aa"⟩, "/srv/staging/1.0.0"⟩

/-- A version is pulled and activated, and then another one or the same one is pulled. -/
def pulls (next : String) : List Op :=
  [.stage (pulling "1.0.0"), .activate (pulling "1.0.0") staged, .stage (pulling next)]

/-- A pull is apart if the path it downloads to is. -/
theorem apart_of_pull {s : State} {o : Fate} {ctx : AdapterCtx}
    (h : ∀ path ∈ pulled.guardedPaths s, ∀ target ∈ PullArtifact.target ctx,
      ¬ Region s.disk path (s.disk.destination target)) : pulled.Apart o s (.stage ctx) := by
  rintro path hpath x ⟨target, htarget, rfl⟩
  exact h path hpath target htarget

/-- Another version is pulled beside the live one. -/
theorem stages_harmless_beside : pulled.Steps tampering (pulled.Harmless tampering) bare
    (pulls "1.1.0") :=
  (stages_harmless pulled tampering bare (pulls "1.1.0")
    ⟨apart_of_pull (by decide +kernel), trivial, apart_of_pull (by decide +kernel), trivial⟩).1

/-- The live version is pulled again: what does not have the digest is live all the same. -/
theorem restaged_live : ¬∀ (d : Deployment) (o : Fate) (s : State) (ops : List Op),
    d.Steps o (d.Harmless o) s ops := by
  intro h
  have hharmless := (h pulled tampering bare (pulls "1.0.0")).2.2.1
  let live := (pulled.run tampering bare ((pulls "1.0.0").take 2)).disk
  have hstopped : (pulled.source.stage tampering (pulling "1.0.0") live).1 =
      .error (.tagged .execution "pull" "stage"
        "checksum mismatch for 1.0.0: expected aa, got bb" none) := by
    decide +kernel
  have hbefore : tree live pulled.active [] = some (.file ⟨[1], 1⟩) := by decide +kernel
  have hafter : tree (pulled.source.stage tampering (pulling "1.0.0") live).2 pulled.active [] =
      some (.file ⟨[2], 6⟩) := by
    decide +kernel
  have hsame := congrFun (hharmless _ hstopped pulled.active List.mem_cons_self) []
  cases hafter.symm.trans (hsame.trans hbefore)

end Fraisier.Artifact
