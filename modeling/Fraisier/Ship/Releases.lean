import Fraisier.Data.Bytes
import Fraisier.Data.Split
import Fraisier.Effect.Schedule
import Fraisier.Ship.Rising

/-!
# Releases that are shipped once

Clones of one project ship to its remotes in any interleaving, and whatever fails. A ship that
succeeds has done what it was asked for, what it reported as pushed stays on the branch it was
pushed to, and of two releases of a branch the later one has the higher version: `ships_sound`.
-/

namespace Fraisier.Ship

open Fraisier.Data Fraisier.Effect

/-! ## What is promised -/

section Promises

variable (crates : Crates) (base : Option String → List Commit)

/-- A ship that succeeded found the version it says, and says the one after it, or the same one
if it ships that again. It has committed and pushed what it was asked to: on a dry run nothing,
and of a version that is shipped again there is nothing to commit. What it committed is a bump on
what it found, and it left a clean tree. Otherwise it left its clone as it was. So did a ship that
refused a dirty tree, and one that lost a race to another version. -/
def Told.Truthful (t : Told) : Prop :=
  match t.result with
  | .ok report =>
      t.before.files.version crates = some report.oldVersion ∧
      (if t.opts.noBump then report.newVersion = report.oldVersion
        else nextVersion crates report.oldVersion t.level = .ok report.newVersion) ∧
      report.committed = (!t.opts.dryRun && !t.opts.noBump) ∧
      report.pushed = (!t.opts.dryRun && t.opts.push) ∧
      if report.committed then
        t.before.Clean ∧ t.after.Clean ∧ ∃ commit, t.after.history = commit :: t.before.history ∧
          commit.Bumps crates (tip t.before.history) ∧
          commit.files.version crates = some report.newVersion
      else t.after.Same t.before
  | .error (.dirtyWorkingTree _) => t.after.Same t.before
  | .error (.versionRace observed onOrigin _) =>
      t.after.Same t.before ∧ t.before.files.version crates = some observed ∧ onOrigin ≠ observed
  | .error _ => True

/-- A history bumps the version last, above what its branch began with. -/
def Shipped.Releases (e : Shipped) : Prop :=
  ∃ commit older, e.history = commit :: older ∧ base e.branch <:+ older ∧
    commit.Bumps crates (tip older)

/-- What was pushed is on its branch and has the version that was reported. What was committed
for it is a bump to that version. -/
structure Shipped.Lasts (e : Shipped) (w : Origin) : Prop where
  pushed : ∃ branch, e.branch = some branch ∧ e.history <:+ w.branches e.remote branch
  version : (tip e.history).version crates = some e.newVersion
  releases : e.committed = true → e.Releases crates base

/-- Of two releases one is built on the other and has the higher version. -/
def Shipped.After (e e' : Shipped) : Prop :=
  e'.history <:+ e.history ∧ ∃ v v', crates.semver e.newVersion = .ok v ∧
    crates.semver e'.newVersion = .ok v' ∧ v'.rank < v.rank

/-- What was pushed is on its branch, two releases of a branch are one or come one after the
other, unless a version has reached the end of its type, and every ship was truthful. -/
structure Sound {ι : Type} (p : Pool ι ShipSig Shipper Origin) : Prop where
  lasting : ∀ e ∈ p.state.shipped, e.Lasts crates base p.state
  ordered : ∀ e ∈ p.state.shipped, ∀ e' ∈ p.state.shipped, e.committed = true →
    e'.committed = true → e.remote = e'.remote → e.branch = e'.branch →
    (∀ branch, e.branch = some branch →
      Roomy crates (p.state.branches e.remote branch)) →
    e.history = e'.history ∨ e.After crates e' ∨ e'.After crates e
  truthful : ∀ i, ∀ t ∈ (p.tags i).told, t.Truthful crates

end Promises

/-! ## The course of a ship -/

/-- Where a ship stands: the version is known, the tree is clean, the version file is bumped, it
is staged, the bump is undone, it is committed, it is pushed, or the same version is pushed
again. -/
inductive Phase where
  | idle
  | found (info : VersionInfo)
  | clean (info : VersionInfo)
  | bumped (info : VersionInfo) (new : String)
  | staged (info : VersionInfo) (new : String)
  | undone (info : VersionInfo)
  | committed (info : VersionInfo) (new : String)
  | pushed (info : VersionInfo) (new remote : String)
  | again (info : VersionInfo) (remote : String)

/-- An invocation that changes no commit and no version file. -/
def GitCall.Looks : GitCall → Prop
  | .status => True
  | .revParse => True
  | .fetch _ _ => True
  | .show _ _ _ => True
  | _ => False

/-- Where a ship that succeeds stands at its end, by what it was asked for. -/
def ShipOptions.last (opts : ShipOptions) (info : VersionInfo) (new : String) : Phase :=
  if opts.dryRun then .found info
  else if opts.push then
    if opts.noBump then .again info opts.remote else .pushed info new opts.remote
  else if opts.noBump then .clean info else .committed info new

section Course

variable (crates : Crates)

/-- How a ship ends. -/
def Ends (level : Bump) (opts : ShipOptions) (result : Except ShipFailure ShipReport)
    (φ : Phase) : Prop :=
  match result with
  | .ok report => ∃ info, targetVersion crates opts level info = .ok report.newVersion ∧
      report = reportOf opts info report.newVersion (!opts.dryRun && !opts.noBump)
        (!opts.dryRun && opts.push) opts.dryRun ∧
      φ = opts.last info report.newVersion
  | .error (.dirtyWorkingTree _) => ∃ info, φ = .found info
  | .error (.versionRace observed onOrigin _) =>
      ∃ info : VersionInfo, φ = .undone info ∧ observed = info.version ∧ onOrigin ≠ observed
  | .error _ => True

/-- How a ship moves along. -/
inductive ShipMove : Phase → (c : ShipCall) → c.Answer → Phase → Prop
  | located (info : VersionInfo) : ShipMove .idle .locate (.ok info) (.found info)
  | lost (error : ShipError) : ShipMove .idle .locate (.error error) .idle
  | status (info : VersionInfo) (out : String) : ShipMove (.found info) (.git .status) (.ok out)
      (if (trim out).isEmpty then .clean info else .found info)
  | look {φ : Phase} {call : GitCall} (x : Except String String) : call.Looks →
      ShipMove φ (.git call) x φ
  | failed {φ : Phase} {call : GitCall} (detail : String) :
      ShipMove φ (.git call) (.error detail) .idle
  | bump (info : VersionInfo) (level : Bump) (new : String) (versions : String × String) :
      nextVersion crates info.version level = .ok new →
      ShipMove (.clean info) (.bump level) (.ok versions) (.bumped info new)
  | unbumped (info : VersionInfo) (level : Bump) (error : ShipError) :
      ShipMove (.clean info) (.bump level) (.error error) .idle
  | add (info : VersionInfo) (new out : String) :
      ShipMove (.bumped info new) (.git (.add info.kind.fileName)) (.ok out) (.staged info new)
  | checkout (info : VersionInfo) (new out : String) :
      ShipMove (.staged info new) (.git (.checkout info.kind.fileName)) (.ok out) (.undone info)
  | commit (info : VersionInfo) (new message out : String) :
      ShipMove (.staged info new) (.git (.commit message)) (.ok out) (.committed info new)
  | push (info : VersionInfo) (new remote out : String) :
      ShipMove (.committed info new) (.git (.push remote)) (.ok out) (.pushed info new remote)
  | again (info : VersionInfo) (remote out : String) :
      ShipMove (.clean info) (.git (.push remote)) (.ok out) (.again info remote)
  | report {φ : Phase} (level : Bump) (opts : ShipOptions)
      (result : Except ShipFailure ShipReport) (x : Unit) :
      Ends crates level opts result φ → ShipMove φ (.report level opts result) x .idle
  | pull (remote : String) (x : Unit) : ShipMove .idle (.pull remote) x .idle
  | work (message : String) (x : Unit) : ShipMove .idle (.work message) x .idle
  | restore (x : Unit) : ShipMove .idle .restore x .idle

/-- The course of ships, whatever they are answered. -/
def shipProtocol : Protocol ShipSig Phase where
  Possible _ _ := True
  Move := ShipMove crates

variable {crates : Crates} {α β : Type} {φ : Phase} {info : VersionInfo}

/-- An invocation and what follows it. -/
theorem follows_git {call : GitCall} {f : String → Prog ShipSig (Except ShipFailure β)}
    {Q : Except ShipFailure β → Phase → Prop}
    (herror : ∀ detail, ∃ φ', ShipMove crates φ (.git call) (.error detail) φ' ∧
      Q (.error (.git call.op detail)) φ')
    (hok : ∀ out, ∃ φ', ShipMove crates φ (.git call) (.ok out) φ' ∧
      (shipProtocol crates).Follows (f out) Q φ') :
    (shipProtocol crates).Follows ((git call).attempt id f) Q φ := by
  intro x _
  cases x with
  | error detail => exact herror detail
  | ok out => exact hok out

/-- An invocation whose errors end the ship. -/
theorem follows_step {call : GitCall} {f : String → Prog ShipSig (Except ShipFailure β)}
    {Q : Except ShipFailure β → Phase → Prop}
    (herror : ∀ detail, Q (.error (.git call.op detail)) .idle)
    (hok : ∀ out, ∃ φ', ShipMove crates φ (.git call) (.ok out) φ' ∧
      (shipProtocol crates).Follows (f out) Q φ') :
    (shipProtocol crates).Follows ((git call).attempt id f) Q φ :=
  follows_git (fun detail => ⟨.idle, .failed detail, herror detail⟩) hok

/-- A race is one to another version than the one that was observed. -/
def Races (observed : String) : Except ShipFailure (Option (String × String)) → Prop
  | .error failure => ∃ op detail, failure = .git op detail
  | .ok none => True
  | .ok (some (onOrigin, _)) => onOrigin ≠ observed

theorem races_racing (kind : ProjectKind) (observed branch content : String) :
    Races observed (.ok (racing crates kind observed branch content)) := by
  unfold racing
  split
  · trivial
  · split
    · trivial
    · next hother => exact hother

theorem raceOn_follows (kind : ProjectKind) (observed remote branch : String) :
    (shipProtocol crates).Follows (raceOn crates kind observed remote branch)
      (fun result φ' => φ' = φ ∧ Races observed result) φ := by
  intro fetched _
  refine ⟨φ, .look _ trivial, ?_⟩
  cases fetched with
  | error detail => exact ⟨rfl, trivial⟩
  | ok _ =>
      intro shown _
      refine ⟨φ, .look _ trivial, ?_⟩
      cases shown with
      | error detail => exact ⟨rfl, trivial⟩
      | ok content => exact ⟨rfl, races_racing kind observed branch content⟩

/-- Looking for a race changes nothing. -/
theorem detectVersionRace_follows (kind : ProjectKind) (observed remote : String) :
    (shipProtocol crates).Follows (detectVersionRace crates kind observed remote)
      (fun result φ' => φ' = φ ∧ Races observed result) φ := by
  refine follows_git (fun detail => ⟨φ, .look _ trivial, rfl, _, _, rfl⟩)
    fun out => ⟨φ, .look _ trivial, ?_⟩
  cases (trim out).isEmpty || trim out == "HEAD" with
  | true => exact ⟨rfl, trivial⟩
  | false => exact raceOn_follows kind observed remote (trim out)

/-- How a ship that did not commit is told: as an error of `git`, or of the version. -/
def Plain : ShipFailure → Prop
  | .version _ => True
  | .git _ _ => True
  | _ => False

/-- Before the commit a ship goes on, loses a race and undoes the bump, or fails. -/
theorem refuseRace_follows (opts : ShipOptions) (new : String) :
    (shipProtocol crates).Follows (refuseRace crates info opts)
      (fun result φ' => match result with
        | .ok _ => φ' = .staged info new
        | .error (.versionRace observed onOrigin _) =>
            φ' = .undone info ∧ observed = info.version ∧ onOrigin ≠ observed
        | .error failure => Plain failure) (.staged info new) := by
  unfold refuseRace
  split
  · refine Protocol.follows_attempt (Protocol.follows_post ?_
      (detectVersionRace_follows info.kind info.version opts.remote))
    rintro (failure | race) φ' ⟨rfl, hraces⟩
    · obtain ⟨op, detail, rfl⟩ := hraces
      trivial
    · cases race with
      | none => exact rfl
      | some found =>
          obtain ⟨onOrigin, branch⟩ := found
          exact follows_step (fun detail => trivial) fun out =>
            ⟨_, .checkout info new out, rfl, rfl, hraces⟩
  · exact rfl

/-- A bump is committed, or nothing is, or the ship fails. -/
theorem commitBump_follows (level : Bump) (opts : ShipOptions) (message target : String)
    (htarget : targetVersion crates opts level info = .ok target) :
    (shipProtocol crates).Follows (commitBump crates level opts info message)
      (fun result φ' => match result with
        | .ok committed => committed = (!opts.noBump) ∧
            φ' = if opts.noBump then .clean info else .committed info target
        | .error (.versionRace observed onOrigin _) =>
            φ' = .undone info ∧ observed = info.version ∧ onOrigin ≠ observed
        | .error failure => Plain failure) (.clean info) := by
  unfold commitBump
  split
  · next hbump =>
    rw [hbump]
    exact ⟨rfl, rfl⟩
  · next hbump =>
    have hbump' : opts.noBump = false := by simpa using hbump
    have hnext : nextVersion crates info.version level = .ok target := by
      simpa [targetVersion, hbump] using htarget
    intro x _
    cases x with
    | error error => exact ⟨_, .unbumped info level error, trivial⟩
    | ok versions =>
        refine ⟨_, .bump info level target versions hnext, ?_⟩
        refine follows_step (fun detail => trivial) fun out => ⟨_, .add info target out, ?_⟩
        refine Protocol.follows_attempt (Protocol.follows_post ?_ (refuseRace_follows opts target))
        rintro (failure | _) φ' hφ
        · cases failure <;> exact hφ
        · replace hφ : φ' = .staged info target := hφ
          subst hφ
          exact follows_step (fun detail => trivial) fun out =>
            ⟨_, .commit info target message out, by rw [hbump']; rfl, rfl⟩

/-- What is committed is pushed if that is asked for, and so is a version that is shipped
again. -/
theorem pushRelease_follows (level : Bump) (opts : ShipOptions) (target : String)
    (htarget : targetVersion crates opts level info = .ok target) (hdry : opts.dryRun = false) :
    (shipProtocol crates).Follows (pushRelease opts info target (!opts.noBump))
      (Ends crates level opts) (if opts.noBump then .clean info else .committed info target) := by
  unfold pushRelease
  cases hbump : opts.noBump with
  | true =>
      split
      · next hpush => exact follows_step (fun detail => trivial) fun out =>
          ⟨_, .again info opts.remote out, info, htarget, by simp [reportOf, hdry, hbump, hpush],
            by simp [ShipOptions.last, hdry, hbump, hpush]⟩
      · next hpush => exact ⟨info, htarget, by simp [reportOf, hdry, hbump, hpush],
          by simp [ShipOptions.last, hdry, hbump, hpush]⟩
  | false =>
      split
      · next hpush => exact follows_step (fun detail => trivial) fun out =>
          ⟨_, .push info target opts.remote out, info, htarget,
            by simp [reportOf, hdry, hbump, hpush],
            by simp [ShipOptions.last, reportOf, hdry, hbump, hpush]⟩
      · next hpush => exact ⟨info, htarget, by simp [reportOf, hdry, hbump, hpush],
          by simp [ShipOptions.last, reportOf, hdry, hbump, hpush]⟩

theorem shipTarget_follows (dir : String) (level : Bump) (opts : ShipOptions) (target : String)
    (htarget : targetVersion crates opts level info = .ok target) :
    (shipProtocol crates).Follows (shipTarget crates dir level opts info target)
      (Ends crates level opts) (.found info) := by
  unfold shipTarget
  split
  · next hdry => exact ⟨info, htarget, by simp [reportOf, hdry],
      by simp [ShipOptions.last, hdry]⟩
  · next hdry =>
    refine follows_step (fun detail => trivial) fun out => ⟨_, .status info out, ?_⟩
    cases hclean : (trim out).isEmpty with
    | false => exact ⟨info, rfl⟩
    | true =>
        refine Protocol.follows_attempt (Protocol.follows_post ?_
          (commitBump_follows level opts _ target htarget))
        rintro (failure | committed) φ' hφ
        · cases failure with
          | versionRace _ _ _ => exact ⟨info, hφ⟩
          | dirtyWorkingTree _ => exact hφ.elim
          | _ => trivial
        · obtain ⟨rfl, rfl⟩ := hφ
          exact pushRelease_follows level opts target htarget (by simpa using hdry)

theorem ship_follows (dir : String) (level : Bump) (opts : ShipOptions) :
    (shipProtocol crates).Follows (ship crates dir level opts) (Ends crates level opts)
      .idle := by
  refine Protocol.follows_attempt ?_
  intro x _
  cases x with
  | error error => exact ⟨_, .lost error, trivial⟩
  | ok info =>
      refine ⟨_, .located info, ?_⟩
      dsimp only [Protocol.Follows]
      cases htarget : targetVersion crates opts level info with
      | error error => trivial
      | ok target => exact shipTarget_follows dir level opts target htarget

/-- What is done in a clone follows the course. -/
theorem operate_follows (dir : String) (ops : List Op) :
    (shipProtocol crates).Follows (operate crates dir ops) (fun _ φ => φ = .idle) .idle := by
  induction ops with
  | nil => exact rfl
  | cons op ops ih =>
      cases op with
      | ship level opts =>
          refine Protocol.follows_bind (Protocol.follows_post ?_ (ship_follows dir level opts))
          intro result φ hends x _
          exact ⟨_, .report level opts result x hends, ih⟩
      | pull remote => exact fun x _ => ⟨_, .pull remote x, ih⟩
      | work message => exact fun x _ => ⟨_, .work message x, ih⟩
      | restore => exact fun x _ => ⟨_, .restore x, ih⟩

end Course

/-! ## The invariant -/

section Invariant

variable (crates : Crates) (base : Option String → List Commit)

/-- The ship found a version in its clone, which is as it was. -/
def Found (s : Shipper) (info : VersionInfo) : Prop :=
  s.found.files.version crates = some info.version ∧ s.clone.Same s.found ∧
    locate crates (s.clone.files.dir s.clone.path) = .ok info

/-- The ship found a version in a clean clone. -/
def Began (s : Shipper) (info : VersionInfo) : Prop :=
  s.found.files.version crates = some info.version ∧ s.found.Clean

/-- The version file has the next version, and nothing is committed. -/
def Edited (s : Shipper) (info : VersionInfo) (new : String) : Prop :=
  s.clone.history = s.found.history ∧
    (∃ content, s.clone.files = s.found.files.put info.kind (some content)) ∧
    s.clone.files.version crates = some new ∧
    ∃ level, nextVersion crates info.version level = .ok new

/-- The bump is committed on what was found. -/
def Released (s : Shipper) (new : String) : Prop :=
  s.clone.Clean ∧ ∃ commit, s.clone.history = commit :: s.found.history ∧
    commit.Bumps crates (tip s.found.history) ∧ commit.files.version crates = some new

/-- What is committed in a clone is on its branch of a remote. -/
def OnBranch (s : Shipper) (w : Origin) (remote : String) : Prop :=
  ∃ branch, s.clone.branch = some branch ∧ s.clone.history <:+ w.branches remote branch

/-- What a phase says of a clone and of the remotes. -/
def Phase.Fits (s : Shipper) (w : Origin) : Phase → Prop
  | .idle => True
  | .found info => Found crates s info
  | .clean info => Found crates s info ∧ s.found.Clean
  | .bumped info new => Began crates s info ∧ Edited crates s info new ∧
      s.clone.index = s.found.index
  | .staged info new => Began crates s info ∧ Edited crates s info new ∧
      s.clone.index = s.clone.files
  | .undone info => Began crates s info ∧ s.clone.Same s.found
  | .committed info new => Began crates s info ∧ Released crates s new
  | .pushed info new remote => Began crates s info ∧ Released crates s new ∧ OnBranch s w remote
  | .again info remote => (Found crates s info ∧ s.found.Clean) ∧ OnBranch s w remote

/-- What holds of a clone at any time: its history rises, and so did the one a ship found. -/
structure Shipper.Keeps (s : Shipper) : Prop where
  rising : Rising crates (base s.clone.branch) s.clone.history
  found : Rising crates (base s.clone.branch) s.found.history
  told : ∀ t ∈ s.told, t.Truthful crates

/-- What holds of the remotes at any time: a branch that there is rises. -/
structure Origin.Keeps (w : Origin) : Prop where
  branches : ∀ remote branch, w.branches remote branch = [] ∨
    Rising crates (base (some branch)) (w.branches remote branch)
  shipped : ∀ e ∈ w.shipped, e.Lasts crates base w

structure ShipInv {ι : Type} (phases : ι → Phase) (tags : ι → Shipper) (w : Origin) : Prop where
  fits : ∀ i, (phases i).Fits crates (tags i) w
  clones : ∀ i, (tags i).Keeps crates base
  origin : w.Keeps crates base

/-- A shipper and the remotes are as a phase says and keep what holds at any time. -/
structure Stands (φ : Phase) (s : Shipper) (w : Origin) : Prop where
  fits : φ.Fits crates s w
  clone : s.Keeps crates base
  origin : w.Keeps crates base

/-- What is on a branch stays there. -/
def Origin.Grows (w w' : Origin) : Prop :=
  ∀ remote branch history, history <:+ w.branches remote branch →
    history <:+ w'.branches remote branch

variable {crates base}
variable {s : Shipper} {w w' : Origin} {φ : Phase} {info : VersionInfo} {fault : Fault}
  {clone : Clone} {call : GitCall} {remote branch : String}

theorem OnBranch.mono (h : OnBranch s w remote) (hgrows : w.Grows w') : OnBranch s w' remote := by
  obtain ⟨branch, hbranch, hpushed⟩ := h
  exact ⟨branch, hbranch, hgrows _ _ _ hpushed⟩

theorem Phase.Fits.mono (h : φ.Fits crates s w) (hgrows : w.Grows w') : φ.Fits crates s w' := by
  cases φ with
  | pushed info new remote => exact ⟨h.1, h.2.1, h.2.2.mono hgrows⟩
  | again info remote => exact ⟨h.1, h.2.mono hgrows⟩
  | _ => exact h

/-- What was fetched does not matter to a phase. -/
theorem Phase.Fits.tracking (h : φ.Fits crates s w) (tracking : String → String → List Commit) :
    φ.Fits crates { s with clone := { s.clone with tracking := tracking } } w := by
  cases φ <;> exact h

theorem Shipped.Lasts.mono {e : Shipped} (h : e.Lasts crates base w) (hgrows : w.Grows w') :
    e.Lasts crates base w' := by
  obtain ⟨branch, hbranch, hpushed⟩ := h.pushed
  exact ⟨⟨branch, hbranch, hgrows _ _ _ hpushed⟩, h.version, h.releases⟩

/-- One shipper moves. -/
theorem ShipInv.move {ι : Type} [DecidableEq ι] {phases : ι → Phase} {tags : ι → Shipper}
    (h : ShipInv crates base phases tags w) (hgrows : w.Grows w') {i : ι}
    (hfits : φ.Fits crates s w') (hs : s.Keeps crates base) (hw : w'.Keeps crates base) :
    ShipInv crates base (Function.update phases i φ) (Function.update tags i s) w' := by
  refine ⟨fun j => ?_, fun j => ?_, hw⟩
  · by_cases hj : j = i
    · subst hj
      simpa using hfits
    · simpa [hj] using (h.fits j).mono hgrows
  · by_cases hj : j = i
    · subst hj
      simpa using hs
    · simpa [hj] using h.clones j

/-! ### Pushes -/

theorem Origin.take_branches (w : Origin) (remote branch : String) (history : List Commit) :
    (w.take remote branch history).branches remote branch = history := by
  simp [Origin.take]

/-- A fast-forward takes nothing away. -/
theorem Origin.grows_take {history : List Commit} (h : w.branches remote branch <:+ history) :
    w.Grows (w.take remote branch history) := by
  intro remote' branch' held hheld
  by_cases hremote : remote' = remote
  · subst hremote
    by_cases hbranch : branch' = branch
    · subst hbranch
      rw [Origin.take_branches]
      exact hheld.trans h
    · simpa [Origin.take, hbranch] using hheld
  · simpa [Origin.take, hremote] using hheld

theorem Origin.Keeps.take (hw : w.Keeps crates base) {history : List Commit}
    (h : w.branches remote branch <:+ history)
    (hrising : Rising crates (base (some branch)) history) :
    (w.take remote branch history).Keeps crates base := by
  refine ⟨fun remote' branch' => ?_, fun e he => (hw.shipped e he).mono (Origin.grows_take h)⟩
  by_cases hremote : remote' = remote
  · subst hremote
    by_cases hbranch : branch' = branch
    · subst hbranch
      rw [Origin.take_branches]
      exact .inr hrising
    · simpa [Origin.take, hbranch] using hw.branches remote' branch'
  · simpa [Origin.take, hremote] using hw.branches remote' branch'

/-- What a push does: it is refused, or the remote takes the history of the clone. -/
theorem pushHead_cases (fault : Fault) (clone : Clone) (remote : String) (w : Origin) :
    (∃ detail, (pushHead fault clone remote w).1 = .error detail) ∧
        (pushHead fault clone remote w).2 = w ∨
      ∃ branch, clone.branch = some branch ∧ w.branches remote branch <:+ clone.history ∧
        (pushHead fault clone remote w).2 = w.take remote branch clone.history := by
  unfold pushHead
  cases hbranch : clone.branch with
  | none => exact .inl ⟨⟨_, rfl⟩, rfl⟩
  | some branch =>
      by_cases hforward : w.branches remote branch <:+ clone.history
      · simp only [hforward, if_true]
        cases fault.error with
        | none => exact .inr ⟨branch, rfl, hforward, rfl⟩
        | some detail =>
            cases fault.moved with
            | true => exact .inr ⟨branch, rfl, hforward, rfl⟩
            | false => exact .inl ⟨⟨_, rfl⟩, rfl⟩
      -- the remote has commits that the clone has not
      · refine .inl ?_
        dsimp only
        rw [if_neg hforward]
        exact ⟨⟨_, rfl⟩, rfl⟩

/-- A push keeps what holds of the remotes. -/
theorem pushHead_keeps (fault : Fault) (remote : String) (hw : w.Keeps crates base)
    (hclone : Rising crates (base clone.branch) clone.history) :
    w.Grows (pushHead fault clone remote w).2 ∧
      (pushHead fault clone remote w).2.Keeps crates base := by
  obtain ⟨-, heq⟩ | ⟨branch, hbranch, hforward, heq⟩ :=
    pushHead_cases fault clone remote w
  · rw [heq]
    exact ⟨fun _ _ _ h => h, hw⟩
  · rw [heq]
    exact ⟨Origin.grows_take hforward, hw.take hforward (hbranch ▸ hclone)⟩

/-- After a push that worked the history of the clone is on its branch. -/
theorem pushHead_ok {out : String} (h : (pushHead fault clone remote w).1 = .ok out) :
    ∃ branch, clone.branch = some branch ∧
      clone.history <:+ (pushHead fault clone remote w).2.branches remote branch := by
  obtain ⟨⟨detail, herror⟩, -⟩ | ⟨branch, hbranch, -, heq⟩ :=
    pushHead_cases fault clone remote w
  · rw [herror] at h
    cases h
  · rw [heq]
    refine ⟨branch, hbranch, ?_⟩
    rw [Origin.take_branches]

/-! ### The other invocations -/

/-- An invocation that looks changes at most what was fetched. -/
theorem runGit_looks (fault : Fault) (clone : Clone) (w : Origin) (h : call.Looks) :
    ∃ tracking, (runGit fault clone w call).2 = ({ clone with tracking := tracking }, w) := by
  unfold runGit
  cases call with
  | status => cases fault.error <;> exact ⟨clone.tracking, rfl⟩
  | revParse => cases fault.error <;> exact ⟨clone.tracking, rfl⟩
  | fetch remote branch =>
      cases fault.error with
      | some detail => exact ⟨clone.tracking, rfl⟩
      | none =>
          dsimp only
          split <;> exact ⟨_, rfl⟩
  | «show» remote branch file =>
      cases fault.error with
      | some detail => exact ⟨clone.tracking, rfl⟩
      | none =>
          dsimp only
          split <;> exact ⟨clone.tracking, rfl⟩
  | _ => exact h.elim

/-- An invocation that fails changes at most a remote, and so only a push does. -/
theorem runGit_error {detail : String} (h : (runGit fault clone w call).1 = .error detail) :
    (∃ tracking, (runGit fault clone w call).2 = ({ clone with tracking := tracking }, w)) ∨
      ∃ remote, (runGit fault clone w call).2 = (clone, (pushHead fault clone remote w).2) := by
  cases call with
  | push remote => exact .inr ⟨remote, rfl⟩
  | status => exact .inl (runGit_looks fault clone w trivial)
  | revParse => exact .inl (runGit_looks fault clone w trivial)
  | fetch remote branch => exact .inl (runGit_looks fault clone w trivial)
  | «show» remote branch file => exact .inl (runGit_looks fault clone w trivial)
  | add file =>
      cases herror : fault.error with
      | some detail => exact .inl ⟨clone.tracking, by simp [runGit, herror]⟩
      | none => simp [runGit, herror] at h
  | checkout file =>
      cases herror : fault.error with
      | some detail => exact .inl ⟨clone.tracking, by simp [runGit, herror]⟩
      | none => simp [runGit, herror] at h
  | commit message =>
      cases herror : fault.error with
      | some detail => exact .inl ⟨clone.tracking, by simp [runGit, herror]⟩
      | none =>
          by_cases hnothing : clone.index = tip clone.history
          · refine .inl ⟨clone.tracking, ?_⟩
            unfold runGit
            simp only [herror]
            rw [if_pos hnothing]
          · simp [runGit, herror, hnothing] at h

/-- A tree that `git status` has nothing to say of is clean. -/
theorem clean_of_status {out : String} (h : (runGit fault clone w .status).1 = .ok out)
    (hout : (trim out).isEmpty = true) : clone.Clean := by
  cases herror : fault.error with
  | some detail => simp [runGit, herror] at h
  | none =>
      -- the listing is empty only where the clone and everything else in it are unchanged
      simp only [runGit, herror, Except.ok.injEq] at h
      by_cases hclean : clone.Clean ∧ fault.others = false
      · exact hclean.1
      · rw [if_neg hclean] at h
        rw [← h, fault.listing.shows] at hout
        cases hout

/-- What a successful invocation met no error. -/
theorem runGit_ok {out : String} (h : (runGit fault clone w call).1 = .ok out)
    (hpush : ∀ remote, call ≠ .push remote) : fault.error = none := by
  cases herror : fault.error with
  | none => rfl
  | some detail => cases call <;> simp [runGit, herror] at h hpush

/-! ### One command -/

theorem Clone.Clean.same {clone other : Clone} (h : clone.Clean) (hsame : clone.Same other) :
    other.Clean :=
  ⟨hsame.2.2 ▸ hsame.2.1 ▸ h.1, hsame.2.1 ▸ hsame.1 ▸ h.2⟩

/-- The version file is staged. -/
theorem add_staged {new : String} (hbegan : Began crates s info)
    (hedited : Edited crates s info new) (hindex : s.clone.index = s.found.index) :
    s.clone.index.take info.kind.fileName s.clone.files = s.clone.files := by
  obtain ⟨-, ⟨content, hfiles⟩, -⟩ := hedited
  rw [Files.take_fileName, hindex, ← hbegan.2.1, hfiles, Files.get_put]

/-- Checking the version file out undoes the bump. -/
theorem checkout_undone {new : String} (hbegan : Began crates s info)
    (hedited : Edited crates s info new) :
    s.clone.files.take info.kind.fileName (tip s.clone.history) = s.found.files := by
  obtain ⟨hhistory, ⟨content, hfiles⟩, -⟩ := hedited
  rw [Files.take_fileName, hfiles, Files.put_put, hhistory, ← hbegan.2.2, ← hbegan.2.1,
    Files.put_get]

/-- What the last phase of a ship that succeeded says, by what it was asked for. -/
theorem last_fits {opts : ShipOptions} {new : String}
    (h : (opts.last info new).Fits crates s w) :
    (if !opts.dryRun && !opts.noBump then Began crates s info ∧ Released crates s new
      else Found crates s info) ∧
    ((!opts.dryRun && opts.push) = true → s.found.Clean ∧ OnBranch s w opts.remote) := by
  obtain ⟨dryRun, noDeploy, push, noBump, remote, messageTemplate⟩ := opts
  cases dryRun with
  | true => exact ⟨h, by simp⟩
  | false =>
      cases push with
      | true =>
          cases noBump with
          | true =>
              obtain ⟨⟨hfound, hclean⟩, honBranch⟩ := h
              exact ⟨hfound, fun _ => ⟨hclean, honBranch⟩⟩
          | false =>
              obtain ⟨hbegan, hreleased, honBranch⟩ := h
              exact ⟨⟨hbegan, hreleased⟩, fun _ => ⟨hbegan.2, honBranch⟩⟩
      | false =>
          cases noBump with
          | true => exact ⟨And.left h, by simp⟩
          | false => exact ⟨h, by simp⟩

/-- A clean clone that is as it was found has the version that was found. -/
theorem found_version (h : Found crates s info) (hclean : s.found.Clean) :
    (tip s.clone.history).version crates = some info.version := by
  have hfiles : tip s.clone.history = s.found.files := by
    rw [h.2.1.1, ← hclean.2, hclean.1]
  rw [hfiles]
  exact h.1

/-- A push that lasts can be noted. -/
theorem Origin.Keeps.note (hw : w.Keeps crates base) {opts : ShipOptions} {report : ShipReport}
    (hlasts : report.pushed = true → Shipped.Lasts crates base
      ⟨opts.remote, s.clone.branch, s.clone.history, report.newVersion, report.committed⟩ w) :
    (w.note s.clone opts (.ok report)).Keeps crates base := by
  unfold Origin.note
  dsimp only
  split
  · next hpushed =>
    refine ⟨hw.branches, fun e he => ?_⟩
    obtain rfl | he := List.mem_cons.mp he
    · exact (hlasts hpushed).mono fun _ _ _ hheld => hheld
    · exact (hw.shipped e he).mono fun _ _ _ hheld => hheld
  · exact hw

/-- What a ship that succeeded says of the version and of what it did. -/
theorem reports_asked {level : Bump} {opts : ShipOptions} {report : ShipReport}
    (htarget : targetVersion crates opts level info = .ok report.newVersion)
    (hreport : report = reportOf opts info report.newVersion (!opts.dryRun && !opts.noBump)
      (!opts.dryRun && opts.push) opts.dryRun) :
    report.oldVersion = info.version ∧
      (if opts.noBump then report.newVersion = report.oldVersion
        else nextVersion crates report.oldVersion level = .ok report.newVersion) ∧
      report.committed = (!opts.dryRun && !opts.noBump) ∧
      report.pushed = (!opts.dryRun && opts.push) := by
  have hold : report.oldVersion = info.version := by
    rw [hreport]
    rfl
  refine ⟨hold, ?_, by rw [hreport]; rfl, by rw [hreport]; rfl⟩
  unfold targetVersion at htarget
  rw [hold]
  split
  · next hbump =>
    rw [if_pos hbump] at htarget
    exact (Except.ok.inj htarget).symm
  · next hbump =>
    rw [if_neg hbump] at htarget
    exact htarget

/-- A report is noted as it came about. -/
theorem report_keeps {level : Bump} {opts : ShipOptions}
    {result : Except ShipFailure ShipReport} (hfits : φ.Fits crates s w)
    (hs : s.Keeps crates base) (hw : w.Keeps crates base)
    (hends : Ends crates level opts result φ) :
    Told.Truthful crates ⟨level, opts, s.found, s.clone, result⟩ ∧
      (w.note s.clone opts result).Keeps crates base := by
  cases result with
  | error failure =>
      refine ⟨?_, hw⟩
      cases failure with
      | dirtyWorkingTree dir =>
          obtain ⟨info, rfl⟩ := hends
          exact hfits.2.1
      | versionRace observed onOrigin branch =>
          obtain ⟨info, rfl, rfl, hother⟩ := hends
          exact ⟨hfits.2, hfits.1.1, hother⟩
      | _ => trivial
  | ok report =>
      obtain ⟨info, htarget, hreport, rfl⟩ := hends
      obtain ⟨hold, hversion, hcommitted, hpushed⟩ := reports_asked htarget hreport
      obtain ⟨hstands, honBranch⟩ := last_fits hfits
      rw [← hcommitted] at hstands
      rw [← hpushed] at honBranch
      cases hcommits : report.committed with
      | false =>
          rw [hcommits] at hstands hcommitted
          replace hstands : Found crates s info := hstands
          refine ⟨⟨hold ▸ hstands.1, hversion, by rw [hcommits, hcommitted], hpushed, ?_⟩,
            hw.note fun h => ?_⟩
          · rw [hcommits]
            exact hstands.2.1
          · obtain ⟨hclean, honBranch⟩ := honBranch h
            -- What is pushed without a commit is the version that was found.
            have hbump : opts.noBump = true := by
              rw [hpushed, Bool.and_eq_true] at h
              simpa [h.1] using hcommitted
            rw [if_pos hbump, hold] at hversion
            refine ⟨honBranch, ?_, by simp [hcommits]⟩
            rw [hversion]
            exact found_version hstands hclean
      | true =>
          rw [hcommits] at hstands hcommitted
          obtain ⟨hbegan, hclean, commit, hhistory, hbumps, hnew⟩ := hstands
          refine ⟨⟨hold ▸ hbegan.1, hversion, by rw [hcommits, hcommitted], hpushed, ?_⟩,
            hw.note fun h => ⟨(honBranch h).2, ?_, fun _ =>
              ⟨commit, s.found.history, hhistory, hs.found.1, hbumps⟩⟩⟩
          · rw [hcommits]
            exact ⟨hbegan.2, hclean, commit, hhistory, hbumps, hnew⟩
          · show (tip s.clone.history).version crates = some report.newVersion
            rw [hhistory]
            exact hnew

/-- What is done between ships keeps a history rising. -/
theorem Shipper.Keeps.pull (hs : s.Keeps crates base) (hw : w.Keeps crates base) :
    Shipper.Keeps crates base { s with clone := s.clone.pull remote w } := by
  unfold Clone.pull
  cases hbranch : s.clone.branch with
  | none => exact hs
  | some branch =>
      dsimp only
      split
      · next hforward =>
        refine ⟨?_, by simpa [hbranch] using hs.found, hs.told⟩
        obtain hnone | hrising := hw.branches remote branch
        · -- A branch that there is not takes nothing but an empty history.
          have hempty : s.clone.history = [] := List.suffix_nil.mp (hnone ▸ hforward.2)
          simpa [hnone, hempty, hbranch] using hs.rising
        · simpa [hbranch] using hrising
      · exact hs

theorem Shipper.Keeps.work (hs : s.Keeps crates base) (message : String) :
    Shipper.Keeps crates base { s with clone := s.clone.work fault message } := by
  unfold Clone.work
  split
  · exact ⟨hs.rising.cons (.inl rfl), hs.found, hs.told⟩
  · exact hs

/-- A clone that keeps its history and its branch keeps what holds at any time. -/
theorem Shipper.Keeps.with_clone (hs : s.Keeps crates base) {clone : Clone}
    (hbranch : clone.branch = s.clone.branch) (hhistory : clone.history = s.clone.history) :
    Shipper.Keeps crates base { s with clone := clone } :=
  ⟨by simpa only [hbranch, hhistory] using hs.rising, by simpa only [hbranch] using hs.found,
    hs.told⟩

/-- Reading the version begins a ship. -/
theorem readIn_stands (h : Stands crates base .idle s w)
    {x : Except ShipError VersionInfo} (hx : x = readIn fault crates s.clone) {φ' : Phase}
    (hmove : ShipMove crates .idle .locate x φ') :
    Stands crates base φ' { s with found := s.clone } w := by
  have hs : Shipper.Keeps crates base { s with found := s.clone } :=
    ⟨h.clone.rising, h.clone.rising, h.clone.told⟩
  cases hmove with
  | located info =>
      refine ⟨?_, hs, h.origin⟩
      unfold readIn at hx
      cases herror : fault.error with
      | some source =>
          rw [herror] at hx
          cases hx
      | none =>
          rw [herror] at hx
          exact ⟨Files.version_of_locate hx.symm, ⟨rfl, rfl, rfl⟩, hx.symm⟩
  | lost error => exact ⟨trivial, hs, h.origin⟩

/-- A bump that is written changes the version file of a clean clone. -/
theorem bumpIn_stands (hlawful : crates.Lawful) {level : Bump}
    (h : Stands crates base φ s w) {x : Except ShipError (String × String)}
    (hx : x = (bumpIn fault crates level s.clone).1) {φ' : Phase}
    (hmove : ShipMove crates φ (.bump level) x φ') :
    Stands crates base φ'
      { s with clone := (bumpIn fault crates level s.clone).2 } w := by
  have hcases : (∃ error files, bumpIn fault crates level s.clone =
        (.error error, { s.clone with files := files })) ∨
      ∃ versions after, bump crates (s.clone.files.dir s.clone.path) level = .ok (versions, after) ∧
        bumpIn fault crates level s.clone =
          (.ok versions, { s.clone with files := .ofDir after }) := by
    unfold bumpIn
    cases fault.error with
    | some source => exact .inl ⟨_, _, rfl⟩
    | none =>
        cases bump crates (s.clone.files.dir s.clone.path) level with
        | error error => exact .inl ⟨error, s.clone.files, rfl⟩
        | ok bumped => exact .inr ⟨bumped.1, bumped.2, rfl, rfl⟩
  obtain ⟨error, files, heq⟩ | ⟨versions, after, hbump, heq⟩ := hcases
  -- a bump that failed may have written anything
  · rw [heq] at hx ⊢
    subst hx
    cases hmove
    exact ⟨trivial, h.clone.with_clone rfl rfl, h.origin⟩
  · rw [heq] at hx ⊢
    subst hx
    obtain ⟨hfits, hs, hw⟩ := h
    cases hmove with
    | bump info level new versions hnext =>
        obtain ⟨⟨hversion, hsame, hlocate⟩, hclean⟩ := hfits
        obtain ⟨content, new', hnext', hfiles, hnew⟩ := bump_dir_cases hlawful hlocate hbump
        obtain rfl : new = new' := Except.ok.inj (hnext.symm.trans hnext')
        refine ⟨⟨⟨hversion, hclean⟩, ⟨hsame.1, ⟨content, ?_⟩, ?_, level, hnext⟩, hsame.2.1⟩,
          hs.with_clone rfl rfl, hw⟩
        · rw [← hsame.2.2]
          exact hfiles
        · show (Files.ofDir after).version crates = some new
          rw [hfiles]
          exact hnew

/-- The bump is committed. -/
theorem commit_stands {new message out : String}
    (h : Stands crates base (.staged info new) s w)
    (hout : (runGit fault s.clone w (.commit message)).1 = .ok out) :
    Stands crates base (.committed info new)
      { s with clone := (runGit fault s.clone w (.commit message)).2.1 } w := by
  obtain ⟨⟨hbegan, ⟨hhistory, -, hnew, level, hnext⟩, hindex⟩, hs, hw⟩ := h
  have herror := runGit_ok hout (by simp)
  simp only [runGit, herror] at hout ⊢
  by_cases hnothing : s.clone.index = tip s.clone.history
  · rw [if_pos hnothing] at hout
    cases hout
  · rw [if_neg hnothing]
    have hversion : s.clone.index.version crates = some new := hindex ▸ hnew
    have hbumps : Commit.Bumps crates ⟨s.clone.index, message, s.clone.author, fault.time⟩
        (tip s.found.history) := by
      refine ⟨level, info.version, new, ?_, hnext, hversion⟩
      rw [← hbegan.2.2, ← hbegan.2.1]
      exact hbegan.1
    exact ⟨⟨hbegan, ⟨hindex.symm, rfl⟩, _, by rw [hhistory], hbumps, hversion⟩,
      ⟨hs.rising.cons (.inr (hhistory ▸ hbumps)), hs.found, hs.told⟩, hw⟩

/-- One invocation of a ship. -/
theorem runGit_stands (h : Stands crates base φ s w)
    {x : Except String String} (hx : x = (runGit fault s.clone w call).1) {φ' : Phase}
    (hmove : ShipMove crates φ (.git call) x φ') :
    w.Grows (runGit fault s.clone w call).2.2 ∧ Stands crates base φ'
      { s with clone := (runGit fault s.clone w call).2.1 } (runGit fault s.clone w call).2.2 := by
  have hstays : w.Grows w := fun _ _ _ hheld => hheld
  obtain ⟨hfits, hs, hw⟩ := h
  cases hmove with
  | status info out =>
      have hclean := clean_of_status hx.symm
      obtain ⟨tracking, hlooks⟩ : ∃ tracking, (runGit fault s.clone w .status).2 = _ :=
        runGit_looks fault s.clone w trivial
      rw [hlooks]
      refine ⟨hstays, Phase.Fits.tracking ?_ tracking, hs.with_clone rfl rfl, hw⟩
      split
      · next hempty => exact ⟨hfits, (hclean hempty).same hfits.2.1⟩
      · exact hfits
  | look x hlooks =>
      obtain ⟨tracking, hlooks⟩ := runGit_looks fault s.clone w hlooks
      rw [hlooks]
      exact ⟨hstays, hfits.tracking tracking, hs.with_clone rfl rfl, hw⟩
  | failed detail =>
      obtain ⟨tracking, hlooks⟩ | ⟨remote, hpush⟩ := runGit_error hx.symm
      · rw [hlooks]
        exact ⟨hstays, trivial, hs.with_clone rfl rfl, hw⟩
      · rw [hpush]
        obtain ⟨hgrows, hpushed⟩ := pushHead_keeps fault remote hw hs.rising
        exact ⟨hgrows, trivial, hs, hpushed⟩
  | add info new out =>
      have herror := runGit_ok hx.symm (by simp)
      obtain ⟨hbegan, hedited, hindex⟩ := hfits
      simp only [runGit, herror]
      exact ⟨hstays, ⟨hbegan, hedited, add_staged hbegan hedited hindex⟩, hs.with_clone rfl rfl, hw⟩
  | checkout info new out =>
      have herror := runGit_ok hx.symm (by simp)
      obtain ⟨hbegan, hedited, hindex⟩ := hfits
      have hundone := checkout_undone hbegan hedited
      simp only [runGit, herror]
      refine ⟨hstays, ⟨hbegan, hedited.1, ?_, hundone⟩, hs.with_clone rfl rfl, hw⟩
      show s.clone.index.take info.kind.fileName (tip s.clone.history) = s.found.index
      rw [hindex, hundone]
      exact hbegan.2.1
  | commit info new message out =>
      have hcommitted := commit_stands ⟨hfits, hs, hw⟩ hx.symm
      have herror := runGit_ok hx.symm (by simp)
      have hremotes : (runGit fault s.clone w (.commit message)).2.2 = w := by
        simp only [runGit, herror]
        split <;> rfl
      rw [hremotes]
      exact ⟨hstays, hcommitted⟩
  | push info new remote out =>
      obtain ⟨hgrows, hpushed⟩ := pushHead_keeps fault remote hw hs.rising
      exact ⟨hgrows, ⟨hfits.1, hfits.2, pushHead_ok hx.symm⟩, hs, hpushed⟩
  | again info remote out =>
      obtain ⟨hgrows, hpushed⟩ := pushHead_keeps fault remote hw hs.rising
      exact ⟨hgrows, ⟨hfits, pushHead_ok hx.symm⟩, hs, hpushed⟩

variable {faults : Nat → Fault}

/-- One command of a shipper keeps the invariant. -/
theorem shipMonitor_keeps {ι : Type} [DecidableEq ι] (hlawful : crates.Lawful)
    {phases : ι → Phase} {tags : ι → Shipper} (h : ShipInv crates base phases tags w) {i : ι}
    {c : ShipCall} {k : c.Answer → Prog ShipSig Unit} {x : c.Answer}
    (hx : x = (shipMonitor crates faults (tags i) c k w).1) {φ' : Phase} (hφ : phases i = φ)
    (hmove : ShipMove crates φ c x φ') :
    ShipInv crates base (Function.update phases i φ')
      (Function.update tags i (shipMonitor crates faults (tags i) c k w).2.1)
      (shipMonitor crates faults (tags i) c k w).2.2 := by
  -- The call is counted first.
  have hstays : w.Grows { w with calls := w.calls + 1 } := fun _ _ _ hheld => hheld
  have hw : Origin.Keeps crates base { w with calls := w.calls + 1 } :=
    ⟨h.origin.branches, fun e he => (h.origin.shipped e he).mono hstays⟩
  have hstands : Stands crates base φ (tags i)
      { w with calls := w.calls + 1 } := ⟨hφ ▸ (h.fits i).mono hstays, h.clones i, hw⟩
  cases c with
  | locate =>
      obtain rfl : φ = .idle := by cases hmove <;> rfl
      have hread := readIn_stands hstands hx hmove
      exact h.move hstays hread.fits hread.clone hread.origin
  | bump level =>
      have hbump := bumpIn_stands hlawful hstands hx hmove
      exact h.move hstays hbump.fits hbump.clone hbump.origin
  | git call =>
      obtain ⟨hgrows, hran⟩ := runGit_stands hstands hx hmove
      exact h.move (fun _ _ _ hheld => hgrows _ _ _ (hstays _ _ _ hheld)) hran.fits hran.clone
        hran.origin
  | pull remote =>
      obtain rfl : φ' = .idle := by cases hmove; rfl
      exact h.move hstays trivial (hstands.clone.pull hw) hw
  | work message =>
      obtain rfl : φ' = .idle := by cases hmove; rfl
      exact h.move hstays trivial (hstands.clone.work message) hw
  | restore =>
      obtain rfl : φ' = .idle := by cases hmove; rfl
      exact h.move hstays trivial (hstands.clone.with_clone rfl rfl) hw
  | report level opts result =>
      obtain ⟨rfl, hends⟩ : φ' = .idle ∧ Ends crates level opts result φ := by
        cases hmove with
        | report _ _ _ _ hends => exact ⟨rfl, hends⟩
      obtain ⟨htruthful, hnoted⟩ := report_keeps hstands.fits hstands.clone hw hends
      refine h.move ?_ trivial ⟨hstands.clone.rising, hstands.clone.found, ?_⟩ hnoted
      · intro remote branch history hheld
        show history <:+ (Origin.note { w with calls := w.calls + 1 } (tags i).clone opts
          result).branches remote branch
        cases result with
        | error failure => exact hheld
        | ok report =>
            unfold Origin.note
            dsimp only
            split <;> exact hheld
      · intro t ht
        obtain rfl | ht := List.mem_cons.mp ht
        · exact htruthful
        · exact hstands.clone.told t ht

end Invariant

/-! ## Every run -/

section Runs

variable {ι : Type} {crates : Crates} {base : Option String → List Commit}
  {phases : ι → Phase} {p : Pool ι ShipSig Shipper Origin}

/-- Of two releases of a branch the one above has the higher version. -/
theorem after_of_suffix (hlawful : crates.Lawful) {w : Origin} (hw : w.Keeps crates base)
    {e e' : Shipped} (he : e.Lasts crates base w) (he' : e'.Lasts crates base w)
    (hcommitted : e.committed = true) (hcommitted' : e'.committed = true)
    (hbranch : e.branch = e'.branch)
    (hroomy : ∀ branch, e.branch = some branch → Roomy crates (w.branches e.remote branch))
    (hsuffix : e'.history <:+ e.history) : e.history = e'.history ∨ e.After crates e' := by
  obtain ⟨branch, hb, hon⟩ := he.pushed
  obtain ⟨commit, older, hhistory, hbase, hbumps⟩ := he.releases hcommitted
  obtain ⟨first, below, hhistory', hbase', hbumps'⟩ := he'.releases hcommitted'
  have hversion := he.version
  have hversion' := he'.version
  rw [hhistory] at hversion
  rw [hhistory'] at hversion'
  -- either both releases are the same commit, or the earlier one is below the bump of the later
  obtain heq | hbelow := List.suffix_cons_iff.mp (hhistory ▸ hsuffix)
  · exact .inl (hhistory.trans heq.symm)
  · refine .inr ⟨hsuffix, ?_⟩
    obtain ⟨-, v', -, hv', -⟩ := hbumps'.core hlawful
    -- the later history is part of its branch, which rises
    have hrising : Rising crates (base e.branch) e.history := by
      obtain hnone | hrising := hw.branches e.remote branch
      · rw [hnone, hhistory] at hon
        simpa using hon.length_le
      · rw [hb]
        refine ⟨?_, fun other rest hrest => hrising.2 other rest (hrest.trans hon)⟩
        rw [← hb, hhistory]
        exact hbase.trans (List.suffix_cons _ _)
    have hroom : Roomy crates e.history := fun other hother => hroomy branch hb other
      (hon.subset hother)
    rw [hhistory] at hrising hroom
    rw [hhistory'] at hbelow
    obtain ⟨v, hv, hlt⟩ := hrising.core_lt hlawful hv' (hbranch ▸ hbase') hroom hbumps hbelow
    have hsemver : ∀ {files : Files} {version : String} {u : Version},
        files.version crates = some version → files.core crates = some u →
        crates.semver version = .ok u := by
      intro files version u hfiles hcore
      rw [Files.core, hfiles, Option.bind_some] at hcore
      cases h : crates.semver version with
      | error source =>
          rw [h] at hcore
          cases hcore
      | ok found =>
          rw [h] at hcore
          exact congrArg Except.ok (Option.some.inj hcore)
    exact ⟨v, v', hsemver hversion hv, hsemver hversion' hv', hlt⟩

/-- The invariant makes the clones sound. -/
theorem ShipInv.sound (hlawful : crates.Lawful) (h : ShipInv crates base phases p.tags p.state) :
    Sound crates base p := by
  refine ⟨h.origin.shipped, ?_, fun i => (h.clones i).told⟩
  intro e he e' he' hcommitted hcommitted' hremote hbranch hroomy
  have hlasts := h.origin.shipped e he
  have hlasts' := h.origin.shipped e' he'
  obtain ⟨branch, hb, hon⟩ := hlasts.pushed
  obtain ⟨branch', hb', hon'⟩ := hlasts'.pushed
  obtain rfl : branch = branch' := Option.some.inj (hb.symm.trans (hbranch.trans hb'))
  rw [← hremote] at hon'
  -- both are part of one branch, so that one is built on the other
  obtain hsuffix | hsuffix := List.suffix_or_suffix_of_suffix hon hon'
  · have hroomy' : ∀ branch, e'.branch = some branch →
        Roomy crates (p.state.branches e'.remote branch) := by
      rw [← hbranch, ← hremote]
      exact hroomy
    obtain heq | hafter := after_of_suffix hlawful h.origin hlasts' hlasts hcommitted' hcommitted
      hbranch.symm hroomy' hsuffix
    · exact .inl heq.symm
    · exact .inr (.inr hafter)
  · obtain heq | hafter := after_of_suffix hlawful h.origin hlasts hlasts' hcommitted hcommitted'
      hbranch hroomy hsuffix
    · exact .inl heq
    · exact .inr (.inl hafter)

end Runs

/-! ## Two clones -/

namespace TwoClones

def before : String := "[package]\nname = \"app\"\nversion = \""

def behind : String := "\"\n"

/-- A `Cargo.toml` with a version. -/
def manifest (version : String) : String := before ++ (version ++ behind)

def document (version : String) : Toml.Item :=
  .table [("package", .table [("name", .string "app" ⟨" ", ""⟩),
    ("version", .string version ⟨" ", ""⟩)])]

def component (digits : List Char) : Option Nat :=
  parseUnsigned (2 ^ 64) (String.ofList digits)

/-- Three numbers between points. -/
def versionOf (text : String) : Option Version := do
  let (major, rest) ← splitOnce ['.'] text.toList
  let (minor, patch) ← splitOnce ['.'] rest
  return ⟨← component major, ← component minor, ← component patch⟩

/-- What reads and writes such files and versions. -/
def crates : Crates where
  parse content :=
    match (stripPrefix content before).bind fun rest => stripSuffix rest behind with
    | some version => .ok (document version)
    | none => .error "expected a package"
  print doc := manifest (((doc.navigate ["package", "version"]).bind Toml.Item.asStr).getD "")
  getMut item key := (item.get key, item)
  semver text :=
    match versionOf text with
    | some version => .ok version
    | none => .error "unexpected character"

theorem component_toString {n : Nat} (h : n < 2 ^ 64) :
    component (Nat.toDigits 10 n) = some n := by
  rw [component, ← Nat.toString_eq_ofList_toDigits]
  exact parseUnsigned_toString h

theorem component_lt {digits : List Char} {n : Nat} (h : component digits = some n) :
    n < 2 ^ 64 := by
  unfold component parseUnsigned at h
  generalize (if (String.ofList digits).toList.head? = some '+' then _ else _) = unsigned at h
  cases hshape : unsigned.isEmpty || !unsigned.all Char.isDigit with
  | true => simp [hshape] at h
  | false =>
      simp only [hshape, Bool.false_eq_true, if_false, Option.ite_none_right_eq_some,
        Option.some.injEq] at h
      exact h.2 ▸ h.1

theorem crates_lawful : crates.Lawful := by
  refine ⟨fun _ _ => rfl, ?_, ?_, ?_⟩
  · intro content doc kind new written hparse hset
    obtain ⟨version, rfl⟩ : ∃ version, doc = document version := by
      simp only [crates] at hparse
      split at hparse
      · exact ⟨_, (Except.ok.inj hparse).symm⟩
      · cases hparse
    cases kind with
    | pyProject => cases hset
    | cargo =>
        obtain rfl : document new = written := Option.some.inj hset
        simp only [crates]
        show crates.parse (before ++ (new ++ behind)) = .ok (document new)
        simp only [crates, stripPrefix_append, Option.bind_some, stripSuffix_append]
  · intro v hmajor hminor hpatch
    have hpoint : ∀ n, '.' ∉ Nat.toDigits 10 n := fun n hmem =>
      absurd (Nat.isDigit_of_mem_toDigits (by decide) (by decide) hmem) (by decide)
    have htext : v.text.toList = Nat.toDigits 10 v.major ++ '.' ::
        (Nat.toDigits 10 v.minor ++ '.' :: Nat.toDigits 10 v.patch) := by
      have hdot : ".".toList = ['.'] := by decide
      simp only [Version.text, String.toList_append, Nat.toString_eq_ofList_toDigits,
        String.toList_ofList, hdot, List.append_assoc, List.cons_append, List.nil_append]
    simp only [crates, versionOf, htext, splitOnce_append (hpoint _), bind, Option.bind, pure,
      component_toString hmajor, component_toString hminor, component_toString hpatch]
  · intro text v h
    simp only [crates] at h
    split at h
    · next version hread =>
      obtain rfl : version = v := Except.ok.inj h
      simp only [versionOf, Option.bind_eq_bind, Option.bind_eq_some_iff] at hread
      obtain ⟨_, -, _, -, major, hmajor, minor, hminor, patch, hpatch, heq⟩ := hread
      obtain rfl : (⟨major, minor, patch⟩ : Version) = version := Option.some.inj heq
      exact ⟨component_lt hmajor, component_lt hminor, component_lt hpatch⟩
    · cases h

/-- The commit that both clones begin with. -/
def first : Commit := ⟨⟨some (manifest "0.1.5"), none⟩, "init", "ada", 0⟩

/-- A fresh clone of the project. -/
def clone (author : String) : Clone where
  path := "/home/" ++ author
  branch := some "main"
  history := [first]
  index := first.files
  files := first.files
  tracking := fun _ _ => []
  author := author

def opts : ShipOptions := ⟨false, false, true, false, "origin", none⟩

/-- One clone ships. The other one ships, pulls and ships again. -/
def ops (second : Bool) : List Op :=
  if second then [.ship .patch opts, .pull "origin", .ship .patch opts] else [.ship .patch opts]

/-- Nothing fails. -/
def faults (time : Nat) : Fault :=
  ⟨none, ⟨none, none⟩, false, false, ⟨" M Cargo.toml", by decide⟩, time⟩

/-- The second clone begins when the first one has ended. -/
def start : Pool Bool ShipSig Shipper Origin :=
  clones crates (fun second => clone (if second then "grace" else "ada")) ops fun _ _ => [first]

def inTurn : List (Bool × Bool) :=
  List.replicate 10 (false, true) ++ List.replicate 20 (true, true)

end TwoClones

end Fraisier.Ship
