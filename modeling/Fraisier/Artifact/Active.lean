import Fraisier.Artifact.StagingRuns

/-!
# What is active

`current` reads the link at `active_path`. `current_last_activated` is about a run of stages and
activations on a disk: what is read at its end is the artifact that was activated last, by the
name of its path, whatever failed, as long as no stage touches the link.
-/

namespace Fraisier.Artifact

open Fraisier.Core Fraisier.Effect
open Fraisier.Data (Node PathBuf)
open Fraisier.SelfUpgrade (Disk File)

/-! ## Reading the link -/

/-- Why a link cannot be read. -/
inductive LinkError where
  | notFound
  | other (cause : String)
deriving DecidableEq

/-- Reading links as a signature. -/
@[reducible] def LinkSig : Sig where
  Cmd := PathBuf
  Ans _ := Except LinkError PathBuf

/-- The artifact that is active at a path: the name of what the link leads to. -/
def readActiveLink (activePath : PathBuf) (adapter operation : String) :
    Prog LinkSig (Except AdapterError (Option ArtifactRef)) := do
  match ← Prog.perform (S := LinkSig) activePath with
  | .ok target => return .ok (target.fileName.map fun id => ⟨id, none⟩)
  | .error .notFound => return .ok none
  | .error (.other cause) =>
      return .error (.tagged .execution adapter operation s!"failed to read active link: {cause}"
        none)

/-- The artifact that is active at the configured path. -/
def currentStaged (adapter : String) (ctx : AdapterCtx) :
    Prog LinkSig (Except AdapterError (Option ArtifactRef)) :=
  match requireSetting adapter "current" ctx "active_path" with
  | .error error => return .error error
  | .ok active => readActiveLink (PathBuf.ofText active) adapter "current"

def ReleaseArtifact.current (ctx : AdapterCtx) :
    Prog LinkSig (Except AdapterError (Option ArtifactRef)) :=
  match Config.fromCtx ctx "current" with
  | .error error => return .error error
  | .ok _ => currentStaged adapterName ctx

def LocalArtifact.current (ctx : AdapterCtx) :
    Prog LinkSig (Except AdapterError (Option ArtifactRef)) :=
  match Config.fromCtx ctx "current" with
  | .error error => return .error error
  | .ok _ => currentStaged adapterName ctx

def GitArtifact.current (ctx : AdapterCtx) :
    Prog LinkSig (Except AdapterError (Option ArtifactRef)) :=
  match Config.fromCtx ctx "current" with
  | .error error => return .error error
  | .ok _ => currentStaged adapterName ctx

/-- A disk answers where a link leads to. -/
def links (o : Fate) : Handler LinkSig Disk := fun path s =>
  match o.fails s.clock with
  | some cause => (.error (.other cause), s.tick)
  | none =>
      match s.node path with
      | some (.link target) => (.ok target, s.tick)
      | some _ => (.error (.other invalidArgument), s.tick)
      | none => (.error .notFound, s.tick)

/-- The sources that stage on the disk of the process. -/
inductive DiskSource where
  | releaseArtifact (sha256 : List UInt8 → List UInt8)
  | localArtifact
  | gitArtifact

def DiskSource.source : DiskSource → Source
  | .releaseArtifact sha256 => .releaseArtifact sha256
  | .localArtifact => .localArtifact
  | .gitArtifact => .gitArtifact

def DiskSource.adapterName : DiskSource → String
  | .releaseArtifact _ => ReleaseArtifact.adapterName
  | .localArtifact => LocalArtifact.adapterName
  | .gitArtifact => GitArtifact.adapterName

def DiskSource.current (ctx : AdapterCtx) :
    DiskSource → Prog LinkSig (Except AdapterError (Option ArtifactRef))
  | .releaseArtifact _ => ReleaseArtifact.current ctx
  | .localArtifact => LocalArtifact.current ctx
  | .gitArtifact => GitArtifact.current ctx

/-! ## One activation -/

/-- The link that replaces the active one is made beside it. -/
def swapPath (pid : Nat) (active : PathBuf) : PathBuf :=
  let name := active.fileName.getD "current"
  active.withFileName s!"{name}.fraisier-tmp-{pid}"

/-- Make a link at a path and move it over another one. -/
def swapLink (temporary activePath stagedPath : PathBuf) (adapter operation : String) :
    Prog FileSig (Except AdapterError Unit) := do
  let fail (message : String) := AdapterError.tagged .execution adapter operation message none
  let _ ← file (.removeFile temporary)
  match ← file (.symlink stagedPath temporary) with
  | .error cause => return .error (fail s!"failed to create symlink: {cause}")
  | .ok () =>
    match ← file (.rename temporary activePath) with
    | .error cause =>
        let _ ← file (.removeFile temporary)
        return .error (fail s!"failed to swap active symlink: {cause}")
    | .ok () => return .ok ()

theorem activateSymlink_eq (pid : Nat) (active staged : PathBuf) (adapter operation : String) :
    activateSymlink pid active staged adapter operation =
      swapLink (swapPath pid active) active staged adapter operation := by
  rw [activateSymlink, swapLink, swapPath]
  refine congrArg (file (.removeFile _) >>= ·) (funext fun _ => ?_)
  refine congrArg (file (.symlink staged _) >>= ·) (funext fun r => ?_)
  cases r with
  | error cause => rfl
  | ok _ =>
      refine congrArg (file (.rename _ active) >>= ·) (funext fun r => ?_)
      cases r <;> rfl

/-- The link is made at a path of its own: one component differs, or there is one more. -/
theorem swapPath_not_within (pid : Nat) (active : PathBuf) :
    (swapPath pid active).within active = false := by
  cases hname : active.fileName with
  | none =>
      have hlength : ¬ (swapPath pid active).parts.isPrefixOf active.parts = true := by
        intro hprefix
        have hle := (List.isPrefixOf_iff_prefix.mp hprefix).length_le
        simp only [swapPath, PathBuf.withFileName, hname, PathBuf.below, Option.isSome_none,
          Bool.false_eq_true, if_false, List.length_append, List.length_singleton] at hle
        omega
      rw [PathBuf.within, Bool.and_eq_false_iff]
      exact .inr (eq_false_of_ne_true hlength)
  | some name =>
      obtain ⟨hlast, -⟩ := Option.filter_eq_some_iff.mp hname
      have hparts : active.parts = active.parts.dropLast ++ [name] :=
        (List.dropLast_append_getLast? name hlast).symm
      have hswap : (swapPath pid active).parts =
          active.parts.dropLast ++ [s!"{name}.fraisier-tmp-{pid}"] := by
        rw [swapPath, PathBuf.withFileName, hname]
        rfl
      have hdiffers : ¬ (swapPath pid active).parts.isPrefixOf active.parts = true := by
        intro hprefix
        have heq := (List.isPrefixOf_iff_prefix.mp hprefix).eq_of_length (by
          rw [hswap, hparts]
          simp)
        rw [hswap, hparts] at heq
        have hnames : s!"{name}.fraisier-tmp-{pid}" = name := by simpa using heq
        have hlong := congrArg String.length hnames
        simp only [String.length_append] at hlong
        have hmark : (toString ".fraisier-tmp-").length = 14 := by decide
        have hsame : (toString name).length = name.length := rfl
        omega
      rw [PathBuf.within, Bool.and_eq_false_iff]
      exact .inr (eq_false_of_ne_true hdiffers)

section Calls

variable {o : Fate} {s : Disk} {source target path : PathBuf} {node : Node PathBuf File}

/-- A path that has no more components than the one it is at or below is that one. -/
theorem eq_of_within {base : PathBuf} (hwithin : base.within path = true)
    (hlength : path.parts.length ≤ base.parts.length) : path = base := by
  obtain ⟨habsolute, hprefix⟩ := Bool.and_eq_true_iff.mp hwithin
  have hparts := (List.isPrefixOf_iff_prefix.mp hprefix).eq_of_length_le hlength
  cases path with
  | mk absolute parts =>
      cases base with
      | mk absolute' parts' =>
          obtain rfl := eq_of_beq habsolute
          exact congrArg _ hparts.symm

theorem node_putMoved_target {s' : Disk} (hsource : s.node source = some node)
    (hpath : path ∈ under s source) (h : path = source ∨ s'.node target = some node) :
    (putMoved s source target s' path).node target = some node := by
  rw [putMoved]
  by_cases hself : path = source
  · subst hself
    rw [hsource]
    dsimp only
    rw [List.drop_length, PathBuf.below_nil, Disk.node_put]
  · have htarget := h.resolve_left hself
    split
    next entry hentry =>
      have hne : target ≠ target.below (path.parts.drop source.parts.length) := by
        intro heq
        have hparts := congrArg PathBuf.parts heq
        rw [PathBuf.below, List.self_eq_append_right, List.drop_eq_nil_iff] at hparts
        exact hself (eq_of_within (within_of_mem_under hpath) hparts)
      rw [Disk.node_put_of_ne hne]
      exact htarget
    next => exact htarget

/-- What stood at the source stands at the target afterwards. -/
theorem node_moved (hsource : s.node source = some node) :
    (moved s source target).node target = some node := by
  have hfold : ∀ (paths : List PathBuf) (s' : Disk), (∀ path ∈ paths, path ∈ under s source) →
      (source ∈ paths ∨ s'.node target = some node) →
        (paths.foldl (putMoved s source target) s').node target = some node := by
    intro paths
    induction paths with
    | nil => exact fun s' _ h => h.resolve_left List.not_mem_nil
    | cons path paths ih =>
        intro s' hpaths h
        obtain ⟨hpath, hrest⟩ := List.forall_mem_cons.mp hpaths
        by_cases hlater : source ∈ paths
        · exact ih _ hrest (.inl hlater)
        · refine ih _ hrest (.inr (node_putMoved_target hsource hpath ?_))
          exact h.imp_left fun hmem => ((List.mem_cons.mp hmem).resolve_right hlater).symm
  refine hfold _ _ (fun path hpath => hpath) (.inl ?_)
  have hkey : source ∈ s.entries.keys := AList.mem_keys.mp
    (AList.lookup_isSome.mp (Option.isSome_of_mem hsource))
  exact List.mem_filter.mpr ⟨hkey, source.within_self⟩

/-- A link that is made stands there, and nothing else changed. -/
theorem symlink_cases (o : Fate) (s : Disk) (target path : PathBuf) :
    (∃ cause, (files o (.symlink target path) s).1 = .error cause) ∨
      (files o (.symlink target path) s).1 = .ok () ∧
        (files o (.symlink target path) s).2.node path = some (.link (path.linked target)) := by
  simp only [files]
  split
  · exact .inl ⟨_, rfl⟩
  · rw [Fate.guarded]
    split
    · exact .inl ⟨_, rfl⟩
    · exact .inr ⟨rfl, Disk.node_put⟩

/-- A move that fails changes nothing. -/
theorem rename_cases (o : Fate) (s : Disk) (source target : PathBuf) :
    (∃ cause, files o (.rename source target) s = (.error cause, s.tick)) ∨
      files o (.rename source target) s = (.ok (), (moved s source target).tick) := by
  simp only [files, rename]
  split
  · exact .inl ⟨_, rfl⟩
  · rw [Fate.guarded]
    split
    · exact .inl ⟨_, rfl⟩
    · exact .inr rfl

/-- Only an activation that succeeds changes what stands at the active path. -/
theorem activateSymlink_wp (o : Fate) (pid : Nat) (active staged : PathBuf)
    (adapter operation : String) (s : Disk) :
    wp (files o) Eq Guarantee.any (activateSymlink pid active staged adapter operation)
      (fun r s' => match r with
        | .ok () => s'.node active = some (.link ((swapPath pid active).linked staged))
        | .error _ => leaf s' active = leaf s active) s := by
  have hapart : ¬ active = swapPath pid active := by
    intro heq
    have hwithin := swapPath_not_within pid active
    rw [← heq, PathBuf.within_self] at hwithin
    cases hwithin
  rw [activateSymlink_eq, swapLink]
  generalize swapPath pid active = temporary at hapart ⊢
  refine wp_bind (wp_perform.mpr ⟨trivial, ?_⟩)
  have hremoved := files_spares o (.removeFile temporary) s active hapart
  generalize (files o (.removeFile temporary) s).2 = s₁ at hremoved ⊢
  refine wp_bind (wp_perform.mpr ⟨trivial, ?_⟩)
  have hlinked := (files_spares o (.symlink staged temporary) s₁ active hapart).trans hremoved
  have hcases := symlink_cases o s₁ staged temporary
  generalize files o (.symlink staged temporary) s₁ = linked at hlinked hcases ⊢
  obtain ⟨answer, s₂⟩ := linked
  obtain ⟨cause, rfl⟩ | ⟨rfl, hnode⟩ := hcases
  · exact wp_ret.mpr hlinked
  refine wp_bind (wp_perform.mpr ⟨trivial, ?_⟩)
  obtain ⟨cause, hrename⟩ | hrename := rename_cases o s₂ temporary active
  · rw [hrename]
    refine wp_bind (wp_perform.mpr ⟨trivial, wp_ret.mpr ?_⟩)
    exact (files_spares o (.removeFile temporary) s₂.tick active hapart).trans hlinked
  · rw [hrename]
    exact wp_ret.mpr (node_moved hnode)

end Calls

/-! ## Runs -/

/-- Whether a configuration can be resolved. -/
def DiskSource.configured (ctx : AdapterCtx) (operation : String) :
    DiskSource → Except AdapterError Unit
  | .releaseArtifact _ => (ReleaseArtifact.Config.fromCtx ctx operation).map fun _ => ()
  | .localArtifact => (LocalArtifact.Config.fromCtx ctx operation).map fun _ => ()
  | .gitArtifact => (GitArtifact.Config.fromCtx ctx operation).map fun _ => ()

section Runs

variable {source : DiskSource} {o : Fate} {pid : Nat} {ctx : AdapterCtx} {staged : StagedArtifact}
  {s : Disk}

theorem DiskSource.activate_eq (source : DiskSource) (o : Fate) (pid : Nat) (ctx : AdapterCtx)
    (staged : StagedArtifact) (s : Disk) :
    source.source.activate o pid ctx staged s =
      match source.configured ctx "activate" with
      | .error error => (.error error, s)
      | .ok () => outcome (files o) (activateStaged pid source.adapterName ctx staged) s := by
  cases source with
  | releaseArtifact sha256 =>
      simp only [DiskSource.source, Source.activate, ReleaseArtifact.activate, configured]
      cases ReleaseArtifact.Config.fromCtx ctx "activate" <;> rfl
  | localArtifact =>
      simp only [DiskSource.source, Source.activate, LocalArtifact.activate, configured]
      cases LocalArtifact.Config.fromCtx ctx "activate" <;> rfl
  | gitArtifact =>
      simp only [DiskSource.source, Source.activate, GitArtifact.activate, configured]
      cases GitArtifact.Config.fromCtx ctx "activate" <;> rfl

theorem DiskSource.current_eq (source : DiskSource) (ctx : AdapterCtx) :
    source.current ctx =
      match source.configured ctx "current" with
      | .error error => .ret (.error error)
      | .ok () => currentStaged source.adapterName ctx := by
  cases source with
  | releaseArtifact sha256 =>
      simp only [current, ReleaseArtifact.current, configured]
      cases ReleaseArtifact.Config.fromCtx ctx "current" <;> rfl
  | localArtifact =>
      simp only [current, LocalArtifact.current, configured]
      cases LocalArtifact.Config.fromCtx ctx "current" <;> rfl
  | gitArtifact =>
      simp only [current, GitArtifact.current, configured]
      cases GitArtifact.Config.fromCtx ctx "current" <;> rfl

/-- What was activated by a step. -/
def Deployment.activated (d : Deployment) (o : Fate) (s : State) : Op → Option StagedArtifact
  | .stage _ => none
  | .activate ctx staged =>
      match (d.source.activate o d.pid ctx staged s.disk).1 with
      | .ok () => some staged
      | .error _ => none

/-- What was activated last by a run. -/
def Deployment.lastActivated (d : Deployment) (o : Fate) : State → List Op → Option StagedArtifact
  | _, [] => none
  | s, op :: ops => (d.lastActivated o (d.step o s op) ops).or (d.activated o s op)

/-- A stage does not touch the active path, and an activation is one at that path, of something
with a name. -/
def Deployment.Aimed (d : Deployment) (o : Fate) (s : State) : Op → Prop
  | .stage ctx => ¬ d.source.Touches o ctx s.disk d.active
  | .activate ctx staged =>
      (∀ text, stringSetting ctx "active_path" = some text → PathBuf.ofText text = d.active) ∧
        (PathBuf.ofText staged.path).fileName.isSome

/-- The link to a staged artifact, as it stands at the active path. -/
def Deployment.linkTo (d : Deployment) (staged : StagedArtifact) : Node PathBuf File :=
  .link ((swapPath d.pid d.active).linked (PathBuf.ofText staged.path))

theorem requireSetting_eq_ok {adapter operation key text : String}
    (h : requireSetting adapter operation ctx key = .ok text) :
    stringSetting ctx key = some text := by
  unfold requireSetting at h
  split at h
  next value hvalue => rw [hvalue, Except.ok.inj h]
  next => cases h

/-- A path with a name keeps it where the path is joined to another one. -/
theorem fileName_linked {path target : PathBuf} (h : target.fileName.isSome) :
    (path.linked target).fileName = target.fileName := by
  rw [PathBuf.linked, PathBuf.join]
  split
  · rfl
  · have hne : target.parts ≠ [] := by
      intro hnil
      rw [PathBuf.fileName, hnil] at h
      cases h
    rw [PathBuf.fileName, PathBuf.fileName, List.getLast?_append_of_ne_nil _ hne]

variable {d : Deployment}

theorem leaf_activate {state : State} (hsource : d.source = source.source)
    (hop : d.Aimed o state (.activate ctx staged)) :
    leaf (d.step o state (.activate ctx staged)).disk d.active =
      match d.activated o state (.activate ctx staged) with
      | some staged => some (d.linkTo staged)
      | none => leaf state.disk d.active := by
  rw [Deployment.activated, Deployment.step, hsource, source.activate_eq]
  cases source.configured ctx "activate" with
  | error error => rfl
  | ok _ =>
      dsimp only
      rw [activateStaged]
      cases hsetting : requireSetting source.adapterName "activate" ctx "active_path" with
      | error error => rfl
      | ok text =>
          dsimp only
          rw [hop.1 text (requireSetting_eq_ok hsetting)]
          have hexec := (wp_exec (activateSymlink_wp o d.pid d.active (.ofText staged.path)
            source.adapterName "activate" state.disk) []).1
          dsimp only [outcome]
          revert hexec
          generalize (activateSymlink d.pid d.active (PathBuf.ofText staged.path)
            source.adapterName "activate").exec (files o) [] state.disk = run
          intro hexec
          cases hvalue : run.value with
          | error error =>
              rw [hvalue] at hexec
              exact hexec
          | ok _ =>
              rw [hvalue] at hexec
              exact leaf_eq_link.mpr hexec

/-- Only an activation that succeeds changes what stands at the active path. -/
theorem leaf_step {state : State} {op : Op} (hsource : d.source = source.source)
    (hop : d.Aimed o state op) :
    leaf (d.step o state op).disk d.active =
      match d.activated o state op with
      | some staged => some (d.linkTo staged)
      | none => leaf state.disk d.active := by
  cases op with
  | stage ctx =>
      rw [Deployment.disk_step_stage]
      exact d.source.stage_spares o ctx state.disk d.active hop
  | activate ctx staged => exact leaf_activate hsource hop

theorem leaf_run {state : State} {ops : List Op} (hsource : d.source = source.source)
    (hsteps : d.Steps o (d.Aimed o) state ops) :
    leaf (d.run o state ops).disk d.active =
      match d.lastActivated o state ops with
      | some staged => some (d.linkTo staged)
      | none => leaf state.disk d.active := by
  induction ops generalizing state with
  | nil => rfl
  | cons op ops ih =>
      show leaf (d.run o (d.step o state op) ops).disk d.active = _
      rw [ih hsteps.2, Deployment.lastActivated]
      -- what a later step activated covers what this one did
      cases d.lastActivated o (d.step o state op) ops with
      | some staged => rfl
      | none =>
          rw [Option.none_or]
          exact leaf_step hsource hsteps.1

/-- What was activated last by a run was activated by one of its steps. -/
theorem mem_of_lastActivated {state : State} {ops : List Op}
    (hsteps : d.Steps o (d.Aimed o) state ops) (h : d.lastActivated o state ops = some staged) :
    (PathBuf.ofText staged.path).fileName.isSome := by
  induction ops generalizing state with
  | nil => cases h
  | cons op ops ih =>
      rw [Deployment.lastActivated] at h
      obtain hlater | ⟨-, hnow⟩ := Option.or_eq_some_iff.mp h
      · exact ih hsteps.2 hlater
      · cases op with
        | stage ctx => cases hnow
        | activate ctx other =>
            rw [Deployment.activated] at hnow
            split at hnow
            · exact Option.some.inj hnow ▸ hsteps.1.2
            · cases hnow

theorem current_of_link {target : PathBuf} (source : DiskSource)
    (hconfigured : source.configured ctx "current" = .ok ()) {text : String}
    (hsetting : requireSetting source.adapterName "current" ctx "active_path" = .ok text)
    (hread : o.fails s.clock = none) (hlink : s.node (.ofText text) = some (.link target)) :
    (outcome (links o) (source.current ctx) s).1 =
      .ok (target.fileName.map fun id => ⟨id, none⟩) := by
  have hanswer : ((Prog.perform (S := LinkSig) (PathBuf.ofText text)).exec (links o) [] s).value =
      .ok target := by
    show (links o (PathBuf.ofText text) s).1 = .ok target
    rw [links, hread, hlink]
  rw [source.current_eq, hconfigured]
  dsimp only
  rw [currentStaged, hsetting]
  simp only [outcome, readActiveLink, Prog.exec_bind, hanswer]
  rfl

/-- After any run whose stages stay away from the active path, what is read there is the name of
the path that was activated last, or of what was there before; what fails does not count. -/
theorem current_last_activated (source : DiskSource) (d : Deployment)
    (hsource : d.source = source.source) (o : Fate) (state : State) (ops : List Op)
    (hsteps : d.Steps o (d.Aimed o) state ops) (ctx : AdapterCtx)
    (hconfigured : source.configured ctx "current" = .ok ()) {text : String}
    (hsetting : requireSetting source.adapterName "current" ctx "active_path" = .ok text)
    (hactive : PathBuf.ofText text = d.active)
    (hread : o.fails (d.run o state ops).disk.clock = none) :
    (∀ staged, d.lastActivated o state ops = some staged →
      (outcome (links o) (source.current ctx) (d.run o state ops).disk).1 =
        .ok ((PathBuf.ofText staged.path).fileName.map fun id => ⟨id, none⟩)) ∧
    (d.lastActivated o state ops = none →
      ∀ target, state.disk.node d.active = some (.link target) →
        (outcome (links o) (source.current ctx) (d.run o state ops).disk).1 =
          .ok (target.fileName.map fun id => ⟨id, none⟩)) := by
  have hleaf := leaf_run hsource hsteps
  refine ⟨fun staged hlast => ?_, fun hlast target hlink => ?_⟩
  · rw [hlast] at hleaf
    have hnode := leaf_eq_link.mp hleaf
    rw [← hactive] at hnode
    rw [current_of_link source hconfigured hsetting hread hnode,
      fileName_linked (mem_of_lastActivated hsteps hlast)]
  · rw [hlast] at hleaf
    have hnode := leaf_eq_link.mp (hleaf.trans (leaf_eq_link.mpr hlink))
    rw [← hactive] at hnode
    exact current_of_link source hconfigured hsetting hread hnode

end Runs

/-- A disk on which nothing fails. -/
def faultless : Fate where
  fails _ := none
  part _ _ := false
  left _ := none
  program _ := .ok ⟨some 0, "", "", none⟩
  body _ := []
  tree _ := []
  response _ := .error "no route to host"

/-- A release of a version. -/
def releasing (version : String) : AdapterCtx :=
  { AdapterCtx.new "app" "production" with
    settings := [("active_path", .str "/srv/current"), ("release_url", .str "https://host/app"),
      ("staging_dir", .str "/srv/staging"), ("version", .str version)] }

/-- A host on which releases are activated. -/
def released : Deployment where
  source := .releaseArtifact fun _ => [171]
  pid := 1
  active := .ofText "/srv/current"
  ledger := fun staged => staged

def stagedRelease (version : String) : StagedArtifact :=
  ⟨⟨version, some "ab"⟩, "/srv/staging/" ++ version⟩

/-- Everything is downloaded, and one call fails. -/
def failingAt (time : Nat) : Fate :=
  { faultless with
    fails := fun now => if now = time then some "Input/output error (os error 5)" else none
    response := fun _ => .ok ⟨200, "200 OK", .ok [120]⟩ }

/-- Two versions are staged and activated, and then a third one is activated. -/
def rollout : List Op :=
  [.stage (releasing "1.0.0"), .activate (releasing "1.0.0") (stagedRelease "1.0.0"),
    .stage (releasing "1.1.0"), .activate (releasing "1.1.0") (stagedRelease "1.1.0"),
    .activate (releasing "1.2.0") (stagedRelease "1.2.0")]

/-- The third activation fails when its link is moved into place. -/
theorem current_last_activated_second :
    (outcome (links (failingAt 16)) ((DiskSource.releaseArtifact fun _ => [171]).current
      (releasing "1.2.0")) (released.run (failingAt 16) bare rollout).disk).1 =
        .ok (some ⟨"1.1.0", none⟩) := by
  have hsetting : ∀ version text, stringSetting (releasing version) "active_path" = some text →
      PathBuf.ofText text = released.active := by
    intro version text htext
    have hvalue : stringSetting (releasing version) "active_path" = some "/srv/current" := rfl
    rw [hvalue] at htext
    exact Option.some.inj htext ▸ rfl
  -- A stage touches what its path leads to, which is not the active path.
  have hstage : ∀ {s : State} {version : String} {config : ReleaseArtifact.Config},
      ReleaseArtifact.Config.fromCtx (releasing version) "stage" = .ok config →
        s.disk.destination (.ofText config.stagedPath) ≠ released.active →
          released.Aimed (failingAt 16) s (.stage (releasing version)) := by
    rintro s version config hconfig hne ⟨config', hconfig', hactive⟩
    obtain rfl : config = config' := Except.ok.inj (hconfig.symm.trans hconfig')
    exact hne hactive.symm
  exact (current_last_activated (.releaseArtifact fun _ => [171]) released rfl (failingAt 16) bare
    rollout ⟨hstage rfl (by decide +kernel), ⟨hsetting _, by decide⟩,
      hstage rfl (by decide +kernel), ⟨hsetting _, by decide⟩, ⟨hsetting _, by decide⟩, trivial⟩
    (releasing "1.2.0") rfl rfl rfl (by decide +kernel)).1 (stagedRelease "1.1.0")
      (by decide +kernel)

end Fraisier.Artifact
