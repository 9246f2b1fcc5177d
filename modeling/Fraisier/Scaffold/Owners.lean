import Fraisier.Scaffold.Install

/-!
# Whose files an install command removes

Several deployables install below one root, each with two commands. A host keeps, beside its
files, what each owner's configuration generates and which files each owner has installed.
The main theorem is `commands_keep`: files of other owners stay as long as no command prunes
a directory that holds one, and they do not otherwise.
-/

namespace Fraisier.Scaffold

open Fraisier.Data

/-! ## What a command leaves -/

section Keeps

variable {faults : Faults} {root : Path} {disk : Disk} {path : Path}

/-- Files stay when others are written. -/
theorem isSome_lookup_insertEntry (h : (disk.lookup path).isSome = true) (other : Path)
    (text : String) : ((insertEntry disk other text).lookup path).isSome = true := by
  by_cases heq : path = other
  · subst heq
    rw [lookup_insertEntry_self]
    rfl
  · rwa [lookup_insertEntry_ne disk text heq]

theorem writeFile_keeps (h : (disk.lookup path).isSome = true) (other : Path) (text : String) :
    ((writeFile faults disk other text).2.lookup path).isSome = true := by
  rw [writeFile]
  split
  · exact isSome_lookup_insertEntry h other text
  · exact h
  · exact isSome_lookup_insertEntry h other _

theorem install_keeps (files : List GeneratedFile) (h : (disk.lookup path).isSome = true) :
    ((install faults root files disk).2.lookup path).isSome = true := by
  induction files generalizing disk with
  | nil => exact h
  | cons file files ih =>
      rw [install]
      cases file.installDest with
      | none => exact ih h
      | some dest =>
          have hwritten :
              ((writeFile faults disk (underRoot root dest) file.contents).2.lookup path).isSome :=
            writeFile_keeps h (underRoot root dest) file.contents
          simp only
          generalize writeFile faults disk (underRoot root dest) file.contents = written at hwritten
          obtain ⟨_ | _, disk'⟩ := written
          · exact hwritten
          · have hrest := ih hwritten
            simp only
            generalize install faults root files disk' = rest at hrest
            obtain ⟨_ | _, disk''⟩ := rest
            · exact hrest
            · exact hrest

/-- Only the file that is removed goes. -/
theorem removeFile_keeps {other : Path} (hne : path ≠ other)
    (h : (disk.lookup path).isSome = true) :
    ((removeFile faults disk other).2.lookup path).isSome = true := by
  rw [removeFile]
  split
  · exact h
  · exact h
  · show ((disk.filter fun e => e.1 != other).lookup path).isSome = true
    rwa [lookup_filter_ne disk hne]

theorem prune_keeps {stale : List Path} (hstale : path ∉ stale)
    (h : (disk.lookup path).isSome = true) :
    ((prune faults stale disk).2.lookup path).isSome = true := by
  induction stale generalizing disk with
  | nil => exact h
  | cons other stale ih =>
      obtain ⟨hne, hrest⟩ := not_or.mp (List.mem_cons.not.mp hstale)
      have hremoved : ((removeFile faults disk other).2.lookup path).isSome = true :=
        removeFile_keeps hne h
      rw [prune]
      generalize removeFile faults disk other = removed at hremoved
      obtain ⟨_ | _, disk'⟩ := removed
      · exact hremoved
      · exact ih hrest hremoved

/-- A file is stale when it carries the marker, lies beside a current one and is not current. -/
structure Stale (root : Path) (files : List GeneratedFile) (disk : Disk) (path : Path) : Prop where
  marked : ∃ contents, disk.lookup path = some contents ∧
    containsText contents marker = true
  beside : ∃ dir, path.parent = some dir ∧
    dir ∈ (installTargets root files).filterMap Path.parent
  other : path ∉ installTargets root files

theorem mem_staleIn {current : List Path} {dirs stale : List Path}
    (h : staleIn faults current disk dirs = .ok stale) :
    path ∈ stale ↔ path ∈ disk.map Prod.fst ∧ (∃ dir, path.parent = some dir ∧ dir ∈ dirs) ∧
      path ∉ current ∧ isFraisierGenerated faults disk path = true := by
  induction dirs generalizing stale with
  | nil =>
      cases h
      simp
  | cons dir dirs ih =>
      rw [staleIn, readDir] at h
      split at h
      · cases h
      · generalize hrest : staleIn faults current disk dirs = rest at h
        cases rest with
        | error error => cases h
        | ok rest =>
            cases h
            simp only [List.mem_append, List.mem_filter, List.mem_dedup, ih hrest,
              Bool.and_eq_true, beq_iff_eq, Bool.not_eq_true', List.mem_cons,
              List.contains_eq_mem, decide_eq_false_iff_not]
            grind

theorem exists_of_isFraisierGenerated (h : isFraisierGenerated faults disk path = true) :
    ∃ contents, disk.lookup path = some contents ∧
      containsText contents marker = true := by
  rw [isFraisierGenerated, readFile] at h
  split at h
  · cases h
  · cases hlookup : disk.lookup path with
    | none => simp [hlookup] at h
    | some contents => exact ⟨contents, rfl, by simpa [hlookup] using h⟩

variable {files : List GeneratedFile}

/-- What is planned to be pruned is stale. -/
theorem stale_of_mem_prunePlan {stale : List Path}
    (h : prunePlan faults root files disk = .ok stale) (hpath : path ∈ stale) :
    Stale root files disk path := by
  rw [prunePlan] at h
  generalize hin : staleIn faults _ disk _ = found at h
  cases found with
  | error error => cases h
  | ok found =>
      cases h
      obtain ⟨-, ⟨dir, hparent, hdir⟩, hother, hmarked⟩ :=
        (mem_staleIn hin).mp (List.mem_mergeSort.mp hpath)
      have hdirs := List.mem_dedup.mp (List.mem_mergeSort.mp hdir)
      exact ⟨exists_of_isFraisierGenerated hmarked, ⟨dir, hparent, hdirs⟩, hother⟩

/-- A file that goes when a plan is applied was in it. -/
theorem applyPlan_keeps {flags : Flags} {stale : List Path}
    (hstale : flags.prune = true → path ∉ stale) (h : (disk.lookup path).isSome = true) :
    ((applyPlan faults root flags files stale disk).2.lookup path).isSome = true := by
  have hinstalled : ((install faults root files disk).2.lookup path).isSome = true :=
    install_keeps files h
  rw [applyPlan]
  generalize install faults root files disk = installed at hinstalled
  obtain ⟨_ | installed, disk'⟩ := installed
  · exact hinstalled
  · simp only
    split
    next hprune =>
      have hpruned : ((prune faults stale disk').2.lookup path).isSome = true :=
        prune_keeps (hstale hprune) hinstalled
      generalize prune faults stale disk' = pruned at hpruned
      obtain ⟨_ | _, disk''⟩ := pruned
      · exact hpruned
      · exact hpruned
    next => exact hinstalled

end Keeps

/-! ## Owners -/

/-- The commands that install files of a deployable. -/
inductive Kind where
  | scaffold
  | scheduled
deriving DecidableEq

/-- A deployable and one of its install commands. -/
structure Owner where
  deployable : String
  kind : Kind
deriving DecidableEq

/-- What an owner's configuration says: the files that are generated from it, if they can be,
and the errors of its scheduling sections. -/
structure Config where
  generated : Option (List GeneratedFile)
  errors : List String

/-- The destinations a configuration declares. -/
def Config.declares (root : Path) (config : Config) : List Path :=
  installTargets root (config.generated.getD [])

/-- The files below a root, the configurations, and who installed which file. -/
structure Host where
  disk : Disk
  config : Owner → Config
  installed : List (Owner × Path)

/-- Run an owner's install command. -/
def Owner.command (owner : Owner) (faults : Faults) (root : Path) (flags : Flags)
    (config : Config) (disk : Disk) : Option (Except ScaffoldError Report) × Disk :=
  match config.generated with
  | none => (none, disk)
  | some files =>
      let run := match owner.kind with
        | .scaffold => scaffoldInstall faults root flags files disk
        | .scheduled => scheduledInstall faults root flags config.errors files disk
      (some run.1, run.2)

/-- What happens on a host: a configuration is edited, or a command is run. -/
inductive Event where
  | edit (owner : Owner) (config : Config)
  | command (owner : Owner) (flags : Flags) (faults : Faults)

/-- The files a command installed. -/
def installedBy (owner : Owner) : Option (Except ScaffoldError Report) → List (Owner × Path)
  | some (.ok (.applied installed _)) => installed.map fun path => (owner, path)
  | _ => []

/-- One event. A file that is gone is installed by nobody. -/
def Host.step (root : Path) (host : Host) : Event → Host
  | .edit owner config => { host with config := Function.update host.config owner config }
  | .command owner flags faults =>
      let run := owner.command faults root flags (host.config owner) host.disk
      { host with
        disk := run.2
        installed := (host.installed ++ installedBy owner run.1).filter fun e =>
          (run.2.lookup e.2).isSome }

/-- The host after some events. -/
def Host.after (root : Path) (host : Host) (events : List Event) : Host :=
  events.foldl (Host.step root) host

/-- A file that an owner installed and still declares, and that is there. -/
def Host.Keeps (root : Path) (host : Host) (owner : Owner) (path : Path) : Prop :=
  (owner, path) ∈ host.installed ∧ path ∈ (host.config owner).declares root ∧
    (host.disk.lookup path).isSome = true

/-- The command removes no file that another owner installed and still declares. -/
def SparesOthers (root : Path) (host : Host) (owner : Owner) (flags : Flags) (faults : Faults) :
    Prop :=
  ∀ other path, other ≠ owner → host.Keeps root other path →
    ((host.step root (.command owner flags faults)).disk.lookup path).isSome = true

/-- The command comes to prune: it is applied and, when it is a scheduled one, refused neither
for errors nor for drift. -/
def Host.Prunes (root : Path) (host : Host) (owner : Owner) (flags : Flags) (faults : Faults) :
    Prop :=
  flags.prune = true ∧ flags.apply = true ∧ flags.dryRun = false ∧
    match owner.kind with
    | .scaffold => True
    | .scheduled => (host.config owner).errors = [] ∧
        (flags.force = true ∨ ∀ e ∈ classify faults root
          ((host.config owner).generated.getD []) host.disk, e.2.2 ≠ .drifted)

/-- No other owner has a file, with the marker, in a directory the command installs to, but
for the files the command itself installs. -/
def Host.Alone (root : Path) (host : Host) (owner : Owner) : Prop :=
  ∀ other path, other ≠ owner → host.Keeps root other path →
    ¬ Stale root ((host.config owner).generated.getD []) host.disk path

section Commands

variable {owner : Owner} {faults : Faults} {root : Path} {flags : Flags} {host : Host}
variable {path : Path} {files : List GeneratedFile}

/-- What a plan is applied to goes only if it is stale. -/
theorem applyPlan_planned {stale : List Path} {written : List GeneratedFile}
    (hplan : planned faults root flags files host.disk = .ok stale)
    (h : (host.disk.lookup path).isSome = true)
    (hstale : flags.prune = true → ¬ Stale root files host.disk path) :
    ((applyPlan faults root flags written stale host.disk).2.lookup path).isSome = true := by
  refine applyPlan_keeps ?_ h
  intro hprune hpath
  rw [planned, if_pos hprune] at hplan
  exact hstale hprune (stale_of_mem_prunePlan hplan hpath)

theorem scaffoldInstall_keeps (h : (host.disk.lookup path).isSome = true)
    (hstale : flags.prune = true → flags.apply = true → flags.dryRun = false →
      ¬ Stale root files host.disk path) :
    ((scaffoldInstall faults root flags files host.disk).2.lookup path).isSome = true := by
  rw [scaffoldInstall]
  generalize hplan : planned faults root flags files host.disk = plan
  cases plan with
  | error error => exact h
  | ok stale =>
      simp only
      split
      next => exact h
      next hflags =>
        obtain ⟨hdry, happly⟩ : flags.dryRun = false ∧ flags.apply = true := by
          simpa using hflags
        exact applyPlan_planned hplan h fun hprune => hstale hprune happly hdry

theorem scheduledInstall_keeps {errors : List String} (h : (host.disk.lookup path).isSome = true)
    (hstale : flags.prune = true → flags.apply = true → flags.dryRun = false → errors = [] →
      (flags.force = true ∨ ∀ e ∈ classify faults root files host.disk, e.2.2 ≠ .drifted) →
      ¬ Stale root files host.disk path) :
    ((scheduledInstall faults root flags errors files host.disk).2.lookup path).isSome =
      true := by
  rw [scheduledInstall]
  split
  next => exact h
  next herrors =>
    have hnone : errors = [] := by simpa using herrors
    simp only
    generalize hplan : planned faults root flags files host.disk = plan
    cases plan with
    | error error => exact h
    | ok stale =>
        simp only
        split
        next => exact h
        next hflags =>
          obtain ⟨hdry, happly⟩ : flags.dryRun = false ∧ flags.apply = true := by
            simpa using hflags
          split
          next => exact h
          next hdrift =>
            refine applyPlan_planned hplan h fun hprune => hstale hprune happly hdry hnone ?_
            by_cases hforce : flags.force = true
            · exact .inl hforce
            · refine .inr fun e he hdrifted => hdrift ?_
              simp only [Bool.and_eq_true, Bool.not_eq_true', List.isEmpty_eq_false_iff,
                ne_eq, List.map_eq_nil_iff, List.filter_eq_nil_iff]
              exact ⟨fun hall => hall e he (by simp [hdrifted]), by simpa using hforce⟩

/-- A file goes only when it is stale and the command comes to prune. -/
theorem command_keeps (h : (host.disk.lookup path).isSome = true)
    (hstale : host.Prunes root owner flags faults →
      ¬ Stale root ((host.config owner).generated.getD []) host.disk path) :
    ((host.step root (.command owner flags faults)).disk.lookup path).isSome = true := by
  obtain ⟨deployable, kind⟩ := owner
  rw [Host.step, Owner.command]
  unfold Host.Prunes at hstale
  generalize host.config ⟨deployable, kind⟩ = config at hstale ⊢
  obtain ⟨generated, errors⟩ := config
  cases generated with
  | none => exact h
  | some files =>
      cases kind with
      | scaffold =>
          exact scaffoldInstall_keeps h fun hprune happly hdry =>
            hstale ⟨hprune, happly, hdry, trivial⟩
      | scheduled =>
          exact scheduledInstall_keeps h fun hprune happly hdry herrors hdrift =>
            hstale ⟨hprune, happly, hdry, herrors, hdrift⟩

end Commands

/-! ## What goes when nothing goes wrong -/

section Removes

variable {root : Path} {disk : Disk} {path : Path} {files : List GeneratedFile}

theorem lookup_filter_self (disk : Disk) (path : Path) :
    (disk.filter fun e => e.1 != path).lookup path = none := by
  rw [List.lookup_eq_none_iff]
  intro e he
  have hne : e.1 ≠ path := by simpa using (List.mem_filter.mp he).2
  simpa using hne.symm

theorem mem_map_fst_of_isSome (h : (disk.lookup path).isSome = true) :
    path ∈ disk.map Prod.fst := by
  obtain ⟨contents, hcontents⟩ := Option.isSome_iff_exists.mp h
  exact List.mem_map.mpr ⟨_, mem_of_lookup_eq_some hcontents, rfl⟩

theorem exists_staleIn (current : List Path) (dirs : List Path) :
    ∃ stale, staleIn .none current disk dirs = .ok stale := by
  induction dirs with
  | nil => exact ⟨[], rfl⟩
  | cons dir dirs ih =>
      obtain ⟨rest, hrest⟩ := ih
      exact ⟨_, by rw [staleIn, hrest]; rfl⟩

theorem staleIn_nodup {current dirs stale : List Path} (hdirs : dirs.Nodup)
    (h : staleIn .none current disk dirs = .ok stale) : stale.Nodup := by
  induction dirs generalizing stale with
  | nil =>
      cases h
      exact List.nodup_nil
  | cons dir dirs ih =>
      obtain ⟨hdir, hrest⟩ := List.nodup_cons.mp hdirs
      obtain ⟨rest, hin⟩ : ∃ rest, staleIn .none current disk dirs = .ok rest :=
        exists_staleIn current dirs
      rw [staleIn, hin] at h
      cases h
      refine List.nodup_append.mpr ⟨((List.nodup_dedup _).filter _).filter _, ih hrest hin, ?_⟩
      -- A file is in one directory only.
      intro a ha b hb heq
      obtain ⟨d, hparent, hd⟩ := ((mem_staleIn hin).mp hb).2.1
      have hhere : a.parent = some dir := by
        simpa using (List.mem_filter.mp (List.mem_filter.mp ha).1).2
      have hsame : dir = d := Option.some.inj (hhere.symm.trans (heq ▸ hparent))
      exact hdir (hsame ▸ hd)

/-- The plan that is made when every directory can be scanned. -/
theorem exists_prunePlan (root : Path) (files : List GeneratedFile) (disk : Disk) :
    ∃ stale, prunePlan .none root files disk = .ok stale ∧ stale.Nodup ∧
      (∀ path ∈ stale, (disk.lookup path).isSome = true) ∧
      ∀ path, Stale root files disk path → path ∈ stale := by
  have hdirs : (((installTargets root files).filterMap Path.parent).dedup.mergeSort
      Path.ble).Nodup := (List.mergeSort_perm _ _).nodup_iff.mpr (List.nodup_dedup _)
  obtain ⟨found, hin⟩ : ∃ found, staleIn .none (installTargets root files) disk
      (((installTargets root files).filterMap Path.parent).dedup.mergeSort Path.ble) = .ok found :=
    exists_staleIn _ _
  refine ⟨found.mergeSort Path.ble, ?_, ?_, ?_, ?_⟩
  · rw [prunePlan, hin]
    rfl
  · exact (List.mergeSort_perm _ _).nodup_iff.mpr (staleIn_nodup hdirs hin)
  · intro path hpath
    obtain ⟨-, -, -, hmarked⟩ := (mem_staleIn hin).mp (List.mem_mergeSort.mp hpath)
    obtain ⟨contents, hcontents, -⟩ := exists_of_isFraisierGenerated hmarked
    rw [hcontents]
    rfl
  · intro path hstale
    obtain ⟨contents, hcontents, hmarked⟩ := hstale.marked
    obtain ⟨dir, hparent, hdir⟩ := hstale.beside
    refine List.mem_mergeSort.mpr ((mem_staleIn hin).mpr ⟨?_, ⟨dir, hparent, ?_⟩, hstale.other, ?_⟩)
    · exact mem_map_fst_of_isSome (by rw [hcontents]; rfl)
    · exact List.mem_mergeSort.mpr (List.mem_dedup.mpr hdir)
    · show (disk.lookup path).any _ = true
      rw [hcontents]
      exact hmarked

theorem exists_install (root : Path) (files : List GeneratedFile) (disk : Disk) :
    ∃ installed, (install .none root files disk).1 = .ok installed := by
  induction files generalizing disk with
  | nil => exact ⟨[], rfl⟩
  | cons file files ih =>
      rw [install]
      cases file.installDest with
      | none => exact ih disk
      | some dest =>
          obtain ⟨installed, h⟩ := ih (insertEntry disk (underRoot root dest) file.contents)
          have hwritten : writeFile .none disk (underRoot root dest) file.contents =
              (.ok (), insertEntry disk (underRoot root dest) file.contents) := rfl
          refine ⟨underRoot root dest :: installed, ?_⟩
          simp only [hwritten]
          generalize install .none root files _ = run at h
          obtain ⟨result, disk'⟩ := run
          cases h
          rfl

/-- Every file of the plan is gone, and what was gone stays so. -/
theorem lookup_prune {stale : List Path} (hnodup : stale.Nodup)
    (hthere : ∀ p ∈ stale, (disk.lookup p).isSome = true)
    (h : path ∈ stale ∨ disk.lookup path = none) :
    (prune .none stale disk).2.lookup path = none := by
  induction stale generalizing disk with
  | nil => simpa [prune] using h
  | cons other stale ih =>
      obtain ⟨hother, hrest⟩ := List.nodup_cons.mp hnodup
      obtain ⟨contents, hcontents⟩ := Option.isSome_iff_exists.mp (hthere other List.mem_cons_self)
      have hremove : removeFile .none disk other =
          (.ok (), disk.filter fun e => e.1 != other) := by
        rw [removeFile, hcontents]
        rfl
      rw [prune, hremove]
      refine ih hrest (fun p hp => ?_) ?_
      · have hne : p ≠ other := fun heq => hother (heq ▸ hp)
        rw [lookup_filter_ne disk hne]
        exact hthere p (List.mem_cons_of_mem _ hp)
      · by_cases heq : path = other
        · exact .inr (heq ▸ lookup_filter_self disk other)
        · rw [lookup_filter_ne disk heq]
          exact h.imp_left fun hmem => (List.mem_cons.mp hmem).resolve_left heq

/-- A stale file goes when its plan is applied. -/
theorem applyPlan_removes {flags : Flags} {written : List GeneratedFile} {stale : List Path}
    (hprune : flags.prune = true) (hnodup : stale.Nodup)
    (hthere : ∀ p ∈ stale, (disk.lookup p).isSome = true) (hpath : path ∈ stale) :
    (applyPlan .none root flags written stale disk).2.lookup path = none := by
  obtain ⟨installed, hinstalled⟩ := exists_install root written disk
  have hkept : ∀ p ∈ stale,
      ((install .none root written disk).2.lookup p).isSome = true :=
    fun p hp => install_keeps written (hthere p hp)
  rw [applyPlan]
  generalize install .none root written disk = run at hinstalled hkept
  obtain ⟨result, disk'⟩ := run
  cases hinstalled
  have hgone := lookup_prune hnodup hkept (.inl hpath)
  simp only [hprune, if_true]
  generalize prune .none stale disk' = pruned at hgone
  obtain ⟨_ | _, disk''⟩ := pruned
  · exact hgone
  · exact hgone

/-- A command that comes to prune removes what is stale. -/
theorem command_removes {owner : Owner} {flags : Flags} {host : Host}
    (hprunes : host.Prunes root owner flags .none)
    (hstale : Stale root ((host.config owner).generated.getD []) host.disk path) :
    (host.step root (.command owner flags .none)).disk.lookup path = none := by
  obtain ⟨deployable, kind⟩ := owner
  rw [Host.step, Owner.command]
  unfold Host.Prunes at hprunes
  generalize host.config ⟨deployable, kind⟩ = config at hstale hprunes ⊢
  obtain ⟨generated, errors⟩ := config
  obtain ⟨hprune, happly, hdry, hkind⟩ := hprunes
  cases generated with
  | none =>
      obtain ⟨-, ⟨dir, -, hdir⟩, -⟩ := hstale
      cases hdir
  | some files =>
      obtain ⟨stale, hplan, hnodup, hthere, hall⟩ := exists_prunePlan root files host.disk
      have hplanned : planned .none root flags files host.disk = .ok stale := by
        rw [planned, if_pos hprune, hplan]
      have hgoes : ∀ written, (applyPlan .none root flags written stale host.disk).2.lookup path =
          none := fun written => applyPlan_removes hprune hnodup hthere (hall path hstale)
      cases kind with
      | scaffold =>
          show (scaffoldInstall .none root flags files host.disk).2.lookup path = none
          rw [scaffoldInstall, hplanned]
          simpa [hdry, happly] using hgoes files
      | scheduled =>
          obtain ⟨herrors, hdrift⟩ := hkind
          show (scheduledInstall .none root flags errors files host.disk).2.lookup path = none
          have hno : (!(((classify .none root files host.disk).filter fun e =>
              e.2.2 == .drifted).map fun e => e.2.1).isEmpty && !flags.force) = false := by
            obtain hforce | hdrift := hdrift
            · simp [hforce]
            · have hnone : (classify .none root files host.disk).filter
                  (fun e => e.2.2 == .drifted) = [] :=
                List.filter_eq_nil_iff.mpr fun e he => by simpa using hdrift e he
              simp [hnone]
          rw [scheduledInstall]
          have herrors : errors = [] := herrors
          subst herrors
          simp only [List.isEmpty_nil, Bool.not_true, Bool.false_eq_true, if_false, hplanned, hno,
            hdry, happly, Bool.or_self]
          exact hgoes _

end Removes

/-! ## Sequences of commands -/

/-- Every command that comes to prune finds no other owner's files. -/
def AllAlone (root : Path) (host : Host) (events : List Event) : Prop :=
  ∀ before owner flags faults after, events = before ++ .command owner flags faults :: after →
    (host.after root before).Prunes root owner flags faults →
      (host.after root before).Alone root owner

/-- No command removes a file that another owner installed and still declares. -/
def AllSpared (root : Path) (host : Host) (events : List Event) : Prop :=
  ∀ before owner flags faults after, events = before ++ .command owner flags faults :: after →
    SparesOthers root (host.after root before) owner flags faults

/-- No file operation of a command fails. -/
def NoFaults (events : List Event) : Prop :=
  ∀ owner flags faults, .command owner flags faults ∈ events → faults = .none

/-- No command of a sequence removes another owner's files if every command that comes to
prune is alone, whatever fails; and if nothing fails, only then. -/
theorem commands_keep (root : Path) (host : Host) (events : List Event) :
    (AllAlone root host events → AllSpared root host events) ∧
      (NoFaults events → (AllSpared root host events ↔ AllAlone root host events)) := by
  have hkeep : AllAlone root host events → AllSpared root host events := by
    intro halone before owner flags faults after hevents other path hother hkeeps
    refine command_keeps hkeeps.2.2 fun hprunes => ?_
    exact halone before owner flags faults after hevents hprunes other path hother hkeeps
  refine ⟨hkeep, fun hfaults => ⟨?_, hkeep⟩⟩
  intro hspared before owner flags faults after hevents hprunes other path hother hkeeps hstale
  have hnone : faults = .none := hfaults owner flags faults (by simp [hevents])
  subst hnone
  have hthere := hspared before owner flags .none after hevents other path hother hkeeps
  rw [command_removes hprunes hstale] at hthere
  cases hthere

/-- The units of a deployable. -/
def serviceUnit (name : String) : GeneratedFile :=
  ⟨some ⟨["etc", "systemd", "system", name ++ ".service"]⟩,
    "[Unit]\nDescription=" ++ name ++ " (production)\nAfter=network.target\n"⟩

def socketUnit (name : String) : GeneratedFile :=
  ⟨some ⟨["etc", "systemd", "system", name ++ ".socket"]⟩,
    "[Unit]\nDescription=" ++ name ++ " socket (production)\n"⟩

/-- Two deployables on an empty host. -/
def checkout : Owner :=
  ⟨"checkout", .scaffold⟩

def billing : Owner :=
  ⟨"billing", .scaffold⟩

def twoDeployables : Host where
  disk := []
  config owner := ⟨some [serviceUnit owner.deployable, socketUnit owner.deployable], []⟩
  installed := []

/-- Installing the second deployable with `--prune` removes the units of the first. -/
theorem not_allSpared_twoDeployables :
    ¬ AllSpared ⟨[]⟩ twoDeployables
      [.command checkout ⟨false, true, false, false⟩ .none,
        .command billing ⟨true, true, false, false⟩ .none] := by
  intro hspared
  let first := Event.command checkout ⟨false, true, false, false⟩ .none
  let path : Path := ⟨["etc", "systemd", "system", "checkout.service"]⟩
  have hthere := hspared [first] billing ⟨true, true, false, false⟩ .none [] rfl checkout path
    (by decide) ⟨by decide, by decide, by decide⟩
  have hstale : Stale ⟨[]⟩ [serviceUnit "billing", socketUnit "billing"]
      (twoDeployables.after ⟨[]⟩ [first]).disk path :=
    ⟨⟨_, rfl, (serviceUnit "checkout").containsText_contents⟩,
      ⟨⟨["etc", "systemd", "system"]⟩, rfl, by decide⟩, by decide⟩
  have hgone : ((twoDeployables.after ⟨[]⟩ [first]).step ⟨[]⟩
      (.command billing ⟨true, true, false, false⟩ .none)).disk.lookup path = none :=
    command_removes ⟨rfl, rfl, rfl, trivial⟩ hstale
  rw [hgone] at hthere
  cases hthere

end Fraisier.Scaffold
