import Mathlib.Data.List.Dedup
import Mathlib.Data.List.Lex
import Mathlib.Data.String.Basic
import Fraisier.Data.Text

/-!
# Installing generated files

`scaffold install` and `scheduled install` write the files a configuration generates below a
root, and with `--prune` remove those that are stale: files of the directories they write to
that carry the marker and are not among the generated ones.
-/

namespace Fraisier.Scaffold

open Fraisier.Data

/-- An absolute path, by its components. -/
structure Path where
  components : List String
deriving DecidableEq

/-- The directory a path is in. The root is in none. -/
def Path.parent (path : Path) : Option Path :=
  if path.components.isEmpty then none else some ⟨path.components.dropLast⟩

/-- The order of paths. -/
def Path.ble (a b : Path) : Bool :=
  a.components ≤ b.components

/-- Resolve an absolute destination below a root. -/
def underRoot (root dest : Path) : Path :=
  ⟨root.components ++ dest.components⟩

/-- The regular files below a root, by their paths. -/
abbrev Disk : Type :=
  List (Path × String)

/-- What goes wrong with files: which cannot be read, and the error of a directory that
cannot be scanned, of a file that cannot be written, with the text that is left in it, and of
one that cannot be removed. -/
structure Faults where
  read : Path → Bool
  scan : Path → Option String
  write : Path → Option (String × Option String)
  remove : Path → Option String

/-- Nothing goes wrong. -/
def Faults.none : Faults :=
  ⟨fun _ => false, fun _ => .none, fun _ => .none, fun _ => .none⟩

/-- Errors of the installer, each at its path. -/
inductive ScaffoldError where
  | read (path : Path) (source : String)
  | write (path : Path) (source : String)
deriving DecidableEq

/-- The header line every generated file starts with. -/
def marker : String :=
  "fraisier-generated: do not edit by hand (regenerate with `fraisier scaffold`)"

/-- Prepend the marker comment to a rendered body. -/
def withHeader (body : String) : String :=
  "# " ++ marker ++ "\n" ++ body

/-- One generated file: where it is installed, if it is, and its body. -/
structure GeneratedFile where
  installDest : Option Path
  body : String
deriving DecidableEq

/-- The contents of a generated file: the header comes first. -/
def GeneratedFile.contents (file : GeneratedFile) : String :=
  withHeader file.body

/-- Every generated file carries the marker. -/
theorem GeneratedFile.containsText_contents (file : GeneratedFile) :
    containsText file.contents marker = true := by
  refine List.any_eq_true.mpr ⟨marker.toList ++ ("\n" ++ file.body).toList, ?_, ?_⟩
  · refine (List.mem_tails _ _).mpr ⟨"# ".toList, ?_⟩
    simp [contents, withHeader]
  · exact List.isPrefixOf_iff_prefix.mpr (List.prefix_append _ _)

/-! ## File operations -/

section Files

variable (faults : Faults)

/-- Read a file. -/
def readFile (disk : Disk) (path : Path) : Option String :=
  if faults.read path then .none else disk.lookup path

/-- Write a file, with the directories above it. -/
def writeFile (disk : Disk) (path : Path) (contents : String) :
    Except ScaffoldError Unit × Disk :=
  match faults.write path with
  | .none => (.ok (), insertEntry disk path contents)
  | .some (source, .none) => (.error (.write path source), disk)
  | .some (source, .some left) => (.error (.write path source), insertEntry disk path left)

/-- Remove a file. -/
def removeFile (disk : Disk) (path : Path) : Except ScaffoldError Unit × Disk :=
  match faults.remove path, disk.lookup path with
  | .some source, _ => (.error (.write path source), disk)
  | .none, .none => (.error (.write path "No such file or directory"), disk)
  | .none, .some _ => (.ok (), disk.filter fun e => e.1 != path)

/-- Whether a file carries the marker. -/
def isFraisierGenerated (disk : Disk) (path : Path) : Bool :=
  (readFile faults disk path).any fun contents => containsText contents marker

/-- The entries of a directory. -/
def readDir (disk : Disk) (dir : Path) : Except ScaffoldError (List Path) :=
  match faults.scan dir with
  | .some source => .error (.read dir source)
  | .none => .ok ((disk.map Prod.fst).dedup.filter fun path => path.parent == some dir)

end Files

/-! ## The installer -/

section Installer

variable (faults : Faults) (root : Path)

/-- The rooted destinations that are installed. -/
def installTargets (files : List GeneratedFile) : List Path :=
  files.filterMap fun file => file.installDest.map fun dest => underRoot root dest

/-- Install the files that have a destination. -/
def install : List GeneratedFile → Disk → Except ScaffoldError (List Path) × Disk
  | [], disk => (.ok [], disk)
  | file :: files, disk =>
      match file.installDest with
      | none => install files disk
      | some dest =>
          match writeFile faults disk (underRoot root dest) file.contents with
          | (.error error, disk) => (.error error, disk)
          | (.ok (), disk) =>
              match install files disk with
              | (.error error, disk) => (.error error, disk)
              | (.ok installed, disk) => (.ok ((underRoot root dest) :: installed), disk)

/-- The stale files of directories: those that carry the marker and are not current. -/
def staleIn (current : List Path) (disk : Disk) :
    List Path → Except ScaffoldError (List Path)
  | [] => .ok []
  | dir :: dirs => do
      let entries ← readDir faults disk dir
      let rest ← staleIn current disk dirs
      return (entries.filter fun path =>
        !current.contains path && isFraisierGenerated faults disk path) ++ rest

/-- Compute the stale files of the install directories. -/
def prunePlan (files : List GeneratedFile) (disk : Disk) : Except ScaffoldError (List Path) :=
  let current := installTargets root files
  let dirs := (current.filterMap Path.parent).dedup.mergeSort Path.ble
  (staleIn faults current disk dirs).map fun stale => stale.mergeSort Path.ble

/-- Remove stale files. -/
def prune : List Path → Disk → Except ScaffoldError Unit × Disk
  | [], disk => (.ok (), disk)
  | path :: stale, disk =>
      match removeFile faults disk path with
      | (.error error, disk) => (.error error, disk)
      | (.ok (), disk) => prune stale disk

/-- How an installed destination compares to what would be generated. -/
inductive Drift where
  | absent
  | identical
  | drifted
deriving DecidableEq

/-- Classify the files that have a destination. -/
def classify (files : List GeneratedFile) (disk : Disk) : List (GeneratedFile × Path × Drift) :=
  files.filterMap fun file => file.installDest.map fun dest =>
    let drift := match readFile faults disk (underRoot root dest) with
      | none => Drift.absent
      | some existing => if existing = file.contents then .identical else .drifted
    (file, underRoot root dest, drift)

/-! ## The commands -/

/-- The flags of an install command. -/
structure Flags where
  prune : Bool
  apply : Bool
  dryRun : Bool
  force : Bool
deriving DecidableEq

/-- What an install command reports. -/
inductive Report where
  | plan (install : List (Path × Option Drift)) (prune : List Path)
  | refused (errors : List String)
  | drifted (paths : List Path)
  | applied (installed pruned : List Path)
deriving DecidableEq

/-- The prune plan of a command that prunes. -/
def planned (flags : Flags) (files : List GeneratedFile) (disk : Disk) :
    Except ScaffoldError (List Path) :=
  if flags.prune then prunePlan faults root files disk else .ok []

/-- Install, then prune what was planned. -/
def applyPlan (flags : Flags) (files : List GeneratedFile) (stale : List Path) (disk : Disk) :
    Except ScaffoldError Report × Disk :=
  match install faults root files disk with
  | (.error error, disk) => (.error error, disk)
  | (.ok installed, disk) =>
      if flags.prune then
        match prune faults stale disk with
        | (.error error, disk) => (.error error, disk)
        | (.ok (), disk) => (.ok (.applied installed stale), disk)
      else (.ok (.applied installed []), disk)

/-- `scaffold install`. -/
def scaffoldInstall (flags : Flags) (files : List GeneratedFile) (disk : Disk) :
    Except ScaffoldError Report × Disk :=
  match planned faults root flags files disk with
  | .error error => (.error error, disk)
  | .ok stale =>
      if flags.dryRun || !flags.apply then
        (.ok (.plan ((installTargets root files).map fun path => (path, none)) stale), disk)
      else applyPlan faults root flags files stale disk

/-- `scheduled install`: refused for a configuration with errors and, unless it is forced, for
units that drifted. Only what is absent or drifted is written. -/
def scheduledInstall (flags : Flags) (errors : List String) (files : List GeneratedFile)
    (disk : Disk) : Except ScaffoldError Report × Disk :=
  if !errors.isEmpty then (.ok (.refused errors), disk)
  else
    let drift := classify faults root files disk
    let drifted := (drift.filter fun e => e.2.2 == .drifted).map fun e => e.2.1
    match planned faults root flags files disk with
    | .error error => (.error error, disk)
    | .ok stale =>
        if flags.dryRun || !flags.apply then
          (.ok (.plan (drift.map fun e => (e.2.1, some e.2.2)) stale), disk)
        else if !drifted.isEmpty && !flags.force then (.ok (.drifted drifted), disk)
        else
          let toInstall := (drift.filter fun e =>
            e.2.2 == .absent || (e.2.2 == .drifted && flags.force)).map fun e => e.1
          applyPlan faults root flags toInstall stale disk

end Installer

end Fraisier.Scaffold
