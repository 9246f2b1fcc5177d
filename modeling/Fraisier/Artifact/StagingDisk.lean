import Fraisier.Artifact.Adapters
import Fraisier.Effect.Conditions
import Fraisier.SelfUpgrade.BinDir

/-!
# A disk that artifacts are staged on

Every call takes place at a time of its own and any of them may fail: a removal that fails may
have removed a part, a write that fails may leave anything of the file, and a program may write
anything where it is told to. `files_spares` and `hosted_shrinks` say what a call leaves alone.
-/

namespace Fraisier.Artifact

open Fraisier.Core Fraisier.Effect
open Fraisier.Data (Node PathBuf)
open Fraisier.SelfUpgrade (Disk File)

/-! ## Calls -/

/-- What becomes of a call at each time: why it fails, which part of it is done all the same,
what a write that fails leaves, what a program answers, what a download and `git` write, and what
a server answers. -/
structure Fate where
  fails : Nat → Option String
  part : Nat → PathBuf → Bool
  left : Nat → Option (List UInt8)
  program : Nat → Except AdapterError Captured
  body : Nat → List UInt8
  tree : Nat → List (List String × Node PathBuf File)
  response : Nat → Except String Response

def missing : String := "No such file or directory (os error 2)"

def fileExists : String := "File exists (os error 17)"

def notDirectory : String := "Not a directory (os error 20)"

def isDirectory : String := "Is a directory (os error 21)"

def invalidArgument : String := "Invalid argument (os error 22)"

def notEmpty : String := "Directory not empty (os error 39)"

/-- The directories above a path, and the path. -/
def prefixes (path : PathBuf) : List PathBuf :=
  (List.range path.parts.length).map fun n => { path with parts := path.parts.take (n + 1) }

/-- What stands at or below a path. -/
def under (s : Disk) (base : PathBuf) : List PathBuf :=
  s.entries.keys.filter base.within

def ensureAll (s : Disk) (paths : List PathBuf) : Disk :=
  paths.foldl Disk.ensured s

def removeAll (s : Disk) (paths : List PathBuf) : Disk :=
  paths.foldl Disk.remove s

/-- Put what stood at a path below a source on a disk to where it belongs below a target. -/
def putMoved (s : Disk) (source target : PathBuf) (s' : Disk) (path : PathBuf) : Disk :=
  match s.node path with
  | some node => s'.put (target.below (path.parts.drop source.parts.length)) node
  | none => s'

/-- What stands at or below a path is put at and below another one. -/
def moved (s : Disk) (source target : PathBuf) : Disk :=
  (under s source).foldl (putMoved s source target) (removeAll s (under s source))

/-- Write a tree of entries below a directory. -/
def withTree (s : Disk) (dir : PathBuf) (entries : List (List String × Node PathBuf File)) : Disk :=
  entries.foldl (fun s entry => s.put (dir.below entry.1) entry.2) s

/-- A call fails, or does what it does. -/
def Fate.guarded (o : Fate) (s failed done : Disk) : Except String Unit × Disk :=
  match o.fails s.clock with
  | some cause => (.error cause, failed.tick)
  | none => (.ok (), done.tick)

/-- Create a directory and those above it. -/
def createDirAll (o : Fate) (path : PathBuf) (s : Disk) : Except String Unit × Disk :=
  if (prefixes path).any fun dir => (s.node dir).any Node.isFile then (.error notDirectory, s.tick)
  else o.guarded s (ensureAll s ((prefixes path).filter (o.part s.clock)))
    (ensureAll s (prefixes path))

/-- Write a file. -/
def writeFile (o : Fate) (path : PathBuf) (bytes : List UInt8) (s : Disk) :
    Except String Unit × Disk :=
  match s.node (s.destination path) with
  | some (.link _) => (.error invalidArgument, s.tick)
  | some .other => (.error isDirectory, s.tick)
  | _ => o.guarded s ((o.left s.clock).elim s (s.written (s.destination path)))
      (s.written (s.destination path) bytes)

/-- Why nothing can be moved from a path to another one. -/
def renameRefused (s : Disk) (source target : PathBuf) : Option String :=
  match s.node source, s.node target with
  | none, _ => some missing
  | some .other, some .other => if (under s target).length ≤ 1 then none else some notEmpty
  | some .other, some _ => some notDirectory
  | some _, some .other => some isDirectory
  | some _, _ => none

/-- Move what is at a path. -/
def rename (o : Fate) (source target : PathBuf) (s : Disk) : Except String Unit × Disk :=
  match renameRefused s source target with
  | some cause => (.error cause, s.tick)
  | none => o.guarded s s (moved s source target)

/-- The directory that `git` works in. -/
def GitCommand.dir : GitCommand → Option PathBuf → Option PathBuf
  | .clone _ dir, _ => some dir
  | _, cwd => cwd

/-- The disk answers a call. -/
def files (o : Fate) : Handler FileSig Disk
  | .pathExists path, s =>
      ((o.fails s.clock).isNone && (s.node (s.destination path)).isSome, s.tick)
  | .isDir path, s =>
      ((o.fails s.clock).isNone && decide (s.node (s.destination path) = some .other), s.tick)
  | .readDir path, s =>
      match o.fails s.clock with
      | some cause => (.error cause, s.tick)
      | none => (.ok ((s.names (s.destination path)).map .ok), s.tick)
  | .createDirAll path, s => createDirAll o path s
  | .copy src dst, s =>
      match s.node (s.destination src) with
      | some (.file file) => writeFile o dst file.bytes s
      | some _ => (.error invalidArgument, s.tick)
      | none => (.error missing, s.tick)
  | .removeDirAll path, s =>
      match s.node path with
      | some (.file _) => (.error notDirectory, s.tick)
      | some (.link _) => o.guarded s s (s.remove path)
      | some .other => o.guarded s (removeAll s ((under s path).filter (o.part s.clock)))
          (removeAll s (under s path))
      | none => (.error missing, s.tick)
  | .removeFile path, s =>
      match s.node path with
      | some .other => (.error isDirectory, s.tick)
      | some _ => o.guarded s s (s.remove path)
      | none => (.error missing, s.tick)
  | .rename source target, s => rename o source target s
  | .symlink target path, s =>
      match s.node path with
      | some _ => (.error fileExists, s.tick)
      | none => o.guarded s s (s.put path (.link (path.linked target)))
  | .git command cwd, s =>
      (o.program s.clock,
        ((command.dir cwd).elim s fun dir => withTree s dir (o.tree s.clock)).tick)

/-- Whether a program ended with success. -/
def Fate.succeeds (o : Fate) (time : Nat) : Bool :=
  match o.program time with
  | .ok captured => captured.succeeded
  | .error _ => false

/-- What a program leaves on the disk of a host: the ones that staging runs and their options. -/
def ran (o : Fate) (args : List String) (s : Disk) : Disk :=
  match args with
  | ["-p", dir] =>
      if o.succeeds s.clock then ensureAll s (prefixes (.ofText dir))
      else ensureAll s ((prefixes (.ofText dir)).filter (o.part s.clock))
  | ["-sfn", target, path] =>
      let path := PathBuf.ofText path
      let name := (PathBuf.ofText target).fileName.getD ""
      let link := if s.node path = some .other then path.below [name] else path
      if o.succeeds s.clock then s.put link (.link (link.linked (.ofText target))) else s
  | ["-Tf", source, target] =>
      if o.succeeds s.clock ∧ renameRefused s (.ofText source) (.ofText target) = none then
        moved s (.ofText source) (.ofText target)
      else s
  | ["-fSL", "--retry", "3", _, "-o", path] =>
      match s.node (s.destination (.ofText path)) with
      | some (.link _) | some .other => s
      | _ =>
          if o.succeeds s.clock then s.written (s.destination (.ofText path)) (o.body s.clock)
          else (o.left s.clock).elim s (s.written (s.destination (.ofText path)))
  | _ => s

/-- A host answers a call. -/
def hosted (o : Fate) : Handler HostSig Disk
  | .run _ args, s => (o.program s.clock, (ran o args s).tick)
  | .client _, s => o.guarded s s s
  | .get _, s => (o.response s.clock, s.tick)
  | .sleep _, s => ((), s.tick)
  | .createDirAll path, s => createDirAll o (.ofText path) s
  | .write path bytes, s => writeFile o (.ofText path) bytes s

/-! ## Files and links -/

/-- The file or the link at a path. -/
def leaf (s : Disk) (path : PathBuf) : Option (Node PathBuf File) :=
  match s.node path with
  | some .other => none
  | node => node

/-- Outside some paths, every file and every link is what it was. -/
def Spares (touched : PathBuf → Prop) (s s' : Disk) : Prop :=
  ∀ x, ¬ touched x → leaf s' x = leaf s x

/-- Outside some paths every file and every link is what it was, and no link is new. -/
structure Shrinks (touched : PathBuf → Prop) (s s' : Disk) : Prop where
  spares : Spares touched s s'
  links : ∀ x target, s'.node x = some (.link target) → s.node x = some (.link target)

section Leaves

variable {s s' s'' : Disk} {path x : PathBuf} {touched touched' : PathBuf → Prop}

theorem Spares.refl (touched : PathBuf → Prop) (s : Disk) : Spares touched s s :=
  fun _ _ => rfl

/-- What two changes spare, both of them spare. -/
theorem Spares.trans (h : Spares touched s s') (h' : Spares touched s' s'') :
    Spares touched s s'' :=
  fun x hx => (h' x hx).trans (h x hx)

/-- Less is spared where more may be touched. -/
theorem Spares.mono (h : Spares touched s s') (himp : ∀ x, touched x → touched' x) :
    Spares touched' s s' :=
  fun x hx => h x fun htouched => hx (himp x htouched)

theorem Shrinks.refl (touched : PathBuf → Prop) (s : Disk) : Shrinks touched s s :=
  ⟨.refl _ s, fun _ _ h => h⟩

/-- What shrinks twice has shrunk. -/
theorem Shrinks.trans (h : Shrinks touched s s') (h' : Shrinks touched s' s'') :
    Shrinks touched s s'' :=
  ⟨h.spares.trans h'.spares, fun x target hlink => h.links x target (h'.links x target hlink)⟩

theorem Shrinks.mono (h : Shrinks touched s s') (himp : ∀ x, touched x → touched' x) :
    Shrinks touched' s s' :=
  ⟨h.spares.mono himp, h.links⟩

/-- Time takes nothing away. -/
theorem Shrinks.tick (h : Shrinks touched s s') : Shrinks touched s s'.tick :=
  ⟨h.spares, h.links⟩

/-- A link is seen as it stands. -/
theorem leaf_eq_link {target : PathBuf} :
    leaf s x = some (.link target) ↔ s.node x = some (.link target) := by
  rw [leaf]
  split
  next h => simp [h]
  next => rfl

/-- Where no link is new, a path leads where it led, or to what was touched. -/
theorem Shrinks.destination (h : Shrinks touched s s') (hpath : touched (s.destination path)) :
    touched (s'.destination path) := by
  have hend : ∀ n e, (Node.trail s'.node n e).getLastD e = (Node.trail s.node n e).getLastD e ∨
      touched ((Node.trail s'.node n e).getLastD e) := by
    intro n
    induction n with
    | zero => exact fun e => .inl rfl
    | succ n ih =>
        intro e
        by_cases hlink : ∃ target, s'.node e = some (.link target)
        · obtain ⟨target, hlink⟩ := hlink
          rw [Node.getLastD_trail_of_link hlink,
            Node.getLastD_trail_of_link (h.links e target hlink)]
          exact ih target
        · rw [Node.trail_of_not_link (not_exists.mp hlink)]
          by_cases htouched : touched e
          · exact .inr htouched
          · have hnot : ∀ target, s.node e ≠ some (.link target) := fun target htarget =>
              hlink ⟨target, leaf_eq_link.mp ((h.spares e htouched).trans
                (leaf_eq_link.mpr htarget))⟩
            rw [Node.trail_of_not_link hnot]
            exact .inl rfl
  obtain heq | htouched := hend Node.maxLinks path
  · rw [Disk.destination, heq]
    exact hpath
  · exact htouched

/-- What is put at a path that may be touched spares the rest. -/
theorem spares_put {node : Node PathBuf File} (hpath : touched path) :
    Spares touched s (s.put path node) := fun x hx => by
  have hne : x ≠ path := fun heq => hx (heq ▸ hpath)
  rw [leaf, leaf, Disk.node_put_of_ne hne]

/-- A file that is written makes no link. -/
theorem shrinks_written {bytes : List UInt8} (hpath : touched path) :
    Shrinks touched s (s.written path bytes) := by
  refine ⟨spares_put hpath, fun x target hlink => ?_⟩
  by_cases hx : x = path
  · subst hx
    cases Disk.node_put.symm.trans hlink
  · exact (Disk.node_put_of_ne hx).symm.trans hlink

/-- What is removed makes no link. -/
theorem shrinks_remove (hpath : touched path) : Shrinks touched s (s.remove path) := by
  have hnode : ∀ x, x ≠ path → (s.remove path).node x = s.node x := fun x hx =>
    Disk.node_remove_of_ne hx
  refine ⟨fun x hx => ?_, fun x target hlink => ?_⟩
  · rw [leaf, leaf, hnode x fun heq => hx (heq ▸ hpath)]
  · by_cases hx : x = path
    · subst hx
      cases Disk.node_remove.symm.trans hlink
    · exact (hnode x hx).symm.trans hlink

/-- A directory is neither a file nor a link. -/
theorem shrinks_ensured : Shrinks touched s (s.ensured path) := by
  refine ⟨fun x _ => ?_, fun x target => (s.links_ensured path x target).mp⟩
  rw [Disk.ensured]
  split
  next hnone =>
    by_cases hx : x = path
    · subst hx
      rw [leaf, leaf, Disk.node_put, hnone]
    · rw [leaf, leaf, Disk.node_put_of_ne hx]
  next => rfl

/-- Directories that are created are no files and no links. -/
theorem shrinks_ensureAll (paths : List PathBuf) : Shrinks touched s (ensureAll s paths) := by
  induction paths generalizing s with
  | nil => exact .refl _ s
  | cons path paths ih => exact shrinks_ensured.trans ih

/-- Paths that are removed make no link. -/
theorem shrinks_removeAll {paths : List PathBuf} (h : ∀ path ∈ paths, touched path) :
    Shrinks touched s (removeAll s paths) := by
  induction paths generalizing s with
  | nil => exact .refl _ s
  | cons path paths ih =>
      obtain ⟨hpath, hpaths⟩ := List.forall_mem_cons.mp h
      exact (shrinks_remove hpath).trans (ih hpaths)

theorem within_of_mem_under {base : PathBuf} (h : x ∈ under s base) : base.within x = true :=
  (List.mem_filter.mp h).2

/-- A move touches what it takes and where it puts it, and nothing else. -/
theorem spares_moved {source target : PathBuf} (hsource : ∀ x, source.within x = true → touched x)
    (htarget : ∀ x, target.within x = true → touched x) :
    Spares touched s (moved s source target) := by
  have hput : ∀ (paths : List PathBuf) (s' : Disk),
      Spares touched s' (paths.foldl (putMoved s source target) s') := by
    intro paths
    induction paths with
    | nil => exact .refl _
    | cons path paths ih =>
        intro s'
        refine Spares.trans ?_ (ih _)
        rw [putMoved]
        split
        · exact spares_put (htarget _ (target.within_below _))
        · exact .refl _ s'
  exact (shrinks_removeAll fun x hx => hsource x (within_of_mem_under hx)).spares.trans (hput _ _)

/-- A program that writes below a directory touches nothing else. -/
theorem spares_withTree {dir : PathBuf} (hdir : ∀ x, dir.within x = true → touched x)
    (entries : List (List String × Node PathBuf File)) :
    Spares touched s (withTree s dir entries) := by
  induction entries generalizing s with
  | nil => exact .refl _ s
  | cons entry entries ih => exact (spares_put (hdir _ (dir.within_below _))).trans ih

end Leaves

/-! ## What a call leaves alone -/

section Calls

variable {o : Fate} {s s' : Disk} {touched : PathBuf → Prop}

theorem Fate.guarded_cases {P : Disk → Prop} {failed done : Disk} (hfailed : P failed.tick)
    (hdone : P done.tick) : P (o.guarded s failed done).2 := by
  rw [Fate.guarded]
  split
  · exact hfailed
  · exact hdone

/-- Creating a directory touches no file, whatever fails. -/
theorem createDirAll_shrinks {path : PathBuf} : Shrinks touched s (createDirAll o path s).2 := by
  rw [createDirAll]
  split
  · exact (Shrinks.refl _ s).tick
  · exact Fate.guarded_cases (shrinks_ensureAll _).tick (shrinks_ensureAll _).tick

/-- A write touches what its path leads to, whatever it leaves there. -/
theorem writeFile_shrinks {path : PathBuf} {bytes : List UInt8}
    (hpath : touched (s.destination path)) : Shrinks touched s (writeFile o path bytes s).2 := by
  rw [writeFile]
  split
  · exact (Shrinks.refl _ s).tick
  · exact (Shrinks.refl _ s).tick
  · refine Fate.guarded_cases ?_ (shrinks_written hpath).tick
    cases o.left s.clock with
    | none => exact (Shrinks.refl _ s).tick
    | some left => exact (shrinks_written hpath).tick

/-- A rename touches what it moves and where it moves it. -/
theorem rename_spares {source target : PathBuf} (hsource : ∀ x, source.within x = true → touched x)
    (htarget : ∀ x, target.within x = true → touched x) :
    Spares touched s (rename o source target s).2 := by
  rw [rename]
  split
  · exact .refl _ s
  · exact Fate.guarded_cases (P := Spares touched s) (.refl _ s) (spares_moved hsource htarget)

/-- What a call to the disk may touch. -/
def FileCall.Touches (s : Disk) : FileCall → PathBuf → Prop
  | .copy _ dst, x => x = s.destination dst
  | .removeDirAll path, x => path.within x = true
  | .removeFile path, x => x = path
  | .rename source target, x => source.within x = true ∨ target.within x = true
  | .symlink _ path, x => x = path
  | .git command cwd, x => ∃ dir, command.dir cwd = some dir ∧ dir.within x = true
  | _, _ => False

/-- Whether a call may make a link. -/
def FileCall.mayLink : FileCall → Bool
  | .rename _ _ | .symlink _ _ | .git _ _ => true
  | _ => false

/-- A call that makes no link touches what it says and makes none. -/
theorem files_shrinks (o : Fate) {c : FileCall} (hc : c.mayLink = false) (s : Disk) :
    Shrinks (c.Touches s) s (files o c s).2 := by
  have hsame : ∀ touched, Shrinks touched s s.tick := fun touched => (Shrinks.refl touched s).tick
  cases c with
  | rename | symlink | git => cases hc
  | pathExists | isDir => exact hsame _
  | readDir path =>
      simp only [files]
      split <;> exact hsame _
  | createDirAll path => exact createDirAll_shrinks
  | copy src dst =>
      simp only [files]
      split
      · exact writeFile_shrinks rfl
      · exact hsame _
      · exact hsame _
  | removeDirAll path =>
      simp only [files]
      split
      · exact hsame _
      · exact Fate.guarded_cases (hsame _) (shrinks_remove path.within_self).tick
      · refine Fate.guarded_cases (shrinks_removeAll fun x hx => ?_).tick
          (shrinks_removeAll fun x hx => within_of_mem_under hx).tick
        exact within_of_mem_under (List.mem_of_mem_filter hx)
      · exact hsame _
  | removeFile path =>
      simp only [files]
      split
      · exact hsame _
      · have hself : (FileCall.removeFile path).Touches s path := rfl
        exact Fate.guarded_cases (hsame _) (shrinks_remove hself).tick
      · exact hsame _

/-- A call to the disk touches nothing else. -/
theorem files_spares (o : Fate) (c : FileCall) (s : Disk) :
    Spares (c.Touches s) s (files o c s).2 := by
  cases hc : c.mayLink with
  | false => exact (files_shrinks o hc s).spares
  | true =>
      cases c with
      | rename source target => exact rename_spares (fun _ => .inl) fun _ => .inr
      | symlink target path =>
          simp only [files]
          split
          · exact .refl _ s
          · exact Fate.guarded_cases (P := Spares _ s) (.refl _ s) (spares_put rfl)
      | git command cwd =>
          simp only [files]
          cases hdir : command.dir cwd with
          | none => exact .refl _ s
          | some dir => exact spares_withTree (fun x hx => ⟨dir, hdir, hx⟩) _
      | _ => cases hc

/-- What a program touches that is run on a host. -/
def argsTouch (s : Disk) (args : List String) (x : PathBuf) : Prop :=
  match args with
  | ["-sfn", _, path] => (PathBuf.ofText path).within x = true
  | ["-Tf", source, target] =>
      (PathBuf.ofText source).within x = true ∨ (PathBuf.ofText target).within x = true
  | ["-fSL", "--retry", "3", _, "-o", path] => x = s.destination (.ofText path)
  | _ => False

/-- What a call to a host may touch. -/
def HostCall.Touches (s : Disk) : HostCall → PathBuf → Prop
  | .run _ args, x => argsTouch s args x
  | .write path _, x => x = s.destination (.ofText path)
  | _, _ => False

/-- Whether a call to a host may make a link. -/
def HostCall.mayLink : HostCall → Bool
  | .run _ ["-sfn", _, _] | .run _ ["-Tf", _, _] => true
  | _ => false

/-- A command of a host that makes no link touches what it says and makes none. -/
theorem hosted_shrinks (o : Fate) {c : HostCall} (hc : c.mayLink = false) (s : Disk) :
    Shrinks (c.Touches s) s (hosted o c s).2 := by
  cases c with
  | client => exact Fate.guarded_cases (Shrinks.refl _ s).tick (Shrinks.refl _ s).tick
  | get | sleep => exact (Shrinks.refl _ s).tick
  | createDirAll path => exact createDirAll_shrinks
  | write path bytes => exact writeFile_shrinks rfl
  | run program args =>
      refine Shrinks.tick ?_
      unfold ran
      split
      · split <;> exact shrinks_ensureAll _
      · cases hc
      · cases hc
      · split
        · exact .refl _ s
        · exact .refl _ s
        · split
          · exact shrinks_written rfl
          · cases o.left s.clock with
            | none => exact .refl _ s
            | some left => exact shrinks_written rfl
      · exact .refl _ s

end Calls

/-! ## Time -/

section Time

variable {o : Fate} {s : Disk} {β : Type}

theorem clock_foldl {f : Disk → β → Disk} (hf : ∀ s x, (f s x).clock = s.clock) (xs : List β) :
    (xs.foldl f s).clock = s.clock := by
  induction xs generalizing s with
  | nil => rfl
  | cons x xs ih => exact ih.trans (hf s x)

@[simp] theorem clock_removeAll (paths : List PathBuf) :
    (removeAll s paths).clock = s.clock :=
  clock_foldl (fun _ _ => Disk.clock_remove) paths

@[simp] theorem clock_ensureAll (paths : List PathBuf) :
    (ensureAll s paths).clock = s.clock :=
  clock_foldl Disk.clock_ensured paths

@[simp] theorem clock_withTree (dir : PathBuf)
    (entries : List (List String × Node PathBuf File)) : (withTree s dir entries).clock = s.clock :=
  clock_foldl (fun _ _ => Disk.clock_put) entries

@[simp] theorem clock_moved (source target : PathBuf) :
    (moved s source target).clock = s.clock := by
  refine (clock_foldl (fun s' path => ?_) _).trans (clock_removeAll _)
  rw [putMoved]
  split <;> rfl

/-- A call takes one unit of time, whether it works or not. -/
theorem clock_guarded {failed done : Disk} (hfailed : failed.clock = s.clock)
    (hdone : done.clock = s.clock) : (o.guarded s failed done).2.clock = s.clock + 1 := by
  rw [Fate.guarded]
  split
  · rw [Disk.clock_tick, hfailed]
  · rw [Disk.clock_tick, hdone]

theorem clock_writeFile (path : PathBuf) (bytes : List UInt8) :
    (writeFile o path bytes s).2.clock = s.clock + 1 := by
  rw [writeFile]
  split
  · rfl
  · rfl
  · refine clock_guarded ?_ rfl
    cases o.left s.clock <;> rfl

/-- A call takes place at a time of its own. -/
theorem clock_files (o : Fate) (c : FileCall) (s : Disk) :
    (files o c s).2.clock = s.clock + 1 := by
  cases c with
  | pathExists | isDir => rfl
  | readDir path =>
      simp only [files]
      split <;> rfl
  | createDirAll path =>
      simp only [files, createDirAll]
      split
      · rfl
      · exact clock_guarded (clock_ensureAll _) (clock_ensureAll _)
  | copy src dst =>
      simp only [files]
      split
      · exact clock_writeFile dst _
      · rfl
      · rfl
  | removeDirAll path =>
      simp only [files]
      split
      · rfl
      · exact clock_guarded rfl rfl
      · exact clock_guarded (clock_removeAll _) (clock_removeAll _)
      · rfl
  | removeFile path =>
      simp only [files]
      split
      · rfl
      · exact clock_guarded rfl rfl
      · rfl
  | rename source target =>
      simp only [files, rename]
      split
      · rfl
      · exact clock_guarded rfl (clock_moved source target)
  | symlink target path =>
      simp only [files]
      split
      · rfl
      · exact clock_guarded rfl rfl
  | git command cwd =>
      simp only [files]
      cases command.dir cwd with
      | none => rfl
      | some dir => exact congrArg (· + 1) (clock_withTree dir _)

end Time

/-! ## Programs -/

section Programs

variable {o : Fate} {s s' : Disk} {touched : PathBuf → Prop} {α : Type}

/-- A call to the disk that touches nothing but some paths and makes no link. -/
def FileCall.Within (s : Disk) (touched : PathBuf → Prop) (c : FileCall) : Prop :=
  c.mayLink = false ∧ ∀ x, c.Touches s x → touched x

/-- A call to a host that touches nothing but some paths and makes no link. -/
def HostCall.Within (s : Disk) (touched : PathBuf → Prop) (c : HostCall) : Prop :=
  c.mayLink = false ∧ ∀ x, c.Touches s x → touched x

/-- A call that stays within what may be touched keeps to it after others that did. -/
theorem FileCall.Within.shrinks {c : FileCall} (hc : c.Within s touched)
    (h : Shrinks touched s s') : Shrinks touched s (files o c s').2 := by
  obtain ⟨hlink, htouches⟩ := hc
  refine h.trans ((files_shrinks o hlink s').mono fun x hx => ?_)
  cases c with
  | copy src dst =>
      rw [show x = s'.destination dst from hx]
      exact h.destination (htouches _ rfl)
  | removeDirAll | removeFile => exact htouches x hx
  | rename | symlink | git => cases hlink
  | pathExists | isDir | readDir | createDirAll => exact hx.elim

/-- A command that stays within what may be touched keeps to it after others that did. -/
theorem HostCall.Within.shrinks {c : HostCall} (hc : c.Within s touched)
    (h : Shrinks touched s s') : Shrinks touched s (hosted o c s').2 := by
  obtain ⟨hlink, htouches⟩ := hc
  refine h.trans ((hosted_shrinks o hlink s').mono fun x hx => ?_)
  cases c with
  | write path bytes =>
      rw [show x = s'.destination (.ofText path) from hx]
      exact h.destination (htouches _ rfl)
  | run program args =>
      simp only [HostCall.Touches, argsTouch] at hx
      split at hx
      · cases hlink
      · cases hlink
      · rw [hx]
        exact h.destination (htouches _ rfl)
      · exact hx.elim
  | client | get | sleep | createDirAll => exact hx.elim

/-- A program touches what its calls touch. -/
theorem files_wp {p : Prog FileSig α} (hp : p.Issues (FileCall.Within s touched)) :
    wp (files o) Eq Guarantee.any p (fun _ s' => Shrinks touched s s') s :=
  hp.wp (fun _ _ hc h => hc.shrinks h) (.refl _ s)

/-- A program whose commands stay within what may be touched keeps to it. -/
theorem hosted_wp {p : Prog HostSig α} (hp : p.Issues (HostCall.Within s touched)) :
    wp (hosted o) Eq Guarantee.any p (fun _ s' => Shrinks touched s s') s :=
  hp.wp (fun _ _ hc h => hc.shrinks h) (.refl _ s)

end Programs

end Fraisier.Artifact
