import Mathlib.Data.List.AList
import Fraisier.Data.Links
import Fraisier.Effect.Logic
import Fraisier.SelfUpgrade.Apply

/-!
# A directory of binaries

A disk with a clock, on which upgrades run. Every call takes place at a time of its own, any of
them may fail, and a write that fails may leave anything of the file. What is written later is
newer. The lemmas say what each operation of a layout leaves.
-/

namespace Fraisier.SelfUpgrade

open Fraisier.Effect
open Fraisier.Data (Node PathBuf)

/-- A file: what is in it, and when it was written. -/
structure File where
  bytes : List UInt8
  modified : Nat
deriving DecidableEq

/-- The entries of a disk, and the time. Paths are compared by their components. -/
structure Disk where
  entries : AList fun _ : PathBuf => Node PathBuf File
  clock : Nat

namespace Disk

/-- What stands at a path. -/
def node (s : Disk) (path : PathBuf) : Option (Node PathBuf File) :=
  s.entries.lookup path

/-- Put something at a path. -/
def put (s : Disk) (path : PathBuf) (node : Node PathBuf File) : Disk :=
  { s with entries := s.entries.insert path node }

/-- Take away what is at a path. -/
def remove (s : Disk) (path : PathBuf) : Disk :=
  { s with entries := s.entries.erase path }

/-- Let time pass. -/
def tick (s : Disk) : Disk :=
  { s with clock := s.clock + 1 }

/-- Where a path leads to when it is written to. -/
def destination (s : Disk) (path : PathBuf) : PathBuf :=
  (Node.trail s.node Node.maxLinks path).getLastD path

/-- A directory is there, or is created. -/
def ensured (s : Disk) (path : PathBuf) : Disk :=
  match s.node path with
  | none => s.put path .other
  | some _ => s

/-- A path leads to a file, or to nothing yet. -/
def Writable (s : Disk) (path : PathBuf) : Prop :=
  s.node (s.destination path) = none ∨ ∃ file, s.node (s.destination path) = some (.file file)

/-- Write a file now. -/
def written (s : Disk) (path : PathBuf) (bytes : List UInt8) : Disk :=
  s.put path (.file ⟨bytes, s.clock⟩)

/-- The name of an entry in a directory, if it is one. -/
def childName (dir path : PathBuf) : Option String :=
  path.parts.getLast?.filter fun name => path = dir.below [name]

/-- The names of the entries of a directory. -/
def names (s : Disk) (dir : PathBuf) : List String :=
  s.entries.keys.filterMap (childName dir)

end Disk

/-- How a host answers at each time: which calls fail and why, what a write that failed left of
the file, what was fetched, and whether the unit came up. -/
structure Oracle where
  fault : Nat → UpgradeCall → Option String
  left : Nat → Option (List UInt8)
  fetched : Nat → Except String Verified
  healthy : Nat → Bool

def missing : String := "No such file or directory (os error 2)"

def fileExists : String := "File exists (os error 17)"

def isDirectory : String := "Is a directory (os error 21)"

def invalidArgument : String := "Invalid argument (os error 22)"

/-- A call is refused by the disk, fails, or does what it does. -/
def Oracle.guarded {α : Type} (o : Oracle) (c : UpgradeCall) (s : Disk) (refused : Option String)
    (failed : Disk) (done : α × Disk) : Except String α × Disk :=
  match refused with
  | some cause => (.error cause, s.tick)
  | none =>
      match o.fault s.clock c with
      | some cause => (.error cause, failed.tick)
      | none => (.ok done.1, done.2.tick)

/-- The disk and the unit answer a call. -/
def disk (o : Oracle) : Handler UpgradeSig Disk
  | .fetch _, s => (o.fetched s.clock, s.tick)
  | .readLink path, s =>
      match s.node path with
      | some (.link target) => o.guarded (.readLink path) s none s (some target, s)
      | some _ => o.guarded (.readLink path) s (some invalidArgument) s (none, s)
      | none => o.guarded (.readLink path) s none s (none, s)
  | .createDirAll path, s =>
      match s.node path with
      | some (.file _) => o.guarded (.createDirAll path) s (some fileExists) s ((), s)
      | some _ => o.guarded (.createDirAll path) s none s ((), s)
      | none => o.guarded (.createDirAll path) s none s ((), s.put path .other)
  | .write path bytes, s =>
      match s.node (s.destination path) with
      | some (.link _) => o.guarded (.write path bytes) s (some invalidArgument) s ((), s)
      | some .other => o.guarded (.write path bytes) s (some isDirectory) s ((), s)
      | _ => o.guarded (.write path bytes) s none
          ((o.left s.clock).elim s (s.written (s.destination path)))
          ((), s.written (s.destination path) bytes)
  | .setPermissions path mode, s =>
      match s.node (s.destination path) with
      | some _ => o.guarded (.setPermissions path mode) s none s ((), s)
      | none => o.guarded (.setPermissions path mode) s (some missing) s ((), s)
  | .removeFile path, s =>
      match s.node path with
      | some .other => o.guarded (.removeFile path) s (some isDirectory) s ((), s)
      | some _ => o.guarded (.removeFile path) s none s ((), s.remove path)
      | none => o.guarded (.removeFile path) s (some missing) s ((), s)
  | .symlink target path, s =>
      match s.node path with
      | some _ => o.guarded (.symlink target path) s (some fileExists) s ((), s)
      | none =>
          o.guarded (.symlink target path) s none s ((), s.put path (.link (path.linked target)))
  | .rename source target, s =>
      match s.node source, s.node target with
      | none, _ => o.guarded (.rename source target) s (some missing) s ((), s)
      | some _, some .other => o.guarded (.rename source target) s (some isDirectory) s ((), s)
      | some node, _ =>
          o.guarded (.rename source target) s none s ((), (s.remove source).put target node)
  | .readDir path, s => o.guarded (.readDir path) s none s ((s.names path).map .ok, s)
  | .metadata path, s =>
      match s.node path with
      | some (.file file) => o.guarded (.metadata path) s none s (⟨true, some file.modified⟩, s)
      | some _ => o.guarded (.metadata path) s none s (⟨false, none⟩, s)
      | none => o.guarded (.metadata path) s (some missing) s (⟨false, none⟩, s)
  | .restart, s => o.guarded .restart s none s ((), s)
  | .becomesHealthy _ _, s => (o.healthy s.clock, s.tick)
  | .notify _, s => ((), s.tick)

/-! ## Entries -/

section Entries

variable {s s' : Disk} {path other : PathBuf} {node : Node PathBuf File}

@[simp] theorem Disk.node_tick : s.tick.node path = s.node path := rfl

@[simp] theorem Disk.clock_tick : s.tick.clock = s.clock + 1 := rfl

@[simp] theorem Disk.clock_put : (s.put path node).clock = s.clock := rfl

@[simp] theorem Disk.clock_remove : (s.remove path).clock = s.clock := rfl

@[simp] theorem Disk.node_put : (s.put path node).node path = some node :=
  AList.lookup_insert s.entries

theorem Disk.node_put_of_ne (hne : other ≠ path) : (s.put path node).node other = s.node other :=
  AList.lookup_insert_ne hne

@[simp] theorem Disk.node_remove : (s.remove path).node path = none :=
  AList.lookup_erase path s.entries

theorem Disk.node_remove_of_ne (hne : other ≠ path) : (s.remove path).node other = s.node other :=
  AList.lookup_erase_ne hne

/-- What is no link leads to itself. -/
theorem Disk.destination_eq (h : ∀ target, s.node path ≠ some (.link target)) :
    s.destination path = path := by
  rw [destination, Node.trail_of_not_link h]
  rfl

/-- A directory that is created is no link, and replaces none. -/
theorem Disk.links_ensured (s : Disk) (path x target : PathBuf) :
    (s.ensured path).node x = some (.link target) ↔ s.node x = some (.link target) := by
  rw [ensured]
  split
  next hnone =>
    by_cases hx : x = path
    · subst hx
      simp [hnone]
    · rw [node_put_of_ne hx]
  next => rfl

/-- Names below one directory are told apart by their paths. -/
theorem PathBuf.below_injective (dir : PathBuf) {name name' : String}
    (h : dir.below [name] = dir.below [name']) : name = name' := by
  have hparts := congrArg PathBuf.parts h
  simpa [PathBuf.below] using hparts

/-- What is below a directory has the name it was put under. -/
@[simp] theorem PathBuf.fileName_below (dir : PathBuf) {name : String} (hname : name ≠ "..") :
    (dir.below [name]).fileName = some name := by
  simp [PathBuf.fileName, PathBuf.below, hname]

/-- An entry of a directory is what stands at a name below it. -/
theorem Disk.childName_eq_some {dir : PathBuf} {name : String} :
    childName dir path = some name ↔ path = dir.below [name] := by
  unfold childName
  constructor
  · intro h
    obtain ⟨-, hname⟩ := Option.filter_eq_some_iff.mp h
    exact of_decide_eq_true hname
  · rintro rfl
    simp [PathBuf.below]

/-- The entries of a directory are what stands below it. -/
theorem Disk.mem_names {dir : PathBuf} {name : String} :
    name ∈ s.names dir ↔ (s.node (dir.below [name])).isSome = true := by
  rw [names, List.mem_filterMap, node, AList.lookup_isSome]
  constructor
  · rintro ⟨path, hpath, hname⟩
    rw [childName_eq_some.mp hname] at hpath
    exact hpath
  · exact fun h => ⟨_, h, childName_eq_some.mpr rfl⟩

/-- No name is listed twice. -/
theorem Disk.nodup_names (s : Disk) (dir : PathBuf) : (s.names dir).Nodup := by
  refine s.entries.keys_nodup.filterMap fun path path' name hpath hpath' => ?_
  rw [childName_eq_some.mp hpath, childName_eq_some.mp hpath']

end Entries

/-! ## Time -/

/-- Every file was written in the past. -/
def Disk.Timed (s : Disk) : Prop :=
  ∀ path file, s.node path = some (.file file) → file.modified < s.clock

/-- No file was written in the future. -/
def Disk.Current (s : Disk) : Prop :=
  ∀ path file, s.node path = some (.file file) → file.modified ≤ s.clock

section Time

variable {s : Disk} {path : PathBuf} {node : Node PathBuf File}

theorem Disk.Timed.current (h : s.Timed) : s.Current :=
  fun path file hnode => (h path file hnode).le

/-- What is not newer than now is older than what comes next. -/
theorem Disk.Current.tick (h : s.Current) : s.tick.Timed :=
  fun path file hnode => Nat.lt_succ_of_le (h path file hnode)

/-- What is put on a disk is not newer than the disk. -/
theorem Disk.Current.put (h : s.Current)
    (hnode : ∀ file, node = .file file → file.modified ≤ s.clock) : (s.put path node).Current := by
  intro other file hother
  by_cases hne : other = path
  · subst hne
    rw [node_put] at hother
    exact hnode file (Option.some.inj hother)
  · rw [node_put_of_ne hne] at hother
    exact h other file hother

theorem Disk.Current.remove (h : s.Current) : (s.remove path).Current := by
  intro other file hother
  by_cases hne : other = path
  · subst hne
    rw [node_remove] at hother
    cases hother
  · rw [node_remove_of_ne hne] at hother
    exact h other file hother

theorem Disk.Current.written (h : s.Current) (bytes : List UInt8) :
    (s.written path bytes).Current :=
  h.put fun file hfile => by
    cases hfile
    exact le_rfl

/-- Whether a call works or fails, what is on the disk is older than its clock. -/
theorem Oracle.guarded_timed {α : Type} {o : Oracle} {c : UpgradeCall} {refused : Option String}
    {failed : Disk} {done : α × Disk} (hs : s.Current) (hfailed : failed.Current)
    (hdone : done.2.Current) : (o.guarded c s refused failed done).2.Timed := by
  unfold guarded
  split
  · exact hs.tick
  · split
    · exact hfailed.tick
    · exact hdone.tick

/-- Whatever happens on a disk happened in the past. -/
theorem disk_timed (o : Oracle) (c : UpgradeCall) (hs : s.Timed) : (disk o c s).2.Timed := by
  have hs := hs.current
  cases c with
  | fetch | becomesHealthy | notify => exact hs.tick
  | restart | readDir => exact Oracle.guarded_timed hs hs hs
  | readLink | setPermissions | metadata =>
      simp only [disk]
      split <;> exact Oracle.guarded_timed hs hs hs
  | createDirAll path =>
      simp only [disk]
      split
      · exact Oracle.guarded_timed hs hs hs
      · exact Oracle.guarded_timed hs hs hs
      · exact Oracle.guarded_timed hs hs (hs.put fun _ h => by cases h)
  | write path bytes =>
      simp only [disk]
      split
      · exact Oracle.guarded_timed hs hs hs
      · exact Oracle.guarded_timed hs hs hs
      · refine Oracle.guarded_timed hs ?_ (hs.written bytes)
        cases o.left s.clock with
        | none => exact hs
        | some bytes => exact hs.written bytes
  | removeFile path =>
      simp only [disk]
      split
      · exact Oracle.guarded_timed hs hs hs
      · exact Oracle.guarded_timed hs hs hs.remove
      · exact Oracle.guarded_timed hs hs hs
  | symlink target path =>
      simp only [disk]
      split
      · exact Oracle.guarded_timed hs hs hs
      · exact Oracle.guarded_timed hs hs (hs.put fun _ h => by cases h)
  | rename source target =>
      simp only [disk]
      split
      · exact Oracle.guarded_timed hs hs hs
      · exact Oracle.guarded_timed hs hs hs
      · rename_i node hsource _
        refine Oracle.guarded_timed hs hs (hs.remove.put fun file hfile => ?_)
        exact hs source file (hfile ▸ hsource)

end Time

/-! ## What an operation leaves -/

/-- Nothing changed but at some paths. -/
structure Keeps (paths : List PathBuf) (s s' : Disk) : Prop where
  node : ∀ path, path ∉ paths → s'.node path = s.node path
  clock : s.clock ≤ s'.clock

theorem Keeps.refl (paths : List PathBuf) (s : Disk) : Keeps paths s s :=
  ⟨fun _ _ => rfl, le_rfl⟩

theorem Keeps.tick {paths : List PathBuf} {s s' : Disk} (h : Keeps paths s s') :
    Keeps paths s s'.tick :=
  ⟨h.node, h.clock.trans (Nat.le_succ _)⟩

/-- What is kept twice is kept. -/
theorem Keeps.trans {paths : List PathBuf} {s s' s'' : Disk} (h : Keeps paths s s')
    (h' : Keeps paths s' s'') : Keeps paths s s'' :=
  ⟨fun path hpath => (h'.node path hpath).trans (h.node path hpath), h.clock.trans h'.clock⟩

/-- What is kept but for some paths is kept but for more. -/
theorem Keeps.mono {paths paths' : List PathBuf} {s s' : Disk} (hsubset : paths ⊆ paths')
    (h : Keeps paths s s') : Keeps paths' s s' :=
  ⟨fun path hpath => h.node path fun hmem => hpath (hsubset hmem), h.clock⟩

/-- To put something at a path keeps the others. -/
theorem keeps_put {paths : List PathBuf} {s : Disk} {path : PathBuf} {node : Node PathBuf File}
    (hpath : path ∈ paths) : Keeps paths s (s.put path node) :=
  ⟨fun _ hother => Disk.node_put_of_ne fun heq => hother (heq ▸ hpath), le_rfl⟩

/-- To remove what is at a path keeps the others. -/
theorem keeps_remove {paths : List PathBuf} {s : Disk} {path : PathBuf} (hpath : path ∈ paths) :
    Keeps paths s (s.remove path) :=
  ⟨fun _ hother => Disk.node_remove_of_ne fun heq => hother (heq ▸ hpath), le_rfl⟩

/-- The name of the binary that `current` points at. -/
def Disk.activeName (s : Disk) (layout : Layout) : Option String :=
  match s.node layout.current with
  | some (.link target) => target.fileName
  | _ => none

/-- `current` is a link, or nothing is there yet. -/
def Disk.Linked (s : Disk) (layout : Layout) : Prop :=
  ∀ node, s.node layout.current = some node → node.isLink = true

/-- A directory can be listed and files can be removed. -/
def Oracle.Prunes (o : Oracle) : Prop :=
  ∀ time path, o.fault time (.readLink path) = none ∧ o.fault time (.readDir path) = none ∧
    o.fault time (.metadata path) = none ∧ o.fault time (.removeFile path) = none

/-- Where a staged binary is written. -/
def Disk.stagingPath (s : Disk) (layout : Layout) (id : String) : PathBuf :=
  (s.ensured layout.binDir).destination (layout.stagedPath id)

/-- Some bytes are written where a binary is staged. -/
def Disk.stagedWith (s : Disk) (layout : Layout) (id : String) (bytes : List UInt8) (time : Nat) :
    Disk :=
  (s.ensured layout.binDir).put (s.stagingPath layout id) (.file ⟨bytes, time⟩)

/-- The temporary link is out of the way. -/
def Disk.cleared (s : Disk) (layout : Layout) : Disk :=
  s.remove layout.temporary

/-- What a link to a binary leads to. A directory that is not absolute is looked up from itself. -/
def Layout.linkTo (layout : Layout) (id : String) : PathBuf :=
  layout.temporary.linked (layout.stagedPath id)

/-- The temporary link points at a binary. -/
def Disk.pointed (s : Disk) (layout : Layout) (id : String) : Disk :=
  (s.cleared layout).put layout.temporary (.link (layout.linkTo id))

/-- The link points at a binary, and the temporary link is gone. -/
def Disk.swapped (s : Disk) (layout : Layout) (id : String) : Disk :=
  ((s.pointed layout id).remove layout.temporary).put layout.current (.link (layout.linkTo id))

/-- A binary can be staged: its directory is no file, and its path leads to a file or to
nothing. -/
def Disk.Stageable (s : Disk) (layout : Layout) (id : String) : Prop :=
  (∀ file, s.node layout.binDir ≠ some (.file file)) ∧
    (s.ensured layout.binDir).Writable (layout.stagedPath id)

/-- What staging a binary leaves. -/
def Disk.Stages (s : Disk) (layout : Layout) (id : String) (bytes : List UInt8) :
    Except String Unit → Disk → Prop
  | .error _, s' => Keeps [] s s' ∨ Keeps [] (s.ensured layout.binDir) s' ∨
      s.Stageable layout id ∧ ∃ left, Keeps [] (s.stagedWith layout id left (s.clock + 1)) s'
  | .ok (), s' => s.Stageable layout id ∧
      s' = (s.stagedWith layout id bytes (s.clock + 1)).tick.tick.tick

/-- What activating a binary leaves. -/
def Disk.Activates (s : Disk) (layout : Layout) (id : String) : Except String Unit → Disk → Prop
  | .error _, s' => Keeps [] s s' ∨ s.node layout.temporary ≠ some .other ∧
      (Keeps [] (s.cleared layout) s' ∨ Keeps [] (s.pointed layout id) s')
  | .ok (), s' => s.node layout.temporary ≠ some .other ∧
      s' = (s.swapped layout id).tick.tick.tick

section Operations

variable {o : Oracle} {s : Disk} {layout : Layout}

/-- A command leaves what the disk answers and leaves. -/
theorem wp_ask {c : UpgradeCall} {Q : UpgradeSig.Ans c → Disk → Prop}
    (hQ : Q (disk o c s).1 (disk o c s).2) : wp (disk o) Eq Guarantee.any (ask c) Q s :=
  wp_perform.mpr ⟨trivial, hQ⟩

/-- What is so after a call that is refused, that fails and that does what it does. -/
theorem Oracle.guarded_cases {α : Type} {c : UpgradeCall} {refused : Option String}
    {failed : Disk} {done : α × Disk} {P : Except String α × Disk → Prop}
    (hrefused : ∀ cause, refused = some cause → P (.error cause, s.tick))
    (hfailed : ∀ cause, o.fault s.clock c = some cause → P (.error cause, failed.tick))
    (hdone : refused = none → P (.ok done.1, done.2.tick)) :
    P (o.guarded c s refused failed done) := by
  unfold guarded
  split
  · exact hrefused _ rfl
  · split
    next hfault => exact hfailed _ hfault
    next => exact hdone rfl

/-! ### Single calls -/

/-- Reading a link yields its target, nothing where nothing is, and an error otherwise. -/
theorem wp_readLink {path : PathBuf} {Q : Except String (Option PathBuf) → Disk → Prop}
    (herror : ∀ cause, ((∃ node, s.node path = some node ∧ node.isLink = false) ∨
      o.fault s.clock (.readLink path) ≠ none) → Q (.error cause) s.tick)
    (hlink : ∀ target, s.node path = some (.link target) → Q (.ok (some target)) s.tick)
    (hnone : s.node path = none → Q (.ok none) s.tick) :
    wp (disk o) Eq Guarantee.any (ask (.readLink path)) Q s := by
  refine wp_ask ?_
  simp only [disk]
  split
  next target hnode =>
    exact o.guarded_cases (P := fun x => Q x.1 x.2) (fun _ h => nomatch h)
      (fun cause hfault => herror cause (.inr (hfault ▸ Option.some_ne_none cause)))
      fun _ => hlink target hnode
  next node hnot hnode =>
    have hother : ∃ node, s.node path = some node ∧ node.isLink = false := by
      refine ⟨node, hnode, ?_⟩
      cases node with
      | link target => exact absurd rfl (hnot target)
      | _ => rfl
    exact o.guarded_cases (P := fun x => Q x.1 x.2) (fun cause _ => herror cause (.inl hother))
      (fun cause _ => herror cause (.inl hother)) fun h => nomatch h
  next hnode =>
    exact o.guarded_cases (P := fun x => Q x.1 x.2) (fun _ h => nomatch h)
      (fun cause hfault => herror cause (.inr (hfault ▸ Option.some_ne_none cause)))
      fun _ => hnone hnode

/-- A directory is created unless a file is in its place. -/
theorem wp_createDirAll {path : PathBuf} {Q : Except String Unit → Disk → Prop}
    (herror : ∀ cause, Q (.error cause) s.tick)
    (hok : (∀ file, s.node path ≠ some (.file file)) → Q (.ok ()) (s.ensured path).tick) :
    wp (disk o) Eq Guarantee.any (ask (.createDirAll path)) Q s := by
  refine wp_ask ?_
  simp only [disk]
  split
  · exact o.guarded_cases (P := fun x => Q x.1 x.2) (fun cause _ => herror cause)
      (fun cause _ => herror cause) fun h => nomatch h
  next node hfile hnode =>
    refine o.guarded_cases (P := fun x => Q x.1 x.2) (fun cause _ => herror cause)
      (fun cause _ => herror cause) fun _ => ?_
    rw [Disk.ensured, hnode] at hok
    exact hok fun file h => hfile file (Option.some.inj h)
  next hnode =>
    refine o.guarded_cases (P := fun x => Q x.1 x.2) (fun cause _ => herror cause)
      (fun cause _ => herror cause) fun _ => ?_
    rw [Disk.ensured, hnode] at hok
    exact hok fun _ h => nomatch h

/-- A write goes where its path leads; one that fails may leave anything there. -/
theorem wp_write {path : PathBuf} {bytes : List UInt8} {Q : Except String Unit → Disk → Prop}
    (herror : ∀ cause, Q (.error cause) s.tick)
    (hleft : ∀ cause left, s.Writable path →
      Q (.error cause) (s.written (s.destination path) left).tick)
    (hok : s.Writable path → Q (.ok ()) (s.written (s.destination path) bytes).tick) :
    wp (disk o) Eq Guarantee.any (ask (.write path bytes)) Q s := by
  refine wp_ask ?_
  simp only [disk]
  split
  · exact o.guarded_cases (P := fun x => Q x.1 x.2) (fun cause _ => herror cause)
      (fun cause _ => herror cause) fun h => nomatch h
  · exact o.guarded_cases (P := fun x => Q x.1 x.2) (fun cause _ => herror cause)
      (fun cause _ => herror cause) fun h => nomatch h
  next hlink hother =>
    have hwritable : s.Writable path := by
      cases hnode : s.node (s.destination path) with
      | none => exact .inl hnode
      | some node =>
          cases node with
          | file file => exact .inr ⟨file, hnode⟩
          | other => exact absurd hnode hother
          | link target => exact absurd hnode (hlink target)
    refine o.guarded_cases (P := fun x => Q x.1 x.2) (fun cause _ => herror cause)
      (fun cause _ => ?_) fun _ => hok hwritable
    cases o.left s.clock with
    | none => exact herror cause
    | some left => exact hleft cause left hwritable

theorem wp_setPermissions {path : PathBuf} {mode : Nat} {Q : Except String Unit → Disk → Prop}
    (hQ : ∀ r, Q r s.tick) :
    wp (disk o) Eq Guarantee.any (ask (.setPermissions path mode)) Q s := by
  refine wp_ask ?_
  simp only [disk]
  split
  all_goals
    exact o.guarded_cases (P := fun x => Q x.1 x.2) (fun _ _ => hQ _) (fun _ _ => hQ _)
      fun _ => hQ _

/-- A file or a link is removed, and a directory is not. -/
theorem wp_removeFile {path : PathBuf} {Q : Except String Unit → Disk → Prop}
    (herror : ∀ cause, (s.node path = none ∨ s.node path = some .other ∨
      o.fault s.clock (.removeFile path) ≠ none) → Q (.error cause) s.tick)
    (hok : s.node path ≠ some .other → Q (.ok ()) (s.remove path).tick) :
    wp (disk o) Eq Guarantee.any (ask (.removeFile path)) Q s := by
  refine wp_ask ?_
  simp only [disk]
  split
  next hnode =>
    exact o.guarded_cases (P := fun x => Q x.1 x.2)
      (fun cause _ => herror cause (.inr (.inl hnode)))
      (fun cause _ => herror cause (.inr (.inl hnode))) fun h => nomatch h
  next node hother hnode =>
    refine o.guarded_cases (P := fun x => Q x.1 x.2) (fun _ h => nomatch h)
      (fun cause hfault => herror cause (.inr (.inr (hfault ▸ Option.some_ne_none cause))))
      fun _ => hok fun h => hother ?_
    exact Option.some.inj (hnode.symm.trans h)
  next hnode =>
    exact o.guarded_cases (P := fun x => Q x.1 x.2) (fun cause _ => herror cause (.inl hnode))
      (fun cause _ => herror cause (.inl hnode)) fun h => nomatch h

/-- A link is made where nothing is. -/
theorem wp_symlink {target path : PathBuf} {Q : Except String Unit → Disk → Prop}
    (herror : ∀ cause, Q (.error cause) s.tick)
    (hok : s.node path = none → Q (.ok ()) (s.put path (.link (path.linked target))).tick) :
    wp (disk o) Eq Guarantee.any (ask (.symlink target path)) Q s := by
  refine wp_ask ?_
  simp only [disk]
  split
  · exact o.guarded_cases (P := fun x => Q x.1 x.2) (fun cause _ => herror cause)
      (fun cause _ => herror cause) fun h => nomatch h
  next hnone =>
    exact o.guarded_cases (P := fun x => Q x.1 x.2) (fun cause _ => herror cause)
      (fun cause _ => herror cause) fun _ => hok hnone

/-- What is renamed is there, and takes the place of the target. -/
theorem wp_rename {source target : PathBuf} {Q : Except String Unit → Disk → Prop}
    (herror : ∀ cause, Q (.error cause) s.tick)
    (hok : ∀ node, s.node source = some node →
      Q (.ok ()) ((s.remove source).put target node).tick) :
    wp (disk o) Eq Guarantee.any (ask (.rename source target)) Q s := by
  refine wp_ask ?_
  simp only [disk]
  split
  · exact o.guarded_cases (P := fun x => Q x.1 x.2) (fun cause _ => herror cause)
      (fun cause _ => herror cause) fun h => nomatch h
  · exact o.guarded_cases (P := fun x => Q x.1 x.2) (fun cause _ => herror cause)
      (fun cause _ => herror cause) fun h => nomatch h
  next node hnode _ =>
    exact o.guarded_cases (P := fun x => Q x.1 x.2) (fun cause _ => herror cause)
      (fun cause _ => herror cause) fun _ => hok node hnode

/-- A directory is listed as it is, or not at all. -/
theorem wp_readDir {path : PathBuf}
    {Q : Except String (List (Except String String)) → Disk → Prop}
    (herror : ∀ cause, o.fault s.clock (.readDir path) ≠ none → Q (.error cause) s.tick)
    (hok : Q (.ok ((s.names path).map .ok)) s.tick) :
    wp (disk o) Eq Guarantee.any (ask (.readDir path)) Q s := by
  refine wp_ask ?_
  simp only [disk]
  exact o.guarded_cases (P := fun x => Q x.1 x.2) (fun _ h => nomatch h)
    (fun cause hfault => herror cause (hfault ▸ Option.some_ne_none cause)) fun _ => hok

/-- An entry is a file of its time, something else, or an error. -/
theorem wp_metadata {path : PathBuf} {Q : Except String Metadata → Disk → Prop}
    (herror : ∀ cause, (s.node path = none ∨ o.fault s.clock (.metadata path) ≠ none) →
      Q (.error cause) s.tick)
    (hfile : ∀ file, s.node path = some (.file file) → Q (.ok ⟨true, some file.modified⟩) s.tick)
    (hother : (∀ file, s.node path ≠ some (.file file)) → Q (.ok ⟨false, none⟩) s.tick) :
    wp (disk o) Eq Guarantee.any (ask (.metadata path)) Q s := by
  refine wp_ask ?_
  simp only [disk]
  split
  next file hnode =>
    exact o.guarded_cases (P := fun x => Q x.1 x.2) (fun _ h => nomatch h)
      (fun cause hfault => herror cause (.inr (hfault ▸ Option.some_ne_none cause)))
      fun _ => hfile file hnode
  next node hnone hnode =>
    refine o.guarded_cases (P := fun x => Q x.1 x.2) (fun _ h => nomatch h)
      (fun cause hfault => herror cause (.inr (hfault ▸ Option.some_ne_none cause)))
      fun _ => hother fun file hfile => ?_
    rw [hfile] at hnode
    exact hnone file (Option.some.inj hnode).symm
  next hnode =>
    exact o.guarded_cases (P := fun x => Q x.1 x.2) (fun cause _ => herror cause (.inl hnode))
      (fun cause _ => herror cause (.inl hnode)) fun h => nomatch h

theorem wp_restart {Q : Except String Unit → Disk → Prop} (hQ : ∀ r, Q r s.tick) :
    wp (disk o) Eq Guarantee.any (ask .restart) Q s := by
  refine wp_ask ?_
  simp only [disk]
  exact o.guarded_cases (P := fun x => Q x.1 x.2) (fun _ _ => hQ _) (fun _ _ => hQ _) fun _ => hQ _

/-! ### Operations -/

/-- A link is no other thing. -/
theorem Disk.linked_of_link {target : PathBuf} (h : s.node layout.current = some (.link target)) :
    s.Linked layout := fun node hnode => by
  rw [h] at hnode
  cases hnode
  rfl

/-- To look which binary is active changes nothing, and it is told where `current` is a link. -/
theorem active_spec (o : Oracle) (s : Disk) (layout : Layout) :
    wp (disk o) Eq Guarantee.any layout.active
      (fun r s' => s' = s.tick ∧
        (∀ prior, r = .ok prior → prior = s.activeName layout ∧ s.Linked layout) ∧
        (s.Linked layout → o.fault s.clock (.readLink layout.current) = none →
          r = .ok (s.activeName layout))) s := by
  refine wp_bind (wp_readLink (fun cause hcause => ?_) (fun target hlink => ?_) fun hnone => ?_)
  · refine wp_ret.mpr ⟨rfl, (fun _ h => nomatch h), fun hlinked hfault => ?_⟩
    obtain ⟨node, hnode, hnot⟩ | hfailed := hcause
    · exact nomatch hnot.symm.trans (hlinked node hnode)
    · exact absurd hfault hfailed
  · have hactive : s.activeName layout = target.fileName := by
      rw [Disk.activeName, hlink]
    refine wp_ret.mpr ⟨rfl, fun prior h => ?_, fun _ _ => congrArg Except.ok hactive.symm⟩
    cases h
    exact ⟨hactive.symm, Disk.linked_of_link hlink⟩
  · have hactive : s.activeName layout = none := by
      rw [Disk.activeName, hnone]
    refine wp_ret.mpr ⟨rfl, fun prior h => ?_, fun _ _ => congrArg Except.ok hactive.symm⟩
    cases h
    exact ⟨hactive.symm, fun node hnode => nomatch hnone.symm.trans hnode⟩

theorem Disk.clock_ensured (s : Disk) (path : PathBuf) : (s.ensured path).clock = s.clock := by
  rw [ensured]
  split <;> rfl

theorem Disk.keeps_ensured (s : Disk) (path : PathBuf) : Keeps [path] s (s.ensured path) := by
  rw [ensured]
  split
  · exact keeps_put (List.mem_singleton_self path)
  · exact Keeps.refl _ s

/-- Staging leaves what `Disk.Stages` says. -/
theorem stage_outcome (o : Oracle) (s : Disk) (layout : Layout) (id : String)
    (bytes : List UInt8) :
    wp (disk o) Eq Guarantee.any (layout.stage id bytes) (s.Stages layout id bytes) s := by
  refine wp_bind (wp_createDirAll (fun cause => ?_) fun hdir => ?_)
  · exact wp_ret.mpr (.inl (Keeps.refl _ s).tick)
  refine wp_bind (wp_write (fun cause => ?_) (fun cause left hwritable => ?_) fun hwritable => ?_)
  · exact wp_ret.mpr (.inr (.inl (Keeps.refl _ _).tick.tick))
  · refine wp_ret.mpr (.inr (.inr ⟨⟨hdir, hwritable⟩, left, ?_⟩))
    rw [Disk.stagedWith, ← s.clock_ensured layout.binDir]
    exact (Keeps.refl _ _).tick.tick
  · have hwritten : Keeps [] (s.stagedWith layout id bytes (s.clock + 1))
        ((s.ensured layout.binDir).tick.written (s.stagingPath layout id) bytes).tick.tick := by
      rw [Disk.stagedWith, ← s.clock_ensured layout.binDir]
      exact (Keeps.refl _ _).tick.tick.tick
    refine wp_bind (wp_setPermissions fun r => ?_)
    cases r with
    | error cause => exact wp_ret.mpr (.inr (.inr ⟨⟨hdir, hwritable⟩, bytes, hwritten⟩))
    | ok =>
        refine wp_ret.mpr ⟨⟨hdir, hwritable⟩, ?_⟩
        rw [Disk.stagedWith, ← s.clock_ensured layout.binDir]
        rfl

/-- A binary is staged at its path, unless something there or on the way refuses it. -/
theorem stage_spec (o : Oracle) (s : Disk) {layout : Layout} {id : String}
    (hlink : ∀ target, s.node (layout.stagedPath id) ≠ some (.link target))
    (hdir : layout.stagedPath id ≠ layout.binDir) (bytes : List UInt8) :
    wp (disk o) Eq Guarantee.any (layout.stage id bytes)
      (fun r s' => Keeps [layout.binDir, layout.stagedPath id] s s' ∧ (r = .ok () →
        ∃ time, s.clock ≤ time ∧
          s'.node (layout.stagedPath id) = some (.file ⟨bytes, time⟩))) s := by
  have hensured := s.keeps_ensured layout.binDir
  have hpath : s.stagingPath layout id = layout.stagedPath id :=
    Disk.destination_eq (by simpa [hensured.node _ (by simpa using hdir)] using hlink)
  have hstaged : ∀ left time, Keeps [layout.binDir, layout.stagedPath id] s
      (s.stagedWith layout id left time) := by
    intro left time
    rw [Disk.stagedWith, hpath]
    exact (hensured.mono (by simp)).trans (keeps_put (by simp))
  refine wp_post (fun r s' h => ?_) (stage_outcome o s layout id bytes)
  cases r with
  | error cause =>
      refine ⟨?_, fun h => nomatch h⟩
      obtain hkept | hkept | ⟨-, left, hkept⟩ := h
      · exact hkept.mono (by simp)
      · exact (hensured.mono (by simp)).trans (hkept.mono (by simp))
      · exact (hstaged left _).trans (hkept.mono (by simp))
  | ok =>
      obtain ⟨-, rfl⟩ := h
      refine ⟨(hstaged bytes _).tick.tick.tick, fun _ => ⟨s.clock + 1, Nat.le_succ _, ?_⟩⟩
      rw [← hpath]
      exact Disk.node_put

/-- In an absolute directory a link leads to the path of its binary. -/
theorem Layout.linkTo_of_absolute {layout : Layout} (h : layout.binDir.absolute = true)
    (id : String) : layout.linkTo id = layout.stagedPath id := by
  have habsolute : (layout.stagedPath id).absolute = true := by
    rw [stagedPath, PathBuf.join]
    split
    next hid => exact hid
    next => exact h
  exact if_pos habsolute

/-- The temporary link has a name of its own. -/
theorem Layout.temporary_ne_current (layout : Layout) : layout.temporary ≠ layout.current := by
  intro h
  have hname := congrArg String.toList (PathBuf.below_injective _ h)
  rw [String.toList_append] at hname
  have hlength := congrArg List.length hname
  have hprefix : temporaryPrefix.toList.length = 21 := by decide
  have hcurrent : "current".toList.length = 7 := by decide
  rw [List.length_append, hprefix, hcurrent] at hlength
  omega

/-- To remove what is not there changes nothing. -/
theorem Disk.remove_of_none {path : PathBuf} (h : s.node path = none) : s.remove path = s := by
  have hnot : path ∉ s.entries.keys := AList.lookup_eq_none.mp h
  have hentries : s.entries.erase path = s.entries :=
    AList.ext (List.kerase_of_notMem_keys hnot)
  rw [remove, hentries]

/-- Activating leaves what `Disk.Activates` says. -/
theorem activate_outcome (o : Oracle) (s : Disk) (layout : Layout) (id : String) :
    wp (disk o) Eq Guarantee.any (layout.activate id) (s.Activates layout id) s := by
  -- the temporary link was removed or was not there, or something is still in its place
  have hremoved : wp (disk o) Eq Guarantee.any (ask (.removeFile layout.temporary))
      (fun _ s' => s' = s.tick ∨
        s.node layout.temporary ≠ some .other ∧ s' = (s.cleared layout).tick) s :=
    wp_removeFile (fun _ _ => .inl rfl) fun hother => .inr ⟨hother, rfl⟩
  refine wp_bind (wp_post (fun _ s₁ hs₁ => ?_) hremoved)
  refine wp_bind (wp_symlink (fun cause => wp_ret.mpr ?_) fun hnone => ?_)
  · obtain rfl | ⟨hother, rfl⟩ := hs₁
    · exact .inl (Keeps.refl _ s).tick.tick
    · exact .inr ⟨hother, .inl (Keeps.refl _ _).tick.tick⟩
  have hs₁ : s.node layout.temporary ≠ some .other ∧ s₁ = (s.cleared layout).tick := by
    obtain rfl | hs₁ := hs₁
    · rw [Disk.node_tick] at hnone
      rw [Disk.cleared, Disk.remove_of_none hnone, hnone]
      exact ⟨nofun, rfl⟩
    · exact hs₁
  obtain ⟨hother, rfl⟩ := hs₁
  refine wp_bind (wp_rename (fun cause => ?_) fun node hnode => ?_)
  · refine wp_bind (wp_removeFile (fun _ _ => wp_ret.mpr ?_) fun _ => wp_ret.mpr ?_)
    · exact .inr ⟨hother, .inr (Keeps.refl _ (s.pointed layout id)).tick.tick.tick.tick⟩
    · refine .inr ⟨hother, .inl ⟨fun path _ => ?_, ?_⟩⟩
      · by_cases hpath : path = layout.temporary
        · subst hpath
          exact Disk.node_remove.trans Disk.node_remove.symm
        · exact (Disk.node_remove_of_ne hpath).trans (Disk.node_put_of_ne hpath)
      · exact Nat.le_add_right s.clock 4
  · rw [Disk.node_tick, Disk.node_put] at hnode
    cases hnode
    exact wp_ret.mpr ⟨hother, rfl⟩

/-- The link is replaced, or it stays what it is. -/
theorem activate_spec (o : Oracle) (s : Disk) (layout : Layout) (id : String) :
    wp (disk o) Eq Guarantee.any (layout.activate id)
      (fun r s' => Keeps [layout.temporary, layout.current] s s' ∧
        s'.node layout.current =
          if r = .ok () then some (.link (layout.linkTo id)) else s.node layout.current) s := by
  have hcleared : Keeps [layout.temporary] s (s.cleared layout) :=
    keeps_remove (List.mem_singleton_self _)
  have hpointed : Keeps [layout.temporary] s (s.pointed layout id) :=
    hcleared.trans (keeps_put (List.mem_singleton_self _))
  refine wp_post (fun r s' h => ?_) (activate_outcome o s layout id)
  cases r with
  | error cause =>
      -- what is kept but for the temporary link keeps the link
      have hkept : Keeps [layout.temporary] s s' := by
        obtain hkept | ⟨-, hkept | hkept⟩ := h
        · exact hkept.mono (by simp)
        · exact hcleared.trans (hkept.mono (by simp))
        · exact hpointed.trans (hkept.mono (by simp))
      exact ⟨hkept.mono (by simp), hkept.node _ (by simpa using layout.temporary_ne_current.symm)⟩
  | ok =>
      obtain ⟨-, rfl⟩ := h
      refine ⟨?_, ?_⟩
      · refine (hpointed.mono (by simp)).trans ?_
        exact ((keeps_remove (by simp)).trans (keeps_put (by simp))).tick.tick.tick
      · rw [if_pos rfl]
        exact Disk.node_put

/-- To bring the unit up takes time only. -/
theorem bringUp_outcome (o : Oracle) (s : Disk) (plan : Plan) :
    wp (disk o) Eq Guarantee.any plan.bringUp (fun _ s' => s' = s.tick ∨ s' = s.tick.tick) s := by
  refine wp_bind (wp_restart fun r => ?_)
  cases r with
  | error cause => exact wp_ret.mpr (.inl rfl)
  | ok => exact wp_ask (.inr rfl)

theorem bringUp_spec (o : Oracle) (s : Disk) (plan : Plan) :
    wp (disk o) Eq Guarantee.any plan.bringUp (fun _ s' => Keeps [] s s') s := by
  refine wp_post (fun _ s' h => ?_) (bringUp_outcome o s plan)
  obtain rfl | rfl := h
  · exact (Keeps.refl _ s).tick
  · exact (Keeps.refl _ s).tick.tick

/-- The files among some entries of the directory, each with its modification time. -/
def Disk.staged (s : Disk) (layout : Layout) (names : List String) : List (PathBuf × Nat) :=
  names.filterMap fun name =>
    if Layout.isLinkName name then none
    else
      match s.node (layout.binDir.below [name]) with
      | some (.file file) => some (layout.binDir.below [name], file.modified)
      | _ => none

section Staged

variable {names : List String} {name : String}

theorem Disk.staged_cons_file {file : File} (hlink : Layout.isLinkName name = false)
    (hfile : s.node (layout.binDir.below [name]) = some (.file file)) :
    s.staged layout (name :: names) =
      (layout.binDir.below [name], file.modified) :: s.staged layout names := by
  rw [staged, List.filterMap_cons, hlink, hfile]
  rfl

theorem Disk.staged_cons_other
    (hother : ∀ file, s.node (layout.binDir.below [name]) ≠ some (.file file)) :
    s.staged layout (name :: names) = s.staged layout names := by
  rw [staged, List.filterMap_cons]
  split
  next => rfl
  next found hfound =>
    split at hfound
    · cases hfound
    · split at hfound
      next file hfile => exact absurd hfile (hother file)
      next => cases hfound

end Staged

/-- Scanning finds the files. -/
theorem scan_spec (o : Oracle) (s : Disk) (layout : Layout) (names : List String) :
    wp (disk o) Eq Guarantee.any (layout.scan (names.map .ok))
      (fun r s' => Keeps [] s s' ∧ (∀ staged, r = .ok staged → staged = s.staged layout names) ∧
        (o.Prunes → (∀ name ∈ names, (s.node (layout.binDir.below [name])).isSome = true) →
          ∃ staged, r = .ok staged)) s := by
  induction names generalizing s with
  | nil => exact wp_ret.mpr ⟨Keeps.refl _ s, fun _ h => (Except.ok.inj h).symm, fun _ _ => ⟨_, rfl⟩⟩
  | cons name names ih =>
      rw [List.map_cons, Layout.scan]
      cases hlink : Layout.isLinkName name with
      | true =>
          rw [if_pos rfl]
          refine wp_post (fun r s' h => ?_) (ih s)
          obtain ⟨hkeeps, hstaged, hok⟩ := h
          refine ⟨hkeeps, fun staged hr => ?_, fun hprunes hnames => ?_⟩
          · rw [hstaged staged hr]
            simp [Disk.staged, hlink]
          · exact hok hprunes fun other hother => hnames other (List.mem_cons_of_mem _ hother)
      | false =>
          rw [if_neg Bool.false_ne_true]
          refine wp_bind (wp_metadata (fun cause hcause => ?_) (fun file hfile => ?_)
            fun hother => ?_)
          · refine wp_ret.mpr ⟨(Keeps.refl _ s).tick, (fun _ h => nomatch h), ?_⟩
            intro hprunes hnames
            obtain hnone | hfault := hcause
            · have hsome := hnames name List.mem_cons_self
              rw [hnone] at hsome
              cases hsome
            · exact absurd (hprunes s.clock _).2.2.1 hfault
          · refine wp_bind (wp_post (fun r s' h => ?_) (ih s.tick))
            obtain ⟨hkeeps, hstaged, hok⟩ := h
            have hkeeps : Keeps [] s s' := (Keeps.refl _ s).tick.trans hkeeps
            cases r with
            | error cause =>
                refine wp_ret.mpr ⟨hkeeps, (fun _ h => nomatch h), fun hprunes hnames => ?_⟩
                obtain ⟨staged, h⟩ := hok hprunes fun other hother =>
                  hnames other (List.mem_cons_of_mem _ hother)
                cases h
            | ok staged =>
                refine wp_ret.mpr ⟨hkeeps, fun staged' h => ?_, fun _ _ => ⟨_, rfl⟩⟩
                cases h
                rw [hstaged staged rfl, Disk.staged_cons_file hlink hfile]
                rfl
          · refine wp_post (fun r s' h => ?_) (ih s.tick)
            obtain ⟨hkeeps, hstaged, hok⟩ := h
            refine ⟨(Keeps.refl _ s).tick.trans hkeeps, fun staged hr => ?_, ?_⟩
            · rw [hstaged staged hr, Disk.staged_cons_other hother]
              rfl
            · exact fun hprunes hnames => hok hprunes fun other hother =>
                hnames other (List.mem_cons_of_mem _ hother)

/-- What stays and what goes when some files are removed, up to the first that cannot be. -/
theorem removeAll_spec (o : Oracle) (s : Disk) (paths : List PathBuf) :
    wp (disk o) Eq Guarantee.any (Layout.removeAll paths)
      (fun r s' =>
        (∀ path, s'.node path = s.node path ∨ path ∈ paths ∧ s'.node path = none) ∧
        (o.Prunes → paths.Nodup → (∀ path ∈ paths, ∃ file, s.node path = some (.file file)) →
          r = .ok () ∧ ∀ path ∈ paths, s'.node path = none)) s := by
  induction paths generalizing s with
  | nil => exact wp_ret.mpr ⟨fun _ => .inl rfl, fun _ _ _ => ⟨rfl, by simp⟩⟩
  | cons path paths ih =>
      refine wp_bind (wp_removeFile (fun cause hcause => ?_) ?_)
      · refine wp_ret.mpr ⟨fun _ => .inl rfl, fun hprunes _ hfiles => ?_⟩
        obtain ⟨file, hfile⟩ := hfiles path List.mem_cons_self
        obtain hnone | hdir | hfault := hcause
        · rw [hfile] at hnone
          cases hnone
        · rw [hfile] at hdir
          cases hdir
        · exact absurd (hprunes s.clock path).2.2.2 hfault
      · refine fun _ => wp_post (fun r s' h => ?_) (ih (s.remove path).tick)
        obtain ⟨hkeeps, hgone⟩ := h
        refine ⟨fun other => ?_, fun hprunes hnodup hfiles => ?_⟩
        · obtain hsame | ⟨hmem, hnone⟩ := hkeeps other
          · by_cases hne : other = path
            · subst hne
              exact .inr ⟨List.mem_cons_self, hsame.trans Disk.node_remove⟩
            · exact .inl (hsame.trans (Disk.node_remove_of_ne hne))
          · exact .inr ⟨List.mem_cons_of_mem _ hmem, hnone⟩
        · obtain ⟨hnotin, hnodup⟩ := List.nodup_cons.mp hnodup
          obtain ⟨rfl, hnone⟩ := hgone hprunes hnodup fun other hother => by
            obtain ⟨file, hfile⟩ := hfiles other (List.mem_cons_of_mem _ hother)
            have hne : other ≠ path := fun heq => hnotin (heq ▸ hother)
            exact ⟨file, (Disk.node_remove_of_ne hne).trans hfile⟩
          refine ⟨rfl, List.forall_mem_cons.mpr ⟨?_, hnone⟩⟩
          obtain hsame | ⟨-, hnone⟩ := hkeeps path
          · exact hsame.trans Disk.node_remove
          · exact hnone

/-! ### Pruning -/

/-- What pruning a directory takes away. -/
def Disk.gone (s : Disk) (layout : Layout) (keep : Nat) : List PathBuf :=
  Layout.stale keep (s.activeName layout) (s.staged layout (s.names layout.binDir))

/-- What is staged is each file of the directory that is none of the links. -/
theorem Disk.mem_staged {entry : PathBuf × Nat} {names : List String} :
    entry ∈ s.staged layout names ↔ ∃ name ∈ names, Layout.isLinkName name = false ∧ ∃ file,
      s.node (layout.binDir.below [name]) = some (.file file) ∧
        entry = (layout.binDir.below [name], file.modified) := by
  rw [staged, List.mem_filterMap]
  refine exists_congr fun name => and_congr_right fun _ => ?_
  constructor
  · intro h
    split at h
    next => cases h
    next hlink =>
      split at h
      next file hfile =>
        exact ⟨Bool.eq_false_iff.mpr hlink, file, hfile, (Option.some.inj h).symm⟩
      next => cases h
  · rintro ⟨hlink, file, hfile, rfl⟩
    rw [hlink, hfile]
    rfl

/-- No binary is staged twice. -/
theorem Disk.nodup_staged {names : List String} (hnodup : names.Nodup) :
    ((s.staged layout names).map Prod.fst).Nodup := by
  have hsublist : ((s.staged layout names).map Prod.fst).Sublist
      (names.map fun name => layout.binDir.below [name]) := by
    induction names with
    | nil => exact .slnil
    | cons name names ih =>
        have ih := ih (List.nodup_cons.mp hnodup).2
        by_cases hfile : ∃ file, s.node (layout.binDir.below [name]) = some (.file file)
        · obtain ⟨file, hfile⟩ := hfile
          cases hlink : Layout.isLinkName name with
          | true =>
              have hskip : s.staged layout (name :: names) = s.staged layout names := by
                rw [staged, List.filterMap_cons, hlink]
                rfl
              rw [hskip]
              exact ih.cons _
          | false =>
              rw [staged_cons_file hlink hfile]
              exact ih.cons_cons _
        · rw [staged_cons_other (not_exists.mp hfile)]
          exact ih.cons _
  exact hsublist.nodup (hnodup.map fun _ _ h => PathBuf.below_injective _ h)

/-- What is stale is beyond the newest and not active. -/
theorem Layout.mem_stale {keep : Nat} {active : Option String} {staged : List (PathBuf × Nat)}
    {path : PathBuf} :
    path ∈ stale keep active staged ↔
      path ∈ ((newestFirst staged).drop keep).map Prod.fst ∧ isActive active path = false := by
  rw [stale, List.mem_filter, Bool.not_eq_true']

theorem Layout.nodup_stale {keep : Nat} {active : Option String} {staged : List (PathBuf × Nat)}
    (hnodup : (staged.map Prod.fst).Nodup) : (stale keep active staged).Nodup := by
  refine List.Nodup.filter _ (List.Nodup.sublist ((List.drop_sublist _ _).map _) ?_)
  exact ((List.perm_insertionSort _ staged).map Prod.fst).nodup_iff.mpr hnodup

/-- What is taken away is a file. -/
theorem Disk.file_of_mem_gone {keep : Nat} {path : PathBuf} (h : path ∈ s.gone layout keep) :
    ∃ file, s.node path = some (.file file) := by
  obtain ⟨entry, hentry, rfl⟩ := List.mem_map.mp (Layout.mem_stale.mp h).1
  obtain ⟨name, -, -, file, hfile, rfl⟩ :=
    mem_staged.mp ((List.mem_insertionSort _).mp (List.mem_of_mem_drop hentry))
  exact ⟨file, hfile⟩

/-- Pruning took away nothing but stale binaries, and all of them where it could. -/
structure Pruned (o : Oracle) (layout : Layout) (keep : Nat) (s s' : Disk) : Prop where
  keeps : ∀ path, s'.node path = s.node path ∨ path ∈ s.gone layout keep ∧ s'.node path = none
  gone : o.Prunes → (∃ target, s.node layout.current = some (.link target)) →
    ∀ path ∈ s.gone layout keep, s'.node path = none

/-- Pruning removes stale binaries and nothing else, and all of them where nothing fails. -/
theorem prune_spec (o : Oracle) (s : Disk) (layout : Layout) (keep : Nat) :
    wp (disk o) Eq Guarantee.any (layout.prune keep) (fun _ s' => Pruned o layout keep s s') s := by
  refine wp_bind (wp_post (fun r s₁ h => ?_) (active_spec o s layout))
  obtain ⟨rfl, hactive, hok⟩ := h
  cases r with
  | error error =>
      refine wp_ret.mpr ⟨fun path => .inl rfl, fun hprunes hlink => ?_⟩
      obtain ⟨target, hlink⟩ := hlink
      exact nomatch hok (Disk.linked_of_link hlink) (hprunes s.clock _).1
  | ok active =>
      obtain ⟨rfl, -⟩ := hactive active rfl
      refine wp_bind (wp_readDir (fun cause hfault => ?_) ?_)
      · exact wp_ret.mpr ⟨fun path => .inl rfl, fun hprunes _ =>
          absurd (hprunes _ layout.binDir).2.1 hfault⟩
      · refine wp_bind (wp_post (fun r s₂ h => ?_)
          (scan_spec o s.tick.tick layout (s.names layout.binDir)))
        obtain ⟨hkept, hstaged, hok⟩ := h
        have hnode : ∀ path, s₂.node path = s.node path := fun path => hkept.node path (by simp)
        cases r with
        | error error =>
            refine wp_ret.mpr ⟨fun path => .inl (hnode path), fun hprunes _ => ?_⟩
            obtain ⟨_, h⟩ := hok hprunes fun name hname => Disk.mem_names.mp hname
            cases h
        | ok staged =>
            obtain rfl := hstaged staged rfl
            refine wp_bind (wp_post (fun r s₃ h => ?_)
              (removeAll_spec o s₂ (s.gone layout keep)))
            obtain ⟨hkeeps, hgone⟩ := h
            have hkeeps : ∀ path, s₃.node path = s.node path ∨
                path ∈ s.gone layout keep ∧ s₃.node path = none := by
              intro path
              rw [← hnode path]
              exact hkeeps path
            have hall : o.Prunes → ∀ path ∈ s.gone layout keep, s₃.node path = none := by
              intro hprunes
              refine (hgone hprunes ?_ fun path hpath => ?_).2
              · exact Layout.nodup_stale (Disk.nodup_staged (s.nodup_names _))
              · rw [hnode path]
                exact Disk.file_of_mem_gone hpath
            cases r with
            | error error => exact wp_ret.mpr ⟨hkeeps, fun hprunes _ => hall hprunes⟩
            | ok => exact wp_ret.mpr ⟨hkeeps, fun hprunes _ => hall hprunes⟩

end Operations

end Fraisier.SelfUpgrade
